/-
`decompress_lzss` reads back what a coder has written: units of code in groups
of eight under a byte of flags.  A destination that is too small gets the
beginning of the text.
-/
import Kryptonite.Lzss
import Kryptonite.SlidingWindow
import Mathlib.Data.Nat.Bitwise

namespace Kryptonite

namespace Lzss

open SlidingWindow

section Code

/-- A unit of code. -/
def code : Token UInt8 → List UInt8
  | .literal byte => [byte]
  | .copy cell length =>
      [UInt8.ofNat cell, UInt8.ofNat (((cell >>> 4) &&& 0xF0) ||| (length - (threshold + 1)))]

/-- What a unit of code has room for. -/
def Codable : Token UInt8 → Prop
  | .literal _ => True
  | .copy cell length => cell < rbSize ∧ threshold < length ∧ length ≤ upLim

/-- The two halves of the second byte. -/
theorem halves : ∀ high < 16, ∀ low < 16, ((16 * high + low) &&& 0xF0) = 16 * high ∧
    ((16 * high) ||| low) = 16 * high + low ∧ ((16 * high + low) &&& 0x0F) = low := by
  decide

theorem and_mask (a : Nat) : a &&& (rbSize - 1) = a % rbSize :=
  Nat.and_two_pow_sub_one_eq_mod a 12

variable {cell length : Nat} (hcell : cell < rbSize) (hlength : threshold < length)
  (hbound : length ≤ upLim)

include hcell hlength hbound

/-- The second byte as a number. -/
theorem secondByte_toNat :
    (UInt8.ofNat (((cell >>> 4) &&& 0xF0) ||| (length - (threshold + 1)))).toNat =
      16 * (cell / 256) + (length - (threshold + 1)) := by
  rw [rbSize] at hcell
  rw [upLim] at hbound
  rw [threshold] at hlength ⊢
  have hshift : cell >>> 4 = 16 * (cell / 256) + cell / 16 % 16 := by
    rw [Nat.shiftRight_eq_div_pow]
    omega
  rw [hshift, (halves (cell / 256) (by omega) (cell / 16 % 16) (by omega)).1,
    (halves (cell / 256) (by omega) (length - (2 + 1)) (by omega)).2.1, UInt8.toNat_ofNat']
  omega

/-- The decoder gets the cell and the length back. -/
theorem decode_cell :
    (UInt8.ofNat cell).toNat |||
      (((UInt8.ofNat (((cell >>> 4) &&& 0xF0) ||| (length - (threshold + 1)))).toNat &&& 0xF0)
        <<< 4) = cell := by
  rw [secondByte_toNat hcell hlength hbound]
  rw [rbSize] at hcell
  rw [upLim] at hbound
  rw [threshold] at hlength ⊢
  rw [(halves (cell / 256) (by omega) (length - (2 + 1)) (by omega)).1, UInt8.toNat_ofNat',
    Nat.shiftLeft_eq, Nat.or_comm]
  have hor := Nat.two_pow_add_eq_or_of_lt (show cell % 2 ^ 8 < 2 ^ 8 by omega) (cell / 256)
  have hhigh : 16 * (cell / 256) * 2 ^ 4 = 2 ^ 8 * (cell / 256) := by omega
  rw [hhigh, ← hor]
  omega

theorem decode_length :
    ((UInt8.ofNat (((cell >>> 4) &&& 0xF0) ||| (length - (threshold + 1)))).toNat &&& 0x0F) +
      threshold + 1 = length := by
  rw [secondByte_toNat hcell hlength hbound]
  rw [rbSize] at hcell
  rw [upLim] at hbound
  rw [threshold] at hlength ⊢
  rw [(halves (cell / 256) (by omega) (length - (2 + 1)) (by omega)).2.2]
  omega

end Code

section Flags

/-- The flags tell the bytes from the copies. -/
def Flags (flags : UInt8) (group : List (Token UInt8)) : Prop :=
  ∀ k, flags.toNat.testBit k = (group[k]?).any Token.isLiteral

variable (flags : UInt8)

/-- The higher byte counts to eight. -/
theorem testBit_flags {j : Nat} (hj : j < 8) :
    (flags.toNat ||| 0xFF00).testBit j = flags.toNat.testBit j ∧
      (flags.toNat ||| 0xFF00).testBit (j + 8) = true := by
  have hlow : ∀ j < 8, Nat.testBit 0xFF00 j = false ∧ Nat.testBit 0xFF00 (j + 8) = true := by
    decide
  rw [Nat.testBit_or, Nat.testBit_or, (hlow j hj).1, (hlow j hj).2, Bool.or_false, Bool.or_true]
  exact ⟨rfl, rfl⟩

theorem flags_unit {j : Nat} (hj : j < 8) :
    (((flags.toNat ||| 0xFF00) >>> j) &&& 1 ≠ 0) ↔ flags.toNat.testBit j = true := by
  rw [← (testBit_flags flags hj).1, Nat.testBit, Nat.and_comm, bne_iff_ne]

theorem flags_left {j : Nat} (hj : j < 8) : ((flags.toNat ||| 0xFF00) >>> j) &&& 0x100 ≠ 0 := by
  rw [show 0x100 = 2 ^ 8 from rfl, Nat.and_two_pow, Nat.testBit_shiftRight,
    (testBit_flags flags hj).2]
  decide

theorem flags_used : ((flags.toNat ||| 0xFF00) >>> 8) &&& 0x100 = 0 := by
  have hbyte : flags.toNat < 2 ^ 16 := by
    have := flags.toNat_lt
    omega
  rw [show 0x100 = 2 ^ 8 from rfl, Nat.and_two_pow, Nat.testBit_shiftRight, Nat.testBit_or,
    Nat.testBit_lt_two_pow hbyte]
  rfl

end Flags

section Rounds

variable {dstlen small large fuel i remaining k : Nat} {d next : Decoder} {out : List UInt8}

/-- One round of the loop of `decompress_lzss`. -/
def Decoder.round (dstlen : Nat) (d : Decoder) : Option Decoder :=
  d.nextFlags.bind (Decoder.unit dstlen)

theorem decompressLoop_stops (h : d.round dstlen = none) :
    decompressLoop dstlen (fuel + 1) d = some d.dst := by
  rw [decompressLoop]
  cases hflags : d.nextFlags with
  | none => rfl
  | some ready =>
      rw [Decoder.round, hflags, Option.bind_some] at h
      simp only [h]

theorem decompressLoop_goes (h : d.round dstlen = some next) :
    decompressLoop dstlen (fuel + 1) d = decompressLoop dstlen fuel next := by
  obtain ⟨ready, hflags, hunit⟩ := Option.bind_eq_some_iff.mp h
  rw [decompressLoop, hflags]
  simp only [hunit]

/-- What a copy leaves alone, and that it only adds to the destination. -/
theorem copyLoop_grows : (d.copyLoop dstlen i remaining k).src = d.src ∧
    (d.copyLoop dstlen i remaining k).flags = d.flags ∧
    d.dst <+: (d.copyLoop dstlen i remaining k).dst := by
  induction remaining generalizing k d with
  | zero => exact ⟨rfl, rfl, List.prefix_rfl⟩
  | succ remaining ih =>
      rw [Decoder.copyLoop]
      split
      · obtain ⟨hsrc, hflags, hdst⟩ :=
          @ih (k + 1) (d.put (d.textBuf ((i + k) &&& (rbSize - 1))))
        exact ⟨hsrc, hflags, (List.prefix_append _ _).trans hdst⟩
      · exact ⟨rfl, rfl, List.prefix_rfl⟩

theorem nextFlags_spec (h : d.nextFlags = some next) :
    next.src.length ≤ d.src.length ∧ next.dst = d.dst := by
  rw [Decoder.nextFlags] at h
  split at h
  · split at h
    · cases h
    next byte src hsrc =>
      cases h
      rw [hsrc]
      exact ⟨Nat.le_succ _, rfl⟩
  · cases h
    exact ⟨Nat.le_refl _, rfl⟩

/-- A unit takes something from the source and only adds to the destination. -/
theorem unit_spec (h : d.unit dstlen = some next) :
    next.src.length < d.src.length ∧ d.dst <+: next.dst := by
  rw [Decoder.unit] at h
  split at h
  · split at h
    · cases h
    next byte src hsrc =>
      split at h
      · cases h
        rw [hsrc]
        exact ⟨Nat.lt_succ_self _, List.prefix_append _ _⟩
      · cases h
  · split at h
    next first second src hsrc =>
      cases h
      obtain ⟨hsame, -, hgrows⟩ := @copyLoop_grows dstlen
        (first.toNat ||| ((second.toNat &&& 0xF0) <<< 4))
        ((second.toNat &&& 0x0F) + threshold + 1) 0 { d with src := src }
      rw [hsame, hsrc]
      exact ⟨Nat.lt_succ_of_lt (Nat.lt_succ_self _), hgrows⟩
    · cases h

theorem round_spec (h : d.round dstlen = some next) :
    next.src.length < d.src.length ∧ d.dst <+: next.dst := by
  obtain ⟨ready, hflags, hunit⟩ := Option.bind_eq_some_iff.mp h
  obtain ⟨hle, hdst⟩ := nextFlags_spec hflags
  obtain ⟨hlt, hgrows⟩ := unit_spec hunit
  exact ⟨hlt.trans_le hle, hdst ▸ hgrows⟩

/-- The loop ends when the source does, and only adds to the destination. -/
theorem decompressLoop_total (hfuel : d.src.length < fuel) :
    ∃ out, decompressLoop dstlen fuel d = some out ∧ d.dst <+: out := by
  induction fuel generalizing d with
  | zero => omega
  | succ fuel ih =>
      cases hround : d.round dstlen with
      | none => exact ⟨d.dst, decompressLoop_stops hround, List.prefix_rfl⟩
      | some next =>
          obtain ⟨hlt, hgrows⟩ := round_spec hround
          obtain ⟨out, hrun, hout⟩ := @ih next (by omega)
          exact ⟨out, (decompressLoop_goes hround).trans hrun, hgrows.trans hout⟩

end Rounds

section Truncation

variable {small large fuel i remaining k : Nat} {d next : Decoder} {out : List UInt8}

/-- A full destination stays as it is. -/
theorem decompressLoop_full (hfull : small ≤ d.dst.length) (hfuel : d.src.length < fuel) :
    decompressLoop small fuel d = some d.dst := by
  induction fuel generalizing d with
  | zero => omega
  | succ fuel ih =>
      cases hround : d.round small with
      | none => exact decompressLoop_stops hround
      | some next =>
          have hlt := (round_spec hround).1
          have hsame : next.dst = d.dst := by
            obtain ⟨ready, hflags, hunit⟩ := Option.bind_eq_some_iff.mp hround
            rw [← (nextFlags_spec hflags).2]
            rw [← (nextFlags_spec hflags).2] at hfull
            rw [Decoder.unit] at hunit
            split at hunit
            · split at hunit
              · cases hunit
              · rw [if_neg (Nat.not_lt.mpr hfull)] at hunit
                cases hunit
            · split at hunit
              · cases hunit
                rw [Decoder.copyLoop, if_neg (Nat.not_lt.mpr hfull)]
              · cases hunit
          rw [decompressLoop_goes hround, ← hsame]
          exact ih (hsame ▸ hfull) (by omega)

/-- A copy into less room: the same, or the beginning of it. -/
theorem copyLoop_small (hsmall : d.dst.length ≤ small) (hle : small ≤ large) :
    (d.copyLoop small i remaining k = d.copyLoop large i remaining k ∧
      (d.copyLoop large i remaining k).dst.length ≤ small) ∨
    ((d.copyLoop small i remaining k).dst.length = small ∧
      (d.copyLoop small i remaining k).dst <+: (d.copyLoop large i remaining k).dst) := by
  induction remaining generalizing k d with
  | zero => exact .inl ⟨rfl, hsmall⟩
  | succ remaining ih =>
      by_cases hroom : d.dst.length < small
      · rw [Decoder.copyLoop, Decoder.copyLoop, if_pos hroom, if_pos (hroom.trans_le hle)]
        refine ih ?_
        rw [Decoder.put, List.length_append]
        exact hroom
      · refine .inr ?_
        rw [Decoder.copyLoop, if_neg hroom]
        exact ⟨by omega, copyLoop_grows.2.2⟩

/-- A unit with less room: the same, none because the destination is full, or
the beginning of the copy. -/
theorem unit_small (hsmall : d.dst.length ≤ small) (hle : small ≤ large) :
    (d.unit small = d.unit large ∧ ∀ next, d.unit large = some next → next.dst.length ≤ small) ∨
    (d.unit small = none ∧ d.dst.length = small) ∨
    ∃ short long, d.unit small = some short ∧ d.unit large = some long ∧
      short.dst.length = small ∧ short.dst <+: long.dst := by
  rw [Decoder.unit, Decoder.unit]
  split
  · split
    · exact .inl ⟨rfl, nofun⟩
    · by_cases hroom : d.dst.length < small
      · rw [if_pos hroom, if_pos (hroom.trans_le hle)]
        refine .inl ⟨rfl, fun next hnext => ?_⟩
        cases hnext
        rw [Decoder.put, List.length_append]
        exact hroom
      · rw [if_neg hroom]
        exact .inr (.inl ⟨rfl, by omega⟩)
  · split
    next first second src hsrc =>
      have hcopy := @copyLoop_small small large (first.toNat ||| ((second.toNat &&& 0xF0) <<< 4))
        ((second.toNat &&& 0x0F) + threshold + 1) 0 { d with src := src } hsmall hle
      rcases hcopy with ⟨hsame, hroom⟩ | ⟨hfull, hfirst⟩
      · refine .inl ⟨congrArg some hsame, fun next hnext => ?_⟩
        cases hnext
        exact hroom
      · exact .inr (.inr ⟨_, _, rfl, rfl, hfull, hfirst⟩)
    · exact .inl ⟨rfl, nofun⟩

/-- A destination that is too small gets the beginning. -/
theorem decompressLoop_take (hsmall : d.dst.length ≤ small) (hle : small ≤ large)
    (hfuel : d.src.length < fuel) (hrun : decompressLoop large fuel d = some out) :
    decompressLoop small fuel d = some (out.take small) := by
  induction fuel generalizing d with
  | zero => omega
  | succ fuel ih =>
      -- a text that goes on behind a full destination
      have hcut : ∀ {next : Decoder} {full : List UInt8}, next.src.length < fuel →
          decompressLoop large fuel next = some out → full.length = small → full <+: next.dst →
          out.take small = full := by
        intro next full hfuel hrun hlength hfirst
        obtain ⟨out', hrun', hgrows⟩ := @decompressLoop_total large fuel next hfuel
        rw [hrun] at hrun'
        cases hrun'
        rw [← hlength]
        exact (List.prefix_iff_eq_take.mp (hfirst.trans hgrows)).symm
      have hstop : d.round large = none → d.round small = none →
          decompressLoop small (fuel + 1) d = some (out.take small) := by
        intro hlarge hnone
        rw [decompressLoop_stops hlarge] at hrun
        cases hrun
        rw [decompressLoop_stops hnone, List.take_of_length_le hsmall]
      cases hflags : d.nextFlags with
      | none =>
          exact hstop (by rw [Decoder.round, hflags]; rfl) (by rw [Decoder.round, hflags]; rfl)
      | some ready =>
          obtain ⟨hsrc, hdst⟩ := nextFlags_spec hflags
          have hround : ∀ room, d.round room = ready.unit room := by
            intro room
            rw [Decoder.round, hflags, Option.bind_some]
          cases hlarge : ready.unit large with
          | none =>
              refine hstop ((hround large).trans hlarge) ((hround small).trans ?_)
              rcases unit_small (hdst ▸ hsmall) hle with
                ⟨hsame, -⟩ | ⟨hnone, -⟩ | ⟨_, _, -, hsome, -⟩
              · exact hsame.trans hlarge
              · exact hnone
              · rw [hlarge] at hsome
                cases hsome
          | some next =>
              have hlt := (unit_spec hlarge).1
              rw [decompressLoop_goes ((hround large).trans hlarge)] at hrun
              rcases unit_small (hdst ▸ hsmall) hle with
                ⟨hsame, hroom⟩ | ⟨hnone, hfull⟩ | ⟨short, long, hshort, hlong, hfull, hfirst⟩
              · rw [decompressLoop_goes ((hround small).trans (hsame.trans hlarge))]
                exact ih (hroom next hlarge) (by omega) hrun
              · rw [decompressLoop_stops ((hround small).trans hnone),
                  hcut (by omega) hrun (hdst ▸ hfull) (hdst ▸ (unit_spec hlarge).2)]
              · rw [hlarge] at hlong
                cases hlong
                have hless := (unit_spec hshort).1
                rw [decompressLoop_goes ((hround small).trans hshort),
                  decompressLoop_full hfull.ge (by omega), hcut (by omega) hrun hfull hfirst]

end Truncation

section Tracking

/-- Where the text begins in the stream of the ring buffer. -/
def origin : Nat := rbSize - upLim

/-- The text behind the blanks with which the buffer is filled. -/
def streamOf (input : List UInt8) (a : Nat) : UInt8 :=
  if a < origin then 0x20 else input.getD (a - origin) 0

/-- The decoder has the text up to this position. -/
structure Tracks (input : List UInt8) (position : Nat) (d : Decoder) : Prop where
  low : origin ≤ position
  high : position ≤ origin + input.length
  r : d.r = position % rbSize
  shows : Shows rbSize d.textBuf (streamOf input) position
  dst : d.dst = input.take (position - origin)

variable {input : List UInt8} {position dstlen : Nat} {d : Decoder}

theorem mask_succ (a : Nat) : (a % rbSize + 1) &&& (rbSize - 1) = (a + 1) % rbSize := by
  rw [and_mask, Nat.mod_add_mod]

theorem Tracks.length (h : Tracks input position d) : d.dst.length = position - origin := by
  have := h.low
  have := h.high
  rw [h.dst, List.length_take]
  omega

theorem Tracks.put (h : Tracks input position d) (hmore : position < origin + input.length) :
    Tracks input (position + 1) (d.put (streamOf input position)) := by
  have hlow := h.low
  refine ⟨by omega, hmore, ?_, ?_, ?_⟩
  · rw [Decoder.put, h.r, mask_succ]
  · rw [Decoder.put, h.r]
    exact h.shows.push
  · have hindex : position - origin < input.length := by omega
    rw [Decoder.put, h.dst, Nat.sub_add_comm hlow, List.take_add_one, streamOf,
      if_neg (by omega), List.getD_eq_getElem _ _ hindex, List.getElem?_eq_getElem hindex]
    rfl

/-- A copy inside the window brings what the text goes on with. -/
theorem Tracks.copyLoop {start source remaining k : Nat} (h : Tracks input (start + k) d)
    (hbefore : source < start) (hnear : start ≤ source + rbSize)
    (hsame : ∀ j, j < k + remaining →
      streamOf input (source + j) = streamOf input (start + j))
    (hend : start + (k + remaining) ≤ origin + input.length) (hroom : input.length ≤ dstlen) :
    Tracks input (start + (k + remaining))
      (d.copyLoop dstlen (source % rbSize) remaining k) := by
  induction remaining generalizing k d with
  | zero => exact h
  | succ remaining ih =>
      have hlow := h.low
      have hcell : d.textBuf ((source % rbSize + k) &&& (rbSize - 1)) =
          streamOf input (start + k) := by
        rw [and_mask, Nat.mod_add_mod, h.shows (source + k) (by omega) (by omega)]
        exact hsame k (by omega)
      rw [Decoder.copyLoop, if_pos (by rw [h.length]; omega), hcell]
      have hnext := ih (k := k + 1) (h.put (by omega)) (fun j hj => hsame j (by omega)) (by omega)
      rwa [Nat.add_right_comm k 1 remaining] at hnext

variable {token : Token UInt8} {rest : List UInt8}

theorem Tracks.unit (h : Tracks input position d) (htoken : Codable token)
    (hexplains : token.Explains rbSize (streamOf input) position)
    (hend : position + token.size ≤ origin + input.length) (hroom : input.length ≤ dstlen)
    (hsrc : d.src = code token ++ rest) (hflag : d.flags &&& 1 ≠ 0 ↔ token.isLiteral = true) :
    ∃ next, d.unit dstlen = some next ∧ Tracks input (position + token.size) next ∧
      next.src = rest ∧ next.flags = d.flags := by
  have hlow := h.low
  have hsame : Tracks input position { d with src := rest } := ⟨h.1, h.2, h.3, h.4, h.5⟩
  cases token with
  | literal byte =>
      have hbyte : byte = streamOf input position := hexplains
      rw [Token.size] at hend
      refine ⟨{ d with src := rest }.put byte, ?_, ?_, rfl, rfl⟩
      · rw [Decoder.unit, if_pos (hflag.mpr rfl), hsrc]
        exact if_pos (by rw [h.length]; omega)
      · rw [hbyte]
        exact hsame.put (by omega)
  | copy cell length =>
      obtain ⟨hcell, hlength, hbound⟩ := htoken
      obtain ⟨source, hsource, hbefore, hnear, hmatch⟩ := hexplains
      rw [Token.size] at hend
      refine ⟨{ d with src := rest }.copyLoop dstlen cell length 0, ?_, ?_, ?_, ?_⟩
      · rw [Decoder.unit, if_neg (fun hbit => Bool.false_ne_true (hflag.mp hbit)), hsrc]
        simp only [code, List.cons_append, List.nil_append, decode_cell hcell hlength hbound,
          decode_length hcell hlength hbound]
      · have hcopy := @Tracks.copyLoop input dstlen { d with src := rest } position source length 0
          hsame hbefore hnear (fun j hj => hmatch j (by omega)) (by omega) hroom
        rw [hsource, Nat.zero_add] at hcopy
        exact hcopy
      · exact copyLoop_grows.1
      · exact copyLoop_grows.2.1

end Tracking

section Groups

/-- Some rounds lead from one state to the other, each with something read. -/
def Reaches (dstlen : Nat) (d d' : Decoder) : Prop :=
  ∃ rounds, rounds + d'.src.length ≤ d.src.length ∧
    ∀ fuel, decompressLoop dstlen (fuel + rounds) d = decompressLoop dstlen fuel d'

variable {input rest out : List UInt8} {dstlen position stop : Nat} {d d' next : Decoder}
variable {tokens group : List (Token UInt8)} {flags : UInt8}

theorem Reaches.refl (dstlen : Nat) (d : Decoder) : Reaches dstlen d d :=
  ⟨0, (Nat.zero_add _).le, fun _ => rfl⟩

theorem Reaches.trans {d'' : Decoder} (h : Reaches dstlen d d') (h' : Reaches dstlen d' d'') :
    Reaches dstlen d d'' := by
  obtain ⟨first, hfirst, hrun⟩ := h
  obtain ⟨second, hsecond, hrun'⟩ := h'
  refine ⟨second + first, by omega, fun fuel => ?_⟩
  rw [← Nat.add_assoc, hrun, hrun']

theorem Reaches.step (h : d.round dstlen = some next) : Reaches dstlen d next := by
  have hlt := (round_spec h).1
  exact ⟨1, by omega, fun fuel => decompressLoop_goes h⟩

/-- The next unit of code comes under bit `j` of the flags. -/
def AtUnit (flags : UInt8) (j : Nat) (src : List UInt8) (d : Decoder) : Prop :=
  d.nextFlags = some { d with src := src, flags := (flags.toNat ||| 0xFF00) >>> j }

/-- All flags are used. -/
def Decoder.Fresh (d : Decoder) : Prop := (d.flags >>> 1) &&& 0x100 = 0

theorem Decoder.Fresh.atUnit {src : List UInt8} (h : d.Fresh) (hsrc : d.src = flags :: src) :
    AtUnit flags 0 src d := by
  have hused : (d.flags >>> 1) &&& 0x100 = 0 := h
  rw [AtUnit, Decoder.nextFlags, if_pos hused, hsrc]
  rfl

/-- The units of a group, from bit `j` on. -/
theorem group_reaches {j : Nat} (hgroup : group ≠ []) (hj : j + group.length ≤ 8)
    (hbits : ∀ k, k < group.length →
      flags.toNat.testBit (j + k) = (group[k]?).any Token.isLiteral)
    (hcodable : ∀ token ∈ group, Codable token)
    (hunit : AtUnit flags j (group.flatMap code ++ rest) d) (htracks : Tracks input position d)
    (hexplained : Explained rbSize (streamOf input) position group stop)
    (hstop : stop ≤ origin + input.length) (hroom : input.length ≤ dstlen) :
    ∃ d', Reaches dstlen d d' ∧ d'.src = rest ∧
      d'.flags = (flags.toNat ||| 0xFF00) >>> (j + group.length - 1) ∧ Tracks input stop d' := by
  induction group generalizing j d position with
  | nil => exact absurd rfl hgroup
  | cons token group ih =>
      obtain ⟨htoken, hcodable⟩ := List.forall_mem_cons.mp hcodable
      obtain ⟨hexplains, hexplained⟩ := hexplained
      rw [List.length_cons] at hj
      have hle := hexplained.le
      have hbit : ((flags.toNat ||| 0xFF00) >>> j) &&& 1 ≠ 0 ↔ token.isLiteral = true := by
        rw [flags_unit flags (by omega)]
        have hfirst := hbits 0 (by simp)
        rw [Nat.add_zero] at hfirst
        rw [hfirst]
        rfl
      have hready : Tracks input position { d with
          src := code token ++ (group.flatMap code ++ rest)
          flags := (flags.toNat ||| 0xFF00) >>> j } :=
        ⟨htracks.1, htracks.2, htracks.3, htracks.4, htracks.5⟩
      obtain ⟨next, hnext, hnextTracks, hsrc, hflags⟩ :=
        hready.unit htoken hexplains (hle.trans hstop) hroom rfl hbit
      have hround : d.round dstlen = some next := by
        rw [AtUnit, List.flatMap_cons, List.append_assoc] at hunit
        rw [Decoder.round, hunit]
        exact hnext
      by_cases hlast : group = []
      · subst hlast
        have hend : stop = position + token.size := hexplained
        exact ⟨next, .step hround, hsrc, hflags, hend ▸ hnextTracks⟩
      · have hlength : 0 < group.length := List.length_pos_iff.mpr hlast
        have hshift : next.flags >>> 1 = (flags.toNat ||| 0xFF00) >>> (j + 1) := by
          rw [hflags, Nat.shiftRight_add]
        have hat : AtUnit flags (j + 1) (group.flatMap code ++ rest) next := by
          rw [AtUnit, Decoder.nextFlags, hshift, if_neg (flags_left flags (by omega)), ← hsrc]
        have hbits' : ∀ k, k < group.length →
            flags.toNat.testBit (j + 1 + k) = (group[k]?).any Token.isLiteral := by
          intro k hk
          have hbit' := hbits (k + 1) (by rw [List.length_cons]; omega)
          rwa [List.getElem?_cons_succ, Nat.add_comm k 1, ← Nat.add_assoc] at hbit'
        obtain ⟨d', hreaches, hrest, hlastFlags, htracks'⟩ :=
          ih hlast (by omega) hbits' hcodable hat hnextTracks hexplained
        refine ⟨d', (Reaches.step hround).trans hreaches, hrest, ?_, htracks'⟩
        rw [hlastFlags, List.length_cons, Nat.add_right_comm j 1, Nat.add_assoc]

/-- Bytes that hold groups of eight units. -/
inductive Groups : List UInt8 → List (Token UInt8) → Prop
  | nil : Groups [] []
  | snoc {out : List UInt8} {tokens group : List (Token UInt8)} {flags : UInt8} :
      Groups out tokens → group.length = 8 → Flags flags group →
      Groups (out ++ flags :: group.flatMap code) (tokens ++ group)

theorem groups_reach (hgroups : Groups out tokens) (hcodable : ∀ token ∈ tokens, Codable token)
    (hfresh : d.Fresh) (hsrc : d.src = out ++ rest) (htracks : Tracks input position d)
    (hexplained : Explained rbSize (streamOf input) position tokens stop)
    (hstop : stop ≤ origin + input.length) (hroom : input.length ≤ dstlen) :
    ∃ d', Reaches dstlen d d' ∧ d'.src = rest ∧ d'.Fresh ∧ Tracks input stop d' := by
  induction hgroups generalizing rest stop with
  | nil =>
      have hend : stop = position := hexplained
      exact ⟨d, .refl _ _, hsrc, hfresh, hend ▸ htracks⟩
  | @snoc out tokens group flags _ hlength hflags ih =>
      obtain ⟨middle, hbefore, hgroup⟩ := explained_append.mp hexplained
      rw [List.append_assoc] at hsrc
      obtain ⟨d₁, hreaches, hsrc₁, hfresh₁, htracks₁⟩ :=
        ih (fun token hmem => hcodable token (List.mem_append_left _ hmem)) hsrc hbefore
          (hgroup.le.trans hstop)
      have hne : group ≠ [] := by
        rintro rfl
        cases hlength
      obtain ⟨d₂, hreaches', hsrc₂, hflags₂, htracks₂⟩ :=
        group_reaches hne (by omega) (fun k _ => by rw [Nat.zero_add]; exact hflags k)
          (fun token hmem => hcodable token (List.mem_append_right _ hmem))
          (hfresh₁.atUnit hsrc₁) htracks₁ hgroup hstop hroom
      refine ⟨d₂, hreaches.trans hreaches', hsrc₂, ?_, htracks₂⟩
      rw [Decoder.Fresh, hflags₂, hlength, ← Nat.shiftRight_add]
      exact flags_used flags

/-- Groups of eight units, and a shorter one at the end. -/
structure Packed (bytes : List UInt8) (tokens : List (Token UInt8)) : Prop where
  parts : ∃ out full group flags, Groups out full ∧ group.length < 8 ∧ Flags flags group ∧
    tokens = full ++ group ∧
    bytes = out ++ if group = [] then [] else flags :: group.flatMap code

theorem round_of_empty (h : d.src = []) : d.round dstlen = none := by
  rw [Decoder.round]
  cases hflags : d.nextFlags with
  | none => rfl
  | some ready =>
      have hready : ready.src = [] := by
        have := (nextFlags_spec hflags).1
        rw [h] at this
        exact List.eq_nil_of_length_eq_zero (Nat.le_zero.mp this)
      rw [Option.bind_some, Decoder.unit, hready]
      split <;> rfl

theorem packed_reaches {bytes : List UInt8} (hpacked : Packed bytes tokens)
    (hcodable : ∀ token ∈ tokens, Codable token)
    (hfresh : d.Fresh) (hsrc : d.src = bytes) (htracks : Tracks input position d)
    (hexplained : Explained rbSize (streamOf input) position tokens stop)
    (hstop : stop ≤ origin + input.length) (hroom : input.length ≤ dstlen) :
    ∃ d', Reaches dstlen d d' ∧ d'.src = [] ∧ Tracks input stop d' := by
  obtain ⟨out, full, group, flags, hgroups, hlength, hflags, rfl, rfl⟩ := hpacked.parts
  obtain ⟨middle, hbefore, hgroup⟩ := explained_append.mp hexplained
  obtain ⟨d₁, hreaches, hsrc₁, hfresh₁, htracks₁⟩ :=
    groups_reach hgroups (fun token hmem => hcodable token (List.mem_append_left _ hmem)) hfresh
      hsrc htracks hbefore (hgroup.le.trans hstop) hroom
  by_cases hlast : group = []
  · subst hlast
    have hend : stop = middle := hgroup
    exact ⟨d₁, hreaches, hsrc₁, hend ▸ htracks₁⟩
  · rw [if_neg hlast] at hsrc₁
    have hunit := hfresh₁.atUnit hsrc₁
    rw [← List.append_nil (group.flatMap code)] at hunit
    obtain ⟨d₂, hreaches', hsrc₂, -, htracks₂⟩ :=
      group_reaches hlast (by omega) (fun k _ => by rw [Nat.zero_add]; exact hflags k)
        (fun token hmem => hcodable token (List.mem_append_right _ hmem)) hunit htracks₁ hgroup
        hstop hroom
    exact ⟨d₂, hreaches.trans hreaches', hsrc₂, htracks₂⟩

/-- What is packed is read back, as far as there is room. -/
theorem decompressLzss_packed {bytes : List UInt8} (stack : Nat → UInt8) {fuel : Nat}
    (hpacked : Packed bytes tokens) (hcodable : ∀ token ∈ tokens, Codable token)
    (hexplained : Explained rbSize (streamOf input) origin tokens (origin + input.length))
    (hfuel : bytes.length < fuel) :
    decompressLzss stack fuel dstlen bytes = some (input.take dstlen) := by
  obtain ⟨d, hd⟩ : ∃ d : Decoder, d =
      { src := bytes
        flags := 0
        r := rbSize - upLim
        textBuf := fun i => if i < rbSize - upLim then 0x20 else stack i
        dst := [] } := ⟨_, rfl⟩
  have htracks : Tracks input origin d := by
    rw [hd]
    refine ⟨Nat.le_refl _, Nat.le_add_right _ _, rfl, fun a hlt hnear => ?_, ?_⟩
    · have hcell : a % rbSize = a := Nat.mod_eq_of_lt (hlt.trans_le (Nat.sub_le _ _))
      simp only [hcell, streamOf, if_pos hlt]
      exact if_pos hlt
    · rw [Nat.sub_self]
      rfl
  have hflags : d.flags = 0 := by rw [hd]
  have hfresh : d.Fresh := by
    rw [Decoder.Fresh, hflags]
    decide
  have hsrc : d.src = bytes := by rw [hd]
  have hempty : d.dst = [] := by rw [hd]
  -- with room for all of it first
  obtain ⟨d', ⟨rounds, hrounds, hrun⟩, hsrc', htracks'⟩ :=
    packed_reaches hpacked hcodable hfresh hsrc htracks hexplained (Nat.le_refl _)
      (Nat.le_max_left input.length dstlen)
  have hall : decompressLoop (max input.length dstlen) fuel d = some input := by
    obtain ⟨more, rfl⟩ : ∃ more, fuel = more + 1 + rounds := ⟨fuel - 1 - rounds, by
      rw [hsrc] at hrounds
      omega⟩
    rw [hrun, decompressLoop_stops (round_of_empty hsrc'), htracks'.dst, Nat.add_sub_cancel_left,
      List.take_length]
  have htake := decompressLoop_take (by rw [hempty]; exact Nat.zero_le _)
    (Nat.le_max_right input.length dstlen) (hsrc ▸ hfuel) hall
  rw [decompressLzss, ← hd]
  exact htake

end Groups

end Lzss

end Kryptonite
