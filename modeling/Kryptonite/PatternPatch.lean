/-
`KernelPatcher::findPattern` and `findAndReplaceWithMask` (`kern_patcher.cpp`):
a search for bytes under a mask, and the replacement of some of the places where
they are found.
-/
import Kryptonite.ByteWindow
import Mathlib.Data.List.Basic

namespace Kryptonite

namespace PatternPatch

open ByteWindow

/-- `findMaskSize` and `replaceMaskSize` are not read. -/
structure Request where
  find : List UInt8
  findMask : Option (List UInt8)
  replace : List UInt8
  replaceMask : Option (List UInt8)
  count : Nat
  skip : Nat
deriving Repr, DecidableEq

section Source

variable (request : Request) (data : List UInt8)

/-- One round of the inner loop of `findPattern`. -/
def byteMatches (offset i : Nat) : Bool :=
  match request.findMask with
  | none => data.getD (offset + i) 0 == request.find.getD i 0
  | some mask => (data.getD (offset + i) 0 &&& mask.getD i 0) == request.find.getD i 0

def occursAt (offset : Nat) : Bool :=
  (List.range request.find.length).all fun i => byteMatches request data offset i

/-- The outer loop, over so many offsets. -/
def scan (hit : Nat → Bool) : Nat → Nat → Option Nat
  | 0, _ => none
  | remaining + 1, offset => if hit offset then some offset else scan hit remaining (offset + 1)

/-- The found offset, if there is one. -/
def findPattern (offset : Nat) : Option Nat :=
  if request.find.length = 0 ∨ data.length < request.find.length then
    none
  else
    scan (occursAt request data) (data.length - request.find.length + 1 - offset) offset

/-- What is written at an offset. -/
def replaced (offset : Nat) : List UInt8 :=
  match request.replaceMask with
  | none => request.replace
  | some mask => (List.range request.find.length).map fun i =>
      (data.getD (offset + i) 0 &&& ~~~ mask.getD i 0) |||
        (request.replace.getD i 0 &&& mask.getD i 0)

/-- The loop of `findAndReplaceWithMask`; `writable` tells whether write
permission is given for the next replacement.  Without fuel there is no result:
an empty replacement is found again forever. -/
def replaceLoop (writable : Nat → Bool) :
    Nat → List UInt8 → Nat → Nat → Nat → Nat → Option (Bool × List UInt8)
  | 0, _, _, _, _, _ => none
  | fuel + 1, data, offset, skip, count, done =>
      match findPattern request data offset with
      | none => some (0 < done, data)
      | some found =>
          if 0 < skip then
            replaceLoop writable fuel data (found + request.find.length) (skip - 1) count done
          else if ¬ writable done then
            some (false, data)
          else if count = 1 then
            some (true, overwrite found (replaced request data found) data)
          else
            replaceLoop writable fuel (overwrite found (replaced request data found) data)
              (found + request.replace.length) 0 (count - 1) (done + 1)

def findAndReplaceWithMask (writable : Nat → Bool) (fuel : Nat) : Option (Bool × List UInt8) :=
  if data.length < request.find.length then
    some (false, data)
  else
    replaceLoop request writable fuel data 0 request.skip request.count 0

end Source

section Occurrences

variable {request : Request} {data current : List UInt8} {offset found : Nat}

/-- The pattern stands at an offset. -/
structure Occurs (request : Request) (data : List UInt8) (offset : Nat) : Prop where
  fits : offset + request.find.length ≤ data.length
  bytes : occursAt request data offset = true

theorem scan_eq_some {hit : Nat → Bool} {remaining : Nat}
    (h : scan hit remaining offset = some found) :
    offset ≤ found ∧ found < offset + remaining ∧ hit found = true ∧
      ∀ other, offset ≤ other → other < found → hit other = false := by
  induction remaining generalizing offset with
  | zero => cases h
  | succ remaining ih =>
      rw [scan] at h
      split at h
      next hhit =>
        cases h
        exact ⟨Nat.le_refl _, by omega, hhit, fun other hlow hhigh => by omega⟩
      next hmiss =>
        obtain ⟨hlow, hhigh, hhit, hbefore⟩ := ih h
        refine ⟨by omega, by omega, hhit, fun other hother hlt => ?_⟩
        rcases Nat.eq_or_lt_of_le hother with rfl | hother
        · simpa using hmiss
        · exact hbefore other hother hlt

theorem scan_eq_none {hit : Nat → Bool} {remaining : Nat}
    (h : scan hit remaining offset = none) :
    ∀ other, offset ≤ other → other < offset + remaining → hit other = false := by
  induction remaining generalizing offset with
  | zero =>
      intro other hlow hhigh
      omega
  | succ remaining ih =>
      rw [scan] at h
      split at h
      · cases h
      next hmiss =>
        intro other hother hlt
        rcases Nat.eq_or_lt_of_le hother with rfl | hother
        · simpa using hmiss
        · exact ih h other hother (by omega)

/-- `findPattern` answers with the first occurrence from the offset on. -/
theorem findPattern_eq_some (h : findPattern request data offset = some found) :
    offset ≤ found ∧ Occurs request data found ∧
      ∀ other, offset ≤ other → other < found → ¬ Occurs request data other := by
  rw [findPattern] at h
  split at h
  · cases h
  · obtain ⟨hlow, hhigh, hhit, hbefore⟩ := scan_eq_some h
    refine ⟨hlow, ⟨by omega, hhit⟩, fun other hother hlt hoccurs => ?_⟩
    have hmiss := hbefore other hother hlt
    rw [hoccurs.bytes] at hmiss
    cases hmiss

theorem findPattern_eq_none (hfind : request.find ≠ [])
    (h : findPattern request data offset = none) :
    ∀ other, offset ≤ other → ¬ Occurs request data other := by
  have hpos : 0 < request.find.length := List.length_pos_iff.mpr hfind
  intro other hother hoccurs
  have hfits := hoccurs.fits
  rw [findPattern, if_neg (by omega)] at h
  have hmiss := scan_eq_none h other hother (by omega)
  rw [hoccurs.bytes] at hmiss
  cases hmiss

/-- The places that the loop comes to, in a text that it has not changed. -/
def places (request : Request) (data : List UInt8) : Nat → Nat → List Nat
  | 0, _ => []
  | fuel + 1, offset =>
      match findPattern request data offset with
      | none => []
      | some found => found :: places request data fuel (found + request.find.length)

/-- Occurrences from the left without overlaps: no place was passed over. -/
structure Leftmost (request : Request) (data : List UInt8) (offset : Nat)
    (positions : List Nat) : Prop where
  occur : ∀ position ∈ positions, offset ≤ position ∧ Occurs request data position
  apart : positions.Pairwise fun position later => position + request.find.length ≤ later
  covers : ∀ other, offset ≤ other → Occurs request data other →
    ∃ position ∈ positions, position ≤ other ∧ other < position + request.find.length

theorem places_leftmost (hfind : request.find ≠ []) {fuel : Nat}
    (hfuel : data.length < offset + fuel) :
    Leftmost request data offset (places request data fuel offset) := by
  have hpos : 0 < request.find.length := List.length_pos_iff.mpr hfind
  induction fuel generalizing offset with
  | zero =>
      refine ⟨List.forall_mem_nil _, List.Pairwise.nil, fun other hother hoccurs => ?_⟩
      have hfits := hoccurs.fits
      omega
  | succ fuel ih =>
      cases hsearch : findPattern request data offset with
      | none =>
          rw [places, hsearch]
          refine ⟨List.forall_mem_nil _, List.Pairwise.nil, fun other hother hoccurs => ?_⟩
          exact absurd hoccurs (findPattern_eq_none hfind hsearch other hother)
      | some found =>
          rw [places, hsearch]
          obtain ⟨hlow, hoccurs, hbefore⟩ := findPattern_eq_some hsearch
          have hrest : Leftmost request data (found + request.find.length)
              (places request data fuel (found + request.find.length)) := ih (by omega)
          refine ⟨List.forall_mem_cons.mpr ⟨⟨hlow, hoccurs⟩, fun position hmem => ?_⟩,
            List.pairwise_cons.mpr ⟨fun position hmem => ?_, hrest.apart⟩,
            fun other hother hother' => ?_⟩
          · obtain ⟨hfrom, hposition⟩ := hrest.occur position hmem
            exact ⟨by omega, hposition⟩
          · exact (hrest.occur position hmem).1
          · by_cases hpassed : other < found
            · exact absurd hother' (hbefore other hother hpassed)
            · by_cases hnear : other < found + request.find.length
              · exact ⟨found, List.mem_cons_self, by omega, hnear⟩
              · obtain ⟨position, hmem, hwhere⟩ := hrest.covers other (by omega) hother'
                exact ⟨position, List.mem_cons_of_mem _ hmem, hwhere⟩

end Occurrences

section Loop

variable {request : Request} {data current : List UInt8} {writable : Nat → Bool}
variable {offset skip count done fuel : Nat}

/-- The first `count` places, or all of them. -/
def choose (count : Nat) (positions : List Nat) : List Nat :=
  if count = 0 then positions else positions.take count

/-- The places for which write permission is given, up to the first refusal. -/
def allowed (writable : Nat → Bool) : Nat → List Nat → List Nat
  | _, [] => []
  | done, position :: positions =>
      if writable done then position :: allowed writable (done + 1) positions else []

/-- The replacements at these places. -/
def written (request : Request) (data : List UInt8) (positions : List Nat)
    (current : List UInt8) : List UInt8 :=
  positions.foldl (fun bytes position => overwrite position (replaced request data position) bytes)
    current

theorem choose_cons {position : Nat} {positions : List Nat} (hcount : count ≠ 1) :
    choose count (position :: positions) = position :: choose (count - 1) positions := by
  cases count with
  | zero => rfl
  | succ count =>
      cases count with
      | zero => exact absurd rfl hcount
      | succ count => rfl

/-- Behind the offset nothing has been written. -/
structure Behind (data current : List UInt8) (offset : Nat) : Prop where
  length : current.length = data.length
  same : ∀ i, offset ≤ i → current[i]? = data[i]?

theorem Behind.getD (h : Behind data current offset) {i : Nat} (hi : offset ≤ i) :
    current.getD i 0 = data.getD i 0 := by
  rw [List.getD_eq_getElem?_getD, List.getD_eq_getElem?_getD, h.same i hi]

theorem Behind.occursAt {found : Nat} (h : Behind data current offset) (hfound : offset ≤ found) :
    occursAt request current found = occursAt request data found := by
  have hbyte : ∀ i, byteMatches request current found i = byteMatches request data found i := by
    intro i
    simp only [byteMatches, h.getD (Nat.le_add_right_of_le hfound)]
  simp only [PatternPatch.occursAt, hbyte]

theorem Behind.replaced {found : Nat} (h : Behind data current offset) (hfound : offset ≤ found) :
    replaced request current found = replaced request data found := by
  simp only [PatternPatch.replaced, h.getD (Nat.le_add_right_of_le hfound)]

theorem scan_congr {hit hit' : Nat → Bool} {remaining : Nat}
    (h : ∀ i, offset ≤ i → hit i = hit' i) :
    scan hit remaining offset = scan hit' remaining offset := by
  induction remaining generalizing offset with
  | zero => rfl
  | succ remaining ih =>
      rw [scan, scan, h offset (Nat.le_refl _), ih fun i hi => h i (by omega)]

theorem Behind.findPattern (h : Behind data current offset) :
    findPattern request current offset = findPattern request data offset := by
  rw [PatternPatch.findPattern, PatternPatch.findPattern, h.length,
    scan_congr fun i hi => h.occursAt hi]

theorem length_replaced (hsize : request.replace.length = request.find.length) (offset : Nat) :
    (replaced request data offset).length = request.find.length := by
  rw [replaced]
  split
  · exact hsize
  · rw [List.length_map, List.length_range]

theorem Behind.overwrite {found : Nat} (h : Behind data current offset)
    (hsize : request.replace.length = request.find.length) (hlow : offset ≤ found)
    (hfits : found + request.find.length ≤ data.length) :
    Behind data (overwrite found (PatternPatch.replaced request data found) current)
      (found + request.find.length) := by
  have hlength := @length_replaced request data hsize found
  have hroom : found + (PatternPatch.replaced request data found).length ≤ current.length := by
    rw [hlength, h.length]
    exact hfits
  refine ⟨(length_overwrite hroom).trans h.length, fun i hi => ?_⟩
  rw [overwrite_getElem? hroom, hlength, if_neg (by omega), if_neg (by omega)]
  exact h.same i (by omega)

/-- The loop replaces the chosen places of the text it began with, up to the
first one that it may not write. -/
theorem replaceLoop_eq (hfind : request.find ≠ [])
    (hsize : request.replace.length = request.find.length) (h : Behind data current offset)
    (hoffset : offset ≤ data.length) (hfuel : data.length < offset + fuel) :
    replaceLoop request writable fuel current offset skip count done =
      some (decide (
          0 < done + (choose count ((places request data fuel offset).drop skip)).length ∧
          allowed writable done (choose count ((places request data fuel offset).drop skip)) =
            choose count ((places request data fuel offset).drop skip)),
        written request data
          (allowed writable done (choose count ((places request data fuel offset).drop skip)))
          current) := by
  have hpos : 0 < request.find.length := List.length_pos_iff.mpr hfind
  induction fuel generalizing current offset skip count done with
  | zero => omega
  | succ fuel ih =>
      rw [replaceLoop, h.findPattern, places]
      cases hsearch : findPattern request data offset with
      | none => simp [choose, allowed, written]
      | some found =>
          obtain ⟨hlow, ⟨hfits, -⟩, -⟩ := findPattern_eq_some hsearch
          simp only
          cases skip with
          | succ skip =>
              rw [if_pos (Nat.succ_pos skip), List.drop_succ_cons, Nat.add_sub_cancel]
              exact ih ⟨h.length, fun i hi => h.same i (by omega)⟩ hfits (by omega)
          | zero =>
              rw [if_neg (Nat.lt_irrefl 0), List.drop_zero, h.replaced hlow, hsize]
              have hnext := h.overwrite hsize hlow hfits
              cases hwritable : writable done with
              | false =>
                  have hchosen : choose count (found ::
                      places request data fuel (found + request.find.length)) ≠ [] := by
                    rw [choose]
                    split
                    · exact List.cons_ne_nil _ _
                    next hcount =>
                      rw [Ne, List.take_eq_nil_iff]
                      simp [hcount]
                  obtain ⟨first, others, hsplit⟩ := List.exists_cons_of_ne_nil hchosen
                  rw [hsplit, allowed, hwritable]
                  simp [written]
              | true =>
                  rw [if_neg (by simp)]
                  by_cases hone : count = 1
                  · rw [if_pos hone, hone]
                    simp [choose, allowed, written, hwritable]
                  · rw [if_neg hone, choose_cons hone, allowed, if_pos hwritable,
                      ih hnext hfits (by omega)]
                    simp [written, Nat.add_assoc, Nat.add_comm 1]

end Loop

section Result

variable {request : Request} {data current : List UInt8} {writable : Nat → Bool} {fuel : Nat}

/-- An index in none of the places. -/
def Outside (request : Request) (positions : List Nat) (i : Nat) : Prop :=
  ∀ position ∈ positions, ¬ (position ≤ i ∧ i < position + request.find.length)

/-- The places that may be written are an initial part of the chosen ones. -/
theorem allowed_initial (done : Nat) (positions : List Nat) :
    allowed writable done positions <+: positions := by
  induction positions generalizing done with
  | nil => exact List.prefix_rfl
  | cons position positions ih =>
      rw [allowed]
      split
      · exact List.prefix_cons_inj position |>.mpr (ih _)
      · exact List.nil_prefix

theorem choose_sublist (count : Nat) (positions : List Nat) :
    (choose count positions).Sublist positions := by
  rw [choose]
  split
  · exact List.Sublist.refl _
  · exact List.take_sublist _ _

theorem written_outside (hsize : request.replace.length = request.find.length)
    {positions : List Nat} (hlength : current.length = data.length)
    (hfit : ∀ position ∈ positions, position + request.find.length ≤ data.length) :
    (written request data positions current).length = data.length ∧
      ∀ i, Outside request positions i →
        (written request data positions current)[i]? = current[i]? := by
  induction positions generalizing current with
  | nil => exact ⟨hlength, fun _ _ => rfl⟩
  | cons position positions ih =>
      obtain ⟨hfits, hfit⟩ := List.forall_mem_cons.mp hfit
      have hpatch := @length_replaced request data hsize position
      have hroom : position + (replaced request data position).length ≤ current.length := by
        rw [hpatch, hlength]
        exact hfits
      obtain ⟨hlength', hsame⟩ := ih ((length_overwrite hroom).trans hlength) hfit
      refine ⟨hlength', fun i hi => ?_⟩
      obtain ⟨hhere, hi⟩ := List.forall_mem_cons.mp hi
      rw [written, List.foldl_cons, ← written, hsame i hi, overwrite_getElem? hroom, hpatch]
      by_cases hbefore : i < position
      · rw [if_pos hbefore]
      · rw [if_neg hbefore, if_neg fun hinside => hhere ⟨Nat.le_of_not_lt hbefore, hinside⟩]

theorem written_window (hsize : request.replace.length = request.find.length)
    {positions : List Nat} (hlength : current.length = data.length)
    (hfit : ∀ position ∈ positions, position + request.find.length ≤ data.length)
    (hapart : positions.Pairwise fun position later => position + request.find.length ≤ later) :
    ∀ position ∈ positions,
      window position request.find.length (written request data positions current) =
        replaced request data position := by
  induction positions generalizing current with
  | nil => exact List.forall_mem_nil _
  | cons position positions ih =>
      obtain ⟨hfits, hfit⟩ := List.forall_mem_cons.mp hfit
      obtain ⟨hlater, hapart⟩ := List.pairwise_cons.mp hapart
      have hpatch := @length_replaced request data hsize position
      have hroom : position + (replaced request data position).length ≤ current.length := by
        rw [hpatch, hlength]
        exact hfits
      have hlength' := (length_overwrite hroom).trans hlength
      refine List.forall_mem_cons.mpr ⟨?_, ih hlength' hfit hapart⟩
      -- the later places do not reach back into this one
      rw [written, List.foldl_cons, ← written]
      calc window position request.find.length (written request data positions _)
          = window position request.find.length
              (overwrite position (replaced request data position) current) := by
            apply List.ext_getElem?
            intro i
            rw [window_getElem?, window_getElem?]
            split
            · refine (written_outside hsize hlength' hfit).2 _ fun later hmem hinside => ?_
              have := hlater later hmem
              omega
            · rfl
        _ = replaced request data position := by
            rw [← hpatch]
            exact window_overwrite_self hroom

/-- With a replacement of the pattern's length, the occurrences that are counted
are those of the text as it was, from the left and without overlaps, whatever the
replacements bring about.  Of them the first `skip` stay, the next `count` (all,
for 0) are replaced up to the first one that may not be written, and the answer
is positive iff there were some and all of them were replaced: after a refusal
the earlier replacements stay in the text. -/
theorem replaces_leftmost (hfind : request.find ≠ [])
    (hsize : request.replace.length = request.find.length) (hfuel : data.length < fuel) :
    ∃ positions, Leftmost request data 0 positions ∧ ∃ answer result,
      findAndReplaceWithMask request data writable fuel = some (answer, result) ∧
      (answer = true ↔
        choose request.count (positions.drop request.skip) ≠ [] ∧
        allowed writable 0 (choose request.count (positions.drop request.skip)) =
          choose request.count (positions.drop request.skip)) ∧
      result.length = data.length ∧
      (∀ position ∈ allowed writable 0 (choose request.count (positions.drop request.skip)),
        window position request.find.length result = replaced request data position) ∧
      ∀ i, Outside request
          (allowed writable 0 (choose request.count (positions.drop request.skip))) i →
        result[i]? = data[i]? := by
  have hleft : Leftmost request data 0 (places request data fuel 0) :=
    places_leftmost hfind (by omega)
  have hloop := @replaceLoop_eq request data data writable 0 request.skip request.count 0 fuel
    hfind hsize ⟨rfl, fun _ _ => rfl⟩ (Nat.zero_le _) (by omega)
  generalize hchosen : choose request.count ((places request data fuel 0).drop request.skip) =
    chosen at hloop
  have hsub : (allowed writable 0 chosen).Sublist (places request data fuel 0) := by
    refine (allowed_initial 0 chosen).sublist.trans ?_
    rw [← hchosen]
    exact (choose_sublist _ _).trans (List.drop_sublist _ _)
  have hfit : ∀ position ∈ allowed writable 0 chosen,
      position + request.find.length ≤ data.length :=
    fun position hmem => (hleft.occur position (hsub.subset hmem)).2.fits
  refine ⟨_, hleft, ?_⟩
  rw [hchosen, findAndReplaceWithMask]
  split
  next hshort =>
    -- a text shorter than the pattern has no places
    have hnone : places request data fuel 0 = [] := by
      refine List.eq_nil_iff_forall_not_mem.mpr fun position hmem => ?_
      have := (hleft.occur position hmem).2.fits
      omega
    have hempty : chosen = [] := by
      rw [← hchosen, hnone, List.drop_nil, choose, List.take_nil, ite_self]
    rw [hempty]
    exact ⟨false, data, rfl, by simp, rfl, List.forall_mem_nil _, fun _ _ => rfl⟩
  next =>
    refine ⟨_, _, hloop, ?_, (written_outside hsize rfl hfit).1,
      written_window hsize rfl hfit (hleft.apart.sublist hsub),
      (written_outside hsize rfl hfit).2⟩
    rw [decide_eq_true_iff, Nat.zero_add, List.length_pos_iff]

/-- Two bytes of which the second is any, and a replacement that brings a new
occurrence about. -/
def sampleRequest : Request where
  find := [0xEB, 0x00]
  findMask := some [0xFF, 0x00]
  replace := [0x90, 0xEB]
  replaceMask := none
  count := 0
  skip := 1

def sampleText : List UInt8 := [0xEB, 0xEB, 0xEB, 0x05, 0xC3, 0xEB, 0x07, 0xC3]

theorem replaces_leftmost_sample :
    findAndReplaceWithMask sampleRequest sampleText (fun _ => true) 9 =
        some (true, [0xEB, 0xEB, 0x90, 0xEB, 0xC3, 0x90, 0xEB, 0xC3]) ∧
      ∃ positions, Leftmost sampleRequest sampleText 0 positions ∧
        choose sampleRequest.count (positions.drop sampleRequest.skip) ≠ [] := by
  have hrun : findAndReplaceWithMask sampleRequest sampleText (fun _ => true) 9 =
      some (true, [0xEB, 0xEB, 0x90, 0xEB, 0xC3, 0x90, 0xEB, 0xC3]) := by decide
  obtain ⟨positions, hleft, answer, result, hanswer, hiff, -⟩ :=
    @replaces_leftmost sampleRequest sampleText (fun _ => true) 9 (by decide) rfl (by decide)
  rw [hrun] at hanswer
  cases hanswer
  exact ⟨hrun, positions, hleft, (hiff.mp rfl).1⟩

end Result

end PatternPatch

end Kryptonite
