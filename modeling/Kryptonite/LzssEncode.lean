/-
`compress_lzss` writes units of code that stand for its text.  The ring buffer
shows the text around the current position, every node of the search trees is
the string at one of the last positions, so each match that `insert_node`
reports is one that the decoder can copy.
-/
import Kryptonite.LzssDecode
import Kryptonite.LzssTree

namespace Kryptonite

namespace Lzss

open LinkedForest SlidingWindow

section Window

variable {input : List UInt8} {lo lo' hi hi' stop fuel : Nat} {sp : EncodeState}

/-- The buffer shows the text up to `stop`, the bytes behind its end repeat its
beginning, and the trees hold strings that begin from `lo` on and before `hi`. -/
structure Window (input : List UInt8) (lo hi stop : Nat) (sp : EncodeState) : Prop where
  shows : Shows rbSize sp.textBuf (streamOf input) stop
  mirror : ∀ a, rbSize ≤ a → a < stop → stop ≤ a + rbSize → a % rbSize < upLim - 1 →
    sp.textBuf (rbSize + a % rbSize) = streamOf input a
  forest : ∃ depth, Forest nilNode 256 (firstByte sp.textBuf) depth sp.links
  live : ∀ p, sp.links.Live nilNode p → ∃ a, a % rbSize = p ∧ lo ≤ a ∧ a < hi

theorem rbsize_pos : 0 < rbSize := by decide

theorem Window.mono (h : Window input lo hi stop sp) (hlo : lo' ≤ lo) (hhi : hi ≤ hi') :
    Window input lo' hi' stop sp := by
  refine ⟨h.shows, h.mirror, h.forest, fun p hp => ?_⟩
  obtain ⟨a, ha, hlow, hhigh⟩ := h.live p hp
  exact ⟨a, ha, hlo.trans hlow, hhigh.trans_le hhi⟩

/-- The string at a position, as the comparison of strings reads it. -/
theorem Window.text_at (h : Window input lo hi stop sp) {a k : Nat} (hk : k < upLim)
    (hbefore : a + k < stop) (hnear : stop ≤ a + rbSize) :
    sp.textBuf (a % rbSize + k) = streamOf input (a + k) := by
  have hcell := Nat.mod_lt a rbsize_pos
  have hle := Nat.mod_le a rbSize
  have huplim : upLim < rbSize := by decide
  by_cases hinside : a % rbSize + k < rbSize
  · have hmod : (a + k) % rbSize = a % rbSize + k := by
      rw [← Nat.mod_add_mod, Nat.mod_eq_of_lt hinside]
    rw [← hmod]
    exact h.shows (a + k) hbefore (by omega)
  · have hmod : (a + k) % rbSize = a % rbSize + k - rbSize := by
      rw [← Nat.mod_add_mod, Nat.mod_eq_sub_mod (by omega), Nat.mod_eq_of_lt (by omega)]
    have hmirror := h.mirror (a + k) (by omega) hbefore (by omega) (by omega)
    rw [hmod] at hmirror
    rw [show a % rbSize + k = rbSize + (a % rbSize + k - rbSize) by omega]
    exact hmirror

/-- A position that is too new for the trees is in none of them. -/
theorem Window.dead (h : Window input lo hi stop sp) {a : Nat} (hhi : hi ≤ a)
    (hlo : a < lo + rbSize) : ¬ sp.links.Live nilNode (a % rbSize) := by
  intro hlive
  obtain ⟨b, hb, hlow, hhigh⟩ := h.live _ hlive
  exact mod_ne_mod (hhigh.trans_le hhi) (by omega) hb

/-- Nor is one that is too old. -/
theorem Window.dead_before (h : Window input lo hi stop sp) {a : Nat} (hlo : a < lo)
    (hhi : hi ≤ a + rbSize) : ¬ sp.links.Live nilNode (a % rbSize) := by
  intro hlive
  obtain ⟨b, hb, hlow, hhigh⟩ := h.live _ hlive
  exact mod_ne_mod (hlo.trans_le hlow) (by omega) hb.symm

theorem Window.insert (h : Window input lo hi stop sp) {a : Nat}
    (hdead : ¬ sp.links.Live nilNode (a % rbSize)) (hlo : lo' ≤ lo) (hhi : hi ≤ hi')
    (hlow : lo' ≤ a) (hhigh : a < hi') (hfuel : nilNode < fuel) :
    ∃ sp', insertNode fuel sp (a % rbSize) = some sp' ∧ Window input lo' hi' stop sp' ∧
      Inserted 256 (firstByte sp.textBuf) (a % rbSize) sp sp' := by
  obtain ⟨depth, hforest⟩ := h.forest
  obtain ⟨sp', hrun, hdone⟩ := insertNode_spec hforest (Nat.mod_lt a rbsize_pos) hdead hfuel
  refine ⟨sp', hrun, ⟨?_, ?_, ?_, fun p hp => ?_⟩, hdone⟩
  · rw [hdone.text]
    exact h.shows
  · rw [hdone.text]
    exact h.mirror
  · rw [hdone.text]
    exact hdone.forest
  · rcases hdone.live p hp with hp | rfl
    · exact (h.mono hlo hhi).live p hp
    · exact ⟨a, rfl, hlow, hhigh⟩

/-- The reported match is one with the text at an earlier position. -/
structure Matched (input : List UInt8) (lo position stop : Nat) (sp : EncodeState) : Prop where
  bound : sp.matchLength ≤ upLim
  same : 0 < sp.matchLength → ∃ a, a % rbSize = sp.matchPosition ∧ lo ≤ a ∧ a < position ∧
    ∀ k, k < sp.matchLength → position + k < stop →
      streamOf input (a + k) = streamOf input (position + k)

theorem Window.matched {position : Nat} {sp' : EncodeState}
    (h : Window input lo position stop sp) (hnear : stop ≤ lo + rbSize) (hlo : lo ≤ position)
    (hdone : Inserted 256 (firstByte sp.textBuf) (position % rbSize) sp sp') :
    Matched input lo position stop sp' := by
  refine ⟨hdone.found.bound, fun hpos => ?_⟩
  have hbound := hdone.found.bound
  obtain ⟨a, ha, hlow, hhigh⟩ := h.live _ (hdone.found.live hpos)
  refine ⟨a, ha, hlow, hhigh, fun k hk hbefore => ?_⟩
  have hhere := h.text_at (show k < upLim by omega) hbefore (by omega)
  have hthere := h.text_at (show k < upLim by omega) (show a + k < stop by omega) (by omega)
  rw [← hhere, ← hthere]
  cases k with
  | zero =>
      have hfirst := hdone.found.first hpos
      rw [← ha, firstByte, firstByte, if_pos (Nat.mod_lt a rbsize_pos),
        if_pos (Nat.mod_lt position rbsize_pos)] at hfirst
      exact hfirst
  | succ k =>
      have hrest := hdone.found.rest hpos (k + 1) (Nat.succ_pos k) hk
      rw [hdone.text, ← ha] at hrest
      exact hrest.symm

theorem Window.delete (h : Window input lo hi stop sp) (hfuel : nilNode < fuel) :
    ∃ sp', deleteNode fuel sp (lo % rbSize) = some sp' ∧ Window input (lo + 1) hi stop sp' := by
  obtain ⟨depth, hforest⟩ := h.forest
  obtain ⟨sp', hrun, hdone⟩ := deleteNode_spec hforest (Nat.mod_lt lo rbsize_pos) hfuel
  refine ⟨sp', hrun, ?_, ?_, ?_, fun p hp => ?_⟩
  · rw [hdone.same.textBuf]
    exact h.shows
  · rw [hdone.same.textBuf]
    exact h.mirror
  · rw [hdone.same.textBuf]
    exact hdone.forest
  · obtain ⟨hp, hne⟩ := (hdone.live p).mp hp
    obtain ⟨a, ha, hlow, hhigh⟩ := h.live p hp
    refine ⟨a, ha, Nat.lt_of_le_of_ne hlow ?_, hhigh⟩
    rintro rfl
    exact hne ha.symm

/-- The next byte goes where the oldest one was, and behind the end as well. -/
theorem Window.write (h : Window input lo hi stop sp) (hhi : hi ≤ stop) (hlo : stop < lo + rbSize) :
    Window input lo hi (stop + 1)
      (if stop % rbSize < upLim - 1 then
        (sp.setText (stop % rbSize) (streamOf input stop)).setText (stop % rbSize + rbSize)
          (streamOf input stop)
      else sp.setText (stop % rbSize) (streamOf input stop)) := by
  obtain ⟨written, hwritten⟩ : ∃ written, written =
      (if stop % rbSize < upLim - 1 then
        (sp.setText (stop % rbSize) (streamOf input stop)).setText (stop % rbSize + rbSize)
          (streamOf input stop)
      else sp.setText (stop % rbSize) (streamOf input stop)) := ⟨_, rfl⟩
  have hlinks : written.links = sp.links := by
    rw [hwritten]
    split <;> rfl
  have hlow : ∀ i, i < rbSize → written.textBuf i =
      Function.update sp.textBuf (stop % rbSize) (streamOf input stop) i := by
    intro i hi
    rw [hwritten]
    split
    · exact Function.update_of_ne (by omega) _ _
    · rfl
  have hcell := Nat.mod_lt stop rbsize_pos
  rw [← hwritten]
  refine ⟨fun a hlt hnear => ?_, fun a hsize hlt hnear hsmall => ?_, ?_, ?_⟩
  · rw [hlow _ (Nat.mod_lt a rbsize_pos)]
    exact h.shows.push a hlt hnear
  · rcases Nat.eq_or_lt_of_le (Nat.le_of_lt_succ hlt) with rfl | hbefore
    · rw [hwritten, if_pos hsmall, Nat.add_comm]
      exact Function.update_self _ _ _
    · have hne : a % rbSize ≠ stop % rbSize := mod_ne_mod hbefore (by omega)
      have hsame : written.textBuf (rbSize + a % rbSize) = sp.textBuf (rbSize + a % rbSize) := by
        rw [hwritten]
        split
        · exact (Function.update_of_ne (by omega) _ _).trans (Function.update_of_ne (by omega) _ _)
        · exact Function.update_of_ne (by omega) _ _
      rw [hsame]
      exact h.mirror a hsize hbefore (by omega) hsmall
  · obtain ⟨depth, hforest⟩ := h.forest
    refine ⟨depth, hlinks ▸ hforest.congr ⟨fun _ _ => rfl, fun _ _ _ => rfl⟩ fun side q hq => ?_⟩
    rw [firstByte, firstByte]
    split
    next hq' =>
      rw [hlow q hq', Function.update_of_ne]
      rintro rfl
      exact h.dead hhi hlo (hq.live hq')
    · rfl
  · rw [hlinks]
    exact h.live

end Window

section Advance

variable {input : List UInt8} {done fuel count : Nat} {c c' : Coder}

/-- The coder after so many bytes of its text. -/
structure Coding (input : List UInt8) (done : Nat) (c : Coder) : Prop where
  src : c.src = input.drop (done + upLim)
  len : c.len = min upLim (input.length - done)
  r : c.r = (origin + done) % rbSize
  s : c.s = done % rbSize
  window : Window input done (origin + done + 1) (origin + done + c.len) c.sp

/-- While there is text, the match is one at the current position. -/
def AtMatch (input : List UInt8) (done : Nat) (c : Coder) : Prop :=
  0 < c.len → Matched input done (origin + done) (origin + done + c.len) c.sp

/-- What is to be sent. -/
structure SameCode (c c' : Coder) : Prop where
  flags : c'.flags = c.flags
  codes : c'.codes = c.codes
  mask : c'.mask = c.mask
  dst : c'.dst = c.dst

theorem origin_eq : origin + upLim = rbSize := by decide

theorem origin_pos : 0 < origin := by decide

theorem uplim_pos : 0 < upLim := by decide

theorem readByte_spec (h : Coding input done c) {byte : UInt8} {src : List UInt8}
    (hsrc : c.src = byte :: src) (hfuel : nilNode < fuel) :
    ∃ c', c.readByte fuel byte src = some c' ∧ Coding input (done + 1) c' ∧
      AtMatch input (done + 1) c' ∧ SameCode c c' := by
  have horigin := origin_eq
  have hpos := origin_pos
  have huplim := uplim_pos
  have hdrop : input.drop (done + upLim) = byte :: src := h.src.symm.trans hsrc
  have hmore : done + upLim < input.length := by
    by_contra hshort
    rw [List.drop_eq_nil_of_le (by omega)] at hdrop
    cases hdrop
  have hlen : c.len = upLim := by
    rw [h.len]
    omega
  have hbyte : byte = streamOf input (origin + done + upLim) := by
    rw [List.drop_eq_getElem_cons hmore] at hdrop
    rw [streamOf, if_neg (by omega), show origin + done + upLim - origin = done + upLim by omega,
      List.getD_eq_getElem _ _ hmore]
    exact (List.cons.inj hdrop).1.symm
  have hsrc' : src = input.drop (done + 1 + upLim) := by
    rw [List.drop_eq_getElem_cons hmore] at hdrop
    rw [Nat.add_right_comm]
    exact (List.cons.inj hdrop).2.symm
  have hcell : (origin + done + upLim) % rbSize = done % rbSize := by
    rw [show origin + done + upLim = done + rbSize by omega, Nat.add_mod_right]
  obtain ⟨sp₁, hdelete, hwindow₁⟩ := h.window.delete hfuel
  rw [hlen] at hwindow₁
  have hwindow₂ := hwindow₁.write (by omega) (by omega)
  rw [hcell, ← hbyte] at hwindow₂
  have hdead := hwindow₂.dead (Nat.le_refl _) (by omega)
  obtain ⟨sp₃, hinsert, hwindow₃, hdone⟩ := hwindow₂.insert hdead (Nat.le_refl _)
    (Nat.le_succ _) (by omega) (Nat.lt_succ_self _) hfuel
  have hr : (c.r + 1) &&& (rbSize - 1) = (origin + done + 1) % rbSize := by
    rw [h.r, mask_succ]
  refine ⟨{ c with
    sp := sp₃
    src := src
    r := (c.r + 1) &&& (rbSize - 1)
    s := (c.s + 1) &&& (rbSize - 1) }, ?_, ⟨hsrc', ?_, hr, ?_, ?_⟩, ?_, ⟨rfl, rfl, rfl, rfl⟩⟩
  · rw [Coder.readByte, h.s, hdelete]
    simp only [Option.bind_eq_bind, Option.bind_some]
    rw [hr, hinsert]
    rfl
  · simp only [hlen]
    omega
  · simp only [h.s]
    exact mask_succ done
  · simp only [hlen]
    exact hwindow₃
  · intro _
    simp only [hlen]
    exact hwindow₂.matched (by omega) (by omega) hdone

theorem skipByte_spec (h : Coding input done c) (hsrc : c.src = []) (hmore : done < input.length)
    (hfuel : nilNode < fuel) :
    ∃ c', c.skipByte fuel = some c' ∧ Coding input (done + 1) c' ∧
      AtMatch input (done + 1) c' ∧ SameCode c c' := by
  have horigin := origin_eq
  have hpos := origin_pos
  have hend : input.length ≤ done + upLim := by
    rw [h.src] at hsrc
    exact List.drop_eq_nil_iff.mp hsrc
  have hlen : c.len = input.length - done := by
    rw [h.len]
    omega
  have hstop : origin + (done + 1) + (c.len - 1) = origin + done + c.len := by omega
  have hsrc' : c.src = input.drop (done + 1 + upLim) := by
    rw [hsrc, List.drop_eq_nil_of_le (by omega)]
  have hr : (c.r + 1) &&& (rbSize - 1) = (origin + (done + 1)) % rbSize := by
    rw [h.r, mask_succ, Nat.add_assoc]
  have hs : (c.s + 1) &&& (rbSize - 1) = (done + 1) % rbSize := by
    rw [h.s, mask_succ]
  obtain ⟨sp₁, hdelete, hwindow₁⟩ := h.window.delete hfuel
  by_cases hlast : c.len - 1 ≠ 0
  · have hdead := hwindow₁.dead (Nat.le_refl _) (by omega)
    obtain ⟨sp₂, hinsert, hwindow₂, hdone⟩ := hwindow₁.insert hdead (Nat.le_refl _)
      (Nat.le_succ _) (by omega) (Nat.lt_succ_self _) hfuel
    refine ⟨{ c with
      sp := sp₂
      len := c.len - 1
      r := (c.r + 1) &&& (rbSize - 1)
      s := (c.s + 1) &&& (rbSize - 1) }, ?_, ⟨hsrc', ?_, hr, hs, ?_⟩, ?_, ⟨rfl, rfl, rfl, rfl⟩⟩
    · rw [Coder.skipByte, h.s, hdelete]
      simp only [Option.bind_eq_bind, Option.bind_some]
      rw [if_pos hlast, hr, ← Nat.add_assoc, hinsert]
      rfl
    · simp only
      omega
    · simp only [hstop]
      exact hwindow₂
    · intro _
      simp only [hstop]
      exact hwindow₁.matched (by omega) (by omega) hdone
  · refine ⟨{ c with
      sp := sp₁
      len := c.len - 1
      r := (c.r + 1) &&& (rbSize - 1)
      s := (c.s + 1) &&& (rbSize - 1) }, ?_, ⟨hsrc', ?_, hr, hs, ?_⟩, ?_, ⟨rfl, rfl, rfl, rfl⟩⟩
    · rw [Coder.skipByte, h.s, hdelete]
      simp only [Option.bind_eq_bind, Option.bind_some]
      rw [if_neg hlast]
    · simp only
      omega
    · simp only [hstop]
      exact hwindow₁.mono (Nat.le_refl _) (by omega)
    · intro hlen'
      exact absurd (Nat.ne_of_gt hlen') hlast

theorem SameCode.refl (c : Coder) : SameCode c c := ⟨rfl, rfl, rfl, rfl⟩

theorem SameCode.trans {c'' : Coder} (h : SameCode c c') (h' : SameCode c' c'') : SameCode c c'' :=
  ⟨h'.flags.trans h.flags, h'.codes.trans h.codes, h'.mask.trans h.mask, h'.dst.trans h.dst⟩

/-- The loops behind a unit of code. -/
theorem advance_spec (h : Coding input done c) (hcount : done + count ≤ input.length)
    (hpos : 0 < count) (hfuel : nilNode < fuel) :
    ∃ c', c.advance fuel count = some c' ∧ Coding input (done + count) c' ∧
      AtMatch input (done + count) c' ∧ SameCode c c' := by
  induction count generalizing c done with
  | zero => omega
  | succ count ih =>
      have hstep : ∃ c₁, c.step fuel = some c₁ ∧ Coding input (done + 1) c₁ ∧
          AtMatch input (done + 1) c₁ ∧ SameCode c c₁ := by
        rw [Coder.step]
        split
        next byte src hsrc => exact readByte_spec h hsrc hfuel
        next hsrc => exact skipByte_spec h hsrc (by omega) hfuel
      obtain ⟨c₁, hrun, hcoding, hmatch, hsame⟩ := hstep
      rw [Coder.advance, hrun]
      simp only [Option.bind_eq_bind, Option.bind_some]
      rw [Nat.add_comm count 1, ← Nat.add_assoc]
      cases count with
      | zero => exact ⟨c₁, rfl, hcoding, hmatch, hsame⟩
      | succ count =>
          obtain ⟨c₂, hrun', hcoding', hmatch', hsame'⟩ :=
            ih hcoding (by omega) (Nat.succ_pos count)
          exact ⟨c₂, hrun', hcoding', hmatch', hsame.trans hsame'⟩

end Advance

section Units

variable {input : List UInt8} {done dstlen : Nat} {c c' : Coder} {tokens : List (Token UInt8)}

/-- What a unit of code is added to. -/
structure Emitted (c : Coder) (token : Token UInt8) (c' : Coder) : Prop where
  codes : c'.codes = c.codes ++ code token
  flags : c'.flags = if token.isLiteral then c.flags ||| c.mask else c.flags
  mask : c'.mask = c.mask
  dst : c'.dst = c.dst
  len : c'.len = c.len
  length : c'.sp.matchLength = token.size

/-- The unit of code stands for the text at the current position. -/
theorem encode_spec (h : Coding input done c) (hmatch : AtMatch input done c) (hlen : 0 < c.len) :
    ∃ token, Codable token ∧ token.Explains rbSize (streamOf input) (origin + done) ∧
      0 < token.size ∧ token.size ≤ c.len ∧ Emitted c token c.encode ∧
      Coding input done c.encode := by
  have horigin := origin_eq
  have hbound := (hmatch hlen).bound
  obtain ⟨length, hlength⟩ : ∃ length, length =
      if c.len < c.sp.matchLength then c.len else c.sp.matchLength := ⟨_, rfl⟩
  have hle : length ≤ c.len ∧ length ≤ c.sp.matchLength := by
    rw [hlength]
    split <;> omega
  rw [Coder.encode, ← hlength]
  simp only
  split
  next hshort =>
    refine ⟨.literal (c.sp.textBuf c.r), trivial, ?_, Nat.one_pos, hlen,
      ⟨rfl, rfl, rfl, rfl, rfl, rfl⟩, ⟨h.1, h.2, h.3, h.4, h.5.1, h.5.2, h.5.3, h.5.4⟩⟩
    rw [h.r]
    exact h.window.shows (origin + done) (by omega) (by rw [h.len]; omega)
  next hlong =>
    obtain ⟨a, ha, hlow, hhigh, hmatches⟩ := (hmatch hlen).same (by omega)
    refine ⟨.copy c.sp.matchPosition length, ⟨?_, by omega, by omega⟩,
      ⟨a, ha, hhigh, by omega, fun k hk => hmatches k (by omega) (by omega)⟩, ?_, hle.1,
      ⟨rfl, rfl, rfl, rfl, rfl, rfl⟩, ⟨h.1, h.2, h.3, h.4, h.5.1, h.5.2, h.5.3, h.5.4⟩⟩
    · rw [← ha]
      exact Nat.mod_lt a rbsize_pos
    · rw [Token.size]
      omega

end Units

section Packing

variable {dstlen : Nat} {c c' : Coder} {tokens group : List (Token UInt8)} {token : Token UInt8}
variable {out bytes : List UInt8} {flags mask : UInt8}

theorem sendCode_eq (h : out.length ≤ dstlen) : sendCode dstlen bytes out =
    if out.length + bytes.length ≤ dstlen then some (out ++ bytes) else none := by
  induction bytes generalizing out with
  | nil => rw [sendCode, List.length_nil, Nat.add_zero, if_pos h, List.append_nil]
  | cons byte bytes ih =>
      rw [sendCode, List.length_cons]
      split
      next hroom =>
        rw [ih (by rw [List.length_append]; exact hroom), List.length_append, List.append_assoc,
          List.length_singleton, List.singleton_append, Nat.add_assoc, Nat.add_comm 1]
      next hfull => rw [if_neg (by omega)]

/-- The mask moves on, and is empty after eight units. -/
theorem mask_shift : ∀ k < 8, (UInt8.ofNat (2 ^ k)) <<< 1 = UInt8.ofNat (2 ^ (k + 1)) ∧
    ((UInt8.ofNat (2 ^ k)) <<< 1 = 0 ↔ k = 7) := by
  decide

theorem Flags.literal (h : Flags flags group) (hgroup : group.length < 8) (byte : UInt8) :
    Flags (flags ||| UInt8.ofNat (2 ^ group.length)) (group ++ [.literal byte]) := by
  intro k
  have hmask : (UInt8.ofNat (2 ^ group.length)).toNat = 2 ^ group.length := by
    rw [UInt8.toNat_ofNat']
    exact Nat.mod_eq_of_lt (Nat.pow_lt_pow_right (by decide) hgroup)
  rw [UInt8.toNat_or, Nat.testBit_or, hmask, Nat.testBit_two_pow, h k]
  rcases Nat.lt_trichotomy k group.length with hlt | heq | hgt
  · rw [List.getElem?_append_left hlt, decide_eq_false (by omega), Bool.or_false]
  · rw [heq, List.getElem?_concat_length, decide_eq_true rfl, Bool.or_true]
    rfl
  · rw [List.getElem?_eq_none (by omega), List.getElem?_eq_none (by simp; omega),
      decide_eq_false (by omega)]
    rfl

theorem Flags.copy (h : Flags flags group) (cell length : Nat) :
    Flags flags (group ++ [.copy cell length]) := by
  intro k
  rw [h k]
  rcases Nat.lt_trichotomy k group.length with hlt | heq | hgt
  · rw [List.getElem?_append_left hlt]
  · rw [heq, List.getElem?_concat_length, List.getElem?_eq_none (Nat.le_refl _)]
    rfl
  · rw [List.getElem?_eq_none (by omega), List.getElem?_eq_none (by simp; omega)]

/-- The coder has these units in its destination and its buffer. -/
structure Packing (dstlen : Nat) (c : Coder) (tokens : List (Token UInt8)) : Prop where
  room : c.dst.length ≤ dstlen
  parts : ∃ full group, Groups c.dst full ∧ group.length < 8 ∧ Flags c.flags group ∧
    c.codes = group.flatMap code ∧ c.mask = UInt8.ofNat (2 ^ group.length) ∧
    tokens = full ++ group

/-- The bytes of so many units, sent in groups. -/
def packedLength (tokens : List (Token UInt8)) : Nat :=
  (tokens.flatMap code).length + (tokens.length + 7) / 8

theorem Groups.length (h : Groups out tokens) :
    out.length = (tokens.flatMap code).length + tokens.length / 8 ∧ 8 ∣ tokens.length := by
  induction h with
  | nil => exact ⟨rfl, Nat.dvd_zero _⟩
  | @snoc out tokens group flags _ hlength _ ih =>
      obtain ⟨hout, hdvd⟩ := ih
      refine ⟨?_, ?_⟩
      · rw [List.length_append, List.length_cons, List.flatMap_append, List.length_append,
          List.length_append, hout, hlength]
        omega
      · rw [List.length_append, hlength]
        omega

theorem Packed.length (h : Packed bytes tokens) : bytes.length = packedLength tokens := by
  obtain ⟨out, full, group, flags, hgroups, hlength, -, rfl, rfl⟩ := h.parts
  obtain ⟨hout, hdvd⟩ := hgroups.length
  rw [packedLength, List.flatMap_append, List.length_append, List.length_append,
    List.length_append, hout]
  by_cases hgroup : group = []
  · rw [if_pos hgroup, hgroup]
    simp only [List.length_nil, List.flatMap_nil, Nat.add_zero]
    omega
  · have hpos : 0 < group.length := List.length_pos_iff.mpr hgroup
    rw [if_neg hgroup, List.length_cons]
    omega

/-- A unit, and its group when it is the eighth.  Without room for the group
there is no result. -/
theorem sendGroup_spec (h : Packing dstlen c tokens) (hemitted : Emitted c token c') :
    (∃ c'', c'.sendGroup dstlen = some c'' ∧ Packing dstlen c'' (tokens ++ [token]) ∧
      c''.sp = c'.sp ∧ c''.src = c'.src ∧ c''.len = c'.len ∧ c''.r = c'.r ∧ c''.s = c'.s) ∨
    (c'.sendGroup dstlen = none ∧ dstlen < packedLength (tokens ++ [token])) := by
  obtain ⟨full, group, hgroups, hgroup, hflags, hcodes, hmask, rfl⟩ := h.parts
  have hflags' : Flags c'.flags (group ++ [token]) := by
    rw [hemitted.flags, hmask]
    cases token with
    | literal byte => exact hflags.literal hgroup byte
    | copy cell length => exact hflags.copy cell length
  have hcodes' : c'.codes = (group ++ [token]).flatMap code := by
    rw [hemitted.codes, hcodes, List.flatMap_append, List.flatMap_singleton]
  obtain ⟨hshift, hlast⟩ := mask_shift group.length hgroup
  rw [← hmask, ← hemitted.mask] at hshift hlast
  rw [Coder.sendGroup]
  split
  next hzero =>
    have hseven : group.length = 7 := hlast.mp hzero
    have height : (group ++ [token]).length = 8 := by simp [hseven]
    have hfull : Groups (c'.dst ++ c'.flags :: c'.codes) (full ++ group ++ [token]) := by
      rw [hcodes', List.append_assoc, hemitted.dst]
      exact hgroups.snoc height hflags'
    rw [sendCode_eq (hemitted.dst ▸ h.room)]
    split
    next hroom =>
      refine .inl ⟨_, rfl, ⟨?_, full ++ group ++ [token], [], hfull, by decide, ?_, rfl, rfl, ?_⟩,
        rfl, rfl, rfl, rfl, rfl⟩
      · rw [List.length_append]
        exact hroom
      · intro k
        simp
      · rw [List.append_nil]
    next hroom =>
      refine .inr ⟨rfl, ?_⟩
      have hlength := hfull.length
      rw [List.length_append] at hlength
      rw [packedLength]
      omega
  next hmore =>
    refine .inl ⟨_, rfl, ⟨hemitted.dst ▸ h.room, full, group ++ [token], hemitted.dst ▸ hgroups, ?_,
      hflags', hcodes', ?_, List.append_assoc _ _ _⟩, rfl, rfl, rfl, rfl, rfl⟩
    · have hne : group.length ≠ 7 := fun heq => hmore (hlast.mpr heq)
      rw [List.length_append, List.length_singleton]
      omega
    · rw [List.length_append, List.length_singleton]
      exact hshift

theorem code_ne_nil (token : Token UInt8) : code token ≠ [] := by
  cases token with
  | literal byte => exact List.cons_ne_nil _ _
  | copy cell length => exact List.cons_ne_nil _ _

/-- The last group. -/
theorem finish_spec (h : Packing dstlen c tokens) : ∃ result,
    (if c.codes ≠ [] then some (sendCode dstlen (c.flags :: c.codes) c.dst)
      else some (some c.dst)) = some result ∧
    ((∃ bytes, result = some bytes ∧ bytes.length ≤ dstlen ∧ Packed bytes tokens) ∨
      (result = none ∧ dstlen < packedLength tokens)) := by
  obtain ⟨full, group, hgroups, hgroup, hflags, hcodes, -, htokens⟩ := h.parts
  by_cases hnone : group = []
  · have hempty : c.codes = [] := by rw [hcodes, hnone, List.flatMap_nil]
    rw [if_neg (not_not.mpr hempty)]
    refine ⟨_, rfl, .inl ⟨_, rfl, h.room, ⟨_, _, _, _, hgroups, hgroup, hflags, htokens, ?_⟩⟩⟩
    rw [if_pos hnone, List.append_nil]
  · have hmore : c.codes ≠ [] := by
      obtain ⟨token, others, hsplit⟩ := List.exists_cons_of_ne_nil hnone
      rw [hcodes, hsplit, List.flatMap_cons]
      exact List.append_ne_nil_of_left_ne_nil (code_ne_nil token) _
    have hpacked : Packed (c.dst ++ c.flags :: c.codes) tokens := by
      refine ⟨_, _, _, _, hgroups, hgroup, hflags, htokens, ?_⟩
      rw [if_neg hnone, hcodes]
    rw [if_pos hmore, sendCode_eq h.room]
    refine ⟨_, rfl, ?_⟩
    split
    next hroom =>
      refine .inl ⟨_, rfl, ?_, hpacked⟩
      rw [List.length_append]
      exact hroom
    next hroom =>
      refine .inr ⟨rfl, ?_⟩
      rw [← hpacked.length, List.length_append]
      omega

/-- A unit of code is no longer than what it stands for. -/
theorem code_length_le {input : List UInt8} {start stop : Nat}
    (hcodable : ∀ token ∈ tokens, Codable token)
    (h : Explained rbSize (streamOf input) start tokens stop) :
    (tokens.flatMap code).length + start ≤ stop ∧ tokens.length + start ≤ stop := by
  induction tokens generalizing start with
  | nil =>
      have hend : stop = start := h
      rw [hend]
      simp
  | cons token tokens ih =>
      obtain ⟨htoken, hcodable⟩ := List.forall_mem_cons.mp hcodable
      have hrest := ih hcodable h.2
      rw [List.flatMap_cons, List.length_append, List.length_cons]
      cases token with
      | literal byte =>
          rw [Token.size] at hrest
          rw [code, List.length_singleton]
          omega
      | copy cell length =>
          have hlong : 2 < length := htoken.2.1
          rw [Token.size] at hrest
          rw [code, List.length_cons, List.length_singleton]
          omega

end Packing

section Loop

variable {input : List UInt8} {done dstlen treeFuel fuel : Nat} {c c' : Coder}
variable {tokens : List (Token UInt8)}

/-- What `compress_lzss` returns: units of code for the text that fit, and the
null pointer only if there is less room than the text and a byte for every eight
of it need. -/
structure Compressed (input : List UInt8) (dstlen : Nat) (result : Option (List UInt8)) :
    Prop where
  packed : ∀ bytes, result = some bytes → bytes.length ≤ dstlen ∧ ∃ tokens, Packed bytes tokens ∧
    (∀ token ∈ tokens, Codable token) ∧
    Explained rbSize (streamOf input) origin tokens (origin + input.length)
  room : result = none → dstlen < input.length + (input.length + 7) / 8

theorem Compressed.none (hcodable : ∀ token ∈ tokens, Codable token)
    (hexplained : Explained rbSize (streamOf input) origin tokens (origin + done))
    (hdone : done ≤ input.length) (hroom : dstlen < packedLength tokens) :
    Compressed input dstlen none := by
  refine ⟨nofun, fun _ => ?_⟩
  have hlength := code_length_le hcodable hexplained
  rw [packedLength] at hroom
  omega

theorem Packing.of_sameCode (h : Packing dstlen c tokens) (hsame : SameCode c c') :
    Packing dstlen c' tokens := by
  obtain ⟨hroom, hparts⟩ := h
  refine ⟨hsame.dst ▸ hroom, ?_⟩
  rw [hsame.dst, hsame.flags, hsame.codes, hsame.mask]
  exact hparts

theorem compressLoop_spec (h : Coding input done c) (hmatch : AtMatch input done c)
    (hlen : 0 < c.len) (hpacking : Packing dstlen c tokens)
    (hcodable : ∀ token ∈ tokens, Codable token)
    (hexplained : Explained rbSize (streamOf input) origin tokens (origin + done))
    (htree : nilNode < treeFuel) (hfuel : input.length - done < fuel) :
    ∃ result, compressLoop treeFuel dstlen fuel c = some result ∧
      Compressed input dstlen result := by
  induction fuel generalizing c done tokens with
  | zero => omega
  | succ fuel ih =>
      obtain ⟨token, htoken, hexplains, hpos, hsize, hemitted, hencoded⟩ :=
        encode_spec h hmatch hlen
      have hwithin : done + token.size ≤ input.length := by
        have := h.len
        omega
      have hcodable' : ∀ t ∈ tokens ++ [token], Codable t := by
        intro t ht
        rcases List.mem_append.mp ht with ht | ht
        · exact hcodable t ht
        · rw [List.mem_singleton.mp ht]
          exact htoken
      have hexplained' := explained_snoc hexplained hexplains
      rw [Nat.add_assoc] at hexplained'
      rw [compressLoop]
      rcases sendGroup_spec hpacking hemitted with
        ⟨c₁, hsend, hpacking₁, hsp, hsrc, hclen, hr, hs⟩ | ⟨hsend, hroom⟩
      · have hcoding₁ : Coding input done c₁ :=
          ⟨hsrc ▸ hencoded.src, hclen ▸ hencoded.len, hr ▸ hencoded.r, hs ▸ hencoded.s, by
            rw [hsp, hclen]
            exact hencoded.window⟩
        obtain ⟨c₂, hadvance, hcoding₂, hmatch₂, hsame⟩ :=
          advance_spec hcoding₁ hwithin hpos htree
        have hpacking₂ := hpacking₁.of_sameCode hsame
        have hcount : c₁.sp.matchLength = token.size := by rw [hsp, hemitted.length]
        rw [hsend]
        simp only
        rw [hcount, hadvance]
        simp only [Option.bind_eq_bind, Option.bind_some]
        split
        next hmore =>
          exact ih hcoding₂ hmatch₂ hmore hpacking₂ hcodable' hexplained' (by omega)
        next hend =>
          have hall : done + token.size = input.length := by
            have := hcoding₂.len
            have := uplim_pos
            omega
          obtain ⟨result, hfinish, ⟨bytes, rfl, hbytes, hpacked⟩ | ⟨rfl, hroom⟩⟩ :=
            finish_spec hpacking₂
          · refine ⟨_, hfinish, fun other hother => ?_, nofun⟩
            cases hother
            exact ⟨hbytes, _, hpacked, hcodable', hall ▸ hexplained'⟩
          · exact ⟨_, hfinish, .none hcodable' hexplained' hwithin hroom⟩
      · rw [hsend]
        exact ⟨_, rfl, .none hcodable' hexplained' hwithin hroom⟩

end Loop

section Start

variable {input : List UInt8} {len remaining dstlen fuel stop i : Nat} {sp : EncodeState}

theorem readFirst_spec (hshows : Shows rbSize sp.textBuf (streamOf input) (origin + len))
    (hlen : len ≤ input.length) (hroom : len + remaining ≤ upLim) :
    ∃ sp', readFirst origin remaining len (input.drop len) sp =
        (min (len + remaining) input.length, input.drop (len + remaining), sp') ∧
      Shows rbSize sp'.textBuf (streamOf input) (origin + min (len + remaining) input.length) ∧
      sp'.links = sp.links := by
  have horigin := origin_eq
  induction remaining generalizing len sp with
  | zero =>
      rw [Nat.add_zero, Nat.min_eq_left hlen]
      exact ⟨sp, rfl, hshows, rfl⟩
  | succ remaining ih =>
      by_cases hmore : len < input.length
      · have hcell : (origin + len) % rbSize = origin + len := Nat.mod_eq_of_lt (by omega)
        have hbyte : input.get ⟨len, hmore⟩ = streamOf input (origin + len) := by
          rw [streamOf, if_neg (by omega), Nat.add_sub_cancel_left, List.getD_eq_getElem _ _ hmore]
          rfl
        have hpush := hshows.push
        rw [hcell, ← hbyte] at hpush
        obtain ⟨sp', hrun, hshows', hlinks⟩ :=
          @ih (len + 1) (sp.setText (origin + len) (input.get ⟨len, hmore⟩)) hpush hmore (by omega)
        rw [Nat.add_right_comm, Nat.add_assoc] at hrun hshows'
        refine ⟨sp', ?_, hshows', hlinks⟩
        rw [List.drop_eq_getElem_cons hmore]
        exact hrun
      · have hdrop : ∀ n, len ≤ n → input.drop n = [] :=
          fun n hn => List.drop_eq_nil_of_le (by omega)
        have hmin : min (len + (remaining + 1)) input.length = len := by omega
        rw [hdrop len (Nat.le_refl _), hdrop _ (Nat.le_add_right _ _), hmin]
        exact ⟨sp, rfl, hshows, rfl⟩

/-- The strings that begin with blanks. -/
theorem insertFirst_spec (h : Window input (origin - i + 1) origin stop sp) (hpos : 0 < i)
    (hi : i + remaining ≤ upLim + 1) (hfuel : nilNode < fuel) :
    ∃ sp', insertFirst fuel origin remaining i sp = some sp' ∧
      Window input (origin - (i + remaining) + 1) origin stop sp' := by
  have horigin : upLim < origin ∧ origin < rbSize := by decide
  induction remaining generalizing i sp with
  | zero => exact ⟨sp, rfl, h⟩
  | succ remaining ih =>
      have hcell : (origin - i) % rbSize = origin - i := Nat.mod_eq_of_lt (by omega)
      have hdead := h.dead_before (Nat.lt_succ_self (origin - i)) (by omega)
      obtain ⟨sp₁, hinsert, hwindow, -⟩ := h.insert hdead (Nat.le_succ (origin - i))
        (Nat.le_refl origin) (Nat.le_refl _) (by omega) hfuel
      rw [show origin - i = origin - (i + 1) + 1 by omega] at hwindow
      obtain ⟨sp₂, hrun, hwindow'⟩ := ih hwindow (Nat.succ_pos i) (by omega)
      rw [hcell] at hinsert
      rw [Nat.add_right_comm, Nat.add_assoc] at hwindow'
      refine ⟨sp₂, ?_, hwindow'⟩
      rw [insertFirst, hinsert]
      exact hrun

theorem initState_forest {label : Nat → UInt8} :
    Forest nilNode 256 label (fun _ => 0) initState.links := by
  have hdead : ∀ x, ¬ initState.links.Live nilNode x := by
    rintro x ⟨hlt, hparent⟩
    exact hparent (if_pos hlt)
  refine ⟨fun side q hq hne => ?_, fun x hx => absurd hx (hdead x), fun x hx => absurd hx (hdead x)⟩
  rcases hq with hlive | ⟨hlow, hhigh, rfl⟩
  · exact absurd hlive (hdead q)
  · exact absurd (if_pos ⟨hlow, hhigh⟩) hne

theorem compressLzss_spec (hinput : input ≠ []) (hfuel : rbSize + input.length < fuel) :
    ∃ result, compressLzss fuel dstlen input = some result ∧
      Compressed input dstlen result := by
  have horigin := origin_eq
  have huplim := uplim_pos
  have hpos : 0 < input.length := List.length_pos_iff.mpr hinput
  have hnil : nilNode < fuel := by
    rw [nilNode]
    omega
  have hblank : Shows rbSize initState.textBuf (streamOf input) (origin + 0) := by
    intro a hlt _
    rw [Nat.add_zero] at hlt
    have hcell : a % rbSize = a := Nat.mod_eq_of_lt (by omega)
    rw [hcell, streamOf, if_pos hlt]
    exact if_pos hlt
  obtain ⟨sp₁, hread, hshows, hlinks⟩ :=
    readFirst_spec hblank (Nat.zero_le _) (show 0 + upLim ≤ upLim by omega)
  rw [Nat.zero_add, List.drop_zero] at hread
  rw [Nat.zero_add] at hshows
  have hwindow₁ : Window input (origin - 1 + 1) origin (origin + min upLim input.length) sp₁ := by
    refine ⟨hshows, fun a hsize hlt => by omega, ⟨_, hlinks ▸ initState_forest⟩, ?_⟩
    rintro p ⟨hlt, hparent⟩
    rw [hlinks] at hparent
    exact absurd (if_pos hlt) hparent
  obtain ⟨sp₂, hfirst, hwindow₂⟩ :=
    insertFirst_spec hwindow₁ Nat.one_pos (show 1 + upLim ≤ upLim + 1 by omega) hnil
  have hwindow₂' := hwindow₂.mono (Nat.zero_le _) (Nat.le_refl origin)
  have hdead := hwindow₂'.dead (Nat.le_refl origin) (by omega)
  obtain ⟨sp₃, hinsert, hwindow₃, hdone⟩ := hwindow₂'.insert hdead (Nat.le_refl 0)
    (Nat.le_succ origin) (Nat.zero_le _) (Nat.lt_succ_self origin) hnil
  have hmatched := hwindow₂'.matched (by omega) (Nat.zero_le _) hdone
  have hcell : origin % rbSize = origin := Nat.mod_eq_of_lt (by omega)
  rw [hcell] at hinsert
  obtain ⟨c, hc⟩ : ∃ c : Coder, c =
      { sp := sp₃
        src := input.drop upLim
        len := min upLim input.length
        r := origin
        s := 0
        flags := 0
        codes := []
        mask := 1
        dst := [] } := ⟨_, rfl⟩
  have hlen : c.len = min upLim input.length := by rw [hc]
  have hcoding : Coding input 0 c := by
    rw [hc]
    refine ⟨?_, rfl, hcell.symm, rfl, hwindow₃⟩
    rw [Nat.zero_add]
  have hmatch : AtMatch input 0 c := by
    intro _
    rw [hc]
    exact hmatched
  have hpacking : Packing dstlen c [] := by
    rw [hc]
    exact ⟨Nat.zero_le _, [], [], .nil, by decide, fun k => by simp, rfl, rfl, rfl⟩
  obtain ⟨result, hloop, hresult⟩ := compressLoop_spec hcoding hmatch (by omega) hpacking
    (List.forall_mem_nil _) rfl hnil (show input.length - 0 < fuel by omega)
  refine ⟨result, ?_, hresult⟩
  have hsome : min upLim input.length ≠ 0 := by omega
  have hread' : readFirst (rbSize - upLim) upLim 0 input initState =
      (min upLim input.length, input.drop upLim, sp₁) := hread
  rw [compressLzss, hread']
  simp only
  rw [if_neg hsome]
  change ((insertFirst fuel origin upLim 1 sp₁).bind fun sp =>
    (insertNode fuel sp origin).bind _) = _
  rw [hfirst, Option.bind_some, hinsert, Option.bind_some, ← hloop, hc]
  rfl

end Start

end Lzss

end Kryptonite
