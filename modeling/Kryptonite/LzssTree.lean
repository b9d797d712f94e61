/-
The search trees of the LZSS encoder.  `insert_node` and `delete_node` end, keep
the links of the trees right, and the match that `insert_node` reports is one.
The order of the trees plays no part in this: it only makes the matches long.
-/
import Kryptonite.LinkedForest
import Kryptonite.Lzss

namespace Kryptonite

namespace Lzss

open LinkedForest

section Links

variable (sp : EncodeState) (p q r i value : Nat)

/-- The arrays as links. -/
def EncodeState.links : Links where
  child
    | true => sp.rchild
    | false => sp.lchild
  parent := sp.parent

@[simp] theorem links_setLchild :
    (sp.setLchild i value).links = sp.links.setChild false i value := by
  refine Links.ext (funext fun side => funext fun x => ?_) rfl
  cases side with
  | true => rfl
  | false => simp [EncodeState.links, EncodeState.setLchild, Function.update_apply]

@[simp] theorem links_setRchild :
    (sp.setRchild i value).links = sp.links.setChild true i value := by
  refine Links.ext (funext fun side => funext fun x => ?_) rfl
  cases side with
  | true => simp [EncodeState.links, EncodeState.setRchild, Function.update_apply]
  | false => rfl

@[simp] theorem links_setParent :
    (sp.setParent i value).links = sp.links.setParent i value := by
  refine Links.ext rfl (funext fun x => ?_)
  simp [EncodeState.links, EncodeState.setParent, Function.update_apply]

theorem setRchild_rchild_of_ne {sp : EncodeState} {p i value : Nat} (h : p ≠ i) :
    (sp.setRchild i value).rchild p = sp.rchild p :=
  Function.update_of_ne h _ _

@[simp] theorem links_relink :
    (sp.relink p q).links = sp.links.setChild (sp.links.sideOf p) (sp.links.parent p) q := by
  rw [EncodeState.relink]
  split
  next hright =>
    have hside : sp.links.sideOf p = true := decide_eq_true hright
    rw [hside, links_setRchild]
    rfl
  next hleft =>
    have hside : sp.links.sideOf p = false := decide_eq_false hleft
    rw [hside, links_setLchild]
    rfl

/-- Everything but the links. -/
structure SameText (sp sp' : EncodeState) : Prop where
  textBuf : sp'.textBuf = sp.textBuf
  matchPosition : sp'.matchPosition = sp.matchPosition
  matchLength : sp'.matchLength = sp.matchLength

section SameText

variable {sp} {sp' : EncodeState} (h : SameText sp sp')

include h

theorem SameText.setLchild : SameText sp (sp'.setLchild i value) := ⟨h.1, h.2, h.3⟩

theorem SameText.setRchild : SameText sp (sp'.setRchild i value) := ⟨h.1, h.2, h.3⟩

theorem SameText.setParent : SameText sp (sp'.setParent i value) := ⟨h.1, h.2, h.3⟩

theorem SameText.relink : SameText sp (sp'.relink p q) := by
  rw [EncodeState.relink]
  split
  · exact h.setRchild _ _
  · exact h.setLchild _ _

theorem SameText.unlinkNode : SameText sp (sp'.unlinkNode p q) :=
  ((h.setParent _ _).relink p q).setParent p nilNode

theorem SameText.replaceNode : SameText sp (sp'.replaceNode r p) :=
  ((((((h.setParent _ _).setLchild _ _).setRchild _ _).setParent _ _).setParent _ _).relink
    p r).setParent p nilNode

end SameText

theorem SameText.refl : SameText sp sp := ⟨rfl, rfl, rfl⟩

theorem links_unlinkNode (hne : p ≠ q) :
    (sp.unlinkNode p q).links = sp.links.splice nilNode p q := by
  have hparent : (sp.links.setParent q (sp.links.parent p)).parent p = sp.links.parent p := by
    rw [Links.setParent_parent, if_neg hne]
  have hside : (sp.links.setParent q (sp.links.parent p)).sideOf p = sp.links.sideOf p := by
    rw [Links.sideOf, hparent]
    rfl
  rw [EncodeState.unlinkNode, links_setParent, links_relink, links_setParent]
  change ((sp.links.setParent q (sp.links.parent p)).setChild
    ((sp.links.setParent q (sp.links.parent p)).sideOf p)
    ((sp.links.setParent q (sp.links.parent p)).parent p) q).setParent p nilNode = _
  rw [hparent, hside]
  rfl

theorem links_moved :
    ((((((sp.setRchild (sp.parent q) (sp.lchild q)).setParent (sp.lchild q) (sp.parent q)).setLchild
      q (sp.lchild p)).setParent (sp.lchild p) q).setRchild q (sp.rchild p)).setParent
      (sp.rchild p) q).links =
    (((((sp.links.setChild true (sp.parent q) (sp.lchild q)).setParent (sp.lchild q)
      (sp.parent q)).setChild false q (sp.lchild p)).setParent (sp.lchild p) q).setChild true q
      (sp.rchild p)).setParent (sp.rchild p) q := by
  simp only [links_setParent, links_setLchild, links_setRchild]

theorem links_replaceNode (hpr : p ≠ r) (hleft : sp.lchild p ≠ p) (hright : sp.rchild p ≠ p)
    (hparent : sp.parent p ≠ r) :
    (sp.replaceNode r p).links = sp.links.supplant nilNode p r := by
  -- the state before the parent of `p` gets its new child
  obtain ⟨before, hbefore⟩ : ∃ before : EncodeState, before =
      (((((sp.setParent r (sp.parent p)).setLchild r (sp.lchild p)).setRchild r
        (sp.rchild p)).setParent (sp.lchild p) r).setParent (sp.rchild p) r) := ⟨_, rfl⟩
  have hcode : sp.replaceNode r p = (before.relink p r).setParent p nilNode := by
    rw [hbefore, EncodeState.replaceNode]
    simp only [EncodeState.setParent, EncodeState.setLchild, EncodeState.setRchild,
      Function.update_of_ne hpr]
  have hup : before.links.parent p = sp.links.parent p := by
    rw [hbefore]
    simp [hpr, Ne.symm hleft, Ne.symm hright]
  have hside : before.links.sideOf p = sp.links.sideOf p := by
    have hne : sp.links.parent p ≠ r := hparent
    rw [Links.sideOf, Links.sideOf, hup, hbefore]
    simp [hne]
  rw [hcode, links_setParent, links_relink, hup, hside, hbefore]
  simp
  rfl

end Links

section Delete

variable {α : Type} {m : Nat} {label : Nat → α} {depth : Nat → Nat} {sp : EncodeState} {p q : Nat}

/-- The walk to the right ends at a node without a right child. -/
theorem rightmost_spec (h : Forest nilNode m label depth sp.links) {fuel : Nat}
    (hq : sp.links.Live nilNode q) (hright : sp.rchild q ≠ nilNode)
    (hfuel : below nilNode depth q < fuel) :
    ∃ last, rightmost sp.rchild fuel q = some last ∧ sp.links.Live nilNode last ∧
      sp.rchild last = nilNode ∧ sp.rchild (sp.parent last) = last ∧
      depth q ≤ depth (sp.parent last) ∧ label last = label q := by
  induction fuel generalizing q with
  | zero => omega
  | succ fuel ih =>
      have hc : sp.links.child true q = sp.rchild q := rfl
      have hchild := h.child (.of_live hq) hc hright
      have hlive := h.child_live (.of_live hq) hc hright
      rw [rightmost]
      split
      next hmore =>
        have hbelow := h.below_child (.of_live hq) hc hright
        obtain ⟨last, hrun, hlast, hend, hplace, hdepth, hlabel⟩ := ih hlive hmore (by omega)
        have hdeeper := hchild.deeper
        exact ⟨last, hrun, hlast, hend, hplace, by omega, hlabel.trans hchild.labelled⟩
      next hmore =>
        have hback : sp.parent (sp.rchild q) = q := hchild.back
        refine ⟨_, rfl, hlive, not_not.mp hmore, ?_, ?_, hchild.labelled⟩
        · rw [hback]
        · rw [hback]

/-- What a deletion has done. -/
structure Deleted (m : Nat) (label : Nat → α) (p : Nat) (sp sp' : EncodeState) : Prop where
  forest : ∃ depth, Forest nilNode m label depth sp'.links
  live : ∀ x, sp'.links.Live nilNode x ↔ sp.links.Live nilNode x ∧ x ≠ p
  same : SameText sp sp'

theorem deleted_unlinkNode (h : Forest nilNode m label depth sp.links)
    (hp : sp.links.Live nilNode p) {side : Bool} (hq : sp.links.child side p = q)
    (hother : sp.links.child (!side) p = nilNode) :
    Deleted m label p sp (sp.unlinkNode p q) := by
  have hpq : p ≠ q := by
    rintro rfl
    exact Nat.lt_irrefl _ (h.child (.of_live hp) hq (Nat.ne_of_lt hp.1)).deeper
  have hlinks := links_unlinkNode sp p q hpq
  refine ⟨⟨depth, ?_⟩, fun x => ?_, (SameText.refl sp).unlinkNode p q⟩
  · rw [hlinks]
    exact h.splice hp hq hother
  · rw [hlinks]
    exact live_splice h hp hq

theorem deleted_of_agrees {sp' : EncodeState} (h : Forest nilNode m label depth sp.links)
    (hp : sp.links.Live nilNode p) (hq : sp.links.Live nilNode q)
    (hfree : sp.links.child true q = nilNode) (hpq : p ≠ q) (hlabel : label q = label p)
    (hagrees : Agrees nilNode m (sp.links.raise nilNode p q) sp'.links) (hsame : SameText sp sp') :
    Deleted m label p sp sp' := by
  refine ⟨⟨_, (h.raise hp hq hfree hpq hlabel).congr hagrees fun _ _ _ => rfl⟩, fun x => ?_, hsame⟩
  rw [hagrees.live_iff, live_raise h hp hq hfree hpq]

theorem deleteNode_spec (h : Forest nilNode m label depth sp.links) (hp : p < nilNode) {fuel : Nat}
    (hfuel : nilNode < fuel) :
    ∃ sp', deleteNode fuel sp p = some sp' ∧ Deleted m label p sp sp' := by
  rw [deleteNode]
  split
  next hparent =>
    refine ⟨sp, rfl, ⟨depth, h⟩, fun x => ⟨fun hx => ⟨hx, ?_⟩, And.left⟩, ⟨rfl, rfl, rfl⟩⟩
    rintro rfl
    exact hx.2 hparent
  next hparent =>
    have hlive : sp.links.Live nilNode p := ⟨hp, hparent⟩
    have hleftChild : sp.links.child false p = sp.lchild p := rfl
    have hrightChild : sp.links.child true p = sp.rchild p := rfl
    split
    next hright => exact ⟨_, rfl, deleted_unlinkNode h hlive hleftChild hright⟩
    next hright =>
      split
      next hleft => exact ⟨_, rfl, deleted_unlinkNode h hlive hrightChild hleft⟩
      next hleft =>
        have hchild := h.child (.of_live hlive) hleftChild hleft
        have hchildLive := h.child_live (.of_live hlive) hleftChild hleft
        split
        next hfree =>
          have hpq : p ≠ sp.lchild p := fun heq => by
            have := hchild.deeper
            rw [← heq] at this
            omega
          refine ⟨_, rfl, deleted_of_agrees h hlive hchildLive hfree hpq hchild.labelled ?_ ?_⟩
          · rw [links_unlinkNode _ _ _ hpq, links_setParent, links_setRchild,
              setRchild_rchild_of_ne hpq]
            exact agrees_raise_left h hlive hchildLive hfree hpq hleftChild hrightChild hright
          · exact (((SameText.refl sp).setRchild _ _).setParent _ _).unlinkNode _ _
        next hmore =>
          obtain ⟨q, hrun, hq, hend, hplace, hdepth, hlabel⟩ :=
            rightmost_spec h hchildLive hmore ((below_le _).trans_lt hfuel)
          have hdeeper := hchild.deeper
          have hqdepth : depth (sp.parent q) < depth q := h.parent_depth hq
          have hpq : p ≠ q := by
            rintro rfl
            omega
          have hpu : p ≠ sp.parent q := by
            intro heq
            rw [← heq] at hdepth
            omega
          rw [hrun]
          refine ⟨_, rfl, deleted_of_agrees h hlive hq hend hpq (hlabel.trans hchild.labelled)
            ?_ ?_⟩
          · have hagrees := agrees_raise_last h hlive hq hend hpq hplace
              (hdeeper.trans_le hdepth) hleft hright
            have hlinks := links_moved sp p q
            rw [links_unlinkNode _ _ _ hpq]
            -- the reads in between see the arrays as they were
            simp only [EncodeState.setParent, EncodeState.setLchild, EncodeState.setRchild,
              Function.update_of_ne hpq, Function.update_of_ne hpu] at hlinks ⊢
            rw [hlinks]
            exact hagrees
          · exact ((((((SameText.refl sp).setRchild _ _).setParent _ _).setLchild _ _).setParent
              _ _).setRchild _ _).setParent _ _ |>.unlinkNode _ _

end Delete

section Insert

variable {α : Type} {m : Nat} {label : Nat → α} {depth : Nat → Nat} {sp : EncodeState} {p r : Nat}

/-- The strings at `r` and `p` agree behind their first bytes. -/
def Matches (text : Nat → UInt8) (r p length : Nat) : Prop :=
  ∀ k, 0 < k → k < length → text (r + k) = text (p + k)

theorem compareFrom_spec (text : Nat → UInt8) (r p remaining i : Nat) :
    i ≤ (compareFrom text r p remaining i).1 ∧
      (compareFrom text r p remaining i).1 ≤ i + remaining ∧
      ∀ k, i ≤ k → k < (compareFrom text r p remaining i).1 → text (r + k) = text (p + k) := by
  induction remaining generalizing i with
  | zero =>
      refine ⟨Nat.le_refl i, Nat.le_refl i, fun k hlow hhigh => ?_⟩
      rw [compareFrom] at hhigh
      omega
  | succ remaining ih =>
      rw [compareFrom]
      split
      · refine ⟨Nat.le_refl i, Nat.le_add_right i _, fun k hlow hhigh => ?_⟩
        simp only at hhigh
        omega
      next hsame =>
        obtain ⟨hlow, hhigh, hequal⟩ := ih (i + 1)
        refine ⟨by omega, by omega, fun k hk hlt => ?_⟩
        rcases Nat.eq_or_lt_of_le hk with rfl | hk
        · have hnat : (text (r + i)).toNat = (text (p + i)).toNat := by omega
          exact UInt8.toNat_inj.mp hnat
        · exact hequal k hk hlt

/-- The match that is reported is with a node that was in a tree. -/
structure Found (label : Nat → α) (r : Nat) (before : Links) (sp : EncodeState) : Prop where
  bound : sp.matchLength ≤ upLim
  live : 0 < sp.matchLength → before.Live nilNode sp.matchPosition
  first : 0 < sp.matchLength → label sp.matchPosition = label r
  rest : 0 < sp.matchLength → Matches sp.textBuf r sp.matchPosition sp.matchLength

/-- What an insertion has done. -/
structure Inserted (m : Nat) (label : Nat → α) (r : Nat) (sp sp' : EncodeState) : Prop where
  forest : ∃ depth, Forest nilNode m label depth sp'.links
  live : ∀ x, sp'.links.Live nilNode x → sp.links.Live nilNode x ∨ x = r
  text : sp'.textBuf = sp.textBuf
  found : Found label r sp.links sp'

theorem Found.of_sameText {before : Links} {sp' : EncodeState} (h : Found label r before sp)
    (hsame : SameText sp sp') : Found label r before sp' := by
  obtain ⟨htext, hposition, hlength⟩ := hsame
  refine ⟨?_, ?_, ?_, ?_⟩
  · rw [hlength]
    exact h.bound
  · rw [hlength, hposition]
    exact h.live
  · rw [hlength, hposition]
    exact h.first
  · rw [hlength, hposition, htext]
    exact h.rest

theorem links_attach (sp : EncodeState) (p r : Nat) (cmp : Int) :
    ((if 0 ≤ cmp then sp.setRchild p r else sp.setLchild p r).setParent r p).links =
      sp.links.attach (decide (0 ≤ cmp)) p r := by
  rw [links_setParent, Links.attach]
  by_cases hcmp : 0 ≤ cmp
  · rw [if_pos hcmp, decide_eq_true hcmp, links_setRchild]
  · rw [if_neg hcmp, decide_eq_false hcmp, links_setLchild]

theorem child_of_cmp (sp : EncodeState) (p : Nat) (cmp : Int) :
    (if 0 ≤ cmp then sp.rchild p else sp.lchild p) = sp.links.child (decide (0 ≤ cmp)) p := by
  by_cases hcmp : 0 ≤ cmp
  · rw [if_pos hcmp, decide_eq_true hcmp]
    rfl
  · rw [if_neg hcmp, decide_eq_false hcmp]
    rfl

theorem insertLoop_spec (h : Forest nilNode m label depth sp.links) (hr : r < nilNode)
    (hdead : ¬ sp.links.Live nilNode r) (hleaf : ∀ side, sp.links.child side r = nilNode)
    {cmp : Int} (hp : sp.links.Holds nilNode m (decide (0 ≤ cmp)) p) (hlabel : label p = label r)
    (hfound : Found label r sp.links sp) {fuel : Nat} (hfuel : below nilNode depth p < fuel) :
    ∃ sp', insertLoop r fuel p cmp sp = some sp' ∧ Inserted m label r sp sp' := by
  induction fuel generalizing p cmp sp with
  | zero => omega
  | succ fuel ih =>
      rw [insertLoop, child_of_cmp]
      obtain ⟨child, hchild⟩ : ∃ child, sp.links.child (decide (0 ≤ cmp)) p = child := ⟨_, rfl⟩
      rw [hchild]
      split
      next hfree =>
        rw [hfree] at hchild
        have hsame : SameText sp
            ((if 0 ≤ cmp then sp.setRchild p r else sp.setLchild p r).setParent r p) := by
          split
          · exact ((SameText.refl sp).setRchild p r).setParent r p
          · exact ((SameText.refl sp).setLchild p r).setParent r p
        have hforest := h.attach hp hr hdead hchild hleaf hlabel.symm
        rw [← links_attach] at hforest
        refine ⟨_, rfl, ⟨_, hforest⟩, fun x hx => ?_, hsame.textBuf, hfound.of_sameText hsame⟩
        rw [links_attach] at hx
        exact (live_attach hp hr).mp hx
      next hne =>
        have hhangs := h.child hp hchild hne
        have hlive := h.child_live hp hchild hne
        have hbelow := h.below_child hp hchild hne
        have hchildLabel : label child = label r := hhangs.labelled.trans hlabel
        obtain ⟨hlow, hhigh, hequal⟩ := compareFrom_spec sp.textBuf r child (upLim - 1) 1
        generalize compareFrom sp.textBuf r child (upLim - 1) 1 = compared at hlow hhigh hequal ⊢
        obtain ⟨i, cmp'⟩ := compared
        simp only at hlow hhigh hequal ⊢
        have hlonger : Found label r sp.links
            { sp with matchPosition := child, matchLength := i } :=
          ⟨hhigh, fun _ => hlive, fun _ => hchildLabel, fun _ k hpos hk => hequal k hpos hk⟩
        split
        · split
          · have hpr : child ≠ r := by
              rintro rfl
              exact hdead hlive
            have hself : ∀ side, sp.links.child side child ≠ child := by
              intro side heq
              exact Nat.lt_irrefl _ (h.child (.of_live hlive) heq hne).deeper
            have hlinks := links_replaceNode { sp with matchPosition := child, matchLength := i }
              child r hpr (hself false) (hself true)
              (fun heq => hp.ne_of_dead hr hdead (hhangs.back.symm.trans heq))
            have hsame := (SameText.refl
              { sp with matchPosition := child, matchLength := i }).replaceNode child r
            have hforest := h.supplant hlive hr hdead hchildLabel.symm
            refine ⟨_, rfl, ⟨_, hlinks ▸ hforest⟩, fun x hx => ?_, hsame.textBuf,
              hlonger.of_sameText hsame⟩
            rw [hlinks] at hx
            rcases (live_supplant h hlive hr hdead).mp hx with hx | hx
            · exact .inl hx.1
            · exact .inr hx
          · obtain ⟨sp', hrun, hdone⟩ := @ih { sp with matchPosition := child, matchLength := i }
              child h hdead hleaf cmp' (.of_live hlive) hchildLabel hlonger (by omega)
            exact ⟨sp', hrun, hdone.forest, hdone.live, hdone.text, hdone.found⟩
        · exact ih h hdead hleaf (.of_live hlive) hchildLabel hfound (by omega)

/-- The first byte of a string, and the byte of a root. -/
def firstByte (text : Nat → UInt8) (q : Nat) : UInt8 :=
  if q < rbSize then text q else UInt8.ofNat (q - (rbSize + 1))

theorem insertNode_spec (h : Forest nilNode 256 (firstByte sp.textBuf) depth sp.links)
    (hr : r < nilNode) (hdead : ¬ sp.links.Live nilNode r) {fuel : Nat} (hfuel : nilNode < fuel) :
    ∃ sp', insertNode fuel sp r = some sp' ∧
      Inserted 256 (firstByte sp.textBuf) r sp sp' := by
  obtain ⟨fresh, hfresh⟩ : ∃ fresh, fresh =
      { (sp.setLchild r nilNode).setRchild r nilNode with matchLength := 0 } := ⟨_, rfl⟩
  have hlinks : fresh.links = (sp.links.setChild false r nilNode).setChild true r nilNode := by
    rw [← links_setLchild, ← links_setRchild, hfresh]
    rfl
  have hagrees : Agrees nilNode 256 sp.links fresh.links := by
    refine ⟨fun x _ => ?_, fun side q hq => ?_⟩
    · rw [hlinks]
      rfl
    · have hqr := hq.ne_of_dead hr hdead
      simp [hlinks, hqr]
  have hforest := h.congr hagrees fun _ _ _ => rfl
  have hroot : fresh.links.Holds nilNode 256 (decide (0 ≤ (1 : Int)))
      (rbSize + 1 + (sp.textBuf r).toNat) := by
    have hbyte := (sp.textBuf r).toNat_lt
    exact .inr ⟨by rw [nilNode]; omega, by rw [nilNode]; omega, rfl⟩
  have hlabel : firstByte sp.textBuf (rbSize + 1 + (sp.textBuf r).toNat) =
      firstByte sp.textBuf r := by
    rw [firstByte, firstByte, if_neg (by omega), if_pos (show r < rbSize from hr),
      Nat.add_sub_cancel_left, UInt8.ofNat_toNat]
  have hleaf : ∀ side, fresh.links.child side r = nilNode := by
    intro side
    cases side with
    | true => simp [hlinks]
    | false => simp [hlinks]
  have hnone : fresh.matchLength = 0 := by rw [hfresh]
  have hfound : Found (firstByte sp.textBuf) r fresh.links fresh := by
    refine ⟨by rw [hnone]; exact Nat.zero_le _, ?_, ?_, ?_⟩ <;>
      (intro hpos; rw [hnone] at hpos; exact absurd hpos (Nat.lt_irrefl 0))
  obtain ⟨sp', hrun, hdone⟩ := insertLoop_spec hforest hr (mt hagrees.live_iff.mp hdead) hleaf hroot
    hlabel hfound ((below_le _).trans_lt hfuel)
  refine ⟨sp', ?_, hdone.forest, fun x hx => ?_, ?_, ?_⟩
  · rw [insertNode, ← hfresh]
    exact hrun
  · exact (hdone.live x hx).imp_left hagrees.live_iff.mp
  · rw [hdone.text, hfresh]
    rfl
  · exact ⟨hdone.found.bound, fun hpos => hagrees.live_iff.mp (hdone.found.live hpos),
      hdone.found.first, hdone.found.rest⟩

end Insert

end Lzss

end Kryptonite
