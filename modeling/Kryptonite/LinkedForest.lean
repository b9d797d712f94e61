/-
Binary trees kept in arrays of links.  The nodes are the numbers below `n`, the
number `n` stands for no node, and the numbers from `n + 1` to `n + m` are the
roots, each of which has a right child only.  A node without a parent is in no
tree.  The links are right if each child names its parent and each node is a
child of its parent; a depth that grows towards the children says that they go
round nowhere.
-/
import Mathlib.Data.Finset.Card
import Mathlib.Data.Finset.Range
import Mathlib.Logic.Function.Basic

namespace Kryptonite

namespace LinkedForest

/-- The children, on the right for `true`, and the parents. -/
@[ext]
structure Links where
  child : Bool → Nat → Nat
  parent : Nat → Nat

namespace Links

def setChild (l : Links) (side : Bool) (q c : Nat) : Links :=
  { l with child := fun side' x => if side' = side ∧ x = q then c else l.child side' x }

def setParent (l : Links) (c q : Nat) : Links :=
  { l with parent := fun x => if x = c then q else l.parent x }

/-- The side on which a node hangs. -/
def sideOf (l : Links) (p : Nat) : Bool := decide (l.child true (l.parent p) = p)

section Setters

variable (l : Links) (side side' : Bool) (q c x : Nat)

@[simp] theorem setChild_child : (l.setChild side q c).child side' x =
    if side' = side ∧ x = q then c else l.child side' x := rfl

@[simp] theorem setChild_parent : (l.setChild side q c).parent x = l.parent x := rfl

@[simp] theorem setParent_child : (l.setParent c q).child side x = l.child side x := rfl

@[simp] theorem setParent_parent : (l.setParent c q).parent x =
    if x = c then q else l.parent x := rfl

end Setters

section Places

variable (n m : Nat) (l : Links)

/-- A node that is in a tree. -/
def Live (x : Nat) : Prop := x < n ∧ l.parent x ≠ n

/-- A place where a node can hang. -/
def Holds (side : Bool) (q : Nat) : Prop := l.Live n q ∨ (n < q ∧ q ≤ n + m ∧ side = true)

/-- A leaf `r` at a free place. -/
def attach (side : Bool) (p r : Nat) : Links := (l.setChild side p r).setParent r p

/-- `p` is taken out, and its only child `q` comes in its place. -/
def splice (p q : Nat) : Links :=
  ((l.setParent q (l.parent p)).setChild (l.sideOf p) (l.parent p) q).setParent p n

/-- `r` takes the place of `p`. -/
def supplant (p r : Nat) : Links :=
  let l' := l.setParent r (l.parent p)
  let l' := (l'.setChild false r (l.child false p)).setChild true r (l.child true p)
  let l' := (l'.setParent (l.child false p) r).setParent (l.child true p) r
  (l'.setChild (l.sideOf p) (l.parent p) r).setParent p n

/-- `q`, which has no right child, is taken out and takes the place of `p`. -/
def raise (p q : Nat) : Links := (l.splice n q (l.child false q)).supplant n p q

end Places

end Links

section Forests

variable {α : Type} {n m : Nat} {label label' : Nat → α} {depth : Nat → Nat} {l l' : Links}
variable {side : Bool} {p q r c x : Nat}

/-- `c` is rightly a child of `q`. -/
structure Hangs (n : Nat) (label : Nat → α) (depth : Nat → Nat) (l : Links) (q c : Nat) :
    Prop where
  node : c < n
  back : l.parent c = q
  deeper : depth q < depth c
  labelled : label c = label q

/-- The links are right.  All nodes of a tree have the label of its root. -/
structure Forest (n m : Nat) (label : Nat → α) (depth : Nat → Nat) (l : Links) : Prop where
  down : ∀ side q, l.Holds n m side q → l.child side q ≠ n →
    Hangs n label depth l q (l.child side q)
  up : ∀ x, l.Live n x → ∃ side, l.Holds n m side (l.parent x) ∧ l.child side (l.parent x) = x
  apart : ∀ x, l.Live n x → l.child false x = l.child true x → l.child true x = n

theorem Links.Holds.ne (h : l.Holds n m side q) : q ≠ n := by
  rcases h with ⟨hlt, -⟩ | ⟨hlt, -⟩
  · exact Nat.ne_of_lt hlt
  · exact Nat.ne_of_gt hlt

theorem Links.Holds.of_live (h : l.Live n q) : l.Holds n m side q := .inl h

theorem Links.Holds.right (h : l.Holds n m side q) : l.Holds n m true q := by
  rcases h with hlive | ⟨hlow, hhigh, -⟩
  · exact .inl hlive
  · exact .inr ⟨hlow, hhigh, rfl⟩

theorem Links.Holds.live (h : l.Holds n m side q) (hlt : q < n) : l.Live n q := by
  rcases h with hlive | ⟨hlow, -⟩
  · exact hlive
  · omega

theorem Links.Holds.ne_of_dead (h : l.Holds n m side q) (hlt : r < n) (hdead : ¬ l.Live n r) :
    q ≠ r := by
  rintro rfl
  exact hdead (h.live hlt)

namespace Forest

variable (h : Forest n m label depth l)

include h

theorem child (hq : l.Holds n m side q) (hc : l.child side q = c) (hne : c ≠ n) :
    Hangs n label depth l q c := by
  subst hc
  exact h.down side q hq hne

theorem child_live (hq : l.Holds n m side q) (hc : l.child side q = c) (hne : c ≠ n) :
    l.Live n c := by
  have hchild := h.child hq hc hne
  refine ⟨hchild.node, ?_⟩
  rw [hchild.back]
  exact hq.ne

/-- The place of a node, on the side that is found by looking at the right child. -/
theorem place (hp : l.Live n p) :
    l.Holds n m (l.sideOf p) (l.parent p) ∧ l.child (l.sideOf p) (l.parent p) = p := by
  obtain ⟨side, hholds, hchild⟩ := h.up p hp
  by_cases hright : l.child true (l.parent p) = p
  · rw [Links.sideOf, decide_eq_true hright]
    exact ⟨hholds.right, hright⟩
  · rw [Links.sideOf, decide_eq_false hright]
    cases side with
    | false => exact ⟨hholds, hchild⟩
    | true => exact absurd hchild hright

/-- A node hangs in one place only. -/
theorem place_unique (hq : l.Holds n m side q) (hc : l.child side q = c) (hne : c ≠ n) :
    q = l.parent c ∧ side = l.sideOf c := by
  have hparent := (h.child hq hc hne).back
  refine ⟨hparent.symm, ?_⟩
  cases side with
  | true => rw [Links.sideOf, hparent, decide_eq_true hc]
  | false =>
      have hlive : l.Live n q := by
        rcases hq with hlive | ⟨-, -, hside⟩
        · exact hlive
        · cases hside
      rw [Links.sideOf, hparent, decide_eq_false]
      intro hboth
      exact hne (hboth ▸ h.apart q hlive (hc.trans hboth.symm))

theorem parent_depth (hp : l.Live n p) : depth (l.parent p) < depth p :=
  (h.child (h.place hp).1 (h.place hp).2 (Nat.ne_of_lt hp.1)).deeper

end Forest

/-- The same trees; what is in no tree may differ. -/
structure Agrees (n m : Nat) (l l' : Links) : Prop where
  parent : ∀ x, x < n → l'.parent x = l.parent x
  child : ∀ side q, l.Holds n m side q → l'.child side q = l.child side q

theorem Agrees.live_iff (hsame : Agrees n m l l') : l'.Live n x ↔ l.Live n x := by
  refine and_congr_right fun hx => ?_
  rw [hsame.parent x hx]

theorem Agrees.holds_iff (hsame : Agrees n m l l') :
    l'.Holds n m side q ↔ l.Holds n m side q := by
  rw [Links.Holds, Links.Holds, hsame.live_iff]

/-- Only what is in the trees matters. -/
theorem Forest.congr (h : Forest n m label depth l) (hsame : Agrees n m l l')
    (hlabel : ∀ side q, l.Holds n m side q → label' q = label q) :
    Forest n m label' depth l' := by
  refine ⟨fun side q hq hne => ?_, fun x hx => ?_, fun x hx heq => ?_⟩
  · rw [hsame.holds_iff] at hq
    rw [hsame.child side q hq] at hne ⊢
    have hold := h.down side q hq hne
    refine ⟨hold.node, (hsame.parent _ hold.node).trans hold.back, hold.deeper, ?_⟩
    rw [hlabel side q hq, hlabel side _ (.of_live (h.child_live hq rfl hne)), hold.labelled]
  · rw [hsame.live_iff] at hx
    obtain ⟨side, hq, hc⟩ := h.up x hx
    refine ⟨side, ?_, ?_⟩
    · rw [hsame.holds_iff, hsame.parent x hx.1]
      exact hq
    · rw [hsame.parent x hx.1, hsame.child side _ hq, hc]
  · rw [hsame.live_iff] at hx
    rw [hsame.child false x (.of_live hx), hsame.child true x (.of_live hx)] at heq
    rw [hsame.child true x (.of_live hx)]
    exact h.apart x hx heq

/-- A node in no tree is nobody's child. -/
theorem Forest.child_ne (h : Forest n m label depth l) (hq : l.Holds n m side q) (hr : r < n)
    (hdead : ¬ l.Live n r) : l.child side q ≠ r := by
  intro hc
  exact hdead (h.child_live hq hc (Nat.ne_of_lt hr))

section Attach

variable (hp : l.Holds n m side p) (hr : r < n)

include hp hr

theorem live_attach : (l.attach side p r).Live n x ↔ l.Live n x ∨ x = r := by
  rw [Links.attach, Links.Live, Links.Live, Links.setParent_parent, Links.setChild_parent]
  by_cases hx : x = r
  · simp [hx, hr, hp.ne]
  · simp [hx]

theorem holds_attach {side' : Bool} : (l.attach side p r).Holds n m side' q ↔
    l.Holds n m side' q ∨ q = r := by
  rw [Links.Holds, Links.Holds, live_attach hp hr]
  exact or_right_comm

theorem Forest.attach (h : Forest n m label depth l) (hdead : ¬ l.Live n r)
    (hfree : l.child side p = n) (hleaf : ∀ side, l.child side r = n)
    (hlabel : label r = label p) :
    Forest n m label (Function.update depth r (depth p + 1)) (l.attach side p r) := by
  have hpr : p ≠ r := hp.ne_of_dead hr hdead
  -- a child is the new leaf, or one that was there before
  have hcases : ∀ side' q, (l.attach side p r).Holds n m side' q →
      (l.attach side p r).child side' q ≠ n →
      (side' = side ∧ q = p ∧ (l.attach side p r).child side' q = r) ∨
      (l.Holds n m side' q ∧ l.child side' q ≠ n ∧ q ≠ r ∧ l.child side' q ≠ r ∧
        (l.attach side p r).child side' q = l.child side' q) := by
    intro side' q hq hne
    by_cases hnew : side' = side ∧ q = p
    · exact .inl ⟨hnew.1, hnew.2, by simp [Links.attach, hnew]⟩
    · have hsame : (l.attach side p r).child side' q = l.child side' q := by
        rw [Links.attach, Links.setParent_child, Links.setChild_child, if_neg hnew]
      rw [hsame] at hne
      have hqr : q ≠ r := by
        rintro rfl
        exact hne (hleaf side')
      have hold := ((holds_attach hp hr).mp hq).resolve_right hqr
      exact .inr ⟨hold, hne, hqr, h.child_ne hold hr hdead, hsame⟩
  refine ⟨fun side' q hq hne => ?_, fun x hx => ?_, fun x hx heq => ?_⟩
  · rcases hcases side' q hq hne with ⟨-, hqp, hc⟩ | ⟨hold, hne, hqr, hcr, hc⟩
    · rw [hc, hqp]
      refine ⟨hr, by simp [Links.attach], ?_, hlabel⟩
      rw [Function.update_self, Function.update_of_ne hpr]
      exact Nat.lt_succ_self _
    · rw [hc]
      have hchild := h.down side' q hold hne
      refine ⟨hchild.node, ?_, ?_, hchild.labelled⟩
      · rw [Links.attach, Links.setParent_parent, if_neg hcr]
        exact hchild.back
      · rw [Function.update_of_ne hqr, Function.update_of_ne hcr]
        exact hchild.deeper
  · rcases (live_attach hp hr).mp hx with hlive | hxr
    · have hxr : x ≠ r := by
        rintro rfl
        exact hdead hlive
      obtain ⟨side', hq, hc⟩ := h.up x hlive
      have hparent : (l.attach side p r).parent x = l.parent x := by
        rw [Links.attach, Links.setParent_parent, if_neg hxr, Links.setChild_parent]
      refine ⟨side', ?_, ?_⟩
      · rw [hparent]
        exact (holds_attach hp hr).mpr (.inl hq)
      · rw [hparent, Links.attach, Links.setParent_child, Links.setChild_child, if_neg, hc]
        rintro ⟨rfl, hplace⟩
        rw [hplace, hfree] at hc
        exact Nat.ne_of_gt hlive.1 hc
    · refine ⟨side, ?_, ?_⟩
      · rw [hxr, holds_attach hp hr]
        simp [Links.attach, hp]
      · simp [Links.attach, hxr]
  · by_contra hne
    have hne' : (l.attach side p r).child false x ≠ n := heq ▸ hne
    rcases hcases true x (.of_live hx) hne with ⟨hs, hxp, hc⟩ | ⟨hold, hne, hxr, hcr, hc⟩
    · rcases hcases false x (.of_live hx) hne' with ⟨hs', -⟩ | ⟨-, -, -, hcr, hc'⟩
      · rw [← hs] at hs'
        cases hs'
      · rw [hc', hc] at heq
        exact hcr heq
    · rcases hcases false x (.of_live hx) hne' with ⟨-, -, hc'⟩ | ⟨-, -, -, -, hc'⟩
      · rw [hc', hc] at heq
        exact hcr heq.symm
      · rw [hc', hc] at heq
        have hlive := ((live_attach hp hr).mp hx).resolve_right hxr
        exact hne (h.apart x hlive heq)

end Attach

section Splice

theorem splice_child {side' : Bool} : (l.splice n p q).child side' x =
    if side' = l.sideOf p ∧ x = l.parent p then q else l.child side' x := rfl

theorem splice_parent : (l.splice n p q).parent x =
    if x = p then n else if x = q then l.parent p else l.parent x := rfl

variable (h : Forest n m label depth l) (hp : l.Live n p)
variable (hq : l.child side p = q) (hother : l.child (!side) p = n)

include h hp hq

theorem live_splice : (l.splice n p q).Live n x ↔ l.Live n x ∧ x ≠ p := by
  rw [Links.Live, splice_parent]
  by_cases hxp : x = p
  · simp [hxp]
  · by_cases hxq : x = q
    · rw [if_neg hxp, if_pos hxq]
      refine ⟨fun hx => ⟨?_, hxp⟩, fun hx => ⟨hx.1.1, hp.2⟩⟩
      exact h.child_live (.of_live hp) (hq.trans hxq.symm) (Nat.ne_of_lt hx.1)
    · rw [if_neg hxp, if_neg hxq]
      simp [Links.Live, hxp]

theorem holds_splice {side' : Bool} : (l.splice n p q).Holds n m side' x ↔
    l.Holds n m side' x ∧ x ≠ p := by
  have hlt := hp.1
  rw [Links.Holds, Links.Holds, live_splice h hp hq]
  constructor
  · rintro (hx | ⟨hlow, hhigh⟩)
    · exact ⟨.inl hx.1, hx.2⟩
    · exact ⟨.inr ⟨hlow, hhigh⟩, by omega⟩
  · rintro ⟨hx | hx, hne⟩
    · exact .inl ⟨hx, hne⟩
    · exact .inr hx

include hother

theorem Forest.splice : Forest n m label depth (l.splice n p q) := by
  obtain ⟨hplace, hhere⟩ := h.place hp
  have hpn : p ≠ n := Nat.ne_of_lt hp.1
  have hup := h.parent_depth hp
  have hparent : l.parent p ≠ p := by
    intro heq
    rw [heq] at hup
    exact Nat.lt_irrefl _ hup
  -- the children of `p`
  have hchildren : ∀ side', l.child side' p = q ∨ l.child side' p = n := by
    intro side'
    by_cases hside : side' = side
    · exact .inl (hside ▸ hq)
    · exact .inr ((Bool.eq_not.mpr hside) ▸ hother)
  have hmoved : q ≠ n → Hangs n label depth (l.splice n p q) (l.parent p) q := by
    intro hqn
    have hchild := h.child (.of_live hp) hq hqn
    have hpchild := h.child hplace hhere hpn
    have hqp : q ≠ p := by
      rintro rfl
      exact Nat.lt_irrefl _ hchild.deeper
    refine ⟨hchild.node, ?_, hpchild.deeper.trans hchild.deeper,
      hchild.labelled.trans hpchild.labelled⟩
    rw [splice_parent, if_neg hqp, if_pos rfl]
  -- a child elsewhere is neither of the two
  have hsame : ∀ side' x, l.Holds n m side' x → x ≠ p → ¬ (side' = l.sideOf p ∧ x = l.parent p) →
      l.child side' x ≠ n → Hangs n label depth (l.splice n p q) x (l.child side' x) := by
    intro side' x hx hxp hplace' hne
    have hchild := h.down side' x hx hne
    refine ⟨hchild.node, ?_, hchild.deeper, hchild.labelled⟩
    rw [splice_parent, if_neg, if_neg, hchild.back]
    · intro hcq
      have hqn : q ≠ n := hcq ▸ hne
      exact hxp (hchild.back.symm.trans (hcq ▸ (h.child (.of_live hp) hq hqn).back))
    · intro hcp
      have hunique := h.place_unique hx hcp hpn
      exact hplace' ⟨hunique.2, hunique.1⟩
  refine ⟨fun side' x hx hne => ?_, fun x hx => ?_, fun x hx heq => ?_⟩
  · obtain ⟨hx, hxp⟩ := (holds_splice h hp hq).mp hx
    rw [splice_child] at hne ⊢
    split
    next hplace' =>
      rw [if_pos hplace'] at hne
      rw [hplace'.2]
      exact hmoved hne
    next hplace' =>
      rw [if_neg hplace'] at hne
      exact hsame side' x hx hxp hplace' hne
  · obtain ⟨hx, hxp⟩ := (live_splice h hp hq).mp hx
    by_cases hxq : x = q
    · refine ⟨l.sideOf p, ?_⟩
      rw [splice_parent, if_neg hxp, if_pos hxq, holds_splice h hp hq, splice_child,
        if_pos ⟨rfl, rfl⟩]
      exact ⟨⟨hplace, hparent⟩, hxq.symm⟩
    · obtain ⟨side', hx', hc⟩ := h.up x hx
      refine ⟨side', ?_⟩
      rw [splice_parent, if_neg hxp, if_neg hxq, holds_splice h hp hq, splice_child, if_neg]
      · refine ⟨⟨hx', fun hxp' => ?_⟩, hc⟩
        rw [hxp'] at hc
        rcases hchildren side' with hc' | hc'
        · exact hxq (hc.symm.trans hc')
        · exact Nat.ne_of_lt hx.1 (hc.symm.trans hc')
      · rintro ⟨rfl, hplace'⟩
        rw [hplace', hhere] at hc
        exact hxp hc.symm
  · obtain ⟨hx, hxp⟩ := (live_splice h hp hq).mp hx
    -- the node that came up is no other child of the parent
    have hno : ∀ side', q ≠ n → l.Live n (l.parent p) → l.child side' (l.parent p) ≠ q := by
      intro side' hqn hlive hc
      have hback := (h.child (.of_live hlive) hc hqn).back
      rw [(h.child (.of_live hp) hq hqn).back] at hback
      exact hparent hback.symm
    rw [splice_child, splice_child] at heq
    rw [splice_child]
    by_contra hne
    by_cases hxu : x = l.parent p
    · subst hxu
      cases hside : l.sideOf p with
      | true =>
          rw [hside] at heq hne
          simp only [Bool.false_eq_true, false_and, ↓reduceIte, and_self] at heq hne
          exact hno false hne hx heq
      | false =>
          rw [hside] at heq hne
          simp only [Bool.true_eq_false, false_and, ↓reduceIte, and_self] at heq hne
          exact hno true (heq ▸ hne) hx heq.symm
    · simp only [hxu, and_false, ↓reduceIte] at heq hne
      exact hne (h.apart x hx heq)

end Splice

section Supplant

theorem supplant_child {side' : Bool} : (l.supplant n p r).child side' x =
    if side' = l.sideOf p ∧ x = l.parent p then r
    else if x = r then l.child side' p else l.child side' x := by
  cases side' <;> simp [Links.supplant]

theorem supplant_parent : (l.supplant n p r).parent x =
    if x = p then n
    else if x = l.child true p ∨ x = l.child false p then r
    else if x = r then l.parent p else l.parent x := by
  simp only [Links.supplant, Links.setParent_parent, Links.setChild_parent]
  by_cases hright : x = l.child true p
  · simp [hright]
  · by_cases hleft : x = l.child false p
    · simp [hleft]
    · simp [hright, hleft]

variable (h : Forest n m label depth l) (hp : l.Live n p) (hr : r < n) (hdead : ¬ l.Live n r)

include h hp hr hdead

theorem supplant_parent_self : (l.supplant n p r).parent r = l.parent p := by
  have hrp : r ≠ p := by
    rintro rfl
    exact hdead hp
  rw [supplant_parent, if_neg hrp, if_neg, if_pos rfl]
  rintro (hc | hc)
  · exact h.child_ne (.of_live hp) hr hdead hc.symm
  · exact h.child_ne (.of_live hp) hr hdead hc.symm

omit hr hdead in
/-- The children of `p` come to `r`. -/
theorem supplant_parent_child (hc : l.child side p = c) (hne : c ≠ n) :
    (l.supplant n p r).parent c = r := by
  have hcp : c ≠ p := by
    rintro rfl
    exact Nat.lt_irrefl _ (h.child (.of_live hp) hc hne).deeper
  rw [supplant_parent, if_neg hcp, if_pos]
  cases side with
  | true => exact .inl hc.symm
  | false => exact .inr hc.symm

omit hr in
/-- Every other node keeps its parent. -/
theorem supplant_parent_other (hx : l.Live n x) (hxp : x ≠ p) (hparent : l.parent x ≠ p) :
    (l.supplant n p r).parent x = l.parent x := by
  have hxr : x ≠ r := by
    rintro rfl
    exact hdead hx
  rw [supplant_parent, if_neg hxp, if_neg, if_neg hxr]
  rintro (hc | hc)
  · exact hparent (h.child (.of_live hp) hc.symm (Nat.ne_of_lt hx.1)).back
  · exact hparent (h.child (.of_live hp) hc.symm (Nat.ne_of_lt hx.1)).back

theorem live_supplant : (l.supplant n p r).Live n x ↔ (l.Live n x ∧ x ≠ p) ∨ x = r := by
  by_cases hxr : x = r
  · rw [hxr, Links.Live, supplant_parent_self h hp hr hdead]
    simp [hr, hp.2]
  · by_cases hxp : x = p
    · simp [Links.Live, supplant_parent, hxp]
      exact hxp ▸ hxr
    · rw [or_iff_left hxr, and_iff_left hxp]
      by_cases hchild : l.child true p = x ∨ l.child false p = x
      · refine ⟨fun hx => ?_, fun hx => ⟨hx.1, ?_⟩⟩
        · rcases hchild with hc | hc
          · exact h.child_live (.of_live hp) hc (Nat.ne_of_lt hx.1)
          · exact h.child_live (.of_live hp) hc (Nat.ne_of_lt hx.1)
        · rcases hchild with hc | hc
          · rw [supplant_parent_child h hp hc (Nat.ne_of_lt hx.1)]
            exact Nat.ne_of_lt hr
          · rw [supplant_parent_child h hp hc (Nat.ne_of_lt hx.1)]
            exact Nat.ne_of_lt hr
      · rw [Links.Live, Links.Live, supplant_parent, if_neg hxp, if_neg, if_neg hxr]
        rwa [eq_comm, @eq_comm _ x (l.child false p)]

theorem holds_supplant {side' : Bool} : (l.supplant n p r).Holds n m side' x ↔
    (l.Holds n m side' x ∧ x ≠ p) ∨ x = r := by
  have hlt := hp.1
  rw [Links.Holds, Links.Holds, live_supplant h hp hr hdead]
  constructor
  · rintro ((hx | hx) | ⟨hlow, hhigh⟩)
    · exact .inl ⟨.inl hx.1, hx.2⟩
    · exact .inr hx
    · exact .inl ⟨.inr ⟨hlow, hhigh⟩, by omega⟩
  · rintro (⟨hx | hx, hne⟩ | hx)
    · exact .inl (.inl ⟨hx, hne⟩)
    · exact .inr hx
    · exact .inl (.inr hx)

theorem Forest.supplant (hlabel : label r = label p) :
    Forest n m label (Function.update depth r (depth p)) (l.supplant n p r) := by
  obtain ⟨hplace, hhere⟩ := h.place hp
  have hpn : p ≠ n := Nat.ne_of_lt hp.1
  have hrn : r ≠ n := Nat.ne_of_lt hr
  have hur : l.parent p ≠ r := hplace.ne_of_dead hr hdead
  have hpchild := h.child hplace hhere hpn
  have hup : l.parent p ≠ p := by
    intro heq
    have hdeeper := hpchild.deeper
    rw [heq] at hdeeper
    exact Nat.lt_irrefl _ hdeeper
  have hparent := supplant_parent_self h hp hr hdead
  refine ⟨fun side x hx hne => ?_, fun x hx => ?_, fun x hx heq => ?_⟩
  · rw [supplant_child] at hne ⊢
    split
    next hplace' =>
      rw [hplace'.2]
      refine ⟨hr, hparent, ?_, hlabel.trans hpchild.labelled⟩
      rw [Function.update_self, Function.update_of_ne hur]
      exact hpchild.deeper
    next hplace' =>
      rw [if_neg hplace'] at hne
      split
      next hxr =>
        rw [if_pos hxr] at hne
        have hchild := h.down side p (.of_live hp) hne
        have hcr : l.child side p ≠ r := h.child_ne (.of_live hp) hr hdead
        rw [hxr]
        refine ⟨hchild.node, supplant_parent_child h hp rfl hne, ?_,
          hchild.labelled.trans hlabel.symm⟩
        rw [Function.update_self, Function.update_of_ne hcr]
        exact hchild.deeper
      next hxr =>
        rw [if_neg hxr] at hne
        obtain ⟨hold, hxp⟩ := ((holds_supplant h hp hr hdead).mp hx).resolve_right hxr
        have hchild := h.down side x hold hne
        have hcr := h.child_ne hold hr hdead
        have hcp : l.child side x ≠ p := by
          intro hcp
          have hunique := h.place_unique hold hcp hpn
          exact hplace' ⟨hunique.2, hunique.1⟩
        refine ⟨hchild.node, ?_, ?_, hchild.labelled⟩
        · have hback : l.parent (l.child side x) ≠ p := by
            rw [hchild.back]
            exact hxp
          rw [supplant_parent_other h hp hdead (h.child_live hold rfl hne) hcp hback, hchild.back]
        · rw [Function.update_of_ne hxr, Function.update_of_ne hcr]
          exact hchild.deeper
  · rcases (live_supplant h hp hr hdead).mp hx with ⟨hx, hxp⟩ | hxr
    · obtain ⟨side, hx', hc⟩ := h.up x hx
      have hxn := Nat.ne_of_lt hx.1
      by_cases hchild : l.parent x = p
      · -- a child of `p`
        rw [hchild] at hc
        refine ⟨side, ?_⟩
        rw [supplant_parent_child h hp hc hxn, holds_supplant h hp hr hdead,
          supplant_child, if_neg fun hplace' => hur hplace'.2.symm, if_pos rfl]
        exact ⟨.inr rfl, hc⟩
      · refine ⟨side, ?_⟩
        rw [supplant_parent_other h hp hdead hx hxp hchild, holds_supplant h hp hr hdead,
          supplant_child, if_neg, if_neg (hx'.ne_of_dead hr hdead)]
        · exact ⟨.inl ⟨hx', hchild⟩, hc⟩
        · rintro ⟨rfl, hplace'⟩
          rw [hplace', hhere] at hc
          exact hxp hc.symm
    · refine ⟨l.sideOf p, ?_⟩
      rw [hxr, hparent, holds_supplant h hp hr hdead, supplant_child, if_pos ⟨rfl, rfl⟩]
      exact ⟨.inl ⟨hplace, hup⟩, rfl⟩
  · rw [supplant_child, supplant_child] at heq
    rw [supplant_child]
    by_contra hne
    rcases (live_supplant h hp hr hdead).mp hx with ⟨hlive, hxp⟩ | hxr
    · have hxr : x ≠ r := by
        rintro rfl
        exact hdead hlive
      by_cases hxu : x = l.parent p
      · subst hxu
        cases hside : l.sideOf p with
        | true =>
            rw [hside] at heq
            simp only [Bool.false_eq_true, false_and, ↓reduceIte, and_self, hxr] at heq
            exact h.child_ne (.of_live hlive) hr hdead heq
        | false =>
            rw [hside] at heq
            simp only [Bool.true_eq_false, false_and, ↓reduceIte, and_self, hxr] at heq
            exact h.child_ne (.of_live hlive) hr hdead heq.symm
      · simp only [hxu, hxr, and_false, ↓reduceIte] at heq hne
        exact hne (h.apart x hlive heq)
    · simp only [hxr, hur.symm, and_false, ↓reduceIte] at heq hne
      exact hne (h.apart p hp heq)

end Supplant

section Raise

variable (h : Forest n m label depth l) (hp : l.Live n p) (hq : l.Live n q)
variable (hfree : l.child true q = n) (hpq : p ≠ q)

include h hp hq hpq

theorem splice_live_of_ne : (l.splice n q (l.child false q)).Live n p :=
  (live_splice h hq rfl).mpr ⟨hp, hpq⟩

omit hp hpq in
theorem splice_dead : ¬ (l.splice n q (l.child false q)).Live n q := by
  rw [live_splice h hq rfl]
  exact fun hlive => hlive.2 rfl

include hfree

theorem live_raise : (l.raise n p q).Live n x ↔ l.Live n x ∧ x ≠ p := by
  have hspliced : Forest n m label depth (l.splice n q (l.child false q)) :=
    h.splice hq rfl hfree
  rw [Links.raise, live_supplant hspliced (splice_live_of_ne h hp hq hpq) hq.1 (splice_dead h hq),
    live_splice h hq rfl]
  constructor
  · rintro (⟨⟨hx, -⟩, hxp⟩ | hxq)
    · exact ⟨hx, hxp⟩
    · rw [hxq]
      exact ⟨hq, hpq.symm⟩
  · rintro ⟨hx, hxp⟩
    by_cases hxq : x = q
    · exact .inr hxq
    · exact .inl ⟨⟨hx, hxq⟩, hxp⟩

theorem Forest.raise (hlabel : label q = label p) :
    Forest n m label (Function.update depth q (depth p)) (l.raise n p q) := by
  have hspliced : Forest n m label depth (l.splice n q (l.child false q)) :=
    h.splice hq rfl hfree
  exact hspliced.supplant (splice_live_of_ne h hp hq hpq) hq.1 (splice_dead h hq) hlabel

theorem raise_ne (hx : (l.raise n p q).Holds n m side x) : x ≠ p := by
  rintro rfl
  exact ((live_raise h hp hq hfree hpq).mp (hx.live hp.1)).2 rfl

/-- The left child is raised in its place. -/
theorem agrees_raise_left (hleft : l.child false p = q) (hright : l.child true p = c)
    (hc : c ≠ n) :
    Agrees n m (l.raise n p q) (((l.setChild true q c).setParent c q).splice n p q) := by
  have hqchild := h.child (.of_live hp) hleft (Nat.ne_of_lt hq.1)
  have hcchild := h.child (.of_live hp) hright hc
  have hup := h.parent_depth hp
  have hcq : c ≠ q := by
    intro heq
    have hsame := h.apart p hp (by rw [hleft, hright, heq])
    exact hc (hright.symm.trans hsame)
  have hcp : c ≠ p := by
    rintro rfl
    exact Nat.lt_irrefl _ hcchild.deeper
  have huq : l.parent p ≠ q := by
    intro heq
    have := hqchild.deeper
    rw [heq] at hup
    omega
  have hside : l.sideOf q = false :=
    (h.place_unique (.of_live hp) hleft (Nat.ne_of_lt hq.1)).2.symm
  have hbelow : ∀ x, x = l.child false q → x < n → l.parent x = q ∧ x ≠ q ∧ x ≠ p := by
    intro x hx hlt
    have hchild := h.child (.of_live hq) hx.symm (Nat.ne_of_lt hlt)
    have := hqchild.deeper
    have := hchild.deeper
    refine ⟨hchild.back, ?_, ?_⟩ <;> (rintro rfl; omega)
  have hpd : p ≠ l.child false q := fun heq => (hbelow p heq hp.1).2.2 rfl
  have hqd : q ≠ l.child false q := fun heq => (hbelow q heq hq.1).2.1 rfl
  have hparent : (l.splice n q (l.child false q)).parent p = l.parent p := by
    rw [splice_parent, if_neg hpq, if_neg hpd]
  have hparent' : ((l.setChild true q c).setParent c q).parent p = l.parent p := by
    rw [Links.setParent_parent, if_neg hcp.symm, Links.setChild_parent]
  have hsideOf : (l.splice n q (l.child false q)).sideOf p = l.sideOf p := by
    rw [Links.sideOf, hparent, splice_child, hside]
    simp [Links.sideOf]
  have hsideOf' : ((l.setChild true q c).setParent c q).sideOf p = l.sideOf p := by
    rw [Links.sideOf, hparent']
    simp [Links.sideOf, huq]
  refine ⟨fun x hx => ?_, fun side x hx => ?_⟩
  · simp only [Links.raise, splice_parent, supplant_parent, splice_child, hside, hqchild.back,
      hleft, hright, Links.setParent_parent, Links.setChild_parent]
    grind
  · have hxp := raise_ne h hp hq hfree hpq hx
    simp only [Links.raise, supplant_child, hparent, hparent', hsideOf, hsideOf', splice_child,
      hside, hqchild.back, Links.setParent_child, Links.setChild_child]
    grind

/-- A node farther down on the left is raised. -/
theorem agrees_raise_last (hlast : l.child true (l.parent q) = q)
    (hdepth : depth p < depth (l.parent q)) (hleft : l.child false p ≠ n)
    (hright : l.child true p ≠ n) :
    Agrees n m (l.raise n p q)
      (((((((l.setChild true (l.parent q) (l.child false q)).setParent (l.child false q)
        (l.parent q)).setChild false q (l.child false p)).setParent (l.child false p) q).setChild
        true q (l.child true p)).setParent (l.child true p) q).splice n p q) := by
  have hachild := h.down false p (.of_live hp) hleft
  have hcchild := h.down true p (.of_live hp) hright
  have hup := h.parent_depth hp
  have hqup := h.parent_depth hq
  have hap : l.child false p ≠ p := by
    intro heq
    have := hachild.deeper
    rw [heq] at this
    omega
  have hcp : l.child true p ≠ p := by
    intro heq
    have := hcchild.deeper
    rw [heq] at this
    omega
  have huq : l.parent p ≠ q := by
    intro heq
    rw [heq] at hup
    omega
  have huu : l.parent p ≠ l.parent q := by
    intro heq
    rw [heq] at hup
    omega
  have hpu : l.parent q ≠ p := by
    intro heq
    rw [heq] at hdepth
    omega
  have haq : l.child false p ≠ q := fun heq => hpu (heq ▸ hachild.back)
  have hcq : l.child true p ≠ q := fun heq => hpu (heq ▸ hcchild.back)
  have hside : l.sideOf q = true := decide_eq_true hlast
  have hbelow : ∀ x, x = l.child false q → x < n → x ≠ q ∧ x ≠ p := by
    intro x hx hlt
    have hchild := h.child (.of_live hq) hx.symm (Nat.ne_of_lt hlt)
    have := hchild.deeper
    refine ⟨?_, ?_⟩ <;> (rintro rfl; omega)
  have hpd : p ≠ l.child false q := fun heq => (hbelow p heq hp.1).2 rfl
  have hparent : (l.splice n q (l.child false q)).parent p = l.parent p := by
    rw [splice_parent, if_neg hpq, if_neg hpd]
  have hsideOf : (l.splice n q (l.child false q)).sideOf p = l.sideOf p := by
    rw [Links.sideOf, hparent, splice_child, hside]
    simp [Links.sideOf, huu]
  obtain ⟨moved, hmoved⟩ : ∃ moved, moved = (((((l.setChild true (l.parent q)
      (l.child false q)).setParent (l.child false q) (l.parent q)).setChild false q
      (l.child false p)).setParent (l.child false p) q).setChild true q (l.child true p)).setParent
      (l.child true p) q := ⟨_, rfl⟩
  have hparent' : moved.parent p = l.parent p := by
    rw [hmoved]
    simp [hap.symm, hcp.symm, hpd]
  have hsideOf' : moved.sideOf p = l.sideOf p := by
    rw [Links.sideOf, hparent', hmoved]
    simp [Links.sideOf, huq, huu]
  rw [← hmoved]
  refine ⟨fun x hx => ?_, fun side x hx => ?_⟩
  · simp only [Links.raise, splice_parent, supplant_parent, splice_child, hside, hparent']
    simp only [hmoved, Links.setParent_parent, Links.setChild_parent]
    grind
  · have hxp := raise_ne h hp hq hfree hpq hx
    simp only [Links.raise, supplant_child, hparent, hparent', hsideOf, hsideOf', splice_child,
      hside]
    simp only [hmoved, Links.setParent_child, Links.setChild_child]
    grind

end Raise

section Descent

/-- How many nodes are deeper than `q`: a bound for every way down from `q`. -/
def below (n : Nat) (depth : Nat → Nat) (q : Nat) : Nat :=
  ((Finset.range n).filter fun x => depth q < depth x).card

theorem below_le (q : Nat) : below n depth q ≤ n := by
  refine (Finset.card_filter_le _ _).trans ?_
  rw [Finset.card_range]

theorem Forest.below_child (h : Forest n m label depth l) (hq : l.Holds n m side q)
    (hc : l.child side q = c) (hne : c ≠ n) : below n depth c < below n depth q := by
  have hchild := h.child hq hc hne
  refine Finset.card_lt_card (Finset.ssubset_iff_subset_ne.mpr ⟨fun x hx => ?_, fun heq => ?_⟩)
  · rw [Finset.mem_filter] at hx ⊢
    exact ⟨hx.1, hchild.deeper.trans hx.2⟩
  · have hmem : c ∈ (Finset.range n).filter fun x => depth q < depth x :=
      Finset.mem_filter.mpr ⟨Finset.mem_range.mpr hchild.node, hchild.deeper⟩
    rw [← heq, Finset.mem_filter] at hmem
    exact Nat.lt_irrefl _ hmem.2

end Descent

end Forests

end LinkedForest

end Kryptonite
