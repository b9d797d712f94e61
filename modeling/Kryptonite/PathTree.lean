/-
Finite trees addressed by paths.  A tree is a list of entries, each under the
path that leads to it; the first entry for a path is the one that counts.  The
operations below are the whole-subtree operations of a file system: remove a
subtree, copy one over another, create the directories leading to a path and
edit every entry of a subtree.  Each has one lookup lemma, and nothing else
about the entry list is used outside this module.
-/
import Mathlib.Data.List.Infix
import Mathlib.Data.List.Dedup

namespace Kryptonite

/-- A finite tree with names in `ν` and entries in `κ`. -/
structure PathTree (ν κ : Type) where
  entries : List (List ν × κ)
deriving Repr

namespace PathTree

variable {ν κ : Type} [DecidableEq ν]

/-- Neither path leads to or through the other. -/
def Apart (p q : List ν) : Prop := ¬ p <+: q ∧ ¬ q <+: p

instance (p q : List ν) : Decidable (Apart p q) :=
  inferInstanceAs (Decidable (_ ∧ _))

omit [DecidableEq ν] in
theorem Apart.symm {p q : List ν} (h : Apart p q) : Apart q p := ⟨h.2, h.1⟩

omit [DecidableEq ν] in
theorem apart_of_head_ne {a b : ν} (h : a ≠ b) (p q : List ν) :
    Apart (a :: p) (b :: q) := by
  simp [Apart, h, h.symm]

instance : Std.Symm (@Apart ν) := ⟨fun _ _ h => h.symm⟩

omit [DecidableEq ν] in
/-- What lies below a path apart from `p` does not lie below `p`. -/
theorem Apart.not_prefix_append {p q : List ν} (h : Apart p q) (r : List ν) :
    ¬ p <+: q ++ r := by
  intro hp
  rcases List.prefix_or_prefix_of_prefix hp (List.prefix_append q r) with hpq | hqp
  · exact h.1 hpq
  · exact h.2 hqp

omit [DecidableEq ν] in
/-- Paths apart from a path are apart from everything below it. -/
theorem Apart.append_right {p q : List ν} (h : Apart p q) (r : List ν) :
    Apart p (q ++ r) :=
  ⟨h.not_prefix_append r, fun hq => h.2 ((List.prefix_append q r).trans hq)⟩

omit [DecidableEq ν] in
theorem Apart.append_left {p q : List ν} (h : Apart p q) (base : List ν) :
    Apart (base ++ p) (base ++ q) :=
  ⟨fun hp => h.1 ((List.prefix_append_right_inj base).mp hp),
    fun hq => h.2 ((List.prefix_append_right_inj base).mp hq)⟩

/-- Nothing at or below `p` is among the `touched` paths. -/
def Avoids (touched : List ν → Prop) (p : List ν) : Prop := ∀ r, ¬ touched (p ++ r)

omit [DecidableEq ν] in
theorem Apart.avoids {p q : List ν} (h : Apart p q) : Avoids (p <+: ·) q :=
  h.not_prefix_append

omit [DecidableEq ν] in
/-- A path that does not lead to `q` has nothing below it that does. -/
theorem avoids_leading {p q : List ν} (h : ¬ p <+: q) : Avoids (· <+: q) p :=
  fun r hr => h ((List.prefix_append p r).trans hr)

/-- The entry at a path. -/
def get (t : PathTree ν κ) (p : List ν) : Option κ := t.entries.lookup p

/-- Remove the entry at `p` and everything below it. -/
def prune (t : PathTree ν κ) (p : List ν) : PathTree ν κ :=
  ⟨t.entries.filter fun entry => ¬ p <+: entry.1⟩

/-- An entry of the subtree at `src`, moved to the same place below `dst`. -/
def relocate (src dst : List ν) (entry : List ν × κ) : Option (List ν × κ) :=
  if src <+: entry.1 then some (dst ++ entry.1.drop src.length, entry.2) else none

/-- Copy the subtree of `source` at `src` over whatever `t` holds at `dst`:
entries of the same name are replaced, the others stay. -/
def graft (t : PathTree ν κ) (dst : List ν) (source : PathTree ν κ)
    (src : List ν) : PathTree ν κ :=
  ⟨source.entries.filterMap (relocate src dst) ++ t.entries⟩

/-- Give every missing entry on the way to `p`, and `p` itself, the value
`v`. -/
def cover (t : PathTree ν κ) (p : List ν) (v : κ) : PathTree ν κ :=
  ⟨t.entries ++ p.inits.map fun q => (q, v)⟩

/-- Edit every entry at or below `p`. -/
def mapBelow (t : PathTree ν κ) (p : List ν) (f : κ → κ) : PathTree ν κ :=
  ⟨t.entries.map fun entry =>
    if p <+: entry.1 then (entry.1, f entry.2) else entry⟩

/-- Replace the single entry at `p`. -/
def put (t : PathTree ν κ) (p : List ν) (v : κ) : PathTree ν κ :=
  ⟨(p, v) :: t.entries⟩

/-- The names directly below `p`. -/
def children (t : PathTree ν κ) (p : List ν) : List ν :=
  (t.entries.filterMap fun entry =>
    if p <+: entry.1 then
      match entry.1.drop p.length with
      | [name] => some name
      | _ => none
    else none).dedup

theorem mem_entries_of_get {t : PathTree ν κ} {p : List ν} {v : κ}
    (h : t.get p = some v) : (p, v) ∈ t.entries := by
  obtain ⟨entries⟩ := t
  simp only [get] at h
  induction entries with
  | nil => cases h
  | cons entry entries ih =>
      obtain ⟨key, w⟩ := entry
      by_cases hkey : p = key
      · subst hkey
        simp only [List.lookup_cons_self, Option.some.injEq] at h
        simp [h]
      · rw [List.lookup_cons, beq_eq_false_iff_ne.mpr hkey] at h
        exact List.mem_cons_of_mem _ (ih h)

theorem get_ne_none_of_mem_entries {t : PathTree ν κ} {p : List ν} {v : κ}
    (h : (p, v) ∈ t.entries) : t.get p ≠ none := by
  rw [get, ne_eq, List.lookup_eq_none_iff]
  intro hnone
  exact absurd (hnone (p, v) h) (by simp)

theorem mem_children_iff (t : PathTree ν κ) (p : List ν) (name : ν) :
    name ∈ t.children p ↔ t.get (p ++ [name]) ≠ none := by
  rw [children, List.mem_dedup, List.mem_filterMap]
  constructor
  · rintro ⟨⟨key, v⟩, hentry, hname⟩
    split at hname
    · rename_i hleads
      obtain ⟨rest, rfl⟩ := hleads
      rw [List.drop_left] at hname
      split at hname
      · cases hname
        exact get_ne_none_of_mem_entries hentry
      · cases hname
    · cases hname
  · intro h
    obtain ⟨v, hv⟩ := Option.ne_none_iff_exists'.mp h
    refine ⟨_, mem_entries_of_get hv, ?_⟩
    rw [if_pos (List.prefix_append _ _), List.drop_left]

section Subtrees

/-- The subtree of `t` at `p` is the subtree of `u` at `q`. -/
def SameBelow (t : PathTree ν κ) (p : List ν) (u : PathTree ν κ) (q : List ν) : Prop :=
  ∀ r, t.get (p ++ r) = u.get (q ++ r)

/-- There is nothing at `p` or below it. -/
def EmptyBelow (t : PathTree ν κ) (p : List ν) : Prop := ∀ r, t.get (p ++ r) = none

/-- The two trees differ at `touched` paths only. -/
def Within (touched : List ν → Prop) (t u : PathTree ν κ) : Prop :=
  ∀ q, ¬ touched q → u.get q = t.get q

variable {t u v : PathTree ν κ} {p q : List ν} {touched : List ν → Prop}

theorem emptyBelow_of_entries (h : ∀ entry ∈ t.entries, ¬ p <+: entry.1) :
    EmptyBelow t p := by
  intro r
  rw [Option.eq_none_iff_forall_not_mem]
  intro v hv
  exact h _ (mem_entries_of_get hv) (List.prefix_append p r)

theorem SameBelow.of_within (h : SameBelow t p v q) (hwithin : Within touched t u)
    (hp : Avoids touched p) : SameBelow u p v q :=
  fun r => (hwithin _ (hp r)).trans (h r)

end Subtrees

private theorem lookup_filter_prefix (p q : List ν)
    (entries : List (List ν × κ)) :
    (entries.filter fun entry => ¬ p <+: entry.1).lookup q =
      if p <+: q then none else entries.lookup q := by
  induction entries with
  | nil => simp
  | cons entry entries ih =>
      obtain ⟨key, v⟩ := entry
      by_cases hkey : q = key
      · subst hkey
        by_cases hp : p <+: q
        · simpa [List.filter_cons, hp] using ih
        · simp [hp]
      · have hbeq : (q == key) = false := beq_eq_false_iff_ne.mpr hkey
        by_cases hp : p <+: key
        · simpa [List.filter_cons, hp, List.lookup_cons, hbeq] using ih
        · simpa [List.filter_cons, hp, List.lookup_cons, hbeq] using ih

@[simp] theorem get_prune (t : PathTree ν κ) (p q : List ν) :
    (t.prune p).get q = if p <+: q then none else t.get q :=
  lookup_filter_prefix p q t.entries

private theorem lookup_relocate (src dst r : List ν)
    (entries : List (List ν × κ)) :
    (entries.filterMap (relocate src dst)).lookup (dst ++ r) =
      entries.lookup (src ++ r) := by
  induction entries with
  | nil => rfl
  | cons entry entries ih =>
      obtain ⟨key, v⟩ := entry
      by_cases hsrc : src <+: key
      · obtain ⟨rest, rfl⟩ := hsrc
        have hmoved : relocate src dst (src ++ rest, v) = some (dst ++ rest, v) := by
          simp [relocate]
        rw [List.filterMap_cons_some hmoved]
        by_cases hr : r = rest
        · subst hr
          simp
        · have hdst : (dst ++ r == dst ++ rest) = false := by simpa using hr
          have hsame : (src ++ r == src ++ rest) = false := by simpa using hr
          simp only [List.lookup_cons, hdst, hsame]
          exact ih
      · have hmoved : relocate src dst (key, v) = none := by simp [relocate, hsrc]
        have hne : (src ++ r == key) = false := by
          rw [beq_eq_false_iff_ne]
          rintro rfl
          exact hsrc (List.prefix_append src r)
        rw [List.filterMap_cons_none hmoved]
        simp only [List.lookup_cons, hne]
        exact ih

private theorem lookup_relocate_outside {src dst q : List ν} (hq : ¬ dst <+: q)
    (entries : List (List ν × κ)) :
    (entries.filterMap (relocate src dst)).lookup q = none := by
  induction entries with
  | nil => rfl
  | cons entry entries ih =>
      by_cases hsrc : src <+: entry.1
      · have hmoved : relocate src dst entry =
            some (dst ++ entry.1.drop src.length, entry.2) := by
          simp [relocate, hsrc]
        have hne : (q == dst ++ entry.1.drop src.length) = false := by
          rw [beq_eq_false_iff_ne]
          rintro rfl
          exact hq (List.prefix_append _ _)
        rw [List.filterMap_cons_some hmoved]
        simp only [List.lookup_cons, hne]
        exact ih
      · have hmoved : relocate src dst entry = none := by simp [relocate, hsrc]
        rw [List.filterMap_cons_none hmoved]
        exact ih

@[simp] theorem get_graft_below (t source : PathTree ν κ) (src dst r : List ν) :
    (t.graft dst source src).get (dst ++ r) =
      (source.get (src ++ r)).or (t.get (dst ++ r)) := by
  simp only [get, graft, List.lookup_append, lookup_relocate]

theorem get_graft_outside (t source : PathTree ν κ) (src : List ν)
    {dst q : List ν} (hq : ¬ dst <+: q) :
    (t.graft dst source src).get q = t.get q := by
  simp only [get, graft, List.lookup_append, lookup_relocate_outside hq,
    Option.none_or]

@[simp] theorem get_cover (t : PathTree ν κ) (p q : List ν) (v : κ) :
    (t.cover p v).get q = (t.get q).or (if q <+: p then some v else none) := by
  have hinits : ∀ paths : List (List ν),
      (paths.map fun path => (path, v)).lookup q =
        if q ∈ paths then some v else none := by
    intro paths
    induction paths with
    | nil => simp
    | cons path paths ih =>
        by_cases hq : q = path
        · simp [hq]
        · have hbeq : (q == path) = false := beq_eq_false_iff_ne.mpr hq
          simpa [List.lookup_cons, hbeq, hq] using ih
  simp only [get, cover, List.lookup_append, hinits, List.mem_inits]

@[simp] theorem get_mapBelow (t : PathTree ν κ) (p q : List ν) (f : κ → κ) :
    (t.mapBelow p f).get q = if p <+: q then (t.get q).map f else t.get q := by
  obtain ⟨entries⟩ := t
  simp only [get, mapBelow]
  induction entries with
  | nil => simp
  | cons entry entries ih =>
      obtain ⟨key, v⟩ := entry
      by_cases hkey : q = key
      · subst hkey
        by_cases hp : p <+: q <;> simp [hp]
      · have hbeq : (q == key) = false := beq_eq_false_iff_ne.mpr hkey
        by_cases hp : p <+: key <;>
          simpa [List.lookup_cons, hbeq, hp] using ih

theorem get_put (t : PathTree ν κ) (p q : List ν) (v : κ) :
    (t.put p v).get q = if q = p then some v else t.get q := by
  by_cases hq : q = p
  · simp [get, put, hq]
  · have hbeq : (q == p) = false := beq_eq_false_iff_ne.mpr hq
    simp [get, put, List.lookup_cons, hbeq, hq]

theorem put_within (t : PathTree ν κ) (p : List ν) (v : κ) :
    Within (p <+: ·) t (t.put p v) := by
  intro q hq
  rw [get_put, if_neg]
  rintro rfl
  exact hq List.prefix_rfl

end PathTree

end Kryptonite
