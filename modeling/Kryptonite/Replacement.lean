/-
Replacing every occurrence of a word, from the left and without overlaps, as
`bytes.replace` and `bytes.count` do.  A word whose first letter does not occur
in it again cannot arise across the seams of a replacement by another such
word.
-/
import Mathlib.Data.List.Infix

namespace Kryptonite

namespace Replacement

variable {α : Type} [DecidableEq α]

/-- Replace in a text of which the first `skip` letters belong to an occurrence
that has been dealt with. -/
def replaceFrom (old new : List α) : Nat → List α → List α
  | _, [] => []
  | skip + 1, _ :: rest => replaceFrom old new skip rest
  | 0, letter :: rest =>
      if old <+: letter :: rest then new ++ replaceFrom old new (old.length - 1) rest
      else letter :: replaceFrom old new 0 rest

def replaceAll (old new data : List α) : List α := replaceFrom old new 0 data

def countFrom (word : List α) : Nat → List α → Nat
  | _, [] => 0
  | skip + 1, _ :: rest => countFrom word skip rest
  | 0, letter :: rest =>
      if word <+: letter :: rest then countFrom word (word.length - 1) rest + 1
      else countFrom word 0 rest

/-- The number of occurrences, without overlaps. -/
def countAll (word data : List α) : Nat := countFrom word 0 data

section Steps

variable {old new : List α}

theorem replaceFrom_eq_drop (skip : Nat) (data : List α) :
    replaceFrom old new skip data = replaceAll old new (data.drop skip) := by
  induction data generalizing skip with
  | nil =>
      rw [List.drop_nil]
      cases skip <;> rfl
  | cons letter rest ih =>
      cases skip with
      | zero => rfl
      | succ skip => exact ih skip

theorem countFrom_eq_drop (word : List α) (skip : Nat) (data : List α) :
    countFrom word skip data = countAll word (data.drop skip) := by
  induction data generalizing skip with
  | nil =>
      rw [List.drop_nil]
      cases skip <;> rfl
  | cons letter rest ih =>
      cases skip with
      | zero => rfl
      | succ skip => exact ih skip

/-- At an occurrence. -/
theorem replaceAll_of_leads {data : List α} (hold : old ≠ []) (h : old <+: data) :
    replaceAll old new data = new ++ replaceAll old new (data.drop old.length) := by
  cases data with
  | nil => exact absurd (List.prefix_nil.mp h) hold
  | cons letter rest =>
      obtain ⟨first, tail, rfl⟩ := List.exists_cons_of_ne_nil hold
      rw [replaceAll, replaceFrom, if_pos h, replaceFrom_eq_drop]
      rfl

theorem replaceAll_of_not_leads {letter : α} {rest : List α} (h : ¬ old <+: letter :: rest) :
    replaceAll old new (letter :: rest) = letter :: replaceAll old new rest := if_neg h

theorem countAll_of_leads {word data : List α} (hword : word ≠ []) (h : word <+: data) :
    countAll word data = countAll word (data.drop word.length) + 1 := by
  cases data with
  | nil => exact absurd (List.prefix_nil.mp h) hword
  | cons letter rest =>
      obtain ⟨first, tail, rfl⟩ := List.exists_cons_of_ne_nil hword
      rw [countAll, countFrom, if_pos h, countFrom_eq_drop]
      rfl

theorem countAll_of_not_leads {word : List α} {letter : α} {rest : List α}
    (h : ¬ word <+: letter :: rest) : countAll word (letter :: rest) = countAll word rest :=
  if_neg h

/-- Induction along the scan: the text ends, begins with an occurrence, or
begins with a letter that is kept. -/
theorem scan_induction {motive : List α → Prop} (hold : old ≠ []) (nil : motive [])
    (occurrence : ∀ data, old <+: data → motive (data.drop old.length) → motive data)
    (letter : ∀ letter rest, ¬ old <+: letter :: rest → motive rest → motive (letter :: rest))
    (data : List α) : motive data := by
  induction hlength : data.length using Nat.strong_induction_on generalizing data with
  | _ length ih =>
      subst hlength
      by_cases hleads : old <+: data
      · have hpositive := List.length_pos_of_ne_nil hold
        have hfits := hleads.length_le
        have hshorter : (data.drop old.length).length < data.length := by
          rw [List.length_drop]
          omega
        exact occurrence data hleads (ih _ hshorter _ rfl)
      · cases data with
        | nil => exact nil
        | cons first rest => exact letter first rest hleads (ih _ (Nat.lt_succ_self _) rest rfl)

end Steps

section Laws

variable {old new : List α}

theorem length_replaceAll (hold : old ≠ []) (hlength : new.length = old.length)
    (data : List α) : (replaceAll old new data).length = data.length := by
  induction data using scan_induction hold with
  | nil => rfl
  | occurrence data hleads ih =>
      have hfits := hleads.length_le
      rw [replaceAll_of_leads hold hleads, List.length_append, ih, List.length_drop, hlength]
      omega
  | letter first rest hnot ih =>
      rw [replaceAll_of_not_leads hnot, List.length_cons, List.length_cons, ih]

/-- A letter that changed belongs to an occurrence. -/
theorem exists_occurrence_of_ne (hold : old ≠ []) (hlength : new.length = old.length)
    (data : List α) (i : Nat) (hne : (replaceAll old new data)[i]? ≠ data[i]?) :
    ∃ p, old <+: data.drop p ∧ p ≤ i ∧ i < p + old.length := by
  induction data using scan_induction hold generalizing i with
  | nil => exact absurd rfl hne
  | occurrence data hleads ih =>
      by_cases hinside : i < old.length
      · exact ⟨0, by simpa using hleads, Nat.zero_le _, by omega⟩
      · have hdrop : data[i]? = (data.drop old.length)[i - old.length]? := by
          rw [List.getElem?_drop]
          congr 1
          omega
        rw [replaceAll_of_leads hold hleads, List.getElem?_append_right (by omega), hlength,
          hdrop] at hne
        obtain ⟨p, hp, hle, hlt⟩ := ih _ hne
        rw [List.drop_drop] at hp
        exact ⟨old.length + p, hp, by omega, by omega⟩
  | letter first rest hnot ih =>
      rw [replaceAll_of_not_leads hnot] at hne
      cases i with
      | zero => exact absurd rfl hne
      | succ i =>
          rw [List.getElem?_cons_succ, List.getElem?_cons_succ] at hne
          obtain ⟨p, hp, hle, hlt⟩ := ih i hne
          exact ⟨p + 1, hp, by omega, by omega⟩

theorem countAll_pos_iff {word : List α} (hword : word ≠ []) (data : List α) :
    0 < countAll word data ↔ word <:+: data := by
  induction data using scan_induction hword with
  | nil => simp [countAll, countFrom, hword]
  | occurrence data hleads ih =>
      rw [countAll_of_leads hword hleads]
      exact iff_of_true (Nat.succ_pos _) hleads.isInfix
  | letter first rest hnot ih =>
      rw [countAll_of_not_leads hnot, ih, List.infix_cons_iff]
      exact (or_iff_right hnot).symm

/-- A replacement leaves the new word behind. -/
theorem infix_replaceAll (hold : old ≠ []) (data : List α) (h : old <:+: data) :
    new <:+: replaceAll old new data := by
  induction data using scan_induction hold with
  | nil => exact absurd (List.infix_nil.mp h) hold
  | occurrence data hleads ih =>
      rw [replaceAll_of_leads hold hleads]
      exact (List.prefix_append new _).isInfix
  | letter first rest hnot ih =>
      rw [replaceAll_of_not_leads hnot]
      exact (ih ((List.infix_cons_iff.mp h).resolve_left hnot)).trans
        (List.suffix_cons _ _).isInfix

end Laws

section Marks

variable {old new : List α} {mark : α}

/-- The word begins with `mark`, which does not occur in it again. -/
def Marked (mark : α) (word : List α) : Prop := ∃ tail, word = mark :: tail ∧ mark ∉ tail

/-- Letters before the first mark are the letters that were there. -/
theorem leads_of_leads_replaceAll (hold : old ≠ []) (hnew : Marked mark new)
    {word : List α} (hword : mark ∉ word) (data : List α)
    (h : word <+: replaceAll old new data) : word <+: data := by
  induction data using scan_induction hold generalizing word with
  | nil => exact h
  | occurrence data hleads ih =>
      obtain ⟨tail, rfl, -⟩ := hnew
      rw [replaceAll_of_leads hold hleads, List.cons_append] at h
      cases word with
      | nil => exact List.nil_prefix
      | cons first word =>
          rw [(List.cons_prefix_cons.mp h).1] at hword
          exact absurd List.mem_cons_self hword
  | letter first rest hnot ih =>
      rw [replaceAll_of_not_leads hnot] at h
      cases word with
      | nil => exact List.nil_prefix
      | cons letter word =>
          obtain ⟨rfl, hrest⟩ := List.cons_prefix_cons.mp h
          have htail : mark ∉ word := fun hmem => hword (List.mem_cons_of_mem _ hmem)
          exact List.cons_prefix_cons.mpr ⟨rfl, ih htail hrest⟩

omit [DecidableEq α] in
/-- An occurrence that does not begin with the first letters of `front` begins
behind them. -/
theorem infix_of_infix_append {word front rest : List α} (hword : ∃ tail, word = mark :: tail)
    (hfront : mark ∉ front) (h : word <:+: front ++ rest) : word <:+: rest := by
  induction front with
  | nil => exact h
  | cons letter front ih =>
      obtain ⟨tail, rfl⟩ := hword
      have hne : mark ≠ letter := fun heq => hfront (heq ▸ List.mem_cons_self)
      have hrest : mark ∉ front := fun hmem => hfront (List.mem_cons_of_mem _ hmem)
      rw [List.cons_append, List.infix_cons_iff] at h
      rcases h with hleads | hinfix
      · exact absurd (List.cons_prefix_cons.mp hleads).1 hne
      · exact ih hrest hinfix

/-- No occurrence is left, and none has come about across the seams. -/
theorem not_infix_replaceAll (hold : Marked mark old) (hnew : Marked mark new)
    (hlength : new.length = old.length) (hne : new ≠ old) (data : List α) :
    ¬ old <:+: replaceAll old new data := by
  have hnonempty : old ≠ [] := by
    obtain ⟨tail, rfl, -⟩ := hold
    exact List.cons_ne_nil _ _
  induction data using scan_induction hnonempty with
  | nil => exact fun h => hnonempty (List.infix_nil.mp h)
  | occurrence data hleads ih =>
      intro hinfix
      rw [replaceAll_of_leads hnonempty hleads] at hinfix
      obtain ⟨tail, hword, -⟩ := hold
      obtain ⟨newTail, rfl, hmark⟩ := hnew
      rw [List.cons_append, List.infix_cons_iff] at hinfix
      rcases hinfix with hfirst | hlater
      · -- at the new word itself the two words would be equal
        rw [← List.cons_append] at hfirst
        have hequal := List.prefix_of_prefix_length_le hfirst (List.prefix_append _ _)
          (Nat.le_of_eq hlength.symm)
        exact hne (hequal.eq_of_length hlength.symm).symm
      · exact ih (infix_of_infix_append ⟨tail, hword⟩ hmark hlater)
  | letter first rest hnot ih =>
      intro hinfix
      rw [replaceAll_of_not_leads hnot, List.infix_cons_iff] at hinfix
      rcases hinfix with hfirst | hlater
      · -- what follows the mark was there before the replacement
        obtain ⟨tail, rfl, hmark⟩ := hold
        obtain ⟨rfl, htail⟩ := List.cons_prefix_cons.mp hfirst
        exact hnot (List.cons_prefix_cons.mpr
          ⟨rfl, leads_of_leads_replaceAll hnonempty hnew hmark rest htail⟩)
      · exact ih hlater

end Marks

end Replacement

end Kryptonite
