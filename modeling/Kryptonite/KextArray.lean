/-
The array `:Kernel:Add` of an OpenCore configuration: its entries, the lines it is
printed in, and what becomes of it once Lilu and Kryptonite have been enabled or
injected.  The scripts that do so are in `KextInjection`.
-/
import Kryptonite.OpenCore
import Kryptonite.PrintedLines

namespace Kryptonite

namespace OpenCore

open Script ShellText Plists

section Entries

/-- A dictionary with a bundle path and a flag; other fields are as they may be. -/
def IsKext (plist : Plist) : Prop :=
  ∃ entries bundle enabled, plist = .dict entries ∧
    entries.lookup "BundlePath" = some (.string bundle) ∧
    entries.lookup "Enabled" = some (.bool enabled)

/-- A dictionary; its fields are as they may be. -/
def IsEntry (plist : Plist) : Prop := ∃ entries, plist = .dict entries

def hasField (field : String) (plist : Plist) : Bool := (plist.find [.name field]).isSome

/-- An entry with a flag that is a boolean. -/
def HasFlag (plist : Plist) : Prop :=
  ∃ enabled, plist.find [.name "Enabled"] = some (.bool enabled)

theorem IsKext.isEntry {plist : Plist} (h : IsKext plist) : IsEntry plist := by
  obtain ⟨entries, bundle, enabled, rfl, -, -⟩ := h
  exact ⟨entries, rfl⟩

theorem HasFlag.hasField {plist : Plist} (h : HasFlag plist) :
    hasField "Enabled" plist = true := by
  obtain ⟨enabled, henabled⟩ := h
  rw [OpenCore.hasField, henabled]
  rfl

theorem HasFlag.lookup {entries : List (String × Plist)} (h : HasFlag (.dict entries)) :
    ∃ enabled, entries.lookup "Enabled" = some (.bool enabled) := by
  obtain ⟨enabled, henabled⟩ := h
  exact ⟨enabled, by simpa [Plist.find] using henabled⟩

/-- The bundle path as the shell reads it. -/
def bundleOf (plist : Plist) : Text :=
  match plist.find [.name "BundlePath"] with
  | some found => stripNewlines (found.render 0)
  | none => []

def isEnabled (plist : Plist) : Bool :=
  match plist.find [.name "Enabled"] with
  | some (.bool enabled) => enabled
  | _ => false

def liluBundle : Text := text "Lilu.kext"

def kryptoniteBundle : Text := text "Kryptonite.kext"

def EntryAt (bundle : Text) (items : List Plist) (i : Nat) : Prop :=
  ∃ plist, items[i]? = some plist ∧ bundleOf plist = bundle

def EnabledAt (bundle : Text) (items : List Plist) (i : Nat) : Prop :=
  ∃ plist, items[i]? = some plist ∧ bundleOf plist = bundle ∧ isEnabled plist = true

/-- An entry with no other of its bundle behind it. -/
def LastAt (bundle : Text) (items : List Plist) (i : Nat) : Prop :=
  EntryAt bundle items i ∧ ∀ j, EntryAt bundle items j → j ≤ i

/-- The last entry of a bundle among the first `count`. -/
def lastSeen (bundle : Text) (items : List Plist) : Nat → Option Nat
  | 0 => none
  | count + 1 =>
      if items[count]?.map bundleOf = some bundle then some count
      else lastSeen bundle items count

theorem lastSeen_some {bundle : Text} {items : List Plist} {count i : Nat}
    (h : lastSeen bundle items count = some i) : i < count ∧ EntryAt bundle items i := by
  induction count with
  | zero => cases h
  | succ count ih =>
      rw [lastSeen] at h
      split at h
      · rename_i hentry
        cases h
        obtain ⟨plist, hplist, hbundle⟩ := Option.map_eq_some_iff.mp hentry
        exact ⟨Nat.lt_succ_self _, plist, hplist, hbundle⟩
      · exact ⟨Nat.lt_succ_of_lt (ih h).1, (ih h).2⟩

theorem lastSeen_none {bundle : Text} {items : List Plist} {count i : Nat}
    (h : lastSeen bundle items count = none) (hi : i < count) : ¬ EntryAt bundle items i := by
  induction count with
  | zero => omega
  | succ count ih =>
      rw [lastSeen] at h
      split at h
      · cases h
      · rename_i hentry
        by_cases hlast : i = count
        · rintro ⟨plist, hplist, hbundle⟩
          apply hentry
          rw [← hlast, hplist, Option.map_some, hbundle]
        · exact ih h (by omega)

theorem le_of_lastSeen {bundle : Text} {items : List Plist} {count i j : Nat}
    (h : lastSeen bundle items count = some i) (hj : j < count) (hentry : EntryAt bundle items j) :
    j ≤ i := by
  induction count with
  | zero => cases h
  | succ count ih =>
      rw [lastSeen] at h
      split at h
      · cases h
        exact Nat.le_of_lt_succ hj
      · rename_i hnot
        have hne : j ≠ count := by
          rintro rfl
          obtain ⟨plist, hplist, hbundle⟩ := hentry
          exact hnot (by rw [hplist, Option.map_some, hbundle])
        exact ih h (by omega)

theorem EnabledAt.entryAt {bundle : Text} {items : List Plist} {i : Nat}
    (h : EnabledAt bundle items i) : EntryAt bundle items i := by
  obtain ⟨plist, hplist, hbundle, -⟩ := h
  exact ⟨plist, hplist, hbundle⟩

theorem EntryAt.lt_length {bundle : Text} {items : List Plist} {i : Nat}
    (h : EntryAt bundle items i) : i < items.length := by
  obtain ⟨plist, hplist, -⟩ := h
  exact (List.getElem?_eq_some_iff.mp hplist).1

theorem lastSeen_eq_none_iff {bundle : Text} {items : List Plist} :
    lastSeen bundle items items.length = none ↔ ∀ i, ¬ EntryAt bundle items i := by
  constructor
  · intro hnone i hentry
    exact lastSeen_none hnone hentry.lt_length hentry
  · intro hmissing
    cases hseen : lastSeen bundle items items.length with
    | none => rfl
    | some i => exact absurd (lastSeen_some hseen).2 (hmissing i)

theorem lastSeen_eq_some_iff {bundle : Text} {items : List Plist} {i : Nat} :
    lastSeen bundle items items.length = some i ↔ LastAt bundle items i := by
  constructor
  · intro hseen
    exact ⟨(lastSeen_some hseen).2, fun j hj => le_of_lastSeen hseen hj.lt_length hj⟩
  · rintro ⟨hentry, hlast⟩
    cases hseen : lastSeen bundle items items.length with
    | none => exact absurd hentry (lastSeen_eq_none_iff.mp hseen i)
    | some j =>
        have hle := le_of_lastSeen hseen hentry.lt_length hentry
        rw [Nat.le_antisymm (hlast j (lastSeen_some hseen).2) hle]

end Entries

section Slots

/-- `Set ...:Enabled true` -/
def enable : Plist → Plist
  | .dict entries => .dict (Plist.insertEntry "Enabled" (.bool true) entries)
  | plist => plist

theorem isEnabled_enable {plist : Plist} (h : IsEntry plist) :
    isEnabled (enable plist) = true := by
  obtain ⟨entries, rfl⟩ := h
  simp [isEnabled, enable, Plist.find]

theorem bundleOf_enable (plist : Plist) : bundleOf (enable plist) = bundleOf plist := by
  cases plist with
  | dict entries =>
      have hother := Plist.lookup_insertEntry_of_ne (show "BundlePath" ≠ "Enabled" by decide)
        (.bool true) entries
      simp [bundleOf, enable, Plist.find, hother]
  | _ => rfl

theorem IsEntry.enable {plist : Plist} (h : IsEntry plist) : IsEntry (enable plist) := by
  obtain ⟨entries, rfl⟩ := h
  exact ⟨_, rfl⟩

/-- An `Add` of one field of the dictionary in a slot of the array. -/
def addField (slot : Option Plist) (field : (String × String) × Text) : Option Plist :=
  Plist.update (Plist.addValue field.1.2 field.2) [.name field.1.1] slot

/-- The dictionary once these fields have been added. -/
def addFields : Option Plist → List ((String × String) × Text) → Option Plist
  | slot, [] => slot
  | slot, field :: fields => (addField slot field).bind fun new => addFields (some new) fields

/-- A new dictionary of these values. -/
def newKext (values : List Text) : Plist :=
  .dict ((kextFields.zip values).map fun ((field, type), value) =>
    (field, (Plist.newValue type value).getD (.string value)))

/-- Values that make an enabled entry for a bundle. -/
structure Enables (bundle : Text) (values : List Text) : Prop where
  added : addFields none (kextFields.zip values) = some (newKext values)
  isKext : IsKext (newKext values)
  bundle : bundleOf (newKext values) = bundle
  enabled : isEnabled (newKext values) = true

theorem liluValues_enable : Enables liluBundle liluValues where
  added := rfl
  isKext := ⟨_, _, _, rfl, rfl, rfl⟩
  bundle := by decide +kernel
  enabled := by decide +kernel

end Slots

section Places

variable {items : List Plist} {i j : Nat} {new : Plist}

/-- The array with a new element at an index, its end included. -/
def place (items : List Plist) (i : Nat) (new : Plist) : List Plist :=
  items.take i ++ new :: items.drop (i + 1)

theorem getElem?_place (hi : i ≤ items.length) (new : Plist) (j : Nat) :
    (place items i new)[j]? = if j = i then some new else items[j]? := by
  have hlength : (items.take i).length = i := by simp [hi]
  rcases Nat.lt_trichotomy j i with hj | rfl | hj
  · rw [if_neg (by omega), place, List.getElem?_append_left (by omega),
      List.getElem?_take_of_lt hj]
  · rw [if_pos rfl, place, List.getElem?_append_right (by omega)]
    simp [hlength]
  · rw [if_neg (by omega), place, List.getElem?_append_right (by omega), hlength,
      List.getElem?_cons, if_neg (by omega), List.getElem?_drop]
    congr 1
    omega

theorem place_self {old : Plist} (hold : items[i]? = some old) : place items i old = items := by
  have hi := (List.getElem?_eq_some_iff.mp hold).1
  apply List.ext_getElem?
  intro j
  rw [getElem?_place (by omega)]
  split
  · rename_i hj
    rw [hj, hold]
  · rfl

/-- The other elements keep their contents and their order. -/
theorem filter_place {keep : Plist → Bool} (hold : ∀ old, items[i]? = some old → keep old = false)
    (hnew : keep new = false) : (place items i new).filter keep = items.filter keep := by
  have hslot : items[i]?.toList.filter keep = [] := by
    cases hitem : items[i]? with
    | none => rfl
    | some old => simp [hold old hitem]
  have hitems : items = items.take i ++ (items[i]?.toList ++ items.drop (i + 1)) := by
    rw [← List.drop_eq_getElem?_toList_append, List.take_append_drop]
  conv_rhs => rw [hitems]
  simp [place, List.filter_append, hslot, hnew]

theorem mem_place {plist : Plist} (h : plist ∈ place items i new) :
    plist = new ∨ plist ∈ items := by
  rcases List.mem_append.mp h with hfront | hback
  · exact Or.inr (List.mem_of_mem_take hfront)
  · rcases List.mem_cons.mp hback with hnew | hback
    · exact Or.inl hnew
    · exact Or.inr (List.mem_of_mem_drop hback)

end Places

section Printed

/-- The lines of the printed array that contain `Dict`. -/
@[irreducible] def dictCount (items : List Plist) : Nat :=
  grepCount (text "Dict") (printfn [Plist.readValue (some (.array items))])

end Printed

section Brought

/-- The places at which the two bundles were last seen. -/
def seen (items : List Plist) : Indices where
  lilu := lastSeen liluBundle items (dictCount items)
  kryptonite := lastSeen kryptoniteBundle items (dictCount items)

/-- The array once a bundle has been enabled at its index or injected. -/
def brought (index : Option Nat) (values : List Text) (items : List Plist) : List Plist :=
  match index with
  | some i => items.modify i enable
  | none => items ++ [newKext values]

/-- The entries of neither bundle, in their order. -/
def others (items : List Plist) : List Plist :=
  items.filter fun plist => bundleOf plist ≠ liluBundle ∧ bundleOf plist ≠ kryptoniteBundle

/-- The array once a bundle has been brought in at a position. -/
structure Brought (bundle : Text) (position : Nat) (items new : List Plist) : Prop where
  isEntry : ∀ item ∈ new, IsEntry item
  elsewhere : ∀ j, j ≠ position → new[j]? = items[j]?
  entryAt : ∀ b j, EntryAt b items j → EntryAt b new j
  enabledAt : ∀ b j, EnabledAt b new j ↔ EnabledAt b items j ∨ (b = bundle ∧ j = position)
  others : others new = others items

variable {items mid new : List Plist} {bundle : Text} {values : List Text} {index : Option Nat}

theorem brought_place {i : Nat} {plist : Plist} (hi : i ≤ items.length)
    (hbundle : bundle = liluBundle ∨ bundle = kryptoniteBundle)
    (hentries : ∀ item ∈ items, IsEntry item)
    (hold : ∀ old, items[i]? = some old → bundleOf old = bundle)
    (hentry : IsEntry plist) (hnew : bundleOf plist = bundle)
    (henabled : isEnabled plist = true) :
    Brought bundle i items (place items i plist) where
  isEntry := by
    intro item hitem
    rcases mem_place hitem with rfl | hitem
    · exact hentry
    · exact hentries item hitem
  elsewhere j hj := by rw [getElem?_place hi, if_neg hj]
  entryAt := by
    rintro b j ⟨old, hj, hb⟩
    by_cases hji : j = i
    · subst hji
      refine ⟨plist, by rw [getElem?_place hi, if_pos rfl], ?_⟩
      rw [hnew, ← hold old hj, hb]
    · exact ⟨old, by rw [getElem?_place hi, if_neg hji, hj], hb⟩
  enabledAt := by
    intro b j
    by_cases hji : j = i
    · subst hji
      simp only [EnabledAt, getElem?_place hi, if_pos, Option.some.injEq, and_true]
      constructor
      · rintro ⟨_, rfl, hb, -⟩
        exact Or.inr (hb.symm.trans hnew)
      · rintro (⟨old, hj, hb, -⟩ | rfl)
        · exact ⟨plist, rfl, by rw [hnew, ← hold old hj, hb], henabled⟩
        · exact ⟨plist, rfl, hnew, henabled⟩
    · simp only [EnabledAt, getElem?_place hi, hji, if_false, and_false, or_false]
  others := by
    have hkeep : ∀ plist, bundleOf plist = bundle →
        decide (bundleOf plist ≠ liluBundle ∧ bundleOf plist ≠ kryptoniteBundle) = false := by
      intro plist hplist
      rcases hbundle with hbundle | hbundle <;> simp [hplist, hbundle]
    exact filter_place (fun old hj => hkeep old (hold old hj)) (hkeep plist hnew)

/-- Enabling or injecting, a bundle is brought in at its index or at the end. -/
theorem brought_brought (hvalues : Enables bundle values)
    (hbundle : bundle = liluBundle ∨ bundle = kryptoniteBundle)
    (hentries : ∀ item ∈ items, IsEntry item)
    (hindex : ∀ i, index = some i → EntryAt bundle items i) :
    Brought bundle (index.getD items.length) items (brought index values items) := by
  cases index with
  | some i =>
      obtain ⟨old, hold, hname⟩ := hindex i rfl
      obtain ⟨hi, hget⟩ := List.getElem?_eq_some_iff.mp hold
      have hplace : brought (some i) values items = place items i (enable old) := by
        rw [brought, List.modify_eq_take_cons_drop hi, hget]
        rfl
      have hentry := hentries old (List.mem_of_getElem? hold)
      rw [hplace]
      apply brought_place (Nat.le_of_lt hi) hbundle hentries
      · intro other hother
        rw [hold] at hother
        cases hother
        exact hname
      · exact hentry.enable
      · exact (bundleOf_enable old).trans hname
      · exact isEnabled_enable hentry
  | none =>
      have hplace : brought none values items = place items items.length (newKext values) := by
        simp [brought, place]
      rw [hplace]
      apply brought_place (Nat.le_refl _) hbundle hentries
      · intro old hold
        simp at hold
      · exact hvalues.isKext.isEntry
      · exact hvalues.bundle
      · exact hvalues.enabled

theorem entryAt_lilu {i : Nat} (h : (seen items).lilu = some i) : EntryAt liluBundle items i := by
  rw [seen] at h
  exact (lastSeen_some h).2

theorem entryAt_kryptonite {i : Nat} (h : (seen items).kryptonite = some i) :
    EntryAt kryptoniteBundle items i := by
  rw [seen] at h
  exact (lastSeen_some h).2

theorem liluBundle_ne : liluBundle ≠ kryptoniteBundle := by decide +kernel

/-- Where Lilu is brought in there is no Kryptonite. -/
theorem kryptonite_ne_lilu {k : Nat} (h : EntryAt kryptoniteBundle items k) :
    k ≠ (seen items).lilu.getD items.length := by
  rintro rfl
  cases hlilu : (seen items).lilu with
  | none =>
      rw [hlilu] at h
      exact absurd h.lt_length (Nat.lt_irrefl _)
  | some i =>
      rw [hlilu] at h
      obtain ⟨plist, hplist, hbundle⟩ := h
      obtain ⟨other, hother, hname⟩ := entryAt_lilu hlilu
      rw [Option.getD_some, hother] at hplist
      cases hplist
      exact liluBundle_ne (hname.symm.trans hbundle)

section Both

variable (hentries : ∀ item ∈ items, IsEntry item)

include hentries

theorem brought_lilu : Brought liluBundle ((seen items).lilu.getD items.length) items
    (brought (seen items).lilu liluValues items) :=
  brought_brought liluValues_enable (Or.inl rfl) hentries fun _ => entryAt_lilu

end Both

end Brought

section Order

variable {items : List Plist} (hcount : dictCount items = items.length)

include hcount

theorem lilu_eq_some_iff {i : Nat} :
    (seen items).lilu = some i ↔ LastAt liluBundle items i := by
  rw [seen, hcount, lastSeen_eq_some_iff]

theorem kryptonite_eq_some_iff {i : Nat} :
    (seen items).kryptonite = some i ↔ LastAt kryptoniteBundle items i := by
  rw [seen, hcount, lastSeen_eq_some_iff]

variable (hentries : ∀ item ∈ items, IsEntry item)

include hentries

end Order

end OpenCore

end Kryptonite
