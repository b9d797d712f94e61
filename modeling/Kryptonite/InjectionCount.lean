/-
How often the kext injections of `opencore.sh` run their loop, and what a second
run finds.  The number of entries is the number of printed lines with `Dict` in
them, whatever field the word is in.
-/
import Kryptonite.KextInjection

namespace Kryptonite

namespace OpenCore

open Script ShellText Plists

section Loop

variable {options : Options} {buddy : PlistBuddy Plist} {s : Session Plist}
variable {items : List Plist}

end Loop

section FirstRun

variable {items : List Plist} {values : List Text} {index : Option Nat} {n : Nat}

section Entries

variable (hentries : ∀ item ∈ items, IsEntry item) (hcount : dictCount items = items.length)
variable (hflagged : Flagged items)

include hentries hcount hflagged

variable {options : Options} {buddy : PlistBuddy Plist} {s : Session Plist}

end Entries

end FirstRun

section SecondRun

open Plist

variable {options : Options} {buddy : PlistBuddy Plist} {s : Session Plist}
variable {items : List Plist} {i : Nat}

theorem insertEntry_self {key : String} {plist : Plist} {entries : List (String × Plist)}
    (h : entries.lookup key = some plist) : insertEntry key plist entries = entries := by
  induction entries with
  | nil => cases h
  | cons entry entries ih =>
      obtain ⟨other, old⟩ := entry
      by_cases hkey : other = key
      · have hold : old = plist := by simpa [hkey] using h
        rw [insertEntry, if_pos hkey, hkey, hold]
      · have hrest : entries.lookup key = some plist := by
          simpa [List.lookup_cons, beq_false_of_ne (Ne.symm hkey)] using h
        rw [insertEntry, if_neg hkey, ih hrest]

/-- An update that gives back what it finds leaves the file as it is. -/
theorem update_self {f : Option Plist → Option Plist} {path : List Key} {plist found : Plist}
    (hfound : plist.find path = some found) (hf : f (some found) = some found) :
    update f path (some plist) = some plist := by
  induction path generalizing plist with
  | nil =>
      cases hfound
      exact hf
  | cons key path ih =>
      cases key with
      | name key =>
          cases plist with
          | dict entries =>
              obtain ⟨entry, hentry, hrest⟩ := Option.bind_eq_some_iff.mp hfound
              rw [update, hentry, ih hrest, Option.map_some, insertEntry_self hentry]
          | _ => cases hfound
      | index i =>
          cases plist with
          | array items =>
              obtain ⟨item, hitem, hrest⟩ := Option.bind_eq_some_iff.mp hfound
              have hi := (List.getElem?_eq_some_iff.mp hitem).1
              have hplace := place_self hitem
              rw [place] at hplace
              rw [update, if_pos (Nat.le_of_lt hi), hitem, ih hrest, Option.map_some, hplace]
          | _ => cases hfound

/-- What a run finds of a bundle: an entry that is enabled, or no entry and a
complete dictionary where it would inject one. -/
structure Settled (items : List Plist) (index : Option Nat) : Prop where
  enabled : ∀ i, index = some i → ∃ plist, items[i]? = some plist ∧ isEnabled plist = true
  refused : index = none → ∃ plist, items[dictCount items]? = some plist ∧
    hasField "Comment" plist = true

end SecondRun

section Law

/-- The values for the bundles that no entry has, Lilu first. -/
def missing (items : List Plist) : List (List Text) :=
  (if items.any (bundleOf · = liluBundle) then [] else [liluValues]) ++
    if items.any (bundleOf · = kryptoniteBundle) then [] else [kryptoniteValues]

variable {options : Options} {buddy : PlistBuddy Plist} {s t : Session Plist}
variable {items : List Plist}

section Entries

variable (lawful : buddy.Lawful) (hitems : s.config.find baseKey = some (.array items))
variable (hentries : ∀ item ∈ items, IsEntry item)

include lawful hitems

include hentries

end Entries

end Law

end OpenCore

end Kryptonite
