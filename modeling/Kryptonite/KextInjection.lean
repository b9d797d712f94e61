/-
The kext injections of `opencore.sh` on property lists: which entries of
`:Kernel:Add` are found, what becomes of the array and in which order OpenCore
meets the two bundles.

`PlistBuddy` is any tool with the laws of `PlistBuddy.Lawful`.
-/
import Kryptonite.KextArray

namespace Kryptonite

namespace OpenCore

open Script ShellText Plists

section Updates

open Plist

variable {f : Option Plist → Option Plist} {path : List Key} {plist found : Plist}

end Updates

section Edits

variable {buddy : PlistBuddy Plist} {s : Session Plist} {items : List Plist} {i : Nat}
variable {new : Plist}

theorem find_field (hitems : s.config.find baseKey = some (.array items)) (i : Nat)
    (field : String) :
    s.config.find (baseKey ++ [.index i, .name field]) =
      items[i]?.bind (Plist.find [.name field]) := by
  rw [Plist.find_append, hitems]
  rfl

variable (lawful : buddy.Lawful) (hitems : s.config.find baseKey = some (.array items))

include lawful hitems

end Edits

section Lookups

variable {options : Options} {buddy : PlistBuddy Plist} {s t : Session Plist}
variable {items : List Plist}

/-- The key a round of the loop looks up. -/
def bundleKey (i : Nat) : List Key := baseKey ++ [.index i, .name "BundlePath"]

end Lookups

section Runs

variable {options : Options} {buddy : PlistBuddy Plist} {s t : Session Plist}
variable {items : List Plist}

/-- The last entry of either bundle has a flag. -/
def Flagged (items : List Plist) : Prop :=
  ∀ bundle ∈ [liluBundle, kryptoniteBundle], ∀ i item, LastAt bundle items i →
    items[i]? = some item → HasFlag item

theorem Flagged.lilu (hflagged : Flagged items) (hcount : dictCount items = items.length)
    {i : Nat} (hi : (seen items).lilu = some i) :
    ∃ old, items[i]? = some old ∧ HasFlag old := by
  obtain ⟨old, hold, -⟩ := entryAt_lilu hi
  exact ⟨old, hold, hflagged _ (by simp) i old ((lilu_eq_some_iff hcount).mp hi) hold⟩

/-- Kryptonite is where it was, once Lilu has been brought in. -/
theorem Flagged.kryptonite (hflagged : Flagged items) (hcount : dictCount items = items.length)
    (hentries : ∀ item ∈ items, IsEntry item) {k : Nat} (hk : (seen items).kryptonite = some k) :
    ∃ old, (brought (seen items).lilu liluValues items)[k]? = some old ∧ HasFlag old := by
  obtain ⟨old, hold, hbundle⟩ := entryAt_kryptonite hk
  have helsewhere := (brought_lilu hentries).elsewhere k
    (kryptonite_ne_lilu ⟨old, hold, hbundle⟩)
  exact ⟨old, helsewhere.trans hold, hflagged _ (by simp) k old
    ((kryptonite_eq_some_iff hcount).mp hk) hold⟩

/-- The bundles of the array and whether they are enabled. -/
def bundles (config : Plist) : List (Text × Bool) :=
  match config.find baseKey with
  | some (.array items) => items.map fun plist => (bundleOf plist, isEnabled plist)
  | _ => []

end Runs

end OpenCore

end Kryptonite
