/-
The two loops of `applyLookupPatch`: they stay inside the image, what they do
to it is a sequence of replacements, and how many there are is the number of
occurrences in the image they began with, up to the count of the patch.
-/
import Kryptonite.KernelPatcher
import Mathlib.Data.Finset.Card

namespace Kryptonite

namespace KernelPatcher

open Script ByteWindow

section Occurrences

variable {patch : LookupPatch} {bytes after : List UInt8} {position other : Nat}

/-- The pattern stands at a position that the loops look at.  They leave out
the last one, at which it would end with the image. -/
structure Occurs (patch : LookupPatch) (bytes : List UInt8) (position : Nat) : Prop where
  looked : position < bytes.length - patch.size
  found : window position patch.find.length bytes = patch.find

instance (patch : LookupPatch) (bytes : List UInt8) (position : Nat) :
    Decidable (Occurs patch bytes position) :=
  decidable_of_iff (position < bytes.length - patch.size ∧
      window position patch.find.length bytes = patch.find)
    ⟨fun h => ⟨h.1, h.2⟩, fun h => ⟨h.looked, h.found⟩⟩

/-- How often the pattern occurs. -/
def occurrences (patch : LookupPatch) (bytes : List UInt8) : Nat :=
  ((Finset.range (bytes.length - patch.size)).filter (Occurs patch bytes)).card

theorem occurrences_eq_zero_iff :
    occurrences patch bytes = 0 ↔ ∀ position, ¬ Occurs patch bytes position := by
  rw [occurrences, Finset.card_eq_zero, Finset.filter_eq_empty_iff]
  exact ⟨fun h position hoccurs => h (Finset.mem_range.mpr hoccurs.looked) hoccurs,
    fun h position _ => h position⟩

/-- Occurrences of the pattern were replaced one after the other, so many. -/
inductive Replaced (patch : LookupPatch) : List UInt8 → List UInt8 → Nat → Prop where
  | none (bytes : List UInt8) : Replaced patch bytes bytes 0
  | next {bytes after : List UInt8} {n : Nat} (position : Nat)
      (hoccurs : Occurs patch bytes position)
      (hrest : Replaced patch (overwrite position patch.replace bytes) after n) :
      Replaced patch bytes after (n + 1)

theorem Replaced.eq_of_zero (h : Replaced patch bytes after 0) : after = bytes := by
  cases h
  rfl

theorem Replaced.exists_occurs {n : Nat} (h : Replaced patch bytes after (n + 1)) :
    ∃ position, Occurs patch bytes position := by
  cases h with
  | next position hoccurs hrest => exact ⟨position, hoccurs⟩

theorem Occurs.fits (h : Occurs patch bytes position) :
    position + patch.replace.length ≤ bytes.length := by
  have hlooked := h.looked
  rw [patch.sizes.2]
  omega

theorem Occurs.length_overwrite (h : Occurs patch bytes position) :
    (overwrite position patch.replace bytes).length = bytes.length :=
  ByteWindow.length_overwrite h.fits

theorem Replaced.length {n : Nat} (h : Replaced patch bytes after n) :
    after.length = bytes.length := by
  induction h with
  | none bytes => rfl
  | next position hoccurs _ ih => exact ih.trans hoccurs.length_overwrite

end Occurrences

section Apart

variable {patch : LookupPatch} {bytes after : List UInt8} {position other : Nat}

/-- Neither two occurrences of the pattern nor an occurrence and a replacement
can share bytes. -/
def Apart (patch : LookupPatch) : Prop :=
  patch.find ≠ patch.replace ∧ ∀ d < patch.size, 0 < d →
    patch.find.take (patch.size - d) ≠ patch.find.drop d ∧
    patch.find.take (patch.size - d) ≠ patch.replace.drop d ∧
    patch.replace.take (patch.size - d) ≠ patch.find.drop d

instance (patch : LookupPatch) : Decidable (Apart patch) :=
  inferInstanceAs (Decidable (_ ∧ _))

/-- Two windows of one size share the bytes on which they overlap. -/
theorem window_overlap {α : Type} (bytes : List α) (position : Nat) {size d : Nat}
    (hd : d ≤ size) :
    (window (position + d) size bytes).take (size - d) =
      (window position size bytes).drop d := by
  apply List.ext_getElem?
  intro i
  rw [List.getElem?_take, List.getElem?_drop, window_getElem?, window_getElem?]
  by_cases hi : i < size - d
  · rw [if_pos hi, if_pos (by omega), if_pos (by omega), Nat.add_assoc]
  · rw [if_neg hi, if_neg (by omega)]

/-- The pattern does not overlap with itself or with its replacement. -/
theorem Apart.far {word text : List UInt8} (h : Apart patch)
    (hword : word = patch.find ∨ word = patch.replace)
    (hat : window position patch.size text = word)
    (hfound : window other patch.size text = patch.find) (hother : other ≠ position) :
    other + patch.size ≤ position ∨ position + patch.size ≤ other := by
  by_contra hnear
  rcases Nat.lt_or_gt_of_ne hother with hbefore | hbehind
  · have hshort : position - other ≤ patch.size := by omega
    have hoverlap := window_overlap text other hshort
    rw [show other + (position - other) = position by omega, hat, hfound] at hoverlap
    have hshift := h.2 (position - other) (by omega) (by omega)
    rcases hword with rfl | rfl
    · exact hshift.1 hoverlap
    · exact hshift.2.2 hoverlap
  · have hshort : other - position ≤ patch.size := by omega
    have hoverlap := window_overlap text position hshort
    rw [show position + (other - position) = other by omega, hat, hfound] at hoverlap
    have hshift := h.2 (other - position) (by omega) (by omega)
    rcases hword with rfl | rfl
    · exact hshift.1 hoverlap
    · exact hshift.2.1 hoverlap

/-- Away from a replacement the pattern occurs where it did. -/
theorem Occurs.overwrite_iff (hapart : Apart patch) (h : Occurs patch bytes position)
    (hother : other ≠ position) :
    Occurs patch (overwrite position patch.replace bytes) other ↔
      Occurs patch bytes other := by
  have hfind := patch.sizes.1
  have hreplace := patch.sizes.2
  have hsame : other + patch.size ≤ position ∨ position + patch.size ≤ other →
      window other patch.size (overwrite position patch.replace bytes) =
        window other patch.size bytes := by
    intro hfar
    exact window_overwrite_disjoint h.fits (by rwa [hreplace])
  constructor
  · intro hoccurs
    have hstored : window position patch.size (overwrite position patch.replace bytes) =
        patch.replace := by
      rw [← hreplace]
      exact window_overwrite_self h.fits
    have hfound := hoccurs.found
    rw [hfind] at hfound
    have hfar := hapart.far (.inr rfl) hstored hfound hother
    refine ⟨?_, by rw [hfind, ← hsame hfar, hfound]⟩
    rw [← h.length_overwrite]
    exact hoccurs.looked
  · intro hoccurs
    have hold : window position patch.size bytes = patch.find := by
      rw [← hfind]
      exact h.found
    have hfound := hoccurs.found
    rw [hfind] at hfound
    have hfar := hapart.far (.inl rfl) hold hfound hother
    refine ⟨?_, by rw [hfind, hsame hfar, hfound]⟩
    rw [h.length_overwrite]
    exact hoccurs.looked

theorem Occurs.not_overwrite (hapart : Apart patch) (h : Occurs patch bytes position) :
    ¬ Occurs patch (overwrite position patch.replace bytes) position := by
  intro hoccurs
  have hstored := window_overwrite_self h.fits
  have hfound := hoccurs.found
  rw [patch.sizes.1, ← patch.sizes.2, hstored] at hfound
  exact hapart.1 hfound.symm

/-- A replacement takes one occurrence away. -/
theorem Occurs.occurrences_overwrite (hapart : Apart patch) (h : Occurs patch bytes position) :
    occurrences patch (overwrite position patch.replace bytes) + 1 =
      occurrences patch bytes := by
  have herase : (Finset.range (bytes.length - patch.size)).filter
      (Occurs patch (overwrite position patch.replace bytes)) =
        ((Finset.range (bytes.length - patch.size)).filter (Occurs patch bytes)).erase
          position := by
    ext other
    simp only [Finset.mem_filter, Finset.mem_erase]
    by_cases hother : other = position
    · subst hother
      simp [h.not_overwrite hapart]
    · rw [h.overwrite_iff hapart hother]
      tauto
  rw [occurrences, occurrences, h.length_overwrite, herase]
  exact Finset.card_erase_add_one
    (Finset.mem_filter.mpr ⟨Finset.mem_range.mpr h.looked, h⟩)

theorem Replaced.occurrences_add {n : Nat} (hapart : Apart patch)
    (h : Replaced patch bytes after n) :
    occurrences patch after + n = occurrences patch bytes := by
  induction h with
  | none bytes => rfl
  | next position hoccurs _ ih =>
      have hone := hoccurs.occurrences_overwrite hapart
      omega

end Apart

section Loops

variable {patch : LookupPatch} {bytes : List UInt8}

/-- The inner loop compares inside the image and stops at the first occurrence. -/
theorem seek_spec (find bytes : List UInt8) (remaining current : Nat)
    (hfits : current + remaining + find.length ≤ bytes.length) :
    ∃ found, seek find bytes remaining current = some found ∧ current ≤ found ∧
      found ≤ current + remaining ∧
      (∀ position, current ≤ position → position < found →
        window position find.length bytes ≠ find) ∧
      (found < current + remaining → window found find.length bytes = find) := by
  induction remaining generalizing current with
  | zero =>
      exact ⟨current, rfl, Nat.le_refl _, Nat.le_refl _, fun _ _ _ => by omega,
        fun h => absurd h (Nat.lt_irrefl _)⟩
  | succ remaining ih =>
      rw [seek, if_neg (by omega)]
      by_cases hwindow : window current find.length bytes = find
      · rw [if_pos hwindow]
        exact ⟨current, rfl, Nat.le_refl _, by omega, fun _ _ _ => by omega,
          fun _ => hwindow⟩
      · rw [if_neg hwindow]
        obtain ⟨found, hseek, hlow, hhigh, hbefore, hfound⟩ := ih (current + 1) (by omega)
        refine ⟨found, hseek, by omega, by omega, fun position hcurrent hposition => ?_,
          fun h => hfound (by omega)⟩
        rcases Nat.eq_or_lt_of_le hcurrent with rfl | hlater
        · exact hwindow
        · exact hbefore position hlater hposition

/-- What so many rounds from `current` on make of the bytes. -/
structure Patched (patch : LookupPatch) (rounds current : Nat) (bytes after : List UInt8)
    (n : Nat) : Prop where
  replaced : Replaced patch bytes after n
  bounded : n ≤ rounds
  missed : n = 0 → 0 < rounds → ∀ position, current ≤ position → ¬ Occurs patch bytes position
  finished : Apart patch → (∀ position < current, ¬ Occurs patch bytes position) →
    n < rounds → ∀ position, ¬ Occurs patch after position

section Rounds

variable {rounds current found n : Nat} {after : List UInt8}

/-- With no occurrence ahead nothing is replaced. -/
theorem Patched.none (hrest : ∀ position, current ≤ position → ¬ Occurs patch bytes position) :
    Patched patch rounds current bytes bytes 0 :=
  ⟨.none bytes, Nat.zero_le _, fun _ _ => hrest, fun _ hbefore _ position =>
    (Nat.lt_or_ge position current).elim (hbefore position) (hrest position)⟩

/-- A round that replaces the next occurrence; the following one starts at it. -/
theorem Patched.next (hoccurs : Occurs patch bytes found)
    (hskipped : ∀ position, current ≤ position → position < found → ¬ Occurs patch bytes position)
    (h : Patched patch rounds found (overwrite found patch.replace bytes) after n) :
    Patched patch (rounds + 1) current bytes after (n + 1) := by
  refine ⟨.next found hoccurs h.replaced, Nat.succ_le_succ h.bounded,
    fun hzero => absurd hzero (Nat.succ_ne_zero n), fun hapart hbefore hlt => ?_⟩
  refine h.finished hapart (fun position hposition => ?_) (by omega)
  rw [hoccurs.overwrite_iff hapart (by omega)]
  rcases Nat.lt_or_ge position current with hlow | hhigh
  · exact hbefore position hlow
  · exact hskipped position hhigh hposition

/-- A round that finds nothing. -/
theorem Patched.idle (hrest : ∀ position, current ≤ position → ¬ Occurs patch bytes position)
    (h : Patched patch rounds found bytes after n) :
    Patched patch (rounds + 1) current bytes after n := by
  refine ⟨h.replaced, Nat.le_succ_of_le h.bounded, fun _ _ => hrest, fun _ hbefore _ => ?_⟩
  -- nothing is found any more, so nothing has been replaced
  have hall : ∀ position, ¬ Occurs patch bytes position := fun position =>
    (Nat.lt_or_ge position current).elim (hbefore position) (hrest position)
  cases n with
  | zero =>
      rw [h.replaced.eq_of_zero]
      exact hall
  | succ n =>
      obtain ⟨position, hoccurs⟩ := h.replaced.exists_occurs
      exact absurd hoccurs (hall position)

end Rounds

/-- The outer loop never leaves the image, and its counter counts replacements. -/
theorem patchLoop_spec (patch : LookupPatch) (rounds current changes : Nat)
    (bytes : List UInt8) :
    ∃ after n, patchLoop patch (bytes.length - patch.size) rounds bytes current changes =
        some (after, changes + n) ∧ Patched patch rounds current bytes after n := by
  induction rounds generalizing bytes current changes with
  | zero =>
      refine ⟨bytes, 0, rfl, .none bytes, Nat.le_refl _, ?_, ?_⟩
      · exact fun _ h => absurd h (Nat.lt_irrefl 0)
      · exact fun _ _ h => absurd h (Nat.lt_irrefl 0)
  | succ rounds ih =>
      rw [patchLoop]
      by_cases hcurrent : current < bytes.length - patch.size
      · rw [if_pos hcurrent]
        have hsize := patch.sizes.1
        obtain ⟨found, hseek, hlow, hhigh, hbefore, hfound⟩ := seek_spec patch.find bytes
          (bytes.length - patch.size - current) current (by omega)
        have hskipped : ∀ position, current ≤ position → position < found →
            ¬ Occurs patch bytes position := fun position h h' hoccurs =>
          hbefore position h h' hoccurs.found
        simp only [hseek, Option.bind_eq_bind, Option.bind_some]
        by_cases hend : found = bytes.length - patch.size
        · rw [if_neg (not_not.mpr hend)]
          obtain ⟨after, n, hloop, hpatched⟩ := ih found changes bytes
          refine ⟨after, n, hloop, hpatched.idle fun position hposition hoccurs => ?_⟩
          exact hskipped position hposition (hend ▸ hoccurs.looked) hoccurs
        · rw [if_pos hend]
          have hoccurs : Occurs patch bytes found := ⟨by omega, hfound (by omega)⟩
          obtain ⟨after, n, hloop, hpatched⟩ :=
            ih found (changes + 1) (overwrite found patch.replace bytes)
          rw [hoccurs.length_overwrite] at hloop
          refine ⟨after, n + 1, ?_, hpatched.next hoccurs hskipped⟩
          rw [hloop, Nat.add_assoc, Nat.add_comm 1]
      · rw [if_neg hcurrent]
        refine ⟨bytes, 0, rfl, .none fun position hposition hoccurs => ?_⟩
        have hlooked := hoccurs.looked
        omega

theorem lookupPatched_spec (patch : LookupPatch) (bytes : List UInt8) :
    ∃ after n, lookupPatched patch bytes = some (after, n) ∧
      Patched patch patch.count 0 bytes after n := by
  obtain ⟨after, n, hloop, hpatched⟩ := patchLoop_spec patch patch.count 0 0 bytes
  rw [Nat.zero_add] at hloop
  exact ⟨after, n, hloop, hpatched⟩

/-- What the loops leave of an image. -/
def Rewrites (patch : LookupPatch) (index : Nat) (s t : Kernel) (n : Nat) : Prop :=
  ∃ after, Patched patch patch.count 0 (s.images index).bytes after n ∧
    t = { s with images := fun other => if other = index then
      { s.images index with bytes := after } else s.images other }

/-- The loops read and write inside the image: they return. -/
theorem patchImage_spec (index : Nat) (patch : LookupPatch) (s : Kernel) :
    ∃ n t, patchImage index patch s = .ok n t ∧ Rewrites patch index s t n := by
  obtain ⟨after, n, hlookup, hpatched⟩ :=
    lookupPatched_spec patch (s.images index).bytes
  refine ⟨n, { s with images := fun other => if other = index then
    { s.images index with bytes := after } else s.images other }, ?_, after, hpatched, rfl⟩
  have himage : imageAt index s = .ok (s.images index) s := rfl
  rw [patchImage, bind_of_ok himage, hlookup]
  rfl

end Loops

end KernelPatcher

end Kryptonite
