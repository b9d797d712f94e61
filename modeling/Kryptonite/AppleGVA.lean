/-
The Python step of `patch_sequoia_applegva_polaris.sh`: the board-id of the
MacPro7,1 in the AppleGVA binary becomes that of the host.
-/
import Kryptonite.Replacement
import Kryptonite.ShellText

namespace Kryptonite

namespace AppleGVA

open ShellText Replacement

def macproId : Text := text "Mac-27AD2F918AE68F61"

/-- The exit status, what the file holds then, and what was printed. -/
structure Result where
  status : Nat
  data : Text
  output : List Text
deriving DecidableEq

/-- The Python program. -/
def patchStep (hostId data : Text) : Result :=
  if hostId.length ≠ 20 ∨ macproId.length ≠ 20 then
    ⟨1, data, [text "Length mismatch!"]⟩
  else if countAll macproId data = 0 then
    let notFound :=
      text "MacPro7,1 string not found. Maybe already patched or wrong AppleGVA version."
    if countAll hostId data > 0 then
      ⟨0, data, [notFound, text "Host board-id found, binary is likely already patched!"]⟩
    else
      ⟨2, data, [notFound]⟩
  else
    ⟨0, replaceAll macproId hostId data,
      [text "Successfully replaced " ++ text (toString (countAll macproId data)) ++
        text " occurrences of " ++ macproId ++ text " with " ++ hostId ++ text "!"]⟩

section Law

theorem macproId_length : macproId.length = 20 := by decide +kernel

/-- `M` -/
def mark : UInt8 := 0x4D

theorem macproId_marked : Marked mark macproId :=
  ⟨text "ac-27AD2F918AE68F61", by decide +kernel, by decide +kernel⟩

/-- What the step does to a binary. -/
structure Patched (hostId data : Text) : Prop where
  length : (patchStep hostId data).data.length = data.length
  inside : ∀ i, (patchStep hostId data).data[i]? ≠ data[i]? →
    ∃ p, macproId <+: data.drop p ∧ p ≤ i ∧ i < p + macproId.length
  gone : ¬ macproId <:+: (patchStep hostId data).data
  again : 0 < countAll macproId data →
    (patchStep hostId (patchStep hostId data).data).data = (patchStep hostId data).data ∧
      (patchStep hostId (patchStep hostId data).data).status = 0

variable {hostId : Text}

theorem macproId_ne_nil : macproId ≠ [] := by decide +kernel

theorem lengths_match (hlength : hostId.length = 20) :
    ¬ (hostId.length ≠ 20 ∨ macproId.length ≠ 20) := by
  simp [hlength, macproId_length]

/-- Without an occurrence the file is left alone. -/
theorem patchStep_of_absent (hlength : hostId.length = 20) {data : Text}
    (h : ¬ macproId <:+: data) :
    (patchStep hostId data).data = data ∧
      (hostId <:+: data → (patchStep hostId data).status = 0) := by
  have hcount : countAll macproId data = 0 := by
    by_contra hne
    exact h ((countAll_pos_iff macproId_ne_nil data).mp (Nat.pos_of_ne_zero hne))
  have hhost : hostId ≠ [] := by
    rintro rfl
    cases hlength
  rw [patchStep, if_neg (lengths_match hlength), if_pos hcount]
  refine ⟨?_, fun hfound => ?_⟩
  · split
    · rfl
    · rfl
  · rw [if_pos ((countAll_pos_iff hhost data).mpr hfound)]

theorem patchStep_of_present (hlength : hostId.length = 20) {data : Text}
    (h : macproId <:+: data) :
    (patchStep hostId data).data = replaceAll macproId hostId data := by
  have hcount := (countAll_pos_iff macproId_ne_nil data).mpr h
  rw [patchStep, if_neg (lengths_match hlength), if_neg (by omega)]

/-- Every board-id of the assumed shape: the step keeps the length, changes
occurrences only, leaves none, and a second run accepts its result. -/
theorem patchStep_patched (hostId data : Text) (hlength : hostId.length = 20)
    (hhead : hostId.head? = some mark) (htail : mark ∉ hostId.tail)
    (hother : hostId ≠ macproId) : Patched hostId data := by
  have hsize : hostId.length = macproId.length := hlength.trans macproId_length.symm
  have hmarked : Marked mark hostId := by
    obtain ⟨tail, rfl⟩ := List.head?_eq_some_iff.mp hhead
    exact ⟨tail, rfl, htail⟩
  by_cases hfound : macproId <:+: data
  · have hdata := patchStep_of_present hlength hfound
    have hgone : ¬ macproId <:+: replaceAll macproId hostId data :=
      not_infix_replaceAll macproId_marked hmarked hsize hother data
    refine ⟨?_, fun i => ?_, ?_, fun _ => ?_⟩
    · rw [hdata]
      exact length_replaceAll macproId_ne_nil hsize data
    · rw [hdata]
      exact exists_occurrence_of_ne macproId_ne_nil hsize data i
    · rw [hdata]
      exact hgone
    · rw [hdata]
      obtain ⟨hsame, hstatus⟩ := patchStep_of_absent hlength hgone
      exact ⟨hsame, hstatus (infix_replaceAll macproId_ne_nil data hfound)⟩
  · have hdata := (patchStep_of_absent hlength hfound).1
    refine ⟨?_, fun i hne => ?_, ?_, fun hcount => ?_⟩
    · rw [hdata]
    · rw [hdata] at hne
      exact absurd rfl hne
    · rw [hdata]
      exact hfound
    · exact absurd ((countAll_pos_iff macproId_ne_nil data).mp hcount) hfound

theorem iMac_board_patched :
    Patched (text "Mac-FC02E91DDD3FA6A4") (macproId ++ text "," ++ macproId) :=
  patchStep_patched _ _ (by decide +kernel) (by decide +kernel) (by decide +kernel)
    (by decide +kernel)

end Law

end AppleGVA

end Kryptonite
