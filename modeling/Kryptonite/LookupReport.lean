/-
What the applicator says about a lookup patch against what the patcher did to
the image.  The message depends on the patcher's error code alone, which an
earlier call may have left behind and which does not tell a patch applied in
part from one not applied.
-/
import Kryptonite.BitsPerComponent
import Kryptonite.Submissions

namespace Kryptonite

open Script ByteWindow KernelPatcher

section Outcome

variable (loads : LoadTable) (machine : Machine) (patch : LookupPatch) (s : Kernel)

/-- The patcher reaches the image. -/
def Reaches : Prop := loads.index patch.kext ≠ 0 ∧ machine.lookupWriting patch true = true

instance : Decidable (Reaches loads machine patch) := inferInstanceAs (Decidable (_ ∧ _))

/-- The image that a call is about. -/
def targetBytes : List UInt8 := (s.images (loads.index patch.kext)).bytes

/-- The images that a call leaves, and how many occurrences it has replaced. -/
def Effect (images : Nat → Image) (n : Nat) : Prop :=
  if Reaches loads machine patch then
    ∃ after, Patched patch patch.count 0 (targetBytes loads patch s) after n ∧
      images = fun other => if other = loads.index patch.kext then
        { s.images (loads.index patch.kext) with bytes := after } else s.images other
  else images = s.images ∧ n = 0

/-- The error code that a call with so many replacements leaves. -/
def lookupCode (n : Nat) : Error :=
  if loads.index patch.kext = 0 then .memoryIssue
  else if machine.lookupWriting patch true = false ∨ machine.lookupWriting patch false = false
    then .memoryProtection
  else if n ≠ patch.count then .memoryIssue
  else s.code

def lookupLines : List String :=
  if loads.index patch.kext = 0 then ["patcher: an invalid lookup patch provided"]
  else if machine.lookupWriting patch true = false then
    ["patcher: lookup patching failed to write to kernel"]
  else if machine.lookupWriting patch false = false then
    ["patcher: lookup patching failed to disable kernel writing"]
  else []

theorem applyLookupPatch_spec :
    ∃ images n, Effect loads machine patch s images n ∧
      KernelPatcher.applyLookupPatch loads machine patch s = .ok () { s with
        code := lookupCode loads machine patch s n
        images := images
        calls := s.calls ++ [.lookup patch]
        log := s.log ++ lookupLines loads machine patch } := by
  by_cases hreaches : Reaches loads machine patch
  · obtain ⟨n, t, himage, after, hpatched, rfl⟩ := patchImage_spec (loads.index patch.kext) patch
      { s with calls := s.calls ++ [.lookup patch] }
    refine ⟨_, n, (if_pos hreaches).mpr ⟨after, hpatched, rfl⟩, ?_⟩
    obtain ⟨hindex, hbefore⟩ := hreaches
    have hsubmit : submit (.lookup patch) s =
        .ok () { s with calls := s.calls ++ [.lookup patch] } := rfl
    rw [KernelPatcher.applyLookupPatch, bind_of_ok hsubmit, if_neg hindex,
      if_neg (not_not_intro hbefore), bind_of_ok himage]
    cases hafter : machine.lookupWriting patch false with
    | false =>
        simp only [lookupCode, lookupLines, hindex, hbefore, hafter, if_false, if_true,
          Bool.true_eq_false, Bool.false_eq_true, not_false_eq_true, or_true]
        rfl
    | true =>
        by_cases hcount : n = patch.count
        · simp only [lookupCode, lookupLines, hindex, hbefore, hafter, hcount, if_false,
            Bool.true_eq_false, not_true_eq_false, or_self, ne_eq, List.append_nil]
          rfl
        · simp only [lookupCode, lookupLines, hindex, hbefore, hafter, hcount, if_false, if_true,
            Bool.true_eq_false, not_true_eq_false, not_false_eq_true, or_self, ne_eq,
            List.append_nil]
          rfl
  · refine ⟨s.images, 0, (if_neg hreaches).mpr ⟨rfl, rfl⟩, ?_⟩
    rw [KernelPatcher.applyLookupPatch]
    by_cases hindex : loads.index patch.kext = 0
    · simp only [lookupCode, lookupLines, if_pos hindex]
      rfl
    · have hbefore : machine.lookupWriting patch true = false := by
        simpa [Reaches, hindex] using hreaches
      simp only [lookupCode, lookupLines, hindex, hbefore, if_false, if_true, true_or,
        Bool.false_eq_true, not_false_eq_true]
      rfl

end Outcome

section Counted

variable {loads : LoadTable} {machine : Machine} {patch : LookupPatch} {s : Kernel}
variable {images : Nat → Image} {n : Nat}

/-- A patch for one occurrence, or for two that cannot meet. -/
def Countable (patch : LookupPatch) : Prop :=
  patch.count = 1 ∨ patch.count = 2 ∧ Apart patch

theorem Effect.le_count (h : Effect loads machine patch s images n) : n ≤ patch.count := by
  unfold Effect at h
  split at h
  · obtain ⟨after, hpatched, -⟩ := h
    exact hpatched.bounded
  · omega

theorem Effect.unchanged (h : Effect loads machine patch s images 0) : images = s.images := by
  unfold Effect at h
  split at h
  · obtain ⟨after, hpatched, rfl⟩ := h
    funext other
    by_cases hother : other = loads.index patch.kext
    · rw [if_pos hother, hpatched.replaced.eq_of_zero, hother]
      rfl
    · rw [if_neg hother]
  · exact h.1

theorem Effect.replaced (h : Effect loads machine patch s images n) :
    Replaced patch (targetBytes loads patch s) (images (loads.index patch.kext)).bytes n := by
  unfold Effect at h
  split at h
  · obtain ⟨after, hpatched, rfl⟩ := h
    simpa only [if_pos] using hpatched.replaced
  · obtain ⟨rfl, rfl⟩ := h
    exact .none _

/-- Nothing is replaced where the patcher does not get to the image, or finds
nothing there. -/
theorem Effect.eq_zero_iff (h : Effect loads machine patch s images n) :
    n = 0 ↔ ¬ Reaches loads machine patch ∨ occurrences patch (targetBytes loads patch s) = 0 := by
  by_cases hreaches : Reaches loads machine patch
  · rw [Effect, if_pos hreaches] at h
    obtain ⟨after, hpatched, rfl⟩ := h
    rw [occurrences_eq_zero_iff, or_iff_right (not_not_intro hreaches)]
    constructor
    · intro hzero position
      exact hpatched.missed hzero patch.counted position (Nat.zero_le _)
    · intro hnone
      cases n with
      | zero => rfl
      | succ n =>
          obtain ⟨position, hoccurs⟩ := hpatched.replaced.exists_occurs
          exact absurd hoccurs (hnone position)
  · rw [Effect, if_neg hreaches] at h
    exact iff_of_true h.2 (.inl hreaches)

/-- All of them are replaced where the patcher gets to an image that has enough
of them. -/
theorem Effect.eq_count_iff (hcountable : Countable patch)
    (h : Effect loads machine patch s images n) :
    n = patch.count ↔ Reaches loads machine patch ∧
      patch.count ≤ occurrences patch (targetBytes loads patch s) := by
  have hcounted := patch.counted
  have hle := h.le_count
  have hzero := h.eq_zero_iff
  by_cases hreaches : Reaches loads machine patch
  · rw [or_iff_right (not_not_intro hreaches)] at hzero
    rw [and_iff_right hreaches]
    rcases hcountable with hone | ⟨htwo, hapart⟩
    · omega
    · rw [Effect, if_pos hreaches] at h
      obtain ⟨after, hpatched, -⟩ := h
      have hadd := hpatched.replaced.occurrences_add hapart
      constructor
      · omega
      · intro hmany
        by_contra hfew
        have hnone := occurrences_eq_zero_iff.mpr
          (hpatched.finished hapart (fun _ h => absurd h (Nat.not_lt_zero _)) (by omega))
        omega
  · have hnone : n = 0 := hzero.mpr (.inl hreaches)
    refine iff_of_false (by omega) fun hboth => hreaches hboth.1

/-- The images before and after tell whether all were replaced. -/
theorem Effect.replaced_iff (hcountable : Countable patch)
    (h : Effect loads machine patch s images n) :
    (Reaches loads machine patch ∧ Replaced patch (targetBytes loads patch s)
        (images (loads.index patch.kext)).bytes patch.count) ↔ n = patch.count := by
  constructor
  · rintro ⟨hreaches, hreplaced⟩
    rcases hcountable with hone | ⟨htwo, hapart⟩
    · rw [hone] at hreplaced
      obtain ⟨position, hoccurs⟩ := hreplaced.exists_occurs
      have hle := h.le_count
      have hne : n ≠ 0 := fun hzero => by
        have hnone := (h.eq_zero_iff.mp hzero).resolve_left (not_not_intro hreaches)
        exact occurrences_eq_zero_iff.mp hnone position hoccurs
      omega
    · have hasked := hreplaced.occurrences_add hapart
      have hdone := h.replaced.occurrences_add hapart
      omega
  · rintro rfl
    exact ⟨((h.eq_count_iff hcountable).mp rfl).1, h.replaced⟩

/-- A patch applied in part shows. -/
theorem Effect.changed (hcountable : Countable patch)
    (h : Effect loads machine patch s images n) (hsome : n ≠ 0) (hpart : n ≠ patch.count) :
    images ≠ s.images := by
  have hle := h.le_count
  rcases hcountable with hone | ⟨htwo, hapart⟩
  · omega
  · rintro rfl
    have hadd := h.replaced.occurrences_add hapart
    rw [targetBytes] at hadd
    omega

end Counted

namespace PatchApplicator

section Report

variable (loads : LoadTable) (machine : Machine) (patch : LookupPatch) (patchName : String)
variable (s : Kernel)

def applyingLine : String :=
  "patchapp" ++ ": " ++ ("Applying " ++ patchName ++ " on " ++ (kextInfo patch.kext).id ++ "...")

def appliedLine : String :=
  "patchapp" ++ ": " ++ ("Applied " ++ patchName ++ " on " ++ (kextInfo patch.kext).id ++ ".")

def skippedLine (error : Error) : String :=
  "patchapp" ++ ": " ++ ("Skipping failed " ++ patchName ++ " on " ++ (kextInfo patch.kext).id ++
    " (error " ++ toString error.ctorIdx ++ ").")

/-- The lines logged between two states. -/
def newLines (t : Kernel) : List String := t.log.drop s.log.length

/-- The report tells what happened to the image.  That the patcher got to the
image is asked for because a patch whose replacement is its pattern, the
Thunderbolt patch for `krytbtv=3`, leaves no trace in it. -/
structure Truthful (t : Kernel) : Prop where
  applied : appliedLine patch patchName ∈ newLines s t ↔ Reaches loads machine patch ∧
    Replaced patch (targetBytes loads patch s) (targetBytes loads patch t) patch.count
  skipped : ∀ error, skippedLine patch patchName error ∈ newLines s t → t.images = s.images

/-- The line that a call with so many replacements logs last. -/
def reportLine (n : Nat) : String :=
  if lookupCode loads machine patch s n ≠ .noError then
    skippedLine patch patchName (lookupCode loads machine patch s n)
  else appliedLine patch patchName

theorem applyLookupPatch_reports :
    ∃ t n, applyLookupPatch loads machine patch patchName s = .ok () t ∧
      Effect loads machine patch s t.images n ∧
      newLines s t = applyingLine patch patchName ::
        (lookupLines loads machine patch ++ [reportLine loads machine patch patchName s n]) := by
  have hlines : ∀ lines : List String, (s.log ++ lines).drop s.log.length = lines := fun _ =>
    List.drop_left
  obtain ⟨images, n, heffect, hpatcher⟩ := applyLookupPatch_spec loads machine patch
    { s with log := s.log ++ [applyingLine patch patchName] }
  by_cases hcode : lookupCode loads machine patch s n ≠ .noError
  · refine ⟨{ s with
      code := .noError
      images := images
      calls := s.calls ++ [.lookup patch]
      log := s.log ++ [applyingLine patch patchName] ++ lookupLines loads machine patch ++
        [skippedLine patch patchName (lookupCode loads machine patch s n)] }, n, ?_, heffect, ?_⟩
    · exact (bind_of_ok rfl).trans ((bind_of_ok hpatcher).trans ((bind_of_ok rfl).trans
        (congrFun (if_pos hcode) _)))
    · rw [newLines, reportLine, if_pos hcode, List.append_assoc, List.append_assoc, hlines]
      rfl
  · refine ⟨{ s with
      code := lookupCode loads machine patch s n
      images := images
      calls := s.calls ++ [.lookup patch]
      log := s.log ++ [applyingLine patch patchName] ++ lookupLines loads machine patch ++
        [appliedLine patch patchName] }, n, ?_, heffect, ?_⟩
    · exact (bind_of_ok rfl).trans ((bind_of_ok hpatcher).trans ((bind_of_ok rfl).trans
        (congrFun (if_neg hcode) _)))
    · rw [newLines, reportLine, if_neg hcode, List.append_assoc, List.append_assoc, hlines]
      rfl

/-- The lines that say neither that the patch was applied nor that it was
skipped. -/
theorem ne_report_of_mem {line : String}
    (hline : line ∈ applyingLine patch patchName :: lookupLines loads machine patch) :
    line ≠ appliedLine patch patchName ∧ ∀ error, line ≠ skippedLine patch patchName error := by
  have hpatcher : ∀ text : String, "patcher" ++ ": " ++ text ≠ appliedLine patch patchName ∧
      ∀ error, "patcher" ++ ": " ++ text ≠ skippedLine patch patchName error := by
    intro text
    refine ⟨fun h => ?_, fun error h => ?_⟩
    · have hchar := congrArg (fun line => line.toList[5]?) h
      simp [appliedLine, String.toList_append] at hchar
    · have hchar := congrArg (fun line => line.toList[5]?) h
      simp [skippedLine, String.toList_append] at hchar
  rcases List.mem_cons.mp hline with rfl | hline
  · refine ⟨fun h => ?_, fun error h => ?_⟩
    · have hchar := congrArg (fun line => line.toList[15]?) h
      simp [applyingLine, appliedLine, String.toList_append] at hchar
    · have hchar := congrArg (fun line => line.toList[10]?) h
      simp [applyingLine, skippedLine, String.toList_append] at hchar
  · unfold lookupLines at hline
    split at hline
    · rw [List.mem_singleton.mp hline]
      exact hpatcher "an invalid lookup patch provided"
    · split at hline
      · rw [List.mem_singleton.mp hline]
        exact hpatcher "lookup patching failed to write to kernel"
      · split at hline
        · rw [List.mem_singleton.mp hline]
          exact hpatcher "lookup patching failed to disable kernel writing"
        · simp at hline

theorem appliedLine_ne_skippedLine (error : Error) :
    appliedLine patch patchName ≠ skippedLine patch patchName error := by
  intro h
  have hchar := congrArg (fun line => line.toList[10]?) h
  simp [appliedLine, skippedLine, String.toList_append] at hchar

variable {loads machine patch patchName s} {t : Kernel} {n : Nat}

/-- What a call logs. -/
def Reported (loads : LoadTable) (machine : Machine) (patch : LookupPatch) (patchName : String)
    (s t : Kernel) (n : Nat) : Prop :=
  newLines s t = applyingLine patch patchName ::
    (lookupLines loads machine patch ++ [reportLine loads machine patch patchName s n])

theorem Reported.mem_iff (h : Reported loads machine patch patchName s t n) {line : String}
    (hreport : line = appliedLine patch patchName ∨
      ∃ error, line = skippedLine patch patchName error) :
    line ∈ newLines s t ↔ line = reportLine loads machine patch patchName s n := by
  rw [h, ← List.cons_append, List.mem_append, List.mem_singleton]
  refine or_iff_right fun hmem => ?_
  have hne := ne_report_of_mem loads machine patch patchName hmem
  rcases hreport with happlied | ⟨error, hskipped⟩
  · exact hne.1 happlied
  · exact hne.2 error hskipped

theorem Reported.applied_iff (h : Reported loads machine patch patchName s t n) :
    appliedLine patch patchName ∈ newLines s t ↔
      lookupCode loads machine patch s n = .noError := by
  rw [h.mem_iff (.inl rfl), reportLine]
  split
  · rename_i hcode
    exact iff_of_false (appliedLine_ne_skippedLine patch patchName _) hcode
  · rename_i hcode
    exact iff_of_true rfl (not_not.mp hcode)

theorem Reported.skipped_iff (h : Reported loads machine patch patchName s t n) :
    (∃ error, skippedLine patch patchName error ∈ newLines s t) ↔
      lookupCode loads machine patch s n ≠ .noError := by
  constructor
  · rintro ⟨error, hmem⟩ hcode
    rw [h.mem_iff (.inr ⟨error, rfl⟩), reportLine, if_neg (not_not_intro hcode)] at hmem
    exact appliedLine_ne_skippedLine patch patchName error hmem.symm
  · intro hcode
    refine ⟨lookupCode loads machine patch s n, ?_⟩
    rw [h.mem_iff (.inr ⟨_, rfl⟩), reportLine, if_pos hcode]

theorem truthful_iff_code (hcountable : Countable patch)
    (heffect : Effect loads machine patch s t.images n)
    (hreported : Reported loads machine patch patchName s t n) :
    Truthful loads machine patch patchName s t ↔
      (lookupCode loads machine patch s n = .noError ↔ n = patch.count) ∧
      (lookupCode loads machine patch s n ≠ .noError → t.images = s.images) := by
  have hreplaced := heffect.replaced_iff hcountable
  constructor
  · intro h
    exact ⟨hreported.applied_iff.symm.trans (h.applied.trans hreplaced), fun hcode =>
      (hreported.skipped_iff.mpr hcode).elim fun error hmem => h.skipped error hmem⟩
  · rintro ⟨hcount, himage⟩
    exact ⟨hreported.applied_iff.trans (hcount.trans hreplaced.symm), fun error hmem =>
      himage (hreported.skipped_iff.mp ⟨error, hmem⟩)⟩

end Report

section Submitted

variable {loads : LoadTable} {machine : Machine} {patch : LookupPatch} {patchName : String}
variable {s : Kernel}

theorem legacyThunderboltPatch_count (boot : Boot) (kext : KextEntry) :
    (Patches.legacyThunderboltPatch boot kext).count = 1 := by
  unfold Patches.legacyThunderboltPatch
  split
  · rfl
  · split <;> rfl

theorem ioPCITunnelPatch_count (boot : Boot) (kext : KextEntry) :
    (Patches.ioPCITunnelPatch boot kext).count = 1 := by
  unfold Patches.ioPCITunnelPatch
  split
  · rfl
  · split <;> rfl

theorem maskPatch_apart : Apart (Patches.maskPatch 0) := by decide +kernel

theorem bitsPatch_apart : Apart (Patches.bitsPatch 0) := by decide +kernel

theorem submissions_countable {boot : Boot} {load : KextLoad} {kext : KextEntry}
    {patch : Patch} {lookup : LookupPatch}
    (h : .lookup lookup ∈ PatchSet.submissions boot load kext patch) : Countable lookup := by
  -- the routes drop out, the rest are single patches but for two pairs
  cases patch <;> simp only [PatchSet.submissions, List.mem_cons, List.not_mem_nil, or_false,
    Submission.lookup.injEq, reduceCtorEq] at h
  case unblockLegacyThunderbolt =>
    rw [h]
    exact .inl (legacyThunderboltPatch_count boot kext)
  case bypassIOPCITunnelCompatible =>
    rw [h]
    exact .inl (ioPCITunnelPatch_count boot kext)
  case forceAMD24BitOutput =>
    rcases h with rfl | rfl
    · exact .inr ⟨rfl, maskPatch_apart⟩
    · exact .inr ⟨rfl, bitsPatch_apart⟩
  case relaxGraphicsDevicePolicy =>
    rcases h with rfl | rfl
    · exact .inl rfl
    · exact .inl rfl
  all_goals
    rw [h]
    exact .inl rfl

theorem lookupCode_noError_iff {images : Nat → Image} {n : Nat}
    (heffect : Effect loads machine patch s images n) :
    lookupCode loads machine patch s n = .noError ↔
      n = patch.count ∧ s.code = .noError ∧ machine.lookupWriting patch false = true := by
  have hcounted := patch.counted
  by_cases hreaches : Reaches loads machine patch
  · cases hafter : machine.lookupWriting patch false with
    | false => simp [lookupCode, hreaches.1, hafter]
    | true =>
        by_cases hcount : n = patch.count
        · simp [lookupCode, hreaches.1, hreaches.2, hafter, hcount]
        · simp [lookupCode, hreaches.1, hreaches.2, hafter, hcount]
  · have hnone : n = 0 := heffect.eq_zero_iff.mpr (.inl hreaches)
    have hcode : lookupCode loads machine patch s n ≠ .noError := by
      unfold lookupCode
      split
      · exact nofun
      · rename_i hindex
        have hbefore : machine.lookupWriting patch true = false := by
          simpa [Reaches, hindex] using hreaches
        rw [if_pos (.inl hbefore)]
        exact nofun
    refine iff_of_false hcode fun h => ?_
    omega

/-- The report is right when the patcher does not get to the image or finds no
occurrence there, and when it finds as many as it looks for, with no error from
before and none from restoring the write protection. -/
theorem applyLookupPatch_truthful_iff (boot : Boot) (load : KextLoad) (kext : KextEntry)
    (patch : Patch) (lookup : LookupPatch)
    (hsubmitted : .lookup lookup ∈ PatchSet.submissions boot load kext patch)
    (patchName : String) (s : Kernel) :
    Truthful boot.loads load.machine lookup patchName s
        (endState (applyLookupPatch boot.loads load.machine lookup patchName s)) ↔
      ¬ Reaches boot.loads load.machine lookup ∨
        occurrences lookup (targetBytes boot.loads lookup s) = 0 ∨
        lookup.count ≤ occurrences lookup (targetBytes boot.loads lookup s) ∧
          s.code = .noError ∧ load.machine.lookupWriting lookup false = true := by
  obtain ⟨t, n, hrun, heffect, hreported⟩ :=
    applyLookupPatch_reports boot.loads load.machine lookup patchName s
  have hcountable := submissions_countable hsubmitted
  have hcode := lookupCode_noError_iff heffect
  have hzero := heffect.eq_zero_iff
  have hcount := heffect.eq_count_iff hcountable
  rw [hrun, endState, truthful_iff_code hcountable heffect hreported, ← or_assoc, ← hzero]
  constructor
  · rintro ⟨happlied, hskipped⟩
    by_cases hall : n = lookup.count
    · exact .inr ⟨(hcount.mp hall).2, (hcode.mp (happlied.mpr hall)).2⟩
    · have hsame := hskipped fun hcode => hall (happlied.mp hcode)
      by_cases hnone : n = 0
      · exact .inl hnone
      · exact absurd hsame (heffect.changed hcountable hnone hall)
  · intro hcondition
    by_cases hnone : n = 0
    · have hcounted := lookup.counted
      have hfailed : lookupCode boot.loads load.machine lookup s n ≠ .noError := fun h => by
        have := (hcode.mp h).1
        omega
      subst hnone
      exact ⟨iff_of_false hfailed (by omega), fun _ => heffect.unchanged⟩
    · obtain ⟨hmany, hclear⟩ := hcondition.resolve_left hnone
      have hreaches : Reaches boot.loads load.machine lookup :=
        not_not.mp fun h => hnone (hzero.mpr (.inl h))
      have hall := hcount.mpr ⟨hreaches, hmany⟩
      have hdone := hcode.mpr ⟨hall, hclear⟩
      exact ⟨iff_of_true hdone hall, fun h => absurd hdone h⟩

/-- AMDFramebuffer with both occurrences of the mask. -/
def twoMasksKernel : Kernel :=
  Patches.framebufferKernel ((Patches.maskPatch 8).find ++ (Patches.maskPatch 8).find ++ [0])

theorem maskPatch_truthful :
    Truthful PatchSet.fullTable PatchSet.willingMachine (Patches.maskPatch 8)
      "forceAMD24BitOutput" twoMasksKernel
      (endState (applyLookupPatch PatchSet.fullTable PatchSet.willingMachine
        (Patches.maskPatch 8) "forceAMD24BitOutput" twoMasksKernel)) :=
  (applyLookupPatch_truthful_iff Patches.rad24Boot (Patches.framebufferLoad 65) 8
    .forceAMD24BitOutput (Patches.maskPatch 8) List.mem_cons_self "forceAMD24BitOutput"
    twoMasksKernel).mpr (.inr (.inr ⟨by decide +kernel, rfl, rfl⟩))

/-- AMDFramebuffer with a single occurrence of the mask. -/
def oneMaskKernel : Kernel :=
  Patches.framebufferKernel ((Patches.maskPatch 8).find ++ [0])

/-- The patch is reported as skipped, and the occurrence has been rewritten. -/
theorem maskPatch_half_applied :
    let t := endState (applyLookupPatch PatchSet.fullTable PatchSet.willingMachine
      (Patches.maskPatch 8) "forceAMD24BitOutput" oneMaskKernel)
    skippedLine (Patches.maskPatch 8) "forceAMD24BitOutput" .memoryIssue ∈
        newLines oneMaskKernel t ∧
      (t.images 9).bytes = (Patches.maskPatch 8).replace ++ [0] ∧
      (t.images 9).bytes ≠ (oneMaskKernel.images 9).bytes := by
  decide +kernel

end Submitted

end PatchApplicator

end Kryptonite
