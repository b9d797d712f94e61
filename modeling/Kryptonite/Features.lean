/-
Which of the announced features take effect once every kext of `kextList` has
loaded.
-/
import Kryptonite.Submissions

namespace Kryptonite

open Patches PatchSet

namespace Hook

/-- The hooks whose body calls `primeAMDLoadProperties` (`kern_hooks.cpp`). -/
def callsPrime : List Hook :=
  [.amd9500FindProjectByPartNumber, .amdSupportTestVRAM, .atiDeviceControlNotifyLinkChange]

end Hook

namespace Toggle

/-- The switches that enable a feature. -/
def features : List Toggle :=
  [.intelAGDC, .intelForceOnline, .amdCompatibility, .amdSharedUserClientVariableOutput,
    .amdAccelPrime, .amdLink, .amdFramebufferValidation, .amd24BitOutput,
    .amdIOSurfaceGuard]

/-- The hooks that carry a feature out. -/
def hooks : Toggle → List Hook
  | .intelAGDC => [.intelFBClientDoAttribute]
  | .intelForceOnline => [.intelFramebufferGetOnlineInfo]
  | .amdCompatibility =>
      [.amd9500FindProjectByPartNumber, .amdSupportTestVRAM, .amdRadeonPopulateAccelConfig]
  | .amdSharedUserClientVariableOutput =>
      [.amdAccelSharedUserClientGetTargetAndMethodForIndex,
        .ioAccelSharedUserClientGetTargetAndMethodForIndex]
  | .amdAccelPrime => Hook.callsPrime
  | .amdLink => [.atiDeviceControlNotifyLinkChange]
  | .amdFramebufferValidation => [.amdFramebufferValidateDetailedTiming]
  | _ => []

/-- The lookup patches that carry a feature out. -/
def lookups (kext : KextEntry) : Toggle → List LookupPatch
  | .amd24BitOutput => [maskPatch kext, bitsPatch kext]
  | .amdIOSurfaceGuard => [surfacePlanePatch kext]
  | _ => []

def implements (toggle : Toggle) : Submission → Prop
  | .lookup patch => patch ∈ toggle.lookups patch.kext
  | .route _ request => request.destination ∈ toggle.hooks

instance (toggle : Toggle) (call : Submission) : Decidable (toggle.implements call) := by
  cases call <;> unfold implements <;> infer_instance

end Toggle

namespace PatchSet

section Features

variable {boot : Boot} {load : KextLoad} {kext : KextEntry} {patch : Patch}
  {call : Submission}

/-- The hook that a patch routes to. -/
def routedHook : Patch → Option Hook
  | .disableIntelFramebufferAGDC => some .intelFBClientDoAttribute
  | .forceIntelFramebufferOnlineDisplays => some .intelFramebufferGetOnlineInfo
  | .bypassAMDProjectSelection => some .amd9500FindProjectByPartNumber
  | .skipAMDVRAMTest => some .amdSupportTestVRAM
  | .stabiliseAMDAccelConfig => some .amdRadeonPopulateAccelConfig
  | .relaxAMDSharedUserClientOutputSizing =>
      some .amdAccelSharedUserClientGetTargetAndMethodForIndex
  | .relaxIOAccelSharedUserClientOutputSizing =>
      some .ioAccelSharedUserClientGetTargetAndMethodForIndex
  | .validateAMDDetailedTiming => some .atiDeviceControlNotifyLinkChange
  | .relaxAMDFramebufferTimingValidation => some .amdFramebufferValidateDetailedTiming
  | .routeThunderboltEnumeration => some .thunderboltShouldSkipEnumeration
  | _ => none

theorem routedHook_of_route {index : Nat} {request : RouteRequest}
    (hcall : .route index request ∈ submissions boot load kext patch) :
    routedHook patch = some request.destination := by
  cases patch <;>
    simp only [submissions, List.mem_cons, List.not_mem_nil, or_false, reduceCtorEq,
      Submission.route.injEq] at hcall
  case disableIntelFramebufferAGDC =>
    rcases hcall with ⟨-, rfl⟩ | ⟨-, rfl⟩ <;> rfl
  all_goals
    obtain ⟨-, rfl⟩ := hcall
    rfl

/-- A feature without lookup patches is carried out by a patch that routes to
one of its hooks. -/
theorem implements_hook {toggle : Toggle} (hlookups : ∀ kext, toggle.lookups kext = [])
    (hcall : call ∈ submissions boot load kext patch) (himplements : toggle.implements call) :
    ∃ hook ∈ toggle.hooks, routedHook patch = some hook := by
  cases call with
  | lookup found =>
      unfold Toggle.implements at himplements
      simp [hlookups] at himplements
  | route index request => exact ⟨_, himplements, routedHook_of_route hcall⟩

/-- Neither patch for `kryamdshmvar` is in the dispatch table. -/
theorem dispatch_not_sharedUserClient (hpatch : patch ∈ dispatch kext) :
    ∀ hook ∈ Toggle.amdSharedUserClientVariableOutput.hooks, routedHook patch ≠ some hook := by
  revert kext patch
  decide

/-- The calls of a boot carry a feature out. -/
def TakesEffect (toggle : Toggle) (calls : List Submission) : Prop :=
  ∃ call ∈ calls, toggle.implements call

/-- An active patch whose first request carries a feature out, on a kext that
loads, makes the feature take effect. -/
theorem takesEffect_of_active {loads : List KextLoad} {s t : Kernel} {toggle : Toggle}
    (hrun : run boot loads s = .ok () t) (hstart : s.calls = [])
    (hall : ∀ kext, ∃ load ∈ loads, load.index = boot.loads.index kext)
    (patch : Patch) (kext : KextEntry) (hpatch : patch ∈ dispatch kext)
    (hactive : active boot.args patch = true)
    (hfirst : ∀ load, ∀ call ∈ (submissions boot load kext patch).head?,
      toggle.implements call) :
    TakesEffect toggle t.calls := by
  obtain ⟨load, hload, hindex⟩ := hall kext
  obtain ⟨call, hhead, hcall⟩ :=
    run_calls_first boot hrun hstart load hload kext hindex.symm patch hpatch hactive
  exact ⟨call, hcall, hfirst load call hhead⟩

/-- The routes to a priming hook belong to `kryamdcompat` and `kryamdlink`. -/
theorem prime_wanted {hook : Hook} (hhook : hook ∈ Hook.callsPrime)
    (hrouted : routedHook patch = some hook) (hwanted : wanted boot.args patch = true) :
    boot.args.shouldEnableAMDCompatibilityPatch = true ∨
      boot.args.shouldEnableAMDLinkValidationPatch = true := by
  simp only [Hook.callsPrime, List.mem_cons, List.not_mem_nil, or_false] at hhook
  cases patch <;> simp [routedHook] at hrouted <;> subst hrouted <;>
    simp_all [wanted]

/-- Where a feature that is on finds its patch: `kryamdaccelprime` in those of
`kryamdcompat` and `kryamdlink`, every other one but `kryamdshmvar` in one of
its own. -/
theorem exists_carrier {toggle : Toggle} (hamd : boot.args.isAMD = true)
    (hfeature : toggle ∈ Toggle.features) (hon : boot.args.control toggle = true)
    (hdispatched : toggle ≠ .amdSharedUserClientVariableOutput)
    (hprime : toggle = .amdAccelPrime →
      boot.args.shouldEnableAMDCompatibilityPatch = true ∨
        boot.args.shouldEnableAMDLinkValidationPatch = true) :
    ∃ patch kext, patch ∈ dispatch kext ∧ PatchSet.toggle patch = none ∧
      wanted boot.args patch = true ∧
      ∀ load, ∀ call ∈ (submissions boot load kext patch).head?,
        toggle.implements call := by
  have hboth : ∀ asked, asked = true → (boot.args.isAMD && asked) = true := by
    simp [hamd]
  cases toggle <;> try exact absurd hfeature (by decide)
  case amdSharedUserClientVariableOutput => exact absurd rfl hdispatched
  case intelAGDC =>
    refine ⟨.disableIntelFramebufferAGDC, 10, by decide, rfl, hon, ?_⟩
    rintro load _ ⟨⟩
    simp [Toggle.implements, Toggle.hooks, vendorRequest]
  case intelForceOnline =>
    refine ⟨.forceIntelFramebufferOnlineDisplays, 10, by decide, rfl, hon, ?_⟩
    rintro load _ ⟨⟩
    simp [Toggle.implements, Toggle.hooks, onlineInfoRequest]
  case amdCompatibility =>
    refine ⟨.bypassAMDProjectSelection, 7, by decide, rfl, hboth _ hon, ?_⟩
    rintro load _ ⟨⟩
    simp [Toggle.implements, Toggle.hooks, projectRequest]
  case amdAccelPrime =>
    rcases hprime rfl with hcompat | hlink
    · refine ⟨.bypassAMDProjectSelection, 7, by decide, rfl, hboth _ hcompat, ?_⟩
      rintro load _ ⟨⟩
      simp [Toggle.implements, Toggle.hooks, Hook.callsPrime, projectRequest]
    · refine ⟨.validateAMDDetailedTiming, 11, by decide, rfl, hboth _ hlink, ?_⟩
      rintro load _ ⟨⟩
      simp [Toggle.implements, Toggle.hooks, Hook.callsPrime, linkChangeRequest]
  case amdLink =>
    refine ⟨.validateAMDDetailedTiming, 11, by decide, rfl, hboth _ hon, ?_⟩
    rintro load _ ⟨⟩
    simp [Toggle.implements, Toggle.hooks, linkChangeRequest]
  case amdFramebufferValidation =>
    refine ⟨.relaxAMDFramebufferTimingValidation, 8, by decide, rfl, hboth _ hon, ?_⟩
    rintro load _ ⟨⟩
    simp [Toggle.implements, Toggle.hooks, detailedTimingRequest]
  case amd24BitOutput =>
    refine ⟨.forceAMD24BitOutput, 8, by decide, rfl, hboth _ hon, ?_⟩
    rintro load _ ⟨⟩
    exact List.mem_cons_self
  case amdIOSurfaceGuard =>
    refine ⟨.guardAMDIOSurfacePlaneInfo, 5, by decide, rfl, hboth _ hon, ?_⟩
    rintro load _ ⟨⟩
    exact List.mem_cons_self

/-- A feature that takes effect, in a boot that completes or not, is not
`kryamdshmvar`, whose patches are never dispatched, and if it is
`kryamdaccelprime` then `kryamdcompat` or `kryamdlink` is set, whose routes alone
lead to the priming code. -/
theorem dispatched_of_takesEffect {boot : Boot} {loads : List KextLoad} {s : Kernel}
    {toggle : Toggle} (hstart : s.calls = [])
    (heffect : TakesEffect toggle (Script.endState (run boot loads s)).calls) :
    toggle ≠ .amdSharedUserClientVariableOutput ∧
      (toggle = .amdAccelPrime → boot.args.shouldEnableAMDCompatibilityPatch = true ∨
        boot.args.shouldEnableAMDLinkValidationPatch = true) := by
  obtain ⟨call, hcall, himplements⟩ := heffect
  obtain ⟨load, _, kext, _, patch, hpatch, hactive, hmem⟩ := run_called boot hstart call hcall
  constructor
  · rintro rfl
    obtain ⟨hook, hhook, hrouted⟩ := implements_hook (fun _ => rfl) hmem himplements
    exact dispatch_not_sharedUserClient hpatch hook hhook hrouted
  · rintro rfl
    obtain ⟨hook, hhook, hrouted⟩ := implements_hook (fun _ => rfl) hmem himplements
    have hwanted : wanted boot.args patch = true := by
      simp only [active, Bool.and_eq_true] at hactive
      exact hactive.1.1.1
    exact prime_wanted hhook hrouted hwanted

end Features

/-- On an AMD boot that skips nothing, with a callback for every kext: an
announced feature takes effect in a boot that completes exactly if it is not
`kryamdshmvar` and not `kryamdaccelprime` without `kryamdcompat` and
`kryamdlink`.  Where it is one of these no boot, completed or stopped, makes it
take effect. -/
theorem announced_takes_effect_iff (args : BootArgs) (major minor : Nat)
    (table : LoadTable) (loads : List KextLoad) (s : Kernel) (toggle : Toggle)
    (hgpu : args.argString "krygpu" = some "AMD")
    (hprobe : args.parseBooleanBootArg "kryprobe" = false)
    (hskip : args.parseBooleanBootArg "kryskipall" = false)
    (hall : ∀ kext, ∃ load ∈ loads, load.index = table.index kext)
    (hstart : s.calls = [])
    (hfeature : toggle ∈ Toggle.features)
    (hannounced : toggle.announcement ∈ (NVRAMArgs.getPatchControls args).2) :
    let result := run (Boot.init args major minor table) loads s
    let carried := toggle ≠ .amdSharedUserClientVariableOutput ∧
      (toggle = .amdAccelPrime → args.parseBooleanBootArg "kryamdcompat" = true ∨
        args.parseBooleanBootArg "kryamdlink" = true)
    (Script.completed result = true ∧ TakesEffect toggle (Script.endState result).calls ↔
        Script.completed result = true ∧ carried) ∧
      (TakesEffect toggle (Script.endState result).calls → carried) := by
  intro result carried
  have hon : (Boot.init args major minor table).args.control toggle = true :=
    (NVRAMArgs.announcement_mem_getPatchControls args toggle).mp hannounced
  have hamd : (Boot.init args major minor table).args.isAMD = true := by
    simp [Boot.init, NVRAMArgs.init, NVRAMArgs.isAMD, NVRAMArgs.getGPU, NVRAMArgs.gpuArg,
      NVRAMArgs.amd, hgpu]
  have hprobe : (Boot.init args major minor table).args.isProbeMode = false := hprobe
  have hskip : (Boot.init args major minor table).args.shouldSkipAllPatches = false := hskip
  have hnecessary : TakesEffect toggle (Script.endState result).calls → carried :=
    dispatched_of_takesEffect hstart
  refine ⟨and_congr_right fun hcompleted => ⟨hnecessary, ?_⟩, hnecessary⟩
  rintro ⟨hdispatched, hprime⟩
  obtain ⟨patch, kext, hpatch, htoggle, hwanted, hfirst⟩ :=
    exists_carrier hamd hfeature hon hdispatched hprime
  have hactive : active (Boot.init args major minor table).args patch = true := by
    simp [active, htoggle, hwanted, hprobe, hskip]
  exact takesEffect_of_active (Script.eq_ok_of_completed hcompleted) hstart hall patch kext
    hpatch hactive hfirst

theorem accel_prime_takes_effect_with_link :
    TakesEffect .amdAccelPrime (Script.endState (run
      (Boot.init (amdLine ["kryamdaccelprime", "kryamdlink"]) 24 0 fullTable) allLoads
      freshKernel)).calls :=
  ((announced_takes_effect_iff (amdLine ["kryamdaccelprime", "kryamdlink"]) 24 0 fullTable
    allLoads freshKernel .amdAccelPrime rfl (by decide) (by decide) (by decide) rfl
    (by decide) (by decide)).1.mpr
    ⟨by decide +kernel, by decide, fun _ => Or.inr (by decide)⟩).2

/-- `kryamdshmvar` is announced, all thirteen kexts load, and nothing the boot
asks for implements it. -/
theorem shared_user_client_announced_without_effect :
    Toggle.amdSharedUserClientVariableOutput.announcement ∈
        (NVRAMArgs.getPatchControls (amdLine ["kryamdshmvar"])).2 ∧
      (∀ kext, ∃ load ∈ allLoads, load.index = fullTable.index kext) ∧
      ∃ t, run (Boot.init (amdLine ["kryamdshmvar"]) 24 0 fullTable) allLoads freshKernel =
          .ok () t ∧
        ¬ TakesEffect .amdSharedUserClientVariableOutput t.calls := by
  let result := run (Boot.init (amdLine ["kryamdshmvar"]) 24 0 fullTable) allLoads freshKernel
  have hrun : Script.completed result = true ∧
      ¬ TakesEffect .amdSharedUserClientVariableOutput (Script.endState result).calls := by
    unfold TakesEffect
    decide +kernel
  exact ⟨by decide, by decide, _, Script.eq_ok_of_completed hrun.1, hrun.2⟩

end PatchSet

end Kryptonite
