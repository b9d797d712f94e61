/-
The dispatch of patch functions at a kext load (`kern_patchset.cpp`), the
table that it amounts to, and what a boot with `kryprobe` or `kryskipall`
leaves behind.
-/
import Kryptonite.Patches
import Mathlib.Data.Fintype.Basic
import Mathlib.Tactic.FinCases

namespace Kryptonite

open Script KernelPatcher

/-- The functions of `Patches`. -/
inductive Patch where
  | unblockLegacyThunderbolt
  | disableIntelFramebufferAGDC
  | forceIntelFramebufferOnlineDisplays
  | bypassAMDProjectSelection
  | skipAMDVRAMTest
  | stabiliseAMDAccelConfig
  | relaxAMDSharedUserClientOutputSizing
  | relaxIOAccelSharedUserClientOutputSizing
  | validateAMDDetailedTiming
  | relaxAMDFramebufferTimingValidation
  | forceAMD24BitOutput
  | guardAMDIOSurfacePlaneInfo
  | bypassPCITunnelled
  | relaxGraphicsDevicePolicy
  | bypassIOPCITunnelCompatible
  | updateMuxControlNVRAMVar
  | routeThunderboltEnumeration
  | applySequoiaPatch
deriving Repr, DecidableEq

namespace PatchSet

section Source

variable (boot : Boot) (load : KextLoad)

/-- `if (!strcmp(kextList[i].id, kextList[other].id))`. -/
def ifNamed (kext other : KextEntry) (body : PatcherM Unit) : PatcherM Unit :=
  if (kextInfo kext).id = (kextInfo other).id then body else pure ()

/-- The loop body for an entry whose `loadIndex` is the callback's index. -/
def processEntry (kext : KextEntry) : PatcherM Unit := do
  syslog "patchset" ("Found " ++ (kextInfo kext).id ++ "...")
  ifNamed kext 0 do
    Patches.unblockLegacyThunderbolt boot load kext
    Patches.bypassPCITunnelled boot load kext
    Patches.applySequoiaPatch boot load kext
  ifNamed kext 1 do
    Patches.bypassPCITunnelled boot load kext
  ifNamed kext 9 do
    Patches.relaxGraphicsDevicePolicy boot load kext
  ifNamed kext 10 do
    Patches.disableIntelFramebufferAGDC boot load
    Patches.forceIntelFramebufferOnlineDisplays boot load
  ifNamed kext 11 do
    Patches.skipAMDVRAMTest boot load
    Patches.validateAMDDetailedTiming boot load
  ifNamed kext 5 do
    Patches.bypassPCITunnelled boot load kext
    Patches.stabiliseAMDAccelConfig boot load
    Patches.guardAMDIOSurfacePlaneInfo boot load kext
  ifNamed kext 7 do
    Patches.bypassAMDProjectSelection boot load
  ifNamed kext 8 do
    Patches.relaxAMDFramebufferTimingValidation boot load
    Patches.forceAMD24BitOutput boot load kext
  ifNamed kext 2 do
    Patches.updateMuxControlNVRAMVar boot load kext
  ifNamed kext 3 do
    Patches.routeThunderboltEnumeration boot load
  ifNamed kext 4 do
    Patches.bypassIOPCITunnelCompatible boot load kext

def processKext : PatcherM Unit := do
  (List.finRange 13).forM fun kext => do
    if boot.loads.index kext = load.index then
      processEntry boot load kext
  clearError

/-- The callbacks of a boot, one after another. -/
def run (loads : List KextLoad) : PatcherM Unit :=
  loads.forM (processKext boot)

end Source

section Table

variable (boot : Boot) (load : KextLoad) (kext : KextEntry)

def perform : Patch → PatcherM Unit
  | .unblockLegacyThunderbolt => Patches.unblockLegacyThunderbolt boot load kext
  | .disableIntelFramebufferAGDC => Patches.disableIntelFramebufferAGDC boot load
  | .forceIntelFramebufferOnlineDisplays =>
      Patches.forceIntelFramebufferOnlineDisplays boot load
  | .bypassAMDProjectSelection => Patches.bypassAMDProjectSelection boot load
  | .skipAMDVRAMTest => Patches.skipAMDVRAMTest boot load
  | .stabiliseAMDAccelConfig => Patches.stabiliseAMDAccelConfig boot load
  | .relaxAMDSharedUserClientOutputSizing =>
      Patches.relaxAMDSharedUserClientOutputSizing boot load
  | .relaxIOAccelSharedUserClientOutputSizing =>
      Patches.relaxIOAccelSharedUserClientOutputSizing boot load
  | .validateAMDDetailedTiming => Patches.validateAMDDetailedTiming boot load
  | .relaxAMDFramebufferTimingValidation =>
      Patches.relaxAMDFramebufferTimingValidation boot load
  | .forceAMD24BitOutput => Patches.forceAMD24BitOutput boot load kext
  | .guardAMDIOSurfacePlaneInfo => Patches.guardAMDIOSurfacePlaneInfo boot load kext
  | .bypassPCITunnelled => Patches.bypassPCITunnelled boot load kext
  | .relaxGraphicsDevicePolicy => Patches.relaxGraphicsDevicePolicy boot load kext
  | .bypassIOPCITunnelCompatible => Patches.bypassIOPCITunnelCompatible boot load kext
  | .updateMuxControlNVRAMVar => Patches.updateMuxControlNVRAMVar boot load kext
  | .routeThunderboltEnumeration => Patches.routeThunderboltEnumeration boot load
  | .applySequoiaPatch => Patches.applySequoiaPatch boot load kext

/-- Which patches an entry of `kextList` gets, in order. -/
def dispatch : KextEntry → List Patch
  | 0 => [.unblockLegacyThunderbolt, .bypassPCITunnelled, .applySequoiaPatch]
  | 1 => [.bypassPCITunnelled]
  | 2 => [.updateMuxControlNVRAMVar]
  | 3 => [.routeThunderboltEnumeration]
  | 4 => [.bypassIOPCITunnelCompatible]
  | 5 => [.bypassPCITunnelled, .stabiliseAMDAccelConfig, .guardAMDIOSurfacePlaneInfo]
  | 7 => [.bypassAMDProjectSelection]
  | 8 => [.relaxAMDFramebufferTimingValidation, .forceAMD24BitOutput]
  | 9 => [.relaxGraphicsDevicePolicy]
  | 10 => [.disableIntelFramebufferAGDC, .forceIntelFramebufferOnlineDisplays]
  | 11 => [.skipAMDVRAMTest, .validateAMDDetailedTiming]
  | _ => []

theorem ifNamed_eq (other : KextEntry) (body : PatcherM Unit) :
    ifNamed kext other body = if kext = other then body else pure () := by
  have hsame : (kextInfo kext).id = (kextInfo other).id ↔ kext = other :=
    ⟨kextInfo_id_injective kext other, fun heq => heq ▸ rfl⟩
  simp only [ifNamed, hsame]

/-- The chain of `strcmp` tests is the table. -/
theorem processEntry_eq :
    processEntry boot load kext =
      (syslog "patchset" ("Found " ++ (kextInfo kext).id ++ "...") >>= fun _ =>
        (dispatch kext).forM (perform boot load kext)) := by
  unfold processEntry
  simp only [ifNamed_eq]
  fin_cases kext <;> simp [dispatch, perform]

end Table

section Guards

variable {α β : Type}

/-- `m` writes to the log and goes on as `n`. -/
def Logged (m n : PatcherM α) : Prop :=
  ∀ s, ∃ lines, m s = n { s with log := s.log ++ lines }

theorem Logged.refl (m : PatcherM α) : Logged m m :=
  fun s => ⟨[], by simp⟩

theorem Logged.syslog (origin text : String) : Logged (syslog origin text) (pure ()) :=
  fun _ => ⟨[origin ++ ": " ++ text], rfl⟩

theorem Logged.bind {m : PatcherM α} {f : α → PatcherM β} {n : PatcherM β} {a : α}
    (hm : Logged m (pure a)) (hf : Logged (f a) n) : Logged (m >>= f) n := by
  intro s
  obtain ⟨first, hm⟩ := hm s
  obtain ⟨second, hf⟩ := hf { s with log := s.log ++ first }
  refine ⟨first ++ second, ?_⟩
  rw [bind_of_ok hm, ← List.append_assoc]
  exact hf

theorem Logged.forM {γ : Type} {xs : List γ} {f : γ → PatcherM Unit}
    (h : ∀ x ∈ xs, Logged (f x) (pure ())) : Logged (xs.forM f) (pure ()) := by
  induction xs with
  | nil => exact Logged.refl _
  | cons x xs ih =>
      exact (h x (by simp)).bind (ih fun y hy => h y (by simp [hy]))

open Patches

variable (args : NVRAMArgs) (patchName : String)

theorem shouldSkipPatch_logged (skipToggle : Bool) :
    Logged (shouldSkipPatch args patchName skipToggle)
      (pure (args.isProbeMode || args.shouldSkipAllPatches || skipToggle)) := by
  unfold shouldSkipPatch
  cases args.isProbeMode with
  | true => exact (Logged.syslog _ _).bind (Logged.refl _)
  | false =>
      cases args.shouldSkipAllPatches with
      | true => exact (Logged.syslog _ _).bind (Logged.refl _)
      | false =>
          cases skipToggle with
          | true => exact (Logged.syslog _ _).bind (Logged.refl _)
          | false => exact Logged.refl _

theorem shouldSkipFeature_logged (asked : Bool) :
    Logged (shouldSkipFeature args patchName asked)
      (pure (!asked || args.isProbeMode || args.shouldSkipAllPatches)) := by
  unfold shouldSkipFeature
  cases asked with
  | false => exact Logged.refl _
  | true =>
      cases args.isProbeMode with
      | true => exact (Logged.syslog _ _).bind (Logged.refl _)
      | false =>
          cases args.shouldSkipAllPatches with
          | true => exact (Logged.syslog _ _).bind (Logged.refl _)
          | false => exact Logged.refl _

end Guards

section Plan

open Patches

/-- The switch that turns a patch off, where it has one. -/
def toggle : Patch → Option Toggle
  | .unblockLegacyThunderbolt => some .skipAGDC
  | .bypassPCITunnelled => some .skipIOGFX
  | .relaxGraphicsDevicePolicy => some .skipAGDP
  | .bypassIOPCITunnelCompatible => some .skipIOPCI
  | .updateMuxControlNVRAMVar => some .skipMux
  | .routeThunderboltEnumeration => some .skipTBRoute
  | .applySequoiaPatch => some .skipSequoia
  | _ => none

/-- What else a patch asks of the boot arguments. -/
def wanted (args : NVRAMArgs) : Patch → Bool
  | .unblockLegacyThunderbolt => args.isAMD
  | .disableIntelFramebufferAGDC => args.shouldEnableIntelAGDCDisabler
  | .forceIntelFramebufferOnlineDisplays => args.shouldEnableIntelForceOnline
  | .bypassAMDProjectSelection | .skipAMDVRAMTest | .stabiliseAMDAccelConfig =>
      args.isAMD && args.shouldEnableAMDCompatibilityPatch
  | .relaxAMDSharedUserClientOutputSizing | .relaxIOAccelSharedUserClientOutputSizing =>
      args.isAMD && args.shouldEnableAMDSharedUserClientVariableOutput
  | .validateAMDDetailedTiming => args.isAMD && args.shouldEnableAMDLinkValidationPatch
  | .relaxAMDFramebufferTimingValidation =>
      args.isAMD && args.shouldEnableAMDFramebufferValidationPatch
  | .forceAMD24BitOutput => args.isAMD && args.shouldEnableAMD24BitOutputClamp
  | .guardAMDIOSurfacePlaneInfo => args.isAMD && args.shouldEnableAMDIOSurfaceGuard
  | .bypassPCITunnelled | .relaxGraphicsDevicePolicy => args.isNVDA || args.isAMD
  | .bypassIOPCITunnelCompatible | .updateMuxControlNVRAMVar => true
  | .routeThunderboltEnumeration => args.skipThunderboltEnum
  | .applySequoiaPatch => args.shouldForceSequoia

/-- The guards of a patch let it through. -/
def active (args : NVRAMArgs) (patch : Patch) : Bool :=
  wanted args patch && !args.isProbeMode && !args.shouldSkipAllPatches &&
    !(toggle patch).any args.control

variable (boot : Boot) (load : KextLoad) (kext : KextEntry)

/-- What a patch does behind its guards. -/
def body : Patch → PatcherM Unit
  | .unblockLegacyThunderbolt =>
      applyLookup boot load (legacyThunderboltPatch boot kext) "unblockLegacyThunderbolt"
  | .disableIntelFramebufferAGDC => do
      let source ← applyRoute load vendorRequest "disableIntelFramebufferAGDC-vendor"
      let original ← originalOf .intelFBClientDoAttribute
      unless source ≠ 0 ∧ original ≠ 0 do
        clearError
        applyOnlyRoute load legacyRequest "disableIntelFramebufferAGDC-legacy"
  | .forceIntelFramebufferOnlineDisplays =>
      applyOnlyRoute load onlineInfoRequest "forceIntelFramebufferOnlineDisplays"
  | .bypassAMDProjectSelection =>
      applyOnlyRoute load projectRequest "bypassAMDProjectSelection"
  | .skipAMDVRAMTest => applyOnlyRoute load testVRAMRequest "skipAMDVRAMTest"
  | .stabiliseAMDAccelConfig =>
      applyOnlyRoute load accelConfigRequest "stabiliseAMDAccelConfig"
  | .relaxAMDSharedUserClientOutputSizing =>
      applyOnlyRoute load amdSharedUserClientRequest
        "relaxAMDSharedUserClientOutputSizing"
  | .relaxIOAccelSharedUserClientOutputSizing =>
      applyOnlyRoute load ioAccelSharedUserClientRequest
        "relaxIOAccelSharedUserClientOutputSizing"
  | .validateAMDDetailedTiming =>
      applyOnlyRoute load linkChangeRequest "validateAMDDetailedTiming"
  | .relaxAMDFramebufferTimingValidation =>
      applyOnlyRoute load detailedTimingRequest "relaxAMDFramebufferTimingValidation"
  | .forceAMD24BitOutput => do
      normaliseBitsPerComponent load
      applyLookup boot load (maskPatch kext) "forceAMD24BitOutput"
      applyLookup boot load (bitsPatch kext) "forceAMD24BitOutput-bits"
  | .guardAMDIOSurfacePlaneInfo =>
      applyLookup boot load (surfacePlanePatch kext) "guardAMDIOSurfacePlaneInfo"
  | .bypassPCITunnelled =>
      applyLookup boot load (pciTunnelledPatch kext) "bypassPCITunnelled"
  | .relaxGraphicsDevicePolicy => do
      applyLookup boot load (vitPatch kext) "relaxGraphicsDevicePolicy-vit9696"
      applyLookup boot load (pikPatch kext) "relaxGraphicsDevicePolicy-pikera"
  | .bypassIOPCITunnelCompatible =>
      applyLookup boot load (ioPCITunnelPatch boot kext) "bypassIOPCITunnelCompatible"
  | .updateMuxControlNVRAMVar =>
      applyLookup boot load (muxControlPatch kext) "updateMuxControlNVRAMVar"
  | .routeThunderboltEnumeration =>
      applyOnlyRoute load skipEnumerationRequest "routeThunderboltEnumeration"
  | .applySequoiaPatch => applyLookup boot load (sequoiaPatch kext) "applySequoiaPatch"

theorem unless_logged {guard : PatcherM Bool} {skip : Bool} {m n : PatcherM Unit}
    (hguard : Logged guard (pure skip)) (hm : skip = false → Logged m n) :
    Logged (guard >>= fun skip => if skip then pure () else m)
      (if skip then pure () else n) := by
  cases skip with
  | true => exact hguard.bind (Logged.refl _)
  | false => exact hguard.bind (hm rfl)

/-- A patch guarded by the feature sequence. -/
theorem feature_logged (patch : Patch) (htoggle : toggle patch = none)
    (patchName : String) (m : PatcherM Unit) :
    Logged (shouldSkipFeature boot.args patchName (wanted boot.args patch) >>=
        fun skip => if skip then pure () else m)
      (if active boot.args patch then m else pure ()) := by
  have hguard := shouldSkipFeature_logged boot.args patchName (wanted boot.args patch)
  have hactive : active boot.args patch = !(!wanted boot.args patch ||
      boot.args.isProbeMode || boot.args.shouldSkipAllPatches) := by
    simp [active, htoggle]
  have hrun := unless_logged hguard fun _ => Logged.refl m
  rw [hactive]
  revert hrun
  cases (!wanted boot.args patch || boot.args.isProbeMode ||
    boot.args.shouldSkipAllPatches) <;> exact id

/-- A patch guarded by `shouldSkipPatch`, with the rest of its conditions
checked behind the guard. -/
theorem skippable_logged (patch : Patch) {own : Toggle}
    (htoggle : toggle patch = some own) (patchName : String) {m n : PatcherM Unit}
    (hm : Logged m (if wanted boot.args patch then n else pure ())) :
    Logged (shouldSkipPatch boot.args patchName (boot.args.control own) >>=
        fun skip => if skip then pure () else m)
      (if active boot.args patch then n else pure ()) := by
  have hguard := shouldSkipPatch_logged boot.args patchName (boot.args.control own)
  have hactive : active boot.args patch = (wanted boot.args patch &&
      !(boot.args.isProbeMode || boot.args.shouldSkipAllPatches ||
        boot.args.control own)) := by
    simp [active, htoggle, Bool.and_assoc]
  have hrun := unless_logged hguard fun _ => hm
  rw [hactive]
  revert hrun
  cases (boot.args.isProbeMode || boot.args.shouldSkipAllPatches ||
    boot.args.control own) <;> cases wanted boot.args patch <;> exact id

/-- The same with those conditions checked before the guard. -/
theorem checked_logged (patch : Patch) {own : Toggle}
    (htoggle : toggle patch = some own) (patchName : String) {m n : PatcherM Unit}
    (hm : Logged m n) :
    Logged (if wanted boot.args patch then
          shouldSkipPatch boot.args patchName (boot.args.control own) >>=
            fun skip => if skip then pure () else m
        else pure ())
      (if active boot.args patch then n else pure ()) := by
  cases hwanted : wanted boot.args patch with
  | false =>
      have hactive : active boot.args patch = false := by simp [active, hwanted]
      rw [hactive]
      exact Logged.refl _
  | true =>
      apply skippable_logged boot patch htoggle patchName
      rw [hwanted]
      exact hm

theorem isOlderKernel_logged :
    Logged (Compatibility.isOlderKernel boot) (pure (Compatibility.olderKernel boot)) := by
  unfold Compatibility.isOlderKernel
  exact (Logged.syslog _ _).bind (Logged.refl _)

theorem isSequoiaForced_logged :
    Logged (Compatibility.isSequoiaForced boot) (pure boot.args.shouldForceSequoia) := by
  unfold Compatibility.isSequoiaForced
  exact (Logged.syslog _ _).bind (Logged.refl _)

/-- A patch function is its body behind its guards, up to what it logs. -/
theorem perform_logged (patch : Patch) :
    Logged (perform boot load kext patch)
      (if active boot.args patch then body boot load kext patch else pure ()) := by
  cases patch with
  | unblockLegacyThunderbolt =>
      apply checked_logged boot .unblockLegacyThunderbolt rfl
      apply (isOlderKernel_logged boot).bind
      split
      · exact (Logged.syslog _ _).bind (Logged.refl _)
      · exact Logged.refl _
  | bypassPCITunnelled =>
      exact checked_logged boot .bypassPCITunnelled rfl _ (Logged.refl _)
  | relaxGraphicsDevicePolicy =>
      exact checked_logged boot .relaxGraphicsDevicePolicy rfl _ (Logged.refl _)
  | bypassIOPCITunnelCompatible =>
      exact skippable_logged boot .bypassIOPCITunnelCompatible rfl _ (Logged.refl _)
  | updateMuxControlNVRAMVar =>
      exact skippable_logged boot .updateMuxControlNVRAMVar rfl _ (Logged.refl _)
  | routeThunderboltEnumeration =>
      apply skippable_logged boot .routeThunderboltEnumeration rfl
      change Logged (if boot.args.skipThunderboltEnum then _ else _)
        (if boot.args.skipThunderboltEnum then _ else _)
      split
      · exact Logged.refl _
      · exact Logged.syslog _ _
  | applySequoiaPatch =>
      apply skippable_logged boot .applySequoiaPatch rfl
      apply (isSequoiaForced_logged boot).bind
      change Logged (if boot.args.shouldForceSequoia then _ else _)
        (if boot.args.shouldForceSequoia then _ else _)
      split
      · exact (Logged.syslog _ _).bind (Logged.refl _)
      · exact Logged.syslog _ _
  | disableIntelFramebufferAGDC =>
      exact feature_logged boot .disableIntelFramebufferAGDC rfl _ _
  | forceIntelFramebufferOnlineDisplays =>
      exact feature_logged boot .forceIntelFramebufferOnlineDisplays rfl _ _
  | bypassAMDProjectSelection =>
      exact feature_logged boot .bypassAMDProjectSelection rfl _ _
  | skipAMDVRAMTest => exact feature_logged boot .skipAMDVRAMTest rfl _ _
  | stabiliseAMDAccelConfig => exact feature_logged boot .stabiliseAMDAccelConfig rfl _ _
  | relaxAMDSharedUserClientOutputSizing =>
      exact feature_logged boot .relaxAMDSharedUserClientOutputSizing rfl _ _
  | relaxIOAccelSharedUserClientOutputSizing =>
      exact feature_logged boot .relaxIOAccelSharedUserClientOutputSizing rfl _ _
  | validateAMDDetailedTiming =>
      exact feature_logged boot .validateAMDDetailedTiming rfl _ _
  | relaxAMDFramebufferTimingValidation =>
      exact feature_logged boot .relaxAMDFramebufferTimingValidation rfl _ _
  | forceAMD24BitOutput => exact feature_logged boot .forceAMD24BitOutput rfl _ _
  | guardAMDIOSurfacePlaneInfo =>
      exact feature_logged boot .guardAMDIOSurfacePlaneInfo rfl _ _

end Plan

section Disabled

/-- Nothing that a patch can reach differs between the two states. -/
def Untouched (s t : Kernel) : Prop :=
  t.images = s.images ∧ t.routes = s.routes ∧ t.orgs = s.orgs

variable {boot : Boot}
  (hdisabled : boot.args.isProbeMode = true ∨ boot.args.shouldSkipAllPatches = true)

include hdisabled

theorem active_disabled (patch : Patch) : active boot.args patch = false := by
  rcases hdisabled with hprobe | hskip
  · simp [active, hprobe]
  · simp [active, hskip]

theorem processEntry_disabled (load : KextLoad) (kext : KextEntry) :
    Logged (processEntry boot load kext) (pure ()) := by
  rw [processEntry_eq]
  apply (Logged.syslog _ _).bind
  apply Logged.forM
  intro patch _
  have hperform := perform_logged boot load kext patch
  rw [active_disabled hdisabled patch] at hperform
  exact hperform

/-- One callback: whatever the loop matches, only the log and the error code
change. -/
theorem processKext_disabled (load : KextLoad) (s : Kernel) :
    Triple (Untouched s) (processKext boot load) (fun _ => Untouched s)
      (fun _ _ => False) := by
  have hloop : Logged ((List.finRange 13).forM fun kext =>
      if boot.loads.index kext = load.index then processEntry boot load kext
      else pure ()) (pure ()) := by
    apply Logged.forM
    intro kext _
    split
    · exact processEntry_disabled hdisabled load kext
    · exact Logged.refl _
  have hfirst : Triple (Untouched s) ((List.finRange 13).forM fun kext =>
      if boot.loads.index kext = load.index then processEntry boot load kext
      else pure ()) (fun _ => Untouched s) (fun _ _ => False) := by
    intro t huntouched
    obtain ⟨lines, hrun⟩ := hloop t
    rw [hrun]
    exact huntouched
  exact hfirst.bind fun _ => Triple.modify fun _ huntouched => huntouched

end Disabled

/-- With `kryprobe` or `kryskipall` set, every sequence of kext loads returns
and leaves every image, every route and every original pointer as they were. -/
theorem run_disabled_untouched (args : BootArgs) (major minor : Nat) (table : LoadTable)
    (hdisabled : args.parseBooleanBootArg "kryprobe" = true ∨
      args.parseBooleanBootArg "kryskipall" = true)
    (loads : List KextLoad) (s : Kernel) :
    ∃ t, run (Boot.init args major minor table) loads s = .ok () t ∧
      t.images = s.images ∧ t.routes = s.routes ∧ t.orgs = s.orgs := by
  have hargs : (Boot.init args major minor table).args.isProbeMode = true ∨
      (Boot.init args major minor table).args.shouldSkipAllPatches = true := hdisabled
  have htriple : Triple (Untouched s) (run (Boot.init args major minor table) loads)
      (fun _ => Untouched s) (fun _ _ => False) :=
    Triple.forM (fun _ => Untouched s) fun _ load _ _ =>
      processKext_disabled hargs load s
  have hend := htriple s ⟨rfl, rfl, rfl⟩
  cases hrun : run (Boot.init args major minor table) loads s with
  | ok _ t =>
      rw [hrun] at hend
      exact ⟨t, rfl, hend⟩
  | error e t =>
      rw [hrun] at hend
      exact hend.elim

section Sample

/-- Every symbol resolves, every write succeeds and every route is taken. -/
def willingMachine : Machine where
  symbols := fun _ => some fun _ => 0x1000
  lookupWriting := fun _ _ => true
  wordWriting := fun _ => true
  coverage := fun _ _ => []
  fate := fun _ _ => .routed true 0x9000 []
  hookAddress := fun _ => 0x8000

/-- Every kext of `kextList` is loaded. -/
def fullTable : LoadTable where
  index := fun kext => kext + 1
  distinct := fun _ _ hindex _ => Fin.ext (Nat.succ.inj hindex)

def loadOf (kext : KextEntry) : KextLoad := ⟨kext + 1, 0x1000, 0x100, willingMachine⟩

/-- All callbacks, in the order of `kextList`. -/
def allLoads : List KextLoad := (List.finRange 13).map loadOf

def freshKernel : Kernel where
  code := .noError
  images := fun _ => ⟨0x1000, List.replicate 64 0⟩
  routes := []
  orgs := fun _ => 0
  calls := []
  log := []

/-- `krygpu=AMD` and the switches `on`. -/
def amdLine (on : List String) : BootArgs where
  argInt := fun name => if name ∈ on then some 1 else none
  argString := fun _ => some "AMD"
  argFlag := fun name => name ∈ on

end Sample

theorem probe_boot_untouched :
    ∃ t, run (Boot.init (amdLine ["kryprobe", "kryamdcompat"]) 24 0 fullTable) allLoads
        freshKernel = .ok () t ∧
      t.images = freshKernel.images ∧ t.routes = freshKernel.routes ∧
      t.orgs = freshKernel.orgs :=
  run_disabled_untouched (amdLine ["kryprobe", "kryamdcompat"]) 24 0 fullTable
    (Or.inl (by decide)) allLoads freshKernel

end PatchSet

end Kryptonite
