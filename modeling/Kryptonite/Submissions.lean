/-
What a boot asks of the patcher, whether it completes or stops.  `Submits`
composes along the program; the run of a boot is read off the dispatch table,
and from it which of the announced features take effect.
-/
import Kryptonite.LookupLoops
import Kryptonite.PatchSet

namespace Kryptonite

open Script KernelPatcher

variable {α β γ : Type}

/-- A completed run of `m` asks the patcher for a list satisfying `asks`, and a
run that stops for a first part of such a list. -/
structure Submits (asks : List Submission → Prop) (m : PatcherM α) : Prop where
  possible : ∃ new, asks new
  completes : ∀ s a t, m s = .ok a t → ∃ new, t.calls = s.calls ++ new ∧ asks new
  stops : ∀ s halt t, m s = .error halt t →
    ∃ new all, t.calls = s.calls ++ new ∧ new <+: all ∧ asks all

namespace Submits

theorem weaken {asks asks' : List Submission → Prop} {m : PatcherM α}
    (h : Submits asks m) (himp : ∀ new, asks new → asks' new) : Submits asks' m where
  possible := h.possible.imp himp
  completes := by
    intro s a t hrun
    obtain ⟨new, hcalls, hnew⟩ := h.completes s a t hrun
    exact ⟨new, hcalls, himp new hnew⟩
  stops := by
    intro s halt t hrun
    obtain ⟨new, all, hcalls, hleads, hall⟩ := h.stops s halt t hrun
    exact ⟨new, all, hcalls, hleads, himp all hall⟩

/-- A computation that goes through and leaves the calls as they are. -/
theorem quiet {m : PatcherM α}
    (h : ∀ s, ∃ a t, m s = .ok a t ∧ t.calls = s.calls) : Submits (· = []) m where
  possible := ⟨[], rfl⟩
  completes := by
    intro s a t hrun
    obtain ⟨b, u, hm, hcalls⟩ := h s
    rw [hm] at hrun
    obtain ⟨-, rfl⟩ := EStateM.Result.ok.inj hrun
    exact ⟨[], by rw [hcalls, List.append_nil], rfl⟩
  stops := by
    intro s halt t hrun
    obtain ⟨b, u, hm, -⟩ := h s
    rw [hm] at hrun
    cases hrun

theorem pure (a : α) : Submits (· = []) (Pure.pure a : PatcherM α) :=
  quiet fun s => ⟨a, s, rfl, rfl⟩

theorem throw (halt : Halt) : Submits (· = []) (throw halt : PatcherM α) where
  possible := ⟨[], rfl⟩
  completes := by
    rintro s a t ⟨⟩
  stops := by
    rintro s _ t ⟨⟩
    exact ⟨[], [], (List.append_nil _).symm, List.prefix_rfl, rfl⟩

theorem modify {f : Kernel → Kernel} (h : ∀ s, (f s).calls = s.calls) :
    Submits (· = []) (modify f : PatcherM Unit) :=
  quiet fun s => ⟨(), f s, rfl, h s⟩

theorem read (part : Kernel → α) :
    Submits (· = []) (do return part (← get) : PatcherM α) :=
  quiet fun s => ⟨part s, s, rfl, rfl⟩

theorem submit (call : Submission) : Submits (· = [call]) (submit call) where
  possible := ⟨[call], rfl⟩
  completes := by
    rintro s _ t ⟨⟩
    exact ⟨[call], rfl, rfl⟩
  stops := by
    rintro s _ t ⟨⟩

theorem bind [Nonempty α] {first second : List Submission → Prop} {m : PatcherM α}
    {f : α → PatcherM β} (hm : Submits first m) (hf : ∀ a, Submits second (f a)) :
    Submits (fun new => ∃ xs ys, new = xs ++ ys ∧ first xs ∧ second ys) (m >>= f) where
  possible := by
    obtain ⟨xs, hxs⟩ := hm.possible
    obtain ⟨ys, hys⟩ := (hf (Classical.arbitrary α)).possible
    exact ⟨xs ++ ys, xs, ys, rfl, hxs, hys⟩
  completes := by
    intro s b t hrun
    obtain ⟨a, u, hfirst, hsecond⟩ := bind_eq_ok hrun
    obtain ⟨xs, hxs, hfirst⟩ := hm.completes s a u hfirst
    obtain ⟨ys, hys, hsecond⟩ := (hf a).completes u b t hsecond
    exact ⟨xs ++ ys, by rw [hys, hxs, List.append_assoc], xs, ys, rfl, hfirst, hsecond⟩
  stops := by
    intro s halt t hrun
    rcases bind_eq_error hrun with hstopped | ⟨a, u, hfirst, hstopped⟩
    · -- what the second part would have asked for comes behind
      obtain ⟨new, xs, hcalls, hleads, hxs⟩ := hm.stops s halt t hstopped
      obtain ⟨ys, hys⟩ := (hf (Classical.arbitrary α)).possible
      exact ⟨new, xs ++ ys, hcalls, hleads.trans (List.prefix_append xs ys),
        xs, ys, rfl, hxs, hys⟩
    · obtain ⟨xs, hxs, hfirst⟩ := hm.completes s a u hfirst
      obtain ⟨new, ys, hcalls, hleads, hys⟩ := (hf a).stops u halt t hstopped
      exact ⟨xs ++ new, xs ++ ys, by rw [hcalls, hxs, List.append_assoc],
        (List.prefix_append_right_inj xs).mpr hleads, xs, ys, rfl, hfirst, hys⟩

/-- A first part that asks for nothing. -/
theorem quiet_bind [Nonempty α] {asks : List Submission → Prop} {m : PatcherM α}
    {f : α → PatcherM β} (hm : Submits (· = []) m) (hf : ∀ a, Submits asks (f a)) :
    Submits asks (m >>= f) := by
  apply (hm.bind hf).weaken
  rintro new ⟨xs, ys, rfl, rfl, hys⟩
  exact hys

/-- A second part that asks for nothing. -/
theorem bind_quiet [Nonempty α] {asks : List Submission → Prop} {m : PatcherM α}
    {f : α → PatcherM β} (hm : Submits asks m) (hf : ∀ a, Submits (· = []) (f a)) :
    Submits asks (m >>= f) := by
  apply (hm.bind hf).weaken
  rintro new ⟨xs, ys, rfl, hxs, rfl⟩
  rwa [List.append_nil]

theorem ite {c : Prop} [Decidable c] {asks : List Submission → Prop}
    {m n : PatcherM α} (hthen : Submits asks m) (helse : Submits asks n) :
    Submits asks (if c then m else n) := by
  split
  · exact hthen
  · exact helse

/-- The calls of a loop: one part for each element. -/
def Each (asks : γ → List Submission → Prop) (xs : List γ) (new : List Submission) :
    Prop :=
  ∃ parts, new = List.flatten parts ∧ List.Forall₂ asks xs parts

theorem forM {asks : γ → List Submission → Prop} {xs : List γ}
    {f : γ → PatcherM Unit} (h : ∀ x ∈ xs, Submits (asks x) (f x)) :
    Submits (Each asks xs) (xs.forM f) := by
  induction xs with
  | nil =>
      apply (pure ()).weaken
      rintro _ rfl
      exact ⟨[], rfl, .nil⟩
  | cons x xs ih =>
      apply ((h x (by simp)).bind fun _ => ih fun y hy => h y (by simp [hy])).weaken
      rintro _ ⟨part, rest, rfl, hpart, parts, rfl, hparts⟩
      exact ⟨part :: parts, rfl, .cons hpart hparts⟩

theorem forM_quiet {xs : List γ} {f : γ → PatcherM Unit}
    (h : ∀ x ∈ xs, Submits (· = []) (f x)) : Submits (· = []) (xs.forM f) := by
  induction xs with
  | nil => exact pure ()
  | cons x xs ih =>
      exact (h x (by simp)).quiet_bind fun _ => ih fun y hy => h y (by simp [hy])

theorem logged {asks : List Submission → Prop} {m n : PatcherM α}
    (hlogged : PatchSet.Logged m n) (h : Submits asks n) : Submits asks m where
  possible := h.possible
  completes := by
    intro s a t hrun
    obtain ⟨lines, hm⟩ := hlogged s
    rw [hm] at hrun
    obtain ⟨new, hcalls, hnew⟩ := h.completes _ a t hrun
    exact ⟨new, hcalls, hnew⟩
  stops := by
    intro s halt t hrun
    obtain ⟨lines, hm⟩ := hlogged s
    rw [hm] at hrun
    obtain ⟨new, all, hcalls, hleads, hall⟩ := h.stops _ halt t hrun
    exact ⟨new, all, hcalls, hleads, hall⟩

/-- Every call of a run, wherever it ends, is in a list that `asks` allows. -/
theorem endState {asks : List Submission → Prop} {m : PatcherM α} (h : Submits asks m)
    (s : Kernel) :
    ∃ new all, (endState (m s)).calls = s.calls ++ new ∧ new <+: all ∧ asks all := by
  cases hrun : m s with
  | ok a t =>
      obtain ⟨new, hcalls, hnew⟩ := h.completes s a t hrun
      exact ⟨new, new, hcalls, List.prefix_rfl, hnew⟩
  | error halt t => exact h.stops s halt t hrun

end Submits

theorem Submits.Each.mem {asks : γ → List Submission → Prop} {xs : List γ}
    {new : List Submission} (h : Each asks xs new) {call : Submission} (hcall : call ∈ new) :
    ∃ x ∈ xs, ∃ part, asks x part ∧ call ∈ part := by
  obtain ⟨parts, rfl, hparts⟩ := h
  induction hparts with
  | nil => simp at hcall
  | cons hpart _ ih =>
      rw [List.flatten_cons, List.mem_append] at hcall
      rcases hcall with hcall | hcall
      · exact ⟨_, by simp, _, hpart, hcall⟩
      · obtain ⟨x, hx, part, hasks, hmem⟩ := ih hcall
        exact ⟨x, by simp [hx], part, hasks, hmem⟩

theorem Submits.Each.part {asks : γ → List Submission → Prop} {xs : List γ}
    {new : List Submission} (h : Each asks xs new) {x : γ} (hx : x ∈ xs) :
    ∃ part, asks x part ∧ ∀ call ∈ part, call ∈ new := by
  obtain ⟨parts, rfl, hparts⟩ := h
  induction hparts with
  | nil => simp at hx
  | cons hpart _ ih =>
      rcases List.mem_cons.mp hx with rfl | hx
      · exact ⟨_, hpart, fun call hcall => by simp [hcall]⟩
      · obtain ⟨part, hasks, hsub⟩ := ih hx
        exact ⟨part, hasks, fun call hcall => by
          rw [List.flatten_cons, List.mem_append]
          exact Or.inr (hsub call hcall)⟩

section Patcher

variable (table : LoadTable) (machine : Machine)

theorem syslog_submits (origin text : String) : Submits (· = []) (syslog origin text) :=
  Submits.modify fun _ => rfl

theorem setError_submits (code : Error) : Submits (· = []) (setError code) :=
  Submits.modify fun _ => rfl

theorem updateImage_submits (index : Nat) (f : Image → Image) :
    Submits (· = []) (updateImage index f) :=
  Submits.modify fun _ => rfl

theorem setOrg_submits (org : Option Hook) (trampoline : Nat) :
    Submits (· = []) (setOrg org trampoline) :=
  Submits.modify fun _ => rfl

theorem solveSymbol_submits (id : Nat) (symbol : String) :
    Submits (· = []) (solveSymbol machine id symbol) := by
  unfold solveSymbol
  split
  · exact (syslog_submits _ _).quiet_bind fun _ =>
      (setError_submits _).quiet_bind fun _ => Submits.pure _
  · exact Submits.ite ((setError_submits _).quiet_bind fun _ => Submits.pure _)
      (Submits.pure _)

theorem solveSymbolInRange_submits (id : Nat) (symbol : String) (start size : Nat)
    (crash : Bool) :
    Submits (· = []) (solveSymbolInRange machine id symbol start size crash) := by
  unfold solveSymbolInRange
  apply (solveSymbol_submits machine id symbol).quiet_bind
  intro address
  apply Submits.ite (Submits.pure _)
  apply Submits.ite (Submits.pure _)
  apply (setError_submits _).quiet_bind
  intro _
  exact Submits.ite (Submits.throw _) (Submits.pure _)

theorem writeRoute_submits (id : Nat) (request : RouteRequest) (trampoline : Nat)
    (stores : List (Nat × List UInt8)) :
    Submits (· = []) (writeRoute id request trampoline stores) := by
  apply (setOrg_submits _ _).quiet_bind
  intro _
  apply (Submits.forM_quiet fun _ _ => updateImage_submits _ _).quiet_bind
  intro _
  exact Submits.modify fun _ => rfl

theorem routeFunctionInternal_submits (id : Nat) (request : RouteRequest) :
    Submits (· = []) (routeFunctionInternal machine id request) := by
  have hfail : ∀ trampoline text code, Submits (· = []) (do
      setOrg request.org trampoline
      syslog "patcher" text
      setError code
      return einval) := fun _ _ _ =>
    (setOrg_submits _ _).quiet_bind fun _ => (syslog_submits _ _).quiet_bind fun _ =>
      (setError_submits _).quiet_bind fun _ => Submits.pure _
  unfold routeFunctionInternal
  split
  · exact Submits.throw _
  · exact (setError_submits _).quiet_bind fun _ => Submits.pure _
  · exact hfail _ _ _
  · exact hfail _ _ _
  · exact (setError_submits _).quiet_bind fun _ =>
      (writeRoute_submits _ _ _ _).quiet_bind fun _ => Submits.pure _
  · exact (writeRoute_submits _ _ _ _).quiet_bind fun _ => Submits.pure _

theorem solveRequest_submits (id : Nat) (request : RouteRequest) (start size : Nat) :
    Submits (· = []) (solveRequest machine id request start size) :=
  Submits.ite (solveSymbolInRange_submits _ _ _ _ _ _) (solveSymbol_submits _ _ _)

theorem reportFailure_submits (verb : String) (request : RouteRequest) :
    Submits (· = []) (reportFailure verb request) :=
  (Submits.read _).quiet_bind fun _ => (syslog_submits _ _).quiet_bind fun _ =>
    setError_submits _

theorem routeMultiple_submits (id : Nat) (request : RouteRequest) (start size : Nat) :
    Submits (· = [.route id request]) (routeMultiple machine id request start size) := by
  apply (Submits.submit _).bind_quiet
  intro _
  apply (solveRequest_submits machine id request start size).quiet_bind
  intro source
  apply Submits.ite ((reportFailure_submits _ _).quiet_bind fun _ => Submits.pure _)
  apply (Submits.forM_quiet fun _ _ => updateImage_submits _ _).quiet_bind
  intro _
  apply (routeFunctionInternal_submits machine id request).quiet_bind
  intro wrapper
  exact Submits.ite ((reportFailure_submits _ _).quiet_bind fun _ => Submits.pure _)
    (Submits.pure _)

theorem applyRoutingPatch_submits (index : Nat) (request : RouteRequest)
    (address size : Nat) (patchName : String) :
    Submits (· = [.route index request])
      (PatchApplicator.applyRoutingPatch machine index request address size patchName) := by
  apply (syslog_submits _ _).quiet_bind
  intro _
  apply (routeMultiple_submits machine index request address size).bind_quiet
  rintro ⟨routed, source⟩
  apply (Submits.read _).quiet_bind
  intro error
  exact Submits.ite
    ((syslog_submits _ _).quiet_bind fun _ => (setError_submits _).quiet_bind fun _ =>
      Submits.pure _)
    ((syslog_submits _ _).quiet_bind fun _ => Submits.pure _)

theorem patchImage_submits (index : Nat) (patch : LookupPatch) :
    Submits (· = []) (patchImage index patch) := by
  apply Submits.quiet
  intro s
  obtain ⟨n, t, hrun, after, -, rfl⟩ := patchImage_spec index patch s
  exact ⟨n, _, hrun, rfl⟩

theorem applyLookupPatch_submits (patch : LookupPatch) :
    Submits (· = [.lookup patch]) (KernelPatcher.applyLookupPatch table machine patch) := by
  apply (Submits.submit _).bind_quiet
  intro _
  apply Submits.ite ((syslog_submits _ _).quiet_bind fun _ => setError_submits _)
  apply Submits.ite ((syslog_submits _ _).quiet_bind fun _ => setError_submits _)
  apply (patchImage_submits _ _).quiet_bind
  intro changes
  apply Submits.ite ((syslog_submits _ _).quiet_bind fun _ => setError_submits _)
  exact Submits.ite (setError_submits _) (Submits.pure _)

theorem applyLookup_submits (patch : LookupPatch) (patchName : String) :
    Submits (· = [.lookup patch])
      (PatchApplicator.applyLookupPatch table machine patch patchName) := by
  apply (syslog_submits _ _).quiet_bind
  intro _
  apply (applyLookupPatch_submits table machine patch).bind_quiet
  intro _
  apply (Submits.read _).quiet_bind
  intro error
  exact Submits.ite ((syslog_submits _ _).quiet_bind fun _ => setError_submits _)
    (syslog_submits _ _)

end Patcher

namespace PatchSet

open Patches

variable (boot : Boot) (load : KextLoad) (kext : KextEntry)

/-- What a patch asks for behind its guards; the legacy route only after a
vendor route that did not take. -/
def submissions : Patch → List Submission
  | .unblockLegacyThunderbolt => [.lookup (legacyThunderboltPatch boot kext)]
  | .disableIntelFramebufferAGDC =>
      [.route load.index vendorRequest, .route load.index legacyRequest]
  | .forceIntelFramebufferOnlineDisplays => [.route load.index onlineInfoRequest]
  | .bypassAMDProjectSelection => [.route load.index projectRequest]
  | .skipAMDVRAMTest => [.route load.index testVRAMRequest]
  | .stabiliseAMDAccelConfig => [.route load.index accelConfigRequest]
  | .relaxAMDSharedUserClientOutputSizing =>
      [.route load.index amdSharedUserClientRequest]
  | .relaxIOAccelSharedUserClientOutputSizing =>
      [.route load.index ioAccelSharedUserClientRequest]
  | .validateAMDDetailedTiming => [.route load.index linkChangeRequest]
  | .relaxAMDFramebufferTimingValidation => [.route load.index detailedTimingRequest]
  | .forceAMD24BitOutput => [.lookup (maskPatch kext), .lookup (bitsPatch kext)]
  | .guardAMDIOSurfacePlaneInfo => [.lookup (surfacePlanePatch kext)]
  | .bypassPCITunnelled => [.lookup (pciTunnelledPatch kext)]
  | .relaxGraphicsDevicePolicy => [.lookup (vitPatch kext), .lookup (pikPatch kext)]
  | .bypassIOPCITunnelCompatible => [.lookup (ioPCITunnelPatch boot kext)]
  | .updateMuxControlNVRAMVar => [.lookup (muxControlPatch kext)]
  | .routeThunderboltEnumeration => [.route load.index skipEnumerationRequest]
  | .applySequoiaPatch => [.lookup (sequoiaPatch kext)]

/-- A non-empty first part of `all`. -/
def Starts (all new : List Submission) : Prop := new ≠ [] ∧ new <+: all

theorem starts_all {all : List Submission} (hall : all ≠ []) : Starts all all :=
  ⟨hall, List.prefix_rfl⟩

theorem applyOnlyRoute_submits (request : RouteRequest) (patchName : String) :
    Submits (Starts [.route load.index request])
      (applyOnlyRoute load request patchName) := by
  apply ((applyRoutingPatch_submits load.machine load.index request load.address
    load.size patchName).bind_quiet fun _ => Submits.pure ()).weaken
  rintro _ rfl
  exact starts_all (by simp)

theorem applyOnlyLookup_submits (patch : LookupPatch) (patchName : String) :
    Submits (Starts [.lookup patch]) (applyLookup boot load patch patchName) := by
  apply (applyLookup_submits boot.loads load.machine patch patchName).weaken
  rintro _ rfl
  exact starts_all (by simp)

theorem applyTwoLookups_submits (first second : LookupPatch)
    (firstName secondName : String) :
    Submits (Starts [.lookup first, .lookup second]) (do
      applyLookup boot load first firstName
      applyLookup boot load second secondName) := by
  apply ((applyLookup_submits boot.loads load.machine first firstName).bind fun _ =>
    applyLookup_submits boot.loads load.machine second secondName).weaken
  rintro _ ⟨_, _, rfl, rfl, rfl⟩
  exact starts_all (by simp)

theorem normaliseWord_submits (address : Nat) :
    Submits (· = []) (normaliseWord load address) :=
  Submits.ite ((syslog_submits _ _).quiet_bind fun _ => updateImage_submits _ _)
    ((syslog_submits _ _).quiet_bind fun _ => setError_submits _)

theorem scanBitsPerComponent_submits (words address : Nat) :
    Submits (· = []) (scanBitsPerComponent load words address) := by
  induction words generalizing address with
  | zero => exact Submits.throw _
  | succ words ih =>
      apply (Submits.read _).quiet_bind
      intro image
      refine Submits.ite ?_ (Submits.pure _)
      exact Submits.ite ((normaliseWord_submits load address).quiet_bind fun _ =>
        ih (address + 4)) (ih (address + 4))

theorem normaliseBitsPerComponent_submits :
    Submits (· = []) (normaliseBitsPerComponent load) := by
  apply (solveSymbolInRange_submits _ _ _ _ _ _).quiet_bind
  intro address
  refine Submits.ite ?_ ((syslog_submits _ _).quiet_bind fun _ => setError_submits _)
  apply (Submits.read _).quiet_bind
  intro image
  exact Submits.ite (Submits.throw _) (scanBitsPerComponent_submits load _ _)

/-- The vendor route alone, or both. -/
theorem disableIntelFramebufferAGDC_submits :
    Submits (Starts [.route load.index vendorRequest, .route load.index legacyRequest])
      (body boot load kext .disableIntelFramebufferAGDC) := by
  have hlegacy : ∀ source original : Nat,
      Submits (fun new => new = [] ∨ new = [.route load.index legacyRequest])
        (if source ≠ 0 ∧ original ≠ 0 then pure () else do
          clearError
          applyOnlyRoute load legacyRequest "disableIntelFramebufferAGDC-legacy") := by
    intro source original
    apply Submits.ite ((Submits.pure ()).weaken fun _ => Or.inl)
    apply (setError_submits _).quiet_bind
    intro _
    apply (applyOnlyRoute_submits load legacyRequest _).weaken
    rintro new ⟨hne, hleads⟩
    exact Or.inr ((List.prefix_cons_iff.mp hleads).elim (fun h => absurd h hne)
      fun ⟨rest, hnew, hrest⟩ => by rw [hnew, List.prefix_nil.mp hrest])
  apply ((applyRoutingPatch_submits load.machine load.index vendorRequest load.address
    load.size _).bind fun source => (Submits.read _).quiet_bind fun original =>
      hlegacy source original).weaken
  rintro _ ⟨_, rest, rfl, rfl, rfl | rfl⟩
  · exact ⟨by simp, by simp⟩
  · exact starts_all (by simp)

theorem body_submits (patch : Patch) :
    Submits (Starts (submissions boot load kext patch)) (body boot load kext patch) := by
  cases patch with
  | disableIntelFramebufferAGDC => exact disableIntelFramebufferAGDC_submits boot load kext
  | forceAMD24BitOutput =>
      exact (normaliseBitsPerComponent_submits load).quiet_bind fun _ =>
        applyTwoLookups_submits boot load _ _ _ _
  | relaxGraphicsDevicePolicy => exact applyTwoLookups_submits boot load _ _ _ _
  | unblockLegacyThunderbolt => exact applyOnlyLookup_submits boot load _ _
  | guardAMDIOSurfacePlaneInfo => exact applyOnlyLookup_submits boot load _ _
  | bypassPCITunnelled => exact applyOnlyLookup_submits boot load _ _
  | bypassIOPCITunnelCompatible => exact applyOnlyLookup_submits boot load _ _
  | updateMuxControlNVRAMVar => exact applyOnlyLookup_submits boot load _ _
  | applySequoiaPatch => exact applyOnlyLookup_submits boot load _ _
  | forceIntelFramebufferOnlineDisplays => exact applyOnlyRoute_submits load _ _
  | bypassAMDProjectSelection => exact applyOnlyRoute_submits load _ _
  | skipAMDVRAMTest => exact applyOnlyRoute_submits load _ _
  | stabiliseAMDAccelConfig => exact applyOnlyRoute_submits load _ _
  | relaxAMDSharedUserClientOutputSizing => exact applyOnlyRoute_submits load _ _
  | relaxIOAccelSharedUserClientOutputSizing => exact applyOnlyRoute_submits load _ _
  | validateAMDDetailedTiming => exact applyOnlyRoute_submits load _ _
  | relaxAMDFramebufferTimingValidation => exact applyOnlyRoute_submits load _ _
  | routeThunderboltEnumeration => exact applyOnlyRoute_submits load _ _

/-- What a patch function asks for, guards included. -/
def Asks (patch : Patch) (new : List Submission) : Prop :=
  if active boot.args patch then Starts (submissions boot load kext patch) new
  else new = []

theorem perform_submits (patch : Patch) :
    Submits (Asks boot load kext patch) (perform boot load kext patch) := by
  apply Submits.logged (perform_logged boot load kext patch)
  unfold Asks
  split
  · exact body_submits boot load kext patch
  · exact Submits.pure ()

theorem processEntry_submits :
    Submits (Submits.Each (Asks boot load kext) (dispatch kext))
      (processEntry boot load kext) := by
  rw [processEntry_eq]
  exact (syslog_submits _ _).quiet_bind fun _ =>
    Submits.forM fun patch _ => perform_submits boot load kext patch

/-- What a callback asks for on behalf of one entry. -/
def EntryAsks (new : List Submission) : Prop :=
  if boot.loads.index kext = load.index then
    Submits.Each (Asks boot load kext) (dispatch kext) new
  else new = []

theorem processKext_submits :
    Submits (Submits.Each (EntryAsks boot load) (List.finRange 13))
      (processKext boot load) := by
  apply Submits.bind_quiet
  · apply Submits.forM
    intro kext _
    unfold EntryAsks
    split
    · exact processEntry_submits boot load kext
    · exact Submits.pure ()
  · exact fun _ => setError_submits _

/-- A call that the boot makes for some callback, entry and patch. -/
def Called (loads : List KextLoad) (call : Submission) : Prop :=
  ∃ load ∈ loads, ∃ kext, boot.loads.index kext = load.index ∧
    ∃ patch ∈ dispatch kext, active boot.args patch = true ∧
      call ∈ submissions boot load kext patch

theorem run_submits (loads : List KextLoad) :
    Submits (Submits.Each (fun load =>
      Submits.Each (EntryAsks boot load) (List.finRange 13)) loads) (run boot loads) :=
  Submits.forM fun load _ => processKext_submits boot load

/-- A boot, wherever it ends, calls for nothing but what active patches ask for. -/
theorem run_called {loads : List KextLoad} {s : Kernel} (hstart : s.calls = []) :
    ∀ call ∈ (endState (run boot loads s)).calls, Called boot loads call := by
  intro call hcall
  obtain ⟨new, all, hcalls, hleads, hall⟩ := (run_submits boot loads).endState s
  rw [hcalls, hstart, List.nil_append] at hcall
  obtain ⟨load, hload, part, hpart, hcall⟩ := hall.mem (hleads.subset hcall)
  obtain ⟨kext, -, part, hentry, hcall⟩ := hpart.mem hcall
  unfold EntryAsks at hentry
  split at hentry
  · next hindex =>
      obtain ⟨patch, hpatch, part, hasks, hcall⟩ := hentry.mem hcall
      unfold Asks at hasks
      split at hasks
      · next hactive =>
          exact ⟨load, hload, kext, hindex, patch, hpatch, hactive,
            hasks.2.subset hcall⟩
      · simp [hasks] at hcall
  · simp [hentry] at hcall

/-- The first request of every active patch is among the calls of a completed
boot. -/
theorem run_calls_first {loads : List KextLoad} {s t : Kernel}
    (hrun : run boot loads s = .ok () t) (hstart : s.calls = []) :
    ∀ load ∈ loads, ∀ kext, boot.loads.index kext = load.index →
      ∀ patch ∈ dispatch kext, active boot.args patch = true →
        ∃ call ∈ (submissions boot load kext patch).head?, call ∈ t.calls := by
  obtain ⟨new, hcalls, hnew⟩ := (run_submits boot loads).completes s () t hrun
  rw [hstart, List.nil_append] at hcalls
  rw [hcalls]
  intro load hload kext hindex patch hpatch hactive
  obtain ⟨loadPart, hloadPart, hloadSub⟩ := hnew.part hload
  obtain ⟨entryPart, hentry, hentrySub⟩ := hloadPart.part (List.mem_finRange kext)
  rw [EntryAsks, if_pos hindex] at hentry
  obtain ⟨patchPart, hasks, hpatchSub⟩ := hentry.part hpatch
  rw [Asks, if_pos hactive] at hasks
  obtain ⟨hne, rest, hrest⟩ := hasks
  obtain ⟨call, tail, rfl⟩ := List.exists_cons_of_ne_nil hne
  refine ⟨call, by rw [← hrest]; rfl, ?_⟩
  exact hloadSub call (hentrySub call (hpatchSub call (by simp)))

end PatchSet

end Kryptonite
