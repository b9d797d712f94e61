/-
Whether a skip switch silences exactly the kext it announces.  Two boots that
differ in one switch are run in lockstep: the boot with the switch set makes
the calls of the other one except those that target the announced kext.
-/
import Kryptonite.Submissions

namespace Kryptonite

open Script KernelPatcher

/-- A call targets a kext: a lookup patch by its entry, a route by the index it
is applied to. -/
def targets (table : LoadTable) (kext : KextEntry) : Submission → Bool
  | .lookup patch => patch.kext = kext
  | .route index _ => table.index kext ≠ 0 ∧ index = table.index kext

section Neutral

variable {α β : Type}

/-- `m` returns `a` and touches nothing but the error code and the log. -/
def Neutral (m : PatcherM α) (a : α) : Prop :=
  ∀ s, ∃ code log, m s = .ok a { s with code := code, log := log }

namespace Neutral

theorem pure (a : α) : Neutral (Pure.pure a : PatcherM α) a :=
  fun s => ⟨s.code, s.log, rfl⟩

theorem syslog (origin text : String) : Neutral (syslog origin text) () :=
  fun s => ⟨s.code, s.log ++ [origin ++ ": " ++ text], rfl⟩

theorem setError (code : Error) : Neutral (setError code) () :=
  fun s => ⟨code, s.log, rfl⟩

theorem bind {m : PatcherM α} {f : α → PatcherM β} {a : α} {b : β}
    (hm : Neutral m a) (hf : Neutral (f a) b) : Neutral (m >>= f) b := by
  intro s
  obtain ⟨code, log, hm⟩ := hm s
  obtain ⟨code', log', hf⟩ := hf { s with code := code, log := log }
  exact ⟨code', log', (bind_of_ok hm).trans hf⟩

theorem getError_bind {f : Error → PatcherM β} {b : β}
    (hf : ∀ error, Neutral (f error) b) : Neutral (getError >>= f) b :=
  fun s => hf s.code s

theorem ite {c : Prop} [Decidable c] {m n : PatcherM α} {a : α}
    (hthen : Neutral m a) (helse : Neutral n a) : Neutral (if c then m else n) a := by
  split
  · exact hthen
  · exact helse

end Neutral

theorem reportFailure_neutral (verb : String) (request : RouteRequest) :
    Neutral (reportFailure verb request) () :=
  Neutral.getError_bind fun _ => (Neutral.syslog _ _).bind (Neutral.setError _)

theorem solveSymbol_neutral (machine : Machine) (id : Nat) (symbol : String) :
    ∃ address, Neutral (solveSymbol machine id symbol) address := by
  unfold solveSymbol
  split
  · exact ⟨0, (Neutral.syslog _ _).bind ((Neutral.setError _).bind (Neutral.pure _))⟩
  · exact ⟨_, Neutral.ite ((Neutral.setError _).bind (Neutral.pure _)) (Neutral.pure _)⟩

end Neutral

section Alike

variable {α : Type} {table : LoadTable} {kext : KextEntry}

/-- The states of the boot with the switch set and of the one with the switch
clear.  Error code and log are not compared, nor the image of the announced
kext. -/
structure Alike (table : LoadTable) (kext : KextEntry) (on off : Kernel) : Prop where
  orgs : on.orgs = off.orgs
  routes : on.routes = off.routes
  images : ∀ index, index = 0 ∨ index ≠ table.index kext →
    on.images index = off.images index
  calls : on.calls = off.calls.filter fun call => !targets table kext call

/-- Both boots may run `m`. -/
abbrev Shared (table : LoadTable) (kext : KextEntry) (m : PatcherM α) : Prop :=
  Sim (Alike table kext) m m

/-- The boot with the switch clear may run `m` alone. -/
abbrev Dropped (table : LoadTable) (kext : KextEntry) (m : PatcherM Unit) : Prop :=
  ∀ on, Triple (Alike table kext on) m (fun _ => Alike table kext on) (fun _ _ => False)

theorem Alike.of_unobserved {on off : Kernel} (h : Alike table kext on off)
    (codes : Error × Error) (logs : List String × List String) :
    Alike table kext { on with code := codes.1, log := logs.1 }
      { off with code := codes.2, log := logs.2 } :=
  ⟨h.orgs, h.routes, h.images, h.calls⟩

theorem Neutral.shared {m n : PatcherM α} {a : α} (hm : Neutral m a) (hn : Neutral n a) :
    Sim (Alike table kext) m n := by
  intro on off halike
  obtain ⟨code, log, hm⟩ := hm on
  obtain ⟨code', log', hn⟩ := hn off
  rw [hm, hn]
  exact ⟨rfl, halike.of_unobserved (code, code') (log, log')⟩

theorem Neutral.dropped {m : PatcherM Unit} (hm : Neutral m ()) :
    Dropped table kext m := by
  intro on off halike
  obtain ⟨code, log, hm⟩ := hm off
  rw [hm]
  exact halike.of_unobserved (on.code, code) (on.log, log)

theorem shared_of_logged {m n m' n' : PatcherM α} (hm : PatchSet.Logged m m')
    (hn : PatchSet.Logged n n') (h : Sim (Alike table kext) m' n') :
    Sim (Alike table kext) m n := by
  intro on off halike
  obtain ⟨lines, hm⟩ := hm on
  obtain ⟨lines', hn⟩ := hn off
  rw [hm, hn]
  exact h _ _ (halike.of_unobserved (on.code, off.code) (_, _))

theorem submit_shared {call : Submission} (hkept : targets table kext call = false) :
    Shared table kext (submit call) := by
  apply Sim.modify
  intro on off halike
  refine ⟨halike.orgs, halike.routes, halike.images, ?_⟩
  change on.calls ++ [call] = _
  rw [List.filter_append, halike.calls]
  simp [hkept]

theorem submit_dropped {call : Submission} (htargets : targets table kext call = true) :
    Dropped table kext (submit call) := by
  intro on
  apply Triple.modify
  intro off halike
  refine ⟨halike.orgs, halike.routes, halike.images, ?_⟩
  rw [List.filter_append, ← halike.calls]
  simp [htargets]

theorem updateImage_shared (index : Nat) (f : Image → Image) :
    Shared table kext (updateImage index f) := by
  apply Sim.modify
  intro on off halike
  refine ⟨halike.orgs, halike.routes, ?_, halike.calls⟩
  intro other hother
  simp only [halike.images other hother]

theorem imageAt_shared {index : Nat} (hindex : index = 0 ∨ index ≠ table.index kext) :
    Shared table kext (imageAt index) :=
  Sim.read (fun s : Kernel => s.images index)
    fun on off (halike : Alike table kext on off) => halike.images index hindex

theorem originalOf_shared (hook : Hook) : Shared table kext (originalOf hook) :=
  Sim.read (fun s : Kernel => s.orgs hook)
    fun on off (halike : Alike table kext on off) => congrFun halike.orgs hook

theorem setOrg_shared (org : Option Hook) (trampoline : Nat) :
    Shared table kext (setOrg org trampoline) := by
  apply Sim.modify
  intro on off halike
  refine ⟨?_, halike.routes, halike.images, halike.calls⟩
  simp only [halike.orgs]

end Alike

section Patcher

variable {table : LoadTable} {kext : KextEntry} (machine : Machine)

theorem solveSymbol_shared (id : Nat) (symbol : String) :
    Shared table kext (solveSymbol machine id symbol) := by
  obtain ⟨address, hneutral⟩ := solveSymbol_neutral machine id symbol
  exact hneutral.shared hneutral

theorem solveSymbolInRange_shared (id : Nat) (symbol : String) (start size : Nat)
    (crash : Bool) :
    Shared table kext (solveSymbolInRange machine id symbol start size crash) := by
  apply (solveSymbol_shared machine id symbol).bind
  intro address
  apply Sim.ite fun _ => Sim.pure _
  intro _
  apply Sim.ite fun _ => Sim.pure _
  intro _
  apply ((Neutral.setError _).shared (Neutral.setError _)).bind
  intro _
  exact Sim.ite (fun _ => Sim.throw _) fun _ => Sim.pure _

theorem writeRoute_shared (id : Nat) (request : RouteRequest) (trampoline : Nat)
    (stores : List (Nat × List UInt8)) :
    Shared table kext (writeRoute id request trampoline stores) := by
  apply (setOrg_shared _ _).bind
  intro _
  apply (Sim.forM fun _ _ => updateImage_shared _ _).bind
  intro _
  apply Sim.modify
  intro on off halike
  refine ⟨halike.orgs, ?_, halike.images, halike.calls⟩
  simp only [halike.routes]

theorem routeFunctionInternal_shared (id : Nat) (request : RouteRequest) :
    Shared table kext (routeFunctionInternal machine id request) := by
  have hfail : ∀ trampoline text code, Shared table kext (do
      setOrg request.org trampoline
      syslog "patcher" text
      setError code
      return einval) := by
    intro trampoline text code
    have hneutral : Neutral (do
        syslog "patcher" text
        setError code
        return einval) einval :=
      (Neutral.syslog _ _).bind ((Neutral.setError _).bind (Neutral.pure _))
    exact (setOrg_shared _ _).bind fun _ => hneutral.shared hneutral
  unfold routeFunctionInternal
  split
  · exact Sim.throw _
  · exact ((Neutral.setError _).shared (Neutral.setError _)).bind fun _ => Sim.pure _
  · exact hfail _ _ _
  · exact hfail _ _ _
  · exact ((Neutral.setError _).shared (Neutral.setError _)).bind fun _ =>
      (writeRoute_shared _ _ _ _).bind fun _ => Sim.pure _
  · exact (writeRoute_shared _ _ _ _).bind fun _ => Sim.pure _

theorem routeMultiple_shared {id : Nat} {request : RouteRequest}
    (hkept : targets table kext (.route id request) = false) (start size : Nat) :
    Shared table kext (routeMultiple machine id request start size) := by
  have hreport : ∀ verb (result : Bool × Nat), Shared table kext (do
      reportFailure verb request
      return result) := by
    intro verb result
    have hneutral : Neutral (do
        reportFailure verb request
        return result) result :=
      (reportFailure_neutral verb request).bind (Neutral.pure _)
    exact hneutral.shared hneutral
  apply (submit_shared hkept).bind
  intro _
  apply Sim.bind (Sim.ite (fun _ => solveSymbolInRange_shared machine _ _ _ _ _)
    fun _ => solveSymbol_shared machine _ _)
  intro source
  apply Sim.ite fun _ => hreport _ _
  intro _
  apply (Sim.forM fun _ _ => updateImage_shared _ _).bind
  intro _
  apply (routeFunctionInternal_shared machine id request).bind
  intro wrapper
  exact Sim.ite (fun _ => hreport _ _) fun _ => Sim.pure _

theorem applyRoutingPatch_shared {index : Nat} {request : RouteRequest}
    (hkept : targets table kext (.route index request) = false) (address size : Nat)
    (patchName : String) :
    Shared table kext
      (PatchApplicator.applyRoutingPatch machine index request address size patchName) := by
  apply ((Neutral.syslog _ _).shared (Neutral.syslog _ _)).bind
  intro _
  apply (routeMultiple_shared machine hkept address size).bind
  rintro ⟨routed, source⟩
  apply Neutral.shared (a := source)
  all_goals
    exact Neutral.getError_bind fun error => Neutral.ite
      ((Neutral.syslog _ _).bind ((Neutral.setError _).bind (Neutral.pure _)))
      ((Neutral.syslog _ _).bind (Neutral.pure _))

theorem patchImage_shared {index : Nat} (hindex : index ≠ table.index kext)
    (patch : LookupPatch) : Shared table kext (patchImage index patch) := by
  apply (imageAt_shared (Or.inr hindex)).bind
  intro image
  split
  · exact Sim.throw _
  · exact (updateImage_shared _ _).bind fun _ => Sim.pure _

/-- The loops over the image of the announced kext touch nothing that is
compared. -/
theorem patchImage_dropped {index : Nat} (hindex : index ≠ 0)
    (hkext : index = table.index kext) (patch : LookupPatch) (on : Kernel) :
    Triple (Alike table kext on) (patchImage index patch) (fun _ => Alike table kext on)
      (fun _ _ => False) := by
  intro off halike
  obtain ⟨n, t, hrun, after, -, rfl⟩ := patchImage_spec index patch off
  rw [hrun]
  refine ⟨halike.orgs, halike.routes, ?_, halike.calls⟩
  intro other hother
  have hne : other ≠ index := by
    rintro rfl
    exact hother.elim hindex fun h => h hkext
  simp only [if_neg hne, halike.images other hother]

/-- Both boots patch a kext other than the announced one. -/
theorem applyLookupPatch_shared {patch : LookupPatch} (hother : patch.kext ≠ kext) :
    Shared table kext (KernelPatcher.applyLookupPatch table machine patch) := by
  have hkept : targets table kext (.lookup patch) = false := by simp [targets, hother]
  have hfail : ∀ text code, Shared table kext (do
      syslog "patcher" text
      setError code) := fun _ _ =>
    ((Neutral.syslog _ _).bind (Neutral.setError _)).shared
      ((Neutral.syslog _ _).bind (Neutral.setError _))
  apply (submit_shared hkept).bind
  intro _
  apply Sim.ite fun _ => hfail _ _
  intro hloaded
  apply Sim.ite fun _ => hfail _ _
  intro _
  have hindex : table.index patch.kext ≠ table.index kext := fun heq =>
    hother (table.distinct _ _ heq hloaded)
  apply (patchImage_shared hindex patch).bind
  intro changes
  apply Sim.ite fun _ => hfail _ _
  intro _
  exact Sim.ite (fun _ => (Neutral.setError _).shared (Neutral.setError _))
    fun _ => Sim.pure _

/-- A patch of the announced kext touches nothing that is compared. -/
theorem applyLookupPatch_dropped {patch : LookupPatch} (hkext : patch.kext = kext) :
    Dropped table kext (KernelPatcher.applyLookupPatch table machine patch) := by
  have htargets : targets table kext (.lookup patch) = true := by simp [targets, hkext]
  have hfail : ∀ text code, Dropped table kext (do
      syslog "patcher" text
      setError code) := fun _ _ =>
    ((Neutral.syslog _ _).bind (Neutral.setError _)).dropped
  intro on
  apply (submit_dropped htargets on).bind
  intro _
  apply Triple.ite fun _ => hfail _ _ on
  intro hloaded
  apply Triple.ite fun _ => hfail _ _ on
  intro _
  apply (patchImage_dropped hloaded (by rw [hkext]) patch on).bind
  intro changes
  apply Triple.ite fun _ => hfail _ _ on
  intro _
  exact Triple.ite (fun _ => (Neutral.setError _).dropped on)
    fun _ => (Neutral.pure ()).dropped on

theorem applyLookup_shared {patch : LookupPatch} (hother : patch.kext ≠ kext)
    (patchName : String) :
    Shared table kext
      (PatchApplicator.applyLookupPatch table machine patch patchName) := by
  apply ((Neutral.syslog _ _).shared (Neutral.syslog _ _)).bind
  intro _
  apply (applyLookupPatch_shared machine hother).bind
  intro _
  apply Neutral.shared (a := ())
  all_goals
    exact Neutral.getError_bind fun error => Neutral.ite
      ((Neutral.syslog _ _).bind (Neutral.setError _)) (Neutral.syslog _ _)

theorem applyLookup_dropped {patch : LookupPatch} (hkext : patch.kext = kext)
    (patchName : String) :
    Dropped table kext
      (PatchApplicator.applyLookupPatch table machine patch patchName) := by
  intro on
  apply ((Neutral.syslog _ _).dropped on).bind
  intro _
  apply (applyLookupPatch_dropped machine hkext on).bind
  intro _
  refine Neutral.dropped ?_ on
  exact Neutral.getError_bind fun error => Neutral.ite
    ((Neutral.syslog _ _).bind (Neutral.setError _)) (Neutral.syslog _ _)

end Patcher

namespace PatchSet

open Patches

variable {boot : Boot} {load : KextLoad} {kext announced : KextEntry}

theorem normaliseWord_shared (address : Nat) :
    Shared boot.loads announced (normaliseWord load address) :=
  Sim.ite (fun _ => ((Neutral.syslog _ _).shared (Neutral.syslog _ _)).bind fun _ =>
      updateImage_shared _ _)
    fun _ => ((Neutral.syslog _ _).bind (Neutral.setError _)).shared
      ((Neutral.syslog _ _).bind (Neutral.setError _))

theorem scanBitsPerComponent_shared
    (hindex : load.index = 0 ∨ load.index ≠ boot.loads.index announced)
    (words address : Nat) :
    Shared boot.loads announced (scanBitsPerComponent load words address) := by
  induction words generalizing address with
  | zero => exact Sim.throw _
  | succ words ih =>
      apply (imageAt_shared hindex).bind
      intro image
      refine Sim.ite (fun _ => ?_) fun _ => Sim.pure _
      exact Sim.ite (fun _ => (normaliseWord_shared address).bind fun _ => ih _)
        fun _ => ih _

theorem normaliseBitsPerComponent_shared
    (hindex : load.index = 0 ∨ load.index ≠ boot.loads.index announced) :
    Shared boot.loads announced (normaliseBitsPerComponent load) := by
  apply (solveSymbolInRange_shared _ _ _ _ _ _).bind
  intro address
  refine Sim.ite (fun _ => ?_) fun _ =>
    ((Neutral.syslog _ _).bind (Neutral.setError _)).shared
      ((Neutral.syslog _ _).bind (Neutral.setError _))
  apply (imageAt_shared hindex).bind
  intro image
  exact Sim.ite (fun _ => Sim.throw _) fun _ => scanBitsPerComponent_shared hindex _ _

@[simp] theorem legacyThunderboltPatch_kext (boot : Boot) (kext : KextEntry) :
    (legacyThunderboltPatch boot kext).kext = kext := by
  unfold legacyThunderboltPatch
  split
  · rfl
  · split <;> rfl

@[simp] theorem ioPCITunnelPatch_kext (boot : Boot) (kext : KextEntry) :
    (ioPCITunnelPatch boot kext).kext = kext := by
  unfold ioPCITunnelPatch
  split
  · rfl
  · split <;> rfl

/-- The callback of another kext reaches neither the image nor the routes of
the announced one. -/
theorem other_index (hindex : boot.loads.index kext = load.index)
    (hother : kext ≠ announced) :
    load.index = 0 ∨ load.index ≠ boot.loads.index announced := by
  by_cases hzero : load.index = 0
  · exact Or.inl hzero
  · refine Or.inr fun hsame => hother (boot.loads.distinct _ _ ?_ ?_)
    · rw [hindex, hsame]
    · rwa [hindex]

theorem route_kept (hindex : load.index = 0 ∨ load.index ≠ boot.loads.index announced)
    (request : RouteRequest) :
    targets boot.loads announced (.route load.index request) = false := by
  rcases hindex with hzero | hne
  · by_cases hannounced : boot.loads.index announced = 0
    · simp [targets, hannounced]
    · simp [targets, hzero, Ne.symm hannounced]
  · simp [targets, hne]

/-- Both boots run the body of a patch of another kext. -/
theorem body_shared (hindex : boot.loads.index kext = load.index)
    (hother : kext ≠ announced) (patch : Patch) :
    Shared boot.loads announced (body boot load kext patch) := by
  have himage := other_index hindex hother
  have hroute : ∀ request patchName,
      Shared boot.loads announced (applyRoute load request patchName) :=
    fun request patchName =>
      applyRoutingPatch_shared load.machine (route_kept himage request) _ _ patchName
  have honly : ∀ request patchName,
      Shared boot.loads announced (applyOnlyRoute load request patchName) :=
    fun request patchName => (hroute request patchName).bind fun _ => Sim.pure _
  have hlookup : ∀ patch patchName, patch.kext = kext →
      Shared boot.loads announced (applyLookup boot load patch patchName) :=
    fun patch patchName hkext =>
      applyLookup_shared load.machine (by rwa [hkext]) patchName
  cases patch with
  | disableIntelFramebufferAGDC =>
      apply (hroute _ _).bind
      intro source
      apply (originalOf_shared _).bind
      intro original
      exact Sim.ite (fun _ => Sim.pure _) fun _ =>
        ((Neutral.setError _).shared (Neutral.setError _)).bind fun _ => honly _ _
  | forceAMD24BitOutput =>
      exact (normaliseBitsPerComponent_shared himage).bind fun _ =>
        (hlookup _ _ rfl).bind fun _ => hlookup _ _ rfl
  | relaxGraphicsDevicePolicy => exact (hlookup _ _ rfl).bind fun _ => hlookup _ _ rfl
  | unblockLegacyThunderbolt => exact hlookup _ _ (by simp)
  | bypassIOPCITunnelCompatible => exact hlookup _ _ (by simp)
  | guardAMDIOSurfacePlaneInfo => exact hlookup _ _ rfl
  | bypassPCITunnelled => exact hlookup _ _ rfl
  | updateMuxControlNVRAMVar => exact hlookup _ _ rfl
  | applySequoiaPatch => exact hlookup _ _ rfl
  | forceIntelFramebufferOnlineDisplays => exact honly _ _
  | bypassAMDProjectSelection => exact honly _ _
  | skipAMDVRAMTest => exact honly _ _
  | stabiliseAMDAccelConfig => exact honly _ _
  | relaxAMDSharedUserClientOutputSizing => exact honly _ _
  | relaxIOAccelSharedUserClientOutputSizing => exact honly _ _
  | validateAMDDetailedTiming => exact honly _ _
  | relaxAMDFramebufferTimingValidation => exact honly _ _
  | routeThunderboltEnumeration => exact honly _ _

/-- The kext that the log names for a skip switch. -/
def announcedKext : Toggle → Option KextEntry
  | .skipAGDC => some 0
  | .skipAGDP => some 9
  | .skipIOGFX => some 1
  | .skipIOPCI => some 4
  | .skipMux => some 2
  | _ => none

/-- The patches behind a skip switch consist of lookup patches. -/
theorem body_dropped {own : Toggle} {patch : Patch} (hskip : announcedKext own ≠ none)
    (hown : toggle patch = some own) :
    Dropped boot.loads kext (body boot load kext patch) := by
  have hlookup : ∀ patch patchName, patch.kext = kext →
      Dropped boot.loads kext (applyLookup boot load patch patchName) :=
    fun patch patchName hkext => applyLookup_dropped load.machine hkext patchName
  cases patch <;> simp only [toggle, reduceCtorEq, Option.some.injEq] at hown
  case unblockLegacyThunderbolt => exact hlookup _ _ (by simp)
  case bypassPCITunnelled => exact hlookup _ _ rfl
  case bypassIOPCITunnelCompatible => exact hlookup _ _ (by simp)
  case updateMuxControlNVRAMVar => exact hlookup _ _ rfl
  case relaxGraphicsDevicePolicy =>
    exact fun on => (hlookup _ _ rfl on).bind fun _ => hlookup _ _ rfl on
  all_goals
    subst hown
    exact absurd rfl hskip

/-- Two boots that differ in one switch, set in the first and clear in the
second. -/
structure Switched (own : Toggle) (on off : Boot) : Prop where
  loads : on.loads = off.loads
  major : on.major = off.major
  minor : on.minor = off.minor
  gpu : on.args.gpu = off.args.gpu
  tbtVersion : on.args.tbtVersion = off.args.tbtVersion
  sequoiaForce : on.args.sequoiaForce = off.args.sequoiaForce
  skipThunderboltEnum : on.args.skipThunderboltEnum = off.args.skipThunderboltEnum
  set : on.args.control own = true
  clear : off.args.control own = false
  others : ∀ other, other ≠ own → on.args.control other = off.args.control other

theorem switched_init (args : BootArgs) (major minor : Nat) (table : LoadTable)
    (own : Toggle) :
    Switched own (Boot.init (args.withFlag own.arg true) major minor table)
      (Boot.init (args.withFlag own.arg false) major minor table) := by
  have henum : "skipthunderboltenum" ≠ own.arg := by cases own <;> decide
  exact {
    loads := rfl
    major := rfl
    minor := rfl
    gpu := rfl
    tbtVersion := by
      simp only [Boot.init, NVRAMArgs.init, NVRAMArgs.getTBTVersion_withFlag]
    sequoiaForce := by
      simp only [Boot.init, NVRAMArgs.init, NVRAMArgs.getSequoiaForce_withFlag]
    skipThunderboltEnum := by
      simp only [Boot.init, NVRAMArgs.init, NVRAMArgs.skipThunderboltEnum,
        BootArgs.parseBooleanBootArg_withFlag, if_neg henum]
    set := by simp only [Boot.init, NVRAMArgs.control_withFlag, if_true]
    clear := by simp only [Boot.init, NVRAMArgs.control_withFlag, if_true]
    others := by
      intro other hother
      simp only [Boot.init, NVRAMArgs.control_withFlag, if_neg hother] }

namespace Switched

variable {own : Toggle} {on off : Boot} (hswitched : Switched own on off)

include hswitched

theorem wanted_eq (hskip : announcedKext own ≠ none) (patch : Patch) :
    wanted on.args patch = wanted off.args patch := by
  have hamd : on.args.isAMD = off.args.isAMD := by
    simp only [NVRAMArgs.isAMD, hswitched.gpu]
  have hnvda : on.args.isNVDA = off.args.isNVDA := by
    simp only [NVRAMArgs.isNVDA, hswitched.gpu]
  have hcontrol : ∀ other, announcedKext other = none →
      on.args.control other = off.args.control other := fun other hother =>
    hswitched.others other fun heq => hskip (heq ▸ hother)
  cases patch <;>
    simp (disch := decide) only [wanted, hamd, hnvda, hswitched.skipThunderboltEnum,
      NVRAMArgs.shouldForceSequoia, hswitched.sequoiaForce,
      NVRAMArgs.shouldEnableIntelAGDCDisabler, NVRAMArgs.shouldEnableIntelForceOnline,
      NVRAMArgs.shouldEnableAMDCompatibilityPatch,
      NVRAMArgs.shouldEnableAMDSharedUserClientVariableOutput,
      NVRAMArgs.shouldEnableAMDLinkValidationPatch,
      NVRAMArgs.shouldEnableAMDFramebufferValidationPatch,
      NVRAMArgs.shouldEnableAMD24BitOutputClamp, NVRAMArgs.shouldEnableAMDIOSurfaceGuard,
      hcontrol]

/-- The switch silences the patches behind it. -/
theorem active_on {patch : Patch} (hown : toggle patch = some own) :
    active on.args patch = false := by
  simp [active, hown, hswitched.set]

/-- The switch does not reach any other patch. -/
theorem active_eq (hskip : announcedKext own ≠ none) {patch : Patch}
    (hother : toggle patch ≠ some own) :
    active on.args patch = active off.args patch := by
  have hprobe : on.args.control .probe = off.args.control .probe :=
    hswitched.others _ fun heq => hskip (heq ▸ rfl)
  have hall : on.args.control .skipAll = off.args.control .skipAll :=
    hswitched.others _ fun heq => hskip (heq ▸ rfl)
  have htoggle : (toggle patch).any on.args.control =
      (toggle patch).any off.args.control := by
    cases hpatch : toggle patch with
    | none => rfl
    | some other =>
        exact hswitched.others other fun heq => hother (hpatch ▸ congrArg some heq)
  simp only [active, hswitched.wanted_eq hskip, NVRAMArgs.isProbeMode,
    NVRAMArgs.shouldSkipAllPatches, hprobe, hall, htoggle]

theorem body_eq (load : KextLoad) (kext : KextEntry) (patch : Patch) :
    body on load kext patch = body off load kext patch := by
  have htunnel : ioPCITunnelPatch on kext = ioPCITunnelPatch off kext := by
    simp only [ioPCITunnelPatch, hswitched.major]
  have hlegacy : legacyThunderboltPatch on kext = legacyThunderboltPatch off kext := by
    simp only [legacyThunderboltPatch, Compatibility.olderKernel, tbSwitchTypeChar,
      tbMinType, NVRAMArgs.isThunderbolt1, NVRAMArgs.isThunderbolt2, hswitched.major,
      hswitched.minor, hswitched.tbtVersion]
    rfl
  cases patch <;> simp only [body, applyLookup, hswitched.loads, htunnel, hlegacy]

end Switched

/-- A patch of the boot without the switch that breaks the pairing of switch
and kext: behind the switch and on another kext, or on the announced kext and
not behind the switch. -/
def Strays (own : Toggle) (announced : KextEntry) (off : Boot) (loads : List KextLoad) :
    Prop :=
  ∃ load ∈ loads, ∃ kext, off.loads.index kext = load.index ∧
    ∃ patch ∈ dispatch kext, active off.args patch = true ∧
      ¬ (toggle patch = some own ↔ kext = announced)

section Lockstep

variable {own : Toggle} {on off : Boot}

theorem perform_lockstep (hswitched : Switched own on off)
    (hskip : announcedKext own ≠ none) {patch : Patch}
    (hindex : off.loads.index kext = load.index)
    (hpaired : active off.args patch = true → (toggle patch = some own ↔ kext = announced)) :
    Sim (Alike off.loads announced) (perform on load kext patch)
      (perform off load kext patch) := by
  apply shared_of_logged (perform_logged on load kext patch)
    (perform_logged off load kext patch)
  cases hoff : active off.args patch with
  | false =>
      have hon : active on.args patch = false := by
        by_cases hown : toggle patch = some own
        · exact hswitched.active_on hown
        · rw [hswitched.active_eq hskip hown, hoff]
      rw [hon]
      exact Sim.pure _
  | true =>
      by_cases hown : toggle patch = some own
      · rw [hswitched.active_on hown, ← (hpaired hoff).mp hown]
        exact Sim.skip fun s => body_dropped hskip hown s
      · have hother : kext ≠ announced := fun heq => hown ((hpaired hoff).mpr heq)
        rw [hswitched.active_eq hskip hown, hoff, hswitched.body_eq]
        exact body_shared hindex hother patch

theorem run_lockstep (hswitched : Switched own on off) (hskip : announcedKext own ≠ none)
    {loads : List KextLoad} (hpaired : ¬ Strays own announced off loads) :
    Sim (Alike off.loads announced) (run on loads) (run off loads) := by
  apply Sim.forM
  intro load hload
  apply Sim.bind
  · apply Sim.forM
    intro kext _
    rw [hswitched.loads]
    refine Sim.ite (fun hindex => ?_) fun _ => Sim.pure _
    rw [processEntry_eq, processEntry_eq]
    apply ((Neutral.syslog _ _).shared (Neutral.syslog _ _)).bind
    intro _
    apply Sim.forM
    intro patch hpatch
    apply perform_lockstep hswitched hskip hindex
    intro hactive
    by_contra hstray
    exact hpaired ⟨load, hload, kext, hindex, patch, hpatch, hactive, hstray⟩
  · exact fun _ => (Neutral.setError _).shared (Neutral.setError _)

end Lockstep

/-- What a boot asks of the patcher, from a patcher nothing was asked of. -/
def submitted (boot : Boot) (loads : List KextLoad) (s : Kernel) : List Submission :=
  (endState (run boot loads { s with calls := [] })).calls

/-- Setting the switch removes the calls that target the announced kext and
keeps all others. -/
def Isolates (own : Toggle) (announced : KextEntry) (args : BootArgs) (major minor : Nat)
    (table : LoadTable) (loads : List KextLoad) (s : Kernel) : Prop :=
  submitted (Boot.init (args.withFlag own.arg true) major minor table) loads s =
    (submitted (Boot.init (args.withFlag own.arg false) major minor table) loads s).filter
      fun call => !targets table announced call

theorem isolates_of_not_strays {own : Toggle} (hskip : announcedKext own ≠ none)
    {announced : KextEntry} (args : BootArgs) (major minor : Nat) (table : LoadTable)
    (loads : List KextLoad) (s : Kernel)
    (hpaired : ¬ Strays own announced
      (Boot.init (args.withFlag own.arg false) major minor table) loads) :
    Isolates own announced args major minor table loads s := by
  have hstart : Alike table announced { s with calls := [] } { s with calls := [] } :=
    ⟨rfl, rfl, fun _ _ => rfl, rfl⟩
  exact ((run_lockstep (switched_init args major minor table own) hskip hpaired).endState
    hstart).calls

section Strays

/-- A callback for the entry is among the loads. -/
def LoadsEntry (table : LoadTable) (loads : List KextLoad) (kext : KextEntry) : Prop :=
  ∃ load ∈ loads, load.index = table.index kext

/-- The boot arguments and loads under which a skip switch is not confined to
its kext: `bypassPCITunnelled` and `applySequoiaPatch` reach `AppleGPUWrangler`
past `kryskipagdc`, and `kryskipiogfx` takes `bypassPCITunnelled` away from
`AppleGPUWrangler` and `AMDRadeonX4000`. -/
def Leaks (own : Toggle) (args : BootArgs) (table : LoadTable) (loads : List KextLoad) :
    Prop :=
  args.parseBooleanBootArg "kryprobe" = false ∧
    args.parseBooleanBootArg "kryskipall" = false ∧
    match own with
    | .skipAGDC =>
        LoadsEntry table loads 0 ∧
          ((((NVRAMArgs.init args).isNVDA || (NVRAMArgs.init args).isAMD) = true ∧
              args.parseBooleanBootArg "kryskipiogfx" = false) ∨
            ((NVRAMArgs.init args).shouldForceSequoia = true ∧
              args.parseBooleanBootArg "kryskipseq" = false))
    | .skipIOGFX =>
        (LoadsEntry table loads 0 ∨ LoadsEntry table loads 5) ∧
          ((NVRAMArgs.init args).isNVDA || (NVRAMArgs.init args).isAMD) = true
    | _ => False

/-- The pairing of switches and kexts in the dispatch table. -/
theorem dispatch_unpaired {own : Toggle} {announced kext : KextEntry} {patch : Patch}
    (hannounced : announcedKext own = some announced) (hpatch : patch ∈ dispatch kext) :
    ¬ (toggle patch = some own ↔ kext = announced) ↔
      (own = .skipAGDC ∧ kext = 0 ∧
          (patch = .bypassPCITunnelled ∨ patch = .applySequoiaPatch)) ∨
        (own = .skipIOGFX ∧ (kext = 0 ∨ kext = 5) ∧ patch = .bypassPCITunnelled) := by
  cases own <;> simp only [announcedKext, Option.some.injEq, reduceCtorEq] at hannounced
  all_goals
    subst hannounced
    revert kext patch
    decide

/-- The patches that stray, in the boot with the switch clear. -/
theorem active_clear (args : BootArgs) (own : Toggle) (patch : Patch)
    (hown : own ≠ .probe ∧ own ≠ .skipAll) {behind : Toggle}
    (hbehind : toggle patch = some behind) :
    active (NVRAMArgs.init (args.withFlag own.arg false)) patch = true ↔
      wanted (NVRAMArgs.init (args.withFlag own.arg false)) patch = true ∧
        args.parseBooleanBootArg "kryprobe" = false ∧
        args.parseBooleanBootArg "kryskipall" = false ∧
        (behind ≠ own → args.parseBooleanBootArg behind.arg = false) := by
  simp only [active, hbehind, Option.any_some, NVRAMArgs.isProbeMode,
    NVRAMArgs.shouldSkipAllPatches, NVRAMArgs.control_withFlag, if_neg hown.1.symm,
    if_neg hown.2.symm, Bool.and_eq_true, Bool.not_eq_true', and_assoc]
  by_cases hsame : behind = own <;> simp [hsame, Toggle.arg]

theorem strays_iff_leaks {own : Toggle} {announced : KextEntry}
    (hannounced : announcedKext own = some announced) (args : BootArgs)
    (major minor : Nat) (table : LoadTable) (loads : List KextLoad) :
    Strays own announced (Boot.init (args.withFlag own.arg false) major minor table) loads ↔
      Leaks own args table loads := by
  have hown : own ≠ .probe ∧ own ≠ .skipAll :=
    ⟨fun heq => by simp [heq, announcedKext] at hannounced,
      fun heq => by simp [heq, announcedKext] at hannounced⟩
  have hforce : (NVRAMArgs.init (args.withFlag own.arg false)).shouldForceSequoia =
      (NVRAMArgs.init args).shouldForceSequoia := by
    simp only [NVRAMArgs.init, NVRAMArgs.shouldForceSequoia,
      NVRAMArgs.getSequoiaForce_withFlag]
  have htunnel := active_clear args own .bypassPCITunnelled hown rfl
  have hsequoia := active_clear args own .applySequoiaPatch hown rfl
  constructor
  · rintro ⟨load, hload, kext, hindex, patch, hpatch, hactive, hstray⟩
    rcases (dispatch_unpaired hannounced hpatch).mp hstray with
      ⟨rfl, rfl, rfl | rfl⟩ | ⟨rfl, hkext, rfl⟩
    · obtain ⟨hwanted, hprobe, hall, hoff⟩ := htunnel.mp hactive
      exact ⟨hprobe, hall, ⟨load, hload, hindex.symm⟩,
        Or.inl ⟨hwanted, hoff (by decide)⟩⟩
    · obtain ⟨hwanted, hprobe, hall, hoff⟩ := hsequoia.mp hactive
      exact ⟨hprobe, hall, ⟨load, hload, hindex.symm⟩,
        Or.inr ⟨hforce ▸ hwanted, hoff (by decide)⟩⟩
    · obtain ⟨hwanted, hprobe, hall, -⟩ := htunnel.mp hactive
      refine ⟨hprobe, hall, ?_, hwanted⟩
      rcases hkext with rfl | rfl
      · exact Or.inl ⟨load, hload, hindex.symm⟩
      · exact Or.inr ⟨load, hload, hindex.symm⟩
  · rintro ⟨hprobe, hall, hleak⟩
    have hwitness : ∀ kext patch, LoadsEntry table loads kext → patch ∈ dispatch kext →
        active (NVRAMArgs.init (args.withFlag own.arg false)) patch = true →
        ¬ (toggle patch = some own ↔ kext = announced) →
        Strays own announced (Boot.init (args.withFlag own.arg false) major minor table)
          loads := by
      rintro kext patch ⟨load, hload, hindex⟩ hpatch hactive hstray
      exact ⟨load, hload, kext, hindex.symm, patch, hpatch, hactive, hstray⟩
    cases own <;> simp only [announcedKext, Option.some.injEq, reduceCtorEq] at hannounced
    case skipAGDC =>
      subst hannounced
      obtain ⟨hentry, ⟨hvendor, hoff⟩ | ⟨hforced, hoff⟩⟩ := hleak
      · exact hwitness 0 .bypassPCITunnelled hentry (by decide)
          (htunnel.mpr ⟨hvendor, hprobe, hall, fun _ => hoff⟩) (by decide)
      · exact hwitness 0 .applySequoiaPatch hentry (by decide)
          (hsequoia.mpr ⟨hforce.trans hforced, hprobe, hall, fun _ => hoff⟩) (by decide)
    case skipIOGFX =>
      subst hannounced
      obtain ⟨hentry | hentry, hvendor⟩ := hleak
      · exact hwitness 0 .bypassPCITunnelled hentry (by decide)
          (htunnel.mpr ⟨hvendor, hprobe, hall, fun h => absurd rfl h⟩) (by decide)
      · exact hwitness 5 .bypassPCITunnelled hentry (by decide)
          (htunnel.mpr ⟨hvendor, hprobe, hall, fun h => absurd rfl h⟩) (by decide)
    all_goals exact hleak.elim

/-- Among the lookup patches only that of `bypassPCITunnelled` has 14 bytes. -/
theorem patch_of_size {boot : Boot} {load : KextLoad} {kext : KextEntry} {patch : Patch}
    {found : LookupPatch} (hcall : .lookup found ∈ submissions boot load kext patch)
    (hsize : found.size = 14) : patch = .bypassPCITunnelled := by
  have hlegacy : (legacyThunderboltPatch boot kext).size ≠ 14 := by
    unfold legacyThunderboltPatch
    split
    · simp
    · split <;> simp
  have htunnel : (ioPCITunnelPatch boot kext).size ≠ 14 := by
    unfold ioPCITunnelPatch
    split
    · simp [tunnelCompatiblePatch]
    · split <;> simp [tunnelCompatiblePatch]
  cases patch <;>
    simp only [submissions, List.mem_cons, List.not_mem_nil, or_false, reduceCtorEq,
      Submission.lookup.injEq] at hcall
  case bypassPCITunnelled => rfl
  case unblockLegacyThunderbolt => exact absurd (hcall ▸ hsize) hlegacy
  case bypassIOPCITunnelCompatible => exact absurd (hcall ▸ hsize) htunnel
  case forceAMD24BitOutput =>
    rcases hcall with rfl | rfl <;> simp [maskPatch, bitsPatch] at hsize
  case relaxGraphicsDevicePolicy =>
    rcases hcall with rfl | rfl <;> simp [vitPatch, pikPatch] at hsize
  all_goals
    subst hcall
    simp [surfacePlanePatch, muxControlPatch, sequoiaPatch] at hsize

/-- In a boot that completes, a stray patch shows in the calls. -/
theorem not_isolates_of_strays {own : Toggle} {announced : KextEntry}
    (hannounced : announcedKext own = some announced) (args : BootArgs)
    (major minor : Nat) (table : LoadTable) (loads : List KextLoad) (s : Kernel)
    (hcompleted : ∀ value, completed (run
      (Boot.init (args.withFlag own.arg value) major minor table) loads
      { s with calls := [] }) = true)
    (hstrays : Strays own announced
      (Boot.init (args.withFlag own.arg false) major minor table) loads) :
    ¬ Isolates own announced args major minor table loads s := by
  intro hisolates
  have hskip : announcedKext own ≠ none := by simp [hannounced]
  have hswitched := switched_init args major minor table own
  have hon := run_calls_first _ (eq_ok_of_completed (hcompleted true)) rfl
  have hoff := run_calls_first _ (eq_ok_of_completed (hcompleted false)) rfl
  obtain ⟨load, hload, kext, hindex, patch, hpatch, hactive, hstray⟩ := hstrays
  rcases (dispatch_unpaired hannounced hpatch).mp hstray with
    ⟨rfl, rfl, hpatches⟩ | ⟨rfl, hkext, rfl⟩
  · -- The boot with `kryskipagdc` still patches `AppleGPUWrangler`.
    cases hannounced
    have hother : toggle patch ≠ some .skipAGDC := by
      rcases hpatches with rfl | rfl <;> decide
    rw [← hswitched.active_eq hskip hother] at hactive
    obtain ⟨call, hhead, hcall⟩ := hon load hload 0 hindex patch hpatch hactive
    have htargets : targets table 0 call = true := by
      rcases hpatches with rfl | rfl <;> cases hhead <;> rfl
    have hmem : call ∈ submitted _ loads s := hcall
    rw [hisolates, List.mem_filter, htargets] at hmem
    exact absurd hmem.2 (by decide)
  · -- The boot with `kryskipiogfx` lacks a patch of another kext.
    cases hannounced
    obtain ⟨call, hhead, hcall⟩ := hoff load hload kext hindex _ hpatch hactive
    cases hhead
    have hkept : targets table 1 (.lookup (pciTunnelledPatch kext)) = false := by
      rcases hkext with rfl | rfl <;> rfl
    have hmem : .lookup (pciTunnelledPatch kext) ∈ submitted
        (Boot.init (args.withFlag Toggle.skipIOGFX.arg true) major minor table) loads s := by
      rw [hisolates, List.mem_filter, hkept]
      exact ⟨hcall, rfl⟩
    obtain ⟨_, _, _, _, patch', _, hactive', hcall'⟩ := run_called _ rfl _ hmem
    cases patch_of_size hcall' rfl
    rw [hswitched.active_on rfl] at hactive'
    cases hactive'

end Strays

/-- A skip switch silences exactly the kext it announces unless it leaks; and
where it leaks, every pair of boots that complete shows it. -/
theorem skip_toggle_isolates_iff (own : Toggle) (announced : KextEntry)
    (hannounced : announcedKext own = some announced) (args : BootArgs)
    (major minor : Nat) (table : LoadTable) (loads : List KextLoad) (s : Kernel) :
    (¬ Leaks own args table loads →
        Isolates own announced args major minor table loads s) ∧
      ((∀ value, completed (run (Boot.init (args.withFlag own.arg value) major minor table)
          loads { s with calls := [] }) = true) →
        Isolates own announced args major minor table loads s →
        ¬ Leaks own args table loads) := by
  have hstrays := strays_iff_leaks hannounced args major minor table loads
  constructor
  · intro hconfined
    exact isolates_of_not_strays (by simp [hannounced]) args major minor table loads s
      (hstrays.not.mpr hconfined)
  · intro hcompleted hisolates hleaks
    exact not_isolates_of_strays hannounced args major minor table loads s hcompleted
      (hstrays.mpr hleaks) hisolates

/-- `kryskipmux` on an AMD boot with all kexts. -/
theorem skip_mux_isolates :
    Isolates .skipMux 2 (amdLine []) 24 0 fullTable allLoads freshKernel :=
  (skip_toggle_isolates_iff .skipMux 2 rfl (amdLine []) 24 0 fullTable allLoads
    freshKernel).1 fun hleaks => hleaks.2.2

/-- `kryskipiogfx`, announced as "skipping IOGraphicsFamily patch.", also takes
the patch of `AMDRadeonX4000` away. -/
theorem skip_iogfx_silences_other_kexts :
    ¬ Isolates .skipIOGFX 1 (amdLine []) 24 0 fullTable [loadOf 5] freshKernel := by
  unfold Isolates
  decide +kernel

end PatchSet

end Kryptonite
