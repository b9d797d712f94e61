/-
The two routes of `disableIntelFramebufferAGDC`.  The source takes the solved
address and the original pointer as the sign that the vendor route was made;
the patcher writes the original pointer before it is able to fail twice more.
-/
import Kryptonite.PatchSet

namespace Kryptonite

open Script KernelPatcher

section Attempts

/-- The trampoline that ends up in the original pointer. -/
def RouteFate.trampoline : RouteFate → Option Nat
  | .panics => none
  | .noTrampoline _ => none
  | .noPatches trampoline => some trampoline
  | .writeProtected trampoline => some trampoline
  | .routed _ trampoline _ => some trampoline

/-- The function was routed. -/
def RouteFate.jumps : RouteFate → Bool
  | .routed _ _ _ => true
  | _ => false

/-- An attempt that comes to an end; a trampoline is an address. -/
def RouteFate.Ends (fate : RouteFate) : Prop :=
  match fate with
  | .panics => False
  | fate => fate.trampoline ≠ some 0

variable (load : KextLoad) (request : RouteRequest)

/-- The address of a symbol, 0 for one that is not there. -/
def symbolAddress (machine : Machine) (id : Nat) (symbol : String) : Nat :=
  ((machine.symbols id).map fun addresses => addresses symbol).getD 0

def sourceOf : Nat := symbolAddress load.machine load.index request.symbol

def fateOf : RouteFate := load.machine.fate load.index request

/-- The symbol is missing, or it lies in the kext and the attempt to route it
ends in one of the ways other than a panic. -/
def Attemptable : Prop :=
  sourceOf load request = 0 ∨
    (load.address ≤ sourceOf load request ∧
      sourceOf load request < load.address + load.size) ∧ (fateOf load request).Ends

/-- The symbol can be routed. -/
def canRoute : Bool := sourceOf load request ≠ 0 && (fateOf load request).jumps

/-- What an attempt adds to the routes. -/
def routesOf : List (Nat × RouteRequest) :=
  if canRoute load request then [(load.index, request)] else []

/-- The original pointers after an attempt. -/
def orgsAfter (orgs : Hook → Nat) : Hook → Nat := fun hook =>
  if sourceOf load request ≠ 0 ∧ some hook = request.org then
    (fateOf load request).trampoline.getD (orgs hook)
  else orgs hook

end Attempts

section Routes

/-- The part of the state that routes are about. -/
structure Shows (calls : List Submission) (routes : List (Nat × RouteRequest))
    (orgs : Hook → Nat) (s : Kernel) : Prop where
  calls : s.calls = calls
  routes : s.routes = routes
  orgs : s.orgs = orgs

variable {calls : List Submission} {routes : List (Nat × RouteRequest)} {orgs : Hook → Nat}
variable {load : KextLoad} {request : RouteRequest}

theorem syslog_shows (origin text : String) :
    Triple (Shows calls routes orgs) (syslog origin text) (fun _ => Shows calls routes orgs)
      fun _ _ => False :=
  Triple.modify fun _ h => ⟨h.calls, h.routes, h.orgs⟩

theorem setError_shows (code : Error) :
    Triple (Shows calls routes orgs) (setError code) (fun _ => Shows calls routes orgs)
      fun _ _ => False :=
  Triple.modify fun _ h => ⟨h.calls, h.routes, h.orgs⟩

theorem updateImage_shows (index : Nat) (f : Image → Image) :
    Triple (Shows calls routes orgs) (updateImage index f) (fun _ => Shows calls routes orgs)
      fun _ _ => False :=
  Triple.modify fun _ h => ⟨h.calls, h.routes, h.orgs⟩

theorem setOrg_shows (org : Option Hook) (trampoline : Nat) :
    Triple (Shows calls routes orgs) (setOrg org trampoline)
      (fun _ => Shows calls routes fun hook =>
        if some hook = org then trampoline else orgs hook) fun _ _ => False := by
  refine Triple.modify fun s h => ⟨h.calls, h.routes, ?_⟩
  rw [h.orgs]

theorem solveSymbol_shows (machine : Machine) (id : Nat) (symbol : String) :
    Triple (Shows calls routes orgs) (solveSymbol machine id symbol)
      (fun address s => address = symbolAddress machine id symbol ∧ Shows calls routes orgs s)
      fun _ _ => False := by
  unfold solveSymbol symbolAddress
  split
  · rename_i hsymbols
    refine Triple.seq (syslog_shows _ _) (Triple.seq (setError_shows _) (Triple.pure ?_))
    intro s hs
    rw [hsymbols]
    exact ⟨rfl, hs⟩
  · rename_i addresses hsymbols
    rw [hsymbols]
    have hreturn : Triple (Shows calls routes orgs) (pure (addresses symbol) : PatcherM Nat)
        (fun address s => address = addresses symbol ∧ Shows calls routes orgs s)
        fun _ _ => False :=
      Triple.pure fun s hs => ⟨rfl, hs⟩
    dsimp only
    apply Triple.ite
    · exact fun _ => Triple.seq (setError_shows _) hreturn
    · exact fun _ => hreturn

theorem solveRequest_shows (h : Attemptable load request) :
    Triple (Shows calls routes orgs)
      (solveRequest load.machine load.index request load.address load.size)
      (fun source s => source = sourceOf load request ∧ Shows calls routes orgs s)
      fun _ _ => False := by
  refine Triple.ite (fun _ => ?_) fun _ => solveSymbol_shows _ _ _
  refine (solveSymbol_shows _ _ _).bind fun address => ?_
  refine Triple.ite (fun hzero => Triple.pure ?_) fun hsource => ?_
  · rintro s ⟨haddress, hs⟩
    exact ⟨hzero.symm.trans haddress, hs⟩
  · refine Triple.ite (fun _ => Triple.pure fun s hs => hs) fun hrange => ?_
    -- an address outside the kext is not among the attempts
    rintro s ⟨haddress, hs⟩
    have haddress : address = sourceOf load request := haddress
    rcases h with hmissing | ⟨hinside, -⟩
    · exact absurd (haddress.trans hmissing) hsource
    · rw [haddress] at hrange
      exact absurd hinside hrange

theorem updateImages_shows {γ : Type} (xs : List γ) (index : Nat) (f : γ → Image → Image) :
    Triple (Shows calls routes orgs) (xs.forM fun x => updateImage index (f x))
      (fun _ => Shows calls routes orgs) fun _ _ => False :=
  Triple.forM (fun _ => Shows calls routes orgs) fun _ _ _ _ => updateImage_shows _ _

theorem writeRoute_shows (id trampoline : Nat) (stores : List (Nat × List UInt8)) :
    Triple (Shows calls routes orgs) (writeRoute id request trampoline stores)
      (fun _ => Shows calls (routes ++ [(id, request)]) fun hook =>
        if some hook = request.org then trampoline else orgs hook) fun _ _ => False := by
  apply Triple.seq (setOrg_shows _ _)
  apply Triple.seq (updateImages_shows stores id fun store image => image.store store.1 store.2)
  refine Triple.modify fun s h => ⟨h.calls, ?_, h.orgs⟩
  rw [h.routes]

/-- What an attempt does once the symbol has been found. -/
theorem routeFunctionInternal_shows (machine : Machine) (id : Nat)
    (h : (machine.fate id request).Ends) :
    Triple (Shows calls routes orgs) (routeFunctionInternal machine id request)
      (fun wrapper s => wrapper ≠ 0 ∧
        Shows calls
          (routes ++ if (machine.fate id request).jumps then [(id, request)] else [])
          (fun hook => if some hook = request.org then
            (machine.fate id request).trampoline.getD (orgs hook) else orgs hook) s)
      fun _ _ => False := by
  unfold routeFunctionInternal
  cases hfate : machine.fate id request with
  | panics =>
      rw [hfate] at h
      exact h.elim
  | noTrampoline error =>
      refine Triple.seq (setError_shows _) (Triple.pure fun s hs => ⟨nofun, hs.calls, ?_, ?_⟩)
      · exact hs.routes.trans (List.append_nil _).symm
      · rw [hs.orgs]
        funext hook
        exact (ite_self _).symm
  | noPatches trampoline =>
      apply Triple.seq (setOrg_shows _ _)
      refine Triple.seq (syslog_shows _ _) (Triple.seq (setError_shows _) (Triple.pure ?_))
      exact fun s hs => ⟨nofun, hs.calls, hs.routes.trans (List.append_nil _).symm, hs.orgs⟩
  | writeProtected trampoline =>
      apply Triple.seq (setOrg_shows _ _)
      refine Triple.seq (syslog_shows _ _) (Triple.seq (setError_shows _) (Triple.pure ?_))
      exact fun s hs => ⟨nofun, hs.calls, hs.routes.trans (List.append_nil _).symm, hs.orgs⟩
  | routed created trampoline stores =>
      rw [hfate] at h
      have htrampoline : trampoline ≠ 0 := fun hzero => h (congrArg some hzero)
      have hreturn : ∀ pre : Kernel → Prop, Triple pre (pure trampoline : PatcherM Nat)
          (fun wrapper s => wrapper ≠ 0 ∧ pre s) fun _ _ => False :=
        fun pre => Triple.pure fun s hs => ⟨htrampoline, hs⟩
      cases created with
      | true =>
          apply Triple.seq (setError_shows _)
          exact Triple.seq (writeRoute_shows id trampoline stores) (hreturn _)
      | false => exact Triple.seq (writeRoute_shows id trampoline stores) (hreturn _)

theorem reportFailure_shows (verb : String) :
    Triple (Shows calls routes orgs) (reportFailure verb request)
      (fun _ => Shows calls routes orgs) fun _ _ => False :=
  (Triple.read _).bind fun _ => Triple.seq (syslog_shows _ _) (setError_shows _)

theorem routeMultiple_shows (h : Attemptable load request) :
    Triple (Shows calls routes orgs)
      (routeMultiple load.machine load.index request load.address load.size)
      (fun result s => result.2 = sourceOf load request ∧
        Shows (calls ++ [.route load.index request]) (routes ++ routesOf load request)
          (orgsAfter load request orgs) s)
      fun _ _ => False := by
  have hsubmit : Triple (Shows calls routes orgs) (submit (.route load.index request))
      (fun _ => Shows (calls ++ [.route load.index request]) routes orgs) fun _ _ => False := by
    refine Triple.modify fun s hs => ⟨?_, hs.routes, hs.orgs⟩
    rw [hs.calls]
  refine Triple.seq hsubmit ((solveRequest_shows h).bindValue ?_)
  by_cases hmissing : sourceOf load request = 0
  · have hroutes : routesOf load request = [] := by
      rw [routesOf, canRoute, hmissing]
      rfl
    have horgs : orgsAfter load request orgs = orgs := by
      funext hook
      rw [orgsAfter, if_neg fun hboth => hboth.1 hmissing]
    rw [if_pos hmissing, hroutes, horgs, List.append_nil, hmissing]
    refine Triple.seq (reportFailure_shows "solve") ?_
    exact Triple.pure fun s hs => ⟨rfl, hs⟩
  · have hends : (fateOf load request).Ends := (h.resolve_left hmissing).2
    have hroutes : routesOf load request =
        if (fateOf load request).jumps then [(load.index, request)] else [] := by
      simp [routesOf, canRoute, hmissing]
    have horgs : orgsAfter load request orgs = fun hook => if some hook = request.org then
        (fateOf load request).trampoline.getD (orgs hook) else orgs hook := by
      funext hook
      simp [orgsAfter, hmissing]
    rw [if_neg hmissing, hroutes, horgs]
    apply Triple.seq (updateImages_shows _ _ _)
    refine (routeFunctionInternal_shows load.machine load.index hends).bind fun wrapper => ?_
    refine Triple.ite (fun hzero => ?_) fun _ => Triple.pure fun s hs => ⟨rfl, hs.2⟩
    exact fun s hs => absurd hzero hs.1

/-- What one call of the applicator does. -/
theorem applyRoute_shows (h : Attemptable load request) (patchName : String) :
    Triple (Shows calls routes orgs) (Patches.applyRoute load request patchName)
      (fun source s => source = sourceOf load request ∧
        Shows (calls ++ [.route load.index request]) (routes ++ routesOf load request)
          (orgsAfter load request orgs) s)
      fun _ _ => False := by
  refine Triple.seq (syslog_shows _ _) ((routeMultiple_shows h).bind fun result => ?_)
  by_cases hsource : result.2 = sourceOf load request
  · refine (Triple.read _).bind fun error => ?_
    have hreturn : ∀ pre : Kernel → Prop, Triple pre (pure result.2 : PatcherM Nat)
        (fun source s => source = sourceOf load request ∧ pre s) fun _ _ => False :=
      fun pre => Triple.pure fun s hs => ⟨hsource, hs⟩
    apply Triple.ite
    · intro _
      refine Triple.seq ((syslog_shows _ _).weakenPre fun s hs => hs.2) ?_
      exact Triple.seq (setError_shows _) (hreturn _)
    · intro _
      exact Triple.seq ((syslog_shows _ _).weakenPre fun s hs => hs.2) (hreturn _)
  · exact fun s hs => absurd hs.1 hsource

end Routes

section Fallback

variable {boot : Boot} {load : KextLoad}

/-- The feature is on. -/
structure Disabling (boot : Boot) : Prop where
  asked : boot.args.shouldEnableIntelAGDCDisabler = true
  probe : boot.args.isProbeMode = false
  skipAll : boot.args.shouldSkipAllPatches = false

/-- The source goes on to the legacy route. -/
def FallsBack (load : KextLoad) (orgs : Hook → Nat) : Prop :=
  ¬ (sourceOf load Patches.vendorRequest ≠ 0 ∧
    orgsAfter load Patches.vendorRequest orgs .intelFBClientDoAttribute ≠ 0)

instance (load : KextLoad) (orgs : Hook → Nat) : Decidable (FallsBack load orgs) :=
  inferInstanceAs (Decidable (¬ _))

theorem disableIntelFramebufferAGDC_shows {calls : List Submission}
    {routes : List (Nat × RouteRequest)} {orgs : Hook → Nat} (hon : Disabling boot)
    (hvendor : Attemptable load Patches.vendorRequest)
    (hlegacy : Attemptable load Patches.legacyRequest) :
    Triple (Shows calls routes orgs) (Patches.disableIntelFramebufferAGDC boot load)
      (fun _ => if FallsBack load orgs then
          Shows (calls ++ [.route load.index Patches.vendorRequest] ++
              [.route load.index Patches.legacyRequest])
            (routes ++ routesOf load Patches.vendorRequest ++
              routesOf load Patches.legacyRequest)
            (orgsAfter load Patches.legacyRequest (orgsAfter load Patches.vendorRequest orgs))
        else
          Shows (calls ++ [.route load.index Patches.vendorRequest])
            (routes ++ routesOf load Patches.vendorRequest)
            (orgsAfter load Patches.vendorRequest orgs))
      fun _ _ => False := by
  have hguard : Patches.shouldSkipFeature boot.args "disableIntelFramebufferAGDC"
      boot.args.shouldEnableIntelAGDCDisabler = pure false := by
    rw [Patches.shouldSkipFeature, hon.asked, hon.probe, hon.skipAll]
    rfl
  have hread : ∀ {calls routes} {orgs : Hook → Nat}, Triple (Shows calls routes orgs)
      (originalOf .intelFBClientDoAttribute)
      (fun original s => original = orgs .intelFBClientDoAttribute ∧ Shows calls routes orgs s)
      fun _ _ => False :=
    fun s hs => ⟨congrFun hs.orgs _, hs⟩
  rw [Patches.disableIntelFramebufferAGDC, hguard, pure_bind]
  refine (applyRoute_shows hvendor _).bindValue (hread.bindValue ?_)
  by_cases hfall : FallsBack load orgs
  · rw [if_pos hfall]
    refine Triple.ite (fun hkept => absurd hkept hfall) fun _ => ?_
    apply Triple.seq (setError_shows _)
    exact (applyRoute_shows hlegacy _).bindValue (Triple.pure fun s hs => hs)
  · rw [if_neg hfall]
    exact Triple.ite (fun _ => Triple.pure fun s hs => hs) fun hnot => absurd hnot hfall

/-- One of the two symbols is routed whenever that is possible. -/
structure SingleRoute (load : KextLoad) (s t : Kernel) : Prop where
  attempted : .route load.index Patches.legacyRequest ∈ t.calls.drop s.calls.length ↔
    (load.index, Patches.vendorRequest) ∉ t.routes.drop s.routes.length
  single : canRoute load Patches.vendorRequest = true ∨
      canRoute load Patches.legacyRequest = true →
    ∃ request ∈ [Patches.vendorRequest, Patches.legacyRequest],
      t.routes.drop s.routes.length = [(load.index, request)] ∧
      (fateOf load request).trampoline = some (t.orgs .intelFBClientDoAttribute)

theorem requests_ne : Patches.vendorRequest ≠ Patches.legacyRequest := by
  decide

theorem routesOf_of_canRoute {request : RouteRequest} (h : canRoute load request = true) :
    routesOf load request = [(load.index, request)] := if_pos h

theorem routesOf_of_not_canRoute {request : RouteRequest} (h : ¬ canRoute load request = true) :
    routesOf load request = [] := if_neg h

/-- After a route the original pointer is its trampoline. -/
theorem trampoline_of_canRoute {request : RouteRequest} {hook : Hook}
    (h : canRoute load request = true) (horg : request.org = some hook) (orgs : Hook → Nat) :
    (fateOf load request).trampoline = some (orgsAfter load request orgs hook) := by
  obtain ⟨hsource, hjumps⟩ := Bool.and_eq_true_iff.mp h
  have hsource : sourceOf load request ≠ 0 := of_decide_eq_true hsource
  rw [orgsAfter, if_pos ⟨hsource, horg.symm⟩]
  cases hfate : fateOf load request with
  | routed created trampoline stores => rfl
  | panics | noTrampoline | noPatches | writeProtected =>
      rw [hfate] at hjumps
      cases hjumps

theorem RouteFate.Ends.trampoline_ne {fate : RouteFate} (h : fate.Ends) :
    fate.trampoline ≠ some 0 := by
  cases fate with
  | panics => exact h.elim
  | noTrampoline | noPatches | writeProtected | routed => exact h

theorem fallsBack_iff (hvendor : Attemptable load Patches.vendorRequest) (orgs : Hook → Nat) :
    FallsBack load orgs ↔ sourceOf load Patches.vendorRequest = 0 ∨
      (fateOf load Patches.vendorRequest).trampoline = none ∧
        orgs .intelFBClientDoAttribute = 0 := by
  by_cases hmissing : sourceOf load Patches.vendorRequest = 0
  · exact iff_of_true (fun hboth => hboth.1 hmissing) (.inl hmissing)
  · have hne := (hvendor.resolve_left hmissing).2.trampoline_ne
    have horg : orgsAfter load Patches.vendorRequest orgs .intelFBClientDoAttribute =
        (fateOf load Patches.vendorRequest).trampoline.getD
          (orgs .intelFBClientDoAttribute) :=
      if_pos ⟨hmissing, rfl⟩
    rw [FallsBack, horg]
    cases htrampoline : (fateOf load Patches.vendorRequest).trampoline with
    | none => simp [hmissing]
    | some trampoline =>
        have hnonzero : trampoline ≠ 0 := fun hzero =>
          hne (htrampoline.trans (congrArg some hzero))
        simp [hmissing, hnonzero]

theorem not_fallsBack_of_canRoute (hvendor : Attemptable load Patches.vendorRequest)
    (h : canRoute load Patches.vendorRequest = true) (orgs : Hook → Nat) :
    ¬ FallsBack load orgs := by
  intro hfall
  have htrampoline := trampoline_of_canRoute h rfl orgs
  rcases (fallsBack_iff hvendor orgs).mp hfall with hmissing | ⟨hnone, -⟩
  · rw [canRoute, hmissing] at h
    cases h
  · rw [hnone] at htrampoline
    cases htrampoline

/-- The inference from address and original pointer is right for a vendor
symbol that is missing or routed; for one without a trampoline it is right if
no earlier attempt has left an original pointer, and for one whose trampoline
could not be used it is wrong. -/
theorem disableIntelFramebufferAGDC_single_iff (boot : Boot) (load : KextLoad)
    (hon : Disabling boot) (hvendor : Attemptable load Patches.vendorRequest)
    (hlegacy : Attemptable load Patches.legacyRequest) (s : Kernel) :
    ∃ t, Patches.disableIntelFramebufferAGDC boot load s = .ok () t ∧
      (SingleRoute load s t ↔ canRoute load Patches.vendorRequest = true ∨
        sourceOf load Patches.vendorRequest = 0 ∨
          (fateOf load Patches.vendorRequest).trampoline = none ∧
            s.orgs .intelFBClientDoAttribute = 0) := by
  have hstart : Shows s.calls s.routes s.orgs s := ⟨rfl, rfl, rfl⟩
  obtain ⟨_, t, hrun, hend⟩ :=
    (disableIntelFramebufferAGDC_shows hon hvendor hlegacy).total hstart
  refine ⟨t, hrun, ?_⟩
  rw [← fallsBack_iff hvendor s.orgs]
  by_cases hfall : FallsBack load s.orgs
  · have hcannot : ¬ canRoute load Patches.vendorRequest = true := fun h =>
      not_fallsBack_of_canRoute hvendor h s.orgs hfall
    rw [if_pos hfall, routesOf_of_not_canRoute hcannot, List.append_nil,
      List.append_assoc] at hend
    refine iff_of_true ⟨?_, ?_⟩ (.inr hfall)
    · rw [hend.calls, hend.routes, List.drop_left, List.drop_left]
      refine iff_of_true (by simp) ?_
      unfold routesOf
      split
      · simp [requests_ne]
      · exact List.not_mem_nil
    · intro hcan
      have hcan := hcan.resolve_left hcannot
      refine ⟨_, List.mem_cons_of_mem _ List.mem_cons_self, ?_, ?_⟩
      · rw [hend.routes, List.drop_left, routesOf_of_canRoute hcan]
      · rw [hend.orgs]
        exact trampoline_of_canRoute hcan rfl _
  · rw [if_neg hfall] at hend
    by_cases hcan : canRoute load Patches.vendorRequest = true
    · rw [routesOf_of_canRoute hcan] at hend
      refine iff_of_true ⟨?_, ?_⟩ (.inl hcan)
      · rw [hend.calls, hend.routes, List.drop_left, List.drop_left]
        simp [requests_ne.symm]
      · intro _
        refine ⟨_, List.mem_cons_self, ?_, ?_⟩
        · rw [hend.routes, List.drop_left]
        · rw [hend.orgs]
          exact trampoline_of_canRoute hcan rfl _
    · -- neither routed nor followed by another attempt
      rw [routesOf_of_not_canRoute hcan] at hend
      refine iff_of_false ?_ fun hor => hor.elim hcan hfall
      intro hsingle
      have hattempted := hsingle.attempted
      rw [hend.calls, hend.routes, List.drop_left, List.drop_left] at hattempted
      simp [requests_ne.symm] at hattempted

/-- A boot with the Intel AGDC feature. -/
def agdcBoot : Boot := Boot.init (PatchSet.amdLine ["kryigfxagdc"]) 19 0 PatchSet.fullTable

theorem agdcBoot_disabling : Disabling agdcBoot where
  asked := by decide
  probe := by decide
  skipAll := by decide

/-- A machine that refuses to write the jump of this symbol. -/
def protectingMachine (symbol : String) : Machine :=
  { PatchSet.willingMachine with
    fate := fun _ request =>
      if request.symbol = symbol then .writeProtected 0x9000 else .routed true 0x9100 [] }

def framebufferLoading (machine : Machine) : KextLoad := ⟨11, 0x1000, 0x100, machine⟩

theorem vendor_routed :
    ∃ t, Patches.disableIntelFramebufferAGDC agdcBoot
        (framebufferLoading PatchSet.willingMachine) PatchSet.freshKernel = .ok () t ∧
      SingleRoute (framebufferLoading PatchSet.willingMachine) PatchSet.freshKernel t := by
  have hattemptable : ∀ request,
      Attemptable (framebufferLoading PatchSet.willingMachine) request := by
    intro request
    have hrange : 0x1000 ≤ 0x1000 ∧ 0x1000 < 0x1000 + 0x100 := by decide
    have htrampoline : some 0x9000 ≠ some 0 := by decide
    exact .inr ⟨hrange, htrampoline⟩
  obtain ⟨t, hrun, hiff⟩ := disableIntelFramebufferAGDC_single_iff agdcBoot
    (framebufferLoading PatchSet.willingMachine) agdcBoot_disabling (hattemptable _)
    (hattemptable _) PatchSet.freshKernel
  exact ⟨t, hrun, hiff.mpr (.inl (by decide))⟩

/-- The routes and the calls of a run. -/
def routedBy (machine : Machine) : List (Nat × RouteRequest) × List Submission :=
  let t := endState (Patches.disableIntelFramebufferAGDC agdcBoot
    (framebufferLoading machine) PatchSet.freshKernel)
  (t.routes, t.calls)

/-- The legacy symbol could be routed and is not tried. -/
theorem vendor_protected_unrouted :
    canRoute (framebufferLoading (protectingMachine Patches.vendorRequest.symbol))
        Patches.legacyRequest = true ∧
      routedBy (protectingMachine Patches.vendorRequest.symbol) =
        ([], [.route 11 Patches.vendorRequest]) := by
  decide +kernel

end Fallback

end Kryptonite
