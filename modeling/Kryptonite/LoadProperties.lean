/-
`primeAMDLoadProperties` and the hooks that call it (`kern_hooks.cpp`), on a
finite forest of services.  Every registration is paid for by a service whose
two load properties it completes, and completed properties stay.
-/
import Kryptonite.BootArgs
import Mathlib.Data.Finset.Card
import Mathlib.Data.Fintype.Basic

namespace Kryptonite

namespace FunctionHooks

section Registry

inductive OSObject where
  | boolean (value : Bool)
  | data (bytes : List UInt8)
deriving Repr, DecidableEq

/-- The services and their providers.  A provider lies nearer to its root. -/
structure Forest (Node : Type) where
  provider : Node → Option Node
  name : Node → String
  depth : Node → Nat
  decreasing : ∀ node parent, provider node = some parent → depth parent < depth node

/-- The properties of the services, and the `registerService` calls so far. -/
structure Registry (Node : Type) where
  properties : Node → String → Option OSObject
  registered : List Node
  log : List String

variable {Node : Type} [DecidableEq Node]

abbrev RegistryM (Node : Type) := StateM (Registry Node)

def registryLog (text : String) : RegistryM Node Unit :=
  modify fun s => { s with log := s.log ++ ["hooks: " ++ text] }

def registerService (service : Node) : RegistryM Node Unit :=
  modify fun s => { s with registered := s.registered ++ [service] }

def Registry.setProperty (s : Registry Node) (entry : Node) (key : String) (value : OSObject) :
    Registry Node :=
  { s with properties := fun node other =>
      if node = entry ∧ other = key then some value else s.properties node other }

/-- Whether the property had to be set. -/
def ensureBooleanProperty (entry : Node) (key : String) (value : Bool) :
    RegistryM Node Bool := do
  if (← get).properties entry key = some (.boolean value) then
    return false
  else
    modify fun s => s.setProperty entry key (.boolean value)
    return true

/-- The match target of the accelerator personalities. -/
def isPCIDevice (s : Registry Node) (node : Node) : Bool :=
  (s.properties node "vendor-id").isSome && (s.properties node "device-id").isSome

variable (forest : Forest Node)

/-- The loop up the providers, with `changed` and `pciProvider`.  The first
argument bounds the rounds; a chain has no more services than the depth of its
first one allows. -/
def primeChain : Nat → Node → Bool → RegistryM Node (Bool × Option Node)
  | 0, _, changed => return (changed, none)
  | rounds + 1, current, changed => do
      let accelerator ← ensureBooleanProperty current "LoadAccelerator" true
      let services ← ensureBooleanProperty current "LoadHWServices" true
      let changed := changed || accelerator || services
      if isPCIDevice (← get) current then
        return (changed, some current)
      else
        match forest.provider current with
        | none => return (changed, none)
        | some parent => primeChain rounds parent changed

def reportPrimed (result : Bool × Option Node) (reason : String) : RegistryM Node Unit :=
  match result with
  | (true, some pciProvider) => do
      registryLog ("Primed AMD load properties on " ++ forest.name pciProvider ++ " via " ++
        reason ++ ".")
      registerService pciProvider
  | _ => return ()

variable (args : NVRAMArgs)

def primeAMDLoadProperties (service : Option Node) (reason : String) : RegistryM Node Unit :=
  if args.shouldEnableAMDAccelPrime then
    match service with
    | none => return ()
    | some service => do
        let result ← primeChain forest (forest.depth service + 1) service false
        reportPrimed forest result reason
  else
    return ()

end Registry

section Hooks

variable {Node : Type} [DecidableEq Node] (forest : Forest Node) (args : NVRAMArgs)

def kIOReturnNotFound : UInt32 := 0xe00002f0

def amd9500FindProjectByPartNumber (controller : Option Node) : RegistryM Node UInt32 := do
  primeAMDLoadProperties forest args controller "findProjectByPartNumber"
  registryLog "Bypassing AMD9500Controller project selection by part number."
  return kIOReturnNotFound

def amdSupportTestVRAM (controller : Option Node) (reg : UInt32) : RegistryM Node Bool := do
  primeAMDLoadProperties forest args controller "TestVRAM"
  registryLog ("Skipping AMD VRAM self-test on reg " ++ toString reg ++ ".")
  return true

/-- The fields of `AGDCValidateDetailedTiming` that the hook reads or writes. -/
structure DetailedTiming where
  framebufferIndex : UInt32
  modeStatus : UInt32
deriving Repr, DecidableEq

def kAGDCValidateDetailedTiming : UInt32 := 10

/-- The events that prime. -/
def primesOnEvent (event : UInt32) : Bool :=
  event == 1 || event == 2 || event == 0x5b || event == 0x5d

/-- The end of the link-change hook: a refused timing becomes an accepted one. -/
def normaliseTiming (event : UInt32) (ret : Bool) (command : Option DetailedTiming) :
    RegistryM Node (Bool × Option DetailedTiming) :=
  match command with
  | none => return (ret, none)
  | some timing =>
      if event = kAGDCValidateDetailedTiming then do
        registryLog ("AMD detailed timing validation framebuffer=" ++
          toString timing.framebufferIndex ++ " ret=" ++ (if ret then "1" else "0") ++
          " modeStatus=" ++ toString timing.modeStatus ++ ".")
        if ret = false ∨ timing.modeStatus < 1 ∨ 3 < timing.modeStatus then
          registryLog ("Normalising AMD detailed timing validation for framebuffer " ++
            toString timing.framebufferIndex ++ ".")
          return (true, some { timing with modeStatus := 2 })
        else
          return (ret, some timing)
      else
        return (ret, some timing)

/-- `answer` is what the original returns and makes of the event data; none
for an original that is missing. -/
def atiDeviceControlNotifyLinkChange (control : Option Node) (event : UInt32)
    (command : Option DetailedTiming) (answer : Option (Bool × Option DetailedTiming)) :
    RegistryM Node (Bool × Option DetailedTiming) := do
  let (ret, command) ← match answer with
    | some answer => pure answer
    | none => do
        registryLog "Original AMD notifyLinkChange callback missing."
        pure (false, command)
  primeAMDLoadProperties forest args (if primesOnEvent event then control else none)
    "notifyLinkChange"
  normaliseTiming event ret command

inductive HookCall (Node : Type) where
  | findProject (controller : Option Node)
  | testVRAM (controller : Option Node) (reg : UInt32)
  | linkChange (control : Option Node) (event : UInt32) (command : Option DetailedTiming)
      (answer : Option (Bool × Option DetailedTiming))

/-- The service that a call primes. -/
def HookCall.service : HookCall Node → Option Node
  | .findProject controller => controller
  | .testVRAM controller _ => controller
  | .linkChange control event _ _ => if primesOnEvent event then control else none

def HookCall.perform : HookCall Node → RegistryM Node Unit
  | .findProject controller => do
      let _ ← amd9500FindProjectByPartNumber forest args controller
      return ()
  | .testVRAM controller reg => do
      let _ ← amdSupportTestVRAM forest args controller reg
      return ()
  | .linkChange control event command answer => do
      let _ ← atiDeviceControlNotifyLinkChange forest args control event command answer
      return ()

def afterHooks (s : Registry Node) (calls : List (HookCall Node)) : Registry Node :=
  calls.foldl (fun s call => (call.perform forest args s).2) s

end Hooks

section Chain

variable {Node : Type} {forest : Forest Node}

/-- The services from `service` up to and including the first PCI device. -/
inductive PrimedFrom (forest : Forest Node) (s : Registry Node) (service : Node) : Node → Prop
  | service : PrimedFrom forest s service service
  | provider {node parent : Node} (hnode : PrimedFrom forest s service node)
      (hdevice : isPCIDevice s node = false) (hparent : forest.provider node = some parent) :
      PrimedFrom forest s service parent

/-- The chain of a service is the service and, unless it is a PCI device, the
chain of its provider. -/
theorem primedFrom_iff {s : Registry Node} {service node : Node} :
    PrimedFrom forest s service node ↔ node = service ∨
      isPCIDevice s service = false ∧
        ∃ parent, forest.provider service = some parent ∧ PrimedFrom forest s parent node := by
  constructor
  · intro h
    induction h with
    | service => exact .inl rfl
    | provider _ hdevice hparent ih =>
        right
        rcases ih with rfl | ⟨hfirst, parent, hprovider, hchain⟩
        · exact ⟨hdevice, _, hparent, .service⟩
        · exact ⟨hfirst, parent, hprovider, hchain.provider hdevice hparent⟩
  · rintro (rfl | ⟨hdevice, parent, hprovider, hchain⟩)
    · exact .service
    · induction hchain with
      | service => exact PrimedFrom.service.provider hdevice hprovider
      | provider _ hnext hparent ih => exact ih.provider hnext hparent

/-- The chain depends on the PCI devices only. -/
theorem PrimedFrom.transfer {s t : Registry Node} {service node : Node}
    (h : PrimedFrom forest s service node)
    (hdevice : ∀ node, isPCIDevice t node = isPCIDevice s node) :
    PrimedFrom forest t service node := by
  induction h with
  | service => exact .service
  | provider _ hnext hparent ih => exact ih.provider ((hdevice _).trans hnext) hparent

def loadKeys : List String := ["LoadAccelerator", "LoadHWServices"]

/-- One of the two properties is not true. -/
def lacks (s : Registry Node) (node : Node) : Bool :=
  s.properties node "LoadAccelerator" ≠ some (.boolean true) ||
    s.properties node "LoadHWServices" ≠ some (.boolean true)

variable [DecidableEq Node]

/-- Both properties set. -/
def completed (s : Registry Node) (node : Node) : Registry Node :=
  (s.setProperty node "LoadAccelerator" (.boolean true)).setProperty node "LoadHWServices"
    (.boolean true)

theorem setProperty_properties (s : Registry Node) (entry node : Node) (key other : String)
    (value : OSObject) :
    (s.setProperty entry key value).properties node other =
      if node = entry ∧ other = key then some value else s.properties node other := rfl

theorem setProperty_self {s : Registry Node} {entry : Node} {key : String} {value : OSObject}
    (h : s.properties entry key = some value) : s.setProperty entry key value = s := by
  obtain ⟨properties, registered, log⟩ := s
  simp only [Registry.setProperty, Registry.mk.injEq, and_self, and_true]
  funext node other
  split
  · rename_i hsame
    rw [hsame.1, hsame.2]
    exact h.symm
  · rfl

/-- Setting a property that has the value already changes nothing. -/
theorem ensureBooleanProperty_eq (s : Registry Node) (entry : Node) (key : String)
    (value : Bool) :
    ensureBooleanProperty entry key value s =
      (decide (s.properties entry key ≠ some (.boolean value)),
        s.setProperty entry key (.boolean value)) := by
  have hrun : ensureBooleanProperty entry key value s =
      (if s.properties entry key = some (.boolean value) then pure false else do
        modify fun s => s.setProperty entry key (.boolean value)
        pure true : RegistryM Node Bool) s := rfl
  rw [hrun]
  by_cases h : s.properties entry key = some (.boolean value)
  · rw [if_pos h, setProperty_self h, decide_eq_false (not_not_intro h)]
    rfl
  · rw [if_neg h, decide_eq_true h]
    rfl

theorem completed_properties (s : Registry Node) (current node : Node) (key : String) :
    (completed s current).properties node key =
      if node = current ∧ key ∈ loadKeys then some (.boolean true)
      else s.properties node key := by
  simp only [completed, setProperty_properties, loadKeys, List.mem_cons, List.not_mem_nil,
    or_false]
  grind

theorem isPCIDevice_completed (s : Registry Node) (current node : Node) :
    isPCIDevice (completed s current) node = isPCIDevice s node := by
  simp [isPCIDevice, completed_properties, loadKeys]

/-- One round of the loop. -/
theorem primeChain_succ (rounds : Nat) (current : Node) (changed : Bool) (s : Registry Node) :
    primeChain forest (rounds + 1) current changed s =
      if isPCIDevice s current then
        ((changed || lacks s current, some current), completed s current)
      else match forest.provider current with
        | none => ((changed || lacks s current, none), completed s current)
        | some parent =>
            primeChain forest rounds parent (changed || lacks s current)
              (completed s current) := by
  have hchanged : (changed || decide (s.properties current "LoadAccelerator" ≠
      some (.boolean true)) || decide ((s.setProperty current "LoadAccelerator"
        (.boolean true)).properties current "LoadHWServices" ≠ some (.boolean true))) =
      (changed || lacks s current) := by
    have hkeys : ¬ (current = current ∧ "LoadHWServices" = "LoadAccelerator") := fun h =>
      absurd h.2 (by decide)
    rw [setProperty_properties, if_neg hkeys, lacks, Bool.or_assoc]
  rw [primeChain]
  simp only [bind, StateT.bind, ensureBooleanProperty_eq, hchanged]
  have hcompleted := isPCIDevice_completed s current current
  cases hdevice : isPCIDevice s current with
  | true =>
      rw [if_pos rfl]
      exact congrFun (if_pos (hcompleted.trans hdevice)) _
  | false =>
      rw [if_neg Bool.false_ne_true]
      refine (congrFun (if_neg ?_) _).trans ?_
      · exact Bool.eq_false_iff.mp (hcompleted.trans hdevice)
      · cases forest.provider current with
        | none => rfl
        | some parent => rfl

/-- What the loop does from a service on. -/
structure ChainLaw (forest : Forest Node) (s : Registry Node) (service : Node) (changed : Bool)
    (result : Bool × Option Node) (t : Registry Node) : Prop where
  primed : ∀ node, PrimedFrom forest s service node → ∀ key ∈ loadKeys,
    t.properties node key = some (.boolean true)
  others : ∀ node key, ¬ (PrimedFrom forest s service node ∧ key ∈ loadKeys) →
    t.properties node key = s.properties node key
  registered : t.registered = s.registered
  changed : result.1 = true ↔
    changed = true ∨ ∃ node, PrimedFrom forest s service node ∧ lacks s node = true
  found : ∀ device, result.2 = some device ↔
    PrimedFrom forest s service device ∧ isPCIDevice s device = true

theorem lacks_completed_self (s : Registry Node) (service : Node) :
    lacks (completed s service) service = false := by
  simp [lacks, completed_properties, loadKeys]

theorem lacks_completed_of_ne (s : Registry Node) {service node : Node} (h : node ≠ service) :
    lacks (completed s service) node = lacks s node := by
  simp [lacks, completed_properties, h]

/-- The loop ends at the service itself. -/
theorem ChainLaw.stop {s : Registry Node} {service : Node} {pciProvider : Option Node}
    (hchain : ∀ node, PrimedFrom forest s service node ↔ node = service)
    (hprovider : ∀ device, pciProvider = some device ↔
      device = service ∧ isPCIDevice s device = true) (changed : Bool) :
    ChainLaw forest s service changed (changed || lacks s service, pciProvider)
      (completed s service) where
  primed node hnode key hkey := by
    rw [completed_properties, if_pos ⟨(hchain node).mp hnode, hkey⟩]
  others node key hnot := by
    rw [completed_properties, if_neg fun h => hnot ⟨(hchain node).mpr h.1, h.2⟩]
  registered := rfl
  changed := by simp [hchain]
  found device := by rw [hprovider device, hchain device]

/-- The loop goes on to the provider. -/
theorem ChainLaw.step {s t : Registry Node} {service parent : Node} {changed : Bool}
    {result : Bool × Option Node} (hdevice : isPCIDevice s service = false)
    (hparent : forest.provider service = some parent)
    (h : ChainLaw forest (completed s service) parent (changed || lacks s service) result t) :
    ChainLaw forest s service changed result t := by
  have hsame := isPCIDevice_completed s service
  have hrest : ∀ node, PrimedFrom forest (completed s service) parent node ↔
      PrimedFrom forest s parent node := fun node =>
    ⟨fun hnode => hnode.transfer fun other => (hsame other).symm,
      fun hnode => hnode.transfer hsame⟩
  have hchain : ∀ node, PrimedFrom forest s service node ↔
      node = service ∨ PrimedFrom forest (completed s service) parent node := by
    intro node
    rw [primedFrom_iff, hrest]
    simp [hdevice, hparent]
  refine ⟨?_, ?_, h.registered, ?_, ?_⟩
  · intro node hnode key hkey
    by_cases habove : PrimedFrom forest (completed s service) parent node
    · exact h.primed node habove key hkey
    · have hservice := ((hchain node).mp hnode).resolve_right habove
      rw [h.others node key fun hboth => habove hboth.1, completed_properties,
        if_pos ⟨hservice, hkey⟩]
  · intro node key hnot
    have habove : ¬ (PrimedFrom forest (completed s service) parent node ∧ key ∈ loadKeys) :=
      fun hboth => hnot ⟨(hchain node).mpr (.inr hboth.1), hboth.2⟩
    rw [h.others node key habove, completed_properties,
      if_neg fun hboth => hnot ⟨(hchain node).mpr (.inl hboth.1), hboth.2⟩]
  · rw [h.changed, Bool.or_eq_true, or_assoc]
    refine or_congr_right ⟨?_, ?_⟩
    · rintro (hlacks | ⟨node, hnode, hlacks⟩)
      · exact ⟨service, .service, hlacks⟩
      · -- the service itself lacks nothing any more
        have hne : node ≠ service := by
          rintro rfl
          rw [lacks_completed_self] at hlacks
          cases hlacks
        rw [lacks_completed_of_ne s hne] at hlacks
        exact ⟨node, (hchain node).mpr (.inr hnode), hlacks⟩
    · rintro ⟨node, hnode, hlacks⟩
      by_cases hservice : node = service
      · exact .inl (hservice ▸ hlacks)
      · refine .inr ⟨node, ((hchain node).mp hnode).resolve_left hservice, ?_⟩
        rw [lacks_completed_of_ne s hservice]
        exact hlacks
  · intro device
    rw [h.found, hsame, hchain]
    refine and_congr_left fun hpci => (or_iff_right ?_).symm
    rintro rfl
    rw [hdevice] at hpci
    cases hpci

theorem primeChain_law (rounds : Nat) (service : Node) (changed : Bool) (s : Registry Node)
    (hrounds : forest.depth service < rounds) :
    ChainLaw forest s service changed (primeChain forest rounds service changed s).1
      (primeChain forest rounds service changed s).2 := by
  induction rounds generalizing service changed s with
  | zero => exact absurd hrounds (Nat.not_lt_zero _)
  | succ rounds ih =>
      rw [primeChain_succ]
      cases hdevice : isPCIDevice s service with
      | true =>
          rw [if_pos rfl]
          refine ChainLaw.stop (fun node => ?_) (fun device => ?_) changed
          · rw [primedFrom_iff]
            simp [hdevice]
          · constructor
            · rintro ⟨⟩
              exact ⟨rfl, hdevice⟩
            · rintro ⟨rfl, -⟩
              rfl
      | false =>
          rw [if_neg Bool.false_ne_true]
          cases hparent : forest.provider service with
          | none =>
              refine ChainLaw.stop (fun node => ?_) (fun device => ?_) changed
              · rw [primedFrom_iff]
                simp [hparent]
              · refine iff_of_false nofun ?_
                rintro ⟨rfl, hpci⟩
                rw [hdevice] at hpci
                cases hpci
          | some parent =>
              have hdepth := forest.decreasing service parent hparent
              exact (ih parent _ _ (by omega)).step hdevice hparent

end Chain

section Priming

variable {Node : Type} {forest : Forest Node}

/-- What one call has done, for the service that it primes if any. -/
structure PrimeLaw (forest : Forest Node) (s : Registry Node) (service : Option Node)
    (t : Registry Node) : Prop where
  primed : ∀ root ∈ service, ∀ node, PrimedFrom forest s root node → ∀ key ∈ loadKeys,
    t.properties node key = some (.boolean true)
  others : ∀ node key,
    ¬ (∃ root ∈ service, PrimedFrom forest s root node ∧ key ∈ loadKeys) →
      t.properties node key = s.properties node key
  registers : (∃ root ∈ service, (∃ node, PrimedFrom forest s root node ∧ lacks s node = true) ∧
      ∃ device, PrimedFrom forest s root device ∧ isPCIDevice s device = true ∧
        t.registered = s.registered ++ [device]) ∨
    t.registered = s.registered

theorem PrimeLaw.none (s : Registry Node) : PrimeLaw forest s none s where
  primed := nofun
  others _ _ _ := rfl
  registers := .inr rfl

/-- The law does not look at the log. -/
theorem PrimeLaw.relog {s s' t t' : Registry Node} {service : Option Node}
    (h : PrimeLaw forest s' service t) (hproperties : s'.properties = s.properties)
    (hregistered : s'.registered = s.registered) (hend : t'.properties = t.properties)
    (hendRegistered : t'.registered = t.registered) : PrimeLaw forest s service t' := by
  obtain ⟨properties, registered, log⟩ := s
  obtain ⟨properties', registered', log'⟩ := s'
  subst hproperties hregistered
  have hchain : ∀ root node, PrimedFrom forest ⟨properties', registered', log⟩ root node →
      PrimedFrom forest ⟨properties', registered', log'⟩ root node := fun _ _ hnode =>
    hnode.transfer fun _ => rfl
  have hback : ∀ root node, PrimedFrom forest ⟨properties', registered', log'⟩ root node →
      PrimedFrom forest ⟨properties', registered', log⟩ root node := fun _ _ hnode =>
    hnode.transfer fun _ => rfl
  refine ⟨?_, ?_, ?_⟩
  · intro root hroot node hnode key hkey
    rw [hend]
    exact h.primed root hroot node (hchain root node hnode) key hkey
  · intro node key hnot
    rw [hend]
    refine h.others node key ?_
    rintro ⟨root, hroot, hnode, hkey⟩
    exact hnot ⟨root, hroot, hback root node hnode, hkey⟩
  · rw [hendRegistered]
    rcases h.registers with ⟨root, hroot, ⟨node, hnode, hlacks⟩, device, hdevice, hpci, hadded⟩ |
      hsame
    · exact .inl ⟨root, hroot, ⟨node, hback root node hnode, hlacks⟩, device,
        hback root device hdevice, hpci, hadded⟩
    · exact .inr hsame

theorem reportPrimed_properties (forest : Forest Node) (result : Bool × Option Node)
    (reason : String) (s : Registry Node) :
    (reportPrimed forest result reason s).2.properties = s.properties := by
  unfold reportPrimed
  split
  · rfl
  · rfl

theorem reportPrimed_registered (forest : Forest Node) (result : Bool × Option Node)
    (reason : String) (s : Registry Node) :
    (result.1 = true ∧ ∃ device, result.2 = some device ∧
        (reportPrimed forest result reason s).2.registered = s.registered ++ [device]) ∨
      (reportPrimed forest result reason s).2.registered = s.registered := by
  unfold reportPrimed
  split
  · exact .inl ⟨rfl, _, rfl, rfl⟩
  · exact .inr rfl

theorem normaliseTiming_registry (event : UInt32) (ret : Bool) (command : Option DetailedTiming)
    (s : Registry Node) :
    (normaliseTiming event ret command s).2.properties = s.properties ∧
      (normaliseTiming event ret command s).2.registered = s.registered := by
  unfold normaliseTiming
  split
  · exact ⟨rfl, rfl⟩
  · split
    · rename_i timing hevent
      by_cases hrefused : ret = false ∨ timing.modeStatus < 1 ∨ 3 < timing.modeStatus
      · rw [if_pos hrefused]
        exact ⟨rfl, rfl⟩
      · rw [if_neg hrefused]
        exact ⟨rfl, rfl⟩
    · exact ⟨rfl, rfl⟩

variable [DecidableEq Node] {args : NVRAMArgs}

theorem primeAMDLoadProperties_law (forest : Forest Node)
    (henabled : args.shouldEnableAMDAccelPrime = true) (service : Option Node)
    (reason : String) (s : Registry Node) :
    PrimeLaw forest s service (primeAMDLoadProperties forest args service reason s).2 := by
  unfold primeAMDLoadProperties
  rw [if_pos henabled]
  cases service with
  | none => exact PrimeLaw.none s
  | some service =>
      have hlaw := primeChain_law (forest.depth service + 1) service false s (Nat.lt_succ_self _)
      change PrimeLaw forest s (some service) (reportPrimed forest
        (primeChain forest (forest.depth service + 1) service false s).1 reason
        (primeChain forest (forest.depth service + 1) service false s).2).2
      generalize primeChain forest (forest.depth service + 1) service false s = run at hlaw ⊢
      have hproperties := reportPrimed_properties forest run.1 reason run.2
      refine ⟨?_, ?_, ?_⟩
      · rintro root ⟨⟩ node hnode key hkey
        rw [hproperties]
        exact hlaw.primed node hnode key hkey
      · intro node key hnot
        rw [hproperties]
        exact hlaw.others node key fun hboth => hnot ⟨service, rfl, hboth⟩
      · rcases reportPrimed_registered forest run.1 reason run.2 with
          ⟨hchanged, device, hdevice, hadded⟩ | hsame
        · have hlacks := (hlaw.changed.mp hchanged).resolve_left Bool.false_ne_true
          obtain ⟨hchain, hpci⟩ := (hlaw.found device).mp hdevice
          rw [hlaw.registered] at hadded
          exact .inl ⟨service, rfl, hlacks, device, hchain, hpci, hadded⟩
        · exact .inr (hsame.trans hlaw.registered)

theorem perform_law (forest : Forest Node) (henabled : args.shouldEnableAMDAccelPrime = true)
    (call : HookCall Node) (s : Registry Node) :
    PrimeLaw forest s call.service (call.perform forest args s).2 := by
  cases call with
  | findProject controller =>
      exact (primeAMDLoadProperties_law forest henabled controller
        "findProjectByPartNumber" s).relog rfl rfl rfl rfl
  | testVRAM controller reg =>
      exact (primeAMDLoadProperties_law forest henabled controller "TestVRAM" s).relog
        rfl rfl rfl rfl
  | linkChange control event command answer =>
      have hlaw := primeAMDLoadProperties_law forest henabled
        (if primesOnEvent event then control else none) "notifyLinkChange"
      cases answer with
      | some answer =>
          exact (hlaw s).relog rfl rfl (normaliseTiming_registry event answer.1 answer.2 _).1
            (normaliseTiming_registry event answer.1 answer.2 _).2
      | none =>
          exact (hlaw (registryLog "Original AMD notifyLinkChange callback missing." s).2).relog
            rfl rfl (normaliseTiming_registry event false command _).1
            (normaliseTiming_registry event false command _).2

end Priming

section Potential

variable {Node : Type} {forest : Forest Node} {s t : Registry Node} {service : Option Node}

theorem PrimeLaw.isPCIDevice_eq (h : PrimeLaw forest s service t) (node : Node) :
    isPCIDevice t node = isPCIDevice s node := by
  have hkept : ∀ key ∉ loadKeys, t.properties node key = s.properties node key := by
    intro key hkey
    apply h.others
    rintro ⟨root, -, -, hload⟩
    exact hkey hload
  rw [isPCIDevice, isPCIDevice, hkept "vendor-id" (by decide), hkept "device-id" (by decide)]

theorem lacks_eq_false_iff {node : Node} :
    lacks s node = false ↔ ∀ key ∈ loadKeys, s.properties node key = some (.boolean true) := by
  simp [lacks, loadKeys]

theorem PrimeLaw.lacks_primed (h : PrimeLaw forest s service t) {root node : Node}
    (hroot : root ∈ service) (hnode : PrimedFrom forest s root node) : lacks t node = false :=
  lacks_eq_false_iff.mpr (h.primed root hroot node hnode)

/-- Complete properties stay complete. -/
theorem PrimeLaw.lacks_kept (h : PrimeLaw forest s service t) {node : Node}
    (hnode : lacks s node = false) : lacks t node = false := by
  by_cases hchain : ∃ root ∈ service, PrimedFrom forest s root node
  · obtain ⟨root, hroot, hprimed⟩ := hchain
    exact h.lacks_primed hroot hprimed
  · rw [lacks_eq_false_iff] at hnode ⊢
    intro key hkey
    rw [h.others node key fun ⟨root, hroot, hprimed, _⟩ => hchain ⟨root, hroot, hprimed⟩]
    exact hnode key hkey

/-- A call for a chain without gaps registers nothing. -/
theorem PrimeLaw.registered_eq (h : PrimeLaw forest s service t)
    (hcomplete : ∀ root ∈ service, ∀ node, PrimedFrom forest s root node →
      lacks s node = false) : t.registered = s.registered := by
  rcases h.registers with ⟨root, hroot, ⟨node, hnode, hlacks⟩, -⟩ | hsame
  · rw [hcomplete root hroot node hnode] at hlacks
    cases hlacks
  · exact hsame

variable [Fintype Node]

/-- How many services lack one of the two properties. -/
def lackingCount (s : Registry Node) : Nat :=
  (Finset.univ.filter fun node => lacks s node = true).card

/-- Every registration leaves fewer services incomplete. -/
theorem PrimeLaw.potential (h : PrimeLaw forest s service t) :
    t.registered.length + lackingCount t ≤ s.registered.length + lackingCount s := by
  have hsubset : (Finset.univ.filter fun node => lacks t node = true) ⊆
      Finset.univ.filter fun node => lacks s node = true := by
    intro node hnode
    rw [Finset.mem_filter] at hnode ⊢
    refine ⟨hnode.1, ?_⟩
    by_contra hcomplete
    rw [h.lacks_kept (Bool.eq_false_iff.mpr hcomplete)] at hnode
    cases hnode.2
  rcases h.registers with ⟨root, hroot, ⟨node, hnode, hlacks⟩, device, -, -, hadded⟩ | hsame
  · have hfewer : lackingCount t < lackingCount s := by
      apply Finset.card_lt_card
      refine Finset.ssubset_iff_subset_ne.mpr ⟨hsubset, fun heq => ?_⟩
      have hmem : node ∈ Finset.univ.filter fun node => lacks s node = true :=
        Finset.mem_filter.mpr ⟨Finset.mem_univ node, hlacks⟩
      rw [← heq, Finset.mem_filter, h.lacks_primed hroot hnode] at hmem
      cases hmem.2
    rw [hadded, List.length_append, List.length_singleton]
    omega
  · rw [hsame]
    exact Nat.add_le_add_left (Finset.card_le_card hsubset) _

end Potential

section Runs

variable {Node : Type} [DecidableEq Node] {forest : Forest Node} {args : NVRAMArgs}

theorem afterHooks_append (s : Registry Node) (calls more : List (HookCall Node)) :
    afterHooks forest args s (calls ++ more) =
      afterHooks forest args (afterHooks forest args s calls) more := List.foldl_append

theorem afterHooks_law (forest : Forest Node)
    (henabled : args.shouldEnableAMDAccelPrime = true) (s : Registry Node)
    (before : List (HookCall Node)) (call : HookCall Node) :
    PrimeLaw forest (afterHooks forest args s before) call.service
      (afterHooks forest args s (before ++ [call])) := by
  rw [afterHooks_append]
  exact perform_law forest henabled call _

/-- What no run of calls loses. -/
theorem afterHooks_keeps (forest : Forest Node)
    (henabled : args.shouldEnableAMDAccelPrime = true) (calls : List (HookCall Node))
    (s : Registry Node) :
    (∀ node, isPCIDevice (afterHooks forest args s calls) node = isPCIDevice s node) ∧
      ∀ node, lacks s node = false → lacks (afterHooks forest args s calls) node = false := by
  induction calls generalizing s with
  | nil => exact ⟨fun _ => rfl, fun _ h => h⟩
  | cons call calls ih =>
      have hlaw := perform_law forest henabled call s
      obtain ⟨hdevice, hlacks⟩ := ih (call.perform forest args s).2
      exact ⟨fun node => (hdevice node).trans (hlaw.isPCIDevice_eq node),
        fun node hnode => hlacks node (hlaw.lacks_kept hnode)⟩

theorem afterHooks_potential [Fintype Node] (forest : Forest Node)
    (henabled : args.shouldEnableAMDAccelPrime = true) (calls : List (HookCall Node))
    (s : Registry Node) :
    (afterHooks forest args s calls).registered.length +
        lackingCount (afterHooks forest args s calls) ≤
      s.registered.length + lackingCount s := by
  induction calls generalizing s with
  | nil => exact Nat.le_refl _
  | cons call calls ih =>
      exact (ih (call.perform forest args s).2).trans
        (perform_law forest henabled call s).potential

/-- Once a service has been primed, priming it again registers nothing. -/
theorem afterHooks_again (forest : Forest Node)
    (henabled : args.shouldEnableAMDAccelPrime = true) (s : Registry Node)
    (before middle : List (HookCall Node)) {call again : HookCall Node}
    (hservice : again.service = call.service) :
    (afterHooks forest args s (before ++ call :: (middle ++ [again]))).registered =
      (afterHooks forest args s (before ++ call :: middle)).registered := by
  have hfirst := afterHooks_law forest henabled s before call
  obtain ⟨hdevice, hlacks⟩ := afterHooks_keeps forest henabled middle
    (afterHooks forest args s (before ++ [call]))
  have hsecond := afterHooks_law forest henabled s (before ++ call :: middle) again
  have hmiddle : before ++ call :: middle = before ++ [call] ++ middle := by simp
  have hend : before ++ call :: (middle ++ [again]) = before ++ call :: middle ++ [again] := by
    simp
  rw [hend]
  apply hsecond.registered_eq
  intro root hroot node hnode
  rw [hmiddle, afterHooks_append] at hnode ⊢
  rw [hservice] at hroot
  have hchain : PrimedFrom forest (afterHooks forest args s before) root node :=
    hnode.transfer fun other => ((hdevice other).trans (hfirst.isPCIDevice_eq other)).symm
  exact hlacks node (hfirst.lacks_primed hroot hchain)

/-- Over any sequence of hook calls: each primes the chain of its service and
touches nothing else, registrations are bounded by the services that were
incomplete at the start, and a repeated call registers nothing. -/
theorem primed_run [Fintype Node] (forest : Forest Node) (args : NVRAMArgs)
    (henabled : args.shouldEnableAMDAccelPrime = true) (s : Registry Node)
    (calls : List (HookCall Node)) :
    (∀ before call rest, calls = before ++ call :: rest →
      PrimeLaw forest (afterHooks forest args s before) call.service
        (afterHooks forest args s (before ++ [call]))) ∧
    (afterHooks forest args s calls).registered.length ≤
      s.registered.length + lackingCount s ∧
    ∀ before call middle again rest, calls = before ++ call :: (middle ++ again :: rest) →
      again.service = call.service →
      (afterHooks forest args s (before ++ call :: (middle ++ [again]))).registered =
        (afterHooks forest args s (before ++ call :: middle)).registered := by
  refine ⟨?_, ?_, ?_⟩
  · intro before call rest _
    exact afterHooks_law forest henabled s before call
  · have hpotential := afterHooks_potential forest henabled calls s
    omega
  · intro before call middle again rest _ hservice
    exact afterHooks_again forest henabled s before middle hservice

/-- A controller and an accelerator below one PCI device. -/
def gpuForest : Forest (Fin 3) where
  provider node := if node = 0 then none else some 0
  name _ := "GFX0"
  depth node := node
  decreasing node parent h := by
    split at h
    · cases h
    · rename_i hnode
      cases h
      exact Fin.pos_iff_ne_zero.mpr hnode

def gpuRegistry : Registry (Fin 3) where
  properties node key :=
    if node = 0 ∧ key ∈ ["vendor-id", "device-id"] then some (.data [0x02, 0x10]) else none
  registered := []
  log := []

def primeArgs : NVRAMArgs :=
  NVRAMArgs.init
    { argInt := fun name => if name = "kryamdaccelprime" then some 1 else none
      argString := fun _ => none
      argFlag := fun name => name = "kryamdaccelprime" }

/-- The three hooks, on both services. -/
def gpuCalls : List (HookCall (Fin 3)) :=
  [.findProject (some 1), .testVRAM (some 1) 0, .linkChange (some 2) 1 none none,
    .findProject (some 2)]

theorem gpuCalls_registered_le :
    (afterHooks gpuForest primeArgs gpuRegistry gpuCalls).registered.length ≤
      gpuRegistry.registered.length + lackingCount gpuRegistry :=
  (primed_run gpuForest primeArgs (by decide) gpuRegistry gpuCalls).2.1

example : (afterHooks gpuForest primeArgs gpuRegistry gpuCalls).registered = [0, 0] := by
  decide

end Runs

end FunctionHooks

end Kryptonite
