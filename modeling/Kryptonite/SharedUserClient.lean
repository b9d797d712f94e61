/-
The two hooks that relax the output size of a user-client method
(`kern_hooks.cpp`).  Both return the address of one static descriptor, so what
a caller holds is decided by every later call that writes it.
-/
import Kryptonite.ByteWindow

namespace Kryptonite

namespace FunctionHooks

open ByteWindow

section Source

/-- `IOExternalMethod`; object and function are addresses. -/
structure IOExternalMethod where
  object : Nat
  func : Nat
  flags : UInt32
  count0 : UInt64
  count1 : UInt64
deriving Repr, DecidableEq

def kIOUCTypeMask : UInt32 := 0x0000000f

def kIOUCScalarIStructO : UInt32 := 2

def kIOUCStructIStructO : UInt32 := 3

def kIOUCVariableStructureSize : UInt64 := 0xffffffff

def variableOutputSelector : UInt32 := 6003

def variableOutputNormalizedSelector : UInt32 := 2

/-- A descriptor's address: in a driver's own table, or that of
`gAMDSharedUserClientVariableOutputMethod`. -/
inductive MethodPointer where
  | table (address : Nat)
  | variableOutput
deriving Repr, DecidableEq

/-- The statics of the hooks. -/
structure Statics where
  variableOutputMethod : IOExternalMethod
  variableOutputLogged : Bool
  log : List String

abbrev HookM := StateM Statics

def hookLog (text : String) : HookM Unit :=
  modify fun s => { s with log := s.log ++ ["hooks: " ++ text] }

/-- The drivers' tables, and the originals that look methods up in them; an
original that was not routed is missing. -/
structure Originals (Client : Type) where
  tables : Nat → IOExternalMethod
  amdAccel : Option (Client → UInt32 → Option Nat)
  ioAccel : Option (Client → UInt32 → Option Nat)

def methodType (method : IOExternalMethod) : UInt32 := method.flags &&& kIOUCTypeMask

def selectorLine (origin : String) (index : UInt32) (method : IOExternalMethod) : String :=
  origin ++ " shared user-client selector " ++ toString index ++ " flags=" ++
    hexNumber method.flags.toNat ++ " count0=" ++ hexNumber method.count0.toNat ++
    " count1=" ++ hexNumber method.count1.toNat ++ "."

def relaxingLine (origin note : String) (index : UInt32) (method : IOExternalMethod) : String :=
  "Relaxing " ++ origin ++ " shared user-client selector " ++ toString index ++
    (if index = variableOutputNormalizedSelector then note else "") ++
    " output size check from " ++ hexNumber method.count1.toNat ++ " to variable."

variable {Client : Type} (originals : Originals Client)

/-- The common body; the hooks differ in their messages and in how often
`announce` logs. -/
def getTargetAndMethodForIndex (origin missing note : String)
    (announce : UInt32 → IOExternalMethod → HookM Unit)
    (original : Option (Client → UInt32 → Option Nat)) (client : Client) (index : UInt32) :
    HookM (Option MethodPointer) :=
  match original with
  | none => do
      hookLog missing
      return none
  | some resolve =>
      match resolve client index with
      | none => return none
      | some address => do
          let method := originals.tables address
          if index ≠ variableOutputSelector ∧ index ≠ variableOutputNormalizedSelector then
            return some (.table address)
          else
            announce index method
            if methodType method ≠ kIOUCScalarIStructO ∧
                methodType method ≠ kIOUCStructIStructO then
              return some (.table address)
            else if method.count1 = kIOUCVariableStructureSize then
              return some (.table address)
            else
              modify fun s => { s with
                variableOutputMethod := { method with count1 := kIOUCVariableStructureSize } }
              hookLog (relaxingLine origin note index method)
              return some .variableOutput

/-- The selector is logged the first time only. -/
def announceOnce (index : UInt32) (method : IOExternalMethod) : HookM Unit := do
  unless (← get).variableOutputLogged do
    hookLog (selectorLine "AMD" index method)
    modify fun s => { s with variableOutputLogged := true }

def amdAccelSharedUserClientGetTargetAndMethodForIndex (client : Client) (index : UInt32) :
    HookM (Option MethodPointer) :=
  getTargetAndMethodForIndex originals "AMD"
    "Original AMD shared user-client method resolver missing."
    " (normalized from shared shim selector)" announceOnce originals.amdAccel client index

def ioAccelSharedUserClientGetTargetAndMethodForIndex (client : Client) (index : UInt32) :
    HookM (Option MethodPointer) :=
  getTargetAndMethodForIndex originals "IOAccel"
    "Original IOAccel shared user-client method resolver missing."
    " (normalized shared selector)"
    (fun index method => hookLog (selectorLine "IOAccel" index method))
    originals.ioAccel client index

end Source

section Calls

variable {Client : Type} (originals : Originals Client)

inductive Resolver where
  | amdAccel
  | ioAccel
deriving Repr, DecidableEq

structure Call (Client : Type) where
  resolver : Resolver
  client : Client
  index : UInt32
deriving Repr, DecidableEq

def perform (call : Call Client) : HookM (Option MethodPointer) :=
  match call.resolver with
  | .amdAccel =>
      amdAccelSharedUserClientGetTargetAndMethodForIndex originals call.client call.index
  | .ioAccel =>
      ioAccelSharedUserClientGetTargetAndMethodForIndex originals call.client call.index

/-- The statics after these calls. -/
def afterCalls (s : Statics) (calls : List (Call Client)) : Statics :=
  calls.foldl (fun s call => (perform originals call s).2) s

/-- What a caller finds at an address. -/
def contents (s : Statics) : MethodPointer → IOExternalMethod
  | .table address => originals.tables address
  | .variableOutput => s.variableOutputMethod

/-- The original that a resolver stands for. -/
def Originals.resolve : Resolver → Option (Client → UInt32 → Option Nat)
  | .amdAccel => originals.amdAccel
  | .ioAccel => originals.ioAccel

/-- The original's own answer to a call. -/
def originalMethod (call : Call Client) : Option Nat :=
  (originals.resolve call.resolver).bind fun resolve => resolve call.client call.index

/-- The output size of this method is relaxed. -/
def Relaxable (index : UInt32) (method : IOExternalMethod) : Prop :=
  (index = variableOutputSelector ∨ index = variableOutputNormalizedSelector) ∧
    (methodType method = kIOUCScalarIStructO ∨ methodType method = kIOUCStructIStructO) ∧
    method.count1 ≠ kIOUCVariableStructureSize

instance (index : UInt32) (method : IOExternalMethod) : Decidable (Relaxable index method) :=
  inferInstanceAs (Decidable (_ ∧ _))

def relaxed (method : IOExternalMethod) : IOExternalMethod :=
  { method with count1 := kIOUCVariableStructureSize }

/-- The descriptor that a caller is to see: the original's, relaxed where that
applies. -/
def expected (call : Call Client) : Option IOExternalMethod :=
  (originalMethod originals call).map fun address =>
    if Relaxable call.index (originals.tables address) then relaxed (originals.tables address)
    else originals.tables address

/-- The call stores this descriptor in the static. -/
def Stores (call : Call Client) (method : IOExternalMethod) : Prop :=
  ∃ address, originalMethod originals call = some address ∧
    Relaxable call.index (originals.tables address) ∧ method = relaxed (originals.tables address)

/-- Every caller finds its own descriptor where the call has pointed it to, and
no later call of another client, whatever came in between, changes what is found
there. -/
structure DescriptorsKept (s : Statics) (calls : List (Call Client)) : Prop where
  returned : ∀ before call rest, calls = before ++ call :: rest →
    (perform originals call (afterCalls originals s before)).1.map
      (contents originals (afterCalls originals s (before ++ [call]))) = expected originals call
  kept : ∀ before call between last rest, calls = before ++ call :: (between ++ last :: rest) →
    last.client ≠ call.client →
    (perform originals call (afterCalls originals s before)).1.map
        (contents originals (afterCalls originals s (before ++ call :: between ++ [last]))) =
      (perform originals call (afterCalls originals s before)).1.map
        (contents originals (afterCalls originals s (before ++ call :: between)))

end Calls

section Step

variable {Client : Type} {originals : Originals Client}

/-- What a call can do: hand the original's answer on, or store its relaxed
form and return the static. -/
theorem getTargetAndMethodForIndex_cases {origin missing note : String}
    {announce : UInt32 → IOExternalMethod → HookM Unit}
    (hannounce : ∀ index method s,
      (announce index method s).2.variableOutputMethod = s.variableOutputMethod)
    {original : Option (Client → UInt32 → Option Nat)} {client : Client} {index : UInt32}
    {answer : Option Nat} (hanswer : (original.bind fun resolve => resolve client index) = answer)
    (s : Statics) :
    let result := getTargetAndMethodForIndex originals origin missing note announce original
      client index s
    (∃ address, answer = some address ∧ Relaxable index (originals.tables address) ∧
        result.1 = some .variableOutput ∧
        result.2.variableOutputMethod = relaxed (originals.tables address)) ∨
      (∀ address, answer = some address → ¬ Relaxable index (originals.tables address)) ∧
        result.1 = answer.map .table ∧
        result.2.variableOutputMethod = s.variableOutputMethod := by
  subst hanswer
  cases original with
  | none => exact .inr ⟨nofun, rfl, rfl⟩
  | some resolve =>
      cases hresolve : resolve client index with
      | none =>
          right
          simp only [getTargetAndMethodForIndex, Option.bind_some, hresolve]
          exact ⟨nofun, rfl, rfl⟩
      | some address =>
          simp only [getTargetAndMethodForIndex, Option.bind_some, hresolve, Option.some.injEq,
            forall_eq', exists_eq_left']
          by_cases hselector : index ≠ variableOutputSelector ∧
              index ≠ variableOutputNormalizedSelector
          · rw [if_pos hselector]
            exact .inr ⟨fun h => h.1.elim hselector.1 hselector.2, rfl, rfl⟩
          · rw [if_neg hselector]
            by_cases htype : methodType (originals.tables address) ≠ kIOUCScalarIStructO ∧
                methodType (originals.tables address) ≠ kIOUCStructIStructO
            · rw [if_pos htype]
              exact .inr ⟨fun h => h.2.1.elim htype.1 htype.2, rfl, hannounce _ _ _⟩
            · rw [if_neg htype]
              by_cases hcount : (originals.tables address).count1 = kIOUCVariableStructureSize
              · rw [if_pos hcount]
                exact .inr ⟨fun h => h.2.2 hcount, rfl, hannounce _ _ _⟩
              · rw [if_neg hcount]
                refine .inl ⟨⟨?_, ?_, hcount⟩, rfl, rfl⟩
                · by_contra hneither
                  exact hselector (not_or.mp hneither)
                · by_contra hneither
                  exact htype (not_or.mp hneither)

theorem announceOnce_keeps (index : UInt32) (method : IOExternalMethod) (s : Statics) :
    (announceOnce index method s).2.variableOutputMethod = s.variableOutputMethod := by
  have hrun : announceOnce index method s =
      (if s.variableOutputLogged = true then pure () else do
        hookLog (selectorLine "AMD" index method)
        modify fun s => { s with variableOutputLogged := true } : HookM Unit) s := rfl
  rw [hrun]
  split
  · rfl
  · rfl

theorem perform_cases (originals : Originals Client) (call : Call Client) (s : Statics) :
    (∃ method, Stores originals call method ∧
        (perform originals call s).1 = some .variableOutput ∧
        (perform originals call s).2.variableOutputMethod = method) ∨
      (∀ method, ¬ Stores originals call method) ∧
        (perform originals call s).1 = (originalMethod originals call).map .table ∧
        (perform originals call s).2.variableOutputMethod = s.variableOutputMethod := by
  have hcases : (∃ address, originalMethod originals call = some address ∧
        Relaxable call.index (originals.tables address) ∧
        (perform originals call s).1 = some .variableOutput ∧
        (perform originals call s).2.variableOutputMethod =
          relaxed (originals.tables address)) ∨
      (∀ address, originalMethod originals call = some address →
          ¬ Relaxable call.index (originals.tables address)) ∧
        (perform originals call s).1 = (originalMethod originals call).map .table ∧
        (perform originals call s).2.variableOutputMethod = s.variableOutputMethod := by
    obtain ⟨resolver, client, index⟩ := call
    cases resolver with
    | amdAccel => exact getTargetAndMethodForIndex_cases announceOnce_keeps rfl s
    | ioAccel => exact getTargetAndMethodForIndex_cases (fun _ _ _ => rfl) rfl s
  rcases hcases with ⟨address, hanswer, hrelaxable, hpointer, hmethod⟩ | ⟨hnot, hrest⟩
  · exact .inl ⟨_, ⟨address, hanswer, hrelaxable, rfl⟩, hpointer, hmethod⟩
  · refine .inr ⟨?_, hrest⟩
    rintro method ⟨address, hanswer, hrelaxable, -⟩
    exact hnot address hanswer hrelaxable

end Step

section Runs

variable {Client : Type} {originals : Originals Client}

theorem afterCalls_append (s : Statics) (calls more : List (Call Client)) :
    afterCalls originals s (calls ++ more) =
      afterCalls originals (afterCalls originals s calls) more := List.foldl_append

theorem Stores.unique {call : Call Client} {method other : IOExternalMethod}
    (h : Stores originals call method) (hother : Stores originals call other) :
    method = other := by
  obtain ⟨address, hanswer, -, rfl⟩ := h
  obtain ⟨address', hanswer', -, rfl⟩ := hother
  rw [Option.some.inj (hanswer.symm.trans hanswer')]

theorem Stores.expected_eq {call : Call Client} {method : IOExternalMethod}
    (h : Stores originals call method) : expected originals call = some method := by
  obtain ⟨address, hanswer, hrelaxable, rfl⟩ := h
  rw [expected, hanswer, Option.map_some, if_pos hrelaxable]

/-- The static still holds `method` if every later call that stores something
stores this. -/
theorem afterCalls_method {s : Statics} {method : IOExternalMethod}
    (hs : s.variableOutputMethod = method) {later : List (Call Client)}
    (hlater : ∀ call ∈ later, ∀ other, Stores originals call other → other = method) :
    (afterCalls originals s later).variableOutputMethod = method := by
  induction later generalizing s with
  | nil => exact hs
  | cons call later ih =>
      refine ih ?_ fun other hother => hlater other (List.mem_cons_of_mem _ hother)
      rcases perform_cases originals call s with ⟨other, hstores, -, hmethod⟩ | ⟨-, -, hmethod⟩
      · exact hmethod.trans (hlater call List.mem_cons_self other hstores)
      · exact hmethod.trans hs

/-- A call that stores nothing returns the original's own descriptor. -/
theorem expected_of_not_stores {call : Call Client}
    (h : ∀ method, ¬ Stores originals call method) :
    expected originals call = (originalMethod originals call).map originals.tables := by
  cases hanswer : originalMethod originals call with
  | none => rw [expected, hanswer, Option.map_none, Option.map_none]
  | some address =>
      have hnot : ¬ Relaxable call.index (originals.tables address) := fun hrelaxable =>
        h _ ⟨address, hanswer, hrelaxable, rfl⟩
      rw [expected, hanswer, Option.map_some, Option.map_some, if_neg hnot]

/-- Among calls of which one stores a descriptor there is a last one that does. -/
theorem exists_last_store {calls : List (Call Client)}
    (h : ∃ call ∈ calls, ∃ method, Stores originals call method) :
    ∃ earlier first between method, calls = earlier ++ first :: between ∧
      Stores originals first method ∧ ∀ other ∈ between, ∀ m, ¬ Stores originals other m := by
  induction calls with
  | nil =>
      obtain ⟨call, hcall, -⟩ := h
      exact absurd hcall List.not_mem_nil
  | cons head tail ih =>
      by_cases hlater : ∃ other ∈ tail, ∃ m, Stores originals other m
      · obtain ⟨earlier, first, between, method, rfl, hrest⟩ := ih hlater
        exact ⟨head :: earlier, first, between, method, rfl, hrest⟩
      · obtain ⟨call, hcall, method, hmethod⟩ := h
        rcases List.mem_cons.mp hcall with rfl | hcall
        · exact ⟨[], call, tail, method, rfl, hmethod, fun other hother m hm =>
            hlater ⟨other, hother, m, hm⟩⟩
        · exact absurd ⟨call, hcall, method, hmethod⟩ hlater

/-- What the static holds behind the last call that stored something. -/
theorem afterCalls_last_store (s : Statics) (earlier : List (Call Client)) {first : Call Client}
    {between : List (Call Client)} {method : IOExternalMethod}
    (hfirst : Stores originals first method)
    (hbetween : ∀ other ∈ between, ∀ m, ¬ Stores originals other m) :
    (afterCalls originals s (earlier ++ first :: between)).variableOutputMethod = method := by
  have hstep : afterCalls originals s (earlier ++ first :: between) =
      afterCalls originals (perform originals first (afterCalls originals s earlier)).2 between :=
    afterCalls_append s earlier (first :: between)
  rw [hstep]
  refine afterCalls_method ?_ fun other hother m hm => absurd hm (hbetween other hother m)
  rcases perform_cases originals first (afterCalls originals s earlier) with
    ⟨stored, hstored, -, hafter⟩ | ⟨hnot, -⟩
  · exact hafter.trans (hstored.unique hfirst)
  · exact absurd hfirst (hnot method)

theorem afterCalls_snoc (s : Statics) (calls : List (Call Client)) (last : Call Client) :
    afterCalls originals s (calls ++ [last]) =
      (perform originals last (afterCalls originals s calls)).2 := afterCalls_append s calls [last]

/-- A caller finds its own descriptor right after the call. -/
theorem contents_returned (s : Statics) (before : List (Call Client)) (call : Call Client) :
    (perform originals call (afterCalls originals s before)).1.map
      (contents originals (afterCalls originals s (before ++ [call]))) =
        expected originals call := by
  rw [afterCalls_snoc]
  rcases perform_cases originals call (afterCalls originals s before) with
    ⟨method, hmethod, hpointer, hafter⟩ | ⟨hnot, hpointer, -⟩
  · rw [hpointer, hmethod.expected_eq]
    exact congrArg some hafter
  · rw [hpointer, expected_of_not_stores hnot, Option.map_map]
    rfl

/-- A call that stores a descriptor returns the address of the static. -/
theorem Stores.pointer {call : Call Client} {method : IOExternalMethod}
    (h : Stores originals call method) (s : Statics) :
    (perform originals call s).1 = some .variableOutput := by
  rcases perform_cases originals call s with ⟨_, -, hpointer, -⟩ | ⟨hnot, -⟩
  · exact hpointer
  · exact absurd h (hnot method)

/-- A client that points to the static sees what the last call has stored, so the next one
that stores something has to store the same. -/
theorem DescriptorsKept.stores_eq {s : Statics} {earlier between rest : List (Call Client)}
    {first last call : Call Client} {m method other : IOExternalMethod}
    (hkept : DescriptorsKept originals s (earlier ++ first :: (between ++ last :: rest)))
    (hbetween : ∀ other ∈ between, ∀ m, ¬ Stores originals other m)
    (hcall : call ∈ earlier ++ [first]) (hclient : call.client ≠ last.client)
    (hm : Stores originals call m) (hfirst : Stores originals first method)
    (hlast : Stores originals last other) : other = method := by
  -- split the calls at the one of the other client
  obtain ⟨before, after, hsplit⟩ := List.append_of_mem hcall
  have hheld : before ++ call :: (after ++ between) = earlier ++ first :: between := by
    rw [← List.cons_append, ← List.append_assoc, ← hsplit, List.append_assoc]
    rfl
  have hwhole : earlier ++ first :: (between ++ last :: rest) =
      before ++ call :: ((after ++ between) ++ last :: rest) := by
    rw [← List.cons_append, ← List.append_assoc, ← hheld]
    simp only [List.append_assoc, List.cons_append]
  have hsame := hkept.kept before call (after ++ between) last rest hwhole hclient.symm
  rw [hm.pointer, hheld] at hsame
  have hnew := @afterCalls_last_store _ originals s (earlier ++ first :: between) last [] other
    hlast (fun _ h => absurd h List.not_mem_nil)
  have hold := afterCalls_last_store s earlier hfirst hbetween
  exact hnew.symm.trans ((Option.some.inj hsame).trans hold)

/-- A call that stores what the last one before it has stored leaves the static as it is. -/
theorem afterCalls_same {held : List (Call Client)} {call last : Call Client}
    {method : IOExternalMethod} (s : Statics) (hcall : call ∈ held)
    (hmethod : Stores originals call method)
    (hsame : ∀ earlier first idle, held = earlier ++ first :: idle →
      (∀ other ∈ idle, ∀ m, ¬ Stores originals other m) → call ∈ earlier ++ [first] →
      ∀ stored other, Stores originals first stored → Stores originals last other →
        other = stored) :
    (afterCalls originals s (held ++ [last])).variableOutputMethod =
      (afterCalls originals s held).variableOutputMethod := by
  rw [afterCalls_snoc]
  rcases perform_cases originals last (afterCalls originals s held) with
    ⟨other, hother, -, hafter⟩ | ⟨-, -, hafter⟩
  · -- what was there comes from the last call that stored something
    obtain ⟨earlier, first, idle, stored, rfl, hfirst, hidle⟩ :=
      exists_last_store ⟨call, hcall, method, hmethod⟩
    have hbefore : call ∈ earlier ++ [first] := by
      simp only [List.mem_append, List.mem_cons, List.not_mem_nil, or_false] at hcall ⊢
      rcases hcall with hcall | hcall | hcall
      · exact .inl hcall
      · exact .inr hcall
      · exact absurd hmethod (hidle call hcall method)
    have hequal := hsame earlier first idle rfl hidle hbefore stored other hfirst hother
    exact hafter.trans (hequal.trans (afterCalls_last_store s earlier hfirst hidle).symm)
  · exact hafter

/-- Descriptors are kept exactly when a call that stores a descriptor, where
another client has stored one before, stores what the last one of these calls
has stored. -/
theorem descriptorsKept_iff (originals : Originals Client) (s : Statics)
    (calls : List (Call Client)) :
    DescriptorsKept originals s calls ↔
      ∀ earlier first between last rest, calls = earlier ++ first :: (between ++ last :: rest) →
        (∀ other ∈ between, ∀ m, ¬ Stores originals other m) →
        (∃ call ∈ earlier ++ [first], call.client ≠ last.client ∧
          ∃ m, Stores originals call m) →
        ∀ method other, Stores originals first method → Stores originals last other →
          other = method := by
  constructor
  · rintro hkept earlier first between last rest rfl hbetween ⟨call, hcall, hclient, m, hm⟩
      method other hfirst hlast
    exact hkept.stores_eq hbetween hcall hclient hm hfirst hlast
  · intro hsame
    refine ⟨fun before call rest _ => contents_returned s before call, ?_⟩
    intro before call between last rest hcalls hclient
    rcases perform_cases originals call (afterCalls originals s before) with
      ⟨method, hmethod, hpointer, -⟩ | ⟨-, hpointer, -⟩
    · rw [hpointer]
      refine congrArg some (afterCalls_same s (by simp) hmethod ?_)
      intro earlier first idle hsplit hidle hcall
      refine hsame earlier first idle last rest ?_ hidle
        ⟨call, hcall, hclient.symm, method, hmethod⟩
      rw [hcalls, ← List.cons_append, ← List.append_assoc, hsplit]
      simp only [List.append_assoc, List.cons_append]
    · rw [hpointer, Option.map_map, Option.map_map]
      rfl

/-- Two clients whose methods have different functions behind them. -/
def twoClients : Originals Bool where
  tables := fun address => ⟨0, address, kIOUCStructIStructO, 0, 16⟩
  amdAccel := some fun client _ => some (if client then 1 else 2)
  ioAccel := none

def idleStatics : Statics := ⟨⟨0, 0, 0, 0, 0⟩, false, []⟩

/-- The first client's descriptor has become that of the second. -/
theorem second_client_overwrites :
    let first : Call Bool := ⟨.amdAccel, false, 6003⟩
    let second : Call Bool := ⟨.amdAccel, true, 6003⟩
    (perform twoClients first idleStatics).1.map
        (contents twoClients (afterCalls twoClients idleStatics [first, second])) =
          some (relaxed (twoClients.tables 1)) ∧
      expected twoClients first = some (relaxed (twoClients.tables 2)) ∧
      relaxed (twoClients.tables 1) ≠ relaxed (twoClients.tables 2) := by
  decide +kernel

end Runs

end FunctionHooks

end Kryptonite
