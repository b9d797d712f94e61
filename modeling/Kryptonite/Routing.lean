/-
How Lilu redirects a function (`kern_patcher.cpp`): the bytes of the three kinds
of jump, the chain of earlier redirections that a jump continues, and the
trampoline that keeps the overwritten beginning of a function.

The text is the memory of the kernel and its kexts.  What the machine answers
(the length decoder, memory protection, memory for the patch objects) is a
parameter, with an answer of its own for every call.
-/
import Kryptonite.KernelPatcher
import Kryptonite.PatchObjects

namespace Kryptonite

namespace Routing

open X86 KernelPatcher

inductive JumpType where
  | auto
  | long
  | short
  | medium
deriving Repr, DecidableEq

/-- The fields of `KernelPatcher` that take part, the text, the free slots of
every `MachInfo` (`address_slots`, `address_slots_end`), the variables that
receive the originals, and the patch objects. -/
structure Patcher where
  text : Code
  code : Error
  tempExecutableMemoryOff : Nat
  addressSlots : Nat → Address × Address
  orgs : Nat → Address
  books : Books

def tempExecutableMemorySize : Nat := 4096

/-- The machine.  `disasm` is `hde_disasm`: the length of the instruction at an
address, if it is one. -/
structure Host extends Answers where
  tempExecutableMemory : Address
  disasm : Code → Address → Option Nat
  memory_ne : ∀ k, k < tempExecutableMemorySize → tempExecutableMemory + BitVec.ofNat 64 k ≠ 0
  disasm_pos : ∀ text address length, disasm text address = some length → 0 < length

abbrev RouteM := EStateM Panic Patcher

def smallJump : Nat := 5

def mediumJump : Nat := 6

def longJump : Nat := 14

/-- The jump that stands at an address, if one does: its type and its target. -/
def readChain (text : Code) (source : Address) : Option (JumpType × Address) :=
  if readBytes text source 2 = [0xFF, 0x25] then
    let disp := signedDword (readBytes text (source + 2) 4)
    some (if disp ≠ 0 then .medium else .long, readWord text (source + 6 + disp))
  else if text source = 0xE9 then
    some (.short, source + 5 + signedDword (readBytes text (source + 1) 4))
  else
    none

theorem readChain_indirect {text : Code} {source displacement : Address}
    (hopcode : readBytes text source 2 = [0xFF, 0x25])
    (hdisp : signedDword (readBytes text (source + 2) 4) = displacement) :
    readChain text source = some (if displacement ≠ 0 then .medium else .long,
      readWord text (source + 6 + displacement)) := by
  rw [readChain, if_pos hopcode, hdisp]

theorem not_indirect {text : Code} {source : Address} (h : text source ≠ 0xFF) :
    readBytes text source 2 ≠ [0xFF, 0x25] := by
  intro heq
  have hfirst := congrArg List.head? heq
  simp only [readBytes, List.range_succ, List.range_zero] at hfirst
  exact h (by simpa using hfirst)

theorem readChain_relative {text : Code} {source : Address} (hopcode : text source = 0xE9) :
    readChain text source =
      some (.short, source + 5 + signedDword (readBytes text (source + 1) 4)) := by
  have hother : readBytes text source 2 ≠ [0xFF, 0x25] := not_indirect (by simp [hopcode])
  rw [readChain, if_neg hother, if_pos hopcode]

/-- A processor follows the jump that `readChain` finds. -/
theorem readChain_step {σ : Type} (p : Processor σ) {text : Code} {source target : Address}
    {type : JumpType} (h : readChain text source = some (type, target)) (state : σ) :
    p.step text source state = some (target, state) := by
  rw [readChain] at h
  split at h
  next hindirect =>
    rw [p.jump_indirect text source state hindirect]
    exact congrArg (fun found => found.map fun jump => (jump.2, state)) h
  next =>
    split at h
    next hrelative =>
      rw [p.jump_relative text source state hrelative]
      exact congrArg (fun found => found.map fun jump => (jump.2, state)) h
    next => cases h

/-- `readChain` returns 0 for a function that is not routed. -/
def routed (text : Code) (source : Address) : Option (JumpType × Address) :=
  (readChain text source).filter (·.2 ≠ 0)

section Jumps

/-- Where the target of a jump is kept. -/
inductive Plan where
  | slotted (slot : Address)
  | absolute
  | relative
deriving Repr, DecidableEq

namespace Plan

variable (plan : Plan) (source target : Address)

def opcode : Plan → List UInt8
  | .slotted _ | .absolute => [0xFF, 0x25]
  | .relative => [0xE9]

def argument : Plan → List UInt8
  | .slotted slot => wordBytes 4 (slot - (source + 6))
  | .absolute => wordBytes 4 0
  | .relative => wordBytes 4 (target - (source + 5))

/-- The address that an indirect jump reads. -/
def disp : Plan → Option Address
  | .slotted slot => some slot
  | .absolute => some (source + 6)
  | .relative => none

/-- The jump at the function, and the bytes that it occupies. -/
def bytes : List UInt8 :=
  plan.opcode ++ plan.argument source target ++
    match plan with
    | .absolute => wordBytes 8 target
    | _ => []

/-- How many bytes an atomic store takes. -/
def width : Plan → Nat
  | .absolute => 16
  | _ => 8

/-- What the patch objects hold. -/
def patches (text : Code) : List SavedPatch :=
  [.create text source plan.opcode,
    .create text (source + BitVec.ofNat 64 plan.opcode.length) (plan.argument source target)] ++
    (plan.disp source).toList.map fun address => .create text address (wordBytes 8 target)

/-- The slot is written first. -/
def withSlot (text : Code) : Plan → Code
  | .slotted slot => placed text slot (wordBytes 8 target)
  | .absolute | .relative => text

/-- The target is written before the jump to it. -/
def withTarget (text : Code) : Plan → Code
  | .slotted slot => placed text slot (wordBytes 8 target)
  | .absolute => placed text (source + 6) (wordBytes 8 target)
  | .relative => text

/-- The stores: one of the whole width where the address is aligned, otherwise
one for each part. -/
def commit (text : Code) : Code :=
  let whole := plan.bytes source target
  if source.toNat % plan.width = 0 then
    placed (plan.withSlot target text) source
      (whole ++ readBytes text (source + BitVec.ofNat 64 whole.length) (plan.width - whole.length))
  else
    placed (placed (plan.withTarget source target text) source plan.opcode)
      (source + BitVec.ofNat 64 plan.opcode.length) (plan.argument source target)

/-- How many bytes of the function the jump takes. -/
def size : Plan → Nat
  | .slotted _ => mediumJump
  | .absolute => longJump
  | .relative => smallJump

/-- The type that `readChain` sees. -/
def type : Plan → JumpType
  | .slotted _ => .medium
  | .absolute => .long
  | .relative => .short

variable {plan source target} {text : Code}

@[simp] theorem length_argument : (plan.argument source target).length = 4 := by
  cases plan <;> simp [argument]

@[simp] theorem length_bytes : (plan.bytes source target).length = plan.size := by
  cases plan <;> simp [bytes, opcode, size, smallJump, mediumJump, longJump]

theorem size_le : plan.size ≤ 14 := by
  cases plan <;> simp [size, smallJump, mediumJump, longJump]

/-- The slot does not lie where the jump is written. -/
def Clear (plan : Plan) (source : Address) : Prop :=
  ∀ slot, plan = .slotted slot → Apart slot 8 source 8

/-- The bytes behind the jump are those of the function. -/
theorem withSlot_behind (hclear : plan.Clear source) :
    readBytes text (source + BitVec.ofNat 64 plan.size) (plan.width - plan.size) =
      readBytes (plan.withSlot target text) (source + BitVec.ofNat 64 plan.size)
        (plan.width - plan.size) := by
  cases plan with
  | slotted slot =>
      have hwidth : (slotted slot).size + ((slotted slot).width - (slotted slot).size) = 8 := rfl
      refine (readBytes_apart (by omega) fun address hslot => ?_).symm
      rw [length_wordBytes] at hslot
      have hout := hclear slot rfl address hslot
      rw [← Bool.not_eq_true] at hout ⊢
      exact fun hin => hout (inside_part (Nat.le_of_eq hwidth) (by decide) hin)
  | absolute => rfl
  | relative => rfl

/-- The atomic store and the separate ones leave the same text. -/
theorem commit_eq (hclear : plan.Clear source) :
    plan.commit source target text =
      placed (plan.withSlot target text) source (plan.bytes source target) := by
  rw [commit]
  split
  · have hbound : plan.size < 2 ^ 64 := Nat.lt_of_le_of_lt size_le (by decide)
    rw [placed_append _ _ (by simpa using hbound), length_bytes, withSlot_behind hclear,
      placed_readBytes]
  · cases plan with
    | slotted slot =>
        rw [placed_parts _ _ (by simp [opcode]) (by simp [opcode])]
        simp [bytes, withSlot, withTarget]
    | absolute =>
        have hjump : placed (placed (placed text (source + 6) (wordBytes 8 target)) source
            absolute.opcode) (source + 2) (absolute.argument source target) =
            placed (placed text (source + 6) (wordBytes 8 target)) source
              (absolute.opcode ++ absolute.argument source target) :=
          placed_parts _ _ (by simp [opcode]) (by simp [opcode])
        have hwhole := @placed_append text source
          (absolute.opcode ++ absolute.argument source target) (wordBytes 8 target)
          (by simp [opcode])
        exact hjump.trans hwhole.symm
    | relative =>
        rw [placed_parts _ _ (by simp [opcode]) (by simp [opcode])]
        simp [bytes, withSlot, withTarget]

/-- Only the beginning of the function and the slot change. -/
theorem commit_outside {address : Address} (hclear : plan.Clear source)
    (hout : inside source plan.size address = false)
    (hslot : ∀ slot, plan = .slotted slot → inside slot 8 address = false) :
    plan.commit source target text address = text address := by
  rw [commit_eq hclear, placed_outside (by simpa using hout)]
  cases plan with
  | slotted slot => exact placed_outside (by simpa using hslot slot rfl)
  | absolute => rfl
  | relative => rfl

/-- A signed displacement of four bytes leads from `start` to `address`. -/
def Near (start address : Address) : Prop :=
  ((address - start).setWidth 32).signExtend 64 = address - start

instance (start address : Address) : Decidable (Near start address) :=
  inferInstanceAs (Decidable (_ = _))

/-- Two gigabytes in either direction. -/
theorem near_of_close {start address : Address} (hlow : start.toNat ≤ address.toNat + 2 ^ 31)
    (hhigh : address.toNat < start.toNat + 2 ^ 31) : Near start address := by
  have hstart := start.isLt
  have haddress := address.isLt
  apply BitVec.eq_of_toInt_eq
  rw [BitVec.toInt_signExtend_of_le (by decide), BitVec.toInt_setWidth,
    BitVec.toInt_eq_toNat_bmod, BitVec.toNat_sub, Int.bmod_def, Int.bmod_def]
  omega

/-- The jump can lead to its target. -/
def Fits (source target : Address) : Plan → Prop
  | .slotted slot => Near (source + 6) slot ∧ slot ≠ source + 6
  | .absolute => True
  | .relative => Near (source + 5) target

theorem add_near {start address : Address} (h : Near start address) :
    start + ((address - start).setWidth 32).signExtend 64 = address := by
  rw [h, BitVec.add_comm, BitVec.sub_add_cancel]

/-- The jump is in the text, and the slot, if it has one, holds the target. -/
structure Stands (plan : Plan) (text : Code) (source target : Address) : Prop where
  jump : readBytes text source plan.size = plan.bytes source target
  slot : ∀ slot, plan = .slotted slot → readBytes text slot 8 = wordBytes 8 target

theorem stands_commit (hclear : plan.Clear source) :
    plan.Stands (plan.commit source target text) source target := by
  have hbound : plan.size ≤ 2 ^ 64 := Nat.le_trans size_le (by decide)
  rw [commit_eq hclear]
  constructor
  · have hread := @readBytes_placed (plan.withSlot target text) source
      (plan.bytes source target) (by simpa using hbound)
    rwa [length_bytes] at hread
  · rintro slot rfl
    have hsize : (slotted slot).size ≤ 8 := by simp [size, mediumJump]
    rw [readBytes_apart (by decide)]
    · exact (readBytes_placed (by simp)).trans (by simp)
    · rw [length_bytes]
      exact fun address hin => (hclear slot rfl).symm address (inside_mono hsize hin)

/-- A jump stays as long as its own bytes do. -/
theorem Stands.congr {text' : Code} (h : plan.Stands text source target)
    (hjump : ∀ address, inside source plan.size address = true → text' address = text address)
    (hslot : ∀ slot, plan = .slotted slot → ∀ address, inside slot 8 address = true →
      text' address = text address) :
    plan.Stands text' source target := by
  have hbound : plan.size ≤ 2 ^ 64 := Nat.le_trans size_le (by decide)
  refine ⟨(readBytes_congr hbound hjump).trans h.jump, fun slot hplan => ?_⟩
  exact (readBytes_congr (by decide) (hslot slot hplan)).trans (h.slot slot hplan)

theorem Stands.part (h : plan.Stands text source target) {k count : Nat}
    (hfits : k + count ≤ plan.size) :
    readBytes text (source + BitVec.ofNat 64 k) count =
      ((plan.bytes source target).drop k).take count := by
  rw [readBytes_part hfits, h.jump]

/-- An indirect jump as `readChain` reads it. -/
theorem Stands.readChain_eq {displacement : Address} (h : plan.Stands text source target)
    (hopcode : plan.opcode = [0xFF, 0x25])
    (hargument : signedDword (plan.argument source target) = displacement) :
    readChain text source = some (if displacement ≠ 0 then .medium else .long,
      readWord text (source + 6 + displacement)) := by
  have hsize : 6 ≤ plan.size := by
    cases plan with
    | slotted slot => exact le_rfl
    | absolute => simp [size, longJump]
    | relative => cases hopcode
  refine readChain_indirect ?_ ?_
  · have hread := h.part (Nat.le_trans (by decide : 0 + 2 ≤ 6) hsize)
    rw [BitVec.add_zero] at hread
    refine hread.trans ?_
    simp [bytes, hopcode]
  · have hread := h.part (Nat.le_trans (by decide : 2 + 4 ≤ 6) hsize)
    have hbytes : ((plan.bytes source target).drop 2).take 4 = plan.argument source target := by
      have hlength := @length_argument plan source target
      unfold bytes
      rw [hopcode, List.append_assoc]
      exact List.take_left' hlength
    rw [hbytes] at hread
    rw [← hargument]
    exact congrArg signedDword hread

/-- What `readChain` finds where a jump stands. -/
theorem Stands.readChain (h : plan.Stands text source target) (hfits : plan.Fits source target) :
    readChain text source = some (plan.type, target) := by
  cases plan with
  | slotted slot =>
      obtain ⟨hnear, hne⟩ := hfits
      have hnonzero : slot - (source + 6) ≠ 0 := by
        intro hzero
        apply hne
        rw [← BitVec.sub_add_cancel slot (source + 6), hzero]
        simp
      have hsigned : signedDword (wordBytes 4 (slot - (source + 6))) = slot - (source + 6) := by
        rw [signedDword_wordBytes, hnear]
      have hat : source + 6 + (slot - (source + 6)) = slot := by
        rw [BitVec.add_comm, BitVec.sub_add_cancel]
      rw [h.readChain_eq rfl hsigned, if_pos hnonzero, hat, readWord, h.slot slot rfl,
        ofNat_littleEndian_wordBytes]
      rfl
  | absolute =>
      have hzero : signedDword (wordBytes 4 0) = 0 := by
        rw [signedDword_wordBytes]
        rfl
      have hread : readBytes text (source + 6) 8 = wordBytes 8 target := by
        refine (h.part (by simp [size, longJump] : 6 + 8 ≤ absolute.size)).trans ?_
        exact List.take_of_length_le (by simp [bytes, opcode, argument])
      have hat : source + 6 + 0 = source + 6 := BitVec.add_zero _
      rw [h.readChain_eq rfl hzero, hat, readWord, hread, ofNat_littleEndian_wordBytes]
      rfl
  | relative =>
      have hfirst : text source = 0xE9 := by
        have hread := h.part (by simp [size, smallJump] : 0 + 1 ≤ relative.size)
        rw [BitVec.add_zero] at hread
        simpa [readBytes, bytes, opcode] using hread
      have hdisp : readBytes text (source + 1) 4 = wordBytes 4 (target - (source + 5)) := by
        refine (h.part (by simp [size, smallJump] : 1 + 4 ≤ relative.size)).trans ?_
        exact List.take_of_length_le (by simp [bytes, opcode, argument])
      rw [readChain_relative hfirst, hdisp, signedDword_wordBytes, add_near hfits]
      rfl

end Plan

end Jumps

section Source

variable (host : Host)

def setCode (code : Error) : RouteM Unit :=
  modify fun s => { s with code := code }

/-- `MachInfo::getAddressSlot`; 0 if there is none left. -/
def getAddressSlot (info : Nat) : RouteM Address := do
  let slots := (← get).addressSlots info
  if slots.1 ≠ 0 ∧ slots.1 + 8 ≤ slots.2 then
    modify fun s => { s with
      addressSlots := fun other => if other = info then (slots.1 + 8, slots.2)
        else s.addressSlots other }
    return slots.1
  else
    return 0

/-- The loop of `quickInstructionSize`, with at least `min` rounds of fuel. -/
def instructionSizes (text : Code) (min : Nat) : Nat → Address → Nat → Nat
  | 0, _, total => total
  | fuel + 1, address, total =>
      match host.disasm text address with
      | none => 0
      | some length =>
          if total + length < min then
            instructionSizes text min fuel (address + BitVec.ofNat 64 length) (total + length)
          else
            total + length

/-- The length of as many whole instructions as cover `min` bytes; 0 if one of
them cannot be decoded. -/
def quickInstructionSize (text : Code) (address : Address) (min : Nat) : Nat :=
  instructionSizes host text min (min + 1) address 0

def setOrg (org : Option Nat) (value : Address) : RouteM Unit :=
  modify fun s => { s with
    orgs := fun cell => if some cell = org then value else s.orgs cell }

/-- `EINVAL`. -/
def einval : Address := 22

/-- A step that concerns the patch objects alone. -/
def onBooks {α : Type} (step : BooksM α) : RouteM α := fun s =>
  match step s.books with
  | .ok value books => .ok value { s with books := books }
  | .error panic books => .error panic { s with books := books }

/-- The three objects of a jump; null if there was no memory, or if the jump has
no such part. -/
structure Objects where
  opcode : Option PatchObject
  argument : Option PatchObject
  disp : Option PatchObject
deriving Repr, DecidableEq

def Objects.toList (objects : Objects) : List PatchObject :=
  objects.opcode.toList ++ objects.argument.toList ++ objects.disp.toList

/-- The object for the target of an indirect jump. -/
def createDisp (text : Code) (target : Address) : Option Address → BooksM (Option PatchObject)
  | none => return none
  | some address => create host.toAnswers text address (wordBytes 8 target)

/-- The objects are made before anything is written. -/
def createObjects (text : Code) (source target : Address) (plan : Plan) : BooksM Objects := do
  let opcode ← create host.toAnswers text source plan.opcode
  let argument ← create host.toAnswers text
    (source + BitVec.ofNat 64 plan.opcode.length) (plan.argument source target)
  let disp ← createDisp host text target (plan.disp source)
  return ⟨opcode, argument, disp⟩

/-- The objects are freed, and the error is reported. -/
def refuse (objects : Objects) (code : Error) : RouteM Address := do
  setCode code
  onBooks (objects.toList.forM deleter)
  return einval

/-- `setKernelWriting`, where the kernel is to be written to. -/
def unlock (kernelRoute : Bool) : BooksM Bool :=
  if kernelRoute then ask host.kernelWriting else return true

def planOf (slot : Address) (absolute : Bool) : Plan :=
  if slot ≠ 0 then .slotted slot else if absolute then .absolute else .relative

/-- The stores, and what becomes of the objects. -/
def commitJump (source target : Address) (plan : Plan) (kernelRoute revertible : Bool)
    (objects : Objects) : RouteM Unit := do
  modify fun s => { s with text := plan.commit source target s.text }
  onBooks (if kernelRoute ∧ revertible then store host.toAnswers objects.toList
    else objects.toList.forM deleter)

/-- The end of `routeFunctionInternal`, from the store to `*org` on.  The target
of an absolute jump is checked for null, that of a slotted one is not. -/
def writeJump (source target slot : Address) (absolute kernelRoute revertible : Bool)
    (trampoline : Address) (org : Option Nat) : RouteM Address := do
  setOrg org trampoline
  let objects ← onBooks (createObjects host (← get).text source target (planOf slot absolute))
  if objects.opcode = none ∨ objects.argument = none ∨ (absolute ∧ objects.disp = none) then
    refuse objects .memoryIssue
  else if ← onBooks (unlock host kernelRoute) then
    if slot ≠ 0 ∧ objects.disp = none then
      throw .nullPatch
    else
      commitJump host source target (planOf slot absolute) kernelRoute revertible objects
      return trampoline
  else
    refuse objects .memoryProtection

/-- The displacement of a relative jump does not fit into its four bytes. -/
def tooFar (source target : Address) : Bool :=
  target - (source + 5) ≠ ((target - (source + 5)).setWidth 32).signExtend 64

/-- One redirection as a plugin asks for it. -/
structure Route where
  source : Address
  target : Address
  buildWrapper : Bool
  kernelRoute : Bool
  revertible : Bool
  jumpType : JumpType
  info : Option Nat
  org : Option Nat
deriving Repr, DecidableEq

/-- The slot of a jump over a chain. -/
def chainSlot (route : Route) (previous : JumpType) : RouteM Address :=
  if previous = .short then
    throw .previousShort
  else if route.jumpType = .short then
    throw .currentShort
  else if previous = .medium then
    match route.info with
    | none => throw .unslotted
    | some info => do
        let slot ← getAddressSlot info
        if slot = 0 then throw .noSlot else return slot
  else
    return 0

/-- The slot of a first jump. -/
def freshSlot (route : Route) (absolute : Bool) : RouteM Address :=
  match route.info with
  | some info =>
      if absolute ∧ (route.jumpType = .auto ∨ route.jumpType = .long) then getAddressSlot info
      else return 0
  | none => return 0

/-- `routeFunctionInternal`, with `createTrampoline` as a parameter: it calls
`routeFunctionInternal` in its turn, but without a wrapper. -/
def routeWith (createTrampoline : Address → Nat → RouteM Address) (route : Route) :
    RouteM Address := do
  let absolute := route.jumpType = .long ∨ tooFar route.source route.target
  if route.jumpType = .short ∧ absolute then
    setCode .memoryIssue
    return einval
  else
    match routed (← get).text route.source with
    | some (previous, chained) => do
        let slot ← chainSlot route previous
        writeJump host route.source route.target slot absolute route.kernelRoute false
          (if route.buildWrapper then chained else 0) route.org
    | none =>
        if route.buildWrapper then do
          let slot ← freshSlot route absolute
          let trampoline ← createTrampoline route.source
            (if absolute then if slot ≠ 0 then mediumJump else longJump else smallJump)
          if trampoline = 0 then
            return einval
          else
            writeJump host route.source route.target slot absolute route.kernelRoute
              route.revertible trampoline route.org
        else
          writeJump host route.source route.target 0 absolute route.kernelRoute
            route.revertible 0 route.org

/-- The call inside `createTrampoline`. -/
def routeTail (source target : Address) : RouteM Address :=
  routeWith host (fun _ _ => return 0) ⟨source, target, false, true, false, .auto, none, none⟩

/-- The copy of the overwritten instructions, with `opcodes` in front and the
jump back behind. -/
def copyFunction (opcodes : List UInt8) (function : Address) (min : Nat) : RouteM Address := do
  let s ← get
  let off := quickInstructionSize host s.text function min
  let start := host.tempExecutableMemory + BitVec.ofNat 64 s.tempExecutableMemoryOff
  let next := s.tempExecutableMemoryOff + (off + longJump + opcodes.length)
  if off = 0 ∨ 4096 - longJump < off then
    setCode .disasmFailure
    return 0
  else if tempExecutableMemorySize ≤ next then
    modify fun s => { s with tempExecutableMemoryOff := next, code := .disasmFailure }
    return 0
  else
    modify fun s => { s with
      tempExecutableMemoryOff := next
      code := .noError
      text := placed (placed s.text start opcodes) (start + BitVec.ofNat 64 opcodes.length)
        (readBytes (placed s.text start opcodes) function off) }
    let _ ← routeTail host (start + BitVec.ofNat 64 (opcodes.length + off))
      (function + BitVec.ofNat 64 off)
    return if (← get).code = .noError then start else 0

def createTrampoline (opcodes : List UInt8) (function : Address) (min : Nat) :
    RouteM Address := do
  if ← onBooks (ask host.kernelWriting) then
    copyFunction host opcodes function min
  else
    setCode .memoryProtection
    return 0

def routeFunctionInternal (route : Route) : RouteM Address :=
  routeWith host (createTrampoline host []) route

/-- `Patch::restore`. -/
def restore (object : PatchObject) : RouteM Unit := do
  if object.number ∈ (← get).books.freed then
    throw .freedPatch
  else
    modify fun s => { s with text := placed s.text object.patch.address object.patch.original }

/-- The removal of the patches in `deinit`. -/
def removePatches : RouteM Unit := do
  if ← onBooks (ask host.kernelWriting) then
    (← get).books.kpatches.forM restore
  else
    return ()

end Source

end Routing

end Kryptonite
