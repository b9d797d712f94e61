/-
A part of the x86-64 instruction set, from the encoding to the effect on
registers and flags: moves, additions and subtractions, logic, division, the
set-on-condition instructions and the three-operand forms of BMI1 and BMI2.
Operands are registers, so that a block of code is a function of its start
state.  Flags that an instruction leaves undefined are given by a parameter.
-/
import Mathlib.Algebra.Group.Nat.Defs
import Mathlib.Data.List.Basic

namespace Kryptonite

namespace X86

/-- The general-purpose registers, in the order of their codes. -/
inductive Reg where
  | rax | rcx | rdx | rbx | rsp | rbp | rsi | rdi
  | r8 | r9 | r10 | r11 | r12 | r13 | r14 | r15
deriving Repr, DecidableEq

inductive Width where
  | w8 | w32 | w64
deriving Repr, DecidableEq

abbrev Width.bits : Width → Nat
  | .w8 => 8
  | .w32 => 32
  | .w64 => 64

structure Flags where
  carry : Bool
  parity : Bool
  zero : Bool
  sign : Bool
  overflow : Bool
deriving Repr, DecidableEq

structure State where
  regs : Reg → BitVec 64
  flags : Flags

inductive Condition where
  | below
  | notEqual
deriving Repr, DecidableEq

inductive Instr where
  | movImm (w : Width) (dst : Reg) (imm : BitVec 64)
  | mov (w : Width) (dst src : Reg)
  | movzx (w : Width) (dst src : Reg)
  | lea (w : Width) (dst base : Reg) (disp : BitVec 64)
  | xor (w : Width) (dst src : Reg)
  | or (w : Width) (dst src : Reg)
  | sbb (w : Width) (dst src : Reg)
  | test (w : Width) (left right : Reg)
  | cmpImm (w : Width) (left : Reg) (imm : BitVec 64)
  | shrImm (w : Width) (dst : Reg) (count : Nat)
  | neg (w : Width) (dst : Reg)
  | div (w : Width) (src : Reg)
  | set (condition : Condition) (dst : Reg)
  | mulx (w : Width) (high low src : Reg)
  | blsr (w : Width) (dst src : Reg)
  | nop
deriving Repr, DecidableEq

inductive Fault where
  | divideError
  | undecoded
deriving Repr, DecidableEq

section Registers

def State.setReg (s : State) (r : Reg) (value : BitVec 64) : State :=
  { s with regs := fun other => if other = r then value else s.regs other }

def State.setFlags (s : State) (flags : Flags) : State := { s with flags }

def State.read (s : State) (w : Width) (r : Reg) : BitVec w.bits := (s.regs r).setWidth w.bits

/-- What a register holds after a write of this width: a byte leaves the rest of
the register as it was, a doubleword clears it. -/
def merge (old : BitVec 64) : (w : Width) → BitVec w.bits → BitVec 64
  | .w8, value => old.extractLsb' 8 56 ++ value
  | .w32, value => value.setWidth 64
  | .w64, value => value

def State.write (s : State) (w : Width) (r : Reg) (value : BitVec w.bits) : State :=
  s.setReg r (merge (s.regs r) w value)

variable (s : State)

@[simp] theorem State.setFlags_regs (flags : Flags) : (s.setFlags flags).regs = s.regs := rfl

@[simp] theorem State.setFlags_flags (flags : Flags) : (s.setFlags flags).flags = flags := rfl

@[simp] theorem State.write_regs (w : Width) (r other : Reg) (value : BitVec w.bits) :
    (s.write w r value).regs other = if other = r then merge (s.regs r) w value
      else s.regs other := rfl

@[simp] theorem State.setFlags_read (flags : Flags) (w : Width) (r : Reg) :
    (s.setFlags flags).read w r = s.read w r := rfl

theorem setWidth_merge (old : BitVec 64) (w : Width) (value : BitVec w.bits) :
    (merge old w value).setWidth w.bits = value := by
  apply BitVec.eq_of_getLsbD_eq
  intro i hi
  cases w with
  | w8 => simp [merge, BitVec.getLsbD_append, show i < 8 from hi]
  | w32 =>
      have hwide : i < 64 := Nat.lt_trans (show i < 32 from hi) (by decide)
      simp [merge, hwide, show i < 32 from hi]
  | w64 => simp [merge, show i < 64 from hi]

/-- Reading all of a register. -/
theorem State.read_quad (r : Reg) : s.read .w64 r = s.regs r := BitVec.setWidth_eq _

theorem State.read_of_merge {r : Reg} {old : BitVec 64} {w : Width} {value : BitVec w.bits}
    (h : s.regs r = merge old w value) : s.read w r = value := by
  rw [read, h]
  exact setWidth_merge old w value

/-- What was written is read back. -/
@[simp] theorem State.read_write (w : Width) (r : Reg) (value : BitVec w.bits) :
    (s.write w r value).read w r = value :=
  read_of_merge _ (if_pos rfl)

theorem State.read_write_of_ne {r other : Reg} (h : other ≠ r) (w v : Width)
    (value : BitVec w.bits) : (s.write w r value).read v other = s.read v other := by
  simp [read, h]

end Registers

section Arithmetic

variable {n : Nat}

/-- The parity flag looks at the low byte. -/
def parityOf (value : BitVec n) : Bool := (List.range 8).countP value.getLsbD % 2 = 0

def resultFlags (value : BitVec n) (carry overflow : Bool) : Flags where
  carry
  parity := parityOf value
  zero := value = 0
  sign := value.msb
  overflow

def logicFlags (value : BitVec n) : Flags := resultFlags value false false

/-- `left - right - borrow` -/
def subtract (left right : BitVec n) (borrow : Bool) : BitVec n × Flags :=
  let value := left - right - (BitVec.ofBool borrow).setWidth n
  (value, resultFlags value (left.toNat < right.toNat + borrow.toNat)
    (left.msb ≠ right.msb ∧ value.msb ≠ left.msb))

/-- A truth value as a byte. -/
def bit (b : Bool) : BitVec 8 := (BitVec.ofBool b).setWidth 8

/-- The flags after a shift to the right by `count + 1`. -/
def shiftFlags (undefined : Flags) (value : BitVec n) (count : Nat) : Flags :=
  resultFlags (value >>> (count + 1)) (value.getLsbD count)
    (if count = 0 then value.msb else undefined.overflow)

def Condition.holds (condition : Condition) (flags : Flags) : Bool :=
  match condition with
  | .below => flags.carry
  | .notEqual => !flags.zero

end Arithmetic

section Execution

/-- The flags that an instruction does not define. -/
abbrev Undefined := Instr → State → Flags

variable (undefined : Undefined)

/-- `rdx:rax` divided by the operand, or the same with half registers. -/
def divide (w : Width) (src : Reg) (s : State) : Except Fault State :=
  let dividend := (s.read w .rdx).toNat * 2 ^ w.bits + (s.read w .rax).toNat
  let divisor := (s.read w src).toNat
  if divisor = 0 ∨ 2 ^ w.bits ≤ dividend / divisor then .error .divideError
  else .ok (((s.write w .rax (BitVec.ofNat _ (dividend / divisor))).write w .rdx
    (BitVec.ofNat _ (dividend % divisor))).setFlags (undefined (.div w src) s))

/-- The count is taken modulo the width; a shift by zero leaves the flags alone. -/
def shiftRight (w : Width) (dst : Reg) (count : Nat) (s : State) : State :=
  match count % (if w = .w64 then 64 else 32) with
  | 0 => s.write w dst (s.read w dst)
  | shift + 1 =>
      (s.write w dst (s.read w dst >>> (shift + 1))).setFlags
        (shiftFlags (undefined (.shrImm w dst count) s) (s.read w dst) shift)

def step (instr : Instr) (s : State) : Except Fault State :=
  match instr with
  | .movImm w dst imm => .ok (s.write w dst (imm.setWidth w.bits))
  | .mov w dst src => .ok (s.write w dst (s.read w src))
  | .movzx w dst src => .ok (s.write w dst ((s.read .w8 src).setWidth w.bits))
  | .lea w dst base disp => .ok (s.write w dst ((s.regs base + disp).setWidth w.bits))
  | .xor w dst src =>
      let value := s.read w dst ^^^ s.read w src
      .ok ((s.write w dst value).setFlags (logicFlags value))
  | .or w dst src =>
      let value := s.read w dst ||| s.read w src
      .ok ((s.write w dst value).setFlags (logicFlags value))
  | .sbb w dst src =>
      let (value, flags) := subtract (s.read w dst) (s.read w src) s.flags.carry
      .ok ((s.write w dst value).setFlags flags)
  | .test w left right => .ok (s.setFlags (logicFlags (s.read w left &&& s.read w right)))
  | .cmpImm w left imm =>
      .ok (s.setFlags (subtract (s.read w left) (imm.setWidth w.bits) false).2)
  | .shrImm w dst count => .ok (shiftRight undefined w dst count s)
  | .neg w dst =>
      let (value, flags) := subtract 0 (s.read w dst) false
      .ok ((s.write w dst value).setFlags flags)
  | .div w src => divide undefined w src s
  | .set condition dst => .ok (s.write .w8 dst (bit (condition.holds s.flags)))
  | .mulx w high low src =>
      let product := (s.read w .rdx).toNat * (s.read w src).toNat
      -- where both halves go to one register, the upper one stays
      .ok ((s.write w low (BitVec.ofNat _ product)).write w high
        (BitVec.ofNat _ (product / 2 ^ w.bits)))
  | .blsr w dst src =>
      let value := s.read w src &&& (s.read w src - 1)
      .ok ((s.write w dst value).setFlags
        { resultFlags value (s.read w src = 0) false with
          parity := (undefined instr s).parity })
  | .nop => .ok s

def exec : List Instr → State → Except Fault State
  | [], s => .ok s
  | instr :: instrs, s =>
      match step undefined instr s with
      | .ok t => exec instrs t
      | .error fault => .error fault

variable {undefined}

theorem exec_cons {instr : Instr} {s t : State} (h : step undefined instr s = .ok t)
    (instrs : List Instr) : exec undefined (instr :: instrs) s = exec undefined instrs t := by
  rw [exec, h]

theorem exec_singleton (instr : Instr) (s : State) :
    exec undefined [instr] s = step undefined instr s := by
  rw [exec]
  cases step undefined instr s <;> rfl

/-- What one block leaves behind is the start of the next one. -/
theorem exec_append {first : List Instr} {s t : State} (h : exec undefined first s = .ok t)
    (rest : List Instr) : exec undefined (first ++ rest) s = exec undefined rest t := by
  induction first generalizing s with
  | nil =>
      cases h
      rfl
  | cons instr first ih =>
      rw [exec] at h
      split at h
      · rename_i u hstep
        rw [List.cons_append, exec_cons hstep, ih h]
      · cases h

theorem exec_nops (count : Nat) (s : State) :
    exec undefined (List.replicate count .nop) s = .ok s := by
  induction count with
  | zero => rfl
  | succ count ih => exact ih

theorem exec_append_error {first : List Instr} {s : State} {fault : Fault}
    (h : exec undefined first s = .error fault) (rest : List Instr) :
    exec undefined (first ++ rest) s = .error fault := by
  induction first generalizing s with
  | nil => cases h
  | cons instr first ih =>
      rw [exec] at h
      rw [List.cons_append, exec]
      split at h
      · exact ih h
      · exact h

end Execution

section Decoding

def Reg.ofCode (code : Nat) : Reg :=
  [Reg.rax, .rcx, .rdx, .rbx, .rsp, .rbp, .rsi, .rdi,
    .r8, .r9, .r10, .r11, .r12, .r13, .r14, .r15].getD code .rax

/-- The bits that a REX or VEX sequence adds to an instruction. -/
structure Extension where
  present : Bool
  w : Bool
  reg : Bool
  rm : Bool

def Extension.width (ext : Extension) : Width := if ext.w then .w64 else .w32

/-- A `ModRM` byte together with the extension. -/
structure Operands where
  mode : Nat
  code : Nat
  reg : Reg
  rm : Reg

def operands (ext : Extension) (modrm : UInt8) : Operands where
  mode := modrm.toNat / 64
  code := modrm.toNat / 8 % 8
  reg := .ofCode (modrm.toNat / 8 % 8 + 8 * ext.reg.toNat)
  rm := .ofCode (modrm.toNat % 8 + 8 * ext.rm.toNat)

/-- Without REX, the codes from 4 on name other bytes than the low ones. -/
def Operands.lowBytes (ops : Operands) (ext : Extension) (modrm : UInt8) : Bool :=
  ops.mode = 3 ∧ (ext.present ∨ modrm.toNat / 8 % 8 < 4 ∧ modrm.toNat % 8 < 4)

def littleEndian (bytes : List UInt8) : Nat :=
  bytes.foldr (fun byte value => byte.toNat + 256 * value) 0

/-- An immediate byte, with its sign extended. -/
def signedByte (byte : UInt8) : BitVec 64 := byte.toBitVec.signExtend 64

/-- The opcodes of one byte that have a `ModRM` byte. -/
def decodeModRM (ext : Extension) (opcode modrm : UInt8) (rest : List UInt8) :
    Option (Instr × List UInt8) :=
  let ops := operands ext modrm
  let w := ext.width
  if opcode = 0x08 ∧ ops.lowBytes ext modrm then some (.or .w8 ops.rm ops.reg, rest)
  else if opcode = 0x8D ∧ ops.mode = 1 ∧ modrm.toNat % 8 ≠ 4 then
    match rest with
    | disp :: rest => some (.lea w ops.reg ops.rm (signedByte disp), rest)
    | [] => none
  else if ops.mode ≠ 3 then none
  else match opcode, ops.code, rest with
    | 0x19, _, rest => some (.sbb w ops.rm ops.reg, rest)
    | 0x31, _, rest => some (.xor w ops.rm ops.reg, rest)
    | 0x85, _, rest => some (.test w ops.rm ops.reg, rest)
    | 0x89, _, rest => some (.mov w ops.rm ops.reg, rest)
    | 0x83, 7, imm :: rest => some (.cmpImm w ops.rm (signedByte imm), rest)
    | 0xC1, 5, count :: rest => some (.shrImm w ops.rm count.toNat, rest)
    | 0xF7, 3, rest => some (.neg w ops.rm, rest)
    | 0xF7, 6, rest => some (.div w ops.rm, rest)
    | _, _, _ => none

/-- The opcodes of two bytes. -/
def decodeTwoByte (ext : Extension) (opcode modrm : UInt8) (rest : List UInt8) :
    Option (Instr × List UInt8) :=
  let ops := operands ext modrm
  if ¬ ops.lowBytes ext modrm then none
  else match opcode with
    | 0x92 => some (.set .below ops.rm, rest)
    | 0x95 => some (.set .notEqual ops.rm, rest)
    | 0xB6 => some (.movzx ext.width ops.reg ops.rm, rest)
    | _ => none

/-- `mov` with an immediate of the full width. -/
def decodeImmediate (ext : Extension) (opcode : UInt8) (rest : List UInt8) :
    Option (Instr × List UInt8) :=
  let size := ext.width.bits / 8
  if 0xB8 ≤ opcode ∧ opcode ≤ 0xBF ∧ size ≤ rest.length then
    some (.movImm ext.width (.ofCode (opcode.toNat % 8 + 8 * ext.rm.toNat))
      (BitVec.ofNat 64 (littleEndian (rest.take size))), rest.drop size)
  else none

def decodeOpcode (ext : Extension) : List UInt8 → Option (Instr × List UInt8)
  | 0x90 :: rest => if ext.present then none else some (.nop, rest)
  | 0x0F :: opcode :: modrm :: rest => decodeTwoByte ext opcode modrm rest
  | opcode :: rest =>
      (decodeImmediate ext opcode rest).or (match rest with
        | modrm :: rest => decodeModRM ext opcode modrm rest
        | [] => none)
  | [] => none

/-- The three-byte VEX form of map `0F38`, where register bits are inverted. -/
def decodeVex (first second opcode modrm : UInt8) (rest : List UInt8) :
    Option (Instr × List UInt8) :=
  let ext : Extension :=
    ⟨true, second.toNat / 128 = 1, first.toNat / 128 = 0, first.toNat / 32 % 2 = 0⟩
  let ops := operands ext modrm
  let other := Reg.ofCode (15 - second.toNat / 8 % 16)
  if first.toNat % 32 ≠ 2 ∨ second.toNat / 4 % 2 ≠ 0 ∨ ops.mode ≠ 3 then none
  else match opcode, second.toNat % 4, ops.code with
    | 0xF6, 3, _ => some (.mulx ext.width ops.reg other ops.rm, rest)
    | 0xF3, 0, 1 => some (.blsr ext.width other ops.rm, rest)
    | _, _, _ => none

def decode : List UInt8 → Option (Instr × List UInt8)
  | 0xC4 :: first :: second :: opcode :: modrm :: rest =>
      decodeVex first second opcode modrm rest
  | byte :: rest =>
      if byte.toNat / 16 = 4 then
        decodeOpcode
          ⟨true, byte.toNat / 8 % 2 = 1, byte.toNat / 4 % 2 = 1, byte.toNat % 2 = 1⟩ rest
      else decodeOpcode ⟨false, false, false, false⟩ (byte :: rest)
  | [] => none

/-- All instructions of a block, in at most as many steps. -/
def decodeSteps : Nat → List UInt8 → Option (List Instr)
  | _, [] => some []
  | 0, _ :: _ => none
  | steps + 1, bytes => do
      let (instr, rest) ← decode bytes
      let instrs ← decodeSteps steps rest
      return instr :: instrs

/-- The instructions of a block of code that ends where the block ends. -/
def decodeBlock (bytes : List UInt8) : Option (List Instr) := decodeSteps bytes.length bytes

/-- The block is executed from its first byte to its end. -/
def run (undefined : Undefined) (bytes : List UInt8) (s : State) : Except Fault State :=
  match decodeBlock bytes with
  | some instrs => exec undefined instrs s
  | none => .error .undecoded

theorem run_eq_exec {undefined : Undefined} {bytes : List UInt8} {instrs : List Instr}
    (h : decodeBlock bytes = some instrs) (s : State) :
    run undefined bytes s = exec undefined instrs s := by
  rw [run, h]

end Decoding

section Frame

/-- The registers that an instruction writes. -/
def Instr.writes : Instr → List Reg
  | .movImm _ dst _ => [dst]
  | .mov _ dst _ => [dst]
  | .movzx _ dst _ => [dst]
  | .lea _ dst _ _ => [dst]
  | .xor _ dst _ => [dst]
  | .or _ dst _ => [dst]
  | .sbb _ dst _ => [dst]
  | .test _ _ _ => []
  | .cmpImm _ _ _ => []
  | .shrImm _ dst _ => [dst]
  | .neg _ dst => [dst]
  | .div _ _ => [.rax, .rdx]
  | .set _ dst => [dst]
  | .mulx _ high low _ => [high, low]
  | .blsr _ dst _ => [dst]
  | .nop => []

variable {undefined : Undefined}

theorem divide_frame {w : Width} {src r : Reg} {s t : State} (hr : r ∉ [Reg.rax, .rdx])
    (h : divide undefined w src s = .ok t) : t.regs r = s.regs r := by
  simp only [List.mem_cons, List.not_mem_nil, or_false, not_or] at hr
  simp only [divide] at h
  split at h
  · cases h
  · cases h
    simp [hr]

theorem shiftRight_frame {w : Width} {dst r : Reg} {count : Nat} {s : State} (hr : r ≠ dst) :
    (shiftRight undefined w dst count s).regs r = s.regs r := by
  unfold shiftRight
  split
  · simp [hr]
  · simp [hr]

theorem step_frame {instr : Instr} {r : Reg} {s t : State} (hr : r ∉ instr.writes)
    (h : step undefined instr s = .ok t) : t.regs r = s.regs r := by
  cases instr with
  | div w src => exact divide_frame hr h
  | shrImm w dst count =>
      cases h
      exact shiftRight_frame (by simpa [Instr.writes] using hr)
  | _ =>
      cases h
      simp_all [Instr.writes]

/-- A block leaves alone the registers that none of its instructions writes. -/
theorem exec_frame {instrs : List Instr} {r : Reg} {s t : State}
    (hr : r ∉ instrs.flatMap Instr.writes) (h : exec undefined instrs s = .ok t) :
    t.regs r = s.regs r := by
  induction instrs generalizing s with
  | nil =>
      cases h
      rfl
  | cons instr instrs ih =>
      rw [List.flatMap_cons, List.mem_append, not_or] at hr
      rw [exec] at h
      split at h
      · rename_i u hstep
        rw [ih hr.2 h]
        exact step_frame hr.1 hstep
      · cases h

end Frame

end X86

end Kryptonite
