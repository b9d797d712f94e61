/-
Control transfers of x86-64 and operands in memory, over the register
instructions of `X86`: conditional and unconditional jumps, calls through
memory, comparisons with memory.

Code is fetched byte by byte from a text that is not written while it runs.
What a called function does is a parameter; a call that returns goes on behind
the call.  A block is executed until the instruction pointer leaves it.
-/
import Kryptonite.X86

namespace Kryptonite

namespace X86

section Machines

abbrev Address := BitVec 64

/-- Data by bytes; `none` where nothing is mapped. -/
abbrev Memory := Address → Option UInt8

/-- The bytes of the code. -/
abbrev Code := Address → UInt8

structure Machine where
  cpu : State
  memory : Memory
  rip : Address

inductive Op where
  | plain (instr : Instr)
  | cmpMem (w : Width) (base : Reg) (disp imm : BitVec 64)
  | je (rel : BitVec 64)
  | jmp (rel : BitVec 64)
  | callMem (base : Reg) (disp : BitVec 64)
deriving Repr, DecidableEq

inductive Trap where
  | fault (fault : Fault)
  | pageFault
  | noReturn
  | running
deriving Repr, DecidableEq

/-- `callee` maps the machine at the first instruction of a called function to
the machine at its return, if it returns. -/
structure Environment where
  undefined : Undefined
  callee : Machine → Option Machine

def Memory.load (memory : Memory) (address : Address) : Nat → Option (List UInt8)
  | 0 => some []
  | size + 1 => do
      let byte ← memory address
      let bytes ← load memory (address + 1) size
      return byte :: bytes

def Memory.store (memory : Memory) (address : Address) (bytes : List UInt8) : Option Memory :=
  if (memory.load address bytes.length).isSome then
    some fun other => bytes[(other - address).toNat]?.or (memory other)
  else none

def littleBytes (value : BitVec 64) : List UInt8 :=
  (List.range 8).map fun i => UInt8.ofBitVec ((value >>> (8 * i)).setWidth 8)

variable (env : Environment)

/-- Push the return address and run the called function. -/
def call (target next : Address) (m : Machine) : Except Trap Machine :=
  let cpu := m.cpu.write .w64 .rsp (m.cpu.regs .rsp - 8)
  match m.memory.store (cpu.regs .rsp) (littleBytes next) with
  | none => .error .pageFault
  | some memory =>
      match env.callee ⟨cpu, memory, target⟩ with
      | none => .error .noReturn
      | some returned => .ok { returned with rip := next }

/-- `next` is the address behind the instruction. -/
def Op.perform (op : Op) (next : Address) (m : Machine) : Except Trap Machine :=
  match op with
  | .plain instr =>
      match step env.undefined instr m.cpu with
      | .ok cpu => .ok { m with cpu, rip := next }
      | .error fault => .error (.fault fault)
  | .cmpMem w base disp imm =>
      match m.memory.load (m.cpu.regs base + disp) (w.bits / 8) with
      | none => .error .pageFault
      | some bytes =>
          let value := BitVec.ofNat w.bits (littleEndian bytes)
          let flags := (subtract value (imm.setWidth w.bits) false).2
          .ok { m with cpu := m.cpu.setFlags flags, rip := next }
  | .je rel => .ok { m with rip := if m.cpu.flags.zero then next + rel else next }
  | .jmp rel => .ok { m with rip := next + rel }
  | .callMem base disp =>
      match m.memory.load (m.cpu.regs base + disp) 8 with
      | none => .error .pageFault
      | some bytes => call env (BitVec.ofNat 64 (littleEndian bytes)) next m

end Machines

section Fetching

/-- Four bytes, with their sign extended. -/
def signedDword (bytes : List UInt8) : BitVec 64 :=
  (BitVec.ofNat 32 (littleEndian bytes)).signExtend 64

/-- The REX bits have no effect on a near jump.  Mode 2 has a displacement of
four bytes; with code 4 another byte would stand before it. -/
def decodeControl (ext : Extension) : List UInt8 → Option (Op × List UInt8)
  | 0x74 :: rel :: rest => some (.je (signedByte rel), rest)
  | 0x0F :: 0x84 :: a :: b :: c :: d :: rest => some (.je (signedDword [a, b, c, d]), rest)
  -- near jumps have a 32-bit displacement with and without REX.W
  | 0xE9 :: a :: b :: c :: d :: rest => some (.jmp (signedDword [a, b, c, d]), rest)
  | 0x83 :: modrm :: a :: b :: c :: d :: imm :: rest =>
      let ops := operands ext modrm
      if ops.mode = 2 ∧ modrm.toNat % 8 ≠ 4 ∧ ops.code = 7 then
        some (.cmpMem ext.width ops.rm (signedDword [a, b, c, d]) (signedByte imm), rest)
      else none
  | 0xFF :: modrm :: a :: b :: c :: d :: rest =>
      let ops := operands ext modrm
      if ops.mode = 2 ∧ modrm.toNat % 8 ≠ 4 ∧ ops.code = 2 then
        some (.callMem ops.rm (signedDword [a, b, c, d]), rest)
      else none
  | _ => none

/-- The bits of a REX byte in front, and what follows it. -/
def splitRex : List UInt8 → Extension × List UInt8
  | byte :: rest =>
      if byte.toNat / 16 = 4 then
        (⟨true, byte.toNat / 8 % 2 = 1, byte.toNat / 4 % 2 = 1, byte.toNat % 2 = 1⟩, rest)
      else (⟨false, false, false, false⟩, byte :: rest)
  | [] => (⟨false, false, false, false⟩, [])

def decodeOp (bytes : List UInt8) : Option (Op × List UInt8) :=
  (decodeControl (splitRex bytes).1 (splitRex bytes).2).or
    ((decode bytes).map fun (instr, rest) => (.plain instr, rest))

/-- No instruction is longer than 15 bytes. -/
def fetch (code : Code) (rip : Address) : List UInt8 :=
  (List.range 15).map fun i => code (rip + BitVec.ofNat 64 i)

variable (env : Environment) (code : Code)

def stepAt (m : Machine) : Except Trap Machine :=
  match decodeOp (fetch code m.rip) with
  | none => .error (.fault .undecoded)
  | some (op, rest) => op.perform env (m.rip + BitVec.ofNat 64 (15 - rest.length)) m

def inside (base : Address) (size : Nat) (address : Address) : Bool :=
  (address - base).toNat < size

/-- Execute until the instruction pointer is outside, in at most so many steps. -/
def runWithin (base : Address) (size : Nat) : Nat → Machine → Except Trap Machine
  | 0, m => if inside base size m.rip then .error .running else .ok m
  | steps + 1, m =>
      if inside base size m.rip then
        match stepAt env code m with
        | .ok n => runWithin base size steps n
        | .error trap => .error trap
      else .ok m

/-- The text with these bytes at an address. -/
def placed (base : Address) (bytes : List UInt8) : Code := fun address =>
  bytes[(address - base).toNat]?.getD (code address)

/-- The block is placed at an address and entered at its first byte. -/
def runAt (bytes : List UInt8) (base : Address) (m : Machine) : Except Trap Machine :=
  runWithin env (placed code base bytes) base bytes.length bytes.length { m with rip := base }

/-- Some execution of the block ends at this address. -/
def Reaches (bytes : List UInt8) (base address : Address) : Prop :=
  ∃ env code m t, runAt env code bytes base m = .ok t ∧ t.rip = address

end Fetching

section Rules

variable {env : Environment} {code : Code} {base : Address} {bytes : List UInt8} {k : Nat}

theorem toNat_add_sub (hk : k < 2 ^ 64) : (base + BitVec.ofNat 64 k - base).toNat = k := by
  rw [BitVec.add_comm, BitVec.add_sub_cancel, BitVec.toNat_ofNat, Nat.mod_eq_of_lt hk]

theorem inside_add (hk : k < 2 ^ 64) (size : Nat) :
    inside base size (base + BitVec.ofNat 64 k) = decide (k < size) := by
  rw [inside, toNat_add_sub hk]

theorem add_ofNat_add (j : Nat) :
    base + BitVec.ofNat 64 k + BitVec.ofNat 64 j = base + BitVec.ofNat 64 (k + j) := by
  rw [BitVec.add_assoc, BitVec.ofNat_add]

/-- What is fetched inside a block begins with the rest of the block. -/
theorem fetch_placed (hlength : bytes.length ≤ 15) (hk : k ≤ bytes.length) :
    ∃ rest, rest.length = 15 - (bytes.length - k) ∧
      fetch (placed code base bytes) (base + BitVec.ofNat 64 k) = bytes.drop k ++ rest := by
  refine ⟨(fetch (placed code base bytes) (base + BitVec.ofNat 64 k)).drop (bytes.length - k),
    by simp [fetch], ?_⟩
  have hfirst : (fetch (placed code base bytes) (base + BitVec.ofNat 64 k)).take
      (bytes.length - k) = bytes.drop k := by
    apply List.ext_getElem?
    intro i
    rw [List.getElem?_take, List.getElem?_drop]
    by_cases hi : i < bytes.length - k
    · have hsome : bytes[k + i]? = some bytes[k + i] := List.getElem?_eq_getElem (by omega)
      rw [if_pos hi, fetch, List.getElem?_map, List.getElem?_range (by omega), Option.map_some,
        add_ofNat_add, placed, toNat_add_sub (by omega), hsome, Option.getD_some]
    · rw [if_neg hi, List.getElem?_eq_none (by omega)]
  rw [← hfirst, List.take_append_drop]

/-- The instruction of so many bytes that stands at an offset of a short block,
whatever stands behind the block. -/
structure Stands (bytes : List UInt8) (k : Nat) (op : Op) (size : Nat) : Prop where
  short : bytes.length ≤ 15
  positive : 0 < size
  fits : k + size ≤ bytes.length
  decodes : ∀ rest, decodeOp (bytes.drop k ++ rest) = some (op, bytes.drop (k + size) ++ rest)

variable {op : Op} {size steps : Nat} {m n : Machine}

theorem stepAt_placed (h : Stands bytes k op size) (hrip : m.rip = base + BitVec.ofNat 64 k) :
    stepAt env (placed code base bytes) m =
      op.perform env (base + BitVec.ofNat 64 (k + size)) m := by
  obtain ⟨rest, hrest, hfetch⟩ :=
    @fetch_placed code base bytes k h.short (Nat.le_of_add_right_le h.fits)
  have hfits := h.fits
  have hshort := h.short
  have hsize : 15 - (bytes.drop (k + size) ++ rest).length = size := by
    rw [List.length_append, List.length_drop, hrest]
    omega
  simp only [stepAt, hrip, hfetch, h.decodes, hsize, add_ofNat_add]

theorem Stands.inside (h : Stands bytes k op size) :
    X86.inside base bytes.length (base + BitVec.ofNat 64 k) = true := by
  have hpositive := h.positive
  have hfits := h.fits
  have hshort := h.short
  rw [inside_add (by omega)]
  exact decide_eq_true (by omega)

/-- One instruction of a block, and the rest of the execution. -/
theorem runWithin_next (h : Stands bytes k op size) (hrip : m.rip = base + BitVec.ofNat 64 k)
    (hperform : op.perform env (base + BitVec.ofNat 64 (k + size)) m = .ok n) :
    runWithin env (placed code base bytes) base bytes.length (steps + 1) m =
      runWithin env (placed code base bytes) base bytes.length steps n := by
  rw [runWithin, hrip, if_pos h.inside, stepAt_placed h hrip, hperform]

theorem runWithin_trap {trap : Trap} (h : Stands bytes k op size)
    (hrip : m.rip = base + BitVec.ofNat 64 k)
    (hperform : op.perform env (base + BitVec.ofNat 64 (k + size)) m = .error trap) :
    runWithin env (placed code base bytes) base bytes.length (steps + 1) m = .error trap := by
  rw [runWithin, hrip, if_pos h.inside, stepAt_placed h hrip, hperform]

/-- The execution ends at an address behind the block. -/
theorem runWithin_out {j : Nat} (hrip : m.rip = base + BitVec.ofNat 64 j) (hj : j < 2 ^ 64)
    (hout : size ≤ j) : runWithin env code base size steps m = .ok m := by
  have houtside : inside base size m.rip = false := by
    rw [hrip, inside_add hj]
    exact decide_eq_false (Nat.not_lt.mpr hout)
  cases steps with
  | zero => simp [runWithin, houtside]
  | succ steps => simp [runWithin, houtside]

end Rules

section Effects

variable {env : Environment} {code : Code} {base : Address} {bytes : List UInt8} {k size : Nat}
variable {cpu : State} {memory : Memory} {steps rel : Nat}

theorem runAt_eq (hlength : bytes.length = steps) (m : Machine) :
    runAt env code bytes base m =
      runWithin env (placed code base bytes) base bytes.length steps
        ⟨m.cpu, m.memory, base + BitVec.ofNat 64 0⟩ := by
  rw [BitVec.add_zero, ← hlength]
  rfl

theorem runWithin_test {w : Width} {r : Reg} (h : Stands bytes k (.plain (.test w r r)) size) :
    runWithin env (placed code base bytes) base bytes.length (steps + 1)
        ⟨cpu, memory, base + BitVec.ofNat 64 k⟩ =
      runWithin env (placed code base bytes) base bytes.length steps
        ⟨cpu.setFlags (logicFlags (cpu.read w r)), memory,
          base + BitVec.ofNat 64 (k + size)⟩ := by
  have hand : cpu.read w r &&& cpu.read w r = cpu.read w r := BitVec.and_self
  exact runWithin_next h rfl (by simp only [Op.perform, step, hand])

theorem runWithin_je_passed {target : Address} (h : Stands bytes k (.je target) size)
    (hzero : cpu.flags.zero = false) :
    runWithin env (placed code base bytes) base bytes.length (steps + 1)
        ⟨cpu, memory, base + BitVec.ofNat 64 k⟩ =
      runWithin env (placed code base bytes) base bytes.length steps
        ⟨cpu, memory, base + BitVec.ofNat 64 (k + size)⟩ :=
  runWithin_next h rfl (by simp only [Op.perform, hzero, Bool.false_eq_true, if_false])

/-- A conditional jump out of the block. -/
theorem runWithin_je_taken (h : Stands bytes k (.je (BitVec.ofNat 64 rel)) size)
    (hzero : cpu.flags.zero = true) (hrel : rel < 2 ^ 32)
    (hout : bytes.length ≤ k + size + rel) :
    runWithin env (placed code base bytes) base bytes.length (steps + 1)
        ⟨cpu, memory, base + BitVec.ofNat 64 k⟩ =
      .ok ⟨cpu, memory, base + BitVec.ofNat 64 (k + size + rel)⟩ := by
  have hfits := h.fits
  have hshort := h.short
  have hperform : (Op.je (BitVec.ofNat 64 rel)).perform env (base + BitVec.ofNat 64 (k + size))
      ⟨cpu, memory, base + BitVec.ofNat 64 k⟩ =
        .ok ⟨cpu, memory, base + BitVec.ofNat 64 (k + size + rel)⟩ := by
    simp only [Op.perform, hzero, if_true, add_ofNat_add]
  rw [runWithin_next h rfl hperform]
  exact runWithin_out rfl (by omega) hout

/-- A jump out of the block. -/
theorem runWithin_jmp (h : Stands bytes k (.jmp (BitVec.ofNat 64 rel)) size) (hrel : rel < 2 ^ 32)
    (hout : bytes.length ≤ k + size + rel) :
    runWithin env (placed code base bytes) base bytes.length (steps + 1)
        ⟨cpu, memory, base + BitVec.ofNat 64 k⟩ =
      .ok ⟨cpu, memory, base + BitVec.ofNat 64 (k + size + rel)⟩ := by
  have hfits := h.fits
  have hshort := h.short
  have hperform : (Op.jmp (BitVec.ofNat 64 rel)).perform env (base + BitVec.ofNat 64 (k + size))
      ⟨cpu, memory, base + BitVec.ofNat 64 k⟩ =
        .ok ⟨cpu, memory, base + BitVec.ofNat 64 (k + size + rel)⟩ := by
    simp only [Op.perform, add_ofNat_add]
  rw [runWithin_next h rfl hperform]
  exact runWithin_out rfl (by omega) hout

/-- The end of the block, for a block that is short. -/
theorem runWithin_end (hshort : bytes.length ≤ 15) :
    runWithin env (placed code base bytes) base bytes.length steps
        ⟨cpu, memory, base + BitVec.ofNat 64 bytes.length⟩ =
      .ok ⟨cpu, memory, base + BitVec.ofNat 64 bytes.length⟩ :=
  runWithin_out rfl (by omega) (Nat.le_refl _)

theorem logicFlags_zero {n : Nat} (value : BitVec n) :
    (logicFlags value).zero = decide (value = 0) := rfl

theorem subtract_zero_flag {n : Nat} (value : BitVec n) :
    (subtract value 0 false).2.zero = decide (value = 0) := by
  simp [subtract, resultFlags]

/-- A call that returns goes on behind it. -/
theorem rip_of_callMem {r : Reg} {disp next : Address} {m n : Machine}
    (h : (Op.callMem r disp).perform env next m = .ok n) : n.rip = next := by
  simp only [Op.perform, call] at h
  split at h
  · cases h
  · split at h
    · cases h
    · split at h
      · cases h
      · cases h
        rfl

/-- Memory that holds one byte everywhere. -/
def filled (byte : UInt8) : Memory := fun _ => some byte

theorem load_filled (byte : UInt8) (size : Nat) (address : Address) :
    (filled byte).load address size = some (List.replicate size byte) := by
  induction size generalizing address with
  | zero => rfl
  | succ size ih =>
      rw [Memory.load, ih]
      rfl

end Effects

end X86

end Kryptonite
