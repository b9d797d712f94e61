/-
The kernel patches that rewrite branches (`kern_patches.cpp`), executed from
their bytes: `guardAMDIOSurfacePlaneInfo` replaces a comparison with memory by
tests of two registers, `bypassIOPCITunnelCompatible` makes a conditional jump
unconditional.  Both keep the target of the jump they replace.
-/
import Kryptonite.Patches
import Kryptonite.X86Control

namespace Kryptonite

namespace Patches

open X86

variable (env : Environment) (code : Code) (base : Address) (m : X86.Machine) (kext : KextEntry)

section Guard

/-- The flags after the tests of the replacement. -/
def guardFlags (cpu : State) : Flags :=
  if cpu.read .w32 .r12 = 0 then logicFlags (cpu.read .w32 .r12)
  else logicFlags (cpu.read .w32 .rcx)

/-- The replacement tests `r12d` and `ecx` and jumps if either is zero. -/
theorem surfacePlane_replaced :
    runAt env code (surfacePlanePatch kext).replace base m =
      .ok ⟨m.cpu.setFlags (guardFlags m.cpu), m.memory,
        if m.cpu.read .w32 .r12 = 0 ∨ m.cpu.read .w32 .rcx = 0 then base + 0x66#64
        else base + 10#64⟩ := by
  have hlength : (surfacePlanePatch kext).replace.length = 10 := rfl
  have hshort : (surfacePlanePatch kext).replace.length ≤ 15 := show 10 ≤ 15 by decide
  have hfirst : Stands (surfacePlanePatch kext).replace 0 (.plain (.test .w32 .r12 .r12)) 3 :=
    ⟨hshort, by decide, show 0 + 3 ≤ 10 by decide, fun _ => rfl⟩
  have hfirstJe : Stands (surfacePlanePatch kext).replace 3 (.je 0x61#64) 2 :=
    ⟨hshort, by decide, show 3 + 2 ≤ 10 by decide, fun _ => rfl⟩
  have hsecond : Stands (surfacePlanePatch kext).replace 5 (.plain (.test .w32 .rcx .rcx)) 2 :=
    ⟨hshort, by decide, show 5 + 2 ≤ 10 by decide, fun _ => rfl⟩
  have hsecondJe : Stands (surfacePlanePatch kext).replace 7 (.je 0x5d#64) 2 :=
    ⟨hshort, by decide, show 7 + 2 ≤ 10 by decide, fun _ => rfl⟩
  have hnop : Stands (surfacePlanePatch kext).replace 9 (.plain .nop) 1 :=
    ⟨hshort, by decide, show 9 + 1 ≤ 10 by decide, fun _ => rfl⟩
  rw [runAt_eq hlength, runWithin_test hfirst]
  -- both jumps are measured from their own ends, 5 and 9 bytes into the window
  by_cases hr12 : m.cpu.read .w32 .r12 = 0
  · have htaken : (logicFlags (m.cpu.read .w32 .r12)).zero = true := decide_eq_true hr12
    rw [runWithin_je_taken hfirstJe htaken (by decide) (show 10 ≤ 3 + 2 + 0x61 by decide),
      if_pos (.inl hr12), guardFlags, if_pos hr12]
  · have hpassed : (logicFlags (m.cpu.read .w32 .r12)).zero = false := decide_eq_false hr12
    rw [runWithin_je_passed hfirstJe hpassed, runWithin_test hsecond]
    by_cases hrcx : m.cpu.read .w32 .rcx = 0
    · have htaken : (logicFlags (m.cpu.read .w32 .rcx)).zero = true := decide_eq_true hrcx
      rw [runWithin_je_taken hsecondJe htaken (by decide) (show 10 ≤ 7 + 2 + 0x5d by decide),
        if_pos (.inr hrcx), guardFlags, if_neg hr12]
      rfl
    · have hpassed : (logicFlags (m.cpu.read .w32 .rcx)).zero = false := decide_eq_false hrcx
      rw [runWithin_je_passed hsecondJe hpassed, runWithin_next hnop rfl rfl,
        if_neg (not_or.mpr ⟨hr12, hrcx⟩), guardFlags, if_neg hr12]
      exact runWithin_end hshort

/-- The dword that the original compares with zero. -/
def planeInfo : Option (List UInt8) := m.memory.load (m.cpu.regs .r13 + 0xb0#64) 4

theorem surfacePlane_compares :
    Stands (surfacePlanePatch kext).find 0 (.cmpMem .w32 .r13 0xb0#64 0) 8 :=
  ⟨show 10 ≤ 15 by decide, by decide, show 0 + 8 ≤ 10 by decide, fun _ => rfl⟩

theorem surfacePlane_original {bytes : List UInt8} (hload : planeInfo m = some bytes) :
    runAt env code (surfacePlanePatch kext).find base m =
      .ok ⟨m.cpu.setFlags (subtract (BitVec.ofNat 32 (littleEndian bytes)) 0 false).2, m.memory,
        if BitVec.ofNat 32 (littleEndian bytes) = 0 then base + 0x66#64 else base + 10#64⟩ := by
  have hlength : (surfacePlanePatch kext).find.length = 10 := rfl
  have hje : Stands (surfacePlanePatch kext).find 8 (.je 0x5c#64) 2 :=
    ⟨show 10 ≤ 15 by decide, by decide, show 8 + 2 ≤ 10 by decide, fun _ => rfl⟩
  have hcompare : (Op.cmpMem .w32 .r13 0xb0#64 0).perform env (base + BitVec.ofNat 64 (0 + 8))
      ⟨m.cpu, m.memory, base + BitVec.ofNat 64 0⟩ =
        .ok ⟨m.cpu.setFlags (subtract (BitVec.ofNat 32 (littleEndian bytes)) 0 false).2, m.memory,
          base + BitVec.ofNat 64 (0 + 8)⟩ := by
    have hbytes : m.memory.load (m.cpu.regs .r13 + 0xb0#64) (Width.w32.bits / 8) = some bytes :=
      hload
    simp only [Op.perform, hbytes]
    rfl
  rw [runAt_eq hlength, runWithin_next (surfacePlane_compares kext) rfl hcompare]
  by_cases hzero : BitVec.ofNat 32 (littleEndian bytes) = 0
  · have htaken : (subtract (BitVec.ofNat 32 (littleEndian bytes)) 0 false).2.zero = true :=
      (subtract_zero_flag _).trans (decide_eq_true hzero)
    rw [runWithin_je_taken hje htaken (by decide) (show 10 ≤ 8 + 2 + 0x5c by decide),
      if_pos hzero]
  · have hpassed : (subtract (BitVec.ofNat 32 (littleEndian bytes)) 0 false).2.zero = false :=
      (subtract_zero_flag _).trans (decide_eq_false hzero)
    rw [runWithin_je_passed hje hpassed, if_neg hzero]
    exact runWithin_end hje.short

theorem surfacePlane_original_trap (hload : planeInfo m = none) :
    runAt env code (surfacePlanePatch kext).find base m = .error .pageFault := by
  have hlength : (surfacePlanePatch kext).find.length = 10 := rfl
  have hcompare : (Op.cmpMem .w32 .r13 0xb0#64 0).perform env (base + BitVec.ofNat 64 (0 + 8))
      ⟨m.cpu, m.memory, base + BitVec.ofNat 64 0⟩ = .error .pageFault := by
    have hbytes : m.memory.load (m.cpu.regs .r13 + 0xb0#64) (Width.w32.bits / 8) = none := hload
    simp only [Op.perform, hbytes]
  rw [runAt_eq hlength]
  exact runWithin_trap (surfacePlane_compares kext) rfl hcompare

/-- What a guard in the place of a conditional jump may do. -/
structure Guards (patch : LookupPatch) (base target : Address) : Prop where
  original : ∀ env code m t, runAt env code patch.find base m = .ok t →
    (t.rip = target ∨ t.rip = base + 10#64) ∧ t.cpu.regs = m.cpu.regs ∧ t.memory = m.memory
  jumps : ∀ env code m bytes, planeInfo m = some bytes →
    ∃ t, runAt env code patch.find base m = .ok t ∧
      (t.rip = target ↔ BitVec.ofNat 32 (littleEndian bytes) = 0)
  reaches : X86.Reaches patch.find base target ∧ X86.Reaches patch.find base (base + 10#64)
  distinct : target ≠ base + 10#64
  replaced : ∀ env code m, ∃ t, runAt env code patch.replace base m = .ok t ∧
    t.cpu.regs = m.cpu.regs ∧ t.memory = m.memory ∧
    t.rip = if m.cpu.read .w32 .r12 = 0 ∨ m.cpu.read .w32 .rcx = 0 then target
      else base + 10#64

/-- A machine with one byte everywhere in its memory. -/
def filledMachine (byte : UInt8) : X86.Machine where
  cpu := ⟨fun _ => 0, ⟨false, false, false, false, false⟩⟩
  memory := filled byte
  rip := 0

/-- Functions that return at once. -/
def returning : Environment := ⟨fun _ s => s.flags, some⟩

theorem target_ne_end : base + 0x66#64 ≠ base + 10#64 := by
  intro h
  exact absurd (BitVec.add_right_inj base |>.mp h) (by decide)

theorem surfacePlane_guards : Guards (surfacePlanePatch kext) base (base + 0x66#64) where
  original env code m t hrun := by
    cases hload : planeInfo m with
    | none =>
        rw [surfacePlane_original_trap env code base m kext hload] at hrun
        cases hrun
    | some bytes =>
        rw [surfacePlane_original env code base m kext hload] at hrun
        cases hrun
        refine ⟨?_, rfl, rfl⟩
        by_cases hzero : BitVec.ofNat 32 (littleEndian bytes) = 0
        · exact .inl (if_pos hzero)
        · exact .inr (if_neg hzero)
  jumps env code m bytes hload := by
    refine ⟨_, surfacePlane_original env code base m kext hload, ?_⟩
    by_cases hzero : BitVec.ofNat 32 (littleEndian bytes) = 0
    · exact iff_of_true (if_pos hzero) hzero
    · refine iff_of_false ?_ hzero
      rw [if_neg hzero]
      exact (target_ne_end base).symm
  reaches := by
    have hload : ∀ byte, planeInfo (filledMachine byte) = some (List.replicate 4 byte) :=
      fun byte => load_filled byte 4 _
    exact ⟨⟨returning, fun _ => 0, filledMachine 0, _,
        surfacePlane_original _ _ base _ kext (hload 0), rfl⟩,
      ⟨returning, fun _ => 0, filledMachine 1, _,
        surfacePlane_original _ _ base _ kext (hload 1), rfl⟩⟩
  distinct := target_ne_end base
  replaced env code m := ⟨_, surfacePlane_replaced env code base m kext, rfl, rfl, rfl⟩

end Guard

section Bypass

variable (displacement : UInt8)

theorem signedDword_byte : signedDword [displacement, 0, 0, 0] =
    BitVec.ofNat 64 displacement.toNat := by
  have hvalue : littleEndian [displacement, 0, 0, 0] = displacement.toNat := by
    simp [littleEndian]
  have hlt : displacement.toNat < 256 := displacement.toNat_lt
  have hmsb : (BitVec.ofNat 32 displacement.toNat).msb = false := by
    rw [BitVec.msb_eq_false_iff_two_mul_lt, BitVec.toNat_ofNat]
    omega
  apply BitVec.eq_of_toNat_eq
  rw [signedDword, hvalue, BitVec.signExtend_eq_setWidth_of_msb_false hmsb, BitVec.toNat_setWidth,
    BitVec.toNat_ofNat, BitVec.toNat_ofNat]
  omega

/-- `call [rax + 0x2a8]` and `test rax, rax`, which the patch keeps. -/
def callAndTest : List UInt8 := [0xff, 0x90, 0xa8, 0x02, 0x00, 0x00, 0x48, 0x85, 0xc0]

/-- The call at the beginning of the block. -/
def tunnelCall : Except Trap X86.Machine :=
  (Op.callMem .rax 0x2a8#64).perform env (base + 6#64) ⟨m.cpu, m.memory, base + 0#64⟩

/-- The machine after the test of `rax`, at an address. -/
def tested (rip : Address) (n : X86.Machine) : X86.Machine :=
  ⟨n.cpu.setFlags (logicFlags (n.cpu.read .w64 .rax)), n.memory, rip⟩

theorem tested_zero (rip : Address) (n : X86.Machine) :
    (tested rip n).cpu.flags.zero = decide (n.cpu.regs .rax = 0) := by
  rw [tested, State.setFlags_flags, logicFlags_zero, State.read_quad]

/-- The block up to the jump, whatever the jump is. -/
theorem runAt_callAndTest {jump : List UInt8} (hjump : jump.length = 6) :
    runAt env code (callAndTest ++ jump) base m = (tunnelCall env base m).bind fun n =>
      runWithin env (placed code base (callAndTest ++ jump)) base (callAndTest ++ jump).length 13
        (tested (base + 9#64) n) := by
  have hlength : (callAndTest ++ jump).length = 15 := by
    rw [List.length_append, hjump]
    rfl
  have hcall : Stands (callAndTest ++ jump) 0 (.callMem .rax 0x2a8#64) 6 :=
    ⟨by omega, by decide, by omega, fun _ => rfl⟩
  have htest : Stands (callAndTest ++ jump) 6 (.plain (.test .w64 .rax .rax)) 3 :=
    ⟨by omega, by decide, by omega, fun _ => rfl⟩
  rw [runAt_eq hlength]
  cases hperform : tunnelCall env base m with
  | error trap => exact runWithin_trap hcall rfl hperform
  | ok n =>
      obtain ⟨cpu, memory, rip⟩ := n
      obtain rfl : rip = base + 6#64 := rip_of_callMem hperform
      rw [runWithin_next hcall rfl hperform, runWithin_test htest]
      rfl

/-- Where the original jumps to. -/
def tunnelTarget : Address := base + BitVec.ofNat 64 (15 + displacement.toNat)

theorem tunnel_original :
    runAt env code (tunnelCompatiblePatch kext displacement).find base m =
      (tunnelCall env base m).map fun n =>
        tested (if n.cpu.regs .rax = 0 then tunnelTarget base displacement else base + 15#64)
          n := by
  have hlt : displacement.toNat < 256 := displacement.toNat_lt
  have hje : Stands (callAndTest ++ [0x0f, 0x84, displacement, 0, 0, 0]) 9
      (.je (BitVec.ofNat 64 displacement.toNat)) 6 := by
    rw [← signedDword_byte]
    exact ⟨Nat.le_refl 15, by decide, Nat.le_refl 15, fun _ => rfl⟩
  rw [show (tunnelCompatiblePatch kext displacement).find =
    callAndTest ++ [0x0f, 0x84, displacement, 0, 0, 0] from rfl, runAt_callAndTest _ _ _ _ rfl]
  cases tunnelCall env base m with
  | error trap => rfl
  | ok n =>
      have hflag := tested_zero (base + 9#64) n
      by_cases hrax : n.cpu.regs .rax = 0
      · rw [decide_eq_true hrax] at hflag
        simp only [Except.map, if_pos hrax]
        exact runWithin_je_taken hje hflag (by omega) (show 15 ≤ 9 + 6 + _ by omega)
      · rw [decide_eq_false hrax] at hflag
        simp only [Except.map, if_neg hrax]
        exact (runWithin_je_passed hje hflag).trans (runWithin_end hje.short)

theorem tunnel_replaced :
    runAt env code (tunnelCompatiblePatch kext displacement).replace base m =
      (tunnelCall env base m).map (tested (tunnelTarget base displacement)) := by
  have hlt : displacement.toNat < 256 := displacement.toNat_lt
  have hjmp : Stands (callAndTest ++ [0x48, 0xe9, displacement, 0, 0, 0]) 9
      (.jmp (BitVec.ofNat 64 displacement.toNat)) 6 := by
    rw [← signedDword_byte]
    exact ⟨Nat.le_refl 15, by decide, Nat.le_refl 15, fun _ => rfl⟩
  rw [show (tunnelCompatiblePatch kext displacement).replace =
    callAndTest ++ [0x48, 0xe9, displacement, 0, 0, 0] from rfl, runAt_callAndTest _ _ _ _ rfl]
  cases tunnelCall env base m with
  | error trap => rfl
  | ok n => exact runWithin_jmp hjmp (by omega) (show 15 ≤ 9 + 6 + _ by omega)

/-- What a jump in the place of a conditional jump may do. -/
structure Bypasses (patch : LookupPatch) (base target : Address) : Prop where
  kept : patch.replace.take 9 = patch.find.take 9
  original : ∀ env code m t, runAt env code patch.find base m = .ok t →
    t.rip = if t.cpu.regs .rax = 0 then target else base + 15#64
  reaches : X86.Reaches patch.find base target
  replaced : ∀ env code m, runAt env code patch.replace base m =
    (runAt env code patch.find base m).map fun t => { t with rip := target }

theorem tunnelCall_returning :
    ∃ n, tunnelCall returning base (filledMachine 0) = .ok n ∧ n.cpu.regs .rax = 0 := by
  simp only [tunnelCall, Op.perform, call, Memory.store, filledMachine, load_filled,
    Option.isSome_some, if_true, returning]
  exact ⟨_, rfl, rfl⟩

theorem tunnelCompatible_bypasses :
    Bypasses (tunnelCompatiblePatch kext displacement) base (tunnelTarget base displacement) where
  kept := rfl
  original env code m t hrun := by
    rw [tunnel_original] at hrun
    cases hcall : tunnelCall env base m with
    | error trap =>
        rw [hcall] at hrun
        cases hrun
    | ok n =>
        rw [hcall] at hrun
        cases hrun
        rfl
  reaches := by
    obtain ⟨n, hcall, hrax⟩ := tunnelCall_returning base
    refine ⟨returning, fun _ => 0, filledMachine 0,
      tested (tunnelTarget base displacement) n, ?_, rfl⟩
    rw [tunnel_original, hcall]
    simp only [Except.map, if_pos hrax]
  replaced env code m := by
    rw [tunnel_replaced, tunnel_original]
    cases tunnelCall env base m with
    | error trap => rfl
    | ok n => rfl

/-- The displacement for the running kernel. -/
def tunnelDisplacement (boot : Boot) : UInt8 :=
  if boot.major = KernelVersion.highSierra ∨ boot.major = KernelVersion.mojave then 0xbc
  else if boot.major = KernelVersion.sequoia then 0xd1
  else 0xb9

theorem ioPCITunnelPatch_eq (boot : Boot) :
    ioPCITunnelPatch boot kext = tunnelCompatiblePatch kext (tunnelDisplacement boot) := by
  unfold ioPCITunnelPatch tunnelDisplacement
  split
  · rfl
  · split <;> rfl

end Bypass

/-- At every load address and on every kernel the rewritten branches go where the
original ones can go, and leave the registers and the memory as those do. -/
theorem branchPatches_keep_targets (boot : Boot) (kext : KextEntry) (base : Address) :
    Guards (surfacePlanePatch kext) base (base + 0x66#64) ∧
      Bypasses (ioPCITunnelPatch boot kext) base (tunnelTarget base (tunnelDisplacement boot)) := by
  rw [ioPCITunnelPatch_eq]
  exact ⟨surfacePlane_guards base kext, tunnelCompatible_bypasses base kext _⟩

end Patches

end Kryptonite
