/-
The BMI hotfixes of the modern Radeon userland: byte sequences of two drivers
that use instructions an Ivy Bridge processor does not have, and what is written
in their place.  The code between the sites is not at hand; it is taken to leave
`rcx` alone.
-/
import Kryptonite.X86

namespace Kryptonite

namespace BmiHotfix

open X86

/-- The value of a hexadecimal digit. -/
def hexDigit (c : Char) : Nat :=
  if c.isDigit then c.toNat - 0x30 else c.toNat - 0x57

/-- `pack('H*', $hex)` -/
def packHex : List Char → List UInt8
  | high :: low :: rest => UInt8.ofNat (16 * hexDigit high + hexDigit low) :: packHex rest
  | [high] => [UInt8.ofNat (16 * hexDigit high)]
  | [] => []

def hexToBytes (hex : String) : List UInt8 := packHex hex.toList

/-- One edit: the bytes expected at an offset and those that replace them. -/
structure Hotfix where
  offset : Nat
  expected : List UInt8
  replacement : List UInt8
  label : String

def bronzeHotfix1 : Hotfix where
  offset := 0xD7E33
  expected := hexToBytes "48b9c3f5285c8fc2f528c4e2ebf6d148c1ea02"
  replacement := hexToBytes "b91900000089d031d2f7f189c2909090909090"
  label := "amdMtlBronzeInitHwInfo hotfix #1"

def bronzeHotfix2 : Hotfix where
  offset := 0xD7E66
  expected := hexToBytes "c4e2ebf6d148c1ea02"
  replacement := hexToBytes "89d031d2f7f189c290"
  label := "amdMtlBronzeInitHwInfo hotfix #2"

def bronzeHotfix3 : Hotfix where
  offset := 0xD7E8A
  expected := hexToBytes "c4e2f3f6c9c1e902"
  replacement := hexToBytes "89d031d2f7f189c1"
  label := "amdMtlBronzeInitHwInfo hotfix #3"

def amdilHotfix : Hotfix where
  offset := 0xA7A89
  expected := hexToBytes "4983fe030f92c0c4c2f0f3ce0f95c108c10fb6c1"
  replacement := hexToBytes "4983fe0319c0f7d8498d4eff4c85f10f95c108c8"
  label := "libAMDIL902 hotfix #1"

section Decoded

/-- `2^66 / 25`, rounded up. -/
def reciprocal : BitVec 64 := 0x28F5C28F5C28F5C3

theorem decode_bronzeHotfix1_expected : decodeBlock bronzeHotfix1.expected =
    some [.movImm .w64 .rcx reciprocal, .mulx .w64 .rdx .rdx .rcx, .shrImm .w64 .rdx 2] := by
  decide +kernel

theorem decode_bronzeHotfix1_replacement : decodeBlock bronzeHotfix1.replacement =
    some [.movImm .w32 .rcx 25, .mov .w32 .rax .rdx, .xor .w32 .rdx .rdx, .div .w32 .rcx,
      .mov .w32 .rdx .rax, .nop, .nop, .nop, .nop, .nop, .nop] := by
  decide +kernel

theorem decode_bronzeHotfix2_expected : decodeBlock bronzeHotfix2.expected =
    some [.mulx .w64 .rdx .rdx .rcx, .shrImm .w64 .rdx 2] := by
  decide +kernel

theorem decode_bronzeHotfix2_replacement : decodeBlock bronzeHotfix2.replacement =
    some [.mov .w32 .rax .rdx, .xor .w32 .rdx .rdx, .div .w32 .rcx, .mov .w32 .rdx .rax,
      .nop] := by
  decide +kernel

theorem decode_bronzeHotfix3_expected : decodeBlock bronzeHotfix3.expected =
    some [.mulx .w64 .rcx .rcx .rcx, .shrImm .w32 .rcx 2] := by
  decide +kernel

theorem decode_bronzeHotfix3_replacement : decodeBlock bronzeHotfix3.replacement =
    some [.mov .w32 .rax .rdx, .xor .w32 .rdx .rdx, .div .w32 .rcx, .mov .w32 .rcx .rax] := by
  decide +kernel

theorem decode_amdilHotfix_expected : decodeBlock amdilHotfix.expected =
    some [.cmpImm .w64 .r14 3, .set .below .rax, .blsr .w64 .rcx .r14, .set .notEqual .rcx,
      .or .w8 .rcx .rax, .movzx .w32 .rax .rcx] := by
  decide +kernel

theorem decode_amdilHotfix_replacement : decodeBlock amdilHotfix.replacement =
    some [.cmpImm .w64 .r14 3, .sbb .w32 .rax .rax, .neg .w32 .rax, .lea .w64 .rcx .r14 (-1),
      .test .w64 .rcx .r14, .set .notEqual .rcx, .or .w8 .rax .rcx] := by
  decide +kernel

end Decoded

section Division

variable (undefined : Undefined) {s : State}

/-- `mov eax, edx; xor edx, edx; div ecx` -/
def divideBlock : List Instr := [.mov .w32 .rax .rdx, .xor .w32 .rdx .rdx, .div .w32 .rcx]

/-- The state in which the division of that block starts. -/
def divideStart (s : State) : State :=
  ((s.write .w32 .rax (s.read .w32 .rdx)).write .w32 .rdx 0).setFlags (logicFlags (0 : BitVec 32))

theorem exec_divideBlock_eq (s : State) :
    exec undefined divideBlock s = divide undefined .w32 .rcx (divideStart s) := by
  rw [divideBlock, exec_cons rfl, exec_cons rfl, exec_singleton, step, BitVec.xor_self]
  rfl

theorem divideStart_read :
    ((divideStart s).read .w32 .rdx).toNat * 2 ^ Width.w32.bits +
        ((divideStart s).read .w32 .rax).toNat = (s.read .w32 .rdx).toNat ∧
      (divideStart s).read .w32 .rcx = s.read .w32 .rcx := by
  simp [divideStart, State.read_write_of_ne]

theorem exec_divideBlock_zero (h : s.read .w32 .rcx = 0) :
    exec undefined divideBlock s = .error .divideError := by
  rw [exec_divideBlock_eq, divide, divideStart_read.2, h]
  rfl

/-- A block that begins with the division faults where the divisor is zero. -/
theorem run_divide_zero {bytes : List UInt8} {rest : List Instr}
    (hdecode : decodeBlock bytes = some (divideBlock ++ rest)) (h : s.read .w32 .rcx = 0) :
    run undefined bytes s = .error .divideError := by
  rw [run_eq_exec hdecode]
  exact exec_append_error (exec_divideBlock_zero undefined h) rest

theorem setWidth_ofNat_of_lt {value : Nat} (h : value < 2 ^ 32) :
    (BitVec.ofNat 32 value).setWidth 64 = BitVec.ofNat 64 value := by
  apply BitVec.eq_of_toNat_eq
  simp only [BitVec.toNat_setWidth, BitVec.toNat_ofNat]
  omega

theorem setWidth_setWidth_ofNat_of_lt {value : Nat} (h : value < 2 ^ 32) :
    ((BitVec.ofNat 64 value).setWidth 32).setWidth 64 = BitVec.ofNat 64 value := by
  apply BitVec.eq_of_toNat_eq
  simp only [BitVec.toNat_setWidth, BitVec.toNat_ofNat]
  omega

/-- The division takes the lower halves of `rdx` and `rcx` and cannot overflow. -/
theorem exec_divideBlock (h : s.read .w32 .rcx ≠ 0) :
    ∃ t, exec undefined divideBlock s = .ok t ∧
      t.regs .rax = BitVec.ofNat 64 ((s.read .w32 .rdx).toNat / (s.read .w32 .rcx).toNat) ∧
      t.regs .rdx = BitVec.ofNat 64 ((s.read .w32 .rdx).toNat % (s.read .w32 .rcx).toNat) ∧
      ∀ r, r ∉ [Reg.rax, .rdx] → t.regs r = s.regs r := by
  have hquotient : (s.read .w32 .rdx).toNat / (s.read .w32 .rcx).toNat < 2 ^ 32 :=
    Nat.lt_of_le_of_lt (Nat.div_le_self _ _) (s.read .w32 .rdx).isLt
  have hremainder : (s.read .w32 .rdx).toNat % (s.read .w32 .rcx).toNat < 2 ^ 32 :=
    Nat.lt_of_le_of_lt (Nat.mod_le _ _) (s.read .w32 .rdx).isLt
  have hrun := exec_divideBlock_eq undefined s
  rw [divide, divideStart_read.1, divideStart_read.2, if_neg] at hrun
  · refine ⟨_, hrun, ?_, ?_, ?_⟩
    · simp [merge, setWidth_ofNat_of_lt hquotient]
    · simp [merge, setWidth_ofNat_of_lt hremainder]
    · intro r hr
      simp only [List.mem_cons, List.not_mem_nil, or_false, not_or] at hr
      simp [hr, divideStart]
  · rintro (hzero | hbig)
    · exact h (BitVec.eq_of_toNat_eq hzero)
    · exact absurd hquotient (Nat.not_lt.mpr hbig)

/-- The block, and its quotient moved on from `eax`. -/
theorem exec_divideBlock_mov (h : s.read .w32 .rcx ≠ 0) (dst : Reg) (hdst : dst ≠ .rax)
    (nops : Nat) :
    ∃ t, exec undefined (divideBlock ++ .mov .w32 dst .rax :: List.replicate nops .nop) s =
        .ok t ∧
      t.regs .rax = BitVec.ofNat 64 ((s.read .w32 .rdx).toNat / (s.read .w32 .rcx).toNat) ∧
      t.regs dst = BitVec.ofNat 64 ((s.read .w32 .rdx).toNat / (s.read .w32 .rcx).toNat) ∧
      (dst ≠ .rdx →
        t.regs .rdx = BitVec.ofNat 64 ((s.read .w32 .rdx).toNat % (s.read .w32 .rcx).toNat)) ∧
      ∀ r, r ∉ [Reg.rax, .rdx, dst] → t.regs r = s.regs r := by
  have hquotient : (s.read .w32 .rdx).toNat / (s.read .w32 .rcx).toNat < 2 ^ 32 :=
    Nat.lt_of_le_of_lt (Nat.div_le_self _ _) (s.read .w32 .rdx).isLt
  obtain ⟨t, hrun, hrax, hrdx, hframe⟩ := exec_divideBlock undefined h
  refine ⟨t.write .w32 dst (t.read .w32 .rax), ?_, ?_, ?_, ?_, ?_⟩
  · rw [exec_append hrun, exec_cons rfl, exec_nops]
  · simp [Ne.symm hdst, hrax]
  · rw [State.write_regs, if_pos rfl]
    simpa only [merge, State.read, hrax] using setWidth_setWidth_ofNat_of_lt hquotient
  · intro hne
    simp [Ne.symm hne, hrdx]
  · intro r hr
    simp only [List.mem_cons, List.not_mem_nil, or_false, not_or] at hr
    simp [hr, hframe]

end Division

section Reciprocal

variable (undefined : Undefined) (s : State)

/-- The upper half of a product. -/
def highHalf (left right : BitVec 64) : BitVec 64 :=
  BitVec.ofNat 64 (left.toNat * right.toNat / 2 ^ 64)

theorem toNat_highHalf_le (left right : BitVec 64) :
    (highHalf left right).toNat ≤ left.toNat ∧ (highHalf left right).toNat ≤ right.toNat := by
  have hle : (highHalf left right).toNat ≤ left.toNat * right.toNat / 2 ^ 64 := by
    rw [highHalf, BitVec.toNat_ofNat]
    exact Nat.mod_le _ _
  refine ⟨Nat.le_trans hle (Nat.div_le_of_le_mul ?_),
    Nat.le_trans hle (Nat.div_le_of_le_mul ?_)⟩
  · rw [Nat.mul_comm]
    exact Nat.mul_le_mul_right _ (Nat.le_of_lt right.isLt)
  · exact Nat.mul_le_mul_right _ (Nat.le_of_lt left.isLt)

/-- A quarter of the upper half is smaller than either factor. -/
theorem eq_zero_of_highHalf {left right : BitVec 64} (h : highHalf left right >>> 2 = left) :
    left = 0 := by
  have hvalue := congrArg BitVec.toNat h
  rw [BitVec.toNat_ushiftRight, Nat.shiftRight_eq_div_pow] at hvalue
  have hle := (toNat_highHalf_le left right).1
  apply BitVec.eq_of_toNat_eq
  change left.toNat = 0
  omega

theorem eq_zero_of_highHalf_low {left right : BitVec 64}
    (h : ((highHalf left right).setWidth 32 >>> 2).setWidth 64 = right) : right = 0 := by
  have hvalue := congrArg BitVec.toNat h
  simp only [BitVec.toNat_ushiftRight, BitVec.toNat_setWidth, Nat.shiftRight_eq_div_pow]
    at hvalue
  have hle := (toNat_highHalf_le left right).2
  apply BitVec.eq_of_toNat_eq
  change right.toNat = 0
  omega

/-- `mulx rdx, rdx, rcx; shr rdx, 2` -/
theorem exec_mulx_rdx :
    ∃ t, exec undefined [.mulx .w64 .rdx .rdx .rcx, .shrImm .w64 .rdx 2] s = .ok t ∧
      t.regs .rdx = highHalf (s.regs .rdx) (s.regs .rcx) >>> 2 := by
  refine ⟨_, rfl, ?_⟩
  simp only [shiftRight, State.read, merge, highHalf, State.setFlags_regs, State.write_regs,
    if_true, BitVec.setWidth_eq]

/-- `mulx rcx, rcx, rcx; shr ecx, 2` -/
theorem exec_mulx_rcx :
    ∃ t, exec undefined [.mulx .w64 .rcx .rcx .rcx, .shrImm .w32 .rcx 2] s = .ok t ∧
      t.regs .rcx = ((highHalf (s.regs .rdx) (s.regs .rcx)).setWidth 32 >>> 2).setWidth 64 := by
  refine ⟨_, rfl, ?_⟩
  simp only [shiftRight, State.read, merge, highHalf, State.write_regs, if_true,
    BitVec.setWidth_eq]
  rfl

/-- `25 * reciprocal` is `2^66 + 11`, and the error stays below one for every
doubleword. -/
theorem mul_reciprocal_div {value : Nat} (h : value < 2 ^ 32) :
    value * reciprocal.toNat / 2 ^ 64 / 4 = value / 25 := by
  have hreciprocal : reciprocal.toNat = 2951479051793528259 := rfl
  have hlower : value / 25 * 2 ^ 66 ≤ value * reciprocal.toNat := by
    rw [hreciprocal]
    omega
  have hupper : value * reciprocal.toNat < (value / 25 + 1) * 2 ^ 66 := by
    rw [hreciprocal]
    omega
  rw [Nat.div_div_eq_div_mul]
  exact Nat.div_eq_of_lt_le hlower hupper

theorem toNat_highHalf_reciprocal (value : BitVec 64) :
    (highHalf value reciprocal).toNat = value.toNat * reciprocal.toNat / 2 ^ 64 := by
  have hreciprocal : reciprocal.toNat = 2951479051793528259 := rfl
  have hvalue := value.isLt
  rw [highHalf, BitVec.toNat_ofNat, hreciprocal]
  omega

/-- Multiplying by the reciprocal divides every doubleword by 25. -/
theorem highHalf_reciprocal {value : BitVec 64} (h : value.toNat < 2 ^ 32) :
    highHalf value reciprocal >>> 2 = BitVec.ofNat 64 (value.toNat / 25) := by
  apply BitVec.eq_of_toNat_eq
  rw [BitVec.toNat_ushiftRight, Nat.shiftRight_eq_div_pow, toNat_highHalf_reciprocal,
    mul_reciprocal_div h, BitVec.toNat_ofNat]
  omega

/-- The shift of the lower half gives the same. -/
theorem highHalf_reciprocal_low {value : BitVec 64} (h : value.toNat < 2 ^ 32) :
    ((highHalf value reciprocal).setWidth 32 >>> 2).setWidth 64 =
      BitVec.ofNat 64 (value.toNat / 25) := by
  have hlow : (highHalf value reciprocal).toNat < 2 ^ 32 := by
    have hquotient := mul_reciprocal_div h
    rw [toNat_highHalf_reciprocal]
    omega
  rw [← highHalf_reciprocal h]
  apply BitVec.eq_of_toNat_eq
  simp only [BitVec.toNat_ushiftRight, BitVec.toNat_setWidth, Nat.shiftRight_eq_div_pow]
  omega

end Reciprocal

section Bronze

variable (undefined : Undefined) (s : State)

theorem run_bronzeHotfix1_expected :
    ∃ t, run undefined bronzeHotfix1.expected s = .ok t ∧
      t.regs .rdx = highHalf (s.regs .rdx) reciprocal >>> 2 ∧ t.regs .rcx = reciprocal := by
  obtain ⟨t, hrun, hrdx⟩ := exec_mulx_rdx undefined (s.write .w64 .rcx reciprocal)
  refine ⟨t, ?_, ?_, ?_⟩
  · rw [run_eq_exec decode_bronzeHotfix1_expected, exec_cons rfl]
    exact hrun
  · simpa [merge] using hrdx
  · have hframe := exec_frame (r := .rcx) (by decide) hrun
    simpa [merge] using hframe

theorem run_bronzeHotfix1_replacement :
    ∃ t, run undefined bronzeHotfix1.replacement s = .ok t ∧
      t.regs .rax = BitVec.ofNat 64 ((s.read .w32 .rdx).toNat / 25) ∧
      t.regs .rdx = BitVec.ofNat 64 ((s.read .w32 .rdx).toNat / 25) ∧ t.regs .rcx = 25 ∧
      ∀ r, r ∉ [Reg.rax, .rdx, .rcx] → t.regs r = s.regs r := by
  let start := s.write .w32 .rcx (25 : BitVec 32)
  have hrcx : start.read .w32 .rcx = (25 : BitVec 32) := State.read_write ..
  have hrdx : start.read .w32 .rdx = s.read .w32 .rdx := State.read_write_of_ne s (by decide) ..
  obtain ⟨t, hrun, hrax, hdst, -, hframe⟩ :=
    exec_divideBlock_mov undefined (s := start) (by rw [hrcx]; decide) .rdx (by decide) 6
  rw [hrcx, hrdx] at hrax hdst
  refine ⟨t, ?_, hrax, hdst, ?_, ?_⟩
  · rw [run_eq_exec decode_bronzeHotfix1_replacement, exec_cons rfl]
    exact hrun
  · rw [hframe .rcx (by decide)]
    rfl
  · intro r hr
    simp only [List.mem_cons, List.not_mem_nil, or_false, not_or] at hr
    rw [hframe r (by simp [hr])]
    simp [start, hr]

theorem run_bronzeHotfix2_expected :
    ∃ t, run undefined bronzeHotfix2.expected s = .ok t ∧
      t.regs .rdx = highHalf (s.regs .rdx) (s.regs .rcx) >>> 2 := by
  rw [run_eq_exec decode_bronzeHotfix2_expected]
  exact exec_mulx_rdx undefined s

theorem run_bronzeHotfix2_replacement (h : s.read .w32 .rcx ≠ 0) :
    ∃ t, run undefined bronzeHotfix2.replacement s = .ok t ∧
      t.regs .rax = BitVec.ofNat 64 ((s.read .w32 .rdx).toNat / (s.read .w32 .rcx).toNat) ∧
      t.regs .rdx = BitVec.ofNat 64 ((s.read .w32 .rdx).toNat / (s.read .w32 .rcx).toNat) ∧
      ∀ r, r ∉ [Reg.rax, .rdx] → t.regs r = s.regs r := by
  obtain ⟨t, hrun, hrax, hdst, -, hframe⟩ :=
    exec_divideBlock_mov undefined h .rdx (by decide) 1
  refine ⟨t, ?_, hrax, hdst, fun r hr => hframe r (by simpa using hr)⟩
  rw [run_eq_exec decode_bronzeHotfix2_replacement]
  exact hrun

theorem run_bronzeHotfix3_expected :
    ∃ t, run undefined bronzeHotfix3.expected s = .ok t ∧
      t.regs .rcx = ((highHalf (s.regs .rdx) (s.regs .rcx)).setWidth 32 >>> 2).setWidth 64 := by
  rw [run_eq_exec decode_bronzeHotfix3_expected]
  exact exec_mulx_rcx undefined s

theorem run_bronzeHotfix3_replacement (h : s.read .w32 .rcx ≠ 0) :
    ∃ t, run undefined bronzeHotfix3.replacement s = .ok t ∧
      t.regs .rax = BitVec.ofNat 64 ((s.read .w32 .rdx).toNat / (s.read .w32 .rcx).toNat) ∧
      t.regs .rcx = BitVec.ofNat 64 ((s.read .w32 .rdx).toNat / (s.read .w32 .rcx).toNat) ∧
      t.regs .rdx = BitVec.ofNat 64 ((s.read .w32 .rdx).toNat % (s.read .w32 .rcx).toNat) ∧
      ∀ r, r ∉ [Reg.rax, .rdx, .rcx] → t.regs r = s.regs r := by
  obtain ⟨t, hrun, hrax, hdst, hrdx, hframe⟩ :=
    exec_divideBlock_mov undefined h .rcx (by decide) 0
  refine ⟨t, ?_, hrax, hdst, hrdx (by decide), hframe⟩
  rw [run_eq_exec decode_bronzeHotfix3_replacement]
  exact hrun

/-- A register below `2^32` is its lower half. -/
theorem toNat_read_of_lt {r : Reg} (h : (s.regs r).toNat < 2 ^ 32) :
    (s.read .w32 r).toNat = (s.regs r).toNat := by
  rw [State.read, BitVec.toNat_setWidth]
  exact Nat.mod_eq_of_lt h

theorem toNat_quotient {value : Nat} (h : value < 2 ^ 32) :
    (BitVec.ofNat 64 (value / 25)).toNat = value / 25 := by
  rw [BitVec.toNat_ofNat]
  omega

section Sites

variable {v v' : State} (hrcx : v.regs .rcx = reciprocal) (hrcx' : v'.regs .rcx = 25)
variable (hrdx : v'.regs .rdx = v.regs .rdx) (hv : (v.regs .rdx).toNat < 2 ^ 32)

include hrcx' in
theorem read_divisor : v'.read .w32 .rcx = (25 : BitVec 32) := by
  rw [State.read, hrcx']
  rfl

include hrdx hv in
theorem toNat_dividend : (v'.read .w32 .rdx).toNat = (v.regs .rdx).toNat := by
  rw [toNat_read_of_lt v' (hrdx ▸ hv), hrdx]

include hrcx hrcx' hrdx hv

theorem bronzeHotfix2_keeps_quotient :
    ∃ w w', run undefined bronzeHotfix2.expected v = .ok w ∧
      run undefined bronzeHotfix2.replacement v' = .ok w' ∧
      w'.regs .rdx = w.regs .rdx ∧ (w.regs .rdx).toNat = (v.regs .rdx).toNat / 25 := by
  have hdivisor := read_divisor hrcx'
  obtain ⟨w, hw, hquotient⟩ := run_bronzeHotfix2_expected undefined v
  obtain ⟨w', hw', -, hquotient', -⟩ :=
    run_bronzeHotfix2_replacement undefined v' (by rw [hdivisor]; decide)
  rw [hrcx, highHalf_reciprocal hv] at hquotient
  rw [toNat_dividend hrdx hv, hdivisor] at hquotient'
  exact ⟨w, w', hw, hw', hquotient'.trans hquotient.symm, by rw [hquotient, toNat_quotient hv]⟩

theorem bronzeHotfix3_keeps_quotient :
    ∃ w w', run undefined bronzeHotfix3.expected v = .ok w ∧
      run undefined bronzeHotfix3.replacement v' = .ok w' ∧
      w'.regs .rcx = w.regs .rcx ∧ (w.regs .rcx).toNat = (v.regs .rdx).toNat / 25 := by
  have hdivisor := read_divisor hrcx'
  obtain ⟨w, hw, hquotient⟩ := run_bronzeHotfix3_expected undefined v
  obtain ⟨w', hw', -, hquotient', -, -⟩ :=
    run_bronzeHotfix3_replacement undefined v' (by rw [hdivisor]; decide)
  rw [hrcx, highHalf_reciprocal_low hv] at hquotient
  rw [toNat_dividend hrdx hv, hdivisor] at hquotient'
  exact ⟨w, w', hw, hw', hquotient'.trans hquotient.symm, by rw [hquotient, toNat_quotient hv]⟩

end Sites

/-- The replacements compute the quotients of the code they replace, and no division
of theirs faults.  At the second and the third site, `rcx` is what the two versions of
the first one left there. -/
theorem bronze_hotfixes_keep_quotient (h : (s.regs .rdx).toNat < 2 ^ 32) :
    ∃ t t', run undefined bronzeHotfix1.expected s = .ok t ∧
      run undefined bronzeHotfix1.replacement s = .ok t' ∧
      t'.regs .rdx = t.regs .rdx ∧ (t.regs .rdx).toNat = (s.regs .rdx).toNat / 25 ∧
      ∀ v v' : State, v.regs .rcx = t.regs .rcx → v'.regs .rcx = t'.regs .rcx →
        v'.regs .rdx = v.regs .rdx → (v.regs .rdx).toNat < 2 ^ 32 →
        (∃ w w', run undefined bronzeHotfix2.expected v = .ok w ∧
          run undefined bronzeHotfix2.replacement v' = .ok w' ∧
          w'.regs .rdx = w.regs .rdx ∧ (w.regs .rdx).toNat = (v.regs .rdx).toNat / 25) ∧
        ∃ w w', run undefined bronzeHotfix3.expected v = .ok w ∧
          run undefined bronzeHotfix3.replacement v' = .ok w' ∧
          w'.regs .rcx = w.regs .rcx ∧ (w.regs .rcx).toNat = (v.regs .rdx).toNat / 25 := by
  obtain ⟨t, hrun, hrdx, hrcx⟩ := run_bronzeHotfix1_expected undefined s
  obtain ⟨t', hrun', -, hrdx', hrcx', -⟩ := run_bronzeHotfix1_replacement undefined s
  rw [highHalf_reciprocal h] at hrdx
  rw [toNat_read_of_lt s h] at hrdx'
  refine ⟨t, t', hrun, hrun', hrdx'.trans hrdx.symm, by rw [hrdx, toNat_quotient h], ?_⟩
  intro v v' hvrcx hvrcx' hvrdx hv
  rw [hrcx] at hvrcx
  rw [hrcx'] at hvrcx'
  exact ⟨bronzeHotfix2_keeps_quotient undefined hvrcx hvrcx' hvrdx hv,
    bronzeHotfix3_keeps_quotient undefined hvrcx hvrcx' hvrdx hv⟩

/-- All registers hold one value. -/
def uniformState (value : BitVec 64) : State :=
  ⟨fun _ => value, ⟨false, false, false, false, false⟩⟩

theorem million_divided :
    ∃ t t', run (fun _ s => s.flags) bronzeHotfix1.expected (uniformState 1000000) = .ok t ∧
      run (fun _ s => s.flags) bronzeHotfix1.replacement (uniformState 1000000) = .ok t' ∧
      t'.regs .rdx = t.regs .rdx ∧ (t.regs .rdx).toNat = 40000 := by
  obtain ⟨t, t', hrun, hrun', hrdx, hquotient, -⟩ :=
    bronze_hotfixes_keep_quotient (fun _ s => s.flags) (uniformState 1000000) (by decide)
  exact ⟨t, t', hrun, hrun', hrdx, hquotient⟩

end Bronze

section Amdil

variable (undefined : Undefined) (s : State)

def isBelowThree (value : BitVec 64) : Bool := value.toNat < 3

/-- More than one bit is set. -/
def hasTwoBits (value : BitVec 64) : Bool := value &&& (value - 1) ≠ 0

/-- Both versions start with `cmp r14, 3`. -/
theorem step_cmp : ∃ t, step undefined (.cmpImm .w64 .r14 3) s = .ok t ∧
    t.regs = s.regs ∧ t.flags.carry = isBelowThree (s.regs .r14) := by
  refine ⟨_, rfl, rfl, ?_⟩
  rw [State.setFlags_flags, State.read_quad]
  rfl

/-- `blsr rcx, r14; setne cl` -/
theorem exec_blsr_set :
    ∃ t, exec undefined [.blsr .w64 .rcx .r14, .set .notEqual .rcx] s = .ok t ∧
      t.regs .rcx = merge (s.regs .r14 &&& (s.regs .r14 - 1)) .w8
        (bit (hasTwoBits (s.regs .r14))) := by
  refine ⟨_, rfl, ?_⟩
  rw [State.write_regs, if_pos rfl, State.setFlags_flags, State.read_quad]
  simp [Condition.holds, resultFlags, hasTwoBits, merge]

/-- `lea rcx, [r14 - 1]; test rcx, r14; setne cl` -/
theorem exec_test_set :
    ∃ t, exec undefined [.lea .w64 .rcx .r14 (-1), .test .w64 .rcx .r14, .set .notEqual .rcx] s =
        .ok t ∧
      t.regs .rcx = merge (s.regs .r14 - 1) .w8 (bit (hasTwoBits (s.regs .r14))) := by
  refine ⟨_, rfl, ?_⟩
  rw [State.write_regs, if_pos rfl, State.setFlags_flags, State.read_write,
    State.read_write_of_ne _ (by decide), State.read_quad, BitVec.setWidth_eq, BitVec.and_comm,
    ← BitVec.sub_eq_add_neg]
  simp [Condition.holds, logicFlags, resultFlags, hasTwoBits, merge]

/-- `sbb eax, eax; neg eax` -/
theorem exec_sbb_neg :
    ∃ t, exec undefined [.sbb .w32 .rax .rax, .neg .w32 .rax] s = .ok t ∧
      t.regs .rax = (bit s.flags.carry).setWidth 64 := by
  refine ⟨_, rfl, ?_⟩
  simp only [State.setFlags_regs, State.write_regs, if_true, State.setFlags_read,
    State.read_write, BitVec.sub_self]
  cases s.flags.carry <;> rfl

/-- The byte that both versions compute. -/
def amdilByte (value : BitVec 64) : BitVec 8 := bit (hasTwoBits value) ||| bit (isBelowThree value)

/-- The second of two byte writes remains. -/
theorem merge_merge_byte (old : BitVec 64) (first second : BitVec 8) :
    merge (merge old .w8 first) .w8 second = merge old .w8 second := by
  apply BitVec.eq_of_getLsbD_eq
  intro i hi
  simp only [merge, BitVec.getLsbD_append, BitVec.getLsbD_extractLsb']
  split
  · rfl
  · have hhigh : ¬ 8 + (i - 8) < 8 := by omega
    simp [hhigh]

theorem run_amdilHotfix_expected :
    ∃ t, run undefined amdilHotfix.expected s = .ok t ∧
      t.regs .rax = (amdilByte (s.regs .r14)).setWidth 64 ∧
      t.regs .rcx = merge (s.regs .r14 &&& (s.regs .r14 - 1)) .w8 (amdilByte (s.regs .r14)) ∧
      t.flags = logicFlags (amdilByte (s.regs .r14)) := by
  obtain ⟨compared, hcompared, hregs, hcarry⟩ := step_cmp undefined s
  let below := compared.write .w8 .rax (bit compared.flags.carry)
  obtain ⟨t, ht, hrcx⟩ := exec_blsr_set undefined below
  have hr14 : below.regs .r14 = s.regs .r14 := by
    simp [below, hregs]
  have hrax : t.read .w8 .rax = bit (isBelowThree (s.regs .r14)) := by
    rw [State.read, exec_frame (r := .rax) (by decide) ht, ← hcarry]
    exact State.read_write ..
  rw [hr14] at hrcx
  have hcl : t.read .w8 .rcx = bit (hasTwoBits (s.regs .r14)) := State.read_of_merge t hrcx
  have hbyte : t.read .w8 .rcx ||| t.read .w8 .rax = amdilByte (s.regs .r14) := by
    rw [hcl, hrax, amdilByte]
  refine ⟨((t.write .w8 .rcx (amdilByte (s.regs .r14))).setFlags
    (logicFlags (amdilByte (s.regs .r14)))).write .w32 .rax
      ((amdilByte (s.regs .r14)).setWidth 32), ?_, ?_, ?_, rfl⟩
  · rw [run_eq_exec decode_amdilHotfix_expected, exec_cons hcompared, exec_cons rfl]
    refine (exec_append ht _).trans ?_
    simp only [exec, step]
    rw [hbyte, State.setFlags_read, State.read_write]
  · rw [State.write_regs, if_pos rfl]
    exact BitVec.setWidth_setWidth (by decide)
  · rw [State.write_regs, if_neg (by decide), State.setFlags_regs, State.write_regs, if_pos rfl,
      hrcx]
    exact merge_merge_byte ..

theorem run_amdilHotfix_replacement :
    ∃ t, run undefined amdilHotfix.replacement s = .ok t ∧
      t.regs .rax = (amdilByte (s.regs .r14)).setWidth 64 ∧
      t.regs .rcx = merge (s.regs .r14 - 1) .w8 (bit (hasTwoBits (s.regs .r14))) ∧
      t.flags = logicFlags (amdilByte (s.regs .r14)) := by
  obtain ⟨compared, hcompared, hregs, hcarry⟩ := step_cmp undefined s
  obtain ⟨below, hbelow, hrax⟩ := exec_sbb_neg undefined compared
  obtain ⟨t, ht, hrcx⟩ := exec_test_set undefined below
  have hr14 : below.regs .r14 = s.regs .r14 := by
    rw [exec_frame (r := .r14) (by decide) hbelow, hregs]
  have htrax : t.regs .rax = (bit (isBelowThree (s.regs .r14))).setWidth 64 := by
    rw [exec_frame (r := .rax) (by decide) ht, hrax, hcarry]
  rw [hr14] at hrcx
  have hcl : t.read .w8 .rcx = bit (hasTwoBits (s.regs .r14)) := State.read_of_merge t hrcx
  have hbyte : t.read .w8 .rax ||| t.read .w8 .rcx = amdilByte (s.regs .r14) := by
    rw [hcl, State.read, htrax, BitVec.or_comm, amdilByte]
    congr 1
    exact BitVec.setWidth_setWidth_of_le _ (by decide)
  refine ⟨(t.write .w8 .rax (amdilByte (s.regs .r14))).setFlags
    (logicFlags (amdilByte (s.regs .r14))), ?_, ?_, ?_, rfl⟩
  · rw [run_eq_exec decode_amdilHotfix_replacement, exec_cons hcompared]
    refine (exec_append hbelow _).trans ((exec_append ht _).trans ?_)
    simp only [exec, step]
    rw [hbyte]
  · rw [State.setFlags_regs, State.write_regs, if_pos rfl, htrax, amdilByte]
    cases hasTwoBits (s.regs .r14) <;> cases isBelowThree (s.regs .r14) <;> rfl
  · rw [State.setFlags_regs, State.write_regs, if_neg (by decide), hrcx]

/-- The replacement leaves the same `rax` and the same flags behind, and takes as many
bytes. -/
theorem amdil_hotfix_equivalent :
    amdilHotfix.replacement.length = amdilHotfix.expected.length ∧
      ∃ t t', run undefined amdilHotfix.expected s = .ok t ∧
        run undefined amdilHotfix.replacement s = .ok t' ∧
        t'.regs .rax = t.regs .rax ∧ t'.flags = t.flags := by
  obtain ⟨t, hrun, hrax, -, hflags⟩ := run_amdilHotfix_expected undefined s
  obtain ⟨t', hrun', hrax', -, hflags'⟩ := run_amdilHotfix_replacement undefined s
  exact ⟨by decide +kernel, t, t', hrun, hrun', hrax'.trans hrax.symm,
    hflags'.trans hflags.symm⟩

end Amdil

section Survivors

/-- A register that a block leaves alone, whatever state it starts in. -/
def Survives (bytes : List UInt8) (r : Reg) : Prop :=
  ∀ undefined s t, run undefined bytes s = .ok t → t.regs r = s.regs r

/-- From this state, what survives the replaced code survives the replacement. -/
def KeepsSurvivors (undefined : Undefined) (hotfix : Hotfix) (s : State) : Prop :=
  ∀ r, Survives hotfix.expected r →
    ∃ t, run undefined hotfix.replacement s = .ok t ∧ t.regs r = s.regs r

theorem survives_of_not_written {bytes : List UInt8} {instrs : List Instr} {r : Reg}
    (hdecode : decodeBlock bytes = some instrs) (hr : r ∉ instrs.flatMap Instr.writes) :
    Survives bytes r := by
  intro undefined s t hrun
  rw [run_eq_exec hdecode] at hrun
  exact exec_frame hr hrun

variable {undefined : Undefined} {s : State}

theorem bronzeHotfix1_clobbers {r : Reg} (hr : Survives bronzeHotfix1.expected r) :
    r ∉ [Reg.rdx, .rcx] := by
  obtain ⟨t, hrun, hrdx, hrcx⟩ :=
    run_bronzeHotfix1_expected (fun _ s => s.flags) (uniformState 1)
  intro hmem
  have hsame := hr _ _ t hrun
  simp only [List.mem_cons, List.not_mem_nil, or_false] at hmem
  rcases hmem with rfl | rfl
  · rw [hrdx] at hsame
    exact absurd hsame (by decide)
  · rw [hrcx] at hsame
    exact absurd hsame (by decide)

theorem bronzeHotfix2_clobbers {r : Reg} (hr : Survives bronzeHotfix2.expected r) :
    r ≠ .rdx := by
  obtain ⟨t, hrun, hrdx⟩ := run_bronzeHotfix2_expected (fun _ s => s.flags) (uniformState 1)
  rintro rfl
  have hsame := hr _ _ t hrun
  rw [hrdx] at hsame
  exact absurd hsame (by decide)

theorem bronzeHotfix3_clobbers {r : Reg} (hr : Survives bronzeHotfix3.expected r) :
    r ≠ .rcx := by
  obtain ⟨t, hrun, hrcx⟩ := run_bronzeHotfix3_expected (fun _ s => s.flags) (uniformState 1)
  rintro rfl
  have hsame := hr _ _ t hrun
  rw [hrcx] at hsame
  exact absurd hsame (by decide)

theorem amdilHotfix_clobbers {r : Reg} (hr : Survives amdilHotfix.expected r) :
    r ∉ [Reg.rax, .rcx] := by
  have hsame := hr (fun _ s => s.flags) (uniformState 5) _
    (run_eq_exec decode_amdilHotfix_expected _)
  intro hmem
  simp only [List.mem_cons, List.not_mem_nil, or_false] at hmem
  rcases hmem with rfl | rfl
  · exact absurd hsame (by decide)
  · exact absurd hsame (by decide)

theorem keepsSurvivors_iff {hotfix : Hotfix} {t : State}
    (hrun : run undefined hotfix.replacement s = .ok t) :
    KeepsSurvivors undefined hotfix s ↔
      ∀ r, Survives hotfix.expected r → t.regs r = s.regs r := by
  constructor
  · intro hkeeps r hr
    obtain ⟨u, hu, hsame⟩ := hkeeps r hr
    obtain rfl : t = u := Except.ok.inj (hrun.symm.trans hu)
    exact hsame
  · exact fun hsame r hr => ⟨t, hrun, hsame r hr⟩

theorem not_keepsSurvivors {hotfix : Hotfix} {fault : Fault} {r : Reg}
    (hr : Survives hotfix.expected r)
    (hrun : run undefined hotfix.replacement s = .error fault) :
    ¬ KeepsSurvivors undefined hotfix s := by
  intro hkeeps
  obtain ⟨t, ht, -⟩ := hkeeps r hr
  rw [hrun] at ht
  cases ht

variable (undefined s)

theorem bronzeHotfix1_keepsSurvivors_iff :
    KeepsSurvivors undefined bronzeHotfix1 s ↔
      s.regs .rax = BitVec.ofNat 64 ((s.read .w32 .rdx).toNat / 25) := by
  obtain ⟨t, hrun, hrax, -, -, hframe⟩ := run_bronzeHotfix1_replacement undefined s
  rw [keepsSurvivors_iff hrun]
  constructor
  · intro hkeeps
    rw [← hkeeps .rax (survives_of_not_written decode_bronzeHotfix1_expected (by decide)), hrax]
  · intro hquotient r hr
    have hclobbers := bronzeHotfix1_clobbers hr
    by_cases hne : r = .rax
    · rw [hne, hrax, hquotient]
    · exact hframe r (by simpa [hne] using hclobbers)

theorem bronzeHotfix2_keepsSurvivors_iff :
    KeepsSurvivors undefined bronzeHotfix2 s ↔
      s.read .w32 .rcx ≠ 0 ∧
        s.regs .rax = BitVec.ofNat 64 ((s.read .w32 .rdx).toNat / (s.read .w32 .rcx).toNat) := by
  have hsurvives : Survives bronzeHotfix2.expected .rax :=
    survives_of_not_written decode_bronzeHotfix2_expected (by decide)
  by_cases hzero : s.read .w32 .rcx = 0
  · have hfault : run undefined bronzeHotfix2.replacement s = .error .divideError :=
      run_divide_zero undefined decode_bronzeHotfix2_replacement hzero
    exact iff_of_false (not_keepsSurvivors hsurvives hfault) fun h => h.1 hzero
  · obtain ⟨t, hrun, hrax, -, hframe⟩ := run_bronzeHotfix2_replacement undefined s hzero
    rw [keepsSurvivors_iff hrun]
    constructor
    · intro hkeeps
      exact ⟨hzero, by rw [← hkeeps .rax hsurvives, hrax]⟩
    · rintro ⟨-, hquotient⟩ r hr
      have hclobbers := bronzeHotfix2_clobbers hr
      by_cases hne : r = .rax
      · rw [hne, hrax, hquotient]
      · exact hframe r (by simp [hne, hclobbers])

theorem bronzeHotfix3_keepsSurvivors_iff :
    KeepsSurvivors undefined bronzeHotfix3 s ↔
      s.read .w32 .rcx ≠ 0 ∧
        s.regs .rax = BitVec.ofNat 64 ((s.read .w32 .rdx).toNat / (s.read .w32 .rcx).toNat) ∧
        s.regs .rdx = BitVec.ofNat 64 ((s.read .w32 .rdx).toNat % (s.read .w32 .rcx).toNat) := by
  have hsurvives : ∀ r, r ≠ .rcx → Survives bronzeHotfix3.expected r := by
    intro r hr
    exact survives_of_not_written decode_bronzeHotfix3_expected (by simp [Instr.writes, hr])
  by_cases hzero : s.read .w32 .rcx = 0
  · have hfault : run undefined bronzeHotfix3.replacement s = .error .divideError :=
      run_divide_zero undefined decode_bronzeHotfix3_replacement hzero
    exact iff_of_false (not_keepsSurvivors (hsurvives .rax (by decide)) hfault)
      fun h => h.1 hzero
  · obtain ⟨t, hrun, hrax, -, hrdx, hframe⟩ := run_bronzeHotfix3_replacement undefined s hzero
    rw [keepsSurvivors_iff hrun]
    constructor
    · intro hkeeps
      exact ⟨hzero, by rw [← hkeeps .rax (hsurvives .rax (by decide)), hrax],
        by rw [← hkeeps .rdx (hsurvives .rdx (by decide)), hrdx]⟩
    · rintro ⟨-, hquotient, hremainder⟩ r hr
      have hclobbers := bronzeHotfix3_clobbers hr
      by_cases hne : r = .rax
      · rw [hne, hrax, hquotient]
      · by_cases hne' : r = .rdx
        · rw [hne', hrdx, hremainder]
        · exact hframe r (by simp [hne, hne', hclobbers])

theorem amdilHotfix_keepsSurvivors : KeepsSurvivors undefined amdilHotfix s := by
  obtain ⟨t, hrun, -, -, -⟩ := run_amdilHotfix_replacement undefined s
  rw [keepsSurvivors_iff hrun]
  intro r hr
  have hne : r ≠ .rax ∧ r ≠ .rcx := by
    simpa using amdilHotfix_clobbers hr
  rw [run_eq_exec decode_amdilHotfix_replacement] at hrun
  exact exec_frame (by simp [Instr.writes, hne]) hrun

/-- From this state, what the replaced code leaves unchanged the replacement leaves unchanged,
even a register that gets the value it had. -/
def KeepsUnchanged (undefined : Undefined) (hotfix : Hotfix) (s : State) : Prop :=
  ∀ r t, run undefined hotfix.expected s = .ok t → t.regs r = s.regs r →
    ∃ t', run undefined hotfix.replacement s = .ok t' ∧ t'.regs r = s.regs r

variable {undefined s}

theorem keepsUnchanged_iff {hotfix : Hotfix} {t t' : State}
    (hrun : run undefined hotfix.expected s = .ok t)
    (hrun' : run undefined hotfix.replacement s = .ok t') :
    KeepsUnchanged undefined hotfix s ↔
      ∀ r, t.regs r = s.regs r → t'.regs r = s.regs r := by
  constructor
  · intro hkeeps r hr
    obtain ⟨u, hu, hsame⟩ := hkeeps r t hrun hr
    obtain rfl : t' = u := Except.ok.inj (hrun'.symm.trans hu)
    exact hsame
  · intro hsame r u hu hr
    obtain rfl : t = u := Except.ok.inj (hrun.symm.trans hu)
    exact ⟨t', hrun', hsame r hr⟩

theorem KeepsUnchanged.keepsSurvivors {hotfix : Hotfix} {t : State}
    (hrun : run undefined hotfix.expected s = .ok t) (h : KeepsUnchanged undefined hotfix s) :
    KeepsSurvivors undefined hotfix s :=
  fun r hr => h r t hrun (hr undefined s t hrun)

variable (undefined s)

/-- The constant of the division is another one. -/
theorem bronzeHotfix1_keepsUnchanged_iff :
    KeepsUnchanged undefined bronzeHotfix1 s ↔
      KeepsSurvivors undefined bronzeHotfix1 s ∧ s.regs .rcx ≠ reciprocal := by
  obtain ⟨t, hrun, hrdx, hrcx⟩ := run_bronzeHotfix1_expected undefined s
  obtain ⟨t', hrun', -, hrdx', hrcx', -⟩ := run_bronzeHotfix1_replacement undefined s
  constructor
  · intro hkeeps
    refine ⟨hkeeps.keepsSurvivors hrun, fun hsame => ?_⟩
    have hkept := (keepsUnchanged_iff hrun hrun').mp hkeeps .rcx (hrcx.trans hsame.symm)
    rw [hrcx', hsame] at hkept
    exact absurd hkept (by decide)
  · rintro ⟨hsurvivors, hne⟩
    rw [keepsUnchanged_iff hrun hrun']
    intro r hsame
    by_cases hr : r = .rdx
    · rw [hr, hrdx] at hsame
      have hzero := eq_zero_of_highHalf hsame
      rw [hr, hrdx', State.read, hzero]
      rfl
    · by_cases hr' : r = .rcx
      · rw [hr', hrcx] at hsame
        exact absurd hsame.symm hne
      · apply (keepsSurvivors_iff hrun').mp hsurvivors
        exact survives_of_not_written decode_bronzeHotfix1_expected
          (by simp [Instr.writes, hr, hr'])

theorem bronzeHotfix2_keepsUnchanged_iff :
    KeepsUnchanged undefined bronzeHotfix2 s ↔ KeepsSurvivors undefined bronzeHotfix2 s := by
  obtain ⟨t, hrun, hrdx⟩ := run_bronzeHotfix2_expected undefined s
  constructor
  · exact fun hkeeps => hkeeps.keepsSurvivors hrun
  · intro hsurvivors
    have hdivisor := ((bronzeHotfix2_keepsSurvivors_iff undefined s).mp hsurvivors).1
    obtain ⟨t', hrun', -, hrdx', -⟩ := run_bronzeHotfix2_replacement undefined s hdivisor
    rw [keepsUnchanged_iff hrun hrun']
    intro r hsame
    by_cases hr : r = .rdx
    · rw [hr, hrdx] at hsame
      have hzero := eq_zero_of_highHalf hsame
      have hread : s.read .w32 .rdx = 0 := by
        rw [State.read, hzero]
        rfl
      rw [hr, hrdx', hread, hzero]
      simp
    · apply (keepsSurvivors_iff hrun').mp hsurvivors
      exact survives_of_not_written decode_bronzeHotfix2_expected (by simp [Instr.writes, hr])

theorem bronzeHotfix3_keepsUnchanged_iff :
    KeepsUnchanged undefined bronzeHotfix3 s ↔ KeepsSurvivors undefined bronzeHotfix3 s := by
  obtain ⟨t, hrun, hrcx⟩ := run_bronzeHotfix3_expected undefined s
  constructor
  · exact fun hkeeps => hkeeps.keepsSurvivors hrun
  · intro hsurvivors
    have hdivisor := ((bronzeHotfix3_keepsSurvivors_iff undefined s).mp hsurvivors).1
    obtain ⟨t', hrun', -⟩ := run_bronzeHotfix3_replacement undefined s hdivisor
    rw [keepsUnchanged_iff hrun hrun']
    intro r hsame
    by_cases hr : r = .rcx
    · rw [hr, hrcx] at hsame
      have hzero := eq_zero_of_highHalf_low hsame
      apply absurd _ hdivisor
      rw [State.read, hzero]
      rfl
    · apply (keepsSurvivors_iff hrun').mp hsurvivors
      exact survives_of_not_written decode_bronzeHotfix3_expected (by simp [Instr.writes, hr])

/-- Either version has its own intermediate value in `rcx`. -/
theorem amdilHotfix_keepsUnchanged_iff :
    KeepsUnchanged undefined amdilHotfix s ↔
      (merge (s.regs .r14 &&& (s.regs .r14 - 1)) .w8 (amdilByte (s.regs .r14)) = s.regs .rcx →
        merge (s.regs .r14 - 1) .w8 (bit (hasTwoBits (s.regs .r14))) = s.regs .rcx) := by
  obtain ⟨t, hrun, hrax, hrcx, -⟩ := run_amdilHotfix_expected undefined s
  obtain ⟨t', hrun', hrax', hrcx', -⟩ := run_amdilHotfix_replacement undefined s
  rw [keepsUnchanged_iff hrun hrun', ← hrcx, ← hrcx']
  constructor
  · exact fun hkeeps => hkeeps .rcx
  · intro hkept r hsame
    by_cases hr : r = .rcx
    · rw [hr] at hsame ⊢
      exact hkept hsame
    · by_cases hr' : r = .rax
      · rw [hr', hrax] at hsame
        rw [hr', hrax', hsame]
      · apply (keepsSurvivors_iff hrun').mp (amdilHotfix_keepsSurvivors undefined s)
        exact survives_of_not_written decode_amdilHotfix_expected
          (by simp [Instr.writes, hr, hr'])

/-- A bronze hotfix keeps what the replaced code keeps only if `rax`, and `rdx` at the third
site, hold the result of the division already; the one of `libAMDIL902` always does.  A register
that the replaced code happens to leave unchanged from one state makes a difference for `rcx`
alone. -/
theorem hotfixes_keep_registers_iff :
    (KeepsUnchanged undefined bronzeHotfix1 s ↔
      KeepsSurvivors undefined bronzeHotfix1 s ∧ s.regs .rcx ≠ reciprocal) ∧
    (KeepsUnchanged undefined bronzeHotfix2 s ↔ KeepsSurvivors undefined bronzeHotfix2 s) ∧
    (KeepsUnchanged undefined bronzeHotfix3 s ↔ KeepsSurvivors undefined bronzeHotfix3 s) ∧
    (KeepsUnchanged undefined amdilHotfix s ↔
      (merge (s.regs .r14 &&& (s.regs .r14 - 1)) .w8 (amdilByte (s.regs .r14)) = s.regs .rcx →
        merge (s.regs .r14 - 1) .w8 (bit (hasTwoBits (s.regs .r14))) = s.regs .rcx)) ∧
    (KeepsSurvivors undefined bronzeHotfix1 s ↔
      s.regs .rax = BitVec.ofNat 64 ((s.read .w32 .rdx).toNat / 25)) ∧
    (KeepsSurvivors undefined bronzeHotfix2 s ↔
      s.read .w32 .rcx ≠ 0 ∧
        s.regs .rax = BitVec.ofNat 64 ((s.read .w32 .rdx).toNat / (s.read .w32 .rcx).toNat)) ∧
    (KeepsSurvivors undefined bronzeHotfix3 s ↔
      s.read .w32 .rcx ≠ 0 ∧
        s.regs .rax = BitVec.ofNat 64 ((s.read .w32 .rdx).toNat / (s.read .w32 .rcx).toNat) ∧
        s.regs .rdx = BitVec.ofNat 64 ((s.read .w32 .rdx).toNat % (s.read .w32 .rcx).toNat)) ∧
    KeepsSurvivors undefined amdilHotfix s :=
  ⟨bronzeHotfix1_keepsUnchanged_iff undefined s, bronzeHotfix2_keepsUnchanged_iff undefined s,
    bronzeHotfix3_keepsUnchanged_iff undefined s, amdilHotfix_keepsUnchanged_iff undefined s,
    bronzeHotfix1_keepsSurvivors_iff undefined s, bronzeHotfix2_keepsSurvivors_iff undefined s,
    bronzeHotfix3_keepsSurvivors_iff undefined s, amdilHotfix_keepsSurvivors undefined s⟩

theorem hotfix_overwrites_rax :
    Survives bronzeHotfix1.expected .rax ∧
      ∃ t, run (fun _ s => s.flags) bronzeHotfix1.replacement (uniformState 100) = .ok t ∧
        (uniformState 100).regs .rax = 100 ∧ t.regs .rax = 4 := by
  obtain ⟨t, hrun, hrax, -⟩ :=
    run_bronzeHotfix1_replacement (fun _ s => s.flags) (uniformState 100)
  exact ⟨survives_of_not_written decode_bronzeHotfix1_expected (by decide), t, hrun, rfl, hrax⟩

end Survivors

end BmiHotfix

end Kryptonite
