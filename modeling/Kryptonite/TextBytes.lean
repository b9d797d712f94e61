/-
Byte ranges of a text: reading them, writing them, what a write leaves alone,
words in little-endian order, and code that may be moved.  Addresses wrap around.
-/
import Kryptonite.X86Control
import Mathlib.Logic.Relation

namespace Kryptonite

namespace X86

section Ranges

/-- The bytes at an address. -/
def readBytes (text : Code) (base : Address) (size : Nat) : List UInt8 :=
  (List.range size).map fun i => text (base + BitVec.ofNat 64 i)

/-- Two ranges without a common address. -/
def Apart (base : Address) (size : Nat) (other : Address) (size' : Nat) : Prop :=
  ∀ address, inside base size address = true → inside other size' address = false

variable {text text' : Code} {base other address : Address} {bytes : List UInt8}
variable {size size' k : Nat}

@[simp] theorem length_readBytes : (readBytes text base size).length = size := by
  simp [readBytes]

theorem getElem?_readBytes (hk : k < size) :
    (readBytes text base size)[k]? = some (text (base + BitVec.ofNat 64 k)) := by
  rw [readBytes, List.getElem?_map, List.getElem?_range hk, Option.map_some]

theorem add_sub_toNat (base address : Address) :
    base + BitVec.ofNat 64 (address - base).toNat = address := by
  rw [BitVec.ofNat_toNat, BitVec.setWidth_eq, BitVec.add_comm, BitVec.sub_add_cancel]

theorem inside_iff : inside base size address = true ↔ (address - base).toNat < size := by
  simp [inside]

theorem inside_offset (hk : k < size) (hsize : size ≤ 2 ^ 64) :
    inside base size (base + BitVec.ofNat 64 k) = true := by
  rw [inside_add (by omega)]
  exact decide_eq_true hk

/-- A range that does not wrap around. -/
theorem inside_range (h : base.toNat + size ≤ 2 ^ 64) :
    inside base size address = true ↔
      base.toNat ≤ address.toNat ∧ address.toNat < base.toNat + size := by
  have hlt := address.isLt
  have hbase := base.isLt
  rw [inside_iff, BitVec.toNat_sub]
  omega

/-- A part of a range. -/
theorem inside_part (hfits : k + size' ≤ size) (hsize : size ≤ 2 ^ 64)
    (h : inside (base + BitVec.ofNat 64 k) size' address = true) :
    inside base size address = true := by
  rw [inside_iff] at h
  have hsum : address =
      base + BitVec.ofNat 64 (k + (address - (base + BitVec.ofNat 64 k)).toNat) := by
    rw [← add_ofNat_add, add_sub_toNat]
  rw [hsum]
  exact inside_offset (by omega) hsize

theorem inside_mono (hsize : size ≤ size') (h : inside base size address = true) :
    inside base size' address = true := by
  rw [inside_iff] at h ⊢
  omega

theorem Apart.symm (h : Apart base size other size') : Apart other size' base size := by
  intro address hother
  by_contra hbase
  rw [Bool.not_eq_false] at hbase
  rw [h address hbase] at hother
  cases hother

theorem readBytes_congr (hsize : size ≤ 2 ^ 64)
    (h : ∀ address, inside base size address = true → text address = text' address) :
    readBytes text base size = readBytes text' base size := by
  refine List.map_congr_left fun i hi => h _ ?_
  exact inside_offset (List.mem_range.mp hi) hsize

theorem placed_outside (h : inside base bytes.length address = false) :
    placed text base bytes address = text address := by
  have hle : bytes.length ≤ (address - base).toNat := by
    simpa [inside] using h
  rw [placed, List.getElem?_eq_none hle, Option.getD_none]

theorem placed_inside (hk : k < bytes.length) (hsize : bytes.length ≤ 2 ^ 64) :
    placed text base bytes (base + BitVec.ofNat 64 k) = bytes[k] := by
  rw [placed, toNat_add_sub (by omega), List.getElem?_eq_getElem hk, Option.getD_some]

/-- What was written is read back. -/
theorem readBytes_placed (hsize : bytes.length ≤ 2 ^ 64) :
    readBytes (placed text base bytes) base bytes.length = bytes := by
  apply List.ext_getElem (by simp)
  intro i hi hi'
  have hread := @getElem?_readBytes (placed text base bytes) base bytes.length i hi'
  rw [List.getElem?_eq_getElem hi] at hread
  rw [Option.some.inj hread, placed_inside hi' hsize]

theorem readBytes_apart (hsize : size ≤ 2 ^ 64) (h : Apart base bytes.length other size) :
    readBytes (placed text base bytes) other size = readBytes text other size :=
  readBytes_congr hsize fun _ haddress => placed_outside (h.symm _ haddress)

@[simp] theorem placed_nil : placed text base [] = text := by
  funext address
  exact placed_outside (by simp [inside])

/-- Writing what is there changes nothing. -/
theorem placed_readBytes : placed text base (readBytes text base size) = text := by
  funext address
  by_cases h : inside base size address = true
  · have hlt := inside_iff.mp h
    rw [placed, getElem?_readBytes hlt, Option.getD_some, add_sub_toNat]
  · exact placed_outside (by simpa using h)

/-- Inside the range a write does not depend on the text below it. -/
theorem placed_of_inside (h : inside base bytes.length address = true) (text text' : Code) :
    placed text base bytes address = placed text' base bytes address := by
  rw [placed, placed, List.getElem?_eq_getElem (inside_iff.mp h), Option.getD_some,
    Option.getD_some]

/-- Offsets from a later address of the range. -/
theorem toNat_sub_add (hk : k < 2 ^ 64) :
    (address - (base + BitVec.ofNat 64 k)).toNat =
      if k ≤ (address - base).toNat then (address - base).toNat - k
      else (address - base).toNat + 2 ^ 64 - k := by
  have hsub : address - (base + BitVec.ofNat 64 k) = (address - base) - BitVec.ofNat 64 k :=
    (BitVec.sub_sub address base _).symm
  have hlt := (address - base).isLt
  rw [hsub, BitVec.toNat_sub, BitVec.toNat_ofNat, Nat.mod_eq_of_lt hk]
  split <;> omega

/-- The end of a range, by the offset in it. -/
theorem inside_behind (hk : k ≤ (address - base).toNat) (hlt : (address - base).toNat < k + size) :
    inside (base + BitVec.ofNat 64 k) size address = true := by
  have hbound := (address - base).isLt
  rw [inside_iff, toNat_sub_add (by omega), if_pos hk]
  omega

/-- Two writes behind one another are one write. -/
theorem placed_append (first second : List UInt8) (hfirst : first.length < 2 ^ 64) :
    placed text base (first ++ second) =
      placed (placed text (base + BitVec.ofNat 64 first.length) second) base first := by
  funext address
  simp only [placed, List.getElem?_append, toNat_sub_add hfirst]
  by_cases h : (address - base).toNat < first.length
  · rw [if_pos h, List.getElem?_eq_getElem h, Option.getD_some, Option.getD_some]
  · rw [if_neg h, if_pos (Nat.not_lt.mp h), List.getElem?_eq_none (Nat.not_lt.mp h),
      Option.getD_none]

theorem placed_comm {bytes' : List UInt8} (h : Apart base bytes.length other bytes'.length) :
    placed (placed text base bytes) other bytes' =
      placed (placed text other bytes') base bytes := by
  funext address
  by_cases hbase : inside base bytes.length address = true
  · rw [placed_outside (h address hbase)]
    exact placed_of_inside hbase _ _
  · have hbase : inside base bytes.length address = false := by simpa using hbase
    rw [placed_outside hbase]
    by_cases hother : inside other bytes'.length address = true
    · exact placed_of_inside hother _ _
    · have hother : inside other bytes'.length address = false := by simpa using hother
      rw [placed_outside hother, placed_outside hother, placed_outside hbase]

/-- Neighbouring ranges. -/
theorem apart_next (hsize : size + size' ≤ 2 ^ 64) (hlt : size < 2 ^ 64) :
    Apart base size (base + BitVec.ofNat 64 size) size' := by
  intro address h
  have hbase := inside_iff.mp h
  rw [← Bool.not_eq_true, inside_iff, toNat_sub_add hlt]
  split <;> omega

/-- The parts of a write, the first one first. -/
theorem placed_parts (first second : List UInt8) (hsize : first.length + second.length ≤ 2 ^ 64)
    (hlt : first.length < 2 ^ 64) :
    placed (placed text base first) (base + BitVec.ofNat 64 first.length) second =
      placed text base (first ++ second) := by
  rw [placed_append first second hlt]
  exact placed_comm (apart_next hsize hlt)

theorem readBytes_add (first second : Nat) :
    readBytes text base (first + second) =
      readBytes text base first ++ readBytes text (base + BitVec.ofNat 64 first) second := by
  simp only [readBytes, List.range_add, List.map_append, List.map_map, Function.comp_def,
    add_ofNat_add]

/-- A range inside another one. -/
theorem readBytes_part (hfits : k + size ≤ size') :
    readBytes text (base + BitVec.ofNat 64 k) size =
      ((readBytes text base size').drop k).take size := by
  obtain ⟨rest, rfl⟩ := Nat.exists_eq_add_of_le hfits
  rw [Nat.add_assoc, readBytes_add, readBytes_add, List.drop_left' length_readBytes,
    List.take_left' length_readBytes]

end Ranges

section Words

/-- The low bytes of a word, the lowest first. -/
def wordBytes (size : Nat) (value : BitVec 64) : List UInt8 :=
  (List.range size).map fun i => UInt8.ofBitVec ((value >>> (8 * i)).setWidth 8)

@[simp] theorem length_wordBytes (size : Nat) (value : BitVec 64) :
    (wordBytes size value).length = size := by
  simp [wordBytes]

theorem wordBytes_succ (size : Nat) (value : BitVec 64) :
    wordBytes (size + 1) value =
      UInt8.ofBitVec (value.setWidth 8) :: wordBytes size (value >>> 8) := by
  simp only [wordBytes, List.range_succ_eq_map, List.map_cons, List.map_map, Function.comp_def,
    BitVec.ushiftRight_zero, Nat.mul_zero]
  congr 2
  funext i
  rw [← BitVec.shiftRight_add, Nat.mul_succ, Nat.add_comm]

theorem littleEndian_wordBytes (size : Nat) (value : BitVec 64) :
    littleEndian (wordBytes size value) = value.toNat % 256 ^ size := by
  induction size generalizing value with
  | zero => simp [wordBytes, littleEndian, Nat.mod_one]
  | succ size ih =>
      have hcons : littleEndian (wordBytes (size + 1) value) =
          value.toNat % 256 + 256 * littleEndian (wordBytes size (value >>> 8)) := by
        rw [wordBytes_succ]
        simp [littleEndian]
      have hpow : 256 ^ (size + 1) = 256 * 256 ^ size := Nat.pow_succ'
      have hshift : (value >>> 8).toNat = value.toNat / 256 := by
        rw [BitVec.toNat_ushiftRight, Nat.shiftRight_eq_div_pow]
      rw [hcons, ih, hshift, hpow, Nat.mod_mul]

/-- A word of eight bytes is read as it was written. -/
theorem ofNat_littleEndian_wordBytes (value : BitVec 64) :
    BitVec.ofNat 64 (littleEndian (wordBytes 8 value)) = value := by
  apply BitVec.eq_of_toNat_eq
  have hlt := value.isLt
  rw [littleEndian_wordBytes, BitVec.toNat_ofNat]
  omega

/-- A word of four bytes is read with its sign extended. -/
theorem signedDword_wordBytes (value : BitVec 64) :
    signedDword (wordBytes 4 value) = (value.setWidth 32).signExtend 64 := by
  have hword : BitVec.ofNat 32 (littleEndian (wordBytes 4 value)) = value.setWidth 32 := by
    apply BitVec.eq_of_toNat_eq
    rw [littleEndian_wordBytes, BitVec.toNat_ofNat, BitVec.toNat_setWidth]
    omega
  rw [signedDword, hword]

/-- The word of eight bytes at an address. -/
def readWord (text : Code) (address : Address) : Address :=
  BitVec.ofNat 64 (littleEndian (readBytes text address 8))

end Words

section Moving

/-- A processor that knows the two jumps without a condition; `σ` is everything
but the instruction pointer and the text. -/
structure Processor (σ : Type) where
  step : Code → Address → σ → Option (Address × σ)
  jump_relative : ∀ text rip state, text rip = 0xE9 → step text rip state =
    some (rip + 5 + signedDword (readBytes text (rip + 1) 4), state)
  jump_indirect : ∀ text rip state, readBytes text rip 2 = [0xFF, 0x25] → step text rip state =
    some (readWord text (rip + 6 + signedDword (readBytes text (rip + 2) 4)), state)

variable {σ : Type} (p : Processor σ)

end Moving

end X86

end Kryptonite
