/-
Byte strings patched in place: reading a window of a byte string and
overwriting one, files read and written at a position, and the numbers in
messages about them.
-/
import Mathlib.Data.List.Basic

namespace Kryptonite

namespace ByteWindow

variable {α : Type}

/-- The `size` bytes from `offset` on, fewer where the string ends. -/
def window (offset size : Nat) (bytes : List α) : List α :=
  (bytes.drop offset).take size

/-- `bytes` with `patch` stored at `offset`. -/
def overwrite (offset : Nat) (patch bytes : List α) : List α :=
  bytes.take offset ++ patch ++ bytes.drop (offset + patch.length)

/-- A number as `0x%x` prints it. -/
def hexNumber (n : Nat) : String := "0x" ++ String.ofList (Nat.toDigits 16 n)

theorem window_getElem? (offset size i : Nat) (bytes : List α) :
    (window offset size bytes)[i]? = if i < size then bytes[offset + i]? else none := by
  rw [window, List.getElem?_take]
  split
  · rw [List.getElem?_drop]
  · rfl

theorem window_append_right (size k : Nat) (before bytes : List α) :
    window (before.length + k) size (before ++ bytes) = window k size bytes := by
  rw [window, window, List.drop_length_add_append]

/-- A window of full length lies inside the string. -/
theorem add_le_length_of_window {offset size : Nat} {bytes : List α}
    (hsize : 0 < size) (hlength : (window offset size bytes).length = size) :
    offset + size ≤ bytes.length := by
  rw [window, List.length_take, List.length_drop] at hlength
  omega

section Overwrite

variable {offset : Nat} {patch bytes : List α} (hfits : offset + patch.length ≤ bytes.length)

include hfits

theorem length_overwrite : (overwrite offset patch bytes).length = bytes.length := by
  simp only [overwrite, List.length_append, List.length_take, List.length_drop]
  omega

theorem overwrite_getElem? (i : Nat) :
    (overwrite offset patch bytes)[i]? =
      if i < offset then bytes[i]?
      else if i < offset + patch.length then patch[i - offset]? else bytes[i]? := by
  have htake : (bytes.take offset).length = offset := by
    rw [List.length_take]
    omega
  rw [overwrite, List.append_assoc]
  by_cases hbefore : i < offset
  · rw [if_pos hbefore, List.getElem?_append_left (by omega), List.getElem?_take,
      if_pos hbefore]
  · rw [if_neg hbefore, List.getElem?_append_right (by omega), htake]
    by_cases hinside : i < offset + patch.length
    · rw [if_pos hinside, List.getElem?_append_left (by omega)]
    · rw [if_neg hinside, List.getElem?_append_right (by omega), List.getElem?_drop]
      congr 1
      omega

theorem window_overwrite_self :
    window offset patch.length (overwrite offset patch bytes) = patch := by
  apply List.ext_getElem?
  intro i
  rw [window_getElem?, overwrite_getElem? hfits]
  by_cases hinside : i < patch.length
  · rw [if_pos hinside, if_neg (by omega), if_pos (by omega)]
    congr 1
    omega
  · rw [if_neg hinside, List.getElem?_eq_none (by omega)]

theorem window_overwrite_disjoint {other size : Nat}
    (hdisjoint : other + size ≤ offset ∨ offset + patch.length ≤ other) :
    window other size (overwrite offset patch bytes) = window other size bytes := by
  apply List.ext_getElem?
  intro i
  rw [window_getElem?, window_getElem?]
  split
  · rw [overwrite_getElem? hfits]
    rcases hdisjoint with hbefore | hafter
    · rw [if_pos (by omega)]
    · rw [if_neg (by omega), if_neg (by omega)]
  · rfl

end Overwrite

section File

/-- A file that is open for reading and writing. -/
structure Handle where
  bytes : List UInt8
  position : Nat
deriving Repr, DecidableEq

def Handle.seek (file : Handle) (offset : Nat) : Handle := { file with position := offset }

/-- At most `size` bytes, fewer at the end of the file. -/
def Handle.read (file : Handle) (size : Nat) : List UInt8 × Handle :=
  let bytes := window file.position size file.bytes
  (bytes, { file with position := file.position + bytes.length })

/-- A write behind the end of the file leaves zeros in between. -/
def Handle.write (file : Handle) (data : List UInt8) : Handle where
  bytes := overwrite file.position data
    (file.bytes ++ List.replicate (file.position - file.bytes.length) 0)
  position := file.position + data.length

variable (file : Handle) (offset : Nat)

@[simp] theorem Handle.seek_bytes : (file.seek offset).bytes = file.bytes := rfl

@[simp] theorem Handle.read_bytes (size : Nat) : (file.read size).2.bytes = file.bytes := rfl

theorem Handle.seek_read (size : Nat) :
    ((file.seek offset).read size).1 = window offset size file.bytes := rfl

/-- A write that begins inside the file overwrites it. -/
theorem Handle.seek_write {data : List UInt8} (h : offset ≤ file.bytes.length) :
    ((file.seek offset).write data).bytes = overwrite offset data file.bytes := by
  have hgap : offset - file.bytes.length = 0 := Nat.sub_eq_zero_of_le h
  simp only [write, seek, hgap, List.replicate_zero, List.append_nil]

end File

end ByteWindow

end Kryptonite
