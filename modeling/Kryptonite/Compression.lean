/-
`Compression::compress` and `Compression::decompress` (`kern_compression.cpp`),
and what the LZSS coder guarantees to those who call them.
-/
import Kryptonite.LzssEncode

namespace Kryptonite

namespace Compression

open Lzss SlidingWindow

section Source

/-- `ModeLZSS`, `ModeLZVN`, `ModeZLIB` and any other number. -/
inductive Mode where
  | lzss
  | lzvn
  | zlib
  | unsupported (compression : Nat)
deriving Repr, DecidableEq

/-- What the kernel and the libraries provide: memory for the destination and for
the `encode_state` of the coder, what the stack holds, and the other decoders. -/
structure Machine where
  create : Nat → Bool
  encodeState : Bool
  stack : Nat → UInt8
  lzvn : Nat → List UInt8 → List UInt8
  zlib : Nat → List UInt8 → List UInt8

variable (machine : Machine) (mode : Mode) (dstlen : Nat) (src : List UInt8)

/-- `decompress_lzss`, with fuel for every byte of the source. -/
def decodeLzss : List UInt8 :=
  (decompressLzss machine.stack (src.length + 1) dstlen src).getD []

/-- `compress_lzss`, with fuel for the search trees and for every byte. -/
def encodeLzss : Option (List UInt8) :=
  if machine.encodeState then (compressLzss (rbSize + src.length + 1) dstlen src).join else none

/-- The decompressed bytes; with `buffer` there is no allocation. -/
def decompressInternal (buffer checkResult : Bool) : Option (List UInt8) :=
  if buffer ∨ machine.create dstlen then
    let decompressed := match mode with
      | .lzss => decodeLzss machine dstlen src
      | .lzvn => machine.lzvn dstlen src
      | .zlib => machine.zlib dstlen src
      | .unsupported _ => []
    if ¬ checkResult ∨ decompressed.length = dstlen then some decompressed else none
  else
    none

def decompress (buffer : Bool) : Option (List UInt8) :=
  decompressInternal machine mode dstlen src buffer true

/-- The compressed bytes, whose number comes back in `dstlen`. -/
def compress (buffer : Bool) : Option (List UInt8) :=
  if buffer ∨ machine.create dstlen then
    if mode = .lzss then encodeLzss machine dstlen src else none
  else
    none

end Source

section Coder

variable {stack : Nat → UInt8} {fuel small large dstlen : Nat} {input src : List UInt8}

/-- Whatever is decompressed, it ends, there are never more bytes than there is
room for, and a smaller destination gets the beginning of what a larger one
gets. -/
theorem decompress_truncates (hle : small ≤ large) (hfuel : src.length < fuel) :
    ∃ out, decompressLzss stack fuel large src = some out ∧ out.length ≤ large ∧
      decompressLzss stack fuel small src = some (out.take small) := by
  obtain ⟨d, hd⟩ : ∃ d : Decoder, d =
      { src := src
        flags := 0
        r := rbSize - upLim
        textBuf := fun i => if i < rbSize - upLim then 0x20 else stack i
        dst := [] } := ⟨_, rfl⟩
  have hsrc : d.src.length < fuel := by
    rw [hd]
    exact hfuel
  have hempty : ∀ room, d.dst.length ≤ room := by
    intro room
    rw [hd]
    exact Nat.zero_le room
  obtain ⟨out, hrun, -⟩ := @decompressLoop_total large fuel d hsrc
  have hsame := decompressLoop_take (hempty large) (Nat.le_refl large) hsrc hrun
  have hlength : out.length ≤ large := by
    rw [hrun, Option.some.injEq] at hsame
    rw [hsame]
    exact List.length_take_le large out
  refine ⟨out, ?_, hlength, ?_⟩
  · rw [decompressLzss, ← hd]
    exact hrun
  · rw [decompressLzss, ← hd]
    exact decompressLoop_take (hempty small) hle hsrc hrun

theorem decompress_truncates_sample :
    ∃ out, decompressLzss (fun _ => 0) 4 20 [0x00, 0x00, 0x0F] = some out ∧ out.length ≤ 20 ∧
      decompressLzss (fun _ => 0) 4 5 [0x00, 0x00, 0x0F] = some (out.take 5) :=
  decompress_truncates (by decide) (by decide)

/-- The search trees, the ring buffer and the units of code together: the
compression of any text ends, it fails only if there is less room than the text
and a byte for every eight of it need, it never takes more room than there is,
and decompression gives the text back, or as much of it as fits. -/
theorem decompress_compress (hinput : input ≠ []) (hfuel : rbSize + input.length < fuel) :
    ∃ result, compressLzss fuel dstlen input = some result ∧
      (result = none → dstlen < input.length + (input.length + 7) / 8) ∧
      ∀ bytes, result = some bytes → bytes.length ≤ dstlen ∧
        ∀ room enough, bytes.length < enough →
          decompressLzss stack enough room bytes = some (input.take room) := by
  obtain ⟨result, hrun, hcompressed⟩ := compressLzss_spec hinput hfuel
  refine ⟨result, hrun, hcompressed.room, fun bytes hbytes => ?_⟩
  obtain ⟨hlength, tokens, hpacked, hcodable, hexplained⟩ := hcompressed.packed bytes hbytes
  exact ⟨hlength, fun room enough henough =>
    decompressLzss_packed stack hpacked hcodable hexplained henough⟩

/-- Nine times the same four letters. -/
def repeatingText : List UInt8 := (List.replicate 9 [0x41, 0x42, 0x43, 0x44]).flatten

theorem decompress_compress_repeating :
    ∃ bytes, compressLzss 5000 41 repeatingText = some (some bytes) ∧ bytes.length ≤ 41 ∧
      decompressLzss (fun _ => 0) 42 36 bytes = some repeatingText := by
  have hlength : repeatingText.length = 36 := rfl
  obtain ⟨result, hrun, hroom, hback⟩ :=
    @decompress_compress (fun _ => 0) 5000 41 repeatingText (by decide) (by decide)
  cases result with
  | none => exact absurd (hroom rfl) (by rw [hlength]; decide)
  | some bytes =>
      obtain ⟨hle, hread⟩ := hback bytes rfl
      refine ⟨bytes, hrun, hle, ?_⟩
      rw [hread 36 42 (by omega), List.take_of_length_le (Nat.le_of_eq hlength)]

end Coder

section Callers

variable {machine : Machine} {dstlen : Nat} {input bytes : List UInt8}

end Callers

end Compression

end Kryptonite
