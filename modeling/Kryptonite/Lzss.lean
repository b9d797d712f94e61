/-
The LZSS coder of Lilu (`kern_compression.cpp`): the search trees of the
encoder, `compress_lzss` and `decompress_lzss`.  The arrays of `encode_state`
are functions of the index.
-/
import Mathlib.Logic.Function.Basic

namespace Kryptonite

namespace Lzss

/-- The size of the ring buffer. -/
def rbSize : Nat := 4096

/-- The upper limit of a match. -/
def upLim : Nat := 18

/-- A match is coded by position and length if it is longer. -/
def threshold : Nat := 2

def nilNode : Nat := rbSize

structure EncodeState where
  lchild : Nat → Nat
  rchild : Nat → Nat
  parent : Nat → Nat
  textBuf : Nat → UInt8
  matchPosition : Nat
  matchLength : Nat

def initState : EncodeState where
  lchild _ := 0
  rchild i := if rbSize + 1 ≤ i ∧ i ≤ rbSize + 256 then nilNode else 0
  parent i := if i < rbSize then nilNode else 0
  textBuf i := if i < rbSize - upLim then 0x20 else 0
  matchPosition := 0
  matchLength := 0

section Stores

variable (sp : EncodeState) (i : Nat)

def EncodeState.setLchild (value : Nat) : EncodeState :=
  { sp with lchild := Function.update sp.lchild i value }

def EncodeState.setRchild (value : Nat) : EncodeState :=
  { sp with rchild := Function.update sp.rchild i value }

def EncodeState.setParent (value : Nat) : EncodeState :=
  { sp with parent := Function.update sp.parent i value }

def EncodeState.setText (value : UInt8) : EncodeState :=
  { sp with textBuf := Function.update sp.textBuf i value }

/-- `if (rchild[parent[p]] == p) rchild[parent[p]] = q; else lchild[parent[p]] = q;` -/
def EncodeState.relink (p q : Nat) : EncodeState :=
  if sp.rchild (sp.parent p) = p then
    sp.setRchild (sp.parent p) q
  else
    sp.setLchild (sp.parent p) q

end Stores

section InsertNode

/-- The comparison of the strings at `r` and `p` from index `i` on: where it
ends, and the last difference. -/
def compareFrom (text : Nat → UInt8) (r p : Nat) : Nat → Nat → Nat × Int
  | 0, i => (i, 0)
  | remaining + 1, i =>
      let cmp : Int := (text (r + i)).toNat - (text (p + i)).toNat
      if cmp ≠ 0 then (i, cmp) else compareFrom text r p remaining (i + 1)

/-- `r` takes the place of `p`. -/
def EncodeState.replaceNode (sp : EncodeState) (r p : Nat) : EncodeState :=
  let sp := sp.setParent r (sp.parent p)
  let sp := sp.setLchild r (sp.lchild p)
  let sp := sp.setRchild r (sp.rchild p)
  let sp := sp.setParent (sp.lchild p) r
  let sp := sp.setParent (sp.rchild p) r
  let sp := sp.relink p r
  sp.setParent p nilNode

/-- The search of `insert_node`, from node `p` on. -/
def insertLoop (r : Nat) : Nat → Nat → Int → EncodeState → Option EncodeState
  | 0, _, _, _ => none
  | fuel + 1, p, cmp, sp =>
      let child := if 0 ≤ cmp then sp.rchild p else sp.lchild p
      if child = nilNode then
        some ((if 0 ≤ cmp then sp.setRchild p r else sp.setLchild p r).setParent r p)
      else
        let (i, cmp) := compareFrom sp.textBuf r child (upLim - 1) 1
        if sp.matchLength < i then
          let sp := { sp with matchPosition := child, matchLength := i }
          if upLim ≤ i then
            some (sp.replaceNode r child)
          else
            insertLoop r fuel child cmp sp
        else
          insertLoop r fuel child cmp sp

def insertNode (fuel : Nat) (sp : EncodeState) (r : Nat) : Option EncodeState :=
  insertLoop r fuel (rbSize + 1 + (sp.textBuf r).toNat) 1
    { (sp.setLchild r nilNode).setRchild r nilNode with matchLength := 0 }

end InsertNode

section DeleteNode

/-- `do { q = rchild[q]; } while (rchild[q] != nilNode);` -/
def rightmost (rchild : Nat → Nat) : Nat → Nat → Option Nat
  | 0, _ => none
  | fuel + 1, q =>
      if rchild (rchild q) ≠ nilNode then rightmost rchild fuel (rchild q) else some (rchild q)

/-- The end of `delete_node`. -/
def EncodeState.unlinkNode (sp : EncodeState) (p q : Nat) : EncodeState :=
  let sp := sp.setParent q (sp.parent p)
  let sp := sp.relink p q
  sp.setParent p nilNode

def deleteNode (fuel : Nat) (sp : EncodeState) (p : Nat) : Option EncodeState :=
  if sp.parent p = nilNode then
    some sp
  else if sp.rchild p = nilNode then
    some (sp.unlinkNode p (sp.lchild p))
  else if sp.lchild p = nilNode then
    some (sp.unlinkNode p (sp.rchild p))
  else if sp.rchild (sp.lchild p) = nilNode then
    let q := sp.lchild p
    let sp := sp.setRchild q (sp.rchild p)
    let sp := sp.setParent (sp.rchild p) q
    some (sp.unlinkNode p q)
  else do
    let q ← rightmost sp.rchild fuel (sp.lchild p)
    let sp := sp.setRchild (sp.parent q) (sp.lchild q)
    let sp := sp.setParent (sp.lchild q) (sp.parent q)
    let sp := sp.setLchild q (sp.lchild p)
    let sp := sp.setParent (sp.lchild p) q
    let sp := sp.setRchild q (sp.rchild p)
    let sp := sp.setParent (sp.rchild p) q
    some (sp.unlinkNode p q)

end DeleteNode

section Compress

/-- The variables of `compress_lzss`: `src` is what has not been read,
`codes` is `code_buf[1]` up to `code_buf_ptr`, and `dst` is what has been
written. -/
structure Coder where
  sp : EncodeState
  src : List UInt8
  len : Nat
  r : Nat
  s : Nat
  flags : UInt8
  codes : List UInt8
  mask : UInt8
  dst : List UInt8

/-- The loop that copies `code_buf` to the end of `dst`. -/
def sendCode (dstlen : Nat) : List UInt8 → List UInt8 → Option (List UInt8)
  | [], dst => some dst
  | byte :: bytes, dst =>
      if dst.length < dstlen then sendCode dstlen bytes (dst ++ [byte]) else none

/-- The next unit of code: an uncoded byte, or position and length. -/
def Coder.encode (c : Coder) : Coder :=
  let matchLength := if c.len < c.sp.matchLength then c.len else c.sp.matchLength
  if matchLength ≤ threshold then
    { c with
      sp := { c.sp with matchLength := 1 }
      flags := c.flags ||| c.mask
      codes := c.codes ++ [c.sp.textBuf c.r] }
  else
    { c with
      sp := { c.sp with matchLength := matchLength }
      codes := c.codes ++ [UInt8.ofNat c.sp.matchPosition,
        UInt8.ofNat (((c.sp.matchPosition >>> 4) &&& 0xF0) ||| (matchLength - (threshold + 1)))] }

/-- After eight units they are sent together. -/
def Coder.sendGroup (dstlen : Nat) (c : Coder) : Option Coder :=
  let mask := c.mask <<< 1
  if mask = 0 then do
    let dst ← sendCode dstlen (c.flags :: c.codes) c.dst
    some { c with flags := 0, codes := [], mask := 1, dst := dst }
  else
    some { c with mask := mask }

/-- The next byte is read, and the string that begins `F - 1` bytes before it is
registered. -/
def Coder.readByte (fuel : Nat) (c : Coder) (byte : UInt8) (src : List UInt8) : Option Coder := do
  let sp ← deleteNode fuel c.sp c.s
  let sp := sp.setText c.s byte
  let sp := if c.s < upLim - 1 then sp.setText (c.s + rbSize) byte else sp
  let s := (c.s + 1) &&& (rbSize - 1)
  let r := (c.r + 1) &&& (rbSize - 1)
  let sp ← insertNode fuel sp r
  some { c with sp := sp, src := src, r := r, s := s }

/-- After the end of the text. -/
def Coder.skipByte (fuel : Nat) (c : Coder) : Option Coder := do
  let sp ← deleteNode fuel c.sp c.s
  let s := (c.s + 1) &&& (rbSize - 1)
  let r := (c.r + 1) &&& (rbSize - 1)
  let len := c.len - 1
  let sp ← if len ≠ 0 then insertNode fuel sp r else some sp
  some { c with sp := sp, len := len, r := r, s := s }

/-- A round of the first loop while there is text, of the second one after that. -/
def Coder.step (fuel : Nat) (c : Coder) : Option Coder :=
  match c.src with
  | byte :: src => c.readByte fuel byte src
  | [] => c.skipByte fuel

/-- The two loops behind each other, `last_match_length` rounds together. -/
def Coder.advance (fuel : Nat) : Nat → Coder → Option Coder
  | 0, c => some c
  | count + 1, c => do
      let c ← c.step fuel
      c.advance fuel count

/-- The units one after the other.  `some none` is the null pointer for want of
room. -/
def compressLoop (treeFuel dstlen : Nat) : Nat → Coder → Option (Option (List UInt8))
  | 0, _ => none
  | fuel + 1, c =>
      match c.encode.sendGroup dstlen with
      | none => some none
      | some c => do
          let c ← c.advance treeFuel c.sp.matchLength
          if 0 < c.len then
            compressLoop treeFuel dstlen fuel c
          else if c.codes ≠ [] then
            some (sendCode dstlen (c.flags :: c.codes) c.dst)
          else
            some (some c.dst)

/-- The first bytes of the text, read to the end of the buffer: their number,
the rest and the buffer. -/
def readFirst (r : Nat) : Nat → Nat → List UInt8 → EncodeState → Nat × List UInt8 × EncodeState
  | 0, len, src, sp => (len, src, sp)
  | _ + 1, len, [], sp => (len, [], sp)
  | remaining + 1, len, byte :: src, sp =>
      readFirst r remaining (len + 1) src (sp.setText (r + len) byte)

/-- `insert_node(sp, r - i)` for so many `i`. -/
def insertFirst (fuel r : Nat) : Nat → Nat → EncodeState → Option EncodeState
  | 0, _, sp => some sp
  | remaining + 1, i, sp => do
      let sp ← insertNode fuel sp (r - i)
      insertFirst fuel r remaining (i + 1) sp

/-- Without fuel there is no result, and `some none` is the null pointer. -/
def compressLzss (fuel dstlen : Nat) (src : List UInt8) : Option (Option (List UInt8)) :=
  let r := rbSize - upLim
  let (len, src, sp) := readFirst r upLim 0 src initState
  if len = 0 then
    some none
  else do
    let sp ← insertFirst fuel r upLim 1 sp
    let sp ← insertNode fuel sp r
    compressLoop fuel dstlen fuel
      { sp := sp
        src := src
        len := len
        r := r
        s := 0
        flags := 0
        codes := []
        mask := 1
        dst := [] }

end Compress

section Decompress

/-- The variables of `decompress_lzss`. -/
structure Decoder where
  src : List UInt8
  flags : Nat
  r : Nat
  textBuf : Nat → UInt8
  dst : List UInt8

def Decoder.put (d : Decoder) (byte : UInt8) : Decoder :=
  { d with
    dst := d.dst ++ [byte]
    textBuf := Function.update d.textBuf d.r byte
    r := (d.r + 1) &&& (rbSize - 1) }

/-- The loop over `k`; the `break` in it ends only this loop. -/
def Decoder.copyLoop (dstlen i : Nat) : Nat → Nat → Decoder → Decoder
  | 0, _, d => d
  | remaining + 1, k, d =>
      if d.dst.length < dstlen then
        copyLoop dstlen i remaining (k + 1) (d.put (d.textBuf ((i + k) &&& (rbSize - 1))))
      else
        d

/-- The flags for the next unit; eight of them come from one byte. -/
def Decoder.nextFlags (d : Decoder) : Option Decoder :=
  if (d.flags >>> 1) &&& 0x100 = 0 then
    match d.src with
    | [] => none
    | byte :: src => some { d with src := src, flags := byte.toNat ||| 0xFF00 }
  else
    some { d with flags := d.flags >>> 1 }

/-- The next unit, unless the loop is left. -/
def Decoder.unit (dstlen : Nat) (d : Decoder) : Option Decoder :=
  if d.flags &&& 1 ≠ 0 then
    match d.src with
    | [] => none
    | byte :: src => if d.dst.length < dstlen then some ({ d with src := src }.put byte) else none
  else
    match d.src with
    | i :: j :: src =>
        some ({ d with src := src }.copyLoop dstlen (i.toNat ||| ((j.toNat &&& 0xF0) <<< 4))
          ((j.toNat &&& 0x0F) + threshold + 1) 0)
    | _ => none

def decompressLoop (dstlen : Nat) : Nat → Decoder → Option (List UInt8)
  | 0, _ => none
  | fuel + 1, d =>
      match d.nextFlags with
      | none => some d.dst
      | some next =>
          match next.unit dstlen with
          | none => some d.dst
          | some next => decompressLoop dstlen fuel next

/-- `stack` is what the buffer holds before it is written. -/
def decompressLzss (stack : Nat → UInt8) (fuel dstlen : Nat) (src : List UInt8) :
    Option (List UInt8) :=
  decompressLoop dstlen fuel
    { src := src
      flags := 0
      r := rbSize - upLim
      textBuf := fun i => if i < rbSize - upLim then 0x20 else stack i
      dst := [] }

end Decompress

end Lzss

end Kryptonite
