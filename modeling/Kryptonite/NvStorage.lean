/-
`NVStorage` (`kern_nvram.cpp`) and the encryption under it (`kern_crypto.cpp`):
values in the non-volatile memory, as they are or behind a header, compressed,
encrypted and with a checksum.
-/
import Kryptonite.Compression
import Kryptonite.TextBytes

namespace Kryptonite

namespace NvStorage

open X86 (littleEndian wordBytes)

section Crypto

def blockSize : Nat := 16

/-- AES in CBC mode with a key and an initialisation vector; `none` is an error
of the library. -/
structure Aes where
  encrypt : List UInt8 → List UInt8 → List UInt8 → Option (List UInt8)
  decrypt : List UInt8 → List UInt8 → List UInt8 → Option (List UInt8)
  inverse : ∀ {key iv plain coded : List UInt8}, encrypt key iv plain = some coded →
    decrypt key iv coded = some plain
  length : ∀ {key iv plain coded : List UInt8}, encrypt key iv plain = some coded →
    coded.length = plain.length

/-- The functions of the libraries that do not change from call to call. -/
structure Library where
  aes : Aes
  crc32 : List UInt8 → UInt32

/-- The buffers that are allocated; no call asks for one of them twice. -/
inductive Buffer where
  | compressed
  | decompressed
  | data
  | encrypted
  | decrypted
  | payload
deriving Repr, DecidableEq

/-- What one call finds: the memory for each buffer, what `read_random` gives for
the initialisation vector, and whether the property is made and set. -/
structure Call where
  machine : Compression.Machine
  malloc : Buffer → Nat → Bool
  iv : List UInt8
  iv_length : iv.length = blockSize
  setProperty : Bool

/-- `BufferMax`: a gigabyte. -/
def bufferMax : Nat := 1024 * 1024 * 1024

/-- `Buffer::create`. -/
def Call.create (call : Call) (buffer : Buffer) (size : Nat) : Bool :=
  decide (size ≤ bufferMax) && call.malloc buffer size

variable (library : Library) (call : Call) (key : Option (List UInt8)) (src : List UInt8)

/-- `sizeof(uint32_t)`. -/
def wordSize : Nat := 4

/-- How many zeros fill the last block. -/
def padSize (realSize : Nat) : Nat :=
  if 0 < realSize % blockSize then blockSize - realSize % blockSize else realSize % blockSize

/-- `Crypto::encrypt`: the initialisation vector, and the size, the data and zeros
encrypted. -/
def encrypt : Option (List UInt8) :=
  if src.length = 0 then
    none
  else match key with
  | none => none
  | some key =>
      let realSize := wordSize + src.length
      let encSize := realSize + padSize realSize
      let fullSize := encSize + blockSize
      if call.create .data encSize ∧ call.create .encrypted fullSize then
        (library.aes.encrypt key call.iv
          (wordBytes wordSize (BitVec.ofNat 64 src.length) ++ src ++
            List.replicate (padSize realSize) 0)).map (call.iv ++ ·)
      else
        none

/-- `Crypto::decrypt`; `sizeof(Encrypted)` is two blocks. -/
def decrypt : Option (List UInt8) :=
  if src.length < blockSize + blockSize ∨ src.length % blockSize ≠ 0 then
    none
  else match key with
  | none => none
  | some key =>
      let size := src.length - blockSize
      if call.create .decrypted size then
        match library.aes.decrypt key (src.take blockSize) (src.drop blockSize) with
        | none => none
        | some data =>
            let stored := littleEndian (data.take wordSize)
            if stored ≤ size - wordSize then
              some ((data.drop wordSize).take stored)
            else
              none
      else
        none

end Crypto

section Compress

variable (call : Call) (src : List UInt8)

/-- `NVStorage::compress`: the size before the compressed data.  The coder is told
that all of the buffer is behind the size: see `InBuffer`. -/
def compress : Option (List UInt8) :=
  let dstSize := src.length + 1024
  if call.create .compressed dstSize then
    (Compression.compress call.machine .lzss dstSize src true).map
      (wordBytes wordSize (BitVec.ofNat 64 src.length) ++ ·)
  else
    none

/-- `NVStorage::decompress`. -/
def decompress : Option (List UInt8) :=
  if src.length ≤ wordSize then
    none
  else
    let dstSize := littleEndian (src.take wordSize)
    if call.create .decompressed dstSize then
      Compression.decompress call.machine .lzss dstSize (src.drop wordSize) true
    else
      none

end Compress

section Store

def optRaw : UInt8 := 1

def optCompressed : UInt8 := 2

def optEncrypted : UInt8 := 4

def optChecksum : UInt8 := 8

def optSensitive : UInt8 := 16

/-- An option is set. -/
def has (opts option : UInt8) : Bool := opts &&& option ≠ 0

/-- A step that is made if the option is set. -/
def stepIf (set : Bool) (step : List UInt8 → Option (List UInt8)) (payload : List UInt8) :
    Option (List UInt8) :=
  if set then step payload else some payload

/-- The properties of `IODTNVRAM` that are data. -/
abbrev Store := String → Option (List UInt8)

/-- `Header`: the magic number 0xC717, the version and the options. -/
def header (opts : UInt8) : List UInt8 := [0x17, 0xC7, 1, opts]

variable (library : Library) (call : Call) (store : Store) (name : String) (opts : UInt8)
variable (enckey : Option (List UInt8))

/-- What `read` does with the checksum: the payload without it. -/
def checked (data payload : List UInt8) : Option (List UInt8) :=
  if payload.length < wordSize then
    none
  else
    let payloadSize := payload.length - wordSize
    let ncrc := library.crc32 (data.take (data.length - wordSize))
    let ocrc := littleEndian (payload.drop payloadSize)
    if ocrc ≠ ncrc.toNat then none else some (payload.take payloadSize)

/-- The payload behind a header with the options `stored`. -/
def unpack (stored : UInt8) (data : List UInt8) : Option (List UInt8) := do
  let payload := data.drop (header stored).length
  let payload ← stepIf (has stored optChecksum) (checked library data) payload
  let payload ← stepIf (has stored optEncrypted) (decrypt library call enckey) payload
  if has stored optCompressed then
    decompress call payload
  else if has stored optEncrypted ∨ call.create .payload payload.length then
    some payload
  else
    none

/-- `NVStorage::read`. -/
def read : Option (List UInt8) :=
  match store name with
  | none => none
  | some data =>
      if data.length = 0 then
        none
      else if has opts optRaw then
        if call.create .payload data.length then some data else none
      else
        match data with
        | low :: high :: version :: stored :: _ =>
            if littleEndian [low, high] ≠ 0xC717 ∨ 1 < version.toNat ∨ stored &&& opts ≠ opts then
              none
            else
              unpack library call enckey stored data
        | _ => none

/-- The bytes that `write` stores. -/
def pack (src : List UInt8) : Option (List UInt8) := do
  let payload ← stepIf (has opts optCompressed) (compress call) src
  let payload ← stepIf (has opts optEncrypted) (encrypt library call enckey) payload
  let bytes := header (opts &&& ~~~optSensitive) ++ payload
  let size := bytes.length + if has opts optChecksum then wordSize else 0
  if call.create .payload size then
    if has opts optChecksum then
      some (bytes ++ wordBytes wordSize (BitVec.ofNat 64 (library.crc32 bytes).toNat))
    else
      some bytes
  else
    none

/-- `NVStorage::write`: whether it succeeded, and the store. -/
def write (src : List UInt8) : Bool × Store :=
  if src.length = 0 then
    (false, store)
  else
    match if has opts optRaw then some src else pack library call opts enckey src with
    | none => (false, store)
    | some bytes =>
        if call.setProperty then (true, Function.update store name (some bytes))
        else (false, store)

/-- `NVStorage::remove`; a sensitive value is overwritten with zeros before. -/
def remove : Store := Function.update store name none

end Store

section Layers

variable {library : Library} {call later : Call} {key : Option (List UInt8)}
variable {src bytes : List UInt8} {buffer : Buffer} {size : Nat}

/-- There is memory for every buffer of at most `bufferMax` bytes. -/
def Call.Plenty (call : Call) : Prop := ∀ buffer size, call.malloc buffer size = true

theorem Call.Plenty.create (h : call.Plenty) (hsize : size ≤ bufferMax) :
    call.create buffer size = true := by
  rw [Call.create, decide_eq_true hsize, h buffer size]
  rfl

end Layers

section RoundTrip

variable {library : Library} {call later : Call} {store store' : Store} {name other : String}
variable {opts wanted : UInt8} {enckey : Option (List UInt8)} {src bytes payload : List UInt8}

/-- A value as it was written. -/
structure Entry where
  value : List UInt8
  opts : UInt8
  enckey : Option (List UInt8)
deriving Repr, DecidableEq

/-- How a value can be read back: raw if it was written raw, and otherwise with
the key and any options but `optSensitive` that it was written with. -/
structure Entry.Readable (entry : Entry) (library : Library) (store : Store) (name : String) :
    Prop where
  raw : has entry.opts optRaw = true → ∀ (later : Call) (wanted : UInt8)
    (enckey : Option (List UInt8)), later.Plenty →
    has wanted optRaw = true → read library later store name wanted enckey = some entry.value
  packed : has entry.opts optRaw = false → ∀ (later : Call) (wanted : UInt8),
    later.Plenty → has wanted optRaw = false →
    read library later store name wanted entry.enckey =
      if (entry.opts &&& ~~~optSensitive) &&& wanted = wanted then some entry.value else none

end RoundTrip

section Buffer

variable {call : Call} {src bytes : List UInt8}

/-- What `compress` writes stays in its buffer. -/
def InBuffer (call : Call) (src : List UInt8) : Prop :=
  ∀ bytes, compress call src = some bytes → bytes.length ≤ src.length + 1024

end Buffer

section Runs

/-- What a client does with the storage. -/
inductive Operation where
  | write (call : Call) (name : String) (src : List UInt8) (opts : UInt8)
      (enckey : Option (List UInt8))
  | remove (name : String)

/-- A value of at most a gigabyte, whose compressed form stays in its buffer. -/
def Operation.Fits : Operation → Prop
  | write call _ src opts _ => src.length ≤ bufferMax ∧
      (has opts optRaw = false → has opts optCompressed = true → InBuffer call src)
  | remove _ => True

/-- The storage as a client sees it. -/
abbrev Entries := String → Option Entry

variable (library : Library)

/-- An operation on the store, and on the values that it stands for. -/
def perform (state : Store × Entries) : Operation → Store × Entries
  | .write call name src opts enckey =>
      match write library call state.1 name opts enckey src with
      | (true, store) => (store, Function.update state.2 name (some ⟨src, opts, enckey⟩))
      | (false, store) => (store, state.2)
  | .remove name => (remove state.1 name, Function.update state.2 name none)

def run (operations : List Operation) (state : Store × Entries) : Store × Entries :=
  operations.foldl (perform library) state

/-- The store stands for the values. -/
def Represents (state : Store × Entries) : Prop :=
  ∀ name, match state.2 name with
    | none => state.1 name = none
    | some entry => entry.Readable library state.1 name

variable {library} {call : Call} {store store' : Store} {name : String} {state : Store × Entries}

theorem Represents.readable {entry : Entry} (h : Represents library state)
    (hentry : state.2 name = some entry) : entry.Readable library state.1 name := by
  have hname := h name
  rw [hentry] at hname
  exact hname

theorem Represents.missing (h : Represents library state) (hentry : state.2 name = none) :
    state.1 name = none := by
  have hname := h name
  rw [hentry] at hname
  exact hname

/-- Only the value of that name is read. -/
theorem Entry.Readable.congr {entry : Entry} (h : entry.Readable library store name)
    (hsame : store' name = store name) : entry.Readable library store' name := by
  have hread : ∀ call wanted enckey, read library call store' name wanted enckey =
      read library call store name wanted enckey := by
    intro call wanted enckey
    rw [read, read, hsame]
  refine ⟨fun hraw later wanted enckey hlater hwanted => ?_,
    fun hraw later wanted hlater hwanted => ?_⟩
  · rw [hread]
    exact h.raw hraw later wanted enckey hlater hwanted
  · rw [hread]
    exact h.packed hraw later wanted hlater hwanted

theorem Represents.update (h : Represents library state) (value : Option (List UInt8))
    (entry : Option Entry)
    (hnew : match entry with
      | none => value = none
      | some entry => entry.Readable library (Function.update state.1 name value) name) :
    Represents library
      (Function.update state.1 name value, Function.update state.2 name entry) := by
  intro other
  by_cases hother : other = name
  · subst hother
    simp only [Function.update_self]
    exact hnew
  · simp only [Function.update_of_ne hother]
    cases hentry : state.2 other with
    | none => exact h.missing hentry
    | some entry => exact (h.readable hentry).congr (Function.update_of_ne hother _ _)

end Runs

end NvStorage

end Kryptonite
