/-
Lilu's `KernelPatcher` as Kryptonite uses it (`kern_patcher.cpp`), with the
applicator through which Kryptonite calls it (`kern_patchapplicator.cpp`).

The patcher's memory is one byte string for each `kinfo` index.  What the
machine answers during one kext-load callback (symbol addresses, whether
write protection can be lifted, how far a function route gets) is a parameter.
A kernel panic, and a read that leaves the image, stop the computation; the
loops of a lookup patch never do.
-/
import Kryptonite.ByteWindow
import Kryptonite.Script
import Kryptonite.TargetKexts

namespace Kryptonite

open ByteWindow

/-- `KernelPatcher::Error`. -/
inductive Error where
  | noError
  | noKinfoFound
  | noSymbolFound
  | kernInitFailure
  | kernRunningInitFailure
  | kextListeningFailure
  | disasmFailure
  | memoryIssue
  | memoryProtection
  | pointerRange
  | alreadyDone
  | lockError
  | unsupported
  | invalidSymbolFound
deriving Repr, DecidableEq, Inhabited

/-- The functions of `FunctionHooks` that Kryptonite routes to.  A hook other
than `thunderboltShouldSkipEnumeration` owns an `…Original()` pointer. -/
inductive Hook where
  | thunderboltShouldSkipEnumeration
  | intelFBClientDoAttribute
  | intelFramebufferGetOnlineInfo
  | amd9500FindProjectByPartNumber
  | amdSupportTestVRAM
  | amdRadeonPopulateAccelConfig
  | amdAccelSharedUserClientGetTargetAndMethodForIndex
  | ioAccelSharedUserClientGetTargetAndMethodForIndex
  | atiDeviceControlNotifyLinkChange
  | amdFramebufferValidateDetailedTiming
deriving Repr, DecidableEq

/-- The `loadIndex` field of every entry of `kextList`; 0 is `Unloaded`.  Lilu
gives every kext it loads an index of its own. -/
structure LoadTable where
  index : KextEntry → Nat
  distinct : ∀ first second, index first = index second → index first ≠ 0 →
    first = second

/-- `find` and `replace` have the stated size, and no patch of Kryptonite asks
for all occurrences (`count` 0). -/
structure LookupPatch where
  kext : KextEntry
  find : List UInt8
  replace : List UInt8
  size : Nat
  count : Nat
  sizes : find.length = size ∧ replace.length = size := by decide
  counted : 0 < count := by decide
deriving DecidableEq

/-- `org` is the hook whose original pointer receives the trampoline; `none`
is a local variable of the caller. -/
structure RouteRequest where
  symbol : String
  destination : Hook
  org : Option Hook
deriving Repr, DecidableEq

/-- How far `routeFunctionInternal` gets. -/
inductive RouteFate where
  /-- A jump chain of a kind that Lilu refuses with a panic, or a patch object
  that is null or was freed. -/
  | panics
  /-- `createTrampoline` failed with this error. -/
  | noTrampoline (error : Error)
  /-- The patch objects cannot be allocated. -/
  | noPatches (trampoline : Nat)
  /-- Write protection cannot be lifted. -/
  | writeProtected (trampoline : Nat)
  /-- The jump is written.  A `created` trampoline cleared earlier errors, one
  read from a chain did not. -/
  | routed (created : Bool) (trampoline : Nat) (stores : List (Nat × List UInt8))
deriving Repr

/-- The answers of the machine during one callback. -/
structure Machine where
  /-- Symbol addresses of a `kinfo` index, 0 for a symbol it lacks; `none` for
  an index that does not exist. -/
  symbols : Nat → Option (String → Nat)
  /-- `setKernelWriting` succeeds before (`true`) and after a lookup patch. -/
  lookupWriting : LookupPatch → Bool → Bool
  /-- `setKernelWriting(true)` succeeds for the word at an address. -/
  wordWriting : Nat → Bool
  /-- Offsets of the coverage instructions that a route erases. -/
  coverage : Nat → RouteRequest → List Nat
  fate : Nat → RouteRequest → RouteFate
  hookAddress : Hook → Nat

inductive Halt where
  /-- `PANIC_COND` of `solveSymbol`. -/
  | addressOutOfRange (address : Nat)
  /-- `PANIC` of `routeFunctionInternal`, or a step of it without a defined
  result. -/
  | jumpChain
  /-- Memory that no image holds was read. -/
  | outOfImage (address : Nat)
deriving Repr, DecidableEq

/-- A running image. -/
structure Image where
  address : Nat
  bytes : List UInt8
deriving Repr, DecidableEq, Inhabited

namespace Image

def ending (image : Image) : Nat := image.address + image.bytes.length

def store (image : Image) (address : Nat) (bytes : List UInt8) : Image :=
  { image with bytes := overwrite (address - image.address) bytes image.bytes }

end Image

/-- What Kryptonite asks of the patcher. -/
inductive Submission where
  | lookup (patch : LookupPatch)
  | route (index : Nat) (request : RouteRequest)
deriving DecidableEq

/-- The patcher, the images it can write, and Kryptonite's statics.  `calls`
records what was asked of the patcher. -/
structure Kernel where
  code : Error
  images : Nat → Image
  routes : List (Nat × RouteRequest)
  orgs : Hook → Nat
  calls : List Submission
  log : List String

abbrev PatcherM := EStateM Halt Kernel

def syslog (origin text : String) : PatcherM Unit :=
  modify fun s => { s with log := s.log ++ [origin ++ ": " ++ text] }

def submit (call : Submission) : PatcherM Unit :=
  modify fun s => { s with calls := s.calls ++ [call] }

def imageAt (index : Nat) : PatcherM Image := do
  return (← get).images index

def originalOf (hook : Hook) : PatcherM Nat := do
  return (← get).orgs hook

def updateImage (index : Nat) (f : Image → Image) : PatcherM Unit :=
  modify fun s => { s with
    images := fun other => if other = index then f (s.images other) else s.images other }

namespace KernelPatcher

def getError : PatcherM Error := do
  return (← get).code

def setError (code : Error) : PatcherM Unit :=
  modify fun s => { s with code := code }

def clearError : PatcherM Unit := setError .noError

variable (loads : LoadTable) (machine : Machine)

section Lookup

/-- The inner loop: from `current` on, at most `remaining` further positions,
to the first occurrence.  A `memcmp` that needs bytes behind the image has no
result. -/
def seek (find bytes : List UInt8) : Nat → Nat → Option Nat
  | 0, current => some current
  | remaining + 1, current =>
      if bytes.length < current + find.length then none
      else if window current find.length bytes = find then some current
      else seek find bytes remaining (current + 1)

/-- The outer loop with its `changes` counter.  A replaced occurrence is not
stepped over. -/
def patchLoop (patch : LookupPatch) (ending : Nat) :
    Nat → List UInt8 → Nat → Nat → Option (List UInt8 × Nat)
  | 0, bytes, _, changes => some (bytes, changes)
  | rounds + 1, bytes, current, changes =>
      if current < ending then do
        let found ← seek patch.find bytes (ending - current) current
        if found ≠ ending then
          patchLoop patch ending rounds (overwrite found patch.replace bytes) found
            (changes + 1)
        else
          patchLoop patch ending rounds bytes found changes
      else
        some (bytes, changes)

def lookupPatched (patch : LookupPatch) (bytes : List UInt8) : Option (List UInt8 × Nat) :=
  patchLoop patch (bytes.length - patch.size) patch.count bytes 0 0

/-- The loops over the running image of an index, and their `changes`. -/
def patchImage (index : Nat) (patch : LookupPatch) : PatcherM Nat := do
  let image ← imageAt index
  match lookupPatched patch image.bytes with
  | none => throw (.outOfImage image.ending)
  | some (bytes, changes) => do
      updateImage index fun _ => { image with bytes := bytes }
      return changes

def applyLookupPatch (patch : LookupPatch) : PatcherM Unit := do
  submit (.lookup patch)
  if loads.index patch.kext = 0 then
    syslog "patcher" "an invalid lookup patch provided"
    setError .memoryIssue
  else if ¬ machine.lookupWriting patch true then
    syslog "patcher" "lookup patching failed to write to kernel"
    setError .memoryProtection
  else
    let changes ← patchImage (loads.index patch.kext) patch
    if ¬ machine.lookupWriting patch false then
      syslog "patcher" "lookup patching failed to disable kernel writing"
      setError .memoryProtection
    else if changes ≠ patch.count then
      setError .memoryIssue

end Lookup

section Route

def solveSymbol (id : Nat) (symbol : String) : PatcherM Nat :=
  match machine.symbols id with
  | none => do
      syslog "patcher" ("invalid kinfo id " ++ toString id ++ " for " ++ symbol ++
        " symbol lookup")
      setError .noSymbolFound
      return 0
  | some addresses => do
      if addresses symbol = 0 then
        setError .noSymbolFound
      return addresses symbol

/-- The overload with an address range; `crash` turns an address outside it
into a panic. -/
def solveSymbolInRange (id : Nat) (symbol : String) (start size : Nat)
    (crash : Bool) : PatcherM Nat := do
  let address ← solveSymbol machine id symbol
  if address = 0 then
    return 0
  else if start ≤ address ∧ address < start + size then
    return address
  else
    setError .invalidSymbolFound
    if crash then
      throw (.addressOutOfRange address)
    return 0

/-- The seven bytes of a coverage counter become `nop`s. -/
def eraseCoverageInstPrefix (id : Nat) (request : RouteRequest) : PatcherM Unit :=
  (machine.coverage id request).forM fun address =>
    updateImage id fun image => image.store address (List.replicate 7 0x90)

def setOrg (org : Option Hook) (trampoline : Nat) : PatcherM Unit :=
  modify fun s => { s with
    orgs := fun hook => if some hook = org then trampoline else s.orgs hook }

def einval : Nat := 22

/-- The original pointer is written before the jump. -/
def writeRoute (id : Nat) (request : RouteRequest) (trampoline : Nat)
    (stores : List (Nat × List UInt8)) : PatcherM Unit := do
  setOrg request.org trampoline
  stores.forM fun (address, bytes) =>
    updateImage id fun image => image.store address bytes
  modify fun s => { s with routes := s.routes ++ [(id, request)] }

/-- The returned wrapper address; `EINVAL` is not 0, so a failed route returns
something that looks like a wrapper. -/
def routeFunctionInternal (id : Nat) (request : RouteRequest) : PatcherM Nat :=
  match machine.fate id request with
  | .panics => throw .jumpChain
  | .noTrampoline error => do
      setError error
      return einval
  | .noPatches trampoline => do
      setOrg request.org trampoline
      syslog "patcher" "cannot create the necessary patches"
      setError .memoryIssue
      return einval
  | .writeProtected trampoline => do
      setOrg request.org trampoline
      syslog "patcher" "cannot change kernel memory protection"
      setError .memoryProtection
      return einval
  | .routed true trampoline stores => do
      clearError
      writeRoute id request trampoline stores
      return trampoline
  | .routed false trampoline stores => do
      writeRoute id request trampoline stores
      return trampoline

/-- The `from` address of a request. -/
def solveRequest (id : Nat) (request : RouteRequest) (start size : Nat) : PatcherM Nat :=
  if start ≠ 0 ∨ size ≠ 0 then
    solveSymbolInRange machine id request.symbol start size true
  else
    solveSymbol machine id request.symbol

def reportFailure (verb : String) (request : RouteRequest) : PatcherM Unit := do
  let error ← getError
  syslog "patcher" ("failed to " ++ verb ++ " " ++ request.symbol ++ ", err " ++
    toString error.ctorIdx)
  clearError

/-- `routeMultiple` for one request: whether it reports success, and the
`from` address it leaves in the request. -/
def routeMultiple (id : Nat) (request : RouteRequest) (start size : Nat) :
    PatcherM (Bool × Nat) := do
  submit (.route id request)
  let source ← solveRequest machine id request start size
  if source = 0 then
    reportFailure "solve" request
    return (false, 0)
  else
    eraseCoverageInstPrefix machine id request
    let wrapper ← routeFunctionInternal machine id request
    if wrapper = 0 then
      reportFailure "wrap" request
      return (false, source)
    else
      return (true, source)

end Route

end KernelPatcher

namespace PatchApplicator

open KernelPatcher

variable (loads : LoadTable) (machine : Machine)

def applyLookupPatch (patch : LookupPatch) (patchName : String) : PatcherM Unit := do
  let target := (kextInfo patch.kext).id
  syslog "patchapp" ("Applying " ++ patchName ++ " on " ++ target ++ "...")
  KernelPatcher.applyLookupPatch loads machine patch
  let error ← getError
  if error ≠ .noError then
    syslog "patchapp" ("Skipping failed " ++ patchName ++ " on " ++ target ++
      " (error " ++ toString error.ctorIdx ++ ").")
    clearError
  else
    syslog "patchapp" ("Applied " ++ patchName ++ " on " ++ target ++ ".")

/-- Returns the request's `from` address, which callers look at. -/
def applyRoutingPatch (index : Nat) (request : RouteRequest) (address size : Nat)
    (patchName : String) : PatcherM Nat := do
  syslog "patchapp" ("Applying route " ++ patchName ++ "...")
  let (routed, source) ← routeMultiple machine index request address size
  let error ← getError
  if routed = false ∨ error ≠ .noError then
    syslog "patchapp" ("Skipping failed route " ++ patchName ++ " (routed " ++
      (if routed then "1" else "0") ++ ", error " ++ toString error.ctorIdx ++ ").")
    clearError
    return source
  else
    syslog "patchapp" ("Applied route " ++ patchName ++ " from " ++ toString source ++
      " to " ++ toString (machine.hookAddress request.destination) ++ ".")
    return source

end PatchApplicator

end Kryptonite
