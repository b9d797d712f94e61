/-
The patch functions (`kern_patches.cpp`).  Each is a guard followed by calls of
the applicator.  The bytes and symbols are named apart from the functions that
submit them.
-/
import Kryptonite.BootArgs
import Kryptonite.KernelPatcher

namespace Kryptonite

open ByteWindow KernelPatcher

/-- What is fixed while the machine is up: the parsed boot arguments, the
Darwin version and Lilu's load indices. -/
structure Boot where
  args : NVRAMArgs
  major : Nat
  minor : Nat
  loads : LoadTable

/-- `Patches::init` on a machine. -/
def Boot.init (args : BootArgs) (major minor : Nat) (loads : LoadTable) : Boot :=
  ⟨NVRAMArgs.init args, major, minor, loads⟩

/-- One kext-load callback, with the machine's answers during it. -/
structure KextLoad where
  index : Nat
  address : Nat
  size : Nat
  machine : Machine

namespace KernelVersion

def highSierra : Nat := 17

def mojave : Nat := 18

def catalina : Nat := 19

def sequoia : Nat := 24

end KernelVersion

namespace Compatibility

def oldVersion : Nat := KernelVersion.catalina

def oldMinorVersion : Nat := 1

def olderKernel (boot : Boot) : Bool :=
  boot.major < oldVersion || (boot.major == oldVersion && boot.minor < oldMinorVersion)

def isOlderKernel (boot : Boot) : PatcherM Bool := do
  syslog "compat" ("Is older kernel: " ++ if olderKernel boot then "1" else "0")
  return olderKernel boot

def isSequoiaForced (boot : Boot) : PatcherM Bool := do
  syslog "compat" ("Is Sequoia forced: " ++
    if boot.args.shouldForceSequoia then "1" else "0")
  return boot.args.shouldForceSequoia

end Compatibility

namespace Patches

section Guards

variable (args : NVRAMArgs) (patchName : String)

def shouldSkipPatch (skipToggle : Bool) : PatcherM Bool := do
  if args.isProbeMode then
    syslog "patches" ("Probe mode enabled, skipping " ++ patchName ++ ".")
    return true
  else if args.shouldSkipAllPatches then
    syslog "patches" ("Global skip enabled, skipping " ++ patchName ++ ".")
    return true
  else if skipToggle then
    syslog "patches" ("Patch toggle disabled " ++ patchName ++ ".")
    return true
  else
    return false

/-- The guard that the feature patches repeat: silent while the feature is not
asked for. -/
def shouldSkipFeature (asked : Bool) : PatcherM Bool := do
  if asked = false then
    return true
  else if args.isProbeMode then
    syslog "patches" ("Probe mode enabled, skipping " ++ patchName ++ ".")
    return true
  else if args.shouldSkipAllPatches then
    syslog "patches" ("Global skip enabled, skipping " ++ patchName ++ ".")
    return true
  else
    return false

def shouldSkipAMDCompatibilityPatch : PatcherM Bool :=
  shouldSkipFeature args patchName
    (args.isAMD && args.shouldEnableAMDCompatibilityPatch)

end Guards

section Bytes

/-- `IOThunderboltSwitchType` with its last character. -/
def switchType (last : UInt8) : List UInt8 :=
  [0x49, 0x4f, 0x54, 0x68, 0x75, 0x6e, 0x64, 0x65, 0x72, 0x62, 0x6f, 0x6c, 0x74, 0x53,
    0x77, 0x69, 0x74, 0x63, 0x68, 0x54, 0x79, 0x70, 0x65, last]

/-- `cmpq $type,%rax ; jb +0x0a ; movq (%r14),%rax ; movb $0x1,0x178(%rax)`. -/
def sequoiaThreshold (type : UInt8) : List UInt8 :=
  [0x48, 0x83, 0xf8, type, 0x72, 0x0a, 0x49, 0x8b, 0x06, 0xc6, 0x80, 0x78, 0x01, 0x00,
    0x00, 0x01]

def defaultThreshold (type : UInt8) : List UInt8 :=
  [0xf8, type, 0x0f, 0x82, 0x78, 0xff, 0xff, 0xff, 0x49, 0x8b, 0x06, 0xc6, 0x80, 0x78,
    0x01, 0x00]

def tbMinType (args : NVRAMArgs) : UInt8 :=
  if args.isThunderbolt1 then 0x01 else if args.isThunderbolt2 then 0x02 else 0x03

def tbSwitchTypeChar (args : NVRAMArgs) : UInt8 :=
  if args.isThunderbolt1 then 0x31 else if args.isThunderbolt2 then 0x32 else 0x33

/-- The arrays of the source are local to the branches and gone when the patch is
applied; here their bytes are taken to be still there. -/
def legacyThunderboltPatch (boot : Boot) (kext : KextEntry) : LookupPatch :=
  if Compatibility.olderKernel boot then
    { kext, find := switchType 0x33, replace := switchType (tbSwitchTypeChar boot.args)
      size := 24, count := 1, sizes := ⟨rfl, rfl⟩ }
  else if boot.major = KernelVersion.sequoia then
    { kext, find := sequoiaThreshold 0x03, replace := sequoiaThreshold (tbMinType boot.args)
      size := 16, count := 1, sizes := ⟨rfl, rfl⟩ }
  else
    { kext, find := defaultThreshold 0x03, replace := defaultThreshold 0x00
      size := 16, count := 1 }

/-- `IOPCITunnelled` becomes `IOPCITunnelleq`. -/
def pciTunnelledPatch (kext : KextEntry) : LookupPatch where
  kext := kext
  find := [0x49, 0x4f, 0x50, 0x43, 0x49, 0x54, 0x75, 0x6e, 0x6e, 0x65, 0x6c, 0x6c, 0x65,
    0x64]
  replace := [0x49, 0x4f, 0x50, 0x43, 0x49, 0x54, 0x75, 0x6e, 0x6e, 0x65, 0x6c, 0x6c,
    0x65, 0x71]
  size := 14
  count := 1

/-- vit9696: disable board-id compare mode. -/
def vitPatch (kext : KextEntry) : LookupPatch where
  kext := kext
  find := [0xBA, 0x05, 0x00, 0x00, 0x00]
  replace := [0xBA, 0x00, 0x00, 0x00, 0x00]
  size := 5
  count := 1

/-- pikera: `board-id` becomes `board-ix`. -/
def pikPatch (kext : KextEntry) : LookupPatch where
  kext := kext
  find := [0x62, 0x6f, 0x61, 0x72, 0x64, 0x2d, 0x69, 0x64]
  replace := [0x62, 0x6f, 0x61, 0x72, 0x64, 0x2d, 0x69, 0x78]
  size := 8
  count := 1

/-- The call and test are kept; `je` to `displacement` becomes `jmp`. -/
def tunnelCompatiblePatch (kext : KextEntry) (displacement : UInt8) : LookupPatch where
  kext := kext
  find := [0xff, 0x90, 0xa8, 0x02, 0x00, 0x00, 0x48, 0x85, 0xc0, 0x0f, 0x84, displacement,
    0x00, 0x00, 0x00]
  replace := [0xff, 0x90, 0xa8, 0x02, 0x00, 0x00, 0x48, 0x85, 0xc0, 0x48, 0xe9,
    displacement, 0x00, 0x00, 0x00]
  size := 15
  count := 1
  sizes := ⟨rfl, rfl⟩

/-- As in `legacyThunderboltPatch`, the arrays local to the branches are taken to
be still there. -/
def ioPCITunnelPatch (boot : Boot) (kext : KextEntry) : LookupPatch :=
  if boot.major = KernelVersion.highSierra ∨ boot.major = KernelVersion.mojave then
    tunnelCompatiblePatch kext 0xbc
  else if boot.major = KernelVersion.sequoia then
    tunnelCompatiblePatch kext 0xd1
  else
    tunnelCompatiblePatch kext 0xb9

/-- `FA4CE28D-B62F-4C99-9CC3-6815686E30F9:gpu-power-pref` with its last
character. -/
def gpuPowerPref (last : UInt8) : List UInt8 :=
  [0x46, 0x41, 0x34, 0x43, 0x45, 0x32, 0x38, 0x44, 0x2d, 0x42, 0x36, 0x32, 0x46, 0x2d,
    0x34, 0x43, 0x39, 0x39, 0x2d, 0x39, 0x43, 0x43, 0x33, 0x2d, 0x36, 0x38, 0x31,
    0x35, 0x36, 0x38, 0x36, 0x45, 0x33, 0x30, 0x46, 0x39, 0x3a, 0x67, 0x70, 0x75,
    0x2d, 0x70, 0x6f, 0x77, 0x65, 0x72, 0x2d, 0x70, 0x72, 0x65, 0x66, last]

def muxControlPatch (kext : KextEntry) : LookupPatch where
  kext := kext
  find := gpuPowerPref 0x73
  replace := gpuPowerPref 0x71
  size := 52
  count := 1

/-- The example patch that `kryfsequoia` turns on. -/
def sequoiaPatch (kext : KextEntry) : LookupPatch where
  kext := kext
  find := [0x08, 0x00, 0x00, 0x00, 0x48, 0x04, 0x00, 0x00]
  replace := [0x09, 0x00, 0x00, 0x00, 0x30, 0x05, 0x00, 0x00]
  size := 8
  count := 1

/-- `--RRRRRRRRRRGGGGGGGGGGBBBBBBBBBB` becomes
`--------RRRRRRRRGGGGGGGGBBBBBBBB`. -/
def maskPatch (kext : KextEntry) : LookupPatch where
  kext := kext
  find := List.replicate 2 0x2d ++ List.replicate 10 0x52 ++ List.replicate 10 0x47 ++
    List.replicate 10 0x42
  replace := List.replicate 8 0x2d ++ List.replicate 8 0x52 ++ List.replicate 8 0x47 ++
    List.replicate 8 0x42
  size := 32
  count := 2

def bitsPatch (kext : KextEntry) : LookupPatch where
  kext := kext
  find := [0x05, 0x00, 0x00, 0x00, 0x08, 0x00, 0x00, 0x00, 0x0A, 0x00, 0x00, 0x00,
    0x10, 0x00, 0x00, 0x00, 0x10, 0x00, 0x00, 0x00]
  replace := [0x05, 0x00, 0x00, 0x00, 0x08, 0x00, 0x00, 0x00, 0x08, 0x00, 0x00, 0x00,
    0x10, 0x00, 0x00, 0x00, 0x10, 0x00, 0x00, 0x00]
  size := 20
  count := 2

def surfacePlanePatch (kext : KextEntry) : LookupPatch where
  kext := kext
  find := [0x41, 0x83, 0xbd, 0xb0, 0x00, 0x00, 0x00, 0x00, 0x74, 0x5c]
  replace := [0x45, 0x85, 0xe4, 0x74, 0x61, 0x85, 0xc9, 0x74, 0x5d, 0x90]
  size := 10
  count := 1

end Bytes

section Requests

def vendorRequest : RouteRequest where
  symbol := "__ZN20IntelFBClientControl24vendor_doDeviceAttributeEjPmmS0_S0_P25IOExternalMethodArguments"
  destination := .intelFBClientDoAttribute
  org := some .intelFBClientDoAttribute

def legacyRequest : RouteRequest where
  symbol := "__ZN20IntelFBClientControl11doAttributeEjPmmS0_S0_P25IOExternalMethodArguments"
  destination := .intelFBClientDoAttribute
  org := some .intelFBClientDoAttribute

def onlineInfoRequest : RouteRequest where
  symbol := "__ZN21AppleIntelFramebuffer13GetOnlineInfoEPhS0_PNS_15DisplayPortTypeEPbb"
  destination := .intelFramebufferGetOnlineInfo
  org := some .intelFramebufferGetOnlineInfo

def projectRequest : RouteRequest where
  symbol := "__ZN17AMD9500Controller23findProjectByPartNumberEP20ControllerProperties"
  destination := .amd9500FindProjectByPartNumber
  org := some .amd9500FindProjectByPartNumber

def testVRAMRequest : RouteRequest where
  symbol := "__ZN13ATIController8TestVRAME13PCI_REG_INDEXb"
  destination := .amdSupportTestVRAM
  org := some .amdSupportTestVRAM

def accelConfigRequest : RouteRequest where
  symbol := "__ZN37AMDRadeonX4000_AMDGraphicsAccelerator19populateAccelConfigEP13IOAccelConfig"
  destination := .amdRadeonPopulateAccelConfig
  org := some .amdRadeonPopulateAccelConfig

def amdSharedUserClientRequest : RouteRequest where
  symbol := "__ZN39AMDRadeonX4000_AMDAccelSharedUserClient26getTargetAndMethodForIndexEPP9IOServicej"
  destination := .amdAccelSharedUserClientGetTargetAndMethodForIndex
  org := some .amdAccelSharedUserClientGetTargetAndMethodForIndex

def ioAccelSharedUserClientRequest : RouteRequest where
  symbol := "__ZN24IOAccelSharedUserClient226getTargetAndMethodForIndexEPP9IOServicej"
  destination := .ioAccelSharedUserClientGetTargetAndMethodForIndex
  org := some .ioAccelSharedUserClientGetTargetAndMethodForIndex

def linkChangeRequest : RouteRequest where
  symbol := "__ZN16AtiDeviceControl16notifyLinkChangeE31kAGDCRegisterLinkControlEvent_tmj"
  destination := .atiDeviceControlNotifyLinkChange
  org := some .atiDeviceControlNotifyLinkChange

def detailedTimingRequest : RouteRequest where
  symbol := "__ZN14AMDFramebuffer22validateDetailedTimingEPvy"
  destination := .amdFramebufferValidateDetailedTiming
  org := some .amdFramebufferValidateDetailedTiming

def skipEnumerationRequest : RouteRequest where
  symbol := "__ZN24IOThunderboltSwitchType321shouldSkipEnumerationEv"
  destination := .thunderboltShouldSkipEnumeration
  org := none

end Requests

variable (boot : Boot) (load : KextLoad) (kext : KextEntry)

section Lookups

def applyLookup (patch : LookupPatch) (patchName : String) : PatcherM Unit :=
  PatchApplicator.applyLookupPatch boot.loads load.machine patch patchName

def unblockLegacyThunderbolt : PatcherM Unit := do
  if boot.args.isAMD then
    unless ← shouldSkipPatch boot.args "unblockLegacyThunderbolt"
        boot.args.shouldSkipAGDCPatch do
      let older ← Compatibility.isOlderKernel boot
      if older = false ∧ boot.major = KernelVersion.sequoia then
        syslog "patches" ("Sequoia AGDC threshold patch using krytbtv=" ++
          toString (tbMinType boot.args) ++ ".")
      applyLookup boot load (legacyThunderboltPatch boot kext) "unblockLegacyThunderbolt"

def bypassPCITunnelled : PatcherM Unit := do
  if boot.args.isNVDA || boot.args.isAMD then
    unless ← shouldSkipPatch boot.args "bypassPCITunnelled"
        boot.args.shouldSkipIOGFXPatch do
      applyLookup boot load (pciTunnelledPatch kext) "bypassPCITunnelled"

def relaxGraphicsDevicePolicy : PatcherM Unit := do
  if boot.args.isNVDA || boot.args.isAMD then
    unless ← shouldSkipPatch boot.args "relaxGraphicsDevicePolicy"
        boot.args.shouldSkipAGDPPatch do
      applyLookup boot load (vitPatch kext) "relaxGraphicsDevicePolicy-vit9696"
      applyLookup boot load (pikPatch kext) "relaxGraphicsDevicePolicy-pikera"

def bypassIOPCITunnelCompatible : PatcherM Unit := do
  unless ← shouldSkipPatch boot.args "bypassIOPCITunnelCompatible"
      boot.args.shouldSkipIOPCIPatch do
    applyLookup boot load (ioPCITunnelPatch boot kext) "bypassIOPCITunnelCompatible"

def updateMuxControlNVRAMVar : PatcherM Unit := do
  unless ← shouldSkipPatch boot.args "updateMuxControlNVRAMVar"
      boot.args.shouldSkipMuxPatch do
    applyLookup boot load (muxControlPatch kext) "updateMuxControlNVRAMVar"

def applySequoiaPatch : PatcherM Unit := do
  unless ← shouldSkipPatch boot.args "applySequoiaPatch"
      boot.args.shouldSkipSequoiaPatch do
    if ← Compatibility.isSequoiaForced boot then
      syslog "Kryptonite" "Applying Sequoia-specific patch..."
      applyLookup boot load (sequoiaPatch kext) "applySequoiaPatch"
    else
      syslog "Kryptonite" "Skipping Sequoia patch because kryfsequoia is not set."

def guardAMDIOSurfacePlaneInfo : PatcherM Unit := do
  unless ← shouldSkipFeature boot.args "guardAMDIOSurfacePlaneInfo"
      (boot.args.isAMD && boot.args.shouldEnableAMDIOSurfaceGuard) do
    applyLookup boot load (surfacePlanePatch kext) "guardAMDIOSurfacePlaneInfo"

/-- `*bitsPerComponent = 8` where write protection can be lifted. -/
def normaliseWord (address : Nat) : PatcherM Unit := do
  if load.machine.wordWriting address then
    syslog "patches" "Normalising AMD BITS_PER_COMPONENT from 10 to 8."
    updateImage load.index fun image => image.store address [8, 0, 0, 0]
  else
    syslog "patches" "Failed to disable write protection for AMD BITS_PER_COMPONENT."
    clearError

/-- The `while` loop over the words of `BITS_PER_COMPONENT` up to a zero word.
The first argument counts the whole words left in the image: the source has no
such bound, and past the image nothing is known about the memory. -/
def scanBitsPerComponent : Nat → Nat → PatcherM Unit
  | 0, address => throw (.outOfImage address)
  | words + 1, address => do
      let image ← imageAt load.index
      let word := window (address - image.address) 4 image.bytes
      if word ≠ [0, 0, 0, 0] then
        if word = [10, 0, 0, 0] then
          normaliseWord load address
        scanBitsPerComponent words (address + 4)

def amdBitsPerComponentSymbol : String := "__ZL18BITS_PER_COMPONENT"

/-- The first half of `forceAMD24BitOutput`. -/
def normaliseBitsPerComponent : PatcherM Unit := do
  let bitsPerComponent ← solveSymbolInRange load.machine load.index
    amdBitsPerComponentSymbol load.address load.size false
  if bitsPerComponent ≠ 0 then
    let image ← imageAt load.index
    if bitsPerComponent < image.address then
      throw (.outOfImage bitsPerComponent)
    else
      scanBitsPerComponent load ((image.ending - bitsPerComponent) / 4)
        bitsPerComponent
  else
    syslog "patches" "Failed to resolve AMD BITS_PER_COMPONENT symbol."
    clearError

def forceAMD24BitOutput : PatcherM Unit := do
  unless ← shouldSkipFeature boot.args "forceAMD24BitOutput"
      (boot.args.isAMD && boot.args.shouldEnableAMD24BitOutputClamp) do
    normaliseBitsPerComponent load
    applyLookup boot load (maskPatch kext) "forceAMD24BitOutput"
    applyLookup boot load (bitsPatch kext) "forceAMD24BitOutput-bits"

end Lookups

section Routes

/-- Returns the request's `from` address. -/
def applyRoute (request : RouteRequest) (patchName : String) : PatcherM Nat :=
  PatchApplicator.applyRoutingPatch load.machine load.index request load.address
    load.size patchName

def applyOnlyRoute (request : RouteRequest) (patchName : String) : PatcherM Unit := do
  let _ ← applyRoute load request patchName
  return ()

/-- A feature that consists of one route. -/
def routeFeature (patchName : String) (asked : Bool) (request : RouteRequest) :
    PatcherM Unit := do
  unless ← shouldSkipFeature boot.args patchName asked do
    applyOnlyRoute load request patchName

/-- The legacy route is tried unless the vendor symbol was found and an
original pointer is there. -/
def disableIntelFramebufferAGDC : PatcherM Unit := do
  unless ← shouldSkipFeature boot.args "disableIntelFramebufferAGDC"
      boot.args.shouldEnableIntelAGDCDisabler do
    let source ← applyRoute load vendorRequest "disableIntelFramebufferAGDC-vendor"
    let original ← originalOf .intelFBClientDoAttribute
    unless source ≠ 0 ∧ original ≠ 0 do
      clearError
      applyOnlyRoute load legacyRequest "disableIntelFramebufferAGDC-legacy"

def forceIntelFramebufferOnlineDisplays : PatcherM Unit :=
  routeFeature boot load "forceIntelFramebufferOnlineDisplays"
    boot.args.shouldEnableIntelForceOnline onlineInfoRequest

/-- `shouldSkipAMDCompatibilityPatch` is the same guard. -/
def routeCompatibility (patchName : String) (request : RouteRequest) :
    PatcherM Unit := do
  unless ← shouldSkipAMDCompatibilityPatch boot.args patchName do
    applyOnlyRoute load request patchName

def bypassAMDProjectSelection : PatcherM Unit :=
  routeCompatibility boot load "bypassAMDProjectSelection" projectRequest

def skipAMDVRAMTest : PatcherM Unit :=
  routeCompatibility boot load "skipAMDVRAMTest" testVRAMRequest

def stabiliseAMDAccelConfig : PatcherM Unit :=
  routeCompatibility boot load "stabiliseAMDAccelConfig" accelConfigRequest

def relaxAMDSharedUserClientOutputSizing : PatcherM Unit :=
  routeFeature boot load "relaxAMDSharedUserClientOutputSizing"
    (boot.args.isAMD && boot.args.shouldEnableAMDSharedUserClientVariableOutput)
    amdSharedUserClientRequest

def relaxIOAccelSharedUserClientOutputSizing : PatcherM Unit :=
  routeFeature boot load "relaxIOAccelSharedUserClientOutputSizing"
    (boot.args.isAMD && boot.args.shouldEnableAMDSharedUserClientVariableOutput)
    ioAccelSharedUserClientRequest

def validateAMDDetailedTiming : PatcherM Unit :=
  routeFeature boot load "validateAMDDetailedTiming"
    (boot.args.isAMD && boot.args.shouldEnableAMDLinkValidationPatch) linkChangeRequest

def relaxAMDFramebufferTimingValidation : PatcherM Unit :=
  routeFeature boot load "relaxAMDFramebufferTimingValidation"
    (boot.args.isAMD && boot.args.shouldEnableAMDFramebufferValidationPatch)
    detailedTimingRequest

def routeThunderboltEnumeration : PatcherM Unit := do
  unless ← shouldSkipPatch boot.args "routeThunderboltEnumeration"
      boot.args.shouldSkipTBRoutePatch do
    if boot.args.skipThunderboltEnum then
      applyOnlyRoute load skipEnumerationRequest "routeThunderboltEnumeration"
    else
      syslog "Kryptonite"
        "Skipping Thunderbolt enumeration patch because skipthunderboltenum is not set."

end Routes

end Patches

end Kryptonite
