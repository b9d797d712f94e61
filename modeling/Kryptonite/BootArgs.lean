/-
Boot arguments and the switches Kryptonite reads from them
(`kern_nvramargs.cpp`).  The kernel's boot-argument parser is outside the
repository; it is a function of the name it is asked for, so that asking twice
gives the same answer.
-/
import Mathlib.Data.List.Nodup

namespace Kryptonite

/-- The answers of `PE_parse_boot_argn` for one boot-argument line. -/
structure BootArgs where
  /-- Parsed into an `int`: the value left there, if the name was found. -/
  argInt : String → Option Int
  /-- Parsed into a character buffer: the C string left there. -/
  argString : String → Option String
  /-- Parsed into Lilu's scratch buffer: whether the name was found. -/
  argFlag : String → Bool

namespace BootArgs

def checkKernelArgument (args : BootArgs) (name : String) : Bool :=
  args.argFlag name

def parseBooleanBootArg (args : BootArgs) (name : String) : Bool :=
  match args.argInt name with
  | some intValue => intValue != 0
  | none => args.checkKernelArgument name

/-- The same line with `name=1` or `name=0` in place of what it said about
`name`. -/
def withFlag (args : BootArgs) (name : String) (value : Bool) : BootArgs :=
  { args with
    argInt := fun other =>
      if other = name then some (if value then 1 else 0) else args.argInt other }

@[simp] theorem parseBooleanBootArg_withFlag (args : BootArgs)
    (name other : String) (value : Bool) :
    (args.withFlag name value).parseBooleanBootArg other =
      if other = name then value else args.parseBooleanBootArg other := by
  by_cases hother : other = name
  · cases value <;> simp [parseBooleanBootArg, withFlag, hother]
  · simp [parseBooleanBootArg, withFlag, hother, checkKernelArgument]

theorem argInt_withFlag (args : BootArgs) {name other : String} (hother : other ≠ name)
    (value : Bool) : (args.withFlag name value).argInt other = args.argInt other := by
  simp only [withFlag, if_neg hother]

end BootArgs

/-- The switches that `getPatchControls` parses, in the order it parses
them. -/
inductive Toggle where
  | probe
  | skipAll
  | intelAGDC
  | intelForceOnline
  | amdCompatibility
  | amdSharedUserClientVariableOutput
  | amdAccelPrime
  | amdLink
  | amdFramebufferValidation
  | amd24BitOutput
  | amdIOSurfaceGuard
  | skipAGDC
  | skipAGDP
  | skipIOGFX
  | skipIOPCI
  | skipMux
  | skipTBRoute
  | skipSequoia
deriving Repr, DecidableEq

namespace Toggle

def all : List Toggle :=
  [.probe, .skipAll, .intelAGDC, .intelForceOnline, .amdCompatibility,
    .amdSharedUserClientVariableOutput, .amdAccelPrime, .amdLink,
    .amdFramebufferValidation, .amd24BitOutput, .amdIOSurfaceGuard, .skipAGDC,
    .skipAGDP, .skipIOGFX, .skipIOPCI, .skipMux, .skipTBRoute, .skipSequoia]

theorem mem_all (toggle : Toggle) : toggle ∈ all := by
  cases toggle <;> decide

/-- What differs along the list of the switches differs for any two of them. -/
theorem injective_of_nodup {α : Type} {f : Toggle → α} (h : (all.map f).Nodup) :
    Function.Injective f :=
  fun first second heq => List.inj_on_of_nodup_map h (mem_all first) (mem_all second) heq

/-- The boot argument behind a switch. -/
def arg : Toggle → String
  | .probe => "kryprobe"
  | .skipAll => "kryskipall"
  | .intelAGDC => "kryigfxagdc"
  | .intelForceOnline => "kryigfxonln"
  | .amdCompatibility => "kryamdcompat"
  | .amdSharedUserClientVariableOutput => "kryamdshmvar"
  | .amdAccelPrime => "kryamdaccelprime"
  | .amdLink => "kryamdlink"
  | .amdFramebufferValidation => "kryamdfbval"
  | .amd24BitOutput => "kryrad24"
  | .amdIOSurfaceGuard => "kryamdsurfguard"
  | .skipAGDC => "kryskipagdc"
  | .skipAGDP => "kryskipagdp"
  | .skipIOGFX => "kryskipiogfx"
  | .skipIOPCI => "kryskipiopci"
  | .skipMux => "kryskipmux"
  | .skipTBRoute => "kryskiptbroute"
  | .skipSequoia => "kryskipseq"

theorem arg_injective : Function.Injective arg := injective_of_nodup (by decide)

/-- What the log says about a switch that is on, after the argument's name. -/
def effect : Toggle → String
  | .probe => "patch writes/routing disabled."
  | .skipAll => "all Kryptonite patches disabled."
  | .intelAGDC => "routing Intel framebuffer AGDC callback disabler."
  | .intelForceOnline => "forcing Intel framebuffer display status online."
  | .amdCompatibility => "applying Polaris compatibility hardening patches."
  | .amdSharedUserClientVariableOutput =>
      "relaxing AMD shared user-client structure output sizing."
  | .amdAccelPrime => "forcing AMD accelerator/HWServices reprobe hooks."
  | .amdLink => "normalising AMD AGDC detailed timing validation."
  | .amdFramebufferValidation => "relaxing AMDFramebuffer timing validation."
  | .amd24BitOutput => "forcing Radeon 24-bit output masks."
  | .amdIOSurfaceGuard =>
      "guarding Radeon IOSurface plane metrics against zero divisors."
  | .skipAGDC => "skipping AppleGPUWrangler patch."
  | .skipAGDP => "skipping AppleGraphicsDevicePolicy patch."
  | .skipIOGFX => "skipping IOGraphicsFamily patch."
  | .skipIOPCI => "skipping IOPCIFamily patch."
  | .skipMux => "skipping AppleMuxControl patch."
  | .skipTBRoute => "skipping Thunderbolt route patch."
  | .skipSequoia => "skipping Sequoia-specific patch."

/-- The log line that announces a switch. -/
def announcement (toggle : Toggle) : String :=
  toggle.arg ++ " enabled: " ++ toggle.effect

theorem announcement_injective : Function.Injective announcement :=
  injective_of_nodup (by decide +kernel)

end Toggle

/-- The statics of `NVRAMArgs` after `init`. -/
structure NVRAMArgs where
  bootArgs : BootArgs
  gpu : String
  tbtVersion : Int
  sequoiaForce : Bool
  control : Toggle → Bool

namespace NVRAMArgs

def gpuArg : String := "krygpu"

def amd : String := "AMD"

def nvda : String := "NVDA"

def tbtVersionArg : String := "krytbtv"

def sequoiaForceArg : String := "kryfsequoia"

/-- `gpu` is a zeroed static, so an absent argument leaves the empty string. -/
def getGPU (args : BootArgs) : String × List String :=
  match args.argString gpuArg with
  | none => ("", ["GPU vendor args not found."])
  | some gpu => (gpu, ["GPU vendor: " ++ gpu])

/-- The range test only logs: an unsupported version stays in the static. -/
def getTBTVersion (args : BootArgs) : Int × List String :=
  match args.argInt tbtVersionArg with
  | none => (0, ["Thunderbolt version not provided."])
  | some tbtVersion =>
      if tbtVersion < 1 ∨ tbtVersion > 5 then
        (tbtVersion, ["Invalid or unsupported thunderbolt version provided."])
      else
        (tbtVersion, ["Provided thunderbolt version: " ++ toString tbtVersion])

def getSequoiaForce (args : BootArgs) : Bool × List String :=
  match args.argInt sequoiaForceArg with
  | some forceArgValue =>
      if forceArgValue != 0 then
        (true, [sequoiaForceArg ++ " enabled: 1"])
      else
        (false, [sequoiaForceArg ++ " explicitly disabled."])
  | none =>
      if args.checkKernelArgument sequoiaForceArg then
        (true, [sequoiaForceArg ++ " enabled."])
      else
        (false, [sequoiaForceArg ++ " boot arg not found."])

def getPatchControls (args : BootArgs) : (Toggle → Bool) × List String :=
  let control := fun toggle : Toggle => args.parseBooleanBootArg toggle.arg
  (control, (Toggle.all.filter control).map Toggle.announcement)

def init (args : BootArgs) : NVRAMArgs where
  bootArgs := args
  gpu := (getGPU args).1
  tbtVersion := (getTBTVersion args).1
  sequoiaForce := (getSequoiaForce args).1
  control := (getPatchControls args).1

/-- A switch is announced exactly when its argument parses to true. -/
theorem announcement_mem_getPatchControls (args : BootArgs) (toggle : Toggle) :
    toggle.announcement ∈ (getPatchControls args).2 ↔
      args.parseBooleanBootArg toggle.arg = true := by
  simp only [getPatchControls,
    List.mem_map_of_injective Toggle.announcement_injective, List.mem_filter,
    Toggle.mem_all, true_and]

section WithFlag

variable (args : BootArgs) (own : Toggle) (value : Bool)

/-- A switch has nothing to do with the Thunderbolt version. -/
theorem getTBTVersion_withFlag :
    getTBTVersion (args.withFlag own.arg value) = getTBTVersion args := by
  have hname : tbtVersionArg ≠ own.arg := by cases own <;> decide
  simp only [getTBTVersion, args.argInt_withFlag hname]

theorem getSequoiaForce_withFlag :
    getSequoiaForce (args.withFlag own.arg value) = getSequoiaForce args := by
  have hname : sequoiaForceArg ≠ own.arg := by cases own <;> decide
  simp only [getSequoiaForce, args.argInt_withFlag hname]
  rfl

theorem control_withFlag (other : Toggle) :
    (init (args.withFlag own.arg value)).control other =
      if other = own then value else args.parseBooleanBootArg other.arg := by
  simp only [init, getPatchControls, BootArgs.parseBooleanBootArg_withFlag,
    Toggle.arg_injective.eq_iff]

end WithFlag

variable (args : NVRAMArgs)

def isAMD : Bool := args.gpu == amd

def isNVDA : Bool := args.gpu == nvda

def shouldForceSequoia : Bool := args.sequoiaForce

/-- Parsed anew at every call. -/
def skipThunderboltEnum : Bool :=
  args.bootArgs.parseBooleanBootArg "skipthunderboltenum"

def isThunderbolt1 : Bool := args.tbtVersion == 1

def isThunderbolt2 : Bool := args.tbtVersion == 2

def isProbeMode : Bool := args.control .probe

def shouldSkipAllPatches : Bool := args.control .skipAll

def shouldEnableIntelAGDCDisabler : Bool := args.control .intelAGDC

def shouldEnableIntelForceOnline : Bool := args.control .intelForceOnline

def shouldEnableAMDCompatibilityPatch : Bool := args.control .amdCompatibility

def shouldEnableAMDSharedUserClientVariableOutput : Bool :=
  args.control .amdSharedUserClientVariableOutput

def shouldEnableAMDAccelPrime : Bool := args.control .amdAccelPrime

def shouldEnableAMDLinkValidationPatch : Bool := args.control .amdLink

def shouldEnableAMDFramebufferValidationPatch : Bool :=
  args.control .amdFramebufferValidation

def shouldEnableAMD24BitOutputClamp : Bool := args.control .amd24BitOutput

def shouldEnableAMDIOSurfaceGuard : Bool := args.control .amdIOSurfaceGuard

def shouldSkipAGDCPatch : Bool := args.control .skipAGDC

def shouldSkipAGDPPatch : Bool := args.control .skipAGDP

def shouldSkipIOGFXPatch : Bool := args.control .skipIOGFX

def shouldSkipIOPCIPatch : Bool := args.control .skipIOPCI

def shouldSkipMuxPatch : Bool := args.control .skipMux

def shouldSkipTBRoutePatch : Bool := args.control .skipTBRoute

def shouldSkipSequoiaPatch : Bool := args.control .skipSequoia

end NVRAMArgs

end Kryptonite
