import Kryptonite.Script
import Kryptonite.PathTree
import Kryptonite.ByteWindow
import Kryptonite.BootArgs
import Kryptonite.TargetKexts
import Kryptonite.KernelPatcher
import Kryptonite.Patches
import Kryptonite.PatchSet
import Kryptonite.BitsPerComponent
import Kryptonite.Submissions
import Kryptonite.Features
import Kryptonite.Isolation
import Kryptonite.MetalThrottle
import Kryptonite.Volume
import Kryptonite.Overlay
import Kryptonite.ScanoutOverlay
import Kryptonite.PolarisOverlay
import Kryptonite.AccelKC
import Kryptonite.X86
import Kryptonite.BmiHotfix
import Kryptonite.ShellText
import Kryptonite.Plists
import Kryptonite.EfiBootArgs
import Kryptonite.OpenCore
import Kryptonite.KextInjection
import Kryptonite.Disks
import Kryptonite.DiskMenu
import Kryptonite.HybridInstall
import Kryptonite.BinaryPatches
import Kryptonite.LookupReport
import Kryptonite.RouteFallback
import Kryptonite.SharedUserClient
import Kryptonite.AppleGVA
import Kryptonite.KextUpdate
import Kryptonite.LoadProperties
import Kryptonite.StashOwnership
import Kryptonite.PrintedLines
import Kryptonite.InjectionCount
import Kryptonite.FailedLookups
import Kryptonite.MetalPatchStep
import Kryptonite.X86Control
import Kryptonite.BranchPatches
import Kryptonite.Fuel
import Kryptonite.Dialogue
import Kryptonite.DialogueEnd
import Kryptonite.InstallerDialogue
import Kryptonite.KextListening
import Kryptonite.KextRegistration
import Kryptonite.Routing
import Kryptonite.RouteMemory
import Kryptonite.RouteRemoval
import Kryptonite.PatternPatch
import Kryptonite.RouteRefinement
import Kryptonite.RouteSlots
import Kryptonite.Compression
import Kryptonite.NvStorage
