/-
The kexts Kryptonite asks Lilu to watch (`kern_targetkexts.hpp`) and the way
Lilu looks for a kext's executable (`MachInfo::initFromFileSystem`).  A
`paths` pointer into the middle of an array is the rest of that array, so that
a read past the array's end is visible as a read from the empty list.
-/
import Mathlib.Data.List.Basic
import Mathlib.Tactic.FinCases

namespace Kryptonite

def targetKexts : List String :=
  ["/System/Library/Extensions/AppleGraphicsControl.kext/Contents/PlugIns/AppleGPUWrangler.kext/Contents/MacOS/AppleGPUWrangler",
    "/System/Library/Extensions/IOGraphicsFamily.kext/IOGraphicsFamily",
    "/System/Library/Extensions/AppleGraphicsControl.kext/Contents/PlugIns/AppleMuxControl.kext/Contents/MacOS/AppleMuxControl",
    "/System/Library/Extensions/IOThunderboltFamily.kext/Contents/MacOS/IOThunderboltFamily",
    "/System/Library/Extensions/IOPCIFamily.kext/IOPCIFamily",
    "/System/Library/Extensions/AMDRadeonX4000.kext/Contents/MacOS/AMDRadeonX4000",
    "/System/Library/Extensions/AMDRadeonX4000HWServices.kext/Contents/MacOS/AMDRadeonX4000HWServices",
    "/System/Library/Extensions/AMD9500Controller.kext/Contents/MacOS/AMD9500Controller",
    "/System/Library/Extensions/AMDFramebuffer.kext/Contents/MacOS/AMDFramebuffer",
    "/System/Library/Extensions/AppleGraphicsControl.kext/Contents/PlugIns/AppleGraphicsDevicePolicy.kext/Contents/MacOS/AppleGraphicsDevicePolicy",
    "/System/Library/Extensions/AMDSupport.kext/Contents/MacOS/AMDSupport"]

def iopcifamilyKextPaths : List String :=
  ["/System/Library/Extensions/IOPCIFamily.kext/IOPCIFamily",
    "/System/Library/Extensions/IOPCIFamily.kext/Contents/MacOS/IOPCIFamily"]

def intelFramebufferCapriKextPaths : List String :=
  ["/Library/Extensions/AppleIntelFramebufferCapri.kext/Contents/MacOS/AppleIntelFramebufferCapri",
    "/System/Library/Extensions/AppleIntelFramebufferCapri.kext/Contents/MacOS/AppleIntelFramebufferCapri"]

def amdSupportKextPaths : List String :=
  ["/System/Library/Extensions/AMDSupport.kext/Contents/MacOS/AMDSupport"]

def ioAcceleratorFamily2KextPaths : List String :=
  ["/System/Library/Extensions/IOAcceleratorFamily2.kext/Contents/MacOS/IOAcceleratorFamily2"]

/-- `paths` is the array from the slot the pointer names to its end. -/
structure KextInfo where
  id : String
  paths : List String
  pathNum : Nat
deriving Repr

def kextList : List KextInfo :=
  [⟨"com.apple.AppleGPUWrangler", targetKexts.drop 0, targetKexts.length⟩,
    ⟨"com.apple.iokit.IOGraphicsFamily", targetKexts.drop 1, targetKexts.length⟩,
    ⟨"com.apple.driver.AppleMuxControl", targetKexts.drop 2, targetKexts.length⟩,
    ⟨"com.apple.iokit.IOThunderboltFamily", targetKexts.drop 3, targetKexts.length⟩,
    ⟨"com.apple.iokit.IOPCIFamily", iopcifamilyKextPaths, iopcifamilyKextPaths.length⟩,
    ⟨"com.apple.kext.AMDRadeonX4000", targetKexts.drop 5, targetKexts.length⟩,
    ⟨"com.apple.kext.AMDRadeonX4000HWServices", targetKexts.drop 6, targetKexts.length⟩,
    ⟨"com.apple.kext.AMD9500Controller", targetKexts.drop 7, targetKexts.length⟩,
    ⟨"com.apple.kext.AMDFramebuffer", targetKexts.drop 8, targetKexts.length⟩,
    ⟨"com.apple.driver.AppleGraphicsDevicePolicy", targetKexts.drop 9, targetKexts.length⟩,
    ⟨"com.apple.driver.AppleIntelFramebufferCapri", intelFramebufferCapriKextPaths,
      intelFramebufferCapriKextPaths.length⟩,
    ⟨"com.apple.kext.AMDSupport", amdSupportKextPaths, amdSupportKextPaths.length⟩,
    ⟨"com.apple.iokit.IOAcceleratorFamily2", ioAcceleratorFamily2KextPaths,
      ioAcceleratorFamily2KextPaths.length⟩]

/-- A position in `kextList`. -/
abbrev KextEntry := Fin 13

/-- Entries are written as numerals. -/
instance kextEntry_neZero : @NeZero Nat Zero.ofOfNat0 13 := Nat.instNeZeroSucc

def kextInfo (entry : KextEntry) : KextInfo :=
  kextList.get ⟨entry, entry.isLt⟩

theorem kextInfo_id_injective :
    ∀ first second, (kextInfo first).id = (kextInfo second).id → first = second := by
  decide

namespace MachInfo

def pathMax : Nat := 1024

/-- A path slot was read outside the array that holds the slots. -/
inductive ProbeFault where
  | outOfArray
deriving Repr, DecidableEq

/-- The files tried for one path: with a `kcsuffix` the two suffixed names come
first. -/
def suffixed (suffix : Option String) (path : String) : List String :=
  match suffix with
  | none => [path]
  | some suffix => [path ++ "." ++ suffix, path ++ "_" ++ suffix, path]

/-- Some file tried for `path` is usable. -/
def usableAt (usable : String → Bool) (suffix : Option String) (path : String) :
    Bool :=
  (suffixed suffix path).any usable

/-- Probe `num` slots in order and stop at the first path with a usable
executable.  `usable` says which files exist, have a Mach-O header and carry a
UUID. -/
def initFromFileSystem (usable : String → Bool) (suffix : Option String) :
    Nat → List String → Except ProbeFault (Option String)
  | 0, _ => .ok none
  | _ + 1, [] => .error .outOfArray
  | num + 1, path :: rest =>
      if path.utf8ByteSize = 0 ∨ pathMax ≤ path.utf8ByteSize then
        initFromFileSystem usable suffix num rest
      else if usableAt usable suffix path then
        .ok (some path)
      else
        initFromFileSystem usable suffix num rest

/-- The bytes after the last `separator`. -/
def lastComponent (separator : Char) (text : String) : List UInt8 :=
  (text.toUTF8.data.toList.reverse.takeWhile (· ≠ separator.toUInt8)).reverse

/-- A bundle identifier ends in the name of the bundle's executable. -/
def ownedBy (id path : String) : Bool :=
  lastComponent '/' path == lastComponent '.' id

/-- No slot outside the array was read, and what was selected belongs to the
kext named by `id`. -/
def Sound (id : String) (result : Except ProbeFault (Option String)) : Prop :=
  ∃ found, result = .ok found ∧ ∀ path ∈ found, ownedBy id path = true

def WellSized (path : String) : Prop :=
  0 < path.utf8ByteSize ∧ path.utf8ByteSize < pathMax

instance (path : String) : Decidable (WellSized path) :=
  inferInstanceAs (Decidable (_ ∧ _))

section Probing

variable {usable : String → Bool} {suffix : Option String} {id : String}

theorem initFromFileSystem_hit {path : String} (rest : List String) (num : Nat)
    (hsize : WellSized path) (husable : usableAt usable suffix path = true) :
    initFromFileSystem usable suffix (num + 1) (path :: rest) = .ok (some path) := by
  have hlong : ¬ (path.utf8ByteSize = 0 ∨ pathMax ≤ path.utf8ByteSize) := by
    have := hsize.1
    have := hsize.2
    omega
  rw [initFromFileSystem, if_neg hlong, if_pos husable]

theorem initFromFileSystem_miss {path : String} (rest : List String) (num : Nat)
    (husable : usableAt usable suffix path = false) :
    initFromFileSystem usable suffix (num + 1) (path :: rest) =
      initFromFileSystem usable suffix num rest := by
  rw [initFromFileSystem]
  split
  · rfl
  · rw [husable]
    rfl

/-- Where no file is usable, a count beyond the array leaves it. -/
theorem initFromFileSystem_leaves {num : Nat} {slots : List String}
    (hlength : slots.length < num)
    (hnone : ∀ path ∈ slots, usableAt usable suffix path = false) :
    initFromFileSystem usable suffix num slots = .error .outOfArray := by
  induction slots generalizing num with
  | nil =>
      cases num with
      | zero => cases hlength
      | succ num => rfl
  | cons path rest ih =>
      cases num with
      | zero => cases hlength
      | succ num =>
          rw [initFromFileSystem_miss rest num (hnone path (by simp))]
          exact ih (Nat.lt_of_succ_lt_succ hlength) fun other hother =>
            hnone other (by simp [hother])

/-- An array that holds the kext's own paths only is probed safely whatever
files exist. -/
theorem sound_of_owned (num : Nat) (slots : List String)
    (hlength : num ≤ slots.length) (hsize : ∀ path ∈ slots, WellSized path)
    (howned : ∀ path ∈ slots, ownedBy id path = true) :
    Sound id (initFromFileSystem usable suffix num slots) := by
  induction num generalizing slots with
  | zero => exact ⟨none, rfl, by simp⟩
  | succ num ih =>
      cases slots with
      | nil => simp at hlength
      | cons path rest =>
          cases husable : usableAt usable suffix path with
          | true =>
              rw [initFromFileSystem_hit rest num (hsize path (by simp)) husable]
              exact ⟨some path, rfl, by simpa using howned path (by simp)⟩
          | false =>
              rw [initFromFileSystem_miss rest num husable]
              apply ih rest
              · simpa using hlength
              · exact fun other hother => hsize other (by simp [hother])
              · exact fun other hother => howned other (by simp [hother])

/-- Among foreign paths the probe is sound only if it finds nothing and stays
inside the array. -/
theorem sound_foreign_iff (num : Nat) (slots : List String)
    (hsize : ∀ path ∈ slots, WellSized path)
    (hforeign : ∀ path ∈ slots, ownedBy id path = false) :
    Sound id (initFromFileSystem usable suffix num slots) ↔
      num ≤ slots.length ∧
        ∀ path ∈ slots.take num, usableAt usable suffix path = false := by
  induction num generalizing slots with
  | zero => simp [Sound, initFromFileSystem]
  | succ num ih =>
      cases slots with
      | nil => simp [Sound, initFromFileSystem]
      | cons path rest =>
          cases husable : usableAt usable suffix path with
          | true =>
              rw [initFromFileSystem_hit rest num (hsize path (by simp)) husable]
              have hnot := hforeign path (by simp)
              constructor
              · rintro ⟨found, hfound, howned⟩
                cases hfound
                simp [hnot] at howned
              · rintro ⟨_, hnone⟩
                simp [husable] at hnone
          | false =>
              rw [initFromFileSystem_miss rest num husable,
                ih rest (fun other hother => hsize other (by simp [hother]))
                  (fun other hother => hforeign other (by simp [hother]))]
              simp [husable]

/-- The probe of an entry whose first slot is its own path and whose other
slots belong to other kexts. -/
theorem sound_cons_foreign_iff (num : Nat) {path : String} {rest : List String}
    (hsize : ∀ other ∈ path :: rest, WellSized other)
    (howned : ownedBy id path = true)
    (hforeign : ∀ other ∈ rest, ownedBy id other = false) :
    Sound id (initFromFileSystem usable suffix (num + 1) (path :: rest)) ↔
      usableAt usable suffix path = true ∨
        (num ≤ rest.length ∧
          ∀ other ∈ rest.take num, usableAt usable suffix other = false) := by
  cases husable : usableAt usable suffix path with
  | true =>
      rw [initFromFileSystem_hit rest num (hsize path (by simp)) husable]
      simp [Sound, howned]
  | false =>
      rw [initFromFileSystem_miss rest num husable,
        sound_foreign_iff num rest
          (fun other hother => hsize other (by simp [hother])) hforeign]
      simp

end Probing

/-- The entries whose `paths` points into `targetKexts`; the other four have an
array of their own. -/
def sharesTargetKexts (entry : KextEntry) : Bool :=
  entry ∉ ([4, 10, 11, 12] : List KextEntry)

/-- The path slot an entry's `paths` points at. -/
def ownPath (entry : KextEntry) : String := (kextInfo entry).paths.headD ""

/-- Lilu's lookup of an entry. -/
def resolve (usable : String → Bool) (suffix : Option String)
    (entry : KextEntry) : Except ProbeFault (Option String) :=
  initFromFileSystem usable suffix (kextInfo entry).pathNum (kextInfo entry).paths

/-- The slots of an array of one's own exist and are all the kext's own paths. -/
theorem own_paths {entry : KextEntry} (hown : sharesTargetKexts entry = false) :
    (kextInfo entry).pathNum ≤ (kextInfo entry).paths.length ∧
      (∀ path ∈ (kextInfo entry).paths, WellSized path) ∧
      ∀ path ∈ (kextInfo entry).paths, ownedBy (kextInfo entry).id path = true := by
  revert entry
  decide +kernel

theorem own_array_sound (usable : String → Bool) (suffix : Option String)
    {entry : KextEntry} (hown : sharesTargetKexts entry = false) :
    Sound (kextInfo entry).id (resolve usable suffix entry) := by
  obtain ⟨hlength, hsize, howned⟩ := own_paths hown
  exact sound_of_owned _ _ hlength hsize howned

/-- The slots behind a shared entry's own path are those of other kexts. -/
theorem shared_paths {entry : KextEntry} (hshared : sharesTargetKexts entry = true) :
    (kextInfo entry).paths = ownPath entry :: targetKexts.drop (entry + 1) ∧
      (kextInfo entry).pathNum = 10 + 1 ∧
      (∀ path ∈ (kextInfo entry).paths, WellSized path) ∧
      ownedBy (kextInfo entry).id (ownPath entry) = true ∧
      ∀ path ∈ targetKexts.drop (entry + 1),
        ownedBy (kextInfo entry).id path = false := by
  revert entry
  decide +kernel

theorem ten_slots_left_iff (entry : KextEntry) :
    10 ≤ (targetKexts.drop (entry + 1)).length ↔ entry = 0 := by
  revert entry
  decide

/-- Resolving an entry is safe exactly when the entry has a path array of its
own, or its own executable is usable, or it is the first entry (the only
shared one whose `pathNum` slots all exist) and no executable of the whole
array is usable. -/
theorem resolve_sound_iff (usable : String → Bool) (suffix : Option String)
    (entry : KextEntry) :
    Sound (kextInfo entry).id (resolve usable suffix entry) ↔
      sharesTargetKexts entry = false ∨
        usableAt usable suffix (ownPath entry) = true ∨
        (entry = 0 ∧ ∀ path ∈ targetKexts, usableAt usable suffix path = false) := by
  cases hshared : sharesTargetKexts entry with
  | false => simpa using own_array_sound usable suffix hshared
  | true =>
      obtain ⟨hpaths, hnum, hsize, howned, hforeign⟩ := shared_paths hshared
      rw [hpaths] at hsize
      rw [resolve, hpaths, hnum, sound_cons_foreign_iff 10 hsize howned hforeign,
        ten_slots_left_iff]
      simp only [Bool.true_eq_false, false_or]
      cases husable : usableAt usable suffix (ownPath entry) with
      | true => simp
      | false =>
          simp only [Bool.false_eq_true, false_or]
          apply and_congr_right
          rintro rfl
          have hall : targetKexts = ownPath 0 :: (targetKexts.drop 1).take 10 := rfl
          rw [hall, List.forall_mem_cons]
          exact ⟨fun hrest => ⟨husable, hrest⟩, fun hrest => hrest.2⟩

/-- On a system without `IOGraphicsFamily` and with no other target executable
the probe of that entry leaves the array. -/
theorem iographics_probe_leaves_array :
    ¬ Sound (kextInfo 1).id (resolve (fun _ => false) none 1) := by
  rintro ⟨found, hresult, _⟩
  have hfault : resolve (fun _ => false) none 1 = .error .outOfArray :=
    initFromFileSystem_leaves (by decide) fun path _ => rfl
  rw [hfault] at hresult
  cases hresult

end MachInfo

end Kryptonite
