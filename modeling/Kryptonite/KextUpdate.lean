/-
`update_efi_kryptonite_kext.sh`: the built bundle is copied over the installed
one.  `ditto` merges, and the check at the end compares one binary of the two
bundles.
-/
import Kryptonite.ShellText
import Kryptonite.Volume

namespace Kryptonite

namespace KextUpdate

open PathTree Script ShellText Volume

/-- The arguments, the volume of the build, the date and what `dwarfdump` prints
for a binary, if it succeeds. -/
structure Env where
  tools : Tools
  targetRoot : Text
  build : Disk
  buildKext : Path
  timestamp : String
  hasDwarfdump : Bool
  dwarfdump : Nat → List UInt8 → Option Text

section Source

def targetOC : Path := ["EFI", "OC"]

def targetConfig : Path := targetOC ++ ["config.plist"]

def kexts : Path := targetOC ++ ["Kexts"]

def targetKext : Path := kexts ++ ["Kryptonite.kext"]

variable (env : Env)

def backupKext : Path := kexts ++ ["Kryptonite.kext.backup-" ++ env.timestamp]

def asksForUsage : Bool :=
  env.targetRoot = [] || env.targetRoot = text "-h" || env.targetRoot = text "--help"

/-- `awk 'NR==1 {print $2}'` -/
def secondField (output : Text) : Text := (words ((lines output).headD [])).getD 1 []

/-- `kext_binary_uuid`; where it returns 1 the caller exits. -/
def kextBinaryUuid (disk : Disk) (kext : Path) : Shell Text := fun world =>
  match env.tools.follow disk (kext ++ ["Contents", "MacOS", "Kryptonite"]) with
  | some (.file content) =>
      if env.hasDwarfdump then
        match env.dwarfdump world.calls content with
        | some output => .ok (secondField output) { world with calls := world.calls + 1 }
        | none => .error 1 { world with calls := world.calls + 1 }
      else .error 1 world
  | _ => .error 1 world

/-- The comparison after the copy. -/
def checkUuid : Shell Unit := do
  let buildUuid ← kextBinaryUuid env env.build env.buildKext
  let installedUuid ← fun world => kextBinaryUuid env world.disk targetKext world
  if buildUuid ≠ installedUuid then
    throw 1

/-- The script for an EFI. -/
def updateKext : Shell Unit := do
  require fun _ => ¬ contains (text "KRYPTONITE") (withoutSlash env.targetRoot)
  require (isDirectory env.tools · targetOC)
  require (isFile env.tools · targetConfig)
  require fun _ => isDirectory env.tools env.build env.buildKext
  mkdirs env.tools [kexts]
  whenDisk (isDirectory env.tools · targetKext)
    (dittoWithin env.tools targetKext (backupKext env))
  dittoFrom env.tools env.build env.buildKext targetKext
  checkUuid env

def updateEfiKryptoniteKext : Shell Unit :=
  if asksForUsage env then pure () else updateKext env

end Source

section Copies

variable (env : Env)

/-- What the copies leave behind. -/
structure Updated (start after : Disk) : Prop where
  installed : ∀ r, after.get (targetKext ++ r) =
    (env.build.get (env.buildKext ++ r)).or (start.get (targetKext ++ r))
  backup : seen Entry.node start targetKext = some .dir → ∀ r,
    after.get (backupKext env ++ r) =
      (start.get (targetKext ++ r)).or (start.get (backupKext env ++ r))
  others : ∀ q, ¬ targetKext <+: q → ¬ backupKext env <+: q → ¬ q <+: kexts →
    after.get q = start.get q

/-- The same before the build is copied. -/
structure BackedUp (start after : Disk) : Prop where
  target : ∀ r, after.get (targetKext ++ r) = start.get (targetKext ++ r)
  backup : seen Entry.node start targetKext = some .dir → ∀ r,
    after.get (backupKext env ++ r) =
      (start.get (targetKext ++ r)).or (start.get (backupKext env ++ r))
  others : ∀ q, ¬ backupKext env <+: q → ¬ q <+: kexts → after.get q = start.get q

theorem target_apart_backup : Apart targetKext (backupKext env) := by
  have hname : "Kryptonite.kext" ≠ "Kryptonite.kext.backup-" ++ env.timestamp := by
    intro h
    have hchar := congrArg (fun name => name.toList[15]?) h
    simp [String.toList_append] at hchar
  exact (apart_of_head_ne hname [] []).append_left kexts

/-- Nothing inside the directory of kexts leads to it. -/
theorem not_leads_kexts (name : String) (r : Path) : ¬ kexts ++ [name] ++ r <+: kexts := by
  intro h
  have hlength := h.length_le
  simp only [List.length_append, List.length_singleton] at hlength
  omega

variable {env} {start : Disk}

theorem mkdirs_triple :
    Triple (onDisk (· = start)) (mkdirs env.tools [kexts])
      (fun _ => onDisk (Within (· <+: kexts) start)) fun _ => onDisk fun _ => True := by
  refine call_triple ?_ fun _ _ _ => trivial
  rintro n disk rfl -
  intro q hq
  apply env.tools.mkdir_within n [kexts] disk q
  rintro ⟨p, hp, hleads⟩
  rw [List.mem_singleton.mp hp] at hleads
  exact hq hleads

theorem backup_triple :
    Triple (onDisk (Within (· <+: kexts) start))
      (whenDisk (isDirectory env.tools · targetKext)
        (dittoWithin env.tools targetKext (backupKext env)))
      (fun _ => onDisk (BackedUp env start)) fun _ => onDisk fun _ => True := by
  have htarget : ∀ disk, Within (· <+: kexts) start disk → ∀ r,
      disk.get (targetKext ++ r) = start.get (targetKext ++ r) := fun disk hdisk r =>
    hdisk _ (not_leads_kexts _ r)
  refine whenDisk_triple (call_triple ?_ fun _ _ _ => trivial) ?_
  · rintro n disk ⟨hdisk, -⟩ hok
    have hwithin := env.tools.ditto_within n disk targetKext (backupKext env) disk
    refine ⟨fun r => ?_, fun _ r => ?_, fun q hbackup hkexts => ?_⟩
    · have hapart : ¬ backupKext env <+: targetKext ++ r :=
        (target_apart_backup env).symm.not_prefix_append r
      rw [hwithin _ hapart, htarget disk hdisk]
    · rw [env.tools.ditto_ok n disk targetKext (backupKext env) disk hok, htarget disk hdisk,
        hdisk (backupKext env ++ r) (not_leads_kexts _ r)]
    · rw [hwithin q hbackup, hdisk q hkexts]
  · intro disk hdisk htest
    refine ⟨htarget disk hdisk, fun hdir => ?_, fun q _ hkexts => hdisk q hkexts⟩
    -- a directory would have been found
    obtain ⟨entry, hentry, hnode⟩ := Option.map_eq_some_iff.mp hdir
    have hsame := htarget disk hdisk []
    rw [List.append_nil, hentry] at hsame
    have hfollow := env.tools.follow_node disk targetKext entry hsame (by simp [hnode])
    rw [isDirectory, hfollow, hnode] at htest
    simp at htest

theorem install_triple :
    Triple (onDisk (BackedUp env start))
      (dittoFrom env.tools env.build env.buildKext targetKext)
      (fun _ => onDisk (Updated env start)) fun _ => onDisk fun _ => True := by
  refine call_triple ?_ fun _ _ _ => trivial
  intro n disk hdisk hok
  have hwithin := env.tools.ditto_within n env.build env.buildKext targetKext disk
  refine ⟨fun r => ?_, fun hdir r => ?_, fun q htarget hbackup hkexts => ?_⟩
  · rw [env.tools.ditto_ok n env.build env.buildKext targetKext disk hok, hdisk.target]
  · have hapart : ¬ targetKext <+: backupKext env ++ r :=
      (target_apart_backup env).not_prefix_append r
    rw [hwithin _ hapart, hdisk.backup hdir]
  · rw [hwithin q htarget, hdisk.others q hbackup hkexts]

theorem kextBinaryUuid_triple {P : Disk → Prop} (disk : Disk) (kext : Path) :
    Triple (onDisk P) (kextBinaryUuid env disk kext) (fun _ => onDisk P)
      fun _ => onDisk fun _ => True := by
  intro world hworld
  unfold kextBinaryUuid
  split
  · rename_i hrun
    split at hrun
    · split at hrun
      · split at hrun
        · cases hrun
          exact hworld
        · cases hrun
      · cases hrun
    · cases hrun
  · trivial

theorem checkUuid_triple {P : Disk → Prop} :
    Triple (onDisk P) (checkUuid env) (fun _ => onDisk P) fun _ => onDisk fun _ => True := by
  refine (kextBinaryUuid_triple _ _).bind fun buildUuid => ?_
  have hinstalled : Triple (onDisk P)
      (fun world => kextBinaryUuid env world.disk targetKext world : Shell Text)
      (fun _ => onDisk P) fun _ => onDisk fun _ => True :=
    fun world hworld => kextBinaryUuid_triple world.disk targetKext world hworld
  refine hinstalled.bind fun installedUuid => ?_
  exact Triple.ite (fun _ => Triple.throw fun _ _ => trivial) fun _ => Triple.pure fun _ h => h

theorem updateKext_triple :
    Triple (onDisk (· = start)) (updateKext env) (fun _ => onDisk (Updated env start))
      fun _ => onDisk fun _ => True := by
  have hrequire : ∀ test : Disk → Bool, Triple (onDisk (· = start)) (require test)
      (fun _ => onDisk (· = start)) fun _ => onDisk fun _ => True := fun test =>
    require_triple (fun _ h _ => h) fun _ _ => trivial
  apply Triple.seq (hrequire _)
  apply Triple.seq (hrequire _)
  apply Triple.seq (hrequire _)
  apply Triple.seq (hrequire _)
  apply Triple.seq mkdirs_triple
  apply Triple.seq backup_triple
  exact Triple.seq install_triple checkUuid_triple

end Copies

section Law

variable {env : Env} {start after : Disk}

/-- The bundle is the built one, the bundle before it is in the backup, and the
configuration and the other kexts are untouched. -/
structure Replaced (env : Env) (start after : Disk) : Prop where
  installed : SameBelow after targetKext env.build env.buildKext
  backup : seen Entry.node start targetKext = some .dir →
    SameBelow after (backupKext env) start targetKext
  config : after.get targetConfig = start.get targetConfig
  kexts : ∀ name r, targetKext ≠ kexts ++ [name] → backupKext env ≠ kexts ++ [name] →
    after.get (kexts ++ [name] ++ r) = start.get (kexts ++ [name] ++ r)

theorem or_eq_left_iff {α : Type} {a b : Option α} : a.or b = a ↔ (b ≠ none → a ≠ none) := by
  cases a <;> cases b <;> simp

theorem leads_child {p : Path} {name : String} {r : Path} (h : p <+: kexts ++ [name] ++ r)
    (hlength : p.length = kexts.length + 1) : p = kexts ++ [name] := by
  have hleads : p <+: kexts ++ [name] :=
    List.prefix_of_prefix_length_le h (List.prefix_append _ _) (by simp [hlength])
  exact hleads.eq_of_length (by simp [hlength])

theorem Updated.replaced_iff (h : Updated env start after) :
    Replaced env start after ↔
      (∀ r, start.get (targetKext ++ r) ≠ none → env.build.get (env.buildKext ++ r) ≠ none) ∧
      (seen Entry.node start targetKext = some .dir → ∀ r,
        start.get (backupKext env ++ r) ≠ none → start.get (targetKext ++ r) ≠ none) := by
  constructor
  · intro hlaw
    refine ⟨fun r => or_eq_left_iff.mp ?_, fun hdir r => or_eq_left_iff.mp ?_⟩
    · rw [← h.installed r]
      exact hlaw.installed r
    · rw [← h.backup hdir r]
      exact hlaw.backup hdir r
  · rintro ⟨hstale, hbackup⟩
    refine ⟨fun r => ?_, fun hdir r => ?_, ?_, fun name r htarget hother => ?_⟩
    · rw [h.installed r]
      exact or_eq_left_iff.mpr (hstale r)
    · rw [h.backup hdir r]
      exact or_eq_left_iff.mpr (hbackup hdir r)
    · refine h.others _ (by decide) (fun hleads => ?_) (by decide)
      have hlength := hleads.length_le
      simp [backupKext, targetConfig, kexts] at hlength
    · refine h.others _ (fun hleads => htarget (leads_child hleads rfl))
        (fun hleads => hother (leads_child hleads rfl)) (not_leads_kexts name r)

/-- A run that reports success has replaced the bundle exactly when the old one
had nothing that the new one lacks, and nothing else was in the place of the
backup. -/
theorem updateEfiKryptoniteKext_iff (env : Env) (start : Disk) (t : World)
    (hroot : asksForUsage env = false)
    (hrun : updateEfiKryptoniteKext env ⟨start, 0, []⟩ = .ok () t) :
    Replaced env start t.disk ↔
      (∀ r, start.get (targetKext ++ r) ≠ none → env.build.get (env.buildKext ++ r) ≠ none) ∧
      (seen Entry.node start targetKext = some .dir → ∀ r,
        start.get (backupKext env ++ r) ≠ none → start.get (targetKext ++ r) ≠ none) := by
  rw [updateEfiKryptoniteKext, hroot] at hrun
  have hupdated : Updated env start t.disk :=
    updateKext_triple.ok (onDisk_start start) hrun
  exact hupdated.replaced_iff

/-- A bundle with these files in its `Contents`. -/
def bundleOf (bundle : Path) (files : List (String × List UInt8)) : List (Path × Entry) :=
  (bundle, newDirectory) :: (bundle ++ ["Contents"], newDirectory) ::
    (bundle ++ ["Contents", "MacOS"], newDirectory) ::
    (bundle ++ ["Contents", "MacOS", "Kryptonite"], ⟨.file [2], (0, 0)⟩) ::
    files.map fun file => (bundle ++ ["Contents", file.1], ⟨.file file.2, (0, 0)⟩)

def sampleEnv : Env where
  tools := exactTools
  targetRoot := text "/Volumes/EFI"
  build := ⟨bundleOf ["Kryptonite.kext"] [("Info.plist", [3])]⟩
  buildKext := ["Kryptonite.kext"]
  timestamp := "20260101-000000"
  hasDwarfdump := true
  dwarfdump := fun _ content => some (text "UUID: " ++ content)

/-- An OpenCore EFI with these entries besides its own. -/
def sampleEFI (installed : List (Path × Entry)) : Disk :=
  ⟨kexts.inits.map (fun p => (p, newDirectory)) ++ (targetConfig, ⟨.file [1], (0, 0)⟩) ::
    installed⟩

/-- The EFI with an older build, of which every file is in the new one too. -/
def olderEFI : Disk := sampleEFI (bundleOf targetKext [("Info.plist", [4])])

theorem olderEFI_covered (r : Path) (h : olderEFI.get (targetKext ++ r) ≠ none) :
    sampleEnv.build.get (sampleEnv.buildKext ++ r) ≠ none := by
  have hentries : ∀ entry ∈ olderEFI.entries, targetKext <+: entry.1 →
      sampleEnv.build.get (sampleEnv.buildKext ++ entry.1.drop targetKext.length) ≠ none := by
    decide +kernel
  obtain ⟨v, hv⟩ := Option.ne_none_iff_exists'.mp h
  have hbuild := hentries _ (mem_entries_of_get hv) (List.prefix_append _ _)
  rwa [List.drop_left] at hbuild

/-- The older build is replaced, and its backup has its files. -/
theorem older_build_replaced :
    ∃ t, updateEfiKryptoniteKext sampleEnv ⟨olderEFI, 0, []⟩ = .ok () t ∧
      Replaced sampleEnv olderEFI t.disk := by
  have hrun := eq_ok_of_completed (by decide +kernel :
    completed (updateEfiKryptoniteKext sampleEnv ⟨olderEFI, 0, []⟩) = true)
  have hempty : EmptyBelow olderEFI (backupKext sampleEnv) :=
    emptyBelow_of_entries (by decide +kernel)
  exact ⟨_, hrun, (updateEfiKryptoniteKext_iff sampleEnv olderEFI _ (by decide +kernel)
    hrun).mpr ⟨olderEFI_covered, fun _ r hr => absurd (hempty r) hr⟩⟩

/-- A file that the new build no longer has. -/
def stalePath : Path := ["Contents", "Stale.plist"]

/-- The update succeeds and leaves the old file in the new bundle. -/
theorem stale_file_kept :
    let start := sampleEFI (bundleOf targetKext [("Stale.plist", [4])])
    let run := updateEfiKryptoniteKext sampleEnv ⟨start, 0, []⟩
    completed run = true ∧
      (endState run).disk.get (targetKext ++ stalePath) = some ⟨.file [4], (0, 0)⟩ ∧
      sampleEnv.build.get (sampleEnv.buildKext ++ stalePath) = none := by
  decide +kernel

end Law

end KextUpdate

end Kryptonite
