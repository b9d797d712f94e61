/-
Mounted volumes and the command-line tools the root-patch scripts run on them.

A volume is a tree of directories, files and symbolic links; no directory on the
way to a bundle is a link.  The tools are parameters with the laws a script may
rely on: what a tool may change when it fails part-way, and what holds once it
has exited with status 0.  A tool may answer every call differently, so it also
gets the number of the call.
-/
import Kryptonite.PathTree
import Kryptonite.Script

namespace Kryptonite

/-- A path below the mount point of a volume. -/
abbrev Path := List String

inductive Node where
  | dir
  | file (content : List UInt8)
  | link (target : String)
deriving Repr, DecidableEq

structure Entry where
  node : Node
  owner : Nat × Nat
deriving Repr, DecidableEq

abbrev Disk := PathTree String Entry

namespace Volume

open PathTree Script

/-- What is seen of the entry at a path. -/
def seen {β : Type} (view : Entry → β) (disk : Disk) (p : Path) : Option β :=
  (disk.get p).map view

/-- Every entry is in a directory. -/
def WellFormed (disk : Disk) : Prop :=
  ∀ p name, disk.get (p ++ [name]) ≠ none → seen Entry.node disk p = some .dir

theorem WellFormed.present_of_leading {disk : Disk} (h : WellFormed disk) {p q : Path}
    (hp : disk.get p ≠ none) (hq : q <+: p) : disk.get q ≠ none := by
  obtain ⟨r, rfl⟩ := hq
  induction r using List.reverseRecOn with
  | nil => simpa using hp
  | append_singleton r name ih =>
      apply ih
      have hdir := h (q ++ r) name (by simpa using hp)
      intro hnone
      simp [seen, hnone] at hdir

theorem WellFormed.emptyBelow {disk : Disk} (h : WellFormed disk) {p : Path}
    (hp : disk.get p = none) : EmptyBelow disk p := by
  intro r
  by_contra hr
  exact h.present_of_leading hr (List.prefix_append p r) hp

/-- The state a command leaves behind, and whether it exits with status 0. -/
structure Outcome where
  disk : Disk
  ok : Bool

inductive PlistCommand where
  | set (key value : String)
  | add (key type value : String)
deriving Repr, DecidableEq

def extensions : Path := ["System", "Library", "Extensions"]

def libraryExtensions : Path := ["Library", "Extensions"]

/-- `Library/Application Support/Kryptonite/RootPatchBackups/<name>`. -/
def rootPatchBackup (name : String) : Path :=
  ["Library", "Application Support", "Kryptonite", "RootPatchBackups", name]

/-- The parts of a volume `kmutil` and `bless` read but never write. -/
def protectedRoots : List Path :=
  [extensions, ["System", "Library", "Frameworks"], libraryExtensions,
    ["Library", "Application Support", "Kryptonite"]]

structure Tools where
  /-- What a link leads to, for the tests that follow links. -/
  follow : Disk → Path → Option Node
  /-- `mkdir -p` -/
  mkdir : Nat → List Path → Disk → Outcome
  /-- `ditto`, from a path of the first volume to a path of the second. -/
  ditto : Nat → Disk → Path → Path → Disk → Outcome
  /-- `rm -rf` -/
  rm : Nat → Path → Disk → Outcome
  /-- `chown -R 0:0` -/
  chown : Nat → Path → Disk → Outcome
  /-- `PlistBuddy -c` with a command that edits the file. -/
  plistBuddy : Nat → PlistCommand → Path → Disk → Outcome
  /-- Whether `PlistBuddy -c "Print <key>"` succeeds. -/
  hasKey : Disk → Path → String → Bool
  /-- `cp` or a redirection that writes one file. -/
  write : Nat → Path → Disk → Outcome
  kmutil : Nat → Disk → Outcome
  bless : Nat → Disk → Outcome
  /-- `mount -uw` followed by the test for a writable `Extensions` directory. -/
  mount : Nat → Bool
  /-- Where `kmutil` and `bless` write. -/
  outputs : List Path
  follow_none : ∀ disk p, disk.get p = none → follow disk p = none
  follow_node : ∀ disk p entry, disk.get p = some entry →
    (∀ target, entry.node ≠ .link target) → follow disk p = some entry.node
  mkdir_get : ∀ n paths disk q, (mkdir n paths disk).disk.get q = disk.get q ∨
    disk.get q = none ∧ (∃ p ∈ paths, q <+: p) ∧
      seen Entry.node (mkdir n paths disk).disk q = some .dir
  mkdir_ok : ∀ n paths disk, (mkdir n paths disk).ok = true →
    ∀ p ∈ paths, ∀ q, q <+: p → (mkdir n paths disk).disk.get q ≠ none
  ditto_within : ∀ n source src dst disk,
    Within (dst <+: ·) disk (ditto n source src dst disk).disk
  ditto_ok : ∀ n source src dst disk, (ditto n source src dst disk).ok = true →
    ∀ r, (ditto n source src dst disk).disk.get (dst ++ r) =
      (source.get (src ++ r)).or (disk.get (dst ++ r))
  rm_within : ∀ n p disk, Within (p <+: ·) disk (rm n p disk).disk
  rm_ok : ∀ n p disk, (rm n p disk).ok = true → EmptyBelow (rm n p disk).disk p
  chown_within : ∀ n p disk, Within (p <+: ·) disk (chown n p disk).disk
  chown_node : ∀ n p disk q,
    seen Entry.node (chown n p disk).disk q = seen Entry.node disk q
  plistBuddy_within : ∀ n edit p disk,
    Within (p <+: ·) disk (plistBuddy n edit p disk).disk
  write_within : ∀ n p disk, Within (p <+: ·) disk (write n p disk).disk
  kmutil_within : ∀ n disk,
    Within (fun q => ∃ output ∈ outputs, output <+: q) disk (kmutil n disk).disk
  bless_within : ∀ n disk,
    Within (fun q => ∃ output ∈ outputs, output <+: q) disk (bless n disk).disk
  outputs_apart : ∀ output ∈ outputs, ∀ root ∈ protectedRoots, Apart output root

/-- The volume a script works on, the number of commands it has run and the
paths it has removed. -/
structure World where
  disk : Disk
  calls : Nat
  removed : List Path

/-- A script under `set -e`; the error is the exit status. -/
abbrev Shell := EStateM Nat World

section Commands

variable (tools : Tools)

/-- Run a tool; a failing one stops the script and leaves its partial work. -/
def call (run : Nat → Disk → Outcome) : Shell Unit := fun world =>
  let outcome := run world.calls world.disk
  let after := { world with disk := outcome.disk, calls := world.calls + 1 }
  if outcome.ok then .ok () after else .error 1 after

/-- `if [ ... ]; then ...; fi` -/
def whenDisk (test : Disk → Bool) (body : Shell Unit) : Shell Unit := fun world =>
  if test world.disk then body world else .ok () world

/-- A loop over the matches of a glob; without a match the script stops. -/
def forMatches (glob : Disk → List Path) (body : Path → Shell Unit) : Shell Unit :=
  fun world =>
    match glob world.disk with
    | [] => .error 1 world
    | matched => matched.forM body world

/-- `[ ... ] || fail "..."` -/
def require (test : Disk → Bool) : Shell Unit := fun world =>
  if test world.disk then .ok () world else .error 1 world

def mkdirs (paths : List Path) : Shell Unit :=
  call fun n disk => tools.mkdir n paths disk

def dittoFrom (source : Disk) (src dst : Path) : Shell Unit :=
  call fun n disk => tools.ditto n source src dst disk

/-- `ditto` between two places of the volume itself. -/
def dittoWithin (src dst : Path) : Shell Unit :=
  call fun n disk => tools.ditto n disk src dst disk

def remove (p : Path) : Shell Unit := do
  modify fun world => { world with removed := p :: world.removed }
  call fun n disk => tools.rm n p disk

def normalizeBundleOwnership (bundle : Path) : Shell Unit :=
  call fun n disk => tools.chown n bundle disk

def writeFile (p : Path) : Shell Unit := call fun n disk => tools.write n p disk

def remountTargetRW : Shell Unit := fun world =>
  if tools.mount world.calls then .ok () { world with calls := world.calls + 1 }
  else .error 1 { world with calls := world.calls + 1 }

def rebuildCollections : Shell Unit := call fun n disk => tools.kmutil n disk

def createRootSnapshot : Shell Unit := call fun n disk => tools.bless n disk

/-- `[ -e path ]` -/
def pathExists (disk : Disk) (p : Path) : Bool := (tools.follow disk p).isSome

/-- `[ -d path ]` -/
def isDirectory (disk : Disk) (p : Path) : Bool := tools.follow disk p = some .dir

/-- `[ -f path ]` -/
def isFile (disk : Disk) (p : Path) : Bool :=
  match tools.follow disk p with
  | some (.file _) => true
  | _ => false

/-- `[ -L path ]` -/
def isLink (disk : Disk) (p : Path) : Bool :=
  match seen Entry.node disk p with
  | some (.link _) => true
  | _ => false

/-- `[ -e path ] || [ -L path ]` -/
def present (disk : Disk) (p : Path) : Bool := pathExists tools disk p || isLink disk p

/-- Whether a name ends in `.kext`, as `*.kext` asks for. -/
def isKext (name : String) : Bool :=
  ".kext".toUTF8.data.toList.isSuffixOf name.toUTF8.data.toList

/-- Names a leading `*` matches. -/
def isVisible (name : String) : Bool := name.toUTF8.data.toList.head? != some 0x2E

def stashRoot : Path :=
  ["private", "var", "db", "KernelExtensionManagement", "AuxKC", "CurrentAuxKC",
    "StashedExtensions"]

def auxStashItemNames : List String :=
  ["AppleIntelFramebufferCapri.kext", "AppleIntelHD4000Graphics.kext",
    "AMDRadeonX4000.kext", "AMDRadeonX4000HWServices.kext", "AMDRadeonX4000HWLibs.kext",
    "AMDRadeonX4100HWLibs.kext", "AMDRadeonX4200HWLibs.kext", "AMDRadeonX4400HWLibs.kext",
    "AMDRadeonX4700HWLibs.kext"]

/-- `"${stash_root}"/*/"${name}"` -/
def stashMatches (name : String) (disk : Disk) : List Path :=
  (((disk.children stashRoot).filter isVisible).map fun dir =>
    stashRoot ++ [dir, name]).filter fun bundle => (disk.get bundle).isSome

def normalizeStashedAuxOwnership : Shell Unit :=
  whenDisk (isDirectory tools · stashRoot) do
    auxStashItemNames.forM fun name =>
      forMatches (stashMatches name) fun bundle =>
        whenDisk (isDirectory tools · bundle) (normalizeBundleOwnership tools bundle)

/-- `remove_if_present` -/
def removeIfPresent (p : Path) : Shell Unit :=
  whenDisk (present tools · p) (remove tools p)

theorem Tools.mkdir_within (n : Nat) (paths : List Path) (disk : Disk) :
    Within (fun q => ∃ p ∈ paths, q <+: p) disk (tools.mkdir n paths disk).disk := by
  intro q hq
  rcases tools.mkdir_get n paths disk q with hsame | ⟨-, hleads, -⟩
  · exact hsame
  · exact absurd hleads hq

/-- A successful `mkdir -p` makes exactly the missing directories. -/
theorem Tools.seen_mkdir {n : Nat} {paths : List Path} {disk : Disk}
    (hok : (tools.mkdir n paths disk).ok = true) (q : Path) :
    seen Entry.node (tools.mkdir n paths disk).disk q =
      (seen Entry.node disk q).or (if ∃ p ∈ paths, q <+: p then some .dir else none) := by
  rcases tools.mkdir_get n paths disk q with hsame | ⟨hnone, hleads, hdir⟩
  · rw [seen, hsame, ← seen]
    by_cases hq : ∃ p ∈ paths, q <+: p
    · obtain ⟨p, hp, hleads⟩ := hq
      have hthere := tools.mkdir_ok n paths disk hok p hp q hleads
      rw [hsame] at hthere
      obtain ⟨entry, hentry⟩ := Option.ne_none_iff_exists'.mp hthere
      rw [seen, hentry, Option.map_some, Option.some_or]
    · rw [if_neg hq, Option.or_none]
  · rw [if_pos hleads, hdir, seen, hnone, Option.map_none, Option.none_or]

/-- What `kmutil` and `bless` write is not below a protected root. -/
theorem Tools.outputs_avoid {p root : Path} (hroot : root ∈ protectedRoots)
    (hp : root <+: p) : Avoids (fun q => ∃ output ∈ tools.outputs, output <+: q) p := by
  rintro r ⟨output, houtput, hleads⟩
  obtain ⟨rest, rfl⟩ := hp
  exact ((tools.outputs_apart output houtput root hroot).append_right rest).not_prefix_append r
    hleads

theorem rootPatchBackup_protected (name : String) (p : Path) :
    ∃ root ∈ protectedRoots, root <+: rootPatchBackup name ++ p :=
  ⟨["Library", "Application Support", "Kryptonite"], by simp [protectedRoots],
    ⟨["RootPatchBackups", name] ++ p, rfl⟩⟩

theorem get_ne_none_of_pathExists {disk : Disk} {p : Path}
    (h : pathExists tools disk p = true) : disk.get p ≠ none := by
  intro hnone
  simp [pathExists, tools.follow_none disk p hnone] at h

theorem present_iff (disk : Disk) (p : Path) :
    present tools disk p = true ↔ disk.get p ≠ none := by
  cases hentry : disk.get p with
  | none => simp [present, pathExists, isLink, seen, hentry, tools.follow_none disk p hentry]
  | some entry =>
      cases hnode : entry.node with
      | link target => simp [present, isLink, seen, hentry, hnode]
      | dir | file content =>
          have hfollow := tools.follow_node disk p entry hentry (by simp [hnode])
          simp [present, pathExists, hfollow]

end Commands

section Rules

variable {P Q R : Disk → Prop}

/-- A property of the volume. -/
def onDisk (P : Disk → Prop) (world : World) : Prop := P world.disk

theorem onDisk_start (disk : Disk) : onDisk (· = disk) ⟨disk, 0, []⟩ := rfl

theorem call_triple {run : Nat → Disk → Outcome}
    (hok : ∀ n disk, P disk → (run n disk).ok = true → Q (run n disk).disk)
    (hstop : ∀ n disk, P disk → R (run n disk).disk) :
    Triple (onDisk P) (call run) (fun _ => onDisk Q) (fun _ => onDisk R) := by
  intro world hworld
  unfold call
  cases hrun : (run world.calls world.disk).ok with
  | true => simpa [onDisk, hrun] using hok _ _ hworld hrun
  | false => simpa [onDisk, hrun] using hstop _ _ hworld

theorem require_triple {test : Disk → Bool}
    (hok : ∀ disk, P disk → test disk = true → Q disk) (hstop : ∀ disk, P disk → R disk) :
    Triple (onDisk P) (require test) (fun _ => onDisk Q) (fun _ => onDisk R) := by
  intro world hworld
  unfold require
  cases htest : test world.disk with
  | true => simpa [onDisk, htest] using hok _ hworld htest
  | false => simpa [onDisk, htest] using hstop _ hworld

theorem whenDisk_triple {test : Disk → Bool} {body : Shell Unit}
    (hthen : Triple (onDisk fun disk => P disk ∧ test disk = true) body
      (fun _ => onDisk Q) (fun _ => onDisk R))
    (helse : ∀ disk, P disk → test disk = false → Q disk) :
    Triple (onDisk P) (whenDisk test body) (fun _ => onDisk Q) (fun _ => onDisk R) := by
  intro world hworld
  unfold whenDisk
  cases htest : test world.disk with
  | true => simpa [htest] using hthen world ⟨hworld, htest⟩
  | false => simpa [onDisk, htest] using helse _ hworld htest

theorem whenDisk_keeps {inv : World → Prop} {test : Disk → Bool} {body : Shell Unit}
    (h : Keeps inv body) : Keeps inv (whenDisk test body) := by
  intro world hworld
  unfold whenDisk
  cases htest : test world.disk with
  | true => simpa [htest] using h world hworld
  | false => simpa [htest] using hworld

theorem forMatches_keeps {inv : World → Prop} {glob : Disk → List Path}
    {body : Path → Shell Unit}
    (h : ∀ disk, ∀ p ∈ glob disk, Keeps inv (body p)) :
    Keeps inv (forMatches glob body) := by
  intro world hworld
  unfold forMatches
  cases hglob : glob world.disk with
  | nil => exact hworld
  | cons p rest => exact Keeps.forM (fun q hq => h world.disk q (hglob ▸ hq)) world hworld

theorem require_keeps (test : Disk → Bool) : Keeps (onDisk P) (require test) :=
  require_triple (fun _ h _ => h) fun _ h => h

variable (tools : Tools)

/-- Only bundles below the stash change hands. -/
theorem normalizeStashedAuxOwnership_keeps {inv : World → Prop}
    (h : ∀ dir name, Keeps inv (normalizeBundleOwnership tools (stashRoot ++ [dir, name]))) :
    Keeps inv (normalizeStashedAuxOwnership tools) := by
  refine whenDisk_keeps (Keeps.forM fun name _ => forMatches_keeps ?_)
  intro disk bundle hbundle
  simp only [stashMatches, List.mem_filter, List.mem_map] at hbundle
  obtain ⟨⟨dir, -, rfl⟩, -⟩ := hbundle
  exact whenDisk_keeps (h dir name)

theorem remove_triple {p : Path}
    (hok : ∀ disk after, P disk → Within (p <+: ·) disk after → EmptyBelow after p → Q after)
    (hstop : ∀ disk after, P disk → Within (p <+: ·) disk after → R after) :
    Triple (onDisk P) (remove tools p) (fun _ => onDisk Q) (fun _ => onDisk R) := by
  refine Triple.seq (Triple.modify fun world hworld => hworld) (call_triple ?_ ?_)
  · intro n disk hdisk hrun
    exact hok disk _ hdisk (tools.rm_within n p disk) (tools.rm_ok n p disk hrun)
  · intro n disk hdisk
    exact hstop disk _ hdisk (tools.rm_within n p disk)

theorem remountTargetRW_triple (hstop : ∀ disk, P disk → R disk) :
    Triple (onDisk P) (remountTargetRW tools) (fun _ => onDisk P) (fun _ => onDisk R) := by
  intro world hworld
  unfold remountTargetRW
  cases tools.mount world.calls with
  | true => exact hworld
  | false => exact hstop _ hworld

end Rules

section Frames

variable {β : Type} {view : Entry → β} {start : Disk} {touched : Path → Prop}

/-- Outside the `touched` paths the volume looks as it did at the `start`. -/
def Frame (view : Entry → β) (start : Disk) (touched : Path → Prop) (disk : Disk) : Prop :=
  ∀ q, ¬ touched q → seen view disk q = seen view start q

/-- The script changes `touched` paths only, wherever it stops. -/
def Framed (view : Entry → β) (start : Disk) (touched : Path → Prop) (m : Shell Unit) :
    Prop :=
  Keeps (onDisk (Frame view start touched)) m

theorem Frame.of_within {small : Path → Prop} {disk after : Disk}
    (h : Frame view start touched disk) (hwithin : Within small disk after)
    (hsmall : ∀ q, small q → touched q) : Frame view start touched after := by
  intro q hq
  rw [← h q hq, seen, seen, hwithin q fun hs => hq (hsmall q hs)]

theorem framed_call {small : Path → Prop} {run : Nat → Disk → Outcome}
    (hrun : ∀ n disk, Within small disk (run n disk).disk)
    (hsmall : ∀ q, small q → touched q) : Framed view start touched (call run) :=
  call_triple (fun n disk h _ => h.of_within (hrun n disk) hsmall)
    fun n disk h => h.of_within (hrun n disk) hsmall

variable (tools : Tools)

/-- `mkdir -p` makes the missing directories on the way only. -/
theorem framed_mkdirs {paths : List Path}
    (h : ∀ p ∈ paths, ∀ q, q <+: p → start.get q = none → touched q) :
    Framed view start touched (mkdirs tools paths) := by
  have hstep : ∀ n disk, Frame view start touched disk →
      Frame view start touched (tools.mkdir n paths disk).disk := by
    intro n disk hdisk q hq
    rcases tools.mkdir_get n paths disk q with hsame | ⟨hmissing, ⟨p, hp, hleads⟩, -⟩
    · rw [← hdisk q hq, seen, seen, hsame]
    · have hstart := hdisk q hq
      rw [seen, hmissing, seen] at hstart
      exact absurd (h p hp q hleads (by simpa using hstart.symm)) hq
  exact call_triple (fun n disk hdisk _ => hstep n disk hdisk) hstep

theorem framed_dittoFrom {source : Disk} {src dst : Path}
    (h : ∀ q, dst <+: q → touched q) :
    Framed view start touched (dittoFrom tools source src dst) :=
  framed_call (fun n disk => tools.ditto_within n source src dst disk) h

theorem framed_dittoWithin {src dst : Path} (h : ∀ q, dst <+: q → touched q) :
    Framed view start touched (dittoWithin tools src dst) :=
  framed_call (fun n disk => tools.ditto_within n disk src dst disk) h

theorem framed_remove {p : Path} (h : ∀ q, p <+: q → touched q) :
    Framed view start touched (remove tools p) :=
  remove_triple tools (fun _ _ hdisk hwithin _ => hdisk.of_within hwithin h)
    fun _ _ hdisk hwithin => hdisk.of_within hwithin h

theorem framed_remountTargetRW : Framed view start touched (remountTargetRW tools) :=
  remountTargetRW_triple tools fun _ h => h

theorem framed_boot
    (h : ∀ q, (∃ output ∈ tools.outputs, output <+: q) → touched q) :
    Framed view start touched (rebuildCollections tools) ∧
      Framed view start touched (createRootSnapshot tools) :=
  ⟨framed_call tools.kmutil_within h, framed_call tools.bless_within h⟩

/-- Ownership is not part of what a node is. -/
theorem framed_normalizeBundleOwnership (bundle : Path) :
    Framed Entry.node start touched (normalizeBundleOwnership tools bundle) := by
  have hstep : ∀ n disk, Frame Entry.node start touched disk →
      Frame Entry.node start touched (tools.chown n bundle disk).disk := by
    intro n disk hdisk q hq
    rw [tools.chown_node, hdisk q hq]
  exact call_triple (fun n disk hdisk _ => hstep n disk hdisk) hstep

/-- What is there stays there if the script changes nothing at it. -/
theorem present_keeps (view : Entry → β) {m : Shell Unit} {q : Path}
    (h : ∀ start, start.get q ≠ none → Framed view start (· ≠ q) m) :
    Keeps (onDisk fun disk => disk.get q ≠ none) m := by
  intro world hworld
  have hframed := h world.disk hworld world fun _ _ => rfl
  have hq : ∀ disk, Frame view world.disk (· ≠ q) disk → disk.get q ≠ none := by
    intro disk hdisk hnone
    have hsame := hdisk q fun hne => hne rfl
    rw [seen, seen, hnone, Option.map_none, eq_comm, Option.map_eq_none_iff] at hsame
    exact hworld hsame
  cases hrun : m world with
  | ok u after =>
      rw [hrun] at hframed
      exact hq _ hframed
  | error e after =>
      rw [hrun] at hframed
      exact hq _ hframed

end Frames

section Exact

/-- A volume all of whose entries lie in directories it lists. -/
theorem wellFormed_of_entries {disk : Disk}
    (h : ∀ entry ∈ disk.entries, entry.1 = [] ∨
      seen Entry.node disk entry.1.dropLast = some .dir) : WellFormed disk := by
  intro p name hp
  obtain ⟨entry, hentry⟩ := Option.ne_none_iff_exists'.mp hp
  simpa using h _ (mem_entries_of_get hentry)

def newDirectory : Entry := ⟨.dir, (0, 0)⟩

theorem get_foldl_cover (paths : List Path) (disk : Disk) (q : Path) :
    (paths.foldl (fun disk p => disk.cover p newDirectory) disk).get q =
      (disk.get q).or (if ∃ p ∈ paths, q <+: p then some newDirectory else none) := by
  induction paths generalizing disk with
  | nil => simp
  | cons p paths ih =>
      rw [List.foldl_cons, ih, get_cover]
      by_cases hp : q <+: p
      · simp [hp]
      · simp [hp]

/-- Tools that never fail and do what their laws allow and no more. -/
def exactTools : Tools where
  follow disk p := (seen Entry.node disk p).filter fun node =>
    match node with
    | .link _ => false
    | _ => true
  mkdir _ paths disk := ⟨paths.foldl (fun disk p => disk.cover p newDirectory) disk, true⟩
  ditto _ source src dst disk := ⟨disk.graft dst source src, true⟩
  rm _ p disk := ⟨disk.prune p, true⟩
  chown _ p disk := ⟨disk.mapBelow p fun entry => { entry with owner := (0, 0) }, true⟩
  plistBuddy _ _ p disk := ⟨disk.put p ⟨.file [], (0, 0)⟩, true⟩
  hasKey _ _ _ := false
  write _ p disk := ⟨disk.put p ⟨.file [], (0, 0)⟩, true⟩
  kmutil _ disk := ⟨disk, true⟩
  bless _ disk := ⟨disk, true⟩
  mount _ := true
  outputs := []
  follow_none disk p h := by simp [seen, h]
  follow_node disk p entry h hnode := by
    obtain ⟨node, owner⟩ := entry
    cases node with
    | link target => exact absurd rfl (hnode target)
    | dir | file content => simp [seen, h]
  mkdir_get n paths disk q := by
    simp only [seen, get_foldl_cover]
    cases hq : disk.get q with
    | some entry => simp
    | none =>
        by_cases hleads : ∃ p ∈ paths, q <+: p
        · simp [hleads, newDirectory]
        · simp [hleads]
  mkdir_ok n paths disk _ p hp q hq := by
    simp only [get_foldl_cover]
    rw [if_pos ⟨p, hp, hq⟩]
    simp [newDirectory]
  ditto_within n source src dst disk q hq := get_graft_outside disk source src hq
  ditto_ok n source src dst disk _ r := get_graft_below disk source src dst r
  rm_within n p disk q hq := by simp [hq]
  rm_ok n p disk _ r := by simp
  chown_within n p disk q hq := by simp [hq]
  chown_node n p disk q := by
    simp only [seen, get_mapBelow]
    split
    · rw [Option.map_map]
      rfl
    · rfl
  plistBuddy_within n edit p disk := put_within disk p _
  write_within n p disk := put_within disk p _
  kmutil_within _ _ _ _ := rfl
  bless_within _ _ _ _ := rfl
  outputs_apart := by simp

/-- A volume with these directories and bundles, each bundle with one file. -/
def sampleVolume (dirs bundles : List Path) (content : List UInt8) : Disk :=
  ⟨(dirs.flatMap List.inits).map (fun p => (p, newDirectory)) ++
    bundles.flatMap fun bundle =>
      [(bundle, newDirectory), (bundle ++ ["Info.plist"], ⟨.file content, (0, 0)⟩)]⟩

end Exact

end Volume

end Kryptonite
