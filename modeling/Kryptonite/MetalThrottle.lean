/-
The Metal compiler throttle: `patch_mtl_compiler_throttle.sh`, which backs up
and patches the Metal binary and the compiler service's `Info.plist`, and
`revert_sequoia_mtl_compiler_throttle.sh`, which restores them from a backup.

The model keeps the two files and the `metal_patch_backup_*` directories.  Two
runs never start within the same second, so every run makes a directory of its
own, and the clock does not run backwards, so the newest directory is the one
made last.  `plutil` and `codesign` are parameters.
-/
import Kryptonite.ByteWindow
import Kryptonite.Script
import Mathlib.Logic.Function.Iterate

namespace Kryptonite

namespace MetalThrottle

open ByteWindow Script

section Binary

/-- The three functions of the Metal binary whose first bytes are patched. -/
inductive Site where
  | defaultCount
  | maximumCount
  | optimalCount
deriving Repr, DecidableEq

namespace Site

def offset : Site → Nat
  | .defaultCount => 0x2060
  | .maximumCount => 0x2070
  | .optimalCount => 0x2080

def all : List Site := [.defaultCount, .maximumCount, .optimalCount]

theorem mem_all (site : Site) : site ∈ all := by
  cases site <;> decide

end Site

/-- `mov eax, 2 ; ret`, padded to eight bytes. -/
def patchBytes : List UInt8 := [0xB8, 0x02, 0x00, 0x00, 0x00, 0xC3, 0x90, 0x90]

def verifyOrig : List UInt8 := [0x55, 0x48, 0x89, 0xE5, 0x31, 0xC0, 0x5D, 0xC3]

def siteBytes (site : Site) (data : List UInt8) : List UInt8 :=
  window site.offset 8 data

/-- The test both scripts make: all three sites are throttled. -/
def hasThrottlePatch (data : List UInt8) : Bool :=
  Site.all.all fun site => siteBytes site data == patchBytes

/-- The loop body of the binary patch step. -/
def patchSite (site : Site) (data : List UInt8) : List UInt8 :=
  let current := siteBytes site data
  if current = patchBytes then data
  else if current ≠ verifyOrig then data
  else overwrite site.offset patchBytes data

theorem hasThrottlePatch_iff (data : List UInt8) :
    hasThrottlePatch data = true ↔ ∀ site, siteBytes site data = patchBytes := by
  simp only [hasThrottlePatch, List.all_eq_true, beq_iff_eq]
  exact ⟨fun h site => h site site.mem_all, fun h site _ => h site⟩

section Sites

variable {site : Site} {data : List UInt8}

/-- A window of full length lies inside the file, so the write does too. -/
theorem fits_of_siteBytes (h : siteBytes site data = verifyOrig) :
    site.offset + patchBytes.length ≤ data.length :=
  add_le_length_of_window (by decide) (congrArg List.length h :)

theorem patchSite_of_orig (h : siteBytes site data = verifyOrig) :
    patchSite site data = overwrite site.offset patchBytes data := by
  have hne : verifyOrig ≠ patchBytes := by decide
  simp only [patchSite, h, if_neg hne, ne_eq, not_true_eq_false, if_false]

theorem patchSite_of_ne (h : siteBytes site data ≠ verifyOrig) : patchSite site data = data := by
  simp only [patchSite, ne_eq, h, not_false_eq_true, if_true, ite_self]

end Sites

/-- Patching one site changes that site's window only, and only if it held the
expected bytes. -/
theorem siteBytes_patchSite (site other : Site) (data : List UInt8) :
    siteBytes other (patchSite site data) =
      if other = site ∧ siteBytes site data = verifyOrig then patchBytes
      else siteBytes other data := by
  by_cases horig : siteBytes site data = verifyOrig
  · have hfits := fits_of_siteBytes horig
    rw [patchSite_of_orig horig]
    by_cases hsame : other = site
    · subst hsame
      rw [if_pos ⟨rfl, horig⟩]
      exact window_overwrite_self hfits
    · rw [if_neg fun h => hsame h.1]
      apply window_overwrite_disjoint hfits
      cases other <;> cases site <;> first | exact absurd rfl hsame | decide
  · rw [patchSite_of_ne horig, if_neg fun h => horig h.2]

end Binary

/-- `codesign` keeps the bytes at the three sites. -/
structure Tools where
  plutilReplace : List UInt8 → List UInt8
  codesign : List UInt8 → List UInt8
  codesign_site : ∀ site data, siteBytes site (codesign data) = siteBytes site data

/-- A `metal_patch_backup_*` directory. -/
structure BackupDir where
  infoPlist : Option (List UInt8)
  metal : Option (List UInt8)
deriving Repr, DecidableEq

/-- `backups` lists the newest directory first, as `ls -1dt` does. -/
structure Volume where
  metal : List UInt8
  infoPlist : List UInt8
  backups : List BackupDir
deriving Repr, DecidableEq

/-- Change the directory made last. -/
def Volume.updateNewest (volume : Volume) (f : BackupDir → BackupDir) : Volume :=
  match volume.backups with
  | [] => volume
  | newest :: older => { volume with backups := f newest :: older }

@[simp]
theorem Volume.updateNewest_metal (volume : Volume) (f : BackupDir → BackupDir) :
    (volume.updateNewest f).metal = volume.metal := by
  unfold updateNewest
  split <;> rfl

inductive Command where
  | checkVolume
  | mkdirBackup
  | copyInfoPlist
  | copyMetal
  | replacePlist
  | showPlist
  | patchMetal (site : Site)
  | signXpc
  | signMetal
deriving Repr, DecidableEq

/-- One run: `KRY_MTL_PLIST_ONLY`, and the command that fails, if any. -/
structure PatchRun where
  plistOnly : Bool
  failing : Option Command := none
deriving Repr, DecidableEq

namespace PatchRun

variable (run : PatchRun)

def fails (command : Command) : Bool := run.failing = some command

/-- Steps 2 to 4: the edits of the plist and of the binary, and the signing. -/
def edits : List Command :=
  [.replacePlist, .showPlist] ++
    (if run.plistOnly then [] else Site.all.map .patchMetal) ++ [.signXpc] ++
    if run.plistOnly then [] else [.signMetal]

/-- The commands behind the already-throttled test. -/
def commands : List Command :=
  [.mkdirBackup, .copyInfoPlist, .copyMetal] ++ run.edits

/-- The commands a run executes unless it is refused. -/
def executed : List Command :=
  if run.fails .checkVolume then [] else run.commands.takeWhile fun command =>
    !run.fails command

/-- Unless it is refused, the run executes this command. -/
abbrev reaches (command : Command) : Prop := command ∈ run.executed

end PatchRun

section Patch

variable (tools : Tools)

def effect (command : Command) (volume : Volume) : Volume :=
  match command with
  | .checkVolume | .showPlist | .signXpc => volume
  | .mkdirBackup => { volume with backups := ⟨none, none⟩ :: volume.backups }
  | .copyInfoPlist =>
      volume.updateNewest fun dir => { dir with infoPlist := some volume.infoPlist }
  | .copyMetal => volume.updateNewest fun dir => { dir with metal := some volume.metal }
  | .replacePlist => { volume with infoPlist := tools.plutilReplace volume.infoPlist }
  | .patchMetal site => { volume with metal := patchSite site volume.metal }
  | .signMetal => { volume with metal := tools.codesign volume.metal }

/-- `patch_mtl_compiler_throttle.sh`. -/
def patch (run : PatchRun) : EStateM Nat Volume Unit := do
  command run.fails (fun _ => 1) (effect tools) .checkVolume
  let throttled := hasThrottlePatch (← get).metal
  if throttled then
    throw 1
  else
    run.commands.forM (command run.fails (fun _ => 1) (effect tools))

def execute (commands : List Command) (volume : Volume) : Volume :=
  commands.foldl (fun volume command => effect tools command volume) volume

/-- The volume after a run, however the run ended. -/
def afterRun (volume : Volume) (run : PatchRun) : Volume :=
  endState (patch tools run volume)

/-- The volume after a sequence of runs. -/
def history (runs : List PatchRun) (volume : Volume) : Volume :=
  runs.foldl (afterRun tools) volume

theorem history_nil (volume : Volume) : history tools [] volume = volume := rfl

theorem history_cons (run : PatchRun) (runs : List PatchRun) (volume : Volume) :
    history tools (run :: runs) volume = history tools runs (afterRun tools volume run) :=
  rfl

theorem patch_eq (run : PatchRun) (volume : Volume) :
    patch tools run volume =
      if run.fails .checkVolume || hasThrottlePatch volume.metal then .error 1 volume
      else run.commands.forM (command run.fails (fun _ => 1) (effect tools)) volume := by
  cases hcheck : run.fails .checkVolume with
  | true =>
      simp only [patch, command, hcheck, if_true]
      rfl
  | false =>
      simp only [patch, command, hcheck, Bool.false_eq_true, if_false, Bool.false_or]
      change (if hasThrottlePatch volume.metal = true then throw 1
        else run.commands.forM (command run.fails (fun _ => 1) (effect tools))) volume = _
      split <;> rfl

/-- A run executes its commands in order up to the failing one, and none of
them on a throttled binary. -/
theorem afterRun_eq (run : PatchRun) (volume : Volume) :
    afterRun tools volume run =
      if hasThrottlePatch volume.metal then volume
      else execute tools run.executed volume := by
  rw [afterRun, patch_eq]
  cases hthrottled : hasThrottlePatch volume.metal with
  | true => simp only [Bool.or_true, if_true]; rfl
  | false =>
      cases hcheck : run.fails .checkVolume with
      | true =>
          simp only [PatchRun.executed, hcheck, Bool.or_false, if_true,
            Bool.false_eq_true, if_false]
          rfl
      | false =>
          simp only [PatchRun.executed, hcheck, Bool.or_false, Bool.false_eq_true, if_false]
          exact endState_forM_command _ _ _ _ _

/-- A run that completes was not refused and executed every command. -/
theorem eq_execute_of_patch_eq_ok {run : PatchRun} {volume after : Volume} {u : Unit}
    (hrun : patch tools run volume = .ok u after) :
    hasThrottlePatch volume.metal = false ∧ after = execute tools run.commands volume := by
  rw [patch_eq] at hrun
  split at hrun
  · cases hrun
  · rename_i hchecks
    simp only [Bool.or_eq_true, not_or, Bool.not_eq_true] at hchecks
    exact ⟨hchecks.2, eq_foldl_of_forM_command _ _ _ hrun⟩

end Patch

section Effects

variable (tools : Tools)

theorem siteBytes_effect (site : Site) (command : Command) (volume : Volume) :
    siteBytes site (effect tools command volume).metal =
      if command = .patchMetal site ∧ siteBytes site volume.metal = verifyOrig
        then patchBytes else siteBytes site volume.metal := by
  cases command with
  | patchMetal other =>
      simp only [effect, siteBytes_patchSite, Command.patchMetal.injEq]
      by_cases hsame : site = other
      · subst hsame
        simp only [true_and]
      · simp only [hsame, Ne.symm hsame, false_and, if_false]
  | signMetal => simp [effect, tools.codesign_site]
  | _ => simp [effect]

/-- A site ends throttled if it was patched from the expected bytes, and keeps
its bytes otherwise. -/
theorem siteBytes_execute (site : Site) (commands : List Command) (volume : Volume) :
    siteBytes site (execute tools commands volume).metal =
      if .patchMetal site ∈ commands ∧ siteBytes site volume.metal = verifyOrig
        then patchBytes else siteBytes site volume.metal := by
  have hne : patchBytes ≠ verifyOrig := by decide
  induction commands generalizing volume with
  | nil => simp [execute]
  | cons command commands ih =>
      have hstep := siteBytes_effect tools site command volume
      change siteBytes site (execute tools commands (effect tools command volume)).metal = _
      rw [ih, hstep]
      by_cases horig : siteBytes site volume.metal = verifyOrig
      · by_cases hcommand : command = .patchMetal site
        · simp [hcommand, horig, hne]
        · simp [hcommand, horig, Ne.symm hcommand]
      · simp [horig]

theorem siteBytes_afterRun (site : Site) (run : PatchRun) (volume : Volume) :
    siteBytes site (afterRun tools volume run).metal =
      if run.reaches (.patchMetal site) ∧ siteBytes site volume.metal = verifyOrig
        then patchBytes else siteBytes site volume.metal := by
  rw [afterRun_eq]
  split
  · rename_i hthrottled
    rw [(hasThrottlePatch_iff volume.metal).mp hthrottled site, ite_self]
  · exact siteBytes_execute tools site run.executed volume

/-- What a sequence of runs, however each of them ended, leaves at a site. -/
theorem siteBytes_history (site : Site) (runs : List PatchRun) (volume : Volume) :
    siteBytes site (history tools runs volume).metal =
      if (∃ run ∈ runs, run.reaches (.patchMetal site)) ∧
          siteBytes site volume.metal = verifyOrig
        then patchBytes else siteBytes site volume.metal := by
  have hne : patchBytes ≠ verifyOrig := by decide
  induction runs generalizing volume with
  | nil => simp [history_nil]
  | cons run runs ih =>
      rw [history_cons, ih, siteBytes_afterRun]
      by_cases horig : siteBytes site volume.metal = verifyOrig
      · by_cases hrun : run.reaches (.patchMetal site)
        · simp [hrun, horig, hne]
        · simp [hrun, horig]
      · simp [horig]

/-- The edits leave the backups alone. -/
theorem backups_execute {commands : List Command} (volume : Volume)
    (h : ∀ command ∈ commands, command ≠ .mkdirBackup ∧ command ≠ .copyInfoPlist ∧
      command ≠ .copyMetal) :
    (execute tools commands volume).backups = volume.backups := by
  induction commands generalizing volume with
  | nil => rfl
  | cons command commands ih =>
      have hhead := h command (by simp)
      change (execute tools commands (effect tools command volume)).backups = _
      rw [ih _ fun other hother => h other (by simp [hother])]
      cases command <;> first | rfl | simp at hhead

/-- The directory made by the commands that were executed. -/
def newDirs (executed : List Command) (volume : Volume) : List BackupDir :=
  if .mkdirBackup ∈ executed then
    [{ infoPlist := if .copyInfoPlist ∈ executed then some volume.infoPlist else none
       metal := if .copyMetal ∈ executed then some volume.metal else none }]
  else []

theorem edits_keep_backups (run : PatchRun) : ∀ command ∈ run.edits,
    command ≠ .mkdirBackup ∧ command ≠ .copyInfoPlist ∧ command ≠ .copyMetal := by
  unfold PatchRun.edits
  cases run.plistOnly <;> decide

theorem executed_eq (run : PatchRun) :
    run.executed =
      if run.fails .checkVolume || run.fails .mkdirBackup then []
      else if run.fails .copyInfoPlist then [.mkdirBackup]
      else if run.fails .copyMetal then [.mkdirBackup, .copyInfoPlist]
      else .mkdirBackup :: .copyInfoPlist :: .copyMetal ::
        run.edits.takeWhile fun command => !run.fails command := by
  unfold PatchRun.executed PatchRun.commands
  cases run.fails .checkVolume <;> cases hmkdir : run.fails .mkdirBackup <;>
    cases hplist : run.fails .copyInfoPlist <;> cases hmetal : run.fails .copyMetal <;>
    simp [hmkdir, hplist, hmetal]

theorem backups_execute_executed (run : PatchRun) (volume : Volume) :
    (execute tools run.executed volume).backups =
      newDirs run.executed volume ++ volume.backups := by
  let edited := run.edits.takeWhile fun command => !run.fails command
  have hedited : ∀ command ∈ edited, command ≠ .mkdirBackup ∧
      command ≠ .copyInfoPlist ∧ command ≠ .copyMetal :=
    fun command hmem =>
      edits_keep_backups run command ((List.takeWhile_prefix _).subset hmem)
  rw [executed_eq]
  unfold newDirs
  split
  · simp [execute]
  · split
    · simp [execute, effect]
    · split
      · simp [execute, effect, Volume.updateNewest]
      · change (execute tools edited _).backups = _
        rw [backups_execute tools _ hedited]
        simp [effect, Volume.updateNewest]

theorem backups_afterRun (run : PatchRun) (volume : Volume) :
    (afterRun tools volume run).backups =
      (if hasThrottlePatch volume.metal then [] else newDirs run.executed volume) ++
        volume.backups := by
  rw [afterRun_eq]
  split
  · rfl
  · exact backups_execute_executed tools run volume

/-- Every backup directory was there before or was made by a run that found the
binary as the runs before it had left it. -/
theorem mem_backups_history (dir : BackupDir) (runs : List PatchRun) (volume : Volume) :
    dir ∈ (history tools runs volume).backups ↔ dir ∈ volume.backups ∨
      ∃ before run after, runs = before ++ run :: after ∧
        hasThrottlePatch (history tools before volume).metal = false ∧
        dir ∈ newDirs run.executed (history tools before volume) := by
  induction runs generalizing volume with
  | nil => simp [history_nil]
  | cons run runs ih =>
      rw [history_cons, ih, backups_afterRun]
      constructor
      · rintro (hnew | ⟨before, later, after, rfl, hmade⟩)
        · rcases List.mem_append.mp hnew with hnew | hold
          · cases hthrottled : hasThrottlePatch volume.metal with
            | true => simp [hthrottled] at hnew
            | false =>
                rw [if_neg (by simp [hthrottled])] at hnew
                exact Or.inr ⟨[], run, runs, rfl, hthrottled, hnew⟩
          · exact Or.inl hold
        · exact Or.inr ⟨run :: before, later, after, rfl, hmade⟩
      · rintro (hold | ⟨before, later, after, hruns, hmade⟩)
        · exact Or.inl (List.mem_append.mpr (Or.inr hold))
        · cases before with
          | nil =>
              obtain ⟨rfl, rfl⟩ := List.cons.inj hruns
              obtain ⟨hclean, hnew⟩ := hmade
              rw [if_neg (by simpa [history] using hclean)]
              exact Or.inl (List.mem_append.mpr (Or.inl hnew))
          | cons first before =>
              obtain ⟨rfl, rfl⟩ := List.cons.inj hruns
              exact Or.inr ⟨before, later, after, rfl, hmade⟩

end Effects

/-- `latest_clean_backup_dir`. -/
def latestCleanBackupDir (backups : List BackupDir) : Option BackupDir :=
  backups.find? fun dir =>
    match dir.metal with
    | some data => !hasThrottlePatch data
    | none => false

section Backups

/-- The directory has a `Metal.binary.orig` without a throttled site. -/
def BackupDir.Clean (dir : BackupDir) : Prop :=
  ∃ data, dir.metal = some data ∧ ∀ site, siteBytes site data ≠ patchBytes

/-- These runs throttle this site of this binary. -/
def throttledBy (runs : List PatchRun) (metal : List UInt8) (site : Site) : Prop :=
  (∃ run ∈ runs, run.reaches (.patchMetal site)) ∧ siteBytes site metal = verifyOrig

theorem newDirs_clean_iff (executed : List Command) (volume : Volume) :
    (∀ dir ∈ newDirs executed volume, dir.Clean) ↔
      (.mkdirBackup ∈ executed → .copyMetal ∈ executed ∧
        ∀ site, siteBytes site volume.metal ≠ patchBytes) := by
  unfold newDirs
  by_cases hmkdir : .mkdirBackup ∈ executed
  · by_cases hcopy : .copyMetal ∈ executed
    · simp [hmkdir, hcopy, BackupDir.Clean]
    · simp [hmkdir, hcopy, BackupDir.Clean]
  · simp [hmkdir]

variable (tools : Tools) {volume : Volume}

theorem siteBytes_history_eq_patchBytes_iff (site : Site) (runs : List PatchRun)
    (hinit : siteBytes site volume.metal ≠ patchBytes) :
    siteBytes site (history tools runs volume).metal = patchBytes ↔
      throttledBy runs volume.metal site := by
  rw [siteBytes_history, throttledBy]
  split
  · exact iff_of_true rfl ‹_›
  · exact iff_of_false hinit ‹_›

/-- The backups stay clean as long as every run that is not refused adds a clean
one. -/
theorem history_clean_iff (runs : List PatchRun)
    (hold : ∀ dir ∈ volume.backups, dir.Clean) :
    (∀ dir ∈ (history tools runs volume).backups, dir.Clean) ↔
      ∀ before run after, runs = before ++ run :: after →
        hasThrottlePatch (history tools before volume).metal = false →
        ∀ dir ∈ newDirs run.executed (history tools before volume), dir.Clean := by
  constructor
  · intro hclean before run after hruns hthrottled dir hdir
    apply hclean dir
    rw [mem_backups_history]
    exact Or.inr ⟨before, run, after, hruns, hthrottled, hdir⟩
  · intro hnew dir hdir
    rw [mem_backups_history] at hdir
    rcases hdir with hdir | ⟨before, run, after, hruns, hthrottled, hdir⟩
    · exact hold dir hdir
    · exact hnew before run after hruns hthrottled dir hdir

/-- The already-throttled test asks for all three sites, the patch step treats
each on its own.  So a backup is clean only if the runs before it throttled all
sites, and the run was refused, or none. -/
theorem backups_clean_iff (runs : List PatchRun)
    (hinit : ∀ site, siteBytes site volume.metal ≠ patchBytes)
    (hold : ∀ dir ∈ volume.backups, dir.Clean) :
    ((∀ dir ∈ (history tools runs volume).backups, dir.Clean) ∧
        ∀ dir, latestCleanBackupDir (history tools runs volume).backups = some dir →
          dir.Clean) ↔
      ∀ before run after, runs = before ++ run :: after → run.reaches .mkdirBackup →
        (∀ site, throttledBy before volume.metal site) ∨
          (∀ site, ¬ throttledBy before volume.metal site) ∧ run.reaches .copyMetal := by
  have hsite := fun before site =>
    siteBytes_history_eq_patchBytes_iff tools site before (hinit site)
  have hchosen : (∀ dir ∈ (history tools runs volume).backups, dir.Clean) →
      ∀ dir, latestCleanBackupDir (history tools runs volume).backups = some dir →
        dir.Clean :=
    fun hclean dir hdir => hclean dir (List.mem_of_find?_eq_some hdir)
  rw [and_iff_left_of_imp hchosen, history_clean_iff tools runs hold]
  refine forall₄_congr fun before run after _ => ?_
  rw [newDirs_clean_iff, ← Bool.not_eq_true, hasThrottlePatch_iff]
  simp only [ne_eq, hsite]
  constructor
  · intro hnew hmkdir
    by_cases hall : ∀ site, throttledBy before volume.metal site
    · exact Or.inl hall
    · exact Or.inr (hnew hall hmkdir).symm
  · intro hruns hnotall hmkdir
    rcases hruns hmkdir with hall | hnone
    · exact absurd hall hnotall
    · exact hnone.symm

/-- A `plutil` that writes one and the same plist, and a `codesign` that keeps
the file. -/
def sampleTools : Tools where
  plutilReplace := fun _ => [0]
  codesign := id
  codesign_site := fun _ _ => rfl

/-- A binary with the given bytes from the first site on. -/
def metalWith (sites : List UInt8) : List UInt8 :=
  List.replicate 0x2060 0 ++ sites

theorem siteBytes_metalWith (site : Site) (sites : List UInt8) :
    siteBytes site (metalWith sites) = window (site.offset - 0x2060) 8 sites := by
  have hoffset : site.offset =
      (List.replicate 0x2060 (0 : UInt8)).length + (site.offset - 0x2060) := by
    rw [List.length_replicate]
    cases site <;> rfl
  rw [siteBytes, metalWith]
  nth_rewrite 1 [hoffset]
  exact window_append_right 8 _ _ sites

def stockMetal : List UInt8 :=
  metalWith (verifyOrig ++ List.replicate 8 0 ++ verifyOrig ++ List.replicate 8 0 ++ verifyOrig)

/-- One full run over a stock binary keeps the backups clean. -/
theorem stock_binary_backup_clean :
    let after := history sampleTools [⟨false, none⟩] ⟨stockMetal, [1], []⟩
    (∀ dir ∈ after.backups, dir.Clean) ∧
      ∀ dir, latestCleanBackupDir after.backups = some dir → dir.Clean := by
  refine (backups_clean_iff sampleTools [⟨false, none⟩] ?_ (by simp)).mpr ?_
  · intro site
    change siteBytes site stockMetal ≠ patchBytes
    rw [stockMetal, siteBytes_metalWith]
    cases site <;> decide
  · intro before run after hruns _
    cases before with
    | nil =>
        obtain ⟨rfl, -⟩ := List.cons.inj hruns
        exact Or.inr ⟨by simp [throttledBy], by decide⟩
    | cons first before => simp at hruns

/-- Only the first site of this binary holds the bytes the script expects. -/
def mixedVolume : Volume := ⟨metalWith (verifyOrig ++ List.replicate 40 0), [1], []⟩

/-- The second run is not refused, and the revert would choose a backup with a
throttled site. -/
theorem mixed_binary_backed_up_throttled :
    (∀ site, siteBytes site mixedVolume.metal ≠ patchBytes) ∧
      ∃ dir data,
        latestCleanBackupDir (history sampleTools [⟨false, none⟩, ⟨false, none⟩]
          mixedVolume).backups = some dir ∧
        dir.metal = some data ∧ siteBytes .defaultCount data = patchBytes := by
  have hbytes : ∀ site, siteBytes site mixedVolume.metal =
      window (site.offset - 0x2060) 8 (verifyOrig ++ List.replicate 40 0) :=
    fun site => siteBytes_metalWith site _
  have hsite := fun site => siteBytes_afterRun sampleTools site ⟨false, none⟩ mixedVolume
  rw [history_cons, history_cons, history_nil]
  generalize afterRun sampleTools mixedVolume ⟨false, none⟩ = once at hsite ⊢
  have hmixed : hasThrottlePatch once.metal = false := by
    rw [← Bool.not_eq_true, hasThrottlePatch_iff]
    intro hall
    have hsecond := hall .maximumCount
    rw [hsite, hbytes, if_neg (by decide)] at hsecond
    exact absurd hsecond (by decide)
  refine ⟨?_, ⟨some once.infoPlist, some once.metal⟩, once.metal, ?_, rfl, ?_⟩
  · intro site
    rw [hbytes]
    cases site <;> decide
  · rw [backups_afterRun, hmixed, if_neg Bool.false_ne_true, latestCleanBackupDir,
      newDirs, if_pos (by decide), if_pos (by decide), if_pos (by decide),
      List.singleton_append, List.find?_cons_of_pos]
    simp [hmixed]
  · rw [hsite, hbytes, if_pos (by decide)]

end Backups

section Revert

/-- The two files of the target; a revert removes each of them before it copies
the backup into its place. -/
structure Target where
  metal : Option (List UInt8)
  infoPlist : Option (List UInt8)
deriving Repr, DecidableEq

inductive RevertCommand where
  | requireTarget
  | remount
  | backupCurrentFiles
  | removeMetal
  | dittoMetal
  | removePlist
  | dittoPlist
  | refreshDyldSharedCache
  | createRootSnapshot
deriving Repr, DecidableEq

/-- Why a revert stops. -/
inductive RevertFailure where
  | command (command : RevertCommand)
  | noCleanBackup
  | missingMetal
  | missingInfoPlist
  | backupThrottled
deriving Repr, DecidableEq

def revertEffect (metal infoPlist : List UInt8) (command : RevertCommand)
    (target : Target) : Target :=
  match command with
  | .requireTarget | .remount | .backupCurrentFiles => target
  | .removeMetal => { target with metal := none }
  | .dittoMetal => { target with metal := some metal }
  | .removePlist => { target with infoPlist := none }
  | .dittoPlist => { target with infoPlist := some infoPlist }
  | .refreshDyldSharedCache | .createRootSnapshot => target

def restoreCommands : List RevertCommand :=
  [.remount, .backupCurrentFiles, .removeMetal, .dittoMetal, .removePlist, .dittoPlist,
    .refreshDyldSharedCache, .createRootSnapshot]

/-- `revert_sequoia_mtl_compiler_throttle.sh`, with the directory named on the
command line, if any. -/
def revert (fails : RevertCommand → Bool) (backups : List BackupDir)
    (backupDir : Option BackupDir) : EStateM RevertFailure Target Unit := do
  command fails .command (revertEffect [] []) .requireTarget
  match backupDir.or (latestCleanBackupDir backups) with
  | none => throw .noCleanBackup
  | some dir =>
      match dir.metal, dir.infoPlist with
      | none, _ => throw .missingMetal
      | some _, none => throw .missingInfoPlist
      | some metal, some infoPlist =>
          if hasThrottlePatch metal then
            throw .backupThrottled
          else
            restoreCommands.forM (command fails .command (revertEffect metal infoPlist))

/-- A revert that completes puts back what the chosen directory holds. -/
theorem revert_eq_ok {fails : RevertCommand → Bool} {backups : List BackupDir}
    {backupDir : Option BackupDir} {target reverted : Target} {u : Unit}
    (h : revert fails backups backupDir target = .ok u reverted) :
    backupDir.or (latestCleanBackupDir backups) =
      some ⟨reverted.infoPlist, reverted.metal⟩ := by
  obtain ⟨_, checked, -, h⟩ := bind_eq_ok h
  match hdir : backupDir.or (latestCleanBackupDir backups) with
  | none =>
      rw [hdir] at h
      cases h
  | some ⟨_, none⟩ =>
      rw [hdir] at h
      cases h
  | some ⟨none, some _⟩ =>
      rw [hdir] at h
      cases h
  | some ⟨some infoPlist, some metal⟩ =>
      simp only [hdir] at h
      split at h
      · cases h
      · rw [eq_foldl_of_forM_command _ _ _ h]
        rfl

variable {tools : Tools}

/-- What one successful run does to the plist and to the backups. -/
theorem patch_eq_ok {run : PatchRun} {volume after : Volume} {u : Unit}
    (hrun : patch tools run volume = .ok u after) :
    hasThrottlePatch volume.metal = false ∧
      after.infoPlist = tools.plutilReplace volume.infoPlist ∧
      after.backups = ⟨some volume.infoPlist, some volume.metal⟩ :: volume.backups := by
  obtain ⟨hclean, rfl⟩ := eq_execute_of_patch_eq_ok tools hrun
  refine ⟨hclean, ?_, ?_⟩
  · cases hmode : run.plistOnly <;>
      simp [PatchRun.commands, PatchRun.edits, hmode, Site.all, execute, effect,
        Volume.updateNewest]
  · change (execute tools run.edits _).backups = _
    rw [backups_execute tools _ (edits_keep_backups run)]
    simp [effect, Volume.updateNewest]

theorem infoPlist_of_forM_patch {runs : List PatchRun} {volume after : Volume} {u : Unit}
    (h : runs.forM (patch tools) volume = .ok u after) :
    after.infoPlist = tools.plutilReplace^[runs.length] volume.infoPlist := by
  induction runs generalizing volume with
  | nil =>
      cases h
      rfl
  | cons run runs ih =>
      obtain ⟨_, next, hrun, hruns⟩ := bind_eq_ok h
      rw [ih hruns, (patch_eq_ok hrun).2.1]
      rfl

/-- A later run copies the plist the earlier ones have already edited, and the
revert takes the newest directory. -/
theorem revert_restores_infoPlist_iff {runs : List PatchRun} {volume patched : Volume}
    {fails : RevertCommand → Bool} {reverted : Target} (hruns : runs ≠ [])
    (hpatched : runs.forM (patch tools) volume = .ok () patched)
    (hreverted : revert fails patched.backups none
      ⟨some patched.metal, some patched.infoPlist⟩ = .ok () reverted) :
    reverted.infoPlist = some volume.infoPlist ↔
      tools.plutilReplace^[runs.length - 1] volume.infoPlist = volume.infoPlist := by
  obtain ⟨earlier, last, rfl⟩ : ∃ earlier last, runs = earlier ++ [last] :=
    ⟨_, _, (List.dropLast_append_getLast hruns).symm⟩
  obtain ⟨middle, after, hearlier, hlast, hnil⟩ := forM_split hpatched
  cases hnil
  obtain ⟨hclean, -, hbackups⟩ := patch_eq_ok hlast
  have hchosen : latestCleanBackupDir patched.backups =
      some ⟨some middle.infoPlist, some middle.metal⟩ := by
    rw [hbackups, latestCleanBackupDir, List.find?_cons_of_pos]
    simp [hclean]
  have hdir := revert_eq_ok hreverted
  rw [Option.none_or, hchosen, Option.some.injEq, BackupDir.mk.injEq] at hdir
  rw [← hdir.1, Option.some.injEq, infoPlist_of_forM_patch hearlier, List.length_append,
    List.length_singleton, Nat.add_sub_cancel]

/-- After one run the revert restores the plist, after two if the first did not
change it. -/
theorem unchanged_plist_reverted :
    (∃ patched reverted,
        List.forM [⟨true, none⟩] (patch sampleTools) ⟨[], [1], []⟩ = .ok () patched ∧
        revert (fun _ => false) patched.backups none
          ⟨some patched.metal, some patched.infoPlist⟩ = .ok () reverted ∧
        reverted.infoPlist = some [1]) ∧
      ∃ patched reverted,
        List.forM [⟨true, none⟩, ⟨true, none⟩] (patch sampleTools) ⟨[], [0], []⟩ =
          .ok () patched ∧
        revert (fun _ => false) patched.backups none
          ⟨some patched.metal, some patched.infoPlist⟩ = .ok () reverted ∧
        reverted.infoPlist = some [0] := by
  constructor
  · have hpatched : List.forM [⟨true, none⟩] (patch sampleTools) ⟨[], [1], []⟩ =
        .ok () ⟨[], [0], [⟨some [1], some []⟩]⟩ := rfl
    have hreverted : revert (fun _ => false) [⟨some [1], some []⟩] none ⟨some [], some [0]⟩ =
        .ok () ⟨some [], some [1]⟩ := rfl
    have hiff := revert_restores_infoPlist_iff (by simp) hpatched hreverted
    exact ⟨_, _, hpatched, hreverted, hiff.mpr rfl⟩
  · have hpatched : List.forM [⟨true, none⟩, ⟨true, none⟩] (patch sampleTools) ⟨[], [0], []⟩ =
        .ok () ⟨[], [0], [⟨some [0], some []⟩, ⟨some [0], some []⟩]⟩ := rfl
    have hreverted : revert (fun _ => false) [⟨some [0], some []⟩, ⟨some [0], some []⟩] none
        ⟨some [], some [0]⟩ = .ok () ⟨some [], some [0]⟩ := rfl
    have hiff := revert_restores_infoPlist_iff (by simp) hpatched hreverted
    exact ⟨_, _, hpatched, hreverted, hiff.mpr rfl⟩

/-- After two plist-only runs the revert restores the plist as the first run left
it. -/
theorem second_plist_only_run_not_reverted :
    ∃ patched reverted,
      List.forM [⟨true, none⟩, ⟨true, none⟩] (patch sampleTools) ⟨[], [1], []⟩ =
        .ok () patched ∧
      revert (fun _ => false) patched.backups none
        ⟨some patched.metal, some patched.infoPlist⟩ = .ok () reverted ∧
      reverted.infoPlist ≠ some [1] :=
  ⟨⟨[], [0], [⟨some [0], some []⟩, ⟨some [1], some []⟩]⟩, ⟨some [], some [0]⟩, rfl, rfl,
    by decide⟩

end Revert

end MetalThrottle

end Kryptonite
