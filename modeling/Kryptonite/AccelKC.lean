/-
`enable_sequoia_polaris_accel_kc.sh`: the two Polaris accelerator bundles are
backed up and restored from the payload, prepared for the auxiliary kernel
collection and staged into `Library/Extensions`.  The payload root is on another
volume than the target.
-/
import Kryptonite.Volume
import Mathlib.Data.List.Pairwise

namespace Kryptonite

namespace AccelKC

open PathTree Script Volume

section Scripts

def x4000 : Path := extensions ++ ["AMDRadeonX4000.kext"]

def hwServices : Path := extensions ++ ["AMDRadeonX4000HWServices.kext"]

def targetItems : List Path := [x4000, hwServices]

/-- `AUX_STAGE_ITEMS` under `LIB_EXT_ROOT`. -/
def stagedX4000 : Path := libraryExtensions ++ ["AMDRadeonX4000.kext"]

def stagedHWServices : Path := libraryExtensions ++ ["AMDRadeonX4000HWServices.kext"]

def stagedItems : List Path := [stagedX4000, stagedHWServices]

def backupRoot (ts : String) : Path := rootPatchBackup (ts ++ "-polaris-accel-kc")

/-- `<bundle>/Contents/PlugIns/*.kext` -/
def plugins (bundle : Path) (disk : Disk) : List Path :=
  ((disk.children (bundle ++ ["Contents", "PlugIns"])).filter fun name =>
    isVisible name && isKext name).map fun name => bundle ++ ["Contents", "PlugIns", name]

/-- `<bundle>/Contents/PlugIns/*.kext/Contents/Info.plist` -/
def pluginPlists (bundle : Path) (disk : Disk) : List Path :=
  ((plugins bundle disk).map (· ++ ["Contents", "Info.plist"])).filter fun plist =>
    (disk.get plist).isSome

variable (tools : Tools) (payload : Disk) (ts : String)

def checkTarget : Shell Unit := do
  require fun disk => isDirectory tools disk []
  require fun _ => isDirectory tools payload []
  targetItems.forM fun rel => do
    require fun disk => isDirectory tools disk rel
    require fun _ => pathExists tools payload rel

def backupItem (rel : Path) : Shell Unit := do
  require fun disk => pathExists tools disk rel
  mkdirs tools [backupRoot ts ++ rel.dropLast]
  dittoWithin tools rel (backupRoot ts ++ rel)

def restoreItemFromPayload (rel : Path) : Shell Unit := do
  require fun _ => pathExists tools payload rel
  removeIfPresent tools rel
  dittoFrom tools payload rel rel

def stageItemToLibraryExtensions (systemRel dst : Path) : Shell Unit := do
  removeIfPresent tools dst
  dittoWithin tools systemRel dst

def setOSBundleRequired (plist : Path) : Shell Unit :=
  call fun n disk =>
    if tools.hasKey disk plist ":OSBundleRequired" then
      tools.plistBuddy n (.set ":OSBundleRequired" "Auxiliary") plist disk
    else
      tools.plistBuddy n (.add ":OSBundleRequired" "string" "Auxiliary") plist disk

/-- Up to the end of the backup loop. -/
def backup : Shell Unit := do
  checkTarget tools payload
  mkdirs tools [backupRoot ts]
  remountTargetRW tools
  targetItems.forM (backupItem tools ts)

/-- Restore the bundles and prepare them for the auxiliary collection. -/
def refresh : Shell Unit := do
  targetItems.forM (restoreItemFromPayload tools payload)
  mkdirs tools [libraryExtensions]
  setOSBundleRequired tools (x4000 ++ ["Contents", "Info.plist"])
  setOSBundleRequired tools (hwServices ++ ["Contents", "Info.plist"])
  forMatches (pluginPlists hwServices) fun plist =>
    whenDisk (isFile tools · plist) (setOSBundleRequired tools plist)
  forMatches (plugins hwServices) fun plugin =>
    whenDisk (isDirectory tools · plugin) (normalizeBundleOwnership tools plugin)
  normalizeBundleOwnership tools x4000
  normalizeBundleOwnership tools hwServices
  forMatches (plugins hwServices) fun _ => pure ()

/-- The end of the script, from the ownership of the staged copies on. -/
def finish : Shell Unit := do
  normalizeBundleOwnership tools stagedX4000
  normalizeBundleOwnership tools stagedHWServices
  forMatches (plugins stagedHWServices) fun plugin =>
    whenDisk (isDirectory tools · plugin) (normalizeBundleOwnership tools plugin)
  rebuildCollections tools
  normalizeStashedAuxOwnership tools
  createRootSnapshot tools
  forMatches (pluginPlists hwServices) fun _ => pure ()

/-- Everything behind the backup loop. -/
def install : Shell Unit := do
  refresh tools payload
  stageItemToLibraryExtensions tools x4000 stagedX4000
  stageItemToLibraryExtensions tools hwServices stagedHWServices
  finish tools

def enable : Shell Unit := do
  backup tools payload ts
  install tools payload

end Scripts

section Careful

variable {start : Disk} {touched : Path → Prop} {R : List Path → Prop}

/-- The volume is unchanged outside the `touched` paths, and `R` holds of the
paths removed so far. -/
structure Careful (start : Disk) (touched : Path → Prop) (R : List Path → Prop)
    (world : World) : Prop where
  frame : Frame Entry.node start touched world.disk
  removed : R world.removed

theorem keeps_removed {m : Shell Unit}
    (h : ∀ world, (endState (m world)).removed = world.removed) :
    Keeps (fun world => R world.removed) m := by
  intro world hworld
  have hsame := h world
  cases hrun : m world with
  | ok u after =>
      rw [hrun] at hsame
      change R after.removed
      rwa [show after.removed = world.removed from hsame]
  | error e after =>
      rw [hrun] at hsame
      change R after.removed
      rwa [show after.removed = world.removed from hsame]

theorem careful_of_framed {m : Shell Unit} (h : Framed Entry.node start touched m)
    (hremoved : ∀ world, (endState (m world)).removed = world.removed) :
    Keeps (Careful start touched R) m := by
  intro world hworld
  have hframe := h world hworld.frame
  have hR := keeps_removed hremoved world hworld.removed
  cases hrun : m world with
  | ok u after =>
      rw [hrun] at hframe hR
      exact ⟨hframe, hR⟩
  | error e after =>
      rw [hrun] at hframe hR
      exact ⟨hframe, hR⟩

theorem removed_call (run : Nat → Disk → Outcome) (world : World) :
    (endState (call run world)).removed = world.removed := by
  unfold call
  dsimp only
  split <;> rfl

theorem removed_require (test : Disk → Bool) (world : World) :
    (endState (require test world)).removed = world.removed := by
  unfold require
  split <;> rfl

variable (tools : Tools)

theorem removed_remountTargetRW (world : World) :
    (endState (remountTargetRW tools world)).removed = world.removed := by
  unfold remountTargetRW
  split <;> rfl

theorem careful_remove {p : Path} (htouched : ∀ q, p <+: q → touched q)
    (hR : ∀ removed, R removed → R (p :: removed)) :
    Keeps (Careful start touched R) (remove tools p) :=
  Keeps.bind (Triple.modify fun _ h => ⟨h.frame, hR _ h.removed⟩) fun _ =>
    careful_of_framed (framed_call (tools.rm_within · p) htouched) (removed_call _)

theorem careful_setOSBundleRequired {plist : Path} (htouched : ∀ q, plist <+: q → touched q) :
    Keeps (Careful start touched R) (setOSBundleRequired tools plist) := by
  refine careful_of_framed (framed_call (fun n disk => ?_) htouched) (removed_call _)
  split
  · exact tools.plistBuddy_within n _ plist disk
  · exact tools.plistBuddy_within n _ plist disk

theorem careful_normalizeBundleOwnership (bundle : Path) :
    Keeps (Careful start touched R) (normalizeBundleOwnership tools bundle) :=
  careful_of_framed (framed_normalizeBundleOwnership tools bundle) (removed_call _)

theorem careful_require (test : Disk → Bool) :
    Keeps (Careful start touched R) (require test) :=
  careful_of_framed (require_keeps test) (removed_require test)

/-- Replacing one bundle: remove it if it is there and copy another over it. -/
theorem careful_restoreItem {payload : Disk} {rel : Path}
    (htouched : ∀ q, rel <+: q → touched q) (hR : ∀ removed, R removed → R (rel :: removed)) :
    Keeps (Careful start touched R) (restoreItemFromPayload tools payload rel) :=
  Keeps.bind (careful_require _) fun _ =>
    Keeps.bind (whenDisk_keeps (careful_remove tools htouched hR)) fun _ =>
    careful_of_framed (framed_dittoFrom tools htouched) (removed_call _)

theorem careful_stageItem {systemRel dst : Path} (htouched : ∀ q, dst <+: q → touched q)
    (hR : ∀ removed, R removed → R (dst :: removed)) :
    Keeps (Careful start touched R) (stageItemToLibraryExtensions tools systemRel dst) :=
  Keeps.bind (whenDisk_keeps (careful_remove tools htouched hR)) fun _ =>
    careful_of_framed (framed_dittoWithin tools htouched) (removed_call _)

theorem mem_pluginPlists {bundle plist : Path} {disk : Disk}
    (h : plist ∈ pluginPlists bundle disk) : bundle <+: plist := by
  simp only [pluginPlists, plugins, List.mem_filter, List.mem_map] at h
  obtain ⟨⟨_, ⟨name, -, rfl⟩, rfl⟩, -⟩ := h
  rw [List.append_assoc]
  exact List.prefix_append _ _

/-- The restored bundles, and `Library/Extensions` if it was missing, are all
that `refresh` changes. -/
theorem refresh_careful {payload : Disk}
    (hitems : ∀ item ∈ targetItems, ∀ q, item <+: q → touched q)
    (hlibrary : ∀ q, q <+: libraryExtensions → start.get q = none → touched q)
    (hR : ∀ item ∈ targetItems, ∀ removed, R removed → R (item :: removed)) :
    Keeps (Careful start touched R) (refresh tools payload) := by
  have hplist : ∀ item ∈ targetItems, ∀ plist, item <+: plist →
      Keeps (Careful start touched R) (setOSBundleRequired tools plist) :=
    fun item hitem plist hleads => careful_setOSBundleRequired tools fun q hq =>
      hitems item hitem q (hleads.trans hq)
  have hnormalize : ∀ bundle,
      Keeps (Careful start touched R) (normalizeBundleOwnership tools bundle) :=
    careful_normalizeBundleOwnership tools
  have hmkdirs : Keeps (Careful start touched R) (mkdirs tools [libraryExtensions]) :=
    careful_of_framed (framed_mkdirs tools fun p hp q hq =>
      hlibrary q (List.mem_singleton.mp hp ▸ hq)) (removed_call _)
  apply Keeps.bind (Keeps.forM fun rel hrel =>
    careful_restoreItem tools (hitems rel hrel) (hR rel hrel))
  intro _
  apply Keeps.bind hmkdirs
  intro _
  apply Keeps.bind (hplist x4000 (by decide) _ (List.prefix_append _ _))
  intro _
  apply Keeps.bind (hplist hwServices (by decide) _ (List.prefix_append _ _))
  intro _
  apply Keeps.bind (forMatches_keeps fun disk plist hmem => whenDisk_keeps
    (hplist hwServices (by decide) _ (mem_pluginPlists hmem)))
  intro _
  apply Keeps.bind (forMatches_keeps fun _ plugin _ =>
    whenDisk_keeps (hnormalize plugin))
  intro _
  exact Keeps.bind (hnormalize _) fun _ => Keeps.bind (hnormalize _) fun _ =>
    forMatches_keeps fun _ _ _ => Keeps.pure _

/-- The end of the script changes owners and what `kmutil` and `bless` write. -/
theorem finish_careful
    (houtputs : ∀ q, (∃ output ∈ tools.outputs, output <+: q) → touched q) :
    Keeps (Careful start touched R) (finish tools) := by
  have hnormalize : ∀ bundle,
      Keeps (Careful start touched R) (normalizeBundleOwnership tools bundle) :=
    careful_normalizeBundleOwnership tools
  apply Keeps.bind (hnormalize _)
  intro _
  apply Keeps.bind (hnormalize _)
  intro _
  apply Keeps.bind (forMatches_keeps fun _ plugin _ =>
    whenDisk_keeps (hnormalize plugin))
  intro _
  apply Keeps.bind (careful_of_framed (framed_boot tools houtputs).1
    (removed_call _))
  intro _
  apply Keeps.bind (normalizeStashedAuxOwnership_keeps tools fun _ _ =>
    hnormalize _)
  intro _
  exact Keeps.bind (careful_of_framed (framed_boot tools houtputs).2 (removed_call _)) fun _ =>
    forMatches_keeps fun _ _ _ => Keeps.pure _

theorem install_careful {payload : Disk}
    (hbundles : ∀ bundle ∈ targetItems ++ stagedItems, ∀ q, bundle <+: q → touched q)
    (hlibrary : ∀ q, q <+: libraryExtensions → start.get q = none → touched q)
    (houtputs : ∀ q, (∃ output ∈ tools.outputs, output <+: q) → touched q)
    (hR : ∀ bundle ∈ targetItems ++ stagedItems, ∀ removed, R removed →
      R (bundle :: removed)) :
    Keeps (Careful start touched R) (install tools payload) := by
  apply Keeps.bind (refresh_careful tools (fun item hitem => hbundles item (by simp [hitem]))
    hlibrary fun item hitem => hR item (by simp [hitem]))
  intro _
  apply Keeps.bind (careful_stageItem tools (hbundles stagedX4000 (by decide))
    (hR stagedX4000 (by decide)))
  intro _
  apply Keeps.bind (careful_stageItem tools (hbundles stagedHWServices (by decide))
    (hR stagedHWServices (by decide)))
  intro _
  exact finish_careful tools houtputs

theorem framed_of_careful {m : Shell Unit}
    (h : Keeps (Careful start touched fun _ => True) m) :
    Framed Entry.node start touched m :=
  h.weaken (fun _ hframe => ⟨hframe, trivial⟩) (fun _ _ hpost => hpost.frame)
    fun _ _ hstop => hstop.frame

end Careful

section Backup

variable {start : Disk} (tools : Tools) (ts : String)

/-- What the backup root held at `p` before the run. -/
def oldBackup (start : Disk) (ts : String) (p : Path) : Option Node :=
  seen Entry.node start (backupRoot ts ++ p)

/-- What the backup holds at `p` once the bundles of `done` are in it. -/
def backupNode (start : Disk) (ts : String) (done : List Path) (p : Path) : Option Node :=
  if ∃ item ∈ done, item <+: p then (seen Entry.node start p).or (oldBackup start ts p)
  else (oldBackup start ts p).or
    (if p = [] ∨ done ≠ [] ∧ p <+: extensions then some .dir else none)

/-- The bundles of `done` are in the backup, and only the backup has changed. -/
structure BackedUp (start : Disk) (ts : String) (done : List Path) (disk : Disk) : Prop where
  content : ∀ p, seen Entry.node disk (backupRoot ts ++ p) = backupNode start ts done p
  frame : Frame Entry.node start (fun q => backupRoot ts <+: q ∨ q <+: backupRoot ts) disk

theorem targetItems_apart : targetItems.Pairwise Apart := by
  decide

theorem not_prefix_extensions : ∀ item ∈ targetItems, ¬ item <+: extensions := by
  decide

theorem parent_eq_extensions : ∀ item ∈ targetItems, item.dropLast = extensions := by
  decide

theorem backupRoot_apart {item : Path} (hitem : item ∈ targetItems) :
    Apart item (backupRoot ts) := by
  obtain ⟨rest, rfl⟩ : ["System"] <+: item := by
    revert item
    decide
  exact apart_of_head_ne (by decide) _ _

theorem mkdirs_backedUp :
    Triple (onDisk (· = start)) (mkdirs tools [backupRoot ts])
      (fun _ => onDisk (BackedUp start ts [])) (fun _ => onDisk fun _ => True) := by
  refine call_triple (fun n disk hdisk hok => ⟨fun p => ?_, fun q hq => ?_⟩)
    fun _ _ _ => trivial
  · subst hdisk
    have hleads : backupRoot ts ++ p <+: backupRoot ts ↔ p = [] := by
      constructor
      · intro h
        have hlength := h.length_le
        rw [List.length_append] at hlength
        exact List.length_eq_zero_iff.mp (by omega)
      · rintro rfl
        rw [List.append_nil]
    rw [tools.seen_mkdir hok]
    simp only [List.mem_singleton, exists_eq_left, hleads, backupNode, oldBackup,
      List.not_mem_nil, false_and, exists_false, if_false, ne_eq, not_true_eq_false, or_false]
  · subst hdisk
    rw [seen, seen, tools.mkdir_within n _ disk q]
    simp only [List.mem_singleton, exists_eq_left]
    exact fun h => hq (Or.inr h)

/-- What the backup holds at `p` once the directories for the next bundle are
made as well. -/
def backupDirs (start : Disk) (ts : String) (done : List Path) (p : Path) : Option Node :=
  if ∃ item ∈ done, item <+: p then (seen Entry.node start p).or (oldBackup start ts p)
  else (oldBackup start ts p).or (if p <+: extensions then some .dir else none)

variable {done : List Path} {rel : Path}

theorem mkdirs_backupDirs (hdone : ∀ item ∈ done, item ∈ targetItems) :
    Triple (onDisk (BackedUp start ts done)) (mkdirs tools [backupRoot ts ++ extensions])
      (fun _ => onDisk fun disk =>
        (∀ p, seen Entry.node disk (backupRoot ts ++ p) = backupDirs start ts done p) ∧
        Frame Entry.node start (fun q => backupRoot ts <+: q ∨ q <+: backupRoot ts) disk)
      (fun _ => onDisk fun _ => True) := by
  refine call_triple (fun n disk h hok => ⟨fun p => ?_, fun q hq => ?_⟩) fun _ _ _ => trivial
  · rw [tools.seen_mkdir hok, h.content, backupNode, backupDirs]
    simp only [List.mem_singleton, exists_eq_left, List.prefix_append_right_inj]
    by_cases hp : p <+: extensions
    · have hitems : ¬ ∃ item ∈ done, item <+: p := fun ⟨item, hitem, hleads⟩ =>
        not_prefix_extensions item (hdone item hitem) (hleads.trans hp)
      rw [if_neg hitems, if_neg hitems, if_pos hp, Option.or_assoc]
      split <;> rfl
    · have hroot : p ≠ [] := fun h => hp (h ▸ List.nil_prefix)
      simp only [hroot, hp, and_false, or_false, if_false, Option.or_none]
  · rw [← h.frame q hq, seen, seen, tools.mkdir_within n _ disk q]
    simp only [List.mem_singleton, exists_eq_left]
    intro hleads
    exact hq ((List.prefix_or_prefix_of_prefix hleads (List.prefix_append _ _)).symm)

theorem backupItem_backedUp (hdone : ∀ item ∈ done, item ∈ targetItems)
    (hrel : rel ∈ targetItems) (hnew : rel ∉ done) :
    Triple (onDisk (BackedUp start ts done)) (backupItem tools ts rel)
      (fun _ => onDisk (BackedUp start ts (done ++ [rel])))
      (fun _ => onDisk fun _ => True) := by
  apply Triple.seq (require_triple (fun _ h _ => h) fun _ _ => trivial)
  rw [parent_eq_extensions rel hrel]
  refine Triple.seq (mkdirs_backupDirs tools ts hdone) (call_triple ?_ fun _ _ _ => trivial)
  rintro n disk ⟨hcontent, hframe⟩ hok
  have hwithin := tools.ditto_within n disk rel (backupRoot ts ++ rel) disk
  refine ⟨fun p => ?_, hframe.of_within hwithin fun q hq =>
    Or.inl ((List.prefix_append _ _).trans hq)⟩
  by_cases hp : rel <+: p
  · obtain ⟨r, rfl⟩ := hp
    have hbefore : seen Entry.node disk (backupRoot ts ++ (rel ++ r)) =
        oldBackup start ts (rel ++ r) := by
      rw [hcontent, backupDirs, if_neg, if_neg, Option.or_none]
      · exact fun h => not_prefix_extensions rel hrel ((List.prefix_append _ _).trans h)
      · rintro ⟨item, hitem, hleads⟩
        refine (targetItems_apart.forall (hdone item hitem) hrel ?_).not_prefix_append r hleads
        rintro rfl
        exact hnew hitem
    have hsource := hframe (rel ++ r) (by
      have hapart := backupRoot_apart ts hrel
      rintro (h | h)
      · exact hapart.symm.not_prefix_append r h
      · exact hapart.1 ((List.prefix_append _ _).trans h))
    rw [backupNode, if_pos ⟨rel, by simp, List.prefix_append _ _⟩, ← hbefore, ← hsource, seen,
      ← List.append_assoc, tools.ditto_ok n disk rel _ disk hok, Option.map_or, ← seen, ← seen]
  · have houtside : ¬ backupRoot ts ++ rel <+: backupRoot ts ++ p := fun h =>
      hp ((List.prefix_append_right_inj _).mp h)
    have hroot : p = [] → p <+: extensions := fun h => h ▸ List.nil_prefix
    rw [seen, hwithin _ houtside, ← seen, hcontent, backupDirs, backupNode]
    simp only [List.mem_append, List.mem_singleton, or_and_right, exists_or, exists_eq_left,
      hp, or_false, ne_eq, List.append_eq_nil_iff, List.cons_ne_self, and_false,
      not_false_eq_true, true_and, or_iff_right_of_imp hroot]

theorem backup_backedUp {payload : Disk} :
    Triple (onDisk (· = start)) (backup tools payload ts)
      (fun _ => onDisk (BackedUp start ts targetItems)) (fun _ => onDisk fun _ => True) := by
  have hchecks : Keeps (onDisk (· = start)) (checkTarget tools payload) :=
    Keeps.bind (require_keeps _) fun _ => Keeps.bind (require_keeps _) fun _ =>
      Keeps.forM fun _ _ => Keeps.bind (require_keeps _) fun _ => require_keeps _
  have hnodup : targetItems.Nodup := by decide
  apply Triple.seq (hchecks.weakenStop fun _ _ _ => trivial)
  apply Triple.seq (mkdirs_backedUp tools ts)
  apply Triple.seq (remountTargetRW_triple tools fun _ _ => trivial)
  refine Triple.forM (fun done => onDisk (BackedUp start ts done)) fun done rel rest hitems => ?_
  apply backupItem_backedUp tools ts (fun item hitem => by simp [hitems, hitem])
    (by simp [hitems])
  intro hmem
  rw [hitems, List.nodup_append] at hnodup
  exact hnodup.2.2 rel hmem rel (by simp) rfl

/-- The backup removes nothing. -/
theorem removed_backup {payload : Disk} :
    Keeps (fun world => world.removed = []) (backup tools payload ts) := by
  suffices h : Keeps (Careful ⟨[]⟩ (fun _ => True) (· = [])) (backup tools payload ts) from
    h.weaken (fun _ hnone => ⟨fun _ h => absurd trivial h, hnone⟩)
      (fun _ _ hpost => hpost.removed) fun _ _ hstop => hstop.removed
  apply Keeps.bind (Keeps.bind (careful_require _) fun _ =>
    Keeps.bind (careful_require _) fun _ => Keeps.forM fun _ _ =>
      Keeps.bind (careful_require _) fun _ => careful_require _)
  intro _
  have hmkdirs : ∀ paths, Keeps (Careful ⟨[]⟩ (fun _ => True) (· = [])) (mkdirs tools paths) :=
    fun paths => careful_of_framed (framed_mkdirs tools fun _ _ _ _ _ => trivial)
      (removed_call _)
  apply Keeps.bind (hmkdirs _)
  intro _
  refine Keeps.bind (careful_of_framed (framed_remountTargetRW tools)
    (removed_remountTargetRW tools)) fun _ => Keeps.forM fun _ _ => ?_
  exact Keeps.bind (careful_require _) fun _ => Keeps.bind (hmkdirs _) fun _ =>
    careful_of_framed (framed_dittoWithin tools fun _ _ => trivial) (removed_call _)

end Backup

section Bundles

/-- A bundle under `System/Library/Extensions` or `Library/Extensions`. -/
def IsBundle (bundle : Path) : Prop :=
  ∃ dir ∈ [extensions, libraryExtensions], ∃ name, bundle = dir ++ [name]

theorem isBundle_of_mem : ∀ bundle ∈ targetItems ++ stagedItems, IsBundle bundle := by
  intro bundle hbundle
  simp only [targetItems, stagedItems, List.mem_append, List.mem_cons, List.not_mem_nil,
    or_false] at hbundle
  rcases hbundle with (rfl | rfl) | (rfl | rfl)
  · exact ⟨extensions, by decide, _, rfl⟩
  · exact ⟨extensions, by decide, _, rfl⟩
  · exact ⟨libraryExtensions, by decide, _, rfl⟩
  · exact ⟨libraryExtensions, by decide, _, rfl⟩

theorem IsBundle.apart {p q : Path} (hp : IsBundle p) (hq : IsBundle q) (hne : p ≠ q) :
    Apart p q := by
  obtain ⟨dir, hdir, name, rfl⟩ := hp
  obtain ⟨dir', hdir', name', rfl⟩ := hq
  simp only [List.mem_cons, List.not_mem_nil, or_false] at hdir hdir'
  have hsame : ∀ base : Path, base ++ [name] ≠ base ++ [name'] →
      Apart (base ++ [name]) (base ++ [name']) := fun base h =>
    (apart_of_head_ne (fun heq => h (by rw [heq])) [] []).append_left base
  rcases hdir with rfl | rfl <;> rcases hdir' with rfl | rfl
  · exact hsame _ hne
  · exact apart_of_head_ne (by decide) _ _
  · exact apart_of_head_ne (by decide) _ _
  · exact hsame _ hne

theorem IsBundle.apart_backupRoot {p : Path} (hp : IsBundle p) (ts : String) :
    Apart p (backupRoot ts) := by
  obtain ⟨dir, hdir, name, rfl⟩ := hp
  simp only [List.mem_cons, List.not_mem_nil, or_false] at hdir
  rcases hdir with rfl | rfl
  · exact apart_of_head_ne (by decide) _ _
  · exact (apart_of_head_ne (by decide) [name] _).append_left ["Library"]

theorem IsBundle.not_leading_library {p : Path} (hp : IsBundle p) :
    ¬ p <+: libraryExtensions := by
  obtain ⟨dir, hdir, name, rfl⟩ := hp
  simp only [List.mem_cons, List.not_mem_nil, or_false] at hdir
  intro h
  have hlength := h.length_le
  rcases hdir with rfl | rfl <;> simp [extensions, libraryExtensions] at hlength

theorem IsBundle.protected {p : Path} (hp : IsBundle p) :
    ∃ root ∈ protectedRoots, root <+: p := by
  obtain ⟨dir, hdir, name, rfl⟩ := hp
  simp only [List.mem_cons, List.not_mem_nil, or_false] at hdir
  refine ⟨dir, ?_, List.prefix_append _ _⟩
  rcases hdir with rfl | rfl <;> decide

end Bundles

section Enable

variable {start : Disk} {final : World} (tools : Tools) (payload : Disk) (ts : String)

/-- The run removed the bundle or left other content in its place. -/
def Changed (start : Disk) (final : World) (bundle : Path) : Prop :=
  bundle ∈ final.removed ∨
    ∃ r, seen Entry.node final.disk (bundle ++ r) ≠ seen Entry.node start (bundle ++ r)

/-- All the content the bundle had is somewhere under the backup root. -/
def Stored (start : Disk) (ts : String) (final : World) (bundle : Path) : Prop :=
  ∃ place, ∀ r, start.get (bundle ++ r) ≠ none →
    seen Entry.node final.disk (backupRoot ts ++ place ++ r) =
      seen Entry.node start (bundle ++ r)

/-- Paths the whole run may change. -/
def Reached (tools : Tools) (ts : String) (q : Path) : Prop :=
  (backupRoot ts <+: q ∨ q <+: backupRoot ts) ∨
    (∃ bundle ∈ targetItems ++ stagedItems, bundle <+: q) ∨
    (∃ output ∈ tools.outputs, output <+: q) ∨ q <+: libraryExtensions

theorem IsBundle.not_reached {bundle : Path} (hbundle : IsBundle bundle)
    (hother : bundle ∉ targetItems ++ stagedItems) (r : Path) :
    ¬ Reached tools ts (bundle ++ r) := by
  have hbackup := hbundle.apart_backupRoot ts
  rintro ((h | h) | ⟨other, hmem, h⟩ | h | h)
  · exact hbackup.symm.not_prefix_append r h
  · exact hbackup.1 ((List.prefix_append _ _).trans h)
  · refine ((isBundle_of_mem other hmem).apart hbundle ?_).not_prefix_append r h
    rintro rfl
    exact hother hmem
  · obtain ⟨root, hroot, hleads⟩ := hbundle.protected
    exact tools.outputs_avoid hroot hleads r h
  · exact hbundle.not_leading_library ((List.prefix_append _ _).trans h)

/-- A run that completes leaves the backup as the backup loop made it. -/
theorem backup_content
    (hrun : enable tools payload ts ⟨start, 0, []⟩ = .ok () final) (p : Path) :
    seen Entry.node final.disk (backupRoot ts ++ p) = backupNode start ts targetItems p := by
  obtain ⟨_, saved, hbackup, hinstall⟩ := bind_eq_ok hrun
  have hsaved := (backup_backedUp tools ts).ok (onDisk_start start) hbackup
  have hkeeps : Keeps (Careful saved.disk (fun q => ¬ backupRoot ts <+: q) fun _ => True)
      (install tools payload) := by
    refine install_careful tools (fun bundle hmem q hq h => ?_) (fun q hq _ h => ?_)
      (fun q hq h => ?_) fun _ _ _ _ => trivial
    · have hapart := (isBundle_of_mem bundle hmem).apart_backupRoot ts
      obtain ⟨r, rfl⟩ := h
      exact hapart.not_prefix_append r hq
    · exact absurd (h.trans hq) (by simp [backupRoot, rootPatchBackup, libraryExtensions])
    · obtain ⟨r, rfl⟩ := h
      exact tools.outputs_avoid (by decide) (List.prefix_append
        ["Library", "Application Support", "Kryptonite"] _) r hq
  have hframe := (framed_of_careful hkeeps).ok (fun _ _ => rfl) hinstall
  rw [hframe _ fun h => h (List.prefix_append _ _), hsaved.content]

/-- A run that completes removes the four bundles only and changes nothing else
under the two `Extensions` directories. -/
theorem enable_careful
    (hrun : enable tools payload ts ⟨start, 0, []⟩ = .ok () final) :
    Careful start (Reached tools ts)
      (fun removed => ∀ p ∈ removed, p ∈ targetItems ++ stagedItems) final := by
  obtain ⟨_, saved, hbackup, hinstall⟩ := bind_eq_ok hrun
  have hsaved := (backup_backedUp tools ts).ok (onDisk_start start) hbackup
  have hnone := (removed_backup tools ts).ok rfl hbackup
  refine (install_careful tools ?_ ?_ ?_ ?_).ok ⟨?_, ?_⟩ hinstall
  · exact fun bundle hmem q hq => Or.inr (Or.inl ⟨bundle, hmem, hq⟩)
  · exact fun q hq _ => Or.inr (Or.inr (Or.inr hq))
  · exact fun q hq => Or.inr (Or.inr (Or.inl hq))
  · intro bundle hmem removed hremoved p hp
    rcases List.mem_cons.mp hp with rfl | hp
    · exact hmem
    · exact hremoved p hp
  · exact fun q hq => hsaved.frame q fun h => hq (Or.inl h)
  · rw [hnone]
    simp

theorem removeIfPresent_removed {p : Path} :
    Triple (onDisk fun disk => disk.get p ≠ none) (removeIfPresent tools p)
      (fun _ world => p ∈ world.removed) (fun _ _ => True) := by
  intro world hworld
  have hpresent := (present_iff tools world.disk p).mpr hworld
  have hrecord : Triple (fun _ : World => True)
      (modify fun world => { world with removed := p :: world.removed } : Shell PUnit)
      (fun _ world => p ∈ world.removed) (fun _ _ => True) :=
    Triple.modify fun _ _ => List.mem_cons_self
  have hremove : Triple (fun _ : World => True) (remove tools p)
      (fun _ world => p ∈ world.removed) (fun _ _ => True) :=
    hrecord.seq ((keeps_removed (removed_call _)).weakenStop fun _ _ _ => trivial)
  simpa only [removeIfPresent, whenDisk, hpresent, if_true] using hremove world trivial

theorem stageItem_removed {systemRel dst : Path} :
    Triple (onDisk fun disk => disk.get dst ≠ none)
      (stageItemToLibraryExtensions tools systemRel dst)
      (fun _ world => dst ∈ world.removed) (fun _ _ => True) :=
  (removeIfPresent_removed tools).seq
    ((keeps_removed (removed_call _)).weakenStop fun _ _ _ => trivial)

theorem targetItems_not_staged : ∀ item ∈ targetItems, item ∉ stagedItems := by
  decide

/-- A staged bundle that was there is removed, whatever becomes of it then. -/
theorem staged_removed {staged : Path} (hstaged : staged ∈ stagedItems) :
    Triple (onDisk fun disk => disk.get staged ≠ none) (install tools payload)
      (fun _ world => staged ∈ world.removed) (fun _ _ => True) := by
  have hbundle := isBundle_of_mem staged (by simp [hstaged])
  -- what touches other bundles only leaves this one where it is
  have hkeep : ∀ {m : Shell Unit},
      (∀ start, Keeps (Careful start (· ≠ staged) fun _ => True) m) →
      Triple (onDisk fun disk => disk.get staged ≠ none) m
        (fun _ => onDisk fun disk => disk.get staged ≠ none) (fun _ _ => True) :=
    fun h => (present_keeps Entry.node fun start _ =>
      framed_of_careful (h start)).weakenStop fun _ _ _ => trivial
  have hne : ∀ other ∈ targetItems ++ stagedItems, other ≠ staged →
      ∀ q, other <+: q → q ≠ staged := by
    rintro other hother hne q hq rfl
    exact ((isBundle_of_mem other hother).apart hbundle hne).1 hq
  -- once recorded, the removal stays recorded
  have hrecorded : ∀ {m : Shell Unit},
      Keeps (Careful ⟨[]⟩ (fun _ => True) (staged ∈ ·)) m →
      Triple (fun world => staged ∈ world.removed) m
        (fun _ world => staged ∈ world.removed) (fun _ _ => True) :=
    fun h => h.weaken (fun _ hmem => ⟨fun _ hq => absurd trivial hq, hmem⟩)
      (fun _ _ hpost => hpost.removed) fun _ _ _ => trivial
  have hfinish := hrecorded (finish_careful tools fun _ _ => trivial)
  refine Triple.seq (hkeep fun start => refresh_careful tools (fun item hitem => hne item
    (by simp [hitem]) ?_) ?_ fun _ _ _ _ => trivial) ?_
  · rintro rfl
    exact targetItems_not_staged item hitem hstaged
  · rintro q hq _ rfl
    exact hbundle.not_leading_library hq
  · simp only [stagedItems, List.mem_cons, List.not_mem_nil, or_false] at hstaged
    rcases hstaged with rfl | rfl
    · refine Triple.seq (stageItem_removed tools) (Triple.seq (hrecorded ?_) hfinish)
      exact careful_stageItem tools (fun _ _ => trivial) fun _ h => List.mem_cons_of_mem _ h
    · refine Triple.seq (hkeep fun start => ?_) (Triple.seq (stageItem_removed tools) hfinish)
      exact careful_stageItem tools (hne stagedX4000 (by decide) (by decide)) fun _ _ => trivial

/-- Of the bundles the run deletes or replaces, those under `Library/Extensions`
are stored only if the other two, or an older backup at the same place, happen to
hold their content. -/
theorem changed_bundles_stored_iff
    (hrun : enable tools payload ts ⟨start, 0, []⟩ = .ok () final) :
    (∀ bundle, IsBundle bundle → start.get bundle ≠ none → Changed start final bundle →
        Stored start ts final bundle) ↔
      ∀ staged ∈ stagedItems, start.get staged = none ∨
        ∃ place, ∀ r, start.get (staged ++ r) ≠ none →
          backupNode start ts targetItems (place ++ r) =
            seen Entry.node start (staged ++ r) := by
  have hcontent := backup_content tools payload ts hrun
  have hcareful := enable_careful tools payload ts hrun
  have hstored : ∀ bundle, Stored start ts final bundle ↔
      ∃ place, ∀ r, start.get (bundle ++ r) ≠ none →
        backupNode start ts targetItems (place ++ r) =
          seen Entry.node start (bundle ++ r) := by
    intro bundle
    simp only [Stored, List.append_assoc, hcontent]
  constructor
  · intro hall staged hstaged
    by_cases hmissing : start.get staged = none
    · exact Or.inl hmissing
    · right
      rw [← hstored]
      refine hall staged (isBundle_of_mem staged (by simp [hstaged])) hmissing (Or.inl ?_)
      obtain ⟨_, saved, hbackup, hinstall⟩ := bind_eq_ok hrun
      have hsaved := (backup_backedUp tools ts).ok (onDisk_start start) hbackup
      refine (staged_removed tools payload hstaged).ok (fun hnone => hmissing ?_) hinstall
      have hapart := (isBundle_of_mem staged (by simp [hstaged])).apart_backupRoot ts
      have hsame := hsaved.frame staged (by rintro (h | h); exacts [hapart.2 h, hapart.1 h])
      rw [seen, hnone, Option.map_none, eq_comm, seen, Option.map_eq_none_iff] at hsame
      exact hsame
  · intro hstaged bundle hbundle hpresent hchanged
    rw [hstored]
    by_cases hmem : bundle ∈ targetItems ++ stagedItems
    · rcases List.mem_append.mp hmem with htarget | hmem
      · refine ⟨bundle, fun r hr => ?_⟩
        obtain ⟨entry, hentry⟩ := Option.ne_none_iff_exists'.mp hr
        rw [backupNode, if_pos ⟨bundle, htarget, List.prefix_append _ _⟩, seen, hentry,
          Option.map_some, Option.some_or]
      · exact (hstaged bundle hmem).resolve_left hpresent
    · rcases hchanged with hremoved | ⟨r, hr⟩
      · exact absurd (hcareful.removed bundle hremoved) hmem
      · exact absurd (hcareful.frame _ (hbundle.not_reached tools ts hmem r)) hr

end Enable

section Samples

def hwLibs : Path :=
  hwServices ++ ["Contents", "PlugIns", "AMDRadeonX4000HWLibs.kext", "Contents"]

def samplePayload : Disk :=
  (sampleVolume [extensions, hwLibs] targetItems [1]).put (hwLibs ++ ["Info.plist"])
    ⟨.file [], (0, 0)⟩

/-- A target with the two accelerator bundles. -/
def plainTarget : Disk :=
  sampleVolume [extensions, ["Library", "Application Support"]] targetItems [0]

/-- The same with another `AMDRadeonX4000.kext` under `Library/Extensions`. -/
def stagedTarget : Disk :=
  ⟨plainTarget.entries ++ (sampleVolume [libraryExtensions] [stagedX4000] [7]).entries⟩

/-- Without bundles under `Library/Extensions` all that is replaced is stored. -/
theorem plain_target_stored :
    ∃ final, enable exactTools samplePayload "20260101-000000" ⟨plainTarget, 0, []⟩ =
        .ok () final ∧
      ∀ bundle, IsBundle bundle → plainTarget.get bundle ≠ none →
        Changed plainTarget final bundle →
        Stored plainTarget "20260101-000000" final bundle := by
  have hrun : completed (enable exactTools samplePayload "20260101-000000"
      ⟨plainTarget, 0, []⟩) = true := by
    decide +kernel
  have hmissing : ∀ staged ∈ stagedItems, plainTarget.get staged = none := by
    decide +kernel
  have hiff := changed_bundles_stored_iff exactTools samplePayload "20260101-000000"
    (eq_ok_of_completed hrun)
  exact ⟨_, eq_ok_of_completed hrun, hiff.mpr fun staged hstaged =>
    Or.inl (hmissing staged hstaged)⟩

/-- The bundle under `Library/Extensions` is removed and stored nowhere. -/
theorem staged_bundle_lost :
    ∃ final, enable exactTools samplePayload "20260101-000000" ⟨stagedTarget, 0, []⟩ =
        .ok () final ∧
      IsBundle stagedX4000 ∧ stagedTarget.get stagedX4000 ≠ none ∧
      Changed stagedTarget final stagedX4000 ∧
      ¬ Stored stagedTarget "20260101-000000" final stagedX4000 := by
  have hrun : completed (enable exactTools samplePayload "20260101-000000"
      ⟨stagedTarget, 0, []⟩) = true := by
    decide +kernel
  refine ⟨_, eq_ok_of_completed hrun, isBundle_of_mem _ (by decide), by decide +kernel,
    Or.inl (by decide +kernel), ?_⟩
  have hnowhere : ∀ entry ∈ (endState (enable exactTools samplePayload "20260101-000000"
      ⟨stagedTarget, 0, []⟩)).disk.entries,
      ¬ (backupRoot "20260101-000000" <+: entry.1 ∧ entry.2.node = .file [7]) := by
    decide +kernel
  have hplist : seen Entry.node stagedTarget (stagedX4000 ++ ["Info.plist"]) =
      some (.file [7]) := by
    decide +kernel
  rintro ⟨place, hplace⟩
  have hcopy := hplace ["Info.plist"] (by decide +kernel)
  rw [hplist, seen, Option.map_eq_some_iff] at hcopy
  obtain ⟨entry, hentry, hnode⟩ := hcopy
  refine hnowhere _ (mem_entries_of_get hentry) ⟨?_, hnode⟩
  rw [List.append_assoc]
  exact List.prefix_append _ _

end Samples

end AccelKC

end Kryptonite
