/-
`apply_sequoia_polaris_scanout_align_overlay.sh`: eight Polaris items are
replaced from three payloads, ownership is normalized, and the kernel
collections and the snapshot are rebuilt.  The payload roots are on other
volumes than the target.
-/
import Kryptonite.Overlay

namespace Kryptonite

namespace ScanoutOverlay

open PathTree Script Volume Overlay

section Script

def bronzeCompatItems : List Path := [extensions ++ ["AMDMTLBronzeDriver.bundle"]]

def amdSharedCompatItems : List Path := [extensions ++ ["AMDShared.bundle"]]

def alignedItems : List Path :=
  [extensions ++ ["AMDSupport.kext"],
    extensions ++ ["AMD10000Controller.kext"],
    extensions ++ ["AMD9500Controller.kext"],
    extensions ++ ["AMDFramebuffer.kext"],
    extensions ++ ["AMDRadeonVADriver2.bundle"],
    extensions ++ ["AMDRadeonX4000GLDriver.bundle"]]

def intelAuxStageItems : List Path :=
  [libraryExtensions ++ ["AppleIntelFramebufferCapri.kext"],
    libraryExtensions ++ ["AppleIntelHD4000Graphics.kext"]]

def intelSystemItems : List Path :=
  [extensions ++ ["AppleIntelFramebufferCapri.kext"],
    extensions ++ ["AppleIntelHD4000Graphics.kext"]]

/-- The bundles the target must already have. -/
def requiredItems : List Path :=
  intelSystemItems ++
    [extensions ++ ["AMDRadeonX4000.kext"], extensions ++ ["AMDRadeonX4000HWServices.kext"]]

/-- The three payload roots. -/
structure Payload where
  bronzeCompat : Disk
  amdSharedCompat : Disk
  aligned : Disk

variable (tools : Tools) (payload : Payload) (ts : String)

def backupRoot : Path := rootPatchBackup (ts ++ "-polaris-scanout-align-overlay")

def checkTarget : Shell Unit := do
  require fun disk => isDirectory tools disk []
  [payload.bronzeCompat, payload.amdSharedCompat, payload.aligned].forM fun root =>
    require fun _ => isDirectory tools root []
  bronzeCompatItems.forM fun rel => require fun _ => pathExists tools payload.bronzeCompat rel
  amdSharedCompatItems.forM fun rel =>
    require fun _ => pathExists tools payload.amdSharedCompat rel
  alignedItems.forM fun rel => require fun _ => pathExists tools payload.aligned rel
  requiredItems.forM fun rel => require fun disk => pathExists tools disk rel

/-- The body of the three restore loops. -/
def restore (source : Disk) (rel : Path) : Shell Unit := do
  backupAndReplace tools (backupRoot ts) source rel
  normalizeBundleOwnership tools rel

def normalizeIfPresent (rel : Path) : Shell Unit :=
  whenDisk (pathExists tools · rel) (normalizeBundleOwnership tools rel)

/-- The commands that follow the restore loops. -/
def normalizeAndRebuild : Shell Unit := do
  intelSystemItems.forM (normalizeIfPresent tools)
  intelAuxStageItems.forM (normalizeIfPresent tools)
  rebuildCollections tools
  normalizeStashedAuxOwnership tools
  createRootSnapshot tools

def overlay : Shell Unit := do
  checkTarget tools payload
  mkdirs tools [backupRoot ts]
  remountTargetRW tools
  bronzeCompatItems.forM (restore tools ts payload.bronzeCompat)
  amdSharedCompatItems.forM (restore tools ts payload.amdSharedCompat)
  alignedItems.forM (restore tools ts payload.aligned)
  normalizeAndRebuild tools

end Script

section Layout

def items : List Path := bronzeCompatItems ++ (amdSharedCompatItems ++ alignedItems)

/-- The items in the order of the run, each with its payload. -/
def jobs (payload : Payload) : List Job :=
  bronzeCompatItems.map (Job.mk payload.bronzeCompat) ++
    (amdSharedCompatItems.map (Job.mk payload.amdSharedCompat) ++
      alignedItems.map (Job.mk payload.aligned))

theorem jobs_items (payload : Payload) : (jobs payload).map Job.item = items := by
  simp [jobs, items, Function.comp_def]

theorem items_below_extensions : ∀ item ∈ items, extensions <+: item := by
  decide

theorem backupRoot_apart (ts : String) {p : Path} (hp : extensions <+: p) (q : Path) :
    Apart p (backupRoot ts ++ q) := by
  obtain ⟨rest, rfl⟩ := hp
  exact apart_of_head_ne (by decide) _ _

theorem layout (ts : String) (payload : Payload) :
    Layout (backupRoot ts) ((jobs payload).map Job.item) := by
  rw [jobs_items]
  refine ⟨by decide, fun item hitem => ?_⟩
  have hapart := backupRoot_apart ts (items_below_extensions item hitem) []
  rw [List.append_nil] at hapart
  exact hapart.symm

end Layout

section Run

variable (tools : Tools) (payload : Payload) (ts : String) {start : Disk}

/-- The checks write nothing, and a target that passes them has the required
bundles. -/
theorem checkTarget_triple {P R : Disk → Prop} (hstop : ∀ disk, P disk → R disk) :
    Triple (onDisk P) (checkTarget tools payload)
      (fun _ => onDisk fun disk => P disk ∧
        ∀ rel ∈ requiredItems, pathExists tools disk rel = true)
      (fun _ => onDisk R) := by
  have hsources : ∀ {γ : Type} (xs : List γ) (test : γ → Bool),
      Triple (onDisk P) (xs.forM fun x => require fun _ => test x)
        (fun _ => onDisk P) (fun _ => onDisk R) :=
    fun xs test => Triple.forM (fun _ => onDisk P) fun _ _ _ _ =>
      require_triple (fun _ h _ => h) hstop
  apply Triple.seq (require_triple (fun _ h _ => h) hstop)
  apply Triple.seq (hsources _ _)
  apply Triple.seq (hsources _ _)
  apply Triple.seq (hsources _ _)
  apply Triple.seq (hsources _ _)
  refine (Triple.forM (fun done => onDisk fun disk => P disk ∧
    ∀ rel ∈ done, pathExists tools disk rel = true) ?_).weakenPre fun _ h => ⟨h, by simp⟩
  intro done rel _ _
  refine require_triple ?_ fun _ h => hstop _ h.1
  rintro disk ⟨h, hdone⟩ hrel
  refine ⟨h, fun other hother => ?_⟩
  rcases List.mem_append.mp hother with hother | hother
  · exact hdone other hother
  · rw [List.mem_singleton.mp hother]
    exact hrel

/-- One round of a restore loop. -/
theorem restore_progress {before after : List Job} {source : Disk} {rel : Path}
    (hstart : WellFormed start) (hjobs : jobs payload = before ++ ⟨source, rel⟩ :: after) :
    Triple (onDisk (Progress Entry.node start (backupRoot ts) before (⟨source, rel⟩ :: after)))
      (restore tools ts source rel)
      (fun _ => onDisk (Progress Entry.node start (backupRoot ts)
        (before ++ [⟨source, rel⟩]) after))
      (fun _ => onDisk fun disk => ∀ job ∈ jobs payload,
        Kept start (backupRoot ts) job.item disk) := by
  have hlayout := layout ts payload
  rw [hjobs] at hlayout ⊢
  have hrel := hlayout.backup_apart rel (by simp)
  apply Triple.seq (backupAndReplace_progress tools hlayout hstart)
  refine (normalizeBundleOwnership_progress tools ?_ ?_).weakenStop
    fun _ _ h => by simpa [onDisk] using h.kept
  · exact fun job _ => (hrel.symm.append_right _).avoids
  · exact fun job hjob => hlayout.avoids_item (by simp [hjob])

/-- What follows the restore loops leaves the items and the backup alone. -/
theorem normalizeAndRebuild_progress :
    Keeps (onDisk (Progress Entry.node start (backupRoot ts) (jobs payload) []))
      (normalizeAndRebuild tools) := by
  have hnormalize : ∀ bundle, (∀ q, Apart bundle (backupRoot ts ++ q)) →
      Keeps (onDisk (Progress Entry.node start (backupRoot ts) (jobs payload) []))
        (normalizeBundleOwnership tools bundle) :=
    fun bundle hbundle => normalizeBundleOwnership_progress tools
      (fun job _ => (hbundle job.item).avoids) (by simp)
  have hboot : Keeps (onDisk (Progress Entry.node start (backupRoot ts) (jobs payload) []))
        (rebuildCollections tools) ∧
      Keeps (onDisk (Progress Entry.node start (backupRoot ts) (jobs payload) []))
        (createRootSnapshot tools) := by
    refine boot_progress tools (fun job hjob => ⟨extensions, by decide, ?_⟩) fun p =>
      rootPatchBackup_protected _ p
    rw [List.append_nil] at hjob
    exact items_below_extensions _ (jobs_items payload ▸ List.mem_map_of_mem hjob)
  refine Keeps.bind (Keeps.forM fun rel hrel => whenDisk_keeps (hnormalize rel ?_)) fun _ =>
    Keeps.bind (Keeps.forM fun rel hrel => whenDisk_keeps (hnormalize rel ?_)) fun _ =>
    Keeps.bind hboot.1 fun _ =>
    Keeps.bind (normalizeStashedAuxOwnership_keeps tools fun dir name =>
      hnormalize _ fun q => apart_of_head_ne (by decide) _ _) fun _ => hboot.2
  · exact fun q => backupRoot_apart ts (by revert rel; decide) q
  · intro q
    revert rel
    simp [intelAuxStageItems, libraryExtensions, backupRoot, rootPatchBackup, Apart]

theorem overlay_progress (hstart : WellFormed start) :
    Triple (onDisk (· = start)) (overlay tools payload ts)
      (fun _ => onDisk (Progress Entry.node start (backupRoot ts) (jobs payload) []))
      (fun _ => onDisk fun disk => ∀ job ∈ jobs payload,
        Kept start (backupRoot ts) job.item disk) := by
  suffices hrun : Triple (onDisk (Progress Entry.node start (backupRoot ts) []
      (jobs payload))) (overlay tools payload ts)
      (fun _ => onDisk (Progress Entry.node start (backupRoot ts) (jobs payload) []))
      (fun _ => onDisk fun disk => ∀ job ∈ jobs payload,
        Kept start (backupRoot ts) job.item disk) by
    refine hrun.weakenPre fun world hworld => ?_
    rw [onDisk, show world.disk = start from hworld]
    exact progress_start
  refine Triple.seq ((checkTarget_triple tools payload fun _ h => h.kept).weakenPost
    fun _ _ h => h.1) ?_
  refine Triple.seq ((mkdirs_backupRoot_progress tools (layout ts payload)).weakenStop
    fun _ _ h => h.kept) ?_
  refine Triple.seq (remountTargetRW_triple tools fun _ h => h.kept) ?_
  refine Triple.seq (forM_progress [] _ fun before rel after hjobs =>
    restore_progress tools payload ts hstart hjobs) ?_
  refine Triple.seq (forM_progress _ _ fun before rel after hjobs =>
    restore_progress tools payload ts hstart (by simpa [jobs] using hjobs)) ?_
  rw [← List.append_nil (alignedItems.map (Job.mk payload.aligned))]
  refine Triple.seq (forM_progress _ [] fun before rel after hjobs =>
    restore_progress tools payload ts hstart (by simpa [jobs] using hjobs)) ?_
  rw [List.append_assoc, List.nil_append]
  exact (normalizeAndRebuild_progress tools payload ts).weakenStop
    fun _ _ h => by simpa [onDisk] using h.kept

/-- Paths the run may change: the items, the backup, what `kmutil` and `bless`
write, and missing directories on the way. -/
theorem overlay_framed {touched : Path → Prop}
    (houtside : ∀ q, ¬ Outside tools (backupRoot ts) items q → touched q)
    (hmade : ∀ q, q <+: backupRoot ts ∨ q <+: extensions → start.get q = none → touched q) :
    Framed Entry.node start touched (overlay tools payload ts) := by
  have hitem : ∀ item ∈ items, ∀ q, item <+: q → touched q := fun item hitem q hq =>
    houtside q fun h => h.1 item hitem hq
  have hbackup : ∀ q, backupRoot ts <+: q → touched q := fun q hq =>
    houtside q fun h => h.2.1 hq
  have hnormalize : ∀ bundle,
      Framed Entry.node start touched (normalizeBundleOwnership tools bundle) :=
    framed_normalizeBundleOwnership tools
  have hboot : Framed Entry.node start touched (rebuildCollections tools) ∧
      Framed Entry.node start touched (createRootSnapshot tools) :=
    framed_boot tools fun q ⟨output, houtput, hq⟩ => houtside q fun h =>
      h.2.2 output houtput hq
  have hrestore : ∀ source, ∀ rel ∈ items,
      Framed Entry.node start touched (restore tools ts source rel) := by
    intro source rel hrel
    refine Keeps.bind (framed_backupAndReplace tools (hitem rel hrel) hbackup ?_) fun _ =>
      hnormalize rel
    have hparent : rel.dropLast = extensions := by
      revert rel
      decide
    rw [hparent]
    exact hmade
  have hchecks : Framed Entry.node start touched (checkTarget tools payload) :=
    (checkTarget_triple tools payload fun _ h => h).weakenPost fun _ _ h => h.1
  have hmkdir : Framed Entry.node start touched (mkdirs tools [backupRoot ts]) :=
    framed_mkdirs tools fun p hp q hq =>
      hmade q (Or.inl (List.mem_singleton.mp hp ▸ hq))
  refine Keeps.bind hchecks fun _ => Keeps.bind hmkdir fun _ =>
    Keeps.bind (framed_remountTargetRW tools) fun _ =>
    Keeps.bind (Keeps.forM fun rel hrel => hrestore _ rel (by simp [items, hrel])) fun _ =>
    Keeps.bind (Keeps.forM fun rel hrel => hrestore _ rel (by simp [items, hrel])) fun _ =>
    Keeps.bind (Keeps.forM fun rel hrel => hrestore _ rel (by simp [items, hrel])) fun _ =>
    Keeps.bind (Keeps.forM fun rel _ => whenDisk_keeps (hnormalize rel)) fun _ =>
    Keeps.bind (Keeps.forM fun rel _ => whenDisk_keeps (hnormalize rel)) fun _ =>
    Keeps.bind hboot.1 fun _ =>
    Keeps.bind (normalizeStashedAuxOwnership_keeps tools fun _ _ => hnormalize _) fun _ =>
    hboot.2

/-- A run that completes passed the checks, so the target has an `Extensions`
directory. -/
theorem extensions_present {final : World} (hstart : WellFormed start)
    (hrun : overlay tools payload ts ⟨start, 0, []⟩ = .ok () final) {q : Path}
    (hq : q <+: extensions) : start.get q ≠ none := by
  obtain ⟨_, checked, hchecks, -⟩ := bind_eq_ok hrun
  obtain ⟨rfl, hrequired⟩ := (checkTarget_triple (R := fun _ => True) tools payload
    fun _ _ => trivial).ok (onDisk_start start) hchecks
  have hcapri := get_ne_none_of_pathExists tools
    (hrequired (extensions ++ ["AppleIntelFramebufferCapri.kext"]) (by decide))
  exact hstart.present_of_leading hcapri (hq.trans (List.prefix_append _ _))

/-- The complete content an item had before the run is at its place or in the
backup. -/
def Recoverable (start : Disk) (backupRoot item : Path) (disk : Disk) : Prop :=
  SameBelow disk item start item ∨ SameBelow disk (backupRoot ++ item) start item

/-- Wherever the run stops, every item can be recovered.  A run that completes
has replaced every item by its payload and has changed nothing else but the
missing directories on the way to the backup. -/
theorem overlay_recoverable (hstart : WellFormed start)
    (hfresh : EmptyBelow start (backupRoot ts)) :
    (∀ item ∈ items, Recoverable start (backupRoot ts) item
        (endState (overlay tools payload ts ⟨start, 0, []⟩)).disk) ∧
      ∀ final, overlay tools payload ts ⟨start, 0, []⟩ = .ok () final →
        (∀ job ∈ jobs payload, ∀ r, seen Entry.node final.disk (job.item ++ r) =
          seen Entry.node job.source (job.item ++ r)) ∧
        ∀ q, Outside tools (backupRoot ts) items q →
          ¬ (start.get q = none ∧ q <+: backupRoot ts) →
          seen Entry.node final.disk q = seen Entry.node start q := by
  have hpre := onDisk_start start
  have hprogress := overlay_progress tools payload ts hstart
  constructor
  · intro item hitem
    obtain ⟨job, hjob, rfl⟩ := List.mem_map.mp ((jobs_items payload).symm ▸ hitem)
    have hkept := (hprogress.weakenPost
      fun _ _ h => by simpa [onDisk] using h.kept).endState hpre job hjob
    exact hkept.imp id fun hsaved => hsaved.sameBelow hfresh
  · intro final hrun
    refine ⟨(hprogress.ok hpre hrun).replaced, fun q houtside hmissing => ?_⟩
    have hframed : Framed Entry.node start
        (fun q => ¬ Outside tools (backupRoot ts) items q ∨
          start.get q = none ∧ (q <+: backupRoot ts ∨ q <+: extensions))
        (overlay tools payload ts) :=
      overlay_framed tools payload ts (fun q hq => Or.inl hq)
        fun q hq hnone => Or.inr ⟨hnone, hq⟩
    apply hframed.ok (fun _ _ => rfl) hrun
    rintro (hq | ⟨hnone, hbackup | hextensions⟩)
    · exact hq houtside
    · exact hmissing ⟨hnone, hbackup⟩
    · exact extensions_present tools payload ts hstart hrun hextensions hnone

end Run

section Samples

def target : Disk :=
  sampleVolume [extensions, ["Library", "Application Support"]] (requiredItems ++ items) [0]

def samplePayload : Payload :=
  ⟨sampleVolume [extensions] bronzeCompatItems [1],
    sampleVolume [extensions] amdSharedCompatItems [2],
    sampleVolume [extensions] alignedItems [3]⟩

theorem overlay_completed :
    completed (overlay exactTools samplePayload "20260101-000000" ⟨target, 0, []⟩) = true := by
  decide +kernel

/-- The run on the sample volume completes and keeps every item recoverable. -/
theorem target_recoverable :
    ∃ final, overlay exactTools samplePayload "20260101-000000" ⟨target, 0, []⟩ =
        .ok () final ∧
      (∀ item ∈ items, Recoverable target (backupRoot "20260101-000000") item final.disk) ∧
      ∀ job ∈ jobs samplePayload, ∀ r, seen Entry.node final.disk (job.item ++ r) =
        seen Entry.node job.source (job.item ++ r) := by
  have hrun := eq_ok_of_completed overlay_completed
  have hstart : WellFormed target := wellFormed_of_entries (by decide +kernel)
  have hfresh : EmptyBelow target (backupRoot "20260101-000000") :=
    emptyBelow_of_entries (by decide +kernel)
  have hsafe := overlay_recoverable exactTools samplePayload _ hstart hfresh
  exact ⟨_, hrun, hsafe.1, (hsafe.2 _ hrun).1⟩

/-- The run makes the directories leading to the backup, which are outside the
items and the backup. -/
theorem overlay_makes_backup_parents :
    ∃ final, overlay exactTools samplePayload "20260101-000000" ⟨target, 0, []⟩ =
        .ok () final ∧
      Outside exactTools (backupRoot "20260101-000000") items
        ["Library", "Application Support", "Kryptonite"] ∧
      seen Entry.node final.disk ["Library", "Application Support", "Kryptonite"] ≠
        seen Entry.node target ["Library", "Application Support", "Kryptonite"] :=
  ⟨_, eq_ok_of_completed overlay_completed, by decide +kernel, by decide +kernel⟩

end Samples

end ScanoutOverlay

end Kryptonite
