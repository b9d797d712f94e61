/-
`stash_sequoia_polaris_root_payload.sh`, which copies the Polaris payload of one
volume into a stash directory, and `apply_sequoia_polaris_overlay.sh`, which
overlays a stash onto another volume.  The stash directory is on neither of the
two volumes.
-/
import Kryptonite.Overlay

namespace Kryptonite

namespace PolarisOverlay

open PathTree Script Volume Overlay

section Scripts

def frameworks : Path := ["System", "Library", "Frameworks"]

/-- `PAYLOAD_ITEMS`; the list is the same in both scripts. -/
def payloadItems : List Path :=
  [frameworks ++ ["OpenCL.framework"],
    frameworks ++ ["OpenGL.framework"],
    extensions ++ ["AMDMTLBronzeDriver.bundle"],
    extensions ++ ["AMDRadeonVADriver2.bundle"],
    extensions ++ ["AMDRadeonX4000.kext"],
    extensions ++ ["AMDRadeonX4000GLDriver.bundle"],
    extensions ++ ["AMDRadeonX4000HWServices.kext"],
    extensions ++ ["AMDShared.bundle"]]

def patchsetPlist : Path :=
  ["System", "Library", "CoreServices", "OpenCore-Legacy-Patcher.plist"]

variable (tools : Tools)

/-- One round of the stash loop. -/
def stashItem (source : Disk) (rel : Path) : Shell Unit := do
  require fun _ => pathExists tools source rel
  mkdirs tools [rel.dropLast]
  dittoFrom tools source rel rel

/-- The stash script, working on the stash directory. -/
def stash (source : Disk) : Shell Unit := do
  require fun _ => isDirectory tools source []
  require fun _ => isFile tools source patchsetPlist
  mkdirs tools [[]]
  payloadItems.forM (stashItem tools source)
  writeFile tools ["OpenCore-Legacy-Patcher.plist"]
  writeFile tools ["manifest.txt"]

def backupRoot (ts : String) : Path := rootPatchBackup (ts ++ "-polaris-overlay")

/-- The binary `framework_binary_missing` looks for. -/
def frameworkBinary (name : String) : Path :=
  ["System", "Library", "PrivateFrameworks", name ++ ".framework", "Versions", "A", name]

/-- What the target must already have. -/
def requiredItems : List Path :=
  [extensions ++ ["AppleIntelFramebufferCapri.kext"],
    extensions ++ ["AppleIntelHD4000Graphics.kext"],
    frameworkBinary "AppleGVA",
    frameworkBinary "AppleGVACore"]

def checkTarget (stashed : Disk) : Shell Unit := do
  require fun disk => isDirectory tools disk []
  require fun _ => isDirectory tools stashed []
  requiredItems.forM fun rel => require fun disk => pathExists tools disk rel

/-- The overlay script, working on the target. -/
def overlay (stashed : Disk) (ts : String) : Shell Unit := do
  checkTarget tools stashed
  mkdirs tools [backupRoot ts]
  remountTargetRW tools
  payloadItems.forM (backupAndReplace tools (backupRoot ts) stashed)
  rebuildCollections tools
  createRootSnapshot tools

end Scripts

section Layout

theorem items_protected : ∀ item ∈ payloadItems, ∃ root ∈ protectedRoots, root <+: item := by
  decide

theorem payloadItems_apart : payloadItems.Pairwise Apart := by
  decide

theorem layout (ts : String) : Layout (backupRoot ts) payloadItems := by
  refine ⟨payloadItems_apart, fun item hitem => ?_⟩
  obtain ⟨rest, rfl⟩ : ["System"] <+: item := by
    revert item
    decide
  exact apart_of_head_ne (by decide) _ _

end Layout

section Stash

variable {source before : Disk} {rel : Path}

/-- The items stashed so far lie over what the stash held, the others are as
they were. -/
def Stashed (source before : Disk) (done : List Path) (disk : Disk) : Prop :=
  ∀ item ∈ payloadItems, ∀ r, disk.get (item ++ r) =
    if item ∈ done then (source.get (item ++ r)).or (before.get (item ++ r))
    else before.get (item ++ r)

theorem Stashed.of_within {done : List Path} {disk after : Disk} {touched : Path → Prop}
    (h : Stashed source before done disk) (hwithin : Within touched disk after)
    (havoids : ∀ item ∈ payloadItems, Avoids touched item) :
    Stashed source before done after :=
  fun item hitem r => (hwithin _ (havoids item hitem r)).trans (h item hitem r)

variable (tools : Tools)

theorem stashItem_stashed {done : List Path} (hrel : rel ∈ payloadItems)
    (hdone : rel ∉ done) :
    Triple (onDisk (Stashed source before done)) (stashItem tools source rel)
      (fun _ => onDisk (Stashed source before (done ++ [rel])))
      (fun _ => onDisk fun _ => True) := by
  apply Triple.seq (require_triple (fun _ h _ => h) fun _ _ => trivial)
  refine Triple.seq (call_triple (fun n disk h _ => h.of_within
    (tools.mkdir_within n _ disk) fun item hitem => ?_) fun _ _ _ => trivial) ?_
  · simp only [List.mem_singleton, exists_eq_left]
    exact avoids_leading ((layout "").not_prefix_parent hitem hrel)
  · refine call_triple (fun n disk h hrun item hitem r => ?_) fun _ _ _ => trivial
    by_cases hsame : item = rel
    · subst hsame
      rw [tools.ditto_ok n source item item disk hrun, h item hitem r]
      simp [hdone]
    · have hapart := payloadItems_apart.forall hrel hitem (Ne.symm hsame)
      rw [tools.ditto_within n source rel rel disk _ (hapart.avoids r), h item hitem r]
      simp [hsame]

/-- What the stash holds after the script has completed. -/
theorem stash_stashed :
    Triple (onDisk (· = before)) (stash tools source)
      (fun _ => onDisk (Stashed source before payloadItems)) (fun _ => onDisk fun _ => True) := by
  have hwrite : ∀ name : String, (∀ item ∈ payloadItems, Avoids ([name] <+: ·) item) →
      Triple (onDisk (Stashed source before payloadItems)) (writeFile tools [name])
        (fun _ => onDisk (Stashed source before payloadItems)) (fun _ => onDisk fun _ => True) :=
    fun name hname => call_triple (fun n disk h _ =>
      h.of_within (tools.write_within n _ disk) hname) fun _ _ _ => trivial
  have hnodup : payloadItems.Nodup := by decide
  refine Triple.weakenPre (?_ : Triple (onDisk (Stashed source before [])) _ _ _)
    fun world hworld => ?_
  · apply Triple.seq (require_triple (fun _ h _ => h) fun _ _ => trivial)
    apply Triple.seq (require_triple (fun _ h _ => h) fun _ _ => trivial)
    refine Triple.seq (call_triple (fun n disk h _ => h.of_within
      (tools.mkdir_within n _ disk) fun item hitem => ?_) fun _ _ _ => trivial) ?_
    · simp only [List.mem_singleton, exists_eq_left]
      exact avoids_leading (by revert item; decide)
    · refine Triple.seq (Triple.forM (fun done => onDisk (Stashed source before done)) ?_) ?_
      · intro done rel rest hitems
        apply stashItem_stashed tools (by simp [hitems])
        intro hmem
        rw [hitems, List.nodup_append] at hnodup
        exact hnodup.2.2 rel hmem rel (by simp) rfl
      · refine Triple.seq (hwrite _ ?_) (hwrite _ ?_)
        · exact fun item hitem => Apart.avoids (by revert item; decide)
        · exact fun item hitem => Apart.avoids (by revert item; decide)
  · intro item _ r
    rw [show world.disk = before from hworld]
    simp

end Stash

section Overlay

variable {target stashed : Disk} (tools : Tools) (ts : String)

def jobs (stashed : Disk) : List Job := payloadItems.map (Job.mk stashed)

theorem jobs_items (stashed : Disk) : (jobs stashed).map Job.item = payloadItems := by
  rw [jobs, List.map_map]
  exact List.map_id _

theorem checkTarget_keeps (P : Disk → Prop) :
    Keeps (onDisk P) (checkTarget tools stashed) :=
  Keeps.bind (require_keeps _) fun _ => Keeps.bind (require_keeps _) fun _ =>
    Keeps.forM fun _ _ => require_keeps _

/-- A completed run has put the stashed items into their places. -/
theorem overlay_progress (htarget : WellFormed target) :
    Triple (onDisk (· = target)) (overlay tools stashed ts)
      (fun _ => onDisk (Progress id target (backupRoot ts) (jobs stashed) []))
      (fun _ => onDisk fun _ => True) := by
  have hlayout : Layout (backupRoot ts) ((jobs stashed).map Job.item) := by
    rw [jobs_items]
    exact layout ts
  have hboot : Keeps (onDisk (Progress id target (backupRoot ts) (jobs stashed) []))
        (rebuildCollections tools) ∧
      Keeps (onDisk (Progress id target (backupRoot ts) (jobs stashed) []))
        (createRootSnapshot tools) := by
    refine boot_progress tools (fun job hjob => items_protected job.item ?_) fun p =>
      rootPatchBackup_protected _ p
    rw [List.append_nil] at hjob
    exact jobs_items stashed ▸ List.mem_map_of_mem hjob
  have hstop : ∀ {m : Shell Unit} {P Q R : Disk → Prop},
      Triple (onDisk P) m (fun _ => onDisk Q) (fun _ => onDisk R) →
      Triple (onDisk P) m (fun _ => onDisk Q) (fun _ => onDisk fun _ => True) :=
    fun h => h.weakenStop fun _ _ _ => trivial
  suffices hrun : Triple (onDisk (Progress id target (backupRoot ts) [] (jobs stashed)))
      (overlay tools stashed ts)
      (fun _ => onDisk (Progress id target (backupRoot ts) (jobs stashed) []))
      (fun _ => onDisk fun _ => True) by
    refine hrun.weakenPre fun world hworld => ?_
    rw [onDisk, show world.disk = target from hworld]
    exact progress_start
  apply Triple.seq (hstop (checkTarget_keeps tools _))
  apply Triple.seq (hstop (mkdirs_backupRoot_progress tools hlayout))
  apply Triple.seq (remountTargetRW_triple tools fun _ _ => trivial)
  rw [← List.append_nil (jobs stashed)]
  refine Triple.seq (forM_progress [] [] fun before rel after hjobs => hstop
    (backupAndReplace_progress tools ?_ htarget)) ?_
  · rw [← hjobs]
    simpa [jobs] using hlayout
  · rw [List.append_nil, List.nil_append]
    exact Triple.seq (hstop hboot.1) (hstop hboot.2)

/-- Paths the run may change: the items, the backup, what `kmutil` and `bless`
write, and missing directories on the way. -/
theorem overlay_framed {touched : Path → Prop}
    (houtside : ∀ q, ¬ Outside tools (backupRoot ts) payloadItems q → touched q)
    (hmade : ∀ q, q <+: backupRoot ts ∨ (∃ item ∈ payloadItems, q <+: item.dropLast) →
      target.get q = none → touched q) :
    Framed id target touched (overlay tools stashed ts) := by
  have hboot : Framed id target touched (rebuildCollections tools) ∧
      Framed id target touched (createRootSnapshot tools) :=
    framed_boot tools fun q ⟨output, houtput, hq⟩ => houtside q fun h =>
      h.2.2 output houtput hq
  refine Keeps.bind (checkTarget_keeps tools _) fun _ =>
    Keeps.bind (framed_mkdirs tools fun p hp q hq =>
      hmade q (Or.inl (List.mem_singleton.mp hp ▸ hq))) fun _ =>
    Keeps.bind (framed_remountTargetRW tools) fun _ =>
    Keeps.bind (Keeps.forM fun rel hrel => framed_backupAndReplace tools ?_ ?_ ?_) fun _ =>
    Keeps.bind hboot.1 fun _ => hboot.2
  · exact fun q hq => houtside q fun h => h.1 rel hrel hq
  · exact fun q hq => houtside q fun h => h.2.1 hq
  · exact fun q hq => hmade q (hq.imp id fun hq => ⟨rel, hrel, hq⟩)

section Presence

variable {q : Path}

/-- Under a condition, `q` is there. -/
def PresentIf (C : Prop) (q : Path) (disk : Disk) : Prop := C → disk.get q ≠ none

theorem presentIf_triple {m : Shell Unit} (C : Prop)
    (h : Keeps (onDisk fun disk => disk.get q ≠ none) m) :
    Triple (onDisk (PresentIf C q)) m (fun _ => onDisk (PresentIf C q))
      (fun _ => onDisk fun _ => True) := by
  intro world hworld
  cases hrun : m world with
  | ok u after => exact fun hC => h.ok (hworld hC) hrun
  | error e after => exact trivial

theorem mkdirs_presentIf (C : Prop) (paths : List Path) :
    Triple (onDisk (PresentIf C q)) (mkdirs tools paths)
      (fun _ => onDisk (PresentIf (C ∨ ∃ p ∈ paths, q <+: p) q))
      (fun _ => onDisk fun _ => True) := by
  refine call_triple (fun n disk h hrun => ?_) fun _ _ _ => trivial
  rintro (hC | ⟨p, hp, hq⟩)
  · rcases tools.mkdir_get n paths disk q with hsame | ⟨hnone, -⟩
    · rw [hsame]
      exact h hC
    · exact absurd hnone (h hC)
  · exact tools.mkdir_ok n paths disk hrun p hp q hq

theorem backupAndReplace_presentIf (C : Prop) {rel : Path} (hrel : ¬ rel <+: q)
    (hbackup : ¬ backupRoot ts <+: q) :
    Triple (onDisk (PresentIf C q)) (backupAndReplace tools (backupRoot ts) stashed rel)
      (fun _ => onDisk (PresentIf (C ∨ q <+: rel.dropLast) q))
      (fun _ => onDisk fun _ => True) := by
  have hcopy : ¬ backupRoot ts ++ rel <+: q := fun hq =>
    hbackup ((List.prefix_append _ _).trans hq)
  have htouched : ∀ {p : Path}, ¬ p <+: q → ∀ x, p <+: x → x ≠ q := by
    rintro p hp x hx rfl
    exact hp hx
  apply Triple.seq (require_triple (fun _ h _ => h) fun _ _ => trivial)
  apply Triple.seq (mkdirs_presentIf tools C _)
  refine Triple.weakenPre (?_ : Triple (onDisk (PresentIf (C ∨ q <+: rel.dropLast) q)) _ _ _)
    fun _ h hC => h (hC.imp id fun hq => ⟨rel.dropLast, by simp, hq⟩)
  refine presentIf_triple _ (present_keeps id fun start _ => ?_)
  exact Keeps.bind (whenDisk_keeps (Keeps.bind
    (framed_dittoWithin tools (htouched hcopy)) fun _ =>
      framed_remove tools (htouched hrel))) fun _ => framed_dittoFrom tools (htouched hrel)

/-- The directories on the way to the backup and to the items are there after a
completed run. -/
theorem overlay_present (houtside : Outside tools (backupRoot ts) payloadItems q)
    (hleads : q <+: backupRoot ts ∨ ∃ item ∈ payloadItems, q <+: item.dropLast) :
    Triple (onDisk fun _ => True) (overlay tools stashed ts)
      (fun _ => onDisk fun disk => disk.get q ≠ none) (fun _ => onDisk fun _ => True) := by
  have hboot : ∀ start, Framed id start (· ≠ q) (rebuildCollections tools) ∧
      Framed id start (· ≠ q) (createRootSnapshot tools) := by
    refine fun start => framed_boot tools ?_
    rintro x ⟨output, houtput, hx⟩ rfl
    exact houtside.2.2 output houtput hx
  apply Triple.seq ((checkTarget_keeps tools (PresentIf False q)).weaken
    (fun _ _ h => h.elim) (fun _ _ h => h) fun _ _ _ => trivial)
  apply Triple.seq (mkdirs_presentIf tools _ _)
  apply Triple.seq (remountTargetRW_triple tools fun _ _ => trivial)
  refine Triple.seq ((Triple.forM (fun done => onDisk (PresentIf
    (q <+: backupRoot ts ∨ ∃ item ∈ done, q <+: item.dropLast) q)) ?_).weakenPre
    fun _ h hC => h (by simpa using hC)) ?_
  · intro done rel rest hitems
    refine (backupAndReplace_presentIf tools ts _ (houtside.1 rel (by simp [hitems]))
      houtside.2.1).weakenPost fun _ _ h hC => h ?_
    rcases hC with hC | ⟨item, hitem, hq⟩
    · exact Or.inl (Or.inl hC)
    · rcases List.mem_append.mp hitem with hdone | hlast
      · exact Or.inl (Or.inr ⟨item, hdone, hq⟩)
      · exact Or.inr (List.mem_singleton.mp hlast ▸ hq)
  · refine Triple.weakenPost (presentIf_triple _ (Keeps.bind
      (present_keeps id fun start _ => (hboot start).1) fun _ =>
        present_keeps id fun start _ => (hboot start).2)) fun _ _ h => h hleads

end Presence

end Overlay

section Transfer

variable {source stashDir target : Disk} (stashTools tools : Tools) (ts : String)

/-- The two scripts transfer the items exactly if and only if the stash held
nothing at an item that the source does not have; the rest of the target stays
as it is unless a directory on the way to the backup or to an item is missing. -/
theorem transfer_exact_iff {stashed final : World} (htarget : WellFormed target)
    (hstash : stash stashTools source ⟨stashDir, 0, []⟩ = .ok () stashed)
    (hoverlay : overlay tools stashed.disk ts ⟨target, 0, []⟩ = .ok () final) :
    ((∀ item ∈ payloadItems, SameBelow final.disk item source item) ∧
        ∀ q, Outside tools (backupRoot ts) payloadItems q →
          final.disk.get q = target.get q) ↔
      (∀ item ∈ payloadItems, ∀ r,
        stashDir.get (item ++ r) ≠ none → source.get (item ++ r) ≠ none) ∧
      ∀ q, Outside tools (backupRoot ts) payloadItems q →
        (q <+: backupRoot ts ∨ ∃ item ∈ payloadItems, q <+: item.dropLast) →
        target.get q ≠ none := by
  have hstashed := (stash_stashed stashTools).ok (onDisk_start stashDir) hstash
  have hprogress := (overlay_progress tools ts htarget).ok (onDisk_start target) hoverlay
  have hitem : ∀ item ∈ payloadItems, ∀ r, final.disk.get (item ++ r) =
      (source.get (item ++ r)).or (stashDir.get (item ++ r)) := by
    intro item hmem r
    have hreplaced := hprogress.replaced ⟨stashed.disk, item⟩ (List.mem_map_of_mem hmem) r
    simp only [seen, Option.map_id, id] at hreplaced
    rw [hreplaced, hstashed item hmem r, if_pos hmem]
  refine and_congr (forall₂_congr fun item hmem => forall_congr' fun r => ?_)
    (forall₂_congr fun q houtside => ?_)
  · rw [hitem item hmem r]
    cases source.get (item ++ r) with
    | some entry => simp
    | none => simp
  · constructor
    · intro hsame hleads
      rw [← hsame]
      exact (overlay_present tools ts houtside hleads).ok trivial hoverlay
    · intro hpresent
      have hframed : Framed id target
          (fun q => ¬ Outside tools (backupRoot ts) payloadItems q ∨ target.get q = none ∧
            (q <+: backupRoot ts ∨ ∃ item ∈ payloadItems, q <+: item.dropLast))
          (overlay tools stashed.disk ts) :=
        overlay_framed tools ts (fun q hq => Or.inl hq) fun q hq hnone => Or.inr ⟨hnone, hq⟩
      have hq := hframed.ok (fun _ _ => rfl) hoverlay q (by
        rintro (hq | ⟨hnone, hleads⟩)
        · exact hq houtside
        · exact hpresent hleads hnone)
      simpa only [seen, Option.map_id, id] using hq

end Transfer

section Samples

def sampleSource : Disk :=
  (sampleVolume [frameworks, extensions, ["System", "Library", "CoreServices"]]
    payloadItems [1]).put patchsetPlist ⟨.file [], (0, 0)⟩

def sampleTarget : Disk :=
  sampleVolume ([frameworks, ["Library", "Application Support", "Kryptonite",
    "RootPatchBackups"]] ++ requiredItems) payloadItems [0]

/-- A stash made earlier, from a volume whose `AMDShared.bundle` had one more
file. -/
def staleStash : Disk :=
  sampleVolume [extensions ++ ["AMDShared.bundle", "Resources"]] [] []

def emptyStash : Disk := sampleVolume [[]] [] []

/-- Both scripts, one after the other. -/
def transfer (stashDir : Disk) : EStateM.Result Nat World Unit :=
  overlay exactTools (endState (stash exactTools sampleSource ⟨stashDir, 0, []⟩)).disk
    "20260101-000000" ⟨sampleTarget, 0, []⟩

/-- Into an empty stash and onto a target with all its directories the transfer
is exact. -/
theorem empty_stash_transfer_exact :
    ∃ stashed final,
      stash exactTools sampleSource ⟨emptyStash, 0, []⟩ = .ok () stashed ∧
      overlay exactTools stashed.disk "20260101-000000" ⟨sampleTarget, 0, []⟩ =
        .ok () final ∧
      ∀ item ∈ payloadItems, SameBelow final.disk item sampleSource item := by
  have hstash : completed (stash exactTools sampleSource ⟨emptyStash, 0, []⟩) = true := by
    decide +kernel
  have hoverlay : completed (transfer emptyStash) = true := by
    decide +kernel
  have htarget : WellFormed sampleTarget := wellFormed_of_entries (by decide +kernel)
  have hiff := transfer_exact_iff exactTools exactTools "20260101-000000" htarget
    (eq_ok_of_completed hstash) (eq_ok_of_completed hoverlay)
  refine ⟨_, _, eq_ok_of_completed hstash, eq_ok_of_completed hoverlay, (hiff.mpr ⟨?_, ?_⟩).1⟩
  · have hempty : ∀ item ∈ payloadItems, ∀ entry ∈ emptyStash.entries,
        ¬ item <+: entry.1 := by
      decide
    intro item hitem r hr
    exact absurd (emptyBelow_of_entries (hempty item hitem) r) hr
  · rintro q houtside (hq | ⟨item, hitem, hq⟩)
    · have hall : ∀ q ∈ (backupRoot "20260101-000000").inits,
          Outside exactTools (backupRoot "20260101-000000") payloadItems q →
            sampleTarget.get q ≠ none := by
        decide +kernel
      exact hall q ((List.mem_inits _ _).mpr hq) houtside
    · have hall : ∀ item ∈ payloadItems, ∀ q ∈ item.dropLast.inits,
          sampleTarget.get q ≠ none := by
        decide +kernel
      exact hall item hitem q ((List.mem_inits _ _).mpr hq)

/-- A stale directory of the stash ends up on the target. -/
theorem stale_stash_reaches_target :
    ∃ stashed final,
      stash exactTools sampleSource ⟨staleStash, 0, []⟩ = .ok () stashed ∧
      overlay exactTools stashed.disk "20260101-000000" ⟨sampleTarget, 0, []⟩ =
        .ok () final ∧
      final.disk.get (extensions ++ ["AMDShared.bundle", "Resources"]) ≠
        sampleSource.get (extensions ++ ["AMDShared.bundle", "Resources"]) := by
  have hstash : completed (stash exactTools sampleSource ⟨staleStash, 0, []⟩) = true := by
    decide +kernel
  have hoverlay : completed (transfer staleStash) = true ∧
      (endState (transfer staleStash)).disk.get (extensions ++ ["AMDShared.bundle", "Resources"]) ≠
        sampleSource.get (extensions ++ ["AMDShared.bundle", "Resources"]) := by
    decide +kernel
  exact ⟨_, _, eq_ok_of_completed hstash, eq_ok_of_completed hoverlay.1, hoverlay.2⟩

end Samples

end PolarisOverlay

end Kryptonite
