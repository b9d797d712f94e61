/-
`backup_and_replace`, the step the overlay scripts repeat for every payload
item: copy what the target holds into the backup, remove it, copy the payload
into its place.  Every command may fail part-way, and the script stops there.
-/
import Kryptonite.Volume
import Mathlib.Data.List.Pairwise

namespace Kryptonite

namespace Overlay

open PathTree Script Volume

section Scripts

variable (tools : Tools) (backupRoot : Path)

/-- `if [ -e "$dst" ] || [ -L "$dst" ]; then ditto "$dst" "$bkp"; rm -rf "$dst"; fi` -/
def backupIfPresent (rel : Path) : Shell Unit :=
  whenDisk (present tools · rel) do
    dittoWithin tools rel (backupRoot ++ rel)
    remove tools rel

def backupAndReplace (source : Disk) (rel : Path) : Shell Unit := do
  require fun _ => pathExists tools source rel
  mkdirs tools [backupRoot ++ rel.dropLast, rel.dropLast]
  backupIfPresent tools backupRoot rel
  dittoFrom tools source rel rel

end Scripts

/-- One item of a payload. -/
structure Job where
  source : Disk
  item : Path

/-- The items and the backup are in separate places. -/
structure Layout (backupRoot : Path) (items : List Path) : Prop where
  items_apart : items.Pairwise Apart
  backup_apart : ∀ item ∈ items, Apart backupRoot item

/-- The backup holds what the target held at an item before the run, over what
was in the backup already. -/
def Saved (start : Disk) (backupRoot item : Path) (disk : Disk) : Prop :=
  ∀ r, disk.get (backupRoot ++ item ++ r) =
    (start.get (item ++ r)).or (start.get (backupRoot ++ item ++ r))

/-- What the target held at an item before the run is at its place or in the
backup. -/
def Kept (start : Disk) (backupRoot item : Path) (disk : Disk) : Prop :=
  SameBelow disk item start item ∨ Saved start backupRoot item disk

/-- A fresh backup holds exactly what the target held. -/
theorem Saved.sameBelow {start disk : Disk} {backupRoot item : Path}
    (h : Saved start backupRoot item disk) (hfresh : EmptyBelow start backupRoot) :
    SameBelow disk (backupRoot ++ item) start item := by
  intro r
  rw [h r, List.append_assoc, hfresh, Option.or_none]

/-- The run is through with the jobs of `done` and has not touched those of
`rest`. -/
structure Progress {β : Type} (view : Entry → β) (start : Disk) (backupRoot : Path)
    (done rest : List Job) (disk : Disk) : Prop where
  saved : ∀ job ∈ done, Saved start backupRoot job.item disk
  replaced : ∀ job ∈ done, ∀ r,
    seen view disk (job.item ++ r) = seen view job.source (job.item ++ r)
  waiting : ∀ job ∈ rest, SameBelow disk job.item start job.item ∧
    SameBelow disk (backupRoot ++ job.item) start (backupRoot ++ job.item)

section Progress

variable {β : Type} {view : Entry → β} {start disk after : Disk} {backupRoot : Path}
variable {done rest : List Job} {touched : Path → Prop}

theorem Saved.of_within {item : Path} (h : Saved start backupRoot item disk)
    (hwithin : Within touched disk after) (havoids : Avoids touched (backupRoot ++ item)) :
    Saved start backupRoot item after :=
  fun r => (hwithin _ (havoids r)).trans (h r)

theorem Progress.of_within (h : Progress view start backupRoot done rest disk)
    (hwithin : Within touched disk after)
    (havoids : ∀ job ∈ done ++ rest, Avoids touched job.item ∧
      Avoids touched (backupRoot ++ job.item)) :
    Progress view start backupRoot done rest after where
  saved job hjob := (h.saved job hjob).of_within hwithin (havoids job (by simp [hjob])).2
  replaced job hjob r := by
    rw [← h.replaced job hjob r, seen, seen, hwithin _ ((havoids job (by simp [hjob])).1 r)]
  waiting job hjob :=
    ⟨(h.waiting job hjob).1.of_within hwithin (havoids job (by simp [hjob])).1,
      (h.waiting job hjob).2.of_within hwithin (havoids job (by simp [hjob])).2⟩

theorem Progress.kept (h : Progress view start backupRoot done rest disk) :
    ∀ job ∈ done ++ rest, Kept start backupRoot job.item disk := by
  intro job hjob
  rcases List.mem_append.mp hjob with hdone | hrest
  · exact Or.inr (h.saved job hdone)
  · exact Or.inl (h.waiting job hrest).1

end Progress

namespace Layout

variable {backupRoot : Path} {done rest : List Job} {job other : Job}

theorem apart_of_mem (h : Layout backupRoot ((done ++ job :: rest).map Job.item))
    (hother : other ∈ done ++ rest) : Apart job.item other.item := by
  have hpairs := h.items_apart
  rw [List.map_append, List.map_cons, List.pairwise_append, List.pairwise_cons] at hpairs
  rcases List.mem_append.mp hother with hdone | hrest
  · exact (hpairs.2.2 _ (List.mem_map_of_mem hdone) _ List.mem_cons_self).symm
  · exact hpairs.2.1.1 _ (List.mem_map_of_mem hrest)

theorem not_prefix_parent {items : List Path} (h : Layout backupRoot items) {p q : Path}
    (hp : p ∈ items) (hq : q ∈ items) : ¬ p <+: q.dropLast := by
  intro hbelow
  by_cases hsame : p = q
  · subst hsame
    have hlength := hbelow.length_le
    rw [List.length_dropLast] at hlength
    have hempty : p = [] := List.length_eq_zero_iff.mp (by omega)
    exact (h.backup_apart p hp).2 (hempty ▸ List.nil_prefix)
  · exact (h.items_apart.forall hp hq hsame).1 (hbelow.trans (List.dropLast_prefix q))

/-- The directories made for one item are not below any item or its backup. -/
theorem avoids_parents {items : List Path} (h : Layout backupRoot items) {p q : Path}
    (hp : p ∈ items) (hq : q ∈ items) :
    let touched : Path → Prop := fun x =>
      ∃ dir ∈ [backupRoot ++ q.dropLast, q.dropLast], x <+: dir
    Avoids touched p ∧ Avoids touched (backupRoot ++ p) := by
  have hparent := h.not_prefix_parent hp hq
  have hbackup : ¬ backupRoot ++ p <+: q.dropLast := fun hbelow =>
    (h.backup_apart q hq).1 (((List.prefix_append backupRoot p).trans hbelow).trans
      (List.dropLast_prefix q))
  constructor
  · rintro r ⟨dir, hdir, hleads⟩
    simp only [List.mem_cons, List.not_mem_nil, or_false] at hdir
    rcases hdir with rfl | rfl
    · exact avoids_leading ((h.backup_apart p hp).symm.not_prefix_append _) r hleads
    · exact avoids_leading hparent r hleads
  · rintro r ⟨dir, hdir, hleads⟩
    simp only [List.mem_cons, List.not_mem_nil, or_false] at hdir
    rcases hdir with rfl | rfl
    · refine avoids_leading (fun hbelow => hparent ?_) r hleads
      exact (List.prefix_append_right_inj backupRoot).mp hbelow
    · exact avoids_leading hbackup r hleads

theorem avoids_item (h : Layout backupRoot ((done ++ job :: rest).map Job.item))
    (hother : other ∈ done ++ rest) :
    Avoids (job.item <+: ·) other.item ∧
      Avoids (job.item <+: ·) (backupRoot ++ other.item) :=
  ⟨(h.apart_of_mem hother).avoids,
    ((h.backup_apart job.item (by simp)).symm.append_right _).avoids⟩

theorem avoids_backup (h : Layout backupRoot ((done ++ job :: rest).map Job.item))
    (hother : other ∈ done ++ rest) :
    Avoids (backupRoot ++ job.item <+: ·) other.item ∧
      Avoids (backupRoot ++ job.item <+: ·) (backupRoot ++ other.item) := by
  have hmem : other.item ∈ (done ++ job :: rest).map Job.item := by
    rcases List.mem_append.mp hother with hother | hother <;>
      exact List.mem_map_of_mem (by simp [hother])
  exact ⟨((h.backup_apart _ hmem).symm.append_right _).symm.avoids,
    ((h.apart_of_mem hother).append_left backupRoot).avoids⟩

end Layout

section Step

variable {β : Type} {view : Entry → β} {start : Disk} {backupRoot : Path}
variable {done rest : List Job} {job : Job} (tools : Tools)
variable (hlayout : Layout backupRoot ((done ++ job :: rest).map Job.item))

theorem Progress.kept_cons {disk : Disk}
    (h : Progress view start backupRoot done rest disk)
    (hjob : Kept start backupRoot job.item disk) :
    ∀ other ∈ done ++ job :: rest, Kept start backupRoot other.item disk := by
  intro other hother
  simp only [List.mem_append, List.mem_cons] at hother
  rcases hother with hdone | rfl | hrest
  · exact h.kept other (by simp [hdone])
  · exact hjob
  · exact h.kept other (by simp [hrest])

theorem Progress.tail {disk : Disk}
    (h : Progress view start backupRoot done (job :: rest) disk) :
    Progress view start backupRoot done rest disk :=
  ⟨h.saved, h.replaced, fun other hother => h.waiting other (by simp [hother])⟩

include hlayout

theorem mkdirs_progress :
    Triple (onDisk (Progress view start backupRoot done (job :: rest)))
      (mkdirs tools [backupRoot ++ job.item.dropLast, job.item.dropLast])
      (fun _ => onDisk (Progress view start backupRoot done (job :: rest)))
      (fun _ => onDisk fun disk =>
        ∀ other ∈ done ++ job :: rest, Kept start backupRoot other.item disk) := by
  have hstep : ∀ n disk, Progress view start backupRoot done (job :: rest) disk →
      Progress view start backupRoot done (job :: rest)
        (tools.mkdir n [backupRoot ++ job.item.dropLast, job.item.dropLast] disk).disk :=
    fun n disk h => h.of_within (tools.mkdir_within n _ disk) fun other hother =>
      hlayout.avoids_parents (List.mem_map_of_mem hother) (by simp)
  exact call_triple (fun n disk h _ => hstep n disk h)
    fun n disk h => (hstep n disk h).kept

/-- Copying the item into the backup: until the copy is complete the item is
still at its place. -/
theorem dittoWithin_progress :
    Triple (onDisk (Progress view start backupRoot done (job :: rest)))
      (dittoWithin tools job.item (backupRoot ++ job.item))
      (fun _ => onDisk fun disk => Progress view start backupRoot done rest disk ∧
        Saved start backupRoot job.item disk)
      (fun _ => onDisk fun disk =>
        ∀ other ∈ done ++ job :: rest, Kept start backupRoot other.item disk) := by
  have hplace : Avoids (backupRoot ++ job.item <+: ·) job.item :=
    ((hlayout.backup_apart job.item (by simp)).symm.append_right _).symm.avoids
  have hothers : ∀ n disk, Progress view start backupRoot done (job :: rest) disk →
      Progress view start backupRoot done rest
        (tools.ditto n disk job.item (backupRoot ++ job.item) disk).disk :=
    fun n disk h => h.tail.of_within (tools.ditto_within n disk _ _ disk)
      fun other hother => hlayout.avoids_backup hother
  refine call_triple ?_ ?_
  · intro n disk h hrun
    have hwaiting := h.waiting job (by simp)
    refine ⟨hothers n disk h, ?_⟩
    intro r
    rw [tools.ditto_ok n disk _ _ disk hrun, hwaiting.2 r, hwaiting.1 r]
  · intro n disk h
    refine (hothers n disk h).kept_cons (Or.inl ?_)
    exact (h.waiting job (by simp)).1.of_within (tools.ditto_within n disk _ _ disk) hplace

/-- The other jobs stand as they did, this one's item is in the backup and its
place is empty. -/
theorem backupIfPresent_progress (hstart : WellFormed start) :
    Triple (onDisk (Progress view start backupRoot done (job :: rest)))
      (backupIfPresent tools backupRoot job.item)
      (fun _ => onDisk fun disk => Progress view start backupRoot done rest disk ∧
        Saved start backupRoot job.item disk ∧ EmptyBelow disk job.item)
      (fun _ => onDisk fun disk =>
        ∀ other ∈ done ++ job :: rest, Kept start backupRoot other.item disk) := by
  have hcopy : Avoids (job.item <+: ·) (backupRoot ++ job.item) :=
    ((hlayout.backup_apart job.item (by simp)).symm.append_right _).avoids
  refine whenDisk_triple ?_ ?_
  · apply Triple.seq ((dittoWithin_progress tools hlayout).weakenPre fun _ h => h.1)
    refine remove_triple tools ?_ ?_
    · rintro disk after ⟨h, hsaved⟩ hwithin hempty
      exact ⟨h.of_within hwithin fun other hother => hlayout.avoids_item hother,
        hsaved.of_within hwithin hcopy, hempty⟩
    · rintro disk after ⟨h, hsaved⟩ hwithin
      have hothers := h.of_within hwithin fun other hother => hlayout.avoids_item hother
      exact hothers.kept_cons (Or.inr (hsaved.of_within hwithin hcopy))
  · intro disk h habsent
    obtain ⟨hsame, hbackup⟩ := h.waiting job (by simp)
    have hmissing : start.get job.item = none := by
      have hroot := hsame []
      rw [List.append_nil] at hroot
      rw [← hroot]
      by_contra hpresent
      rw [(present_iff tools disk job.item).mpr hpresent] at habsent
      cases habsent
    have hnothing := hstart.emptyBelow hmissing
    refine ⟨h.tail, fun r => ?_, fun r => (hsame r).trans (hnothing r)⟩
    rw [hbackup r, hnothing r, Option.none_or]

theorem backupAndReplace_progress (hstart : WellFormed start) :
    Triple (onDisk (Progress view start backupRoot done (job :: rest)))
      (backupAndReplace tools backupRoot job.source job.item)
      (fun _ => onDisk (Progress view start backupRoot (done ++ [job]) rest))
      (fun _ => onDisk fun disk =>
        ∀ other ∈ done ++ job :: rest, Kept start backupRoot other.item disk) := by
  have hcopy : Avoids (job.item <+: ·) (backupRoot ++ job.item) :=
    ((hlayout.backup_apart job.item (by simp)).symm.append_right _).avoids
  apply Triple.seq (require_triple (fun _ h _ => h) fun _ h => h.kept)
  apply Triple.seq (mkdirs_progress tools hlayout)
  apply Triple.seq (backupIfPresent_progress tools hlayout hstart)
  refine call_triple ?_ ?_
  · rintro n disk ⟨h, hsaved, hempty⟩ hrun
    have hwithin := tools.ditto_within n job.source job.item job.item disk
    have hothers := h.of_within hwithin fun other hother => hlayout.avoids_item hother
    refine ⟨?_, ?_, hothers.waiting⟩
    · intro other hother
      rcases List.mem_append.mp hother with hdone | hjob
      · exact hothers.saved other hdone
      · rw [List.mem_singleton.mp hjob]
        exact hsaved.of_within hwithin hcopy
    · intro other hother r
      rcases List.mem_append.mp hother with hdone | hjob
      · exact hothers.replaced other hdone r
      · rw [List.mem_singleton.mp hjob, seen, seen,
          tools.ditto_ok n job.source job.item job.item disk hrun, hempty r, Option.or_none]
  · rintro n disk ⟨h, hsaved, -⟩
    have hwithin := tools.ditto_within n job.source job.item job.item disk
    have hothers := h.of_within hwithin fun other hother => hlayout.avoids_item hother
    exact hothers.kept_cons (Or.inr (hsaved.of_within hwithin hcopy))

end Step

section Start

variable {β : Type} {view : Entry → β} {start : Disk} {backupRoot : Path}
variable {jobs : List Job}

theorem progress_start : Progress view start backupRoot [] jobs start :=
  ⟨by simp, by simp, fun _ _ => ⟨fun _ => rfl, fun _ => rfl⟩⟩

theorem mkdirs_backupRoot_progress (tools : Tools)
    (hlayout : Layout backupRoot (jobs.map Job.item)) :
    Keeps (onDisk (Progress view start backupRoot [] jobs))
      (mkdirs tools [backupRoot]) := by
  have hstep : ∀ n disk, Progress view start backupRoot [] jobs disk →
      Progress view start backupRoot [] jobs (tools.mkdir n [backupRoot] disk).disk := by
    intro n disk h
    refine h.of_within (tools.mkdir_within n _ disk) fun job hjob => ?_
    have hitem := hlayout.backup_apart job.item (List.mem_map_of_mem hjob)
    simp only [List.mem_singleton, exists_eq_left]
    refine ⟨avoids_leading hitem.2, avoids_leading fun hbelow => hitem.2 ?_⟩
    have hlength := hbelow.length_le
    rw [List.length_append] at hlength
    rw [List.length_eq_zero_iff.mp (by omega : job.item.length = 0)]
    exact List.nil_prefix
  exact call_triple (fun n disk h _ => hstep n disk h) hstep

end Start

section Loop

variable {β : Type} {view : Entry → β} {start : Disk} {backupRoot : Path}

/-- The loop over the items of one payload, between the jobs already done and
those of the loops to come. -/
theorem forM_progress {source : Disk} {items : List Path} {body : Path → Shell Unit}
    {stop : Nat → World → Prop} (done later : List Job)
    (hbody : ∀ before rel after,
      done ++ (items.map (Job.mk source) ++ later) = before ++ ⟨source, rel⟩ :: after →
      Triple (onDisk (Progress view start backupRoot before (⟨source, rel⟩ :: after)))
        (body rel)
        (fun _ => onDisk (Progress view start backupRoot (before ++ [⟨source, rel⟩]) after))
        stop) :
    Triple (onDisk (Progress view start backupRoot done (items.map (Job.mk source) ++ later)))
      (items.forM body)
      (fun _ => onDisk (Progress view start backupRoot (done ++ items.map (Job.mk source))
        later)) stop := by
  induction items generalizing done with
  | nil =>
      rw [List.map_nil, List.append_nil]
      exact Triple.pure fun _ h => h
  | cons rel items ih =>
      refine (hbody done rel _ rfl).bind fun _ => ?_
      have hrest := ih (done ++ [⟨source, rel⟩]) fun before other after hjobs =>
        hbody before other after (by simpa using hjobs)
      simpa using hrest

/-- Changing owners away from the backup and from the items still waiting. -/
theorem normalizeBundleOwnership_progress (tools : Tools) {done rest : List Job}
    {bundle : Path}
    (hdone : ∀ job ∈ done, Avoids (bundle <+: ·) (backupRoot ++ job.item))
    (hrest : ∀ job ∈ rest, Avoids (bundle <+: ·) job.item ∧
      Avoids (bundle <+: ·) (backupRoot ++ job.item)) :
    Keeps (onDisk (Progress Entry.node start backupRoot done rest))
      (normalizeBundleOwnership tools bundle) := by
  have hstep : ∀ n disk, Progress Entry.node start backupRoot done rest disk →
      Progress Entry.node start backupRoot done rest (tools.chown n bundle disk).disk := by
    intro n disk h
    have hwithin := tools.chown_within n bundle disk
    refine ⟨?_, ?_, ?_⟩
    · exact fun job hjob => (h.saved job hjob).of_within hwithin (hdone job hjob)
    · intro job hjob r
      rw [tools.chown_node, h.replaced job hjob r]
    · exact fun job hjob =>
        ⟨(h.waiting job hjob).1.of_within hwithin (hrest job hjob).1,
          (h.waiting job hjob).2.of_within hwithin (hrest job hjob).2⟩
  exact call_triple (fun n disk h _ => hstep n disk h) hstep

theorem boot_progress (tools : Tools) {done rest : List Job}
    (hitems : ∀ job ∈ done ++ rest, ∃ root ∈ protectedRoots, root <+: job.item)
    (hbackup : ∀ p, ∃ root ∈ protectedRoots, root <+: backupRoot ++ p) :
    Keeps (onDisk (Progress view start backupRoot done rest)) (rebuildCollections tools) ∧
      Keeps (onDisk (Progress view start backupRoot done rest))
        (createRootSnapshot tools) := by
  have havoids : ∀ job ∈ done ++ rest,
      Avoids (fun q => ∃ output ∈ tools.outputs, output <+: q) job.item ∧
      Avoids (fun q => ∃ output ∈ tools.outputs, output <+: q) (backupRoot ++ job.item) := by
    intro job hjob
    obtain ⟨root, hroot, hitem⟩ := hitems job hjob
    obtain ⟨root', hroot', hcopy⟩ := hbackup job.item
    exact ⟨tools.outputs_avoid hroot hitem, tools.outputs_avoid hroot' hcopy⟩
  constructor
  · exact call_triple (fun n disk h _ => h.of_within (tools.kmutil_within n disk) havoids)
      fun n disk h => h.of_within (tools.kmutil_within n disk) havoids
  · exact call_triple (fun n disk h _ => h.of_within (tools.bless_within n disk) havoids)
      fun n disk h => h.of_within (tools.bless_within n disk) havoids

end Loop

/-- Outside the items, the backup and what `kmutil` and `bless` write. -/
def Outside (tools : Tools) (backupRoot : Path) (items : List Path) (q : Path) : Prop :=
  (∀ item ∈ items, ¬ item <+: q) ∧ ¬ backupRoot <+: q ∧
    ∀ output ∈ tools.outputs, ¬ output <+: q

instance (tools : Tools) (backupRoot : Path) (items : List Path) (q : Path) :
    Decidable (Outside tools backupRoot items q) :=
  inferInstanceAs (Decidable (_ ∧ _ ∧ _))

section Frames

variable {β : Type} {view : Entry → β} {start : Disk} {touched : Path → Prop}

theorem framed_backupAndReplace (tools : Tools) {backupRoot rel : Path} {source : Disk}
    (hitem : ∀ q, rel <+: q → touched q) (hbackup : ∀ q, backupRoot <+: q → touched q)
    (hmade : ∀ q, q <+: backupRoot ∨ q <+: rel.dropLast → start.get q = none → touched q) :
    Framed view start touched (backupAndReplace tools backupRoot source rel) := by
  have hcopy : ∀ q, backupRoot ++ rel <+: q → touched q := fun q hq =>
    hbackup q ((List.prefix_append backupRoot rel).trans hq)
  refine (require_keeps _).bind fun _ => Keeps.bind (framed_mkdirs tools ?_) fun _ =>
    Keeps.bind (whenDisk_keeps ?_) fun _ => framed_dittoFrom tools hitem
  · intro p hp q hq hmissing
    simp only [List.mem_cons, List.not_mem_nil, or_false] at hp
    rcases hp with rfl | rfl
    · rcases List.prefix_or_prefix_of_prefix hq (List.prefix_append _ _) with hq | hq
      · exact hmade q (Or.inl hq) hmissing
      · exact hbackup q hq
    · exact hmade q (Or.inr hq) hmissing
  · exact Keeps.bind (framed_dittoWithin tools hcopy) fun _ => framed_remove tools hitem

end Frames

end Overlay

end Kryptonite
