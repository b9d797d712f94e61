/-
The ownership loops over the stash of the Auxiliary Kernel Collection.  The
scripts run under `zsh`, where a glob without a match is an error: a listed
name that no stash directory has stops the script.
-/
import Kryptonite.Volume

namespace Kryptonite

namespace StashOwnership

open PathTree Script Volume

section Source

variable (tools : Tools)

/-- `INTEL_AUX_STASH_ITEM_NAMES` -/
def intelAuxStashItemNames : List String :=
  ["AppleIntelFramebufferCapri.kext", "AppleIntelHD4000Graphics.kext"]

/-- The loops that the scripts have in common. -/
def normalizeNames (names : List String) : Shell Unit :=
  names.forM fun name =>
    forMatches (stashMatches name) fun bundle =>
      whenDisk (isDirectory tools · bundle) (normalizeBundleOwnership tools bundle)

/-- `normalize_stashed_aux_ownership` of `repair_sequoia_ivybridge_aux_ownership.sh`. -/
def normalizeStashedIntelOwnership : Shell Unit :=
  whenDisk (isDirectory tools · stashRoot) (normalizeNames tools intelAuxStashItemNames)

/-- `repair_live_aux_stash_ownership.sh`, whose volume is the booted system. -/
def repairLive : Shell Unit := do
  require (isDirectory tools · stashRoot)
  normalizeNames tools auxStashItemNames

/-- The scripts with such a loop; two of them share one function. -/
inductive Repair where
  | overlay
  | ivyBridge
  | live
deriving Repr, DecidableEq

def Repair.names : Repair → List String
  | .overlay => auxStashItemNames
  | .ivyBridge => intelAuxStashItemNames
  | .live => auxStashItemNames

def Repair.run : Repair → Shell Unit
  | .overlay => normalizeStashedAuxOwnership tools
  | .ivyBridge => normalizeStashedIntelOwnership tools
  | .live => repairLive tools

end Source

section Law

/-- Owned by 0:0; `chown -R` passes over links. -/
def OwnedAt (disk : Disk) (q : Path) : Prop :=
  ∀ entry, disk.get q = some entry → (∀ target, entry.node ≠ .link target) → entry.owner = (0, 0)

/-- `chown -R 0:0` as the superuser runs it. -/
structure Chowns (tools : Tools) : Prop where
  ok : ∀ n p disk, (tools.chown n p disk).ok = true
  owned : ∀ n p disk q, p <+: q → OwnedAt (tools.chown n p disk).disk q

def bundleAt (dir name : String) : Path := stashRoot ++ [dir, name]

/-- A stash directory has this bundle. -/
def Holds (disk : Disk) (dir name : String) : Prop :=
  disk.get (stashRoot ++ [dir]) ≠ none ∧ seen Entry.node disk (bundleAt dir name) = some .dir

/-- The loop came to its end and every bundle of these names is owned by 0:0. -/
structure Normalized (names : List String) (start : Disk)
    (result : EStateM.Result Nat World Unit) : Prop where
  returned : completed result = true
  owned : ∀ name ∈ names, ∀ dir, Holds start dir name →
    ∀ r, OwnedAt (endState result).disk (bundleAt dir name ++ r)

/-- A match of the glob for this name. -/
def Matches (disk : Disk) (dir name : String) : Prop :=
  isVisible dir = true ∧ disk.get (stashRoot ++ [dir]) ≠ none ∧
    disk.get (bundleAt dir name) ≠ none

theorem mem_stashMatches (disk : Disk) (name : String) (bundle : Path) :
    bundle ∈ stashMatches name disk ↔
      ∃ dir, Matches disk dir name ∧ bundle = bundleAt dir name := by
  simp only [stashMatches, List.mem_filter, List.mem_map, mem_children_iff,
    Option.isSome_iff_ne_none]
  constructor
  · rintro ⟨⟨dir, ⟨hdir, hvisible⟩, rfl⟩, hbundle⟩
    exact ⟨dir, ⟨hvisible, hdir, hbundle⟩, rfl⟩
  · rintro ⟨dir, ⟨hvisible, hdir, hbundle⟩, rfl⟩
    exact ⟨⟨dir, ⟨hdir, hvisible⟩, rfl⟩, hbundle⟩

end Law

section Loops

variable {tools : Tools} {start disk : Disk}

/-- What the loops leave alone: the nodes, and everything outside the visible
stash directories. -/
structure Kept (start disk : Disk) : Prop where
  nodes : ∀ q, seen Entry.node disk q = seen Entry.node start q
  outside : ∀ q, (∀ dir, isVisible dir = true → ¬ stashRoot ++ [dir] <+: q) →
    disk.get q = start.get q

theorem Kept.present_iff (h : Kept start disk) (q : Path) :
    disk.get q ≠ none ↔ start.get q ≠ none := by
  have hnode := h.nodes q
  rw [seen, seen] at hnode
  cases hdisk : disk.get q <;> cases hstart : start.get q <;> simp [hdisk, hstart] at hnode ⊢

theorem Kept.matches_iff (h : Kept start disk) (dir name : String) :
    Matches disk dir name ↔ Matches start dir name := by
  rw [Matches, Matches, h.present_iff, h.present_iff]

theorem dir_leads_bundle (dir name : String) : stashRoot ++ [dir] <+: bundleAt dir name :=
  ⟨[name], rfl⟩

/-- Kept, with these paths owned by 0:0. -/
def Covers (start : Disk) (paths : Path → Prop) (disk : Disk) : Prop :=
  Kept start disk ∧ ∀ q, paths q → OwnedAt disk q

theorem Covers.mono {paths fewer : Path → Prop} (h : Covers start paths disk)
    (himp : ∀ q, fewer q → paths q) : Covers start fewer disk :=
  ⟨h.1, fun q hq => h.2 q (himp q hq)⟩

theorem Chowns.kept (h : Chowns tools) (n : Nat) (p : Path) {q : Path}
    (hq : OwnedAt disk q) : OwnedAt (tools.chown n p disk).disk q := by
  by_cases hleads : p <+: q
  · exact h.owned n p disk q hleads
  · rw [OwnedAt, tools.chown_within n p disk q hleads]
    exact hq

theorem Kept.chown (h : Kept start disk) (n : Nat) {dir name : String}
    (hvisible : isVisible dir = true) :
    Kept start (tools.chown n (bundleAt dir name) disk).disk where
  nodes q := (tools.chown_node n _ disk q).trans (h.nodes q)
  outside q hq := by
    have hnot : ¬ bundleAt dir name <+: q := fun hleads =>
      hq dir hvisible ((dir_leads_bundle dir name).trans hleads)
    rw [tools.chown_within n _ disk q hnot, h.outside q hq]

/-- A tool that does not fail. -/
theorem call_total {P Q : Disk → Prop} {run : Nat → Disk → Outcome}
    (hok : ∀ n disk, (run n disk).ok = true) (h : ∀ n disk, P disk → Q (run n disk).disk) :
    Triple (onDisk P) (call run) (fun _ => onDisk Q) fun _ => onDisk fun _ => False := by
  intro world hworld
  unfold call
  simp only [hok, if_true]
  exact h _ _ hworld

/-- One round of the inner loop. -/
theorem normalizeBundle_triple (h : Chowns tools) (paths : Path → Prop) {dir : String}
    (hvisible : isVisible dir = true) (name : String) :
    Triple (onDisk (Covers start paths))
      (whenDisk (isDirectory tools · (bundleAt dir name))
        (normalizeBundleOwnership tools (bundleAt dir name)))
      (fun _ => onDisk (Covers start fun q => paths q ∨
        seen Entry.node start (bundleAt dir name) = some .dir ∧ bundleAt dir name <+: q))
      fun _ => onDisk fun _ => False := by
  refine whenDisk_triple (call_total (fun n disk => h.ok n _ disk) ?_) ?_
  · rintro n disk ⟨⟨hkept, howned⟩, -⟩
    refine ⟨hkept.chown n hvisible, fun q hq => ?_⟩
    rcases hq with hq | ⟨-, hleads⟩
    · exact h.kept n (bundleAt dir name) (howned q hq)
    · exact h.owned n (bundleAt dir name) disk q hleads
  · rintro disk ⟨hkept, howned⟩ htest
    refine ⟨hkept, fun q hq => ?_⟩
    rcases hq with hq | ⟨hdir, -⟩
    · exact howned q hq
    · -- a directory would have been found
      rw [← hkept.nodes, seen, Option.map_eq_some_iff] at hdir
      obtain ⟨entry, hentry, hnode⟩ := hdir
      have hfollow := tools.follow_node disk (bundleAt dir name) entry hentry (by simp [hnode])
      rw [isDirectory, hfollow, hnode] at htest
      simp at htest

theorem forMatches_of_ne_nil {glob : Disk → List Path} {body : Path → Shell Unit}
    {world : World} (h : glob world.disk ≠ []) :
    forMatches glob body world = (glob world.disk).forM body world := by
  unfold forMatches
  cases hglob : glob world.disk with
  | nil => exact absurd hglob h
  | cons p rest => rfl

/-- A loop covers what its rounds cover. -/
theorem forM_covers {γ : Type} {body : γ → Shell Unit} {covered : γ → Path → Prop} {xs : List γ}
    (h : ∀ x ∈ xs, ∀ paths, Triple (onDisk (Covers start paths)) (body x)
      (fun _ => onDisk (Covers start fun q => paths q ∨ covered x q))
      fun _ => onDisk fun _ => False) (paths : Path → Prop) :
    Triple (onDisk (Covers start paths)) (xs.forM body)
      (fun _ => onDisk (Covers start fun q => paths q ∨ ∃ x ∈ xs, covered x q))
      fun _ => onDisk fun _ => False := by
  induction xs generalizing paths with
  | nil =>
      refine Triple.pure fun world hworld => Covers.mono hworld fun q hq => ?_
      exact hq.resolve_right fun ⟨_, hmem, _⟩ => List.not_mem_nil hmem
  | cons x xs ih =>
      apply Triple.seq (h x List.mem_cons_self paths)
      refine (ih (fun y hy => h y (List.mem_cons_of_mem _ hy)) _).weakenPost
        fun _ world hworld => Covers.mono hworld fun q hq => ?_
      rcases hq with hq | ⟨y, hy, hlast⟩
      · exact .inl (.inl hq)
      · rcases List.mem_cons.mp hy with rfl | hy
        · exact .inl (.inr hlast)
        · exact .inr ⟨y, hy, hlast⟩

/-- The inner loop. -/
theorem normalizeBundles_triple (h : Chowns tools) (paths : Path → Prop) (bundles : List Path)
    (hbundles : ∀ bundle ∈ bundles, ∃ dir name,
      isVisible dir = true ∧ bundle = bundleAt dir name) :
    Triple (onDisk (Covers start paths))
      (bundles.forM fun bundle =>
        whenDisk (isDirectory tools · bundle) (normalizeBundleOwnership tools bundle))
      (fun _ => onDisk (Covers start fun q => paths q ∨
        ∃ bundle ∈ bundles, seen Entry.node start bundle = some .dir ∧ bundle <+: q))
      fun _ => onDisk fun _ => False := by
  refine forM_covers (fun bundle hbundle paths => ?_) paths
  obtain ⟨dir, name, hvisible, rfl⟩ := hbundles bundle hbundle
  exact normalizeBundle_triple h paths hvisible name

/-- The bundles of one name. -/
theorem normalizeName_triple (h : Chowns tools) (paths : Path → Prop) {name : String}
    (hmatch : ∃ dir, Matches start dir name) :
    Triple (onDisk (Covers start paths))
      (forMatches (stashMatches name) fun bundle =>
        whenDisk (isDirectory tools · bundle) (normalizeBundleOwnership tools bundle))
      (fun _ => onDisk (Covers start fun q => paths q ∨
        ∃ dir, isVisible dir = true ∧ Holds start dir name ∧ bundleAt dir name <+: q))
      fun _ => onDisk fun _ => False := by
  intro world hworld
  have hmem : ∀ bundle, bundle ∈ stashMatches name world.disk ↔
      ∃ dir, Matches start dir name ∧ bundle = bundleAt dir name := by
    intro bundle
    simp only [mem_stashMatches, hworld.1.matches_iff]
  obtain ⟨first, hfirst⟩ := hmatch
  rw [forMatches_of_ne_nil (List.ne_nil_of_mem ((hmem _).mpr ⟨first, hfirst, rfl⟩))]
  refine ((normalizeBundles_triple h paths _ fun bundle hbundle => ?_).weakenPost
    fun _ after hafter => Covers.mono hafter fun q hq => ?_) world hworld
  · obtain ⟨dir, hdir, hbundle⟩ := (hmem bundle).mp hbundle
    exact ⟨dir, name, hdir.1, hbundle⟩
  · rcases hq with hq | ⟨dir, hvisible, ⟨hdir, hnode⟩, hleads⟩
    · exact .inl hq
    · have hpresent : start.get (bundleAt dir name) ≠ none := by
        intro hnone
        simp [seen, hnone] at hnode
      exact .inr ⟨_, (hmem _).mpr ⟨dir, ⟨hvisible, hdir, hpresent⟩, rfl⟩, hnode, hleads⟩

/-- The whole loop, when every name has a match. -/
theorem normalizeNames_triple (h : Chowns tools) (paths : Path → Prop) (names : List String)
    (hmatch : ∀ name ∈ names, ∃ dir, Matches start dir name) :
    Triple (onDisk (Covers start paths)) (normalizeNames tools names)
      (fun _ => onDisk (Covers start fun q => paths q ∨ ∃ name ∈ names, ∃ dir,
        isVisible dir = true ∧ Holds start dir name ∧ bundleAt dir name <+: q))
      fun _ => onDisk fun _ => False :=
  forM_covers (fun name hname paths => normalizeName_triple h paths (hmatch name hname)) paths

/-- Wherever the loop stops, it has kept what it does not own. -/
theorem normalizeNames_keeps (names : List String) :
    Keeps (onDisk (Kept start)) (normalizeNames tools names) := by
  refine Keeps.forM fun name _ => forMatches_keeps fun disk bundle hbundle => ?_
  obtain ⟨dir, hdir, rfl⟩ := (mem_stashMatches disk name bundle).mp hbundle
  exact whenDisk_keeps (call_triple (fun n after hafter _ => hafter.chown n hdir.1)
    fun n after hafter => hafter.chown n hdir.1)

/-- A loop that came to its end had a match for every name. -/
theorem matches_of_completed {names : List String} {world after : World}
    (hworld : Kept start world.disk)
    (hrun : normalizeNames tools names world = .ok () after) {name : String}
    (hname : name ∈ names) : ∃ dir, Matches start dir name := by
  obtain ⟨before, rest, rfl⟩ := List.append_of_mem hname
  obtain ⟨u, v, hbefore, hstep, -⟩ := forM_split hrun
  have hkept : Kept start u.disk := (normalizeNames_keeps before).ok hworld hbefore
  cases hglob : stashMatches name u.disk with
  | nil =>
      have hstop : forMatches (stashMatches name) (fun bundle =>
          whenDisk (isDirectory tools · bundle) (normalizeBundleOwnership tools bundle)) u =
            .error 1 u := by
        rw [forMatches, hglob]
      rw [hstop] at hstep
      cases hstep
  | cons bundle bundles =>
      have hbundle : bundle ∈ stashMatches name u.disk := by
        rw [hglob]
        exact List.mem_cons_self
      obtain ⟨dir, hdir, -⟩ := (mem_stashMatches u.disk name bundle).mp hbundle
      exact ⟨dir, (hkept.matches_iff dir name).mp hdir⟩

theorem Kept.refl (start : Disk) : Kept start start where
  nodes _ := rfl
  outside _ _ := rfl

/-- A bundle of a hidden stash directory is out of the glob's reach. -/
theorem Kept.hidden (h : Kept start disk) {dir : String} (hhidden : isVisible dir = false)
    (name : String) (r : Path) :
    disk.get (bundleAt dir name ++ r) = start.get (bundleAt dir name ++ r) := by
  apply h.outside
  rintro other hvisible ⟨rest, hrest⟩
  have hsame : other = dir := by
    rw [bundleAt, List.append_assoc, List.append_assoc] at hrest
    exact (List.cons.inj (List.append_cancel_left hrest)).1
  rw [hsame, hhidden] at hvisible
  cases hvisible

end Loops

section Runs

variable (repair : Repair) (tools : Tools) (world : World)

theorem Repair.run_eq (hroot : seen Entry.node world.disk stashRoot = some .dir) :
    repair.run tools world = normalizeNames tools repair.names world := by
  obtain ⟨entry, hentry, hnode⟩ := Option.map_eq_some_iff.mp hroot
  have hfollow := tools.follow_node world.disk stashRoot entry hentry (by simp [hnode])
  have hdir : isDirectory tools world.disk stashRoot = true := by
    rw [isDirectory, hfollow, hnode]
    rfl
  cases repair with
  | overlay | ivyBridge => exact if_pos hdir
  | live => exact bind_of_ok (if_pos hdir)

/-- The repair is done exactly when every listed name has a match somewhere in
the stash and no bundle of another owner is in a hidden stash directory. -/
theorem repair_normalized_iff (hchown : Chowns tools)
    (hroot : seen Entry.node world.disk stashRoot = some .dir) :
    Normalized repair.names world.disk (repair.run tools world) ↔
      (∀ name ∈ repair.names, ∃ dir, Matches world.disk dir name) ∧
      ∀ name ∈ repair.names, ∀ dir, isVisible dir = false → Holds world.disk dir name →
        ∀ r, OwnedAt world.disk (bundleAt dir name ++ r) := by
  rw [repair.run_eq tools world hroot]
  constructor
  · rintro ⟨hreturned, howned⟩
    have hrun := eq_ok_of_completed hreturned
    have hkept : Kept world.disk (endState (normalizeNames tools repair.names world)).disk :=
      (normalizeNames_keeps repair.names).ok (Kept.refl world.disk) hrun
    refine ⟨fun name hname => matches_of_completed (Kept.refl world.disk) hrun hname, ?_⟩
    intro name hname dir hhidden hholds r
    have hdone := howned name hname dir hholds r
    rwa [OwnedAt, hkept.hidden hhidden name r] at hdone
  · rintro ⟨hmatch, hhidden⟩
    have hcovers : Covers world.disk (fun _ => False) world.disk :=
      ⟨Kept.refl world.disk, fun _ hq => hq.elim⟩
    have hrun := normalizeNames_triple hchown (fun _ => False) repair.names hmatch world hcovers
    cases hresult : normalizeNames tools repair.names world with
    | error status after =>
        rw [hresult] at hrun
        exact hrun.elim
    | ok u after =>
        rw [hresult] at hrun
        obtain ⟨hkept, howned⟩ := hrun
        refine ⟨rfl, fun name hname dir hholds r => ?_⟩
        cases hvisible : isVisible dir with
        | true =>
            exact howned _ (.inr ⟨name, hname, dir, hvisible, hholds, List.prefix_append _ r⟩)
        | false =>
            rw [OwnedAt, endState, hkept.hidden hvisible name r]
            exact hhidden name hname dir hvisible hholds r

end Runs

section Samples

theorem chowns_exactTools : Chowns exactTools where
  ok _ _ _ := rfl
  owned n p disk q hleads entry hentry _ := by
    simp only [exactTools, get_mapBelow, if_pos hleads] at hentry
    obtain ⟨old, -, rfl⟩ := Option.map_eq_some_iff.mp hentry
    rfl

/-- A stash with one directory that has these bundles, owned by user 501. -/
def sampleStash (names : List String) : Disk :=
  ⟨stashRoot.inits.map (fun p => (p, newDirectory)) ++ (stashRoot ++ ["A"], newDirectory) ::
    names.map fun name => (bundleAt "A" name, ⟨.dir, (501, 20)⟩)⟩

/-- A stash with all the names. -/
theorem full_stash_normalized :
    Normalized auxStashItemNames (sampleStash auxStashItemNames)
      (repairLive exactTools ⟨sampleStash auxStashItemNames, 0, []⟩) := by
  have hnone : ∀ dir name, isVisible dir = false →
      ¬ Holds (sampleStash auxStashItemNames) dir name := by
    rintro dir name hhidden ⟨hdir, -⟩
    have hmem := (mem_children_iff _ _ _).mpr hdir
    have hall : ∀ dir ∈ (sampleStash auxStashItemNames).children stashRoot,
        isVisible dir = true := by
      decide +kernel
    rw [hall dir hmem] at hhidden
    cases hhidden
  have hmatch : ∀ name ∈ auxStashItemNames,
      (sampleStash auxStashItemNames).get (stashRoot ++ ["A"]) ≠ none ∧
        (sampleStash auxStashItemNames).get (bundleAt "A" name) ≠ none := by
    decide +kernel
  exact (repair_normalized_iff .live exactTools ⟨sampleStash auxStashItemNames, 0, []⟩
    chowns_exactTools (by decide +kernel)).mpr
    ⟨fun name hname => ⟨"A", by decide, hmatch name hname⟩,
      fun name _ dir hhidden hholds => absurd hholds (hnone dir name hhidden)⟩

/-- Without Intel bundles the first glob stops the script, and the accelerator
bundle keeps its owner. -/
theorem polaris_stash_left :
    let start := sampleStash ["AMDRadeonX4000.kext"]
    ∀ repair ∈ [Repair.overlay, Repair.live], "AMDRadeonX4000.kext" ∈ repair.names ∧
      completed (repair.run exactTools ⟨start, 0, []⟩) = false ∧
      (endState (repair.run exactTools ⟨start, 0, []⟩)).disk.get
        (bundleAt "A" "AMDRadeonX4000.kext") = some ⟨.dir, (501, 20)⟩ := by
  decide +kernel

end Samples

end StashOwnership

end Kryptonite
