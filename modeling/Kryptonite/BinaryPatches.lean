/-
The Perl step of the two hotfix scripts: `apply_binary_patches`, which patches
two files in the order of a hash, and `apply_bronze_binary_patches`.  A site is
checked right before it is written, and `die` leaves what was written before.
-/
import Kryptonite.BmiHotfix
import Kryptonite.ByteWindow
import Kryptonite.Script

namespace Kryptonite

namespace BmiHotfix

open Script ByteWindow

section Patching

inductive Dylib where
  | bronzeOld
  | amdil
deriving Repr, DecidableEq

/-- The path of a file below the target volume. -/
def Dylib.path (target : String) : Dylib → String
  | .bronzeOld => target ++
      "/System/Library/Extensions/AMDMTLBronzeDriver.bundle/Contents/MacOS/AMDMTLBronzeDriverOld.dylib"
  | .amdil => target ++
      "/System/Library/Extensions/AMDShared.bundle/Contents/PlugIns/libAMDIL902.dylib"

/-- `%patches` -/
def patches : Dylib → List Hotfix
  | .bronzeOld => [bronzeHotfix1, bronzeHotfix2, bronzeHotfix3]
  | .amdil => [amdilHotfix]

/-- What the two files hold. -/
abbrev Files := Dylib → List UInt8

/-- The error is the message of `die`. -/
abbrev PerlM := EStateM String Files

/-- `unpack('H*', $bytes)` -/
def bytesToHex (bytes : List UInt8) : String :=
  String.ofList (bytes.flatMap fun byte =>
    [Nat.digitChar (byte.toNat / 16), Nat.digitChar (byte.toNat % 16)])

def shortRead (path : String) (edit : Hotfix) : String :=
  path ++ ": short read " ++ edit.label ++ " at " ++ hexNumber edit.offset ++ "\n"

def mismatch (path : String) (edit : Hotfix) (current : List UInt8) : String :=
  path ++ ": " ++ edit.label ++ " mismatch at " ++ hexNumber edit.offset ++ "\nexpected " ++
    bytesToHex edit.expected ++ "\nfound    " ++ bytesToHex current ++ "\n"

/-- The files once an edit has been written. -/
def written (file : Dylib) (edit : Hotfix) (files : Files) : Files := fun other =>
  if other = file then overwrite edit.offset edit.replacement (files other) else files other

variable (target : String)

/-- One round of the inner loop. -/
def applyEdit (file : Dylib) (edit : Hotfix) : PerlM Unit := fun files =>
  let current := window edit.offset edit.expected.length (files file)
  if current.length ≠ edit.expected.length then
    .error (shortRead (file.path target) edit) files
  else if current ≠ edit.expected then
    .error (mismatch (file.path target) edit current) files
  else .ok () (written file edit files)

def applySite (site : Dylib × Hotfix) : PerlM Unit := applyEdit target site.1 site.2

def patchFile (file : Dylib) : PerlM Unit := (patches file).forM (applyEdit target file)

/-- `keys %patches`, which may begin with either file. -/
def visited : Dylib → List Dylib
  | .bronzeOld => [.bronzeOld, .amdil]
  | .amdil => [.amdil, .bronzeOld]

/-- `apply_binary_patches` on files that are there. -/
def applyBinaryPatches (first : Dylib) : PerlM Unit := (visited first).forM (patchFile target)

/-- `apply_bronze_binary_patches` -/
def applyBronzeBinaryPatches : PerlM Unit := patchFile target .bronzeOld

end Patching

section Sites

/-- The site holds the bytes that the hotfix expects. -/
def Original (files : Files) (site : Dylib × Hotfix) : Prop :=
  window site.2.offset site.2.expected.length (files site.1) = site.2.expected

instance (files : Files) (site : Dylib × Hotfix) : Decidable (Original files site) :=
  inferInstanceAs (Decidable (_ = _))

/-- The two sites have no byte in common. -/
def Separate (site other : Dylib × Hotfix) : Prop :=
  site.1 = other.1 → site.2.offset + site.2.expected.length ≤ other.2.offset ∨
    other.2.offset + other.2.expected.length ≤ site.2.offset

instance (site other : Dylib × Hotfix) : Decidable (Separate site other) :=
  inferInstanceAs (Decidable (_ → _))

theorem Separate.symm {site other : Dylib × Hotfix} (h : Separate site other) :
    Separate other site := fun hfile => (h hfile.symm).symm

/-- A replacement of the size of what it replaces, and other than it. -/
structure Sized (edit : Hotfix) : Prop where
  length : edit.replacement.length = edit.expected.length
  differs : edit.replacement ≠ edit.expected
  nonempty : 0 < edit.expected.length

/-- Byte `i` of a file belongs to a site. -/
def Covers (site : Dylib × Hotfix) (file : Dylib) (i : Nat) : Prop :=
  site.1 = file ∧ site.2.offset ≤ i ∧ i < site.2.offset + site.2.expected.length

/-- The files after these edits. -/
def afterEdits (sites : List (Dylib × Hotfix)) (files : Files) : Files :=
  sites.foldl (fun files site => written site.1 site.2 files) files

variable {target : String} {files : Files} {site other : Dylib × Hotfix}
variable {sites : List (Dylib × Hotfix)}

theorem Original.fits (h : Original files site) (hsized : Sized site.2) :
    site.2.offset + site.2.replacement.length ≤ (files site.1).length := by
  rw [hsized.length]
  apply add_le_length_of_window hsized.nonempty
  rw [h]

theorem applySite_original (h : Original files site) :
    applySite target site files = .ok () (written site.1 site.2 files) := by
  have hwindow : window site.2.offset site.2.expected.length (files site.1) = site.2.expected := h
  rw [applySite, applyEdit]
  simp only [hwindow, ne_eq, not_true_eq_false, if_false]

theorem applySite_other (h : ¬ Original files site) :
    ∃ message, applySite target site files = .error message files := by
  rw [applySite, applyEdit]
  by_cases hlength : (window site.2.offset site.2.expected.length (files site.1)).length ≠
      site.2.expected.length
  · exact ⟨_, if_pos hlength⟩
  · exact ⟨_, (if_neg hlength).trans (if_pos h)⟩

theorem written_site (h : Original files site) (hsized : Sized site.2) :
    window site.2.offset site.2.expected.length (written site.1 site.2 files site.1) =
      site.2.replacement := by
  rw [written, if_pos rfl, ← hsized.length]
  exact window_overwrite_self (h.fits hsized)

/-- An edit does not touch a site that is separate from its own. -/
theorem written_separate (h : Original files site) (hsized : Sized site.2)
    (hseparate : Separate site other) :
    window other.2.offset other.2.expected.length (written site.1 site.2 files other.1) =
      window other.2.offset other.2.expected.length (files other.1) := by
  rw [written]
  split
  · rename_i hfile
    rw [hfile]
    apply window_overwrite_disjoint (h.fits hsized)
    rw [hsized.length]
    exact (hseparate hfile.symm).symm
  · rfl

theorem written_length (h : Original files site) (hsized : Sized site.2) (file : Dylib) :
    (written site.1 site.2 files file).length = (files file).length := by
  rw [written]
  split
  · rename_i hfile
    have hfits := h.fits hsized
    rw [← hfile] at hfits
    exact length_overwrite hfits
  · rfl

theorem written_getElem? (h : Original files site) (hsized : Sized site.2) {file : Dylib}
    {i : Nat} (hi : ¬ Covers site file i) :
    (written site.1 site.2 files file)[i]? = (files file)[i]? := by
  rw [written]
  split
  · rename_i hfile
    have hfits := h.fits hsized
    rw [← hfile] at hfits
    have hout : i < site.2.offset ∨ site.2.offset + site.2.replacement.length ≤ i := by
      rw [hsized.length]
      by_contra hin
      exact hi ⟨hfile.symm, by omega, by omega⟩
    rw [overwrite_getElem? hfits]
    rcases hout with hbefore | hafter
    · rw [if_pos hbefore]
    · rw [if_neg (by omega), if_neg (by omega)]
  · rfl

end Sites

section Runs

variable {target : String} {files : Files} {site other : Dylib × Hotfix}
variable {sites : List (Dylib × Hotfix)}

/-- What makes a list of edits independent of each other. -/
structure Independent (sites : List (Dylib × Hotfix)) : Prop where
  sized : ∀ site ∈ sites, Sized site.2
  separate : sites.Pairwise Separate

theorem Independent.left {rest : List (Dylib × Hotfix)} (h : Independent (sites ++ rest)) :
    Independent sites :=
  ⟨fun other hother => h.sized other (List.mem_append_left _ hother),
    (List.pairwise_append.mp h.separate).1⟩

theorem Independent.tail (h : Independent (site :: sites)) : Independent sites :=
  ⟨fun other hother => h.sized other (List.mem_cons_of_mem _ hother),
    (List.pairwise_cons.mp h.separate).2⟩

/-- The sites that are still to come hold what they held. -/
theorem Independent.original_written (h : Independent (site :: sites))
    (horiginal : Original files site) (hother : other ∈ sites) :
    Original (written site.1 site.2 files) other ↔ Original files other := by
  have hseparate := (List.pairwise_cons.mp h.separate).1 other hother
  rw [Original, Original,
    written_separate horiginal (h.sized site List.mem_cons_self) hseparate]

/-- Every site holds its replacement and nothing else has changed. -/
structure Patched (sites : List (Dylib × Hotfix)) (files after : Files) : Prop where
  replaced : ∀ site ∈ sites, window site.2.offset site.2.expected.length (after site.1) =
    site.2.replacement
  lengths : ∀ file, (after file).length = (files file).length
  others : ∀ file i, (∀ site ∈ sites, ¬ Covers site file i) → (after file)[i]? = (files file)[i]?

theorem Independent.window_afterEdits (h : Independent sites)
    (horiginal : ∀ site ∈ sites, Original files site)
    (hseparate : ∀ site ∈ sites, Separate site other) :
    window other.2.offset other.2.expected.length (afterEdits sites files other.1) =
      window other.2.offset other.2.expected.length (files other.1) := by
  induction sites generalizing files with
  | nil => rfl
  | cons site sites ih =>
      have hsite := horiginal site List.mem_cons_self
      have hlater : ∀ later ∈ sites, Original (written site.1 site.2 files) later :=
        fun later hmem => (h.original_written hsite hmem).mpr
          (horiginal later (List.mem_cons_of_mem _ hmem))
      have hrest := ih h.tail hlater
        fun later hmem => hseparate later (List.mem_cons_of_mem _ hmem)
      exact hrest.trans (written_separate hsite (h.sized site List.mem_cons_self)
        (hseparate site List.mem_cons_self))

theorem Independent.patched (h : Independent sites)
    (horiginal : ∀ site ∈ sites, Original files site) :
    Patched sites files (afterEdits sites files) := by
  induction sites generalizing files with
  | nil => exact ⟨nofun, fun _ => rfl, fun _ _ _ => rfl⟩
  | cons site sites ih =>
      have hsite := horiginal site List.mem_cons_self
      have hsized := h.sized site List.mem_cons_self
      have hlater : ∀ later ∈ sites, Original (written site.1 site.2 files) later :=
        fun later hlater => (h.original_written hsite hlater).mpr
          (horiginal later (List.mem_cons_of_mem _ hlater))
      have hrest := ih h.tail hlater
      refine ⟨?_, ?_, ?_⟩
      · intro other hother
        rcases List.mem_cons.mp hother with rfl | hother
        · -- the later edits leave the bytes of this one alone
          have hseparate : ∀ later ∈ sites, Separate later other := fun later hlater =>
            ((List.pairwise_cons.mp h.separate).1 later hlater).symm
          exact (h.tail.window_afterEdits hlater hseparate).trans (written_site hsite hsized)
        · exact hrest.replaced other hother
      · intro file
        exact (hrest.lengths file).trans (written_length hsite hsized file)
      · intro file i hi
        rw [← written_getElem? hsite hsized (hi site List.mem_cons_self)]
        exact hrest.others file i fun other hother => hi other (List.mem_cons_of_mem _ hother)

theorem Independent.run_original (h : Independent sites)
    (horiginal : ∀ site ∈ sites, Original files site) :
    sites.forM (applySite target) files = .ok () (afterEdits sites files) := by
  induction sites generalizing files with
  | nil => rfl
  | cons site sites ih =>
      have hsite := horiginal site List.mem_cons_self
      have hrest := ih h.tail fun later hlater => (h.original_written hsite hlater).mpr
        (horiginal later (List.mem_cons_of_mem _ hlater))
      exact (forM_of_ok (applySite_original hsite)).trans hrest

/-- The run stops at the first site that is not original. -/
theorem Independent.run_stops (h : Independent sites) (target : String)
    (hother : ∃ site ∈ sites, ¬ Original files site) :
    ∃ message done site rest, sites = done ++ site :: rest ∧
      (∀ site ∈ done, Original files site) ∧ ¬ Original files site ∧
      sites.forM (applySite target) files = .error message (afterEdits done files) := by
  induction sites generalizing files with
  | nil => simp only [List.not_mem_nil, false_and, exists_false] at hother
  | cons site sites ih =>
      by_cases hsite : Original files site
      · have hlater : ∃ later ∈ sites, ¬ Original (written site.1 site.2 files) later := by
          obtain ⟨later, hmem, hnot⟩ := hother
          rcases List.mem_cons.mp hmem with rfl | hmem
          · exact absurd hsite hnot
          · exact ⟨later, hmem, fun horiginal =>
              hnot ((h.original_written hsite hmem).mp horiginal)⟩
        obtain ⟨message, done, stop, rest, rfl, hdone, hstop, hrun⟩ := ih h.tail hlater
        refine ⟨message, site :: done, stop, rest, rfl, ?_, ?_, ?_⟩
        · intro early hearly
          rcases List.mem_cons.mp hearly with rfl | hearly
          · exact hsite
          · exact (h.original_written hsite (List.mem_append_left _ hearly)).mp
              (hdone early hearly)
        · have hmem : stop ∈ done ++ stop :: rest :=
            List.mem_append_right _ List.mem_cons_self
          exact fun horiginal => hstop ((h.original_written hsite hmem).mpr horiginal)
        · exact (forM_of_ok (applySite_original hsite)).trans hrun
      · obtain ⟨message, hstep⟩ := applySite_other hsite
        exact ⟨message, [], site, sites, rfl, nofun, hsite, forM_of_error hstep⟩

/-- What a run that fails must not have done. -/
def AllOrNothing (run : PerlM Unit) (sites : List (Dylib × Hotfix)) (files : Files) : Prop :=
  match run files with
  | .ok _ after => Patched sites files after
  | .error _ after => after = files

theorem Independent.allOrNothing_iff (h : Independent sites) :
    AllOrNothing (sites.forM (applySite target)) sites files ↔
      (∀ site ∈ sites, Original files site) ∨ ∀ site ∈ sites.head?, ¬ Original files site := by
  by_cases hall : ∀ site ∈ sites, Original files site
  · rw [AllOrNothing, h.run_original hall]
    exact iff_of_true (h.patched hall) (.inl hall)
  · have hother : ∃ site ∈ sites, ¬ Original files site := by
      simpa only [not_forall, exists_prop] using hall
    obtain ⟨message, done, stop, rest, rfl, hdone, hstop, hrun⟩ := h.run_stops target hother
    rw [AllOrNothing, hrun]
    cases done with
    | nil =>
        refine iff_of_true rfl (.inr ?_)
        intro site hsite
        cases hsite
        exact hstop
    | cons site done =>
        have hsite := hdone site List.mem_cons_self
        refine iff_of_false ?_ ?_
        · -- the first site was original and holds its replacement now
          intro hsame
          have hsame : afterEdits (site :: done) files = files := hsame
          have hpatched : Patched (site :: done) files (afterEdits (site :: done) files) :=
            h.left.patched hdone
          have hreplaced := hpatched.replaced site List.mem_cons_self
          rw [hsame] at hreplaced
          exact (h.sized site List.mem_cons_self).differs (hreplaced.symm.trans hsite)
        · intro hor
          rcases hor with hall' | hnot
          · exact hall hall'
          · exact hnot site rfl hsite

end Runs

section Hotfixes

variable {target : String} {files : Files}

/-- The sites of these files in the order in which they are visited. -/
def hotfixSites (order : List Dylib) : List (Dylib × Hotfix) :=
  order.flatMap fun file => (patches file).map fun edit => (file, edit)

theorem patchFile_eq (file : Dylib) :
    patchFile target file =
      ((patches file).map fun edit => (file, edit)).forM (applySite target) := by
  rw [patchFile, List.forM_eq_forM, List.forM_eq_forM, List.forM_map]
  rfl

theorem patchFiles_eq (order : List Dylib) :
    order.forM (patchFile target) = (hotfixSites order).forM (applySite target) := by
  induction order with
  | nil => rfl
  | cons file order ih =>
      rw [hotfixSites, List.flatMap_cons, ← hotfixSites, List.forM_eq_forM, List.forM_eq_forM,
        List.forM_cons, List.forM_append, ← List.forM_eq_forM, ← List.forM_eq_forM, ih,
        patchFile_eq]

theorem patches_sized (file : Dylib) : ∀ edit ∈ patches file, Sized edit := by
  have hlength : ∀ edit ∈ patches file, edit.replacement.length = edit.expected.length := by
    cases file <;> decide
  have hdiffers : ∀ edit ∈ patches file, edit.replacement ≠ edit.expected := by
    cases file <;> decide
  have hnonempty : ∀ edit ∈ patches file, 0 < edit.expected.length := by
    cases file <;> decide
  exact fun edit hedit => ⟨hlength edit hedit, hdiffers edit hedit, hnonempty edit hedit⟩

theorem patches_separate (file : Dylib) :
    ((patches file).map fun edit => (file, edit)).Pairwise Separate := by
  cases file <;> decide

theorem hotfixSites_independent {order : List Dylib} (h : order.Nodup) :
    Independent (hotfixSites order) := by
  refine ⟨?_, List.pairwise_flatMap.mpr ⟨fun file _ => patches_separate file, ?_⟩⟩
  · intro site hsite
    obtain ⟨file, -, hsite⟩ := List.mem_flatMap.mp hsite
    obtain ⟨edit, hedit, rfl⟩ := List.mem_map.mp hsite
    exact patches_sized file edit hedit
  · refine h.imp ?_
    intro file other hne site hsite later hlater hsame
    obtain ⟨edit, -, rfl⟩ := List.mem_map.mp hsite
    obtain ⟨edit', -, rfl⟩ := List.mem_map.mp hlater
    exact absurd hsame hne

/-- The userland script, in either order: both files are as they were after a
failure, unless the first site matched and a later one did not. -/
theorem applyBinaryPatches_allOrNothing_iff (target : String) (first : Dylib) (files : Files) :
    AllOrNothing (applyBinaryPatches target first) (hotfixSites (visited first)) files ↔
      (∀ site ∈ hotfixSites (visited first), Original files site) ∨
        ∀ site ∈ (hotfixSites (visited first)).head?, ¬ Original files site := by
  have hnodup : (visited first).Nodup := by
    cases first <;> decide
  rw [applyBinaryPatches, patchFiles_eq]
  exact (hotfixSites_independent hnodup).allOrNothing_iff

/-- The bronze script patches one file, in the same way. -/
theorem applyBronzeBinaryPatches_iff (target : String) (files : Files) :
    AllOrNothing (applyBronzeBinaryPatches target) (hotfixSites [.bronzeOld]) files ↔
      (∀ site ∈ hotfixSites [.bronzeOld], Original files site) ∨
        ¬ Original files (.bronzeOld, bronzeHotfix1) := by
  have hsites : hotfixSites [.bronzeOld] =
      (patches .bronzeOld).map fun edit => (.bronzeOld, edit) := rfl
  have hindependent : Independent (hotfixSites [.bronzeOld]) :=
    hotfixSites_independent (List.pairwise_singleton _ _)
  rw [applyBronzeBinaryPatches, patchFile_eq, ← hsites, hindependent.allOrNothing_iff]
  simp only [hsites, patches, List.map_cons, List.head?_cons, Option.mem_some_iff, forall_eq']

/-- A driver that ends after the first site, and an empty library. -/
def truncatedFiles : Files
  | .bronzeOld => List.replicate bronzeHotfix1.offset 0 ++ bronzeHotfix1.expected
  | .amdil => []

theorem truncatedFiles_first : Original truncatedFiles (.bronzeOld, bronzeHotfix1) := by
  have hright := window_append_right bronzeHotfix1.expected.length 0
    (List.replicate bronzeHotfix1.offset (0 : UInt8)) bronzeHotfix1.expected
  rw [List.length_replicate, Nat.add_zero] at hright
  exact hright

theorem truncatedFiles_second : ¬ Original truncatedFiles (.bronzeOld, bronzeHotfix2) := by
  intro horiginal
  have hfits := horiginal.fits
    (patches_sized .bronzeOld bronzeHotfix2 (List.mem_cons_of_mem _ List.mem_cons_self))
  simp only [truncatedFiles, List.length_append, List.length_replicate] at hfits
  revert hfits
  decide

/-- The second site cannot be read, and the first has been overwritten by then. -/
theorem applyBinaryPatches_truncated :
    ∃ message after, applyBinaryPatches "/Volumes/Sequoia" .bronzeOld truncatedFiles =
        .error message after ∧
      window bronzeHotfix1.offset bronzeHotfix1.expected.length (after .bronzeOld) =
        bronzeHotfix1.replacement ∧
      after .bronzeOld ≠ truncatedFiles .bronzeOld := by
  have hindependent : Independent (hotfixSites (visited .bronzeOld)) :=
    hotfixSites_independent (by decide)
  have hsecond : (.bronzeOld, bronzeHotfix2) ∈ hotfixSites (visited .bronzeOld) :=
    List.mem_cons_of_mem _ List.mem_cons_self
  obtain ⟨message, done, stop, rest, hsplit, hdone, hstop, hrun⟩ :=
    hindependent.run_stops "/Volumes/Sequoia" ⟨_, hsecond, truncatedFiles_second⟩
  rw [applyBinaryPatches, patchFiles_eq]
  cases done with
  | nil =>
      obtain ⟨rfl, -⟩ := List.cons.inj hsplit
      exact absurd truncatedFiles_first hstop
  | cons site done =>
      obtain ⟨rfl, -⟩ := List.cons.inj hsplit
      rw [hsplit] at hindependent
      have hreplaced := (hindependent.left.patched hdone).replaced _ List.mem_cons_self
      refine ⟨message, _, hrun, hreplaced, ?_⟩
      intro hsame
      rw [hsame, truncatedFiles_first] at hreplaced
      revert hreplaced
      decide

end Hotfixes

end BmiHotfix

end Kryptonite
