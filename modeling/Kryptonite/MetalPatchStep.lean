/-
The Python step of `patch_mtl_compiler_throttle.sh`: three windows of the Metal
binary are read and, where they hold the expected bytes, written through one
file handle.  A read may come back short and a write may lengthen a file; here
neither has an effect, because a short window is never the expected one.
-/
import Kryptonite.BinaryPatches
import Kryptonite.MetalThrottle

namespace Kryptonite

namespace MetalThrottle

open ByteWindow
open BmiHotfix (bytesToHex)

section Source

def Site.name : Site → String
  | .defaultCount => "MTLGetDefaultCompilerProcessesCount"
  | .maximumCount => "MTLGetMaximumCompilerProcessesCount"
  | .optimalCount => "MTLGetOptimalCompilerProcessesCount"

/-- `{name} @ 0x{offset:x}` -/
def Site.label (site : Site) : String := site.name ++ " @ " ++ hexNumber site.offset

def alreadyLine (site : Site) : String := " SKIP " ++ site.label ++ ": already patched"

def unexpectedLine (site : Site) (current : List UInt8) : String :=
  " SKIP " ++ site.label ++ ": unexpected bytes " ++ bytesToHex current

def patchedLine (site : Site) : String :=
  " PATCHED " ++ site.label ++ ": " ++ bytesToHex verifyOrig ++ " -> " ++ bytesToHex patchBytes

/-- The file, what has been printed and `patched_count`. -/
structure Progress where
  file : Handle
  output : List String
  patchedCount : Nat
deriving DecidableEq

/-- One round of the loop over `targets`. -/
def patchTarget (progress : Progress) (site : Site) : Progress :=
  let (current, file) := (progress.file.seek site.offset).read 8
  if current = patchBytes then
    { progress with file, output := progress.output ++ [alreadyLine site] }
  else if current ≠ verifyOrig then
    { progress with file, output := progress.output ++ [unexpectedLine site current] }
  else
    { file := (file.seek site.offset).write patchBytes
      output := progress.output ++ [patchedLine site]
      patchedCount := progress.patchedCount + 1 }

/-- The step on a file with these bytes. -/
def patchStep (data : List UInt8) : Progress :=
  Site.all.foldl patchTarget ⟨⟨data, 0⟩, [], 0⟩

end Source

section Windows

/-- The loop over the sites on the bytes alone. -/
def patchSites (sites : List Site) (data : List UInt8) : List UInt8 :=
  sites.foldl (fun data site => patchSite site data) data

theorem read_target (file : Handle) (site : Site) :
    ((file.seek site.offset).read 8).1 = siteBytes site file.bytes :=
  file.seek_read site.offset 8

/-- A round does to the file what `patchSite` does to its bytes. -/
theorem patchTarget_bytes (progress : Progress) (site : Site) :
    (patchTarget progress site).file.bytes = patchSite site progress.file.bytes := by
  simp only [patchTarget, patchSite, read_target]
  split
  · rfl
  · split
    · rfl
    · rename_i horig
      have hfits := fits_of_siteBytes (not_not.mp horig)
      exact Handle.seek_write _ _ (by simp; omega)

theorem foldl_patchTarget_bytes (sites : List Site) (progress : Progress) :
    (sites.foldl patchTarget progress).file.bytes = patchSites sites progress.file.bytes := by
  induction sites generalizing progress with
  | nil => rfl
  | cons site sites ih => rw [List.foldl_cons, ih, patchTarget_bytes]; rfl

theorem patchStep_bytes (data : List UInt8) :
    (patchStep data).file.bytes = patchSites Site.all data :=
  foldl_patchTarget_bytes Site.all _

/-- The step is what the script's run does to the binary. -/
theorem execute_patchMetal (tools : Tools) (volume : Volume) :
    (execute tools (Site.all.map .patchMetal) volume).metal =
      (patchStep volume.metal).file.bytes := by
  rw [patchStep_bytes]
  rfl

theorem length_patchSite (site : Site) (data : List UInt8) :
    (patchSite site data).length = data.length := by
  by_cases h : siteBytes site data = verifyOrig
  · rw [patchSite_of_orig h]
    exact length_overwrite (fits_of_siteBytes h)
  · rw [patchSite_of_ne h]

/-- The byte belongs to the window of a site. -/
def Site.Covers (site : Site) (i : Nat) : Prop := site.offset ≤ i ∧ i < site.offset + 8

theorem patchSite_outside {site : Site} {i : Nat} (hi : ¬ site.Covers i) (data : List UInt8) :
    (patchSite site data)[i]? = data[i]? := by
  by_cases h : siteBytes site data = verifyOrig
  · rw [patchSite_of_orig h, overwrite_getElem? (fits_of_siteBytes h)]
    have hlength : patchBytes.length = 8 := rfl
    by_cases hbefore : i < site.offset
    · rw [if_pos hbefore]
    · rw [if_neg hbefore, if_neg]
      intro hinside
      exact hi ⟨Nat.le_of_not_lt hbefore, hlength ▸ hinside⟩
  · rw [patchSite_of_ne h]

theorem length_patchSites (sites : List Site) (data : List UInt8) :
    (patchSites sites data).length = data.length := by
  induction sites generalizing data with
  | nil => rfl
  | cons site sites ih => exact (ih _).trans (length_patchSite site data)

theorem patchSites_outside {i : Nat} (hi : ∀ site : Site, ¬ site.Covers i) (sites : List Site)
    (data : List UInt8) : (patchSites sites data)[i]? = data[i]? := by
  induction sites generalizing data with
  | nil => rfl
  | cons site sites ih => exact (ih _).trans (patchSite_outside (hi site) data)

/-- Each window is decided by what it held before the loop. -/
theorem siteBytes_patchSites (site : Site) (sites : List Site) (data : List UInt8) :
    siteBytes site (patchSites sites data) =
      if site ∈ sites ∧ siteBytes site data = verifyOrig then patchBytes
      else siteBytes site data := by
  have hne : patchBytes ≠ verifyOrig := by decide
  induction sites generalizing data with
  | nil => simp [patchSites]
  | cons first sites ih =>
      change siteBytes site (patchSites sites (patchSite first data)) = _
      rw [ih, siteBytes_patchSite]
      by_cases hfirst : site = first
      · subst hfirst
        by_cases horig : siteBytes site data = verifyOrig
        · simp [horig, hne]
        · simp [horig]
      · simp [hfirst]

theorem patchSites_of_no_orig {sites : List Site} {data : List UInt8}
    (h : ∀ site, siteBytes site data ≠ verifyOrig) : patchSites sites data = data := by
  induction sites with
  | nil => rfl
  | cons site sites ih =>
      change patchSites sites (patchSite site data) = data
      rw [patchSite_of_ne (h site)]
      exact ih

end Windows

section Law

/-- What a step of the throttle may do to the binary. -/
structure Throttles (data after : List UInt8) : Prop where
  length : after.length = data.length
  outside : ∀ i, (∀ site : Site, ¬ site.Covers i) → after[i]? = data[i]?
  turned : ∀ site, siteBytes site after = patchBytes ∧ siteBytes site data ≠ patchBytes ↔
    siteBytes site data = verifyOrig
  untouched : ∀ site, siteBytes site data ≠ verifyOrig →
    siteBytes site after = siteBytes site data

/-- The step throttles the sites with the expected bytes, whatever the length of
the file, and does nothing the second time. -/
theorem patchStep_throttles (data : List UInt8) :
    Throttles data (patchStep data).file.bytes ∧
      (patchStep (patchStep data).file.bytes).file.bytes = (patchStep data).file.bytes := by
  have hne : verifyOrig ≠ patchBytes := by decide
  have hsite : ∀ site, siteBytes site (patchStep data).file.bytes =
      if siteBytes site data = verifyOrig then patchBytes else siteBytes site data := by
    intro site
    rw [patchStep_bytes, siteBytes_patchSites]
    simp only [site.mem_all, true_and]
  refine ⟨⟨?_, ?_, ?_, ?_⟩, ?_⟩
  · rw [patchStep_bytes]
    exact length_patchSites Site.all data
  · intro i hi
    rw [patchStep_bytes]
    exact patchSites_outside hi Site.all data
  · intro site
    rw [hsite]
    by_cases horig : siteBytes site data = verifyOrig
    · simp [horig, hne]
    · simp [horig]
  · intro site horig
    rw [hsite, if_neg horig]
  · rw [patchStep_bytes (patchStep data).file.bytes]
    apply patchSites_of_no_orig
    intro site
    rw [hsite]
    split
    · exact hne.symm
    · assumption

end Law

section Report

/-- What the step says about a site whose window holds these bytes. -/
def siteLine (site : Site) (current : List UInt8) : String :=
  if current = patchBytes then alreadyLine site
  else if current ≠ verifyOrig then unexpectedLine site current
  else patchedLine site

theorem patchTarget_output (progress : Progress) (site : Site) :
    (patchTarget progress site).output =
      progress.output ++ [siteLine site (siteBytes site progress.file.bytes)] := by
  simp only [patchTarget, siteLine, read_target]
  split
  · rfl
  · split <;> rfl

/-- A round that follows does not read what an earlier one has written. -/
theorem foldl_patchTarget_output {sites : List Site} (h : sites.Nodup) (progress : Progress) :
    (sites.foldl patchTarget progress).output = progress.output ++
      sites.map fun site => siteLine site (siteBytes site progress.file.bytes) := by
  induction sites generalizing progress with
  | nil => simp
  | cons site sites ih =>
      obtain ⟨hsite, hsites⟩ := List.nodup_cons.mp h
      have hsame : ∀ other ∈ sites, siteBytes other (patchTarget progress site).file.bytes =
          siteBytes other progress.file.bytes := by
        intro other hother
        rw [patchTarget_bytes, siteBytes_patchSite, if_neg]
        rintro ⟨rfl, -⟩
        exact hsite hother
      rw [List.foldl_cons, ih hsites, patchTarget_output, List.map_cons, List.append_assoc,
        List.singleton_append]
      congr 2
      exact List.map_congr_left fun other hother => by rw [hsame other hother]

/-- The lines tell what the windows held before the step. -/
theorem patchStep_output (data : List UInt8) :
    (patchStep data).output = Site.all.map fun site => siteLine site (siteBytes site data) :=
  foldl_patchTarget_output (by decide) _

end Report

end MetalThrottle

end Kryptonite
