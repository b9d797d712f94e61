/-
The scan of `forceAMD24BitOutput` over the table `BITS_PER_COMPONENT`.  The
source has no bound for it; it stays inside the image exactly if a zero word
follows the symbol there.
-/
import Kryptonite.LookupLoops
import Kryptonite.PatchSet

namespace Kryptonite

namespace Patches

open Script ByteWindow KernelPatcher

section Words

/-- The first of the words from `offset` on that is zero is the one at index `z`. -/
def FirstZero (offset z : Nat) (bytes : List UInt8) : Prop :=
  window (offset + 4 * z) 4 bytes = [0, 0, 0, 0] ∧
    ∀ i < z, window (offset + 4 * i) 4 bytes ≠ [0, 0, 0, 0]

/-- Of the `z` words from `offset` on those equal to 10 have become 8; everything else is as
it was. -/
structure Normalised (offset z : Nat) (bytes new : List UInt8) : Prop where
  length : new.length = bytes.length
  words : ∀ i < z, window (offset + 4 * i) 4 new =
    if window (offset + 4 * i) 4 bytes = [10, 0, 0, 0] then [8, 0, 0, 0]
    else window (offset + 4 * i) 4 bytes
  others : ∀ i, i < offset ∨ offset + 4 * z ≤ i → new[i]? = bytes[i]?

variable {offset z : Nat} {bytes new : List UInt8}

theorem normalised_zero (offset : Nat) (bytes : List UInt8) : Normalised offset 0 bytes bytes where
  length := rfl
  words := fun i hi => absurd hi (Nat.not_lt_zero i)
  others := fun _ _ => rfl

theorem exists_firstZero (h : window (offset + 4 * z) 4 bytes = [0, 0, 0, 0]) :
    ∃ first ≤ z, FirstZero offset first bytes := by
  induction z using Nat.strongRecOn with
  | ind z ih =>
      by_cases hearlier : ∃ i < z, window (offset + 4 * i) 4 bytes = [0, 0, 0, 0]
      · obtain ⟨i, hi, hzero⟩ := hearlier
        obtain ⟨first, hfirst, hfound⟩ := ih i hi hzero
        exact ⟨first, by omega, hfound⟩
      · exact ⟨z, Nat.le_refl z, h, fun i hi hzero => hearlier ⟨i, hi, hzero⟩⟩

/-- What one round of the loop makes of the bytes. -/
def normaliseAt (offset : Nat) (bytes : List UInt8) : List UInt8 :=
  if window offset 4 bytes = [10, 0, 0, 0] then overwrite offset [8, 0, 0, 0] bytes else bytes

theorem normaliseAt_fits (h : window offset 4 bytes = [10, 0, 0, 0]) :
    offset + 4 ≤ bytes.length :=
  add_le_length_of_window (by decide) (by rw [h]; rfl)

theorem window_normaliseAt {other : Nat} (h : offset + 4 ≤ other) :
    window other 4 (normaliseAt offset bytes) = window other 4 bytes := by
  rw [normaliseAt]
  split
  · rename_i hten
    exact window_overwrite_disjoint (normaliseAt_fits hten) (Or.inr h)
  · rfl

theorem length_normaliseAt : (normaliseAt offset bytes).length = bytes.length := by
  rw [normaliseAt]
  split
  · rename_i hten
    have hfits := normaliseAt_fits hten
    simp only [overwrite, List.length_append, List.length_take, List.length_drop,
      List.length_cons, List.length_nil]
    omega
  · rfl

theorem window_normaliseAt_self : window offset 4 (normaliseAt offset bytes) =
    if window offset 4 bytes = [10, 0, 0, 0] then [8, 0, 0, 0] else window offset 4 bytes := by
  rw [normaliseAt]
  split
  · rename_i hten
    have hfits : offset + ([8, 0, 0, 0] : List UInt8).length ≤ bytes.length := normaliseAt_fits hten
    exact window_overwrite_self hfits
  · rfl

theorem normaliseAt_getElem? {i : Nat} (h : i < offset ∨ offset + 4 ≤ i) :
    (normaliseAt offset bytes)[i]? = bytes[i]? := by
  rw [normaliseAt]
  split
  · rename_i hten
    rw [overwrite_getElem? (normaliseAt_fits hten)]
    rcases h with hbefore | hafter
    · rw [if_pos hbefore]
    · have hpast : ¬ i < offset + ([8, 0, 0, 0] : List UInt8).length := Nat.not_lt.mpr hafter
      rw [if_neg (by omega), if_neg hpast]
  · rfl

/-- One round, and the words after it. -/
theorem normalised_succ (h : Normalised (offset + 4) z (normaliseAt offset bytes) new) :
    Normalised offset (z + 1) bytes new where
  length := h.length.trans length_normaliseAt
  words := by
    intro i hi
    cases i with
    | zero =>
        have hsame : window offset 4 new = window offset 4 (normaliseAt offset bytes) := by
          apply List.ext_getElem?
          intro k
          rw [window_getElem?, window_getElem?]
          split
          · exact h.others _ (Or.inl (by omega))
          · rfl
        rw [Nat.mul_zero, Nat.add_zero, hsame, window_normaliseAt_self]
    | succ i =>
        have hnext := h.words i (by omega)
        rw [window_normaliseAt (by omega)] at hnext
        rw [show offset + 4 * (i + 1) = offset + 4 + 4 * i by omega]
        exact hnext
  others := by
    intro i hi
    rw [h.others i (by omega), normaliseAt_getElem? (by omega)]

theorem FirstZero.unique {other : Nat} (h : FirstZero offset other bytes)
    (h' : FirstZero offset z bytes) : other = z := by
  rcases Nat.lt_trichotomy other z with hlt | heq | hlt
  · exact absurd h.1 (h'.2 other hlt)
  · exact heq
  · exact absurd h'.1 (h.2 z hlt)

theorem FirstZero.next (h : FirstZero offset (z + 1) bytes) :
    FirstZero (offset + 4) z (normaliseAt offset bytes) := by
  have hshift : ∀ i, offset + 4 + 4 * i = offset + 4 * (i + 1) := by
    intro i
    omega
  refine ⟨?_, fun i hi => ?_⟩
  · rw [window_normaliseAt (by omega), hshift]
    exact h.1
  · rw [window_normaliseAt (by omega), hshift]
    exact h.2 (i + 1) (by omega)

end Words

section Scan

variable {load : KextLoad} {s : Kernel} {bytes : List UInt8} {words offset : Nat}

/-- The image of the callback has these bytes; the other images are as they were. -/
def Rewritten (load : KextLoad) (s t : Kernel) (bytes : List UInt8) : Prop :=
  t.images load.index = ⟨load.address, bytes⟩ ∧
    ∀ other ≠ load.index, t.images other = s.images other

theorem scan_succ (load : KextLoad) (words address : Nat) (s : Kernel) :
    scanBitsPerComponent load (words + 1) address s =
      if window (address - (s.images load.index).address) 4 (s.images load.index).bytes =
          [0, 0, 0, 0] then .ok () s
      else if window (address - (s.images load.index).address) 4 (s.images load.index).bytes =
          [10, 0, 0, 0] then
        (normaliseWord load address >>= fun _ => scanBitsPerComponent load words (address + 4)) s
      else scanBitsPerComponent load words (address + 4) s := by
  have himage : imageAt load.index s = .ok (s.images load.index) s := rfl
  rw [scanBitsPerComponent, bind_of_ok himage]
  by_cases hzero : window (address - (s.images load.index).address) 4
      (s.images load.index).bytes = [0, 0, 0, 0]
  · rw [if_pos hzero, if_neg (fun h => h hzero)]
    rfl
  · rw [if_neg hzero, if_pos hzero]
    by_cases hten : window (address - (s.images load.index).address) 4
        (s.images load.index).bytes = [10, 0, 0, 0]
    · rw [if_pos hten, if_pos hten]
    · rw [if_neg hten, if_neg hten]

theorem normaliseWord_eq (hwriting : ∀ address, load.machine.wordWriting address = true)
    (himage : s.images load.index = ⟨load.address, bytes⟩) :
    ∃ t, normaliseWord load (load.address + offset) s = .ok () t ∧
      Rewritten load s t (overwrite offset [8, 0, 0, 0] bytes) := by
  have hrun : ∃ t, normaliseWord load (load.address + offset) s = .ok () t ∧
      t.images = fun other => if other = load.index then
        (s.images other).store (load.address + offset) [8, 0, 0, 0] else s.images other := by
    rw [normaliseWord, if_pos (hwriting _)]
    exact ⟨_, rfl, rfl⟩
  obtain ⟨t, ht, himages⟩ := hrun
  refine ⟨t, ht, ?_, fun other hother => ?_⟩
  · rw [himages]
    simp [himage, Image.store]
  · rw [himages]
    exact if_neg hother

/-- One round of the loop at a word that is not zero. -/
theorem scan_step (words : Nat) (hwriting : ∀ address, load.machine.wordWriting address = true)
    (himage : s.images load.index = ⟨load.address, bytes⟩)
    (hword : window offset 4 bytes ≠ [0, 0, 0, 0]) :
    ∃ t, Rewritten load s t (normaliseAt offset bytes) ∧
      scanBitsPerComponent load (words + 1) (load.address + offset) s =
        scanBitsPerComponent load words (load.address + (offset + 4)) t := by
  rw [scan_succ, himage, Nat.add_sub_cancel_left, if_neg hword, normaliseAt, Nat.add_assoc]
  split
  · obtain ⟨t, ht, hrewritten⟩ := normaliseWord_eq hwriting himage
    exact ⟨t, hrewritten, bind_of_ok ht⟩
  · exact ⟨s, ⟨himage, fun _ _ => rfl⟩, rfl⟩

/-- The scan ends at the first zero word of the image. -/
theorem scan_ok (hwriting : ∀ address, load.machine.wordWriting address = true) {z : Nat}
    (himage : s.images load.index = ⟨load.address, bytes⟩) (hzero : FirstZero offset z bytes)
    (hz : z < words) :
    ∃ t new, scanBitsPerComponent load words (load.address + offset) s = .ok () t ∧
      Rewritten load s t new ∧ Normalised offset z bytes new := by
  induction words generalizing offset z bytes s with
  | zero => omega
  | succ words ih =>
      cases z with
      | zero =>
          have hword : window offset 4 bytes = [0, 0, 0, 0] := hzero.1
          refine ⟨s, bytes, ?_, ⟨himage, fun _ _ => rfl⟩, normalised_zero offset bytes⟩
          rw [scan_succ, himage, Nat.add_sub_cancel_left, if_pos hword]
      | succ z =>
          have hword : window offset 4 bytes ≠ [0, 0, 0, 0] := hzero.2 0 (Nat.succ_pos z)
          obtain ⟨u, hstep, hrun⟩ := scan_step words hwriting himage hword
          obtain ⟨t, new, hscan, hrest, hnormalised⟩ := ih hstep.1 hzero.next (by omega)
          refine ⟨t, new, hrun.trans hscan, ⟨hrest.1, fun other hother => ?_⟩,
            normalised_succ hnormalised⟩
          exact (hrest.2 other hother).trans (hstep.2 other hother)

/-- Without a zero word the scan leaves the image. -/
theorem scan_error (hwriting : ∀ address, load.machine.wordWriting address = true)
    (himage : s.images load.index = ⟨load.address, bytes⟩)
    (hwords : ∀ i < words, window (offset + 4 * i) 4 bytes ≠ [0, 0, 0, 0]) :
    completed (scanBitsPerComponent load words (load.address + offset) s) = false := by
  induction words generalizing offset bytes s with
  | zero => rfl
  | succ words ih =>
      have hword : window offset 4 bytes ≠ [0, 0, 0, 0] := hwords 0 (Nat.succ_pos words)
      obtain ⟨u, hstep, hrun⟩ := scan_step words hwriting himage hword
      rw [hrun]
      apply ih hstep.1
      intro i hi
      rw [window_normaliseAt (by omega), show offset + 4 + 4 * i = offset + 4 * (i + 1) by omega]
      exact hwords (i + 1) (by omega)

end Scan

section Lookups

variable {load : KextLoad} {s t : Kernel}

/-- Nothing outside the image of the callback has been written. -/
def Inside (load : KextLoad) (s t : Kernel) : Prop :=
  ∃ bytes, Rewritten load s t bytes ∧ bytes.length = load.size

variable {loads : LoadTable} {patch : LookupPatch} {machine : Machine}

theorem patchImage_inside :
    Triple (Inside load s) (patchImage load.index patch) (fun _ => Inside load s)
      (fun _ _ => False) := by
  intro t hinside
  obtain ⟨n, u, hrun, after, hpatched, rfl⟩ := patchImage_spec load.index patch t
  obtain ⟨bytes, ⟨himage, hothers⟩, hlength⟩ := hinside
  rw [himage] at hpatched
  rw [hrun]
  refine ⟨after, ⟨?_, fun other hother => ?_⟩, hpatched.replaced.length.trans hlength⟩
  · simp [himage]
  · exact (if_neg hother).trans (hothers other hother)

theorem syslog_inside (origin message : String) :
    Triple (Inside load s) (syslog origin message) (fun _ => Inside load s) (fun _ _ => False) :=
  Triple.modify fun _ h => h

theorem setError_inside (code : Error) :
    Triple (Inside load s) (setError code) (fun _ => Inside load s) (fun _ _ => False) :=
  Triple.modify fun _ h => h

theorem submit_inside (call : Submission) :
    Triple (Inside load s) (submit call) (fun _ => Inside load s) (fun _ _ => False) :=
  Triple.modify fun _ h => h

/-- A lookup patch reads and writes its own image only: it writes no other, and
a comparison behind the end would stop it. -/
theorem applyLookupPatch_inside (hkext : loads.index patch.kext = load.index) :
    Triple (Inside load s) (KernelPatcher.applyLookupPatch loads machine patch)
      (fun _ => Inside load s) (fun _ _ => False) := by
  apply Triple.seq (submit_inside _)
  apply Triple.ite
  · exact fun _ => Triple.seq (syslog_inside _ _) (setError_inside _)
  intro _
  apply Triple.ite
  · exact fun _ => Triple.seq (syslog_inside _ _) (setError_inside _)
  intro _
  rw [hkext]
  apply patchImage_inside.bind
  intro changes
  apply Triple.ite
  · exact fun _ => Triple.seq (syslog_inside _ _) (setError_inside _)
  · exact fun _ => Triple.ite (fun _ => setError_inside _) fun _ => Triple.pure fun _ h => h

theorem applyLookup_inside {boot : Boot} (patch : LookupPatch)
    (hkext : boot.loads.index patch.kext = load.index) (patchName : String) :
    Triple (Inside load s) (applyLookup boot load patch patchName) (fun _ => Inside load s)
      (fun _ _ => False) := by
  apply Triple.seq (syslog_inside _ _)
  apply Triple.seq (applyLookupPatch_inside hkext)
  apply Triple.bind (Triple.read Kernel.code)
  intro error
  apply Triple.ite
  · exact fun _ => Triple.seq (syslog_inside _ _) (setError_inside _)
  · exact fun _ => syslog_inside _ _

end Lookups

section Output

variable {boot : Boot} {load : KextLoad} {kext : KextEntry} {s : Kernel} {bytes : List UInt8}
variable {addresses : String → Nat} {offset : Nat}

/-- The callback of an image with the symbol inside it. -/
structure Located (load : KextLoad) (s : Kernel) (bytes : List UInt8) (offset : Nat) : Prop where
  image : s.images load.index = ⟨load.address, bytes⟩
  size : bytes.length = load.size
  mapped : 0 < load.address
  symbol : ∃ addresses, load.machine.symbols load.index = some addresses ∧
    addresses amdBitsPerComponentSymbol = load.address + offset
  inside : offset < load.size

/-- `kryrad24` is active and kernel memory can be written. -/
structure Active (boot : Boot) (load : KextLoad) : Prop where
  asked : (boot.args.isAMD && boot.args.shouldEnableAMD24BitOutputClamp) = true
  probe : boot.args.isProbeMode = false
  skipAll : boot.args.shouldSkipAllPatches = false
  writing : ∀ address, load.machine.wordWriting address = true

theorem Located.normalise_eq (h : Located load s bytes offset) :
    normaliseBitsPerComponent load s =
      scanBitsPerComponent load ((load.size - offset) / 4) (load.address + offset) s := by
  obtain ⟨addresses, hsymbols, hsymbol⟩ := h.symbol
  have hmapped := h.mapped
  have hinside := h.inside
  have hsolve : solveSymbol load.machine load.index amdBitsPerComponentSymbol s =
      .ok (load.address + offset) s := by
    rw [solveSymbol]
    simp only [hsymbols]
    rw [hsymbol, if_neg (by omega)]
    rfl
  have hrange : solveSymbolInRange load.machine load.index amdBitsPerComponentSymbol
      load.address load.size false s = .ok (load.address + offset) s := by
    rw [solveSymbolInRange, bind_of_ok hsolve, if_neg (by omega), if_pos ⟨by omega, by omega⟩]
    rfl
  have hread : imageAt load.index s = .ok ⟨load.address, bytes⟩ s := by
    rw [← h.image]
    rfl
  rw [normaliseBitsPerComponent, bind_of_ok hrange, if_pos (by omega), bind_of_ok hread]
  dsimp only
  rw [if_neg (by omega)]
  simp only [Image.ending, h.size, Nat.add_sub_add_left]

theorem Active.forceAMD24BitOutput_eq (h : Active boot load) :
    forceAMD24BitOutput boot load kext s =
      (normaliseBitsPerComponent load >>= fun _ =>
        applyLookup boot load (maskPatch kext) "forceAMD24BitOutput" >>= fun _ =>
          applyLookup boot load (bitsPatch kext) "forceAMD24BitOutput-bits") s := by
  have hguard : shouldSkipFeature boot.args "forceAMD24BitOutput"
      (boot.args.isAMD && boot.args.shouldEnableAMD24BitOutputClamp) s = .ok false s := by
    rw [shouldSkipFeature, h.asked, h.probe, h.skipAll]
    rfl
  exact bind_of_ok hguard

theorem index_lt_words {size z : Nat} (h : offset + 4 * z + 4 ≤ size) :
    z < (size - offset) / 4 := by
  rw [Nat.lt_iff_add_one_le, Nat.le_div_iff_mul_le (by decide)]
  omega

/-- The patch completes inside the image, and its scan changes the words equal to 10 before the
first zero word and nothing else, exactly if a zero word follows the symbol in the image.  A word
of the scan and a comparison of the lookups that are not in the image stop the patch, so a patch
that completes has read inside. -/
theorem forceAMD24BitOutput_inside_iff (hactive : Active boot load)
    (hlocated : Located load s bytes offset) (hkext : boot.loads.index kext = load.index) :
    (∃ t u new, forceAMD24BitOutput boot load kext s = .ok () t ∧ Inside load s t ∧
        normaliseBitsPerComponent load s = .ok () u ∧ Rewritten load s u new ∧
        ∀ z, FirstZero offset z bytes → Normalised offset z bytes new) ↔
      ∃ z, offset + 4 * z + 4 ≤ load.size ∧
        window (offset + 4 * z) 4 bytes = [0, 0, 0, 0] := by
  constructor
  · rintro ⟨t, u, new, -, -, hscan, -, -⟩
    by_contra hnone
    have hwords : ∀ i < (load.size - offset) / 4,
        window (offset + 4 * i) 4 bytes ≠ [0, 0, 0, 0] := by
      intro i hi hzero
      have hfits : offset + 4 * i + 4 ≤ bytes.length :=
        add_le_length_of_window (by decide) (by rw [hzero]; rfl)
      exact hnone ⟨i, hlocated.size ▸ hfits, hzero⟩
    have hstopped := scan_error hactive.writing hlocated.image hwords
    rw [← hlocated.normalise_eq, hscan] at hstopped
    cases hstopped
  · rintro ⟨z, hz, hzero⟩
    obtain ⟨first, hfirst, hfound⟩ := exists_firstZero hzero
    obtain ⟨u, new, hscan, hrewritten, hnormalised⟩ := scan_ok hactive.writing hlocated.image
      hfound (Nat.lt_of_le_of_lt hfirst (index_lt_words hz))
    rw [← hlocated.normalise_eq] at hscan
    have hinside : Inside load s u :=
      ⟨new, hrewritten, hnormalised.length.trans hlocated.size⟩
    obtain ⟨_, t, hlookups, hend⟩ :=
      ((applyLookup_inside (maskPatch kext) hkext "forceAMD24BitOutput").seq
        (applyLookup_inside (bitsPatch kext) hkext "forceAMD24BitOutput-bits")).total hinside
    refine ⟨t, u, new, ?_, hend, hscan, hrewritten, ?_⟩
    · rw [hactive.forceAMD24BitOutput_eq, bind_of_ok hscan]
      exact hlookups
    · intro other hother
      rw [hother.unique hfound]
      exact hnormalised

/-- The callback for AMDFramebuffer. -/
def framebufferLoad (size : Nat) : KextLoad := ⟨9, 0x1000, size, PatchSet.willingMachine⟩

/-- The image has the table at its beginning. -/
def framebufferKernel (bytes : List UInt8) : Kernel :=
  { PatchSet.freshKernel with images := fun _ => ⟨0x1000, bytes⟩ }

def rad24Boot : Boot :=
  Boot.init (PatchSet.amdLine ["kryrad24"]) 24 0 PatchSet.fullTable

theorem rad24Boot_active (size : Nat) : Active rad24Boot (framebufferLoad size) where
  asked := by decide
  probe := by decide
  skipAll := by decide
  writing := fun _ => rfl

theorem terminated_table_normalised :
    let bytes := [5, 0, 0, 0, 10, 0, 0, 0, 0, 0, 0, 0]
    ∃ t u new, forceAMD24BitOutput rad24Boot (framebufferLoad 12) 8 (framebufferKernel bytes) =
        .ok () t ∧
      Inside (framebufferLoad 12) (framebufferKernel bytes) t ∧
      normaliseBitsPerComponent (framebufferLoad 12) (framebufferKernel bytes) = .ok () u ∧
      Rewritten (framebufferLoad 12) (framebufferKernel bytes) u new ∧
      ∀ z, FirstZero 0 z bytes → Normalised 0 z bytes new := by
  intro bytes
  have hlocated : Located (framebufferLoad 12) (framebufferKernel bytes) bytes 0 :=
    ⟨rfl, rfl, by decide, ⟨_, rfl, rfl⟩, by decide⟩
  exact (forceAMD24BitOutput_inside_iff (rad24Boot_active 12) hlocated rfl).mpr
    ⟨2, by decide, by decide⟩

/-- How the patch ends on an image with this table. -/
def haltOf (bytes : List UInt8) : Option Halt :=
  match forceAMD24BitOutput rad24Boot (framebufferLoad bytes.length) 8
      (framebufferKernel bytes) with
  | .ok _ _ => none
  | .error halt _ => some halt

/-- Without a zero word the scan reads on behind the image. -/
theorem unterminated_table_left :
    haltOf [5, 0, 0, 0, 10, 0, 0, 0] = some (.outOfImage 0x1008) := by
  decide +kernel

end Output

end Patches

end Kryptonite
