/-
Where the slots come from: `MachInfo::getAddressSlots` looks for unused bytes of
the `__TEXT` segment of a loaded image, before its first section or behind its
last one.  For images that are laid out as the linker lays them out, these bytes
are apart from every function, which is what redirections rely on.
-/
import Kryptonite.RouteRuns

namespace Kryptonite

namespace Routing

open X86

variable {host : Host} {functions : Set Address} {s : Patcher}

/-- `section_64`. -/
structure MachSection where
  addr : Address
  size : Address
deriving Repr, DecidableEq

/-- A header with its load commands, and its `__TEXT` segment. -/
structure MachImage where
  header : Address
  sizeofcmds : Address
  vmaddr : Address
  vmsize : Address
  sections : List MachSection
deriving Repr, DecidableEq

/-- `sizeof(mach_header_64)`. -/
def machHeaderSize : Address := 32

/-- `MachInfo::getAddressSlots`; without a result the fields of the `MachInfo`
stay as they are. -/
def getAddressSlots (image : MachImage) : Option (Address × Address) :=
  match image.sections with
  | [] => none
  | first :: rest =>
      let behindCommands := image.header + machHeaderSize + image.sizeofcmds
      if first.addr < behindCommands then
        none
      else
        let last := rest.getLastD first
        let lastSlotStart := last.addr + last.size
        let lastSlotEnd := image.vmaddr + image.vmsize
        if image.vmaddr < lastSlotStart ∧
            first.addr - behindCommands < lastSlotEnd - lastSlotStart then
          some (lastSlotStart, lastSlotEnd)
        else
          some (behindCommands, first.addr)

/-- The load commands and the sections stand in the segment, in order and
without overlap. -/
structure LaidOut (image : MachImage) : Prop where
  segment : image.vmaddr.toNat + image.vmsize.toNat + 8 < 2 ^ 64
  header : image.vmaddr.toNat ≤ image.header.toNat
  commands : ∀ part ∈ image.sections,
    image.header.toNat + machHeaderSize.toNat + image.sizeofcmds.toNat ≤ part.addr.toNat
  ordered : image.sections.Pairwise fun part later =>
    part.addr.toNat + part.size.toNat ≤ later.addr.toNat
  inside : ∀ part ∈ image.sections,
    part.addr.toNat + part.size.toNat ≤ image.vmaddr.toNat + image.vmsize.toNat

/-- The slots are in the segment, behind the load commands and in no section. -/
structure Unused (image : MachImage) (first last : Address) : Prop where
  order : first.toNat ≤ last.toNat
  behind : image.header.toNat + machHeaderSize.toNat + image.sizeofcmds.toNat ≤ first.toNat
  segment : last.toNat ≤ image.vmaddr.toNat + image.vmsize.toNat
  sections : ∀ part ∈ image.sections, part.addr.toNat + part.size.toNat ≤ first.toNat ∨
    last.toNat ≤ part.addr.toNat

theorem pairwise_last {α : Type} {related : α → α → Prop} {first part : α} {rest : List α}
    (h : (first :: rest).Pairwise related) (hmem : part ∈ first :: rest) :
    part = rest.getLastD first ∨ related part (rest.getLastD first) := by
  induction rest generalizing first with
  | nil => exact .inl (List.mem_singleton.mp hmem)
  | cons next rest ih =>
      rw [List.getLastD_cons]
      obtain ⟨hfirst, hrest⟩ := List.pairwise_cons.mp h
      rcases List.mem_cons.mp hmem with rfl | hmem
      · exact .inr (hfirst _ List.getLastD_mem_cons)
      · exact ih hrest hmem

theorem getAddressSlots_unused {image : MachImage} (h : LaidOut image) {first last : Address}
    (hslots : getAddressSlots image = some (first, last)) : Unused image first last := by
  have hsegment := h.segment
  have hend : (image.vmaddr + image.vmsize).toNat = image.vmaddr.toNat + image.vmsize.toNat := by
    rw [BitVec.toNat_add, Nat.mod_eq_of_lt (by omega)]
  rw [getAddressSlots] at hslots
  cases hsections : image.sections with
  | nil =>
      rw [hsections] at hslots
      cases hslots
  | cons head rest =>
      have hcommands := h.commands head (hsections ▸ List.mem_cons_self)
      have hbehind : (image.header + machHeaderSize + image.sizeofcmds).toNat =
          image.header.toNat + machHeaderSize.toNat + image.sizeofcmds.toNat := by
        have hlt := head.addr.isLt
        rw [BitVec.toNat_add, BitVec.toNat_add, Nat.mod_eq_of_lt (a := image.header.toNat + _)
          (by omega), Nat.mod_eq_of_lt (by omega)]
      rw [hsections] at hslots
      simp only at hslots
      split at hslots
      · cases hslots
      · split at hslots
        · cases hslots
          have hlast : rest.getLastD head ∈ image.sections := hsections ▸ List.getLastD_mem_cons
          have hinside := h.inside _ hlast
          have hfrom : ((rest.getLastD head).addr + (rest.getLastD head).size).toNat =
              (rest.getLastD head).addr.toNat + (rest.getLastD head).size.toNat := by
            rw [BitVec.toNat_add, Nat.mod_eq_of_lt (by omega)]
          refine ⟨by omega, ?_, by omega, fun part hmem => .inl ?_⟩
          · have hcommands := h.commands _ hlast
            omega
          · have hordered := h.ordered
            rw [hsections] at hordered hmem
            rcases pairwise_last hordered hmem with rfl | hbefore <;> omega
        · cases hslots
          have hinside := h.inside head (hsections ▸ List.mem_cons_self)
          refine ⟨by omega, by omega, by omega, fun part hmem => .inr ?_⟩
          have hordered := h.ordered
          rw [hsections] at hordered hmem
          rcases List.mem_cons.mp hmem with rfl | hmem
          · exact le_rfl
          · have hbefore := (List.pairwise_cons.mp hordered).1 part hmem
            omega

/-- The images in memory when the first function is redirected: each in a place
of its own, all of them within two gigabytes, and apart from Lilu's temporary
memory, which is blank.  The functions are code of the images. -/
structure Loaded (host : Host) (images : List MachImage) (functions : Set Address)
    (s : Patcher) : Prop where
  laidOut : ∀ image ∈ images, LaidOut image
  slots : ∀ info, s.addressSlots info = (images[info]?.bind getAddressSlots).getD (0, 0)
  apart : images.Pairwise fun image other =>
    image.vmaddr.toNat + image.vmsize.toNat ≤ other.vmaddr.toNat ∨
      other.vmaddr.toNat + other.vmsize.toNat ≤ image.vmaddr.toNat
  close : ∀ image ∈ images, ∀ other ∈ images,
    other.vmaddr.toNat + other.vmsize.toNat ≤ image.vmaddr.toNat + 2 ^ 31
  memory : ∀ image ∈ images,
    host.tempExecutableMemory.toNat + tempExecutableMemorySize ≤ image.vmaddr.toNat ∨
      image.vmaddr.toNat + image.vmsize.toNat ≤ host.tempExecutableMemory.toNat
  bounded : host.tempExecutableMemory.toNat + tempExecutableMemorySize ≤ 2 ^ 64
  unused : s.tempExecutableMemoryOff = 0
  blank : Blank host s
  code : ∀ f ∈ functions, ∃ image ∈ images, ∃ part ∈ image.sections,
    part.addr.toNat ≤ f.toNat ∧ f.toNat + longJump ≤ part.addr.toNat + part.size.toNat

section Slots

variable {images : List MachImage} {address : Address}

theorem Loaded.region_memory (h : Loaded host images functions s)
    (hregion : Region host s none address) :
    host.tempExecutableMemory.toNat ≤ address.toNat ∧
      address.toNat < host.tempExecutableMemory.toNat + tempExecutableMemorySize := by
  have hstart : freeMemory host s = host.tempExecutableMemory := by
    rw [freeMemory, h.unused, BitVec.add_zero]
  rw [Region, hstart, h.unused] at hregion
  exact (inside_range h.bounded).mp hregion

/-- A slot belongs to an image. -/
theorem Loaded.region_slots {info : Nat} (h : Loaded host images functions s)
    (hregion : Region host s (some info) address) :
    ∃ image first last, images[info]? = some image ∧ Unused image first last ∧
      first.toNat ≤ address.toNat ∧ address.toNat < last.toNat := by
  rw [Region, slotSpace, h.slots info] at hregion
  cases himage : images[info]? with
  | none =>
      rw [himage, Option.bind_none, Option.getD_none, inside_iff] at hregion
      cases hregion
  | some image =>
      rw [himage, Option.bind_some] at hregion
      cases hslots : getAddressSlots image with
      | none =>
          rw [hslots, Option.getD_none, inside_iff] at hregion
          cases hregion
      | some found =>
          obtain ⟨first, last⟩ := found
          rw [hslots, Option.getD_some] at hregion
          have hin : inside first (last.toNat - first.toNat) address = true := hregion
          have hunused := getAddressSlots_unused
            (h.laidOut image (List.mem_of_getElem? himage)) hslots
          have horder := hunused.order
          have hlt := last.isLt
          have hrange := (inside_range (by omega)).mp hin
          exact ⟨image, first, last, rfl, hunused, hrange.1, by omega⟩

theorem Loaded.region_segment {info : Nat} {image : MachImage}
    (h : Loaded host images functions s) (hregion : Region host s (some info) address)
    (himage : images[info]? = some image) :
    image.vmaddr.toNat ≤ address.toNat ∧
      address.toNat < image.vmaddr.toNat + image.vmsize.toNat := by
  obtain ⟨found, first, last, hfound, hunused, hfirst, hlast⟩ := h.region_slots hregion
  cases Option.some.inj (himage.symm.trans hfound)
  have hheader := (h.laidOut image (List.mem_of_getElem? himage)).header
  have hbehind := hunused.behind
  have hsegment := hunused.segment
  omega

theorem Loaded.apart_of_ne (h : Loaded host images functions s) {info info' : Nat}
    {image image' : MachImage} (himage : images[info]? = some image)
    (himage' : images[info']? = some image') (hne : info ≠ info') :
    image.vmaddr.toNat + image.vmsize.toNat ≤ image'.vmaddr.toNat ∨
      image'.vmaddr.toNat + image'.vmsize.toNat ≤ image.vmaddr.toNat := by
  obtain ⟨hlt, rfl⟩ := List.getElem?_eq_some_iff.mp himage
  obtain ⟨hlt', rfl⟩ := List.getElem?_eq_some_iff.mp himage'
  have hpairs := List.pairwise_iff_getElem.mp h.apart
  rcases Nat.lt_or_gt_of_ne hne with hbefore | hafter
  · exact hpairs info info' hlt hlt' hbefore
  · exact (hpairs info' info hlt' hlt hafter).symm

/-- The temporary memory is in no image. -/
theorem Loaded.memory_outside {info : Nat} {image : MachImage}
    (h : Loaded host images functions s) (himage : images[info]? = some image)
    (hlow : image.vmaddr.toNat ≤ address.toNat)
    (hhigh : address.toNat < image.vmaddr.toNat + image.vmsize.toNat) :
    ¬ Region host s none address := by
  intro hregion
  have hmemory := h.memory image (List.mem_of_getElem? himage)
  have hrange := h.region_memory hregion
  omega

theorem Loaded.memory_apart {info : Nat} (h : Loaded host images functions s)
    (hslot : Region host s (some info) address) : ¬ Region host s none address := by
  obtain ⟨image, _, _, himage, -⟩ := h.region_slots hslot
  obtain ⟨hlow, hhigh⟩ := h.region_segment hslot himage
  exact h.memory_outside himage hlow hhigh

/-- The slots of two images are apart, as the images are. -/
theorem Loaded.slots_apart {info info' : Nat} (h : Loaded host images functions s)
    (hslot : Region host s (some info) address) (hslot' : Region host s (some info') address) :
    info = info' := by
  obtain ⟨image, _, _, himage, -⟩ := h.region_slots hslot
  obtain ⟨image', _, _, himage', -⟩ := h.region_slots hslot'
  have hplace := h.region_segment hslot himage
  have hplace' := h.region_segment hslot' himage'
  by_contra hne
  have hapart := h.apart_of_ne himage himage' hne
  omega

/-- A function is in a section of its image. -/
theorem Loaded.window (h : Loaded host images functions s) {f : Address} (hf : f ∈ functions)
    (hin : inside f longJump address = true) :
    ∃ (info : Nat) (image : MachImage), images[info]? = some image ∧ ∃ part ∈ image.sections,
      part.addr.toNat ≤ address.toNat ∧
        address.toNat < part.addr.toNat + part.size.toNat := by
  obtain ⟨image, himage, part, hpart, hlow, hhigh⟩ := h.code f hf
  obtain ⟨info, hinfo⟩ := List.mem_iff_getElem?.mp himage
  have hinside := (h.laidOut image himage).inside part hpart
  have hsegment := (h.laidOut image himage).segment
  obtain ⟨hfirst, hlast⟩ := (inside_range (by omega)).mp hin
  exact ⟨info, image, hinfo, part, hpart, by omega, by omega⟩

theorem LaidOut.section_segment {image : MachImage} {part : MachSection} (h : LaidOut image)
    (hpart : part ∈ image.sections) (hlow : part.addr.toNat ≤ address.toNat)
    (hhigh : address.toNat < part.addr.toNat + part.size.toNat) :
    image.vmaddr.toNat ≤ address.toNat ∧
      address.toNat < image.vmaddr.toNat + image.vmsize.toNat := by
  have hcommands := h.commands part hpart
  have hheader := h.header
  have hinside := h.inside part hpart
  omega

/-- No section is free memory. -/
theorem Loaded.section_apart {info : Nat} {image : MachImage} {part : MachSection}
    (h : Loaded host images functions s) (himage : images[info]? = some image)
    (hpart : part ∈ image.sections) (hlow : part.addr.toNat ≤ address.toNat)
    (hhigh : address.toNat < part.addr.toNat + part.size.toNat) : ¬ Free host s address := by
  rintro ⟨region, hregion⟩
  obtain ⟨hstart, hend⟩ :=
    (h.laidOut image (List.mem_of_getElem? himage)).section_segment hpart hlow hhigh
  cases region with
  | none => exact h.memory_outside himage hstart hend hregion
  | some info' =>
      obtain ⟨image', first, last, himage', hunused, hfirst, hlast⟩ := h.region_slots hregion
      by_cases hsame : info' = info
      · subst hsame
        cases Option.some.inj (himage.symm.trans himage')
        have hsections := hunused.sections part hpart
        omega
      · have hapart := h.apart_of_ne himage' himage hsame
        have hplace := h.region_segment hregion himage'
        omega

theorem Loaded.ends (h : Loaded host images functions s) (info : Nat) :
    (s.addressSlots info).1.toNat ≤ (s.addressSlots info).2.toNat ∧
      (s.addressSlots info).2.toNat + 8 < 2 ^ 64 := by
  rw [h.slots info]
  cases himage : images[info]? with
  | none => decide
  | some image =>
      rw [Option.bind_some]
      cases hslots : getAddressSlots image with
      | none => decide
      | some found =>
          have hlaid := h.laidOut image (List.mem_of_getElem? himage)
          have hunused := @getAddressSlots_unused image hlaid found.1 found.2 hslots
          have hsegment := hunused.segment
          have hbound := hlaid.segment
          exact ⟨hunused.order, by rw [Option.getD_some]; omega⟩

/-- A slot and a function are in images, which are all within two gigabytes. -/
theorem Loaded.near {f : Address} {info : Nat} (h : Loaded host images functions s)
    (hf : f ∈ functions) (hregion : Region host s (some info) address) :
    Plan.Near (f + 6) address := by
  obtain ⟨image, _, _, himage, -⟩ := h.region_slots hregion
  have hplace := h.region_segment hregion himage
  have hbehind : inside f longJump (f + 6) = true :=
    inside_offset (by decide : 6 < longJump) (by decide)
  obtain ⟨info', image', himage', part, hpart, hlow, hhigh⟩ := h.window hf hbehind
  have hmem := List.mem_of_getElem? himage
  have hmem' := List.mem_of_getElem? himage'
  have hcode := (h.laidOut image' hmem').section_segment hpart hlow hhigh
  have hclose := h.close image hmem image' hmem'
  have hclose' := h.close image' hmem' image hmem
  exact Plan.near_of_close (by omega) (by omega)

theorem Loaded.orderly (h : Loaded host images functions s) : Orderly host functions s where
  blank := h.blank
  windows f hf address hin := by
    obtain ⟨info, image, himage, part, hpart, hlow, hhigh⟩ := h.window hf hin
    exact h.section_apart himage hpart hlow hhigh
  regions region region' address hregion hregion' := by
    cases region with
    | none =>
        cases region' with
        | none => rfl
        | some info => exact absurd hregion (h.memory_apart hregion')
    | some info =>
        cases region' with
        | none => exact absurd hregion' (h.memory_apart hregion)
        | some info' => exact congrArg some (h.slots_apart hregion hregion')
  ends := h.ends
  near f hf info address hregion := h.near hf hregion

/-- The slots that `getAddressSlots` finds meet no section of their image and not
its load commands, so the functions, which are code of the sections, the slots and
the temporary memory are apart from each other, and near enough. -/
theorem loaded_orderly (h : Loaded host images functions s) :
    (∀ info image first last, images[info]? = some image →
        getAddressSlots image = some (first, last) →
        s.addressSlots info = (first, last) ∧ Unused image first last) ∧
      Orderly host functions s := by
  refine ⟨fun info image first last himage hslots => ⟨?_, ?_⟩, h.orderly⟩
  · rw [h.slots info, himage, Option.bind_some, hslots, Option.getD_some]
  · exact getAddressSlots_unused (h.laidOut image (List.mem_of_getElem? himage)) hslots

/-- An image with the functions in its second section. -/
def sampleImage : MachImage :=
  ⟨0x1F000, 0x100, 0x1F000, 0x3000, [⟨0x1F200, 0x400⟩, ⟨0x20000, 0x1000⟩]⟩

theorem sampleImage_laidOut : LaidOut sampleImage :=
  ⟨by decide, by decide, by decide, by decide, by decide⟩

/-- The end of the segment has more room than its beginning. -/
def sampleLoaded : Patcher :=
  { sampleStart with
    addressSlots := fun info => ([sampleImage][info]?.bind getAddressSlots).getD (0, 0) }

theorem loaded_orderly_sample :
    Unused sampleImage 0x21000 0x22000 ∧ Orderly sampleHost sampleFunctions sampleLoaded := by
  have hmem : ∀ image ∈ [sampleImage], image = sampleImage :=
    fun image h => List.mem_singleton.mp h
  have hloaded : Loaded sampleHost [sampleImage] sampleFunctions sampleLoaded := by
    refine ⟨?_, fun _ => rfl, List.pairwise_singleton _ _, ?_, ?_, by decide, rfl, sample_blank, ?_⟩
    · intro image h
      rw [hmem image h]
      exact sampleImage_laidOut
    · intro image h other h'
      rw [hmem image h, hmem other h']
      decide
    · intro image h
      rw [hmem image h]
      exact .inl (by decide)
    · rintro f (rfl | rfl)
      · exact ⟨sampleImage, List.mem_singleton_self _, ⟨0x20000, 0x1000⟩, by decide, by decide,
          by decide⟩
      · exact ⟨sampleImage, List.mem_singleton_self _, ⟨0x20000, 0x1000⟩, by decide, by decide,
          by decide⟩
  obtain ⟨hunused, horderly⟩ := loaded_orderly hloaded
  exact ⟨(hunused 0 sampleImage 0x21000 0x22000 rfl (by decide)).2, horderly⟩

end Slots

end Routing

end Kryptonite
