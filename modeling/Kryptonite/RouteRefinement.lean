/-
The patcher of the other modules takes the fate of a route from the machine.
Here the redirection that the source computes, on the text itself, is shown to
have such a fate, so nothing that the source can do is missing there.
-/
import Kryptonite.RouteRuns

namespace Kryptonite

namespace Routing

open X86 ByteWindow Script

section Bytes

variable {text : Code} {base address : Address} {bytes : List UInt8} {size : Nat}

/-- A write to a part of the text, seen from the whole. -/
theorem readBytes_placed_overwrite (hfits : (address - base).toNat + bytes.length ≤ size)
    (hsize : size ≤ 2 ^ 64) :
    readBytes (placed text address bytes) base size =
      overwrite (address - base).toNat bytes (readBytes text base size) := by
  have hlt := (address - base).isLt
  apply List.ext_getElem?
  intro i
  rw [overwrite_getElem? (by simpa using hfits)]
  by_cases hi : i < size
  · have hoffset : (base + BitVec.ofNat 64 i - address).toNat =
        if (address - base).toNat ≤ i then i - (address - base).toNat
        else i + 2 ^ 64 - (address - base).toNat := by
      have hshift := @toNat_sub_add base (base + BitVec.ofNat 64 i) (address - base).toNat hlt
      rw [add_sub_toNat, toNat_add_sub (by omega)] at hshift
      exact hshift
    rw [getElem?_readBytes hi, getElem?_readBytes hi, placed, hoffset]
    by_cases hbefore : i < (address - base).toNat
    · rw [if_pos hbefore, if_neg (by omega), List.getElem?_eq_none (by omega), Option.getD_none]
    · rw [if_neg hbefore, if_pos (by omega)]
      split
      next hin =>
        rw [List.getElem?_eq_getElem (by omega), Option.getD_some]
      next hout => rw [List.getElem?_eq_none (by omega), Option.getD_none]
  · rw [List.getElem?_eq_none (by simpa using hi), List.getElem?_eq_none (by simpa using hi),
      if_neg (by omega), if_neg (by omega)]

/-- The bytes of an image are those of the text. -/
structure Shows (image : Image) (text : Code) : Prop where
  start : image.address < 2 ^ 64
  ending : image.ending ≤ 2 ^ 64
  bytes : image.bytes = readBytes text (BitVec.ofNat 64 image.address) image.bytes.length

variable {image : Image} {text' : Code}

theorem Shows.toNat_start (h : Shows image text) :
    (BitVec.ofNat 64 image.address).toNat = image.address := by
  rw [BitVec.toNat_ofNat, Nat.mod_eq_of_lt h.start]

theorem Shows.congr (h : Shows image text) (hsame : ∀ address : Address,
      image.address ≤ address.toNat → address.toNat < image.ending →
      text' address = text address) :
    Shows image text' := by
  have hstart := h.toNat_start
  have hending := h.ending
  rw [Image.ending] at hending hsame
  refine ⟨h.start, h.ending, h.bytes.trans ?_⟩
  refine (readBytes_congr (by omega) fun address hin => ?_).symm
  have hrange := (inside_range (by omega)).mp hin
  exact hsame address (by omega) (by omega)

theorem Shows.store (h : Shows image text) (hlow : image.address ≤ address.toNat)
    (hhigh : address.toNat + bytes.length ≤ image.ending) :
    Shows (image.store address.toNat bytes) (placed text address bytes) ∧
      (image.store address.toNat bytes).ending = image.ending := by
  have hstart := h.toNat_start
  have hending := h.ending
  have hlt := address.isLt
  rw [Image.ending] at hhigh hending
  have hoffset : (address - BitVec.ofNat 64 image.address).toNat =
      address.toNat - image.address := by
    rw [BitVec.toNat_sub, hstart]
    omega
  have hlength : (image.store address.toNat bytes).bytes.length = image.bytes.length :=
    length_overwrite (by omega)
  have hsame : (image.store address.toNat bytes).ending = image.ending := by
    rw [Image.ending, Image.ending, hlength]
    rfl
  refine ⟨⟨h.start, hsame ▸ h.ending, ?_⟩, hsame⟩
  rw [hlength]
  change overwrite (address.toNat - image.address) bytes image.bytes = _
  rw [← hoffset, h.bytes, length_readBytes]
  exact (readBytes_placed_overwrite (by omega) (by omega)).symm

end Bytes

section Abstract

variable {machine : Machine} {id : Nat} {request : RouteRequest} {k : Kernel}

/-- The stores of a route, one after the other. -/
def storeAll (stores : List (Nat × List UInt8)) (image : Image) : Image :=
  stores.foldl (fun image store => image.store store.1 store.2) image

/-- The patcher after the image of a `kinfo` has changed. -/
def withImage (k : Kernel) (id : Nat) (f : Image → Image) : Kernel :=
  { k with images := fun other => if other = id then f (k.images other) else k.images other }

theorem forM_stores (id : Nat) (stores : List (Nat × List UInt8)) (k : Kernel) :
    List.forM (m := PatcherM) stores (fun (address, bytes) =>
        updateImage id fun image => image.store address bytes) k =
      .ok ⟨⟩ (withImage k id (storeAll stores)) := by
  induction stores generalizing k with
  | nil =>
      have hsame : withImage k id (storeAll []) = k := by
        simp [withImage, storeAll]
      rw [hsame]
      rfl
  | cons store stores ih =>
      have hone : updateImage id (fun image => image.store store.1 store.2) k =
          .ok ⟨⟩ (withImage k id fun image => image.store store.1 store.2) := rfl
      refine (bind_of_ok hone).trans ?_
      rw [ih]
      congr 1
      simp only [withImage, storeAll, List.foldl_cons]
      congr 1
      funext other
      by_cases h : other = id <;> simp [h]

/-- The store to the original pointer. -/
def withOriginal (k : Kernel) (org : Option Kryptonite.Hook) (value : Nat) : Kernel :=
  { k with orgs := fun hook => if some hook = org then value else k.orgs hook }

theorem writeRoute_eq (trampoline : Nat) (stores : List (Nat × List UInt8)) :
    KernelPatcher.writeRoute id request trampoline stores k =
      .ok ⟨⟩ { withImage (withOriginal k request.org trampoline) id (storeAll stores) with
        routes := k.routes ++ [(id, request)] } := by
  have horg : KernelPatcher.setOrg request.org trampoline k =
      .ok ⟨⟩ (withOriginal k request.org trampoline) := rfl
  rw [KernelPatcher.writeRoute]
  refine (bind_of_ok horg).trans ?_
  exact (bind_of_ok (forM_stores id stores _)).trans rfl

end Abstract

section Refinement

variable {host : Host} {functions : Set Address} {s s' m u : Patcher}
variable {cells : Option Kryptonite.Hook → Nat} {id : Nat} {request : RouteRequest} {k : Kernel}
variable {source target slot : Address}

/-- The two patchers agree on the error, on the original pointers and on the
image of a `kinfo`. -/
structure Mirrors (cells : Option Kryptonite.Hook → Nat) (id : Nat) (k : Kernel)
    (s : Patcher) : Prop where
  code : k.code = s.code
  orgs : ∀ hook, k.orgs hook = (s.orgs (cells (some hook))).toNat
  image : Shows (k.images id) s.text

/-- A redirection as `routeMultiple` asks for it; the variable of the caller
that receives an original has a place of its own. -/
def requestRoute (cells : Option Kryptonite.Hook → Nat) (id : Nat) (request : RouteRequest)
    (source target : Address) : Route :=
  ⟨source, target, true, true, true, .auto, some id, some (cells request.org)⟩

/-- The function and the slots are in the image, the temporary memory is not. -/
structure Within (host : Host) (id : Nat) (image : Image) (source : Address)
    (s : Patcher) : Prop where
  source : image.address ≤ source.toNat ∧ source.toNat + longJump ≤ image.ending
  slots : ∀ address, Region host s (some id) address →
    image.address ≤ address.toNat ∧ address.toNat < image.ending
  memory : ∀ address : Address, image.address ≤ address.toNat → address.toNat < image.ending →
    ¬ Region host s none address

/-- The same value and agreeing patchers, or a panic of both. -/
def Agrees (cells : Option Kryptonite.Hook → Nat) (id : Nat) :
    EStateM.Result Halt Kernel Nat → EStateM.Result Panic Patcher Address → Prop
  | .ok value k, .ok ret s => value = ret.toNat ∧ Mirrors cells id k s
  | .error halt _, .error _ _ => halt = .jumpChain
  | _, _ => False

/-- The stores of a jump to the image. -/
def storesOf (plan : Plan) (source target : Address) : List (Nat × List UInt8) :=
  (match plan with
    | .slotted slot => [(slot.toNat, wordBytes 8 target)]
    | .absolute | .relative => []) ++ [(source.toNat, plan.bytes source target)]

/-- The originals after the store to `*org`. -/
theorem Mirrors.withOrg (h : Mirrors cells id k s) (hcells : Function.Injective cells)
    {org : Option Kryptonite.Hook} {value : Address} :
    Mirrors cells id (withOriginal k org value.toNat) (withOrg s (some (cells org)) value) := by
  refine ⟨h.code, fun hook => ?_, h.image⟩
  by_cases hhook : some hook = org
  · subst hhook
    simp [withOriginal, Routing.withOrg]
  · have hne : cells (some hook) ≠ cells org := fun heq => hhook (hcells heq)
    simp [withOriginal, Routing.withOrg, hhook, hne, h.orgs]

theorem Mirrors.slotTaken (h : Mirrors cells id k s) (htaken : SlotTaken s slot u) :
    Mirrors cells id k u := by
  cases htaken <;> exact ⟨h.code, h.orgs, h.image⟩

/-- Making a trampoline does not show in the image. -/
theorem Mirrors.aside {code : Error} (h : Mirrors cells id k s)
    (hwithin : Within host id (k.images id) source s) (htaken : SlotTaken s slot u)
    (haside : Aside host u m) (hs : Orderly host functions s) (hcode : m.code = code) :
    Mirrors cells id { k with code := code } m := by
  refine ⟨hcode.symm, fun hook => ?_, h.image.congr fun address hlow hhigh => ?_⟩
  · rw [haside.orgs, htaken.orgs]
    exact h.orgs hook
  · rw [haside.text_eq fun hregion => hwithin.memory address hlow hhigh
      (htaken.shrinks hs _ _ hregion), htaken.text]

/-- The written jump shows in the image as its stores. -/
theorem Shows.jump {image : Image} {text : Code} {plan : Plan} (h : Shows image text)
    (hclear : plan.Clear source)
    (hsource : image.address ≤ source.toNat ∧ source.toNat + longJump ≤ image.ending)
    (hslot : ∀ slot, plan = .slotted slot →
      image.address ≤ slot.toNat ∧ slot.toNat + 8 ≤ image.ending) :
    Shows (storeAll (storesOf plan source target) image) (plan.commit source target text) := by
  rw [Plan.commit_eq hclear]
  have hsize := @Plan.size_le plan
  have hlong : longJump = 14 := rfl
  have hfits : source.toNat + (plan.bytes source target).length ≤ image.ending := by
    rw [Plan.length_bytes]
    omega
  cases plan with
  | slotted slot =>
      obtain ⟨hlow, hhigh⟩ := hslot slot rfl
      have hword : slot.toNat + (wordBytes 8 target).length ≤ image.ending := by
        rw [length_wordBytes]
        exact hhigh
      obtain ⟨hfirst, hending⟩ := h.store hlow hword
      rw [← hending] at hfits
      exact (hfirst.store hsource.1 hfits).1
  | absolute => exact (h.store hsource.1 hfits).1
  | relative => exact (h.store hsource.1 hfits).1

/-- A slot of the image. -/
theorem Within.slot_inside {image : Image} (hwithin : Within host id image source s)
    (hs : Orderly host functions s) (hget : getAddressSlot id s = .ok slot u) (hne : slot ≠ 0) :
    image.address ≤ slot.toNat ∧ slot.toNat + 8 ≤ image.ending := by
  obtain ⟨rfl, hfits⟩ := (getAddressSlot_taken hget).2 hne
  have hspace := hs.slot_fits hfits
  have hlt := slotSpace_lt s id
  have hends := hs.ends id
  rw [slotSpace] at hspace
  have hplace : ∀ i, i < 8 → image.address ≤ (s.addressSlots id).1.toNat + i ∧
      (s.addressSlots id).1.toNat + i < image.ending := by
    intro i hi
    have hregion : Region host s (some id) ((s.addressSlots id).1 + BitVec.ofNat 64 i) := by
      rw [Region, slotSpace]
      exact inside_offset (by omega) (by omega)
    have hrange := hwithin.slots _ hregion
    rw [BitVec.toNat_add, BitVec.toNat_ofNat] at hrange
    omega
  have hfirst := hplace 0 (by decide)
  have hlast := hplace 7 (by decide)
  omega

/-- The two patchers after the jump is written. -/
theorem Mirrors.jumped {plan : Plan} {books : Books} (h : Mirrors cells id k s)
    (hcells : Function.Injective cells) (hclear : plan.Clear source)
    (hsource : (k.images id).address ≤ source.toNat ∧
      source.toNat + longJump ≤ (k.images id).ending)
    (hslot : ∀ slot, plan = .slotted slot →
      (k.images id).address ≤ slot.toNat ∧ slot.toNat + 8 ≤ (k.images id).ending)
    {org : Address} :
    Mirrors cells id
      { withImage (withOriginal k request.org org.toNat) id
          (storeAll (storesOf plan source target)) with
        routes := k.routes ++ [(id, request)] }
      (jumped (Routing.withOrg s (some (cells request.org)) org) source target plan books) := by
  have horg : Mirrors cells id (withOriginal k request.org org.toNat)
      (Routing.withOrg s (some (cells request.org)) org) := h.withOrg hcells
  refine ⟨horg.code, horg.orgs, ?_⟩
  have himage : (withImage (withOriginal k request.org org.toNat) id
      (storeAll (storesOf plan source target))).images id =
      storeAll (storesOf plan source target) (k.images id) := if_pos rfl
  change Shows ((withImage (withOriginal k request.org org.toNat) id
      (storeAll (storesOf plan source target))).images id) (plan.commit source target s.text)
  rw [himage]
  exact h.image.jump hclear hsource hslot

/-- The patcher before the jump is written: a trampoline that was made cleared
the error. -/
def clearedIf (created : Bool) (k : Kernel) : Kernel :=
  if created then { k with code := .noError } else k

/-- The end of a redirection has a fate. -/
theorem writeJump_refines {created absolute revertible : Bool} {org ret : Address}
    (h : Mirrors cells id (clearedIf created k) m) (hcells : Function.Injective cells)
    (hclear : (planOf slot absolute).Clear source)
    (hsource : (k.images id).address ≤ source.toNat ∧
      source.toNat + longJump ≤ (k.images id).ending)
    (hslot : ∀ slot', planOf slot absolute = .slotted slot' →
      (k.images id).address ≤ slot'.toNat ∧ slot'.toNat + 8 ≤ (k.images id).ending)
    (hjump : writeJump host source target slot absolute true revertible org
      (some (cells request.org)) m = .ok ret s') :
    ∃ fate, ∀ machine : Machine, machine.fate id request = fate →
      Agrees cells id (KernelPatcher.routeFunctionInternal machine id request k) (.ok ret s') := by
  have horg : Mirrors cells id (withOriginal (clearedIf created k) request.org org.toNat)
      (Routing.withOrg m (some (cells request.org)) org) := h.withOrg hcells
  have horgs : ∀ hook, (withOriginal k request.org org.toNat).orgs hook =
      ((Routing.withOrg m (some (cells request.org)) org).orgs (cells (some hook))).toNat := by
    cases created <;> exact horg.orgs
  have himage : Shows (k.images id) m.text := by
    cases created <;> exact h.image
  obtain ⟨rfl, code, books, rfl | rfl, -, rfl⟩ | ⟨rfl, books, -, rfl⟩ := writeJump_cases hjump
  · refine ⟨.noPatches org.toNat, fun machine hfate => ?_⟩
    rw [KernelPatcher.routeFunctionInternal, hfate]
    exact ⟨rfl, rfl, horgs, himage⟩
  · refine ⟨.writeProtected org.toNat, fun machine hfate => ?_⟩
    rw [KernelPatcher.routeFunctionInternal, hfate]
    exact ⟨rfl, rfl, horgs, himage⟩
  · refine ⟨.routed created ret.toNat (storesOf (planOf slot absolute) source target),
      fun machine hfate => ?_⟩
    rw [KernelPatcher.routeFunctionInternal, hfate]
    cases created with
    | false =>
        simp only
        rw [bind_of_ok (writeRoute_eq _ _)]
        exact ⟨rfl, h.jumped hcells hclear hsource hslot⟩
    | true =>
        have hcleared : KernelPatcher.clearError k = .ok ⟨⟩ (clearedIf true k) := rfl
        simp only
        rw [bind_of_ok hcleared, bind_of_ok (writeRoute_eq _ _)]
        exact ⟨rfl, h.jumped hcells hclear hsource hslot⟩

/-- Whatever the source's redirection does on the text, the patcher that takes
its fate from the machine does the same on the image for some fate: the same
returned value, error, original pointers and bytes, or a panic. -/
theorem route_refines (hs : Orderly host functions s) (hsource : source ∈ functions)
    (hcells : Function.Injective cells) (h : Mirrors cells id k s)
    (hwithin : Within host id (k.images id) source s) :
    ∃ fate, ∀ machine : Machine, machine.fate id request = fate →
      Agrees cells id (KernelPatcher.routeFunctionInternal machine id request k)
        (routeFunctionInternal host (requestRoute cells id request source target) s) := by
  cases hrun : routeFunctionInternal host (requestRoute cells id request source target) s with
  | error panic s' =>
      refine ⟨.panics, fun machine hfate => ?_⟩
      rw [KernelPatcher.routeFunctionInternal, hfate]
      rfl
  | ok ret s' =>
      cases routeWith_way hrun with
      | tooShort hshort => cases hshort
      | bare hwrapper => cases hwrapper
      | @chain previous chained slot u hrouted hslot hjump =>
          obtain ⟨htaken, -, -⟩ := chainSlot_taken hslot
          have hmirror : Mirrors cells id (clearedIf false k) u := h.slotTaken htaken
          refine writeJump_refines hmirror hcells (hs.clear hsource htaken) hwithin.source
            (fun slot' hplan => ?_) hjump
          obtain ⟨hne, rfl⟩ := planOf_slotted hplan
          obtain ⟨-, ⟨-, hzero, -⟩ | ⟨-, -, info, hinfo, hget⟩⟩ := chainSlot_cases hslot
          · exact absurd hzero hne
          · cases hinfo
            exact hwithin.slot_inside hs hget hne
      | @wrapped slot trampoline u m hwrapper hrouted hslot hcreate hjump =>
          obtain ⟨htaken, habsolute⟩ := freshSlot_taken hslot
          obtain ⟨haside, hmade⟩ := createTrampoline_makes (hs.blank.slotTaken htaken) hcreate
          obtain ⟨hzero, rfl, rfl⟩ | ⟨hne, hjump⟩ := hjump
          · refine ⟨.noTrampoline s'.code, fun machine hfate => ?_⟩
            rw [KernelPatcher.routeFunctionInternal, hfate]
            exact ⟨rfl, h.aside hwithin htaken haside hs rfl⟩
          · obtain ⟨hzero, -⟩ | ⟨-, hcode, -⟩ := hmade
            · exact absurd hzero hne
            · have hmirror : Mirrors cells id (clearedIf true k) m :=
                h.aside hwithin htaken haside hs hcode
              refine writeJump_refines hmirror hcells (hs.clear hsource htaken) hwithin.source
                (fun slot' hplan => ?_) hjump
              obtain ⟨hne, rfl⟩ := planOf_slotted hplan
              obtain ⟨hzero, -⟩ | ⟨-, info, hinfo, hget⟩ := freshSlot_cases hslot
              · exact absurd hzero hne
              · cases hinfo
                exact hwithin.slot_inside hs hget hne

theorem ending_readBytes (address size : Nat) (text : Code) :
    Image.ending ⟨address, readBytes text (BitVec.ofNat 64 address) size⟩ = address + size := by
  rw [Image.ending, length_readBytes]

theorem shows_readBytes {address size : Nat} (text : Code) (hstart : address < 2 ^ 64)
    (hending : address + size ≤ 2 ^ 64) :
    Shows ⟨address, readBytes text (BitVec.ofNat 64 address) size⟩ text := by
  refine ⟨hstart, ?_, ?_⟩
  · rw [ending_readBytes]
    exact hending
  · rw [length_readBytes]

/-- The image around the functions and the slots. -/
def sampleImageBytes : Image :=
  ⟨0x11000, readBytes sampleStart.text (BitVec.ofNat 64 0x11000) 0x30000⟩

theorem sampleImageBytes_ending : sampleImageBytes.ending = 0x41000 :=
  ending_readBytes 0x11000 0x30000 sampleStart.text

def sampleKernel : Kernel where
  code := .noError
  images _ := sampleImageBytes
  routes := []
  orgs _ := 0
  calls := []
  log := []

/-- A place for the original of each hook, and one for a local variable. -/
def sampleCells : Option Kryptonite.Hook → Nat
  | none => 0
  | some hook => hook.ctorIdx + 1

theorem sampleCells_injective : Function.Injective sampleCells := by
  intro first second h
  cases first with
  | none =>
      cases second with
      | none => rfl
      | some hook => cases h
  | some hook =>
      cases second with
      | none => cases h
      | some other => cases hook <;> cases other <;> first | rfl | cases h

theorem sampleKernel_mirrors : Mirrors sampleCells 0 sampleKernel sampleStart :=
  ⟨rfl, fun _ => rfl, shows_readBytes sampleStart.text (by decide) (by decide)⟩

theorem sample_within : Within sampleHost 0 sampleImageBytes 0x20000 sampleStart := by
  have hstart : sampleImageBytes.address = 0x11000 := rfl
  refine ⟨?_, fun address hregion => ?_, fun address hlow hhigh hregion => ?_⟩
  · rw [sampleImageBytes_ending]
    decide
  · rw [sampleImageBytes_ending, hstart]
    rcases sample_region hregion with ⟨hnone, -⟩ | ⟨-, hrange⟩
    · cases hnone
    · omega
  · rcases sample_region hregion with ⟨-, hrange⟩ | ⟨hsome, -⟩
    · omega
    · cases hsome

/-- A request of Kryptonite's. -/
def sampleRequest : RouteRequest :=
  ⟨"__ZN13ATIController8TestVRAME13PCI_REG_INDEXb", .amdSupportTestVRAM, some .amdSupportTestVRAM⟩

theorem route_refines_sample :
    ∃ fate, ∀ machine : Machine, machine.fate 0 sampleRequest = fate →
      Agrees sampleCells 0
        (KernelPatcher.routeFunctionInternal machine 0 sampleRequest sampleKernel)
        (routeFunctionInternal sampleHost
          (requestRoute sampleCells 0 sampleRequest 0x20000 0xFFFFFF0000000000) sampleStart) :=
  route_refines sample_orderly (.inl rfl) sampleCells_injective sampleKernel_mirrors sample_within

-- memory for the jump of the trampoline but not for that of the function: the
-- original is stored, the function is not redirected
example :
    let host := { sampleHost with allocates := fun n => n < 4 }
    let after := endState (routeFunctionInternal host
      (requestRoute sampleCells 0 sampleRequest 0x20000 0xFFFFFF0000000000) sampleStart)
    after.code = .memoryIssue ∧ after.orgs (sampleCells sampleRequest.org) = 0x10000 ∧
      after.text 0x20000 = 0x90 := by
  decide +kernel

end Refinement

end Routing

end Kryptonite
