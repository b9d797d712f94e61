/-
The memory that redirections take: trampolines in the temporary memory, slots of
the `MachInfo`.  Whatever a redirection takes is not free any more, and apart
from its function it writes to memory that was free.
-/
import Kryptonite.RouteSteps
import Mathlib.Data.Set.Basic

namespace Kryptonite

namespace Routing

open X86 KernelPatcher Script

variable {host : Host} {functions : Set Address} {start s s' m u : Patcher}
variable {route : Route} {slot address : Address}

section Memory

/-- How many bytes are left for slots. -/
def slotSpace (s : Patcher) (info : Nat) : Nat :=
  (s.addressSlots info).2.toNat - (s.addressSlots info).1.toNat

/-- The memory that later redirections may take: the rest of the temporary
memory, and the slots of each `MachInfo`. -/
def Region (host : Host) (s : Patcher) : Option Nat → Address → Prop
  | none, address => inside (freeMemory host s)
      (tempExecutableMemorySize - s.tempExecutableMemoryOff) address = true
  | some info, address => inside (s.addressSlots info).1 (slotSpace s info) address = true

def Free (host : Host) (s : Patcher) (address : Address) : Prop :=
  ∃ region, Region host s region address

/-- Free memory is blank and apart from the functions, and its parts are apart
from each other.  The slots are near enough to the functions. -/
structure Orderly (host : Host) (functions : Set Address) (s : Patcher) : Prop where
  blank : Blank host s
  windows : ∀ f ∈ functions, ∀ address, inside f longJump address = true → ¬ Free host s address
  regions : ∀ region region' address, Region host s region address →
    Region host s region' address → region = region'
  ends : ∀ info, (s.addressSlots info).1.toNat ≤ (s.addressSlots info).2.toNat ∧
    (s.addressSlots info).2.toNat + 8 < 2 ^ 64
  near : ∀ f ∈ functions, ∀ info address, Region host s (some info) address →
    Plan.Near (f + 6) address

/-- Memory is taken from the beginning of a region and never given back. -/
def Shrinks (host : Host) (s s' : Patcher) : Prop :=
  ∀ region address, Region host s' region address → Region host s region address

theorem Shrinks.free (h : Shrinks host s s') (hfree : Free host s' address) :
    Free host s address := by
  obtain ⟨region, hregion⟩ := hfree
  exact ⟨region, h region address hregion⟩

theorem Shrinks.trans {t : Patcher} (h : Shrinks host s t) (h' : Shrinks host t s') :
    Shrinks host s s' :=
  fun region address hregion => h region address (h' region address hregion)

/-- Free temporary memory by its offset. -/
theorem region_offset {k : Nat} (hoff : s.tempExecutableMemoryOff ≤ k)
    (hk : k < tempExecutableMemorySize) :
    Region host s none (host.tempExecutableMemory + BitVec.ofNat 64 k) := by
  have hmemory : tempExecutableMemorySize = 4096 := rfl
  have hat : host.tempExecutableMemory + BitVec.ofNat 64 k = freeMemory host s +
      BitVec.ofNat 64 (k - s.tempExecutableMemoryOff) := by
    rw [freeMemory, add_ofNat_add, Nat.add_sub_cancel' hoff]
  rw [Region, hat]
  exact inside_offset (by omega) (by omega)

/-- The room for a slot is what the comparison of the source says. -/
theorem Orderly.slot_fits {info : Nat} (h : Orderly host functions s)
    (hfits : (s.addressSlots info).1 + 8 ≤ (s.addressSlots info).2) : 8 ≤ slotSpace s info := by
  obtain ⟨hle, hend⟩ := h.ends info
  rw [BitVec.le_def, BitVec.toNat_add] at hfits
  have height : (8 : Address).toNat = 8 := rfl
  rw [height, Nat.mod_eq_of_lt (by omega)] at hfits
  rw [slotSpace]
  omega

theorem slotSpace_lt (s : Patcher) (info : Nat) : slotSpace s info < 2 ^ 64 := by
  have hlt := (s.addressSlots info).2.isLt
  rw [slotSpace]
  omega

/-- What is left after a slot is taken. -/
theorem region_takeSlot {info : Nat} (h : Orderly host functions s)
    (hfits : (s.addressSlots info).1 + 8 ≤ (s.addressSlots info).2) :
    Region host (takeSlot s info) (some info) address ↔
      inside ((s.addressSlots info).1 + BitVec.ofNat 64 8) (slotSpace s info - 8) address =
        true := by
  obtain ⟨hle, hend⟩ := h.ends info
  have hspace := h.slot_fits hfits
  have hslots : (takeSlot s info).addressSlots info =
      ((s.addressSlots info).1 + BitVec.ofNat 64 8, (s.addressSlots info).2) := if_pos rfl
  have hleft : slotSpace (takeSlot s info) info = slotSpace s info - 8 := by
    rw [slotSpace] at hspace
    rw [slotSpace, hslots, slotSpace]
    simp only [BitVec.toNat_add, BitVec.toNat_ofNat]
    omega
  rw [Region, hslots, hleft]

theorem region_takeSlot_other {info : Nat} {region : Option Nat} (h : region ≠ some info) :
    Region host (takeSlot s info) region address ↔ Region host s region address := by
  cases region with
  | none => exact Iff.rfl
  | some other =>
      have hne : other ≠ info := fun heq => h (congrArg some heq)
      have hslots : (takeSlot s info).addressSlots other = s.addressSlots other := if_neg hne
      rw [Region, Region, slotSpace, slotSpace, hslots]

/-- A slot is taken out of the free memory. -/
theorem SlotTaken.shrinks (h : Orderly host functions s) (htaken : SlotTaken s slot u) :
    Shrinks host s u := by
  intro region address hregion
  cases htaken with
  | nothing => exact hregion
  | front info hne hfits =>
      by_cases hinfo : region = some info
      · subst hinfo
        have hspace := h.slot_fits hfits
        rw [region_takeSlot h hfits] at hregion
        have hlt := slotSpace_lt s info
        exact inside_part (by omega) (by omega) hregion
      · exact (region_takeSlot_other hinfo).mp hregion

/-- The slot was free, and is not any more. -/
theorem SlotTaken.taken (h : Orderly host functions s) (htaken : SlotTaken s slot u)
    (hne : slot ≠ 0) (hin : inside slot 8 address = true) :
    (∃ info, Region host s (some info) address) ∧ ¬ Free host u address := by
  cases htaken with
  | nothing => exact absurd rfl hne
  | front info hslot hfits =>
      have hspace := h.slot_fits hfits
      have hlt := slotSpace_lt s info
      have hregion : Region host s (some info) address := inside_mono hspace hin
      refine ⟨⟨info, hregion⟩, ?_⟩
      rintro ⟨region, hleft⟩
      by_cases hinfo : region = some info
      · subst hinfo
        rw [region_takeSlot h hfits, apart_next (by omega) (by omega) address hin] at hleft
        cases hleft
      · exact hinfo (h.regions _ _ _ ((region_takeSlot_other hinfo).mp hleft) hregion)

/-- The slots of the functions are where a jump finds them. -/
theorem SlotTaken.orderly (h : Orderly host functions s) (htaken : SlotTaken s slot u) :
    Orderly host functions u := by
  have hshrinks := htaken.shrinks h
  refine ⟨h.blank.slotTaken htaken, fun f hf address hin hfree => ?_,
    fun region region' address hr hr' => ?_, fun info => ?_, fun f hf info address hr => ?_⟩
  · exact h.windows f hf address hin (hshrinks.free hfree)
  · exact h.regions _ _ _ (hshrinks _ _ hr) (hshrinks _ _ hr')
  · cases htaken with
    | nothing => exact h.ends info
    | front taken hne hfits =>
        by_cases hinfo : info = taken
        · subst hinfo
          obtain ⟨hle, hend⟩ := h.ends info
          have hspace := h.slot_fits hfits
          have hslots : (takeSlot s info).addressSlots info =
              ((s.addressSlots info).1 + 8, (s.addressSlots info).2) := if_pos rfl
          rw [slotSpace] at hspace
          rw [hslots]
          simp only [BitVec.toNat_add, show (8 : Address).toNat = 8 from rfl]
          omega
        · have hslots : (takeSlot s taken).addressSlots info = s.addressSlots info := if_neg hinfo
          rw [hslots]
          exact h.ends info
  · exact h.near f hf info address (hshrinks _ _ hr)

/-- The temporary memory that is left. -/
theorem Aside.region (h : Aside host s m) (hregion : Region host m none address) :
    m.tempExecutableMemoryOff < tempExecutableMemorySize ∧
      inside (freeMemory host s +
        BitVec.ofNat 64 (m.tempExecutableMemoryOff - s.tempExecutableMemoryOff))
        (tempExecutableMemorySize - m.tempExecutableMemoryOff) address = true := by
  have hoff := h.off
  have hstart : freeMemory host m = freeMemory host s +
      BitVec.ofNat 64 (m.tempExecutableMemoryOff - s.tempExecutableMemoryOff) := by
    rw [freeMemory, freeMemory, add_ofNat_add, Nat.add_sub_cancel' hoff]
  rw [Region, hstart] at hregion
  refine ⟨?_, hregion⟩
  rw [inside_iff] at hregion
  omega

theorem Aside.shrinks (h : Aside host s m) : Shrinks host s m := by
  intro region address hregion
  cases region with
  | none =>
      obtain ⟨hlt, hin⟩ := h.region hregion
      have hoff := h.off
      have hmemory : tempExecutableMemorySize = 4096 := rfl
      exact inside_part (by omega) (by omega) hin
  | some info =>
      rw [Region, slotSpace, h.addressSlots] at hregion
      exact hregion

/-- What was written to is not free any more. -/
theorem Aside.taken (h : Aside host s m) (hs : Orderly host functions s)
    (hin : inside (freeMemory host s)
      (m.tempExecutableMemoryOff - s.tempExecutableMemoryOff) address = true)
    (hfits : m.tempExecutableMemoryOff < tempExecutableMemorySize) : ¬ Free host m address := by
  have hmemory : tempExecutableMemorySize = 4096 := rfl
  have hoff := h.off
  rintro ⟨region, hleft⟩
  have hregion : Region host s none address := inside_mono (by omega) hin
  have hnone : region = none := hs.regions _ _ _ (h.shrinks _ _ hleft) hregion
  subst hnone
  obtain ⟨-, hrest⟩ := h.region hleft
  rw [apart_next (by omega) (by omega) address hin] at hrest
  cases hrest

/-- Only free temporary memory was written to. -/
theorem Aside.text_eq (h : Aside host s m) (hregion : ¬ Region host s none address) :
    m.text address = s.text address := by
  by_cases hsame : m.text = s.text
  · rw [hsame]
  · have hfits := h.written hsame
    have hoff := h.off
    apply h.text
    rw [← Bool.not_eq_true]
    exact fun hin => hregion (inside_mono (by omega) hin)

theorem Aside.orderly (h : Aside host s m) (hs : Orderly host functions s) :
    Orderly host functions m := by
  have hmemory : tempExecutableMemorySize = 4096 := rfl
  refine ⟨fun k hoff hk => ?_, fun f hf address hin hfree => ?_,
    fun region region' address hr hr' => ?_, fun info => ?_, fun f hf info address hr => ?_⟩
  · have hle := h.off
    rw [h.text]
    · exact hs.blank k (by omega) hk
    · have hat : host.tempExecutableMemory + BitVec.ofNat 64 k = freeMemory host s +
          BitVec.ofNat 64 (k - s.tempExecutableMemoryOff) := by
        rw [freeMemory, add_ofNat_add, Nat.add_sub_cancel' (by omega)]
      rw [hat, inside_add (by omega)]
      exact decide_eq_false (by omega)
  · exact hs.windows f hf address hin (h.shrinks.free hfree)
  · exact hs.regions _ _ _ (h.shrinks _ _ hr) (h.shrinks _ _ hr')
  · rw [h.addressSlots]
    exact hs.ends info
  · exact hs.near f hf info address (h.shrinks _ _ hr)

end Memory

section Jumping

variable {f target org : Address} {absolute : Bool} {cell : Option Nat} {books : Books}

theorem planOf_slotted {slot' : Address} (h : planOf slot absolute = .slotted slot') :
    slot ≠ 0 ∧ slot' = slot := by
  rw [planOf] at h
  split at h
  next hne => exact ⟨hne, by cases h; rfl⟩
  next => split at h <;> cases h

theorem Orderly.window (h : Orderly host functions s) (hf : f ∈ functions)
    (hfree : Free host s address) : inside f longJump address = false := by
  rw [← Bool.not_eq_true]
  exact fun hin => h.windows f hf address hin hfree

theorem SlotTaken.free (h : Orderly host functions s) (htaken : SlotTaken s slot u)
    (hne : slot ≠ 0) (hin : inside slot 8 address = true) : Free host s address := by
  obtain ⟨⟨info, hregion⟩, -⟩ := htaken.taken h hne hin
  exact ⟨some info, hregion⟩

theorem Orderly.clear (h : Orderly host functions s) (hf : f ∈ functions)
    (htaken : SlotTaken s slot u) : (planOf slot absolute).Clear f := by
  intro slot' hplan address hin
  obtain ⟨hne, rfl⟩ := planOf_slotted hplan
  have hout := h.window hf (htaken.free h hne hin)
  rw [← Bool.not_eq_true] at hout ⊢
  exact fun hin => hout (inside_mono (by simp [longJump]) hin)

theorem Orderly.fits (h : Orderly host functions s) (hf : f ∈ functions)
    (htaken : SlotTaken s slot u) (hfar : tooFar f target = true → absolute = true) :
    (planOf slot absolute).Fits f target := by
  by_cases hslot : slot = 0
  · subst hslot
    exact Plan.unslotted_fits hfar
  · have hplan : planOf slot absolute = .slotted slot := if_pos hslot
    have hself : inside slot 8 slot = true := inside_iff.mpr (by simp)
    obtain ⟨⟨info, hregion⟩, -⟩ := htaken.taken h hslot hself
    rw [hplan]
    refine ⟨h.near f hf info slot hregion, fun heq => ?_⟩
    have hsix : inside f longJump (f + BitVec.ofNat 64 6) = true :=
      inside_offset (by simp [longJump]) (by simp [longJump])
    exact h.windows f hf _ hsix (heq ▸ ⟨some info, hregion⟩)

/-- The jump `plan` from `f` to `target` stands, and its slot is nobody else's. -/
structure Hook (host : Host) (functions : Set Address) (s : Patcher) (f target : Address)
    (plan : Plan) : Prop where
  fits : plan.Fits f target
  stands : plan.Stands s.text f target
  owned : ∀ slot, plan = .slotted slot → ∀ address, inside slot 8 address = true →
    ¬ Free host s address ∧ ∀ g ∈ functions, inside g longJump address = false

section Prepared

variable (hs : Orderly host functions s) (hf : f ∈ functions) (htaken : SlotTaken s slot u)
  (haside : Aside host u m)

include hs htaken haside

/-- Up to the jump only free memory changes. -/
theorem prepared_text (hfree : ¬ Free host s address) : m.text address = s.text address := by
  rw [haside.text_eq fun h => hfree ((htaken.shrinks hs).free ⟨none, h⟩), htaken.text]

/-- What is still free has not been written to. -/
theorem prepared_fresh (hfree : Free host m address) : m.text address = s.text address := by
  rw [← htaken.text]
  by_cases hsame : m.text = u.text
  · rw [hsame]
  · apply haside.text
    rw [← Bool.not_eq_true]
    exact fun hin => haside.taken (htaken.orderly hs) hin (haside.written hsame) hfree

theorem prepared_taken (hne : slot ≠ 0) (hin : inside slot 8 address = true) :
    ¬ Free host m address :=
  fun h => (htaken.taken hs hne hin).2 (haside.shrinks.free h)

include hf

/-- The jump changes the beginning of the function and no other memory in use. -/
theorem jumped_text (hfree : ¬ Free host s address)
    (hout : inside f (planOf slot absolute).size address = false) :
    (jumped (withOrg m cell org) f target (planOf slot absolute) books).text address =
      s.text address := by
  rw [← prepared_text hs htaken haside hfree]
  refine Plan.commit_outside (hs.clear hf htaken) hout fun slot' hplan => ?_
  obtain ⟨hne, rfl⟩ := planOf_slotted hplan
  rw [← Bool.not_eq_true]
  exact fun hin => hfree (htaken.free hs hne hin)

/-- The jump and its slot are not free memory. -/
theorem jumped_free (hfree : Free host m address) :
    (jumped (withOrg m cell org) f target (planOf slot absolute) books).text address =
      m.text address := by
  have hm := haside.orderly (htaken.orderly hs)
  refine Plan.commit_outside (hs.clear hf htaken) ?_ fun slot' hplan => ?_
  · have hout := hm.window hf hfree
    rw [← Bool.not_eq_true] at hout ⊢
    exact fun hin => hout (inside_mono Plan.size_le hin)
  · obtain ⟨hne, rfl⟩ := planOf_slotted hplan
    rw [← Bool.not_eq_true]
    exact fun hin => prepared_taken hs htaken haside hne hin hfree

theorem jumped_fresh (hfree : Free host m address) :
    (jumped (withOrg m cell org) f target (planOf slot absolute) books).text address =
      s.text address :=
  (jumped_free hs hf htaken haside hfree).trans (prepared_fresh hs htaken haside hfree)

theorem jumped_orderly :
    Orderly host functions
      (jumped (withOrg m cell org) f target (planOf slot absolute) books) := by
  have hm := haside.orderly (htaken.orderly hs)
  refine ⟨fun k hoff hk => ?_, hm.windows, hm.regions, hm.ends, hm.near⟩
  have hfree : Free host m (host.tempExecutableMemory + BitVec.ofNat 64 k) :=
    ⟨none, region_offset hoff hk⟩
  exact (jumped_free hs hf htaken haside hfree).trans (hm.blank k hoff hk)

theorem jumped_hook (hfar : tooFar f target = true → absolute = true) :
    Hook host functions (jumped (withOrg m cell org) f target (planOf slot absolute) books) f target
      (planOf slot absolute) := by
  refine ⟨hs.fits hf htaken hfar, Plan.stands_commit (hs.clear hf htaken), ?_⟩
  intro slot' hplan address hin
  obtain ⟨hne, rfl⟩ := planOf_slotted hplan
  have htaken' := prepared_taken hs htaken haside hne hin
  exact ⟨htaken', fun g hg => hs.window hg (htaken.free hs hne hin)⟩

end Prepared

/-- A redirection takes free memory and changes the beginning of its function. -/
structure Advances (host : Host) (functions : Set Address) (source : Address)
    (s s' : Patcher) : Prop where
  orderly : Orderly host functions s'
  shrinks : Shrinks host s s'
  text : ∀ address, ¬ Free host s address → inside source longJump address = false →
    s'.text address = s.text address
  fresh : ∀ address, Free host s' address → s'.text address = s.text address

theorem Outcome.advances (hs : Orderly host functions s) (hf : route.source ∈ functions)
    (h : Outcome host route s s') : Advances host functions route.source s s' := by
  have hwide : ∀ {plan : Plan} {address : Address}, inside route.source longJump address = false →
      inside route.source plan.size address = false := by
    intro plan address hout
    rw [← Bool.not_eq_true] at hout ⊢
    exact fun hin => hout (inside_mono Plan.size_le hin)
  cases h with
  | refused hslot haside horgs hcode hbooks =>
      have hm := haside.orderly (hslot.orderly hs)
      have hshrinks := (hslot.shrinks hs).trans haside.shrinks
      refine ⟨⟨hm.blank, hm.windows, hm.regions, hm.ends, hm.near⟩, hshrinks, ?_, ?_⟩
      · intro address hfree _
        have htext := prepared_text hs hslot haside hfree
        exact htext
      · intro address hfree
        have hfresh := prepared_fresh hs hslot haside hfree
        exact hfresh
  | chain hrouted hslot hlong hmedium hbooks =>
      have hshrinks := hslot.shrinks hs
      exact ⟨jumped_orderly hs hf hslot .refl, hshrinks,
        fun address hfree hout => jumped_text hs hf hslot .refl hfree (hwide hout),
        fun address hfree => jumped_fresh hs hf hslot .refl hfree⟩
  | first hrouted hslot habsolute haside hwrapper hbooks =>
      exact ⟨jumped_orderly hs hf hslot haside, (hslot.shrinks hs).trans haside.shrinks,
        fun address hfree hout => jumped_text hs hf hslot haside hfree (hwide hout),
        fun address hfree => jumped_fresh hs hf hslot haside hfree⟩

end Jumping

end Routing

end Kryptonite
