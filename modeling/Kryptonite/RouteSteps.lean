/-
What a redirection does to the patcher: which bytes of the text it changes, what
it saves for the removal of the patches, and what the original is left with.
-/
import Kryptonite.Routing

namespace Kryptonite

namespace Routing

open X86 KernelPatcher Script

variable {host : Host} {s s' m : Patcher} {ret slot : Address}

section Slots

/-- The state after a slot of a `MachInfo` is taken. -/
def takeSlot (s : Patcher) (info : Nat) : Patcher :=
  { s with
    addressSlots := fun other => if other = info then
        ((s.addressSlots info).1 + 8, (s.addressSlots info).2)
      else s.addressSlots other }

/-- A slot, if there is one, is taken from the beginning of what is left. -/
inductive SlotTaken (s : Patcher) : Address → Patcher → Prop where
  | nothing : SlotTaken s 0 s
  | front (info : Nat) (hne : (s.addressSlots info).1 ≠ 0)
      (hfits : (s.addressSlots info).1 + 8 ≤ (s.addressSlots info).2) :
      SlotTaken s (s.addressSlots info).1 (takeSlot s info)

theorem getAddressSlot_taken {info : Nat} (h : getAddressSlot info s = .ok ret s') :
    SlotTaken s ret s' ∧ (ret ≠ 0 → ret = (s.addressSlots info).1 ∧
      (s.addressSlots info).1 + 8 ≤ (s.addressSlots info).2) := by
  by_cases hfree : (s.addressSlots info).1 ≠ 0 ∧
      (s.addressSlots info).1 + 8 ≤ (s.addressSlots info).2
  · have hrun : getAddressSlot info s = .ok (s.addressSlots info).1 (takeSlot s info) := by
      rw [getAddressSlot]
      refine (bind_of_ok rfl).trans ?_
      rw [if_pos hfree]
      rfl
    rw [hrun] at h
    cases h
    exact ⟨.front info hfree.1 hfree.2, fun _ => ⟨rfl, hfree.2⟩⟩
  · have hrun : getAddressSlot info s = .ok 0 s := by
      rw [getAddressSlot]
      refine (bind_of_ok rfl).trans ?_
      rw [if_neg hfree]
      rfl
    rw [hrun] at h
    cases h
    exact ⟨.nothing, fun hne => absurd rfl hne⟩

/-- A first jump has a slot of its own `MachInfo`, or none. -/
theorem freshSlot_cases {route : Route} {absolute : Bool}
    (h : freshSlot route absolute s = .ok slot m) :
    (slot = 0 ∧ m = s) ∨ (absolute = true ∧ ∃ info, route.info = some info ∧
      getAddressSlot info s = .ok slot m) := by
  cases hinfo : route.info with
  | none =>
      rw [freshSlot, hinfo] at h
      cases h
      exact .inl ⟨rfl, rfl⟩
  | some info =>
      rw [freshSlot, hinfo] at h
      simp only at h
      split at h
      next habsolute => exact .inr ⟨habsolute.1, info, rfl, h⟩
      next =>
        cases h
        exact .inl ⟨rfl, rfl⟩

/-- A jump over a slotted one has a slot of its own, a jump over a long one has
none, and there is no jump over a short one. -/
theorem chainSlot_cases {route : Route} {previous : JumpType}
    (h : chainSlot route previous s = .ok slot m) :
    previous ≠ .short ∧ ((previous ≠ .medium ∧ slot = 0 ∧ m = s) ∨
      (previous = .medium ∧ slot ≠ 0 ∧ ∃ info, route.info = some info ∧
        getAddressSlot info s = .ok slot m)) := by
  rw [chainSlot] at h
  split at h
  · cases h
  next hshort =>
    split at h
    · cases h
    · split at h
      next hmedium =>
        cases hinfo : route.info with
        | none =>
            rw [hinfo] at h
            cases h
        | some info =>
            rw [hinfo] at h
            obtain ⟨taken, u, hget, hrest⟩ := bind_eq_ok h
            split at hrest
            · cases hrest
            next hne =>
              cases hrest
              exact ⟨hshort, .inr ⟨hmedium, hne, info, rfl, hget⟩⟩
      next hmedium =>
        cases h
        exact ⟨hshort, .inl ⟨hmedium, rfl, rfl⟩⟩

theorem freshSlot_taken {route : Route} {absolute : Bool}
    (h : freshSlot route absolute s = .ok slot m) :
    SlotTaken s slot m ∧ (slot ≠ 0 → absolute = true) := by
  obtain ⟨rfl, rfl⟩ | ⟨habsolute, info, -, hget⟩ := freshSlot_cases h
  · exact ⟨.nothing, fun hne => absurd rfl hne⟩
  · exact ⟨(getAddressSlot_taken hget).1, fun _ => habsolute⟩

theorem chainSlot_taken {route : Route} {previous : JumpType}
    (h : chainSlot route previous s = .ok slot m) :
    SlotTaken s slot m ∧ previous ≠ .short ∧ (previous = .medium ↔ slot ≠ 0) := by
  obtain ⟨hshort, ⟨hmedium, rfl, rfl⟩ | ⟨hmedium, hne, info, -, hget⟩⟩ := chainSlot_cases h
  · exact ⟨.nothing, hshort, iff_of_false hmedium fun hne => hne rfl⟩
  · exact ⟨(getAddressSlot_taken hget).1, hshort, iff_of_true hmedium hne⟩

end Slots

section Jump

variable {route : Route} {plan : Plan} {org : Address}

/-- The store to `*org`. -/
def withOrg (s : Patcher) (cell : Option Nat) (value : Address) : Patcher :=
  { s with orgs := fun other => if some other = cell then value else s.orgs other }

/-- The jump is in place. -/
def jumped (s : Patcher) (source target : Address) (plan : Plan) (books : Books) : Patcher :=
  { s with text := plan.commit source target s.text, books := books }

theorem ne_noError {code : Error} (h : code = .memoryIssue ∨ code = .memoryProtection) :
    code ≠ .noError := by
  rcases h with rfl | rfl <;> exact nofun

theorem onBooks_cases {α : Type} {step : BooksM α} {value : α}
    (h : onBooks step s = .ok value s') :
    ∃ books, step s.books = .ok value books ∧ s' = { s with books := books } := by
  rw [onBooks] at h
  cases hstep : step s.books with
  | ok result books =>
      rw [hstep] at h
      cases h
      exact ⟨books, rfl, rfl⟩
  | error panic books =>
      rw [hstep] at h
      cases h

variable {b b' : Books} {objects : Objects} {source target : Address} {text : Code}

theorem createDisp_cases {place : Option Address} {made : Option PatchObject}
    (h : createDisp host text target place b = .ok made b') :
    Asks b b' ∧ ∀ object, made = some object → b.asked ≤ object.number ∧
      object.number < b'.asked ∧
        place.map (fun address => SavedPatch.create text address (wordBytes 8 target)) =
          some object.patch := by
  cases place with
  | none =>
      cases h
      exact ⟨.refl, nofun⟩
  | some address =>
      obtain ⟨hasks, hmade⟩ := create_cases h
      refine ⟨hasks, fun object hobject => ?_⟩
      obtain ⟨hlow, hhigh, hpatch⟩ := hmade object hobject
      exact ⟨hlow, hhigh, congrArg some hpatch.symm⟩

/-- The objects are new, and where none of them is null they hold the patches. -/
theorem createObjects_cases (h : createObjects host text source target plan b = .ok objects b') :
    Made b objects.toList b' ∧ (objects.opcode ≠ none → objects.argument ≠ none →
      (plan.disp source ≠ none → objects.disp ≠ none) →
        objects.toList.map (·.patch) = plan.patches source target text) := by
  rw [createObjects] at h
  obtain ⟨opcode, c, hopcode, hrest⟩ := bind_eq_ok h
  obtain ⟨argument, d, hargument, hrest⟩ := bind_eq_ok hrest
  obtain ⟨disp, e, hdisp, hrest⟩ := bind_eq_ok hrest
  cases hrest
  obtain ⟨hc, hopcode⟩ := create_cases hopcode
  obtain ⟨hd, hargument⟩ := create_cases hargument
  obtain ⟨he, hdisp⟩ := createDisp_cases hdisp
  have hfirst := hc.asked
  have hsecond := hd.asked
  have hthird := he.asked
  refine ⟨⟨(hc.trans hd).trans he, fun object hmem => ?_⟩, fun hne hne' hdispne => ?_⟩
  · simp only [Objects.toList, List.mem_append, Option.mem_toList] at hmem
    rcases hmem with (hmem | hmem) | hmem
    · have hnumber := hopcode object hmem
      omega
    · have hnumber := hargument object hmem
      omega
    · have hnumber := hdisp object hmem
      omega
  · obtain ⟨first, rfl⟩ := Option.ne_none_iff_exists'.mp hne
    obtain ⟨second, rfl⟩ := Option.ne_none_iff_exists'.mp hne'
    obtain ⟨-, -, hfirst⟩ := hopcode first rfl
    obtain ⟨-, -, hsecond⟩ := hargument second rfl
    cases hplace : plan.disp source with
    | none =>
        cases disp with
        | none => simp [Objects.toList, Plan.patches, hplace, hfirst, hsecond]
        | some third =>
            have hthird := (hdisp third rfl).2.2
            rw [hplace] at hthird
            cases hthird
    | some address =>
        obtain ⟨third, rfl⟩ := Option.ne_none_iff_exists'.mp (hdispne (by simp [hplace]))
        have hthird := (hdisp third rfl).2.2
        rw [hplace] at hthird
        have hthird : SavedPatch.create text address (wordBytes 8 target) = third.patch :=
          Option.some.inj hthird
        simp [Objects.toList, Plan.patches, hplace, hfirst, hsecond, hthird]

theorem refuse_cases {code : Error} (h : refuse objects code s = .ok ret s') :
    ret = einval ∧ ∃ books, objects.toList.forM deleter s.books = .ok ⟨⟩ books ∧
      s' = { s with code := code, books := books } := by
  have hset : setCode code s = .ok ⟨⟩ { s with code := code } := rfl
  rw [refuse, bind_of_ok hset] at h
  obtain ⟨_, u, hstep, hrest⟩ := bind_eq_ok h
  obtain ⟨books, hdelete, rfl⟩ := onBooks_cases hstep
  cases hrest
  exact ⟨rfl, books, hdelete, rfl⟩

/-- What a written jump leaves in the books: its patches if they are to be kept
and there is memory for that, and nothing if they are not. -/
structure Settled (host : Host) (saves : Bool) (patches : List SavedPatch) (b b' : Books) :
    Prop where
  dropped : saves = false → Booked b [] b'
  kept : saves = true → (∀ n, host.reallocates n = true) → Booked b patches b'

theorem commitJump_cases {kernelRoute revertible : Bool} {patches : List SavedPatch}
    (h : commitJump host source target plan kernelRoute revertible objects s = .ok ⟨⟩ s')
    (hmade : Made b objects.toList s.books) (hpatches : objects.toList.map (·.patch) = patches) :
    ∃ books, Settled host (kernelRoute && revertible) patches b books ∧
      s' = jumped s source target plan books := by
  rw [commitJump] at h
  obtain ⟨_, u, hstore, hrest⟩ := bind_eq_ok h
  cases hstore
  obtain ⟨books, hbooks, rfl⟩ := onBooks_cases hrest
  refine ⟨books, ⟨fun hsaves => ?_, fun hsaves hmemory => ?_⟩, rfl⟩
  · rw [if_neg (by simpa using hsaves)] at hbooks
    exact hmade.booked_delete hbooks
  · rw [if_pos (by simpa using hsaves)] at hbooks
    exact hpatches ▸ hmade.booked_store hmemory hbooks

theorem unlock_asks {kernelRoute granted : Bool}
    (h : unlock host kernelRoute b = .ok granted b') : Asks b b' := by
  rw [unlock] at h
  split at h
  · exact (ask_cases h).2
  · cases h
    exact .refl

theorem planOf_disp {absolute : Bool} (hslot : slot = 0) (h : absolute = false) :
    (planOf slot absolute).disp source = none := by
  rw [planOf, if_neg (by simpa using hslot), if_neg (by simp [h])]
  rfl

/-- `writeJump` either reports an error and writes nothing to the text, or
writes the jump. -/
theorem writeJump_cases {absolute kernelRoute revertible : Bool} {cell : Option Nat}
    (h : writeJump host source target slot absolute kernelRoute revertible org cell s =
      .ok ret s') :
    (ret = einval ∧ ∃ code books, (code = .memoryIssue ∨ code = .memoryProtection) ∧
        Booked s.books [] books ∧ s' = { withOrg s cell org with code := code, books := books }) ∨
      (ret = org ∧ ∃ books, Settled host (kernelRoute && revertible)
          ((planOf slot absolute).patches source target s.text) s.books books ∧
        s' = jumped (withOrg s cell org) source target (planOf slot absolute) books) := by
  have hset : setOrg cell org s = .ok ⟨⟩ (withOrg s cell org) := rfl
  rw [writeJump, bind_of_ok hset] at h
  obtain ⟨_, u, hget, hrest⟩ := bind_eq_ok h
  cases hget
  obtain ⟨objects, u, hstep, hrest⟩ := bind_eq_ok hrest
  obtain ⟨books, hcreate, rfl⟩ := onBooks_cases hstep
  obtain ⟨hmade, hpatches⟩ := createObjects_cases hcreate
  split at hrest
  · obtain ⟨rfl, freed, hdelete, rfl⟩ := refuse_cases hrest
    exact .inl ⟨rfl, _, freed, .inl rfl, hmade.booked_delete hdelete, rfl⟩
  next hnull =>
    obtain ⟨granted, u, hstep, hrest⟩ := bind_eq_ok hrest
    obtain ⟨unlocked, hunlock, rfl⟩ := onBooks_cases hstep
    have hheld := hmade.then (unlock_asks hunlock)
    split at hrest
    · split at hrest
      · cases hrest
      next hslot =>
        obtain ⟨_, u, hcommit, hrest⟩ := bind_eq_ok hrest
        cases hrest
        push Not at hnull hslot
        have hdisp : (planOf slot absolute).disp source ≠ none → objects.disp ≠ none := by
          intro hplace
          by_cases hzero : slot = 0
          · refine hnull.2.2 ?_
            by_contra habsolute
            exact hplace (planOf_disp hzero (by simpa using habsolute))
          · exact hslot hzero
        obtain ⟨settled, hsettled, rfl⟩ :=
          commitJump_cases hcommit hheld (hpatches hnull.1 hnull.2.1 hdisp)
        exact .inr ⟨rfl, settled, hsettled, rfl⟩
    · obtain ⟨rfl, freed, hdelete, rfl⟩ := refuse_cases hrest
      exact .inl ⟨rfl, _, freed, .inr rfl, hheld.booked_delete hdelete, rfl⟩

/-- The jump has to be an absolute one. -/
def Route.absolute (route : Route) : Bool :=
  route.jumpType = .long ∨ tooFar route.source route.target

/-- The bytes that the jump needs at the beginning of the function. -/
def Route.need (route : Route) (slot : Address) : Nat :=
  if route.absolute then if slot ≠ 0 then mediumJump else longJump else smallJump

/-- The four ways through `routeFunctionInternal`. -/
inductive Way (host : Host) (create : Address → Nat → RouteM Address) (route : Route)
    (s : Patcher) (ret : Address) (s' : Patcher) : Prop where
  | tooShort (hshort : route.jumpType = .short) (hret : ret = einval)
      (hstate : s' = { s with code := .memoryIssue })
  | chain {previous : JumpType} {chained slot : Address} {m : Patcher}
      (hrouted : routed s.text route.source = some (previous, chained))
      (hslot : chainSlot route previous s = .ok slot m)
      (hjump : writeJump host route.source route.target slot route.absolute
        route.kernelRoute false (if route.buildWrapper then chained else 0) route.org m =
          .ok ret s')
  | wrapped {slot trampoline : Address} {u m : Patcher} (hwrapper : route.buildWrapper = true)
      (hrouted : routed s.text route.source = none)
      (hslot : freshSlot route route.absolute s = .ok slot u)
      (hcreate : create route.source (route.need slot) u = .ok trampoline m)
      (hjump : (trampoline = 0 ∧ ret = einval ∧ s' = m) ∨
        (trampoline ≠ 0 ∧ writeJump host route.source route.target slot route.absolute
          route.kernelRoute route.revertible trampoline route.org m = .ok ret s'))
  | bare (hwrapper : route.buildWrapper = false) (hrouted : routed s.text route.source = none)
      (hjump : writeJump host route.source route.target 0 route.absolute
        route.kernelRoute route.revertible 0 route.org s = .ok ret s')

theorem routeWith_way {create : Address → Nat → RouteM Address}
    (h : routeWith host create route s = .ok ret s') : Way host create route s ret s' := by
  rw [routeWith] at h
  split at h
  next hshort =>
    cases h
    exact .tooShort hshort.1 rfl rfl
  · obtain ⟨_, u, hget, hrest⟩ := bind_eq_ok h
    cases hget
    cases hrouted : routed s.text route.source with
    | some found =>
        obtain ⟨previous, chained⟩ := found
        simp only [hrouted] at hrest
        obtain ⟨slot, m, hslot, hjump⟩ := bind_eq_ok hrest
        exact .chain hrouted hslot hjump
    | none =>
        simp only [hrouted] at hrest
        split at hrest
        next hwrapper =>
          obtain ⟨slot, u, hslot, hrest⟩ := bind_eq_ok hrest
          obtain ⟨trampoline, m, hcreate, hrest⟩ := bind_eq_ok hrest
          have hneed : create route.source (route.need slot) u = .ok trampoline m := by
            simpa [Route.need, Route.absolute] using hcreate
          refine .wrapped hwrapper hrouted hslot hneed ?_
          split at hrest
          next hzero =>
            cases hrest
            exact .inl ⟨hzero, rfl, rfl⟩
          next hne => exact .inr ⟨hne, hrest⟩
        next hwrapper => exact .bare (by simpa using hwrapper) hrouted hrest

end Jump

section Trampolines

variable {function : Address} {min : Nat}

/-- The rest of the temporary memory has not been written to. -/
def Blank (host : Host) (s : Patcher) : Prop :=
  ∀ k, s.tempExecutableMemoryOff ≤ k → k < tempExecutableMemorySize →
    s.text (host.tempExecutableMemory + BitVec.ofNat 64 k) = 0

/-- Where the next trampoline is made. -/
def freeMemory (host : Host) (s : Patcher) : Address :=
  host.tempExecutableMemory + BitVec.ofNat 64 s.tempExecutableMemoryOff

/-- Only the next part of the temporary memory was written to. -/
structure Aside (host : Host) (s s' : Patcher) : Prop where
  off : s.tempExecutableMemoryOff ≤ s'.tempExecutableMemoryOff
  text : ∀ address, inside (freeMemory host s)
      (s'.tempExecutableMemoryOff - s.tempExecutableMemoryOff) address = false →
    s'.text address = s.text address
  written : s'.text ≠ s.text → s'.tempExecutableMemoryOff < tempExecutableMemorySize
  addressSlots : s'.addressSlots = s.addressSlots
  orgs : s'.orgs = s.orgs
  books : Booked s.books [] s'.books

/-- The beginning of a function stands at `start`, with a jump to the rest of
the function behind it. -/
structure Trampoline (text : Code) (start function : Address) (original : List UInt8) : Prop where
  copied : readBytes text start original.length = original
  back : ∃ absolute, (planOf 0 absolute).Fits (start + BitVec.ofNat 64 original.length)
      (function + BitVec.ofNat 64 original.length) ∧
    (planOf 0 absolute).Stands text (start + BitVec.ofNat 64 original.length)
      (function + BitVec.ofNat 64 original.length)

theorem instructionSizes_covers {text : Code} {fuel total : Nat} {address : Address}
    (hfuel : min ≤ total + fuel) :
    instructionSizes host text min fuel address total = 0 ∨
      min ≤ instructionSizes host text min fuel address total := by
  induction fuel generalizing address total with
  | zero => exact .inr hfuel
  | succ fuel ih =>
      rw [instructionSizes]
      cases hlength : host.disasm text address with
      | none => exact .inl rfl
      | some length =>
          have hpos := host.disasm_pos text address length hlength
          simp only
          split
          · exact ih (by omega)
          · exact .inr (by omega)

/-- A decoded beginning covers the jump. -/
theorem quickInstructionSize_covers {text : Code}
    (h : quickInstructionSize host text function min ≠ 0) :
    min ≤ quickInstructionSize host text function min :=
  (instructionSizes_covers (by omega)).resolve_left h

/-- A first jump without a slot. -/
theorem Plan.unslotted_clear {source : Address} {absolute : Bool} :
    (planOf 0 absolute).Clear source := by
  intro slot hslot
  cases absolute <;> cases hslot

theorem Plan.unslotted_fits {source target : Address} {absolute : Bool}
    (h : tooFar source target = true → absolute = true) :
    (planOf 0 absolute).Fits source target := by
  cases absolute with
  | true => exact trivial
  | false =>
      have hnear : tooFar source target = false := by
        simpa using mt h (by simp)
      exact (by simpa [tooFar] using hnear : _ = _).symm

/-- The call inside `createTrampoline` finds no jump where it writes. -/
theorem routeTail_cases {source target : Address} (hfresh : routed s.text source = none)
    (h : routeTail host source target s = .ok ret s') :
    ∃ books, Booked s.books [] books ∧
      ((∃ code, code ≠ .noError ∧ s' = { s with code := code, books := books }) ∨
        s' = jumped s source target (planOf 0 (tooFar source target)) books) := by
  cases routeWith_way h with
  | tooShort hshort => cases hshort
  | chain hrouted =>
      rw [hfresh] at hrouted
      cases hrouted
  | wrapped hwrapper => cases hwrapper
  | bare hwrapper hrouted hjump =>
      obtain ⟨-, code, books, hcode, hbooks, hstate⟩ | ⟨-, books, hsettled, hstate⟩ :=
        writeJump_cases hjump
      · exact ⟨books, hbooks, .inl ⟨code, ne_noError hcode, hstate⟩⟩
      · refine ⟨books, hsettled.dropped rfl, .inr (hstate.trans ?_)⟩
        simp [Route.absolute, withOrg]

theorem routed_eq_none {text : Code} {source : Address} (h : text source = 0) :
    routed text source = none := by
  have hother : readBytes text source 2 ≠ [0xFF, 0x25] := not_indirect (by simp [h])
  have hchain : readChain text source = none := by
    rw [readChain, if_neg hother, if_neg (by simp [h])]
  rw [routed, hchain]
  rfl

/-- The state in which the jump back is asked for. -/
def copied (host : Host) (s : Patcher) (function : Address) (size : Nat) : Patcher :=
  { s with
    tempExecutableMemoryOff := s.tempExecutableMemoryOff + (size + longJump)
    code := .noError
    text := placed s.text (freeMemory host s) (readBytes s.text function size) }

theorem copied_unrouted {size : Nat} (hblank : Blank host s)
    (hsize : s.tempExecutableMemoryOff + size < tempExecutableMemorySize) :
    routed (copied host s function size).text
      (freeMemory host s + BitVec.ofNat 64 size) = none := by
  apply routed_eq_none
  have hout := @placed_outside s.text (freeMemory host s)
    (freeMemory host s + BitVec.ofNat 64 size) (readBytes s.text function size) ?_
  · refine hout.trans ?_
    rw [freeMemory, add_ofNat_add]
    exact hblank _ (by omega) hsize
  · rw [length_readBytes, inside_add (by rw [tempExecutableMemorySize] at hsize; omega)]
    simp

theorem Aside.moved {off : Nat} {code : Error} (hoff : s.tempExecutableMemoryOff ≤ off) :
    Aside host s { s with code := code, tempExecutableMemoryOff := off } :=
  ⟨hoff, fun _ _ => rfl, fun h => absurd rfl h, rfl, rfl, Asks.refl.booked⟩

theorem Aside.asked {books : Books} (h : Aside host { s with books := books } s')
    (hasks : Asks s.books books) : Aside host s s' :=
  ⟨h.off, h.text, h.written, h.addressSlots, h.orgs, hasks.booked.trans h.books⟩

/-- Behind the copy there is room for any jump. -/
theorem copied_aside {size : Nat} {text : Code} {code : Error} {books : Books}
    (hbooks : Booked s.books [] books)
    (hfits : s.tempExecutableMemoryOff + (size + longJump) < tempExecutableMemorySize)
    (htext : ∀ address, inside (freeMemory host s + BitVec.ofNat 64 size) longJump address = false →
      text address = (copied host s function size).text address) :
    Aside host s
      { copied host s function size with text := text, code := code, books := books } := by
  have hmemory : tempExecutableMemorySize = 4096 := rfl
  refine ⟨Nat.le_add_right _ _, fun address hout => ?_, fun _ => hfits, rfl, rfl, hbooks⟩
  have htaken : s.tempExecutableMemoryOff + (size + longJump) - s.tempExecutableMemoryOff =
      size + longJump := Nat.add_sub_cancel_left _ _
  simp only [copied, htaken] at hout
  rw [← Bool.not_eq_true] at hout
  have htail : inside (freeMemory host s + BitVec.ofNat 64 size) longJump address = false := by
    rw [← Bool.not_eq_true]
    exact fun hin => hout (inside_part le_rfl (by omega) hin)
  refine (htext address htail).trans (placed_outside ?_)
  rw [length_readBytes, ← Bool.not_eq_true]
  exact fun hin => hout (inside_mono (Nat.le_add_right _ _) hin)

theorem planOf_commit_outside {source target address : Address} {text : Code} {absolute : Bool}
    (hout : inside source longJump address = false) :
    (planOf 0 absolute).commit source target text address = text address := by
  refine Plan.commit_outside Plan.unslotted_clear ?_ fun slot hslot => ?_
  · rw [← Bool.not_eq_true] at hout ⊢
    exact fun hin => hout (inside_mono Plan.size_le hin)
  · cases absolute <;> cases hslot

/-- The jump back is written behind the copy, inside the memory taken for it. -/
theorem routeTail_copied {size : Nat} (hblank : Blank host s)
    (hfits : s.tempExecutableMemoryOff + (size + longJump) < tempExecutableMemorySize)
    (h : routeTail host (freeMemory host s + BitVec.ofNat 64 size)
      (function + BitVec.ofNat 64 size) (copied host s function size) = .ok ret s') :
    Aside host s s' ∧ s'.tempExecutableMemoryOff = s.tempExecutableMemoryOff + (size + longJump) ∧
      (s'.code ≠ .noError ∨ (s'.code = .noError ∧
        Trampoline s'.text (freeMemory host s) function (readBytes s.text function size))) := by
  have hlong : longJump = 14 := rfl
  have hmemory : tempExecutableMemorySize = 4096 := rfl
  have hfresh := @copied_unrouted host s function size hblank (by omega)
  obtain ⟨books, hbooks, ⟨code, hcode, rfl⟩ | rfl⟩ := routeTail_cases hfresh h
  · exact ⟨copied_aside hbooks hfits fun _ _ => rfl, rfl, .inl hcode⟩
  · refine ⟨copied_aside hbooks hfits fun address hout => ?_, rfl, .inr ⟨rfl, ?_, ?_⟩⟩
    · exact planOf_commit_outside hout
    · rw [length_readBytes]
      have hcopy := @readBytes_placed s.text (freeMemory host s)
        (readBytes s.text function size) (by rw [length_readBytes]; omega)
      rw [length_readBytes] at hcopy
      refine (readBytes_congr (by omega) fun address hin => ?_).trans hcopy
      exact planOf_commit_outside (apart_next (by omega) (by omega) address hin)
    · rw [length_readBytes]
      exact ⟨_, Plan.unslotted_fits id, Plan.stands_commit Plan.unslotted_clear⟩

/-- What `createTrampoline` leaves: it writes to free temporary memory only, and
the trampoline that it returns holds whole instructions and leads back behind
them. -/
structure MakesTrampoline (host : Host) (function : Address) (min : Nat) (s : Patcher)
    (ret : Address) (s' : Patcher) : Prop where
  aside : Aside host s s'
  made : (ret = 0 ∧ s'.code ≠ .noError) ∨
    (ret = freeMemory host s ∧ s'.code = .noError ∧ ∃ size, min ≤ size ∧
      s'.tempExecutableMemoryOff = s.tempExecutableMemoryOff + (size + longJump) ∧
      s'.tempExecutableMemoryOff < tempExecutableMemorySize ∧
      Trampoline s'.text ret function (readBytes s.text function size))

theorem copyFunction_makes (hblank : Blank host s)
    (h : copyFunction host [] function min s = .ok ret s') :
    MakesTrampoline host function min s ret s' := by
  rw [copyFunction] at h
  obtain ⟨_, u, hget, hrest⟩ := bind_eq_ok h
  cases hget
  simp only [List.length_nil, Nat.add_zero, Nat.zero_add, placed_nil, BitVec.add_zero] at hrest
  split at hrest
  · cases hrest
    exact ⟨.moved le_rfl, .inl ⟨rfl, nofun⟩⟩
  next hsize =>
    split at hrest
    · cases hrest
      exact ⟨.moved (Nat.le_add_right _ _), .inl ⟨rfl, nofun⟩⟩
    next hfits =>
      have hcovers := quickInstructionSize_covers fun hzero => hsize (.inl hzero)
      obtain ⟨_, u, hcopy, hrest⟩ := bind_eq_ok hrest
      obtain ⟨_, v, htail, hrest⟩ := bind_eq_ok hrest
      obtain ⟨_, w, hget, hrest⟩ := bind_eq_ok hrest
      cases hcopy
      cases hget
      cases hrest
      have hfits := Nat.lt_of_not_le hfits
      obtain ⟨haside, hoff, hcode | hback⟩ := routeTail_copied hblank hfits htail
      · exact ⟨haside, .inl ⟨if_neg hcode, hcode⟩⟩
      · rw [if_pos hback.1]
        exact ⟨haside, .inr ⟨rfl, hback.1, _, hcovers, hoff, hoff ▸ hfits, hback.2⟩⟩

theorem createTrampoline_makes (hblank : Blank host s)
    (h : createTrampoline host [] function min s = .ok ret s') :
    MakesTrampoline host function min s ret s' := by
  rw [createTrampoline] at h
  obtain ⟨granted, u, hstep, hrest⟩ := bind_eq_ok h
  obtain ⟨books, hask, rfl⟩ := onBooks_cases hstep
  have hasks := (ask_cases hask).2
  split at hrest
  · have hblank : Blank host { s with books := books } := hblank
    obtain ⟨haside, hmade⟩ := copyFunction_makes hblank hrest
    exact ⟨haside.asked hasks, hmade⟩
  · cases hrest
    exact ⟨(Aside.moved le_rfl).asked hasks, .inl ⟨rfl, nofun⟩⟩

end Trampolines

section Outcomes

variable {route : Route}

/-- How a redirection that does not stop the system may end. -/
inductive Outcome (host : Host) (route : Route) (s : Patcher) : Patcher → Prop where
  | refused {slot : Address} {u m : Patcher} {orgs : Nat → Address} {code : Error} {books : Books}
      (hslot : SlotTaken s slot u) (haside : Aside host u m)
      (horgs : ∀ cell, some cell ≠ route.org → orgs cell = s.orgs cell)
      (hcode : code ≠ .noError) (hbooks : Booked m.books [] books) :
      Outcome host route s { m with orgs := orgs, code := code, books := books }
  | chain {previous : JumpType} {chained slot : Address} {u : Patcher} {books : Books}
      (hrouted : routed s.text route.source = some (previous, chained))
      (hslot : SlotTaken s slot u) (hlong : previous ≠ .short)
      (hmedium : previous = .medium ↔ slot ≠ 0) (hbooks : Booked u.books [] books) :
      Outcome host route s
        (jumped (withOrg u route.org (if route.buildWrapper then chained else 0)) route.source
          route.target (planOf slot route.absolute) books)
  | first {slot org : Address} {u m : Patcher} {books : Books}
      (hrouted : routed s.text route.source = none)
      (hslot : SlotTaken s slot u) (habsolute : slot ≠ 0 → route.absolute = true)
      (haside : Aside host u m)
      (hwrapper : route.buildWrapper = true → org = freeMemory host s ∧ ∃ size,
        route.need slot ≤ size ∧
        m.tempExecutableMemoryOff = s.tempExecutableMemoryOff + (size + longJump) ∧
        m.tempExecutableMemoryOff < tempExecutableMemorySize ∧
        Trampoline m.text org route.source (readBytes s.text route.source size))
      (hbooks : Settled host (route.kernelRoute && route.revertible)
        ((planOf slot route.absolute).patches route.source route.target m.text) m.books books) :
      Outcome host route s
        (jumped (withOrg m route.org org) route.source route.target (planOf slot route.absolute)
          books)

theorem Aside.refl : Aside host s s := .moved le_rfl

theorem SlotTaken.text (h : SlotTaken s slot m) : m.text = s.text := by
  cases h <;> rfl

theorem SlotTaken.orgs (h : SlotTaken s slot m) : m.orgs = s.orgs := by
  cases h <;> rfl

theorem SlotTaken.books (h : SlotTaken s slot m) : m.books = s.books := by
  cases h <;> rfl

theorem SlotTaken.off (h : SlotTaken s slot m) :
    m.tempExecutableMemoryOff = s.tempExecutableMemoryOff := by
  cases h <;> rfl

theorem SlotTaken.freeMemory_eq (h : SlotTaken s slot m) :
    freeMemory host m = freeMemory host s := by
  rw [freeMemory, freeMemory, h.off]

theorem Blank.slotTaken (hblank : Blank host s) (h : SlotTaken s slot m) : Blank host m := by
  intro k hoff hk
  rw [h.text]
  exact hblank k (h.off ▸ hoff) hk

theorem withOrg_other {cell : Nat} {org : Option Nat} {value : Address} (h : some cell ≠ org) :
    (withOrg s org value).orgs cell = s.orgs cell :=
  if_neg h

theorem routeFunctionInternal_outcome (hblank : Blank host s)
    (h : routeFunctionInternal host route s = .ok ret s') : Outcome host route s s' := by
  cases routeWith_way h with
  | tooShort hshort hret hstate =>
      rw [hstate]
      exact .refused .nothing .refl (fun _ _ => rfl) nofun Asks.refl.booked
  | @chain previous chained slot u hrouted hslot hjump =>
      obtain ⟨htaken, hlong, hmedium⟩ := chainSlot_taken hslot
      obtain ⟨-, code, books, hcode, hbooks, rfl⟩ | ⟨-, books, hsettled, rfl⟩ :=
        writeJump_cases hjump
      · refine Outcome.refused (m := u) htaken .refl (fun cell hcell => ?_) (ne_noError hcode)
          hbooks
        exact (withOrg_other hcell).trans (congrFun htaken.orgs cell)
      · exact .chain hrouted htaken hlong hmedium (hsettled.dropped (Bool.and_false _))
  | @wrapped slot trampoline u m hwrapper hrouted hslot hcreate hjump =>
      obtain ⟨htaken, habsolute⟩ := freshSlot_taken hslot
      obtain ⟨haside, hmade⟩ := createTrampoline_makes (hblank.slotTaken htaken) hcreate
      have horgs : m.orgs = s.orgs := haside.orgs.trans htaken.orgs
      obtain ⟨hzero, -, rfl⟩ | ⟨hne, hjump⟩ := hjump
      · obtain ⟨-, hcode⟩ | hmade := hmade
        · exact Outcome.refused (m := s') htaken haside (fun cell _ => congrFun horgs cell) hcode
            Asks.refl.booked
        · obtain ⟨hstart, -, size, -, hoff, hfits, -⟩ := hmade
          have hfree : u.tempExecutableMemoryOff < tempExecutableMemorySize := by omega
          exact absurd (hstart.symm.trans hzero) (host.memory_ne _ hfree)
      · obtain ⟨-, code, books, hcode, hbooks, rfl⟩ | ⟨-, books, hsettled, rfl⟩ :=
          writeJump_cases hjump
        · refine Outcome.refused (m := m) htaken haside (fun cell hcell => ?_) (ne_noError hcode)
            hbooks
          exact (withOrg_other hcell).trans (congrFun horgs cell)
        · refine .first hrouted htaken habsolute haside (fun _ => ?_) hsettled
          obtain ⟨hzero, -⟩ | ⟨hstart, -, hsize⟩ := hmade
          · exact absurd hzero hne
          · rw [htaken.off, htaken.text] at hsize
            exact ⟨hstart.trans htaken.freeMemory_eq, hsize⟩
  | bare hwrapper hrouted hjump =>
      obtain ⟨-, code, books, hcode, hbooks, rfl⟩ | ⟨-, books, hsettled, rfl⟩ :=
        writeJump_cases hjump
      · exact Outcome.refused (m := s) .nothing .refl (fun cell hcell => withOrg_other hcell)
          (ne_noError hcode) hbooks
      · refine .first hrouted .nothing (fun hne => absurd rfl hne) .refl (fun h => ?_) hsettled
        rw [hwrapper] at h
        cases h

end Outcomes

end Routing

end Kryptonite
