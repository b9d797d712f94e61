/-
The removal of the patches when the patcher goes away (`deinit`).  Only a first
redirection of a function saves what it overwrites; that is enough for any
number of redirections on top of it, as long as the patches can be stored.
-/
import Kryptonite.RouteRuns

namespace Kryptonite

namespace Routing

open X86 KernelPatcher Script

variable {host : Host} {functions : Set Address} {start s s' m u : Patcher}
variable {route : Route} {f slot address : Address} {patches : List SavedPatch}

section Patches

/-- Some saved patch holds the byte at an address. -/
def Covered (patches : List SavedPatch) (address : Address) : Prop :=
  ∃ patch ∈ patches, inside patch.address patch.original.length address = true

/-- The saved bytes are those of `code`. -/
def Originals (code : Code) (patches : List SavedPatch) : Prop :=
  ∀ patch ∈ patches, patch.original = readBytes code patch.address patch.original.length

theorem restore_live {object : PatchObject} (h : object.number ∉ s.books.freed) :
    restore object s = .ok ⟨⟩
      { s with text := placed s.text object.patch.address object.patch.original } := by
  rw [restore]
  refine (bind_of_ok rfl).trans ?_
  rw [if_neg h]
  rfl

theorem restore_freed {object : PatchObject} (h : object.number ∈ s.books.freed) :
    restore object s = .error .freedPatch s := by
  rw [restore]
  refine (bind_of_ok rfl).trans ?_
  rw [if_pos h]
  rfl

theorem Covered.append {more : List SavedPatch} (h : Covered patches address) :
    Covered (patches ++ more) address := by
  obtain ⟨patch, hmem, hin⟩ := h
  exact ⟨patch, List.mem_append_left more hmem, hin⟩

variable {plan : Plan} {source target : Address} {text : Code}

theorem SavedPatch.length_create {bytes : List UInt8} :
    (SavedPatch.create text source bytes).original.length = bytes.length :=
  length_readBytes

theorem Plan.length_opcode_le : plan.opcode.length ≤ 2 := by
  cases plan <;> simp [Plan.opcode]

/-- The patches of a jump lie in the function and in the slot. -/
theorem Plan.mem_patches {patch : SavedPatch} (h : patch ∈ plan.patches source target text) :
    ∃ bytes, patch = .create text patch.address bytes ∧ bytes.length ≤ 8 ∧
      ∀ address, inside patch.address bytes.length address = true →
        inside source longJump address = true ∨
          ∃ slot, plan = .slotted slot ∧ inside slot 8 address = true := by
  have hlong : longJump = 14 := rfl
  have hopcode := @Plan.length_opcode_le plan
  have hargument := @Plan.length_argument plan source target
  rcases List.mem_append.mp h with hjump | hdisp
  · rcases List.mem_cons.mp hjump with rfl | hjump
    · exact ⟨_, rfl, by omega, fun address hin => .inl (inside_mono (by omega) hin)⟩
    · cases List.mem_singleton.mp hjump
      exact ⟨_, rfl, by omega, fun address hin => .inl (inside_part (by omega) (by omega) hin)⟩
  · obtain ⟨place, hmem, rfl⟩ := List.mem_map.mp hdisp
    have hword := length_wordBytes 8 target
    refine ⟨_, rfl, by omega, fun address hin => ?_⟩
    rw [hword] at hin
    cases plan with
    | slotted slot =>
        cases Option.mem_toList.mp hmem
        exact .inr ⟨_, rfl, hin⟩
    | absolute =>
        cases Option.mem_toList.mp hmem
        exact .inl (inside_part (by decide : 6 + 8 ≤ longJump) (by omega) hin)
    | relative => cases hmem

/-- The patches of a jump cover it. -/
theorem Plan.patches_cover (h : inside source plan.size address = true) :
    Covered (plan.patches source target text) address := by
  have hlt := inside_iff.mp h
  have hargument := @Plan.length_argument plan source target
  by_cases hfirst : (address - source).toNat < plan.opcode.length
  · refine ⟨_, List.mem_append_left _ List.mem_cons_self, ?_⟩
    rw [SavedPatch.length_create]
    exact inside_iff.mpr hfirst
  · by_cases hsecond : (address - source).toNat < plan.opcode.length + 4
    · refine ⟨_, List.mem_append_left _ (List.mem_cons_of_mem _ List.mem_cons_self), ?_⟩
      rw [SavedPatch.length_create, hargument]
      exact inside_behind (by omega) hsecond
    · cases plan with
      | slotted slot =>
          exact absurd hlt (by simpa [Plan.size, Plan.opcode, mediumJump] using hsecond)
      | absolute =>
          refine ⟨.create text (source + 6) (wordBytes 8 target),
            List.mem_append_right _ List.mem_cons_self, ?_⟩
          rw [SavedPatch.length_create, length_wordBytes]
          exact inside_behind (by simpa [Plan.opcode] using hsecond) hlt
      | relative => exact absurd hlt (by simpa [Plan.size, Plan.opcode, smallJump] using hsecond)

end Patches

section Removal

/-- The patches that are kept. -/
def saved (s : Patcher) : List SavedPatch := s.books.kpatches.map (·.patch)

theorem saved_booked {patches : List SavedPatch} (h : Booked s.books patches s'.books) :
    saved s' = saved s ++ patches := by
  obtain ⟨more, hmore, hpatches⟩ := h.kept
  rw [saved, hmore, List.map_append, hpatches]
  rfl

/-- What is kept for the removal, over a run that began in `start`. -/
structure Saved (host : Host) (functions : Set Address) (start s : Patcher) : Prop where
  orderly : Orderly host functions s
  live : s.books.Live
  originals : Originals start.text (saved s)
  fresh : ∀ address, Free host s address → s.text address = start.text address
  sites : ∀ f ∈ functions, ∃ site, Site host functions start.text s f site ∧
    ∀ target n, site = some (target, n) → ∀ address, inside f n address = true →
      Covered (saved s) address

/-- The bytes that a first jump saves are the original ones. -/
theorem Saved.first_originals {target : Address} {absolute : Bool}
    (h : Saved host functions start s) (hf : f ∈ functions)
    (hsite : Site host functions start.text s f none) (htaken : SlotTaken s slot u)
    (haside : Aside host u m) :
    Originals start.text ((planOf slot absolute).patches f target m.text) := by
  intro patch hmem
  obtain ⟨bytes, hpatch, hlength, hwhere⟩ := Plan.mem_patches hmem
  rw [hpatch, SavedPatch.length_create]
  refine readBytes_congr (by omega) fun address hin => ?_
  obtain hin | ⟨slot', hplan, hin⟩ := hwhere address hin
  · rw [prepared_text h.orderly htaken haside (h.orderly.windows f hf address hin)]
    cases hsite with
    | plain hchain hsame => exact hsame address hin
  · obtain ⟨hne, rfl⟩ := planOf_slotted hplan
    obtain ⟨⟨info, hregion⟩, htaken'⟩ := htaken.taken h.orderly hne hin
    rw [haside.text_eq fun h => htaken' ⟨none, h⟩, htaken.text]
    exact h.fresh address ⟨some info, hregion⟩

/-- What one redirection saves, and that it covers what the function has lost. -/
theorem Saved.source (h : Saved host functions start s) (hmemory : ∀ n, host.reallocates n = true)
    (hsource : route.source ∈ functions) (htarget : route.target ≠ 0)
    (hkernel : route.kernelRoute = true) (hrevertible : route.revertible = true)
    (hout : Outcome host route s s') :
    ∃ more, Booked s.books more s'.books ∧ Originals start.text more ∧
      ∃ site, Site host functions start.text s' route.source site ∧
        ∀ target n, site = some (target, n) → ∀ address, inside route.source n address = true →
          Covered (saved s') address := by
  have hstep := hout.advances h.orderly hsource
  obtain ⟨site, hsite, hcovered⟩ := h.sites route.source hsource
  cases hout with
  | @refused _ u m _ _ books hslot haside horgs hcode hbooks =>
      have hbooked : Booked s.books [] books := by
        rw [← hslot.books]
        exact haside.books.trans hbooks
      refine ⟨[], hbooked, List.forall_mem_nil _, site, ?_, fun target n heq address hin => ?_⟩
      · refine hsite.keep h.orderly hsource hstep.shrinks fun address hfree _ => ?_
        have htext := prepared_text h.orderly hslot haside hfree
        exact htext
      · rw [saved_booked hbooked, List.append_nil]
        exact hcovered target n heq address hin
  | @chain _ _ slot u books hrouted hslot hlong hmedium hbooks =>
      have hbooked : Booked s.books [] books := hslot.books ▸ hbooks
      refine ⟨[], hbooked, List.forall_mem_nil _, ?_⟩
      cases site with
      | none =>
          rw [hsite.routed_none] at hrouted
          cases hrouted
      | some found =>
          obtain ⟨chained, n⟩ := found
          obtain ⟨plan, hplan, -⟩ := hsite.routed_some
          obtain ⟨rfl, rfl⟩ := Prod.mk.inj (Option.some.inj (hplan.symm.trans hrouted))
          refine ⟨_, hsite.chain h.orderly hsource hrouted hslot hlong hmedium absolute_of_tooFar
            htarget, ?_⟩
          rintro target n ⟨⟩ address hin
          rw [saved_booked hbooked, List.append_nil]
          exact hcovered _ _ rfl address hin
  | @first slot _ u m books hrouted hslot habsolute haside hwrapper hbooks =>
      cases site with
      | some found =>
          obtain ⟨plan, hplan, -⟩ := hsite.routed_some
          rw [hplan] at hrouted
          cases hrouted
      | none =>
          have hkept := hbooks.kept (by rw [hkernel, hrevertible]; rfl) hmemory
          have hbooked : Booked s.books ((planOf slot route.absolute).patches
              route.source route.target m.text) books := by
            rw [← hslot.books]
            exact haside.books.trans hkept
          refine ⟨_, hbooked, h.first_originals hsource hsite hslot haside, _,
            hsite.first h.orderly hsource hslot haside absolute_of_tooFar htarget, ?_⟩
          rintro target n ⟨⟩ address hin
          rw [saved_booked hbooked]
          obtain ⟨patch, hmem, hcover⟩ := @Plan.patches_cover address _ _ route.target m.text hin
          exact ⟨patch, List.mem_append_right _ hmem, hcover⟩

theorem Saved.step (h : Saved host functions start s) (hspaced : Spaced functions)
    (hmemory : ∀ n, host.reallocates n = true) (hsource : route.source ∈ functions)
    (htarget : route.target ≠ 0) (hkernel : route.kernelRoute = true)
    (hrevertible : route.revertible = true) (hout : Outcome host route s s') :
    Saved host functions start s' := by
  have hstep := hout.advances h.orderly hsource
  obtain ⟨more, hbooked, horiginals, hsite⟩ :=
    h.source hmemory hsource htarget hkernel hrevertible hout
  refine ⟨hstep.orderly, hbooked.live h.live, ?_, fun address hfree => ?_, fun f hf => ?_⟩
  · rw [saved_booked hbooked]
    exact List.forall_mem_append.mpr ⟨h.originals, horiginals⟩
  · rw [hstep.fresh address hfree]
    exact h.fresh address (hstep.shrinks.free hfree)
  · by_cases hne : f = route.source
    · exact hne ▸ hsite
    · obtain ⟨site, hsite, hcovered⟩ := h.sites f hf
      refine ⟨site, hsite.other h.orderly hspaced hf hsource hne hstep, ?_⟩
      intro target n heq address hin
      rw [saved_booked hbooked]
      exact (hcovered target n heq address hin).append

theorem Saved.run {good : Patcher → Prop} {routes : List Route}
    (h : Saved host functions start s) (hspaced : Spaced functions)
    (hmemory : ∀ n, host.reallocates n = true) (hrun : Run host good s routes s')
    (hroutes : ∀ route ∈ routes, route.source ∈ functions ∧ route.target ≠ 0 ∧
      route.kernelRoute = true ∧ route.revertible = true) :
    Saved host functions start s' := by
  induction hrun with
  | done s => exact h
  | cleared hrest ih =>
      refine ih ⟨h.orderly.cleared, h.live, h.originals, h.fresh, fun f hf => ?_⟩ hroutes
      obtain ⟨site, hsite, hcovered⟩ := h.sites f hf
      exact ⟨site, hsite.cleared h.orderly hf, hcovered⟩
  | routed hroute hgood hrest ih =>
      obtain ⟨⟨hsource, htarget, hkernel, hrevertible⟩, hroutes⟩ := List.forall_mem_cons.mp hroutes
      have hout := routeFunctionInternal_outcome h.orderly.blank hroute
      exact ih (h.step hspaced hmemory hsource htarget hkernel hrevertible hout) hroutes

/-- The removal restores every kept object, if it may write and none is freed. -/
theorem removePatches_eq (hwriting : host.kernelWriting s.books.asked = true) :
    removePatches host s = s.books.kpatches.forM restore
      { s with books := { s.books with asked := s.books.asked + 1 } } := by
  have hask : onBooks (ask host.kernelWriting) s =
      .ok true { s with books := { s.books with asked := s.books.asked + 1 } } := by
    rw [← hwriting]
    rfl
  rw [removePatches, bind_of_ok hask, if_pos rfl]
  rfl

/-- A freed object among those to be restored stops the removal. -/
theorem restoreAll_freed {objects : List PatchObject}
    (h : ∃ object ∈ objects, object.number ∈ s.books.freed) :
    ∃ s', objects.forM restore s = .error .freedPatch s' := by
  induction objects generalizing s with
  | nil =>
      obtain ⟨_, hmem, -⟩ := h
      cases hmem
  | cons object objects ih =>
      by_cases hfirst : object.number ∈ s.books.freed
      · exact ⟨s, forM_of_error (restore_freed hfirst)⟩
      · obtain ⟨other, hmem, hother⟩ := h
        rcases List.mem_cons.mp hmem with rfl | hmem
        · exact absurd hother hfirst
        · obtain ⟨s', hrun⟩ := @ih
            { s with text := placed s.text object.patch.address object.patch.original }
            ⟨other, hmem, hother⟩
          exact ⟨s', (forM_of_ok (restore_live hfirst)).trans hrun⟩

/-- Where only some of the patches of a jump can be stored, and the system does
not stop over that, the jump is written without an error, and the removal uses an
object that was freed. -/
theorem removal_after_partial_store {source target : Address} {plan : Plan} {objects : Objects}
    {stored : List Bool} {c : Books}
    (hpush : pushAll host.toAnswers objects.toList s.books = .ok stored c)
    (hsome : true ∈ stored) (hnot : stored.all id = false)
    (h : commitJump host source target plan true true objects s = .ok ⟨⟩ s')
    (hwriting : host.kernelWriting s'.books.asked = true) :
    s'.code = s.code ∧ ∃ t, removePatches host s' = .error .freedPatch t := by
  rw [commitJump] at h
  obtain ⟨_, u, htext, hrest⟩ := bind_eq_ok h
  cases htext
  obtain ⟨books, hstore, rfl⟩ := onBooks_cases hrest
  rw [if_pos (by decide)] at hstore
  rw [removePatches_eq hwriting]
  exact ⟨rfl, restoreAll_freed (store_dangles hpush hsome hnot hstore)⟩

/-- There is memory for the patches of the first redirection only. -/
def scarceHost : Host := { sampleHost with reallocates := fun n => n < 10 }

-- the fourth element still fits, the fifth does not: nothing is reported
example :
    let first := endState (routeFunctionInternal scarceHost
      (sampleRoute 0x20000 0xFFFFFF0000000000 0) sampleStart)
    let second := endState (routeFunctionInternal scarceHost
      (sampleRoute 0x20100 0xFFFFFF0000000000 1) first)
    second.code = .noError ∧ second.books.kpatches.length = 3 ∧
      completed (removePatches scarceHost second) = false := by
  decide +kernel

end Removal

end Routing

end Kryptonite
