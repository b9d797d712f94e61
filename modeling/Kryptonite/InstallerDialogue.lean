/-
The dialogue of the installer from the first question to the choice of the
volume: `requirements_get`, and `disks_show` unless OpenCore exists already.  The
dialogue ends exactly if the input answers it question by question, and where it
ends it has seen the volume that it takes for an existing OpenCore, or erases one
that was offered.

At the end of the input the first question is repeated for ever.
-/
import Kryptonite.DialogueEnd

namespace Kryptonite

namespace Dialogue

open Script ShellText Fuel
open Disks (Terminal Primary)

section Sequence

variable {terminal : Terminal} (world : World terminal) {s t : Session} {fuel : Nat}

/-- What the course of the dialogue depends on. -/
structure Place where
  input : Text
  tests : Nat
  listings : Nat
  existing : Bool

def Session.place (s : Session) : Place := ⟨s.input, s.tests, s.listings, s.ocExisting⟩

/-- A question is answered, and what follows it is. -/
def Asks (assign : Place → Place) (P : Place → Prop) (place : Place) : Prop :=
  ∃ answer rest, Disks.uiConfirm place.input = some (answer, rest) ∧
    P (if answer then assign { place with input := rest } else { place with input := rest })

/-- The volume is settled if one is asked for. -/
def Locates (P : Place → Prop) (place : Place) : Prop :=
  (place.existing = false → P place) ∧
    (place.existing = true → ∃ located m rest,
      Settles world place.tests place.input located m rest ∧
        P ⟨rest, m, place.listings, located.isSome⟩)

/-- The summary is answered, and what follows a yes is. -/
def Proceeds (P : Place → Prop) (place : Place) : Prop :=
  ∃ answer rest, Disks.uiConfirm place.input = some (answer, rest) ∧
    (answer = true → P { place with input := rest })

/-- A procedure that ends exactly from the places in `P`. -/
structure Decides {α : Type} (q : Nat → DialogueM α) (P : Place → Prop) : Prop where
  steady : Steady q
  ends : ∀ s, Ends q s ↔ P s.place

variable {α : Type} {q : Nat → DialogueM α} {P : Place → Prop}

theorem place_set {assign : Session → Session} {assign' : Place → Place}
    (h : ∀ s, (assign s).place = assign' s.place) (answer : Bool) (s : Session) :
    (s.set assign answer).place = if answer then assign' s.place else s.place := by
  cases answer with
  | true => exact h s
  | false => rfl

theorem Decides.asks {assign : Session → Session} {assign' : Place → Place} (prompt : Text)
    (hassign : ∀ s, (assign s).place = assign' s.place) (h : Decides q P) :
    Decides (fun fuel => confirmSets terminal prompt assign fuel >>= fun _ => q fuel)
      (Asks assign' P) := by
  refine ⟨(confirmSets_steady prompt assign).bind fun _ => h.steady, fun s => ⟨?_, ?_⟩⟩
  · rintro ⟨fuel, hdone⟩
    obtain ⟨answer, rest, prompts, hanswer, hrun⟩ := confirmSets_finished (finished_first hdone)
    have hrest := finished_rest hrun hdone
    have hplace := (h.ends _).mp ⟨fuel, hrest⟩
    rw [place_set hassign] at hplace
    exact ⟨answer, rest, hanswer, hplace⟩
  · rintro ⟨answer, rest, hanswer, hplace⟩
    obtain ⟨prompts, hreturns⟩ := confirmSets_returns terminal prompt assign hanswer
    refine hreturns.bind_ends (confirmSets_steady prompt assign) ((h.ends _).mpr ?_) h.steady
    rw [place_set hassign]
    exact hplace

theorem located_isSome (t : Session) : t.located.isSome = t.ocExisting := by
  rw [Session.located]
  cases t.ocExisting with
  | true => rfl
  | false => rfl

theorem Decides.locates (h : Decides q P) :
    Decides (fun fuel => requestOcExistingVol world fuel >>= fun _ => q fuel)
      (Locates world P) := by
  refine ⟨(requestOcExistingVol_steady world).bind fun _ => h.steady, fun s => ⟨?_, ?_⟩⟩
  · rintro ⟨fuel, hdone⟩
    constructor
    · intro hunasked
      cases fuel with
      | zero => cases hdone
      | succ fuel =>
          have hrun := requestOcExistingVol_unasked world hunasked fuel
          have hrest := finished_rest hrun hdone
          exact (h.ends s).mp ⟨fuel + 1, hrest⟩
    · intro hasked
      obtain ⟨t, hrun, hlistings, hsettles⟩ :=
        requestOcExistingVol_finished world hasked (finished_first hdone)
      have hrest := finished_rest hrun hdone
      have hplace := (h.ends t).mp ⟨fuel, hrest⟩
      rw [Session.place, hlistings, ← located_isSome] at hplace
      exact ⟨_, _, _, hsettles, hplace⟩
  · rintro ⟨hunasked, hasked⟩
    cases hexisting : s.ocExisting with
    | false =>
        have hreturns : Returns (requestOcExistingVol world) s () s :=
          ⟨1, requestOcExistingVol_unasked world hexisting 0⟩
        exact hreturns.bind_ends (requestOcExistingVol_steady world)
          ((h.ends s).mpr (hunasked hexisting)) h.steady
    | true =>
        obtain ⟨located, m, rest, hsettles, hplace⟩ := hasked hexisting
        obtain ⟨t, hreturns, hlistings, rfl, rfl, rfl⟩ :=
          requestOcExistingVol_returns world hsettles hexisting rfl rfl
        refine hreturns.bind_ends (requestOcExistingVol_steady world) ((h.ends t).mpr ?_) h.steady
        rw [Session.place, hlistings, ← located_isSome]
        exact hplace

theorem requirementsSummarize_eq {answer : Bool}
    (hrun : uiConfirm terminal (bold terminal (text "Proceed") ++ text "?") fuel s = .ok answer t) :
    requirementsSummarize terminal fuel s = if answer then .ok () t else .error (some 0) t := by
  rw [requirementsSummarize, bind_of_ok hrun]
  cases answer with
  | true => rfl
  | false => rfl

theorem requirementsSummarize_steady : Steady (requirementsSummarize terminal) :=
  (uiConfirm_steady _).bind fun _ => Steady.const _

theorem Decides.proceeds (h : Decides q P) :
    Decides (fun fuel => requirementsSummarize terminal fuel >>= fun _ => q fuel)
      (Proceeds P) := by
  refine ⟨requirementsSummarize_steady.bind fun _ => h.steady, fun s => ⟨?_, ?_⟩⟩
  · rintro ⟨fuel, hdone⟩
    obtain ⟨answer, rest, prompts, hanswer, hrun⟩ :=
      uiConfirm_finished (finished_first (finished_first hdone))
    refine ⟨answer, rest, hanswer, fun hyes => ?_⟩
    have hsummary := requirementsSummarize_eq hrun
    rw [if_pos hyes] at hsummary
    have hrest := finished_rest hsummary hdone
    exact (h.ends _).mp ⟨fuel, hrest⟩
  · rintro ⟨answer, rest, hanswer, hplace⟩
    obtain ⟨prompts, fuel, hrun⟩ := uiConfirm_returns terminal _ hanswer
    have hsummary := requirementsSummarize_eq hrun
    cases answer with
    | true =>
        have hreturns : Returns (requirementsSummarize terminal) s () _ := ⟨fuel, hsummary⟩
        exact hreturns.bind_ends requirementsSummarize_steady ((h.ends _).mpr (hplace rfl)) h.steady
    | false => exact ⟨fuel, congrArg unfinished (bind_of_error hsummary)⟩

theorem beginPrep_steady : Steady (beginPrep world) :=
  fun fuel => Extends.bind (.refl _) fun _ =>
    Extends.ite (.refl _) (Extends.bind (disksShow_steady world fuel) fun _ => .refl _)

/-- `begin_prep` is answered. -/
def Prepares (place : Place) : Prop :=
  place.existing = false → Chosen world place.listings place.input

theorem beginPrep_decides : Decides (beginPrep world) (Prepares world) := by
  refine ⟨beginPrep_steady world, fun s => ?_⟩
  cases hexisting : s.ocExisting with
  | true =>
      refine iff_of_true ⟨0, ?_⟩ fun hfresh => ?_
      · rw [beginPrep, bind_of_ok (get_eq s), if_pos hexisting]
        rfl
      · cases hexisting.symm.trans hfresh
  | false =>
      have hrun : ∀ fuel, unfinished (beginPrep world fuel s) =
          unfinished (disksShow world fuel s) := by
        intro fuel
        rw [beginPrep, bind_of_ok (get_eq s), if_neg (Bool.eq_false_iff.mp hexisting)]
        exact unfinished_map _ _ _
      have hends : Ends (beginPrep world) s ↔ Ends (disksShow world) s := by
        simp only [Ends, hrun]
      rw [hends, disksShow_ends_iff]
      exact ⟨fun hchosen _ => hchosen, fun h => h hexisting⟩

/-- The input answers the whole dialogue, question by question. -/
def Answered : Place → Prop :=
  Asks (fun place => { place with existing := true })
    (Locates world (Asks id (Asks id
      (if world.dgpuvendor ≠ text "10de" ∨ world.isdesktop = true then Proceeds (Prepares world)
        else Asks id (Proceeds (Prepares world))))))

theorem start_eq (fuel : Nat) : start world fuel = (do
    requestOcExisting terminal fuel
    requestOcExistingVol world fuel
    requestOcDebug terminal fuel
    requestNvgpu terminal fuel
    requestDisabledgpu world fuel
    requirementsSummarize terminal fuel
    beginPrep world fuel) := by
  simp only [start, requirementsGet, bind_assoc]

theorem disabledgpu_decides {terminal : Terminal} {world : World terminal} (h : Decides q P) :
    Decides (fun fuel => requestDisabledgpu world fuel >>= fun _ => q fuel)
      (if world.dgpuvendor ≠ text "10de" ∨ world.isdesktop = true then P else Asks id P) := by
  by_cases hskipped : world.dgpuvendor ≠ text "10de" ∨ world.isdesktop = true
  · have hpass : ∀ fuel, requestDisabledgpu world fuel = pure () := fun fuel => if_pos hskipped
    simp only [hpass, pure_bind, if_pos hskipped]
    exact h
  · have hask : ∀ fuel, requestDisabledgpu world fuel = askDisabledgpu terminal fuel :=
      fun fuel => if_neg hskipped
    simp only [hask, if_neg hskipped]
    exact h.asks _ fun _ => rfl

theorem start_decides : Decides (start world) (Answered world) := by
  rw [funext (start_eq world)]
  refine Decides.asks _ (fun _ => rfl) (Decides.locates world ?_)
  refine Decides.asks _ (fun _ => rfl) (Decides.asks _ (fun _ => rfl) ?_)
  exact disabledgpu_decides (beginPrep_decides world).proceeds

end Sequence

section Whole

variable {terminal : Terminal} (world : World terminal) {s t : Session} {fuel : Nat}

def FinitelyManyPrompts {α : Type} (p : Nat → DialogueM α) (s : Session) : Prop :=
  ∃ bound, ∀ fuel, (endState (p fuel s)).asked ≤ bound

/-- The last two tests, both made after the first `n`, saw the volume and its configuration. -/
def Seen (n : Nat) (s : Session) : Prop :=
  ∃ k, n ≤ k ∧ s.tests = k + 2 ∧ world.present k s.ocExistingVol = true ∧
    world.present (k + 1) (configPath s.ocExistingVol) = true

theorem requestOcExistingVol_seen (hrun : requestOcExistingVol world fuel s = .ok () t)
    (hexisting : t.ocExisting = true) : Seen world s.tests t := by
  have hdone := unfinished_of_ok hrun
  cases hasked : s.ocExisting with
  | false =>
      cases fuel with
      | zero => cases hdone
      | succ fuel =>
          rw [requestOcExistingVol_unasked world hasked] at hrun
          cases hrun
          rw [hasked] at hexisting
          cases hexisting
  | true =>
      obtain ⟨u, hend, -, hsettles⟩ := requestOcExistingVol_finished world hasked hdone
      rw [hrun] at hend
      cases hend
      rw [Session.located, if_pos hexisting] at hsettles
      obtain ⟨k, hk, htests, hfound⟩ := hsettles.found
      obtain ⟨hvol, hconfig⟩ := Bool.and_eq_true_iff.mp hfound
      exact ⟨k, hk, htests, hvol, hconfig⟩

theorem uiConfirm_keeps {inv : Session → Prop}
    (h : ∀ s rest prompts, inv s → inv (s.after rest prompts)) (prompt : Text) (fuel : Nat) :
    Keeps inv (uiConfirm terminal prompt fuel) := by
  induction fuel with
  | zero => exact Triple.throw fun _ hs => hs
  | succ fuel ih =>
      refine Keeps.bind (fun s hs => h s _ _ hs) fun input => ?_
      exact Triple.ite (fun _ => Keeps.pure true) fun _ =>
        Triple.ite (fun _ => Keeps.pure false) fun _ => ih

theorem confirmSets_keeps {inv : Session → Prop} {assign : Session → Session}
    (h : ∀ s rest prompts, inv s → inv (s.after rest prompts))
    (hassign : ∀ s, inv s → inv (assign s)) (prompt : Text) (fuel : Nat) :
    Keeps inv (confirmSets terminal prompt assign fuel) := by
  refine Keeps.bind (uiConfirm_keeps h prompt fuel) fun answer => Triple.modify fun s hs => ?_
  cases answer with
  | true => exact hassign s hs
  | false => exact hs

/-- OpenCore is taken to exist only where it was seen. -/
def Sound (n : Nat) (s : Session) : Prop := s.ocExisting = true → Seen world n s

theorem requestOcExistingVol_sound (n fuel : Nat) :
    Triple (fun s => n ≤ s.tests) (requestOcExistingVol world fuel) (fun _ => Sound world n)
      fun _ _ => True := by
  intro s hs
  cases hrun : requestOcExistingVol world fuel s with
  | ok a t =>
      intro hexisting
      obtain ⟨k, hk, hseen⟩ := requestOcExistingVol_seen world hrun hexisting
      exact ⟨k, hs.trans hk, hseen⟩
  | error e t => trivial

/-- The other questions do not change what OpenCore is taken for. -/
theorem confirmSets_sound {assign : Session → Session} {n : Nat} (prompt : Text) (fuel : Nat)
    (hassign : ∀ s, Sound world n s → Sound world n (assign s)) :
    Triple (Sound world n) (confirmSets terminal prompt assign fuel) (fun _ => Sound world n)
      fun _ _ => True :=
  (confirmSets_keeps (fun _ _ _ hs => hs) hassign prompt fuel).weakenStop fun _ _ _ => trivial

theorem requirementsGet_sound (n fuel : Nat) :
    Triple (fun s => n ≤ s.tests) (requirementsGet world fuel) (fun _ => Sound world n)
      fun _ _ => True := by
  have hfirst : Keeps (fun s => n ≤ s.tests) (requestOcExisting terminal fuel) := by
    refine confirmSets_keeps ?_ ?_ _ fuel
    · exact fun _ _ _ hs => hs
    · exact fun _ hs => hs
  have hgpu : Triple (Sound world n) (requestDisabledgpu world fuel) (fun _ => Sound world n)
      fun _ _ => True :=
    Triple.ite (fun _ => Triple.pure fun _ hs => hs) fun _ =>
      confirmSets_sound world _ fuel fun _ hs => hs
  have hsummary := @uiConfirm_keeps terminal (Sound world n) (fun _ _ _ hs => hs)
    (bold terminal (text "Proceed") ++ text "?") fuel
  refine (hfirst.weakenStop fun _ _ _ => trivial).bind fun _ => ?_
  refine (requestOcExistingVol_sound world n fuel).bind fun _ => ?_
  refine Triple.bind (confirmSets_sound world _ fuel fun _ hs => hs) fun _ => ?_
  refine Triple.bind (confirmSets_sound world _ fuel fun _ hs => hs) fun _ => ?_
  refine hgpu.bind fun _ => (hsummary.weakenStop fun _ _ _ => trivial).bind fun answer => ?_
  exact Triple.ite (fun _ => Triple.pure fun _ hs => hs) fun _ => Triple.throw fun _ _ => trivial

theorem mem_disks_of_disksShow {id : Text} (hrun : disksShow world fuel s = .ok id t) :
    ∃ n, id ∈ (world.disks n).ids := by
  have hshow := disksShow_finished world (unfinished_of_ok hrun)
  rw [hrun] at hshow
  obtain ⟨primary, hmem, hid⟩ := Disks.disksShow_erase_mem hshow.symm
  obtain ⟨n, -, rfl⟩ := List.mem_map.mp hmem
  exact ⟨n, hid⟩

/-- What the dialogue may lead to: an OpenCore that was seen, or the erasure of a volume that was
offered. -/
structure Justified (n : Nat) (result : Option Text) (s : Session) : Prop where
  seen : result = none → Seen world n s
  offered : ∀ id, result = some id → ∃ k, id ∈ (world.disks k).ids

theorem beginPrep_justified (n fuel : Nat) :
    Triple (Sound world n) (beginPrep world fuel) (Justified world n) fun _ _ => True := by
  intro s hsound
  rw [beginPrep, bind_of_ok (get_eq s)]
  by_cases hexisting : s.ocExisting = true
  · rw [if_pos hexisting]
    exact ⟨fun _ => hsound hexisting, fun _ hsome => nomatch hsome⟩
  · rw [if_neg hexisting]
    cases hshow : disksShow world fuel s with
    | ok id t =>
        rw [bind_of_ok hshow]
        refine ⟨fun hnone => (nomatch hnone), fun chosen hsome => ?_⟩
        cases hsome
        exact mem_disks_of_disksShow world hshow
    | error e t =>
        rw [bind_of_error hshow]
        trivial

/-- However the dialogue goes, what it leads to is justified. -/
theorem start_justified {result : Option Text} (hrun : start world fuel s = .ok result t) :
    Justified world s.tests result t :=
  ((requirementsGet_sound world s.tests fuel).bind fun _ =>
    beginPrep_justified world s.tests fuel).ok (Nat.le_refl _) hrun

theorem uiConfirm_finite_iff (prompt : Text) :
    FinitelyManyPrompts (uiConfirm terminal prompt) s ↔ ∃ byte ∈ s.input, byte ∈ letters :=
  (bounded_iff_ends (uiConfirm_steady prompt) (uiConfirm_pays prompt) s).trans
    (uiConfirm_ends_iff.trans (answered_iff s.input))

theorem requestOcExistingVol_finite_iff : FinitelyManyPrompts (requestOcExistingVol world) s ↔
    (s.ocExisting = true → ∃ located m rest, Settles world s.tests s.input located m rest) :=
  (bounded_iff_ends (requestOcExistingVol_steady world) (requestOcExistingVol_pays world) s).trans
    (requestOcExistingVol_ends_iff world)

theorem disksShow_finite_iff :
    FinitelyManyPrompts (disksShow world) s ↔ Chosen world s.listings s.input :=
  (bounded_iff_ends (disksShow_steady world) (disksShow_pays world) s).trans
    (disksShow_ends_iff world)

theorem start_finite_iff : FinitelyManyPrompts (start world) s ↔ Answered world s.place :=
  (bounded_iff_ends (start_decides world).steady (start_pays world) s).trans
    ((start_decides world).ends s)

/-- From any session, with any finite input: each function of the dialogue, and the dialogue that
calls them one after the other, prompts finitely often exactly if the input answers it; and where
OpenCore is taken to exist the volume and its configuration were seen. -/
theorem prompts_finite_iff (world : World terminal) (s : Session) :
    (∀ prompt, FinitelyManyPrompts (uiConfirm terminal prompt) s ↔
        ∃ byte ∈ s.input, byte ∈ letters) ∧
      (FinitelyManyPrompts (requestOcExistingVol world) s ↔ (s.ocExisting = true →
        ∃ located m rest, Settles world s.tests s.input located m rest)) ∧
      (FinitelyManyPrompts (disksShow world) s ↔ Chosen world s.listings s.input) ∧
      (FinitelyManyPrompts (start world) s ↔ Answered world s.place) ∧
      ∀ fuel t, requestOcExistingVol world fuel s = .ok () t → t.ocExisting = true →
        Seen world s.tests t :=
  ⟨uiConfirm_finite_iff, requestOcExistingVol_finite_iff world, disksShow_finite_iff world,
    start_finite_iff world, fun _ _ => requestOcExistingVol_seen world⟩

/-- At the end of the input every part of the dialogue prompts for ever. -/
theorem no_input_endless (hinput : s.input = []) :
    (∀ prompt, ¬ FinitelyManyPrompts (uiConfirm terminal prompt) s) ∧
      (s.ocExisting = true → ¬ FinitelyManyPrompts (requestOcExistingVol world) s) ∧
      ¬ FinitelyManyPrompts (disksShow world) s ∧ ¬ FinitelyManyPrompts (start world) s := by
  refine ⟨fun prompt hfinite => ?_, fun hasked hfinite => ?_, fun hfinite => ?_, fun hfinite => ?_⟩
  · obtain ⟨byte, hmem, -⟩ := (uiConfirm_finite_iff prompt).mp hfinite
    rw [hinput] at hmem
    cases hmem
  · obtain ⟨located, m, rest, hsettles⟩ := (requestOcExistingVol_finite_iff world).mp hfinite hasked
    rw [hinput] at hsettles
    exact not_settles_nil world hsettles
  · have hchosen := (disksShow_finite_iff world).mp hfinite
    rw [hinput] at hchosen
    exact not_chosen_nil world _ hchosen
  · obtain ⟨answer, rest, hanswer, -⟩ := (start_finite_iff world).mp hfinite
    change Disks.uiConfirm s.input = _ at hanswer
    rw [hinput] at hanswer
    cases hanswer

/-- A machine with one volume and no OpenCore, and a session at the end of its input. -/
def oneVolume : World Disks.plainTerminal where
  present _ _ := false
  disks _ := Disks.unnamed [text "disk2s1"]
  dgpuvendor := []
  isdesktop := false
  present_nil _ := rfl

def atEnd : Session where
  input := []
  prompts := []
  tests := 0
  listings := 0
  ocExisting := false
  ocExistingVol := text "None"
  ocExistingConfig := []
  ocDebug := false
  nvgpu := false
  disabledgpu := false

theorem end_of_input_endless :
    (∀ prompt, ¬ FinitelyManyPrompts (uiConfirm Disks.plainTerminal prompt) atEnd) ∧
      ¬ FinitelyManyPrompts (requestOcExistingVol oneVolume) { atEnd with ocExisting := true } ∧
      ¬ FinitelyManyPrompts (disksShow oneVolume) atEnd ∧
      ¬ FinitelyManyPrompts (start oneVolume) atEnd := by
  obtain ⟨hconfirm, -, hmenu, hstart⟩ := @no_input_endless _ oneVolume atEnd rfl
  have hvolume := (@no_input_endless _ oneVolume { atEnd with ocExisting := true } rfl).2.1 rfl
  exact ⟨hconfirm, hvolume, hmenu, hstart⟩

example : unfinished (start oneVolume 2 { atEnd with input := text "nnny1y" }) = false := by
  decide +kernel

end Whole

end Dialogue

end Kryptonite
