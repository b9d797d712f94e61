/-
When the dialogue of the installer ends.  Every function of it repeats itself
until the input holds an answer, so each ends exactly if the input answers it,
and at the end of the input none of them does: `read` fails, and its empty value
is one more invalid answer.

What counts as answering is said on the input alone, without the recursion: for
a confirmation by the four letters, for the path of a volume by the rounds of
`Settles`, for the menu of the disks by those of `Chosen`.
-/
import Kryptonite.Dialogue

namespace Kryptonite

namespace Dialogue

open Script ShellText Fuel
open Disks (Terminal Primary readChar readChoice selected menuItems choose Chooses Quits)

section Confirmations

variable {terminal : Terminal} {prompt : Text} {s : Session} {fuel : Nat}

/-- The session when some prompts have taken a part of the input. -/
def Session.after (s : Session) (rest : Text) (prompts : List Text) : Session :=
  { s with input := rest, prompts := prompts }

/-- The letters that answer a confirmation. -/
def letters : Text := text "YyNn"

/-- What a character answers, if it does. -/
def reply (input : Text) : Option Bool :=
  if input = text "Y" ∨ input = text "y" then some true
  else if input = text "N" ∨ input = text "n" then some false
  else none

theorem ite_reply {α : Type} (input : Text) (replied : Bool → α) (again : α) :
    (if input = text "Y" ∨ input = text "y" then replied true
      else if input = text "N" ∨ input = text "n" then replied false
      else again) = (reply input).elim again replied := by
  rw [reply]
  by_cases hyes : input = text "Y" ∨ input = text "y"
  · simp only [if_pos hyes, Option.elim_some]
  · by_cases hno : input = text "N" ∨ input = text "n"
    · simp only [if_neg hyes, if_pos hno, Option.elim_some]
    · simp only [if_neg hyes, if_neg hno, Option.elim_none]

/-- One round of `ui_confirm`, in the dialogue and on the input alone. -/
theorem uiConfirm_round (terminal : Terminal) (prompt : Text) (s : Session) :
    ∃ prompts, ∀ fuel, uiConfirm terminal prompt (fuel + 1) s =
      (reply (readChar s.input).1).elim
        (uiConfirm terminal prompt fuel (s.after (readChar s.input).2 prompts))
        fun answer => .ok answer (s.after (readChar s.input).2 prompts) := by
  refine ⟨s.prompts ++ [bold terminal prompt ++ text " [Y/N]: "], fun fuel => ?_⟩
  have hite := ite_reply (readChar s.input).1 (pure : Bool → DialogueM Bool)
    (uiConfirm terminal prompt fuel)
  refine (congrFun hite _).trans ?_
  cases reply (readChar s.input).1 with
  | none => rfl
  | some answer => rfl

/-- At the end of the input nothing is left to be taken. -/
theorem confirm_round (input : Text) : Disks.uiConfirm input =
    (reply (readChar input).1).elim (Disks.uiConfirm (readChar input).2)
      fun answer => some (answer, (readChar input).2) := by
  cases input with
  | nil =>
      have hnone : reply (readChar []).1 = none := by decide +kernel
      rw [hnone]
      rfl
  | cons byte rest => exact ite_reply _ (fun answer => some (answer, rest)) _

theorem uiConfirm_finished (h : unfinished (uiConfirm terminal prompt fuel s) = false) :
    ∃ answer rest prompts, Disks.uiConfirm s.input = some (answer, rest) ∧
      uiConfirm terminal prompt fuel s = .ok answer (s.after rest prompts) := by
  induction fuel generalizing s with
  | zero => cases h
  | succ fuel ih =>
      obtain ⟨prompts, hround⟩ := uiConfirm_round terminal prompt s
      rw [hround] at h
      rw [hround, confirm_round]
      cases hreply : reply (readChar s.input).1 with
      | some answer => exact ⟨answer, _, prompts, rfl, rfl⟩
      | none =>
          rw [hreply] at h
          exact ih h

/-- An answer in the input is found. -/
theorem uiConfirm_returns (terminal : Terminal) (prompt : Text) {answer : Bool} {rest : Text}
    (h : Disks.uiConfirm s.input = some (answer, rest)) :
    ∃ prompts, Returns (uiConfirm terminal prompt) s answer (s.after rest prompts) := by
  -- every round takes one character, up to the one that answers
  generalize hinput : s.input = input at h
  induction input generalizing s with
  | nil => cases h
  | cons byte left ih =>
      obtain ⟨prompts, hround⟩ := uiConfirm_round terminal prompt s
      rw [hinput] at hround
      rw [confirm_round] at h
      cases hreply : reply (readChar (byte :: left)).1 with
      | some replied =>
          rw [hreply] at h hround
          cases h
          exact ⟨prompts, 1, hround 0⟩
      | none =>
          rw [hreply] at h hround
          obtain ⟨later, fuel, hlater⟩ := ih (s := s.after left prompts) rfl h
          exact ⟨later, fuel + 1, (hround fuel).trans hlater⟩

theorem uiConfirm_ends_iff : Ends (uiConfirm terminal prompt) s ↔
    ∃ answer rest, Disks.uiConfirm s.input = some (answer, rest) := by
  constructor
  · rintro ⟨fuel, hdone⟩
    obtain ⟨answer, rest, -, hanswer, -⟩ := uiConfirm_finished hdone
    exact ⟨answer, rest, hanswer⟩
  · rintro ⟨answer, rest, hanswer⟩
    obtain ⟨prompts, hreturns⟩ := uiConfirm_returns terminal prompt hanswer
    exact hreturns.ends

theorem reply_isSome_iff (byte : UInt8) (rest : Text) :
    (reply (readChar (byte :: rest)).1).isSome = true ↔ byte ∈ letters := by
  have hletters : letters = [0x59, 0x79, 0x4E, 0x6E] := by decide +kernel
  have hyes : text "Y" = [0x59] ∧ text "y" = [0x79] := by decide +kernel
  have hno : text "N" = [0x4E] ∧ text "n" = [0x6E] := by decide +kernel
  rw [hletters, reply, hyes.1, hyes.2, hno.1, hno.2, readChar]
  by_cases hblank : isBlank byte = true
  · rw [if_pos hblank]
    simp only [isBlank, Bool.or_eq_true, decide_eq_true_eq] at hblank
    rcases hblank with (rfl | rfl) | rfl <;> simp
  · rw [if_neg hblank]
    split_ifs <;> grind

theorem answered_iff (input : Text) :
    (∃ answer rest, Disks.uiConfirm input = some (answer, rest)) ↔
      ∃ byte ∈ input, byte ∈ letters := by
  induction input with
  | nil =>
      constructor
      · rintro ⟨answer, rest, hanswer⟩
        cases hanswer
      · rintro ⟨byte, hmem, -⟩
        cases hmem
  | cons byte rest ih =>
      rw [List.exists_mem_cons_iff, ← ih, ← reply_isSome_iff byte rest, confirm_round]
      cases reply (readChar (byte :: rest)).1 with
      | some answer => exact iff_of_true ⟨answer, _, rfl⟩ (.inl rfl)
      | none => exact (or_iff_right Bool.noConfusion).symm

/-- A question sets its variable exactly if the answer is yes. -/
def Session.set (assign : Session → Session) (answer : Bool) (s : Session) : Session :=
  if answer then assign s else s

theorem confirmSets_finished {assign : Session → Session}
    (h : unfinished (confirmSets terminal prompt assign fuel s) = false) :
    ∃ answer rest prompts, Disks.uiConfirm s.input = some (answer, rest) ∧
      confirmSets terminal prompt assign fuel s =
        .ok () ((s.after rest prompts).set assign answer) := by
  obtain ⟨answer, rest, prompts, hanswer, hrun⟩ := uiConfirm_finished (finished_first h)
  exact ⟨answer, rest, prompts, hanswer, bind_of_ok hrun⟩

theorem confirmSets_returns (terminal : Terminal) (prompt : Text) (assign : Session → Session)
    {answer : Bool} {rest : Text} (h : Disks.uiConfirm s.input = some (answer, rest)) :
    ∃ prompts, Returns (confirmSets terminal prompt assign) s ()
      ((s.after rest prompts).set assign answer) := by
  obtain ⟨prompts, fuel, hrun⟩ := uiConfirm_returns terminal prompt h
  exact ⟨prompts, fuel, bind_of_ok hrun⟩

end Confirmations

section Volume

variable {terminal : Terminal} (world : World terminal)

/-- The two tests of a volume, from the test `n` on. -/
def World.found (n : Nat) (vol : Text) : Bool :=
  world.present n vol && world.present (n + 1) (configPath vol)

/-- How many tests have been made behind them; the second is made only if the first succeeds. -/
def World.tested (n : Nat) (vol : Text) : Nat := if world.present n vol then n + 2 else n + 1

/-- The input answers the questions for the volume, from the path on: with the volume that is
located, the tests made by then and the input that is left. -/
inductive Settles (world : World terminal) : Nat → Text → Option Text → Nat → Text → Prop
  | located {n : Nat} {input : Text} (hfound : world.found n (readLine input).1 = true) :
      Settles world n input (some (readLine input).1) (n + 2) (readLine input).2
  | declined {n : Nat} {input rest : Text} (hmissing : world.found n (readLine input).1 = false)
      (hanswer : Disks.uiConfirm (readLine input).2 = some (false, rest)) :
      Settles world n input none (world.tested n (readLine input).1) rest
  | again {n m : Nat} {input between rest : Text} {located : Option Text}
      (hmissing : world.found n (readLine input).1 = false)
      (hanswer : Disks.uiConfirm (readLine input).2 = some (true, between))
      (hlater : Settles world (world.tested n (readLine input).1) between located m rest) :
      Settles world n input located m rest

theorem found_nil (n : Nat) : world.found n [] = false := by
  rw [World.found, world.present_nil]
  rfl

theorem not_settles_nil {n m : Nat} {located : Option Text} {rest : Text} :
    ¬ Settles world n [] located m rest := by
  intro h
  cases h with
  | located hfound =>
      change world.found n [] = true at hfound
      rw [found_nil] at hfound
      cases hfound
  | declined hmissing hanswer => cases hanswer
  | again hmissing hanswer hlater => cases hanswer

/-- What is located has passed both tests, which were the last ones. -/
theorem Settles.found {n m : Nat} {input vol rest : Text}
    (h : Settles world n input (some vol) m rest) :
    ∃ k, n ≤ k ∧ m = k + 2 ∧ world.found k vol = true := by
  generalize hlocated : some vol = located at h
  induction h with
  | located hfound =>
      cases hlocated
      exact ⟨_, Nat.le_refl _, rfl, hfound⟩
  | declined hmissing hanswer => cases hlocated
  | again hmissing hanswer hlater ih =>
      obtain ⟨k, hk, hm, hfound⟩ := ih hlocated
      refine ⟨k, Nat.le_trans ?_ hk, hm, hfound⟩
      rw [World.tested]
      split <;> omega

variable {s t : Session} {fuel : Nat}

/-- The session when the path is read and tested. -/
def Session.pathRead (world : World terminal) (s : Session) (prompts : List Text) : Session :=
  { s with
    input := (readLine s.input).2
    prompts := prompts
    tests := world.tested s.tests (readLine s.input).1
    ocExistingVol := (readLine s.input).1
    ocExistingConfig := configPath (readLine s.input).1 }

theorem get_eq (s : Session) : (get : DialogueM Session) s = .ok s s := rfl

theorem locate_eq (h : s.ocExistingConfig = configPath s.ocExistingVol) :
    locate world s = .ok (world.found s.tests s.ocExistingVol)
      { s with tests := world.tested s.tests s.ocExistingVol } := by
  have hfirst : testPresent world s.ocExistingVol s =
      .ok (world.present s.tests s.ocExistingVol) { s with tests := s.tests + 1 } := rfl
  rw [locate, bind_of_ok (get_eq s), bind_of_ok hfirst, World.found, World.tested, h]
  cases world.present s.tests s.ocExistingVol with
  | true => rfl
  | false => rfl

theorem requestOcExistingVol_unasked (h : s.ocExisting = false) (fuel : Nat) :
    requestOcExistingVol world (fuel + 1) s = .ok () s := by
  rw [requestOcExistingVol, bind_of_ok (get_eq s), if_pos h]
  rfl

/-- One round of the questions for the volume. -/
theorem requestOcExistingVol_round (h : s.ocExisting = true) :
    ∃ prompts, ∀ fuel, requestOcExistingVol world (fuel + 1) s =
      (if world.found s.tests (readLine s.input).1 then pure ()
        else do
          forgetVolume
          requestOcExisting terminal fuel
          requestOcExistingVol world fuel : DialogueM Unit) (s.pathRead world prompts) := by
  refine ⟨s.prompts ++ [bold terminal (text "Disk Path") ++ text ": "], fun fuel => ?_⟩
  have hasked : ¬ s.ocExisting = false := by
    rw [h]
    exact Bool.noConfusion
  let line := readLine s.input
  have hread : readVolume terminal s = .ok () { s with
      input := line.2, prompts := s.prompts ++ [bold terminal (text "Disk Path") ++ text ": "],
      ocExistingVol := line.1, ocExistingConfig := configPath line.1 } := rfl
  rw [requestOcExistingVol, bind_of_ok (get_eq s), if_neg hasked, bind_of_ok hread,
    bind_of_ok (locate_eq world rfl)]
  rfl

/-- The session when the path is forgotten again. -/
def Session.forgotten (s : Session) : Session :=
  { s with ocExisting := false, ocExistingVol := text "None" }

/-- The volume that a session believes in. -/
def Session.located (s : Session) : Option Text :=
  if s.ocExisting then some s.ocExistingVol else none

theorem requestOcExistingVol_located (hasked : s.ocExisting = true)
    (hfound : world.found s.tests (readLine s.input).1 = true) :
    ∃ prompts, ∀ fuel,
      requestOcExistingVol world (fuel + 1) s = .ok () (s.pathRead world prompts) := by
  obtain ⟨prompts, hround⟩ := requestOcExistingVol_round world hasked
  refine ⟨prompts, fun fuel => ?_⟩
  rw [hround, if_pos hfound]
  rfl

theorem requestOcExistingVol_missing (hasked : s.ocExisting = true)
    (hmissing : world.found s.tests (readLine s.input).1 = false) :
    ∃ prompts, ∀ fuel, requestOcExistingVol world (fuel + 1) s =
      (requestOcExisting terminal fuel >>= fun _ => requestOcExistingVol world fuel)
        (s.pathRead world prompts).forgotten := by
  obtain ⟨prompts, hround⟩ := requestOcExistingVol_round world hasked
  refine ⟨prompts, fun fuel => ?_⟩
  rw [hround, if_neg (Bool.eq_false_iff.mp hmissing)]
  rfl

/-- The session when it has been asked anew whether OpenCore is there. -/
def Session.askedAnew (world : World terminal) (s : Session) (answer : Bool) (rest : Text)
    (prompts : List Text) : Session :=
  { (s.pathRead world prompts).forgotten with input := rest, ocExisting := answer }

theorem set_eq_askedAnew (answer : Bool) (rest : Text) (prompts later : List Text) :
    ((s.pathRead world prompts).forgotten.after rest later).set
      (fun s => { s with ocExisting := true }) answer = s.askedAnew world answer rest later := by
  cases answer with
  | true => rfl
  | false => rfl

theorem requestOcExistingVol_anew {prompts later : List Text} {answer : Bool} {rest : Text}
    (hrun : requestOcExisting terminal fuel (s.pathRead world prompts).forgotten =
      .ok () (((s.pathRead world prompts).forgotten.after rest later).set
        (fun s => { s with ocExisting := true }) answer)) :
    (requestOcExisting terminal fuel >>= fun _ => requestOcExistingVol world fuel)
        (s.pathRead world prompts).forgotten =
      requestOcExistingVol world fuel (s.askedAnew world answer rest later) := by
  rw [bind_of_ok hrun, set_eq_askedAnew]

theorem pathRead_located (hasked : s.ocExisting = true) (prompts : List Text) :
    (s.pathRead world prompts).located = some (readLine s.input).1 :=
  if_pos hasked

theorem tested_of_found {n : Nat} {vol : Text} (h : world.found n vol = true) :
    world.tested n vol = n + 2 :=
  if_pos (Bool.and_eq_true_iff.mp h).1

/-- What the questions for the volume come to is what the input settles. -/
theorem requestOcExistingVol_finished (hasked : s.ocExisting = true)
    (h : unfinished (requestOcExistingVol world fuel s) = false) :
    ∃ t, requestOcExistingVol world fuel s = .ok () t ∧ t.listings = s.listings ∧
      Settles world s.tests s.input t.located t.tests t.input := by
  induction fuel generalizing s with
  | zero => cases h
  | succ fuel ih =>
      cases hfound : world.found s.tests (readLine s.input).1 with
      | true =>
          obtain ⟨prompts, hround⟩ := requestOcExistingVol_located world hasked hfound
          refine ⟨s.pathRead world prompts, hround fuel, rfl, ?_⟩
          change Settles world s.tests s.input _ (world.tested s.tests (readLine s.input).1) _
          rw [pathRead_located world hasked, tested_of_found world hfound]
          exact .located hfound
      | false =>
          obtain ⟨prompts, hround⟩ := requestOcExistingVol_missing world hasked hfound
          rw [hround] at h ⊢
          obtain ⟨answer, rest, later, hanswer, hrun⟩ := confirmSets_finished (finished_first h)
          rw [requestOcExistingVol_anew world hrun] at h ⊢
          cases answer with
          | true =>
              obtain ⟨t, hend, hlistings, hsettles⟩ := ih rfl h
              exact ⟨t, hend, hlistings, .again hfound hanswer hsettles⟩
          | false =>
              -- the function is called once more and returns at its first test
              cases fuel with
              | zero => cases h
              | succ fuel =>
                  exact ⟨_, requestOcExistingVol_unasked world rfl fuel, rfl,
                    .declined hfound hanswer⟩

/-- The questions go on after a path that locates nothing. -/
theorem requestOcExistingVol_goes_on {answer : Bool} {rest : Text} (hasked : s.ocExisting = true)
    (hmissing : world.found s.tests (readLine s.input).1 = false)
    (hanswer : Disks.uiConfirm (readLine s.input).2 = some (answer, rest)) :
    ∃ later, ∀ {t},
      Returns (requestOcExistingVol world) (s.askedAnew world answer rest later) () t →
        Returns (requestOcExistingVol world) s () t := by
  obtain ⟨prompts, hround⟩ := requestOcExistingVol_missing world hasked hmissing
  obtain ⟨later, hanew⟩ := confirmSets_returns (s := (s.pathRead world prompts).forgotten)
    terminal _ (fun s => { s with ocExisting := true }) hanswer
  rw [set_eq_askedAnew] at hanew
  refine ⟨later, fun hlater => ?_⟩
  obtain ⟨fuel, hrun⟩ := Returns.bind (q := fun _ => requestOcExistingVol world) hanew
    (confirmSets_steady _ _) hlater (requestOcExistingVol_steady world)
  exact ⟨fuel + 1, (hround fuel).trans hrun⟩

theorem requestOcExistingVol_returns {n m : Nat} {input rest : Text} {located : Option Text}
    (h : Settles world n input located m rest) (hasked : s.ocExisting = true)
    (htests : s.tests = n) (hinput : s.input = input) :
    ∃ t, Returns (requestOcExistingVol world) s () t ∧ t.listings = s.listings ∧
      t.located = located ∧ t.tests = m ∧ t.input = rest := by
  induction h generalizing s with
  | located hfound =>
      subst htests hinput
      obtain ⟨prompts, hround⟩ := requestOcExistingVol_located world hasked hfound
      exact ⟨_, ⟨1, hround 0⟩, rfl, pathRead_located world hasked prompts,
        tested_of_found world hfound, rfl⟩
  | declined hmissing hanswer =>
      subst htests hinput
      obtain ⟨later, hgoes⟩ := requestOcExistingVol_goes_on world hasked hmissing hanswer
      exact ⟨_, hgoes ⟨1, requestOcExistingVol_unasked world rfl 0⟩, rfl, rfl, rfl, rfl⟩
  | again hmissing hanswer hlater ih =>
      subst htests hinput
      obtain ⟨later, hgoes⟩ := requestOcExistingVol_goes_on world hasked hmissing hanswer
      obtain ⟨t, hreturns, ht⟩ := ih (s := s.askedAnew world true _ later) rfl rfl rfl
      exact ⟨t, hgoes hreturns, ht⟩

theorem requestOcExistingVol_ends_iff : Ends (requestOcExistingVol world) s ↔
    (s.ocExisting = true → ∃ located m rest, Settles world s.tests s.input located m rest) := by
  constructor
  · rintro ⟨fuel, hdone⟩ hasked
    obtain ⟨t, -, -, hsettles⟩ := requestOcExistingVol_finished world hasked hdone
    exact ⟨_, _, _, hsettles⟩
  · intro h
    cases hasked : s.ocExisting with
    | false => exact Returns.ends ⟨1, requestOcExistingVol_unasked world hasked 0⟩
    | true =>
        obtain ⟨located, m, rest, hsettles⟩ := h hasked
        obtain ⟨t, hreturns, -⟩ := requestOcExistingVol_returns world hsettles hasked rfl rfl
        exact hreturns.ends

end Volume

section Menu

variable {terminal : Terminal} (world : World terminal) {s : Session} {fuel : Nat}

/-- How the menu has ended. -/
def outcome : EStateM.Result (Option Nat) Session Text → Disks.Outcome
  | .ok id _ => .erase id
  | .error (some status) _ => .exit status
  | .error none _ => .waiting

theorem outcome_ne_waiting {result : EStateM.Result (Option Nat) Session Text}
    (h : unfinished result = false) : outcome result ≠ .waiting := by
  intro hwaiting
  cases result with
  | ok id t => cases hwaiting
  | error status t =>
      cases status with
      | none => cases h
      | some status => cases hwaiting

/-- The results of some calls of `disks_get`, from the call `n` on. -/
def World.listed (n rounds : Nat) : List (Primary terminal) :=
  (List.range' n rounds).map world.disks

theorem listed_succ (n rounds : Nat) :
    world.listed n (rounds + 1) = world.disks n :: world.listed (n + 1) rounds := rfl

theorem disksFormat_finished {primary : Primary terminal} {selection : Nat}
    (h : unfinished (disksFormat primary selection fuel s) = false) :
    outcome (disksFormat primary selection fuel s) =
      Disks.disksFormat primary selection s.input := by
  obtain ⟨answer, rest, prompts, hanswer, hrun⟩ := uiConfirm_finished (finished_first h)
  rw [disksFormat, bind_of_ok hrun, Disks.disksFormat, hanswer]
  cases answer with
  | true => rfl
  | false => rfl

/-- The session when the disks are listed. -/
def Session.counted (s : Session) : Session := { s with listings := s.listings + 1 }

theorem disksGet_eq (s : Session) : disksGet world s = .ok (world.disks s.listings) s.counted := rfl

/-- One round without a disk. -/
theorem disksShow_refresh (hnone : (world.disks s.listings).ids.length < 1) (fuel : Nat) :
    disksShow world (fuel + 1) s =
      (uiConfirm terminal (text "Refresh disks?") (fuel + 1) >>= fun answer =>
        if answer then disksShow world fuel else throw (some 1)) s.counted := by
  rw [disksShow, bind_of_ok (disksGet_eq world s), if_pos hnone]

/-- One round with the menu. -/
theorem disksShow_menu (hsome : ¬ (world.disks s.listings).ids.length < 1) :
    let items := menuItems (world.disks s.listings)
    ∃ prompts, ∀ fuel, disksShow world (fuel + 1) s =
      act (world.disks s.listings) (disksShow world fuel) fuel
        (choose (world.disks s.listings) (selected items (readChoice items s.input).1))
        (s.counted.after (readChoice items s.input).2 prompts) := by
  refine ⟨s.prompts ++ [selectPrompt (world.disks s.listings)], fun fuel => ?_⟩
  rw [disksShow, bind_of_ok (disksGet_eq world s), if_neg hsome]
  rfl

/-- A menu that ends does so as the list of the disks says. -/
theorem disksShow_finished (h : unfinished (disksShow world fuel s) = false) :
    outcome (disksShow world fuel s) =
      Disks.disksShow (world.listed s.listings fuel) s.input := by
  induction fuel generalizing s with
  | zero => cases h
  | succ fuel ih =>
      rw [listed_succ, Disks.disksShow]
      by_cases hnone : (world.disks s.listings).ids.length < 1
      · rw [disksShow_refresh world hnone] at h ⊢
        obtain ⟨answer, rest, prompts, hanswer, hrun⟩ := uiConfirm_finished (finished_first h)
        change Disks.uiConfirm s.input = _ at hanswer
        rw [bind_of_ok hrun] at h ⊢
        rw [if_pos hnone, hanswer]
        cases answer with
        | true => exact ih h
        | false => rfl
      · obtain ⟨prompts, hround⟩ := disksShow_menu world hnone
        rw [hround] at h ⊢
        rw [if_neg hnone]
        cases hchoice : choose (world.disks s.listings)
            (selected (menuItems (world.disks s.listings))
              (readChoice (menuItems (world.disks s.listings)) s.input).1) with
        | again =>
            rw [hchoice] at h
            simp only [hchoice]
            exact ih h
        | quit => 
            simp only [hchoice]
            rfl
        | format selection =>
            rw [hchoice] at h
            simp only [hchoice]
            exact disksFormat_finished h

theorem disksFormat_ends_iff (primary : Primary terminal) (selection : Nat) (input : Text) :
    Disks.disksFormat primary selection input ≠ .waiting ↔ ∃ letter ∈ input, letter ∈ letters := by
  rw [← answered_iff, Disks.disksFormat]
  cases Disks.uiConfirm input with
  | none => simp
  | some answered =>
      obtain ⟨answer, rest⟩ := answered
      cases answer with
      | true => simp
      | false => simp

theorem disksFormat_ends {primary : Primary terminal} {selection : Nat}
    (h : Disks.disksFormat primary selection s.input ≠ .waiting) :
    Ends (disksFormat primary selection) s := by
  obtain ⟨answer, rest, hanswer⟩ :=
    (answered_iff s.input).mpr ((disksFormat_ends_iff primary selection s.input).mp h)
  obtain ⟨prompts, hreturns⟩ := uiConfirm_returns terminal (text "Format disk?") hanswer
  refine hreturns.bind_ends (uiConfirm_steady _) ?_ (Steady.const _)
  cases answer with
  | true => exact ⟨0, rfl⟩
  | false => exact ⟨0, rfl⟩

/-- Without a disk the list of the disks ends only by an answer. -/
theorem answered_of_no_disk {primary : Primary terminal} {later : List (Primary terminal)}
    {input : Text} (hnone : primary.ids.length < 1)
    (h : Disks.disksShow (primary :: later) input ≠ .waiting) :
    ∃ answer rest, Disks.uiConfirm input = some (answer, rest) ∧
      (answer = true → Disks.disksShow later rest ≠ .waiting) := by
  rw [Disks.disksShow, if_pos hnone] at h
  cases hanswer : Disks.uiConfirm input with
  | none =>
      rw [hanswer] at h
      exact absurd rfl h
  | some answered =>
      obtain ⟨answer, rest⟩ := answered
      rw [hanswer] at h
      refine ⟨answer, rest, rfl, ?_⟩
      rintro rfl
      exact h

theorem disksShow_ends_refresh {answer : Bool} {rest : Text}
    (hnone : (world.disks s.listings).ids.length < 1)
    (hanswer : Disks.uiConfirm s.input = some (answer, rest))
    (hlater : answer = true → ∀ prompts, Ends (disksShow world) (s.counted.after rest prompts)) :
    Ends (disksShow world) s := by
  let next (answer : Bool) (fuel : Nat) : DialogueM Text :=
    if answer then disksShow world fuel else throw (some 1)
  have hsteady := @uiConfirm_steady terminal (text "Refresh disks?")
  obtain ⟨prompts, hreturns⟩ :=
    uiConfirm_returns (s := s.counted) terminal (text "Refresh disks?") hanswer
  have hnext : Ends (next answer) (s.counted.after rest prompts) ∧ Steady (next answer) := by
    cases answer with
    | true => exact ⟨hlater rfl prompts, disksShow_steady world⟩
    | false => exact ⟨⟨0, rfl⟩, Steady.const _⟩
  obtain ⟨fuel, hdone⟩ := (hreturns.succ hsteady).bind_ends hsteady.succ hnext.1 hnext.2
  refine ⟨fuel + 1, ?_⟩
  rw [disksShow_refresh world hnone]
  exact hdone

/-- The menu ends if it does so for the list of the disks. -/
theorem disksShow_ends {rounds : Nat}
    (h : Disks.disksShow (world.listed s.listings rounds) s.input ≠ .waiting) :
    Ends (disksShow world) s := by
  induction rounds generalizing s with
  | zero => exact absurd rfl h
  | succ rounds ih =>
      rw [listed_succ] at h
      by_cases hnone : (world.disks s.listings).ids.length < 1
      · obtain ⟨answer, rest, hanswer, hlater⟩ := answered_of_no_disk hnone h
        exact disksShow_ends_refresh world hnone hanswer fun hyes prompts =>
          ih (s := s.counted.after rest prompts) (hlater hyes)
      · rw [Disks.disksShow, if_neg hnone] at h
        obtain ⟨prompts, hround⟩ := disksShow_menu world hnone
        cases hchoice : choose (world.disks s.listings)
            (selected (menuItems (world.disks s.listings))
              (readChoice (menuItems (world.disks s.listings)) s.input).1) with
        | again =>
            simp only [hchoice] at h hround
            obtain ⟨fuel, hdone⟩ := ih (s := s.counted.after _ prompts) h
            exact ⟨fuel + 1, (congrArg unfinished (hround fuel)).trans hdone⟩
        | quit =>
            simp only [hchoice] at hround
            exact ⟨1, congrArg unfinished (hround 0)⟩
        | format selection =>
            simp only [hchoice] at h hround
            obtain ⟨fuel, hdone⟩ := disksFormat_ends (s := s.counted.after _ prompts) h
            exact ⟨fuel + 1, (congrArg unfinished (hround fuel)).trans hdone⟩

/-- The input answers the menu, from the listing `n` on: by the confirmation where no disk is
found, and by a digit where the menu has fewer than ten items. -/
inductive Chosen (world : World terminal) : Nat → Text → Prop
  | stopped {n : Nat} {input rest : Text} (hnone : (world.disks n).ids.length < 1)
      (hanswer : Disks.uiConfirm input = some (false, rest)) : Chosen world n input
  | refreshed {n : Nat} {input rest : Text} (hnone : (world.disks n).ids.length < 1)
      (hanswer : Disks.uiConfirm input = some (true, rest)) (hlater : Chosen world (n + 1) rest) :
      Chosen world n input
  | quit {n : Nat} {byte : UInt8} {rest : Text} (hsome : 1 ≤ (world.disks n).ids.length)
      (hfew : (world.disks n).ids.length < 8) (hquits : Quits (world.disks n).ids.length byte) :
      Chosen world n (byte :: rest)
  | confirmed {n : Nat} {byte : UInt8} {rest : Text} (hsome : 1 ≤ (world.disks n).ids.length)
      (hfew : (world.disks n).ids.length < 8) (hchooses : Chooses (world.disks n).ids.length byte)
      (hanswer : ∃ letter ∈ rest, letter ∈ letters) : Chosen world n (byte :: rest)
  | passed {n : Nat} {byte : UInt8} {rest : Text} (hsome : 1 ≤ (world.disks n).ids.length)
      (hfew : (world.disks n).ids.length < 8)
      (hchooses : ¬ Chooses (world.disks n).ids.length byte)
      (hquits : ¬ Quits (world.disks n).ids.length byte) (hlater : Chosen world (n + 1) rest) :
      Chosen world n (byte :: rest)
  | unread {n : Nat} {input : Text} (hmany : 8 ≤ (world.disks n).ids.length)
      (hlater : Chosen world (n + 1) (Disks.behindLine input)) : Chosen world n input

theorem not_chosen_nil (n : Nat) : ¬ Chosen world n [] := by
  intro h
  generalize hinput : ([] : Text) = input at h
  induction h with
  | stopped hnone hanswer =>
      subst hinput
      cases hanswer
  | refreshed hnone hanswer hlater ih =>
      subst hinput
      cases hanswer
  | quit hsome hfew hquits => cases hinput
  | confirmed hsome hfew hchooses hanswer => cases hinput
  | passed hsome hfew hchooses hquits hlater ih => cases hinput
  | unread hmany hlater ih =>
      subst hinput
      exact ih rfl

theorem Chosen.ends {n : Nat} {input : Text} (h : Chosen world n input) :
    ∃ rounds, Disks.disksShow (world.listed n rounds) input ≠ .waiting := by
  induction h with
  | stopped hnone hanswer =>
      refine ⟨1, ?_⟩
      rw [listed_succ, Disks.disksShow, if_pos hnone, hanswer]
      exact Disks.Outcome.noConfusion
  | refreshed hnone hanswer hlater ih =>
      obtain ⟨rounds, hrounds⟩ := ih
      refine ⟨rounds + 1, ?_⟩
      rw [listed_succ, Disks.disksShow, if_pos hnone, hanswer]
      exact hrounds
  | quit hsome hfew hquits =>
      refine ⟨1, ?_⟩
      rw [listed_succ, Disks.disksShow_char hsome hfew, if_neg hquits.not_chooses, if_pos hquits]
      exact Disks.Outcome.noConfusion
  | confirmed hsome hfew hchooses hanswer =>
      refine ⟨1, ?_⟩
      rw [listed_succ, Disks.disksShow_char hsome hfew, if_pos hchooses]
      exact (disksFormat_ends_iff _ _ _).mpr hanswer
  | passed hsome hfew hchooses hquits hlater ih =>
      obtain ⟨rounds, hrounds⟩ := ih
      refine ⟨rounds + 1, ?_⟩
      rw [listed_succ, Disks.disksShow_char hsome hfew, if_neg hchooses, if_neg hquits]
      exact hrounds
  | unread hmany hlater ih =>
      obtain ⟨rounds, hrounds⟩ := ih
      refine ⟨rounds + 1, ?_⟩
      rw [listed_succ, Disks.disksShow_unread hmany]
      exact hrounds

theorem chosen_of_rounds {n rounds : Nat} {input : Text}
    (h : Disks.disksShow (world.listed n rounds) input ≠ .waiting) : Chosen world n input := by
  induction rounds generalizing n input with
  | zero => exact absurd rfl h
  | succ rounds ih =>
      rw [listed_succ] at h
      by_cases hnone : (world.disks n).ids.length < 1
      · obtain ⟨answer, rest, hanswer, hlater⟩ := answered_of_no_disk hnone h
        cases answer with
        | true => exact .refreshed hnone hanswer (ih (hlater rfl))
        | false => exact .stopped hnone hanswer
      have hsome : 1 ≤ (world.disks n).ids.length := Nat.not_lt.mp hnone
      by_cases hfew : (world.disks n).ids.length < 8
      · cases input with
        | nil =>
            rw [Disks.disksShow_nil hsome] at h
            exact absurd (ih h) (not_chosen_nil world (n + 1))
        | cons byte rest =>
            rw [Disks.disksShow_char hsome hfew] at h
            by_cases hchooses : Chooses (world.disks n).ids.length byte
            · rw [if_pos hchooses] at h
              exact .confirmed hsome hfew hchooses ((disksFormat_ends_iff _ _ _).mp h)
            by_cases hquits : Quits (world.disks n).ids.length byte
            · exact .quit hsome hfew hquits
            rw [if_neg hchooses, if_neg hquits] at h
            exact .passed hsome hfew hchooses hquits (ih h)
      · have hmany : 8 ≤ (world.disks n).ids.length := Nat.not_lt.mp hfew
        rw [Disks.disksShow_unread hmany] at h
        exact .unread hmany (ih h)

theorem disksShow_ends_iff : Ends (disksShow world) s ↔ Chosen world s.listings s.input := by
  constructor
  · rintro ⟨fuel, hdone⟩
    have hrounds := outcome_ne_waiting hdone
    rw [disksShow_finished world hdone] at hrounds
    exact chosen_of_rounds world hrounds
  · intro h
    obtain ⟨rounds, hrounds⟩ := h.ends
    exact disksShow_ends world hrounds

end Menu

end Dialogue

end Kryptonite
