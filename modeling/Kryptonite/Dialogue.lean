/-
The dialogue of the installer: the confirmations of `ui.sh`, the questions of
`requirements.sh` and the menu of `disks_show`.  Every function repeats itself
by recursion until it likes the answer, and none of them looks at the status of
`read`, which at the end of the input is a failure with an empty value.

A `read` counts as a prompt, whether it succeeds or not.  What the functions
print besides is left out.
-/
import Kryptonite.DiskMenu
import Kryptonite.Fuel

namespace Kryptonite

namespace Dialogue

open Script ShellText Fuel
open Disks (Terminal Primary readChar readChoice behindLine selected menuItems choose)

section Source

/-- What the machine answers: the tests `-e` and the calls of `disks_get`, in the
order in which they are made, and the details of the hardware. -/
structure World (terminal : Terminal) where
  present : Nat → Text → Bool
  disks : Nat → Primary terminal
  dgpuvendor : Text
  isdesktop : Bool
  present_nil : ∀ n, present n [] = false

/-- The input that is left, the prompts so far, how many tests and listings have
been made, and the variables of `requirements.sh`. -/
structure Session where
  input : Text
  prompts : List Text
  tests : Nat
  listings : Nat
  ocExisting : Bool
  ocExistingVol : Text
  ocExistingConfig : Text
  ocDebug : Bool
  nvgpu : Bool
  disabledgpu : Bool
deriving DecidableEq

/-- The error is the status of `exit`. -/
abbrev DialogueM := EStateM (Option Nat) Session

/-- `read -r -p` -/
def ask (prompt : Text) (read : Text → Text × Text) : DialogueM Text := fun s =>
  .ok (read s.input).1
    { s with input := (read s.input).2, prompts := s.prompts ++ [prompt] }

/-- The rest of the line, without blanks around it, and the input behind the line. -/
def readLine (input : Text) : Text × Text :=
  (((input.takeWhile (· ≠ 0x0A)).dropWhile isBlank).rdropWhile isBlank,
    behindLine input)

variable {terminal : Terminal}

/-- `${b}...${n}` -/
def bold (terminal : Terminal) (t : Text) : Text := terminal.bold ++ t ++ terminal.normal

def uiConfirm (terminal : Terminal) (prompt : Text) : Nat → DialogueM Bool
  | 0 => throw none
  | fuel + 1 => do
      let input ← ask (bold terminal prompt ++ text " [Y/N]: ") readChar
      if input = text "Y" ∨ input = text "y" then return true
      else if input = text "N" ∨ input = text "n" then return false
      else uiConfirm terminal prompt fuel

/-- `ui_confirm "..." && variable=1` -/
def confirmSets (terminal : Terminal) (prompt : Text) (assign : Session → Session) (fuel : Nat) :
    DialogueM Unit := do
  let answer ← uiConfirm terminal prompt fuel
  modify fun s => if answer then assign s else s

def requestOcExisting (terminal : Terminal) : Nat → DialogueM Unit :=
  confirmSets terminal (bold terminal (text "Are you using already using OpenCore") ++ text "?")
    fun s => { s with ocExisting := true }

def requestOcDebug (terminal : Terminal) : Nat → DialogueM Unit :=
  confirmSets terminal (bold terminal (text "Use DEBUG resources") ++ text "?")
    fun s => { s with ocDebug := true }

def requestNvgpu (terminal : Terminal) : Nat → DialogueM Unit :=
  confirmSets terminal (text "Are you using an " ++ bold terminal (text "NVIDIA eGPU") ++ text "?")
    fun s => { s with nvgpu := true }

def askDisabledgpu (terminal : Terminal) : Nat → DialogueM Unit :=
  confirmSets terminal (bold terminal (text "Disable Discrete GPU") ++ text "?")
    fun s => { s with disabledgpu := true }

variable (world : World terminal)

def requestDisabledgpu (fuel : Nat) : DialogueM Unit :=
  if world.dgpuvendor ≠ text "10de" ∨ world.isdesktop = true then pure ()
  else askDisabledgpu terminal fuel

def configPath (vol : Text) : Text := vol ++ text "/EFI/OC/config.plist"

/-- `[ -e path ]` -/
def testPresent (path : Text) : DialogueM Bool := fun s =>
  .ok (world.present s.tests path) { s with tests := s.tests + 1 }

/-- Neither `[ ! -e vol ]` nor `[ ! -e config ]`; the second is not tested if the
first holds. -/
def locate : DialogueM Bool := do
  let s ← get
  let found ← testPresent world s.ocExistingVol
  if found then testPresent world s.ocExistingConfig else return false

def readVolume (terminal : Terminal) : DialogueM Unit := do
  let vol ← ask (bold terminal (text "Disk Path") ++ text ": ") readLine
  modify fun s => { s with ocExistingVol := vol, ocExistingConfig := configPath vol }

def forgetVolume : DialogueM Unit :=
  modify fun s => { s with ocExisting := false, ocExistingVol := text "None" }

/-- `requirements_request_oc_existing_vol` -/
def requestOcExistingVol : Nat → DialogueM Unit
  | 0 => throw none
  | fuel + 1 => do
      let s ← get
      if s.ocExisting = false then return ()
      else
        readVolume terminal
        let located ← locate world
        if located then return ()
        else
          forgetVolume
          requestOcExisting terminal fuel
          requestOcExistingVol fuel

def requirementsSummarize (terminal : Terminal) (fuel : Nat) : DialogueM Unit := do
  let answer ← uiConfirm terminal (bold terminal (text "Proceed") ++ text "?") fuel
  if answer then return () else throw (some 0)

/-- `requirements_get` behind its checks of version and hardware. -/
def requirementsGet (fuel : Nat) : DialogueM Unit := do
  requestOcExisting terminal fuel
  requestOcExistingVol world fuel
  requestOcDebug terminal fuel
  requestNvgpu terminal fuel
  requestDisabledgpu world fuel
  requirementsSummarize terminal fuel

def disksGet : DialogueM (Primary terminal) := fun s =>
  .ok (world.disks s.listings) { s with listings := s.listings + 1 }

/-- `disks_format` up to the erasure: the volume to erase. -/
def disksFormat (primary : Primary terminal) (selection fuel : Nat) : DialogueM Text := do
  let answer ← uiConfirm terminal (text "Format disk?") fuel
  if answer then return primary.ids[selection]?.getD [] else throw (some 1)

/-- The prompt of `ui_menu_select`. -/
def selectPrompt (primary : Primary terminal) : Text :=
  bold terminal (text "Which disk to format?") ++ text " [1-" ++
    Disks.decimal (menuItems primary).length ++ text "]: "

/-- The ways on from the menu. -/
def act (primary : Primary terminal) (again : DialogueM Text) (fuel : Nat) :
    Disks.Choice → DialogueM Text
  | .again => again
  | .quit => throw (some 0)
  | .format selection => disksFormat primary selection fuel

def disksShow : Nat → DialogueM Text
  | 0 => throw none
  | fuel + 1 => do
      let primary ← disksGet world
      if primary.ids.length < 1 then
        -- the only prompts of such a round, so they get the fuel of the round
        let answer ← uiConfirm terminal (text "Refresh disks?") (fuel + 1)
        if answer then disksShow fuel else throw (some 1)
      else
        let input ← ask (selectPrompt primary) (readChoice (menuItems primary))
        act primary (disksShow fuel) fuel (choose primary (selected (menuItems primary) input))

/-- `begin_prep` up to the erasure: the volume to erase, and none where OpenCore exists
already. -/
def beginPrep (fuel : Nat) : DialogueM (Option Text) := do
  let s ← get
  if s.ocExisting then return none
  else
    let id ← disksShow world fuel
    return some id

/-- The dialogue of `start`. -/
def start (fuel : Nat) : DialogueM (Option Text) := do
  requirementsGet world fuel
  beginPrep world fuel

end Source

section Laws

variable {terminal : Terminal} (world : World terminal)

theorem uiConfirm_steady (prompt : Text) : Steady (uiConfirm terminal prompt) := by
  intro fuel
  induction fuel with
  | zero => exact Extends.outOfFuel _
  | succ fuel ih =>
      refine Extends.bind (.refl _) fun input => ?_
      exact Extends.ite (.refl _) (Extends.ite (.refl _) ih)

theorem confirmSets_steady (prompt : Text) (assign : Session → Session) :
    Steady (confirmSets terminal prompt assign) :=
  (uiConfirm_steady prompt).bind fun _ => Steady.const _

theorem requestOcExistingVol_steady : Steady (requestOcExistingVol world) := by
  intro fuel
  induction fuel with
  | zero => exact Extends.outOfFuel _
  | succ fuel ih =>
      refine Extends.bind (.refl _) fun s => Extends.ite (.refl _) ?_
      refine Extends.bind (.refl _) fun _ => Extends.bind (.refl _) fun located => ?_
      refine Extends.ite (.refl _) (Extends.bind (.refl _) fun _ => ?_)
      exact Extends.bind (confirmSets_steady _ _ fuel) fun _ => ih

theorem disksFormat_steady (primary : Primary terminal) (selection : Nat) :
    Steady (disksFormat primary selection) :=
  (uiConfirm_steady _).bind fun _ => Steady.const _

theorem disksShow_steady : Steady (disksShow world) := by
  intro fuel
  induction fuel with
  | zero => exact Extends.outOfFuel _
  | succ fuel ih =>
      refine Extends.bind (.refl _) fun primary => Extends.ite ?_ ?_
      · exact Extends.bind (uiConfirm_steady _ (fuel + 1)) fun answer => Extends.ite ih (.refl _)
      · refine Extends.bind (.refl _) fun input => ?_
        cases choose primary (selected (menuItems primary) input) with
        | again => exact ih
        | quit => exact .refl _
        | format selection => exact disksFormat_steady primary selection fuel

/-- How often the dialogue has prompted. -/
def Session.asked (s : Session) : Nat := s.prompts.length

theorem ask_counted (prompt : Text) (read : Text → Text × Text) (k : Nat) :
    Counted Session.asked k (ask prompt read) := by
  intro c s hs
  change c + 1 ≤ (s.prompts ++ [prompt]).length
  rw [List.length_append]
  exact Nat.add_le_add_right hs 1

/-- An assignment does not prompt. -/
theorem modify_free {f : Session → Session} (hf : ∀ s, (f s).prompts = s.prompts) (k : Nat) :
    PaysFor Session.asked k (modify f : DialogueM PUnit) :=
  PaysFor.free fun s => ⟨⟨⟩, f s, rfl, Nat.le_of_eq (congrArg List.length (hf s)).symm⟩

theorem get_free (k : Nat) : PaysFor Session.asked k (get : DialogueM Session) :=
  PaysFor.free fun s => ⟨s, s, rfl, Nat.le_refl _⟩

theorem uiConfirm_pays (prompt : Text) : Pays Session.asked (uiConfirm terminal prompt) := by
  intro fuel
  induction fuel with
  | zero => exact PaysFor.outOfFuel
  | succ fuel ih =>
      refine Counted.paysFor ((ask_counted _ _ _).bind fun input => ?_)
      exact PaysFor.ite (.pure true) (PaysFor.ite (.pure false) ih)

theorem uiConfirm_counted (prompt : Text) (fuel : Nat) :
    Counted Session.asked (fuel + 1) (uiConfirm terminal prompt (fuel + 1)) :=
  (ask_counted _ _ _).bind fun _ =>
    PaysFor.ite (.pure true) (PaysFor.ite (.pure false) (uiConfirm_pays prompt fuel))

theorem confirmSets_pays (prompt : Text) {assign : Session → Session}
    (h : ∀ s, (assign s).prompts = s.prompts) :
    Pays Session.asked (confirmSets terminal prompt assign) := by
  refine fun fuel => (uiConfirm_pays prompt fuel).bind fun answer => modify_free ?_ fuel
  intro s
  cases answer with
  | true => exact h s
  | false => rfl

theorem requestOcExisting_pays : Pays Session.asked (requestOcExisting terminal) :=
  confirmSets_pays _ fun _ => rfl

theorem requestOcDebug_pays : Pays Session.asked (requestOcDebug terminal) :=
  confirmSets_pays _ fun _ => rfl

theorem requestNvgpu_pays : Pays Session.asked (requestNvgpu terminal) :=
  confirmSets_pays _ fun _ => rfl

theorem askDisabledgpu_pays : Pays Session.asked (askDisabledgpu terminal) :=
  confirmSets_pays _ fun _ => rfl

theorem readVolume_counted (k : Nat) : Counted Session.asked k (readVolume terminal) :=
  fun c => (ask_counted _ _ k c).bind fun _ => Triple.modify fun _ hs => hs

theorem testPresent_free (path : Text) (k : Nat) :
    PaysFor Session.asked k (testPresent world path) :=
  PaysFor.free fun _ => ⟨_, _, rfl, Nat.le_refl _⟩

theorem locate_free (k : Nat) : PaysFor Session.asked k (locate world) := by
  refine (get_free k).bind fun s => (testPresent_free world _ k).bind fun found => ?_
  exact PaysFor.ite (testPresent_free world _ k) (.pure false)

theorem forgetVolume_free (k : Nat) : PaysFor Session.asked k forgetVolume :=
  modify_free (fun _ => rfl) k

theorem requestOcExistingVol_pays : Pays Session.asked (requestOcExistingVol world) := by
  intro fuel
  induction fuel with
  | zero => exact PaysFor.outOfFuel
  | succ fuel ih =>
      refine (get_free _).bind fun s => PaysFor.ite (.pure _) ?_
      refine Counted.paysFor ((readVolume_counted _).bind fun _ => ?_)
      refine (locate_free world fuel).bind fun located => PaysFor.ite (.pure _) ?_
      refine (forgetVolume_free fuel).bind fun _ => ?_
      exact (requestOcExisting_pays fuel).bind fun _ => ih

theorem disksFormat_pays (primary : Primary terminal) (selection : Nat) :
    Pays Session.asked (disksFormat primary selection) :=
  fun fuel => (uiConfirm_pays _ fuel).bind fun _ => PaysFor.ite (.pure _) (.exit 1)

theorem disksGet_free (k : Nat) : PaysFor Session.asked k (disksGet world) :=
  PaysFor.free fun _ => ⟨_, _, rfl, Nat.le_refl _⟩

theorem disksShow_pays : Pays Session.asked (disksShow world) := by
  intro fuel
  induction fuel with
  | zero => exact PaysFor.outOfFuel
  | succ fuel ih =>
      refine (disksGet_free world _).bind fun primary => PaysFor.ite ?_ ?_
      · refine Counted.paysFor ((uiConfirm_counted _ fuel).bind fun answer => ?_)
        exact PaysFor.ite ih (.exit 1)
      · refine Counted.paysFor ((ask_counted _ _ _).bind fun input => ?_)
        cases choose primary (selected (menuItems primary) input) with
        | again => exact ih
        | quit => exact .exit 0
        | format selection => exact disksFormat_pays primary selection fuel

theorem requestDisabledgpu_pays : Pays Session.asked (requestDisabledgpu world) :=
  fun fuel => PaysFor.ite (.pure _) (askDisabledgpu_pays fuel)

theorem requirementsSummarize_pays : Pays Session.asked (requirementsSummarize terminal) :=
  fun fuel => (uiConfirm_pays _ fuel).bind fun _ => PaysFor.ite (.pure _) (.exit 0)

theorem requirementsGet_pays : Pays Session.asked (requirementsGet world) := by
  intro fuel
  refine (requestOcExisting_pays fuel).bind fun _ => ?_
  refine (requestOcExistingVol_pays world fuel).bind fun _ => ?_
  refine (requestOcDebug_pays fuel).bind fun _ => ?_
  refine (requestNvgpu_pays fuel).bind fun _ => ?_
  refine (requestDisabledgpu_pays world fuel).bind fun _ => ?_
  exact requirementsSummarize_pays fuel

theorem beginPrep_pays : Pays Session.asked (beginPrep world) :=
  fun fuel => (get_free fuel).bind fun _ =>
    PaysFor.ite (.pure _) ((disksShow_pays world fuel).bind fun _ => .pure _)

theorem start_pays : Pays Session.asked (start world) :=
  fun fuel => (requirementsGet_pays world fuel).bind fun _ => beginPrep_pays world fuel

end Laws

end Dialogue

end Kryptonite
