/-
`hybrid_install.sh`: the kexts are copied into an existing OpenCore volume and
its configuration is edited in place.

Every command may fail.  A `PlistBuddy` command that fails leaves the file as it
was, and no command but `PlistBuddy` writes to the configuration.
-/
import Kryptonite.OpenCore

namespace Kryptonite

namespace HybridInstall

open Script ShellText Plists OpenCore

/-- The commands besides those of `PlistBuddy`, in the order in which they run. -/
inductive Step where
  | source
  | date
  | makeBackup
  | backupConfig
  | backupKryptonite
  | backupLilu
  | mktemp
  | makeStage
  | stageLilu
  | stageKryptonite
  | makeKexts
  | rsync
  | removeStage
  | cleanup
deriving Repr, DecidableEq

/-- The arguments, the environment variables, what the tests on files find, the
line of `ioreg` for the Thunderbolt controller and the commands that fail. -/
structure Env where
  targetRoot : Text
  hasOC : Bool
  hasConfig : Bool
  hasBuildKext : Bool
  hasLiluKext : Bool
  targetHasKryptonite : Bool
  targetHasLilu : Bool
  kryGPU : Option Text
  kryTBTV : Option Text
  kryProfile : Option Text
  kryExtraBootargs : Option Text
  kryDebug : Option Text
  ioreg : Text
  fails : Step → Bool

inductive Profile where
  | default
  | probe
  | agdcOff
  | iopciOff
  | safe
deriving Repr, DecidableEq

def Profile.parse (profile : Text) : Option Profile :=
  [(text "default", Profile.default), (text "probe", .probe), (text "agdc-off", .agdcOff),
    (text "iopci-off", .iopciOff), (text "safe", .safe)].lookup profile

def Profile.arguments : Profile → List String
  | .default => []
  | .probe => ["kryprobe=1"]
  | .agdcOff => ["kryskipagdc=1"]
  | .iopciOff => ["kryskipiopci=1"]
  | .safe => ["kryskipagdc=1", "kryskipiopci=1"]

section Script

variable {Config : Type} (options : Options) (env : Env)

/-- `set -euo pipefail` -/
def hybridOptions (emptyUnbound : Bool) : Options where
  errexit := true
  nounset := true
  emptyUnbound := emptyUnbound

def effect (step : Step) (session : Session Config) : Session Config :=
  match step with
  | .backupConfig => { session with backup := some session.config }
  | _ => session

def runStep : Step → ScriptM Config Unit := command env.fails (fun _ => 1) effect

def runSteps (steps : List Step) : ScriptM Config Unit := steps.forM (runStep env)

def exitUnless (test : Bool) : ScriptM Config Unit := if test then pure () else exitErr

/-- The usage text ends the script with status 0. -/
def usage : ScriptM Config Unit :=
  if env.targetRoot ∈ [[], text "-h", text "--help"] then throw 0 else pure ()

def checkTarget : ScriptM Config Unit := do
  usage env
  exitUnless (!contains (text "KRYPTONITE") (withoutSlash env.targetRoot))
  exitUnless env.hasOC
  exitUnless env.hasConfig
  exitUnless env.hasBuildKext
  exitUnless env.hasLiluKext

/-- `hardware_get_tbver`; an empty version ends the script, whatever the caller
does with the status. -/
def hardwareGetTbver : ScriptM Config Text := do
  let hardwareTbver := (afterLast (text "+-o AppleThunderboltNHIType") env.ioreg).take 1
  exitUnless (hardwareTbver ≠ [])
  return hardwareTbver

def thunderboltVersion : ScriptM Config Text :=
  match env.kryTBTV with
  | some (byte :: rest) => return byte :: rest
  | _ => do
      let hardwareTbver ← hardwareGetTbver env
      return orDefault (some hardwareTbver) (text "2")

def profileBootargs (kryTBT : Text) : ScriptM Config (List Text) :=
  match Profile.parse (orDefault env.kryProfile (text "default")) with
  | some profile =>
      return [text "-lilubeta", text "-krybeta",
        text "krygpu=" ++ orDefault env.kryGPU (text "AMD"), text "krytbtv=" ++ kryTBT] ++
        profile.arguments.map text
  | none => throw 1

/-- `read -r -a extra_bootargs <<< "${KRY_EXTRA_BOOTARGS}"` takes the words of the
first line. -/
def extraBootargs : ScriptM Config (List Text) :=
  match env.kryExtraBootargs with
  | some (byte :: rest) => do
      let extra := ((lines (byte :: rest)).take 1).flatMap words
      expandArray options extra
      return extra
  | _ => return []

def debugBootargs : List Text :=
  if orDefault env.kryDebug (text "0") = text "1" then
    [text "-liludbg", text "-krydbg", text "liludump=60"]
  else []

/-- The kexts of the target are backed up if it has them. -/
def backupKexts : List Step :=
  (if env.targetHasKryptonite then [.backupKryptonite] else []) ++
    (if env.targetHasLilu then [.backupLilu] else [])

/-- `resources_move_kextsonly` makes the last three steps; the directories it
tests for are there by then. -/
def stageSteps : List Step :=
  [.makeStage, .stageLilu, .stageKryptonite, .makeKexts, .rsync, .removeStage]

/-- Everything before the `EXIT` trap is set; the result is `bootargs`. -/
def prepare : ScriptM Config (List Text) := do
  runStep env .source
  checkTarget env
  let kryTBT ← thunderboltVersion env
  let bootargs ← profileBootargs env kryTBT
  let extra ← extraBootargs options env
  runSteps env [.date, .makeBackup]
  runStep env .backupConfig
  runSteps env (backupKexts env ++ [.mktemp])
  return bootargs ++ extra

variable (buddy : PlistBuddy Config) (host : Host)

def update (bootargs : List Text) : ScriptM Config Unit := do
  runSteps env stageSteps
  addKryInjections options buddy
  setBootargs options buddy host (bootargs ++ debugBootargs env)

/-- `trap 'cleanup "${tempdir}"' EXIT`: the trap runs under `errexit` as well. -/
def withCleanup (script : ScriptM Config Unit) : ScriptM Config Unit := fun session =>
  match script session with
  | .ok _ final => if env.fails .cleanup then .error 1 final else .ok () final
  | .error status final => .error (if env.fails .cleanup then 1 else status) final

def hybridInstall : ScriptM Config Unit := do
  let bootargs ← prepare options env
  withCleanup env (update options env buddy host bootargs)

def start (config : Config) : Session Config where
  config := config
  backup := none
  getval := []
  calls := 0
  looked := []
  edits := []

end Script

section Accounting

variable {Config : Type} (options : Options) (env : Env) {buddy : PlistBuddy Config}
variable (host : Host) {original : Config}

/-- What is known of the configuration wherever the script ends: it is as it was,
or the original is in the backup and the file is what the first commands of the
plan made of it.  The plan enables or injects the two kexts by where they are
found in the original, and then sets the boot arguments that are merged with
those of the file. -/
inductive Accounted (buddy : PlistBuddy Config) (original : Config) : Session Config → Prop where
  | untouched {session : Session Config} (hconfig : session.config = original) :
      Accounted buddy original session
  | injecting {session prepared found : Session Config} {bootargs : List Text} {kcount : Nat}
      {indices : Indices} (k : Nat)
      (hprepare : prepare options env (start original) = .ok bootargs prepared)
      (horiginal : prepared.config = original)
      (hfound : findKexts options buddy prepared = .ok (kcount, indices) found)
      (hconfig : applyEdits buddy found.calls original
        ((injectionEdits indices kcount).take k) = some session.config)
      (hbackup : session.backup = some original) : Accounted buddy original session
  | merged {session prepared found injected read : Session Config} {bootargs existing : List Text}
      {kcount : Nat} {indices : Indices}
      (hprepare : prepare options env (start original) = .ok bootargs prepared)
      (horiginal : prepared.config = original)
      (hfound : findKexts options buddy prepared = .ok (kcount, indices) found)
      (hinjected : addKryInjections options buddy prepared = .ok () injected)
      (hall : applyEdits buddy found.calls original (injectionEdits indices kcount) =
        some injected.config)
      (hread : getBootargs options buddy host injected = .ok existing read)
      (hconfig : buddy.edit read.calls injected.config (.set bootargsKey
        (finalArgs host existing (bootargs ++ debugBootargs env))) = some session.config)
      (hbackup : session.backup = some original) : Accounted buddy original session

section Keeps

variable {inv : Session Config → Prop}

theorem runStep_keeps {step : Step} (hstep : step ≠ .backupConfig) :
    Keeps inv (runStep env step) := by
  have heffect (session : Session Config) : effect step session = session := by
    cases step with
    | backupConfig => exact absurd rfl hstep
    | _ => rfl
  apply Triple.command
  · intro session h
    rwa [heffect]
  · exact fun _ h => h

theorem runSteps_keeps {steps : List Step} (hsteps : Step.backupConfig ∉ steps) :
    Keeps inv (runSteps env steps) := by
  apply Keeps.forM
  intro step hstep
  apply runStep_keeps
  rintro rfl
  exact hsteps hstep

theorem exitUnless_keeps (test : Bool) : Keeps inv (exitUnless test) :=
  Triple.ite (fun _ => Keeps.pure _) fun _ => Triple.throw fun _ h => h

theorem checkTarget_keeps : Keeps inv (checkTarget env) := by
  apply Keeps.bind (Triple.ite (fun _ => Triple.throw fun _ h => h) fun _ => Keeps.pure _)
  intro _
  apply Keeps.bind (exitUnless_keeps _)
  intro _
  apply Keeps.bind (exitUnless_keeps _)
  intro _
  apply Keeps.bind (exitUnless_keeps _)
  intro _
  exact Keeps.bind (exitUnless_keeps _) fun _ => exitUnless_keeps _

theorem thunderboltVersion_keeps : Keeps inv (thunderboltVersion env) := by
  unfold thunderboltVersion
  split
  · exact Keeps.pure _
  · apply Keeps.bind (Keeps.bind (exitUnless_keeps _) fun _ => Keeps.pure _)
    exact fun _ => Keeps.pure _

theorem profileBootargs_keeps (kryTBT : Text) : Keeps inv (profileBootargs env kryTBT) := by
  unfold profileBootargs
  split
  · exact Keeps.pure _
  · exact Triple.throw fun _ h => h

theorem extraBootargs_keeps : Keeps inv (extraBootargs options env) := by
  unfold extraBootargs
  split
  · exact Keeps.bind (expandArray_keeps options _) fun _ => Keeps.pure _
  · exact Keeps.pure _

end Keeps

theorem backupKexts_no_config : Step.backupConfig ∉ backupKexts env ++ [.mktemp] := by
  cases hkryptonite : env.targetHasKryptonite <;> cases hlilu : env.targetHasLilu <;>
    simp [backupKexts, hkryptonite, hlilu]

/-- The preparation backs the configuration up and does not touch it. -/
theorem prepare_backs_up :
    Triple (fun s : Session Config => s.config = original) (prepare options env)
      (fun _ s => s.config = original ∧ s.backup = some original)
      (fun _ s => s.config = original) := by
  have hbackup : Triple (fun s : Session Config => s.config = original)
      (runStep env .backupConfig) (fun _ s => s.config = original ∧ s.backup = some original)
      (fun _ s => s.config = original) := by
    apply Triple.command
    · intro s hs
      exact ⟨hs, congrArg some hs⟩
    · exact fun _ hs => hs
  apply Triple.seq (runStep_keeps env (by decide))
  apply Triple.seq (checkTarget_keeps env)
  apply Triple.bind (thunderboltVersion_keeps env)
  intro kryTBT
  apply Triple.bind (profileBootargs_keeps env kryTBT)
  intro bootargs
  apply Triple.bind (extraBootargs_keeps options env)
  intro extra
  refine Triple.seq (runSteps_keeps env (by decide)) (hbackup.seq ?_)
  refine Triple.seq ((runSteps_keeps env (backupKexts_no_config env)).weakenStop ?_) ?_
  · exact fun _ _ hs => hs.1
  · exact Triple.pure fun _ hs => hs

section Update

variable {options env host} {bootargs : List Text} {prepared : Session Config}
  (hprepare : prepare options env (start original) = .ok bootargs prepared)
  (hprepared : prepared.config = original ∧ prepared.backup = some original)

include hprepare hprepared

/-- The injections stop between two commands of the plan for the original. -/
theorem addKryInjections_accounted :
    (∃ kcount indices found injected,
        findKexts options buddy prepared = .ok (kcount, indices) found ∧
        addKryInjections options buddy prepared = .ok () injected ∧
        applyEdits buddy found.calls original (injectionEdits indices kcount) =
          some injected.config ∧
        injected.backup = some original) ∨
      ∃ status t, addKryInjections options buddy prepared = .error status t ∧
        Accounted options env host buddy original t := by
  have hkept : Keeps (fun s : Session Config => s.config = original ∧ s.backup = some original)
      (findKexts options buddy) :=
    findKexts_keeps options fun key => plistsGet_keeps options buddy key fun _ _ _ _ h => h
  cases hfound : findKexts options buddy prepared with
  | error status t =>
      have hend := hkept.endState hprepared
      rw [hfound] at hend
      exact .inr ⟨status, t, bind_of_error hfound, .untouched hend.1⟩
  | ok result found =>
      obtain ⟨kcount, indices⟩ := result
      obtain ⟨hconfig, hbackup⟩ := hkept.ok hprepared hfound
      have hrun := addKryInjections_edits hfound
      rcases forM_runEdit buddy (injectionEdits indices kcount) found with
        ⟨t, hedits, happlied, hkeptBackup⟩ | ⟨k, t, hedits, happlied, hkeptBackup⟩
      · rw [hconfig] at happlied
        exact .inl ⟨kcount, indices, found, t, rfl, hrun.trans hedits, happlied,
          hkeptBackup.trans hbackup⟩
      · rw [hconfig] at happlied
        exact .inr ⟨1, t, hrun.trans hedits, .injecting k hprepare hprepared.1 hfound happlied
          (hkeptBackup.trans hbackup)⟩

/-- Wherever the update stops, the first commands of its plan have been made. -/
theorem update_accounted :
    Accounted options env host buddy original
      (endState (update options env buddy host bootargs prepared)) := by
  have hsame : Keeps (fun s : Session Config => s = prepared) (runSteps env stageSteps) :=
    runSteps_keeps env (by decide)
  cases hsteps : runSteps env stageSteps prepared with
  | error status t =>
      have hend := hsame.endState rfl
      rw [hsteps] at hend
      rw [update, bind_of_error hsteps]
      exact .untouched ((congrArg Session.config hend).trans hprepared.1)
  | ok a t =>
      obtain rfl : t = prepared := hsame.ok rfl hsteps
      rw [update, bind_of_ok hsteps]
      rcases @addKryInjections_accounted _ options env buddy host _ _ _ hprepare hprepared with
        ⟨kcount, indices, found, injected, hfound, hinjected, hall, hbackup⟩ |
        ⟨status, u, hstopped, haccounted⟩
      · rw [bind_of_ok hinjected]
        obtain ⟨hkept, hunset | ⟨existing, read, hread, hset⟩⟩ :=
          @setBootargs_cases _ options buddy host (bootargs ++ debugBootargs env) injected
        · refine .injecting (injectionEdits indices kcount).length hprepare hprepared.1 hfound ?_
            (hkept.trans hbackup)
          rw [List.take_length, hunset]
          exact hall
        · exact .merged hprepare hprepared.1 hfound hinjected hall hread hset
            (hkept.trans hbackup)
      · rw [bind_of_error hstopped]
        exact haccounted

end Update

theorem endState_withCleanup (script : ScriptM Config Unit) (s : Session Config) :
    endState (withCleanup env script s) = endState (script s) := by
  unfold withCleanup
  cases script s with
  | ok a final =>
      cases env.fails .cleanup with
      | true => rfl
      | false => rfl
  | error status final => rfl

/-- However the script ends, the configuration is what the first commands of the
plan made of the original, and they start only once the original has been backed
up. -/
theorem hybridInstall_accounts_for_edits (emptyUnbound : Bool) (config : Config) :
    Accounted (hybridOptions emptyUnbound) env host buddy config
      (endState (hybridInstall (hybridOptions emptyUnbound) env buddy host (start config))) := by
  have hbacked := @prepare_backs_up _ (hybridOptions emptyUnbound) env config
  have hstart : (start config).config = config := rfl
  cases hprepare : prepare (hybridOptions emptyUnbound) env (start config) with
  | error status t =>
      have hend := hbacked (start config) hstart
      rw [hprepare] at hend
      rw [hybridInstall, bind_of_error hprepare]
      exact .untouched hend
  | ok bootargs prepared =>
      rw [hybridInstall, bind_of_ok hprepare, endState_withCleanup]
      exact update_accounted hprepare (hbacked.ok hstart hprepare)

end Accounting

section Bare

/-- A default run in which every command succeeds. -/
def plainEnv : Env where
  targetRoot := text "/Volumes/EFI"
  hasOC := true
  hasConfig := true
  hasBuildKext := true
  hasLiluKext := true
  targetHasKryptonite := false
  targetHasLilu := false
  kryGPU := none
  kryTBTV := some (text "2")
  kryProfile := none
  kryExtraBootargs := none
  kryDebug := none
  ioreg := []
  fails _ := false

def plainHost : Host where
  glob word := [word]
  xargs output := output

/-- A disabled entry for a bundle. -/
def disabledKext (bundle : String) : Plist :=
  .dict [("BundlePath", .string (text bundle)), ("Enabled", .bool false)]

/-- A configuration with both kexts but without boot arguments. -/
def bareConfig : Plist :=
  .dict [("Kernel", .dict [("Add",
    .array [disabledKext "Lilu.kext", disabledKext "Kryptonite.kext"])])]

def enabled (i : Nat) (config : Plist) : Bool :=
  match config.find (baseKey ++ [.index i, .name "Enabled"]) with
  | some (.bool value) => value
  | _ => false

def exitStatus {σ : Type} : EStateM.Result Nat σ Unit → Nat
  | .ok _ _ => 0
  | .error status _ => status

/-- The kexts are enabled before the missing boot arguments end the script. -/
theorem bareConfig_edited_by_failing_run :
    let run := hybridInstall (hybridOptions true) plainEnv Plist.buddy plainHost
      (start bareConfig)
    exitStatus run = 1 ∧ (endState run).config ≠ bareConfig := by
  refine ⟨by decide +kernel, ?_⟩
  intro hconfig
  have hbefore : enabled 0 bareConfig = false := by decide +kernel
  have hafter : enabled 0 (endState (hybridInstall (hybridOptions true) plainEnv Plist.buddy
      plainHost (start bareConfig))).config = true := by decide +kernel
  rw [hconfig, hbefore] at hafter
  cases hafter

end Bare

end HybridInstall

end Kryptonite
