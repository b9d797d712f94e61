/-
The scripts that rewrite the boot arguments of an EFI configuration as a whole:
the two preparation scripts of a validation boot, the rollback they advertise
and `set_efi_boot_args.sh`.

`PlistBuddy` is used on one entry only; `EntryTool` is what it does there, and
`Lawful` says how it treats a value whose words need no quoting.
-/
import Kryptonite.OpenCore

namespace Kryptonite

namespace EfiBootArgs

open Script ShellText Plists
open OpenCore (bootargsKey bootArgsConfig)

/-- `PlistBuddy` on the entry of the boot arguments: the output of a `Print` that
succeeds, the file after a `Delete` and after an `Add` that succeed. -/
structure EntryTool (Config : Type) where
  print : Config → Option Text
  delete : Config → Option Config
  add : Config → Text → Option Config

/-- What the tests on files find, the status of the scripts that are run and
whether `cp` can make the backup. -/
structure Env (Config : Type) where
  scriptDir : Text
  isDirectory : Text → Bool
  isFile : Text → Bool
  run : Text → List Text → Nat
  copies : Config → Bool

/-- The configuration and its backups, the latest first. -/
structure Efi (Config : Type) where
  config : Config
  backups : List Config

/-- The error is the status the script exits with. -/
abbrev EfiM (Config : Type) := EStateM Nat (Efi Config)

def amfiArg : Text := text "amfi_get_out_of_my_way=0x1"

def helpFlags : List Text := [text "-h", text "--help"]

section Values

/-- The loop over the tokens: those of the given name are dropped. -/
def dropNamed (name : Text) (tokens : List Text) : Text :=
  tokens.foldl
    (fun kept token => if beforeEquals token = name then kept else kept ++ 0x20 :: token) []

/-- The same loop where it also records whether a token was dropped. -/
def removeNamed (name : Text) (tokens : List Text) : Text × Bool :=
  tokens.foldl
    (fun (kept, removed) token =>
      if beforeEquals token = name then (kept, true) else (kept ++ 0x20 :: token, removed))
    ([], false)

/-- `updated_bootargs` of the preparation scripts. -/
def updatedBootargs (current : Text) : Text :=
  squeeze (dropNamed (beforeEquals amfiArg) (words current) ++ 0x20 :: amfiArg)

/-- `for TOKEN in $CUR`: zsh does not split the expansion, an empty one is no
word at all. -/
def unsplit (t : Text) : List Text := if t = [] then [] else [t]

/-- One round of the loop over the arguments. -/
def rewriteArgument (current arg : Text) : Text :=
  dropNamed (beforeEquals arg) (unsplit current) ++ 0x20 :: arg

/-- The value that `set_efi_boot_args.sh` writes. -/
def newBootArgs (current : Text) (args : List Text) : Text :=
  squeeze (args.foldl rewriteArgument current)

end Values

section Scripts

variable {Config : Type} (tool : EntryTool Config) (env : Env Config)

def exitUnless (test : Bool) (status : Nat) : EfiM Config Unit :=
  if test then pure () else throw status

/-- `$(PlistBuddy -c "Print ..." 2>/dev/null || true)` -/
def EntryTool.bootArgs (config : Config) : Text := stripNewlines ((tool.print config).getD [])

def readBootArgs : EfiM Config Text := do
  return tool.bootArgs (← get).config

def backupConfig : EfiM Config Unit := fun efi =>
  if env.copies efi.config then .ok () { efi with backups := efi.config :: efi.backups }
  else .error 1 efi

/-- `Delete ... || true` -/
def deleteEntry : EfiM Config Unit :=
  modify fun efi => { efi with config := (tool.delete efi.config).getD efi.config }

def addEntry (value : Text) : EfiM Config Unit := fun efi =>
  match tool.add efi.config value with
  | some config => .ok () { efi with config }
  | none => .error 1 efi

def printEntry : EfiM Config Unit := fun efi =>
  if (tool.print efi.config).isSome then .ok () efi else .error 1 efi

/-- The end of all these scripts: back up, delete, add, print. -/
def writeBootArgs (value : Text) : EfiM Config Unit := do
  backupConfig env
  deleteEntry tool
  addEntry tool value
  printEntry tool

/-- `zsh "$SCRIPT" ...` under `set -e` -/
def runScript (call : Text × List Text) : EfiM Config Unit :=
  let status := env.run call.1 call.2
  exitUnless (status = 0) status

/-- What one preparation script adds to the common part: how many arguments it
takes, the scripts it looks for and those it runs, by their names. -/
structure Preparation where
  maxArgs : Nat
  required : List Text
  overlays : (target : Text) → (args : List Text) → List (Text × List Text)

def prepareValidation (prep : Preparation) (args : List Text) : EfiM Config Unit := do
  let target := withoutSlash (args.getD 0 [])
  let cfg := args.getD 1 []
  exitUnless (args.getD 0 [] ∉ helpFlags ∧ 2 ≤ args.length ∧ args.length ≤ prep.maxArgs) 0
  exitUnless (env.isDirectory target) 1
  exitUnless (env.isFile cfg) 1
  prep.required.forM fun script => exitUnless (env.isFile (env.scriptDir ++ script)) 1
  let current ← readBootArgs tool
  (prep.overlays target args).forM fun (script, args) =>
    runScript env (env.scriptDir ++ script, args)
  writeBootArgs tool env (updatedBootargs current)

def scanoutScript : Text := text "/apply_sequoia_polaris_scanout_align_overlay.sh"

def auxScript : Text := text "/enable_sequoia_polaris_accel_kc.sh"

def bronzeScript : Text := text "/apply_sequoia_polaris_modern_bronze_bmi_hotfix_overlay.sh"

def modernScript : Text := text "/apply_sequoia_polaris_modern_userland_bmi_hotfix_overlay.sh"

def disableScript : Text := text "/disable_efi_amfi_lv_validation.sh"

/-- `prepare_sequoia_polaris_modern_bronze_isolation_validation.sh` -/
def bronzeIsolation : Preparation where
  maxArgs := 5
  required := [scanoutScript, auxScript, bronzeScript, disableScript]
  overlays target args :=
    let bronzeCompatRoot := orDefault args[2]? (text "/tmp/oclp-universal/12.5-23")
    let amdSharedCompatRoot := orDefault args[3]? (text "/tmp/oclp-universal/12.5")
    let modernPayloadRoot := orDefault args[4]? (text "/tmp/oclp-universal/13.5.2")
    [(scanoutScript, [target, bronzeCompatRoot, amdSharedCompatRoot, modernPayloadRoot]),
      (auxScript, [target, modernPayloadRoot]), (bronzeScript, [target, modernPayloadRoot])]

/-- `prepare_sequoia_polaris_modern_userland_amfi_validation.sh` -/
def userlandAmfi : Preparation where
  maxArgs := 3
  required := [modernScript]
  overlays target args :=
    let payloadRoot := orDefault args[2]? (text "/tmp/oclp-universal/13.5.2")
    [(modernScript, [target, payloadRoot])]

/-- `exit 0` where nothing is to be removed. -/
def removeBootArg (current : Text) : EfiM Config Unit :=
  let (filtered, removed) := removeNamed (beforeEquals amfiArg) (words current)
  if current = [] then throw 0
  else if !removed then throw 0
  else writeBootArgs tool env (squeeze filtered)

/-- `disable_efi_amfi_lv_validation.sh` -/
def disableValidation (args : List Text) : EfiM Config Unit := do
  exitUnless (args.getD 0 [] ∉ helpFlags ∧ args.length = 1) 0
  exitUnless (env.isFile (args.getD 0 [])) 1
  let current ← readBootArgs tool
  removeBootArg tool env current

/-- `set_efi_boot_args.sh` -/
def setEfiBootArgs (args : List Text) : EfiM Config Unit := do
  exitUnless (2 ≤ args.length) 1
  exitUnless (env.isFile (args.getD 0 [])) 1
  let current ← readBootArgs tool
  writeBootArgs tool env (newBootArgs current (args.drop 1))

end Scripts

section Tokens

theorem dropNamed_eq (name : Text) (tokens : List Text) :
    dropNamed name tokens = spaced (tokens.filter fun token => beforeEquals token ≠ name) := by
  have hloop : ∀ kept, tokens.foldl
      (fun kept token => if beforeEquals token = name then kept else kept ++ 0x20 :: token) kept =
        kept ++ spaced (tokens.filter fun token => beforeEquals token ≠ name) := by
    induction tokens with
    | nil => simp [spaced]
    | cons token tokens ih =>
        intro kept
        by_cases hname : beforeEquals token = name
        · simp [hname, ih]
        · simp [hname, ih, spaced]
  exact hloop []

theorem removeNamed_eq (name : Text) (tokens : List Text) :
    removeNamed name tokens =
      (dropNamed name tokens, tokens.any fun token => beforeEquals token = name) := by
  have hloop : ∀ kept removed, tokens.foldl
      (fun (kept, removed) token =>
        if beforeEquals token = name then (kept, true) else (kept ++ 0x20 :: token, removed))
      (kept, removed) =
        (tokens.foldl (fun kept token =>
          if beforeEquals token = name then kept else kept ++ 0x20 :: token) kept,
          removed || tokens.any fun token => beforeEquals token = name) := by
    induction tokens with
    | nil => simp
    | cons token tokens ih =>
        intro kept removed
        by_cases hname : beforeEquals token = name
        · simp [hname, ih]
        · simp [hname, ih]
  have hrun := hloop [] false
  rw [Bool.false_or] at hrun
  exact hrun

/-- The tokens other than the temporary argument. -/
def keptTokens (tokens : List Text) : List Text :=
  tokens.filter fun token => beforeEquals token ≠ beforeEquals amfiArg

theorem updatedBootargs_eq (current : Text) :
    updatedBootargs current = joinWords (keptTokens (words current) ++ [amfiArg]) := by
  have htokens : ∀ w ∈ keptTokens (words current) ++ [amfiArg], Token w := by
    intro w hw
    rcases List.mem_append.mp hw with hkept | harg
    · exact token_of_mem_words (List.mem_of_mem_filter hkept)
    · rw [List.mem_singleton.mp harg]
      decide +kernel
  rw [← squeeze_spaced htokens, updatedBootargs, dropNamed_eq]
  simp [spaced, keptTokens]

end Tokens

section Rollback

variable {Config : Type} {tool : EntryTool Config} {env : Env Config}

/-- A word that `PlistBuddy` takes as it is: no quotes and no backslashes. -/
def Plain (w : Text) : Prop := Token w ∧ ∀ byte ∈ w, byte ∉ [0x22, 0x27, 0x5C]

instance (w : Text) : Decidable (Plain w) := inferInstanceAs (Decidable (_ ∧ _))

/-- How `PlistBuddy` treats plain words. -/
structure EntryTool.Lawful (tool : EntryTool Config) : Prop where
  print_add {config new : Config} {ws : List Text} : (∀ w ∈ ws, Plain w) →
    tool.add config (joinWords ws) = some new → tool.print new = some (joinWords ws ++ [0x0A])
  delete_isSome {config : Config} : (tool.print config).isSome = true →
    (tool.delete config).isSome = true
  add_isSome {config rest : Config} {ws : List Text} : tool.delete config = some rest →
    (∀ w ∈ ws, Plain w) → (tool.add rest (joinWords ws)).isSome = true

/-- The tokens of the boot arguments; there are none if the entry is missing. -/
def EntryTool.tokens (tool : EntryTool Config) (config : Config) : List Text :=
  words (tool.bootArgs config)

theorem EntryTool.Lawful.tokens_add (lawful : tool.Lawful) {config new : Config}
    {ws : List Text} (hplain : ∀ w ∈ ws, Plain w)
    (h : tool.add config (joinWords ws) = some new) : tool.tokens new = ws := by
  rw [tokens, bootArgs, lawful.print_add hplain h, Option.getD_some, words_stripNewlines,
    words_append_blank rfl, words_nil, List.append_nil]
  exact words_joinWords fun w hw => (hplain w hw).1

theorem exitUnless_eq_ok {test : Bool} {status : Nat} {s t : Efi Config} {a : Unit}
    (h : exitUnless test status s = .ok a t) : test = true ∧ t = s := by
  cases test with
  | true =>
      cases h
      exact ⟨rfl, rfl⟩
  | false => cases h

theorem writeBootArgs_eq_ok {value : Text} {s t : Efi Config} {a : Unit}
    (h : writeBootArgs tool env value s = .ok a t) :
    tool.add ((tool.delete s.config).getD s.config) value = some t.config ∧
      t.backups = s.config :: s.backups := by
  obtain ⟨_, u, hbackup, h⟩ := bind_eq_ok h
  obtain ⟨_, v, hdelete, h⟩ := bind_eq_ok h
  obtain ⟨_, w, hadd, h⟩ := bind_eq_ok h
  have hu : u = ⟨s.config, s.config :: s.backups⟩ := by
    unfold backupConfig at hbackup
    split at hbackup <;> cases hbackup
    rfl
  have hv : v = { u with config := (tool.delete u.config).getD u.config } := by
    cases hdelete
    rfl
  have ht : t = w := by
    unfold printEntry at h
    split at h <;> cases h
    rfl
  subst hu hv ht
  unfold addEntry at hadd
  split at hadd
  · rename_i config hconfig
    cases hadd
    exact ⟨hconfig, rfl⟩
  · cases hadd

/-- With an entry to delete and a backup made, plain words get written. -/
theorem writeBootArgs_completes (lawful : tool.Lawful) {s : Efi Config} {ws : List Text}
    (hplain : ∀ w ∈ ws, Plain w) (hprint : (tool.print s.config).isSome = true)
    (hcopies : env.copies s.config = true) :
    ∃ config, writeBootArgs tool env (joinWords ws) s =
      .ok () ⟨config, s.config :: s.backups⟩ ∧ tool.tokens config = ws := by
  obtain ⟨rest, hrest⟩ := Option.isSome_iff_exists.mp (lawful.delete_isSome hprint)
  obtain ⟨config, hconfig⟩ := Option.isSome_iff_exists.mp (lawful.add_isSome hrest hplain)
  refine ⟨config, ?_, lawful.tokens_add hplain hconfig⟩
  have hbackup : backupConfig env s = .ok () ⟨s.config, s.config :: s.backups⟩ := by
    simp only [backupConfig, hcopies, if_true]
  have hdelete : deleteEntry tool ⟨s.config, s.config :: s.backups⟩ =
      .ok () ⟨(tool.delete s.config).getD s.config, s.config :: s.backups⟩ := rfl
  rw [hrest, Option.getD_some] at hdelete
  have hadd : addEntry tool (joinWords ws) ⟨rest, s.config :: s.backups⟩ =
      .ok () ⟨config, s.config :: s.backups⟩ := by
    simp only [addEntry, hconfig]
  rw [writeBootArgs, bind_of_ok hbackup, bind_of_ok hdelete, bind_of_ok hadd]
  simp only [printEntry, lawful.print_add hplain hconfig, Option.isSome_some, if_true]

theorem exitUnless_keeps {inv : Efi Config → Prop} (test : Bool) (status : Nat) :
    Keeps inv (exitUnless test status) :=
  Triple.ite (fun _ => Keeps.pure _) fun _ => Triple.throw fun _ h => h

/-- A loop of tests leaves the configuration and its backups alone. -/
theorem eq_of_forM_keeps {γ : Type} {xs : List γ} {f : γ → EfiM Config Unit}
    (hf : ∀ x (inv : Efi Config → Prop), Keeps inv (f x)) {s t : Efi Config} {a : Unit}
    (h : xs.forM f s = .ok a t) : t = s :=
  Triple.ok (Keeps.forM fun x _ => hf x (· = s)) rfl h

theorem prepareValidation_eq_ok {prep : Preparation} {args : List Text} {s t : Efi Config}
    {a : Unit} (h : prepareValidation tool env prep args s = .ok a t) :
    env.isFile (args.getD 1 []) = true ∧
      writeBootArgs tool env (updatedBootargs (tool.bootArgs s.config)) s = .ok a t := by
  obtain ⟨_, _, husage, htests⟩ := bind_eq_ok h
  obtain ⟨_, _, htarget, hchecks⟩ := bind_eq_ok htests
  obtain ⟨_, _, hcfg, hscripts⟩ := bind_eq_ok hchecks
  obtain ⟨_, _, hrequired, hread⟩ := bind_eq_ok hscripts
  obtain ⟨_, _, hcurrent, hrun⟩ := bind_eq_ok hread
  obtain ⟨_, _, hoverlays, hwrite⟩ := bind_eq_ok hrun
  obtain ⟨-, rfl⟩ := exitUnless_eq_ok husage
  obtain ⟨-, rfl⟩ := exitUnless_eq_ok htarget
  obtain ⟨hfile, rfl⟩ := exitUnless_eq_ok hcfg
  obtain rfl := eq_of_forM_keeps (fun _ _ => exitUnless_keeps _ _) hrequired
  cases hcurrent
  obtain rfl := eq_of_forM_keeps (fun _ _ => exitUnless_keeps _ _) hoverlays
  exact ⟨hfile, hwrite⟩

/-- The rollback past its tests. -/
theorem disableValidation_eq {cfg : Text} (hcfg : cfg ∉ helpFlags)
    (hfile : env.isFile cfg = true) (s : Efi Config) :
    disableValidation tool env [cfg] s = removeBootArg tool env (tool.bootArgs s.config) s := by
  have husage : decide ([cfg].getD 0 [] ∉ helpFlags ∧ [cfg].length = 1) = true := by
    simpa using hcfg
  have hhelp : exitUnless (decide ([cfg].getD 0 [] ∉ helpFlags ∧ [cfg].length = 1)) 0 s =
      .ok () s := by
    rw [husage]
    rfl
  have hexists : exitUnless (env.isFile ([cfg].getD 0 [])) 1 s = .ok () s := by
    change exitUnless (env.isFile cfg) 1 s = _
    rw [hfile]
    rfl
  rw [disableValidation, bind_of_ok hhelp, bind_of_ok hexists]
  rfl

theorem removeBootArg_eq (current : Text) :
    removeBootArg tool env current =
      if beforeEquals amfiArg ∈ (words current).map beforeEquals then
        writeBootArgs tool env (joinWords (keptTokens (words current)))
      else throw 0 := by
  have hfiltered : squeeze (dropNamed (beforeEquals amfiArg) (words current)) =
      joinWords (keptTokens (words current)) := by
    rw [dropNamed_eq]
    exact squeeze_spaced fun w hw => token_of_mem_words (List.mem_of_mem_filter hw)
  simp only [removeBootArg, removeNamed_eq, hfiltered]
  by_cases hempty : current = []
  · simp [hempty]
  by_cases hnamed : beforeEquals amfiArg ∈ (words current).map beforeEquals
  · have hany : (words current).any (fun token => beforeEquals token = beforeEquals amfiArg) =
        true := by
      obtain ⟨w, hw, hname⟩ := List.mem_map.mp hnamed
      exact List.any_eq_true.mpr ⟨w, hw, by simpa using hname⟩
    simp [hempty, hnamed, hany]
  · have hany : (words current).any (fun token => beforeEquals token = beforeEquals amfiArg) =
        false := by
      apply List.any_eq_false.mpr
      intro w hw hname
      exact hnamed (List.mem_map.mpr ⟨w, hw, by simpa using hname⟩)
    simp [hempty, hnamed, hany]

theorem plain_amfiArg : Plain amfiArg := by
  decide +kernel

theorem keptTokens_append_amfiArg (tokens : List Text) :
    keptTokens (keptTokens tokens ++ [amfiArg]) = keptTokens tokens := by
  simp [keptTokens]

theorem name_not_mem_keptTokens (tokens : List Text) :
    beforeEquals amfiArg ∉ (keptTokens tokens).map beforeEquals := by
  intro hmem
  obtain ⟨w, hw, hname⟩ := List.mem_map.mp hmem
  exact of_decide_eq_true (List.mem_filter.mp hw).2 hname

/-- A completed preparation has put the temporary argument last and left no other
token of its name; the rollback then gives back the tokens there were before, and
a second rollback does nothing. -/
theorem disableValidation_undoes_preparation (lawful : tool.Lawful) (prep : Preparation)
    {args : List Text} {s t : Efi Config}
    (hrun : prepareValidation tool env prep args s = .ok () t)
    (hplain : ∀ w ∈ tool.tokens s.config, Plain w) (hcfg : args.getD 1 [] ∉ helpFlags)
    (hcopies : env.copies t.config = true) :
    tool.tokens t.config = keptTokens (tool.tokens s.config) ++ [amfiArg] ∧
      ∃ u, disableValidation tool env [args.getD 1 []] t = .ok () u ∧
        tool.tokens u.config = keptTokens (tool.tokens s.config) ∧
        disableValidation tool env [args.getD 1 []] u = .error 0 u := by
  have hkept : ∀ w ∈ keptTokens (tool.tokens s.config), Plain w :=
    fun w hw => hplain w (List.mem_of_mem_filter hw)
  have hnew : ∀ w ∈ keptTokens (tool.tokens s.config) ++ [amfiArg], Plain w := by
    intro w hw
    rcases List.mem_append.mp hw with hw | hw
    · exact hkept w hw
    · exact List.mem_singleton.mp hw ▸ plain_amfiArg
  obtain ⟨hfile, hwrite⟩ := prepareValidation_eq_ok hrun
  rw [updatedBootargs_eq] at hwrite
  obtain ⟨hadd, -⟩ := writeBootArgs_eq_ok hwrite
  have htokens := lawful.tokens_add hnew hadd
  refine ⟨htokens, ?_⟩
  have hprint : (tool.print t.config).isSome = true := by
    rw [lawful.print_add hnew hadd]
    rfl
  obtain ⟨config, hremoved, hrest⟩ := writeBootArgs_completes lawful hkept hprint hcopies
  refine ⟨⟨config, t.config :: t.backups⟩, ?_, hrest, ?_⟩
  · have hnamed : beforeEquals amfiArg ∈ (words (tool.bootArgs t.config)).map beforeEquals := by
      change beforeEquals amfiArg ∈ (tool.tokens t.config).map beforeEquals
      rw [htokens]
      simp
    rw [disableValidation_eq hcfg hfile, removeBootArg_eq, if_pos hnamed]
    change writeBootArgs tool env (joinWords (keptTokens (tool.tokens t.config))) t = _
    rw [htokens, keptTokens_append_amfiArg]
    exact hremoved
  · have hnone : beforeEquals amfiArg ∉ (words (tool.bootArgs config)).map beforeEquals := by
      change beforeEquals amfiArg ∉ (tool.tokens config).map beforeEquals
      rw [hrest]
      exact name_not_mem_keptTokens _
    rw [disableValidation_eq hcfg hfile, removeBootArg_eq, if_neg hnone]
    rfl

end Rollback

section Documents

/-- The tool on property lists. -/
def plistEntry : EntryTool Plist where
  print config := (config.find bootargsKey).map fun plist => plist.render 0 ++ text "\n"
  delete config := config.remove bootargsKey
  add config value := Plist.update (Plist.addValue "string" value) bootargsKey (some config)

def bootargsNames : List String :=
  ["NVRAM", "Add", "7C436110-AB2A-4BBB-A880-FE41995C9F82", "boot-args"]

theorem bootargsKey_eq : bootargsKey = bootargsNames.map .name := rfl

theorem plistEntry_lawful : plistEntry.Lawful where
  print_add {config new ws} _ hadd := by
    obtain ⟨made, hmade, hfound⟩ := Plist.find_update hadd
    cases hold : (some config).bind (Plist.find bootargsKey) with
    | none =>
        rw [hold] at hmade
        cases hmade
        simp only [plistEntry, hfound]
        rfl
    | some old =>
        rw [hold] at hmade
        cases hmade
  delete_isSome hprint := by
    obtain ⟨found, hfound⟩ := Option.isSome_iff_exists.mp (Option.isSome_map ▸ hprint)
    rw [bootargsKey_eq] at hfound
    exact Plist.remove_isSome (by simp [bootargsNames]) hfound
  add_isSome {config rest ws} hdelete _ := by
    rw [plistEntry, bootargsKey_eq] at hdelete ⊢
    exact Plist.update_isSome_of_remove rfl hdelete

/-- All files are there and all commands succeed. -/
def calmEnv : Env Plist where
  scriptDir := text "/kry"
  isDirectory _ := true
  isFile _ := true
  run _ _ := 0
  copies _ := true

def validationArgs : List Text := [text "/Volumes/Sequoia", text "config.plist"]

def preparedEfi (prep : Preparation) (bootArgs : Text) : Efi Plist :=
  endState (prepareValidation plistEntry calmEnv prep validationArgs ⟨bootArgsConfig bootArgs, []⟩)

theorem bronze_preparation_undone :
    let before := text "keepsyms=1 amfi_get_out_of_my_way=0x80 -v"
    let t := preparedEfi bronzeIsolation before
    plistEntry.tokens t.config = keptTokens (words before) ++ [amfiArg] ∧
      ∃ u, disableValidation plistEntry calmEnv [text "config.plist"] t = .ok () u ∧
        plistEntry.tokens u.config = keptTokens (words before) ∧
        disableValidation plistEntry calmEnv [text "config.plist"] u = .error 0 u := by
  intro before t
  have hrun : prepareValidation plistEntry calmEnv bronzeIsolation validationArgs
      ⟨bootArgsConfig before, []⟩ = .ok () t :=
    eq_ok_of_completed (by decide +kernel)
  exact disableValidation_undoes_preparation plistEntry_lawful bronzeIsolation hrun
    (by decide +kernel) (by decide +kernel) rfl

end Documents

section Rewriting

variable {Config : Type} {tool : EntryTool Config} {env : Env Config}

/-- The last argument of each name. -/
def lastPerName : List Text → List Text
  | [] => []
  | arg :: args =>
      if beforeEquals arg ∈ args.map beforeEquals then lastPerName args
      else arg :: lastPerName args

/-- An empty argument adds no token. -/
def nonempty (args : List Text) : List Text := args.filter (· ≠ [])

theorem nonempty_cons (arg : Text) (args : List Text) :
    nonempty (arg :: args) = if arg = [] then nonempty args else arg :: nonempty args := by
  by_cases harg : arg = [] <;> simp [nonempty, harg]

/-- The tokens of the boot arguments after `args` have been set: first those there
were under other names. -/
def setTokens (tokens args : List Text) : List Text :=
  tokens.filter (fun token => beforeEquals token ∉ args.map beforeEquals) ++ lastPerName args

theorem words_rewriteArgument (current arg : Text) :
    words (rewriteArgument current arg) =
      (if beforeEquals current = beforeEquals arg then [] else words current) ++ words arg := by
  have hdropped : words (dropNamed (beforeEquals arg) (unsplit current)) =
      if beforeEquals current = beforeEquals arg then [] else words current := by
    by_cases hempty : current = []
    · simp [unsplit, hempty, dropNamed]
    · by_cases hname : beforeEquals current = beforeEquals arg
      · simp [unsplit, hempty, dropNamed, hname]
      · have hspace : words (0x20 :: current) = words current := words_cons_blank rfl
        simp [unsplit, hempty, dropNamed, hname, hspace]
  rw [rewriteArgument, words_append_blank rfl, hdropped]

theorem rewriteArgument_head (current arg : Text) :
    (rewriteArgument current arg).head? = some 0x20 := by
  unfold rewriteArgument dropNamed unsplit
  by_cases hempty : current = []
  · simp [hempty]
  · by_cases hname : beforeEquals current = beforeEquals arg
    · simp [hempty, hname]
    · simp [hempty, hname]

/-- A text that starts with a space has no name without blanks. -/
theorem beforeEquals_ne {current arg : Text} (hhead : current.head? = some 0x20)
    (harg : ∀ byte ∈ arg, isBlank byte = false) : beforeEquals current ≠ beforeEquals arg := by
  intro hname
  obtain ⟨rest, rfl⟩ : ∃ rest, current = 0x20 :: rest := by
    cases current with
    | nil => cases hhead
    | cons byte rest => exact ⟨rest, by simpa using hhead⟩
  have hspace : (0x20 : UInt8) ∈ beforeEquals arg := by
    rw [← hname]
    simp [beforeEquals]
  have hblank := harg 0x20 ((List.takeWhile_prefix _).subset hspace)
  exact absurd hblank (by decide)

theorem words_foldl_rewriteArgument {args : List Text}
    (hargs : ∀ arg ∈ args, ∀ byte ∈ arg, isBlank byte = false) {current : Text}
    (hhead : current.head? = some 0x20) :
    words (args.foldl rewriteArgument current) = words current ++ args.flatMap words := by
  induction args generalizing current with
  | nil => simp
  | cons arg args ih =>
      have hne := beforeEquals_ne hhead (hargs arg List.mem_cons_self)
      have hrest := ih (fun other hother => hargs other (List.mem_cons_of_mem _ hother))
        (rewriteArgument_head current arg)
      rw [List.foldl_cons, hrest, words_rewriteArgument, if_neg hne, List.flatMap_cons,
        List.append_assoc]

/-- Only the first argument is compared with anything, and with all of the current
value as if it were one token. -/
theorem words_newBootArgs {arg : Text} {args : List Text}
    (hargs : ∀ other ∈ arg :: args, ∀ byte ∈ other, isBlank byte = false) (current : Text) :
    words (newBootArgs current (arg :: args)) =
      (if beforeEquals current = beforeEquals arg then [] else words current) ++
        nonempty (arg :: args) := by
  have hwords : ∀ args : List Text, (∀ other ∈ args, ∀ byte ∈ other, isBlank byte = false) →
      args.flatMap words = nonempty args := by
    intro args hargs
    induction args with
    | nil => rfl
    | cons arg args ih =>
        rw [List.flatMap_cons, words_eq_of_noBlank (hargs arg List.mem_cons_self),
          ih fun other hother => hargs other (List.mem_cons_of_mem _ hother), nonempty_cons]
        by_cases harg : arg = [] <;> simp [harg]
  rw [newBootArgs, words_squeeze, List.foldl_cons,
    words_foldl_rewriteArgument (fun other hother => hargs other (List.mem_cons_of_mem _ hother))
      (rewriteArgument_head current arg),
    words_rewriteArgument, List.append_assoc, ← List.flatMap_cons, hwords _ hargs]

theorem lastPerName_sublist (args : List Text) : (lastPerName args).Sublist args := by
  induction args with
  | nil => exact List.Sublist.refl _
  | cons arg args ih =>
      unfold lastPerName
      split
      · exact ih.cons _
      · exact ih.cons_cons _

/-- No argument is followed by one of its name, except that an empty one has to
be. -/
def Settled : List Text → Prop
  | [] => True
  | arg :: args =>
      (arg ≠ [] ↔ beforeEquals arg ∉ args.map beforeEquals) ∧ Settled args

instance decidableSettled : (args : List Text) → Decidable (Settled args)
  | [] => isTrue trivial
  | _ :: args =>
      have := decidableSettled args
      inferInstanceAs (Decidable (_ ∧ Settled args))

theorem nil_not_mem_nonempty (args : List Text) : [] ∉ nonempty args := by
  intro h
  exact of_decide_eq_true (List.mem_filter.mp h).2 rfl

theorem lastPerName_sublist_nonempty {args : List Text} (h : [] ∉ lastPerName args) :
    (lastPerName args).Sublist (nonempty args) := by
  have hfilter : nonempty (lastPerName args) = lastPerName args := by
    apply List.filter_eq_self.mpr
    intro arg harg
    simp only [decide_eq_true_eq]
    rintro rfl
    exact h harg
  rw [← hfilter]
  exact (lastPerName_sublist args).filter _

theorem nonempty_eq_lastPerName_iff (args : List Text) :
    nonempty args = lastPerName args ↔ Settled args := by
  induction args with
  | nil => simp [nonempty, lastPerName, Settled]
  | cons arg args ih =>
      rw [Settled, ← ih, lastPerName]
      by_cases hname : beforeEquals arg ∈ args.map beforeEquals
      · rw [if_pos hname]
        by_cases harg : arg = []
        · rw [nonempty_cons, if_pos harg]
          exact ⟨fun h => ⟨iff_of_false (absurd harg) (absurd hname), h⟩, fun h => h.2⟩
        · apply iff_of_false
          · intro heq
            have hnil : [] ∉ lastPerName args := heq ▸ nil_not_mem_nonempty (arg :: args)
            have hlength := (lastPerName_sublist_nonempty hnil).length_le
            rw [← heq, nonempty_cons, if_neg harg, List.length_cons] at hlength
            omega
          · exact fun h => h.1.mp harg hname
      · rw [if_neg hname]
        by_cases harg : arg = []
        · apply iff_of_false
          · intro heq
            apply nil_not_mem_nonempty (arg :: args)
            rw [heq, harg]
            exact List.mem_cons_self
          · exact fun h => h.1.mpr hname harg
        · rw [nonempty_cons, if_neg harg, List.cons.injEq]
          exact ⟨fun h => ⟨iff_of_true harg hname, h.2⟩, fun h => ⟨rfl, h.2⟩⟩

/-- The tokens that stay, before the arguments that are set. -/
theorem append_eq_setTokens_iff {tokens args stay : List Text}
    (hstay : stay = [] ∨ stay = tokens) (hnil : [] ∉ stay) :
    stay ++ nonempty args = setTokens tokens args ↔
      Settled args ∧
        tokens.filter (fun token => beforeEquals token ∉ args.map beforeEquals) = stay := by
  rw [setTokens, ← nonempty_eq_lastPerName_iff]
  constructor
  · intro heq
    have hlast : [] ∉ lastPerName args := by
      intro hmem
      have hleft : [] ∈ stay ++ nonempty args := heq ▸ List.mem_append_right _ hmem
      rcases List.mem_append.mp hleft with hmem | hmem
      · exact hnil hmem
      · exact nil_not_mem_nonempty args hmem
    have hkept : tokens.filter (fun token => beforeEquals token ∉ args.map beforeEquals) =
        stay := by
      rcases hstay with rfl | rfl
      · apply List.eq_nil_iff_forall_not_mem.mpr
        intro token htoken
        have hmem : token ∈ args := by
          have hnonempty : token ∈ nonempty args := by
            rw [← List.nil_append (nonempty args), heq]
            exact List.mem_append_left _ htoken
          exact List.mem_of_mem_filter hnonempty
        exact of_decide_eq_true (List.mem_filter.mp htoken).2 (List.mem_map_of_mem hmem)
      · have hshort := (lastPerName_sublist_nonempty hlast).length_le
        have hlength := congrArg List.length heq
        simp only [List.length_append] at hlength
        apply (List.filter_sublist).eq_of_length_le
        omega
    rw [hkept] at heq
    exact ⟨List.append_cancel_left heq, hkept⟩
  · rintro ⟨hargs, hkept⟩
    rw [hkept, hargs]

theorem setEfiBootArgs_eq_ok {cfg : Text} {args : List Text} {s t : Efi Config} {a : Unit}
    (h : setEfiBootArgs tool env (cfg :: args) s = .ok a t) :
    writeBootArgs tool env (newBootArgs (tool.bootArgs s.config) args) s = .ok a t := by
  obtain ⟨_, _, husage, htests⟩ := bind_eq_ok h
  obtain ⟨_, _, hcfg, hread⟩ := bind_eq_ok htests
  obtain ⟨_, _, hcurrent, hwrite⟩ := bind_eq_ok hread
  obtain ⟨-, rfl⟩ := exitUnless_eq_ok husage
  obtain ⟨-, rfl⟩ := exitUnless_eq_ok hcfg
  cases hcurrent
  exact hwrite

/-- Setting arguments without blanks gives the tokens it should exactly if the
arguments are settled and either the current value, taken as one token, has the name
of the first argument and all tokens are to be replaced, or it has not and none is. -/
theorem setEfiBootArgs_sets_iff {cfg arg : Text} {args : List Text} {s t : Efi Config}
    (hrun : setEfiBootArgs tool env (cfg :: arg :: args) s = .ok () t)
    (hargs : ∀ other ∈ arg :: args, ∀ byte ∈ other, isBlank byte = false) :
    let current := tool.bootArgs s.config
    let value := newBootArgs current (arg :: args)
    tool.add ((tool.delete s.config).getD s.config) value = some t.config ∧
      (words value = setTokens (words current) (arg :: args) ↔
        Settled (arg :: args) ∧ ∀ token ∈ words current,
          (beforeEquals token ∈ (arg :: args).map beforeEquals ↔
            beforeEquals current = beforeEquals arg)) := by
  intro current value
  refine ⟨(writeBootArgs_eq_ok (setEfiBootArgs_eq_ok hrun)).1, ?_⟩
  rw [words_newBootArgs hargs]
  by_cases hname : beforeEquals current = beforeEquals arg
  · rw [if_pos hname, append_eq_setTokens_iff (Or.inl rfl) (List.not_mem_nil)]
    simp only [hname, iff_true, List.filter_eq_nil_iff, decide_eq_true_eq, not_not]
  · have hnil : [] ∉ words current := fun h => (token_of_mem_words h).1 rfl
    rw [if_neg hname, append_eq_setTokens_iff (Or.inr rfl) hnil]
    simp only [hname, iff_false, List.filter_eq_self, decide_eq_true_eq]

/-- `zsh set_efi_boot_args.sh config.plist ...` -/
def afterSetting (bootArgs : Text) (args : List Text) : EStateM.Result Nat (Efi Plist) Unit :=
  setEfiBootArgs plistEntry calmEnv (text "config.plist" :: args) ⟨bootArgsConfig bootArgs, []⟩

/-- Two arguments behind two tokens of other names, and one in the place of the
only token. -/
theorem tokens_set :
    words (newBootArgs (text "keepsyms=1 -v") [text "debug=0x14e", text "krygpu"]) =
        [text "keepsyms=1", text "-v", text "debug=0x14e", text "krygpu"] ∧
      words (newBootArgs (text "debug=0x100") [text "debug=0x14e"]) = [text "debug=0x14e"] := by
  constructor
  · have hrun : afterSetting (text "keepsyms=1 -v") [text "debug=0x14e", text "krygpu"] =
        .ok () (endState (afterSetting (text "keepsyms=1 -v")
          [text "debug=0x14e", text "krygpu"])) :=
      eq_ok_of_completed (by decide +kernel)
    have hsets := (setEfiBootArgs_sets_iff hrun (by decide +kernel)).2.mpr
      ⟨by decide +kernel, by decide +kernel⟩
    exact hsets.trans (by decide +kernel)
  · have hrun : afterSetting (text "debug=0x100") [text "debug=0x14e"] =
        .ok () (endState (afterSetting (text "debug=0x100") [text "debug=0x14e"])) :=
      eq_ok_of_completed (by decide +kernel)
    have hsets := (setEfiBootArgs_sets_iff hrun (by decide +kernel)).2.mpr
      ⟨by decide +kernel, by decide +kernel⟩
    exact hsets.trans (by decide +kernel)

theorem second_token_not_replaced :
    let run := afterSetting (text "keepsyms=1 debug=0x100") [text "debug=0x14e"]
    completed run = true ∧
      plistEntry.tokens (endState run).config =
        [text "keepsyms=1", text "debug=0x100", text "debug=0x14e"] ∧
      setTokens (words (text "keepsyms=1 debug=0x100")) [text "debug=0x14e"] =
        [text "keepsyms=1", text "debug=0x14e"] := by
  decide +kernel

end Rewriting

end EfiBootArgs

end Kryptonite
