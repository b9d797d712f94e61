/-
`opencore.sh`: the kext injections and the boot arguments of an OpenCore
configuration.  The configuration file exists.
-/
import Kryptonite.Plists

namespace Kryptonite

namespace OpenCore

open Script ShellText Plists

section Injections

/-- `kext_fields` with `kext_field_types`. -/
def kextFields : List (String × String) :=
  [("Comment", "string"), ("MaxKernel", "string"), ("MinKernel", "string"),
    ("Arch", "string"), ("BundlePath", "string"), ("ExecutablePath", "string"),
    ("PlistPath", "string"), ("Enabled", "bool")]

def baseKey : List Key := [.name "Kernel", .name "Add"]

def liluValues : List Text :=
  ["Kext/Process Patcher", "", "", "Any", "Lilu.kext", "Contents/MacOS/Lilu",
    "Contents/Info.plist", "true"].map text

def kryptoniteValues : List Text :=
  ["eGFX Patches", "", "", "Any", "Kryptonite.kext", "Contents/MacOS/Kryptonite",
    "Contents/Info.plist", "true"].map text

variable {Config : Type} (options : Options) (buddy : PlistBuddy Config)

def injectKext (key : List Key) (values : List Text) : ScriptM Config Unit :=
  (kextFields.zip values).forM fun ((field, type), value) =>
    plistsAdd buddy (key ++ [.name field]) type value

/-- `grep -c` fails when it counts no line. -/
def grepStatus (count : Nat) : ScriptM Config Unit :=
  if count = 0 then failed options else pure ()

/-- `kcount=$(printfn "${plists_getval}" | grep -c "Dict")` -/
def countDicts : ScriptM Config Nat := do
  let getval := (← get).getval
  let kcount := grepCount (text "Dict") (printfn [getval])
  grepStatus options kcount
  return kcount

/-- The indices at which the two bundles were last seen. -/
structure Indices where
  lilu : Option Nat
  kryptonite : Option Nat
deriving Repr, DecidableEq

/-- One round of the loop over the entries. -/
def lookupKext (indices : Indices) (i : Nat) : ScriptM Config Indices := do
  let status ← plistsGet options buddy (baseKey ++ [.index i, .name "BundlePath"])
  exitIfFailed status
  let kbundle := (← get).getval
  return {
    lilu := if kbundle = text "Lilu.kext" then some i else indices.lilu
    kryptonite := if kbundle = text "Kryptonite.kext" then some i else indices.kryptonite }

/-- Enable the entry at its index, or inject a new one at `cindex`. -/
def enableOrInject (index : Option Nat) (values : List Text) (cindex : Nat) :
    ScriptM Config Unit :=
  match index with
  | some i => plistsSet buddy (baseKey ++ [.index i, .name "Enabled"]) (text "true")
  | none => injectKext buddy (baseKey ++ [.index cindex]) values

/-- `cindex` after that; an injection moves it on. -/
def nextIndex (index : Option Nat) (cindex : Nat) : Nat :=
  if index.isSome then cindex else cindex + 1

/-- The number of entries and where the two bundles are among them. -/
def findKexts : ScriptM Config (Nat × Indices) := do
  let status ← plistsGet options buddy baseKey
  exitIfFailed status
  let kcount ← countDicts options
  let indices ← (List.range kcount).foldlM (lookupKext options buddy) ⟨none, none⟩
  return (kcount, indices)

def addKryInjections : ScriptM Config Unit := do
  let (kcount, indices) ← findKexts options buddy
  enableOrInject buddy indices.lilu liluValues kcount
  enableOrInject buddy indices.kryptonite kryptoniteValues (nextIndex indices.lilu kcount)

end Injections

section BootArgs

def bootargsKey : List Key :=
  [.name "NVRAM", .name "Add", .name "7C436110-AB2A-4BBB-A880-FE41995C9F82",
    .name "boot-args"]

/-- Pathname expansion of an unquoted word, and what `xargs` makes of its input. -/
structure Host where
  glob : Text → List Text
  xargs : Text → Text

/-- A new argument is skipped if it starts with the name of an existing one. -/
def alreadyExists (existing : List Text) (newArg : Text) : Bool :=
  existing.any fun arg => (beforeEquals arg).isPrefixOf newArg

variable {Config : Type} (options : Options) (buddy : PlistBuddy Config) (host : Host)

/-- `opencore_get_bootargs`; the result is `opencore_existing_bootargs`. -/
def getBootargs : ScriptM Config (List Text) := do
  let _ ← plistsGet options buddy bootargsKey
  let getval := (← get).getval
  return (words getval).flatMap host.glob

/-- `"${items[@]}"`, which under `nounset` stops some shells if there is no item. -/
def expandArray (items : List Text) : ScriptM Config Unit :=
  if items = [] ∧ options.nounset ∧ options.emptyUnbound then exitErr else pure ()

/-- The existing arguments and the new ones that are not skipped. -/
def mergedArgs (existing args : List Text) : List Text :=
  existing ++ args.filter fun newArg => !alreadyExists existing newArg

/-- `finalargs` -/
def finalArgs (existing args : List Text) : Text :=
  stripNewlines (host.xargs (printfn (mergedArgs existing args)))

def setBootargs (args : List Text) : ScriptM Config Unit := do
  let existing ← getBootargs options buddy host
  expandArray options existing
  expandArray options args
  plistsSet buddy bootargsKey (finalArgs host existing args)

end BootArgs

section Plan

def fieldEdits (key : List Key) (values : List Text) : List Edit :=
  (kextFields.zip values).map fun ((field, type), value) =>
    .add (key ++ [.name field]) type value

/-- The edits by which `enableOrInject` brings in one kext. -/
def kextEdits (index : Option Nat) (values : List Text) (cindex : Nat) : List Edit :=
  match index with
  | some i => [.set (baseKey ++ [.index i, .name "Enabled"]) (text "true")]
  | none => fieldEdits (baseKey ++ [.index cindex]) values

/-- All edits of `addKryInjections`, Lilu first. -/
def injectionEdits (indices : Indices) (kcount : Nat) : List Edit :=
  kextEdits indices.lilu liluValues kcount ++
    kextEdits indices.kryptonite kryptoniteValues (nextIndex indices.lilu kcount)

variable {Config : Type} (options : Options) {buddy : PlistBuddy Config}

theorem injectKext_eq (key : List Key) (values : List Text) :
    injectKext buddy key values = (fieldEdits key values).forM (runEdit buddy) :=
  (List.forM_map (f := runEdit buddy)).symm

/-- A kext is brought in by the edits of its plan, one after the other. -/
theorem enableOrInject_eq (index : Option Nat) (values : List Text) (cindex : Nat) :
    enableOrInject buddy index values cindex =
      (kextEdits index values cindex).forM (runEdit buddy) := by
  cases index with
  | some i => exact (bind_pure _).symm
  | none => exact injectKext_eq _ _

theorem countDicts_keeps {inv : Session Config → Prop} :
    Keeps inv (countDicts options : ScriptM Config Nat) := by
  apply Keeps.bind Keeps.get
  intro session
  apply Keeps.bind
  · exact Triple.ite (fun _ => failed_keeps options) fun _ => Keeps.pure _
  · intro _
    exact Keeps.pure _

section Lookups

variable {inv : Session Config → Prop} (hget : ∀ key, Keeps inv (plistsGet options buddy key))

include hget

theorem lookupKext_keeps (indices : Indices) (i : Nat) :
    Keeps inv (lookupKext options buddy indices i) := by
  apply Keeps.bind (hget _)
  intro status
  apply Keeps.bind (exitIfFailed_keeps status)
  intro _
  exact Triple.read _

/-- What every lookup keeps is kept until the first edit. -/
theorem findKexts_keeps : Keeps inv (findKexts options buddy) := by
  apply Keeps.bind (hget _)
  intro status
  apply Keeps.bind (exitIfFailed_keeps status)
  intro _
  apply Keeps.bind (countDicts_keeps options)
  intro kcount
  exact Keeps.bind (Keeps.foldlM (lookupKext_keeps options hget) _ _) fun _ => Keeps.pure _

end Lookups

/-- The edits that follow the lookups. -/
theorem addKryInjections_of_found {options : Options} {indices : Indices} {kcount : Nat}
    {s t : Session Config} (h : findKexts options buddy s = .ok (kcount, indices) t) :
    addKryInjections options buddy s =
      (enableOrInject buddy indices.lilu liluValues kcount >>= fun _ =>
        enableOrInject buddy indices.kryptonite kryptoniteValues
          (nextIndex indices.lilu kcount)) t :=
  bind_of_ok h

theorem addKryInjections_edits {options : Options} {indices : Indices} {kcount : Nat}
    {s t : Session Config} (h : findKexts options buddy s = .ok (kcount, indices) t) :
    addKryInjections options buddy s =
      (injectionEdits indices kcount).forM (runEdit buddy) t := by
  have hboth : (injectionEdits indices kcount).forM (runEdit buddy) =
      ((kextEdits indices.lilu liluValues kcount).forM (runEdit buddy) >>= fun _ =>
        (kextEdits indices.kryptonite kryptoniteValues
          (nextIndex indices.lilu kcount)).forM (runEdit buddy)) := List.forM_append
  rw [addKryInjections_of_found h, enableOrInject_eq, enableOrInject_eq, hboth]

theorem expandArray_keeps {inv : Session Config → Prop} (items : List Text) :
    Keeps inv (expandArray options items) :=
  Triple.ite (fun _ => Triple.throw fun _ h => h) fun _ => Keeps.pure _

theorem expandArray_bind (items : List Text) (m : ScriptM Config Unit) (s : Session Config) :
    (expandArray options items >>= fun _ => m) s =
      if items = [] ∧ options.nounset ∧ options.emptyUnbound then .error 1 s else m s := by
  rw [expandArray]
  split <;> rfl

theorem getBootargs_keeps {inv : Session Config → Prop} (host : Host)
    (h : ∀ s getval calls looked, inv s → inv { s with getval, calls, looked }) :
    Keeps inv (getBootargs options buddy host) :=
  Keeps.bind (plistsGet_keeps options buddy _ h) fun _ => Triple.read _

/-- The boot arguments are set to those that are there and the new ones, or the
file is left as it is. -/
theorem setBootargs_cases (host : Host) (args : List Text) (s : Session Config) :
    (endState (setBootargs options buddy host args s)).backup = s.backup ∧
      ((endState (setBootargs options buddy host args s)).config = s.config ∨
        ∃ existing t, getBootargs options buddy host s = .ok existing t ∧
          buddy.edit t.calls s.config (.set bootargsKey (finalArgs host existing args)) =
            some (endState (setBootargs options buddy host args s)).config) := by
  have hkept : Keeps (fun u : Session Config => u.config = s.config ∧ u.backup = s.backup)
      (getBootargs options buddy host) := getBootargs_keeps options host fun _ _ _ _ h => h
  cases hread : getBootargs options buddy host s with
  | error status t =>
      have hend := hkept.endState ⟨rfl, rfl⟩
      rw [hread] at hend
      rw [setBootargs, bind_of_error hread]
      exact ⟨hend.2, .inl hend.1⟩
  | ok existing t =>
      have hend := hkept.ok ⟨rfl, rfl⟩ hread
      rw [setBootargs, bind_of_ok hread, expandArray_bind, expandArray_bind]
      split
      · exact ⟨hend.2, .inl hend.1⟩
      · split
        · exact ⟨hend.2, .inl hend.1⟩
        · cases hedit : buddy.edit t.calls t.config
            (.set bootargsKey (finalArgs host existing args)) with
          | none =>
              rw [plistsSet, runEdit_of_none buddy hedit]
              exact ⟨hend.2, .inl hend.1⟩
          | some config =>
              rw [plistsSet, runEdit_of_some buddy hedit]
              refine ⟨hend.2, .inr ⟨existing, t, rfl, ?_⟩⟩
              rw [← hend.1]
              exact hedit

end Plan

section Merging

/-- Quotes, backslashes and the characters of patterns. -/
def isSpecial (byte : UInt8) : Bool := byte ∈ [0x22, 0x27, 0x5C, 0x2A, 0x3F, 0x5B]

/-- A word that the shell, `xargs` and `PlistBuddy` take as it is. -/
def Literal (w : Text) : Prop := Token w ∧ ∀ byte ∈ w, isSpecial byte = false

instance (w : Text) : Decidable (Literal w) := inferInstanceAs (Decidable (_ ∧ _))

/-- `echo` takes a first argument `-n` for an option. -/
def echoed (ws : List Text) : List Text := if ws.head? = some (text "-n") then ws.tail else ws

theorem echoed_subset (ws : List Text) : echoed ws ⊆ ws := by
  rw [echoed]
  split
  · exact (List.tail_sublist ws).subset
  · exact List.Subset.refl ws

/-- How the host treats literal words: `xargs` gives them to one `echo`. -/
structure Host.Lawful (host : Host) : Prop where
  glob_literal {w : Text} : Literal w → host.glob w = [w]
  xargs_literal {t : Text} : (∀ w ∈ words t, Literal w) →
    stripNewlines (host.xargs t) = joinWords (echoed (words t))

theorem Literal.no_backslash {w : Text} (h : Literal w) : (0x5C : UInt8) ∉ w :=
  fun hmem => absurd (h.2 _ hmem) (by decide)

theorem words_printfn {ws : List Text} (h : ∀ w ∈ ws, Literal w) : words (printfn ws) = ws := by
  by_cases hnil : ws = []
  · rw [hnil]
    rfl
  · rw [printfn_of_no_backslash hnil fun w hw => (h w hw).no_backslash,
      words_unlines (fun line => line)]
    have hwords : ∀ w ∈ ws, words w = [w] := fun w hw => words_token (h w hw).1
    rw [List.flatMap_congr hwords]
    simp

/-- A value of literal words is not mistaken for the message about a missing file. -/
theorem not_message {value : Text} (h : ∀ w ∈ words value, Literal w) :
    (text "File Doesn't Exist").isPrefixOf value = false := by
  rw [Bool.eq_false_iff]
  intro hleading
  have hquote : (0x27 : UInt8) ∈ value :=
    (List.isPrefixOf_iff_prefix.mp hleading).subset (by decide +kernel)
  obtain ⟨w, hw, hmem⟩ := exists_mem_words hquote (by decide)
  exact absurd ((h w hw).2 _ hmem) (by decide)

/-- The new arguments that are missing by name come after the existing ones. -/
def appendMissing (existing args : List Text) : List Text :=
  existing ++ args.filter fun newArg => beforeEquals newArg ∉ existing.map beforeEquals

theorem alreadyExists_iff (existing : List Text) (newArg : Text) :
    alreadyExists existing newArg = true ↔ ∃ arg ∈ existing, beforeEquals arg <+: newArg := by
  simp [alreadyExists]

theorem alreadyExists_of_name {existing : List Text} {newArg : Text}
    (h : beforeEquals newArg ∈ existing.map beforeEquals) :
    alreadyExists existing newArg = true := by
  obtain ⟨arg, harg, hname⟩ := List.mem_map.mp h
  exact (alreadyExists_iff existing newArg).mpr
    ⟨arg, harg, hname ▸ List.takeWhile_prefix _⟩

theorem mergedArgs_eq_iff (existing args : List Text) :
    mergedArgs existing args = appendMissing existing args ↔
      ∀ newArg ∈ args, ∀ arg ∈ existing, beforeEquals arg <+: newArg →
        beforeEquals newArg ∈ existing.map beforeEquals := by
  rw [mergedArgs, appendMissing, List.append_right_inj]
  constructor
  · intro heq newArg hnew arg harg hleading
    by_contra hname
    have hmem : newArg ∈ args.filter fun newArg => !alreadyExists existing newArg := by
      rw [heq]
      exact List.mem_filter.mpr ⟨hnew, by simpa using hname⟩
    have hexists := (alreadyExists_iff existing newArg).mpr ⟨arg, harg, hleading⟩
    simp [hexists] at hmem
  · intro h
    apply List.filter_congr
    intro newArg hnew
    by_cases hname : beforeEquals newArg ∈ existing.map beforeEquals
    · simp only [alreadyExists_of_name hname, hname, not_true_eq_false, decide_false,
        Bool.not_true]
    · have hexists : alreadyExists existing newArg = false := by
        rw [Bool.eq_false_iff]
        intro hexists
        obtain ⟨arg, harg, hleading⟩ := (alreadyExists_iff existing newArg).mp hexists
        exact hname (h newArg hnew arg harg hleading)
      simp only [hexists, hname, not_false_eq_true, decide_true, Bool.not_false]

theorem mergedArgs_length_le (existing args : List Text) :
    (mergedArgs existing args).length ≤ (appendMissing existing args).length := by
  have hsub : (args.filter fun newArg => !alreadyExists existing newArg).Sublist
      (args.filter fun newArg => beforeEquals newArg ∉ existing.map beforeEquals) := by
    apply List.monotone_filter_right
    intro newArg hnew
    simp only [decide_eq_true_eq]
    intro hname
    simp [alreadyExists_of_name hname] at hnew
  simp only [mergedArgs, appendMissing, List.length_append]
  exact Nat.add_le_add_left hsub.length_le _

theorem mergedArgs_head (existing args : List Text) :
    (mergedArgs existing args).head? = (existing ++ args).head? := by
  cases existing with
  | nil => simp [mergedArgs, alreadyExists]
  | cons arg existing => rfl

/-- A first `-n` is lost; nothing makes up for it. -/
theorem echoed_mergedArgs_iff (existing args : List Text) :
    echoed (mergedArgs existing args) = appendMissing existing args ↔
      (existing ++ args).head? ≠ some (text "-n") ∧
        ∀ newArg ∈ args, ∀ arg ∈ existing, beforeEquals arg <+: newArg →
          beforeEquals newArg ∈ existing.map beforeEquals := by
  rw [echoed, mergedArgs_head, ← mergedArgs_eq_iff]
  by_cases hhead : (existing ++ args).head? = some (text "-n")
  · rw [if_pos hhead]
    apply iff_of_false
    · intro heq
      have hlength := mergedArgs_length_le existing args
      rw [← heq, List.length_tail] at hlength
      rw [← mergedArgs_head] at hhead
      have hne : mergedArgs existing args ≠ [] := by
        intro hnil
        rw [hnil] at hhead
        cases hhead
      have := List.length_pos_iff.mpr hne
      omega
    · exact fun h => h.1 hhead
  · rw [if_neg hhead]
    exact ⟨fun h => ⟨hhead, h⟩, fun h => h.2⟩

variable {Config : Type} {options : Options} {buddy : PlistBuddy Config} {host : Host}
variable {s : Session Config} {output : Text}

/-- The session once the boot arguments have been read. -/
def afterPrint (s : Session Config) (output : Text) : Session Config :=
  { s with
    calls := s.calls + 1, looked := s.looked ++ [bootargsKey], getval := stripNewlines output }

theorem getBootargs_eq (lawful : host.Lawful)
    (hprint : buddy.print s.calls s.config bootargsKey = some output)
    (hexisting : ∀ arg ∈ words output, Literal arg) :
    getBootargs options buddy host s = .ok (words output) (afterPrint s output) := by
  have hvalue : words (stripNewlines output) = words output := words_stripNewlines
  have hget : plistsGet options buddy bootargsKey s = .ok 0 (afterPrint s output) := by
    simp only [plistsGet, hprint, not_message (hvalue ▸ hexisting)]
    rfl
  have hglob : (words output).flatMap host.glob = words output := by
    rw [List.flatMap_congr fun arg harg => lawful.glob_literal (hexisting arg harg)]
    simp
  rw [getBootargs, bind_of_ok hget]
  change EStateM.Result.ok ((words (stripNewlines output)).flatMap host.glob)
    (afterPrint s output) = _
  rw [hvalue, hglob]

theorem setBootargs_eq (lawful : host.Lawful) {args : List Text}
    (hprint : buddy.print s.calls s.config bootargsKey = some output)
    (hexisting : ∀ arg ∈ words output, Literal arg) (hargs : ∀ arg ∈ args, Literal arg) :
    setBootargs options buddy host args s =
      if (words output = [] ∨ args = []) ∧ options.nounset ∧ options.emptyUnbound then
        .error 1 (afterPrint s output)
      else runEdit buddy
        (.set bootargsKey (joinWords (echoed (mergedArgs (words output) args))))
        (afterPrint s output) := by
  have hmerged : ∀ arg ∈ mergedArgs (words output) args, Literal arg := by
    intro arg harg
    rcases List.mem_append.mp harg with hold | hnew
    · exact hexisting arg hold
    · exact hargs arg (List.mem_of_mem_filter hnew)
  have hvalue : stripNewlines (host.xargs (printfn (mergedArgs (words output) args))) =
      joinWords (echoed (mergedArgs (words output) args)) := by
    rw [lawful.xargs_literal (by rwa [words_printfn hmerged]), words_printfn hmerged]
  rw [setBootargs, bind_of_ok (getBootargs_eq lawful hprint hexisting), expandArray_bind,
    expandArray_bind]
  change (if _ then _ else if _ then _ else
    plistsSet buddy bootargsKey
      (stripNewlines (host.xargs (printfn (mergedArgs (words output) args)))) _) = _
  rw [hvalue]
  by_cases hstrict : options.nounset = true ∧ options.emptyUnbound = true
  · by_cases hnone : words output = []
    · simp [hnone, hstrict]
    · by_cases hempty : args = []
      · simp [hnone, hempty, hstrict]
      · simp [hnone, hempty, plistsSet]
  · simp [hstrict, plistsSet]

/-- Literal arguments are merged by name exactly if no existing name is a mere beginning of
a new argument, no array is empty where the shell would stop at one, and `echo` gets no
`-n`. -/
theorem setBootargs_appends_iff (lawful : host.Lawful) {args : List Text}
    (hprint : buddy.print s.calls s.config bootargsKey = some output)
    (hset : ∀ value, (buddy.edit (s.calls + 1) s.config (.set bootargsKey value)).isSome = true)
    (hexisting : ∀ arg ∈ words output, Literal arg) (hargs : ∀ arg ∈ args, Literal arg) :
    (∃ t value, setBootargs options buddy host args s = .ok () t ∧
        t.edits = s.edits ++ [(s.calls + 1, .set bootargsKey value)] ∧
        words value = appendMissing (words output) args) ↔
      (options.nounset = true ∧ options.emptyUnbound = true → words output ≠ [] ∧ args ≠ []) ∧
        (words output ++ args).head? ≠ some (text "-n") ∧
        ∀ newArg ∈ args, ∀ arg ∈ words output, beforeEquals arg <+: newArg →
          beforeEquals newArg ∈ (words output).map beforeEquals := by
  let merged := echoed (mergedArgs (words output) args)
  have hmerged : ∀ arg ∈ merged, Token arg := by
    intro arg harg
    rcases List.mem_append.mp (echoed_subset _ harg) with hold | hnew
    · exact token_of_mem_words hold
    · exact (hargs arg (List.mem_of_mem_filter hnew)).1
  obtain ⟨config, hconfig⟩ := Option.isSome_iff_exists.mp (hset (joinWords merged))
  have hrun : runEdit buddy (.set bootargsKey (joinWords merged)) (afterPrint s output) =
      .ok () { afterPrint s output with
        config, calls := s.calls + 2,
        edits := s.edits ++ [(s.calls + 1, .set bootargsKey (joinWords merged))] } := by
    simp only [runEdit, afterPrint, hconfig]
  rw [setBootargs_eq lawful hprint hexisting hargs, ← echoed_mergedArgs_iff]
  split
  · rename_i hstop
    apply iff_of_false
    · rintro ⟨t, value, hok, -⟩
      cases hok
    · intro hgoes
      rcases hstop.1 with hnone | hnone
      · exact (hgoes.1 hstop.2).1 hnone
      · exact (hgoes.1 hstop.2).2 hnone
  · rename_i hgoes
    rw [hrun]
    constructor
    · rintro ⟨t, value, hok, hedits, hvalue⟩
      cases hok
      have hsame : joinWords merged = value := by
        simpa using hedits
      rw [← hsame, words_joinWords hmerged] at hvalue
      refine ⟨fun hstrict => ⟨fun hnone => ?_, fun hnone => ?_⟩, hvalue⟩
      · exact hgoes ⟨Or.inl hnone, hstrict⟩
      · exact hgoes ⟨Or.inr hnone, hstrict⟩
    · rintro ⟨-, hvalue⟩
      exact ⟨_, joinWords merged, rfl, rfl, (words_joinWords hmerged).trans hvalue⟩

/-- A host on which no pattern matches a file. -/
def echoHost : Host where
  glob w := [w]
  xargs t := joinWords (echoed (words t)) ++ [0x0A]

theorem echoHost_lawful : echoHost.Lawful where
  glob_literal _ := rfl
  xargs_literal {t} _ := by
    apply stripNewlines_append_newline
    apply newline_not_mem_joinWords
    exact fun w hw => token_of_mem_words (echoed_subset _ hw)

def bootArgsConfig (value : Text) : Plist :=
  .dict [("NVRAM", .dict [("Add", .dict [("7C436110-AB2A-4BBB-A880-FE41995C9F82",
    .dict [("boot-args", .string value)])])])]

def bootArgsSession (value : Text) : Session Plist where
  config := bootArgsConfig value
  backup := none
  getval := []
  calls := 0
  looked := []
  edits := []

/-- The options of a script that sets none. -/
def plainOptions : Options := ⟨false, false, false⟩

theorem new_name_appended :
    ∃ t value, setBootargs plainOptions Plist.buddy echoHost [text "-krybeta", text "krygpu=AMD"]
        (bootArgsSession (text "-v krygpu=NVIDIA")) = .ok () t ∧
      t.edits = [] ++ [(0 + 1, .set bootargsKey value)] ∧
      words value =
        appendMissing (words (text "-v krygpu=NVIDIA\n")) [text "-krybeta", text "krygpu=AMD"] := by
  have hprint : Plist.buddy.print 0 (bootArgsConfig (text "-v krygpu=NVIDIA")) bootargsKey =
      some (text "-v krygpu=NVIDIA\n") := by
    decide +kernel
  have hset : ∀ value, (Plist.buddy.edit (0 + 1) (bootArgsConfig (text "-v krygpu=NVIDIA"))
      (.set bootargsKey value)).isSome = true :=
    fun _ => rfl
  exact (setBootargs_appends_iff (s := bootArgsSession (text "-v krygpu=NVIDIA")) echoHost_lawful
    hprint hset (by decide +kernel) (by decide +kernel)).mpr (by decide +kernel)

theorem longer_name_lost :
    let run := setBootargs plainOptions Plist.buddy echoHost [text "-lilubetaall"]
      (bootArgsSession (text "-lilubeta"))
    completed run = true ∧
      (endState run).edits = [(1, .set bootargsKey (text "-lilubeta"))] ∧
      appendMissing [text "-lilubeta"] [text "-lilubetaall"] =
        [text "-lilubeta", text "-lilubetaall"] := by
  decide +kernel

end Merging

end OpenCore

end Kryptonite
