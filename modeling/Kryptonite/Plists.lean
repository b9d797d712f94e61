/-
`plists.sh` and the part of `tools.sh` it relies on.  `PlistBuddy` is a
parameter: it may answer every call differently, and a command that fails
leaves the file as it was.  What is assumed of it on property lists of
dictionaries, arrays, strings and booleans is `PlistBuddy.Lawful`; `Plist.buddy`
is one tool that obeys it, for concrete runs.
-/
import Kryptonite.Script
import Kryptonite.ShellText

namespace Kryptonite

namespace Plists

open Script ShellText

/-- One component of a key such as `:Kernel:Add:0:BundlePath`. -/
inductive Key where
  | name (key : String)
  | index (i : Nat)
deriving Repr, DecidableEq

inductive Edit where
  | add (key : List Key) (type : String) (value : Text)
  | set (key : List Key) (value : Text)
deriving Repr, DecidableEq

/-- `print` is the output of a `Print` command that succeeds, `edit` the file
after an `Add` or `Set` command that succeeds. -/
structure PlistBuddy (Config : Type) where
  print : Nat → Config → List Key → Option Text
  edit : Nat → Config → Edit → Option Config

/-- The options a script runs under; `emptyUnbound` is the treatment of an empty
array as an unbound variable by the shell's version. -/
structure Options where
  errexit : Bool
  nounset : Bool
  emptyUnbound : Bool
deriving Repr, DecidableEq

/-- The configuration file, its backup, the variable `plists_getval`, the number
of `PlistBuddy` calls, the keys looked up and the edits made so far. -/
structure Session (Config : Type) where
  config : Config
  backup : Option Config
  getval : Text
  calls : Nat
  looked : List (List Key)
  edits : List (Nat × Edit)

/-- The error is the status the script exits with. -/
abbrev ScriptM (Config : Type) := EStateM Nat (Session Config)

section Scripts

variable {Config : Type} (options : Options) (buddy : PlistBuddy Config)

def exitErr : ScriptM Config Unit := throw 1

/-- `exit_if_failed`, given `$?`. -/
def exitIfFailed (status : Nat) : ScriptM Config Unit :=
  if status ≠ 0 then exitErr else pure ()

/-- A command that has failed where its status is not tested. -/
def failed : ScriptM Config Unit := if options.errexit then throw 1 else pure ()

/-- `plists_get`; the status is that of its last command, never that of
`PlistBuddy`. -/
def plistsGet (key : List Key) : ScriptM Config Nat := fun session =>
  let called := { session with
    calls := session.calls + 1, looked := session.looked ++ [key] }
  match buddy.print session.calls session.config key with
  | some output =>
      let value := stripNewlines output
      .ok 0 { called with
        getval := if (text "File Doesn't Exist").isPrefixOf value then [] else value }
  | none => if options.errexit then .error 1 called else .ok 0 { called with getval := [] }

/-- A `PlistBuddy` command that edits the file, followed by `exit_if_failed`. -/
def runEdit (edit : Edit) : ScriptM Config Unit := fun session =>
  let called := { session with calls := session.calls + 1 }
  match buddy.edit session.calls session.config edit with
  | some config =>
      .ok () { called with config, edits := session.edits ++ [(session.calls, edit)] }
  | none => .error 1 called

theorem runEdit_of_some {edit : Edit} {s : Session Config} {config : Config}
    (h : buddy.edit s.calls s.config edit = some config) :
    runEdit buddy edit s = .ok () { s with
      config, calls := s.calls + 1, edits := s.edits ++ [(s.calls, edit)] } := by
  rw [runEdit, h]

theorem runEdit_of_none {edit : Edit} {s : Session Config}
    (h : buddy.edit s.calls s.config edit = none) :
    runEdit buddy edit s = .error 1 { s with calls := s.calls + 1 } := by
  rw [runEdit, h]

theorem exitIfFailed_keeps {inv : Session Config → Prop} (status : Nat) :
    Keeps inv (exitIfFailed status) :=
  Triple.ite (fun _ => Triple.throw fun _ h => h) fun _ => Keeps.pure _

theorem failed_keeps {inv : Session Config → Prop} : Keeps inv (failed options) :=
  Triple.ite (fun _ => Triple.throw fun _ h => h) fun _ => Keeps.pure _

/-- A lookup changes nothing but the last value and what is known of the calls. -/
theorem plistsGet_keeps {inv : Session Config → Prop} (key : List Key)
    (h : ∀ s getval calls looked, inv s → inv { s with getval, calls, looked }) :
    Keeps inv (plistsGet options buddy key) := by
  intro session hsession
  unfold plistsGet
  cases buddy.print session.calls session.config key with
  | some output => exact h session _ _ _ hsession
  | none =>
      cases options.errexit with
      | true => exact h session session.getval _ _ hsession
      | false => exact h session _ _ _ hsession

def plistsAdd (key : List Key) (type : String) (value : Text) : ScriptM Config Unit :=
  runEdit buddy (.add key type value)

def plistsSet (key : List Key) (value : Text) : ScriptM Config Unit :=
  runEdit buddy (.set key value)

end Scripts

/-- A property list. -/
inductive Plist where
  | string (value : Text)
  | bool (value : Bool)
  | dict (entries : List (String × Plist))
  | array (items : List Plist)

namespace Plist

def find : List Key → Plist → Option Plist
  | [], plist => some plist
  | .name key :: path, .dict entries => (entries.lookup key).bind (find path)
  | .index i :: path, .array items => items[i]?.bind (find path)
  | _ :: _, _ => none

def spaces (indent : Nat) : Text := List.replicate indent 0x20

mutual

/-- What `Print` writes; the entries of a container are indented by four. -/
def render (indent : Nat) : Plist → Text
  | .string value => value
  | .bool value => text (if value then "true" else "false")
  | .dict entries =>
      text "Dict \x7b\n" ++ renderEntries (indent + 4) entries ++ spaces indent ++
        text "\x7d"
  | .array items =>
      text "Array \x7b\n" ++ renderItems (indent + 4) items ++ spaces indent ++ text "\x7d"

def renderEntries (indent : Nat) : List (String × Plist) → Text
  | [] => []
  | (key, plist) :: entries =>
      spaces indent ++ text key ++ text " = " ++ render indent plist ++ text "\n" ++
        renderEntries indent entries

def renderItems (indent : Nat) : List Plist → Text
  | [] => []
  | plist :: items =>
      spaces indent ++ render indent plist ++ text "\n" ++ renderItems indent items

end

/-- Replace the entry for a key, or add one at the end. -/
def insertEntry (key : String) (plist : Plist) : List (String × Plist) → List (String × Plist)
  | [] => [(key, plist)]
  | (other, old) :: entries =>
      if other = key then (key, plist) :: entries
      else (other, old) :: insertEntry key plist entries

/-- Change what is found under a key; dictionaries missing on the way and the
element behind the last one of an array are made. -/
def update (f : Option Plist → Option Plist) : List Key → Option Plist → Option Plist
  | [], old => f old
  | .name key :: path, none => (update f path none).map fun new => .dict [(key, new)]
  | .name key :: path, some (.dict entries) =>
      (update f path (entries.lookup key)).map fun new => .dict (insertEntry key new entries)
  | .index i :: path, some (.array items) =>
      if i ≤ items.length then
        (update f path items[i]?).map fun new =>
          .array (items.take i ++ new :: items.drop (i + 1))
      else none
  | _ :: _, _ => none

def newValue (type : String) (value : Text) : Option Plist :=
  if type = "string" then some (.string value)
  else if type = "bool" then some (.bool (value = text "true"))
  else none

/-- `Add` makes a new entry. -/
def addValue (type : String) (value : Text) (old : Option Plist) : Option Plist :=
  match old with
  | none => newValue type value
  | some _ => none

/-- `Set` gives an entry that is no container a new value of its type. -/
def setValue (value : Text) (old : Option Plist) : Option Plist :=
  match old with
  | some (.string _) => some (.string value)
  | some (.bool _) => some (.bool (value = text "true"))
  | _ => none

/-- `Delete` -/
def remove : List Key → Plist → Option Plist
  | [.name key], .dict entries =>
      if (entries.lookup key).isSome then some (.dict (entries.filter (·.1 ≠ key))) else none
  | [.index i], .array items =>
      if i < items.length then some (.array (items.eraseIdx i)) else none
  | .name key :: path, .dict entries =>
      ((entries.lookup key).bind (remove path)).map fun new =>
        .dict (insertEntry key new entries)
  | .index i :: path, .array items =>
      (items[i]?.bind (remove path)).map fun new => .array (items.set i new)
  | _, _ => none

/-- A key under which `Add` can put a field: that of a dictionary, or of the
element behind the last one of an array. -/
def TakesFields (config : Plist) (key : List Key) : Prop :=
  (∃ entries, config.find key = some (.dict entries)) ∨
    ∃ parent items, key = parent ++ [.index items.length] ∧
      config.find parent = some (.array items)

def buddy : PlistBuddy Plist where
  print _ config key := (config.find key).map fun plist => plist.render 0 ++ text "\n"
  edit _ config edit :=
    match edit with
    | .add key type value => update (addValue type value) key (some config)
    | .set key value => update (setValue value) key (some config)

@[simp] theorem lookup_insertEntry (key : String) (plist : Plist)
    (entries : List (String × Plist)) :
    (insertEntry key plist entries).lookup key = some plist := by
  induction entries with
  | nil => simp [insertEntry]
  | cons entry entries ih =>
      obtain ⟨first, old⟩ := entry
      by_cases hkey : first = key
      · simp [insertEntry, hkey]
      · simp [insertEntry, hkey, List.lookup_cons, beq_false_of_ne (Ne.symm hkey), ih]

theorem lookup_insertEntry_of_ne {key other : String} (h : other ≠ key) (plist : Plist)
    (entries : List (String × Plist)) :
    (insertEntry key plist entries).lookup other = entries.lookup other := by
  induction entries with
  | nil => simp [insertEntry, List.lookup_cons, beq_false_of_ne h]
  | cons entry entries ih =>
      obtain ⟨first, old⟩ := entry
      by_cases hkey : first = key
      · simp [insertEntry, hkey, List.lookup_cons, beq_false_of_ne h]
      · simp [insertEntry, hkey, List.lookup_cons, ih]

theorem find_append (first rest : List Key) (plist : Plist) :
    plist.find (first ++ rest) = (plist.find first).bind (find rest) := by
  induction first generalizing plist with
  | nil => rfl
  | cons key first ih =>
      have hnext : ∀ next : Option Plist,
          next.bind (find (first ++ rest)) = (next.bind (find first)).bind (find rest) := by
        intro next
        cases next with
        | none => rfl
        | some next => exact ih next
      cases key <;> cases plist <;> simp [find, hnext]

/-- What an update puts under its key is made from what was there. -/
theorem find_update {f : Option Plist → Option Plist} {path : List Key} {old : Option Plist}
    {new : Plist} (h : update f path old = some new) :
    ∃ made, f (old.bind (find path)) = some made ∧ new.find path = some made := by
  induction path, old using update.induct generalizing new with
  | case1 old =>
      refine ⟨new, ?_, rfl⟩
      cases old <;> simpa [update, find] using h
  | case2 key path ih =>
      obtain ⟨entry, hentry, rfl⟩ := Option.map_eq_some_iff.mp h
      simpa [find] using ih hentry
  | case3 key path entries ih =>
      obtain ⟨entry, hentry, rfl⟩ := Option.map_eq_some_iff.mp h
      simpa [find] using ih hentry
  | case4 i path items hi ih =>
      rw [update, if_pos hi] at h
      obtain ⟨item, hitem, rfl⟩ := Option.map_eq_some_iff.mp h
      have hfound : (items.take i ++ item :: items.drop (i + 1))[i]? = some item := by
        simp [Nat.min_eq_left hi]
      simpa [find, hfound] using ih hitem
  | case5 i path items hi =>
      rw [update, if_neg hi] at h
      cases h
  | case6 => simp [update] at h

end Plist

/-- What is under a key is printed line by line: a container with a line that
opens it, its entries and a closing brace, a value as it is.  Where there is
nothing the command fails. -/
def PlistBuddy.Prints (buddy : PlistBuddy Plist) : Prop :=
  ∀ n config key, buddy.print n config key =
    (Plist.find key config).map fun plist => plist.render 0 ++ text "\n"

/-- What is assumed of `PlistBuddy`: the printed form, `Set` of a flag, `Add` of a
new field, also under the index behind the last one of an array, and the failure
of a `Set` of what is missing and of an `Add` of what is there.  Nothing is
assumed of an index further behind, nor of what the scripts do not ask for. -/
structure PlistBuddy.Lawful (buddy : PlistBuddy Plist) : Prop where
  prints : buddy.Prints
  set_flag : ∀ n config key flag value, Plist.find key config = some (.bool flag) →
    buddy.edit n config (.set key value) = Plist.update (Plist.setValue value) key (some config)
  set_missing : ∀ n config key value, Plist.find key config = none →
    buddy.edit n config (.set key value) = none
  add_field : ∀ n config key field type value, config.TakesFields key →
    (Plist.newValue type value).isSome = true →
    Plist.find (key ++ [.name field]) config = none →
    buddy.edit n config (.add (key ++ [.name field]) type value) =
      Plist.update (Plist.addValue type value) (key ++ [.name field]) (some config)
  add_present : ∀ n config key type value found, Plist.find key config = some found →
    buddy.edit n config (.add key type value) = none

namespace Plist

theorem update_eq_none {f : Option Plist → Option Plist} {path : List Key} {old : Option Plist}
    (h : f (old.bind (find path)) = none) : update f path old = none := by
  cases hnew : update f path old with
  | none => rfl
  | some new =>
      obtain ⟨made, hmade, -⟩ := find_update hnew
      rw [h] at hmade
      cases hmade

theorem buddy_lawful : buddy.Lawful where
  prints _ _ _ := rfl
  set_flag _ _ _ _ _ _ := rfl
  set_missing _ config key value h := update_eq_none (by rw [Option.bind_some, h]; rfl)
  add_field _ _ _ _ _ _ _ _ _ := rfl
  add_present _ config key type value found h :=
    update_eq_none (by rw [Option.bind_some, h]; rfl)

/-- What the shell reads when `Print` finds this, or finds nothing. -/
def readValue (found : Option Plist) : Text :=
  match found with
  | none => []
  | some plist =>
      let value := stripNewlines (plist.render 0 ++ text "\n")
      if (text "File Doesn't Exist").isPrefixOf value then [] else value

/-- An array as it is printed. -/
theorem render_array (items : List Plist) : (array items).render 0 =
    text "Array \x7b" ++ 0x0A :: (renderItems 4 items ++ [0x7D]) := by
  have hfirst : text "Array \x7b\n" = text "Array \x7b" ++ [0x0A] := by decide +kernel
  have hlast : text "\x7d" = [0x7D] := by decide +kernel
  simp [render, spaces, hfirst, hlast]

theorem readValue_array (items : List Plist) :
    readValue (some (array items)) = (array items).render 0 := by
  have hstrip : stripNewlines ((array items).render 0 ++ text "\n") =
      (array items).render 0 := by
    rw [text_newline, render_array]
    simp [stripNewlines]
  have hmessage : (text "File Doesn't Exist").isPrefixOf ((array items).render 0) =
      false := by
    rw [render_array]
    rfl
  simp [readValue, hstrip, hmessage]

/-- The session once a key has been looked up. -/
def afterGet (key : List Key) (s : Session Plist) : Session Plist :=
  { s with
    calls := s.calls + 1, looked := s.looked ++ [key], getval := readValue (s.config.find key) }

section Lookups

variable {options : Options} {buddy : PlistBuddy Plist} {key : List Key} {s t : Session Plist}

theorem plistsGet_eq (hprints : buddy.Prints)
    (h : options.errexit = false ∨ s.config.find key ≠ none) :
    plistsGet options buddy key s = .ok 0 (afterGet key s) := by
  cases hfound : s.config.find key with
  | none =>
      have hplain : options.errexit = false := h.resolve_right fun hne => hne hfound
      simp [plistsGet, hprints _ _ _, hfound, hplain, afterGet, readValue]
  | some plist => simp [plistsGet, hprints _ _ _, hfound, afterGet, readValue]

end Lookups

/-- A value that is neither empty nor the message about a missing file was printed. -/
theorem readValue_eq_iff {value : Text} (hvalue : value ≠ [])
    (hmessage : (text "File Doesn't Exist").isPrefixOf value = false) (found : Option Plist) :
    readValue found = value ↔
      found.map (fun plist => stripNewlines (plist.render 0)) = some value := by
  cases found with
  | none => simpa [readValue] using Ne.symm hvalue
  | some plist =>
      have hstrip : stripNewlines (plist.render 0 ++ text "\n") =
          stripNewlines (plist.render 0) := by
        rw [text_newline]
        simp [stripNewlines]
      simp only [readValue, hstrip, Option.map_some, Option.some.injEq]
      split
      · rename_i hleading
        apply iff_of_false (Ne.symm hvalue)
        intro heq
        rw [heq, hmessage] at hleading
        cases hleading
      · rfl

/-- An entry that is found under a path of names can be deleted. -/
theorem remove_isSome {keys : List String} (hkeys : keys ≠ []) {plist found : Plist}
    (h : plist.find (keys.map .name) = some found) :
    (plist.remove (keys.map .name)).isSome = true := by
  induction keys generalizing plist with
  | nil => exact absurd rfl hkeys
  | cons key keys ih =>
      cases plist with
      | dict entries =>
          simp only [List.map_cons, find] at h
          obtain ⟨entry, hentry, hfound⟩ := Option.bind_eq_some_iff.mp h
          cases keys with
          | nil => simp [remove, hentry]
          | cons next keys => simpa [remove, hentry] using ih (by simp) hfound
      | _ => simp [find] at h

/-- What was deleted can be added again. -/
theorem update_isSome_of_remove {f : Option Plist → Option Plist} (hf : (f none).isSome = true)
    {keys : List String} {plist rest : Plist} (h : plist.remove (keys.map .name) = some rest) :
    (update f (keys.map .name) (some rest)).isSome = true := by
  induction keys generalizing plist rest with
  | nil => simp [remove] at h
  | cons key keys ih =>
      cases plist with
      | dict entries =>
          cases keys with
          | nil =>
              simp only [List.map_cons, List.map_nil, remove] at h
              split at h
              · cases h
                have hgone : (entries.filter (·.1 ≠ key)).lookup key = none := by
                  apply List.lookup_eq_none_iff.mpr
                  intro entry hentry
                  simpa using Ne.symm (of_decide_eq_true (List.mem_filter.mp hentry).2)
                rw [List.map_cons, List.map_nil, update, hgone]
                simpa [update] using hf
              · cases h
          | cons next keys =>
              obtain ⟨made, hmade, rfl⟩ := Option.map_eq_some_iff.mp h
              obtain ⟨entry, hentry, hremove⟩ := Option.bind_eq_some_iff.mp hmade
              simpa [update] using ih hremove
      | _ => cases keys <;> simp [remove] at h

end Plist

section Reading

variable {α β γ : Type} {config : Plist}

/-- The script reads the file only and ends with this value. -/
def Reads (config : Plist) (m : ScriptM Plist α) (a : α) : Prop :=
  ∀ s : Session Plist, s.config = config → ∃ t : Session Plist, m s = .ok a t ∧ t.config = config

theorem Reads.pure (a : α) : Reads config (Pure.pure a) a :=
  fun s hs => ⟨s, rfl, hs⟩

theorem Reads.bind {m : ScriptM Plist α} {f : α → ScriptM Plist β} {a : α} {b : β}
    (hm : Reads config m a) (hf : Reads config (f a) b) : Reads config (m >>= f) b := by
  intro s hs
  obtain ⟨t, hrun, ht⟩ := hm s hs
  obtain ⟨u, hrest, hu⟩ := hf t ht
  exact ⟨u, (bind_of_ok hrun).trans hrest, hu⟩

theorem Reads.foldlM {f : β → γ → ScriptM Plist β} {g : β → γ → β}
    (h : ∀ b x, Reads config (f b x) (g b x)) (xs : List γ) (b : β) :
    Reads config (xs.foldlM f b) (xs.foldl g b) := by
  induction xs generalizing b with
  | nil => exact Reads.pure b
  | cons x xs ih =>
      rw [List.foldlM_cons]
      exact (h b x).bind (ih _)

end Reading

section Edits

variable {Config : Type} (buddy : PlistBuddy Config)

/-- The file after these commands, the first of which is the call `n`. -/
def applyEdits : Nat → Config → List Edit → Option Config
  | _, config, [] => some config
  | n, config, edit :: edits => (buddy.edit n config edit).bind fun config =>
      applyEdits (n + 1) config edits

/-- Commands that are run one after the other either all succeed, or stop at one
that fails with the file as those before it have left it. -/
theorem forM_runEdit (edits : List Edit) (s : Session Config) :
    (∃ t, edits.forM (runEdit buddy) s = .ok () t ∧
        applyEdits buddy s.calls s.config edits = some t.config ∧ t.backup = s.backup) ∨
      ∃ k t, edits.forM (runEdit buddy) s = .error 1 t ∧
        applyEdits buddy s.calls s.config (edits.take k) = some t.config ∧
        t.backup = s.backup := by
  induction edits generalizing s with
  | nil => exact .inl ⟨s, rfl, rfl, rfl⟩
  | cons edit edits ih =>
      cases hedit : buddy.edit s.calls s.config edit with
      | none =>
          refine .inr ⟨0, _, bind_of_error (runEdit_of_none buddy hedit), rfl, rfl⟩
      | some config =>
          have hrun := runEdit_of_some buddy hedit
          rcases ih { s with
            config, calls := s.calls + 1, edits := s.edits ++ [(s.calls, edit)] } with
            ⟨t, hrest, hconfig, hbackup⟩ | ⟨k, t, hrest, hconfig, hbackup⟩
          · refine .inl ⟨t, (bind_of_ok hrun).trans hrest, ?_, hbackup⟩
            rw [applyEdits, hedit]
            exact hconfig
          · refine .inr ⟨k + 1, t, (bind_of_ok hrun).trans hrest, ?_, hbackup⟩
            rw [List.take_succ_cons, applyEdits, hedit]
            exact hconfig

end Edits

end Plists

end Kryptonite
