/-
The menu of `disks_show`, with `ui.sh`: which volume is handed to
`diskutil eraseVolume` on what is typed.

The input is the text typed from a prompt on.  A `read -n1` takes one character
of it and leaves the rest to the next prompt.
-/
import Kryptonite.Disks

namespace Kryptonite

namespace Disks

open Script ShellText

section Menu

def isDigit (byte : UInt8) : Bool := 0x30 ≤ byte && byte ≤ 0x39

/-- The value of decimal digits in a numeric test. -/
def decimalValue (digits : Text) : Nat :=
  digits.foldl (fun value digit => 10 * value + (digit.toNat - 0x30)) 0

/-- `read -r -n1`: the value, without blanks, and the input that is left. -/
def readChar : Text → Text × Text
  | [] => ([], [])
  | byte :: rest => (if isBlank byte then [] else [byte], rest)

/-- `ui_confirm`; the prompt is repeated at any other answer. -/
def uiConfirm : Text → Option (Bool × Text)
  | [] => none
  | byte :: rest =>
      let input := (readChar (byte :: rest)).1
      if input = text "Y" ∨ input = text "y" then some (true, rest)
      else if input = text "N" ∨ input = text "n" then some (false, rest)
      else uiConfirm rest

/-- The numbers of `ui_menu_show`, each with the item next to it. -/
def uiMenuShow (items : List Text) : List (Nat × Text) :=
  items.zipIdx.map fun (item, i) => (i + 1, item)

/-- The input behind the line. -/
def behindLine (typed : Text) : Text := (typed.dropWhile (· ≠ 0x0A)).drop 1

/-- What `ui_menu_select` reads.  From ten items on `rn1` is empty, which is no name of a
variable: the bash of macOS (3.2) reads a line and then fails. -/
def readChoice (items : List Text) (typed : Text) : Text × Text :=
  if items.length < 10 then readChar typed else ([], behindLine typed)

/-- `ui_menu_selected`, which is -1 for `none`. -/
def selected (items : List Text) (input : Text) : Option Nat :=
  if ¬ (input ≠ [] ∧ input.all isDigit) ∨ decimalValue input < 1 ∨
      items.length < decimalValue input then none
  else some (decimalValue input - 1)

variable {terminal : Terminal}

/-- `disks_primary_names` with the two entries of `disks_show`. -/
def menuItems (primary : Primary terminal) : List Text :=
  primary.names ++ [text "Refresh", text "Quit"]

inductive Choice where
  | again
  | quit
  | format (selection : Nat)
deriving Repr, DecidableEq

/-- What `disks_show` does at a selection; an invalid one and "Refresh" lead to the menu
again. -/
def choose (primary : Primary terminal) (selection : Option Nat) : Choice :=
  match selection with
  | none => .again
  | some selection =>
      if selection = (menuItems primary).length - 2 then .again
      else if selection = (menuItems primary).length - 1 then .quit
      else .format selection

/-- How `disks_show` ends; `waiting` if no disks or no input are left. -/
inductive Outcome where
  | erase (id : Text)
  | exit (status : Nat)
  | waiting
deriving Repr, DecidableEq

/-- `disks_format` up to the erasure. -/
def disksFormat (primary : Primary terminal) (selection : Nat) (typed : Text) : Outcome :=
  match uiConfirm typed with
  | some (true, _) => .erase (primary.ids[selection]?.getD [])
  | some (false, _) => .exit 1
  | none => .waiting

/-- `disks_show`, given the results of its calls of `disks_get`. -/
def disksShow : List (Primary terminal) → Text → Outcome
  | [], _ => .waiting
  | primary :: later, typed =>
      if primary.ids.length < 1 then
        match uiConfirm typed with
        | some (true, rest) => disksShow later rest
        | some (false, _) => .exit 1
        | none => .waiting
      else
        let (input, rest) := readChoice (menuItems primary) typed
        match choose primary (selected (menuItems primary) input) with
        | .again => disksShow later rest
        | .quit => .exit 0
        | .format selection => disksFormat primary selection rest

end Menu

section Choices

variable {terminal : Terminal} (primary : Primary terminal)

/-- The digit of one of `n` volumes. -/
def Chooses (n : Nat) (byte : UInt8) : Prop := 0x31 ≤ byte.toNat ∧ byte.toNat ≤ 0x30 + n

/-- The digit of "Quit". -/
def Quits (n : Nat) (byte : UInt8) : Prop := byte.toNat = 0x30 + (n + 2)

instance (n : Nat) (byte : UInt8) : Decidable (Chooses n byte) :=
  inferInstanceAs (Decidable (_ ∧ _))

instance (n : Nat) (byte : UInt8) : Decidable (Quits n byte) :=
  inferInstanceAs (Decidable (byte.toNat = 0x30 + (n + 2)))

theorem Primary.length_names : primary.names.length = primary.ids.length :=
  primary.labelled.length_eq

theorem length_menuItems : (menuItems primary).length = primary.ids.length + 2 := by
  simp [menuItems, primary.length_names]

theorem isDigit_iff (byte : UInt8) :
    isDigit byte = true ↔ 0x30 ≤ byte.toNat ∧ byte.toNat ≤ 0x39 := by
  simp [isDigit, UInt8.le_iff_toNat_le]

theorem Chooses.isDigit {n : Nat} {byte : UInt8} (h : Chooses n byte) (hn : n < 8) :
    isDigit byte = true := by
  have := h.1
  have := h.2
  rw [isDigit_iff]
  omega

theorem Quits.not_chooses {n : Nat} {byte : UInt8} (h : Quits n byte) : ¬ Chooses n byte := by
  intro hchooses
  have := hchooses.2
  rw [Quits] at h
  omega

theorem selected_nil (items : List Text) : selected items [] = none := by
  simp [selected]

theorem selected_char (items : List Text) (byte : UInt8) :
    selected items [byte] =
      if isDigit byte = true ∧ 0x31 ≤ byte.toNat ∧ byte.toNat ≤ 0x30 + items.length then
        some (byte.toNat - 0x31)
      else none := by
  have hvalue : decimalValue [byte] = byte.toNat - 0x30 := by simp [decimalValue]
  rw [selected, hvalue]
  by_cases hdigit : isDigit byte = true
  · have hrange := (isDigit_iff byte).mp hdigit
    have hsame : byte.toNat - 0x30 - 1 = byte.toNat - 0x31 := by omega
    by_cases hin : 0x31 ≤ byte.toNat ∧ byte.toNat ≤ 0x30 + items.length
    · rw [if_neg, if_pos ⟨hdigit, hin⟩, hsame]
      simp [hdigit]
      omega
    · rw [if_pos, if_neg fun h => hin h.2]
      omega
  · simp [hdigit]

theorem choose_none : choose primary none = .again := rfl

theorem choose_some (selection : Nat) : choose primary (some selection) =
    if selection = primary.ids.length then .again
    else if selection = primary.ids.length + 1 then .quit
    else .format selection := by
  simp only [choose, length_menuItems]
  rfl

theorem isBlank_toNat {byte : UInt8} (h : isBlank byte = true) : byte.toNat ≤ 0x20 := by
  simp only [isBlank, Bool.or_eq_true, decide_eq_true_eq] at h
  rcases h with (rfl | rfl) | rfl <;> decide

/-- Of fewer than ten items one is chosen by the first character. -/
theorem choose_char (h : primary.ids.length < 8) (byte : UInt8) (rest : Text) :
    choose primary (selected (menuItems primary)
        (readChoice (menuItems primary) (byte :: rest)).1) =
      if Chooses primary.ids.length byte then .format (byte.toNat - 0x31)
      else if Quits primary.ids.length byte then .quit
      else .again := by
  have hlength := length_menuItems primary
  have hquits_iff : Quits primary.ids.length byte ↔
      byte.toNat = 0x30 + (primary.ids.length + 2) := Iff.rfl
  have hchooses_iff : Chooses primary.ids.length byte ↔
      0x31 ≤ byte.toNat ∧ byte.toNat ≤ 0x30 + primary.ids.length := Iff.rfl
  rw [readChoice, if_pos (by omega), readChar]
  by_cases hblank : isBlank byte = true
  · have hsmall := isBlank_toNat hblank
    rw [if_pos hblank, if_neg (mt hchooses_iff.mp (by omega)),
      if_neg (mt hquits_iff.mp (by omega)), selected_nil, choose_none]
  · rw [if_neg hblank, selected_char]
    by_cases hin : isDigit byte = true ∧ 0x31 ≤ byte.toNat ∧
        byte.toNat ≤ 0x30 + (menuItems primary).length
    · rw [if_pos hin, choose_some]
      by_cases hchooses : Chooses primary.ids.length byte
      · have hrange := hchooses_iff.mp hchooses
        rw [if_pos hchooses, if_neg (by omega), if_neg (by omega)]
      · have hrange := mt hchooses_iff.mpr hchooses
        by_cases hquits : Quits primary.ids.length byte
        · have hvalue := hquits_iff.mp hquits
          rw [if_neg hchooses, if_pos hquits, if_neg (by omega), if_pos (by omega)]
        · have hvalue := mt hquits_iff.mpr hquits
          rw [if_neg hchooses, if_neg hquits, if_pos (by omega)]
    · rw [if_neg hin, choose_none]
      rw [isDigit_iff] at hin
      rw [if_neg (mt hchooses_iff.mp (by omega)), if_neg (mt hquits_iff.mp (by omega))]

theorem readChoice_char (h : primary.ids.length < 8) (byte : UInt8) (rest : Text) :
    (readChoice (menuItems primary) (byte :: rest)).2 = rest := by
  have hlength := length_menuItems primary
  rw [readChoice, if_pos (by omega), readChar]

/-- Of ten items or more none can be chosen. -/
theorem readChoice_many (h : 8 ≤ primary.ids.length) (typed : Text) :
    readChoice (menuItems primary) typed = ([], behindLine typed) := by
  have hlength := length_menuItems primary
  rw [readChoice, if_neg (by omega)]

end Choices

section Rounds

variable {terminal : Terminal} {primary : Primary terminal}

theorem uiConfirm_append (a b : Text) :
    uiConfirm (a ++ b) = match uiConfirm a with
      | some (answer, rest) => some (answer, rest ++ b)
      | none => uiConfirm b := by
  induction a with
  | nil => rfl
  | cons byte a ih =>
      have hinput : (readChar (byte :: (a ++ b))).1 = (readChar (byte :: a)).1 := rfl
      simp only [List.cons_append, uiConfirm, hinput]
      by_cases hyes : (readChar (byte :: a)).1 = text "Y" ∨ (readChar (byte :: a)).1 = text "y"
      · simp only [if_pos hyes]
      · by_cases hno : (readChar (byte :: a)).1 = text "N" ∨ (readChar (byte :: a)).1 = text "n"
        · simp only [if_neg hyes, if_pos hno]
        · simp only [if_neg hyes, if_neg hno, ih]

/-- One round at a menu of fewer than ten items. -/
theorem disksShow_char (hn : 1 ≤ primary.ids.length) (h : primary.ids.length < 8)
    (later : List (Primary terminal)) (byte : UInt8) (rest : Text) :
    disksShow (primary :: later) (byte :: rest) =
      if Chooses primary.ids.length byte then disksFormat primary (byte.toNat - 0x31) rest
      else if Quits primary.ids.length byte then .exit 0
      else disksShow later rest := by
  rw [disksShow, if_neg (by omega)]
  simp only [choose_char primary h, readChoice_char primary h]
  by_cases hchooses : Chooses primary.ids.length byte
  · simp only [if_pos hchooses]
  · by_cases hquits : Quits primary.ids.length byte
    · simp only [if_neg hchooses, if_pos hquits]
    · simp only [if_neg hchooses, if_neg hquits]

/-- One round at the end of the input. -/
theorem disksShow_nil (hn : 1 ≤ primary.ids.length) (later : List (Primary terminal)) :
    disksShow (primary :: later) [] = disksShow later [] := by
  have hread : readChoice (menuItems primary) [] = ([], []) := by
    rw [readChoice]
    split <;> rfl
  rw [disksShow, if_neg (by omega), hread]
  simp only [selected_nil, choose_none]

/-- One round at a menu of ten items or more: the line that is typed has no effect. -/
theorem disksShow_unread (h : 8 ≤ primary.ids.length) (later : List (Primary terminal))
    (typed : Text) : disksShow (primary :: later) typed = disksShow later (behindLine typed) := by
  rw [disksShow, if_neg (by omega), readChoice_many primary h]
  simp only [selected_nil, choose_none]

theorem disksShow_no_input (hn : 1 ≤ primary.ids.length) (rounds : Nat) :
    disksShow (List.replicate rounds primary) [] = .waiting := by
  induction rounds with
  | zero => rfl
  | succ rounds ih => rw [List.replicate_succ, disksShow_nil hn, ih]

theorem disksShow_many (h : 8 ≤ primary.ids.length) (rounds : Nat) (typed : Text) :
    disksShow (List.replicate rounds primary) typed = .waiting := by
  induction rounds generalizing typed with
  | zero => rfl
  | succ rounds ih => rw [List.replicate_succ, disksShow_unread h, ih]

/-- No digit here selects a volume or ends the menu. -/
def Passed (n : Nat) (before : Text) : Prop := ∀ byte ∈ before, ¬ Chooses n byte ∧ ¬ Quits n byte

/-- The volume of the first digit that selects one is formatted. -/
theorem disksShow_erase_iff (hn : 1 ≤ primary.ids.length) (h : primary.ids.length < 8)
    (typed id : Text) :
    (∃ rounds, disksShow (List.replicate rounds primary) typed = .erase id) ↔
      ∃ before byte after, typed = before ++ byte :: after ∧ Passed primary.ids.length before ∧
        Chooses primary.ids.length byte ∧
        disksFormat primary (byte.toNat - 0x31) after = .erase id := by
  constructor
  · rintro ⟨rounds, hshow⟩
    induction rounds generalizing typed with
    | zero => cases hshow
    | succ rounds ih =>
        cases typed with
        | nil =>
            rw [disksShow_no_input hn] at hshow
            cases hshow
        | cons byte rest =>
            rw [List.replicate_succ, disksShow_char hn h] at hshow
            by_cases hchooses : Chooses primary.ids.length byte
            · rw [if_pos hchooses] at hshow
              exact ⟨[], byte, rest, rfl, fun _ hmem => absurd hmem List.not_mem_nil, hchooses,
                hshow⟩
            · by_cases hquits : Quits primary.ids.length byte
              · rw [if_neg hchooses, if_pos hquits] at hshow
                cases hshow
              · rw [if_neg hchooses, if_neg hquits] at hshow
                obtain ⟨before, digit, after, htyped, hpassed, hdigit, hformat⟩ := ih rest hshow
                refine ⟨byte :: before, digit, after, by rw [htyped]; rfl, ?_, hdigit, hformat⟩
                exact List.forall_mem_cons.mpr ⟨⟨hchooses, hquits⟩, hpassed⟩
  · rintro ⟨before, byte, after, rfl, hpassed, hchooses, hformat⟩
    induction before with
    | nil =>
        refine ⟨1, ?_⟩
        rw [List.replicate_one, List.nil_append, disksShow_char hn h, if_pos hchooses]
        exact hformat
    | cons first before ih =>
        obtain ⟨hfirst, hrest⟩ := List.forall_mem_cons.mp hpassed
        obtain ⟨rounds, hrounds⟩ := ih hrest
        refine ⟨rounds + 1, ?_⟩
        rw [List.replicate_succ, List.cons_append, disksShow_char hn h, if_neg hfirst.1,
          if_neg hfirst.2]
        exact hrounds

theorem disksFormat_erase_iff {selection : Nat} {id after : Text}
    (h : primary.ids[selection]? = some id) (other : Text) :
    disksFormat primary selection after = .erase other ↔
      (∃ rest, uiConfirm after = some (true, rest)) ∧ other = id := by
  rw [disksFormat, h]
  cases uiConfirm after with
  | none => simp
  | some answered =>
      obtain ⟨answer, rest⟩ := answered
      cases answer with
      | false => simp
      | true => simp [eq_comm]

theorem selected_lt {items : List Text} {input : Text} {selection : Nat}
    (h : selected items input = some selection) : selection < items.length := by
  rw [selected] at h
  split at h
  · cases h
  · cases h
    omega

theorem choose_format {input : Text} {selection : Nat}
    (h : choose primary (selected (menuItems primary) input) = .format selection) :
    selection < primary.ids.length := by
  cases hselected : selected (menuItems primary) input with
  | none =>
      rw [hselected, choose_none] at h
      cases h
  | some chosen =>
      have hlt := selected_lt hselected
      rw [length_menuItems] at hlt
      rw [hselected, choose_some] at h
      split_ifs at h
      cases h
      omega

/-- Whatever disks are found and whatever is typed, what is erased has been offered. -/
theorem disksShow_erase_mem {answers : List (Primary terminal)} {typed id : Text}
    (h : disksShow answers typed = .erase id) : ∃ primary ∈ answers, id ∈ primary.ids := by
  induction answers generalizing typed with
  | nil => cases h
  | cons primary later ih =>
      have hlater : ∀ {rest}, disksShow later rest = .erase id →
          ∃ other ∈ primary :: later, id ∈ other.ids := by
        intro rest hrest
        obtain ⟨other, hother, hid⟩ := ih hrest
        exact ⟨other, List.mem_cons_of_mem _ hother, hid⟩
      rw [disksShow] at h
      split at h
      · split at h
        · exact hlater h
        · cases h
        · cases h
      · simp only at h
        split at h
        · exact hlater h
        · cases h
        · rename_i selection hformat
          have hid := List.getElem?_eq_getElem (choose_format hformat)
          obtain ⟨-, rfl⟩ := (disksFormat_erase_iff hid id).mp h
          exact ⟨primary, List.mem_cons_self, List.getElem_mem _⟩

end Rounds

section Lines

variable {terminal : Terminal} {primary : Primary terminal}

/-- The volume can get erased on the basis of this line: whatever is typed after it has no
digit, so it may confirm but not select. -/
def ErasedOn (primary : Primary terminal) (line id : Text) : Prop :=
  ∃ rounds more, (∀ byte ∈ more, isDigit byte = false) ∧
    disksShow (List.replicate rounds primary) (line ++ 0x0A :: more) = .erase id

/-- The first answer to the confirmation is no. -/
def Declined (after : Text) : Prop := ∃ rest, uiConfirm after = some (false, rest)

/-- Unless it is declined, a confirmation is given or can still be given. -/
theorem confirmed_iff (after : Text) :
    (∃ more, (∀ byte ∈ more, isDigit byte = false) ∧
        ∃ rest, uiConfirm (after ++ 0x0A :: more) = some (true, rest)) ↔ ¬ Declined after := by
  cases hconfirm : uiConfirm after with
  | none =>
      have hyes : uiConfirm (after ++ 0x0A :: text "y") = some (true, []) := by
        rw [uiConfirm_append, hconfirm]
        decide +kernel
      simp only [Declined, hconfirm, reduceCtorEq, exists_false, not_false_eq_true, iff_true]
      exact ⟨text "y", by decide +kernel, [], hyes⟩
  | some answered =>
      obtain ⟨answer, rest⟩ := answered
      simp only [uiConfirm_append, Declined, hconfirm, Option.some.injEq, Prod.mk.injEq]
      cases answer with
      | false => simp
      | true => simpa using ⟨[], fun _ hmem => absurd hmem List.not_mem_nil⟩

theorem Chooses.getElem? {byte : UInt8} (h : Chooses primary.ids.length byte) :
    ∃ id, primary.ids[byte.toNat - 0x31]? = some id := by
  have hfirst := h.1
  have hlast := h.2
  exact ⟨_, List.getElem?_eq_getElem (show byte.toNat - 0x31 < primary.ids.length by omega)⟩

/-- A digit that occurs before what has none occurs in the line. -/
theorem split_line {line more before after : Text} {byte : UInt8}
    (h : line ++ 0x0A :: more = before ++ byte :: after)
    (hmore : ∀ other ∈ more, isDigit other = false) (hbyte : isDigit byte = true) :
    ∃ rest, line = before ++ byte :: rest ∧ after = rest ++ 0x0A :: more := by
  rcases List.append_eq_append_iff.mp h with ⟨rest, hbefore, hrest⟩ | ⟨rest, hline, hrest⟩
  · have hmem : byte ∈ 0x0A :: more := by
      rw [hrest]
      simp
    rcases List.mem_cons.mp hmem with rfl | hmem
    · exact absurd hbyte (by decide)
    · rw [hmore byte hmem] at hbyte
      cases hbyte
  · cases rest with
    | nil =>
        cases hrest
        exact absurd hbyte (by decide)
    | cons first rest =>
        cases hrest
        exact ⟨rest, hline, rfl⟩

theorem erasedOn_iff (hn : 1 ≤ primary.ids.length) (h : primary.ids.length < 8)
    (line id : Text) :
    ErasedOn primary line id ↔
      ∃ before byte after, line = before ++ byte :: after ∧ Passed primary.ids.length before ∧
        Chooses primary.ids.length byte ∧ ¬ Declined after ∧
        primary.ids[byte.toNat - 0x31]? = some id := by
  constructor
  · rintro ⟨rounds, more, hmore, hshow⟩
    obtain ⟨before, byte, after, htyped, hpassed, hchooses, hformat⟩ :=
      (disksShow_erase_iff hn h _ _).mp ⟨rounds, hshow⟩
    obtain ⟨rest, hline, rfl⟩ := split_line htyped hmore (hchooses.isDigit h)
    obtain ⟨chosen, hchosen⟩ := hchooses.getElem?
    obtain ⟨hconfirm, rfl⟩ := (disksFormat_erase_iff hchosen id).mp hformat
    exact ⟨before, byte, rest, hline, hpassed, hchooses,
      (confirmed_iff rest).mp ⟨more, hmore, hconfirm⟩, hchosen⟩
  · rintro ⟨before, byte, after, rfl, hpassed, hchooses, hdeclined, hchosen⟩
    obtain ⟨more, hmore, hconfirm⟩ := (confirmed_iff after).mpr hdeclined
    have hformat := (disksFormat_erase_iff hchosen id).mpr ⟨hconfirm, rfl⟩
    obtain ⟨rounds, hshow⟩ := (disksShow_erase_iff hn h _ id).mpr
      ⟨before, byte, after ++ 0x0A :: more, rfl, hpassed, hchooses, hformat⟩
    refine ⟨rounds, more, hmore, ?_⟩
    rw [List.append_assoc]
    exact hshow

/-- The decimal number `k`. -/
def decimal (k : Nat) : Text := text (toString k)

theorem decimal_of_lt : ∀ k < 10, decimal k = [UInt8.ofNat (0x30 + k)] := by decide +kernel

/-- The line is the number that is shown next to a volume. -/
def NumberOf (primary : Primary terminal) (line id : Text) : Prop :=
  ∃ k pname, 1 ≤ k ∧ k ≤ primary.ids.length ∧ line = decimal k ∧
    primary.ids[k - 1]? = some id ∧ (k, label terminal pname id) ∈ uiMenuShow (menuItems primary)

theorem mem_uiMenuShow {items : List Text} {k : Nat} {item : Text} (hk : 1 ≤ k)
    (h : items[k - 1]? = some item) : (k, item) ∈ uiMenuShow items := by
  apply List.mem_map.mpr
  refine ⟨(item, k - 1), List.mem_zipIdx_iff_getElem?.mpr h, ?_⟩
  simp only [Prod.mk.injEq, and_true]
  omega

/-- The number before a volume is one more than its index. -/
theorem Primary.shown {k : Nat} {id : Text} (hk : 1 ≤ k) (h : primary.ids[k - 1]? = some id) :
    ∃ pname, (k, label terminal pname id) ∈ uiMenuShow (menuItems primary) := by
  obtain ⟨hi, rfl⟩ := List.getElem?_eq_some_iff.mp h
  have hname : k - 1 < primary.names.length := by
    rw [primary.length_names]
    exact hi
  obtain ⟨pname, hlabel⟩ := (List.forall₂_iff_get.mp primary.labelled).2 (k - 1) hname hi
  refine ⟨pname, mem_uiMenuShow hk ?_⟩
  rw [menuItems, List.getElem?_append_left hname, List.getElem?_eq_getElem hname]
  exact congrArg some hlabel

theorem numberOf_iff (h : primary.ids.length < 8) (line id : Text) :
    NumberOf primary line id ↔ ∃ byte, line = [byte] ∧ Chooses primary.ids.length byte ∧
      primary.ids[byte.toNat - 0x31]? = some id := by
  constructor
  · rintro ⟨k, pname, hk, hkn, rfl, hid, -⟩
    have hvalue : (UInt8.ofNat (0x30 + k)).toNat = 0x30 + k := by
      rw [UInt8.toNat_ofNat']
      omega
    refine ⟨UInt8.ofNat (0x30 + k), decimal_of_lt k (by omega), ?_, ?_⟩
    · rw [Chooses, hvalue]
      omega
    · rw [hvalue, show 0x30 + k - 0x31 = k - 1 by omega]
      exact hid
  · rintro ⟨byte, rfl, ⟨hfirst, hlast⟩, hid⟩
    have hindex : byte.toNat - 0x30 - 1 = byte.toNat - 0x31 := by omega
    rw [← hindex] at hid
    obtain ⟨pname, hshown⟩ := primary.shown (by omega) hid
    refine ⟨byte.toNat - 0x30, pname, by omega, by omega, ?_, hid, hshown⟩
    rw [decimal_of_lt _ (by omega), show 0x30 + (byte.toNat - 0x30) = byte.toNat by omega,
      UInt8.ofNat_toNat]

theorem not_declined_nil : ¬ Declined [] := by
  rintro ⟨rest, hrest⟩
  cases hrest

/-- A line of one character selects the volume of its number. -/
theorem erasedOn_short (hn : 1 ≤ primary.ids.length) (h : primary.ids.length < 8) {line : Text}
    (hline : line.length ≤ 1) (id : Text) :
    ErasedOn primary line id ↔ NumberOf primary line id := by
  rw [erasedOn_iff hn h, numberOf_iff h]
  constructor
  · rintro ⟨before, byte, after, rfl, -, hchooses, -, hid⟩
    simp only [List.length_append, List.length_cons] at hline
    obtain rfl : before = [] := List.length_eq_zero_iff.mp (by omega)
    obtain rfl : after = [] := List.length_eq_zero_iff.mp (by omega)
    exact ⟨byte, rfl, hchooses, hid⟩
  · rintro ⟨byte, rfl, hchooses, hid⟩
    exact ⟨[], byte, [], rfl, fun _ hmem => absurd hmem List.not_mem_nil, hchooses,
      not_declined_nil, hid⟩

/-- Every line has the effect it should have exactly if, at a menu of fewer than ten items, it
has at most one character or any volume that its first digits select is declined by the line
itself, and at a longer menu, it is not the number of a volume. -/
theorem disksShow_erases_iff (hn : 1 ≤ primary.ids.length) (line : Text) :
    (∀ id, ErasedOn primary line id ↔ NumberOf primary line id) ↔
      (primary.ids.length < 8 → line.length ≤ 1 ∨
          ∀ before byte after, line = before ++ byte :: after →
            Passed primary.ids.length before → Chooses primary.ids.length byte →
            Declined after) ∧
        (8 ≤ primary.ids.length → ∀ k, 1 ≤ k → k ≤ primary.ids.length → line ≠ decimal k) := by
  by_cases h : primary.ids.length < 8
  · have hmany : ¬ 8 ≤ primary.ids.length := Nat.not_le.mpr h
    simp only [h, hmany, true_imp_iff, false_imp_iff, and_true]
    by_cases hline : line.length ≤ 1
    · exact iff_of_true (erasedOn_short hn h hline) (Or.inl hline)
    · have hnumber : ∀ id, ¬ NumberOf primary line id := by
        intro id hid
        obtain ⟨byte, rfl, -⟩ := (numberOf_iff h line id).mp hid
        exact hline (Nat.le_refl 1)
      simp only [hline, false_or, hnumber, iff_false, erasedOn_iff hn h]
      constructor
      · intro hnone before byte after hsplit hpassed hchooses
        obtain ⟨id, hid⟩ := hchooses.getElem?
        by_contra hdeclined
        exact hnone id ⟨before, byte, after, hsplit, hpassed, hchooses, hdeclined, hid⟩
      · rintro hall id ⟨before, byte, after, hsplit, hpassed, hchooses, hdeclined, -⟩
        exact hdeclined (hall before byte after hsplit hpassed hchooses)
  · have hmany : 8 ≤ primary.ids.length := Nat.not_lt.mp h
    have hnone : ∀ id, ¬ ErasedOn primary line id := by
      rintro id ⟨rounds, more, -, hshow⟩
      rw [disksShow_many hmany] at hshow
      cases hshow
    simp only [h, hmany, true_imp_iff, false_imp_iff, true_and, hnone, false_iff]
    constructor
    · intro hnumber k hk hkn hline
      have hid := List.getElem?_eq_getElem (show k - 1 < primary.ids.length by omega)
      obtain ⟨pname, hshown⟩ := primary.shown hk hid
      exact hnumber _ ⟨k, pname, hk, hkn, hline, hid, hshown⟩
    · rintro hall id ⟨k, pname, hk, hkn, hline, -⟩
      exact hall k hk hkn hline

/-- Volumes without a name, on one disk each. -/
def unnamed (ids : List Text) : Primary plainTerminal :=
  ids.foldl (fun primary id => primary.add [] id) Primary.empty

theorem second_volume_erased : ErasedOn (unnamed [text "disk2s1", text "disk3s1"]) (text "2")
    (text "disk3s1") := by
  have hn : 1 ≤ (unnamed [text "disk2s1", text "disk3s1"]).ids.length := by
    decide
  have hmany : ¬ 8 ≤ (unnamed [text "disk2s1", text "disk3s1"]).ids.length := by
    decide
  have hline : (text "2").length ≤ 1 := by
    decide +kernel
  have hid : (unnamed [text "disk2s1", text "disk3s1"]).ids[2 - 1]? = some (text "disk3s1") := rfl
  obtain ⟨pname, hshown⟩ := Primary.shown (by decide) hid
  exact ((disksShow_erases_iff hn (text "2")).mpr
    ⟨fun _ => Or.inl hline, fun h => absurd h hmany⟩ (text "disk3s1")).mpr
      ⟨2, pname, by decide, by decide, by decide +kernel, hid, hshown⟩

/-- Of eight volumes not even the first can be selected. -/
theorem eight_volumes_not_selectable :
    let volumes := unnamed (["disk2s1", "disk3s1", "disk4s1", "disk5s1", "disk6s1", "disk7s1",
      "disk8s1", "disk9s1"].map text)
    NumberOf volumes (text "1") (text "disk2s1") ∧
      ∀ rounds more, disksShow (List.replicate rounds volumes) (text "1" ++ 0x0A :: more) =
        .waiting := by
  intro volumes
  have hid : volumes.ids[1 - 1]? = some (text "disk2s1") := rfl
  obtain ⟨pname, hshown⟩ := Primary.shown (by decide) hid
  refine ⟨⟨1, pname, by decide, by decide, by decide +kernel, hid, hshown⟩, ?_⟩
  intro rounds more
  have hmany : 8 ≤ volumes.ids.length := Nat.le_refl 8
  exact disksShow_many hmany rounds _

end Lines

end Disks

end Kryptonite
