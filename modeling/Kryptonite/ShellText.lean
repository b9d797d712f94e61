/-
Byte strings as the shell handles them: words and lines, the escapes of
`printf '%b'`, the expansions that cut a prefix or a suffix.
-/
import Mathlib.Data.List.DropRight
import Mathlib.Data.List.Infix

namespace Kryptonite

/-- The value of a shell variable. -/
abbrev Text := List UInt8

instance lawfulBEqText : LawfulBEq Text := inferInstance

namespace ShellText

def text (s : String) : Text := s.toUTF8.data.toList

theorem text_newline : text "\n" = [0x0A] := by decide +kernel

section Pieces

/-- Split at the separators, keeping empty pieces. -/
def splitBy (separator : UInt8 → Bool) : Text → List Text
  | [] => [[]]
  | byte :: rest =>
      if separator byte then [] :: splitBy separator rest
      else match splitBy separator rest with
        | [] => [[byte]]
        | piece :: pieces => (byte :: piece) :: pieces

def isBlank (byte : UInt8) : Bool := byte = 0x20 || byte = 0x09 || byte = 0x0A

/-- The words of an unquoted expansion, before pathname expansion. -/
def words (t : Text) : List Text := (splitBy isBlank t).filter (· ≠ [])

def lines (t : Text) : List Text := splitBy (· = 0x0A) t

/-- `${value%%=*}` -/
def beforeEquals (t : Text) : Text := t.takeWhile (· ≠ 0x3D)

def contains (needle t : Text) : Bool := t.tails.any needle.isPrefixOf

/-- `grep -c needle` -/
def grepCount (needle t : Text) : Nat := (lines t).countP (contains needle)

def lower (t : Text) : Text :=
  t.map fun byte => if 0x41 ≤ byte ∧ byte ≤ 0x5A then byte + 0x20 else byte

/-- Whether a line is selected by `grep -i needle`. -/
def containsAnyCase (needle t : Text) : Bool := contains (lower needle) (lower t)

/-- The lines of an output; a newline at its end does not begin another one. -/
def outputLines (t : Text) : List Text :=
  if (lines t).getLast? = some [] then (lines t).dropLast else lines t

/-- `sed -e 1d -e '$d'` -/
def withoutEnds (ls : List Text) : List Text := (ls.drop 1).dropLast

/-- `$(...)` drops the newlines at the end of the output. -/
def stripNewlines (t : Text) : Text := (t.reverse.dropWhile (· = 0x0A)).reverse

/-- `${value##*needle}` -/
def afterLast (needle t : Text) : Text :=
  match (t.tails.filter needle.isPrefixOf).getLast? with
  | some tail => tail.drop needle.length
  | none => t

/-- `${value%/}` -/
def withoutSlash (t : Text) : Text := if t.getLast? = some 0x2F then t.dropLast else t

/-- `${value:-default}` -/
def orDefault (value : Option Text) (default : Text) : Text :=
  match value with
  | some (byte :: rest) => byte :: rest
  | _ => default

end Pieces

section Words

/-- A word: not empty and without blanks. -/
def Token (w : Text) : Prop := w ≠ [] ∧ ∀ byte ∈ w, isBlank byte = false

instance (w : Text) : Decidable (Token w) := inferInstanceAs (Decidable (_ ∧ _))

/-- Words with one space between two of them. -/
def joinWords (ws : List Text) : Text := List.intercalate [0x20] ws

/-- Words written one after the other, with a space before each. -/
def spaced (ws : List Text) : Text := ws.flatMap fun w => 0x20 :: w

/-- `$(printf '%s\n' "$value" | awk '{$1=$1; print}')` -/
def squeeze (t : Text) : Text :=
  stripNewlines ((lines t).flatMap fun line => joinWords (words line) ++ [0x0A])

variable {separator : UInt8 → Bool} {a b t : Text} {byte : UInt8} {ws : List Text}

theorem splitBy_ne_nil : splitBy separator t ≠ [] := by
  cases t with
  | nil => simp [splitBy]
  | cons byte rest =>
      simp only [splitBy]
      split
      · simp
      · split <;> simp

theorem splitBy_append_separator (h : separator byte = true) :
    splitBy separator (a ++ byte :: b) = splitBy separator a ++ splitBy separator b := by
  induction a with
  | nil => simp [splitBy, h]
  | cons first a ih =>
      simp only [List.cons_append, splitBy, ih]
      by_cases hfirst : separator first = true
      · simp [hfirst]
      · cases hpieces : splitBy separator a with
        | nil => exact absurd hpieces splitBy_ne_nil
        | cons piece pieces => simp [hfirst]

theorem splitBy_eq_singleton (h : ∀ byte ∈ t, separator byte = false) :
    splitBy separator t = [t] := by
  induction t with
  | nil => rfl
  | cons byte t ih =>
      have hrest := ih fun other hother => h other (List.mem_cons_of_mem _ hother)
      simp [splitBy, hrest, h byte List.mem_cons_self]

/-- The bytes of a piece are bytes of the text, and no separators. -/
theorem mem_of_mem_splitBy {piece : Text} (hpiece : piece ∈ splitBy separator t)
    (hbyte : byte ∈ piece) : byte ∈ t ∧ separator byte = false := by
  induction t generalizing piece with
  | nil => simp_all [splitBy]
  | cons first t ih =>
      by_cases hfirst : separator first = true
      · rw [splitBy, if_pos hfirst, List.mem_cons] at hpiece
        rcases hpiece with rfl | hpiece
        · cases hbyte
        · exact ⟨List.mem_cons_of_mem _ (ih hpiece hbyte).1, (ih hpiece hbyte).2⟩
      · rw [splitBy, if_neg hfirst] at hpiece
        cases hpieces : splitBy separator t with
        | nil => exact absurd hpieces splitBy_ne_nil
        | cons head pieces =>
            rw [hpieces] at hpiece ih
            rcases List.mem_cons.mp hpiece with rfl | htail
            · rcases List.mem_cons.mp hbyte with rfl | hhead
              · exact ⟨List.mem_cons_self, by simpa using hfirst⟩
              · have hin := ih List.mem_cons_self hhead
                exact ⟨List.mem_cons_of_mem _ hin.1, hin.2⟩
            · have hin := ih (List.mem_cons_of_mem _ htail) hbyte
              exact ⟨List.mem_cons_of_mem _ hin.1, hin.2⟩

@[simp] theorem words_nil : words [] = [] := rfl

theorem words_append_blank (h : isBlank byte = true) :
    words (a ++ byte :: b) = words a ++ words b := by
  simp only [words, splitBy_append_separator h, List.filter_append]

theorem words_cons_blank (h : isBlank byte = true) : words (byte :: t) = words t :=
  words_append_blank (a := []) h

theorem words_append_blanks (h : ∀ byte ∈ b, isBlank byte = true) :
    words (a ++ b) = words a := by
  induction b generalizing a with
  | nil => rw [List.append_nil]
  | cons byte b ih =>
      have hblank := h byte List.mem_cons_self
      have hrest : words b = [] := by
        simpa using ih (a := []) fun other hother => h other (List.mem_cons_of_mem _ hother)
      rw [words_append_blank hblank, hrest, List.append_nil]

theorem words_eq_of_noBlank (h : ∀ byte ∈ t, isBlank byte = false) :
    words t = if t = [] then [] else [t] := by
  rw [words, splitBy_eq_singleton h]
  by_cases ht : t = [] <;> simp [ht]

theorem words_token (h : Token t) : words t = [t] := by
  rw [words_eq_of_noBlank h.2, if_neg h.1]

theorem token_of_mem_words {w : Text} (h : w ∈ words t) : Token w := by
  rw [words, List.mem_filter] at h
  exact ⟨by simpa using h.2, fun byte hbyte => (mem_of_mem_splitBy h.1 hbyte).2⟩

/-- A byte that separates nothing is in one of the pieces. -/
theorem exists_mem_splitBy (hbyte : byte ∈ t) (h : separator byte = false) :
    ∃ piece ∈ splitBy separator t, byte ∈ piece := by
  induction t with
  | nil => cases hbyte
  | cons first t ih =>
      by_cases hfirst : separator first = true
      · rcases List.mem_cons.mp hbyte with rfl | hrest
        · rw [h] at hfirst
          cases hfirst
        · obtain ⟨piece, hpiece, hin⟩ := ih hrest
          exact ⟨piece, by simp [splitBy, hfirst, hpiece], hin⟩
      · cases hpieces : splitBy separator t with
        | nil => exact absurd hpieces splitBy_ne_nil
        | cons head pieces =>
            have hcons : splitBy separator (first :: t) = (first :: head) :: pieces := by
              simp [splitBy, hfirst, hpieces]
            rw [hcons]
            rcases List.mem_cons.mp hbyte with rfl | hrest
            · exact ⟨byte :: head, List.mem_cons_self, List.mem_cons_self⟩
            · obtain ⟨piece, hpiece, hin⟩ := ih hrest
              rw [hpieces] at hpiece
              rcases List.mem_cons.mp hpiece with rfl | htail
              · exact ⟨first :: piece, List.mem_cons_self, List.mem_cons_of_mem _ hin⟩
              · exact ⟨piece, List.mem_cons_of_mem _ htail, hin⟩

theorem exists_mem_words (hbyte : byte ∈ t) (hblank : isBlank byte = false) :
    ∃ w ∈ words t, byte ∈ w := by
  obtain ⟨piece, hpiece, hin⟩ := exists_mem_splitBy hbyte hblank
  refine ⟨piece, List.mem_filter.mpr ⟨hpiece, ?_⟩, hin⟩
  simpa using List.ne_nil_of_mem hin

theorem words_stripNewlines : words (stripNewlines t) = words t := by
  have hsplit : stripNewlines t ++ t.rtakeWhile (· = 0x0A) = t :=
    List.rdropWhile_append_rtakeWhile
  have hblank : ∀ byte ∈ t.rtakeWhile (· = 0x0A), isBlank byte = true := by
    intro byte hbyte
    have hnewline : byte = 0x0A := by simpa using List.mem_rtakeWhile_imp hbyte
    rw [hnewline]
    rfl
  conv_rhs => rw [← hsplit]
  exact (words_append_blanks hblank).symm

theorem joinWords_cons_cons (w v : Text) :
    joinWords (w :: v :: ws) = w ++ 0x20 :: joinWords (v :: ws) := by
  simp [joinWords, List.intercalate]

theorem words_joinWords (h : ∀ w ∈ ws, Token w) : words (joinWords ws) = ws := by
  induction ws with
  | nil => rfl
  | cons w ws ih =>
      have hw := words_token (h w List.mem_cons_self)
      have hws := ih fun v hv => h v (List.mem_cons_of_mem _ hv)
      cases ws with
      | nil => simpa [joinWords, List.intercalate] using hw
      | cons v ws =>
          rw [joinWords_cons_cons, words_append_blank rfl, hw, hws]
          rfl

theorem words_append_spaced (h : ∀ w ∈ ws, Token w) :
    words (a ++ spaced ws) = words a ++ ws := by
  induction ws generalizing a with
  | nil => simp [spaced]
  | cons w ws ih =>
      have hw := words_token (h w List.mem_cons_self)
      have hws := ih (a := a ++ 0x20 :: w) fun v hv => h v (List.mem_cons_of_mem _ hv)
      rw [words_append_blank rfl, hw] at hws
      simpa [spaced] using hws

theorem lines_append_newline : lines (a ++ 0x0A :: b) = lines a ++ lines b :=
  splitBy_append_separator rfl

theorem lines_eq_singleton (h : (0x0A : UInt8) ∉ t) : lines t = [t] := by
  apply splitBy_eq_singleton
  intro byte hbyte
  have hne : byte ≠ 0x0A := fun heq => h (heq ▸ hbyte)
  simpa using hne

theorem contains_append {needle : Text} (h : needle <+: b) : contains needle (a ++ b) = true := by
  rw [contains, List.any_eq_true]
  exact ⟨b, (List.mem_tails _ _).mpr (List.suffix_append a b), List.isPrefixOf_iff_prefix.mpr h⟩

theorem flatMap_lines (t : Text) : (lines t).flatMap (· ++ [0x0A]) = t ++ [0x0A] := by
  induction t with
  | nil => rfl
  | cons byte t ih =>
      by_cases hbyte : byte = 0x0A
      · simpa [lines, splitBy, hbyte] using ih
      · cases hpieces : lines t with
        | nil => exact absurd hpieces splitBy_ne_nil
        | cons piece pieces =>
            have hcons : lines (byte :: t) = (byte :: piece) :: pieces := by
              simp only [lines] at hpieces ⊢
              simp [splitBy, hbyte, hpieces]
            rw [hpieces] at ih
            rw [hcons]
            simpa using ih

theorem words_unlines (f : Text → Text) (ls : List Text) :
    words (ls.flatMap fun line => f line ++ [0x0A]) = ls.flatMap fun line => words (f line) := by
  induction ls with
  | nil => rfl
  | cons line ls ih =>
      rw [List.flatMap_cons, List.flatMap_cons, List.append_assoc, List.singleton_append,
        words_append_blank rfl, ih]

theorem flatMap_words_lines (t : Text) : (lines t).flatMap words = words t := by
  have hlines := words_unlines (fun line => line) (lines t)
  rw [flatMap_lines, words_append_blank rfl, words_nil, List.append_nil] at hlines
  exact hlines.symm

theorem words_squeeze (t : Text) : words (squeeze t) = words t := by
  have hline : ∀ line : Text, words (joinWords (words line)) = words line :=
    fun line => words_joinWords fun _ hw => token_of_mem_words hw
  rw [squeeze, words_stripNewlines, words_unlines]
  simp only [hline]
  exact flatMap_words_lines t

theorem mem_joinWords (h : byte ∈ joinWords ws) : byte = 0x20 ∨ ∃ w ∈ ws, byte ∈ w := by
  induction ws with
  | nil => simp [joinWords, List.intercalate] at h
  | cons w ws ih =>
      cases ws with
      | nil =>
          simp only [joinWords, List.intercalate, List.intersperse_singleton,
            List.flatten_singleton] at h
          exact Or.inr ⟨w, List.mem_cons_self, h⟩
      | cons v ws =>
          rw [joinWords_cons_cons, List.mem_append, List.mem_cons] at h
          rcases h with h | rfl | h
          · exact Or.inr ⟨w, List.mem_cons_self, h⟩
          · exact Or.inl rfl
          · rcases ih h with hspace | ⟨u, hu, hbyte⟩
            · exact Or.inl hspace
            · exact Or.inr ⟨u, List.mem_cons_of_mem _ hu, hbyte⟩

theorem stripNewlines_eq_self (h : (0x0A : UInt8) ∉ t) : stripNewlines t = t := by
  apply List.rdropWhile_eq_self_iff.mpr
  intro hne hnewline
  simp only [decide_eq_true_eq] at hnewline
  exact h (hnewline ▸ List.getLast_mem hne)

theorem stripNewlines_append_newline (h : (0x0A : UInt8) ∉ t) :
    stripNewlines (t ++ [0x0A]) = t :=
  (List.rdropWhile_concat_pos _ _ _ (by simp)).trans (stripNewlines_eq_self h)

theorem newline_not_mem_joinWords (h : ∀ w ∈ ws, Token w) : (0x0A : UInt8) ∉ joinWords ws := by
  intro hnewline
  rcases mem_joinWords hnewline with hspace | ⟨w, hw, hbyte⟩
  · exact absurd hspace (by decide)
  · exact absurd ((h w hw).2 _ hbyte) (by decide)

/-- A text of one line is squeezed to its words. -/
theorem squeeze_eq_joinWords (h : (0x0A : UInt8) ∉ t) : squeeze t = joinWords (words t) := by
  have hline : lines t = [t] := by
    apply splitBy_eq_singleton
    intro byte hbyte
    simp only [decide_eq_false_iff_not]
    rintro rfl
    exact h hbyte
  have hjoin : (0x0A : UInt8) ∉ joinWords (words t) :=
    newline_not_mem_joinWords fun _ hw => token_of_mem_words hw
  simp only [squeeze, hline, List.flatMap_cons, List.flatMap_nil, List.append_nil]
  exact stripNewlines_append_newline hjoin

theorem squeeze_spaced (h : ∀ w ∈ ws, Token w) : squeeze (spaced ws) = joinWords ws := by
  have hline : (0x0A : UInt8) ∉ spaced ws := by
    intro hnewline
    simp only [spaced, List.mem_flatMap, List.mem_cons] at hnewline
    obtain ⟨w, hw, hspace | hbyte⟩ := hnewline
    · exact absurd hspace (by decide)
    · exact absurd ((h w hw).2 _ hbyte) (by decide)
  have hwords := words_append_spaced (a := []) h
  rw [squeeze_eq_joinWords hline]
  simpa using congrArg joinWords hwords

end Words

section Escapes

def simpleEscape (byte : UInt8) : Option UInt8 :=
  match byte with
  | 0x5C => some 0x5C
  | 0x45 => some 0x1B
  | 0x61 => some 0x07
  | 0x62 => some 0x08
  | 0x65 => some 0x1B
  | 0x66 => some 0x0C
  | 0x6E => some 0x0A
  | 0x72 => some 0x0D
  | 0x74 => some 0x09
  | 0x76 => some 0x0B
  | _ => none

def isOctal (byte : UInt8) : Bool := 0x30 ≤ byte && byte ≤ 0x37

/-- The value of a hexadecimal digit. -/
def hexValue (byte : UInt8) : Option Nat :=
  if 0x30 ≤ byte && byte ≤ 0x39 then some (byte.toNat - 0x30)
  else if 0x41 ≤ byte && byte ≤ 0x46 then some (byte.toNat - 0x37)
  else if 0x61 ≤ byte && byte ≤ 0x66 then some (byte.toNat - 0x57)
  else none

def number (base : Nat) (digits : List Nat) : UInt8 :=
  UInt8.ofNat (digits.foldl (fun n digit => base * n + digit) 0)

/-- The leading digits of a numeric escape, at most `size` of them. -/
def leadingDigits (value : UInt8 → Option Nat) (size : Nat) (t : Text) : List Nat :=
  ((t.take size).takeWhile fun byte => (value byte).isSome).filterMap value

def octalValue (byte : UInt8) : Option Nat :=
  if isOctal byte then some (byte.toNat - 0x30) else none

/-- `%b`, with as many steps as the text has bytes; the flag tells that `\c` has
ended the output. -/
def expandSteps : Nat → Text → Text × Bool
  | 0, t => (t, false)
  | _ + 1, [] => ([], false)
  | _ + 1, [byte] => ([byte], false)
  | steps + 1, byte :: next :: rest =>
      if byte ≠ 0x5C then (expandSteps steps (next :: rest)).map (byte :: ·) id
      else if next = 0x63 then ([], true)
      else match simpleEscape next with
        | some escaped => (expandSteps steps rest).map (escaped :: ·) id
        | none =>
            if isOctal next then
              let digits := if next = 0x30 then rest else next :: rest
              let octal := leadingDigits octalValue 3 digits
              (expandSteps steps (digits.drop octal.length)).map (number 8 octal :: ·) id
            else
              let hex := leadingDigits hexValue 2 rest
              if next = 0x78 ∧ hex ≠ [] then
                (expandSteps steps (rest.drop hex.length)).map (number 16 hex :: ·) id
              else (expandSteps steps rest).map (byte :: next :: ·) id

def printArguments : List Text → Text
  | [] => []
  | arg :: args =>
      let (output, ended) := expandSteps arg.length arg
      if ended then output else output ++ 0x0A :: printArguments args

/-- `printf '%b\n' "${@}"`; the format is used once if there is no argument. -/
def printfn (args : List Text) : Text :=
  if args = [] then [0x0A] else printArguments args

theorem expandSteps_of_no_backslash {steps : Nat} {t : Text} (h : (0x5C : UInt8) ∉ t) :
    expandSteps steps t = (t, false) := by
  induction steps generalizing t with
  | zero => rfl
  | succ steps ih =>
      cases t with
      | nil => rfl
      | cons byte rest =>
          have hbyte : byte ≠ 0x5C := fun heq => h (heq ▸ List.mem_cons_self)
          have hrest := ih fun hmem => h (List.mem_cons_of_mem _ hmem)
          cases rest with
          | nil => rfl
          | cons next rest =>
              rw [expandSteps, if_pos hbyte, hrest]
              rfl

theorem printfn_of_no_backslash {args : List Text} (hargs : args ≠ [])
    (h : ∀ arg ∈ args, (0x5C : UInt8) ∉ arg) :
    printfn args = args.flatMap (· ++ [0x0A]) := by
  have hprint : printArguments args = args.flatMap (· ++ [0x0A]) := by
    induction args with
    | nil => rfl
    | cons arg args ih =>
        have hrest : printArguments args = args.flatMap (· ++ [0x0A]) := by
          by_cases hnil : args = []
          · rw [hnil]
            rfl
          · exact ih hnil fun other hother => h other (List.mem_cons_of_mem _ hother)
        rw [printArguments, expandSteps_of_no_backslash (h arg List.mem_cons_self), hrest]
        simp
  rw [printfn, if_neg hargs, hprint]

end Escapes

end ShellText

end Kryptonite
