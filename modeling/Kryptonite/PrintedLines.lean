/-
`printf '%b'` line by line.  No escape reaches over the end of a line, so the
lines of a text are expanded one by one, up to the first one that has `\c`.
-/
import Kryptonite.ShellText

namespace Kryptonite

namespace ShellText

section Expansion

/-- `%b`; the flag tells that `\c` has ended the output. -/
def expand (t : Text) : Text × Bool := expandSteps t.length t

/-- The end of a text or of a line. -/
def LineEnd (tail : Text) : Prop := tail = [] ∨ ∃ rest, tail = 0x0A :: rest

variable {tail rest : Text} {byte next : UInt8}

theorem takeWhile_take_append {p : UInt8 → Bool} (htail : LineEnd tail) (hp : p 0x0A = false)
    (size : Nat) (t : Text) :
    ((t ++ tail).take size).takeWhile p = (t.take size).takeWhile p := by
  induction t generalizing size with
  | nil =>
      rcases htail with rfl | ⟨rest, rfl⟩
      · rfl
      · cases size <;> simp [hp]
  | cons byte t ih =>
      cases size with
      | zero => rfl
      | succ size => simp only [List.cons_append, List.take_succ_cons, List.takeWhile_cons, ih]

theorem leadingDigits_append {value : UInt8 → Option Nat} (htail : LineEnd tail)
    (hvalue : value 0x0A = none) (size : Nat) (t : Text) :
    leadingDigits value size (t ++ tail) = leadingDigits value size t := by
  rw [leadingDigits, takeWhile_take_append htail (by rw [hvalue]; rfl), leadingDigits]

theorem length_leadingDigits_le (value : UInt8 → Option Nat) (size : Nat) (t : Text) :
    (leadingDigits value size t).length ≤ t.length :=
  calc (leadingDigits value size t).length
      ≤ ((t.take size).takeWhile fun byte => (value byte).isSome).length :=
        List.length_filterMap_le _ _
    _ ≤ (t.take size).length := (List.takeWhile_prefix _).length_le
    _ ≤ t.length := List.length_take_le' size t

/-- One step of the expansion: `out` is written for the bytes before `left`. -/
structure Step (byte next : UInt8) (rest out left : Text) : Prop where
  suffix : left <:+ next :: rest
  expandSteps : ∀ steps tail, LineEnd tail →
    expandSteps (steps + 1) (byte :: next :: (rest ++ tail)) =
      (ShellText.expandSteps steps (left ++ tail)).map (out ++ ·) id

/-- What a step does is decided before the end of the line. -/
theorem step_cases (byte next : UInt8) (rest : Text) :
    (∀ steps tail, expandSteps (steps + 1) (byte :: next :: (rest ++ tail)) = ([], true)) ∨
      ∃ out left, Step byte next rest out left := by
  by_cases hbyte : byte ≠ 0x5C
  · refine .inr ⟨[byte], next :: rest, List.suffix_refl _, fun steps tail _ => ?_⟩
    rw [expandSteps, if_pos hbyte]
    rfl
  by_cases hend : next = 0x63
  · refine .inl fun steps tail => ?_
    rw [expandSteps, if_neg hbyte, if_pos hend]
  cases hsimple : simpleEscape next with
  | some escaped =>
      refine .inr ⟨[escaped], rest, List.suffix_cons next rest, fun steps tail _ => ?_⟩
      rw [expandSteps, if_neg hbyte, if_neg hend, hsimple]
      rfl
  | none =>
      by_cases hoctal : isOctal next = true
      · -- the zero of `\0` is not one of the digits
        have hdigits : (if next = 0x30 then rest else next :: rest) <:+ next :: rest := by
          split
          · exact List.suffix_cons next rest
          · exact List.suffix_refl _
        generalize hrest : (if next = 0x30 then rest else next :: rest) = digits at hdigits
        refine .inr ⟨[number 8 (leadingDigits octalValue 3 digits)],
          digits.drop (leadingDigits octalValue 3 digits).length,
          (List.drop_suffix _ _).trans hdigits, fun steps tail htail => ?_⟩
        have happend : (if next = 0x30 then rest ++ tail else next :: (rest ++ tail)) =
            digits ++ tail := by
          rw [← hrest]
          split <;> rfl
        rw [expandSteps, if_neg hbyte, if_neg hend, hsimple]
        simp only [hoctal, if_true, happend,
          leadingDigits_append htail (rfl : octalValue 0x0A = none),
          List.drop_append_of_le_length (length_leadingDigits_le octalValue 3 digits)]
        rfl
      · by_cases hhex : next = 0x78 ∧ leadingDigits hexValue 2 rest ≠ []
        · refine .inr ⟨[number 16 (leadingDigits hexValue 2 rest)],
            rest.drop (leadingDigits hexValue 2 rest).length,
            (List.drop_suffix _ _).trans (List.suffix_cons next rest), fun steps tail htail => ?_⟩
          rw [expandSteps, if_neg hbyte, if_neg hend, hsimple]
          simp only [hoctal, leadingDigits_append htail (rfl : hexValue 0x0A = none),
            List.drop_append_of_le_length (length_leadingDigits_le hexValue 2 rest)]
          rw [if_neg (by simp), if_pos hhex]
          rfl
        · refine .inr ⟨[byte, next], rest, List.suffix_cons next rest, fun steps tail htail => ?_⟩
          rw [expandSteps, if_neg hbyte, if_neg hend, hsimple]
          simp only [hoctal, leadingDigits_append htail (rfl : hexValue 0x0A = none)]
          rw [if_neg (by simp), if_neg hhex]
          rfl

/-- Induction along the steps of the expansion. -/
theorem expand_induction {P : Text → Prop} (nil : P []) (single : ∀ byte, P [byte])
    (step : ∀ byte next rest, (∀ left, left <:+ next :: rest → P left) →
      P (byte :: next :: rest)) (t : Text) : P t := by
  induction hsize : t.length using Nat.strong_induction_on generalizing t with
  | _ size ih =>
      cases t with
      | nil => exact nil
      | cons byte rest =>
          cases rest with
          | nil => exact single byte
          | cons next rest =>
              refine step byte next rest fun left hleft => ih left.length ?_ left rfl
              have hlength := hleft.length_le
              simp only [List.length_cons] at hsize hlength
              omega

/-- A step for every byte is enough. -/
theorem expandSteps_eq_expand (t : Text) :
    ∀ {steps : Nat}, t.length ≤ steps → expandSteps steps t = expand t := by
  induction t using expand_induction with
  | nil =>
      intro steps _
      cases steps <;> rfl
  | single byte =>
      intro steps hsteps
      cases steps with
      | zero => cases hsteps
      | succ steps => rfl
  | step byte next rest ih =>
      intro steps hsteps
      cases steps with
      | zero => cases hsteps
      | succ steps =>
          rcases step_cases byte next rest with hended | ⟨out, left, hstep⟩
          · have hboth := fun steps => hended steps []
            rw [List.append_nil] at hboth
            rw [expand, List.length_cons, hboth, hboth]
          · have hboth := fun steps => hstep.expandSteps steps [] (.inl rfl)
            simp only [List.append_nil] at hboth
            have hlength := hstep.suffix.length_le
            have henough : left.length ≤ steps := hlength.trans (Nat.le_of_succ_le_succ hsteps)
            rw [expand, List.length_cons, hboth, hboth, ih left hstep.suffix henough,
              ih left hstep.suffix hlength]

theorem Step.expand {out left : Text} (h : Step byte next rest out left)
    (htail : LineEnd tail) :
    expand (byte :: next :: (rest ++ tail)) = (expand (left ++ tail)).map (out ++ ·) id := by
  rw [ShellText.expand, List.length_cons, h.expandSteps _ tail htail, expandSteps_eq_expand]
  have hlength := h.suffix.length_le
  simp only [List.length_cons, List.length_append] at hlength ⊢
  omega

end Expansion

section Counting

variable {needle : Text}

/-- The lines with the needle once these lines are printed. -/
def printedCount (needle : Text) : List Text → Nat
  | [] => 0
  | line :: rest =>
      grepCount needle (expand line).1 + if (expand line).2 then 0 else printedCount needle rest

/-- Whether one of the lines ends the output. -/
def cutsOff (ls : List Text) : Bool := ls.any fun line => (expand line).2

theorem printedCount_append (xs ys : List Text) :
    printedCount needle (xs ++ ys) =
      printedCount needle xs + if cutsOff xs then 0 else printedCount needle ys := by
  induction xs with
  | nil => simp [printedCount, cutsOff]
  | cons line xs ih =>
      cases hcut : (expand line).2 with
      | true => simp [printedCount, cutsOff, hcut]
      | false =>
          have hrest : cutsOff (line :: xs) = cutsOff xs := by simp [cutsOff, hcut]
          rw [List.cons_append, printedCount, printedCount, ih, hrest, hcut]
          exact (Nat.add_assoc _ _ _).symm

theorem cutsOff_append (xs ys : List Text) : cutsOff (xs ++ ys) = (cutsOff xs || cutsOff ys) :=
  List.any_append

/-- The two blocks of lines count the same and end the output alike. -/
structure Alike (needle : Text) (xs ys : List Text) : Prop where
  count : printedCount needle xs = printedCount needle ys
  cut : cutsOff xs = cutsOff ys

theorem Alike.refl (xs : List Text) : Alike needle xs xs := ⟨rfl, rfl⟩

theorem Alike.append {xs ys xs' ys' : List Text} (h : Alike needle xs ys)
    (h' : Alike needle xs' ys') : Alike needle (xs ++ xs') (ys ++ ys') where
  count := by rw [printedCount_append, printedCount_append, h.count, h.cut, h'.count]
  cut := by rw [cutsOff_append, cutsOff_append, h.cut, h'.cut]

end Counting

end ShellText

end Kryptonite
