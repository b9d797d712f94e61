/-
Coding with a sliding window.  A text is a function of the position, and a ring
buffer of `n` cells shows its last `n` symbols.  It is coded by tokens, each of
which is a symbol or names a place in the window from which to copy.
-/
import Mathlib.Data.List.Basic
import Mathlib.Logic.Function.Basic

namespace Kryptonite

namespace SlidingWindow

variable {α : Type} {n : Nat}

theorem mod_ne_mod {a b : Nat} (hlt : a < b) (hnear : b < a + n) : a % n ≠ b % n := by
  intro heq
  have hdvd : n ∣ b - a := Nat.dvd_of_mod_eq_zero (Nat.sub_mod_eq_zero_of_mod_eq heq.symm)
  have := Nat.le_of_dvd (by omega) hdvd
  omega

section Buffer

variable {buffer stream : Nat → α} {stop : Nat}

/-- The cells hold the last `n` symbols before `stop`. -/
def Shows (n : Nat) (buffer stream : Nat → α) (stop : Nat) : Prop :=
  ∀ a, a < stop → stop ≤ a + n → buffer (a % n) = stream a

/-- The next symbol goes into the cell of the oldest one. -/
theorem Shows.push (h : Shows n buffer stream stop) :
    Shows n (Function.update buffer (stop % n) (stream stop)) stream (stop + 1) := by
  intro a hlt hnear
  rcases Nat.eq_or_lt_of_le (Nat.le_of_lt_succ hlt) with rfl | hbefore
  · exact Function.update_self _ _ _
  · rw [Function.update_of_ne (mod_ne_mod hbefore (by omega))]
    exact h a hbefore (by omega)

end Buffer

section Tokens

/-- A symbol, or so many symbols from the cell on. -/
inductive Token (α : Type) where
  | literal (symbol : α)
  | copy (cell length : Nat)
deriving Repr, DecidableEq

def Token.isLiteral : Token α → Bool
  | literal _ => true
  | copy _ _ => false

def Token.size : Token α → Nat
  | literal _ => 1
  | copy _ length => length

variable (n : Nat) (stream : Nat → α)

/-- The token stands for the text at `start`.  The place that is copied from may
reach into what is copied. -/
def Token.Explains (start : Nat) : Token α → Prop
  | literal symbol => symbol = stream start
  | copy cell length => ∃ origin, origin % n = cell ∧ origin < start ∧ start ≤ origin + n ∧
      ∀ k, k < length → stream (origin + k) = stream (start + k)

/-- The tokens stand for the text from one position to another. -/
def Explained : Nat → List (Token α) → Nat → Prop
  | start, [], stop => stop = start
  | start, token :: tokens, stop =>
      token.Explains n stream start ∧ Explained (start + token.size) tokens stop

variable {n stream}

theorem explained_append {start stop : Nat} {tokens more : List (Token α)} :
    Explained n stream start (tokens ++ more) stop ↔
      ∃ middle, Explained n stream start tokens middle ∧ Explained n stream middle more stop := by
  induction tokens generalizing start with
  | nil => simp [Explained]
  | cons token tokens ih => simp only [List.cons_append, Explained, ih, and_assoc, exists_and_left]

theorem explained_snoc {start middle : Nat} {tokens : List (Token α)} {token : Token α}
    (h : Explained n stream start tokens middle) (htoken : token.Explains n stream middle) :
    Explained n stream start (tokens ++ [token]) (middle + token.size) :=
  explained_append.mpr ⟨middle, h, htoken, rfl⟩

theorem Explained.le {start stop : Nat} {tokens : List (Token α)}
    (h : Explained n stream start tokens stop) : start ≤ stop := by
  induction tokens generalizing start with
  | nil => exact Nat.le_of_eq h.symm
  | cons token tokens ih => exact Nat.le_trans (Nat.le_add_right _ _) (ih h.2)

end Tokens

end SlidingWindow

end Kryptonite
