/-
Recursion with fuel.  A procedure is a family of computations, one for each
amount of fuel, and the error `none` says that the fuel ran out.  A procedure
ends from a state if some amount is enough.  If it does something countable in
every round, it ends exactly if it does that boundedly often.
-/
import Kryptonite.Script
import Mathlib.Order.Interval.Finset.Nat

namespace Kryptonite

namespace Fuel

open Script

variable {ε σ α β : Type}

/-- The run stopped for want of fuel. -/
def unfinished : EStateM.Result (Option ε) σ α → Bool
  | .error none _ => true
  | _ => false

theorem unfinished_of_ok {m : EStateM (Option ε) σ α} {s t : σ} {a : α} (h : m s = .ok a t) :
    unfinished (m s) = false := by
  rw [h]
  rfl

section Extension

/-- Where the first computation finishes, the second one does the same. -/
def Extends (m n : EStateM (Option ε) σ α) : Prop :=
  ∀ s, unfinished (m s) = false → n s = m s

theorem Extends.refl (m : EStateM (Option ε) σ α) : Extends m m := fun _ _ => rfl

theorem Extends.outOfFuel (n : EStateM (Option ε) σ α) : Extends (throw none) n := by
  intro s h
  cases h

/-- How a sequence can finish. -/
theorem finished_bind {m : EStateM (Option ε) σ α} {f : α → EStateM (Option ε) σ β} {s : σ}
    (h : unfinished ((m >>= f) s) = false) :
    (∃ e t, m s = .error (some e) t) ∨ ∃ a t, m s = .ok a t ∧ unfinished (f a t) = false := by
  cases hm : m s with
  | ok a t =>
      rw [bind_of_ok hm] at h
      exact .inr ⟨a, t, rfl, h⟩
  | error e t =>
      rw [bind_of_error hm] at h
      cases e with
      | none => cases h
      | some e => exact .inl ⟨e, t, rfl⟩

theorem finished_first {m : EStateM (Option ε) σ α} {f : α → EStateM (Option ε) σ β} {s : σ}
    (h : unfinished ((m >>= f) s) = false) : unfinished (m s) = false := by
  rcases finished_bind h with ⟨e, t, hrun⟩ | ⟨a, t, hrun, -⟩
  · rw [hrun]
    rfl
  · exact unfinished_of_ok hrun

theorem finished_rest {m : EStateM (Option ε) σ α} {f : α → EStateM (Option ε) σ β} {s t : σ}
    {a : α} (hrun : m s = .ok a t) (h : unfinished ((m >>= f) s) = false) :
    unfinished (f a t) = false := by
  rw [bind_of_ok hrun] at h
  exact h

/-- Passing the result on takes no fuel. -/
theorem unfinished_map (m : EStateM (Option ε) σ α) (f : α → β) (s : σ) :
    unfinished ((m >>= fun a => pure (f a)) s) = unfinished (m s) := by
  cases hrun : m s with
  | ok a t =>
      rw [bind_of_ok hrun]
      rfl
  | error e t =>
      rw [bind_of_error hrun]
      cases e with
      | none => rfl
      | some e => rfl

theorem Extends.bind {m n : EStateM (Option ε) σ α} {f g : α → EStateM (Option ε) σ β}
    (hm : Extends m n) (hf : ∀ a, Extends (f a) (g a)) : Extends (m >>= f) (n >>= g) := by
  intro s h
  have hn := hm s (finished_first h)
  rcases finished_bind h with ⟨e, t, hrun⟩ | ⟨a, t, hrun, hrest⟩
  · rw [bind_of_error hrun, bind_of_error (hn.trans hrun)]
  · rw [bind_of_ok hrun, bind_of_ok (hn.trans hrun)]
    exact hf a t hrest

theorem Extends.ite {c : Prop} [Decidable c] {m n m' n' : EStateM (Option ε) σ α}
    (hthen : Extends m n) (helse : Extends m' n') :
    Extends (if c then m else m') (if c then n else n') := by
  by_cases hc : c
  · simpa only [if_pos hc] using hthen
  · simpa only [if_neg hc] using helse

end Extension

section Procedures

variable {p : Nat → EStateM (Option ε) σ α} {q : α → Nat → EStateM (Option ε) σ β}
variable {s t : σ} {a : α} {fuel more : Nat}

/-- More fuel does not change how a run ends. -/
def Steady (p : Nat → EStateM (Option ε) σ α) : Prop :=
  ∀ fuel, Extends (p fuel) (p (fuel + 1))

def Ends (p : Nat → EStateM (Option ε) σ α) (s : σ) : Prop :=
  ∃ fuel, unfinished (p fuel s) = false

def Returns (p : Nat → EStateM (Option ε) σ α) (s : σ) (a : α) (t : σ) : Prop :=
  ∃ fuel, p fuel s = .ok a t

theorem Returns.ends (h : Returns p s a t) : Ends p s := by
  obtain ⟨fuel, hrun⟩ := h
  exact ⟨fuel, unfinished_of_ok hrun⟩

theorem Steady.eq_of_le (hp : Steady p) (h : fuel ≤ more)
    (hdone : unfinished (p fuel s) = false) : p more s = p fuel s := by
  induction more, h using Nat.le_induction with
  | base => rfl
  | succ more _ ih =>
      rw [← ih] at hdone
      rw [hp more s hdone, ih]

theorem Steady.bind (hp : Steady p) (hq : ∀ a, Steady (q a)) :
    Steady fun fuel => p fuel >>= fun a => q a fuel :=
  fun fuel => (hp fuel).bind fun a => hq a fuel

theorem Steady.const (m : EStateM (Option ε) σ α) : Steady fun _ => m :=
  fun _ => Extends.refl m

theorem Steady.succ (hp : Steady p) : Steady fun fuel => p (fuel + 1) :=
  fun fuel => hp (fuel + 1)

theorem Returns.succ (h : Returns p s a t) (hp : Steady p) :
    Returns (fun fuel => p (fuel + 1)) s a t := by
  obtain ⟨fuel, hrun⟩ := h
  exact ⟨fuel, (hp.eq_of_le (Nat.le_succ fuel) (unfinished_of_ok hrun)).trans hrun⟩

/-- A sequence whose first part returns is its second part, once there is fuel enough. -/
theorem Returns.bind_eq (h : Returns p s a t) (hp : Steady p) : ∃ enough, ∀ fuel, enough ≤ fuel →
    (p fuel >>= fun a => q a fuel) s = q a fuel t := by
  obtain ⟨enough, hrun⟩ := h
  refine ⟨enough, fun fuel hle => ?_⟩
  exact bind_of_ok ((hp.eq_of_le hle (unfinished_of_ok hrun)).trans hrun)

theorem Returns.bind {b : β} {u : σ} (h : Returns p s a t) (hp : Steady p)
    (hrest : Returns (q a) t b u) (hq : Steady (q a)) :
    Returns (fun fuel => p fuel >>= fun a => q a fuel) s b u := by
  obtain ⟨first, hfirst⟩ := Returns.bind_eq (q := q) h hp
  obtain ⟨second, hsecond⟩ := hrest
  refine ⟨max first second, (hfirst _ (Nat.le_max_left first second)).trans ?_⟩
  have hmore := hq.eq_of_le (Nat.le_max_right first second) (unfinished_of_ok hsecond)
  exact hmore.trans hsecond

theorem Returns.bind_ends (h : Returns p s a t) (hp : Steady p) (hrest : Ends (q a) t)
    (hq : Steady (q a)) : Ends (fun fuel => p fuel >>= fun a => q a fuel) s := by
  obtain ⟨first, hfirst⟩ := Returns.bind_eq (q := q) h hp
  obtain ⟨second, hsecond⟩ := hrest
  have hrun := (hfirst _ (Nat.le_max_left first second)).trans
    (hq.eq_of_le (Nat.le_max_right first second) hsecond)
  exact ⟨max first second, (congrArg unfinished hrun).trans hsecond⟩

end Procedures

section Counting

variable {count : σ → Nat} {m : EStateM (Option ε) σ α} {f : α → EStateM (Option ε) σ β} {k : Nat}

/-- The count does not fall, and a run that is out of fuel has counted `k` times. -/
def PaysFor (count : σ → Nat) (k : Nat) (m : EStateM (Option ε) σ α) : Prop :=
  ∀ c, Triple (fun s => c ≤ count s) m (fun _ s => c ≤ count s)
    fun e s => e = none → c + k ≤ count s

/-- As `PaysFor`, and what completes has been counted as well. -/
def Counted (count : σ → Nat) (k : Nat) (m : EStateM (Option ε) σ α) : Prop :=
  ∀ c, Triple (fun s => c ≤ count s) m (fun _ s => c + 1 ≤ count s)
    fun e s => e = none → c + k ≤ count s

theorem Counted.paysFor (hm : Counted count k m) : PaysFor count k m :=
  fun c => (hm c).weakenPost fun _ _ hs => Nat.le_of_succ_le hs

theorem PaysFor.pure (a : α) : PaysFor count k (Pure.pure a : EStateM (Option ε) σ α) :=
  fun _ => Triple.pure fun _ hs => hs

theorem PaysFor.exit (e : ε) : PaysFor count k (throw (some e) : EStateM (Option ε) σ α) :=
  fun _ => Triple.throw fun _ _ he => nomatch he

theorem PaysFor.outOfFuel : PaysFor count 0 (throw none : EStateM (Option ε) σ α) :=
  fun _ => Triple.throw fun _ hs _ => hs

/-- A step that always succeeds and does not lower the count. -/
theorem PaysFor.free (h : ∀ s, ∃ a t, m s = .ok a t ∧ count s ≤ count t) :
    PaysFor count k m := by
  intro c s hs
  obtain ⟨a, t, hrun, hle⟩ := h s
  rw [hrun]
  exact hs.trans hle

theorem PaysFor.bind (hm : PaysFor count k m) (hf : ∀ a, PaysFor count k (f a)) :
    PaysFor count k (m >>= f) :=
  fun c => (hm c).bind fun a => hf a c

theorem PaysFor.ite {c : Prop} [Decidable c] {n : EStateM (Option ε) σ α}
    (hthen : PaysFor count k m) (helse : PaysFor count k n) :
    PaysFor count k (if c then m else n) :=
  fun start => Triple.ite (fun _ => hthen start) fun _ => helse start

/-- What is counted pays for one more. -/
theorem Counted.bind (hm : Counted count (k + 1) m) (hf : ∀ a, PaysFor count k (f a)) :
    Counted count (k + 1) (m >>= f) := by
  refine fun c => (hm c).bind fun a => (hf a (c + 1)).weakenStop fun e s hs he => ?_
  have hpaid := hs he
  omega

variable {p : Nat → EStateM (Option ε) σ α} {s : σ} {fuel : Nat}

/-- A run that is out of fuel has counted as far as the fuel went. -/
def Pays (count : σ → Nat) (p : Nat → EStateM (Option ε) σ α) : Prop :=
  ∀ fuel, PaysFor count fuel (p fuel)

theorem Pays.le_count (h : Pays count p)
    (hrun : unfinished (p fuel s) = true) : fuel ≤ count (endState (p fuel s)) := by
  have hend := h fuel 0 s (Nat.zero_le _)
  cases hresult : p fuel s with
  | ok a t =>
      rw [hresult] at hrun
      cases hrun
  | error e t =>
      rw [hresult] at hrun hend
      cases e with
      | none =>
          have hpaid := hend rfl
          rw [Nat.zero_add] at hpaid
          exact hpaid
      | some e => cases hrun

/-- What is counted stays bounded exactly if the procedure ends. -/
theorem bounded_iff_ends (hp : Steady p) (hcount : Pays count p) (s : σ) :
    (∃ bound, ∀ fuel, count (endState (p fuel s)) ≤ bound) ↔ Ends p s := by
  constructor
  · rintro ⟨bound, hbound⟩
    by_contra hnever
    have hrun : unfinished (p (bound + 1) s) = true := by
      rw [← Bool.not_eq_false]
      exact fun hdone => hnever ⟨bound + 1, hdone⟩
    have hle := hcount.le_count hrun
    have := hbound (bound + 1)
    omega
  · rintro ⟨enough, hdone⟩
    -- from `enough` on nothing changes, and below it there are finitely many runs
    refine ⟨(Finset.Iic enough).sup fun fuel => count (endState (p fuel s)), fun fuel => ?_⟩
    have hsup : ∀ few ≤ enough, count (endState (p few s)) ≤
        (Finset.Iic enough).sup fun fuel => count (endState (p fuel s)) := fun few hfew =>
      Finset.le_sup (f := fun fuel => count (endState (p fuel s))) (Finset.mem_Iic.mpr hfew)
    rcases Nat.le_total fuel enough with hfew | hmore
    · exact hsup fuel hfew
    · rw [hp.eq_of_le hmore hdone]
      exact hsup enough (Nat.le_refl enough)

end Counting

end Fuel

end Kryptonite
