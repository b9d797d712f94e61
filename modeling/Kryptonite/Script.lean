/-
Scripts that stop at the first failing command.  A script is a computation in
`EStateM ε σ`: the state reached so far survives the error that stops it, so
the state of a stopped run is as much an object of study as that of a
completed one.  The rules below are stated once, for arbitrary states, errors
and values.
-/
import Mathlib.Data.List.Basic

namespace Kryptonite

namespace Script

variable {ε σ α β : Type}

/-- The state in which a run ends, whether it completed or was stopped. -/
def endState : EStateM.Result ε σ α → σ
  | .ok _ s => s
  | .error _ s => s

/-- Whether a run completed. -/
def completed : EStateM.Result ε σ α → Bool
  | .ok _ _ => true
  | .error _ _ => false

theorem eq_ok_of_completed {result : EStateM.Result ε σ PUnit}
    (h : completed result = true) : result = .ok ⟨⟩ (endState result) := by
  cases result with
  | ok a s => rfl
  | error e s => cases h

/-- From every state satisfying `pre`, a run that completes ends in `post` and
a run that is stopped ends in `stop`. -/
def Triple (pre : σ → Prop) (m : EStateM ε σ α) (post : α → σ → Prop)
    (stop : ε → σ → Prop) : Prop :=
  ∀ s, pre s → match m s with
    | .ok a t => post a t
    | .error e t => stop e t

/-- `inv` holds at the end of the run, wherever the run ends. -/
def Keeps (inv : σ → Prop) (m : EStateM ε σ α) : Prop :=
  Triple inv m (fun _ => inv) (fun _ => inv)

section Rules

variable {pre : σ → Prop} {m : EStateM ε σ α} {post : α → σ → Prop}
variable {stop : ε → σ → Prop}

theorem Triple.ok (h : Triple pre m post stop) {s t : σ} {a : α}
    (hpre : pre s) (hrun : m s = .ok a t) : post a t := by
  have hend := h s hpre
  rw [hrun] at hend
  exact hend

/-- A run that cannot be stopped completes. -/
theorem Triple.total (h : Triple pre m post fun _ _ => False) {s : σ} (hpre : pre s) :
    ∃ a t, m s = .ok a t ∧ post a t := by
  have hend := h s hpre
  cases hrun : m s with
  | ok a t =>
      rw [hrun] at hend
      exact ⟨a, t, rfl, hend⟩
  | error e t =>
      rw [hrun] at hend
      exact hend.elim

theorem Triple.weaken {pre' : σ → Prop} {post' : α → σ → Prop}
    {stop' : ε → σ → Prop} (h : Triple pre m post stop)
    (hpre : ∀ s, pre' s → pre s) (hpost : ∀ a s, post a s → post' a s)
    (hstop : ∀ e s, stop e s → stop' e s) : Triple pre' m post' stop' := by
  intro s hs
  have hend := h s (hpre s hs)
  cases hrun : m s with
  | ok a t =>
      rw [hrun] at hend
      exact hpost a t hend
  | error e t =>
      rw [hrun] at hend
      exact hstop e t hend

theorem Triple.weakenPre {pre' : σ → Prop} (h : Triple pre m post stop)
    (hpre : ∀ s, pre' s → pre s) : Triple pre' m post stop :=
  h.weaken hpre (fun _ _ hs => hs) fun _ _ hs => hs

theorem Triple.weakenPost {post' : α → σ → Prop} (h : Triple pre m post stop)
    (hpost : ∀ a s, post a s → post' a s) : Triple pre m post' stop :=
  h.weaken (fun _ hs => hs) hpost fun _ _ hs => hs

theorem Triple.weakenStop {stop' : ε → σ → Prop} (h : Triple pre m post stop)
    (hstop : ∀ e s, stop e s → stop' e s) : Triple pre m post stop' :=
  h.weaken (fun _ hs => hs) (fun _ _ hs => hs) hstop

theorem Triple.pure {a : α} (h : ∀ s, pre s → post a s) :
    Triple pre (Pure.pure a : EStateM ε σ α) post stop :=
  fun s hs => h s hs

theorem Triple.throw {e : ε} (h : ∀ s, pre s → stop e s) :
    Triple pre (throw e : EStateM ε σ α) post stop :=
  fun s hs => h s hs

theorem Triple.read (part : σ → α) :
    Triple pre (do return part (← get) : EStateM ε σ α) (fun _ => pre) stop :=
  fun _ hs => hs

theorem Triple.modify {f : σ → σ} {post : PUnit → σ → Prop}
    (h : ∀ s, pre s → post ⟨⟩ (f s)) :
    Triple pre (modify f : EStateM ε σ PUnit) post stop :=
  fun s hs => h s hs

theorem Triple.bind {f : α → EStateM ε σ β} {post' : β → σ → Prop}
    (hm : Triple pre m post stop) (hf : ∀ a, Triple (post a) (f a) post' stop) :
    Triple pre (m >>= f) post' stop := by
  intro s hs
  have hend := hm s hs
  change match EStateM.bind m f s with
    | .ok b t => post' b t
    | .error e t => stop e t
  cases hrun : m s with
  | ok a t =>
      rw [hrun] at hend
      simpa only [EStateM.bind, hrun] using hf a t hend
  | error e t =>
      rw [hrun] at hend
      simpa only [EStateM.bind, hrun] using hend

/-- A step whose result is known. -/
theorem Triple.bindValue {f : α → EStateM ε σ β} {a : α} {mid : σ → Prop}
    {post' : β → σ → Prop} (hm : Triple pre m (fun b s => b = a ∧ mid s) stop)
    (hf : Triple mid (f a) post' stop) : Triple pre (m >>= f) post' stop := by
  refine hm.bind fun b s hs => ?_
  obtain ⟨rfl, hmid⟩ := hs
  exact hf s hmid

/-- Sequencing of commands whose results are not used. -/
theorem Triple.seq {n : EStateM ε σ PUnit} {m : EStateM ε σ β}
    {mid : σ → Prop} {post : β → σ → Prop}
    (hn : Triple pre n (fun _ => mid) stop) (hm : Triple mid m post stop) :
    Triple pre (n >>= fun _ => m) post stop :=
  hn.bind fun _ => hm

theorem Triple.ite {c : Prop} [Decidable c] {n : EStateM ε σ α}
    (hthen : c → Triple pre m post stop) (helse : ¬ c → Triple pre n post stop) :
    Triple pre (if c then m else n) post stop := by
  by_cases hc : c
  · simpa only [if_pos hc] using hthen hc
  · simpa only [if_neg hc] using helse hc

/-- The loop rule.  `inv done` is what holds once the commands of `done` have
run; the suffix still to come is available to the step as well. -/
theorem Triple.forM {γ : Type} {xs : List γ} {f : γ → EStateM ε σ PUnit}
    (inv : List γ → σ → Prop)
    (hstep : ∀ done x rest, xs = done ++ x :: rest →
      Triple (inv done) (f x) (fun _ => inv (done ++ [x])) stop) :
    Triple (inv []) (xs.forM f) (fun _ => inv xs) stop := by
  suffices hgo : ∀ rest done, xs = done ++ rest →
      Triple (inv done) (rest.forM f) (fun _ => inv xs) stop from
    hgo xs [] rfl
  intro rest
  induction rest with
  | nil =>
      intro done hxs
      rw [List.append_nil] at hxs
      subst hxs
      exact Triple.pure fun s hs => hs
  | cons x rest ih =>
      intro done hxs
      have hrest : xs = (done ++ [x]) ++ rest := by simpa using hxs
      exact (hstep done x rest hxs).bind fun _ => ih (done ++ [x]) hrest

theorem Keeps.bind {inv : σ → Prop} {f : α → EStateM ε σ β}
    (hm : Keeps inv m) (hf : ∀ a, Keeps inv (f a)) : Keeps inv (m >>= f) :=
  Triple.bind hm hf

theorem Keeps.pure {inv : σ → Prop} (a : α) :
    Keeps inv (Pure.pure a : EStateM ε σ α) :=
  Triple.pure fun _ hs => hs

theorem Keeps.get {inv : σ → Prop} :
    Keeps inv (MonadState.get : EStateM ε σ σ) :=
  fun _ hs => hs

theorem Keeps.forM {γ : Type} {inv : σ → Prop} {xs : List γ}
    {f : γ → EStateM ε σ PUnit} (h : ∀ x ∈ xs, Keeps inv (f x)) :
    Keeps inv (xs.forM f) := by
  apply Triple.forM fun _ => inv
  intro done x rest hxs
  exact h x (by simp [hxs])

theorem Keeps.foldlM {γ : Type} {inv : σ → Prop} {f : α → γ → EStateM ε σ α}
    (h : ∀ a x, Keeps inv (f a x)) (xs : List γ) (a : α) :
    Keeps inv (xs.foldlM f a) := by
  induction xs generalizing a with
  | nil => exact Keeps.pure a
  | cons x xs ih =>
      rw [List.foldlM_cons]
      exact Keeps.bind (h a x) ih

/-- What holds wherever the run ends. -/
theorem Triple.endState {inv : σ → Prop}
    (h : Triple pre m (fun _ => inv) (fun _ => inv)) {s : σ} (hs : pre s) :
    inv (endState (m s)) := by
  have hend := h s hs
  cases hrun : m s with
  | ok a t =>
      rw [hrun] at hend
      exact hend
  | error e t =>
      rw [hrun] at hend
      exact hend

end Rules

section Lockstep

/-- Two runs in lockstep: from states related by `rel` they end alike, in
related states and with the same value or the same error. -/
def Sim (rel : σ → σ → Prop) (m n : EStateM ε σ α) : Prop :=
  ∀ s t, rel s t → match m s, n t with
    | .ok a s', .ok b t' => a = b ∧ rel s' t'
    | .error e s', .error f t' => e = f ∧ rel s' t'
    | _, _ => False

variable {rel : σ → σ → Prop} {m n : EStateM ε σ α}

theorem Sim.pure (a : α) :
    Sim rel (Pure.pure a : EStateM ε σ α) (Pure.pure a : EStateM ε σ α) :=
  fun _ _ hrel => ⟨rfl, hrel⟩

theorem Sim.throw (e : ε) :
    Sim rel (throw e : EStateM ε σ α) (throw e : EStateM ε σ α) :=
  fun _ _ hrel => ⟨rfl, hrel⟩

theorem Sim.modify {f g : σ → σ} (h : ∀ s t, rel s t → rel (f s) (g t)) :
    Sim rel (modify f : EStateM ε σ PUnit) (modify g : EStateM ε σ PUnit) :=
  fun s t hrel => ⟨rfl, h s t hrel⟩

/-- Reading a part of the state on which related states agree. -/
theorem Sim.read (part : σ → α) (h : ∀ s t, rel s t → part s = part t) :
    Sim rel (do return part (← get) : EStateM ε σ α)
      (do return part (← get) : EStateM ε σ α) :=
  fun s t hrel => ⟨h s t hrel, hrel⟩

theorem Sim.bind {f g : α → EStateM ε σ β} (hm : Sim rel m n)
    (hf : ∀ a, Sim rel (f a) (g a)) : Sim rel (m >>= f) (n >>= g) := by
  intro s t hrel
  have hfirst := hm s t hrel
  change match EStateM.bind m f s, EStateM.bind n g t with
    | .ok a s', .ok b t' => a = b ∧ rel s' t'
    | .error e s', .error f t' => e = f ∧ rel s' t'
    | _, _ => False
  cases hms : m s with
  | ok a s' =>
      cases hnt : n t with
      | ok b t' =>
          rw [hms, hnt] at hfirst
          obtain ⟨rfl, hrel'⟩ := hfirst
          simpa only [EStateM.bind, hms, hnt] using hf a s' t' hrel'
      | error e t' =>
          rw [hms, hnt] at hfirst
          exact hfirst.elim
  | error e s' =>
      cases hnt : n t with
      | ok b t' =>
          rw [hms, hnt] at hfirst
          exact hfirst.elim
      | error f t' =>
          rw [hms, hnt] at hfirst
          simpa only [EStateM.bind, hms, hnt] using hfirst

theorem Sim.ite {c : Prop} [Decidable c] {m' n' : EStateM ε σ α}
    (hthen : c → Sim rel m n) (helse : ¬ c → Sim rel m' n') :
    Sim rel (if c then m else m') (if c then n else n') := by
  by_cases hc : c
  · simpa only [if_pos hc] using hthen hc
  · simpa only [if_neg hc] using helse hc

theorem Sim.forM {γ : Type} {xs : List γ} {f g : γ → EStateM ε σ PUnit}
    (h : ∀ x ∈ xs, Sim rel (f x) (g x)) : Sim rel (xs.forM f) (xs.forM g) := by
  induction xs with
  | nil => exact Sim.pure _
  | cons x xs ih =>
      apply Sim.bind (h x (by simp))
      intro _
      exact ih fun y hy => h y (by simp [hy])

/-- What the second run does alone keeps the first run's state related to its
own. -/
theorem Sim.skip {n : EStateM ε σ PUnit}
    (h : ∀ s, Triple (rel s) n (fun _ => rel s) (fun _ _ => False)) :
    Sim rel (Pure.pure ⟨⟩) n := by
  intro s t hrel
  have hend := h s t hrel
  have hpure : (Pure.pure ⟨⟩ : EStateM ε σ PUnit) s = .ok ⟨⟩ s := rfl
  rw [hpure]
  cases hnt : n t with
  | ok b t' =>
      rw [hnt] at hend
      exact ⟨rfl, hend⟩
  | error e t' =>
      rw [hnt] at hend
      exact hend

/-- However the two runs end, they end in related states. -/
theorem Sim.endState (h : Sim rel m n) {s t : σ} (hrel : rel s t) :
    rel (endState (m s)) (endState (n t)) := by
  have hend := h s t hrel
  cases hms : m s <;> cases hnt : n t <;> rw [hms, hnt] at hend
  · exact hend.2
  · exact hend.elim
  · exact hend.elim
  · exact hend.2

end Lockstep

section Steps

variable {m : EStateM ε σ α} {f : α → EStateM ε σ β} {s t : σ}

theorem bind_of_ok {a : α} (h : m s = .ok a t) : (m >>= f) s = f a t := by
  change EStateM.bind m f s = f a t
  simp only [EStateM.bind, h]

theorem bind_of_error {e : ε} (h : m s = .error e t) : (m >>= f) s = .error e t := by
  change EStateM.bind m f s = .error e t
  simp only [EStateM.bind, h]

variable {γ : Type} {x : γ} {xs : List γ} {g : γ → EStateM ε σ PUnit}

theorem forM_of_ok (h : g x s = .ok ⟨⟩ t) : (x :: xs).forM g s = xs.forM g t :=
  bind_of_ok h

theorem forM_of_error {e : ε} (h : g x s = .error e t) : (x :: xs).forM g s = .error e t :=
  bind_of_error h

/-- Rounds that do nothing leave nothing of a loop. -/
theorem forM_idle (h : ∀ y ∈ xs, g y = pure ⟨⟩) : xs.forM g = pure ⟨⟩ := by
  induction xs with
  | nil => rfl
  | cons y rest ih =>
      obtain ⟨hfirst, hrest⟩ := List.forall_mem_cons.mp h
      change (g y >>= fun _ => rest.forM g) = pure ⟨⟩
      rw [hfirst, ih hrest, pure_bind]

/-- A loop in which only one round does anything. -/
theorem forM_only (hnodup : xs.Nodup) (hmem : x ∈ xs)
    (h : ∀ y ∈ xs, y ≠ x → g y = pure ⟨⟩) : xs.forM g = g x := by
  induction xs with
  | nil => cases hmem
  | cons y rest ih =>
      obtain ⟨hfresh, hnodup⟩ := List.nodup_cons.mp hnodup
      obtain ⟨hfirst, hrest⟩ := List.forall_mem_cons.mp h
      change (g y >>= fun _ => rest.forM g) = g x
      rcases List.mem_cons.mp hmem with rfl | hmem
      · have hidle : rest.forM g = pure ⟨⟩ :=
          forM_idle fun z hz => hrest z hz fun heq => hfresh (heq ▸ hz)
        rw [hidle]
        exact bind_pure (g x)
      · have hne : y ≠ x := fun heq => hfresh (heq ▸ hmem)
        rw [hfirst hne, pure_bind]
        exact ih hnodup hmem hrest

end Steps

section Inversion

/-- A completed sequence passed through a state between its two parts. -/
theorem bind_eq_ok {m : EStateM ε σ α} {f : α → EStateM ε σ β} {s t : σ}
    {b : β} (h : (m >>= f) s = .ok b t) :
    ∃ a u, m s = .ok a u ∧ f a u = .ok b t := by
  change EStateM.bind m f s = .ok b t at h
  cases hrun : m s with
  | ok a u =>
      refine ⟨a, u, rfl, ?_⟩
      simpa only [EStateM.bind, hrun] using h
  | error e u =>
      simp only [EStateM.bind, hrun] at h
      cases h

theorem bind_eq_error {m : EStateM ε σ α} {f : α → EStateM ε σ β} {s t : σ} {e : ε}
    (h : (m >>= f) s = .error e t) :
    m s = .error e t ∨ ∃ a u, m s = .ok a u ∧ f a u = .error e t := by
  change EStateM.bind m f s = .error e t at h
  cases hm : m s with
  | ok a u =>
      simp only [EStateM.bind, hm] at h
      exact .inr ⟨a, u, rfl, h⟩
  | error e' u =>
      simp only [EStateM.bind, hm, EStateM.Result.error.injEq] at h
      obtain ⟨rfl, rfl⟩ := h
      exact .inl rfl

/-- A completed loop ran every one of its iterations to the end. -/
theorem forM_split {γ : Type} {f : γ → EStateM ε σ PUnit} {xs ys : List γ}
    {x : γ} {s t : σ} {a : PUnit} (h : (xs ++ x :: ys).forM f s = .ok a t) :
    ∃ u v, xs.forM f s = .ok ⟨⟩ u ∧ f x u = .ok ⟨⟩ v ∧
      ys.forM f v = .ok ⟨⟩ t := by
  induction xs generalizing s with
  | nil =>
      obtain ⟨_, v, hx, hys⟩ := bind_eq_ok h
      exact ⟨s, v, rfl, hx, hys⟩
  | cons y xs ih =>
      obtain ⟨_, w, hy, hrest⟩ := bind_eq_ok h
      obtain ⟨u, v, hxs, hx, hys⟩ := ih hrest
      exact ⟨u, v, (forM_of_ok hy).trans hxs, hx, hys⟩

end Inversion

section Commands

variable {γ : Type} (fails : γ → Bool) (error : γ → ε) (effect : γ → σ → σ)

/-- A command that either does all of its work or fails without doing any. -/
def command (x : γ) : EStateM ε σ PUnit :=
  if fails x then throw (error x) else modify (effect x)

theorem Triple.command {pre : σ → Prop} {post : PUnit → σ → Prop} {stop : ε → σ → Prop}
    {x : γ} (hdone : ∀ s, pre s → post ⟨⟩ (effect x s))
    (hfailed : ∀ s, pre s → stop (error x) s) :
    Triple pre (Script.command fails error effect x) post stop :=
  Triple.ite (fun _ => Triple.throw hfailed) fun _ => Triple.modify hdone

/-- A list of commands under `set -e` gets as far as the first failing one. -/
theorem endState_forM_command (xs : List γ) (s : σ) :
    endState (xs.forM (command fails error effect) s) =
      (xs.takeWhile fun x => !fails x).foldl (fun s x => effect x s) s := by
  induction xs generalizing s with
  | nil => rfl
  | cons x xs ih =>
      change endState (EStateM.bind (command fails error effect x)
        (fun _ => xs.forM (command fails error effect)) s) = _
      cases hfails : fails x with
      | true =>
          rw [List.takeWhile_cons_of_neg (by simp [hfails])]
          simp only [command, hfails, if_true]
          rfl
      | false =>
          rw [List.takeWhile_cons_of_pos (by simp [hfails]), List.foldl_cons, ← ih]
          simp only [command, hfails, Bool.false_eq_true, if_false]
          rfl

/-- A completed list of commands did the work of every one of them. -/
theorem eq_foldl_of_forM_command {xs : List γ} {s t : σ} {a : PUnit}
    (h : xs.forM (command fails error effect) s = .ok a t) :
    t = xs.foldl (fun s x => effect x s) s := by
  induction xs generalizing s with
  | nil =>
      cases h
      rfl
  | cons x xs ih =>
      obtain ⟨_, u, hx, hxs⟩ := bind_eq_ok h
      rw [List.foldl_cons, ih hxs]
      cases hfails : fails x with
      | true =>
          simp only [command, hfails, if_true] at hx
          cases hx
      | false =>
          simp only [command, hfails, Bool.false_eq_true, if_false] at hx
          cases hx
          rfl

end Commands

end Script

end Kryptonite
