/-
The patch objects of Lilu (`Patch::All`) and the vector that keeps them for the
removal of the patches (`evector`, `kern_util.hpp`).

Whether there is memory, and whether the kernel can be made writable, the machine
answers anew each time, so the questions are counted.  An object is known by the
number of the question for its memory.  The numbers of the freed objects are
remembered: to use such an object, or to free it again, is an error of the source
behind which nothing is known.
-/
import Kryptonite.Script
import Kryptonite.TextBytes

namespace Kryptonite

namespace Routing

open X86 Script

/-- What stops the system: a panic of the source, or a step that has no defined
result. -/
inductive Panic where
  /-- "previous plugin had short jump type on a multiroute function" -/
  | previousShort
  /-- "current plugin has short jump type on a multiroute function" -/
  | currentShort
  /-- "trying to use long jump on top of slotted jump" -/
  | unslotted
  /-- "not enough memory for slotted jumping" -/
  | noSlot
  /-- A call through a null pointer. -/
  | nullPatch
  /-- An object that was freed is used or freed again. -/
  | freedPatch
  /-- An element behind the end of a vector is erased. -/
  | outside
deriving Repr, DecidableEq

/-- `Patch::P`: the bytes at an address, before and after. -/
structure SavedPatch where
  address : Address
  original : List UInt8
  replaced : List UInt8
deriving Repr, DecidableEq

/-- The constructor reads what stands at the address. -/
def SavedPatch.create (text : Code) (address : Address) (bytes : List UInt8) : SavedPatch :=
  ⟨address, readBytes text address bytes.length, bytes⟩

/-- A pointer to a `Patch::All`. -/
structure PatchObject where
  number : Nat
  patch : SavedPatch
deriving Repr, DecidableEq

/-- The answers of the machine, by the number of the question: whether
`setKernelWriting`, `new` and `kern_os_realloc` succeed. -/
structure Answers where
  kernelWriting : Nat → Bool
  allocates : Nat → Bool
  reallocates : Nat → Bool

/-- The number of the next question, the freed objects, and the vector
`kpatches` with the number of elements that it has memory for. -/
structure Books where
  asked : Nat
  freed : List Nat
  kpatches : List PatchObject
  rsvd : Nat
deriving Repr, DecidableEq

abbrev BooksM := EStateM Panic Books

section Source

variable (answers : Answers)

def ask (answer : Nat → Bool) : BooksM Bool := do
  let b ← get
  set { b with asked := b.asked + 1 }
  return answer b.asked

/-- `Patch::create`; null if there is no memory. -/
def create (text : Code) (address : Address) (bytes : List UInt8) :
    BooksM (Option PatchObject) := do
  let number := (← get).asked
  if ← ask answers.allocates then
    return some ⟨number, .create text address bytes⟩
  else
    return none

/-- `Patch::deleter`. -/
def deleter (object : PatchObject) : BooksM Unit := do
  if object.number ∈ (← get).freed then
    throw .freedPatch
  else
    modify fun b => { b with freed := object.number :: b.freed }

/-- `evector::reserve<4>`. -/
def reserve (num : Nat) : BooksM Bool := do
  if (← get).rsvd < num then
    if ← ask answers.reallocates then
      modify fun b => { b with rsvd := 4 * num }
      return true
    else
      return false
  else
    return true

/-- `evector::push_back<4>`. -/
def pushBack (object : PatchObject) : BooksM Bool := do
  if ← reserve answers ((← get).kpatches.length + 1) then
    modify fun b => { b with kpatches := b.kpatches ++ [object] }
    return true
  else
    return false

/-- `evector::erase`. -/
def erase (index : Nat) : BooksM Unit := do
  match (← get).kpatches[index]? with
  | none => throw .outside
  | some object =>
      deleter object
      modify fun b => { b with
        kpatches := b.kpatches.eraseIdx index
        rsvd := if b.kpatches.length = 1 then 0 else b.rsvd }

def pushAll : List PatchObject → BooksM (List Bool)
  | [] => return []
  | object :: rest => do
      let stored ← pushBack answers object
      let others ← pushAll rest
      return stored :: others

/-- What `routeFunctionInternal` does with the objects of a revertible jump.  The
result of `push_back` is a boolean, and serves as an index all the same. -/
def store (objects : List PatchObject) : BooksM Unit := do
  let stored ← pushAll answers objects
  if stored.all id then
    return ()
  else
    (stored.filter id).forM fun idx => erase idx.toNat
    objects.forM deleter

end Source

variable {answers : Answers} {b b' c : Books} {objects : List PatchObject}
variable {object : PatchObject} {text : Code} {address : Address} {bytes : List UInt8}

section Steps

/-- The same books, but for questions asked in between. -/
structure Asks (b b' : Books) : Prop where
  asked : b.asked ≤ b'.asked
  freed : b'.freed = b.freed
  kpatches : b'.kpatches = b.kpatches

theorem Asks.refl : Asks b b := ⟨Nat.le_refl _, rfl, rfl⟩

theorem Asks.trans (h : Asks b c) (h' : Asks c b') : Asks b b' :=
  ⟨Nat.le_trans h.asked h'.asked, h'.freed.trans h.freed, h'.kpatches.trans h.kpatches⟩

theorem ask_cases {answer : Nat → Bool} {granted : Bool} (h : ask answer b = .ok granted b') :
    granted = answer b.asked ∧ Asks b b' := by
  cases h
  exact ⟨rfl, Nat.le_succ _, rfl, rfl⟩

theorem create_cases {made : Option PatchObject}
    (h : create answers text address bytes b = .ok made b') :
    Asks b b' ∧ ∀ object, made = some object →
      b.asked ≤ object.number ∧ object.number < b'.asked ∧
        object.patch = .create text address bytes := by
  rw [create] at h
  obtain ⟨_, c, hget, hrest⟩ := bind_eq_ok h
  cases hget
  obtain ⟨granted, c, hask, hrest⟩ := bind_eq_ok hrest
  cases hask
  split at hrest
  · cases hrest
    refine ⟨⟨Nat.le_succ _, rfl, rfl⟩, ?_⟩
    rintro object ⟨⟩
    exact ⟨Nat.le_refl _, Nat.lt_succ_self _, rfl⟩
  · cases hrest
    exact ⟨⟨Nat.le_succ _, rfl, rfl⟩, nofun⟩

theorem deleter_cases (h : deleter object b = .ok ⟨⟩ b') :
    object.number ∉ b.freed ∧ b' = { b with freed := object.number :: b.freed } := by
  rw [deleter] at h
  obtain ⟨_, c, hget, hrest⟩ := bind_eq_ok h
  cases hget
  split at hrest
  · cases hrest
  next hlive =>
    cases hrest
    exact ⟨hlive, rfl⟩

/-- What is freed, when all of the objects are. -/
theorem deleteAll_cases (h : objects.forM deleter b = .ok ⟨⟩ b') :
    b'.asked = b.asked ∧ b'.kpatches = b.kpatches ∧ (∀ object ∈ objects, object.number ∉ b.freed) ∧
      ∀ number, number ∈ b'.freed ↔ number ∈ b.freed ∨ number ∈ objects.map (·.number) := by
  induction objects generalizing b with
  | nil =>
      cases h
      exact ⟨rfl, rfl, List.forall_mem_nil _, fun number => by simp⟩
  | cons object objects ih =>
      obtain ⟨_, c, hfirst, hrest⟩ := bind_eq_ok h
      obtain ⟨hlive, rfl⟩ := deleter_cases hfirst
      obtain ⟨hasked, hkept, hothers, hfreed⟩ := ih hrest
      refine ⟨hasked, hkept, List.forall_mem_cons.mpr ⟨hlive, fun other hother hmem => ?_⟩, ?_⟩
      · exact hothers other hother (List.mem_cons_of_mem _ hmem)
      · intro number
        rw [hfreed, List.mem_cons, List.map_cons, List.mem_cons]
        tauto

theorem reserve_cases {num : Nat} {granted : Bool} (h : reserve answers num b = .ok granted b') :
    Asks b b' ∧ ((∀ n, answers.reallocates n = true) → granted = true) := by
  rw [reserve] at h
  obtain ⟨_, c, hget, hrest⟩ := bind_eq_ok h
  cases hget
  split at hrest
  · obtain ⟨answer, c, hask, hrest⟩ := bind_eq_ok hrest
    obtain ⟨hanswer, hasks⟩ := ask_cases hask
    split at hrest
    · cases hrest
      exact ⟨⟨hasks.asked, hasks.freed, hasks.kpatches⟩, fun _ => rfl⟩
    next hrefused =>
      cases hrest
      exact ⟨hasks, fun hmemory => absurd (hanswer.trans (hmemory _)) hrefused⟩
  · cases hrest
    exact ⟨.refl, fun _ => rfl⟩

theorem pushBack_cases {stored : Bool} (h : pushBack answers object b = .ok stored b') :
    b.asked ≤ b'.asked ∧ b'.freed = b.freed ∧
      b'.kpatches = b.kpatches ++ (if stored then [object] else []) ∧
      ((∀ n, answers.reallocates n = true) → stored = true) := by
  rw [pushBack] at h
  obtain ⟨_, c, hget, hrest⟩ := bind_eq_ok h
  cases hget
  obtain ⟨granted, c, hreserve, hrest⟩ := bind_eq_ok hrest
  obtain ⟨hasks, hmemory⟩ := reserve_cases hreserve
  split at hrest
  · cases hrest
    exact ⟨hasks.asked, hasks.freed, congrArg (· ++ [object]) hasks.kpatches, fun _ => rfl⟩
  next hrefused =>
    cases hrest
    refine ⟨hasks.asked, hasks.freed, ?_, fun hall => absurd (hmemory hall) hrefused⟩
    exact hasks.kpatches.trans (List.append_nil _).symm

/-- The objects that could be stored are behind the older ones. -/
theorem pushAll_cases {stored : List Bool} (h : pushAll answers objects b = .ok stored b') :
    b.asked ≤ b'.asked ∧ b'.freed = b.freed ∧
      (∃ pushed, b'.kpatches = b.kpatches ++ pushed ∧ pushed.Sublist objects ∧
        (stored.all id = true → pushed = objects) ∧ (true ∈ stored → pushed ≠ [])) ∧
      ((∀ n, answers.reallocates n = true) → stored.all id = true) := by
  induction objects generalizing b stored with
  | nil =>
      cases h
      exact ⟨Nat.le_refl _, rfl, ⟨[], (List.append_nil _).symm, .refl _, fun _ => rfl, nofun⟩,
        fun _ => rfl⟩
  | cons object objects ih =>
      obtain ⟨first, c, hpush, hrest⟩ := bind_eq_ok h
      obtain ⟨others, c', hothers, hrest⟩ := bind_eq_ok hrest
      cases hrest
      obtain ⟨hasked, hfreed, hkept, hmemory⟩ := pushBack_cases hpush
      obtain ⟨hasked', hfreed', ⟨pushed, hkept', hsub, hall, hany⟩, hmemory'⟩ := ih hothers
      refine ⟨Nat.le_trans hasked hasked', hfreed'.trans hfreed, ?_, fun h => ?_⟩
      · refine ⟨(if first then [object] else []) ++ pushed, ?_, ?_, fun h => ?_, fun h => ?_⟩
        · rw [hkept', hkept, List.append_assoc]
        · cases first with
          | true => exact hsub.cons_cons object
          | false => exact hsub.cons object
        · obtain ⟨hfirst, hothers⟩ := Bool.and_eq_true_iff.mp h
          cases first with
          | true => exact congrArg (object :: ·) (hall hothers)
          | false => cases hfirst
        · cases first with
          | true => exact List.cons_ne_nil _ _
          | false => exact hany ((List.mem_cons.mp h).resolve_left nofun)
      · rw [List.all_cons, hmemory h, hmemory' h]
        rfl

/-- Objects leave the vector only by being freed. -/
def Removes (b b' : Books) : Prop :=
  (∀ object ∈ b.kpatches, object ∈ b'.kpatches ∨ object.number ∈ b'.freed) ∧
    ∀ number ∈ b.freed, number ∈ b'.freed

theorem Removes.trans (h : Removes b c) (h' : Removes c b') : Removes b b' := by
  refine ⟨fun object hmem => ?_, fun number hmem => h'.2 number (h.2 number hmem)⟩
  rcases h.1 object hmem with hkept | hfreed
  · exact h'.1 object hkept
  · exact .inr (h'.2 _ hfreed)

theorem erase_removes {index : Nat} (h : erase index b = .ok ⟨⟩ b') : Removes b b' := by
  rw [erase] at h
  obtain ⟨_, c, hget, hrest⟩ := bind_eq_ok h
  cases hget
  cases hfound : b.kpatches[index]? with
  | none =>
      rw [hfound] at hrest
      cases hrest
  | some object =>
      rw [hfound] at hrest
      obtain ⟨_, c, hdelete, hrest⟩ := bind_eq_ok hrest
      obtain ⟨-, rfl⟩ := deleter_cases hdelete
      cases hrest
      refine ⟨fun other hother => ?_, fun number hmem => List.mem_cons_of_mem _ hmem⟩
      obtain ⟨k, hk⟩ := List.mem_iff_getElem?.mp hother
      by_cases hindex : k = index
      · subst hindex
        cases hk.symm.trans hfound
        exact .inr List.mem_cons_self
      · exact .inl (List.mem_eraseIdx_iff_getElem?.mpr ⟨k, hindex, hk⟩)

theorem eraseAll_removes {indices : List Bool}
    (h : indices.forM (fun idx => erase idx.toNat) b = .ok ⟨⟩ b') : Removes b b' := by
  induction indices generalizing b with
  | nil =>
      cases h
      exact ⟨fun _ hmem => .inl hmem, fun _ hmem => hmem⟩
  | cons idx indices ih =>
      obtain ⟨_, c, hfirst, hrest⟩ := bind_eq_ok h
      exact (erase_removes hfirst).trans (ih hrest)

end Steps

section Objects

/-- Nothing that is kept has been freed, and new numbers are new. -/
structure Books.Live (b : Books) : Prop where
  kept : ∀ object ∈ b.kpatches, object.number < b.asked ∧ object.number ∉ b.freed
  freed : ∀ number ∈ b.freed, number < b.asked

/-- The objects were made since. -/
structure Made (b : Books) (objects : List PatchObject) (b' : Books) : Prop where
  asks : Asks b b'
  numbers : ∀ object ∈ objects, b.asked ≤ object.number ∧ object.number < b'.asked

/-- What was kept stays, and these patches are kept besides. -/
structure Booked (b : Books) (patches : List SavedPatch) (b' : Books) : Prop where
  live : b.Live → b'.Live
  kept : ∃ more, b'.kpatches = b.kpatches ++ more ∧ more.map (·.patch) = patches

theorem Asks.live (h : Asks b b') (hlive : b.Live) : b'.Live := by
  have hasked := h.asked
  refine ⟨fun object hmem => ?_, fun number hmem => ?_⟩
  · rw [h.kpatches] at hmem
    obtain ⟨hlt, hfreed⟩ := hlive.kept object hmem
    exact ⟨Nat.lt_of_lt_of_le hlt hasked, h.freed ▸ hfreed⟩
  · rw [h.freed] at hmem
    exact Nat.lt_of_lt_of_le (hlive.freed number hmem) hasked

theorem Asks.booked (h : Asks b b') : Booked b [] b' :=
  ⟨h.live, [], h.kpatches.trans (List.append_nil _).symm, rfl⟩

theorem Booked.trans {patches more : List SavedPatch} (h : Booked b patches c)
    (h' : Booked c more b') : Booked b (patches ++ more) b' := by
  obtain ⟨first, hfirst, hpatches⟩ := h.kept
  obtain ⟨second, hsecond, hmore⟩ := h'.kept
  refine ⟨fun hlive => h'.live (h.live hlive), first ++ second, ?_, ?_⟩
  · rw [hsecond, hfirst, List.append_assoc]
  · rw [List.map_append, hpatches, hmore]

theorem Made.then (h : Made b objects c) (hasks : Asks c b') : Made b objects b' :=
  ⟨h.asks.trans hasks, fun object hmem =>
    ⟨(h.numbers object hmem).1, Nat.lt_of_lt_of_le (h.numbers object hmem).2 hasks.asked⟩⟩

/-- New objects that are freed again leave no trace. -/
theorem Made.booked_delete (h : Made b objects c) (hdelete : objects.forM deleter c = .ok ⟨⟩ b') :
    Booked b [] b' := by
  obtain ⟨hasked, hkept, -, hfreed⟩ := deleteAll_cases hdelete
  have hsame : b'.kpatches = b.kpatches := hkept.trans h.asks.kpatches
  refine ⟨fun hlive => ⟨fun object hmem => ?_, fun number hmem => ?_⟩, [],
    hsame.trans (List.append_nil _).symm, rfl⟩
  · obtain ⟨hlt, hnot⟩ := hlive.kept object (hsame ▸ hmem)
    have hle := h.asks.asked
    refine ⟨by omega, fun hmem => ?_⟩
    rcases (hfreed _).mp hmem with hold | hnew
    · exact hnot (h.asks.freed ▸ hold)
    · obtain ⟨other, hother, heq⟩ := List.mem_map.mp hnew
      have hnumber := (h.numbers other hother).1
      omega
  · rw [hasked]
    rcases (hfreed _).mp hmem with hold | hnew
    · exact (h.asks.live hlive).freed number hold
    · obtain ⟨other, hother, rfl⟩ := List.mem_map.mp hnew
      exact (h.numbers other hother).2

/-- New objects are kept, if there is memory for it. -/
theorem Made.booked_store (h : Made b objects c) (hmemory : ∀ n, answers.reallocates n = true)
    (hstore : store answers objects c = .ok ⟨⟩ b') : Booked b (objects.map (·.patch)) b' := by
  rw [store] at hstore
  obtain ⟨stored, d, hpush, hrest⟩ := bind_eq_ok hstore
  obtain ⟨hasked, hfreed, ⟨pushed, hkept, -, hall, -⟩, hstored⟩ := pushAll_cases hpush
  obtain rfl := hall (hstored hmemory)
  rw [if_pos (hstored hmemory)] at hrest
  cases hrest
  have hle := h.asks.asked
  rw [h.asks.kpatches] at hkept
  rw [h.asks.freed] at hfreed
  refine ⟨fun hlive => ⟨fun object hmem => ?_, fun number hmem => ?_⟩, pushed, hkept, rfl⟩
  · rw [hkept] at hmem
    rw [hfreed]
    rcases List.mem_append.mp hmem with hold | hnew
    · obtain ⟨hlt, hnot⟩ := hlive.kept object hold
      exact ⟨by omega, hnot⟩
    · obtain ⟨hfrom, hlt⟩ := h.numbers object hnew
      refine ⟨by omega, fun hmem => ?_⟩
      have hbelow := hlive.freed _ hmem
      omega
  · rw [hfreed] at hmem
    have hbelow := hlive.freed number hmem
    omega

/-- Where only some of the objects of a jump can be stored, and the system does
not stop over that, a freed object is left in the vector. -/
theorem store_dangles {stored : List Bool} (hpush : pushAll answers objects b = .ok stored c)
    (hsome : true ∈ stored) (hnot : stored.all id = false)
    (h : store answers objects b = .ok ⟨⟩ b') :
    ∃ object ∈ b'.kpatches, object.number ∈ b'.freed := by
  obtain ⟨-, -, ⟨pushed, hkept, hsub, -, hany⟩, -⟩ := pushAll_cases hpush
  rw [store, bind_of_ok hpush, hnot] at h
  obtain ⟨_, d, herase, hdelete⟩ := bind_eq_ok h
  obtain ⟨-, hsame, hlive, hfreed⟩ := deleteAll_cases hdelete
  obtain ⟨object, hobject⟩ := List.exists_mem_of_ne_nil pushed (hany hsome)
  have hmem : object ∈ objects := hsub.subset hobject
  refine ⟨object, ?_, (hfreed _).mpr (.inr (List.mem_map_of_mem hmem))⟩
  rw [hsame]
  have hleft := (eraseAll_removes herase).1 object (hkept ▸ List.mem_append_right _ hobject)
  exact hleft.resolve_right (hlive object hmem)

end Objects

end Routing

end Kryptonite
