/-
How Lilu learns that a kext has been loaded (`kern_patcher.cpp`).  The kernel's
list of loaded kexts is in front of it, newest first.  Two kernel functions are
routed: `OSKext::unload`, and `saveLoadedKextPanicList`, which the kernel calls
after it has changed the list.  A handler waits for one kext by name.

`activate` runs on a thread of its own while other threads load kexts, so that
its two halves, the pass over the kexts already loaded and the store to
`activated`, are separate actions here.

Of the kernel it is assumed that it puts a kext in front of the list and then
calls `saveLoadedKextPanicList`, once (`loadKext`), that `OSKext::unload` takes
the kexts at an address off the list and then calls it, once (`unloadKext`), and
that its own function does nothing but save the list.  Each of these actions is
done before the next one begins.
-/
import Kryptonite.PatchSet
import Kryptonite.Subscription

namespace Kryptonite

namespace KextListening

open Subscription

/-- `KernelPatcher::KextHandler`.  Its `address` and `size` are written right
before the callback, which alone reads them; they are in `Callback`. -/
structure KextHandler where
  id : String
  index : Nat
  loaded : Bool
  reloadable : Bool
deriving Repr, DecidableEq

/-- `kmod_info_t`. -/
structure Kmod where
  name : String
  address : Nat
  size : Nat
deriving Repr, DecidableEq

/-- What a handler hands to `processKextLoadCallbacks`. -/
structure Callback where
  index : Nat
  address : Nat
  size : Nat
  reloadable : Bool
deriving Repr, DecidableEq

/-- The lines that are logged outside debug builds. -/
inductive Notice where
  /-- "uuid mismatch for … at …, ignoring" -/
  | uuidMismatch (name : String) (address : Nat)
  /-- "no kext is currently loaded, this should not happen" -/
  | nothingLoaded
  /-- "you should have called setupKextListening first" -/
  | notListening
  /-- "failed to route kext listener functions" -/
  | notRouted
  /-- "improper request with 0 paths for … kext" -/
  | improperRequest (id : String)
  /-- "failed to setup kext hooking" -/
  | noHooking
  /-- "failed to allocate KextHandler for …" -/
  | noHandler (id : String)
  /-- "failed to wait on kext …" -/
  | noWaiting (id : String)
deriving Repr, DecidableEq

/-- The fields of `KernelPatcher` that take part, the kernel's list of kexts
(`*kextKmods`), the list it saves for panics, and what has been called back. -/
structure Listener where
  code : Error
  /-- The `objectId` of every `kinfo`. -/
  kinfos : List String
  that : Bool
  khandlers : List KextHandler
  waitingForAlreadyLoadedKexts : Bool
  activated : Bool
  isKextUnloading : Bool
  kmods : List Kmod
  panicList : List Kmod
  callbacks : List Callback
  notices : List Notice

/-- What the machine answers: the Darwin version, and whether the binary at an
address is the one that a `kinfo` describes. -/
structure Host where
  major : Nat
  isCurrentBinary : Nat → Nat → Bool

def bigSur : Nat := 20

def kmodMaxName : Nat := 64

/-- `!strncmp(first, second, KMOD_MAX_NAME)`. -/
def sameName (first second : String) : Bool :=
  first.toUTF8.data.toList.take kmodMaxName == second.toUTF8.data.toList.take kmodMaxName

theorem sameName_of_common {first second third : String} (h : sameName first third = true)
    (h' : sameName second third = true) : sameName first second = true := by
  simp only [sameName, beq_iff_eq] at h h' ⊢
  exact h.trans h'.symm

section Source

variable (host : Host)

/-- The loop of `processKext`: the handlers that remain, the one to call, and
what is logged. -/
def search (kmod : Kmod) (loaded : Bool) :
    List KextHandler → List KextHandler × Option KextHandler × List Notice
  | [] => ([], none, [])
  | handler :: rest =>
      let next := search kmod loaded rest
      if loaded && !handler.loaded then
        (handler :: next.1, next.2.1, next.2.2)
      else if sameName handler.id kmod.name then
        if host.isCurrentBinary handler.index kmod.address then
          (if handler.reloadable then handler :: rest else rest, some handler, [])
        else
          (handler :: next.1, next.2.1, .uuidMismatch kmod.name kmod.address :: next.2.2)
      else
        (handler :: next.1, next.2.1, next.2.2)

def callback (handler : KextHandler) (kmod : Kmod) : Callback :=
  ⟨handler.index, kmod.address, kmod.size, handler.reloadable⟩

def processKext (l : Listener) (kmod : Kmod) (loaded : Bool) : Listener :=
  let found := search host kmod loaded l.khandlers
  { l with
    khandlers := found.1
    callbacks := l.callbacks ++ (found.2.1.map (callback · kmod)).toList
    notices := l.notices ++ found.2.2 }

def processAlreadyLoadedKexts (l : Listener) : Listener :=
  l.kmods.foldl (fun l kmod => processKext host l kmod true) l

/-- The pass, after which nobody waits for the kexts already loaded. -/
def processWaiting (l : Listener) : Listener :=
  { processAlreadyLoadedKexts host l with waitingForAlreadyLoadedKexts := false }

def processNewest (l : Listener) : Listener :=
  match l.kmods with
  | [] => { l with notices := l.notices ++ [.nothingLoaded] }
  | kmod :: _ => processKext host l kmod false

/-- The kernel's own function. -/
def saveLoadedKextPanicList (l : Listener) : Listener :=
  { l with panicList := l.kmods }

/-- Before `activated` the kernel's own function is not called either. -/
def onOSKextSaveLoadedKextPanicList (l : Listener) : Listener :=
  if ¬ l.that ∨ ¬ l.activated then
    l
  else if l.isKextUnloading then
    saveLoadedKextPanicList l
  else if l.waitingForAlreadyLoadedKexts then
    processWaiting host (saveLoadedKextPanicList l)
  else
    processNewest host (saveLoadedKextPanicList l)

/-- What the kernel does in `OSKext::unload`. -/
def unloadKext (l : Listener) (address : Nat) : Listener :=
  onOSKextSaveLoadedKextPanicList host
    { l with kmods := l.kmods.filter (·.address ≠ address) }

def onOSKextUnload (l : Listener) (address : Nat) : Listener :=
  if l.that then
    { unloadKext host { l with isKextUnloading := true } address with isKextUnloading := false }
  else
    l

/-- What the kernel does when it loads a kext. -/
def loadKext (l : Listener) (kmod : Kmod) : Listener :=
  onOSKextSaveLoadedKextPanicList host { l with kmods := kmod :: l.kmods }

/-- The first half of `activate`. -/
def catchUp (l : Listener) : Listener :=
  if bigSur ≤ host.major ∧ l.waitingForAlreadyLoadedKexts then processWaiting host l else l

/-- The second half of `activate`. -/
def enable (l : Listener) : Listener :=
  { l with activated := true }

def activate (l : Listener) : Listener := enable (catchUp host l)

/-- What can happen to the listener once the handlers wait. -/
inductive Action where
  | load (kmod : Kmod)
  | unload (address : Nat)
  | catchUp
  | enable
deriving Repr, DecidableEq

def act (l : Listener) : Action → Listener
  | .load kmod => loadKext host l kmod
  | .unload address => onOSKextUnload host l address
  | .catchUp => catchUp host l
  | .enable => enable l

def run (l : Listener) (actions : List Action) : Listener :=
  actions.foldl (act host) l

end Source

/-- What decides which kexts the handlers are shown. -/
structure Phase where
  kmods : List Kmod
  waiting : Bool
  activated : Bool
deriving Repr, DecidableEq

namespace Phase

variable (modern : Bool)

def step (p : Phase) : Action → Phase
  | .load kmod => ⟨kmod :: p.kmods, p.waiting && !p.activated, p.activated⟩
  | .unload address => { p with kmods := p.kmods.filter (·.address ≠ address) }
  | .catchUp => { p with waiting := p.waiting && !modern }
  | .enable => { p with activated := true }

/-- The kexts that an action shows to the handlers, in order; `true` marks those
of a pass over the loaded kexts. -/
def shown (p : Phase) : Action → List (Kmod × Bool)
  | .load kmod =>
      if p.activated then
        if p.waiting then (kmod :: p.kmods).map (·, true) else [(kmod, false)]
      else []
  | .unload _ => []
  | .catchUp => if modern && p.waiting then p.kmods.map (·, true) else []
  | .enable => []

def shownAll : Phase → List Action → List (Kmod × Bool)
  | _, [] => []
  | p, action :: rest => shown modern p action ++ shownAll (step modern p action) rest

end Phase

def Host.modern (host : Host) : Bool := decide (bigSur ≤ host.major)

def phase (l : Listener) : Phase := ⟨l.kmods, l.waitingForAlreadyLoadedKexts, l.activated⟩

section Shown

variable (host : Host)

/-- A handler takes a kext, in a pass over the loaded kexts (`true`) or as the
one just loaded. -/
def accepts (handler : KextHandler) (item : Kmod × Bool) : Bool :=
  (!item.2 || handler.loaded) && sameName handler.id item.1.name &&
    host.isCurrentBinary handler.index item.1.address

/-- What the handlers make of the kexts shown to them. -/
def offer (l : Listener) (items : List (Kmod × Bool)) :
    List KextHandler × List (KextHandler × Kmod × Bool) :=
  presentAll (accepts host) KextHandler.reloadable l.khandlers items

variable {host} {l : Listener}

theorem search_eq (kmod : Kmod) (loaded : Bool) (handlers : List KextHandler) :
    (search host kmod loaded handlers).1 =
        (present (accepts host) KextHandler.reloadable (kmod, loaded) handlers).1 ∧
      (search host kmod loaded handlers).2.1 =
        (present (accepts host) KextHandler.reloadable (kmod, loaded) handlers).2 := by
  induction handlers with
  | nil => exact ⟨rfl, rfl⟩
  | cons handler rest ih =>
      by_cases hskip : (loaded && !handler.loaded) = true
      · have hno : ¬ accepts host handler (kmod, loaded) = true := by
          simp only [accepts, Bool.and_eq_true, Bool.not_eq_true'] at hskip ⊢
          simp [hskip]
        simp [search, present, hskip, hno, ih]
      · have hpass : (!loaded || handler.loaded) = true := by
          revert hskip
          cases loaded <;> cases handler.loaded <;> decide
        by_cases hname : sameName handler.id kmod.name = true
        · by_cases hbinary : host.isCurrentBinary handler.index kmod.address = true
          · simp [search, present, accepts, hskip, hpass, hname, hbinary]
          · simp [search, present, accepts, hskip, hname, hbinary, ih]
        · simp [search, present, accepts, hskip, hname, ih]

def calls (deliveries : List (KextHandler × Kmod × Bool)) : List Callback :=
  deliveries.map fun delivery => callback delivery.1 delivery.2.1

/-- `l'` comes from `l` by showing `items` to the handlers. -/
structure Answers (host : Host) (l : Listener) (items : List (Kmod × Bool)) (l' : Listener) :
    Prop where
  khandlers : l'.khandlers = (offer host l items).1
  callbacks : l'.callbacks = l.callbacks ++ calls (offer host l items).2

/-- `l'` differs from `l` at most in the handlers, the callbacks and the log. -/
structure Frame (l l' : Listener) : Prop where
  kinfos : l'.kinfos = l.kinfos
  that : l'.that = l.that
  waiting : l'.waitingForAlreadyLoadedKexts = l.waitingForAlreadyLoadedKexts
  activated : l'.activated = l.activated
  unloading : l'.isKextUnloading = l.isKextUnloading
  kmods : l'.kmods = l.kmods

theorem Answers.nothing {l' : Listener} (hhandlers : l'.khandlers = l.khandlers)
    (hcallbacks : l'.callbacks = l.callbacks) : Answers host l [] l' :=
  ⟨hhandlers, hcallbacks.trans (List.append_nil _).symm⟩

/-- Only the handlers and the callbacks of the two states matter. -/
theorem Answers.congr {l₀ l' l₁ : Listener} {items : List (Kmod × Bool)}
    (h : Answers host l₀ items l₁) (hhandlers : l₀.khandlers = l.khandlers)
    (hcallbacks : l₀.callbacks = l.callbacks) (hhandlers' : l'.khandlers = l₁.khandlers)
    (hcallbacks' : l'.callbacks = l₁.callbacks) : Answers host l items l' := by
  obtain ⟨hk, hc⟩ := h
  have hoffer : offer host l₀ items = offer host l items := by rw [offer, offer, hhandlers]
  exact ⟨by rw [hhandlers', hk, hoffer], by rw [hcallbacks', hc, hoffer, hcallbacks]⟩

theorem Answers.trans {l' l'' : Listener} {items more : List (Kmod × Bool)}
    (h : Answers host l items l') (h' : Answers host l' more l'') :
    Answers host l (items ++ more) l'' := by
  have happ := @presentAll_append _ _ (accepts host) KextHandler.reloadable l.khandlers items more
  constructor
  · rw [h'.khandlers, offer, h.khandlers, offer, offer, happ]
  · rw [h'.callbacks, h.callbacks, offer, offer, offer, happ, h.khandlers, offer, calls, calls,
      calls, List.map_append, List.append_assoc]

theorem Frame.trans {l' l'' : Listener} (h : Frame l l') (h' : Frame l' l'') : Frame l l'' :=
  ⟨h'.kinfos.trans h.kinfos, h'.that.trans h.that, h'.waiting.trans h.waiting,
    h'.activated.trans h.activated, h'.unloading.trans h.unloading, h'.kmods.trans h.kmods⟩

theorem processKext_frame (kmod : Kmod) (loaded : Bool) :
    Frame l (processKext host l kmod loaded) :=
  ⟨rfl, rfl, rfl, rfl, rfl, rfl⟩

theorem processKext_answers (kmod : Kmod) (loaded : Bool) :
    Answers host l [(kmod, loaded)] (processKext host l kmod loaded) := by
  refine ⟨(search_eq kmod loaded l.khandlers).1, ?_⟩
  rw [processKext, (search_eq kmod loaded l.khandlers).2]
  cases hfound : (present (accepts host) KextHandler.reloadable (kmod, loaded) l.khandlers).2 <;>
    simp [offer, presentAll, calls, hfound]

/-- The pass over a list of kexts. -/
theorem pass_spec (kmods : List Kmod) :
    Answers host l (kmods.map (·, true))
        (kmods.foldl (fun l kmod => processKext host l kmod true) l) ∧
      Frame l (kmods.foldl (fun l kmod => processKext host l kmod true) l) := by
  induction kmods generalizing l with
  | nil => exact ⟨.nothing rfl rfl, ⟨rfl, rfl, rfl, rfl, rfl, rfl⟩⟩
  | cons kmod rest ih =>
      obtain ⟨hanswers, hframe⟩ := @ih (processKext host l kmod true)
      exact ⟨(processKext_answers kmod true).trans hanswers,
        (processKext_frame kmod true).trans hframe⟩

variable (host l) in
theorem processWaiting_answers :
    Answers host l (l.kmods.map (·, true)) (processWaiting host l) :=
  (pass_spec l.kmods).1.congr rfl rfl rfl rfl

variable (host l) in
theorem processNewest_answers :
    Answers host l (l.kmods.head?.map (·, false)).toList (processNewest host l) := by
  rw [processNewest]
  cases l.kmods with
  | nil => exact .nothing rfl rfl
  | cons kmod rest => exact processKext_answers kmod false

/-- No handler is added, and who is called waited. -/
structure Within (l l' : Listener) : Prop where
  khandlers : ∀ handler ∈ l'.khandlers, handler ∈ l.khandlers
  callbacks : ∀ call ∈ l'.callbacks, call ∈ l.callbacks ∨
    ∃ handler ∈ l.khandlers, call.index = handler.index

theorem Within.refl (l : Listener) : Within l l := ⟨fun _ => id, fun _ => .inl⟩

theorem Within.trans {l' l'' : Listener} (h : Within l l') (h' : Within l' l'') : Within l l'' := by
  refine ⟨fun handler hmem => h.khandlers handler (h'.khandlers handler hmem), ?_⟩
  intro call hcall
  rcases h'.callbacks call hcall with hcall | ⟨handler, hmem, hindex⟩
  · exact h.callbacks call hcall
  · exact .inr ⟨handler, h.khandlers handler hmem, hindex⟩

theorem Answers.within {l' : Listener} {items : List (Kmod × Bool)}
    (h : Answers host l items l') : Within l l' := by
  constructor
  · rw [h.khandlers, offer]
    exact fun handler hmem => presentAll_subset hmem
  · intro call hcall
    rw [h.callbacks, List.mem_append] at hcall
    refine hcall.imp_right fun hcall => ?_
    obtain ⟨delivery, hdelivery, rfl⟩ := List.mem_map.mp hcall
    exact ⟨delivery.1, (mem_presentAll hdelivery).1, rfl⟩

variable (host l) in
theorem save_within : Within l (onOSKextSaveLoadedKextPanicList host l) := by
  have hsaved : Within l (saveLoadedKextPanicList l) := ⟨fun _ => id, fun _ => .inl⟩
  rw [onOSKextSaveLoadedKextPanicList]
  split
  · exact .refl l
  · split
    · exact hsaved
    · split
      · exact hsaved.trans (processWaiting_answers host _).within
      · exact hsaved.trans (processNewest_answers host _).within

theorem act_within (l : Listener) (action : Action) : Within l (act host l action) := by
  cases action with
  | load kmod =>
      have hlisted : Within l { l with kmods := kmod :: l.kmods } := ⟨fun _ => id, fun _ => .inl⟩
      exact hlisted.trans (save_within host _)
  | unload address =>
      have hlisted : Within l { l with
          isKextUnloading := true, kmods := l.kmods.filter (·.address ≠ address) } :=
        ⟨fun _ => id, fun _ => .inl⟩
      have hsaved := hlisted.trans (save_within host _)
      change Within l (onOSKextUnload host l address)
      rw [onOSKextUnload]
      split
      · exact ⟨hsaved.khandlers, hsaved.callbacks⟩
      · exact .refl l
  | catchUp =>
      change Within l (catchUp host l)
      rw [catchUp]
      split
      · exact (processWaiting_answers host l).within
      · exact .refl l
  | enable => exact ⟨fun _ => id, fun _ => .inl⟩

theorem run_within (l : Listener) (actions : List Action) : Within l (run host l actions) := by
  induction actions generalizing l with
  | nil => exact .refl l
  | cons action rest ih => exact (act_within l action).trans (ih (act host l action))

/-- Kext handling is set up, and no unload is going on. -/
structure Listening (l : Listener) : Prop where
  that : l.that = true
  idle : l.isKextUnloading = false

variable (host l) in
theorem processWaiting_fields :
    phase (processWaiting host l) = ⟨l.kmods, false, l.activated⟩ ∧
      (processWaiting host l).that = l.that ∧
      (processWaiting host l).isKextUnloading = l.isKextUnloading := by
  have hframe : Frame l (processAlreadyLoadedKexts host l) := (pass_spec l.kmods).2
  exact ⟨by rw [phase, processWaiting, hframe.kmods, hframe.activated], hframe.that,
    hframe.unloading⟩

variable (host l) in
theorem processNewest_fields :
    phase (processNewest host l) = phase l ∧ (processNewest host l).that = l.that ∧
      (processNewest host l).isKextUnloading = l.isKextUnloading := by
  rw [processNewest]
  split <;> exact ⟨rfl, rfl, rfl⟩

/-- What an action does: it shows kexts to the handlers, and what it shows next
depends on the phase alone. -/
structure Follows (host : Host) (l : Listener) (action : Action) (l' : Listener) : Prop where
  answers : Answers host l ((phase l).shown host.modern action) l'
  phase : phase l' = (phase l).step host.modern action
  listening : Listening l'

theorem loadKext_follows (h : Listening l) (kmod : Kmod) :
    Follows host l (.load kmod) (loadKext host l kmod) := by
  by_cases hactive : l.activated = true
  · have hguard : ¬ (¬ l.that = true ∨ ¬ l.activated = true) := by simp [h.that, hactive]
    have hidle : ¬ l.isKextUnloading = true := by simp [h.idle]
    by_cases hwaiting : l.waitingForAlreadyLoadedKexts = true
    · -- the kext just loaded is the first of the pass
      have hshown : (phase l).shown host.modern (.load kmod) =
          (kmod :: l.kmods).map (·, true) := by
        simp only [Phase.shown, phase, hactive, hwaiting, if_true]
      rw [loadKext, onOSKextSaveLoadedKextPanicList, if_neg hguard, if_neg hidle, if_pos hwaiting]
      obtain ⟨hphase, hthat, hunloading⟩ := processWaiting_fields host
        (saveLoadedKextPanicList { l with kmods := kmod :: l.kmods })
      refine ⟨?_, ?_, ⟨hthat.trans h.that, hunloading.trans h.idle⟩⟩
      · rw [hshown]
        exact (processWaiting_answers host
          (saveLoadedKextPanicList { l with kmods := kmod :: l.kmods })).congr rfl rfl rfl rfl
      · rw [hphase, Phase.step]
        simp [phase, saveLoadedKextPanicList, hactive]
    · have hshown : (phase l).shown host.modern (.load kmod) = [(kmod, false)] := by
        simp only [Phase.shown, phase, hactive, hwaiting, if_true, Bool.false_eq_true, if_false]
      rw [loadKext, onOSKextSaveLoadedKextPanicList, if_neg hguard, if_neg hidle, if_neg hwaiting]
      obtain ⟨hphase, hthat, hunloading⟩ := processNewest_fields host
        (saveLoadedKextPanicList { l with kmods := kmod :: l.kmods })
      refine ⟨?_, ?_, ⟨hthat.trans h.that, hunloading.trans h.idle⟩⟩
      · rw [hshown]
        exact (processNewest_answers host
          (saveLoadedKextPanicList { l with kmods := kmod :: l.kmods })).congr rfl rfl rfl rfl
      · rw [hphase, Phase.step]
        simp [phase, saveLoadedKextPanicList, hwaiting]
  · have hguard : ¬ l.that = true ∨ ¬ l.activated = true := .inr hactive
    have hshown : (phase l).shown host.modern (.load kmod) = [] := by
      simp only [Phase.shown, phase, hactive, Bool.false_eq_true, if_false]
    rw [loadKext, onOSKextSaveLoadedKextPanicList, if_pos hguard]
    refine ⟨?_, ?_, ⟨h.that, h.idle⟩⟩
    · rw [hshown]
      exact .nothing rfl rfl
    · simp [phase, Phase.step, hactive]

/-- An unload shows nothing, whether or not it saves the panic list. -/
theorem onOSKextUnload_follows (h : Listening l) (address : Nat) :
    Follows host l (.unload address) (onOSKextUnload host l address) := by
  rw [onOSKextUnload, if_pos h.that, unloadKext, onOSKextSaveLoadedKextPanicList]
  by_cases hguard : ¬ l.that = true ∨ ¬ l.activated = true
  · rw [if_pos hguard]
    exact ⟨.nothing rfl rfl, rfl, ⟨h.that, rfl⟩⟩
  · rw [if_neg hguard, if_pos rfl]
    exact ⟨.nothing rfl rfl, rfl, ⟨h.that, rfl⟩⟩

theorem catchUp_follows (h : Listening l) : Follows host l .catchUp (catchUp host l) := by
  by_cases hpass : bigSur ≤ host.major ∧ l.waitingForAlreadyLoadedKexts = true
  · obtain ⟨hphase, hthat, hunloading⟩ := processWaiting_fields host l
    rw [catchUp, if_pos hpass]
    refine ⟨?_, ?_, ⟨hthat.trans h.that, hunloading.trans h.idle⟩⟩
    · have hshown : (phase l).shown host.modern .catchUp = l.kmods.map (·, true) := by
        simp [Phase.shown, phase, Host.modern, hpass]
      rw [hshown]
      exact processWaiting_answers host l
    · rw [hphase]
      simp [Phase.step, phase, Host.modern, hpass.1]
  · rw [catchUp, if_neg hpass]
    refine ⟨?_, ?_, h⟩
    · have hshown : (phase l).shown host.modern .catchUp = [] := by
        have hnone : ¬ (host.modern && l.waitingForAlreadyLoadedKexts) = true := by
          simpa [Host.modern] using hpass
        exact if_neg hnone
      rw [hshown]
      exact .nothing rfl rfl
    · have hsame : (l.waitingForAlreadyLoadedKexts && !host.modern) =
          l.waitingForAlreadyLoadedKexts := by
        cases hwaiting : l.waitingForAlreadyLoadedKexts <;>
          simp_all [Host.modern]
      simp [Phase.step, phase, hsame]

theorem act_follows (h : Listening l) (action : Action) :
    Follows host l action (act host l action) := by
  cases action with
  | load kmod => exact loadKext_follows h kmod
  | unload address => exact onOSKextUnload_follows h address
  | catchUp => exact catchUp_follows h
  | enable => exact ⟨.nothing rfl rfl, rfl, ⟨h.that, h.idle⟩⟩

/-- A whole run shows the handlers what its phases say. -/
theorem run_answers (h : Listening l) (actions : List Action) :
    Answers host l ((phase l).shownAll host.modern actions) (run host l actions) := by
  induction actions generalizing l with
  | nil => exact .nothing rfl rfl
  | cons action rest ih =>
      have hfirst : Follows host l action (act host l action) := act_follows h action
      have hrest := ih hfirst.listening
      rw [hfirst.phase] at hrest
      exact hfirst.answers.trans hrest

end Shown

section Calls

variable {host : Host} {l : Listener} {handler : KextHandler}

/-- The state in which the handlers wait: every handler has an index of its own,
and no two wait for the same kext. -/
structure Ready (l : Listener) : Prop where
  listening : Listening l
  fresh : l.callbacks = []
  indices : (l.khandlers.map KextHandler.index).Nodup
  names : l.khandlers.Pairwise fun first second => sameName first.id second.id = false

/-- The calls of one handler. -/
def callsOf (handler : KextHandler) (l : Listener) : List Callback :=
  l.callbacks.filter (·.index = handler.index)

theorem Ready.exclusive (h : Ready l) : Exclusive (accepts host) l.khandlers := by
  refine h.names.imp fun hne item hfirst hsecond => ?_
  simp only [accepts, Bool.and_eq_true] at hfirst hsecond
  have hsame := sameName_of_common hfirst.1.2 hsecond.1.2
  simp [hsame] at hne

theorem Ready.eq_of_index (h : Ready l) {first second : KextHandler}
    (hfirst : first ∈ l.khandlers) (hsecond : second ∈ l.khandlers)
    (heq : first.index = second.index) : first = second :=
  List.inj_on_of_nodup_map h.indices hfirst hsecond heq

/-- The calls of a handler are what it is handed of the kexts shown. -/
theorem callsOf_run (h : Ready l) (hmem : handler ∈ l.khandlers) (actions : List Action) :
    callsOf handler (run host l actions) =
      (handed handler (offer host l ((phase l).shownAll host.modern actions)).2).map
        fun item => callback handler item.1 := by
  rw [callsOf, (run_answers h.listening actions).callbacks, h.fresh, List.nil_append, calls,
    List.filter_map, handed, List.map_map]
  have hsame : ∀ delivery ∈ (offer host l ((phase l).shownAll host.modern actions)).2,
      decide ((callback delivery.1 delivery.2.1).index = handler.index) =
        decide (delivery.1 = handler) := by
    intro delivery hdelivery
    have hfrom := (mem_presentAll hdelivery).1
    exact decide_eq_decide.mpr ⟨fun heq => h.eq_of_index hfrom hmem heq, fun heq => heq ▸ rfl⟩
  have hfilter := List.filter_congr hsame
  simp only [Function.comp_def] at hfilter ⊢
  rw [hfilter]
  refine List.map_congr_left fun delivery hdelivery => ?_
  have heq := of_decide_eq_true (List.mem_filter.mp hdelivery).2
  rw [heq]

/-- Exactly which calls a handler gets in a run: one for each kext shown that it
takes if it is reloadable, one for the first of them otherwise. -/
theorem callsOf_eq (h : Ready l) (hmem : handler ∈ l.khandlers) (actions : List Action) :
    callsOf handler (run host l actions) =
      (if handler.reloadable then
          ((phase l).shownAll host.modern actions).filter (accepts host handler)
        else (((phase l).shownAll host.modern actions).filter (accepts host handler)).take 1).map
        fun item => callback handler item.1 := by
  have hnodup : l.khandlers.Nodup := List.Nodup.of_map _ h.indices
  rw [callsOf_run h hmem, offer, handed_presentAll h.exclusive hnodup hmem]

/-- In every run a handler that is not reloadable still waits and was not called,
or it was called once and waits no longer. -/
theorem called_once (h : Ready l) (hmem : handler ∈ l.khandlers)
    (honce : handler.reloadable = false) (actions : List Action) :
    (handler ∈ (run host l actions).khandlers ∧ callsOf handler (run host l actions) = []) ∨
      (handler ∉ (run host l actions).khandlers ∧
        ∃ kmod, callsOf handler (run host l actions) = [callback handler kmod]) := by
  have hnodup : l.khandlers.Nodup := List.Nodup.of_map _ h.indices
  have hcount : (offer host l ((phase l).shownAll host.modern actions)).1.count handler +
      ((offer host l ((phase l).shownAll host.modern actions)).2.map Prod.fst).count handler =
        l.khandlers.count handler := presentAll_count honce
  rw [List.count_eq_one_of_mem hnodup hmem, ← length_handed] at hcount
  rw [callsOf_run h hmem, (run_answers h.listening actions).khandlers, ← List.count_pos_iff]
  generalize handed handler (offer host l ((phase l).shownAll host.modern actions)).2 = items
    at hcount ⊢
  match items with
  | [] =>
      left
      simp only [List.length_nil] at hcount
      exact ⟨by omega, rfl⟩
  | [item] =>
      right
      simp only [List.length_singleton] at hcount
      exact ⟨by omega, item.1, rfl⟩
  | _ :: _ :: _ =>
      simp only [List.length_cons] at hcount
      omega

/-- One handler that waits for a kext called `a`. -/
def solo (waiting : Bool) : Listener where
  code := .noError
  kinfos := ["kernel", "a"]
  that := true
  khandlers := [⟨"a", 1, true, false⟩]
  waitingForAlreadyLoadedKexts := waiting
  activated := false
  isKextUnloading := false
  kmods := []
  panicList := []
  callbacks := []
  notices := []

theorem solo_ready (waiting : Bool) : Ready (solo waiting) :=
  ⟨⟨rfl, rfl⟩, rfl, List.nodup_singleton 1, List.pairwise_singleton _ _⟩

def soloHandler : KextHandler := ⟨"a", 1, true, false⟩

def soloHost (major : Nat) : Host := ⟨major, fun _ _ => true⟩

/-- The kext is loaded before the pass and once more at the end. -/
def soloActions : List Action :=
  [.load ⟨"a", 4096, 16⟩, .catchUp, .load ⟨"b", 8192, 16⟩, .enable, .load ⟨"a", 12288, 16⟩]

/-- The handler has been called, and the second load finds it gone. -/
theorem called_once_solo :
    soloHandler ∉ (run (soloHost 22) (solo true) soloActions).khandlers ∧
      ∃ kmod, callsOf soloHandler (run (soloHost 22) (solo true) soloActions) =
        [callback soloHandler kmod] :=
  (called_once (solo_ready true) List.mem_cons_self rfl soloActions).resolve_left
    (by decide +kernel)

/-- The binary of a kext that a handler waits for. -/
def reports (host : Host) (handler : KextHandler) (kmod : Kmod) : Bool :=
  sameName handler.id kmod.name && host.isCurrentBinary handler.index kmod.address

/-- A handler that wants loaded kexts as well takes a kext whenever it is shown. -/
theorem accepts_loaded (hloaded : handler.loaded = true) (kmod : Kmod) (pass : Bool) :
    accepts host handler (kmod, pass) = reports host handler kmod := by
  simp [accepts, reports, hloaded]

/-- Of the kexts that a handler could be called for, all if it is reloadable and
the first otherwise. -/
def granted (handler : KextHandler) (kmods : List Kmod) : List Kmod :=
  if handler.reloadable then kmods else kmods.take 1

theorem granted_eq_nil_iff {kmods : List Kmod} : granted handler kmods = [] ↔ kmods = [] := by
  rw [granted]
  split
  · exact Iff.rfl
  · simp [List.take_eq_nil_iff]

/-- The calls of a handler that wants loaded kexts as well: how it was shown a
kext does not matter. -/
theorem callsOf_loaded (h : Ready l) (hmem : handler ∈ l.khandlers)
    (hloaded : handler.loaded = true) (actions : List Action) :
    callsOf handler (run host l actions) =
      (granted handler ((((phase l).shownAll host.modern actions).map Prod.fst).filter
        (reports host handler))).map (callback handler) := by
  have haccepts : accepts host handler = reports host handler ∘ Prod.fst :=
    funext fun item => accepts_loaded hloaded item.1 item.2
  rw [callsOf_eq h hmem, haccepts, granted, List.filter_map]
  split
  · rw [List.map_map]
    rfl
  · rw [← List.map_take, List.map_map]
    rfl

end Calls

section Activation

/-- Actions of the kernel, as opposed to those of `activate`. -/
def Action.ofKernel : Action → Bool
  | .load _ | .unload _ => true
  | .catchUp | .enable => false

def Action.loaded : Action → Option Kmod
  | .load kmod => some kmod
  | _ => none

/-- The kexts loaded by some actions, in order. -/
def loadsOf (actions : List Action) : List Kmod := actions.filterMap Action.loaded

/-- The kernel's list after some actions. -/
def kmodsAfter (kmods : List Kmod) (actions : List Action) : List Kmod :=
  actions.foldl (fun kmods action => (Phase.step false ⟨kmods, false, false⟩ action).kmods) kmods

theorem kmodsAfter_append (kmods : List Kmod) (actions more : List Action) :
    kmodsAfter kmods (actions ++ more) = kmodsAfter (kmodsAfter kmods actions) more :=
  List.foldl_append

namespace Phase

variable (modern : Bool)

theorem shownAll_append (p : Phase) (actions more : List Action) :
    shownAll modern p (actions ++ more) =
      shownAll modern p actions ++ shownAll modern (actions.foldl (step modern) p) more := by
  induction actions generalizing p with
  | nil => rfl
  | cons action rest ih =>
      simp only [List.cons_append, shownAll, List.foldl_cons, ih, List.append_assoc]

/-- Before `activated` the kernel's actions show nothing. -/
theorem shownAll_inactive {actions : List Action} (hkernel : ∀ a ∈ actions, a.ofKernel = true)
    (kmods : List Kmod) (waiting : Bool) :
    shownAll modern ⟨kmods, waiting, false⟩ actions = [] ∧
      actions.foldl (step modern) ⟨kmods, waiting, false⟩ =
        ⟨kmodsAfter kmods actions, waiting, false⟩ := by
  induction actions generalizing kmods with
  | nil => exact ⟨rfl, rfl⟩
  | cons action rest ih =>
      obtain ⟨hfirst, hrest⟩ := List.forall_mem_cons.mp hkernel
      cases action with
      | load kmod =>
          obtain ⟨hshown, hphase⟩ := ih hrest (kmod :: kmods)
          have hstep : step modern ⟨kmods, waiting, false⟩ (.load kmod) =
              ⟨kmod :: kmods, waiting, false⟩ := by simp [step]
          constructor
          · rw [shownAll, hstep, hshown]
            rfl
          · rw [List.foldl_cons, hstep, hphase]
            rfl
      | unload address => exact ih hrest (kmods.filter (·.address ≠ address))
      | catchUp => cases hfirst
      | enable => cases hfirst

/-- Unloads show nothing, whatever the flags say. -/
theorem shownAll_unloads {actions : List Action}
    (hquiet : ∀ a ∈ actions, a.ofKernel = true ∧ a.loaded = none) (kmods : List Kmod)
    (waiting activated : Bool) :
    shownAll modern ⟨kmods, waiting, activated⟩ actions = [] ∧
      actions.foldl (step modern) ⟨kmods, waiting, activated⟩ =
        ⟨kmodsAfter kmods actions, waiting, activated⟩ := by
  induction actions generalizing kmods with
  | nil => exact ⟨rfl, rfl⟩
  | cons action rest ih =>
      obtain ⟨hfirst, hrest⟩ := List.forall_mem_cons.mp hquiet
      cases action with
      | load kmod => cases hfirst.2
      | unload address => exact ih hrest (kmods.filter (·.address ≠ address))
      | catchUp => cases hfirst.1
      | enable => cases hfirst.1

/-- Once active and past the pass, the kernel's actions show each kext that is
loaded. -/
theorem shownAll_active {actions : List Action} (hkernel : ∀ a ∈ actions, a.ofKernel = true)
    (kmods : List Kmod) :
    shownAll modern ⟨kmods, false, true⟩ actions = (loadsOf actions).map (·, false) := by
  induction actions generalizing kmods with
  | nil => rfl
  | cons action rest ih =>
      obtain ⟨hfirst, hrest⟩ := List.forall_mem_cons.mp hkernel
      cases action with
      | load kmod =>
          have hstep : step modern ⟨kmods, false, true⟩ (.load kmod) =
              ⟨kmod :: kmods, false, true⟩ := rfl
          rw [shownAll, hstep, ih hrest (kmod :: kmods)]
          rfl
      | unload address => exact ih hrest (kmods.filter (·.address ≠ address))
      | catchUp => cases hfirst
      | enable => cases hfirst

/-- A whole activation from Big Sur on: the pass shows what is loaded then, and
what is loaded before the flag is set is shown by neither half. -/
theorem shownAll_modern {early gap late : List Action}
    (hearly : ∀ a ∈ early, a.ofKernel = true) (hgap : ∀ a ∈ gap, a.ofKernel = true)
    (hlate : ∀ a ∈ late, a.ofKernel = true) (kmods : List Kmod) :
    shownAll true ⟨kmods, true, false⟩ (early ++ .catchUp :: (gap ++ .enable :: late)) =
      (kmodsAfter kmods early).map (·, true) ++ (loadsOf late).map (·, false) := by
  obtain ⟨hshown, hphase⟩ := shownAll_inactive true hearly kmods true
  obtain ⟨hshown', hphase'⟩ := shownAll_inactive true hgap (kmodsAfter kmods early) false
  have hactive := shownAll_active true hlate (kmodsAfter (kmodsAfter kmods early) gap)
  have hstep : step true ⟨kmodsAfter kmods early, true, false⟩ .catchUp =
      ⟨kmodsAfter kmods early, false, false⟩ := rfl
  rw [shownAll_append, hshown, hphase, List.nil_append, shownAll, hstep, shownAll_append, hshown',
    hphase', List.nil_append, shownAll]
  exact congrArg _ hactive

/-- A whole activation before Big Sur: the first kext that is loaded afterwards
shows everything that is loaded then. -/
theorem shownAll_legacy {early gap quiet late : List Action}
    (hearly : ∀ a ∈ early, a.ofKernel = true) (hgap : ∀ a ∈ gap, a.ofKernel = true)
    (hquiet : ∀ a ∈ quiet, a.ofKernel = true ∧ a.loaded = none)
    (hlate : ∀ a ∈ late, a.ofKernel = true) (kmods : List Kmod) (first : Kmod) :
    shownAll false ⟨kmods, true, false⟩
        (early ++ .catchUp :: (gap ++ .enable :: (quiet ++ .load first :: late))) =
      (first :: kmodsAfter kmods (early ++ gap ++ quiet)).map (·, true) ++
        (loadsOf late).map (·, false) := by
  obtain ⟨hshown, hphase⟩ := shownAll_inactive false hearly kmods true
  obtain ⟨hshown', hphase'⟩ := shownAll_inactive false hgap (kmodsAfter kmods early) true
  obtain ⟨hshown'', hphase''⟩ := shownAll_unloads false hquiet
    (kmodsAfter (kmodsAfter kmods early) gap) true true
  have hactive := shownAll_active false hlate
    (first :: kmodsAfter (kmodsAfter (kmodsAfter kmods early) gap) quiet)
  have hstep : step false ⟨kmodsAfter kmods early, true, false⟩ .catchUp =
      ⟨kmodsAfter kmods early, true, false⟩ := rfl
  have hstep' : step false ⟨kmodsAfter (kmodsAfter kmods early) gap, true, false⟩ .enable =
      ⟨kmodsAfter (kmodsAfter kmods early) gap, true, true⟩ := rfl
  rw [kmodsAfter_append, kmodsAfter_append, shownAll_append, hshown, hphase, List.nil_append,
    shownAll, hstep, shownAll_append, hshown', hphase', List.nil_append, shownAll, hstep',
    shownAll_append, hshown'', hphase'', List.nil_append, shownAll]
  exact congrArg ((first :: kmodsAfter (kmodsAfter (kmodsAfter kmods early) gap) quiet).map
    (·, true) ++ ·) hactive

end Phase

variable {host : Host} {l : Listener} {handler : KextHandler}

/-- The handlers wait, some of them for loaded kexts as well, and nothing is
active yet. -/
structure Pending (l : Listener) : Prop where
  ready : Ready l
  waiting : l.waitingForAlreadyLoadedKexts = true
  inactive : l.activated = false

theorem Pending.phase_eq (h : Pending l) : phase l = ⟨l.kmods, true, false⟩ := by
  rw [phase, h.waiting, h.inactive]

/-- What is shown in a pass and what is shown after it. -/
theorem map_fst_shown (pass new : List Kmod) :
    (pass.map (·, true) ++ new.map (·, false)).map Prod.fst = pass ++ new := by
  simp [Function.comp_def]

/-- From Big Sur on a handler is called for the kexts that are loaded when the
pass begins and for those loaded after the flag is set, in this order and for no
other. -/
theorem calls_modern (h : Pending l) (hmodern : bigSur ≤ host.major)
    {early gap late : List Action} (hearly : ∀ a ∈ early, a.ofKernel = true)
    (hgap : ∀ a ∈ gap, a.ofKernel = true) (hlate : ∀ a ∈ late, a.ofKernel = true)
    (hmem : handler ∈ l.khandlers) (hloaded : handler.loaded = true) :
    callsOf handler (run host l (early ++ .catchUp :: (gap ++ .enable :: late))) =
      (granted handler ((kmodsAfter l.kmods early ++ loadsOf late).filter
        (reports host handler))).map (callback handler) := by
  have hversion : host.modern = true := decide_eq_true hmodern
  rw [callsOf_loaded h.ready hmem hloaded, h.phase_eq, hversion,
    Phase.shownAll_modern hearly hgap hlate, map_fst_shown]

theorem solo_pending : Pending (solo true) := ⟨solo_ready true, rfl, rfl⟩

/-- A handler that stays. -/
def staying : KextHandler := ⟨"a", 1, true, true⟩

def stayingListener : Listener := { solo true with khandlers := [staying] }

theorem staying_pending : Pending stayingListener :=
  ⟨⟨⟨rfl, rfl⟩, rfl, List.nodup_singleton 1, List.pairwise_singleton _ _⟩, rfl, rfl⟩

/-- The kext is loaded three times; the load between the halves of `activate` is
not reported. -/
theorem calls_modern_staying :
    callsOf staying (run (soloHost 22) stayingListener
        ([.load ⟨"a", 4096, 16⟩] ++ .catchUp :: ([.load ⟨"a", 8192, 16⟩] ++
          .enable :: [.load ⟨"b", 12288, 16⟩, .load ⟨"a", 16384, 16⟩]))) =
      [⟨1, 4096, 16, true⟩, ⟨1, 16384, 16, true⟩] :=
  (calls_modern staying_pending (by decide) (by decide) (by decide) (by decide)
    List.mem_cons_self rfl).trans (by decide +kernel)

/-- Before Big Sur a handler is called for every kext that is loaded when the
next one is, so that none is missed between the halves of `activate`. -/
theorem called_legacy_iff (h : Pending l) (hlegacy : host.major < bigSur)
    {early gap quiet late : List Action} (hearly : ∀ a ∈ early, a.ofKernel = true)
    (hgap : ∀ a ∈ gap, a.ofKernel = true)
    (hquiet : ∀ a ∈ quiet, a.ofKernel = true ∧ a.loaded = none)
    (hlate : ∀ a ∈ late, a.ofKernel = true) (first : Kmod) (hmem : handler ∈ l.khandlers)
    (hloaded : handler.loaded = true) :
    callsOf handler (run host l
        (early ++ .catchUp :: (gap ++ .enable :: (quiet ++ .load first :: late)))) ≠ [] ↔
      ∃ kmod, (kmod ∈ first :: kmodsAfter l.kmods (early ++ gap ++ quiet) ∨ kmod ∈ loadsOf late) ∧
        reports host handler kmod = true := by
  have hversion : host.modern = false := decide_eq_false (Nat.not_le.mpr hlegacy)
  rw [callsOf_loaded h.ready hmem hloaded, h.phase_eq, hversion,
    Phase.shownAll_legacy hearly hgap hquiet hlate, map_fst_shown, ne_eq, List.map_eq_nil_iff,
    granted_eq_nil_iff, List.filter_eq_nil_iff]
  simp only [List.mem_append, not_forall, not_not, exists_prop]

theorem called_legacy_iff_solo :
    callsOf soloHandler (run (soloHost 19) (solo true)
        ([] ++ .catchUp :: ([.load ⟨"a", 4096, 16⟩] ++
          .enable :: ([] ++ .load ⟨"b", 8192, 16⟩ :: [])))) ≠ [] ↔
      ∃ kmod, (kmod ∈ ⟨"b", 8192, 16⟩ :: kmodsAfter [] ([] ++ [.load ⟨"a", 4096, 16⟩] ++ []) ∨
          kmod ∈ loadsOf []) ∧
        reports (soloHost 19) soloHandler kmod = true :=
  called_legacy_iff solo_pending (by decide) (by decide) (by decide) (by decide) (by decide)
    ⟨"b", 8192, 16⟩ List.mem_cons_self rfl

end Activation

end KextListening

end Kryptonite
