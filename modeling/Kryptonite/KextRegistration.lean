/-
How the kexts that the plugins ask for become handlers (`kern_api.cpp`,
`kern_patcher.cpp`), and what that means for Kryptonite: the load indices that
`PatchSet::processKext` compares are its own, and each entry of `kextList` is
processed at most once.
-/
import Kryptonite.KextListening

namespace Kryptonite

namespace KextListening

open Script

/-- `KernelPatcher::KextInfo` with its flags and its load index. -/
structure WatchedKext extends KextInfo where
  loaded : Bool
  reloadable : Bool
  disabled : Bool
  fsOnly : Bool
  fsFallback : Bool
  loadIndex : Nat
deriving Repr

/-- Why a `MachInfo` is not stored. -/
inductive MachFailure where
  | memoryIssue
  | noKinfoFound
  | unsupported
deriving Repr, DecidableEq

def MachFailure.code : MachFailure → Error
  | .memoryIssue => .memoryIssue
  | .noKinfoFound => .noKinfoFound
  | .unsupported => .unsupported

/-- How far the routes of `setupKextListening` get.  `routeMultiple` clears the
error that it reports. -/
inductive Setup where
  | listening
  | notRouted
  | failed (error : Error)
deriving Repr, DecidableEq

/-- What the machine answers while the kexts are queued: the files of a kext,
the two routes, and memory for a handler and for its place in the list. -/
structure Supply where
  machInfo : WatchedKext → Option MachFailure
  setup : Setup
  creates : WatchedKext → Bool
  stores : KextHandler → Bool

section Source

variable (supply : Supply)

/-- The overload with an array of paths; `none` is `INVALID`. -/
def loadKinfoFrom (l : Listener) (info : WatchedKext) : Listener × Option Nat :=
  match l.kinfos.findIdx? (· == info.id) with
  | some index => ({ l with code := .alreadyDone }, some index)
  | none =>
      match supply.machInfo info with
      | some failure => ({ l with code := failure.code }, none)
      | none => ({ l with kinfos := l.kinfos ++ [info.id] }, some l.kinfos.length)

/-- The overload with a `KextInfo`: an error left over from before keeps the
index from being stored. -/
def loadKinfo (l : Listener) (info : WatchedKext) : Listener × WatchedKext :=
  if info.loadIndex ≠ 0 then
    (l, info)
  else
    let result := loadKinfoFrom supply l info
    if result.1.code = .noError ∨ result.1.code = .alreadyDone then
      (result.1, { info with loadIndex := result.2.getD 0 })
    else
      (result.1, info)

def setupKextListening (l : Listener) : Listener :=
  if l.that then
    l
  else
    match supply.setup with
    | .listening => if l.code = .noError then { l with that := true } else l
    | .notRouted => { l with notices := l.notices ++ [.notRouted] }
    | .failed error => { l with code := error }

def waitOnKext (l : Listener) (handler : KextHandler) : Listener :=
  if ¬ l.that then
    { l with code := .kextListeningFailure, notices := l.notices ++ [.notListening] }
  else
    let l := { l with
      waitingForAlreadyLoadedKexts := handler.loaded || l.waitingForAlreadyLoadedKexts }
    if supply.stores handler then
      { l with khandlers := l.khandlers ++ [handler] }
    else
      { l with code := .memoryIssue }

/-- The first handler with the name gets the flags. -/
def mergeFlags (info : WatchedKext) : List KextHandler → List KextHandler
  | [] => []
  | handler :: rest =>
      if handler.id = info.id then
        { handler with
          loaded := handler.loaded || info.loaded
          reloadable := handler.reloadable || info.reloadable } :: rest
      else
        handler :: mergeFlags info rest

def updateKextHandlerFeatures (l : Listener) (info : WatchedKext) : Listener :=
  { l with khandlers := mergeFlags info l.khandlers }

def handlerOf (info : WatchedKext) : KextHandler :=
  ⟨info.id, info.loadIndex, info.loaded, info.reloadable⟩

/-- An error is logged and cleared, and ends the loop (`false`). -/
def settle (l : Listener) (notice : Notice) : Listener × Bool :=
  if l.code ≠ .noError then
    ({ l with code := .noError, notices := l.notices ++ [notice] }, false)
  else
    (l, true)

/-- The end of one round of `processPatcherLoadCallbacks`, for a kext whose
`kinfo` is new. -/
def enqueue (l : Listener) (info : WatchedKext) : Listener × Bool :=
  let hooked := settle (setupKextListening supply l) .noHooking
  if ¬ hooked.2 then
    hooked
  else if ¬ supply.creates info then
    ({ hooked.1 with notices := hooked.1.notices ++ [.noHandler info.id] }, false)
  else
    settle (waitOnKext supply hooked.1 (handlerOf info)) (.noWaiting info.id)

/-- One round of `processPatcherLoadCallbacks`. -/
def registerOne (l : Listener) (info : WatchedKext) : Listener × WatchedKext × Bool :=
  if info.disabled then
    (l, info, true)
  else if info.fsOnly ∧ info.pathNum = 0 then
    ({ l with notices := l.notices ++ [.improperRequest info.id] }, info, true)
  else
    let result := loadKinfo supply l info
    if result.1.code = .noError then
      let queued := enqueue supply result.1 result.2
      (queued.1, result.2, queued.2)
    else
      let l := { result.1 with code := .noError }
      if result.1.code = .alreadyDone ∧ (result.2.loaded ∨ result.2.reloadable) then
        (updateKextHandlerFeatures l result.2, result.2, true)
      else
        (l, result.2, true)

/-- The loop over the plugins' arrays, which are places of their records.  The
records stay where they are: one that was stored twice is met again with what its
first round has written to it. -/
def registerStored {n : Nat} (l : Listener) (records : Fin n → WatchedKext) :
    List (Fin n) → Listener × (Fin n → WatchedKext)
  | [] => (l, records)
  | place :: rest =>
      let done := registerOne supply l (records place)
      let written := Function.update records place done.2.1
      if done.2.2 then registerStored done.1 written rest else (done.1, written)

/-- The loop over records none of which was stored twice. -/
def register (l : Listener) : List WatchedKext → Listener × List WatchedKext
  | [] => (l, [])
  | info :: rest =>
      let done := registerOne supply l info
      if done.2.2 then
        let later := register done.1 rest
        (later.1, done.2.1 :: later.2)
      else
        (done.1, done.2.1 :: rest)

end Source

section Places

variable {supply : Supply}

/-- Records that are stored once do not see each other. -/
theorem registerStored_eq {n : Nat} {places : List (Fin n)} (hnodup : places.Nodup) (l : Listener)
    (records : Fin n → WatchedKext) :
    (registerStored supply l records places).1 =
        (register supply l (places.map records)).1 ∧
      places.map (registerStored supply l records places).2 =
        (register supply l (places.map records)).2 ∧
      ∀ place ∉ places, (registerStored supply l records places).2 place = records place := by
  induction places generalizing l records with
  | nil => exact ⟨rfl, rfl, fun _ _ => rfl⟩
  | cons place rest ih =>
      obtain ⟨hplace, hrest⟩ := List.nodup_cons.mp hnodup
      have hsame : ∀ written, rest.map (Function.update records place written) =
          rest.map records := by
        intro written
        refine List.map_congr_left fun other hother => Function.update_of_ne ?_ _ _
        rintro rfl
        exact hplace hother
      have helsewhere : ∀ written, ∀ other ∉ place :: rest,
          Function.update records place written other = records other := by
        intro written other hother
        refine Function.update_of_ne ?_ _ _
        rintro rfl
        exact hother List.mem_cons_self
      rw [registerStored, List.map_cons, register]
      split
      · obtain ⟨hlistener, hinfos, hkept⟩ := ih hrest
          (registerOne supply l (records place)).1
          (Function.update records place (registerOne supply l (records place)).2.1)
        rw [hsame] at hlistener hinfos
        refine ⟨hlistener, ?_, fun other hother => ?_⟩
        · rw [List.map_cons, hinfos, hkept place hplace, Function.update_self]
        · rw [hkept other fun hmem => hother (List.mem_cons_of_mem _ hmem)]
          exact helsewhere _ other hother
      · refine ⟨rfl, ?_, helsewhere _⟩
        simp only [List.map_cons, Function.update_self, hsame]

/-- A record that has its index gets another handler: nothing tells that there is
one. -/
theorem registerOne_again {l : Listener} {info : WatchedKext} (hcode : l.code = .noError)
    (hindex : info.loadIndex ≠ 0) (henabled : info.disabled = false)
    (hpaths : ¬ (info.fsOnly = true ∧ info.pathNum = 0)) :
    registerOne supply l info =
      ((enqueue supply l info).1, info, (enqueue supply l info).2) := by
  have hloaded : loadKinfo supply l info = (l, info) := if_pos hindex
  rw [registerOne, if_neg (by simp [henabled]), if_neg hpaths, hloaded, if_pos hcode]

end Places

/-- What the loop keeps: every handler stands for one `kinfo`, and the kernel,
which is the first of them, is nobody's. -/
structure Consistent (l : Listener) : Prop where
  distinct : l.kinfos.Nodup
  kernel : l.kinfos ≠ []
  listed : ∀ handler ∈ l.khandlers, handler.index ≠ 0 ∧ l.kinfos[handler.index]? = some handler.id
  indices : (l.khandlers.map KextHandler.index).Nodup
  that : l.khandlers ≠ [] → l.that = true

/-- What a round leaves alone: the kernel's list and the flags of activation. -/
structure Quiet (l l' : Listener) : Prop where
  callbacks : l'.callbacks = l.callbacks
  activated : l'.activated = l.activated
  unloading : l'.isKextUnloading = l.isKextUnloading
  kmods : l'.kmods = l.kmods

/-- The index of a kext is that of its name among the `kinfo`s. -/
def Indexed (l : Listener) (info : WatchedKext) : Prop :=
  info.loadIndex ≠ 0 → l.kinfos[info.loadIndex]? = some info.id

theorem Quiet.refl (l : Listener) : Quiet l l := ⟨rfl, rfl, rfl, rfl⟩

theorem Quiet.trans {l l' l'' : Listener} (h : Quiet l l') (h' : Quiet l' l'') : Quiet l l'' :=
  ⟨h'.callbacks.trans h.callbacks, h'.activated.trans h.activated,
    h'.unloading.trans h.unloading, h'.kmods.trans h.kmods⟩

theorem Indexed.mono {l l' : Listener} {info : WatchedKext} (h : Indexed l info)
    (hgrown : l.kinfos <+: l'.kinfos) : Indexed l' info := by
  intro hindex
  obtain ⟨more, hmore⟩ := hgrown
  have hfound := h hindex
  have hlt : info.loadIndex < l.kinfos.length := (List.getElem?_eq_some_iff.mp hfound).1
  rw [← hmore, List.getElem?_append_left hlt, hfound]

/-- The invariant only reads the `kinfo`s, the handlers and `that`. -/
theorem Consistent.congr {l l' : Listener} (h : Consistent l) (hkinfos : l'.kinfos = l.kinfos)
    (hhandlers : l'.khandlers = l.khandlers) (hthat : l.that = true → l'.that = true) :
    Consistent l' := by
  refine ⟨hkinfos ▸ h.distinct, hkinfos ▸ h.kernel, ?_, hhandlers ▸ h.indices, ?_⟩
  · rw [hhandlers, hkinfos]
    exact h.listed
  · rw [hhandlers]
    exact fun hsome => hthat (h.that hsome)

section Rounds

variable {supply : Supply} {l : Listener} {info : WatchedKext}

theorem loadKinfoFrom_known {index : Nat} (h : l.kinfos.findIdx? (· == info.id) = some index) :
    loadKinfoFrom supply l info = ({ l with code := .alreadyDone }, some index) := by
  rw [loadKinfoFrom, h]

theorem loadKinfoFrom_failed {failure : MachFailure}
    (h : l.kinfos.findIdx? (· == info.id) = none) (hfail : supply.machInfo info = some failure) :
    loadKinfoFrom supply l info = ({ l with code := failure.code }, none) := by
  rw [loadKinfoFrom, h]
  simp only [hfail]

theorem loadKinfoFrom_new (h : l.kinfos.findIdx? (· == info.id) = none)
    (hnew : supply.machInfo info = none) :
    loadKinfoFrom supply l info =
      ({ l with kinfos := l.kinfos ++ [info.id] }, some l.kinfos.length) := by
  rw [loadKinfoFrom, h]
  simp only [hnew]

/-- What `loadKinfo` makes of a kext that has no index yet. -/
inductive Loaded (supply : Supply) (l : Listener) (info : WatchedKext) :
    Listener × WatchedKext → Prop where
  | known {index : Nat} (h : l.kinfos[index]? = some info.id) :
      Loaded supply l info ({ l with code := .alreadyDone }, { info with loadIndex := index })
  | failed {failure : MachFailure} (hnew : info.id ∉ l.kinfos) :
      Loaded supply l info ({ l with code := failure.code }, info)
  | new (hnew : info.id ∉ l.kinfos) (hmach : supply.machInfo info = none) :
      Loaded supply l info ({ l with kinfos := l.kinfos ++ [info.id] },
        { info with loadIndex := l.kinfos.length })

variable (supply) in
theorem loadKinfo_loaded (hcode : l.code = .noError) (hfresh : info.loadIndex = 0) :
    Loaded supply l info (loadKinfo supply l info) := by
  have hindex : ¬ info.loadIndex ≠ 0 := fun hne => hne hfresh
  rw [loadKinfo, if_neg hindex]
  cases hfound : l.kinfos.findIdx? (· == info.id) with
  | some index =>
      rw [loadKinfoFrom_known hfound]
      obtain ⟨hlt, heq, -⟩ := List.findIdx?_eq_some_iff_getElem.mp hfound
      exact .known (List.getElem?_eq_some_iff.mpr ⟨hlt, by simpa using heq⟩)
  | none =>
      have hnew : info.id ∉ l.kinfos := by
        intro hmem
        have := List.findIdx?_eq_none_iff.mp hfound _ hmem
        simp at this
      cases hmach : supply.machInfo info with
      | some failure =>
          rw [loadKinfoFrom_failed hfound hmach]
          cases failure <;> exact .failed hnew
      | none =>
          rw [loadKinfoFrom_new hfound hmach]
          simp only [hcode, true_or, if_true, Option.getD_some]
          rw [← hcode]
          exact .new hnew hmach

/-- What `enqueue` does to the listener: at most one handler is added, and only
while the kext functions are routed. -/
structure Enqueued (l : Listener) (info : WatchedKext) (l' : Listener) : Prop where
  kinfos : l'.kinfos = l.kinfos
  quiet : Quiet l l'
  that : l.that = true → l'.that = true
  khandlers : l'.khandlers = l.khandlers ∨
    l'.khandlers = l.khandlers ++ [handlerOf info] ∧ l'.that = true
  unasked : info.loaded = false →
    l'.waitingForAlreadyLoadedKexts = l.waitingForAlreadyLoadedKexts

theorem settle_code (l : Listener) (notice : Notice) : (settle l notice).1.code = .noError := by
  rw [settle]
  split
  · rfl
  · next hcode => exact not_not.mp hcode

theorem settle_enqueued {l' : Listener} (h : Enqueued l info l') (notice : Notice) :
    Enqueued l info (settle l' notice).1 := by
  rw [settle]
  split
  · exact ⟨h.kinfos, h.quiet.trans ⟨rfl, rfl, rfl, rfl⟩, h.that, h.khandlers, h.unasked⟩
  · exact h

variable (supply) in
theorem setupKextListening_enqueued (l : Listener) (info : WatchedKext) :
    Enqueued l info (setupKextListening supply l) := by
  rw [setupKextListening]
  split
  · exact ⟨rfl, .refl l, id, .inl rfl, fun _ => rfl⟩
  · split
    · split
      · exact ⟨rfl, ⟨rfl, rfl, rfl, rfl⟩, fun _ => rfl, .inl rfl, fun _ => rfl⟩
      · exact ⟨rfl, .refl l, id, .inl rfl, fun _ => rfl⟩
    · exact ⟨rfl, ⟨rfl, rfl, rfl, rfl⟩, id, .inl rfl, fun _ => rfl⟩
    · exact ⟨rfl, ⟨rfl, rfl, rfl, rfl⟩, id, .inl rfl, fun _ => rfl⟩

variable (supply) in
theorem waitOnKext_enqueued (l : Listener) (info : WatchedKext) :
    Enqueued l info (waitOnKext supply l (handlerOf info)) := by
  by_cases hthat : l.that = true
  · have hguard : ¬ ¬ l.that = true := fun h => h hthat
    have hflag : info.loaded = false → ((handlerOf info).loaded ||
        l.waitingForAlreadyLoadedKexts) = l.waitingForAlreadyLoadedKexts :=
      fun hplain => by simp [handlerOf, hplain]
    rw [waitOnKext, if_neg hguard]
    by_cases hstores : supply.stores (handlerOf info) = true
    · rw [if_pos hstores]
      exact ⟨rfl, ⟨rfl, rfl, rfl, rfl⟩, id, .inr ⟨rfl, hthat⟩, hflag⟩
    · rw [if_neg hstores]
      exact ⟨rfl, ⟨rfl, rfl, rfl, rfl⟩, id, .inl rfl, hflag⟩
  · rw [waitOnKext, if_pos hthat]
    exact ⟨rfl, ⟨rfl, rfl, rfl, rfl⟩, id, .inl rfl, fun _ => rfl⟩

theorem settle_khandlers (l : Listener) (notice : Notice) :
    (settle l notice).1.khandlers = l.khandlers := by
  rw [settle]
  split <;> rfl

theorem setupKextListening_khandlers (l : Listener) :
    (setupKextListening supply l).khandlers = l.khandlers := by
  rw [setupKextListening]
  split
  · rfl
  · split
    · split <;> rfl
    · rfl
    · rfl

variable (supply) in
theorem enqueue_enqueued (l : Listener) (info : WatchedKext) :
    Enqueued l info (enqueue supply l info).1 := by
  have hhooked := settle_enqueued (setupKextListening_enqueued supply l info) .noHooking
  have hsame := (settle_khandlers (setupKextListening supply l) .noHooking).trans
    (setupKextListening_khandlers l)
  rw [enqueue]
  generalize settle (setupKextListening supply l) .noHooking = hooked at hhooked hsame
  split
  · exact hhooked
  · split
    · exact ⟨hhooked.kinfos, hhooked.quiet.trans ⟨rfl, rfl, rfl, rfl⟩, hhooked.that,
        hhooked.khandlers, hhooked.unasked⟩
    · have hwait := settle_enqueued (waitOnKext_enqueued supply hooked.1 info) (.noWaiting info.id)
      refine ⟨hwait.kinfos.trans hhooked.kinfos, hhooked.quiet.trans hwait.quiet,
        fun h => hwait.that (hhooked.that h), ?_,
        fun hplain => (hwait.unasked hplain).trans (hhooked.unasked hplain)⟩
      rw [← hsame]
      exact hwait.khandlers

theorem enqueue_code (l : Listener) (info : WatchedKext) :
    (enqueue supply l info).1.code = .noError := by
  have hhooked := settle_code (setupKextListening supply l) .noHooking
  rw [enqueue]
  split
  · exact hhooked
  · split
    · exact hhooked
    · exact settle_code _ _

/-- A `kinfo` without a handler. -/
theorem Consistent.known_added (h : Consistent l) {name : String} (hnew : name ∉ l.kinfos) :
    Consistent { l with kinfos := l.kinfos ++ [name], code := .noError } := by
  refine ⟨?_, by simp, ?_, h.indices, h.that⟩
  · exact List.nodup_append.mpr ⟨h.distinct, List.nodup_singleton _,
      fun a ha b hb heq => hnew (List.mem_singleton.mp hb ▸ heq ▸ ha)⟩
  · intro handler hmem
    obtain ⟨hne, hfound⟩ := h.listed handler hmem
    have hlt : handler.index < l.kinfos.length := (List.getElem?_eq_some_iff.mp hfound).1
    exact ⟨hne, (List.getElem?_append_left hlt).trans hfound⟩

/-- A handler for a `kinfo` that has just been added. -/
theorem Consistent.enqueue (h : Consistent l) (hnew : info.id ∉ l.kinfos)
    {l' : Listener} (hqueued : Enqueued { l with kinfos := l.kinfos ++ [info.id] }
      { info with loadIndex := l.kinfos.length } l') : Consistent l' := by
  have hkinfos : l'.kinfos = l.kinfos ++ [info.id] := hqueued.kinfos
  obtain ⟨hdistinct, hkernel, hlisted, -, -⟩ := h.known_added hnew
  rw [← hkinfos] at hdistinct hkernel hlisted
  rcases hqueued.khandlers with hsame | ⟨hadded, hthat⟩
  · refine ⟨hdistinct, hkernel, ?_, ?_, ?_⟩
    · rw [hsame]
      exact hlisted
    · rw [hsame]
      exact h.indices
    · rw [hsame]
      exact fun hsome => hqueued.that (h.that hsome)
  · refine ⟨hdistinct, hkernel, ?_, ?_, fun _ => hthat⟩
    · rw [hadded, List.forall_mem_append]
      refine ⟨hlisted, List.forall_mem_singleton.mpr ⟨?_, ?_⟩⟩
      · exact Nat.ne_of_gt (List.length_pos_iff.mpr h.kernel)
      · rw [hkinfos]
        exact List.getElem?_concat_length
    · rw [hadded, List.map_append, List.nodup_append]
      refine ⟨h.indices, List.nodup_singleton _, ?_⟩
      intro index hindex other hother heq
      obtain ⟨handler, hmem, rfl⟩ := List.mem_map.mp hindex
      have hlt : handler.index < l.kinfos.length :=
        (List.getElem?_eq_some_iff.mp (h.listed handler hmem).2).1
      have hlast : other = l.kinfos.length := List.mem_singleton.mp hother
      omega

/-- The handlers are still there, with the flags they had. -/
def Retains (l l' : Listener) : Prop :=
  ∀ old ∈ l.khandlers, ∃ new ∈ l'.khandlers, new.id = old.id ∧ new.index = old.index ∧
    (old.loaded = true → new.loaded = true)

theorem Retains.of_subset {l' : Listener} (h : ∀ old ∈ l.khandlers, old ∈ l'.khandlers) :
    Retains l l' :=
  fun old hold => ⟨old, h old hold, rfl, rfl, id⟩

theorem Retains.trans {l' l'' : Listener} (h : Retains l l') (h' : Retains l' l'') :
    Retains l l'' := by
  intro old hold
  obtain ⟨mid, hmid, hid, hindex, hflag⟩ := h old hold
  obtain ⟨new, hnew, hid', hindex', hflag'⟩ := h' mid hmid
  exact ⟨new, hnew, hid'.trans hid, hindex'.trans hindex, fun hloaded => hflag' (hflag hloaded)⟩

theorem merge_retains (l : Listener) (info : WatchedKext) :
    Retains l (updateKextHandlerFeatures l info) := by
  intro old hold
  change ∃ new ∈ mergeFlags info l.khandlers, _
  generalize l.khandlers = handlers at hold ⊢
  induction handlers with
  | nil => cases hold
  | cons first rest ih =>
      rw [mergeFlags]
      rcases List.mem_cons.mp hold with rfl | hold
      · split
        · exact ⟨_, List.mem_cons_self, rfl, rfl, fun hloaded => by simp [hloaded]⟩
        · exact ⟨old, List.mem_cons_self, rfl, rfl, id⟩
      · split
        · exact ⟨old, List.mem_cons_of_mem _ hold, rfl, rfl, id⟩
        · obtain ⟨new, hnew, hsame⟩ := ih hold
          exact ⟨new, List.mem_cons_of_mem _ hnew, hsame⟩

/-- Merging flags changes neither names nor indices. -/
theorem mem_mergeFlags {handler : KextHandler} {handlers : List KextHandler}
    (h : handler ∈ mergeFlags info handlers) :
    ∃ old ∈ handlers, handler.id = old.id ∧ handler.index = old.index := by
  induction handlers with
  | nil => cases h
  | cons first rest ih =>
      rw [mergeFlags] at h
      split at h
      · rcases List.mem_cons.mp h with rfl | h
        · exact ⟨first, List.mem_cons_self, rfl, rfl⟩
        · exact ⟨handler, List.mem_cons_of_mem _ h, rfl, rfl⟩
      · rcases List.mem_cons.mp h with rfl | h
        · exact ⟨handler, List.mem_cons_self, rfl, rfl⟩
        · obtain ⟨old, hold, hsame⟩ := ih h
          exact ⟨old, List.mem_cons_of_mem _ hold, hsame⟩

theorem mergeFlags_indices (info : WatchedKext) (handlers : List KextHandler) :
    (mergeFlags info handlers).map KextHandler.index = handlers.map KextHandler.index := by
  induction handlers with
  | nil => rfl
  | cons first rest ih =>
      rw [mergeFlags]
      split
      · rfl
      · rw [List.map_cons, List.map_cons, ih]

theorem Consistent.merge (h : Consistent l) (info : WatchedKext) :
    Consistent (updateKextHandlerFeatures l info) := by
  refine ⟨h.distinct, h.kernel, ?_, ?_, ?_⟩
  · intro handler hmem
    obtain ⟨old, hold, hid, hindex⟩ := mem_mergeFlags hmem
    rw [hid, hindex]
    exact h.listed old hold
  · change ((mergeFlags info l.khandlers).map KextHandler.index).Nodup
    rw [mergeFlags_indices]
    exact h.indices
  · intro hsome
    refine h.that fun hnone => hsome ?_
    change mergeFlags info l.khandlers = []
    rw [hnone]
    rfl

/-- What one round does. -/
structure Registers (l : Listener) (info : WatchedKext) (l' : Listener) (info' : WatchedKext) :
    Prop where
  consistent : Consistent l'
  code : l'.code = .noError
  quiet : Quiet l l'
  grown : l.kinfos <+: l'.kinfos
  named : ∀ id ∈ l'.kinfos, id ∈ l.kinfos ∨ id = info.id
  indexed : Indexed l' info'
  same : info'.id = info.id
  /-- A name gets its handler in the round that adds its `kinfo`. -/
  origin : ∀ handler ∈ l'.khandlers, (∃ old ∈ l.khandlers, handler.id = old.id) ∨
    handler.id = info.id ∧ info.id ∉ l.kinfos
  unasked : (info.loaded = true → info.id ∈ l.kinfos) →
    l'.waitingForAlreadyLoadedKexts = l.waitingForAlreadyLoadedKexts
  retained : Retains l l'

/-- A round that adds no `kinfo`. -/
theorem Registers.known {l' : Listener} {info' : WatchedKext} (hcons : Consistent l')
    (hcode : l'.code = .noError) (hquiet : Quiet l l') (hkinfos : l'.kinfos = l.kinfos)
    (hindexed : Indexed l' info') (hsame : info'.id = info.id)
    (horigin : ∀ handler ∈ l'.khandlers, ∃ old ∈ l.khandlers, handler.id = old.id)
    (hunasked : l'.waitingForAlreadyLoadedKexts = l.waitingForAlreadyLoadedKexts)
    (hretained : Retains l l') : Registers l info l' info' :=
  ⟨hcons, hcode, hquiet, hkinfos ▸ List.prefix_refl _, fun _ hid => .inl (hkinfos ▸ hid), hindexed,
    hsame, fun handler hmem => .inl (horigin handler hmem), fun _ => hunasked, hretained⟩

theorem Registers.queued (h : Consistent l) (hnew : info.id ∉ l.kinfos) {l' : Listener}
    (hcode : l'.code = .noError)
    (hqueued : Enqueued { l with kinfos := l.kinfos ++ [info.id] }
      { info with loadIndex := l.kinfos.length } l') :
    Registers l info l' { info with loadIndex := l.kinfos.length } := by
  have hkinfos := hqueued.kinfos
  refine ⟨h.enqueue hnew hqueued, hcode, ⟨hqueued.quiet.callbacks, hqueued.quiet.activated,
    hqueued.quiet.unloading, hqueued.quiet.kmods⟩, ?_, ?_, ?_, rfl, ?_, ?_, ?_⟩
  · rw [hkinfos]
    exact List.prefix_append _ _
  · intro id hid
    rw [hkinfos] at hid
    exact (List.mem_append.mp hid).imp_right List.mem_singleton.mp
  · intro _
    rw [hkinfos]
    exact List.getElem?_concat_length
  · intro handler hmem
    rcases hqueued.khandlers with hsame | ⟨hadded, -⟩
    · exact .inl ⟨handler, hsame ▸ hmem, rfl⟩
    · rw [hadded] at hmem
      rcases List.mem_append.mp hmem with hmem | hmem
      · exact .inl ⟨handler, hmem, rfl⟩
      · rw [List.mem_singleton.mp hmem]
        exact .inr ⟨rfl, hnew⟩
  · intro hknown
    exact hqueued.unasked (Bool.eq_false_iff.mpr fun hflag => hnew (hknown hflag))
  · refine .of_subset fun old hold => ?_
    rcases hqueued.khandlers with hsame | ⟨hadded, -⟩
    · exact hsame ▸ hold
    · rw [hadded]
      exact List.mem_append_left _ hold

variable (supply) in
theorem registerOne_registers (h : Consistent l) (hcode : l.code = .noError)
    (hfresh : info.loadIndex = 0) :
    Registers l info (registerOne supply l info).1 (registerOne supply l info).2.1 := by
  have hunindexed : ∀ l' : Listener, Indexed l' info := fun _ hne => absurd hfresh hne
  have hown : ∀ handler ∈ l.khandlers, ∃ old ∈ l.khandlers, handler.id = old.id :=
    fun handler hmem => ⟨handler, hmem, rfl⟩
  have hkept : ∀ old ∈ l.khandlers, old ∈ l.khandlers := fun _ hold => hold
  rw [registerOne]
  split
  · exact .known h hcode (.refl l) rfl (hunindexed l) rfl hown rfl (.of_subset hkept)
  · split
    · exact .known (h.congr rfl rfl id) hcode ⟨rfl, rfl, rfl, rfl⟩ rfl (hunindexed _) rfl hown rfl
        (.of_subset hkept)
    · have hloaded := loadKinfo_loaded supply hcode hfresh
      generalize loadKinfo supply l info = result at hloaded
      cases hloaded with
      | @known index hfound =>
          have hother : ¬ (Error.alreadyDone = .noError) := by decide
          have hcleared : Consistent { l with code := .noError } := h.congr rfl rfl id
          rw [if_neg hother]
          split
          · refine .known (hcleared.merge _) rfl ⟨rfl, rfl, rfl, rfl⟩ rfl (fun _ => hfound) rfl
              ?_ rfl (merge_retains l _)
            intro handler hmem
            obtain ⟨old, hold, hid, -⟩ := mem_mergeFlags hmem
            exact ⟨old, hold, hid⟩
          · exact .known hcleared rfl ⟨rfl, rfl, rfl, rfl⟩ rfl (fun _ => hfound) rfl hown rfl
              (.of_subset hkept)
      | @failed failure hnew =>
          have hother : ¬ (failure.code = .noError) := by cases failure <;> decide
          have hdone : ¬ (failure.code = .alreadyDone ∧ (info.loaded ∨ info.reloadable)) := by
            cases failure <;> simp [MachFailure.code]
          rw [if_neg hother, if_neg hdone]
          exact .known (h.congr rfl rfl id) rfl ⟨rfl, rfl, rfl, rfl⟩ rfl (hunindexed _) rfl hown rfl
            (.of_subset hkept)
      | new hnew hmach =>
          rw [if_pos hcode]
          exact .queued h hnew (enqueue_code _ _) (enqueue_enqueued supply _ _)

/-- What the whole loop does. -/
structure RegistersAll (l : Listener) (infos : List WatchedKext) (l' : Listener)
    (infos' : List WatchedKext) : Prop where
  consistent : Consistent l'
  code : l'.code = .noError
  quiet : Quiet l l'
  grown : l.kinfos <+: l'.kinfos
  named : ∀ id ∈ l'.kinfos, id ∈ l.kinfos ∨ id ∈ infos.map (·.id)
  indexed : ∀ info ∈ infos', Indexed l' info
  same : infos'.map (·.id) = infos.map (·.id)
  retained : Retains l l'

variable (supply) in
theorem register_registersAll {infos : List WatchedKext} (h : Consistent l)
    (hcode : l.code = .noError) (hfresh : ∀ info ∈ infos, info.loadIndex = 0) :
    RegistersAll l infos (register supply l infos).1 (register supply l infos).2 := by
  induction infos generalizing l with
  | nil =>
      exact ⟨h, hcode, .refl l, List.prefix_refl _, fun _ => .inl, by simp [register], rfl,
        .of_subset fun _ hold => hold⟩
  | cons info rest ih =>
      obtain ⟨hfirst, hrest⟩ := List.forall_mem_cons.mp hfresh
      have hround := registerOne_registers supply h hcode hfirst
      rw [register]
      split
      · have hlater := ih hround.consistent hround.code hrest
        refine ⟨hlater.consistent, hlater.code, hround.quiet.trans hlater.quiet,
          hround.grown.trans hlater.grown, ?_, ?_, ?_, hround.retained.trans hlater.retained⟩
        · intro id hid
          rcases hlater.named id hid with hid | hid
          · rcases hround.named id hid with hid | rfl
            · exact .inl hid
            · exact .inr List.mem_cons_self
          · exact .inr (List.mem_cons_of_mem _ hid)
        · exact List.forall_mem_cons.mpr ⟨hround.indexed.mono hlater.grown, hlater.indexed⟩
        · rw [List.map_cons, List.map_cons, hlater.same, hround.same]
      · refine ⟨hround.consistent, hround.code, hround.quiet, hround.grown, ?_, ?_, ?_,
          hround.retained⟩
        · intro id hid
          rcases hround.named id hid with hid | rfl
          · exact .inl hid
          · exact .inr List.mem_cons_self
        · exact List.forall_mem_cons.mpr ⟨hround.indexed, fun other hmem hne =>
            absurd (hrest other hmem) hne⟩
        · rw [List.map_cons, List.map_cons, hround.same]

end Rounds

section Waiting

variable {supply : Supply} {host : Host} {l : Listener}

theorem eq_of_sameName {first second : String} (hfirst : first.utf8ByteSize ≤ kmodMaxName)
    (hsecond : second.utf8ByteSize ≤ kmodMaxName) (h : sameName first second = true) :
    first = second := by
  have hlength : ∀ text : String, text.toUTF8.data.toList.length = text.utf8ByteSize :=
    fun text => rfl
  simp only [sameName, beq_iff_eq] at h
  rw [List.take_of_length_le ((hlength first).trans_le hfirst),
    List.take_of_length_le ((hlength second).trans_le hsecond)] at h
  exact String.toByteArray_inj.mp (ByteArray.ext (Array.ext' h))

/-- Consistent handlers wait for different kexts if the names fit into a
`kmod_info_t`. -/
theorem Consistent.ready (h : Consistent l)
    (hshort : ∀ id ∈ l.kinfos, id.utf8ByteSize ≤ kmodMaxName) (hfresh : l.callbacks = [])
    (hidle : l.isKextUnloading = false) (hsome : l.khandlers ≠ []) : Ready l := by
  refine ⟨⟨h.that hsome, hidle⟩, hfresh, h.indices, ?_⟩
  have hpairs : l.khandlers.Pairwise fun first second => first.index ≠ second.index :=
    List.pairwise_map.mp h.indices
  refine hpairs.imp_of_mem fun {first second} hfirst hsecond hne => ?_
  obtain ⟨-, hid⟩ := h.listed first hfirst
  obtain ⟨-, hid'⟩ := h.listed second hsecond
  rw [Bool.eq_false_iff]
  intro hsame
  have heq := eq_of_sameName (hshort _ (List.mem_of_getElem? hid))
    (hshort _ (List.mem_of_getElem? hid')) hsame
  have hlt : first.index < l.kinfos.length := (List.getElem?_eq_some_iff.mp hid).1
  exact hne ((List.getElem?_inj hlt h.distinct).mp (by rw [hid, hid', heq]))

/-- Every request is met. -/
def plenty : Supply := ⟨fun _ => none, .listening, fun _ => true, fun _ => true⟩

end Waiting

/-- `kextList` as it stands in the source: of the flags only `Loaded` is set. -/
def kryptoniteKexts : List WatchedKext :=
  kextList.map fun info => ⟨info, true, false, false, false, false, 0⟩

/-- A boot up to the queueing of the kexts.  Other plugins may have asked for
kexts before and after Kryptonite; no error is left over, the names fit into a
`kmod_info_t`, and no record is stored twice. -/
structure Registration where
  supply : Supply
  start : Listener
  before : List WatchedKext
  after : List WatchedKext
  consistent : Consistent start
  code : start.code = .noError
  idle : start.isKextUnloading = false
  fresh : start.callbacks = []
  unindexed : ∀ info ∈ before ++ after, info.loadIndex = 0
  short : ∀ id ∈ start.kinfos ++ (before ++ after).map (·.id), id.utf8ByteSize ≤ kmodMaxName

namespace Registration

variable (r : Registration)

def stored : List WatchedKext := r.before ++ kryptoniteKexts ++ r.after

/-- The loop over all records, each of which was stored once. -/
def outcome : Listener × (Fin r.stored.length → WatchedKext) :=
  registerStored r.supply r.start r.stored.get (List.finRange r.stored.length)

/-- The listener once every kext has been queued. -/
def listener : Listener := r.outcome.1

/-- The plugins' arrays afterwards. -/
def infos : List WatchedKext := (List.finRange r.stored.length).map r.outcome.2

theorem outcome_eq : (r.listener, r.infos) = register r.supply r.start r.stored := by
  have hrecords : (List.finRange r.stored.length).map r.stored.get = r.stored :=
    List.map_get_finRange r.stored
  obtain ⟨hlistener, hinfos, -⟩ := @registerStored_eq r.supply r.stored.length _
    (List.nodup_finRange _) r.start r.stored.get
  rw [hrecords] at hlistener hinfos
  exact Prod.ext hlistener hinfos

theorem stored_unindexed : ∀ info ∈ r.stored, info.loadIndex = 0 := by
  intro info hinfo
  rw [stored, List.mem_append, List.mem_append] at hinfo
  rcases hinfo with (hinfo | hinfo) | hinfo
  · exact r.unindexed info (List.mem_append_left _ hinfo)
  · obtain ⟨entry, -, rfl⟩ := List.mem_map.mp hinfo
    rfl
  · exact r.unindexed info (List.mem_append_right _ hinfo)

theorem registersAll : RegistersAll r.start r.stored r.listener r.infos := by
  have hall := register_registersAll r.supply r.consistent r.code r.stored_unindexed
  rw [← r.outcome_eq] at hall
  exact hall

/-- `kextList[entry]` in the plugins' arrays. -/
def slot (entry : KextEntry) : Nat := r.before.length + entry

def loadIndex (entry : KextEntry) : Nat :=
  (r.infos[r.slot entry]?.map (·.loadIndex)).getD 0

theorem stored_slot (entry : KextEntry) :
    (r.stored.map (·.id))[r.slot entry]? = some (kextInfo entry).id := by
  have hkexts : kryptoniteKexts.map (·.id) = kextList.map (·.id) := List.map_map
  have hlength : (r.before.map (·.id)).length = r.before.length := List.length_map _
  have hlt : entry.val < (kextList.map (·.id)).length := entry.isLt
  have hentry : kextList[entry.val]? = some (kextInfo entry) :=
    List.getElem?_eq_getElem entry.isLt
  rw [stored, List.map_append, List.map_append, hkexts, List.append_assoc, slot,
    List.getElem?_append_right (by omega), hlength, Nat.add_sub_cancel_left,
    List.getElem?_append_left hlt, List.getElem?_map, hentry, Option.map_some]

theorem loadIndex_listed {entry : KextEntry} (h : r.loadIndex entry ≠ 0) :
    r.listener.kinfos[r.loadIndex entry]? = some (kextInfo entry).id := by
  have hids : (r.infos.map (·.id))[r.slot entry]? = some (kextInfo entry).id :=
    r.registersAll.same ▸ r.stored_slot entry
  rw [List.getElem?_map, Option.map_eq_some_iff] at hids
  obtain ⟨info, hinfo, hid⟩ := hids
  have hindex : r.loadIndex entry = info.loadIndex := by simp [loadIndex, hinfo]
  rw [hindex] at h ⊢
  rw [← hid]
  exact r.registersAll.indexed info (List.mem_of_getElem? hinfo) h

/-- The table of load indices that the patches go by. -/
def table : LoadTable where
  index := r.loadIndex
  distinct := by
    intro first second heq hne
    apply kextInfo_id_injective
    have hfirst := r.loadIndex_listed hne
    rw [heq] at hfirst hne
    exact Option.some.inj (hfirst.symm.trans (r.loadIndex_listed hne))

theorem kryptonite_short : ∀ info ∈ kryptoniteKexts, info.id.utf8ByteSize ≤ kmodMaxName := by
  decide

theorem ready (hsome : r.listener.khandlers ≠ []) : Ready r.listener := by
  refine r.registersAll.consistent.ready ?_ ?_ ?_ hsome
  · intro id hid
    rcases r.registersAll.named id hid with hid | hid
    · exact r.short id (List.mem_append_left _ hid)
    · obtain ⟨info, hinfo, rfl⟩ := List.mem_map.mp hid
      rw [stored, List.mem_append, List.mem_append] at hinfo
      rcases hinfo with (hinfo | hinfo) | hinfo
      · exact r.short _ (List.mem_append_right _
          (List.mem_map_of_mem (List.mem_append_left _ hinfo)))
      · exact kryptonite_short info hinfo
      · exact r.short _ (List.mem_append_right _
          (List.mem_map_of_mem (List.mem_append_right _ hinfo)))
  · exact r.registersAll.quiet.callbacks.trans r.fresh
  · exact r.registersAll.quiet.unloading.trans r.idle

end Registration

section Callbacks

variable (boot : Boot)

/-- The entry of `kextList` that a callback is about. -/
def entryOf (index : Nat) : Option KextEntry :=
  (List.finRange 13).find? fun entry => boot.loads.index entry = index

/-- What `PatchSet::processKext` does for an entry. -/
def visit (load : KextLoad) : Option KextEntry → PatcherM Unit
  | none => KernelPatcher.clearError
  | some entry => do
      PatchSet.processEntry boot load entry
      KernelPatcher.clearError

variable {boot}

theorem entryOf_eq_some {index : Nat} (hindex : index ≠ 0) {entry : KextEntry} :
    entryOf boot index = some entry ↔ boot.loads.index entry = index := by
  constructor
  · intro h
    simpa using List.find?_some h
  · intro h
    cases hfound : entryOf boot index with
    | none =>
        have hnone := List.find?_eq_none.mp hfound entry (List.mem_finRange entry)
        simp [h] at hnone
    | some other =>
        have hother : boot.loads.index other = index := by simpa using List.find?_some hfound
        have hne : boot.loads.index other ≠ 0 := hother ▸ hindex
        rw [boot.loads.distinct other entry (hother.trans h.symm) hne]

/-- The loop over `kextList` acts on one entry at most. -/
theorem processKext_visit {load : KextLoad} (hindex : load.index ≠ 0) :
    PatchSet.processKext boot load = visit boot load (entryOf boot load.index) := by
  rw [PatchSet.processKext]
  cases hfound : entryOf boot load.index with
  | none =>
      have hidle : (List.finRange 13).forM (fun kext =>
          if boot.loads.index kext = load.index then PatchSet.processEntry boot load kext
          else pure ()) = pure () := by
        refine forM_idle fun kext _ => if_neg fun heq => ?_
        rw [(entryOf_eq_some hindex).mpr heq] at hfound
        cases hfound
      rw [hidle]
      exact pure_bind _ _
  | some entry =>
      have hentry : boot.loads.index entry = load.index := (entryOf_eq_some hindex).mp hfound
      have honly : (List.finRange 13).forM (fun kext =>
          if boot.loads.index kext = load.index then PatchSet.processEntry boot load kext
          else pure ()) = PatchSet.processEntry boot load entry := by
        refine (forM_only (List.nodup_finRange 13) (List.mem_finRange entry) ?_).trans
          (if_pos hentry)
        intro kext _ hne
        refine if_neg fun heq => hne ?_
        exact Option.some.inj (((entryOf_eq_some hindex).mpr heq).symm.trans hfound)
      rw [honly]
      rfl

variable {host : Host} {l : Listener}

/-- A callback is made for a handler that waited. -/
theorem mem_callbacks (hfresh : l.callbacks = []) {actions : List Action} {call : Callback}
    (hcall : call ∈ (run host l actions).callbacks) :
    ∃ handler ∈ l.khandlers, call.index = handler.index := by
  rcases (run_within l actions).callbacks call hcall with hcall | hcall
  · rw [hfresh] at hcall
    cases hcall
  · exact hcall

theorem run_visits {calls : List Callback} (loadOf : Callback → KextLoad)
    (hload : ∀ call, (loadOf call).index = call.index) (h : ∀ call ∈ calls, call.index ≠ 0) :
    PatchSet.run boot (calls.map loadOf) =
      calls.forM fun call => visit boot (loadOf call) (entryOf boot call.index) := by
  induction calls with
  | nil => rfl
  | cons call rest ih =>
      obtain ⟨hfirst, hrest⟩ := List.forall_mem_cons.mp h
      have hindex : (loadOf call).index ≠ 0 := hload call ▸ hfirst
      change (PatchSet.processKext boot (loadOf call) >>= fun _ =>
        PatchSet.run boot (rest.map loadOf)) = _
      rw [processKext_visit hindex, hload, ih hrest]
      rfl

/-- The callbacks about one entry are calls of one handler. -/
theorem entries_count (h : Ready l) (hindices : ∀ handler ∈ l.khandlers, handler.index ≠ 0)
    (honce : ∀ handler ∈ l.khandlers, ∀ entry,
      boot.loads.index entry = handler.index → handler.reloadable = false)
    (actions : List Action) (entry : KextEntry) :
    (((run host l actions).callbacks.filterMap fun call => entryOf boot call.index).count entry)
      ≤ 1 := by
  have hcalls : ∀ call ∈ (run host l actions).callbacks, call.index ≠ 0 := by
    intro call hcall
    obtain ⟨handler, hmem, hindex⟩ := mem_callbacks h.fresh hcall
    exact hindex ▸ hindices handler hmem
  by_cases hfound : entry ∈ (run host l actions).callbacks.filterMap
      fun call => entryOf boot call.index
  · obtain ⟨call, hcall, hentry⟩ := List.mem_filterMap.mp hfound
    obtain ⟨handler, hmem, hindex⟩ := mem_callbacks h.fresh hcall
    have hown : boot.loads.index entry = handler.index :=
      ((entryOf_eq_some (hcalls call hcall)).mp hentry).trans hindex
    have hlength : (callsOf handler (run host l actions)).length ≤ 1 := by
      rw [callsOf_eq h hmem, honce handler hmem entry hown, List.length_map]
      exact List.length_take_le 1 _
    refine le_trans ?_ hlength
    rw [callsOf, ← List.countP_eq_length_filter, List.count, List.countP_filterMap]
    refine List.countP_mono_left fun other hother hsame => ?_
    have hsome : entryOf boot other.index = some entry := by
      cases hcase : entryOf boot other.index <;> simp_all
    exact decide_eq_true (((entryOf_eq_some (hcalls other hother)).mp hsome).symm.trans hown)
  · rw [List.count_eq_zero.mpr hfound]
    exact Nat.zero_le 1

/-- Whatever else is registered, the callbacks of a boot make Kryptonite process
entries of `kextList` one at a time and none of them twice, as long as nobody
wants their kexts reloaded. -/
theorem run_visits_once (r : Registration) (hboot : boot.loads = r.table)
    (honce : ∀ handler ∈ r.listener.khandlers, ∀ entry,
      r.table.index entry = handler.index → handler.reloadable = false)
    (host : Host) (actions : List Action) (loadOf : Callback → KextLoad)
    (hload : ∀ call, (loadOf call).index = call.index) :
    PatchSet.run boot ((run host r.listener actions).callbacks.map loadOf) =
        (run host r.listener actions).callbacks.forM
          (fun call => visit boot (loadOf call) (entryOf boot call.index)) ∧
      ((run host r.listener actions).callbacks.filterMap
        fun call => entryOf boot call.index).Nodup := by
  have hfresh : r.listener.callbacks = [] := r.registersAll.quiet.callbacks.trans r.fresh
  have hindices : ∀ handler ∈ r.listener.khandlers, handler.index ≠ 0 :=
    fun handler hmem => (r.registersAll.consistent.listed handler hmem).1
  constructor
  · refine run_visits loadOf hload fun call hcall => ?_
    obtain ⟨handler, hmem, hindex⟩ := mem_callbacks hfresh hcall
    exact hindex ▸ hindices handler hmem
  · by_cases hsome : r.listener.khandlers = []
    · -- without handlers there are no callbacks
      have hnone : (run host r.listener actions).callbacks = [] := by
        refine List.eq_nil_iff_forall_not_mem.mpr fun call hcall => ?_
        obtain ⟨handler, hmem, -⟩ := mem_callbacks hfresh hcall
        rw [hsome] at hmem
        cases hmem
      rw [hnone]
      exact List.nodup_nil
    · refine List.nodup_iff_count_le_one.mpr (entries_count (r.ready hsome) hindices ?_ actions)
      rw [hboot]
      exact honce

/-- Kryptonite is the only plugin, and every kext has its file. -/
def soleRegistration : Registration where
  supply := plenty
  start := { solo false with kinfos := ["kernel"], khandlers := [] }
  before := []
  after := []
  consistent := ⟨by decide, by decide, by decide, by decide, fun h => absurd rfl h⟩
  code := rfl
  idle := rfl
  fresh := rfl
  unindexed := by decide
  short := by decide

def soleBoot : Boot := Boot.init (PatchSet.amdLine []) 22 0 soleRegistration.table

def soleLoad (call : Callback) : KextLoad :=
  ⟨call.index, call.address, call.size, PatchSet.willingMachine⟩

def soleActions : List Action :=
  [.load ⟨(kextInfo 4).id, 4096, 16⟩, .catchUp, .enable, .load ⟨(kextInfo 0).id, 8192, 16⟩]

theorem run_visits_once_sole :
    PatchSet.run soleBoot
        ((run (soloHost 22) soleRegistration.listener soleActions).callbacks.map soleLoad) =
        (run (soloHost 22) soleRegistration.listener soleActions).callbacks.forM
          (fun call => visit soleBoot (soleLoad call) (entryOf soleBoot call.index)) ∧
      ((run (soloHost 22) soleRegistration.listener soleActions).callbacks.filterMap
        fun call => entryOf soleBoot call.index).Nodup :=
  run_visits_once soleRegistration rfl
    (fun handler hmem _ _ => (by decide +kernel : ∀ handler ∈ soleRegistration.listener.khandlers,
      handler.reloadable = false) handler hmem)
    (soloHost 22) soleActions soleLoad fun _ => rfl

end Callbacks

end KextListening

end Kryptonite
