/-
What becomes of a lookup that fails.  `plists_get` ends with a test of its own,
so its status is never that of `PlistBuddy`, and the `exit_if_failed` behind
every call of it finds nothing to report.  `installer.sh` does not run under
`errexit`.
-/
import Kryptonite.Disks

namespace Kryptonite

namespace FailedLookups

open Script ShellText Plists
open OpenCore (plainOptions grepStatus)
open Disks (getOrExit)

section Asking

variable {Config α β γ : Type}

/-- `plists_getval` after a lookup with this output. -/
def valueOf (printed : Option Text) : Text :=
  match printed with
  | none => []
  | some output =>
      let value := stripNewlines output
      if (text "File Doesn't Exist").isPrefixOf value then [] else value

variable (buddy : PlistBuddy Config) (config : Config)

/-- Whether one of these lookups fails, the first one being call `n`. -/
def someFails : Nat → List (List Key) → Bool
  | _, [] => false
  | n, key :: keys => (buddy.print n config key).isNone || someFails (n + 1) keys

/-- The other tool answers these lookups in the same way. -/
def Agree (other : PlistBuddy Config) : Nat → List (List Key) → Prop
  | _, [] => True
  | n, key :: keys => other.print n config key = buddy.print n config key ∧ Agree other (n + 1) keys

/-- From call `n` on the script makes these lookups, in this order, and comes to
its end; how it ends depends on their answers alone. -/
def Asks (n : Nat) (m : PlistBuddy Config → ScriptM Config α) (keys : List (List Key)) : Prop :=
  ∀ s : Session Config, s.config = config → s.calls = n →
    ∃ a t, t.config = config ∧ t.calls = n + keys.length ∧
      ∀ other, Agree buddy config other n keys → m other s = .ok a t

/-- The lookups of a loop, given those of a round from a call on. -/
def askedAll (asked : Nat → γ → List (List Key)) : Nat → List γ → List (List Key)
  | _, [] => []
  | n, x :: xs => asked n x ++ askedAll asked (n + (asked n x).length) xs

variable {buddy config} {n : Nat} {keys more : List (List Key)}

theorem agree_append {other : PlistBuddy Config} (h : Agree buddy config other n (keys ++ more)) :
    Agree buddy config other n keys ∧ Agree buddy config other (n + keys.length) more := by
  induction keys generalizing n with
  | nil => exact ⟨trivial, h⟩
  | cons key keys ih =>
      obtain ⟨hkeys, hmore⟩ := ih h.2
      refine ⟨⟨h.1, hkeys⟩, ?_⟩
      rw [List.length_cons, Nat.add_comm keys.length, ← Nat.add_assoc]
      exact hmore

theorem agree_self (n : Nat) (keys : List (List Key)) : Agree buddy config buddy n keys := by
  induction keys generalizing n with
  | nil => trivial
  | cons key keys ih => exact ⟨rfl, ih (n + 1)⟩

/-- A script that asks comes to its end. -/
theorem Asks.total {m : PlistBuddy Config → ScriptM Config α} {s : Session Config}
    (h : Asks buddy s.config s.calls m keys) : ∃ a t, m buddy s = .ok a t := by
  obtain ⟨a, t, -, -, hrun⟩ := h s rfl rfl
  exact ⟨a, t, hrun buddy (agree_self _ _)⟩

theorem Asks.pure (a : α) : Asks buddy config n (fun _ => Pure.pure a) [] :=
  fun s hconfig hcalls => ⟨a, s, hconfig, hcalls, fun _ _ => rfl⟩

theorem Asks.bind {m : PlistBuddy Config → ScriptM Config α}
    {f : PlistBuddy Config → α → ScriptM Config β} (hm : Asks buddy config n m keys)
    (hf : ∀ a, Asks buddy config (n + keys.length) (fun buddy => f buddy a) more) :
    Asks buddy config n (fun buddy => m buddy >>= f buddy) (keys ++ more) := by
  intro s hconfig hcalls
  obtain ⟨a, t, htconfig, htcalls, hrun⟩ := hm s hconfig hcalls
  obtain ⟨b, u, huconfig, hucalls, hrest⟩ := hf a t htconfig htcalls
  refine ⟨b, u, huconfig, by rw [hucalls, List.length_append, Nat.add_assoc], ?_⟩
  intro other hother
  obtain ⟨hkeys, hmore⟩ := agree_append hother
  exact (bind_of_ok (hrun other hkeys)).trans (hrest other hmore)

/-- A loop asks what its rounds ask. -/
theorem Asks.foldlM {f : PlistBuddy Config → β → γ → ScriptM Config β}
    {asked : Nat → γ → List (List Key)}
    (h : ∀ n b x, Asks buddy config n (fun buddy => f buddy b x) (asked n x)) (xs : List γ)
    (b : β) (n : Nat) :
    Asks buddy config n (fun buddy => xs.foldlM (f buddy) b) (askedAll asked n xs) := by
  induction xs generalizing b n with
  | nil => exact Asks.pure b
  | cons x xs ih =>
      simp only [List.foldlM_cons]
      exact (h n b x).bind fun next => ih next _

theorem plistsGet_plain (buddy : PlistBuddy Config) (key : List Key) (s : Session Config) :
    plistsGet plainOptions buddy key s = .ok 0 { s with
      calls := s.calls + 1, looked := s.looked ++ [key],
      getval := valueOf (buddy.print s.calls s.config key) } := by
  unfold plistsGet
  cases buddy.print s.calls s.config key with
  | none => rfl
  | some output => rfl

/-- The status is 0 whether or not the lookup has failed. -/
theorem getOrExit_plain (buddy : PlistBuddy Config) (key : List Key) (s : Session Config) :
    getOrExit plainOptions buddy key s = .ok (valueOf (buddy.print s.calls s.config key)) { s with
      calls := s.calls + 1, looked := s.looked ++ [key],
      getval := valueOf (buddy.print s.calls s.config key) } :=
  bind_of_ok (plistsGet_plain buddy key s)

/-- What a lookup has found decides how the script goes on. -/
theorem Asks.getOrExit {f : PlistBuddy Config → Text → ScriptM Config α} {key : List Key}
    (h : Asks buddy config (n + 1)
      (fun other => f other (valueOf (buddy.print n config key))) keys) :
    Asks buddy config n (fun other => getOrExit plainOptions other key >>= f other)
      (key :: keys) := by
  rintro s rfl rfl
  obtain ⟨a, t, htconfig, htcalls, hrun⟩ := h { s with
    calls := s.calls + 1, looked := s.looked ++ [key],
    getval := valueOf (buddy.print s.calls s.config key) } rfl rfl
  refine ⟨a, t, htconfig, by rw [htcalls, List.length_cons]; omega, ?_⟩
  rintro other ⟨hkey, hkeys⟩
  have hfirst := getOrExit_plain other key s
  rw [hkey] at hfirst
  exact (bind_of_ok hfirst).trans (hrun other hkeys)

theorem Asks.grepStatus {f : PlistBuddy Config → ScriptM Config α} (count : Nat)
    (h : Asks buddy config n f keys) :
    Asks buddy config n (fun other => grepStatus plainOptions count >>= fun _ => f other) keys := by
  intro s hconfig hcalls
  obtain ⟨a, t, htconfig, htcalls, hrun⟩ := h s hconfig hcalls
  refine ⟨a, t, htconfig, htcalls, fun other hother => ?_⟩
  have hgrep : OpenCore.grepStatus plainOptions count s = .ok () s := by
    rw [OpenCore.grepStatus]
    split <;> rfl
  exact (bind_of_ok hgrep).trans (hrun other hother)

end Asking

section Scripts

variable {Config : Type} (buddy : PlistBuddy Config) (config : Config)

/-- `:Kernel:Add:i:BundlePath` -/
def bundleKey (i : Nat) : List Key := OpenCore.baseKey ++ [.index i, .name "BundlePath"]

/-- The lookups of `opencore_add_kry_injections`. -/
def kextLookups (n : Nat) : List (List Key) :=
  let getval := valueOf (buddy.print n config OpenCore.baseKey)
  OpenCore.baseKey :: (List.range (grepCount (text "Dict") (printfn [getval]))).map bundleKey

/-- The lookups for the partition under a key. -/
def partitionLookups (key : List Key) (n : Nat) : List (List Key) :=
  (key ++ [.name "Content"]) ::
    if valueOf (buddy.print n config (key ++ [.name "Content"])) ∈ Disks.skippedContents then []
    else [key ++ [.name "VolumeName"], key ++ [.name "DeviceIdentifier"]]

/-- The lookups for the disk `i`. -/
def diskLookups (n i : Nat) : List (List Key) :=
  let contentKey := Disks.allKey ++ [.index i] ++ [.name "Content"]
  let content := valueOf (buddy.print n config contentKey)
  let baseKey := Disks.baseKey i content
  let counted := Disks.countDicts (valueOf (buddy.print (n + 1) config baseKey))
  let start := Disks.pstart i content
  contentKey :: baseKey :: askedAll
    (fun n j => partitionLookups buddy config (baseKey ++ [.index j]) n) (n + 2)
    (List.range' start (Disks.pcount start counted - start))

/-- The lookups of `disks_get`. -/
def listingLookups (n : Nat) : List (List Key) :=
  let getval := valueOf (buddy.print n config [.name "WholeDisks"])
  [.name "WholeDisks"] ::
    askedAll (diskLookups buddy config) (n + 1) (List.range (Disks.countDisks getval))

variable {buddy config} {n : Nat}

theorem askedAll_singleton {γ : Type} (key : γ → List Key) (n : Nat) (xs : List γ) :
    askedAll (fun _ x => [key x]) n xs = xs.map key := by
  induction xs generalizing n with
  | nil => rfl
  | cons x xs ih => rw [askedAll, ih, List.map_cons, List.singleton_append]

theorem lookupKext_eq (buddy : PlistBuddy Config) (indices : OpenCore.Indices) (i : Nat) :
    OpenCore.lookupKext plainOptions buddy indices i =
      (getOrExit plainOptions buddy (bundleKey i) >>= fun kbundle => pure {
        lilu := if kbundle = text "Lilu.kext" then some i else indices.lilu
        kryptonite :=
          if kbundle = text "Kryptonite.kext" then some i else indices.kryptonite }) := by
  simp only [OpenCore.lookupKext, getOrExit, bind_assoc, pure_bind]
  rfl

theorem findKexts_eq (buddy : PlistBuddy Config) :
    OpenCore.findKexts plainOptions buddy =
      (getOrExit plainOptions buddy OpenCore.baseKey >>= fun getval =>
        grepStatus plainOptions (grepCount (text "Dict") (printfn [getval])) >>= fun _ =>
          (List.range (grepCount (text "Dict") (printfn [getval]))).foldlM
            (OpenCore.lookupKext plainOptions buddy) ⟨none, none⟩ >>= fun indices =>
              pure (grepCount (text "Dict") (printfn [getval]), indices)) := by
  simp only [OpenCore.findKexts, OpenCore.countDicts, getOrExit, bind_assoc, pure_bind]

theorem lookupKext_asks (n : Nat) (indices : OpenCore.Indices) (i : Nat) :
    Asks buddy config n (fun buddy => OpenCore.lookupKext plainOptions buddy indices i)
      [bundleKey i] := by
  simp only [lookupKext_eq]
  exact Asks.getOrExit (Asks.pure _)

theorem lookupKexts_asks (kcount : Nat) (n : Nat) :
    Asks buddy config n
      (fun buddy => (List.range kcount).foldlM (OpenCore.lookupKext plainOptions buddy)
        ⟨none, none⟩ >>= fun indices => pure (kcount, indices))
      ((List.range kcount).map bundleKey) := by
  have hloop : Asks buddy config n
      (fun buddy => (List.range kcount).foldlM (OpenCore.lookupKext plainOptions buddy)
        ⟨none, none⟩)
      (askedAll (fun _ i => [bundleKey i]) n (List.range kcount)) :=
    Asks.foldlM lookupKext_asks (List.range kcount) ⟨none, none⟩ n
  have hboth := hloop.bind fun indices => Asks.pure (kcount, indices)
  rwa [askedAll_singleton, List.append_nil] at hboth

theorem findKexts_asks :
    Asks buddy config n (OpenCore.findKexts plainOptions) (kextLookups buddy config n) := by
  rw [funext findKexts_eq]
  apply Asks.getOrExit
  apply Asks.grepStatus
  exact lookupKexts_asks _ _

theorem addPartition_asks {terminal : Disks.Terminal} (baseKey : List Key)
    (primary : Disks.Primary terminal) (n j : Nat) :
    Asks buddy config n
      (fun buddy => Disks.addPartition plainOptions buddy baseKey primary j)
      (partitionLookups buddy config (baseKey ++ [.index j]) n) := by
  apply Asks.getOrExit
  unfold Disks.addVolume
  split
  · exact Asks.pure primary
  · exact Asks.getOrExit (Asks.getOrExit (Asks.pure _))

theorem addDisk_asks {terminal : Disks.Terminal} (n : Nat) (primary : Disks.Primary terminal)
    (i : Nat) :
    Asks buddy config n (fun buddy => Disks.addDisk plainOptions buddy primary i)
      (diskLookups buddy config n i) := by
  apply Asks.getOrExit
  apply Asks.getOrExit
  apply Asks.grepStatus
  exact Asks.foldlM (fun n primary j => addPartition_asks _ primary n j) _ primary _

theorem disksGet_asks {terminal : Disks.Terminal} :
    Asks buddy config n
      (Disks.disksGet plainOptions : PlistBuddy Config → ScriptM Config (Disks.Primary terminal))
      (listingLookups buddy config n) := by
  apply Asks.getOrExit
  apply Asks.grepStatus
  exact Asks.foldlM addDisk_asks _ _ _

end Scripts

section Edits

variable {Config α : Type}

/-- No `Add` and no `Set` is issued: what they would do makes no difference. -/
def NoEdits (buddy : PlistBuddy Config) (m : PlistBuddy Config → ScriptM Config α)
    (s : Session Config) : Prop :=
  ∀ edit, m { buddy with edit } s = m buddy s

/-- Every edit is refused, or every one is accepted. -/
def refuse (_ : Nat) (_ : Config) (_ : Edit) : Option Config := none

def accept (_ : Nat) (config : Config) (_ : Edit) : Option Config := some config

theorem agree_edit (buddy : PlistBuddy Config) (config : Config)
    (edit : Nat → Config → Edit → Option Config) (n : Nat) (keys : List (List Key)) :
    Agree buddy config { buddy with edit } n keys := by
  induction keys generalizing n with
  | nil => trivial
  | cons key keys ih => exact ⟨rfl, ih (n + 1)⟩

variable (buddy : PlistBuddy Config)

theorem runEdit_refuse (edit : Edit) (s : Session Config) :
    runEdit { buddy with edit := refuse } edit s = .error 1 { s with calls := s.calls + 1 } :=
  runEdit_of_none _ rfl

theorem runEdit_accept (edit : Edit) (s : Session Config) :
    ∃ t, runEdit { buddy with edit := accept } edit s = .ok () t :=
  ⟨_, runEdit_of_some { buddy with edit := accept } rfl⟩

theorem enableOrInject_refuse (index : Option Nat) {values : List Text} (hvalues : values ≠ [])
    (cindex : Nat) (s : Session Config) :
    OpenCore.enableOrInject { buddy with edit := refuse } index values cindex s =
      .error 1 { s with calls := s.calls + 1 } := by
  have hplan : OpenCore.kextEdits index values cindex ≠ [] := by
    obtain ⟨first, rest, rfl⟩ := List.exists_cons_of_ne_nil hvalues
    cases index <;> exact List.cons_ne_nil _ _
  obtain ⟨first, rest, hcons⟩ := List.exists_cons_of_ne_nil hplan
  rw [OpenCore.enableOrInject_eq, hcons]
  exact forM_of_error (runEdit_refuse buddy first s)

theorem forM_runEdit_accept (edits : List Edit) (s : Session Config) :
    ∃ t, edits.forM (runEdit { buddy with edit := accept }) s = .ok () t := by
  induction edits generalizing s with
  | nil => exact ⟨s, rfl⟩
  | cons edit edits ih =>
      obtain ⟨t, hfirst⟩ := runEdit_accept buddy edit s
      obtain ⟨u, hrest⟩ := ih t
      exact ⟨u, (forM_of_ok hfirst).trans hrest⟩

theorem enableOrInject_accept (index : Option Nat) (values : List Text) (cindex : Nat)
    (s : Session Config) :
    ∃ t, OpenCore.enableOrInject { buddy with edit := accept } index values cindex s =
      .ok () t := by
  rw [OpenCore.enableOrInject_eq]
  exact forM_runEdit_accept buddy _ s

/-- Whatever the lookups have found, an edit follows them. -/
theorem addKryInjections_edits (s : Session Config) :
    ¬ NoEdits buddy (OpenCore.addKryInjections plainOptions) s := by
  intro hnone
  have hasks : Asks buddy s.config s.calls (OpenCore.findKexts plainOptions)
      (kextLookups buddy s.config s.calls) := findKexts_asks
  obtain ⟨⟨kcount, indices⟩, t, -, -, hfind⟩ := hasks s rfl rfl
  have hagree := agree_edit buddy s.config
  have hsame := (hnone refuse).trans (hnone accept).symm
  obtain ⟨u, hlilu⟩ := enableOrInject_accept buddy indices.lilu OpenCore.liluValues kcount t
  obtain ⟨v, hkryptonite⟩ := enableOrInject_accept buddy indices.kryptonite
    OpenCore.kryptoniteValues (OpenCore.nextIndex indices.lilu kcount) u
  rw [OpenCore.addKryInjections_of_found (hfind _ (hagree refuse _ _)),
    OpenCore.addKryInjections_of_found (hfind _ (hagree accept _ _)),
    bind_of_error (enableOrInject_refuse buddy _ (by decide) kcount t), bind_of_ok hlilu,
    hkryptonite] at hsame
  cases hsame

end Edits

section Law

variable {Config : Type} (terminal : Disks.Terminal) (buddy : PlistBuddy Config)

/-- A failing lookup in the OpenCore configuration stops the script before it
edits the file, and one in the list of disks stops `disks_get`. -/
structure Reported (opencore listing : Session Config) : Prop where
  kexts : someFails buddy opencore.config opencore.calls
      (kextLookups buddy opencore.config opencore.calls) = true →
    completed (OpenCore.addKryInjections plainOptions buddy opencore) = false ∧
      NoEdits buddy (OpenCore.addKryInjections plainOptions) opencore
  disks : someFails buddy listing.config listing.calls
      (listingLookups buddy listing.config listing.calls) = true →
    completed (Disks.disksGet plainOptions buddy listing :
      EStateM.Result Nat (Session Config) (Disks.Primary terminal)) = false

/-- Failing lookups are reported exactly when there are none. -/
theorem reported_iff (opencore listing : Session Config) :
    Reported terminal buddy opencore listing ↔
      someFails buddy opencore.config opencore.calls
        (kextLookups buddy opencore.config opencore.calls) = false ∧
      someFails buddy listing.config listing.calls
        (listingLookups buddy listing.config listing.calls) = false := by
  constructor
  · rintro ⟨hkexts, hdisks⟩
    constructor
    · by_contra hfails
      exact addKryInjections_edits buddy opencore (hkexts (by simpa using hfails)).2
    · by_contra hfails
      have hstop := hdisks (by simpa using hfails)
      have hasks : Asks buddy listing.config listing.calls
          (Disks.disksGet plainOptions :
            PlistBuddy Config → ScriptM Config (Disks.Primary terminal))
          (listingLookups buddy listing.config listing.calls) := disksGet_asks
      obtain ⟨primary, t, hrun⟩ := hasks.total
      rw [hrun] at hstop
      cases hstop
  · rintro ⟨hkexts, hdisks⟩
    constructor
    · intro hfails
      rw [hkexts] at hfails
      cases hfails
    · intro hfails
      rw [hdisks] at hfails
      cases hfails

/-- An entry without a bundle path, and a disk whose partition has no name. -/
def unnamedConfig : Plist :=
  .dict [("Kernel", .dict [("Add", .array [.dict [("Enabled", .bool true)]])])]

def unnamedListing : Plist :=
  .dict [("WholeDisks", .array [.string (text "disk0")]),
    ("AllDisksAndPartitions", .array [.dict [("Content", .string (text "FDisk_partition_scheme")),
      ("Partitions", .array [.dict [("Content", .string (text "DOS_FAT_32")),
        ("DeviceIdentifier", .string (text "disk0s1"))]])]])]

def sessionOf (config : Plist) : Session Plist where
  config
  backup := none
  getval := []
  calls := 0
  looked := []
  edits := []

/-- `disks_primary_names` at the end of a run. -/
def primaryNames {terminal : Disks.Terminal}
    (result : EStateM.Result Nat (Session Plist) (Disks.Primary terminal)) : List Text :=
  match result with
  | .ok primary _ => primary.names
  | .error _ _ => []

/-- Both scripts come to their end: one with all the edits, the other with an
entry that has no name. -/
theorem unnamed_entries_added :
    let injections := OpenCore.addKryInjections plainOptions Plist.buddy (sessionOf unnamedConfig)
    let retrieval : EStateM.Result Nat (Session Plist) (Disks.Primary ⟨[], []⟩) :=
      Disks.disksGet plainOptions Plist.buddy (sessionOf unnamedListing)
    someFails Plist.buddy unnamedConfig 0 (kextLookups Plist.buddy unnamedConfig 0) = true ∧
      completed injections = true ∧ (endState injections).edits.length = 16 ∧
    someFails Plist.buddy unnamedListing 0 (listingLookups Plist.buddy unnamedListing 0) = true ∧
      completed retrieval = true ∧ primaryNames retrieval = [text " (disk0s1)"] := by
  decide +kernel

end Law

end FailedLookups

end Kryptonite
