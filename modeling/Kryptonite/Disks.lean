/-
`disks.sh`: the volumes that `disks_get` reads from the output of
`diskutil list -plist`.
-/
import Mathlib.Data.List.Forall2
import Mathlib.Data.List.Nodup
import Kryptonite.OpenCore

namespace Kryptonite

namespace Disks

open Script ShellText Plists

section Retrieval

/-- `$(tput bold)` and `$(tput sgr0)` -/
structure Terminal where
  bold : Text
  normal : Text

/-- `"${pname} (${b}${pid}${n})"` -/
def label (terminal : Terminal) (pname pid : Text) : Text :=
  pname ++ text " (" ++ terminal.bold ++ pid ++ terminal.normal ++ text ")"

/-- `disks_primary_names` and `disks_primary_ids`; the name at an index shows the identifier
at the same index. -/
structure Primary (terminal : Terminal) where
  names : List Text
  ids : List Text
  labelled : List.Forall₂ (fun name id => ∃ pname, name = label terminal pname id) names ids

variable {terminal : Terminal}

def Primary.empty : Primary terminal := ⟨[], [], .nil⟩

theorem Primary.labelled_append (primary : Primary terminal) (pname pid : Text) :
    List.Forall₂ (fun name id => ∃ pname, name = label terminal pname id)
      (primary.names ++ [label terminal pname pid]) (primary.ids ++ [pid]) :=
  List.rel_append primary.labelled (.cons ⟨pname, rfl⟩ .nil)

def Primary.add (primary : Primary terminal) (pname pid : Text) : Primary terminal where
  names := primary.names ++ [label terminal pname pid]
  ids := primary.ids ++ [pid]
  labelled := primary.labelled_append pname pid

/-- The partitions that are passed over. -/
def skippedContents : List Text :=
  ["EFI", "Apple_APFS", "Apple_CoreStorage", "Apple_Boot"].map text

/-- `printfn "${plists_getval}" | sed -e 1d -e '$d' | grep -oic "Dict"` -/
@[irreducible] def countDicts (getval : Text) : Nat :=
  (withoutEnds (outputLines (printfn [getval]))).countP (containsAnyCase (text "Dict"))

variable {Config : Type} (options : Options) (buddy : PlistBuddy Config)

/-- `plists_get`, `exit_if_failed` and the use of `plists_getval`. -/
def getOrExit (key : List Key) : ScriptM Config Text := do
  let status ← plistsGet options buddy key
  exitIfFailed status
  return (← get).getval

/-- The partition is added unless its content is one of those passed over. -/
def addVolume (key : List Key) (primary : Primary terminal) (pcontent : Text) :
    ScriptM Config (Primary terminal) :=
  if pcontent ∈ skippedContents then return primary
  else do
    let pname ← getOrExit options buddy (key ++ [.name "VolumeName"])
    let pid ← getOrExit options buddy (key ++ [.name "DeviceIdentifier"])
    return primary.add pname pid

def addPartition (baseKey : List Key) (primary : Primary terminal) (j : Nat) :
    ScriptM Config (Primary terminal) := do
  let pcontent ← getOrExit options buddy (baseKey ++ [.index j] ++ [.name "Content"])
  addVolume options buddy (baseKey ++ [.index j]) primary pcontent

def allKey : List Key := [.name "AllDisksAndPartitions"]

/-- `base_key` for a disk of this content. -/
def baseKey (i : Nat) (content : Text) : List Key :=
  if content = text "Apple_HFSX" then allKey else allKey ++ [.index i] ++ [.name "Partitions"]

def pstart (i : Nat) (content : Text) : Nat := if content = text "Apple_HFSX" then i else 0

/-- `pcount`, given the lines counted. -/
def pcount (pstart counted : Nat) : Nat := if pstart ≠ 0 then pstart + 1 else counted

/-- One round of the loop over the disks. -/
def addDisk (primary : Primary terminal) (i : Nat) : ScriptM Config (Primary terminal) := do
  let content ← getOrExit options buddy (allKey ++ [.index i] ++ [.name "Content"])
  let getval ← getOrExit options buddy (baseKey i content)
  OpenCore.grepStatus options (countDicts getval)
  let start := pstart i content
  (List.range' start (pcount start (countDicts getval) - start)).foldlM
    (addPartition options buddy (baseKey i content)) primary

/-- `printfn "${plists_getval}" | grep -ic disk` -/
def countDisks (getval : Text) : Nat :=
  (lines (printfn [getval])).countP (containsAnyCase (text "disk"))

/-- `disks_get` on what `diskutil` has written. -/
def disksGet : ScriptM Config (Primary terminal) := do
  let getval ← getOrExit options buddy [.name "WholeDisks"]
  OpenCore.grepStatus options (countDisks getval)
  (List.range (countDisks getval)).foldlM (addDisk options buddy) Primary.empty

end Retrieval

section Documents

/-- A device identifier. -/
def Device (id : Text) : Prop :=
  text "disk" <+: id ∧ (0x0A : UInt8) ∉ id ∧ (0x5C : UInt8) ∉ id

instance (id : Text) : Decidable (Device id) := inferInstanceAs (Decidable (_ ∧ _ ∧ _))

/-- A disk or a partition: a dictionary with a device identifier and, it may be, a content
of one line; other fields are as they may be. -/
structure Entry where
  fields : List (String × Plist)
  identifier : Text
  content : Option Text
  device : Device identifier
  identified : fields.lookup "DeviceIdentifier" = some (.string identifier)
  holds : fields.lookup "Content" = content.map .string
  line : ∀ value ∈ content, (0x0A : UInt8) ∉ value

def Entry.plist (entry : Entry) : Plist := .dict entry.fields

/-- A disk with the elements of its `Partitions`, if it has any. -/
structure Disk extends Entry where
  partitions : List Entry
  partitioned : fields.lookup "Partitions" = some (.array (partitions.map Entry.plist)) ∨
    fields.lookup "Partitions" = none ∧ partitions = []

/-- The document lists these disks, no identifier twice. -/
structure Document (config : Plist) (disks : List Disk) : Prop where
  listed : config.find allKey = some (.array (disks.map fun disk => disk.plist))
  wholeDisks : config.find [.name "WholeDisks"] =
    some (.array (disks.map fun disk => .string disk.identifier))
  distinct : (disks.flatMap fun disk =>
    disk.identifier :: disk.partitions.map Entry.identifier).Nodup

/-- The entry's own content is one of those passed over. -/
def Entry.Skipped (entry : Entry) : Prop := ∃ value ∈ entry.content, value ∈ skippedContents

instance (entry : Entry) : Decidable entry.Skipped :=
  inferInstanceAs (Decidable (∃ value ∈ entry.content, value ∈ skippedContents))

def Entry.offered (entry : Entry) : List Text :=
  if entry.Skipped then [] else [entry.identifier]

/-- What is to be offered of a disk. -/
def Disk.offers (disk : Disk) : List Text :=
  if disk.content = some (text "Apple_HFSX") then disk.offered
  else disk.partitions.flatMap Entry.offered

/-- What is to be offered. -/
def offers (disks : List Disk) : List Text := disks.flatMap Disk.offers

theorem readValue_string {value : Text} (hline : (0x0A : UInt8) ∉ value)
    (hmessage : (text "File Doesn't Exist").isPrefixOf value = false) :
    Plist.readValue (some (.string value)) = value := by
  have hstrip : stripNewlines (value ++ text "\n") = value := by
    rw [text_newline]
    exact stripNewlines_append_newline hline
  simp [Plist.readValue, Plist.render, hstrip, hmessage]

theorem Device.ne_nil {id : Text} (h : Device id) : id ≠ [] := by
  rintro rfl
  exact absurd (List.prefix_nil.mp h.1) (by decide +kernel)

theorem Device.not_message {id : Text} (h : Device id) :
    (text "File Doesn't Exist").isPrefixOf id = false := by
  obtain ⟨rest, rfl⟩ := h.1
  rfl

/-- What the shell reads of a content is this name exactly if the content is. -/
theorem Entry.readValue_content (entry : Entry) {name : Text} (hname : name ≠ [])
    (hmessage : (text "File Doesn't Exist").isPrefixOf name = false) :
    Plist.readValue (entry.fields.lookup "Content") = name ↔ entry.content = some name := by
  rw [Plist.readValue_eq_iff hname hmessage, entry.holds, Option.map_map]
  cases hcontent : entry.content with
  | none => simp
  | some value =>
      have hline := entry.line value hcontent
      simp [Plist.render, stripNewlines_eq_self hline]

theorem Entry.readValue_hfsx (entry : Entry) :
    Plist.readValue (entry.fields.lookup "Content") = text "Apple_HFSX" ↔
      entry.content = some (text "Apple_HFSX") :=
  entry.readValue_content (by decide +kernel) (by decide +kernel)

theorem Entry.readValue_skipped (entry : Entry) :
    Plist.readValue (entry.fields.lookup "Content") ∈ skippedContents ↔ entry.Skipped := by
  have hnames : ∀ name ∈ skippedContents,
      name ≠ [] ∧ (text "File Doesn't Exist").isPrefixOf name = false := by
    decide +kernel
  constructor
  · intro hmem
    obtain ⟨hname, hmessage⟩ := hnames _ hmem
    exact ⟨_, (entry.readValue_content hname hmessage).mp rfl, hmem⟩
  · rintro ⟨name, hcontent, hmem⟩
    obtain ⟨hname, hmessage⟩ := hnames name hmem
    rwa [(entry.readValue_content hname hmessage).mpr hcontent]

theorem Entry.readValue_identifier (entry : Entry) :
    Plist.readValue (entry.fields.lookup "DeviceIdentifier") = entry.identifier := by
  rw [entry.identified]
  exact readValue_string entry.device.2.1 entry.device.not_message

end Documents

section Runs

open OpenCore (plainOptions grepStatus)

variable {terminal : Terminal} {config : Plist} {buddy : PlistBuddy Plist}

theorem getOrExit_reads (hprints : buddy.Prints) (key : List Key) :
    Reads config (getOrExit plainOptions buddy key) (Plist.readValue (config.find key)) := by
  rintro s rfl
  have hget : plistsGet plainOptions buddy key s = .ok 0 (Plist.afterGet key s) :=
    Plist.plistsGet_eq hprints (.inl rfl)
  refine ⟨Plist.afterGet key s, ?_, rfl⟩
  rw [getOrExit, bind_of_ok hget]
  rfl

theorem grepStatus_reads (count : Nat) : Reads config (grepStatus plainOptions count) () := by
  intro s hs
  refine ⟨s, ?_, hs⟩
  rw [grepStatus]
  split <;> rfl

/-- What becomes of the arrays at the partition `j` under a key. -/
def considered (config : Plist) (key : List Key) (primary : Primary terminal) (j : Nat) :
    Primary terminal :=
  if Plist.readValue (config.find (key ++ [.index j] ++ [.name "Content"])) ∈ skippedContents then
    primary
  else primary.add (Plist.readValue (config.find (key ++ [.index j] ++ [.name "VolumeName"])))
    (Plist.readValue (config.find (key ++ [.index j] ++ [.name "DeviceIdentifier"])))

theorem addPartition_reads (hprints : buddy.Prints) (key : List Key)
    (primary : Primary terminal) (j : Nat) :
    Reads config (addPartition plainOptions buddy key primary j)
      (considered config key primary j) := by
  have hreads : ∀ key, Reads config (getOrExit plainOptions buddy key)
      (Plist.readValue (config.find key)) := getOrExit_reads hprints
  apply (hreads _).bind
  rw [addVolume, considered]
  split
  · exact Reads.pure primary
  · exact (hreads _).bind ((hreads _).bind (Reads.pure _))

/-- The indices of the loop over the partitions of a disk. -/
def partitionIndices (config : Plist) (i : Nat) (content : Text) : List Nat :=
  let start := pstart i content
  List.range' start
    (pcount start (countDicts (Plist.readValue (config.find (baseKey i content)))) - start)

/-- What becomes of the arrays at the disk `i`. -/
def consideredDisk (config : Plist) (primary : Primary terminal) (i : Nat) : Primary terminal :=
  let content := Plist.readValue (config.find (allKey ++ [.index i] ++ [.name "Content"]))
  (partitionIndices config i content).foldl (considered config (baseKey i content)) primary

theorem addDisk_reads (hprints : buddy.Prints) (primary : Primary terminal) (i : Nat) :
    Reads config (addDisk plainOptions buddy primary i) (consideredDisk config primary i) :=
  (getOrExit_reads hprints _).bind ((getOrExit_reads hprints _).bind
    ((grepStatus_reads _).bind (Reads.foldlM (addPartition_reads hprints _) _ primary)))

/-- The arrays after `disks_get`. -/
def retrieved (terminal : Terminal) (config : Plist) : Primary terminal :=
  (List.range (countDisks (Plist.readValue (config.find [.name "WholeDisks"])))).foldl
    (consideredDisk config) Primary.empty

theorem disksGet_reads (hprints : buddy.Prints) :
    Reads config (disksGet plainOptions buddy) (retrieved terminal config) :=
  (getOrExit_reads hprints _).bind
    ((grepStatus_reads _).bind (Reads.foldlM (addDisk_reads hprints) _ _))

/-- The identifier that is added at the partition `j` under a key, if any. -/
def offeredAt (config : Plist) (key : List Key) (j : Nat) : List Text :=
  if Plist.readValue (config.find (key ++ [.index j] ++ [.name "Content"])) ∈ skippedContents then
    []
  else [Plist.readValue (config.find (key ++ [.index j] ++ [.name "DeviceIdentifier"]))]

theorem considered_ids (key : List Key) (primary : Primary terminal) (j : Nat) :
    (considered config key primary j).ids = primary.ids ++ offeredAt config key j := by
  rw [considered, offeredAt]
  split
  · exact (List.append_nil _).symm
  · rfl

theorem foldl_ids {step : Primary terminal → Nat → Primary terminal} {added : Nat → List Text}
    (h : ∀ primary x, (step primary x).ids = primary.ids ++ added x) (xs : List Nat)
    (primary : Primary terminal) :
    (xs.foldl step primary).ids = primary.ids ++ xs.flatMap added := by
  induction xs generalizing primary with
  | nil => simp
  | cons x xs ih => rw [List.foldl_cons, ih, h, List.flatMap_cons, List.append_assoc]

/-- The identifiers that are added for the disk `i`. -/
def addedFor (config : Plist) (i : Nat) : List Text :=
  let content := Plist.readValue (config.find (allKey ++ [.index i] ++ [.name "Content"]))
  (partitionIndices config i content).flatMap (offeredAt config (baseKey i content))

theorem consideredDisk_ids (primary : Primary terminal) (i : Nat) :
    (consideredDisk config primary i).ids = primary.ids ++ addedFor config i :=
  foldl_ids (considered_ids _) _ primary

theorem retrieved_ids : (retrieved terminal config).ids =
    (List.range (countDisks (Plist.readValue (config.find [.name "WholeDisks"])))).flatMap
      (addedFor config) :=
  foldl_ids consideredDisk_ids _ Primary.empty

/-- An array of strings is printed one to a line. -/
theorem lines_renderItems {values : List Text} (h : ∀ value ∈ values, (0x0A : UInt8) ∉ value)
    (rest : Text) :
    lines (Plist.renderItems 4 (values.map .string) ++ rest) =
      values.map (Plist.spaces 4 ++ ·) ++ lines rest := by
  induction values with
  | nil => rfl
  | cons value values ih =>
      have hline : (0x0A : UInt8) ∉ Plist.spaces 4 ++ value := by
        simpa [Plist.spaces] using h value List.mem_cons_self
      have hrest := ih fun other hother => h other (List.mem_cons_of_mem _ hother)
      have hitem : Plist.renderItems 4 ((value :: values).map .string) ++ rest =
          (Plist.spaces 4 ++ value) ++
            0x0A :: (Plist.renderItems 4 (values.map .string) ++ rest) := by
        rw [List.map_cons, Plist.renderItems, Plist.render, text_newline]
        simp
      rw [hitem, lines_append_newline, hrest, lines_eq_singleton hline]
      rfl

theorem no_backslash_renderItems {values : List Text}
    (h : ∀ value ∈ values, (0x5C : UInt8) ∉ value) :
    (0x5C : UInt8) ∉ Plist.renderItems 4 (values.map .string) := by
  induction values with
  | nil => exact List.not_mem_nil
  | cons value values ih =>
      have hrest := ih fun other hother => h other (List.mem_cons_of_mem _ hother)
      rw [List.map_cons, Plist.renderItems, Plist.render, text_newline]
      simp [Plist.spaces, h value List.mem_cons_self, hrest]

theorem Device.containsAnyCase {id : Text} (h : Device id) :
    containsAnyCase (text "disk") (Plist.spaces 4 ++ id) = true := by
  rw [ShellText.containsAnyCase, lower, lower, List.map_append]
  exact contains_append (h.1.map _)

/-- The number of lines that mention a disk is the number of disks. -/
theorem countDisks_wholeDisks {ids : List Text} (h : ∀ id ∈ ids, Device id) :
    countDisks (Plist.readValue (some (.array (ids.map .string)))) = ids.length := by
  have hbackslash : (0x5C : UInt8) ∉ (Plist.array (ids.map .string)).render 0 := by
    have hfirst : (0x5C : UInt8) ∉ text "Array \x7b" := by decide +kernel
    have hitems := no_backslash_renderItems fun id hid => (h id hid).2.2
    rw [Plist.render_array]
    simp [hfirst, hitems]
  have hlines : lines (printfn [(Plist.array (ids.map .string)).render 0]) =
      text "Array \x7b" :: (ids.map (Plist.spaces 4 ++ ·) ++ [[0x7D], []]) := by
    rw [printfn_of_no_backslash (by simp) (by simpa using hbackslash), Plist.render_array,
      List.flatMap_singleton, List.append_assoc, List.cons_append, List.append_assoc,
      lines_append_newline, lines_renderItems fun id hid => (h id hid).2.1,
      lines_eq_singleton (by decide +kernel)]
    rfl
  have hdisks : ∀ line ∈ ids.map (Plist.spaces 4 ++ ·),
      containsAnyCase (text "disk") line = true := by
    intro line hline
    obtain ⟨id, hid, rfl⟩ := List.mem_map.mp hline
    exact (h id hid).containsAnyCase
  have hfirst : containsAnyCase (text "disk") (text "Array \x7b") = false := by decide +kernel
  have hlast : [[0x7D], []].countP (containsAnyCase (text "disk")) = 0 := by decide +kernel
  rw [countDisks, Plist.readValue_array, hlines, List.countP_cons_of_neg (by simp [hfirst]),
    List.countP_append, List.countP_eq_length.mpr hdisks, hlast, List.length_map, Nat.add_zero]

end Runs

section Blocks

variable {config : Plist} {disks : List Disk} {key : List Key} {es : List Entry}

/-- The identifier that is added for an index into these entries; past their end it is
empty. -/
def offer (es : List Entry) (j : Nat) : List Text :=
  match es[j]? with
  | some entry => entry.offered
  | none => [[]]

/-- The array under a key, or nothing under it. -/
def Lists (config : Plist) (key : List Key) (es : List Entry) : Prop :=
  config.find key = some (.array (es.map Entry.plist)) ∨ config.find key = none ∧ es = []

theorem Lists.find_field (h : Lists config key es) (j : Nat) (field : String) :
    config.find (key ++ [.index j] ++ [.name field]) =
      es[j]?.bind fun entry => entry.fields.lookup field := by
  rw [List.append_assoc, Plist.find_append]
  rcases h with hfound | ⟨hnone, rfl⟩
  · rw [hfound]
    cases hentry : es[j]? with
    | none => simp [Plist.find, hentry]
    | some entry => simp [Plist.find, hentry, Entry.plist]
  · rw [hnone]
    rfl

theorem Lists.offeredAt_eq (h : Lists config key es) (j : Nat) :
    offeredAt config key j = offer es j := by
  rw [offeredAt, h.find_field, h.find_field, offer]
  cases es[j]? with
  | none => decide +kernel
  | some entry =>
      simp only [Option.bind_some, entry.readValue_skipped, entry.readValue_identifier]
      rfl

theorem Document.lists (doc : Document config disks) :
    Lists config allKey (disks.map Disk.toEntry) := by
  apply Or.inl
  rw [doc.listed, List.map_map]
  rfl

theorem Document.find_field (doc : Document config disks) {i : Nat} {disk : Disk}
    (hdisk : disks[i]? = some disk) (field : String) :
    config.find (allKey ++ [.index i] ++ [.name field]) = disk.fields.lookup field := by
  rw [doc.lists.find_field]
  simp [hdisk]

theorem Document.lists_partitions (doc : Document config disks) {i : Nat} {disk : Disk}
    (hdisk : disks[i]? = some disk) :
    Lists config (allKey ++ [.index i] ++ [.name "Partitions"]) disk.partitions := by
  rw [Lists, doc.find_field hdisk]
  exact disk.partitioned

/-- The lines counted for the partitions of a disk. -/
def Disk.counted (disk : Disk) : Nat :=
  countDicts (Plist.readValue (disk.fields.lookup "Partitions"))

/-- The lines counted for the array of all disks. -/
def countedAll (disks : List Disk) : Nat :=
  countDicts (Plist.readValue (some (.array (disks.map fun disk => disk.plist))))

/-- The indices of the entries that are looked at for a disk, and among which. -/
theorem Document.addedFor_eq (doc : Document config disks) {i : Nat} {disk : Disk}
    (hdisk : disks[i]? = some disk) :
    addedFor config i =
      if disk.content = some (text "Apple_HFSX") then
        if i = 0 then (List.range (countedAll disks)).flatMap (offer (disks.map Disk.toEntry))
        else disk.offered
      else (List.range disk.counted).flatMap (offer disk.partitions) := by
  simp only [addedFor, partitionIndices, doc.find_field hdisk, baseKey, pstart,
    disk.readValue_hfsx]
  split
  · rw [List.flatMap_congr fun j _ => doc.lists.offeredAt_eq j, doc.listed]
    by_cases hi : i = 0
    · rw [if_pos hi, hi, ← List.range_eq_range']
      rfl
    · rw [if_neg hi, pcount, if_pos hi, Nat.add_sub_cancel_left]
      simp [offer, hdisk]
  · rw [List.flatMap_congr fun j _ => (doc.lists_partitions hdisk).offeredAt_eq j,
      doc.find_field hdisk, ← List.range_eq_range']
    rfl

theorem range_flatMap_offer {c : Nat} (h : c ≤ es.length) :
    (List.range c).flatMap (offer es) = (es.take c).flatMap Entry.offered := by
  induction c with
  | zero => rfl
  | succ c ih =>
      have hlt : c < es.length := h
      rw [List.range_succ, List.flatMap_append, ih (Nat.le_of_lt hlt), List.take_add_one,
        List.flatMap_append]
      simp [offer, hlt]

theorem nil_mem_range_flatMap_offer {c : Nat} (h : es.length < c) :
    [] ∈ (List.range c).flatMap (offer es) := by
  apply List.mem_flatMap.mpr
  exact ⟨es.length, List.mem_range.mpr h, by simp [offer]⟩

theorem Entry.mem_offered (entry : Entry) {id : Text} (h : id ∈ entry.offered) :
    id = entry.identifier ∧ ¬ entry.Skipped := by
  rw [Entry.offered] at h
  split at h
  · cases h
  · rename_i hskipped
    exact ⟨List.mem_singleton.mp h, hskipped⟩

theorem Entry.offered_eq_nil_iff (entry : Entry) : entry.offered = [] ↔ entry.Skipped := by
  simp [Entry.offered]

theorem offer_eq_nil_iff (es : List Entry) (j : Nat) :
    offer es j = [] ↔ ∃ entry, es[j]? = some entry ∧ entry.Skipped := by
  rw [offer]
  cases es[j]? with
  | none => simp
  | some entry => simp [entry.offered_eq_nil_iff]

theorem nil_not_mem_offered (es : List Entry) : [] ∉ es.flatMap Entry.offered := by
  intro hnil
  obtain ⟨entry, -, hmem⟩ := List.mem_flatMap.mp hnil
  exact entry.device.ne_nil (entry.mem_offered hmem).1.symm

theorem Disk.offered_of_hfsx {disk : Disk} (h : disk.content = some (text "Apple_HFSX")) :
    disk.offered = [disk.identifier] := by
  have hskipped : ¬ disk.Skipped := by
    rintro ⟨value, hvalue, hmem⟩
    rw [h] at hvalue
    cases hvalue
    exact absurd hmem (by decide +kernel)
  rw [Entry.offered, if_neg hskipped]

/-- The partitions of a disk are offered rightly if the lines counted are not more than
they are and leave out none but those passed over. -/
theorem range_flatMap_offer_eq_iff (es : List Entry) (c : Nat) :
    (List.range c).flatMap (offer es) = es.flatMap Entry.offered ↔
      c ≤ es.length ∧ ∀ entry ∈ es.drop c, entry.Skipped := by
  by_cases hc : c ≤ es.length
  · have hsplit : es.flatMap Entry.offered =
        (es.take c).flatMap Entry.offered ++ (es.drop c).flatMap Entry.offered := by
      rw [← List.flatMap_append, List.take_append_drop]
    rw [range_flatMap_offer hc, hsplit, List.self_eq_append_right, List.flatMap_eq_nil_iff]
    simp [hc, Entry.offered_eq_nil_iff]
  · apply iff_of_false
    · intro heq
      have hnil := nil_mem_range_flatMap_offer (Nat.lt_of_not_le hc)
      exact nil_not_mem_offered es (heq ▸ hnil)
    · exact fun h => hc h.1

/-- A disk at the beginning of the array is offered alone if only entries that are passed
over follow it among those counted. -/
theorem range_flatMap_offer_first_iff {es : List Entry} {entry : Entry}
    (hentry : es[0]? = some entry) (hoffered : entry.offered = [entry.identifier]) (c : Nat) :
    (List.range c).flatMap (offer es) = [entry.identifier] ↔
      0 < c ∧ ∀ j, 0 < j → j < c → ∃ other, es[j]? = some other ∧ other.Skipped := by
  cases c with
  | zero => simp
  | succ c =>
      have hfirst : offer es 0 = [entry.identifier] := by simp [offer, hentry, hoffered]
      rw [List.range_succ_eq_map, List.flatMap_cons, hfirst, List.append_right_eq_self,
        List.flatMap_eq_nil_iff]
      simp only [List.forall_mem_map, List.mem_range, offer_eq_nil_iff]
      constructor
      · intro h
        refine ⟨Nat.succ_pos c, fun j hpos hj => ?_⟩
        obtain ⟨j, rfl⟩ := Nat.exists_eq_succ_of_ne_zero (Nat.ne_of_gt hpos)
        exact h j (Nat.lt_of_succ_lt_succ hj)
      · intro h j hj
        exact h.2 (j + 1) (Nat.succ_pos j) (Nat.succ_lt_succ hj)

/-- The lines counted lead to the right entries of a disk. -/
def CountedRight (disks : List Disk) (i : Nat) (disk : Disk) : Prop :=
  if disk.content = some (text "Apple_HFSX") then
    i = 0 → 0 < countedAll disks ∧ ∀ j, 0 < j → j < countedAll disks →
      ∃ other, (disks.map Disk.toEntry)[j]? = some other ∧ other.Skipped
  else disk.counted ≤ disk.partitions.length ∧
    ∀ partition ∈ disk.partitions.drop disk.counted, partition.Skipped

theorem Document.addedFor_eq_iff (doc : Document config disks) {i : Nat} {disk : Disk}
    (hdisk : disks[i]? = some disk) :
    addedFor config i = disk.offers ↔ CountedRight disks i disk := by
  rw [doc.addedFor_eq hdisk, Disk.offers, CountedRight]
  by_cases hfsx : disk.content = some (text "Apple_HFSX")
  · simp only [hfsx, if_true]
    by_cases hi : i = 0
    · subst hi
      have hentry : (disks.map Disk.toEntry)[0]? = some disk.toEntry := by simp [hdisk]
      have hoffered := disk.offered_of_hfsx hfsx
      rw [hoffered]
      simpa using range_flatMap_offer_first_iff hentry hoffered (countedAll disks)
    · simp [hi]
  · simp only [hfsx, if_false]
    exact range_flatMap_offer_eq_iff disk.partitions disk.counted

end Blocks

section Lists

variable {α β : Type} {f g : α → List β} {l : List α}

theorem flatMap_sublist (h : ∀ x ∈ l, (f x).Sublist (g x)) :
    (l.flatMap f).Sublist (l.flatMap g) := by
  induction l with
  | nil => exact List.Sublist.refl _
  | cons x l ih =>
      rw [List.flatMap_cons, List.flatMap_cons]
      exact (h x List.mem_cons_self).append (ih fun y hy => h y (List.mem_cons_of_mem _ hy))

/-- Where the parts are sublists, equal concatenations have equal parts. -/
theorem eq_of_flatMap_eq (hsub : ∀ x ∈ l, (f x).Sublist (g x))
    (heq : l.flatMap f = l.flatMap g) : ∀ x ∈ l, f x = g x := by
  induction l with
  | nil => exact fun x hx => absurd hx List.not_mem_nil
  | cons y l ih =>
      have hfirst := hsub y List.mem_cons_self
      have htail : ∀ x ∈ l, (f x).Sublist (g x) := fun x hx => hsub x (List.mem_cons_of_mem _ hx)
      rw [List.flatMap_cons, List.flatMap_cons] at heq
      have hlengths := congrArg List.length heq
      rw [List.length_append, List.length_append] at hlengths
      have hy : f y = g y := by
        apply hfirst.eq_of_length
        have := hfirst.length_le
        have := (flatMap_sublist htail).length_le
        omega
      rw [hy, List.append_cancel_left_eq] at heq
      intro x hx
      rcases List.mem_cons.mp hx with rfl | hx
      · exact hy
      · exact ih htail heq x hx

/-- In a concatenation without duplicates an element comes from one part only. -/
theorem index_unique (h : (l.flatMap f).Nodup) {i j : Nat} {a b : α} {x : β}
    (hi : l[i]? = some a) (hj : l[j]? = some b) (ha : x ∈ f a) (hb : x ∈ f b) : i = j := by
  have hparts := List.pairwise_iff_getElem.mp (List.nodup_flatMap.mp h).2
  obtain ⟨hil, rfl⟩ := List.getElem?_eq_some_iff.mp hi
  obtain ⟨hjl, rfl⟩ := List.getElem?_eq_some_iff.mp hj
  rcases Nat.lt_trichotomy i j with hlt | heq | hlt
  · exact absurd hb (hparts i j hil hjl hlt ha)
  · exact heq
  · exact absurd ha (hparts j i hjl hil hlt hb)

theorem flatMap_range_getElem? (l : List α) (f : α → List β) :
    (List.range l.length).flatMap (fun i => (l[i]?).elim [] f) = l.flatMap f := by
  induction l with
  | nil => rfl
  | cons x l ih =>
      rw [List.length_cons, List.range_succ_eq_map, List.flatMap_cons, List.flatMap_map,
        List.flatMap_cons]
      simp [ih]

end Lists

section Offers

variable {config : Plist} {disks : List Disk} {i : Nat} {disk : Disk}

def Disk.devices (disk : Disk) : List Text :=
  disk.identifier :: disk.partitions.map Entry.identifier

theorem offered_sublist (es : List Entry) :
    (es.flatMap Entry.offered).Sublist (es.map Entry.identifier) := by
  rw [← List.flatMap_singleton' (es.map Entry.identifier), List.flatMap_map]
  apply flatMap_sublist
  intro entry _
  rw [Entry.offered]
  split
  · exact List.nil_sublist _
  · exact List.Sublist.refl _

theorem Disk.offers_sublist (disk : Disk) : disk.offers.Sublist disk.devices := by
  rw [Disk.offers]
  split
  · rename_i hfsx
    rw [disk.offered_of_hfsx hfsx]
    exact List.singleton_sublist.mpr List.mem_cons_self
  · exact (offered_sublist disk.partitions).cons _

theorem Document.offers_nodup (doc : Document config disks) : (offers disks).Nodup :=
  doc.distinct.sublist (flatMap_sublist fun disk _ => disk.offers_sublist)

theorem nil_not_mem_offers (disks : List Disk) : [] ∉ offers disks := by
  intro hnil
  obtain ⟨disk, -, hmem⟩ := List.mem_flatMap.mp hnil
  rw [Disk.offers] at hmem
  split at hmem
  · exact disk.device.ne_nil (disk.mem_offered hmem).1.symm
  · exact nil_not_mem_offered _ hmem

/-- The identifier of a disk is offered only for that disk, as one of content `Apple_HFSX`. -/
theorem Document.hfsx_of_mem_offers (doc : Document config disks) (hdisk : disks[i]? = some disk)
    (h : disk.identifier ∈ offers disks) : disk.content = some (text "Apple_HFSX") := by
  obtain ⟨other, hother, hmem⟩ := List.mem_flatMap.mp h
  obtain ⟨k, hk⟩ := List.mem_iff_getElem?.mp hother
  have hindex := index_unique doc.distinct hdisk hk List.mem_cons_self
    (other.offers_sublist.subset hmem)
  subst hindex
  rw [hdisk] at hk
  cases hk
  by_contra hfsx
  rw [Disk.offers, if_neg hfsx] at hmem
  -- its own partitions have other identifiers
  have hdevices := (List.nodup_flatMap.mp doc.distinct).1 disk hother
  exact (List.nodup_cons.mp hdevices).1 ((offered_sublist _).subset hmem)

theorem sublist_singleton {a : Text} {l : List Text} (hnodup : l.Nodup) (h : ∀ x ∈ l, x = a) :
    l.Sublist [a] := by
  have hall : l = List.replicate l.length a := List.eq_replicate_iff.mpr ⟨rfl, h⟩
  rw [hall] at hnodup ⊢
  exact (List.replicate_sublist_replicate a).mpr (List.nodup_replicate.mp hnodup)

section Whole

variable (hall : (List.range disks.length).flatMap (addedFor config) = offers disks)

include hall

theorem mem_offers_of_mem_addedFor (hdisk : disks[i]? = some disk) {id : Text}
    (h : id ∈ addedFor config i) : id ∈ offers disks := by
  have hlt := (List.getElem?_eq_some_iff.mp hdisk).1
  rw [← hall]
  exact List.mem_flatMap.mpr ⟨i, List.mem_range.mpr hlt, h⟩

theorem Document.addedFor_nodup (doc : Document config disks) :
    ((List.range disks.length).flatMap (addedFor config)).Nodup := by
  rw [hall]
  exact doc.offers_nodup

/-- An `Apple_HFSX` disk at the beginning adds itself alone: any other disk would be added once
more in its own round. -/
theorem Document.eq_identifier_of_mem_addedFor (doc : Document config disks)
    (hdisk : disks[0]? = some disk) (hfsx : disk.content = some (text "Apple_HFSX")) {id : Text}
    (h : id ∈ addedFor config 0) : id = disk.identifier := by
  have hoffered := mem_offers_of_mem_addedFor hall hdisk h
  have hround := h
  rw [doc.addedFor_eq hdisk, if_pos hfsx, if_pos rfl] at hround
  obtain ⟨j, -, hmem⟩ := List.mem_flatMap.mp hround
  rw [offer, List.getElem?_map] at hmem
  cases hother : disks[j]? with
  | none =>
      rw [hother] at hmem
      cases List.mem_singleton.mp hmem
      exact absurd hoffered (nil_not_mem_offers disks)
  | some other =>
      rw [hother] at hmem
      obtain ⟨rfl, -⟩ := other.mem_offered hmem
      by_cases hj : j = 0
      · rw [hj, hdisk] at hother
        cases hother
        rfl
      · have hagain : other.identifier ∈ addedFor config j := by
          have hsame := doc.hfsx_of_mem_offers hother hoffered
          rw [doc.addedFor_eq hother, if_pos hsame, if_neg hj, other.offered_of_hfsx hsame]
          exact List.mem_singleton_self _
        have hfirst := List.getElem?_range (List.getElem?_eq_some_iff.mp hdisk).1
        have hlast := List.getElem?_range (List.getElem?_eq_some_iff.mp hother).1
        have hzero := index_unique (doc.addedFor_nodup hall) hfirst hlast h hagain
        exact absurd hzero.symm hj

/-- A count beyond the partitions of a disk would add an empty identifier. -/
theorem Document.counted_le (doc : Document config disks) (hdisk : disks[i]? = some disk)
    (hfsx : disk.content ≠ some (text "Apple_HFSX")) :
    disk.counted ≤ disk.partitions.length := by
  by_contra hmore
  apply nil_not_mem_offers disks
  apply mem_offers_of_mem_addedFor hall hdisk
  rw [doc.addedFor_eq hdisk, if_neg hfsx]
  exact nil_mem_range_flatMap_offer (Nat.lt_of_not_le hmore)

/-- If the list as a whole is right, no disk adds anything that is not to be offered of it. -/
theorem Document.addedFor_sublist (doc : Document config disks)
    (hdisk : disks[i]? = some disk) : (addedFor config i).Sublist disk.offers := by
  by_cases hfsx : disk.content = some (text "Apple_HFSX")
  · rw [Disk.offers, if_pos hfsx]
    by_cases hi : i = 0
    · subst hi
      have hlt := (List.getElem?_eq_some_iff.mp hdisk).1
      have hparts := (List.nodup_flatMap.mp (doc.addedFor_nodup hall)).1
      rw [disk.offered_of_hfsx hfsx]
      exact sublist_singleton (hparts 0 (List.mem_range.mpr hlt)) fun id hid =>
        doc.eq_identifier_of_mem_addedFor hall hdisk hfsx hid
    · rw [doc.addedFor_eq hdisk, if_pos hfsx, if_neg hi]
  · rw [doc.addedFor_eq hdisk, if_neg hfsx, Disk.offers, if_neg hfsx,
      range_flatMap_offer (doc.counted_le hall hdisk hfsx)]
    conv_rhs => rw [← List.take_append_drop disk.counted disk.partitions, List.flatMap_append]
    exact List.sublist_append_left _ _

end Whole

theorem Document.retrieved_ids_eq (doc : Document config disks) (terminal : Terminal) :
    (retrieved terminal config).ids =
      (List.range disks.length).flatMap (addedFor config) := by
  have hdevices : ∀ id ∈ disks.map fun disk => disk.identifier, Device id := by
    intro id hid
    obtain ⟨disk, -, rfl⟩ := List.mem_map.mp hid
    exact disk.device
  have hcount := countDisks_wholeDisks hdevices
  rw [List.map_map, List.length_map] at hcount
  rw [retrieved_ids, doc.wholeDisks]
  exact congrArg (fun n => (List.range n).flatMap (addedFor config)) hcount

theorem Document.ids_eq_offers_iff (doc : Document config disks) (terminal : Terminal) :
    (retrieved terminal config).ids = offers disks ↔
      ∀ i disk, disks[i]? = some disk → CountedRight disks i disk := by
  rw [doc.retrieved_ids_eq]
  have hoffers : offers disks =
      (List.range disks.length).flatMap fun i => (disks[i]?).elim [] Disk.offers :=
    (flatMap_range_getElem? disks Disk.offers).symm
  constructor
  · intro hall i disk hdisk
    have hsub : ∀ k ∈ List.range disks.length,
        (addedFor config k).Sublist ((disks[k]?).elim [] Disk.offers) := by
      intro k hk
      have hk' := List.getElem?_eq_getElem (List.mem_range.mp hk)
      rw [hk']
      exact doc.addedFor_sublist hall hk'
    have hi := List.mem_range.mpr (List.getElem?_eq_some_iff.mp hdisk).1
    have hparts := eq_of_flatMap_eq hsub (hall.trans hoffers) i hi
    rw [hdisk] at hparts
    exact (doc.addedFor_eq_iff hdisk).mp hparts
  · intro hright
    rw [hoffers]
    apply List.flatMap_congr
    intro i hi
    have hdisk := List.getElem?_eq_getElem (List.mem_range.mp hi)
    rw [hdisk]
    exact (doc.addedFor_eq_iff hdisk).mpr (hright i _ hdisk)

/-- `disks_get` completes; the identifiers are those to be offered exactly if the lines with
`Dict` that are counted lead to the right entries of every disk. -/
theorem disksGet_offers_iff (terminal : Terminal) {buddy : PlistBuddy Plist}
    (hprints : buddy.Prints) {s : Session Plist} (doc : Document s.config disks) :
    ∃ primary t, disksGet OpenCore.plainOptions buddy s = .ok primary t ∧
      (((primary : Primary terminal).ids = offers disks ∧ primary.ids.Nodup) ↔
        ∀ i disk, disks[i]? = some disk → CountedRight disks i disk) := by
  obtain ⟨t, hrun, -⟩ := disksGet_reads hprints s rfl
  refine ⟨retrieved terminal s.config, t, hrun, ?_⟩
  rw [← doc.ids_eq_offers_iff terminal]
  constructor
  · exact fun h => h.1
  · intro h
    rw [h]
    exact ⟨rfl, doc.offers_nodup⟩

theorem single_line {value : Text} (h : (0x0A : UInt8) ∉ value) :
    ∀ other ∈ some value, (0x0A : UInt8) ∉ other := by
  intro other hother
  cases hother
  exact h

theorem volume_device : Device (text "disk0s1") := by decide +kernel

theorem volume_line : (0x0A : UInt8) ∉ text "Apple_HFS" := by decide +kernel

def volumeEntry (name : Text) : Entry where
  fields := [("Content", .string (text "Apple_HFS")),
    ("DeviceIdentifier", .string (text "disk0s1")), ("VolumeName", .string name)]
  identifier := text "disk0s1"
  content := some (text "Apple_HFS")
  device := volume_device
  identified := rfl
  holds := rfl
  line := single_line volume_line

theorem disk_device : Device (text "disk0") := by decide +kernel

theorem disk_line : (0x0A : UInt8) ∉ text "GUID_partition_scheme" := by decide +kernel

/-- A disk with one volume of this name. -/
def diskOf (name : Text) : Disk where
  fields := [("Content", .string (text "GUID_partition_scheme")),
    ("DeviceIdentifier", .string (text "disk0")),
    ("Partitions", .array [(volumeEntry name).plist])]
  identifier := text "disk0"
  content := some (text "GUID_partition_scheme")
  device := disk_device
  identified := rfl
  holds := rfl
  line := single_line disk_line
  partitions := [volumeEntry name]
  partitioned := Or.inl rfl

def documentOf (disks : List Disk) : Plist :=
  .dict [("AllDisksAndPartitions", .array (disks.map fun disk => disk.plist)),
    ("WholeDisks", .array (disks.map fun disk => .string disk.identifier))]

theorem documentOf_lists {disks : List Disk} (hdistinct : (disks.flatMap fun disk =>
    disk.identifier :: disk.partitions.map Entry.identifier).Nodup) :
    Document (documentOf disks) disks where
  listed := rfl
  wholeDisks := rfl
  distinct := hdistinct

def documentSession (disks : List Disk) : Session Plist where
  config := documentOf disks
  backup := none
  getval := []
  calls := 0
  looked := []
  edits := []

def plainTerminal : Terminal := ⟨[], []⟩

theorem startup_devices :
    Device (text "disk1") ∧ Device (text "disk1s1") ∧ Device (text "disk1s2") := by
  decide +kernel

theorem efi_line : (0x0A : UInt8) ∉ text "EFI" := by decide +kernel

def partitionOf {identifier content : Text} (device : Device identifier)
    (line : (0x0A : UInt8) ∉ content) : Entry where
  fields := [("Content", .string content), ("DeviceIdentifier", .string identifier)]
  identifier := identifier
  content := some content
  device := device
  identified := rfl
  holds := rfl
  line := single_line line

def startupPartitions : List Entry :=
  [partitionOf startup_devices.2.1 efi_line, partitionOf startup_devices.2.2 volume_line]

/-- A disk with an EFI partition and a volume. -/
def startupDisk : Disk where
  fields := [("Content", .string (text "GUID_partition_scheme")),
    ("DeviceIdentifier", .string (text "disk1")),
    ("Partitions", .array (startupPartitions.map Entry.plist))]
  identifier := text "disk1"
  content := some (text "GUID_partition_scheme")
  device := startup_devices.1
  identified := rfl
  holds := rfl
  line := single_line disk_line
  partitions := startupPartitions
  partitioned := Or.inl rfl

theorem countedRight_of_counted {disk : Disk} (hcontent : disk.content ≠ some (text "Apple_HFSX"))
    (hcounted : disk.counted = disk.partitions.length) (i : Nat) : CountedRight disks i disk := by
  rw [CountedRight, if_neg hcontent, hcounted, List.drop_length]
  exact ⟨Nat.le_refl _, fun _ hentry => absurd hentry List.not_mem_nil⟩

/-- The volumes of two disks are offered, the EFI partition is not. -/
theorem two_volumes_offered :
    ∃ primary t, disksGet OpenCore.plainOptions Plist.buddy
        (documentSession [diskOf (text "Backup"), startupDisk]) = .ok primary t ∧
      (primary : Primary plainTerminal).ids = [text "disk0s1", text "disk1s2"] := by
  have hdistinct : ([diskOf (text "Backup"), startupDisk].flatMap fun disk =>
      disk.identifier :: disk.partitions.map Entry.identifier).Nodup := by
    decide +kernel
  obtain ⟨primary, t, hrun, hids⟩ := disksGet_offers_iff plainTerminal Plist.buddy_lawful.prints
    (s := documentSession [diskOf (text "Backup"), startupDisk]) (documentOf_lists hdistinct)
  have hall : ∀ i disk, [diskOf (text "Backup"), startupDisk][i]? = some disk →
      CountedRight [diskOf (text "Backup"), startupDisk] i disk := by
    intro i disk hdisk
    rcases List.mem_pair.mp (List.mem_of_getElem? hdisk) with rfl | rfl
    · exact countedRight_of_counted (by decide +kernel) (by decide +kernel) i
    · exact countedRight_of_counted (by decide +kernel) (by decide +kernel) i
  have hoffers : offers [diskOf (text "Backup"), startupDisk] =
      [text "disk0s1", text "disk1s2"] := by
    decide +kernel
  exact ⟨primary, t, hrun, (hids.mpr hall).1.trans hoffers⟩

/-- The identifiers with which `disks_get` ends. -/
def retrievedIds (disks : List Disk) : Option (List Text) :=
  let run : ScriptM Plist (Primary plainTerminal) :=
    disksGet OpenCore.plainOptions Plist.buddy
  match run (documentSession disks) with
  | .ok primary _ => some primary.ids
  | .error _ _ => none

/-- A volume whose name contains `dict` is followed by an empty identifier. -/
theorem dictionary_volume_counted_twice :
    retrievedIds [diskOf (text "Dictionary")] = some [text "disk0s1", []] ∧
      offers [diskOf (text "Dictionary")] = [text "disk0s1"] := by
  decide +kernel

end Offers

end Disks

end Kryptonite
