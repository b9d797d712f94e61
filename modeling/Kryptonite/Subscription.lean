/-
Subscribers that wait for items.  An item goes to the first subscriber that
accepts it, and a subscriber leaves the list with its first item unless it is
one that stays.  Nothing is handed out twice and nothing gets lost: a subscriber
that does not stay either still waits or has had its item.
-/
import Mathlib.Data.List.Nodup

namespace Kryptonite

namespace Subscription

variable {σ ι : Type} (accepts : σ → ι → Bool) (stays : σ → Bool)

/-- The subscribers after one item, and the one that got it. -/
def present (item : ι) : List σ → List σ × Option σ
  | [] => ([], none)
  | s :: rest =>
      if accepts s item then (if stays s then s :: rest else rest, some s)
      else (s :: (present item rest).1, (present item rest).2)

/-- The subscribers after some items, and what was handed to whom. -/
def presentAll : List σ → List ι → List σ × List (σ × ι)
  | subscribers, [] => (subscribers, [])
  | subscribers, item :: items =>
      let after := present accepts stays item subscribers
      let rest := presentAll after.1 items
      (rest.1, (after.2.map (·, item)).toList ++ rest.2)

/-- What one subscriber got. -/
def handed [DecidableEq σ] (s : σ) (deliveries : List (σ × ι)) : List ι :=
  (deliveries.filter (·.1 = s)).map Prod.snd

/-- No item is accepted by two of the subscribers. -/
def Exclusive (subscribers : List σ) : Prop :=
  subscribers.Pairwise fun s t => ∀ item, accepts s item → ¬ accepts t item

variable {accepts stays} {subscribers : List σ} {item : ι} {s : σ}

section Present

theorem present_sublist : (present accepts stays item subscribers).1.Sublist subscribers := by
  induction subscribers with
  | nil => exact List.Sublist.refl []
  | cons t rest ih =>
      rw [present]
      split
      · split
        · exact List.Sublist.refl _
        · exact List.sublist_cons_self t rest
      · exact ih.cons_cons t

theorem present_taken (h : (present accepts stays item subscribers).2 = some s) :
    s ∈ subscribers ∧ accepts s item = true := by
  induction subscribers with
  | nil => cases h
  | cons t rest ih =>
      rw [present] at h
      split at h
      · next hacc =>
          cases h
          exact ⟨List.mem_cons_self, hacc⟩
      · exact ⟨List.mem_cons_of_mem t (ih h).1, (ih h).2⟩

theorem present_kept (h : (present accepts stays item subscribers).2 = some s)
    (hstays : stays s = true) : (present accepts stays item subscribers).1 = subscribers := by
  induction subscribers with
  | nil => rfl
  | cons t rest ih =>
      rw [present] at h ⊢
      split at h
      · next hacc =>
          cases h
          rw [if_pos hacc, if_pos hstays]
      · next hacc => rw [if_neg hacc, ih h]

/-- A subscriber that does not stay still waits, or it was handed the item. -/
theorem present_count [DecidableEq σ] (hstays : stays s = false) :
    (present accepts stays item subscribers).1.count s +
        (present accepts stays item subscribers).2.toList.count s = subscribers.count s := by
  induction subscribers with
  | nil => rfl
  | cons t rest ih =>
      rw [present]
      by_cases hacc : accepts t item = true
      · by_cases hkept : stays t = true
        · have hne : t ≠ s := fun heq => by simp [heq, hstays] at hkept
          simp [hacc, hkept, hne]
        · simp only [if_pos hacc, if_neg hkept, Option.toList_some, List.count_cons,
            List.count_nil, Nat.zero_add]
      · simp only [if_neg hacc, List.count_cons]
        omega

theorem present_other (h : accepts s item = false) :
    s ∈ (present accepts stays item subscribers).1 ↔ s ∈ subscribers := by
  induction subscribers with
  | nil => exact Iff.rfl
  | cons t rest ih =>
      rw [present]
      split
      · next hacc =>
          have hne : s ≠ t := fun heq => by simp [← heq, h] at hacc
          split <;> simp [hne]
      · simp only [List.mem_cons, ih]

theorem Exclusive.present (h : Exclusive accepts subscribers) :
    Exclusive accepts (present accepts stays item subscribers).1 :=
  List.Pairwise.sublist present_sublist h

/-- Among exclusive subscribers the one that accepts the item gets it. -/
theorem Exclusive.taken (h : Exclusive accepts subscribers) (hmem : s ∈ subscribers)
    (hacc : accepts s item = true) :
    (Subscription.present accepts stays item subscribers).2 = some s := by
  induction subscribers with
  | nil => cases hmem
  | cons t rest ih =>
      obtain ⟨hfirst, hrest⟩ := List.pairwise_cons.mp h
      rw [Subscription.present]
      rcases List.mem_cons.mp hmem with rfl | hmem
      · rw [if_pos hacc]
      · have hnot : ¬ accepts t item = true := fun ht => hfirst s hmem item ht hacc
        rw [if_neg hnot]
        exact ih hrest hmem

end Present

section PresentAll

variable {items : List ι}

theorem presentAll_append (items more : List ι) :
    presentAll accepts stays subscribers (items ++ more) =
      ((presentAll accepts stays (presentAll accepts stays subscribers items).1 more).1,
        (presentAll accepts stays subscribers items).2 ++
          (presentAll accepts stays (presentAll accepts stays subscribers items).1 more).2) := by
  induction items generalizing subscribers with
  | nil => rfl
  | cons item items ih =>
      simp only [List.cons_append, presentAll, ih, List.append_assoc]

theorem presentAll_subset {t : σ} (h : t ∈ (presentAll accepts stays subscribers items).1) :
    t ∈ subscribers := by
  induction items generalizing subscribers with
  | nil => exact h
  | cons item items ih => exact present_sublist.subset (ih h)

theorem mem_presentAll {delivery : σ × ι}
    (h : delivery ∈ (presentAll accepts stays subscribers items).2) :
    delivery.1 ∈ subscribers ∧ delivery.2 ∈ items ∧ accepts delivery.1 delivery.2 = true := by
  induction items generalizing subscribers with
  | nil => cases h
  | cons item items ih =>
      simp only [presentAll, List.mem_append, Option.mem_toList,
        Option.map_eq_some_iff] at h
      rcases h with ⟨s, htaken, rfl⟩ | h
      · obtain ⟨hmem, hacc⟩ := present_taken htaken
        exact ⟨hmem, List.mem_cons_self, hacc⟩
      · obtain ⟨hmem, hitem, hacc⟩ := ih h
        exact ⟨present_sublist.subset hmem, List.mem_cons_of_mem item hitem, hacc⟩

variable [DecidableEq σ]

/-- A subscriber that does not stay still waits as often as it was not handed
anything. -/
theorem presentAll_count (hstays : stays s = false) :
    (presentAll accepts stays subscribers items).1.count s +
        ((presentAll accepts stays subscribers items).2.map Prod.fst).count s =
      subscribers.count s := by
  induction items generalizing subscribers with
  | nil => simp [presentAll]
  | cons item items ih =>
      have hfirst : (present accepts stays item subscribers).1.count s +
          (present accepts stays item subscribers).2.toList.count s = subscribers.count s :=
        present_count hstays
      have hrest := @ih (present accepts stays item subscribers).1
      have hmap : (((present accepts stays item subscribers).2.map (·, item)).toList.map
          Prod.fst) = (present accepts stays item subscribers).2.toList := by
        cases (present accepts stays item subscribers).2 <;> rfl
      simp only [presentAll, List.map_append, List.count_append, hmap]
      omega

theorem handed_append (xs ys : List (σ × ι)) :
    handed s (xs ++ ys) = handed s xs ++ handed s ys := by
  simp [handed]

theorem length_handed (deliveries : List (σ × ι)) :
    (handed s deliveries).length = (deliveries.map Prod.fst).count s := by
  induction deliveries with
  | nil => rfl
  | cons delivery rest ih =>
      simp only [handed, List.length_map, List.filter_cons, List.map_cons, List.count_cons,
        beq_iff_eq] at ih ⊢
      by_cases heq : delivery.1 = s <;> simp [heq, ih]

theorem handed_absent (h : s ∉ subscribers) :
    handed s (presentAll accepts stays subscribers items).2 = [] := by
  rw [handed, List.map_eq_nil_iff, List.filter_eq_nil_iff]
  intro delivery hdelivery heq
  exact h (of_decide_eq_true heq ▸ (mem_presentAll hdelivery).1)

theorem present_gone (hnodup : subscribers.Nodup)
    (htaken : (present accepts stays item subscribers).2 = some s) (hstays : ¬ stays s = true) :
    s ∉ (present accepts stays item subscribers).1 := by
  have hcount : (present accepts stays item subscribers).1.count s +
      (present accepts stays item subscribers).2.toList.count s = subscribers.count s :=
    present_count (by simpa using hstays)
  have honce : subscribers.count s ≤ 1 := List.nodup_iff_count_le_one.mp hnodup s
  rw [htaken, Option.toList_some, List.count_singleton_self] at hcount
  exact List.count_eq_zero.mp (by omega)

/-- An item that the subscriber refuses is not handed to it. -/
theorem handed_untaken (h : ¬ accepts s item = true) :
    handed s ((present accepts stays item subscribers).2.map (·, item)).toList = [] := by
  cases htaken : (present accepts stays item subscribers).2 with
  | none => rfl
  | some t =>
      have hne : t ≠ s := fun heq => h (heq ▸ (present_taken htaken).2)
      simp [handed, hne]

/-- Exactly which items an exclusive subscriber is handed: all that it accepts
if it stays, the first of them otherwise. -/
theorem handed_presentAll (hexclusive : Exclusive accepts subscribers)
    (hnodup : subscribers.Nodup) (hmem : s ∈ subscribers) :
    handed s (presentAll accepts stays subscribers items).2 =
      if stays s then items.filter (accepts s) else (items.filter (accepts s)).take 1 := by
  induction items generalizing subscribers with
  | nil => simp [presentAll, handed]
  | cons item items ih =>
      have hafter : Exclusive accepts (present accepts stays item subscribers).1 :=
        hexclusive.present
      have hnodup' : (present accepts stays item subscribers).1.Nodup :=
        hnodup.sublist present_sublist
      simp only [presentAll, handed_append, List.filter_cons]
      by_cases hacc : accepts s item = true
      · have htaken : (present accepts stays item subscribers).2 = some s :=
          hexclusive.taken hmem hacc
        have hfirst : handed s ((some s).map (·, item)).toList = [item] := by simp [handed]
        rw [htaken, hfirst, if_pos hacc]
        by_cases hkept : stays s = true
        · have hstill : s ∈ (present accepts stays item subscribers).1 := by
            rwa [present_kept htaken hkept]
          rw [ih hafter hnodup' hstill, if_pos hkept, if_pos hkept, List.singleton_append]
        · rw [handed_absent (present_gone hnodup htaken hkept), if_neg hkept]
          rfl
      · have hother : accepts s item = false := by simpa using hacc
        rw [handed_untaken hacc, if_neg hacc, List.nil_append]
        exact ih hafter hnodup' ((present_other hother).mpr hmem)

end PresentAll

end Subscription

end Kryptonite
