import CampusQuery.Keyed
import Mathlib.Data.List.Induction
import Mathlib.Data.String.Basic

namespace CampusQuery.Keyed

variable {β : Type} {m : Keyed β} {k : String} {v : β}

theorem get?_cons (k' : String) (v : β) (m : Keyed β) (k : String) :
    get? ((k', v) :: m) k = if k = k' then some v else m.get? k := by
  unfold get?
  by_cases h : k = k'
  · rw [if_pos h, h, List.lookup_cons_self]
  · rw [if_neg h, List.lookup_cons, beq_false_of_ne h]

theorem mem_keys : k ∈ m.keys ↔ ∃ v, m.get? k = some v := by
  induction m with
  | nil => simp [keys, get?]
  | cons p m ih =>
    obtain ⟨k', w⟩ := p
    have hcons : keys ((k', w) :: m) = k' :: keys m := rfl
    rw [hcons, List.mem_cons, get?_cons]
    by_cases h : k = k'
    · simp [h]
    · rw [if_neg h, ← ih, or_iff_right h]

theorem get?_eq_none : m.get? k = none ↔ k ∉ m.keys := by
  rw [mem_keys, Option.eq_none_iff_forall_ne_some, not_exists]

theorem contains_eq_false : m.contains k = false ↔ m.get? k = none := by
  rw [contains, Option.isSome_eq_false_iff, Option.isNone_iff_eq_none]

theorem contains_eq_true : m.contains k = true ↔ ∃ v, m.get? k = some v :=
  Option.isSome_iff_exists

theorem get?_insert (m : Keyed β) (k : String) (v : β) (k' : String) :
    (m.insert k v).get? k' = if k' = k then some v else m.get? k' := by
  induction m with
  | nil => exact get?_cons k v [] k'
  | cons p m ih =>
    obtain ⟨q, w⟩ := p
    rw [insert]
    split
    · exact get?_cons k v _ k'
    · rw [get?_cons q w]
      split
      · rename_i heq
        rw [get?_cons, ← heq]
        split <;> rfl
      · rename_i hne
        rw [get?_cons, ih]
        by_cases hk : k' = q
        · rw [if_pos hk, if_neg (hk ▸ Ne.symm hne), if_pos hk]
        · rw [if_neg hk, if_neg hk]

def Increasing (m : Keyed β) : Prop := m.Pairwise (·.1 < ·.1)

namespace Increasing

theorem keys (h : m.Increasing) : m.keys.Pairwise (· < ·) := List.pairwise_map.mpr h

theorem insert (h : m.Increasing) (k : String) (v : β) : (m.insert k v).Increasing := by
  induction m with
  | nil => exact List.pairwise_singleton _ _
  | cons p m ih =>
    obtain ⟨q, w⟩ := p
    obtain ⟨hq, hm⟩ := List.pairwise_cons.mp h
    rw [Keyed.insert]
    split_ifs with hlt heq
    · refine List.pairwise_cons.mpr ⟨fun p hp => ?_, h⟩
      rcases List.mem_cons.mp hp with rfl | hp
      · exact hlt
      · exact hlt.trans (hq p hp)
    · exact List.pairwise_cons.mpr ⟨heq ▸ hq, hm⟩
    · refine List.pairwise_cons.mpr ⟨fun p hp => ?_, ih hm⟩
      rcases eq_or_mem_of_mem_insert hp with rfl | hp
      · exact lt_of_le_of_ne (not_lt.mp hlt) (Ne.symm heq)
      · exact hq p hp

theorem erase (h : m.Increasing) (k : String) : (m.erase k).Increasing := by
  induction m with
  | nil => exact h
  | cons p m ih =>
    obtain ⟨hp, hm⟩ := List.pairwise_cons.mp h
    rw [Keyed.erase]
    split
    · exact hm
    · exact List.pairwise_cons.mpr ⟨fun q hq => hp q (mem_of_mem_erase hq), ih hm⟩

theorem get?_of_mem (h : m.Increasing) (hmem : (k, v) ∈ m) : m.get? k = some v := by
  induction m with
  | nil => cases hmem
  | cons p m ih =>
    obtain ⟨q, w⟩ := p
    obtain ⟨hq, hm⟩ := List.pairwise_cons.mp h
    rw [get?_cons]
    rcases List.mem_cons.mp hmem with heq | hmem
    · cases heq
      exact if_pos rfl
    · rw [if_neg (hq (k, v) hmem).ne', ih hm hmem]

theorem get?_erase (h : m.Increasing) (k k' : String) :
    (m.erase k).get? k' = if k' = k then none else m.get? k' := by
  induction m with
  | nil => exact (ite_self none).symm
  | cons p m ih =>
    obtain ⟨q, w⟩ := p
    obtain ⟨hq, hm⟩ := List.pairwise_cons.mp h
    rw [Keyed.erase, get?_cons q w]
    split
    · rename_i heq
      subst heq
      by_cases hk : k' = k
      · -- Behind its place the key does not come again.
        have habsent : k ∉ Keyed.keys m := fun hmem => by
          obtain ⟨v, hv⟩ := mem_keys.mp hmem
          exact lt_irrefl k (hq (k, v) (mem_of_get? hv))
        rw [if_pos hk, hk, ← get?_eq_none.mpr habsent]
      · rw [if_neg hk, if_neg hk]
    · rename_i hne
      rw [get?_cons, ih hm]
      by_cases hk : k' = q
      · rw [if_pos hk, if_neg (hk ▸ Ne.symm hne), if_pos hk]
      · rw [if_neg hk, if_neg hk]

end Increasing

theorem insert_map {γ : Type} (f : β → γ) (m : Keyed β) (k : String) (v : β) :
    (m.insert k v).map (fun p => (p.1, f p.2)) =
      insert k (f v) (m.map fun p => (p.1, f p.2)) := by
  induction m with
  | nil => rfl
  | cons p m ih =>
    rw [insert, List.map_cons, insert]
    split
    · rfl
    · split
      · rfl
      · rw [List.map_cons, ih]

theorem ofPairs_concat (pairs : List (String × β)) (p : String × β) :
    ofPairs (pairs ++ [p]) = (ofPairs pairs).insert p.1 p.2 := by
  rw [ofPairs, List.foldl_append]
  rfl

theorem mem_keys_ofPairs {pairs : List (String × β)} :
    k ∈ (ofPairs pairs).keys ↔ k ∈ pairs.map (·.1) := by
  induction pairs using List.reverseRecOn with
  | nil => rfl
  | append_singleton pairs p ih =>
    rw [ofPairs_concat, mem_keys, List.map_append, List.mem_append, ← ih, mem_keys]
    simp only [get?_insert]
    by_cases h : k = p.1
    · simp [h]
    · simp [h]

theorem ofPairs_map {γ : Type} (f : β → γ) (pairs : List (String × β)) :
    ofPairs (pairs.map fun p => (p.1, f p.2)) = (ofPairs pairs).map fun p => (p.1, f p.2) := by
  induction pairs using List.reverseRecOn with
  | nil => rfl
  | append_singleton pairs p ih =>
    rw [List.map_append, List.map_singleton, ofPairs_concat, ofPairs_concat, insert_map, ih]

theorem increasing_ofPairs (pairs : List (String × β)) : (ofPairs pairs).Increasing := by
  induction pairs using List.reverseRecOn with
  | nil => exact List.Pairwise.nil
  | append_singleton pairs p ih =>
    rw [ofPairs_concat]
    exact ih.insert p.1 p.2

theorem insert_of_forall_lt (h : ∀ p ∈ m, p.1 < k) (v : β) : m.insert k v = m ++ [(k, v)] := by
  induction m with
  | nil => rfl
  | cons p m ih =>
    rw [List.forall_mem_cons] at h
    rw [insert, if_neg h.1.asymm, if_neg h.1.ne', ih h.2, List.cons_append]

theorem Increasing.ofPairs_eq (h : m.Increasing) : ofPairs m = m := by
  induction m using List.reverseRecOn with
  | nil => rfl
  | append_singleton m p ih =>
    obtain ⟨hm, -, hlt⟩ := List.pairwise_append.mp h
    rw [ofPairs_concat, ih hm,
      insert_of_forall_lt fun q hq => hlt q hq p (List.mem_singleton_self p)]

theorem erase_insert (h : m.get? k = none) (v : β) : (m.insert k v).erase k = m := by
  induction m with
  | nil => exact if_pos rfl
  | cons p m ih =>
    obtain ⟨q, w⟩ := p
    rw [get?_cons] at h
    have hne : k ≠ q := fun heq => by
      rw [if_pos heq] at h
      cases h
    rw [if_neg hne] at h
    rw [insert]
    split
    · exact if_pos rfl
    · rw [erase, if_neg hne, ih h]

end CampusQuery.Keyed
