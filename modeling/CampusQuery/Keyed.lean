namespace CampusQuery

/-- Pairs of a key and a value. `insert` and `ofPairs` keep the keys increasing. -/
abbrev Keyed (β : Type) := List (String × β)

namespace Keyed

variable {β : Type}

/-- A value already under the key is replaced. -/
def insert (k : String) (v : β) : Keyed β → Keyed β
  | [] => [(k, v)]
  | (k', v') :: rest =>
    if k < k' then (k, v) :: (k', v') :: rest
    else if k = k' then (k, v) :: rest
    else (k', v') :: insert k v rest

def erase (k : String) : Keyed β → Keyed β
  | [] => []
  | (k', v') :: rest => if k = k' then rest else (k', v') :: erase k rest

def get? (m : Keyed β) (k : String) : Option β := m.lookup k

def contains (m : Keyed β) (k : String) : Bool := (m.get? k).isSome

def ofPairs (pairs : List (String × β)) : Keyed β :=
  pairs.foldl (fun m (k, v) => insert k v m) []

def keys (m : Keyed β) : List String := m.map (·.1)

variable {m : Keyed β} {k : String} {v : β} {p : String × β}

theorem mem_of_get? (h : m.get? k = some v) : (k, v) ∈ m := by
  obtain ⟨before, behind, hm, -⟩ := List.lookup_eq_some_iff.mp h
  rw [hm]
  simp

theorem eq_or_mem_of_mem_insert (h : p ∈ m.insert k v) : p = (k, v) ∨ p ∈ m := by
  induction m with
  | nil => exact .inl (List.mem_singleton.mp h)
  | cons q m ih =>
    rw [insert] at h
    split at h
    · exact List.mem_cons.mp h
    · split at h
      · exact (List.mem_cons.mp h).imp_right (List.mem_cons_of_mem q)
      · rcases List.mem_cons.mp h with rfl | h
        · exact .inr List.mem_cons_self
        · exact (ih h).imp_right (List.mem_cons_of_mem q)

theorem mem_of_mem_erase (h : p ∈ m.erase k) : p ∈ m := by
  induction m with
  | nil => exact h
  | cons q m ih =>
    rw [erase] at h
    split at h
    · exact List.mem_cons_of_mem q h
    · rcases List.mem_cons.mp h with rfl | h
      · exact List.mem_cons_self
      · exact List.mem_cons_of_mem q (ih h)

end Keyed

end CampusQuery
