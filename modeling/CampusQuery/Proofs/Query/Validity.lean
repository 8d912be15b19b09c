import CampusQuery.Proofs.Outcome
import CampusQuery.Query.Validity
import Mathlib.Data.List.Nodup

namespace CampusQuery

open Outcome

theorem Order.check_eq_ok {o : Order} {columns : List String} :
    o.check columns = .ok () ↔ o.names ≠ [] ∧ ∀ key ∈ o.names, key ∈ columns := by
  unfold Order.check
  rw [guard_eq_ok, List.isEmpty_iff]
  apply and_congr_right
  intro _
  split
  · rename_i key hf
    have hkey : key ∉ columns := by simpa using List.find?_some hf
    have hmem := List.mem_of_find?_eq_some hf
    constructor
    · intro h
      cases h
    · intro h
      exact absurd (h key hmem) hkey
  · rename_i hf
    simpa using hf

namespace Transform

theorem isApplyKey_iff {key : String} :
    isApplyKey key = true ↔ key ≠ "" ∧ '_' ∉ key.toList := by
  simp [isApplyKey]

theorem checkRules_cons_eq_ok {used : List String} {r : Rule} {rules : List Rule} :
    checkRules used (r :: rules) = .ok () ↔ r.key ∉ used ∧ isApplyKey r.key = true ∧
      r.token.isUnknown = false ∧ checkRules (r.key :: used) rules = .ok () := by
  rw [checkRules, guard_eq_ok, guard_eq_ok, guard_eq_ok]
  simp

theorem checkRules_eq_ok {used : List String} {rules : List Rule} :
    checkRules used rules = .ok () ↔
      (rules.map Rule.key).Nodup ∧ ∀ r ∈ rules,
        r.key ∉ used ∧ isApplyKey r.key = true ∧ r.token.isUnknown = false := by
  induction rules generalizing used with
  | nil => simp [checkRules]
  | cons r rules ih =>
    -- A key that the rules behind may not use again is one that none of them has.
    have hlater : (∀ s ∈ rules, s.key ∉ r.key :: used ∧ isApplyKey s.key = true ∧
        s.token.isUnknown = false) ↔ r.key ∉ rules.map Rule.key ∧ ∀ s ∈ rules,
        s.key ∉ used ∧ isApplyKey s.key = true ∧ s.token.isUnknown = false := by
      simp only [List.mem_cons, not_or, List.mem_map, not_exists, not_and]
      constructor
      · intro h
        exact ⟨fun s hs he => (h s hs).1.1 he, fun s hs => ⟨(h s hs).1.2, (h s hs).2⟩⟩
      · rintro ⟨hr, h⟩ s hs
        exact ⟨⟨fun he => hr s hs he, (h s hs).1⟩, (h s hs).2⟩
    rw [checkRules_cons_eq_ok, ih, hlater, List.map_cons, List.nodup_cons, List.forall_mem_cons]
    tauto

theorem check_eq_ok {t : Transform} {columns : List String} :
    t.check columns = .ok () ↔ t.group ≠ [] ∧ t.keys.Nodup ∧
      (∀ r ∈ t.apply, isApplyKey r.key = true ∧ r.token.isUnknown = false) ∧
      ∀ c ∈ columns, c ∈ t.group ∨ c ∈ t.keys := by
  unfold check
  rw [guard_eq_ok, check_bind_eq_ok, checkRules_eq_ok, List.isEmpty_iff, ← keys, and_assoc]
  apply and_congr_right
  intro _
  apply and_congr_right
  intro _
  apply and_congr (by simp)
  split
  · rename_i c hf
    have hc : ¬(c ∈ t.group ∨ c ∈ t.keys) := by simpa [not_or] using List.find?_some hf
    have hmem := List.mem_of_find?_eq_some hf
    constructor
    · intro h
      cases h
    · intro h
      exact absurd (h c hmem) hc
  · rename_i hf
    simpa [or_iff_not_imp_left] using hf

end Transform

theorem Query.check_eq_ok {q : Query} :
    q.check = .ok () ↔ q.filter.check = .ok () ∧ q.columns ≠ [] ∧
      (∀ o, q.order = some o → o.check q.columns = .ok ()) ∧
      ∀ t, q.transform = some t → t.check q.columns = .ok () := by
  unfold Query.check
  rw [check_bind_eq_ok, guard_eq_ok, check_bind_eq_ok, List.isEmpty_iff]
  cases q.order <;> cases q.transform <;> simp

end CampusQuery
