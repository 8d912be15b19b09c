import CampusQuery.Proofs.Distinct
import CampusQuery.Query.Run
import Mathlib.Data.List.TakeWhile

namespace CampusQuery

namespace FieldName

theorem split?_qualify {id : String} (a : String) (h : '_' ∉ id.toList) :
    split? (qualify id a) = some (id, a) := by
  have hid : ∀ c ∈ id.toList, decide (c ≠ '_') = true := by
    intro c hc
    exact decide_eq_true fun he => h (he ▸ hc)
  have htake : (id.toList ++ '_' :: a.toList).takeWhile (· ≠ '_') = id.toList := by
    rw [List.takeWhile_append_of_pos hid]
    simp
  have hdrop : (id.toList ++ '_' :: a.toList).dropWhile (· ≠ '_') = '_' :: a.toList := by
    rw [List.dropWhile_append_of_pos hid]
    simp
  have hlist : (qualify id a).toList = id.toList ++ '_' :: a.toList := by
    simp [qualify]
  simp only [split?, hlist, htake, hdrop, String.ofList_toList]

theorem dataset?_qualify {id : String} (a : String) (h : '_' ∉ id.toList) :
    dataset? (qualify id a) = some id := by
  rw [dataset?, split?_qualify a h, Option.map_some]

theorem attributeName_qualify {id : String} (a : String) (h : '_' ∉ id.toList) :
    attributeName (qualify id a) = a := by
  rw [attributeName, split?_qualify a h, Option.elim_some]

theorem split?_eq_none {name : String} (h : '_' ∉ name.toList) : split? name = none := by
  have hdrop : name.toList.dropWhile (· ≠ '_') = [] := by
    rw [List.dropWhile_eq_nil_iff]
    intro c hc
    exact decide_eq_true fun he => h (he ▸ hc)
  simp only [split?, hdrop]

theorem mem_of_split? {name : String} {parts : String × String} (h : split? name = some parts) :
    '_' ∈ name.toList := by
  by_contra hn
  rw [split?_eq_none hn] at h
  cases h

theorem dataset?_eq_none {name : String} (h : '_' ∉ name.toList) : dataset? name = none := by
  rw [dataset?, split?_eq_none h, Option.map_none]

theorem eq_qualify_of_split? {name id a : String} (h : split? name = some (id, a)) :
    name = qualify id a := by
  unfold split? at h
  split at h
  · cases h
  · rename_i c rest hdrop
    cases h
    have hc : c = '_' := by
      have hhead := List.head?_dropWhile_not (fun c => decide (c ≠ '_')) name.toList
      rw [hdrop] at hhead
      simpa using hhead
    subst hc
    have hlist : (qualify (String.ofList (name.toList.takeWhile (· ≠ '_')))
        (String.ofList rest)).toList = name.toList.takeWhile (· ≠ '_') ++ '_' :: rest := by
      simp [qualify]
    rw [← String.toList_inj, hlist, ← hdrop, List.takeWhile_append_dropWhile]

theorem not_mem_of_split? {name id a : String} (h : split? name = some (id, a)) :
    '_' ∉ id.toList := by
  unfold split? at h
  split at h
  · cases h
  · cases h
    rw [String.toList_ofList]
    intro hmem
    simpa using List.mem_takeWhile_imp hmem

theorem exists_split? {name : String} (h : '_' ∈ name.toList) :
    ∃ parts, split? name = some parts := by
  unfold split?
  split
  · rename_i hdrop
    exact absurd rfl (of_decide_eq_true (List.dropWhile_eq_nil_iff.mp hdrop '_' h))
  · exact ⟨_, rfl⟩

theorem mem_qualify (id a : String) : '_' ∈ (qualify id a).toList := by
  simp [qualify]

end FieldName

namespace Query

theorem mem_datasetIds {q : Query} {id : String} :
    id ∈ q.datasetIds ↔ id ∈ q.names.filterMap FieldName.dataset? := by
  rw [datasetIds, List.mem_mergeSort, List.mem_eraseDups]

theorem nodup_datasetIds (q : Query) : q.datasetIds.Nodup :=
  (List.mergeSort_perm _ _).nodup_iff.mpr (Distinct.nodup_eraseDups _)

variable {q : Query}

theorem datasetId_of_nil (h : q.datasetIds = []) : q.datasetId = .error .noDataset := by
  rw [datasetId, h]

theorem datasetId_of_single {id : String} : q.datasetId = .ok id ↔ q.datasetIds = [id] := by
  unfold datasetId
  split <;> simp_all

theorem datasetId_of_many (h : 2 ≤ q.datasetIds.length) :
    q.datasetId = .error (.multipleDatasets q.datasetIds) := by
  unfold datasetId
  split <;> simp_all

theorem datasetId_eq_ok {id : String} :
    q.datasetId = .ok id ↔ ∀ other, other ∈ q.names.filterMap FieldName.dataset? ↔ other = id := by
  simp only [← mem_datasetIds]
  constructor
  · intro h
    unfold datasetId at h
    split at h
    · cases h
    · rename_i given hids
      cases h
      intro other
      rw [hids, List.mem_singleton]
    · cases h
  · intro h
    rw [datasetId, Distinct.eq_singleton q.nodup_datasetIds h]

theorem not_mem_of_datasetId {id : String} (h : q.datasetId = .ok id) : '_' ∉ id.toList := by
  have hid := (datasetId_eq_ok.mp h id).mpr rfl
  obtain ⟨name, -, hname⟩ := List.mem_filterMap.mp hid
  obtain ⟨⟨_, a⟩, hsplit, rfl⟩ := Option.map_eq_some_iff.mp hname
  exact FieldName.not_mem_of_split? hsplit

end Query

end CampusQuery
