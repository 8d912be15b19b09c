import CampusQuery.Proofs.Dataset.RowReading
import CampusQuery.Proofs.Dataset.Rows
import CampusQuery.Proofs.Json.Finite

namespace CampusQuery

open Outcome

namespace Shape

variable {α β : Type} {given : Keyed Json} {v : Json}

theorem finite_align {s : Shape α} {title : String} (hv : v.Finite)
    (h : s.align title v = .ok given) : ∀ m ∈ given, m.2.Finite := by
  cases hv with
  | object hmembers =>
    obtain ⟨-, h⟩ := check_bind_eq_ok.mp h
    cases h
    exact hmembers
  | array hitems =>
    obtain ⟨-, h⟩ := check_bind_eq_ok.mp h
    rw [guard_eq_ok, guard_eq_ok, pure_eq_ok] at h
    obtain ⟨-, -, rfl⟩ := h
    intro m hm
    exact hitems m.2 (List.of_mem_zip hm).2
  | _ => cases h

/-- What is built from finite members has the property. -/
def Yields (s : Shape α) (P : α → Prop) : Prop :=
  ∀ ⦃given : Keyed Json⦄ ⦃a : α⦄, (∀ m ∈ given, m.2.Finite) → s.build given = .ok a → P a

theorem yields_any (s : Shape α) : s.Yields fun _ => True := fun _ _ _ _ => trivial

theorem Yields.seq {f : Shape (α → β)} {s : Shape α} {P : α → Prop} {Q : β → Prop}
    (hf : f.Yields fun g => ∀ a, P a → Q (g a)) (hs : s.Yields P) : (f <*> s).Yields Q := by
  intro given b hgiven h
  obtain ⟨g, hg, h⟩ := bind_eq_ok.mp h
  obtain ⟨a, ha, h⟩ := bind_eq_ok.mp h
  cases h
  exact hf hgiven hg a (hs hgiven ha)

theorem Yields.map {s : Shape α} {g : α → β} {P : α → Prop} {Q : β → Prop} (hs : s.Yields P)
    (h : ∀ a, P a → Q (g a)) : (g <$> s).Yields Q := by
  intro given b hgiven hb
  obtain ⟨_, hg, hb⟩ := bind_eq_ok.mp hb
  cases hg
  obtain ⟨a, ha, hb⟩ := bind_eq_ok.mp hb
  cases hb
  exact h a (hs hgiven ha)

theorem yields_real (name : String) :
    (required name Json.real).Yields (·.isFinite = true) := by
  intro given x hgiven h
  simp only [required] at h
  split at h
  · rename_i v hv
    have hfinite := hgiven _ (Keyed.mem_of_get? hv)
    rw [Json.real] at h
    split at h
    · rename_i hx
      cases h
      exact hfinite.isFinite hx
    · cases h
  · cases h

theorem Yields.read {s : Shape α} {P : α → Prop} (hs : s.Yields P) {title : String} {a : α}
    (hv : v.Finite) (h : s.read title v = .ok a) : P a := by
  obtain ⟨given, hgiven, h⟩ := bind_eq_ok.mp h
  exact hs (finite_align hv hgiven) h

end Shape

theorem CourseRow.yields_shape : shape.Yields (·.avg.isFinite = true) := by
  unfold shape
  iterate 4 refine .seq ?_ (Shape.yields_any _)
  refine .seq ?_ (Shape.yields_real "Avg")
  iterate 5 refine .seq ?_ (Shape.yields_any _)
  refine .map (Shape.yields_any _) ?_
  intros
  assumption

theorem Room.yields_shape : shape.Yields fun r => r.lat.isFinite = true ∧ r.lon.isFinite = true := by
  unfold shape
  iterate 4 refine .seq ?_ (Shape.yields_any _)
  refine .seq ?_ (Shape.yields_real "lon")
  refine .seq ?_ (Shape.yields_real "lat")
  iterate 4 refine .seq ?_ (Shape.yields_any _)
  refine .map (Shape.yields_any _) ?_
  intros
  exact ⟨by assumption, by assumption⟩

def Cell.IsFinite : Cell → Prop
  | .text _ => True
  | .number x => x.isFinite = true

def Record.IsFinite (r : Record) : Prop := ∀ ⦃name : String⦄ ⦃c : Cell⦄, r name = some c → c.IsFinite

theorem Attribute.isFinite_record {α : Type} {table : List (Attribute α)} {x : α}
    (h : ∀ a ∈ table, (a.cell x).IsFinite) : Record.IsFinite (record table x) := by
  intro name c hc
  obtain ⟨a, ha, rfl⟩ := Option.map_eq_some_iff.mp hc
  exact h a (List.mem_of_find?_eq_some ha)

theorem UInt32.isFinite_ofNat (n : UInt32) : (Binary64.ofNat n.toNat).isFinite = true :=
  (Binary64.within_ofNat (k := 32) (by norm_num) n.toNat_lt.le).isFinite

theorem Int32.isFinite_ofInt (n : Int32) : (Binary64.ofInt n.toInt).isFinite = true := by
  have hlow := n.le_toInt
  have hhigh := n.toInt_lt
  exact Binary64.isFinite_ofInt (by omega)

theorem Section.isFinite_record {s : Section} (h : s.avg.isFinite = true) : s.record.IsFinite := by
  apply Attribute.isFinite_record
  simp only [attributes, List.forall_mem_cons]
  exact ⟨trivial, trivial, trivial, trivial, trivial, Int32.isFinite_ofInt _, h,
    UInt32.isFinite_ofNat _, UInt32.isFinite_ofNat _, UInt32.isFinite_ofNat _, List.forall_mem_nil _⟩

theorem Room.isFinite_record {r : Room} (hlat : r.lat.isFinite = true)
    (hlon : r.lon.isFinite = true) : r.record.IsFinite := by
  apply Attribute.isFinite_record
  simp only [attributes, List.forall_mem_cons]
  exact ⟨trivial, trivial, trivial, trivial, trivial, hlat, hlon, UInt32.isFinite_ofNat _, trivial,
    trivial, trivial, List.forall_mem_nil _⟩

theorem CourseRow.avg_toSection {row : CourseRow} {s : Section} (h : row.toSection = .ok s) :
    s.avg = row.avg := by
  obtain ⟨year, -, rfl, -⟩ := toSection_eq_ok.mp h
  rfl

theorem Section.isFinite_of_row {row : Json} {s : Section} (hrow : row.Finite)
    (h : ofRow row = .ok s) : s.record.IsFinite := by
  obtain ⟨read, hread, h⟩ := ofRow_eq_ok.mp h
  apply isFinite_record
  rw [CourseRow.avg_toSection h]
  exact CourseRow.yields_shape.read hrow hread

theorem Room.isFinite_of_row {row : Json} {r : Room} (hrow : row.Finite)
    (h : ofRow row = .ok r) : r.record.IsFinite := by
  obtain ⟨hlat, hlon⟩ := Room.yields_shape.read hrow (ofRow_eq_ok.mp h).1
  exact isFinite_record hlat hlon

theorem Contents.ReadFrom.isFinite {c : Contents} {rows : List Json} (h : c.ReadFrom rows)
    (hrows : ∀ row ∈ rows, row.Finite) {r : Record} (hr : r ∈ c.records) : r.IsFinite := by
  cases c with
  | sections all =>
    obtain ⟨s, hs, rfl⟩ := List.mem_map.mp hr
    obtain ⟨row, hrow, hread⟩ := exists_of_mem_right h hs
    exact Section.isFinite_of_row (hrows row hrow) hread
  | rooms all =>
    obtain ⟨room, hroom, rfl⟩ := List.mem_map.mp hr
    obtain ⟨row, hrow, hread⟩ := exists_of_mem_right h hroom
    exact Room.isFinite_of_row (hrows row hrow) hread

end CampusQuery
