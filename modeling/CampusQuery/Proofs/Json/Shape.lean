import CampusQuery.Json.Shape
import CampusQuery.Proofs.Keyed
import CampusQuery.Proofs.Outcome
import Mathlib.Data.List.Nodup

namespace CampusQuery

open Outcome

namespace Keyed

variable {β : Type}

def replace (k : String) (v : β) (m : Keyed β) : Keyed β :=
  m.map fun p => if p.1 = k then (k, v) else p

theorem replace_cons (k : String) (v : β) (p : String × β) (m : Keyed β) :
    replace k v (p :: m) = (if p.1 = k then (k, v) else p) :: m.replace k v := rfl

theorem replace_of_forall_ne {k : String} {m : Keyed β} (h : ∀ p ∈ m, p.1 ≠ k) (v : β) :
    m.replace k v = m := by
  rw [replace]
  conv_rhs => rw [← List.map_id m]
  exact List.map_congr_left fun p hp => if_neg (h p hp)

theorem get?_replace (m : Keyed β) (k : String) (v : β) (k' : String) :
    (m.replace k v).get? k' = if k' = k then (m.get? k).map fun _ => v else m.get? k' := by
  induction m with
  | nil => exact (ite_self none).symm
  | cons p m ih =>
    obtain ⟨q, w⟩ := p
    rw [replace_cons]
    by_cases hq : q = k
    · rw [if_pos hq, get?_cons, ih, hq, get?_cons, get?_cons]
      by_cases hk : k' = k
      · rw [if_pos hk, if_pos hk, if_pos rfl, Option.map_some]
      · rw [if_neg hk, if_neg hk, if_neg hk, if_neg hk]
    · rw [if_neg hq, get?_cons, ih, get?_cons, get?_cons]
      by_cases hk : k' = k
      · rw [if_pos hk, if_pos hk, if_neg (hk ▸ Ne.symm hq), if_neg (Ne.symm hq)]
      · rw [if_neg hk, if_neg hk]

theorem replace_replace (m : Keyed β) (k : String) (v w : β) :
    (m.replace k v).replace k w = m.replace k w := by
  rw [replace, replace, replace, List.map_map]
  refine List.map_congr_left fun p _ => ?_
  rw [Function.comp_apply]
  by_cases hp : p.1 = k
  · rw [if_pos hp, if_pos rfl, if_pos hp]
  · rw [if_neg hp, if_neg hp]

theorem eq_or_mem_of_mem_replace {k : String} {v : β} {m : Keyed β} {p : String × β}
    (h : p ∈ m.replace k v) : p = (k, v) ∨ p ∈ m := by
  obtain ⟨q, hq, rfl⟩ := List.mem_map.mp h
  split
  · exact .inl rfl
  · exact .inr hq

theorem zip_set {names : List String} (h : names.Nodup) (k : String) (v : β) (items : List β) :
    names.zip (items.set (names.idxOf k) v) = replace k v (names.zip items) := by
  induction names generalizing items with
  | nil => rfl
  | cons n names ih =>
    obtain ⟨hn, hnames⟩ := List.nodup_cons.mp h
    cases items with
    | nil => rfl
    | cons u items =>
      rw [List.zip_cons_cons, replace_cons]
      by_cases hk : n = k
      · have habsent : ∀ p ∈ names.zip items, p.1 ≠ k := by
          rintro p hp rfl
          exact hn (hk ▸ (List.of_mem_zip hp).1)
        rw [if_pos hk, hk, List.idxOf_cons_self, List.set_cons_zero, List.zip_cons_cons,
          replace_of_forall_ne habsent]
      · rw [if_neg hk, List.idxOf_cons_ne names hk, List.set_cons_succ, List.zip_cons_cons,
          ih hnames]

end Keyed

namespace Shape

variable {α β : Type} {s : Shape α} {given : Keyed Json} {v w : Json} {a : α}

def names (s : Shape α) : List String := s.members.map (·.name)

/-- An array of this length has an entry for each member that is required and none beyond the last
member. -/
def FitsLength (s : Shape α) (n : ℕ) : Prop :=
  (s.members.filter (·.required)).length ≤ n ∧ n ≤ s.members.length

instance (s : Shape α) (n : ℕ) : Decidable (s.FitsLength n) := inferInstanceAs (Decidable (_ ∧ _))

/-- The members of a value by name, those of an array by their place. -/
def entries? (s : Shape α) : Json → Option (Keyed Json)
  | .object given => some given
  | .array items => if s.FitsLength items.length then some (s.names.zip items) else none
  | _ => none

def member? (s : Shape α) (v : Json) (name : String) : Option Json :=
  (s.entries? v).bind (·.get? name)

def replace (s : Shape α) (name : String) (w : Json) : Json → Json
  | .object given => .object (Keyed.replace name w given)
  | .array items => .array (items.set (s.names.idxOf name) w)
  | v => v

theorem entries?_eq_some : s.entries? v = some given ↔ v = .object given ∨
    ∃ items, v = .array items ∧ s.FitsLength items.length ∧ given = s.names.zip items := by
  cases v with
  | object members => simp [entries?]
  | array items =>
    rw [entries?]
    split
    · simp_all [eq_comm]
    · simp_all
  | _ => simp [entries?]

theorem entries?_replace (hnames : s.names.Nodup) (name : String) (w v : Json) :
    s.entries? (s.replace name w v) = (s.entries? v).map (·.replace name w) := by
  cases v with
  | object members => rfl
  | array items =>
    rw [replace, entries?, entries?, List.length_set, Keyed.zip_set hnames]
    split <;> rfl
  | _ => rfl

theorem replace_replace (name : String) (w w' v : Json) :
    s.replace name w' (s.replace name w v) = s.replace name w' v := by
  cases v with
  | object members => exact congrArg Json.object (Keyed.replace_replace members name w w')
  | array items => rw [replace, replace, replace, List.set_set]
  | _ => rfl

theorem member?_replace_of_ne (hnames : s.names.Nodup) {name other : String} (hne : other ≠ name)
    (w v : Json) : s.member? (s.replace name w v) other = s.member? v other := by
  rw [member?, member?, entries?_replace hnames]
  cases s.entries? v with
  | none => rfl
  | some given => rw [Option.map_some, Option.bind_some, Option.bind_some, Keyed.get?_replace,
      if_neg hne]

theorem find?_name {members : List Member} (h : (members.map (·.name)).Nodup) {m : Member}
    (hm : m ∈ members) : members.find? (·.name == m.name) = some m := by
  have hsome : (members.find? (·.name == m.name)).isSome = true :=
    List.find?_isSome.mpr ⟨m, hm, beq_self_eq_true m.name⟩
  obtain ⟨m', hm'⟩ := Option.isSome_iff_exists.mp hsome
  have hname : m'.name = m.name := by simpa using List.find?_some hm'
  rw [hm', List.inj_on_of_nodup_map h (List.mem_of_find?_eq_some hm') hm hname]

/-- The entries of an array are checked as the members that they stand for. -/
theorem forall_check_zip (hnames : s.names.Nodup) (items : List Json) :
    (∀ p ∈ s.members.zip items, p.1.check p.2 = .ok ()) ↔
      ∀ p ∈ s.names.zip items, s.check p.1 p.2 = .ok () := by
  have hcheck : ∀ p ∈ s.members.zip items, s.check p.1.name p.2 = p.1.check p.2 := by
    intro p hp
    rw [check, find?_name hnames (List.of_mem_zip hp).1]
  rw [names, List.zip_map_left, List.forall_mem_map]
  exact forall₂_congr fun p hp => by rw [Prod.map_fst, Prod.map_snd, id, hcheck p hp]

theorem align_eq_ok (hnames : s.names.Nodup) {title : String} : s.align title v = .ok given ↔
    s.entries? v = some given ∧ ∀ m ∈ given, s.check m.1 m.2 = .ok () := by
  cases v with
  | object members =>
    rw [align, check_bind_eq_ok, forM_eq_ok, pure_eq_ok, entries?, Option.some.injEq, and_comm]
    exact and_congr_right fun h => by rw [h]
  | array items =>
    rw [align, check_bind_eq_ok, forM_eq_ok, guard_eq_ok, guard_eq_ok, pure_eq_ok, not_lt, not_lt,
      entries?, forall_check_zip hnames]
    by_cases hfits : s.FitsLength items.length
    · rw [if_pos hfits, Option.some.injEq, and_comm]
      constructor
      · rintro ⟨⟨-, -, rfl⟩, hcheck⟩
        exact ⟨rfl, hcheck⟩
      · rintro ⟨rfl, hcheck⟩
        exact ⟨⟨hfits.1, hfits.2, rfl⟩, hcheck⟩
    · rw [if_neg hfits]
      constructor
      · rintro ⟨-, hlow, hhigh, -⟩
        exact absurd ⟨hlow, hhigh⟩ hfits
      · rintro ⟨⟨⟩, -⟩
  | _ => simp [align, entries?, Json.wrongType]

theorem read_eq_ok (hnames : s.names.Nodup) {title : String} : s.read title v = .ok a ↔
    ∃ given, s.entries? v = some given ∧ (∀ m ∈ given, s.check m.1 m.2 = .ok ()) ∧
      s.build given = .ok a := by
  rw [read, bind_eq_ok]
  simp only [align_eq_ok hnames, and_assoc]

/-- A value is read as the object that it stands for. -/
theorem read_eq_ok_iff_object (hnames : s.names.Nodup) {title : String} : s.read title v = .ok a ↔
    ∃ given, s.entries? v = some given ∧ s.read title (.object given) = .ok a := by
  simp only [read_eq_ok hnames, entries?, Option.some.injEq, exists_eq_left']

/-- What is made of a value that is read is made of its object. -/
theorem exists_read_iff_object (hnames : s.names.Nodup) {title : String} {P : α → Prop} :
    (∃ a, s.read title v = .ok a ∧ P a) ↔ ∃ given, s.entries? v = some given ∧
      ∃ a, s.read title (.object given) = .ok a ∧ P a := by
  constructor
  · rintro ⟨a, ha, hP⟩
    obtain ⟨given, hgiven, hobject⟩ := (read_eq_ok_iff_object hnames).mp ha
    exact ⟨given, hgiven, a, hobject, hP⟩
  · rintro ⟨given, hgiven, a, hobject, hP⟩
    exact ⟨a, (read_eq_ok_iff_object hnames).mpr ⟨given, hgiven, hobject⟩, hP⟩

theorem build_seq_eq_ok {f : Shape (α → β)} {b : β} : (f <*> s).build given = .ok b ↔
    ∃ g a, f.build given = .ok g ∧ s.build given = .ok a ∧ g a = b := by
  constructor
  · intro h
    obtain ⟨g, hg, h⟩ := bind_eq_ok.mp h
    obtain ⟨a, ha, h⟩ := bind_eq_ok.mp h
    exact ⟨g, a, hg, ha, pure_eq_ok.mp h⟩
  · rintro ⟨g, a, hg, ha, rfl⟩
    exact bind_eq_ok.mpr ⟨g, hg, bind_eq_ok.mpr ⟨a, ha, rfl⟩⟩

theorem build_map_eq_ok {g : α → β} {b : β} :
    (g <$> s).build given = .ok b ↔ ∃ a, s.build given = .ok a ∧ g a = b := by
  constructor
  · intro h
    obtain ⟨_, a, hg, ha, rfl⟩ := build_seq_eq_ok.mp h
    cases hg
    exact ⟨a, ha, rfl⟩
  · rintro ⟨a, ha, rfl⟩
    exact build_seq_eq_ok.mpr ⟨g, a, rfl, ha, rfl⟩

def Gives (given : Keyed Json) (name : String) (read : Json → Except Mismatch α) (a : α) : Prop :=
  ∃ v, given.get? name = some v ∧ read v = .ok a

theorem build_required_eq_ok {name : String} {read : Json → Except Mismatch α} :
    (required name read).build given = .ok a ↔ Gives given name read a := by
  simp only [required, Gives]
  cases given.get? name <;> simp

theorem Gives.replace_of_ne {name k : String} {read : Json → Except Mismatch α}
    (h : Gives given name read a) (hne : name ≠ k) (w : Json) :
    Gives (given.replace k w) name read a := by
  obtain ⟨v, hv, ha⟩ := h
  exact ⟨v, by rw [Keyed.get?_replace, if_neg hne, hv], ha⟩

end Shape

end CampusQuery
