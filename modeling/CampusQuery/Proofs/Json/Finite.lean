import CampusQuery.Json.Reader
import CampusQuery.Proofs.Number.Range

namespace CampusQuery

theorem Binary64.isFinite_ofInt {n : ℤ} (h : n.natAbs < 2 ^ 64) : (ofInt n).isFinite = true := by
  refine (within_ofRatio (k := 64) _ one_pos (by norm_num) ?_).isFinite
  rw [Nat.cast_one, div_one]
  exact_mod_cast h.le

theorem Numeral.natAbs_of_integer? {n : Numeral} {i : ℤ} (h : n.integer? = some i) :
    i.natAbs < 2 ^ 64 := by
  unfold integer? at h
  split at h
  · cases h
  · split at h
    · split at h
      · cases h
        omega
      · cases h
    · split at h
      · cases h
        omega
      · cases h

namespace Json

inductive Finite : Json → Prop
  | null : Finite .null
  | bool {b : Bool} : Finite (.bool b)
  | int {n : Int} (h : (Binary64.ofInt n).isFinite = true) : Finite (.int n)
  | double {x : Binary64} (h : x.isFinite = true) : Finite (.double x)
  | string {s : String} : Finite (.string s)
  | array {items : List Json} (h : ∀ v ∈ items, Finite v) : Finite (.array items)
  | object {members : List (String × Json)} (h : ∀ m ∈ members, Finite m.2) :
      Finite (.object members)

variable {v : Json}

theorem Finite.of_lookup {members : List (String × Json)} {name : String}
    (h : (Json.object members).Finite) (hv : members.lookup name = some v) : v.Finite := by
  cases h with
  | object h => exact h (name, v) (Keyed.mem_of_get? hv)

theorem Finite.of_single {name : String} (h : (Json.object [(name, v)]).Finite) : v.Finite := by
  cases h with
  | object h => exact h (name, v) List.mem_cons_self

theorem Finite.isFinite {x : Binary64} (h : v.Finite) (hx : v.number? = some x) :
    x.isFinite = true := by
  cases h with
  | int h =>
    cases hx
    exact h
  | double h =>
    cases hx
    exact h
  | _ => cases hx

theorem finite_of_ofNumeral? {n : Numeral} (h : ofNumeral? n = some v) : v.Finite := by
  unfold ofNumeral? at h
  split at h
  · rename_i i hi
    cases h
    exact .int (Binary64.isFinite_ofInt (Numeral.natAbs_of_integer? hi))
  · split at h
    · rename_i hfinite
      cases h
      exact .double hfinite
    · cases h

theorem mem_of_mem_ofPairs {pairs : List (String × Json)} {m : String × Json}
    (h : m ∈ Keyed.ofPairs pairs) : m ∈ pairs := by
  have hfold : ∀ given : Keyed Json, m ∈ pairs.foldl (fun g (k, v) => Keyed.insert k v g) given →
      m ∈ given ∨ m ∈ pairs := by
    clear h
    induction pairs with
    | nil => exact fun given h => .inl h
    | cons p pairs ih =>
      intro given h
      rcases ih _ h with h | h
      · rcases Keyed.eq_or_mem_of_mem_insert h with rfl | h
        · exact .inr List.mem_cons_self
        · exact .inl h
      · exact .inr (List.mem_cons_of_mem p h)
  exact (hfold [] h).resolve_left List.not_mem_nil

theorem finite_ofMembers {members : List (String × Json)} (h : ∀ m ∈ members, m.2.Finite) :
    (ofMembers members).Finite :=
  .object fun m hm => h m (mem_of_mem_ofPairs hm)

namespace Reading

def FiniteFrame : Frame → Prop
  | .array items => ∀ v ∈ items, v.Finite
  | .object members _ => ∀ m ∈ members, m.2.Finite

def Finite : Reading → Prop
  | document => True
  | item items outer | afterItem items outer =>
    (∀ v ∈ items, v.Finite) ∧ ∀ f ∈ outer, FiniteFrame f
  | key members outer | colon members _ outer | value members _ outer | afterMember members outer =>
    (∀ m ∈ members, m.2.Finite) ∧ ∀ f ∈ outer, FiniteFrame f
  | finished v => v.Finite

theorem finite_complete {frames : List Frame} (hv : v.Finite)
    (h : ∀ f ∈ frames, FiniteFrame f) : (complete v frames).Finite := by
  cases frames with
  | nil => exact hv
  | cons f outer =>
    rw [List.forall_mem_cons] at h
    cases f with
    | array items => exact ⟨List.forall_mem_cons.mpr ⟨hv, h.1⟩, h.2⟩
    | object members k => exact ⟨List.forall_mem_cons.mpr ⟨hv, h.1⟩, h.2⟩

theorem finite_start {limit : ℕ} {frames : List Frame} {t : Token} {r : Reading}
    (h : ∀ f ∈ frames, FiniteFrame f) (hr : start limit frames t = some r) : r.Finite := by
  unfold start at hr
  split at hr
  · cases hr
    exact finite_complete .null h
  · cases hr
    exact finite_complete .bool h
  · obtain ⟨v, hv, rfl⟩ := Option.map_eq_some_iff.mp hr
    exact finite_complete (finite_of_ofNumeral? hv) h
  · cases hr
    exact finite_complete .string h
  · split at hr
    · cases hr
      exact ⟨by simp, h⟩
    · cases hr
  · split at hr
    · cases hr
      exact ⟨by simp, h⟩
    · cases hr
  · cases hr

theorem finite_step {limit : ℕ} {r r' : Reading} {t : Token} (h : r.Finite)
    (hr : step limit r t = some r') : r'.Finite := by
  unfold step at hr
  -- One case for each state and each token that it takes.
  split at hr
  · exact finite_start (by simp) hr
  · cases hr
    exact finite_complete (.array (by simp)) h.2
  · refine finite_start ?_ hr
    exact List.forall_mem_cons.mpr ⟨h.1, h.2⟩
  · cases hr
    exact h
  · cases hr
    exact finite_complete (.array (by simpa using h.1)) h.2
  · cases hr
    exact finite_complete (.object (by simp)) h.2
  · cases hr
    exact h
  · cases hr
    exact h
  · refine finite_start ?_ hr
    exact List.forall_mem_cons.mpr ⟨h.1, h.2⟩
  · cases hr
    exact h
  · cases hr
    exact finite_complete (finite_ofMembers (by simpa using h.1)) h.2
  · cases hr

theorem finite_foldlM {limit : ℕ} {tokens : List Token} {r r' : Reading} (h : r.Finite)
    (hr : tokens.foldlM (step limit) r = some r') : r'.Finite := by
  induction tokens generalizing r with
  | nil =>
    cases hr
    exact h
  | cons t tokens ih =>
    rw [List.foldlM_cons] at hr
    obtain ⟨next, hnext, hr⟩ := Option.bind_eq_some_iff.mp hr
    exact ih (finite_step h hnext) hr

end Reading

/-- A number beyond the doubles is malformed. -/
theorem finite_of_read? {limit : ℕ} {cs : List Char} (h : read? limit cs = some v) :
    v.Finite := by
  unfold read? at h
  obtain ⟨tokens, -, h⟩ := Option.bind_eq_some_iff.mp h
  obtain ⟨r, hr, h⟩ := Option.bind_eq_some_iff.mp h
  have hdocument : Reading.document.Finite := trivial
  have hfinite := Reading.finite_foldlM hdocument hr
  split at h
  · cases h
    exact hfinite
  · cases h

end Json

end CampusQuery
