import CampusQuery.Proofs.Query.GroupRow
import CampusQuery.Proofs.Query.Ordering
import CampusQuery.Proofs.Query.Typing

namespace CampusQuery

open Outcome

theorem Comparison.holds_congr (op : Comparison) {x y : Binary64} (h : x.level? = y.level?)
    (z : Binary64) : op.holds x z = op.holds y z := by
  cases op with
  | less => simp only [holds, Binary64.lt, Binary64.relates, h]
  | greater => simp only [holds, Binary64.lt, Binary64.relates, h]
  | equal => simp only [holds, Binary64.same, Binary64.relates, h]

namespace Filter

theorem evalOperands_congr {r r' : Record} (op : Connective) {fs : List Filter}
    (h : ∀ f ∈ fs, f.eval r' = f.eval r) : evalOperands r' op fs = evalOperands r op fs := by
  induction fs with
  | nil => rfl
  | cons f fs ih =>
    rw [List.forall_mem_cons] at h
    rw [evalOperands, evalOperands, h.1, ih h.2]

variable {k : Kind} {id : String} (hid : '_' ∉ id.toList)
include hid

/-- A condition looks no further than the texts that records are grouped under. -/
theorem WellTyped.eval_congr {f : Filter} (h : f.WellTyped k id) {r r' : Record} (hr : r.Fits k)
    (hr' : r'.Fits k) (hsame : ∀ field ∈ f.fields,
      (r' (FieldName.attributeName field)).map Cell.keyText =
        (r (FieldName.attributeName field)).map Cell.keyText) :
    f.eval r' = f.eval r := by
  -- Numbers with one text compare alike, and texts are their own texts.
  induction h with
  | all => rw [eval, eval]
  | @connect op operands _ ih =>
    rw [eval, eval]
    apply evalOperands_congr
    intro f hf
    exact ih f hf fun field hfield => hsame field (by
      rw [fields, mem_fieldsOf]
      exact ⟨f, hf, hfield⟩)
  | @compare op field literal h =>
    obtain ⟨x, hx⟩ := Record.Fits.exists_number hid hr h
    obtain ⟨y, hy⟩ := Record.Fits.exists_number hid hr' h
    have htext := hsame field (by rw [fields]; exact List.mem_singleton_self field)
    rw [Record.number_eq_ok.mp hx, Record.number_eq_ok.mp hy, Option.map_some, Option.map_some,
      Option.some.injEq] at htext
    rw [eval, eval, hx, hy]
    exact congrArg Except.ok (op.holds_congr (Cell.numberText_eq_iff.mp htext) literal)
  | @like field pattern h =>
    obtain ⟨s, hs⟩ := Record.Fits.exists_text hid hr h
    obtain ⟨s', hs'⟩ := Record.Fits.exists_text hid hr' h
    have htext := hsame field (by rw [fields]; exact List.mem_singleton_self field)
    rw [Record.text_eq_ok.mp hs, Record.text_eq_ok.mp hs', Option.map_some, Option.map_some,
      Option.some.injEq] at htext
    obtain rfl : s' = s := htext
    rw [eval, eval, hs, hs']
  | @not operand _ ih => rw [eval_not, eval_not, ih fun field hfield => hsame field (by rwa [fields])]

end Filter

namespace Transform

variable {t : Transform} {records : List Record} {p : Record → Bool}

/-- The key of a group all of whose members have the property. -/
def keeps (t : Transform) (records : List Record) (p : Record → Bool) (key : List String) : Bool :=
  (t.members records key).all p

theorem members_filter {key : List String} (h : t.keeps records p key = true) :
    t.members (records.filter p) key = t.members records key := by
  have hcomm : t.members (records.filter p) key = (t.members records key).filter p :=
    List.filter_comm _ _ _
  rw [hcomm, List.filter_eq_self]
  exact List.all_eq_true.mp h

theorem groupRow_filter {columns key : List String} (h : t.keeps records p key = true) :
    t.groupRow columns (records.filter p) key = t.groupRow columns records key := by
  rw [groupRow, members_filter h, groupRow]

/-- Where members of one group have the property together, the groups left are those that have it. -/
theorem distinctKeys_filter (hkeys : ∀ r ∈ records, ∃ key, t.key? r = some key)
    (h : ∀ r ∈ records, ∀ r' ∈ records, t.key? r' = t.key? r → p r' = p r) :
    t.distinctKeys (records.filter p) = (t.distinctKeys records).filter (t.keeps records p) := by
  rw [distinctKeys, distinctKeys, ← Distinct.eraseDups_filter, List.filter_filterMap,
    List.filterMap_filter]
  congr 1
  apply List.filterMap_congr
  intro r hr
  obtain ⟨key, hkey⟩ := hkeys r hr
  have hkeeps : t.keeps records p key = p r := by
    rw [Bool.eq_iff_iff, keeps, List.all_eq_true]
    constructor
    · intro hall
      exact hall r (mem_members.mpr ⟨hr, hkey⟩)
    · intro hp r' hr'
      obtain ⟨hmem, hkey'⟩ := mem_members.mp hr'
      rw [h r hr r' hmem (hkey'.trans hkey.symm), hp]
  rw [hkey, Option.filter_some, hkeeps]

/-- The rows of the groups left are those that stand beside their keys. -/
theorem forall₂_groupRow_filter {columns : List String} {keyed : List (List String × Row)}
    (hkeys : ∀ r ∈ records, ∃ key, t.key? r = some key)
    (h : ∀ r ∈ records, ∀ r' ∈ records, t.key? r' = t.key? r → p r' = p r)
    (hfst : keyed.map (·.1) = t.distinctKeys records)
    (hrow : ∀ k ∈ keyed, t.groupRow columns records k.1 = .ok k.2) :
    List.Forall₂ (fun key row => t.groupRow columns (records.filter p) key = .ok row)
      (t.distinctKeys (records.filter p))
      ((keyed.filter fun k => t.keeps records p k.1).map (·.2)) := by
  have hkeys' : t.distinctKeys (records.filter p) =
      (keyed.filter fun k => t.keeps records p k.1).map (·.1) := by
    rw [distinctKeys_filter hkeys h, ← hfst, List.filter_map]
    rfl
  rw [hkeys', List.forall₂_map_left_iff, List.forall₂_map_right_iff, List.forall₂_same]
  intro k hk
  obtain ⟨hmem, hkeep⟩ := List.mem_filter.mp hk
  rw [groupRow_filter hkeep]
  exact hrow k hmem

end Transform

namespace Query

variable {q : Query} {t : Transform} {d : Dataset} {g : Filter}

def restrict (q : Query) (g : Filter) : Query := { q with filter := .connect .and [q.filter, g] }

theorem eval_restrict {r : Record} {b c : Bool} (hb : q.filter.eval r = .ok b)
    (hc : g.eval r = .ok c) : (q.restrict g).filter.eval r = .ok (b && c) := by
  rw [restrict, Filter.eval, Filter.evalOperands_cons_of_ok hb, Filter.evalOperands_cons_of_ok hc]
  cases b <;> cases c <;> rfl

/-- A condition on fields that the query names already is about the same dataset. -/
theorem resolve_restrict (ht : q.transform = some t) (h : ∀ field ∈ g.fields, field ∈ t.group)
    {store : Store} (hd : q.resolve store = .ok d) : (q.restrict g).resolve store = .ok d := by
  obtain ⟨id, hid, hget⟩ := resolve_eq_ok.mp hd
  refine resolve_eq_ok.mpr ⟨id, ?_, hget⟩
  rw [datasetId_eq_ok] at hid ⊢
  intro other
  rw [← hid other, List.mem_filterMap, List.mem_filterMap]
  have hnames : ∀ name, name ∈ (q.restrict g).names ↔ name ∈ q.names := by
    intro name
    have hgroup : name ∈ g.fields → name ∈ t.fields := fun hname =>
      List.mem_append_left _ (h name hname)
    simp only [names, restrict, ht, Filter.fields, Filter.fieldsOf, Option.elim_some, List.mem_append,
      List.append_nil]
    tauto
  simp only [hnames]

theorem select_restrict (h : ∀ r ∈ d.records, ∃ b, q.filter.eval r = .ok b)
    (hg : ∀ r ∈ d.records, ∃ b, g.eval r = .ok b) :
    (q.restrict g).filter.select d.records = .ok ((q.matching d).filter g.holds) := by
  rw [Filter.select_eq_ok, matching, List.filter_filter]
  constructor
  · intro r hr
    obtain ⟨b, hb⟩ := h r hr
    obtain ⟨c, hc⟩ := hg r hr
    exact ⟨_, eval_restrict hb hc⟩
  · apply List.filter_congr
    intro r hr
    obtain ⟨b, hb⟩ := h r hr
    obtain ⟨c, hc⟩ := hg r hr
    rw [Filter.holds_of_eval hb, Filter.holds_of_eval hc, Filter.holds_of_eval (eval_restrict hb hc),
      Bool.and_comm]

/-- A further condition on grouped fields leaves the rows of the groups that meet it, cell by cell
and in their order. -/
theorem execute_restrict {store : Store} {limit : Nat} {rows : List Row} (valid : q.check = .ok ())
    (ht : q.transform = some t) (hd : q.resolve store = .ok d)
    (h : q.execute store limit = .ok rows) (typed : g.WellTyped d.kind d.id)
    (fields : ∀ field ∈ g.fields, field ∈ t.group) :
    ∃ keyed, rows = keyed.map (·.2) ∧ t.IsKeyed q.columns (q.matching d) keyed ∧
      (∀ p ∈ keyed, ∃ b, ∀ r ∈ t.members (q.matching d) p.1, g.eval r = .ok b) ∧
      (q.restrict g).execute store limit =
        .ok ((keyed.filter fun p => t.keeps (q.matching d) g.holds p.1).map (·.2)) := by
  obtain ⟨d', hd', hanswer, hlimit⟩ := execute_eq_ok.mp h
  obtain rfl : d = d' := Except.ok.inj (hd ▸ hd')
  obtain ⟨grouped, sorted, hgrouped, rfl⟩ := exists_isGrouped ht hanswer
  have hcheck := (check_eq_ok.mp valid).2.2.2 t ht
  have hid := hgrouped.not_mem_id hcheck
  have hkeyed := hgrouped.isKeyed hcheck
  have hfits : ∀ r ∈ q.matching d, r.Fits d.kind := fun r hr => d.fits (List.mem_of_mem_filter hr)
  -- The fields of the further condition are grouped by, so it has one outcome on each group.
  have heval : ∀ r ∈ q.matching d, ∀ r' ∈ q.matching d, t.key? r' = t.key? r →
      g.eval r' = g.eval r := by
    intro r hr r' hr' hsame
    obtain ⟨key, hkey⟩ := hgrouped.keyed r hr
    apply typed.eval_congr hid (hfits r hr) (hfits r' hr')
    intro field hf
    exact (Transform.key?_eq_iff hkey).mp (hsame.trans hkey) field (fields field hf)
  refine ⟨sorted, rfl, hkeyed, ?_, ?_⟩
  · intro p hp
    have hkey := hkeyed.keys.mem_iff.mp (List.mem_map_of_mem (f := Prod.fst) hp)
    obtain ⟨r, hr⟩ := List.exists_mem_of_ne_nil _ (Transform.members_ne_nil hkey)
    obtain ⟨hmem, hrkey⟩ := Transform.mem_members.mp hr
    obtain ⟨b, hb⟩ := typed.exists_eval hid (hfits r hmem)
    refine ⟨b, fun r' hr' => ?_⟩
    obtain ⟨hmem', hrkey'⟩ := Transform.mem_members.mp hr'
    rw [heval r hmem r' hmem' (hrkey'.trans hrkey.symm), hb]
  · have hselect := select_restrict hgrouped.evaluated fun r hr => typed.exists_eval hid (d.fits hr)
    have hrows := Transform.forall₂_groupRow_filter (p := g.holds) hgrouped.keyed
      (fun r hr r' hr' hsame => by rw [Filter.holds, heval r hr r' hr' hsame, Filter.holds])
      hgrouped.keys hgrouped.row
    have hproject : (q.restrict g).project d ((q.matching d).filter g.holds) = .ok _ :=
      (project_grouped_eq_ok ht).mpr ⟨hgrouped.known,
        fun r hr => hgrouped.keyed r (List.mem_of_mem_filter hr), hrows⟩
    refine execute_eq_ok.mpr ⟨d, resolve_restrict ht fields hd, answer_eq_ok.mpr
      ⟨_, _, hselect, hproject, hgrouped.order _⟩, ?_⟩
    rw [List.length_map] at hlimit ⊢
    exact (List.length_filter_le _ _).trans hlimit

/-- Of two departments the one whose name begins with `a`. -/
theorem execute_restrict_bestByDept :
    let q : Query := ⟨.all, ["c_dept", "best"], some (.column "best"), some bestByDept⟩
    let store := Store.ofGrades [("a", .zero), ("b", .infinite true), ("a", .infinite false)]
    let d := Dataset.ofGrades [("a", .zero), ("b", .infinite true), ("a", .infinite false)]
    let g : Filter := .not (.like "c_dept" ⟨"b"⟩)
    ∃ keyed : List (List String × Row),
      [⟨[("c_dept", .text "b"), ("best", .number (.infinite true))]⟩,
       ⟨[("c_dept", .text "a"), ("best", .number (.infinite false))]⟩] = keyed.map (·.2) ∧
      bestByDept.IsKeyed q.columns (q.matching d) keyed ∧
      (∀ p ∈ keyed, ∃ b, ∀ r ∈ bestByDept.members (q.matching d) p.1, g.eval r = .ok b) ∧
      (q.restrict g).execute store 2 =
        .ok ((keyed.filter fun p => bestByDept.keeps (q.matching d) g.holds p.1).map (·.2)) := by
  intro q store d g
  have h : q.execute store 2 = .ok
      [⟨[("c_dept", .text "b"), ("best", .number (.infinite true))]⟩,
       ⟨[("c_dept", .text "a"), ("best", .number (.infinite false))]⟩] := by cbv
  have hfield : Kind.sections.HasField "c" "c_dept" .text := ⟨"dept", rfl, by decide⟩
  exact execute_restrict (by rfl) rfl (by cbv) h (.not (.like hfield)) (by decide)

end Query

end CampusQuery
