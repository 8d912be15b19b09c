import CampusQuery.Proofs.CommandLine.Agreement
import CampusQuery.Proofs.Json.Length
import CampusQuery.Proofs.Query.Finite

namespace CampusQuery

open Outcome Service

def Json.IsCell (v : Json) : Prop := (∃ s, v = .string s) ∨ ∃ x, v.number? = some x

theorem Json.not_isCell_null : ¬Json.null.IsCell := by
  rintro (⟨s, ⟨⟩⟩ | ⟨x, ⟨⟩⟩)

theorem Cell.isCell_settled_iff (c : Cell) : c.toJson.settled.IsCell ↔ c.IsFinite := by
  cases c with
  | text s => exact iff_of_true (.inl ⟨s, rfl⟩) trivial
  | number x =>
    rw [toJson]
    cases hx : x.exactInteger? with
    | some n =>
      refine iff_of_true (.inr ⟨_, rfl⟩) ?_
      cases x with
      | finite s m => exact rfl
      | _ => cases hx
    | none =>
      change (if x.isFinite then Json.double x else .null).IsCell ↔ x.isFinite = true
      by_cases hfinite : x.isFinite = true
      · rw [if_pos hfinite]
        exact iff_of_true (.inr ⟨x, rfl⟩) hfinite
      · rw [if_neg hfinite]
        exact iff_of_false Json.not_isCell_null hfinite

def Row.IsConsistent (row : Row) : Prop :=
  ∀ a ∈ row.cells, ∀ b ∈ row.cells, a.1 = b.1 → a.2 = b.2

theorem Row.isConsistent_of_forall₂ {read : String → Option Cell} {columns : List String} {row : Row}
    (h : List.Forall₂ (fun column cell => cell.1 = column ∧ read column = some cell.2) columns
      row.cells) : row.IsConsistent := by
  intro a ha b hb hname
  obtain ⟨_, -, rfl, hget⟩ := exists_of_mem_right h ha
  obtain ⟨_, -, rfl, hget'⟩ := exists_of_mem_right h hb
  rw [hname, hget', Option.some.injEq] at hget
  exact hget.symm

theorem Query.isConsistent_of_answer {q : Query} {d : Dataset} {rows : List Row}
    (h : q.answer d = .ok rows) : ∀ row ∈ rows, row.IsConsistent := by
  obtain ⟨selected, unordered, -, hproject, rfl⟩ := answer_eq_ok.mp h
  intro row hrow
  rw [(Order.elim_sort_perm q.order unordered).mem_iff] at hrow
  cases ht : q.transform with
  | none =>
    obtain ⟨columns, hcolumns, hrows⟩ := (project_eq_ok_of_ungrouped ht).mp hproject
    obtain ⟨r, -, hr⟩ := exists_of_mem_right hrows hrow
    exact Row.isConsistent_of_forall₂ (Record.isRow_of_project hcolumns hr)
  | some t =>
    obtain ⟨-, full, -, hrows⟩ := (project_eq_ok_of_transform ht).mp hproject
    obtain ⟨g, -, hg⟩ := exists_of_mem_right hrows hrow
    exact Row.isConsistent_of_forall₂ (Row.project_eq_ok.mp hg)

def Row.readMembers (row : Row) : List (String × Json) :=
  Keyed.ofPairs (row.cells.map fun cell => (cell.1, cell.2.toJson.settled))

theorem Row.settled_toJson (row : Row) : row.toJson.settled = .object row.readMembers := by
  rw [toJson, Json.settled, Json.settledMembers_eq_map, List.map_map]
  rfl

theorem Row.isCell_readMembers_iff {row : Row} (h : row.IsConsistent) :
    (∀ m ∈ row.readMembers, m.2.IsCell) ↔ row.IsFinite := by
  have hsource {m : String × Json} (hm : m ∈ row.readMembers) :
      ∃ cell ∈ row.cells, cell.1 = m.1 ∧ cell.2.toJson.settled = m.2 := by
    obtain ⟨cell, hcell, rfl⟩ := List.mem_map.mp (Json.mem_of_mem_ofPairs hm)
    exact ⟨cell, hcell, rfl, rfl⟩
  constructor
  · intro hmembers cell hcell
    have hkey : cell.1 ∈ Keyed.keys row.readMembers := by
      rw [readMembers, Keyed.mem_keys_ofPairs, List.map_map]
      exact List.mem_map_of_mem hcell
    obtain ⟨v, hv⟩ := Keyed.mem_keys.mp hkey
    have hmem := Keyed.mem_of_get? hv
    -- Of cells under one name the last is read, but they are the same.
    obtain ⟨cell', hcell', hname, hvalue⟩ := hsource hmem
    rw [h cell hcell cell' hcell' hname.symm, ← Cell.isCell_settled_iff, hvalue]
    exact hmembers _ hmem
  · intro hfinite m hm
    obtain ⟨cell, hcell, -, hvalue⟩ := hsource hm
    rw [← hvalue, Cell.isCell_settled_iff]
    exact hfinite cell hcell

namespace Service

variable {limits : ServiceLimits} {now : Timestamp} {r : Request} {s : Store}

/-- What an upload may load: records with finite numbers, no more than a body has bytes. -/
structure IsLoadable (limits : ServiceLimits) (d : Dataset) : Prop where
  finite : ∀ r ∈ d.records, r.IsFinite
  size : d.records.length ≤ limits.bodyLimit

theorem isLoadable_of_rows {rows : List Json} {d : Dataset}
    (hrows : Payload.rows limits.bodyLimit r = .ok rows) (h : d.contents.ReadFrom rows) :
    IsLoadable limits d := by
  obtain ⟨_, htext, hread⟩ := Payload.rows_eq_ok.mp hrows
  obtain ⟨-, hsize, rfl⟩ := Payload.text_eq_ok.mp htext
  have hfinite := Json.finite_of_read? hread
  constructor
  · intro record hrecord
    refine h.isFinite ?_ hrecord
    cases hfinite with
    | array hfinite => exact hfinite
  · have hlength : rows.length = d.records.length := h.length_eq
    exact hlength ▸ (Json.length_of_read? hread).trans hsize

theorem Reachable.isLoadable (reach : Reachable limits s) {id : String} {d : Dataset}
    (hd : s.get id = .ok d) : IsLoadable limits d := by
  induction reach generalizing id d with
  | empty => cases hd
  | @step s reach now r ih =>
    rcases handle_cases limits now r s with
      ⟨hsame, -⟩ | ⟨_, _, e, _, -, -, -, -, ⟨rows, hrows, hread⟩, hadd, -⟩ |
      ⟨_, id', -, -, -, hremove, -⟩
    · exact ih (hsame ▸ hd)
    · rw [(reach.reachable.adds hadd).get] at hd
      split at hd
      · cases hd
        exact isLoadable_of_rows hrows hread
      · exact ih hd
    · rw [(reach.reachable.removes hremove).get] at hd
      split at hd
      · cases hd
      · exact ih hd

theorem demand_of_query (hmethod : r.method = "POST") (hplace : Route.ofPath? r.path = some .query)
    (hok : (handle limits now r s).1.status = 200) : demand limits r = some .query := by
  refine demand_eq_some.mpr ⟨?_, .query, hplace, hmethod, rfl⟩
  by_contra hlong
  have hoptions : r.method ≠ "OPTIONS" := by
    rw [hmethod]
    decide
  rw [handle, respond, if_neg hoptions, if_pos (Bool.not_eq_false _ ▸ hlong)] at hok
  exact Nat.ne_of_beq_eq_false rfl hok

theorem exists_rows_of_query (hpost : demand limits r = some .query)
    (hok : (handle limits now r s).1.status = 200) : ∃ document rows,
      Payload.json limits.bodyLimit r = .ok document ∧
      Query.perform document s limits.query.maxRows = .ok rows ∧
      (handle limits now r s).1 = .ok (.array (rows.map Row.toJson)) := by
  cases hdocument : Payload.json limits.bodyLimit r with
  | error e =>
    rw [handle_eq_carryOut hpost, carryOut, query, hdocument] at hok
    exact absurd hok (Nat.ne_of_beq_eq_false rfl)
  | ok document =>
    cases hrows : Query.perform document s limits.query.maxRows with
    | error e =>
      rw [handle_eq_carryOut hpost, carryOut, query, hdocument] at hok
      simp only [hrows] at hok
      have hstatus := e.status_eq
      change e.status = 200 at hok
      omega
    | ok rows =>
      exact ⟨document, rows, rfl, hrows, by rw [handle_of_perform hpost hdocument hrows]⟩

theorem read?_ok_rows (rows : List Row) :
    Json.read? Json.maxDepth (Response.ok (.array (rows.map Row.toJson))).text.toList =
      some (.object [("result", .array ((rows.map Row.readMembers).map .object))]) := by
  have hfits := QueryCommand.fits_document Row.fits_toJson rows
  refine (hfits.read?_toText (by decide)).trans ?_
  simp only [QueryCommand.document, Json.settled, Json.settledMembers, Json.settledItems_eq_map,
    List.map_map, Function.comp_def, Row.settled_toJson]
  rfl

/-- In the body of a query that is answered with success, every cell of every row is read as a text
or a number, unless a sum or average among the columns goes beyond the doubles. -/
theorem Reachable.query_cells_iff (reach : Reachable limits s)
    (hlimit : limits.bodyLimit ≤ Settings.maxSize) (hmethod : r.method = "POST")
    (hplace : Route.ofPath? r.path = some .query) (hok : (handle limits now r s).1.status = 200) :
    ∃ (document : Json) (q : Query) (d : Dataset) (rows : List (List (String × Json))),
      Payload.json limits.bodyLimit r = .ok document ∧ Query.ofJson document = .ok q ∧
      q.resolve s = .ok d ∧
      Json.read? Json.maxDepth (handle limits now r s).1.text.toList =
        some (.object [("result", .array (rows.map .object))]) ∧
      ((∀ row ∈ rows, ∀ m ∈ row, m.2.IsCell) ↔ ¬q.Overflows d) := by
  obtain ⟨document, rows, hdocument, hrows, hresponse⟩ :=
    exists_rows_of_query (demand_of_query hmethod hplace hok) hok
  obtain ⟨q, hq, valid, hexecute⟩ := Query.perform_eq_ok.mp hrows
  obtain ⟨d, hd, hanswer, -⟩ := Query.execute_eq_ok.mp hexecute
  refine ⟨document, q, d, rows.map Row.readMembers, hdocument, hq, hd, ?_, ?_⟩
  · rw [hresponse, read?_ok_rows]
  · obtain ⟨id, hid, hget⟩ := Query.resolve_eq_ok.mp hd
    have hloadable := reach.isLoadable hget
    have hsize : d.records.length ≤ 2 ^ 64 := hloadable.size.trans (hlimit.trans (by decide))
    rw [← Query.isFinite_answer_iff valid hanswer hloadable.finite hsize, List.forall_mem_map]
    have hconsistent := Query.isConsistent_of_answer hanswer
    exact forall₂_congr fun row hrow => Row.isCell_readMembers_iff (hconsistent row hrow)

/-- The largest power of ten that is a double. -/
def large : Binary64 := .finite false ⟨9214871658872686752, by decide⟩

def largeSection : Section := ⟨"1", "", "", "", "a", 0, large, 0, 0, 0⟩

def largeRow : Json :=
  .object
    [("Audit", .int 0), ("Avg", .double large), ("Course", .string ""), ("Fail", .int 0),
     ("Pass", .int 0), ("Professor", .string ""), ("Subject", .string "a"), ("Title", .string ""),
     ("Year", .int 0), ("id", .string "1")]

def largeUpload : Request where
  method := "PUT"
  path := "/api/v1/dataset/c/sections"
  contentType := some "application/json"
  contentLength := none
  body := (Json.array [largeRow, largeRow]).toText

def meanQuery : Request where
  method := "POST"
  path := "/api/v1/query"
  contentType := some "application/json"
  contentLength := none
  body :=
    "\x7b\"WHERE\":\x7b\x7d,\"OPTIONS\":\x7b\"COLUMNS\":[\"c_dept\",\"m\"]\x7d," ++
    "\"TRANSFORMATIONS\":\x7b\"GROUP\":[\"c_dept\"]," ++
    "\"APPLY\":[\x7b\"m\":\x7b\"AVG\":\"c_avg\"\x7d\x7d]\x7d\x7d"

def meanDocument : Json :=
  .object
    [("OPTIONS", .object [("COLUMNS", .array [.string "c_dept", .string "m"])]),
     ("TRANSFORMATIONS",
       .object
         [("APPLY", .array [.object [("m", .object [("AVG", .string "c_avg")])]]),
          ("GROUP", .array [.string "c_dept"])]),
     ("WHERE", .object [])]

def largeLimits : ServiceLimits := ⟨⟨1⟩, 400⟩

def largeStore : Store :=
  .ready ⟨[("c", ⟨"c", .sections [largeSection, largeSection], .epoch⟩)]⟩

theorem read?_largeUpload :
    Json.read? Json.maxDepth largeUpload.body.toList = some (.array [largeRow, largeRow]) := by
  have hrow : largeRow.Fits 1 := by
    refine .object ?_
    simp only [List.forall_mem_cons]
    refine ⟨.int (by decide) (by decide), .double, .string, .int (by decide) (by decide),
      .int (by decide) (by decide), .string, .string, .string, .int (by decide) (by decide),
      .string, nofun⟩
  have hrows : (Json.array [largeRow, largeRow]).Fits 2 :=
    .array (List.forall_mem_cons.mpr ⟨hrow, List.forall_mem_singleton.mpr hrow⟩)
  exact hrows.read?_toText (by decide)

theorem reachable_largeStore : Reachable largeLimits largeStore := by
  have hdemand : demand largeLimits largeUpload = some (.upload "c" "sections") :=
    by decide +kernel
  have hrows : Payload.rows 400 largeUpload = .ok [largeRow, largeRow] :=
    Payload.rows_eq_ok.mpr
      ⟨_, Payload.text_eq_ok.mpr ⟨by decide +kernel, by decide +kernel, rfl⟩, read?_largeUpload⟩
  have hrow : Section.ofRow largeRow = .ok largeSection := by decide +kernel
  have huploaded : uploaded 400 .epoch "c" "sections" largeUpload =
      .ok ⟨"c", .sections [largeSection, largeSection], .epoch⟩ :=
    uploaded_eq_ok.mpr ⟨by decide, .sections, _, rfl, hrows,
      Dataset.ofRows_eq_ok.mpr ⟨rfl, rfl, rfl, .cons hrow (.cons hrow .nil)⟩⟩
  have hadd : Store.empty.add ⟨"c", .sections [largeSection, largeSection], .epoch⟩ =
      .ok (largeStore, ["c"]) := rfl
  have hstore : (handle largeLimits .epoch largeUpload .empty).2 = largeStore := by
    rw [handle_of_uploaded hdemand huploaded hadd]
  exact hstore ▸ .step .empty .epoch largeUpload

theorem json_meanQuery : Payload.json 400 meanQuery = .ok meanDocument :=
  Payload.json_eq_ok.mpr
    ⟨_, Payload.text_eq_ok.mpr ⟨by cbv, by decide +kernel, rfl⟩,
      Json.read?_of_scanWithin 60 (by cbv) (by cbv)⟩

/-- The sum of the grades is infinite, and so is the average. -/
theorem handle_meanQuery : (handle largeLimits .epoch meanQuery largeStore).1 =
    .ok (.array [Row.toJson ⟨[("c_dept", .text "a"), ("m", .number (.infinite false))]⟩]) := by
  have hrows : Query.perform meanDocument largeStore 1 =
      .ok [⟨[("c_dept", .text "a"), ("m", .number (.infinite false))]⟩] := by
    decide +kernel
  have hdemand : demand largeLimits meanQuery = some .query := by decide +kernel
  rw [handle_of_perform hdemand json_meanQuery hrows]
  rfl

theorem status_meanQuery : (handle largeLimits .epoch meanQuery largeStore).1.status = 200 := by
  rw [handle_meanQuery]
  rfl

theorem read?_meanQuery :
    Json.read? Json.maxDepth (handle largeLimits .epoch meanQuery largeStore).1.text.toList =
      some (.object [("result", .array [.object [("c_dept", .string "a"), ("m", .null)]])]) := by
  rw [handle_meanQuery]
  exact read?_ok_rows [⟨[("c_dept", .text "a"), ("m", .number (.infinite false))]⟩]

/-- The average is no cell, and so the two grades overflow. -/
theorem Reachable.query_cells_iff_large :
    meanQuery.method = "POST" ∧ Route.ofPath? meanQuery.path = some .query ∧
      (handle largeLimits .epoch meanQuery largeStore).1.status = 200 ∧
      ∃ q d, Payload.json 400 meanQuery = .ok meanDocument ∧ Query.ofJson meanDocument = .ok q ∧
        q.resolve largeStore = .ok d ∧ q.Overflows d := by
  have hplace : Route.ofPath? meanQuery.path = some .query := by decide +kernel
  obtain ⟨document, q, d, rows, hdocument, hq, hd, hread, hcells⟩ :=
    reachable_largeStore.query_cells_iff (by decide) rfl hplace status_meanQuery
  obtain rfl := Except.ok.inj (hdocument.symm.trans json_meanQuery)
  refine ⟨rfl, hplace, status_meanQuery, q, d, hdocument, hq, hd, ?_⟩
  by_contra hfits
  obtain ⟨row, hrow, hmembers⟩ : ∃ row ∈ rows, ("m", Json.null) ∈ row := by
    rw [read?_meanQuery] at hread
    simp only [Option.some.injEq, Json.object.injEq, List.cons.injEq, Prod.mk.injEq, true_and,
      Json.array.injEq, and_true] at hread
    obtain ⟨row, _, rfl, hrow, -⟩ := List.map_eq_cons_iff.mp hread.symm
    refine ⟨row, .head _, ?_⟩
    rw [Json.object.inj hrow]
    exact .tail _ (.head _)
  exact Json.not_isCell_null (hcells.mpr hfits row hrow _ hmembers)

/-- The average of the two grades is null in the body. -/
theorem meanQuery_not_isCell :
    Reachable largeLimits largeStore ∧ meanQuery.method = "POST" ∧
      Route.ofPath? meanQuery.path = some .query ∧
      (handle largeLimits .epoch meanQuery largeStore).1.status = 200 ∧
      ∃ row : List (String × Json),
        Json.read? Json.maxDepth (handle largeLimits .epoch meanQuery largeStore).1.text.toList =
          some (.object [("result", .array [.object row])]) ∧
        ∃ m ∈ row, ¬m.2.IsCell :=
  ⟨reachable_largeStore, rfl, by decide +kernel, status_meanQuery, _, read?_meanQuery,
    ("m", .null), .tail _ (.head _), Json.not_isCell_null⟩

end Service

end CampusQuery
