import CampusQuery.Proofs.CommandLine.Agreement
import CampusQuery.Proofs.Json.Names
import CampusQuery.Proofs.Query.ErrorOrigin
import CampusQuery.Proofs.Query.Ordering

namespace CampusQuery

open Outcome Service

/-- The names in their order, each once. -/
def sortedNames (names : List String) : List String :=
  (Keyed.ofPairs (names.map fun name => (name, ()))).keys

theorem pairwise_sortedNames (names : List String) : (sortedNames names).Pairwise (· < ·) :=
  (Keyed.increasing_ofPairs _).keys

theorem sortedNames_eq_self_iff {names : List String} :
    sortedNames names = names ↔ names.Pairwise (· < ·) := by
  constructor
  · intro h
    exact h ▸ pairwise_sortedNames names
  · intro h
    have hincreasing : Keyed.Increasing (names.map fun name => (name, ())) := List.pairwise_map.mpr h
    rw [sortedNames, hincreasing.ofPairs_eq, Keyed.keys, List.map_map]
    exact List.map_id names

/-- The text is an answer of which every row lists the given names. -/
def ListsRows (text : String) (rows : List Row) (names : List String) : Prop :=
  Json.writtenNames? text = some (rows.map (fun _ => names) ++ [["result"]])

/-- A text that lists some names in its rows lists others only if it has no rows. -/
theorem ListsRows.iff_names {text : String} {rows : List Row} {names names' : List String}
    (h : ListsRows text rows names) : ListsRows text rows names' ↔ rows = [] ∨ names = names' := by
  rw [ListsRows, h, Option.some.injEq, List.append_left_inj]
  cases rows with
  | nil => simp
  | cons r rows => simp +contextual

theorem Cell.listed_toJson (c : Cell) : c.toJson.listed = [] := by
  cases c with
  | text s => rfl
  | number x =>
    rw [Cell.toJson]
    split <;> rfl

theorem listedMembers_cells (cells : List (String × Cell)) :
    Json.listedMembers (cells.map fun p => (p.1, p.2.toJson)) = [] := by
  rw [Json.listedMembers_eq_flatMap, List.flatMap_eq_nil_iff]
  intro m hm
  obtain ⟨p, -, rfl⟩ := List.mem_map.mp hm
  exact p.2.listed_toJson

theorem Row.listed_toJson (r : Row) : r.toJson.listed = [r.columns] := by
  rw [toJson, Json.listed, listedMembers_cells, List.map_map, List.nil_append]
  rfl

namespace QueryCommand

theorem listed_sortedRow (r : Row) : (sortedRow r).listed = [sortedNames r.columns] := by
  have hcells : Keyed.ofPairs (r.cells.map fun p => (p.1, p.2.toJson)) =
      (Keyed.ofPairs r.cells).map fun p => (p.1, p.2.toJson) := Keyed.ofPairs_map Cell.toJson r.cells
  have hnames : Keyed.ofPairs (r.columns.map fun name => (name, ())) =
      (Keyed.ofPairs r.cells).map fun p => (p.1, ()) := by
    rw [← Keyed.ofPairs_map (fun _ => ()) r.cells, Row.columns, List.map_map]
    rfl
  rw [sortedRow, Json.ofMembers, Json.listed, hcells, listedMembers_cells, sortedNames, hnames,
    Keyed.keys, List.map_map, List.map_map, List.nil_append]
  rfl

theorem listed_document (rows : List Json) :
    (document rows).listed = rows.flatMap Json.listed ++ [["result"]] := by
  rw [document, Json.listed, Json.listedMembers, Json.listedMembers, Json.listed,
    Json.listedItems_eq_flatMap, List.append_nil]
  rfl

theorem listed_answer {rows : List Row} {names : List String} {f : Row → Json}
    (h : ∀ r ∈ rows, (f r).listed = [names]) :
    (document (rows.map f)).listed = rows.map (fun _ => names) ++ [["result"]] := by
  rw [listed_document, List.flatMap_map, List.flatMap_congr h, ← List.map_eq_flatMap]

end QueryCommand

theorem Query.columns_of_perform {document : Json} {store : Store} {limit : ℕ} {q : Query}
    {rows : List Row} (hq : ofJson document = .ok q)
    (h : perform document store limit = .ok rows) : ∀ r ∈ rows, r.columns = q.columns := by
  obtain ⟨q', hq', -, hexecute⟩ := perform_eq_ok.mp h
  obtain rfl := Except.ok.inj (hq.symm.trans hq')
  obtain ⟨d, -, hanswer, -⟩ := execute_eq_ok.mp hexecute
  obtain ⟨matching, unordered, -, hproject, rfl⟩ := answer_eq_ok.mp hanswer
  intro r hr
  rw [(Order.elim_sort_perm q.order unordered).mem_iff] at hr
  exact columns_of_project hproject hr

namespace QueryCommand

variable {limits : ServiceLimits} {files : Files} {now time : Timestamp} {c : QueryCommand}
  {document : Json} {store : Store} {q : Query} {rows : List Row} {names : List String}

def printed (rows : List Row) : String :=
  (QueryCommand.document (rows.map sortedRow)).toIndentedText ++ "\n"

theorem run_of_perform (hmaxRows : c.limits.maxRows ≠ 0) (hloaded : c.loaded files now = .ok store)
    (hfile : readJson files c.queryFile = .ok document)
    (hrows : Query.perform document store c.limits.maxRows = .ok rows) :
    (Command.query c).run files now = .ok (printed rows) := by
  change c.run files now = _
  rw [run, answer_eq hmaxRows, hloaded, ok_bind, queried, hfile, ok_bind, hrows]
  rfl

theorem listsRows_printed (h : ∀ r ∈ rows, r.columns = names) :
    ListsRows (printed rows) rows (sortedNames names) := by
  rw [ListsRows, printed, (fits_document fits_sortedRow rows).writtenNames?_toIndentedText,
    listed_answer fun r hr => (listed_sortedRow r).trans (by rw [h r hr])]

theorem listsRows_sent (h : ∀ r ∈ rows, r.columns = names) :
    ListsRows (Response.ok (.array (rows.map Row.toJson))).text rows names := by
  have hnames := (fits_document Row.fits_toJson rows).writtenNames?_toText
  rw [listed_answer fun r hr => r.listed_toJson.trans (by rw [h r hr])] at hnames
  exact hnames

/-- The service writes every row with exactly the columns that are asked for, in their order. The
command line sorts and merges them, so it does so too only for columns that increase. -/
theorem written_columns (hq : Query.ofJson document = .ok q)
    (hrows : Query.perform document store limits.query.maxRows = .ok rows) :
    (∀ post time, demand limits post = some .query →
      Payload.json limits.bodyLimit post = .ok document →
      (handle limits time post store).1.status = 200 ∧
        ListsRows (handle limits time post store).1.text rows q.columns) ∧
    ∀ (c : QueryCommand) (files : Files) (now : Timestamp), c.limits = limits.query →
      c.limits.maxRows ≠ 0 → c.loaded files now = .ok store →
      readJson files c.queryFile = .ok document →
      ∃ text, (Command.query c).run files now = .ok text ∧
        ListsRows text rows (sortedNames q.columns) ∧
        (ListsRows text rows q.columns ↔ rows = [] ∨ q.columns.Pairwise (· < ·)) := by
  have hcolumns := Query.columns_of_perform hq hrows
  constructor
  · intro post time hpost hbody
    rw [handle_of_perform hpost hbody hrows]
    exact ⟨rfl, listsRows_sent hcolumns⟩
  · intro c files now hlimits hmaxRows hloaded hfile
    have hsorted := listsRows_printed hcolumns
    refine ⟨_, run_of_perform hmaxRows hloaded hfile (hlimits ▸ hrows), hsorted, ?_⟩
    rw [hsorted.iff_names, sortedNames_eq_self_iff]

theorem loaded_roomCommand (h : roomSupply.Offers roomLimits files .rooms) :
    roomCommand.loaded files .epoch = .ok roomStore := by
  have hload : load files .epoch .rooms .empty roomSupply.file = .ok roomStore :=
    (load_eq_ok h).mpr ⟨_, _, ofRows_plainRow .epoch, add_roomSupply⟩
  change [roomSupply.file].foldlM (load files .epoch .rooms) .empty = .ok roomStore
  rw [List.foldlM_cons, hload]
  rfl

theorem readJson_of_read? {path text : String} {v : Json} (h : files path = .ok text)
    (hv : Json.read? Json.maxDepth text.toList = some v) : readJson files path = .ok v := by
  rw [readJson, h, ok_mapError, ok_bind]
  simp only [hv]
  rfl

/-- Seats before names, and once more. -/
def seatsQuery : Request :=
  { nameQuery with
    body :=
      "\x7b\"WHERE\":\x7b\x7d," ++
      "\"OPTIONS\":\x7b\"COLUMNS\":[\"a_seats\",\"a_name\",\"a_seats\"]\x7d\x7d" }

def seatsColumns : List String := ["a_seats", "a_name", "a_seats"]

def seatsDocument : Json :=
  .object [("OPTIONS", .object [("COLUMNS", .array (seatsColumns.map .string))]),
    ("WHERE", .object [])]

def seatsRow : Row :=
  ⟨[("a_seats", .number .zero), ("a_name", .text ""), ("a_seats", .number .zero)]⟩

def seatsFiles : Files := fun path =>
  if path = "r.json" then .ok roomUpload.body else .ok seatsQuery.body

theorem read?_seatsQuery : Json.read? Json.maxDepth seatsQuery.body.toList = some seatsDocument :=
  Json.read?_of_scanWithin 30 (by cbv) (by cbv)

theorem ofJson_seatsDocument :
    Query.ofJson seatsDocument = .ok ⟨.all, seatsColumns, none, none⟩ := by cbv

theorem perform_seatsDocument :
    Query.perform seatsDocument roomStore roomLimits.query.maxRows = .ok [seatsRow] := by cbv

theorem readJson_seatsFiles : readJson seatsFiles "q.json" = .ok seatsDocument :=
  readJson_of_read? (if_neg (by decide)) read?_seatsQuery

theorem loaded_seatsFiles : roomCommand.loaded seatsFiles .epoch = .ok roomStore := by
  have hrowsFile : readJson seatsFiles "r.json" = .ok (.array [plainRow]) :=
    readJson_of_read? (if_pos rfl) read?_roomUpload
  exact loaded_roomCommand ⟨demand_roomUpload, rows_roomUpload, _, hrowsFile, rfl⟩

/-- The service keeps both places of the seats. In print they are one, behind the name. -/
theorem written_columns_seatsQuery :
    ListsRows (handle roomLimits .epoch seatsQuery roomStore).1.text [seatsRow]
        ["a_seats", "a_name", "a_seats"] ∧
      ∃ text, (Command.query roomCommand).run seatsFiles .epoch = .ok text ∧
        ListsRows text [seatsRow] ["a_name", "a_seats"] ∧
        ¬ListsRows text [seatsRow] ["a_seats", "a_name", "a_seats"] := by
  have hpost : demand roomLimits seatsQuery = some .query := by cbv
  have hbody : Payload.json 200 seatsQuery = .ok seatsDocument :=
    Payload.json_eq_ok.mpr
      ⟨_, Payload.text_eq_ok.mpr ⟨by cbv, by decide +kernel, rfl⟩, read?_seatsQuery⟩
  obtain ⟨hsent, hprinted⟩ := written_columns ofJson_seatsDocument perform_seatsDocument
  obtain ⟨text, htext, hsorted, hiff⟩ := hprinted roomCommand seatsFiles .epoch rfl one_ne_zero
    loaded_seatsFiles readJson_seatsFiles
  exact ⟨(hsent seatsQuery .epoch hpost hbody).2, text, htext, hsorted, hiff.not.mpr (by decide)⟩

/-- The names of columns are printed in their own order, whatever order is asked for. -/
theorem run_seatsFiles : ∃ (c : QueryCommand) (files : Files) (document : Json) (q : Query)
    (store : Store) (rows : List Row) (text : String), c.loaded files .epoch = .ok store ∧
      readJson files c.queryFile = .ok document ∧ Query.ofJson document = .ok q ∧
      Query.perform document store c.limits.maxRows = .ok rows ∧
      (Command.query c).run files .epoch = .ok text ∧ ¬ListsRows text rows q.columns := by
  refine ⟨roomCommand, seatsFiles, seatsDocument, _, roomStore, _, _, loaded_seatsFiles,
    readJson_seatsFiles, ofJson_seatsDocument, perform_seatsDocument,
    run_of_perform one_ne_zero loaded_seatsFiles readJson_seatsFiles perform_seatsDocument, ?_⟩
  have hcolumns := Query.columns_of_perform ofJson_seatsDocument perform_seatsDocument
  rw [(listsRows_printed hcolumns).iff_names]
  decide

end QueryCommand

end CampusQuery
