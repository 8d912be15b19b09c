import CampusQuery.Query.Run
import CampusQuery.Settings

namespace CampusQuery

structure FileSource where
  id : String
  path : String
deriving DecidableEq, Repr

structure QueryCommand where
  queryFile : String
  sections : List FileSource
  rooms : List FileSource
  limits : QueryLimits
deriving DecidableEq, Repr

inductive Command where
  | banner
  | version
  | help
  | query (q : QueryCommand)
  | validate (queryFile : String)
deriving DecidableEq, Repr

namespace Arguments

/-- Arguments sorted into options with their values and positional ones, up to a call for help. -/
structure Sorted where
  options : List (String × String) := []
  positional : List String := []
  help : Bool := false
deriving DecidableEq, Repr

/-- A cluster of flags of one letter, of which `letter` is the first. -/
def isCluster (letter : Char) (arg : String) : Bool :=
  match arg.toList with
  | '-' :: c :: _ => c = letter
  | _ => false

def asksHelp (arg : String) : Bool := arg = "--help" || isCluster 'h' arg

def asksVersion (arg : String) : Bool := arg = "--version" || isCluster 'V' arg

def splitOption? (arg : String) : Option (String × Option String) :=
  match arg.toList with
  | '-' :: '-' :: rest =>
    let name := String.ofList (rest.takeWhile (· ≠ '='))
    match rest.dropWhile (· ≠ '=') with
    | _ :: value => some (name, some (String.ofList value))
    | [] => some (name, none)
  | _ => none

/-- A lone dash is a value, other words that start with one are not. -/
def isValue (arg : String) : Bool := arg = "-" || arg.toList.head? ≠ some '-'

def Sorted.addOption (name value : String) (s : Sorted) : Sorted :=
  { s with options := (name, value) :: s.options }

def Sorted.addPositional (arg : String) (s : Sorted) : Sorted :=
  { s with positional := arg :: s.positional }

/-- Behind two dashes all arguments are positional. -/
def sort? (known : List String) : List String → Option Sorted
  | [] => some {}
  | "--" :: rest => some { positional := rest }
  | arg :: rest =>
    if asksHelp arg then some { help := true }
    else match splitOption? arg with
    | some (name, some value) =>
      if known.contains name then (sort? known rest).map (.addOption name value) else none
    | some (name, none) =>
      match rest with
      | value :: rest =>
        if known.contains name && isValue value then
          (sort? known rest).map (.addOption name value)
        else none
      | [] => none
    | none => if isValue arg then (sort? known rest).map (.addPositional arg) else none

def valuesOf (name : String) (s : Sorted) : List String :=
  (s.options.filter (·.1 == name)).map (·.2)

/-- The id before the first equals sign and the path behind it, neither of them empty. -/
def source? (arg : String) : Option FileSource :=
  let cs := arg.toList
  let id := cs.takeWhile (· ≠ '=')
  let path := (cs.dropWhile (· ≠ '=')).drop 1
  if id.isEmpty ∨ path.isEmpty then none else some ⟨String.ofList id, String.ofList path⟩

def single? : List String → Option (Option String)
  | [] => some none
  | [value] => some (some value)
  | _ => none

def path? (s : Sorted) : Option (Option String) := (single? s.positional).filter (· ≠ some "")

def limitVariable : String := "INSIGHT_MAX_RESULT_ROWS"

def limits? (maxRows : Option String) : Option QueryLimits :=
  (Settings.number Settings.maxSize QueryLimits.standard.maxRows maxRows).toOption.map (⟨·⟩)

/-- What stands before a call for help has to be in order; what is missing does not matter then, nor
does the environment. -/
def query? (args : List String) (env : String → Option String) : Option Command := do
  let s ← sort? ["sections", "rooms", "max-rows"] args
  let sections ← (valuesOf "sections" s).mapM source?
  let rooms ← (valuesOf "rooms" s).mapM source?
  let path ← path? s
  let maxRows ← single? (valuesOf "max-rows" s)
  let limits ← limits? (if s.help then maxRows else maxRows <|> env limitVariable)
  if s.help then return .help
  return .query { queryFile := ← path, sections, rooms, limits }

def validate? (args : List String) : Option Command := do
  let s ← sort? [] args
  let path ← path? s
  if s.help then return .help
  return .validate (← path)

def isTopic : List String → Bool
  | [] => true
  | [name] => ["query", "validate", "help"].contains name
  | _ => false

end Arguments

def Command.ofArgs? (args : List String) (env : String → Option String) : Option Command :=
  match args with
  | [] | ["--"] => some .banner
  | "query" :: rest => Arguments.query? rest env
  | "validate" :: rest => Arguments.validate? rest
  | "help" :: topic => if Arguments.isTopic topic then some .help else none
  | arg :: _ =>
    if Arguments.asksVersion arg then some .version
    else if Arguments.asksHelp arg then some .help
    else none

/-- An error with its causes, the nearest first. -/
structure Report where
  top : String
  causes : List String := []
deriving DecidableEq, Repr

namespace Report

def hanging (first indent text : String) : String :=
  first ++ ("\n" ++ indent).intercalate ((text.toList.splitOn '\n').map String.ofList)

def numbered (i : Nat) (cause : String) : String := hanging s!"    {i}: " "       " cause

def text (r : Report) : String :=
  let causes := match r.causes with
    | [] => []
    | [cause] => [hanging "    " "    " cause]
    | causes => causes.zipIdx.map fun (cause, i) => numbered i cause
  let listed := if causes.isEmpty then "" else "\n\nCaused by:\n" ++ "\n".intercalate causes
  s!"Error: {r.top}" ++ listed ++ "\n"

end Report

abbrev Files := String → Except String String

def RowError.causes (e : RowError) : List String :=
  match e with
  | .malformed cause => [e.message, cause.message]
  | .invalidYear _ | .invalid _ => [e.message]

namespace QueryCommand

def readJson (files : Files) (path : String) : Except Report Json := do
  let text ← (files path).mapError fun cause => ⟨s!"Failed to read {path}", [cause]⟩
  match Json.read? Json.maxDepth text.toList with
  | some v => return v
  | none => throw ⟨s!"Invalid JSON in {path}", ["malformed text"]⟩

/-- The rows of a dataset file: an array, or one that an object has under `result`. -/
def rows? : Json → Option (List Json)
  | .array rows => some rows
  | .object members =>
    match members.lookup "result" with
    | some (.array rows) => some rows
    | _ => none
  | _ => none

def load (files : Files) (now : Timestamp) (kind : Kind) (store : Store) (s : FileSource) :
    Except Report Store := do
  let some rows := rows? (← readJson files s.path)
    | throw ⟨s!"Failed to load {s.path}",
        ["Dataset file must be an array or an object with a 'result' array"]⟩
  let d ← (Dataset.ofRows s.id kind rows now).mapError fun e =>
    ⟨s!"Failed to load dataset '{s.id}'", e.message :: e.cause.causes⟩
  let (store, _) ← (store.add d).mapError fun e => ⟨e.message, []⟩
  return store

def answer (c : QueryCommand) (files : Files) (now : Timestamp) : Except Report (List Row) := do
  c.limits.check.mapError fun e => ⟨e.message, []⟩
  let store ← c.sections.foldlM (load files now .sections) .empty
  let store ← c.rooms.foldlM (load files now .rooms) store
  let document ← readJson files c.queryFile
  (Query.perform document store c.limits.maxRows).mapError fun e =>
    ⟨s!"{e.category.code}: {e.message}", []⟩

/-- A row with its columns in the order of their names, each once. -/
def sortedRow (r : Row) : Json :=
  .ofMembers (r.cells.map fun (column, c) => (column, c.toJson))

def run (c : QueryCommand) (files : Files) (now : Timestamp) : Except Report String := do
  let rows ← c.answer files now
  return (Json.object [("result", .array (rows.map sortedRow))]).toIndentedText ++ "\n"

end QueryCommand

namespace Command

def validateFile (files : Files) (path : String) : Except Report String := do
  let document ← QueryCommand.readJson files path
  let q ← (Query.ofJson document).mapError fun e => ⟨Category.structural.code, [e.message]⟩
  q.check.mapError fun e => ⟨Category.semantic.code, [e.message]⟩
  return q.text ++ "\n"

def usage : String :=
  "Usage: insight query FILE [--sections ID=FILE]... [--rooms ID=FILE]... [--max-rows N]\n" ++
    "       insight validate FILE\n"

def run (files : Files) (now : Timestamp) : Command → Except Report String
  | banner => .ok "Insight CLI v0.1.0\nUse --help for usage information\n"
  | version => .ok "insight 0.1.0\n"
  | help => .ok usage
  | query q => q.run files now
  | validate path => validateFile files path

def paths : Command → List String
  | banner | version | help => []
  | query q => (q.sections ++ q.rooms).map FileSource.path ++ [q.queryFile]
  | validate path => [path]

end Command

end CampusQuery
