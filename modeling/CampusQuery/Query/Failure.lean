import CampusQuery.Dataset.Registry
import CampusQuery.Query.Document
import CampusQuery.Query.Validity

namespace CampusQuery

inductive Failure where
  | noDataset
  | multipleDatasets (ids : List String)
  | datasetNotFound (id : String)
  | storage (cause : StoreError)
  | unknownColumn (name : String)
  | missingAttribute (field : String)
  | typeMismatch (field : String) (found expected : CellType)
  | emptyGroup (rule : String)
  | unsupportedToken (name : String)
  | tooManyRows (rows limit : Nat)
deriving DecidableEq, Repr

def Failure.message : Failure → String
  | noDataset => "Query does not reference any dataset"
  | multipleDatasets ids =>
    "Query must reference a single dataset, found: " ++ ", ".intercalate ids
  | datasetNotFound id => s!"Dataset '{id}' not found"
  | storage cause => s!"Storage error: {cause.message}"
  | unknownColumn name => s!"Unknown column: '{name}'"
  | missingAttribute field => s!"Attribute '{field}' is not defined on records of the dataset"
  | typeMismatch field found expected =>
    s!"Type mismatch: {field} is a {found.name}, expected a {expected.name}"
  | emptyGroup rule => s!"Cannot compute {rule} over an empty group"
  | unsupportedToken name => s!"Unsupported APPLY token: {name}"
  | tooManyRows rows limit => s!"Query result has {rows} rows, exceeding the limit of {limit}"

inductive Category where
  | structural
  | semantic
  | notFound
  | resultTooLarge
  | execution
deriving DecidableEq, Repr

def Category.code : Category → String
  | structural => "structural_error"
  | semantic => "semantic_error"
  | notFound => "not_found"
  | resultTooLarge => "result_too_large"
  | execution => "execution_error"

def Failure.category : Failure → Category
  | datasetNotFound _ => .notFound
  | tooManyRows .. => .resultTooLarge
  | missingAttribute _ | typeMismatch .. => .execution
  | _ => .semantic

inductive QueryError where
  | document (e : DocumentError)
  | flaw (e : Flaw)
  | failure (e : Failure)
deriving DecidableEq, Repr

namespace QueryError

def message : QueryError → String
  | document e => e.message
  | flaw e => e.message
  | failure e => e.message

def category : QueryError → Category
  | document _ => .structural
  | flaw _ => .semantic
  | failure e => e.category

end QueryError

end CampusQuery
