import CampusQuery.Address
import CampusQuery.Json.Shape

namespace CampusQuery

inductive SettingsError where
  | badSocketNumber (cause : IntegerError)
  | badMaxRows (cause : IntegerError)
  | badBodyLimit (cause : IntegerError)
  | noRows
  | badAddress (host : String) (socketNumber : Nat)
deriving DecidableEq, Repr

def SettingsError.message : SettingsError → String
  | badSocketNumber cause => s!"INSIGHT_PORT must be a valid port number: {cause.message}"
  | badMaxRows cause => s!"INSIGHT_MAX_RESULT_ROWS must be a positive integer: {cause.message}"
  | badBodyLimit cause => s!"INSIGHT_BODY_LIMIT_BYTES must be a positive integer: {cause.message}"
  | noRows => "Result row limit must be greater than zero"
  | badAddress host number =>
    s!"Invalid socket address {host}:{number}: invalid socket address syntax"

structure QueryLimits where
  maxRows : Nat
deriving DecidableEq, Repr

namespace QueryLimits

def standard : QueryLimits := ⟨5000⟩

def check (l : QueryLimits) : Except SettingsError Unit :=
  if l.maxRows = 0 then .error .noRows else .ok ()

def shape : Shape QueryLimits := mk <$> .required "max_result_rows" Json.count

def ofJson : Json → Except Mismatch QueryLimits := shape.read "QueryConfig"

def toJson (l : QueryLimits) : Json := .object [("max_result_rows", .int l.maxRows)]

end QueryLimits

structure Settings where
  host : String
  socketNumber : Nat
  limits : QueryLimits
  bodyLimit : Nat
deriving DecidableEq, Repr

namespace Settings

def standard : Settings := ⟨"0.0.0.0", 8080, .standard, 32 * 1024 * 1024⟩

/-- Sizes are whole numbers of 64 bits. -/
def maxSize : Nat := 0xffff_ffff_ffff_ffff

/-- The value of a variable as a number, or the standard one if it is not set. -/
def number (bound standard : Nat) : Option String → Except IntegerError Nat
  | some s => Integer.natural bound s.toList
  | none => .ok standard

def ofEnv (env : String → Option String) : Except SettingsError Settings := do
  let socketNumber ← (number 0xffff standard.socketNumber
    (env "INSIGHT_PORT")).mapError .badSocketNumber
  let maxRows ← (number maxSize standard.limits.maxRows
    (env "INSIGHT_MAX_RESULT_ROWS")).mapError .badMaxRows
  let bodyLimit ← (number maxSize standard.bodyLimit
    (env "INSIGHT_BODY_LIMIT_BYTES")).mapError .badBodyLimit
  let limits : QueryLimits := ⟨maxRows⟩
  limits.check
  return { host := (env "INSIGHT_HOST").getD standard.host, socketNumber, limits, bodyLimit }

def address (s : Settings) : Except SettingsError SocketAddress :=
  match SocketAddress.read? s!"{s.host}:{s.socketNumber}" with
  | some a => .ok a
  | none => .error (.badAddress s.host s.socketNumber)

def launch (env : String → Option String) : Except SettingsError (Settings × SocketAddress) := do
  let s ← ofEnv env
  return (s, ← s.address)

end Settings

end CampusQuery
