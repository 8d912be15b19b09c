import CampusQuery.CommandLine

namespace CampusQuery

def readFile (path : String) : IO (Except String String) := do
  try
    return .ok (← IO.FS.readFile path)
  catch
    | .noFileOrDirectory .. => return .error "No such file or directory (os error 2)"
    | e => return .error (toString e)

def readFiles (paths : List String) : IO Files := do
  let contents ← paths.mapM fun path => return (path, ← readFile path)
  return fun path => (contents.lookup path).getD (.error "not read")

def runProgram (args : List String) : IO UInt32 := do
  let limit ← IO.getEnv Arguments.limitVariable
  match Command.ofArgs? args fun name => if name = Arguments.limitVariable then limit else none with
  | none =>
    IO.eprint Command.usage
    return 2
  | some command =>
    match command.run (← readFiles command.paths) .epoch with
    | .ok text =>
      IO.print text
      return 0
    | .error report =>
      IO.eprint report.text
      return 1

end CampusQuery

def main (args : List String) : IO UInt32 := CampusQuery.runProgram args
