/-!
# A directory in memory

A directory that holds files and no other directories, for running a command on files that are at
hand as bytes. A path leads to a file if it is the name of the file with nothing but steps that
stay in the directory in front.
-/

namespace Lookahead.CommandLine

/-- Files by name. -/
structure Directory where
  files : List (String × List UInt8)

namespace Directory

/-- Whether a step of a path stays where it is. -/
def isIdle (step : List Char) : Bool :=
  step.isEmpty || step == ['.']

/-- The name that a path leads to, seen from inside the directory. -/
def fileName? (path : String) : Option String :=
  match path.toList.splitOn '/' with
  | [] => none
  | first :: rest =>
    if first.isEmpty then none
    else match (first :: rest).dropWhile isIdle with
      | [name] => some (String.ofList name)
      | _ => none

/-- The bytes of the file that a path leads to. -/
def file? (d : Directory) (path : String) : Option (List UInt8) :=
  (fileName? path).bind fun name => (d.files.find? (·.1 = name)).map (·.2)

end Directory

end Lookahead.CommandLine
