/-!
Where a path leads: to a name in a directory. Empty and `.` parts before the name do not count, so
`./a` and `.//a` lead to the same place as `a`. The working directory has no parts.
-/
namespace SubroutineVM

structure Location where
  directory : List String
  name : String
  deriving DecidableEq

namespace Location

/-- A path from the root starts with an empty part, which stays. -/
def ofPath (path : String) : Location :=
  let parts := (path.toList.splitOn '/').map String.ofList
  let directory := parts.dropLast
  let below := (directory.drop 1).filter fun part => part ≠ "" ∧ part ≠ "."
  ⟨(directory.take 1).filter (· ≠ ".") ++ below, parts.getLast?.getD ""⟩

def namesFile (location : Location) : Bool := location.name ∉ ["", ".", ".."]

/-- What follows the last dot of the name, unless nothing comes before the dot. -/
def extension? (location : Location) : Option String :=
  let reversed := location.name.toList.reverse
  match (reversed.dropWhile (· ≠ '.')).drop 1 with
  | [] => none
  | _ => some (String.ofList (reversed.takeWhile (· ≠ '.')).reverse)

end Location

end SubroutineVM
