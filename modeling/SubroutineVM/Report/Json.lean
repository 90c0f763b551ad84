import SubroutineVM.Json
import SubroutineVM.Report.Basic

/-!
A report as JSON. Fields that a row or an issue does not have are left out.
-/
namespace SubroutineVM

def Row.json (r : Row) : Json.Value :=
  .object ([("offset", .number r.offset), ("op", .text r.op)] ++
    r.immediate?.toList.map fun immediate => ("immediate", .text immediate))

def Issue.json (issue : Issue) : Json.Value :=
  let byte := match issue with
    | .undefinedOpcode _ byte => [("byte", Json.Value.number byte.toNat)]
    | _ => []
  .object ([("kind", .text issue.kind), ("at", .number issue.offset)] ++ byte)

def Report.json (r : Report) : Json.Value :=
  .object
    [("instructions", .list (r.instructions.map Row.json)),
      ("jumpDestinations", .list (r.jumpDestinations.map .number)),
      ("subroutineEntries", .list (r.subroutineEntries.map .number)),
      ("issues", .list (r.issues.map Issue.json)),
      ("digest", .text r.digest)]

end SubroutineVM
