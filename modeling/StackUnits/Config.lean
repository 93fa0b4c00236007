/-!
# Settings of a compilation
-/

namespace StackUnits

/-- **What can be set for a compilation**: the name of the program's unit, where unit
files go, where compiled tasks are looked for, and whether listings are written. -/
structure Config where
  programName : String := "Main"
  outputDir : String := "."
  taskSearchPath : Option String := none
  emitListing : Bool := false
  deriving DecidableEq, Inhabited

end StackUnits
