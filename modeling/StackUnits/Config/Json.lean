import StackUnits.Config
import StackUnits.Json.Quoted
import StackUnits.Json.Record

/-!
# Settings as JSON

Settings are a record of four members, all of which may be left out.
-/

namespace StackUnits

open Json

/-- What has been read of the settings. -/
structure ConfigDraft where
  programName : Option String := none
  outputDir : Option String := none
  taskSearchPath : Option (Option String) := none
  emitListing : Option Bool := none

namespace Config

/-- The members of the settings. -/
def record : Record ConfigDraft Config where
  name := "CompilerConfig"
  members := [
    { name := "program_name"
      isGiven := fun draft => draft.programName.isSome
      read := fun draft => do
        return { draft with programName := some (← readText .string) } },
    { name := "output_dir"
      isGiven := fun draft => draft.outputDir.isSome
      read := fun draft => do
        return { draft with outputDir := some (← readText .path) } },
    { name := "task_search_path"
      isGiven := fun draft => draft.taskSearchPath.isSome
      read := fun draft => do
        return { draft with taskSearchPath := some (← readOptional (readText .string)) } },
    { name := "emit_listing"
      isGiven := fun draft => draft.emitListing.isSome
      read := fun draft => do
        return { draft with emitListing := some (← readBoolean) } }]
  draft := {}
  finish := fun draft =>
    let default : Config := {}
    .ok {
      programName := draft.programName.getD default.programName
      outputDir := draft.outputDir.getD default.outputDir
      taskSearchPath := draft.taskSearchPath.getD default.taskSearchPath
      emitListing := draft.emitListing.getD default.emitListing }

/-- **The settings that a JSON text denotes.** -/
def ofJson (text : String) : Except Problem Config :=
  Json.parse record.read text

/-- The name of a member and a colon, in front of its value. -/
def nameBefore (name : String) (rest : List Char) : List Char :=
  quoteBefore name (':' :: rest)

/-- **The JSON text of settings**, on one line without blanks. -/
def toJson (config : Config) : String :=
  let listing := (if config.emitListing then "true" else "false").toList ++ ['\x7d']
  let path (rest : List Char) : List Char :=
    match config.taskSearchPath with
    | some list => quoteBefore list rest
    | none => "null".toList ++ rest
  String.ofList <|
    '\x7b' :: nameBefore "program_name" (quoteBefore config.programName
      (',' :: nameBefore "output_dir" (quoteBefore config.outputDir
        (',' :: nameBefore "task_search_path" (path
          (',' :: nameBefore "emit_listing" listing))))))

end Config

end StackUnits
