/-!
# The arguments of the command

The command has three verbs: *build* compiles a tree and writes its units, *check*
compiles it only, *list* shows a unit. Each takes one path, and options before, between
or after: a long option is a name after two hyphens, a short one a letter after a single
hyphen, and short ones can be run together. A value is attached to its option by an
equals sign (or directly to a short one), or is the next argument, which then must not
look like an option. After two hyphens alone everything is a path.

Arguments are read from left to right by a machine (`StackUnits.Command.scan`), and the
first that does not fit ends the reading. So does a request for help or for the
version.
-/

namespace StackUnits.Command

/-- What is to be done. -/
inductive Verb
  | build
  | check
  | list
  deriving DecidableEq, Inhabited

/-- An option that takes a value. -/
inductive Valued
  | out
  | name
  | taskPath
  deriving DecidableEq, Inhabited

/-- Why the reading of arguments ends early. -/
inductive Stop
  | help
  | version
  | invalid
  deriving DecidableEq, Inhabited

/-- **The arguments of a verb**, as far as they were given. -/
structure Options where
  verbose : Nat := 0
  file : Option String := none
  out : Option String := none
  name : Option String := none
  taskPath : Option String := none
  listing : Bool := false
  deriving DecidableEq, Inhabited

/-- What the next argument is read as: anything, the value of an option, or a path. -/
inductive Mode
  | free
  | valueOf (option : Valued)
  | pathsOnly
  deriving DecidableEq, Inhabited

/-- **A command that can be carried out.** -/
structure Invocation where
  verb : Verb
  file : String
  options : Options
  deriving DecidableEq, Inhabited

/-! ### Options -/

/-- The verb of a name. -/
def Verb.ofName? : String → Option Verb
  | "build" => some .build
  | "check" => some .check
  | "list" => some .list
  | _ => none

/-- The option that takes a value and has the given long name, for a verb. -/
def Verb.valued? (verb : Verb) (name : String) : Option Valued :=
  match verb, name with
  | .build, "out" => some .out
  | .build, "name" | .check, "name" => some .name
  | .build, "task-path" | .check, "task-path" => some .taskPath
  | _, _ => none

/-- Set an option that was not given before. A directory cannot be empty. -/
def Options.set (options : Options) (option : Valued) (value : String) :
    Except Stop Options :=
  match option with
  | .out =>
    if options.out.isSome || value = "" then .error .invalid
    else .ok { options with out := some value }
  | .name =>
    if options.name.isSome then .error .invalid else .ok { options with name := some value }
  | .taskPath =>
    if options.taskPath.isSome then .error .invalid
    else .ok { options with taskPath := some value }

/-- Take an argument as the path of the verb, of which there is only one. -/
def Options.setFile (options : Options) (path : String) : Except Stop Options :=
  if options.file.isSome || path = "" then .error .invalid
  else .ok { options with file := some path }

/-- Read the letters of short options. The value of an option that takes one is what
follows its letter, or else comes with the next argument. -/
def scanLetters (verb : Verb) (options : Options) : List Char → Except Stop (Options × Mode)
  | [] => .ok (options, .free)
  | 'v' :: rest => scanLetters verb { options with verbose := options.verbose + 1 } rest
  | 'h' :: _ => .error .help
  | 'o' :: rest =>
    if verb ≠ .build then .error .invalid
    else
      match rest with
      | [] => .ok (options, .valueOf .out)
      | '=' :: value => (options.set .out (String.ofList value)).map fun o => (o, .free)
      | value => (options.set .out (String.ofList value)).map fun o => (o, .free)
  | _ => .error .invalid

/-- The name of a long option, and the value attached to it. -/
def cutAtEquals (text : List Char) : String × Option String :=
  let name := String.ofList (text.takeWhile fun c => c != '=')
  match text.dropWhile fun c => c != '=' with
  | [] => (name, none)
  | _ :: value => (name, some (String.ofList value))

/-- Read a long option, from after its hyphens. -/
def scanLong (verb : Verb) (options : Options) (text : List Char) :
    Except Stop (Options × Mode) :=
  let (name, value) := cutAtEquals text
  match verb.valued? name with
  | some option =>
    match value with
    | some value => (options.set option value).map fun o => (o, .free)
    | none => .ok (options, .valueOf option)
  | none =>
    if value.isSome then .error .invalid
    else if name = "verbose" then .ok ({ options with verbose := options.verbose + 1 }, .free)
    else if name = "help" then .error .help
    else if name = "listing" && verb = .build && !options.listing then
      .ok ({ options with listing := true }, .free)
    else .error .invalid

/-- Whether an argument looks like an option. A hyphen alone does not. -/
def looksLikeOption (arg : String) : Bool :=
  match arg.toList with
  | '-' :: _ :: _ => true
  | _ => false

/-- Read one argument. -/
def scanOne (verb : Verb) (options : Options) (mode : Mode) (arg : String) :
    Except Stop (Options × Mode) :=
  match mode with
  | .valueOf option =>
    if looksLikeOption arg then .error .invalid
    else (options.set option arg).map fun o => (o, .free)
  | .pathsOnly => (options.setFile arg).map fun o => (o, .pathsOnly)
  | .free =>
    match arg.toList with
    | ['-', '-'] => .ok (options, .pathsOnly)
    | '-' :: '-' :: text => scanLong verb options text
    | '-' :: c :: rest => scanLetters verb options (c :: rest)
    | _ => (options.setFile arg).map fun o => (o, .free)

/-- **Read the arguments of a verb.** An option must not be left without its value. -/
def scan (verb : Verb) : Options → Mode → List String → Except Stop Options
  | options, mode, [] =>
    match mode with
    | .valueOf _ => .error .invalid
    | _ => .ok options
  | options, mode, arg :: rest =>
    match scanOne verb options mode arg with
    | .ok (options, mode) => scan verb options mode rest
    | .error stop => .error stop

/-! ### The whole command -/

/-- Read the letters of short options before the verb, and count the requests for more
notes. -/
def leadingLetters (verbose : Nat) : List Char → Except Stop Nat
  | [] => .ok verbose
  | 'v' :: rest => leadingLetters (verbose + 1) rest
  | 'V' :: _ => .error .version
  | 'h' :: _ => .error .help
  | _ => .error .invalid

/-- Read what follows a verb. How many notes are wanted is counted after the verb, or
before it if it is not said after it. -/
def afterVerb (verb : Verb) (verbose : Nat) (args : List String) : Except Stop Invocation :=
  match scan verb {} .free args with
  | .error stop => .error stop
  | .ok options =>
    match options.file with
    | none => .error .invalid
    | some file =>
      let verbose := if options.verbose = 0 then verbose else options.verbose
      .ok { verb, file, options := { options with verbose := verbose } }

/-- **Read all arguments.** -/
def parse (verbose : Nat) : List String → Except Stop Invocation
  | [] => .error .invalid
  | arg :: rest =>
    match arg.toList with
    | ['-', '-'] => .error .invalid
    | '-' :: '-' :: _ =>
      if arg = "--version" then .error .version
      else if arg = "--help" then .error .help
      else if arg = "--verbose" then parse (verbose + 1) rest
      else .error .invalid
    | '-' :: c :: letters =>
      match leadingLetters verbose (c :: letters) with
      | .ok verbose => parse verbose rest
      | .error stop => .error stop
    | _ =>
      match Verb.ofName? arg with
      | some verb => afterVerb verb verbose rest
      | none =>
        if arg = "help" then
          match rest with
          | [] => .error .help
          | topic :: _ => if (Verb.ofName? topic).isSome then .error .help else .error .invalid
        else .error .invalid

end StackUnits.Command
