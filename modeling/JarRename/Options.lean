import JarRename.Job

/-!
**Command line options.**

An option is given by its long name after two dashes, or by its letter after one. Letters can be joined. A
value follows an option as the next argument, or in the same argument, with or without an equals sign after
a letter. A value is taken when the next option starts or the arguments end.

* `Options`: what the options say;
* `UsageError`: why arguments are not understood;
* `Options.parse`: the options in arguments.
-/

namespace JarRename

/-- What the options of the command line say. -/
structure Options where
  job : Job
  level : Level
  deriving DecidableEq

/-- Why arguments are not understood, or what is asked for in place of a run. -/
inductive UsageError where
  /-- An option that must be given is missing. -/
  | missingRequired
  /-- There is no such option, or an argument is no option. -/
  | unknownArgument
  /-- Options exclude each other, or an option is given twice. -/
  | conflict
  /-- A value is missing or empty. -/
  | invalidValue
  /-- A value is given to an option that takes none. -/
  | tooManyValues
  /-- The help is asked for. -/
  | help
  /-- The version is asked for. -/
  | version
  deriving DecidableEq

namespace Options

/-- The options that take a value. -/
inductive ValueOption where
  | input
  | output
  | mappings
  | classpath
  deriving DecidableEq

/-- The options that take none. -/
inductive Switch where
  | reverse
  | verbose
  | quiet
  | help
  | version
  deriving DecidableEq

/-- An option. -/
inductive Name where
  | value (option : ValueOption)
  | switch (option : Switch)
  deriving DecidableEq

/-- The option of a long name. -/
def ofLong? (name : List Char) : Option Name :=
  match String.ofList name with
  | "input" => some (.value .input)
  | "output" => some (.value .output)
  | "mappings" | "srg-in" => some (.value .mappings)
  | "cp" => some (.value .classpath)
  | "reverse" => some (.switch .reverse)
  | "verbose" => some (.switch .verbose)
  | "quiet" => some (.switch .quiet)
  | "help" => some (.switch .help)
  | "version" => some (.switch .version)
  | _ => none

/-- The option of a letter. -/
def ofLetter? (c : Char) : Option Name :=
  if c = 'i' then some (.value .input)
  else if c = 'o' then some (.value .output)
  else if c = 'm' then some (.value .mappings)
  else if c = 'v' then some (.switch .verbose)
  else if c = 'q' then some (.switch .quiet)
  else if c = 'h' then some (.switch .help)
  else if c = 'V' then some (.switch .version)
  else none

/-! ### Collecting -/

/-- The options collected so far. -/
structure Found where
  input : Option String := none
  output : Option String := none
  mappings : Option String := none
  classpath : List String := []
  reverse : Bool := false
  verbose : Nat := 0
  quiet : Bool := false
  /-- The option that started last and has not been taken, with its value if it has come. -/
  waiting : Option (ValueOption × Option String) := none
  deriving DecidableEq

namespace Found

/-- Takes the value of an option. An option is not given twice, except for the classpath. -/
def takeValue (found : Found) (option : ValueOption) (value : String) : Except UsageError Found :=
  let isTwice :=
    match option with
    | .input => found.input.isSome
    | .output => found.output.isSome
    | .mappings => found.mappings.isSome
    | .classpath => false
  if isTwice then .error .conflict
  else if value = "" then .error .invalidValue
  else
    match option with
    | .input => .ok { found with input := some value }
    | .output => .ok { found with output := some value }
    | .mappings => .ok { found with mappings := some value }
    | .classpath => .ok { found with classpath := found.classpath ++ [value] }

/-- Takes the option that waits, if one does. -/
def settle (found : Found) : Except UsageError Found :=
  match found.waiting with
  | none => .ok found
  | some (_, none) => .error .invalidValue
  | some (option, some value) => { found with waiting := none }.takeValue option value

/-- Takes an option with its value. -/
def addValue (found : Found) (option : ValueOption) (value : String) : Except UsageError Found := do
  (← found.settle).takeValue option value

/-- Starts an option whose value comes later. -/
def startValue (found : Found) (option : ValueOption) : Except UsageError Found := do
  return { ← found.settle with waiting := some (option, none) }

/-- Takes a switch. A switch is not given twice, except for the level of the log. -/
def addSwitch (found : Found) (option : Switch) : Except UsageError Found := do
  let found ← found.settle
  match option with
  | .reverse => if found.reverse then throw .conflict else return { found with reverse := true }
  | .verbose => return { found with verbose := found.verbose + 1 }
  | .quiet => if found.quiet then throw .conflict else return { found with quiet := true }
  | .help => throw .help
  | .version => throw .version

/-- Takes an argument that is no option: the value that the last option waits for. -/
def addPlain (found : Found) (value : String) : Except UsageError Found :=
  match found.waiting with
  | some (option, none) => .ok { found with waiting := some (option, some value) }
  | _ => .error .unknownArgument

/-- Takes a long option, after its dashes. -/
def addLong (found : Found) (text : List Char) : Except UsageError Found :=
  let isSign := fun c => c == '='
  let name := text.takeWhile fun c => !isSign c
  let value? :=
    match text.dropWhile fun c => !isSign c with
    | [] => none
    | _ :: value => some (String.ofList value)
  match ofLong? name, value? with
  | none, _ => .error .unknownArgument
  | some (.switch option), none => found.addSwitch option
  | some (.switch _), some _ => .error .tooManyValues
  | some (.value option), none => found.startValue option
  | some (.value option), some value => found.addValue option value

/-- Takes joined letters, after their dash. -/
def addLetters (found : Found) : List Char → Except UsageError Found
  | [] => .ok found
  | c :: rest =>
    match ofLetter? c with
    | none => .error .unknownArgument
    | some (.switch option) => do (← found.addSwitch option).addLetters rest
    | some (.value option) =>
      match rest with
      | [] => found.startValue option
      | '=' :: value => found.addValue option (String.ofList value)
      | value => found.addValue option (String.ofList value)

/-- Takes arguments. After two dashes alone no option is taken. -/
def addAll (found : Found) : List String → Except UsageError Found
  | [] => .ok found
  | argument :: rest =>
    match argument.toList with
    | ['-', '-'] => if rest.isEmpty then .ok found else .error .unknownArgument
    | '-' :: '-' :: text => do (← found.addLong text).addAll rest
    | '-' :: c :: text => do (← found.addLetters (c :: text)).addAll rest
    | _ => do (← found.addPlain argument).addAll rest

/-- The level of the log that switches ask for. -/
def level (found : Found) : Level :=
  if found.quiet then .error
  else
    match found.verbose with
    | 0 => .info
    | 1 => .debug
    | _ => .trace

/-- The options, when all arguments have been taken. -/
def finish (found : Found) : Except UsageError Options := do
  let found ← found.settle
  if found.quiet && found.verbose != 0 then throw .conflict
  else
    match found.input, found.output, found.mappings with
    | some input, some output, some mappings =>
      let direction := if found.reverse then .reverse else .forward
      return { job := { input, output, mappings, direction, classpath := found.classpath },
               level := found.level }
    | _, _, _ => throw .missingRequired

end Found

/-- The options in arguments. -/
def parse (arguments : List String) : Except UsageError Options := do
  let found ← Found.addAll {} arguments
  found.finish

end Options

end JarRename
