import JarRename.Files

/-!
**Runs.**

A run reads and writes a tree of files, logs what it does, and may fail. A failure leaves the files as they
were changed and the log as it was written before it.

* `World`, `Run`: the files and the log, and what changes them;
* `Level`, `LogLine`: what is logged.
-/

namespace JarRename

/-- How much is logged. -/
inductive Level where
  | error
  | info
  | debug
  | trace
  deriving DecidableEq

namespace Level

/-- The name of a level. -/
def name : Level → String
  | error => "ERROR"
  | info => "INFO"
  | debug => "DEBUG"
  | trace => "TRACE"

/-- The place of a level; higher levels log more. -/
def rank : Level → Nat
  | error => 0
  | info => 1
  | debug => 2
  | trace => 3

end Level

/-- A line of the log. -/
structure LogLine where
  level : Level
  message : String
  deriving DecidableEq

/-- The characters of ASCII that steer a terminal: bell, backspace, form feed, escape and delete. -/
def terminalCodes : List Nat := [0x07, 0x08, 0x0C, 0x1B, 0x7F]

/-- A character as the log shows it. One that steers a terminal is written by its number. -/
def shownInLog (c : Char) : List Char :=
  let n := c.toNat
  let digits := Text.hexDigits n
  if terminalCodes.contains n then ['\\', 'x'] ++ List.replicate (2 - digits.length) '0' ++ digits
  else if 0x80 ≤ n ∧ n ≤ 0x9F then ['\\', 'u', '\x7b'] ++ digits ++ ['\x7d']
  else [c]

/-- The text of a line: its level in five characters, a space and its message. -/
def LogLine.toText (line : LogLine) : String :=
  let name := line.level.name
  String.ofList (List.replicate (5 - name.length) ' ') ++ name ++ " " ++
    String.ofList (line.message.toList.flatMap shownInLog)

/-- What a run changes. -/
structure World where
  files : Files := {}
  /-- The lines logged so far, in order. -/
  log : Array LogLine := #[]

/-- Something that changes files, logs and may fail. -/
abbrev Run (α : Type) := EStateM Error World α

namespace Run

/-- Logs a line. -/
def log (level : Level) (message : String) : Run Unit :=
  modify fun world => { world with log := world.log.push { level, message } }

/-- The files as they are. -/
def files : Run Files := do
  return (← get).files

/-- The outcome of something that changes nothing. -/
def check {α : Type} (outcome : Except Error α) : Run α := fun world =>
  match outcome with
  | .ok value => .ok value world
  | .error error => .error error world

end Run

end JarRename
