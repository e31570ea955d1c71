import LineScript.Directory
import LineScript.Session
/-!
# The command line

`run` and `check` take the name of a script file, `eval` takes a source. A log level may stand before or behind the
command. What a command does is a report: the text it prints, an error, and an exit code.
-/

namespace LineScript

inductive Command where
  | run (script : String)
  | eval (source : String)
  | check (script : String)
deriving DecidableEq, Repr

inductive Request where
  | version
  | perform (command : Command)
deriving DecidableEq, Repr

namespace Request

def isFlag (arg : String) : Bool :=
  arg.startsWith "-" && arg != "-"

/-- The arguments of a command. Each level of arguments takes one log level; behind `--` everything is an argument. -/
def operands (levelGiven : Bool) (args : List String) : Option (List String) :=
  match args with
  | [] => some []
  | "--" :: rest => some rest
  | "--log-level" :: value :: rest => if levelGiven || isFlag value then none else operands true rest
  | arg :: rest =>
      if arg.startsWith "--log-level=" then if levelGiven then none else operands true rest
      else if isFlag arg then none
      else (operands levelGiven rest).map (arg :: ·)

def operand? (args : List String) : Option String :=
  match operands false args with
  | some [arg] => some arg
  | _ => none

/-- A file name, which cannot be empty. -/
def script? (args : List String) : Option String :=
  (operand? args).filter (· != "")

/-- A short flag asks for the version whatever follows it in the same argument. -/
def asksVersion (arg : String) : Bool :=
  arg == "--version" || arg.startsWith "-V"

/-- The request that the arguments make, if they make one. -/
def parse (levelGiven : Bool) (args : List String) : Option Request :=
  match args with
  | "--log-level" :: value :: rest => if levelGiven || isFlag value then none else parse true rest
  | "run" :: rest => (script? rest).map (.perform ∘ .run)
  | "eval" :: rest => (operand? rest).map (.perform ∘ .eval)
  | "check" :: rest => (script? rest).map (.perform ∘ .check)
  | arg :: rest =>
      if asksVersion arg then some .version
      else if arg.startsWith "--log-level=" && !levelGiven then parse true rest
      else none
  | [] => none

def ofArgs? (args : List String) : Option Request :=
  parse false args

end Request

/-- The name and version of the program. -/
def versionLine : String := "solfege 0.1.0\n"

structure Report where
  code : Nat
  stdout : String
  stderr : String
deriving DecidableEq, Repr

namespace Report

def usageError : Report :=
  ⟨2, "", "usage: [--log-level LEVEL] (run SCRIPT | eval SOURCE | check SCRIPT)\n"⟩

def unlines (lines : List String) : String :=
  String.join (lines.map (· ++ "\n"))

def ofInterrupt (lines : List String) : Interrupt → Report
  | .failure f => ⟨1, unlines lines, f.message ++ "\n"⟩
  | .fault f => ⟨101, unlines lines, f.message ++ "\n"⟩
  | .outOfFuel => ⟨101, unlines lines, "out of fuel\n"⟩

/-- The report of an action that has printed the lines of its console and then prints its result. -/
def ofAction (action : Eval (List String)) (m : Machine) : Report :=
  match action m with
  | .ok lines m => ⟨0, unlines (m.console.output.toList ++ lines), ""⟩
  | .error e m => ofInterrupt m.console.output.toList e

end Report

namespace Command

/-- The file that a command reads. -/
def script? : Command → Option String
  | run script | check script => some script
  | eval _ => none

def contents (file : Except FileError ByteArray) : Eval ByteArray :=
  match file with
  | .ok bytes => pure bytes
  | .error e => throw (.failure (.io e.message))

def action (file : Except FileError ByteArray) : Command → Eval (List String)
  | run script => do
      let s : Session := ⟨← Eval.onHeap Library.standard, CallStack.defaultLimit⟩
      let _ ← s.executeBytes script (← contents file)
      return []
  | eval source => do
      let s : Session := ⟨← Eval.onHeap Library.standard, CallStack.defaultLimit⟩
      let v ← s.execute "<eval>" source
      let m ← get
      return if v.isNone then [] else [m.heap.display v]
  | check script => do
      let _ ← Session.compileBytes script (← contents file)
      return [script ++ ": ok"]

def perform (command : Command) (file : Except FileError ByteArray) (input : List InputLine) : Report :=
  .ofAction (command.action file) (.ofConsole (.ofInput input))

end Command

/-! ### Input lines -/

namespace InputLine

/-- A line without the line feeds and carriage returns at its end. -/
def trimmed (text : List Char) : List Char :=
  (text.reverse.dropWhile fun c => c == '\n' || c == '\r').reverse

def ofBytes (bytes : List UInt8) : InputLine :=
  match String.fromUTF8? ⟨bytes.toArray⟩ with
  | some s => .text (String.ofList (trimmed s.toList))
  | none => .malformed

/-- The lines of an input; `line` are the bytes of the current one so far, last byte first. -/
def splitBytes (line : List UInt8) : List UInt8 → List InputLine
  | [] => if line.isEmpty then [] else [ofBytes line.reverse]
  | b :: rest => if b = 10 then ofBytes line.reverse :: splitBytes [] rest else splitBytes (b :: line) rest

def ofInput (bytes : ByteArray) : List InputLine :=
  splitBytes [] bytes.toList

end InputLine

end LineScript
