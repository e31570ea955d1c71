import LineScript.Diagnostic
import LineScript.Value
/-!
# The state of the host

What belongs to the host and not to the library: a console and the updates that it has ready. A host that remembers
more keeps it among these, of which the library reads nothing.
-/

namespace LineScript

/-- A line of input that is a text, or bytes that are not. -/
inductive InputLine where
  | text (s : String)
  | malformed
deriving DecidableEq, Repr

/-- A console has lines to read and takes lines to write. It may close after a number of writes, and then says why
every later one fails. -/
structure Console where
  input : List InputLine
  output : Array String
  writesLeft : Option Nat
  closed : Failure

namespace Console

def ofInput (input : List InputLine) : Console :=
  ⟨input, #[], none, .io "console closed"⟩

def write (c : Console) (line : String) : Except Failure Console :=
  match c.writesLeft with
  | none => .ok { c with output := c.output.push line }
  | some 0 => .error c.closed
  | some (n + 1) => .ok { c with output := c.output.push line, writesLeft := some n }

end Console

structure HostState where
  console : Console
  updates : List Value

/-- What the code of a host is told: a result, or why there is none. -/
abbrev Reply := Except Failure Value

def InputLine.reply : InputLine → Reply
  | text s => .ok (.string s)
  | malformed => .error (.io "stream did not contain valid UTF-8")

namespace HostState

def write (line : String) (host : HostState) : Reply × HostState :=
  match host.console.write line with
  | .ok console => (.ok .none, { host with console })
  | .error f => (.error f, host)

def readLine (host : HostState) : Reply × HostState :=
  match host.console.input with
  | [] => (.ok .none, host)
  | line :: rest =>
      let host := { host with console := { host.console with input := rest } }
      (line.reply, host)

def nextUpdate (host : HostState) : Reply × HostState :=
  match host.updates with
  | [] => (.ok .none, host)
  | v :: rest =>
      let host := { host with updates := rest }
      (.ok v, host)

end HostState

end LineScript
