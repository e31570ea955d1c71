import LineScript.Library
import LineScript.Proofs.Heap.Evolution
/-!
# What code of a host may do

Of the code of a host nothing is known but that it asks for one thing after the other. What has to be known of it is put
down as terms: what it asks for, whether it goes on after a failure, what it raises of its own, and what it keeps true
of the host's state. Code honours the terms if it does so whatever it is told.
-/

namespace LineScript

/-- What the code of a host is held to. -/
structure Terms where
  /-- It applies these operations. -/
  applies : Primitive → Prop
  /-- It calls functions. -/
  calls : Prop
  /-- It goes on when something that it asked for fails in one of these. -/
  catches : Failure → Prop
  /-- It makes functions and objects. -/
  makes : Prop
  /-- It raises these failures of its own accord. -/
  raises : Failure → Prop
  /-- It panics, or passes to an operation what that does not take. -/
  panics : Prop
  /-- It goes on for ever by itself. -/
  diverges : Prop
  /-- It leaves this true of the host's state. -/
  states : HostState → Prop

/-- The terms that all code honours. -/
def Terms.any : Terms where
  applies _ := True
  calls := True
  catches _ := True
  makes := True
  raises _ := True
  panics := True
  diverges := True
  states _ := True

/-- The terms of code that asks for nothing, and so only returns what it has. -/
def Terms.none : Terms where
  applies _ := False
  calls := False
  catches _ := False
  makes := False
  raises _ := False
  panics := False
  diverges := False
  states _ := True

/-- The code keeps to the terms, and so do the functions that it makes. A failure that it is told is handed on as it is,
or else the code goes on within the terms. -/
def HostCode.Honours (t : Terms) : HostCode → Prop
  | returns _ => True
  | raises f => t.raises f
  | panics _ => t.panics
  | diverges => t.diverges
  | applies operation args next =>
      t.applies operation ∧ (t.panics ∨ ∀ h, (Operation.apply operation args h).Faultless) ∧
        (∀ v, (next (.ok v)).Honours t) ∧
        ∀ f, next (.error f) = raises f ∨ t.catches f ∧ (next (.error f)).Honours t
  | calls _ _ next =>
      t.calls ∧ (∀ v, (next (.ok v)).Honours t) ∧
        ∀ f, next (.error f) = raises f ∨ t.catches f ∧ (next (.error f)).Honours t
  | makesFunction _ params body next =>
      t.makes ∧ (∀ args, args.length = params.length → (body args).Honours t) ∧ ∀ v, (next v).Honours t
  | makesObject _ _ next => t.makes ∧ ∀ v, (next v).Honours t
  | exchanges step next =>
      ∀ host, t.states host → t.states (step host).2 ∧ (next (step host).1).Honours t

/-- A function of so many parameters runs code that honours the terms. -/
def Native.Honours (t : Terms) (count : Nat) : Native → Prop
  | writeLine _ write => ∀ v, (write v).Honours t
  | asks _ answer => answer.Honours t
  | convertTo _ => True
  | host body => ∀ args, args.length = count → (body args).Honours t

theorem Native.honours_idle (t : Terms) (count : Nat) : idle.Honours t count := fun _ _ =>
  trivial

structure Callbacks.Honour (t : Terms) (c : Callbacks) : Prop where
  writeLine : ∀ v, (c.writeLine v).Honours t
  readLine : c.readLine.Honours t
  update : c.update.Honours t

/-! ### Plain callbacks -/

/-- What the step makes of the host's state, and what it answers, are within the terms. -/
def Terms.Admits (t : Terms) (step : HostState → Reply × HostState) : Prop :=
  ∀ host, t.states host → t.states (step host).2 ∧ ∀ f, (step host).1 = .error f → t.raises f

theorem HostCode.honours_exchanges {t : Terms} {step : HostState → Reply × HostState} (hstep : t.Admits step) :
    (exchanges step handsOn).Honours t := by
  intro host hhost
  refine ⟨(hstep host hhost).1, ?_⟩
  cases hreply : (step host).1 with
  | ok v => trivial
  | error f => exact (hstep host hhost).2 f hreply

theorem Callbacks.honour_plain {t : Terms} (hdisplay : t.applies .display)
    (hwrite : ∀ line, t.Admits (HostState.write line)) (hread : t.Admits HostState.readLine)
    (hupdate : t.Admits HostState.nextUpdate) : plain.Honour t where
  writeLine v := by
    refine ⟨hdisplay, .inr fun _ => trivial, fun text => ?_, fun _ => .inl rfl⟩
    cases text with
    | string line => exact HostCode.honours_exchanges (hwrite line)
    | _ => trivial
  readLine := HostCode.honours_exchanges hread
  update := HostCode.honours_exchanges hupdate

theorem HostState.write_closed (line : String) (host : HostState) :
    (host.write line).2.console.closed = host.console.closed ∧
      ∀ f, (host.write line).1 = .error f → f = host.console.closed := by
  unfold write Console.write
  split <;> rename_i hwrite <;> split at hwrite <;> cases hwrite
  · exact ⟨rfl, fun _ => nofun⟩
  · exact ⟨rfl, fun _ => nofun⟩
  · exact ⟨rfl, fun _ hf => (Except.error.inj hf).symm⟩

theorem HostState.readLine_closed (host : HostState) :
    (host.readLine.2.console.closed = host.console.closed ∧
        host.readLine.2.console.writesLeft = host.console.writesLeft) ∧
      ∀ f, host.readLine.1 = .error f → f = .io "stream did not contain valid UTF-8" := by
  unfold readLine
  cases host.console.input with
  | nil => exact ⟨⟨rfl, rfl⟩, fun _ => nofun⟩
  | cons line rest =>
      refine ⟨⟨rfl, rfl⟩, fun f hf => ?_⟩
      cases line with
      | text s => cases hf
      | malformed => exact (Except.error.inj hf).symm

theorem HostState.nextUpdate_console (host : HostState) :
    host.nextUpdate.2.console = host.console ∧ ∀ f, host.nextUpdate.1 ≠ .error f := by
  unfold nextUpdate
  cases host.updates with
  | nil => exact ⟨rfl, fun _ => nofun⟩
  | cons v rest => exact ⟨rfl, fun _ => nofun⟩

/-- Plain callbacks raise what the console closes with, and what lines raise that are no text. -/
theorem Callbacks.honour_plain_of_closed {t : Terms} (hdisplay : t.applies .display)
    (hstates : ∀ {host host' : HostState}, host'.console.closed = host.console.closed → t.states host → t.states host')
    (hclosed : ∀ {host : HostState}, t.states host → t.raises host.console.closed)
    (hio : t.raises (.io "stream did not contain valid UTF-8")) : plain.Honour t := by
  refine honour_plain hdisplay (fun line host hhost => ?_) (fun host hhost => ?_) fun host hhost => ?_
  · obtain ⟨hkept, herror⟩ := host.write_closed line
    exact ⟨hstates hkept hhost, fun f hf => herror f hf ▸ hclosed hhost⟩
  · obtain ⟨⟨hkept, -⟩, herror⟩ := host.readLine_closed
    exact ⟨hstates hkept hhost, fun f hf => herror f hf ▸ hio⟩
  · obtain ⟨hkept, herror⟩ := host.nextUpdate_console
    exact ⟨hstates (congrArg Console.closed hkept) hhost, fun f hf => absurd hf (herror f)⟩

/-! ### All code -/

namespace HostCode

theorem honours_any (c : HostCode) : c.Honours .any := by
  induction c with
  | applies operation args next ih =>
      exact ⟨trivial, .inl trivial, fun v => ih (.ok v), fun f => .inr ⟨trivial, ih (.error f)⟩⟩
  | calls f args next ih => exact ⟨trivial, fun v => ih (.ok v), fun f => .inr ⟨trivial, ih (.error f)⟩⟩
  | makesFunction name params body next hbody ih => exact ⟨trivial, fun args _ => hbody args, ih⟩
  | makesObject name members next ih => exact ⟨trivial, ih⟩
  | exchanges step next ih => exact fun host _ => ⟨trivial, ih (step host).1⟩
  | _ => trivial

end HostCode

theorem Native.honours_any (operation : Native) (count : Nat) : operation.Honours .any count := by
  cases operation with
  | writeLine cell write => exact fun v => (write v).honours_any
  | asks cell answer => exact answer.honours_any
  | convertTo target => trivial
  | host body => exact fun args _ => (body args).honours_any

end LineScript
