import LineScript.Program.Equality
import LineScript.Proofs.Evaluation.Evolution
import LineScript.Proofs.Heap.Wording
import LineScript.Proofs.Program.Wording
import LineScript.Session
/-!
# In how many lines a program fails

The names in a program are of one line, and so are those of the functions and objects that it works with. A diagnostic
quotes such names, and besides them it shows one value at most: the one that cannot be converted or is no index. So it
takes one line if the text of that value does. A source that is no program is rejected in one line.
-/

namespace LineScript

/-- The terms of a host that brings no names of its own into what a failure tells: it applies operations that tell no
more than they may, raises failures that show nothing, makes no functions or objects, and keeps its console open. -/
def Terms.plain : Terms where
  applies operation := ∀ args, Telling (Operation.apply operation args)
  calls := True
  catches _ := True
  makes := False
  raises f := ∀ h, f.Tells h
  panics := True
  diverges := True
  states host := host.console.writesLeft = Option.none

/-- Programs from sources whose names are of one line, and functions of the host that bring in no names. -/
def Code.plain : Code :=
  .under (fun n => ∃ source, OneLine source ∧ n.All (Node.Plain source))
    (fun ⟨source, hsource, hn⟩ hc => ⟨source, hsource, hn.child hc⟩) .plain True

/-- The machine has code and names of one line, and its console does not close. -/
structure Machine.Plain (m : Machine) : Prop where
  code : Code.plain.heap m.heap
  named : m.heap.Named
  writesLeft : m.console.writesLeft = none

theorem Machine.plain_ofInput (input : List InputLine) : (Machine.ofConsole (.ofInput input)).Plain :=
  ⟨Code.plain.heap_empty, ⟨fun f hf => (Array.not_mem_empty f hf).elim, fun o ho => (Array.not_mem_empty o ho).elim⟩,
    rfl⟩

namespace Eval

variable {α β : Type}

/-- On every machine with names of one line the action keeps them so, and tells no more than it may where it fails. -/
def Worded (action : Eval α) : Prop :=
  ∀ m, m.Plain → (action m).state.Plain ∧ FailsTelling (·.heap) (action m)

namespace Worded

theorem pure (a : α) : Worded (pure a) := fun _ hm =>
  ⟨hm, trivial⟩

theorem raise {cause : RuntimeCause} (hcause : ∀ h, cause.Tells h) : Worded (raise cause : Eval α) := fun m hm =>
  ⟨hm, Failure.tells_ofCause (hcause m.heap)⟩

theorem bind {action : Eval α} {next : α → Eval β} (haction : Worded action) (hnext : ∀ a, Worded (next a)) :
    Worded (action >>= next) := by
  intro m hm
  obtain ⟨hplain, htells⟩ := haction m hm
  cases hrun : action m with
  | ok a m₁ =>
      rw [hrun] at hplain
      rw [Action.bind_of_ok hrun]
      exact hnext a m₁ hplain
  | error e m₁ =>
      rw [hrun] at hplain htells
      rw [Action.bind_of_error hrun]
      exact ⟨hplain, htells.passed rfl⟩

theorem onHeap {action : Action Heap α} (htelling : Telling action)
    (hregular : Regular True (Heap.Evolves fun _ => True) action) : Worded (onHeap action) := by
  intro m hm
  obtain ⟨hnamed, htells⟩ := htelling m.heap hm.named
  have hfunctions := (hregular m.heap).1.functions_eq
  have hcode {h : Heap} (hh : h.functions = m.heap.functions) : Code.plain.heap h := fun f hf => hm.code f (hh ▸ hf)
  rw [onHeap_eq]
  cases hrun : action m.heap with
  | ok a h =>
      rw [hrun] at hnamed hfunctions
      exact ⟨⟨hcode hfunctions, hnamed, hm.writesLeft⟩, trivial⟩
  | error e h =>
      rw [hrun] at hnamed hfunctions htells
      exact ⟨⟨hcode hfunctions, hnamed, hm.writesLeft⟩, htells.passed rfl⟩

theorem readVariable (scope : Scope) {name : String} (hname : OneLine name) : Worded (readVariable scope name) := by
  intro m hm
  unfold Eval.readVariable
  cases m.scopes.get? scope name with
  | none => exact raise (fun _ => .quoting rfl hname rfl) m hm
  | some v => exact ⟨hm, trivial⟩

theorem makeFunction (scope : Scope) {name : Option String} {params : List String} {body : List Node}
    (hname : ∀ text ∈ name.toList, OneLine text) (hbody : ∀ n ∈ body, Code.plain.node n) :
    Worded (makeFunction scope name params body) := by
  intro m hm
  have hmade (hname : OneLine (name.getD "")) :
      Machine.Plain { m with
        heap := (m.heap.newFunction ⟨name.getD "", params, .script body scope⟩).2
        scopes := m.scopes.capture scope } := by
    refine ⟨fun f hf => ?_, ⟨fun f hf => ?_, hm.named.objects⟩, hm.writesLeft⟩
    · rcases Array.mem_push.1 hf with hf | rfl
      · exact hm.code f hf
      · exact hbody
    · rcases Array.mem_push.1 hf with hf | rfl
      · exact hm.named.functions f hf
      · exact hname
  cases name with
  | none => exact ⟨hmade (by decide : OneLine ""), trivial⟩
  | some name =>
      have hplain := hmade (hname name (List.mem_singleton_self name))
      exact ⟨⟨hplain.code, hplain.named, hplain.writesLeft⟩, trivial⟩

theorem become {host : HostState} (hhost : host.console.writesLeft = none) : Worded (become host) := fun _ hm =>
  ⟨⟨hm.code, hm.named, hhost⟩, trivial⟩

theorem applied {operation : Primitive} {args : List Value} (htelling : Telling (Operation.apply operation args)) :
    Worded (applied operation args) := by
  intro m hm
  have hregular : Regular True (Heap.Evolves fun _ => True) (Operation.apply operation args) :=
    Operation.regular_apply trivial trivial args
  obtain ⟨hplain, htells⟩ := onHeap htelling hregular m hm
  unfold Eval.applied blaming
  cases hrun : Eval.onHeap (Operation.apply operation args) m with
  | ok v m₁ =>
      rw [hrun] at hplain
      exact ⟨hplain, trivial⟩
  | error e m₁ =>
      rw [hrun] at hplain htells
      cases e <;> exact ⟨hplain, htells⟩

theorem condition (v : Value) : Worded (condition v) := by
  unfold Eval.condition
  split
  · exact pure _
  · exact raise fun _ => .silent rfl rfl

theorem logicalOperand (op : LogicalOp) (v : Value) : Worded (logicalOperand op v) := by
  unfold Eval.logicalOperand
  split
  · exact pure _
  · refine raise fun _ => .quoting rfl ?_ rfl
    cases op <;> decide

theorem operates {action : Action Heap α} (h : Code.plain.Operates action) : Worded (Eval.onHeap action) := by
  refine onHeap ?_ h.regular
  cases h with
  | binary op x y => exact Operation.telling_binary op x y
  | unary op x => exact Operation.telling_unary op x
  | readMember hn v =>
      obtain ⟨source, -, hn⟩ := hn
      exact Operation.telling_readMember v (hn.here.names _ List.mem_cons_self)
  | writeMember hn target v =>
      obtain ⟨source, -, hn⟩ := hn
      exact Operation.telling_writeMember target (hn.here.names _ List.mem_cons_self) v
  | makeArray items => exact Operation.telling_makeArray items
  | range first last step => exact Operation.telling_range first last step
  | readItem v index => exact Operation.telling_readItem v index
  | argument hargs => exact Operation.telling_argument _ _
  | convert target hargs => exact .bind (Operation.telling_argument _ _) fun v => Operation.telling_convert v target

theorem elementary {home : FrameId} {action : Eval α}
    (h : Code.plain.Elementary Heap.Named home action) : Worded action := by
  cases h with
  | pure a => exact pure a
  | onHeap h => exact operates h
  | readVariable hn scope =>
      obtain ⟨source, -, hn⟩ := hn
      exact readVariable scope (hn.here.names _ List.mem_cons_self)
  | writeVariable scope name v => exact fun m hm => ⟨⟨hm.code, hm.named, hm.writesLeft⟩, trivial⟩
  | makeFunction hn scope =>
      have hbody (n : Node) (hchild : n ∈ _) := Code.plain.child hn hchild
      obtain ⟨source, -, hn⟩ := hn
      exact makeFunction scope (fun text htext => hn.here.names text (List.mem_append_left _ htext)) hbody
  | condition v => exact condition v
  | logicalOperand op v => exact logicalOperand op v
  | cannotIterate | cannotCall => exact raise fun _ => .silent rfl rfl
  | arity hh id received => exact raise fun _ => .quoting rfl (hh.function id) rfl
  | raises hraises => exact fun m hm => ⟨hm, hraises m.heap⟩
  | panics | diverges => exact fun m hm => ⟨hm, trivial⟩
  | applied happlies _ => exact applied (happlies _)
  | hostFunction hmakes | hostObject hmakes => exact hmakes.elim
  | become hhost => exact become hhost

theorem located {p : Position} (hp : OneLine p.source) {action : Eval α} (haction : Worded action) :
    Worded (located p action) := by
  intro m hm
  obtain ⟨hplain, htells⟩ := haction m hm
  unfold Eval.located
  cases hrun : action m with
  | ok a m₁ =>
      rw [hrun] at hplain
      exact ⟨hplain, trivial⟩
  | error e m₁ =>
      rw [hrun] at hplain htells
      cases e with
      | failure f => exact ⟨hplain, Failure.Tells.orPosition htells hp⟩
      | _ => exact ⟨hplain, trivial⟩

theorem nested {action : Eval α} (haction : Worded action) : Worded (nested action) := by
  intro m hm
  rcases Nat.lt_or_ge m.depth m.limit with hlimit | hlimit
  · obtain ⟨hplain, htells⟩ := haction { m with depth := m.depth + 1 } ⟨hm.code, hm.named, hm.writesLeft⟩
    rw [nested_of_lt action hlimit, state_mapState]
    exact ⟨⟨hplain.code, hplain.named, hplain.writesLeft⟩, htells.mapState fun _ => rfl⟩
  · rw [nested_of_le action hlimit]
    exact raise (fun _ => .silent rfl rfl) m hm

/-- A failure that is handed on tells what it told when it was met. -/
theorem caught {action : Eval Value} {next : Reply → Eval α} (haction : Worded action)
    (hok : ∀ v, Worded (next (.ok v)))
    (herror : ∀ f, next (.error f) = throw (.failure f) ∨ Worded (next (.error f))) :
    Worded (attempt action >>= next) := by
  intro m hm
  obtain ⟨hplain, htells⟩ := haction m hm
  refine attempt_bind_cases (P := fun result => result.state.Plain ∧ FailsTelling (·.heap) result) herror
    (fun v m₁ hrun => ?_) (fun f m₁ hcaught hrun => ?_) fun e m₁ hrun => ?_
  · rw [hrun] at hplain
    exact hok v m₁ hplain
  · rw [hrun] at hplain
    exact hcaught m₁ hplain
  · rw [hrun] at hplain htells
    exact ⟨hplain, htells.passed rfl⟩

theorem borrowing (cell : Cell) {action : Eval α} (haction : Worded action) : Worded (borrowing cell action) := by
  intro m hm
  by_cases hcell : cell ∈ m.borrowed
  · rw [borrowing_of_mem action hcell]
    exact ⟨hm, trivial⟩
  · obtain ⟨hplain, htells⟩ := haction { m with borrowed := cell :: m.borrowed } ⟨hm.code, hm.named, hm.writesLeft⟩
    rw [borrowing_of_not_mem action hcell, state_mapState]
    exact ⟨⟨hplain.code, hplain.named, hplain.writesLeft⟩, htells.mapState fun _ => rfl⟩

end Worded

def wordedWalk : StepWalk Code.plain Heap.Named Unit where
  Holds _ action := Worded (action ())
  Places p := OneLine p.source
  elementary := Worded.elementary
  bind haction hnext := haction.bind hnext
  inside scope _ hnext m hm :=
    hnext ⟨⟨m.scopes.frames.size⟩, scope.chain⟩ _ ⟨hm.code, hm.named, hm.writesLeft⟩
  located _ hp haction := haction.located hp
  exhausted _ hm := ⟨hm, trivial⟩
  nested haction := haction.nested
  reading _ hnext m hm := hnext m.heap m.toHostState hm.code hm.named hm.writesLeft m hm
  caught haction hok herror := haction.caught hok fun f => (herror f).imp (· ()) (·.2)
  borrowing cell _ haction := haction.borrowing cell
  writeItem target index v :=
    .onHeap (Operation.telling_writeItem target index v) (Operation.regular_writeItem target index v)

end Eval

/-! ### Runs -/

open Eval

namespace Session

theorem worded_finish {result : EStateM.Result Interrupt Machine Value} (hplain : result.state.Plain)
    (htells : FailsTelling (·.heap) result) (arena : ArenaId) (limit : Nat) :
    (finish arena limit result).state.Plain ∧ FailsTelling (·.heap) (finish arena limit result) := by
  cases result with
  | ok v m => exact ⟨⟨hplain.code, hplain.named, hplain.writesLeft⟩, trivial⟩
  | error e m =>
      cases e with
      | failure f => exact ⟨⟨hplain.code, hplain.named, hplain.writesLeft⟩, htells⟩
      | _ => exact ⟨⟨hplain.code, hplain.named, hplain.writesLeft⟩, trivial⟩

theorem worded_runWith (fuel : Nat) (s : Session) {p : Program} (hbody : ∀ n ∈ p.body, Code.plain.node n) :
    Worded (runWith fuel s p) := by
  intro m hm
  have hplaces : ∀ home w, Code.plain.work home w → w.LocatedIn fun p => OneLine p.source := by
    rintro home w hw scope n rfl -
    obtain ⟨-, source, hsource, hn⟩ := hw
    rw [hn.here.source_eq]
    exact hsource
  have hstatements : Worded (statements (Eval.execute fuel) (s.start m).root .none p.body) :=
    wordedWalk.statements fuel (s.start m).root hbody .none hplaces
  obtain ⟨hplain, htells⟩ := hstatements (s.start m).machine ⟨hm.code, hm.named, hm.writesLeft⟩
  exact worded_finish hplain htells _ _

/-- What a source is rejected with is told in one line. -/
theorem oneLine_of_compile {source text : String} (hsource : OneLine source) {m m' : Machine} {d : Diagnostic}
    (hcompile : compile source text m = .error (.failure (.diagnostic d)) m') : OneLine d.message := by
  obtain ⟨p, hparse⟩ | ⟨e, before, hparse, -, hposition⟩ := Program.parse_ok_or_rejected source text
  · rw [compile, hparse] at hcompile
    cases hcompile
  · rw [compile, hparse] at hcompile
    cases hcompile
    refine (Diagnostic.oneLine_message_iff ?_ rfl).2 (Program.oneLine_of_rejected hparse)
    intro p hp
    rw [← Option.some.inj hp, hposition]
    exact hsource

end Session

/-- Plain callbacks show texts, and so does no failure of theirs. -/
theorem Callbacks.honour_plain_of_open : plain.Honour .plain := by
  refine honour_plain (fun args => ?_) (fun line host hhost => ?_) (fun host hhost => ?_) fun host hhost => ?_
  · exact .get_bind fun h => .bind (Operation.telling_argument _ _) fun v => .pure _
  · obtain ⟨⟨input, output, writesLeft, closed⟩, updates⟩ := host
    change writesLeft = none at hhost
    subst hhost
    refine ⟨rfl, fun f hf => ?_⟩
    cases hf
  · obtain ⟨⟨-, hkept⟩, herror⟩ := host.readLine_closed
    exact ⟨hkept.trans hhost, fun f hf h => herror f hf ▸ trivial⟩
  · obtain ⟨hconsole, hnever⟩ := host.nextUpdate_console
    exact ⟨(congrArg Console.writesLeft hconsole).trans hhost, fun f hf => (hnever f hf).elim⟩

/-- The objects of the standard library have names of one line, and so have their functions. -/
theorem Library.standard_plain {m : Machine} (hm : m.Plain) :
    ∃ library m', onHeap Library.standard m = .ok library m' ∧ m'.Plain := by
  obtain ⟨library, h, hstandard, hcode⟩ := Library.standardOf_code Callbacks.honour_plain_of_open
    (fun _ _ hhonours _ => And.intro hhonours (.inl trivial)) hm.code
  refine ⟨library, _, onHeap_of_ok hstandard, hcode, ?_, hm.writesLeft⟩
  cases hstandard
  refine ⟨fun f hf => ?_, fun o ho => ?_⟩
  · simp only [Array.mem_push, or_assoc] at hf
    rcases hf with hf | rfl | rfl | rfl | rfl | rfl | rfl
    · exact hm.named.functions f hf
    · exact (by decide : OneLine "WriteLine")
    · exact (by decide : OneLine "ReadLine")
    · exact (by decide : OneLine "ToString")
    · exact (by decide : OneLine "ToBool")
    · exact (by decide : OneLine "ToNumber")
    · exact (by decide : OneLine "Update")
  · simp only [Array.mem_push, or_assoc] at ho
    rcases ho with ho | rfl | rfl | rfl
    · exact hm.named.objects o ho
    · exact (by decide : OneLine "Console")
    · exact (by decide : OneLine "Convert")
    · exact (by decide : OneLine "System")

/-- **A diagnostic takes one line unless it shows a value that does not.** A source whose name is of one line is
rejected in one line. A run of it, with the standard library or none on a console that does not close, fails in one line
too, except that a diagnostic may show the text of a value that cannot be converted or is no index: then it takes one
line just if that text does. Names come from the source, and a name has no line feed in it. The run leaves such a
machine behind, so that the next does no other. -/
theorem diagnostics_take_one_line_iff {source : String} (hsource : OneLine source) (text : String)
    (fuel maxCallDepth : Nat) (m : Machine) (hm : m.Plain) :
    (∀ d m', Session.compile source text m = .error (.failure (.diagnostic d)) m' → OneLine d.message) ∧
      ∀ loading ∈ [pure [], Library.standard],
        ((onHeap loading >>= fun library =>
            Session.compile source text >>= Session.runWith fuel ⟨library, maxCallDepth⟩) m).state.Plain ∧
          ∀ d m', (onHeap loading >>= fun library =>
              Session.compile source text >>= Session.runWith fuel ⟨library, maxCallDepth⟩) m =
                .error (.failure (.diagnostic d)) m' →
            (OneLine d.message ↔ ∀ shown ∈ d.shown?, OneLine shown) ∧
              ∀ shown ∈ d.shown?, ∃ v, shown = m'.heap.display v := by
  refine ⟨fun d m' => Session.oneLine_of_compile hsource, fun loading hloading => ?_⟩
  have hloaded : ∃ library m₁, onHeap loading m = .ok library m₁ ∧ m₁.Plain := by
    simp only [List.mem_cons, List.not_mem_nil, or_false] at hloading
    obtain rfl | rfl := hloading
    · exact ⟨[], m, rfl, hm⟩
    · exact Library.standard_plain hm
  obtain ⟨library, m₁, hloaded, hm₁⟩ := hloaded
  rw [Action.bind_of_ok hloaded]
  obtain ⟨p, hparse⟩ | ⟨e, before, hparse, -, hposition⟩ := Program.parse_ok_or_rejected source text
  · have hcompile : Session.compile source text m₁ = .ok p m₁ := by
      rw [Session.compile, hparse]
      rfl
    have hbody (n : Node) (hn : n ∈ p.body) : Code.plain.node n := ⟨source, hsource, Program.plain_of_parse hparse n hn⟩
    rw [Action.bind_of_ok hcompile]
    obtain ⟨hplain, htells⟩ := Session.worded_runWith fuel ⟨library, maxCallDepth⟩ hbody m₁ hm₁
    refine ⟨hplain, fun d m' hrun => ?_⟩
    rw [hrun] at htells
    exact ⟨Diagnostic.Tells.oneLine_message_iff htells, Diagnostic.Tells.exists_eq_display htells⟩
  · have hcompile : Session.compile source text m₁ = .error (.failure (.diagnostic e.diagnostic)) m₁ := by
      rw [Session.compile, hparse]
      rfl
    rw [Action.bind_of_error hcompile]
    refine ⟨hm₁, fun d m' hrun => ?_⟩
    cases hrun
    have hsilent (shown : String) : shown ∉ e.diagnostic.shown? := Option.not_mem_none shown
    exact ⟨iff_of_true (Session.oneLine_of_compile hsource hcompile) fun shown h => (hsilent shown h).elim,
      fun shown h => (hsilent shown h).elim⟩

/-- A program that reads a variable that nothing has written fails in one line. -/
theorem undefined_variable_takes_one_line :
    OneLine "test" ∧ (Machine.ofConsole (.ofInput [])).Plain ∧
      ∃ d m', (onHeap Library.standard >>= fun library =>
          Session.compile "test" "x" >>= Session.runWith 8 ⟨library, 8⟩) (.ofConsole (.ofInput [])) =
            .error (.failure (.diagnostic d)) m' ∧
        d.shown? = none ∧ OneLine d.message := by
  have hsource : OneLine "test" := by decide
  have hm := Machine.plain_ofInput []
  have hparse : Program.parse "test" "x" = .ok ⟨"test", [.var ⟨"test", 1, 1⟩ "x"]⟩ := by decide +kernel
  have hrun : ∃ m', (onHeap Library.standard >>= fun library =>
      Session.compile "test" "x" >>= Session.runWith 8 ⟨library, 8⟩) (.ofConsole (.ofInput [])) =
        .error (.failure (.diagnostic ⟨.running (.undefinedVariable "x"), some ⟨"test", 1, 1⟩, []⟩)) m' := by
    simp only [Session.compile, hparse]
    exact ⟨_, rfl⟩
  obtain ⟨m', hrun⟩ := hrun
  obtain ⟨-, hruns⟩ := diagnostics_take_one_line_iff hsource "x" 8 8 _ hm
  obtain ⟨-, htells⟩ := hruns _ (List.mem_cons_of_mem _ List.mem_cons_self)
  exact ⟨hsource, hm, _, m', hrun, rfl, (htells _ m' hrun).1.2 fun shown h => (Option.not_mem_none shown h).elim⟩

/-- An index that is no integer is shown as it is, here over two lines. -/
theorem index_takes_two_lines :
    OneLine "test" ∧
      ∃ d m', (onHeap (pure []) >>= fun library =>
          Session.compile "test" "[]['\\n']" >>= Session.runWith 8 ⟨library, 8⟩) (.ofConsole (.ofInput [])) =
            .error (.failure (.diagnostic d)) m' ∧
        d.message = "Runtime error at test: 1,3: array index must be an integer but found \n" ∧
        ¬ OneLine d.message := by
  have hparse : Program.parse "test" "[]['\\n']" =
      .ok ⟨"test", [.item ⟨"test", 1, 3⟩ (.list ⟨"test", 1, 1⟩ []) (.literal ⟨"test", 1, 4⟩ (.string "\n"))]⟩ := by
    decide +kernel
  have hrun : ∃ m', (onHeap (pure []) >>= fun library =>
      Session.compile "test" "[]['\\n']" >>= Session.runWith 8 ⟨library, 8⟩) (.ofConsole (.ofInput [])) =
        .error (.failure (.diagnostic ⟨.running (.indexNotInteger "\n"), some ⟨"test", 1, 3⟩, []⟩)) m' := by
    simp only [Session.compile, hparse]
    exact ⟨_, rfl⟩
  obtain ⟨m', hrun⟩ := hrun
  exact ⟨by decide, _, m', hrun, by decide +kernel, by decide +kernel⟩

end LineScript
