import LineScript.Proofs.Evaluation.Evolution
import LineScript.Proofs.Scope
/-!
# Where names are bound

A name is bound where a writing finds no binding of it: in the frame of the scope that writes. Blocks and calls write
from frames that they make, so they bind no name in a frame that was there before them, and a call that assigns to a
parameter finds the parameter in its own frame.
-/

namespace LineScript

namespace Code.Evolves

variable {code : Code} {home : FrameId} {m m' : Machine}

theorem frames_size_le (hevolves : code.Evolves home m m') : m.scopes.frames.size ≤ m'.scopes.frames.size := by
  induction hevolves with
  | trans _ _ hfirst hsecond => exact Nat.le_trans hfirst hsecond
  | assign m scope name value => exact Nat.le_of_eq (Scopes.size_frames_define _ _ _ _).symm
  | function m scope => exact Nat.le_of_eq (congrArg Array.size (m.scopes.frames_capture scope).symm)
  | inside m scope bindings _ hinner =>
      have hchild := m.scopes.size_frames_newChild scope bindings
      exact Nat.le_trans (Nat.le_trans (Nat.le_succ _) (Nat.le_of_eq hchild.symm)) hinner
  | nested _ hcall => exact hcall
  | borrowing _ _ hheld => exact hheld
  | _ => exact Nat.le_refl _

/-- No frame loses a name, and the names of a frame keep their places. -/
theorem names_prefix (hevolves : code.Evolves home m m') {frame : FrameId}
    (hframe : frame.index < m.scopes.frames.size) :
    (m.scopes.bindings frame).names <+: (m'.scopes.bindings frame).names := by
  induction hevolves with
  | trans hfirst _ ih₁ ih₂ => exact (ih₁ hframe).trans (ih₂ (Nat.lt_of_lt_of_le hframe hfirst.frames_size_le))
  | assign m scope name value => exact m.scopes.names_prefix_assign scope name value frame
  | function m scope =>
      have hbindings := m.scopes.bindings_capture scope frame
      exact ⟨[], (List.append_nil _).trans (congrArg Bindings.names hbindings.symm)⟩
  | inside m scope bindings _ ih =>
      have hbindings := m.scopes.bindings_newChild scope bindings hframe
      rw [← hbindings]
      refine ih ?_
      show frame.index < (m.scopes.newChild scope bindings).2.frames.size
      rw [Scopes.size_frames_newChild]
      exact Nat.lt_succ_of_lt hframe
  | nested _ ih => exact ih hframe
  | borrowing _ _ ih => exact ih hframe
  | _ => exact List.prefix_rfl

/-- Only the frame in which an evaluation takes place gets new names, of the frames that were there before it. -/
theorem names_eq (hevolves : code.Evolves home m m') {frame : FrameId} (hframe : frame.index < m.scopes.frames.size)
    (hhome : frame ≠ home) : (m'.scopes.bindings frame).names = (m.scopes.bindings frame).names := by
  induction hevolves with
  | trans hfirst _ ih₁ ih₂ =>
      rw [ih₂ (Nat.lt_of_lt_of_le hframe hfirst.frames_size_le) hhome, ih₁ hframe hhome]
  | assign m scope name value => exact m.scopes.names_assign_of_ne scope name value hhome
  | function m scope => exact congrArg Bindings.names (m.scopes.bindings_capture scope frame)
  | inside m scope bindings _ ih =>
      have hbindings := m.scopes.bindings_newChild scope bindings hframe
      rw [← hbindings]
      refine ih ?_ fun heq => Nat.ne_of_lt hframe (congrArg FrameId.index heq)
      show frame.index < (m.scopes.newChild scope bindings).2.frames.size
      rw [Scopes.size_frames_newChild]
      exact Nat.lt_succ_of_lt hframe
  | nested _ ih => exact ih hframe hhome
  | borrowing _ _ ih => exact ih hframe hhome
  | _ => rfl

end Code.Evolves

namespace Eval

variable {α : Type}

/-- What can be done in any frame, as the work of blocks and calls, is done in none of those that there are. -/
theorem names_eq_of_keeps {action : Eval α} (hkeeps : ∀ home, Keeps Code.any home action) (m : Machine)
    {frame : FrameId} (hframe : frame.index < m.scopes.frames.size) :
    ((action m).state.scopes.bindings frame).names = (m.scopes.bindings frame).names := by
  have hevolves := hkeeps ⟨m.scopes.frames.size⟩ m (Code.any_machine m)
  exact hevolves.names_eq hframe fun heq => Nat.ne_of_lt hframe (congrArg FrameId.index heq)

theorem keeps_block (code : Code) (fuel : Nat) (home : FrameId) (scope : Scope) {body : List Node}
    (hbody : ∀ n ∈ body, code.node n) : Keeps code home (block (execute fuel) scope body) := by
  have hkeeps := (keepsLaw code Unit).block fuel home scope hbody
  exact hkeeps ()

theorem keeps_blockNode (code : Code) (fuel : Nat) (home : FrameId) (scope : Scope) (p : Position) {body : List Node}
    (hbody : ∀ n ∈ body, code.node n) : Keeps code home (execute fuel (.node scope (.block p body))) := by
  cases fuel with
  | zero => exact fun m _ => .refl m
  | succ fuel => exact keeps_block code fuel home scope hbody

/-- The scope in which a script's function runs, and the scopes with it. -/
def activation (m : Machine) (scope : Scope) (params : List String) (args : List Value) : Scope × Scopes :=
  m.scopes.newChild scope (.ofPairs (params.zip args))

section Activation

variable {m m' : Machine} {scope : Scope} {params : List String} {args : List Value}

/-- An activation binds its parameters as long as it lasts. -/
theorem mem_names_of_param (hargs : args.length = params.length)
    (hevolves : Code.any.Evolves (activation m scope params args).1.frame
      { m with scopes := (activation m scope params args).2 } m')
    {name : String} (hname : name ∈ params) :
    name ∈ (m'.scopes.bindings (activation m scope params args).1.frame).names := by
  have hlt : (activation m scope params args).1.frame.index < (activation m scope params args).2.frames.size := by
    rw [activation, Scopes.size_frames_newChild]
    exact Nat.lt_succ_self _
  refine (hevolves.names_prefix hlt).subset ?_
  show name ∈ ((activation m scope params args).2.bindings (activation m scope params args).1.frame).names
  rw [activation, Scopes.bindings_newChild_self]
  refine Bindings.mem_names_ofPairs ?_
  rwa [List.map_fst_zip (Nat.le_of_eq hargs.symm)]

/-- In an activation, and in the blocks and functions inside it, a parameter is written in the activation's own frame or
in one further in. -/
theorem bindings_writeVariable_of_param (hargs : args.length = params.length)
    (hevolves : Code.any.Evolves (activation m scope params args).1.frame
      { m with scopes := (activation m scope params args).2 } m')
    {name : String} (hname : name ∈ params) {inner : Scope} {made : List FrameId}
    (hinner : inner.chain = made ++ (activation m scope params args).1.chain) (value : Value) {frame : FrameId}
    (hmade : frame ∉ made) (hframe : frame ≠ (activation m scope params args).1.frame) :
    (writeVariable inner name value m').state.scopes.bindings frame = m'.scopes.bindings frame := by
  obtain ⟨binder, hbinder, hwhere⟩ :=
    Scopes.binder?_mem_of_mem_names hinner (mem_names_of_param hargs hevolves hname)
  refine m'.scopes.bindings_assign_of_ne inner name value ?_
  rw [hbinder, Option.getD_some]
  rintro rfl
  exact hwhere.elim hmade hframe

end Activation

/-- **Blocks and calls leave no names behind.** On every machine, the body of a block, branch or loop, a block node and
a call, however they end, leave the names bound in each frame that there was: what they bind is bound in frames that
they make. A script's function runs in such a frame, in which its parameters are bound as long as it runs; a parameter
that is written from the activation, or from a scope inside it, is written there or further in, and no frame outside
changes. -/
theorem blocks_and_calls_keep_names (m : Machine) :
    (∀ fuel scope body frame, frame.index < m.scopes.frames.size →
        ((block (execute fuel) scope body m).state.scopes.bindings frame).names = (m.scopes.bindings frame).names) ∧
      (∀ fuel scope p body frame, frame.index < m.scopes.frames.size →
        ((execute fuel (.node scope (.block p body)) m).state.scopes.bindings frame).names =
          (m.scopes.bindings frame).names) ∧
      (∀ fuel f args frame, frame.index < m.scopes.frames.size →
        ((execute fuel (.call f args) m).state.scopes.bindings frame).names = (m.scopes.bindings frame).names) ∧
      ∀ name params body scope args, args.length = params.length →
        (∀ run, invoke run ⟨name, params, .script body scope⟩ args m =
          statements run (activation m scope params args).1 .none body
            { m with scopes := (activation m scope params args).2 }) ∧
        (activation m scope params args).1.frame.index = m.scopes.frames.size ∧
        (activation m scope params args).2.bindings (activation m scope params args).1.frame =
          .ofPairs (params.zip args) ∧
        ∀ m', Code.any.Evolves (activation m scope params args).1.frame
            { m with scopes := (activation m scope params args).2 } m' →
          ∀ x ∈ params, x ∈ (m'.scopes.bindings (activation m scope params args).1.frame).names ∧
            ∀ inner made, inner.chain = made ++ (activation m scope params args).1.chain →
              ∀ value frame, frame ∉ made → frame ≠ (activation m scope params args).1.frame →
                (writeVariable inner x value m').state.scopes.bindings frame = m'.scopes.bindings frame := by
  refine ⟨fun fuel scope body frame hframe => ?_, fun fuel scope p body frame hframe => ?_,
    fun fuel f args frame hframe => ?_, fun name params body scope args hargs => ⟨fun run => rfl, rfl, ?_, ?_⟩⟩
  · exact names_eq_of_keeps (fun home => keeps_block Code.any fuel home scope fun _ _ => trivial) m hframe
  · exact names_eq_of_keeps (fun home => keeps_blockNode Code.any fuel home scope p fun _ _ => trivial) m hframe
  · exact names_eq_of_keeps (fun home => keeps_execute Code.any fuel home (.call f args) trivial) m hframe
  · exact m.scopes.bindings_newChild_self scope _
  · intro m' hevolves x hx
    refine ⟨mem_names_of_param hargs hevolves hx, fun inner made hinner value frame hmade hframe => ?_⟩
    exact bindings_writeVariable_of_param hargs hevolves hx hinner value hmade hframe

/-- A machine in the scope of a program that has bound one name. -/
def withVariable (name : String) (value : Value) : Machine :=
  { Machine.ofConsole (.ofInput []) with scopes := (Scopes.empty.newRoot [(name, value)]).2 }

/-- A block that writes the name and one of its own leaves the name alone in its frame; and a function whose parameter
has the same name, and which makes another function in a block, writes the name in that block or in its own frame. -/
theorem block_writing_two_names_keeps_names :
    ((block (execute 8) ⟨⟨0⟩, []⟩
        [.assign (.start "") "x" (.literal (.start "") (.bool true)),
          .assign (.start "") "y" (.literal (.start "") .none)]
        (withVariable "x" .none)).state.scopes.bindings ⟨0⟩).names = ["x"] ∧
      (writeVariable ⟨⟨2⟩, [⟨1⟩, ⟨0⟩]⟩ "x" (.bool true)
        { withVariable "x" .none with
          scopes := (activation (withVariable "x" .none) ⟨⟨0⟩, []⟩ ["x"] [.bool false]).2 }).state.scopes.bindings ⟨0⟩ =
        [("x", .none)] := by
  obtain ⟨hblock, -, -, hcall⟩ := blocks_and_calls_keep_names (withVariable "x" .none)
  obtain ⟨-, -, -, hparam⟩ := hcall "f" ["x"] [] ⟨⟨0⟩, []⟩ [.bool false] rfl
  refine ⟨hblock 8 _ _ ⟨0⟩ (by decide), ?_⟩
  exact (hparam _ (.refl _) "x" (by decide)).2 ⟨⟨2⟩, [⟨1⟩, ⟨0⟩]⟩ [⟨2⟩] rfl _ ⟨0⟩ (by decide) (by decide)

end Eval

end LineScript
