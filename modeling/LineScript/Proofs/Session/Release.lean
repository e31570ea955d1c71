import LineScript.Proofs.Evaluation.Locality
import LineScript.Session
/-!
# What a run leaves in its scopes

A function that outlives the run it was made in keeps the frames around it. At the end of the run the arena empties the
outermost frame and each frame in which a function was made, and no other: a block between the two that holds variables
keeps them, and the function goes on to see them.
-/

namespace LineScript

theorem Heap.function_newFunction_of_lt {h : Heap} (f : Function) {id : FunctionId}
    (hid : id.index < h.functions.size) : (h.newFunction f).2.function id = h.function id := by
  unfold function newFunction
  rw [Array.getElem?_push_lt hid, Array.getElem?_eq_getElem hid]

theorem Heap.function_newFunction_of_eq {h : Heap} (f : Function) {id : FunctionId}
    (hid : id.index = h.functions.size) : (h.newFunction f).2.function id = f := by
  unfold function newFunction
  rw [hid, Array.getElem?_push_size]
  rfl

theorem Heap.index_lt_of_script {h : Heap} {id : FunctionId} {body : List Node} {scope : Scope}
    (hbody : (h.function id).body = .script body scope) : id.index < h.functions.size := by
  refine Nat.lt_of_not_le fun hle => ?_
  rw [function, Array.getElem?_eq_none hle] at hbody
  cases hbody

namespace Machine

/-- The run that started on `before` has made a function whose own frame is `frame`. -/
def Captures (before m : Machine) (frame : FrameId) : Prop :=
  ∃ id : FunctionId, before.heap.functions.size ≤ id.index ∧ id.index < m.heap.functions.size ∧
    ∃ body scope, (m.heap.function id).body = .script body scope ∧ scope.frame = frame

end Machine

namespace Session

/-- What holds of the arena of a run at all times: it lists the outermost frame and those of its own frames in which a
function was made. -/
structure Tracks (before : Machine) (start : Start) (m : Machine) : Prop where
  functions_le : before.heap.functions.size ≤ m.heap.functions.size
  arena_lt : start.arena.index < m.scopes.arenas.size
  root_lt : start.root.frame.index < m.scopes.frames.size
  captured_lt : ∀ frame, before.Captures m frame → frame.index < m.scopes.frames.size
  mem_tracked_iff : ∀ frame, frame ∈ m.scopes.tracked start.arena ↔
    frame = start.root.frame ∨ before.Captures m frame ∧ m.scopes.arena? frame = some start.arena

variable {before : Machine} {start : Start} {home : FrameId} {m m' : Machine}

/-- A step that leaves alone the functions that hold frames, the arenas and the frames' arenas. -/
theorem Tracks.of_captures (htracks : Tracks before start m)
    (hfunctions : m.heap.functions.size ≤ m'.heap.functions.size)
    (hcaptures : ∀ frame, before.Captures m' frame ↔ before.Captures m frame)
    (harenas : m'.scopes.arenas = m.scopes.arenas) (hframes : m'.scopes.frames.size = m.scopes.frames.size)
    (harena? : ∀ frame, m'.scopes.arena? frame = m.scopes.arena? frame) : Tracks before start m' := by
  obtain ⟨hfunctions_le, harena_lt, hroot_lt, hcaptured_lt, hmem⟩ := htracks
  refine ⟨Nat.le_trans hfunctions_le hfunctions, harenas ▸ harena_lt, hframes ▸ hroot_lt, ?_, ?_⟩
  · intro frame hframe
    rw [hframes]
    exact hcaptured_lt frame ((hcaptures frame).1 hframe)
  · intro frame
    unfold Scopes.tracked
    rw [harenas, hcaptures, harena?]
    exact hmem frame

/-- A step that leaves the functions, the arenas and the frames' arenas alone. -/
theorem Tracks.congr (htracks : Tracks before start m) (hfunctions : m'.heap.functions = m.heap.functions)
    (harenas : m'.scopes.arenas = m.scopes.arenas) (hframes : m'.scopes.frames.size = m.scopes.frames.size)
    (harena? : ∀ frame, m'.scopes.arena? frame = m.scopes.arena? frame) : Tracks before start m' := by
  refine htracks.of_captures (Nat.le_of_eq (congrArg Array.size hfunctions.symm)) (fun frame => ?_) harenas hframes
    harena?
  unfold Machine.Captures Heap.function
  rw [hfunctions]

theorem Tracks.newChild (htracks : Tracks before start m) (scope : Scope) (bindings : Bindings) :
    Tracks before start { m with scopes := (m.scopes.newChild scope bindings).2 } := by
  have hsize := m.scopes.size_frames_newChild scope bindings
  obtain ⟨hfunctions_le, harena_lt, hroot_lt, hcaptured_lt, hmem⟩ := htracks
  refine ⟨hfunctions_le, harena_lt, ?_, ?_, ?_⟩
  · show start.root.frame.index < (m.scopes.newChild scope bindings).2.frames.size
    omega
  · intro frame hframe
    have hlt := hcaptured_lt frame hframe
    show frame.index < (m.scopes.newChild scope bindings).2.frames.size
    omega
  · intro frame
    show frame ∈ m.scopes.tracked start.arena ↔ frame = start.root.frame ∨ before.Captures m frame ∧
      (m.scopes.newChild scope bindings).2.arena? frame = some start.arena
    rw [hmem frame]
    -- The new frame is neither the outermost one nor that of a function.
    refine or_congr_right (and_congr_right fun hframe => ?_)
    rw [m.scopes.arena?_newChild scope bindings (hcaptured_lt frame hframe)]

theorem captures_newFunction (hfunctions_le : before.heap.functions.size ≤ m.heap.functions.size) (scopes : Scopes)
    (f : Function) (frame : FrameId) :
    before.Captures { m with heap := (m.heap.newFunction f).2, scopes } frame ↔
      before.Captures m frame ∨ ∃ body scope, f.body = .script body scope ∧ scope.frame = frame := by
  have hsize : (m.heap.newFunction f).2.functions.size = m.heap.functions.size + 1 := Array.size_push _
  constructor
  · rintro ⟨id, hle, hlt, body, scope, hbody, hframe⟩
    replace hlt : id.index < (m.heap.newFunction f).2.functions.size := hlt
    rcases Nat.lt_or_ge id.index m.heap.functions.size with hold | hnew
    · rw [Heap.function_newFunction_of_lt _ hold] at hbody
      exact .inl ⟨id, hle, hold, body, scope, hbody, hframe⟩
    · rw [Heap.function_newFunction_of_eq _ (by omega)] at hbody
      exact .inr ⟨body, scope, hbody, hframe⟩
  · rintro (⟨id, hle, hlt, body, scope, hbody, hframe⟩ | ⟨body, scope, hbody, hframe⟩)
    · refine ⟨id, hle, ?_, body, scope, ?_, hframe⟩
      · show id.index < (m.heap.newFunction f).2.functions.size
        omega
      · rw [Heap.function_newFunction_of_lt _ hlt]
        exact hbody
    · refine ⟨⟨m.heap.functions.size⟩, hfunctions_le, ?_, body, scope, ?_, hframe⟩
      · show m.heap.functions.size < (m.heap.newFunction f).2.functions.size
        omega
      · exact (congrArg Function.body (Heap.function_newFunction_of_eq _ rfl)).trans hbody

/-- A function of the host holds no frame. -/
theorem Tracks.hostFunction (htracks : Tracks before start m) (name : String) (params : List String)
    (operation : Native) :
    Tracks before start { m with heap := (m.heap.newFunction ⟨name, params, .native operation⟩).2 } := by
  refine htracks.of_captures (by simp [Heap.newFunction]) (fun frame => ?_) rfl rfl fun _ => rfl
  refine (captures_newFunction htracks.functions_le m.scopes _ frame).trans (or_iff_left ?_)
  rintro ⟨body, scope, hbody, -⟩
  cases hbody

theorem Tracks.function (htracks : Tracks before start m) (scope : Scope)
    (hscope : scope.frame.index < m.scopes.frames.size) (name : String) (params : List String) (body : List Node) :
    Tracks before start { m with
      heap := (m.heap.newFunction ⟨name, params, .script body scope⟩).2, scopes := m.scopes.capture scope } := by
  obtain ⟨hfunctions_le, harena_lt, hroot_lt, hcaptured_lt, hmem⟩ := htracks
  have hframes := m.scopes.frames_capture scope
  refine ⟨?_, ?_, ?_, ?_, ?_⟩
  · exact Nat.le_trans hfunctions_le (by simp [Heap.newFunction])
  · exact (m.scopes.size_arenas_capture scope).symm ▸ harena_lt
  · exact hframes.symm ▸ hroot_lt
  · intro frame hframe
    refine hframes.symm ▸ ?_
    rcases (captures_newFunction hfunctions_le _ _ frame).1 hframe with hcaptured | ⟨_, _, hbody, rfl⟩
    · exact hcaptured_lt frame hcaptured
    · cases hbody
      exact hscope
  · intro frame
    have hown : (∃ made inner, FunctionBody.script body scope = .script made inner ∧ inner.frame = frame) ↔
        frame = scope.frame := by
      constructor
      · rintro ⟨_, _, hbody, rfl⟩
        cases hbody
        rfl
      · rintro rfl
        exact ⟨body, scope, rfl, rfl⟩
    rw [captures_newFunction hfunctions_le, hown]
    show frame ∈ (m.scopes.capture scope).tracked start.arena ↔ frame = start.root.frame ∨
      (before.Captures m frame ∨ frame = scope.frame) ∧ (m.scopes.capture scope).arena? frame = some start.arena
    rw [Scopes.mem_tracked_capture _ harena_lt, hmem frame, Scopes.arena?_capture, or_and_right, or_assoc]

theorem Tracks.evolves {code : Code} (htracks : Tracks before start m) (hevolves : code.Evolves home m m')
    (hhome : home.index < m.scopes.frames.size) : Tracks before start m' := by
  induction hevolves with
  | refl | host | hostObject => exact htracks.congr rfl rfl rfl fun _ => rfl
  | trans hfirst _ ih₁ ih₂ => exact ih₂ (ih₁ htracks hhome) (Nat.lt_of_lt_of_le hhome hfirst.frames_size_le)
  | heap m hheap => exact htracks.congr hheap.functions_eq rfl rfl fun _ => rfl
  | assign m scope name value =>
      exact htracks.congr rfl rfl (Scopes.size_frames_define _ _ _ _) fun frame => Scopes.arena?_define _ _ _ _ frame
  | function m scope name params _ => exact htracks.function scope hhome name params _
  | hostFunction m name params _ => exact htracks.hostFunction name params _
  | inside m scope bindings _ ih =>
      refine ih (htracks.newChild scope bindings) ?_
      show m.scopes.frames.size < (m.scopes.newChild scope bindings).2.frames.size
      rw [Scopes.size_frames_newChild]
      exact Nat.lt_succ_self _
  | nested _ ih =>
      have htracks' := ih (htracks.congr rfl rfl rfl fun _ => rfl) hhome
      exact htracks'.congr rfl rfl rfl fun _ => rfl
  | borrowing _ _ ih =>
      have htracks' := ih (htracks.congr rfl rfl rfl fun _ => rfl) hhome
      exact htracks'.congr rfl rfl rfl fun _ => rfl

/-! ### Runs -/

theorem tracks_start (s : Session) (m : Machine) : Tracks m (s.start m) (s.start m).machine := by
  have hnone (frame : FrameId) : ¬ m.Captures (s.start m).machine frame := by
    rintro ⟨id, hle, hlt, -⟩
    exact Nat.not_lt.2 hle hlt
  have htracked : (s.start m).machine.scopes.tracked (s.start m).arena = [(s.start m).root.frame] := by
    refine (Scopes.tracked_track_self _ ?_ _).trans ?_
    · simp
    · simp [start, Scopes.newArena, Scopes.newArenaRoot, Scopes.addFrame, Scopes.tracked]
  refine ⟨Nat.le_refl _, ?_, ?_, fun frame hframe => (hnone frame hframe).elim, fun frame => ?_⟩
  · simp [start, Scopes.newArena, Scopes.newArenaRoot, Scopes.addFrame, Scopes.track]
  · simp [start, Scopes.newArena, Scopes.newArenaRoot, Scopes.addFrame, Scopes.track]
  · rw [htracked, List.mem_singleton]
    exact ⟨.inl, fun hor => hor.elim id fun hframe => (hnone frame hframe.1).elim⟩

/-- What the evaluation of a program comes to, before the scopes of the run are emptied. -/
def evaluated (fuel : Nat) (s : Session) (p : Program) (m : Machine) : EStateM.Result Interrupt Machine Value :=
  Eval.statements (Eval.execute fuel) (s.start m).root .none p.body (s.start m).machine

theorem tracks_evaluated (fuel : Nat) (s : Session) (p : Program) (m : Machine) :
    Tracks m (s.start m) (evaluated fuel s p m).state := by
  have hkeeps : Eval.Keeps Code.any (s.start m).root.frame
      (Eval.statements (Eval.execute fuel) (s.start m).root .none p.body) :=
    Eval.keeps_statements Code.any fuel _ (fun _ _ => trivial) .none
  exact (tracks_start s m).evolves (hkeeps _ (Code.any_machine _)) (tracks_start s m).root_lt

/-- The host is given a value or an error. -/
def Returns : EStateM.Result Interrupt Machine Value → Prop
  | .ok _ _ => True
  | .error e _ => ∃ f, e = .failure f

theorem state_runWith {fuel : Nat} {s : Session} {p : Program} {m : Machine}
    (hreturns : Returns (runWith fuel s p m)) :
    (runWith fuel s p m).state =
      { (evaluated fuel s p m).state with
        scopes := (evaluated fuel s p m).state.scopes.release (s.start m).arena, limit := m.limit } := by
  have hrun : runWith fuel s p m = finish (s.start m).arena m.limit (evaluated fuel s p m) := rfl
  rw [hrun] at hreturns ⊢
  cases hevaluated : evaluated fuel s p m with
  | ok v ended => rfl
  | error e ended =>
      rw [hevaluated] at hreturns
      cases e with
      | failure f => rfl
      | fault f | outOfFuel =>
          obtain ⟨f, hf⟩ := hreturns
          cases hf

/-- The frames that a run empties when it ends: its outermost one, and those of its own in which it made a function. -/
def Empties (fuel : Nat) (s : Session) (p : Program) (m : Machine) (frame : FrameId) : Prop :=
  frame = (s.start m).root.frame ∨
    m.Captures (evaluated fuel s p m).state frame ∧
      (evaluated fuel s p m).state.scopes.arena? frame = some (s.start m).arena

theorem bindings_runWith {fuel : Nat} {s : Session} {p : Program} {m : Machine}
    (hreturns : Returns (runWith fuel s p m)) (frame : FrameId) :
    (Empties fuel s p m frame → (runWith fuel s p m).state.scopes.bindings frame = []) ∧
      (¬ Empties fuel s p m frame → (runWith fuel s p m).state.scopes.bindings frame =
        (evaluated fuel s p m).state.scopes.bindings frame) := by
  have hmem := (tracks_evaluated fuel s p m).mem_tracked_iff frame
  rw [state_runWith hreturns]
  show (_ → Scopes.bindings (Scopes.release _ _) frame = []) ∧ (_ → Scopes.bindings (Scopes.release _ _) frame = _)
  rw [Scopes.bindings_release]
  exact ⟨fun hempties => if_pos (hmem.2 hempties), fun hkept => if_neg fun htracked => hkept (hmem.1 htracked)⟩

theorem bindings_runWith_eq_nil_iff {fuel : Nat} {s : Session} {p : Program} {m : Machine}
    (hreturns : Returns (runWith fuel s p m)) (frame : FrameId) :
    (runWith fuel s p m).state.scopes.bindings frame = [] ↔
      Empties fuel s p m frame ∨ (evaluated fuel s p m).state.scopes.bindings frame = [] := by
  obtain ⟨hemptied, hkept⟩ := bindings_runWith hreturns frame
  by_cases hempties : Empties fuel s p m frame
  · exact ⟨fun _ => .inl hempties, fun _ => hemptied hempties⟩
  · rw [hkept hempties]
    exact ⟨.inr, fun hor => hor.resolve_left hempties⟩

/-- When a run has returned, a function that it made finds no variable through its scope exactly if each frame around
it that still held variables at the end of the evaluation is the run's outermost one, or one of the run's in which a
function was made. In particular its own frame is empty if it is one of the run's. -/
theorem outliving_function_finds_nothing_iff {fuel : Nat} {s : Session} {p : Program} {m : Machine}
    (hreturns : Returns (runWith fuel s p m)) {id : FunctionId} (hmade : m.heap.functions.size ≤ id.index)
    {body : List Node} {scope : Scope}
    (hbody : ((runWith fuel s p m).state.heap.function id).body = .script body scope) :
    ((∀ name, (runWith fuel s p m).state.scopes.get? scope name = none) ↔
        ∀ frame ∈ scope.chain, (runWith fuel s p m).state.scopes.bindings frame = []) ∧
      ((∀ frame ∈ scope.chain, (runWith fuel s p m).state.scopes.bindings frame = []) ↔
        ∀ frame ∈ scope.chain, Empties fuel s p m frame ∨ (evaluated fuel s p m).state.scopes.bindings frame = []) ∧
      ((runWith fuel s p m).state.scopes.arena? scope.frame = some (s.start m).arena →
        (runWith fuel s p m).state.scopes.bindings scope.frame = []) := by
  refine ⟨Scopes.get?_eq_none_iff _ scope, ?_, fun harena => ?_⟩
  · exact forall₂_congr fun frame _ => bindings_runWith_eq_nil_iff hreturns frame
  · refine (bindings_runWith hreturns scope.frame).1 (.inr ⟨⟨id, hmade, ?_, body, scope, ?_, rfl⟩, ?_⟩)
    all_goals rw [state_runWith hreturns] at hbody harena
    · exact Heap.index_lt_of_script hbody
    · exact hbody
    · exact (Scopes.arena?_release _ _ _).symm.trans harena

/-- A function made at the top of a program, which names a variable of the program. -/
def functionAtTop (p : Position) : Program where
  source := ""
  body := [.assign p "x" (.literal p (.number .one)), .function p none [] [.var p "x"]]

theorem functionAtTop_finds_nothing :
    Returns (runWith 8 ⟨[], 8⟩ (functionAtTop (.start "")) (.ofConsole (.ofInput []))) ∧
      ((runWith 8 ⟨[], 8⟩ (functionAtTop (.start "")) (.ofConsole (.ofInput []))).state.heap.function ⟨0⟩).body =
        .script [.var (.start "") "x"] ⟨⟨0⟩, []⟩ ∧
      ∀ name, (runWith 8 ⟨[], 8⟩ (functionAtTop (.start "")) (.ofConsole (.ofInput []))).state.scopes.get?
        ⟨⟨0⟩, []⟩ name = none := by
  have hreturns : Returns (runWith 8 ⟨[], 8⟩ (functionAtTop (.start "")) (.ofConsole (.ofInput []))) := trivial
  have hbody :
      ((runWith 8 ⟨[], 8⟩ (functionAtTop (.start "")) (.ofConsole (.ofInput []))).state.heap.function ⟨0⟩).body =
        .script [.var (.start "") "x"] ⟨⟨0⟩, []⟩ := rfl
  obtain ⟨hfinds, hempty, -⟩ := outliving_function_finds_nothing_iff hreturns (Nat.zero_le _) hbody
  refine ⟨hreturns, hbody, hfinds.2 (hempty.2 fun frame hframe => .inl (.inl ?_))⟩
  exact List.mem_singleton.1 hframe

/-- The same function inside two blocks, the outer of which has the variable. -/
def functionInBlocks (p : Position) : Program where
  source := ""
  body := [.block p [.assign p "x" (.literal p (.number .one)), .block p [.function p none [] [.var p "x"]]]]

/-- After the run the function still finds the variable of the outer block, and a call of it returns its value. -/
theorem functionInBlocks_finds_variable :
    ∃ after id body scope,
      runWith 8 ⟨[], 8⟩ (functionInBlocks (.start "")) (.ofConsole (.ofInput [])) = .ok (.function id) after ∧
        (after.heap.function id).body = .script body scope ∧
        after.scopes.get? scope "x" = some (.number .one) ∧
        Eval.execute 8 (.call (.function id) []) after =
          .ok (.number .one) { after with scopes := (after.scopes.newChild scope []).2 } :=
  ⟨_, _, _, _, rfl, rfl, rfl, rfl⟩

end Session

end LineScript
