import LineScript.Bindings
/-!
# Scopes

A frame holds the variables of one block or call. A scope is a frame with the frames around it, nearest first: a
name means the nearest binding of it, and writing a name that none of them binds binds it in the scope's own frame.

The frames of one run belong to an arena. The arena keeps a list of the frames that outlive their block, those
at the root and those that a function has captured, and empties them when the run is over.
-/

namespace LineScript

structure FrameId where
  index : Nat
deriving DecidableEq, Repr

structure ArenaId where
  index : Nat
deriving DecidableEq, Repr

structure Scope where
  frame : FrameId
  outer : List FrameId
deriving DecidableEq, Repr

namespace Scope

/-- The frames of a scope, nearest first. -/
def chain (s : Scope) : List FrameId :=
  s.frame :: s.outer

def parent? (s : Scope) : Option Scope :=
  match s.outer with
  | [] => none
  | frame :: outer => some ⟨frame, outer⟩

/-- The outermost scope around this one. -/
def root (s : Scope) : Scope :=
  ⟨s.outer.getLastD s.frame, []⟩

end Scope

structure Frame where
  bindings : Bindings
  arena : Option ArenaId

/-- All frames that have been made, and for each arena the frames it is to empty, latest first. -/
structure Scopes where
  frames : Array Frame
  arenas : Array (List FrameId)

namespace Scopes

def empty : Scopes :=
  ⟨#[], #[]⟩

def bindings (s : Scopes) (id : FrameId) : Bindings :=
  (s.frames[id.index]?.map (·.bindings)).getD []

def arena? (s : Scopes) (id : FrameId) : Option ArenaId :=
  s.frames[id.index]?.bind (·.arena)

/-! ### Variables -/

def get? (s : Scopes) (scope : Scope) (name : String) : Option Value :=
  scope.chain.findSome? fun id => (s.bindings id).get? name

/-- The nearest frame that binds a name. -/
def binder? (s : Scopes) (scope : Scope) (name : String) : Option FrameId :=
  scope.chain.find? fun id => (s.bindings id).contains name

/-- Binds a name in a frame, whatever the frames around it bind. -/
def define (s : Scopes) (id : FrameId) (name : String) (value : Value) : Scopes :=
  { s with
    frames := s.frames.modify id.index fun f => { f with bindings := Bindings.insert name value f.bindings } }

/-- Writes a name where it is bound, or binds it in the scope's own frame. -/
def assign (s : Scopes) (scope : Scope) (name : String) (value : Value) : Scopes :=
  s.define ((s.binder? scope name).getD scope.frame) name value

/-! ### Frames -/

def addFrame (s : Scopes) (bindings : Bindings) (arena : Option ArenaId) : FrameId × Scopes :=
  (⟨s.frames.size⟩, { s with frames := s.frames.push ⟨bindings, arena⟩ })

/-- A scope with no other around it, which belongs to no arena. -/
def newRoot (s : Scopes) (bindings : Bindings) : Scope × Scopes :=
  let (id, s) := s.addFrame bindings none
  (⟨id, []⟩, s)

/-- A scope inside another, in the same arena. -/
def newChild (s : Scopes) (outer : Scope) (bindings : Bindings) : Scope × Scopes :=
  let (id, s) := s.addFrame bindings (s.arena? outer.frame)
  (⟨id, outer.chain⟩, s)

/-! ### Arenas -/

def newArena (s : Scopes) : ArenaId × Scopes :=
  (⟨s.arenas.size⟩, { s with arenas := s.arenas.push [] })

/-- Lists a frame to be emptied, unless it is the one listed last. -/
def track (s : Scopes) (arena : ArenaId) (id : FrameId) : Scopes :=
  { s with
    arenas := s.arenas.modify arena.index fun tracked =>
      if tracked.head? = some id then tracked else id :: tracked }

/-- The scope of a run, whose frame its arena is to empty. -/
def newArenaRoot (s : Scopes) (arena : ArenaId) (bindings : Bindings) : Scope × Scopes :=
  let (id, s) := s.addFrame bindings (some arena)
  (⟨id, []⟩, s.track arena id)

/-- Notes that a function holds on to a scope. -/
def capture (s : Scopes) (scope : Scope) : Scopes :=
  match s.arena? scope.frame with
  | some arena => s.track arena scope.frame
  | none => s

def clear (s : Scopes) (id : FrameId) : Scopes :=
  { s with frames := s.frames.modify id.index fun f => { f with bindings := [] } }

/-- The frames that an arena lists. -/
def tracked (s : Scopes) (arena : ArenaId) : List FrameId :=
  (s.arenas[arena.index]?).getD []

/-- Empties the frames that an arena lists, and the list. -/
def release (s : Scopes) (arena : ArenaId) : Scopes :=
  let s := (s.tracked arena).foldl clear s
  { s with arenas := s.arenas.modify arena.index fun _ => [] }

end Scopes

end LineScript
