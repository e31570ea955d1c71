import LineScript.Proofs.Scope
/-!
# Forests of scopes

The scopes that a host or a program makes form a forest: each is an outermost one, or lies in one that was there before
it, and many may lie in the same. A write from one of them goes to one frame, and which of the others see it depends on
where the name is bound along their own chains. So what reading gives after a write is said for all scopes at once.
-/

namespace LineScript

namespace Scope

theorem chain_injective {scope other : Scope} (hchain : scope.chain = other.chain) : scope = other := by
  obtain ⟨hframe, houter⟩ := List.cons.inj hchain
  cases scope
  cases other
  simp_all

theorem parent?_eq_some_iff {scope outer : Scope} : scope.parent? = some outer ↔ scope.outer = outer.chain := by
  obtain ⟨frame, frames⟩ := scope
  obtain ⟨frame', frames'⟩ := outer
  cases frames <;> simp [parent?, chain]

theorem root_eq_self {scope : Scope} (houtermost : scope.outer = []) : scope.root = scope := by
  obtain ⟨frame, outer⟩ := scope
  cases houtermost
  rfl

end Scope

namespace Scopes

/-! ### Forests -/

/-- The scopes that can be there, one after the other made and written in any order, with those that were made. -/
inductive Built : Scopes → List Scope → Prop
  | empty : Built .empty []
  | newArena {s : Scopes} {made : List Scope} (hbuilt : Built s made) : Built s.newArena.2 made
  | newRoot {s : Scopes} {made : List Scope} (hbuilt : Built s made) (bindings : Bindings) :
      Built (s.newRoot bindings).2 ((s.newRoot bindings).1 :: made)
  | newArenaRoot {s : Scopes} {made : List Scope} (hbuilt : Built s made) (arena : ArenaId) (bindings : Bindings) :
      Built (s.newArenaRoot arena bindings).2 ((s.newArenaRoot arena bindings).1 :: made)
  | newChild {s : Scopes} {made : List Scope} (hbuilt : Built s made) {outer : Scope} (houter : outer ∈ made)
      (bindings : Bindings) : Built (s.newChild outer bindings).2 ((s.newChild outer bindings).1 :: made)
  | define {s : Scopes} {made : List Scope} (hbuilt : Built s made) {scope : Scope} (hscope : scope ∈ made)
      (name : String) (value : Value) : Built (s.define scope.frame name value) made
  | assign {s : Scopes} {made : List Scope} (hbuilt : Built s made) {scope : Scope} (hscope : scope ∈ made)
      (name : String) (value : Value) : Built (s.assign scope name value) made
  | capture {s : Scopes} {made : List Scope} (hbuilt : Built s made) {scope : Scope} (hscope : scope ∈ made) :
      Built (s.capture scope) made
  | release {s : Scopes} {made : List Scope} (hbuilt : Built s made) (arena : ArenaId) : Built (s.release arena) made

/-- Scopes in frames below a number, each with the scope around it, which has an earlier frame. No two of them have the
same frame. -/
structure Forest (frames : Nat) (made : List Scope) : Prop where
  frame_lt : ∀ scope ∈ made, scope.frame.index < frames
  parent_mem : ∀ scope ∈ made, ∀ outer, scope.parent? = some outer → outer ∈ made
  parent_lt : ∀ scope ∈ made, ∀ outer, scope.parent? = some outer → outer.frame.index < scope.frame.index
  frame_injective : ∀ scope ∈ made, ∀ other ∈ made, scope.frame = other.frame → scope = other

namespace Forest

variable {frames : Nat} {made : List Scope}

/-- A scope in a new frame, outermost or inside one that was there. -/
theorem cons (hforest : Forest frames made) {scope : Scope} (hframe : scope.frame.index = frames)
    (hparent : ∀ outer, scope.parent? = some outer → outer ∈ made) : Forest (frames + 1) (scope :: made) where
  frame_lt := List.forall_mem_cons.2
    ⟨by omega, fun other hother => Nat.lt_succ_of_lt (hforest.frame_lt other hother)⟩
  parent_mem := List.forall_mem_cons.2
    ⟨fun outer houter => List.mem_cons_of_mem _ (hparent outer houter),
      fun other hother outer houter => List.mem_cons_of_mem _ (hforest.parent_mem other hother outer houter)⟩
  parent_lt := List.forall_mem_cons.2
    ⟨fun outer houter => hframe ▸ hforest.frame_lt outer (hparent outer houter), hforest.parent_lt⟩
  frame_injective := by
    have hnew {other : Scope} (hother : other ∈ made) : other.frame ≠ scope.frame := fun heq =>
      Nat.ne_of_lt (hforest.frame_lt other hother) (heq ▸ hframe)
    intro first hfirst second hsecond heq
    rcases List.mem_cons.1 hfirst with hfirst | hold <;> rcases List.mem_cons.1 hsecond with hsecond | hold'
    · rw [hfirst, hsecond]
    · exact (hnew hold' (by rw [← heq, hfirst])).elim
    · exact (hnew hold (by rw [heq, hsecond])).elim
    · exact hforest.frame_injective first hold second hold' heq

end Forest

theorem size_frames_newRoot (s : Scopes) (bindings : Bindings) :
    (s.newRoot bindings).2.frames.size = s.frames.size + 1 :=
  Array.size_push _

theorem size_frames_newArenaRoot (s : Scopes) (arena : ArenaId) (bindings : Bindings) :
    (s.newArenaRoot arena bindings).2.frames.size = s.frames.size + 1 :=
  Array.size_push _

theorem Forest.newRoot {s : Scopes} {made : List Scope} (hforest : Forest s.frames.size made) (bindings : Bindings) :
    Forest (s.newRoot bindings).2.frames.size ((s.newRoot bindings).1 :: made) := by
  rw [size_frames_newRoot]
  exact hforest.cons rfl nofun

theorem Forest.newArenaRoot {s : Scopes} {made : List Scope} (hforest : Forest s.frames.size made) (arena : ArenaId)
    (bindings : Bindings) :
    Forest (s.newArenaRoot arena bindings).2.frames.size ((s.newArenaRoot arena bindings).1 :: made) := by
  rw [size_frames_newArenaRoot]
  exact hforest.cons rfl nofun

theorem Forest.newChild {s : Scopes} {made : List Scope} (hforest : Forest s.frames.size made) {outer : Scope}
    (houter : outer ∈ made) (bindings : Bindings) :
    Forest (s.newChild outer bindings).2.frames.size ((s.newChild outer bindings).1 :: made) := by
  rw [size_frames_newChild]
  refine hforest.cons rfl fun around haround => ?_
  rwa [show around = _ from Scope.chain_injective (Scope.parent?_eq_some_iff.1 haround).symm]

theorem Built.forest {s : Scopes} {made : List Scope} (hbuilt : s.Built made) : Forest s.frames.size made := by
  induction hbuilt with
  | empty => exact ⟨nofun, nofun, nofun, nofun⟩
  | newArena _ ih => exact ih
  | newRoot _ bindings ih => exact ih.newRoot bindings
  | newArenaRoot _ arena bindings ih => exact ih.newArenaRoot arena bindings
  | newChild _ houter bindings ih => exact ih.newChild houter bindings
  | define _ _ name value ih => rwa [size_frames_define]
  | assign _ _ name value ih => rwa [Scopes.assign, size_frames_define]
  | capture _ _ ih => rwa [frames_capture]
  | release _ arena ih => rwa [size_frames_release]

/-- Every scope was made after the scopes around it. -/
theorem Forest.chain_descends {frames : Nat} {made : List Scope} (hforest : Forest frames made) {scope : Scope}
    (hscope : scope ∈ made) : scope.chain.Pairwise fun inner outer => outer.index < inner.index := by
  obtain ⟨frame, outer⟩ := scope
  induction outer generalizing frame with
  | nil => exact List.pairwise_singleton _ _
  | cons next rest ih =>
      have hparent := hforest.parent_lt _ hscope ⟨next, rest⟩ rfl
      have hrest := ih next (hforest.parent_mem _ hscope ⟨next, rest⟩ rfl)
      refine List.pairwise_cons.2 ⟨List.forall_mem_cons.2 ⟨hparent, fun id hid => ?_⟩, hrest⟩
      exact Nat.lt_trans (List.rel_of_pairwise_cons hrest hid) hparent

theorem Forest.root_mem {frames : Nat} {made : List Scope} (hforest : Forest frames made) {scope : Scope}
    (hscope : scope ∈ made) : scope.root ∈ made := by
  obtain ⟨frame, outer⟩ := scope
  induction outer generalizing frame with
  | nil => exact hscope
  | cons next rest ih =>
      rw [Scope.root, List.getLastD_cons]
      exact ih next (hforest.parent_mem _ hscope ⟨next, rest⟩ rfl)

/-! ### Nearest bindings -/

/-- From the scope, the name means what this scope binds it to: the first that binds it, going from each scope to the
one around it. -/
inductive Nearest (s : Scopes) (name : String) : Scope → Scope → Prop
  | here {scope : Scope} (hname : name ∈ (s.bindings scope.frame).names) : Nearest s name scope scope
  | outer {scope outer binder : Scope} (hname : name ∉ (s.bindings scope.frame).names)
      (houter : scope.parent? = some outer) (hnearest : Nearest s name outer binder) : Nearest s name scope binder

theorem Nearest.mem {s : Scopes} {name : String} {frames : Nat} {made : List Scope} (hforest : Forest frames made)
    {scope binder : Scope} (hnearest : s.Nearest name scope binder) (hscope : scope ∈ made) : binder ∈ made := by
  induction hnearest with
  | here hname => exact hscope
  | outer hname houter _ ih => exact ih (hforest.parent_mem _ hscope _ houter)

theorem binder?_of_mem {s : Scopes} {name : String} {scope : Scope} (hname : name ∈ (s.bindings scope.frame).names) :
    s.binder? scope name = some scope.frame :=
  List.find?_cons_of_pos (p := fun id => (s.bindings id).contains name)
    ((Bindings.contains_iff_mem_names _ name).2 hname)

theorem binder?_of_not_mem {s : Scopes} {name : String} {scope : Scope}
    (hname : name ∉ (s.bindings scope.frame).names) :
    s.binder? scope name = scope.outer.find? fun id => (s.bindings id).contains name :=
  List.find?_cons_of_neg (p := fun id => (s.bindings id).contains name)
    fun hcontains => hname ((Bindings.contains_iff_mem_names _ name).1 hcontains)

theorem Nearest.binder?_eq {s : Scopes} {name : String} {scope binder : Scope}
    (hnearest : s.Nearest name scope binder) : s.binder? scope name = some binder.frame := by
  induction hnearest with
  | here hname => exact binder?_of_mem hname
  | outer hname houter _ ih =>
      rw [binder?_of_not_mem hname, Scope.parent?_eq_some_iff.1 houter]
      exact ih

/-- What is found along the chain of a scope is its nearest binding. -/
theorem exists_nearest {s : Scopes} {name : String} {scope : Scope} {id : FrameId}
    (hbinder : s.binder? scope name = some id) : ∃ binder, s.Nearest name scope binder ∧ binder.frame = id := by
  obtain ⟨frame, outer⟩ := scope
  induction outer generalizing frame with
  | nil =>
      by_cases hname : name ∈ (s.bindings frame).names
      · exact ⟨_, .here hname, Option.some.inj ((binder?_of_mem hname).symm.trans hbinder)⟩
      · have hnone := (binder?_of_not_mem hname).symm.trans hbinder
        cases hnone
  | cons next rest ih =>
      by_cases hname : name ∈ (s.bindings frame).names
      · exact ⟨_, .here hname, Option.some.inj ((binder?_of_mem hname).symm.trans hbinder)⟩
      · obtain ⟨binder, hnearest, hframe⟩ := ih next ((binder?_of_not_mem hname).symm.trans hbinder)
        exact ⟨binder, .outer hname rfl hnearest, hframe⟩

/-- What a lookup finds is what the nearest binding holds. -/
theorem get?_eq_bind (s : Scopes) (scope : Scope) (name : String) :
    s.get? scope name = (s.binder? scope name).bind fun id => (s.bindings id).get? name := by
  unfold get? binder?
  induction scope.chain with
  | nil => rfl
  | cons id rest ih =>
      rw [List.findSome?_cons, List.find?_cons]
      unfold Bindings.contains
      cases hfound : (s.bindings id).get? name with
      | none => simpa [Bindings.contains] using ih
      | some value => simp [hfound]

theorem get?_eq_some_iff {s : Scopes} {scope : Scope} {name : String} {value : Value} :
    s.get? scope name = some value ↔
      ∃ binder, s.Nearest name scope binder ∧ (s.bindings binder.frame).get? name = some value := by
  rw [get?_eq_bind, Option.bind_eq_some_iff]
  constructor
  · rintro ⟨id, hbinder, hvalue⟩
    obtain ⟨binder, hnearest, rfl⟩ := exists_nearest hbinder
    exact ⟨binder, hnearest, hvalue⟩
  · rintro ⟨binder, hnearest, hvalue⟩
    exact ⟨binder.frame, hnearest.binder?_eq, hvalue⟩

/-! ### Reading after a write -/

section Assign

variable {s : Scopes} {scope reader : Scope} {name : String} {value : Value} {target : FrameId}

/-- The frame that a write goes to: that of the nearest binding, or the scope's own if there is none. -/
theorem bindings_assign (htarget : (s.binder? scope name).getD scope.frame = target)
    (hlt : target.index < s.frames.size) (id : FrameId) :
    (s.assign scope name value).bindings id =
      if id = target then (s.bindings id).insert name value else s.bindings id := by
  rw [assign, htarget, bindings_define]
  simp only [hlt, and_true]

theorem get?_assign_target (htarget : (s.binder? scope name).getD scope.frame = target)
    (hlt : target.index < s.frames.size) : ((s.assign scope name value).bindings target).get? name = some value := by
  rw [bindings_assign htarget hlt, if_pos rfl, Bindings.get?_insert_self]

theorem get?_bindings_assign_of_ne (htarget : (s.binder? scope name).getD scope.frame = target)
    (hlt : target.index < s.frames.size) {other : String} (hother : other ≠ name) (id : FrameId) :
    ((s.assign scope name value).bindings id).get? other = (s.bindings id).get? other := by
  rw [bindings_assign htarget hlt]
  split
  · exact Bindings.get?_insert_of_ne hother value _
  · rfl

/-- Whoever reads the name and does not come to the frame that was written reads what was read before. -/
theorem get?_assign_of_binder?_ne (htarget : (s.binder? scope name).getD scope.frame = target)
    (hlt : target.index < s.frames.size) (hreader : (s.assign scope name value).binder? reader name ≠ some target) :
    (s.assign scope name value).get? reader name = s.get? reader name := by
  unfold binder? at hreader
  unfold get?
  generalize reader.chain = frames at hreader ⊢
  induction frames with
  | nil => rfl
  | cons id rest ih =>
      by_cases hid : id = target
      · have hcontains : ((s.assign scope name value).bindings target).contains name = true := by
          rw [Bindings.contains, get?_assign_target htarget hlt, Option.isSome_some]
        rw [hid, List.find?_cons_of_pos (p := fun id => ((s.assign scope name value).bindings id).contains name)
          hcontains] at hreader
        exact (hreader rfl).elim
      · have hbindings : (s.assign scope name value).bindings id = s.bindings id := by
          rw [bindings_assign htarget hlt, if_neg hid]
        rw [List.find?_cons, hbindings] at hreader
        rw [List.findSome?_cons, List.findSome?_cons, hbindings]
        cases hfound : (s.bindings id).get? name with
        | none => exact ih (by simpa [Bindings.contains, hfound] using hreader)
        | some old => rfl

theorem get?_assign_of_ne (htarget : (s.binder? scope name).getD scope.frame = target)
    (hlt : target.index < s.frames.size) {other : String} (hother : other ≠ name) (reader : Scope) :
    (s.assign scope name value).get? reader other = s.get? reader other := by
  unfold get?
  simp only [get?_bindings_assign_of_ne htarget hlt hother]

/-- The scope that a write goes to: the one with the nearest binding, or the writing one if there is none. -/
theorem exists_target (s : Scopes) (scope : Scope) (name : String) :
    ∃ target, (s.Nearest name scope target ∨ (∀ binder, ¬ s.Nearest name scope binder) ∧ target = scope) ∧
      (s.binder? scope name).getD scope.frame = target.frame := by
  cases hbinder : s.binder? scope name with
  | none =>
      refine ⟨scope, .inr ⟨fun binder hnearest => ?_, rfl⟩, rfl⟩
      rw [hnearest.binder?_eq] at hbinder
      cases hbinder
  | some id =>
      obtain ⟨target, hnearest, rfl⟩ := exists_nearest hbinder
      exact ⟨target, .inl hnearest, rfl⟩

end Assign

/-- **Reading over writing.** In every forest of scopes, however it was built, each scope lies in earlier ones only, and
a lookup from it finds what the nearest binding along them holds. Writing a name from a scope binds it in one scope, the
nearest that binds it already or else the writing one, and changes no other name there and no other scope. Afterwards
whoever comes to that binding of the name reads the new value, whoever does not reads what was read before, and so does
everyone who reads another name. -/
theorem reading_over_writing {s : Scopes} {made : List Scope} (hbuilt : s.Built made) :
    (∀ reader ∈ made, (reader.chain.Pairwise fun inner outer => outer.index < inner.index) ∧
      (∀ outer, reader.parent? = some outer → outer ∈ made) ∧
      ∀ name value, s.get? reader name = some value ↔
        ∃ binder, s.Nearest name reader binder ∧ (s.bindings binder.frame).get? name = some value) ∧
      ∀ scope ∈ made, ∀ name value, ∃ target ∈ made,
        (s.Nearest name scope target ∨ (∀ binder, ¬ s.Nearest name scope binder) ∧ target = scope) ∧
        ((s.assign scope name value).bindings target.frame).get? name = some value ∧
        (∀ other, other ≠ name →
          ((s.assign scope name value).bindings target.frame).get? other = (s.bindings target.frame).get? other) ∧
        (∀ other ∈ made, other ≠ target →
          (s.assign scope name value).bindings other.frame = s.bindings other.frame) ∧
        ∀ reader ∈ made,
          ((s.assign scope name value).Nearest name reader target →
            (s.assign scope name value).get? reader name = some value) ∧
          (¬ (s.assign scope name value).Nearest name reader target →
            (s.assign scope name value).get? reader name = s.get? reader name) ∧
          ∀ other, other ≠ name → (s.assign scope name value).get? reader other = s.get? reader other := by
  have hforest := hbuilt.forest
  refine ⟨fun reader hreader => ⟨hforest.chain_descends hreader, hforest.parent_mem reader hreader,
    fun name value => get?_eq_some_iff⟩, fun scope hscope name value => ?_⟩
  obtain ⟨target, hnearest, htarget⟩ := s.exists_target scope name
  have hmade : target ∈ made := hnearest.elim (·.mem hforest hscope) fun hnone => hnone.2 ▸ hscope
  have hlt := hforest.frame_lt target hmade
  refine ⟨target, hmade, hnearest, get?_assign_target htarget hlt,
    fun other hother => get?_bindings_assign_of_ne htarget hlt hother _, fun other hother hne => ?_,
    fun reader hreader => ⟨fun hreads => ?_, fun hreads => ?_, fun other hother => ?_⟩⟩
  · rw [bindings_assign htarget hlt, if_neg fun heq => hne (hforest.frame_injective other hother target hmade heq)]
  · exact get?_eq_some_iff.2 ⟨target, hreads, get?_assign_target htarget hlt⟩
  · refine get?_assign_of_binder?_ne htarget hlt fun hbinder => hreads ?_
    obtain ⟨binder, hbinds, hframe⟩ := exists_nearest hbinder
    have hmem : binder ∈ made := hbinds.mem hforest hreader
    rwa [hforest.frame_injective binder hmem target hmade hframe] at hbinds
  · exact get?_assign_of_ne htarget hlt hother reader

/-- A scope that binds a name, one inside it that does not, and a second one inside it that binds the name anew. -/
def siblings : Scopes :=
  (((Scopes.empty.newRoot [("x", .none)]).2.newChild ⟨⟨0⟩, []⟩ []).2.newChild ⟨⟨0⟩, []⟩ [("x", .bool false)]).2

/-- The first sibling writes the name where the scope around both binds it. That scope reads the new value, and the
second sibling its own. -/
theorem siblings_read_over_writing :
    siblings.Built [⟨⟨2⟩, [⟨0⟩]⟩, ⟨⟨1⟩, [⟨0⟩]⟩, ⟨⟨0⟩, []⟩] ∧
      (siblings.assign ⟨⟨1⟩, [⟨0⟩]⟩ "x" (.bool true)).get? ⟨⟨0⟩, []⟩ "x" = some (.bool true) ∧
      (siblings.assign ⟨⟨1⟩, [⟨0⟩]⟩ "x" (.bool true)).get? ⟨⟨2⟩, [⟨0⟩]⟩ "x" = some (.bool false) := by
  have hroot : Scopes.Built _ [⟨⟨0⟩, []⟩] := .newRoot .empty [("x", .none)]
  have hfirst : Scopes.Built _ [⟨⟨1⟩, [⟨0⟩]⟩, ⟨⟨0⟩, []⟩] := hroot.newChild List.mem_cons_self []
  have hbuilt : siblings.Built [⟨⟨2⟩, [⟨0⟩]⟩, ⟨⟨1⟩, [⟨0⟩]⟩, ⟨⟨0⟩, []⟩] :=
    hfirst.newChild (List.mem_cons_of_mem _ List.mem_cons_self) [("x", .bool false)]
  refine ⟨hbuilt, ?_⟩
  obtain ⟨-, hwrite⟩ := reading_over_writing hbuilt
  obtain ⟨target, hmade, hnearest, -, -, -, hreads⟩ := hwrite ⟨⟨1⟩, [⟨0⟩]⟩ (by decide) "x" (.bool true)
  have hbinds : siblings.Nearest "x" ⟨⟨1⟩, [⟨0⟩]⟩ ⟨⟨0⟩, []⟩ := .outer (by decide) rfl (.here (by decide))
  obtain hnearest | ⟨hnone, -⟩ := hnearest
  · have hframe : target.frame = ⟨0⟩ := Option.some.inj (hnearest.binder?_eq.symm.trans hbinds.binder?_eq)
    obtain rfl := hbuilt.forest.frame_injective target hmade ⟨⟨0⟩, []⟩ (by decide) hframe
    refine ⟨(hreads ⟨⟨0⟩, []⟩ (by decide)).1 (.here (by decide)), ?_⟩
    refine ((hreads ⟨⟨2⟩, [⟨0⟩]⟩ (by decide)).2.1 fun hreader => ?_).trans rfl
    exact absurd hreader.binder?_eq (by decide)
  · exact (hnone _ hbinds).elim

end Scopes

end LineScript
