import LineScript.Proofs.Scope.Forest
/-!
# What an arena empties

An arena keeps a list of frames, with repetitions in it, and a release empties what is on the list. Which scopes these
are is said here by what has happened: those that were made in the arena, and those that a function took hold of while
they lay in one of these, since the arena was last released.

Whoever makes scopes may drop some of them. The list may lose the frames of dropped scopes at any time, so what is said
is said of the scopes that are kept.
-/

namespace LineScript

namespace Scopes

/-- What matters for the list of an arena. -/
inductive Event
  /-- A scope was made in the arena, with none around it. -/
  | root (arena : ArenaId) (scope : Scope)
  /-- A function took hold of the scope. -/
  | captured (scope : Scope)
  /-- The arena was released. -/
  | released (arena : ArenaId)
deriving DecidableEq

/-- Takes the frames that are not alive off the list of an arena. -/
def prune (s : Scopes) (arena : ArenaId) (alive : FrameId → Bool) : Scopes :=
  { s with arenas := s.arenas.modify arena.index fun tracked => tracked.filter alive }

/-- The scopes that can be there when these events have happened, latest first, with those that were made. Frames that
are kept stay alive. -/
inductive Traced (kept : FrameId → Prop) : List Event → Scopes → List Scope → Prop
  | empty : Traced kept [] .empty []
  | newArena {events : List Event} {s : Scopes} {made : List Scope} (htraced : Traced kept events s made) :
      Traced kept events s.newArena.2 made
  | newRoot {events : List Event} {s : Scopes} {made : List Scope} (htraced : Traced kept events s made)
      (bindings : Bindings) : Traced kept events (s.newRoot bindings).2 ((s.newRoot bindings).1 :: made)
  | newArenaRoot {events : List Event} {s : Scopes} {made : List Scope} (htraced : Traced kept events s made)
      {arena : ArenaId} (harena : arena.index < s.arenas.size) (bindings : Bindings) :
      Traced kept (.root arena (s.newArenaRoot arena bindings).1 :: events) (s.newArenaRoot arena bindings).2
        ((s.newArenaRoot arena bindings).1 :: made)
  | newChild {events : List Event} {s : Scopes} {made : List Scope} (htraced : Traced kept events s made)
      {outer : Scope} (houter : outer ∈ made) (bindings : Bindings) :
      Traced kept events (s.newChild outer bindings).2 ((s.newChild outer bindings).1 :: made)
  | define {events : List Event} {s : Scopes} {made : List Scope} (htraced : Traced kept events s made)
      {scope : Scope} (hscope : scope ∈ made) (name : String) (value : Value) :
      Traced kept events (s.define scope.frame name value) made
  | assign {events : List Event} {s : Scopes} {made : List Scope} (htraced : Traced kept events s made)
      {scope : Scope} (hscope : scope ∈ made) (name : String) (value : Value) :
      Traced kept events (s.assign scope name value) made
  | capture {events : List Event} {s : Scopes} {made : List Scope} (htraced : Traced kept events s made)
      {scope : Scope} (hscope : scope ∈ made) : Traced kept (.captured scope :: events) (s.capture scope) made
  | release {events : List Event} {s : Scopes} {made : List Scope} (htraced : Traced kept events s made)
      {arena : ArenaId} (harena : arena.index < s.arenas.size) :
      Traced kept (.released arena :: events) (s.release arena) made
  | prune {events : List Event} {s : Scopes} {made : List Scope} (htraced : Traced kept events s made)
      (arena : ArenaId) {alive : FrameId → Bool} (halive : ∀ frame, kept frame → alive frame = true) :
      Traced kept events (s.prune arena alive) made

/-- After the events before it, this event registers the scope with the arena. A scope belongs to the arena that the
outermost scope around it was made in. -/
inductive Event.Registers (arena : ArenaId) (scope : Scope) (before : List Event) : Event → Prop
  | root : Registers arena scope before (.root arena scope)
  | captured (hbelongs : .root arena scope.root ∈ before) : Registers arena scope before (.captured scope)

/-- An event has registered the scope with the arena, which has not been released since. -/
def Registered (arena : ArenaId) (scope : Scope) (events : List Event) : Prop :=
  ∃ since event before, events = since ++ event :: before ∧ event.Registers arena scope before ∧
    .released arena ∉ since

/-! ### Registered scopes -/

section Registered

variable {arena : ArenaId} {scope : Scope} {events : List Event}

theorem Event.Registers.ne_released {event : Event} (hregisters : event.Registers arena scope events)
    (other : ArenaId) : event ≠ .released other := by
  cases hregisters <;> exact nofun

theorem registered_cons {event : Event} : Registered arena scope (event :: events) ↔
    event.Registers arena scope events ∨ event ≠ .released arena ∧ Registered arena scope events := by
  constructor
  · rintro ⟨since, registering, before, heq, hregisters, hsince⟩
    cases since with
    | nil =>
        obtain ⟨rfl, rfl⟩ := List.cons.inj heq
        exact .inl hregisters
    | cons last since =>
        obtain ⟨rfl, rfl⟩ := List.cons.inj heq
        rw [List.mem_cons, not_or] at hsince
        exact .inr ⟨Ne.symm hsince.1, since, registering, before, rfl, hregisters, hsince.2⟩
  · rintro (hregisters | ⟨hne, since, registering, before, rfl, hregisters, hsince⟩)
    · exact ⟨[], event, events, rfl, hregisters, List.not_mem_nil⟩
    · exact ⟨event :: since, registering, before, rfl, hregisters,
        fun hmem => (List.mem_cons.1 hmem).elim (fun heq => hne heq.symm) hsince⟩

/-- Only a scope that belongs to the arena is ever registered with it. -/
theorem Registered.root_mem (hregistered : Registered arena scope events) :
    .root arena scope ∈ events ∨ .captured scope ∈ events ∧ .root arena scope.root ∈ events := by
  obtain ⟨since, event, before, rfl, hregisters, -⟩ := hregistered
  cases hregisters with
  | root => exact .inl (by simp)
  | captured hbelongs => exact .inr ⟨by simp, by simp [hbelongs]⟩

end Registered

/-! ### What each operation does to the lists -/

@[simp]
theorem tracked_newArena (s : Scopes) (arena : ArenaId) : s.newArena.2.tracked arena = s.tracked arena := by
  unfold tracked newArena
  rw [Array.getElem?_push]
  split
  · rename_i hnew
    rw [hnew, Array.getElem?_eq_none (Nat.le_refl _)]
    rfl
  · rfl

theorem index_lt_of_mem_tracked {s : Scopes} {arena : ArenaId} {frame : FrameId} (hframe : frame ∈ s.tracked arena) :
    arena.index < s.arenas.size := by
  refine Nat.lt_of_not_le fun hle => ?_
  rw [tracked, Array.getElem?_eq_none hle] at hframe
  cases hframe

@[simp]
theorem size_arenas_newArenaRoot (s : Scopes) (arena : ArenaId) (bindings : Bindings) :
    (s.newArenaRoot arena bindings).2.arenas.size = s.arenas.size :=
  Array.size_modify

@[simp]
theorem size_arenas_prune (s : Scopes) (arena : ArenaId) (alive : FrameId → Bool) :
    (s.prune arena alive).arenas.size = s.arenas.size :=
  Array.size_modify

@[simp]
theorem size_arenas_release (s : Scopes) (arena : ArenaId) : (s.release arena).arenas.size = s.arenas.size := by
  rw [arenas_release, Array.size_modify]

theorem mem_tracked_newArenaRoot (s : Scopes) {arena : ArenaId} (harena : arena.index < s.arenas.size)
    (target : ArenaId) (bindings : Bindings) (frame : FrameId) :
    frame ∈ (s.newArenaRoot target bindings).2.tracked arena ↔
      frame ∈ s.tracked arena ∨ frame = (s.newArenaRoot target bindings).1.frame ∧ target = arena :=
  mem_tracked_track (s.addFrame bindings (some target)).2 harena target _ frame

theorem mem_tracked_release (s : Scopes) (target arena : ArenaId) (frame : FrameId) :
    frame ∈ (s.release target).tracked arena ↔ frame ∈ s.tracked arena ∧ target ≠ arena := by
  unfold tracked
  rw [arenas_release, Array.getElem?_modify]
  by_cases hsame : target = arena
  · subst hsame
    rw [if_pos rfl]
    cases s.arenas[target.index]? <;> simp
  · rw [if_neg fun hindex => hsame (arenaId_eq_of_index hindex), and_iff_left hsame]

theorem mem_tracked_prune (s : Scopes) (target arena : ArenaId) (alive : FrameId → Bool) (frame : FrameId) :
    frame ∈ (s.prune target alive).tracked arena ↔
      frame ∈ s.tracked arena ∧ (target = arena → alive frame = true) := by
  unfold tracked prune
  rw [Array.getElem?_modify]
  by_cases hsame : target = arena
  · subst hsame
    rw [if_pos rfl]
    cases s.arenas[target.index]? <;> simp
  · rw [if_neg fun hindex => hsame (arenaId_eq_of_index hindex), and_iff_left fun heq => absurd heq hsame]

/-! ### Histories -/

/-- The arenas and scopes of an event are there. -/
inductive Event.Within (arenas : Nat) (made : List Scope) : Event → Prop
  | root {arena : ArenaId} {scope : Scope} (harena : arena.index < arenas) (hscope : scope ∈ made)
      (houtermost : scope.outer = []) : Within arenas made (.root arena scope)
  | captured {scope : Scope} (hscope : scope ∈ made) : Within arenas made (.captured scope)
  | released {arena : ArenaId} (harena : arena.index < arenas) : Within arenas made (.released arena)

theorem Event.Within.mono {arenas arenas' : Nat} {made made' : List Scope} {event : Event}
    (hwithin : event.Within arenas made) (harenas : arenas ≤ arenas') (hmade : made ⊆ made') :
    event.Within arenas' made' := by
  cases hwithin with
  | root harena hscope houtermost => exact .root (Nat.lt_of_lt_of_le harena harenas) (hmade hscope) houtermost
  | captured hscope => exact .captured (hmade hscope)
  | released harena => exact .released (Nat.lt_of_lt_of_le harena harenas)

namespace Traced

variable {kept : FrameId → Prop} {events : List Event} {s : Scopes} {made : List Scope}

theorem forest (htraced : s.Traced kept events made) : Forest s.frames.size made := by
  induction htraced with
  | empty => exact ⟨nofun, nofun, nofun, nofun⟩
  | newArena _ ih => exact ih
  | newRoot _ bindings ih => exact ih.newRoot bindings
  | newArenaRoot _ _ bindings ih => exact ih.newArenaRoot _ bindings
  | newChild _ houter bindings ih => exact ih.newChild houter bindings
  | define _ _ name value ih => rwa [size_frames_define]
  | assign _ _ name value ih => rwa [Scopes.assign, size_frames_define]
  | capture _ _ ih => rwa [frames_capture]
  | release _ _ ih => rwa [size_frames_release]
  | prune _ _ _ ih => exact ih

theorem within (htraced : s.Traced kept events made) : ∀ event ∈ events, event.Within s.arenas.size made := by
  have hgrows {arenas arenas' : Nat} {made made' : List Scope} {events : List Event} (harenas : arenas ≤ arenas')
      (hmade : made ⊆ made') (hwithin : ∀ event ∈ events, event.Within arenas made) :
      ∀ event ∈ events, event.Within arenas' made' :=
    fun event hevent => (hwithin event hevent).mono harenas hmade
  induction htraced with
  | empty => exact nofun
  | newArena _ ih => exact hgrows (by simp [Scopes.newArena]) (List.Subset.refl _) ih
  | newRoot _ bindings ih => exact hgrows (Nat.le_refl _) (List.subset_cons_self _ _) ih
  | newArenaRoot _ harena bindings ih =>
      refine List.forall_mem_cons.2 ⟨.root ?_ List.mem_cons_self rfl, hgrows ?_ (List.subset_cons_self _ _) ih⟩
      · rwa [size_arenas_newArenaRoot]
      · exact Nat.le_of_eq (size_arenas_newArenaRoot ..).symm
  | newChild _ _ bindings ih => exact hgrows (Nat.le_refl _) (List.subset_cons_self _ _) ih
  | define _ _ name value ih => exact ih
  | assign _ _ name value ih => exact ih
  | capture _ hscope ih =>
      rw [size_arenas_capture]
      exact List.forall_mem_cons.2 ⟨.captured hscope, ih⟩
  | release _ harena ih =>
      rw [size_arenas_release]
      exact List.forall_mem_cons.2 ⟨.released harena, ih⟩
  | prune _ _ _ ih =>
      rw [size_arenas_prune]
      exact ih

theorem of_root_mem (htraced : s.Traced kept events made) {arena : ArenaId} {scope : Scope}
    (hroot : .root arena scope ∈ events) :
    arena.index < s.arenas.size ∧ scope ∈ made ∧ scope.outer = [] := by
  cases htraced.within _ hroot with
  | root harena hscope houtermost => exact ⟨harena, hscope, houtermost⟩

theorem of_registered (htraced : s.Traced kept events made) {before : List Event} (hbefore : before ⊆ events)
    {arena : ArenaId} {scope : Scope} (hregistered : Registered arena scope before) :
    arena.index < s.arenas.size ∧ scope ∈ made := by
  obtain hroot | ⟨hcaptured, hroot⟩ := hregistered.root_mem
  · exact ⟨(htraced.of_root_mem (hbefore hroot)).1, (htraced.of_root_mem (hbefore hroot)).2.1⟩
  · cases htraced.within _ (hbefore hcaptured) with
    | captured hscope => exact ⟨(htraced.of_root_mem (hbefore hroot)).1, hscope⟩

theorem frame_ne (htraced : s.Traced kept events made) {scope : Scope} (hscope : scope ∈ made) :
    scope.frame ≠ ⟨s.frames.size⟩ :=
  fun heq => Nat.ne_of_lt (htraced.forest.frame_lt scope hscope) (congrArg FrameId.index heq)

theorem not_root_mem (htraced : s.Traced kept events made) {scope : Scope} (hframe : scope.frame = ⟨s.frames.size⟩)
    (arena : ArenaId) : .root arena scope ∉ events :=
  fun hroot => htraced.frame_ne (htraced.of_root_mem hroot).2.1 hframe

/-- A frame belongs to the arena in which the outermost scope around it was made. -/
theorem arena?_eq_some_iff (htraced : s.Traced kept events made) {scope : Scope} (hscope : scope ∈ made)
    (arena : ArenaId) : s.arena? scope.frame = some arena ↔ .root arena scope.root ∈ events := by
  induction htraced generalizing scope with
  | empty => cases hscope
  | newArena _ ih => exact ih hscope
  | @newRoot events s made htraced bindings ih =>
      rcases List.mem_cons.1 hscope with rfl | hold
      · refine iff_of_false (fun harena => ?_) (htraced.not_root_mem rfl arena)
        cases (s.arena?_addFrame_self bindings none).symm.trans harena
      · have hframe : (s.newRoot bindings).2.arena? scope.frame = s.arena? scope.frame :=
          s.arena?_addFrame bindings none (htraced.forest.frame_lt scope hold)
        rw [hframe, ih hold]
  | @newArenaRoot events s made htraced target htarget bindings ih =>
      rcases List.mem_cons.1 hscope with rfl | hold
      · have hself : (s.newArenaRoot target bindings).2.arena? (s.newArenaRoot target bindings).1.frame = some target :=
          s.arena?_addFrame_self bindings (some target)
        rw [hself, List.mem_cons, or_iff_left (htraced.not_root_mem rfl arena)]
        exact ⟨fun heq => Option.some.inj heq ▸ rfl, fun heq => congrArg some (Event.root.inj heq).1.symm⟩
      · have hframe : (s.newArenaRoot target bindings).2.arena? scope.frame = s.arena? scope.frame :=
          s.arena?_addFrame bindings (some target) (htraced.forest.frame_lt scope hold)
        rw [hframe, ih hold, List.mem_cons, or_iff_right fun heq => ?_]
        exact htraced.frame_ne (htraced.forest.root_mem hold) (congrArg Scope.frame (Event.root.inj heq).2)
  | @newChild events s made htraced outer houter bindings ih =>
      rcases List.mem_cons.1 hscope with rfl | hold
      · have hroot : (s.newChild outer bindings).1.root = outer.root := by
          show Scope.mk (outer.chain.getLastD _) [] = outer.root
          rw [Scope.chain, List.getLastD_cons]
          rfl
        have hself : (s.newChild outer bindings).2.arena? (s.newChild outer bindings).1.frame = s.arena? outer.frame :=
          s.arena?_addFrame_self bindings (s.arena? outer.frame)
        rw [hroot, hself, ih houter]
      · rw [← ih hold, s.arena?_newChild outer bindings (htraced.forest.frame_lt scope hold)]
  | define _ _ name value ih => rw [arena?_define, ih hscope]
  | assign _ _ name value ih => rw [Scopes.assign, arena?_define, ih hscope]
  | capture _ _ ih => simp [ih hscope]
  | release _ _ ih => simp [arena?_release, ih hscope]
  | prune _ _ _ ih => exact ih hscope

theorem root_mem_of_registered (htraced : s.Traced kept events made) {arena : ArenaId} {scope : Scope}
    (hregistered : Registered arena scope events) : .root arena scope.root ∈ events := by
  obtain hroot | ⟨-, hroot⟩ := hregistered.root_mem
  · rwa [Scope.root_eq_self (htraced.of_root_mem hroot).2.2]
  · exact hroot

/-! ### Lists and histories -/

/-- A list holds no frame but those of registered scopes. -/
theorem exists_registered (htraced : s.Traced kept events made) {arena : ArenaId} {frame : FrameId}
    (hframe : frame ∈ s.tracked arena) : ∃ scope ∈ made, scope.frame = frame ∧ Registered arena scope events := by
  induction htraced with
  | empty => exact absurd (index_lt_of_mem_tracked hframe) (Nat.not_lt_zero _)
  | newArena _ ih =>
      rw [tracked_newArena] at hframe
      exact ih hframe
  | newRoot _ bindings ih =>
      obtain ⟨scope, hscope, hregistered⟩ := ih hframe
      exact ⟨scope, List.mem_cons_of_mem _ hscope, hregistered⟩
  | @newArenaRoot events s made _ target _ bindings ih =>
      have harena := index_lt_of_mem_tracked hframe
      rw [size_arenas_newArenaRoot] at harena
      rcases (mem_tracked_newArenaRoot s harena target bindings frame).1 hframe with hold | ⟨rfl, rfl⟩
      · obtain ⟨scope, hscope, heq, hregistered⟩ := ih hold
        exact ⟨scope, List.mem_cons_of_mem _ hscope, heq, registered_cons.2 (.inr ⟨nofun, hregistered⟩)⟩
      · exact ⟨_, List.mem_cons_self, rfl, registered_cons.2 (.inl .root)⟩
  | newChild _ _ bindings ih =>
      obtain ⟨scope, hscope, hregistered⟩ := ih hframe
      exact ⟨scope, List.mem_cons_of_mem _ hscope, hregistered⟩
  | define _ _ name value ih => exact ih hframe
  | assign _ _ name value ih => exact ih hframe
  | @capture events s made htraced target htarget ih =>
      have harena := index_lt_of_mem_tracked hframe
      rw [size_arenas_capture] at harena
      rcases (mem_tracked_capture s harena target frame).1 hframe with hold | ⟨rfl, hbelongs⟩
      · obtain ⟨scope, hscope, heq, hregistered⟩ := ih hold
        exact ⟨scope, hscope, heq, registered_cons.2 (.inr ⟨nofun, hregistered⟩)⟩
      · have hroot := (htraced.arena?_eq_some_iff htarget arena).1 hbelongs
        exact ⟨target, htarget, rfl, registered_cons.2 (.inl (.captured hroot))⟩
  | @release events s made _ target _ ih =>
      obtain ⟨hold, hne⟩ := (mem_tracked_release s target arena frame).1 hframe
      obtain ⟨scope, hscope, heq, hregistered⟩ := ih hold
      have hother : Event.released target ≠ .released arena := fun hsame => hne (Event.released.inj hsame)
      exact ⟨scope, hscope, heq, registered_cons.2 (.inr ⟨hother, hregistered⟩)⟩
  | @prune events s made _ target alive _ ih => exact ih ((mem_tracked_prune s target arena alive frame).1 hframe).1

/-- A kept scope that is registered is on the list, however often it was registered and whatever came between. -/
theorem mem_tracked_of_registered (htraced : s.Traced kept events made) {arena : ArenaId} {scope : Scope}
    (hkept : kept scope.frame) (hregistered : Registered arena scope events) : scope.frame ∈ s.tracked arena := by
  have harena := (htraced.of_registered (List.Subset.refl _) hregistered).1
  induction htraced with
  | empty => exact absurd harena (Nat.not_lt_zero _)
  | newArena htraced ih =>
      rw [tracked_newArena]
      exact ih hregistered (htraced.of_registered (List.Subset.refl _) hregistered).1
  | newRoot _ bindings ih => exact ih hregistered harena
  | @newArenaRoot events s made _ target _ bindings ih =>
      rw [size_arenas_newArenaRoot] at harena
      rw [mem_tracked_newArenaRoot s harena]
      rcases registered_cons.1 hregistered with hregisters | ⟨-, hregistered⟩
      · cases hregisters
        exact .inr ⟨rfl, rfl⟩
      · exact .inl (ih hregistered harena)
  | newChild _ _ bindings ih => exact ih hregistered harena
  | define _ _ name value ih => exact ih hregistered harena
  | assign _ _ name value ih => exact ih hregistered harena
  | @capture events s made htraced target htarget ih =>
      rw [size_arenas_capture] at harena
      rw [mem_tracked_capture s harena]
      rcases registered_cons.1 hregistered with hregisters | ⟨-, hregistered⟩
      · cases hregisters with
        | captured hbelongs => exact .inr ⟨rfl, (htraced.arena?_eq_some_iff htarget arena).2 hbelongs⟩
      · exact .inl (ih hregistered harena)
  | @release events s made _ target _ ih =>
      rw [size_arenas_release] at harena
      rcases registered_cons.1 hregistered with hregisters | ⟨hne, hregistered⟩
      · exact (hregisters.ne_released target rfl).elim
      · rw [mem_tracked_release]
        exact ⟨ih hregistered harena, fun hsame => hne (congrArg Event.released hsame)⟩
  | @prune events s made _ target alive halive ih =>
      rw [size_arenas_prune] at harena
      rw [mem_tracked_prune]
      exact ⟨ih hregistered harena, fun _ => halive _ hkept⟩

theorem mem_tracked_iff (htraced : s.Traced kept events made) {arena : ArenaId} {scope : Scope} (hscope : scope ∈ made)
    (hkept : kept scope.frame) : scope.frame ∈ s.tracked arena ↔ Registered arena scope events := by
  refine ⟨fun hframe => ?_, htraced.mem_tracked_of_registered hkept⟩
  obtain ⟨other, hother, heq, hregistered⟩ := htraced.exists_registered hframe
  rwa [← htraced.forest.frame_injective other hother scope hscope heq]

theorem count_root_le (htraced : s.Traced kept events made) (arena : ArenaId) (scope : Scope) :
    events.count (.root arena scope) ≤ 1 := by
  induction htraced with
  | empty => exact Nat.zero_le _
  | @newArenaRoot events s made htraced target _ bindings ih =>
      by_cases hsame : Event.root target (s.newArenaRoot target bindings).1 = .root arena scope
      · obtain ⟨rfl, rfl⟩ := Event.root.inj hsame
        refine Nat.le_of_eq ?_
        rw [List.count_cons_self, List.count_eq_zero_of_not_mem (htraced.not_root_mem rfl target)]
      · rwa [List.count_cons_of_ne hsame]
  | capture _ _ ih => rwa [List.count_cons_of_ne (by simp)]
  | release _ _ ih => rwa [List.count_cons_of_ne (by simp)]
  | newArena _ ih => exact ih
  | newRoot _ _ ih => exact ih
  | newChild _ _ _ ih => exact ih
  | define _ _ _ _ ih => exact ih
  | assign _ _ _ _ ih => exact ih
  | prune _ _ _ ih => exact ih

/-- No scope is made twice. -/
theorem not_root_again {later before : List Event} (htraced : s.Traced kept (later ++ before) made) {arena : ArenaId}
    {scope : Scope} (hlater : .root arena scope ∈ later) : .root arena scope ∉ before := by
  intro hbefore
  have hcount := htraced.count_root_le arena scope
  rw [List.count_append] at hcount
  have hpos := List.count_pos_iff.2 hlater
  have hpos' := List.count_pos_iff.2 hbefore
  omega

end Traced

/-- What is registered behind a release was captured or made behind it. -/
theorem Registered.since_release {arena : ArenaId} {scope : Scope} {later events : List Event}
    (hregistered : Registered arena scope (later ++ .released arena :: events)) :
    .captured scope ∈ later ∨ .root arena scope ∈ later := by
  induction later with
  | nil =>
      rcases registered_cons.1 hregistered with hregisters | ⟨hne, -⟩
      · exact (hregisters.ne_released arena rfl).elim
      · exact (hne rfl).elim
  | cons event later ih =>
      rcases registered_cons.1 hregistered with hregisters | ⟨-, hregistered⟩
      · cases hregisters with
        | root => exact .inr List.mem_cons_self
        | captured _ => exact .inl List.mem_cons_self
      · exact (ih hregistered).imp (List.mem_cons_of_mem _) (List.mem_cons_of_mem _)

/-- **What a release empties.** Whatever scopes were made, written, captured and dropped before, and whatever arenas
were released, a release empties among the scopes that are kept exactly those registered with the arena: made in it, or
captured while they belonged to it, since it was last released. It leaves the variables of the others, the scopes around
each, and what belongs to which arena. It forgets whom it empties: until such a scope is captured anew, no later release
of the arena changes it. A scope belongs to the arena that the outermost one around it was made in, and capturing one
that belongs to none does nothing. -/
theorem release_empties_registered {kept : FrameId → Prop} {events : List Event} {s : Scopes} {made : List Scope}
    (htraced : s.Traced kept events made) {arena : ArenaId} (harena : arena.index < s.arenas.size) :
    (∀ scope ∈ made, kept scope.frame →
      (Registered arena scope events → (s.release arena).bindings scope.frame = []) ∧
      (¬ Registered arena scope events → (s.release arena).bindings scope.frame = s.bindings scope.frame)) ∧
    (s.release arena).Traced kept (.released arena :: events) made ∧
    (∀ later (s' : Scopes) made', s'.Traced kept (later ++ .released arena :: events) made' →
      ∀ scope, kept scope.frame → Registered arena scope events → Event.captured scope ∉ later →
        (s'.release arena).bindings scope.frame = s'.bindings scope.frame) ∧
    ∀ scope ∈ made, (∀ owner, s.arena? scope.frame = some owner ↔ .root owner scope.root ∈ events) ∧
      (s.release arena).arena? scope.frame = s.arena? scope.frame ∧
      ((∀ owner, .root owner scope.root ∉ events) → s.capture scope = s) := by
  refine ⟨fun scope hscope hkept => ⟨fun hregistered => ?_, fun hregistered => ?_⟩, htraced.release harena,
    fun later s' made' hlater scope hkept hregistered hcaptured => ?_, fun scope hscope =>
      ⟨htraced.arena?_eq_some_iff hscope, arena?_release s arena _, fun hnone => ?_⟩⟩
  · rw [bindings_release, if_pos ((htraced.mem_tracked_iff hscope hkept).2 hregistered)]
  · rw [bindings_release, if_neg fun hframe => hregistered ((htraced.mem_tracked_iff hscope hkept).1 hframe)]
  · have hscope := (hlater.of_registered (fun event hevent => by simp [hevent]) hregistered).2
    rw [bindings_release, if_neg fun hframe => ?_]
    obtain hmem | hagain := ((hlater.mem_tracked_iff hscope hkept).1 hframe).since_release
    · exact hcaptured hmem
    · have hroot := htraced.root_mem_of_registered hregistered
      rw [Scope.root_eq_self (hlater.of_root_mem (List.mem_append_left _ hagain)).2.2] at hroot
      exact hlater.not_root_again hagain (List.mem_cons_of_mem _ hroot)
  · unfold capture
    rw [Option.eq_none_iff_forall_ne_some.2 fun owner howner =>
      hnone owner ((htraced.arena?_eq_some_iff hscope owner).1 howner)]

namespace Recapture

def outermost : Scope :=
  ⟨⟨0⟩, []⟩

def first : Scope :=
  ⟨⟨1⟩, [⟨0⟩]⟩

def second : Scope :=
  ⟨⟨2⟩, [⟨0⟩]⟩

/-- The outermost scope of a run and two inside it, with a variable in each. -/
def scopes : Scopes :=
  (((Scopes.empty.newArena.2.newArenaRoot ⟨0⟩ [("x", .none)]).2.newChild outermost [("y", .none)]).2.newChild
    outermost [("z", .none)]).2

theorem traced : scopes.Traced (fun _ => True) [.root ⟨0⟩ outermost] [second, first, outermost] := by
  have hrun : Traced (fun _ => True) [.root ⟨0⟩ outermost] _ [outermost] :=
    Traced.empty.newArena.newArenaRoot Nat.one_pos [("x", .none)]
  have hfirst : Traced (fun _ => True) [.root ⟨0⟩ outermost] _ [first, outermost] :=
    hrun.newChild List.mem_cons_self [("y", .none)]
  exact hfirst.newChild (List.mem_cons_of_mem _ List.mem_cons_self) [("z", .none)]

/-- Functions take hold of the first of the two inside, of the outermost one, and of the first again. -/
def recaptured : Scopes :=
  ((scopes.capture first).capture outermost).capture first

/-- A release empties the two that were captured and leaves the third, and what is written to one of them afterwards
outlives the next release. -/
theorem release_empties_two :
    ((recaptured.release ⟨0⟩).bindings outermost.frame = [] ∧ (recaptured.release ⟨0⟩).bindings first.frame = [] ∧
      (recaptured.release ⟨0⟩).bindings second.frame = [("z", .none)]) ∧
      (((recaptured.release ⟨0⟩).define first.frame "y" .none).release ⟨0⟩).bindings first.frame = [("y", .none)] := by
  have houtermost : outermost ∈ [second, first, outermost] := by decide
  have hfirst : first ∈ [second, first, outermost] := by decide
  have hsecond : second ∈ [second, first, outermost] := List.mem_cons_self
  have htraced : recaptured.Traced (fun _ => True)
      [.captured first, .captured outermost, .captured first, .root ⟨0⟩ outermost] [second, first, outermost] :=
    ((traced.capture hfirst).capture houtermost).capture hfirst
  obtain ⟨hreleases, hagain, hforgets, -⟩ :=
    release_empties_registered htraced (by decide : (⟨0⟩ : ArenaId).index < recaptured.arenas.size)
  have hregistered : Registered ⟨0⟩ first
      [.captured first, .captured outermost, .captured first, .root ⟨0⟩ outermost] :=
    ⟨[], _, _, rfl, .captured (by decide), List.not_mem_nil⟩
  refine ⟨⟨?_, (hreleases first hfirst trivial).1 hregistered, ?_⟩, ?_⟩
  · exact (hreleases outermost houtermost trivial).1 ⟨[.captured first], _, _, rfl, .captured (by decide), by decide⟩
  · exact (hreleases second hsecond trivial).2 fun hthird => absurd hthird.root_mem (by decide)
  · exact hforgets [] _ _ (hagain.define hfirst "y" .none) first trivial hregistered List.not_mem_nil

end Recapture

end Scopes

end LineScript
