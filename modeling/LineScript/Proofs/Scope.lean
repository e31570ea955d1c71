import LineScript.Scope
/-!
# Bindings, frames and arenas

What each operation on scopes does to the variables of a frame, to the arena it belongs to and to the frames that an
arena lists.
-/

namespace LineScript

/-! ### Bindings -/

namespace Bindings

theorem contains_iff_mem_names (bindings : Bindings) (name : String) :
    bindings.contains name = true ↔ name ∈ bindings.names := by
  induction bindings with
  | nil => simp [contains, get?, names]
  | cons binding rest ih =>
      obtain ⟨bound, value⟩ := binding
      by_cases hname : name = bound
      · subst hname
        simp [contains, get?, names]
      · have hlookup : get? ((bound, value) :: rest) name = get? rest name := by
          simp [get?, List.lookup_cons, beq_eq_false_iff_ne.2 hname]
        rw [contains, hlookup, ← contains, ih]
        simp [names, hname]

/-- Binding a name again leaves the names, and binding a new one puts it behind them. -/
theorem names_insert (name : String) (value : Value) (bindings : Bindings) :
    (insert name value bindings).names =
      if name ∈ bindings.names then bindings.names else bindings.names ++ [name] := by
  induction bindings with
  | nil => simp [insert, names]
  | cons binding rest ih =>
      obtain ⟨bound, old⟩ := binding
      by_cases hbound : bound = name
      · subst hbound
        simp [insert, names]
      · have hinsert : (insert name value ((bound, old) :: rest)).names = bound :: (insert name value rest).names := by
          rw [insert, if_neg hbound]
          rfl
        have hmem : name ∈ names ((bound, old) :: rest) ↔ name ∈ names rest := by
          simp [names, Ne.symm hbound]
        simp only [hinsert, ih, hmem]
        split <;> rfl

theorem get?_insert_self (name : String) (value : Value) (bindings : Bindings) :
    (insert name value bindings).get? name = some value := by
  induction bindings with
  | nil => simp [insert, get?]
  | cons binding rest ih =>
      obtain ⟨bound, old⟩ := binding
      unfold insert
      split
      · rename_i hbound
        simp [get?, hbound]
      · rename_i hbound
        simpa [get?, List.lookup_cons, beq_eq_false_iff_ne.2 (Ne.symm hbound)] using ih

theorem get?_insert_of_ne {name other : String} (hother : other ≠ name) (value : Value) (bindings : Bindings) :
    (insert name value bindings).get? other = bindings.get? other := by
  induction bindings with
  | nil => simp [insert, get?, List.lookup_cons, beq_eq_false_iff_ne.2 hother]
  | cons binding rest ih =>
      obtain ⟨bound, old⟩ := binding
      unfold insert
      split
      · rename_i hbound
        subst hbound
        simp [get?, List.lookup_cons, beq_eq_false_iff_ne.2 hother]
      · simp only [get?, List.lookup_cons]
        split
        · rfl
        · exact ih

theorem names_prefix_insert (name : String) (value : Value) (bindings : Bindings) :
    bindings.names <+: (insert name value bindings).names := by
  rw [names_insert]
  split
  · exact List.prefix_rfl
  · exact List.prefix_append _ _

/-- Bindings made one after the other bind every name that is among them. -/
theorem mem_names_ofPairs {pairs : List (String × Value)} {name : String} (hname : name ∈ pairs.map (·.1)) :
    name ∈ (ofPairs pairs).names := by
  have hfold (bindings : Bindings) :
      name ∈ bindings.names ∨ name ∈ pairs.map (·.1) →
        name ∈ (pairs.foldl (fun bindings pair => insert pair.1 pair.2 bindings) bindings).names := by
    clear hname
    induction pairs generalizing bindings with
    | nil => simp
    | cons pair rest ih =>
        intro hor
        refine ih (insert pair.1 pair.2 bindings) ?_
        rw [List.map_cons, List.mem_cons, ← or_assoc] at hor
        refine hor.imp_left fun hname => ?_
        rw [names_insert]
        split
        · rename_i hmem
          exact hname.elim id fun heq => heq ▸ hmem
        · simpa using hname
  exact hfold [] (.inr hname)

end Bindings

namespace Scopes

theorem frameId_eq_of_index {a b : FrameId} (hindex : a.index = b.index) : a = b := by
  cases a
  cases b
  exact congrArg FrameId.mk hindex

theorem arenaId_eq_of_index {a b : ArenaId} (hindex : a.index = b.index) : a = b := by
  cases a
  cases b
  exact congrArg ArenaId.mk hindex

/-! ### Writing variables -/

@[simp]
theorem arena?_define (s : Scopes) (id : FrameId) (name : String) (value : Value) (frame : FrameId) :
    (s.define id name value).arena? frame = s.arena? frame := by
  unfold define arena?
  rw [Array.getElem?_modify]
  split
  · cases s.frames[frame.index]? <;> rfl
  · rfl

@[simp]
theorem size_frames_define (s : Scopes) (id : FrameId) (name : String) (value : Value) :
    (s.define id name value).frames.size = s.frames.size :=
  Array.size_modify

theorem bindings_define (s : Scopes) (id : FrameId) (name : String) (value : Value) (frame : FrameId) :
    (s.define id name value).bindings frame =
      if frame = id ∧ id.index < s.frames.size then (s.bindings frame).insert name value else s.bindings frame := by
  unfold define bindings
  rw [Array.getElem?_modify]
  by_cases hframe : frame = id
  · subst hframe
    rw [if_pos rfl]
    by_cases hlt : frame.index < s.frames.size
    · rw [if_pos ⟨rfl, hlt⟩, Array.getElem?_eq_getElem hlt]
      rfl
    · rw [if_neg fun hand => hlt hand.2, Array.getElem?_eq_none (Nat.le_of_not_lt hlt)]
      rfl
  · rw [if_neg fun hindex => hframe (frameId_eq_of_index hindex.symm), if_neg fun hand => hframe hand.1]

/-! ### Making frames -/

theorem arena?_addFrame (s : Scopes) (bindings : Bindings) (arena : Option ArenaId) {frame : FrameId}
    (hframe : frame.index < s.frames.size) : (s.addFrame bindings arena).2.arena? frame = s.arena? frame := by
  unfold arena? addFrame
  rw [Array.getElem?_push_lt hframe, Array.getElem?_eq_getElem hframe]

theorem arena?_addFrame_self (s : Scopes) (bindings : Bindings) (arena : Option ArenaId) :
    (s.addFrame bindings arena).2.arena? (s.addFrame bindings arena).1 = arena := by
  unfold arena? addFrame
  rw [Array.getElem?_push_size]
  rfl

theorem arena?_newChild (s : Scopes) (outer : Scope) (bindings : Bindings) {frame : FrameId}
    (hframe : frame.index < s.frames.size) : (s.newChild outer bindings).2.arena? frame = s.arena? frame :=
  s.arena?_addFrame bindings _ hframe

@[simp]
theorem size_frames_newChild (s : Scopes) (outer : Scope) (bindings : Bindings) :
    (s.newChild outer bindings).2.frames.size = s.frames.size + 1 :=
  Array.size_push _

theorem bindings_newChild (s : Scopes) (outer : Scope) (bindings : Bindings) {frame : FrameId}
    (hframe : frame.index < s.frames.size) : (s.newChild outer bindings).2.bindings frame = s.bindings frame := by
  unfold Scopes.bindings newChild addFrame
  rw [Array.getElem?_push_lt hframe, Array.getElem?_eq_getElem hframe]

theorem bindings_newChild_self (s : Scopes) (outer : Scope) (bindings : Bindings) :
    (s.newChild outer bindings).2.bindings (s.newChild outer bindings).1.frame = bindings := by
  unfold Scopes.bindings newChild addFrame
  rw [Array.getElem?_push_size]
  rfl

/-! ### Listing frames -/

theorem tracked_track_of_ne (s : Scopes) {target arena : ArenaId} (hne : target ≠ arena) (id : FrameId) :
    (s.track target id).tracked arena = s.tracked arena := by
  unfold track tracked
  rw [Array.getElem?_modify, if_neg fun hindex => hne (arenaId_eq_of_index hindex)]

theorem tracked_track_self (s : Scopes) {arena : ArenaId} (harena : arena.index < s.arenas.size) (id : FrameId) :
    (s.track arena id).tracked arena =
      if (s.tracked arena).head? = some id then s.tracked arena else id :: s.tracked arena := by
  unfold track tracked
  rw [Array.getElem?_modify, if_pos rfl, Array.getElem?_eq_getElem harena]
  rfl

theorem mem_tracked_track (s : Scopes) {arena : ArenaId} (harena : arena.index < s.arenas.size) (target : ArenaId)
    (id frame : FrameId) :
    frame ∈ (s.track target id).tracked arena ↔ frame ∈ s.tracked arena ∨ frame = id ∧ target = arena := by
  by_cases hsame : target = arena
  · subst hsame
    rw [tracked_track_self s harena, or_comm, and_iff_left rfl]
    split
    · rename_i hhead
      have hmem : id ∈ s.tracked target := List.mem_of_mem_head? (hhead ▸ rfl)
      exact ⟨.inr, fun hor => hor.elim (fun heq => heq ▸ hmem) fun htracked => htracked⟩
    · exact List.mem_cons
  · rw [tracked_track_of_ne s hsame, or_iff_left fun hand => hsame hand.2]

/-- A frame goes on the list of the arena it belongs to. -/
theorem mem_tracked_capture (s : Scopes) {arena : ArenaId} (harena : arena.index < s.arenas.size) (scope : Scope)
    (frame : FrameId) :
    frame ∈ (s.capture scope).tracked arena ↔
      frame ∈ s.tracked arena ∨ frame = scope.frame ∧ s.arena? frame = some arena := by
  have hframe : frame = scope.frame ∧ s.arena? frame = some arena ↔
      frame = scope.frame ∧ s.arena? scope.frame = some arena :=
    and_congr_right fun heq => by rw [heq]
  rw [hframe]
  unfold capture
  split
  · rename_i target htarget
    rw [mem_tracked_track s harena, htarget, Option.some.injEq]
  · rename_i hnone
    simp [hnone]

@[simp]
theorem frames_capture (s : Scopes) (scope : Scope) : (s.capture scope).frames = s.frames := by
  unfold capture
  split <;> rfl

@[simp]
theorem arena?_capture (s : Scopes) (scope : Scope) (frame : FrameId) :
    (s.capture scope).arena? frame = s.arena? frame := by
  unfold arena?
  rw [frames_capture]

@[simp]
theorem size_arenas_capture (s : Scopes) (scope : Scope) : (s.capture scope).arenas.size = s.arenas.size := by
  unfold capture
  split
  · exact Array.size_modify
  · rfl

theorem bindings_capture (s : Scopes) (scope : Scope) (frame : FrameId) :
    (s.capture scope).bindings frame = s.bindings frame := by
  unfold bindings
  rw [frames_capture]

/-! ### Emptying frames -/

theorem bindings_clear (s : Scopes) (id frame : FrameId) :
    (s.clear id).bindings frame = if frame = id then [] else s.bindings frame := by
  unfold clear bindings
  rw [Array.getElem?_modify]
  by_cases hframe : frame = id
  · subst hframe
    rw [if_pos rfl, if_pos rfl]
    cases s.frames[frame.index]? <;> rfl
  · rw [if_neg hframe, if_neg fun hindex => hframe (frameId_eq_of_index hindex.symm)]

theorem bindings_foldl_clear (ids : List FrameId) (s : Scopes) (frame : FrameId) :
    (ids.foldl clear s).bindings frame = if frame ∈ ids then [] else s.bindings frame := by
  induction ids generalizing s with
  | nil => rfl
  | cons id rest ih =>
      rw [List.foldl_cons, ih, bindings_clear]
      by_cases hrest : frame ∈ rest <;> by_cases hid : frame = id <;> simp [hrest, hid]

theorem bindings_release (s : Scopes) (arena : ArenaId) (frame : FrameId) :
    (s.release arena).bindings frame = if frame ∈ s.tracked arena then [] else s.bindings frame :=
  bindings_foldl_clear (s.tracked arena) s frame

theorem arena?_clear (s : Scopes) (id frame : FrameId) : (s.clear id).arena? frame = s.arena? frame := by
  unfold clear arena?
  rw [Array.getElem?_modify]
  split
  · cases s.frames[frame.index]? <;> rfl
  · rfl

/-- What emptying one frame leaves, emptying several leaves. -/
theorem foldl_clear_of_clear {α : Type} {f : Scopes → α} (hclear : ∀ s id, f (clear s id) = f s) (ids : List FrameId)
    (s : Scopes) : f (ids.foldl clear s) = f s := by
  induction ids generalizing s with
  | nil => rfl
  | cons id rest ih => rw [List.foldl_cons, ih, hclear]

theorem arena?_release (s : Scopes) (arena : ArenaId) (frame : FrameId) :
    (s.release arena).arena? frame = s.arena? frame :=
  foldl_clear_of_clear (f := (arena? · frame)) (fun s id => arena?_clear s id frame) (s.tracked arena) s

@[simp]
theorem size_frames_release (s : Scopes) (arena : ArenaId) : (s.release arena).frames.size = s.frames.size :=
  foldl_clear_of_clear (f := (·.frames.size)) (fun _ _ => Array.size_modify) (s.tracked arena) s

theorem arenas_release (s : Scopes) (arena : ArenaId) :
    (s.release arena).arenas = s.arenas.modify arena.index fun _ => [] :=
  congrArg (·.modify arena.index fun _ => [])
    (foldl_clear_of_clear (f := (·.arenas)) (fun _ _ => rfl) (s.tracked arena) s)

/-! ### Looking up variables -/

/-- Nothing is found from a scope exactly if none of its frames holds a variable. -/
theorem get?_eq_none_iff (s : Scopes) (scope : Scope) :
    (∀ name, s.get? scope name = none) ↔ ∀ frame ∈ scope.chain, s.bindings frame = [] := by
  simp only [get?, List.findSome?_eq_none_iff]
  constructor
  · intro hnone frame hframe
    cases hbindings : s.bindings frame with
    | nil => rfl
    | cons binding rest =>
        have hlookup := hnone binding.1 frame hframe
        rw [hbindings, Bindings.get?, List.lookup_cons_self] at hlookup
        cases hlookup
  · intro hempty name frame hframe
    rw [hempty frame hframe]
    rfl

/-! ### Writing from a scope -/

/-- Only the nearest frame that binds the name is written, or the scope's own if there is none. -/
theorem bindings_assign_of_ne (s : Scopes) (scope : Scope) (name : String) (value : Value) {frame : FrameId}
    (hframe : frame ≠ (s.binder? scope name).getD scope.frame) :
    (s.assign scope name value).bindings frame = s.bindings frame := by
  rw [assign, bindings_define, if_neg fun hand => hframe hand.1]

theorem names_prefix_assign (s : Scopes) (scope : Scope) (name : String) (value : Value) (frame : FrameId) :
    (s.bindings frame).names <+: ((s.assign scope name value).bindings frame).names := by
  rw [assign, bindings_define]
  split
  · exact Bindings.names_prefix_insert name value _
  · exact List.prefix_rfl

/-- Writing a name binds no new one in a frame other than the scope's own. -/
theorem names_assign_of_ne (s : Scopes) (scope : Scope) (name : String) (value : Value) {frame : FrameId}
    (hframe : frame ≠ scope.frame) :
    ((s.assign scope name value).bindings frame).names = (s.bindings frame).names := by
  cases hbinder : s.binder? scope name with
  | none =>
      rw [bindings_assign_of_ne s scope name value]
      rw [hbinder]
      exact hframe
  | some binder =>
      by_cases hbinds : frame = binder
      · subst hbinds
        have hcontains : (s.bindings frame).contains name = true :=
          List.find?_some (p := fun id => (s.bindings id).contains name) hbinder
        rw [assign, hbinder, Option.getD_some, bindings_define]
        split
        · rw [Bindings.names_insert, if_pos ((Bindings.contains_iff_mem_names _ name).1 hcontains)]
        · rfl
      · rw [bindings_assign_of_ne s scope name value]
        rw [hbinder]
        exact hbinds

/-- A name that one of the frames of a scope binds is bound there or in a frame before it. -/
theorem binder?_mem_of_mem_names {s : Scopes} {scope : Scope} {name : String} {before behind : List FrameId}
    {frame : FrameId} (hchain : scope.chain = before ++ frame :: behind) (hname : name ∈ (s.bindings frame).names) :
    ∃ binder, s.binder? scope name = some binder ∧ (binder ∈ before ∨ binder = frame) := by
  have hcontains : (s.bindings frame).contains name = true := (Bindings.contains_iff_mem_names _ name).2 hname
  rw [binder?, hchain, List.find?_append,
    List.find?_cons_of_pos (p := fun id => (s.bindings id).contains name) hcontains]
  cases hfound : before.find? fun id => (s.bindings id).contains name with
  | none => exact ⟨frame, rfl, .inr rfl⟩
  | some binder => exact ⟨binder, rfl, .inl (List.mem_of_find?_eq_some hfound)⟩

end Scopes

end LineScript
