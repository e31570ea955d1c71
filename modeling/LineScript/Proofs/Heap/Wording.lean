import LineScript.Proofs.Heap.Lengths
import LineScript.Proofs.Token.Wording
/-!
# What the failures of operations tell

A message quotes names and, where a value cannot be converted or is no index, shows the text of that value. The names
are of one line, so the message is if the text is; and the text can be any.
-/

namespace LineScript

namespace RuntimeCause

/-- The names and symbols that the message quotes. -/
def names : RuntimeCause → List String
  | undefinedVariable name | operandTypes name _ _ | cannotReadMember name _ | cannotSetMember name _
  | logicalType name _ | arity name _ _ => [name]
  | undefinedMember member object => [member, object]
  | _ => []

/-- The text of a value that the message shows. -/
def shown? : RuntimeCause → Option String
  | cannotConvert text _ | indexNotInteger text => some text
  | _ => none

/-- A message that quotes names of one line is of one line if what it shows of a value is. -/
theorem oneLine_message_iff {cause : RuntimeCause} (hnames : ∀ name ∈ cause.names, OneLine name) :
    OneLine cause.message ↔ ∀ text ∈ cause.shown?, OneLine text := by
  unfold message
  cases cause with
  | cannotConvert text target =>
      have hbefore : OneLine "cannot convert `" := by decide +kernel
      have hbehind : OneLine "` to " := by decide +kernel
      simp only [shown?, oneLine_append, hbefore, hbehind, Tag.oneLine_name, Option.mem_some_iff, forall_eq', and_true,
        true_and]
  | indexNotInteger text =>
      have hbefore : OneLine "array index must be an integer but found " := by decide +kernel
      simp only [shown?, oneLine_append, hbefore, Option.mem_some_iff, forall_eq', true_and]
  | undefinedMember member object =>
      have hmember : OneLine member := hnames member List.mem_cons_self
      have hobject : OneLine object := hnames object (List.mem_cons_of_mem _ List.mem_cons_self)
      refine iff_of_true ?_ fun _ htext => (Option.not_mem_none _ htext).elim
      simp only [oneLine_append, hmember, hobject, and_true]
      decide +kernel
  | undefinedVariable name | operandTypes name | cannotReadMember name | cannotSetMember name | logicalType name
  | arity name =>
      have hname : OneLine name := hnames name List.mem_cons_self
      refine iff_of_true ?_ fun _ htext => (Option.not_mem_none _ htext).elim
      simp only [oneLine_append, hname, Tag.oneLine_name, oneLine_nat, and_true]
      decide +kernel
  | _ =>
      refine iff_of_true ?_ fun _ htext => (Option.not_mem_none _ htext).elim
      simp only [oneLine_append, Tag.oneLine_name, NumberRole.oneLine_text, oneLine_nat, oneLine_int,
        Decimal.oneLine_text, and_true, true_and]
      decide +kernel

/-- The names that the message quotes are of one line, and what it shows is the text of a value of the heap. -/
structure Tells (h : Heap) (cause : RuntimeCause) : Prop where
  names : ∀ name ∈ cause.names, OneLine name
  shown : ∀ text ∈ cause.shown?, ∃ v, text = h.display v

namespace Tells

variable {h : Heap} {cause : RuntimeCause}

theorem silent (hnames : cause.names = []) (hshown : cause.shown? = none) : cause.Tells h :=
  ⟨hnames ▸ nofun, by rw [hshown]; exact fun _ htext => (Option.not_mem_none _ htext).elim⟩

theorem quoting {name : String} (hnames : cause.names = [name]) (hname : OneLine name) (hshown : cause.shown? = none) :
    cause.Tells h :=
  ⟨hnames ▸ List.forall_mem_singleton.2 hname, by rw [hshown]; exact fun _ htext => (Option.not_mem_none _ htext).elim⟩

theorem showing {v : Value} (hnames : cause.names = []) (hshown : cause.shown? = some (h.display v)) :
    cause.Tells h :=
  ⟨hnames ▸ nofun, by rw [hshown]; exact fun _ htext => ⟨v, (Option.some.inj htext).symm⟩⟩

end Tells

end RuntimeCause

/-! ### Diagnostics -/

/-- The text of a value that a message shows. -/
def Diagnostic.shown? (d : Diagnostic) : Option String :=
  match d.cause with
  | .running cause => cause.shown?
  | _ => none

/-- The diagnostic has a cause in what a program did, which quotes names of one line and shows at most the text of a
value of the heap. Nothing is added to it but a position in a source whose name is of one line. -/
structure Diagnostic.Tells (h : Heap) (d : Diagnostic) : Prop where
  position : ∀ p ∈ d.position, OneLine p.source
  notes : d.notes = []
  cause : ∃ cause, d.cause = .running cause ∧ cause.Tells h

theorem Position.oneLine_text {p : Position} (hp : OneLine p.source) : OneLine p.text := by
  have hsource : OneLine ": " := by decide
  have hline : OneLine "," := by decide
  simp only [text, oneLine_append, hp, hsource, hline, oneLine_nat, and_true]

theorem Diagnostic.oneLine_title {d : Diagnostic} (hposition : ∀ p ∈ d.position, OneLine p.source) :
    OneLine d.title := by
  have hphase : OneLine (d.cause.phase.title ++ " error") := by
    cases d.cause.phase <;> decide
  refine (oneLine_append _ _).2 ⟨hphase, ?_⟩
  cases hp : d.position with
  | none => exact (by decide : OneLine "")
  | some p => exact (oneLine_append _ _).2 ⟨by decide, Position.oneLine_text (hposition p hp)⟩

/-- Without notes, a message is of one line if what it says of the cause is. -/
theorem Diagnostic.oneLine_message_iff {d : Diagnostic} (hposition : ∀ p ∈ d.position, OneLine p.source)
    (hnotes : d.notes = []) : OneLine d.message ↔ OneLine d.cause.message := by
  have htitle := oneLine_title hposition
  have hcolon : OneLine ": " := by decide
  have hjoin : OneLine (String.join []) := by decide
  simp only [message, hnotes, List.map_nil, oneLine_append, htitle, hcolon, hjoin, true_and, and_true]

theorem Diagnostic.Tells.oneLine_message_iff {h : Heap} {d : Diagnostic} (hd : d.Tells h) :
    OneLine d.message ↔ ∀ text ∈ d.shown?, OneLine text := by
  obtain ⟨cause, hcause, htells⟩ := hd.cause
  rw [Diagnostic.oneLine_message_iff hd.position hd.notes, Diagnostic.shown?, hcause]
  exact RuntimeCause.oneLine_message_iff htells.names

theorem Diagnostic.Tells.exists_eq_display {h : Heap} {d : Diagnostic} (hd : d.Tells h) :
    ∀ text ∈ d.shown?, ∃ v, text = h.display v := by
  obtain ⟨cause, hcause, htells⟩ := hd.cause
  rw [Diagnostic.shown?, hcause]
  exact htells.shown

def Failure.Tells (h : Heap) : Failure → Prop
  | diagnostic d => d.Tells h
  | io _ => True

theorem Failure.tells_ofCause {h : Heap} {cause : RuntimeCause} (hcause : cause.Tells h) :
    (Failure.ofCause cause).Tells h :=
  ⟨fun _ hp => (Option.not_mem_none _ hp).elim, rfl, cause, rfl, hcause⟩

theorem Failure.Tells.orPosition {h : Heap} {f : Failure} (hf : f.Tells h) {p : Position} (hp : OneLine p.source) :
    (f.orPosition p).Tells h := by
  cases f with
  | io text => trivial
  | diagnostic d =>
      obtain ⟨cause, position, notes⟩ := d
      cases position with
      | none => exact ⟨fun q hq => Option.some.inj hq ▸ hp, hf.notes, hf.cause⟩
      | some q => exact hf

/-! ### Operations -/

/-- The functions and the objects of the heap have names of one line. -/
structure Heap.Named (h : Heap) : Prop where
  functions : ∀ f ∈ h.functions, OneLine f.name
  objects : ∀ o ∈ h.objects, OneLine o.name

namespace Heap.Named

variable {h : Heap} (hh : h.Named)

include hh

theorem function (id : FunctionId) : OneLine (h.function id).name := by
  unfold Heap.function
  cases hfound : h.functions[id.index]? with
  | none => exact (by decide : OneLine "")
  | some f => exact hh.functions f (Array.mem_of_getElem? hfound)

theorem object (id : ObjectId) : OneLine (h.object id).name := by
  unfold Heap.object
  cases hfound : h.objects[id.index]? with
  | none => exact (by decide : OneLine "")
  | some o => exact hh.objects o (Array.mem_of_getElem? hfound)

theorem setMember (id : ObjectId) (name : String) (value : Value) : (h.setMember id name value).Named := by
  have hsame : ∀ o : Object, OneLine o.name →
      OneLine { o with members := Bindings.insert name value o.members }.name := fun _ ho => ho
  exact ⟨hh.functions, forall_mem_modify hh.objects hsame id.index⟩

end Heap.Named

/-- If the action failed, then in one that tells what it may of the heap reached. -/
def FailsTelling {σ α : Type} (heap : σ → Heap) : EStateM.Result Interrupt σ α → Prop
  | .error (.failure f) s => f.Tells (heap s)
  | _ => True

/-- A failure tells the same in another state with the same heap and in the place of another result. -/
theorem FailsTelling.passed {σ τ α β : Type} {heap : σ → Heap} {heap' : τ → Heap} {e : Interrupt} {s : σ} {s' : τ}
    (h : FailsTelling heap (.error e s : EStateM.Result Interrupt σ α)) (hheap : heap' s' = heap s) :
    FailsTelling heap' (.error e s' : EStateM.Result Interrupt τ β) := by
  cases e with
  | failure f =>
      show f.Tells (heap' s')
      rw [hheap]
      exact h
  | _ => trivial

theorem FailsTelling.mapState {σ α : Type} {heap : σ → Heap} {result : EStateM.Result Interrupt σ α} {f : σ → σ}
    (h : FailsTelling heap result) (hheap : ∀ s, heap (f s) = heap s) : FailsTelling heap (result.mapState f) := by
  cases result with
  | ok a s => trivial
  | error e s => exact h.passed (hheap s)

/-- An operation that keeps names to one line, and tells no more than it may where it fails. -/
def Telling {α : Type} (action : Action Heap α) : Prop :=
  ∀ h, h.Named → (action h).state.Named ∧ FailsTelling id (action h)

namespace Telling

variable {α β : Type}

theorem pure (a : α) : Telling (pure a) := fun _ hh =>
  ⟨hh, trivial⟩

theorem raise {cause : RuntimeCause} (hcause : ∀ h, cause.Tells h) : Telling (raise cause : Action Heap α) :=
  fun h hh => ⟨hh, Failure.tells_ofCause (hcause h)⟩

theorem orRaise {cause : RuntimeCause} (hcause : ∀ h, cause.Tells h) (a : Option α) : Telling (orRaise cause a) := by
  cases a with
  | none => exact raise hcause
  | some a => exact pure a

theorem fault (f : Fault) : Telling (throw (.fault f) : Action Heap α) := fun _ hh =>
  ⟨hh, trivial⟩

theorem modify {f : Heap → Heap} (hf : ∀ h, h.Named → (f h).Named) : Telling (modify f) := fun h hh =>
  ⟨hf h hh, trivial⟩

theorem bind {action : Action Heap α} {next : α → Action Heap β} (haction : Telling action)
    (hnext : ∀ a, Telling (next a)) : Telling (action >>= next) := by
  intro h hh
  obtain ⟨hnamed, htells⟩ := haction h hh
  cases hrun : action h with
  | ok a h₁ =>
      rw [hrun] at hnamed
      rw [Action.bind_of_ok hrun]
      exact hnext a h₁ hnamed
  | error e h₁ =>
      rw [hrun] at hnamed htells
      rw [Action.bind_of_error hrun]
      exact ⟨hnamed, htells.passed rfl⟩

/-- An operation that goes on with the heap it reads, and may tell of it. -/
theorem reading {next : Heap → Action Heap α}
    (hnext : ∀ h, h.Named → (next h h).state.Named ∧ FailsTelling id (next h h)) : Telling (get >>= next) :=
  hnext

theorem get_bind {next : Heap → Action Heap α} (hnext : ∀ h, Telling (next h)) : Telling (get >>= next) :=
  reading fun h => hnext h h

end Telling

namespace Operation

theorem telling_makeArray (items : Array Value) : Telling (makeArray items) := fun _ hh =>
  ⟨⟨hh.functions, hh.objects⟩, trivial⟩

theorem telling_ofSequence (s : Sequence) : Telling (ofSequence s) := by
  cases s with
  | text s => exact .pure _
  | items xs => exact telling_makeArray xs

theorem telling_checkLength (length : Nat) : Telling (checkLength length) := by
  unfold checkLength
  split
  · exact .pure _
  · exact .raise fun _ => .silent rfl rfl

theorem telling_checkedLength (length : Option Nat) : Telling (checkedLength length) :=
  .bind (.orRaise (fun _ => .silent rfl rfl) _) fun _ => .bind (telling_checkLength _) fun _ => .pure _

theorem telling_number (role : NumberRole) (v : Value) : Telling (number role v) := by
  unfold number
  split
  · exact .pure _
  · exact .raise fun _ => .silent rfl rfl

theorem telling_content (v : Value) : Telling (content v) := by
  refine .get_bind fun h => ?_
  split
  · exact .pure _
  · exact .fault _

theorem telling_unfailing {α : Type} (a : Option α) : Telling (unfailing a) := by
  cases a with
  | none => exact .fault _
  | some a => exact .pure a

/-! ### Operators -/

theorem telling_unary (op : UnaryOp) (x : Value) : Telling (op.operation x) := by
  cases op with
  | not =>
      show Telling (Operation.not x)
      unfold Operation.not
      split
      · exact .pure _
      · exact .raise fun _ => .silent rfl rfl
  | negate =>
      show Telling (negate x)
      unfold negate
      split
      · exact .pure _
      · exact .raise fun _ => .silent rfl rfl

theorem telling_add (x y : Value) : Telling (add x y) := by
  unfold add
  split
  · exact .get_bind fun _ => .bind (telling_checkLength _) fun _ => .pure _
  · exact .get_bind fun _ => .bind (telling_checkLength _) fun _ => .pure _
  · exact .bind (.orRaise (fun _ => .silent rfl rfl) _) fun _ => .pure _
  · exact .get_bind fun _ => .bind (telling_checkedLength _) fun _ => telling_makeArray _
  · exact .raise fun _ => .quoting rfl (by decide) rfl

theorem telling_subtract (x y : Value) : Telling (subtract x y) := by
  unfold subtract
  split
  · exact .bind (.orRaise (fun _ => .silent rfl rfl) _) fun _ => .pure _
  · exact .raise fun _ => .quoting rfl (by decide) rfl

theorem telling_repeatedUpwards (s : Sequence) (count : Decimal) : Telling (repeatedUpwards s count) := by
  unfold repeatedUpwards
  split
  · exact telling_ofSequence _
  · refine .bind ?_ fun _ => .bind (telling_checkedLength _) fun _ => telling_ofSequence _
    exact .bind (telling_unfailing _) fun _ => .bind (telling_unfailing _) fun _ => .pure _

theorem telling_repeated (s : Sequence) (count : Decimal) : Telling (repeated s count) := by
  unfold repeated
  split
  · exact telling_repeatedUpwards _ _
  · exact telling_repeatedUpwards _ _

theorem telling_repetition (v count : Value) : Telling (repetition v count) := by
  refine .get_bind fun h => ?_
  split
  · exact .raise fun _ => .silent rfl rfl
  · exact .bind (telling_number _ _) fun _ => .bind (telling_content _) fun _ => telling_repeated _ _

theorem telling_multiply (x y : Value) : Telling (multiply x y) := by
  unfold multiply
  split
  · exact .bind (.orRaise (fun _ => .silent rfl rfl) _) fun _ => .pure _
  · exact telling_repetition _ _
  · exact telling_repetition _ _
  · exact .raise fun _ => .quoting rfl (by decide) rfl

theorem telling_divide (x y : Value) : Telling (divide x y) := by
  unfold divide
  split
  · split
    · exact .bind (.raise fun _ => .silent rfl rfl) fun _ =>
        .bind (.orRaise (fun _ => .silent rfl rfl) _) fun _ => .pure _
    · exact .bind (.orRaise (fun _ => .silent rfl rfl) _) fun _ => .pure _
  · exact .raise fun _ => .quoting rfl (by decide) rfl

theorem telling_orEquals (answer : Bool) (x y : Value) : Telling (orEquals (.bool answer) x y) :=
  .bind (.pure answer) fun _ => .get_bind fun _ => .pure _

theorem telling_binary (op : BinaryOp) (x y : Value) : Telling (op.operation x y) := by
  cases op with
  | add => exact telling_add x y
  | subtract => exact telling_subtract x y
  | multiply => exact telling_multiply x y
  | divide => exact telling_divide x y
  | equals | notEquals => exact .get_bind fun _ => .pure _
  | less | greater => exact .pure _
  | lessEquals => exact telling_orEquals (x.less y) x y
  | greaterEquals => exact telling_orEquals (x.greater y) x y

/-! ### Ranges -/

theorem telling_rangeBy (first last step : Decimal) : Telling (rangeBy first last step) := by
  unfold rangeBy
  split
  · exact telling_makeArray _
  · split
    · exact .raise fun _ => .silent rfl rfl
    · refine .bind (.orRaise (fun _ => .silent rfl rfl) _) fun distance => ?_
      split
      · exact telling_makeArray _
      · have hcount : Telling (stepCount distance step) :=
          .bind (telling_checkedLength _) fun _ => .pure _
        exact .bind hcount fun _ => .bind (.orRaise (fun _ => .silent rfl rfl) _) fun _ => telling_makeArray _

theorem telling_range (first last : Value) (step : Option Value) : Telling (range first last step) := by
  refine .bind (telling_number _ _) fun first => .bind (telling_number _ _) fun last => ?_
  cases step with
  | none => exact telling_rangeBy _ _ _
  | some step => exact .bind (telling_number _ _) fun _ => telling_rangeBy _ _ _

/-! ### Items and members -/

theorem telling_getItem (id : ArrayId) (index : Int) : Telling (getItem id index) := by
  refine .get_bind fun h => ?_
  split
  · exact .raise fun _ => .silent rfl rfl
  · exact .orRaise (fun _ => .silent rfl rfl) _

theorem telling_setLength (id : ArrayId) (length : Int) : Telling (setLength id length) := by
  unfold setLength
  split
  · exact .raise fun _ => .silent rfl rfl
  · exact .bind (telling_checkLength _) fun _ => .modify fun _ hh => ⟨hh.functions, hh.objects⟩

theorem telling_putItem (id : ArrayId) (place : Nat) (value : Value) : Telling (putItem id place value) := by
  refine .get_bind fun h => ?_
  split
  · exact .get_bind fun _ => .fault _
  · exact .modify fun _ hh => ⟨hh.functions, hh.objects⟩

theorem telling_setItem (id : ArrayId) (index : Int) (value : Value) : Telling (setItem id index value) := by
  unfold setItem
  split
  · exact .raise fun _ => .silent rfl rfl
  · refine .get_bind fun h => ?_
    split
    · exact .bind (telling_setLength _ _) fun _ => telling_putItem _ _ _
    · exact telling_putItem _ _ _

/-- An index that is no integer is shown, whatever text it has. -/
theorem telling_arrayAndIndex (v index : Value) : Telling (arrayAndIndex v index) := by
  have hshown {α : Type} : Telling (get >>= fun h => LineScript.raise (.indexNotInteger (h.display index)) :
      Action Heap α) :=
    .reading fun h hh => ⟨hh, Failure.tells_ofCause (.showing rfl rfl)⟩
  unfold arrayAndIndex
  split
  · split
    · split
      · split
        · exact .pure _
        · exact .raise fun _ => .silent rfl rfl
      · exact hshown
    · exact hshown
  · exact .raise fun _ => .silent rfl rfl

theorem telling_readItem (v index : Value) : Telling (readItem v index) :=
  .bind (telling_arrayAndIndex _ _) fun _ => telling_getItem _ _

theorem telling_writeItem (v index value : Value) : Telling (writeItem v index value) :=
  .bind (telling_arrayAndIndex _ _) fun _ => telling_setItem _ _ _

theorem telling_readMember (v : Value) {name : String} (hname : OneLine name) : Telling (readMember v name) := by
  unfold readMember
  split
  next id =>
    refine .reading fun h hh => ?_
    have hcause (h' : Heap) : (RuntimeCause.undefinedMember name (h.object id).name).Tells h' :=
      ⟨List.forall_mem_cons.2 ⟨hname, List.forall_mem_singleton.2 (hh.object id)⟩,
        fun _ htext => (Option.not_mem_none _ htext).elim⟩
    exact Telling.orRaise hcause _ h hh
  next => exact .raise fun _ => .quoting rfl hname rfl

theorem telling_writeMember (v : Value) {name : String} (hname : OneLine name) (value : Value) :
    Telling (writeMember v name value) := by
  unfold writeMember
  split
  · exact .modify fun _ hh => hh.setMember _ _ _
  · exact .raise fun _ => .quoting rfl hname rfl

/-! ### Conversions -/

/-- A value that cannot be converted is shown, whatever text it has. -/
theorem telling_convert (v : Value) (target : Tag) : Telling (convert v target) := by
  unfold convert
  split
  · exact .pure _
  · refine .reading fun h hh => ?_
    cases Value.ofText? (h.display v) target with
    | none => exact ⟨hh, Failure.tells_ofCause (.showing rfl rfl)⟩
    | some w => exact ⟨hh, trivial⟩

theorem telling_argument (args : List Value) (i : Nat) : Telling (argument args i) := by
  unfold argument
  split
  · exact .pure _
  · exact .fault _

end Operation

end LineScript
