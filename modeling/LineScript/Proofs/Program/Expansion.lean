import LineScript.Proofs.Evaluation.Position
/-!
# Compound assignments

An assignment by `+=`, `-=`, `*=` or `/=` is short for one by `=` of an operation, whose operands are the target and the
value in parentheses. Targets are of the tightest level of the grammar, so that an operator may follow them, and
parentheses keep the value together. Both statements have the same tree but for the positions, and so they do the same.
-/

namespace LineScript

open Token (Kind)

/-- The tree of an assignment that stores a value into a target: a variable, an item of an array or a member of an
object. -/
inductive Node.Stores : (target value tree : Node) → Prop
  | var {p : Position} {x : String} {value : Node} : Stores (.var p x) value (.assign p x value)
  | item {p : Position} {array index value : Node} :
      Stores (.item p array index) value (.assignItem p array index value)
  | member {p : Position} {receiver value : Node} {x : String} :
      Stores (.member p receiver x) value (.assignMember p receiver x value)

theorem Node.Stores.exists_alike {target target' value value' tree : Node} (h : Stores target value tree)
    (htarget : target.Alike target') (hvalue : value.Alike value') :
    ∃ tree', Stores target' value' tree' ∧ tree.Alike tree' := by
  cases h with
  | var =>
      obtain ⟨p', rfl⟩ := htarget.exists_var
      exact ⟨_, .var, alike_assign hvalue⟩
  | item =>
      obtain ⟨p', array', index', rfl, harray, hindex⟩ := htarget.exists_item
      exact ⟨_, .item, alike_assignItem harray hindex hvalue⟩
  | member =>
      obtain ⟨p', receiver', rfl, hreceiver⟩ := htarget.exists_member
      exact ⟨_, .member, alike_assignMember hreceiver hvalue⟩

namespace Grammar

/-! ### Targets as operands -/

section

variable {Op : Type} {ops : List (Kind × Op)} {combine : Position → Op → Node → Node → Node} {Operand : Phrase Node}
  {ts rest : List Token} {n : Node}

/-- Behind the first operand there is nothing, or the tree is that of an operation. -/
theorem Operations.eq_or_exists {left : Node} (h : Operations ops combine Operand left ts n rest) :
    (left = n ∧ ts = rest) ∨ ∃ p op first second, n = combine p op first second := by
  induction h with
  | done => exact .inl ⟨rfl, rfl⟩
  | step _ _ _ ih =>
      rcases ih with ⟨rfl, -⟩ | hoperation
      · exact .inr ⟨_, _, _, _, rfl⟩
      · exact .inr hoperation

theorem Chain.operand (h : Chain ops combine Operand ts n rest)
    (hn : ∀ p op first second, n ≠ combine p op first second) : Operand ts n rest := by
  obtain ⟨hfirst, hmore⟩ := h
  rcases hmore.eq_or_exists with ⟨rfl, rfl⟩ | ⟨p, op, first, second, rfl⟩
  · exact hfirst
  · exact (hn p op first second rfl).elim

end

section

variable {ts mid rest : List Token} {left right n target value tree : Node} {t : Token} {op : BinaryOp}

/-- A target is no operation and no range, so the expression is a single operand. -/
theorem Expression.operand_of_stores (h : Expression ts target rest) (hstores : Node.Stores target value tree) :
    Unary Expression ts target rest := by
  have hbinary : ∀ p op first second, target ≠ .binary p op first second := by
    rintro p op first second rfl
    cases hstores
  have hlogical : ∀ p op first second, target ≠ .logical p op first second := by
    rintro p op first second rfl
    cases hstores
  obtain ⟨⟨hor⟩⟩ := h
  obtain ⟨hand⟩ := hor.operand hlogical
  obtain ⟨hcomparison⟩ := hand.operand hlogical
  cases hcomparison.operand hbinary with
  | single h =>
      obtain ⟨hterm⟩ := h
      obtain ⟨hfactor⟩ := hterm.operand hbinary
      exact hfactor.operand hbinary
  | upTo | stepped => cases hstores

/-- Two operands with an operator between them. -/
theorem Expression.of_operation (hleft : Unary Expression ts left (t :: mid))
    (hop : (t.kind, op) ∈ termOps ∨ (t.kind, op) ∈ factorOps) (hright : Unary Expression mid right rest) :
    Expression ts (.binary t.position op left right) rest := by
  have hterm : Term Expression ts (.binary t.position op left right) rest := by
    rcases hop with hop | hop
    · exact ⟨⟨⟨⟨hleft, .done⟩⟩, .step hop ⟨⟨hright, .done⟩⟩ .done⟩⟩
    · exact ⟨⟨⟨⟨hleft, .step hop hright .done⟩⟩, .done⟩⟩
  exact ⟨⟨⟨⟨⟨⟨⟨.single hterm, .done⟩⟩, .done⟩⟩, .done⟩⟩⟩

theorem Statement.of_stores {operator : Option BinaryOp} (htarget : Expression ts target (t :: mid))
    (hop : (t.kind, operator) ∈ assignmentOps) (hvalue : Expression mid value rest)
    (hstores : Node.Stores target (stored operator t.position target value) tree) :
    Statement Expression ts tree rest := by
  cases hstores with
  | var => exact .var htarget hop hvalue
  | item => exact .item htarget hop hvalue
  | member => exact .member htarget hop hvalue

/-! ### Phrases with anything behind them -/

/-- The tokens make up the phrase, whatever follows them. -/
def Entire (L : Phrase Node) (ts : List Token) (n : Node) : Prop :=
  ∀ more, L (ts ++ more) n more

/-- An expression is read alike from the same tokens elsewhere. -/
theorem Expression.exists_alike {us : List Token} (h : Expression ts n []) (hus : List.Forall₂ Token.Alike ts us) :
    ∃ n', n.Alike n' ∧ Entire Expression us n' := by
  obtain ⟨n', left, hn', hleft, hreads⟩ := (Expression.relays h).2 (.of_alike hus)
  obtain rfl := hleft.eq_nil
  exact ⟨n', hn', hreads⟩

theorem Statement.imp {L L' : Phrase Node} (hL : ∀ {ts n rest}, L ts n rest → L' ts n rest)
    (h : Statement L ts n rest) :
    Statement L' ts n rest := by
  cases h with
  | expression h => exact .expression (hL h)
  | name ht hop hvalue => exact .name ht hop (hL hvalue)
  | var htarget hop hvalue => exact .var (hL htarget) hop (hL hvalue)
  | item htarget hop hvalue => exact .item (hL htarget) hop (hL hvalue)
  | member htarget hop hvalue => exact .member (hL htarget) hop (hL hvalue)

theorem Statement.exists_alike {us : List Token} (h : Entire (Statement Expression) ts n)
    (hus : List.Forall₂ Token.Alike ts us) : ∃ n', n.Alike n' ∧ Entire (Statement Expression) us n' := by
  have hstatement := h []
  rw [List.append_nil] at hstatement
  obtain ⟨n', left, hn', hleft, hreads⟩ := (hstatement.imp Expression.relays).relays.2 (.of_alike hus)
  obtain rfl := hleft.eq_nil
  exact ⟨n', hn', hreads⟩

/-! ### Both statements -/

variable {es : List Token} (htarget : Entire Expression ts target) (hvalue : Entire Expression es value)
include htarget hvalue

/-- The target, an assignment with an operator and the value. -/
theorem entire_compound {compound : Token} (hcompound : (compound.kind, some op) ∈ assignmentOps)
    (hstores : Node.Stores target (.binary compound.position op target value) tree) :
    Entire (Statement Expression) (ts ++ compound :: es) tree := by
  intro more
  rw [List.append_assoc, List.cons_append]
  exact .of_stores (htarget _) hcompound (hvalue more) hstores

/-- The target, an assignment without an operator, the target again, the operator and the value in parentheses. -/
theorem entire_expansion {assign operator opening closing : Token} (hassign : assign.kind = .assign)
    (hop : (operator.kind, op) ∈ termOps ∨ (operator.kind, op) ∈ factorOps) (hopening : opening.kind = .parenLeft)
    (hclosing : closing.kind = .parenRight)
    (hstores : Node.Stores target (.binary operator.position op target value) tree) :
    Entire (Statement Expression) (ts ++ assign :: (ts ++ operator :: opening :: (es ++ [closing]))) tree := by
  intro more
  have hassignment : (assign.kind, none) ∈ assignmentOps := by
    rw [hassign]
    decide
  have hgroup : Unary Expression (opening :: (es ++ closing :: more)) value more :=
    .of_primary (.group hopening (hvalue _) hclosing)
  have hoperation := Expression.of_operation ((htarget _).operand_of_stores hstores) hop hgroup
  simp only [List.append_assoc, List.cons_append, List.nil_append]
  exact .of_stores (htarget _) hassignment hoperation hstores

end

end Grammar

namespace Program

open Grammar

/-- The tokens are this statement: wherever a statement may stand, and as a source of their own. -/
structure Reads (us : List Token) (n : Node) : Prop where
  statement : Entire (Statement Expression) us n
  program : ∀ {source text : String} {last : Token}, last.kind = .endOfFile →
    (Lexer.ofSource source text).Yields (us ++ [last]) → parse source text = .ok ⟨source, [n]⟩

theorem Reads.of_entire {us : List Token} {n : Node} (h : Entire (Statement Expression) us n) : Reads us n where
  statement := h
  program hlast hyields := parse_of_derives hyields ⟨.last (h _) hlast, hlast⟩

/-- **A compound assignment is its expansion.** Take the tokens of an expression that can be assigned to, and those of
any expression. The statement that assigns with an operator, and the one that assigns the operation on the target and
the value in parentheses, have the same tree but for the positions, which holds the target once to be written and once
to be read. In any scope and as programs they end in the same value or for the same reason, with the same effects, if
the host does not look at positions. -/
theorem compound_assignment_is_expansion {ts es us us' : List Token} {target value tree : Node} {op : BinaryOp}
    {compound assign operator opening closing : Token} (htarget : Expression ts target [])
    (hvalue : Expression es value []) (htree : Node.Stores target (.binary .nowhere op target value) tree)
    (hcompound : (compound.kind, some op) ∈ assignmentOps) (hassign : assign.kind = .assign)
    (hop : (operator.kind, op) ∈ termOps ∨ (operator.kind, op) ∈ factorOps) (hopening : opening.kind = .parenLeft)
    (hclosing : closing.kind = .parenRight) (hus : List.Forall₂ Token.Alike (ts ++ compound :: es) us)
    (hus' : List.Forall₂ Token.Alike (ts ++ assign :: (ts ++ operator :: opening :: (es ++ [closing]))) us') :
    ∃ n n', Reads us n ∧ Reads us' n' ∧ tree.Alike n ∧ tree.Alike n' ∧
      (∀ fuel scope, Eval.Alike (Eval.execute fuel (.node scope n)) (Eval.execute fuel (.node scope n'))) ∧
      ∀ fuel session source, Eval.Alike (Session.runWith fuel session ⟨source, [n]⟩)
        (Session.runWith fuel session ⟨source, [n']⟩) := by
  have hsame (ts : List Token) : List.Forall₂ Token.Alike ts ts := List.forall₂_same.2 fun t _ => .refl t
  obtain ⟨target', htarget', hreadsTarget⟩ := htarget.exists_alike (hsame ts)
  obtain ⟨value', hvalue', hreadsValue⟩ := hvalue.exists_alike (hsame es)
  have hoperation (p : Position) : (Node.binary .nowhere op target value).Alike (.binary p op target' value') :=
    Node.alike_binary htarget' hvalue'
  obtain ⟨n₁, hstores, hn₁⟩ := htree.exists_alike htarget' (hoperation compound.position)
  obtain ⟨n₂, hstores', hn₂⟩ := htree.exists_alike htarget' (hoperation operator.position)
  obtain ⟨n, hn, hreads⟩ := Statement.exists_alike (entire_compound hreadsTarget hreadsValue hcompound hstores) hus
  obtain ⟨n', hn', hreads'⟩ := Statement.exists_alike
    (entire_expansion hreadsTarget hreadsValue hassign hop hopening hclosing hstores') hus'
  have halike : n.Alike n' := (hn₁.trans hn).symm.trans (hn₂.trans hn')
  refine ⟨n, n', .of_entire hreads, .of_entire hreads', hn₁.trans hn, hn₂.trans hn',
    fun fuel scope => Eval.alike_execute fuel scope halike, fun fuel session source => ?_⟩
  exact Session.alike_runWith fuel session (congrArg (fun n => Program.mk source [n]) halike)

set_option maxRecDepth 20000 in
/-- A difference that is subtracted stays together, and comes to the same with the standard library. -/
theorem parse_difference_subtracted :
    ∃ p p', parse "s" "x -= a - b" = .ok p ∧ parse "s" "x = x - (a - b)" = .ok p' ∧ p.unplaced = p'.unplaced ∧
      ∃ library h, Library.standard .empty = .ok library h ∧ ∀ fuel maxCallDepth,
        Eval.unplacedEnd (Session.runWith fuel ⟨library, maxCallDepth⟩ p
            { Machine.ofConsole (.ofInput []) with heap := h }) =
          Eval.unplacedEnd (Session.runWith fuel ⟨library, maxCallDepth⟩ p'
            { Machine.ofConsole (.ofInput []) with heap := h }) := by
  have htarget : Expression [⟨.identifier, "x", ⟨"s", 1, 1⟩⟩] (.var ⟨"s", 1, 1⟩ "x") [] :=
    .of_unary (.of_primary (.var rfl))
  have hvalue : Expression
      [⟨.identifier, "a", ⟨"s", 1, 6⟩⟩, ⟨.minus, "-", ⟨"s", 1, 8⟩⟩, ⟨.identifier, "b", ⟨"s", 1, 10⟩⟩]
      (.binary ⟨"s", 1, 8⟩ .subtract (.var ⟨"s", 1, 6⟩ "a") (.var ⟨"s", 1, 10⟩ "b")) [] :=
    .of_operation (.of_primary (.var rfl)) (.inl (by decide)) (.of_primary (.var rfl))
  have hcompound : (Kind.minusAssign, some BinaryOp.subtract) ∈ assignmentOps := by decide
  have hop : (Kind.minus, BinaryOp.subtract) ∈ termOps := by decide
  have hlast (column : Nat) : (⟨.endOfFile, "", ⟨"s", 1, column⟩⟩ : Token).kind = .endOfFile := rfl
  obtain ⟨n, n', hreads, hreads', hn, hn', -, hruns⟩ := @compound_assignment_is_expansion _ _
    [⟨.identifier, "x", ⟨"s", 1, 1⟩⟩, ⟨.minusAssign, "-=", ⟨"s", 1, 3⟩⟩, ⟨.identifier, "a", ⟨"s", 1, 6⟩⟩,
      ⟨.minus, "-", ⟨"s", 1, 8⟩⟩, ⟨.identifier, "b", ⟨"s", 1, 10⟩⟩]
    [⟨.identifier, "x", ⟨"s", 1, 1⟩⟩, ⟨.assign, "=", ⟨"s", 1, 3⟩⟩, ⟨.identifier, "x", ⟨"s", 1, 5⟩⟩,
      ⟨.minus, "-", ⟨"s", 1, 7⟩⟩, ⟨.parenLeft, "(", ⟨"s", 1, 9⟩⟩, ⟨.identifier, "a", ⟨"s", 1, 10⟩⟩,
      ⟨.minus, "-", ⟨"s", 1, 12⟩⟩, ⟨.identifier, "b", ⟨"s", 1, 14⟩⟩, ⟨.parenRight, ")", ⟨"s", 1, 15⟩⟩]
    _ _ _ _ ⟨.minusAssign, "-=", ⟨"s", 1, 3⟩⟩ ⟨.assign, "=", ⟨"s", 1, 3⟩⟩ ⟨.minus, "-", ⟨"s", 1, 7⟩⟩
    ⟨.parenLeft, "(", ⟨"s", 1, 9⟩⟩ ⟨.parenRight, ")", ⟨"s", 1, 15⟩⟩ htarget hvalue .var hcompound rfl (.inl hop) rfl rfl
    (by repeat' constructor)
    (by repeat' constructor)
  have hempty : Heap.empty.Blind fun _ => .nowhere := fun g hg => (Array.not_mem_empty g hg).elim
  obtain ⟨library, h, hstandard, hblind⟩ := Library.blind_standard (f := fun _ => .nowhere) (fun _ => rfl) hempty
  refine ⟨_, _, hreads.program (hlast 11) ⟨⟨[], ⟨"s", 1, 11⟩⟩, by decide +kernel⟩,
    hreads'.program (hlast 16) ⟨⟨[], ⟨"s", 1, 16⟩⟩, by decide +kernel⟩, ?_, library, h, hstandard,
    fun fuel maxCallDepth => ?_⟩
  · exact congrArg (fun n => Program.mk "s" [n]) (hn.symm.trans hn')
  · exact hruns fuel ⟨library, maxCallDepth⟩ "s" _ _ hblind hblind rfl

end Program

end LineScript
