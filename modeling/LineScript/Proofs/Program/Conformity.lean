import LineScript.Program.Parser
import LineScript.Proofs.Program.Cursor
/-!
# Parsers that conform

Two runs of the grammar over corresponding tokens go through the same steps. `Conforms` relates two parsers that see
corresponding tokens: both look at the same places, take tokens at the same times, reject at corresponding tokens and
return corresponding results, except that the fuel of the first may run out. The relation also counts tokens, so that it
says how many must have been taken before the fuel does run out. The rules of the grammar are gone through once, here;
what the parser does on streams of various kinds follows by induction on the relation.
-/

namespace LineScript

open Token (Kind)

/-! ### Moving positions -/

def Token.mapPosition (f : Position → Position) (t : Token) : Token :=
  { t with position := f t.position }

mutual

/-- The tree with its positions moved. -/
def Node.mapPosition (f : Position → Position) : Node → Node
  | .literal p value => .literal (f p) value
  | .var p name => .var (f p) name
  | .assign p name value => .assign (f p) name (value.mapPosition f)
  | .binary p op left right => .binary (f p) op (left.mapPosition f) (right.mapPosition f)
  | .unary p op operand => .unary (f p) op (operand.mapPosition f)
  | .logical p op left right => .logical (f p) op (left.mapPosition f) (right.mapPosition f)
  | .member p receiver name => .member (f p) (receiver.mapPosition f) name
  | .assignMember p receiver name value => .assignMember (f p) (receiver.mapPosition f) name (value.mapPosition f)
  | .call p callee args => .call (f p) (callee.mapPosition f) (Node.mapPositions f args)
  | .list p items => .list (f p) (Node.mapPositions f items)
  | .range p first last step => .range (f p) (first.mapPosition f) (last.mapPosition f) (Node.mapPosition? f step)
  | .item p array index => .item (f p) (array.mapPosition f) (index.mapPosition f)
  | .assignItem p array index value =>
      .assignItem (f p) (array.mapPosition f) (index.mapPosition f) (value.mapPosition f)
  | .branch p test body otherwise =>
      .branch (f p) (test.mapPosition f) (Node.mapPositions f body) (Node.mapPosition? f otherwise)
  | .loop p test body => .loop (f p) (test.mapPosition f) (Node.mapPositions f body)
  | .forEach p name items body => .forEach (f p) name (items.mapPosition f) (Node.mapPositions f body)
  | .block p body => .block (f p) (Node.mapPositions f body)
  | .function p name params body => .function (f p) name params (Node.mapPositions f body)

def Node.mapPositions (f : Position → Position) : List Node → List Node
  | [] => []
  | n :: ns => n.mapPosition f :: Node.mapPositions f ns

def Node.mapPosition? (f : Position → Position) : Option Node → Option Node
  | none => none
  | some n => some (n.mapPosition f)

end

mutual

theorem Node.mapPosition_id : ∀ n : Node, n.mapPosition id = n
  | .literal _ _ | .var _ _ => rfl
  | .assign _ _ value => by rw [Node.mapPosition, Node.mapPosition_id value, id]
  | .binary _ _ left right | .logical _ _ left right => by
      rw [Node.mapPosition, Node.mapPosition_id left, Node.mapPosition_id right, id]
  | .unary _ _ operand => by rw [Node.mapPosition, Node.mapPosition_id operand, id]
  | .member _ receiver _ => by rw [Node.mapPosition, Node.mapPosition_id receiver, id]
  | .assignMember _ receiver _ value => by
      rw [Node.mapPosition, Node.mapPosition_id receiver, Node.mapPosition_id value, id]
  | .call _ callee args => by rw [Node.mapPosition, Node.mapPosition_id callee, Node.mapPositions_id args, id]
  | .list _ items => by rw [Node.mapPosition, Node.mapPositions_id items, id]
  | .range _ first last step => by
      rw [Node.mapPosition, Node.mapPosition_id first, Node.mapPosition_id last, Node.mapPosition?_id step, id]
  | .item _ array index => by rw [Node.mapPosition, Node.mapPosition_id array, Node.mapPosition_id index, id]
  | .assignItem _ array index value => by
      rw [Node.mapPosition, Node.mapPosition_id array, Node.mapPosition_id index, Node.mapPosition_id value, id]
  | .branch _ test body otherwise => by
      rw [Node.mapPosition, Node.mapPosition_id test, Node.mapPositions_id body, Node.mapPosition?_id otherwise, id]
  | .loop _ test body => by rw [Node.mapPosition, Node.mapPosition_id test, Node.mapPositions_id body, id]
  | .forEach _ _ items body => by rw [Node.mapPosition, Node.mapPosition_id items, Node.mapPositions_id body, id]
  | .block _ body => by rw [Node.mapPosition, Node.mapPositions_id body, id]
  | .function _ _ _ body => by rw [Node.mapPosition, Node.mapPositions_id body, id]

theorem Node.mapPositions_id : ∀ ns : List Node, Node.mapPositions id ns = ns
  | [] => rfl
  | n :: ns => by rw [Node.mapPositions, Node.mapPosition_id n, Node.mapPositions_id ns]

theorem Node.mapPosition?_id : ∀ n : Option Node, Node.mapPosition? id n = n
  | none => rfl
  | some n => by rw [Node.mapPosition?, Node.mapPosition_id n]

end

/-- The mistakes that the grammar finds; the lexer finds the others. -/
def SyntaxCause.isGrammatical : SyntaxCause → Bool
  | unexpected _ _ | invalidTarget | invalidNumber _ | duplicateParameter _ => true
  | unterminatedString | invalidEscape _ | invalidCharacter _ => false

/-- The mistakes that the grammar finds at a token. The text that one quotes is the token's, which is a name or a
number. -/
def SyntaxCause.Concerns (t : Token) : SyntaxCause → Prop
  | unexpected _ _ | invalidTarget => True
  | invalidNumber text => t.kind = .numberLiteral ∧ text = t.text
  | duplicateParameter name => t.kind = .identifier ∧ name = t.text
  | unterminatedString | invalidEscape _ | invalidCharacter _ => False

theorem SyntaxCause.Concerns.isGrammatical {t : Token} {cause : SyntaxCause} (h : cause.Concerns t) :
    cause.isGrammatical = true := by
  cases cause with
  | unterminatedString | invalidEscape | invalidCharacter => exact h.elim
  | _ => rfl

namespace Parser

variable {α β : Type}

/-! ### Corresponding tokens -/

/-- How the tokens that two parsers see correspond. Those of the second have the positions of the first moved. Where the
tokens of the first end, those of the second may go on behind the end of a line; then nothing is asked of the second
parser where the first rejects. -/
structure Correspondence where
  /-- What is known of the tokens that come to stand first in view. -/
  handed : Token → Prop
  move : Position → Position
  goesOn : Prop

namespace Correspondence

variable (k : Correspondence)

/-- The same token, moved, or the end of a line in the place of the end of the file. -/
def Same (t t' : Token) : Prop :=
  t' = t.mapPosition k.move ∨ k.goesOn ∧ t.kind = .endOfFile ∧ t'.kind = .endOfLine

/-- Views that correspond. Behind the end of the file there is nothing to compare. -/
structure Alike (v v' : View) : Prop where
  handed : k.handed v.first
  first : k.Same v.first v'.first
  second : v.first.kind ≠ .endOfFile → k.Same v.second v'.second

variable {k} {v v' : View}

/-- Whether a name stands first and a token of some class behind it is the same in both views. -/
theorem Alike.named_iff (h : k.Alike v v') (test : Kind → Prop) (hfile : ¬ test .endOfFile)
    (hline : ¬ test .endOfLine) :
    v.first.kind = .identifier ∧ test v'.second.kind ↔ v.first.kind = .identifier ∧ test v.second.kind := by
  refine and_congr_right fun hname => ?_
  rcases h.second (by rw [hname]; decide) with hsecond | ⟨-, hend, hends⟩
  · rw [hsecond]
    exact Iff.rfl
  · rw [hend, hends]
    exact iff_of_false hline hfile

theorem Alike.first_eq (h : k.Alike v v') (hkind : v.first.kind ≠ .endOfFile) :
    v'.first = v.first.mapPosition k.move :=
  h.first.resolve_right fun hend => hkind hend.2.1

end Correspondence

/-! ### Conforming parsers -/

/-- The parsers conform at these views: `r` takes the results of the first to those of the second. The first takes at
least `least` tokens if it succeeds, and at least `bound` tokens before its fuel runs out, and never the end of the
file. -/
inductive Conforms (k : Correspondence) (r : α → α) : View → View → (least bound : Nat) → Parser α → Parser α → Prop
  | done {v v' : View} {bound : Nat} {a : α} (halike : k.Alike v v') : Conforms k r v v' 0 bound (pure a) (pure (r a))
  | reject {v v' : View} {least bound : Nat} {t : Token} {cause : SyntaxCause} (ht : k.handed t)
      (hcause : cause.Concerns t) :
      Conforms k r v v' least bound (reject cause t.position) (reject cause (k.move t.position))
  | refuse {v v' : View} {least bound : Nat} {p q : Parser α} (hgoes : k.goesOn)
      (hp : ∀ c, c.Shows v → ∀ result, p c ≠ .ok result) : Conforms k r v v' least bound p q
  | exhausted {v v' : View} {least : Nat} {q : Parser α} : Conforms k r v v' least 0 exhausted q
  | first {v v' : View} {least bound : Nat} {f g : Token → Parser α}
      (h : Conforms k r v v' least bound (f v.first) (g v'.first)) :
      Conforms k r v v' least bound (peek 0 >>= f) (peek 0 >>= g)
  | second {v v' : View} {least bound : Nat} {f g : Token → Parser α}
      (h : Conforms k r v v' least bound (f v.second) (g v'.second)) :
      Conforms k r v v' least bound (peek 1 >>= f) (peek 1 >>= g)
  | take {v v' : View} {least bound : Nat} {f g : Token → Parser α} (hkind : v.first.kind ≠ .endOfFile)
      (h : ∀ third third', k.Alike ⟨v.second, third⟩ ⟨v'.second, third'⟩ →
        Conforms k r ⟨v.second, third⟩ ⟨v'.second, third'⟩ (least - 1) (bound - 1) (f v.first) (g v'.first)) :
      Conforms k r v v' least bound (advance >>= f) (advance >>= g)

/-- The parsers conform wherever the views correspond. -/
def Agree (k : Correspondence) (r : α → α) (least bound : Nat) (p q : Parser α) : Prop :=
  ∀ ⦃v v'⦄, k.Alike v v' → Conforms k r v v' least bound p q

variable {k : Correspondence} {r : α → α} {s : β → β} {v v' : View} {least least' bound bound' : Nat}

theorem Conforms.done_of_eq {a a' : α} (halike : k.Alike v v') (ha : a' = r a) :
    Conforms k r v v' 0 bound (pure a) (pure a') := by
  rw [ha]
  exact .done halike

theorem Conforms.mono {p q : Parser α} (h : Conforms k r v v' least bound p q) (hleast : least' ≤ least)
    (hbound : bound' ≤ bound) : Conforms k r v v' least' bound' p q := by
  induction h generalizing least' bound' with
  | done halike =>
      obtain rfl := Nat.le_zero.1 hleast
      exact .done halike
  | reject ht hcause => exact .reject ht hcause
  | refuse hgoes hp => exact .refuse hgoes hp
  | exhausted =>
      obtain rfl := Nat.le_zero.1 hbound
      exact .exhausted
  | first _ ih => exact .first (ih hleast hbound)
  | second _ ih => exact .second (ih hleast hbound)
  | take hkind _ ih =>
      exact .take hkind fun third third' halike =>
        ih third third' halike (Nat.sub_le_sub_right hleast 1) (Nat.sub_le_sub_right hbound 1)

/-- In a sequence the tokens that the first parser takes count for the fuel of the second. -/
theorem Conforms.bind {p q : Parser α} {f g : α → Parser β} {m b n d : Nat} (hp : Conforms k r v v' m b p q)
    (hf : ∀ a, Agree k s n d (f a) (g (r a))) (hleast : least ≤ m + n) (hbound : bound ≤ b)
    (hrest : bound ≤ m + d) : Conforms k s v v' least bound (p >>= f) (q >>= g) := by
  induction hp generalizing least bound with
  | @done _ _ _ a halike =>
      rw [pure_bind, pure_bind]
      exact (hf a halike).mono (by omega) (by omega)
  | reject ht hcause => exact .reject ht hcause
  | refuse hgoes hp =>
      refine .refuse hgoes fun c hshows result hrun => ?_
      obtain ⟨a, c₁, hrun, -⟩ := bind_eq_ok.1 hrun
      exact hp c hshows (a, c₁) hrun
  | exhausted =>
      obtain rfl := Nat.le_zero.1 hbound
      exact .exhausted
  | first _ ih =>
      rw [bind_assoc, bind_assoc]
      exact .first (ih hleast hbound hrest)
  | second _ ih =>
      rw [bind_assoc, bind_assoc]
      exact .second (ih hleast hbound hrest)
  | take hkind _ ih =>
      rw [bind_assoc, bind_assoc]
      exact .take hkind fun third third' halike => ih third third' halike (by omega) (by omega) (by omega)

theorem Conforms.map {p q : Parser α} {f g : α → β} {m b : Nat} (hp : Conforms k r v v' m b p q)
    (hfg : ∀ a, g (r a) = s (f a)) (hleast : least ≤ m) (hbound : bound ≤ b) :
    Conforms k s v v' least bound (do return f (← p)) (do return g (← q)) := by
  refine hp.bind (n := 0) (d := bound) (fun a w w' hw => ?_) hleast hbound (by omega)
  exact .done_of_eq hw (hfg a)

/-! ### Rules for the primitive steps -/

theorem Conforms.ite {c c' : Prop} [Decidable c] [Decidable c'] {p p' q q' : Parser α} (hiff : c' ↔ c)
    (hpos : c → Conforms k r v v' least bound p q) (hneg : ¬ c → Conforms k r v v' least bound p' q') :
    Conforms k r v v' least bound (if c then p else p') (if c' then q else q') := by
  by_cases hc : c
  · rw [if_pos hc, if_pos (hiff.2 hc)]
    exact hpos hc
  · rw [if_neg hc, if_neg (mt hiff.1 hc)]
    exact hneg hc

/-- To look at the kind of the token at hand. Where the tokens of the first parser end, those of the second may have the
end of a line. -/
theorem Conforms.kind {f g : Kind → Parser α} (halike : k.Alike v v')
    (hsame : Conforms k r v v' least bound (f v.first.kind) (g v.first.kind))
    (hends : k.goesOn → v.first.kind = .endOfFile → Conforms k r v v' least bound (f .endOfFile) (g .endOfLine)) :
    Conforms k r v v' least bound (peekKind 0 >>= f) (peekKind 0 >>= g) := by
  simp only [peekKind, bind_assoc, pure_bind]
  refine .first ?_
  rcases halike.first with hfirst | ⟨hgoes, hend, hline⟩
  · rw [hfirst]
    exact hsame
  · rw [hend, hline]
    exact hends hgoes hend

theorem Conforms.secondKind {f g : Kind → Parser α}
    (h : Conforms k r v v' least bound (f v.second.kind) (g v'.second.kind)) :
    Conforms k r v v' least bound (peekKind 1 >>= f) (peekKind 1 >>= g) := by
  simp only [peekKind, bind_assoc, pure_bind]
  exact .second h

/-- To take a token, of which something is known. -/
theorem Conforms.advance {f g : Token → Parser α} (halike : k.Alike v v') (hkind : v.first.kind ≠ .endOfFile)
    (h : ∀ w w', k.Alike w w' → w.first = v.second →
      Conforms k r w w' (least - 1) (bound - 1) (f v.first) (g (v.first.mapPosition k.move))) :
    Conforms k r v v' least bound (advance >>= f) (advance >>= g) := by
  refine .take hkind fun third third' hnext => ?_
  rw [halike.first_eq hkind]
  exact h _ _ hnext rfl

theorem unexpected_bind (wanted : Expectation) (f : α → Parser β) : (unexpected wanted >>= f) = unexpected wanted := by
  simp only [unexpected, bind_assoc]
  rfl

theorem Conforms.unexpected (halike : k.Alike v v') (wanted : Expectation) :
    Conforms k r v v' least bound (unexpected wanted) (unexpected wanted) := by
  rcases halike.first with hfirst | ⟨hgoes, -, -⟩
  · refine .first ?_
    rw [hfirst]
    exact .reject halike.handed trivial
  · exact .refuse hgoes fun _ _ _ => unexpected_ne_ok

/-- To take a token of a kind, or to reject it. -/
theorem Conforms.consume {kind : Kind} {f g : Token → Parser α} (halike : k.Alike v v') (hkind : kind ≠ .endOfFile)
    (h : ∀ w w', k.Alike w w' → w.first = v.second → k.handed v.first ∧ v.first.kind = kind →
      Conforms k r w w' (least - 1) (bound - 1) (f v.first) (g (v.first.mapPosition k.move))) :
    Conforms k r v v' least bound (consume kind >>= f) (consume kind >>= g) := by
  simp only [Parser.consume, bind_assoc]
  refine .kind halike ?_ fun hgoes _ => .refuse hgoes ?_
  · by_cases hfirst : v.first.kind = kind
    · simp only [if_pos hfirst]
      exact .advance halike (hfirst ▸ hkind) fun w w' hw hnext =>
        h w w' hw hnext ⟨halike.handed, hfirst⟩
    · simp only [if_neg hfirst]
      rw [unexpected_bind, unexpected_bind]
      exact .unexpected halike _
  · rw [if_neg hkind.symm, unexpected_bind]
    exact fun _ _ _ => unexpected_ne_ok

/-! ### Operators of a class stand for something -/

theorem exists_unaryOp {kind : Kind} (h : kind.isUnaryOperator = true) : ∃ op, unaryOp kind = pure op := by
  cases kind with
  | notWord | minus => exact ⟨_, rfl⟩
  | _ => cases h

theorem exists_binaryOp_of_factor {kind : Kind} (h : kind.isFactorOperator = true) :
    ∃ op, binaryOp kind = pure op := by
  cases kind with
  | star | slash => exact ⟨_, rfl⟩
  | _ => cases h

theorem exists_binaryOp_of_term {kind : Kind} (h : kind.isTermOperator = true) : ∃ op, binaryOp kind = pure op := by
  cases kind with
  | plus | minus => exact ⟨_, rfl⟩
  | _ => cases h

theorem exists_binaryOp_of_comparison {kind : Kind} (h : kind.isComparison = true) :
    ∃ op, binaryOp kind = pure op := by
  cases kind with
  | equals | notEquals | less | lessEquals | greater | greaterEquals => exact ⟨_, rfl⟩
  | _ => cases h

/-! ### Operations -/

/-- Trees that correspond. -/
abbrev Correspondence.node (k : Correspondence) : Node → Node :=
  Node.mapPosition k.move

abbrev Correspondence.nodes (k : Correspondence) : List Node → List Node :=
  Node.mapPositions k.move

section

variable {fuel m b : Nat}

/-- Behind an operator of the class two operands are always combined, and moved ones to the moved tree. -/
def Correspondence.Combines (k : Correspondence) (isOp : Kind → Bool) (combine : Token → Node → Node → Parser Node) :
    Prop :=
  ∀ t left right, isOp t.kind = true →
    ∃ n, combine t left right = pure n ∧
      combine (t.mapPosition k.move) (k.node left) (k.node right) = pure (k.node n)

section

variable {isOp : Kind → Bool} {combine : Token → Node → Node → Parser Node} {operand operand' : Parser Node}

theorem agree_chainFrom (hop : isOp .endOfFile = false ∧ isOp .endOfLine = false) (hcombine : k.Combines isOp combine)
    (hoperand : Agree k k.node 1 bound operand operand') (hbound : b ≤ bound) (hfuel : b ≤ fuel) {left left' : Node}
    (hleft : left' = k.node left) :
    Agree k k.node 0 b (chainFrom isOp combine operand fuel left)
      (chainFrom isOp combine operand' (m + fuel) left') := by
  induction fuel generalizing b left left' with
  | zero =>
      obtain rfl := Nat.le_zero.1 hfuel
      exact fun _ _ _ => .exhausted
  | succ fuel ih =>
      subst hleft
      intro v v' halike
      refine .kind halike (.ite Iff.rfl (fun hkind => ?_) fun _ => .done halike) fun _ _ => ?_
      · have hne : v.first.kind ≠ .endOfFile := by
          intro heq
          rw [heq, hop.1] at hkind
          cases hkind
        refine .advance halike hne fun w w' hw _ => ?_
        refine (hoperand hw).bind (n := 0) (d := b - 1) (fun right u u' hu => ?_) (by omega) (by omega) (by omega)
        obtain ⟨n, hleft, hright⟩ := hcombine v.first left right hkind
        rw [hleft, hright, pure_bind, pure_bind]
        exact ih (b := b - 1) (by omega) (by omega) rfl hu
      · rw [hop.1, hop.2]
        exact .done halike

theorem agree_chain (hop : isOp .endOfFile = false ∧ isOp .endOfLine = false) (hcombine : k.Combines isOp combine)
    (hoperand : Agree k k.node 1 bound operand operand') (hfuel : bound ≤ fuel) :
    Agree k k.node 1 bound (chain isOp combine operand fuel) (chain isOp combine operand' (m + fuel)) := by
  intro v v' halike
  exact (hoperand halike).bind (fun _ => agree_chainFrom hop hcombine hoperand (Nat.le_refl bound) hfuel rfl)
    (by omega) (by omega) (by omega)

end

/-- The operators of a class are binary. -/
theorem combines_binary {isOp : Kind → Bool} (hop : ∀ {kind}, isOp kind = true → ∃ op, binaryOp kind = pure op) :
    k.Combines isOp binary := by
  intro t left right ht
  obtain ⟨op, hbinary⟩ := hop ht
  refine ⟨.binary t.position op left right, ?_, ?_⟩
  · simp only [binary, hbinary, pure_bind]
  · simp only [binary, Token.mapPosition, hbinary, pure_bind]
    rfl

theorem combines_logical (isOp : Kind → Bool) (op : LogicalOp) : k.Combines isOp (logical op) :=
  fun t left right _ => ⟨.logical t.position op left right, rfl, rfl⟩

section

variable {operand operand' : Parser Node} (hoperand : Agree k k.node 1 bound operand operand')
include hoperand

theorem agree_unary (hbound : b ≤ bound) (hfuel : b ≤ fuel) :
    Agree k k.node 1 b (unary operand fuel) (unary operand' (m + fuel)) := by
  induction fuel generalizing b with
  | zero =>
      obtain rfl := Nat.le_zero.1 hfuel
      exact fun _ _ _ => .exhausted
  | succ fuel ih =>
      intro v v' halike
      have hrest := (hoperand halike).mono (Nat.le_refl 1) hbound
      refine .kind halike (.ite Iff.rfl (fun hkind => ?_) fun _ => hrest) fun _ _ => hrest
      have hne : v.first.kind ≠ .endOfFile := by
        intro heq
        rw [heq] at hkind
        cases hkind
      refine .advance halike hne fun w w' hw _ => ?_
      obtain ⟨op, hop⟩ := exists_unaryOp hkind
      simp only [Token.mapPosition, hop, pure_bind]
      exact (ih (b := b - 1) (by omega) (by omega) hw).map (fun _ => rfl) (by omega) (Nat.le_refl _)

theorem agree_range : Agree k k.node 1 bound (range operand) (range operand') := by
  intro v v' halike
  refine (hoperand halike).bind (n := 0) (d := bound) (fun first v v' halike => ?_) (by omega) (by omega) (by omega)
  refine .kind halike (.ite Iff.rfl (fun hto => ?_) fun _ => .done halike) fun _ _ => .done halike
  refine .advance halike (by rw [hto]; decide) fun v v' halike _ => ?_
  refine (hoperand halike).bind (n := 0) (d := bound) (fun last v v' halike => ?_) (by omega) (by omega) (by omega)
  refine .kind halike (.ite Iff.rfl (fun hstep => ?_) fun _ => .done halike) fun _ _ => .done halike
  refine .advance halike (by rw [hstep]; decide) fun v v' halike _ => ?_
  exact (hoperand halike).map (fun _ => rfl) (by omega) (by omega)

end

/-! ### Lists, members, calls and indices -/

section

variable {expression expression' : Parser Node} (he : Agree k k.node 1 bound expression expression')
include he

theorem agree_itemsFrom {close : Kind} (hclose : close ≠ .endOfFile) (hbound : b ≤ bound) (hfuel : b ≤ fuel) :
    Agree k k.nodes 1 b (itemsFrom expression close fuel) (itemsFrom expression' close (m + fuel)) := by
  induction fuel generalizing b with
  | zero =>
      obtain rfl := Nat.le_zero.1 hfuel
      exact fun _ _ _ => .exhausted
  | succ fuel ih =>
      intro v v' halike
      refine (he halike).bind (n := 0) (d := b) (fun item v v' halike => ?_) (by omega) (by omega) (by omega)
      refine .kind halike (.ite Iff.rfl (fun hcomma => ?_) fun _ => .ite Iff.rfl (fun hkind => ?_) fun _ =>
        .unexpected halike _) fun hgoes _ => .refuse hgoes ?_
      · refine .advance halike (by rw [hcomma]; decide) fun v v' halike _ => ?_
        exact (ih (b := b - 1) (by omega) (by omega) halike).map (fun _ => rfl) (by omega) (Nat.le_refl _)
      · exact .advance halike (hkind ▸ hclose) fun _ _ halike _ => .done halike
      · rw [if_neg (by decide), if_neg hclose.symm]
        exact fun _ _ _ => unexpected_ne_ok

theorem agree_items {close : Kind} (hclose : close ≠ .endOfFile ∧ close ≠ .endOfLine) (hbound : b ≤ bound)
    (hfuel : b ≤ fuel) :
    Agree k k.nodes 1 b (items expression close fuel) (items expression' close (m + fuel)) := by
  intro v v' halike
  have hrest : Conforms k k.nodes v v' 1 b (itemsFrom expression close fuel)
      (itemsFrom expression' close (m + fuel)) := agree_itemsFrom he hclose.1 hbound hfuel halike
  refine .kind halike (.ite Iff.rfl (fun hkind => ?_) fun _ => hrest) fun _ _ => ?_
  · exact .advance halike (hkind ▸ hclose.1) fun _ _ halike _ => .done halike
  · rw [if_neg hclose.1.symm, if_neg hclose.2.symm]
    exact hrest

theorem agree_postfixFrom (hbound : b ≤ bound + 1) (hfuel : b ≤ fuel) {left left' : Node}
    (hleft : left' = k.node left) :
    Agree k k.node 0 b (postfixFrom expression fuel left) (postfixFrom expression' (m + fuel) left') := by
  induction fuel generalizing b left left' with
  | zero =>
      obtain rfl := Nat.le_zero.1 hfuel
      exact fun _ _ _ => .exhausted
  | succ fuel ih =>
      subst hleft
      intro v v' halike
      refine .kind halike ?_ fun _ _ => .done halike
      have hne : v.first.kind = .dot ∨ v.first.kind = .parenLeft ∨ v.first.kind = .bracketLeft →
          v.first.kind ≠ .endOfFile := by
        rintro (h | h | h) <;> rw [h] <;> decide
      cases hkind : v.first.kind with
      | dot =>
          refine .advance halike (hne (.inl hkind)) fun v v' halike _ => ?_
          refine .consume halike (by decide) fun v v' halike _ _ => ?_
          exact ih (b := b - 1 - 1) (by omega) (by omega) rfl halike
      | parenLeft =>
          refine .advance halike (hne (.inr (.inl hkind))) fun v v' halike _ => ?_
          exact (agree_items (b := b - 1) he (by decide) (by omega) (by omega) halike).bind
            (fun _ => ih (b := b - 1) (by omega) (by omega) rfl) (by omega) (by omega) (by omega)
      | bracketLeft =>
          refine .advance halike (hne (.inr (.inr hkind))) fun v v' halike _ => ?_
          refine (he halike).bind (n := 0) (d := b - 1) (fun index v v' halike => ?_) (by omega) (by omega) (by omega)
          refine .consume halike (by decide) fun v v' halike _ _ => ?_
          exact ih (b := b - 1 - 1) (by omega) (by omega) rfl halike
      | _ => exact .done halike

/-! ### Statements -/

omit he in
theorem ne_endOfFile_of_isAssignment {kind : Kind} (h : kind.isAssignment = true) : kind ≠ .endOfFile := by
  rintro rfl
  cases h

omit he in
/-- Every assignment stores something, and a moved one the moved tree. -/
theorem conforms_assigned (halike : k.Alike v v') (op : Token) (current value : Node) {make make' : Node → Node}
    (hmake : ∀ n, make' (k.node n) = k.node (make n)) :
    Conforms k k.node v v' 0 b (do return make (← assigned op current value))
      (do return make' (← assigned (op.mapPosition k.move) (k.node current) (k.node value))) := by
  have hstored : ∃ n, assigned op current value = pure n ∧
      assigned (op.mapPosition k.move) (k.node current) (k.node value) = pure (k.node n) := by
    simp only [assigned, Token.mapPosition]
    cases op.kind <;> exact ⟨_, rfl, rfl⟩
  obtain ⟨n, hn, hn'⟩ := hstored
  rw [hn, hn', pure_bind, pure_bind]
  exact .done_of_eq halike (hmake n)

theorem conforms_variableAssignment (halike : k.Alike v v') (hop : v.second.kind.isAssignment = true)
    (hbound : b ≤ bound) :
    Conforms k k.node v v' 1 b (variableAssignment expression) (variableAssignment expression') := by
  refine .consume halike (by decide) fun w w' hw hfirst _ => ?_
  refine .advance hw (by rw [hfirst]; exact ne_endOfFile_of_isAssignment hop) fun u u' hu _ => ?_
  refine (he hu).bind (n := 0) (d := b) (fun value u u' hu => ?_) (by omega) (by omega) (by omega)
  exact conforms_assigned hu w.first (.var v.first.position v.first.text) value fun _ => rfl

theorem conforms_targetAssignment (halike : k.Alike v v') (hop : v.first.kind.isAssignment = true) (hbound : b ≤ bound)
    (target : Node) :
    Conforms k k.node v v' 0 b (targetAssignment expression target) (targetAssignment expression' (k.node target)) := by
  refine .advance halike (ne_endOfFile_of_isAssignment hop) fun w w' hw _ => ?_
  refine (he hw).bind (n := 0) (d := b) (fun value u u' hu => ?_) (by omega) (by omega) (by omega)
  cases target with
  | var | item | member => exact conforms_assigned hu v.first _ value fun _ => rfl
  | _ => exact .reject halike.handed trivial

theorem agree_sentence (hbound : b ≤ bound) : Agree k k.node 1 b (sentence expression) (sentence expression') := by
  intro v v' halike
  have htarget : Conforms k k.node v v' 1 b
      (do
        let target ← expression
        if (← peekKind 0).isAssignment then targetAssignment expression target else return target)
      (do
        let target ← expression'
        if (← peekKind 0).isAssignment then targetAssignment expression' target else return target) := by
    refine (he halike).bind (n := 0) (d := b) (fun target w w' hw => ?_) (by omega) (by omega) (by omega)
    exact .kind hw (.ite Iff.rfl (fun hop => conforms_targetAssignment he hw hop hbound target) fun _ => .done hw)
      fun _ _ => .done hw
  refine .kind halike (.secondKind (.ite (halike.named_iff (·.isAssignment = true) nofun nofun) (fun hname => ?_)
    fun _ => htarget)) fun _ _ => .secondKind ?_
  · exact conforms_variableAssignment he halike hname.2 hbound
  · rw [if_neg nofun, if_neg nofun]
    exact htarget

omit he in
/-- Lines are not closed by the end of the file, if it is none of the words that close them. -/
theorem lines_ne_ok {close : Kind} {others : List Kind} (hclose : close ≠ .endOfFile ∧ .endOfFile ∉ others) {c : Cursor}
    (hshows : c.Shows v) (hend : v.first.kind = .endOfFile) (result : List Node × Cursor) :
    lines expression close others fuel c ≠ .ok result := by
  cases fuel with
  | zero => nofun
  | succ fuel =>
      intro hrun
      change (peekKind 0 >>= _) c = _ at hrun
      rw [bind_of_ok hshows.peekKind_zero, hend, if_neg (by decide), if_neg (not_or.2 ⟨hclose.1.symm, hclose.2⟩),
        if_pos rfl] at hrun
      exact unexpected_ne_ok hrun

theorem agree_lines {close : Kind} {others : List Kind}
    (hclose : k.goesOn → close ≠ .endOfFile ∧ .endOfFile ∉ others) (hbound : b ≤ bound) (hfuel : b ≤ fuel) :
    Agree k k.nodes 0 b (lines expression close others fuel) (lines expression' close others (m + fuel)) := by
  induction fuel generalizing b with
  | zero =>
      obtain rfl := Nat.le_zero.1 hfuel
      exact fun _ _ _ => .exhausted
  | succ fuel ih =>
      intro v v' halike
      refine .kind halike (.ite Iff.rfl (fun hline => ?_) fun _ => .ite Iff.rfl (fun _ => .done halike) fun _ =>
        .ite Iff.rfl (fun _ => .unexpected halike _) fun _ => ?_) fun hgoes hend => .refuse hgoes ?_
      · refine .advance halike (by rw [hline]; decide) fun w w' hw _ => ?_
        exact ih (b := b - 1) (by omega) (by omega) hw
      · -- A statement and the lines behind it: at the end of the file its own line needs no end.
        simp only [statement, bind_assoc]
        refine (agree_sentence he hbound halike).bind (n := 0) (d := b - 1) (fun node w w' hw => ?_) (by omega)
          (by omega) (by omega)
        have hrest : ∀ {u u'}, k.Alike u u' → Conforms k k.nodes u u' 0 (b - 1)
            (do return node :: (← lines expression close others fuel))
            (do return k.node node :: (← lines expression' close others (m + fuel))) := fun hu =>
          (ih (b := b - 1) (by omega) (by omega) hu).map (fun _ => rfl) (Nat.le_refl 0) (Nat.le_refl _)
        refine .kind hw ?_ fun hgoes hend => .refuse hgoes ?_
        · by_cases hline : w.first.kind = .endOfLine
          · simp only [if_pos hline, bind_assoc, pure_bind]
            exact .advance hw (by rw [hline]; decide) fun u u' hu _ => (hrest hu).mono (Nat.le_refl 0) (by omega)
          · simp only [if_neg hline]
            by_cases hend : w.first.kind = .endOfFile
            · simp only [if_pos hend, pure_bind]
              exact hrest hw
            · simp only [if_neg hend, unexpected_bind]
              exact .unexpected hw _
        · intro c hshows result hrun
          rw [if_neg (by decide), if_pos rfl, pure_bind] at hrun
          obtain ⟨rest, c₁, hrun, -⟩ := bind_eq_ok.1 hrun
          exact lines_ne_ok (hclose hgoes) hshows hend _ hrun
      · intro c hshows result hrun
        rw [if_neg (by decide), if_neg (not_or.2 ⟨(hclose hgoes).1.symm, (hclose hgoes).2⟩), if_pos rfl] at hrun
        exact unexpected_ne_ok hrun

/-! ### Blocks -/

theorem agree_body {others : List Kind} (hothers : .endOfFile ∉ others) (hbound : b ≤ bound) (hfuel : b ≤ fuel) :
    Agree k k.nodes 1 b (body expression .endWord others fuel) (body expression' .endWord others (m + fuel)) := by
  intro v v' halike
  refine .consume halike (by decide) fun w w' hw _ _ => ?_
  exact agree_lines (b := b - 1) he (fun _ => ⟨by decide, hothers⟩) (by omega) (by omega) hw

/-- Lines up to the word that ends them, and that word. -/
theorem agree_body_end (hbound : b ≤ bound) (hfuel : b ≤ fuel) {make make' : List Node → Node}
    (hmake : ∀ body, make' (k.nodes body) = k.node (make body)) :
    Agree k k.node 1 b
      (do
        let statements ← body expression .endWord [] fuel
        let _ ← consume .endWord
        return make statements)
      (do
        let statements ← body expression' .endWord [] (m + fuel)
        let _ ← consume .endWord
        return make' statements) := by
  intro v v' halike
  refine (agree_body he List.not_mem_nil hbound hfuel halike).bind (n := 0) (d := b) (fun statements w w' hw => ?_)
    (by omega) (by omega) (by omega)
  exact .consume hw (by decide) fun u u' hu _ _ => .done_of_eq hu (hmake statements)

theorem agree_beginBlock (hbound : b ≤ bound + 1) (hfuel : b ≤ fuel) :
    Agree k k.node 1 b (beginBlock expression fuel) (beginBlock expression' (m + fuel)) := by
  intro v v' halike
  refine .consume halike (by decide) fun w w' hw _ _ => ?_
  exact (agree_body_end (b := b - 1) he (by omega) (by omega) (fun _ => rfl) hw).mono (by omega) (Nat.le_refl _)

theorem conforms_branch (hbound : b ≤ bound + 1) (hfuel : b ≤ fuel) (halike : k.Alike v v')
    (hkind : v.first.kind ≠ .endOfFile) :
    Conforms k k.node v v' 1 b (branch expression fuel) (branch expression' (m + fuel)) := by
  induction fuel generalizing b v v' with
  | zero =>
      obtain rfl := Nat.le_zero.1 hfuel
      exact .exhausted
  | succ fuel ih =>
      refine .advance halike hkind fun u u' hu _ => ?_
      refine (he hu).bind (n := 0) (d := b - 1) (fun test u u' hu => ?_) (by omega) (by omega) (by omega)
      refine (agree_body he (by decide) (b := b - 1) (by omega) (by omega) hu).bind (n := 0) (d := b - 1)
        (fun statements u u' hu => ?_) (by omega) (by omega) (by omega)
      refine .kind hu ?_ fun _ _ => .done hu
      have hne : u.first.kind = .elifWord ∨ u.first.kind = .elseWord → u.first.kind ≠ .endOfFile := by
        rintro (h | h) <;> rw [h] <;> decide
      cases hword : u.first.kind with
      | elifWord =>
          exact (ih (b := b - 1) (by omega) (by omega) hu (hne (.inl hword))).map (fun _ => rfl) (by omega)
            (Nat.le_refl _)
      | elseWord =>
          refine .advance hu (hne (.inr hword)) fun w w' hw _ => ?_
          exact (agree_body he List.not_mem_nil (b := b - 1 - 1) (by omega) (by omega) hw).map (fun _ => rfl) (by omega)
            (Nat.le_refl _)
      | _ => exact .done hu

theorem agree_loop (hbound : b ≤ bound + 1) (hfuel : b ≤ fuel) :
    Agree k k.node 1 b (loop expression fuel) (loop expression' (m + fuel)) := by
  intro v v' halike
  refine .consume halike (by decide) fun w w' hw _ _ => ?_
  have htest : Conforms k k.node w w' 0 (b - 1)
      (do
        let test ← expression
        let statements ← body expression .endWord [] fuel
        let _ ← consume .endWord
        return .loop v.first.position test statements)
      (do
        let test ← expression'
        let statements ← body expression' .endWord [] (m + fuel)
        let _ ← consume .endWord
        return .loop (k.move v.first.position) test statements) :=
    (he hw).bind (fun _ => agree_body_end (b := b - 1) he (by omega) (by omega) fun _ => rfl) (by omega) (by omega)
      (by omega)
  refine .kind hw (.secondKind (.ite (hw.named_iff (fun kind => kind = .assign ∨ kind = .inWord) (by decide)
    (by decide)) (fun hname => ?_) fun _ => htest)) fun _ _ => .secondKind ?_
  · refine .advance hw (by rw [hname.1]; decide) fun u u' hu hfirst => ?_
    have hlink : u.first.kind ≠ .endOfFile := by
      rw [hfirst]
      rcases hname.2 with h | h <;> rw [h] <;> decide
    refine .advance hu hlink fun u u' hu _ => ?_
    exact (he hu).bind (fun _ => agree_body_end (b := b - 1) he (by omega) (by omega) fun _ => rfl) (by omega)
      (by omega) (by omega)
  · rw [if_neg nofun, if_neg nofun]
    exact htest

omit he in
theorem agree_paramsFrom (hfuel : b ≤ fuel) (earlier : List String) :
    Agree k id 1 b (paramsFrom earlier fuel) (paramsFrom earlier (m + fuel)) := by
  induction fuel generalizing b earlier with
  | zero =>
      obtain rfl := Nat.le_zero.1 hfuel
      exact fun _ _ _ => .exhausted
  | succ fuel ih =>
      intro v v' halike
      refine .consume halike (by decide) fun w w' hw _ ⟨hhanded, hname⟩ => ?_
      refine .ite Iff.rfl (fun _ => .reject hhanded ⟨hname, rfl⟩) fun _ => ?_
      refine .kind hw (.ite Iff.rfl (fun hcomma => ?_) fun _ => .done hw) fun _ _ => .done hw
      refine .advance hw (by rw [hcomma]; decide) fun u u' hu _ => ?_
      exact (ih (b := b - 1) (by omega) _ hu).map (fun _ => rfl) (by omega) (by omega)

omit he in
theorem agree_paramNames (hfuel : b ≤ fuel) : Agree k id 0 b (paramNames fuel) (paramNames (m + fuel)) := by
  intro v v' halike
  have hnames : Conforms k id v v' 0 b (paramsFrom [] fuel) (paramsFrom [] (m + fuel)) :=
    (agree_paramsFrom hfuel [] halike).mono (by omega) (Nat.le_refl b)
  exact .kind halike (.ite Iff.rfl (fun _ => .done halike) fun _ => hnames) fun _ _ => hnames

omit he in
theorem agree_params (hfuel : b ≤ fuel) : Agree k id 1 b (params fuel) (params (m + fuel)) := by
  intro v v' halike
  refine .consume halike (by decide) fun w w' hw _ _ => ?_
  refine (agree_paramNames hfuel hw).bind (n := 0) (d := b) (fun names u u' hu => ?_) (by omega) (by omega) (by omega)
  exact .consume hu (by decide) fun _ _ halike _ _ => .done halike

omit he in
theorem agree_functionName : Agree k id 0 b functionName functionName := by
  intro v v' halike
  refine .kind halike (.ite Iff.rfl (fun hname => ?_) fun _ => .done halike) fun _ _ => .done halike
  exact .advance halike (by rw [hname]; decide) fun _ _ halike _ => .done halike

theorem agree_function (hbound : b ≤ bound + 1) (hfuel : b ≤ fuel) :
    Agree k k.node 1 b (function expression fuel) (function expression' (m + fuel)) := by
  intro v v' halike
  refine .consume halike (by decide) fun w w' hw _ _ => ?_
  refine (agree_functionName hw).bind (b := b) (n := 0) (d := b) (fun name u u' hu => ?_) (by omega) (by omega)
    (by omega)
  exact (agree_params hfuel hu).bind (fun names => agree_body_end (b := b - 1) he (by omega) (by omega) fun _ => rfl)
    (by omega) (by omega) (by omega)

/-! ### Expressions -/

omit he in
theorem conforms_literal (halike : k.Alike v v') (hliteral : v.first.kind.isLiteral = true) :
    Conforms k k.node v v' 1 b literal literal := by
  have hne : v.first.kind ≠ .endOfFile := by
    intro heq
    rw [heq] at hliteral
    cases hliteral
  refine .advance halike hne fun w w' hw _ => ?_
  simp only [Token.mapPosition]
  cases hkind : v.first.kind with
  | numberLiteral =>
      cases Decimal.ofChars? v.first.text.toList with
      | none => exact .reject halike.handed ⟨hkind, rfl⟩
      | some n => exact .done hw
  | noneLiteral | trueLiteral | falseLiteral | stringLiteral => exact .done hw
  | _ =>
      rw [hkind] at hliteral
      cases hliteral

theorem agree_primary (hbound : b ≤ bound + 1) (hfuel : b ≤ fuel) :
    Agree k k.node 1 b (primary expression fuel) (primary expression' (m + fuel)) := by
  intro v v' halike
  refine .kind halike (.ite Iff.rfl (fun hliteral => conforms_literal halike hliteral) fun _ => ?_) fun hgoes _ =>
    .refuse hgoes fun _ _ _ => unexpected_ne_ok
  have hne : ∀ {kind}, v.first.kind = kind → kind ≠ .endOfFile → v.first.kind ≠ .endOfFile := fun h hkind => h ▸ hkind
  cases hkind : v.first.kind with
  | identifier => exact .advance halike (hne hkind (by decide)) fun _ _ halike _ => .done halike
  | bracketLeft =>
      refine .advance halike (hne hkind (by decide)) fun w w' hw _ => ?_
      exact (agree_items (b := b - 1) he (by decide) (by omega) (by omega) hw).map (fun _ => rfl) (by omega) (by omega)
  | parenLeft =>
      refine .advance halike (hne hkind (by decide)) fun w w' hw _ => ?_
      refine (he hw).bind (n := 0) (d := b) (fun inner u u' hu => ?_) (by omega) (by omega) (by omega)
      exact .consume hu (by decide) fun _ _ halike _ _ => .done halike
  | beginWord => exact agree_beginBlock he hbound hfuel halike
  | ifWord =>
      refine (conforms_branch he hbound hfuel halike (hne hkind (by decide))).bind (n := 0) (d := b)
        (fun node u u' hu => ?_) (by omega) (by omega) (by omega)
      exact .consume hu (by decide) fun _ _ halike _ _ => .done halike
  | forWord => exact agree_loop he hbound hfuel halike
  | funcWord => exact agree_function he hbound hfuel halike
  | _ => exact .unexpected halike _

theorem agree_postfixed (hbound : b ≤ bound + 1) (hfuel : b ≤ fuel) :
    Agree k k.node 1 b (postfixed expression fuel) (postfixed expression' (m + fuel)) := by
  intro v v' halike
  exact (agree_primary he hbound hfuel halike).bind (fun _ => agree_postfixFrom he hbound hfuel rfl) (by omega)
    (by omega) (by omega)

theorem agree_signs (hbound : b ≤ bound + 1) (hfuel : b ≤ fuel) :
    Agree k k.node 1 b (unary (postfixed expression fuel) fuel)
      (unary (postfixed expression' (m + fuel)) (m + fuel)) :=
  agree_unary (agree_postfixed he hbound hfuel) (Nat.le_refl b) hfuel

theorem agree_factor (hbound : b ≤ bound + 1) (hfuel : b ≤ fuel) :
    Agree k k.node 1 b (factor expression fuel) (factor expression' (m + fuel)) :=
  agree_chain ⟨rfl, rfl⟩ (combines_binary exists_binaryOp_of_factor) (agree_signs he hbound hfuel) hfuel

theorem agree_term (hbound : b ≤ bound + 1) (hfuel : b ≤ fuel) :
    Agree k k.node 1 b (term expression fuel) (term expression' (m + fuel)) :=
  agree_chain ⟨rfl, rfl⟩ (combines_binary exists_binaryOp_of_term) (agree_factor he hbound hfuel) hfuel

theorem agree_comparison (hbound : b ≤ bound + 1) (hfuel : b ≤ fuel) :
    Agree k k.node 1 b (comparison expression fuel) (comparison expression' (m + fuel)) :=
  agree_chain ⟨rfl, rfl⟩ (combines_binary exists_binaryOp_of_comparison) (agree_range (agree_term he hbound hfuel))
    hfuel

theorem agree_conjunction (hbound : b ≤ bound + 1) (hfuel : b ≤ fuel) :
    Agree k k.node 1 b (conjunction expression fuel) (conjunction expression' (m + fuel)) :=
  agree_chain ⟨rfl, rfl⟩ (combines_logical _ .and) (agree_comparison he hbound hfuel) hfuel

theorem agree_disjunction (hbound : b ≤ bound + 1) (hfuel : b ≤ fuel) :
    Agree k k.node 1 b (disjunction expression fuel) (disjunction expression' (m + fuel)) :=
  agree_chain ⟨rfl, rfl⟩ (combines_logical _ .or) (agree_conjunction he hbound hfuel) hfuel

end

/-- **The grammar goes the same way with more fuel and on corresponding tokens.** The fuel of an expression lasts for
nearly as many tokens. -/
theorem agree_expression : Agree k k.node 1 (fuel - 1) (expression fuel) (expression (m + fuel)) := by
  induction fuel with
  | zero => exact fun _ _ _ => .exhausted
  | succ fuel ih => exact agree_disjunction ih (by omega) (by omega)

end

end Parser

end LineScript
