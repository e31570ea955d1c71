import LineScript.Proofs.Program.Concatenation
import LineScript.Proofs.Program.Exactness
import LineScript.Proofs.Program.Totality
import LineScript.Proofs.Token.Layout
/-!
# Layout

A phrase of the grammar is read the same from the same tokens in another layout: its tree differs in nothing but the
positions, and so do the tokens that are left. Ends of lines matter only where a line ends, and there the lines of a
program or of a body take up any number of them; all other rules start and go on within a line.
-/

namespace LineScript

open Token (Kind)

/-! ### Trees without positions -/

/-- A position that no token has. -/
def Position.nowhere : Position :=
  ⟨"", 0, 0⟩

namespace Node

/-- The tree without its positions. -/
def unplaced (n : Node) : Node :=
  n.mapPosition fun _ => .nowhere

/-- The same tree, whose nodes may stand elsewhere. -/
def Alike (n n' : Node) : Prop :=
  n.unplaced = n'.unplaced

theorem mapPositions_eq_of_alike {ns ns' : List Node} (h : List.Forall₂ Alike ns ns') :
    mapPositions (fun _ => .nowhere) ns = mapPositions (fun _ => .nowhere) ns' := by
  induction h with
  | nil => rfl
  | cons hn _ ih => exact congrArg₂ List.cons hn ih

theorem mapPosition?_eq_of_alike {n n' : Option Node} (h : Option.Rel Alike n n') :
    mapPosition? (fun _ => .nowhere) n = mapPosition? (fun _ => .nowhere) n' := by
  cases h with
  | some h => exact congrArg some h
  | none => rfl

section

variable {p p' : Position} {first first' second second' third third' n : Node} {ns ns' : List Node}

/-! Nodes of one kind are alike if what they are made of is. -/

theorem alike_assign {x : String} (hvalue : first.Alike first') : (assign p x first).Alike (assign p' x first') :=
  congrArg (assign .nowhere x) hvalue

theorem alike_binary {op : BinaryOp} (hleft : first.Alike first') (hright : second.Alike second') :
    (binary p op first second).Alike (binary p' op first' second') :=
  congrArg₂ (binary .nowhere op) hleft hright

theorem alike_unary {op : UnaryOp} (hoperand : first.Alike first') : (unary p op first).Alike (unary p' op first') :=
  congrArg (unary .nowhere op) hoperand

theorem alike_logical {op : LogicalOp} (hleft : first.Alike first') (hright : second.Alike second') :
    (logical p op first second).Alike (logical p' op first' second') :=
  congrArg₂ (logical .nowhere op) hleft hright

theorem alike_member {x : String} (hreceiver : first.Alike first') : (member p first x).Alike (member p' first' x) :=
  congrArg (member .nowhere · x) hreceiver

theorem alike_assignMember {x : String} (hreceiver : first.Alike first') (hvalue : second.Alike second') :
    (assignMember p first x second).Alike (assignMember p' first' x second') :=
  congrArg₂ (assignMember .nowhere · x ·) hreceiver hvalue

theorem alike_call (hfunction : first.Alike first') (hargs : List.Forall₂ Alike ns ns') :
    (call p first ns).Alike (call p' first' ns') :=
  congrArg₂ (call .nowhere) hfunction (mapPositions_eq_of_alike hargs)

theorem alike_list (hitems : List.Forall₂ Alike ns ns') : (list p ns).Alike (list p' ns') :=
  congrArg (list .nowhere) (mapPositions_eq_of_alike hitems)

theorem alike_range {step step' : Option Node} (hfirst : first.Alike first') (hlast : second.Alike second')
    (hstep : Option.Rel Alike step step') : (range p first second step).Alike (range p' first' second' step') := by
  have hstep' := mapPosition?_eq_of_alike hstep
  simp only [Alike, unplaced, mapPosition] at hfirst hlast ⊢
  rw [hfirst, hlast, hstep']

theorem alike_item (harray : first.Alike first') (hindex : second.Alike second') :
    (item p first second).Alike (item p' first' second') :=
  congrArg₂ (item .nowhere) harray hindex

theorem alike_assignItem (harray : first.Alike first') (hindex : second.Alike second') (hvalue : third.Alike third') :
    (assignItem p first second third).Alike (assignItem p' first' second' third') := by
  simp only [Alike, unplaced, mapPosition] at harray hindex hvalue ⊢
  rw [harray, hindex, hvalue]

theorem alike_branch {other other' : Option Node} (htest : first.Alike first') (hbody : List.Forall₂ Alike ns ns')
    (hother : Option.Rel Alike other other') : (branch p first ns other).Alike (branch p' first' ns' other') := by
  have hbody' := mapPositions_eq_of_alike hbody
  have hother' := mapPosition?_eq_of_alike hother
  simp only [Alike, unplaced, mapPosition] at htest ⊢
  rw [htest, hbody', hother']

theorem alike_loop (htest : first.Alike first') (hbody : List.Forall₂ Alike ns ns') :
    (loop p first ns).Alike (loop p' first' ns') :=
  congrArg₂ (loop .nowhere) htest (mapPositions_eq_of_alike hbody)

theorem alike_forEach {x : String} (hlist : first.Alike first') (hbody : List.Forall₂ Alike ns ns') :
    (forEach p x first ns).Alike (forEach p' x first' ns') :=
  congrArg₂ (forEach .nowhere x) hlist (mapPositions_eq_of_alike hbody)

theorem alike_block (hbody : List.Forall₂ Alike ns ns') : (block p ns).Alike (block p' ns') :=
  congrArg (block .nowhere) (mapPositions_eq_of_alike hbody)

theorem alike_function {name : Option String} {params : List String} (hbody : List.Forall₂ Alike ns ns') :
    (function p name params ns).Alike (function p' name params ns') :=
  congrArg (function .nowhere name params) (mapPositions_eq_of_alike hbody)

/-! What is like a target of an assignment is one itself. -/

theorem Alike.exists_var {x : String} (h : (Node.var p x).Alike n) : ∃ p', n = .var p' x := by
  cases n <;> simp only [Alike, unplaced, mapPosition] at h <;> cases h
  exact ⟨_, rfl⟩

theorem Alike.exists_item (h : (Node.item p first second).Alike n) :
    ∃ p' first' second', n = .item p' first' second' ∧ first.Alike first' ∧ second.Alike second' := by
  cases n <;> simp only [Alike, unplaced, mapPosition] at h <;> try cases h
  obtain ⟨-, harray, hindex⟩ := Node.item.inj h
  exact ⟨_, _, _, rfl, harray, hindex⟩

theorem Alike.exists_member {x : String} (h : (Node.member p first x).Alike n) :
    ∃ p' first', n = .member p' first' x ∧ first.Alike first' := by
  cases n <;> simp only [Alike, unplaced, mapPosition] at h <;> try cases h
  obtain ⟨-, hreceiver, rfl⟩ := Node.member.inj h
  exact ⟨_, _, rfl, hreceiver⟩

theorem alike_stored {operator : Option BinaryOp} (hcurrent : first.Alike first') (hvalue : second.Alike second') :
    (Grammar.stored operator p first second).Alike (Grammar.stored operator p' first' second') := by
  cases operator with
  | none => exact hvalue
  | some op => exact alike_binary hcurrent hvalue

end

end Node

/-! ### Phrases in another layout -/

namespace Grammar

/-- These tokens do not start with the end of a line. -/
def InLine (ts : List Token) : Prop :=
  ∀ t ∈ ts.head?, t.kind ≠ .endOfLine

/-- The nodes of an operation are alike if its operands are. -/
def Congruent {Op : Type} (combine : Position → Op → Node → Node → Node) : Prop :=
  ∀ p p' op ⦃left left' right right' : Node⦄, left.Alike left' → right.Alike right' →
    (combine p op left right).Alike (combine p' op left' right')

theorem congruent_binary : Congruent .binary :=
  fun _ _ _ _ _ _ _ => Node.alike_binary

theorem congruent_logical : Congruent .logical :=
  fun _ _ _ _ _ _ _ => Node.alike_logical

/-- In any other layout the phrase is read alike, whatever follows. -/
def Relays {α : Type} (alike : α → α → Prop) (L : Phrase α) : Phrase α := fun ts a rest =>
  ∀ ⦃us⦄, Relaid false ts us →
    ∃ b left, alike a b ∧ Relaid false rest left ∧ ∀ more, L (us ++ more) b (left ++ more)

/-- A phrase that starts within a line and is read alike in any other layout. -/
abbrev RelaysTree (L : Phrase Node) : Phrase Node := fun ts n rest =>
  InLine ts ∧ Relays Node.Alike L ts n rest

section

variable {L L' : Phrase Node} {ts rest : List Token} {n : Node}

theorem Operations.relays {Op : Type} {ops : List (Kind × Op)} {combine : Position → Op → Node → Node → Node}
    (hops : ∀ entry ∈ ops, entry.1 ≠ .endOfLine)
    (hcombine : Congruent combine)
    (hoperand : ∀ {ts n rest}, L ts n rest → RelaysTree L' ts n rest) {left left' : Node}
    (h : Operations ops combine L left ts n rest) (hleft : left.Alike left') :
    Relays Node.Alike (Operations ops combine L' left') ts n rest := by
  induction h generalizing left' with
  | done => exact fun us hus => ⟨left', us, hleft, hus, fun more => .done⟩
  | step hop hright hmore ih =>
      intro us hus
      obtain ⟨t', us, rfl, ht', hus⟩ := hus.uncons (hops _ hop)
      obtain ⟨right', mid', hright', hmid, hreads⟩ := (hoperand hright).2 hus
      obtain ⟨n', left', hn', hleft', hreads'⟩ := ih (hcombine _ t'.position _ hleft hright') hmid
      exact ⟨n', left', hn', hleft', fun more => .step (ht'.kind_eq ▸ hop) (hreads more) (hreads' more)⟩

theorem Chain.relays {Op : Type} {ops : List (Kind × Op)} {combine : Position → Op → Node → Node → Node}
    (hops : ∀ entry ∈ ops, entry.1 ≠ .endOfLine)
    (hcombine : Congruent combine)
    (hoperand : ∀ {ts n rest}, L ts n rest → RelaysTree L' ts n rest) (h : Chain ops combine L ts n rest) :
    RelaysTree (Chain ops combine L') ts n rest := by
  obtain ⟨hfirst, hmore⟩ := h
  obtain ⟨hline, hfirst⟩ := hoperand hfirst
  refine ⟨hline, fun us hus => ?_⟩
  obtain ⟨first', mid', hfirst', hmid, hreads⟩ := hfirst hus
  obtain ⟨n', left, hn', hleft, hreads'⟩ := hmore.relays hops hcombine hoperand hfirst' hmid
  exact ⟨n', left, hn', hleft, fun more => ⟨hreads more, hreads' more⟩⟩

section

variable {α : Type} {alike : α → α → Prop} {Item Item' : Phrase α}
  (hitem : ∀ {ts a rest}, Item ts a rest → Relays alike Item' ts a rest)
include hitem

theorem Separated.relays {as : List α} (h : Separated Item ts as rest) :
    Relays (List.Forall₂ alike) (Separated Item') ts as rest := by
  induction h with
  | one h =>
      intro us hus
      obtain ⟨a', left, ha', hleft, hreads⟩ := hitem h hus
      exact ⟨[a'], left, .cons ha' .nil, hleft, fun more => .one (hreads more)⟩
  | more h hcomma hmore ih =>
      intro us hus
      obtain ⟨a', mid', ha', hmid, hreads⟩ := hitem h hus
      obtain ⟨comma', mid', rfl, hcomma', hmid⟩ := hmid.uncons (by rw [hcomma]; decide)
      obtain ⟨as', left, has', hleft, hreads'⟩ := ih hmid
      exact ⟨a' :: as', left, .cons ha' has', hleft,
        fun more => .more (hreads more) (hcomma'.kind_eq.trans hcomma) (hreads' more)⟩

theorem Listed.relays {as : List α} (h : Listed Item ts as rest) :
    Relays (List.Forall₂ alike) (Listed Item') ts as rest := by
  cases h with
  | none => exact fun us hus => ⟨[], us, .nil, hus, fun more => .none⟩
  | some hitems =>
      intro us hus
      obtain ⟨as', left, has', hleft, hreads⟩ := hitems.relays hitem hus
      exact ⟨as', left, has', hleft, fun more => .some (hreads more)⟩

end

/-- Empty lines may stand before lines. -/
theorem Lines.of_ends {body : List Node} {ends : List Token} (hends : ∀ t ∈ ends, t.kind = .endOfLine)
    (h : Lines L ts body rest) : Lines L (ends ++ ts) body rest := by
  induction ends with
  | nil => exact h
  | cons t ends ih =>
      obtain ⟨ht, hends⟩ := List.forall_mem_cons.1 hends
      exact .blank ht (ih hends)

/-- Lines are read alike where a line has ended, up to tokens that do not start with the end of a line. -/
theorem Lines.relays (hL : ∀ {ts n rest}, L ts n rest → RelaysTree L' ts n rest) {body : List Node}
    (h : Lines L ts body rest) (hrest : InLine rest) {us : List Token} (hus : Relaid true ts us) :
    ∃ body' left, List.Forall₂ Node.Alike body body' ∧ Relaid false rest left ∧
      ∀ more, Lines L' (us ++ more) body' (left ++ more) := by
  induction h generalizing us with
  | none =>
      obtain ⟨ends, us, rfl, hends, hus⟩ := hus.exists_lines hrest
      refine ⟨[], us, .nil, hus, fun more => ?_⟩
      rw [List.append_assoc]
      exact .of_ends hends .none
  | blank ht hlines ih => exact ih hrest (hus.tail_of_line ht)
  | statement hstatement ht hlines ih =>
      obtain ⟨hline, hstatement⟩ := hL hstatement
      obtain ⟨ends, us, rfl, hends, hus⟩ := hus.exists_lines hline
      obtain ⟨n', mid', hn', hmid, hreads⟩ := hstatement hus
      obtain ⟨t', mid', rfl, ht', hmid⟩ := hmid.uncons_line ht
      obtain ⟨body', left, hbody', hleft, hreads'⟩ := ih hrest hmid
      refine ⟨n' :: body', left, .cons hn' hbody', hleft, fun more => ?_⟩
      rw [List.append_assoc]
      exact .of_ends hends (.statement (hreads more) ht' (hreads' more))
  | last hstatement ht =>
      obtain ⟨hline, hstatement⟩ := hL hstatement
      obtain ⟨ends, us, rfl, hends, hus⟩ := hus.exists_lines hline
      obtain ⟨n', left, hn', hleft, hreads⟩ := hstatement hus
      obtain ⟨t', left', rfl, ht', -⟩ := hleft.uncons (by rw [ht]; decide)
      refine ⟨[n'], _, .cons hn' .nil, hleft, fun more => ?_⟩
      rw [List.append_assoc]
      exact .of_ends hends (.last (hreads more) (ht'.kind_eq.trans ht))

theorem Body.relays (hL : ∀ {ts n rest}, L ts n rest → RelaysTree L' ts n rest) {body : List Node}
    (h : Body L ts body rest) (hrest : InLine rest) :
    Relays (List.Forall₂ Node.Alike) (Body L') ts body rest := by
  obtain ⟨ht, hlines⟩ := h
  intro us hus
  obtain ⟨t', us, rfl, ht', hus⟩ := hus.uncons_line ht
  obtain ⟨body', left, hbody', hleft, hreads⟩ := hlines.relays hL hrest hus
  exact ⟨body', left, hbody', hleft, fun more => ⟨ht', hreads more⟩⟩

theorem Name.relays {name : String} (h : Name ts name rest) : Relays (· = ·) Name ts name rest := by
  obtain ⟨ht⟩ := h
  intro us hus
  obtain ⟨t', us, rfl, ht', hus⟩ := hus.uncons (by rw [ht]; decide)
  exact ⟨t'.text, us, ht'.text_eq.symm, hus, fun more => ⟨ht'.kind_eq.trans ht⟩⟩

theorem FunctionName.relays {name : Option String} (h : FunctionName ts name rest) :
    Relays (· = ·) FunctionName ts name rest := by
  intro us hus
  cases h with
  | anonymous => exact ⟨none, us, rfl, hus, fun more => .anonymous⟩
  | named ht =>
      obtain ⟨t', us, rfl, ht', hus⟩ := hus.uncons (by rw [ht]; decide)
      exact ⟨some t'.text, us, by rw [ht'.text_eq], hus, fun more => .named (ht'.kind_eq.trans ht)⟩

theorem Statement.relays (h : Statement (RelaysTree L) ts n rest) : RelaysTree (Statement L) ts n rest := by
  have hops : ∀ entry ∈ assignmentOps, entry.1 ≠ .endOfLine := by decide
  cases h with
  | expression h =>
      refine ⟨h.1, fun us hus => ?_⟩
      obtain ⟨n', left, hn', hleft, hreads⟩ := h.2 hus
      exact ⟨n', left, hn', hleft, fun more => .expression (hreads more)⟩
  | name ht hop hvalue =>
      refine ⟨fun t ht' => by cases ht'; rw [ht]; decide, fun us hus => ?_⟩
      obtain ⟨t', us, rfl, ht', hus⟩ := hus.uncons (by rw [ht]; decide)
      obtain ⟨op', us, rfl, hop', hus⟩ := hus.uncons (hops _ hop)
      obtain ⟨value', left, hvalue', hleft, hreads⟩ := hvalue.2 hus
      refine ⟨_, left, ?_, hleft, fun more =>
        .name (ht'.kind_eq.trans ht) (hop'.kind_eq ▸ hop) (hreads more)⟩
      rw [ht'.text_eq]
      exact Node.alike_assign (Node.alike_stored rfl hvalue')
  | var htarget hop hvalue =>
      refine ⟨htarget.1, fun us hus => ?_⟩
      obtain ⟨target', mid', htarget', hmid, hreads⟩ := htarget.2 hus
      obtain ⟨op', mid', rfl, hop', hmid⟩ := hmid.uncons (hops _ hop)
      obtain ⟨value', left, hvalue', hleft, hreads'⟩ := hvalue.2 hmid
      obtain ⟨p', rfl⟩ := htarget'.exists_var
      exact ⟨_, left, Node.alike_assign (Node.alike_stored htarget' hvalue'), hleft,
        fun more => .var (hreads more) (hop'.kind_eq ▸ hop) (hreads' more)⟩
  | item htarget hop hvalue =>
      refine ⟨htarget.1, fun us hus => ?_⟩
      obtain ⟨target', mid', htarget', hmid, hreads⟩ := htarget.2 hus
      obtain ⟨op', mid', rfl, hop', hmid⟩ := hmid.uncons (hops _ hop)
      obtain ⟨value', left, hvalue', hleft, hreads'⟩ := hvalue.2 hmid
      obtain ⟨p', array', index', rfl, harray, hindex⟩ := htarget'.exists_item
      exact ⟨_, left, Node.alike_assignItem harray hindex (Node.alike_stored htarget' hvalue'), hleft,
        fun more => .item (hreads more) (hop'.kind_eq ▸ hop) (hreads' more)⟩
  | member htarget hop hvalue =>
      refine ⟨htarget.1, fun us hus => ?_⟩
      obtain ⟨target', mid', htarget', hmid, hreads⟩ := htarget.2 hus
      obtain ⟨op', mid', rfl, hop', hmid⟩ := hmid.uncons (hops _ hop)
      obtain ⟨value', left, hvalue', hleft, hreads'⟩ := hvalue.2 hmid
      obtain ⟨p', receiver', rfl, hreceiver⟩ := htarget'.exists_member
      exact ⟨_, left, Node.alike_assignMember hreceiver (Node.alike_stored htarget' hvalue'), hleft,
        fun more => .member (hreads more) (hop'.kind_eq ▸ hop) (hreads' more)⟩

theorem inLine_cons {t : Token} (ht : t.kind ≠ .endOfLine) : InLine (t :: ts) := by
  intro t' ht'
  cases ht'
  exact ht

theorem inLine_of_eq {t : Token} {kind : Kind} (ht : t.kind = kind) (hkind : kind ≠ .endOfLine) : InLine (t :: ts) :=
  inLine_cons (ht ▸ hkind)

/-- A branch is read alike up to tokens that do not start with the end of a line. -/
theorem Branch.relays {p : Position} (h : Branch (RelaysTree L) p ts n rest) (hrest : InLine rest) (p' : Position) :
    Relays Node.Alike (Branch L p') ts n rest := by
  have hbody {ts rest : List Token} {body : List Node} (h : Body (Statement (RelaysTree L)) ts body rest)
      (hrest : InLine rest) := h.relays Statement.relays hrest
  induction h generalizing p' with
  | last htest hb =>
      intro us hus
      obtain ⟨test', mid', htest', hmid, hreads⟩ := htest.2 hus
      obtain ⟨body', left, hbody', hleft, hreads'⟩ := hbody hb hrest hmid
      exact ⟨_, left, Node.alike_branch htest' hbody' .none, hleft,
        fun more => .last (hreads more) (hreads' more)⟩
  | elif htest hb ht hother ih =>
      intro us hus
      obtain ⟨test', mid', htest', hmid, hreads⟩ := htest.2 hus
      obtain ⟨body', left, hbody', hleft, hreads'⟩ := hbody hb (inLine_of_eq ht (by decide)) hmid
      obtain ⟨t', left, rfl, ht', hleft⟩ := hleft.uncons (by rw [ht]; decide)
      obtain ⟨other', left, hother', hleft, hreads''⟩ := ih hrest t'.position hleft
      exact ⟨_, left, Node.alike_branch htest' hbody' (.some hother'), hleft,
        fun more => .elif (hreads more) (hreads' more) (ht'.kind_eq.trans ht) (hreads'' more)⟩
  | otherwise htest hb ht hothers =>
      intro us hus
      obtain ⟨test', mid', htest', hmid, hreads⟩ := htest.2 hus
      obtain ⟨body', left, hbody', hleft, hreads'⟩ := hbody hb (inLine_of_eq ht (by decide)) hmid
      obtain ⟨t', left, rfl, ht', hleft⟩ := hleft.uncons (by rw [ht]; decide)
      obtain ⟨others', left, hothers', hleft, hreads''⟩ := hbody hothers hrest hleft
      exact ⟨_, left, Node.alike_branch htest' hbody' (.some (Node.alike_block hothers')), hleft,
        fun more => .otherwise (hreads more) (hreads' more) (ht'.kind_eq.trans ht) (hreads'' more)⟩

theorem Denotes.relays {t t' : Token} {value : Literal} (h : Denotes t value) (ht' : t.Alike t') :
    t.kind ≠ .endOfLine ∧ Denotes t' value := by
  cases h with
  | none ht => exact ⟨by rw [ht]; decide, .none (ht'.kind_eq.trans ht)⟩
  | true ht => exact ⟨by rw [ht]; decide, .true (ht'.kind_eq.trans ht)⟩
  | false ht => exact ⟨by rw [ht]; decide, .false (ht'.kind_eq.trans ht)⟩
  | string ht =>
      rw [← ht'.text_eq]
      exact ⟨by rw [ht]; decide, .string (ht'.kind_eq.trans ht)⟩
  | number ht hn => exact ⟨by rw [ht]; decide, .number (ht'.kind_eq.trans ht) (ht'.text_eq ▸ hn)⟩

theorem Primary.relays (h : Primary (RelaysTree L) ts n rest) : RelaysTree (Primary L) ts n rest := by
  have hbody {ts rest : List Token} {body : List Node} (h : Body (Statement (RelaysTree L)) ts body rest)
      (hrest : InLine rest) := h.relays Statement.relays hrest
  cases h with
  | @literal t value rest hvalue =>
      have ht := (hvalue.relays (.refl t)).1
      refine ⟨inLine_cons ht, fun us hus => ?_⟩
      obtain ⟨t', us, rfl, ht', hus⟩ := hus.uncons ht
      exact ⟨.literal t'.position value, us, rfl, hus, fun more => .literal (hvalue.relays ht').2⟩
  | var ht =>
      refine ⟨inLine_of_eq ht (by decide), fun us hus => ?_⟩
      obtain ⟨t', us, rfl, ht', hus⟩ := hus.uncons (by rw [ht]; decide)
      refine ⟨_, us, ?_, hus, fun more => .var (ht'.kind_eq.trans ht)⟩
      exact congrArg (Node.var .nowhere) ht'.text_eq.symm
  | list ht hitems hclose =>
      refine ⟨inLine_of_eq ht (by decide), fun us hus => ?_⟩
      obtain ⟨t', us, rfl, ht', hus⟩ := hus.uncons (by rw [ht]; decide)
      obtain ⟨items', left, hitems', hleft, hreads⟩ := hitems.relays And.right hus
      obtain ⟨close', left, rfl, hclose', hleft⟩ := hleft.uncons (by rw [hclose]; decide)
      exact ⟨_, left, Node.alike_list hitems', hleft,
        fun more => .list (ht'.kind_eq.trans ht) (hreads more) (hclose'.kind_eq.trans hclose)⟩
  | group ht hinner hclose =>
      refine ⟨inLine_of_eq ht (by decide), fun us hus => ?_⟩
      obtain ⟨t', us, rfl, ht', hus⟩ := hus.uncons (by rw [ht]; decide)
      obtain ⟨n', left, hn', hleft, hreads⟩ := hinner.2 hus
      obtain ⟨close', left, rfl, hclose', hleft⟩ := hleft.uncons (by rw [hclose]; decide)
      exact ⟨n', left, hn', hleft,
        fun more => .group (ht'.kind_eq.trans ht) (hreads more) (hclose'.kind_eq.trans hclose)⟩
  | block ht hb hclose =>
      refine ⟨inLine_of_eq ht (by decide), fun us hus => ?_⟩
      obtain ⟨t', us, rfl, ht', hus⟩ := hus.uncons (by rw [ht]; decide)
      obtain ⟨body', left, hbody', hleft, hreads⟩ := hbody hb (inLine_of_eq hclose (by decide)) hus
      obtain ⟨close', left, rfl, hclose', hleft⟩ := hleft.uncons (by rw [hclose]; decide)
      exact ⟨_, left, Node.alike_block hbody', hleft,
        fun more => .block (ht'.kind_eq.trans ht) (hreads more) (hclose'.kind_eq.trans hclose)⟩
  | branch ht hbranch hclose =>
      refine ⟨inLine_of_eq ht (by decide), fun us hus => ?_⟩
      obtain ⟨t', us, rfl, ht', hus⟩ := hus.uncons (by rw [ht]; decide)
      obtain ⟨n', left, hn', hleft, hreads⟩ := hbranch.relays (inLine_of_eq hclose (by decide)) t'.position hus
      obtain ⟨close', left, rfl, hclose', hleft⟩ := hleft.uncons (by rw [hclose]; decide)
      exact ⟨n', left, hn', hleft,
        fun more => .branch (ht'.kind_eq.trans ht) (hreads more) (hclose'.kind_eq.trans hclose)⟩
  | forEach ht hname hlink hlist hb hclose =>
      refine ⟨inLine_of_eq ht (by decide), fun us hus => ?_⟩
      obtain ⟨t', us, rfl, ht', hus⟩ := hus.uncons (by rw [ht]; decide)
      obtain ⟨name', us, rfl, hname', hus⟩ := hus.uncons (by rw [hname]; decide)
      obtain ⟨link', us, rfl, hlink', hus⟩ := hus.uncons (by rcases hlink with h | h <;> rw [h] <;> decide)
      obtain ⟨list', mid', hlist', hmid, hreads⟩ := hlist.2 hus
      obtain ⟨body', left, hbody', hleft, hreads'⟩ := hbody hb (inLine_of_eq hclose (by decide)) hmid
      obtain ⟨close', left, rfl, hclose', hleft⟩ := hleft.uncons (by rw [hclose]; decide)
      refine ⟨_, left, ?_, hleft, fun more => .forEach (ht'.kind_eq.trans ht) (hname'.kind_eq.trans hname)
        (hlink'.kind_eq ▸ hlink) (hreads more) (hreads' more) (hclose'.kind_eq.trans hclose)⟩
      rw [hname'.text_eq]
      exact Node.alike_forEach hlist' hbody'
  | loop ht htest hb hclose =>
      refine ⟨inLine_of_eq ht (by decide), fun us hus => ?_⟩
      obtain ⟨t', us, rfl, ht', hus⟩ := hus.uncons (by rw [ht]; decide)
      obtain ⟨test', mid', htest', hmid, hreads⟩ := htest.2 hus
      obtain ⟨body', left, hbody', hleft, hreads'⟩ := hbody hb (inLine_of_eq hclose (by decide)) hmid
      obtain ⟨close', left, rfl, hclose', hleft⟩ := hleft.uncons (by rw [hclose]; decide)
      exact ⟨_, left, Node.alike_loop htest' hbody', hleft,
        fun more => .loop (ht'.kind_eq.trans ht) (hreads more) (hreads' more) (hclose'.kind_eq.trans hclose)⟩
  | function ht hname hopening hparams hclosing hnodup hb hclose =>
      refine ⟨inLine_of_eq ht (by decide), fun us hus => ?_⟩
      obtain ⟨t', us, rfl, ht', hus⟩ := hus.uncons (by rw [ht]; decide)
      obtain ⟨name', us, rfl, hus, hreads⟩ := hname.relays hus
      obtain ⟨opening', us, rfl, hopening', hus⟩ := hus.uncons (by rw [hopening]; decide)
      obtain ⟨params', us, hparams', hus, hreads'⟩ := hparams.relays Name.relays hus
      rw [List.forall₂_eq_eq_eq] at hparams'
      subst hparams'
      obtain ⟨closing', us, rfl, hclosing', hus⟩ := hus.uncons (by rw [hclosing]; decide)
      obtain ⟨body', left, hbody', hleft, hreads''⟩ := hbody hb (inLine_of_eq hclose (by decide)) hus
      obtain ⟨close', left, rfl, hclose', hleft⟩ := hleft.uncons (by rw [hclose]; decide)
      exact ⟨_, left, Node.alike_function hbody', hleft,
        fun more => .function (ht'.kind_eq.trans ht) (hreads more) (hopening'.kind_eq.trans hopening) (hreads' more)
          (hclosing'.kind_eq.trans hclosing) hnodup (hreads'' more) (hclose'.kind_eq.trans hclose)⟩

theorem Accesses.relays {left left' : Node} (h : Accesses (RelaysTree L) left ts n rest) (hleft : left.Alike left') :
    Relays Node.Alike (Accesses L left') ts n rest := by
  induction h generalizing left' with
  | done => exact fun us hus => ⟨left', us, hleft, hus, fun more => .done⟩
  | member ht hname hmore ih =>
      intro us hus
      obtain ⟨t', us, rfl, ht', hus⟩ := hus.uncons (by rw [ht]; decide)
      obtain ⟨name', us, rfl, hname', hus⟩ := hus.uncons (by rw [hname]; decide)
      obtain ⟨n', behind, hn', hbehind, hreads⟩ := ih (Node.alike_member hleft) hus
      rw [← hname'.text_eq] at hreads
      exact ⟨n', behind, hn', hbehind,
        fun more => .member (ht'.kind_eq.trans ht) (hname'.kind_eq.trans hname) (hreads more)⟩
  | call ht hargs hclose hmore ih =>
      intro us hus
      obtain ⟨t', us, rfl, ht', hus⟩ := hus.uncons (by rw [ht]; decide)
      obtain ⟨args', us, hargs', hus, hreads⟩ := hargs.relays And.right hus
      obtain ⟨close', us, rfl, hclose', hus⟩ := hus.uncons (by rw [hclose]; decide)
      obtain ⟨n', behind, hn', hbehind, hreads'⟩ := ih (Node.alike_call hleft hargs') hus
      exact ⟨n', behind, hn', hbehind,
        fun more => .call (ht'.kind_eq.trans ht) (hreads more) (hclose'.kind_eq.trans hclose) (hreads' more)⟩
  | item ht hindex hclose hmore ih =>
      intro us hus
      obtain ⟨t', us, rfl, ht', hus⟩ := hus.uncons (by rw [ht]; decide)
      obtain ⟨index', us, hindex', hus, hreads⟩ := hindex.2 hus
      obtain ⟨close', us, rfl, hclose', hus⟩ := hus.uncons (by rw [hclose]; decide)
      obtain ⟨n', behind, hn', hbehind, hreads'⟩ := ih (Node.alike_item hleft hindex') hus
      exact ⟨n', behind, hn', hbehind,
        fun more => .item (ht'.kind_eq.trans ht) (hreads more) (hclose'.kind_eq.trans hclose) (hreads' more)⟩

theorem Unary.relays (h : Unary (RelaysTree L) ts n rest) : RelaysTree (Unary L) ts n rest := by
  have hops : ∀ entry ∈ unaryOps, entry.1 ≠ .endOfLine := by decide
  induction h with
  | operand h =>
      obtain ⟨hprimary, hmore⟩ := h
      obtain ⟨hline, hprimary⟩ := hprimary.relays
      refine ⟨hline, fun us hus => ?_⟩
      obtain ⟨first', us, hfirst', hus, hreads⟩ := hprimary hus
      obtain ⟨n', left, hn', hleft, hreads'⟩ := hmore.relays hfirst' hus
      exact ⟨n', left, hn', hleft, fun more => .operand ⟨hreads more, hreads' more⟩⟩
  | operator hop hoperand ih =>
      refine ⟨inLine_cons (hops _ hop), fun us hus => ?_⟩
      obtain ⟨t', us, rfl, ht', hus⟩ := hus.uncons (hops _ hop)
      obtain ⟨n', left, hn', hleft, hreads⟩ := ih.2 hus
      exact ⟨_, left, Node.alike_unary hn', hleft,
        fun more => .operator (ht'.kind_eq ▸ hop) (hreads more)⟩

/-- A phrase whose only rule is another phrase. -/
theorem RelaysTree.map (hrule : ∀ {ts n rest}, L ts n rest → L' ts n rest) (h : RelaysTree L ts n rest) :
    RelaysTree L' ts n rest := by
  refine ⟨h.1, fun us hus => ?_⟩
  obtain ⟨n', left, hn', hleft, hreads⟩ := h.2 hus
  exact ⟨n', left, hn', hleft, fun more => hrule (hreads more)⟩

theorem Factor.relays (h : Factor (RelaysTree L) ts n rest) : RelaysTree (Factor L) ts n rest := by
  obtain ⟨h⟩ := h
  have hops : ∀ entry ∈ factorOps, entry.1 ≠ .endOfLine := by decide
  exact (h.relays hops congruent_binary Unary.relays).map .chain

theorem Term.relays (h : Term (RelaysTree L) ts n rest) : RelaysTree (Term L) ts n rest := by
  obtain ⟨h⟩ := h
  have hops : ∀ entry ∈ termOps, entry.1 ≠ .endOfLine := by decide
  exact (h.relays hops congruent_binary Factor.relays).map .chain

theorem Range.relays (h : Range (RelaysTree L) ts n rest) : RelaysTree (Range L) ts n rest := by
  cases h with
  | single h => exact h.relays.map .single
  | upTo hfirst ht hlast =>
      obtain ⟨hline, hfirst⟩ := hfirst.relays
      refine ⟨hline, fun us hus => ?_⟩
      obtain ⟨first', us, hfirst', hus, hreads⟩ := hfirst hus
      obtain ⟨t', us, rfl, ht', hus⟩ := hus.uncons (by rw [ht]; decide)
      obtain ⟨last', left, hlast', hleft, hreads'⟩ := hlast.relays.2 hus
      exact ⟨_, left, Node.alike_range hfirst' hlast' .none, hleft,
        fun more => .upTo (hreads more) (ht'.kind_eq.trans ht) (hreads' more)⟩
  | stepped hfirst ht hlast hs hstep =>
      obtain ⟨hline, hfirst⟩ := hfirst.relays
      refine ⟨hline, fun us hus => ?_⟩
      obtain ⟨first', us, hfirst', hus, hreads⟩ := hfirst hus
      obtain ⟨t', us, rfl, ht', hus⟩ := hus.uncons (by rw [ht]; decide)
      obtain ⟨last', us, hlast', hus, hreads'⟩ := hlast.relays.2 hus
      obtain ⟨s', us, rfl, hs', hus⟩ := hus.uncons (by rw [hs]; decide)
      obtain ⟨step', left, hstep', hleft, hreads''⟩ := hstep.relays.2 hus
      exact ⟨_, left, Node.alike_range hfirst' hlast' (.some hstep'), hleft,
        fun more => .stepped (hreads more) (ht'.kind_eq.trans ht) (hreads' more) (hs'.kind_eq.trans hs)
          (hreads'' more)⟩

theorem Comparison.relays (h : Comparison (RelaysTree L) ts n rest) : RelaysTree (Comparison L) ts n rest := by
  obtain ⟨h⟩ := h
  have hops : ∀ entry ∈ comparisonOps, entry.1 ≠ .endOfLine := by decide
  exact (h.relays hops congruent_binary Range.relays).map .chain

theorem Conjunction.relays (h : Conjunction (RelaysTree L) ts n rest) : RelaysTree (Conjunction L) ts n rest := by
  obtain ⟨h⟩ := h
  have hops : ∀ entry ∈ andOps, entry.1 ≠ .endOfLine := by decide
  exact (h.relays hops congruent_logical Comparison.relays).map .chain

theorem Disjunction.relays (h : Disjunction (RelaysTree L) ts n rest) : RelaysTree (Disjunction L) ts n rest := by
  obtain ⟨h⟩ := h
  have hops : ∀ entry ∈ orOps, entry.1 ≠ .endOfLine := by decide
  exact (h.relays hops congruent_logical Conjunction.relays).map .chain

/-- **Expressions in another layout.** They are read alike, whatever follows. -/
theorem Expression.relays (h : Expression ts n rest) : RelaysTree Expression ts n rest :=
  h.least fun h => (Disjunction.relays h).map .intro

end

end Grammar

/-! ### Programs -/

namespace Program

open Grammar

/-- The program without its positions. -/
def unplaced (p : Program) : Program :=
  ⟨p.source, p.body.map Node.unplaced⟩

variable {source text text' : String}

/-- A program is one in another layout. -/
theorem parse_of_relays (h : Lexer.Relays false (.ofSource source text) (.ofSource source text')) {p : Program}
    (hparse : parse source text = .ok p) : ∃ p', parse source text' = .ok p' ∧ p'.unplaced = p.unplaced := by
  have hrule : ∀ {ts n rest}, Disjunction (RelaysTree Expression) ts n rest → RelaysTree Expression ts n rest :=
    fun h => h.relays.map .intro
  rcases h with ⟨e, e', he, -⟩ | ⟨ts, ts', hlex, hlex', hrelaid⟩
  · obtain ⟨ts, l, htokens⟩ := exists_tokens_of_parse hparse
    rw [htokens] at he
    cases he
  · obtain ⟨hsource, t, ht, hlines⟩ := lines_of_parse hlex hparse hrule
    obtain ⟨body, left, hbody, hleft, hreads⟩ :=
      hlines.relays Statement.relays (inLine_of_eq ht (by decide)) hrelaid.to_true
    obtain ⟨t', left, rfl, ht', hleft⟩ := hleft.uncons (by rw [ht]; decide)
    obtain rfl := hleft.eq_nil
    have hlines' := hreads []
    rw [List.append_nil, List.append_nil] at hlines'
    refine ⟨_, parse_of_derives hlex' ⟨hlines', ht'.kind_eq.trans ht⟩, ?_⟩
    have hunplaced := Node.mapPositions_eq_of_alike hbody
    rw [Node.mapPositions_eq_map, Node.mapPositions_eq_map] at hunplaced
    rw [unplaced, unplaced, hsource]
    exact congrArg (Program.mk source) hunplaced.symm

/-- **Layout does not matter.** Blanks, line feeds among them, may be put behind any line feed of a source, at any
depth: either both sources are programs, and the same but for the positions, or both are rejected. -/
theorem parse_behind_line (source before after : String) {blanks : String}
    (hblanks : ∀ c ∈ blanks.toList, Text.isBlank c = true) :
    (∃ p p', parse source (before ++ "\n" ++ after) = .ok p ∧
        parse source (before ++ "\n" ++ blanks ++ after) = .ok p' ∧ p'.unplaced = p.unplaced) ∨
      ∃ e e', parse source (before ++ "\n" ++ after) = .error (.rejected e) ∧
        parse source (before ++ "\n" ++ blanks ++ after) = .error (.rejected e') := by
  have hrelays : Lexer.Relays false (.ofSource source (before ++ "\n" ++ after))
      (.ofSource source (before ++ "\n" ++ blanks ++ after)) := by
    have hassoc : before ++ "\n" ++ blanks ++ after = before ++ "\n" ++ (blanks ++ after) := String.append_assoc
    rw [hassoc, ofSource_append_line, ofSource_append_line, String.toList_append]
    exact Lexer.relays_behind_line false hblanks before.toList after.toList _
  rcases parse_ok_or_rejected source (before ++ "\n" ++ after) with ⟨p, hp⟩ | ⟨e, -, he, -⟩
  · obtain ⟨p', hp', hsame⟩ := parse_of_relays hrelays hp
    exact .inl ⟨p, p', hp, hp', hsame⟩
  · rcases parse_ok_or_rejected source (before ++ "\n" ++ blanks ++ after) with ⟨p', hp'⟩ | ⟨e', -, he', -⟩
    · obtain ⟨p, hp, -⟩ := parse_of_relays hrelays.symm hp'
      cases he.symm.trans hp
    · exact .inr ⟨e, e', he, he'⟩

/-- An empty line and an indentation inside a block. -/
theorem parse_indented_block :
    ∃ p, parse "s" ("begin" ++ "\n" ++ "\n  " ++ "x\nend") = .ok p ∧
      p.unplaced = ⟨"s", [.block .nowhere [.var .nowhere "x"]]⟩ := by
  have hparse : parse "s" ("begin" ++ "\n" ++ "x\nend") = .ok ⟨"s", [.block ⟨"s", 1, 1⟩ [.var ⟨"s", 2, 1⟩ "x"]]⟩ := by
    decide +kernel
  have hblanks : ∀ c ∈ "\n  ".toList, Text.isBlank c = true := by
    simp [Text.isBlank, Text.blankRanges, Text.Ranges.contains]
  obtain ⟨p, p', hp, hp', hsame⟩ | ⟨e, e', he, -⟩ := parse_behind_line "s" "begin" "x\nend" hblanks
  · cases hparse.symm.trans hp
    exact ⟨p', hp', hsame⟩
  · cases hparse.symm.trans he

end Program

end LineScript
