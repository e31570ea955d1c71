import LineScript.Proofs.Program.Lengths
import LineScript.Proofs.Program.Totality
import LineScript.Proofs.Token.Wording
/-!
# The names in a program

Every name in the tree of a program is that of a token, and so it is written in one line; and every position in the tree
names the source. A source that is no program is rejected in one line too: the mistakes of the grammar quote a name or a
number, and those of the lexer show one character.
-/

namespace LineScript

open Token (Kind)

namespace Node

/-- The names that the node itself is written with. -/
def names : Node → List String
  | var _ name | assign _ name _ | member _ _ name | assignMember _ _ name _ | forEach _ name _ _ => [name]
  | function _ name params _ => name.toList ++ params
  | _ => []

/-- The node stands in a source of this name, and its names are of one line. -/
structure Plain (source : String) (n : Node) : Prop where
  source_eq : n.position.source = source
  names : ∀ name ∈ n.names, OneLine name

variable {source : String} {n : Node}

theorem plain_of_children (hsource : n.position.source = source) (hnames : n.names = [])
    (hchildren : ∀ c ∈ n.children, c.All (Plain source)) : n.All (Plain source) :=
  .intro ⟨hsource, hnames ▸ nofun⟩ hchildren

theorem plain_of_name {name : String} (hsource : n.position.source = source) (hname : OneLine name)
    (hnames : n.names = [name]) (hchildren : ∀ c ∈ n.children, c.All (Plain source)) : n.All (Plain source) :=
  .intro ⟨hsource, hnames ▸ List.forall_mem_singleton.2 hname⟩ hchildren

end Node

theorem Token.Plain.name {source : String} {t : Token} (h : t.Plain source) (hkind : t.kind = .identifier) :
    OneLine t.text :=
  h.text (by rw [hkind]; decide) (by rw [hkind]; decide)

/-! ### Phrases of plain tokens -/

namespace Grammar

/-- At the start of plain tokens the phrase is made of what is good, and those behind it are plain. -/
def Plainly {α : Type} (source : String) (good : α → Prop) : Phrase α := fun ts a rest =>
  (∀ t ∈ ts, t.Plain source) → (∀ t ∈ rest, t.Plain source) ∧ good a

abbrev PlainTree (source : String) : Phrase Node :=
  Plainly source (Node.All (Node.Plain source))

abbrev PlainTrees (source : String) : Phrase (List Node) :=
  Plainly source fun ns => ∀ n ∈ ns, n.All (Node.Plain source)

section

variable {source : String}

theorem Operations.plainly {Op : Type} {ops : List (Kind × Op)} {combine : Position → Op → Node → Node → Node}
    {Operand : Phrase Node} (hoperand : ∀ {ts n rest}, Operand ts n rest → PlainTree source ts n rest)
    (hcombine : ∀ p op {left right}, p.source = source → left.All (Node.Plain source) →
      right.All (Node.Plain source) → (combine p op left right).All (Node.Plain source))
    {left n : Node} {ts rest : List Token} (h : Operations ops combine Operand left ts n rest)
    (hleft : left.All (Node.Plain source)) : PlainTree source ts n rest := by
  induction h with
  | done => exact fun hts => ⟨hts, hleft⟩
  | step hop hright hmore ih =>
      intro hts
      obtain ⟨ht, hts⟩ := List.forall_mem_cons.1 hts
      obtain ⟨hmid, hright⟩ := hoperand hright hts
      exact ih (hcombine _ _ ht.source_eq hleft hright) hmid

theorem Chain.plainly {Op : Type} {ops : List (Kind × Op)} {combine : Position → Op → Node → Node → Node}
    {Operand : Phrase Node} (hoperand : ∀ {ts n rest}, Operand ts n rest → PlainTree source ts n rest)
    (hcombine : ∀ p op {left right}, p.source = source → left.All (Node.Plain source) →
      right.All (Node.Plain source) → (combine p op left right).All (Node.Plain source))
    {n : Node} {ts rest : List Token} (h : Chain ops combine Operand ts n rest) : PlainTree source ts n rest := by
  obtain ⟨hfirst, hmore⟩ := h
  intro hts
  obtain ⟨hmid, hfirst⟩ := hoperand hfirst hts
  exact hmore.plainly hoperand hcombine hfirst hmid

theorem Separated.plainly {α : Type} {good : α → Prop} {Item : Phrase α}
    (hitem : ∀ {ts a rest}, Item ts a rest → Plainly source good ts a rest) {as : List α} {ts rest : List Token}
    (h : Separated Item ts as rest) : Plainly source (fun as => ∀ a ∈ as, good a) ts as rest := by
  induction h with
  | one h =>
      intro hts
      obtain ⟨hrest, ha⟩ := hitem h hts
      exact ⟨hrest, List.forall_mem_singleton.2 ha⟩
  | more h hcomma hmore ih =>
      intro hts
      obtain ⟨hmid, ha⟩ := hitem h hts
      obtain ⟨hrest, has⟩ := ih (List.forall_mem_cons.1 hmid).2
      exact ⟨hrest, List.forall_mem_cons.2 ⟨ha, has⟩⟩

theorem Listed.plainly {α : Type} {good : α → Prop} {Item : Phrase α}
    (hitem : ∀ {ts a rest}, Item ts a rest → Plainly source good ts a rest) {as : List α} {ts rest : List Token}
    (h : Listed Item ts as rest) : Plainly source (fun as => ∀ a ∈ as, good a) ts as rest := by
  cases h with
  | none => exact fun hts => ⟨hts, nofun⟩
  | some hitems => exact hitems.plainly hitem

theorem Lines.plainly {L : Phrase Node} (hL : ∀ {ts n rest}, L ts n rest → PlainTree source ts n rest)
    {body : List Node} {ts rest : List Token} (h : Lines L ts body rest) : PlainTrees source ts body rest := by
  induction h with
  | none => exact fun hts => ⟨hts, nofun⟩
  | blank ht hlines ih => exact fun hts => ih (List.forall_mem_cons.1 hts).2
  | statement hstatement ht hlines ih =>
      intro hts
      obtain ⟨hmid, hn⟩ := hL hstatement hts
      obtain ⟨hrest, hbody⟩ := ih (List.forall_mem_cons.1 hmid).2
      exact ⟨hrest, List.forall_mem_cons.2 ⟨hn, hbody⟩⟩
  | last hstatement ht =>
      intro hts
      obtain ⟨hrest, hn⟩ := hL hstatement hts
      exact ⟨hrest, List.forall_mem_singleton.2 hn⟩

theorem Body.plainly {L : Phrase Node} (hL : ∀ {ts n rest}, L ts n rest → PlainTree source ts n rest)
    {body : List Node} {ts rest : List Token} (h : Body L ts body rest) : PlainTrees source ts body rest := by
  obtain ⟨ht, hlines⟩ := h
  exact fun hts => hlines.plainly hL (List.forall_mem_cons.1 hts).2

theorem FunctionName.plainly {name : Option String} {ts rest : List Token} (h : FunctionName ts name rest) :
    Plainly source (fun name => ∀ text ∈ name.toList, OneLine text) ts name rest := by
  cases h with
  | anonymous => exact fun hts => ⟨hts, nofun⟩
  | named ht =>
      intro hts
      obtain ⟨hname, hrest⟩ := List.forall_mem_cons.1 hts
      exact ⟨hrest, List.forall_mem_singleton.2 (hname.name ht)⟩

theorem Name.plainly {name : String} {ts rest : List Token} (h : Name ts name rest) :
    Plainly source OneLine ts name rest := by
  cases h with
  | intro ht =>
      intro hts
      obtain ⟨hname, hrest⟩ := List.forall_mem_cons.1 hts
      exact ⟨hrest, hname.name ht⟩

theorem plain_binary (p : Position) (op : BinaryOp) {left right : Node} (hp : p.source = source)
    (hleft : left.All (Node.Plain source)) (hright : right.All (Node.Plain source)) :
    (Node.binary p op left right).All (Node.Plain source) :=
  Node.plain_of_children hp rfl (List.forall_mem_cons.2 ⟨hleft, List.forall_mem_singleton.2 hright⟩)

theorem plain_logical (p : Position) (op : LogicalOp) {left right : Node} (hp : p.source = source)
    (hleft : left.All (Node.Plain source)) (hright : right.All (Node.Plain source)) :
    (Node.logical p op left right).All (Node.Plain source) :=
  Node.plain_of_children hp rfl (List.forall_mem_cons.2 ⟨hleft, List.forall_mem_singleton.2 hright⟩)

/-- An assignment stands where its target does, under the names of it, and has what its target has inside it, and what
it stores. -/
theorem plain_assigned {target value n : Node} {operator : Option BinaryOp} {p : Position} (hp : p.source = source)
    (htarget : target.All (Node.Plain source)) (hvalue : value.All (Node.Plain source))
    (hposition : n.position = target.position) (hnames : n.names = target.names)
    (hchildren : n.children = target.children ++ [stored operator p target value]) : n.All (Node.Plain source) := by
  have hstored : (stored operator p target value).All (Node.Plain source) := by
    cases operator with
    | none => exact hvalue
    | some op => exact plain_binary p op hp htarget hvalue
  refine .intro ⟨hposition ▸ htarget.here.source_eq, hnames ▸ htarget.here.names⟩ ?_
  rw [hchildren]
  exact List.forall_mem_append.2 ⟨fun c => htarget.child, List.forall_mem_singleton.2 hstored⟩

variable {n : Node} {ts rest : List Token}

theorem Statement.plainly (h : Statement (PlainTree source) ts n rest) : PlainTree source ts n rest := by
  cases h with
  | expression h => exact h
  | name ht hop hvalue =>
      intro hts
      obtain ⟨hname, hts⟩ := List.forall_mem_cons.1 hts
      obtain ⟨hassign, hts⟩ := List.forall_mem_cons.1 hts
      obtain ⟨hrest, hvalue⟩ := hvalue hts
      have hvar : (Node.var _ _).All (Node.Plain source) :=
        Node.plain_of_name hname.source_eq (hname.name ht) rfl nofun
      exact ⟨hrest, plain_assigned hassign.source_eq hvar hvalue rfl rfl rfl⟩
  | var htarget hop hvalue | item htarget hop hvalue | member htarget hop hvalue =>
      intro hts
      obtain ⟨hmid, htarget⟩ := htarget hts
      obtain ⟨hassign, hmid⟩ := List.forall_mem_cons.1 hmid
      obtain ⟨hrest, hvalue⟩ := hvalue hmid
      exact ⟨hrest, plain_assigned hassign.source_eq htarget hvalue rfl rfl rfl⟩

theorem Branch.plainly {p : Position} (hp : p.source = source) (h : Branch (PlainTree source) p ts n rest) :
    PlainTree source ts n rest := by
  have hbody {ts rest : List Token} {body : List Node} (h : Body (Statement (PlainTree source)) ts body rest) :=
    h.plainly Statement.plainly
  induction h with
  | last htest hb =>
      intro hts
      obtain ⟨hmid, htest⟩ := htest hts
      obtain ⟨hrest, hb⟩ := hbody hb hmid
      exact ⟨hrest, Node.plain_of_children hp rfl (by simpa [Node.children] using ⟨htest, hb⟩)⟩
  | elif htest hb ht hother ih =>
      intro hts
      obtain ⟨hmid, htest⟩ := htest hts
      obtain ⟨hmid', hb⟩ := hbody hb hmid
      obtain ⟨hword, hmid'⟩ := List.forall_mem_cons.1 hmid'
      obtain ⟨hrest, hother⟩ := ih hword.source_eq hmid'
      refine ⟨hrest, Node.plain_of_children hp rfl ?_⟩
      simpa [Node.children, or_imp, forall_and] using ⟨htest, hb, hother⟩
  | otherwise htest hb ht hothers =>
      intro hts
      obtain ⟨hmid, htest⟩ := htest hts
      obtain ⟨hmid', hb⟩ := hbody hb hmid
      obtain ⟨hword, hmid'⟩ := List.forall_mem_cons.1 hmid'
      obtain ⟨hrest, hothers⟩ := hbody hothers hmid'
      have hblock : (Node.block _ _).All (Node.Plain source) := Node.plain_of_children hword.source_eq rfl hothers
      refine ⟨hrest, Node.plain_of_children hp rfl ?_⟩
      simpa [Node.children, or_imp, forall_and] using ⟨htest, hb, hblock⟩

theorem Primary.plainly (h : Primary (PlainTree source) ts n rest) : PlainTree source ts n rest := by
  have hbody {ts rest : List Token} {body : List Node} (h : Body (Statement (PlainTree source)) ts body rest) :=
    h.plainly Statement.plainly
  intro hts
  cases h with
  | literal hvalue =>
      obtain ⟨ht, hrest⟩ := List.forall_mem_cons.1 hts
      exact ⟨hrest, Node.plain_of_children ht.source_eq rfl nofun⟩
  | var hname =>
      obtain ⟨ht, hrest⟩ := List.forall_mem_cons.1 hts
      exact ⟨hrest, Node.plain_of_name ht.source_eq (ht.name hname) rfl nofun⟩
  | list _ hitems hclose =>
      obtain ⟨ht, hts⟩ := List.forall_mem_cons.1 hts
      obtain ⟨hrest, hitems⟩ := hitems.plainly id hts
      exact ⟨(List.forall_mem_cons.1 hrest).2, Node.plain_of_children ht.source_eq rfl hitems⟩
  | group _ hinner hclose =>
      obtain ⟨hrest, hn⟩ := hinner (List.forall_mem_cons.1 hts).2
      exact ⟨(List.forall_mem_cons.1 hrest).2, hn⟩
  | block _ hb hclose =>
      obtain ⟨ht, hts⟩ := List.forall_mem_cons.1 hts
      obtain ⟨hrest, hb⟩ := hbody hb hts
      exact ⟨(List.forall_mem_cons.1 hrest).2, Node.plain_of_children ht.source_eq rfl hb⟩
  | branch _ hbranch hclose =>
      obtain ⟨ht, hts⟩ := List.forall_mem_cons.1 hts
      obtain ⟨hrest, hn⟩ := hbranch.plainly ht.source_eq hts
      exact ⟨(List.forall_mem_cons.1 hrest).2, hn⟩
  | forEach _ hname hlink hlist hb hclose =>
      obtain ⟨ht, hts⟩ := List.forall_mem_cons.1 hts
      obtain ⟨hvariable, hts⟩ := List.forall_mem_cons.1 hts
      obtain ⟨hmid, hlist⟩ := hlist (List.forall_mem_cons.1 hts).2
      obtain ⟨hrest, hb⟩ := hbody hb hmid
      exact ⟨(List.forall_mem_cons.1 hrest).2,
        Node.plain_of_name ht.source_eq (hvariable.name hname) rfl (List.forall_mem_cons.2 ⟨hlist, hb⟩)⟩
  | loop _ htest hb hclose =>
      obtain ⟨ht, hts⟩ := List.forall_mem_cons.1 hts
      obtain ⟨hmid, htest⟩ := htest hts
      obtain ⟨hrest, hb⟩ := hbody hb hmid
      exact ⟨(List.forall_mem_cons.1 hrest).2,
        Node.plain_of_children ht.source_eq rfl (List.forall_mem_cons.2 ⟨htest, hb⟩)⟩
  | function _ hname hopening hparams hclosing hnodup hb hclose =>
      obtain ⟨ht, hts⟩ := List.forall_mem_cons.1 hts
      obtain ⟨hopened, hname⟩ := hname.plainly hts
      obtain ⟨hclosed, hparams⟩ := hparams.plainly Name.plainly (List.forall_mem_cons.1 hopened).2
      obtain ⟨hrest, hb⟩ := hbody hb (List.forall_mem_cons.1 hclosed).2
      exact ⟨(List.forall_mem_cons.1 hrest).2,
        .intro ⟨ht.source_eq, List.forall_mem_append.2 ⟨hname, hparams⟩⟩ hb⟩

theorem Accesses.plainly {left : Node} (h : Accesses (PlainTree source) left ts n rest)
    (hleft : left.All (Node.Plain source)) : PlainTree source ts n rest := by
  induction h with
  | done => exact fun hts => ⟨hts, hleft⟩
  | member _ hname hmore ih =>
      intro hts
      obtain ⟨ht, hts⟩ := List.forall_mem_cons.1 hts
      obtain ⟨hmember, hts⟩ := List.forall_mem_cons.1 hts
      exact ih (Node.plain_of_name ht.source_eq (hmember.name hname) rfl (List.forall_mem_singleton.2 hleft)) hts
  | call _ hargs hclose hmore ih =>
      intro hts
      obtain ⟨ht, hts⟩ := List.forall_mem_cons.1 hts
      obtain ⟨hmid, hargs⟩ := hargs.plainly id hts
      exact ih (Node.plain_of_children ht.source_eq rfl (List.forall_mem_cons.2 ⟨hleft, hargs⟩))
        (List.forall_mem_cons.1 hmid).2
  | item _ hindex hclose hmore ih =>
      intro hts
      obtain ⟨ht, hts⟩ := List.forall_mem_cons.1 hts
      obtain ⟨hmid, hindex⟩ := hindex hts
      exact ih (Node.plain_of_children ht.source_eq rfl
        (List.forall_mem_cons.2 ⟨hleft, List.forall_mem_singleton.2 hindex⟩)) (List.forall_mem_cons.1 hmid).2

theorem Unary.plainly (h : Unary (PlainTree source) ts n rest) : PlainTree source ts n rest := by
  induction h with
  | operand h =>
      obtain ⟨hprimary, hmore⟩ := h
      intro hts
      obtain ⟨hmid, hfirst⟩ := hprimary.plainly hts
      exact hmore.plainly hfirst hmid
  | operator hop hoperand ih =>
      intro hts
      obtain ⟨ht, hts⟩ := List.forall_mem_cons.1 hts
      obtain ⟨hrest, hn⟩ := ih hts
      exact ⟨hrest, Node.plain_of_children ht.source_eq rfl (List.forall_mem_singleton.2 hn)⟩

theorem Term.plainly (h : Term (PlainTree source) ts n rest) : PlainTree source ts n rest := by
  obtain ⟨h⟩ := h
  refine h.plainly (fun hfactor => ?_) plain_binary
  obtain ⟨hfactor⟩ := hfactor
  exact hfactor.plainly Unary.plainly plain_binary

theorem Range.plainly (h : Range (PlainTree source) ts n rest) : PlainTree source ts n rest := by
  intro hts
  cases h with
  | single h => exact h.plainly hts
  | upTo hfirst _ hlast =>
      obtain ⟨hmid, hfirst⟩ := hfirst.plainly hts
      obtain ⟨ht, hmid⟩ := List.forall_mem_cons.1 hmid
      obtain ⟨hrest, hlast⟩ := hlast.plainly hmid
      exact ⟨hrest, Node.plain_of_children ht.source_eq rfl (by simp [Node.children, hfirst, hlast])⟩
  | stepped hfirst _ hlast hs hstep =>
      obtain ⟨hmid, hfirst⟩ := hfirst.plainly hts
      obtain ⟨ht, hmid⟩ := List.forall_mem_cons.1 hmid
      obtain ⟨hmid', hlast⟩ := hlast.plainly hmid
      obtain ⟨hrest, hstep⟩ := hstep.plainly (List.forall_mem_cons.1 hmid').2
      exact ⟨hrest, Node.plain_of_children ht.source_eq rfl (by simp [Node.children, hfirst, hlast, hstep])⟩

theorem Disjunction.plainly (h : Disjunction (PlainTree source) ts n rest) : PlainTree source ts n rest := by
  obtain ⟨h⟩ := h
  refine h.plainly (fun hconjunction => ?_) plain_logical
  obtain ⟨hconjunction⟩ := hconjunction
  refine hconjunction.plainly (fun hcomparison => ?_) plain_logical
  obtain ⟨hcomparison⟩ := hcomparison
  exact hcomparison.plainly Range.plainly plain_binary

end

end Grammar

/-! ### Programs -/

theorem Cut.plain {source : String} {before text rest : List Char} {ts : List Token}
    (h : Cut source before text ts rest) : ∀ t ∈ ts, t.Plain source := by
  induction h with
  | none => exact nofun
  | token _ _ _ hlexeme _ hposition _ ih => exact List.forall_mem_cons.2 ⟨⟨by rw [hposition]; rfl, hlexeme.oneLine⟩, ih⟩

/-- What the grammar finds wrong with a token of a source is told in one line. -/
theorem SyntaxCause.Concerns.oneLine {t : Token} {cause : SyntaxCause} (h : cause.Concerns t) {l : Lexer}
    (ht : l.Hands t) : OneLine cause.message := by
  obtain ⟨-, l₁, l₂, -, -, -, hnext, -⟩ := ht
  have htext := Lexer.oneLine_of_next hnext
  cases cause with
  | unexpected wanted found =>
      exact (oneLine_append _ _).2 ⟨(oneLine_append _ _).2 ⟨(oneLine_append _ _).2 ⟨by decide, wanted.oneLine_text⟩,
        by decide⟩, found.oneLine_name⟩
  | invalidTarget => exact (by decide : OneLine "invalid left-hand side of assignment")
  | invalidNumber text | duplicateParameter text =>
      obtain ⟨hkind, rfl⟩ := h
      have hquoted := htext (by rw [hkind]; decide) (by rw [hkind]; decide)
      exact (oneLine_append _ _).2 ⟨(oneLine_append _ _).2 ⟨by decide, hquoted⟩, by decide⟩
  | _ => exact h.elim

namespace Program

open Grammar LineScript.Parser

variable {source text : String}

theorem plain_of_yields {ts : List Token} (hlex : (Lexer.ofSource source text).Yields ts) :
    ∀ t ∈ ts, t.Plain source := by
  obtain ⟨l, htokens⟩ := hlex
  have hcut := Lexer.cut_tokens source [] text.toList
  rw [show Lexer.tokens ⟨text.toList, .past source []⟩ = (ts, .ok l) from htokens] at hcut
  obtain ⟨words, gap, rfl, hcut, -⟩ := hcut
  refine List.forall_mem_append.2 ⟨hcut.plain, List.forall_mem_singleton.2 ⟨rfl, fun _ _ => ?_⟩⟩
  exact (by decide : OneLine "")

/-- The nodes of a program stand in its source, and its names are of one line. -/
theorem plain_of_parse {p : Program} (hparse : parse source text = .ok p) :
    ∀ n ∈ p.body, n.All (Node.Plain source) := by
  obtain ⟨ts, hlex, -⟩ := exists_small_of_parse hparse
  obtain ⟨-, t, -, hlines⟩ := lines_of_parse hlex hparse Disjunction.plainly
  exact (hlines.plainly Statement.plainly (plain_of_yields hlex)).2

/-- A source that is no program is rejected for a mistake that is told in one line. -/
theorem oneLine_of_rejected {e : SyntaxError} (hparse : parse source text = .error (.rejected e)) :
    OneLine e.cause.message := by
  rcases ofLexer_outcome (.ofSource source text) with ⟨e', he', hcursor⟩ | ⟨c, v, hcursor, hat⟩
  · cases hparse.symm.trans (parseWith_of_ofLexer hcursor)
    exact Lexer.oneLine_of_tokens he'
  · rw [parse, parseWith_of_cursor hcursor] at hparse
    have hfuel : (Lexer.ofSource source text).rest.length < text.length + 2 - 1 := ofSource_rest_lt source text
    rcases lines_outcome hat hfuel with
      ⟨body, c₁, -, -, -, hrun, -, -⟩ | ⟨t, cause, ht, hcause, hrun⟩ | ⟨e', he', hrun⟩
    · rw [hrun] at hparse
      cases hparse
    · rw [hrun] at hparse
      cases hparse
      exact hcause.oneLine ht
    · rw [hrun] at hparse
      cases hparse
      exact Lexer.oneLine_of_tokens he'

end Program

end LineScript
