import LineScript.Proofs.Evaluation.Evolution
import LineScript.Proofs.Program.Lookahead
import LineScript.Proofs.Program.Soundness
import LineScript.Proofs.Token.Partition
/-!
# How long the literals of a program are

A string literal is not longer than its source, and neither is a list: its items and its brackets take a token each, and
a token takes a character. Both hold at every place in the tree of a program, so what is said of a node is said of the
nodes inside it too. An assignment that applies an operator has its target twice in the tree, which is why the lengths
are bounded one by one and not in sum.
-/

namespace LineScript

/-! ### The lengths in a tree -/

namespace Node

/-- The node and all nodes inside it have a property. -/
inductive All (property : Node → Prop) : Node → Prop
  | intro {n : Node} (hn : property n) (hchildren : ∀ c ∈ n.children, All property c) : All property n

theorem All.here {property : Node → Prop} {n : Node} (h : n.All property) : property n := by
  obtain ⟨hn, -⟩ := h
  exact hn

theorem All.child {property : Node → Prop} {n c : Node} (h : n.All property) (hc : c ∈ n.children) :
    c.All property := by
  obtain ⟨-, hchildren⟩ := h
  exact hchildren c hc

/-- The length of the string or the array that the node is written for. -/
def length : Node → Nat
  | literal _ (.string s) => s.length
  | list _ items => items.length
  | _ => 0

/-- No string literal and no list in the tree is longer than this. -/
def Fits (bound : Nat) : Node → Prop :=
  All (·.length ≤ bound)

theorem Fits.mono {bound bound' : Nat} {n : Node} (hn : n.Fits bound) (hle : bound ≤ bound') : n.Fits bound' := by
  induction hn with
  | intro hn _ ih => exact .intro (Nat.le_trans hn hle) ih

theorem fits_of_children {bound : Nat} {n : Node} (hn : n.length = 0) (hchildren : ∀ c ∈ n.children, c.Fits bound) :
    n.Fits bound :=
  .intro (hn ▸ Nat.zero_le bound) hchildren

end Node

namespace Grammar

open Token (Kind)

/-- Few tokens, one more at most than their texts are long. -/
def Small (bound : Nat) (ts : List Token) : Prop :=
  ts.length ≤ bound + 1 ∧ ∀ t ∈ ts, t.text.length ≤ bound

theorem Small.tail {bound : Nat} {t : Token} {ts : List Token} (h : Small bound (t :: ts)) : Small bound ts :=
  ⟨Nat.le_of_succ_le h.1, fun u hu => h.2 u (List.mem_cons_of_mem t hu)⟩

/-- Among few tokens, the phrase takes some number of them at least and is made of what fits. -/
def Takes {α : Type} (bound least : Nat) (fits : α → Prop) : Phrase α := fun ts a rest =>
  Small bound ts → Small bound rest ∧ rest.length + least ≤ ts.length ∧ fits a

/-- An expression takes a token. -/
def Tree (bound : Nat) : Phrase Node :=
  Takes bound 1 (Node.Fits bound)

/-- Statements may be none at all. -/
def Trees (bound : Nat) : Phrase (List Node) :=
  Takes bound 0 fun ns => ∀ n ∈ ns, n.Fits bound

section

variable {bound : Nat}

theorem Operations.takes {Op : Type} {ops : List (Kind × Op)} {combine : Position → Op → Node → Node → Node}
    {Operand : Phrase Node} (hoperand : ∀ {ts n rest}, Operand ts n rest → Tree bound ts n rest)
    (hcombine : ∀ p op {left right}, left.Fits bound → right.Fits bound → (combine p op left right).Fits bound)
    {left n : Node} {ts rest : List Token} (h : Operations ops combine Operand left ts n rest)
    (hleft : left.Fits bound) : Takes bound 0 (Node.Fits bound) ts n rest := by
  induction h with
  | done => exact fun hts => ⟨hts, Nat.le_refl _, hleft⟩
  | step hop hright hmore ih =>
      intro hts
      obtain ⟨hmid, hlt, hfits⟩ := hoperand hright hts.tail
      obtain ⟨hrest, hle, hn⟩ := ih (hcombine _ _ hleft hfits) hmid
      refine ⟨hrest, ?_, hn⟩
      rw [List.length_cons]
      omega

theorem Chain.takes {Op : Type} {ops : List (Kind × Op)} {combine : Position → Op → Node → Node → Node}
    {Operand : Phrase Node} (hoperand : ∀ {ts n rest}, Operand ts n rest → Tree bound ts n rest)
    (hcombine : ∀ p op {left right}, left.Fits bound → right.Fits bound → (combine p op left right).Fits bound)
    {n : Node} {ts rest : List Token} (h : Chain ops combine Operand ts n rest) : Tree bound ts n rest := by
  obtain ⟨hfirst, hmore⟩ := h
  intro hts
  obtain ⟨hmid, hlt, hfits⟩ := hoperand hfirst hts
  obtain ⟨hrest, hle, hn⟩ := hmore.takes hoperand hcombine hfits hmid
  exact ⟨hrest, by omega, hn⟩

/-- Each item takes a token of its own. -/
theorem Separated.takes {α : Type} {fits : α → Prop} {Item : Phrase α}
    (hitem : ∀ {ts a rest}, Item ts a rest → Takes bound 1 fits ts a rest) {as : List α}
    {ts rest : List Token} (h : Separated Item ts as rest) :
    Takes bound as.length (fun as => ∀ a ∈ as, fits a) ts as rest := by
  induction h with
  | one h =>
      intro hts
      obtain ⟨hrest, hlt, hfits⟩ := hitem h hts
      exact ⟨hrest, hlt, List.forall_mem_singleton.2 hfits⟩
  | more h hcomma hmore ih =>
      intro hts
      obtain ⟨hmid, hlt, hfits⟩ := hitem h hts
      obtain ⟨hrest, hle, hmore⟩ := ih hmid.tail
      refine ⟨hrest, ?_, List.forall_mem_cons.2 ⟨hfits, hmore⟩⟩
      simp only [List.length_cons] at hlt ⊢
      omega

theorem Listed.takes {α : Type} {fits : α → Prop} {Item : Phrase α}
    (hitem : ∀ {ts a rest}, Item ts a rest → Takes bound 1 fits ts a rest) {as : List α}
    {ts rest : List Token} (h : Listed Item ts as rest) :
    Takes bound as.length (fun as => ∀ a ∈ as, fits a) ts as rest := by
  cases h with
  | none => exact fun hts => ⟨hts, Nat.le_refl _, nofun⟩
  | some hitems => exact hitems.takes hitem

theorem Lines.takes {L : Phrase Node} (hL : ∀ {ts n rest}, L ts n rest → Tree bound ts n rest) {body : List Node}
    {ts rest : List Token} (h : Lines L ts body rest) : Trees bound ts body rest := by
  induction h with
  | none => exact fun hts => ⟨hts, Nat.le_refl _, nofun⟩
  | blank ht hlines ih =>
      intro hts
      obtain ⟨hrest, hle, hfits⟩ := ih hts.tail
      exact ⟨hrest, Nat.le_succ_of_le hle, hfits⟩
  | statement hstatement ht hlines ih =>
      intro hts
      obtain ⟨hmid, hlt, hn⟩ := hL hstatement hts
      obtain ⟨hrest, hle, hfits⟩ := ih hmid.tail
      refine ⟨hrest, ?_, List.forall_mem_cons.2 ⟨hn, hfits⟩⟩
      rw [List.length_cons] at hlt
      omega
  | last hstatement ht =>
      intro hts
      obtain ⟨hrest, hlt, hn⟩ := hL hstatement hts
      exact ⟨hrest, by omega, List.forall_mem_singleton.2 hn⟩

theorem Body.takes {L : Phrase Node} (hL : ∀ {ts n rest}, L ts n rest → Tree bound ts n rest) {body : List Node}
    {ts rest : List Token} (h : Body L ts body rest) : Trees bound ts body rest := by
  obtain ⟨ht, hlines⟩ := h
  intro hts
  obtain ⟨hrest, hle, hfits⟩ := hlines.takes hL hts.tail
  exact ⟨hrest, Nat.le_succ_of_le hle, hfits⟩

theorem FunctionName.takes {name : Option String} {ts rest : List Token} (h : FunctionName ts name rest) :
    Takes bound 0 (fun _ => True) ts name rest := by
  cases h with
  | anonymous => exact fun hts => ⟨hts, Nat.le_refl _, trivial⟩
  | named ht => exact fun hts => ⟨hts.tail, Nat.le_succ _, trivial⟩

theorem Name.takes {name : String} {ts rest : List Token} (h : Name ts name rest) :
    Takes bound 1 (fun _ => True) ts name rest := by
  cases h with
  | intro ht => exact fun hts => ⟨hts.tail, Nat.le_refl _, trivial⟩

theorem fits_stored (operator : Option BinaryOp) (p : Position) {current value : Node} (hcurrent : current.Fits bound)
    (hvalue : value.Fits bound) : (stored operator p current value).Fits bound := by
  cases operator with
  | none => exact hvalue
  | some op =>
      exact Node.fits_of_children rfl (List.forall_mem_cons.2 ⟨hcurrent, List.forall_mem_singleton.2 hvalue⟩)

/-- An assignment has what its target has inside it, and what it stores. -/
theorem fits_assigned {target value n : Node} {operator : Option BinaryOp} {p : Position} (htarget : target.Fits bound)
    (hvalue : value.Fits bound) (hn : n.length = 0)
    (hchildren : n.children = target.children ++ [stored operator p target value]) : n.Fits bound := by
  refine Node.fits_of_children hn ?_
  rw [hchildren]
  exact List.forall_mem_append.2 ⟨fun c => htarget.child,
    List.forall_mem_singleton.2 (fits_stored operator p htarget hvalue)⟩

variable {n : Node} {ts rest : List Token}

theorem Statement.takes (h : Statement (Tree bound) ts n rest) : Tree bound ts n rest := by
  cases h with
  | expression h => exact h
  | name ht hop hvalue =>
      intro hts
      obtain ⟨hrest, hlt, hfits⟩ := hvalue hts.tail.tail
      have hvar (p : Position) (name : String) : (Node.var p name).Fits bound := Node.fits_of_children rfl nofun
      simp only [List.length_cons]
      exact ⟨hrest, by omega, fits_assigned (hvar _ _) hfits rfl rfl⟩
  | var htarget hop hvalue | item htarget hop hvalue | member htarget hop hvalue =>
      intro hts
      obtain ⟨hmid, hlt, htree⟩ := htarget hts
      obtain ⟨hrest, hlt', hfits⟩ := hvalue hmid.tail
      rw [List.length_cons] at hlt
      exact ⟨hrest, by omega, fits_assigned htree hfits rfl rfl⟩

theorem Branch.takes {p : Position} (h : Branch (Tree bound) p ts n rest) : Tree bound ts n rest := by
  have hbody {ts rest : List Token} {body : List Node} (h : Body (Statement (Tree bound)) ts body rest) :=
    h.takes Statement.takes
  induction h with
  | last htest hb =>
      intro hts
      obtain ⟨hmid, hlt, htest⟩ := htest hts
      obtain ⟨hrest, hle, hb⟩ := hbody hb hmid
      exact ⟨hrest, by omega, Node.fits_of_children rfl (by simpa [Node.children] using ⟨htest, hb⟩)⟩
  | elif htest hb ht hother ih =>
      intro hts
      obtain ⟨hmid, hlt, htest⟩ := htest hts
      obtain ⟨hmid', hle, hb⟩ := hbody hb hmid
      obtain ⟨hrest, hlt', hother⟩ := ih hmid'.tail
      rw [List.length_cons] at hle
      refine ⟨hrest, by omega, Node.fits_of_children rfl ?_⟩
      simpa [Node.children, or_imp, forall_and] using ⟨htest, hb, hother⟩
  | otherwise htest hb ht hothers =>
      intro hts
      obtain ⟨hmid, hlt, htest⟩ := htest hts
      obtain ⟨hmid', hle, hb⟩ := hbody hb hmid
      obtain ⟨hrest, hle', hothers⟩ := hbody hothers hmid'.tail
      rw [List.length_cons] at hle
      refine ⟨hrest, by omega, Node.fits_of_children rfl ?_⟩
      have hblock (p : Position) : (Node.block p _).Fits bound := Node.fits_of_children rfl hothers
      simpa [Node.children, or_imp, forall_and] using ⟨htest, hb, hblock _⟩

theorem Denotes.length_le {t : Token} {value : Literal} (h : Denotes t value) (ht : t.text.length ≤ bound)
    (p : Position) : (Node.literal p value).length ≤ bound := by
  cases h with
  | string _ => exact ht
  | _ => exact Nat.zero_le bound

theorem Primary.takes (h : Primary (Tree bound) ts n rest) : Tree bound ts n rest := by
  have hbody {ts rest : List Token} {body : List Node} (h : Body (Statement (Tree bound)) ts body rest) :=
    h.takes Statement.takes
  cases h with
  | literal hvalue =>
      exact fun hts => ⟨hts.tail, Nat.le_refl _,
        .intro (hvalue.length_le (hts.2 _ List.mem_cons_self) _) nofun⟩
  | var ht => exact fun hts => ⟨hts.tail, Nat.le_refl _, Node.fits_of_children rfl nofun⟩
  | list ht hitems hclose =>
      intro hts
      obtain ⟨hrest, hle, hfits⟩ := hitems.takes id hts.tail
      -- Each item has taken a token, so there are no more of them than tokens, nor than the bound.
      have hcount := hts.1
      simp only [List.length_cons] at hle hcount ⊢
      exact ⟨hrest.tail, by omega, .intro (by show List.length _ ≤ _; omega) hfits⟩
  | group ht hinner hclose =>
      intro hts
      obtain ⟨hrest, hlt, hfits⟩ := hinner hts.tail
      simp only [List.length_cons] at hlt ⊢
      exact ⟨hrest.tail, by omega, hfits⟩
  | block ht hb hclose =>
      intro hts
      obtain ⟨hrest, hle, hfits⟩ := hbody hb hts.tail
      simp only [List.length_cons] at hle ⊢
      exact ⟨hrest.tail, by omega, Node.fits_of_children rfl hfits⟩
  | branch ht hbranch hclose =>
      intro hts
      obtain ⟨hrest, hlt, hfits⟩ := hbranch.takes hts.tail
      simp only [List.length_cons] at hlt ⊢
      exact ⟨hrest.tail, by omega, hfits⟩
  | forEach ht hname hlink hlist hb hclose =>
      intro hts
      obtain ⟨hmid, hlt, hlist⟩ := hlist hts.tail.tail.tail
      obtain ⟨hrest, hle, hfits⟩ := hbody hb hmid
      simp only [List.length_cons] at hle ⊢
      exact ⟨hrest.tail, by omega, Node.fits_of_children rfl (List.forall_mem_cons.2 ⟨hlist, hfits⟩)⟩
  | loop ht htest hb hclose =>
      intro hts
      obtain ⟨hmid, hlt, htest⟩ := htest hts.tail
      obtain ⟨hrest, hle, hfits⟩ := hbody hb hmid
      simp only [List.length_cons] at hle ⊢
      exact ⟨hrest.tail, by omega, Node.fits_of_children rfl (List.forall_mem_cons.2 ⟨htest, hfits⟩)⟩
  | function ht hname hopening hparams hclosing hnodup hb hclose =>
      intro hts
      obtain ⟨hopened, hle, -⟩ := hname.takes hts.tail
      obtain ⟨hclosed, hle', -⟩ := hparams.takes Name.takes hopened.tail
      obtain ⟨hrest, hle'', hfits⟩ := hbody hb hclosed.tail
      simp only [List.length_cons] at hle hle' hle'' ⊢
      exact ⟨hrest.tail, by omega, Node.fits_of_children rfl hfits⟩

theorem Accesses.takes {left : Node} (h : Accesses (Tree bound) left ts n rest) (hleft : left.Fits bound) :
    Takes bound 0 (Node.Fits bound) ts n rest := by
  induction h with
  | done => exact fun hts => ⟨hts, Nat.le_refl _, hleft⟩
  | member ht hname hmore ih =>
      intro hts
      obtain ⟨hrest, hle, hn⟩ := ih (Node.fits_of_children rfl (List.forall_mem_singleton.2 hleft)) hts.tail.tail
      simp only [List.length_cons]
      exact ⟨hrest, by omega, hn⟩
  | call ht hargs hclose hmore ih =>
      intro hts
      obtain ⟨hmid, hle, hfits⟩ := hargs.takes id hts.tail
      obtain ⟨hrest, hle', hn⟩ := ih (Node.fits_of_children rfl (List.forall_mem_cons.2 ⟨hleft, hfits⟩)) hmid.tail
      simp only [List.length_cons] at hle ⊢
      exact ⟨hrest, by omega, hn⟩
  | item ht hindex hclose hmore ih =>
      intro hts
      obtain ⟨hmid, hlt, hfits⟩ := hindex hts.tail
      obtain ⟨hrest, hle, hn⟩ :=
        ih (Node.fits_of_children rfl (by simp [Node.children, hleft, hfits])) hmid.tail
      simp only [List.length_cons] at hlt ⊢
      exact ⟨hrest, by omega, hn⟩

theorem Unary.takes (h : Unary (Tree bound) ts n rest) : Tree bound ts n rest := by
  induction h with
  | operand h =>
      obtain ⟨hprimary, hmore⟩ := h
      intro hts
      obtain ⟨hmid, hlt, hfits⟩ := hprimary.takes hts
      obtain ⟨hrest, hle, hn⟩ := hmore.takes hfits hmid
      exact ⟨hrest, by omega, hn⟩
  | operator hop hoperand ih =>
      intro hts
      obtain ⟨hrest, hlt, hfits⟩ := ih hts.tail
      rw [List.length_cons]
      exact ⟨hrest, by omega, Node.fits_of_children rfl (List.forall_mem_singleton.2 hfits)⟩

theorem fits_binary (p : Position) (op : BinaryOp) {left right : Node} (hleft : left.Fits bound)
    (hright : right.Fits bound) : (Node.binary p op left right).Fits bound :=
  Node.fits_of_children rfl (by simp [Node.children, hleft, hright])

theorem fits_logical (p : Position) (op : LogicalOp) {left right : Node} (hleft : left.Fits bound)
    (hright : right.Fits bound) : (Node.logical p op left right).Fits bound :=
  Node.fits_of_children rfl (by simp [Node.children, hleft, hright])

theorem Term.takes (h : Term (Tree bound) ts n rest) : Tree bound ts n rest := by
  obtain ⟨h⟩ := h
  refine h.takes (fun hfactor => ?_) fits_binary
  obtain ⟨hfactor⟩ := hfactor
  exact hfactor.takes Unary.takes fits_binary

theorem Range.takes (h : Range (Tree bound) ts n rest) : Tree bound ts n rest := by
  cases h with
  | single h => exact h.takes
  | upTo hfirst ht hlast =>
      intro hts
      obtain ⟨hmid, hlt, hfirst⟩ := hfirst.takes hts
      obtain ⟨hrest, hlt', hlast⟩ := hlast.takes hmid.tail
      rw [List.length_cons] at hlt
      exact ⟨hrest, by omega, Node.fits_of_children rfl (by simp [Node.children, hfirst, hlast])⟩
  | stepped hfirst ht hlast hs hstep =>
      intro hts
      obtain ⟨hmid, hlt, hfirst⟩ := hfirst.takes hts
      obtain ⟨hmid', hlt', hlast⟩ := hlast.takes hmid.tail
      obtain ⟨hrest, hlt'', hstep⟩ := hstep.takes hmid'.tail
      rw [List.length_cons] at hlt hlt'
      exact ⟨hrest, by omega, Node.fits_of_children rfl (by simp [Node.children, hfirst, hlast, hstep])⟩

theorem Disjunction.takes (h : Disjunction (Tree bound) ts n rest) : Tree bound ts n rest := by
  obtain ⟨h⟩ := h
  refine h.takes (fun hconjunction => ?_) fits_logical
  obtain ⟨hconjunction⟩ := hconjunction
  refine hconjunction.takes (fun hcomparison => ?_) fits_logical
  obtain ⟨hcomparison⟩ := hcomparison
  exact hcomparison.takes Range.takes fits_binary

end

end Grammar

/-! ### The tokens of a source are small -/

theorem Escaped.length_le {quote : Char} {raw text : List Char} (h : Escaped quote raw text) :
    text.length ≤ raw.length := by
  induction h with
  | nil => exact Nat.le_refl _
  | plain _ _ _ _ ih | escape _ _ ih =>
      simp only [List.length_cons]
      omega

theorem Lexeme.length_le {kind : Token.Kind} {text : String} {raw : List Char} (h : Lexeme kind text raw) :
    text.length ≤ raw.length := by
  rw [← String.length_toList]
  cases h with
  | string hquote h =>
      have hle := h.length_le
      simp only [List.length_append, List.length_cons]
      omega
  | _ => exact Nat.le_refl _

theorem Cut.text_length_le {source : String} {before text rest : List Char} {ts : List Token}
    (h : Cut source before text ts rest) : ∀ t ∈ ts, t.text.length ≤ text.length := by
  induction h with
  | none => exact nofun
  | token _ _ _ hlexeme _ _ _ ih =>
      have hle := hlexeme.length_le
      simp only [List.length_append]
      refine List.forall_mem_cons.2 ⟨by omega, fun t ht => ?_⟩
      have hlater := ih t ht
      omega

namespace Program

open Grammar LineScript.Parser

/-- A source that is a program has no mistake for the lexer, and its tokens are small. -/
theorem exists_small_of_parse {source text : String} {p : Program} (hparse : parse source text = .ok p) :
    ∃ ts, (Lexer.ofSource source text).Yields ts ∧ Small text.length ts := by
  have hcut := Lexer.cut_tokens source [] text.toList
  generalize htokens : Lexer.tokens ⟨text.toList, .past source []⟩ = result at hcut
  obtain ⟨ts, e | l⟩ := result
  · obtain ⟨e', hrejected, -⟩ := parse_of_mistake htokens
    rw [hrejected] at hparse
    cases hparse
  · obtain ⟨words, gap, rfl, hcut, -, -⟩ := hcut
    have hlength := hcut.length_le
    have htexts := hcut.text_length_le
    rw [String.length_toList] at hlength htexts
    refine ⟨_, ⟨l, htokens⟩, ?_, fun t ht => ?_⟩
    · rw [List.length_append, List.length_singleton]
      omega
    · rcases List.mem_append.1 ht with ht | ht
      · exact htexts t ht
      · rw [List.mem_singleton.1 ht]
        exact Nat.zero_le _

/-- The literals and lists of a program are not longer than its source. -/
theorem fits_of_parse {source text : String} {p : Program} (hparse : parse source text = .ok p) :
    ∀ n ∈ p.body, n.Fits text.length := by
  obtain ⟨ts, hlex, hsmall⟩ := exists_small_of_parse hparse
  obtain ⟨-, t, -, hlines⟩ := lines_of_parse hlex hparse Disjunction.takes
  exact (hlines.takes Statement.takes hsmall).2.2

end Program

end LineScript
