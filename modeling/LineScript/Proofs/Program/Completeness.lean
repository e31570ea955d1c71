import LineScript.Program.Parser
import LineScript.Proofs.Program.Soundness
/-!
# What is grammatical the parser accepts

Where the tokens ahead start with a phrase, the function for its rule reads that phrase and nothing else, provided that
what follows cannot continue it. The parser is deterministic, so the tree of a phrase is unique.

The fuel is enough as long as it is no less than the number of tokens ahead.
-/

namespace LineScript.Parser

open Token (Kind)
open Grammar

/-- The parser reads every phrase of the language at the start of fewer than `bound` tokens, if it stops there. -/
def ReadsBelow (bound level : Nat) (p : Parser Node) (L : Phrase Node) : Prop :=
  ∀ ⦃ts n rest⦄, ts.length < bound → L ts n rest → Stops level rest → Reads p ts n rest

/-! ### Chains of operators -/

section

variable {Op : Type} {ops : List (Kind × Op)} {isOp : Kind → Bool} {combine : Token → Node → Node → Parser Node}
  {make : Position → Op → Node → Node → Node} {operand : Parser Node} {Operand : Phrase Node} {bound level : Nat}

/-- What follows the first operand does not continue it: either an operator of the level, or the end of the chain. -/
theorem Operations.stops (hlevel : ∀ {kind op}, (kind, op) ∈ ops → strength kind = level) {left n : Node}
    {ts rest : List Token} (h : Operations ops make Operand left ts n rest) (hstops : Stops level rest) :
    Stops (level + 1) ts := by
  cases h with
  | done => exact hstops.mono (Nat.le_succ level)
  | step hop =>
      rw [stops_cons, hlevel hop]
      exact Nat.lt_succ_self level

theorem reads_chainFrom (hops : Tabulates isOp combine ops make)
    (hlevel : ∀ {kind op}, (kind, op) ∈ ops → strength kind = level)
    (hoperand : ReadsBelow bound (level + 1) operand Operand) (hshortens : ShortensBelow bound Operand) {left n : Node}
    {ts rest : List Token} (h : Operations ops make Operand left ts n rest) (hstops : Stops level rest) {fuel : Nat}
    (hbound : ts.length < bound) (hfuel : ts.length < fuel) :
    Reads (chainFrom isOp combine operand fuel left) ts n rest := by
  induction h generalizing fuel with
  | @done left ts =>
      obtain ⟨fuel, rfl⟩ : ∃ f, fuel = f + 1 := ⟨fuel - 1, by omega⟩
      intro c hsees
      obtain ⟨t, ts, rfl⟩ := hsees.ended.exists_cons
      have hnot : isOp t.kind ≠ true := by
        intro hkind
        obtain ⟨op, hop⟩ := hops.isOp_iff.1 hkind
        rw [stops_cons, hlevel hop] at hstops
        exact absurd hstops (Nat.lt_irrefl level)
      refine (reads_peekKind t ts).bind ?_ c hsees
      rw [if_neg hnot]
      exact .pure left (t :: ts)
  | @step left right n t op ts mid rest hop hright hmore ih =>
      obtain ⟨fuel, rfl⟩ : ∃ f, fuel = f + 1 := ⟨fuel - 1, by omega⟩
      rw [List.length_cons] at hbound hfuel
      have hlt := hshortens (by omega) hright
      have hkind : isOp t.kind = true := hops.isOp_iff.2 ⟨op, hop⟩
      have ht : t.kind ≠ .endOfFile := by
        intro heq
        rw [heq, hops.isOp_endOfFile] at hkind
        cases hkind
      apply (reads_peekKind t ts).bind
      rw [if_pos hkind]
      apply (reads_advance ht).bind
      apply (hoperand (by omega) hright (Operations.stops hlevel hmore hstops)).bind
      rw [hops.combine_of_mem hop, pure_bind]
      exact ih hstops (by omega) (by omega)

theorem reads_chain (hops : Tabulates isOp combine ops make)
    (hlevel : ∀ {kind op}, (kind, op) ∈ ops → strength kind = level)
    (hoperand : ReadsBelow bound (level + 1) operand Operand) (hshortens : ShortensBelow bound Operand) {fuel : Nat}
    (hfuel : bound ≤ fuel + 1) :
    ReadsBelow bound level (chain isOp combine operand fuel) (Chain ops make Operand) := by
  intro ts n rest hbound h hstops
  obtain ⟨hfirst, hmore⟩ := h
  have hlt := hshortens hbound hfirst
  apply (hoperand hbound hfirst (Operations.stops hlevel hmore hstops)).bind
  exact reads_chainFrom hops hlevel hoperand hshortens hmore hstops (by omega) (by omega)

end

/-! ### Statements -/

variable {expression : Parser Node} {bound : Nat}

/-- An expression that starts with a name, behind which no expression goes on, is that name. -/
theorem expression_of_name {c : Cursor} {t u : Token} {ts rest : List Token} {n : Node}
    (he : ReadsBelow bound 1 expression Expression) (hsees : c.Sees (t :: u :: ts))
    (hbound : (t :: u :: ts).length < bound) (ht : t.kind = .identifier) (hu : strength u.kind = 0)
    (h : Expression (t :: u :: ts) n rest) (hstops : Stops 1 rest) :
    n = .var t.position t.text ∧ rest = u :: ts := by
  have hname : Expression (t :: u :: ts) (.var t.position t.text) (u :: ts) :=
    .of_unary (.of_primary (.var ht))
  have hstops' : Stops 1 (u :: ts) := by
    rw [stops_cons, hu]
    exact Nat.zero_lt_one
  exact (he hbound h hstops).unique hsees (he hbound hname hstops')

theorem strength_of_isAssignment {kind : Kind} (h : kind.isAssignment = true) :
    strength kind = 0 ∧ kind ≠ .endOfLine ∧ kind ≠ .endOfFile := by
  revert h
  cases kind <;> decide

/-- The kinds of tokens that end a statement. -/
def endsStatement (t : Token) : Prop :=
  t.kind = .endOfLine ∨ t.kind = .endOfFile

theorem stops_of_endsStatement {t : Token} (ht : endsStatement t) (level : Nat) (rest : List Token) :
    Stops (level + 1) (t :: rest) := by
  rw [stops_cons]
  rcases ht with ht | ht <;> rw [ht] <;> exact Nat.succ_pos level

theorem not_isAssignment_of_endsStatement {t : Token} (ht : endsStatement t) : t.kind.isAssignment = false := by
  rcases ht with ht | ht <;> rw [ht] <;> rfl

theorem reads_variableAssignment (he : ReadsBelow bound 1 expression Expression) {t op : Token}
    {operator : Option BinaryOp} {ts rest : List Token} {value : Node} (ht : t.kind = .identifier)
    (hop : (op.kind, operator) ∈ assignmentOps) (hbound : ts.length < bound) (hvalue : Expression ts value rest)
    (hstops : Stops 1 rest) :
    Reads (variableAssignment expression) (t :: op :: ts)
      (.assign t.position t.text (stored operator op.position (.var t.position t.text) value)) rest := by
  have hassigns := isAssignment_iff.2 ⟨operator, hop⟩
  apply (reads_consume ht (by decide)).bind
  apply (reads_advance (strength_of_isAssignment hassigns).2.2).bind
  apply (he hbound hvalue hstops).bind
  rw [assigned_of_mem hop, pure_bind]
  exact .pure _ rest

theorem reads_sentence (he : ReadsBelow bound 1 expression Expression) {t : Token} {ts rest : List Token} {n : Node}
    (hbound : ts.length < bound) (h : Statement Expression ts n (t :: rest)) (ht : endsStatement t) :
    Reads (sentence expression) ts n (t :: rest) := by
  intro c hsees
  obtain ⟨first, tail, rfl, hstart⟩ := h.starts
  have hne := (ne_of_startsExpression hstart).2.1
  obtain ⟨second, tail, rfl⟩ := (hsees.ended.behind_of_ne hne).2.exists_cons
  have hstops := stops_of_endsStatement ht 0 rest
  refine (reads_peekKind first _).bind ((reads_peekKind_one rfl).bind ?_) c hsees
  by_cases hassigns : first.kind = .identifier ∧ second.kind.isAssignment = true
  · rw [if_pos hassigns]
    -- A name before an assignment is the whole target, whichever rule derives the statement.
    have hname : ∀ {target : Node} {mid : List Token}, Expression (first :: second :: tail) target mid → Stops 1 mid →
        target = .var first.position first.text ∧ mid = second :: tail := fun htarget hmid =>
      expression_of_name he hsees hbound hassigns.1 (strength_of_isAssignment hassigns.2).1 htarget hmid
    have hstops_op : ∀ {op : Token} {operator : Option BinaryOp} {mid : List Token},
        (op.kind, operator) ∈ assignmentOps → Stops 1 (op :: mid) := fun hop => by
      rw [stops_cons, (strength_of_isAssignment (isAssignment_iff.2 ⟨_, hop⟩)).1]
      exact Nat.zero_lt_one
    simp only [List.length_cons] at hbound
    cases h with
    | expression h =>
        obtain ⟨-, hrest⟩ := hname h hstops
        obtain ⟨rfl, -⟩ := List.cons.inj hrest
        rw [not_isAssignment_of_endsStatement ht] at hassigns
        cases hassigns.2
    | name hfirst hop hvalue => exact reads_variableAssignment he hfirst hop (by omega) hvalue hstops
    | var htarget hop hvalue =>
        obtain ⟨heq, hrest⟩ := hname htarget (hstops_op hop)
        cases heq
        cases hrest
        exact reads_variableAssignment he hassigns.1 hop (by omega) hvalue hstops
    | item htarget hop hvalue => cases (hname htarget (hstops_op hop)).1
    | member htarget hop hvalue => cases (hname htarget (hstops_op hop)).1
  · rw [if_neg hassigns]
    cases h with
    | expression h =>
        refine (he hbound h hstops).bind ((reads_peekKind t rest).bind ?_)
        rw [not_isAssignment_of_endsStatement ht, if_neg Bool.false_ne_true]
        exact .pure n (t :: rest)
    | name hfirst hop hvalue => exact absurd ⟨hfirst, isAssignment_iff.2 ⟨_, hop⟩⟩ hassigns
    | @var p x value op operator _ mid _ htarget hop hvalue
    | @item p array index value op operator _ mid _ htarget hop hvalue
    | @member p receiver value x op operator _ mid _ htarget hop hvalue =>
        have hassign := isAssignment_iff.2 ⟨operator, hop⟩
        obtain ⟨hstrength, -, hne⟩ := strength_of_isAssignment hassign
        have hlt := Expression.shortens bound hbound htarget
        rw [List.length_cons] at hlt
        refine (he hbound htarget ?_).bind ((reads_peekKind op mid).bind ?_)
        · rw [stops_cons, hstrength]
          exact Nat.zero_lt_one
        rw [hassign, if_pos rfl]
        apply (reads_advance hne).bind
        apply (he (by omega) hvalue hstops).bind
        simp only [assigned_of_mem hop, pure_bind]
        exact .pure _ (t :: rest)

theorem reads_statement_line (he : ReadsBelow bound 1 expression Expression) {t : Token} {ts rest : List Token}
    {n : Node} (hbound : ts.length < bound) (h : Statement Expression ts n (t :: rest)) (ht : t.kind = .endOfLine) :
    Reads (statement expression) ts n rest := by
  refine (reads_sentence he hbound h (.inl ht)).bind ((reads_peekKind t rest).bind ?_)
  rw [if_pos ht]
  refine (reads_advance ?_).bind (.pure n rest)
  rw [ht]
  decide

theorem reads_statement_last (he : ReadsBelow bound 1 expression Expression) {t : Token} {ts rest : List Token}
    {n : Node} (hbound : ts.length < bound) (h : Statement Expression ts n (t :: rest)) (ht : t.kind = .endOfFile) :
    Reads (statement expression) ts n (t :: rest) := by
  refine (reads_sentence he hbound h (.inr ht)).bind ((reads_peekKind t rest).bind ?_)
  rw [if_neg (by rw [ht]; decide), if_pos ht]
  exact .pure n (t :: rest)

/-! ### Lines -/

section

variable {close : Kind} {others : List Kind}

theorem reads_lines_closed {t : Token} {rest : List Token} (hne : t.kind ≠ .endOfLine)
    (ht : t.kind = close ∨ t.kind ∈ others) (fuel : Nat) :
    Reads (lines expression close others (fuel + 1)) (t :: rest) [] (t :: rest) := by
  apply (reads_peekKind t rest).bind
  rw [if_neg hne, if_pos ht]
  exact .pure [] (t :: rest)

theorem reads_lines_blank {t : Token} {ts rest : List Token} {body : List Node} {fuel : Nat} (ht : t.kind = .endOfLine)
    (hmore : Reads (lines expression close others fuel) ts body rest) :
    Reads (lines expression close others (fuel + 1)) (t :: ts) body rest := by
  apply (reads_peekKind t ts).bind
  rw [if_pos ht]
  refine (reads_advance ?_).bind hmore
  rw [ht]
  decide

/-- No statement starts with a token that closes the lines. -/
theorem reads_lines_statement (hclosers : ∀ kind, kind = close ∨ kind ∈ others → closesLines kind = true)
    {ts mid mid' rest : List Token} {n : Node} {body : List Node} {fuel : Nat} (h : Statement Expression ts n mid)
    (hstatement : Reads (statement expression) ts n mid')
    (hmore : Reads (lines expression close others fuel) mid' body rest) :
    Reads (lines expression close others (fuel + 1)) ts (n :: body) rest := by
  obtain ⟨t, ts, rfl, hstart⟩ := h.starts
  obtain ⟨hline, hfile, hnot⟩ := ne_of_startsExpression hstart
  have hopen : ¬(t.kind = close ∨ t.kind ∈ others) := by
    intro hclose
    rw [hclosers t.kind hclose] at hnot
    cases hnot
  apply (reads_peekKind t ts).bind
  rw [if_neg hline, if_neg hopen, if_neg hfile]
  exact hstatement.bind (hmore.bind (.pure (n :: body) rest))

theorem reads_lines (he : ReadsBelow bound 1 expression Expression)
    (hclosers : ∀ kind, kind = close ∨ kind ∈ others → closesLines kind = true) {ts rest : List Token}
    {body : List Node} (h : Lines (Statement Expression) ts body rest)
    (hrest : ∃ t mid, rest = t :: mid ∧ (t.kind = close ∨ t.kind ∈ others)) {fuel : Nat} (hbound : ts.length < bound)
    (hfuel : ts.length ≤ fuel) : Reads (lines expression close others fuel) ts body rest := by
  have hline : ∀ t : Token, t.kind = close ∨ t.kind ∈ others → t.kind ≠ .endOfLine := by
    intro t ht heq
    have hcloses := hclosers t.kind ht
    rw [heq] at hcloses
    cases hcloses
  have hshortens : ShortensBelow bound (Statement Expression) := Statement.shortens (Expression.shortens bound)
  induction h generalizing fuel with
  | none =>
      obtain ⟨t, mid, rfl, ht⟩ := hrest
      obtain ⟨fuel, rfl⟩ : ∃ f, fuel = f + 1 := ⟨fuel - 1, by rw [List.length_cons] at hfuel; omega⟩
      exact reads_lines_closed (hline t ht) ht fuel
  | blank ht hlines ih =>
      rw [List.length_cons] at hbound hfuel
      obtain ⟨fuel, rfl⟩ : ∃ f, fuel = f + 1 := ⟨fuel - 1, by omega⟩
      exact reads_lines_blank ht (ih hrest (by omega) (by omega))
  | statement hstatement ht hlines ih =>
      have hlt := hshortens hbound hstatement
      rw [List.length_cons] at hlt
      obtain ⟨fuel, rfl⟩ : ∃ f, fuel = f + 1 := ⟨fuel - 1, by omega⟩
      exact reads_lines_statement hclosers hstatement (reads_statement_line he hbound hstatement ht)
        (ih hrest (by omega) (by omega))
  | @last n t ts rest hstatement ht =>
      have hlt := hshortens hbound hstatement
      rw [List.length_cons] at hlt
      obtain ⟨fuel, rfl⟩ : ∃ f, fuel = f + 1 + 1 := ⟨fuel - 2, by omega⟩
      obtain ⟨t', mid, heq, hclose⟩ := hrest
      cases heq
      exact reads_lines_statement hclosers hstatement (reads_statement_last he hbound hstatement ht)
        (reads_lines_closed (hline t hclose) hclose fuel)

theorem reads_body (he : ReadsBelow bound 1 expression Expression)
    (hclosers : ∀ kind, kind = close ∨ kind ∈ others → closesLines kind = true) {ts rest : List Token}
    {statements : List Node} (h : Body (Statement Expression) ts statements rest)
    (hrest : ∃ t mid, rest = t :: mid ∧ (t.kind = close ∨ t.kind ∈ others)) {fuel : Nat} (hbound : ts.length < bound)
    (hfuel : ts.length ≤ fuel) : Reads (body expression close others fuel) ts statements rest := by
  obtain ⟨ht, hlines⟩ := h
  rw [List.length_cons] at hbound hfuel
  apply (reads_consume ht (by decide)).bind
  exact reads_lines he hclosers hlines hrest (by omega) (by omega)

end

/-! ### Blocks -/

theorem stops_body {level : Nat} {ts rest : List Token} {statements : List Node}
    (h : Body (Statement Expression) ts statements rest) : Stops (level + 1) ts := by
  obtain ⟨ht, -⟩ := h
  exact stops_of_endsStatement (.inl ht) level _

/-- A body and the word `end` behind it. -/
theorem reads_body_end (he : ReadsBelow bound 1 expression Expression) {close : Token} {ts rest : List Token}
    {statements : List Node} {α : Type} (f : List Node → α)
    (h : Body (Statement Expression) ts statements (close :: rest)) (hclose : close.kind = .endWord) {fuel : Nat}
    (hbound : ts.length < bound) (hfuel : ts.length ≤ fuel) :
    Reads (do let statements ← body expression .endWord [] fuel
              let _ ← consume .endWord
              return f statements) ts (f statements) rest := by
  refine (reads_body he ?_ h ⟨close, rest, rfl, .inl hclose⟩ hbound hfuel).bind ?_
  · rintro kind (rfl | hmem)
    · rfl
    · cases hmem
  exact (reads_consume hclose (by decide)).bind (.pure (f statements) rest)

theorem closesLines_of_mem {kind : Kind} (h : kind = .endWord ∨ kind ∈ [Kind.elifWord, .elseWord]) :
    closesLines kind = true := by
  simp only [List.mem_cons, List.not_mem_nil, or_false] at h
  rcases h with rfl | rfl | rfl <;> rfl

theorem closesLines_of_eq_end {kind : Kind} (h : kind = .endWord ∨ kind ∈ ([] : List Kind)) :
    closesLines kind = true :=
  closesLines_of_mem (h.imp_right nofun)

/-- A test and its branches, up to the word `end`. The branches behind it start with a word of their own. -/
theorem reads_branch (he : ReadsBelow bound 1 expression Expression) {p : Position} {ts rest : List Token} {n : Node}
    (h : Branch Expression p ts n rest) (hrest : ∃ t mid, rest = t :: mid ∧ t.kind = .endWord) {t : Token} {fuel : Nat}
    (hp : t.position = p) (ht : t.kind ≠ .endOfFile) (hbound : ts.length < bound) (hfuel : ts.length < fuel) :
    Reads (branch expression fuel) (t :: ts) n rest := by
  have hexpr := Expression.shortens bound
  have hbody : ShortensBelow bound (Body (Statement Expression)) := Body.shortens (Statement.shortens hexpr)
  induction h generalizing t fuel with
  | last htest hb =>
      subst hp
      obtain ⟨fuel, rfl⟩ : ∃ f, fuel = f + 1 := ⟨fuel - 1, by omega⟩
      have hlt := hexpr hbound htest
      obtain ⟨u, mid, rfl, hu⟩ := hrest
      refine (reads_advance ht).bind ((he hbound htest (stops_body hb)).bind ?_)
      apply (reads_body he (fun _ => closesLines_of_mem) hb ⟨u, mid, rfl, .inl hu⟩ (by omega) (by omega)).bind
      apply (reads_peekKind u mid).bind
      rw [hu]
      exact .pure _ _
  | @elif p test other statements u ts mid mid' rest htest hb hu hother ih =>
      subst hp
      obtain ⟨fuel, rfl⟩ : ∃ f, fuel = f + 1 := ⟨fuel - 1, by omega⟩
      have hlt := hexpr hbound htest
      have hlt' := hbody (by omega) hb
      rw [List.length_cons] at hlt'
      refine (reads_advance ht).bind ((he hbound htest (stops_body hb)).bind ?_)
      refine (reads_body he (fun _ => closesLines_of_mem) hb ⟨u, mid', rfl, .inr ?_⟩ (by omega) (by omega)).bind ?_
      · rw [hu]
        decide
      apply (reads_peekKind u mid').bind
      rw [hu]
      exact (ih hrest rfl (by rw [hu]; decide) (by omega) (by omega)).bind (.pure _ rest)
  | @otherwise p test statements others u ts mid mid' rest htest hb hu hothers =>
      subst hp
      obtain ⟨fuel, rfl⟩ : ∃ f, fuel = f + 1 := ⟨fuel - 1, by omega⟩
      have hlt := hexpr hbound htest
      have hlt' := hbody (by omega) hb
      rw [List.length_cons] at hlt'
      obtain ⟨v, tail, rfl, hv⟩ := hrest
      refine (reads_advance ht).bind ((he hbound htest (stops_body hb)).bind ?_)
      refine (reads_body he (fun _ => closesLines_of_mem) hb ⟨u, mid', rfl, .inr ?_⟩ (by omega) (by omega)).bind ?_
      · rw [hu]
        decide
      apply (reads_peekKind u mid').bind
      rw [hu]
      apply (reads_advance (by rw [hu]; decide)).bind
      exact (reads_body he (fun _ => closesLines_of_eq_end) hothers ⟨v, tail, rfl, .inl hv⟩ (by omega)
        (by omega)).bind (.pure _ _)

theorem reads_loop (he : ReadsBelow bound 1 expression Expression) {t close : Token} {ts mid rest : List Token}
    {test : Node} {statements : List Node} (ht : t.kind = .forWord) (htest : Expression ts test mid)
    (hb : Body (Statement Expression) mid statements (close :: rest)) (hclose : close.kind = .endWord) {fuel : Nat}
    (hbound : ts.length < bound) (hfuel : ts.length ≤ fuel) :
    Reads (loop expression fuel) (t :: ts) (.loop t.position test statements) rest := by
  have hlt := Expression.shortens bound hbound htest
  have hstops : Stops 1 mid := stops_body hb
  intro c hsees
  refine (reads_consume ht (by decide)).bind ?_ c hsees
  intro c₁ hsees₁
  obtain ⟨first, tail, rfl, hstart⟩ := htest.starts
  obtain ⟨second, tail, rfl⟩ := (hsees₁.ended.behind_of_ne (ne_of_startsExpression hstart).2.1).2.exists_cons
  -- A name before `=` or `in` would be the whole test, but the end of a line follows the test.
  have hnot : ¬(first.kind = .identifier ∧ (second.kind = .assign ∨ second.kind = .inWord)) := by
    rintro ⟨hfirst, hsecond⟩
    have hzero : strength second.kind = 0 := by
      rcases hsecond with h | h <;> rw [h] <;> rfl
    obtain ⟨-, rfl⟩ := expression_of_name he hsees₁ hbound hfirst hzero htest hstops
    obtain ⟨hline, -⟩ := hb
    rw [hline] at hsecond
    rcases hsecond with h | h <;> cases h
  refine (reads_peekKind first _).bind ((reads_peekKind_one rfl).bind ?_) c₁ hsees₁
  rw [if_neg hnot]
  apply (he hbound htest hstops).bind
  exact reads_body_end he (fun statements => Node.loop t.position test statements) hb hclose (by omega) (by omega)

theorem reads_forEach (he : ReadsBelow bound 1 expression Expression) {t name link close : Token}
    {ts mid rest : List Token} {list : Node} {statements : List Node} (ht : t.kind = .forWord)
    (hname : name.kind = .identifier) (hlink : link.kind = .assign ∨ link.kind = .inWord)
    (hlist : Expression ts list mid) (hb : Body (Statement Expression) mid statements (close :: rest))
    (hclose : close.kind = .endWord) {fuel : Nat} (hbound : ts.length < bound) (hfuel : ts.length ≤ fuel) :
    Reads (loop expression fuel) (t :: name :: link :: ts) (.forEach t.position name.text list statements) rest := by
  have hlt := Expression.shortens bound hbound hlist
  have hne : link.kind ≠ .endOfFile := by
    rcases hlink with h | h <;> rw [h] <;> decide
  apply (reads_consume ht (by decide)).bind
  refine (reads_peekKind name _).bind ((reads_peekKind_one rfl).bind ?_)
  rw [if_pos ⟨hname, hlink⟩]
  refine (reads_advance (by rw [hname]; decide)).bind ((reads_advance hne).bind ?_)
  apply (he hbound hlist (stops_body hb)).bind
  exact reads_body_end he (fun statements => Node.forEach t.position name.text list statements) hb hclose (by omega)
    (by omega)

/-! ### Functions -/

theorem reads_paramsFrom {names earlier : List String} {ts rest : List Token} (h : Separated Name ts names rest)
    (hrest : ∃ t mid, rest = t :: mid ∧ t.kind = .parenRight) (hnodup : names.Nodup)
    (hearlier : ∀ x ∈ names, x ∉ earlier) {fuel : Nat} (hfuel : ts.length ≤ fuel) :
    Reads (paramsFrom earlier fuel) ts names rest := by
  induction h generalizing earlier fuel with
  | one hname =>
      obtain ⟨ht⟩ := hname
      rw [List.length_cons] at hfuel
      obtain ⟨fuel, rfl⟩ : ∃ f, fuel = f + 1 := ⟨fuel - 1, by omega⟩
      obtain ⟨u, mid, rfl, hu⟩ := hrest
      apply (reads_consume ht (by decide)).bind
      rw [if_neg (hearlier _ List.mem_cons_self)]
      apply (reads_peekKind u mid).bind
      rw [if_neg (by rw [hu]; decide)]
      exact .pure _ _
  | more hname hcomma hmore ih =>
      obtain ⟨ht⟩ := hname
      simp only [List.length_cons] at hfuel
      obtain ⟨fuel, rfl⟩ : ∃ f, fuel = f + 1 := ⟨fuel - 1, by omega⟩
      obtain ⟨hnew, hnodup⟩ := List.nodup_cons.1 hnodup
      apply (reads_consume ht (by decide)).bind
      rw [if_neg (hearlier _ List.mem_cons_self)]
      apply (reads_peekKind _ _).bind
      rw [if_pos hcomma]
      apply (reads_advance (by rw [hcomma]; decide)).bind
      refine (ih hrest hnodup ?_ (by omega)).bind (.pure _ _)
      intro x hx hmem
      rcases List.mem_cons.1 hmem with rfl | hmem
      · exact hnew hx
      · exact hearlier x (List.mem_cons_of_mem _ hx) hmem

theorem reads_paramNames {names : List String} {ts rest : List Token} (h : Listed Name ts names rest)
    (hrest : ∃ t mid, rest = t :: mid ∧ t.kind = .parenRight) (hnodup : names.Nodup) {fuel : Nat}
    (hfuel : ts.length ≤ fuel) : Reads (paramNames fuel) ts names rest := by
  cases h with
  | none =>
      obtain ⟨t, mid, rfl, ht⟩ := hrest
      apply (reads_peekKind t mid).bind
      rw [if_pos ht]
      exact .pure _ _
  | some hnames =>
      have hname : ∃ t mid, ts = t :: mid ∧ t.kind = .identifier := by
        cases hnames with
        | one h | more h =>
            obtain ⟨ht⟩ := h
            exact ⟨_, _, rfl, ht⟩
      obtain ⟨t, mid, rfl, ht⟩ := hname
      apply (reads_peekKind t mid).bind
      rw [if_neg (by rw [ht]; decide)]
      exact reads_paramsFrom hnames hrest hnodup (fun _ _ => List.not_mem_nil) hfuel

theorem reads_functionName {name : Option String} {ts rest : List Token} (h : FunctionName ts name rest)
    (hrest : ∃ t mid, rest = t :: mid ∧ t.kind = .parenLeft) : Reads functionName ts name rest := by
  cases h with
  | anonymous =>
      obtain ⟨t, mid, rfl, ht⟩ := hrest
      apply (reads_peekKind t mid).bind
      rw [if_neg (by rw [ht]; decide)]
      exact .pure _ _
  | named ht =>
      apply (reads_peekKind _ _).bind
      rw [if_pos ht]
      exact (reads_advance (by rw [ht]; decide)).bind (.pure _ _)

theorem reads_function (he : ReadsBelow bound 1 expression Expression) {t opening closing close : Token}
    {ts mid mid' rest : List Token} {name : Option String} {names : List String} {statements : List Node}
    (ht : t.kind = .funcWord) (hname : FunctionName ts name (opening :: mid)) (hopening : opening.kind = .parenLeft)
    (hnames : Listed Name mid names (closing :: mid')) (hclosing : closing.kind = .parenRight) (hnodup : names.Nodup)
    (hb : Body (Statement Expression) mid' statements (close :: rest)) (hclose : close.kind = .endWord) {fuel : Nat}
    (hbound : ts.length < bound) (hfuel : ts.length ≤ fuel) :
    Reads (function expression fuel) (t :: ts) (.function t.position name names statements) rest := by
  have hopened := hname.length_le
  rw [List.length_cons] at hopened
  have hshortens : ShortensBelow bound Name := Name.shortens
  have hle := hnames.length_le hshortens (by omega)
  rw [List.length_cons] at hle
  have hparams : Reads (params fuel) (opening :: mid) names mid' := by
    apply (reads_consume hopening (by decide)).bind
    apply (reads_paramNames hnames ⟨closing, mid', rfl, hclosing⟩ hnodup (by omega)).bind
    exact (reads_consume hclosing (by decide)).bind (.pure _ _)
  apply (reads_consume ht (by decide)).bind
  refine (reads_functionName hname ⟨opening, mid, rfl, hopening⟩).bind (hparams.bind ?_)
  exact reads_body_end he (fun statements => Node.function t.position name names statements) hb hclose (by omega)
    (by omega)

/-! ### Lists, members, calls and indices -/

section

variable {close : Kind}

/-- What may stand behind an item of a list: another item or the end of the list. -/
theorem stops_of_eq {level : Nat} {t : Token} {kind : Kind} (ht : t.kind = kind) (hkind : strength kind = 0)
    (rest : List Token) : Stops (level + 1) (t :: rest) := by
  rw [stops_cons, ht, hkind]
  exact Nat.succ_pos level

theorem reads_itemsFrom (he : ReadsBelow bound 1 expression Expression) (hclose : strength close = 0)
    (hcomma : close ≠ .comma) (hend : close ≠ .endOfFile) {ts rest : List Token} {nodes : List Node}
    (h : Separated Expression ts nodes rest) {t : Token} {mid : List Token} (hrest : rest = t :: mid)
    (ht : t.kind = close) {fuel : Nat} (hbound : ts.length < bound) (hfuel : ts.length ≤ fuel) :
    Reads (itemsFrom expression close fuel) ts nodes mid := by
  induction h generalizing fuel with
  | one hitem =>
      subst hrest
      have hlt := Expression.shortens bound hbound hitem
      obtain ⟨fuel, rfl⟩ : ∃ f, fuel = f + 1 := ⟨fuel - 1, by omega⟩
      refine (he hbound hitem (stops_of_eq ht hclose mid)).bind ((reads_peekKind t mid).bind ?_)
      rw [if_neg (by rw [ht]; exact hcomma), if_pos ht]
      exact (reads_advance (by rw [ht]; exact hend)).bind (.pure _ _)
  | more hitem hu hmore ih =>
      have hlt := Expression.shortens bound hbound hitem
      rw [List.length_cons] at hlt
      obtain ⟨fuel, rfl⟩ : ∃ f, fuel = f + 1 := ⟨fuel - 1, by omega⟩
      refine (he hbound hitem (stops_of_eq hu rfl _)).bind ((reads_peekKind _ _).bind ?_)
      rw [if_pos hu]
      apply (reads_advance (by rw [hu]; decide)).bind
      exact (ih hrest (by omega) (by omega)).bind (.pure _ _)

theorem reads_items (he : ReadsBelow bound 1 expression Expression) (hclose : strength close = 0)
    (hcomma : close ≠ .comma) (hend : close ≠ .endOfFile) (hstart : startsExpression close = false)
    {t : Token} {ts rest : List Token} {nodes : List Node} (h : Listed Expression ts nodes (t :: rest))
    (ht : t.kind = close) {fuel : Nat} (hbound : ts.length < bound) (hfuel : ts.length ≤ fuel) :
    Reads (items expression close fuel) ts nodes rest := by
  cases h with
  | none =>
      apply (reads_peekKind t rest).bind
      rw [if_pos ht]
      exact (reads_advance (by rw [ht]; exact hend)).bind (.pure _ _)
  | some hitems =>
      have hfirst : ∃ u mid, ts = u :: mid ∧ startsExpression u.kind = true := by
        cases hitems with
        | one h | more h => exact h.starts
      obtain ⟨u, mid, rfl, hu⟩ := hfirst
      have hne : u.kind ≠ close := by
        intro heq
        rw [heq, hstart] at hu
        cases hu
      apply (reads_peekKind u mid).bind
      rw [if_neg hne]
      exact reads_itemsFrom he hclose hcomma hend hitems rfl ht hbound hfuel

end

theorem reads_postfixFrom (he : ReadsBelow bound 1 expression Expression) {left n : Node} {ts rest : List Token}
    (h : Accesses Expression left ts n rest) (hstops : Stops 7 rest) {fuel : Nat} (hbound : ts.length < bound)
    (hfuel : ts.length < fuel) : Reads (postfixFrom expression fuel left) ts n rest := by
  have hexpr := Expression.shortens bound
  induction h generalizing fuel with
  | @done left ts =>
      obtain ⟨fuel, rfl⟩ : ∃ f, fuel = f + 1 := ⟨fuel - 1, by omega⟩
      intro c hsees
      obtain ⟨t, ts, rfl⟩ := hsees.ended.exists_cons
      rw [stops_cons] at hstops
      refine (reads_peekKind t ts).bind ?_ c hsees
      generalize t.kind = kind at hstops ⊢
      split
      next => exact absurd hstops (by decide)
      next => exact absurd hstops (by decide)
      next => exact absurd hstops (by decide)
      next => exact .pure _ _
  | member ht hname hmore ih =>
      simp only [List.length_cons] at hbound hfuel
      obtain ⟨fuel, rfl⟩ : ∃ f, fuel = f + 1 := ⟨fuel - 1, by omega⟩
      apply (reads_peekKind _ _).bind
      rw [ht]
      refine (reads_advance (by rw [ht]; decide)).bind ((reads_consume hname (by decide)).bind ?_)
      exact ih hstops (by omega) (by omega)
  | call ht hargs hclose hmore ih =>
      rw [List.length_cons] at hbound hfuel
      obtain ⟨fuel, rfl⟩ : ∃ f, fuel = f + 1 := ⟨fuel - 1, by omega⟩
      have hle := hargs.length_le hexpr (by omega)
      rw [List.length_cons] at hle
      apply (reads_peekKind _ _).bind
      rw [ht]
      apply (reads_advance (by rw [ht]; decide)).bind
      apply (reads_items he rfl (by decide) (by decide) rfl hargs hclose (by omega) (by omega)).bind
      exact ih hstops (by omega) (by omega)
  | item ht hindex hclose hmore ih =>
      rw [List.length_cons] at hbound hfuel
      obtain ⟨fuel, rfl⟩ : ∃ f, fuel = f + 1 := ⟨fuel - 1, by omega⟩
      have hlt := hexpr (by omega) hindex
      rw [List.length_cons] at hlt
      apply (reads_peekKind _ _).bind
      rw [ht]
      apply (reads_advance (by rw [ht]; decide)).bind
      apply (he (by omega) hindex (stops_of_eq hclose rfl _)).bind
      exact (reads_consume hclose (by decide)).bind (ih hstops (by omega) (by omega))

/-! ### Expressions -/

theorem reads_literal {t : Token} {value : Literal} {rest : List Token} (h : Denotes t value) :
    Reads literal (t :: rest) (.literal t.position value) rest := by
  cases h with
  | none ht | true ht | false ht | string ht =>
      apply (reads_advance (by rw [ht]; decide)).bind
      rw [ht]
      exact .pure _ _
  | number ht hn =>
      apply (reads_advance (by rw [ht]; decide)).bind
      rw [ht]
      dsimp only
      rw [hn]
      exact .pure _ _

/-- A primary expression starts with a token of its own, so it may be one token longer than the expressions that the
parser is known to read. -/
theorem reads_primary (he : ReadsBelow bound 1 expression Expression) {ts rest : List Token} {n : Node}
    (h : Primary Expression ts n rest) {fuel : Nat} (hbound : ts.length ≤ bound) (hfuel : ts.length ≤ fuel) :
    Reads (primary expression fuel) ts n rest := by
  have hexpr := Expression.shortens bound
  cases h with
  | literal hvalue =>
      apply (reads_peekKind _ _).bind
      have hliteral : Reads literal (_ :: rest) _ rest := reads_literal hvalue
      cases hvalue with
      | none ht | true ht | false ht | string ht | number ht =>
          rw [if_pos (by rw [ht]; rfl)]
          exact hliteral
  | var ht =>
      apply (reads_peekKind _ _).bind
      rw [ht]
      exact (reads_advance (by rw [ht]; decide)).bind (.pure _ _)
  | list ht hitems hclose =>
      rw [List.length_cons] at hbound hfuel
      apply (reads_peekKind _ _).bind
      rw [ht]
      apply (reads_advance (by rw [ht]; decide)).bind
      exact (reads_items he rfl (by decide) (by decide) rfl hitems hclose (by omega) (by omega)).bind (.pure _ _)
  | group ht hinner hclose =>
      rw [List.length_cons] at hbound hfuel
      apply (reads_peekKind _ _).bind
      rw [ht]
      apply (reads_advance (by rw [ht]; decide)).bind
      apply (he (by omega) hinner (stops_of_eq hclose rfl _)).bind
      exact (reads_consume hclose (by decide)).bind (.pure _ _)
  | block ht hb hclose =>
      rw [List.length_cons] at hbound hfuel
      apply (reads_peekKind _ _).bind
      rw [ht]
      apply (reads_consume ht (by decide)).bind
      exact reads_body_end he (fun statements => Node.block _ statements) hb hclose (by omega) (by omega)
  | branch ht hbranch hclose =>
      rw [List.length_cons] at hbound hfuel
      apply (reads_peekKind _ _).bind
      rw [ht]
      apply (reads_branch he hbranch ⟨_, _, rfl, hclose⟩ rfl (by rw [ht]; decide) (by omega) (by omega)).bind
      exact (reads_consume hclose (by decide)).bind (.pure _ _)
  | forEach ht hname hlink hlist hb hclose =>
      simp only [List.length_cons] at hbound hfuel
      apply (reads_peekKind _ _).bind
      rw [ht]
      exact reads_forEach he ht hname hlink hlist hb hclose (by omega) (by omega)
  | loop ht htest hb hclose =>
      rw [List.length_cons] at hbound hfuel
      apply (reads_peekKind _ _).bind
      rw [ht]
      exact reads_loop he ht htest hb hclose (by omega) (by omega)
  | function ht hname hopening hparams hclosing hnodup hb hclose =>
      rw [List.length_cons] at hbound hfuel
      apply (reads_peekKind _ _).bind
      rw [ht]
      exact reads_function he ht hname hopening hparams hclosing hnodup hb hclose (by omega) (by omega)

theorem reads_postfixed (he : ReadsBelow bound 1 expression Expression) {fuel : Nat} (hfuel : bound ≤ fuel) :
    ReadsBelow (bound + 1) 7 (postfixed expression fuel) (Access Expression) := by
  intro ts n rest hbound h hstops
  obtain ⟨hprimary, hmore⟩ := h
  have hlt := Primary.shortens (Expression.shortens bound) hbound hprimary
  apply (reads_primary he hprimary (by omega) (by omega)).bind
  exact reads_postfixFrom he hmore hstops (by omega) (by omega)

theorem not_isUnaryOperator_of_startsPrimary {kind : Kind} (h : startsPrimary kind = true) :
    ¬ kind.isUnaryOperator = true := by
  revert h
  cases kind <;> decide

theorem reads_unary {operand : Parser Node} (hoperand : ReadsBelow (bound + 1) 7 operand (Access Expression))
    {fuel : Nat} (hfuel : bound ≤ fuel) : ReadsBelow (bound + 1) 7 (unary operand fuel) (Unary Expression) := by
  intro ts n rest hbound h hstops
  have hlength : ts.length ≤ fuel := by omega
  clear hfuel
  induction h generalizing fuel with
  | operand haccess =>
      have hread := hoperand hbound haccess hstops
      obtain ⟨hprimary, -⟩ := haccess
      obtain ⟨t, tail, rfl, hstart⟩ := hprimary.starts
      rw [List.length_cons] at hlength
      obtain ⟨fuel, rfl⟩ : ∃ f, fuel = f + 1 := ⟨fuel - 1, by omega⟩
      apply (reads_peekKind t tail).bind
      rw [if_neg (not_isUnaryOperator_of_startsPrimary hstart)]
      exact hread
  | @operator n t op ts rest hop hinner ih =>
      rw [List.length_cons] at hbound hlength
      obtain ⟨fuel, rfl⟩ : ∃ f, fuel = f + 1 := ⟨fuel - 1, by omega⟩
      have hkind := isUnaryOperator_iff.2 ⟨op, hop⟩
      have ht : t.kind ≠ .endOfFile := by
        intro heq
        rw [heq] at hkind
        cases hkind
      apply (reads_peekKind t ts).bind
      rw [if_pos hkind]
      apply (reads_advance ht).bind
      apply (ih (by omega) hstops (by omega)).bind
      rw [unaryOp_of_mem hop, pure_bind]
      exact .pure _ _

theorem reads_range {term : Parser Node} (hterm : ReadsBelow (bound + 1) 5 term (Term Expression)) :
    ReadsBelow (bound + 1) 4 (range term) (Range Expression) := by
  intro ts n rest hbound h hstops
  have hshortens := Term.shortens (Expression.shortens bound)
  have hstops' : Stops 5 rest := hstops.mono (by decide)
  -- Neither `to` nor `step` goes on behind the phrase.
  have hword : ∀ {t : Token} {tail : List Token}, rest = t :: tail → t.kind ≠ .toWord ∧ t.kind ≠ .stepWord := by
    rintro t tail rfl
    rw [stops_cons] at hstops
    constructor <;> intro heq <;> rw [heq] at hstops <;> exact absurd hstops (by decide)
  have hbefore : ∀ {t : Token} {tail : List Token}, t.kind = .toWord ∨ t.kind = .stepWord → Stops 5 (t :: tail) := by
    intro t tail ht
    rw [stops_cons]
    rcases ht with ht | ht <;> rw [ht] <;> decide
  cases h with
  | single hfirst =>
      intro c hsees
      refine (hterm hbound hfirst hstops').bind ?_ c hsees
      intro c₁ hsees₁
      obtain ⟨t, tail, rfl⟩ := hsees₁.ended.exists_cons
      refine (reads_peekKind t tail).bind ?_ c₁ hsees₁
      rw [if_neg (hword rfl).1]
      exact .pure _ _
  | upTo hfirst ht hlast =>
      have hlt := hshortens hbound hfirst
      rw [List.length_cons] at hlt
      refine (hterm hbound hfirst (hbefore (.inl ht))).bind ((reads_peekKind _ _).bind ?_)
      rw [if_pos ht]
      refine (reads_advance (by rw [ht]; decide)).bind ((hterm (by omega) hlast hstops').bind ?_)
      intro c₁ hsees₁
      obtain ⟨u, tail, rfl⟩ := hsees₁.ended.exists_cons
      refine (reads_peekKind u tail).bind ?_ c₁ hsees₁
      rw [if_neg (hword rfl).2]
      exact .pure _ _
  | stepped hfirst ht hlast hs hstep =>
      have hlt := hshortens hbound hfirst
      rw [List.length_cons] at hlt
      have hlt' := hshortens (by omega) hlast
      rw [List.length_cons] at hlt'
      refine (hterm hbound hfirst (hbefore (.inl ht))).bind ((reads_peekKind _ _).bind ?_)
      rw [if_pos ht]
      refine (reads_advance (by rw [ht]; decide)).bind ((hterm (by omega) hlast (hbefore (.inr hs))).bind ?_)
      apply (reads_peekKind _ _).bind
      rw [if_pos hs]
      exact (reads_advance (by rw [hs]; decide)).bind ((hterm (by omega) hstep hstops').bind (.pure _ _))

theorem strength_of_mem {Op : Type} {ops : List (Kind × Op)} {level : Nat}
    (hall : ∀ entry ∈ ops, strength entry.1 = level) {kind : Kind} {op : Op} (h : (kind, op) ∈ ops) :
    strength kind = level :=
  hall (kind, op) h

theorem ReadsBelow.mono {level : Nat} {p : Parser Node} {L M : Phrase Node} (h : ReadsBelow bound level p L)
    (hML : ∀ {ts n rest}, M ts n rest → L ts n rest) : ReadsBelow bound level p M :=
  fun _ _ _ hbound hphrase hstops => h hbound (hML hphrase) hstops

theorem reads_disjunction (he : ReadsBelow bound 1 expression Expression) {fuel : Nat} (hfuel : bound ≤ fuel) :
    ReadsBelow (bound + 1) 1 (disjunction expression fuel) (Disjunction Expression) := by
  have hexpr := Expression.shortens bound
  have hunary := reads_unary (reads_postfixed he hfuel) hfuel
  have hfactor : ReadsBelow (bound + 1) 6 (factor expression fuel) (Factor Expression) :=
    (reads_chain tabulates_factor (strength_of_mem (by decide)) hunary (Unary.shortens hexpr) (by omega)).mono
      fun ⟨h⟩ => h
  have hterm : ReadsBelow (bound + 1) 5 (term expression fuel) (Term Expression) :=
    (reads_chain tabulates_term (strength_of_mem (by decide)) hfactor (Factor.shortens hexpr) (by omega)).mono
      fun ⟨h⟩ => h
  have hcomparison : ReadsBelow (bound + 1) 3 (comparison expression fuel) (Comparison Expression) :=
    (reads_chain tabulates_comparison (strength_of_mem (by decide)) (reads_range hterm) (Range.shortens hexpr)
      (by omega)).mono fun ⟨h⟩ => h
  have hconjunction : ReadsBelow (bound + 1) 2 (conjunction expression fuel) (Conjunction Expression) :=
    (reads_chain (tabulates_logical (by decide) .and) (strength_of_mem (by decide)) hcomparison
      (Comparison.shortens hexpr) (by omega)).mono fun ⟨h⟩ => h
  exact (reads_chain (tabulates_logical (by decide) .or) (strength_of_mem (by decide)) hconjunction
    (Conjunction.shortens hexpr) (by omega)).mono fun ⟨h⟩ => h

theorem reads_expression (fuel : Nat) : ReadsBelow fuel 1 (Parser.expression fuel) Expression := by
  induction fuel with
  | zero =>
      intro ts n rest hbound h hstops
      exact absurd hbound (Nat.not_lt_zero _)
  | succ fuel ih => exact (reads_disjunction ih (Nat.le_refl fuel)).mono fun ⟨h⟩ => h

end LineScript.Parser
