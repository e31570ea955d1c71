import LineScript.Program.Parser
import LineScript.Proofs.Program.Grammar
/-!
# What the parser accepts is grammatical

One lemma for each function of the parser: what it returns is the tree of a phrase of its rule. Each takes the soundness
of the parser for expressions as an assumption, and the last one discharges it by induction on the fuel.
-/

namespace LineScript.Parser

open Token (Kind)
open Grammar

/-! ### Tables of operators -/

/-- The parser and the grammar have the same operators on a level and the same trees for them. -/
structure Tabulates {Op : Type} (isOp : Kind → Bool) (combine : Token → Node → Node → Parser Node)
    (ops : List (Kind × Op)) (make : Position → Op → Node → Node → Node) : Prop where
  isOp_iff : ∀ {kind}, isOp kind = true ↔ ∃ op, (kind, op) ∈ ops
  isOp_endOfFile : isOp .endOfFile = false
  combine_of_mem : ∀ {t : Token} {op : Op}, (t.kind, op) ∈ ops → ∀ left right,
    combine t left right = pure (make t.position op left right)

theorem tabulates_binary {isOp : Kind → Bool} {ops : List (Kind × BinaryOp)}
    (hiff : ∀ {kind}, isOp kind = true ↔ ∃ op, (kind, op) ∈ ops) (hend : isOp .endOfFile = false)
    (hops : ∀ entry ∈ ops, binaryOp entry.1 = pure entry.2) : Tabulates isOp binary ops .binary where
  isOp_iff := hiff
  isOp_endOfFile := hend
  combine_of_mem hmem left right := by
    have hop : binaryOp _ = pure _ := hops _ hmem
    simp only [binary, hop, pure_bind]

theorem tabulates_factor : Tabulates Kind.isFactorOperator binary factorOps .binary :=
  tabulates_binary (fun {kind} => by cases kind <;> simp [factorOps, Kind.isFactorOperator]) rfl
    (by simp [factorOps, binaryOp])

theorem tabulates_term : Tabulates Kind.isTermOperator binary termOps .binary :=
  tabulates_binary (fun {kind} => by cases kind <;> simp [termOps, Kind.isTermOperator]) rfl
    (by simp [termOps, binaryOp])

theorem tabulates_comparison : Tabulates Kind.isComparison binary comparisonOps .binary :=
  tabulates_binary (fun {kind} => by cases kind <;> simp [comparisonOps, Kind.isComparison]) rfl
    (by simp [comparisonOps, binaryOp])

theorem tabulates_logical {word : Kind} (hword : word ≠ .endOfFile) (op : LogicalOp) :
    Tabulates (· == word) (logical op) [(word, op)] .logical where
  isOp_iff := by simp
  isOp_endOfFile := by simpa using hword.symm
  combine_of_mem hmem left right := by
    obtain ⟨-, rfl⟩ := Prod.mk.inj (List.mem_singleton.1 hmem)
    rfl

theorem isUnaryOperator_iff {kind : Kind} : kind.isUnaryOperator = true ↔ ∃ op, (kind, op) ∈ unaryOps := by
  cases kind <;> simp [unaryOps, Kind.isUnaryOperator]

theorem unaryOp_of_mem {kind : Kind} {op : UnaryOp} (hmem : (kind, op) ∈ unaryOps) : unaryOp kind = pure op := by
  have hops : ∀ entry ∈ unaryOps, unaryOp entry.1 = pure entry.2 := by simp [unaryOps, unaryOp]
  exact hops _ hmem

theorem isAssignment_iff {kind : Kind} :
    kind.isAssignment = true ↔ ∃ operator, (kind, operator) ∈ assignmentOps := by
  cases kind <;> simp [assignmentOps, Kind.isAssignment, Kind.compoundOperator?]

theorem assigned_of_mem {op : Token} {operator : Option BinaryOp} (hmem : (op.kind, operator) ∈ assignmentOps)
    (current value : Node) : assigned op current value = pure (stored operator op.position current value) := by
  simp only [assignmentOps, List.mem_cons, Prod.mk.injEq, List.not_mem_nil, or_false] at hmem
  rcases hmem with ⟨hkind, rfl⟩ | ⟨hkind, rfl⟩ | ⟨hkind, rfl⟩ | ⟨hkind, rfl⟩ | ⟨hkind, rfl⟩ <;>
    simp only [assigned, hkind] <;> rfl

/-! ### Chains of operators -/

section

variable {Op : Type} {ops : List (Kind × Op)} {isOp : Kind → Bool} {combine : Token → Node → Node → Parser Node}
  {make : Position → Op → Node → Node → Node} {operand : Parser Node} {Operand : Phrase Node}

theorem chainFrom_sound (hops : Tabulates isOp combine ops make) (hoperand : Sound operand Operand) (fuel : Nat)
    (left : Node) : Sound (chainFrom isOp combine operand fuel left) (Operations ops make Operand left) := by
  induction fuel generalizing left with
  | zero => exact sound_exhausted
  | succ fuel ih =>
      intro c ts n c' hsees hrun
      obtain ⟨t, ts, rfl⟩ := hsees.ended.exists_cons
      obtain ⟨c₁, hsees₁, hrun⟩ := (reads_peekKind t ts).step hsees hrun
      split at hrun
      next hkind =>
        have ht : t.kind ≠ .endOfFile := by
          intro heq
          rw [heq, hops.isOp_endOfFile] at hkind
          cases hkind
        obtain ⟨op, hop⟩ := hops.isOp_iff.1 hkind
        obtain ⟨c₂, hsees₂, hrun⟩ := (reads_advance ht).step hsees₁ hrun
        obtain ⟨right, mid, c₃, hright, hsees₃, hrun⟩ := hoperand.step hsees₂ hrun
        rw [hops.combine_of_mem hop, pure_bind] at hrun
        obtain ⟨rest, hsees₄, hmore⟩ := ih _ c₃ mid n c' hsees₃ hrun
        exact ⟨rest, hsees₄, .step hop hright hmore⟩
      next =>
        cases hrun
        exact ⟨t :: ts, hsees₁, .done⟩

theorem chain_sound (hops : Tabulates isOp combine ops make) (hoperand : Sound operand Operand) (fuel : Nat) :
    Sound (chain isOp combine operand fuel) (Chain ops make Operand) := by
  intro c ts n c' hsees hrun
  obtain ⟨first, mid, c₁, hfirst, hsees₁, hrun⟩ := hoperand.step hsees hrun
  obtain ⟨rest, hsees₂, hmore⟩ := chainFrom_sound hops hoperand fuel first c₁ mid n c' hsees₁ hrun
  exact ⟨rest, hsees₂, .intro hfirst hmore⟩

end

variable {expression : Parser Node} {Expr : Phrase Node}

/-! ### Statements -/

theorem variableAssignment_sound (he : Sound expression Expr) {c c' : Cursor} {t op : Token} {ts : List Token}
    {n : Node} (hsees : c.Sees (t :: op :: ts)) (ht : t.kind = .identifier) (hop : op.kind.isAssignment = true)
    (hrun : variableAssignment expression c = .ok (n, c')) :
    ∃ rest, c'.Sees rest ∧ Statement Expr (t :: op :: ts) n rest := by
  have hne : op.kind ≠ .endOfFile := by
    intro heq
    rw [heq] at hop
    cases hop
  obtain ⟨c₁, hsees₁, hrun⟩ := (reads_consume ht (by decide)).step hsees hrun
  obtain ⟨c₂, hsees₂, hrun⟩ := (reads_advance hne).step hsees₁ hrun
  obtain ⟨value, rest, c₃, hvalue, hsees₃, hrun⟩ := he.step hsees₂ hrun
  obtain ⟨operator, hmem⟩ := isAssignment_iff.1 hop
  rw [assigned_of_mem hmem, pure_bind] at hrun
  cases hrun
  exact ⟨rest, hsees₃, .name ht hmem hvalue⟩

theorem targetAssignment_sound (he : Sound expression Expr) {c c' : Cursor} {op : Token} {ts mid : List Token}
    {target n : Node} (htarget : Expr ts target (op :: mid)) (hsees : c.Sees (op :: mid))
    (hop : op.kind.isAssignment = true) (hrun : targetAssignment expression target c = .ok (n, c')) :
    ∃ rest, c'.Sees rest ∧ Statement Expr ts n rest := by
  have hne : op.kind ≠ .endOfFile := by
    intro heq
    rw [heq] at hop
    cases hop
  obtain ⟨operator, hmem⟩ := isAssignment_iff.1 hop
  obtain ⟨c₁, hsees₁, hrun⟩ := (reads_advance hne).step hsees hrun
  obtain ⟨value, rest, c₂, hvalue, hsees₂, hrun⟩ := he.step hsees₁ hrun
  simp only [assigned_of_mem hmem, pure_bind] at hrun
  cases target with
  | var p x =>
      cases hrun
      exact ⟨rest, hsees₂, .var htarget hmem hvalue⟩
  | item p array index =>
      cases hrun
      exact ⟨rest, hsees₂, .item htarget hmem hvalue⟩
  | member p receiver x =>
      cases hrun
      exact ⟨rest, hsees₂, .member htarget hmem hvalue⟩
  | _ => exact absurd hrun reject_ne_ok

theorem sentence_sound (he : Sound expression Expr) : Sound (sentence expression) (Statement Expr) := by
  intro c ts n c' hsees hrun
  obtain ⟨t, ts, rfl⟩ := hsees.ended.exists_cons
  obtain ⟨u, us, hbehind⟩ := hsees.ended.behind.exists_cons
  have hsecond : (Token.behind (t :: ts)).head? = some u := by rw [hbehind]; rfl
  obtain ⟨c₁, hsees₁, hrun⟩ := (reads_peekKind t ts).step hsees hrun
  obtain ⟨c₂, hsees₂, hrun⟩ := (reads_peekKind_one hsecond).step hsees₁ hrun
  split at hrun
  next hassigns =>
    have hts : ts = u :: us := by
      have hne : t.kind ≠ .endOfFile := by
        rw [hassigns.1]
        decide
      rw [← (hsees₂.ended.behind_of_ne hne).1, hbehind]
    subst hts
    exact variableAssignment_sound he hsees₂ hassigns.1 hassigns.2 hrun
  next =>
    obtain ⟨target, mid, c₃, htarget, hsees₃, hrun⟩ := he.step hsees₂ hrun
    obtain ⟨op, mid, rfl⟩ := hsees₃.ended.exists_cons
    obtain ⟨c₄, hsees₄, hrun⟩ := (reads_peekKind op mid).step hsees₃ hrun
    split at hrun
    next hop => exact targetAssignment_sound he htarget hsees₄ hop hrun
    next =>
      cases hrun
      exact ⟨op :: mid, hsees₄, .expression htarget⟩

/-- A statement as the parser reads it: with the end of its line, or up to the end of the file. -/
def Terminated (L : Phrase Node) : Phrase Node :=
  fun ts n rest => (∃ t, t.kind = .endOfLine ∧ L ts n (t :: rest)) ∨
    ∃ t mid, t.kind = .endOfFile ∧ rest = t :: mid ∧ L ts n rest

theorem statement_sound (he : Sound expression Expr) :
    Sound (statement expression) (Terminated (Statement Expr)) := by
  intro c ts n c' hsees hrun
  obtain ⟨node, rest, c₁, hstatement, hsees₁, hrun⟩ := (sentence_sound he).step hsees hrun
  obtain ⟨t, rest, rfl⟩ := hsees₁.ended.exists_cons
  obtain ⟨c₂, hsees₂, hrun⟩ := (reads_peekKind t rest).step hsees₁ hrun
  split at hrun
  next ht =>
    have hne : t.kind ≠ .endOfFile := by
      rw [ht]
      decide
    obtain ⟨c₃, hsees₃, hrun⟩ := (reads_advance hne).step hsees₂ hrun
    cases hrun
    exact ⟨rest, hsees₃, .inl ⟨t, ht, hstatement⟩⟩
  next =>
    split at hrun
    next ht =>
      cases hrun
      exact ⟨t :: rest, hsees₂, .inr ⟨t, rest, ht, rfl, hstatement⟩⟩
    next => exact absurd hrun unexpected_ne_ok

/-- At the end of the file there are no more lines. -/
theorem lines_of_endOfFile {close : Kind} {others : List Kind} {fuel : Nat} {c c' : Cursor} {t : Token}
    {ts : List Token} {body : List Node} (hsees : c.Sees (t :: ts)) (ht : t.kind = .endOfFile)
    (hrun : lines expression close others fuel c = .ok (body, c')) :
    body = [] ∧ c'.Sees (t :: ts) ∧ (t.kind = close ∨ t.kind ∈ others) := by
  cases fuel with
  | zero => cases hrun
  | succ fuel =>
      obtain ⟨c₁, hsees₁, hrun⟩ := (reads_peekKind t ts).step hsees hrun
      rw [if_neg (by rw [ht]; decide)] at hrun
      split at hrun
      next hclose =>
        cases hrun
        exact ⟨rfl, hsees₁, hclose⟩
      next => exact absurd hrun unexpected_ne_ok

/-- Lines up to a token that closes them. -/
def ClosedLines (Statement : Phrase Node) (close : Kind) (others : List Kind) : Phrase (List Node) :=
  fun ts body rest => Lines Statement ts body rest ∧ ∃ t mid, rest = t :: mid ∧ (t.kind = close ∨ t.kind ∈ others)

theorem lines_sound (he : Sound expression Expr) (close : Kind) (others : List Kind) (fuel : Nat) :
    Sound (lines expression close others fuel) (ClosedLines (Statement Expr) close others) := by
  induction fuel with
  | zero => exact sound_exhausted
  | succ fuel ih =>
      intro c ts body c' hsees hrun
      obtain ⟨t, ts, rfl⟩ := hsees.ended.exists_cons
      obtain ⟨c₁, hsees₁, hrun⟩ := (reads_peekKind t ts).step hsees hrun
      split at hrun
      next ht =>
        have hne : t.kind ≠ .endOfFile := by
          rw [ht]
          decide
        obtain ⟨c₂, hsees₂, hrun⟩ := (reads_advance hne).step hsees₁ hrun
        obtain ⟨rest, hsees₃, hlines, hclose⟩ := ih c₂ ts body c' hsees₂ hrun
        exact ⟨rest, hsees₃, .blank ht hlines, hclose⟩
      next =>
        split at hrun
        next hclose =>
          cases hrun
          exact ⟨t :: ts, hsees₁, .none, t, ts, rfl, hclose⟩
        next =>
          split at hrun
          next => exact absurd hrun unexpected_ne_ok
          next =>
            obtain ⟨n, mid, c₂, hstatement, hsees₂, hrun⟩ := (statement_sound he).step hsees₁ hrun
            obtain ⟨body, c₃, hbody, hrun⟩ := bind_eq_ok.1 hrun
            cases hrun
            rcases hstatement with ⟨u, hu, hstatement⟩ | ⟨u, mid, hu, rfl, hstatement⟩
            · obtain ⟨rest, hsees₃, hlines, hclose⟩ := ih c₂ mid body c' hsees₂ hbody
              exact ⟨rest, hsees₃, .statement hstatement hu hlines, hclose⟩
            · obtain ⟨rfl, hsees₃, hclose⟩ := lines_of_endOfFile hsees₂ hu hbody
              exact ⟨u :: mid, hsees₃, .last hstatement hu, u, mid, rfl, hclose⟩

/-! ### Blocks -/

/-- The end of a line and lines up to a token that closes them. -/
def ClosedBody (Statement : Phrase Node) (close : Kind) (others : List Kind) : Phrase (List Node) :=
  fun ts body rest => Body Statement ts body rest ∧ ∃ t mid, rest = t :: mid ∧ (t.kind = close ∨ t.kind ∈ others)

theorem body_sound (he : Sound expression Expr) (close : Kind) (others : List Kind) (fuel : Nat) :
    Sound (body expression close others fuel) (ClosedBody (Statement Expr) close others) := by
  intro c ts statements c' hsees hrun
  obtain ⟨t, mid, c₁, ⟨rfl, ht⟩, hsees₁, hrun⟩ := (sound_consume (by decide)).step hsees hrun
  obtain ⟨rest, hsees₂, hlines, hclose⟩ := lines_sound he close others fuel c₁ mid statements c' hsees₁ hrun
  exact ⟨rest, hsees₂, .intro ht hlines, hclose⟩

/-- The block that `end` closes, when its statements are read and the word is consumed. -/
theorem body_end_step (he : Sound expression Expr) {fuel : Nat} {α : Type} {f : List Node → α} {c c' : Cursor}
    {ts : List Token} {a : α} (hsees : c.Sees ts)
    (hrun : (do let statements ← body expression .endWord [] fuel
                let _ ← consume .endWord
                return f statements : Parser α) c = .ok (a, c')) :
    ∃ statements close rest, c'.Sees rest ∧ Body (Statement Expr) ts statements (close :: rest) ∧
      close.kind = .endWord ∧ a = f statements := by
  obtain ⟨statements, mid, c₁, ⟨hbody, -⟩, hsees₁, hrun⟩ := (body_sound he .endWord [] fuel).step hsees hrun
  obtain ⟨close, rest, c₂, ⟨rfl, hclose⟩, hsees₂, hrun⟩ := (sound_consume (by decide)).step hsees₁ hrun
  cases hrun
  exact ⟨statements, close, rest, hsees₂, hbody, hclose, rfl⟩

theorem beginBlock_sound (he : Sound expression Expr) (fuel : Nat) :
    Sound (beginBlock expression fuel) (Primary Expr) := by
  intro c ts n c' hsees hrun
  obtain ⟨t, ts, c₁, ⟨rfl, ht⟩, hsees₁, hrun⟩ := (sound_consume (by decide)).step hsees hrun
  obtain ⟨statements, close, rest, hsees₂, hbody, hclose, rfl⟩ := body_end_step he hsees₁ hrun
  exact ⟨rest, hsees₂, .block ht hbody hclose⟩

theorem branch_sound (he : Sound expression Expr) (fuel : Nat) {c c' : Cursor} {t : Token} {ts : List Token} {n : Node}
    (hsees : c.Sees (t :: ts)) (ht : t.kind ≠ .endOfFile) (hrun : branch expression fuel c = .ok (n, c')) :
    ∃ rest, c'.Sees rest ∧ Branch Expr t.position ts n rest := by
  induction fuel generalizing c c' t ts n with
  | zero => cases hrun
  | succ fuel ih =>
      obtain ⟨c₁, hsees₁, hrun⟩ := (reads_advance ht).step hsees hrun
      obtain ⟨test, mid, c₂, htest, hsees₂, hrun⟩ := he.step hsees₁ hrun
      obtain ⟨statements, mid', c₃, ⟨hbody, u, mid', rfl, -⟩, hsees₃, hrun⟩ :=
        (body_sound he .endWord [.elifWord, .elseWord] fuel).step hsees₂ hrun
      obtain ⟨c₄, hsees₄, hrun⟩ := (reads_peekKind u mid').step hsees₃ hrun
      generalize hu : u.kind = kind at hrun
      split at hrun
      next =>
        obtain ⟨other, c₅, hother, hrun⟩ := bind_eq_ok.1 hrun
        cases hrun
        obtain ⟨rest, hsees₅, hother⟩ := ih hsees₄ (by rw [hu]; decide) hother
        exact ⟨rest, hsees₅, .elif htest hbody hu hother⟩
      next =>
        obtain ⟨c₅, hsees₅, hrun⟩ := (reads_advance (by rw [hu]; decide)).step hsees₄ hrun
        obtain ⟨others, rest, c₆, ⟨hothers, -⟩, hsees₆, hrun⟩ := (body_sound he .endWord [] fuel).step hsees₅ hrun
        cases hrun
        exact ⟨rest, hsees₆, .otherwise htest hbody hu hothers⟩
      next =>
        cases hrun
        exact ⟨u :: mid', hsees₄, .last htest hbody⟩

theorem loop_sound (he : Sound expression Expr) (fuel : Nat) : Sound (loop expression fuel) (Primary Expr) := by
  intro c ts n c' hsees hrun
  obtain ⟨t, ts, c₁, ⟨rfl, ht⟩, hsees₁, hrun⟩ := (sound_consume (by decide)).step hsees hrun
  obtain ⟨u, ts, rfl⟩ := hsees₁.ended.exists_cons
  obtain ⟨v, vs, hbehind⟩ := hsees₁.ended.behind.exists_cons
  have hsecond : (Token.behind (u :: ts)).head? = some v := by rw [hbehind]; rfl
  obtain ⟨c₂, hsees₂, hrun⟩ := (reads_peekKind u ts).step hsees₁ hrun
  obtain ⟨c₃, hsees₃, hrun⟩ := (reads_peekKind_one hsecond).step hsees₂ hrun
  split at hrun
  next hforEach =>
    obtain ⟨hu, hv⟩ := hforEach
    have hts : ts = v :: vs := by
      have hne : u.kind ≠ .endOfFile := by
        rw [hu]
        decide
      rw [← (hsees₃.ended.behind_of_ne hne).1, hbehind]
    have hne : v.kind ≠ .endOfFile := by
      rcases hv with hv | hv <;> rw [hv] <;> decide
    subst hts
    obtain ⟨c₄, hsees₄, hrun⟩ := (reads_advance (by rw [hu]; decide)).step hsees₃ hrun
    obtain ⟨c₅, hsees₅, hrun⟩ := (reads_advance hne).step hsees₄ hrun
    obtain ⟨list, mid, c₆, hlist, hsees₆, hrun⟩ := he.step hsees₅ hrun
    obtain ⟨statements, close, rest, hsees₇, hbody, hclose, rfl⟩ := body_end_step he hsees₆ hrun
    exact ⟨rest, hsees₇, .forEach ht hu hv hlist hbody hclose⟩
  next =>
    obtain ⟨test, mid, c₄, htest, hsees₄, hrun⟩ := he.step hsees₃ hrun
    obtain ⟨statements, close, rest, hsees₅, hbody, hclose, rfl⟩ := body_end_step he hsees₄ hrun
    exact ⟨rest, hsees₅, .loop ht htest hbody hclose⟩

/-- The names are parameters that differ from each other and from the earlier ones. -/
theorem paramsFrom_sound (earlier : List String) (fuel : Nat) :
    Sound (paramsFrom earlier fuel) fun ts names rest =>
      Separated Name ts names rest ∧ names.Nodup ∧ ∀ x ∈ names, x ∉ earlier := by
  induction fuel generalizing earlier with
  | zero => exact sound_exhausted
  | succ fuel ih =>
      intro c ts names c' hsees hrun
      obtain ⟨t, ts, c₁, ⟨rfl, ht⟩, hsees₁, hrun⟩ := (sound_consume (by decide)).step hsees hrun
      split at hrun
      next => exact absurd hrun reject_ne_ok
      next hnew =>
        obtain ⟨u, ts, rfl⟩ := hsees₁.ended.exists_cons
        obtain ⟨c₂, hsees₂, hrun⟩ := (reads_peekKind u ts).step hsees₁ hrun
        split at hrun
        next hu =>
          obtain ⟨c₃, hsees₃, hrun⟩ := (reads_advance (by rw [hu]; decide)).step hsees₂ hrun
          obtain ⟨names, rest, c₄, ⟨hnames, hnodup, hearlier⟩, hsees₄, hrun⟩ := (ih _).step hsees₃ hrun
          cases hrun
          refine ⟨rest, hsees₄, .more (.intro ht) hu hnames, ?_, ?_⟩
          · refine List.nodup_cons.2 ⟨fun hmem => ?_, hnodup⟩
            exact hearlier t.text hmem List.mem_cons_self
          · intro x hx
            rcases List.mem_cons.1 hx with rfl | hx
            · exact hnew
            · exact fun hmem => hearlier x hx (List.mem_cons_of_mem _ hmem)
        next =>
          cases hrun
          refine ⟨u :: ts, hsees₂, .one (.intro ht), by simp, ?_⟩
          intro x hx
          rw [List.mem_singleton] at hx
          exact hx ▸ hnew

theorem paramNames_sound (fuel : Nat) :
    Sound (paramNames fuel) fun ts names rest => Listed Name ts names rest ∧ names.Nodup := by
  intro c ts names c' hsees hrun
  obtain ⟨t, ts, rfl⟩ := hsees.ended.exists_cons
  obtain ⟨c₁, hsees₁, hrun⟩ := (reads_peekKind t ts).step hsees hrun
  split at hrun
  next =>
    cases hrun
    exact ⟨t :: ts, hsees₁, .none, List.nodup_nil⟩
  next =>
    obtain ⟨rest, hsees₂, hnames, hnodup, -⟩ := paramsFrom_sound [] fuel c₁ _ names c' hsees₁ hrun
    exact ⟨rest, hsees₂, .some hnames, hnodup⟩

theorem functionName_sound : Sound functionName FunctionName := by
  intro c ts name c' hsees hrun
  obtain ⟨t, ts, rfl⟩ := hsees.ended.exists_cons
  obtain ⟨c₁, hsees₁, hrun⟩ := (reads_peekKind t ts).step hsees hrun
  split at hrun
  next ht =>
    obtain ⟨c₂, hsees₂, hrun⟩ := (reads_advance (by rw [ht]; decide)).step hsees₁ hrun
    cases hrun
    exact ⟨ts, hsees₂, .named ht⟩
  next =>
    cases hrun
    exact ⟨t :: ts, hsees₁, .anonymous⟩

theorem function_sound (he : Sound expression Expr) (fuel : Nat) : Sound (function expression fuel) (Primary Expr) := by
  intro c ts n c' hsees hrun
  obtain ⟨t, ts, c₁, ⟨rfl, ht⟩, hsees₁, hrun⟩ := (sound_consume (by decide)).step hsees hrun
  obtain ⟨name, mid, c₂, hname, hsees₂, hrun⟩ := functionName_sound.step hsees₁ hrun
  obtain ⟨names, c₃, hparams, hrun⟩ := bind_eq_ok.1 hrun
  obtain ⟨opening, mid, c₄, ⟨rfl, hopening⟩, hsees₄, hparams⟩ := (sound_consume (by decide)).step hsees₂ hparams
  obtain ⟨names, mid', c₅, ⟨hnames, hnodup⟩, hsees₅, hparams⟩ := (paramNames_sound fuel).step hsees₄ hparams
  obtain ⟨closing, mid', c₆, ⟨rfl, hclosing⟩, hsees₆, hparams⟩ := (sound_consume (by decide)).step hsees₅ hparams
  cases hparams
  obtain ⟨statements, close, rest, hsees₇, hbody, hclose, rfl⟩ := body_end_step he hsees₆ hrun
  exact ⟨rest, hsees₇, .function ht hname hopening hnames hclosing hnodup hbody hclose⟩

/-! ### Lists, members, calls and indices -/

theorem itemsFrom_sound (he : Sound expression Expr) {close : Kind} (hclose : close ≠ .endOfFile) (fuel : Nat) :
    Sound (itemsFrom expression close fuel) fun ts items rest =>
      ∃ t, t.kind = close ∧ Separated Expr ts items (t :: rest) := by
  induction fuel with
  | zero => exact sound_exhausted
  | succ fuel ih =>
      intro c ts items c' hsees hrun
      obtain ⟨item, mid, c₁, hitem, hsees₁, hrun⟩ := he.step hsees hrun
      obtain ⟨t, mid, rfl⟩ := hsees₁.ended.exists_cons
      obtain ⟨c₂, hsees₂, hrun⟩ := (reads_peekKind t mid).step hsees₁ hrun
      split at hrun
      next ht =>
        obtain ⟨c₃, hsees₃, hrun⟩ := (reads_advance (by rw [ht]; decide)).step hsees₂ hrun
        obtain ⟨items, rest, c₄, ⟨u, hu, hitems⟩, hsees₄, hrun⟩ := ih.step hsees₃ hrun
        cases hrun
        exact ⟨rest, hsees₄, u, hu, .more hitem ht hitems⟩
      next =>
        split at hrun
        next ht =>
          obtain ⟨c₃, hsees₃, hrun⟩ := (reads_advance (by rw [ht]; exact hclose)).step hsees₂ hrun
          cases hrun
          exact ⟨mid, hsees₃, t, ht, .one hitem⟩
        next => exact absurd hrun unexpected_ne_ok

theorem items_sound (he : Sound expression Expr) {close : Kind} (hclose : close ≠ .endOfFile) (fuel : Nat) :
    Sound (items expression close fuel) fun ts items rest =>
      ∃ t, t.kind = close ∧ Listed Expr ts items (t :: rest) := by
  intro c ts items c' hsees hrun
  obtain ⟨t, ts, rfl⟩ := hsees.ended.exists_cons
  obtain ⟨c₁, hsees₁, hrun⟩ := (reads_peekKind t ts).step hsees hrun
  split at hrun
  next ht =>
    obtain ⟨c₂, hsees₂, hrun⟩ := (reads_advance (by rw [ht]; exact hclose)).step hsees₁ hrun
    cases hrun
    exact ⟨ts, hsees₂, t, ht, .none⟩
  next =>
    obtain ⟨rest, hsees₂, u, hu, hitems⟩ := itemsFrom_sound he hclose fuel c₁ _ items c' hsees₁ hrun
    exact ⟨rest, hsees₂, u, hu, .some hitems⟩

theorem postfixFrom_sound (he : Sound expression Expr) (fuel : Nat) (left : Node) :
    Sound (postfixFrom expression fuel left) (Accesses Expr left) := by
  induction fuel generalizing left with
  | zero => exact sound_exhausted
  | succ fuel ih =>
      intro c ts n c' hsees hrun
      obtain ⟨t, ts, rfl⟩ := hsees.ended.exists_cons
      obtain ⟨c₁, hsees₁, hrun⟩ := (reads_peekKind t ts).step hsees hrun
      generalize ht : t.kind = kind at hrun
      split at hrun
      next =>
        obtain ⟨c₂, hsees₂, hrun⟩ := (reads_advance (by rw [ht]; decide)).step hsees₁ hrun
        obtain ⟨name, mid, c₃, ⟨rfl, hname⟩, hsees₃, hrun⟩ := (sound_consume (by decide)).step hsees₂ hrun
        obtain ⟨rest, hsees₄, hmore⟩ := ih _ c₃ mid n c' hsees₃ hrun
        exact ⟨rest, hsees₄, .member ht hname hmore⟩
      next =>
        obtain ⟨c₂, hsees₂, hrun⟩ := (reads_advance (by rw [ht]; decide)).step hsees₁ hrun
        obtain ⟨args, mid, c₃, ⟨close, hclose, hargs⟩, hsees₃, hrun⟩ :=
          (items_sound he (by decide) fuel).step hsees₂ hrun
        obtain ⟨rest, hsees₄, hmore⟩ := ih _ c₃ mid n c' hsees₃ hrun
        exact ⟨rest, hsees₄, .call ht hargs hclose hmore⟩
      next =>
        obtain ⟨c₂, hsees₂, hrun⟩ := (reads_advance (by rw [ht]; decide)).step hsees₁ hrun
        obtain ⟨index, mid, c₃, hindex, hsees₃, hrun⟩ := he.step hsees₂ hrun
        obtain ⟨close, mid, c₄, ⟨rfl, hclose⟩, hsees₄, hrun⟩ := (sound_consume (by decide)).step hsees₃ hrun
        obtain ⟨rest, hsees₅, hmore⟩ := ih _ c₄ mid n c' hsees₄ hrun
        exact ⟨rest, hsees₅, .item ht hindex hclose hmore⟩
      next =>
        cases hrun
        exact ⟨t :: ts, hsees₁, .done⟩

/-! ### Expressions -/

theorem literal_sound {c c' : Cursor} {t : Token} {ts : List Token} {n : Node} (hsees : c.Sees (t :: ts))
    (ht : t.kind.isLiteral = true) (hrun : literal c = .ok (n, c')) :
    ∃ rest, c'.Sees rest ∧ Primary Expr (t :: ts) n rest := by
  have hne : t.kind ≠ .endOfFile := by
    intro heq
    rw [heq] at ht
    cases ht
  obtain ⟨c₁, hsees₁, hrun⟩ := (reads_advance hne).step hsees hrun
  generalize hkind : t.kind = kind at hrun
  split at hrun
  next =>
    cases hrun
    exact ⟨ts, hsees₁, .literal (.none hkind)⟩
  next =>
    cases hrun
    exact ⟨ts, hsees₁, .literal (.true hkind)⟩
  next =>
    cases hrun
    exact ⟨ts, hsees₁, .literal (.false hkind)⟩
  next =>
    cases hrun
    exact ⟨ts, hsees₁, .literal (.string hkind)⟩
  next =>
    cases hnumber : Decimal.ofChars? t.text.toList with
    | none =>
        rw [hnumber] at hrun
        exact absurd hrun reject_ne_ok
    | some number =>
        rw [hnumber] at hrun
        cases hrun
        exact ⟨ts, hsees₁, .literal (.number hkind hnumber)⟩
  next => cases hrun

theorem primary_sound (he : Sound expression Expr) (fuel : Nat) : Sound (primary expression fuel) (Primary Expr) := by
  intro c ts n c' hsees hrun
  obtain ⟨t, ts, rfl⟩ := hsees.ended.exists_cons
  obtain ⟨c₁, hsees₁, hrun⟩ := (reads_peekKind t ts).step hsees hrun
  by_cases hliteral : t.kind.isLiteral = true
  · rw [if_pos hliteral] at hrun
    exact literal_sound hsees₁ hliteral hrun
  rw [if_neg hliteral] at hrun
  generalize ht : t.kind = kind at hrun
  split at hrun
  next =>
    obtain ⟨c₂, hsees₂, hrun⟩ := (reads_advance (by rw [ht]; decide)).step hsees₁ hrun
    cases hrun
    exact ⟨ts, hsees₂, .var ht⟩
  next =>
    obtain ⟨c₂, hsees₂, hrun⟩ := (reads_advance (by rw [ht]; decide)).step hsees₁ hrun
    obtain ⟨items, rest, c₃, ⟨close, hclose, hitems⟩, hsees₃, hrun⟩ :=
      (items_sound he (by decide) fuel).step hsees₂ hrun
    cases hrun
    exact ⟨rest, hsees₃, .list ht hitems hclose⟩
  next =>
    obtain ⟨c₂, hsees₂, hrun⟩ := (reads_advance (by rw [ht]; decide)).step hsees₁ hrun
    obtain ⟨inner, mid, c₃, hinner, hsees₃, hrun⟩ := he.step hsees₂ hrun
    obtain ⟨close, rest, c₄, ⟨rfl, hclose⟩, hsees₄, hrun⟩ := (sound_consume (by decide)).step hsees₃ hrun
    cases hrun
    exact ⟨rest, hsees₄, .group ht hinner hclose⟩
  next => exact beginBlock_sound he fuel c₁ _ n c' hsees₁ hrun
  next =>
    obtain ⟨node, c₂, hbranch, hrun⟩ := bind_eq_ok.1 hrun
    obtain ⟨mid, hsees₂, hbranch⟩ := branch_sound he fuel hsees₁ (by rw [ht]; decide) hbranch
    obtain ⟨close, rest, c₃, ⟨rfl, hclose⟩, hsees₃, hrun⟩ := (sound_consume (by decide)).step hsees₂ hrun
    cases hrun
    exact ⟨rest, hsees₃, .branch ht hbranch hclose⟩
  next => exact loop_sound he fuel c₁ _ n c' hsees₁ hrun
  next => exact function_sound he fuel c₁ _ n c' hsees₁ hrun
  next => exact absurd hrun unexpected_ne_ok

theorem postfixed_sound (he : Sound expression Expr) (fuel : Nat) :
    Sound (postfixed expression fuel) (Access Expr) := by
  intro c ts n c' hsees hrun
  obtain ⟨first, mid, c₁, hprimary, hsees₁, hrun⟩ := (primary_sound he fuel).step hsees hrun
  obtain ⟨rest, hsees₂, hmore⟩ := postfixFrom_sound he fuel first c₁ mid n c' hsees₁ hrun
  exact ⟨rest, hsees₂, .intro hprimary hmore⟩

theorem unary_sound {operand : Parser Node} (hoperand : Sound operand (Access Expr)) (fuel : Nat) :
    Sound (unary operand fuel) (Unary Expr) := by
  induction fuel with
  | zero => exact sound_exhausted
  | succ fuel ih =>
      intro c ts n c' hsees hrun
      obtain ⟨t, ts, rfl⟩ := hsees.ended.exists_cons
      obtain ⟨c₁, hsees₁, hrun⟩ := (reads_peekKind t ts).step hsees hrun
      split at hrun
      next hkind =>
        have ht : t.kind ≠ .endOfFile := by
          intro heq
          rw [heq] at hkind
          cases hkind
        obtain ⟨op, hop⟩ := isUnaryOperator_iff.1 hkind
        obtain ⟨c₂, hsees₂, hrun⟩ := (reads_advance ht).step hsees₁ hrun
        obtain ⟨inner, rest, c₃, hinner, hsees₃, hrun⟩ := ih.step hsees₂ hrun
        rw [unaryOp_of_mem hop, pure_bind] at hrun
        cases hrun
        exact ⟨rest, hsees₃, .operator hop hinner⟩
      next =>
        obtain ⟨rest, hsees₂, haccess⟩ := hoperand c₁ _ n c' hsees₁ hrun
        exact ⟨rest, hsees₂, .operand haccess⟩

theorem range_sound {term : Parser Node} (hterm : Sound term (Term Expr)) : Sound (range term) (Range Expr) := by
  intro c ts n c' hsees hrun
  obtain ⟨first, mid, c₁, hfirst, hsees₁, hrun⟩ := hterm.step hsees hrun
  obtain ⟨t, mid, rfl⟩ := hsees₁.ended.exists_cons
  obtain ⟨c₂, hsees₂, hrun⟩ := (reads_peekKind t mid).step hsees₁ hrun
  split at hrun
  next ht =>
    obtain ⟨c₃, hsees₃, hrun⟩ := (reads_advance (by rw [ht]; decide)).step hsees₂ hrun
    obtain ⟨last, mid', c₄, hlast, hsees₄, hrun⟩ := hterm.step hsees₃ hrun
    obtain ⟨s, mid', rfl⟩ := hsees₄.ended.exists_cons
    obtain ⟨c₅, hsees₅, hrun⟩ := (reads_peekKind s mid').step hsees₄ hrun
    split at hrun
    next hs =>
      obtain ⟨c₆, hsees₆, hrun⟩ := (reads_advance (by rw [hs]; decide)).step hsees₅ hrun
      obtain ⟨step, rest, c₇, hstep, hsees₇, hrun⟩ := hterm.step hsees₆ hrun
      cases hrun
      exact ⟨rest, hsees₇, .stepped hfirst ht hlast hs hstep⟩
    next =>
      cases hrun
      exact ⟨s :: mid', hsees₅, .upTo hfirst ht hlast⟩
  next =>
    cases hrun
    exact ⟨t :: mid, hsees₂, .single hfirst⟩

theorem disjunction_sound (he : Sound expression Expr) (fuel : Nat) :
    Sound (disjunction expression fuel) (Disjunction Expr) := by
  have hunary := unary_sound (postfixed_sound he fuel) fuel
  have hfactor : Sound (factor expression fuel) (Factor Expr) := (chain_sound tabulates_factor hunary fuel).mono .chain
  have hterm : Sound (term expression fuel) (Term Expr) := (chain_sound tabulates_term hfactor fuel).mono .chain
  have hcomparison : Sound (comparison expression fuel) (Comparison Expr) :=
    (chain_sound tabulates_comparison (range_sound hterm) fuel).mono .chain
  have hconjunction : Sound (conjunction expression fuel) (Conjunction Expr) :=
    (chain_sound (tabulates_logical (by decide) .and) hcomparison fuel).mono .chain
  exact (chain_sound (tabulates_logical (by decide) .or) hconjunction fuel).mono .chain

/-- Expressions are of every language that satisfies their rule. -/
theorem expression_sound {L : Phrase Node} (hL : ∀ {ts n rest}, Disjunction L ts n rest → L ts n rest) (fuel : Nat) :
    Sound (Parser.expression fuel) L := by
  induction fuel with
  | zero => exact sound_exhausted
  | succ fuel ih => exact (disjunction_sound ih fuel).mono hL

end LineScript.Parser

namespace LineScript.Program

open Grammar LineScript.Parser

/-- An accepted program is made of lines up to the end of the file, whose expressions are of every language that
satisfies their rule. -/
theorem lines_of_parse {source text : String} {ts : List Token} (hlex : (Lexer.ofSource source text).Yields ts)
    {program : Program} (hparse : parse source text = .ok program) {L : Phrase Node}
    (hL : ∀ {ts n rest}, Disjunction L ts n rest → L ts n rest) :
    program.source = source ∧ ∃ t, t.kind = .endOfFile ∧ Lines (Statement L) ts program.body [t] := by
  obtain ⟨c, hcursor, hsees⟩ := Cursor.ofLexer_sees hlex
  simp only [parse, parseWith, hcursor, bind, Except.bind, StateT.run] at hparse
  cases hrun : lines (Parser.expression (text.length + 2)) .endOfFile [] (text.length + 2) c with
  | error stop =>
      rw [hrun] at hparse
      cases hparse
  | ok result =>
      obtain ⟨body, c'⟩ := result
      rw [hrun] at hparse
      cases hparse
      obtain ⟨rest, hsees', hlines, t, mid, rfl, ht⟩ :=
        lines_sound (expression_sound hL _) .endOfFile [] _ c ts body c' hsees hrun
      have hkind : t.kind = .endOfFile := ht.resolve_right nofun
      obtain rfl := hsees'.ended.eq_nil hkind
      exact ⟨rfl, t, hkind, hlines⟩

end LineScript.Program
