import LineScript.Program
import LineScript.Decimal.Reader
import LineScript.Proofs.Program.Cursor
/-!
# The grammar of programs

The rules by which tokens make up a program, stated without reference to the parser. A rule relates the tokens ahead,
the tree of the phrase at their start and the tokens behind it; no rule but that of the last line looks at the tokens
behind. Operators are listed in tables, lowest level first:

```
program     := line* EOF
line        := EOL | statement (EOL | EOF)
statement   := IDENT ('=' | '+=' | '-=' | '*=' | '/=') expr | expr [('=' | op '=') expr]
expr        := and ('or' and)*
and         := comparison ('and' comparison)*
comparison  := range (('==' | '!=' | '<' | '<=' | '>' | '>=') range)*
range       := term ['to' term ['step' term]]
term        := factor (('+' | '-') factor)*
factor      := unary (('*' | '/') unary)*
unary       := ('not' | '-')* access
access      := primary ('.' IDENT | '(' [expr (',' expr)*] ')' | '[' expr ']')*
primary     := literal | IDENT | '[' [expr (',' expr)*] ']' | '(' expr ')'
             | 'begin' EOL line* 'end'
             | 'if' expr EOL line* ('elif' expr EOL line*)* ['else' EOL line*] 'end'
             | 'for' IDENT ('=' | 'in') expr EOL line* 'end'
             | 'for' expr EOL line* 'end'
             | 'func' [IDENT] '(' [IDENT (',' IDENT)*] ')' EOL line* 'end'
```

The rules below an expression take the language of expressions as a parameter, and `Expression` is the least language
that satisfies its own rule.
-/

namespace LineScript.Grammar

open Token (Kind)

/-! ### Operators -/

def orOps : List (Kind × LogicalOp) :=
  [(.orWord, .or)]

def andOps : List (Kind × LogicalOp) :=
  [(.andWord, .and)]

def comparisonOps : List (Kind × BinaryOp) :=
  [(.equals, .equals), (.notEquals, .notEquals), (.less, .less), (.lessEquals, .lessEquals), (.greater, .greater),
   (.greaterEquals, .greaterEquals)]

def termOps : List (Kind × BinaryOp) :=
  [(.plus, .add), (.minus, .subtract)]

def factorOps : List (Kind × BinaryOp) :=
  [(.star, .multiply), (.slash, .divide)]

def unaryOps : List (Kind × UnaryOp) :=
  [(.notWord, .not), (.minus, .negate)]

/-- Assignments, each with the operator that it applies before it stores. -/
def assignmentOps : List (Kind × Option BinaryOp) :=
  [(.assign, none), (.plusAssign, some .add), (.minusAssign, some .subtract), (.starAssign, some .multiply),
   (.slashAssign, some .divide)]

/-! ### Repetitions -/

section

variable {Op : Type} (ops : List (Kind × Op)) (combine : Position → Op → Node → Node → Node) (Operand : Phrase Node)

/-- Further operands behind the tree `left`. Each operator takes all that stands before it as its left operand. -/
inductive Operations : Node → Phrase Node
  | done {left : Node} {ts : List Token} : Operations left ts left ts
  | step {left right n : Node} {t : Token} {op : Op} {ts mid rest : List Token} (hop : (t.kind, op) ∈ ops)
      (hright : Operand ts right mid) (hmore : Operations (combine t.position op left right) mid n rest) :
      Operations left (t :: ts) n rest

/-- Operands with operators of one level between them. -/
inductive Chain : Phrase Node
  | intro {first n : Node} {ts mid rest : List Token} (hfirst : Operand ts first mid)
      (hmore : Operations ops combine Operand first mid n rest) : Chain ts n rest

end

/-- One or more phrases with commas between them. -/
inductive Separated {α : Type} (Item : Phrase α) : Phrase (List α)
  | one {a : α} {ts rest : List Token} (hitem : Item ts a rest) : Separated Item ts [a] rest
  | more {a : α} {as : List α} {comma : Token} {ts mid rest : List Token} (hitem : Item ts a (comma :: mid))
      (hcomma : comma.kind = .comma) (hmore : Separated Item mid as rest) : Separated Item ts (a :: as) rest

/-- Phrases with commas between them, or none. -/
inductive Listed {α : Type} (Item : Phrase α) : Phrase (List α)
  | none {ts : List Token} : Listed Item ts [] ts
  | some {as : List α} {ts rest : List Token} (hitems : Separated Item ts as rest) : Listed Item ts as rest

/-- Lines, each of them empty or a statement. A statement is followed by the end of its line or of the file. -/
inductive Lines (Statement : Phrase Node) : Phrase (List Node)
  | none {ts : List Token} : Lines Statement ts [] ts
  | blank {body : List Node} {t : Token} {ts rest : List Token} (ht : t.kind = .endOfLine)
      (hlines : Lines Statement ts body rest) : Lines Statement (t :: ts) body rest
  | statement {n : Node} {body : List Node} {t : Token} {ts mid rest : List Token}
      (hstatement : Statement ts n (t :: mid)) (ht : t.kind = .endOfLine)
      (hlines : Lines Statement mid body rest) : Lines Statement ts (n :: body) rest
  | last {n : Node} {t : Token} {ts rest : List Token} (hstatement : Statement ts n (t :: rest))
      (ht : t.kind = .endOfFile) : Lines Statement ts [n] (t :: rest)

/-- The end of a line and the lines behind it. -/
inductive Body (Statement : Phrase Node) : Phrase (List Node)
  | intro {body : List Node} {t : Token} {ts rest : List Token} (ht : t.kind = .endOfLine)
      (hlines : Lines Statement ts body rest) : Body Statement (t :: ts) body rest

/-- A name. -/
inductive Name : Phrase String
  | intro {t : Token} {rest : List Token} (ht : t.kind = .identifier) : Name (t :: rest) t.text rest

/-! ### Statements -/

/-- What an assignment stores into a target that reads as `current`. -/
def stored (operator : Option BinaryOp) (p : Position) (current value : Node) : Node :=
  match operator with
  | some op => .binary p op current value
  | none => value

section

variable (Expr : Phrase Node)

/-- An expression or an assignment. The target of an assignment is a variable, an item of an array or a member of an
object. -/
inductive Statement : Phrase Node
  | expression {n : Node} {ts rest : List Token} (h : Expr ts n rest) : Statement ts n rest
  | name {value : Node} {t op : Token} {operator : Option BinaryOp} {ts rest : List Token} (ht : t.kind = .identifier)
      (hop : (op.kind, operator) ∈ assignmentOps) (hvalue : Expr ts value rest) :
      Statement (t :: op :: ts)
        (.assign t.position t.text (stored operator op.position (.var t.position t.text) value)) rest
  | var {p : Position} {x : String} {value : Node} {op : Token} {operator : Option BinaryOp}
      {ts mid rest : List Token} (htarget : Expr ts (.var p x) (op :: mid)) (hop : (op.kind, operator) ∈ assignmentOps)
      (hvalue : Expr mid value rest) : Statement ts (.assign p x (stored operator op.position (.var p x) value)) rest
  | item {p : Position} {array index value : Node} {op : Token} {operator : Option BinaryOp}
      {ts mid rest : List Token} (htarget : Expr ts (.item p array index) (op :: mid))
      (hop : (op.kind, operator) ∈ assignmentOps) (hvalue : Expr mid value rest) :
      Statement ts (.assignItem p array index (stored operator op.position (.item p array index) value)) rest
  | member {p : Position} {receiver value : Node} {x : String} {op : Token} {operator : Option BinaryOp}
      {ts mid rest : List Token} (htarget : Expr ts (.member p receiver x) (op :: mid))
      (hop : (op.kind, operator) ∈ assignmentOps) (hvalue : Expr mid value rest) :
      Statement ts (.assignMember p receiver x (stored operator op.position (.member p receiver x) value)) rest

/-! ### Primary expressions -/

/-- The literal that a token stands for. A number has to be one that the decimals have room for. -/
inductive Denotes : Token → Literal → Prop
  | none {t : Token} (ht : t.kind = .noneLiteral) : Denotes t .none
  | true {t : Token} (ht : t.kind = .trueLiteral) : Denotes t (.bool true)
  | false {t : Token} (ht : t.kind = .falseLiteral) : Denotes t (.bool false)
  | string {t : Token} (ht : t.kind = .stringLiteral) : Denotes t (.string t.text)
  | number {t : Token} {n : Decimal} (ht : t.kind = .numberLiteral) (hn : Decimal.ofChars? t.text.toList = some n) :
      Denotes t (.number n)

/-- A test and its branch behind the word at `p`, with the tests and branches behind it. -/
inductive Branch : Position → Phrase Node
  | last {p : Position} {test : Node} {body : List Node} {ts mid rest : List Token} (htest : Expr ts test mid)
      (hbody : Body (Statement Expr) mid body rest) : Branch p ts (.branch p test body none) rest
  | elif {p : Position} {test other : Node} {body : List Node} {t : Token} {ts mid mid' rest : List Token}
      (htest : Expr ts test mid) (hbody : Body (Statement Expr) mid body (t :: mid')) (ht : t.kind = .elifWord)
      (hother : Branch t.position mid' other rest) : Branch p ts (.branch p test body (some other)) rest
  | otherwise {p : Position} {test : Node} {body others : List Node} {t : Token} {ts mid mid' rest : List Token}
      (htest : Expr ts test mid) (hbody : Body (Statement Expr) mid body (t :: mid')) (ht : t.kind = .elseWord)
      (hothers : Body (Statement Expr) mid' others rest) :
      Branch p ts (.branch p test body (some (.block t.position others))) rest

/-- The name of a function, which it may lack. -/
inductive FunctionName : Phrase (Option String)
  | anonymous {ts : List Token} : FunctionName ts none ts
  | named {t : Token} {rest : List Token} (ht : t.kind = .identifier) : FunctionName (t :: rest) (some t.text) rest

inductive Primary : Phrase Node
  | literal {t : Token} {value : Literal} {rest : List Token} (hvalue : Denotes t value) :
      Primary (t :: rest) (.literal t.position value) rest
  | var {t : Token} {rest : List Token} (ht : t.kind = .identifier) :
      Primary (t :: rest) (.var t.position t.text) rest
  | list {items : List Node} {t close : Token} {ts rest : List Token} (ht : t.kind = .bracketLeft)
      (hitems : Listed Expr ts items (close :: rest)) (hclose : close.kind = .bracketRight) :
      Primary (t :: ts) (.list t.position items) rest
  | group {n : Node} {t close : Token} {ts rest : List Token} (ht : t.kind = .parenLeft)
      (hinner : Expr ts n (close :: rest)) (hclose : close.kind = .parenRight) : Primary (t :: ts) n rest
  | block {body : List Node} {t close : Token} {ts rest : List Token} (ht : t.kind = .beginWord)
      (hbody : Body (Statement Expr) ts body (close :: rest)) (hclose : close.kind = .endWord) :
      Primary (t :: ts) (.block t.position body) rest
  | branch {n : Node} {t close : Token} {ts rest : List Token} (ht : t.kind = .ifWord)
      (hbranch : Branch Expr t.position ts n (close :: rest)) (hclose : close.kind = .endWord) :
      Primary (t :: ts) n rest
  | forEach {list : Node} {body : List Node} {t name link close : Token} {ts mid rest : List Token}
      (ht : t.kind = .forWord) (hname : name.kind = .identifier) (hlink : link.kind = .assign ∨ link.kind = .inWord)
      (hlist : Expr ts list mid) (hbody : Body (Statement Expr) mid body (close :: rest))
      (hclose : close.kind = .endWord) :
      Primary (t :: name :: link :: ts) (.forEach t.position name.text list body) rest
  | loop {test : Node} {body : List Node} {t close : Token} {ts mid rest : List Token} (ht : t.kind = .forWord)
      (htest : Expr ts test mid) (hbody : Body (Statement Expr) mid body (close :: rest))
      (hclose : close.kind = .endWord) : Primary (t :: ts) (.loop t.position test body) rest
  | function {name : Option String} {params : List String} {body : List Node} {t opening closing close : Token}
      {ts mid mid' rest : List Token} (ht : t.kind = .funcWord) (hname : FunctionName ts name (opening :: mid))
      (hopening : opening.kind = .parenLeft) (hparams : Listed Name mid params (closing :: mid'))
      (hclosing : closing.kind = .parenRight) (hnodup : params.Nodup)
      (hbody : Body (Statement Expr) mid' body (close :: rest)) (hclose : close.kind = .endWord) :
      Primary (t :: ts) (.function t.position name params body) rest

/-! ### Expressions -/

/-- Members, calls and items behind the tree `left`, each of all that stands before it. -/
inductive Accesses : Node → Phrase Node
  | done {left : Node} {ts : List Token} : Accesses left ts left ts
  | member {left n : Node} {t name : Token} {ts rest : List Token} (ht : t.kind = .dot)
      (hname : name.kind = .identifier) (hmore : Accesses (.member t.position left name.text) ts n rest) :
      Accesses left (t :: name :: ts) n rest
  | call {left n : Node} {args : List Node} {t close : Token} {ts mid rest : List Token} (ht : t.kind = .parenLeft)
      (hargs : Listed Expr ts args (close :: mid)) (hclose : close.kind = .parenRight)
      (hmore : Accesses (.call t.position left args) mid n rest) : Accesses left (t :: ts) n rest
  | item {left index n : Node} {t close : Token} {ts mid rest : List Token} (ht : t.kind = .bracketLeft)
      (hindex : Expr ts index (close :: mid)) (hclose : close.kind = .bracketRight)
      (hmore : Accesses (.item t.position left index) mid n rest) : Accesses left (t :: ts) n rest

inductive Access : Phrase Node
  | intro {first n : Node} {ts mid rest : List Token} (hprimary : Primary Expr ts first mid)
      (hmore : Accesses Expr first mid n rest) : Access ts n rest

inductive Unary : Phrase Node
  | operand {n : Node} {ts rest : List Token} (h : Access Expr ts n rest) : Unary ts n rest
  | operator {n : Node} {t : Token} {op : UnaryOp} {ts rest : List Token} (hop : (t.kind, op) ∈ unaryOps)
      (hoperand : Unary ts n rest) : Unary (t :: ts) (.unary t.position op n) rest

inductive Factor : Phrase Node
  | chain {n : Node} {ts rest : List Token} (h : Chain factorOps .binary (Unary Expr) ts n rest) : Factor ts n rest

inductive Term : Phrase Node
  | chain {n : Node} {ts rest : List Token} (h : Chain termOps .binary (Factor Expr) ts n rest) : Term ts n rest

inductive Range : Phrase Node
  | single {n : Node} {ts rest : List Token} (h : Term Expr ts n rest) : Range ts n rest
  | upTo {first last : Node} {t : Token} {ts mid rest : List Token} (hfirst : Term Expr ts first (t :: mid))
      (ht : t.kind = .toWord) (hlast : Term Expr mid last rest) : Range ts (.range t.position first last none) rest
  | stepped {first last step : Node} {t s : Token} {ts mid mid' rest : List Token}
      (hfirst : Term Expr ts first (t :: mid)) (ht : t.kind = .toWord) (hlast : Term Expr mid last (s :: mid'))
      (hs : s.kind = .stepWord) (hstep : Term Expr mid' step rest) :
      Range ts (.range t.position first last (some step)) rest

inductive Comparison : Phrase Node
  | chain {n : Node} {ts rest : List Token} (h : Chain comparisonOps .binary (Range Expr) ts n rest) :
      Comparison ts n rest

inductive Conjunction : Phrase Node
  | chain {n : Node} {ts rest : List Token} (h : Chain andOps .logical (Comparison Expr) ts n rest) :
      Conjunction ts n rest

inductive Disjunction : Phrase Node
  | chain {n : Node} {ts rest : List Token} (h : Chain orOps .logical (Conjunction Expr) ts n rest) :
      Disjunction ts n rest

end

inductive Expression : Phrase Node
  | intro {n : Node} {ts rest : List Token} (h : Disjunction Expression ts n rest) : Expression ts n rest

/-- Every language that satisfies the rule of expressions has all of them: the induction over the rules, which refer to
each other by way of the expression only. -/
theorem Expression.least {L : Phrase Node} (hL : ∀ {ts n rest}, Disjunction L ts n rest → L ts n rest) {n : Node}
    {ts rest : List Token} (h : Expression ts n rest) : L ts n rest := by
  apply @Expression.rec (fun ts n rest _ => L ts n rest) (fun ts n rest _ => Disjunction L ts n rest)
    (fun ts n rest _ => Chain orOps .logical (Conjunction L) ts n rest) (fun ts n rest _ => Conjunction L ts n rest)
    (fun left ts n rest _ => Operations orOps .logical (Conjunction L) left ts n rest)
    (fun ts n rest _ => Chain andOps .logical (Comparison L) ts n rest) (fun ts n rest _ => Comparison L ts n rest)
    (fun left ts n rest _ => Operations andOps .logical (Comparison L) left ts n rest)
    (fun ts n rest _ => Chain comparisonOps .binary (Range L) ts n rest) (fun ts n rest _ => Range L ts n rest)
    (fun left ts n rest _ => Operations comparisonOps .binary (Range L) left ts n rest)
    (fun ts n rest _ => Term L ts n rest)
    (fun ts n rest _ => Chain termOps .binary (Factor L) ts n rest) (fun ts n rest _ => Factor L ts n rest)
    (fun left ts n rest _ => Operations termOps .binary (Factor L) left ts n rest)
    (fun ts n rest _ => Chain factorOps .binary (Unary L) ts n rest) (fun ts n rest _ => Unary L ts n rest)
    (fun left ts n rest _ => Operations factorOps .binary (Unary L) left ts n rest)
    (fun ts n rest _ => Access L ts n rest) (fun ts n rest _ => Primary L ts n rest)
    (fun left ts n rest _ => Accesses L left ts n rest) (fun ts items rest _ => Listed L ts items rest)
    (fun ts body rest _ => Body (Statement L) ts body rest) (fun p ts n rest _ => Branch L p ts n rest)
    (fun ts items rest _ => Separated L ts items rest) (fun ts body rest _ => Lines (Statement L) ts body rest)
    (fun ts n rest _ => Statement L ts n rest)
  case t => exact h
  case upTo => exact fun _ ht _ hfirst hlast => .upTo hfirst ht hlast
  case stepped => exact fun _ ht _ hs _ hfirst hlast hstep => .stepped hfirst ht hlast hs hstep
  case operator => exact fun hop _ hoperand => .operator hop hoperand
  case block => exact fun ht _ hclose hbody => .block ht hbody hclose
  case branch => exact fun ht _ hclose hbranch => .branch ht hbranch hclose
  case forEach => exact fun ht hname hlink _ _ hclose hlist hbody => .forEach ht hname hlink hlist hbody hclose
  case loop => exact fun ht _ _ hclose htest hbody => .loop ht htest hbody hclose
  case function =>
    exact fun ht hname hopening hparams hclosing hnodup _ hclose hbody =>
      .function ht hname hopening hparams hclosing hnodup hbody hclose
  case otherwise => exact fun _ _ ht _ htest hbody hothers => .otherwise htest hbody ht hothers
  case last => exact fun _ _ htest hbody => .last htest hbody
  case last => exact fun _ ht hstatement => .last hstatement ht
  case name => exact fun ht hop _ hvalue => .name ht hop hvalue
  case var => exact .var
  case var => exact fun _ hop _ htarget hvalue => .var htarget hop hvalue
  case item => exact fun ht _ hclose _ hindex hmore => .item ht hindex hclose hmore
  case item => exact fun _ hop _ htarget hvalue => .item htarget hop hvalue
  case member => exact fun ht hname _ hmore => .member ht hname hmore
  case member => exact fun _ hop _ htarget hvalue => .member htarget hop hvalue
  all_goals intros
  all_goals first
    | exact hL ‹_›
    | (constructor <;> assumption)

theorem Unary.of_primary {Expr : Phrase Node} {n : Node} {ts rest : List Token} (hprimary : Primary Expr ts n rest) :
    Unary Expr ts n rest :=
  .operand ⟨hprimary, .done⟩

/-- An operand without an operator behind it. -/
theorem Expression.of_unary {n : Node} {ts rest : List Token} (hunary : Unary Expression ts n rest) :
    Expression ts n rest :=
  ⟨⟨⟨⟨⟨⟨⟨.single ⟨⟨⟨⟨hunary, .done⟩⟩, .done⟩⟩, .done⟩⟩, .done⟩⟩, .done⟩⟩⟩

/-- The tokens of a program, up to the end of the file, and its statements. -/
inductive Derives : List Token → List Node → Prop
  | intro {body : List Node} {ts : List Token} {t : Token} (hlines : Lines (Statement Expression) ts body [t])
      (ht : t.kind = .endOfFile) : Derives ts body

/-! ### A phrase takes tokens

An expression takes at least one token. It contains others only behind a token of its own, so the induction is on the
number of tokens: the rules are given that expressions below that number take a token.
-/

/-- Phrases at the start of fewer than `bound` tokens take at least one of them. -/
def ShortensBelow {α : Type} (bound : Nat) (L : Phrase α) : Prop :=
  ∀ ⦃ts a rest⦄, ts.length < bound → L ts a rest → rest.length < ts.length

section

variable {bound : Nat}

theorem Operations.length_le {Op : Type} {ops : List (Kind × Op)} {combine : Position → Op → Node → Node → Node}
    {Operand : Phrase Node} (hoperand : ShortensBelow bound Operand) {left n : Node} {ts rest : List Token}
    (h : Operations ops combine Operand left ts n rest) (hbound : ts.length ≤ bound) : rest.length ≤ ts.length := by
  induction h with
  | done => exact Nat.le_refl _
  | step hop hright hmore ih =>
      rw [List.length_cons] at hbound ⊢
      have hlt := hoperand (by omega) hright
      have hle := ih (by omega)
      omega

theorem Chain.shortens {Op : Type} {ops : List (Kind × Op)} {combine : Position → Op → Node → Node → Node}
    {Operand : Phrase Node} (hoperand : ShortensBelow bound Operand) :
    ShortensBelow bound (Chain ops combine Operand) := by
  intro ts n rest hbound h
  obtain ⟨hfirst, hmore⟩ := h
  have hlt := hoperand hbound hfirst
  have hle := hmore.length_le hoperand (by omega)
  omega

theorem Separated.shortens {α : Type} {Item : Phrase α} (hitem : ShortensBelow bound Item) :
    ShortensBelow bound (Separated Item) := by
  intro ts as rest hbound h
  induction h with
  | one h => exact hitem hbound h
  | more h hcomma hmore ih =>
      have hlt := hitem hbound h
      rw [List.length_cons] at hlt
      have hle := ih (by omega)
      omega

theorem Listed.length_le {α : Type} {Item : Phrase α} (hitem : ShortensBelow bound Item) {as : List α}
    {ts rest : List Token} (h : Listed Item ts as rest) (hbound : ts.length < bound) : rest.length ≤ ts.length := by
  cases h with
  | none => exact Nat.le_refl _
  | some hitems => exact Nat.le_of_lt (Separated.shortens hitem hbound hitems)

theorem Lines.length_le {L : Phrase Node} (hL : ShortensBelow bound L) {body : List Node} {ts rest : List Token}
    (h : Lines L ts body rest) (hbound : ts.length < bound) : rest.length ≤ ts.length := by
  induction h with
  | none => exact Nat.le_refl _
  | blank ht hlines ih =>
      rw [List.length_cons] at hbound ⊢
      have hle := ih (by omega)
      omega
  | statement hstatement ht hlines ih =>
      have hlt := hL hbound hstatement
      rw [List.length_cons] at hlt
      have hle := ih (by omega)
      omega
  | last hstatement ht => exact Nat.le_of_lt (hL hbound hstatement)

theorem Body.shortens {L : Phrase Node} (hL : ShortensBelow bound L) : ShortensBelow bound (Body L) := by
  intro ts body rest hbound h
  obtain ⟨ht, hlines⟩ := h
  rw [List.length_cons] at hbound ⊢
  have hle := hlines.length_le hL (by omega)
  omega

theorem Name.shortens : ShortensBelow bound Name := by
  intro ts x rest hbound h
  cases h
  exact Nat.lt_succ_self _

theorem FunctionName.length_le {name : Option String} {ts rest : List Token} (h : FunctionName ts name rest) :
    rest.length ≤ ts.length := by
  cases h with
  | anonymous => exact Nat.le_refl _
  | named ht => exact Nat.le_succ _

variable {Expr : Phrase Node} (hexpr : ShortensBelow bound Expr)
include hexpr

theorem Statement.shortens : ShortensBelow bound (Statement Expr) := by
  intro ts n rest hbound h
  cases h with
  | expression h => exact hexpr hbound h
  | name ht hop hvalue =>
      simp only [List.length_cons] at hbound ⊢
      have hlt := hexpr (by omega) hvalue
      omega
  | var htarget hop hvalue | item htarget hop hvalue | member htarget hop hvalue =>
      have hlt := hexpr hbound htarget
      rw [List.length_cons] at hlt
      have hlt' := hexpr (by omega) hvalue
      omega

theorem Branch.shortens (p : Position) : ShortensBelow bound (Branch Expr p) := by
  intro ts n rest hbound h
  have hbody := Body.shortens (Statement.shortens hexpr)
  induction h with
  | last htest hb =>
      have hlt := hexpr hbound htest
      have hlt' := hbody (by omega) hb
      omega
  | elif htest hb ht hother ih =>
      have hlt := hexpr hbound htest
      have hlt' := hbody (by omega) hb
      rw [List.length_cons] at hlt'
      have hlt'' := ih (by omega)
      omega
  | otherwise htest hb ht hothers =>
      have hlt := hexpr hbound htest
      have hlt' := hbody (by omega) hb
      rw [List.length_cons] at hlt'
      have hlt'' := hbody (by omega) hothers
      omega

/-- A primary expression starts with a token of its own, so expressions inside it may be one token shorter. -/
theorem Primary.shortens : ShortensBelow (bound + 1) (Primary Expr) := by
  intro ts n rest hbound h
  have hbody := Body.shortens (Statement.shortens hexpr)
  cases h with
  | literal hvalue => simp
  | var ht => simp
  | list ht hitems hclose =>
      simp only [List.length_cons] at hbound ⊢
      have hle := hitems.length_le hexpr (by omega)
      rw [List.length_cons] at hle
      omega
  | group ht hinner hclose =>
      simp only [List.length_cons] at hbound ⊢
      have hlt := hexpr (by omega) hinner
      rw [List.length_cons] at hlt
      omega
  | block ht hb hclose =>
      simp only [List.length_cons] at hbound ⊢
      have hlt := hbody (by omega) hb
      rw [List.length_cons] at hlt
      omega
  | branch ht hbranch hclose =>
      simp only [List.length_cons] at hbound ⊢
      have hlt := Branch.shortens hexpr _ (by omega) hbranch
      rw [List.length_cons] at hlt
      omega
  | forEach ht hname hlink hlist hb hclose =>
      simp only [List.length_cons] at hbound ⊢
      have hlt := hexpr (by omega) hlist
      have hlt' := hbody (by omega) hb
      rw [List.length_cons] at hlt'
      omega
  | loop ht htest hb hclose =>
      simp only [List.length_cons] at hbound ⊢
      have hlt := hexpr (by omega) htest
      have hlt' := hbody (by omega) hb
      rw [List.length_cons] at hlt'
      omega
  | function ht hname hopening hparams hclosing hnodup hb hclose =>
      simp only [List.length_cons] at hbound ⊢
      have hopened := hname.length_le
      rw [List.length_cons] at hopened
      have hnames : ShortensBelow bound Name := Name.shortens
      have hle := hparams.length_le hnames (by omega)
      rw [List.length_cons] at hle
      have hlt := hbody (by omega) hb
      rw [List.length_cons] at hlt
      omega

theorem Accesses.length_le {left n : Node} {ts rest : List Token} (h : Accesses Expr left ts n rest)
    (hbound : ts.length ≤ bound) : rest.length ≤ ts.length := by
  induction h with
  | done => exact Nat.le_refl _
  | member ht hname hmore ih =>
      simp only [List.length_cons] at hbound ⊢
      have hle := ih (by omega)
      omega
  | call ht hargs hclose hmore ih =>
      simp only [List.length_cons] at hbound ⊢
      have hle := hargs.length_le hexpr (by omega)
      rw [List.length_cons] at hle
      have hle' := ih (by omega)
      omega
  | item ht hindex hclose hmore ih =>
      simp only [List.length_cons] at hbound ⊢
      have hlt := hexpr (by omega) hindex
      rw [List.length_cons] at hlt
      have hle := ih (by omega)
      omega

theorem Unary.shortens : ShortensBelow (bound + 1) (Unary Expr) := by
  intro ts n rest hbound h
  induction h with
  | operand h =>
      obtain ⟨hprimary, hmore⟩ := h
      have hlt := Primary.shortens hexpr hbound hprimary
      have hle := hmore.length_le hexpr (by omega)
      omega
  | operator hop hoperand ih =>
      rw [List.length_cons] at hbound ⊢
      have hlt := ih (by omega)
      omega

theorem Factor.shortens : ShortensBelow (bound + 1) (Factor Expr) := by
  intro ts n rest hbound h
  obtain ⟨h⟩ := h
  exact Chain.shortens (Unary.shortens hexpr) hbound h

theorem Term.shortens : ShortensBelow (bound + 1) (Term Expr) := by
  intro ts n rest hbound h
  obtain ⟨h⟩ := h
  exact Chain.shortens (Factor.shortens hexpr) hbound h

theorem Range.shortens : ShortensBelow (bound + 1) (Range Expr) := by
  intro ts n rest hbound h
  have hterm := Term.shortens hexpr
  cases h with
  | single h => exact hterm hbound h
  | upTo hfirst ht hlast =>
      have hlt := hterm hbound hfirst
      rw [List.length_cons] at hlt
      have hlt' := hterm (by omega) hlast
      omega
  | stepped hfirst ht hlast hs hstep =>
      have hlt := hterm hbound hfirst
      rw [List.length_cons] at hlt
      have hlt' := hterm (by omega) hlast
      rw [List.length_cons] at hlt'
      have hlt'' := hterm (by omega) hstep
      omega

theorem Comparison.shortens : ShortensBelow (bound + 1) (Comparison Expr) := by
  intro ts n rest hbound h
  obtain ⟨h⟩ := h
  exact Chain.shortens (Range.shortens hexpr) hbound h

theorem Conjunction.shortens : ShortensBelow (bound + 1) (Conjunction Expr) := by
  intro ts n rest hbound h
  obtain ⟨h⟩ := h
  exact Chain.shortens (Comparison.shortens hexpr) hbound h

theorem Disjunction.shortens : ShortensBelow (bound + 1) (Disjunction Expr) := by
  intro ts n rest hbound h
  obtain ⟨h⟩ := h
  exact Chain.shortens (Conjunction.shortens hexpr) hbound h

end

theorem Expression.shortens (bound : Nat) : ShortensBelow bound Expression := by
  induction bound with
  | zero =>
      intro ts n rest hbound h
      exact absurd hbound (Nat.not_lt_zero _)
  | succ bound ih =>
      intro ts n rest hbound h
      obtain ⟨h⟩ := h
      exact Disjunction.shortens ih hbound h

/-! ### What can follow and start an expression -/

/-- How tightly a token binds that continues an expression; zero for a token that does not. -/
def strength : Kind → Nat
  | .orWord => 1
  | .andWord => 2
  | .equals | .notEquals | .less | .lessEquals | .greater | .greaterEquals => 3
  | .toWord | .stepWord => 4
  | .plus | .minus => 5
  | .star | .slash => 6
  | .dot | .parenLeft | .bracketLeft => 7
  | _ => 0

/-- A phrase of this level or above ends before these tokens. -/
def Stops (level : Nat) (ts : List Token) : Prop :=
  ∀ t ∈ ts.head?, strength t.kind < level

theorem Stops.mono {level level' : Nat} {ts : List Token} (h : Stops level ts) (hle : level ≤ level') :
    Stops level' ts :=
  fun t ht => Nat.lt_of_lt_of_le (h t ht) hle

theorem stops_cons {level : Nat} {t : Token} {ts : List Token} : Stops level (t :: ts) ↔ strength t.kind < level := by
  simp [Stops]

/-- The kinds of tokens that a primary expression starts with. -/
def startsPrimary : Kind → Bool
  | .noneLiteral | .trueLiteral | .falseLiteral | .stringLiteral | .numberLiteral | .identifier | .bracketLeft
  | .parenLeft | .beginWord | .ifWord | .forWord | .funcWord => true
  | _ => false

/-- The kinds of tokens that an expression starts with. -/
def startsExpression (kind : Kind) : Bool :=
  startsPrimary kind || kind == .notWord || kind == .minus

/-- The kinds of tokens that close lines. -/
def closesLines : Kind → Bool
  | .endWord | .elifWord | .elseWord | .endOfFile => true
  | _ => false

theorem Primary.starts {Expr : Phrase Node} {n : Node} {ts rest : List Token} (h : Primary Expr ts n rest) :
    ∃ t tail, ts = t :: tail ∧ startsPrimary t.kind = true := by
  cases h with
  | literal hvalue => cases hvalue <;> exact ⟨_, _, rfl, by simp [*, startsPrimary]⟩
  | _ => exact ⟨_, _, rfl, by simp [*, startsPrimary]⟩

theorem Unary.starts {Expr : Phrase Node} {n : Node} {ts rest : List Token} (h : Unary Expr ts n rest) :
    ∃ t tail, ts = t :: tail ∧ startsExpression t.kind = true := by
  cases h with
  | operand h =>
      obtain ⟨hprimary, -⟩ := h
      obtain ⟨t, tail, hts, hstart⟩ := hprimary.starts
      exact ⟨t, tail, hts, by simp [startsExpression, hstart]⟩
  | operator hop hoperand =>
      refine ⟨_, _, rfl, ?_⟩
      simp only [unaryOps, List.mem_cons, Prod.mk.injEq, List.not_mem_nil, or_false] at hop
      rcases hop with ⟨hkind, -⟩ | ⟨hkind, -⟩ <;> rw [hkind] <;> rfl

theorem Expression.starts {n : Node} {ts rest : List Token} (h : Expression ts n rest) :
    ∃ t tail, ts = t :: tail ∧ startsExpression t.kind = true := by
  obtain ⟨⟨⟨⟨⟨⟨⟨hrange, -⟩⟩, -⟩⟩, -⟩⟩⟩ := h
  have hterm : ∃ first mid, Term Expression ts first mid := by
    cases hrange with
    | single h => exact ⟨_, _, h⟩
    | upTo h => exact ⟨_, _, h⟩
    | stepped h => exact ⟨_, _, h⟩
  obtain ⟨first, mid, ⟨⟨⟨⟨hunary, -⟩⟩, -⟩⟩⟩ := hterm
  exact hunary.starts

theorem Statement.starts {n : Node} {ts rest : List Token} (h : Statement Expression ts n rest) :
    ∃ t tail, ts = t :: tail ∧ startsExpression t.kind = true := by
  cases h with
  | expression h => exact h.starts
  | name ht => exact ⟨_, _, rfl, by rw [ht]; rfl⟩
  | var h | item h | member h => exact h.starts

/-- The first token of an expression neither ends a line nor closes lines. -/
theorem ne_of_startsExpression {kind : Kind} (h : startsExpression kind = true) :
    kind ≠ .endOfLine ∧ kind ≠ .endOfFile ∧ closesLines kind = false := by
  revert h
  cases kind <;> decide

end LineScript.Grammar
