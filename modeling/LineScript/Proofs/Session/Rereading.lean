import LineScript.Proofs.Evaluation.Copying
import LineScript.Proofs.Heap.Rendering
import LineScript.Proofs.Program.Exactness
import LineScript.Proofs.Token.Scanning
import LineScript.Session
/-!
# The text of data is a program for it

The text of `none`, of truth values, of numbers and of arrays of such data without cycles reads as one expression, a
literal, a negated number or a list, and running it makes a value equal to the one that was shown.
-/

namespace LineScript

open Grammar Eval Lexer

/-- Where it may stand in a list or at the end of a source, the text is an expression that makes a copy of the value. -/
def Rereads (h : Heap) (depth : Nat) (text : List Char) (v : Value) : Prop :=
  ∀ rest, Scan.Closes rest → ∀ p, ∃ t ts n p', Scans ⟨text ++ rest, p⟩ (t :: ts) ⟨rest, p'⟩ ∧
    (∀ behind, Expression (t :: ts ++ behind) n behind) ∧ Copies h depth n v

variable {h : Heap} {depth : Nat}

/-! ### Words and numbers -/

theorem rereads_word (c : Char) (run : List Char) {kind : Token.Kind} {literal : Literal} {v : Value}
    (hc : Scan.isIndent c = false ∧ Scan.startsWord c = true ∧ c ≠ '\n' ∧ Scan.isDigit c = false)
    (hrun : (c :: run).all Scan.continuesWord = true)
    (hkeyword : Token.keyword? (String.ofList (c :: run)) = some kind)
    (hdenotes : ∀ t : Token, t.kind = kind → Denotes t literal) (hagrees : v.Agrees literal.value) :
    Rereads h depth (c :: run) v := by
  intro rest hrest p
  obtain ⟨hindent, hword, hline, hdigit⟩ := hc
  have hscan := Scan.ofChars_word hword hline hdigit (List.all_eq_true.1 hrun) hrest.not_word
  rw [hkeyword] at hscan
  refine ⟨_, [], _, _, .one (next_of_scan hindent hscan p) (Token.keyword?_ne_endOfFile hkeyword), fun behind => ?_,
    copies_literal hagrees p⟩
  exact Expression.of_unary (Unary.of_primary (.literal (hdenotes _ rfl)))

theorem unary_magnitudeChars (a : Decimal) (p : Position) (behind : List Token) :
    Unary Expression
      (⟨.numberLiteral, String.ofList (Decimal.magnitudeChars a.mantissa a.scale), p⟩ :: behind)
      (.literal p (.number a.magnitude)) behind := by
  refine Unary.of_primary (.literal (.number rfl ?_))
  rw [String.toList_ofList]
  exact a.ofChars?_magnitudeChars

theorem rereads_number (n : Decimal) : Rereads h depth n.normalized.chars (.number n) := by
  intro rest hrest p
  have hvalue := n.value_normalized
  generalize n.normalized = a at hvalue ⊢
  have hnumber (p : Position) := next_magnitudeChars a.mantissa a.scale hrest p
  unfold Decimal.chars
  split
  · rename_i hneg
    obtain ⟨d, tail, hchars⟩ := Decimal.exists_magnitudeChars_eq a.mantissa a.scale
    have hminus := next_minus d (tail ++ rest) p
    rw [← List.cons_append, ← hchars] at hminus
    refine ⟨_, _, .unary p .negate (.literal (p.next '-') (.number a.magnitude)), _,
      .step hminus (by simp) (.one (hnumber _) (by simp)), fun behind => ?_, copies_negated ?_ _ _⟩
    · exact Expression.of_unary (.operator (by simp [unaryOps]) (unary_magnitudeChars a _ behind))
    · rw [Decimal.neg_magnitude_of_isNegative hneg, hvalue]
  · rename_i hsign
    refine ⟨_, [], .literal p (.number a.magnitude), _, .one (hnumber p) (by simp), fun behind => ?_,
      copies_literal (.number ?_) p⟩
    · exact Expression.of_unary (unary_magnitudeChars a p behind)
    · rw [Decimal.magnitude_of_not_isNegative (Bool.not_eq_true _ ▸ hsign), hvalue]

/-! ### Arrays -/

/-- Items with commas between them, up to the closing bracket. -/
theorem scans_items {text : Value → List Char} {x : Value} {xs : List Value}
    (hitems : ∀ v ∈ x :: xs, Rereads h depth (text v) v) (rest : List Char) (p : Position) :
    ∃ t ts nodes p',
      Scans ⟨text x ++ (xs.flatMap (fun y => ", ".toList ++ text y) ++ ']' :: rest), p⟩ (t :: ts) ⟨']' :: rest, p'⟩ ∧
        (∀ behind, Separated Expression (t :: ts ++ behind) nodes behind) ∧
        List.Forall₂ (Copies h depth) nodes (x :: xs) := by
  induction xs generalizing x p with
  | nil =>
      obtain ⟨t, ts, n, p', hscans, hexpression, hcopies⟩ :=
        hitems x List.mem_cons_self (']' :: rest) (Scan.closes_bracket rest) p
      exact ⟨t, ts, [n], p', hscans, fun behind => .one (hexpression behind), .cons hcopies .nil⟩
  | cons y ys ih =>
      rw [List.forall_mem_cons] at hitems
      obtain ⟨hx, hrest⟩ := hitems
      obtain ⟨t, ts, n, p₁, hscans, hexpression, hcopies⟩ := hx
        (',' :: ' ' :: (text y ++ (ys.flatMap (fun y => ", ".toList ++ text y) ++ ']' :: rest))) (Scan.closes_comma _) p
      obtain ⟨t', ts', nodes, p', hscans', hseparated, hcopies'⟩ := ih hrest ((p₁.next ',').next ' ')
      refine ⟨t, ts ++ ⟨.comma, String.ofList [','], p₁⟩ :: t' :: ts', n :: nodes, p', ?_, fun behind => ?_,
        .cons hcopies hcopies'⟩
      · have hblank := Lexer.next_blank (c := ' ') (by decide)
          (text y ++ (ys.flatMap (fun y => ", ".toList ++ text y) ++ ']' :: rest)) (p₁.next ',')
        cases hscans' with
        | step hnext ht htail =>
            have hafter := Scans.step (next_symbol ',' .comma (by decide) _ p₁) (by simp)
              (.step (hblank.trans hnext) ht htail)
            simpa using hscans.append hafter
      · have hmore : Separated Expression _ _ behind :=
          .more (hexpression (⟨.comma, String.ofList [','], p₁⟩ :: (t' :: ts' ++ behind))) rfl (hseparated behind)
        simpa using hmore

/-- The text of an array is that of its items between brackets. -/
theorem rereads_array {id : ArrayId} (hid : id.index < h.arrays.size) {render : Value → String}
    (hitems : ∀ v ∈ h.items id, Rereads h depth (render v).toList v) :
    Rereads h (depth + 1) (enclosed "[" "]" render (h.items id).toList).toList (.array id) := by
  intro rest _ p
  have hleft (rest : List Char) := next_symbol '[' .bracketLeft (by decide) rest p
  have hright (p : Position) := next_symbol ']' .bracketRight (by decide) rest p
  cases hlist : (h.items id).toList with
  | nil =>
      have htext : (enclosed "[" "]" render []).toList = ['[', ']'] := by simp [enclosed]
      have hnodes : List.Forall₂ (Copies h depth) [] (h.items id).toList := hlist ▸ .nil
      rw [htext]
      refine ⟨_, _, .list p [], _, .step (hleft (']' :: rest)) (by simp) (.one (hright _) (by simp)), fun behind => ?_,
        copies_list hid hnodes p⟩
      exact Expression.of_unary (Unary.of_primary (.list rfl .none rfl))
  | cons x xs =>
      have hmem : ∀ v ∈ x :: xs, Rereads h depth (render v).toList v := fun v hv =>
        hitems v (Array.mem_toList_iff.1 (hlist ▸ hv))
      obtain ⟨t, ts, nodes, p', hscans, hseparated, hnodes⟩ := scans_items hmem rest (p.next '[')
      have htext : (enclosed "[" "]" render (x :: xs)).toList ++ rest =
          '[' :: ((render x).toList ++ (xs.flatMap (fun y => ", ".toList ++ (render y).toList) ++ ']' :: rest)) := by
        simp [toList_enclosed]
      rw [← hlist] at hnodes
      rw [htext]
      refine ⟨_, t :: ts ++ [⟨.bracketRight, String.ofList [']'], p'⟩], .list p nodes, p'.next ']',
        .step (hleft _) (by simp) (hscans.append (.one (hright p') (by simp))), fun behind => ?_,
        copies_list hid hnodes p⟩
      have hlisted := Listed.some (hseparated (⟨.bracketRight, String.ofList [']'], p'⟩ :: behind))
      rw [List.cons_append, List.append_assoc]
      exact Expression.of_unary (Unary.of_primary (.list rfl hlisted rfl))

/-! ### The text of data -/

theorem rereads_displayWithin {v : Value} (hplain : h.Plain v) {fuel : Nat} {path : List ArrayId}
    (houtside : h.Outside fuel path v) : Rereads h fuel (h.displayWithin fuel path v).toList v := by
  induction hplain generalizing fuel path with
  | none =>
      rw [Heap.displayWithin]
      exact rereads_word 'n' ['o', 'n', 'e'] (by decide) (by decide) rfl (fun t ht => .none ht) .none
  | bool b =>
      rw [Heap.displayWithin]
      cases b with
      | true =>
          exact rereads_word 't' ['r', 'u', 'e'] (by decide) (by decide) rfl (fun t ht => .true ht) (.bool true)
      | false =>
          exact rereads_word 'f' ['a', 'l', 's', 'e'] (by decide) (by decide) rfl (fun t ht => .false ht) (.bool false)
  | number n =>
      rw [Heap.displayWithin, Decimal.text, String.toList_ofList]
      exact rereads_number n
  | array hid hitems ih =>
      obtain ⟨rest, rfl, htext, hinside⟩ := houtside.array (.array hid hitems)
      rw [htext]
      exact rereads_array hid fun v hv => ih v hv (hinside v hv)

/-- The text of data is read as one expression that makes a copy of it. -/
theorem exists_parse_display (source : String) {v : Value} (hplain : h.Plain v) :
    ∃ n, Program.parse source (h.display v) = .ok ⟨source, [n]⟩ ∧ Copies h (h.arrays.size + 1) n v := by
  obtain ⟨t, ts, n, p, hscans, hexpression, hcopies⟩ :=
    rereads_displayWithin hplain (h.outside_nil v) [] Scan.closes_nil (.start source)
  rw [List.append_nil] at hscans
  refine ⟨n, Program.parse_of_derives (hscans.yields (yields_nil p)) ?_, hcopies⟩
  exact .intro (.last (.expression (hexpression _)) rfl) rfl

namespace Session

/-- A program that is one expression ends in the value of the expression. -/
theorem runWith_of_execute {s : Session} {m made : Machine} {source : String} {n : Node} {v : Value} {fuel : Nat}
    (hrun : Eval.execute fuel (.node (s.start m).root n) (s.start m).machine = .ok v made) :
    s.runWith fuel ⟨source, [n]⟩ m = finish (s.start m).arena m.limit (.ok v made) := by
  have hbody : statements (Eval.execute fuel) (s.start m).root .none [n] (s.start m).machine = .ok v made := by
    rw [statements, Action.bind_of_ok hrun]
    rfl
  exact congrArg (finish _ _) hbody

/-- **The text of data is a program for it.** The text of `none`, a truth value, a number or an array of such data
without cycles is a program. A session runs it on the machine that holds the data, whatever its library and its limit of
calls, and ends in a value that is equal to the data. It takes no more fuel than the arrays of the heap can be nested,
and leaves every array as it was. -/
theorem running_display_restores (s : Session) (source : String) (m : Machine) {v : Value} (hplain : m.heap.Plain v) :
    ∃ p copy m', Program.parse source (m.heap.display v) = .ok p ∧
      (∀ fuel, m.heap.arrays.size + 3 ≤ fuel → s.runWith fuel p m = .ok copy m') ∧
      (m.heap.arrays.size + 3 ≤ Session.fuel → s.execute source (m.heap.display v) m = .ok copy m') ∧
      m.heap.Extends m'.heap ∧ m'.heap.equal v copy = true := by
  obtain ⟨n, hparse, hcopies⟩ := exists_parse_display source hplain
  obtain ⟨copy, made, hrun, hextends, hequal⟩ := hcopies (s.start m).root (s.start m).machine (.refl _)
  have hruns (fuel : Nat) (hfuel : m.heap.arrays.size + 3 ≤ fuel) : s.runWith fuel ⟨source, [n]⟩ m = _ :=
    runWith_of_execute (hrun fuel hfuel)
  refine ⟨_, copy, _, hparse, hruns, fun hfuel => ?_, hextends, (Heap.equal_iff _ _ _).2 (hequal made (.refl made))⟩
  rw [execute, Action.bind_of_ok (show compile source (m.heap.display v) m = .ok _ m by rw [compile, hparse]; rfl)]
  exact hruns fuel hfuel

/-- An array with a negative number and a zero with a sign, an empty array, a truth value, and the first array once
more. -/
def sharing : Heap :=
  ⟨#[#[.number ⟨true, 150, 2, by decide, by decide⟩, .none, .number Decimal.zero.neg], #[],
    #[.array ⟨0⟩, .array ⟨1⟩, .bool true, .array ⟨0⟩]], #[], #[]⟩

theorem sharing_display_restores :
    sharing.Plain (.array ⟨2⟩) ∧ sharing.display (.array ⟨2⟩) = "[[-1.5, none, 0], [], true, [-1.5, none, 0]]" ∧
      ∃ copy m', execute ⟨[], 8⟩ "test" (sharing.display (.array ⟨2⟩))
          { Machine.ofConsole (.ofInput []) with heap := sharing } = .ok copy m' ∧
        m'.heap.equal (.array ⟨2⟩) copy = true := by
  have hfirst : sharing.Plain (.array ⟨0⟩) := by
    refine .array (by decide) fun v hv => ?_
    have hv : v ∈ #[Value.number ⟨true, 150, 2, by decide, by decide⟩, .none, .number Decimal.zero.neg] := hv
    simp only [List.mem_toArray, List.mem_cons, List.not_mem_nil, or_false] at hv
    rcases hv with rfl | rfl | rfl
    · exact .number _
    · exact .none
    · exact .number _
  have hplain : sharing.Plain (.array ⟨2⟩) := by
    refine .array (by decide) fun v hv => ?_
    have hv : v ∈ #[Value.array ⟨0⟩, .array ⟨1⟩, .bool true, .array ⟨0⟩] := hv
    simp only [List.mem_toArray, List.mem_cons, List.not_mem_nil, or_false] at hv
    rcases hv with rfl | rfl | rfl | rfl
    · exact hfirst
    · exact .array (by decide) fun v hv => (Array.not_mem_empty v hv).elim
    · exact .bool true
    · exact hfirst
  obtain ⟨_, copy, m', -, -, hexecute, -, hequal⟩ :=
    running_display_restores ⟨[], 8⟩ "test" { Machine.ofConsole (.ofInput []) with heap := sharing } hplain
  exact ⟨hplain, by decide +kernel, copy, m', hexecute (by decide), hequal⟩

end Session

end LineScript
