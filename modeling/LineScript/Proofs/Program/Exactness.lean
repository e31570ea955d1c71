import LineScript.Program.Equality
import LineScript.Proofs.Program.Completeness
/-!
# The parser is the grammar

A source without lexical mistakes is accepted exactly when the grammar derives its tokens, and its program is the tree
of the derivation, of which there is only one.
-/

namespace LineScript.Program

open Grammar LineScript.Parser

variable {source text : String} {ts : List Token}

theorem length_lt_fuel (hlex : (Lexer.ofSource source text).Yields ts) : ts.length < text.length + 2 := by
  have hle := hlex.ended_and_length_le.2
  rw [Lexer.ofSource, String.length_toList] at hle
  omega

/-- An accepted program is derived by the grammar. -/
theorem derives_of_parse (hlex : (Lexer.ofSource source text).Yields ts) {program : Program}
    (hparse : parse source text = .ok program) : program.source = source ∧ Derives ts program.body := by
  obtain ⟨hsource, t, ht, hlines⟩ := lines_of_parse hlex hparse Expression.intro
  exact ⟨hsource, .intro hlines ht⟩

/-- What the grammar derives is accepted. -/
theorem parse_of_derives (hlex : (Lexer.ofSource source text).Yields ts) {body : List Node} (h : Derives ts body) :
    parse source text = .ok ⟨source, body⟩ := by
  obtain ⟨hlines, ht⟩ := h
  have hlt := length_lt_fuel hlex
  have hclosers : ∀ kind, kind = Token.Kind.endOfFile ∨ kind ∈ [] → closesLines kind = true := by
    rintro kind (rfl | hmem)
    · rfl
    · cases hmem
  obtain ⟨c, hcursor, hsees⟩ := Cursor.ofLexer_sees hlex
  obtain ⟨c', hrun, -⟩ := reads_lines (reads_expression (text.length + 2)) hclosers hlines ⟨_, [], rfl, .inl ht⟩ hlt
    (Nat.le_of_lt hlt) c hsees
  simp only [parse, parseWith, hcursor, bind, Except.bind, StateT.run, hrun]
  rfl

/-- **The parser accepts exactly the grammar.** A source that lexes is a program if and only if the grammar derives its
tokens; the program's body is the tree of the derivation, and no other tree can be derived. -/
theorem parse_eq_ok_iff_derives {l : Lexer} (hlex : (Lexer.ofSource source text).tokens = (ts, .ok l)) :
    (∀ program, parse source text = .ok program ↔ program.source = source ∧ Derives ts program.body) ∧
      ∀ body body', Derives ts body → Derives ts body' → body = body' := by
  have hyields : (Lexer.ofSource source text).Yields ts := ⟨l, hlex⟩
  refine ⟨fun program => ⟨derives_of_parse hyields, ?_⟩, fun body body' h h' => ?_⟩
  · rintro ⟨rfl, h⟩
    exact parse_of_derives hyields h
  · have heq := (parse_of_derives hyields h).symm.trans (parse_of_derives hyields h')
    cases heq
    rfl

set_option maxRecDepth 20000 in
/-- A parenthesised target, a compound assignment, operators that associate to the left and a negated operand. -/
theorem derives_compound_assignment :
    Derives
      [⟨.parenLeft, "(", ⟨"s", 1, 1⟩⟩, ⟨.identifier, "x", ⟨"s", 1, 2⟩⟩, ⟨.parenRight, ")", ⟨"s", 1, 3⟩⟩,
       ⟨.minusAssign, "-=", ⟨"s", 1, 5⟩⟩, ⟨.identifier, "a", ⟨"s", 1, 8⟩⟩, ⟨.minus, "-", ⟨"s", 1, 10⟩⟩,
       ⟨.minus, "-", ⟨"s", 1, 12⟩⟩, ⟨.identifier, "b", ⟨"s", 1, 13⟩⟩, ⟨.minus, "-", ⟨"s", 1, 15⟩⟩,
       ⟨.identifier, "c", ⟨"s", 1, 17⟩⟩, ⟨.endOfFile, "", ⟨"s", 1, 18⟩⟩]
      [.assign ⟨"s", 1, 2⟩ "x" (.binary ⟨"s", 1, 5⟩ .subtract (.var ⟨"s", 1, 2⟩ "x")
        (.binary ⟨"s", 1, 15⟩ .subtract
          (.binary ⟨"s", 1, 10⟩ .subtract (.var ⟨"s", 1, 8⟩ "a")
            (.unary ⟨"s", 1, 12⟩ .negate (.var ⟨"s", 1, 13⟩ "b")))
          (.var ⟨"s", 1, 17⟩ "c")))] := by
  have hlex : (Lexer.ofSource "s" "(x) -= a - -b - c").tokens =
      ([⟨.parenLeft, "(", ⟨"s", 1, 1⟩⟩, ⟨.identifier, "x", ⟨"s", 1, 2⟩⟩, ⟨.parenRight, ")", ⟨"s", 1, 3⟩⟩,
        ⟨.minusAssign, "-=", ⟨"s", 1, 5⟩⟩, ⟨.identifier, "a", ⟨"s", 1, 8⟩⟩, ⟨.minus, "-", ⟨"s", 1, 10⟩⟩,
        ⟨.minus, "-", ⟨"s", 1, 12⟩⟩, ⟨.identifier, "b", ⟨"s", 1, 13⟩⟩, ⟨.minus, "-", ⟨"s", 1, 15⟩⟩,
        ⟨.identifier, "c", ⟨"s", 1, 17⟩⟩, ⟨.endOfFile, "", ⟨"s", 1, 18⟩⟩], .ok ⟨[], ⟨"s", 1, 18⟩⟩) := by
    decide +kernel
  have hparse : parse "s" "(x) -= a - -b - c" = .ok ⟨"s",
      [.assign ⟨"s", 1, 2⟩ "x" (.binary ⟨"s", 1, 5⟩ .subtract (.var ⟨"s", 1, 2⟩ "x")
        (.binary ⟨"s", 1, 15⟩ .subtract
          (.binary ⟨"s", 1, 10⟩ .subtract (.var ⟨"s", 1, 8⟩ "a")
            (.unary ⟨"s", 1, 12⟩ .negate (.var ⟨"s", 1, 13⟩ "b")))
          (.var ⟨"s", 1, 17⟩ "c")))]⟩ := by
    decide +kernel
  exact (((parse_eq_ok_iff_derives hlex).1 _).1 hparse).2

end LineScript.Program
