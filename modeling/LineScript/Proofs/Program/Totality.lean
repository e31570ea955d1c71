import LineScript.Proofs.Program.Lookahead
import LineScript.Proofs.Token.Partition
/-!
# Reading always ends

Every text is a program or is rejected at a place in it. The parser never fails its own invariants: it asks for no token
beyond those in view, and for the operator or the literal of a token only where that token is one. It ends because it
goes on to nothing before it has taken a token, neither to the next round of a loop nor to an expression inside another,
and the end of the file is not taken.
-/

namespace LineScript

/-! ### Places in a text -/

namespace Lexer

variable {source : String} {before text : List Char} {ts : List Token} {l : Lexer} {t : Token}

/-- Tokens take characters off the text, and the position behind them is that of the characters. -/
theorem Scans.position_eq {start : Lexer} (h : start.Scans ts l) (hstart : start = ⟨text, .past source before⟩) :
    ∃ taken, text = taken ++ l.rest ∧ l.position = .past source (before ++ taken) := by
  induction h generalizing before text with
  | done =>
      subst hstart
      exact ⟨[], rfl, by rw [List.append_nil]⟩
  | @step l l₁ l₂ t ts hnext hkind _ ih =>
      subst hstart
      obtain ⟨gap, raw, -, rfl, hposition, -⟩ := next_eq_ok hnext
      have hlater : l₁ = ⟨l₁.rest, .past source (before ++ gap ++ raw)⟩ := by rw [← hposition]
      obtain ⟨taken, hrest, hlast⟩ := ih hlater
      exact ⟨gap ++ raw ++ taken, by simp [hrest], by simpa using hlast⟩

/-- A token that the lexer yields stands at a place in the text. -/
theorem Hands.position_eq (h : Hands ⟨text, .past source before⟩ t) :
    ∃ more, more <+: text ∧ t.position = .past source (before ++ more) := by
  obtain ⟨ts, l₁, l₂, u, l₃, hscans, hnext, -⟩ := h
  obtain ⟨taken, rfl, hposition⟩ := hscans.position_eq rfl
  have hnext' : next ⟨l₁.rest, .past source (before ++ taken)⟩ = .ok (t, l₂) := by rw [← hposition]; exact hnext
  obtain ⟨gap, raw, -, hrest, -, ht, -⟩ := next_eq_ok hnext'
  refine ⟨taken ++ gap, (List.prefix_append_right_inj taken).2 ?_, by rw [ht, List.append_assoc]⟩
  exact ⟨raw ++ l₂.rest, by rw [hrest, List.append_assoc]⟩

/-- The first mistake of a text is met at a place in it. -/
theorem mistake_position_eq {text : String} {e : SyntaxError} (h : (ofSource source text).tokens.2 = .error e) :
    ∃ before, before <+: text.toList ∧ e.position = .past source before := by
  have hcut := cut_tokens source [] text.toList
  change (tokens ⟨text.toList, .past source []⟩).2 = _ at h
  generalize tokens ⟨text.toList, .past source []⟩ = result at h hcut
  obtain ⟨ts, ending⟩ := result
  obtain rfl := h
  obtain ⟨taken, rest, more, htext, -, hmore, hposition⟩ := hcut
  exact ⟨taken ++ more, htext ▸ (List.prefix_append_right_inj taken).2 hmore, hposition⟩

end Lexer

/-! ### String literals start at a quote -/

namespace Scan

/-- A string literal or a mistake in one. -/
def IsString : Scan → Prop
  | lexeme kind _ _ _ => kind = .stringLiteral
  | mistake cause _ =>
      match cause with
      | .unterminatedString | .invalidEscape _ => True
      | _ => False

theorem not_isString_singleSymbol (c : Char) (rest : List Char) : ¬ (singleSymbol c rest).IsString := by
  unfold singleSymbol Token.singleSymbol?
  split
  next kind hkind =>
    have hmem := Token.mem_of_lookup hkind
    rintro rfl
    simp [Token.singleSymbols] at hmem
  next => exact id

theorem not_isString_symbol (c : Char) (rest : List Char) : ¬ (symbol c rest).IsString := by
  unfold symbol
  split
  next => exact not_isString_singleSymbol c []
  next second rest =>
    split
    next kind hkind =>
      have hmem := Token.mem_of_lookup hkind
      rintro rfl
      simp [Token.doubleSymbols] at hmem
    next => exact not_isString_singleSymbol c _

theorem not_isString_word (text : List Char) : ¬ (word text).IsString := by
  simp only [word, IsString, Token.keyword?]
  cases hkind : Token.keywords.lookup (String.ofList (text.takeWhile continuesWord)) with
  | none => simp
  | some kind =>
      have hmem := Token.mem_of_lookup hkind
      rintro rfl
      simp [Token.keywords] at hmem

theorem not_isString_number (text : List Char) : ¬ (number text).IsString := by
  unfold number
  split <;> simp [IsString]

/-- A string literal is begun nowhere but at a quote. -/
theorem ofChars_of_isString {text : List Char} (h : (ofChars text).IsString) :
    ∃ quote behind, text = quote :: behind ∧ (quote = '"' ∨ quote = '\'') ∧
      ofChars text = string quote [] [quote] behind := by
  cases text with
  | nil => cases h
  | cons c rest =>
      simp only [ofChars] at h ⊢
      by_cases hline : c = '\n'
      · rw [if_pos hline] at h
        cases h
      by_cases hdigit : isDigit c = true
      · rw [if_neg hline, if_pos hdigit] at h
        exact absurd h (not_isString_number _)
      by_cases hword : startsWord c = true
      · rw [if_neg hline, if_neg hdigit, if_pos hword] at h
        exact absurd h (not_isString_word _)
      rw [if_neg hline, if_neg hdigit, if_neg hword] at h ⊢
      by_cases hquote : c = '"' ∨ c = '\''
      · exact ⟨c, rest, rfl, hquote, if_pos hquote⟩
      · rw [if_neg hquote] at h
        exact absurd h (not_isString_symbol c rest)

end Scan

namespace Parser

variable {α : Type}

/-! ### How long a parser lasts -/

/-- Where these tokens are in view, the parser follows a plan that takes at least `n` tokens of the source before it is
out of fuel, and in which nothing breaks. -/
def LastsAt (v : View) (n : Nat) (p : Parser α) : Prop :=
  ∃ plan : Plan α, (∀ c, c.Shows v → plan.run c = p c) ∧ plan.Orderly v ∧ plan.Lasts n

/-- The parser lasts for `n` tokens whatever is in view. -/
def Lasts (n : Nat) (p : Parser α) : Prop :=
  ∀ v, LastsAt v n p

/-- The same tokens, up to their end. -/
def sameTokens : Correspondence :=
  ⟨fun _ => True, id, False⟩

theorem alike_sameTokens (v : View) : sameTokens.Alike v v :=
  ⟨trivial, .inl rfl, fun _ => .inl rfl⟩

section

variable {r : α → α} {v : View} {least bound : Nat} {p q : Parser α}

theorem Conforms.lastsAt (h : Conforms sameTokens r v v least bound p q) : LastsAt v bound p :=
  h.exists_plan id (fun _ => trivial) (alike_sameTokens v)

theorem Agree.lasts (h : Agree sameTokens r least bound p q) : Lasts bound p :=
  fun v => (h (alike_sameTokens v)).lastsAt

/-- On the same tokens a parser with less fuel does the same, if it does not run out of it. -/
theorem Conforms.eq_or_exhausted {v' : View} (hr : ∀ a, r a = a) (h : Conforms sameTokens r v v' least bound p q)
    (hview : v' = v) {c : Cursor} (hshows : c.Shows v) : p c = q c ∨ p c = .error .outOfFuel := by
  induction h generalizing c with
  | @done _ _ _ a _ =>
      rw [hr]
      exact .inl rfl
  | reject => exact .inl rfl
  | refuse hgoes => exact absurd hgoes id
  | exhausted => exact .inr rfl
  | first _ ih =>
      subst hview
      rw [bind_of_ok hshows.peek_zero, bind_of_ok hshows.peek_zero]
      exact ih rfl hshows
  | second _ ih =>
      subst hview
      rw [bind_of_ok hshows.peek_one, bind_of_ok hshows.peek_one]
      exact ih rfl hshows
  | take _ _ ih =>
      subst hview
      cases hthird : c.lexer.next with
      | error e =>
          have hadvance := Cursor.advance_eq_error hthird
          exact .inl ((bind_of_error hadvance).trans (bind_of_error hadvance).symm)
      | ok result =>
          obtain ⟨third, last⟩ := result
          obtain ⟨c₁, hadvance, -, hshows₁⟩ := hshows.advance_eq_ok hthird
          rw [bind_of_ok hadvance, bind_of_ok hadvance]
          exact ih third third (alike_sameTokens _) rfl hshows₁

end

/-! ### Every round takes a token -/

/-- The loops of the grammar, over a parser of expressions that lasts for `rounds` tokens. None of them is through with
its `rounds` before it has taken as many tokens. -/
structure LoopsTakeTokens (expression : Parser Node) (rounds : Nat) : Prop where
  disjuncts : ∀ left, Lasts rounds
    (chainFrom (· == .orWord) (logical .or) (conjunction expression rounds) rounds left)
  conjuncts : ∀ left, Lasts rounds
    (chainFrom (· == .andWord) (logical .and) (comparison expression rounds) rounds left)
  comparisons : ∀ left, Lasts rounds
    (chainFrom Token.Kind.isComparison binary (range (term expression rounds)) rounds left)
  terms : ∀ left, Lasts rounds (chainFrom Token.Kind.isTermOperator binary (factor expression rounds) rounds left)
  factors : ∀ left, Lasts rounds
    (chainFrom Token.Kind.isFactorOperator binary (unary (postfixed expression rounds) rounds) rounds left)
  signs : Lasts rounds (unary (postfixed expression rounds) rounds)
  accesses : ∀ left, Lasts rounds (postfixFrom expression rounds left)
  items : ∀ close, close ≠ .endOfFile → Lasts rounds (itemsFrom expression close rounds)
  statements : ∀ close others, Lasts rounds (lines expression close others rounds)
  branches : ∀ v : View, v.first.kind ≠ .endOfFile → LastsAt v rounds (branch expression rounds)
  parameters : ∀ earlier, Lasts rounds (paramsFrom earlier rounds)

/-- Each loop takes a token in each of its rounds. -/
theorem loopsTakeTokens (rounds : Nat) : LoopsTakeTokens (expression (rounds + 1)) rounds := by
  have he : Agree sameTokens sameTokens.node 1 (rounds + 1 - 1) (expression (rounds + 1))
      (expression (0 + (rounds + 1))) := agree_expression
  have hbound : rounds ≤ rounds + 1 := Nat.le_succ rounds
  have hrounds : rounds ≤ rounds := Nat.le_refl rounds
  have hchain : ∀ {isOp combine operand operand'}, isOp .endOfFile = false ∧ isOp .endOfLine = false →
      sameTokens.Combines isOp combine → Agree sameTokens sameTokens.node 1 rounds operand operand' →
      ∀ left, Lasts rounds (chainFrom isOp combine operand rounds left) := fun hop hcombine hoperand _ =>
    (agree_chainFrom (m := 0) hop hcombine hoperand hrounds hrounds rfl).lasts
  exact
    { disjuncts := hchain ⟨rfl, rfl⟩ (combines_logical _ .or) (agree_conjunction (m := 0) he hbound hrounds)
      conjuncts := hchain ⟨rfl, rfl⟩ (combines_logical _ .and) (agree_comparison (m := 0) he hbound hrounds)
      comparisons := hchain ⟨rfl, rfl⟩ (combines_binary exists_binaryOp_of_comparison)
        (agree_range (agree_term (m := 0) he hbound hrounds))
      terms := hchain ⟨rfl, rfl⟩ (combines_binary exists_binaryOp_of_term)
        (agree_factor (m := 0) he hbound hrounds)
      factors := hchain ⟨rfl, rfl⟩ (combines_binary exists_binaryOp_of_factor)
        (agree_signs (m := 0) he hbound hrounds)
      signs := (agree_signs (m := 0) he hbound hrounds).lasts
      accesses := fun _ => (agree_postfixFrom (m := 0) he hbound hrounds rfl).lasts
      items := fun _ hclose => (agree_itemsFrom (m := 0) he hclose hrounds hrounds).lasts
      statements := fun _ _ => (agree_lines (m := 0) he nofun hrounds hrounds).lasts
      branches := fun v hv => (conforms_branch (m := 0) he hbound hrounds (alike_sameTokens v) hv).lastsAt
      parameters := fun earlier => (agree_paramsFrom (m := 0) hrounds earlier).lasts }

/-- A parser of expressions is not asked for the expressions inside before a token is taken. -/
theorem disjunction_lasts (rounds : Nat) : Lasts 1 (disjunction exhausted (rounds + 1)) := by
  have he : Agree sameTokens sameTokens.node 1 0 exhausted exhausted := fun _ _ _ => .exhausted
  exact (agree_disjunction (m := 0) he (Nat.le_refl 1) (Nat.le_add_left 1 rounds)).lasts

theorem expression_lasts (fuel : Nat) : Lasts (fuel - 1) (expression fuel) :=
  (agree_expression (m := 0)).lasts

end Parser

namespace Program

open LineScript.Parser

variable {source text : String} {fuel extra : Nat}

/-! ### Programs -/

/-- With more fuel the same is read, unless the fuel runs out. -/
theorem parseWith_eq_or_exhausted (source text : String) (fuel extra : Nat) :
    parseWith fuel source text = parseWith (extra + fuel) source text ∨
      parseWith fuel source text = .error .outOfFuel := by
  rcases ofLexer_outcome (.ofSource source text) with ⟨e, -, hcursor⟩ | ⟨c, v, hcursor, hat⟩
  · exact .inl ((parseWith_of_ofLexer hcursor).trans (parseWith_of_ofLexer hcursor).symm)
  · have hagree : Agree sameTokens sameTokens.nodes 0 (fuel - 1) (lines (expression fuel) .endOfFile [] fuel)
        (lines (expression (extra + fuel)) .endOfFile [] (extra + fuel)) :=
      agree_lines agree_expression nofun (Nat.le_refl _) (by omega)
    rw [parseWith_of_cursor hcursor, parseWith_of_cursor hcursor]
    rcases (hagree (alike_sameTokens v)).eq_or_exhausted Node.mapPositions_id rfl hat.shows with heq | hexhausted
    · exact .inl (by rw [heq])
    · exact .inr (by rw [hexhausted]; rfl)

/-- A text is a program, or it is rejected at a place in it. -/
theorem parse_ok_or_rejected (source text : String) :
    (∃ program, parse source text = .ok program) ∨
      ∃ e before, parse source text = .error (.rejected e) ∧ before <+: text.toList ∧
        e.position = .past source before := by
  have hmistake : ∀ {e}, (Lexer.ofSource source text).tokens.2 = .error e →
      ∃ before, before <+: text.toList ∧ e.position = .past source before := fun he =>
    Lexer.mistake_position_eq he
  rcases ofLexer_outcome (.ofSource source text) with ⟨e, he, hcursor⟩ | ⟨c, v, hcursor, hat⟩
  · obtain ⟨before, hbefore, hposition⟩ := hmistake he
    exact .inr ⟨e, before, parseWith_of_ofLexer hcursor, hbefore, hposition⟩
  · rw [parse, parseWith_of_cursor hcursor]
    have hfuel : (Lexer.ofSource source text).rest.length < text.length + 2 - 1 := ofSource_rest_lt source text
    rcases lines_outcome hat hfuel with
      ⟨body, c₁, -, -, -, hrun, -, -⟩ | ⟨t, cause, ht, -, hrun⟩ | ⟨e, he, hrun⟩
    · exact .inl ⟨⟨source, body⟩, by rw [hrun]; rfl⟩
    · have ht : Lexer.Hands ⟨text.toList, .past source []⟩ t := ht
      obtain ⟨before, hbefore, hposition⟩ := ht.position_eq
      exact .inr ⟨_, before, by rw [hrun]; rfl, hbefore, hposition⟩
    · obtain ⟨before, hbefore, hposition⟩ := hmistake he
      exact .inr ⟨e, before, by rw [hrun]; rfl, hbefore, hposition⟩

/-- Whatever fuel a text needs, it has it. -/
theorem parseWith_eq_parse (fuel : Nat) (hfuel : text.length + 2 ≤ fuel) :
    parseWith fuel source text = parse source text := by
  obtain ⟨extra, rfl⟩ := Nat.exists_eq_add_of_le' hfuel
  rcases parseWith_eq_or_exhausted source text (text.length + 2) extra with heq | hexhausted
  · exact heq.symm
  · rcases parse_ok_or_rejected source text with ⟨program, hparse⟩ | ⟨e, before, hparse, -⟩ <;>
      cases hparse.symm.trans hexhausted

/-- **Reading always ends, and never in a fault.** Every text is a program, or it is rejected with a diagnostic of the
reading phase that names the line and the column of a place in the text. The fuel is no part of the result: the length
of the text is enough of it, more changes nothing, and with less the same is read or the fuel runs out. It is enough
because every round of every loop takes a token, and so does every way from an expression to an expression inside it,
whatever tokens are in view; no plan of these looks beyond the two tokens at hand or takes a token for an operator or a
literal that it is not. A string literal is begun at a quote only. -/
theorem parse_ends :
    (∀ source text : String,
      ((∃ program, parse source text = .ok program) ∨
        ∃ e before, parse source text = .error (.rejected e) ∧ e.diagnostic.cause.phase = .reading ∧
          before <+: text.toList ∧ e.diagnostic.position = some (.past source before)) ∧
      (∀ fuel, text.length + 2 ≤ fuel → parseWith fuel source text = parse source text) ∧
      ∀ fuel, parseWith fuel source text = parse source text ∨ parseWith fuel source text = .error .outOfFuel) ∧
    (∀ rounds, LoopsTakeTokens (expression (rounds + 1)) rounds) ∧
    (∀ rounds, Lasts 1 (disjunction exhausted (rounds + 1))) ∧
    (∀ fuel, Lasts (fuel - 1) (expression fuel)) ∧
    ∀ text, (Scan.ofChars text).IsString → ∃ quote behind, text = quote :: behind ∧ (quote = '"' ∨ quote = '\'') ∧
      Scan.ofChars text = Scan.string quote [] [quote] behind := by
  refine ⟨fun source text => ⟨?_, parseWith_eq_parse, fun fuel => ?_⟩, loopsTakeTokens, disjunction_lasts,
    expression_lasts, fun _ => Scan.ofChars_of_isString⟩
  · refine (parse_ok_or_rejected source text).imp_right ?_
    rintro ⟨e, before, hparse, hbefore, hposition⟩
    exact ⟨e, before, hparse, rfl, hbefore, congrArg some hposition⟩
  · -- Enough fuel is reached from any fuel, and from there on nothing changes.
    rcases parseWith_eq_or_exhausted source text fuel (text.length + 2) with heq | hexhausted
    · exact .inl (heq.trans (parseWith_eq_parse _ (Nat.le_add_right _ _)))
    · exact .inr hexhausted

end Program

end LineScript
