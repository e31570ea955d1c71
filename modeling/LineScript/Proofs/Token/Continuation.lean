import LineScript.Proofs.Token.Lexeme
/-!
# A text that goes on behind a line feed

No lexeme but the line feed itself contains one, so what stands behind the end of a line does not change the tokens
before it. A text without mistakes that goes on behind a line feed yields its tokens, then the end of a line in the
place of the end of the file, and then the tokens of what is behind.
-/

namespace LineScript

open Token (Kind)

/-! ### A line feed ends every lexeme -/

namespace Scan

variable {c : Char} {text raw rest : List Char} {kind : Kind} {spelled : String}

/-- A run of characters of a class ends before a line feed, if no line feed is in the class. -/
theorem run_of_line {p : Char → Bool} (hline : p '\n' = false) (text more : List Char) :
    (text ++ '\n' :: more).takeWhile p = text.takeWhile p ∧
      (text ++ '\n' :: more).dropWhile p = text.dropWhile p ++ '\n' :: more := by
  induction text with
  | nil => simp [hline]
  | cons c text ih =>
      simp only [List.cons_append, List.takeWhile_cons, List.dropWhile_cons, ih]
      split <;> simp

theorem number_line (h : number text = lexeme kind spelled raw rest) (more : List Char) :
    number (text ++ '\n' :: more) = lexeme kind spelled raw (rest ++ '\n' :: more) := by
  obtain ⟨htake, hdrop⟩ := run_of_line (p := isDigit) (by decide) text more
  unfold number at h ⊢
  rw [htake, hdrop]
  split at h
  next tail htail =>
    obtain ⟨rfl, rfl, rfl, rfl⟩ := Scan.lexeme.inj h
    obtain ⟨htake', hdrop'⟩ := run_of_line (p := isDigit) (by decide) tail more
    simp only [htail, List.cons_append, htake', hdrop']
  next hpoint =>
    obtain ⟨rfl, rfl, rfl, rfl⟩ := Scan.lexeme.inj h
    split
    next tail htail =>
      cases hdigits : text.dropWhile isDigit with
      | nil => simp [hdigits] at htail
      | cons d tail =>
          rw [hdigits, List.cons_append] at htail
          obtain ⟨rfl, -⟩ := List.cons.inj htail
          exact absurd hdigits (hpoint tail)
    next => rfl

theorem word_line (h : word text = lexeme kind spelled raw rest) (more : List Char) :
    word (text ++ '\n' :: more) = lexeme kind spelled raw (rest ++ '\n' :: more) := by
  obtain ⟨htake, hdrop⟩ := run_of_line (p := continuesWord) (by decide) text more
  unfold word at h ⊢
  obtain ⟨rfl, rfl, rfl, rfl⟩ := Scan.lexeme.inj h
  rw [htake, hdrop]

theorem string_append {quote : Char} (hquote : quote = '"' ∨ quote = '\'') {before written : List Char}
    (h : string quote before written text = lexeme kind spelled raw rest) (more : List Char) :
    string quote before written (text ++ more) = lexeme kind spelled raw (rest ++ more) := by
  obtain ⟨rfl, inner, denoted, hescaped, rfl, rfl, rfl⟩ := escaped_of_string h
  rw [List.append_assoc, List.cons_append, string_of_escaped hquote hescaped]

theorem singleSymbol_append (h : singleSymbol c text = lexeme kind spelled raw rest) (more : List Char) :
    singleSymbol c (text ++ more) = lexeme kind spelled raw (rest ++ more) := by
  obtain ⟨rfl, rfl, -⟩ := takes_singleSymbol h
  unfold singleSymbol at h ⊢
  split at h
  · obtain ⟨rfl, rfl, -, -⟩ := Scan.lexeme.inj h
    rfl
  · cases h

theorem symbol_line (h : symbol c text = lexeme kind spelled raw rest) (more : List Char) :
    symbol c (text ++ '\n' :: more) = lexeme kind spelled raw (rest ++ '\n' :: more) := by
  cases text with
  | nil =>
      rw [List.nil_append, symbol, Token.doubleSymbol?_of_second c (by decide)]
      exact singleSymbol_append h _
  | cons second text =>
      simp only [symbol, List.cons_append] at h ⊢
      split at h
      · obtain ⟨rfl, rfl, rfl, rfl⟩ := Scan.lexeme.inj h
        rfl
      · exact singleSymbol_append h _

/-- **A line feed ends every lexeme.** The lexeme at the start of a text is the same if the text goes on behind a line
feed. -/
theorem ofChars_line (h : ofChars (c :: text) = lexeme kind spelled raw rest) (more : List Char) :
    ofChars (c :: (text ++ '\n' :: more)) = lexeme kind spelled raw (rest ++ '\n' :: more) := by
  simp only [ofChars] at h ⊢
  split at h
  next hline =>
    obtain ⟨rfl, rfl, rfl, rfl⟩ := Scan.lexeme.inj h
    rw [if_pos hline]
  next hline =>
  rw [if_neg hline]
  split at h
  next hdigit =>
    rw [if_pos hdigit]
    exact number_line h more
  next hdigit =>
  rw [if_neg hdigit]
  split at h
  next hword =>
    rw [if_pos hword]
    exact word_line h more
  next hword =>
  rw [if_neg hword]
  split at h
  next hquote =>
    rw [if_pos hquote]
    exact string_append hquote h _
  next hquote =>
    rw [if_neg hquote]
    exact symbol_line h more

end Scan

/-! ### Tokens before and behind a line feed -/

namespace Lexer

/-- The other lexer yields the tokens of the first, then the end of a line in the place of the end of the file, and is
then `behind`. -/
inductive Continues (behind : Lexer) : Lexer → Lexer → Prop
  | step {l l' m m' : Lexer} {t : Token} (hnext : l.next = .ok (t, m)) (hkind : t.kind ≠ .endOfFile)
      (hnext' : l'.next = .ok (t, m')) (h : Continues behind m m') : Continues behind l l'
  | last {l l' m : Lexer} {t t' : Token} (hnext : l.next = .ok (t, m)) (hkind : t.kind = .endOfFile)
      (hnext' : l'.next = .ok (t', behind)) (hkind' : t'.kind = .endOfLine) : Continues behind l l'

variable {text : List Char} {p : Position} {t : Token} {l : Lexer}

/-- The position behind the rest of a text is the position behind the text. -/
theorem advance_of_next (h : next ⟨text, p⟩ = .ok (t, l)) : l.position.advance l.rest = p.advance text := by
  have htext : text = text.takeWhile Scan.isIndent ++ text.dropWhile Scan.isIndent := by simp
  simp only [next] at h
  generalize text.takeWhile Scan.isIndent = gap at h htext
  generalize text.dropWhile Scan.isIndent = tail at h htext
  subst htext
  cases tail with
  | nil =>
      cases h
      rw [List.append_nil]
      rfl
  | cons c tail =>
      split at h
      next hscan =>
        cases h
        rw [(Scan.takes_ofChars hscan).1, Position.advance_append, Position.advance_append]
      next => cases h

/-- A token of a text is the same if the text goes on behind a line feed, and the end of the text is the end of a
line. -/
theorem next_line (h : next ⟨text, p⟩ = .ok (t, l)) (more : List Char) :
    next ⟨text ++ '\n' :: more, p⟩ =
      if t.kind = .endOfFile then
        .ok (⟨.endOfLine, "\n", p.advance text⟩, ⟨more, (p.advance text).next '\n'⟩)
      else .ok (t, ⟨l.rest ++ '\n' :: more, l.position⟩) := by
  obtain ⟨htake, hdrop⟩ := Scan.run_of_line (p := Scan.isIndent) (by decide) text more
  simp only [next, htake, hdrop] at h ⊢
  cases htail : text.dropWhile Scan.isIndent with
  | nil =>
      have htext := List.takeWhile_append_dropWhile (p := Scan.isIndent) (l := text)
      rw [htail, List.append_nil] at htext
      rw [htail] at h
      cases h
      rw [htext, if_pos rfl]
      rfl
  | cons c tail =>
      rw [htail] at h
      split at h
      next kind spelled raw rest hscan =>
        cases h
        rw [List.cons_append, Scan.ofChars_line hscan more, if_neg (Scan.ofChars_cons_kind hscan)]
      next => cases h

/-- **A text without mistakes goes on behind a line feed.** -/
theorem continues_of_tokens {text : List Char} {p : Position} {ts : List Token} (h : tokens ⟨text, p⟩ = (ts, .ok l))
    (more : List Char) :
    Continues ⟨more, (p.advance text).next '\n'⟩ ⟨text, p⟩ ⟨text ++ '\n' :: more, p⟩ := by
  cases hnext : next ⟨text, p⟩ with
  | error e =>
      rw [tokens_of_error hnext] at h
      cases h
  | ok result =>
      obtain ⟨t, ⟨rest, p'⟩⟩ := result
      have hline := next_line hnext more
      by_cases hkind : t.kind = .endOfFile
      · rw [if_pos hkind] at hline
        exact .last hnext hkind hline rfl
      · rw [if_neg hkind] at hline
        rw [tokens_of_ne_endOfFile hnext hkind] at h
        obtain ⟨-, hending⟩ := Prod.mk.inj h
        have htokens : tokens ⟨rest, p'⟩ = (_, .ok l) := Prod.ext rfl hending
        have hrest := continues_of_tokens htokens more
        rw [advance_of_next hnext] at hrest
        exact .step hnext hkind hline hrest
termination_by text.length
decreasing_by exact next_rest_lt hnext hkind

end Lexer

end LineScript
