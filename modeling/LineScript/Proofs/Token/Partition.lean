import LineScript.Proofs.Token.Lexeme
/-!
# The tokens of a source are a partition of it

A lexer cuts the text of its source into blanks and lexemes. Each token is written in the characters between the blanks
before it and the next token, as the longest lexeme that starts there, and it carries the line and the column of its
first character. The last token is the end of the file, which stands behind the last character and is yielded again for
ever.
-/

namespace LineScript

open Token (Kind)

/-! ### Lines and columns -/

namespace Position

/-- The position behind some characters of a source: lines are counted by the line feeds among them, columns by the
characters behind the last line feed. -/
def past (source : String) (before : List Char) : Position :=
  ⟨source, 1 + before.count '\n', 1 + (before.reverse.takeWhile (· ≠ '\n')).length⟩

theorem past_concat (source : String) (before : List Char) (c : Char) :
    past source (before ++ [c]) = (past source before).next c := by
  unfold past next
  split
  next hc => simp [hc, Nat.add_assoc]
  next hc => simp [hc, Nat.add_assoc]

theorem past_append (source : String) (before more : List Char) :
    past source (before ++ more) = (past source before).advance more := by
  induction more generalizing before with
  | nil => simp
  | cons c more ih =>
      rw [List.append_cons, ih, past_concat]
      rfl

theorem past_eq_advance (source : String) (before : List Char) : past source before = (start source).advance before :=
  past_append source [] before

end Position

/-! ### Cutting a text -/

/-- Blanks within a line. -/
def Blanks (gap : List Char) : Prop :=
  ∀ c ∈ gap, Text.isBlank c = true ∧ c ≠ '\n'

/-- The text of a source behind the characters `before` is cut into these tokens, with blanks before each, up to `rest`.
A token is written in one or more characters, the longest lexeme that starts at its place. -/
inductive Cut (source : String) : (before text : List Char) → List Token → (rest : List Char) → Prop
  | none {before rest : List Char} : Cut source before rest [] rest
  | token {before gap raw text rest : List Char} {t : Token} {ts : List Token} (hgap : Blanks gap) (hraw : raw ≠ [])
      (hkind : t.kind ≠ .endOfFile) (hlexeme : Lexeme t.kind t.text raw) (hlongest : Longest raw text)
      (hposition : t.position = .past source (before ++ gap)) (hrest : Cut source (before ++ gap ++ raw) text ts rest) :
      Cut source before (gap ++ raw ++ text) (t :: ts) rest

/-- Each token takes a character at least. -/
theorem Cut.length_le {source : String} {before text rest : List Char} {ts : List Token}
    (h : Cut source before text ts rest) : ts.length + rest.length ≤ text.length := by
  induction h with
  | none => simp
  | token _ hraw _ _ _ _ _ ih =>
      have hpos := List.length_pos_iff.2 hraw
      simp only [List.length_cons, List.length_append]
      omega

theorem blanks_takeWhile (text : List Char) : Blanks (text.takeWhile Scan.isIndent) := by
  intro c hc
  have hindent := List.all_eq_true.1 List.all_takeWhile c hc
  simpa [Scan.isIndent] using hindent

namespace Lexer

variable {source : String} {before text rest : List Char} {p : Position} {t : Token} {l : Lexer}

/-- One step takes blanks and the longest lexeme behind them, or blanks and the end of the text. -/
theorem next_eq_ok (h : next ⟨text, .past source before⟩ = .ok (t, l)) :
    ∃ gap raw, Blanks gap ∧ text = gap ++ raw ++ l.rest ∧ l.position = .past source (before ++ gap ++ raw) ∧
      t.position = .past source (before ++ gap) ∧
      (raw = [] ∧ l.rest = [] ∧ t.kind = .endOfFile ∧ t.text = "" ∨
        raw ≠ [] ∧ t.kind ≠ .endOfFile ∧ Lexeme t.kind t.text raw ∧ Longest raw l.rest) := by
  have hsplit : text = text.takeWhile Scan.isIndent ++ text.dropWhile Scan.isIndent := by simp
  simp only [next, ← Position.past_append] at h
  generalize text.dropWhile Scan.isIndent = tail at h hsplit
  cases tail with
  | nil =>
      cases h
      exact ⟨_, [], blanks_takeWhile text, by simpa using hsplit, rfl, rfl, .inl ⟨rfl, rfl, rfl, rfl⟩⟩
  | cons c tail =>
      split at h
      next kind spelled raw left hscan =>
        cases h
        obtain ⟨htail, hlexeme, hlongest⟩ := Scan.takes_ofChars hscan
        have hraw : raw ≠ [] := by
          obtain ⟨d, raw, rfl, -⟩ := hlexeme.exists_cons
          exact List.cons_ne_nil d raw
        rw [htail, ← List.append_assoc] at hsplit
        exact ⟨_, raw, blanks_takeWhile text, hsplit, rfl, rfl,
          .inr ⟨hraw, Scan.ofChars_cons_kind hscan, hlexeme, hlongest⟩⟩
      next => cases h

/-- A mistake lies at or behind the place where the lexer stands. -/
theorem next_eq_error {e : SyntaxError} (h : next ⟨text, .past source before⟩ = .error e) :
    ∃ more, more <+: text ∧ e.position = .past source (before ++ more) := by
  simp only [next, ← Position.past_append] at h
  split at h
  next => cases h
  next cause good hscan =>
    cases h
    refine ⟨text.takeWhile Scan.isIndent ++ good, ?_, by rw [List.append_assoc]⟩
    conv_rhs => rw [← List.takeWhile_append_dropWhile (p := Scan.isIndent) (l := text)]
    exact (List.prefix_append_right_inj _).2 (Scan.prefix_of_ofChars hscan)

/-- What a lexer yields cuts the text before it, up to blanks at its end or to a mistake. -/
theorem cut_tokens (source : String) (before text : List Char) :
    match tokens ⟨text, .past source before⟩ with
    | (ts, .ok l) => ∃ words gap, ts = words ++ [⟨.endOfFile, "", .past source (before ++ text)⟩] ∧
        Cut source before text words gap ∧ Blanks gap ∧ l = ⟨[], .past source (before ++ text)⟩
    | (ts, .error e) => ∃ taken rest more, text = taken ++ rest ∧ Cut source before text ts rest ∧
        more <+: rest ∧ e.position = .past source (before ++ taken ++ more) := by
  cases hnext : next ⟨text, .past source before⟩ with
  | error e =>
      rw [tokens_of_error hnext]
      obtain ⟨more, hmore, hposition⟩ := next_eq_error hnext
      exact ⟨[], text, more, rfl, .none, hmore, by rw [List.append_nil]; exact hposition⟩
  | ok result =>
      obtain ⟨⟨kind, spelled, p⟩, ⟨rest, p'⟩⟩ := result
      obtain ⟨gap, raw, hgap, htext, rfl, rfl, hlast | hword⟩ := next_eq_ok hnext
      · obtain ⟨rfl, rfl, rfl, rfl⟩ := hlast
        rw [tokens_of_endOfFile hnext rfl]
        simp only [List.append_nil] at htext ⊢
        subst htext
        exact ⟨[], _, rfl, .none, hgap, rfl⟩
      · obtain ⟨hraw, hkind, hlexeme, hlongest⟩ := hword
        rw [tokens_of_ne_endOfFile hnext hkind]
        have ih := cut_tokens source (before ++ gap ++ raw) rest
        subst htext
        generalize tokens ⟨rest, .past source (before ++ gap ++ raw)⟩ = result at ih
        obtain ⟨ts, e | l⟩ := result
        · obtain ⟨taken, behind, more, rfl, hcut, hmore, hposition⟩ := ih
          refine ⟨gap ++ raw ++ taken, behind, more, by simp, .token hgap hraw hkind hlexeme hlongest rfl hcut, hmore,
            ?_⟩
          simpa using hposition
        · obtain ⟨words, last, rfl, hcut, hlast, rfl⟩ := ih
          refine ⟨_ :: words, last, by simp, .token hgap hraw hkind hlexeme hlongest rfl hcut, hlast, ?_⟩
          simp
termination_by text.length
decreasing_by exact next_rest_lt hnext hkind

/-- **The tokens of a source are a partition of it.** There are at most as many of them as characters, and one for the
end. If there is no mistake, the text is cut into them up to blanks at its end; only the last token is the end of the
file, it stands behind the last character, and every further step yields it again. Otherwise the text is cut into the
tokens up to some place, and the mistake is met at that place or behind it. -/
theorem tokens_partition_source (source text : String) :
    (ofSource source text).tokens.1.length ≤ text.length + 1 ∧
      match (ofSource source text).tokens with
      | (ts, .ok l) => ∃ words gap last, ts = words ++ [last] ∧ Cut source [] text.toList words gap ∧ Blanks gap ∧
          last = ⟨.endOfFile, "", .past source text.toList⟩ ∧ l.next = .ok (last, l)
      | (ts, .error e) => ∃ taken rest more, text.toList = taken ++ rest ∧ Cut source [] text.toList ts rest ∧
          more <+: rest ∧ e.position = .past source (taken ++ more) := by
  have hcut := cut_tokens source [] text.toList
  have hstart : ofSource source text = ⟨text.toList, .past source []⟩ := rfl
  rw [hstart]
  generalize tokens ⟨text.toList, .past source []⟩ = result at hcut ⊢
  obtain ⟨ts, e | l⟩ := result
  · obtain ⟨taken, rest, more, htext, hcut, hmore, hposition⟩ := hcut
    have hle := hcut.length_le
    rw [String.length_toList] at hle
    exact ⟨by dsimp only; omega, taken, rest, more, htext, hcut, hmore, hposition⟩
  · obtain ⟨words, gap, rfl, hcut, hgap, rfl⟩ := hcut
    have hle := hcut.length_le
    rw [String.length_toList] at hle
    refine ⟨?_, words, gap, _, rfl, hcut, hgap, rfl, rfl⟩
    rw [List.length_append, List.length_singleton]
    omega

end Lexer

end LineScript
