import Mathlib.Tactic.SplitIfs
import LineScript.Diagnostic
import LineScript.Proofs.Decimal.Notation
import LineScript.Proofs.Token.Partition
/-!
# Texts of one line

A text of one line has no line feed in it. Numbers and the names of types and tokens are written in one line, and so is
every token but the end of a line and a string, whose text is what it denotes and not how it is written. A mistake of
the lexer is told in one line, because it shows a line feed by its escape.
-/

namespace LineScript

/-- The text has no line feed. -/
def OneLine (s : String) : Prop :=
  '\n' ∉ s.toList

instance (s : String) : Decidable (OneLine s) :=
  inferInstanceAs (Decidable (_ ∉ _))

@[simp] theorem oneLine_append (s t : String) : OneLine (s ++ t) ↔ OneLine s ∧ OneLine t := by
  simp only [OneLine, String.toList_append, List.mem_append, not_or]

theorem oneLine_ofList {cs : List Char} (h : ∀ c ∈ cs, c ≠ '\n') : OneLine (String.ofList cs) := by
  rw [OneLine, String.toList_ofList]
  exact fun hline => h _ hline rfl

/-! ### Numbers -/

theorem ne_newline_of_mem_toDigits {base n : ℕ} (hbase : 1 < base) (hsmall : base ≤ 16) :
    ∀ c ∈ Nat.toDigits base n, c ≠ '\n' := by
  have hdigits : ∀ d < 16, Nat.digitChar d ≠ '\n' := by decide
  induction n using Nat.strong_induction_on with
  | _ n ih =>
      rw [Nat.toDigits_eq_if hbase]
      split_ifs with hlt
      · exact List.forall_mem_singleton.2 (hdigits n (by omega))
      · have hlast := Nat.mod_lt n (Nat.zero_lt_of_lt hbase)
        refine List.forall_mem_append.2 ⟨ih _ (Nat.div_lt_self (by omega) hbase), ?_⟩
        exact List.forall_mem_singleton.2 (hdigits _ (by omega))

@[simp] theorem oneLine_nat (n : ℕ) : OneLine (toString n) := by
  show OneLine (Nat.repr n)
  rw [Nat.repr_eq_ofList_toDigits]
  exact oneLine_ofList (ne_newline_of_mem_toDigits (by decide) (by decide))

@[simp] theorem oneLine_int (n : ℤ) : OneLine (toString n) := by
  cases n with
  | ofNat n => exact oneLine_nat n
  | negSucc n => exact (oneLine_append "-" _).2 ⟨by decide, oneLine_nat _⟩

@[simp] theorem Decimal.oneLine_text (a : Decimal) : OneLine a.text := by
  refine oneLine_ofList fun c hc => ?_
  rcases mem_chars hc with rfl | rfl | ⟨d, rfl⟩
  · decide
  · decide
  · exact digitChar_ne rfl d

/-! ### Names of types and tokens -/

@[simp] theorem Tag.oneLine_name (tag : Tag) : OneLine tag.name := by
  cases tag <;> decide

@[simp] theorem Token.Kind.oneLine_name (kind : Kind) : OneLine kind.name := by
  cases kind <;> decide

@[simp] theorem Expectation.oneLine_text (wanted : Expectation) : OneLine wanted.text := by
  cases wanted with
  | token kind => exact kind.oneLine_name
  | endOfLine | expression => decide

@[simp] theorem NumberRole.oneLine_text (role : NumberRole) : OneLine role.text := by
  cases role <;> decide

@[simp] theorem Text.oneLine_shown (c : Char) : OneLine (Text.shown c) := by
  have hchar (hline : c ≠ '\n') : OneLine c.toString := by simpa [OneLine] using hline.symm
  unfold Text.shown Text.spelled
  split_ifs with hnull htab hreturn hline hslash hquote hhidden
  · decide
  · decide
  · decide
  · decide
  · decide
  · exact (oneLine_append _ _).2 ⟨by decide, hchar hline⟩
  · have hcode : OneLine (String.ofList (Nat.toDigits 16 c.toNat)) :=
      oneLine_ofList (ne_newline_of_mem_toDigits (by decide) (by decide))
    exact (oneLine_append _ _).2 ⟨(oneLine_append _ _).2 ⟨by decide, hcode⟩, by decide⟩
  · exact hchar hline

/-! ### Tokens -/

open Token (Kind)

/-- The token stands in a source of this name, and its text is of one line unless it is the end of one or a string. -/
structure Token.Plain (source : String) (t : Token) : Prop where
  source_eq : t.position.source = source
  text : t.kind ≠ .stringLiteral → t.kind ≠ .endOfLine → OneLine t.text

theorem Scan.oneLine_of_word {text : String} {c : Char} {run : List Char} (htext : text.toList = c :: run)
    (hc : startsWord c = true) (hrun : ∀ d ∈ run, continuesWord d = true) : OneLine text := by
  have hline : continuesWord '\n' = false := by decide
  rw [OneLine, htext]
  intro hmem
  have hcontinues : continuesWord '\n' = true := by
    rcases List.mem_cons.1 hmem with rfl | hmem
    · exact startsWord_continuesWord hc
    · exact hrun _ hmem
  rw [hline] at hcontinues
  cases hcontinues

theorem Scan.ne_newline_of_isDigit {c : Char} (hc : isDigit c = true) : c ≠ '\n' := by
  rintro rfl
  exact absurd hc (by decide)

theorem Token.oneLine_of_spelling {kind : Kind} {text : String} (h : kind.spelling? = some text)
    (hline : kind ≠ .endOfLine) : OneLine text := by
  have hdoubles : ∀ entry ∈ doubleSymbols, entry.1.1 ≠ '\n' ∧ entry.1.2 ≠ '\n' := by decide
  have hsingles : ∀ entry ∈ singleSymbols, entry.1 ≠ '\n' := by decide
  rcases spelling_cases h with ⟨hend, -⟩ | hkeyword | ⟨first, second, rfl, hmem⟩ | ⟨c, rfl, hmem⟩
  · exact absurd hend hline
  · obtain ⟨-, c, run, htext, hc, hrun⟩ := Scan.keyword_of_mem hkeyword
    exact Scan.oneLine_of_word htext hc hrun
  · obtain ⟨hfirst, hsecond⟩ := hdoubles ((first, second), kind) hmem
    exact oneLine_ofList (List.forall_mem_cons.2 ⟨hfirst, List.forall_mem_singleton.2 hsecond⟩)
  · exact oneLine_ofList (List.forall_mem_singleton.2 (hsingles (c, kind) hmem))

theorem Lexeme.oneLine {kind : Kind} {text : String} {raw : List Char} (h : Lexeme kind text raw)
    (hstring : kind ≠ .stringLiteral) (hline : kind ≠ .endOfLine) : OneLine text := by
  cases h with
  | spelled h => exact Token.oneLine_of_spelling h hline
  | identifier h =>
      obtain ⟨⟨c, run, htext, hc, hrun⟩, -⟩ := h
      exact Scan.oneLine_of_word htext hc hrun
  | number h =>
      obtain ⟨whole, -, hwhole, htext⟩ := h
      have hdigits : ∀ c ∈ whole, c ≠ '\n' := fun c hc => Scan.ne_newline_of_isDigit (hwhole c hc)
      intro hmem
      rcases htext with htext | ⟨fraction, htext, hfraction⟩
      · rw [htext] at hmem
        exact hdigits _ hmem rfl
      · rw [htext, List.mem_append, List.mem_cons] at hmem
        rcases hmem with hmem | hmem | hmem
        · exact hdigits _ hmem rfl
        · exact absurd hmem (by decide)
        · exact Scan.ne_newline_of_isDigit (hfraction _ hmem) rfl
  | string => exact absurd rfl hstring

/-! ### Mistakes of the lexer -/

namespace Scan

theorem oneLine_of_string {quote : Char} {text raw rest before : List Char} {cause : SyntaxCause}
    (h : string quote text raw rest = mistake cause before) : OneLine cause.message := by
  fun_induction string quote text raw rest with
  | case3 => cases h
  | case6 _ _ _ _ _ _ _ _ _ ih | case8 _ _ _ _ _ _ _ ih => exact ih h
  | case7 _ _ escaped _ hline =>
      obtain ⟨rfl, -⟩ := Scan.mistake.inj h
      have hchar : OneLine escaped.toString := by simpa [OneLine] using Ne.symm hline
      exact (oneLine_append _ _).2 ⟨(oneLine_append _ _).2 ⟨by decide, hchar⟩, by decide⟩
  | _ =>
      obtain ⟨rfl, -⟩ := Scan.mistake.inj h
      decide

theorem oneLine_of_singleSymbol {c : Char} {rest before : List Char} {cause : SyntaxCause}
    (h : singleSymbol c rest = mistake cause before) : OneLine cause.message := by
  unfold singleSymbol at h
  split at h
  · cases h
  · obtain ⟨rfl, -⟩ := Scan.mistake.inj h
    exact (oneLine_append _ _).2 ⟨(oneLine_append _ _).2 ⟨by decide, Text.oneLine_shown c⟩, by decide⟩

theorem oneLine_of_ofChars {text before : List Char} {cause : SyntaxCause} (h : ofChars text = mistake cause before) :
    OneLine cause.message := by
  cases text with
  | nil => cases h
  | cons c text =>
      simp only [ofChars] at h
      split at h
      · cases h
      split at h
      · unfold number at h
        split at h <;> cases h
      split at h
      · cases h
      split at h
      · exact oneLine_of_string h
      unfold symbol at h
      split at h
      · exact oneLine_of_singleSymbol h
      · split at h
        · cases h
        · exact oneLine_of_singleSymbol h

end Scan

namespace Lexer

variable {l l' : Lexer} {t : Token} {e : SyntaxError}

theorem oneLine_of_next (hnext : l.next = .ok (t, l')) (hstring : t.kind ≠ .stringLiteral)
    (hline : t.kind ≠ .endOfLine) : OneLine t.text := by
  unfold next at hnext
  cases htext : l.rest.dropWhile Scan.isIndent with
  | nil =>
      rw [htext] at hnext
      cases hnext
      exact (by decide : OneLine "")
  | cons c rest =>
      rw [htext] at hnext
      dsimp only at hnext
      split at hnext
      next kind text raw rest hscan =>
        cases hnext
        exact (Scan.takes_ofChars hscan).2.1.oneLine hstring hline
      next => cases hnext

theorem oneLine_of_next_error (hnext : l.next = .error e) : OneLine e.cause.message := by
  unfold next at hnext
  dsimp only at hnext
  split at hnext
  next => cases hnext
  next cause before hscan =>
    cases hnext
    exact Scan.oneLine_of_ofChars hscan

/-- The first mistake of a source is told in one line. -/
theorem oneLine_of_tokens (h : l.tokens.2 = .error e) : OneLine e.cause.message := by
  fun_induction tokens l with
  | case1 l e' hnext =>
      obtain rfl := Except.error.inj h
      exact oneLine_of_next_error hnext
  | case2 => cases h
  | case3 l t l' hnext hkind rest ending htokens ih => exact ih (htokens ▸ h)

end Lexer

end LineScript
