import LineScript.Proofs.Decimal.Notation
import LineScript.Proofs.Token.Stream
/-!
# Scanning a written value

The lexemes that the text of a value is made of: words, numbers, a minus sign, brackets and commas. Each is scanned as
one token where a comma, a closing bracket or the end of the text stands behind it. `Lexer.Scans` says which tokens a
lexer takes on its way to another.
-/

namespace LineScript

/-! ### Runs of tokens -/

namespace Lexer

/-- The lexer takes these tokens, none of which is the end of the file, and is then the other lexer. -/
inductive Scans : Lexer → List Token → Lexer → Prop
  | done {l : Lexer} : Scans l [] l
  | step {l l' l'' : Lexer} {t : Token} {ts : List Token} (hnext : l.next = .ok (t, l')) (ht : t.kind ≠ .endOfFile)
      (hrest : Scans l' ts l'') : Scans l (t :: ts) l''

theorem Scans.one {l l' : Lexer} {t : Token} (hnext : l.next = .ok (t, l')) (ht : t.kind ≠ .endOfFile) :
    Scans l [t] l' :=
  .step hnext ht .done

theorem Scans.append {l l' l'' : Lexer} {ts us : List Token} (hfirst : Scans l ts l') (hsecond : Scans l' us l'') :
    Scans l (ts ++ us) l'' := by
  induction hfirst with
  | done => exact hsecond
  | step hnext ht _ ih => exact .step hnext ht (ih hsecond)

theorem Scans.yields {l l' : Lexer} {ts us : List Token} (hscans : Scans l ts l') (hyields : l'.Yields us) :
    l.Yields (ts ++ us) := by
  induction hscans with
  | done => exact hyields
  | step hnext ht _ ih =>
      obtain ⟨last, htokens⟩ := ih hyields
      exact ⟨last, by rw [tokens_of_ne_endOfFile hnext ht, htokens]; rfl⟩

theorem yields_nil (p : Position) : Yields ⟨[], p⟩ [⟨.endOfFile, "", p⟩] :=
  ⟨_, tokens_of_endOfFile rfl rfl⟩

/-- A blank only moves the position on. -/
theorem next_blank {c : Char} (hc : Scan.isIndent c = true) (rest : List Char) (p : Position) :
    next ⟨c :: rest, p⟩ = next ⟨rest, p.next c⟩ := by
  simp only [next, List.takeWhile_cons_of_pos hc, List.dropWhile_cons_of_pos hc]
  rfl

/-- Behind no blank, the next token is the lexeme at the start of the text. -/
theorem next_of_scan {c : Char} {rest raw left : List Char} {kind : Token.Kind} {spelled : String}
    (hc : Scan.isIndent c = false) (hscan : Scan.ofChars (c :: rest) = .lexeme kind spelled raw left) (p : Position) :
    next ⟨c :: rest, p⟩ = .ok (⟨kind, spelled, p⟩, ⟨left, p.advance raw⟩) := by
  have hblank : ¬ Scan.isIndent c = true := by rw [hc]; exact Bool.false_ne_true
  simp only [next, List.takeWhile_cons_of_neg hblank, List.dropWhile_cons_of_neg hblank, hscan]
  rfl

end Lexer

/-! ### Lexemes -/

namespace Token

/-- No symbol of two characters starts so. -/
theorem doubleSymbol?_of_first {first : Char} (hfirst : ∀ entry ∈ doubleSymbols, entry.1.1 ≠ first) (second : Char) :
    doubleSymbol? first second = none := by
  refine List.lookup_eq_none_iff.2 fun entry hentry => bne_iff_ne.2 ?_
  rintro heq
  exact hfirst entry hentry (congrArg Prod.fst heq).symm

/-- Every symbol of two characters ends in an equals sign. -/
theorem doubleSymbol?_of_second (first : Char) {second : Char} (hsecond : second ≠ '=') :
    doubleSymbol? first second = none := by
  have hends : ∀ entry ∈ doubleSymbols, entry.1.2 = '=' := by decide
  refine List.lookup_eq_none_iff.2 fun entry hentry => bne_iff_ne.2 ?_
  rintro heq
  exact hsecond ((congrArg Prod.snd heq).trans (hends entry hentry))

end Token

namespace Scan

/-- A comma, a closing bracket or the end of the text. -/
def Closes (rest : List Char) : Prop :=
  ∀ c ∈ rest.head?, c = ',' ∨ c = ']'

theorem closes_nil : Closes [] := by
  intro c hc
  cases hc

theorem closes_comma (rest : List Char) : Closes (',' :: rest) := by
  intro c hc
  exact .inl (Option.mem_some.1 hc).symm

theorem closes_bracket (rest : List Char) : Closes (']' :: rest) := by
  intro c hc
  exact .inr (Option.mem_some.1 hc).symm

/-- A run of characters of a class ends where no other character of the class follows. -/
theorem takeWhile_and_dropWhile {p : Char → Bool} {run rest : List Char} (hrun : ∀ c ∈ run, p c = true)
    (hrest : ∀ c ∈ rest.head?, p c = false) :
    (run ++ rest).takeWhile p = run ∧ (run ++ rest).dropWhile p = rest := by
  rw [List.takeWhile_append_of_pos hrun, List.dropWhile_append_of_pos hrun]
  cases rest with
  | nil => simp
  | cons c rest =>
      have hc : ¬ p c = true := by rw [hrest c rfl]; exact Bool.false_ne_true
      rw [List.takeWhile_cons_of_neg hc, List.dropWhile_cons_of_neg hc, List.append_nil]
      exact ⟨rfl, rfl⟩

theorem isDigit_digitChar (n : Nat) : isDigit (digitChar n) = true := by
  have hdigits : ∀ d < 10, isDigit (Char.ofNat ('0'.toNat + d)) = true := by decide
  exact hdigits (n % 10) (Nat.mod_lt n (by decide))

theorem isDigit_paddedDigits (width n : Nat) : ∀ c ∈ paddedDigits width n, isDigit c = true := by
  intro c hc
  obtain ⟨d, rfl⟩ := mem_paddedDigits hc
  exact isDigit_digitChar d

theorem isDigit_digits (n : Nat) : ∀ c ∈ digits n, isDigit c = true := by
  obtain ⟨width, -, -, hdigits⟩ := exists_digits_eq n
  rw [hdigits]
  exact isDigit_paddedDigits width n

theorem Closes.not_digit {rest : List Char} (hrest : Closes rest) : ∀ c ∈ rest.head?, isDigit c = false := by
  intro c hc
  rcases hrest c hc with rfl | rfl <;> decide

theorem Closes.not_word {rest : List Char} (hrest : Closes rest) : ∀ c ∈ rest.head?, continuesWord c = false := by
  intro c hc
  rcases hrest c hc with rfl | rfl <;> decide

/-- Digits are a number where neither a digit nor a point follows. -/
theorem number_whole {whole rest : List Char} (hwhole : ∀ c ∈ whole, isDigit c = true)
    (hrest : ∀ c ∈ rest.head?, isDigit c = false ∧ c ≠ '.') :
    number (whole ++ rest) = lexeme .numberLiteral (String.ofList whole) whole rest := by
  obtain ⟨htake, hdrop⟩ := takeWhile_and_dropWhile hwhole fun c hc => (hrest c hc).1
  rw [number, htake, hdrop]
  split
  · exact absurd rfl (hrest '.' rfl).2
  · rfl

/-- Digits, a point and digits are a number where no digit follows. -/
theorem number_fraction {whole fraction rest : List Char} (hwhole : ∀ c ∈ whole, isDigit c = true)
    (hfraction : ∀ c ∈ fraction, isDigit c = true) (hrest : ∀ c ∈ rest.head?, isDigit c = false) :
    number (whole ++ '.' :: fraction ++ rest) =
      lexeme .numberLiteral (String.ofList (whole ++ '.' :: fraction)) (whole ++ '.' :: fraction) rest := by
  have hpoint : ∀ c ∈ ('.' :: (fraction ++ rest)).head?, isDigit c = false := by
    rintro c ⟨⟩
    decide
  obtain ⟨htake, hdrop⟩ := takeWhile_and_dropWhile hfraction hrest
  obtain ⟨htake', hdrop'⟩ := takeWhile_and_dropWhile hwhole hpoint
  rw [List.append_assoc, List.cons_append, number, htake', hdrop']
  simp only [htake, hdrop]

/-- The notation of a number is one lexeme. -/
theorem number_magnitudeChars (n scale : Nat) {rest : List Char} (hrest : Closes rest) :
    number (Decimal.magnitudeChars n scale ++ rest) =
      lexeme .numberLiteral (String.ofList (Decimal.magnitudeChars n scale)) (Decimal.magnitudeChars n scale) rest := by
  unfold Decimal.magnitudeChars
  split
  · refine number_whole (isDigit_digits n) fun c hc => ⟨hrest.not_digit c hc, ?_⟩
    rcases hrest c hc with rfl | rfl <;> decide
  · exact number_fraction (isDigit_digits _) (isDigit_paddedDigits scale _) hrest.not_digit

/-- A word is one lexeme, and the keyword that it spells. -/
theorem ofChars_word {c : Char} {run rest : List Char} (hc : startsWord c = true) (hline : c ≠ '\n')
    (hdigit : isDigit c = false) (hrun : ∀ d ∈ c :: run, continuesWord d = true)
    (hrest : ∀ d ∈ rest.head?, continuesWord d = false) :
    ofChars (c :: run ++ rest) =
      lexeme ((Token.keyword? (String.ofList (c :: run))).getD .identifier) (String.ofList (c :: run)) (c :: run)
        rest := by
  obtain ⟨htake, hdrop⟩ := takeWhile_and_dropWhile hrun hrest
  rw [List.cons_append] at htake hdrop ⊢
  rw [ofChars, if_neg hline, hdigit, if_neg Bool.false_ne_true, if_pos hc, word, htake, hdrop]

/-- A symbol that is no part of a longer one is a lexeme. -/
theorem ofChars_symbol {c : Char} {kind : Token.Kind} {rest : List Char} (hsymbol : Token.singleSymbol? c = some kind)
    (hplain : c ≠ '\n' ∧ isDigit c = false ∧ startsWord c = false ∧ ¬ (c = '"' ∨ c = '\''))
    (hrest : ∀ second ∈ rest.head?, Token.doubleSymbol? c second = none) :
    ofChars (c :: rest) = lexeme kind (String.ofList [c]) [c] rest := by
  obtain ⟨hline, hdigit, hword, hquote⟩ := hplain
  rw [ofChars, if_neg hline, hdigit, if_neg Bool.false_ne_true, hword, if_neg Bool.false_ne_true, if_neg hquote]
  cases rest with
  | nil => rw [symbol, singleSymbol, hsymbol]
  | cons second rest => rw [symbol, hrest second rfl, singleSymbol, hsymbol]

theorem ofChars_magnitudeChars (n scale : Nat) {rest : List Char} (hrest : Closes rest) :
    ofChars (Decimal.magnitudeChars n scale ++ rest) =
      lexeme .numberLiteral (String.ofList (Decimal.magnitudeChars n scale)) (Decimal.magnitudeChars n scale) rest := by
  have hnumber := number_magnitudeChars n scale hrest
  obtain ⟨d, tail, hchars⟩ := Decimal.exists_magnitudeChars_eq n scale
  rw [hchars] at hnumber ⊢
  rw [← hnumber, List.cons_append, ofChars, if_neg (digitChar_ne rfl d), if_pos (isDigit_digitChar d)]

end Scan

/-! ### Tokens -/

namespace Lexer

theorem isIndent_digitChar (d : Nat) : Scan.isIndent (digitChar d) = false := by
  have hdigits : ∀ d < 10, Scan.isIndent (Char.ofNat ('0'.toNat + d)) = false := by decide
  exact hdigits (d % 10) (Nat.mod_lt d (by decide))

/-- A symbol that starts no longer one. -/
theorem next_symbol (c : Char) (kind : Token.Kind)
    (hc : Scan.isIndent c = false ∧ Token.singleSymbol? c = some kind ∧
      (c ≠ '\n' ∧ Scan.isDigit c = false ∧ Scan.startsWord c = false ∧ ¬ (c = '"' ∨ c = '\'')) ∧
      ∀ entry ∈ Token.doubleSymbols, entry.1.1 ≠ c) (rest : List Char) (p : Position) :
    next ⟨c :: rest, p⟩ = .ok (⟨kind, String.ofList [c], p⟩, ⟨rest, p.next c⟩) := by
  obtain ⟨hindent, hsymbol, hplain, hfirst⟩ := hc
  exact next_of_scan hindent (Scan.ofChars_symbol hsymbol hplain fun second _ =>
    Token.doubleSymbol?_of_first hfirst second) p

/-- A minus sign before a digit stands alone. -/
theorem next_minus (d : Nat) (rest : List Char) (p : Position) :
    next ⟨'-' :: digitChar d :: rest, p⟩ = .ok (⟨.minus, "-", p⟩, ⟨digitChar d :: rest, p.next '-'⟩) := by
  refine next_of_scan (by decide) (Scan.ofChars_symbol (by decide) (by decide) ?_) p
  rintro second ⟨⟩
  exact Token.doubleSymbol?_of_second '-' (digitChar_ne rfl d)

theorem next_magnitudeChars (n scale : Nat) {rest : List Char} (hrest : Scan.Closes rest) (p : Position) :
    next ⟨Decimal.magnitudeChars n scale ++ rest, p⟩ =
      .ok (⟨.numberLiteral, String.ofList (Decimal.magnitudeChars n scale), p⟩,
        ⟨rest, p.advance (Decimal.magnitudeChars n scale)⟩) := by
  have hscan := Scan.ofChars_magnitudeChars n scale hrest
  obtain ⟨d, tail, hchars⟩ := Decimal.exists_magnitudeChars_eq n scale
  rw [hchars] at hscan ⊢
  exact next_of_scan (isIndent_digitChar d) hscan p

end Lexer

end LineScript
