import LineScript.Diagnostic
import LineScript.Text.Alphabetic
import LineScript.Text.Blank
import LineScript.Text.Numeral
/-!
# Lexemes of a source

A lexer is what is left of a source and the position it starts at. One step skips blanks, takes the longest
lexeme of its class and leaves the rest. At the end of the source every step yields the same end-of-file token.
-/

namespace LineScript

/-- What stands at the start of a text: a lexeme, with the characters it is written in and those behind it, or a
mistake, with the characters before it. -/
inductive Scan where
  | lexeme (kind : Token.Kind) (text : String) (raw rest : List Char)
  | mistake (cause : SyntaxCause) (before : List Char)

namespace Scan

def isDigit (c : Char) : Bool :=
  '0' ≤ c && c ≤ '9'

def startsWord (c : Char) : Bool :=
  Text.isAlphabetic c || c == '_'

def continuesWord (c : Char) : Bool :=
  Text.isAlphabetic c || Text.isNumeral c || c == '_'

/-- Blanks within a line. A line feed is a token. -/
def isIndent (c : Char) : Bool :=
  Text.isBlank c && c != '\n'

/-- Digits, and at most one point among or behind them. -/
def number (text : List Char) : Scan :=
  let whole := text.takeWhile isDigit
  match text.dropWhile isDigit with
  | '.' :: rest =>
      let raw := whole ++ '.' :: rest.takeWhile isDigit
      lexeme .numberLiteral (String.ofList raw) raw (rest.dropWhile isDigit)
  | rest => lexeme .numberLiteral (String.ofList whole) whole rest

/-- An identifier, or the keyword that is spelled like it. -/
def word (text : List Char) : Scan :=
  let raw := text.takeWhile continuesWord
  lexeme ((Token.keyword? (String.ofList raw)).getD .identifier) (String.ofList raw) raw
    (text.dropWhile continuesWord)

/-- The character that a backslash and `c` stand for in a string. -/
def escape? : Char → Option Char
  | '\\' => some '\\'
  | '"' => some '"'
  | '\'' => some '\''
  | 'n' => some '\n'
  | 'r' => some '\r'
  | 't' => some '\t'
  | _ => none

/-- The rest of a string literal behind its opening quote. `text` and `raw` are what the part read so far denotes
and how it is written, both last character first. -/
def string (quote : Char) (text raw : List Char) : List Char → Scan
  | [] => mistake .unterminatedString raw.reverse
  | c :: rest =>
      if c = '\n' then mistake .unterminatedString raw.reverse
      else if c = quote then lexeme .stringLiteral (String.ofList text.reverse) (c :: raw).reverse rest
      else if c = '\\' then
        match rest with
        | [] => mistake .unterminatedString raw.reverse
        | escaped :: rest =>
            if escaped = '\n' then mistake .unterminatedString raw.reverse
            else
              match escape? escaped with
              | some denoted => string quote (denoted :: text) (escaped :: c :: raw) rest
              | none => mistake (.invalidEscape escaped) raw.reverse
      else string quote (c :: text) (c :: raw) rest

def singleSymbol (c : Char) (rest : List Char) : Scan :=
  match Token.singleSymbol? c with
  | some kind => lexeme kind (String.ofList [c]) [c] rest
  | none => mistake (.invalidCharacter c) []

/-- A symbol of two characters if they are one, else a symbol of one. -/
def symbol (c : Char) : List Char → Scan
  | [] => singleSymbol c []
  | second :: rest =>
      match Token.doubleSymbol? c second with
      | some kind => lexeme kind (String.ofList [c, second]) [c, second] rest
      | none => singleSymbol c (second :: rest)

/-- The lexeme at the start of a text that starts with no blank. -/
def ofChars : List Char → Scan
  | [] => lexeme .endOfFile "" [] []
  | c :: rest =>
      if c = '\n' then lexeme .endOfLine "\n" [c] rest
      else if isDigit c then number (c :: rest)
      else if startsWord c then word (c :: rest)
      else if c = '"' ∨ c = '\'' then string c [] [c] rest
      else symbol c rest

end Scan

structure Lexer where
  rest : List Char
  position : Position

namespace Lexer

def ofSource (source text : String) : Lexer :=
  ⟨text.toList, .start source⟩

def next (l : Lexer) : Except SyntaxError (Token × Lexer) :=
  let start := l.position.advance (l.rest.takeWhile Scan.isIndent)
  match Scan.ofChars (l.rest.dropWhile Scan.isIndent) with
  | .lexeme kind text raw rest => .ok (⟨kind, text, start⟩, ⟨rest, start.advance raw⟩)
  | .mistake cause before => .error ⟨cause, start.advance before⟩

end Lexer

/-! ### Every lexeme but the end of the file takes characters away -/

namespace Scan

/-- The text left behind a lexeme of a text, if there is one, is shorter than the text. -/
def Shortens (scan : Scan) (text : List Char) : Prop :=
  ∀ kind spelled raw rest, scan = lexeme kind spelled raw rest → rest.length < text.length

theorem length_dropWhile_le (p : Char → Bool) (text : List Char) :
    (text.dropWhile p).length ≤ text.length :=
  (List.dropWhile_sublist p).length_le

theorem length_dropWhile_lt (p : Char → Bool) (c : Char) (rest : List Char) (hc : p c = true) :
    ((c :: rest).dropWhile p).length < (c :: rest).length := by
  have := length_dropWhile_le p rest
  simp only [List.dropWhile_cons, hc, if_true, List.length_cons]
  omega

theorem number_shortens (c : Char) (rest : List Char) (hc : isDigit c = true) :
    (number (c :: rest)).Shortens (c :: rest) := by
  intro kind spelled raw left h
  have hlt := length_dropWhile_lt isDigit c rest hc
  unfold number at h
  split at h
  next tail heq =>
    have hle := length_dropWhile_le isDigit tail
    rw [heq] at hlt
    injection h with _ _ _ hleft
    subst hleft
    simp only [List.length_cons] at hlt ⊢
    omega
  next =>
    injection h with _ _ _ hleft
    subst hleft
    exact hlt

theorem word_shortens (c : Char) (rest : List Char) (hc : continuesWord c = true) :
    (word (c :: rest)).Shortens (c :: rest) := by
  intro kind spelled raw left h
  unfold word at h
  injection h with _ _ _ hleft
  subst hleft
  exact length_dropWhile_lt continuesWord c rest hc

theorem string_shortens (quote : Char) (text raw rest : List Char) :
    (string quote text raw rest).Shortens rest := by
  intro kind spelled written left h
  fun_induction string quote text raw rest with
  | case3 =>
      injection h with _ _ _ hleft
      subst hleft
      simp
  | case6 _ _ _ _ _ _ _ _ _ ih =>
      have := ih h
      simp only [List.length_cons]
      omega
  | case8 _ _ _ _ _ _ _ ih =>
      have := ih h
      simp only [List.length_cons]
      omega
  | _ => simp at h

theorem singleSymbol_shortens (c : Char) (rest : List Char) :
    (singleSymbol c rest).Shortens (c :: rest) := by
  intro kind spelled raw left h
  unfold singleSymbol at h
  split at h
  · injection h with _ _ _ hleft
    subst hleft
    simp
  · simp at h

theorem symbol_shortens (c : Char) (rest : List Char) : (symbol c rest).Shortens (c :: rest) := by
  intro kind spelled raw left h
  unfold symbol at h
  split at h
  · exact singleSymbol_shortens c [] kind spelled raw left h
  · split at h
    · injection h with _ _ _ hleft
      subst hleft
      simp only [List.length_cons]
      omega
    · exact singleSymbol_shortens c _ kind spelled raw left h

theorem startsWord_continuesWord {c : Char} (hc : startsWord c = true) : continuesWord c = true := by
  simp only [startsWord, continuesWord, Bool.or_eq_true] at hc ⊢
  exact hc.elim (fun h => .inl (.inl h)) .inr

theorem ofChars_shortens (c : Char) (rest : List Char) : (ofChars (c :: rest)).Shortens (c :: rest) := by
  intro kind spelled raw left h
  simp only [ofChars] at h
  split at h
  · injection h with _ _ _ hleft
    subst hleft
    simp
  split at h
  next hdigit => exact number_shortens c rest hdigit kind spelled raw left h
  split at h
  next hword => exact word_shortens c rest (startsWord_continuesWord hword) kind spelled raw left h
  split at h
  · have := string_shortens c [] [c] rest kind spelled raw left h
    simp only [List.length_cons]
    omega
  · exact symbol_shortens c rest kind spelled raw left h

end Scan

namespace Lexer

theorem next_rest_lt {l l' : Lexer} {t : Token} (hnext : l.next = .ok (t, l'))
    (hkind : t.kind ≠ .endOfFile) : l'.rest.length < l.rest.length := by
  have hle := Scan.length_dropWhile_le Scan.isIndent l.rest
  unfold next at hnext
  cases htext : l.rest.dropWhile Scan.isIndent with
  | nil =>
      simp only [htext, Scan.ofChars, Except.ok.injEq, Prod.mk.injEq] at hnext
      exact absurd (hnext.1 ▸ rfl) hkind
  | cons c rest =>
      rw [htext] at hnext hle
      split at hnext
      next kind text raw left hscan =>
        have hlt := Scan.ofChars_shortens c rest kind text raw left hscan
        simp only [Except.ok.injEq, Prod.mk.injEq] at hnext
        rw [← hnext.2]
        exact Nat.lt_of_lt_of_le hlt hle
      next => simp at hnext

/-- The tokens up to the end of the file, or those before the first mistake, and what ended them. -/
def tokens (l : Lexer) : List Token × Except SyntaxError Lexer :=
  match _h : l.next with
  | .error e => ([], .error e)
  | .ok (t, l') =>
      if _hkind : t.kind = .endOfFile then ([t], .ok l')
      else
        let (rest, ending) := l'.tokens
        (t :: rest, ending)
termination_by l.rest.length
decreasing_by exact next_rest_lt _h _hkind

end Lexer

end LineScript
