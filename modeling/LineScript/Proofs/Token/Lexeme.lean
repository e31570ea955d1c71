import LineScript.Proofs.Token.Scanning
/-!
# Lexemes

What the tokens of a source can be written as, stated without reference to the scanner. A lexeme is a spelling of its
own, a name, a number or a quoted string. The scanner takes a lexeme off the front of a text, and no longer one stands
there; where nothing that follows can prolong it, every lexeme is scanned as itself.
-/

namespace LineScript

/-! ### Classes of characters

The first character of a lexeme tells what kind of lexeme it is, because the classes of characters that lexemes start
with are disjoint, and disjoint from the blanks.
-/

theorem Text.Ranges.exists_mem_of_contains {ranges : Text.Ranges} {code : Nat} (h : ranges.contains code = true) :
    ∃ range ∈ ranges, range.1 ≤ code ∧ code ≤ range.2 := by
  induction ranges with
  | nil => cases h
  | cons range ranges ih =>
      simp only [contains] at h
      split at h
      · cases h
      split at h
      · exact ⟨range, List.mem_cons_self, by omega, by omega⟩
      · obtain ⟨found, hmem, hbounds⟩ := ih h
        exact ⟨found, List.mem_cons_of_mem range hmem, hbounds⟩

namespace Scan

/-- What holds of the ten digits holds of every digit. -/
theorem forall_isDigit {p : Char → Prop} (h : ∀ d < 10, p (Char.ofNat ('0'.toNat + d))) {c : Char}
    (hc : isDigit c = true) : p c := by
  simp only [isDigit, Bool.and_eq_true, decide_eq_true_eq, Char.le_def, UInt32.le_iff_toNat_le] at hc
  obtain ⟨hlow, hhigh⟩ := hc
  have hlow' : '0'.toNat ≤ c.toNat := hlow
  have hhigh' : c.toNat ≤ '0'.toNat + 9 := hhigh
  have hdigit := h (c.toNat - '0'.toNat) (by omega)
  rwa [Nat.add_sub_cancel' hlow', Char.ofNat_toNat] at hdigit

theorem startsWord_of_isDigit {c : Char} (hc : isDigit c = true) : startsWord c = false :=
  forall_isDigit (p := fun c => startsWord c = false) (by decide) hc

theorem isIndent_of_isDigit {c : Char} (hc : isDigit c = true) : isIndent c = false :=
  forall_isDigit (p := fun c => isIndent c = false) (by decide) hc

/-- No letter is a blank. -/
theorem isBlank_of_startsWord {c : Char} (hc : startsWord c = true) : Text.isBlank c = false := by
  have hblanks : ∀ range ∈ Text.blankRanges, ∀ k < range.2 + 1 - range.1,
      Text.alphabeticRanges.contains (range.1 + k) = false := by
    decide +kernel
  by_contra hblank
  rw [Bool.not_eq_false] at hblank
  obtain ⟨range, hrange, hlow, hhigh⟩ := Text.Ranges.exists_mem_of_contains hblank
  have hletter := hblanks range hrange (c.toNat - range.1) (by omega)
  rw [Nat.add_sub_cancel' hlow] at hletter
  simp only [startsWord, Text.isAlphabetic, hletter, Bool.false_or, beq_iff_eq] at hc
  subst hc
  exact absurd hblank (by decide)

theorem ne_newline_of_startsWord {c : Char} (hc : startsWord c = true) : c ≠ '\n' := by
  rintro rfl
  exact absurd hc (by decide)

theorem isDigit_of_startsWord {c : Char} (hc : startsWord c = true) : isDigit c = false := by
  by_contra hdigit
  rw [Bool.not_eq_false] at hdigit
  rw [startsWord_of_isDigit hdigit] at hc
  cases hc

theorem isIndent_of_startsWord {c : Char} (hc : startsWord c = true) : isIndent c = false := by
  rw [isIndent, isBlank_of_startsWord hc, Bool.false_and]

end Scan

/-! ### The lexemes -/

open Token (Kind)

/-- A letter or an underscore, then letters, numerals and underscores, which are together no keyword. -/
def Token.IsIdentifier (text : String) : Prop :=
  (∃ c run, text.toList = c :: run ∧ Scan.startsWord c = true ∧ ∀ d ∈ run, Scan.continuesWord d = true) ∧
    keyword? text = none

/-- One or more digits, and behind them perhaps a point and any number of digits. -/
def Token.IsNumber (text : String) : Prop :=
  ∃ whole, whole ≠ [] ∧ (∀ d ∈ whole, Scan.isDigit d = true) ∧
    (text.toList = whole ∨ ∃ fraction, text.toList = whole ++ '.' :: fraction ∧ ∀ d ∈ fraction, Scan.isDigit d = true)

/-- What stands between two quotes, and what it denotes. A character stands for itself unless it is the quote, a
backslash or a line feed; a backslash and the character behind it stand for one character. -/
inductive Escaped (quote : Char) : List Char → List Char → Prop
  | nil : Escaped quote [] []
  | plain {c : Char} {raw text : List Char} (hline : c ≠ '\n') (hquote : c ≠ quote) (hescape : c ≠ '\\')
      (hrest : Escaped quote raw text) : Escaped quote (c :: raw) (c :: text)
  | escape {c denoted : Char} {raw text : List Char} (hdenoted : Scan.escape? c = some denoted)
      (hrest : Escaped quote raw text) : Escaped quote ('\\' :: c :: raw) (denoted :: text)

/-- The characters that a token of a kind and a text is written in. They are its text, except that a string stands
between quotes. -/
inductive Lexeme : Kind → String → List Char → Prop
  | spelled {kind : Kind} {text : String} (h : kind.spelling? = some text) : Lexeme kind text text.toList
  | identifier {text : String} (h : Token.IsIdentifier text) : Lexeme .identifier text text.toList
  | number {text : String} (h : Token.IsNumber text) : Lexeme .numberLiteral text text.toList
  | string {quote : Char} {text : String} {raw : List Char} (hquote : quote = '"' ∨ quote = '\'')
      (h : Escaped quote raw text.toList) : Lexeme .stringLiteral text (quote :: raw ++ [quote])

/-- No longer lexeme than `raw` stands at the start of `raw` and the text behind it. -/
def Longest (raw rest : List Char) : Prop :=
  ∀ kind text raw', Lexeme kind text raw' → raw' <+: raw ++ rest → raw'.length ≤ raw.length

/-! ### What a lexeme starts with -/

namespace Token

theorem mem_of_lookup {α β : Type} [BEq α] [LawfulBEq α] {table : List (α × β)} {key : α} {value : β}
    (h : table.lookup key = some value) : (key, value) ∈ table := by
  obtain ⟨before, behind, htable, -⟩ := List.lookup_eq_some_iff.1 h
  rw [htable]
  exact List.mem_append_right before List.mem_cons_self

/-- The kinds with a spelling of their own: the end of a line, the keywords, and the symbols of two characters and of
one. -/
theorem spelling_cases {kind : Kind} {text : String} (h : kind.spelling? = some text) :
    (kind = .endOfLine ∧ text = "\n") ∨ (text, kind) ∈ keywords ∨
      (∃ first second, text = String.ofList [first, second] ∧ ((first, second), kind) ∈ doubleSymbols) ∨
      ∃ c, text = String.ofList [c] ∧ (c, kind) ∈ singleSymbols := by
  have hmem := mem_of_lookup h
  simp only [spellings, List.cons_append, List.mem_cons, List.mem_append, List.mem_map, Prod.mk.injEq] at hmem
  rcases hmem with hline | (⟨entry, hentry, rfl, rfl⟩ | ⟨entry, hentry, rfl, rfl⟩) | ⟨entry, hentry, rfl, rfl⟩
  · exact .inl hline
  · exact .inr (.inl hentry)
  · exact .inr (.inr (.inl ⟨entry.1.1, entry.1.2, rfl, hentry⟩))
  · exact .inr (.inr (.inr ⟨entry.1, rfl, hentry⟩))

end Token

namespace Scan

/-- What the first character of a lexeme says of it. -/
inductive Opening where
  | line | digit | letter | quote | symbol
deriving DecidableEq

def opening (c : Char) : Opening :=
  if c = '\n' then .line
  else if isDigit c then .digit
  else if startsWord c then .letter
  else if c = '"' ∨ c = '\'' then .quote
  else .symbol

theorem opening_of_isDigit {c : Char} (hc : isDigit c = true) : opening c = .digit := by
  have hline : c ≠ '\n' := by
    rintro rfl
    exact absurd hc (by decide)
  rw [opening, if_neg hline, if_pos hc]

theorem opening_of_startsWord {c : Char} (hc : startsWord c = true) : opening c = .letter := by
  rw [opening, if_neg (ne_newline_of_startsWord hc), isDigit_of_startsWord hc, if_neg Bool.false_ne_true, if_pos hc]

theorem opening_of_quote {c : Char} (hc : c = '"' ∨ c = '\'') : opening c = .quote := by
  rcases hc with rfl | rfl <;> decide

/-- The characters that a lexeme can be written in, by what it starts with. -/
inductive Form : Opening → List Char → Prop
  | line : Form .line ['\n']
  | word {run : List Char} (hrun : ∀ d ∈ run, continuesWord d = true) : Form .letter run
  | whole {digits : List Char} (hdigits : ∀ d ∈ digits, isDigit d = true) : Form .digit digits
  | fraction {whole fraction : List Char} (hwhole : ∀ d ∈ whole, isDigit d = true)
      (hfraction : ∀ d ∈ fraction, isDigit d = true) : Form .digit (whole ++ '.' :: fraction)
  | string {quote : Char} {raw text : List Char} (h : Escaped quote raw text) : Form .quote (quote :: raw ++ [quote])
  | double {first second : Char} {kind : Kind} (hsymbol : Token.doubleSymbol? first second = some kind) :
      Form .symbol [first, second]
  | single {c : Char} : Form .symbol [c]

theorem keyword_of_mem {text : String} {kind : Kind} (h : (text, kind) ∈ Token.keywords) :
    Token.keyword? text = some kind ∧
      ∃ c run, text.toList = c :: run ∧ startsWord c = true ∧ ∀ d ∈ run, continuesWord d = true := by
  have hkeywords : ∀ entry ∈ Token.keywords, Token.keyword? entry.1 = some entry.2 ∧
      entry.1.toList.head?.any startsWord = true ∧ entry.1.toList.all continuesWord = true := by
    decide +kernel
  obtain ⟨hkeyword, hfirst, hall⟩ := hkeywords (text, kind) h
  refine ⟨hkeyword, ?_⟩
  cases htext : text.toList with
  | nil => simp [htext] at hfirst
  | cons c run =>
      simp only [htext, List.head?_cons, Option.any_some, List.all_cons, Bool.and_eq_true, List.all_eq_true]
        at hfirst hall
      exact ⟨c, run, rfl, hfirst, hall.2⟩

theorem doubleSymbol_of_mem {first second : Char} {kind : Kind} (h : ((first, second), kind) ∈ Token.doubleSymbols) :
    Token.doubleSymbol? first second = some kind ∧ opening first = .symbol ∧ isIndent first = false := by
  have hsymbols : ∀ entry ∈ Token.doubleSymbols, Token.doubleSymbol? entry.1.1 entry.1.2 = some entry.2 ∧
      opening entry.1.1 = .symbol ∧ isIndent entry.1.1 = false := by
    decide +kernel
  exact hsymbols _ h

theorem singleSymbol_of_mem {c : Char} {kind : Kind} (h : (c, kind) ∈ Token.singleSymbols) :
    Token.singleSymbol? c = some kind ∧ opening c = .symbol ∧ isIndent c = false := by
  have hsymbols : ∀ entry ∈ Token.singleSymbols,
      Token.singleSymbol? entry.1 = some entry.2 ∧ opening entry.1 = .symbol ∧ isIndent entry.1 = false := by
    decide +kernel
  exact hsymbols _ h

theorem form_of_word {c : Char} {run : List Char} (hc : startsWord c = true)
    (hrun : ∀ d ∈ run, continuesWord d = true) :
    isIndent c = false ∧ Form (opening c) (c :: run) := by
  rw [opening_of_startsWord hc]
  exact ⟨isIndent_of_startsWord hc, .word (List.forall_mem_cons.2 ⟨startsWord_continuesWord hc, hrun⟩)⟩

end Scan

open Scan in
/-- A lexeme starts with a character that is no blank, and that tells its form. -/
theorem Lexeme.exists_cons {kind : Kind} {text : String} {raw : List Char} (h : Lexeme kind text raw) :
    ∃ c rest, raw = c :: rest ∧ isIndent c = false ∧ Form (opening c) raw := by
  cases h with
  | spelled h =>
      rcases Token.spelling_cases h with ⟨-, rfl⟩ | hword | ⟨first, second, rfl, hmem⟩ | ⟨c, rfl, hmem⟩
      · exact ⟨'\n', [], rfl, by decide, .line⟩
      · obtain ⟨-, c, run, htext, hc, hrun⟩ := keyword_of_mem hword
        rw [htext]
        exact ⟨c, run, rfl, form_of_word hc hrun⟩
      · obtain ⟨hsymbol, hopening, hindent⟩ := doubleSymbol_of_mem hmem
        rw [String.toList_ofList]
        exact ⟨first, [second], rfl, hindent, hopening ▸ .double hsymbol⟩
      · obtain ⟨-, hopening, hindent⟩ := singleSymbol_of_mem hmem
        rw [String.toList_ofList]
        exact ⟨c, [], rfl, hindent, hopening ▸ .single⟩
  | identifier h =>
      obtain ⟨⟨c, run, htext, hc, hrun⟩, -⟩ := h
      rw [htext]
      exact ⟨c, run, rfl, form_of_word hc hrun⟩
  | number h =>
      obtain ⟨whole, hne, hwhole, htext⟩ := h
      obtain ⟨c, digits, rfl⟩ := List.exists_cons_of_ne_nil hne
      have hc := hwhole c List.mem_cons_self
      rcases htext with htext | ⟨fraction, htext, hfraction⟩
      · rw [htext]
        exact ⟨c, digits, rfl, isIndent_of_isDigit hc, opening_of_isDigit hc ▸ .whole hwhole⟩
      · rw [htext]
        exact ⟨c, digits ++ '.' :: fraction, rfl, isIndent_of_isDigit hc,
          opening_of_isDigit hc ▸ .fraction hwhole hfraction⟩
  | @string quote _ _ hquote h =>
      refine ⟨quote, _, rfl, ?_, opening_of_quote hquote ▸ .string h⟩
      rcases hquote with rfl | rfl <;> decide

/-! ### Strings -/

namespace Scan

/-- A string is scanned up to its closing quote. -/
theorem string_of_escaped {quote : Char} (hquote : quote = '"' ∨ quote = '\'') {raw text : List Char}
    (h : Escaped quote raw text) (before written rest : List Char) :
    string quote before written (raw ++ quote :: rest) =
      lexeme .stringLiteral (String.ofList (before.reverse ++ text)) (written.reverse ++ raw ++ [quote]) rest := by
  have hslash : '\\' ≠ quote := by rcases hquote with rfl | rfl <;> decide
  have hline : quote ≠ '\n' := by rcases hquote with rfl | rfl <;> decide
  induction h generalizing before written with
  | nil =>
      rw [List.nil_append, string.eq_def]
      simp [hline]
  | @plain c raw text hc hquote hescape hrest ih =>
      rw [List.cons_append, string.eq_def]
      simp only [if_neg hc, if_neg hquote, if_neg hescape, ih]
      simp
  | @escape c denoted raw text hdenoted hrest ih =>
      have hc : c ≠ '\n' := by
        rintro rfl
        cases hdenoted
      rw [List.cons_append, List.cons_append, string, if_neg (by decide), if_neg hslash, if_pos rfl]
      simp only [if_neg hc, hdenoted, ih]
      simp

/-- What is scanned as a string stands in front of a quote. -/
theorem escaped_of_string {quote : Char} {before written text : List Char} {kind : Kind} {spelled : String}
    {raw rest : List Char} (h : string quote before written text = lexeme kind spelled raw rest) :
    kind = .stringLiteral ∧ ∃ inner denoted, Escaped quote inner denoted ∧ text = inner ++ quote :: rest ∧
      spelled = String.ofList (before.reverse ++ denoted) ∧ raw = written.reverse ++ inner ++ [quote] := by
  fun_induction string quote before written text with
  | case3 before written rest' hline =>
      obtain ⟨rfl, rfl, rfl, rfl⟩ := Scan.lexeme.inj h
      exact ⟨rfl, [], [], .nil, by simp, by simp, by simp⟩
  | case6 before written c rest' hc denoted hdenoted hline hslash ih =>
      obtain ⟨hkind, inner, text, hescaped, htext, hspelled, hraw⟩ := ih h
      exact ⟨hkind, '\\' :: c :: inner, denoted :: text, .escape hdenoted hescaped, by simp [htext], by simp [hspelled],
        by simp [hraw]⟩
  | case8 before written c rest' hline hquote hslash ih =>
      obtain ⟨hkind, inner, text, hescaped, htext, hspelled, hraw⟩ := ih h
      exact ⟨hkind, c :: inner, c :: text, .plain hline hquote hslash hescaped, by simp [htext], by simp [hspelled],
        by simp [hraw]⟩
  | _ => cases h

/-! ### The scanner takes the longest lexeme -/

/-- A run of characters of a class is no longer than the run that ends where the class does. -/
theorem length_le_of_run {p : Char → Bool} {run raw rest : List Char} (hraw : ∀ d ∈ raw, p d = true)
    (hrest : ∀ d ∈ rest.head?, p d = false) (hstarts : raw <+: run ++ rest) : raw.length ≤ run.length := by
  obtain ⟨behind, heq⟩ := hstarts
  rcases List.append_eq_append_iff.1 heq with ⟨more, rfl, -⟩ | ⟨more, rfl, rfl⟩
  · rw [List.length_append]
    exact Nat.le_add_right _ _
  · cases more with
    | nil => simp
    | cons d more =>
        have hd := hraw d (by simp)
        rw [hrest d rfl] at hd
        cases hd

theorem head?_dropWhile {p : Char → Bool} {text : List Char} : ∀ d ∈ (text.dropWhile p).head?, p d = false := by
  intro d hd
  have hnot := List.head?_dropWhile_not p text
  rw [Option.mem_def.1 hd] at hnot
  exact hnot

/-- To be the longest lexeme of a text it is enough to be as long as those of the form that the text starts with. -/
theorem longest_of_form {c : Char} {raw rest : List Char} {start : Opening} (hraw : ∃ tail, raw = c :: tail)
    (hc : opening c = start)
    (h : ∀ raw', Form start raw' → raw' <+: raw ++ rest → raw'.length ≤ raw.length) : Longest raw rest := by
  intro kind text raw' hlexeme hstarts
  obtain ⟨tail, rfl⟩ := hraw
  obtain ⟨d, raw', rfl, -, hform⟩ := hlexeme.exists_cons
  obtain ⟨rfl, -⟩ := List.cons_prefix_cons.1 hstarts
  exact h _ (hc ▸ hform) hstarts

variable {c : Char} {text raw rest : List Char} {kind : Kind} {spelled : String}

/-- What a scan that ends in a lexeme says of the text: the lexeme stands at its start, and no longer one does. -/
def Takes (text : List Char) (kind : Kind) (spelled : String) (raw rest : List Char) : Prop :=
  text = raw ++ rest ∧ Lexeme kind spelled raw ∧ Longest raw rest

theorem takes_word (hc : startsWord c = true) (h : word (c :: text) = lexeme kind spelled raw rest) :
    Takes (c :: text) kind spelled raw rest := by
  have hcontinues := startsWord_continuesWord hc
  unfold word at h
  rw [List.takeWhile_cons_of_pos hcontinues, List.dropWhile_cons_of_pos hcontinues] at h
  obtain ⟨rfl, rfl, rfl, rfl⟩ := Scan.lexeme.inj h
  have hrun : ∀ d ∈ text.takeWhile continuesWord, continuesWord d = true := List.all_eq_true.1 List.all_takeWhile
  refine ⟨by simp, ?_, longest_of_form ⟨_, rfl⟩ (opening_of_startsWord hc) ?_⟩
  · cases hkeyword : Token.keyword? (String.ofList (c :: text.takeWhile continuesWord)) with
    | none =>
        have hlexeme := Lexeme.identifier ⟨⟨c, _, String.toList_ofList, hc, hrun⟩, hkeyword⟩
        rwa [String.toList_ofList] at hlexeme
    | some keyword =>
        have hspelling : keyword.spelling? = some (String.ofList (c :: text.takeWhile continuesWord)) := by
          have hkeywords : ∀ entry ∈ Token.keywords, entry.2.spelling? = some entry.1 := by decide +kernel
          exact hkeywords _ (Token.mem_of_lookup hkeyword)
        have hlexeme := Lexeme.spelled hspelling
        rwa [String.toList_ofList] at hlexeme
  · intro raw' hform hstarts
    cases hform with
    | word hraw' => exact length_le_of_run hraw' head?_dropWhile hstarts

/-- Digits before a point end at the same point. -/
theorem eq_of_digits {whole whole' behind rest : List Char} (hwhole : ∀ d ∈ whole, isDigit d = true)
    (hwhole' : ∀ d ∈ whole', isDigit d = true) (hrest : ∀ d ∈ rest.head?, isDigit d = false)
    (heq : whole' ++ '.' :: behind = whole ++ rest) : whole' = whole ∧ '.' :: behind = rest := by
  have hpoint : ∀ d ∈ ('.' :: behind).head?, isDigit d = false := by
    rintro d ⟨⟩
    decide
  obtain ⟨htake, hdrop⟩ := takeWhile_and_dropWhile hwhole hrest
  obtain ⟨htake', hdrop'⟩ := takeWhile_and_dropWhile hwhole' hpoint
  rw [heq] at htake' hdrop'
  exact ⟨htake'.symm.trans htake, hdrop'.symm.trans hdrop⟩

theorem takes_number (hc : isDigit c = true) (h : number (c :: text) = lexeme kind spelled raw rest) :
    Takes (c :: text) kind spelled raw rest := by
  have hwhole : ∀ d ∈ c :: text.takeWhile isDigit, isDigit d = true :=
    List.forall_mem_cons.2 ⟨hc, List.all_eq_true.1 List.all_takeWhile⟩
  have htext : c :: text = c :: text.takeWhile isDigit ++ text.dropWhile isDigit := by simp
  have hstop : ∀ d ∈ (text.dropWhile isDigit).head?, isDigit d = false := head?_dropWhile
  rw [number, List.takeWhile_cons_of_pos hc, List.dropWhile_cons_of_pos hc] at h
  split at h
  next tail htail =>
    obtain ⟨rfl, rfl, rfl, rfl⟩ := Scan.lexeme.inj h
    have hfraction : ∀ d ∈ tail.takeWhile isDigit, isDigit d = true := List.all_eq_true.1 List.all_takeWhile
    rw [htail] at htext hstop
    refine ⟨by simp [htext], ?_, longest_of_form ⟨_, rfl⟩ (opening_of_isDigit hc) ?_⟩
    · have hlexeme := Lexeme.number ⟨_, List.cons_ne_nil _ _, hwhole, .inr ⟨_, String.toList_ofList, hfraction⟩⟩
      rwa [String.toList_ofList] at hlexeme
    · intro raw' hform hstarts
      have htail' : '.' :: tail.takeWhile isDigit ++ tail.dropWhile isDigit = '.' :: tail := by simp
      rw [List.append_assoc, htail'] at hstarts
      rw [List.length_append]
      cases hform with
      | whole hdigits => exact Nat.le_add_right_of_le (length_le_of_run hdigits hstop hstarts)
      | fraction hwhole' hfraction' =>
          obtain ⟨behind, heq⟩ := hstarts
          rw [List.append_assoc, List.cons_append] at heq
          obtain ⟨rfl, hbehind⟩ := eq_of_digits hwhole hwhole' hstop heq
          rw [List.length_append]
          have hle := length_le_of_run hfraction' (@head?_dropWhile isDigit tail)
            ⟨behind, by rw [List.takeWhile_append_dropWhile]; exact (List.cons.inj hbehind).2⟩
          simpa using hle
  next hpoint =>
    obtain ⟨rfl, rfl, rfl, rfl⟩ := Scan.lexeme.inj h
    refine ⟨htext, ?_, longest_of_form ⟨_, rfl⟩ (opening_of_isDigit hc) ?_⟩
    · have hlexeme := Lexeme.number ⟨_, List.cons_ne_nil _ _, hwhole, .inl String.toList_ofList⟩
      rwa [String.toList_ofList] at hlexeme
    · intro raw' hform hstarts
      cases hform with
      | whole hdigits => exact length_le_of_run hdigits hstop hstarts
      | fraction hwhole' hfraction' =>
          obtain ⟨behind, heq⟩ := hstarts
          rw [List.append_assoc, List.cons_append] at heq
          exact absurd (eq_of_digits hwhole hwhole' hstop heq).2.symm (hpoint _)

theorem takes_string (hc : c = '"' ∨ c = '\'') (h : string c [] [c] text = lexeme kind spelled raw rest) :
    Takes (c :: text) kind spelled raw rest := by
  obtain ⟨rfl, inner, denoted, hescaped, rfl, rfl, rfl⟩ := escaped_of_string h
  change Takes _ _ _ (c :: (inner ++ [c])) rest
  refine ⟨by simp, ?_, longest_of_form ⟨_, rfl⟩ (opening_of_quote hc) ?_⟩
  · exact .string hc (by rwa [List.reverse_nil, List.nil_append, String.toList_ofList])
  · intro raw' hform hstarts
    cases hform with
    | @string quote inner' _ hescaped' =>
        obtain ⟨behind, heq⟩ := hstarts
        simp only [List.cons_append, List.append_assoc, List.cons.injEq, List.nil_append] at heq
        obtain ⟨rfl, heq⟩ := heq
        -- The scanner reads both strings off the same text, and it reads one.
        have hscan := string_of_escaped hc hescaped' [] [] behind
        rw [heq, string_of_escaped hc hescaped [] [] rest] at hscan
        obtain ⟨-, -, hraw, -⟩ := Scan.lexeme.inj hscan
        exact Nat.le_of_eq (congrArg (·.length + 1) hraw.symm)

theorem takes_singleSymbol (h : singleSymbol c text = lexeme kind spelled raw rest) :
    raw = [c] ∧ rest = text ∧ Lexeme kind spelled raw := by
  have hsymbols : ∀ entry ∈ Token.singleSymbols, entry.2.spelling? = some (String.ofList [entry.1]) := by
    decide +kernel
  unfold singleSymbol at h
  split at h
  next hsymbol =>
    obtain ⟨rfl, rfl, rfl, rfl⟩ := Scan.lexeme.inj h
    have hlexeme := Lexeme.spelled (hsymbols _ (Token.mem_of_lookup hsymbol))
    rw [String.toList_ofList] at hlexeme
    exact ⟨rfl, rfl, hlexeme⟩
  next => cases h

/-- A symbol of one character is the longest lexeme where no symbol of two stands. -/
theorem longest_singleton (hc : opening c = .symbol)
    (hdouble : ∀ second ∈ text.head?, Token.doubleSymbol? c second = none) : Longest [c] text := by
  refine longest_of_form ⟨_, rfl⟩ hc fun raw' hform hstarts => ?_
  cases hform with
  | single => exact Nat.le_refl _
  | @double first second kind hsymbol =>
      obtain ⟨behind, heq⟩ := hstarts
      obtain ⟨rfl, rfl⟩ := List.cons.inj heq
      rw [hdouble second rfl] at hsymbol
      cases hsymbol

theorem takes_symbol (hc : opening c = .symbol) (h : symbol c text = lexeme kind spelled raw rest) :
    Takes (c :: text) kind spelled raw rest := by
  have hsymbols : ∀ entry ∈ Token.doubleSymbols, entry.2.spelling? = some (String.ofList [entry.1.1, entry.1.2]) := by
    decide +kernel
  cases text with
  | nil =>
      obtain ⟨rfl, rfl, hlexeme⟩ := takes_singleSymbol h
      exact ⟨rfl, hlexeme, longest_singleton hc nofun⟩
  | cons second text =>
      simp only [symbol] at h
      split at h
      next hsymbol =>
        obtain ⟨rfl, rfl, rfl, rfl⟩ := Scan.lexeme.inj h
        have hlexeme := Lexeme.spelled (hsymbols _ (Token.mem_of_lookup hsymbol))
        rw [String.toList_ofList] at hlexeme
        refine ⟨rfl, hlexeme, longest_of_form ⟨_, rfl⟩ hc fun raw' hform _ => ?_⟩
        cases hform <;> simp
      next hnone =>
        obtain ⟨rfl, rfl, hlexeme⟩ := takes_singleSymbol h
        refine ⟨rfl, hlexeme, longest_singleton hc ?_⟩
        rintro d ⟨⟩
        exact hnone

/-- **The scanner takes the longest lexeme.** What it takes off a text is a lexeme, and no longer one starts there. -/
theorem takes_ofChars (h : ofChars (c :: text) = lexeme kind spelled raw rest) :
    Takes (c :: text) kind spelled raw rest := by
  simp only [ofChars] at h
  split at h
  next hline =>
    subst hline
    obtain ⟨rfl, rfl, rfl, rfl⟩ := Scan.lexeme.inj h
    refine ⟨rfl, .spelled rfl, longest_of_form ⟨_, rfl⟩ (rfl : opening '\n' = .line) fun raw' hform _ => ?_⟩
    cases hform
    exact Nat.le_refl _
  next hline =>
  split at h
  next hdigit => exact takes_number hdigit h
  next hdigit =>
  split at h
  next hword => exact takes_word hword h
  next hword =>
  split at h
  next hquote => exact takes_string hquote h
  next hquote =>
    refine takes_symbol ?_ h
    rw [opening, if_neg hline, if_neg hdigit, if_neg hword, if_neg hquote]

/-! ### Mistakes -/

/-- The good part of a string with a mistake stands at its start. -/
theorem prefix_of_string {quote : Char} {before written text good : List Char} {cause : SyntaxCause}
    (h : string quote before written text = mistake cause good) : good <+: written.reverse ++ text := by
  fun_induction string quote before written text with
  | case3 => cases h
  | case6 before written c rest hc denoted hdenoted hline hslash ih => simpa using ih h
  | case8 before written c rest hline hquote hslash ih => simpa using ih h
  | _ =>
      obtain ⟨-, rfl⟩ := Scan.mistake.inj h
      exact List.prefix_append _ _

theorem prefix_of_singleSymbol {cause : SyntaxCause} {good : List Char}
    (h : singleSymbol c rest = mistake cause good) : good <+: text := by
  unfold singleSymbol at h
  split at h
  · cases h
  · obtain ⟨-, rfl⟩ := Scan.mistake.inj h
    exact List.nil_prefix

/-- The characters before a mistake stand at the start of the text. -/
theorem prefix_of_ofChars {cause : SyntaxCause} {good : List Char} (h : ofChars text = mistake cause good) :
    good <+: text := by
  cases text with
  | nil => cases h
  | cons c text =>
      simp only [ofChars] at h
      split at h
      · cases h
      split at h
      · unfold number at h
        split at h <;> cases h
      split at h
      · cases h
      split at h
      · exact prefix_of_string h
      unfold symbol at h
      split at h
      · exact prefix_of_singleSymbol h
      · split at h
        · cases h
        · exact prefix_of_singleSymbol h

end Scan

end LineScript
