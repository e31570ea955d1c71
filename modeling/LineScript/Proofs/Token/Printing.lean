import LineScript.Proofs.Token.Lexeme
/-!
# Printed tokens

Tokens are printed with single spaces between them, a string between quotes of either kind. A space prolongs no lexeme,
so each printed token is scanned as itself: what is read from the print of a list of tokens is that list.
-/

namespace LineScript

open Token (Kind)

/-! ### Printing -/

/-- The two quotes that a string can stand between. -/
inductive Quote where
  | single | double

namespace Quote

def char : Quote → Char
  | single => '\''
  | double => '"'

/-- A character as it is written between quotes: a backslash, the quote and a line feed are escaped. -/
def escaped (quote : Quote) (c : Char) : List Char :=
  if c = '\\' ∨ c = quote.char then ['\\', c] else if c = '\n' then ['\\', 'n'] else [c]

theorem char_cases (quote : Quote) : quote.char = '"' ∨ quote.char = '\'' := by
  cases quote
  · exact .inr rfl
  · exact .inl rfl

end Quote

namespace Token

/-- A kind and a text that a token can have: a spelling of its own, a name, a number, or a string of any text. -/
inductive Printable : Kind → String → Prop
  | spelled {kind : Kind} {text : String} (h : kind.spelling? = some text) : Printable kind text
  | identifier {text : String} (h : IsIdentifier text) : Printable .identifier text
  | number {text : String} (h : IsNumber text) : Printable .numberLiteral text
  | string {text : String} : Printable .stringLiteral text

/-- A token to be printed, with the quotes to use if it is a string. -/
structure Item where
  kind : Kind
  text : String
  quote : Quote

def Item.print (item : Item) : List Char :=
  if item.kind = .stringLiteral then
    item.quote.char :: item.text.toList.flatMap item.quote.escaped ++ [item.quote.char]
  else item.text.toList

/-- The items with single spaces between them. -/
def printAll (items : List Item) : List Char :=
  [' '].intercalate (items.map Item.print)

theorem printAll_singleton (item : Item) : printAll [item] = item.print := by
  simp [printAll]

theorem printAll_cons_cons (item second : Item) (items : List Item) :
    printAll (item :: second :: items) = item.print ++ ' ' :: printAll (second :: items) := by
  simp [printAll]

end Token

/-! ### What is printed is a lexeme -/

theorem Quote.escaped_flatMap (quote : Quote) (text : List Char) :
    Escaped quote.char (text.flatMap quote.escaped) text := by
  induction text with
  | nil => exact .nil
  | cons c text ih =>
      rw [List.flatMap_cons, Quote.escaped]
      split
      next hc =>
        refine .escape ?_ ih
        rcases hc with rfl | rfl
        · rfl
        · rcases quote.char_cases with hquote | hquote <;> rw [hquote] <;> rfl
      next hc =>
        rw [not_or] at hc
        split
        next hline =>
          subst hline
          exact .escape rfl ih
        next hline => exact .plain hline hc.2 hc.1 ih

theorem Token.Printable.lexeme {kind : Kind} {text : String} (h : Printable kind text) (quote : Quote) :
    Lexeme kind text (Item.print ⟨kind, text, quote⟩) := by
  cases h with
  | spelled h =>
      have hkind : kind ≠ .stringLiteral := by
        rintro rfl
        cases h
      rw [Item.print, if_neg hkind]
      exact .spelled h
  | identifier h => exact .identifier h
  | number h => exact .number h
  | string => exact .string quote.char_cases (quote.escaped_flatMap text.toList)

/-! ### A space ends every lexeme -/

namespace Scan

variable {c : Char} {raw rest : List Char} {kind : Kind} {text : String}

/-- The end of the text, or a space. -/
def Spaced (rest : List Char) : Prop :=
  ∀ c ∈ rest.head?, c = ' '

theorem Spaced.head? {rest : List Char} (hrest : Spaced rest) {p : Char → Prop} (hp : p ' ') :
    ∀ c ∈ rest.head?, p c := by
  intro c hc
  rw [hrest c hc]
  exact hp

theorem ofChars_spaced_word (hc : startsWord c = true) (hrun : ∀ d ∈ raw, continuesWord d = true)
    (htext : text.toList = c :: raw) (hrest : Spaced rest) :
    ofChars (text.toList ++ rest) =
      lexeme ((Token.keyword? text).getD .identifier) text text.toList rest := by
  have hscan := ofChars_word hc (ne_newline_of_startsWord hc) (isDigit_of_startsWord hc)
    (List.forall_mem_cons.2 ⟨startsWord_continuesWord hc, hrun⟩) (hrest.head? (by decide))
  rwa [← htext, String.ofList_toList] at hscan

theorem ofChars_of_symbol (hc : opening c = .symbol) (rest : List Char) : ofChars (c :: rest) = symbol c rest := by
  unfold opening at hc
  split at hc
  · cases hc
  next hline =>
  split at hc
  · cases hc
  next hdigit =>
  split at hc
  · cases hc
  next hword =>
  split at hc
  · cases hc
  next hquote => rw [ofChars, if_neg hline, if_neg hdigit, if_neg hword, if_neg hquote]

/-- A spelling before a space is scanned as itself. -/
theorem ofChars_spelled (h : kind.spelling? = some text) (hrest : Spaced rest) :
    ofChars (text.toList ++ rest) = lexeme kind text text.toList rest := by
  rcases Token.spelling_cases h with ⟨rfl, rfl⟩ | hword | ⟨first, second, rfl, hmem⟩ | ⟨c, rfl, hmem⟩
  · rfl
  · obtain ⟨hkeyword, c, run, htext, hc, hrun⟩ := keyword_of_mem hword
    rw [ofChars_spaced_word hc hrun htext hrest, hkeyword]
    rfl
  · obtain ⟨hsymbol, hopening, -⟩ := doubleSymbol_of_mem hmem
    rw [String.toList_ofList, List.cons_append, ofChars_of_symbol hopening, List.cons_append, symbol, hsymbol]
    rfl
  · obtain ⟨hsymbol, hopening, -⟩ := singleSymbol_of_mem hmem
    have halone : symbol c rest = singleSymbol c rest := by
      cases rest with
      | nil => rfl
      | cons second rest =>
          rw [symbol, Token.doubleSymbol?_of_second c (hrest.head? (p := (· ≠ '=')) (by decide) second rfl)]
    rw [String.toList_ofList, List.singleton_append, ofChars_of_symbol hopening, halone, singleSymbol, hsymbol]

/-- A number before a space is scanned as itself. -/
theorem ofChars_number (h : Token.IsNumber text) (hrest : Spaced rest) :
    ofChars (text.toList ++ rest) = lexeme .numberLiteral text text.toList rest := by
  obtain ⟨whole, hne, hwhole, htext⟩ := h
  have hnumber : number (text.toList ++ rest) = lexeme .numberLiteral text text.toList rest := by
    rcases htext with htext | ⟨fraction, htext, hfraction⟩
    · have hscan := number_whole hwhole (hrest.head? (p := fun c => isDigit c = false ∧ c ≠ '.') (by decide))
      rwa [← htext, String.ofList_toList] at hscan
    · have hscan := number_fraction hwhole hfraction (hrest.head? (p := fun c => isDigit c = false) (by decide))
      rwa [← htext, String.ofList_toList] at hscan
  obtain ⟨c, digits, rfl⟩ := List.exists_cons_of_ne_nil hne
  have hc := hwhole c List.mem_cons_self
  have hline : c ≠ '\n' := by
    rintro rfl
    exact absurd hc (by decide)
  obtain ⟨tail, hcons⟩ : ∃ tail, text.toList = c :: tail := by
    rcases htext with htext | ⟨fraction, htext, -⟩ <;> exact ⟨_, htext⟩
  rw [hcons] at hnumber ⊢
  rw [List.cons_append, ofChars, if_neg hline, if_pos hc]
  exact hnumber

/-- **A lexeme before a space is scanned as itself.** -/
theorem ofChars_of_lexeme (h : Lexeme kind text raw) (hrest : Spaced rest) :
    ofChars (raw ++ rest) = lexeme kind text raw rest := by
  cases h with
  | spelled h => exact ofChars_spelled h hrest
  | identifier h =>
      obtain ⟨⟨c, run, htext, hc, hrun⟩, hkeyword⟩ := h
      rw [ofChars_spaced_word hc hrun htext hrest, hkeyword]
      rfl
  | number h => exact ofChars_number h hrest
  | @string quote _ inner hquote h =>
      have hline : quote ≠ '\n' := by rcases hquote with rfl | rfl <;> decide
      have hdigit : isDigit quote = false := by rcases hquote with rfl | rfl <;> decide
      have hword : startsWord quote = false := by rcases hquote with rfl | rfl <;> decide
      have hscan := string_of_escaped hquote h [] [quote] rest
      rw [List.append_assoc, List.cons_append, ofChars, if_neg hline, hdigit, if_neg Bool.false_ne_true, hword,
        if_neg Bool.false_ne_true, if_pos hquote, List.singleton_append, hscan]
      simp

end Scan

/-! ### Reading back -/

namespace Lexer

open Token (Item Printable printAll)

/-- A lexeme before a space is one token. -/
theorem scans_lexeme {kind : Kind} {text : String} {raw rest : List Char} (h : Lexeme kind text raw)
    (hrest : Scan.Spaced rest) (p : Position) :
    Scans ⟨raw ++ rest, p⟩ [⟨kind, text, p⟩] ⟨rest, p.advance raw⟩ := by
  have hscan := Scan.ofChars_of_lexeme h hrest
  obtain ⟨c, tail, rfl, hindent, -⟩ := h.exists_cons
  exact .one (next_of_scan hindent hscan p) (Scan.ofChars_cons_kind hscan)

theorem Scans.blank {c : Char} (hc : Scan.isIndent c = true) {rest : List Char} {p : Position} {ts : List Token}
    {l : Lexer} (h : Scans ⟨rest, p.next c⟩ ts l) (hts : ts ≠ []) : Scans ⟨c :: rest, p⟩ ts l := by
  cases h with
  | done => exact absurd rfl hts
  | step hnext ht hrest => exact .step (by rw [next_blank hc]; exact hnext) ht hrest

/-- Printed tokens are scanned one after the other, wherever the print starts. -/
theorem scans_printAll {items : List Item} (h : ∀ item ∈ items, Printable item.kind item.text) (p : Position) :
    ∃ ts p', Scans ⟨printAll items, p⟩ ts ⟨[], p'⟩ ∧
      ts.map (fun t => (t.kind, t.text)) = items.map fun item => (item.kind, item.text) := by
  induction items generalizing p with
  | nil => exact ⟨[], p, .done, rfl⟩
  | cons item items ih =>
      have hlexeme := (h item List.mem_cons_self).lexeme item.quote
      cases items with
      | nil =>
          have hend : Scan.Spaced [] := nofun
          have hscans := scans_lexeme hlexeme hend p
          rw [List.append_nil] at hscans
          rw [Token.printAll_singleton]
          exact ⟨_, _, hscans, rfl⟩
      | cons second items =>
          have hspaced : Scan.Spaced (' ' :: printAll (second :: items)) := by
            rintro c ⟨⟩
            rfl
          have hscans := scans_lexeme hlexeme hspaced p
          obtain ⟨ts, p', hrest, hmap⟩ := ih (fun item hitem => h item (List.mem_cons_of_mem _ hitem))
            ((p.advance item.print).next ' ')
          have hts : ts ≠ [] := by
            rintro rfl
            cases hmap
          rw [Token.printAll_cons_cons]
          exact ⟨_, p', hscans.append (hrest.blank (by decide) hts), congrArg (_ :: ·) hmap⟩

/-- **Reading undoes printing.** The tokens of the print of a list of tokens are those, in order, and the end of the
file. -/
theorem tokens_printAll (source : String) (items : List Item) (h : ∀ item ∈ items, Printable item.kind item.text) :
    ∃ ts l, (ofSource source (String.ofList (printAll items))).tokens = (ts, .ok l) ∧
      ts.map (fun t => (t.kind, t.text)) =
        items.map (fun item => (item.kind, item.text)) ++ [(.endOfFile, "")] := by
  obtain ⟨ts, p, hscans, hmap⟩ := scans_printAll h (.start source)
  obtain ⟨l, htokens⟩ := hscans.yields (yields_nil p)
  refine ⟨ts ++ [⟨.endOfFile, "", p⟩], l, ?_, ?_⟩
  · rw [ofSource, String.toList_ofList]
    exact htokens
  · rw [List.map_append, hmap]
    rfl

/-- A keyword and a name that starts with it, numbers with and without a point, a point of its own, symbols that start
alike, and a string in either kind of quotes. -/
theorem tokens_print_of_neighbours :
    ∃ ts l, (ofSource "main" "if iffy 1. . 1 == = \n 'a\"\\'\\n' \"a\\\"'\\n\"").tokens = (ts, .ok l) ∧
      ts.map (fun t => (t.kind, t.text)) =
        [(.ifWord, "if"), (.identifier, "iffy"), (.numberLiteral, "1."), (.dot, "."), (.numberLiteral, "1"),
          (.equals, "=="), (.assign, "="), (.endOfLine, "\n"), (.stringLiteral, "a\"'\n"),
          (.stringLiteral, "a\"'\n"), (.endOfFile, "")] :=
  tokens_printAll "main"
    [⟨.ifWord, "if", .single⟩, ⟨.identifier, "iffy", .single⟩, ⟨.numberLiteral, "1.", .single⟩, ⟨.dot, ".", .single⟩,
      ⟨.numberLiteral, "1", .single⟩, ⟨.equals, "==", .single⟩, ⟨.assign, "=", .single⟩, ⟨.endOfLine, "\n", .single⟩,
      ⟨.stringLiteral, "a\"'\n", .single⟩, ⟨.stringLiteral, "a\"'\n", .double⟩]
    (by
      simp only [List.forall_mem_cons, List.not_mem_nil, false_imp_iff, implies_true, and_true]
      have hword : ∀ d ∈ ['f', 'f', 'y'], Scan.continuesWord d = true := List.all_eq_true.1 (by decide)
      have hone : ∀ c ∈ ['1'], Scan.isDigit c = true := List.all_eq_true.1 (by decide)
      exact ⟨.spelled rfl, .identifier ⟨⟨'i', _, by decide, by decide, hword⟩, by decide⟩,
        .number ⟨_, by decide, hone, .inr ⟨[], by decide, nofun⟩⟩, .spelled rfl,
        .number ⟨_, by decide, hone, .inl (by decide)⟩, .spelled rfl, .spelled rfl, .spelled rfl, .string, .string⟩)

end Lexer

end LineScript
