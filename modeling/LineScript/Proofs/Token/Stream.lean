import LineScript.Token.Lexer
/-!
# The tokens that a lexer yields

A lexer that meets no mistake yields finitely many tokens, of which the last and no other is the end of the file, and
after them the end of the file for ever. `behind` is the stream of tokens behind the first one, in that sense, and
`Lexer.Yields` says of a lexer what its stream is.
-/

namespace LineScript

/-! ### Only the end of a text is the end of the file -/

namespace Token

theorem ne_endOfFile_of_lookup {α : Type} [BEq α] [LawfulBEq α] {table : List (α × Kind)} {key : α} {kind : Kind}
    (htable : ∀ entry ∈ table, entry.2 ≠ .endOfFile) (hlookup : table.lookup key = some kind) :
    kind ≠ .endOfFile := by
  obtain ⟨before, behind, htable_eq, -⟩ := List.lookup_eq_some_iff.1 hlookup
  exact htable (key, kind) (by simp [htable_eq])

theorem keyword?_ne_endOfFile {text : String} {kind : Kind} (h : keyword? text = some kind) : kind ≠ .endOfFile :=
  ne_endOfFile_of_lookup (by decide) h

theorem doubleSymbol?_ne_endOfFile {first second : Char} {kind : Kind} (h : doubleSymbol? first second = some kind) :
    kind ≠ .endOfFile :=
  ne_endOfFile_of_lookup (by decide) h

theorem singleSymbol?_ne_endOfFile {c : Char} {kind : Kind} (h : singleSymbol? c = some kind) : kind ≠ .endOfFile :=
  ne_endOfFile_of_lookup (by decide) h

end Token

namespace Scan

variable {kind : Token.Kind} {spelled : String} {raw left : List Char}

theorem number_kind {text : List Char} (h : number text = lexeme kind spelled raw left) : kind = .numberLiteral := by
  unfold number at h
  split at h <;> exact (Scan.lexeme.inj h).1.symm

theorem word_kind {text : List Char} (h : word text = lexeme kind spelled raw left) : kind ≠ .endOfFile := by
  unfold word at h
  obtain ⟨hkind, -⟩ := Scan.lexeme.inj h
  cases hword : Token.keyword? (String.ofList (text.takeWhile continuesWord)) with
  | none =>
      rw [← hkind, hword]
      decide
  | some keyword =>
      rw [← hkind, hword]
      exact Token.keyword?_ne_endOfFile hword

theorem string_kind {quote : Char} {text written rest : List Char}
    (h : string quote text written rest = lexeme kind spelled raw left) : kind = .stringLiteral := by
  fun_induction string quote text written rest with
  | case3 => exact (Scan.lexeme.inj h).1.symm
  | case6 _ _ _ _ _ _ _ _ _ ih => exact ih h
  | case8 _ _ _ _ _ _ _ ih => exact ih h
  | _ => cases h

theorem singleSymbol_kind {c : Char} {rest : List Char} (h : singleSymbol c rest = lexeme kind spelled raw left) :
    kind ≠ .endOfFile := by
  unfold singleSymbol at h
  split at h
  next hsymbol => exact (Scan.lexeme.inj h).1 ▸ Token.singleSymbol?_ne_endOfFile hsymbol
  next => cases h

theorem symbol_kind {c : Char} {rest : List Char} (h : symbol c rest = lexeme kind spelled raw left) :
    kind ≠ .endOfFile := by
  unfold symbol at h
  split at h
  · exact singleSymbol_kind h
  · split at h
    next hsymbol => exact (Scan.lexeme.inj h).1 ▸ Token.doubleSymbol?_ne_endOfFile hsymbol
    next => exact singleSymbol_kind h

theorem ofChars_cons_kind {c : Char} {rest : List Char} (h : ofChars (c :: rest) = lexeme kind spelled raw left) :
    kind ≠ .endOfFile := by
  simp only [ofChars] at h
  split at h
  · rw [← (Scan.lexeme.inj h).1]
    decide
  split at h
  · rw [number_kind h]
    decide
  split at h
  · exact word_kind h
  split at h
  · rw [string_kind h]
    decide
  · exact symbol_kind h

end Scan

namespace Lexer

/-- At the end of the file a lexer yields the same token again and stays as it is. -/
theorem next_of_endOfFile {l l' : Lexer} {t : Token} (hnext : l.next = .ok (t, l')) (hkind : t.kind = .endOfFile) :
    l'.next = .ok (t, l') := by
  unfold next at hnext
  cases htext : l.rest.dropWhile Scan.isIndent with
  | nil =>
      simp only [htext, Scan.ofChars, Except.ok.injEq, Prod.mk.injEq] at hnext
      obtain ⟨rfl, rfl⟩ := hnext
      rfl
  | cons c rest =>
      rw [htext] at hnext
      split at hnext
      next kind text raw left hscan =>
        simp only [Except.ok.injEq, Prod.mk.injEq] at hnext
        obtain ⟨rfl, -⟩ := hnext
        exact absurd hkind (Scan.ofChars_cons_kind hscan)
      next => cases hnext

end Lexer

/-! ### Streams -/

namespace Token

/-- The stream behind its first token. The last token is repeated for ever. -/
def behind : List Token → List Token
  | [] => []
  | [last] => [last]
  | _ :: next :: rest => next :: rest

/-- The last of these tokens and no other is the end of the file. -/
inductive Ended : List Token → Prop
  | last {t : Token} (ht : t.kind = .endOfFile) : Ended [t]
  | cons {t : Token} {ts : List Token} (ht : t.kind ≠ .endOfFile) (hts : Ended ts) : Ended (t :: ts)

theorem Ended.exists_cons {ts : List Token} (h : Ended ts) : ∃ t rest, ts = t :: rest := by
  cases h with
  | last ht => exact ⟨_, _, rfl⟩
  | cons ht hts => exact ⟨_, _, rfl⟩

theorem Ended.behind_of_ne {t : Token} {ts : List Token} (h : Ended (t :: ts)) (ht : t.kind ≠ .endOfFile) :
    behind (t :: ts) = ts ∧ Ended ts := by
  cases h with
  | last ht' => exact absurd ht' ht
  | cons _ hts =>
      obtain ⟨u, rest, rfl⟩ := hts.exists_cons
      exact ⟨rfl, hts⟩

theorem Ended.eq_nil {t : Token} {ts : List Token} (h : Ended (t :: ts)) (ht : t.kind = .endOfFile) : ts = [] := by
  cases h with
  | last => rfl
  | cons ht' => exact absurd ht ht'

theorem Ended.behind {ts : List Token} (h : Ended ts) : Ended (behind ts) := by
  cases h with
  | last ht => exact .last ht
  | cons ht hts =>
      rw [((Ended.cons ht hts).behind_of_ne ht).1]
      exact hts

end Token

namespace Lexer

open Token (Ended behind)

/-- The lexer meets no mistake, and these are its tokens up to the end of the file. -/
def Yields (l : Lexer) (ts : List Token) : Prop :=
  ∃ l', l.tokens = (ts, .ok l')

theorem tokens_of_endOfFile {l l' : Lexer} {t : Token} (hnext : l.next = .ok (t, l')) (hkind : t.kind = .endOfFile) :
    l.tokens = ([t], .ok l') := by
  rw [tokens]
  split
  next e herror => rw [hnext] at herror; cases herror
  next t' l'' hok =>
    rw [hnext] at hok
    cases hok
    rw [dif_pos hkind]

theorem tokens_of_ne_endOfFile {l l' : Lexer} {t : Token} (hnext : l.next = .ok (t, l'))
    (hkind : t.kind ≠ .endOfFile) : l.tokens = (t :: l'.tokens.1, l'.tokens.2) := by
  rw [tokens]
  split
  next e herror => rw [hnext] at herror; cases herror
  next t' l'' hok =>
    rw [hnext] at hok
    cases hok
    rw [dif_neg hkind]

theorem tokens_of_error {l : Lexer} {e : SyntaxError} (hnext : l.next = .error e) : l.tokens = ([], .error e) := by
  rw [tokens]
  split
  next e' herror => rw [hnext] at herror; cases herror; rfl
  next t' l'' hok => rw [hnext] at hok; cases hok

theorem Yields.ended_and_length_le {l : Lexer} {ts : List Token} (h : l.Yields ts) :
    Ended ts ∧ ts.length ≤ l.rest.length + 1 := by
  obtain ⟨last, htokens⟩ := h
  fun_induction tokens l generalizing ts last with
  | case1 l e hnext => cases htokens
  | case2 l t l' hnext hkind =>
      cases htokens
      exact ⟨.last hkind, by simp⟩
  | case3 l t l' hnext hkind rest ending hrest ih =>
      obtain ⟨rfl, rfl⟩ := Prod.mk.inj htokens
      obtain ⟨hended, hlength⟩ := ih last hrest
      have hlt := next_rest_lt hnext hkind
      refine ⟨.cons hkind hended, ?_⟩
      rw [List.length_cons]
      omega

/-- What a lexer yields is one token and then what the lexer behind it yields. -/
theorem Yields.next {l : Lexer} {ts : List Token} (h : l.Yields ts) :
    ∃ t l', ts.head? = some t ∧ l.next = .ok (t, l') ∧ l'.Yields (behind ts) := by
  obtain ⟨last, htokens⟩ := h
  cases hnext : l.next with
  | error e =>
      rw [tokens_of_error hnext] at htokens
      cases htokens
  | ok result =>
      obtain ⟨t, l'⟩ := result
      by_cases hkind : t.kind = .endOfFile
      · rw [tokens_of_endOfFile hnext hkind] at htokens
        cases htokens
        exact ⟨t, last, rfl, rfl, last, tokens_of_endOfFile (next_of_endOfFile hnext hkind) hkind⟩
      · rw [tokens_of_ne_endOfFile hnext hkind] at htokens
        obtain ⟨rfl, hending⟩ := Prod.mk.inj htokens
        have hrest : l'.Yields l'.tokens.1 := ⟨last, by rw [← hending]⟩
        have hbehind := (Ended.cons hkind hrest.ended_and_length_le.1).behind_of_ne hkind
        exact ⟨t, l', rfl, rfl, by rw [hbehind.1]; exact hrest⟩

end Lexer

end LineScript
