import LineScript.Proofs.Token.Continuation
import LineScript.Proofs.Token.Scanning
/-!
# Blanks behind the end of a line

Where a line ends, blanks and further line feeds make no difference to the tokens but for their positions and for ends
of lines behind others. So a text has a mistake if and only if it has one with blanks behind a line feed, and without
mistakes its tokens are the same up to that.
-/

namespace LineScript

open Token (Kind)

/-! ### Tokens in another layout -/

/-- The same token, which may stand elsewhere. -/
structure Token.Alike (t t' : Token) : Prop where
  kind_eq : t'.kind = t.kind
  text_eq : t'.text = t.text

theorem Token.Alike.refl (t : Token) : t.Alike t :=
  ⟨rfl, rfl⟩

/-- The same tokens in another layout: there may be other ends of lines behind the end of a line, and at the start of
the tokens if they are `fresh`. -/
inductive Relaid : (fresh : Bool) → List Token → List Token → Prop
  | nil {fresh : Bool} : Relaid fresh [] []
  | token {fresh : Bool} {t t' : Token} {ts ts' : List Token} (ht : t.Alike t')
      (h : Relaid (t.kind == .endOfLine) ts ts') : Relaid fresh (t :: ts) (t' :: ts')
  | added {t' : Token} {ts ts' : List Token} (ht' : t'.kind = .endOfLine) (h : Relaid true ts ts') :
      Relaid true ts (t' :: ts')
  | dropped {t : Token} {ts ts' : List Token} (ht : t.kind = .endOfLine) (h : Relaid true ts ts') :
      Relaid true (t :: ts) ts'

namespace Relaid

variable {fresh : Bool} {t t' : Token} {ts ts' : List Token}

theorem symm (h : Relaid fresh ts ts') : Relaid fresh ts' ts := by
  induction h with
  | nil => exact .nil
  | token ht _ ih => exact .token ⟨ht.kind_eq.symm, ht.text_eq.symm⟩ (by rwa [ht.kind_eq])
  | added ht' _ ih => exact .dropped ht' ih
  | dropped ht _ ih => exact .added ht ih

theorem of_alike (h : List.Forall₂ Token.Alike ts ts') : Relaid fresh ts ts' := by
  induction h generalizing fresh with
  | nil => exact .nil
  | cons ht _ ih => exact .token ht ih

/-- What starts where no line ends starts the same in both. -/
theorem to_true (h : Relaid false ts ts') : Relaid true ts ts' := by
  cases h with
  | nil => exact .nil
  | token ht h => exact .token ht h

theorem eq_nil (h : Relaid false [] ts') : ts' = [] := by
  cases h
  rfl

theorem uncons (h : Relaid false (t :: ts) ts') (ht : t.kind ≠ .endOfLine) :
    ∃ t' us, ts' = t' :: us ∧ t.Alike t' ∧ Relaid false ts us := by
  cases h with
  | token hsame h =>
      rw [beq_false_of_ne ht] at h
      exact ⟨_, _, rfl, hsame, h⟩

theorem uncons_line (h : Relaid false (t :: ts) ts') (ht : t.kind = .endOfLine) :
    ∃ t' us, ts' = t' :: us ∧ t'.kind = .endOfLine ∧ Relaid true ts us := by
  cases h with
  | token hsame h =>
      rw [beq_iff_eq.2 ht] at h
      exact ⟨_, _, rfl, hsame.kind_eq.trans ht, h⟩

/-- Behind the end of a line another one may be left out. -/
theorem tail_of_line (h : Relaid fresh (t :: ts) ts') (ht : t.kind = .endOfLine) : Relaid true ts ts' := by
  generalize hleft : t :: ts = left at h
  induction h with
  | nil => cases hleft
  | token hsame h =>
      cases hleft
      rw [beq_iff_eq.2 ht] at h
      exact .added (hsame.kind_eq.trans ht) h
  | added ht' _ ih => exact .added ht' (ih hleft)
  | dropped _ h =>
      cases hleft
      exact h

/-- Before tokens that do not start with the end of a line there are only some in the other layout. -/
theorem exists_lines (h : Relaid true ts ts') (hts : ∀ t ∈ ts.head?, t.kind ≠ .endOfLine) :
    ∃ ends us, ts' = ends ++ us ∧ (∀ t ∈ ends, t.kind = .endOfLine) ∧ Relaid false ts us := by
  generalize hfresh : true = fresh at h
  induction h with
  | nil => exact ⟨[], [], rfl, nofun, .nil⟩
  | token hsame h => exact ⟨[], _, rfl, nofun, .token hsame h⟩
  | @added t' _ _ ht' _ ih =>
      obtain ⟨ends, us, rfl, hends, hus⟩ := ih hts rfl
      exact ⟨t' :: ends, us, rfl, List.forall_mem_cons.2 ⟨ht', hends⟩, hus⟩
  | dropped ht => exact absurd ht (hts _ rfl)

end Relaid

/-! ### Mistakes before a line feed -/

namespace Scan

variable {c : Char} {text before : List Char} {cause : SyntaxCause}

/-- A mistake in a string does not depend on what is behind the line. -/
theorem string_of_mistake {quote : Char} (hquote : quote = '"' ∨ quote = '\'') {denoted written : List Char}
    (h : string quote denoted written text = mistake cause before) (more : List Char) :
    string quote denoted written (text ++ '\n' :: more) = mistake cause before := by
  have hslash : ¬ '\\' = quote := by rcases hquote with rfl | rfl <;> decide
  fun_induction string quote denoted written text with
  | case3 => cases h
  | case6 _ _ c rest hc denoted hdenoted _ _ ih =>
      rw [List.cons_append, List.cons_append, string.eq_def]
      simpa [hslash, hc, hdenoted] using ih h
  | case7 _ _ c rest hc hdenoted =>
      rw [List.cons_append, List.cons_append, string.eq_def]
      simpa [hslash, hc, hdenoted] using h
  | case8 _ _ c rest hline hclose hescape ih =>
      rw [List.cons_append, string.eq_def]
      simpa [hline, hclose, hescape] using ih h
  | _ =>
      rw [string.eq_def]
      simpa [hslash] using h

theorem singleSymbol_of_mistake {rest : List Char} (h : singleSymbol c rest = mistake cause before)
    (rest' : List Char) : singleSymbol c rest' = mistake cause before := by
  unfold singleSymbol at h ⊢
  split at h
  · cases h
  · exact h

theorem symbol_of_mistake (h : symbol c text = mistake cause before) (more : List Char) :
    symbol c (text ++ '\n' :: more) = mistake cause before := by
  cases text with
  | nil =>
      rw [List.nil_append, symbol, Token.doubleSymbol?_of_second c (by decide)]
      exact singleSymbol_of_mistake h _
  | cons second text =>
      simp only [symbol, List.cons_append] at h ⊢
      split at h
      · cases h
      · exact singleSymbol_of_mistake h _

theorem number_ne_mistake : number text ≠ mistake cause before := by
  unfold number
  split <;> exact nofun

/-- A mistake at the start of a text does not depend on what is behind the line. -/
theorem ofChars_of_mistake (h : ofChars (c :: text) = mistake cause before) (more : List Char) :
    ofChars (c :: (text ++ '\n' :: more)) = mistake cause before := by
  simp only [ofChars] at h ⊢
  by_cases hline : c = '\n'
  · rw [if_pos hline] at h
    cases h
  by_cases hdigit : isDigit c = true
  · rw [if_neg hline, if_pos hdigit] at h
    exact absurd h number_ne_mistake
  by_cases hword : startsWord c = true
  · rw [if_neg hline, if_neg hdigit, if_pos hword] at h
    cases h
  rw [if_neg hline, if_neg hdigit, if_neg hword] at h ⊢
  split at h
  next hquote =>
    rw [if_pos hquote]
    exact string_of_mistake hquote h more
  next hquote =>
    rw [if_neg hquote]
    exact symbol_of_mistake h more

end Scan

/-! ### Lexers in another layout -/

namespace Lexer

variable {fresh : Bool} {l l' m m' : Lexer} {t t' : Token} {text : List Char} {p : Position}

/-- A mistake of a text is one if the text goes on behind a line feed. -/
theorem next_of_mistake {e : SyntaxError} (h : next ⟨text, p⟩ = .error e) (more : List Char) :
    next ⟨text ++ '\n' :: more, p⟩ = .error e := by
  obtain ⟨htake, hdrop⟩ := Scan.run_of_line (p := Scan.isIndent) (by decide) text more
  simp only [next, htake, hdrop] at h ⊢
  cases htail : text.dropWhile Scan.isIndent with
  | nil =>
      rw [htail] at h
      cases h
  | cons c tail =>
      rw [htail] at h
      split at h
      next => cases h
      next hscan =>
        rw [List.cons_append, Scan.ofChars_of_mistake hscan more]
        exact h

/-- Both lexers come upon a mistake, or they yield the same tokens in two layouts. -/
def Relays (fresh : Bool) (l l' : Lexer) : Prop :=
  (∃ e e', l.tokens.2 = .error e ∧ l'.tokens.2 = .error e') ∨
    ∃ ts ts', l.Yields ts ∧ l'.Yields ts' ∧ Relaid fresh ts ts'

theorem Relays.symm (h : Relays fresh l l') : Relays fresh l' l := by
  rcases h with ⟨e, e', he, he'⟩ | ⟨ts, ts', hts, hts', h⟩
  · exact .inl ⟨e', e, he', he⟩
  · exact .inr ⟨ts', ts, hts', hts, h.symm⟩

theorem Relays.of_error {e e' : SyntaxError} (hnext : l.next = .error e) (hnext' : l'.next = .error e') :
    Relays fresh l l' :=
  .inl ⟨e, e', by rw [tokens_of_error hnext], by rw [tokens_of_error hnext']⟩

theorem Relays.last (hnext : l.next = .ok (t, m)) (hnext' : l'.next = .ok (t', m')) (halike : t.Alike t')
    (ht : t.kind = .endOfFile) : Relays fresh l l' :=
  .inr ⟨[t], [t'], ⟨m, tokens_of_endOfFile hnext ht⟩, ⟨m', tokens_of_endOfFile hnext' (halike.kind_eq.trans ht)⟩,
    .token halike .nil⟩

/-- The tokens before an ending are one more than those behind the first. -/
theorem yields_cons {ts : List Token} (hnext : l.next = .ok (t, m)) (ht : t.kind ≠ .endOfFile) (h : m.Yields ts) :
    l.Yields (t :: ts) :=
  (Scans.one hnext ht).yields h

theorem error_of_next {e : SyntaxError} (hnext : l.next = .ok (t, m)) (ht : t.kind ≠ .endOfFile)
    (h : m.tokens.2 = .error e) : l.tokens.2 = .error e := by
  rw [tokens_of_ne_endOfFile hnext ht, h]

theorem Relays.token (hnext : l.next = .ok (t, m)) (hnext' : l'.next = .ok (t', m')) (halike : t.Alike t')
    (ht : t.kind ≠ .endOfFile) (h : Relays (t.kind == .endOfLine) m m') : Relays fresh l l' := by
  have ht' : t'.kind ≠ .endOfFile := halike.kind_eq ▸ ht
  rcases h with ⟨e, e', he, he'⟩ | ⟨ts, ts', hts, hts', h⟩
  · exact .inl ⟨e, e', error_of_next hnext ht he, error_of_next hnext' ht' he'⟩
  · exact .inr ⟨_, _, yields_cons hnext ht hts, yields_cons hnext' ht' hts', .token halike h⟩

theorem Relays.added (hnext' : l'.next = .ok (t', m')) (ht' : t'.kind = .endOfLine) (h : Relays true l m') :
    Relays true l l' := by
  have hkind : t'.kind ≠ .endOfFile := by rw [ht']; decide
  rcases h with ⟨e, e', he, he'⟩ | ⟨ts, ts', hts, hts', h⟩
  · exact .inl ⟨e, e', he, error_of_next hnext' hkind he'⟩
  · exact .inr ⟨_, _, hts, yields_cons hnext' hkind hts', .added ht' h⟩

theorem tokens_congr (h : l.next = l'.next) : l.tokens = l'.tokens := by
  cases hnext : l'.next with
  | error e => rw [tokens_of_error (h.trans hnext), tokens_of_error hnext]
  | ok result =>
      by_cases ht : result.1.kind = .endOfFile
      · rw [tokens_of_endOfFile (h.trans hnext) ht, tokens_of_endOfFile hnext ht]
      · rw [tokens_of_ne_endOfFile (h.trans hnext) ht, tokens_of_ne_endOfFile hnext ht]

theorem Relays.of_next_eq (hnext : l'.next = m'.next) (h : Relays fresh l m') : Relays fresh l l' := by
  unfold Relays Yields at h ⊢
  rwa [tokens_congr hnext]

/-- A text yields the same tokens wherever it stands. -/
theorem relays_elsewhere (fresh : Bool) (text : List Char) (p p' : Position) : Relays fresh ⟨text, p⟩ ⟨text, p'⟩ := by
  have hsame : (∃ e e', next ⟨text, p⟩ = .error e ∧ next ⟨text, p'⟩ = .error e') ∨
      ∃ t t' rest q q', next ⟨text, p⟩ = .ok (t, ⟨rest, q⟩) ∧ next ⟨text, p'⟩ = .ok (t', ⟨rest, q'⟩) ∧ t.Alike t' := by
    unfold next
    cases Scan.ofChars (text.dropWhile Scan.isIndent) with
    | lexeme kind spelled raw rest => exact .inr ⟨_, _, _, _, _, rfl, rfl, rfl, rfl⟩
    | mistake cause before => exact .inl ⟨_, _, rfl, rfl⟩
  rcases hsame with ⟨e, e', hnext, hnext'⟩ | ⟨t, t', rest, q, q', hnext, hnext', halike⟩
  · exact .of_error hnext hnext'
  · by_cases ht : t.kind = .endOfFile
    · exact .last hnext hnext' halike ht
    · exact .token hnext hnext' halike ht (relays_elsewhere _ rest q q')
termination_by text.length
decreasing_by exact next_rest_lt hnext ht

theorem isIndent_of_isBlank {c : Char} (hc : Text.isBlank c = true) (hline : c ≠ '\n') : Scan.isIndent c = true := by
  rw [Scan.isIndent, hc, bne_iff_ne.2 hline]
  rfl

/-- Blanks before a text that is read where a line has ended. -/
theorem relays_behind_blanks {blanks : List Char} (hblanks : ∀ c ∈ blanks, Text.isBlank c = true) (text : List Char)
    (p p' : Position) : Relays true ⟨text, p⟩ ⟨blanks ++ text, p'⟩ := by
  induction blanks generalizing p' with
  | nil => exact relays_elsewhere true text p p'
  | cons c blanks ih =>
      obtain ⟨hc, hmore⟩ := List.forall_mem_cons.1 hblanks
      rw [List.cons_append]
      by_cases hline : c = '\n'
      · subst hline
        have hindent : Scan.isIndent '\n' = false := by decide
        have hnext : next ⟨'\n' :: (blanks ++ text), p'⟩ =
            .ok (⟨.endOfLine, "\n", p'⟩, ⟨blanks ++ text, p'.next '\n'⟩) :=
          next_of_scan hindent rfl p'
        exact .added hnext rfl (ih hmore _)
      · exact .of_next_eq (next_blank (isIndent_of_isBlank hc hline) _ _) (ih hmore _)

/-- **Blanks behind a line feed.** They make no difference but to the positions and to the ends of lines behind others.
-/
theorem relays_behind_line (fresh : Bool) {blanks : List Char} (hblanks : ∀ c ∈ blanks, Text.isBlank c = true)
    (before after : List Char) (p : Position) :
    Relays fresh ⟨before ++ '\n' :: after, p⟩ ⟨before ++ '\n' :: (blanks ++ after), p⟩ := by
  cases hnext : next ⟨before, p⟩ with
  | error e => exact .of_error (next_of_mistake hnext _) (next_of_mistake hnext _)
  | ok result =>
      obtain ⟨t, rest, q⟩ := result
      have hnext₁ := next_line hnext after
      have hnext₂ := next_line hnext (blanks ++ after)
      by_cases ht : t.kind = .endOfFile
      · rw [if_pos ht] at hnext₁ hnext₂
        refine .token hnext₁ hnext₂ (.refl _) nofun ?_
        exact relays_behind_blanks hblanks after _ _
      · rw [if_neg ht] at hnext₁ hnext₂
        exact .token hnext₁ hnext₂ (.refl t) ht (relays_behind_line _ hblanks rest after q)
termination_by before.length
decreasing_by exact next_rest_lt hnext ht

end Lexer

end LineScript
