import LineScript.Program.Equality
import LineScript.Proofs.Program.Lookahead
import LineScript.Proofs.Token.Continuation
import LineScript.Proofs.Token.Partition
/-!
# Programs that are put together from lines

A program that goes on behind the end of its last line is the program of its first lines followed by that of the lines
behind, moved down by the number of lines before them. The first lines are read as if they stood alone, because a
statement that ends with the file ends with a line just as well; and the lines behind are read as if they stood alone,
because nothing but their positions tells where they stand.
-/

namespace LineScript

open Token (Kind)
open Lexer (Continues)

/-! ### Moving down -/

/-- The position further down by a number of lines. -/
def Position.down (lines : Nat) (p : Position) : Position :=
  { p with line := p.line + lines }

theorem Position.down_next (lines : Nat) (p : Position) (c : Char) : (p.next c).down lines = (p.down lines).next c := by
  unfold next
  split
  · exact congrArg (Position.mk p.source · 1) (Nat.add_right_comm _ _ _)
  · rfl

theorem Node.mapPositions_eq_map (f : Position → Position) (ns : List Node) :
    Node.mapPositions f ns = ns.map (Node.mapPosition f) := by
  induction ns with
  | nil => rfl
  | cons n ns ih => rw [Node.mapPositions, ih, List.map_cons]

/-! ### Lexers that go on -/

namespace Lexer

variable {behind l l' m m' : Lexer} {t t' : Token}

theorem Continues.exists_next (h : Continues behind l l') :
    ∃ t m t' m', l.next = .ok (t, m) ∧ l'.next = .ok (t', m') := by
  cases h with
  | step hnext _ hnext' => exact ⟨_, _, _, _, hnext, hnext'⟩
  | last hnext _ hnext' => exact ⟨_, _, _, _, hnext, hnext'⟩

theorem Continues.cases_of_next (h : Continues behind l l') (hnext : l.next = .ok (t, m))
    (hnext' : l'.next = .ok (t', m')) :
    t.kind ≠ .endOfFile ∧ t' = t ∧ Continues behind m m' ∨
      t.kind = .endOfFile ∧ t'.kind = .endOfLine ∧ m' = behind := by
  cases h with
  | step hnext₁ hkind hnext₁' h =>
      cases hnext.symm.trans hnext₁
      cases hnext'.symm.trans hnext₁'
      exact .inl ⟨hkind, rfl, h⟩
  | last hnext₁ hkind hnext₁' hkind' =>
      cases hnext.symm.trans hnext₁
      cases hnext'.symm.trans hnext₁'
      exact .inr ⟨hkind, hkind', rfl⟩

end Lexer

/-! ### Running on -/

namespace Parser

/-- The same tokens, up to the end of the file. -/
def onward : Correspondence :=
  ⟨fun _ => True, id, True⟩

variable {α : Type} {behind l l' : Lexer} {c c' c₁ : Cursor} {v v' : View}

theorem alike_onward (hat : c.At l v) (hat' : c'.At l' v') (h : Continues behind l l') : onward.Alike v v' := by
  obtain ⟨m, hfirst, hsecond⟩ := hat.reads
  obtain ⟨m', hfirst', hsecond'⟩ := hat'.reads
  have hsame : ∀ {l l' m m' t t'}, Continues behind l l' → l.next = .ok (t, m) → l'.next = .ok (t', m') →
      onward.Same t t' := fun h hnext hnext' =>
    (h.cases_of_next hnext hnext').imp (fun heq => heq.2.1) fun hend => ⟨trivial, hend.1, hend.2.1⟩
  refine ⟨trivial, hsame h hfirst hfirst', fun hkind => ?_⟩
  obtain ⟨-, -, hrest⟩ := (h.cases_of_next hfirst hfirst').resolve_right fun hend => hkind hend.1
  exact hsame hrest hsecond hsecond'

/-- Where the first parser takes a token, so does the second, unless there is a mistake right behind the end of the
line. -/
theorem advance_onward (hat : c.At l v) (hat' : c'.At l' v') (h : Continues behind l l')
    (hkind : v.first.kind ≠ .endOfFile) {t : Token} (hrun : advance c = .ok (t, c₁)) :
    v'.first = v.first ∧ t = v.first ∧
      ((∃ c₁' m m' third third', advance c' = .ok (v'.first, c₁') ∧ c₁.At m ⟨v.second, third⟩ ∧
          c₁'.At m' ⟨v'.second, third'⟩ ∧ Continues behind m m') ∨
        ∃ e, behind.next = .error e ∧ advance c' = .error (.rejected e)) := by
  obtain ⟨m, hfirst, hsecond⟩ := hat.reads
  obtain ⟨m', hfirst', hsecond'⟩ := hat'.reads
  obtain ⟨-, heq, hrest⟩ := (h.cases_of_next hfirst hfirst').resolve_right fun hend => hkind hend.1
  cases hthird : c.lexer.next with
  | error e =>
      rw [Cursor.advance_eq_error hthird] at hrun
      cases hrun
  | ok result =>
      obtain ⟨third, last⟩ := result
      obtain ⟨c₂, hadvance, hat₁⟩ := hat.advance hfirst hthird
      cases hrun.symm.trans hadvance
      refine ⟨heq, rfl, ?_⟩
      cases hthird' : c'.lexer.next with
      | ok result =>
          obtain ⟨third', last'⟩ := result
          obtain ⟨c₁', hadvance', hat₁'⟩ := hat'.advance hfirst' hthird'
          exact .inl ⟨c₁', m, m', third, third', hadvance', hat₁, hat₁', hrest⟩
      | error e =>
          rcases hrest.cases_of_next hsecond hsecond' with ⟨-, -, hlast⟩ | ⟨-, -, rfl⟩
          · obtain ⟨-, -, t', m', -, hnext'⟩ := hlast.exists_next
            rw [hnext'] at hthird'
            cases hthird'
          · exact .inr ⟨e, hthird', Cursor.advance_eq_error hthird'⟩

/-- Where the first parser succeeds, so does the second, unless there is a mistake right behind the end of the line. -/
theorem Conforms.run_onward {r : α → α} {least bound : Nat} {p q : Parser α}
    (h : Conforms onward r v v' least bound p q) (hat : c.At l v) (hat' : c'.At l' v') (hgoes : Continues behind l l')
    {a : α} (hrun : p c = .ok (a, c₁)) :
    (∃ c₁' m m' w w', q c' = .ok (r a, c₁') ∧ c₁.At m w ∧ c₁'.At m' w' ∧ Continues behind m m') ∨
      ∃ e, behind.next = .error e ∧ q c' = .error (.rejected e) := by
  induction h generalizing c c' l l' with
  | done _ =>
      cases hrun
      exact .inl ⟨c', l, l', _, _, rfl, hat, hat', hgoes⟩
  | reject => cases hrun
  | refuse _ hp => exact absurd hrun (hp c hat.shows _)
  | exhausted => cases hrun
  | first _ ih =>
      rw [bind_of_ok hat.shows.peek_zero] at hrun
      rw [bind_of_ok hat'.shows.peek_zero]
      exact ih hat hat' hgoes hrun
  | second _ ih =>
      rw [bind_of_ok hat.shows.peek_one] at hrun
      rw [bind_of_ok hat'.shows.peek_one]
      exact ih hat hat' hgoes hrun
  | take hkind _ ih =>
      obtain ⟨t, c₂, hadvance, hrun⟩ := bind_eq_ok.1 hrun
      obtain ⟨-, rfl, ⟨c₂', m, m', third, third', hadvance', hat₂, hat₂', hrest⟩ | ⟨e, hnext, hadvance'⟩⟩ :=
        advance_onward hat hat' hgoes hkind hadvance
      · rw [bind_of_ok hadvance']
        exact ih third third' (alike_onward hat₂ hat₂' hrest) hat₂ hat₂' hrest hrun
      · exact .inr ⟨e, hnext, bind_of_error hadvance'⟩

/-- To take the end of a line leads to what is behind it, if the window can be filled there. -/
theorem advance_behind (hat : c.At l v) (hnext : l.next = .ok (v.first, behind)) :
    (∃ c₁ w, advance c = .ok (v.first, c₁) ∧ c₁.At behind w) ∨
      ∃ e, Cursor.ofLexer behind = .error (.rejected e) ∧ advance c = .error (.rejected e) := by
  obtain ⟨m, hfirst, hsecond⟩ := hat.reads
  cases hnext.symm.trans hfirst
  cases hthird : c.lexer.next with
  | error e => exact .inr ⟨e, Cursor.ofLexer_eq_error_of_second hsecond hthird, Cursor.advance_eq_error hthird⟩
  | ok result =>
      obtain ⟨third, last⟩ := result
      obtain ⟨c₁, hadvance, hat₁⟩ := hat.advance hfirst hthird
      exact .inl ⟨c₁, _, hadvance, hat₁⟩

/-- What is read behind these statements: the lines behind the end of the line, unless the window cannot be filled
there. -/
def GoesOn (behind : Lexer) (fuel extra : Nat) (body : List Node) (outcome : Except ParseStop (List Node × Cursor)) :
    Prop :=
  (∃ e, Cursor.ofLexer behind = .error (.rejected e) ∧ outcome = .error (.rejected e)) ∨
    ∃ c w n, c.At behind w ∧
      outcome = (lines (expression fuel) .endOfFile [] (extra + n) c).map fun result => (body ++ result.1, result.2)

variable {fuel extra : Nat} {body : List Node}

theorem GoesOn.cons {p : Parser (List Node)} (h : GoesOn behind fuel extra body (p c)) (node : Node) :
    GoesOn behind fuel extra (node :: body) ((do return node :: (← p) : Parser (List Node)) c) := by
  rcases h with ⟨e, hbehind, hrun⟩ | ⟨c₁, w, n, hat, hrun⟩
  · exact .inl ⟨e, hbehind, bind_of_error hrun⟩
  · refine .inr ⟨c₁, w, n, hat, ?_⟩
    cases hlines : lines (expression fuel) .endOfFile [] (extra + n) c₁ with
    | error stop =>
        rw [hlines] at hrun
        exact bind_of_error hrun
    | ok result =>
        rw [hlines] at hrun
        exact bind_of_ok hrun

/-- The end of a line in the place of the end of the file leads on. -/
theorem goesOn_of_line {n : Nat} (hat : c.At l v) (hnext : l.next = .ok (v.first, behind)) :
    GoesOn behind fuel extra [] ((do
      let _ ← advance
      lines (expression fuel) .endOfFile [] (extra + n) : Parser (List Node)) c) := by
  rcases advance_behind hat hnext with ⟨c₁, w, hadvance, hat₁⟩ | ⟨e, hbehind, hadvance⟩
  · refine .inr ⟨c₁, w, n, hat₁, ?_⟩
    rw [bind_of_ok hadvance]
    cases lines (expression fuel) .endOfFile [] (extra + n) c₁ <;> rfl
  · exact .inl ⟨e, hbehind, bind_of_error hadvance⟩

/-- At the end of the file there are no more lines. -/
theorem lines_of_end {e : Parser Node} {n : Nat} (hat : c.At l v) (hend : v.first.kind = .endOfFile)
    (hrun : lines e .endOfFile [] n c = .ok (body, c₁)) : body = [] := by
  cases n with
  | zero => cases hrun
  | succ n =>
      change (peekKind 0 >>= _) c = _ at hrun
      rw [bind_of_ok hat.shows.peekKind_zero, if_neg (by rw [hend]; decide), if_pos (.inl hend)] at hrun
      cases hrun
      rfl

/-- What a statement reads behind its sentence: the end of its line, or nothing at the end of the file. -/
def lineEnd (node : Node) : Parser Node := do
  let kind ← peekKind 0
  if kind = .endOfLine then
    let _ ← advance
    return node
  else if kind = .endOfFile then
    return node
  else
    unexpected .endOfLine

theorem statement_eq (e : Parser Node) : statement e = sentence e >>= lineEnd := rfl

/-- Behind a sentence the second parser goes on with the lines behind, or with what is behind the end of the line that
stands in the place of the end of the file. -/
theorem lineEnd_onward {n : Nat} {rest : List Node} {node node' : Node} {c₂ : Cursor} (hat : c.At l v)
    (hat' : c'.At l' v') (hgoes : Continues behind l l')
    (ih : ∀ {c c' l l' v v'}, c.At l v → c'.At l' v' → Continues behind l l' →
      lines (expression fuel) .endOfFile [] n c = .ok (rest, c₁) →
      GoesOn behind (extra + fuel) extra rest (lines (expression (extra + fuel)) .endOfFile [] (extra + n) c'))
    (hend : lineEnd node c = .ok (node', c₂)) (hrun : lines (expression fuel) .endOfFile [] n c₂ = .ok (rest, c₁)) :
    node' = node ∧ GoesOn behind (extra + fuel) extra (node :: rest)
      ((do
        let node ← lineEnd node
        return node :: (← lines (expression (extra + fuel)) .endOfFile [] (extra + n)) : Parser (List Node)) c') := by
  obtain ⟨m, hfirst, hsecond⟩ := hat.reads
  obtain ⟨m', hfirst', hsecond'⟩ := hat'.reads
  simp only [lineEnd, bind_assoc] at hend ⊢
  rw [bind_of_ok hat.shows.peekKind_zero] at hend
  rw [bind_of_ok hat'.shows.peekKind_zero]
  rcases hgoes.cases_of_next hfirst hfirst' with ⟨hkind, hsame, hrest⟩ | ⟨hfile, hline, rfl⟩
  · rw [hsame]
    split at hend
    next hline =>
      obtain ⟨t, c₃, hadvance, hpure⟩ := bind_eq_ok.1 hend
      cases hpure
      refine ⟨rfl, ?_⟩
      simp only [if_pos hline, bind_assoc, pure_bind]
      obtain ⟨-, -, ⟨c₃', m, m', third, third', hadvance', hat₃, hat₃', hrest⟩ | ⟨e, hnext, hadvance'⟩⟩ :=
        advance_onward hat hat' hgoes hkind hadvance
      · rw [bind_of_ok hadvance']
        exact (ih hat₃ hat₃' hrest hrun).cons node
      · exact .inl ⟨e, Cursor.ofLexer_eq_error hnext, bind_of_error hadvance'⟩
    next => exact absurd hend unexpected_ne_ok
  · rw [hfile, if_neg (by decide), if_pos rfl] at hend
    cases hend
    obtain rfl := lines_of_end hat hfile hrun
    refine ⟨rfl, ?_⟩
    simp only [if_pos hline, bind_assoc, pure_bind]
    have hbehind : GoesOn m' (extra + fuel) extra [] ((do
        let _ ← advance
        lines (expression (extra + fuel)) .endOfFile [] (extra + n) : Parser (List Node)) c') :=
      goesOn_of_line hat' hfirst'
    simpa only [bind_assoc] using hbehind.cons node

/-- **Lines that end with the file end with a line as well, and what is behind them is read next.** -/
theorem lines_onward {n : Nat} (hat : c.At l v) (hat' : c'.At l' v') (hgoes : Continues behind l l')
    (hrun : lines (expression fuel) .endOfFile [] n c = .ok (body, c₁)) :
    GoesOn behind (extra + fuel) extra body (lines (expression (extra + fuel)) .endOfFile [] (extra + n) c') := by
  induction n generalizing c c' l l' v v' body with
  | zero => cases hrun
  | succ n ih =>
      obtain ⟨m, hfirst, hsecond⟩ := hat.reads
      obtain ⟨m', hfirst', hsecond'⟩ := hat'.reads
      change (peekKind 0 >>= _) c = _ at hrun
      rw [bind_of_ok hat.shows.peekKind_zero] at hrun
      change GoesOn _ _ _ _ ((peekKind 0 >>= _) c')
      rw [bind_of_ok hat'.shows.peekKind_zero]
      rcases hgoes.cases_of_next hfirst hfirst' with ⟨hkind, hsame, hrest⟩ | ⟨hend, hline, rfl⟩
      · rw [hsame]
        by_cases hline : v.first.kind = .endOfLine
        · rw [if_pos hline] at hrun ⊢
          obtain ⟨t, c₂, hadvance, hrun⟩ := bind_eq_ok.1 hrun
          obtain ⟨-, -, ⟨c₂', m, m', third, third', hadvance', hat₂, hat₂', hrest⟩ | ⟨e, hnext, hadvance'⟩⟩ :=
            advance_onward hat hat' hgoes hkind hadvance
          · rw [bind_of_ok hadvance']
            exact ih hat₂ hat₂' hrest hrun
          · exact .inl ⟨e, Cursor.ofLexer_eq_error hnext, bind_of_error hadvance'⟩
        · have hopen : ¬ (v.first.kind = .endOfFile ∨ v.first.kind ∈ []) := not_or.2 ⟨hkind, List.not_mem_nil⟩
          rw [if_neg hline, if_neg hopen, if_neg hkind] at hrun ⊢
          obtain ⟨node, c₂, hstatement, hrun⟩ := bind_eq_ok.1 hrun
          obtain ⟨rest, c₃, hlines, hpure⟩ := bind_eq_ok.1 hrun
          cases hpure
          rw [statement_eq] at hstatement
          obtain ⟨node', c₄, hsentence, hend⟩ := bind_eq_ok.1 hstatement
          have hconforms : Agree onward onward.node 1 (fuel - 1) (sentence (expression fuel))
              (sentence (expression (extra + fuel))) := agree_sentence agree_expression (Nat.le_refl _)
          rw [statement_eq, bind_assoc]
          obtain ⟨c₄', m, m', w, w', hrun', hat₄, hat₄', hrest₄⟩ | ⟨e, hnext, hrun'⟩ :=
            (hconforms (alike_onward hat hat' hgoes)).run_onward hat hat' hgoes hsentence
          · have hnode : onward.node node' = node' := Node.mapPosition_id node'
            rw [bind_of_ok hrun', hnode]
            obtain ⟨rfl, hgoesOn⟩ := lineEnd_onward hat₄ hat₄' hrest₄ ih hend hlines
            exact hgoesOn
          · exact .inl ⟨e, Cursor.ofLexer_eq_error hnext, bind_of_error hrun'⟩
      · rw [if_neg (by rw [hend]; decide), if_pos (.inl hend)] at hrun
        cases hrun
        rw [if_pos hline]
        exact goesOn_of_line hat' hfirst'

/-- A new cursor goes on likewise. -/
theorem ofLexer_onward (hat : c.At l v) (h : Continues behind l l') :
    (∃ c' v', Cursor.ofLexer l' = .ok c' ∧ c'.At l' v') ∨
      ∃ e, Cursor.ofLexer behind = .error (.rejected e) ∧ Cursor.ofLexer l' = .error (.rejected e) := by
  obtain ⟨m, hfirst, hsecond⟩ := hat.reads
  obtain ⟨-, -, t', m', -, hfirst'⟩ := h.exists_next
  cases hsecond' : m'.next with
  | ok result =>
      obtain ⟨second', last'⟩ := result
      obtain ⟨c', hcursor, hat'⟩ := Cursor.ofLexer_eq_ok hfirst' hsecond'
      exact .inl ⟨c', _, hcursor, hat'⟩
  | error e =>
      rcases h.cases_of_next hfirst hfirst' with ⟨-, -, hrest⟩ | ⟨-, -, rfl⟩
      · obtain ⟨-, -, u, m, -, hnext'⟩ := hrest.exists_next
        rw [hnext'] at hsecond'
        cases hsecond'
      · exact .inr ⟨e, Cursor.ofLexer_eq_error hsecond', Cursor.ofLexer_eq_error_of_second hfirst' hsecond'⟩

/-! ### Reading the same lines elsewhere -/

/-- The window can be filled at a text if it can be elsewhere. -/
theorem ofLexer_elsewhere {f : Position → Position} (hf : ∀ p c, f (p.next c) = (f p).next c) (l : Lexer) :
    (∃ c v, Cursor.ofLexer l = .ok c ∧ c.At l v ∧ ∃ c', Cursor.ofLexer (l.mapPosition f) = .ok c') ∨
      ∃ e, Cursor.ofLexer l = .error (.rejected e) ∧
        Cursor.ofLexer (l.mapPosition f) = .error (.rejected (e.mapPosition f)) := by
  have hnext := fun l : Lexer => l.next_mapPosition hf
  cases hfirst : l.next with
  | error e =>
      have hfirst' := hnext l
      rw [hfirst] at hfirst'
      exact .inr ⟨e, Cursor.ofLexer_eq_error hfirst, Cursor.ofLexer_eq_error hfirst'⟩
  | ok result =>
      obtain ⟨t, m⟩ := result
      have hfirst' := hnext l
      rw [hfirst] at hfirst'
      cases hsecond : m.next with
      | error e =>
          have hsecond' := hnext m
          rw [hsecond] at hsecond'
          exact .inr ⟨e, Cursor.ofLexer_eq_error_of_second hfirst hsecond,
            Cursor.ofLexer_eq_error_of_second hfirst' hsecond'⟩
      | ok result =>
          obtain ⟨u, last⟩ := result
          have hsecond' := hnext m
          rw [hsecond] at hsecond'
          obtain ⟨c, hcursor, hat⟩ := Cursor.ofLexer_eq_ok hfirst hsecond
          obtain ⟨c', hcursor', -⟩ := Cursor.ofLexer_eq_ok hfirst' hsecond'
          exact .inl ⟨c, _, hcursor, hat, c', hcursor'⟩

/-- Lines are read the same wherever they stand and with however much fuel, if it is enough. -/
theorem lines_elsewhere {f : Position → Position} (hf : ∀ p c, f (p.next c) = (f p).next c) {n : Nat} (hat : c.At l v)
    (hat' : c'.At (l.mapPosition f) v') (hn : l.rest.length < n) (extra extra' : Nat) :
    (∃ body c₁ c₁', lines (expression (n + 1)) .endOfFile [] n c = .ok (body, c₁) ∧
        lines (expression (extra + (n + 1))) .endOfFile [] (extra' + n) c' = .ok (body.map (Node.mapPosition f), c₁')) ∨
      ∃ e, lines (expression (n + 1)) .endOfFile [] n c = .error (.rejected e) ∧
        lines (expression (extra + (n + 1))) .endOfFile [] (extra' + n) c' = .error (.rejected (e.mapPosition f)) := by
  let k : Correspondence := ⟨fun _ => True, f, False⟩
  obtain ⟨rfl, -⟩ := hat.mapPosition hf hat'
  have halike : k.Alike v ⟨v.first.mapPosition f, v.second.mapPosition f⟩ := ⟨trivial, .inl rfl, fun _ => .inl rfl⟩
  have hagree : Agree k k.nodes 0 n (lines (expression (n + 1)) .endOfFile [] n)
      (lines (expression (extra + (n + 1))) .endOfFile [] (extra' + n)) :=
    agree_lines agree_expression False.elim (Nat.le_refl n) (Nat.le_refl n)
  rcases (hagree halike).run id hf hat hat' (fun _ _ => trivial) hn with
    ⟨body, c₁, c₁', -, -, -, hrun, hrun', -⟩ | ⟨t, cause, -, -, hrun, hrun'⟩ | ⟨e, -, hrun, hrun'⟩
  · have hbody : k.nodes body = body.map (Node.mapPosition f) := Node.mapPositions_eq_map f body
    rw [hbody] at hrun'
    exact .inl ⟨body, c₁, c₁', hrun, hrun'⟩
  · exact .inr ⟨_, hrun, hrun'⟩
  · exact .inr ⟨e, hrun, hrun'⟩

end Parser

namespace Program

open LineScript.Parser

variable {source : String}

/-- A source that is a program has no mistakes of the lexer. -/
theorem exists_tokens_of_parse {text : String} {program : Program} (h : parse source text = .ok program) :
    ∃ ts l, (Lexer.ofSource source text).tokens = (ts, .ok l) := by
  generalize htokens : (Lexer.ofSource source text).tokens = result
  obtain ⟨ts, e | l⟩ := result
  · obtain ⟨e', hrejected, -⟩ := parse_of_mistake htokens
    rw [hrejected] at h
    cases h
  · exact ⟨ts, l, rfl⟩

/-- Behind some lines a source is read as if it stood alone, further down. -/
theorem behind_eq (source before after : String) :
    (⟨after.toList, ((Position.start source).advance before.toList).next '\n'⟩ : Lexer) =
      (Lexer.ofSource source after).mapPosition (.down (1 + before.toList.count '\n')) := by
  have hposition : ((Position.start source).advance before.toList).next '\n' =
      (Position.start source).down (1 + before.toList.count '\n') := by
    rw [← Position.past_eq_advance]
    exact congrArg (Position.mk source · 1) (by simp only [Position.past, Position.start]; omega)
  rw [hposition]
  rfl

/-- A source is read the same where it stands alone and elsewhere, with more fuel. -/
theorem parse_elsewhere {text : String} {f : Position → Position} (hf : ∀ p c, f (p.next c) = (f p).next c)
    {c c' : Cursor} {v v' : View} (hcursor : Cursor.ofLexer (.ofSource source text) = .ok c)
    (hat : c.At (.ofSource source text) v) (hat' : c'.At ((Lexer.ofSource source text).mapPosition f) v')
    (extra extra' : Nat) :
    (∃ body c₁, parse source text = .ok ⟨source, body⟩ ∧
        lines (expression (extra + (text.length + 2))) .endOfFile [] (extra' + (text.length + 1)) c' =
          .ok (body.map (Node.mapPosition f), c₁)) ∨
      ∃ e, parse source text = .error (.rejected e) ∧
        lines (expression (extra + (text.length + 2))) .endOfFile [] (extra' + (text.length + 1)) c' =
          .error (.rejected (e.mapPosition f)) := by
  have hlength := ofSource_rest_lt source text
  -- Both runs have at least the fuel of a third, which is enough.
  have halone := lines_elsewhere (f := id) (fun _ _ => rfl) hat hat hlength 0 1
  rw [Nat.zero_add, Nat.add_comm 1] at halone
  rw [parse, parseWith_of_cursor hcursor]
  obtain ⟨body, c₁, c₁', hrun, hrun'⟩ | ⟨e, hrun, hrun'⟩ := lines_elsewhere hf hat hat' hlength extra extra'
  · obtain ⟨body, c₁, c₂, hrun₂, halone⟩ | ⟨e, hrun₂, -⟩ := halone
    · cases hrun.symm.trans hrun₂
      have hbody : body.map (Node.mapPosition id) = body := by
        rw [← Node.mapPositions_eq_map, Node.mapPositions_id]
      rw [hbody] at halone
      exact .inl ⟨body, c₁', by rw [halone]; rfl, hrun'⟩
    · cases hrun.symm.trans hrun₂
  · obtain ⟨body, c₁, c₂, hrun₂, -⟩ | ⟨e, hrun₂, halone⟩ := halone
    · cases hrun.symm.trans hrun₂
    · cases hrun.symm.trans hrun₂
      exact .inr ⟨e, by rw [halone]; rfl, hrun'⟩

theorem ofSource_append_line (source before after : String) :
    Lexer.ofSource source (before ++ "\n" ++ after) = ⟨before.toList ++ '\n' :: after.toList, .start source⟩ := by
  simp [Lexer.ofSource]

/-- A program that goes on behind a line feed is read up to there, and then what is behind. -/
theorem parse_onward {before : String} (after : String) {first : Program} (h : parse source before = .ok first)
    {behind : Lexer}
    (hbehind : behind = (Lexer.ofSource source after).mapPosition (.down (1 + before.toList.count '\n'))) :
    (∃ e, Cursor.ofLexer behind = .error (.rejected e) ∧
        parse source (before ++ "\n" ++ after) = .error (.rejected e)) ∨
      ∃ c w n, c.At behind w ∧ parse source (before ++ "\n" ++ after) =
        (lines (expression (after.length + 1 + (before.length + 2))) .endOfFile [] (after.length + 1 + n) c).map
          fun result => ⟨source, first.body ++ result.1⟩ := by
  obtain ⟨ts, l, htokens⟩ := exists_tokens_of_parse h
  have hgoes := Lexer.continues_of_tokens htokens after.toList
  rw [behind_eq, ← ofSource_append_line, ← hbehind] at hgoes
  have hfuel : (before ++ "\n" ++ after).length + 2 = after.length + 1 + (before.length + 2) := by
    simp only [String.length_append]
    change before.length + 1 + after.length + 2 = _
    omega
  obtain ⟨c, v, hcursor, hat, -⟩ | ⟨e, hcursor, -⟩ :=
    ofLexer_elsewhere (f := id) (fun _ _ => rfl) (.ofSource source before)
  · rw [parse, parseWith_of_cursor hcursor] at h
    cases hlines : lines (expression (before.length + 2)) .endOfFile [] (before.length + 2) c with
    | error stop =>
        rw [hlines] at h
        cases h
    | ok result =>
        obtain ⟨body, c₁⟩ := result
        rw [hlines] at h
        cases h
        obtain ⟨c', v', hcursor', hat'⟩ | ⟨e, hbehind, hcursor'⟩ := ofLexer_onward hat hgoes
        · rw [parse, hfuel, parseWith_of_cursor hcursor']
          have hrun : GoesOn behind (after.length + 1 + (before.length + 2)) (after.length + 1) body _ :=
            lines_onward hat hat' hgoes hlines
          obtain ⟨e, hbehind, hrun⟩ | ⟨c₂, w, n, hat₂, hrun⟩ := hrun
          · exact .inl ⟨e, hbehind, by rw [hrun]; rfl⟩
          · refine .inr ⟨c₂, w, n, hat₂, ?_⟩
            rw [hrun]
            cases lines (expression (after.length + 1 + (before.length + 2))) .endOfFile []
              (after.length + 1 + n) c₂ <;> rfl
        · exact .inl ⟨e, hbehind, parseWith_of_ofLexer hcursor'⟩
  · rw [parse, parseWith_of_ofLexer hcursor] at h
    cases h

/-- **Programs are put together from lines.** Where the source before a line feed is a program, the whole source is one
if and only if the source behind it is. Its statements are those of the two, and its mistake is that of the source
behind, each with the positions of the second moved down by the lines before it. -/
theorem parse_append_line (source before after : String) {first : Program} (h : parse source before = .ok first) :
    (∃ second, parse source after = .ok second ∧ parse source (before ++ "\n" ++ after) =
        .ok ⟨source, first.body ++ second.body.map (Node.mapPosition (.down (1 + before.toList.count '\n')))⟩) ∨
      ∃ e, parse source after = .error (.rejected e) ∧ parse source (before ++ "\n" ++ after) =
        .error (.rejected (e.mapPosition (.down (1 + before.toList.count '\n')))) := by
  have hdown : ∀ p c, Position.down (1 + before.toList.count '\n') (p.next c) =
      (Position.down (1 + before.toList.count '\n') p).next c := Position.down_next _
  have hwhole := parse_onward after h rfl
  obtain ⟨c, v, hcursor, hat, c', hcursor'⟩ | ⟨e, hcursor, hcursor'⟩ := ofLexer_elsewhere hdown (.ofSource source after)
  · obtain ⟨e, hbehind, -⟩ | ⟨c₂, w, n, hat₂, hwhole⟩ := hwhole
    · rw [hcursor'] at hbehind
      cases hbehind
    have hfuel : after.length + 1 + (before.length + 2) = before.length + 1 + (after.length + 2) := by omega
    rw [hfuel, Nat.add_comm _ n] at hwhole
    obtain ⟨body, c₁, halone, hrun⟩ | ⟨e, halone, hrun⟩ := parse_elsewhere hdown hcursor hat hat₂ (before.length + 1) n
    · exact .inl ⟨_, halone, by rw [hwhole, hrun]; rfl⟩
    · exact .inr ⟨e, halone, by rw [hwhole, hrun]; rfl⟩
  · refine .inr ⟨e, parseWith_of_ofLexer hcursor, ?_⟩
    obtain ⟨e', hbehind, hwhole⟩ | ⟨c₂, w, n, hat₂, -⟩ := hwhole
    · rw [hcursor'] at hbehind
      cases hbehind
      exact hwhole
    · obtain ⟨m, hfirst, hsecond⟩ := hat₂.reads
      obtain ⟨c', hcursor₂, -⟩ := Cursor.ofLexer_eq_ok hfirst hsecond
      rw [hcursor'] at hcursor₂
      cases hcursor₂

set_option maxRecDepth 20000 in
/-- A statement that ended with the file ends with a line, and a mistake of the lexer in the second line is met while
the first is read. -/
theorem parse_below_assignment :
    parse "s" ("x = none" ++ "\n" ++ "f(y)") = .ok ⟨"s",
        [.assign ⟨"s", 1, 1⟩ "x" (.literal ⟨"s", 1, 5⟩ .none),
          .call ⟨"s", 2, 2⟩ (.var ⟨"s", 2, 1⟩ "f") [.var ⟨"s", 2, 3⟩ "y"]]⟩ ∧
      parse "s" ("x = none" ++ "\n" ++ "'y") = .error (.rejected ⟨.unterminatedString, ⟨"s", 2, 3⟩⟩) := by
  have hfirst : parse "s" "x = none" = .ok ⟨"s", [.assign ⟨"s", 1, 1⟩ "x" (.literal ⟨"s", 1, 5⟩ .none)]⟩ := by
    decide +kernel
  have hcall : parse "s" "f(y)" = .ok ⟨"s", [.call ⟨"s", 1, 2⟩ (.var ⟨"s", 1, 1⟩ "f") [.var ⟨"s", 1, 3⟩ "y"]]⟩ := by
    decide +kernel
  have hmistake : parse "s" "'y" = .error (.rejected ⟨.unterminatedString, ⟨"s", 1, 3⟩⟩) := by
    decide +kernel
  constructor
  · obtain ⟨second, hsecond, hwhole⟩ | ⟨e, he, -⟩ := parse_append_line "s" "x = none" "f(y)" hfirst
    · cases hcall.symm.trans hsecond
      exact hwhole
    · cases hcall.symm.trans he
  · obtain ⟨second, hsecond, -⟩ | ⟨e, he, hwhole⟩ := parse_append_line "s" "x = none" "'y" hfirst
    · cases hmistake.symm.trans hsecond
    · cases hmistake.symm.trans he
      exact hwhole

end Program

end LineScript
