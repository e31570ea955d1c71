import LineScript.Proofs.Program.Conformity
import LineScript.Proofs.Token.Scanning
/-!
# What the grammar sees of a source

The grammar sees two tokens of its source at a time, and it touches the source in no other way than to look at them and
to take the first. So the tokens that it takes are the tokens of the source, in order, and the window always holds the
next two. A mistake in the source comes to light when it would enter the window, which is before the grammar can reject
the two tokens in front of it.
-/

namespace LineScript

open Token (Kind)

/-! ### Sources with their positions moved -/

def SyntaxError.mapPosition (f : Position → Position) (e : SyntaxError) : SyntaxError :=
  { e with position := f e.position }

section

variable {f : Position → Position} (hf : ∀ p c, f (p.next c) = (f p).next c)
include hf

theorem Position.map_advance (p : Position) (text : List Char) : f (p.advance text) = (f p).advance text := by
  induction text generalizing p with
  | nil => rfl
  | cons c text ih =>
      change f ((p.next c).advance text) = ((f p).next c).advance text
      rw [ih, hf]

/-- The same text, at another place. -/
def Lexer.mapPosition (f : Position → Position) (l : Lexer) : Lexer :=
  { l with position := f l.position }

/-- A text is cut into the same tokens wherever it stands. -/
theorem Lexer.next_mapPosition (l : Lexer) :
    (l.mapPosition f).next =
      match l.next with
      | .ok (t, l') => .ok (t.mapPosition f, l'.mapPosition f)
      | .error e => .error (e.mapPosition f) := by
  simp only [next, mapPosition, ← Position.map_advance hf]
  cases Scan.ofChars (l.rest.dropWhile Scan.isIndent) <;> rfl

end

/-! ### The tokens in view -/

namespace Lexer

/-- The lexer yields the token, and another one behind it. -/
def Hands (l : Lexer) (t : Token) : Prop :=
  ∃ ts l₁ l₂ u l₃, l.Scans ts l₁ ∧ l₁.next = .ok (t, l₂) ∧ l₂.next = .ok (u, l₃)

theorem Scans.tokens_eq {l l' : Lexer} {ts : List Token} (h : l.Scans ts l') :
    l.tokens = (ts ++ l'.tokens.1, l'.tokens.2) := by
  induction h with
  | done => rfl
  | step hnext ht _ ih => rw [tokens_of_ne_endOfFile hnext ht, ih, List.cons_append]

end Lexer

namespace Cursor

/-- The cursor stands where this lexer does: it has read the next two tokens and shows them. -/
structure At (c : Cursor) (l : Lexer) (v : View) : Prop where
  reads : ∃ l', l.next = .ok (v.first, l') ∧ l'.next = .ok (v.second, c.lexer)
  shows : c.Shows v

variable {c c' : Cursor} {l l' : Lexer} {v v' : View} {t : Token} {e : SyntaxError}

/-- A new cursor stands at its source, unless there is a mistake in the first two tokens. -/
theorem ofLexer_eq_ok {last : Lexer} {second : Token} (hfirst : l.next = .ok (t, l'))
    (hsecond : l'.next = .ok (second, last)) : ∃ c, ofLexer l = .ok c ∧ c.At l ⟨t, second⟩ := by
  obtain ⟨c, hcursor, rfl, hshows⟩ := exists_ofLexer hfirst hsecond
  exact ⟨c, hcursor, ⟨l', hfirst, hsecond⟩, hshows⟩

theorem ofLexer_eq_error (hnext : l.next = .error e) : ofLexer l = .error (.rejected e) := by
  have hrefill := refill_eq_error (c := ⟨l, .empty⟩) hnext
  simp only [ofLexer, hrefill, bind, Except.bind]

theorem ofLexer_eq_error_of_second (hfirst : l.next = .ok (t, l')) (hsecond : l'.next = .error e) :
    ofLexer l = .error (.rejected e) := by
  have hrefill := refill_eq (c := ⟨l, .empty⟩) hfirst
  have hrefill₁ := refill_eq_error (c := ⟨l', (RingBuffer.empty.push t).2⟩) hsecond
  simp only [ofLexer, hrefill, hrefill₁, bind, Except.bind]

/-- To take a token moves the cursor on by one token of its source. -/
theorem At.advance (hat : c.At l v) (hfirst : l.next = .ok (v.first, l')) {third : Token} {last : Lexer}
    (hthird : c.lexer.next = .ok (third, last)) :
    ∃ c', Parser.advance c = .ok (v.first, c') ∧ c'.At l' ⟨v.second, third⟩ := by
  obtain ⟨l₁, hfirst₁, hsecond⟩ := hat.reads
  obtain ⟨-, rfl⟩ := Prod.mk.inj (Except.ok.inj (hfirst.symm.trans hfirst₁))
  obtain ⟨c', hadvance, rfl, hshows⟩ := hat.shows.advance_eq_ok hthird
  exact ⟨c', hadvance, ⟨c.lexer, hsecond, hthird⟩, hshows⟩

/-- A cursor at the same text elsewhere shows the same tokens, moved. -/
theorem At.mapPosition {f : Position → Position} (hf : ∀ p c, f (p.next c) = (f p).next c) (hat : c.At l v)
    (hat' : c'.At (l.mapPosition f) v') :
    v' = ⟨v.first.mapPosition f, v.second.mapPosition f⟩ ∧ c'.lexer = c.lexer.mapPosition f := by
  obtain ⟨l₁, hfirst, hsecond⟩ := hat.reads
  obtain ⟨l₁', hfirst', hsecond'⟩ := hat'.reads
  rw [Lexer.next_mapPosition hf, hfirst] at hfirst'
  obtain ⟨hv₁, rfl⟩ := Prod.mk.inj (Except.ok.inj hfirst')
  rw [Lexer.next_mapPosition hf, hsecond] at hsecond'
  obtain ⟨hv₂, hlexer⟩ := Prod.mk.inj (Except.ok.inj hsecond')
  exact ⟨by rw [hv₁, hv₂], hlexer.symm⟩

/-- The first token in view is the first that the cursor sees. -/
theorem Sees.eq_cons {ts : List Token} (hsees : c.Sees ts) (hshows : c.Shows v) : ∃ rest, ts = v.first :: rest := by
  obtain ⟨t, rest, rfl⟩ := hsees.ended.exists_cons
  obtain ⟨first, second, hfirst, -, hholds⟩ := hsees.window
  obtain rfl := Option.some.inj hfirst
  have hget := (hholds.get?_eq 0).symm.trans (RingBuffer.Holds.get?_eq hshows 0)
  obtain rfl : t = v.first := Option.some.inj hget
  exact ⟨rest, rfl⟩

end Cursor

/-! ### Runs -/

namespace Parser

variable {α : Type} {c c' : Cursor} {l : Lexer} {k : Correspondence} {r : α → α} {v v' : View} {least bound : Nat}
  {p q : Parser α}

/-- What conforming parsers do on the same text at two places, if the fuel lasts. Both succeed, or both reject a token
that was handed to them, or both meet the first mistake of the source. -/
theorem Conforms.run (hk : ¬ k.goesOn) (hmove : ∀ p c, k.move (p.next c) = (k.move p).next c)
    (h : Conforms k r v v' least bound p q) (hat : c.At l v) (hat' : c'.At (l.mapPosition k.move) v')
    (hhands : ∀ t, l.Hands t → k.handed t) (hbound : l.rest.length < bound) :
    (∃ a c₁ c₁' ts l₁ w, p c = .ok (a, c₁) ∧ q c' = .ok (r a, c₁') ∧ l.Scans ts l₁ ∧ c₁.At l₁ w) ∨
      (∃ t cause, k.handed t ∧ cause.Concerns t ∧ p c = .error (.rejected ⟨cause, t.position⟩) ∧
        q c' = .error (.rejected ⟨cause, k.move t.position⟩)) ∨
      ∃ e, l.tokens.2 = .error e ∧ p c = .error (.rejected e) ∧ q c' = .error (.rejected (e.mapPosition k.move)) := by
  induction h generalizing c c' l with
  | @done _ _ _ a _ => exact .inl ⟨a, c, c', [], l, _, rfl, rfl, .done, hat⟩
  | @reject _ _ _ _ t cause ht hcause => exact .inr (.inl ⟨t, cause, ht, hcause, rfl, rfl⟩)
  | refuse hgoes => exact absurd hgoes hk
  | exhausted => exact absurd hbound (Nat.not_lt_zero _)
  | first _ ih =>
      rw [bind_of_ok hat.shows.peek_zero, bind_of_ok hat'.shows.peek_zero]
      exact ih hat hat' hhands hbound
  | second _ ih =>
      rw [bind_of_ok hat.shows.peek_one, bind_of_ok hat'.shows.peek_one]
      exact ih hat hat' hhands hbound
  | @take v v' _ _ f g hkind _ ih =>
      obtain ⟨rfl, hlexer⟩ := hat.mapPosition hmove hat'
      obtain ⟨l₁, hfirst, hsecond⟩ := hat.reads
      have htokens := Lexer.tokens_of_ne_endOfFile hfirst hkind
      cases hthird : c.lexer.next with
      | error e =>
          have hthird' : c'.lexer.next = .error (e.mapPosition k.move) := by
            rw [hlexer, Lexer.next_mapPosition hmove, hthird]
          have hkind₁ : v.second.kind ≠ .endOfFile := by
            intro hend
            rw [Lexer.next_of_endOfFile hsecond hend] at hthird
            cases hthird
          refine .inr (.inr ⟨e, ?_, bind_of_error (Cursor.advance_eq_error hthird),
            bind_of_error (Cursor.advance_eq_error hthird')⟩)
          rw [htokens, Lexer.tokens_of_ne_endOfFile hsecond hkind₁, Lexer.tokens_of_error hthird]
      | ok result =>
          obtain ⟨third, last⟩ := result
          have hthird' : c'.lexer.next = .ok (third.mapPosition k.move, last.mapPosition k.move) := by
            rw [hlexer, Lexer.next_mapPosition hmove, hthird]
          obtain ⟨c₁, hadvance, hat₁⟩ := hat.advance hfirst hthird
          have hfirst' : (l.mapPosition k.move).next = .ok (v.first.mapPosition k.move, l₁.mapPosition k.move) := by
            rw [Lexer.next_mapPosition hmove, hfirst]
          obtain ⟨c₁', hadvance', hat₁'⟩ := hat'.advance hfirst' hthird'
          have hhanded : k.handed v.second :=
            hhands _ ⟨[v.first], l₁, c.lexer, third, last, .one hfirst hkind, hsecond, hthird⟩
          have hlt := Lexer.next_rest_lt hfirst hkind
          rw [bind_of_ok hadvance, bind_of_ok hadvance', htokens]
          have hrest := ih third _ ⟨hhanded, .inl rfl, fun _ => .inl rfl⟩ hat₁ hat₁'
            (fun t ⟨ts, l₂, l₃, u, l₄, hscans, ht⟩ => hhands t ⟨_, l₂, l₃, u, l₄, .step hfirst hkind hscans, ht⟩)
            (by omega)
          refine hrest.imp_left ?_
          rintro ⟨a, c₂, c₂', ts, l₂, w, hp, hq, hscans, hat₂⟩
          exact ⟨a, c₂, c₂', _, l₂, w, hp, hq, .step hfirst hkind hscans, hat₂⟩

theorem peek_eq_ok {i : Nat} {t : Token} (h : peek i c = .ok (t, c')) : c' = c := by
  unfold peek at h
  split at h
  · cases h
    rfl
  · cases h

/-- Lines end before a token that closes them. -/
theorem lines_closes {expression : Parser Node} {close : Kind} {fuel : Nat} {body : List Node}
    (h : lines expression close [] fuel c = .ok (body, c')) : ∃ t, peek 0 c' = .ok (t, c') ∧ t.kind = close := by
  induction fuel generalizing c body with
  | zero => cases h
  | succ fuel ih =>
      obtain ⟨kind, c₁, hkind, hrun⟩ := bind_eq_ok.1 h
      obtain ⟨t, c₂, ht, hpure⟩ := bind_eq_ok.1 hkind
      obtain rfl := peek_eq_ok ht
      cases hpure
      split at hrun
      · obtain ⟨-, c₁, -, hrun⟩ := bind_eq_ok.1 hrun
        exact ih hrun
      split at hrun
      next hclose =>
        cases hrun
        exact ⟨t, ht, hclose.resolve_right List.not_mem_nil⟩
      split at hrun
      · exact absurd hrun unexpected_ne_ok
      · obtain ⟨node, c₁, -, hrun⟩ := bind_eq_ok.1 hrun
        obtain ⟨rest, c₂, hrun, hpure⟩ := bind_eq_ok.1 hrun
        cases hpure
        exact ih hrun

/-! ### Plans -/

/-- What a parser may do: look at a token in view, take the first one, and end. -/
inductive Plan (α : Type) where
  | done (a : α)
  | stop (reason : ParseStop)
  | look (i : Nat) (next : Token → Plan α)
  | take (next : Token → Plan α)

namespace Plan

def run : Plan α → Parser α
  | done a => pure a
  | stop reason => throw reason
  | look i next => do (next (← peek i)).run
  | take next => do (next (← advance)).run

/-- The cursors that a run passes through, each with the tokens that have been taken before. -/
def visits : Plan α → (taken : List Token) → Cursor → List (List Token × Cursor)
  | done _, taken, c => [(taken, c)]
  | stop _, taken, c => [(taken, c)]
  | look i next, taken, c =>
      match peek i c with
      | .ok (t, c') => (next t).visits taken c'
      | .error _ => [(taken, c)]
  | take next, taken, c =>
      (taken, c) ::
        match advance c with
        | .ok (t, c') => (next t).visits (taken ++ [t]) c'
        | .error _ => []

/-- The plan takes at least `n` tokens before it is out of fuel. It looks at no token beyond those in view, and it never
ends in a fault. -/
def Lasts : Plan α → (n : Nat) → Prop
  | done _, _ => True
  | stop (.rejected _), _ => True
  | stop (.fault _), _ => False
  | stop .outOfFuel, n => n = 0
  | look i next, n => i < lookahead ∧ ∀ t, (next t).Lasts n
  | take next, n => ∀ t, (next t).Lasts (n - 1)

end Plan

/-- The run of this plan takes tokens off the front of what the cursor sees, and every cursor that it passes through
sees the others. -/
def Plan.Orderly (plan : Plan α) (v : View) : Prop :=
  ∀ c ts taken, c.Shows v → c.Sees ts → ∀ visit ∈ plan.visits taken c,
    ∃ more rest, visit.1 = taken ++ more ∧ ts = more ++ rest ∧ visit.2.Sees rest

/-- A parser that conforms to another follows a plan, which never takes the end of the file and lasts as long. -/
theorem Conforms.exists_plan (hk : ¬ k.goesOn) (hhanded : ∀ t, k.handed t) (h : Conforms k r v v' least bound p q)
    (halike : k.Alike v v') :
    ∃ plan : Plan α, (∀ c, c.Shows v → plan.run c = p c) ∧ plan.Orderly v ∧ plan.Lasts bound := by
  have hhere : ∀ {v : View} (c : Cursor) (ts taken : List Token), c.Shows v → c.Sees ts →
      ∀ visit ∈ [(taken, c)], ∃ more rest, visit.1 = taken ++ more ∧ ts = more ++ rest ∧ visit.2.Sees rest := by
    intro v c ts taken _ hsees visit hvisit
    obtain rfl := List.mem_singleton.1 hvisit
    exact ⟨[], ts, (List.append_nil taken).symm, rfl, hsees⟩
  induction h with
  | @done _ _ _ a _ => exact ⟨.done a, fun _ _ => rfl, hhere, trivial⟩
  | @reject _ _ _ _ t cause ht hcause => exact ⟨.stop (.rejected ⟨cause, t.position⟩), fun _ _ => rfl, hhere, trivial⟩
  | refuse hgoes => exact absurd hgoes hk
  | exhausted => exact ⟨.stop .outOfFuel, fun _ _ => rfl, hhere, rfl⟩
  | first _ ih =>
      obtain ⟨plan, hrun, hplan⟩ := ih halike
      exact ⟨plan, fun c hshows => by rw [bind_of_ok hshows.peek_zero, hrun c hshows], hplan⟩
  | second _ ih =>
      obtain ⟨plan, hrun, hplan⟩ := ih halike
      exact ⟨plan, fun c hshows => by rw [bind_of_ok hshows.peek_one, hrun c hshows], hplan⟩
  | @take v v' _ bound f g hkind _ ih =>
      have hsecond : v'.second = v.second.mapPosition k.move :=
        (halike.second hkind).resolve_right fun hgoes => hk hgoes.1
      have hplans : ∀ third, ∃ plan : Plan α,
          (∀ c, c.Shows ⟨v.second, third⟩ → plan.run c = f v.first c) ∧ plan.Orderly ⟨v.second, third⟩ ∧
            plan.Lasts (bound - 1) := fun third =>
        have hnext : k.Alike ⟨v.second, third⟩ ⟨v'.second, third.mapPosition k.move⟩ :=
          ⟨hhanded _, .inl hsecond, fun _ => .inl rfl⟩
        ih third _ hnext hnext
      choose plan hrun hvisits hlasts using hplans
      refine ⟨.take fun _ => .look 1 plan, fun c hshows => ?_, fun c ts taken hshows hsees visit hvisit => ?_,
        fun _ => ⟨Nat.one_lt_two, hlasts⟩⟩
      · cases hthird : c.lexer.next with
        | error e =>
            have hadvance := Cursor.advance_eq_error hthird
            rw [Plan.run, bind_of_error hadvance, bind_of_error hadvance]
        | ok result =>
            obtain ⟨third, last⟩ := result
            obtain ⟨c₁, hadvance, -, hshows₁⟩ := hshows.advance_eq_ok hthird
            rw [Plan.run, bind_of_ok hadvance, bind_of_ok hadvance, Plan.run, bind_of_ok hshows₁.peek_one,
              hrun _ _ hshows₁]
      · obtain ⟨third, last, -, hthird, -⟩ := hsees.lexer.next
        obtain ⟨rest, rfl⟩ := hsees.eq_cons hshows
        obtain ⟨c₁, hadvance, -, hshows₁⟩ := hshows.advance_eq_ok hthird
        obtain ⟨c₂, hadvance₂, hsees₁⟩ := reads_advance hkind c hsees
        obtain ⟨-, rfl⟩ := Prod.mk.inj (Except.ok.inj (hadvance.symm.trans hadvance₂))
        simp only [Plan.visits, hadvance, hshows₁.peek_one, List.mem_cons] at hvisit
        rcases hvisit with rfl | hvisit
        · exact ⟨[], _, (List.append_nil taken).symm, rfl, hsees⟩
        · obtain ⟨more, rest, htaken, rfl, hsees₂⟩ := hvisits third c₁ _ _ hshows₁ hsees₁ visit hvisit
          exact ⟨v.first :: more, rest, by rw [htaken, List.append_assoc]; rfl, rfl, hsees₂⟩

/-- **The grammar follows a plan.** On every cursor whose window is full, the parser of programs is the run of one plan,
and that run is orderly. -/
theorem exists_plan_lines (fuel : Nat) :
    ∃ plan : Plan (List Node),
      (∀ c v, c.Shows v → plan.run c = lines (expression fuel) .endOfFile [] fuel c) ∧
        ∀ c ts, c.Sees ts → ∀ visit ∈ plan.visits [] c, ∃ rest, ts = visit.1 ++ rest ∧ visit.2.Sees rest := by
  let k : Correspondence := ⟨fun _ => True, id, False⟩
  have hplans : ∀ v, ∃ plan : Plan (List Node),
      (∀ c, c.Shows v → plan.run c = lines (expression fuel) .endOfFile [] fuel c) ∧ plan.Orderly v := by
    intro v
    have halike : k.Alike v v := ⟨trivial, .inl rfl, fun _ => .inl rfl⟩
    have hagree : Agree k k.nodes 0 (fuel - 1) (lines (expression fuel) .endOfFile [] fuel)
        (lines (expression (0 + fuel)) .endOfFile [] (0 + fuel)) :=
      agree_lines agree_expression False.elim (Nat.le_refl _) (by omega)
    obtain ⟨plan, hrun, horderly, -⟩ := (hagree halike).exists_plan id (fun _ => trivial) halike
    exact ⟨plan, hrun, horderly⟩
  choose plan hrun hvisits using hplans
  refine ⟨.look 0 fun first => .look 1 fun second => plan ⟨first, second⟩, fun c v hshows => ?_,
    fun c ts hsees visit hvisit => ?_⟩
  · rw [Plan.run, bind_of_ok hshows.peek_zero, Plan.run, bind_of_ok hshows.peek_one, hrun _ _ hshows]
  · obtain ⟨first, second, -, -, hholds⟩ := hsees.window
    have hshows : c.Shows ⟨first, second⟩ := hholds
    simp only [Plan.visits, hshows.peek_zero, hshows.peek_one] at hvisit
    obtain ⟨more, rest, htaken, rfl, hsees'⟩ := hvisits _ c ts [] hshows hsees visit hvisit
    rw [List.nil_append] at htaken
    exact ⟨rest, by rw [htaken], hsees'⟩

end Parser

/-! ### Mistakes of the lexer and of the grammar -/

namespace Lexer

/-- A lexer that comes upon a mistake does not come upon the end of the file. -/
theorem ne_endOfFile_of_mistake {l l' : Lexer} {t : Token} {ts : List Token} {e : SyntaxError}
    (htokens : l.tokens = (ts, .error e)) (hnext : l.next = .ok (t, l')) :
    t.kind ≠ .endOfFile ∧ ∃ rest, ts = t :: rest ∧ l'.tokens = (rest, .error e) := by
  have hkind : t.kind ≠ .endOfFile := by
    intro hend
    rw [tokens_of_endOfFile hnext hend] at htokens
    cases htokens
  rw [tokens_of_ne_endOfFile hnext hkind] at htokens
  obtain ⟨rfl, hending⟩ := Prod.mk.inj htokens
  exact ⟨hkind, _, rfl, Prod.ext rfl hending⟩

/-- Of the tokens before a mistake the last is not handed out. -/
theorem Hands.getElem? {l : Lexer} {t : Token} {ts : List Token} {e : SyntaxError} (h : l.Hands t)
    (htokens : l.tokens = (ts, .error e)) : ∃ j : Nat, ts[j]? = some t ∧ j + 2 ≤ ts.length := by
  obtain ⟨before, l₁, l₂, u, l₃, hscans, ht, hu⟩ := h
  have htokens₁ := hscans.tokens_eq.symm.trans htokens
  generalize htail : l₁.tokens = tail at htokens₁
  obtain ⟨ts₁, ending⟩ := tail
  obtain ⟨rfl, rfl⟩ := Prod.mk.inj htokens₁
  obtain ⟨-, rest, rfl, htokens₂⟩ := ne_endOfFile_of_mistake htail ht
  obtain ⟨-, rest, rfl, -⟩ := ne_endOfFile_of_mistake htokens₂ hu
  exact ⟨before.length, by simp, by simp⟩

end Lexer

namespace Program

open LineScript.Parser

variable {source text : String} {fuel : Nat} {c : Cursor}

theorem parseWith_of_ofLexer {stop : ParseStop} (h : Cursor.ofLexer (.ofSource source text) = .error stop) :
    parseWith fuel source text = .error stop := by
  simp only [parseWith, h, bind, Except.bind]

theorem parseWith_of_cursor (h : Cursor.ofLexer (.ofSource source text) = .ok c) :
    parseWith fuel source text =
      (lines (expression fuel) .endOfFile [] fuel c).map fun result => ⟨source, result.1⟩ := by
  simp only [parseWith, h, bind, Except.bind, StateT.run]
  cases lines (expression fuel) .endOfFile [] fuel c <;> rfl

/-- The window is filled, unless there is a mistake in the first two tokens. -/
theorem ofLexer_outcome (l : Lexer) :
    (∃ e, l.tokens.2 = .error e ∧ Cursor.ofLexer l = .error (.rejected e)) ∨
      ∃ c v, Cursor.ofLexer l = .ok c ∧ c.At l v := by
  cases hfirst : l.next with
  | error e => exact .inl ⟨e, by rw [Lexer.tokens_of_error hfirst], Cursor.ofLexer_eq_error hfirst⟩
  | ok result =>
      obtain ⟨first, l₁⟩ := result
      cases hsecond : l₁.next with
      | error e =>
          have hkind : first.kind ≠ .endOfFile := by
            intro hend
            rw [Lexer.next_of_endOfFile hfirst hend] at hsecond
            cases hsecond
          refine .inl ⟨e, ?_, Cursor.ofLexer_eq_error_of_second hfirst hsecond⟩
          rw [Lexer.tokens_of_ne_endOfFile hfirst hkind, Lexer.tokens_of_error hsecond]
      | ok result =>
          obtain ⟨second, l₂⟩ := result
          obtain ⟨c, hcursor, hat⟩ := Cursor.ofLexer_eq_ok hfirst hsecond
          exact .inr ⟨c, _, hcursor, hat⟩

/-- A mistake in the first two tokens keeps the window from being filled. -/
theorem ofLexer_of_mistake {l : Lexer} {ts : List Token} {e : SyntaxError} (htokens : l.tokens = (ts, .error e)) :
    Cursor.ofLexer l = .error (.rejected e) ∨ ∃ c v, Cursor.ofLexer l = .ok c ∧ c.At l v ∧ 2 ≤ ts.length := by
  rcases ofLexer_outcome l with ⟨e', he', hcursor⟩ | ⟨c, v, hcursor, hat⟩
  · rw [htokens] at he'
    obtain rfl := Except.error.inj he'
    exact .inl hcursor
  · obtain ⟨l₁, hfirst, hsecond⟩ := hat.reads
    obtain ⟨-, rest, rfl, htokens₁⟩ := Lexer.ne_endOfFile_of_mistake htokens hfirst
    obtain ⟨-, rest, rfl, -⟩ := Lexer.ne_endOfFile_of_mistake htokens₁ hsecond
    exact .inr ⟨c, v, hcursor, hat, by simp⟩

/-- The lines of a program are read, or a token is rejected that the grammar came to, or the first mistake of the source
is met. -/
theorem lines_outcome {l : Lexer} {v : View} (hat : c.At l v) (hfuel : l.rest.length < fuel - 1) :
    (∃ body c₁ ts l₁ w, lines (expression fuel) .endOfFile [] fuel c = .ok (body, c₁) ∧ l.Scans ts l₁ ∧ c₁.At l₁ w) ∨
      (∃ t cause, l.Hands t ∧ cause.Concerns t ∧
        lines (expression fuel) .endOfFile [] fuel c = .error (.rejected ⟨cause, t.position⟩)) ∨
      ∃ e, l.tokens.2 = .error e ∧ lines (expression fuel) .endOfFile [] fuel c = .error (.rejected e) := by
  let k : Correspondence := ⟨l.Hands, id, False⟩
  have halike : k.Alike v v := by
    obtain ⟨l₁, hfirst, hsecond⟩ := hat.reads
    exact ⟨⟨[], l, l₁, v.second, c.lexer, .done, hfirst, hsecond⟩, .inl rfl, fun _ => .inl rfl⟩
  have hconforms : Conforms k k.nodes v v 0 (fuel - 1) (lines (expression fuel) .endOfFile [] fuel)
      (lines (expression (0 + fuel)) .endOfFile [] (0 + fuel)) :=
    agree_lines agree_expression False.elim (Nat.le_refl _) (by omega) halike
  rcases hconforms.run id (fun _ _ => rfl) hat hat (fun _ => id) hfuel with
    ⟨body, c₁, -, ts, l₁, w, hrun, -, hscans, hat₁⟩ | ⟨t, cause, ht, hcause, hrun, -⟩ | ⟨e, he, hrun, -⟩
  · exact .inl ⟨body, c₁, ts, l₁, w, hrun, hscans, hat₁⟩
  · exact .inr (.inl ⟨t, cause, ht, hcause, hrun⟩)
  · exact .inr (.inr ⟨e, he, hrun⟩)

/-- On its way to a mistake of the lexer the grammar comes upon it, or rejects a token at least two before it. -/
theorem lines_of_mistake {l : Lexer} {ts : List Token} {e : SyntaxError} (htokens : l.tokens = (ts, .error e))
    {v : View} (hat : c.At l v) (hfuel : l.rest.length < fuel - 1) :
    ∃ e', lines (expression fuel) .endOfFile [] fuel c = .error (.rejected e') ∧
      (e' = e ∨ e'.cause.isGrammatical = true ∧
        ∃ (j : Nat) (t : Token), ts[j]? = some t ∧ j + 2 ≤ ts.length ∧ e'.position = t.position) := by
  rcases lines_outcome hat hfuel with
    ⟨body, c₁, taken, l₁, w, hrun, hscans, hat₁⟩ | ⟨t, cause, ht, hcause, hrun⟩ | ⟨e', he', hrun⟩
  · -- Lines are closed by the end of the file only, and the lexer never comes to it.
    obtain ⟨t, hpeek, hkind⟩ := lines_closes hrun
    obtain ⟨l₂, hfirst, -⟩ := hat₁.reads
    obtain ⟨rfl, -⟩ := Prod.mk.inj (Except.ok.inj (hpeek.symm.trans hat₁.shows.peek_zero))
    rw [hscans.tokens_eq, Lexer.tokens_of_endOfFile hfirst hkind] at htokens
    cases htokens
  · obtain ⟨j, hj, hle⟩ := Lexer.Hands.getElem? ht htokens
    exact ⟨_, hrun, .inr ⟨hcause.isGrammatical, j, t, hj, hle, rfl⟩⟩
  · rw [htokens] at he'
    obtain rfl := Except.error.inj he'
    exact ⟨_, hrun, .inl rfl⟩

theorem ofSource_rest_lt (source text : String) : (Lexer.ofSource source text).rest.length < text.length + 1 := by
  rw [Lexer.ofSource, String.length_toList]
  exact Nat.lt_succ_self _

/-- A source with a mistake of the lexer is rejected, and for no token later than two before the mistake. -/
theorem parse_of_mistake {ts : List Token} {e : SyntaxError}
    (htokens : (Lexer.ofSource source text).tokens = (ts, .error e)) :
    ∃ e', parse source text = .error (.rejected e') ∧ (ts.length < 2 → e' = e) ∧
      (e' = e ∨ e'.cause.isGrammatical = true ∧
        ∃ (j : Nat) (t : Token), ts[j]? = some t ∧ j + 2 ≤ ts.length ∧ e'.position = t.position) := by
  rcases ofLexer_of_mistake htokens with hcursor | ⟨c, v, hcursor, hat, hlength⟩
  · exact ⟨e, parseWith_of_ofLexer hcursor, fun _ => rfl, .inl rfl⟩
  · have hfuel : (Lexer.ofSource source text).rest.length < text.length + 2 - 1 := ofSource_rest_lt source text
    obtain ⟨e', hlines, he'⟩ := lines_of_mistake htokens hat hfuel
    refine ⟨e', ?_, fun hlt => absurd hlt (Nat.not_lt.2 hlength), he'⟩
    rw [parse, parseWith_of_cursor hcursor, hlines]
    rfl

/-- **Mistakes come to light in order.** A source with a mistake of the lexer is rejected, either for that mistake or
for a token that stands at least two tokens before it. On a source without one the grammar follows a plan that depends
on the fuel alone: whenever it takes a token or ends, the tokens taken so far are the first of the source, in order, and
the window shows the next two. The plan takes a token exactly where the grammar does, since it is the grammar on every
cursor, and a source with a mistake at the token that is read then tells them apart. -/
theorem parse_meets_mistakes_in_order :
    ∃ plan : Nat → Plan (List Node),
      (∀ fuel c v, c.Shows v → (plan fuel).run c = lines (expression fuel) .endOfFile [] fuel c) ∧
      ∀ source text : String,
        match (Lexer.ofSource source text).tokens with
        | (ts, .error e) =>
            ∃ e', parse source text = .error (.rejected e') ∧ (ts.length < 2 → e' = e) ∧
              (e' = e ∨ e'.cause.isGrammatical = true ∧
                ∃ (j : Nat) (t : Token), ts[j]? = some t ∧ j + 2 ≤ ts.length ∧ e'.position = t.position)
        | (ts, .ok _) =>
            ∃ c, Cursor.ofLexer (.ofSource source text) = .ok c ∧
              parse source text = ((plan (text.length + 2)).run c).map (fun result => ⟨source, result.1⟩) ∧
              ∀ visit ∈ (plan (text.length + 2)).visits [] c, ∃ rest, ts = visit.1 ++ rest ∧ visit.2.Sees rest := by
  choose plan hrun hvisits using exists_plan_lines
  refine ⟨plan, hrun, fun source text => ?_⟩
  generalize htokens : (Lexer.ofSource source text).tokens = result
  obtain ⟨ts, e | l⟩ := result
  · exact parse_of_mistake htokens
  · obtain ⟨c, hcursor, hsees⟩ := Cursor.ofLexer_sees ⟨l, htokens⟩
    obtain ⟨first, second, -, -, hholds⟩ := hsees.window
    have hshows : c.Shows ⟨first, second⟩ := hholds
    refine ⟨c, hcursor, ?_, hvisits _ c ts hsees⟩
    rw [parse, parseWith_of_cursor hcursor, hrun _ _ _ hshows]

end Program

end LineScript
