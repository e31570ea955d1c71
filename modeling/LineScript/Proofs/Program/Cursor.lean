import LineScript.Program.Cursor
import LineScript.Proofs.RingBuffer
import LineScript.Proofs.Token.Stream
/-!
# What a cursor sees

A cursor shows the next two tokens of its source. On a source without lexical mistakes it sees a list of tokens, and the
grammar's primitive steps act on that list: to peek is to look at its first two tokens, to advance is to drop the first.
What is said of such sources speaks of the list and never of the window or the lexer.

A parser is described by two relations to the list. It *reads* a result off a list and leaves the rest, whatever
cursor sees the list; and it is *sound* for a language of phrases when whatever it returns is a phrase of it.
-/

namespace LineScript

open Token (Ended behind)

/-! ### Running a parser -/

namespace Parser

variable {α β : Type} {p : Parser α} {f : α → Parser β} {c c' : Cursor}

theorem bind_of_ok {a : α} (hp : p c = .ok (a, c')) : (p >>= f) c = f a c' := by
  change (p c >>= fun result => f result.1 result.2) = _
  rw [hp]
  rfl

theorem bind_of_error {stop : ParseStop} (hp : p c = .error stop) : (p >>= f) c = .error stop := by
  change (p c >>= fun result => f result.1 result.2) = _
  rw [hp]
  rfl

/-- A sequence of two parsers succeeds when both do. -/
theorem bind_eq_ok {b : β} : (p >>= f) c = .ok (b, c') ↔ ∃ a c₁, p c = .ok (a, c₁) ∧ f a c₁ = .ok (b, c') := by
  constructor
  · intro h
    cases hp : p c with
    | error stop =>
        rw [bind_of_error hp] at h
        cases h
    | ok result =>
        rw [bind_of_ok hp] at h
        exact ⟨result.1, result.2, rfl, h⟩
  · rintro ⟨a, c₁, hp, h⟩
    rw [bind_of_ok hp, h]

end Parser

/-! ### The tokens in view -/

/-- The two tokens that a cursor shows. -/
structure View where
  first : Token
  second : Token

namespace Cursor

def Shows (c : Cursor) (v : View) : Prop :=
  c.window.Holds [v.first, v.second]

variable {c : Cursor} {v : View} {e : SyntaxError}

theorem Shows.peek_zero (h : c.Shows v) : Parser.peek 0 c = .ok (v.first, c) := by
  rw [Parser.peek, RingBuffer.Holds.get_eq_ok (i := 0) h rfl]

theorem Shows.peek_one (h : c.Shows v) : Parser.peek 1 c = .ok (v.second, c) := by
  rw [Parser.peek, RingBuffer.Holds.get_eq_ok (i := 1) h rfl]

theorem Shows.peekKind_zero (h : c.Shows v) : Parser.peekKind 0 c = .ok (v.first.kind, c) :=
  Parser.bind_of_ok h.peek_zero

theorem refill_eq {t : Token} {l : Lexer} (hnext : c.lexer.next = .ok (t, l)) :
    c.refill = .ok ((c.window.push t).1, ⟨l, (c.window.push t).2⟩) := by
  rw [refill, hnext]

theorem refill_eq_error (hnext : c.lexer.next = .error e) : c.refill = .error (.rejected e) := by
  rw [refill, hnext]

/-- A token is taken when the one behind the view can be read. -/
theorem Shows.advance_eq_ok (h : c.Shows v) {third : Token} {l : Lexer} (hnext : c.lexer.next = .ok (third, l)) :
    ∃ c', Parser.advance c = .ok (v.first, c') ∧ c'.lexer = l ∧ c'.Shows ⟨v.second, third⟩ := by
  obtain ⟨houtput, hpushed⟩ := RingBuffer.Holds.push_of_full h rfl third
  refine ⟨⟨l, (c.window.push third).2⟩, ?_, rfl, hpushed⟩
  rw [Parser.advance, refill_eq hnext, houtput]

theorem advance_eq_error (hnext : c.lexer.next = .error e) : Parser.advance c = .error (.rejected e) := by
  rw [Parser.advance, refill_eq_error hnext]

/-- A new cursor shows the first two tokens of its source. -/
theorem exists_ofLexer {l l' last : Lexer} {first second : Token} (hfirst : l.next = .ok (first, l'))
    (hsecond : l'.next = .ok (second, last)) :
    ∃ c, ofLexer l = .ok c ∧ c.lexer = last ∧ c.Shows ⟨first, second⟩ := by
  have hempty : (RingBuffer.empty : RingBuffer Token lookahead).Holds [] := .empty (by decide)
  have hone := (hempty.push_of_lt Nat.zero_lt_two first).2
  have htwo := (hone.push_of_lt Nat.one_lt_two second).2
  refine ⟨⟨last, ((RingBuffer.empty.push first).2.push second).2⟩, ?_, rfl, htwo⟩
  have hrefill := refill_eq (c := ⟨l, .empty⟩) hfirst
  have hrefill₁ := refill_eq (c := ⟨l', (RingBuffer.empty.push first).2⟩) hsecond
  simp only [ofLexer, hrefill, hrefill₁, bind, Except.bind, pure, Except.pure]

/-! ### The tokens ahead -/

/-- The tokens ahead of the cursor, up to the end of the file. The first two, or the last one twice, are in the window,
and the others are still to be read. -/
structure Sees (c : Cursor) (ts : List Token) : Prop where
  ended : Ended ts
  window : ∃ first second, ts.head? = some first ∧ (behind ts).head? = some second ∧ c.window.Holds [first, second]
  lexer : c.lexer.Yields (behind (behind ts))

/-- The window of a new cursor is filled, and its tokens are those of the source. -/
theorem ofLexer_sees {l : Lexer} {ts : List Token} (h : l.Yields ts) : ∃ c, ofLexer l = .ok c ∧ c.Sees ts := by
  obtain ⟨first, l₁, hfirst, hnext, h₁⟩ := h.next
  obtain ⟨second, l₂, hsecond, hnext₁, h₂⟩ := h₁.next
  obtain ⟨c, hcursor, rfl, hshows⟩ := exists_ofLexer hnext hnext₁
  exact ⟨c, hcursor, h.ended_and_length_le.1, ⟨first, second, hfirst, hsecond, hshows⟩, h₂⟩

/-- Two lists that one cursor sees are the same. -/
theorem Sees.unique {c : Cursor} {ts ts' : List Token} (h : c.Sees ts) (h' : c.Sees ts') : ts = ts' := by
  obtain ⟨last, hlexer⟩ := h.lexer
  obtain ⟨last', hlexer'⟩ := h'.lexer
  have hbehind : behind (behind ts) = behind (behind ts') := (Prod.mk.inj (hlexer.symm.trans hlexer')).1
  obtain ⟨first, second, hfirst, hsecond, hholds⟩ := h.window
  obtain ⟨first', second', hfirst', hsecond', hholds'⟩ := h'.window
  have heq₀ : first = first' := by
    have := (hholds.get?_eq 0).symm.trans (hholds'.get?_eq 0)
    simpa using this
  have heq₁ : second = second' := by
    have := (hholds.get?_eq 1).symm.trans (hholds'.get?_eq 1)
    simpa using this
  subst heq₀ heq₁
  have hstep : ∀ {us vs : List Token} {t : Token}, Ended us → Ended vs → us.head? = some t → vs.head? = some t →
      behind us = behind vs → us = vs := by
    intro us vs t hus hvs hu hv heq
    obtain ⟨u, us, rfl⟩ := hus.exists_cons
    obtain ⟨v, vs, rfl⟩ := hvs.exists_cons
    obtain rfl : u = t := by simpa using hu
    obtain rfl : v = u := by simpa using hv
    by_cases ht : v.kind = .endOfFile
    · rw [hus.eq_nil ht, hvs.eq_nil ht]
    · rw [(hus.behind_of_ne ht).1, (hvs.behind_of_ne ht).1] at heq
      rw [heq]
  exact hstep h.ended h'.ended hfirst hfirst' (hstep h.ended.behind h'.ended.behind hsecond hsecond' hbehind)

end Cursor

/-- A language of phrases: the tokens ahead, what the phrase at their start stands for, and the tokens behind it. -/
abbrev Phrase (α : Type) := List Token → α → List Token → Prop

namespace Parser

variable {α β : Type}

/-! ### Rejections -/

theorem reject_ne_ok {cause : SyntaxCause} {p : Position} {c : Cursor} {result : α × Cursor} :
    (reject cause p : Parser α) c ≠ .ok result := nofun

theorem unexpected_ne_ok {wanted : Expectation} {c : Cursor} {result : α × Cursor} :
    (unexpected wanted : Parser α) c ≠ .ok result := by
  intro h
  obtain ⟨t, c₁, -, hreject⟩ := bind_eq_ok.1 h
  exact reject_ne_ok hreject

/-! ### Reading off a list of tokens -/

/-- Whatever cursor sees these tokens, the parser returns this result and leaves the rest. -/
def Reads (p : Parser α) (ts : List Token) (a : α) (rest : List Token) : Prop :=
  ∀ c, c.Sees ts → ∃ c', p c = .ok (a, c') ∧ c'.Sees rest

theorem Reads.pure (a : α) (ts : List Token) : Reads (pure a) ts a ts :=
  fun c hsees => ⟨c, rfl, hsees⟩

theorem Reads.bind {p : Parser α} {f : α → Parser β} {ts mid rest : List Token} {a : α} {b : β}
    (hp : Reads p ts a mid) (hf : Reads (f a) mid b rest) : Reads (p >>= f) ts b rest := by
  intro c hsees
  obtain ⟨c₁, hrun, hsees₁⟩ := hp c hsees
  obtain ⟨c₂, hrun₂, hsees₂⟩ := hf c₁ hsees₁
  exact ⟨c₂, bind_eq_ok.2 ⟨a, c₁, hrun, hrun₂⟩, hsees₂⟩

theorem Reads.map {p : Parser α} {f : α → β} {ts rest : List Token} {a : α} (hp : Reads p ts a rest) :
    Reads (do return f (← p)) ts (f a) rest :=
  hp.bind (.pure (f a) rest)

/-- A parser that reads two results off what one cursor sees reads the same twice. -/
theorem Reads.unique {p : Parser α} {ts rest rest' : List Token} {a a' : α} {c : Cursor} (hsees : c.Sees ts)
    (h : Reads p ts a rest) (h' : Reads p ts a' rest') : a = a' ∧ rest = rest' := by
  obtain ⟨c₁, hrun, hsees₁⟩ := h c hsees
  obtain ⟨c₂, hrun', hsees₂⟩ := h' c hsees
  obtain ⟨rfl, rfl⟩ := Prod.mk.inj (Except.ok.inj (hrun.symm.trans hrun'))
  exact ⟨rfl, hsees₁.unique hsees₂⟩

theorem reads_peek (t : Token) (ts : List Token) : Reads (peek 0) (t :: ts) t (t :: ts) := by
  intro c hsees
  obtain ⟨first, second, hfirst, -, hholds⟩ := hsees.window
  obtain rfl : t = first := by simpa using hfirst
  have hshows : c.Shows ⟨t, second⟩ := hholds
  exact ⟨c, hshows.peek_zero, hsees⟩

theorem reads_peekKind (t : Token) (ts : List Token) : Reads (peekKind 0) (t :: ts) t.kind (t :: ts) :=
  (reads_peek t ts).map

/-- The second token in view; behind the end of the file it is the end of the file again. -/
theorem reads_peekKind_one {ts : List Token} {second : Token} (hsecond : (behind ts).head? = some second) :
    Reads (peekKind 1) ts second.kind ts := by
  refine Reads.map (f := Token.kind) ?_
  intro c hsees
  obtain ⟨first, second', -, hsecond', hholds⟩ := hsees.window
  obtain rfl : second = second' := Option.some.inj (hsecond.symm.trans hsecond')
  have hshows : c.Shows ⟨first, second⟩ := hholds
  exact ⟨c, hshows.peek_one, hsees⟩

theorem reads_advance {t : Token} {ts : List Token} (ht : t.kind ≠ .endOfFile) : Reads advance (t :: ts) t ts := by
  intro c hsees
  obtain ⟨first, second, hfirst, hsecond, hholds⟩ := hsees.window
  obtain ⟨third, l, hthird, hnext, hyields⟩ := hsees.lexer.next
  obtain rfl : t = first := by simpa using hfirst
  have hshows : c.Shows ⟨t, second⟩ := hholds
  obtain ⟨c', hadvance, rfl, hshows'⟩ := hshows.advance_eq_ok hnext
  obtain ⟨hbehind, hended⟩ := hsees.ended.behind_of_ne ht
  rw [hbehind] at hsecond hthird hyields
  exact ⟨c', hadvance, hended, ⟨second, third, hsecond, hthird, hshows'⟩, hyields⟩

theorem reads_consume {kind : Token.Kind} {t : Token} {ts : List Token} (ht : t.kind = kind)
    (hkind : kind ≠ .endOfFile) : Reads (consume kind) (t :: ts) t ts := by
  refine (reads_peekKind t ts).bind ?_
  rw [if_pos ht]
  exact reads_advance (ht ▸ hkind)

/-! ### Sound parsers -/

/-- What the parser returns is a phrase of the language. -/
def Sound (p : Parser α) (L : Phrase α) : Prop :=
  ∀ c ts a c', c.Sees ts → p c = .ok (a, c') → ∃ rest, c'.Sees rest ∧ L ts a rest

theorem Sound.mono {p : Parser α} {L M : Phrase α} (h : Sound p L)
    (hLM : ∀ {ts a rest}, L ts a rest → M ts a rest) : Sound p M := by
  intro c ts a c' hsees hrun
  obtain ⟨rest, hsees', hphrase⟩ := h c ts a c' hsees hrun
  exact ⟨rest, hsees', hLM hphrase⟩

/-- The first of two parsers that succeed together has read a phrase, and the second goes on behind it. -/
theorem Sound.step {p : Parser α} {L : Phrase α} (hp : Sound p L) {f : α → Parser β} {c : Cursor} {ts : List Token}
    {result : β × Cursor} (hsees : c.Sees ts) (hrun : (p >>= f) c = .ok result) :
    ∃ a mid c₁, L ts a mid ∧ c₁.Sees mid ∧ f a c₁ = .ok result := by
  obtain ⟨a, c₁, hrun₁, hrun₂⟩ := bind_eq_ok.1 hrun
  obtain ⟨mid, hsees₁, hL⟩ := hp c ts a c₁ hsees hrun₁
  exact ⟨a, mid, c₁, hL, hsees₁, hrun₂⟩

theorem Reads.step {p : Parser α} {a : α} {ts rest : List Token} (hp : Reads p ts a rest) {f : α → Parser β}
    {c : Cursor} {result : β × Cursor} (hsees : c.Sees ts) (hrun : (p >>= f) c = .ok result) :
    ∃ c₁, c₁.Sees rest ∧ f a c₁ = .ok result := by
  obtain ⟨a', c₁, hrun₁, hrun₂⟩ := bind_eq_ok.1 hrun
  obtain ⟨c₂, hrun₁', hsees₂⟩ := hp c hsees
  obtain ⟨rfl, rfl⟩ := Prod.mk.inj (Except.ok.inj (hrun₁.symm.trans hrun₁'))
  exact ⟨c₁, hsees₂, hrun₂⟩

theorem sound_exhausted {L : Phrase α} : Sound exhausted L := by
  intro c ts a c' hsees hrun
  cases hrun

/-- One token of a kind. -/
def Single (kind : Token.Kind) : Phrase Token :=
  fun ts t rest => ts = t :: rest ∧ t.kind = kind

theorem sound_consume {kind : Token.Kind} (hkind : kind ≠ .endOfFile) : Sound (consume kind) (Single kind) := by
  intro c ts t c' hsees hrun
  obtain ⟨u, ts, rfl⟩ := hsees.ended.exists_cons
  obtain ⟨c₁, hsees₁, hrun⟩ := (reads_peekKind u ts).step hsees hrun
  split at hrun
  next hu =>
    obtain ⟨c₂, hrun₂, hsees₂⟩ := reads_advance (hu ▸ hkind) c₁ hsees₁
    obtain ⟨rfl, rfl⟩ := Prod.mk.inj (Except.ok.inj (hrun.symm.trans hrun₂))
    exact ⟨ts, hsees₂, rfl, hu⟩
  next => exact absurd hrun unexpected_ne_ok

end Parser

end LineScript
