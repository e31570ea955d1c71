import Mathlib.Data.Finset.Card
import Mathlib.Logic.Relation
import LineScript.Heap.Rendering
/-!
# Containers that are met inside themselves

The text of a value is put together from those of the values inside it. Both kinds of text are made in the same way: a
container is put on a stack for as long as its contents are rendered, and one that is on the stack already is only
marked. The path that is handed down with the fuel is what the stack holds at that time. A container that has contents
is one of the heap's, and goes on the stack once, so the rendering ends, whatever contains what. It leaves the stack as
it was, also where the formatter refuses a piece of the text.
-/

namespace LineScript

/-- The texts stand between the marks with commas between them. -/
theorem enclosed_eq {α : Type} (opening closing : String) (render : α → String) (xs : List α) :
    enclosed opening closing render xs = opening ++ ", ".intercalate (xs.map render) ++ closing := by
  have hfold (rest : List α) (text first : String) :
      rest.foldl (fun text y => text ++ ", " ++ render y) (text ++ first) =
        text ++ ", ".intercalate (first :: rest.map render) := by
    induction rest generalizing text first with
    | nil => simp
    | cons y rest ih =>
        rw [List.foldl_cons, List.map_cons, String.intercalate_cons_cons, ih (text ++ first ++ ", ") (render y)]
        simp only [String.append_assoc]
  cases xs with
  | nil => simp [enclosed]
  | cons x rest => rw [enclosed, hfold, List.map_cons]

namespace Heap

namespace Container

def array? : Container → Option ArrayId
  | array id => some id
  | object _ => none

/-- The text of a container with the texts of its contents. -/
def full (texts : List String) (c : Container) : String :=
  c.opening ++ ", ".intercalate texts ++ c.closing

end Container

namespace Rendering

variable {formatter : Formatter} {stack : List Container} {text text' : String} {action next : Rendering Unit}

/-- On a stack, an action writes a text and gives the stack back, or the formatter refuses a piece of the text. Then
what stands before that piece has been written, and the stack is given back too. -/
def Writes (formatter : Formatter) (stack : List Container) (text : String) (action : Rendering Unit) : Prop :=
  ∀ written, action ⟨stack, written⟩ = .ok () ⟨stack, written ++ text⟩ ∨
    ∃ before piece behind, text = before ++ piece ++ behind ∧ formatter (written ++ before) piece = false ∧
      action ⟨stack, written⟩ = .error .refused ⟨stack, written ++ before⟩

/-- The formatter takes the piece. -/
theorem write_of_taken {written piece : String} (h : formatter written piece = true) :
    write formatter piece ⟨stack, written⟩ = .ok () ⟨stack, written ++ piece⟩ := by
  change (if formatter written piece then modify _ else throw _ : Rendering Unit) ⟨stack, written⟩ = _
  rw [if_pos h]
  rfl

theorem write_of_refused {written piece : String} (h : formatter written piece = false) :
    write formatter piece ⟨stack, written⟩ = .error .refused ⟨stack, written⟩ := by
  change (if formatter written piece then modify _ else throw _ : Rendering Unit) ⟨stack, written⟩ = _
  rw [h, if_neg Bool.false_ne_true]
  rfl

theorem writes_write (piece : String) : Writes formatter stack piece (write formatter piece) := by
  intro written
  cases hpiece : formatter written piece with
  | true => exact .inl (write_of_taken hpiece)
  | false =>
      refine .inr ⟨"", piece, "", by simp, by simpa using hpiece, ?_⟩
      rw [write_of_refused hpiece, String.append_empty]

theorem writes_pure : Writes formatter stack "" (pure ()) := fun written =>
  .inl (by rw [String.append_empty]; rfl)

/-- What the second action does not come to is what stands behind the piece that is refused. -/
theorem Writes.seq (haction : Writes formatter stack text action) (hnext : Writes formatter stack text' next) :
    Writes formatter stack (text ++ text') (action >>= fun _ => next) := by
  intro written
  rcases haction written with hdone | ⟨before, piece, behind, rfl, hrefuses, hstopped⟩
  · have hbind : (action >>= fun _ => next) ⟨stack, written⟩ = next ⟨stack, written ++ text⟩ := by
      simp only [bind, EStateM.bind, hdone]
    rw [hbind]
    rcases hnext (written ++ text) with hdone | ⟨before, piece, behind, rfl, hrefuses, hstopped⟩
    · exact .inl (by rw [hdone, String.append_assoc])
    · refine .inr ⟨text ++ before, piece, behind, by simp only [String.append_assoc], ?_, ?_⟩
      · rwa [← String.append_assoc]
      · rw [hstopped, String.append_assoc]
  · refine .inr ⟨before, piece, behind ++ text', by simp only [String.append_assoc], hrefuses, ?_⟩
    simp only [bind, EStateM.bind, hstopped]

theorem Writes.inside {c : Container} (haction : Writes formatter (c :: stack) text action) :
    Writes formatter stack text (inside c action) := by
  intro written
  rcases haction written with hdone | ⟨before, piece, behind, htext, hrefuses, hstopped⟩
  · exact .inl (by simp only [Rendering.inside, hdone, List.tail_cons])
  · exact .inr ⟨before, piece, behind, htext, hrefuses, by simp only [Rendering.inside, hstopped, List.tail_cons]⟩

theorem visit_of_mem {c : Container} (hc : c ∈ stack) (written : String) :
    visit formatter c action ⟨stack, written⟩ = write formatter c.marker ⟨stack, written⟩ := by
  change (if c ∈ stack then write formatter c.marker else inside c action) ⟨stack, written⟩ = _
  rw [if_pos hc]

theorem visit_of_not_mem {c : Container} (hc : c ∉ stack) (written : String) :
    visit formatter c action ⟨stack, written⟩ = inside c action ⟨stack, written⟩ := by
  change (if c ∈ stack then write formatter c.marker else inside c action) ⟨stack, written⟩ = _
  rw [if_neg hc]

/-- Each of the texts behind the first stands behind a comma. -/
theorem writes_entries {render : Value → Rendering Unit} {text : Value → String} {parts : List (String × Value)}
    (hrender : ∀ part ∈ parts, Writes formatter stack (text part.2) (render part.2)) (before : String) :
    Writes formatter stack
      (if parts = [] then "" else before ++ ", ".intercalate (parts.map fun part => part.1 ++ text part.2))
      (entries formatter render before parts) := by
  induction parts generalizing before with
  | nil => exact writes_pure
  | cons part rest ih =>
      rw [List.forall_mem_cons] at hrender
      have htext : before ++ ", ".intercalate ((part :: rest).map fun part => part.1 ++ text part.2) =
          (before ++ part.1) ++ (text part.2 ++
            if rest = [] then "" else ", " ++ ", ".intercalate (rest.map fun part => part.1 ++ text part.2)) := by
        cases rest with
        | nil => simp [String.append_assoc]
        | cons next rest => simp [String.intercalate_cons_cons, String.append_assoc]
      rw [if_neg (List.cons_ne_nil _ _), htext]
      exact (writes_write _).seq (hrender.1.seq (ih hrender.2 ", "))

end Rendering

namespace Style

variable {style : Style} {h : Heap} {stack : List Container} {v : Value} {c : Container}
  {parts : List (String × Value)} {fuel : ℕ} {formatter : Formatter}

def text : Style → Heap → Value → String
  | display => Heap.display
  | debug => Heap.debug

/-- The text of a value inside the containers on a stack. The fuel bounds how many more there may be. -/
def within (style : Style) (h : Heap) (fuel : ℕ) (stack : List Container) (v : Value) : String :=
  match style with
  | display => h.displayWithin fuel (stack.filterMap Container.array?) v
  | debug => h.debugWithin fuel stack v

/-! ### One step of a rendering -/

theorem within_of_whole {text : String} (hview : style.view h v = .whole text) :
    style.within h fuel stack v = text := by
  cases style <;> cases v <;> cases hview <;> simp [within, displayWithin, debugWithin]

theorem mem_filterMap_iff {id : ArrayId} : id ∈ stack.filterMap Container.array? ↔ .array id ∈ stack := by
  rw [List.mem_filterMap]
  constructor
  · rintro ⟨c, hc, hid⟩
    cases c with
    | array => cases hid; exact hc
    | object => cases hid
  · exact fun hc => ⟨_, hc, rfl⟩

/-- A container is an array, or an object that is shown with its members. -/
theorem view_eq_parts (hview : style.view h v = .parts c parts) :
    (∃ id, v = .array id ∧ c = .array id ∧ parts = (h.items id).toList.map fun item => ("", item)) ∨
      style = .debug ∧ ∃ id, v = .object id ∧ c = .object id ∧
        parts = (h.object id).members.map fun member => (Text.quoted member.1 ++ ": ", member.2) := by
  cases v with
  | array id =>
      cases hview
      exact .inl ⟨id, rfl, rfl, rfl⟩
  | object id =>
      cases style with
      | display => cases hview
      | debug =>
          cases hview
          exact .inr ⟨rfl, id, rfl, rfl, rfl⟩
  | string s | function id => cases style <;> cases hview
  | none | bool b | number n => cases hview

theorem within_of_mem (hview : style.view h v = .parts c parts) (hc : c ∈ stack) :
    style.within h fuel stack v = c.marker := by
  obtain ⟨id, rfl, rfl, -⟩ | ⟨rfl, id, rfl, rfl, -⟩ := view_eq_parts hview
  · cases style with
    | display =>
        have hid : id ∈ stack.filterMap Container.array? := mem_filterMap_iff.2 hc
        cases fuel <;> exact if_pos hid
    | debug => cases fuel <;> exact if_pos hc
  · cases fuel <;> exact if_pos hc

theorem within_of_not_mem (hview : style.view h v = .parts c parts) (hc : c ∉ stack) :
    style.within h (fuel + 1) stack v =
      c.full (parts.map fun part => part.1 ++ style.within h fuel (c :: stack) part.2) := by
  obtain ⟨id, rfl, rfl, rfl⟩ | ⟨rfl, id, rfl, rfl, rfl⟩ := view_eq_parts hview
  · cases style with
    | display =>
        have hid : id ∉ stack.filterMap Container.array? := fun hid => hc (mem_filterMap_iff.1 hid)
        refine (if_neg hid).trans ?_
        simp [enclosed_eq, Container.full, Container.opening, Container.closing, within, Container.array?,
          Function.comp_def]
    | debug =>
        refine (if_neg hc).trans ?_
        simp [enclosed_eq, Container.full, Container.opening, Container.closing, within, Function.comp_def]
  · refine (if_neg hc).trans ?_
    simp [enclosed_eq, Container.full, Container.opening, Container.closing, within, Function.comp_def,
      String.append_assoc]

/-! ### The rendering ends -/

/-- The containers that may have contents. -/
def containers (h : Heap) : Style → Finset Container
  | display => (Finset.range h.arrays.size).image fun i => .array ⟨i⟩
  | debug =>
      (Finset.range h.arrays.size).image (fun i => .array ⟨i⟩) ∪
        (Finset.range h.objects.size).image fun i => .object ⟨i⟩

/-- What bounds the number of containers that may be rendered inside each other. -/
def depth (h : Heap) : Style → ℕ
  | display => h.arrays.size
  | debug => h.arrays.size + h.objects.size

theorem card_containers_le (style : Style) (h : Heap) : (style.containers h).card ≤ style.depth h := by
  have harrays : ((Finset.range h.arrays.size).image fun i => Container.array ⟨i⟩).card ≤ h.arrays.size :=
    Finset.card_image_le.trans_eq (Finset.card_range _)
  have hobjects : ((Finset.range h.objects.size).image fun i => Container.object ⟨i⟩).card ≤ h.objects.size :=
    Finset.card_image_le.trans_eq (Finset.card_range _)
  cases style with
  | display => exact harrays
  | debug => exact (Finset.card_union_le _ _).trans (Nat.add_le_add harrays hobjects)

theorem mem_containers {part : String × Value} (hview : style.view h v = .parts c parts) (hpart : part ∈ parts) :
    c ∈ style.containers h := by
  obtain ⟨id, rfl, rfl, rfl⟩ | ⟨rfl, id, rfl, rfl, rfl⟩ := view_eq_parts hview
  · obtain ⟨item, hitem, -⟩ := List.mem_map.1 hpart
    obtain ⟨i, hi, -⟩ := Array.mem_iff_getElem.1 (Array.mem_toList_iff.1 hitem)
    have hid := index_lt_of_lt_size hi
    cases style with
    | display => exact Finset.mem_image.2 ⟨id.index, Finset.mem_range.2 hid, rfl⟩
    | debug => exact Finset.mem_union_left _ (Finset.mem_image.2 ⟨id.index, Finset.mem_range.2 hid, rfl⟩)
  · have hid : id.index < h.objects.size := by
      by_contra hle
      have hobject : h.object id = default := by
        rw [object, Array.getElem?_eq_none (Nat.not_lt.1 hle), Option.getD_none]
      rw [hobject] at hpart
      exact List.not_mem_nil hpart
    exact Finset.mem_union_right _ (Finset.mem_image.2 ⟨id.index, Finset.mem_range.2 hid, rfl⟩)

/-- The containers with contents that are not on the stack. -/
def unvisited (style : Style) (h : Heap) (stack : List Container) : Finset Container :=
  style.containers h \ stack.toFinset

theorem card_unvisited_cons {part : String × Value} (hview : style.view h v = .parts c parts) (hc : c ∉ stack)
    (hpart : part ∈ parts) : (style.unvisited h (c :: stack)).card < (style.unvisited h stack).card := by
  have hmem : c ∈ style.unvisited h stack :=
    Finset.mem_sdiff.2 ⟨mem_containers hview hpart, fun hstack => hc (List.mem_toFinset.1 hstack)⟩
  rw [unvisited, List.toFinset_cons, Finset.sdiff_insert]
  exact Finset.card_erase_lt_of_mem hmem

theorem card_unvisited_le (style : Style) (h : Heap) (stack : List Container) :
    (style.unvisited h stack).card ≤ style.depth h :=
  (Finset.card_le_card Finset.sdiff_subset).trans (style.card_containers_le h)

/-- Fuel for the containers that are not on the stack is as good as more: one that is gone into is on the stack from
then on. -/
theorem within_eq_within {fuel' : ℕ} (hfuel : (style.unvisited h stack).card < fuel)
    (hfuel' : (style.unvisited h stack).card < fuel') : style.within h fuel stack v = style.within h fuel' stack v := by
  induction fuel generalizing fuel' stack v with
  | zero => omega
  | succ fuel ih =>
      cases hview : style.view h v with
      | whole text => rw [within_of_whole hview, within_of_whole hview]
      | parts c parts =>
          by_cases hc : c ∈ stack
          · rw [within_of_mem hview hc, within_of_mem hview hc]
          · obtain ⟨rest, rfl⟩ : ∃ rest, fuel' = rest + 1 := ⟨fuel' - 1, by omega⟩
            rw [within_of_not_mem hview hc, within_of_not_mem hview hc]
            congr 1
            apply List.map_congr_left
            intro part hpart
            have hlt := card_unvisited_cons hview hc hpart
            rw [ih (by omega) (show _ < rest by omega)]

theorem writes_rendering (hfuel : (style.unvisited h stack).card < fuel) :
    Rendering.Writes formatter stack (style.within h fuel stack v) (style.rendering h formatter fuel v) := by
  induction fuel generalizing stack v with
  | zero => omega
  | succ fuel ih =>
      unfold rendering
      cases hview : style.view h v with
      | whole text =>
          rw [within_of_whole hview]
          exact Rendering.writes_write text
      | parts c parts =>
          intro written
          by_cases hc : c ∈ stack
          · rw [within_of_mem hview hc]
            dsimp only
            rw [Rendering.visit_of_mem hc]
            exact Rendering.writes_write c.marker written
          · have hinner (part : String × Value) (hpart : part ∈ parts) :
                Rendering.Writes formatter (c :: stack) (style.within h fuel (c :: stack) part.2)
                  (style.rendering h formatter fuel part.2) := by
              have hlt := card_unvisited_cons hview hc hpart
              exact ih (by omega)
            have hparts := Rendering.writes_entries hinner ""
            have hall := ((Rendering.writes_write c.opening).seq (hparts.seq (Rendering.writes_write c.closing))).inside
            dsimp only
            rw [Rendering.visit_of_not_mem hc, within_of_not_mem hview hc, Container.full]
            cases parts with
            | nil => simpa using hall written
            | cons part rest => simpa [String.append_assoc] using hall written

/-- The text of a value inside the containers on a stack. -/
def shown (style : Style) (h : Heap) (stack : List Container) (v : Value) : String :=
  style.within h (style.depth h + 1) stack v

theorem shown_nil (style : Style) (h : Heap) (v : Value) : style.shown h [] v = style.text h v := by
  cases style <;> rfl

theorem writes_rendering_of_lt (formatter : Formatter) (stack : List Container) (v : Value)
    (hfuel : style.depth h < fuel) :
    Rendering.Writes formatter stack (style.shown h stack v) (style.rendering h formatter fuel v) := by
  have hle := style.card_unvisited_le h stack
  have heq : style.within h fuel stack v = style.within h (style.depth h + 1) stack v :=
    within_eq_within (by omega) (by omega)
  rw [shown, ← heq]
  exact writes_rendering (by omega)

/-- The text of a value is made of those of the values inside it, each inside one more container. -/
theorem shown_eq (style : Style) (h : Heap) (stack : List Container) (v : Value) :
    style.shown h stack v =
      match style.view h v with
      | .whole text => text
      | .parts c parts =>
          if c ∈ stack then c.marker
          else c.full (parts.map fun part => part.1 ++ style.shown h (c :: stack) part.2) := by
  cases hview : style.view h v with
  | whole text => exact within_of_whole hview
  | parts c parts =>
      show style.shown h stack v = ite _ _ _
      split
      · rename_i hc
        exact within_of_mem hview hc
      · rename_i hc
        rw [shown, within_of_not_mem hview hc]
        congr 1
        apply List.map_congr_left
        intro part hpart
        have hlt := card_unvisited_cons hview hc hpart
        have hle := style.card_unvisited_le h stack
        have heq : style.within h (style.depth h) (c :: stack) part.2 = style.shown h (c :: stack) part.2 :=
          within_eq_within (by omega) (by omega)
        rw [heq]

theorem shown_array {id : ArrayId} (hid : .array id ∉ stack) :
    display.shown h stack (.array id) =
      "[" ++ ", ".intercalate ((h.items id).toList.map (display.shown h (.array id :: stack))) ++ "]" := by
  rw [shown_eq]
  show ite _ _ _ = _
  rw [if_neg hid]
  simp [Container.full, Container.opening, Container.closing, Function.comp_def]

/-! ### What is rendered inside what -/

/-- The second value is directly inside the first, as far as the text shows. -/
def Inside (style : Style) (h : Heap) (v w : Value) : Prop :=
  ∃ c parts label, style.view h v = .parts c parts ∧ (label, w) ∈ parts

/-- The rendering of a value inside the containers on a stack comes to another value, inside those on another stack: it
goes down from a container to one of its parts where it does not mark the container. -/
inductive Occurs (style : Style) (h : Heap) : List Container → Value → List Container → Value → Prop
  | here (stack : List Container) (v : Value) : Occurs style h stack v stack v
  | inside {stack stack' : List Container} {v w : Value} {c : Container} {parts : List (String × Value)}
      {part : String × Value} (hview : style.view h v = .parts c parts) (hc : c ∉ stack) (hpart : part ∈ parts)
      (hoccurs : Occurs style h (c :: stack) part.2 stack' w) : Occurs style h stack v stack' w

/-- The value is a container that is on the stack already. -/
def Marked (style : Style) (h : Heap) (stack : List Container) (v : Value) : Prop :=
  ∃ c parts, style.view h v = .parts c parts ∧ c ∈ stack

/-- No container that is in the value at some depth is inside itself. -/
def CycleFree (style : Style) (h : Heap) (v : Value) : Prop :=
  ∀ w, Relation.ReflTransGen (style.Inside h) v w → ¬ Relation.TransGen (style.Inside h) w w

variable {stack' : List Container} {w : Value}

/-- A rendering only puts containers on the stack on its way down. -/
theorem Occurs.mem (hoccurs : style.Occurs h stack v stack' w) (hc : c ∈ stack) : c ∈ stack' := by
  induction hoccurs with
  | here => exact hc
  | inside _ _ _ _ ih => exact ih (List.mem_cons_of_mem _ hc)

theorem Occurs.trans {stack'' : List Container} {u : Value} (hfirst : style.Occurs h stack v stack' w)
    (hsecond : style.Occurs h stack' w stack'' u) : style.Occurs h stack v stack'' u := by
  induction hfirst with
  | here => exact hsecond
  | inside hview hc hpart _ ih => exact .inside hview hc hpart (ih hsecond)

/-- On the stack are the containers that the rendering has gone down into, apart from those that were there before. -/
theorem Occurs.mem_iff (hoccurs : style.Occurs h stack v stack' w) :
    c ∈ stack' ↔ c ∈ stack ∨ ∃ around u parts part, style.Occurs h stack v around u ∧
      style.view h u = .parts c parts ∧ c ∉ around ∧ part ∈ parts ∧ style.Occurs h (c :: around) part.2 stack' w := by
  constructor
  · intro hc
    induction hoccurs with
    | here => exact .inl hc
    | @inside stack stack' v w next parts part hview hnext hpart hoccurs ih =>
        obtain hmem | ⟨around, u, parts', part', hbefore, hrest⟩ := ih hc
        · rcases List.mem_cons.1 hmem with rfl | hmem
          · exact .inr ⟨stack, v, parts, part, .here stack v, hview, hnext, hpart, hoccurs⟩
          · exact .inl hmem
        · exact .inr ⟨around, u, parts', part', .inside hview hnext hpart hbefore, hrest⟩
  · rintro (hc | ⟨around, u, parts, part, -, -, -, -, hbehind⟩)
    · exact hoccurs.mem hc
    · exact hbehind.mem List.mem_cons_self

theorem Occurs.reflTransGen (hoccurs : style.Occurs h stack v stack' w) :
    Relation.ReflTransGen (style.Inside h) v w := by
  induction hoccurs with
  | here => exact .refl
  | inside hview _ hpart _ ih => exact .head ⟨_, _, _, hview, hpart⟩ ih

/-- Only one value is a given container. -/
theorem eq_of_view_eq_parts {parts' : List (String × Value)} (hv : style.view h v = .parts c parts)
    (hw : style.view h w = .parts c parts') : v = w := by
  obtain ⟨id, rfl, rfl, -⟩ | ⟨-, id, rfl, rfl, -⟩ := view_eq_parts hv
  all_goals
    obtain ⟨id', rfl, hid, -⟩ | ⟨-, id', rfl, hid, -⟩ := view_eq_parts hw <;> cases hid
    rfl

/-- Where nothing is marked, the rendering comes to everything that is inside the value. -/
theorem exists_occurs (hmarked : ∀ stack' w, style.Occurs h stack v stack' w → ¬ style.Marked h stack' w)
    (hinside : Relation.ReflTransGen (style.Inside h) v w) : ∃ stack', style.Occurs h stack v stack' w := by
  induction hinside with
  | refl => exact ⟨stack, .here stack v⟩
  | tail _ hpart ih =>
      obtain ⟨stack', hoccurs⟩ := ih
      obtain ⟨c, parts, label, hview, hpart⟩ := hpart
      have hc : c ∉ stack' := fun hc => hmarked _ _ hoccurs ⟨c, parts, hview, hc⟩
      exact ⟨c :: stack', hoccurs.trans (.inside hview hc hpart (.here _ _))⟩

theorem not_marked_iff_cycleFree (style : Style) (h : Heap) (v : Value) :
    (∀ stack w, style.Occurs h [] v stack w → ¬ style.Marked h stack w) ↔ style.CycleFree h v := by
  constructor
  · intro hmarked w hinside hcycle
    obtain ⟨stack, hoccurs⟩ := exists_occurs hmarked hinside
    obtain ⟨u, ⟨c, parts, label, hview, hpart⟩, hback⟩ := Relation.TransGen.head'_iff.1 hcycle
    have hc : c ∉ stack := fun hc => hmarked _ _ hoccurs ⟨c, parts, hview, hc⟩
    -- Going on from the container around the cycle leads to it again, and it is still on the stack.
    have hnext : style.Occurs h [] v (c :: stack) u := hoccurs.trans (.inside hview hc hpart (.here _ _))
    obtain ⟨stack', hagain⟩ := exists_occurs (fun stack' w hw => hmarked stack' w (hnext.trans hw)) hback
    exact hmarked _ _ (hnext.trans hagain) ⟨c, parts, hview, hagain.mem List.mem_cons_self⟩
  · rintro hfree stack w hoccurs ⟨c, parts, hview, hc⟩
    obtain hc | ⟨around, u, parts', part, hbefore, hview', -, hpart, hbehind⟩ := hoccurs.mem_iff.1 hc
    · exact List.not_mem_nil hc
    · obtain rfl : w = u := eq_of_view_eq_parts hview hview'
      exact hfree w hbefore.reflTransGen (.head' ⟨c, parts', part.1, hview', hpart⟩ hbehind.reflTransGen)

/-- **What is marked in a text.** Whatever the heap is, the rendering of a value ends, in a text and with the stack that
it began with; on the empty stack the text is the one of the value. A formatter that refuses a piece of the text gets
nothing behind it, and the stack is given back as well. A container is marked if it is on the stack, and has
its full text otherwise, whether or not it has been rendered elsewhere. What is on the stack at an occurrence are the
containers that the occurrence is inside of. So there is a mark in the text just where a container is inside itself. -/
theorem rendering_marks_cycles (style : Style) (h : Heap) :
    (∀ v, style.shown h [] v = style.text h v) ∧
      (∀ stack v fuel written, style.depth h < fuel →
        style.rendering h (fun _ _ => true) fuel v ⟨stack, written⟩ =
          .ok () ⟨stack, written ++ style.shown h stack v⟩) ∧
      (∀ formatter stack v fuel written, style.depth h < fuel →
        style.rendering h formatter fuel v ⟨stack, written⟩ = .ok () ⟨stack, written ++ style.shown h stack v⟩ ∨
        ∃ before piece behind, style.shown h stack v = before ++ piece ++ behind ∧
          formatter (written ++ before) piece = false ∧
          style.rendering h formatter fuel v ⟨stack, written⟩ = .error .refused ⟨stack, written ++ before⟩) ∧
      (∀ stack v, style.shown h stack v =
        match style.view h v with
        | .whole text => text
        | .parts c parts =>
            if c ∈ stack then c.marker
            else c.full (parts.map fun part => part.1 ++ style.shown h (c :: stack) part.2)) ∧
      (∀ stack id, .array id ∉ stack → display.shown h stack (.array id) =
        "[" ++ ", ".intercalate ((h.items id).toList.map (display.shown h (.array id :: stack))) ++ "]") ∧
      (∀ v stack w c, style.Occurs h [] v stack w → (c ∈ stack ↔ ∃ around u parts part,
        style.Occurs h [] v around u ∧ style.view h u = .parts c parts ∧ c ∉ around ∧ part ∈ parts ∧
          style.Occurs h (c :: around) part.2 stack w)) ∧
      ∀ v, (∀ stack w, style.Occurs h [] v stack w → ¬ style.Marked h stack w) ↔ style.CycleFree h v := by
  refine ⟨style.shown_nil h, fun stack v fuel written hfuel => ?_,
    fun formatter stack v fuel written hfuel => writes_rendering_of_lt formatter stack v hfuel written,
    style.shown_eq h, fun stack id => shown_array, fun v stack w c hoccurs => ?_, style.not_marked_iff_cycleFree h⟩
  · exact (writes_rendering_of_lt _ stack v hfuel written).resolve_right fun ⟨_, _, _, _, hrefuses, _⟩ =>
      Bool.noConfusion hrefuses
  · have hmem := hoccurs.mem_iff (c := c)
    simpa only [List.not_mem_nil, false_or] using hmem

/-- The array is marked inside itself, and the empty one in it is not, though it is met twice. -/
example : Heap.display ⟨#[#[.array ⟨0⟩, .array ⟨1⟩, .array ⟨1⟩], #[]], #[], #[]⟩ (.array ⟨0⟩) =
    "[[...], [], []]" := by
  decide

end Style

end Heap

end LineScript
