import LineScript.Proofs.Decimal.Notation
import LineScript.Proofs.Heap.Equality
import LineScript.Proofs.Heap.Evolution
import LineScript.Proofs.Heap.Marking
import LineScript.Proofs.Heap.Rendering
/-!
# Equal values have one text

Equal numbers may have different scales, and equal arrays hold such numbers at any depth and share their parts in
different ways. None of this is seen in the text of a value without cycles: a number is shown with the fewest digits,
and an array by the texts of its items, wherever they are kept. So whatever goes by the text, as joining it to a string
and converting it do, treats equal values alike. The texts of numbers and truth values lead back to them.
-/

namespace LineScript

namespace Heap

namespace Style

variable {style : Style} {h : Heap} {stack stack' : List Container} {v w x y : Value}

/-- Nothing is marked in the text of a value inside the containers on a stack. -/
def Unmarked (style : Style) (h : Heap) (stack : List Container) (v : Value) : Prop :=
  ∀ stack' w, style.Occurs h stack v stack' w → ¬ style.Marked h stack' w

theorem Unmarked.parts {c : Container} {parts : List (String × Value)} (hv : style.Unmarked h stack v)
    (hview : style.view h v = .parts c parts) :
    c ∉ stack ∧ ∀ part ∈ parts, style.Unmarked h (c :: stack) part.2 := by
  have hc : c ∉ stack := fun hc => hv stack v (.here stack v) ⟨c, parts, hview, hc⟩
  exact ⟨hc, fun part hpart stack' w hoccurs => hv stack' w (.inside hview hc hpart hoccurs)⟩

theorem Unmarked.item {id : ArrayId} (hv : display.Unmarked h stack (.array id)) {i : Nat}
    (hi : i < (h.items id).size) : display.Unmarked h (.array id :: stack) (h.items id)[i] :=
  (hv.parts rfl).2 ("", (h.items id)[i]) (List.mem_map.2 ⟨_, Array.mem_toList_iff.2 (Array.getElem_mem hi), rfl⟩)

theorem card_unvisited_item {id : ArrayId} (hid : .array id ∉ stack) {i : Nat} (hi : i < (h.items id).size) :
    (display.unvisited h (.array id :: stack)).card < (display.unvisited h stack).card :=
  card_unvisited_cons (v := .array id) rfl hid
    (List.mem_map.2 ⟨(h.items id)[i], Array.mem_toList_iff.2 (Array.getElem_mem hi), rfl⟩)

/-! ### One text -/

theorem shown_eq_of_agrees (hagrees : x.Agrees y) (stack stack' : List Container) :
    display.shown h stack x = display.shown h stack' y := by
  obtain ⟨text, hx, hy⟩ : ∃ text, display.view h x = .whole text ∧ display.view h y = .whole text := by
    cases hagrees with
    | number hvalue => exact ⟨_, rfl, by rw [Style.view, Decimal.normalized_eq_iff.2 hvalue]⟩
    | _ => exact ⟨_, rfl, rfl⟩
  rw [shown, shown, within_of_whole hx, within_of_whole hy]

/-- What the text of a value is inside of does not matter, as long as nothing in it is marked for that. The induction is
on the number of containers that are not on the stack. -/
theorem shown_eq_of_bisimilar (hxy : h.Bisimilar x y) (hx : display.Unmarked h stack x)
    (hy : display.Unmarked h stack' y) : display.shown h stack x = display.shown h stack' y := by
  induction hcard : (display.unvisited h stack).card using Nat.strong_induction_on generalizing x y stack stack' with
  | _ card ih =>
      subst hcard
      cases hxy.matches with
      | plain hagrees => exact shown_eq_of_agrees hagrees stack stack'
      | @array a b hsize hitems =>
          have ha := (hx.parts rfl).1
          have htexts : (h.items a).toList.map (display.shown h (.array a :: stack)) =
              (h.items b).toList.map (display.shown h (.array b :: stack')) := by
            refine List.ext_getElem (by simpa using hsize) fun i hia hib => ?_
            simp only [List.length_map, Array.length_toList] at hia hib
            simp only [List.getElem_map, Array.getElem_toList]
            exact ih _ (card_unvisited_item ha hia) (hitems i hia hib) (hx.item hia) (hy.item hib) rfl
          rw [shown_array ha, shown_array (hy.parts rfl).1, htexts]

/-! ### No cycles -/

/-- A value that is inside itself is inside itself forever. -/
theorem not_transGen_of_acc (hacc : Acc (fun w v => style.Inside h v w) v) :
    ¬ Relation.TransGen (style.Inside h) v v := by
  induction hacc with
  | intro v _ ih =>
      intro hcycle
      obtain ⟨w, hinside, hback⟩ := Relation.TransGen.head'_iff.1 hcycle
      exact ih w hinside (.tail' hback hinside)

theorem cycleFree_of_acc (hacc : Acc (fun w v => style.Inside h v w) v) : style.CycleFree h v := by
  intro w hinside
  refine not_transGen_of_acc ?_
  induction hinside with
  | refl => exact hacc
  | tail _ hpart ih => exact ih.inv hpart

theorem acc_of_items {id : ArrayId} (hitems : ∀ w ∈ h.items id, Acc (fun w v => display.Inside h v w) w) :
    Acc (fun w v => display.Inside h v w) (.array id) := by
  refine .intro _ ?_
  rintro w ⟨c, parts, label, hview, hpart⟩
  cases hview
  obtain ⟨item, hitem, heq⟩ := List.mem_map.1 hpart
  cases heq
  exact hitems w (Array.mem_toList_iff.1 hitem)

theorem acc_of_agrees (hagrees : x.Agrees y) : Acc (fun w v => display.Inside h v w) y := by
  refine .intro _ ?_
  rintro w ⟨c, parts, label, hview, -⟩
  cases hagrees <;> cases hview

/-- What is inside a value is equal to what is inside an equal one, so the way down ends for both or for neither. -/
theorem acc_of_bisimilar (hxy : h.Bisimilar x y) (hx : display.Unmarked h stack x) :
    Acc (fun w v => display.Inside h v w) y := by
  induction hcard : (display.unvisited h stack).card using Nat.strong_induction_on generalizing x y stack with
  | _ card ih =>
      subst hcard
      cases hxy.matches with
      | plain hagrees => exact acc_of_agrees hagrees
      | @array a b hsize hitems =>
          refine acc_of_items fun w hw => ?_
          obtain ⟨i, hib, rfl⟩ := Array.mem_iff_getElem.1 hw
          have hia : i < (h.items a).size := hsize ▸ hib
          exact ih _ (card_unvisited_item (hx.parts rfl).1 hia) (hitems i hia hib) (hx.item hia) rfl

theorem CycleFree.of_bisimilar (hv : display.CycleFree h v) (hvw : h.Bisimilar v w) : display.CycleFree h w :=
  cycleFree_of_acc (acc_of_bisimilar hvw ((display.not_marked_iff_cycleFree h v).2 hv))

theorem CycleFree.display_eq (hv : display.CycleFree h v) (hvw : h.Bisimilar v w) : h.display v = h.display w := by
  have hmarked := (display.not_marked_iff_cycleFree h v).2 hv
  have hmarked' := (display.not_marked_iff_cycleFree h w).2 (hv.of_bisimilar hvw)
  calc h.display v = display.shown h [] v := (display.shown_nil h v).symm
    _ = display.shown h [] w := shown_eq_of_bisimilar hvw hmarked hmarked'
    _ = h.display w := display.shown_nil h w

end Style

/-- Data is finite. -/
theorem Plain.cycleFree {h : Heap} {v : Value} (hplain : h.Plain v) : Style.display.CycleFree h v := by
  refine Style.cycleFree_of_acc ?_
  induction hplain with
  | none => exact Style.acc_of_agrees .none
  | bool b => exact Style.acc_of_agrees (.bool b)
  | number n => exact Style.acc_of_agrees (.number (a := n) rfl)
  | array _ _ ih => exact Style.acc_of_items ih

end Heap

theorem Text.trimBlanks_of_forall {text : List Char} (htext : ∀ c ∈ text, isBlank c = false) :
    trimBlanks text = text := by
  have hdrop {text : List Char} (htext : ∀ c ∈ text, isBlank c = false) : text.dropWhile isBlank = text := by
    cases text with
    | nil => rfl
    | cons c rest => exact List.dropWhile_cons_of_neg (by simp [htext c List.mem_cons_self])
  rw [trimBlanks, hdrop htext, hdrop fun c hc => htext c (List.mem_reverse.1 hc), List.reverse_reverse]

theorem Decimal.not_blank_of_mem_chars {a : Decimal} {c : Char} (hc : c ∈ a.chars) : Text.isBlank c = false := by
  have hdigits : ∀ d < 10, Text.isBlank (Char.ofNat ('0'.toNat + d)) = false := by decide
  rcases mem_chars hc with rfl | rfl | ⟨d, rfl⟩
  · decide
  · decide
  · exact hdigits (d % 10) (Nat.mod_lt d (by decide))

namespace Value

/-- The notation of a number denotes it, but for the sign of zero. -/
theorem ofText?_number (a : Decimal) : ofText? a.text .number = some (.number a.unsignedZero) := by
  have hchars : Text.trimBlanks a.text.toList = a.chars := by
    rw [Decimal.text, String.toList_ofList]
    exact Text.trimBlanks_of_forall fun c => Decimal.not_blank_of_mem_chars
  rw [ofText?, hchars, Decimal.ofChars?_chars]
  rfl

theorem ofText?_normalized (a : Decimal) : ofText? a.normalized.text .number = some (.number a.normalized) := by
  rw [ofText?_number, Decimal.unsignedZero_eq a.isReduced_normalized.unsigned]

/-- Numbers with one text are equal, and equal numbers have one text. -/
theorem text_normalized_eq_iff {a b : Decimal} : a.normalized.text = b.normalized.text ↔ a.value = b.value := by
  rw [← Decimal.normalized_eq_iff]
  constructor
  · intro htext
    have hread := ofText?_normalized a
    rw [htext, ofText?_normalized] at hread
    exact (number.inj (Option.some.inj hread)).symm
  · exact congrArg Decimal.text

theorem Agrees.tag_eq {x y : Value} (hagrees : x.Agrees y) : x.tag = y.tag := by
  cases hagrees <;> rfl

end Value

namespace Heap

variable {h : Heap} {v w : Value}

theorem equal_number_iff (h : Heap) (a b : Decimal) : h.equal (.number a) (.number b) = true ↔ a.value = b.value := by
  rw [equal_iff]
  refine ⟨fun hbisimilar => ?_, fun hvalue => Matches.bisimilar (.plain (.number hvalue))⟩
  cases hbisimilar.matches with
  | plain hagrees =>
      cases hagrees with
      | number hvalue => exact hvalue

theorem Bisimilar.tag_eq (hvw : h.Bisimilar v w) : v.tag = w.tag := by
  cases hvw.matches with
  | plain hagrees => exact hagrees.tag_eq
  | array _ _ => rfl

end Heap

namespace Operation

variable {h : Heap} {v w : Value}

theorem convert_self (h : Heap) (v : Value) : convert v v.tag h = .ok v h := by
  rw [convert, if_pos rfl]
  rfl

/-- A value of another type is converted by its text. -/
theorem convert_of_ne {target : Tag} (htag : v.tag ≠ target) :
    convert v target h = orRaise (.cannotConvert (h.display v) target) (Value.ofText? (h.display v) target) h := by
  rw [convert, if_neg htag]
  rfl

theorem convert_to_text (htag : v.tag ≠ .string) : convert v .string h = .ok (.string (h.display v)) h :=
  convert_of_ne htag

/-- A text that has been put together is a string, unless it is too long. -/
def joined (text : String) : Action Heap Value := do
  checkLength text.length
  return .string text

theorem add_string (h : Heap) (v : Value) (s : String) : add v (.string s) h = joined (h.display v ++ s) h := by
  cases v <;> exact Action.bind_of_ok (s := h) rfl

theorem string_add (h : Heap) (s : String) (v : Value) : add (.string s) v h = joined (s ++ h.display v) h :=
  Action.bind_of_ok (s := h) rfl

/-- A value equal to one that is converted is converted to an equal one, or not converted for the same reason. -/
theorem convert_alike (hequal : h.equal v w = true) (htext : h.display v = h.display w) (target : Tag) :
    (∃ a b, convert v target h = .ok a h ∧ convert w target h = .ok b h ∧ h.equal a b = true) ∨
      ∃ e, convert v target h = .error e h ∧ convert w target h = .error e h := by
  have htag := ((h.equal_iff v w).1 hequal).tag_eq
  by_cases hv : v.tag = target
  · subst hv
    exact .inl ⟨v, w, convert_self h v, htag ▸ convert_self h w, hequal⟩
  · rw [convert_of_ne hv, convert_of_ne (htag ▸ hv), htext]
    cases Value.ofText? (h.display w) target with
    | none => exact .inr ⟨_, rfl, rfl⟩
    | some a => exact .inl ⟨a, a, rfl, rfl, (h.equal_iff a a).2 (.refl h a)⟩

/-- **One text for equal values.** A value that is equal to one without cycles has none, and has the same text. So
joining one of the two to a string comes to the same as joining the other, on either side, and a conversion makes equal
values of both or refuses both for the same reason. Numbers are equal just if their texts are the same. The text of a
number is converted to a number that is equal to it, and that of a truth value to that truth value. -/
theorem text_is_canonical (h : Heap) :
    (∀ v w, Heap.Style.display.CycleFree h v → h.equal v w = true →
      Heap.Style.display.CycleFree h w ∧ h.display v = h.display w ∧
        (∀ s, add v (.string s) h = add w (.string s) h ∧ add (.string s) v h = add (.string s) w h) ∧
        ∀ target,
          (∃ a b, convert v target h = .ok a h ∧ convert w target h = .ok b h ∧ h.equal a b = true) ∨
            ∃ e, convert v target h = .error e h ∧ convert w target h = .error e h) ∧
      (∀ a b : Decimal,
        h.equal (.number a) (.number b) = true ↔ h.display (.number a) = h.display (.number b)) ∧
      (∀ a : Decimal, ∃ text back, convert (.number a) .string h = .ok (.string text) h ∧
        convert (.string text) .number h = .ok (.number back) h ∧ h.equal (.number a) (.number back) = true) ∧
      ∀ b, ∃ text, convert (.bool b) .string h = .ok (.string text) h ∧
        convert (.string text) .bool h = .ok (.bool b) h := by
  refine ⟨fun v w hv hequal => ?_, fun a b => ?_, fun a => ?_, fun b => ?_⟩
  · have hvw := (h.equal_iff v w).1 hequal
    have htext := hv.display_eq hvw
    refine ⟨hv.of_bisimilar hvw, htext, fun s => ⟨?_, ?_⟩, convert_alike hequal htext⟩
    · rw [add_string, add_string, htext]
    · rw [string_add, string_add, htext]
  · calc h.equal (.number a) (.number b) = true ↔ a.value = b.value := h.equal_number_iff a b
      _ ↔ h.display (.number a) = h.display (.number b) := Value.text_normalized_eq_iff.symm
  · have htag : (Value.string a.normalized.text).tag ≠ .number := by simp [Value.tag]
    refine ⟨a.normalized.text, a.normalized, convert_to_text (by simp [Value.tag]), ?_, ?_⟩
    · rw [convert_of_ne htag, Heap.display, Heap.displayWithin, Value.ofText?_normalized]
      rfl
    · exact (h.equal_number_iff a a.normalized).2 a.value_normalized.symm
  · refine ⟨_, convert_to_text (by simp [Value.tag]), ?_⟩
    cases b <;> rfl

/-- Two arrays that hold one number with three and with four places and zero without and with a sign, one that holds the
first of them twice, and one that holds both. -/
def twins : Heap :=
  ⟨#[#[.number ⟨false, 2500, 3, by decide, by decide⟩, .number .zero],
    #[.number ⟨false, 25000, 4, by decide, by decide⟩, .number Decimal.zero.neg],
    #[.array ⟨0⟩, .array ⟨0⟩], #[.array ⟨0⟩, .array ⟨1⟩]], #[], #[]⟩

theorem twins_have_one_text :
    Heap.Style.display.CycleFree twins (.array ⟨2⟩) ∧ twins.equal (.array ⟨2⟩) (.array ⟨3⟩) = true ∧
      twins.display (.array ⟨2⟩) = twins.display (.array ⟨3⟩) ∧ twins.display (.array ⟨3⟩) = "[[2.5, 0], [2.5, 0]]" := by
  have hfirst : twins.Plain (.array ⟨0⟩) := by
    refine .array (by decide) fun v hv => ?_
    have hv : v ∈ #[Value.number ⟨false, 2500, 3, by decide, by decide⟩, .number .zero] := hv
    obtain rfl | rfl : v = _ ∨ v = _ := by simpa using hv
    · exact .number _
    · exact .number _
  have hplain : twins.Plain (.array ⟨2⟩) := by
    refine .array (by decide) fun v hv => ?_
    have hv : v ∈ #[Value.array ⟨0⟩, .array ⟨0⟩] := hv
    obtain rfl : v = .array ⟨0⟩ := by simpa using hv
    exact hfirst
  have hequal : twins.equal (.array ⟨2⟩) (.array ⟨3⟩) = true := by decide
  obtain ⟨-, htext, -⟩ := (text_is_canonical twins).1 _ _ hplain.cycleFree hequal
  exact ⟨hplain.cycleFree, hequal, htext, by decide +kernel⟩

/-- With cycles it is otherwise: the second array holds the first, which holds itself. -/
example :
    let h : Heap := ⟨#[#[.array ⟨0⟩], #[.array ⟨0⟩]], #[], #[]⟩
    h.equal (.array ⟨0⟩) (.array ⟨1⟩) = true ∧ h.display (.array ⟨0⟩) = "[[...]]" ∧
      h.display (.array ⟨1⟩) = "[[[...]]]" := by
  decide

end Operation

end LineScript
