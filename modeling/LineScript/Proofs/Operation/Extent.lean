import LineScript.Proofs.Evaluation.Evolution
import LineScript.Proofs.Heap.Lengths
import LineScript.Proofs.Operation.Conversion
/-!
# How long a converted text is

No operator makes a string that is longer than the limit, but a conversion does not look at the length of the text it
makes. That of a number or a truth value is short. That of an array is made of those of its items, which may be shared
and nested, and can be far longer than any array or string there is. Where the text is within the limit, it is the one
that joining the value to an empty string makes, and elsewhere the operator refuses what the conversion does.
-/

namespace LineScript

theorem length_intercalate (texts : List String) :
    (", ".intercalate texts).length = (texts.map String.length).sum + 2 * (texts.length - 1) := by
  induction texts with
  | nil => rfl
  | cons first rest ih =>
      cases rest with
      | nil => simp
      | cons second rest =>
          have hcomma : ", ".length = 2 := by decide
          rw [String.intercalate_cons_cons, String.length_append, String.length_append, ih, hcomma]
          simp only [List.map_cons, List.sum_cons, List.length_cons]
          omega

theorem length_enclosed (texts : List String) :
    ("[" ++ ", ".intercalate texts ++ "]").length =
      (texts.map String.length).sum + 2 * ((texts.map String.length).length - 1) + 2 := by
  have hopening : "[".length = 1 := by decide
  have hclosing : "]".length = 1 := by decide
  rw [String.length_append, String.length_append, length_intercalate, List.length_map, hopening, hclosing]
  omega

namespace Heap

variable {h : Heap} {stack : List Container} {v : Value}

/-- How many characters a value takes inside the containers on a stack: those of its text if nothing is inside it, five
if it is an array that is only marked, and else those of its items, two for each comma and two for the brackets. -/
inductive Extent (h : Heap) : List Container → Value → Nat → Prop
  | whole {stack : List Container} {v : Value} {text : String} (hview : Style.display.view h v = .whole text) :
      Extent h stack v text.length
  | marked {stack : List Container} {id : ArrayId} (hid : .array id ∈ stack) : Extent h stack (.array id) 5
  | items {stack : List Container} {id : ArrayId} {extents : List Nat} (hid : .array id ∉ stack)
      (hsize : extents.length = (h.items id).size)
      (hitems : ∀ i (hi : i < (h.items id).size), Extent h (.array id :: stack) (h.items id)[i] extents[i]) :
      Extent h stack (.array id) (extents.sum + 2 * (extents.length - 1) + 2)

theorem Extent.unique {m n : Nat} (hm : h.Extent stack v m) (hn : h.Extent stack v n) : m = n := by
  induction hm generalizing n with
  | whole hview =>
      cases hn with
      | whole hview' =>
          rw [hview] at hview'
          cases hview'
          rfl
      | marked _ | items _ _ _ => cases hview
  | marked hid =>
      cases hn with
      | whole hview => cases hview
      | marked _ => rfl
      | items hid' _ _ => exact (hid' hid).elim
  | @items stack id extents hid hsize hitems ih =>
      cases hn with
      | whole hview => cases hview
      | marked hid' => exact (hid hid').elim
      | @items _ _ extents' _ hsize' hitems' =>
          have heq : extents = extents' := by
            refine List.ext_getElem (hsize.trans hsize'.symm) fun i hi hi' => ?_
            exact ih i (hsize ▸ hi) (hitems' i (hsize ▸ hi))
          rw [heq]

theorem extent_shown (h : Heap) (stack : List Container) (v : Value) :
    h.Extent stack v (Style.display.shown h stack v).length := by
  induction hcard : (Style.display.unvisited h stack).card using Nat.strong_induction_on generalizing stack v with
  | _ card ih =>
      subst hcard
      cases hview : Style.display.view h v with
      | whole text =>
          rw [Style.shown, Style.within_of_whole hview]
          exact .whole hview
      | parts c parts =>
          obtain ⟨id, rfl, rfl, rfl⟩ | ⟨hdebug, -⟩ := Style.view_eq_parts hview
          · by_cases hid : .array id ∈ stack
            · have hmarker : "[...]".length = 5 := by decide
              rw [Style.shown, Style.within_of_mem hview hid, Container.marker, hmarker]
              exact .marked hid
            · rw [Style.shown_array hid, length_enclosed]
              refine .items hid (by simp) fun i hi => ?_
              rw [List.getElem_map, List.getElem_map, Array.getElem_toList]
              exact ih _ (Style.card_unvisited_item hid hi) _ _ rfl
          · cases hdebug

theorem extent_iff (h : Heap) (v : Value) (n : Nat) : h.Extent [] v n ↔ (h.display v).length = n := by
  have htext : h.Extent [] v (Style.display.text h v).length := by
    rw [← Style.shown_nil]
    exact h.extent_shown [] v
  exact ⟨htext.unique, fun heq => heq ▸ htext⟩

/-- What is neither in the heap nor too long itself has a text that is not too long. -/
theorem fits_display (hv : v.Fits) (harray : v.tag ≠ .array) (hobject : v.tag ≠ .object)
    (hfunction : v.tag ≠ .function) : (Value.string (h.display v)).Fits := by
  cases v with
  | none =>
      show "none".length ≤ maxLength
      decide
  | bool b =>
      show (if b then "true" else "false").length ≤ maxLength
      cases b <;> decide
  | number n =>
      show (String.ofList n.normalized.chars).length ≤ maxLength
      rw [String.length_ofList]
      exact Nat.le_trans n.normalized.length_chars_le (by decide)
  | string s => exact hv
  | array id => exact (harray rfl).elim
  | object id => exact (hobject rfl).elim
  | function id => exact (hfunction rfl).elim

end Heap

namespace Operation

theorem convert_to_string (h : Heap) (v : Value) : convert v .string h = .ok (.string (h.display v)) h := by
  by_cases htag : v.tag = .string
  · cases v with
    | string s => exact convert_self h (.string s)
    | _ => cases htag
  · exact convert_to_text htag

theorem joined_eq (text : String) (h : Heap) :
    joined text h =
      if (Value.string text).Fits then .ok (.string text) h else .error (.failure (.ofCause .lengthLimit)) h := by
  show joined text h = if text.length ≤ maxLength then _ else _
  unfold joined checkLength
  split <;> rfl

theorem native_convert_to_string (run : Work → Eval Value) (m : Machine) (v : Value) :
    Eval.native run (.convertTo .string) [v] m = .ok (.string (m.heap.display v)) m :=
  Eval.onHeap_of_ok ((Action.bind_of_ok (s := m.heap) rfl).trans (convert_to_string m.heap v))

/-- **The length of a converted text.** A conversion to a string never fails, and it does not look at how long the text
is that it makes. So the string is within the limit just if the text is, which always holds of what is not kept in the
heap and is within the limit itself, but not of arrays, and neither of objects and functions with long names. Joining an
empty string to the value makes the same text, and is refused if it is not within the limit. -/
theorem converted_text_fits_iff (h : Heap) (v : Value) :
    ∃ text, convert v .string h = .ok (.string text) h ∧
      (∀ run m, m.heap = h → Eval.native run (.convertTo .string) [v] m = .ok (.string text) m) ∧
      (∀ n, h.Extent [] v n ↔ text.length = n) ∧
      ((Value.string text).Fits ↔ ∃ n, h.Extent [] v n ∧ n ≤ maxLength) ∧
      (v.Fits → v.tag ≠ .array → v.tag ≠ .object → v.tag ≠ .function → (Value.string text).Fits) ∧
      add v (.string "") h =
        if (Value.string text).Fits then .ok (.string text) h else .error (.failure (.ofCause .lengthLimit)) h := by
  refine ⟨h.display v, convert_to_string h v, fun run m hm => ?_, h.extent_iff v, ?_, Heap.fits_display, ?_⟩
  · subst hm
    exact native_convert_to_string run m v
  · constructor
    · exact fun hfits => ⟨_, (h.extent_iff v _).2 rfl, hfits⟩
    · rintro ⟨n, hextent, hn⟩
      obtain rfl := (h.extent_iff v n).1 hextent
      exact hn
  · rw [add_string, String.append_empty, joined_eq]

/-- The heap with an array whose only item is a string. -/
def holding (s : String) : Heap :=
  ⟨#[#[.string s]], #[], #[]⟩

theorem fits_holding {s : String} (hs : (Value.string s).Fits) : (holding s).Fits := by
  refine ⟨fun items hitems => ?_, fun o ho => (Array.not_mem_empty o ho).elim⟩
  obtain rfl := Array.mem_singleton.1 hitems
  refine ⟨Nat.le_of_ble_eq_true rfl, fun v hv => ?_⟩
  obtain rfl := Array.mem_singleton.1 hv
  exact hs

theorem length_display_holding (s : String) : ((holding s).display (.array ⟨0⟩)).length = s.length + 2 := by
  have htext : (holding s).display (.array ⟨0⟩) = "[" ++ ", ".intercalate [s] ++ "]" := by
    rw [String.intercalate_singleton]
    rfl
  rw [htext, length_enclosed]
  rfl

/-- A string that is as long as strings may be. -/
def longest : String :=
  String.ofList (List.replicate maxLength 'a')

theorem length_longest : longest.length = maxLength := by
  rw [longest, String.length_ofList, List.length_replicate]

/-- An array with one string, which is as long as strings may be, is converted to a string that is longer. -/
theorem converted_array_exceeds_limit :
    (holding longest).Fits ∧ (Value.array ⟨0⟩).Fits ∧
      ∃ text, convert (.array ⟨0⟩) .string (holding longest) = .ok (.string text) (holding longest) ∧
        text.length = maxLength + 2 ∧ ¬ (Value.string text).Fits := by
  have hlong : ((holding longest).display (.array ⟨0⟩)).length = maxLength + 2 :=
    (length_display_holding longest).trans (congrArg (· + 2) length_longest)
  refine ⟨fits_holding (Nat.le_of_eq length_longest), Value.fits_of_length rfl, _, convert_to_string _ _, hlong,
    fun hfits => ?_⟩
  have hle : ((holding longest).display (.array ⟨0⟩)).length ≤ maxLength := hfits
  omega

end Operation

end LineScript
