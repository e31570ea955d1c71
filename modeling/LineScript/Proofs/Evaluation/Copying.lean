import LineScript.Evaluation
import LineScript.Proofs.Heap.Equality
import LineScript.Proofs.Heap.Evolution
/-!
# Nodes that make a copy of a value

Literals, negated numbers and lists of such nodes only add arrays to the heap. What they make of a piece of data is
equal to it from then on, in every heap that keeps the arrays made so far.
-/

namespace LineScript

namespace Heap

theorem items_newArray (h : Heap) (items : Array Value) : (h.newArray items).2.items ⟨h.arrays.size⟩ = items := by
  show (h.arrays.push items)[h.arrays.size]?.getD #[] = items
  rw [Array.getElem?_push_size, Option.getD_some]

/-- Arrays with the same number of items that are bisimilar one by one. -/
theorem bisimilar_of_forall₂ {h : Heap} {a b : ArrayId}
    (hitems : List.Forall₂ h.Bisimilar (h.items a).toList (h.items b).toList) : h.Bisimilar (.array a) (.array b) := by
  obtain ⟨hlength, hget⟩ := List.forall₂_iff_get.1 hitems
  exact (Matches.array hlength fun i ha hb => hget i ha hb).bisimilar

end Heap

namespace Eval

variable {h : Heap} {depth : Nat}

/-- Wherever the arrays of a heap are kept, the node adds a value to them that is equal to this one from then on. Its
evaluation nests no deeper than the depth of lists in it allows. -/
def Copies (h : Heap) (depth : Nat) (n : Node) (v : Value) : Prop :=
  ∀ (scope : Scope) (m : Machine), h.Extends m.heap → ∃ copy made,
    (∀ fuel, depth + 2 ≤ fuel → execute fuel (.node scope n) m = .ok copy { m with heap := made }) ∧
      m.heap.Extends made ∧ ∀ later, made.Extends later → later.Bisimilar v copy

theorem copies_literal {literal : Literal} {v : Value} (hagrees : v.Agrees literal.value) (p : Position) :
    Copies h depth (.literal p literal) v := by
  intro scope m _
  refine ⟨literal.value, m.heap, fun fuel hfuel => ?_, .refl _, fun later _ => (Heap.Matches.plain hagrees).bisimilar⟩
  obtain ⟨fuel, rfl⟩ : ∃ rest, fuel = rest + 1 := ⟨fuel - 1, by omega⟩
  rfl

theorem copies_negated {a n : Decimal} (hvalue : n.value = a.neg.value) (p q : Position) :
    Copies h depth (.unary p .negate (.literal q (.number a))) (.number n) := by
  intro scope m _
  refine ⟨.number a.neg, m.heap, fun fuel hfuel => ?_, .refl _,
    fun later _ => (Heap.Matches.plain (.number hvalue)).bisimilar⟩
  obtain ⟨fuel, rfl⟩ : ∃ rest, fuel = rest + 2 := ⟨fuel - 2, by omega⟩
  rfl

theorem values_copies {nodes : List Node} {vs : List Value} (hnodes : List.Forall₂ (Copies h depth) nodes vs)
    (scope : Scope) (m : Machine) (hm : h.Extends m.heap) :
    ∃ copies made,
      (∀ fuel, depth + 2 ≤ fuel → values (execute fuel) scope nodes m = .ok copies { m with heap := made }) ∧
        m.heap.Extends made ∧ ∀ later, made.Extends later → List.Forall₂ later.Bisimilar vs copies := by
  induction hnodes generalizing m with
  | nil => exact ⟨[], m.heap, fun _ _ => rfl, .refl _, fun _ _ => .nil⟩
  | cons hnode _ ih =>
      obtain ⟨copy, made, hrun, hextends, hcopy⟩ := hnode scope m hm
      obtain ⟨copies, made', hrest, hextends', hcopies⟩ := ih { m with heap := made } (hm.trans hextends)
      refine ⟨copy :: copies, made', fun fuel hfuel => ?_, hextends.trans hextends', fun later hlater => ?_⟩
      · rw [values, Action.bind_of_ok (hrun fuel hfuel), Action.bind_of_ok (hrest fuel hfuel)]
        rfl
      · exact .cons (hcopy later (hextends'.trans hlater)) (hcopies later hlater)

/-- A list of nodes that copy the items of an array makes an array of the copies. -/
theorem copies_list {nodes : List Node} {id : ArrayId} (hid : id.index < h.arrays.size)
    (hnodes : List.Forall₂ (Copies h depth) nodes (h.items id).toList) (p : Position) :
    Copies h (depth + 1) (.list p nodes) (.array id) := by
  intro scope m hm
  obtain ⟨copies, made, hrun, hextends, hcopies⟩ := values_copies hnodes scope m hm
  have hnew := made.extends_newArray copies.toArray
  refine ⟨.array ⟨made.arrays.size⟩, (made.newArray copies.toArray).2, fun fuel hfuel => ?_, hextends.trans hnew,
    fun later hlater => ?_⟩
  · obtain ⟨fuel, rfl⟩ : ∃ rest, fuel = rest + 1 := ⟨fuel - 1, by omega⟩
    show located p (values (execute fuel) scope nodes >>= fun vs => onHeap (Operation.makeArray vs.toArray)) m = _
    rw [located, Action.bind_of_ok (hrun fuel (by omega))]
    rfl
  · obtain ⟨-, hitems⟩ := ((hm.trans hextends).trans (hnew.trans hlater)) id hid
    obtain ⟨-, hcopied⟩ := hlater ⟨made.arrays.size⟩ (by simp [Heap.newArray])
    apply Heap.bisimilar_of_forall₂
    rw [hitems, hcopied, Heap.items_newArray]
    exact hcopies later (hnew.trans hlater)

end Eval

end LineScript
