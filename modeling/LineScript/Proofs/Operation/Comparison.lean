import Mathlib.Data.String.Basic
import LineScript.Proofs.Heap.Equality
/-!
# The order of values

Numbers lie before each other by value and strings by their characters, and no other two values do. Which of two values
lies before the other is told by two operators that know nothing of each other, and each has a companion that holds of
equal values, too. All of them fit together, on every heap: one order, read from either side, whose ties are the equal
values.
-/

namespace LineScript

/-- The numbers of the characters of a string. -/
def codePoints (s : String) : List Nat :=
  s.toList.map Char.toNat

/-- The first character in which two strings differ decides between them; without one, the shorter is first. -/
theorem lt_iff_lex_codePoints (a b : String) : a < b ↔ List.Lex (· < ·) (codePoints a) (codePoints b) := by
  have hmap {a b : String} (hab : a < b) : codePoints a < codePoints b :=
    List.map_lt (fun _ _ hcd => UInt32.lt_iff_toNat_lt.1 (Char.lt_def.1 hcd)) (String.lt_iff.1 hab)
  rw [List.lex_lt]
  refine ⟨hmap, fun hcodes => ?_⟩
  rcases lt_trichotomy a b with hab | rfl | hba
  · exact hab
  · exact (lt_irrefl _ hcodes).elim
  · exact (lt_asymm hcodes (hmap hba)).elim

namespace Value

/-- Two numbers or two strings, of which the first is before the second. -/
inductive Precedes : Value → Value → Prop
  | number {a b : Decimal} (hvalue : a.value < b.value) : Precedes (.number a) (.number b)
  | string {a b : String} (hcodes : List.Lex (· < ·) (codePoints a) (codePoints b)) : Precedes (.string a) (.string b)

/-- Two values of which one is before the other, unless they are equal. -/
inductive Comparable : Value → Value → Prop
  | number (a b : Decimal) : Comparable (.number a) (.number b)
  | string (a b : String) : Comparable (.string a) (.string b)

variable {x y z : Value}

theorem less_iff : x.less y = true ↔ x.Precedes y := by
  constructor
  · intro hless
    unfold less at hless
    split at hless
    · exact .number (Decimal.lt_iff.1 hless)
    · exact .string ((lt_iff_lex_codePoints _ _).1 (of_decide_eq_true hless))
    · cases hless
  · intro hprecedes
    cases hprecedes with
    | number hvalue => exact Decimal.lt_iff.2 hvalue
    | string hcodes => exact decide_eq_true ((lt_iff_lex_codePoints _ _).2 hcodes)

/-- The two operators are written apart, but the one is the other read from behind. -/
theorem greater_eq_less (x y : Value) : x.greater y = y.less x := by
  cases x <;> cases y <;> rfl

namespace Precedes

theorem comparable (hxy : x.Precedes y) : x.Comparable y := by
  cases hxy with
  | number _ => exact .number _ _
  | string _ => exact .string _ _

theorem trans (hxy : x.Precedes y) (hyz : y.Precedes z) : x.Precedes z := by
  cases hxy with
  | number hvalue =>
      cases hyz with
      | number hvalue' => exact .number (hvalue.trans hvalue')
  | string hcodes =>
      cases hyz with
      | string hcodes' => exact .string (List.lex_trans Nat.lt_trans hcodes hcodes')

theorem irrefl (x : Value) : ¬ x.Precedes x := by
  intro hxx
  cases hxx with
  | number hvalue => exact lt_irrefl _ hvalue
  | string hcodes => exact List.lex_irrefl Nat.lt_irrefl _ hcodes

theorem asymm (hxy : x.Precedes y) : ¬ y.Precedes x := fun hyx =>
  irrefl x (hxy.trans hyx)

end Precedes

theorem Comparable.trichotomy (hxy : x.Comparable y) : x.Precedes y ∨ x.Agrees y ∨ y.Precedes x := by
  cases hxy with
  | number a b =>
      rcases lt_trichotomy a.value b.value with hlt | heq | hgt
      · exact .inl (.number hlt)
      · exact .inr (.inl (.number heq))
      · exact .inr (.inr (.number hgt))
  | string a b =>
      rcases lt_trichotomy a b with hlt | rfl | hgt
      · exact .inl (.string ((lt_iff_lex_codePoints a b).1 hlt))
      · exact .inr (.inl (.string a))
      · exact .inr (.inr (.string ((lt_iff_lex_codePoints b a).1 hgt)))

theorem Comparable.symm (hxy : x.Comparable y) : y.Comparable x := by
  cases hxy with
  | number a b => exact .number b a
  | string a b => exact .string b a

end Value

namespace Heap

variable {h : Heap} {x y z : Value}

/-- A number or a string is equal to what it agrees with at sight. -/
theorem Bisimilar.agrees (hxy : h.Bisimilar x y) (hcomparable : x.Comparable z) : x.Agrees y := by
  cases hxy.matches with
  | plain hagrees => exact hagrees
  | array _ _ => cases hcomparable

theorem precedes_of_bisimilar_of_precedes (hxy : h.Bisimilar x y) (hyz : y.Precedes z) : x.Precedes z := by
  cases hxy.symm.agrees hyz.comparable with
  | number hvalue =>
      cases hyz with
      | number hlt => exact .number (hvalue ▸ hlt)
  | string s => exact hyz
  | _ => cases hyz

theorem precedes_of_precedes_of_bisimilar (hxy : x.Precedes y) (hyz : h.Bisimilar y z) : x.Precedes z := by
  cases hyz.agrees hxy.comparable.symm with
  | number hvalue =>
      cases hxy with
      | number hlt => exact .number (hvalue ▸ hlt)
  | string s => exact hxy
  | _ => cases hxy

theorem not_bisimilar_of_precedes (hxy : x.Precedes y) : ¬ h.Bisimilar x y := fun hequal =>
  Value.Precedes.irrefl y (precedes_of_bisimilar_of_precedes hequal.symm hxy)

/-! ### At most -/

/-- The first value is before the second or equal to it. -/
def AtMost (h : Heap) (x y : Value) : Prop :=
  x.Precedes y ∨ h.Bisimilar x y

theorem AtMost.refl (h : Heap) (x : Value) : h.AtMost x x :=
  .inr (.refl h x)

theorem AtMost.trans (hxy : h.AtMost x y) (hyz : h.AtMost y z) : h.AtMost x z := by
  rcases hxy with hxy | hxy <;> rcases hyz with hyz | hyz
  · exact .inl (hxy.trans hyz)
  · exact .inl (precedes_of_precedes_of_bisimilar hxy hyz)
  · exact .inl (precedes_of_bisimilar_of_precedes hxy hyz)
  · exact .inr (hxy.trans hyz)

theorem AtMost.antisymm (hxy : h.AtMost x y) (hyx : h.AtMost y x) : h.Bisimilar x y := by
  rcases hxy with hxy | hxy
  · rcases hyx with hyx | hyx
    · exact (hxy.asymm hyx).elim
    · exact hyx.symm
  · exact hxy

end Heap

/-! ### The operators -/

namespace Operation

/-- The operators that compare two values. -/
def comparisons : List (Value → Value → Action Heap Value) :=
  [equals, notEquals, less, lessEquals, greater, greaterEquals]

/-- A comparison of the two values answers that it holds, and leaves the heap alone. -/
def Holds (comparison : Value → Value → Action Heap Value) (h : Heap) (x y : Value) : Prop :=
  comparison x y h = .ok (.bool true) h

variable (h : Heap) (x y : Value)

theorem comparison_answers {comparison : Value → Value → Action Heap Value} (hcomparison : comparison ∈ comparisons) :
    ∃ answer, comparison x y h = .ok (.bool answer) h := by
  simp only [comparisons, List.mem_cons, List.not_mem_nil, or_false] at hcomparison
  rcases hcomparison with rfl | rfl | rfl | rfl | rfl | rfl
  all_goals exact ⟨_, rfl⟩

theorem holds_iff {comparison : Value → Value → Action Heap Value} {answer : Bool}
    (hanswer : comparison x y h = .ok (.bool answer) h) : Holds comparison h x y ↔ answer = true := by
  rw [Holds, hanswer]
  constructor
  · intro hok
    cases hok
    rfl
  · rintro rfl
    rfl

theorem holds_equals : Holds equals h x y ↔ h.Bisimilar x y :=
  (holds_iff h x y rfl).trans (h.equal_iff x y)

theorem holds_notEquals : Holds notEquals h x y ↔ ¬ h.Bisimilar x y := by
  rw [holds_iff h x y rfl, Bool.not_eq_true', ← Bool.not_eq_true, h.equal_iff]

theorem holds_less : Holds less h x y ↔ x.Precedes y :=
  (holds_iff h x y rfl).trans Value.less_iff

theorem holds_greater : Holds greater h x y ↔ y.Precedes x := by
  rw [holds_iff h x y rfl, Value.greater_eq_less, Value.less_iff]

theorem holds_lessEquals : Holds lessEquals h x y ↔ h.AtMost x y := by
  rw [holds_iff h x y rfl, Bool.or_eq_true, Value.less_iff, h.equal_iff, Heap.AtMost]

theorem holds_greaterEquals : Holds greaterEquals h x y ↔ h.AtMost y x := by
  rw [holds_iff h x y rfl, Bool.or_eq_true, Value.greater_eq_less, Value.less_iff, h.equal_iff, Heap.AtMost]
  exact or_congr_right ⟨.symm, .symm⟩

/-- **One order.** Every comparison of two values answers. Less and greater are one order read from either side, and so
are their companions, which hold of the values that are less or greater and of the equal ones. Of two numbers or two
strings one is less, or both are equal, and never two of these; of any other two values none is less. At most is
reflexive and transitive, and values that are at most each other are equal. Less is transitive and cannot tell equal
values apart. Numbers are compared by value, and strings by the first character in which they differ. -/
theorem comparisons_agree (h : Heap) :
    (∀ comparison ∈ comparisons, ∀ x y, ∃ answer, comparison x y h = .ok (.bool answer) h) ∧
      (∀ x y, (Holds less h x y ↔ Holds greater h y x) ∧ (Holds lessEquals h x y ↔ Holds greaterEquals h y x) ∧
        (Holds lessEquals h x y ↔ Holds less h x y ∨ Holds equals h x y) ∧
        (Holds notEquals h x y ↔ ¬ Holds equals h x y)) ∧
      (∀ x y, x.Comparable y →
        Holds less h x y ∧ ¬ Holds equals h x y ∧ ¬ Holds greater h x y ∨
        ¬ Holds less h x y ∧ Holds equals h x y ∧ ¬ Holds greater h x y ∨
        ¬ Holds less h x y ∧ ¬ Holds equals h x y ∧ Holds greater h x y) ∧
      (∀ x y, ¬ x.Comparable y → ¬ Holds less h x y ∧ ¬ Holds greater h x y) ∧
      (∀ x, Holds lessEquals h x x) ∧
      (∀ x y z, Holds lessEquals h x y → Holds lessEquals h y z → Holds lessEquals h x z) ∧
      (∀ x y, Holds lessEquals h x y → Holds lessEquals h y x → Holds equals h x y) ∧
      (∀ x y z, Holds less h x y → Holds less h y z → Holds less h x z) ∧
      (∀ x y z, Holds equals h x y → Holds less h y z → Holds less h x z) ∧
      (∀ x y z, Holds less h x y → Holds equals h y z → Holds less h x z) ∧
      (∀ a b, Holds less h (.number a) (.number b) ↔ a.value < b.value) ∧
      ∀ a b, Holds less h (.string a) (.string b) ↔ List.Lex (· < ·) (codePoints a) (codePoints b) := by
  simp only [holds_equals, holds_notEquals, holds_less, holds_greater, holds_lessEquals, holds_greaterEquals]
  refine ⟨fun comparison hcomparison x y => comparison_answers h x y hcomparison,
    fun x y => ⟨trivial, trivial, .rfl, trivial⟩, fun x y hxy => ?_, fun x y hxy => ?_, .refl h, fun x y z => .trans,
    fun x y => Heap.AtMost.antisymm, fun x y z => .trans, fun x y z => Heap.precedes_of_bisimilar_of_precedes,
    fun x y z => Heap.precedes_of_precedes_of_bisimilar, fun a b => ?_, fun a b => ?_⟩
  · rcases hxy.trichotomy with hlt | hagrees | hgt
    · exact .inl ⟨hlt, Heap.not_bisimilar_of_precedes hlt, hlt.asymm⟩
    · have hequal : h.Bisimilar x y := Heap.Matches.bisimilar (.plain hagrees)
      exact .inr (.inl ⟨fun hlt => Heap.not_bisimilar_of_precedes hlt hequal, hequal,
        fun hgt => Heap.not_bisimilar_of_precedes hgt hequal.symm⟩)
    · exact .inr (.inr ⟨hgt.asymm, fun hequal => Heap.not_bisimilar_of_precedes hgt hequal.symm, hgt⟩)
  · exact ⟨fun hlt => hxy hlt.comparable, fun hgt => hxy hgt.comparable.symm⟩
  · exact ⟨fun | .number hvalue => hvalue, .number⟩
  · exact ⟨fun | .string hcodes => hcodes, .string⟩

/-- Two arrays, each of which is the only item of the other, are at most each other. -/
example : lessEquals (.array ⟨0⟩) (.array ⟨1⟩) ⟨#[#[.array ⟨1⟩], #[.array ⟨0⟩]], #[], #[]⟩ =
    .ok (.bool true) ⟨#[#[.array ⟨1⟩], #[.array ⟨0⟩]], #[], #[]⟩ := by
  rfl

end Operation

end LineScript
