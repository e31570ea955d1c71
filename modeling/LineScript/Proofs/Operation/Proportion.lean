import Mathlib.Data.Nat.Find
import LineScript.Operation.Sequence
import LineScript.Proofs.Operation.Repetition
/-!
# Lengths of repetitions

A repetition is as long as the length of the sequence times the count, to the nearest whole number, with one exception:
the product of the length and the fraction of the count is rounded to the places of a number before it is rounded to an
integer, so a product that lies below a half by no more than half its last place counts as the half. Such a repetition
is one too long, and none is too short.
-/

namespace LineScript

/-! ### The places of the nearest number -/

namespace Decimal

/-- How many places a number nearest to `x` has room for. -/
def keptPlaces (x : ℚ) : ℕ :=
  Nat.findGreatest (fun places => |x| * 10 ^ places < bound - 1 / 2) maxScale

section

variable {a : Decimal} {x : ℚ}

theorem keptPlaces_eq {places : ℕ} {n : ℤ} (hnear : IsNearest (x * 10 ^ places) n) (hfits : n.natAbs < bound)
    (hle : places ≤ maxScale) (hroom : places = maxScale ∨ bound - 1 / 2 ≤ |x| * 10 ^ (places + 1)) :
    keptPlaces x = places := by
  rw [hnear.natAbs_lt_iff even_bound, abs_mul, abs_of_pos (by positivity : (0 : ℚ) < 10 ^ places)] at hfits
  rw [keptPlaces, Nat.findGreatest_eq_iff]
  refine ⟨hle, fun _ => hfits, fun more hmore hmax => not_lt.2 ?_⟩
  rcases hroom with rfl | hroom
  · exact absurd hmax (not_le.2 hmore)
  · have hpow : (10 : ℚ) ^ (places + 1) ≤ 10 ^ more := pow_le_pow_right₀ (by norm_num) hmore
    exact hroom.trans (mul_le_mul_of_nonneg_left hpow (abs_nonneg x))

/-- A number keeps all its own places. -/
theorem scale_le_keptPlaces (a : Decimal) : a.scale ≤ keptPlaces a.value :=
  Nat.le_findGreatest a.scale_le (a.abs_value_mul_lt le_rfl)

/-- On the places that are kept, the nearest number is the nearest integer. -/
theorem Nearest.exists_isNearest (h : a.Nearest x) :
    ∃ n : ℤ, a.value = n / 10 ^ keptPlaces x ∧ IsNearest (x * 10 ^ keptPlaces x) n := by
  rcases h with rfl | @⟨places, n, hvalue, hnear, hfits, hle, hroom⟩
  · have hinteger : a.value * 10 ^ keptPlaces a.value =
        (a.coefficient * 10 ^ (keptPlaces a.value - a.scale) : ℤ) := by
      conv_lhs => rw [← Nat.sub_add_cancel a.scale_le_keptPlaces, pow_add, mul_comm ((10 : ℚ) ^ _), ← mul_assoc]
      rw [a.value_eq_div, div_mul_cancel₀ _ (by positivity)]
      push_cast
      rfl
    refine ⟨_, ?_, hinteger ▸ isNearest_intCast _⟩
    rw [← hinteger, mul_div_cancel_right₀ _ (by positivity)]
  · rw [keptPlaces_eq hnear hfits hle hroom]
    exact ⟨n, hvalue, hnear⟩

end

/-! ### Rounding twice -/

/-- On the places that are kept of it, `x` is rounded up to the half above it. -/
def ReachesHalf (x : ℚ) : Prop :=
  (⌊x + 1 / 2⌋ + 1 / 2 - x) * 10 ^ keptPlaces x ≤ 1 / 2

instance (x : ℚ) : Decidable (ReachesHalf x) :=
  inferInstanceAs (Decidable (_ ≤ _))

/-- A half is an even number of places, so a tie is rounded to it. -/
theorem exists_even_eq_half (m : ℤ) {places : ℕ} (hplaces : 2 ≤ places) :
    ∃ n : ℤ, Even n ∧ (n : ℚ) = (m + 1 / 2) * 10 ^ places := by
  obtain ⟨more, rfl⟩ := Nat.exists_eq_add_of_le' hplaces
  refine ⟨(2 * m + 1) * 50 * 10 ^ more, ⟨(2 * m + 1) * 25 * 10 ^ more, by ring⟩, ?_⟩
  push_cast
  ring

section

variable {a : Decimal} {x : ℚ}

theorem Nearest.value_of_reachesHalf (h : a.Nearest x) (hplaces : 2 ≤ keptPlaces x) (hreaches : ReachesHalf x) :
    a.value = ⌊x + 1 / 2⌋ + 1 / 2 := by
  obtain ⟨n, hvalue, hnear⟩ := h.exists_isNearest
  obtain ⟨half, heven, hhalf⟩ := exists_even_eq_half ⌊x + 1 / 2⌋ hplaces
  have hpow : (0 : ℚ) < 10 ^ keptPlaces x := by positivity
  have habove : x + 1 / 2 < ⌊x + 1 / 2⌋ + 1 := Int.lt_floor_add_one _
  have hdistance : |x * 10 ^ keptPlaces x - half| ≤ 1 / 2 := by
    have hneg : x * 10 ^ keptPlaces x - (⌊x + 1 / 2⌋ + 1 / 2) * 10 ^ keptPlaces x ≤ 0 := by
      rw [← sub_mul]
      exact mul_nonpos_of_nonpos_of_nonneg (by linarith) hpow.le
    rw [hhalf, abs_of_nonpos hneg, neg_sub, ← sub_mul]
    exact hreaches
  have heq : n = half := hnear.eq ⟨hdistance, fun _ => heven⟩
  rw [hvalue, heq, hhalf, mul_div_cancel_right₀ _ hpow.ne']

/-- Between the halves around an integer, the nearest number does not leave the lower one and does not reach the upper
one. -/
theorem Nearest.between_of_not_reachesHalf (h : a.Nearest x) (hplaces : 2 ≤ keptPlaces x)
    (hreaches : ¬ ReachesHalf x) : (⌊x + 1 / 2⌋ - 1 / 2 : ℚ) ≤ a.value ∧ a.value < ⌊x + 1 / 2⌋ + 1 / 2 := by
  obtain ⟨n, hvalue, hnear⟩ := h.exists_isNearest
  obtain ⟨half, -, hhalf⟩ := exists_even_eq_half (⌊x + 1 / 2⌋ - 1) hplaces
  have hpow : (0 : ℚ) < 10 ^ keptPlaces x := by positivity
  have hbelow : ⌊x + 1 / 2⌋ ≤ x + 1 / 2 := Int.floor_le _
  have hlower : half ≤ n := by
    refine (isNearest_intCast _).le hnear ?_
    rw [hhalf]
    push_cast
    exact mul_le_mul_of_nonneg_right (by linarith) hpow.le
  rw [hvalue, le_div_iff₀ hpow, div_lt_iff₀ hpow]
  constructor
  · calc (⌊x + 1 / 2⌋ - 1 / 2 : ℚ) * 10 ^ keptPlaces x
      _ = (half : ℚ) := by rw [hhalf]; push_cast; ring
      _ ≤ n := by exact_mod_cast hlower
  · rw [ReachesHalf, not_le, sub_mul] at hreaches
    linarith [(abs_le.1 hnear.near).1]

/-- Rounded once more, the nearest number is the integer nearest to `x`, or one more if `x` reaches the half. -/
theorem Nearest.floor_eq (h : a.Nearest x) (hplaces : 2 ≤ keptPlaces x) :
    ⌊a.value + 1 / 2⌋ = ⌊x + 1 / 2⌋ + if ReachesHalf x then 1 else 0 := by
  by_cases hreaches : ReachesHalf x
  · rw [if_pos hreaches, h.value_of_reachesHalf hplaces hreaches, add_assoc, add_halves, ← Int.cast_one, ← Int.cast_add,
      Int.floor_intCast]
  · obtain ⟨hlower, hupper⟩ := h.between_of_not_reachesHalf hplaces hreaches
    rw [if_neg hreaches, add_zero, Int.floor_eq_iff]
    constructor <;> linarith

/-- A number itself is rounded only once. -/
theorem not_reachesHalf_value (hplaces : 2 ≤ keptPlaces a.value) : ¬ ReachesHalf a.value := by
  intro hreaches
  have hfloor := Nearest.floor_eq (.exact rfl : a.Nearest a.value) hplaces
  rw [if_pos hreaches] at hfloor
  omega

end

end Decimal

/-! ### Lengths -/

theorem Sequence.length_copied {s : Sequence} (copies : ℕ) {tail : ℕ} (htail : tail ≤ s.length) :
    (s.copied copies tail).length = copies * s.length + tail := by
  rw [← Sequence.length_values, values_copied, List.length_append, List.length_flatten, List.map_replicate,
    List.sum_replicate, List.length_take, s.length_values, min_eq_left htail]
  rfl

namespace Operation

open Decimal

/-- A part of a length has so many places that a half is one of them. -/
theorem two_le_keptPlaces {length : ℕ} {fraction : ℚ} (hlength : length < wordBound) (hnonneg : 0 ≤ fraction)
    (hle : fraction ≤ 1) : 2 ≤ keptPlaces (length * fraction) := by
  refine Nat.le_findGreatest (by decide) ?_
  have hword : (length : ℚ) < 2 ^ 63 := by exact_mod_cast hlength
  have hpart : length * fraction ≤ length := mul_le_of_le_one_right (Nat.cast_nonneg _) hle
  rw [abs_of_nonneg (mul_nonneg (Nat.cast_nonneg _) hnonneg)]
  calc (length * fraction * 10 ^ 2 : ℚ) ≤ (2 : ℚ) ^ 63 * 10 ^ 2 := by linarith
    _ < bound - 1 / 2 := by norm_num [bound]

/-- A count that is not negative is as many whole copies and its fraction. -/
theorem mul_eq_copies_add (length : ℕ) (count : ℚ) :
    length * |count| = (copies count * length : ℕ) + length * Int.fract |count| := by
  have hcopies : ((copies count : ℕ) : ℚ) = ⌊|count|⌋ := by
    exact_mod_cast Int.toNat_of_nonneg (Int.floor_nonneg.2 (abs_nonneg count))
  rw [Nat.cast_mul, hcopies, Int.fract]
  ring

theorem IsTail.cast_eq {length tail : ℕ} {count : ℚ} (hlength : length < wordBound) (h : IsTail length count tail) :
    (tail : ℤ) = ⌊length * Int.fract count + 1 / 2⌋ + if ReachesHalf (length * Int.fract count) then 1 else 0 := by
  obtain ⟨fraction, product, hfraction, hmul, htail⟩ := h
  have hproduct := (rounded_mul? _ _).nearest_of_eq_some hmul
  rw [hfraction, value_ofNat (hlength.trans (by decide))] at hproduct
  rw [htail, hproduct.floor_eq (two_le_keptPlaces hlength (Int.fract_nonneg _) (Int.fract_lt_one _).le)]

theorem Repeating.length_eq {s r : Sequence} {count : ℚ} (hlength : s.length < wordBound)
    (h : Repeating s count (some r)) :
    (r.length : ℤ) = ⌊s.length * |count| + 1 / 2⌋ +
      if ReachesHalf (s.length * Int.fract |count|) then 1 else 0 := by
  cases h with
  | empty hempty =>
      have hzero : (s.length : ℚ) * |count| = 0 ∧ s.length * Int.fract |count| = (ofNat 0).value := by
        rw [value_ofNat (by decide)]
        rcases hempty with rfl | hnone
        · simp
        · simp [hnone]
      have hplaces := two_le_keptPlaces hlength (Int.fract_nonneg |count|) (Int.fract_lt_one |count|).le
      rw [hzero.2] at hplaces ⊢
      rw [← s.cleared.length_values, s.values_cleared, hzero.1, if_neg (not_reachesHalf_value hplaces)]
      norm_num
  | copied _ _ htail hle _ =>
      rw [Sequence.length_copied _ (by rwa [length_turned]), length_turned, mul_eq_copies_add, Nat.cast_add,
        htail.cast_eq hlength, add_assoc, Int.floor_natCast_add, add_assoc]

theorem sequence?_of_ofSequence {r : Sequence} {h h' : Heap} {w : Value} (hdone : ofSequence r h = .ok w h') :
    h'.sequence? w = some r := by
  cases r with
  | text s =>
      cases hdone
      rfl
  | items xs =>
      cases hdone
      simp [Heap.sequence?, Heap.items]

/-- **Lengths of repetitions.** A repetition has as many places as the count says, with a half rounded away from zero,
unless the product of the length and the fraction of the count reaches a half only by being rounded: then it has one
more. A product that is itself a number does not. -/
theorem length_of_repetition {h h' : Heap} {v w : Value} {s : Sequence} {n : Decimal} (hs : h.sequence? v = some s)
    (hlength : s.length < wordBound) (hdone : repetition v (.number n) h = .ok w h') :
    ∃ r : Sequence, h'.sequence? w = some r ∧
      (¬ ReachesHalf (s.length * Int.fract |n.value|) ↔ (r.length : ℤ) = ⌊s.length * |n.value| + 1 / 2⌋) ∧
      (ReachesHalf (s.length * Int.fract |n.value|) ↔ (r.length : ℤ) = ⌊s.length * |n.value| + 1 / 2⌋ + 1) ∧
      ∀ product : Decimal, product.value = s.length * Int.fract |n.value| →
        (r.length : ℤ) = ⌊s.length * |n.value| + 1 / 2⌋ := by
  obtain ⟨answered, hanswer, hrepeating⟩ := repeating_repeated s n
  rw [repetition_eq hs, hanswer] at hdone
  cases answered with
  | none => cases hdone
  | some r =>
      have hr := hrepeating.length_eq hlength
      refine ⟨r, sequence?_of_ofSequence hdone, ?_, ?_, fun product hproduct => ?_⟩
      · split_ifs at hr with hreaches <;> simp [hreaches, hr]
      · split_ifs at hr with hreaches <;> simp [hreaches, hr]
      · have hplaces := two_le_keptPlaces hlength (Int.fract_nonneg |n.value|) (Int.fract_lt_one |n.value|).le
        rw [← hproduct] at hplaces hr
        rwa [if_neg (not_reachesHalf_value hplaces), add_zero] at hr

/-- Half a text of three characters has two. -/
theorem length_of_half_of_three :
    ∃ r : Sequence, Heap.empty.sequence? (.string "ab") = some r ∧ r.length = 2 := by
  have hvalue : Decimal.value ⟨false, 5, 1, by decide, by decide⟩ = 1 / 2 := by norm_num [value_eq_div, coefficient]
  have hfract : Int.fract |(1 / 2 : ℚ)| = 1 / 2 := by
    rw [abs_of_nonneg (by norm_num), Int.fract_eq_self.2 ⟨by norm_num, by norm_num⟩]
  have hthree : (Sequence.text "abc").length = 3 := by decide
  have hdone : repetition (.string "abc") (.number ⟨false, 5, 1, by decide, by decide⟩) Heap.empty =
      .ok (.string "ab") Heap.empty := rfl
  obtain ⟨r, hr, -, -, hexact⟩ := length_of_repetition (s := .text "abc") rfl (by decide) hdone
  have hlength := hexact ⟨false, 15, 1, by decide, by decide⟩ (by
    rw [hvalue, hfract, hthree]
    norm_num [value_eq_div, coefficient])
  refine ⟨r, hr, ?_⟩
  rw [hvalue, hthree, abs_of_nonneg (by norm_num)] at hlength
  norm_num at hlength
  exact_mod_cast hlength

/-- Nine times a number just below seventeen eighteenths is below eight and a half, and repeats all nine characters. -/
theorem repetition_rounds_twice :
    repetition (.string "123456789") (.number ⟨false, 9444444444444444444444444444, 28, by decide, by decide⟩)
        Heap.empty = .ok (.string "123456789") Heap.empty ∧
    ⌊((Sequence.text "123456789").length : ℚ) *
        |Decimal.value ⟨false, 9444444444444444444444444444, 28, by decide, by decide⟩| + 1 / 2⌋ = 8 ∧
    (Sequence.text "123456789").length = 9 := by
  have hnine : (Sequence.text "123456789").length = 9 := by decide
  refine ⟨rfl, ?_, hnine⟩
  rw [hnine, Int.floor_eq_iff]
  norm_num [value_eq_div, coefficient, abs_of_nonneg]

end Operation

end LineScript
