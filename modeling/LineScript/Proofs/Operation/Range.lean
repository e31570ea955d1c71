import Mathlib.Data.Rat.Floor
import LineScript.Operation.Sequence
import LineScript.Proofs.Decimal.Division
/-!
# Ranges

A range is counted before it is built: its end less its start, over the step, without the fraction, is the number of
steps. Each of the numbers behind the first is the one before plus the step. All of these are rounded where they have
too many digits, so in exact arithmetic a range keeps to its ends only where none of the roundings shows.
-/

namespace LineScript

namespace Operation

open Decimal

/-! ### Stepping -/

/-- Each number of the list is the one before it plus the step, rounded. -/
def Climbs (step : Decimal) (numbers : List Decimal) : Prop :=
  numbers.IsChain fun x y => y.Nearest (x.value + step.value)

theorem steps_eq_some {step current : Decimal} {count : ℕ} {items result : Array Value}
    (hsteps : steps step count current items = some result) :
    ∃ more : List Decimal, result = items ++ (more.map Value.number).toArray ∧ more.length = count ∧
      Climbs step (current :: more) := by
  induction count generalizing current items with
  | zero =>
      cases hsteps
      exact ⟨[], by simp, rfl, List.isChain_singleton _⟩
  | succ count ih =>
      obtain ⟨next, hnext, hrest⟩ := Option.bind_eq_some_iff.1 hsteps
      obtain ⟨more, hresult, hlength, hclimbs⟩ := ih hrest
      have hnearest := (rounded_add? current step).nearest_of_eq_some hnext
      refine ⟨next :: more, ?_, by rw [List.length_cons, hlength], List.isChain_cons_cons.2 ⟨hnearest, hclimbs⟩⟩
      rw [hresult, Array.push_eq_append, Array.append_assoc]
      simp

/-- Stepping stops early only before a number that does not fit. -/
theorem steps_eq_none {step current : Decimal} {count : ℕ} {items : Array Value}
    (hsteps : steps step count current items = none) :
    ∃ more : List Decimal, more.length < count ∧ Climbs step (current :: more) ∧
      ∀ x ∈ (current :: more).getLast?, bound - 1 / 2 ≤ |x.value + step.value| := by
  induction count generalizing current items with
  | zero => cases hsteps
  | succ count ih =>
      cases hnext : current.add? step with
      | none =>
          have hlarge := (rounded_add? current step).large_of_eq_none hnext
          exact ⟨[], Nat.succ_pos _, List.isChain_singleton _, by simpa using hlarge⟩
      | some next =>
          have hnearest := (rounded_add? current step).nearest_of_eq_some hnext
          rw [steps, hnext, Option.bind_some] at hsteps
          obtain ⟨more, hlength, hclimbs, hlast⟩ := ih hsteps
          exact ⟨next :: more, Nat.succ_lt_succ hlength, List.isChain_cons_cons.2 ⟨hnearest, hclimbs⟩,
            by simpa using hlast⟩

/-- The numbers from `first` on at distance `step`. -/
def progression (first step : ℚ) (length : ℕ) : List ℚ :=
  (List.range length).map fun i : ℕ => first + i * step

theorem progression_succ (first step : ℚ) (length : ℕ) :
    progression first step (length + 1) = first :: progression (first + step) step length := by
  rw [progression, List.range_succ_eq_map, List.map_cons, List.map_map, progression]
  congr 1
  · simp
  · refine List.map_congr_left fun i _ => ?_
    simp only [Function.comp_apply, Nat.cast_succ]
    ring

theorem eq_progression {first step : ℚ} {numbers : List ℚ} (hhead : numbers.head? = some first)
    (hnext : numbers.IsChain fun x y => y = x + step) : numbers = progression first step numbers.length := by
  induction numbers generalizing first with
  | nil => cases hhead
  | cons x more ih =>
      cases hhead
      rw [List.length_cons, progression_succ]
      cases more with
      | nil => rfl
      | cons y more =>
          obtain ⟨rfl, hmore⟩ := List.isChain_cons_cons.1 hnext
          rw [← ih rfl hmore]

/-- As long as every number on the way can be written, no step is rounded. -/
theorem Climbs.map_value {step current : Decimal} {more : List Decimal} (hclimbs : Climbs step (current :: more))
    (hexact : ∀ i ≤ more.length, ∃ a : Decimal, a.value = current.value + i * step.value) :
    (current :: more).map value = progression current.value step.value (more.length + 1) := by
  induction more generalizing current with
  | nil => simp [progression]
  | cons next more ih =>
      obtain ⟨hnearest, hmore⟩ := List.isChain_cons_cons.1 hclimbs
      obtain ⟨a, ha⟩ := hexact 1 (Nat.succ_pos _)
      have hnext : next.value = current.value + step.value := hnearest.value_eq (by rw [ha, Nat.cast_one, one_mul])
      rw [List.map_cons, List.length_cons, progression_succ, ← hnext]
      refine congrArg _ (ih hmore fun i hi => ?_)
      obtain ⟨b, hb⟩ := hexact (i + 1) (Nat.succ_le_succ hi)
      exact ⟨b, by rw [hb, hnext]; push_cast; ring⟩

/-! ### The exact law -/

/-- The numbers from `first` on at distance `step` as far as `last`: each lies between the two, and one more step
would lead beyond `last`. -/
structure Stepped (first last step : ℚ) (numbers : List ℚ) : Prop where
  head : numbers.head? = some first
  next : numbers.IsChain fun x y => y = x + step
  between : ∀ x ∈ numbers, x ∈ Set.uIcc first last
  beyond : ∀ x ∈ numbers.getLast?, 0 < (x + step - last) * step

theorem isChain_progression (first step : ℚ) (length : ℕ) :
    (progression first step length).IsChain fun x y => y = x + step := by
  induction length generalizing first with
  | zero => exact List.isChain_nil
  | succ length ih =>
      cases length with
      | zero => exact List.isChain_singleton _
      | succ length =>
          have hrest := ih (first + step)
          rw [progression_succ] at hrest
          rw [progression_succ, progression_succ]
          exact List.isChain_cons_cons.2 ⟨rfl, hrest⟩

theorem getLast?_progression (first step : ℚ) (length : ℕ) :
    (progression first step (length + 1)).getLast? = some (first + length * step) := by
  simp [progression, List.range_succ]

section

variable {first last step : ℚ}

theorem mem_uIcc_iff (htowards : 0 < (last - first) * step) (t : ℚ) :
    first + t * step ∈ Set.uIcc first last ↔ 0 ≤ t ∧ t ≤ (last - first) / step := by
  rcases pos_and_pos_or_neg_and_neg_of_mul_pos htowards with ⟨hdistance, hstep⟩ | ⟨hdistance, hstep⟩
  · rw [Set.uIcc_of_le (by linarith), Set.mem_Icc, le_div_iff₀ hstep, le_add_iff_nonneg_right,
      mul_nonneg_iff_of_pos_right hstep, le_sub_iff_add_le']
  · have hsign : t * step ≤ 0 ↔ 0 ≤ t := by simpa using mul_le_mul_right_of_neg (a := t) (b := 0) hstep
    rw [Set.uIcc_of_ge (by linarith), Set.mem_Icc, le_div_iff_of_neg hstep, add_le_iff_nonpos_right, hsign,
      sub_le_iff_le_add', and_comm]

theorem beyond_iff (htowards : 0 < (last - first) * step) (t : ℚ) :
    0 < (first + t * step + step - last) * step ↔ (last - first) / step < t + 1 := by
  have hstep : step ≠ 0 := right_ne_zero_of_mul htowards.ne'
  have heq : (first + t * step + step - last) * step = (t + 1 - (last - first) / step) * (step * step) := by
    field_simp
    ring
  rw [heq, mul_pos_iff_of_pos_right (mul_self_pos.2 hstep), sub_pos]

/-- How many numbers there are follows from the ends. -/
theorem stepped_iff (htowards : 0 < (last - first) * step) {numbers : List ℚ} :
    Stepped first last step numbers ↔
      numbers = progression first step (⌊(last - first) / step⌋.toNat + 1) := by
  have hquotient : 0 ≤ (last - first) / step := (div_pos_iff.2 (mul_pos_iff.1 htowards)).le
  constructor
  · intro h
    have heq := eq_progression h.head h.next
    obtain ⟨n, hn⟩ : ∃ n, numbers.length = n + 1 := by
      cases numbers with
      | nil => cases h.head
      | cons x more => exact ⟨more.length, rfl⟩
    have hlast : numbers.getLast? = some (first + n * step) := by rw [heq, hn, getLast?_progression]
    have hle := ((mem_uIcc_iff htowards n).1 (h.between _ (List.mem_of_getLast? hlast))).2
    have hlt := (beyond_iff htowards n).1 (h.beyond _ hlast)
    have hfloor : ⌊(last - first) / step⌋ = n := Int.floor_eq_iff.2 ⟨hle, hlt⟩
    rw [hfloor, Int.toNat_natCast, ← hn]
    exact heq
  · intro heq
    obtain ⟨n, hn⟩ := Int.eq_ofNat_of_zero_le (Int.floor_nonneg.2 hquotient)
    have hbounds := Int.floor_eq_iff.1 hn
    rw [hn, Int.toNat_natCast] at heq
    subst heq
    refine ⟨by rw [progression_succ, List.head?_cons], isChain_progression _ _ _, fun x hx => ?_, fun x hx => ?_⟩
    · obtain ⟨i, hi, rfl⟩ := List.mem_map.1 hx
      have hle : (i : ℚ) ≤ n := Nat.cast_le.2 (Nat.le_of_lt_succ (List.mem_range.1 hi))
      exact (mem_uIcc_iff htowards i).2 ⟨Nat.cast_nonneg i, hle.trans hbounds.1⟩
    · rw [getLast?_progression, Option.mem_some_iff] at hx
      exact hx ▸ (beyond_iff htowards n).2 hbounds.2

end

/-! ### What a range comes to -/

/-- Makes the array of some numbers, which always succeeds. -/
def makeNumbers (numbers : List Decimal) : Action Heap Value :=
  makeArray (numbers.map Value.number).toArray

/-- What a range from one number to another comes to. The distance and the number of steps are rounded, and so is each
of the numbers. -/
inductive Ranging (first last step : Decimal) : Action Heap Value → Prop where
  | single (heq : last.value = first.value) : Ranging first last step (makeNumbers [first])
  | still (hne : last.value ≠ first.value) (hstep : step.value = 0) : Ranging first last step (raise .zeroStep)
  | away (haway : (last.value - first.value) * step.value < 0) : Ranging first last step (makeNumbers [])
  | distant (hstep : step.value ≠ 0) (hfar : bound - 1 / 2 ≤ |last.value - first.value|) :
      Ranging first last step (raise .numberOverflow)
  | long {distance : Decimal} (htowards : 0 < (last.value - first.value) * step.value)
      (hdistance : distance.Nearest (last.value - first.value))
      (hlong : bound - 1 / 2 ≤ |distance.value / step.value| ∨ ∃ quotient : Decimal,
        quotient.Nearest (distance.value / step.value) ∧ maxLength ≤ ⌊quotient.value⌋) :
      Ranging first last step (raise .lengthLimit)
  | stuck {distance quotient : Decimal} {more : List Decimal}
      (htowards : 0 < (last.value - first.value) * step.value)
      (hdistance : distance.Nearest (last.value - first.value))
      (hquotient : quotient.Nearest (distance.value / step.value)) (hlength : more.length < ⌊quotient.value⌋)
      (hclimbs : Climbs step (first :: more))
      (hstuck : ∀ x ∈ (first :: more).getLast?, bound - 1 / 2 ≤ |x.value + step.value|) :
      Ranging first last step (raise .numberOverflow)
  | stepped {distance quotient : Decimal} {more : List Decimal}
      (htowards : 0 < (last.value - first.value) * step.value)
      (hdistance : distance.Nearest (last.value - first.value))
      (hquotient : quotient.Nearest (distance.value / step.value)) (hlength : more.length = ⌊quotient.value⌋)
      (hlimit : more.length < maxLength) (hclimbs : Climbs step (first :: more)) :
      Ranging first last step (makeNumbers (first :: more))

/-- A distance between numbers is not rounded to zero. -/
theorem distance_ne_zero {a b distance : Decimal} (hdistance : distance.Nearest (a.value - b.value))
    (hne : a.value - b.value ≠ 0) : distance.value ≠ 0 := by
  intro hzero
  obtain ⟨m, hm⟩ := a.exists_value_mul_eq
  obtain ⟨n, hn⟩ := b.exists_value_mul_eq
  have hinteger : (a.value - b.value) * 10 ^ maxScale = (m - n : ℤ) := by
    rw [sub_mul, hm, hn, Int.cast_sub]
  exact hne (hdistance.eq_zero hinteger hzero)

/-- A distance between numbers that is rounded keeps its sign. -/
theorem isNegative_distance_iff {a b distance : Decimal} (hdistance : distance.Nearest (a.value - b.value)) :
    distance.value < 0 ↔ a.value - b.value < 0 := by
  constructor
  · intro hneg
    by_contra hnonneg
    exact absurd (hdistance.nonneg (not_lt.1 hnonneg)) (not_le.2 hneg)
  · intro hneg
    have hle : 0 ≤ distance.neg.value := hdistance.neg.nonneg (by linarith)
    rw [value_neg] at hle
    exact lt_of_le_of_ne (by linarith) (distance_ne_zero hdistance hneg.ne)

theorem distance_mul_pos {first last step distance : Decimal} (hdistance : distance.Nearest (last.value - first.value))
    (htowards : 0 < (last.value - first.value) * step.value) : 0 < distance.value * step.value := by
  rcases mul_pos_iff.1 htowards with ⟨hpos, hstep⟩ | ⟨hneg, hstep⟩
  · have hflipped : distance.neg.Nearest (first.value - last.value) := by
      rw [← neg_sub]
      exact hdistance.neg
    have hlt := (isNegative_distance_iff hflipped).2 (by linarith)
    rw [value_neg] at hlt
    exact mul_pos (by linarith) hstep
  · exact mul_pos_of_neg_of_neg ((isNegative_distance_iff hdistance).2 hneg) hstep

theorem mul_pos_iff_same_sign {x y : ℚ} (hx : x ≠ 0) (hy : y ≠ 0) : 0 < x * y ↔ (x < 0 ↔ y < 0) := by
  rw [mul_pos_iff]
  rcases lt_or_gt_of_ne hx with hx | hx <;> rcases lt_or_gt_of_ne hy with hy | hy <;>
    simp [hx, hy, hx.not_gt, hy.not_gt]

theorem ranging_stepCount {first last step distance : Decimal}
    (htowards : 0 < (last.value - first.value) * step.value)
    (hdistance : distance.Nearest (last.value - first.value)) :
    Ranging first last step (do
      let count ← stepCount distance step
      makeArray (← orRaise .numberOverflow (steps step count first #[.number first]))) := by
  have hrounded := rounded_div? (a := distance) (right_ne_zero_of_mul htowards.ne')
  rw [stepCount]
  cases hdiv : distance.div? step with
  | none =>
      have hnone : numberCount? distance step = none := by rw [numberCount?, hdiv, Option.bind_none, Option.bind_none]
      rw [hnone, checkedLength_of_long fun _ hn => absurd hn (Option.not_mem_none _)]
      exact .long htowards hdistance (.inl (hrounded.large_of_eq_none hdiv))
  | some quotient =>
      have hquotient := hrounded.nearest_of_eq_some hdiv
      have hnonneg : 0 ≤ quotient.value :=
        hquotient.nonneg (div_pos_iff.2 (mul_pos_iff.1 (distance_mul_pos hdistance htowards))).le
      have htruncated : 0 ≤ quotient.truncated := by
        rw [truncated_eq_floor hnonneg]
        exact Int.floor_nonneg.2 hnonneg
      have hcount : (quotient.truncated.toNat : ℤ) = ⌊quotient.value⌋ := by
        rw [Int.toNat_of_nonneg htruncated, truncated_eq_floor hnonneg]
      have hnumbers : numberCount? distance step = (toSize? quotient.truncated).bind (checkedAdd? · 1) := by
        rw [numberCount?, hdiv, Option.bind_some, quotient.truncated_whole]
      rw [hnumbers]
      by_cases hlimit : quotient.truncated.toNat + 1 ≤ maxLength
      · rw [toSize?_of_fits htruncated (by omega), Option.bind_some, checkedAdd?_of_fits hlimit,
          checkedLength_of_fits hlimit]
        simp only [pure_bind, Nat.add_sub_cancel]
        cases hsteps : steps step quotient.truncated.toNat first #[.number first] with
        | none =>
            obtain ⟨more, hlength, hclimbs, hstuck⟩ := steps_eq_none hsteps
            exact .stuck htowards hdistance hquotient (by omega) hclimbs hstuck
        | some items =>
            obtain ⟨more, rfl, hlength, hclimbs⟩ := steps_eq_some hsteps
            have hmake : makeNumbers (first :: more) =
                makeArray (#[.number first] ++ (more.map Value.number).toArray) := by
              rw [makeNumbers, List.map_cons, ← List.singleton_append, ← List.append_toArray]
            simp only [orRaise, pure_bind, ← hmake]
            exact .stepped htowards hdistance hquotient (by omega) (by omega) hclimbs
      · have hlong : ∀ n ∈ (toSize? quotient.truncated).bind (checkedAdd? · 1), maxLength < n := by
          intro n hn
          obtain ⟨count, hcount, hadd⟩ := Option.bind_eq_some_iff.1 hn
          rw [eq_of_checkedAdd? hadd, eq_of_toSize? hcount]
          exact not_le.1 hlimit
        rw [checkedLength_of_long hlong]
        exact .long htowards hdistance (.inr ⟨quotient, hquotient, by omega⟩)

theorem ranging_rangeBy (first last step : Decimal) : Ranging first last step (rangeBy first last step) := by
  rw [rangeBy]
  split_ifs with heq hstep
  · exact .single ((equals_iff _ _).1 heq)
  · exact .still (fun h => heq ((equals_iff _ _).2 h)) (isZero_iff.1 hstep)
  · have hne : last.value - first.value ≠ 0 := fun h => heq ((equals_iff _ _).2 (sub_eq_zero.1 h))
    have hstep : step.value ≠ 0 := fun h => hstep (isZero_iff.2 h)
    cases hdistance : last.sub? first with
    | none => exact .distant hstep ((rounded_sub? last first).large_of_eq_none hdistance)
    | some distance =>
        have hnearest := (rounded_sub? last first).nearest_of_eq_some hdistance
        have hsign : distance.isNegative != step.isNegative ↔ ¬ 0 < (last.value - first.value) * step.value := by
          rw [bne_iff_ne, ne_eq, Bool.eq_iff_iff, isNegative_iff (distance_ne_zero hnearest hne), isNegative_iff hstep,
            isNegative_distance_iff hnearest, mul_pos_iff_same_sign hne hstep]
        simp only [orRaise, pure_bind]
        split_ifs with haway
        · exact .away (lt_of_le_of_ne (not_lt.1 (hsign.1 haway)) (mul_ne_zero hne hstep))
        · exact ranging_stepCount (not_not.1 fun h => haway (hsign.2 h)) hnearest

/-! ### Ranges by a step -/

/-- Numbers that climb keep to the exact law if there are as many as it wants and each of them can be written. -/
theorem Climbs.stepped_iff {first step : Decimal} {more : List Decimal} (hclimbs : Climbs step (first :: more))
    {last : ℚ} (htowards : 0 < (last - first.value) * step.value) :
    Stepped first.value last step.value ((first :: more).map value) ↔
      (more.length : ℤ) = ⌊(last - first.value) / step.value⌋ ∧
        ∀ i < more.length + 1, ∃ a : Decimal, a.value = first.value + i * step.value := by
  have hquotient : 0 ≤ (last - first.value) / step.value := (div_pos_iff.2 (mul_pos_iff.1 htowards)).le
  have hfloor := Int.toNat_of_nonneg (Int.floor_nonneg.2 hquotient)
  rw [Operation.stepped_iff htowards]
  constructor
  · intro heq
    have hlength := congrArg List.length heq
    simp only [progression, List.length_map, List.length_range, List.length_cons, Nat.add_right_cancel_iff] at hlength
    refine ⟨by omega, fun i hi => ?_⟩
    have hmem : first.value + i * step.value ∈ (first :: more).map value := by
      rw [heq, ← hlength]
      exact List.mem_map.2 ⟨i, List.mem_range.2 hi, rfl⟩
    obtain ⟨a, -, ha⟩ := List.mem_map.1 hmem
    exact ⟨a, ha⟩
  · rintro ⟨hlength, hexact⟩
    rw [hclimbs.map_value fun i hi => hexact i (Nat.lt_succ_of_le hi), ← hlength, Int.toNat_natCast]

theorem range_some (first last step : Decimal) :
    range (.number first) (.number last) (some (.number step)) = rangeBy first last step :=
  rfl

/-- **A range by a step.** Its first number is its start, and each of the others is the one before plus the step,
rounded. There are as many as the rounded quotient of the rounded distance says. So the range keeps to the exact law if
and only if the count is right in spite of its two roundings, and every number of the range can be written. -/
theorem range_by_step {first last step : Decimal} {h h' : Heap} {v : Value}
    (hrange : range (.number first) (.number last) (some (.number step)) h = .ok v h') :
    ∃ numbers : List Decimal, makeNumbers numbers h = .ok v h' ∧
      (last.value = first.value → numbers = [first]) ∧
      ((last.value - first.value) * step.value < 0 → numbers = []) ∧
      (0 < (last.value - first.value) * step.value →
        ∃ distance quotient : Decimal, distance.Nearest (last.value - first.value) ∧
          quotient.Nearest (distance.value / step.value) ∧
          numbers.head? = some first ∧ Climbs step numbers ∧ (numbers.length : ℤ) = ⌊quotient.value⌋ + 1 ∧
          (Stepped first.value last.value step.value (numbers.map value) ↔
            ⌊quotient.value⌋ = ⌊(last.value - first.value) / step.value⌋ ∧
              ∀ i < numbers.length, ∃ a : Decimal, a.value = first.value + i * step.value)) := by
  have hranging := ranging_rangeBy first last step
  rw [range_some] at hrange
  generalize rangeBy first last step = action at hranging hrange
  cases hranging with
  | still | distant | long | stuck => cases hrange
  | single heq => exact ⟨[first], hrange, fun _ => rfl, fun h => by simp [heq] at h, fun h => by simp [heq] at h⟩
  | away haway =>
      refine ⟨[], hrange, fun heq => ?_, fun _ => rfl, fun htowards => absurd haway htowards.not_gt⟩
      simp [heq] at haway
  | @stepped distance quotient more htowards hdistance hquotient hlength hlimit hclimbs =>
      refine ⟨first :: more, hrange, fun heq => by simp [heq] at htowards, fun haway => absurd haway htowards.not_gt,
        fun _ => ⟨distance, quotient, hdistance, hquotient, rfl, hclimbs, by simp [hlength], ?_⟩⟩
      rw [hclimbs.stepped_iff htowards, hlength, List.length_cons]

theorem range_by_step_of_three :
    ∃ v h', range (.number (.ofNat 0)) (.number (.ofNat 10)) (some (.number (.ofNat 3))) Heap.empty = .ok v h' ∧
      ∃ numbers : List Decimal, makeNumbers numbers Heap.empty = .ok v h' ∧
        numbers.head? = some (.ofNat 0) ∧ Climbs (.ofNat 3) numbers := by
  obtain ⟨numbers, hmake, -, -, htowards⟩ := range_by_step
    (show range (.number (.ofNat 0)) (.number (.ofNat 10)) (some (.number (.ofNat 3))) Heap.empty = .ok _ _ from rfl)
  have hpos : 0 < ((ofNat 10).value - (ofNat 0).value) * (ofNat 3).value := by
    rw [value_ofNat (by decide), value_ofNat (by decide), value_ofNat (by decide)]
    norm_num
  obtain ⟨_, _, -, -, hhead, hclimbs, -⟩ := htowards hpos
  exact ⟨_, _, rfl, numbers, hmake, hhead, hclimbs⟩

/-- There are 21 places behind the point if what is in front of it is short. -/
theorem le_places_of_room {x : ℚ} {places : ℕ} (hx : |x| < maxLength)
    (hroom : places = maxScale ∨ bound - 1 / 2 ≤ |x| * 10 ^ (places + 1)) : 21 ≤ places := by
  by_contra hfew
  have hlarge := hroom.resolve_left (by rintro rfl; exact hfew (by decide))
  have hpow : (10 : ℚ) ^ (places + 1) ≤ 10 ^ 21 := pow_le_pow_right₀ (by norm_num) (by omega)
  have hproduct : |x| * 10 ^ (places + 1) ≤ maxLength * 10 ^ 21 :=
    mul_le_mul hx.le hpow (by positivity) (by positivity)
  norm_num [bound] at hlarge
  norm_num [maxLength] at hproduct
  linarith

/-- A quotient has at least 21 places behind a count of steps, so by a shorter divisor the count is not rounded. -/
theorem floor_eq_of_nearest {quotient : Decimal} {k c : ℕ} (hc : 0 < c) (hshort : c < 2 * 10 ^ 21)
    (hquotient : quotient.Nearest (k / c)) (hlimit : ⌊quotient.value⌋ < maxLength) :
    ⌊quotient.value⌋ = ⌊(k / c : ℚ)⌋ := by
  have habove := hquotient.lt_floor_add_one
  rcases hquotient with hvalue | @⟨places, n, hvalue, hnear, -, -, hroom⟩
  · rw [hvalue]
  have hpos : (0 : ℚ) < 10 ^ places := by positivity
  have hcpos : (0 : ℚ) < c := Nat.cast_pos.2 hc
  generalize hm : ⌊quotient.value⌋ = m at hlimit habove
  obtain ⟨hle, -⟩ := Int.floor_eq_iff.1 hm
  rw [hvalue, le_div_iff₀ hpos] at hle
  have hdistance := abs_le.1 hnear.near
  have hplaces : 21 ≤ places := by
    refine le_places_of_room ?_ hroom
    rw [abs_of_nonneg (by positivity)]
    exact habove.trans_le (by exact_mod_cast Int.add_one_le_of_lt hlimit)
  refine (Int.floor_eq_iff.2 ⟨?_, habove⟩).symm
  -- Below the count the quotient would miss it by at least one part in `c`, which does not get lost.
  rw [le_div_iff₀ hcpos]
  by_contra hbelow
  have hmissed : (k : ℤ) < m * c := by exact_mod_cast not_le.1 hbelow
  have hstep : (k : ℚ) + 1 ≤ m * c := by exact_mod_cast Int.add_one_le_of_lt hmissed
  have hpow : (10 : ℚ) ^ 21 ≤ 10 ^ places := pow_le_pow_right₀ (by norm_num) hplaces
  have hlong : (c : ℚ) < 2 * 10 ^ 21 := by exact_mod_cast hshort
  have hmul : ((n : ℚ) - 1 / 2) * c ≤ k * 10 ^ places := by
    have hscaled : (k / c * 10 ^ places : ℚ) * c = k * 10 ^ places := by field_simp
    rw [← hscaled]
    exact mul_le_mul_of_nonneg_right (by linarith) hcpos.le
  nlinarith

theorem div_eq_natAbs_div {a b : ℤ} (hpos : 0 < (a : ℚ) * b) : (a / b : ℚ) = a.natAbs / b.natAbs := by
  rw [← abs_of_pos (div_pos_iff.2 (mul_pos_iff.1 hpos)), abs_div, Nat.cast_natAbs, Nat.cast_natAbs, Int.cast_abs,
    Int.cast_abs]

/-- What lies between two coefficients that fit can be written on their scale. -/
theorem exists_value_eq_of_mem_uIcc {a b n : ℤ} {scale : ℕ} (hscale : scale ≤ maxScale) (ha : a.natAbs < bound)
    (hb : b.natAbs < bound) (hn : (n : ℚ) ∈ Set.uIcc (a : ℚ) b) : ∃ x : Decimal, x.value = n / 10 ^ scale := by
  have hfits : n.natAbs < bound := by
    rcases Set.mem_uIcc.1 hn with ⟨hlower, hupper⟩ | ⟨hlower, hupper⟩ <;> rw [Int.cast_le] at hlower hupper <;> omega
  exact ⟨ofCoefficient n scale hfits hscale, value_ofCoefficient _ _⟩

/-- Numbers of one scale whose distance has room on it, and a step of at most 21 digits, keep to the exact law. -/
theorem range_by_short_step {first last step : Decimal} {a b c : ℤ} {scale : ℕ} (hscale : scale ≤ maxScale)
    (ha : first.value = a / 10 ^ scale) (hb : last.value = b / 10 ^ scale) (hc : step.value = c / 10 ^ scale)
    (hfirst : a.natAbs < bound) (hlast : b.natAbs < bound) (hfits : (b - a).natAbs < bound)
    (hshort : c.natAbs < 2 * 10 ^ 21) (htowards : 0 < (last.value - first.value) * step.value) {h h' : Heap} {v : Value}
    (hrange : range (.number first) (.number last) (some (.number step)) h = .ok v h') :
    ∃ numbers : List Decimal, makeNumbers numbers h = .ok v h' ∧
      Stepped first.value last.value step.value (numbers.map value) := by
  have hranging := ranging_rangeBy first last step
  rw [range_some] at hrange
  generalize rangeBy first last step = action at hranging hrange
  cases hranging with
  | still | distant | long | stuck => cases hrange
  | single heq => simp [heq] at htowards
  | away haway => exact absurd haway htowards.not_gt
  | @stepped distance quotient more _ hdistance hquotient hlength hlimit hclimbs =>
      refine ⟨first :: more, hrange, (hclimbs.stepped_iff htowards).2 ?_⟩
      have hpos : (0 : ℚ) < 10 ^ scale := by positivity
      have hexact : distance.value = last.value - first.value :=
        hdistance.value_eq (b := ofCoefficient (b - a) scale hfits hscale) (by
          rw [value_ofCoefficient, hb, ha, ← sub_div, Int.cast_sub])
      have hproduct : (0 : ℚ) < (b - a) * c := by
        rw [ha, hb, hc, ← sub_div, div_mul_div_comm, lt_div_iff₀ (by positivity), zero_mul] at htowards
        exact htowards
      have hratio : (last.value - first.value) / step.value = (b - a) / c := by
        rw [ha, hb, hc, ← sub_div, div_div_div_cancel_right₀ hpos.ne']
      have habs : ((b - a) / c : ℚ) = (b - a).natAbs / c.natAbs := by
        rw [← Int.cast_sub, div_eq_natAbs_div (by rwa [Int.cast_sub])]
      have hc0 : 0 < c.natAbs := Int.natAbs_pos.2 (by rintro rfl; simp at hproduct)
      rw [hexact, hratio, habs] at hquotient
      have hfloor := floor_eq_of_nearest hc0 hshort hquotient (by omega)
      rw [hratio, habs, ← hfloor, hlength]
      refine ⟨rfl, fun i hi => ?_⟩
      have hle : (i : ℚ) ≤ (b - a) / c := by
        rw [habs, ← Int.cast_natCast, ← Int.le_floor, ← hfloor, ← hlength]
        omega
      obtain ⟨x, hx⟩ := exists_value_eq_of_mem_uIcc (n := a + i * c) hscale hfirst hlast (by
        push_cast
        exact (mem_uIcc_iff hproduct i).2 ⟨Nat.cast_nonneg i, hle⟩)
      exact ⟨x, by rw [hx, ha, hc]; push_cast; ring⟩

/-- The number 7.0000000000000000000000000001. -/
def overSeven : Decimal :=
  ⟨false, 70000000000000000000000000001, 28, by decide, by decide⟩

/-- The quotient of 7 by the step is below one and is rounded to it, so the range goes on behind its end. -/
theorem range_passes_end :
    range (.number (.ofNat 0)) (.number (.ofNat 7)) (some (.number overSeven)) Heap.empty =
        makeNumbers [.ofNat 0, overSeven] Heap.empty ∧
      ¬ Stepped (ofNat 0).value (ofNat 7).value overSeven.value ([.ofNat 0, overSeven].map value) := by
  refine ⟨rfl, fun h => ?_⟩
  have hvalue : overSeven.value = 70000000000000000000000000001 / 10 ^ 28 := by
    simp [value_eq_div, coefficient, overSeven]
  have hbetween := h.between overSeven.value (by simp)
  rw [value_ofNat (by decide), value_ofNat (by decide), Set.uIcc_of_le (by norm_num), Set.mem_Icc, hvalue] at hbetween
  norm_num at hbetween

/-! ### Ranges without a step -/

def direction (m n : ℤ) : ℤ :=
  if n < m then -1 else 1

/-- The integers from `m` to `n`, both included, upwards or downwards. -/
def integers (m n : ℤ) : List ℤ :=
  (List.range ((n - m).natAbs + 1)).map fun i : ℕ => m + i * direction m n

theorem sub_mul_direction (m n : ℤ) : (n - m) * direction m n = (n - m).natAbs := by
  unfold direction
  split_ifs <;> omega

theorem reverse_integers (m n : ℤ) : (integers m n).reverse = integers n m := by
  have hlength : (m - n).natAbs = (n - m).natAbs := by omega
  refine List.ext_getElem (by simp [integers, hlength]) fun i hleft hright => ?_
  simp only [integers, List.length_map, List.length_range] at hright
  simp only [integers, List.getElem_reverse, List.getElem_map, List.getElem_range, List.length_map, List.length_range,
    direction]
  split_ifs <;> omega

theorem map_cast_integers (m n : ℤ) :
    (integers m n).map (Int.cast : ℤ → ℚ) = progression m (direction m n) ((n - m).natAbs + 1) := by
  rw [integers, progression, List.map_map]
  exact List.map_congr_left fun i _ => by simp

/-- The step by which a range goes without one. -/
def unitStep (first last : Decimal) : Decimal :=
  if last.lt first then Decimal.one.neg else .one

theorem range_none (first last : Decimal) :
    range (.number first) (.number last) none = rangeBy first last (unitStep first last) :=
  rfl

section

variable {a b : Decimal} {m n : ℤ}

theorem value_unitStep (ha : a.value = m) (hb : b.value = n) : (unitStep a b).value = direction m n := by
  have hlt : b.lt a = true ↔ n < m := by rw [lt_iff, ha, hb, Int.cast_lt]
  unfold unitStep direction
  simp only [hlt]
  split_ifs <;> simp

/-- Every number between the two can be written. -/
theorem exists_value_eq_between (ha : a.value = m) (hb : b.value = n) {i : ℕ} (hi : i ≤ (n - m).natAbs) :
    ∃ c : Decimal, c.value = a.value + i * (direction m n : ℚ) := by
  have hm := natAbs_lt_bound ha
  have hn := natAbs_lt_bound hb
  have hbetween : (m + i * direction m n).natAbs < bound := by
    unfold direction
    split_ifs <;> omega
  obtain ⟨c, hc⟩ := exists_value_eq_intCast hbetween
  exact ⟨c, by rw [hc, ha]; push_cast; rfl⟩

/-- The distance is not rounded, and over the step it is the number of steps. -/
theorem distance_div_unitStep (ha : a.value = m) (hb : b.value = n) {distance : Decimal}
    (hdistance : distance.Nearest (b.value - a.value)) :
    distance.value / (unitStep a b).value = ((n - m).natAbs : ℤ) := by
  rw [ha, hb, ← Int.cast_sub] at hdistance
  have hunit : direction m n * direction m n = 1 := by
    unfold direction
    split_ifs <;> rfl
  have hne : (direction m n : ℚ) ≠ 0 := by
    exact_mod_cast left_ne_zero_of_mul (hunit ▸ one_ne_zero)
  rw [hdistance.value_eq_intCast, value_unitStep ha hb, div_eq_iff hne, ← sub_mul_direction]
  exact_mod_cast (by rw [mul_assoc, hunit, mul_one] : n - m = (n - m) * direction m n * direction m n)

theorem maxLength_le_natAbs {k : ℤ} (hlarge : bound - 1 / 2 ≤ |(k : ℚ)|) : maxLength ≤ k.natAbs := by
  have hlimit : (maxLength : ℚ) ≤ bound - 1 / 2 := by norm_num [maxLength, bound]
  rw [← Int.cast_abs, Int.abs_eq_natAbs, Int.cast_natCast] at hlarge
  exact_mod_cast hlimit.trans hlarge

/-- The next number of a range of integers that has not come to its end lies between the two ends, so there is room for
it. -/
theorem exists_last_add_lt (ha : a.value = m) (hb : b.value = n) {more : List Decimal}
    (hclimbs : Climbs (unitStep a b) (a :: more)) (hlength : more.length < (n - m).natAbs) :
    ∃ x ∈ (a :: more).getLast?, |x.value + (unitStep a b).value| < bound - 1 / 2 := by
  have hstep := value_unitStep ha hb
  have hlast := congrArg List.getLast?
    (hclimbs.map_value fun i hi => hstep ▸ exists_value_eq_between ha hb (hi.trans hlength.le))
  rw [List.getLast?_map, getLast?_progression, Option.map_eq_some_iff] at hlast
  obtain ⟨x, hx, hvalue⟩ := hlast
  obtain ⟨c, hc⟩ := exists_value_eq_between ha hb (Nat.succ_le_of_lt hlength)
  have hlt := c.abs_value_mul_lt (Nat.zero_le _)
  rw [pow_zero, mul_one, hc, Nat.cast_succ, add_mul, one_mul, ← add_assoc, ← hstep, ← hvalue] at hlt
  exact ⟨x, hx, hlt⟩

/-- A range of integers is never cut short: it is whole, or there is none. -/
theorem ranging_integers (ha : a.value = m) (hb : b.value = n) {action : Action Heap Value}
    (hranging : Ranging a b (unitStep a b) action) :
    ((n - m).natAbs < maxLength ∧ ∃ numbers : List Decimal,
      action = makeNumbers numbers ∧ numbers.map value = (integers m n).map (Int.cast : ℤ → ℚ)) ∨
    (maxLength ≤ (n - m).natAbs ∧
      ∃ cause : RuntimeCause, (cause = .numberOverflow ∨ cause = .lengthLimit) ∧ action = raise cause) := by
  have hstep := value_unitStep ha hb
  have hproduct : (b.value - a.value) * (unitStep a b).value = (n - m).natAbs := by
    rw [ha, hb, hstep, ← Int.cast_sub, ← Int.cast_mul, sub_mul_direction, Int.cast_natCast]
  cases hranging with
  | single heq =>
      obtain rfl : n = m := by exact_mod_cast hb.symm.trans (heq.trans ha)
      refine .inl ⟨by simp [maxLength], [a], rfl, ?_⟩
      rw [map_cast_integers, sub_self, Int.natAbs_zero]
      simp [progression, ha]
  | still hne hstep' =>
      rw [hstep', mul_zero] at hproduct
      have hzero : (n - m).natAbs = 0 := by exact_mod_cast hproduct.symm
      exact absurd (by rw [ha, hb, Int.sub_eq_zero.1 (Int.natAbs_eq_zero.1 hzero)]) hne
  | away haway =>
      rw [hproduct] at haway
      exact absurd haway (not_lt.2 (Nat.cast_nonneg _))
  | distant hstep' hfar =>
      rw [ha, hb, ← Int.cast_sub] at hfar
      exact .inr ⟨maxLength_le_natAbs hfar, _, .inl rfl, rfl⟩
  | long htowards hdistance hlong =>
      rw [distance_div_unitStep ha hb hdistance] at hlong
      refine .inr ⟨?_, _, .inr rfl, rfl⟩
      rcases hlong with hlarge | ⟨quotient, hquotient, hlimit⟩
      · simpa only [Int.natAbs_natCast] using maxLength_le_natAbs hlarge
      · rw [hquotient.value_eq_intCast, Int.floor_intCast] at hlimit
        exact_mod_cast hlimit
  | @stuck distance quotient more htowards hdistance hquotient hlength hclimbs hstuck =>
      rw [distance_div_unitStep ha hb hdistance] at hquotient
      rw [hquotient.value_eq_intCast, Int.floor_intCast, Nat.cast_lt] at hlength
      obtain ⟨x, hx, hlt⟩ := exists_last_add_lt ha hb hclimbs hlength
      exact absurd (hstuck x hx) (not_le.2 hlt)
  | @stepped distance quotient more htowards hdistance hquotient hlength hlimit hclimbs =>
      rw [distance_div_unitStep ha hb hdistance] at hquotient
      rw [hquotient.value_eq_intCast, Int.floor_intCast, Nat.cast_inj] at hlength
      refine .inl ⟨hlength ▸ hlimit, a :: more, rfl, ?_⟩
      rw [hclimbs.map_value fun i hi => hstep ▸ exists_value_eq_between ha hb (hlength ▸ hi), map_cast_integers, ha,
        hstep, hlength]

end

/-- **A range between integers without a step.** It holds exactly the integers from one to the other, in order, as long
as there are no more than an array has room for, and the range back is its reverse. Between integers farther apart there
is no range, not even a part of one. -/
theorem range_of_integers {a b : Decimal} {m n : ℤ} (ha : a.value = m) (hb : b.value = n) (h : Heap) :
    ((n - m).natAbs < maxLength →
      ∃ there back : List Decimal,
        range (.number a) (.number b) none h = makeNumbers there h ∧
        there.map value = (integers m n).map (Int.cast : ℤ → ℚ) ∧
        range (.number b) (.number a) none h = makeNumbers back h ∧
        back.map value = (there.map value).reverse) ∧
    (maxLength ≤ (n - m).natAbs →
      ∃ cause : RuntimeCause, (cause = .numberOverflow ∨ cause = .lengthLimit) ∧
        range (.number a) (.number b) none h = raise cause h) := by
  have hthere := ranging_integers ha hb (ranging_rangeBy a b (unitStep a b))
  have hback := ranging_integers hb ha (ranging_rangeBy b a (unitStep b a))
  rw [← neg_sub, Int.natAbs_neg] at hback
  simp only [range_none]
  rcases hthere with ⟨hlt, there, heq, hvalues⟩ | ⟨hle, cause, hcause, heq⟩
  · refine ⟨fun _ => ?_, fun hle => absurd hle (not_le.2 hlt)⟩
    obtain ⟨back, heqBack, hvaluesBack⟩ := (hback.resolve_right fun hle => absurd hle.1 (not_le.2 hlt)).2
    refine ⟨there, back, by rw [heq], hvalues, by rw [heqBack], ?_⟩
    rw [hvaluesBack, hvalues, ← List.map_reverse, reverse_integers]
  · exact ⟨fun hlt => absurd hlt (not_lt.2 hle), fun _ => ⟨cause, hcause, by rw [heq]⟩⟩

/-- Downwards from the largest number. -/
theorem range_of_integers_descending :
    ∃ there back : List Decimal,
      range (.number (.ofNat (bound - 1))) (.number (.ofNat (bound - 3))) none Heap.empty =
        makeNumbers there Heap.empty ∧
      there.map value =
        (integers ((bound - 1 : ℕ) : ℤ) ((bound - 3 : ℕ) : ℤ)).map (Int.cast : ℤ → ℚ) ∧
      range (.number (.ofNat (bound - 3))) (.number (.ofNat (bound - 1))) none Heap.empty =
        makeNumbers back Heap.empty ∧
      back.map value = (there.map value).reverse :=
  (range_of_integers (value_ofNat (by decide)) (value_ofNat (by decide)) Heap.empty).1 (by decide)

end Operation

end LineScript
