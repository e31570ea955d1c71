import LineScript.Operation.Sequence
import LineScript.Proofs.Decimal.Fraction
import LineScript.Proofs.Decimal.Nearest
import LineScript.Proofs.Decimal.Notation
/-!
# Repetitions

A count repeats a sequence as often as its whole part says, and its fraction takes as many places more. How many these
are is rounded twice, as a product and to a whole number, and does not exceed the length of the sequence. Nothing else
about a repetition depends on the count or on what kind of sequence it is.
-/

namespace LineScript

/-! ### What a sequence holds -/

namespace Sequence

/-- The items of a sequence; those of a text are its characters, each as a text. -/
def values : Sequence → List Value
  | text s => s.toList.map fun c => .string (String.singleton c)
  | items xs => xs.toList

def isText : Sequence → Bool
  | text _ => true
  | items _ => false

@[simp] theorem isText_cleared (s : Sequence) : s.cleared.isText = s.isText := by
  cases s <;> rfl

@[simp] theorem isText_reversed (s : Sequence) : s.reversed.isText = s.isText := by
  cases s <;> rfl

@[simp] theorem isText_copied (s : Sequence) (copies tail : ℕ) : (s.copied copies tail).isText = s.isText := by
  cases s <;> rfl

theorem length_values (s : Sequence) : s.values.length = s.length := by
  cases s with
  | text s => rw [values, List.length_map, String.length_toList, length]
  | items xs => rfl

theorem length_reversed (s : Sequence) : s.reversed.length = s.length := by
  cases s with
  | text s => rw [reversed, length, String.length_ofList, List.length_reverse, String.length_toList, length]
  | items xs => exact Array.size_reverse

theorem values_reversed (s : Sequence) : s.reversed.values = s.values.reverse := by
  cases s with
  | text s => rw [reversed, values, String.toList_ofList, List.map_reverse, values]
  | items xs => exact Array.toList_reverse

theorem cleared_reversed (s : Sequence) : s.reversed.cleared = s.cleared := by
  cases s <;> rfl

theorem values_cleared (s : Sequence) : s.cleared.values = [] := by
  cases s <;> rfl

end Sequence

theorem toList_appendCopies (s text : String) (copies : ℕ) :
    (appendCopies s copies text).toList = text.toList ++ (List.replicate copies s.toList).flatten := by
  induction copies generalizing text with
  | zero => simp [appendCopies]
  | succ copies ih =>
      rw [appendCopies, ih, String.toList_append, List.append_assoc, List.replicate_succ, List.flatten_cons]

theorem toList_appendItems (xs items : Array Value) (copies : ℕ) :
    (appendItems xs copies items).toList = items.toList ++ (List.replicate copies xs.toList).flatten := by
  induction copies generalizing items with
  | zero => simp [appendItems]
  | succ copies ih =>
      rw [appendItems, ih, Array.toList_append, List.append_assoc, List.replicate_succ, List.flatten_cons]

namespace Sequence

theorem values_copied (s : Sequence) (copies tail : ℕ) :
    (s.copied copies tail).values = (List.replicate copies s.values).flatten ++ s.values.take tail := by
  cases s with
  | text s => simp [copied, values, toList_appendCopies, List.map_flatten, List.map_take]
  | items xs => simp [copied, values, toList_appendItems]

end Sequence

/-! ### The places of a fraction -/

namespace Operation

open Decimal

/-- The decimal product of a length and the fraction of a count, rounded to the nearest whole number. A product between
two whole numbers goes to the larger one. -/
def IsTail (length : ℕ) (count : ℚ) (tail : ℕ) : Prop :=
  ∃ fraction product : Decimal, fraction.value = Int.fract count ∧
    (Decimal.ofNat length).mul? fraction = some product ∧ (tail : ℤ) = ⌊product.value + 1 / 2⌋

theorem value_whole {count : Decimal} (hcount : 0 ≤ count.value) : count.whole.value = ⌊count.value⌋ := by
  rw [value_eq_div, coefficient_whole, show count.whole.scale = 0 from rfl, truncated_eq_floor hcount, pow_zero,
    div_one]

/-- Without its whole part a number has the same places, so it is not rounded. -/
theorem exists_value_eq_fract {count : Decimal} (hcount : 0 ≤ count.value) :
    ∃ fraction : Decimal, fraction.value = Int.fract count.value := by
  have hfits : (count.coefficient.tmod (powerOfTen count.scale)).natAbs < bound := by
    rw [Int.natAbs_tmod]
    exact Nat.lt_of_le_of_lt (Nat.mod_le _ _) count.coefficient_lt
  have hne : (powerOfTen count.scale : ℚ) ≠ 0 := Nat.cast_ne_zero.2 (powerOfTen_pos _).ne'
  refine ⟨ofCoefficient _ count.scale hfits count.scale_le, ?_⟩
  rw [value_ofCoefficient, ← cast_powerOfTen, Int.fract, ← truncated_eq_floor hcount, truncated, value,
    eq_sub_iff_add_eq, div_add' _ _ _ hne, div_left_inj' hne]
  exact_mod_cast (add_comm _ _).trans (Int.tdiv_mul_add_tmod count.coefficient (powerOfTen count.scale))

/-- A number of places that is not a length counts as all places, and neither is within the limit. -/
theorem fractionalPlaces_eq {count : Decimal} (hcount : 0 ≤ count.value) (length : ℕ) :
    ∃ tail ≤ length, IsTail length count.value tail ∧
      ∃ places, fractionalPlaces length count = pure places ∧
        (places = tail ∨ maxLength < places ∧ maxLength < tail) := by
  obtain ⟨fraction, hsub, hlt⟩ := sub?_whole count
  obtain ⟨product, hmul⟩ := Option.isSome_iff_exists.1 (isSome_ofNat_mul? length hlt)
  have hfraction : fraction.value = Int.fract count.value := by
    obtain ⟨exact, hexact⟩ := exists_value_eq_fract hcount
    have hnearest := (rounded_sub? count count.whole).nearest_of_eq_some hsub
    rw [value_whole hcount] at hnearest
    exact hnearest.value_eq hexact
  have hproduct := (rounded_mul? (ofNat length) fraction).nearest_of_eq_some hmul
  have hnonneg : 0 ≤ product.value :=
    hproduct.nonneg (mul_nonneg (value_ofNat_nonneg _) (hfraction ▸ Int.fract_nonneg _))
  have hle : product.value ≤ length := by
    refine hproduct.le_intCast (m := length) ?_
    calc (ofNat length).value * fraction.value ≤ (ofNat length).value * 1 :=
          mul_le_mul_of_nonneg_left (hfraction ▸ (Int.fract_lt_one _).le) (value_ofNat_nonneg _)
      _ ≤ length := by rw [mul_one]; exact value_ofNat_le length
  have hfloor : 0 ≤ ⌊product.value + 1 / 2⌋ := Int.floor_nonneg.2 (by linarith)
  have htail : ⌊product.value + 1 / 2⌋ ≤ length := by
    rw [← Int.lt_add_one_iff, Int.floor_lt]
    push_cast
    linarith
  rw [← rounded_eq_floor hnonneg] at hfloor htail
  refine ⟨product.rounded.toNat, by omega, ⟨fraction, product, hfraction, hmul, ?_⟩,
    min ((toSize? product.rounded).getD length) length, ?_, ?_⟩
  · rw [Int.toNat_of_nonneg hfloor, rounded_eq_floor hnonneg]
  · rw [fractionalPlaces, hsub, unfailing, pure_bind, hmul, unfailing, pure_bind]
  · unfold toSize?
    split_ifs with hsize
    · exact .inl (Nat.min_eq_left (by rw [Option.getD_some]; omega))
    · have hbound := maxLength_lt_sizeBound
      rw [Option.getD_none, min_self]
      omega

theorem IsTail.unique {length : ℕ} {count : ℚ} {tail tail' : ℕ} (h : IsTail length count tail)
    (h' : IsTail length count tail') : tail = tail' := by
  obtain ⟨fraction, product, hfraction, hmul, htail⟩ := h
  obtain ⟨fraction', product', hfraction', hmul', htail'⟩ := h'
  have hproduct := (rounded_mul? _ _).nearest_of_eq_some hmul
  have hproduct' := (rounded_mul? _ _).nearest_of_eq_some hmul'
  rw [hfraction] at hproduct
  rw [hfraction'] at hproduct'
  rw [hproduct.unique hproduct', ← htail'] at htail
  exact_mod_cast htail

/-- A whole count has no fraction to take places for. -/
theorem IsTail.eq_zero {length tail : ℕ} {m : ℤ} (h : IsTail length m tail) : tail = 0 := by
  obtain ⟨fraction, product, hfraction, hmul, htail⟩ := h
  have hproduct := (rounded_mul? _ _).nearest_of_eq_some hmul
  rw [hfraction, Int.fract_intCast, mul_zero] at hproduct
  have hzero : product.value = (0 : ℤ) := Nearest.value_eq_intCast (by rwa [Int.cast_zero])
  rw [hzero, Int.cast_zero, zero_add, show ⌊(1 / 2 : ℚ)⌋ = 0 by norm_num] at htail
  exact_mod_cast htail

/-! ### What a repetition comes to -/

/-- The answer of a repetition: a sequence, unless it would be too long. -/
def answer : Option Sequence → Action Heap Value
  | some s => ofSequence s
  | none => raise .lengthLimit

/-- A negative count turns the sequence round. -/
def turned (s : Sequence) (count : ℚ) : Sequence :=
  if count < 0 then s.reversed else s

theorem length_turned (s : Sequence) (count : ℚ) : (turned s count).length = s.length := by
  unfold turned
  split_ifs
  · exact s.length_reversed
  · rfl

theorem values_turned_neg {s : Sequence} {count : ℚ} (hcount : count ≠ 0) :
    (turned s (-count)).values = (turned s count).values.reverse := by
  unfold turned
  rcases lt_or_gt_of_ne hcount with hneg | hpos
  · rw [if_neg (by linarith), if_pos hneg, s.values_reversed, List.reverse_reverse]
  · rw [if_pos (by linarith), if_neg (by linarith), s.values_reversed]

/-- How many whole copies a count stands for. -/
def copies (count : ℚ) : ℕ :=
  ⌊|count|⌋.toNat

/-- What a sequence repeated by a count comes to. -/
inductive Repeating (s : Sequence) (count : ℚ) : Option Sequence → Prop where
  | empty (hempty : count = 0 ∨ s.length = 0) : Repeating s count (some s.cleared)
  | copied {tail : ℕ} (hcount : count ≠ 0) (hlength : s.length ≠ 0) (htail : IsTail s.length |count| tail)
      (hle : tail ≤ s.length) (hfits : copies count * s.length + tail ≤ maxLength) :
      Repeating s count (some ((turned s count).copied (copies count) tail))
  | long {tail : ℕ} (hcount : count ≠ 0) (hlength : s.length ≠ 0) (htail : IsTail s.length |count| tail)
      (hle : tail ≤ s.length) (hlong : maxLength < copies count * s.length + tail) : Repeating s count none

section

variable {s : Sequence} {count : Decimal}

/-- Whether copies and tail fit is decided as if all lengths could be computed: one that cannot be is too long. -/
theorem copiedLength?_eq_some {length tail : ℕ} {n : ℤ} (hlength : length ≠ 0) (hn : 0 ≤ n)
    (hfits : n.toNat * length + tail ≤ maxLength) :
    copiedLength? length (toSize? n) tail = some (length * n.toNat + tail) := by
  have hcopies : n.toNat ≤ n.toNat * length := Nat.le_mul_of_pos_right _ (Nat.pos_of_ne_zero hlength)
  rw [mul_comm] at hfits
  rw [mul_comm] at hcopies
  rw [copiedLength?, toSize?_of_fits hn (by omega), Option.bind_some, checkedMul?_of_fits (by omega), Option.bind_some,
    checkedAdd?_of_fits hfits]

theorem maxLength_lt_of_copiedLength? {length tail k : ℕ} {n : ℤ} (hlong : maxLength < n.toNat * length + tail)
    (hk : k ∈ copiedLength? length (toSize? n) tail) : maxLength < k := by
  have hcopies : (toSize? n).getD 0 = n.toNat := by
    cases hsize : toSize? n with
    | none => rw [hsize] at hk; cases hk
    | some m => rw [Option.getD_some, eq_of_toSize? hsize]
  rw [eq_of_copiedLength? hk, hcopies, mul_comm]
  exact hlong

theorem repeatedUpwards_eq (hcount : 0 ≤ count.value) :
    ∃ r, repeatedUpwards s count = answer r ∧ Repeating s count.value r := by
  rw [repeatedUpwards]
  simp only [Bool.or_eq_true, isZero_iff, beq_iff_eq]
  split_ifs with hempty
  · exact ⟨_, rfl, .empty hempty⟩
  obtain ⟨hzero, hlength⟩ := not_or.1 hempty
  obtain ⟨tail, hle, htail, places, hplaces, hsame⟩ := fractionalPlaces_eq hcount s.length
  have hnonneg : 0 ≤ count.truncated := by
    rw [truncated_eq_floor hcount]
    exact Int.floor_nonneg.2 hcount
  have hcopies : count.truncated.toNat = copies count.value := by
    rw [copies, abs_of_nonneg hcount, truncated_eq_floor hcount]
  have hturned : turned s count.value = s := if_neg (not_lt.2 hcount)
  rw [← abs_of_nonneg hcount] at htail
  rw [hplaces, pure_bind, count.truncated_whole]
  by_cases hfits : copies count.value * s.length + tail ≤ maxLength
  · obtain rfl : places = tail := by omega
    rw [← hcopies] at hfits
    refine ⟨some ((turned s count.value).copied (copies count.value) places), ?_,
      .copied hzero hlength htail hle (hcopies ▸ hfits)⟩
    rw [copiedLength?_eq_some hlength hnonneg hfits, checkedLength_of_fits (by rwa [mul_comm] at hfits), pure_bind,
      toSize?_of_fits hnonneg ?_, Option.getD_some, hcopies, hturned]
    · rfl
    · have hle : count.truncated.toNat ≤ count.truncated.toNat * s.length :=
        Nat.le_mul_of_pos_right _ (Nat.pos_of_ne_zero hlength)
      omega
  · refine ⟨none, ?_, .long hzero hlength htail hle (not_le.1 hfits)⟩
    have hlong : ∀ k ∈ copiedLength? s.length (toSize? count.truncated) places, maxLength < k := fun k hk =>
      maxLength_lt_of_copiedLength? (by rw [hcopies]; omega) hk
    rw [checkedLength_of_long hlong]
    rfl

theorem repeated_of_nonneg (hcount : 0 ≤ count.value) : repeated s count = repeatedUpwards s count :=
  if_neg fun hsign => absurd (isNegative_and_not_isZero_iff.1 hsign) (not_lt.2 hcount)

theorem repeated_of_neg (hcount : count.value < 0) : repeated s count = repeatedUpwards s.reversed count.neg :=
  if_pos (isNegative_and_not_isZero_iff.2 hcount)

theorem Repeating.of_reversed {count : ℚ} {r : Option Sequence} (hcount : count < 0)
    (h : Repeating s.reversed (-count) r) : Repeating s count r := by
  have hturned : turned s.reversed (-count) = turned s count := by
    rw [turned, turned, if_pos hcount, if_neg (by linarith)]
  have hcopies : copies (-count) = copies count := by rw [copies, copies, abs_neg]
  have hlength := s.length_reversed
  cases h with
  | empty hempty =>
      rw [s.cleared_reversed]
      exact .empty (.inr (hlength ▸ hempty.resolve_left (by linarith)))
  | copied _ hne htail hle hfits =>
      rw [hturned, hcopies]
      rw [hlength, hcopies] at hfits
      rw [hlength] at hne hle
      rw [hlength, abs_neg] at htail
      exact .copied hcount.ne hne htail hle hfits
  | long _ hne htail hle hlong =>
      rw [hlength, hcopies] at hlong
      rw [hlength] at hne hle
      rw [hlength, abs_neg] at htail
      exact .long hcount.ne hne htail hle hlong

theorem repeating_repeated (s : Sequence) (count : Decimal) :
    ∃ r, repeated s count = answer r ∧ Repeating s count.value r := by
  rcases lt_or_ge count.value 0 with hneg | hnonneg
  · have hnonneg : 0 ≤ count.neg.value := by
      rw [value_neg]
      linarith
    obtain ⟨r, hanswer, hr⟩ := repeatedUpwards_eq (s := s.reversed) hnonneg
    rw [value_neg] at hr
    exact ⟨r, by rw [repeated_of_neg hneg, hanswer], hr.of_reversed hneg⟩
  · rw [repeated_of_nonneg hnonneg]
    exact repeatedUpwards_eq hnonneg

end

theorem repetition_eq {h : Heap} {v : Value} {s : Sequence} (hs : h.sequence? v = some s) (count : Decimal) :
    repetition v (.number count) h = repeated s count h := by
  cases v with
  | string text =>
      cases hs
      rfl
  | array id =>
      cases hs
      rfl
  | _ => cases hs

namespace Repeating

variable {s : Sequence} {count : ℚ} {r : Option Sequence}

theorem isText (h : Repeating s count r) : ∀ r' ∈ r, r'.isText = s.isText := by
  have hturned : (turned s count).isText = s.isText := by
    unfold turned
    split_ifs <;> simp
  intro r' hr'
  cases h with
  | empty => cases hr'; simp
  | copied => cases hr'; simp [hturned]
  | long => cases hr'

theorem values_of_empty (h : Repeating s count r) (hempty : count = 0 ∨ s.length = 0) :
    r.map Sequence.values = some [] := by
  cases h with
  | empty => rw [Option.map_some, s.values_cleared]
  | copied hcount hlength => exact absurd hempty (not_or.2 ⟨hcount, hlength⟩)
  | long hcount hlength => exact absurd hempty (not_or.2 ⟨hcount, hlength⟩)

theorem exists_tail (h : Repeating s count r) (hcount : count ≠ 0) (hlength : s.length ≠ 0) :
    ∃ tail ≤ s.length, IsTail s.length |count| tail ∧
      r.map Sequence.values =
        if copies count * s.length + tail ≤ maxLength then
          some ((List.replicate (copies count) (turned s count).values).flatten ++ (turned s count).values.take tail)
        else none := by
  cases h with
  | empty hempty => exact absurd hempty (not_or.2 ⟨hcount, hlength⟩)
  | copied _ _ htail hle hfits =>
      exact ⟨_, hle, htail, by rw [if_pos hfits, Option.map_some, Sequence.values_copied]⟩
  | long _ _ htail hle hlong => exact ⟨_, hle, htail, by rw [if_neg (not_le.2 hlong), Option.map_none]⟩

/-- A repetition sees nothing of a sequence but what it holds. -/
theorem map_values_eq {s' : Sequence} {r' : Option Sequence} (h : Repeating s count r) (h' : Repeating s' count r')
    (hvalues : s'.values = s.values) : r'.map Sequence.values = r.map Sequence.values := by
  have hlength : s'.length = s.length := by rw [← s'.length_values, hvalues, s.length_values]
  by_cases hempty : count = 0 ∨ s.length = 0
  · rw [h.values_of_empty hempty, h'.values_of_empty (hlength ▸ hempty)]
  · obtain ⟨hcount, hne⟩ := not_or.1 hempty
    obtain ⟨tail, -, htail, hmap⟩ := h.exists_tail hcount hne
    obtain ⟨tail', -, htail', hmap'⟩ := h'.exists_tail hcount (hlength ▸ hne)
    have hturned : (turned s' count).values = (turned s count).values := by
      unfold turned
      split_ifs
      · rw [Sequence.values_reversed, Sequence.values_reversed, hvalues]
      · exact hvalues
    rw [hlength] at htail' hmap'
    rw [hmap', hmap, htail'.unique htail, hturned]

theorem copies_intCast (m : ℤ) : copies m = m.natAbs := by
  rw [copies, ← Int.cast_abs, Int.floor_intCast, Int.abs_eq_natAbs, Int.toNat_natCast]

/-- A whole count repeats a sequence without a remainder. -/
theorem map_values_of_whole {m : ℤ} (h : Repeating s m r) :
    r.map Sequence.values =
      if m.natAbs * s.length ≤ maxLength then some (List.replicate m.natAbs (turned s m).values).flatten else none := by
  by_cases hempty : (m : ℚ) = 0 ∨ s.length = 0
  · have hzero : m.natAbs * s.length = 0 := by
      rcases hempty with hm | hlength
      · rw [Int.cast_eq_zero.1 hm, Int.natAbs_zero, zero_mul]
      · rw [hlength, mul_zero]
    have hnil : (List.replicate m.natAbs (turned s m).values).flatten = [] := by
      refine List.eq_nil_of_length_eq_zero ?_
      rw [List.length_flatten, List.map_replicate, List.sum_replicate, Sequence.length_values, length_turned]
      exact hzero
    rw [h.values_of_empty hempty, if_pos (hzero ▸ Nat.zero_le _), hnil]
  · obtain ⟨hm, hlength⟩ := not_or.1 hempty
    obtain ⟨tail, -, htail, hmap⟩ := h.exists_tail hm hlength
    rw [← Int.cast_abs] at htail
    rw [hmap, htail.eq_zero, copies_intCast, List.take_zero, List.append_nil, Nat.add_zero]

/-- The opposite of a whole count repeats a sequence backwards. -/
theorem map_reverse_of_whole {m : ℤ} {back : Option Sequence} (h : Repeating s m r)
    (hback : Repeating s (-m : ℤ) back) : back.map Sequence.values = r.map (·.reversed.values) := by
  have hreverse : r.map (·.reversed.values) = (r.map Sequence.values).map List.reverse := by
    rw [Option.map_map]
    exact congrArg (Option.map · r) (funext Sequence.values_reversed)
  rw [hreverse, h.map_values_of_whole, hback.map_values_of_whole, Int.natAbs_neg]
  split_ifs with hfits
  · rw [Option.map_some, List.reverse_flatten, List.map_replicate, List.reverse_replicate]
    rcases eq_or_ne m 0 with rfl | hm
    · rfl
    · rw [Int.cast_neg, values_turned_neg (Int.cast_ne_zero.2 hm)]
  · rfl

end Repeating

/-- **Repetitions.** A sequence times zero is empty, and so is an empty one times anything. Otherwise there are as many
copies as the whole part of the count says, of the reverse if the count is negative, and behind them the first places
for its fraction; only what would be too long has no result. Texts and arrays do not differ in this, and with a whole
count a repetition has no remainder and the opposite count gives its reverse. -/
theorem repetition_of_sequence {h : Heap} {v : Value} {s : Sequence} (hs : h.sequence? v = some s) (n : Decimal) :
    ∃ r : Option Sequence, repetition v (.number n) h = answer r h ∧ (∀ r' ∈ r, r'.isText = s.isText) ∧
      (n.value = 0 ∨ s.length = 0 → r.map Sequence.values = some []) ∧
      (n.value ≠ 0 → s.length ≠ 0 →
        ∃ tail ≤ s.length, IsTail s.length |n.value| tail ∧ ((∃ m : ℤ, n.value = m) → tail = 0) ∧
          r.map Sequence.values =
            if copies n.value * s.length + tail ≤ maxLength then
              some ((List.replicate (copies n.value) (turned s n.value).values).flatten ++
                (turned s n.value).values.take tail)
            else none) ∧
      (∀ (h' : Heap) (v' : Value) (s' : Sequence), h'.sequence? v' = some s' → s'.values = s.values →
        ∃ r' : Option Sequence, repetition v' (.number n) h' = answer r' h' ∧
          r'.map Sequence.values = r.map Sequence.values) ∧
      ∀ m : ℤ, n.value = m →
        (∀ r' ∈ r, r'.length = m.natAbs * s.length) ∧
        ∃ back : Option Sequence, repetition v (.number n.neg) h = answer back h ∧
          back.map Sequence.values = r.map (·.reversed.values) := by
  obtain ⟨r, hanswer, hr⟩ := repeating_repeated s n
  refine ⟨r, by rw [repetition_eq hs, hanswer], hr.isText, hr.values_of_empty, fun hn hlength => ?_,
    fun h' v' s' hs' hvalues => ?_, fun m hm => ⟨fun r' hr' => ?_, ?_⟩⟩
  · obtain ⟨tail, hle, htail, hmap⟩ := hr.exists_tail hn hlength
    refine ⟨tail, hle, htail, fun ⟨m, hm⟩ => ?_, hmap⟩
    rw [hm, ← Int.cast_abs] at htail
    exact htail.eq_zero
  · obtain ⟨r', hanswer', hr'⟩ := repeating_repeated s' n
    exact ⟨r', by rw [repetition_eq hs', hanswer'], hr.map_values_eq hr' hvalues⟩
  · rw [hm] at hr
    have hmap := hr.map_values_of_whole
    rw [Option.mem_def.1 hr', Option.map_some] at hmap
    split_ifs at hmap
    rw [← r'.length_values, Option.some.inj hmap, List.length_flatten, List.map_replicate, List.sum_replicate,
      Sequence.length_values, length_turned]
    rfl
  · obtain ⟨back, hanswer', hback⟩ := repeating_repeated s n.neg
    rw [value_neg, hm, ← Int.cast_neg] at hback
    rw [hm] at hr
    exact ⟨back, by rw [repetition_eq hs, hanswer'], hr.map_reverse_of_whole hback⟩

/-- Minus two and a half times a text of three characters: its reverse twice, and for half of it two characters more,
because one and a half is rounded up. -/
theorem repetition_of_text :
    ∃ r : Option Sequence,
      repetition (.string "abc") (.number ⟨true, 25, 1, by decide, by decide⟩) Heap.empty = answer r Heap.empty ∧
      copies (-5 / 2) = 2 ∧ IsTail 3 (5 / 2) 2 ∧
      r.map Sequence.values = some
        ((List.replicate 2 [Value.string "c", .string "b", .string "a"]).flatten ++ [.string "c", .string "b"]) := by
  have hvalue : Decimal.value ⟨true, 25, 1, by decide, by decide⟩ = -5 / 2 := by
    norm_num [value_eq_div, coefficient]
  have hcopies : copies (-5 / 2) = 2 := by decide +kernel
  have htwo : IsTail 3 (5 / 2) 2 := by
    refine ⟨⟨false, 5, 1, by decide, by decide⟩, ⟨false, 15, 1, by decide, by decide⟩, ?_, rfl, ?_⟩
    · rw [show Int.fract (5 / 2 : ℚ) = 1 / 2 by decide +kernel]
      norm_num [value_eq_div, coefficient]
    · norm_num [value_eq_div, coefficient]
  obtain ⟨r, hanswer, -, -, hcopied, -⟩ := repetition_of_sequence (h := Heap.empty) (v := .string "abc") rfl
    ⟨true, 25, 1, by decide, by decide⟩
  rw [hvalue] at hcopied
  obtain ⟨tail, -, htail, -, hmap⟩ := hcopied (by norm_num) (by decide)
  obtain rfl : tail = 2 := htail.unique (by
    rw [show |(-5 / 2 : ℚ)| = 5 / 2 by norm_num [abs_of_neg]]
    exact htwo)
  refine ⟨r, hanswer, hcopies, htwo, ?_⟩
  rw [hmap, hcopies, if_pos (by decide), turned, if_pos (by norm_num)]
  rfl

/-! ### The sign of zero -/

/-- **The sign of zero shows nowhere.** The zero that negation makes of a zero compares with every number as that does,
has its text and its whole part, and repeats nothing as it does. -/
theorem sign_of_zero_unseen {zero : Decimal} (hzero : zero.isZero = true) :
    (∀ a, zero.neg.equals a = zero.equals a ∧ a.lt zero.neg = a.lt zero ∧ zero.neg.lt a = zero.lt a) ∧
      zero.neg.normalized.text = zero.normalized.text ∧ zero.neg.truncated = zero.truncated ∧
      ∀ s, repeated s zero.neg = repeated s zero := by
  have hvalue : zero.neg.value = zero.value := by rw [value_neg, isZero_iff.1 hzero, neg_zero]
  have htruncated : zero.truncated = 0 := by
    rw [truncated_eq_floor (isZero_iff.1 hzero).ge, isZero_iff.1 hzero, Int.floor_zero]
  refine ⟨fun a => ⟨?_, ?_, ?_⟩, by rw [normalized_eq_iff.2 hvalue], ?_, fun s => ?_⟩
  · rw [Bool.eq_iff_iff, equals_iff, equals_iff, hvalue]
  · rw [Bool.eq_iff_iff, lt_iff, lt_iff, hvalue]
  · rw [Bool.eq_iff_iff, lt_iff, lt_iff, hvalue]
  · rw [truncated_neg, htruncated, neg_zero]
  · have hflipped : zero.neg.isZero = true := hzero
    rw [repeated_of_nonneg (hvalue ▸ (isZero_iff.1 hzero).ge), repeated_of_nonneg (isZero_iff.1 hzero).ge,
      repeatedUpwards, repeatedUpwards, hzero, hflipped]
    rfl

example : repetition (.string "abc") (.number Decimal.zero.neg) Heap.empty = ofSequence (.text "") Heap.empty := by
  rfl

end Operation

end LineScript
