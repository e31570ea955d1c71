import LineScript.Operation.Sequence
import LineScript.Proofs.Operation.Repetition
/-!
# Slices

The places of a slice are integers of any size: counted from the end if they are negative, and then moved into the
sequence. The program keeps them within 64 bits at every step, and that makes no difference, because a length is an
integer of 64 bits too: what is saturated lies outside the sequence before and after. Which items a slice has does not
depend on whether they are characters or values.
-/

namespace LineScript

/-! ### Whole parts -/

/-- A number without its fraction. -/
def wholePart (x : ℚ) : ℤ :=
  if x < 0 then ⌈x⌉ else ⌊x⌋

theorem wholePart_of_nonneg {x : ℚ} (hx : 0 ≤ x) : wholePart x = ⌊x⌋ :=
  if_neg (not_lt.2 hx)

theorem wholePart_zero : wholePart 0 = 0 := by
  decide

theorem wholePart_neg_one : wholePart (-1) = -1 := by
  decide

theorem Decimal.truncated_eq_wholePart (a : Decimal) : a.truncated = wholePart a.value := by
  rcases lt_or_ge a.value 0 with hneg | hnonneg
  · have hflipped : 0 ≤ a.neg.value := by rw [value_neg]; linarith
    have htruncated := truncated_eq_floor hflipped
    rw [truncated_neg, value_neg, Int.floor_neg, neg_inj] at htruncated
    rw [wholePart, if_pos hneg, htruncated]
  · rw [wholePart_of_nonneg hnonneg, truncated_eq_floor hnonneg]

/-! ### Parts of a sequence -/

namespace Sequence

variable {s t : Sequence}

theorem values_part (s : Sequence) (start stop : ℕ) : (s.part start stop).values = (s.values.take stop).drop start := by
  cases s with
  | text s =>
      rw [part, values, values, String.toList_ofList, ← List.drop_take, List.map_drop, List.map_take]
  | items xs =>
      rw [part, values, values, Array.toList_extract, List.extract_eq_take_drop, List.drop_take]

@[simp] theorem isText_part (s : Sequence) (start stop : ℕ) : (s.part start stop).isText = s.isText := by
  cases s <;> rfl

/-- A sequence is its kind and what it holds. -/
theorem eq_of_values (hkind : s.isText = t.isText) (hvalues : s.values = t.values) : s = t := by
  cases s <;> cases t
  · rename_i s t
    have hinjective : Function.Injective fun c : Char => Value.string (String.singleton c) := fun c d hcd => by
      simpa using congrArg String.toList (Value.string.inj hcd)
    exact congrArg text (String.toList_inj.1 (List.map_injective_iff.2 hinjective hvalues))
  · cases hkind
  · cases hkind
  · exact congrArg items (Array.toList_inj.1 hvalues)

end Sequence

/-! ### Places without bounds -/

namespace Operation

open Decimal

/-- The first place of a slice of a sequence of so many items. -/
def firstPlace (length start : ℤ) : ℤ :=
  max 0 (min (if start < 0 then length + start else start) (max (length - 1) 0))

/-- The place behind the last one of a slice of a sequence of so many items. -/
def endPlace (length stop : ℤ) : ℤ :=
  max 0 (min (if stop < 0 then length + stop + 1 else stop) length)

section

variable {length : ℕ}

theorem sliceStart_saturated (hlength : length < wordBound) (start : ℤ) :
    sliceStart length (saturated start) = (firstPlace length start).toNat := by
  have hword : wordBound = 2 ^ 63 := rfl
  simp only [sliceStart, firstPlace, saturated]
  split_ifs <;> omega

theorem sliceStop_saturated (hlength : length < wordBound) (stop : ℤ) :
    sliceStop length (saturated stop) = (endPlace length stop).toNat := by
  have hword : wordBound = 2 ^ 63 := rfl
  simp only [sliceStop, endPlace, saturated]
  split_ifs <;> omega

/-- A place of the sequence is where a slice from it begins and a slice up to it ends. -/
theorem firstPlace_of_lt {place : ℤ} (hnonneg : 0 ≤ place) (hlt : place < length) :
    firstPlace length place = place := by
  rw [firstPlace, if_neg (not_lt.2 hnonneg)]
  omega

theorem endPlace_of_lt {place : ℤ} (hnonneg : 0 ≤ place) (hlt : place < length) : endPlace length place = place := by
  rw [endPlace, if_neg (not_lt.2 hnonneg)]
  omega

theorem firstPlace_zero (length : ℕ) : firstPlace length 0 = 0 := by
  rw [firstPlace, if_neg (lt_irrefl 0)]
  omega

theorem endPlace_neg_one (length : ℕ) : endPlace length (-1) = length := by
  rw [endPlace, if_pos (by omega)]
  omega

end

/-! ### Slices -/

/-- The items of a slice, for any places. -/
def sliced {α : Type} (items : List α) (start stop : ℤ) : List α :=
  (items.take (endPlace items.length stop).toNat).drop (firstPlace items.length start).toNat

section

variable {α : Type} (items : List α)

theorem getElem?_sliced (start stop : ℤ) (i : ℕ) :
    (sliced items start stop)[i]? =
      if firstPlace items.length start + i < endPlace items.length stop then
        items[(firstPlace items.length start).toNat + i]?
      else none := by
  have hfirst : 0 ≤ firstPlace items.length start := le_max_left _ _
  have hend : 0 ≤ endPlace items.length stop := le_max_left _ _
  rw [sliced, List.getElem?_drop, List.getElem?_take]
  exact if_congr (by omega) rfl rfl

theorem sliced_whole : sliced items 0 (-1) = items := by
  rw [sliced, firstPlace_zero, endPlace_neg_one, Int.toNat_natCast, List.take_length, Int.toNat_zero, List.drop_zero]

theorem sliced_append_sliced {place : ℤ} (hnonneg : 0 ≤ place) (hlt : place < items.length) :
    sliced items 0 place ++ sliced items place (-1) = items := by
  rw [sliced, sliced, firstPlace_zero, endPlace_neg_one, endPlace_of_lt hnonneg hlt, firstPlace_of_lt hnonneg hlt,
    Int.toNat_natCast, List.take_length, Int.toNat_zero, List.drop_zero, List.take_append_drop]

end

section

variable {h : Heap} {v : Value} {s : Sequence}

theorem slice_eq (hs : h.sequence? v = some s) (hlength : s.length < wordBound) (start stop : Decimal) :
    slice v (.number start) (.number stop) h =
      ofSequence (s.part (firstPlace s.length start.truncated).toNat (endPlace s.length stop.truncated).toNat) h := by
  rw [← sliceStart_saturated hlength, ← sliceStop_saturated hlength]
  cases v with
  | string text =>
      cases hs
      rfl
  | array id =>
      cases hs
      rfl
  | _ => cases hs

/-- What a slice comes to is a sequence of the same kind, with the items between its places. -/
theorem exists_slice_eq (hs : h.sequence? v = some s) (hlength : s.length < wordBound) (start stop : Decimal) :
    ∃ r : Sequence, slice v (.number start) (.number stop) h = ofSequence r h ∧ r.isText = s.isText ∧
      r.values = sliced s.values (wholePart start.value) (wholePart stop.value) := by
  refine ⟨_, slice_eq hs hlength start stop, s.isText_part _ _, ?_⟩
  rw [s.values_part, sliced, s.length_values, start.truncated_eq_wholePart, stop.truncated_eq_wholePart]

end

/-- **Slices.** A slice has the items from its first place up to its end place, whatever numbers these are given by, and
never fails. It is the same for the characters of a text as for the items of an array, from zero to minus one it is the
whole sequence, and what is cut at one of its places lies on the two sides of it. -/
theorem slice_of_sequence {h : Heap} {v : Value} {s : Sequence} (hs : h.sequence? v = some s)
    (hlength : s.length < wordBound) :
    (∀ start stop : Decimal, ∃ r : Sequence,
      slice v (.number start) (.number stop) h = ofSequence r h ∧ r.isText = s.isText ∧
        (∀ i : ℕ, r.values[i]? =
          if firstPlace s.length (wholePart start.value) + i < endPlace s.length (wholePart stop.value) then
            s.values[(firstPlace s.length (wholePart start.value)).toNat + i]?
          else none) ∧
        ∀ (h' : Heap) (v' : Value) (s' : Sequence), h'.sequence? v' = some s' → s'.values = s.values →
          ∃ r' : Sequence, slice v' (.number start) (.number stop) h' = ofSequence r' h' ∧ r'.values = r.values) ∧
      (∀ zero minusOne : Decimal, zero.value = 0 → minusOne.value = -1 →
        slice v (.number zero) (.number minusOne) h = ofSequence s h ∧
          ∀ k : Decimal, 0 ≤ k.value → k.value < s.length →
            ∃ before behind : Sequence, slice v (.number zero) (.number k) h = ofSequence before h ∧
              slice v (.number k) (.number minusOne) h = ofSequence behind h ∧
              before.values ++ behind.values = s.values) := by
  refine ⟨fun start stop => ?_, fun zero minusOne hzero hminusOne => ⟨?_, fun k hnonneg hlt => ?_⟩⟩
  · obtain ⟨r, hr, hkind, hvalues⟩ := exists_slice_eq hs hlength start stop
    refine ⟨r, hr, hkind, fun i => ?_, fun h' v' s' hs' hsame => ?_⟩
    · rw [hvalues, getElem?_sliced, s.length_values]
    · have hlength' : s'.length < wordBound := by rwa [← s'.length_values, hsame, s.length_values]
      obtain ⟨r', hr', -, hvalues'⟩ := exists_slice_eq hs' hlength' start stop
      exact ⟨r', hr', by rw [hvalues', hsame, hvalues]⟩
  · obtain ⟨r, hr, hkind, hvalues⟩ := exists_slice_eq hs hlength zero minusOne
    have hwhole : sliced s.values (wholePart zero.value) (wholePart minusOne.value) = s.values := by
      rw [hzero, hminusOne, wholePart_zero, wholePart_neg_one, sliced_whole]
    rw [hr, Sequence.eq_of_values hkind (hvalues.trans hwhole)]
  · obtain ⟨before, hbefore, -, hvalues⟩ := exists_slice_eq hs hlength zero k
    obtain ⟨behind, hbehind, -, hvalues'⟩ := exists_slice_eq hs hlength k minusOne
    refine ⟨before, behind, hbefore, hbehind, ?_⟩
    rw [hvalues, hvalues', hzero, hminusOne, wholePart_zero, wholePart_neg_one, wholePart_of_nonneg hnonneg]
    refine sliced_append_sliced _ (Int.floor_nonneg.2 hnonneg) ?_
    rw [s.length_values, Int.floor_lt]
    exact_mod_cast hlt

/-- A text of five characters cut at its third one. -/
theorem slice_of_text :
    ∃ before behind : Sequence,
      slice (.string "abcde") (.number ⟨false, 0, 0, by decide, by decide⟩)
        (.number ⟨false, 2, 0, by decide, by decide⟩) Heap.empty = ofSequence before Heap.empty ∧
      slice (.string "abcde") (.number ⟨false, 2, 0, by decide, by decide⟩) (.number ⟨true, 1, 0, by decide, by decide⟩)
        Heap.empty = ofSequence behind Heap.empty ∧
      before.values ++ behind.values = (Sequence.text "abcde").values := by
  have hlength : (Sequence.text "abcde").length = 5 := by decide
  obtain ⟨-, hcut⟩ := slice_of_sequence (h := Heap.empty) (v := .string "abcde") (s := .text "abcde") rfl (by decide)
  refine (hcut ⟨false, 0, 0, by decide, by decide⟩ ⟨true, 1, 0, by decide, by decide⟩ ?_ ?_).2
    ⟨false, 2, 0, by decide, by decide⟩ ?_ ?_
  · norm_num [value_eq_div, coefficient]
  · norm_num [value_eq_div, coefficient]
  · norm_num [value_eq_div, coefficient]
  · norm_num [value_eq_div, coefficient, hlength]

example : slice (.string "abcde") (.number ⟨true, 39, 1, by decide, by decide⟩)
    (.number ⟨false, 4, 0, by decide, by decide⟩) Heap.empty = ofSequence (.text "cd") Heap.empty := by
  rfl

end Operation

end LineScript
