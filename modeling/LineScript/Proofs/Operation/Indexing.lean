import Mathlib.Tactic.NormNum
import LineScript.Proofs.Decimal.Value
import LineScript.Proofs.Heap.Evolution
/-!
# Items by their places

A place of an array is given by a number, of which only the value matters: it has to be an integer, not below zero,
and one that the array has. A write may also be to a place behind the end, as far as the limit of lengths goes. What
is written at a place is there to be read until something else is written there, and a write that fails leaves
everything as it was.
-/

namespace LineScript

namespace Decimal

theorem coefficient_eq_of_value {n : Decimal} {i : ℤ} (hn : n.value = i) : n.coefficient = i * powerOfTen n.scale := by
  have hpos : (powerOfTen n.scale : ℚ) ≠ 0 := Nat.cast_ne_zero.2 (powerOfTen_pos n.scale).ne'
  rw [value, div_eq_iff hpos] at hn
  exact_mod_cast hn

theorem truncated_of_value {n : Decimal} {i : ℤ} (hn : n.value = i) : n.truncated = i := by
  rw [truncated, coefficient_eq_of_value hn]
  exact Int.mul_tdiv_cancel _ (Int.natCast_ne_zero.2 (powerOfTen_pos n.scale).ne')

/-- A number without a fraction is one whose value is an integer, at whatever scale. -/
theorem isInteger_iff {n : Decimal} : n.isInteger = true ↔ ∃ i : ℤ, n.value = i := by
  constructor
  · intro hinteger
    refine ⟨n.truncated, ?_⟩
    have hrest : n.coefficient.tmod (powerOfTen n.scale) = 0 := by simpa [isInteger] using hinteger
    have hdiv := Int.mul_tdiv_add_tmod n.coefficient (powerOfTen n.scale)
    rw [hrest, add_zero] at hdiv
    have hpos : (powerOfTen n.scale : ℚ) ≠ 0 := Nat.cast_ne_zero.2 (powerOfTen_pos n.scale).ne'
    rw [value, div_eq_iff hpos, mul_comm]
    exact_mod_cast hdiv.symm
  · rintro ⟨i, hn⟩
    rw [isInteger, coefficient_eq_of_value hn, Int.mul_tmod_left]
    rfl

end Decimal

namespace Heap

theorem items_modifyItems_of_ne (h : Heap) {id other : ArrayId} (hother : other ≠ id)
    (f : Array Value → Array Value) : (h.modifyItems id f).items other = h.items other := by
  have hindex : id.index ≠ other.index := fun hindex => hother (by cases id; cases other; simp_all)
  unfold items modifyItems
  rw [Array.getElem?_modify, if_neg hindex]

theorem items_modifyItems_self {h : Heap} {id : ArrayId} (hid : id.index < h.arrays.size)
    (f : Array Value → Array Value) : (h.modifyItems id f).items id = f (h.items id) := by
  rw [items_modifyItems h id f hid, if_pos rfl]

/-- The second heap is the first with a value written at a place of an array, which has grown for it if need be. -/
structure Writes (id : ArrayId) (place : ℕ) (v : Value) (h h' : Heap) : Prop where
  size_items : (h'.items id).size = max (h.items id).size (place + 1)
  written : (h'.items id)[place]? = some v
  others : ∀ other < (h.items id).size, other ≠ place → (h'.items id)[other]? = (h.items id)[other]?
  filled : ∀ other < place, (h.items id).size ≤ other → (h'.items id)[other]? = some .none
  elsewhere : ∀ other ≠ id, h'.items other = h.items other
  size_arrays : h'.arrays.size = h.arrays.size
  objects : h'.objects = h.objects
  functions : h'.functions = h.functions

end Heap

namespace Operation

theorem getElem?_resized {length : ℕ} {items : Array Value} (hlength : items.size ≤ length) {place : ℕ}
    (hplace : place < length) :
    (resized length items)[place]? = if place < items.size then items[place]? else some .none := by
  unfold resized
  split
  · obtain rfl : length = items.size := by omega
    rw [if_pos hplace, Array.take_eq_extract, Array.extract_size]
  · rw [Array.getElem?_append]
    split
    · rfl
    · rw [Array.getElem?_replicate, if_pos (by omega)]

variable {h : Heap} {id : ArrayId}

theorem writes_of_lt (hid : id.index < h.arrays.size) {place : ℕ} (hplace : place < (h.items id).size) (v : Value) :
    h.Writes id place v (h.modifyItems id fun items => items.setIfInBounds place v) where
  size_items := by
    rw [Heap.items_modifyItems_self hid, Array.size_setIfInBounds]
    omega
  written := by rw [Heap.items_modifyItems_self hid, Array.getElem?_setIfInBounds_self_of_lt hplace]
  others other _ hne := by rw [Heap.items_modifyItems_self hid, Array.getElem?_setIfInBounds_ne (Ne.symm hne)]
  filled other hlt hge := by omega
  elsewhere other hne := h.items_modifyItems_of_ne hne _
  size_arrays := Array.size_modify
  objects := rfl
  functions := rfl

theorem writes_of_le (hid : id.index < h.arrays.size) {place : ℕ} (hsize : (h.items id).size ≤ place) (v : Value) :
    h.Writes id place v
      ((h.modifyItems id (resized (place + 1))).modifyItems id fun items => items.setIfInBounds place v) := by
  have hgrown : (h.modifyItems id (resized (place + 1))).items id = resized (place + 1) (h.items id) :=
    Heap.items_modifyItems_self hid _
  have hlength : ((h.modifyItems id (resized (place + 1))).items id).size = place + 1 := by
    rw [hgrown, Heap.size_resized]
  have hwrites : (h.modifyItems id (resized (place + 1))).Writes id place v _ :=
    writes_of_lt (lt_of_lt_of_eq hid Array.size_modify.symm) (by omega) v
  refine ⟨?_, hwrites.written, fun other hlt hne => ?_, fun other hlt hge => ?_, fun other hne => ?_, ?_, rfl, rfl⟩
  · rw [hwrites.size_items, hlength]
    omega
  · rw [hwrites.others other (by omega) hne, hgrown, getElem?_resized (by omega) (by omega), if_pos hlt]
  · rw [hwrites.others other (by omega) (by omega), hgrown, getElem?_resized (by omega) (by omega), if_neg (by omega)]
  · rw [hwrites.elsewhere other hne, h.items_modifyItems_of_ne hne]
  · rw [hwrites.size_arrays]
    exact Array.size_modify

/-! ### What a number means as a place -/

/-- The number is not a place of any array, and this is what is said of it. -/
inductive Refuses (h : Heap) (n : Decimal) : RuntimeCause → Prop
  | fraction (hn : ∀ i : ℤ, n.value ≠ i) : Refuses h n (.indexNotInteger (h.display (.number n)))
  | tooLarge {i : ℤ} (hn : n.value = i) (hi : i < -wordBound ∨ wordBound ≤ i) : Refuses h n (.indexTooLarge n)
  | negative {i : ℤ} (hn : n.value = i) (hi : -wordBound ≤ i) (hneg : i < 0) : Refuses h n (.indexOutOfRange i)

/-- What is refused is no place, unless one that no array of a machine can have. -/
theorem Refuses.wordBound_le {n : Decimal} {cause : RuntimeCause} (hrefuses : Refuses h n cause) {place : ℕ}
    (hn : n.value = place) : wordBound ≤ place := by
  have hvalue {i : ℤ} (hi : n.value = i) : i = place := by exact_mod_cast hi.symm.trans hn
  cases hrefuses with
  | fraction hfraction => exact (hfraction place (by rw [hn, Int.cast_natCast])).elim
  | tooLarge hi hlarge =>
      have := hvalue hi
      omega
  | negative hi hlow hneg =>
      have := hvalue hi
      omega

theorem arrayAndIndex_cases (v index : Value) (h : Heap) :
    (∃ id place, arrayAndIndex v index h = .ok (id, place) h) ∨ ∃ cause, arrayAndIndex v index h = raise cause h := by
  unfold arrayAndIndex
  split
  · split
    · split
      · split
        · exact .inl ⟨_, _, rfl⟩
        · exact .inr ⟨_, rfl⟩
      · exact .inr ⟨_, rfl⟩
    · exact .inr ⟨_, rfl⟩
  · exact .inr ⟨_, rfl⟩

theorem arrayAndIndex_of_value (id : ArrayId) {n : Decimal} {i : ℤ} (hn : n.value = i) (h : Heap) :
    arrayAndIndex (.array id) (.number n) h =
      if saturated i = i then .ok (id, i) h else raise (.indexTooLarge n) h := by
  have hinteger : n.isInteger = true := Decimal.isInteger_iff.2 ⟨i, hn⟩
  rw [arrayAndIndex, if_pos hinteger, Decimal.truncated_of_value hn]
  split <;> rfl

theorem arrayAndIndex_of_fraction (id : ArrayId) {n : Decimal} (hn : ∀ i : ℤ, n.value ≠ i) (h : Heap) :
    arrayAndIndex (.array id) (.number n) h = raise (.indexNotInteger (h.display (.number n))) h := by
  have hfraction : ¬ n.isInteger = true := fun hinteger => (Decimal.isInteger_iff.1 hinteger).elim hn
  rw [arrayAndIndex, if_neg hfraction]
  rfl

theorem saturated_eq_iff {i : ℤ} : saturated i = i ↔ -wordBound ≤ i ∧ i < wordBound := by
  have hword : wordBound = 9223372036854775808 := by decide
  unfold saturated
  omega

theorem readItem_of_ok {v index : Value} {i : ℤ} (hindex : arrayAndIndex v index h = .ok (id, i) h) :
    readItem v index h = getItem id i h :=
  Action.bind_of_ok hindex

theorem writeItem_of_ok {v index : Value} {i : ℤ} (hindex : arrayAndIndex v index h = .ok (id, i) h) (item : Value) :
    writeItem v index item h = setItem id i item h :=
  Action.bind_of_ok hindex

/-- A number is a place, or it is refused wherever an item is read or written. -/
theorem place_or_refuses (h : Heap) (id : ArrayId) (n : Decimal) :
    (∃ place : ℕ, n.value = place ∧ place < wordBound ∧
      arrayAndIndex (.array id) (.number n) h = .ok (id, (place : ℤ)) h) ∨
      ∃ cause, Refuses h n cause ∧ readItem (.array id) (.number n) h = raise cause h ∧
        ∀ v, writeItem (.array id) (.number n) v h = raise cause h := by
  by_cases hfraction : ∀ i : ℤ, n.value ≠ i
  · have hindex := arrayAndIndex_of_fraction id hfraction h
    exact .inr ⟨_, .fraction hfraction, Action.bind_of_error hindex, fun v => Action.bind_of_error hindex⟩
  obtain ⟨i, hn⟩ : ∃ i : ℤ, n.value = i := by simpa using hfraction
  have hindex := arrayAndIndex_of_value id hn h
  by_cases hword : saturated i = i
  · rw [if_pos hword] at hindex
    rw [saturated_eq_iff] at hword
    by_cases hneg : i < 0
    · refine .inr ⟨_, .negative hn hword.1 hneg, ?_, fun v => ?_⟩
      · rw [readItem_of_ok hindex]
        exact congrFun (if_pos hneg) h
      · rw [writeItem_of_ok hindex, setItem_of_neg id hneg]
    · obtain ⟨place, rfl⟩ := Int.eq_ofNat_of_zero_le (Int.not_lt.1 hneg)
      exact .inl ⟨place, by exact_mod_cast hn, by exact_mod_cast hword.2, hindex⟩
  · rw [if_neg hword] at hindex
    rw [saturated_eq_iff, not_and_or, not_le, not_lt] at hword
    exact .inr ⟨_, .tooLarge hn hword, Action.bind_of_error hindex, fun v => Action.bind_of_error hindex⟩

/-! ### Reading and writing -/

theorem getItem_of_nat (h : Heap) (id : ArrayId) (place : ℕ) :
    getItem id place h = orRaise (.indexOutOfRange place) (h.items id)[place]? h := by
  show (if (place : ℤ) < 0 then raise (.indexOutOfRange place)
    else orRaise (.indexOutOfRange place) (h.items id)[(place : ℤ).toNat]? : Action Heap Value) h = _
  rw [if_neg (Int.not_lt.2 (Int.natCast_nonneg place)), Int.toNat_natCast]

/-- What comes of reading an item. -/
theorem readItem_cases (h : Heap) (id : ArrayId) (n : Decimal) :
    (∃ (place : ℕ) (item : Value), n.value = place ∧ place < wordBound ∧ (h.items id)[place]? = some item ∧
      readItem (.array id) (.number n) h = .ok item h) ∨
      (∃ place : ℕ, n.value = place ∧ (h.items id).size ≤ place ∧
        readItem (.array id) (.number n) h = raise (.indexOutOfRange place) h) ∨
      ∃ cause, Refuses h n cause ∧ readItem (.array id) (.number n) h = raise cause h := by
  obtain ⟨place, hn, hword, hindex⟩ | ⟨cause, hrefuses, hread, -⟩ := place_or_refuses h id n
  · have hread := (readItem_of_ok hindex).trans (getItem_of_nat h id place)
    cases hitem : (h.items id)[place]? with
    | none =>
        rw [hitem] at hread
        exact .inr (.inl ⟨place, hn, Array.getElem?_eq_none_iff.1 hitem, hread⟩)
    | some item =>
        rw [hitem] at hread
        exact .inl ⟨place, item, hn, hword, hitem, hread⟩
  · exact .inr (.inr ⟨cause, hrefuses, hread⟩)

/-- What comes of writing an item. -/
theorem writeItem_cases (hid : id.index < h.arrays.size) (n : Decimal) (v : Value) :
    (∃ (place : ℕ) (h' : Heap), n.value = place ∧ place < wordBound ∧
      (place < (h.items id).size ∨ place < maxLength) ∧ h.Writes id place v h' ∧
      writeItem (.array id) (.number n) v h = .ok () h') ∨
      (∃ place : ℕ, n.value = place ∧ (h.items id).size ≤ place ∧ maxLength ≤ place ∧
        writeItem (.array id) (.number n) v h = raise .lengthLimit h) ∨
      ∃ cause, Refuses h n cause ∧ writeItem (.array id) (.number n) v h = raise cause h := by
  obtain ⟨place, hn, hword, hindex⟩ | ⟨cause, hrefuses, -, hwrite⟩ := place_or_refuses h id n
  · have hwrite := writeItem_of_ok hindex v
    rcases Nat.lt_or_ge place (h.items id).size with hsize | hsize
    · exact .inl ⟨place, _, hn, hword, .inl hsize, writes_of_lt hid hsize v, hwrite.trans (setItem_of_lt hsize v)⟩
    rcases Nat.lt_or_ge place maxLength with hplace | hplace
    · exact .inl ⟨place, _, hn, hword, .inr hplace, writes_of_le hid hsize v,
        hwrite.trans (setItem_of_le hsize hplace v)⟩
    · exact .inr (.inl ⟨place, hn, hsize, hplace, hwrite.trans (setItem_of_maxLength_le hsize hplace v)⟩)
  · exact .inr (.inr ⟨cause, hrefuses, hwrite v⟩)

/-- A write ends well exactly at a place that the array has or may grow to. -/
theorem writeItem_ok_iff (hid : id.index < h.arrays.size) (hsize : (h.items id).size ≤ wordBound) (n : Decimal)
    (v : Value) :
    (∃ h', writeItem (.array id) (.number n) v h = .ok () h') ↔
      ∃ place : ℕ, n.value = place ∧ (place < (h.items id).size ∨ place < maxLength) := by
  have hlimit : maxLength ≤ wordBound := by decide
  obtain ⟨i, h', hi, -, hplace, -, hwrite⟩ | ⟨i, hi, hlong, hmax, hwrite⟩ | ⟨cause, hrefuses, hwrite⟩ :=
    writeItem_cases hid n v
  · exact ⟨fun _ => ⟨i, hi, hplace⟩, fun _ => ⟨h', hwrite⟩⟩
  · refine ⟨fun ⟨h', hrun⟩ => (nomatch hwrite.symm.trans hrun), fun ⟨place, hn, hplace⟩ => ?_⟩
    have : i = place := Nat.cast_injective (hi.symm.trans hn)
    omega
  · refine ⟨fun ⟨h', hrun⟩ => (nomatch hwrite.symm.trans hrun), fun ⟨place, hn, hplace⟩ => ?_⟩
    have := hrefuses.wordBound_le hn
    omega

theorem writes_of_writeItem_ok (hid : id.index < h.arrays.size) {n : Decimal} {v : Value} {h' : Heap}
    (hrun : writeItem (.array id) (.number n) v h = .ok () h') :
    ∃ place : ℕ, n.value = place ∧ place < wordBound ∧ h.Writes id place v h' := by
  obtain ⟨i, _, hi, hword, -, hwrites, hwrite⟩ | ⟨_, -, -, -, hwrite⟩ | ⟨_, -, hwrite⟩ := writeItem_cases hid n v
  · cases hwrite.symm.trans hrun
    exact ⟨i, hi, hword, hwrites⟩
  · cases hwrite.symm.trans hrun
  · cases hwrite.symm.trans hrun

/-- A write that fails leaves the heap as it was. -/
theorem writeItem_error (hid : id.index < h.arrays.size) {n : Decimal} {v : Value} {e : Interrupt} {h' : Heap}
    (hrun : writeItem (.array id) (.number n) v h = .error e h') :
    h' = h ∧ ∃ cause, e = .failure (.ofCause cause) ∧ (Refuses h n cause ∨ cause = .lengthLimit ∧
      ∃ place : ℕ, n.value = place ∧ (h.items id).size ≤ place ∧ maxLength ≤ place) := by
  obtain ⟨_, _, -, -, -, -, hwrite⟩ | ⟨i, hi, hsize, hmax, hwrite⟩ | ⟨cause, hrefuses, hwrite⟩ :=
    writeItem_cases hid n v
  · cases hwrite.symm.trans hrun
  · cases hwrite.symm.trans hrun
    exact ⟨rfl, _, rfl, .inr ⟨rfl, i, hi, hsize, hmax⟩⟩
  · cases hwrite.symm.trans hrun
    exact ⟨rfl, cause, rfl, .inl hrefuses⟩

theorem readItem_of_value {n : Decimal} {place : ℕ} (hn : n.value = place) (hword : place < wordBound) {item : Value}
    (hitem : (h.items id)[place]? = some item) : readItem (.array id) (.number n) h = .ok item h := by
  have hplace : place < (h.items id).size := (Array.getElem?_eq_some_iff.1 hitem).1
  obtain ⟨i, found, hi, -, hfound, hread⟩ | ⟨i, hi, hsize, -⟩ | ⟨cause, hrefuses, -⟩ := readItem_cases h id n
  · obtain rfl : i = place := Nat.cast_injective (hi.symm.trans hn)
    obtain rfl : found = item := Option.some.inj (hfound.symm.trans hitem)
    exact hread
  · have : i = place := Nat.cast_injective (hi.symm.trans hn)
    omega
  · exact absurd hword (Nat.not_lt.2 (hrefuses.wordBound_le hn))

theorem readItem_ok_iff (hsize : (h.items id).size ≤ wordBound) (n : Decimal) (item : Value) (h' : Heap) :
    readItem (.array id) (.number n) h = .ok item h' ↔
      h' = h ∧ ∃ place : ℕ, n.value = place ∧ (h.items id)[place]? = some item := by
  constructor
  · intro hrun
    obtain ⟨i, found, hi, -, hfound, hread⟩ | ⟨_, -, -, hread⟩ | ⟨_, -, hread⟩ := readItem_cases h id n
    · cases hread.symm.trans hrun
      exact ⟨rfl, i, hi, hfound⟩
    · cases hread.symm.trans hrun
    · cases hread.symm.trans hrun
  · rintro ⟨rfl, place, hn, hitem⟩
    have hplace : place < (h'.items id).size := (Array.getElem?_eq_some_iff.1 hitem).1
    exact readItem_of_value hn (Nat.lt_of_lt_of_le hplace hsize) hitem

theorem readItem_error {n : Decimal} {e : Interrupt} {h' : Heap}
    (hrun : readItem (.array id) (.number n) h = .error e h') :
    h' = h ∧ ∃ cause, e = .failure (.ofCause cause) ∧ (Refuses h n cause ∨
      ∃ place : ℕ, n.value = place ∧ (h.items id).size ≤ place ∧ cause = .indexOutOfRange place) := by
  obtain ⟨_, _, -, -, -, hread⟩ | ⟨i, hi, hsize, hread⟩ | ⟨cause, hrefuses, hread⟩ := readItem_cases h id n
  · cases hread.symm.trans hrun
  · cases hread.symm.trans hrun
    exact ⟨rfl, _, rfl, .inr ⟨i, hi, hsize, rfl⟩⟩
  · cases hread.symm.trans hrun
    exact ⟨rfl, cause, rfl, .inl hrefuses⟩

/-! ### Writes one after the other -/

/-- A write of a value, with the values that say where to. -/
structure Write where
  target : Value
  index : Value
  item : Value

/-- The heap after a write, which may have failed. -/
def Write.after (h : Heap) (w : Write) : Heap :=
  (writeItem w.target w.index w.item h).state

/-- The write is one to a place of an array. -/
def Write.GoesTo (id : ArrayId) (place : ℕ) (w : Write) : Prop :=
  w.target = .array id ∧ ∃ n, w.index = .number n ∧ n.value = place

theorem items_setItem_of_ne (h : Heap) {id other : ArrayId} (hother : other ≠ id) (index : ℤ) (value : Value) :
    (setItem id index value h).state.items other = h.items other := by
  by_cases hneg : index < 0
  · rw [setItem_of_neg id hneg]
    rfl
  obtain ⟨place, rfl⟩ := Int.eq_ofNat_of_zero_le (Int.not_lt.1 hneg)
  rcases Nat.lt_or_ge place (h.items id).size with hsize | hsize
  · rw [setItem_of_lt hsize]
    exact h.items_modifyItems_of_ne hother _
  rcases Nat.lt_or_ge place maxLength with hplace | hplace
  · rw [setItem_of_le hsize hplace]
    exact (Heap.items_modifyItems_of_ne _ hother _).trans (h.items_modifyItems_of_ne hother _)
  · rw [setItem_of_maxLength_le hsize hplace]
    rfl

theorem items_writeItem_of_ne (h : Heap) {id other : ArrayId} (hother : other ≠ id) (index item : Value) :
    (writeItem (.array id) index item h).state.items other = h.items other := by
  cases index with
  | number n =>
      obtain ⟨place, -, -, hindex⟩ | ⟨cause, -, -, hwrite⟩ := place_or_refuses h id n
      · rw [writeItem_of_ok hindex, items_setItem_of_ne h hother]
      · rw [hwrite]
        rfl
  | _ => rfl

/-- A write keeps what is at another place, of the same array or of another. -/
theorem getElem?_after {place : ℕ} {v : Value} (hitem : (h.items id)[place]? = some v) {w : Write}
    (hw : ¬ w.GoesTo id place) : ((w.after h).items id)[place]? = some v := by
  have hplace : place < (h.items id).size := (Array.getElem?_eq_some_iff.1 hitem).1
  obtain ⟨target, index, item⟩ := w
  unfold Write.after
  cases target with
  | array other =>
      by_cases hother : id = other
      · subst hother
        cases index with
        | number n =>
            obtain ⟨i, h', hn, -, -, hwrites, hwrite⟩ | ⟨i, -, -, -, hwrite⟩ | ⟨cause, -, hwrite⟩ :=
              writeItem_cases (Heap.index_lt_of_lt_size hplace) n item
            · rw [hwrite]
              have hne : place ≠ i := fun heq => hw ⟨rfl, n, rfl, heq ▸ hn⟩
              exact (hwrites.others place hplace hne).trans hitem
            all_goals
              rw [hwrite]
              exact hitem
        | _ => exact hitem
      · rw [items_writeItem_of_ne h hother]
        exact hitem
  | _ => exact hitem

theorem getElem?_foldl_after {place : ℕ} {v : Value} (hitem : (h.items id)[place]? = some v) {writes : List Write}
    (hwrites : ∀ w ∈ writes, ¬ w.GoesTo id place) : ((writes.foldl Write.after h).items id)[place]? = some v := by
  induction writes generalizing h with
  | nil => exact hitem
  | cons w rest ih =>
      rw [List.forall_mem_cons] at hwrites
      exact ih (getElem?_after hitem hwrites.1) hwrites.2

/-- **Reading and writing items.** Let an array be no longer than a machine has room for. A write to it succeeds
exactly if its index is an integer, at whatever scale, and is a place of the array or one below the limit of lengths.
Then the array is as long as it was or ends at that place, which holds the value; what was at other places of it is
there, what is new before the place is `none`, and nothing else on the heap is different. A write that fails changes
nothing and says why the index is none. A read succeeds exactly if its index is an integer and a place of the array,
and gives what is there: after a write, what was written, as long as only other places are written. -/
theorem indexed_access {h : Heap} {id : ArrayId} (hid : id.index < h.arrays.size)
    (hsize : (h.items id).size ≤ wordBound) (n : Decimal) :
    (∀ v, (∃ h', writeItem (.array id) (.number n) v h = .ok () h') ↔
        ∃ place : ℕ, n.value = place ∧ (place < (h.items id).size ∨ place < maxLength)) ∧
      (∀ v h', writeItem (.array id) (.number n) v h = .ok () h' →
        ∃ place : ℕ, n.value = place ∧ h.Writes id place v h' ∧
          ∀ writes : List Write, (∀ w ∈ writes, ¬ w.GoesTo id place) → ∀ m : Decimal, m.value = place →
            readItem (.array id) (.number m) (writes.foldl Write.after h') = .ok v (writes.foldl Write.after h')) ∧
      (∀ v e h', writeItem (.array id) (.number n) v h = .error e h' → h' = h ∧
        ∃ cause, e = .failure (.ofCause cause) ∧ (Refuses h n cause ∨ cause = .lengthLimit ∧
          ∃ place : ℕ, n.value = place ∧ (h.items id).size ≤ place ∧ maxLength ≤ place)) ∧
      (∀ item h', readItem (.array id) (.number n) h = .ok item h' ↔
        h' = h ∧ ∃ place : ℕ, n.value = place ∧ (h.items id)[place]? = some item) ∧
      ∀ e h', readItem (.array id) (.number n) h = .error e h' → h' = h ∧
        ∃ cause, e = .failure (.ofCause cause) ∧ (Refuses h n cause ∨
          ∃ place : ℕ, n.value = place ∧ (h.items id).size ≤ place ∧ cause = .indexOutOfRange place) := by
  refine ⟨writeItem_ok_iff hid hsize n, fun v h' hrun => ?_, fun v e h' => writeItem_error hid, readItem_ok_iff hsize n,
    fun e h' => readItem_error⟩
  obtain ⟨place, hn, hword, hwrites⟩ := writes_of_writeItem_ok hid hrun
  refine ⟨place, hn, hwrites, fun writes hothers m hm => readItem_of_value hm hword ?_⟩
  exact getElem?_foldl_after hwrites.written hothers

/-- An array of one item has a value written two places behind it, at `2.0`, and read from there, at `2`. -/
theorem indexed_access_behind_the_end :
    ∃ h', writeItem (.array ⟨0⟩) (.number ⟨false, 20, 1, by decide, by decide⟩) (.bool true) ⟨#[#[.none]], #[], #[]⟩ =
        .ok () h' ∧
      (h'.items ⟨0⟩).size = 3 ∧
      readItem (.array ⟨0⟩) (.number ⟨false, 2, 0, by decide, by decide⟩) h' = .ok (.bool true) h' := by
  have haccess := indexed_access (h := ⟨#[#[.none]], #[], #[]⟩) (show (ArrayId.mk 0).index < 1 by decide) (by decide)
    ⟨false, 20, 1, by decide, by decide⟩
  have hvalue : Decimal.value ⟨false, 20, 1, by decide, by decide⟩ = (2 : ℕ) := by
    norm_num [Decimal.value_eq_div, Decimal.coefficient]
  obtain ⟨h', hrun⟩ := (haccess.1 (.bool true)).2 ⟨2, hvalue, .inr (by decide)⟩
  obtain ⟨place, hn, hwrites, hread⟩ := haccess.2.1 _ _ hrun
  obtain rfl : place = 2 := Nat.cast_injective (hn.symm.trans hvalue)
  refine ⟨h', hrun, hwrites.size_items, hread [] (by simp) _ ?_⟩
  norm_num [Decimal.value_eq_div, Decimal.coefficient]

end Operation

end LineScript
