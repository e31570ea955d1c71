import Mathlib.Data.Finset.Prod
import LineScript.Operation.Comparison
import LineScript.Proofs.Decimal.Value
/-!
# Equality is bisimilarity

Two values are bisimilar when some relation holds between them that never relates two values that differ at sight and
that, wherever it relates two arrays, relates their items one by one. On a heap with cycles this is all that can be
meant by equal content. A comparison decides it: it always ends, with the stack of pairs in progress as it found it, and
an empty stack at the start makes its answer exact.
-/

namespace LineScript

namespace Comparison

/-- The comparison takes off the stack what it puts there. -/
def Restores (compare : Comparison Bool) : Prop :=
  ∀ ⦃stack answer⦄, compare.run stack = some answer → answer.2 = stack

theorem run_visit (pair : ArrayId × ArrayId) (compare : Comparison Bool) (stack : Comparing) :
    (visit pair compare).run stack =
      if pair ∈ stack then some (true, stack)
      else (compare.run (pair :: stack)).map fun answer => (answer.1, answer.2.tail) := by
  by_cases hmem : pair ∈ stack
  · simp [visit, hmem]
  · have hrun : (visit pair compare).run stack =
        (compare.run (pair :: stack)).bind fun answer => some (answer.1, answer.2.tail) := by
      simp [visit, hmem]
    rw [hrun, if_neg hmem, Option.map_eq_bind]
    rfl

theorem run_all_cons (compare : Value → Value → Comparison Bool) (x y : Value) (rest : List (Value × Value))
    (stack : Comparing) :
    (all compare ((x, y) :: rest)).run stack =
      ((compare x y).run stack).bind fun answer =>
        if answer.1 then (all compare rest).run answer.2 else some (false, answer.2) := by
  rw [all, StateT.run_bind]
  cases (compare x y).run stack with
  | none => rfl
  | some answer => cases hsame : answer.1 <;> simp [hsame]

/-! ### Pairs one after the other -/

section Sequences

variable {compare : Value → Value → Comparison Bool} {stack : Comparing}

theorem restores_all (hcompare : ∀ x y, Restores (compare x y)) (pairs : List (Value × Value)) :
    Restores (all compare pairs) := by
  induction pairs with
  | nil =>
      intro stack answer hrun
      obtain rfl := Option.some.inj hrun
      rfl
  | cons pair rest ih =>
      intro stack answer hrun
      rw [run_all_cons] at hrun
      obtain ⟨first, hfirst, hrest⟩ := Option.bind_eq_some_iff.1 hrun
      have hstack := hcompare _ _ hfirst
      split at hrest
      · rw [ih hrest, hstack]
      · obtain rfl := Option.some.inj hrest
        exact hstack

/-- Only equal pairs all the way make the answer true. -/
theorem forall_of_run_all (hcompare : ∀ x y, Restores (compare x y)) {pairs : List (Value × Value)} {stack' : Comparing}
    (hrun : (all compare pairs).run stack = some (true, stack')) :
    ∀ pair ∈ pairs, (compare pair.1 pair.2).run stack = some (true, stack) := by
  induction pairs with
  | nil => simp
  | cons pair rest ih =>
      rw [run_all_cons] at hrun
      obtain ⟨⟨same, stack₁⟩, hfirst, hrest⟩ := Option.bind_eq_some_iff.1 hrun
      obtain rfl : stack₁ = stack := hcompare _ _ hfirst
      cases same with
      | false => simp at hrest
      | true =>
          intro other hother
          rcases List.mem_cons.1 hother with rfl | hmem
          · exact hfirst
          · exact ih hrest other hmem

theorem run_all_of_forall {pairs : List (Value × Value)}
    (hpairs : ∀ pair ∈ pairs, ∀ answer, (compare pair.1 pair.2).run stack = some answer → answer = (true, stack))
    {answer : Bool × Comparing} (hrun : (all compare pairs).run stack = some answer) : answer = (true, stack) := by
  induction pairs with
  | nil => exact (Option.some.inj hrun).symm
  | cons pair rest ih =>
      rw [run_all_cons] at hrun
      obtain ⟨first, hfirst, hrest⟩ := Option.bind_eq_some_iff.1 hrun
      obtain rfl := hpairs pair List.mem_cons_self first hfirst
      exact ih (fun other hother => hpairs other (List.mem_cons_of_mem _ hother)) hrest

theorem run_all_ends {pairs : List (Value × Value)}
    (hpairs : ∀ pair ∈ pairs, ∃ same, (compare pair.1 pair.2).run stack = some (same, stack)) :
    ∃ same, (all compare pairs).run stack = some (same, stack) := by
  induction pairs with
  | nil => exact ⟨true, rfl⟩
  | cons pair rest ih =>
      obtain ⟨same, hfirst⟩ := hpairs pair List.mem_cons_self
      rw [run_all_cons, hfirst]
      cases same with
      | false => exact ⟨false, rfl⟩
      | true => exact ih fun other hother => hpairs other (List.mem_cons_of_mem _ hother)

/-! ### Two arrays

The same, item by item.
-/

theorem mem_zip_iff {xs ys : Array Value} {pair : Value × Value} :
    pair ∈ xs.toList.zip ys.toList ↔ ∃ i, ∃ (_ : i < xs.size) (_ : i < ys.size), (xs[i], ys[i]) = pair := by
  simp only [List.mem_iff_getElem, List.length_zip, Array.length_toList, lt_inf_iff, List.getElem_zip,
    Array.getElem_toList]
  exact exists_congr fun i => ⟨fun ⟨⟨hx, hy⟩, heq⟩ => ⟨hx, hy, heq⟩, fun ⟨hx, hy, heq⟩ => ⟨⟨hx, hy⟩, heq⟩⟩

variable {xs ys : Array Value}

theorem restores_sequences (hcompare : ∀ x y, Restores (compare x y)) : Restores (sequences compare xs ys) := by
  intro stack answer hrun
  rw [sequences] at hrun
  split at hrun
  · exact restores_all hcompare _ hrun
  · obtain rfl := Option.some.inj hrun
    rfl

theorem forall_of_run_sequences (hcompare : ∀ x y, Restores (compare x y)) {stack' : Comparing}
    (hrun : (sequences compare xs ys).run stack = some (true, stack')) :
    xs.size = ys.size ∧
      ∀ i (_ : i < xs.size) (_ : i < ys.size), (compare xs[i] ys[i]).run stack = some (true, stack) := by
  rw [sequences] at hrun
  split at hrun
  · rename_i hsize
    exact ⟨hsize, fun i hx hy => forall_of_run_all hcompare hrun _ (mem_zip_iff.2 ⟨i, hx, hy, rfl⟩)⟩
  · cases hrun

theorem run_sequences_of_forall (hsize : xs.size = ys.size)
    (hitems : ∀ i (_ : i < xs.size) (_ : i < ys.size), ∀ answer,
      (compare xs[i] ys[i]).run stack = some answer → answer = (true, stack))
    {answer : Bool × Comparing} (hrun : (sequences compare xs ys).run stack = some answer) :
    answer = (true, stack) := by
  rw [sequences, if_pos hsize] at hrun
  refine run_all_of_forall (fun pair hpair => ?_) hrun
  obtain ⟨i, hx, hy, rfl⟩ := mem_zip_iff.1 hpair
  exact hitems i hx hy

theorem run_sequences_ends
    (hitems : ∀ i (_ : i < xs.size) (_ : i < ys.size), ∃ same, (compare xs[i] ys[i]).run stack = some (same, stack)) :
    ∃ same, (sequences compare xs ys).run stack = some (same, stack) := by
  rw [sequences]
  split
  · refine run_all_ends fun pair hpair => ?_
    obtain ⟨i, hx, hy, rfl⟩ := mem_zip_iff.1 hpair
    exact hitems i hx hy
  · exact ⟨false, rfl⟩

end Sequences

end Comparison

/-! ### Bisimilar values -/

/-- The equality of values that are not arrays: numbers by value, other data by content, objects and functions by
identity. -/
inductive Value.Agrees : Value → Value → Prop
  | none : Agrees .none .none
  | bool (b : Bool) : Agrees (.bool b) (.bool b)
  | number {a b : Decimal} (hvalue : a.value = b.value) : Agrees (.number a) (.number b)
  | string (s : String) : Agrees (.string s) (.string s)
  | object (id : ObjectId) : Agrees (.object id) (.object id)
  | function (id : FunctionId) : Agrees (.function id) (.function id)

theorem Value.same_iff_agrees (x y : Value) : x.same y = true ↔ x.Agrees y := by
  constructor
  · intro hsame
    unfold same at hsame
    split at hsame
    · exact .none
    · obtain rfl := beq_iff_eq.1 hsame
      exact .bool _
    · exact .number ((Decimal.equals_iff _ _).1 hsame)
    · obtain rfl := beq_iff_eq.1 hsame
      exact .string _
    · obtain rfl := beq_iff_eq.1 hsame
      exact .object _
    · obtain rfl := beq_iff_eq.1 hsame
      exact .function _
    · cases hsame
  · intro hagrees
    cases hagrees with
    | none => rfl
    | bool b => exact beq_self_eq_true b
    | number hvalue => exact (Decimal.equals_iff _ _).2 hvalue
    | string s => exact beq_self_eq_true s
    | object id => exact beq_self_eq_true id
    | function id => exact beq_self_eq_true id

namespace Heap

variable {h : Heap} {x y z : Value}

/-- What `x` and `y` have to agree on in order to be equal, given which of the items of two arrays are. -/
inductive Matches (h : Heap) (Related : Value → Value → Prop) : Value → Value → Prop
  | plain {x y : Value} (hagrees : x.Agrees y) : Matches h Related x y
  | array {a b : ArrayId} (hsize : (h.items a).size = (h.items b).size)
      (hitems : ∀ i (_ : i < (h.items a).size) (_ : i < (h.items b).size), Related (h.items a)[i] (h.items b)[i]) :
      Matches h Related (.array a) (.array b)

theorem Matches.mono {R S : Value → Value → Prop} (hRS : ∀ x y, R x y → S x y) (hxy : h.Matches R x y) :
    h.Matches S x y := by
  cases hxy with
  | plain hagrees => exact .plain hagrees
  | array hsize hitems => exact .array hsize fun i ha hb => hRS _ _ (hitems i ha hb)

/-- The largest relation under which related values match. -/
def Bisimilar (h : Heap) (x y : Value) : Prop :=
  ∃ Related : Value → Value → Prop, (∀ x y, Related x y → h.Matches Related x y) ∧ Related x y

theorem Bisimilar.matches (hxy : h.Bisimilar x y) : h.Matches h.Bisimilar x y := by
  obtain ⟨R, hR, hxy⟩ := hxy
  exact (hR x y hxy).mono fun x y hxy => ⟨R, hR, hxy⟩

theorem Matches.bisimilar (hxy : h.Matches h.Bisimilar x y) : h.Bisimilar x y :=
  ⟨h.Matches h.Bisimilar, fun _ _ hxy => hxy.mono fun _ _ hxy => hxy.matches, hxy⟩

theorem Bisimilar.refl (h : Heap) (x : Value) : h.Bisimilar x x := by
  refine ⟨Eq, ?_, rfl⟩
  rintro x _ rfl
  cases x with
  | none => exact .plain .none
  | bool b => exact .plain (.bool b)
  | number n => exact .plain (.number rfl)
  | string s => exact .plain (.string s)
  | object id => exact .plain (.object id)
  | function id => exact .plain (.function id)
  | array id => exact .array rfl fun i _ _ => rfl

theorem Bisimilar.symm (hxy : h.Bisimilar x y) : h.Bisimilar y x := by
  refine ⟨fun x y => h.Bisimilar y x, ?_, hxy⟩
  intro x y hyx
  cases hyx.matches with
  | plain hagrees =>
      cases hagrees with
      | number hvalue => exact .plain (.number hvalue.symm)
      | _ => exact .plain (by constructor)
  | array hsize hitems => exact .array hsize.symm fun i ha hb => hitems i hb ha

theorem Bisimilar.trans (hxy : h.Bisimilar x y) (hyz : h.Bisimilar y z) : h.Bisimilar x z := by
  refine ⟨fun x z => ∃ y, h.Bisimilar x y ∧ h.Bisimilar y z, ?_, y, hxy, hyz⟩
  rintro x z ⟨y, hxy, hyz⟩
  cases hxy.matches with
  | plain hagrees =>
      -- Apart from numbers the middle value is the first one.
      cases hagrees with
      | number hvalue =>
          cases hyz.matches with
          | plain hagrees' =>
              cases hagrees' with
              | number hvalue' => exact .plain (.number (hvalue.trans hvalue'))
      | _ => exact hyz.matches.mono fun x z hxz => ⟨x, .refl h x, hxz⟩
  | array hsize hitems =>
      cases hyz.matches with
      | plain hagrees' => cases hagrees'
      | array hsize' hitems' =>
          exact .array (hsize.trans hsize') fun i ha hc => ⟨_, hitems i ha (hsize ▸ ha), hitems' i (hsize ▸ ha) hc⟩

theorem Bisimilar.same (hxy : h.Bisimilar x y) (harrays : ∀ a b, x = .array a → y = .array b → False) :
    x.same y = true := by
  cases hxy.matches with
  | plain hagrees => exact (Value.same_iff_agrees x y).2 hagrees
  | array _ _ => exact (harrays _ _ rfl rfl).elim

/-! ### Differences at a finite depth

Two values that are not bisimilar differ at the end of some path of indices. `Alike n` relates the values that have no
difference on the paths shorter than `n`.
-/

def Alike (h : Heap) : Nat → Value → Value → Prop
  | 0 => fun _ _ => True
  | n + 1 => h.Matches (h.Alike n)

theorem Alike.of_succ {n : Nat} (hxy : h.Alike (n + 1) x y) : h.Alike n x y := by
  induction n generalizing x y with
  | zero => trivial
  | succ n ih => exact Matches.mono (fun x y => ih) hxy

theorem Bisimilar.alike (hxy : h.Bisimilar x y) (n : Nat) : h.Alike n x y := by
  induction n generalizing x y with
  | zero => trivial
  | succ n ih => exact hxy.matches.mono fun x y hxy => ih hxy

theorem bisimilar_of_alike (hxy : ∀ n, h.Alike n x y) : h.Bisimilar x y := by
  refine ⟨fun x y => ∀ n, h.Alike n x y, ?_, hxy⟩
  intro x y hxy
  cases hxy 1 with
  | plain hagrees => exact .plain hagrees
  | array hsize _ =>
      refine .array hsize fun i ha hb n => ?_
      cases hxy (n + 1) with
      | plain hagrees => cases hagrees
      | array _ hitems => exact hitems i ha hb

/-! ### The comparison decides it -/

theorem arrays_or_not (x y : Value) :
    (∃ a b, x = .array a ∧ y = .array b) ∨ ∀ a b, x = .array a → y = .array b → False := by
  cases x <;> cases y <;> simp

/-- The ways in which a comparison comes to its answer. -/
inductive Concludes (h : Heap) (stack : Comparing) : Nat → Value → Value → Bool × Comparing → Prop
  | plain {fuel : Nat} {x y : Value} (hxy : ∀ a b, x = .array a → y = .array b → False) :
      Concludes h stack fuel x y (x.same y, stack)
  | identical {fuel : Nat} (a : ArrayId) : Concludes h stack fuel (.array a) (.array a) (true, stack)
  | met {fuel : Nat} {a b : ArrayId} (hmem : (a, b) ∈ stack) :
      Concludes h stack (fuel + 1) (.array a) (.array b) (true, stack)
  | items {fuel : Nat} {a b : ArrayId} {same : Bool} {stack' : Comparing} (hmem : (a, b) ∉ stack)
      (hrun : (Comparison.sequences (h.comparison fuel) (h.items a) (h.items b)).run ((a, b) :: stack) =
        some (same, stack')) :
      Concludes h stack (fuel + 1) (.array a) (.array b) (same, stack'.tail)

theorem concludes_of_run {fuel : Nat} {stack : Comparing} {answer : Bool × Comparing}
    (hrun : (h.comparison fuel x y).run stack = some answer) : h.Concludes stack fuel x y answer := by
  obtain ⟨a, b, rfl, rfl⟩ | hxy := arrays_or_not x y
  · unfold comparison at hrun
    split at hrun
    · rename_i hab
      obtain rfl := hab
      obtain rfl := Option.some.inj hrun
      exact .identical a
    · cases fuel with
      | zero => cases hrun
      | succ fuel =>
          rw [Comparison.run_visit] at hrun
          split at hrun
          · rename_i hmem
            obtain rfl := Option.some.inj hrun
            exact .met hmem
          · rename_i hmem
            obtain ⟨inner, hinner, rfl⟩ := Option.map_eq_some_iff.1 hrun
            exact .items hmem hinner
  · rw [comparison] at hrun
    · obtain rfl := Option.some.inj hrun
      exact .plain hxy
    · exact hxy

theorem restores_comparison (h : Heap) (fuel : Nat) (x y : Value) : (h.comparison fuel x y).Restores := by
  induction fuel generalizing x y with
  | zero =>
      intro stack answer hrun
      cases concludes_of_run hrun <;> rfl
  | succ fuel ih =>
      intro stack answer hrun
      cases concludes_of_run hrun with
      | plain hxy => rfl
      | identical a => rfl
      | met hmem => rfl
      | items hmem hinner =>
          obtain rfl := Comparison.restores_sequences ih hinner
          rfl

/-- A comparison that answers true has seen every pair on the way to a difference, so there is none up to the depth to
which the pairs on the stack, which it does not look into again, are known to have none. -/
theorem alike_of_run {n fuel : Nat} {stack stack' : Comparing}
    (hrun : (h.comparison fuel x y).run stack = some (true, stack'))
    (hstack : ∀ pair ∈ stack, h.Alike n (.array pair.1) (.array pair.2)) : h.Alike n x y := by
  induction n generalizing fuel x y stack stack' with
  | zero => trivial
  | succ n ih =>
      have hstack' : ∀ pair ∈ stack, h.Alike n (.array pair.1) (.array pair.2) :=
        fun pair hpair => (hstack pair hpair).of_succ
      have hxy : h.Alike n x y := ih hrun hstack'
      generalize hanswer : (true, stack') = answer at hrun
      cases concludes_of_run hrun with
      | plain _ => exact .plain ((Value.same_iff_agrees x y).1 (Prod.mk.inj hanswer).1.symm)
      | identical a => exact (Bisimilar.refl h _).alike _
      | met hmem => exact hstack _ hmem
      | items hmem hinner =>
          obtain ⟨rfl, rfl⟩ := Prod.mk.inj hanswer
          obtain ⟨hsize, hitems⟩ := Comparison.forall_of_run_sequences (restores_comparison h _) hinner
          refine .array hsize fun i ha hb => ih (hitems i ha hb) fun pair hpair => ?_
          rcases List.mem_cons.1 hpair with rfl | hpair
          · exact hxy
          · exact hstack' pair hpair

theorem run_of_bisimilar {fuel : Nat} {stack : Comparing} {answer : Bool × Comparing} (hxy : h.Bisimilar x y)
    (hrun : (h.comparison fuel x y).run stack = some answer) : answer = (true, stack) := by
  induction fuel generalizing x y stack answer with
  | zero =>
      cases concludes_of_run hrun with
      | plain harrays => rw [hxy.same harrays]
      | identical a => rfl
  | succ fuel ih =>
      cases concludes_of_run hrun with
      | plain harrays => rw [hxy.same harrays]
      | identical a => rfl
      | met hmem => rfl
      | items hmem hinner =>
          cases hxy.matches with
          | plain hagrees => cases hagrees
          | array hsize hitems =>
              obtain ⟨rfl, rfl⟩ := Prod.mk.inj
                (Comparison.run_sequences_of_forall hsize (fun i ha hb _ => ih (hitems i ha hb)) hinner)
              rfl

/-! ### The comparison ends

Every pair of arrays that goes on the stack and has items is one of finitely many, and goes there once.
-/

/-- The pairs of arrays of the heap that are not on the stack. -/
def unvisited (h : Heap) (stack : Comparing) : Finset (Nat × Nat) :=
  (Finset.range h.arrays.size ×ˢ Finset.range h.arrays.size) \
    (stack.map fun pair => (pair.1.index, pair.2.index)).toFinset

theorem card_unvisited_cons {a b : ArrayId} {stack : Comparing} (ha : a.index < h.arrays.size)
    (hb : b.index < h.arrays.size) (hmem : (a, b) ∉ stack) :
    (h.unvisited ((a, b) :: stack)).card < (h.unvisited stack).card := by
  have hnew : (a.index, b.index) ∉ stack.map fun pair => (pair.1.index, pair.2.index) := by
    intro hmap
    obtain ⟨⟨⟨i⟩, ⟨j⟩⟩, hpair, heq⟩ := List.mem_map.1 hmap
    obtain ⟨rfl, rfl⟩ := Prod.mk.inj heq
    exact hmem hpair
  refine Finset.card_lt_card ((Finset.ssubset_iff_of_subset ?_).2 ⟨(a.index, b.index), ?_, ?_⟩)
  · refine Finset.sdiff_subset_sdiff (Finset.Subset.refl _) ?_
    rw [List.map_cons, List.toFinset_cons]
    exact Finset.subset_insert _ _
  · simp only [unvisited, Finset.mem_sdiff, Finset.mem_product, Finset.mem_range, List.mem_toFinset]
    exact ⟨⟨ha, hb⟩, hnew⟩
  · simp [unvisited]

theorem run_comparison_ends {fuel : Nat} {stack : Comparing} (hfuel : (h.unvisited stack).card < fuel) (x y : Value) :
    ∃ same, (h.comparison fuel x y).run stack = some (same, stack) := by
  induction fuel generalizing x y stack with
  | zero => exact (Nat.not_lt_zero _ hfuel).elim
  | succ fuel ih =>
      obtain ⟨a, b, rfl, rfl⟩ | hxy := arrays_or_not x y
      · unfold comparison
        split
        · exact ⟨true, rfl⟩
        · rw [Comparison.run_visit]
          split
          · exact ⟨true, rfl⟩
          · rename_i hmem
            obtain ⟨same, hrun⟩ : ∃ same, (Comparison.sequences (h.comparison fuel) (h.items a) (h.items b)).run
                ((a, b) :: stack) = some (same, (a, b) :: stack) := by
              refine Comparison.run_sequences_ends fun i ha hb => ih ?_ _ _
              have := card_unvisited_cons (index_lt_of_lt_size ha) (index_lt_of_lt_size hb) hmem
              omega
            rw [hrun]
            exact ⟨same, rfl⟩
      · rw [comparison]
        · exact ⟨x.same y, rfl⟩
        · exact hxy

theorem card_unvisited_lt (h : Heap) (stack : Comparing) : (h.unvisited stack).card < h.comparisonFuel := by
  have hle : (h.unvisited stack).card ≤ (Finset.range h.arrays.size ×ˢ Finset.range h.arrays.size).card :=
    Finset.card_le_card Finset.sdiff_subset
  rw [Finset.card_product, Finset.card_range] at hle
  exact Nat.lt_succ_of_le hle

theorem run_comparison_iff (h : Heap) {fuel : Nat} (hfuel : h.comparisonFuel ≤ fuel) (x y : Value) :
    ∃ same, (h.comparison fuel x y).run [] = some (same, []) ∧ (same = true ↔ h.Bisimilar x y) := by
  obtain ⟨same, hrun⟩ := run_comparison_ends (Nat.lt_of_lt_of_le (h.card_unvisited_lt []) hfuel) x y
  refine ⟨same, hrun, ?_, ?_⟩
  · rintro rfl
    exact bisimilar_of_alike fun n => alike_of_run hrun (by simp)
  · intro hxy
    exact (Prod.mk.inj (run_of_bisimilar hxy hrun)).1

theorem equal_iff (h : Heap) (x y : Value) : h.equal x y = true ↔ h.Bisimilar x y := by
  obtain ⟨same, hrun, hsame⟩ := run_comparison_iff h le_rfl x y
  rw [← hsame, equal, StateT.run'_eq, hrun, beq_iff_eq]
  exact Option.some_inj

theorem run_comparison_eq (h : Heap) {fuel : Nat} (hfuel : h.comparisonFuel ≤ fuel) (x y : Value) :
    (h.comparison fuel x y).run [] = some (h.equal x y, []) := by
  obtain ⟨same, hrun, hsame⟩ := run_comparison_iff h hfuel x y
  rw [hrun, Bool.eq_iff_iff.2 (hsame.trans (h.equal_iff x y).symm)]

/-- On every heap, a comparison ends and gives back the stack of the pairs in progress as it was. Started on the empty
stack it tells whether the values are bisimilar, however much fuel it has left, and `==` answers with what it tells. So
`==` is an equivalence. -/
theorem equal_decides_bisimilar (h : Heap) :
    (∀ spare stack x y, ∃ same, (h.comparison (h.comparisonFuel + spare) x y).run stack = some (same, stack)) ∧
      (∀ spare x y, (h.comparison (h.comparisonFuel + spare) x y).run [] = some (h.equal x y, [])) ∧
      (∀ x y, Operation.equals x y h = .ok (.bool (h.equal x y)) h) ∧
      (∀ x y, h.equal x y = true ↔ h.Bisimilar x y) ∧
      Equivalence fun x y => h.equal x y = true := by
  refine ⟨fun spare stack => ?_, fun spare => ?_, fun x y => rfl, h.equal_iff, ?_⟩
  · exact run_comparison_ends (Nat.lt_of_lt_of_le (h.card_unvisited_lt stack) (Nat.le_add_right _ spare))
  · exact h.run_comparison_eq (Nat.le_add_right _ spare)
  · simp only [equal_iff]
    exact ⟨.refl h, .symm, .trans⟩

/-- Two arrays, each of which is the only item of the other. -/
example : (⟨#[#[.array ⟨1⟩], #[.array ⟨0⟩]], #[], #[]⟩ : Heap).equal (.array ⟨0⟩) (.array ⟨1⟩) = true := by
  decide

end Heap

end LineScript
