import Mathlib.Data.List.Nodup
import Mathlib.Data.List.Perm.Subperm
import LineScript.Heap.Rendering
/-!
# The text of data without cycles

No array of such data is met inside itself, so its text holds all of it: nothing is left out as `[...]`, neither because
an array is on the path already nor because the fuel ends.
-/

namespace LineScript

theorem toList_enclosed {α : Type} (opening closing : String) (render : α → String) (x : α) (rest : List α) :
    (enclosed opening closing render (x :: rest)).toList =
      opening.toList ++ (render x).toList ++ rest.flatMap (fun y => ", ".toList ++ (render y).toList) ++
        closing.toList := by
  have hfold (text : String) : (rest.foldl (fun text y => text ++ ", " ++ render y) text).toList =
      text.toList ++ rest.flatMap fun y => ", ".toList ++ (render y).toList := by
    induction rest generalizing text with
    | nil => simp
    | cons y rest ih => simp [ih, List.append_assoc]
  rw [enclosed, String.toList_append, hfold, String.toList_append]

namespace Heap

variable {h : Heap}

/-- A value made of `none`, truth values, numbers and arrays of such values. It is finite, so no array of it contains
itself, but arrays may be shared. -/
inductive Plain (h : Heap) : Value → Prop
  | none : Plain h .none
  | bool (b : Bool) : Plain h (.bool b)
  | number (n : Decimal) : Plain h (.number n)
  | array {id : ArrayId} (hid : id.index < h.arrays.size) (hitems : ∀ v ∈ h.items id, Plain h v) : Plain h (.array id)

/-- The value is the array or contains it at some depth. -/
inductive Reaches (h : Heap) : Value → ArrayId → Prop
  | self (a : ArrayId) : Reaches h (.array a) a
  | item {a b : ArrayId} {v : Value} (hv : v ∈ h.items b) (hreaches : Reaches h v a) : Reaches h (.array b) a

theorem Reaches.trans {v : Value} {a b : ArrayId} (hfirst : h.Reaches v a) (hsecond : h.Reaches (.array a) b) :
    h.Reaches v b := by
  induction hfirst with
  | self a => exact hsecond
  | item hv _ ih => exact .item hv (ih hsecond)

/-- An array of plain data does not contain itself. The induction is on the data: the array inside an item would make
that item contain itself. -/
theorem Plain.not_reaches {v : Value} (hplain : h.Plain v) :
    ∀ a, v = .array a → ∀ item ∈ h.items a, ¬ h.Reaches item a := by
  induction hplain with
  | none | bool b | number n => exact fun _ heq => by cases heq
  | @array id hid hitems ih =>
      rintro a ⟨⟩ item hitem hreaches
      cases hreaches with
      | self => exact ih _ hitem id rfl _ hitem (.self id)
      | @item _ b v hv hreaches => exact ih _ hitem b rfl v hv (hreaches.trans (.item hitem (.self b)))

/-- A path holds each array once. -/
theorem length_le_of_nodup {path : List ArrayId} (hnodup : path.Nodup)
    (hindex : ∀ a ∈ path, a.index < h.arrays.size) : path.length ≤ h.arrays.size := by
  have hinjective : Function.Injective ArrayId.index := fun ⟨_⟩ ⟨_⟩ hindex => congrArg ArrayId.mk hindex
  have hindices : (path.map ArrayId.index).Nodup := List.Nodup.map hinjective hnodup
  have hsubset : path.map ArrayId.index ⊆ List.range h.arrays.size := by
    intro i hi
    obtain ⟨a, ha, rfl⟩ := List.mem_map.1 hi
    exact List.mem_range.2 (hindex a ha)
  have hle := (List.subperm_of_subset hindices hsubset).length_le
  rwa [List.length_map, List.length_range] at hle

/-- The value is to be shown inside the arrays on a path that it does not lead back to, and the fuel is what the path
leaves of the number of arrays. -/
structure Outside (h : Heap) (fuel : Nat) (path : List ArrayId) (v : Value) : Prop where
  nodup : path.Nodup
  index_lt : ∀ a ∈ path, a.index < h.arrays.size
  apart : ∀ a ∈ path, ¬ h.Reaches v a
  fuel_eq : fuel + path.length = h.arrays.size + 1

theorem outside_nil (h : Heap) (v : Value) : h.Outside (h.arrays.size + 1) [] v :=
  ⟨.nil, nofun, nofun, rfl⟩

theorem Outside.length_le {fuel : Nat} {path : List ArrayId} {v : Value} (houtside : h.Outside fuel path v) :
    path.length ≤ h.arrays.size :=
  length_le_of_nodup houtside.nodup houtside.index_lt

/-- An array of plain data is shown with all its items, which are plain data inside one more array. -/
theorem Outside.array {fuel : Nat} {path : List ArrayId} {id : ArrayId} (houtside : h.Outside fuel path (.array id))
    (hplain : h.Plain (.array id)) :
    ∃ rest, fuel = rest + 1 ∧
      h.displayWithin fuel path (.array id) = enclosed "[" "]" (h.displayWithin rest (id :: path)) (h.items id).toList ∧
      ∀ v ∈ h.items id, h.Outside rest (id :: path) v := by
  have hlength := houtside.length_le
  have hfuel := houtside.fuel_eq
  obtain ⟨rest, rfl⟩ : ∃ rest, fuel = rest + 1 := ⟨fuel - 1, by omega⟩
  have hpath : id ∉ path := fun hid => houtside.apart id hid (.self id)
  refine ⟨rest, rfl, by rw [displayWithin, if_neg hpath], fun v hv => ⟨?_, ?_, ?_, ?_⟩⟩
  · exact List.nodup_cons.2 ⟨hpath, houtside.nodup⟩
  · cases hplain with
    | array hid _ => exact List.forall_mem_cons.2 ⟨hid, houtside.index_lt⟩
  · exact List.forall_mem_cons.2 ⟨hplain.not_reaches id rfl v hv,
      fun a ha hreaches => houtside.apart a ha (.item hv hreaches)⟩
  · rw [List.length_cons]
    omega

end Heap

end LineScript
