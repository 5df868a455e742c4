import Mathlib
import ExactJson.Writer

/-!
# The shape of values

What a value tree must be for the writer to print it and the reader to read it back, and the
measures the round trip is stated with:

* `Value.induction_mem`: induction over value trees, with a hypothesis for every member of an
  object and every element of an array;
* `Value.depth`: the nesting depth, each container counting one, as the reader's depth limit
  counts it;
* `Value.Wf`: a value the host's types can hold: no foreign node, distinct keys in each object
  and decimal exponents of 32 bits;
* `Value.Texts p`: every string and every key satisfies `p`;
* `Value.sortKeys` reorders members and changes neither the depth nor well-formedness.
-/

namespace ExactJson

namespace Value

/-- Induction over value trees, with the hypothesis for every member of an object and every
element of an array. -/
@[elab_as_elim]
theorem induction_mem {motive : Value → Prop} (null : motive .null)
    (bool : ∀ b, motive (.bool b)) (int : ∀ n, motive (.int n)) (dec : ∀ d, motive (.dec d))
    (str : ∀ s, motive (.str s)) (obj : ∀ ms, (∀ m ∈ ms, motive m.2) → motive (.obj ms))
    (arr : ∀ xs, (∀ x ∈ xs, motive x) → motive (.arr xs))
    (foreign : ∀ t, motive (.foreign t)) (v : Value) : motive v :=
  match v with
  | .null => null
  | .bool b => bool b
  | .int n => int n
  | .dec d => dec d
  | .str s => str s
  | .obj ms => obj ms fun m _ =>
    induction_mem null bool int dec str obj arr foreign m.2
  | .arr xs => arr xs fun x _ =>
    induction_mem null bool int dec str obj arr foreign x
  | .foreign t => foreign t
termination_by sizeOf v
decreasing_by
  · rename_i hm
    have h := List.sizeOf_lt_of_mem hm
    obtain ⟨k, w⟩ := m
    simp only [Value.obj.sizeOf_spec, Prod.mk.sizeOf_spec] at h ⊢
    omega
  · rename_i hx
    have h := List.sizeOf_lt_of_mem hx
    simp only [Value.arr.sizeOf_spec]
    omega

/-- Whether a value is an object or an array, the values a document can hold at its root. -/
def isContainer : Value → Bool
  | .obj _ => true
  | .arr _ => true
  | _ => false

mutual

/-- The nesting depth of a value: a container counts one more than its deepest member. -/
def depth : Value → Nat
  | .obj ms => membersDepth ms + 1
  | .arr xs => elemsDepth xs + 1
  | _ => 0

/-- The greatest depth of the member values. -/
def membersDepth : List (Bytes × Value) → Nat
  | [] => 0
  | (_, v) :: rest => max (depth v) (membersDepth rest)

/-- The greatest depth of the elements. -/
def elemsDepth : List Value → Nat
  | [] => 0
  | x :: rest => max (depth x) (elemsDepth rest)

end

theorem membersDepth_le_iff {ms : List (Bytes × Value)} {n : Nat} :
    membersDepth ms ≤ n ↔ ∀ m ∈ ms, m.2.depth ≤ n := by
  induction ms with
  | nil => simp [membersDepth]
  | cons m ms ih =>
    obtain ⟨k, v⟩ := m
    simp [membersDepth, ih]

theorem elemsDepth_le_iff {xs : List Value} {n : Nat} :
    elemsDepth xs ≤ n ↔ ∀ x ∈ xs, x.depth ≤ n := by
  induction xs with
  | nil => simp [elemsDepth]
  | cons x xs ih => simp [elemsDepth, ih]

/-- Reordering the members keeps the greatest depth. -/
theorem membersDepth_perm {ms ns : List (Bytes × Value)} (h : ms.Perm ns) :
    membersDepth ms = membersDepth ns := by
  have hle : ∀ {as bs : List (Bytes × Value)}, as.Perm bs →
      membersDepth as ≤ membersDepth bs :=
    fun hp => membersDepth_le_iff.mpr fun m hm =>
      membersDepth_le_iff.mp le_rfl m (hp.mem_iff.mp hm)
  exact le_antisymm (hle h) (hle h.symm)

/-- A value the host's types can hold: no foreign node, distinct keys in every object, and
decimal exponents of 32 bits. -/
inductive Wf : Value → Prop
  | null : Wf .null
  | bool (b : Bool) : Wf (.bool b)
  | int (n : Int64) : Wf (.int n)
  | dec {d : Decimal} : Decimal.minExp ≤ d.exp → d.exp ≤ Decimal.maxExp → Wf (.dec d)
  | str (s : Bytes) : Wf (.str s)
  | obj {ms : List (Bytes × Value)} : (ms.map Prod.fst).Nodup → (∀ m ∈ ms, Wf m.2) →
      Wf (.obj ms)
  | arr {xs : List Value} : (∀ x ∈ xs, Wf x) → Wf (.arr xs)

/-- Every string and every key in a value satisfies `p`. -/
inductive Texts (p : Bytes → Prop) : Value → Prop
  | null : Texts p .null
  | bool (b : Bool) : Texts p (.bool b)
  | int (n : Int64) : Texts p (.int n)
  | dec (d : Decimal) : Texts p (.dec d)
  | str {s : Bytes} : p s → Texts p (.str s)
  | obj {ms : List (Bytes × Value)} : (∀ m ∈ ms, p m.1) → (∀ m ∈ ms, Texts p m.2) →
      Texts p (.obj ms)
  | arr {xs : List Value} : (∀ x ∈ xs, Texts p x) → Texts p (.arr xs)
  | foreign (t : String) : Texts p (.foreign t)

theorem texts_true (v : Value) : Texts (fun _ => True) v := by
  induction v using induction_mem with
  | null => exact .null
  | bool b => exact .bool b
  | int n => exact .int n
  | dec d => exact .dec d
  | str s => exact .str trivial
  | obj ms ih => exact .obj (fun _ _ => trivial) ih
  | arr xs ih => exact .arr ih
  | foreign t => exact .foreign t

/-! ### Sorting keys -/

theorem sortKeysMembers_eq_map (ms : List (Bytes × Value)) :
    sortKeysMembers ms = ms.map fun m => (m.1, m.2.sortKeys) := by
  induction ms with
  | nil => rfl
  | cons m ms ih =>
    obtain ⟨k, v⟩ := m
    rw [sortKeysMembers, ih, List.map_cons]

theorem sortKeysElems_eq_map (xs : List Value) : sortKeysElems xs = xs.map sortKeys := by
  induction xs with
  | nil => rfl
  | cons x xs ih => rw [sortKeysElems, ih, List.map_cons]

theorem sortMembers_perm {α : Type} (ms : List (Bytes × α)) : (sortMembers ms).Perm ms :=
  List.mergeSort_perm _ _

/-- Sorting keys moves members and nothing else, so the depth stays. -/
theorem depth_sortKeys (v : Value) : v.sortKeys.depth = v.depth := by
  induction v using induction_mem with
  | obj ms ih =>
    have hmap : membersDepth (ms.map fun m => (m.1, m.2.sortKeys)) = membersDepth ms := by
      refine le_antisymm (membersDepth_le_iff.mpr ?_) (membersDepth_le_iff.mpr ?_)
      · intro m hm
        obtain ⟨m', hm', rfl⟩ := List.mem_map.mp hm
        rw [ih m' hm']
        exact membersDepth_le_iff.mp le_rfl m' hm'
      · intro m hm
        rw [← ih m hm]
        exact membersDepth_le_iff.mp le_rfl (m.1, m.2.sortKeys) (List.mem_map_of_mem hm)
    rw [sortKeys, depth, depth, membersDepth_perm (sortMembers_perm _), sortKeysMembers_eq_map,
      hmap]
  | arr xs ih =>
    have hmap : elemsDepth (xs.map sortKeys) = elemsDepth xs := by
      refine le_antisymm (elemsDepth_le_iff.mpr ?_) (elemsDepth_le_iff.mpr ?_)
      · intro x hx
        obtain ⟨x', hx', rfl⟩ := List.mem_map.mp hx
        rw [ih x' hx']
        exact elemsDepth_le_iff.mp le_rfl x' hx'
      · intro x hx
        rw [← ih x hx]
        exact elemsDepth_le_iff.mp le_rfl x.sortKeys (List.mem_map_of_mem hx)
    rw [sortKeys, depth, depth, sortKeysElems_eq_map, hmap]
  | _ => rfl

/-- Sorting keys keeps a value well formed: the keys of an object are only reordered. -/
theorem Wf.sortKeys {v : Value} (h : v.Wf) : v.sortKeys.Wf := by
  induction h with
  | null => exact .null
  | bool b => exact .bool b
  | int n => exact .int n
  | dec hlo hhi => exact .dec hlo hhi
  | str s => exact .str s
  | @obj ms hkeys _ ih =>
    rw [Value.sortKeys, sortKeysMembers_eq_map]
    have hperm := sortMembers_perm (ms.map fun m => (m.1, m.2.sortKeys))
    refine .obj ?_ fun m hm => ?_
    · rw [(hperm.map Prod.fst).nodup_iff, List.map_map]
      exact hkeys
    · obtain ⟨m', hm', rfl⟩ := List.mem_map.mp (hperm.mem_iff.mp hm)
      exact ih m' hm'
  | arr _ ih =>
    rw [Value.sortKeys, sortKeysElems_eq_map]
    exact .arr fun x hx => by
      obtain ⟨x', hx', rfl⟩ := List.mem_map.mp hx
      exact ih x' hx'

/-- Sorting keys moves strings and keys without changing them. -/
theorem Texts.sortKeys {p : Bytes → Prop} {v : Value} (h : Texts p v) : Texts p v.sortKeys := by
  induction h with
  | null => exact .null
  | bool b => exact .bool b
  | int n => exact .int n
  | dec d => exact .dec d
  | str hs => exact .str hs
  | @obj ms hk _ ih =>
    rw [Value.sortKeys, sortKeysMembers_eq_map]
    have hperm := sortMembers_perm (ms.map fun m => (m.1, m.2.sortKeys))
    refine .obj (fun m hm => ?_) fun m hm => ?_
    · obtain ⟨m', hm', rfl⟩ := List.mem_map.mp (hperm.mem_iff.mp hm)
      exact hk m' hm'
    · obtain ⟨m', hm', rfl⟩ := List.mem_map.mp (hperm.mem_iff.mp hm)
      exact ih m' hm'
  | arr _ ih =>
    rw [Value.sortKeys, sortKeysElems_eq_map]
    exact .arr fun x hx => by
      obtain ⟨x', hx', rfl⟩ := List.mem_map.mp hx
      exact ih x' hx'
  | foreign t => exact .foreign t

/-- Equivalent member lists have the same keys in the same order. -/
theorem keys_eq_of_membersEquiv {ps ms : List (Bytes × Value)} (h : membersEquiv ps ms = true) :
    ps.map Prod.fst = ms.map Prod.fst := by
  induction ps generalizing ms with
  | nil =>
    cases ms with
    | nil => rfl
    | cons m ms => simp [membersEquiv] at h
  | cons p ps ih =>
    cases ms with
    | nil => simp [membersEquiv] at h
    | cons m ms =>
      obtain ⟨k, v⟩ := p
      obtain ⟨k', v'⟩ := m
      simp only [membersEquiv, Bool.and_eq_true, beq_iff_eq] at h
      simp [h.1.1, ih h.2]

end Value

namespace Members

variable {α : Type}

theorem set_of_not_mem {ms : List (Bytes × α)} {k : Bytes} (h : k ∉ ms.map Prod.fst) (v : α) :
    set ms k v = ms ++ [(k, v)] := by
  have hhas : has ms k = false := by
    simp only [has, List.any_eq_false, beq_iff_eq]
    exact fun m hm hk => h (List.mem_map.mpr ⟨m, hm, hk⟩)
  simp [set, hhas]

/-- Pairs with keys new to the list are appended in order. -/
theorem foldl_set_of_nodup (acc ps : List (Bytes × α)) (h : ((acc ++ ps).map Prod.fst).Nodup) :
    ps.foldl (fun ms p => set ms p.1 p.2) acc = acc ++ ps := by
  induction ps generalizing acc with
  | nil => simp
  | cons p ps ih =>
    have hnew : p.1 ∉ acc.map Prod.fst := by
      intro hp
      rw [List.map_append, List.nodup_append] at h
      exact h.2.2 _ hp _ (List.mem_map_of_mem List.mem_cons_self) rfl
    rw [List.foldl_cons, set_of_not_mem hnew, ih _ (by simpa using h)]
    simp

/-- Setting pairs with distinct keys, in order, lists them as they are. -/
theorem ofPairs_of_nodup {ps : List (Bytes × α)} (h : (ps.map Prod.fst).Nodup) :
    ofPairs ps = ps :=
  foldl_set_of_nodup [] ps h

end Members

end ExactJson
