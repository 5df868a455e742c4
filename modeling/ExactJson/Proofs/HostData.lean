import Mathlib
import ExactJson.Value.Host
import ExactJson.Proofs.ValueShape

/-!
# Host data and back

`Value.toDatum` hands a value to the host as plain data, and `Datum.toValue` takes plain data
back. The two undo each other up to what host maps forget, the order of their keys:

* a value the host can hold comes back with the members of every object, at every depth, in
  byte order of their keys (`toValue_toDatum`, with `Value.sortBytes`);
* plain data (nothing, booleans, 64-bit integers, decimals, strings, maps with distinct keys and
  lists) comes back equal as the host compares data, maps by their keys in whatever order
  (`toDatum_toValue`, with `Datum.DeepEq`).

Both directions meet in one lemma about maps (`toValue_map`): entries whose data all have values
give the object of those values, sorted by key, since the keys are distinct and setting them in
order keeps them all.
-/

namespace ExactJson

section Lists

variable {α β : Type} {R : α → β → Prop}

/-- A relation that holds of every item with something lists every item with something. -/
theorem exists_forall₂ : ∀ {l : List α}, (∀ a ∈ l, ∃ b, R a b) → ∃ u, List.Forall₂ R l u
  | [], _ => ⟨[], .nil⟩
  | a :: l, h => by
    obtain ⟨b, hb⟩ := h a List.mem_cons_self
    obtain ⟨u, hu⟩ := exists_forall₂ fun x hx => h x (List.mem_cons_of_mem a hx)
    exact ⟨b :: u, .cons hb hu⟩

theorem forall₂_exists_mem_left {l : List α} {u : List β} (h : List.Forall₂ R l u) {b : β}
    (hb : b ∈ u) : ∃ a ∈ l, R a b := by
  induction h with
  | nil => cases hb
  | @cons a b' l u hab _ ih =>
    rcases List.mem_cons.mp hb with rfl | hb
    · exact ⟨a, List.mem_cons_self, hab⟩
    · obtain ⟨a', ha', h⟩ := ih hb
      exact ⟨a', List.mem_cons_of_mem a ha', h⟩

end Lists

/-! ## Byte order of keys -/

theorem Bytes.le_total : ∀ a b : Bytes, (Bytes.le a b || Bytes.le b a) = true
  | [], _ => by simp [Bytes.le]
  | _ :: _, [] => by simp [Bytes.le]
  | x :: a, y :: b => by
    by_cases hxy : x = y
    · subst hxy
      simpa [Bytes.le] using Bytes.le_total a b
    · rcases UInt8.lt_or_lt_of_ne hxy with h | h <;> simp [Bytes.le, h]

theorem Bytes.le_trans : ∀ {a b c : Bytes}, Bytes.le a b = true → Bytes.le b c = true →
    Bytes.le a c = true
  | [], _, _, _, _ => rfl
  | _ :: _, [], _, hab, _ => by simp [Bytes.le] at hab
  | _ :: _, _ :: _, [], _, hbc => by simp [Bytes.le] at hbc
  | x :: a, y :: b, z :: c, hab, hbc => by
    simp only [Bytes.le, Bool.or_eq_true, Bool.and_eq_true, decide_eq_true_eq, beq_iff_eq]
      at hab hbc ⊢
    rcases hab with hxy | ⟨rfl, hab⟩ <;> rcases hbc with hyz | ⟨rfl, hbc⟩
    · exact .inl (UInt8.lt_trans hxy hyz)
    · exact .inl hxy
    · exact .inl hyz
    · exact .inr ⟨rfl, Bytes.le_trans hab hbc⟩

namespace Value

mutual

/-- The value with the members of every object, at every depth, stably sorted in byte order of
their keys. -/
def sortBytes : Value → Value
  | .obj ms => .obj ((sortBytesMembers ms).mergeSort fun a b => Bytes.le a.1 b.1)
  | .arr xs => .arr (sortBytesElems xs)
  | v => v

/-- `sortBytes` applied to every member value. -/
def sortBytesMembers : List (Bytes × Value) → List (Bytes × Value)
  | [] => []
  | (k, v) :: rest => (k, sortBytes v) :: sortBytesMembers rest

/-- `sortBytes` applied to every element. -/
def sortBytesElems : List Value → List Value
  | [] => []
  | x :: rest => sortBytes x :: sortBytesElems rest

end

theorem sortBytesMembers_eq_map (ms : List (Bytes × Value)) :
    sortBytesMembers ms = ms.map fun m => (m.1, m.2.sortBytes) := by
  induction ms with
  | nil => rfl
  | cons m ms ih =>
    obtain ⟨k, v⟩ := m
    rw [sortBytesMembers, ih, List.map_cons]

theorem sortBytesElems_eq_map (xs : List Value) : sortBytesElems xs = xs.map sortBytes := by
  induction xs with
  | nil => rfl
  | cons x xs ih => rw [sortBytesElems, ih, List.map_cons]

theorem membersToDatum_eq_map (ms : List (Bytes × Value)) :
    membersToDatum ms = ms.map fun m => (m.1, m.2.toDatum) := by
  induction ms with
  | nil => rfl
  | cons m ms ih =>
    obtain ⟨k, v⟩ := m
    rw [membersToDatum, ih, List.map_cons]

theorem elemsToDatum_eq_map (xs : List Value) : elemsToDatum xs = xs.map toDatum := by
  induction xs with
  | nil => rfl
  | cons x xs ih => rw [elemsToDatum, ih, List.map_cons]

/-- `sortBytes` gives an object its members, each sorted in turn, in byte order of their keys. -/
theorem sortBytes_obj (ms : List (Bytes × Value)) :
    ∃ ns, (Value.obj ms).sortBytes = .obj ns ∧ ns.Perm (ms.map fun m => (m.1, m.2.sortBytes)) ∧
      (ns.map Prod.fst).Pairwise fun a b => Bytes.le a b = true := by
  refine ⟨_, rfl, ?_, ?_⟩
  · rw [← sortBytesMembers_eq_map]
    exact List.mergeSort_perm _ _
  · rw [List.pairwise_map]
    exact List.pairwise_mergeSort
      (fun (a b c : Bytes × Value) (hab : Bytes.le a.1 b.1) (hbc : Bytes.le b.1 c.1) =>
        Bytes.le_trans hab hbc)
      (fun a b => Bytes.le_total a.1 b.1) _

end Value

namespace Datum

/-- Plain host data: nothing, booleans, 64-bit integers, decimals, strings, maps with distinct
keys and lists, at every depth. -/
inductive Plain : Datum → Prop
  | nothing : Plain .nothing
  | bool (b : Bool) : Plain (.bool b)
  | int (n : Int64) : Plain (.int n)
  | decimal (d : Decimal) : Plain (.decimal d)
  | string (s : Bytes) : Plain (.string s)
  | map {es : List (Bytes × Datum)} : (es.map Prod.fst).Nodup → (∀ e ∈ es, Plain e.2) →
      Plain (.map es)
  | list {xs : List Datum} : (∀ x ∈ xs, Plain x) → Plain (.list xs)

/-- Equality of host data as the host compares it: maps are equal when they have the same keys
and equal data under each key, in whatever order; lists when they are equal item by item. -/
inductive DeepEq : Datum → Datum → Prop
  | nothing : DeepEq .nothing .nothing
  | bool (b : Bool) : DeepEq (.bool b) (.bool b)
  | int (n : Int64) : DeepEq (.int n) (.int n)
  | decimal (d : Decimal) : DeepEq (.decimal d) (.decimal d)
  | string (s : Bytes) : DeepEq (.string s) (.string s)
  | map {es fs : List (Bytes × Datum)} : (es.map Prod.fst).Perm (fs.map Prod.fst) →
      (∀ k a b, (k, a) ∈ es → (k, b) ∈ fs → DeepEq a b) → DeepEq (.map es) (.map fs)
  | list {xs ys : List Datum} : xs.length = ys.length → (∀ p ∈ xs.zip ys, DeepEq p.1 p.2) →
      DeepEq (.list xs) (.list ys)

/-- Items whose data all have values give those values, in order. -/
theorem itemsToValue_of_forall₂ {xs : List Datum} {vs : List Value}
    (h : List.Forall₂ (fun x v => x.toValue = .ok v) xs vs) : itemsToValue xs = .ok vs := by
  induction h with
  | nil => rfl
  | cons hx _ ih =>
    rw [itemsToValue, hx, ih]
    rfl

/-- Reading back entries that all succeeded gives the pairs, in order. -/
theorem mapM_ok (ps : List (Bytes × Value)) :
    ((ps.map fun p => (p.1, (.ok p.2 : Except Failure Value))).mapM
      fun (kr : Bytes × Except Failure Value) => kr.2.map fun v => (kr.1, v)) = .ok ps := by
  induction ps with
  | nil => rfl
  | cons p ps ih =>
    rw [List.map_cons, List.mapM_cons, ih]
    rfl

/-- Entries whose data all have values are those values, each read successfully, under the
same keys. -/
theorem entriesToValue_of_forall₂ {es : List (Bytes × Datum)} {ps : List (Bytes × Value)}
    (h : List.Forall₂ (fun e p => e.1 = p.1 ∧ e.2.toValue = .ok p.2) es ps) :
    entriesToValue es = (ps.map fun p => (p.1, (.ok p.2 : Except Failure Value))) ∧
      ps.map Prod.fst = es.map Prod.fst := by
  induction h with
  | nil => exact ⟨rfl, rfl⟩
  | @cons e p es ps hep _ ih =>
    obtain ⟨k, d⟩ := e
    obtain ⟨rfl, hd⟩ := hep
    rw [entriesToValue, hd, ih.1, List.map_cons, List.map_cons, List.map_cons, ih.2]
    exact ⟨rfl, rfl⟩

/-- **A map whose data all have values is the object of those values**, sorted stably in byte
order of the keys: with distinct keys, setting them in that order keeps every member. -/
theorem toValue_map {es : List (Bytes × Datum)} {ps : List (Bytes × Value)}
    (h : List.Forall₂ (fun e p => e.1 = p.1 ∧ e.2.toValue = .ok p.2) es ps)
    (hkeys : (es.map Prod.fst).Nodup) :
    (Datum.map es).toValue = .ok (.obj (ps.mergeSort fun a b => Bytes.le a.1 b.1)) := by
  have hent := entriesToValue_of_forall₂ h
  have hsorted : ((ps.map fun p => (p.1, (.ok p.2 : Except Failure Value))).mergeSort
      fun a b => Bytes.le a.1 b.1) = (ps.mergeSort fun a b => Bytes.le a.1 b.1).map
        fun p => (p.1, (.ok p.2 : Except Failure Value)) := by
    symm
    exact List.map_mergeSort fun _ _ _ _ => rfl
  have hnodup : ((ps.mergeSort fun a b => Bytes.le a.1 b.1).map Prod.fst).Nodup := by
    rw [((List.mergeSort_perm _ _).map Prod.fst).nodup_iff, hent.2]
    exact hkeys
  rw [toValue, hent.1, hsorted, mapM_ok]
  show Except.ok (Value.obj (Members.ofPairs _)) = _
  rw [Members.ofPairs_of_nodup hnodup]

end Datum

/-- **Values come back from host data sorted.** A value the host can hold, handed to it as
plain data and taken back, is the same value with the members of every object in byte order of
their keys. -/
theorem toValue_toDatum {v : Value} (hv : v.Wf) : v.toDatum.toValue = .ok v.sortBytes := by
  induction hv with
  | null => rfl
  | bool b => rfl
  | int n => rfl
  | dec _ _ => rfl
  | str s => rfl
  | @obj ms hkeys _ ih =>
    -- each member's data is read back as its sorted value, under the same key
    have h : List.Forall₂ (fun e p => e.1 = p.1 ∧ e.2.toValue = .ok p.2)
        (Value.membersToDatum ms) (Value.sortBytesMembers ms) := by
      rw [Value.membersToDatum_eq_map, Value.sortBytesMembers_eq_map, List.forall₂_map_left_iff,
        List.forall₂_map_right_iff]
      exact List.forall₂_same.mpr fun m hm => ⟨rfl, ih m hm⟩
    have hk : ((Value.membersToDatum ms).map Prod.fst).Nodup := by
      rw [Value.membersToDatum_eq_map, List.map_map]
      exact hkeys
    rw [Value.toDatum, Datum.toValue_map h hk, Value.sortBytes]
  | @arr xs _ ih =>
    have h : List.Forall₂ (fun x v => x.toValue = .ok v) (Value.elemsToDatum xs)
        (Value.sortBytesElems xs) := by
      rw [Value.elemsToDatum_eq_map, Value.sortBytesElems_eq_map, List.forall₂_map_left_iff,
        List.forall₂_map_right_iff]
      exact List.forall₂_same.mpr ih
    rw [Value.toDatum, Datum.toValue, Datum.itemsToValue_of_forall₂ h, Value.sortBytes]
    rfl

/-- **Plain data comes back deeply equal.** Plain host data always has a value, and that value
handed back to the host is equal to the data as the host compares it. -/
theorem toDatum_toValue {x : Datum} (hx : x.Plain) :
    ∃ v, x.toValue = .ok v ∧ v.toDatum.DeepEq x := by
  induction hx with
  | nothing => exact ⟨.null, rfl, .nothing⟩
  | bool b => exact ⟨.bool b, rfl, .bool b⟩
  | int n => exact ⟨.int n, rfl, .int n⟩
  | decimal d => exact ⟨.dec d, rfl, .decimal d⟩
  | string s => exact ⟨.str s, rfl, .string s⟩
  | @map es hkeys _ ih =>
    -- a value for every entry, under its key
    obtain ⟨ps, hps⟩ := exists_forall₂
      (R := fun (e : Bytes × Datum) (p : Bytes × Value) =>
        e.1 = p.1 ∧ e.2.toValue = .ok p.2 ∧ p.2.toDatum.DeepEq e.2)
      fun e he => by
        obtain ⟨v, hv, hd⟩ := ih e he
        exact ⟨(e.1, v), rfl, hv, hd⟩
    have hok : List.Forall₂ (fun e p => e.1 = p.1 ∧ e.2.toValue = .ok p.2) es ps :=
      hps.imp fun _ _ h => ⟨h.1, h.2.1⟩
    refine ⟨_, Datum.toValue_map hok hkeys, ?_⟩
    rw [Value.toDatum, Value.membersToDatum_eq_map]
    refine .map ?_ ?_
    · -- the keys are those of the entries, sorted
      rw [List.map_map, ← (Datum.entriesToValue_of_forall₂ hok).2]
      exact (List.mergeSort_perm _ _).map Prod.fst
    · -- each key names one entry, whose value gives back its data
      intro k a b ha hb
      obtain ⟨q, hq, hqa⟩ := List.mem_map.mp ha
      obtain ⟨e, he, hkey, -, hdeep⟩ := forall₂_exists_mem_left hps (List.mem_mergeSort.mp hq)
      simp only [Prod.mk.injEq] at hqa
      obtain ⟨rfl, rfl⟩ := hqa
      have heb : e = (q.1, b) := List.inj_on_of_nodup_map hkeys he hb hkey
      rw [heb] at hdeep
      exact hdeep
  | @list xs _ ih =>
    obtain ⟨vs, hvs⟩ := exists_forall₂ ih
    refine ⟨.arr vs, ?_, ?_⟩
    · rw [Datum.toValue, Datum.itemsToValue_of_forall₂ (hvs.imp fun _ _ h => h.1)]
      rfl
    · rw [Value.toDatum, Value.elemsToDatum_eq_map]
      have hd : List.Forall₂ Datum.DeepEq (vs.map Value.toDatum) xs :=
        List.forall₂_map_left_iff.mpr (hvs.flip.imp fun _ _ h => h.2)
      exact .list hd.length_eq fun ⟨_, _⟩ hp => List.forall₂_zip hd hp

/-- **Host data round trips.** A value the host can hold comes back from host data with the
members of every object in byte order of their keys, and plain host data comes back from a value
equal as the host compares it. -/
theorem host_data_round_trip :
    (∀ v : Value, v.Wf → v.toDatum.toValue = .ok v.sortBytes) ∧
      ∀ x : Datum, x.Plain → ∃ v, x.toValue = .ok v ∧ v.toDatum.DeepEq x :=
  ⟨fun _ hv => toValue_toDatum hv, fun _ hx => toDatum_toValue hx⟩

theorem host_data_round_trip_swapped_keys :
    (Value.obj [([0x62], .null), ([0x61], .int 1)]).toDatum.toValue =
        .ok (Value.obj [([0x62], .null), ([0x61], .int 1)]).sortBytes ∧
      ∃ v, (Datum.map [([0x62], .nothing), ([0x61], .int 1)]).toValue = .ok v ∧
        v.toDatum.DeepEq (Datum.map [([0x62], .nothing), ([0x61], .int 1)]) := by
  have hv : (Value.obj [([0x62], .null), ([0x61], .int 1)]).Wf := by
    refine .obj (by decide) fun m hm => ?_
    simp only [List.mem_cons, List.not_mem_nil, or_false] at hm
    rcases hm with rfl | rfl
    · exact .null
    · exact .int 1
  have hx : (Datum.map [([0x62], .nothing), ([0x61], .int 1)]).Plain := by
    refine .map (by decide) fun e he => ?_
    simp only [List.mem_cons, List.not_mem_nil, or_false] at he
    rcases he with rfl | rfl
    · exact .nothing
    · exact .int 1
  exact ⟨host_data_round_trip.1 _ hv, host_data_round_trip.2 _ hx⟩

end ExactJson
