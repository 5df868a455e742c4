import Mathlib
import ExactJson.Value.Object
import ExactJson.Proofs.GrammarValues

/-!
# Stored objects behave as member lists

A stored object (`Object`) keeps its keys, their values and an index of positions apart. Its
representation invariant `Object.Wf` says that the two lists are in step, that the keys are
distinct, and that the index gives each key its position and knows no other key. Under it the
object *is* the member list `o.members` read along the two lists:

* the zero object and a new one satisfy it, and every call keeps it (`Object.Wf.set`,
  `Object.Wf.delete`); the hard case is `delete`, whose renumbering of the keys after the gap is
  `Object.reindex`, read back by `reindex_getElem?_eq_some`;
* each call acts on `o.members` as the same call acts on a plain member list (`Object.Wf.call`);
* hence any sequence of calls, from a new or from the zero object, answers as it would on a
  member list, and ends in an object that still satisfies the invariant (`Object.Wf.run`).
-/

namespace ExactJson

variable {α : Type}

/-! ## Member lists read along two lists in step -/

namespace Members

theorem keys_zip {ks : List Bytes} {vs : List α} (hl : vs.length = ks.length) :
    keys (ks.zip vs) = ks :=
  List.map_fst_zip (by omega)

theorem has_eq_decide (ms : List (Bytes × α)) (k : Bytes) :
    has ms k = decide (k ∈ keys ms) := by
  rw [Bool.eq_iff_iff, has, List.any_eq_true, decide_eq_true_iff, keys, List.mem_map]
  simp only [beq_iff_eq]

theorem has_zip {ks : List Bytes} {vs : List α} (hl : vs.length = ks.length) (k : Bytes) :
    has (ks.zip vs) k = decide (k ∈ ks) := by
  rw [has_eq_decide, keys_zip hl]

theorem get?_zip_of_not_mem {ks : List Bytes} {vs : List α} {k : Bytes} (h : k ∉ ks) :
    get? (ks.zip vs) k = none := by
  rw [get?, Option.map_eq_none_iff, List.find?_eq_none]
  intro m hm hk
  exact h (beq_iff_eq.mp hk ▸ (List.of_mem_zip hm).1)

/-- Among distinct keys, the key at position `i` finds the value at position `i`. -/
theorem get?_zip {ks : List Bytes} {vs : List α} (hn : ks.Nodup) {i : Nat} {k : Bytes}
    (h : ks[i]? = some k) : get? (ks.zip vs) k = vs[i]? := by
  induction ks generalizing vs i with
  | nil => simp at h
  | cons a ks ih =>
    obtain ⟨ha, hn⟩ := List.nodup_cons.mp hn
    cases vs with
    | nil => simp [get?]
    | cons b vs =>
      cases i with
      | zero =>
        obtain rfl : a = k := by simpa using h
        simp [get?]
      | succ i =>
        have hak : a ≠ k := fun e => ha (e ▸ List.mem_of_getElem? h)
        have hrest : get? (ks.zip vs) k = vs[i]? := ih hn (by simpa using h)
        simp only [get?, List.zip_cons_cons, List.find?_cons, beq_false_of_ne hak,
          List.getElem?_cons_succ] at hrest ⊢
        exact hrest

/-- Setting a key at position `i` replaces the value at `i`. -/
theorem set_zip_of_getElem? {ks : List Bytes} {vs : List α} (hn : ks.Nodup)
    (hl : vs.length = ks.length) {i : Nat} {k : Bytes} (h : ks[i]? = some k) (v : α) :
    set (ks.zip vs) k v = ks.zip (vs.set i v) := by
  have hk : k ∈ ks := List.mem_of_getElem? h
  rw [set, if_pos (by rw [has_zip hl]; exact decide_eq_true hk)]
  induction ks generalizing vs i with
  | nil => simp at h
  | cons a ks ih =>
    obtain ⟨ha, hn⟩ := List.nodup_cons.mp hn
    cases vs with
    | nil => simp at hl
    | cons b vs =>
      cases i with
      | zero =>
        obtain rfl : a = k := by simpa using h
        -- no later key is `a`, so the rest is kept as it is
        have hkeep : ∀ m ∈ ks.zip vs, (if m.1 == a then (a, v) else m) = m := fun m hm => by
          rw [if_neg]
          intro hm'
          exact ha (beq_iff_eq.mp hm' ▸ (List.of_mem_zip hm).1)
        rw [List.zip_cons_cons, List.map_cons, List.map_congr_left hkeep]
        simp
      | succ i =>
        have hak : a ≠ k := fun e => ha (e ▸ List.mem_of_getElem? h)
        have hrest := @ih vs hn (by simpa using hl) i (by simpa using h)
          (List.mem_of_getElem? (by simpa using h))
        rw [List.zip_cons_cons, List.map_cons, hrest, if_neg (by simpa using hak)]
        simp

/-- Setting a key that is absent appends it. -/
theorem set_zip_of_not_mem {ks : List Bytes} {vs : List α} (hl : vs.length = ks.length)
    {k : Bytes} (h : k ∉ ks) (v : α) :
    set (ks.zip vs) k v = (ks ++ [k]).zip (vs ++ [v]) := by
  rw [set, if_neg (by rw [has_zip hl]; simpa using h), List.zip_append hl.symm]
  rfl

theorem erase_zip_of_not_mem {ks : List Bytes} {vs : List α} {k : Bytes} (h : k ∉ ks) :
    erase (ks.zip vs) k = ks.zip vs := by
  rw [erase, List.filter_eq_self]
  intro m hm
  simp only [bne_iff_ne, ne_eq]
  intro e
  exact h (e ▸ (List.of_mem_zip hm).1)

/-- Erasing the key at position `i` drops position `i` of both lists. -/
theorem erase_zip {ks : List Bytes} {vs : List α} (hn : ks.Nodup) {i : Nat} {k : Bytes}
    (h : ks[i]? = some k) : erase (ks.zip vs) k = (ks.eraseIdx i).zip (vs.eraseIdx i) := by
  induction ks generalizing vs i with
  | nil => simp at h
  | cons a ks ih =>
    obtain ⟨ha, hn⟩ := List.nodup_cons.mp hn
    cases vs with
    | nil => simp [erase]
    | cons b vs =>
      cases i with
      | zero =>
        obtain rfl : a = k := by simpa using h
        have hrest : erase (ks.zip vs) a = ks.zip vs := erase_zip_of_not_mem ha
        simp only [erase] at hrest
        simp [erase, hrest]
      | succ i =>
        have hak : a ≠ k := fun e => ha (e ▸ List.mem_of_getElem? h)
        have hrest : erase (ks.zip vs) k = (ks.eraseIdx i).zip (vs.eraseIdx i) :=
          ih hn (by simpa using h)
        simp only [erase] at hrest
        simp [erase, hak, hrest]

end Members

/-! ## The representation invariant -/

namespace Object

variable {o : Object α} {k : Bytes}

/-- The representation invariant of a stored object. -/
structure Wf (o : Object α) : Prop where
  /-- The values are in step with the keys. -/
  values_length : o.values.length = o.keys.length
  /-- No key is stored twice. -/
  nodup : o.keys.Nodup
  /-- The index gives each key its position, and knows no other key. -/
  position_iff : ∀ k i, o.position k = some i ↔ o.keys[i]? = some k

theorem position_eq_getD (o : Object α) (k : Bytes) : o.position k = (o.index.getD ∅)[k]? := by
  cases h : o.index <;> simp [position, h]

theorem wf_new : (new : Object α).Wf :=
  ⟨rfl, List.nodup_nil, fun k i => by simp [new, position]⟩

theorem wf_zero : (zero : Object α).Wf :=
  ⟨rfl, List.nodup_nil, fun k i => by simp [zero, position]⟩

namespace Wf

variable (h : o.Wf)
include h

theorem getElem?_of_position {i : Nat} (hp : o.position k = some i) : o.keys[i]? = some k :=
  (h.position_iff k i).mp hp

theorem position_eq_none_iff : o.position k = none ↔ k ∉ o.keys := by
  rw [List.mem_iff_getElem?]
  constructor
  · rintro hp ⟨i, hi⟩
    rw [← h.position_iff] at hi
    simp [hp] at hi
  · intro hk
    cases hp : o.position k with
    | none => rfl
    | some i => exact absurd ⟨i, h.getElem?_of_position hp⟩ hk

/-- Each key stands at the position the index gives it. -/
theorem position_getElem (i : Nat) (hi : i < o.keys.length) : o.position o.keys[i] = some i :=
  (h.position_iff _ i).mpr (List.getElem?_eq_getElem hi)

/-- The index has one entry for each key. -/
theorem indexSize_eq : o.indexSize = o.keys.length := by
  obtain ⟨ks, vs, index⟩ := o
  cases index with
  | none =>
    -- no key has a position, so there is no key
    cases ks with
    | nil => rfl
    | cons a ks =>
      have := (h.position_iff a 0).mpr rfl
      simp [position] at this
  | some m =>
    have hperm : m.keys.Perm ks := by
      refine (List.perm_ext_iff_of_nodup Std.HashMap.nodup_keys h.nodup).mpr fun a => ?_
      rw [Std.HashMap.mem_keys, Std.HashMap.mem_iff_isSome_getElem?, List.mem_iff_getElem?]
      constructor
      · intro hs
        obtain ⟨i, hi⟩ := Option.isSome_iff_exists.mp hs
        exact ⟨i, (h.position_iff a i).mp hi⟩
      · rintro ⟨i, hi⟩
        have : m[a]? = some i := (h.position_iff a i).mpr hi
        simp [this]
    simp only [indexSize, Option.map_some, Option.getD_some]
    rw [← Std.HashMap.length_keys, hperm.length_eq]

end Wf

/-! ## One call at a time -/

theorem getElem?_append_singleton_eq_some {l : List Bytes} {a b : Bytes} {i : Nat} :
    (l ++ [a])[i]? = some b ↔ l[i]? = some b ∨ (i = l.length ∧ a = b) := by
  rw [List.getElem?_append]
  split_ifs with hi
  · have : i ≠ l.length := by omega
    simp [this]
  · have hnone : l[i]? = none := List.getElem?_eq_none (by omega)
    rw [hnone]
    by_cases he : i = l.length
    · simp [he]
    · have : i - l.length ≠ 0 := by omega
      simp [he, this]

theorem set_of_position_some {i : Nat} (hp : o.position k = some i) (v : α) :
    o.set k v = ⟨o.keys, o.values.set i v, o.index⟩ := by
  obtain ⟨ks, vs, index⟩ := o
  cases index with
  | none => simp [position] at hp
  | some m =>
    have hm : m[k]? = some i := hp
    simp [set, hm]

theorem set_of_position_none (hp : o.position k = none) (v : α) :
    o.set k v = ⟨o.keys ++ [k], o.values ++ [v],
      some ((o.index.getD ∅).insert k o.keys.length)⟩ := by
  have hm : (o.index.getD ∅)[k]? = none := by rw [← position_eq_getD]; exact hp
  simp only [set, hm]

theorem delete_of_position_none (hp : o.position k = none) : o.delete k = (o, false) := by
  obtain ⟨ks, vs, index⟩ := o
  cases index with
  | none => rfl
  | some m =>
    have hm : m[k]? = none := hp
    simp [delete, hm]

theorem delete_of_position_some {i : Nat} (hp : o.position k = some i) :
    o.delete k = (⟨o.keys.eraseIdx i, o.values.eraseIdx i,
      some (reindex ((o.index.getD ∅).erase k) ((o.keys.eraseIdx i).drop i) i)⟩, true) := by
  obtain ⟨ks, vs, index⟩ := o
  cases index with
  | none => simp [position] at hp
  | some m =>
    have hm : m[k]? = some i := hp
    simp [delete, hm]

theorem reindex_getElem?_of_not_mem (m : Std.HashMap Bytes Nat) {ks : List Bytes} (h : k ∉ ks)
    (j : Nat) : (reindex m ks j)[k]? = m[k]? := by
  induction ks generalizing m j with
  | nil => rfl
  | cons a ks ih =>
    have hak : a ≠ k := fun e => h (e ▸ List.mem_cons_self)
    rw [reindex, ih _ (fun hk => h (List.mem_cons_of_mem a hk)), Std.HashMap.getElem?_insert,
      if_neg (by simpa using hak)]

/-- Renumbering gives the key at place `q` of `ks` the position `j + q`. -/
theorem reindex_getElem?_of_getElem? (m : Std.HashMap Bytes Nat) {ks : List Bytes}
    (hn : ks.Nodup) {q : Nat} (h : ks[q]? = some k) (j : Nat) :
    (reindex m ks j)[k]? = some (j + q) := by
  induction ks generalizing m j q with
  | nil => simp at h
  | cons a ks ih =>
    obtain ⟨ha, hn⟩ := List.nodup_cons.mp hn
    cases q with
    | zero =>
      obtain rfl : a = k := by simpa using h
      rw [reindex, reindex_getElem?_of_not_mem _ ha, Std.HashMap.getElem?_insert_self]
      rfl
    | succ q =>
      rw [reindex, ih _ hn (by simpa using h)]
      congr 1
      omega

theorem mem_drop_iff_getElem? {l : List Bytes} {i : Nat} :
    k ∈ l.drop i ↔ ∃ p, i ≤ p ∧ l[p]? = some k := by
  rw [List.mem_iff_getElem?]
  constructor
  · rintro ⟨q, hq⟩
    exact ⟨i + q, by omega, by rwa [List.getElem?_drop] at hq⟩
  · rintro ⟨p, hp, hk⟩
    exact ⟨p - i, by rw [List.getElem?_drop, Nat.add_sub_cancel' hp]; exact hk⟩

theorem eq_of_getElem?_eq_some {l : List Bytes} (hn : l.Nodup) {i j : Nat} {a : Bytes}
    (hi : l[i]? = some a) (hj : l[j]? = some a) : i = j :=
  (List.getElem?_inj (List.getElem?_eq_some_iff.mp hi).1 hn).mp (hi.trans hj.symm)

namespace Wf

variable (h : o.Wf)
include h

theorem set {v : α} : (o.set k v).Wf := by
  cases hp : o.position k with
  | some i =>
    rw [set_of_position_some hp]
    exact ⟨by simpa using h.values_length, h.nodup, h.position_iff⟩
  | none =>
    have hk : k ∉ o.keys := (h.position_eq_none_iff).mp hp
    rw [set_of_position_none hp]
    refine ⟨by simp [h.values_length], List.nodup_append.mpr ⟨h.nodup, List.nodup_singleton k,
      fun a ha b hb => by rw [List.mem_singleton.mp hb]; exact fun e => hk (e ▸ ha)⟩,
      fun k' i => ?_⟩
    simp only [position, Option.bind_some, Std.HashMap.getElem?_insert, beq_iff_eq,
      ← position_eq_getD, getElem?_append_singleton_eq_some]
    by_cases he : k = k'
    · subst he
      -- the new key stands only at the end
      have hnot : o.keys[i]? ≠ some k := fun hi => hk (List.mem_of_getElem? hi)
      simp only [if_true, Option.some.injEq, hnot, false_or, and_true]
      exact eq_comm
    · simp only [he, if_false, and_false, or_false]
      exact h.position_iff k' i

/-- After the key at position `i` is deleted, the index gives every key its position in the
shortened list of keys. -/
theorem delete_position {i : Nat} (hp : o.position k = some i) (k' : Bytes) (p : Nat) :
    (o.delete k).1.position k' = some p ↔ (o.keys.eraseIdx i)[p]? = some k' := by
  have hi := h.getElem?_of_position hp
  have hn' : (o.keys.eraseIdx i).Nodup := h.nodup.eraseIdx i
  rw [delete_of_position_some hp]
  simp only [position, Option.bind_some]
  by_cases hd : k' ∈ (o.keys.eraseIdx i).drop i
  · -- a key after the gap is renumbered to its new place
    obtain ⟨q, hq⟩ := List.mem_iff_getElem?.mp hd
    rw [reindex_getElem?_of_getElem? _ (hn'.sublist (List.drop_sublist _ _)) hq]
    rw [List.getElem?_drop] at hq
    constructor
    · rintro ⟨⟩
      exact hq
    · intro hp'
      rw [eq_of_getElem?_eq_some hn' hq hp']
  · rw [reindex_getElem?_of_not_mem _ hd, Std.HashMap.getElem?_erase]
    by_cases he : k = k'
    · -- the deleted key is nowhere in the shortened list
      subst he
      simp only [beq_self_eq_true, if_true, reduceCtorEq, false_iff]
      intro hk
      obtain ⟨j, hji, hj⟩ := List.mem_eraseIdx_iff_getElem?.mp (List.mem_of_getElem? hk)
      exact hji (eq_of_getElem?_eq_some h.nodup hj hi)
    · -- a key before the gap keeps its position
      have hbefore : ∀ q, i ≤ q → o.keys[q + 1]? ≠ some k' := by
        intro q hq hk
        refine hd (mem_drop_iff_getElem?.mpr ⟨q, hq, ?_⟩)
        rw [List.getElem?_eraseIdx, if_neg (by omega)]
        exact hk
      rw [if_neg (by simpa using he), ← position_eq_getD, h.position_iff, List.getElem?_eraseIdx]
      split_ifs with hpi
      · exact Iff.rfl
      · constructor
        · intro hk
          rcases Nat.lt_or_ge i p with hgt | hle
          · exact absurd (by rwa [Nat.sub_add_cancel (by omega)] : o.keys[p - 1 + 1]? = some k')
              (hbefore (p - 1) (by omega))
          · obtain rfl : p = i := by omega
            exact absurd (Option.some.inj (hi.symm.trans hk)) he
        · intro hk
          exact absurd hk (hbefore p (by omega))

theorem delete : (o.delete k).1.Wf := by
  cases hp : o.position k with
  | none =>
    rw [delete_of_position_none hp]
    exact h
  | some i =>
    have hlt : i < o.keys.length := (List.getElem?_eq_some_iff.mp (h.getElem?_of_position hp)).1
    have hkeys : (o.delete k).1.keys = o.keys.eraseIdx i := by rw [delete_of_position_some hp]
    have hvalues : (o.delete k).1.values = o.values.eraseIdx i := by
      rw [delete_of_position_some hp]
    refine ⟨?_, hkeys ▸ h.nodup.eraseIdx i, fun k' p => hkeys ▸ h.delete_position hp k' p⟩
    rw [hkeys, hvalues, List.length_eraseIdx_of_lt hlt,
      List.length_eraseIdx_of_lt (h.values_length ▸ hlt), h.values_length]

/-! ### What each call does to the member list -/

theorem members_set {v : α} : (o.set k v).members = Members.set o.members k v := by
  cases hp : o.position k with
  | some i =>
    rw [set_of_position_some hp, members, members,
      Members.set_zip_of_getElem? h.nodup h.values_length (h.getElem?_of_position hp)]
  | none =>
    rw [set_of_position_none hp, members, members,
      Members.set_zip_of_not_mem h.values_length (h.position_eq_none_iff.mp hp)]

theorem members_delete : (o.delete k).1.members = Members.erase o.members k := by
  cases hp : o.position k with
  | some i =>
    rw [delete_of_position_some hp, members, members,
      Members.erase_zip h.nodup (h.getElem?_of_position hp)]
  | none =>
    rw [delete_of_position_none hp, members,
      Members.erase_zip_of_not_mem (h.position_eq_none_iff.mp hp)]

theorem has_eq : o.has k = Members.has o.members k := by
  rw [members, Members.has_zip h.values_length, has]
  cases hp : o.position k with
  | some i => simp [List.mem_of_getElem? (h.getElem?_of_position hp)]
  | none => simp [h.position_eq_none_iff.mp hp]

theorem delete_found : (o.delete k).2 = Members.has o.members k := by
  rw [← h.has_eq, has]
  cases hp : o.position k with
  | some i => rw [delete_of_position_some hp]; rfl
  | none => rw [delete_of_position_none hp]; rfl

theorem get?_eq : o.get? k = Members.get? o.members k := by
  rw [get?, members]
  cases hp : o.position k with
  | some i => rw [Members.get?_zip h.nodup (h.getElem?_of_position hp)]
  | none => rw [Members.get?_zip_of_not_mem (h.position_eq_none_iff.mp hp)]

theorem keys_eq : o.keys = Members.keys o.members := (Members.keys_zip h.values_length).symm

theorem len_eq : o.len = o.members.length := by
  rw [len, members, List.length_zip, h.values_length, Nat.min_self]

/-- **One call.** A call keeps the invariant, acts on the members as it acts on a plain member
list, and answers as it would there. -/
theorem call (c : Call α) :
    (o.call c).1.Wf ∧ (o.call c).1.members = (Members.call o.members c).1 ∧
      (o.call c).2 = (Members.call o.members c).2 := by
  cases c with
  | set k v => exact ⟨h.set, h.members_set, rfl⟩
  | delete k => exact ⟨h.delete, h.members_delete, by simp [Object.call, Members.call,
      h.delete_found]⟩
  | get k => exact ⟨h, rfl, by simp [Object.call, Members.call, h.get?_eq]⟩
  | has k => exact ⟨h, rfl, by simp [Object.call, Members.call, h.has_eq]⟩
  | len => exact ⟨h, rfl, by simp [Object.call, Members.call, h.len_eq]⟩
  | keys => exact ⟨h, rfl, by simp [Object.call, Members.call, ← h.keys_eq]⟩
  | range fn => exact ⟨h, rfl, rfl⟩

end Wf

/-- **A run of calls.** From an object that satisfies the invariant, every sequence of calls
keeps it, ends on the member list that the same calls make of `o.members`, and gives the same
answers. -/
theorem Wf.run {o : Object α} (h : o.Wf) (cs : List (Call α)) :
    (o.run cs).1.Wf ∧ (o.run cs).1.members = (Members.run o.members cs).1 ∧
      (o.run cs).2 = (Members.run o.members cs).2 := by
  induction cs generalizing o with
  | nil => exact ⟨h, rfl, rfl⟩
  | cons c cs ih =>
    obtain ⟨hwf, hmem, hans⟩ := h.call c
    obtain ⟨hwf', hmem', hans'⟩ := ih hwf
    simp only [Object.run, Members.run]
    rw [← hmem, ← hans]
    exact ⟨hwf', hmem', by rw [hans']⟩

end Object

/-! ## Objects from the start -/

/-- What a run of `calls` from `start` shows: its answers and its final members are those the
same calls give on a member list started empty, whose keys stay distinct; and the object ends in
step: as many values and as many index entries as keys, no key twice, and the index giving each
key its position. -/
def Object.RunsAsMembers (start : Object α) (calls : List (Call α)) : Prop :=
  let o := (start.run calls).1
  let ms := Members.run [] calls
  (start.run calls).2 = ms.2 ∧ o.members = ms.1 ∧ (Members.keys ms.1).Nodup ∧
    o.values.length = o.keys.length ∧ o.indexSize = o.keys.length ∧ o.keys.Nodup ∧
    ∀ i (hi : i < o.keys.length), o.position o.keys[i] = some i

theorem Object.Wf.runsAsMembers {start : Object α} (h : start.Wf) (hm : start.members = [])
    (calls : List (Call α)) : start.RunsAsMembers calls := by
  obtain ⟨hwf, hmem, hans⟩ := h.run calls
  rw [hm] at hmem hans
  refine ⟨hans, hmem, ?_, hwf.values_length, hwf.indexSize_eq, hwf.nodup, hwf.position_getElem⟩
  rw [← hmem, ← hwf.keys_eq]
  exact hwf.nodup

/-- **Stored objects are member lists.** Any sequence of calls on a new object, or on the zero
object, answers as the same calls on a member list of distinct keys, where a set replaces the
value of a present key in place and appends a new one, a delete erases the key keeping the order
of the others and tells whether it was there, and the reads go along the list in order; and the
keys, values and index stay in step after every call. -/
theorem object_calls_as_members (calls : List (Call α)) :
    Object.new.RunsAsMembers calls ∧ Object.zero.RunsAsMembers calls :=
  ⟨Object.wf_new.runsAsMembers rfl calls, Object.wf_zero.runsAsMembers rfl calls⟩

end ExactJson
