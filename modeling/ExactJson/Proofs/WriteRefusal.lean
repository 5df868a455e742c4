import Mathlib
import ExactJson.Proofs.ValueShape

/-!
# What the writer refuses

A value tree may hold foreign nodes, which have no JSON form. The writer walks a tree in the
order it writes it, each object's members in their order and each array's elements in theirs,
and stops at the first foreign node with `cannot serialize T`, `T` the node's type name.

* `Value.foreignNames` lists the type names of the foreign nodes in that order;
* `Writer.Outcome r names` is what a writer's result must be, given those names: a text when
  there are none, the refusal of the first otherwise; it composes along a sequence of writes
  (`Writer.Outcome.bind`), so the writer meets it one constructor at a time
  (`Writer.value_outcome`);
* sorting keys only reorders the foreign names (`Value.foreignNames_sortKeys_perm`), so a value
  fails to be written, sorted or not, exactly when it holds a foreign node; which one is named
  depends on the order;
* sending a value to a stream makes the text first, so it fails with the same refusal.
-/

namespace ExactJson

namespace Value

mutual

/-- The type names of the foreign nodes of a value, in the order the writer meets them. -/
def foreignNames : Value → List String
  | .foreign t => [t]
  | .obj ms => membersForeignNames ms
  | .arr xs => elemsForeignNames xs
  | _ => []

/-- The foreign names of the member values, in order. -/
def membersForeignNames : List (Bytes × Value) → List String
  | [] => []
  | (_, v) :: rest => foreignNames v ++ membersForeignNames rest

/-- The foreign names of the elements, in order. -/
def elemsForeignNames : List Value → List String
  | [] => []
  | x :: rest => foreignNames x ++ elemsForeignNames rest

end

theorem membersForeignNames_eq_flatMap (ms : List (Bytes × Value)) :
    membersForeignNames ms = ms.flatMap (·.2.foreignNames) := by
  induction ms with
  | nil => rfl
  | cons m ms ih =>
    obtain ⟨k, v⟩ := m
    rw [membersForeignNames, ih, List.flatMap_cons]

theorem elemsForeignNames_eq_flatMap (xs : List Value) :
    elemsForeignNames xs = xs.flatMap foreignNames := by
  induction xs with
  | nil => rfl
  | cons x xs ih => rw [elemsForeignNames, ih, List.flatMap_cons]

/-- Sorting keys reorders the foreign nodes and keeps every one of them. -/
theorem foreignNames_sortKeys_perm (v : Value) : v.sortKeys.foreignNames.Perm v.foreignNames := by
  induction v using induction_mem with
  | obj ms ih =>
    rw [sortKeys, sortKeysMembers_eq_map, foreignNames, foreignNames,
      membersForeignNames_eq_flatMap, membersForeignNames_eq_flatMap]
    refine ((sortMembers_perm _).flatMap_right _).trans ?_
    rw [List.flatMap_map]
    exact List.Perm.flatMap_left ms fun m hm => ih m hm
  | arr xs ih =>
    rw [sortKeys, sortKeysElems_eq_map, foreignNames, foreignNames,
      elemsForeignNames_eq_flatMap, elemsForeignNames_eq_flatMap, List.flatMap_map]
    exact List.Perm.flatMap_left xs fun x hx => ih x hx
  | _ => exact List.Perm.refl _

end Value

namespace Writer

/-- What a writer's result must be when what it writes has the foreign nodes `names`, in
writing order: a text when there are none, and the refusal of the first otherwise. -/
def Outcome (r : Except Failure Bytes) : List String → Prop
  | [] => ∃ text, r = .ok text
  | t :: _ => r = .error (refuse t)

namespace Outcome

variable {r r₁ r₂ : Except Failure Bytes} {names names₁ names₂ : List String}

theorem map (h : Outcome r names) (g : Bytes → Bytes) :
    Outcome (do let a ← r; pure (g a)) names := by
  cases names with
  | nil =>
    obtain ⟨text, rfl⟩ := h
    exact ⟨g text, rfl⟩
  | cons t _ =>
    rw [Outcome] at h
    rw [h]
    rfl

/-- Two writes in a row: the first refusal wins, and the foreign nodes add up in order. -/
theorem bind (h₁ : Outcome r₁ names₁) (h₂ : Outcome r₂ names₂)
    (g : Bytes → Bytes → Bytes) :
    Outcome (do let a ← r₁; let b ← r₂; pure (g a b)) (names₁ ++ names₂) := by
  cases names₁ with
  | nil =>
    obtain ⟨text, rfl⟩ := h₁
    exact h₂.map (g text)
  | cons t _ =>
    rw [Outcome] at h₁
    rw [h₁]
    rfl

end Outcome

variable {wo : WriteOptions}

theorem members_outcome (ms : List (Bytes × Value))
    (ih : ∀ m ∈ ms, ∀ level, Outcome (value wo level m.2) m.2.foreignNames) (level : Nat) :
    Outcome (members wo level ms) (Value.membersForeignNames ms) := by
  induction ms with
  | nil => exact ⟨[], rfl⟩
  | cons m ms ihl =>
    obtain ⟨k, v⟩ := m
    have hhead := ih (k, v) List.mem_cons_self level
    -- the writer treats a last member apart from the others
    cases ms with
    | nil =>
      rw [members, Value.membersForeignNames, Value.membersForeignNames, List.append_nil]
      exact hhead.map _
    | cons m' ms =>
      rw [members, Value.membersForeignNames]
      · exact hhead.bind (ihl fun m hm => ih m (List.mem_cons_of_mem _ hm)) _
      · exact List.cons_ne_nil m' ms

theorem elems_outcome (xs : List Value)
    (ih : ∀ x ∈ xs, ∀ level, Outcome (value wo level x) x.foreignNames) (level : Nat) :
    Outcome (elems wo level xs) (Value.elemsForeignNames xs) := by
  induction xs with
  | nil => exact ⟨[], rfl⟩
  | cons x xs ihl =>
    have hhead := ih x List.mem_cons_self level
    cases xs with
    | nil =>
      rw [elems, Value.elemsForeignNames, Value.elemsForeignNames, List.append_nil]
      exact hhead
    | cons x' xs =>
      rw [elems, Value.elemsForeignNames]
      · exact hhead.bind (ihl fun x hx => ih x (List.mem_cons_of_mem _ hx)) _
      · exact List.cons_ne_nil x' xs

/-- The writer gives a text exactly when the value holds no foreign node, and otherwise refuses
the first foreign node in writing order. -/
theorem value_outcome (w : Value) (level : Nat) : Outcome (value wo level w) w.foreignNames := by
  induction w using Value.induction_mem generalizing level with
  | obj ms ih =>
    cases ms with
    | nil => exact ⟨_, rfl⟩
    | cons m ms =>
      rw [value, Value.foreignNames]
      exact (members_outcome _ ih _).map _
  | arr xs ih =>
    cases xs with
    | nil => exact ⟨_, rfl⟩
    | cons x xs =>
      rw [value, Value.foreignNames]
      exact (elems_outcome _ ih _).map _
  | foreign t => rfl
  | bool b => cases b <;> exact ⟨_, rfl⟩
  | _ => exact ⟨_, rfl⟩

end Writer

/-! ## Writing, sending and writing a line -/

namespace Value

variable {v : Value} {o : WriteOptions}

theorem encode_of_write_error {f : Failure} (h : v.write o = .error f) {σ : Type} (put : Sink σ)
    (s : σ) : v.encode o put s = .error f := by
  rw [encode, h]

theorem writeLine_of_write_error {f : Failure} (h : v.write o = .error f) {σ : Type}
    (put : Sink σ) (s : σ) : v.writeLine o put s = .error f := by
  rw [writeLine, encode_of_write_error h]

/-- The foreign nodes in the order the writer meets them, sorted keys or not, are those of the
value. -/
theorem foreignNames_written_perm (v : Value) (o : WriteOptions) :
    (if o.sortKeys then v.sortKeys else v).foreignNames.Perm v.foreignNames := by
  split
  · exact foreignNames_sortKeys_perm v
  · exact List.Perm.refl _

end Value

/-- **Writing fails exactly at foreign nodes.** A value is written without failing exactly when
it holds no foreign node. When it holds one, writing it, sending it to a stream and writing it as
a file's last line all fail alike: class `UNSUPPORTED_VALUE`, no offset, and the message
`cannot serialize T` for the type name `T` of the first foreign node the writer meets, object
members taken in UTF-16 key order when keys are sorted. -/
theorem write_refuses_first_foreign (v : Value) (o : WriteOptions) :
    ((∃ text, v.write o = .ok text) ↔ v.foreignNames = []) ∧
    ∀ t rest, (if o.sortKeys then v.sortKeys else v).foreignNames = t :: rest →
      v.write o = .error (Failure.make .unsupportedValue (-1) ("cannot serialize " ++ t)) ∧
      ∀ {σ : Type} (put : Sink σ) (s : σ),
        v.encode o put s =
          .error (Failure.make .unsupportedValue (-1) ("cannot serialize " ++ t)) ∧
        v.writeLine o put s =
          .error (Failure.make .unsupportedValue (-1) ("cannot serialize " ++ t)) := by
  have hout := @Writer.value_outcome o (if o.sortKeys then v.sortKeys else v) 0
  have hperm := v.foreignNames_written_perm o
  refine ⟨?_, fun t rest hn => ?_⟩
  · rw [Value.write]
    cases hn : (if o.sortKeys then v.sortKeys else v).foreignNames with
    | nil =>
      rw [hn] at hout hperm
      exact iff_of_true hout hperm.nil_eq.symm
    | cons t rest =>
      rw [hn, Writer.Outcome] at hout
      rw [hn] at hperm
      refine iff_of_false (by rw [hout]; simp) fun hnil => ?_
      rw [hnil] at hperm
      exact List.cons_ne_nil t rest hperm.eq_nil
  · rw [hn, Writer.Outcome] at hout
    have hwrite : v.write o = .error (Writer.refuse t) := hout
    exact ⟨hwrite, fun put s =>
      ⟨Value.encode_of_write_error hwrite put s, Value.writeLine_of_write_error hwrite put s⟩⟩

/-- An array holding two foreign nodes is refused for the first of them. -/
theorem write_refuses_first_foreign_arr :
    (Value.arr [.null, .foreign "int", .foreign "<nil>"]).write {} =
      .error (Failure.make .unsupportedValue (-1) "cannot serialize int") :=
  ((write_refuses_first_foreign _ {}).2 "int" ["<nil>"] rfl).1

end ExactJson
