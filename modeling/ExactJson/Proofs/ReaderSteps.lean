import Mathlib
import ExactJson.Proofs.CursorSteps

/-!
# The reader, one turn at a time

The reader of a container loops: run the entry action of the phase it has reached, skip blanks,
take one code and follow the table to the next phase. This module gives that loop and each of its
parts a closed form, so that the proofs about whole runs are inductions over these equations and
never unfold the reader itself:

* `Phase.advance` is the second half of a turn (blanks, one code, the table), and `walk_step`
  splits a turn of `walk` into the entry action and `advance`;
* `Phase.step_ok` says everything the table can do: follow one of its eleven edges on the code
  of that edge, or take the wildcard out of `arrayStart` and give the code back;
* the entry actions and the reading of a value are given on a settled cursor, by what the input
  holds after the blanks;
* `Phase.Arrives` and `Phase.Holds` are the shapes of the value stack when a phase is reached
  and after its entry action: the table carries the second into the first (`Phase.arrives_of_step`),
  the entry action the first into the second (`Phase.holds_of_enterPhase`), and in those shapes
  neither `attach` nor `result` can fail.
-/

namespace ExactJson

open Grammar Cursor

/-! ## The table -/

namespace Phase

/-- Every step the table allows: an edge on its own code, or the wildcard out of `arrayStart`,
which gives back any code other than `]`. -/
theorem step_ok {p : Phase} {c off : Int} {m : Move} (h : p.step c off = .ok m) :
    (m.giveBack = false ∧ (p, c, m.target) ∈ edges) ∨
      (m.giveBack = true ∧ p = .arrayStart ∧ m.target = .nextElement ∧ c ≠ 0x5D) := by
  unfold step at h
  split at h
  · rename_i e he
    cases h
    have hmem := List.mem_of_find?_eq_some he
    have hfound := List.find?_some he
    simp only [Bool.and_eq_true, beq_iff_eq] at hfound
    obtain ⟨h1, h2⟩ := hfound
    refine .inl ⟨rfl, ?_⟩
    rw [← h1, ← h2]
    exact hmem
  · rename_i hnone
    split at h
    · rename_i q hq
      cases h
      cases p <;> simp only [wildcard, reduceCtorEq, Option.some.injEq] at hq
      subst hq
      refine .inr ⟨rfl, rfl, rfl, ?_⟩
      rintro rfl
      simp [edges] at hnone
    · cases h

/-- The table fails only with `noTransition`. -/
theorem step_error {p : Phase} {c off : Int} {f : Failure} (h : p.step c off = .error f) :
    f.cls = .noTransition := by
  unfold step at h
  split at h
  · cases h
  · split at h
    · cases h
    · cases h
      unfold stuck
      split <;> rfl

/-- An edge of the table is taken on its code. -/
theorem step_of_edge {p q : Phase} {c : Int} (off : Int) (h : (p, c, q) ∈ edges) :
    p.step c off = .ok ⟨q, false⟩ := by
  simp only [edges, List.mem_cons, Prod.mk.injEq, List.not_mem_nil, or_false] at h
  rcases h with ⟨rfl, rfl, rfl⟩ | ⟨rfl, rfl, rfl⟩ | ⟨rfl, rfl, rfl⟩ | ⟨rfl, rfl, rfl⟩ |
    ⟨rfl, rfl, rfl⟩ | ⟨rfl, rfl, rfl⟩ | ⟨rfl, rfl, rfl⟩ | ⟨rfl, rfl, rfl⟩ |
    ⟨rfl, rfl, rfl⟩ | ⟨rfl, rfl, rfl⟩ | ⟨rfl, rfl, rfl⟩ <;> rfl

/-- Out of `arrayStart`, every code but `]` is given back to the first element. -/
theorem step_arrayStart {c : Int} (off : Int) (h : c ≠ 0x5D) :
    arrayStart.step c off = .ok ⟨nextElement, true⟩ := by
  unfold step
  rw [List.find?_eq_none.mpr (by simp [edges]; omega)]
  rfl

/-- Every edge is on an octet, never on the end of the input. -/
theorem edge_code_nonneg {p q : Phase} {c : Int} (h : (p, c, q) ∈ edges) : 0 ≤ c := by
  simp only [edges, List.mem_cons, Prod.mk.injEq, List.not_mem_nil, or_false] at h
  omega

/-- The second half of a turn: skip blanks, take one code, follow the table, and give the code
back when the table asks for it. -/
def advance (p : Phase) (c : Cursor) : Except Failure (Phase × Cursor) :=
  match p.step (Code.ofSight c.skipBlanks.next.2) c.skipBlanks.next.1.offset with
  | .error f => .error f
  | .ok m => .ok (m.target, if m.giveBack then c.skipBlanks.next.1.pushBack else c.skipBlanks.next.1)

/-- `advance` on a settled cursor, by the octet after the blanks. -/
theorem advance_after (p : Phase) {t : Array UInt8} {i : Nat} (hi : i ≤ t.size) :
    p.advance (after t i) =
      if h : blankEnd t i < t.size then
        match p.step t[blankEnd t i].toNat (blankEnd t i) with
        | .error f => .error f
        | .ok m => .ok (m.target, after t (if m.giveBack then blankEnd t i else blankEnd t i + 1))
      else
        match p.step Code.stop t.size with
        | .error f => .error f
        | .ok m => .ok (m.target, if m.giveBack then after t t.size else after t (t.size + 1)) := by
  unfold advance
  rw [skipBlanks_after]
  split_ifs with h
  · rw [next_after_lt h]
    simp only [after_offset, Nat.add_sub_cancel, Code.ofSight_some]
    cases p.step t[blankEnd t i].toNat (blankEnd t i) with
    | error f => rfl
    | ok m => by_cases hg : m.giveBack = true <;> simp [hg]
  · have he : blankEnd t i = t.size := Nat.le_antisymm (blankEnd_le hi) (Nat.le_of_not_lt h)
    rw [he, next_after_size]
    simp only [after_offset, Nat.add_sub_cancel, Code.ofSight_none]
    cases p.step Code.stop t.size with
    | error f => rfl
    | ok m => by_cases hg : m.giveBack = true <;> simp [hg]

end Phase

/-! ## The four functions of the reader, unfolded -/

section Unfold

variable (o : ReadOptions) (d : Nat)

theorem readContainer_succ (F : Nat) (c : Cursor) :
    readContainer o d (F + 1) c = walk o d .init [] F c := by
  rw [readContainer]

theorem walk_end {p : Phase} (hp : p.isEnd = true) (s : List Pending) (F : Nat) (c : Cursor) :
    walk o d p s (F + 1) c =
      match Pending.result s c.offset with
      | .ok v => .ok (v, c)
      | .error f => .error f := by
  rw [walk, if_pos hp]
  simp only [ReadStep.offset_bind]
  cases Pending.result s c.offset <;> rfl

/-- A turn of the walk: the entry action, then `advance`, then the walk from the next phase. -/
theorem walk_step {p : Phase} (hp : p.isEnd = false) (s : List Pending) (F : Nat) (c : Cursor) :
    walk o d p s (F + 1) c =
      match enterPhase o d p s F c with
      | .error f => .error f
      | .ok (s', c₁) =>
        match p.advance c₁ with
        | .error f => .error f
        | .ok (q, c₂) => walk o d q s' F c₂ := by
  rw [walk, if_neg (by simp [hp]), ReadStep.bind_apply]
  rcases enterPhase o d p s F c with f | ⟨s', c₁⟩
  · rfl
  · simp only [ReadStep.modify_bind, ReadStep.nextCode_bind, ReadStep.offset_bind, Phase.advance]
    cases p.step (Code.ofSight c₁.skipBlanks.next.2) c₁.skipBlanks.next.1.offset with
    | error f => rfl
    | ok m =>
      simp only
      split <;> rfl

theorem enterPhase_objectStart (s : List Pending) (F : Nat) (c : Cursor) :
    enterPhase o d .objectStart s (F + 1) c = .ok (.object [] :: s, c) := rfl

theorem enterPhase_arrayStart (s : List Pending) (F : Nat) (c : Cursor) :
    enterPhase o d .arrayStart s (F + 1) c = .ok (.array #[] :: s, c) := rfl

theorem enterPhase_propertyName (s : List Pending) (F : Nat) (c : Cursor) :
    enterPhase o d .propertyName s (F + 1) c =
      match readStringStep o c with
      | .ok (k, c') => .ok (.key k :: s, c')
      | .error f => .error f := by
  rw [enterPhase, ReadStep.bind_apply]
  cases readStringStep o c <;> rfl

/-- The entry action of `propertyValue` and `nextElement`: read a value and attach it. -/
theorem enterPhase_value {p : Phase} (hp : p = .propertyValue ∨ p = .nextElement)
    (s : List Pending) (F : Nat) (c : Cursor) :
    enterPhase o d p s (F + 1) c =
      match readValueStep o d F c with
      | .ok (v, c') =>
        match Pending.attach s v c.offset with
        | .ok s' => .ok (s', c')
        | .error f => .error f
      | .error f => .error f := by
  rcases hp with rfl | rfl <;>
  · rw [enterPhase]
    simp only [ReadStep.offset_bind]
    rw [ReadStep.bind_apply]
    rcases readValueStep o d F c with f | ⟨v, c'⟩
    · rfl
    · simp only
      cases Pending.attach s v c.offset <;> rfl

/-- The phases whose entry action does nothing. -/
theorem enterPhase_idle {p : Phase}
    (hp : p = .init ∨ p = .nextProperty ∨ p = .objectEnd ∨ p = .arrayEnd)
    (s : List Pending) (F : Nat) (c : Cursor) :
    enterPhase o d p s (F + 1) c = .ok (s, c) := by
  rcases hp with rfl | rfl | rfl | rfl <;> rfl

/-- Reading a value from a settled cursor: the first octet after the blanks chooses the reader,
and a bracket opens a container one level deeper, unless the depth limit is reached. -/
theorem readValueStep_after {t : Array UInt8} {i : Nat} (hi : i ≤ t.size) (F : Nat) :
    readValueStep o d (F + 1) (after t i) =
      if h : blankEnd t i < t.size then
        if t[blankEnd t i] = 0x22 then (Value.str <$> readStringStep o) (after t (blankEnd t i + 1))
        else if numberStart t[blankEnd t i] then readNumberStep o (after t (blankEnd t i + 1))
        else if literalStart t[blankEnd t i] then readLiteralStep (after t (blankEnd t i + 1))
        else if t[blankEnd t i] = 0x7B ∨ t[blankEnd t i] = 0x5B then
          if o.depthLimit ≤ d then
            .error (Failure.make .boundExceeded ((blankEnd t i - 1 : Nat) : Int)
              ("nesting depth " ++ toString (d + 1) ++ " exceeds maximum "
                ++ toString o.depthLimit))
          else readContainer o (d + 1) F (after t (blankEnd t i))
        else .error (Failure.make .unexpectedToken (blankEnd t i)
          ("unexpected " ++ Code.describe t[blankEnd t i].toNat ++ " where a value was expected"))
      else .error (Failure.make .unexpectedToken t.size
        ("unexpected " ++ Code.describe Code.stop ++ " where a value was expected")) := by
  rw [readValueStep]
  simp only [ReadStep.modify_bind, ReadStep.nextCode_bind, skipBlanks_after]
  by_cases h : blankEnd t i < t.size
  · rw [dif_pos h, next_after_lt h]
    dsimp only
    rw [Code.ofSight_some]
    have hq : ((t[blankEnd t i].toNat : Int) = 0x22) ↔ t[blankEnd t i] = 0x22 := by
      simp [UInt8.ext_iff]; omega
    have hb : ((t[blankEnd t i].toNat : Int) = 0x7B ∨ (t[blankEnd t i].toNat : Int) = 0x5B) ↔
        (t[blankEnd t i] = 0x7B ∨ t[blankEnd t i] = 0x5B) := by
      simp [UInt8.ext_iff]; omega
    simp only [hq, hb, numberStart, literalStart]
    split_ifs <;> simp_all [after, pushBack, Cursor.failure, offset]
  · have he : blankEnd t i = t.size := Nat.le_antisymm (blankEnd_le hi) (Nat.le_of_not_lt h)
    rw [dif_neg h, he, next_after_size]
    simp [Code.ofSight_none, Code.stop, Code.isNumberStart, Code.isDigit, Code.isLiteralStart,
      after, Cursor.failure, offset]

/-- Reading a document within the size limit: read the container from the start, then skip
blanks, and anything left over is trailing content. -/
theorem readDocument_within {t : Array UInt8} (hs : ¬o.sizeLimit < t.size) :
    readDocument o t =
      match readContainer o 1 (fuelFor t.size) (after t 0) with
      | .error f => .error f
      | .ok (v, c) =>
        if Code.ofSight c.skipBlanks.next.2 ≠ Code.stop then
          .error (c.skipBlanks.next.1.failure .trailingContent ("trailing content "
            ++ Code.describe (Code.ofSight c.skipBlanks.next.2) ++ " after JSON value"))
        else .ok v := by
  unfold readDocument
  rw [if_neg hs]
  simp only [StateT.run, start_eq_after]
  rw [ReadStep.bind_apply]
  rcases readContainer o 1 (fuelFor t.size) (after t 0) with f | ⟨v, c⟩
  · rfl
  · simp only [ReadStep.modify_bind, ReadStep.nextCode_bind]
    split_ifs <;> rfl

end Unfold

/-! ## Shapes of the value stack -/

namespace Phase

/-- The value stack after the entry action of a phase: empty in `init`; the object alone in
`objectStart`, `nextProperty`, `propertyValue` and `objectEnd`; the object with the key of the
member being read above it in `propertyName`; the array alone in `arrayStart`, `nextElement` and
`arrayEnd`. The end phases have no entry action, so this is also their stack when reached. -/
def Holds : Phase → List Pending → Prop
  | init, s => s = []
  | objectStart, s | nextProperty, s | propertyValue, s | objectEnd, s => ∃ ms, s = [.object ms]
  | propertyName, s => ∃ k ms, s = [.key k, .object ms]
  | arrayStart, s | nextElement, s | arrayEnd, s => ∃ es, s = [.array es]

/-- The value stack when a phase is reached, before its entry action. -/
def Arrives : Phase → List Pending → Prop
  | init, s | objectStart, s | arrayStart, s => s = []
  | propertyName, s | nextProperty, s | objectEnd, s => ∃ ms, s = [.object ms]
  | propertyValue, s => ∃ k ms, s = [.key k, .object ms]
  | nextElement, s | arrayEnd, s => ∃ es, s = [.array es]

/-- The table leaves the stack alone, and each edge leads to a phase that expects the stack its
source leaves behind. -/
theorem arrives_of_edge {p q : Phase} {c : Int} {s : List Pending} (h : (p, c, q) ∈ edges)
    (hs : p.Holds s) : q.Arrives s := by
  simp only [edges, List.mem_cons, Prod.mk.injEq, List.not_mem_nil, or_false] at h
  rcases h with ⟨rfl, rfl, rfl⟩ | ⟨rfl, rfl, rfl⟩ | ⟨rfl, rfl, rfl⟩ | ⟨rfl, rfl, rfl⟩ |
    ⟨rfl, rfl, rfl⟩ | ⟨rfl, rfl, rfl⟩ | ⟨rfl, rfl, rfl⟩ | ⟨rfl, rfl, rfl⟩ |
    ⟨rfl, rfl, rfl⟩ | ⟨rfl, rfl, rfl⟩ | ⟨rfl, rfl, rfl⟩ <;> exact hs

theorem arrives_of_step {p : Phase} {c off : Int} {m : Move} {s : List Pending}
    (h : p.step c off = .ok m) (hs : p.Holds s) : m.target.Arrives s := by
  rcases step_ok h with ⟨-, he⟩ | ⟨-, rfl, ht, -⟩
  · exact arrives_of_edge he hs
  · rw [ht]
    exact hs

theorem arrives_of_advance {p q : Phase} {c c' : Cursor} {s : List Pending}
    (h : p.advance c = .ok (q, c')) (hs : p.Holds s) : q.Arrives s := by
  unfold advance at h
  split at h
  · cases h
  · rename_i m hm
    cases h
    exact arrives_of_step hm hs

/-- A phase with no entry action holds the stack it was reached with. -/
theorem holds_of_arrives_end {p : Phase} {s : List Pending} (hp : p.isEnd = true)
    (hs : p.Arrives s) : p.Holds s := by
  cases p <;> simp only [isEnd, Bool.false_eq_true] at hp <;> exact hs

end Phase

namespace Pending

/-- In the stack of `propertyValue` the value is set under the pending key. -/
theorem attach_key (k : Bytes) (ms : List (Bytes × Value)) (v : Value) (off : Nat) :
    attach [.key k, .object ms] v off = .ok [.object (Members.set ms k v)] := rfl

/-- In the stack of `nextElement` the value is appended to the array. -/
theorem attach_array (es : Array Value) (v : Value) (off : Nat) :
    attach [.array es] v off = .ok [.array (es.push v)] := rfl

theorem result_object (ms : List (Bytes × Value)) (off : Nat) :
    result [.object ms] off = .ok (.obj ms) := rfl

theorem result_array (es : Array Value) (off : Nat) :
    result [.array es] off = .ok (.arr es.toList) := rfl

/-- At the end of a container the stack holds exactly that container. -/
theorem result_of_holds {p : Phase} {s : List Pending} (hp : p.isEnd = true) (hs : p.Holds s)
    (off : Nat) : ∃ v, result s off = .ok v := by
  cases p <;> simp only [Phase.isEnd, Bool.false_eq_true] at hp
  · obtain ⟨ms, rfl⟩ := hs
    exact ⟨_, result_object ms off⟩
  · obtain ⟨es, rfl⟩ := hs
    exact ⟨_, result_array es off⟩

end Pending

namespace Phase

variable {o : ReadOptions} {d : Nat}

/-- Each entry action turns the stack its phase is reached with into the stack the phase holds. -/
theorem holds_of_enterPhase {p : Phase} {s s' : List Pending} {F : Nat} {c c' : Cursor}
    (h : enterPhase o d p s F c = .ok (s', c')) (hs : p.Arrives s) : p.Holds s' := by
  cases F with
  | zero => cases h
  | succ F =>
    cases p with
    | init | nextProperty | objectEnd | arrayEnd =>
      rw [enterPhase_idle o d (by simp)] at h
      cases h
      exact hs
    | objectStart =>
      rw [enterPhase_objectStart] at h
      cases h
      rw [show s = [] from hs]
      exact ⟨[], rfl⟩
    | arrayStart =>
      rw [enterPhase_arrayStart] at h
      cases h
      rw [show s = [] from hs]
      exact ⟨#[], rfl⟩
    | propertyName =>
      rw [enterPhase_propertyName] at h
      obtain ⟨ms, rfl⟩ := hs
      split at h
      · rename_i k c₁ _
        cases h
        exact ⟨k, ms, rfl⟩
      · cases h
    | propertyValue =>
      rw [enterPhase_value o d (.inl rfl)] at h
      obtain ⟨k, ms, rfl⟩ := hs
      split at h
      · rename_i v c₁ _
        rw [Pending.attach_key] at h
        cases h
        exact ⟨_, rfl⟩
      · cases h
    | nextElement =>
      rw [enterPhase_value o d (.inr rfl)] at h
      obtain ⟨es, rfl⟩ := hs
      split at h
      · rename_i v c₁ _
        rw [Pending.attach_array] at h
        cases h
        exact ⟨_, rfl⟩
      · cases h

end Phase

end ExactJson
