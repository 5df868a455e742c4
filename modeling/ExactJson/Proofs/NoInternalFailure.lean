import Mathlib
import ExactJson.Proofs.ReaderSteps

/-!
# The reader never fails with an internal error

The reader has three ways to fail with `internalError`: running out of fuel, `attach` finding
no array and no key above an object, and `result` finding anything but one container. None of
them happens, on any input and under any options.

* **The stack.** Every phase of a container has a fixed stack shape (`Phase.Holds`), the table
  carries it from phase to phase and each entry action restores it (`ReaderSteps`); so in every
  configuration a walk reaches, `attach` and `result` succeed.
* **The fuel.** Every turn of a walk moves the cursor on by at least one octet, except the
  wildcard edge out of `arrayStart`, which leads to `nextElement`. So the fuel a walk needs is
  bounded by eight for each octet ahead of the cursor plus a weight for its phase
  (`Phase.weight`): a value in `propertyValue` or `nextElement` may open a container three calls
  deeper without moving, and `arrayStart` may take the wildcard. `fuelFor` gives the whole input
  that much.

`Lands t i r` says that a run from `after t i` ends well: with a settled cursor between `i` and
the end of the input, or with a failure of a class other than `internalError`. The four
functions of the reader land when given their budget, by one mutual induction that follows
their own recursion on the fuel.
-/

namespace ExactJson

open Grammar Cursor

/-- A run from `after t i` that ends well: with a settled cursor between `i` and the end of the
input, or with a failure that is not internal. -/
def Lands {α : Type} (t : Array UInt8) (i : Nat) : Except Failure (α × Cursor) → Prop
  | .ok (_, c) => ∃ j, c = after t j ∧ i ≤ j ∧ j ≤ t.size
  | .error f => f.cls ≠ .internalError

namespace Lands

variable {α β : Type} {t : Array UInt8} {i : Nat}

theorem mono {k : Nat} {r : Except Failure (α × Cursor)} (h : Lands t k r) (hik : i ≤ k) :
    Lands t i r := by
  cases r with
  | ok a =>
    obtain ⟨j, hc, hkj, hj⟩ := h
    exact ⟨j, hc, le_trans hik hkj, hj⟩
  | error f => exact h

theorem of_cls {f : Failure} (h : f.cls ≠ .internalError) :
    Lands (α := α) t i (.error f) := h

theorem at_start {a : α} (hi : i ≤ t.size) : Lands t i (.ok (a, after t i)) :=
  ⟨i, rfl, le_rfl, hi⟩

theorem map (g : α → β) {x : ReadStep α} {c : Cursor} (h : Lands t i (x c)) :
    Lands t i ((g <$> x) c) := by
  rw [ReadStep.map_apply]
  rcases hx : x c with f | ⟨a, c'⟩ <;> rw [hx] at h <;> exact h

end Lands

/-- The number reader fails only as an invalid number or a bound passed. -/
theorem readNumber_error_cls {raw : Bytes} {o : NumberOptions} {f : Failure}
    (h : readNumber raw o = .error f) : f.cls = .invalidNumber ∨ f.cls = .boundExceeded := by
  unfold readNumber at h
  split at h
  · cases h
    exact .inl rfl
  · split at h
    · cases h
    · split at h
      · cases h
        exact .inl rfl
      · split at h
        · cases h
          exact .inl rfl
        · split at h
          · split at h
            · cases h
              exact .inr rfl
            · cases h
          · cases h

theorem placeAt_cls (n : Nat) (f : Failure) : (f.placeAt n).cls = f.cls := by
  unfold Failure.placeAt
  split_ifs <;> rfl

/-- A literal starts with a letter. -/
theorem letter_of_literalStart {b : UInt8} (h : literalStart b = true) : letter b = true := by
  simp only [literalStart, Code.isLiteralStart, letter, Code.isLetter, Bool.or_eq_true,
    decide_eq_true_eq, Bool.and_eq_true] at h ⊢
  omega

/-- The position of an octet of `t` is at most its size. -/
theorem octet_index_lt {t : Array UInt8} {i : Nat} {b : UInt8} (h : t[i]? = some b) :
    i < t.size := by
  by_contra hn
  rw [Array.getElem?_eq_none (Nat.le_of_not_lt hn)] at h
  cases h

/-! ## The scalar readers land -/

section Scalars

variable {t : Array UInt8} {i : Nat}

theorem readStringStep_lands (o : ReadOptions) :
    Lands t i (readStringStep o (after t i)) := by
  by_cases hq : 0 < i ∧ t[i - 1]? = some 0x22
  · rw [readStringStep_after o hq.1 hq.2]
    split
    · rename_i j hj
      obtain ⟨hij, hj, -⟩ := scanQuote_closed hj
      split
      · exact ⟨j + 1, rfl, by omega, hj⟩
      · exact Lands.of_cls (by simp)
    · exact Lands.of_cls (by simp)
    · exact Lands.of_cls (by simp)
  · -- the cursor is not on a quote, and the reading fails at once
    have hcur : (after t i).current ≠ some 0x22 := by
      intro hc
      apply hq
      by_cases h0 : 0 < i
      · exact ⟨h0, by rw [← current_after h0]; exact hc⟩
      · simp [after, current, Nat.eq_zero_of_not_pos h0] at hc
    simp only [readStringStep, ReadStep.offset_bind, ReadStep.ofRead_bind, readQuoted, hcur,
      ne_eq, not_false_eq_true, ↓reduceIte]
    exact Lands.of_cls (by simp)

theorem readNumberStep_lands (o : ReadOptions) {b : UInt8} (h0 : 0 < i) (hi : i ≤ t.size)
    (hb : t[i - 1]? = some b) (hn : numberStart b = true) :
    Lands t i (readNumberStep o (after t i)) := by
  rw [readNumberStep_after o h0 hb hn]
  split
  · refine ⟨runEnd Code.isNumberPart t i, rfl, ?_, ?_⟩
    · rw [runEnd_eq]; omega
    · have := (List.takeWhile_sublist
        (fun b : UInt8 => Code.isNumberPart b.toNat) (l := t.toList.drop i)).length_le
      rw [runEnd_eq]
      simp only [List.length_drop, Array.length_toList] at this
      omega
  · rename_i f hf
    rw [Lands, placeAt_cls]
    rcases readNumber_error_cls hf with h | h <;> rw [h] <;> decide

theorem readLiteralStep_lands {b : UInt8} (h0 : 0 < i) (hb : t[i - 1]? = some b)
    (hl : letter b = true) : Lands t i (readLiteralStep (after t i)) := by
  rw [readLiteralStep_after h0 hb hl]
  split_ifs with hk
  · split
    · exact ⟨runEnd Code.isLetter t i, rfl, by rw [runEnd_eq]; omega, le_of_lt hk⟩
    · exact Lands.of_cls (by simp)
  · exact Lands.of_cls (by simp)

end Scalars

/-! ## The budget -/

/-- The fuel a phase may need beyond eight for each octet ahead: a value may open a container
three calls deeper without moving the cursor, and the wildcard edge out of `arrayStart` leads to
`nextElement` without moving it. -/
def Phase.weight : Phase → Nat
  | .arrayStart => 5
  | .propertyValue | .nextElement => 4
  | _ => 0

/-- `advance` fails only for want of an edge. -/
theorem Phase.advance_error_cls {p : Phase} {c : Cursor} {f : Failure}
    (h : p.advance c = .error f) : f.cls ≠ .internalError := by
  unfold Phase.advance at h
  split at h
  · rename_i f' hf
    cases h
    rw [Phase.step_error hf]
    decide
  · cases h

/-- A turn's `advance` moves the cursor on by at least one octet, unless it takes the wildcard
out of `arrayStart`. -/
theorem Phase.advance_moves {p q : Phase} {t : Array UInt8} {j : Nat} {c : Cursor}
    (hj : j ≤ t.size) (h : p.advance (after t j) = .ok (q, c)) :
    ∃ k, c = after t k ∧ j ≤ k ∧ k ≤ t.size ∧
      (j < k ∨ (p = .arrayStart ∧ q = .nextElement)) := by
  rw [Phase.advance_after p hj] at h
  have hb := le_blankEnd t j
  split_ifs at h with hlt
  · split at h
    · cases h
    · rename_i m hm
      cases h
      rcases Phase.step_ok hm with ⟨hg, -⟩ | ⟨hg, hp, ht, -⟩
      · rw [hg]
        exact ⟨blankEnd t j + 1, rfl, by omega, hlt, .inl (by omega)⟩
      · rw [hg]
        exact ⟨blankEnd t j, rfl, hb, le_of_lt hlt, .inr ⟨hp, ht⟩⟩
  · split at h
    · cases h
    · rename_i m hm
      cases h
      rcases Phase.step_ok hm with ⟨-, he⟩ | ⟨hg, hp, ht, -⟩
      · -- no edge is on the end of the input
        exact absurd (Phase.edge_code_nonneg he) (by simp [Code.stop])
      · rw [hg]
        exact ⟨t.size, rfl, by omega, le_rfl, .inr ⟨hp, ht⟩⟩

section Budget

variable (o : ReadOptions)

mutual

theorem readContainer_lands {t : Array UInt8} {i : Nat} (hi : i ≤ t.size) (d : Nat) :
    ∀ {F : Nat}, 8 * (t.size + 1 - i) + 2 ≤ F → Lands t i (readContainer o d F (after t i))
  | 0, hF => by omega
  | F + 1, hF => by
    rw [readContainer_succ]
    exact walk_lands hi d (p := .init) rfl (by simp only [Phase.weight]; omega)
termination_by structural F _ => F

theorem walk_lands {t : Array UInt8} {i : Nat} (hi : i ≤ t.size) (d : Nat) {p : Phase}
    {s : List Pending} (hs : p.Arrives s) :
    ∀ {F : Nat}, 8 * (t.size + 1 - i) + p.weight + 1 ≤ F →
      Lands t i (walk o d p s F (after t i))
  | 0, hF => by omega
  | F + 1, hF => by
    cases hp : p.isEnd with
    | true =>
      rw [walk_end o d hp]
      obtain ⟨v, hv⟩ := Pending.result_of_holds hp (Phase.holds_of_arrives_end hp hs) _
      rw [hv]
      exact Lands.at_start hi
    | false =>
      rw [walk_step o d hp]
      have he := enterPhase_lands hi d hs hp (F := F) (by omega)
      rcases hr : enterPhase o d p s F (after t i) with f | ⟨s₁, c₁⟩
      · rw [hr] at he
        exact he
      · rw [hr] at he
        obtain ⟨j, rfl, hij, hj⟩ := he
        have hs₁ := Phase.holds_of_enterPhase hr hs
        simp only
        rcases ha : p.advance (after t j) with f | ⟨q, c₂⟩
        · exact Lands.of_cls (Phase.advance_error_cls ha)
        · simp only
          obtain ⟨k, rfl, hjk, hk, hmove⟩ := Phase.advance_moves hj ha
          have hq := Phase.arrives_of_advance ha hs₁
          have hfuel : 8 * (t.size + 1 - k) + q.weight + 1 ≤ F := by
            rcases hmove with hlt | ⟨rfl, rfl⟩
            · have hw : q.weight ≤ p.weight + 7 := by
                cases p <;> cases q <;> simp [Phase.weight]
              omega
            · simp only [Phase.weight] at hF ⊢
              omega
          exact (walk_lands hk d hq hfuel).mono
            (le_trans hij hjk)
termination_by structural F _ => F

theorem enterPhase_lands {t : Array UInt8} {i : Nat} (hi : i ≤ t.size) (d : Nat) {p : Phase}
    {s : List Pending} (hs : p.Arrives s) (hp : p.isEnd = false) :
    ∀ {F : Nat}, 8 * (t.size + 1 - i) + p.weight ≤ F →
      Lands t i (enterPhase o d p s F (after t i))
  | 0, hF => by omega
  | F + 1, hF => by
    cases p with
    | init | nextProperty | objectEnd | arrayEnd =>
      rw [enterPhase_idle o d (by simp)]
      exact Lands.at_start hi
    | objectStart =>
      rw [enterPhase_objectStart]
      exact Lands.at_start hi
    | arrayStart =>
      rw [enterPhase_arrayStart]
      exact Lands.at_start hi
    | propertyName =>
      rw [enterPhase_propertyName]
      have hl := readStringStep_lands o (t := t) (i := i)
      rcases hr : readStringStep o (after t i) with f | ⟨k, c₁⟩ <;> rw [hr] at hl <;> exact hl
    | propertyValue | nextElement =>
      rw [enterPhase_value o d (by simp)]
      have hl := readValueStep_lands hi d (F := F) (by simp only [Phase.weight] at hF; omega)
      rcases hr : readValueStep o d F (after t i) with f | ⟨v, c₁⟩
      · rw [hr] at hl
        exact hl
      · rw [hr] at hl
        simp only
        -- the stack is an array, or a key above an object, so `attach` succeeds
        first
        | (obtain ⟨k, ms, rfl⟩ := hs; rw [Pending.attach_key]; exact hl)
        | (obtain ⟨es, rfl⟩ := hs; rw [Pending.attach_array]; exact hl)
termination_by structural F _ => F

theorem readValueStep_lands {t : Array UInt8} {i : Nat} (hi : i ≤ t.size) (d : Nat) :
    ∀ {F : Nat}, 8 * (t.size + 1 - i) + 3 ≤ F → Lands t i (readValueStep o d F (after t i))
  | 0, hF => by omega
  | F + 1, hF => by
    rw [readValueStep_after o d hi]
    have hb := le_blankEnd t i
    split_ifs with hlt hq hn hl hbr hd
    · have hget : t[blankEnd t i + 1 - 1]? = some 0x22 := by simp [hlt, hq]
      exact (Lands.map _ (readStringStep_lands o)).mono (by omega)
    · have hget : t[blankEnd t i + 1 - 1]? = some t[blankEnd t i] := by simp [hlt]
      exact (readNumberStep_lands o (by omega) (by omega) hget hn).mono (by omega)
    · have hget : t[blankEnd t i + 1 - 1]? = some t[blankEnd t i] := by simp [hlt]
      exact (readLiteralStep_lands (by omega) hget (letter_of_literalStart hl)).mono (by omega)
    · exact Lands.of_cls (by simp)
    · exact (readContainer_lands (le_of_lt hlt) (d + 1) (by omega)).mono hb
    · exact Lands.of_cls (by simp)
    · exact Lands.of_cls (by simp)
termination_by structural F _ => F

end

end Budget

/-! ## The stack in every configuration a walk reaches -/

/-- One turn of the walk of a container at depth `d`, seen between entry actions: phase `p`,
whose entry action left the stack `s` and the cursor `c`, is followed by the table to phase `q`,
whose entry action then leaves `s'` and `c'`. -/
inductive Turn (o : ReadOptions) (d : Nat) :
    Phase × List Pending × Cursor → Phase × List Pending × Cursor → Prop
  | mk {p q : Phase} {s s' : List Pending} {c c₁ c' : Cursor} {F : Nat} :
      p.isEnd = false → p.advance c = .ok (q, c₁) → enterPhase o d q s F c₁ = .ok (s', c') →
      Turn o d (p, s, c) (q, s', c')

/-- The configurations that the walk of a container started at cursor `c` goes through: `init`
with an empty stack, and every turn from there. -/
def Reaches (o : ReadOptions) (d : Nat) (c : Cursor) : Phase × List Pending × Cursor → Prop :=
  Relation.ReflTransGen (Turn o d) (.init, [], c)

theorem Turn.holds {o : ReadOptions} {d : Nat} {a b : Phase × List Pending × Cursor}
    (h : Turn o d a b) (hs : a.1.Holds a.2.1) : b.1.Holds b.2.1 := by
  cases h with
  | mk _ ha he => exact Phase.holds_of_enterPhase he (Phase.arrives_of_advance ha hs)

/-- Every configuration a walk reaches holds its phase's stack. -/
theorem Reaches.holds {o : ReadOptions} {d : Nat} {c : Cursor} {b : Phase × List Pending × Cursor}
    (h : Reaches o d c b) : b.1.Holds b.2.1 := by
  induction h with
  | refl => rfl
  | tail _ hturn ih => exact hturn.holds ih

/-- Where a value is read, `attach` finds an array, or a key above an object. -/
theorem Pending.attach_of_arrives {q : Phase} {s : List Pending}
    (hq : q = .propertyValue ∨ q = .nextElement) (hs : q.Arrives s) (v : Value) (off : Nat) :
    ∃ s', Pending.attach s v off = .ok s' := by
  rcases hq with rfl | rfl
  · obtain ⟨k, ms, rfl⟩ := hs
    exact ⟨_, Pending.attach_key k ms v off⟩
  · obtain ⟨es, rfl⟩ := hs
    exact ⟨_, Pending.attach_array es v off⟩

/-- A document read fails only with a class of its own, never with `internalError`. -/
theorem readDocument_error_cls {o : ReadOptions} {t : Array UInt8} {f : Failure}
    (h : readDocument o t = .error f) : f.cls ≠ .internalError := by
  by_cases hs : o.sizeLimit < t.size
  · unfold readDocument at h
    rw [if_pos hs] at h
    cases h
    simp
  · have hl := readContainer_lands o (Nat.zero_le t.size) 1 (F := fuelFor t.size)
      (by unfold fuelFor; omega)
    rw [readDocument_within o hs] at h
    rcases hr : readContainer o 1 (fuelFor t.size) (after t 0) with f' | ⟨v, c⟩
    · rw [hr] at h hl
      cases h
      exact hl
    · rw [hr] at h
      simp only at h
      split_ifs at h
      · cases h
        simp

/-- **The stack discipline of the reader.** In every configuration that the walk of any
container reaches, top-level or nested, the value stack has the shape of its phase; so `attach`
always finds an array, or a key directly above an object, and `result` always finds the one
container that the walk pushed. Hence reading a document never fails with `internalError`. -/
theorem reader_stack_discipline (o : ReadOptions) (t : Array UInt8) :
    (∀ d c p s c', Reaches o d c (p, s, c') →
      p.Holds s ∧
      (∀ q c'' v off, p.advance c' = .ok (q, c'') →
        (q = .propertyValue ∨ q = .nextElement) →
        ∃ s', Pending.attach s v off = .ok s') ∧
      (∀ q c'' off, p.advance c' = .ok (q, c'') → q.isEnd = true →
        ∃ v, Pending.result s off = .ok v)) ∧
    ∀ f, readDocument o t = .error f → f.cls ≠ .internalError := by
  refine ⟨fun d c p s c' hreach => ?_, fun f h => readDocument_error_cls h⟩
  have hs : p.Holds s := hreach.holds
  refine ⟨hs, ?_, ?_⟩
  · intro q c'' v off ha hq
    exact Pending.attach_of_arrives hq (Phase.arrives_of_advance ha hs) v off
  · intro q c'' off ha hq
    exact Pending.result_of_holds hq
      (Phase.holds_of_arrives_end hq (Phase.arrives_of_advance ha hs)) off


end ExactJson
