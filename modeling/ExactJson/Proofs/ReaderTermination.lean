import Mathlib
import ExactJson.Proofs.ReaderComplete

/-!
# The reader terminates

The reader of a container is a loop: run the entry action of the phase reached, skip blanks,
take one code, follow the table. The cursor is shared with the readers of nested containers and
goes back one octet now and then (after a scalar, before a nested container, on the wildcard
edge), so that a single turn need not move it. What makes the loop end:

* whatever a run reads, with whatever fuel, it leaves the cursor settled between where it
  started and the end of the input (`readContainer_forward` and its three companions), so the
  cursor never passes the end;
* a turn moves the cursor on by at least one octet, unless it is the wildcard edge out of
  `arrayStart`, which leads to `nextElement` (`turn_moves`);
* a walk passes `arrayStart` at most once, since only `init` leads there and nothing leads back
  to `init` (`count_arrayStart_le_one`);
* a nested reader is started one level deeper, and only below the depth limit
  (`Nests.depth_lt`), so the readers active at once never number more than the limit
  (`nests_depth_le`).

Together these bound the fuel a walk needs by a multiple of the input's length, which the budget
of `readContainer_lands` pays for.
-/

namespace ExactJson

open Grammar Cursor

/-- A run from `after t i` that, when it succeeds, leaves a settled cursor between `i` and the
end of the input. -/
def Forward {α : Type} (t : Array UInt8) (i : Nat) (r : Except Failure (α × Cursor)) : Prop :=
  ∀ a c, r = .ok (a, c) → ∃ j, c = after t j ∧ i ≤ j ∧ j ≤ t.size

namespace Forward

variable {α : Type} {t : Array UInt8} {i : Nat}

theorem of_error (f : Failure) : Forward (α := α) t i (.error f) := by
  intro a c h
  cases h

theorem of_lands {r : Except Failure (α × Cursor)} (h : Lands t i r) : Forward t i r := by
  intro a c hr
  subst hr
  exact h

theorem mono {k : Nat} {r : Except Failure (α × Cursor)} (h : Forward t k r) (hik : i ≤ k) :
    Forward t i r := by
  intro a c hr
  obtain ⟨j, hc, hkj, hj⟩ := h a c hr
  exact ⟨j, hc, le_trans hik hkj, hj⟩

end Forward

/-- The octet after the blanks, where a value starts, is the octet the cursor lands on when it
moves onto it. -/
theorem getElem?_blankEnd {t : Array UInt8} {i : Nat} (h : blankEnd t i < t.size) :
    t[blankEnd t i + 1 - 1]? = some t[blankEnd t i] := by
  simp [h]

section Progress

variable (o : ReadOptions)

mutual

theorem readContainer_forward {t : Array UInt8} {i : Nat} (hi : i ≤ t.size) (d : Nat) :
    ∀ F, Forward t i (readContainer o d F (after t i))
  | 0 => Forward.of_error _
  | F + 1 => by
    rw [readContainer_succ]
    exact walk_forward hi d .init [] F
termination_by structural F => F

theorem walk_forward {t : Array UInt8} {i : Nat} (hi : i ≤ t.size) (d : Nat) (p : Phase)
    (s : List Pending) : ∀ F, Forward t i (walk o d p s F (after t i))
  | 0 => Forward.of_error _
  | F + 1 => by
    cases hp : p.isEnd with
    | true =>
      rw [walk_end o d hp]
      split
      · exact Forward.of_lands (Lands.at_start hi)
      · exact Forward.of_error _
    | false =>
      rw [walk_step o d hp]
      rcases he : enterPhase o d p s F (after t i) with f | ⟨s₁, c₁⟩
      · exact Forward.of_error _
      · obtain ⟨j, rfl, hij, hj⟩ := enterPhase_forward hi d p s F _ _ he
        simp only
        rcases ha : p.advance (after t j) with f | ⟨q, c₂⟩
        · exact Forward.of_error _
        · obtain ⟨k, rfl, hjk, hk, -⟩ := Phase.advance_moves hj ha
          exact (walk_forward hk d q s₁ F).mono (le_trans hij hjk)
termination_by structural F => F

theorem enterPhase_forward {t : Array UInt8} {i : Nat} (hi : i ≤ t.size) (d : Nat) (p : Phase)
    (s : List Pending) : ∀ F, Forward t i (enterPhase o d p s F (after t i))
  | 0 => Forward.of_error _
  | F + 1 => by
    cases p with
    | init | nextProperty | objectEnd | arrayEnd =>
      rw [enterPhase_idle o d (by simp)]
      exact Forward.of_lands (Lands.at_start hi)
    | objectStart =>
      rw [enterPhase_objectStart]
      exact Forward.of_lands (Lands.at_start hi)
    | arrayStart =>
      rw [enterPhase_arrayStart]
      exact Forward.of_lands (Lands.at_start hi)
    | propertyName =>
      rw [enterPhase_propertyName]
      have hl := Forward.of_lands (readStringStep_lands o (t := t) (i := i))
      rcases hr : readStringStep o (after t i) with f | ⟨k, c₁⟩
      · exact Forward.of_error _
      · intro a c h
        cases h
        exact hl k c₁ hr
    | propertyValue | nextElement =>
      rw [enterPhase_value o d (by simp)]
      have hl := readValueStep_forward hi d F
      rcases hr : readValueStep o d F (after t i) with f | ⟨v, c₁⟩
      · exact Forward.of_error _
      · simp only
        split
        · intro a c h
          cases h
          exact hl v c₁ hr
        · exact Forward.of_error _
termination_by structural F => F

theorem readValueStep_forward {t : Array UInt8} {i : Nat} (hi : i ≤ t.size) (d : Nat) :
    ∀ F, Forward t i (readValueStep o d F (after t i))
  | 0 => Forward.of_error _
  | F + 1 => by
    rw [readValueStep_after o d hi]
    have hb := le_blankEnd t i
    split_ifs with hlt hq hn hl hbr hd
    · exact (Forward.of_lands (Lands.map _ (readStringStep_lands o))).mono (by omega)
    · exact (Forward.of_lands (readNumberStep_lands o (by omega) (by omega)
        (getElem?_blankEnd hlt) hn)).mono (by omega)
    · exact (Forward.of_lands (readLiteralStep_lands (by omega) (getElem?_blankEnd hlt)
        (letter_of_literalStart hl))).mono (by omega)
    · exact Forward.of_error _
    · exact (readContainer_forward (le_of_lt hlt) (d + 1) F).mono hb
    · exact Forward.of_error _
    · exact Forward.of_error _
termination_by structural F => F

end

end Progress

/-! ## One turn at a time -/

section Turns

variable {o : ReadOptions} {t : Array UInt8} {d : Nat}

/-- A turn of a walk, the entry action and then the table, from a settled cursor: it ends on a
settled cursor within the input and further on, unless it takes the wildcard edge out of
`arrayStart`, which leads to `nextElement`. -/
theorem turn_moves {i F : Nat} {p q : Phase} {s s₁ : List Pending} {c₁ c₂ : Cursor}
    (hi : i ≤ t.size) (he : enterPhase o d p s F (after t i) = .ok (s₁, c₁))
    (ha : p.advance c₁ = .ok (q, c₂)) :
    ∃ k, c₂ = after t k ∧ i ≤ k ∧ k ≤ t.size ∧
      (i < k ∨ (p = .arrayStart ∧ q = .nextElement)) := by
  obtain ⟨j, rfl, hij, hj⟩ := enterPhase_forward o hi d p s F _ _ he
  obtain ⟨k, rfl, hjk, hk, hmove⟩ := Phase.advance_moves hj ha
  refine ⟨k, rfl, le_trans hij hjk, hk, ?_⟩
  rcases hmove with hlt | hwild
  · exact .inl (by omega)
  · exact .inr hwild

/-- Every configuration a walk reaches has a settled cursor between the walk's start and the
end of the input. -/
theorem Reaches.after {i : Nat} {b : Phase × List Pending × Cursor}
    (h : Reaches o d (after t i) b) (hi : i ≤ t.size) :
    ∃ j, b.2.2 = after t j ∧ i ≤ j ∧ j ≤ t.size := by
  induction h with
  | refl => exact ⟨i, rfl, le_rfl, hi⟩
  | tail _ hturn ih =>
    obtain ⟨j, hc, hij, hj⟩ := ih
    cases hturn with
    | mk _ ha he =>
      simp only at hc
      subst hc
      obtain ⟨k, rfl, hjk, hk, -⟩ := Phase.advance_moves hj ha
      obtain ⟨j', hc', hkj', hj'⟩ := enterPhase_forward o hk d _ _ _ _ _ he
      exact ⟨j', hc', by omega, hj'⟩

end Turns

/-! ## The wildcard edge, once per walk -/

namespace Phase

/-- How far the walk of a container has come: before its bracket, just after it, or inside. -/
def stage : Phase → Nat
  | init => 0
  | objectStart | arrayStart => 1
  | _ => 2

theorem stage_le (p : Phase) : p.stage ≤ 2 := by
  cases p <;> decide

/-- Every edge of the table leads on by a stage, or stays inside the container. -/
theorem stage_of_edge {p q : Phase} {x : Int} (h : (p, x, q) ∈ edges) :
    min (p.stage + 1) 2 ≤ q.stage := by
  simp only [edges, List.mem_cons, Prod.mk.injEq, List.not_mem_nil, or_false] at h
  rcases h with ⟨rfl, -, rfl⟩ | ⟨rfl, -, rfl⟩ | ⟨rfl, -, rfl⟩ | ⟨rfl, -, rfl⟩ |
    ⟨rfl, -, rfl⟩ | ⟨rfl, -, rfl⟩ | ⟨rfl, -, rfl⟩ | ⟨rfl, -, rfl⟩ |
    ⟨rfl, -, rfl⟩ | ⟨rfl, -, rfl⟩ | ⟨rfl, -, rfl⟩ <;> decide

/-- Where `advance` can lead: along an edge of the table, or by the wildcard out of
`arrayStart` to `nextElement`. -/
theorem advance_target {p q : Phase} {c c' : Cursor} (h : p.advance c = .ok (q, c')) :
    (∃ x, (p, x, q) ∈ edges) ∨ (p = .arrayStart ∧ q = .nextElement) := by
  unfold advance at h
  split at h
  · cases h
  · rename_i m hm
    cases h
    rcases step_ok hm with ⟨-, he⟩ | ⟨-, hp, ht, -⟩
    · exact .inl ⟨_, he⟩
    · exact .inr ⟨hp, ht⟩

theorem stage_advance {p q : Phase} {c c' : Cursor} (h : p.advance c = .ok (q, c')) :
    min (p.stage + 1) 2 ≤ q.stage := by
  rcases advance_target h with ⟨x, he⟩ | ⟨rfl, rfl⟩
  · exact stage_of_edge he
  · decide

end Phase

section Wildcard

variable {o : ReadOptions} {d : Nat}

theorem Turn.stage {a b : Phase × List Pending × Cursor} (h : Turn o d a b) :
    min (a.1.stage + 1) 2 ≤ b.1.stage := by
  cases h with
  | mk _ ha _ => exact Phase.stage_advance ha

/-- Once past its opening bracket a walk is inside its container, and stays there. -/
theorem isChain_stage {a : Phase × List Pending × Cursor}
    {l : List (Phase × List Pending × Cursor)}
    (h : List.IsChain (Turn o d) (a :: l)) (ha : 1 ≤ a.1.stage) : ∀ b ∈ l, b.1.stage = 2 := by
  induction l generalizing a with
  | nil => exact fun b hb => absurd hb List.not_mem_nil
  | cons b l ih =>
    rw [List.isChain_cons_cons] at h
    obtain ⟨hab, hl⟩ := h
    have hb : b.1.stage = 2 := le_antisymm (Phase.stage_le _) (by have := hab.stage; omega)
    intro b' hb'
    rcases List.mem_cons.mp hb' with rfl | hb'
    · exact hb
    · exact ih hl (by omega) b' hb'

/-- A walk is in `arrayStart` at most once, so it takes the wildcard edge at most once: only
`init` leads to `arrayStart`, and nothing leads back to `init`. -/
theorem count_arrayStart_le_one {c : Cursor} {l : List (Phase × List Pending × Cursor)}
    (h : List.IsChain (Turn o d) ((.init, [], c) :: l)) :
    (l.map (·.1)).count .arrayStart ≤ 1 := by
  cases l with
  | nil => simp
  | cons b l =>
    rw [List.isChain_cons_cons] at h
    obtain ⟨hb, hl⟩ := h
    have hb1 : 1 ≤ b.1.stage := le_trans (by simp [Phase.stage]) hb.stage
    -- after the first turn every phase is inside the container, where `arrayStart` is not
    have hrest : Phase.arrayStart ∉ l.map (·.1) := by
      intro hmem
      obtain ⟨b', hb', heq⟩ := List.mem_map.mp hmem
      have h2 := isChain_stage hl hb1 b' hb'
      rw [heq] at h2
      exact absurd h2 (by decide)
    rw [List.map_cons, List.count_cons, List.count_eq_zero.mpr hrest]
    split <;> simp

end Wildcard

/-! ## Nested readers -/

/-- The reader of a container at depth `d`, started at offset `i`, starts the reader of a nested
container at offset `j`: in a configuration its walk reaches, the table leads to a phase that
reads a value, and reading that value is reading the container at `j` one level deeper, whatever
the fuel. The reader of a document is the one at depth one from offset zero. -/
inductive Nests (o : ReadOptions) (t : Array UInt8) : Nat × Nat → Nat × Nat → Prop
  | mk {d i j : Nat} {p q : Phase} {s : List Pending} {c₁ c₂ : Cursor} :
      Reaches o d (after t i) (p, s, c₁) → p.advance c₁ = .ok (q, c₂) →
      (q = .propertyValue ∨ q = .nextElement) →
      (∀ F, readValueStep o d (F + 1) c₂ = readContainer o (d + 1) F (after t j)) →
      Nests o t (d, i) (d + 1, j)

section Depth

variable (o : ReadOptions) {t : Array UInt8}

/-- A value read from a settled cursor fails with an internal error only inside a nested
container, and the reader starts one only below the depth limit. -/
theorem readValueStep_internal {k d F : Nat} {f : Failure} (hk : k ≤ t.size)
    (h : readValueStep o d (F + 1) (after t k) = .error f) (hf : f.cls = .internalError) :
    d < o.depthLimit ∧ ∃ b < t.size, readContainer o (d + 1) F (after t b) = .error f := by
  rw [readValueStep_after o d hk] at h
  split_ifs at h with hlt hq hn hl hbr hd
  · have hs := Lands.map Value.str (readStringStep_lands o (t := t) (i := blankEnd t k + 1))
    rw [h] at hs
    exact absurd hf hs
  · have hs := readNumberStep_lands o (by omega) (by omega) (getElem?_blankEnd hlt) hn
    rw [h] at hs
    exact absurd hf hs
  · have hs := readLiteralStep_lands (by omega) (getElem?_blankEnd hlt) (letter_of_literalStart hl)
    rw [h] at hs
    exact absurd hf hs
  · -- at the limit the bracket is refused
    cases h
    simp at hf
  · exact ⟨by omega, blankEnd t k, hlt, h⟩
  · cases h
    simp at hf
  · cases h
    simp at hf

/-- **Nested readers only below the limit.** A reader started within the input starts a nested
one only while its depth is below the limit, and then within the input too. -/
theorem Nests.depth_lt {d i d' j : Nat} (h : Nests o t (d, i) (d', j)) (hi : i ≤ t.size) :
    d' = d + 1 ∧ d < o.depthLimit ∧ j ≤ t.size := by
  cases h with
  | mk hreach ha _ hread =>
    obtain ⟨j₁, hc₁, -, hj₁⟩ := hreach.after hi
    simp only at hc₁
    subst hc₁
    obtain ⟨k, rfl, -, hk, -⟩ := Phase.advance_moves hj₁ ha
    -- with no fuel the nested reader fails at once, at its own cursor
    have h0 := hread 0
    rw [readContainer] at h0
    obtain ⟨hd, b, hb, hbf⟩ := readValueStep_internal o hk h0 (by simp)
    rw [readContainer] at hbf
    simp only [ReadStep.failHere_apply, Except.error.injEq, Cursor.failure, after_offset,
      Failure.make, Failure.mk.injEq] at hbf
    exact ⟨rfl, hd, by omega⟩

/-- **At most `depthLimit` readers at once.** Along every chain of nested readers from the
reader of the document, the depth, which counts the readers active at once, stays within the
limit, and every reader starts within the input. -/
theorem nests_depth_le {b : Nat × Nat} (h : Relation.ReflTransGen (Nests o t) (1, 0) b) :
    1 ≤ b.1 ∧ b.1 ≤ o.depthLimit ∧ b.2 ≤ t.size := by
  induction h with
  | refl => exact ⟨le_rfl, o.depthLimit_pos, Nat.zero_le _⟩
  | tail _ hstep ih =>
    rename_i a b _
    obtain ⟨d, i⟩ := a
    obtain ⟨d', j⟩ := b
    obtain ⟨rfl, hd, hj⟩ := hstep.depth_lt o ih.2.2
    exact ⟨by omega, hd, hj⟩

end Depth

/-- **Reading terminates.** Reading a document never runs out of steps: a container read from
offset `i` finishes within `8 (n + 1 - i) + 2` steps, `n` the input's length, ending on a
settled cursor within the input or with a failure of its own class. The walk of every container
keeps its cursor between its start and the end of the input; each turn, entry action then table,
moves the cursor on by at least one octet, unless it is the wildcard edge out of `arrayStart`,
which leads to `nextElement` and is taken at most once per walk; and a nested reader is started
only below the depth limit, so that at most `depthLimit` readers are active at once. -/
theorem readDocument_terminates (o : ReadOptions) (t : Array UInt8) :
    (∀ f, readDocument o t = .error f → f.cls ≠ .internalError) ∧
    (∀ d i F, i ≤ t.size → 8 * (t.size + 1 - i) + 2 ≤ F →
      Lands t i (readContainer o d F (after t i))) ∧
    (∀ d i p s c, i ≤ t.size → Reaches o d (after t i) (p, s, c) →
      ∃ j, c = after t j ∧ i ≤ j ∧ j ≤ t.size) ∧
    (∀ d F i p q s s₁ c₁ c₂, i ≤ t.size →
      enterPhase o d p s F (after t i) = .ok (s₁, c₁) →
      p.advance c₁ = .ok (q, c₂) →
      ∃ k, c₂ = after t k ∧ i ≤ k ∧ k ≤ t.size ∧
        (i < k ∨ (p = .arrayStart ∧ q = .nextElement))) ∧
    (∀ d c l, List.IsChain (Turn o d) ((.init, [], c) :: l) →
      (l.map (·.1)).count .arrayStart ≤ 1) ∧
    (∀ d i d' j, i ≤ t.size → Nests o t (d, i) (d', j) → d < o.depthLimit) ∧
    (∀ d j, Relation.ReflTransGen (Nests o t) (1, 0) (d, j) → d ≤ o.depthLimit) :=
  ⟨fun _ => readDocument_error_cls,
    fun d _ _ hi hF => readContainer_lands o hi d hF,
    fun _ _ _ _ _ hi h => h.after hi,
    fun _ _ _ _ _ _ _ _ _ hi he ha => turn_moves hi he ha,
    fun _ _ _ h => count_arrayStart_le_one h,
    fun _ _ _ _ hi h => (h.depth_lt o hi).2.1,
    fun _ _ h => (nests_depth_le o h).2.1⟩

/-- Two opening brackets: the array's reader starts the reader of the inner array. -/
theorem nests_inner_array : Nests {} #[0x5B, 0x5B, 0x5D, 0x5D] (1, 0) (2, 1) := by
  have hadv₁ : Phase.init.advance (after #[0x5B, 0x5B, 0x5D, 0x5D] 0) =
      .ok (.arrayStart, after #[0x5B, 0x5B, 0x5D, 0x5D] 1) := by
    rw [Phase.advance_after _ (by decide)]
    rfl
  have hadv₂ : Phase.arrayStart.advance (after #[0x5B, 0x5B, 0x5D, 0x5D] 1) =
      .ok (.nextElement, after #[0x5B, 0x5B, 0x5D, 0x5D] 1) := by
    rw [Phase.advance_after _ (by decide)]
    rfl
  have hread : ∀ F, readValueStep {} 1 (F + 1) (after #[0x5B, 0x5B, 0x5D, 0x5D] 1) =
      readContainer {} (1 + 1) F (after #[0x5B, 0x5B, 0x5D, 0x5D] 1) := by
    intro F
    rw [readValueStep_after _ _ (by decide)]
    rfl
  exact Nests.mk (.single (Turn.mk rfl hadv₁ (enterPhase_arrayStart {} 1 [] 0 _))) hadv₂
    (.inr rfl) hread

/-- In `[[]]` the inner array is read by a second reader, within the default limit. -/
theorem readDocument_terminates_inner_array :
    Nests {} #[0x5B, 0x5B, 0x5D, 0x5D] (1, 0) (2, 1) ∧ 2 ≤ ({} : ReadOptions).depthLimit :=
  ⟨nests_inner_array, (readDocument_terminates {} #[0x5B, 0x5B, 0x5D, 0x5D]).2.2.2.2.2.2 2 1
    (.single nests_inner_array)⟩

end ExactJson
