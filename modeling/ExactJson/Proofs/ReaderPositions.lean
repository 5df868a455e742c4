import Mathlib
import ExactJson.Proofs.ReaderComplete
import ExactJson.Proofs.GrammarRests

/-!
# Where the readers stop

Every reader leaves the cursor on the last octet of what it read, so that skipping blanks and
taking the next code sees what follows; the readers of a container share one cursor, and a
container can be read on only because its reader stops exactly on its closing bracket.

* A container read from any cursor, however its last move went, whose next octet after blanks is
  an opening bracket at `i`, ends on the bracket at `j` that closes it, and the octets from `i`
  to `j` are a container of the grammar standing for the value read (`readContainer_stops`).
* The readers of strings, numbers and literals, started on the first octet of their token at
  `i`, end on its last octet at `j`: the closing quote, the last octet of the numeric run, the
  last letter; the octets from `i` to `j` are the token (`readStringStep_stops` and the like).
* From a cursor on the last octet of a token, skipping blanks and moving on shows the first
  octet after the token that is no blank (`next_skipBlanks_after`).

A position here is an index into the input: the cursor `after t (j + 1)` stands on the octet at
`j`, its offset.
-/

namespace ExactJson

open Cursor Grammar

/-! ## Cursors that stand on the same octet -/

namespace Cursor

/-- Skipping blanks settles the cursor: how its last move went no longer matters. -/
theorem skipBlanks_settle (c : Cursor) : c.skipBlanks = (after c.input c.seen).skipBlanks := by
  rw [skipBlanks_eq, skipBlanks_eq]
  rfl

/-- Past the end of the input the next move shows the end. -/
theorem next_after_ge {t : Array UInt8} {k : Nat} (h : t.size ≤ k) : ((after t k).next).2 = none := by
  rcases Nat.lt_or_eq_of_le h with hlt | rfl
  · simp [after, next, current, hlt, Nat.le_sub_one_of_lt hlt]
  · rw [next_after_size]

/-- The blanks ahead of `i` end at `blankEnd t i`. -/
theorem dropWhile_blank (t : Array UInt8) (i : Nat) :
    (t.toList.drop i).dropWhile blank = t.toList.drop (blankEnd t i) := by
  have h := List.takeWhile_append_dropWhile (p := blank) (l := t.toList.drop i)
  calc (t.toList.drop i).dropWhile blank
      = ((t.toList.drop i).takeWhile blank ++ (t.toList.drop i).dropWhile blank).drop
          ((t.toList.drop i).takeWhile blank).length := List.drop_left.symm
    _ = t.toList.drop (blankEnd t i) := by rw [h, List.drop_drop, blankEnd]

/-- **Skipping blanks and moving on shows the first octet ahead that is no blank**, or the end
of the input. -/
theorem next_skipBlanks_after (t : Array UInt8) (i : Nat) :
    ((after t i).skipBlanks.next).2 = ((t.toList.drop i).dropWhile blank).head? := by
  rw [skipBlanks_after, dropWhile_blank]
  by_cases h : blankEnd t i < t.size
  · rw [next_after_lt h, drop_toList_cons h]
    rfl
  · rw [next_after_ge (Nat.le_of_not_lt h), drop_toList_eq_nil (Nat.le_of_not_lt h)]
    rfl

end Cursor

/-- A move of the table depends only on where the cursor stands. -/
theorem Phase.advance_settle (p : Phase) (c : Cursor) :
    p.advance c = p.advance (after c.input c.seen) := by
  unfold Phase.advance
  rw [skipBlanks_settle c]

section Settle

variable (o : ReadOptions) (d : Nat)

/-- Reading a container depends only on where the cursor stands: the walk starts by skipping
blanks, which settles the cursor. -/
theorem readContainer_settle :
    ∀ (F : Nat) (c : Cursor), readContainer o d F c = readContainer o d F (after c.input c.seen)
  | 0, _ => rfl
  | 1, _ => rfl
  | 2, _ => rfl
  | F + 3, c => by
    rw [readContainer_succ, readContainer_succ, walk_step o d rfl, walk_step o d rfl,
      enterPhase_idle o d (.inl rfl), enterPhase_idle o d (.inl rfl)]
    dsimp only
    rw [Phase.advance_settle .init c]

end Settle

/-! ## Tokens and their last octets -/

/-- A container is its opening bracket, a body and the matching closing bracket. -/
theorem Grammar.ContainerText.closes {o : ReadOptions} {n : Nat} {s r : Bytes} {v : Value}
    (h : ContainerText o n s v r) :
    ∃ a, s = 0x7B :: (a ++ 0x7D :: r) ∨ s = 0x5B :: (a ++ 0x5D :: r) := by
  cases h with
  | emptyObject hb =>
    obtain ⟨a, rfl, -⟩ := hb.split
    exact ⟨a, .inl rfl⟩
  | object hb hms hend =>
    obtain ⟨a₁, rfl, -⟩ := hb.split
    obtain ⟨a₂, rfl, -⟩ := hms.split
    obtain ⟨a₃, rfl, -⟩ := hend.split
    exact ⟨a₁ ++ a₂ ++ a₃, .inl (by simp)⟩
  | emptyArray hb =>
    obtain ⟨a, rfl, -⟩ := hb.split
    exact ⟨a, .inr rfl⟩
  | array hb hxs hend =>
    obtain ⟨a₁, rfl, -⟩ := hb.split
    obtain ⟨a₂, rfl, -⟩ := hxs.split
    obtain ⟨a₃, rfl, -⟩ := hend.split
    exact ⟨a₁ ++ a₂ ++ a₃, .inr (by simp)⟩

section Positions

variable {t : Array UInt8}

/-- A text `a` ahead of `i` up to what lies ahead of `k` spans the positions from `i` to
`k - 1`. -/
theorem eq_add_length_of_drop {i k : Nat} {a : Bytes} (hi : i ≤ t.size) (hk : k ≤ t.size)
    (h : t.toList.drop i = a ++ t.toList.drop k) : k = i + a.length := by
  have hl := congrArg List.length h
  simp only [List.length_drop, Array.length_toList, List.length_append] at hl
  omega

/-- Two delimiters around a body ahead of `i`, and what lies ahead of `k` after them: the first
stands at `i`, the second at `k - 1`. -/
theorem delimiters_at {i k : Nat} {x y : UInt8} {a : Bytes} (hk : k ≤ t.size)
    (h : t.toList.drop i = x :: (a ++ y :: t.toList.drop k)) :
    k = i + a.length + 2 ∧ t[i]? = some x ∧ t[i + a.length + 1]? = some y := by
  obtain ⟨hi, hx, -⟩ := drop_toList_eq_cons h
  have hlen := eq_add_length_of_drop (a := x :: (a ++ [y])) hi.le hk (by simp [h])
  have hy : t.toList.drop (i + 1 + a.length) = y :: t.toList.drop k := by
    rw [← List.drop_drop, (drop_toList_eq_cons h).2.2, List.drop_left]
  obtain ⟨hj, hyj, -⟩ := drop_toList_eq_cons hy
  refine ⟨by simp at hlen; omega, by simp [hi, hx], ?_⟩
  rw [show i + a.length + 1 = i + 1 + a.length by omega]
  simp [hj, hyj]

/-- A numeric run is a nonempty text before its rest. -/
theorem Grammar.NumberText.span {o : ReadOptions} {s r : Bytes} {y : Number}
    (h : NumberText o s y r) : ∃ a, a ≠ [] ∧ s = a ++ r := by
  cases h with
  | mk => exact ⟨_, List.cons_ne_nil _ _, rfl⟩

/-- A run of letters is a nonempty text before its rest. -/
theorem Grammar.LiteralText.span {s r : Bytes} {v : Value} (h : LiteralText s v r) :
    ∃ a, a ≠ [] ∧ s = a ++ r := by
  cases h with
  | mk => exact ⟨_, List.cons_ne_nil _ _, rfl⟩

/-- A nonempty text ahead of `i`, up to what lies ahead of `k`, ends on the octet at `k - 1`. -/
theorem last_of_span {i k : Nat} {a : Bytes} (hi : i ≤ t.size) (hk : k ≤ t.size) (ha : a ≠ [])
    (h : t.toList.drop i = a ++ t.toList.drop k) : ∃ j, i ≤ j ∧ k = j + 1 := by
  have hlen := eq_add_length_of_drop hi hk h
  have hpos := List.length_pos_iff.mpr ha
  exact ⟨k - 1, by omega, by omega⟩

end Positions

/-! ## The readers stop on the last octet -/

section Stops

variable (o : ReadOptions) {t : Array UInt8}

/-- An opening bracket is no blank. -/
theorem bracket_not_blank {y : UInt8} (hy : y = 0x7B ∨ y = 0x5B) (w : Bytes) :
    ∀ b ∈ (y :: w).head?, blank b = false := by
  intro b hb
  simp only [List.head?_cons, Option.mem_def, Option.some.injEq] at hb
  subst hb
  rcases hy with rfl | rfl <;> decide

/-- Blanks ahead of a position up to a bracket at `i` are all the blanks there: a text after
them that starts with a bracket is the text ahead of `i`. -/
theorem eq_drop_of_blanks_bracket {j i : Nat} {u : Bytes}
    (hb : Blanks (t.toList.drop j) (t.toList.drop i)) (hu : Blanks (t.toList.drop j) u)
    (hopen : t[i]? = some 0x7B ∨ t[i]? = some 0x5B) (hstart : ∃ u', u = 0x7B :: u' ∨ u = 0x5B :: u') :
    u = t.toList.drop i := by
  obtain ⟨x, hx, hxb⟩ : ∃ x, t[i]? = some x ∧ (x = 0x7B ∨ x = 0x5B) := by
    rcases hopen with h | h
    · exact ⟨_, h, .inl rfl⟩
    · exact ⟨_, h, .inr rfl⟩
  have hdi : t.toList.drop i = x :: t.toList.drop (i + 1) := by
    rw [drop_toList_cons (octet_index_lt hx), (Array.getElem?_eq_some_iff.mp hx).2]
  obtain ⟨u', hu'⟩ := hstart
  rw [← blankEnd_of_blanks hu (by rcases hu' with rfl | rfl <;> exact bracket_not_blank (by simp) _),
    blankEnd_of_blanks hb (by rw [hdi]; exact bracket_not_blank hxb _)]

/-- **A container ends on its closing bracket.** Read from a cursor whose next octet after
blanks is an opening bracket at `i`, a container that is read ends with the cursor on the
matching closing bracket at `j`, and the octets from `i` to `j` are the container read. -/
theorem readContainer_stops (d F : Nat) (c : Cursor) (ht : c.input = t) {i : Nat}
    (hb : Blanks (t.toList.drop c.seen) (t.toList.drop i))
    (hopen : t[i]? = some 0x7B ∨ t[i]? = some 0x5B) {v : Value} {c' : Cursor}
    (h : readContainer o d F c = .ok (v, c')) :
    ∃ j, i < j ∧ c' = after t (j + 1) ∧
      (t[i]? = some 0x7B ∧ t[j]? = some 0x7D ∨ t[i]? = some 0x5B ∧ t[j]? = some 0x5D) ∧
      ContainerText o (o.depthLimit - d + 1) (t.toList.drop i) v (t.toList.drop (j + 1)) := by
  subst ht
  rw [readContainer_settle] at h
  -- the bracket ahead lies within the input, and so does the cursor
  have hi : i < c.input.size := by
    rcases hopen with h | h <;> exact octet_index_lt h
  have hs : c.seen ≤ c.input.size := by
    by_contra hn
    rw [drop_toList_eq_nil (by omega), drop_toList_cons hi] at hb
    cases hb
  obtain ⟨k, rfl, hk, u, hbu, hcont⟩ := readContainer_sound o hs d h
  obtain rfl := eq_drop_of_blanks_bracket hb hbu hopen hcont.head
  -- the text read is a bracket, a body and the bracket that closes it
  obtain ⟨a, hs' | hs'⟩ := hcont.closes
  · obtain ⟨rfl, hx, hy⟩ := delimiters_at hk hs'
    exact ⟨i + a.length + 1, by omega, rfl, .inl ⟨hx, hy⟩, hcont⟩
  · obtain ⟨rfl, hx, hy⟩ := delimiters_at hk hs'
    exact ⟨i + a.length + 1, by omega, rfl, .inr ⟨hx, hy⟩, hcont⟩

/-- **A string ends on its closing quote.** Read from its opening quote at `i`, a string that
is read ends with the cursor on its closing quote at `j`, and the octets from `i` to `j` are the
string read. -/
theorem readStringStep_stops {i : Nat} (hq : t[i]? = some 0x22) {k : Bytes} {c : Cursor}
    (h : readStringStep o (after t (i + 1)) = .ok (k, c)) :
    ∃ j, i < j ∧ c = after t (j + 1) ∧ t[j]? = some 0x22 ∧
      StringText o (t.toList.drop i) k (t.toList.drop (j + 1)) := by
  have hi := octet_index_lt hq
  have hdi : t.toList.drop i = 0x22 :: t.toList.drop (i + 1) := by
    rw [drop_toList_cons hi, (Array.getElem?_eq_some_iff.mp hq).2]
  obtain ⟨m, rfl, hm, hst⟩ := readStringStep_sound o ⟨by omega, by simpa using hq⟩ h
  -- the body runs up to the quote that closes it
  obtain ⟨body, hbody⟩ : ∃ body, t.toList.drop i = 0x22 :: (body ++ 0x22 :: t.toList.drop m) := by
    cases hst with
    | mk hb _ => exact ⟨_, by rw [hdi, hb.eq_append]⟩
  obtain ⟨rfl, -, hy⟩ := delimiters_at hm hbody
  refine ⟨i + body.length + 1, by omega, rfl, hy, ?_⟩
  rw [hdi]
  exact hst

/-- **A number ends on the last octet of its run.** Read from the first octet of its run at
`i`, a number that is read ends with the cursor on the last octet of the run at `j`, and the
octets from `i` to `j` are the maximal numeric run read. -/
theorem readNumberStep_stops {i : Nat} {b : UInt8} (hb : t[i]? = some b)
    (hn : numberStart b = true) {x : Value} {c : Cursor}
    (h : readNumberStep o (after t (i + 1)) = .ok (x, c)) :
    ∃ j y, i ≤ j ∧ c = after t (j + 1) ∧ x = Value.ofNumber y ∧
      NumberText o (t.toList.drop i) y (t.toList.drop (j + 1)) := by
  obtain ⟨m, y, rfl, hm, rfl, hnum⟩ :=
    readNumberStep_sound o (by omega) (by simpa using hb) hn h
  rw [Nat.add_sub_cancel] at hnum
  obtain ⟨a, ha, hs⟩ := hnum.span
  obtain ⟨j, hj, rfl⟩ := last_of_span (octet_index_lt hb).le hm ha hs
  exact ⟨j, y, hj, rfl, rfl, hnum⟩

/-- **A literal ends on its last letter.** Read from its first letter at `i`, a literal that is
read ends with the cursor on the last letter of the run at `j`, and the octets from `i` to `j`
are the maximal run of letters read. -/
theorem readLiteralStep_stops {i : Nat} {b : UInt8} (hb : t[i]? = some b)
    (hl : literalStart b = true) {v : Value} {c : Cursor}
    (h : readLiteralStep (after t (i + 1)) = .ok (v, c)) :
    ∃ j, i ≤ j ∧ c = after t (j + 1) ∧ LiteralText (t.toList.drop i) v (t.toList.drop (j + 1)) := by
  obtain ⟨m, rfl, hm, hlit⟩ := readLiteralStep_sound (by omega) (by simpa using hb) hl h
  rw [Nat.add_sub_cancel] at hlit
  obtain ⟨a, ha, hs⟩ := hlit.span
  obtain ⟨j, hj, rfl⟩ := last_of_span (octet_index_lt hb).le hm ha hs
  exact ⟨j, hj, rfl, hlit⟩

end Stops

/-- **The readers stop on the last octet of what they read.** A container read from any cursor
over `t` whose next octet after blanks is an opening bracket at `i` ends with the cursor on the
matching closing bracket at `j`, the octets from `i` to `j` being the container read; and the
readers of strings, numbers and literals, started on the first octet of their token at `i`, end
with the cursor on its last octet at `j` (the closing quote, the last octet of the numeric run,
the last letter), so that skipping blanks and moving on shows the first octet after the token
that is no blank. -/
theorem readers_stop_on_last_octet (o : ReadOptions) (t : Array UInt8) :
    (∀ (d F : Nat) (c : Cursor) (i : Nat) (v : Value) (c' : Cursor), c.input = t →
      Blanks (t.toList.drop c.seen) (t.toList.drop i) →
      (t[i]? = some 0x7B ∨ t[i]? = some 0x5B) → readContainer o d F c = .ok (v, c') →
      ∃ j, i < j ∧ c'.offset = j ∧ c' = after t (j + 1) ∧
        (t[i]? = some 0x7B ∧ t[j]? = some 0x7D ∨ t[i]? = some 0x5B ∧ t[j]? = some 0x5D) ∧
        ContainerText o (o.depthLimit - d + 1) (t.toList.drop i) v (t.toList.drop (j + 1))) ∧
    (∀ (i : Nat) (k : Bytes) (c : Cursor), t[i]? = some 0x22 →
      readStringStep o (after t (i + 1)) = .ok (k, c) →
      ∃ j, i < j ∧ c.offset = j ∧ t[j]? = some 0x22 ∧
        StringText o (t.toList.drop i) k (t.toList.drop (j + 1)) ∧
        (c.skipBlanks.next).2 = ((t.toList.drop (j + 1)).dropWhile blank).head?) ∧
    (∀ (i : Nat) (b : UInt8) (x : Value) (c : Cursor), t[i]? = some b → numberStart b = true →
      readNumberStep o (after t (i + 1)) = .ok (x, c) →
      ∃ j y, i ≤ j ∧ c.offset = j ∧ x = Value.ofNumber y ∧
        NumberText o (t.toList.drop i) y (t.toList.drop (j + 1)) ∧
        (c.skipBlanks.next).2 = ((t.toList.drop (j + 1)).dropWhile blank).head?) ∧
    (∀ (i : Nat) (b : UInt8) (v : Value) (c : Cursor), t[i]? = some b → literalStart b = true →
      readLiteralStep (after t (i + 1)) = .ok (v, c) →
      ∃ j, i ≤ j ∧ c.offset = j ∧ LiteralText (t.toList.drop i) v (t.toList.drop (j + 1)) ∧
        (c.skipBlanks.next).2 = ((t.toList.drop (j + 1)).dropWhile blank).head?) := by
  refine ⟨?_, ?_, ?_, ?_⟩
  · intro d F c i v c' hc hb hopen h
    obtain ⟨j, hij, rfl, hclose, htext⟩ := readContainer_stops o d F c hc hb hopen h
    exact ⟨j, hij, by simp, rfl, hclose, htext⟩
  · intro i k c hq h
    obtain ⟨j, hij, rfl, hy, htext⟩ := readStringStep_stops o hq h
    exact ⟨j, hij, by simp, hy, htext, next_skipBlanks_after t (j + 1)⟩
  · intro i b x c hb hn h
    obtain ⟨j, y, hij, rfl, rfl, htext⟩ := readNumberStep_stops o hb hn h
    exact ⟨j, y, hij, by simp, rfl, htext, next_skipBlanks_after t (j + 1)⟩
  · intro i b v c hb hl h
    obtain ⟨j, hij, rfl, htext⟩ := readLiteralStep_stops hb hl h
    exact ⟨j, hij, by simp, htext, next_skipBlanks_after t (j + 1)⟩

theorem readers_stop_on_last_octet_samples :
    (∃ v c', readContainer {} 1 (fuelFor 3) (Cursor.start #[0x20, 0x5B, 0x5D]) = .ok (v, c') ∧
      c'.offset = 2) ∧
    (∃ k c, readStringStep {} (after #[0x22, 0x22, 0x20, 0x3A] 1) = .ok (k, c) ∧ c.offset = 1 ∧
      (c.skipBlanks.next).2 = some 0x3A) := by
  constructor
  · -- ` []`: the array closes at offset 2
    have hexp : Expects ({} : ReadOptions) (({} : ReadOptions).depthLimit - 1) .init []
        ((#[0x20, 0x5B, 0x5D] : Array UInt8).toList.drop 0) (.arr []) [] :=
      ⟨[0x5B, 0x5D], .cons (by decide) (.nil _), .emptyArray (.nil _)⟩
    rcases readContainer_complete {} (Nat.zero_le _) 1 (F := fuelFor 3) hexp with
      ⟨j, -, -, hrun⟩ | ⟨f, hf, hcls⟩
    · obtain ⟨j', hj', hoff, -, hclose, -⟩ := (readers_stop_on_last_octet {} _).1 1 (fuelFor 3)
        (Cursor.start _) 1 _ _ rfl (.cons (by decide) (.nil _)) (.inr rfl) hrun
      have hlt : j' < 3 := by
        rcases hclose with ⟨-, h⟩ | ⟨-, h⟩ <;> exact octet_index_lt h
      exact ⟨_, _, hrun, by omega⟩
    · have hl := readContainer_lands {} (t := #[0x20, 0x5B, 0x5D]) (Nat.zero_le _) 1
        (F := fuelFor 3) (by decide)
      rw [hf] at hl
      exact absurd hcls hl
  · -- `"" :`: the string closes at offset 1, and the colon comes next
    obtain ⟨j, -, -, hrun⟩ := readStringStep_complete {} (t := #[0x22, 0x22, 0x20, 0x3A])
      (i := 1) ⟨by decide, rfl⟩ (StringText.empty _)
    obtain ⟨j', hj', hoff, hq, -, hnext⟩ := (readers_stop_on_last_octet {} _).2.1 0 _ _ rfl hrun
    have hlt : j' < 4 := octet_index_lt hq
    obtain rfl : j' = 1 := by
      interval_cases j' <;> simp_all
    exact ⟨_, _, hrun, hoff, hnext⟩

end ExactJson
