import Mathlib
import ExactJson.Proofs.StepText

/-!
# Runs of cursor operations

A caller drives a cursor by a sequence of operations: moves (`next`, `pushBack`, `skipBlanks`),
queries (`current`, `hasMore`, `offset`) and reads of a quoted string, a numeric run or a run of
letters, which move the cursor whether they succeed or fail. Started before the first octet of a
text, every such run keeps the cursor on the text or one octet past either end, so that its
offset is an index of the text or its length.

Three laws tie the moves together on every cursor, reachable or not. They rest on one fact:
`next` shows the octet at index `seen`, if there is one, also when it stalls (`next_shows`).

* `hasMore` says exactly whether the following `next` shows an octet (`hasMore_iff`);
* an octet shown by `next` is the one at the new offset (`next_shows_offset`);
* `pushBack` right after `next` gives the cursor back, with only the stall flag cleared
  (`pushBack_next`), whether that `next` moved or stalled.
-/

namespace ExactJson

namespace Cursor

/-- An operation of the cursor's interface. -/
inductive Op where
  | next
  | pushBack
  | current
  | hasMore
  | offset
  | skipBlanks
  | readQuoted
  | readNumeric
  | readLetters
  deriving DecidableEq, Repr

/-- The cursor after an operation; queries leave it as it is, and a read moves it whatever its
outcome. -/
def Op.apply : Op → Cursor → Cursor
  | .next, c => c.next.1
  | .pushBack, c => c.pushBack
  | .current, c => c
  | .hasMore, c => c
  | .offset, c => c
  | .skipBlanks, c => c.skipBlanks
  | .readQuoted, c => c.readQuoted.1
  | .readNumeric, c => c.readNumeric.1
  | .readLetters, c => c.readLetters.1

/-- The cursor after a sequence of operations. -/
def run (c : Cursor) (ops : List Op) : Cursor := ops.foldl (fun c op => op.apply c) c

@[simp] theorem run_nil (c : Cursor) : c.run [] = c := rfl

@[simp] theorem run_cons (c : Cursor) (op : Op) (ops : List Op) :
    c.run (op :: ops) = (op.apply c).run ops := rfl

/-- The index of the octet under the cursor, `-1` before the first octet. -/
def index (c : Cursor) : Int := (c.seen : Int) - 1

/-! ## One move at a time -/

@[simp] theorem next_input (c : Cursor) : c.next.1.input = c.input := by
  unfold next
  split <;> rfl

theorem next_seen (c : Cursor) :
    c.next.1.seen = if c.input.size < c.seen then c.seen else c.seen + 1 := by
  unfold next
  split <;> rfl

@[simp] theorem pushBack_input (c : Cursor) : c.pushBack.input = c.input := by
  unfold pushBack
  split <;> rfl

theorem pushBack_seen_le (c : Cursor) : c.pushBack.seen ≤ c.seen := by
  unfold pushBack
  split
  · exact le_rfl
  · exact Nat.sub_le _ _

/-- `next` shows the octet at index `seen`: the one after the cursor's, or, past the end where it
stalls, none, as there is none at `seen` either. -/
theorem next_shows (c : Cursor) : c.next.2 = c.input[c.seen]? := by
  by_cases hs : c.input.size < c.seen
  · have hcur : c.input[c.seen - 1]? = none := Array.getElem?_eq_none (by omega)
    have hnext : c.input[c.seen]? = none := Array.getElem?_eq_none (by omega)
    simp [next, current, hs, hcur, hnext]
  · simp [next, current, hs]

/-- `hasMore` says whether the following `next` shows an octet rather than the end. -/
theorem hasMore_iff (c : Cursor) : c.hasMore = true ↔ c.next.2.isSome := by
  simp [hasMore, next_shows]

/-- An octet that `next` shows is the one at the offset it moved to. -/
theorem next_shows_offset {c : Cursor} {b : UInt8} (h : c.next.2 = some b) :
    c.input[c.next.1.offset]? = some b := by
  rw [next_shows] at h
  -- an octet at `seen` means the cursor was not past the end, so `next` moved onto it
  have hlt : c.seen < c.input.size := (Array.getElem?_eq_some_iff.mp h).1
  have hoff : c.next.1.offset = c.seen := by
    rw [offset, next_seen, if_neg (by omega)]
    rfl
  rw [hoff, h]

/-- `pushBack` undoes the `next` before it: the cursor comes back with the stall flag cleared,
after a `next` that moved as after one that stalled. -/
theorem pushBack_next (c : Cursor) : c.next.1.pushBack = { c with stalled := false } := by
  by_cases hs : c.input.size < c.seen <;> simp [next, pushBack, hs]

/-! ## Staying on the text -/

/-- A cursor over `t` that stands on an octet of `t`, before its first octet or just past its
last one. -/
structure Within (t : Array UInt8) (c : Cursor) : Prop where
  input_eq : c.input = t
  seen_le : c.seen ≤ t.size + 1

theorem within_start (t : Array UInt8) : Within t (start t) :=
  ⟨rfl, Nat.zero_le _⟩

/-- A cursor whose code is in a class that excludes the end stands on an octet. -/
theorem seen_le_of_code {p : Int → Bool} (hstop : p Code.stop = false) {c : Cursor}
    (h : p c.code = true) : c.seen ≤ c.input.size := by
  unfold code current at h
  split_ifs at h with h0
  · rw [Code.ofSight_none, hstop] at h
    cases h
  · cases hb : c.input[c.seen - 1]? with
    | none =>
      rw [hb, Code.ofSight_none, hstop] at h
      cases h
    | some b =>
      have := (Array.getElem?_eq_some_iff.mp hb).1
      omega

variable {t : Array UInt8} {c : Cursor}

theorem Within.next (h : Within t c) : Within t c.next.1 := by
  refine ⟨by rw [next_input, h.input_eq], ?_⟩
  have hs := h.seen_le
  rw [next_seen, h.input_eq]
  split <;> omega

theorem Within.pushBack (h : Within t c) : Within t c.pushBack :=
  ⟨by rw [pushBack_input, h.input_eq], le_trans (pushBack_seen_le c) h.seen_le⟩

theorem Within.skipBlanks (h : Within t c) : Within t c.skipBlanks := by
  obtain ⟨rfl, hs⟩ := h
  rw [skipBlanks_eq]
  -- the blanks passed are octets ahead of the cursor
  have hl := (List.takeWhile_prefix Grammar.blank (l := c.input.toList.drop c.seen)).length_le
  simp only [List.length_drop, Array.length_toList] at hl
  exact ⟨rfl, by dsimp only; omega⟩

theorem Within.readQuoted (h : Within t c) : Within t c.readQuoted.1 := by
  obtain ⟨rfl, hs⟩ := h
  unfold Cursor.readQuoted
  split
  · exact ⟨rfl, hs⟩
  · split
    · rename_i j hj
      exact ⟨rfl, by have := (scanQuote_closed hj).2.1; dsimp only; omega⟩
    all_goals exact ⟨rfl, le_rfl⟩

theorem Within.readNumeric (h : Within t c) : Within t c.readNumeric.1 := by
  obtain ⟨rfl, hs⟩ := h
  unfold Cursor.readNumeric
  split
  · exact ⟨rfl, hs⟩
  · rename_i hstart
    have hon := seen_le_of_code (p := Code.isNumberStart) (by decide) (by simpa using hstart)
    exact ⟨rfl, by have := runEnd_le Code.isNumberPart hon; dsimp only; omega⟩

theorem Within.readLetters (h : Within t c) : Within t c.readLetters.1 := by
  obtain ⟨rfl, hs⟩ := h
  unfold Cursor.readLetters
  split
  · exact ⟨rfl, hs⟩
  · rename_i hstart
    have hon := seen_le_of_code (p := Code.isLetter) (by decide) (by simpa using hstart)
    have hk := runEnd_le Code.isLetter hon
    dsimp only
    split <;> exact ⟨rfl, by dsimp only; omega⟩

/-- Every operation keeps a cursor on its text. -/
theorem Within.apply (op : Op) (h : Within t c) : Within t (op.apply c) := by
  cases op with
  | next => exact h.next
  | pushBack => exact h.pushBack
  | current => exact h
  | hasMore => exact h
  | offset => exact h
  | skipBlanks => exact h.skipBlanks
  | readQuoted => exact h.readQuoted
  | readNumeric => exact h.readNumeric
  | readLetters => exact h.readLetters

/-- Every run of operations keeps a cursor on its text. -/
theorem Within.run (ops : List Op) (h : Within t c) : Within t (c.run ops) := by
  induction ops generalizing c with
  | nil => exact h
  | cons op ops ih => exact ih (h.apply op)

theorem Within.index_le (h : Within t c) : -1 ≤ c.index ∧ c.index ≤ t.size := by
  have := h.seen_le
  unfold index
  omega

theorem Within.offset_le (h : Within t c) : c.offset ≤ t.size := by
  have := h.seen_le
  unfold offset
  omega

end Cursor

open Cursor

/-- Whatever operations a caller issues from the start of a text `t`, failed reads included, the
cursor stands on `t` or one octet past either end and its offset is at most the length of `t`;
`hasMore` then says whether the next `next` shows an octet, an octet it shows is the one of `t`
at the new offset, and a `pushBack` right after it restores the offset and the octet under the
cursor. -/
theorem cursor_runs_within_text (t : Array UInt8) (ops : List Op) :
    let c := (start t).run ops
    (-1 ≤ c.index ∧ c.index ≤ t.size) ∧ c.offset ≤ t.size ∧
      (c.hasMore = true ↔ c.next.2.isSome) ∧
      (∀ b, c.next.2 = some b → t[c.next.1.offset]? = some b) ∧
      c.next.1.pushBack.offset = c.offset ∧ c.next.1.pushBack.current = c.current := by
  intro c
  have hc : Within t c := (within_start t).run ops
  refine ⟨hc.index_le, hc.offset_le, hasMore_iff c, fun b hb => ?_, ?_, ?_⟩
  · rw [← hc.input_eq]
    exact next_shows_offset hb
  · rw [pushBack_next]
    rfl
  · rw [pushBack_next]
    rfl

/-- A push-back at the start and a read that fails on `[` leave the cursor on `[`, and the next
`next` shows the `1` at offset 1. -/
theorem cursor_runs_within_text_failed_read :
    ((start #[0x5B, 0x31, 0x5D]).run [.pushBack, .next, .readNumeric]).next.2 = some 0x31 ∧
      (#[0x5B, 0x31, 0x5D] : Array UInt8)[((start #[0x5B, 0x31, 0x5D]).run
        [.pushBack, .next, .readNumeric]).next.1.offset]? = some 0x31 :=
  ⟨by decide, (cursor_runs_within_text _ [.pushBack, .next, .readNumeric]).2.2.2.1 _ (by decide)⟩

end ExactJson
