import Mathlib
import ExactJson.Proofs.Grammar
import ExactJson.Reader.Document

/-!
# The cursor, step by step

Between two reads the reader's cursor is always *settled*: not stalled, and at most at the end
of its input. `Cursor.after t i` is the settled cursor that has moved onto `i` octets of `t`, so
that what the following `next` calls show is `t.toList.drop i`.

This module says once what each move and each reading step does to a settled cursor, so that
the proofs about the reader never unfold its primitives:

* `next`, `pushBack` and `skipBlanks` move `after t i` to `after t j`, and `skipBlanks` passes
  exactly the run of blanks in front of it;
* the scan for a closing quote finds exactly the body that the grammar's `QuoteBody` describes;
* the reading steps of strings, numbers and literals are given in closed form, by what they
  find in the input;
* a bind of reading steps runs the first and hands its cursor to the second.
-/

namespace ExactJson

open Grammar

namespace ReadStep

variable {α β : Type}

theorem bind_apply (x : ReadStep α) (f : α → ReadStep β) (c : Cursor) :
    (x >>= f) c = (match x c with | .ok (a, c') => f a c' | .error e => .error e) := by
  show StateT.bind x f c = _
  simp only [StateT.bind]
  cases x c <;> rfl

@[simp] theorem modify_bind (g : Cursor → Cursor) (f : PUnit → ReadStep β) (c : Cursor) :
    (modify g >>= f) c = f () (g c) := rfl

@[simp] theorem modify_apply (g : Cursor → Cursor) (c : Cursor) :
    (modify g : ReadStep PUnit) c = .ok ((), g c) := rfl

@[simp] theorem pure_apply (a : α) (c : Cursor) : (pure a : ReadStep α) c = .ok (a, c) := rfl

@[simp] theorem throw_apply (e : Failure) (c : Cursor) : (throw e : ReadStep α) c = .error e :=
  rfl

@[simp] theorem failHere_apply (cls : FailureClass) (m : String) (c : Cursor) :
    (failHere cls m : ReadStep α) c = .error (c.failure cls m) := rfl

@[simp] theorem offset_bind (f : Nat → ReadStep β) (c : Cursor) :
    (offset >>= f) c = f c.offset c := rfl

@[simp] theorem nextCode_bind (f : Int → ReadStep β) (c : Cursor) :
    (nextCode >>= f) c = f (Code.ofSight c.next.2) c.next.1 := rfl

@[simp] theorem ofRead_bind (r : Cursor → Cursor × Except Failure α) (f : α → ReadStep β)
    (c : Cursor) :
    (ofRead r >>= f) c = (match (r c).2 with | .ok a => f a (r c).1 | .error e => .error e) := by
  rw [bind_apply, ofRead]
  rcases r c with ⟨c', _ | a⟩ <;> rfl

@[simp] theorem map_apply (g : α → β) (x : ReadStep α) (c : Cursor) :
    (g <$> x) c = (match x c with | .ok (a, c') => .ok (g a, c') | .error e => .error e) := by
  show StateT.map g x c = _
  simp only [StateT.map]
  cases x c <;> rfl

end ReadStep

@[simp] theorem Failure.make_cls (cls : FailureClass) (off : Int) (m : String) :
    (Failure.make cls off m).cls = cls := rfl

@[simp] theorem Cursor.failure_cls (c : Cursor) (cls : FailureClass) (m : String) :
    (c.failure cls m).cls = cls := rfl

@[simp] theorem malformedEscape_cls (n : Nat) : (malformedEscape n).cls = .invalidEscape := rfl

@[simp] theorem Code.ofSight_some (b : UInt8) : Code.ofSight (some b) = (b.toNat : Int) := rfl

@[simp] theorem Code.ofSight_none : Code.ofSight none = Code.stop := rfl

namespace Cursor

/-- The settled cursor that has moved onto `i` octets of `t`. -/
def after (t : Array UInt8) (i : Nat) : Cursor := ⟨t, i, false⟩

@[simp] theorem after_input (t : Array UInt8) (i : Nat) : (after t i).input = t := rfl

@[simp] theorem after_seen (t : Array UInt8) (i : Nat) : (after t i).seen = i := rfl

@[simp] theorem after_offset (t : Array UInt8) (i : Nat) : (after t i).offset = i - 1 := rfl

@[simp] theorem start_eq_after (t : Array UInt8) : start t = after t 0 := rfl

/-- What lies ahead of position `i` is the octet there and what lies ahead of `i + 1`. -/
theorem drop_toList_cons {t : Array UInt8} {i : Nat} (h : i < t.size) :
    t.toList.drop i = t[i] :: t.toList.drop (i + 1) := by
  rw [List.drop_eq_getElem_cons (by rw [Array.length_toList]; exact h), Array.getElem_toList]

theorem drop_toList_eq_nil {t : Array UInt8} {i : Nat} (h : t.size ≤ i) : t.toList.drop i = [] :=
  List.drop_eq_nil_of_le (by rw [Array.length_toList]; exact h)

/-- An octet ahead of position `i` is the octet at `i`. -/
theorem drop_toList_eq_cons {t : Array UInt8} {i : Nat} {b : UInt8} {s : Bytes}
    (h : t.toList.drop i = b :: s) :
    ∃ hi : i < t.size, t[i] = b ∧ t.toList.drop (i + 1) = s := by
  have hi : i < t.size := by
    by_contra hn
    rw [drop_toList_eq_nil (Nat.le_of_not_lt hn)] at h
    cases h
  rw [drop_toList_cons hi, List.cons.injEq] at h
  exact ⟨hi, h.1, h.2⟩

theorem current_after {t : Array UInt8} {i : Nat} (h0 : 0 < i) :
    (after t i).current = t[i - 1]? := by
  simp [after, current, Nat.pos_iff_ne_zero.mp h0]

theorem next_after_lt {t : Array UInt8} {i : Nat} (h : i < t.size) :
    (after t i).next = (after t (i + 1), some t[i]) := by
  simp [after, next, current, Nat.not_lt.mpr (Nat.le_of_lt h), h]

theorem next_after_size (t : Array UInt8) :
    (after t t.size).next = (after t (t.size + 1), none) := by
  simp [after, next, current]

@[simp] theorem pushBack_after (t : Array UInt8) (i : Nat) :
    (after t (i + 1)).pushBack = after t i := by
  simp [after, pushBack]

/-- `skipBlanks` moves over the run of blanks ahead, however the cursor stands. -/
theorem skipBlanks_eq (c : Cursor) :
    c.skipBlanks =
      ⟨c.input, c.seen + ((c.input.toList.drop c.seen).takeWhile blank).length, false⟩ := by
  fun_induction skipBlanks c with
  | case1 c h hb ih =>
    rw [ih]
    simp only [drop_toList_cons h, List.takeWhile_cons, blank, hb]
    simp only [↓reduceIte, List.length_cons]
    congr 1
    omega
  | case2 c h hb =>
    simp [drop_toList_cons h, blank, hb, next, pushBack, Nat.not_lt.mpr (Nat.le_of_lt h)]
  | case3 c h =>
    have hd : c.input.toList.drop c.seen = [] := drop_toList_eq_nil (Nat.le_of_not_lt h)
    simp only [hd, List.takeWhile_nil, List.length_nil, Nat.add_zero, next, pushBack]
    by_cases hs : c.input.size < c.seen <;> simp [hs]

/-- The position after the run of blanks that starts at `i`. -/
def blankEnd (t : Array UInt8) (i : Nat) : Nat := i + ((t.toList.drop i).takeWhile blank).length

theorem skipBlanks_after (t : Array UInt8) (i : Nat) :
    (after t i).skipBlanks = after t (blankEnd t i) :=
  skipBlanks_eq (after t i)

theorem le_blankEnd (t : Array UInt8) (i : Nat) : i ≤ blankEnd t i := Nat.le_add_right _ _

theorem blankEnd_le {t : Array UInt8} {i : Nat} (h : i ≤ t.size) : blankEnd t i ≤ t.size := by
  have hl := (List.takeWhile_prefix blank (l := t.toList.drop i)).length_le
  simp only [List.length_drop, Array.length_toList] at hl
  unfold blankEnd
  omega

/-- What follows the longest prefix in a class does not start in the class. -/
theorem head_drop_takeWhile {α : Type} (p : α → Bool) (s : List α) :
    ∀ b ∈ (s.drop (s.takeWhile p).length).head?, p b = false := by
  induction s with
  | nil => simp
  | cons a s ih =>
    by_cases ha : p a = true
    · simpa [List.takeWhile_cons, ha] using ih
    · simp [ha]

/-- The run of blanks ends at an octet that is no blank. -/
theorem not_blank_blankEnd {t : Array UInt8} {i : Nat} (h : blankEnd t i < t.size) :
    blank t[blankEnd t i] = false := by
  have hd : (t.toList.drop i).drop ((t.toList.drop i).takeWhile blank).length =
      t.toList.drop (blankEnd t i) := by
    rw [List.drop_drop, blankEnd, Nat.add_comm]
  have hne := head_drop_takeWhile blank (t.toList.drop i)
  rw [hd, drop_toList_cons h] at hne
  exact hne _ rfl

/-- The blanks `skipBlanks` passes are a run of blanks in the grammar's sense. -/
theorem blanks_takeWhile (s : Bytes) : Blanks s (s.drop (s.takeWhile blank).length) := by
  induction s with
  | nil => exact .nil _
  | cons b s ih =>
    by_cases hb : blank b = true
    · simp only [List.takeWhile_cons, hb, ↓reduceIte, List.length_cons, List.drop_succ_cons]
      exact .cons hb ih
    · simp only [List.takeWhile_cons, hb, Bool.false_eq_true, ↓reduceIte, List.length_nil,
        List.drop_zero]
      exact .nil _

/-- A run of blanks followed by no blank is exactly what `skipBlanks` passes. -/
theorem takeWhile_blank_of_blanks {s r : Bytes} (h : Blanks s r)
    (hr : ∀ b ∈ r.head?, blank b = false) :
    s.drop (s.takeWhile blank).length = r := by
  induction h with
  | nil s =>
    cases s with
    | nil => rfl
    | cons b s => simp [hr b rfl]
  | cons hb _ ih => simp [hb, ih hr]

/-- `runEnd` stops after the run of octets in the class. -/
theorem runEnd_eq (p : Int → Bool) (t : Array UInt8) (j : Nat) :
    runEnd p t j = j + ((t.toList.drop j).takeWhile fun b => p b.toNat).length := by
  fun_induction runEnd p t j with
  | case1 j h hp ih =>
    rw [ih, drop_toList_cons h]
    simp [hp]
    omega
  | case2 j h hp => simp [drop_toList_cons h, hp]
  | case3 j h => simp [drop_toList_eq_nil (Nat.le_of_not_lt h)]

/-- The octets from `i` up to `j` are the first `j - i` octets ahead of `i`. -/
theorem slice_eq (t : Array UInt8) (i j : Nat) : slice t i j = (t.toList.drop i).take (j - i) := by
  simp [slice]

/-- A closing quote found by the scan ends a body of the grammar. -/
theorem scanQuote_closed {t : Array UInt8} {j k : Nat} (h : scanQuote t j = .closed k) :
    j ≤ k ∧ k < t.size ∧
      QuoteBody (t.toList.drop j) (slice t j k) (t.toList.drop (k + 1)) := by
  fun_induction scanQuote t j with
  | case1 j hj hbs hj1 ih =>
    obtain ⟨hle, hk, hbody⟩ := ih h
    refine ⟨by omega, hk, ?_⟩
    rw [drop_toList_cons hj, drop_toList_cons hj1, slice_eq, drop_toList_cons hj,
      drop_toList_cons hj1, hbs, show k - j = (k - (j + 1 + 1)) + 2 by omega]
    rw [slice_eq] at hbody
    exact .escape hbody
  | case2 j hj hbs hj1 => cases h
  | case3 j hj hbs hq =>
    cases h
    rw [drop_toList_cons hj, hq, slice_eq, Nat.sub_self, List.take_zero]
    exact ⟨le_rfl, hj, .close _⟩
  | case4 j hj hbs hq ih =>
    obtain ⟨hle, hk, hbody⟩ := ih h
    refine ⟨by omega, hk, ?_⟩
    rw [drop_toList_cons hj, slice_eq, drop_toList_cons hj, show k - j = (k - (j + 1)) + 1 by omega]
    rw [slice_eq] at hbody
    exact .plain hq hbs hbody
  | case5 j hj => cases h

/-- A body of the grammar ahead of `j` is found by the scan. -/
theorem scanQuote_of_body {t : Array UInt8} {j : Nat} {body r : Bytes}
    (h : QuoteBody (t.toList.drop j) body r) : scanQuote t j = .closed (j + body.length) := by
  generalize hs : t.toList.drop j = s at h
  induction h generalizing j with
  | close r =>
    obtain ⟨hj, hq, -⟩ := drop_toList_eq_cons hs
    rw [scanQuote, dif_pos hj, if_neg (by rw [hq]; decide), if_pos hq]
    rfl
  | plain hq hbs _ ih =>
    obtain ⟨hj, hb, hrest⟩ := drop_toList_eq_cons hs
    rw [scanQuote, dif_pos hj, if_neg (by rw [hb]; exact hbs), if_neg (by rw [hb]; exact hq),
      ih hrest]
    simp only [List.length_cons]
    congr 1
    omega
  | escape _ ih =>
    obtain ⟨hj, hb, hrest⟩ := drop_toList_eq_cons hs
    obtain ⟨hj1, -, hrest1⟩ := drop_toList_eq_cons hrest
    rw [scanQuote, dif_pos hj, if_pos hb, if_pos hj1, ih hrest1]
    simp only [List.length_cons]
    congr 1
    omega

end Cursor

/-! ## Reading steps in closed form -/

open Cursor

/-- Reading a string from its opening quote: the scan for the closing quote decides, and the
content is the body as the options have it. -/
theorem readStringStep_after (o : ReadOptions) {t : Array UInt8} {i : Nat} (h0 : 0 < i)
    (hq : t[i - 1]? = some 0x22) :
    readStringStep o (after t i) =
      match scanQuote t i with
      | .closed j =>
        match stringContent o (slice t i j) with
        | some k => .ok (k, after t (j + 1))
        | none => .error (malformedEscape (i - 1))
      | .unclosed => .error ((after t (t.size + 1)).failure .unterminatedString
          ("unterminated string starting at byte " ++ toString (i - 1)))
      | .unclosedEscape => .error ((after t (t.size + 1)).failure .unterminatedString
          ("unterminated escape in string starting at byte " ++ toString (i - 1))) := by
  have hcur : (after t i).current = some 0x22 := by rw [current_after h0, hq]
  have hsq : (after t i).input = t := rfl
  have hss : (after t i).seen = i := rfl
  cases hs : scanQuote t i with
  | closed j =>
    simp only [readStringStep, ReadStep.offset_bind, ReadStep.ofRead_bind, readQuoted, hcur, hsq,
      hss, hs]
    simp [pushBack, after, stringContent, offset]
    split_ifs
    · rfl
    · cases Escape.unescape (slice t i j) <;> rfl
  | unclosed =>
    simp only [readStringStep, ReadStep.offset_bind, ReadStep.ofRead_bind, readQuoted, hcur, hsq,
      hss, hs]
    simp [after]
  | unclosedEscape =>
    simp only [readStringStep, ReadStep.offset_bind, ReadStep.ofRead_bind, readQuoted, hcur, hsq,
      hss, hs]
    simp [after]

/-- Reading a number from the first octet of its run: the run ends where `runEnd` stops, and the
number reader decides. -/
theorem readNumberStep_after (o : ReadOptions) {t : Array UInt8} {i : Nat} {b : UInt8}
    (h0 : 0 < i) (hb : t[i - 1]? = some b) (hn : numberStart b = true) :
    readNumberStep o (after t i) =
      match readNumber (slice t (i - 1) (runEnd Code.isNumberPart t i)) o.numberOptions with
      | .ok x => .ok (Value.ofNumber x, after t (runEnd Code.isNumberPart t i))
      | .error f => .error (f.placeAt (i - 1)) := by
  have hcode : (after t i).code = b.toNat := by rw [code, current_after h0, hb]; rfl
  have hstart : Code.isNumberStart (after t i).code = true := by rw [hcode]; exact hn
  simp only [readNumberStep, ReadStep.offset_bind, ReadStep.ofRead_bind, readNumeric, hstart,
    Bool.not_true, Bool.false_eq_true, ↓reduceIte, after_input, after_seen]
  simp only [ReadStep.modify_bind]
  simp only [after, pushBack, Bool.false_eq_true, ↓reduceIte, Nat.add_sub_cancel, offset]
  cases readNumber (slice t (i - 1) (runEnd Code.isNumberPart t i)) o.numberOptions <;> rfl

/-- Reading a literal from its first letter: the run of letters must end before the input does,
and must spell a literal. -/
theorem readLiteralStep_after {t : Array UInt8} {i : Nat} {b : UInt8} (h0 : 0 < i)
    (hb : t[i - 1]? = some b) (hl : letter b = true) :
    readLiteralStep (after t i) =
      if runEnd Code.isLetter t i < t.size then
        match literalValue (slice t (i - 1) (runEnd Code.isLetter t i)) with
        | some v => .ok (v, after t (runEnd Code.isLetter t i))
        | none => .error (Failure.make .unknownLiteral ((i - 1 : Nat) : Int)
            ("unknown literal " ++ Quoted.quote (slice t (i - 1) (runEnd Code.isLetter t i))))
      else .error ((after t (runEnd Code.isLetter t i + 1)).failure .unterminatedLiteral
        ("literal " ++ Quoted.quote (slice t (i - 1) t.size) ++ " runs to end of input")) := by
  have hcode : (after t i).code = b.toNat := by rw [code, current_after h0, hb]; rfl
  have hstart : Code.isLetter (after t i).code = true := by rw [hcode]; exact hl
  by_cases hk : runEnd Code.isLetter t i < t.size
  · simp only [readLiteralStep, ReadStep.offset_bind, ReadStep.ofRead_bind, readLetters, hstart,
      Bool.not_true, Bool.false_eq_true, ↓reduceIte, after_input, after_seen, hk,
      ReadStep.modify_bind]
    simp only [after, pushBack, Bool.false_eq_true, ↓reduceIte, Nat.add_sub_cancel, offset,
      literalValue]
    split_ifs <;> rfl
  · simp only [readLiteralStep, ReadStep.offset_bind, ReadStep.ofRead_bind, readLetters, hstart,
      Bool.not_true, Bool.false_eq_true, ↓reduceIte, after_input, after_seen, hk]
    rfl

end ExactJson
