import Mathlib
import ExactJson.Proofs.PhaseText
import ExactJson.Proofs.NoInternalFailure

/-!
# Reading steps against the tokens of the grammar

Each step of the reader started on a settled cursor `after t i`, whose text ahead is
`t.toList.drop i`, against the token of the grammar that this text starts with, in both
directions: what a step reads when it succeeds is that token (soundness), and a token ahead is
what the step reads (completeness). The steps are the move of the table, `Phase.advance`, and the
readers of strings, numbers and literals; runs of blanks, digits and letters are maximal on both
sides, which is what makes the two agree.
-/

namespace ExactJson

open Cursor Grammar

/-! ## Texts ahead of a position -/

section Ahead

variable {t : Array UInt8}

/-- The cursor `after t i` stands on a quote. -/
def OnQuote (t : Array UInt8) (i : Nat) : Prop := 0 < i ∧ t[i - 1]? = some 0x22

theorem drop_toList_inj {i j : Nat} (hi : i ≤ t.size) (hj : j ≤ t.size)
    (h : t.toList.drop i = t.toList.drop j) : i = j := by
  have hl := congrArg List.length h
  simp only [List.length_drop, Array.length_toList] at hl
  omega

/-- What follows blanks ahead of `i` lies ahead of a later position. -/
theorem drop_of_blanks {i : Nat} {r : Bytes} (h : Blanks (t.toList.drop i) r) :
    ∃ m, i ≤ m ∧ r = t.toList.drop m := by
  obtain ⟨m, rfl⟩ := h.eq_drop
  exact ⟨i + m, by omega, by rw [List.drop_drop]⟩

theorem blanks_blankEnd (t : Array UInt8) (i : Nat) :
    Blanks (t.toList.drop i) (t.toList.drop (blankEnd t i)) := by
  have h := blanks_takeWhile (t.toList.drop i)
  rwa [List.drop_drop, ← blankEnd] at h

/-- Blanks ahead of `i` up to a text that starts with no blank are all the blanks there. -/
theorem blankEnd_of_blanks {i : Nat} {r : Bytes} (h : Blanks (t.toList.drop i) r)
    (hr : ∀ b ∈ r.head?, blank b = false) : t.toList.drop (blankEnd t i) = r := by
  rw [← takeWhile_blank_of_blanks h hr, List.drop_drop, blankEnd]

/-- A quote behind blanks ahead of `i`, with `k` just past it, puts `after t k` on the quote. -/
theorem onQuote_of_blanks {i k : Nat} (hk : k ≤ t.size)
    (h : Blanks (t.toList.drop i) (0x22 :: t.toList.drop k)) : OnQuote t k := by
  obtain ⟨m, -, hm⟩ := drop_of_blanks h
  obtain ⟨hlt, hq, hnext⟩ := drop_toList_eq_cons hm.symm
  obtain rfl : m + 1 = k := drop_toList_inj hlt hk hnext
  exact ⟨by omega, by simp [hlt, hq]⟩

theorem takeWhile_append_drop {α : Type} (P : α → Bool) (l : List α) :
    l.takeWhile P ++ l.drop (l.takeWhile P).length = l := by
  induction l with
  | nil => rfl
  | cons a l ih => by_cases h : P a <;> simp [h, ih]

theorem runEnd_le (P : Int → Bool) {i : Nat} (hi : i ≤ t.size) : runEnd P t i ≤ t.size := by
  have hl := (List.takeWhile_prefix (fun c : UInt8 => P c.toNat) (l := t.toList.drop i)).length_le
  simp only [List.length_drop, Array.length_toList] at hl
  rw [runEnd_eq]
  omega

/-- A run of octets `P` admits stops at the first octet it does not admit. -/
theorem takeWhile_run {α : Type} (P : α → Bool) {run r : List α}
    (hrun : ∀ c ∈ run, P c = true) (hr : ∀ c ∈ r.head?, P c = false) :
    (run ++ r).takeWhile P = run := by
  induction run with
  | nil =>
    cases r with
    | nil => rfl
    | cons c r => simp [hr c rfl]
  | cons c run ih =>
    simp [hrun c (by simp), ih (fun c hc => hrun c (by simp [hc]))]

/-- The run of octets that `P` admits after the octet at `i - 1`: the text ahead of `i - 1` is
that octet, the run, and the text ahead of `runEnd P t i`, where the run is maximal. -/
theorem run_text (P : Int → Bool) {i : Nat} {b : UInt8} (h0 : 0 < i) (hb : t[i - 1]? = some b) :
    t.toList.drop (i - 1) =
        b :: (t.toList.drop i).takeWhile (fun c => P c.toNat) ++ t.toList.drop (runEnd P t i) ∧
      slice t (i - 1) (runEnd P t i) = b :: (t.toList.drop i).takeWhile (fun c => P c.toNat) ∧
      (∀ c ∈ (t.toList.drop i).takeWhile (fun c => P c.toNat), P c.toNat = true) ∧
      ∀ c ∈ (t.toList.drop (runEnd P t i)).head?, P c.toNat = false := by
  have hlt : i - 1 < t.size := octet_index_lt hb
  have hcons : t.toList.drop (i - 1) = b :: t.toList.drop i := by
    rw [drop_toList_cons hlt, show i - 1 + 1 = i by omega]
    simp_all
  have hrest : t.toList.drop (runEnd P t i) =
      (t.toList.drop i).drop ((t.toList.drop i).takeWhile fun c => P c.toNat).length := by
    rw [runEnd_eq, List.drop_drop, Nat.add_comm]
  have hsplit : t.toList.drop (i - 1) =
      b :: (t.toList.drop i).takeWhile (fun c => P c.toNat) ++ t.toList.drop (runEnd P t i) := by
    rw [hcons, hrest, List.cons_append, takeWhile_append_drop]
  refine ⟨hsplit, ?_, fun c hc => List.mem_takeWhile_imp (p := fun c : UInt8 => P c.toNat) hc,
    ?_⟩
  · have hlen : runEnd P t i - (i - 1) =
        ((t.toList.drop i).takeWhile fun c => P c.toNat).length + 1 := by
      rw [runEnd_eq]; omega
    rw [slice_eq, hsplit, hlen, List.cons_append, List.take_succ_cons, List.take_left]
  · rw [hrest]
    exact head_drop_takeWhile (fun c : UInt8 => P c.toNat) _

end Ahead

/-! ## The move of the table -/

section Move

variable {t : Array UInt8}

/-- The codes of the edges are no blanks. -/
theorem blank_of_edge {p q : Phase} {b : UInt8} (h : (p, (b.toNat : Int), q) ∈ Phase.edges) :
    blank b = false := by
  rcases mem_edges.mp h with ⟨-, rfl, -⟩ | ⟨-, rfl, -⟩ | ⟨-, rfl, -⟩ | ⟨-, rfl, -⟩ |
    ⟨-, rfl, -⟩ | ⟨-, rfl, -⟩ | ⟨-, rfl, -⟩ | ⟨-, rfl, -⟩ | ⟨-, rfl, -⟩ | ⟨-, rfl, -⟩ |
    ⟨-, rfl, -⟩ <;> decide

/-- What a move of the table passes over is a move of the grammar. -/
theorem Phase.advance_sound {p q : Phase} {i : Nat} (hi : i ≤ t.size) {c : Cursor}
    (h : p.advance (after t i) = .ok (q, c)) :
    ∃ k, c = after t k ∧ k ≤ t.size ∧
      AdvanceText p q (t.toList.drop i) (t.toList.drop k) := by
  rw [Phase.advance_after p hi] at h
  have hb := blanks_blankEnd t i
  split_ifs at h with hlt
  · rcases hs : p.step t[blankEnd t i].toNat (blankEnd t i) with f | m <;> rw [hs] at h
    · cases h
    · simp only [Except.ok.injEq, Prod.mk.injEq] at h
      obtain ⟨rfl, rfl⟩ := h
      rcases Phase.step_ok hs with ⟨hg, he⟩ | ⟨hg, rfl, ht, hne⟩
      · rw [drop_toList_cons hlt] at hb
        exact ⟨blankEnd t i + 1, by simp [hg], hlt, .inl ⟨_, he, hb⟩⟩
      · -- the wildcard gives the octet back, and it is no blank and no `]`
        refine ⟨blankEnd t i, by simp [hg], hlt.le, .inr ⟨rfl, ht, hb, ?_⟩⟩
        rw [drop_toList_cons hlt]
        refine fun b hb' => ⟨?_, fun h5 => hne ?_⟩
        · simp only [List.head?_cons, Option.mem_def, Option.some.injEq] at hb'
          rw [← hb']
          exact not_blank_blankEnd hlt
        · simp_all
  · -- the blanks run to the end, where only the wildcard moves
    have hend : blankEnd t i = t.size := Nat.le_antisymm (blankEnd_le hi) (Nat.le_of_not_lt hlt)
    rcases hs : p.step Code.stop t.size with f | m <;> rw [hs] at h
    · cases h
    · rcases Phase.step_ok hs with ⟨-, he⟩ | ⟨hg, rfl, ht, -⟩
      · exact absurd (Phase.edge_code_nonneg he) (by simp [Code.stop])
      · simp only [hg, ↓reduceIte, Except.ok.injEq, Prod.mk.injEq] at h
        obtain ⟨rfl, rfl⟩ := h
        refine ⟨t.size, rfl, le_rfl, .inr ⟨rfl, ht, hend ▸ hb, ?_⟩⟩
        simp [drop_toList_eq_nil (le_refl t.size)]

/-- A move of the grammar ahead of the cursor is the move the table makes. -/
theorem Phase.advance_complete {p q : Phase} {i k : Nat} (hi : i ≤ t.size) (hk : k ≤ t.size)
    (h : AdvanceText p q (t.toList.drop i) (t.toList.drop k)) :
    p.advance (after t i) = .ok (q, after t k) := by
  rw [Phase.advance_after p hi]
  rcases h with ⟨b, he, hb⟩ | ⟨rfl, rfl, hb, hhead⟩
  · have hj := blankEnd_of_blanks hb (by simp [blank_of_edge he])
    obtain ⟨hlt, hbj, hnext⟩ := drop_toList_eq_cons hj
    obtain rfl : blankEnd t i + 1 = k := drop_toList_inj (by omega) hk hnext
    rw [dif_pos hlt, hbj, Phase.step_of_edge _ he]
    rfl
  · have hj := blankEnd_of_blanks hb (fun b hb' => (hhead b hb').1)
    obtain rfl : blankEnd t i = k := drop_toList_inj (blankEnd_le hi) hk hj
    by_cases hlt : blankEnd t i < t.size
    · have hne : (t[blankEnd t i].toNat : Int) ≠ 0x5D := by
        have h5 := (hhead t[blankEnd t i] (by simp [drop_toList_cons hlt])).2
        intro h
        exact h5 (UInt8.toNat_inj.mp (by simp; omega))
      rw [dif_pos hlt, Phase.step_arrayStart _ hne]
      rfl
    · have hend : blankEnd t i = t.size := Nat.le_antisymm (blankEnd_le hi) (Nat.le_of_not_lt hlt)
      rw [dif_neg hlt, Phase.step_arrayStart _ (by simp [Code.stop]), hend]
      rfl

/-- A move to `propertyName` passes over a quote, and leaves the cursor on it. -/
theorem onQuote_of_advanceText {p : Phase} {i k : Nat} (hk : k ≤ t.size)
    (h : AdvanceText p .propertyName (t.toList.drop i) (t.toList.drop k)) : OnQuote t k := by
  rcases h with ⟨b, he, hb⟩ | ⟨-, h, -⟩
  · have hq : b = 0x22 := by
      rcases mem_edges.mp he with ⟨-, -, h⟩ | ⟨-, -, h⟩ | ⟨-, -, h⟩ | ⟨-, h, -⟩ |
        ⟨-, h, -⟩ | ⟨-, -, h⟩ | ⟨-, -, h⟩ | ⟨-, -, h⟩ | ⟨-, -, h⟩ | ⟨-, -, h⟩ |
        ⟨-, -, h⟩ <;>
        first | exact h | cases h
    subst hq
    exact onQuote_of_blanks hk hb
  · cases h

end Move

/-! ## Strings, numbers and literals -/

section Scalars

variable (o : ReadOptions) {t : Array UInt8}

theorem Grammar.QuoteBody.eq_append {s body r : Bytes} (h : QuoteBody s body r) :
    s = body ++ 0x22 :: r := by
  induction h with
  | close r => rfl
  | plain _ _ _ ih => simp [ih]
  | escape _ ih => simp [ih]

/-- A string the reader reads is a string of the grammar. -/
theorem readStringStep_sound {i : Nat} (hq : OnQuote t i) {k : Bytes} {c : Cursor}
    (h : readStringStep o (after t i) = .ok (k, c)) :
    ∃ j, c = after t j ∧ j ≤ t.size ∧
      StringText o (0x22 :: t.toList.drop i) k (t.toList.drop j) := by
  rw [readStringStep_after o hq.1 hq.2] at h
  cases hs : scanQuote t i with
  | closed j =>
    obtain ⟨-, hj, hbody⟩ := scanQuote_closed hs
    cases hc : stringContent o (slice t i j) with
    | none => simp [hs, hc] at h
    | some k' =>
      simp only [hs, hc, Except.ok.injEq, Prod.mk.injEq] at h
      obtain ⟨rfl, rfl⟩ := h
      exact ⟨j + 1, rfl, hj, .mk hbody hc⟩
  | unclosed => simp [hs] at h
  | unclosedEscape => simp [hs] at h

/-- A string of the grammar after the quote the cursor stands on is what the reader reads. -/
theorem readStringStep_complete {i : Nat} (hq : OnQuote t i) {k r : Bytes}
    (h : StringText o (0x22 :: t.toList.drop i) k r) :
    ∃ j, j ≤ t.size ∧ t.toList.drop j = r ∧
      readStringStep o (after t i) = .ok (k, after t j) := by
  obtain ⟨body, hbody, hc⟩ :
      ∃ body, QuoteBody (t.toList.drop i) body r ∧ stringContent o body = some k := by
    cases h with | mk hbody hc => exact ⟨_, hbody, hc⟩
  have happ := hbody.eq_append
  have hlen : i + body.length + 1 ≤ t.size := by
    have hl := congrArg List.length happ
    simp only [List.length_drop, Array.length_toList, List.length_append, List.length_cons] at hl
    omega
  have hslice : slice t i (i + body.length) = body := by
    rw [slice_eq, happ, Nat.add_sub_cancel_left, List.take_left]
  have hrest : t.toList.drop (i + body.length + 1) = r := by
    rw [Nat.add_assoc, ← List.drop_drop, happ]
    simp [List.drop_append]
  refine ⟨i + body.length + 1, hlen, hrest, ?_⟩
  rw [readStringStep_after o hq.1 hq.2, scanQuote_of_body hbody]
  simp only [hslice, hc]

/-- A number the reader reads is a number of the grammar, from the octet it starts on. -/
theorem readNumberStep_sound {i : Nat} {b : UInt8} (h0 : 0 < i) (hb : t[i - 1]? = some b)
    (hn : numberStart b = true) {x : Value} {c : Cursor}
    (h : readNumberStep o (after t i) = .ok (x, c)) :
    ∃ j y, c = after t j ∧ j ≤ t.size ∧ x = Value.ofNumber y ∧
      NumberText o (t.toList.drop (i - 1)) y (t.toList.drop j) := by
  rw [readNumberStep_after o h0 hb hn] at h
  obtain ⟨hsplit, hslice, hrun, hmax⟩ := run_text Code.isNumberPart h0 hb
  cases hr : readNumber (slice t (i - 1) (runEnd Code.isNumberPart t i)) o.numberOptions with
  | error f => simp [hr] at h
  | ok y =>
    simp only [hr, Except.ok.injEq, Prod.mk.injEq] at h
    obtain ⟨rfl, rfl⟩ := h
    refine ⟨_, y, rfl, runEnd_le _ (by have := octet_index_lt hb; omega), rfl, ?_⟩
    rw [hsplit]
    exact .mk hn hrun hmax (hslice ▸ hr)

/-- A number of the grammar from the octet the cursor stands on is what the reader reads. -/
theorem readNumberStep_complete {i : Nat} {b : UInt8} (h0 : 0 < i) (hb : t[i - 1]? = some b)
    {y : Number} {r : Bytes} (h : NumberText o (t.toList.drop (i - 1)) y r) :
    ∃ j, j ≤ t.size ∧ t.toList.drop j = r ∧
      readNumberStep o (after t i) = .ok (Value.ofNumber y, after t j) := by
  obtain ⟨hsplit, hslice, hW, hmax⟩ := run_text Code.isNumberPart h0 hb
  generalize hd : t.toList.drop (i - 1) = s at h
  cases h with
  | mk hn hrun hend hread =>
    rw [hsplit] at hd
    simp only [List.cons_append, List.cons.injEq] at hd
    obtain ⟨rfl, hd⟩ := hd
    -- both sides split the text into a maximal run and what follows it
    replace hW := takeWhile_run (fun c : UInt8 => Code.isNumberPart c.toNat) hW hmax
    rw [hd, takeWhile_run (fun c : UInt8 => Code.isNumberPart c.toNat) hrun hend] at hW
    rw [← hW, List.append_cancel_left_eq] at hd
    refine ⟨_, runEnd_le _ (by have := octet_index_lt hb; omega), hd, ?_⟩
    rw [readNumberStep_after o h0 hb hn, hslice, ← hW, hread]

/-- A literal the reader reads is a literal of the grammar, from the octet it starts on. -/
theorem readLiteralStep_sound {i : Nat} {b : UInt8} (h0 : 0 < i) (hb : t[i - 1]? = some b)
    (hl : literalStart b = true) {v : Value} {c : Cursor}
    (h : readLiteralStep (after t i) = .ok (v, c)) :
    ∃ j, c = after t j ∧ j ≤ t.size ∧
      LiteralText (t.toList.drop (i - 1)) v (t.toList.drop j) := by
  rw [readLiteralStep_after h0 hb (letter_of_literalStart hl)] at h
  obtain ⟨hsplit, hslice, hrun, hmax⟩ := run_text Code.isLetter h0 hb
  split_ifs at h with hk
  cases hv : literalValue (slice t (i - 1) (runEnd Code.isLetter t i)) with
  | none => simp [hv] at h
  | some v' =>
    simp only [hv, Except.ok.injEq, Prod.mk.injEq] at h
    obtain ⟨rfl, rfl⟩ := h
    refine ⟨_, rfl, hk.le, ?_⟩
    rw [hsplit]
    exact .mk hl hrun hmax (hslice ▸ hv)

/-- A literal of the grammar from the octet the cursor stands on, with text after it, is what
the reader reads. -/
theorem readLiteralStep_complete {i : Nat} {b : UInt8} (h0 : 0 < i) (hb : t[i - 1]? = some b)
    {v : Value} {r : Bytes} (h : LiteralText (t.toList.drop (i - 1)) v r) (hr : r ≠ []) :
    ∃ j, j ≤ t.size ∧ t.toList.drop j = r ∧
      readLiteralStep (after t i) = .ok (v, after t j) := by
  obtain ⟨hsplit, hslice, hW, hmax⟩ := run_text Code.isLetter h0 hb
  generalize hd : t.toList.drop (i - 1) = s at h
  cases h with
  | mk hl hrun hend hlit =>
    rw [hsplit] at hd
    simp only [List.cons_append, List.cons.injEq] at hd
    obtain ⟨rfl, hd⟩ := hd
    replace hW := takeWhile_run (fun c : UInt8 => Code.isLetter c.toNat) hW hmax
    rw [hd, takeWhile_run (fun c : UInt8 => Code.isLetter c.toNat) hrun hend] at hW
    rw [← hW, List.append_cancel_left_eq] at hd
    -- text follows the run, so the run ends before the end of the input
    have hk : runEnd Code.isLetter t i < t.size := by
      by_contra hn
      exact hr (hd ▸ drop_toList_eq_nil (Nat.le_of_not_lt hn))
    refine ⟨_, hk.le, hd, ?_⟩
    rw [readLiteralStep_after h0 hb (letter_of_literalStart hl), if_pos hk, hslice, ← hW, hlit]

end Scalars

end ExactJson
