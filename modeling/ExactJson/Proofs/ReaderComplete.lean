import Mathlib
import ExactJson.Proofs.ReaderSound

/-!
# The reader accepts every document of the grammar

Completeness of the reader against `Grammar`: from a phase reached with its stack, a text that
the phase expects is read by the walk, which builds its value and stops where the text stops;
or else the walk runs out of fuel. The four functions are again taken together by recursion on
the fuel, and each turn is found in the text by `expects_iff_turn`. Running out of fuel is then
ruled out by the budget of `readContainer_lands`, and with soundness this gives the language of
the reader: a document is read, and read as `v`, exactly when it fits the size limit and the
grammar derives it as `v` within the depth limit.
-/

namespace ExactJson

open Cursor Grammar

/-- What a step from a settled cursor does with a text: it reads `a` and stops at the position
whose text ahead is `r`, or it runs out of fuel. -/
def Yields {α : Type} (t : Array UInt8) (x : Except Failure (α × Cursor)) (a : α) (r : Bytes) :
    Prop :=
  (∃ j, j ≤ t.size ∧ t.toList.drop j = r ∧ x = .ok (a, after t j)) ∨
    ∃ f, x = .error f ∧ f.cls = .internalError

/-! ## First octets of the tokens -/

section Tokens

variable {o : ReadOptions} {b : UInt8} {u r : Bytes}

theorem Grammar.StringText.start {k : Bytes} (h : StringText o (b :: u) k r) : b = 0x22 := by
  cases h
  rfl

theorem Grammar.NumberText.start {y : Number} (h : NumberText o (b :: u) y r) :
    numberStart b = true := by
  generalize hs : b :: u = s at h
  cases h with
  | mk hn _ _ _ =>
    simp only [List.cons_append, List.cons.injEq] at hs
    exact hs.1 ▸ hn

theorem Grammar.LiteralText.start {v : Value} (h : LiteralText (b :: u) v r) :
    literalStart b = true := by
  generalize hs : b :: u = s at h
  cases h with
  | mk hl _ _ _ =>
    simp only [List.cons_append, List.cons.injEq] at hs
    exact hs.1 ▸ hl

theorem numberStart_of_literalStart (h : literalStart b = true) : numberStart b = false := by
  simp only [literalStart, Code.isLiteralStart, Bool.or_eq_true, decide_eq_true_eq] at h
  simp only [numberStart, Code.isNumberStart, Code.isDigit, Bool.or_eq_false_iff,
    Bool.and_eq_false_imp, decide_eq_false_iff_not, decide_eq_true_eq]
  omega

/-- After a move of the grammar, the text left lies ahead of a position within the input. -/
theorem exists_drop_of_advanceText {t : Array UInt8} {p q : Phase} {i : Nat}
    (h : AdvanceText p q (t.toList.drop i) u) : ∃ k, k ≤ t.size ∧ u = t.toList.drop k := by
  rcases h with ⟨b, -, hb⟩ | ⟨-, -, hb, -⟩
  · obtain ⟨m, -, hm⟩ := drop_of_blanks hb
    obtain ⟨hlt, -, hnext⟩ := drop_toList_eq_cons hm.symm
    exact ⟨m + 1, hlt, hnext.symm⟩
  · obtain ⟨m, -, rfl⟩ := drop_of_blanks hb
    by_cases hm : m ≤ t.size
    · exact ⟨m, hm, rfl⟩
    · exact ⟨t.size, le_rfl, by
        rw [drop_toList_eq_nil (by omega), drop_toList_eq_nil (le_refl t.size)]⟩

end Tokens

/-! ## The walk reads what its phase expects -/

section Complete

variable (o : ReadOptions)

theorem Yields.out_of_fuel {α : Type} {t : Array UInt8} {a : α} {r : Bytes} (c : Cursor)
    (m : String) : Yields t (.error (c.failure .internalError m)) a r :=
  .inr ⟨_, rfl, by simp⟩

mutual

/-- Blanks and a container of the grammar are read as a container, or the fuel runs out. -/
theorem readContainer_complete {t : Array UInt8} {i : Nat} (hi : i ≤ t.size) (d : Nat) :
    ∀ {F : Nat} {v : Value} {r : Bytes},
      Expects o (o.depthLimit - d) .init [] (t.toList.drop i) v r →
        Yields t (readContainer o d F (after t i)) v r
  | 0, _, _, _ => Yields.out_of_fuel _ _
  | F + 1, _, _, h => by
    rw [readContainer_succ]
    exact walk_complete hi d (p := .init) rfl (by simp) h
termination_by structural F _ _ _ => F

/-- What phase `p` expects is read by the walk from `p`, or the fuel runs out. -/
theorem walk_complete {t : Array UInt8} {i : Nat} (hi : i ≤ t.size) (d : Nat) {p : Phase}
    {s : List Pending} (hs : p.Arrives s) (hq : p = .propertyName → OnQuote t i) :
    ∀ {F : Nat} {v : Value} {r : Bytes},
      Expects o (o.depthLimit - d) p s (t.toList.drop i) v r →
        Yields t (walk o d p s F (after t i)) v r
  | 0, _, _, _ => Yields.out_of_fuel _ _
  | F + 1, v, r, h => by
    cases hp : p.isEnd with
    | true =>
      obtain ⟨hres, hr⟩ := (expects_end hp hs (i - 1)).mp h
      rw [walk_end o d hp, after_offset, hres]
      exact .inl ⟨i, hi, hr, rfl⟩
    | false =>
      obtain ⟨s', u₁, q, u₂, hent, hadv, hexp⟩ := (expects_iff_turn hp hs).mp h
      -- a value is read only where a comma or a closing bracket follows, so text is left
      have hne : p = .propertyValue ∨ p = .nextElement → u₁ ≠ [] := by
        rintro hpv
        obtain ⟨b, -, hb⟩ := hadv.edge (by rcases hpv with rfl | rfl <;> decide)
        exact hb.ne_nil
      rw [walk_step o d hp]
      rcases enterPhase_complete hi d hs hq hp hent hne (F := F) with
        ⟨j, hj, rfl, he⟩ | ⟨f, he, hf⟩
      · obtain ⟨k, hk, rfl⟩ := exists_drop_of_advanceText hadv
        have hs' := Phase.arrives_of_advance (Phase.advance_complete hj hk hadv)
          (Phase.holds_of_enterPhase he hs)
        have hq' : q = .propertyName → OnQuote t k := by
          rintro rfl
          exact onQuote_of_advanceText hk hadv
        rw [he]
        simp only [Phase.advance_complete hj hk hadv]
        exact walk_complete hk d hs' hq' hexp
      · rw [he]
        exact .inr ⟨f, rfl, hf⟩
termination_by structural F _ _ _ => F

/-- What the grammar has at a phase is read by its entry action, or the fuel runs out. -/
theorem enterPhase_complete {t : Array UInt8} {i : Nat} (hi : i ≤ t.size) (d : Nat) {p : Phase}
    {s : List Pending} (hs : p.Arrives s) (hq : p = .propertyName → OnQuote t i)
    (hp : p.isEnd = false) :
    ∀ {F : Nat} {s' : List Pending} {u : Bytes},
      Entered o (o.depthLimit - d) p s (t.toList.drop i) s' u →
        (p = .propertyValue ∨ p = .nextElement → u ≠ []) →
        Yields t (enterPhase o d p s F (after t i)) s' u
  | 0, _, _, _, _ => Yields.out_of_fuel _ _
  | F + 1, s', u, h, hne => by
    cases p with
    | init | nextProperty =>
      rw [enterPhase_idle o d (by simp)]
      first
      | (rw [show s = [] from hs] at h ⊢
         obtain ⟨rfl, rfl⟩ := h
         exact .inl ⟨i, hi, rfl, rfl⟩)
      | (obtain ⟨ms, rfl⟩ := hs
         obtain ⟨rfl, rfl⟩ := h
         exact .inl ⟨i, hi, rfl, rfl⟩)
    | objectStart | arrayStart =>
      first | rw [enterPhase_objectStart] | rw [enterPhase_arrayStart]
      rw [show s = [] from hs] at h ⊢
      obtain ⟨rfl, rfl⟩ := h
      exact .inl ⟨i, hi, rfl, rfl⟩
    | propertyName =>
      obtain ⟨ms, rfl⟩ := hs
      obtain ⟨k, hk, rfl⟩ := h
      obtain ⟨j, hj, rfl, hr⟩ := readStringStep_complete o (hq rfl) hk
      rw [enterPhase_propertyName, hr]
      exact .inl ⟨j, hj, rfl, rfl⟩
    | propertyValue | nextElement =>
      first
      | (obtain ⟨k, ms, rfl⟩ := hs; obtain ⟨x, u₁, hb, hx, rfl⟩ := h
         rw [enterPhase_value o d (.inl rfl)])
      | (obtain ⟨es, rfl⟩ := hs; obtain ⟨x, u₁, hb, hx, rfl⟩ := h
         rw [enterPhase_value o d (.inr rfl)])
      rcases readValueStep_complete hi d hb hx (hne (by simp)) (F := F) with
        ⟨j, hj, rfl, hr⟩ | ⟨f, hr, hf⟩
      · rw [hr]
        exact .inl ⟨j, hj, rfl, rfl⟩
      · rw [hr]
        exact .inr ⟨f, rfl, hf⟩
    | objectEnd | arrayEnd => simp [Phase.isEnd] at hp
termination_by structural F _ _ _ _ => F

/-- Blanks and a value of the grammar, with text after it, are read as that value, or the fuel
runs out. -/
theorem readValueStep_complete {t : Array UInt8} {i : Nat} (hi : i ≤ t.size) (d : Nat) :
    ∀ {F : Nat} {x : Value} {u r : Bytes}, Blanks (t.toList.drop i) u →
      ValueText o (o.depthLimit - d) u x r → r ≠ [] →
        Yields t (readValueStep o d F (after t i)) x r
  | 0, _, _, _, _, _, _ => Yields.out_of_fuel _ _
  | F + 1, x, u, r, hb, hx, hr => by
    obtain ⟨b, u', rfl, hbl, -⟩ := hx.head
    have hj := blankEnd_of_blanks hb (by simp [hbl])
    obtain ⟨hlt, htb, hrest⟩ := drop_toList_eq_cons hj
    have hat : t[blankEnd t i + 1 - 1]? = some b := by simp [hlt, htb]
    rw [readValueStep_after o d hi, dif_pos hlt, htb]
    cases hx with
    | string hs =>
      obtain rfl := hs.start
      obtain ⟨j, hj, rfl, hr'⟩ := readStringStep_complete o ⟨by omega, hat⟩ (hrest ▸ hs)
      rw [if_pos rfl, ReadStep.map_apply, hr']
      exact .inl ⟨j, hj, rfl, rfl⟩
    | number hn =>
      have hstart := hn.start
      have hq : b ≠ 0x22 := by rintro rfl; exact absurd hstart (by decide)
      obtain ⟨j, hj, rfl, hr'⟩ :=
        readNumberStep_complete o (by omega) hat (by simpa [hj] using hn)
      rw [if_neg hq, if_pos hstart, hr']
      exact .inl ⟨j, hj, rfl, rfl⟩
    | literal hl =>
      have hstart := hl.start
      have hq : b ≠ 0x22 := by rintro rfl; exact absurd hstart (by decide)
      obtain ⟨j, hj, rfl, hr'⟩ :=
        readLiteralStep_complete (by omega) hat (by simpa [hj] using hl) hr
      rw [if_neg hq, if_neg (by simp [numberStart_of_literalStart hstart]), if_pos hstart, hr']
      exact .inl ⟨j, hj, rfl, rfl⟩
    | container hc =>
      -- a container needs depth left, which is the depth the reader checks
      have hd : ¬o.depthLimit ≤ d := by
        intro hd
        rw [Nat.sub_eq_zero_of_le hd] at hc
        cases hc
      have hbr : b = 0x7B ∨ b = 0x5B := by
        obtain ⟨u₀, h | h⟩ := hc.head <;> simp only [List.cons.injEq] at h <;> simp [h.1]
      have hq : b ≠ 0x22 := by rcases hbr with rfl | rfl <;> decide
      have hn : numberStart b = false := by rcases hbr with rfl | rfl <;> decide
      have hl : literalStart b = false := by rcases hbr with rfl | rfl <;> decide
      rw [if_neg hq, if_neg (by simp [hn]), if_neg (by simp [hl]), if_pos hbr, if_neg hd]
      apply readContainer_complete hlt.le (d + 1)
      refine ⟨_, .nil _, ?_⟩
      rw [hj, show o.depthLimit - (d + 1) + 1 = o.depthLimit - d by omega]
      exact hc
termination_by structural F _ _ _ _ _ _ => F

end

end Complete

/-! ## Documents -/

theorem ReadOptions.depthLimit_pos (o : ReadOptions) : 0 < o.depthLimit := by
  unfold ReadOptions.depthLimit
  split_ifs <;> simp [ReadOptions.defaultMaxDepth]
  omega

/-- After a document, the next code past the blanks is the end of the input exactly when only
blanks are left. -/
theorem trailing_stop {t : Array UInt8} {j : Nat} (hj : j ≤ t.size) :
    Code.ofSight (after t j).skipBlanks.next.2 = Code.stop ↔ Blanks (t.toList.drop j) [] := by
  rw [skipBlanks_after]
  constructor
  · intro h
    by_cases hlt : blankEnd t j < t.size
    · -- an octet's code is never the code of the end
      rw [next_after_lt hlt, Code.ofSight_some] at h
      simp [Code.stop] at h
    · have hb := blanks_blankEnd t j
      rwa [Nat.le_antisymm (blankEnd_le hj) (Nat.le_of_not_lt hlt),
        drop_toList_eq_nil (le_refl t.size)] at hb
  · intro h
    have he := blankEnd_of_blanks h (by simp)
    rw [← drop_toList_eq_nil (le_refl t.size)] at he
    rw [drop_toList_inj (blankEnd_le hj) le_rfl he, next_after_size, Code.ofSight_none]

/-- What the reader accepts is a document of the grammar within the size limit, standing for
the value read. -/
theorem readDocument_sound {o : ReadOptions} {t : Array UInt8} {v : Value}
    (h : readDocument o t = .ok v) : t.size ≤ o.sizeLimit ∧ DocumentText o t.toList v := by
  have hdepth : o.depthLimit - 1 + 1 = o.depthLimit := Nat.sub_add_cancel o.depthLimit_pos
  have hs : ¬o.sizeLimit < t.size := by
    intro hs
    simp [readDocument, hs] at h
  rw [readDocument_within o hs] at h
  rcases hr : readContainer o 1 (fuelFor t.size) (after t 0) with f | ⟨v', c⟩ <;>
    simp only [hr, reduceCtorEq] at h
  obtain ⟨j, rfl, hj, u, hu, hc⟩ := readContainer_sound o (Nat.zero_le _) 1 hr
  split_ifs at h with htrail
  obtain rfl : v' = v := by simpa using h
  refine ⟨Nat.le_of_not_lt hs, u, _, by simpa using hu, by rwa [hdepth] at hc, ?_⟩
  exact (trailing_stop hj).mp (not_not.mp htrail)

/-- A document of the grammar within the size limit is read as the value it stands for. -/
theorem readDocument_complete {o : ReadOptions} {t : Array UInt8} {v : Value}
    (hsize : t.size ≤ o.sizeLimit) (hdoc : DocumentText o t.toList v) :
    readDocument o t = .ok v := by
  have hdepth : o.depthLimit - 1 + 1 = o.depthLimit := Nat.sub_add_cancel o.depthLimit_pos
  obtain ⟨u, r, hu, hc, hr⟩ := hdoc
  rw [readDocument_within o (Nat.not_lt.mpr hsize)]
  have hexp : Expects o (o.depthLimit - 1) .init [] (t.toList.drop 0) v r :=
    ⟨u, by simpa using hu, by rwa [hdepth]⟩
  rcases readContainer_complete o (Nat.zero_le _) 1 (F := fuelFor t.size) hexp with
    ⟨j, hj, rfl, he⟩ | ⟨f, he, hf⟩
  · rw [he]
    simp only
    rw [if_neg (not_not.mpr ((trailing_stop hj).mpr hr))]
  · -- the fuel is within the budget, so the reader does not run out of it
    have hl := readContainer_lands o (Nat.zero_le t.size) 1 (F := fuelFor t.size)
      (by unfold fuelFor; omega)
    rw [he] at hl
    exact absurd hf hl

/-- The documents the reader accepts are the documents of the grammar that fit the size limit,
with containers nested within the depth limit; the value read is the value the grammar gives
the text. -/
theorem readDocument_ok_iff (o : ReadOptions) (t : Array UInt8) (v : Value) :
    readDocument o t = .ok v ↔ t.size ≤ o.sizeLimit ∧ DocumentText o t.toList v :=
  ⟨readDocument_sound, fun ⟨hsize, hdoc⟩ => readDocument_complete hsize hdoc⟩

end ExactJson
