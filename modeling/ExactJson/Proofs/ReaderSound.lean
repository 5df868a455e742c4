import Mathlib
import ExactJson.Proofs.StepText

/-!
# The reader accepts only documents of the grammar

Soundness of the reader against `Grammar`: whatever a walk reads from a settled cursor, from a
phase reached with its stack, is what the phase expects (`Grammar.Expects`), and the value it
builds is the value of that text. The four functions of the reader call one another on less
fuel, so the four statements are proved together by recursion on the fuel, as the functions are
defined. Each turn of a walk is taken apart into its entry action, its move and the rest of the
walk, and put back together by `expects_iff_turn`.

Depths: a container read at depth `d` holds values nested at most `o.depthLimit - d` deep, so
that the container at depth one is within the depth limit.
-/

namespace ExactJson

open Cursor Grammar

section Sound

variable (o : ReadOptions)

mutual

/-- A container the reader reads is blanks and a container of the grammar. -/
theorem readContainer_sound {t : Array UInt8} {i : Nat} (hi : i ≤ t.size) (d : Nat) :
    ∀ {F : Nat} {v : Value} {c : Cursor}, readContainer o d F (after t i) = .ok (v, c) →
      ∃ j, c = after t j ∧ j ≤ t.size ∧
        Expects o (o.depthLimit - d) .init [] (t.toList.drop i) v (t.toList.drop j)
  | 0, _, _, h => by cases h
  | F + 1, _, _, h => by
    rw [readContainer_succ] at h
    exact walk_sound hi d (p := .init) rfl (by simp) h
termination_by structural F _ _ _ => F

/-- A walk from phase `p` reads what `p` expects. -/
theorem walk_sound {t : Array UInt8} {i : Nat} (hi : i ≤ t.size) (d : Nat) {p : Phase}
    {s : List Pending} (hs : p.Arrives s) (hq : p = .propertyName → OnQuote t i) :
    ∀ {F : Nat} {v : Value} {c : Cursor}, walk o d p s F (after t i) = .ok (v, c) →
      ∃ j, c = after t j ∧ j ≤ t.size ∧
        Expects o (o.depthLimit - d) p s (t.toList.drop i) v (t.toList.drop j)
  | 0, _, _, h => by cases h
  | F + 1, v, c, h => by
    cases hp : p.isEnd with
    | true =>
      rw [walk_end o d hp] at h
      rcases hr : Pending.result s (after t i).offset with f | v' <;>
        simp only [hr, reduceCtorEq, Except.ok.injEq, Prod.mk.injEq] at h
      obtain ⟨rfl, rfl⟩ := h
      exact ⟨i, rfl, hi, (expects_end hp hs _).mpr ⟨hr, rfl⟩⟩
    | false =>
      rw [walk_step o d hp] at h
      rcases he : enterPhase o d p s F (after t i) with f | ⟨s₁, c₁⟩ <;>
        simp only [he, reduceCtorEq] at h
      obtain ⟨j, rfl, hj, hent⟩ := enterPhase_sound hi d hs hq hp he
      rcases ha : p.advance (after t j) with f | ⟨q, c₂⟩ <;> simp only [ha, reduceCtorEq] at h
      obtain ⟨k, rfl, hk, hadv⟩ := Phase.advance_sound hj ha
      have hs₁ := Phase.arrives_of_advance ha (Phase.holds_of_enterPhase he hs)
      have hq₁ : q = .propertyName → OnQuote t k := by
        rintro rfl
        exact onQuote_of_advanceText hk hadv
      obtain ⟨l, rfl, hl, hexp⟩ := walk_sound hk d hs₁ hq₁ h
      exact ⟨l, rfl, hl, (expects_iff_turn hp hs).mpr ⟨s₁, _, q, _, hent, hadv, hexp⟩⟩
termination_by structural F _ _ _ => F

/-- An entry action reads what the grammar has at its phase. -/
theorem enterPhase_sound {t : Array UInt8} {i : Nat} (hi : i ≤ t.size) (d : Nat) {p : Phase}
    {s : List Pending} (hs : p.Arrives s) (hq : p = .propertyName → OnQuote t i)
    (hp : p.isEnd = false) :
    ∀ {F : Nat} {s' : List Pending} {c : Cursor},
      enterPhase o d p s F (after t i) = .ok (s', c) →
      ∃ j, c = after t j ∧ j ≤ t.size ∧
        Entered o (o.depthLimit - d) p s (t.toList.drop i) s' (t.toList.drop j)
  | 0, _, _, h => by cases h
  | F + 1, s', c, h => by
    cases p with
    | init | nextProperty =>
      rw [enterPhase_idle o d (by simp)] at h
      simp only [Except.ok.injEq, Prod.mk.injEq] at h
      obtain ⟨rfl, rfl⟩ := h
      first
      | (rw [show s = [] from hs]; exact ⟨i, rfl, hi, rfl, rfl⟩)
      | (obtain ⟨ms, rfl⟩ := hs; exact ⟨i, rfl, hi, rfl, rfl⟩)
    | objectStart | arrayStart =>
      first | rw [enterPhase_objectStart] at h | rw [enterPhase_arrayStart] at h
      simp only [Except.ok.injEq, Prod.mk.injEq] at h
      obtain ⟨rfl, rfl⟩ := h
      rw [show s = [] from hs]
      exact ⟨i, rfl, hi, rfl, rfl⟩
    | propertyName =>
      obtain ⟨ms, rfl⟩ := hs
      rw [enterPhase_propertyName] at h
      rcases hr : readStringStep o (after t i) with f | ⟨k, c₁⟩ <;>
        simp only [hr, reduceCtorEq, Except.ok.injEq, Prod.mk.injEq] at h
      obtain ⟨rfl, rfl⟩ := h
      obtain ⟨j, rfl, hj, hk⟩ := readStringStep_sound o (hq rfl) hr
      exact ⟨j, rfl, hj, k, hk, rfl⟩
    | propertyValue =>
      obtain ⟨k, ms, rfl⟩ := hs
      rw [enterPhase_value o d (.inl rfl)] at h
      rcases hr : readValueStep o d F (after t i) with f | ⟨x, c₁⟩ <;>
        simp only [hr, Pending.attach_key, reduceCtorEq, Except.ok.injEq, Prod.mk.injEq] at h
      obtain ⟨rfl, rfl⟩ := h
      obtain ⟨j, u, rfl, hj, hb, hx⟩ := readValueStep_sound hi d hr
      exact ⟨j, rfl, hj, x, u, hb, hx, rfl⟩
    | nextElement =>
      obtain ⟨es, rfl⟩ := hs
      rw [enterPhase_value o d (.inr rfl)] at h
      rcases hr : readValueStep o d F (after t i) with f | ⟨x, c₁⟩ <;>
        simp only [hr, Pending.attach_array, reduceCtorEq, Except.ok.injEq, Prod.mk.injEq] at h
      obtain ⟨rfl, rfl⟩ := h
      obtain ⟨j, u, rfl, hj, hb, hx⟩ := readValueStep_sound hi d hr
      exact ⟨j, rfl, hj, x, u, hb, hx, rfl⟩
    | objectEnd | arrayEnd => simp [Phase.isEnd] at hp
termination_by structural F _ _ _ => F

/-- A value the reader reads is blanks and a value of the grammar. -/
theorem readValueStep_sound {t : Array UInt8} {i : Nat} (hi : i ≤ t.size) (d : Nat) :
    ∀ {F : Nat} {x : Value} {c : Cursor}, readValueStep o d F (after t i) = .ok (x, c) →
      ∃ j u, c = after t j ∧ j ≤ t.size ∧ Blanks (t.toList.drop i) u ∧
        ValueText o (o.depthLimit - d) u x (t.toList.drop j)
  | 0, _, _, h => by cases h
  | F + 1, x, c, h => by
    rw [readValueStep_after o d hi] at h
    have hb := blanks_blankEnd t i
    have hat : ∀ hlt : blankEnd t i < t.size, t[blankEnd t i + 1 - 1]? = some t[blankEnd t i] :=
      fun hlt => by simp [hlt]
    split_ifs at h with hlt hq hn hl hbr hd
    · -- a quote opens a string
      rcases hr : readStringStep o (after t (blankEnd t i + 1)) with f | ⟨k, c₁⟩ <;>
        simp only [ReadStep.map_apply, hr, reduceCtorEq, Except.ok.injEq, Prod.mk.injEq] at h
      obtain ⟨rfl, rfl⟩ := h
      obtain ⟨j, rfl, hj, hk⟩ := readStringStep_sound o ⟨by omega, hq ▸ hat hlt⟩ hr
      rw [drop_toList_cons hlt, hq] at hb
      exact ⟨j, _, rfl, hj, hb, .string hk⟩
    · obtain ⟨j, y, rfl, hj, rfl, hy⟩ := readNumberStep_sound o (by omega) (hat hlt) hn h
      exact ⟨j, _, rfl, hj, hb, .number (by simpa using hy)⟩
    · obtain ⟨j, rfl, hj, hv⟩ := readLiteralStep_sound (by omega) (hat hlt) hl h
      exact ⟨j, _, rfl, hj, hb, .literal (by simpa using hv)⟩
    · -- a bracket opens a container one level deeper, within the depth limit
      obtain ⟨j, rfl, hj, u, hu, hc⟩ := readContainer_sound hlt.le (d + 1) h
      have hbr' : ∀ b ∈ (t.toList.drop (blankEnd t i)).head?, blank b = false := by
        rw [drop_toList_cons hlt]
        rcases hbr with hbr | hbr <;> simp [hbr] <;> decide
      rw [hu.eq_of_head hbr', show o.depthLimit - (d + 1) + 1 = o.depthLimit - d by omega] at hc
      exact ⟨j, _, rfl, hj, hb, .container hc⟩
termination_by structural F _ _ _ => F

end

end Sound

end ExactJson
