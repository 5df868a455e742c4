import Mathlib
import ExactJson.Proofs.GrammarRests
import ExactJson.Proofs.ReaderLocality
import ExactJson.Proofs.ReaderComplete

/-!
# A failure marks where the input stops being a document

A failure that names an octet or a token stands where the input stops being the beginning of a
document: the octets before its offset begin some document of the grammar, and, for a failure
that names an octet, the octets through its offset begin none (`readDocument_failure_offset`).
Size is left out of "document" here: the grammar has no bound on it.

The first half builds a document from the octets read. A walk that fails from a phase leaves a
text that the phase can still finish (`Failure.Completable`): the octets read and a completion
that owes an empty string where a value is missing and closes each open container (`closing`).
Completions lead (`Leads`), so that a number or a literal read before one ends where it ended in
the input, and the turns read are moved in front of them by the transfer lemmas of
`GrammarRests`. The one failure that stands before its phase is reached is that of a key, on its
opening quote; the phase before it finishes the container there instead.

The second half is locality: on an input that agrees with this one through the failing octet,
the reader fails there too or stops at the same place (`readContainer_mirrors`), whereas it reads
any document through; so no document begins with those octets.
-/

namespace ExactJson

open Grammar Cursor

/-- A text the grammar reads as a document, of any size: by `readDocument_ok_iff`, a text the
reader accepts once its size limit admits the text. -/
def Accepted (o : ReadOptions) (s : Bytes) : Prop := ∃ v, DocumentText o s v

/-- A text that some document begins with. -/
def Viable (o : ReadOptions) (s : Bytes) : Prop := ∃ u, Accepted o (s ++ u)

/-- The classes of failures that stand on an octet or on a token. -/
def FailureClass.located (c : FailureClass) : Bool := c.namesOctet || c.namesToken

/-- Running out of fuel is no located failure. -/
theorem located_of_internal {α : Type} {c : Cursor} {m : String} {f : Failure}
    (h : (.error (c.failure .internalError m) : Except Failure α) = .error f) :
    f.cls.located = false := by
  cases h
  rfl

/-! ## Slices of the input -/

section Slices

variable {t : Array UInt8}

theorem drop_eq_slice_append {i j : Nat} (hij : i ≤ j) :
    t.toList.drop i = slice t i j ++ t.toList.drop j := by
  nth_rewrite 1 [← List.take_append_drop (j - i) (t.toList.drop i)]
  rw [slice_eq, List.drop_drop, Nat.add_sub_cancel' hij]

theorem slice_append_slice {i j k : Nat} (hij : i ≤ j) (hjk : j ≤ k) :
    slice t i j ++ slice t j k = slice t i k := by
  rw [slice_eq, slice_eq, slice_eq, show k - i = (j - i) + (k - j) by omega, List.take_add,
    List.drop_drop, Nat.add_sub_cancel' hij]

theorem slice_zero (n : Nat) : slice t 0 n = t.toList.take n := by
  simp [slice_eq]

theorem slice_self (i : Nat) : slice t i i = [] := by
  simp [slice_eq]

/-- A text that leads, after the octets from `j` to `n`, starts as the input does at `j`, or
leads itself. -/
theorem slice_lead {j n : Nat} (hjn : j ≤ n) (hn : n ≤ t.size) {W : Bytes} (hW : Leads W) :
    (slice t j n ++ W).head? = (t.toList.drop j).head? ∨ Leads (slice t j n ++ W) := by
  rcases Nat.eq_or_lt_of_le hjn with rfl | hlt
  · rw [slice_self, List.nil_append]
    exact .inr hW
  · left
    rw [slice_eq, drop_toList_cons (by omega), show n - j = (n - j - 1) + 1 by omega,
      List.take_succ_cons]
    rfl

theorem blanks_slice (i : Nat) (W : Bytes) : Blanks (slice t i (blankEnd t i) ++ W) W :=
  Blanks.transfer (Y := []) (D := t.toList.drop (blankEnd t i))
    (by rw [← drop_eq_slice_append (le_blankEnd t i)]; exact blanks_blankEnd t i)

end Slices

/-! ## Turns in front of a completion -/

section Turns

variable {o : ReadOptions} {t : Array UInt8} {m : Nat}

theorem Entered.of_drop {p : Phase} {s s₁ : List Pending} {i j : Nat} (hs : p.Arrives s)
    (hij : i ≤ j) (h : Entered o m p s (t.toList.drop i) s₁ (t.toList.drop j)) {W : Bytes}
    (hW : Replaces (t.toList.drop j) W) : Entered o m p s (slice t i j ++ W) s₁ W :=
  Entered.transfer (Y := []) hs (by rwa [← drop_eq_slice_append hij]) hW

theorem AdvanceText.of_drop {p q : Phase} {j k : Nat} (hjk : j ≤ k)
    (h : AdvanceText p q (t.toList.drop j) (t.toList.drop k)) {W : Bytes}
    (hW : W.head? = (t.toList.drop k).head? ∨ ∀ b ∈ W.head?, blank b = false ∧ b ≠ 0x5D) :
    AdvanceText p q (slice t j k ++ W) W :=
  AdvanceText.transfer (Y := []) (by rwa [← drop_eq_slice_append hjk]) hW

/-- A turn read from the input, from `i` through the entry action to `j` and the move to `k`,
stands in front of any text that leads and that the next phase expects. -/
theorem expects_of_turn {p q : Phase} (hp : p.isEnd = false) {s s₁ : List Pending}
    (hs : p.Arrives s) {i j k n : Nat} (hij : i ≤ j) (hjk : j ≤ k) (hkn : k ≤ n) (hn : n ≤ t.size)
    (he : Entered o m p s (t.toList.drop i) s₁ (t.toList.drop j))
    (ha : AdvanceText p q (t.toList.drop j) (t.toList.drop k)) {W : Bytes} (hW : Leads W)
    {v : Value} {r : Bytes} (hq : Expects o m q s₁ (slice t k n ++ W) v r) :
    Expects o m p s (slice t i n ++ W) v r := by
  have hjn : slice t j k ++ (slice t k n ++ W) = slice t j n ++ W := by
    rw [← List.append_assoc, slice_append_slice hjk hkn]
  rw [← slice_append_slice hij (hjk.trans hkn), List.append_assoc, ← hjn]
  refine (expects_iff_turn hp hs).mpr ⟨s₁, _, q, _, Entered.of_drop hs hij he ?_,
    AdvanceText.of_drop hjk ha ((slice_lead hkn hn hW).imp id Leads.head), hq⟩
  rw [hjn]
  exact (slice_lead (hjk.trans hkn) hn hW).imp id Leads.follows

/-- After an entry action read from the input and the blanks that follow it, the closing of the
phase finishes what the phase expects. -/
theorem expects_closing {p : Phase} (hp : p.isEnd = false) {s s₁ : List Pending}
    (hs : p.Arrives s) {i j : Nat} (hij : i ≤ j) (hj : j ≤ t.size)
    (he : Entered o m p s (t.toList.drop i) s₁ (t.toList.drop j)) (hs₁ : p.Holds s₁) (r : Bytes) :
    ∃ v, Expects o m p s (slice t i (blankEnd t j) ++ (closing p ++ r)) v r := by
  have hW : Leads (closing p ++ r) := (leads_closing hp).append r
  obtain ⟨q, u', v, hadv, hq⟩ := closing_turn (o := o) (n := m) hp hs₁ (blanks_slice j (closing p ++ r))
  refine ⟨v, (expects_iff_turn hp hs).mpr ⟨s₁, _, q, u', ?_, hadv, hq⟩⟩
  rw [← slice_append_slice hij (le_blankEnd t j), List.append_assoc]
  exact Entered.of_drop hs hij he ((slice_lead (le_blankEnd t j) (blankEnd_le hj) hW).imp id
    Leads.follows)

/-- A value that can be finished, and then the closing of `propertyValue` or `nextElement`,
finish what the phase expects. -/
theorem completion_of_value {p : Phase} (hp : p = .propertyValue ∨ p = .nextElement)
    {s : List Pending} (hs : p.Arrives s) {i n : Nat}
    (hval : ∃ w, Leads w ∧
      ∀ r, ∃ u x, Blanks (slice t i n ++ (w ++ r)) u ∧ ValueText o m u x r) :
    ∃ w, Leads w ∧ ∀ r, ∃ v, Expects o m p s (slice t i n ++ (w ++ r)) v r := by
  obtain ⟨w, hw, hval⟩ := hval
  refine ⟨w ++ closing p, hw.append _, fun r => ?_⟩
  obtain ⟨u, x, hu, hx⟩ := hval (closing p ++ r)
  rw [List.append_assoc]
  rcases hp with rfl | rfl
  · obtain ⟨k, ms, rfl⟩ := hs
    exact ⟨_, x, u, _, hu, hx, .inl ⟨.nil _, rfl⟩⟩
  · obtain ⟨es, rfl⟩ := hs
    -- the element, an empty string, then the bracket
    exact ⟨_, u, hu, [x, .str []], 0x5D :: r,
      .cons hx (.nil _) (.nil _) (.one (.string (StringText.empty _))), .nil _, rfl⟩

end Turns

/-! ## What is read before a failure can be finished -/

/-- A failure at offset `n` of a walk from phase `p`, reached at position `i` with stack `s`: the
octets from `i` up to `n`, and then a completion that leads, are what `p` expects before any
rest; or the failure stands on the opening quote of a key, just before `p = propertyName` is
reached. -/
def Failure.Completable (f : Failure) (o : ReadOptions) (m : Nat) (t : Array UInt8) (p : Phase)
    (s : List Pending) (i : Nat) : Prop :=
  ∃ n : Nat, f.offset = n ∧ n ≤ t.size ∧
    ((i ≤ n ∧ ∃ w, Leads w ∧ ∀ r, ∃ v, Expects o m p s (slice t i n ++ (w ++ r)) v r) ∨
      (p = .propertyName ∧ n + 1 = i))

/-- A failure on the octet after the blanks that follow an entry action can be finished by the
closing of the phase. -/
theorem Failure.completable_closing {o : ReadOptions} {m : Nat} {t : Array UInt8} {p : Phase}
    (hp : p.isEnd = false) {s s₁ : List Pending} (hs : p.Arrives s) {i j : Nat} (hij : i ≤ j)
    (hj : j ≤ t.size) (he : Entered o m p s (t.toList.drop i) s₁ (t.toList.drop j))
    (hs₁ : p.Holds s₁) {f : Failure} (ho : f.offset = blankEnd t j) :
    f.Completable o m t p s i :=
  ⟨blankEnd t j, ho, blankEnd_le hj, .inl ⟨le_trans hij (le_blankEnd t j), closing p,
    leads_closing hp, expects_closing hp hs hij hj he hs₁⟩⟩

section Complete

variable (o : ReadOptions) {t : Array UInt8}

mutual

theorem readContainer_completable {i : Nat} (hi : i ≤ t.size) (d : Nat) :
    ∀ F {f : Failure}, readContainer o d F (after t i) = .error f → f.cls.located = true →
      f.Completable o (o.depthLimit - d) t .init [] i
  | 0, _, h, hc => by simp [located_of_internal h] at hc
  | F + 1, _, h, hc => by
    rw [readContainer_succ] at h
    exact walk_completable hi d (p := .init) rfl trivial F h hc
termination_by structural F => F

theorem walk_completable {i : Nat} (hi : i ≤ t.size) (d : Nat) {p : Phase} {s : List Pending}
    (hs : p.Arrives s) (hp : p.Placed t i) :
    ∀ F {f : Failure}, walk o d p s F (after t i) = .error f → f.cls.located = true →
      f.Completable o (o.depthLimit - d) t p s i
  | 0, _, h, hc => by simp [located_of_internal h] at hc
  | F + 1, f, h, hc => by
    cases hend : p.isEnd with
    | true =>
      rw [walk_end o d hend] at h
      obtain ⟨v, hv⟩ := Pending.result_of_holds hend (Phase.holds_of_arrives_end hend hs) _
      rw [hv] at h
      cases h
    | false =>
      rw [walk_step o d hend] at h
      have hq : p = .propertyName → OnQuote t i := by
        rintro rfl
        exact hp.1
      rcases he : enterPhase o d p s F (after t i) with g | ⟨s₁, c₁⟩ <;> rw [he] at h
      · -- the entry action fails
        cases h
        exact enterPhase_completable hi d hs hp hend F he hc
      · simp only at h
        have hee := enterPhase_ends o hi d hs hp hend F
        rw [he] at hee
        obtain ⟨j, rfl, hij, hj⟩ := hee
        obtain ⟨j', hj', -, hent⟩ := enterPhase_sound o hi d hs hq hend he
        obtain rfl : j = j' := by simpa using congrArg Cursor.seen hj'
        have hs₁ := Phase.holds_of_enterPhase he hs
        rcases ha : p.advance (after t j) with g | ⟨q, c₂⟩ <;> rw [ha] at h
        · -- no move: the phase is closed on the octet after the blanks
          cases h
          exact Failure.completable_closing hend hs hij hj hent hs₁
            (by rw [Phase.advance_eq_error hend hj ha]; rfl)
        · simp only at h
          obtain ⟨k, rfl, hjk, hk, -⟩ := Phase.advance_moves hj ha
          obtain ⟨k', hk', -, hadv⟩ := Phase.advance_sound hj ha
          obtain rfl : k = k' := by simpa using congrArg Cursor.seen hk'
          have hq₁ := Phase.arrives_of_advance ha hs₁
          have hpq := Phase.placed_of_advance hj (delimited_of_entry hp he) ha
          rcases walk_completable hk d hq₁ hpq F h hc with
            ⟨n, hn, hnt, ⟨hkn, w, hw, hexp⟩ | ⟨rfl, hnk⟩⟩
          · -- the walk from the next phase fails: its completion finishes this turn too
            refine ⟨n, hn, hnt, .inl ⟨by omega, w, hw, fun r => ?_⟩⟩
            obtain ⟨v, hv⟩ := hexp r
            exact ⟨v, expects_of_turn hend hs hij hjk hkn hnt hent hadv (hw.append r) hv⟩
          · -- a key fails on its quote, which the move took: the phase is closed before it
            have hnb : n = blankEnd t j := by
              rcases Phase.advance_eq_ok hj ha with ⟨-, -, hc₂⟩ | ⟨-, hne, -⟩
              · have := congrArg Cursor.seen hc₂
                simp only [after_seen] at this
                omega
              · cases hne
            exact Failure.completable_closing hend hs hij hj hent hs₁ (hnb ▸ hn)
termination_by structural F => F

theorem enterPhase_completable {i : Nat} (hi : i ≤ t.size) (d : Nat) {p : Phase}
    {s : List Pending} (hs : p.Arrives s) (hp : p.Placed t i) (hend : p.isEnd = false) :
    ∀ F {f : Failure}, enterPhase o d p s F (after t i) = .error f → f.cls.located = true →
      f.Completable o (o.depthLimit - d) t p s i
  | 0, _, h, hc => by simp [located_of_internal h] at hc
  | F + 1, f, h, hc => by
    cases p with
    | init | nextProperty | objectEnd | arrayEnd =>
      rw [enterPhase_idle o d (by simp)] at h
      cases h
    | objectStart =>
      rw [enterPhase_objectStart] at h
      cases h
    | arrayStart =>
      rw [enterPhase_arrayStart] at h
      cases h
    | propertyName =>
      -- a key fails on its opening quote
      rw [enterPhase_propertyName] at h
      rcases hr : readStringStep o (after t i) with g | ⟨k, c⟩ <;> rw [hr] at h <;>
        simp only [reduceCtorEq, Except.error.injEq] at h
      subst h
      have hlt := octet_index_lt hp.1.2
      rcases readStringStep_error hp.1 hr with ⟨-, ho, -⟩ | ⟨hcls, -⟩
      · exact ⟨i - 1, ho, by omega, .inr ⟨rfl, by have := hp.1.1; omega⟩⟩
      · rw [hcls] at hc
        cases hc
    | propertyValue | nextElement =>
      rw [enterPhase_value o d (by simp)] at h
      rcases hr : readValueStep o d F (after t i) with g | ⟨x, c⟩ <;> rw [hr] at h
      · simp only [Except.error.injEq] at h
        subst h
        -- the value owed is completed, then the phase is closed
        obtain ⟨n, hn, hin, hnt, hval⟩ := readValueStep_completable hi d F hr hc
        exact ⟨n, hn, hnt, .inl ⟨hin, completion_of_value (by simp) hs hval⟩⟩
      · -- attaching the value read cannot fail
        obtain ⟨s', hs'⟩ := Pending.attach_of_arrives (by simp) hs x (after t i).offset
        simp only [hs', reduceCtorEq] at h
termination_by structural F => F

/-- A value fails on a token, or on the octet where it should start, or inside a container that
can be finished: an empty string in place of the token, or the container's completion, finishes
the value. -/
theorem readValueStep_completable {i : Nat} (hi : i ≤ t.size) (d : Nat) :
    ∀ F {f : Failure}, readValueStep o d F (after t i) = .error f → f.cls.located = true →
      ∃ n : Nat, f.offset = n ∧ i ≤ n ∧ n ≤ t.size ∧ ∃ w, Leads w ∧
        ∀ r, ∃ u x, Blanks (slice t i n ++ (w ++ r)) u ∧ ValueText o (o.depthLimit - d) u x r
  | 0, _, h, hc => by simp [located_of_internal h] at hc
  | F + 1, f, h, hc => by
    rw [readValueStep_after o d hi] at h
    have hb := le_blankEnd t i
    -- an empty string where the value starts
    have hstr : ∃ w, Leads w ∧ ∀ r, ∃ u x, Blanks (slice t i (blankEnd t i) ++ (w ++ r)) u ∧
        ValueText o (o.depthLimit - d) u x r :=
      ⟨[0x22, 0x22], ⟨_, _, rfl, by decide⟩, fun r =>
        ⟨_, _, blanks_slice i _, .string (StringText.empty r)⟩⟩
    have hat : ∀ hlt : blankEnd t i < t.size,
        t[blankEnd t i + 1 - 1]? = some t[blankEnd t i] := fun hlt => by simp [hlt]
    split_ifs at h with hlt hq hn hl hbr hdep
    · rw [ReadStep.map_apply] at h
      rcases hr : readStringStep o (after t (blankEnd t i + 1)) with g | ⟨k, c⟩ <;> rw [hr] at h <;>
        simp only [reduceCtorEq, Except.error.injEq] at h
      subst h
      rcases readStringStep_error ⟨by omega, by rw [hat hlt, hq]⟩ hr with ⟨-, ho, -⟩ | ⟨hcls, -⟩
      · exact ⟨blankEnd t i, by simpa using ho, hb, hlt.le, hstr⟩
      · rw [hcls] at hc
        cases hc
    · obtain ⟨ho, hcls | ⟨-, -⟩⟩ := readNumberStep_error (by omega) (hat hlt) hn h
      · rw [hcls] at hc
        cases hc
      · exact ⟨blankEnd t i, by simpa using ho, hb, hlt.le, hstr⟩
    · rcases readLiteralStep_error (by omega) (hat hlt) hl h with ⟨-, ho, -⟩ | ⟨hcls, -⟩
      · exact ⟨blankEnd t i, by simpa using ho, hb, hlt.le, hstr⟩
      · rw [hcls] at hc
        cases hc
    · -- the depth limit is no located failure
      cases h
      cases hc
    · -- the container's completion finishes the value
      obtain ⟨n, hn, hnt, ⟨hbn, w, hw, hexp⟩ | ⟨hne, -⟩⟩ :=
        readContainer_completable hlt.le (d + 1) F h hc
      · refine ⟨n, hn, le_trans hb hbn, hnt, w, hw, fun r => ?_⟩
        obtain ⟨v, u₁, hu₁, hcont⟩ := hexp r
        have hdepth : o.depthLimit - (d + 1) + 1 = o.depthLimit - d := by omega
        refine ⟨u₁, v, ?_, .container (hdepth ▸ hcont)⟩
        rw [← slice_append_slice hb hbn, List.append_assoc]
        exact (blanks_slice i _).trans hu₁
      · cases hne
    · -- no value starts on this octet
      cases h
      exact ⟨blankEnd t i, rfl, hb, hlt.le, hstr⟩
    · -- no value starts at the end of the input
      cases h
      have he : blankEnd t i = t.size := Nat.le_antisymm (blankEnd_le hi) (Nat.le_of_not_lt hlt)
      exact ⟨t.size, rfl, by omega, le_rfl, he ▸ hstr⟩
termination_by structural F => F

end

end Complete

/-! ## Documents -/

section Documents

variable {o : ReadOptions} {t : Array UInt8} {f : Failure}

/-- A failure on an octet or a token passed the size check. -/
theorem readDocument_within_of_located (h : readDocument o t = .error f)
    (hc : f.cls.located = true) : ¬o.sizeLimit < t.size := by
  rcases readDocument_error_cases h with ⟨-, hcls, -⟩ | ⟨hs, -⟩ | ⟨-, -, hs, -⟩
  · rw [hcls] at hc
    cases hc
  · exact hs
  · exact hs

/-- The text of a container read from the start, with the blanks after it, is a document. -/
theorem accepted_of_container {j : Nat} {v : Value}
    (hexp : Expects o (o.depthLimit - 1) .init [] (t.toList.drop 0) v (t.toList.drop j)) :
    Accepted o (t.toList.take (blankEnd t j)) := by
  have hdepth : o.depthLimit - 1 + 1 = o.depthLimit := Nat.sub_add_cancel o.depthLimit_pos
  obtain ⟨u₁, hb, hcont⟩ := hexp
  obtain ⟨a, rfl, ha⟩ := hcont.split
  refine ⟨v, a ++ slice t j (blankEnd t j), slice t j (blankEnd t j), ?_, hdepth ▸ ha _,
    by simpa using blanks_slice (t := t) j []⟩
  rw [← slice_zero, ← slice_append_slice (Nat.zero_le j) (le_blankEnd t j)]
  exact Blanks.transfer (by rwa [← drop_eq_slice_append (Nat.zero_le j)])

/-- A document read that fails on an octet or a token leaves, before its offset, the beginning of
a document. -/
theorem readDocument_error_viable {n : Nat} (h : readDocument o t = .error f)
    (hc : f.cls.located = true) (hn : f.offset = n) : Viable o (t.toList.take n) := by
  rcases readDocument_error_cases h with ⟨-, hcls, -⟩ | ⟨-, hr⟩ | ⟨v, j, -, hr, -, -, ho, -⟩
  · rw [hcls] at hc
    cases hc
  · -- the container fails: its completion finishes the document
    have hdepth : o.depthLimit - 1 + 1 = o.depthLimit := Nat.sub_add_cancel o.depthLimit_pos
    obtain ⟨n', hn', -, ⟨-, w, hw, hexp⟩ | ⟨hne, -⟩⟩ :=
      readContainer_completable o (Nat.zero_le _) 1 _ hr hc
    · obtain rfl : n = n' := by omega
      obtain ⟨v, u₁, hu₁, hcont⟩ := hexp []
      exact ⟨w, v, u₁, [], by simpa [slice_zero] using hu₁, by rwa [hdepth] at hcont, .nil _⟩
    · cases hne
  · -- content after the container: the container and its blanks are a document
    obtain ⟨j', hj', -, hexp⟩ := readContainer_sound o (Nat.zero_le _) 1 hr
    obtain rfl : j = j' := by simpa using congrArg Cursor.seen hj'
    obtain rfl : n = blankEnd t j := by omega
    exact ⟨[], by simpa using accepted_of_container hexp⟩

/-- A failure on an octet or a token is a failure on a text that is no document. -/
theorem readDocument_error_not_accepted (h : readDocument o t = .error f)
    (hc : f.cls.located = true) : ¬Accepted o t.toList := by
  rintro ⟨v, hdoc⟩
  rw [readDocument_complete (Nat.le_of_not_lt (readDocument_within_of_located h hc)) hdoc] at h
  cases h

/-- The octets of `t` through `n`, and then `u`. -/
theorem agrees_take_append {n : Nat} (hn : n < t.size) (u : Bytes) :
    Agrees t (t.toList.take (n + 1) ++ u).toArray (n + 1) := by
  refine ⟨hn, fun x hx => ?_⟩
  rw [List.getElem?_toArray, List.getElem?_append_left (by simp; omega), List.getElem?_take,
    if_pos hx, Array.getElem?_toList]

/-- A document read that fails on an octet before the end of the input: no document begins with
the octets through it, since the reader, which reads any document through, would fail on that
octet or stop before it there too. -/
theorem readDocument_error_not_viable {n : Nat} (h : readDocument o t = .error f)
    (hc : f.cls.namesOctet = true) (hn : f.offset = n) (hlt : n < t.size) :
    ¬Viable o (t.toList.take (n + 1)) := by
  rintro ⟨u, v, u₀, r₀, hu₀, hc₀, hr₀⟩
  have hdepth : o.depthLimit - 1 + 1 = o.depthLimit := Nat.sub_add_cancel o.depthLimit_pos
  set t' := (t.toList.take (n + 1) ++ u).toArray with ht'
  have hagree := agrees_take_append hlt u
  rw [← ht'] at hagree
  have hsize : n + 1 ≤ t'.size := hagree.size_le
  -- on `t'`, the container is read through, within its fuel
  have hexp : Expects o (o.depthLimit - 1) .init [] (t'.toList.drop 0) v r₀ :=
    ⟨u₀, by simpa [ht'] using hu₀, by rwa [hdepth]⟩
  obtain ⟨j', -, hdrop, he'⟩ : ∃ j', j' ≤ t'.size ∧ t'.toList.drop j' = r₀ ∧
      readContainer o 1 (fuelFor t'.size) (after t' 0) = .ok (v, after t' j') := by
    rcases readContainer_complete o (Nat.zero_le _) 1 (F := fuelFor t'.size) hexp with
      h' | ⟨g, he, hg⟩
    · exact h'
    · have hl := readContainer_lands o (Nat.zero_le t'.size) 1 (F := fuelFor t'.size)
        (by unfold fuelFor; omega)
      rw [he] at hl
      exact absurd hg hl
  have hm := readContainer_mirrors o hagree (Nat.zero_le _) (Nat.zero_le _) 1 (fuelFor t.size)
    (fuelFor t'.size)
  rw [he'] at hm
  rcases readDocument_error_cases h with ⟨-, hcls, -⟩ | ⟨-, hr⟩ | ⟨v₁, j, -, hr, -, -, ho, -⟩
  · rw [hcls] at hc
    cases hc
  · -- the container fails on `n`, and would on `t'`
    rw [hr] at hm
    rcases hm.1 f rfl hc (by omega) with h' | ⟨g', h', -⟩ <;> cases h'
  · -- content after the container stands on `n`; on `t'`, only blanks follow the container
    rw [hr] at hm
    have hbn : blankEnd t j = n := by omega
    have hjn : j < n + 1 := by
      have := le_blankEnd t j
      omega
    rcases hm.2 v₁ j rfl hjn with h' | ⟨g', h', -⟩
    · simp only [Except.ok.injEq, Prod.mk.injEq] at h'
      obtain ⟨-, hjj⟩ := h'
      obtain rfl : j' = j := by simpa using congrArg Cursor.seen hjj
      have hend := blankEnd_of_blanks (hdrop ▸ hr₀ : Blanks (t'.toList.drop j') []) (by simp)
      rw [blankEnd_agree hagree (by omega), hbn, List.drop_eq_nil_iff] at hend
      simp only [Array.length_toList] at hend
      omega
    · cases h'

/-- **Failures stand where the input stops being a document.** A failed read of `t` carries an
offset `n` within the input. When the failure names an octet, the octets before `n` begin a
document, those through `n` begin none (and `t` is no document when `n` is its end), and the
message names the octet at `n`, or the end of the input. When the failure names a token, `n` is
the first octet of a malformed numeric run, run of letters or string, and the octets before it
begin a document. Documents here are those of the grammar, of any size. -/
theorem readDocument_failure_offset (o : ReadOptions) (t : Array UInt8) (f : Failure)
    (h : readDocument o t = .error f) :
    ∃ n : Nat, f.offset = n ∧ n ≤ t.size ∧
      (f.cls.namesOctet = true →
        Viable o (t.toList.take n) ∧ (n < t.size → ¬Viable o (t.toList.take (n + 1))) ∧
          (n = t.size → ¬Accepted o t.toList) ∧ f.Describes (Code.ofSight t[n]?)) ∧
      (f.cls.namesToken = true → TokenAt o t n f.cls ∧ Viable o (t.toList.take n)) := by
  obtain ⟨n, hn, hnt, hoct, htok⟩ := readDocument_sited h
  refine ⟨n, hn, hnt, fun hc => ?_, fun hc => ?_⟩
  · have hloc : f.cls.located = true := by simp [FailureClass.located, hc]
    exact ⟨readDocument_error_viable h hloc hn, readDocument_error_not_viable h hc hn,
      fun _ => readDocument_error_not_accepted h hloc, (hoct hc).2⟩
  · have hloc : f.cls.located = true := by simp [FailureClass.located, hc]
    exact ⟨htok hc, readDocument_error_viable h hloc hn⟩

/-- A lone letter is no document. -/
theorem readDocument_letter_fails : ∃ f, readDocument {} #[0x78] = .error f := by
  rcases hr : readDocument {} #[0x78] with f | v
  · exact ⟨f, rfl⟩
  · obtain ⟨-, u, r, hu, hc, -⟩ := (readDocument_ok_iff _ _ _).mp hr
    -- the letter is no blank, so the container would start on it
    have hx : (#[0x78] : Array UInt8).toList = [0x78] := rfl
    rw [hx] at hu
    have hu' : u = [0x78] := hu.eq_of_head (by
      intro b hb
      simp only [List.head?_cons, Option.mem_def, Option.some.injEq] at hb
      subst hb
      decide)
    obtain ⟨u', hhead | hhead⟩ := hc.head <;> rw [hu'] at hhead <;> simp at hhead

theorem readDocument_failure_offset_letter :
    ∃ f, readDocument {} #[0x78] = .error f ∧
      ∃ n : Nat, f.offset = n ∧ n ≤ (#[0x78] : Array UInt8).size ∧
        (f.cls.namesOctet = true →
          Viable {} ((#[0x78] : Array UInt8).toList.take n) ∧
            (n < (#[0x78] : Array UInt8).size →
              ¬Viable {} ((#[0x78] : Array UInt8).toList.take (n + 1))) ∧
            (n = (#[0x78] : Array UInt8).size → ¬Accepted {} (#[0x78] : Array UInt8).toList) ∧
            f.Describes (Code.ofSight (#[0x78] : Array UInt8)[n]?)) ∧
        (f.cls.namesToken = true →
          TokenAt {} #[0x78] n f.cls ∧ Viable {} ((#[0x78] : Array UInt8).toList.take n)) := by
  obtain ⟨f, hf⟩ := readDocument_letter_fails
  exact ⟨f, hf, readDocument_failure_offset {} #[0x78] f hf⟩

end Documents

end ExactJson
