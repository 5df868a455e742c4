import Mathlib
import ExactJson.Proofs.StepText

/-!
# Where the reader fails

Every failure of the reader carries an offset into its input. This module says where each one
stands and what it names:

* every offset lies between `0` and the size of the input;
* a failure that names an octet (`noTransition`, `unexpectedToken`, `trailingContent`) stands on
  the first octet after blanks that the reader could not take, never before the place where the
  failing step began, and its message names that octet as `Code.describe` does, which is
  `end of input` past the last octet (`Failure.Describes`);
* a failure that names a token (`invalidNumber`, `unknownLiteral`, `invalidEscape`) stands on
  the first octet of a malformed token, after a blank or one of `[{,:`: a maximal numeric run
  that the number reader rejects, a maximal run of letters that spells no literal and is
  followed by more text, or a string whose escapes do not unescape (`TokenAt`).

`Ends` gathers these facts for a run of any of the reader's functions from a settled cursor;
the four functions establish it by one mutual recursion on the fuel, in the shape of
`readContainer_lands`. The phases carry where they are reached (`Phase.Placed`): on the quote
of a key, or where a token may start.
-/

namespace ExactJson

namespace FailureClass

/-- The classes of failures that stand on the octet they name. -/
def namesOctet : FailureClass → Bool
  | noTransition | unexpectedToken | trailingContent => true
  | _ => false

/-- The classes of failures that stand on the first octet of a malformed token. -/
def namesToken : FailureClass → Bool
  | invalidNumber | unknownLiteral | invalidEscape => true
  | _ => false

end FailureClass

/-- The message of a failure that names an octet names the code `x`. -/
def Failure.Describes (f : Failure) (x : Int) : Prop :=
  match f.cls with
  | .noTransition => ∃ p : Phase,
      f.message = Bytes.ofString ("no transition from " ++ p.name ++ " on " ++ Code.describe x)
  | .unexpectedToken =>
      f.message = Bytes.ofString ("unexpected " ++ Code.describe x ++ " where a value was expected")
  | .trailingContent =>
      f.message = Bytes.ofString ("trailing content " ++ Code.describe x ++ " after JSON value")
  | _ => True

namespace Grammar

/-- An octet after which a token may start: a blank, or one of `[`, `{`, `,` and `:`. -/
def separator (b : UInt8) : Bool := blank b || b == 0x5B || b == 0x7B || b == 0x2C || b == 0x3A

/-- `BadNumber o s`: `s` starts with a maximal numeric run that the number reader rejects as no
number. -/
inductive BadNumber (o : ReadOptions) : Bytes → Prop
  | mk {b : UInt8} {run r : Bytes} {g : Failure} :
      numberStart b = true → (∀ c ∈ run, numberPart c = true) →
      (∀ c ∈ r.head?, numberPart c = false) →
      readNumber (b :: run) o.numberOptions = .error g → g.cls = .invalidNumber →
      BadNumber o (b :: run ++ r)

/-- `BadLiteral s`: `s` starts with a maximal run of letters, followed by more text, that spells
no literal. -/
inductive BadLiteral : Bytes → Prop
  | mk {b : UInt8} {run r : Bytes} :
      literalStart b = true → (∀ c ∈ run, letter c = true) → (∀ c ∈ r.head?, letter c = false) →
      r ≠ [] → literalValue (b :: run) = none → BadLiteral (b :: run ++ r)

/-- `BadString o s`: `s` starts with a closed string whose body does not unescape. -/
inductive BadString (o : ReadOptions) : Bytes → Prop
  | mk {s body r : Bytes} : QuoteBody s body r → stringContent o body = none → BadString o (0x22 :: s)

end Grammar

open Grammar Cursor

variable {o : ReadOptions} {t : Array UInt8}

/-- A token may start at position `n` of `t`: the octet before it is a separator. -/
def Delimited (t : Array UInt8) (n : Nat) : Prop :=
  ∃ b, 0 < n ∧ t[n - 1]? = some b ∧ separator b = true

/-- The malformed token a failure of class `c` stands on, at position `n` of `t`. -/
def TokenAt (o : ReadOptions) (t : Array UInt8) (n : Nat) : FailureClass → Prop
  | .invalidNumber => Delimited t n ∧ BadNumber o (t.toList.drop n)
  | .unknownLiteral => Delimited t n ∧ BadLiteral (t.toList.drop n)
  | .invalidEscape => Delimited t n ∧ BadString o (t.toList.drop n)
  | _ => True

/-- Where a failure of a step that began at position `i` stands: at an offset within the input;
on an octet at or after `i` that its message names, when its class names an octet; on a
malformed token, when its class names a token. -/
def Failure.Sited (f : Failure) (o : ReadOptions) (t : Array UInt8) (i : Nat) : Prop :=
  ∃ n : Nat, f.offset = n ∧ n ≤ t.size ∧
    (f.cls.namesOctet = true → i ≤ n ∧ f.Describes (Code.ofSight t[n]?)) ∧
    (f.cls.namesToken = true → TokenAt o t n f.cls)

/-- A run from `after t i` that ends where it should: with a settled cursor between `i` and the
end of the input, or with a failure sited for a step that began at `i`. -/
def Ends (o : ReadOptions) (t : Array UInt8) (i : Nat) {α : Type} :
    Except Failure (α × Cursor) → Prop
  | .ok (_, c) => ∃ j, c = after t j ∧ i ≤ j ∧ j ≤ t.size
  | .error f => f.Sited o t i

/-- Where a phase is reached: on the opening quote of a key, after a separator; and where a
token may start in the phases that read one or lead to one. -/
def Phase.Placed (t : Array UInt8) : Phase → Nat → Prop
  | .propertyName, i => OnQuote t i ∧ Delimited t (i - 1)
  | .objectStart, i | .arrayStart, i | .propertyValue, i | .nextProperty, i | .nextElement, i =>
      Delimited t i
  | .init, _ | .objectEnd, _ | .arrayEnd, _ => True

/-! ## Sited failures -/

namespace Failure

variable {f : Failure} {i n : Nat}

theorem Sited.mono {k : Nat} (h : f.Sited o t k) (hik : i ≤ k) : f.Sited o t i := by
  obtain ⟨n, ho, hn, hoct, htok⟩ := h
  exact ⟨n, ho, hn, fun hc => ⟨le_trans hik (hoct hc).1, (hoct hc).2⟩, htok⟩

theorem sited_plain (ho : f.offset = n) (hn : n ≤ t.size) (hc : f.cls.namesOctet = false)
    (ht : f.cls.namesToken = false) : f.Sited o t i :=
  ⟨n, ho, hn, fun h => absurd h (by simp [hc]), fun h => absurd h (by simp [ht])⟩

theorem sited_token (ho : f.offset = n) (hn : n ≤ t.size) (hc : f.cls.namesOctet = false)
    (htok : TokenAt o t n f.cls) : f.Sited o t i :=
  ⟨n, ho, hn, fun h => absurd h (by simp [hc]), fun _ => htok⟩

theorem sited_octet (ho : f.offset = n) (hn : n ≤ t.size) (hin : i ≤ n)
    (hd : f.Describes (Code.ofSight t[n]?)) (ht : f.cls.namesToken = false) : f.Sited o t i :=
  ⟨n, ho, hn, fun _ => ⟨hin, hd⟩, fun h => absurd h (by simp [ht])⟩

end Failure

namespace Ends

variable {α β : Type} {i : Nat}

theorem mono {k : Nat} {r : Except Failure (α × Cursor)} (h : Ends o t k r) (hik : i ≤ k) :
    Ends o t i r := by
  cases r with
  | ok a =>
    obtain ⟨j, hc, hkj, hj⟩ := h
    exact ⟨j, hc, le_trans hik hkj, hj⟩
  | error f => exact Failure.Sited.mono h hik

theorem at_start {a : α} (hi : i ≤ t.size) : Ends o t i (.ok (a, after t i)) :=
  ⟨i, rfl, le_rfl, hi⟩

/-- Running out of fuel fails where the cursor stands, and names nothing. -/
theorem internal (hi : i ≤ t.size) (m : String) {k : Nat} :
    Ends (α := α) o t k (.error ((after t i).failure .internalError m)) :=
  Failure.sited_plain (n := i - 1) rfl (by omega) rfl rfl

theorem map (g : α → β) {x : ReadStep α} {c : Cursor} (h : Ends o t i (x c)) :
    Ends o t i ((g <$> x) c) := by
  rw [ReadStep.map_apply]
  rcases hx : x c with f | ⟨a, c'⟩ <;> rw [hx] at h <;> exact h

end Ends

/-! ## Positions -/

theorem blankEnd_eq_runEnd (t : Array UInt8) (i : Nat) : blankEnd t i = runEnd Code.isBlank t i := by
  rw [runEnd_eq]
  rfl

/-- Every octet a run passes is in the run. -/
theorem lt_runEnd_imp {P : Int → Bool} {j x : Nat} (hjx : j ≤ x) (hx : x < runEnd P t j) :
    ∃ h : x < t.size, P t[x].toNat = true := by
  fun_induction runEnd P t j with
  | case1 j h hp ih =>
    by_cases hxj : x = j
    · subst hxj
      exact ⟨h, hp⟩
    · exact ih (by omega) hx
  | case2 j h hp => omega
  | case3 j h => omega

theorem delimited_blankEnd {i : Nat} (h : Delimited t i) : Delimited t (blankEnd t i) := by
  by_cases he : blankEnd t i = i
  · rwa [he]
  · -- the blanks passed end with a blank
    have hlt : i < blankEnd t i := lt_of_le_of_ne (le_blankEnd t i) (Ne.symm he)
    obtain ⟨hx, hb⟩ := lt_runEnd_imp (t := t) (P := Code.isBlank) (j := i) (x := blankEnd t i - 1) (by omega)
      (by rw [← blankEnd_eq_runEnd]; omega)
    exact ⟨t[blankEnd t i - 1], by omega, by simp [hx], by simp [separator, blank, hb]⟩

/-- The octet before position `i` and what lies ahead of `i` are what lies ahead of `i - 1`. -/
theorem drop_toList_pred {i : Nat} {b : UInt8} (h0 : 0 < i) (hb : t[i - 1]? = some b) :
    t.toList.drop (i - 1) = b :: t.toList.drop i := by
  have hlt : i - 1 < t.size := octet_index_lt hb
  rw [drop_toList_cons hlt, show i - 1 + 1 = i by omega]
  simp_all

/-! ## Where each step fails -/

theorem Phase.hasEdges_of_isEnd {p : Phase} (hp : p.isEnd = false) : p.hasEdges = true := by
  cases p <;> simp_all [Phase.isEnd] <;> decide

/-- The table fails, out of a phase that is no end, by naming the phase and the code. -/
theorem Phase.step_eq_error {p : Phase} {c off : Int} {f : Failure} (hp : p.isEnd = false)
    (h : p.step c off = .error f) :
    f = Failure.make .noTransition off
      ("no transition from " ++ p.name ++ " on " ++ Code.describe c) := by
  unfold Phase.step at h
  split at h
  · cases h
  · split at h
    · cases h
    · cases h
      rw [Phase.stuck, if_pos (Phase.hasEdges_of_isEnd hp)]

/-- A move of the table fails on the first octet after the blanks, or at the end of the input,
and names it. -/
theorem Phase.advance_eq_error {p : Phase} {j : Nat} {f : Failure} (hp : p.isEnd = false)
    (hj : j ≤ t.size) (h : p.advance (after t j) = .error f) :
    f = Failure.make .noTransition (blankEnd t j)
      ("no transition from " ++ p.name ++ " on " ++ Code.describe (Code.ofSight t[blankEnd t j]?)) := by
  rw [Phase.advance_after p hj] at h
  split_ifs at h with hlt
  · rcases hs : p.step t[blankEnd t j].toNat (blankEnd t j) with g | m <;> rw [hs] at h
    · cases h
      rw [Phase.step_eq_error hp hs, Array.getElem?_eq_getElem hlt, Code.ofSight_some]
    · cases h
  · have he : blankEnd t j = t.size := Nat.le_antisymm (blankEnd_le hj) (Nat.le_of_not_lt hlt)
    rcases hs : p.step Code.stop t.size with g | m <;> rw [hs] at h
    · cases h
      rw [Phase.step_eq_error hp hs, he, Array.getElem?_eq_none (le_refl t.size),
        Code.ofSight_none]
    · cases h

/-- Everything a move of the table does: take the edge on the first octet after the blanks, or
give that octet back out of `arrayStart`. -/
theorem Phase.advance_eq_ok {p q : Phase} {j : Nat} {c : Cursor} (hj : j ≤ t.size)
    (h : p.advance (after t j) = .ok (q, c)) :
    (∃ hlt : blankEnd t j < t.size, (p, (t[blankEnd t j].toNat : Int), q) ∈ Phase.edges ∧
        c = after t (blankEnd t j + 1)) ∨
      (p = .arrayStart ∧ q = .nextElement ∧ c = after t (blankEnd t j)) := by
  rw [Phase.advance_after p hj] at h
  split_ifs at h with hlt
  · rcases hs : p.step t[blankEnd t j].toNat (blankEnd t j) with g | m <;> rw [hs] at h
    · cases h
    · simp only [Except.ok.injEq, Prod.mk.injEq] at h
      obtain ⟨rfl, rfl⟩ := h
      rcases Phase.step_ok hs with ⟨hg, he⟩ | ⟨hg, hp, ht, -⟩
      · exact .inl ⟨hlt, he, by simp [hg]⟩
      · exact .inr ⟨hp, ht, by simp [hg]⟩
  · have he : blankEnd t j = t.size := Nat.le_antisymm (blankEnd_le hj) (Nat.le_of_not_lt hlt)
    rcases hs : p.step Code.stop t.size with g | m <;> rw [hs] at h
    · cases h
    · simp only [Except.ok.injEq, Prod.mk.injEq] at h
      obtain ⟨rfl, rfl⟩ := h
      rcases Phase.step_ok hs with ⟨-, he'⟩ | ⟨hg, hp, ht, -⟩
      · exact absurd (Phase.edge_code_nonneg he') (by simp [Code.stop])
      · exact .inr ⟨hp, ht, by simp [hg, he]⟩

theorem readNumber_error_offset {raw : Bytes} {no : NumberOptions} {g : Failure}
    (h : readNumber raw no = .error g) : g.offset = -1 := by
  unfold readNumber at h
  split at h
  · cases h
    rfl
  · split at h
    · cases h
    · split at h
      · cases h
        rfl
      · split at h
        · cases h
          rfl
        · split at h
          · split at h
            · cases h
              rfl
            · cases h
          · cases h

/-- A string fails on its opening quote when its body does not unescape, and at the end of the
input when it is not closed. -/
theorem readStringStep_error {i : Nat} (hq : OnQuote t i) {f : Failure}
    (h : readStringStep o (after t i) = .error f) :
    (f.cls = .invalidEscape ∧ f.offset = (i - 1 : Nat) ∧ BadString o (t.toList.drop (i - 1))) ∨
      (f.cls = .unterminatedString ∧ f.offset = t.size) := by
  rw [readStringStep_after o hq.1 hq.2] at h
  cases hs : scanQuote t i with
  | closed j =>
    obtain ⟨-, -, hbody⟩ := scanQuote_closed hs
    cases hc : stringContent o (slice t i j) with
    | some k => simp [hs, hc] at h
    | none =>
      simp only [hs, hc, Except.error.injEq] at h
      subst h
      refine .inl ⟨rfl, rfl, ?_⟩
      rw [drop_toList_pred hq.1 hq.2]
      exact .mk hbody hc
  | unclosed =>
    simp only [hs, Except.error.injEq] at h
    subst h
    exact .inr ⟨rfl, by simp [Cursor.failure, Failure.make]⟩
  | unclosedEscape =>
    simp only [hs, Except.error.injEq] at h
    subst h
    exact .inr ⟨rfl, by simp [Cursor.failure, Failure.make]⟩

/-- A numeric run fails on its first octet: as no number, or as a bound passed. -/
theorem readNumberStep_error {i : Nat} {b : UInt8} (h0 : 0 < i) (hb : t[i - 1]? = some b)
    (hn : numberStart b = true) {f : Failure} (h : readNumberStep o (after t i) = .error f) :
    f.offset = (i - 1 : Nat) ∧
      (f.cls = .boundExceeded ∨ (f.cls = .invalidNumber ∧ BadNumber o (t.toList.drop (i - 1)))) := by
  rw [readNumberStep_after o h0 hb hn] at h
  obtain ⟨hsplit, hslice, hrun, hmax⟩ := run_text Code.isNumberPart h0 hb
  cases hr : readNumber (slice t (i - 1) (runEnd Code.isNumberPart t i)) o.numberOptions with
  | ok y => simp [hr] at h
  | error g =>
    simp only [hr, Except.error.injEq] at h
    subst h
    refine ⟨by simp [Failure.placeAt, readNumber_error_offset hr], ?_⟩
    rw [placeAt_cls]
    rcases readNumber_error_cls hr with hc | hc
    · refine .inr ⟨hc, ?_⟩
      rw [hsplit]
      exact .mk hn hrun hmax (hslice ▸ hr) hc
    · exact .inl hc

/-- A run of letters fails on its first letter when it spells no literal, and at the end of the
input when it runs there. -/
theorem readLiteralStep_error {i : Nat} {b : UInt8} (h0 : 0 < i) (hb : t[i - 1]? = some b)
    (hl : literalStart b = true) {f : Failure} (h : readLiteralStep (after t i) = .error f) :
    (f.cls = .unknownLiteral ∧ f.offset = (i - 1 : Nat) ∧ BadLiteral (t.toList.drop (i - 1))) ∨
      (f.cls = .unterminatedLiteral ∧ f.offset = t.size) := by
  rw [readLiteralStep_after h0 hb (letter_of_literalStart hl)] at h
  obtain ⟨hsplit, hslice, hrun, hmax⟩ := run_text Code.isLetter h0 hb
  split_ifs at h with hk
  · cases hv : literalValue (slice t (i - 1) (runEnd Code.isLetter t i)) with
    | some v => simp [hv] at h
    | none =>
      simp only [hv, Except.error.injEq] at h
      subst h
      refine .inl ⟨rfl, rfl, ?_⟩
      -- text follows the run, since it ends before the input does
      have hne : t.toList.drop (runEnd Code.isLetter t i) ≠ [] := by
        rw [drop_toList_cons hk]
        simp
      rw [hsplit]
      exact .mk hl hrun hmax hne (hslice ▸ hv)
  · cases h
    have hle := runEnd_le Code.isLetter (i := i) (t := t) (by have := octet_index_lt hb; omega)
    exact .inr ⟨rfl, by simp [Cursor.failure, Failure.make]; omega⟩

/-! ## Where the phases are reached -/

theorem separator_of_edge {p q : Phase} {b : UInt8} (h : (p, (b.toNat : Int), q) ∈ Phase.edges)
    (hq : q.isEnd = false) (hn : q ≠ .propertyName) : separator b = true := by
  rcases mem_edges.mp h with ⟨-, rfl, rfl⟩ | ⟨-, rfl, rfl⟩ | ⟨-, rfl, rfl⟩ | ⟨-, rfl, rfl⟩ |
    ⟨-, rfl, rfl⟩ | ⟨-, rfl, rfl⟩ | ⟨-, rfl, rfl⟩ | ⟨-, rfl, rfl⟩ | ⟨-, rfl, rfl⟩ | ⟨-, rfl, rfl⟩ |
    ⟨-, rfl, rfl⟩ <;> simp_all [Phase.isEnd, separator]

/-- The edges into `propertyName` are on the quote of a key, out of the two phases before one. -/
theorem quote_of_edge {p : Phase} {b : UInt8} (h : (p, (b.toNat : Int), .propertyName) ∈ Phase.edges) :
    b = 0x22 ∧ (p = .objectStart ∨ p = .nextProperty) := by
  have hm := mem_edges.mp h
  simp only [reduceCtorEq, and_false, false_or, or_false, and_true] at hm
  rcases hm with ⟨rfl, rfl⟩ | ⟨rfl, rfl⟩ <;> simp

/-- A move of the table reaches each phase where its placement holds. -/
theorem Phase.placed_of_advance {p q : Phase} {j k : Nat} (hj : j ≤ t.size)
    (hd : p = .objectStart ∨ p = .nextProperty ∨ p = .arrayStart → Delimited t j)
    (h : p.advance (after t j) = .ok (q, after t k)) : q.Placed t k := by
  rcases Phase.advance_eq_ok hj h with ⟨hlt, he, hk⟩ | ⟨rfl, rfl, hk⟩
  · obtain rfl : k = blankEnd t j + 1 := by simpa [after] using hk
    have hget : t[blankEnd t j + 1 - 1]? = some t[blankEnd t j] := by simp [hlt]
    by_cases hn : q = .propertyName
    · -- a key's quote, after blanks that follow a separator
      subst hn
      obtain ⟨hb, hp⟩ := quote_of_edge he
      refine ⟨⟨by omega, by rw [hget, hb]⟩, ?_⟩
      simpa using delimited_blankEnd (hd (by rcases hp with rfl | rfl <;> simp))
    · -- any other phase an edge leads to stands after the edge's separator, or asks nothing
      cases q with
      | init | objectEnd | arrayEnd => trivial
      | propertyName => exact absurd rfl hn
      | objectStart | arrayStart | propertyValue | nextProperty | nextElement =>
        exact ⟨_, by omega, hget, separator_of_edge he rfl hn⟩
  · -- the wildcard gives back the octet after the blanks
    obtain rfl : k = blankEnd t j := by simpa [after] using hk
    exact delimited_blankEnd (hd (by simp))

/-- The entry actions of the phases before a key or an element do not move the cursor. -/
theorem delimited_of_entry {d F i j : Nat} {p : Phase} {s s₁ : List Pending} (hp : p.Placed t i)
    (he : enterPhase o d p s F (after t i) = .ok (s₁, after t j)) :
    p = .objectStart ∨ p = .nextProperty ∨ p = .arrayStart → Delimited t j := by
  intro hpd
  cases F with
  | zero => cases he
  | succ F =>
    rcases hpd with rfl | rfl | rfl
    · rw [enterPhase_objectStart] at he
      cases he
      exact hp
    · rw [enterPhase_idle o d (.inr (.inl rfl))] at he
      cases he
      exact hp
    · rw [enterPhase_arrayStart] at he
      cases he
      exact hp

/-! ## Every run ends where it should -/

theorem readStringStep_ends {i : Nat} (hq : OnQuote t i) (hd : Delimited t (i - 1)) :
    Ends o t i (readStringStep o (after t i)) := by
  rcases hr : readStringStep o (after t i) with f | ⟨k, c⟩
  · have hlt := octet_index_lt hq.2
    rcases readStringStep_error hq hr with ⟨hc, ho, hbad⟩ | ⟨hc, ho⟩
    · exact Failure.sited_token ho (by omega) (by rw [hc]; rfl) (by rw [hc]; exact ⟨hd, hbad⟩)
    · exact Failure.sited_plain ho le_rfl (by rw [hc]; rfl) (by rw [hc]; rfl)
  · have hl := readStringStep_lands o (t := t) (i := i)
    rw [hr] at hl
    exact hl

theorem readNumberStep_ends {i : Nat} {b : UInt8} (h0 : 0 < i) (hi : i ≤ t.size)
    (hb : t[i - 1]? = some b) (hn : numberStart b = true) (hd : Delimited t (i - 1)) :
    Ends o t i (readNumberStep o (after t i)) := by
  rcases hr : readNumberStep o (after t i) with f | ⟨x, c⟩
  · obtain ⟨ho, hc | ⟨hc, hbad⟩⟩ := readNumberStep_error h0 hb hn hr
    · exact Failure.sited_plain ho (by omega) (by rw [hc]; rfl) (by rw [hc]; rfl)
    · exact Failure.sited_token ho (by omega) (by rw [hc]; rfl) (by rw [hc]; exact ⟨hd, hbad⟩)
  · have hl := readNumberStep_lands o h0 hi hb hn
    rw [hr] at hl
    exact hl

theorem readLiteralStep_ends {i : Nat} {b : UInt8} (h0 : 0 < i) (hb : t[i - 1]? = some b)
    (hl : literalStart b = true) (hd : Delimited t (i - 1)) :
    Ends o t i (readLiteralStep (after t i)) := by
  have hlt := octet_index_lt hb
  rcases hr : readLiteralStep (after t i) with f | ⟨v, c⟩
  · rcases readLiteralStep_error h0 hb hl hr with ⟨hc, ho, hbad⟩ | ⟨hc, ho⟩
    · exact Failure.sited_token ho (by omega) (by rw [hc]; rfl) (by rw [hc]; exact ⟨hd, hbad⟩)
    · exact Failure.sited_plain ho le_rfl (by rw [hc]; rfl) (by rw [hc]; rfl)
  · have hl' := readLiteralStep_lands h0 hb (letter_of_literalStart hl)
    rw [hr] at hl'
    exact hl'

section Sites

variable (o)

mutual

theorem readContainer_ends {i : Nat} (hi : i ≤ t.size) (d : Nat) :
    ∀ F, Ends o t i (readContainer o d F (after t i))
  | 0 => Ends.internal hi _
  | F + 1 => by
    rw [readContainer_succ]
    exact walk_ends hi d (p := .init) rfl trivial F
termination_by structural F => F

theorem walk_ends {i : Nat} (hi : i ≤ t.size) (d : Nat) {p : Phase} {s : List Pending}
    (hs : p.Arrives s) (hp : p.Placed t i) : ∀ F, Ends o t i (walk o d p s F (after t i))
  | 0 => Ends.internal hi _
  | F + 1 => by
    cases hend : p.isEnd with
    | true =>
      rw [walk_end o d hend]
      obtain ⟨v, hv⟩ := Pending.result_of_holds hend (Phase.holds_of_arrives_end hend hs) _
      rw [hv]
      exact Ends.at_start hi
    | false =>
      rw [walk_step o d hend]
      have he := enterPhase_ends hi d hs hp hend F
      rcases hr : enterPhase o d p s F (after t i) with f | ⟨s₁, c₁⟩
      · rw [hr] at he
        exact he
      · rw [hr] at he
        obtain ⟨j, rfl, hij, hj⟩ := he
        simp only
        rcases ha : p.advance (after t j) with f | ⟨q, c₂⟩
        · -- no edge: the failure names the octet after the blanks
          rw [Phase.advance_eq_error hend hj ha]
          exact Failure.sited_octet rfl (blankEnd_le hj) (le_trans hij (le_blankEnd t j)) ⟨p, rfl⟩
            rfl
        · simp only
          obtain ⟨k, rfl, hjk, hk, -⟩ := Phase.advance_moves hj ha
          have hq := Phase.arrives_of_advance ha (Phase.holds_of_enterPhase hr hs)
          have hpq := Phase.placed_of_advance hj (delimited_of_entry hp hr) ha
          exact (walk_ends hk d hq hpq F).mono (le_trans hij hjk)
termination_by structural F => F

theorem enterPhase_ends {i : Nat} (hi : i ≤ t.size) (d : Nat) {p : Phase} {s : List Pending}
    (hs : p.Arrives s) (hp : p.Placed t i) (hend : p.isEnd = false) :
    ∀ F, Ends o t i (enterPhase o d p s F (after t i))
  | 0 => Ends.internal hi _
  | F + 1 => by
    cases p with
    | init | nextProperty | objectEnd | arrayEnd =>
      rw [enterPhase_idle o d (by simp)]
      exact Ends.at_start hi
    | objectStart =>
      rw [enterPhase_objectStart]
      exact Ends.at_start hi
    | arrayStart =>
      rw [enterPhase_arrayStart]
      exact Ends.at_start hi
    | propertyName =>
      rw [enterPhase_propertyName]
      have hl := readStringStep_ends (o := o) hp.1 hp.2
      rcases hr : readStringStep o (after t i) with f | ⟨k, c₁⟩ <;> rw [hr] at hl <;> exact hl
    | propertyValue | nextElement =>
      rw [enterPhase_value o d (by simp)]
      have hl := (readValueStep_ends hi d hp F).mono (le_blankEnd t i)
      rcases hr : readValueStep o d F (after t i) with f | ⟨v, c₁⟩
      · rw [hr] at hl
        exact hl
      · rw [hr] at hl
        obtain ⟨s', hs'⟩ := Pending.attach_of_arrives (by simp) hs v (after t i).offset
        simp only [hs']
        exact hl
termination_by structural F => F

/-- A value is read from the first octet after the blanks: what names an octet names one there
or later. -/
theorem readValueStep_ends {i : Nat} (hi : i ≤ t.size) (d : Nat) (hd : Delimited t i) :
    ∀ F, Ends o t (blankEnd t i) (readValueStep o d F (after t i))
  | 0 => Ends.internal hi _
  | F + 1 => by
    rw [readValueStep_after o d hi]
    have hb := le_blankEnd t i
    have hdb := delimited_blankEnd hd
    have hat : ∀ hlt : blankEnd t i < t.size,
        t[blankEnd t i + 1 - 1]? = some t[blankEnd t i] := fun hlt => by simp [hlt]
    split_ifs with hlt hq hn hl hbr hdep
    · exact (Ends.map _ (readStringStep_ends ⟨by omega, by rw [hat hlt, hq]⟩
        (by simpa using hdb))).mono (by omega)
    · exact (readNumberStep_ends (by omega) (by omega) (hat hlt) hn
        (by simpa using hdb)).mono (by omega)
    · exact (readLiteralStep_ends (by omega) (hat hlt) hl (by simpa using hdb)).mono (by omega)
    · -- the depth limit, passed one octet before the bracket
      exact Failure.sited_plain rfl (by omega) rfl rfl
    · exact readContainer_ends hlt.le (d + 1) F
    · -- no value starts here
      refine Failure.sited_octet rfl hlt.le le_rfl ?_ rfl
      rw [Array.getElem?_eq_getElem hlt]
      rfl
    · have he : blankEnd t i = t.size := Nat.le_antisymm (blankEnd_le hi) (Nat.le_of_not_lt hlt)
      refine Failure.sited_octet rfl le_rfl (by omega) ?_ rfl
      rw [Array.getElem?_eq_none (le_refl t.size)]
      rfl
termination_by structural F => F

end

end Sites

/-- Everything a failed read of a document can be: the size check, a failure of the container,
or content after the container, on the first octet after its blanks. -/
theorem readDocument_error_cases {f : Failure} (h : readDocument o t = .error f) :
    (o.sizeLimit < t.size ∧ f.cls = .boundExceeded ∧ f.offset = 0) ∨
      (¬o.sizeLimit < t.size ∧ readContainer o 1 (fuelFor t.size) (after t 0) = .error f) ∨
      ∃ v j, ¬o.sizeLimit < t.size ∧
        readContainer o 1 (fuelFor t.size) (after t 0) = .ok (v, after t j) ∧
        blankEnd t j < t.size ∧ f.cls = .trailingContent ∧ f.offset = blankEnd t j ∧
        f.Describes (Code.ofSight t[blankEnd t j]?) := by
  by_cases hs : o.sizeLimit < t.size
  · unfold readDocument at h
    rw [if_pos hs] at h
    cases h
    exact .inl ⟨hs, rfl, rfl⟩
  · rw [readDocument_within o hs] at h
    have hl := readContainer_ends o (t := t) (Nat.zero_le _) 1 (fuelFor t.size)
    rcases hr : readContainer o 1 (fuelFor t.size) (after t 0) with f' | ⟨v, c⟩ <;> rw [hr] at h hl
    · cases h
      exact .inr (.inl ⟨hs, rfl⟩)
    · obtain ⟨j, rfl, -, hj⟩ := hl
      simp only [skipBlanks_after] at h
      by_cases hlt : blankEnd t j < t.size
      · -- trailing content on the octet after the blanks
        rw [next_after_lt hlt] at h
        split_ifs at h
        cases h
        refine .inr (.inr ⟨v, j, hs, rfl, hlt, rfl, rfl, ?_⟩)
        rw [Array.getElem?_eq_getElem hlt]
        rfl
      · have he : blankEnd t j = t.size := Nat.le_antisymm (blankEnd_le hj) (Nat.le_of_not_lt hlt)
        rw [he, next_after_size] at h
        simp at h

/-- A document read fails where its failure says, as above, for a step that began at the start
of the input. -/
theorem readDocument_sited {f : Failure} (h : readDocument o t = .error f) : f.Sited o t 0 := by
  rcases readDocument_error_cases h with ⟨-, hc, ho⟩ | ⟨-, hr⟩ | ⟨v, j, -, -, hlt, hc, ho, hd⟩
  · exact Failure.sited_plain ho (Nat.zero_le _) (by rw [hc]; rfl) (by rw [hc]; rfl)
  · have hl := readContainer_ends o (t := t) (Nat.zero_le _) 1 (fuelFor t.size)
    rw [hr] at hl
    exact hl
  · exact Failure.sited_octet ho hlt.le (Nat.zero_le _) hd (by rw [hc]; rfl)

end ExactJson
