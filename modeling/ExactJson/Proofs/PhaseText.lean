import Mathlib
import ExactJson.Proofs.ReaderSteps

/-!
# What each phase expects of the text

The walk over a container reads its text in turns: an entry action, then blanks, one code and
the next phase. This module says, with the grammar alone, what the text ahead must be when a
phase is reached with its stack, for the walk to build a given container and leave a given rest:

* `Entered`: what an entry action consumes, and how it changes the stack;
* `AdvanceText`: what one move consumes: blanks and the code of an edge, or, out of
  `arrayStart`, the blanks before the first element, whose first code is given back;
* `Expects`: the rest of the container, phase by phase.

`expects_iff_turn` is the fact the two directions of the reader's correctness share: what a phase
expects is exactly an entry, a move, and what the next phase expects.
-/

namespace ExactJson.Grammar

/-! ## The grammar, taken apart -/

section Parts

variable {o : ReadOptions} {n : Nat}

/-- Sets the pairs `ps`, in order, into an object that already holds `ms`. -/
def setAll (ms ps : List (Bytes × Value)) : List (Bytes × Value) :=
  ps.foldl (fun ms p => Members.set ms p.1 p.2) ms

@[simp] theorem setAll_nil (ms : List (Bytes × Value)) : setAll ms [] = ms := rfl

@[simp] theorem setAll_cons (ms : List (Bytes × Value)) (p : Bytes × Value)
    (ps : List (Bytes × Value)) : setAll ms (p :: ps) = setAll (Members.set ms p.1 p.2) ps := rfl

theorem Blanks.trans {s s₁ r : Bytes} (h : Blanks s s₁) (h₁ : Blanks s₁ r) : Blanks s r := by
  induction h with
  | nil => exact h₁
  | cons hb _ ih => exact .cons hb (ih h₁)

/-- Blanks before a text that starts with no blank are none. -/
theorem Blanks.eq_of_head {s r : Bytes} (h : Blanks s r) (hs : ∀ b ∈ s.head?, blank b = false) :
    r = s := by
  cases h with
  | nil => rfl
  | cons hb _ => simp_all

theorem Blanks.eq_drop {s r : Bytes} (h : Blanks s r) : ∃ m, r = s.drop m := by
  induction h with
  | nil s => exact ⟨0, rfl⟩
  | cons _ _ ih =>
    obtain ⟨m, rfl⟩ := ih
    exact ⟨m + 1, rfl⟩

theorem Blanks.ne_nil {s r : Bytes} {b : UInt8} (h : Blanks s (b :: r)) : s ≠ [] := by
  cases h <;> simp

/-- A value starts with an octet that is no blank and no closing bracket. -/
theorem ValueText.head {s r : Bytes} {x : Value} (h : ValueText o n s x r) :
    ∃ b s', s = b :: s' ∧ blank b = false ∧ b ≠ 0x5D := by
  have hcode : ∀ b : UInt8, numberStart b = true ∨ literalStart b = true →
      blank b = false ∧ b ≠ 0x5D := by
    intro b hb
    refine ⟨?_, fun h => by subst h; revert hb; decide⟩
    simp only [numberStart, literalStart, Code.isNumberStart, Code.isDigit, Code.isLiteralStart,
      Bool.or_eq_true, decide_eq_true_eq, Bool.and_eq_true] at hb
    simp only [blank, Code.isBlank, Bool.or_eq_false_iff, decide_eq_false_iff_not]
    omega
  cases h with
  | string hs => cases hs; exact ⟨_, _, rfl, by decide, by decide⟩
  | number hs => cases hs with | mk hb _ _ _ => exact ⟨_, _, rfl, hcode _ (.inl hb)⟩
  | literal hs => cases hs with | mk hb _ _ _ => exact ⟨_, _, rfl, hcode _ (.inr hb)⟩
  | container hs => cases hs <;> exact ⟨_, _, rfl, by decide, by decide⟩

theorem MembersText.head {s r : Bytes} {ps : List (Bytes × Value)} (h : MembersText o n s ps r) :
    ∃ s', s = 0x22 :: s' := by
  cases h with
  | one hm => cases hm with | mk hs _ _ _ => cases hs; exact ⟨_, rfl⟩
  | cons hm _ _ _ => cases hm with | mk hs _ _ _ => cases hs; exact ⟨_, rfl⟩

theorem ElementsText.head {s r : Bytes} {xs : List Value} (h : ElementsText o n s xs r) :
    ∃ b s', s = b :: s' ∧ blank b = false ∧ b ≠ 0x5D := by
  cases h with
  | one hx => exact hx.head
  | cons hx _ _ _ => exact hx.head

/-- The members of an object from the next member to read through the closing brace, set into
the members `ms` read so far. -/
def MembersClose (o : ReadOptions) (n : Nat) (ms : List (Bytes × Value)) (s : Bytes) (v : Value)
    (r : Bytes) : Prop :=
  ∃ ps s₁, MembersText o n s ps s₁ ∧ Blanks s₁ (0x7D :: r) ∧ v = .obj (setAll ms ps)

/-- What may follow the value of a member: the closing brace, or a comma and more members. -/
def MembersEnd (o : ReadOptions) (n : Nat) (ms : List (Bytes × Value)) (s : Bytes) (v : Value)
    (r : Bytes) : Prop :=
  (Blanks s (0x7D :: r) ∧ v = .obj ms) ∨
    ∃ s₁ s₂, Blanks s (0x2C :: s₁) ∧ Blanks s₁ s₂ ∧ MembersClose o n ms s₂ v r

/-- The elements of an array from the next element to read through the closing bracket,
appended to the elements `es` read so far. -/
def ElementsClose (o : ReadOptions) (n : Nat) (es : Array Value) (s : Bytes) (v : Value)
    (r : Bytes) : Prop :=
  ∃ xs s₁, ElementsText o n s xs s₁ ∧ Blanks s₁ (0x5D :: r) ∧ v = .arr (es.toList ++ xs)

/-- What may follow an element: the closing bracket, or a comma and more elements. -/
def ElementsEnd (o : ReadOptions) (n : Nat) (es : Array Value) (s : Bytes) (v : Value)
    (r : Bytes) : Prop :=
  (Blanks s (0x5D :: r) ∧ v = .arr es.toList) ∨
    ∃ s₁ s₂, Blanks s (0x2C :: s₁) ∧ Blanks s₁ s₂ ∧ ElementsClose o n es s₂ v r

/-- Members come apart into the first member and what follows its value. -/
theorem membersClose_iff {ms : List (Bytes × Value)} {s r : Bytes} {v : Value} :
    MembersClose o n ms s v r ↔
      ∃ k x s₁ s₂ s₃ s₄, StringText o s k s₁ ∧ Blanks s₁ (0x3A :: s₂) ∧ Blanks s₂ s₃ ∧
        ValueText o n s₃ x s₄ ∧ MembersEnd o n (Members.set ms k x) s₄ v r := by
  constructor
  · rintro ⟨ps, s₅, hms, hend, rfl⟩
    cases hms with
    | one hm =>
      obtain ⟨hk, hc, hb, hx⟩ := hm
      exact ⟨_, _, _, _, _, _, hk, hc, hb, hx, .inl ⟨hend, rfl⟩⟩
    | cons hm hsep hb₁ hrest =>
      obtain ⟨hk, hc, hb, hx⟩ := hm
      exact ⟨_, _, _, _, _, _, hk, hc, hb, hx, .inr ⟨_, _, hsep, hb₁, _, _, hrest, hend, rfl⟩⟩
  · rintro ⟨k, x, s₁, s₂, s₃, s₄, hk, hc, hb, hx,
      hend | ⟨s₅, s₆, hsep, hb₁, ps, s₇, hrest, he, rfl⟩⟩
    · obtain ⟨he, rfl⟩ := hend
      exact ⟨[(k, x)], s₄, .one (.mk hk hc hb hx), he, rfl⟩
    · exact ⟨(k, x) :: ps, s₇, .cons (.mk hk hc hb hx) hsep hb₁ hrest, he, rfl⟩

/-- Elements come apart into the first element and what follows it. -/
theorem elementsClose_iff {es : Array Value} {s r : Bytes} {v : Value} :
    ElementsClose o n es s v r ↔
      ∃ x s₁, ValueText o n s x s₁ ∧ ElementsEnd o n (es.push x) s₁ v r := by
  constructor
  · rintro ⟨xs, s₅, hxs, hend, rfl⟩
    cases hxs with
    | one hx => exact ⟨_, _, hx, .inl ⟨hend, by simp⟩⟩
    | cons hx hsep hb hrest => exact ⟨_, _, hx, .inr ⟨_, _, hsep, hb, _, _, hrest, hend, by simp⟩⟩
  · rintro ⟨x, s₁, hx, ⟨he, rfl⟩ | ⟨s₂, s₃, hsep, hb, xs, s₄, hrest, he, rfl⟩⟩
    · exact ⟨[x], s₁, .one hx, he, by simp⟩
    · exact ⟨x :: xs, s₄, .cons hx hsep hb hrest, he, by simp⟩

end Parts

/-! ## Turns of the walk -/

section Turns

variable {o : ReadOptions} {n : Nat}

/-- The edges of the table, on octets. -/
theorem mem_edges {p q : Phase} {b : UInt8} :
    (p, (b.toNat : Int), q) ∈ Phase.edges ↔
      (p = .init ∧ b = 0x7B ∧ q = .objectStart) ∨ (p = .init ∧ b = 0x5B ∧ q = .arrayStart) ∨
      (p = .objectStart ∧ b = 0x7D ∧ q = .objectEnd) ∨
      (p = .objectStart ∧ b = 0x22 ∧ q = .propertyName) ∨
      (p = .nextProperty ∧ b = 0x22 ∧ q = .propertyName) ∨
      (p = .propertyName ∧ b = 0x3A ∧ q = .propertyValue) ∨
      (p = .propertyValue ∧ b = 0x2C ∧ q = .nextProperty) ∨
      (p = .propertyValue ∧ b = 0x7D ∧ q = .objectEnd) ∨
      (p = .arrayStart ∧ b = 0x5D ∧ q = .arrayEnd) ∨
      (p = .nextElement ∧ b = 0x2C ∧ q = .nextElement) ∨
      (p = .nextElement ∧ b = 0x5D ∧ q = .arrayEnd) := by
  cases p <;> cases q <;> simp [Phase.edges, ← UInt8.toNat_inj] <;> omega

/-- One move of the table over the text `u`, leaving `u'`: blanks and the octet of an edge, or,
out of `arrayStart`, blanks up to an octet that is no `]`, which is given back. -/
def AdvanceText (p q : Phase) (u u' : Bytes) : Prop :=
  (∃ b : UInt8, (p, (b.toNat : Int), q) ∈ Phase.edges ∧ Blanks u (b :: u')) ∨
    (p = .arrayStart ∧ q = .nextElement ∧ Blanks u u' ∧
      ∀ b ∈ u'.head?, blank b = false ∧ b ≠ 0x5D)

theorem AdvanceText.edge {p q : Phase} {u u' : Bytes} (h : AdvanceText p q u u')
    (hp : p ≠ .arrayStart) :
    ∃ b : UInt8, (p, (b.toNat : Int), q) ∈ Phase.edges ∧ Blanks u (b :: u') := by
  rcases h with h | ⟨rfl, -⟩
  · exact h
  · exact absurd rfl hp

/-- What the entry action of phase `p`, reached with stack `s` before the text `u`, reads: it
leaves the stack `s'` and the text `u'`. Keys and values are read as the grammar has them; the
phases with no entry action read nothing. -/
def Entered (o : ReadOptions) (n : Nat) :
    Phase → List Pending → Bytes → List Pending → Bytes → Prop
  | .init, [], u, s', u' => s' = [] ∧ u' = u
  | .objectStart, [], u, s', u' => s' = [.object []] ∧ u' = u
  | .arrayStart, [], u, s', u' => s' = [.array #[]] ∧ u' = u
  | .propertyName, [.object ms], u, s', u' =>
      ∃ k, StringText o (0x22 :: u) k u' ∧ s' = [.key k, .object ms]
  | .propertyValue, [.key k, .object ms], u, s', u' =>
      ∃ x u₁, Blanks u u₁ ∧ ValueText o n u₁ x u' ∧ s' = [.object (Members.set ms k x)]
  | .nextProperty, [.object ms], u, s', u' => s' = [.object ms] ∧ u' = u
  | .nextElement, [.array es], u, s', u' =>
      ∃ x u₁, Blanks u u₁ ∧ ValueText o n u₁ x u' ∧ s' = [.array (es.push x)]
  | _, _, _, _, _ => False

/-- What the text `u` ahead must be when phase `p` is reached with stack `s`, for the walk to
finish the container as `v` and leave `r`; values inside the container nest at most `n` deep.
The phase stands just after the code that led to it; in `propertyName` that code is the key's
opening quote, which is why its text is taken after a quote. -/
def Expects (o : ReadOptions) (n : Nat) : Phase → List Pending → Bytes → Value → Bytes → Prop
  | .init, [], u, v, r => ∃ u₁, Blanks u u₁ ∧ ContainerText o (n + 1) u₁ v r
  | .objectStart, [], u, v, r => ContainerText o (n + 1) (0x7B :: u) v r
  | .arrayStart, [], u, v, r => ContainerText o (n + 1) (0x5B :: u) v r
  | .propertyName, [.object ms], u, v, r => MembersClose o n ms (0x22 :: u) v r
  | .propertyValue, [.key k, .object ms], u, v, r =>
      ∃ x u₁ u₂, Blanks u u₁ ∧ ValueText o n u₁ x u₂ ∧ MembersEnd o n (Members.set ms k x) u₂ v r
  | .nextProperty, [.object ms], u, v, r => ∃ u₁, Blanks u u₁ ∧ MembersClose o n ms u₁ v r
  | .nextElement, [.array es], u, v, r => ∃ u₁, Blanks u u₁ ∧ ElementsClose o n es u₁ v r
  | .objectEnd, [.object ms], u, v, r => v = .obj ms ∧ u = r
  | .arrayEnd, [.array es], u, v, r => v = .arr es.toList ∧ u = r
  | _, _, _, _, _ => False

/-- The text of one turn out of phase `p`: its entry action, a move to some phase `q`, and what
`q` expects. -/
def TurnText (o : ReadOptions) (n : Nat) (p : Phase) (s : List Pending) (u : Bytes) (v : Value)
    (r : Bytes) : Prop :=
  ∃ s' u₁ q u₂, Entered o n p s u s' u₁ ∧ AdvanceText p q u₁ u₂ ∧ Expects o n q s' u₂ v r

theorem ContainerText.head {m : Nat} {u r : Bytes} {v : Value} (h : ContainerText o m u v r) :
    ∃ u', u = 0x7B :: u' ∨ u = 0x5B :: u' := by
  cases h <;> first | exact ⟨_, .inl rfl⟩ | exact ⟨_, .inr rfl⟩

variable {u r : Bytes} {v : Value}

theorem turn_init : Expects o n .init [] u v r ↔ TurnText o n .init [] u v r := by
  constructor
  · rintro ⟨u₁, hb, hc⟩
    obtain ⟨u', rfl | rfl⟩ := hc.head
    · exact ⟨[], u, .objectStart, u', ⟨rfl, rfl⟩, .inl ⟨0x7B, mem_edges.mpr (by simp), hb⟩, hc⟩
    · exact ⟨[], u, .arrayStart, u', ⟨rfl, rfl⟩, .inl ⟨0x5B, mem_edges.mpr (by simp), hb⟩, hc⟩
  · rintro ⟨s', u₁, q, u₂, ⟨rfl, rfl⟩, hadv, hq⟩
    obtain ⟨b, hm, hb⟩ := hadv.edge (by decide)
    simp only [mem_edges, true_and, reduceCtorEq, false_and, or_false] at hm
    rcases hm with ⟨rfl, rfl⟩ | ⟨rfl, rfl⟩ <;> exact ⟨_, hb, hq⟩

theorem turn_objectStart :
    Expects o n .objectStart [] u v r ↔ TurnText o n .objectStart [] u v r := by
  constructor
  · intro hc
    cases hc with
    | emptyObject hb =>
      exact ⟨_, u, .objectEnd, r, ⟨rfl, rfl⟩, .inl ⟨0x7D, mem_edges.mpr (by simp), hb⟩, rfl, rfl⟩
    | object hb hms hend =>
      obtain ⟨u', rfl⟩ := hms.head
      exact ⟨_, u, .propertyName, u', ⟨rfl, rfl⟩, .inl ⟨0x22, mem_edges.mpr (by simp), hb⟩,
        _, _, hms, hend, rfl⟩
  · rintro ⟨s', u₁, q, u₂, ⟨rfl, rfl⟩, hadv, hq⟩
    obtain ⟨b, hm, hb⟩ := hadv.edge (by decide)
    simp only [mem_edges, true_and, reduceCtorEq, false_and, or_false, false_or] at hm
    rcases hm with ⟨rfl, rfl⟩ | ⟨rfl, rfl⟩
    · obtain ⟨rfl, rfl⟩ := hq
      exact .emptyObject hb
    · obtain ⟨ps, u₃, hms, hend, rfl⟩ := hq
      exact .object hb hms hend

theorem turn_arrayStart : Expects o n .arrayStart [] u v r ↔ TurnText o n .arrayStart [] u v r := by
  constructor
  · intro hc
    cases hc with
    | emptyArray hb =>
      exact ⟨_, u, .arrayEnd, r, ⟨rfl, rfl⟩, .inl ⟨0x5D, mem_edges.mpr (by simp), hb⟩, rfl, rfl⟩
    | array hb hxs hend =>
      -- the first element's octet is no `]`, so the wildcard gives it back
      obtain ⟨b, u', rfl, hbl, hb5⟩ := hxs.head
      exact ⟨_, u, .nextElement, b :: u', ⟨rfl, rfl⟩, .inr ⟨rfl, rfl, hb, by simp [hbl, hb5]⟩,
        _, .nil _, _, _, hxs, hend, by simp⟩
  · rintro ⟨s', u₁, q, u₂, ⟨rfl, rfl⟩, ⟨b, hm, hb⟩ | ⟨-, rfl, hb, -⟩, hq⟩
    · simp only [mem_edges, true_and, reduceCtorEq, false_and, or_false, false_or] at hm
      obtain ⟨rfl, rfl⟩ := hm
      obtain ⟨rfl, rfl⟩ := hq
      exact .emptyArray hb
    · obtain ⟨u₃, hb₃, xs, u₄, hxs, hend, rfl⟩ := hq
      show ContainerText o (n + 1) (0x5B :: u₁) _ r
      simpa using ContainerText.array (hb.trans hb₃) hxs hend

theorem turn_propertyName {ms : List (Bytes × Value)} :
    Expects o n .propertyName [.object ms] u v r ↔
      TurnText o n .propertyName [.object ms] u v r := by
  constructor
  · intro h
    obtain ⟨k, x, u₁, u₂, u₃, u₄, hk, hc, hb, hx, hend⟩ := membersClose_iff.mp h
    exact ⟨_, u₁, .propertyValue, u₂, ⟨k, hk, rfl⟩, .inl ⟨0x3A, mem_edges.mpr (by simp), hc⟩,
      x, u₃, u₄, hb, hx, hend⟩
  · rintro ⟨s', u₁, q, u₂, ⟨k, hk, rfl⟩, hadv, hq⟩
    obtain ⟨b, hm, hc⟩ := hadv.edge (by decide)
    simp only [mem_edges, true_and, reduceCtorEq, false_and, or_false, false_or] at hm
    obtain ⟨rfl, rfl⟩ := hm
    obtain ⟨x, u₃, u₄, hb, hx, hend⟩ := hq
    exact membersClose_iff.mpr ⟨k, x, u₁, u₂, u₃, u₄, hk, hc, hb, hx, hend⟩

theorem turn_propertyValue {k : Bytes} {ms : List (Bytes × Value)} :
    Expects o n .propertyValue [.key k, .object ms] u v r ↔
      TurnText o n .propertyValue [.key k, .object ms] u v r := by
  constructor
  · rintro ⟨x, u₁, u₂, hb, hx, ⟨he, rfl⟩ | ⟨u₃, u₄, hsep, hb₄, hclose⟩⟩
    · exact ⟨_, u₂, .objectEnd, r, ⟨x, u₁, hb, hx, rfl⟩,
        .inl ⟨0x7D, mem_edges.mpr (by simp), he⟩, rfl, rfl⟩
    · exact ⟨_, u₂, .nextProperty, u₃, ⟨x, u₁, hb, hx, rfl⟩,
        .inl ⟨0x2C, mem_edges.mpr (by simp), hsep⟩, u₄, hb₄, hclose⟩
  · rintro ⟨s', u₂, q, u₃, ⟨x, u₁, hb, hx, rfl⟩, hadv, hq⟩
    obtain ⟨b, hm, hc⟩ := hadv.edge (by decide)
    simp only [mem_edges, true_and, reduceCtorEq, false_and, or_false, false_or] at hm
    rcases hm with ⟨rfl, rfl⟩ | ⟨rfl, rfl⟩
    · obtain ⟨u₄, hb₄, hclose⟩ := hq
      exact ⟨x, u₁, u₂, hb, hx, .inr ⟨u₃, u₄, hc, hb₄, hclose⟩⟩
    · obtain ⟨rfl, rfl⟩ := hq
      exact ⟨x, u₁, u₂, hb, hx, .inl ⟨hc, rfl⟩⟩

theorem turn_nextProperty {ms : List (Bytes × Value)} :
    Expects o n .nextProperty [.object ms] u v r ↔
      TurnText o n .nextProperty [.object ms] u v r := by
  constructor
  · rintro ⟨u₁, hb, ps, u₂, hms, hend, rfl⟩
    obtain ⟨u', rfl⟩ := hms.head
    exact ⟨_, u, .propertyName, u', ⟨rfl, rfl⟩, .inl ⟨0x22, mem_edges.mpr (by simp), hb⟩,
      ps, u₂, hms, hend, rfl⟩
  · rintro ⟨s', u₁, q, u₂, ⟨rfl, rfl⟩, hadv, hq⟩
    obtain ⟨b, hm, hb⟩ := hadv.edge (by decide)
    simp only [mem_edges, true_and, reduceCtorEq, false_and, or_false, false_or] at hm
    obtain ⟨rfl, rfl⟩ := hm
    exact ⟨_, hb, hq⟩

theorem turn_nextElement {es : Array Value} :
    Expects o n .nextElement [.array es] u v r ↔ TurnText o n .nextElement [.array es] u v r := by
  constructor
  · rintro ⟨u₁, hb, hclose⟩
    obtain ⟨x, u₂, hx, ⟨he, rfl⟩ | ⟨u₃, u₄, hsep, hb₄, hclose'⟩⟩ := elementsClose_iff.mp hclose
    · exact ⟨_, u₂, .arrayEnd, r, ⟨x, u₁, hb, hx, rfl⟩,
        .inl ⟨0x5D, mem_edges.mpr (by simp), he⟩, rfl, rfl⟩
    · exact ⟨_, u₂, .nextElement, u₃, ⟨x, u₁, hb, hx, rfl⟩,
        .inl ⟨0x2C, mem_edges.mpr (by simp), hsep⟩, u₄, hb₄, hclose'⟩
  · rintro ⟨s', u₂, q, u₃, ⟨x, u₁, hb, hx, rfl⟩, hadv, hq⟩
    obtain ⟨b, hm, hc⟩ := hadv.edge (by decide)
    simp only [mem_edges, true_and, reduceCtorEq, false_and, false_or] at hm
    rcases hm with ⟨rfl, rfl⟩ | ⟨rfl, rfl⟩
    · obtain ⟨u₄, hb₄, hclose⟩ := hq
      exact ⟨u₁, hb, elementsClose_iff.mpr ⟨x, u₂, hx, .inr ⟨u₃, u₄, hc, hb₄, hclose⟩⟩⟩
    · obtain ⟨rfl, rfl⟩ := hq
      exact ⟨u₁, hb, elementsClose_iff.mpr ⟨x, u₂, hx, .inl ⟨hc, rfl⟩⟩⟩

/-- What a phase that is no end expects is exactly one turn: its entry action, a move, and what
the next phase expects. -/
theorem expects_iff_turn {p : Phase} (hp : p.isEnd = false) {s : List Pending}
    (hs : p.Arrives s) : Expects o n p s u v r ↔ TurnText o n p s u v r := by
  cases p with
  | init => rw [show s = [] from hs]; exact turn_init
  | objectStart => rw [show s = [] from hs]; exact turn_objectStart
  | arrayStart => rw [show s = [] from hs]; exact turn_arrayStart
  | propertyName => obtain ⟨ms, rfl⟩ := hs; exact turn_propertyName
  | propertyValue => obtain ⟨k, ms, rfl⟩ := hs; exact turn_propertyValue
  | nextProperty => obtain ⟨ms, rfl⟩ := hs; exact turn_nextProperty
  | nextElement => obtain ⟨es, rfl⟩ := hs; exact turn_nextElement
  | objectEnd | arrayEnd => simp [Phase.isEnd] at hp

/-- An end phase expects nothing more: the container on the stack is the value, and the text
is the rest. -/
theorem expects_end {p : Phase} (hp : p.isEnd = true) {s : List Pending} (hs : p.Arrives s)
    (off : Nat) : Expects o n p s u v r ↔ Pending.result s off = .ok v ∧ u = r := by
  cases p <;> simp only [Phase.isEnd, Bool.false_eq_true] at hp
  · obtain ⟨ms, rfl⟩ := hs
    simp [Expects, Pending.result_object, eq_comm]
  · obtain ⟨es, rfl⟩ := hs
    simp [Expects, Pending.result_array, eq_comm]

end Turns

end ExactJson.Grammar
