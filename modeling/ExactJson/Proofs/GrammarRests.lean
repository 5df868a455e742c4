import Mathlib
import ExactJson.Proofs.StepText
import ExactJson.Proofs.GrammarValues
import ExactJson.Proofs.WriterText

/-!
# What follows a token

Every production of the grammar is a relation `P s x r` between a text, what it stands for and
the rest after it. Most of a text does not depend on its rest: a run of blanks, a string and a
container end by themselves, and a number or a literal ends where its run of octets does, so
any rest that cannot continue that run will do (`Replaces`). `ValueText.split` and its companions
cut a text into the part a production reads and its rest, and put any other such rest in its
place; `Entered.transfer` and `AdvanceText.transfer` do the same for what an entry action and a
move of the table read.

A text cut off where the reader stands is finished by `closing`: for each phase, a short text
that closes the members and elements begun and the container itself (`closing_turn`). Every
closing starts with an octet that `leads`: one that ends any run before it and is neither a
blank nor `]`, so that it may stand wherever the reader could have stopped.
-/

namespace ExactJson.Grammar

section Rests

variable {o : ReadOptions}

/-- `r'` may take the place of the rest `r` after a token: it starts as `r` does, or it stops
every run. -/
def Replaces (r r' : Bytes) : Prop := r'.head? = r.head? ∨ Follows r'

theorem replaces_append_cons (a : Bytes) (b : UInt8) (r r' : Bytes) :
    Replaces (a ++ b :: r) (a ++ b :: r') :=
  .inl (by cases a <;> rfl)

theorem Replaces.not_numberPart {r r' : Bytes} (h : Replaces r r')
    (hr : ∀ c ∈ r.head?, numberPart c = false) : ∀ c ∈ r'.head?, numberPart c = false := by
  rcases h with h | h
  · rwa [h]
  · exact fun c hc => (h c hc).1

theorem Replaces.not_letter {r r' : Bytes} (h : Replaces r r')
    (hr : ∀ c ∈ r.head?, letter c = false) : ∀ c ∈ r'.head?, letter c = false := by
  rcases h with h | h
  · rwa [h]
  · exact fun c hc => (h c hc).2

theorem Blanks.split {s r : Bytes} (h : Blanks s r) :
    ∃ a, s = a ++ r ∧ ∀ r', Blanks (a ++ r') r' := by
  induction h with
  | nil s => exact ⟨[], rfl, fun r' => .nil r'⟩
  | cons hb _ ih =>
    obtain ⟨a, rfl, ha⟩ := ih
    exact ⟨_ :: a, rfl, fun r' => .cons hb (ha r')⟩

theorem StringText.split {s k r : Bytes} (h : StringText o s k r) :
    ∃ a, s = a ++ r ∧ ∀ r', StringText o (a ++ r') k r' := by
  cases h with
  | @mk s₀ body k r hbody hc =>
    refine ⟨0x22 :: (body ++ [0x22]), by simp [hbody.eq_append], fun r' => ?_⟩
    simpa using StringText.mk (hbody.reframe r') hc

theorem NumberText.split {s r : Bytes} {x : Number} (h : NumberText o s x r) :
    ∃ a, s = a ++ r ∧ ∀ r', Replaces r r' → NumberText o (a ++ r') x r' := by
  cases h with
  | @mk b run r x hn hrun hend hread =>
    exact ⟨b :: run, rfl, fun r' hf => .mk hn hrun (hf.not_numberPart hend) hread⟩

theorem LiteralText.split {s r : Bytes} {v : Value} (h : LiteralText s v r) :
    ∃ a, s = a ++ r ∧ ∀ r', Replaces r r' → LiteralText (a ++ r') v r' := by
  cases h with
  | @mk b run r v hl hrun hend hlit =>
    exact ⟨b :: run, rfl, fun r' hf => .mk hl hrun (hf.not_letter hend) hlit⟩

mutual

/-- A value is read up to its rest, and reads the same before any rest that ends its last
token. -/
theorem ValueText.split {n : Nat} {s r : Bytes} {x : Value} (h : ValueText o n s x r) :
    ∃ a, s = a ++ r ∧ ∀ r', Replaces r r' → ValueText o n (a ++ r') x r' :=
  match h with
  | .string h => by
    obtain ⟨a, hs, ha⟩ := h.split
    exact ⟨a, hs, fun r' _ => .string (ha r')⟩
  | .number h => by
    obtain ⟨a, hs, ha⟩ := h.split
    exact ⟨a, hs, fun r' hf => .number (ha r' hf)⟩
  | .literal h => by
    obtain ⟨a, hs, ha⟩ := h.split
    exact ⟨a, hs, fun r' hf => .literal (ha r' hf)⟩
  | .container h => by
    obtain ⟨a, hs, ha⟩ := ContainerText.split h
    exact ⟨a, hs, fun r' _ => .container (ha r')⟩
termination_by structural h

/-- A container ends with its closing bracket, so it reads the same before any rest. -/
theorem ContainerText.split {n : Nat} {s r : Bytes} {v : Value}
    (h : ContainerText o n s v r) :
    ∃ a, s = a ++ r ∧ ∀ r', ContainerText o n (a ++ r') v r' :=
  match h with
  | .emptyObject hb => by
    obtain ⟨a, rfl, ha⟩ := hb.split
    refine ⟨0x7B :: (a ++ [0x7D]), by simp, fun r' => ?_⟩
    simpa using ContainerText.emptyObject (ha (0x7D :: r'))
  | .object hb hms hend => by
    obtain ⟨a₁, rfl, ha₁⟩ := hb.split
    obtain ⟨a₂, rfl, ha₂⟩ := MembersText.split hms
    obtain ⟨a₃, rfl, ha₃⟩ := hend.split
    refine ⟨0x7B :: (a₁ ++ a₂ ++ a₃ ++ [0x7D]), by simp, fun r' => ?_⟩
    have hm := ha₂ (a₃ ++ 0x7D :: r') (replaces_append_cons a₃ 0x7D r r')
    simpa using ContainerText.object (ha₁ _) hm (ha₃ (0x7D :: r'))
  | .emptyArray hb => by
    obtain ⟨a, rfl, ha⟩ := hb.split
    refine ⟨0x5B :: (a ++ [0x5D]), by simp, fun r' => ?_⟩
    simpa using ContainerText.emptyArray (ha (0x5D :: r'))
  | .array hb hxs hend => by
    obtain ⟨a₁, rfl, ha₁⟩ := hb.split
    obtain ⟨a₂, rfl, ha₂⟩ := ElementsText.split hxs
    obtain ⟨a₃, rfl, ha₃⟩ := hend.split
    refine ⟨0x5B :: (a₁ ++ a₂ ++ a₃ ++ [0x5D]), by simp, fun r' => ?_⟩
    have hx := ha₂ (a₃ ++ 0x5D :: r') (replaces_append_cons a₃ 0x5D r r')
    simpa using ContainerText.array (ha₁ _) hx (ha₃ (0x5D :: r'))
termination_by structural h

theorem MemberText.split {n : Nat} {s r : Bytes} {m : Bytes × Value}
    (h : MemberText o n s m r) :
    ∃ a, s = a ++ r ∧ ∀ r', Replaces r r' → MemberText o n (a ++ r') m r' :=
  match h with
  | .mk hk hc hb hv => by
    obtain ⟨a₁, rfl, ha₁⟩ := hk.split
    obtain ⟨a₂, rfl, ha₂⟩ := hc.split
    obtain ⟨a₃, rfl, ha₃⟩ := hb.split
    obtain ⟨a₄, rfl, ha₄⟩ := ValueText.split hv
    refine ⟨a₁ ++ a₂ ++ 0x3A :: (a₃ ++ a₄), by simp, fun r' hf => ?_⟩
    simpa using MemberText.mk (ha₁ _) (ha₂ _) (ha₃ _) (ha₄ r' hf)
termination_by structural h

theorem MembersText.split {n : Nat} {s r : Bytes} {ps : List (Bytes × Value)}
    (h : MembersText o n s ps r) :
    ∃ a, s = a ++ r ∧ ∀ r', Replaces r r' → MembersText o n (a ++ r') ps r' :=
  match h with
  | .one hm => by
    obtain ⟨a, hs, ha⟩ := MemberText.split hm
    exact ⟨a, hs, fun r' hf => .one (ha r' hf)⟩
  | .cons hm hsep hb hrest => by
    obtain ⟨a₁, rfl, ha₁⟩ := MemberText.split hm
    obtain ⟨a₂, rfl, ha₂⟩ := hsep.split
    obtain ⟨a₃, rfl, ha₃⟩ := hb.split
    obtain ⟨a₄, rfl, ha₄⟩ := MembersText.split hrest
    refine ⟨a₁ ++ a₂ ++ 0x2C :: (a₃ ++ a₄), by simp, fun r' hf => ?_⟩
    have hm' := ha₁ (a₂ ++ 0x2C :: (a₃ ++ (a₄ ++ r'))) (replaces_append_cons a₂ 0x2C _ _)
    simpa using MembersText.cons hm' (ha₂ _) (ha₃ (a₄ ++ r')) (ha₄ r' hf)
termination_by structural h

theorem ElementsText.split {n : Nat} {s r : Bytes} {xs : List Value}
    (h : ElementsText o n s xs r) :
    ∃ a, s = a ++ r ∧ ∀ r', Replaces r r' → ElementsText o n (a ++ r') xs r' :=
  match h with
  | .one hx => by
    obtain ⟨a, hs, ha⟩ := ValueText.split hx
    exact ⟨a, hs, fun r' hf => .one (ha r' hf)⟩
  | .cons hx hsep hb hrest => by
    obtain ⟨a₁, rfl, ha₁⟩ := ValueText.split hx
    obtain ⟨a₂, rfl, ha₂⟩ := hsep.split
    obtain ⟨a₃, rfl, ha₃⟩ := hb.split
    obtain ⟨a₄, rfl, ha₄⟩ := ElementsText.split hrest
    refine ⟨a₁ ++ a₂ ++ 0x2C :: (a₃ ++ a₄), by simp, fun r' hf => ?_⟩
    have hx' := ha₁ (a₂ ++ 0x2C :: (a₃ ++ (a₄ ++ r'))) (replaces_append_cons a₂ 0x2C _ _)
    simpa using ElementsText.cons hx' (ha₂ _) (ha₃ (a₄ ++ r')) (ha₄ r' hf)
termination_by structural h

end

/-! ## Another rest after a text -/

theorem eq_append_of_split {X Y D a : Bytes} (h : X ++ D = a ++ (Y ++ D)) : X = a ++ Y :=
  List.append_cancel_right (by rw [h, List.append_assoc])

theorem Blanks.transfer {X Y D W : Bytes} (h : Blanks (X ++ D) (Y ++ D)) :
    Blanks (X ++ W) (Y ++ W) := by
  obtain ⟨a, ha, hall⟩ := h.split
  rw [eq_append_of_split ha, List.append_assoc]
  exact hall (Y ++ W)

theorem StringText.transfer {X Y D W k : Bytes} (h : StringText o (X ++ D) k (Y ++ D)) :
    StringText o (X ++ W) k (Y ++ W) := by
  obtain ⟨a, ha, hall⟩ := h.split
  rw [eq_append_of_split ha, List.append_assoc]
  exact hall (Y ++ W)

theorem StringText.empty (r : Bytes) : StringText o (0x22 :: 0x22 :: r) [] r :=
  .mk (.close r) (by simp [stringContent])

variable {n : Nat}

/-- Blanks and a value read the same before another rest that still ends the value. -/
theorem ValueText.transfer_after_blanks {X Y D W u : Bytes} {x : Value}
    (hb : Blanks (X ++ D) u) (hx : ValueText o n u x (Y ++ D)) (hf : Replaces (Y ++ D) (Y ++ W)) :
    ∃ u', Blanks (X ++ W) u' ∧ ValueText o n u' x (Y ++ W) := by
  obtain ⟨a, rfl, ha⟩ := hx.split
  have hb' := Blanks.transfer (Y := a ++ Y) (W := W) (by simpa using hb)
  exact ⟨a ++ (Y ++ W), by simpa using hb', ha _ hf⟩

/-- What an entry action reads does not depend on what follows it, as long as a value it reads
still ends where it did. -/
theorem Entered.transfer {p : Phase} {s s' : List Pending} {X Y D W : Bytes} (hs : p.Arrives s)
    (h : Entered o n p s (X ++ D) s' (Y ++ D)) (hf : Replaces (Y ++ D) (Y ++ W)) :
    Entered o n p s (X ++ W) s' (Y ++ W) := by
  cases p with
  | init | objectStart | arrayStart =>
    rw [show s = [] from hs] at h ⊢
    obtain ⟨rfl, hu⟩ := h
    exact ⟨rfl, by rw [List.append_cancel_right hu]⟩
  | nextProperty =>
    obtain ⟨ms, rfl⟩ := hs
    obtain ⟨rfl, hu⟩ := h
    exact ⟨rfl, by rw [List.append_cancel_right hu]⟩
  | propertyName =>
    obtain ⟨ms, rfl⟩ := hs
    obtain ⟨k, hk, rfl⟩ := h
    exact ⟨k, StringText.transfer (X := 0x22 :: X) hk, rfl⟩
  | propertyValue =>
    obtain ⟨k, ms, rfl⟩ := hs
    obtain ⟨x, u₁, hb, hx, rfl⟩ := h
    obtain ⟨u₂, hb', hx'⟩ := ValueText.transfer_after_blanks hb hx hf
    exact ⟨x, u₂, hb', hx', rfl⟩
  | nextElement =>
    obtain ⟨es, rfl⟩ := hs
    obtain ⟨x, u₁, hb, hx, rfl⟩ := h
    obtain ⟨u₂, hb', hx'⟩ := ValueText.transfer_after_blanks hb hx hf
    exact ⟨x, u₂, hb', hx', rfl⟩
  | objectEnd | arrayEnd => exact (h : False).elim

/-- A move of the table reads blanks and one octet, so it reads the same before another rest;
out of `arrayStart` the new rest must start as the old one did, or with an octet the wildcard
gives back. -/
theorem AdvanceText.transfer {p q : Phase} {X Y D W : Bytes}
    (h : AdvanceText p q (X ++ D) (Y ++ D))
    (hW : W.head? = D.head? ∨ ∀ b ∈ W.head?, blank b = false ∧ b ≠ 0x5D) :
    AdvanceText p q (X ++ W) (Y ++ W) := by
  rcases h with ⟨b, he, hb⟩ | ⟨hp, hq, hb, hhead⟩
  · exact .inl ⟨b, he, Blanks.transfer (Y := b :: Y) hb⟩
  · refine .inr ⟨hp, hq, Blanks.transfer hb, ?_⟩
    cases Y with
    | nil =>
      rcases hW with hW | hW
      · rw [List.nil_append, hW]
        exact hhead
      · exact hW
    | cons c Y => exact hhead

/-! ## Closing a container -/

/-- An octet a completion may start with: it ends any numeric run or run of letters before it,
and it is no blank and no `]`, so that the wildcard out of `arrayStart` gives it back. -/
def leads (b : UInt8) : Bool := !numberPart b && !letter b && !blank b && b != 0x5D

/-- A text that starts with an octet that `leads`. -/
def Leads (w : Bytes) : Prop := ∃ b w', w = b :: w' ∧ leads b = true

theorem Leads.append {w : Bytes} (h : Leads w) (r : Bytes) : Leads (w ++ r) := by
  obtain ⟨b, w', rfl, hb⟩ := h
  exact ⟨b, w' ++ r, rfl, hb⟩

theorem Leads.head {w : Bytes} (h : Leads w) : ∀ b ∈ w.head?, blank b = false ∧ b ≠ 0x5D := by
  obtain ⟨b, w', rfl, hb⟩ := h
  intro c hc
  simp only [List.head?_cons, Option.mem_def, Option.some.injEq] at hc
  subst hc
  simp_all [leads]

theorem Leads.follows {w : Bytes} (h : Leads w) : Follows w := by
  obtain ⟨b, w', rfl, hb⟩ := h
  intro c hc
  simp only [List.head?_cons, Option.mem_def, Option.some.injEq] at hc
  subst hc
  simp_all [leads]

/-- The text that finishes a container after the entry action of its phase. It closes the
member or element begun, with an empty string wherever a value is still owed, and then the
container; before the container, it is the empty array. -/
def closing : Phase → Bytes
  | .init => [0x5B, 0x5D]
  | .objectStart | .propertyValue => [0x7D]
  | .arrayStart => [0x22, 0x22, 0x5D]
  | .propertyName => [0x3A, 0x22, 0x22, 0x7D]
  | .nextProperty => [0x22, 0x22, 0x3A, 0x22, 0x22, 0x7D]
  | .nextElement => [0x2C, 0x22, 0x22, 0x5D]
  | .objectEnd | .arrayEnd => []

theorem leads_closing {p : Phase} (hp : p.isEnd = false) : Leads (closing p) := by
  cases p <;> simp only [Phase.isEnd, Bool.true_eq_false] at hp <;> exact ⟨_, _, rfl, by decide⟩

/-- After blanks, the closing of a phase is one move of the table and what the next phase
expects, whatever follows it. -/
theorem closing_turn {p : Phase} (hp : p.isEnd = false) {s : List Pending} (hs : p.Holds s)
    {u r : Bytes} (hu : Blanks u (closing p ++ r)) :
    ∃ q u' v, AdvanceText p q u u' ∧ Expects o n q s u' v r := by
  have hstr : ∀ r', ValueText o n (0x22 :: 0x22 :: r') (.str []) r' :=
    fun r' => .string (StringText.empty r')
  cases p <;> simp only [closing, List.cons_append, List.nil_append] at hu
  case init =>
    rw [show s = [] from hs]
    exact ⟨.arrayStart, [0x5D] ++ r, .arr [], .inl ⟨0x5B, mem_edges.mpr (by simp), hu⟩,
      .emptyArray (.nil _)⟩
  case objectStart | propertyValue =>
    obtain ⟨ms, rfl⟩ := hs
    exact ⟨.objectEnd, r, .obj ms, .inl ⟨0x7D, mem_edges.mpr (by simp), hu⟩, rfl, rfl⟩
  case arrayStart =>
    obtain ⟨es, rfl⟩ := hs
    -- the first octet of the element is given back
    exact ⟨.nextElement, [0x22, 0x22, 0x5D] ++ r, _, .inr ⟨rfl, rfl, hu, by simp; decide⟩,
      _, .nil _, [.str []], _, .one (hstr (0x5D :: r)), .nil _, rfl⟩
  case propertyName =>
    obtain ⟨k, ms, rfl⟩ := hs
    exact ⟨.propertyValue, [0x22, 0x22, 0x7D] ++ r, _, .inl ⟨0x3A, mem_edges.mpr (by simp), hu⟩,
      .str [], _, _, .nil _, hstr (0x7D :: r), .inl ⟨.nil _, rfl⟩⟩
  case nextProperty =>
    obtain ⟨ms, rfl⟩ := hs
    exact ⟨.propertyName, [0x22, 0x3A, 0x22, 0x22, 0x7D] ++ r, _,
      .inl ⟨0x22, mem_edges.mpr (by simp), hu⟩, [([], .str [])], _,
      .one (.mk (StringText.empty _) (.nil _) (.nil _) (hstr (0x7D :: r))), .nil _, rfl⟩
  case nextElement =>
    obtain ⟨es, rfl⟩ := hs
    exact ⟨.nextElement, [0x22, 0x22, 0x5D] ++ r, _, .inl ⟨0x2C, mem_edges.mpr (by simp), hu⟩,
      _, .nil _, [.str []], _, .one (hstr (0x5D :: r)), .nil _, rfl⟩
  all_goals simp [Phase.isEnd] at hp

end Rests

end ExactJson.Grammar
