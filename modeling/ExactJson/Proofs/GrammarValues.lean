import Mathlib
import ExactJson.Proofs.ValueShape
import ExactJson.Proofs.Grammar

/-!
# The values of texts

Every value the grammar gives a text is one the writer prints without failing and, with the
strings written as they were read, reads back:

* it is well formed: no foreign node, distinct keys (setting members in order merges repeated
  keys), and decimal exponents of 32 bits (the number reader refuses the others);
* it is no deeper than the bound it was read with;
* when strings are kept raw, each string and key is a string body on its own: it ends at the
  quote written after it, whatever follows (`RawBody`).
-/

namespace ExactJson

namespace Members

variable {α : Type}

theorem mem_set {ms : List (Bytes × α)} {k : Bytes} {v : α} {m : Bytes × α}
    (h : m ∈ set ms k v) : m ∈ ms ∨ m = (k, v) := by
  unfold set at h
  split_ifs at h
  · obtain ⟨m', hm', rfl⟩ := List.mem_map.mp h
    split_ifs
    · exact .inr rfl
    · exact .inl hm'
  · simpa using h

theorem keys_set_of_has {ms : List (Bytes × α)} {k : Bytes} (v : α) (h : has ms k = true) :
    (set ms k v).map Prod.fst = ms.map Prod.fst := by
  simp only [set, h, if_true, List.map_map]
  refine List.map_congr_left fun m _ => ?_
  simp only [Function.comp_apply]
  split_ifs with hk
  · exact (beq_iff_eq.mp hk).symm
  · rfl

theorem nodup_set {ms : List (Bytes × α)} (hn : (ms.map Prod.fst).Nodup) (k : Bytes) (v : α) :
    ((set ms k v).map Prod.fst).Nodup := by
  cases hk : has ms k
  · have hnew : k ∉ ms.map Prod.fst := by
      simp only [has, List.any_eq_false, beq_iff_eq] at hk
      intro hmem
      obtain ⟨m, hm, hmk⟩ := List.mem_map.mp hmem
      exact hk m hm hmk
    simp only [set, hk, Bool.false_eq_true, if_false, List.map_append, List.map_cons,
      List.map_nil]
    exact List.nodup_append.mpr ⟨hn, List.nodup_singleton k,
      fun a ha b hb => by rw [List.mem_singleton.mp hb]; exact fun h => hnew (h ▸ ha)⟩
  · rw [keys_set_of_has v hk]
    exact hn

/-- Setting pairs in order leaves distinct keys, each with the value of one of the pairs. -/
theorem ofPairs_spec (ps : List (Bytes × α)) :
    ((ofPairs ps).map Prod.fst).Nodup ∧ ∀ m ∈ ofPairs ps, m ∈ ps := by
  suffices h : ∀ acc : List (Bytes × α), (acc.map Prod.fst).Nodup →
      ((ps.foldl (fun ms p => set ms p.1 p.2) acc).map Prod.fst).Nodup ∧
        ∀ m ∈ ps.foldl (fun ms p => set ms p.1 p.2) acc, m ∈ acc ∨ m ∈ ps by
    obtain ⟨hn, hm⟩ := h [] List.nodup_nil
    exact ⟨hn, fun m hmem => (hm m hmem).resolve_left List.not_mem_nil⟩
  induction ps with
  | nil => exact fun acc hn => ⟨hn, fun m hm => .inl hm⟩
  | cons p ps ih =>
    intro acc hn
    obtain ⟨hn', hm'⟩ := ih (set acc p.1 p.2) (nodup_set hn p.1 p.2)
    refine ⟨hn', fun m hm => ?_⟩
    rcases hm' m hm with hm | hm
    · rcases mem_set hm with hm | rfl
      · exact .inl hm
      · exact .inr List.mem_cons_self
    · exact .inr (List.mem_cons_of_mem p hm)

end Members

namespace Decimal

theorem ofCoefficient_exp {whole mant : Bytes} {e : Int} {d : Decimal}
    (h : ofCoefficient whole mant e = .ok d) : minExp ≤ d.exp ∧ d.exp ≤ maxExp := by
  unfold ofCoefficient at h
  repeat' split at h
  all_goals first | cases h | skip
  -- what is left is the branch past the range check
  simp only at h
  split_ifs at h with hr
  cases h
  simp only [not_or, not_lt] at hr
  exact hr

theorem ofText_exp {s : Bytes} {d : Decimal} (h : ofText? s = .ok d) :
    minExp ≤ d.exp ∧ d.exp ≤ maxExp := by
  unfold ofText? at h
  repeat' split at h
  all_goals first | cases h | exact ofCoefficient_exp h

end Decimal

theorem readNumber_decimal {raw : Bytes} {o : NumberOptions} {d : Decimal}
    (h : readNumber raw o = .ok (.decimal d)) : Decimal.ofText? raw = .ok d := by
  unfold readNumber at h
  repeat' split at h
  all_goals (cases h; try assumption)

namespace Grammar

variable {o : ReadOptions}

/-- With strings kept raw, `k` is a string body on its own: it ends at the quote written after
it, whatever follows. -/
def RawBody (o : ReadOptions) (k : Bytes) : Prop :=
  o.strings = .raw → ∀ r, QuoteBody (k ++ 0x22 :: r) k r

/-- A value as the grammar gives it within depth `n`: well formed, no deeper than `n`, and
made of string bodies when strings are kept raw. -/
def Readable (o : ReadOptions) (n : Nat) (v : Value) : Prop :=
  v.Wf ∧ v.depth ≤ n ∧ Value.Texts (RawBody o) v

/-- Whether a body ends at a quote depends on the body alone. -/
theorem QuoteBody.reframe {s body r : Bytes} (h : QuoteBody s body r) (r' : Bytes) :
    QuoteBody (body ++ 0x22 :: r') body r' := by
  induction h with
  | close _ => exact .close r'
  | plain hq hb _ ih => exact .plain hq hb ih
  | escape _ ih => exact .escape ih

theorem StringText.rawBody {s k r : Bytes} (h : StringText o s k r) : RawBody o k := by
  cases h with
  | mk hq hc =>
    intro hraw r'
    simp only [stringContent, hraw, beq_self_eq_true, Bool.true_or, if_true,
      Option.some.injEq] at hc
    exact hc ▸ hq.reframe r'

theorem readable_ofNumber {raw : Bytes} {x : Number} {n : Nat}
    (h : readNumber raw o.numberOptions = .ok x) : Readable o n (Value.ofNumber x) := by
  cases x with
  | integer i => exact ⟨.int i, Nat.zero_le _, .int i⟩
  | decimal d =>
    obtain ⟨hlo, hhi⟩ := Decimal.ofText_exp (readNumber_decimal h)
    exact ⟨.dec hlo hhi, Nat.zero_le _, .dec d⟩

theorem readable_literal {lit : Bytes} {v : Value} {n : Nat} (h : literalValue lit = some v) :
    Readable o n v := by
  unfold literalValue at h
  split_ifs at h <;> cases h
  · exact ⟨.bool true, Nat.zero_le _, .bool true⟩
  · exact ⟨.bool false, Nat.zero_le _, .bool false⟩
  · exact ⟨.null, Nat.zero_le _, .null⟩

/-- An object of readable members, set in order, is readable one level up. -/
theorem readable_object {n : Nat} {ps : List (Bytes × Value)}
    (h : ∀ m ∈ ps, RawBody o m.1 ∧ Readable o n m.2) :
    Readable o (n + 1) (.obj (Members.ofPairs ps)) := by
  obtain ⟨hkeys, hmem⟩ := Members.ofPairs_spec ps
  refine ⟨.obj hkeys fun m hm => (h m (hmem m hm)).2.1, ?_,
    .obj (fun m hm => (h m (hmem m hm)).1) fun m hm => (h m (hmem m hm)).2.2.2⟩
  have hd : Value.membersDepth (Members.ofPairs ps) ≤ n :=
    Value.membersDepth_le_iff.mpr fun m hm => (h m (hmem m hm)).2.2.1
  simp only [Value.depth]
  omega

theorem readable_array {n : Nat} {xs : List Value} (h : ∀ x ∈ xs, Readable o n x) :
    Readable o (n + 1) (.arr xs) := by
  refine ⟨.arr fun x hx => (h x hx).1, ?_, .arr fun x hx => (h x hx).2.2⟩
  have hd : Value.elemsDepth xs ≤ n := Value.elemsDepth_le_iff.mpr fun x hx => (h x hx).2.1
  simp only [Value.depth]
  omega

-- One theorem per production: the recursion follows the derivation.
mutual

theorem ValueText.readable {n : Nat} {s r : Bytes} {v : Value} (h : ValueText o n s v r) :
    Readable o n v :=
  match h with
  | .string h => ⟨.str _, Nat.zero_le _, .str h.rawBody⟩
  | .number h => by
    cases h with
    | mk _ _ _ hx => exact readable_ofNumber hx
  | .literal h => by
    cases h with
    | mk _ _ _ hv => exact readable_literal hv
  | .container h => ContainerText.readable h
termination_by structural h

theorem ContainerText.readable {n : Nat} {s r : Bytes} {v : Value}
    (h : ContainerText o n s v r) : Readable o n v :=
  match h with
  | .emptyObject _ => ⟨.obj List.nodup_nil (by simp), by simp [Value.depth, Value.membersDepth],
      .obj (by simp) (by simp)⟩
  | .object _ h _ => readable_object (MembersText.readable h)
  | .emptyArray _ => readable_array (by simp)
  | .array _ h _ => readable_array (ElementsText.readable h)
termination_by structural h

theorem MemberText.readable {n : Nat} {s r : Bytes} {m : Bytes × Value}
    (h : MemberText o n s m r) : RawBody o m.1 ∧ Readable o n m.2 :=
  match h with
  | .mk hk _ _ hv => ⟨hk.rawBody, ValueText.readable hv⟩
termination_by structural h

theorem MembersText.readable {n : Nat} {s r : Bytes} {ps : List (Bytes × Value)}
    (h : MembersText o n s ps r) : ∀ m ∈ ps, RawBody o m.1 ∧ Readable o n m.2 :=
  match h with
  | .one h => List.forall_mem_singleton.mpr (MemberText.readable h)
  | .cons h _ _ hs => List.forall_mem_cons.mpr ⟨MemberText.readable h, MembersText.readable hs⟩
termination_by structural h

theorem ElementsText.readable {n : Nat} {s r : Bytes} {xs : List Value}
    (h : ElementsText o n s xs r) : ∀ x ∈ xs, Readable o n x :=
  match h with
  | .one h => List.forall_mem_singleton.mpr (ValueText.readable h)
  | .cons h _ _ hs => List.forall_mem_cons.mpr ⟨ValueText.readable h, ElementsText.readable hs⟩
termination_by structural h

end

theorem ContainerText.isContainer {n : Nat} {s r : Bytes} {v : Value}
    (h : ContainerText o n s v r) : v.isContainer = true := by
  cases h <;> rfl

end Grammar

end ExactJson
