import Mathlib
import ExactJson.Proofs.NumberText
import ExactJson.Proofs.EscapeText
import ExactJson.Proofs.ValueShape

/-!
# The writer's text in the grammar

The text the writer prints for a well-formed value is a text of the grammar that stands for an
equivalent value: the same literals, integers, strings and keys, decimals of the same value,
members in the same order. Each token is read as the writer meant it:

* a number or a literal ends where the writer put a comma, a line break, a closing bracket or
  the end of the document, none of which can continue a numeric run or a word (`Follows`);
* the line breaks and indentation between tokens are blanks;
* a string reads back as itself whenever the writer's quoting and the reader's string mode fit,
  as escaping and unescaping do (`quoted_stringText`).

The induction is over well-formedness, one case per kind of value, with member and element
lists handled by `membersText_write` and `elementsText_write`; `ReadsBack` names what each case
establishes.
-/

namespace ExactJson

theorem Writer.value_emptyObject (wo : WriteOptions) (level : Nat) :
    Writer.value wo level (.obj []) = .ok [0x7B, 0x7D] := by
  rw [Writer.value]
  cbv

theorem Writer.value_emptyArray (wo : WriteOptions) (level : Nat) :
    Writer.value wo level (.arr []) = .ok [0x5B, 0x5D] := by
  rw [Writer.value]
  cbv

namespace Grammar

/-- What may follow a number or a literal without joining it: nothing that could continue a
numeric run or a word. -/
def Follows (r : Bytes) : Prop := ∀ c ∈ r.head?, numberPart c = false ∧ letter c = false

theorem follows_nil : Follows [] := by
  simp [Follows]

theorem follows_cons {c : UInt8} (hc : numberPart c = false ∧ letter c = false) (r : Bytes) :
    Follows (c :: r) := by
  simpa [Follows] using hc

theorem Blanks.append {pre : Bytes} (h : ∀ b ∈ pre, blank b = true) (s : Bytes) :
    Blanks (pre ++ s) s := by
  induction pre with
  | nil => exact .nil s
  | cons b pre ih =>
    exact .cons (h b List.mem_cons_self) (ih fun c hc => h c (List.mem_cons_of_mem b hc))

theorem blank_of_mem_breakAt {o : WriteOptions} {level : Nat} {b : UInt8}
    (h : b ∈ Writer.breakAt o level) : blank b = true := by
  unfold Writer.breakAt at h
  split_ifs at h
  · cases h
  · simp only [List.mem_cons, List.mem_replicate] at h
    rcases h with rfl | ⟨-, rfl⟩ <;> rfl

/-- After a line break, or after nothing, comes a token that cannot continue a number. -/
theorem follows_breakAt (o : WriteOptions) (level : Nat) {c : UInt8}
    (hc : numberPart c = false ∧ letter c = false) (r : Bytes) :
    Follows (Writer.breakAt o level ++ c :: r) := by
  unfold Writer.breakAt
  split_ifs
  · exact follows_cons hc r
  · exact follows_cons (by decide) _

/-! ## Scalars -/

/-- A nonempty text of number-start octets, followed by what cannot continue it, is a number
token of whatever the number reader makes of it. -/
theorem numberText_of_octets {o : ReadOptions} {t r : Bytes} {x : Number} (hne : t ≠ [])
    (hs : ∀ b ∈ t, Code.isNumberStart b.toNat = true) (hr : Follows r)
    (hx : readNumber t o.numberOptions = .ok x) : NumberText o (t ++ r) x r := by
  obtain ⟨b, run, rfl⟩ := List.exists_cons_of_ne_nil hne
  have hpart : ∀ c ∈ run, numberPart c = true := fun c hc => by
    simp [numberPart, Code.isNumberPart, hs c (List.mem_cons_of_mem b hc)]
  exact .mk (hs b List.mem_cons_self) hpart (fun c hc => (hr c hc).1) hx

theorem numberText_ofInt (o : ReadOptions) (n : Int64) {r : Bytes} (hr : Follows r) :
    NumberText o (Bytes.ofInt n.toInt ++ r) (.integer n) r :=
  numberText_of_octets (ofInt_numberStart _).1 (ofInt_numberStart _).2 hr (readNumber_ofInt n _)

theorem numberText_render (o : ReadOptions) {d : Decimal} (hd : Decimal.minExp ≤ d.exp)
    {r : Bytes} (hr : Follows r) :
    ∃ d', NumberText o (Bytes.ofString d.render ++ r) (.decimal d') r ∧
      d'.normalize = d.normalize := by
  obtain ⟨d', hread, hn⟩ := Decimal.readNumber_render o.numberOptions hd
  obtain ⟨hne, hstart⟩ := render_numberStart d
  exact ⟨d', numberText_of_octets hne hstart hr hread, hn⟩

/-- A lower-case literal word, followed by what cannot continue it. -/
theorem literalText_word {b : UInt8} {run r : Bytes} {v : Value}
    (hw : literalStart b = true ∧ run.all letter = true) (hv : literalValue (b :: run) = some v)
    (hr : Follows r) : LiteralText (b :: run ++ r) v r :=
  .mk hw.1 (List.all_eq_true.mp hw.2) (fun c hc => (hr c hc).2) hv

theorem literalText_null {r : Bytes} (hr : Follows r) :
    LiteralText (Bytes.ofString "null" ++ r) .null r := by
  have hw : Bytes.ofString "null" = [0x6E, 0x75, 0x6C, 0x6C] := by cbv
  rw [hw]
  exact literalText_word (by decide) (by cbv) hr

theorem literalText_bool (b : Bool) {r : Bytes} (hr : Follows r) :
    LiteralText (Bytes.ofString (if b then "true" else "false") ++ r) (.bool b) r := by
  cases b with
  | true =>
    have hw : Bytes.ofString "true" = [0x74, 0x72, 0x75, 0x65] := by cbv
    rw [if_pos rfl, hw]
    exact literalText_word (by decide) (by cbv) hr
  | false =>
    have hw : Bytes.ofString "false" = [0x66, 0x61, 0x6C, 0x73, 0x65] := by cbv
    rw [if_neg Bool.false_ne_true, hw]
    exact literalText_word (by decide) (by cbv) hr

/-- Escaped strings read back as themselves when the reader unescapes. -/
theorem quoted_stringText {wo : WriteOptions} {ro : ReadOptions} (hraw : wo.rawStrings = false)
    (hro : ro.strings = .unescape) (s r : Bytes) :
    StringText ro (Writer.quoted wo s ++ r) s r := by
  rw [Writer.quoted, hraw, if_neg Bool.false_ne_true]
  simp only [List.cons_append, List.append_assoc]
  exact stringText_escape hro s r

/-! ## Values -/

section Values

variable {wo : WriteOptions} {ro : ReadOptions}

/-- The writer prints `v` at every level, and each text reads back, before anything that cannot
continue it and within every depth bound `v` meets, as a value equivalent to `v`. -/
def ReadsBack (wo : WriteOptions) (ro : ReadOptions) (v : Value) : Prop :=
  ∀ level, ∃ out, Writer.value wo level v = .ok out ∧ ∀ n r, v.depth ≤ n → Follows r →
    ∃ v', ValueText ro n (out ++ r) v' r ∧ v'.equiv v = true

theorem blanks_breakAt (wo : WriteOptions) (level : Nat) (s : Bytes) :
    Blanks (Writer.breakAt wo level ++ s) s :=
  Blanks.append (fun _ hb => blank_of_mem_breakAt hb) s

/-- A key that reads back and the text of a value make a member. -/
theorem memberText_field {k : Bytes} (hk : ∀ r, StringText ro (Writer.quoted wo k ++ r) k r)
    {out r : Bytes} {n : Nat} {v : Value} (hv : ValueText ro n (out ++ r) v r) :
    MemberText ro n (Writer.field wo k ++ (out ++ r)) (k, v) r := by
  have hsep : ∃ pad : Bytes, (∀ b ∈ pad, blank b = true) ∧
      Writer.field wo k = Writer.quoted wo k ++ 0x3A :: pad := by
    unfold Writer.field
    split_ifs
    · exact ⟨[], by simp, rfl⟩
    · exact ⟨[0x20], fun b hb => by rw [List.mem_singleton.mp hb]; rfl, rfl⟩
  obtain ⟨pad, hpad, hf⟩ := hsep
  rw [hf, List.append_assoc, List.cons_append]
  exact .mk (hk _) (.nil _) (Blanks.append hpad _) hv

/-- Members whose keys and values read back make a member list of equivalent members. -/
theorem membersText_write {p : Bytes → Prop}
    (hq : ∀ s r, p s → StringText ro (Writer.quoted wo s ++ r) s r)
    {ms : List (Bytes × Value)} (hne : ms ≠ []) (hk : ∀ m ∈ ms, p m.1)
    (ih : ∀ m ∈ ms, ReadsBack wo ro m.2) (level : Nat) :
    ∃ body, Writer.members wo level ms = .ok body ∧
      ∀ n r, (∀ m ∈ ms, m.2.depth ≤ n) → Follows r →
        ∃ ps, MembersText ro n (body ++ r) ps r ∧ Value.membersEquiv ps ms = true := by
  induction ms with
  | nil => exact absurd rfl hne
  | cons m rest ihl =>
    obtain ⟨k, v⟩ := m
    obtain ⟨out, hout, hread⟩ := ih (k, v) List.mem_cons_self level
    have hkey : ∀ r, StringText ro (Writer.quoted wo k ++ r) k r :=
      fun r => hq k r (hk (k, v) List.mem_cons_self)
    cases rest with
    | nil =>
      refine ⟨Writer.field wo k ++ out, by simp [Writer.members, hout], fun n r hd hr => ?_⟩
      obtain ⟨v', hv', heq⟩ := hread n r (hd (k, v) List.mem_cons_self) hr
      refine ⟨[(k, v')], ?_, by simp [Value.membersEquiv, heq]⟩
      rw [List.append_assoc]
      exact .one (memberText_field hkey hv')
    | cons m' rest =>
      obtain ⟨tail, htail, hrest⟩ := ihl (List.cons_ne_nil _ _)
        (fun m hm => hk m (List.mem_cons_of_mem _ hm))
        (fun m hm => ih m (List.mem_cons_of_mem _ hm))
      refine ⟨Writer.field wo k ++ out ++ [0x2C] ++ Writer.breakAt wo level ++ tail, ?_,
        fun n r hd hr => ?_⟩
      · rw [Writer.members, hout, htail]
        · rfl
        · exact List.cons_ne_nil _ _
      · obtain ⟨ps, hps, heqs⟩ := hrest n r (fun m hm => hd m (List.mem_cons_of_mem _ hm)) hr
        -- the value is followed by the comma
        obtain ⟨v', hv', heq⟩ := hread n (0x2C :: (Writer.breakAt wo level ++ (tail ++ r)))
          (hd _ List.mem_cons_self) (follows_cons (by decide) _)
        refine ⟨(k, v') :: ps, ?_, by simp [Value.membersEquiv, heq, heqs]⟩
        have htext : Writer.field wo k ++ out ++ [0x2C] ++ Writer.breakAt wo level ++ tail ++ r =
            Writer.field wo k ++ (out ++ 0x2C :: (Writer.breakAt wo level ++ (tail ++ r))) := by
          simp
        rw [htext]
        exact .cons (memberText_field hkey hv') (.nil _) (blanks_breakAt wo level _) hps

/-- Elements that read back make an element list of equivalent elements. -/
theorem elementsText_write {xs : List Value} (hne : xs ≠ [])
    (ih : ∀ x ∈ xs, ReadsBack wo ro x) (level : Nat) :
    ∃ body, Writer.elems wo level xs = .ok body ∧
      ∀ n r, (∀ x ∈ xs, x.depth ≤ n) → Follows r →
        ∃ ys, ElementsText ro n (body ++ r) ys r ∧ Value.elemsEquiv ys xs = true := by
  induction xs with
  | nil => exact absurd rfl hne
  | cons x rest ihl =>
    obtain ⟨out, hout, hread⟩ := ih x List.mem_cons_self level
    cases rest with
    | nil =>
      refine ⟨out, by simp [Writer.elems, hout], fun n r hd hr => ?_⟩
      obtain ⟨x', hx', heq⟩ := hread n r (hd x List.mem_cons_self) hr
      exact ⟨[x'], .one hx', by simp [Value.elemsEquiv, heq]⟩
    | cons x₂ rest =>
      obtain ⟨tail, htail, hrest⟩ := ihl (List.cons_ne_nil _ _)
        (fun y hy => ih y (List.mem_cons_of_mem _ hy))
      refine ⟨out ++ [0x2C] ++ Writer.breakAt wo level ++ tail, ?_, fun n r hd hr => ?_⟩
      · rw [Writer.elems, hout, htail]
        · rfl
        · exact List.cons_ne_nil _ _
      · obtain ⟨ys, hys, heqs⟩ := hrest n r (fun y hy => hd y (List.mem_cons_of_mem _ hy)) hr
        obtain ⟨x', hx', heq⟩ := hread n (0x2C :: (Writer.breakAt wo level ++ (tail ++ r)))
          (hd x List.mem_cons_self) (follows_cons (by decide) _)
        refine ⟨x' :: ys, ?_, by simp [Value.elemsEquiv, heq, heqs]⟩
        have htext : out ++ [0x2C] ++ Writer.breakAt wo level ++ tail ++ r =
            out ++ 0x2C :: (Writer.breakAt wo level ++ (tail ++ r)) := by
          simp
        rw [htext]
        exact .cons hx' (.nil _) (blanks_breakAt wo level _) hys

theorem depth_pred {v : Value} {n : Nat} (hc : v.isContainer = true) (h : v.depth ≤ n) :
    ∃ n', n = n' + 1 := by
  refine ⟨n - 1, ?_⟩
  cases v <;> simp_all [Value.isContainer, Value.depth] <;> omega

/-- An object with distinct keys, whose keys and values read back, reads back. -/
theorem readsBack_obj {p : Bytes → Prop}
    (hq : ∀ s r, p s → StringText ro (Writer.quoted wo s ++ r) s r) {ms : List (Bytes × Value)}
    (hkeys : (ms.map Prod.fst).Nodup) (hk : ∀ m ∈ ms, p m.1)
    (ih : ∀ m ∈ ms, ReadsBack wo ro m.2) : ReadsBack wo ro (.obj ms) := by
  intro level
  cases ms with
  | nil =>
    refine ⟨_, Writer.value_emptyObject wo level, fun n r hd _ => ?_⟩
    obtain ⟨n', rfl⟩ := depth_pred rfl hd
    exact ⟨.obj [], .container (.emptyObject (.nil _)), rfl⟩
  | cons m ms =>
    obtain ⟨body, hbody, hread⟩ := membersText_write hq (List.cons_ne_nil m ms) hk ih (level + 1)
    refine ⟨[0x7B] ++ Writer.breakAt wo (level + 1) ++ body ++ Writer.breakAt wo level ++ [0x7D],
      by rw [Writer.value, hbody]; rfl, fun n r hd _ => ?_⟩
    -- the members are one level inside the braces
    obtain ⟨n', rfl⟩ := depth_pred rfl hd
    have hdm : ∀ m' ∈ m :: ms, m'.2.depth ≤ n' :=
      Value.membersDepth_le_iff.mp (by simp only [Value.depth] at hd; omega)
    obtain ⟨ps, hps, heq⟩ := hread n' (Writer.breakAt wo level ++ 0x7D :: r) hdm
      (follows_breakAt wo level (by decide) r)
    -- the keys read are the keys written, distinct, so setting them in order lists them
    have hnodup : (ps.map Prod.fst).Nodup := Value.keys_eq_of_membersEquiv heq ▸ hkeys
    refine ⟨.obj ps, ?_, by simpa [Value.equiv] using heq⟩
    have htext : [0x7B] ++ Writer.breakAt wo (level + 1) ++ body ++ Writer.breakAt wo level ++
        [0x7D] ++ r = 0x7B :: (Writer.breakAt wo (level + 1) ++
          (body ++ (Writer.breakAt wo level ++ 0x7D :: r))) := by
      simp
    rw [htext, ← Members.ofPairs_of_nodup hnodup]
    exact .container (.object (blanks_breakAt wo _ _) hps (blanks_breakAt wo _ _))

/-- An array whose elements read back reads back. -/
theorem readsBack_arr {xs : List Value} (ih : ∀ x ∈ xs, ReadsBack wo ro x) :
    ReadsBack wo ro (.arr xs) := by
  intro level
  cases xs with
  | nil =>
    refine ⟨_, Writer.value_emptyArray wo level, fun n r hd _ => ?_⟩
    obtain ⟨n', rfl⟩ := depth_pred rfl hd
    exact ⟨.arr [], .container (.emptyArray (.nil _)), rfl⟩
  | cons x xs =>
    obtain ⟨body, hbody, hread⟩ := elementsText_write (List.cons_ne_nil x xs) ih (level + 1)
    refine ⟨[0x5B] ++ Writer.breakAt wo (level + 1) ++ body ++ Writer.breakAt wo level ++ [0x5D],
      by rw [Writer.value, hbody]; rfl, fun n r hd _ => ?_⟩
    obtain ⟨n', rfl⟩ := depth_pred rfl hd
    have hdx : ∀ y ∈ x :: xs, y.depth ≤ n' :=
      Value.elemsDepth_le_iff.mp (by simp only [Value.depth] at hd; omega)
    obtain ⟨ys, hys, heq⟩ := hread n' (Writer.breakAt wo level ++ 0x5D :: r) hdx
      (follows_breakAt wo level (by decide) r)
    refine ⟨.arr ys, ?_, by simpa [Value.equiv] using heq⟩
    have htext : [0x5B] ++ Writer.breakAt wo (level + 1) ++ body ++ Writer.breakAt wo level ++
        [0x5D] ++ r = 0x5B :: (Writer.breakAt wo (level + 1) ++
          (body ++ (Writer.breakAt wo level ++ 0x5D :: r))) := by
      simp
    rw [htext]
    exact .container (.array (blanks_breakAt wo _ _) hys (blanks_breakAt wo _ _))

/-- The writer's text of a well-formed value reads back as an equivalent value, provided its
strings read back as themselves. -/
theorem readsBack_of_wf {p : Bytes → Prop}
    (hq : ∀ s r, p s → StringText ro (Writer.quoted wo s ++ r) s r) {v : Value} (hv : v.Wf)
    (hp : Value.Texts p v) : ReadsBack wo ro v := by
  induction hv with
  | null =>
    exact fun _ => ⟨_, rfl, fun _ _ _ hr => ⟨.null, .literal (literalText_null hr), rfl⟩⟩
  | bool b =>
    refine fun _ => ⟨_, ?_, fun _ _ _ hr => ⟨.bool b, .literal (literalText_bool b hr), ?_⟩⟩
    · cases b <;> rfl
    · simp [Value.equiv]
  | int n =>
    exact fun _ => ⟨_, rfl, fun _ _ _ hr =>
      ⟨.int n, .number (numberText_ofInt ro n hr), by simp [Value.equiv]⟩⟩
  | dec hlo _ =>
    refine fun _ => ⟨_, rfl, fun _ _ _ hr => ?_⟩
    obtain ⟨d', hd', hn⟩ := numberText_render ro hlo hr
    exact ⟨.dec d', .number hd', by simp [Value.equiv, Decimal.sameValue, hn]⟩
  | str s =>
    cases hp with
    | str hs =>
      exact fun _ => ⟨_, rfl, fun _ r _ _ =>
        ⟨.str s, .string (hq s r hs), by simp [Value.equiv]⟩⟩
  | @obj ms hkeys _ ih =>
    cases hp with
    | obj hk hts => exact readsBack_obj hq hkeys hk fun m hm => ih m hm (hts m hm)
  | @arr xs _ ih =>
    cases hp with
    | arr hts => exact readsBack_arr fun x hx => ih x hx (hts x hx)

end Values

end Grammar

end ExactJson
