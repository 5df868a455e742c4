import Mathlib
import ExactJson.Proofs.WriterText
import ExactJson.Proofs.ReaderComplete
import ExactJson.Proofs.GrammarValues
import ExactJson.Proofs.WriteEquiv

/-!
# Writing and reading back

The writer and the reader are inverse up to the equality of the model. A well-formed object or
array, written with escaped strings in any layout and key order, is a document that a reader
unescaping strings reads back as the value written, with its members in the order written, as
long as the value is no deeper and the text no longer than the reader allows
(`readDocument_write`).
-/

namespace ExactJson

open Grammar

theorem Value.isContainer_sortKeys {v : Value} (h : v.isContainer = true) :
    v.sortKeys.isContainer = true := by
  cases v <;> simp_all [Value.isContainer, Value.sortKeys]

/-- A container is printed with its opening bracket first. -/
theorem Writer.value_head {wo : WriteOptions} {level : Nat} {v : Value} {out : Bytes}
    (hc : v.isContainer = true) (h : Writer.value wo level v = .ok out) :
    ∃ b s, out = b :: s ∧ (b = 0x7B ∨ b = 0x5B) := by
  cases v with
  | obj ms =>
    cases ms with
    | nil =>
      rw [Writer.value_emptyObject, Except.ok.injEq] at h
      exact ⟨_, _, h.symm, .inl rfl⟩
    | cons m ms =>
      simp only [Writer.value] at h
      cases hb : Writer.members wo (level + 1) (m :: ms) with
      | error f => simp [hb] at h
      | ok body =>
        simp only [hb] at h
        exact ⟨_, _, (Except.ok.inj h).symm, .inl rfl⟩
  | arr xs =>
    cases xs with
    | nil =>
      rw [Writer.value_emptyArray, Except.ok.injEq] at h
      exact ⟨_, _, h.symm, .inr rfl⟩
    | cons x xs =>
      simp only [Writer.value] at h
      cases hb : Writer.elems wo (level + 1) (x :: xs) with
      | error f => simp [hb] at h
      | ok body =>
        simp only [hb] at h
        exact ⟨_, _, (Except.ok.inj h).symm, .inr rfl⟩
  | _ => simp [Value.isContainer] at hc

/-- A value text that opens with a bracket is a container text. -/
theorem Grammar.ValueText.container_of_bracket {o : ReadOptions} {n : Nat} {b : UInt8}
    {s r : Bytes} {v : Value} (hb : b = 0x7B ∨ b = 0x5B) (h : ValueText o n (b :: s) v r) :
    ContainerText o n (b :: s) v r := by
  have hno : numberStart b = false ∧ literalStart b = false ∧ b ≠ 0x22 := by
    rcases hb with rfl | rfl <;> decide
  cases h with
  | string hs => exact absurd hs.start hno.2.2
  | number hn => simp [hn.start] at hno
  | literal hl => simp [hl.start] at hno
  | container hc => exact hc

/-- The writer's text of a container, read back as a value before blanks that end the text, is
a document of that value. -/
theorem readDocument_of_valueText {ro : ReadOptions} {wo : WriteOptions} {u v : Value}
    {out tail : Bytes} (hc : u.isContainer = true) (hout : Writer.value wo 0 u = .ok out)
    (hv : ValueText ro ro.depthLimit (out ++ tail) v tail) (hb : Blanks tail [])
    (hlen : out.length + tail.length ≤ ro.sizeLimit) :
    readDocument ro (out ++ tail).toArray = .ok v := by
  obtain ⟨b, s, rfl, hb'⟩ := Writer.value_head hc hout
  have hsize : (b :: s ++ tail).toArray.size ≤ ro.sizeLimit := by
    simp only [List.size_toArray, List.length_append] at hlen ⊢
    exact hlen
  refine readDocument_complete hsize ⟨_, tail, .nil _, ?_, hb⟩
  rw [List.toList_toArray]
  exact hv.container_of_bracket hb'

/-- What the writer prints is the value itself or the value with sorted keys: well formed, a
container and as deep as the value, when the value is. -/
theorem write_target {v : Value} (hv : v.Wf) (hroot : v.isContainer = true) (b : Bool) :
    (if b then v.sortKeys else v).Wf ∧ (if b then v.sortKeys else v).isContainer = true ∧
      (if b then v.sortKeys else v).depth = v.depth := by
  cases b with
  | false => exact ⟨hv, hroot, rfl⟩
  | true => exact ⟨hv.sortKeys, Value.isContainer_sortKeys hroot, Value.depth_sortKeys v⟩

/-- A well-formed object or array, written with escaped strings in any layout and key order, is
a document that a reader unescaping strings reads back as the value written (its members sorted
when the writer sorts them), whenever the value is no deeper and the text no longer than the
reader allows. -/
theorem readDocument_write (v : Value) (hv : v.Wf) (hroot : v.isContainer = true)
    (wo : WriteOptions) (hraw : wo.rawStrings = false) :
    ∃ out, v.write wo = .ok out ∧
      ∀ ro : ReadOptions, ro.strings = .unescape → v.depth ≤ ro.depthLimit →
        out.length ≤ ro.sizeLimit →
        ∃ v', readDocument ro out.toArray = .ok v' ∧
          v'.equiv (if wo.sortKeys then v.sortKeys else v) = true := by
  obtain ⟨hwf, hcont, hdepth⟩ := write_target hv hroot wo.sortKeys
  rw [Value.write]
  generalize (if wo.sortKeys then v.sortKeys else v) = u at hwf hcont hdepth ⊢
  -- the text is the reader's business only through its string mode
  have hback : ∀ ro : ReadOptions, ro.strings = .unescape → ReadsBack wo ro u := fun ro hro =>
    readsBack_of_wf (fun s r _ => quoted_stringText hraw hro s r) hwf (Value.texts_true u)
  obtain ⟨out, hout, -⟩ := hback {} rfl 0
  refine ⟨out, hout, fun ro hro hd hsize => ?_⟩
  obtain ⟨out', hout', hread⟩ := hback ro hro 0
  obtain rfl : out' = out := Except.ok.inj (hout'.symm.trans hout)
  obtain ⟨v', hv', heq⟩ := hread ro.depthLimit [] (hdepth ▸ hd) follows_nil
  have hdoc := readDocument_of_valueText hcont hout hv' (.nil _) (by simpa using hsize)
  rw [List.append_nil] at hdoc
  exact ⟨v', hdoc, heq⟩

/-- An array of an integer and a decimal, written sorted and indented. -/
theorem readDocument_write_intDec :
    (Value.arr [.int 7, .dec ⟨-250, -2⟩]).Wf ∧
      ∃ out, (Value.arr [.int 7, .dec ⟨-250, -2⟩]).write { sortKeys := true, indent := 2 } =
        .ok out ∧
        ∀ ro : ReadOptions, ro.strings = .unescape →
          (Value.arr [.int 7, .dec ⟨-250, -2⟩]).depth ≤ ro.depthLimit →
          out.length ≤ ro.sizeLimit →
          ∃ v', readDocument ro out.toArray = .ok v' ∧
            v'.equiv (Value.arr [.int 7, .dec ⟨-250, -2⟩]).sortKeys = true := by
  have hwf : (Value.arr [.int 7, .dec ⟨-250, -2⟩]).Wf := by
    refine .arr fun x hx => ?_
    simp only [List.mem_cons, List.not_mem_nil, or_false] at hx
    rcases hx with rfl | rfl
    · exact .int 7
    · exact .dec (by decide) (by decide)
  exact ⟨hwf, readDocument_write _ hwf rfl _ rfl⟩

/-! ## Formatting twice -/

/-- When the writer quotes strings as the reader reads them (escaped for a reader that
unescapes, as they are for one that keeps them raw), every string body reads back. -/
theorem quoted_stringText_of_modes {ro : ReadOptions} {wo : WriteOptions}
    (hmodes : (ro.strings = .unescape ∧ wo.rawStrings = false) ∨
      (ro.strings = .raw ∧ wo.rawStrings = true))
    (k r : Bytes) (hk : RawBody ro k) : StringText ro (Writer.quoted wo k ++ r) k r := by
  rcases hmodes with ⟨hro, hraw⟩ | ⟨hro, hraw⟩
  · exact quoted_stringText hraw hro k r
  · rw [Writer.quoted, hraw, if_pos rfl]
    simp only [List.cons_append, List.append_assoc]
    exact .mk (hk hro r) (by simp [stringContent, hro])

/-- A value equivalent to what the writer prints for `v` is printed as `v` is: the writer sees
values up to equivalence, and sorting what is sorted changes nothing. -/
theorem write_of_equiv_target {u v : Value} {wo : WriteOptions}
    (h : u.equiv (if wo.sortKeys then v.sortKeys else v) = true) : u.write wo = v.write wo := by
  unfold Value.write
  cases hs : wo.sortKeys
  · simp only [hs, Bool.false_eq_true, if_false] at h ⊢
    exact Writer.value_congr h 0
  · simp only [hs, if_true] at h ⊢
    have hsorted : u.KeysSorted := .of_equiv h (Value.keysSorted_sortKeys v)
    rw [Value.sortKeys_of_keysSorted hsorted]
    exact Writer.value_congr h 0

/-- Formatting is idempotent: the text the writer prints for a document the reader accepted,
with the string modes of the two matched, is read again, also with a line break after it, as a
value the writer prints as the same text. -/
theorem format_idempotent (t : Array UInt8) (ro : ReadOptions) (wo : WriteOptions)
    (hmodes : (ro.strings = .unescape ∧ wo.rawStrings = false) ∨
      (ro.strings = .raw ∧ wo.rawStrings = true))
    {v : Value} {s : Bytes} (hv : readDocument ro t = .ok v) (hs : v.write wo = .ok s)
    (hsize : s.length + 1 ≤ ro.sizeLimit) :
    (∃ v₁, readDocument ro s.toArray = .ok v₁ ∧ v₁.write wo = .ok s) ∧
      ∃ v₂, readDocument ro (s ++ [0x0A]).toArray = .ok v₂ ∧ v₂.write wo = .ok s := by
  obtain ⟨-, u, r, -, hc, -⟩ := readDocument_sound hv
  obtain ⟨hwf, hdepth, htexts⟩ := hc.readable
  obtain ⟨hwf', hcont, hdepth'⟩ := write_target hwf hc.isContainer wo.sortKeys
  have htexts' : Value.Texts (RawBody ro) (if wo.sortKeys then v.sortKeys else v) := by
    cases wo.sortKeys
    · exact htexts
    · exact htexts.sortKeys
  obtain ⟨out, hout, hread⟩ :=
    readsBack_of_wf (fun k r hk => quoted_stringText_of_modes hmodes k r hk) hwf' htexts' 0
  have hs' : out = s := Except.ok.inj (hout.symm.trans hs)
  rw [hs'] at hout hread
  -- read with any ending of blanks that cannot continue a token, the text gives back `s`
  have hdoc : ∀ tail : Bytes, Follows tail → Blanks tail [] →
      s.length + tail.length ≤ ro.sizeLimit →
      ∃ v', readDocument ro (s ++ tail).toArray = .ok v' ∧ v'.write wo = .ok s := by
    intro tail hf hb hlen
    obtain ⟨v', hv', heq⟩ := hread ro.depthLimit tail (hdepth' ▸ hdepth) hf
    refine ⟨v', readDocument_of_valueText hcont hout hv' hb hlen, ?_⟩
    rw [write_of_equiv_target heq]
    exact hs
  refine ⟨?_, hdoc [0x0A] (follows_cons (by decide) []) (.cons rfl (.nil _))
    (by simpa using hsize)⟩
  simpa using hdoc [] follows_nil (.nil _) (by rw [List.length_nil]; omega)

/-- The empty array, formatted and read again. -/
theorem format_idempotent_emptyArray :
    readDocument {} #[0x5B, 0x5D] = .ok (.arr []) ∧ (Value.arr []).write {} = .ok [0x5B, 0x5D] ∧
      ((∃ v₁, readDocument {} ([0x5B, 0x5D] : Bytes).toArray = .ok v₁ ∧
          v₁.write {} = .ok [0x5B, 0x5D]) ∧
        ∃ v₂, readDocument {} (([0x5B, 0x5D] : Bytes) ++ [0x0A]).toArray = .ok v₂ ∧
          v₂.write {} = .ok [0x5B, 0x5D]) := by
  have hread : readDocument {} #[0x5B, 0x5D] = .ok (.arr []) :=
    readDocument_complete (by decide) ⟨_, [], .nil _, .emptyArray (.nil _), .nil _⟩
  have hwrite : (Value.arr []).write {} = .ok [0x5B, 0x5D] := Writer.value_emptyArray {} 0
  exact ⟨hread, hwrite,
    format_idempotent _ {} {} (.inl ⟨rfl, rfl⟩) hread hwrite (by decide)⟩

end ExactJson
