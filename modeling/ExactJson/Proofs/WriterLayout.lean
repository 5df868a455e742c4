import Mathlib
import ExactJson.Proofs.WriterText
import ExactJson.Proofs.WriteRefusal
import ExactJson.Proofs.CursorSteps
import ExactJson.Proofs.GrammarValues

/-!
# The writer's layout

With an indent step the writer spreads out the text it would write compactly, and does nothing
else: deleting the spaces and line feeds that stand outside string literals gives back the
compact text exactly, and every run of blanks left outside literals is either the space after a
member's colon or a line break followed by whole levels of indentation.

Where string literals are is read off the text as the reader reads it: a quote opens and closes
a literal, and inside one a backslash hides the octet after it (`Layout.Zone`). With that:

* `Layout.strip p` deletes the octets `p` admits outside literals, and distributes over `++`
  (`strip_append`), which is what makes the compact text fall out of the indented one;
* `Layout.BlankRun pre w post` says that `w` is a whole run of blanks outside literals, and
  `Layout.Gap k pre w` what such a run may be with step `k`;
* `Layout.Laid k t` is a text that starts and ends with a token and whose blank runs are gaps;
  two laid texts joined by a gap are laid (`Laid.join`), since a run of the joined text lies in
  one of the parts or is the gap itself.

The writer then lays out every value one constructor at a time (`Writer.value_laysOut`): its
tokens are laid texts, and its containers join them with the line breaks of `breakAt`.
-/

namespace ExactJson

namespace Layout

open Grammar

/-- Where an octet of a text stands with respect to string literals: outside them, inside one,
or inside one right after a backslash, where it is hidden. -/
inductive Zone where
  | outside
  | inside
  | escaped
  deriving DecidableEq, Repr

namespace Zone

/-- The zone after one more octet: a quote opens and closes a literal, and inside one a
backslash hides the octet after it. -/
def next : Zone → UInt8 → Zone
  | outside, b => if b = 0x22 then inside else outside
  | inside, b => if b = 0x22 then outside else if b = 0x5C then escaped else inside
  | escaped, _ => inside

/-- The zone after a text. -/
def after (z : Zone) (t : Bytes) : Zone := t.foldl next z

@[simp] theorem after_nil (z : Zone) : z.after [] = z := rfl

@[simp] theorem after_cons (z : Zone) (b : UInt8) (t : Bytes) :
    z.after (b :: t) = (z.next b).after t := rfl

theorem after_append (z : Zone) (a b : Bytes) : z.after (a ++ b) = (z.after a).after b := by
  simp [after, List.foldl_append]

/-- Blanks outside literals leave the text outside them. -/
theorem after_blanks {w : Bytes} (hw : ∀ b ∈ w, blank b = true) : outside.after w = outside := by
  induction w with
  | nil => rfl
  | cons b w ih =>
    have hq : b ≠ 0x22 := by
      rintro rfl
      exact absurd (hw _ List.mem_cons_self) (by decide)
    rw [after_cons, next, if_neg hq]
    exact ih fun c hc => hw c (List.mem_cons_of_mem b hc)

end Zone

/-- The octets the writer lays out between tokens: space and line feed. -/
def spacing (b : UInt8) : Bool := b == 0x20 || b == 0x0A

/-- The text, read from zone `z`, with every octet that `p` admits deleted where it stands
outside string literals. -/
def strip (p : UInt8 → Bool) : Zone → Bytes → Bytes
  | _, [] => []
  | z, b :: r => (if z = .outside ∧ p b = true then [] else [b]) ++ strip p (z.next b) r

/-- `w` is a whole run of blanks outside string literals in the text `pre ++ w ++ post`: the
text before it ends outside every literal, and no blank stands right before or right after it. -/
structure BlankRun (pre w post : Bytes) : Prop where
  outside : Zone.outside.after pre = .outside
  nonempty : w ≠ []
  blanks : ∀ b ∈ w, blank b = true
  before : ∀ b ∈ pre.getLast?, blank b = false
  after : ∀ b ∈ post.head?, blank b = false

/-- The runs of blanks that indent step `k` lays out after the text `pre`: the single space after
a member's colon, or a line break followed by whole levels of indentation. -/
def Gap (k : Nat) (pre w : Bytes) : Prop :=
  (w = [0x20] ∧ pre.getLast? = some 0x3A) ∨ ∃ n, w = 0x0A :: List.replicate (n * k) 0x20

/-- What may stand between two laid texts: nothing, or a gap. -/
def Spacer (k : Nat) (pre g : Bytes) : Prop := g = [] ∨ Gap k pre g

/-- A text laid out with step `k`: it starts and ends with an octet that is no blank, it ends
outside every string literal, and each of its runs of blanks outside literals is a gap. -/
structure Laid (k : Nat) (t : Bytes) : Prop where
  ne_nil : t ≠ []
  head : ∀ b ∈ t.head?, blank b = false
  last : ∀ b ∈ t.getLast?, blank b = false
  closed : Zone.outside.after t = .outside
  gaps : ∀ pre w post, t = pre ++ w ++ post → BlankRun pre w post → Gap k pre w

/-- `text` lays out `flat` with step `k`: it is laid, and deleting its spaces and line feeds
outside string literals gives `flat`. -/
structure Spreads (k : Nat) (text flat : Bytes) : Prop where
  laid : Laid k text
  strip : strip spacing .outside text = flat

/-! ## Deleting blanks -/

section Strip

variable {p : UInt8 → Bool}

@[simp] theorem strip_nil (z : Zone) : strip p z [] = [] := rfl

theorem strip_append (z : Zone) (a b : Bytes) :
    strip p z (a ++ b) = strip p z a ++ strip p (z.after a) b := by
  induction a generalizing z with
  | nil => rfl
  | cons c a ih => simp [strip, ih]

theorem length_strip_le (z : Zone) (t : Bytes) : (strip p z t).length ≤ t.length := by
  induction t generalizing z with
  | nil => exact le_rfl
  | cons b t ih =>
    simp only [strip, List.length_append, List.length_cons]
    have := ih (z.next b)
    split_ifs <;> simp <;> omega

/-- A run that `p` deletes outside literals goes entirely, if `p` admits no quote. -/
theorem strip_deleted (hq : p 0x22 = false) {w : Bytes} (hw : ∀ b ∈ w, p b = true) :
    strip p .outside w = [] ∧ Zone.outside.after w = .outside := by
  induction w with
  | nil => exact ⟨rfl, rfl⟩
  | cons b w ih =>
    have hb := hw b List.mem_cons_self
    have hbq : b ≠ 0x22 := by
      rintro rfl
      rw [hq] at hb
      cases hb
    have hnext : Zone.outside.next b = .outside := by rw [Zone.next, if_neg hbq]
    obtain ⟨hs, hz⟩ := ih fun c hc => hw c (List.mem_cons_of_mem b hc)
    refine ⟨?_, by rw [Zone.after_cons, hnext, hz]⟩
    simp [strip, hb, hnext, hs]

/-- A text with no quote and nothing `p` admits stays as it is, outside every literal. -/
theorem strip_plain {t : Bytes} (ht : ∀ b ∈ t, b ≠ 0x22 ∧ p b = false) :
    strip p .outside t = t ∧ Zone.outside.after t = .outside := by
  induction t with
  | nil => exact ⟨rfl, rfl⟩
  | cons b t ih =>
    obtain ⟨hq, hp⟩ := ht b List.mem_cons_self
    have hnext : Zone.outside.next b = .outside := by rw [Zone.next, if_neg hq]
    obtain ⟨hs, hz⟩ := ih fun c hc => ht c (List.mem_cons_of_mem b hc)
    refine ⟨?_, by rw [Zone.after_cons, hnext, hz]⟩
    simp [strip, hp, hnext, hs]

/-- Inside a literal nothing is deleted, up to and including the quote that closes it. -/
theorem strip_of_quoteBody {s body r : Bytes} (h : QuoteBody s body r) :
    strip p .inside s = body ++ 0x22 :: strip p .outside r ∧
      Zone.inside.after s = Zone.outside.after r := by
  induction h with
  | close r => exact ⟨by simp [strip, Zone.next], by simp [Zone.next]⟩
  | plain hq hb _ ih =>
    refine ⟨?_, by simp [Zone.next, hq, hb, ih.2]⟩
    simp [strip, Zone.next, hq, hb, ih.1]
  | escape _ ih =>
    refine ⟨?_, by simp [Zone.next, ih.2]⟩
    simp [strip, Zone.next, ih.1]

end Strip

/-! ## Runs of blanks -/

theorem spacing_blank {b : UInt8} (h : spacing b = true) : blank b = true := by
  simp only [spacing, Bool.or_eq_true, beq_iff_eq] at h
  rcases h with rfl | rfl <;> rfl

theorem spacing_of_gap {k : Nat} {pre w : Bytes} (h : Gap k pre w) :
    w ≠ [] ∧ ∀ b ∈ w, spacing b = true := by
  rcases h with ⟨rfl, -⟩ | ⟨n, rfl⟩
  · exact ⟨List.cons_ne_nil _ _, by simp [spacing]⟩
  · refine ⟨List.cons_ne_nil _ _, fun b hb => ?_⟩
    simp only [List.mem_cons, List.mem_replicate] at hb
    rcases hb with rfl | ⟨-, rfl⟩ <;> rfl

/-- Whether a run is a gap depends on the text before it only through its last octet. -/
theorem Gap.append_left {k : Nat} {c w : Bytes} (h : Gap k c w) (hc : c ≠ []) (d : Bytes) :
    Gap k (d ++ c) w := by
  rcases h with ⟨hw, hl⟩ | hn
  · exact .inl ⟨hw, by rw [List.getLast?_append_of_ne_nil _ hc, hl]⟩
  · exact .inr hn

/-- No run of blanks is deleted from a text that has no blank outside literals. -/
theorem not_blankRun_of_strip {t pre w post : Bytes} (ht : strip blank .outside t = t)
    (hsplit : t = pre ++ w ++ post) (hr : BlankRun pre w post) : False := by
  have hw := (strip_deleted (p := blank) (by decide) hr.blanks).1
  have hlen := length_strip_le (p := blank) (Zone.outside.after (pre ++ w)) post
  have hpre := length_strip_le (p := blank) .outside pre
  rw [hsplit, strip_append, strip_append, hr.outside, hw, List.append_nil] at ht
  have hl := congrArg List.length ht
  have hne := List.length_pos_iff.mpr hr.nonempty
  simp only [List.length_append] at hl
  omega

/-- Two runs of blanks, each followed by what is no blank, that start a text together are the
same run. -/
theorem blanks_eq_of_append {w post g b : Bytes} (hw : ∀ c ∈ w, blank c = true)
    (hg : ∀ c ∈ g, blank c = true) (hpost : ∀ c ∈ post.head?, blank c = false)
    (hb : ∀ c ∈ b.head?, blank c = false) (h : w ++ post = g ++ b) : w = g := by
  induction w generalizing g with
  | nil =>
    cases g with
    | nil => rfl
    | cons c g =>
      simp only [List.nil_append, List.cons_append] at h
      subst h
      exact absurd (hg c List.mem_cons_self) (by simp [hpost c rfl])
  | cons c w ih =>
    cases g with
    | nil =>
      simp only [List.cons_append, List.nil_append] at h
      subst h
      exact absurd (hw c List.mem_cons_self) (by simp [hb c rfl])
    | cons c' g =>
      simp only [List.cons_append, List.cons.injEq] at h
      rw [h.1, ih (fun d hd => hw d (List.mem_cons_of_mem c hd))
        (fun d hd => hg d (List.mem_cons_of_mem c' hd)) h.2]

/-- A run of blanks in a text that starts with a part ending in a token, outside literals, lies
in that part or after it. -/
theorem BlankRun.split {a rest pre w post : Bytes} (hr : BlankRun pre w post)
    (hsplit : a ++ rest = pre ++ w ++ post) (hlast : ∀ b ∈ a.getLast?, blank b = false)
    (hclosed : Zone.outside.after a = .outside) :
    (∃ x, a = pre ++ w ++ x ∧ BlankRun pre w x) ∨
      ∃ c, pre = a ++ c ∧ rest = c ++ w ++ post ∧ BlankRun c w post := by
  rw [List.append_assoc] at hsplit
  rcases List.append_eq_append_iff.mp hsplit with ⟨c, rfl, hrest⟩ | ⟨c', rfl, hrest⟩
  · -- the run starts after `a`, which leaves the text outside every literal
    right
    refine ⟨c, rfl, by rw [hrest, List.append_assoc], ⟨?_, hr.nonempty, hr.blanks, ?_, hr.after⟩⟩
    · have hz := hr.outside
      rwa [Zone.after_append, hclosed] at hz
    · intro b hb
      have hc : c ≠ [] := by
        rintro rfl
        cases hb
      exact hr.before b (by rw [List.getLast?_append_of_ne_nil _ hc]; exact hb)
  · by_cases hc' : c' = []
    · -- the run starts right after `a`
      subst hc'
      right
      refine ⟨[], by simp, by simpa using hrest.symm, ⟨rfl, hr.nonempty, hr.blanks, by simp,
        hr.after⟩⟩
    · -- the run starts inside `a`, and cannot reach its last octet, which is no blank
      obtain ⟨b, hb⟩ := Option.isSome_iff_exists.mp (List.getLast?_isSome.mpr hc')
      have hab : blank b = false :=
        hlast b (by rw [List.getLast?_append_of_ne_nil _ hc', hb]; rfl)
      rcases List.append_eq_append_iff.mp hrest with ⟨x, rfl, rfl⟩ | ⟨y, rfl, -⟩
      · left
        have hx : x ≠ [] := by
          rintro rfl
          rw [List.append_nil] at hb
          rw [hr.blanks b (List.mem_of_getLast? hb)] at hab
          cases hab
        refine ⟨x, by simp, ⟨hr.outside, hr.nonempty, hr.blanks, hr.before, ?_⟩⟩
        intro b' hb'
        exact hr.after b' (by rw [List.head?_append_of_ne_nil _ hx]; exact hb')
      · exfalso
        have hw := hr.blanks b (List.mem_append_left y (List.mem_of_getLast? hb))
        rw [hab] at hw
        cases hw

/-! ## Joining laid texts -/

section Join

variable {k : Nat}

theorem Spacer.blanks {pre g : Bytes} (h : Spacer k pre g) :
    strip spacing .outside g = [] ∧ Zone.outside.after g = .outside ∧ ∀ c ∈ g, blank c = true := by
  rcases h with rfl | hg
  · exact ⟨rfl, rfl, by simp⟩
  · have hs := (spacing_of_gap hg).2
    exact ⟨(strip_deleted (by decide) hs).1, (strip_deleted (by decide) hs).2,
      fun c hc => spacing_blank (hs c hc)⟩

/-- A laid text does not start with a run of blanks. -/
theorem Laid.pre_ne_nil {t pre w post : Bytes} (ht : Laid k t) (hsplit : t = pre ++ w ++ post)
    (hr : BlankRun pre w post) : pre ≠ [] := by
  rintro rfl
  obtain ⟨c, w', rfl⟩ := List.exists_cons_of_ne_nil hr.nonempty
  have hc := ht.head c (by rw [hsplit]; rfl)
  rw [hr.blanks c List.mem_cons_self] at hc
  cases hc

/-- A run after blanks that open the text is a run of what follows them. -/
theorem BlankRun.drop_blanks {g c w post : Bytes} (hr : BlankRun (g ++ c) w post)
    (hg : ∀ b ∈ g, blank b = true) : BlankRun c w post where
  outside := by
    have hz := hr.outside
    rwa [Zone.after_append, Zone.after_blanks hg] at hz
  nonempty := hr.nonempty
  blanks := hr.blanks
  before := by
    intro b hb
    have hc : c ≠ [] := by
      rintro rfl
      cases hb
    exact hr.before b (by rw [List.getLast?_append_of_ne_nil _ hc]; exact hb)
  after := hr.after

/-- A run of blanks after a laid text `a`, in `g ++ b`, is the gap `g` or a run of `b`. -/
theorem gap_after {a g b c w post : Bytes} (hg : Spacer k a g) (hb : Laid k b)
    (hrest : g ++ b = c ++ w ++ post) (hr : BlankRun c w post) : Gap k (a ++ c) w := by
  obtain ⟨-, -, hgb⟩ := hg.blanks
  by_cases hc : c = []
  · -- the run opens the rest: it is all of `g`, and `g` is no empty gap
    subst hc
    have hwg : w = g := blanks_eq_of_append hr.blanks hgb hr.after hb.head
      (by simp at hrest; exact hrest.symm)
    subst hwg
    rcases hg with rfl | hg
    · exact absurd rfl hr.nonempty
    · simpa using hg
  · rw [List.append_assoc] at hrest
    rcases List.append_eq_append_iff.mp hrest.symm with ⟨a', rfl, -⟩ | ⟨c', rfl, hb'⟩
    · -- the run cannot start inside `g`, whose octets are blanks
      exfalso
      obtain ⟨d, hd⟩ := Option.isSome_iff_exists.mp (List.getLast?_isSome.mpr hc)
      have hbl := hr.before d hd
      rw [hgb d (List.mem_append_left a' (List.mem_of_getLast? hd))] at hbl
      cases hbl
    · -- the run lies in `b`, and not at its start
      have hsplit : b = c' ++ w ++ post := by rw [hb', List.append_assoc]
      have hc' : c' ≠ [] := hb.pre_ne_nil hsplit (hr.drop_blanks hgb)
      have hgap := hb.gaps c' w post hsplit (hr.drop_blanks hgb)
      simpa using hgap.append_left hc' (a ++ g)

/-- Two laid texts with nothing or a gap between them make a laid text: a run of blanks of the
whole lies in the first part, is the gap, or lies in the second part. -/
theorem Laid.join {a g b : Bytes} (ha : Laid k a) (hg : Spacer k a g) (hb : Laid k b) :
    Laid k (a ++ g ++ b) where
  ne_nil := by simp [ha.ne_nil]
  head := by
    intro c hc
    apply ha.head c
    rwa [List.append_assoc, List.head?_append_of_ne_nil _ ha.ne_nil] at hc
  last := by
    intro c hc
    apply hb.last c
    rwa [List.getLast?_append_of_ne_nil _ hb.ne_nil] at hc
  closed := by
    rw [Zone.after_append, Zone.after_append, ha.closed, hg.blanks.2.1, hb.closed]
  gaps := by
    intro pre w post hsplit hr
    have hsplit' : a ++ (g ++ b) = pre ++ w ++ post := by rw [← hsplit, List.append_assoc]
    rcases hr.split hsplit' ha.last ha.closed with ⟨x, rfl, hrx⟩ | ⟨c, rfl, hrest, hrc⟩
    · exact ha.gaps pre w x rfl hrx
    · exact gap_after hg hb hrest hrc

/-- Joining laid texts joins what they lay out. -/
theorem Spreads.join {a a₀ g b b₀ : Bytes} (ha : Spreads k a a₀) (hg : Spacer k a g)
    (hb : Spreads k b b₀) : Spreads k (a ++ g ++ b) (a₀ ++ b₀) where
  laid := ha.laid.join hg hb.laid
  strip := by
    obtain ⟨hgs, hgz, -⟩ := hg.blanks
    rw [strip_append, strip_append, Zone.after_append, ha.laid.closed, hgs, hgz, ha.strip,
      hb.strip, List.append_nil]

end Join

/-! ## Tokens -/

/-- A token: a text that starts and ends with an octet that is no blank, ends outside every
literal, and loses nothing when blanks are deleted outside literals. -/
structure Token (t : Bytes) : Prop where
  ne_nil : t ≠ []
  head : ∀ b ∈ t.head?, blank b = false
  last : ∀ b ∈ t.getLast?, blank b = false
  closed : Zone.outside.after t = .outside
  keeps : ∀ p : UInt8 → Bool, (∀ b, p b = true → blank b = true) → strip p .outside t = t

/-- A token is laid out as itself, with no run of blanks in it. -/
theorem Token.spreads {k : Nat} {t : Bytes} (ht : Token t) : Spreads k t t where
  laid := ⟨ht.ne_nil, ht.head, ht.last, ht.closed,
    fun _ _ _ hsplit hr => absurd (not_blankRun_of_strip (ht.keeps blank fun _ h => h) hsplit hr)
      id⟩
  strip := ht.keeps spacing fun _ => spacing_blank

/-- A nonempty text with no quote and no blank is a token. -/
theorem Token.plain {t : Bytes} (hne : t ≠ []) (ht : ∀ b ∈ t, b ≠ 0x22 ∧ blank b = false) :
    Token t where
  ne_nil := hne
  head := fun b hb => (ht b (List.mem_of_mem_head? hb)).2
  last := fun b hb => (ht b (List.mem_of_getLast? hb)).2
  closed := (strip_plain (p := blank) ht).2
  keeps := fun p hp => (strip_plain fun b hb => ⟨(ht b hb).1,
    Bool.eq_false_iff.mpr fun h => absurd (hp b h) (by simp [(ht b hb).2])⟩).1

/-- A string literal is a token: its quotes are no blanks, and nothing inside it is deleted. -/
theorem Token.literal {body : Bytes} (h : QuoteBody (body ++ [0x22]) body []) :
    Token (0x22 :: (body ++ [0x22])) where
  ne_nil := List.cons_ne_nil _ _
  head := by simp [blank, Code.isBlank]
  last := by
    rw [← List.cons_append, List.getLast?_append_of_ne_nil _ (List.cons_ne_nil _ _)]
    simp [blank, Code.isBlank]
  closed := by
    rw [Zone.after_cons, Zone.next, if_pos rfl, (strip_of_quoteBody (p := blank) h).2]
    rfl
  keeps := by
    intro p hp
    have hq : p 0x22 = false := Bool.eq_false_iff.mpr fun h => absurd (hp _ h) (by decide)
    have hs := (strip_of_quoteBody (p := p) h).1
    simp only [strip, hq, Zone.next, if_pos, hs]
    rfl

/-- An octet that may start a number is no quote and no blank. -/
theorem numberStart_plain {b : UInt8} (h : Code.isNumberStart b.toNat = true) :
    b ≠ 0x22 ∧ blank b = false := by
  simp only [Code.isNumberStart, Code.isDigit, Bool.or_eq_true, Bool.and_eq_true,
    decide_eq_true_eq] at h
  refine ⟨fun hb => by subst hb; simp at h, ?_⟩
  simp only [blank, Code.isBlank, Bool.or_eq_false_iff, decide_eq_false_iff_not]
  omega

end Layout

/-! ## What the writer lays out -/

namespace Value

theorem Texts.mono {p q : Bytes → Prop} (hpq : ∀ s, p s → q s) {v : Value} (h : Texts p v) :
    Texts q v := by
  induction h with
  | null => exact .null
  | bool b => exact .bool b
  | int n => exact .int n
  | dec d => exact .dec d
  | str hs => exact .str (hpq _ hs)
  | obj hk _ ih => exact .obj (fun m hm => hpq _ (hk m hm)) ih
  | arr _ ih => exact .arr ih
  | foreign t => exact .foreign t

end Value

/-- A content the quoted-string reader can return: the text between the quotes of a string it
reads. -/
def Cursor.QuotedContent (k : Bytes) : Prop := ∃ c : Cursor, c.readQuoted.2 = .ok k

/-- What the quoted-string reader returns is a string body, which ends at the quote after it. -/
theorem Cursor.QuotedContent.quoteBody {k : Bytes} (h : Cursor.QuotedContent k) (r : Bytes) :
    Grammar.QuoteBody (k ++ 0x22 :: r) k r := by
  obtain ⟨c, hc⟩ := h
  unfold Cursor.readQuoted at hc
  split_ifs at hc
  split at hc
  · rename_i j hs
    simp only [Except.ok.injEq] at hc
    subst hc
    exact (scanQuote_closed hs).2.2.reframe r
  · cases hc
  · cases hc

namespace Writer

open Layout

section Layout

variable {o o₀ : WriteOptions}

/-- A string is written as a token when it is escaped, or when it is kept raw and the reader can
return it. -/
theorem token_quoted {s : Bytes} (hs : o.rawStrings = true → Cursor.QuotedContent s) :
    Token (quoted o s) := by
  unfold quoted
  cases hr : o.rawStrings with
  | false => exact Token.literal (Grammar.quoteBody_escape s [])
  | true => exact Token.literal ((hs hr).quoteBody [])

/-- The literal words, the brackets and the punctuation the writer prints are tokens. -/
theorem token_ascii {t : Bytes} (ht : t = [0x6E, 0x75, 0x6C, 0x6C] ∨ t = [0x74, 0x72, 0x75, 0x65] ∨
    t = [0x66, 0x61, 0x6C, 0x73, 0x65] ∨ t = [0x7B, 0x7D] ∨ t = [0x5B, 0x5D] ∨ t = [0x7B] ∨
    t = [0x7D] ∨ t = [0x5B] ∨ t = [0x5D] ∨ t = [0x3A] ∨ t = [0x2C]) : Token t := by
  rcases ht with rfl | rfl | rfl | rfl | rfl | rfl | rfl | rfl | rfl | rfl | rfl <;>
    exact Token.plain (by simp) (by simp [Grammar.blank, Code.isBlank])

theorem token_number {t : Bytes} (ht : t ≠ [] ∧ ∀ b ∈ t, Code.isNumberStart b.toNat = true) :
    Token t :=
  Token.plain ht.1 fun b hb => numberStart_plain (ht.2 b hb)

/-- The line break before a member or a closing bracket is nothing or a gap. -/
theorem spacer_breakAt (o : WriteOptions) (level : Nat) (pre : Bytes) :
    Spacer o.step pre (breakAt o level) := by
  unfold breakAt
  split_ifs
  · exact .inl rfl
  · exact .inr (.inr ⟨level, rfl⟩)

theorem breakAt_of_step (h : o₀.step = 0) (level : Nat) : breakAt o₀ level = [] := by
  simp [breakAt, h]

/-- A key is written as its string, the colon, and with an indent step the space after it. -/
theorem field_eq (o : WriteOptions) (k : Bytes) :
    field o k = quoted o k ++ [0x3A] ++ (if o.step = 0 then [] else [0x20]) := by
  unfold field
  split_ifs <;> simp

theorem quoted_of_raw (h : o₀.rawStrings = o.rawStrings) (s : Bytes) : quoted o₀ s = quoted o s := by
  simp [quoted, h]

/-- The space after a member's colon is a gap. -/
theorem spacer_colon (o : WriteOptions) (pre : Bytes) :
    Spacer o.step (pre ++ [0x3A]) (if o.step = 0 then [] else [0x20]) := by
  split_ifs
  · exact .inl rfl
  · exact .inr (.inl ⟨rfl, by simp⟩)

/-- The writer lays `v` out: at every level, with the options `o` and with the compact options
`o₀`, it writes a text, and the first spreads out the second with the indent step of `o`. -/
def LaysOut (o o₀ : WriteOptions) (v : Value) : Prop :=
  ∀ level, ∃ text flat, value o level v = .ok text ∧ value o₀ level v = .ok flat ∧
    Spreads o.step text flat

variable (hstep : o₀.step = 0) (hraw : o₀.rawStrings = o.rawStrings)
include hstep hraw

/-- A member is its key's token, the colon and the value, spread around the colon. -/
theorem spreads_member {k out out₀ : Bytes} (hk : Token (quoted o k))
    (hv : Spreads o.step out out₀) : Spreads o.step (field o k ++ out) (field o₀ k ++ out₀) := by
  have hkey : Spreads o.step (quoted o k ++ [0x3A]) (quoted o k ++ [0x3A]) := by
    simpa using hk.spreads.join (.inl rfl) (token_ascii (t := [0x3A]) (by simp)).spreads
  have h := hkey.join (spacer_colon o (quoted o k)) hv
  rw [field_eq, field_eq, hstep, if_pos rfl, quoted_of_raw hraw]
  simpa using h

theorem members_laysOut {p : Bytes → Prop} (hq : ∀ s, p s → Token (quoted o s))
    {ms : List (Bytes × Value)} (hne : ms ≠ []) (hk : ∀ m ∈ ms, p m.1)
    (ih : ∀ m ∈ ms, LaysOut o o₀ m.2) (level : Nat) :
    ∃ body body₀, members o level ms = .ok body ∧ members o₀ level ms = .ok body₀ ∧
      Spreads o.step body body₀ := by
  induction ms with
  | nil => exact absurd rfl hne
  | cons m rest ihl =>
    obtain ⟨key, v⟩ := m
    obtain ⟨out, out₀, hout, hout₀, hv⟩ := ih (key, v) List.mem_cons_self level
    have hm := spreads_member hstep hraw (hq key (hk (key, v) List.mem_cons_self)) hv
    -- the writer treats a last member apart from the others
    cases rest with
    | nil =>
      exact ⟨_, _, by simp [members, hout], by simp [members, hout₀], hm⟩
    | cons m' rest =>
      obtain ⟨tail, tail₀, htail, htail₀, hrest⟩ := ihl (List.cons_ne_nil _ _)
        (fun m hm => hk m (List.mem_cons_of_mem _ hm)) (fun m hm => ih m (List.mem_cons_of_mem _ hm))
      have hcomma := hm.join (.inl rfl) ((token_ascii (t := [0x2C]) (by simp)).spreads)
      have h := hcomma.join (spacer_breakAt o level _) hrest
      rw [List.append_nil] at h
      refine ⟨_, _, ?_, ?_, h⟩
      · rw [members, hout, htail]
        · rfl
        · exact List.cons_ne_nil _ _
      · rw [members, hout₀, htail₀, breakAt_of_step hstep]
        · simp only [List.append_nil]
          rfl
        · exact List.cons_ne_nil _ _

omit hraw in
theorem elems_laysOut {xs : List Value} (hne : xs ≠ []) (ih : ∀ x ∈ xs, LaysOut o o₀ x)
    (level : Nat) :
    ∃ body body₀, elems o level xs = .ok body ∧ elems o₀ level xs = .ok body₀ ∧
      Spreads o.step body body₀ := by
  induction xs with
  | nil => exact absurd rfl hne
  | cons x rest ihl =>
    obtain ⟨out, out₀, hout, hout₀, hx⟩ := ih x List.mem_cons_self level
    cases rest with
    | nil => exact ⟨_, _, by simp [elems, hout], by simp [elems, hout₀], hx⟩
    | cons x' rest =>
      obtain ⟨tail, tail₀, htail, htail₀, hrest⟩ := ihl (List.cons_ne_nil _ _)
        (fun y hy => ih y (List.mem_cons_of_mem _ hy))
      have hcomma := hx.join (.inl rfl) ((token_ascii (t := [0x2C]) (by simp)).spreads)
      have h := hcomma.join (spacer_breakAt o level _) hrest
      rw [List.append_nil] at h
      refine ⟨_, _, ?_, ?_, h⟩
      · rw [elems, hout, htail]
        · rfl
        · exact List.cons_ne_nil _ _
      · rw [elems, hout₀, htail₀, breakAt_of_step hstep]
        · simp only [List.append_nil]
          rfl
        · exact List.cons_ne_nil _ _

omit hraw in
/-- A container is its brackets around its body, each bracket followed or preceded by a line
break. -/
theorem spreads_container {opening closing body body₀ : Bytes} (level : Nat)
    (ho : Token opening) (hc : Token closing) (hb : Spreads o.step body body₀) :
    Spreads o.step (opening ++ breakAt o (level + 1) ++ body ++ breakAt o level ++ closing)
      (opening ++ breakAt o₀ (level + 1) ++ body₀ ++ breakAt o₀ level ++ closing) := by
  have h := (ho.spreads.join (spacer_breakAt o (level + 1) _) hb).join
    (spacer_breakAt o level _) hc.spreads
  rw [breakAt_of_step hstep, breakAt_of_step hstep]
  simpa using h

/-- **The writer lays out every value** that holds no foreign node and whose strings are
written as tokens. -/
theorem value_laysOut {p : Bytes → Prop} (hq : ∀ s, p s → Token (quoted o s)) {v : Value}
    (ht : Value.Texts p v) (hv : v.foreignNames = []) : LaysOut o o₀ v := by
  induction ht with
  | null => exact fun _ => ⟨_, _, rfl, rfl, (token_ascii (.inl (by cbv))).spreads⟩
  | bool b =>
    intro level
    cases b with
    | true => exact ⟨_, _, rfl, rfl, (token_ascii (.inr (.inl (by cbv)))).spreads⟩
    | false => exact ⟨_, _, rfl, rfl, (token_ascii (.inr (.inr (.inl (by cbv))))).spreads⟩
  | int n => exact fun _ => ⟨_, _, rfl, rfl, (token_number (ofInt_numberStart _)).spreads⟩
  | dec d => exact fun _ => ⟨_, _, rfl, rfl, (token_number (render_numberStart d)).spreads⟩
  | str hs =>
    intro level
    refine ⟨_, _, rfl, rfl, ?_⟩
    rw [quoted_of_raw hraw]
    exact (hq _ hs).spreads
  | @obj ms hk _ ih =>
    -- every member holds no foreign node, since none of their names is listed
    have hms : ∀ m ∈ ms, m.2.foreignNames = [] := by
      rw [Value.foreignNames, Value.membersForeignNames_eq_flatMap, List.flatMap_eq_nil_iff] at hv
      exact hv
    intro level
    cases ms with
    | nil => exact ⟨_, _, value_emptyObject o level, value_emptyObject o₀ level,
        (token_ascii (by simp)).spreads⟩
    | cons m ms =>
      obtain ⟨body, body₀, hbody, hbody₀, hb⟩ := members_laysOut hstep hraw hq
        (List.cons_ne_nil m ms) hk (fun m hm => ih m hm (hms m hm)) (level + 1)
      refine ⟨_, _, by rw [value, hbody]; rfl, by rw [value, hbody₀]; rfl, ?_⟩
      exact spreads_container hstep level (token_ascii (by simp)) (token_ascii (by simp)) hb
  | @arr xs _ ih =>
    have hxs : ∀ x ∈ xs, x.foreignNames = [] := by
      rw [Value.foreignNames, Value.elemsForeignNames_eq_flatMap, List.flatMap_eq_nil_iff] at hv
      exact hv
    intro level
    cases xs with
    | nil => exact ⟨_, _, value_emptyArray o level, value_emptyArray o₀ level,
        (token_ascii (by simp)).spreads⟩
    | cons x xs =>
      obtain ⟨body, body₀, hbody, hbody₀, hb⟩ := elems_laysOut hstep
        (List.cons_ne_nil x xs) (fun x hx => ih x hx (hxs x hx)) (level + 1)
      refine ⟨_, _, by rw [value, hbody]; rfl, by rw [value, hbody₀]; rfl, ?_⟩
      exact spreads_container hstep level (token_ascii (by simp)) (token_ascii (by simp)) hb
  | foreign t => cases hv

end Layout

end Writer

/-- **Indentation only adds layout.** Writing a value that holds no foreign node with an indent
gives a text whose spaces and line feeds outside string literals are exactly what the compact
text lacks; each run of blanks left in it is the space after a member's colon or a line break
followed by whole levels of indentation; and empty containers keep their two brackets at every
level. With raw strings, every string and key must be a content the quoted-string reader returns,
so that its quotes still delimit a literal. -/
theorem write_indent_layout (v : Value) (o : WriteOptions) (hv : v.foreignNames = [])
    (hraw : o.rawStrings = true → Value.Texts Cursor.QuotedContent v) :
    ∃ text flat, v.write o = .ok text ∧ v.write { o with indent := 0 } = .ok flat ∧
      Layout.strip Layout.spacing .outside text = flat ∧
      (∀ pre w post, text = pre ++ w ++ post → Layout.BlankRun pre w post →
        Layout.Gap o.step pre w) ∧
      ∀ level, Writer.value o level (.obj []) = .ok [0x7B, 0x7D] ∧
        Writer.value o level (.arr []) = .ok [0x5B, 0x5D] := by
  have hstep : ({ o with indent := 0 } : WriteOptions).step = 0 := by
    simp [WriteOptions.step]
  -- the strings the writer quotes: any text when it escapes, reader contents when it does not
  let p : Bytes → Prop := fun s => o.rawStrings = true → Cursor.QuotedContent s
  have hp : Value.Texts p v := by
    cases hr : o.rawStrings with
    | false => exact (Value.texts_true v).mono fun _ _ h => by simp [hr] at h
    | true => exact (hraw hr).mono fun _ hs _ => hs
  have hu : Value.Texts p (if o.sortKeys then v.sortKeys else v) ∧
      (if o.sortKeys then v.sortKeys else v).foreignNames = [] := by
    split
    · exact ⟨hp.sortKeys, List.Perm.eq_nil ((Value.foreignNames_sortKeys_perm v).trans
        (by rw [hv]))⟩
    · exact ⟨hp, hv⟩
  obtain ⟨text, flat, htext, hflat, hs⟩ := Writer.value_laysOut (o := o) hstep rfl
    (fun _ hs => Writer.token_quoted hs) hu.1 hu.2 0
  exact ⟨text, flat, htext, hflat, hs.strip, hs.laid.gaps,
    fun level => ⟨Writer.value_emptyObject o level, Writer.value_emptyArray o level⟩⟩

theorem write_indent_layout_nested :
    (Value.obj [([0x61], .arr [.int 1, .obj []])]).foreignNames = [] ∧
      ∃ text flat, (Value.obj [([0x61], .arr [.int 1, .obj []])]).write { indent := 2 } =
        .ok text ∧ (Value.obj [([0x61], .arr [.int 1, .obj []])]).write {} = .ok flat ∧
        Layout.strip Layout.spacing .outside text = flat := by
  have hv : (Value.obj [([0x61], .arr [.int 1, .obj []])]).foreignNames = [] := by
    simp [Value.foreignNames, Value.membersForeignNames_eq_flatMap,
      Value.elemsForeignNames_eq_flatMap]
  obtain ⟨text, flat, h, h₀, hs, -⟩ :=
    write_indent_layout (.obj [([0x61], .arr [.int 1, .obj []])]) { indent := 2 } hv
      (fun h => absurd h Bool.false_ne_true)
  exact ⟨hv, text, flat, h, h₀, hs⟩

end ExactJson
