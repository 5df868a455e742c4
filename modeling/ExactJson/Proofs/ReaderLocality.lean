import Mathlib
import ExactJson.Proofs.FailureSites

/-!
# The reader looks no further than it must

A run of the reader takes its input one octet at a time. Where it fails on an octet, or stops at
a position, it has looked at nothing past that octet, or past that position; to end a numeric
run or a run of letters it looks at the octet just after the run, which is the position it
stops at. So on an input `t'` that agrees with `t` below `K` (`Agrees t t' K`), a run does what
it does on `t`: it fails the same way when on `t` it fails on an octet below `K`, and it stops at
the same position with the same result when on `t` it stops below `K` (`Mirrors`), unless it runs
out of fuel on `t'`.

The primitives are local: the end of a run of octets of a class, the scan for a closing quote,
a slice (`runEnd_agree`, `scanQuote_agree`, `slice_agree`); so are a move of the table and the
readers of strings, numbers and literals. The four functions of the reader follow by one mutual
recursion on the fuel of the run on `t`, with any fuel for the run on `t'`. Where a step must
have stopped below `K` for the steps after it to fail or stop below `K`, `Ends` says so.
-/

namespace ExactJson

open Grammar Cursor

/-- `t'` agrees with `t` below position `K`, which `t` reaches. -/
def Agrees (t t' : Array UInt8) (K : Nat) : Prop := K ≤ t.size ∧ ∀ x < K, t'[x]? = t[x]?

section Local

variable {t t' : Array UInt8} {K : Nat}

theorem Agrees.size_le (h : Agrees t t' K) : K ≤ t'.size := by
  rcases Nat.eq_zero_or_pos K with rfl | hK
  · exact Nat.zero_le _
  · have hlt : K - 1 < t.size := by have := h.1; omega
    have hx := h.2 (K - 1) (by omega)
    rw [Array.getElem?_eq_getElem hlt] at hx
    have := octet_index_lt hx
    omega

theorem Agrees.getElem_eq (h : Agrees t t' K) {x : Nat} (hx : x < K) (h1 : x < t.size)
    (h2 : x < t'.size) : t'[x] = t[x] := by
  have he := h.2 x hx
  rw [Array.getElem?_eq_getElem h1, Array.getElem?_eq_getElem h2] at he
  exact Option.some.inj he

theorem Agrees.onQuote (h : Agrees t t' K) {i : Nat} (hq : OnQuote t i) (hiK : i ≤ K) :
    OnQuote t' i :=
  ⟨hq.1, by rw [h.2 (i - 1) (by have := hq.1; omega)]; exact hq.2⟩

theorem le_runEnd (P : Int → Bool) (t : Array UInt8) (j : Nat) : j ≤ runEnd P t j := by
  rw [runEnd_eq]
  omega

/-- A run that ends below `K` ends at the same place on an input that agrees below `K`. -/
theorem runEnd_agree (h : Agrees t t' K) {P : Int → Bool} {j : Nat} :
    runEnd P t j < K → runEnd P t' j = runEnd P t j := by
  fun_induction runEnd P t j with
  | case1 j hj hp ih =>
    intro hK
    have hjK : j < K := lt_of_lt_of_le (Nat.lt_succ_self j) (le_trans (le_runEnd P t (j + 1)) hK.le)
    have hj' : j < t'.size := lt_of_lt_of_le hjK h.size_le
    rw [runEnd, dif_pos hj', h.getElem_eq hjK hj hj', if_pos hp]
    exact ih hK
  | case2 j hj hp =>
    intro hK
    have hj' : j < t'.size := lt_of_lt_of_le hK h.size_le
    rw [runEnd, dif_pos hj', h.getElem_eq hK hj hj', if_neg hp]
  | case3 j hj =>
    intro hK
    exact absurd (lt_of_lt_of_le hK h.1) hj

theorem blankEnd_agree (h : Agrees t t' K) {i : Nat} (hK : blankEnd t i < K) :
    blankEnd t' i = blankEnd t i := by
  rw [blankEnd_eq_runEnd] at hK ⊢
  rw [blankEnd_eq_runEnd]
  exact runEnd_agree h hK

/-- A string closed below `K` is closed at the same place on an input that agrees below `K`. -/
theorem scanQuote_agree (h : Agrees t t' K) {j k : Nat} :
    scanQuote t j = .closed k → k < K → scanQuote t' j = .closed k := by
  fun_induction scanQuote t j with
  | case1 j hj hbs hj1 ih =>
    intro hs hk
    have hle := (scanQuote_closed hs).1
    have hj' : j < t'.size := lt_of_lt_of_le (by omega) h.size_le
    have hj1' : j + 1 < t'.size := lt_of_lt_of_le (by omega) h.size_le
    rw [scanQuote, dif_pos hj', h.getElem_eq (by omega) hj hj', if_pos hbs, if_pos hj1']
    exact ih hs hk
  | case2 j hj hbs hj1 =>
    intro hs
    cases hs
  | case3 j hj hbs hq =>
    intro hs hk
    cases hs
    have hj' := lt_of_lt_of_le hk h.size_le
    rw [scanQuote, dif_pos hj', h.getElem_eq hk hj hj', if_neg hbs, if_pos hq]
  | case4 j hj hbs hq ih =>
    intro hs hk
    have hle := (scanQuote_closed hs).1
    have hj' : j < t'.size := lt_of_lt_of_le (by omega) h.size_le
    rw [scanQuote, dif_pos hj', h.getElem_eq (by omega) hj hj', if_neg hbs, if_neg hq]
    exact ih hs hk
  | case5 j hj =>
    intro hs
    cases hs

theorem slice_agree (h : Agrees t t' K) {i j : Nat} (hj : j ≤ K) : slice t' i j = slice t i j := by
  apply List.ext_getElem?
  intro m
  simp only [slice_eq, List.getElem?_take, List.getElem?_drop, Array.getElem?_toList]
  split_ifs
  · exact h.2 (i + m) (by omega)
  · rfl

/-- A move of the table that looks below `K` moves the same way on an input that agrees below
`K`. -/
theorem Phase.advance_agree (h : Agrees t t' K) {p : Phase} {j : Nat} (hj : j ≤ t.size)
    (hb : blankEnd t j < K) :
    p.advance (after t' j) =
      match p.advance (after t j) with
      | .ok (q, c) => .ok (q, after t' c.seen)
      | .error f => .error f := by
  have hj' : j ≤ t'.size := le_trans (le_trans (le_blankEnd t j) hb.le) h.size_le
  have hbt : blankEnd t j < t.size := lt_of_lt_of_le hb h.1
  have hbt' : blankEnd t j < t'.size := lt_of_lt_of_le hb h.size_le
  rw [Phase.advance_after p hj, Phase.advance_after p hj']
  simp only [blankEnd_agree h hb, dif_pos hbt, dif_pos hbt', h.getElem_eq hb hbt]
  cases p.step t[blankEnd t j].toNat (blankEnd t j) <;> rfl

/-- A move of the table looks at the octet after the blanks, which is where it stops or just
before. -/
theorem blankEnd_le_of_advance {p q : Phase} {j k : Nat} (hj : j ≤ t.size)
    (h : p.advance (after t j) = .ok (q, after t k)) : blankEnd t j ≤ k := by
  rcases Phase.advance_eq_ok hj h with ⟨-, -, hk⟩ | ⟨-, -, hk⟩ <;>
    · have := congrArg Cursor.seen hk
      simp only [after_seen] at this
      omega

end Local

/-! ## Runs that agree -/

/-- A run that ran out of fuel. -/
def OutOfFuel {α : Type} (r : Except Failure (α × Cursor)) : Prop :=
  ∃ g, r = .error g ∧ g.cls = .internalError

/-- The run `r'` on `t'` does what the run `r` on `t` does below `K`: a failure that names an
octet below `K` is the same failure, and a stop below `K` is the same stop with the same result;
unless `r'` ran out of fuel. -/
def Mirrors (t t' : Array UInt8) (K : Nat) {α : Type} (r r' : Except Failure (α × Cursor)) :
    Prop :=
  (∀ f, r = .error f → f.cls.namesOctet = true → f.offset < K → r' = .error f ∨ OutOfFuel r') ∧
    ∀ a j, r = .ok (a, after t j) → j < K → r' = .ok (a, after t' j) ∨ OutOfFuel r'

namespace Mirrors

variable {o : ReadOptions} {t t' : Array UInt8} {K : Nat} {α β : Type}

theorem of_internal {r' : Except Failure (α × Cursor)} (c : Cursor) (m : String) :
    Mirrors t t' K (.error (c.failure .internalError m)) r' :=
  ⟨fun f hf hc _ => (by cases hf; cases hc), fun a j hr _ => (by cases hr)⟩

theorem out_of_fuel (r : Except Failure (α × Cursor)) (c : Cursor) (m : String) :
    Mirrors t t' K r (.error (c.failure .internalError m)) :=
  ⟨fun _ _ _ _ => .inr ⟨_, rfl, rfl⟩, fun _ _ _ _ => .inr ⟨_, rfl, rfl⟩⟩

theorem error_same (f : Failure) : Mirrors (α := α) t t' K (.error f) (.error f) :=
  ⟨fun g hg _ _ => (by cases hg; exact .inl rfl), fun a j hr _ => (by cases hr)⟩

theorem ok_same (a : α) (i : Nat) : Mirrors t t' K (.ok (a, after t i)) (.ok (a, after t' i)) := by
  refine ⟨fun f hf _ _ => (by cases hf), fun b j hr _ => ?_⟩
  cases hr
  exact .inl rfl

/-- A run whose failures that name an octet and whose stops all lie at or past `K` has nothing
to mirror. -/
theorem of_ends {k : Nat} {r r' : Except Failure (α × Cursor)} (h : Ends o t k r) (hk : K ≤ k) :
    Mirrors t t' K r r' := by
  refine ⟨fun f hf hc ho => ?_, fun a j hr hj => ?_⟩
  · rw [hf] at h
    obtain ⟨n, hn, -, hoct, -⟩ := h
    have := (hoct hc).1
    omega
  · rw [hr] at h
    obtain ⟨j', hj', hkj, -⟩ := h
    have := congrArg Cursor.seen hj'
    simp only [after_seen] at this
    omega

/-- A step after a run that keeps the cursor, or fails naming no octet, keeps the run's
mirror. -/
theorem post {R R' : Except Failure (α × Cursor)}
    (post : Except Failure (α × Cursor) → Except Failure (β × Cursor))
    (herr : ∀ f, post (.error f) = .error f)
    (hok : ∀ a, (∃ b, ∀ c, post (.ok (a, c)) = .ok (b, c)) ∨
      ∃ f, f.cls.namesOctet = false ∧ ∀ c, post (.ok (a, c)) = .error f)
    (h : Mirrors t t' K R R') {x x' : Except Failure (β × Cursor)} (hx : x = post R)
    (hx' : x' = post R') : Mirrors t t' K x x' := by
  subst hx hx'
  refine ⟨fun f hf hc ho => ?_, fun b j hr hj => ?_⟩
  · rcases hR : R with f' | ⟨a, c⟩ <;> rw [hR] at hf
    · rw [herr] at hf
      cases hf
      rcases h.1 _ hR hc ho with h' | ⟨g', h', hg'⟩ <;> rw [h', herr]
      · exact .inl rfl
      · exact .inr ⟨g', rfl, hg'⟩
    · rcases hok a with ⟨b, hb⟩ | ⟨f', hf', hb⟩ <;> rw [hb] at hf <;> cases hf
      rw [hf'] at hc
      cases hc
  · rcases hR : R with f' | ⟨a, c⟩ <;> rw [hR] at hr
    · rw [herr] at hr
      cases hr
    · rcases hok a with ⟨b', hb⟩ | ⟨f', -, hb⟩ <;> rw [hb] at hr
      · simp only [Except.ok.injEq, Prod.mk.injEq] at hr
        obtain ⟨rfl, rfl⟩ := hr
        rcases h.2 a j hR hj with h' | ⟨g', h', hg'⟩
        · rw [h', hb]
          exact .inl rfl
        · rw [h', herr]
          exact .inr ⟨g', rfl, hg'⟩
      · cases hr

theorem map (g : α → β) {x : ReadStep α} {c c' : Cursor} (h : Mirrors t t' K (x c) (x c')) :
    Mirrors t t' K ((g <$> x) c) ((g <$> x) c') :=
  post (Except.map fun p => (g p.1, p.2)) (fun _ => rfl) (fun a => .inl ⟨g a, fun _ => rfl⟩) h
    (by cases hx : x c <;> simp [hx, Except.map]) (by cases hx : x c' <;> simp [hx, Except.map])

end Mirrors

/-! ## The reading steps mirror -/

section Steps

variable {o : ReadOptions} {t t' : Array UInt8} {K : Nat}

theorem readStringStep_mirrors (h : Agrees t t' K) {i : Nat} (hq : OnQuote t i) (hiK : i ≤ K) :
    Mirrors t t' K (readStringStep o (after t i)) (readStringStep o (after t' i)) := by
  refine ⟨fun f hf hc _ => ?_, fun k l hl hlK => .inl ?_⟩
  · rcases readStringStep_error hq hf with ⟨hc', -⟩ | ⟨hc', -⟩ <;> rw [hc'] at hc <;> cases hc
  · have hq' := h.onQuote hq hiK
    rw [readStringStep_after o hq.1 hq.2] at hl
    cases hs : scanQuote t i with
    | closed j =>
      cases hc : stringContent o (slice t i j) with
      | none => simp [hs, hc] at hl
      | some k' =>
        simp only [hs, hc, Except.ok.injEq, Prod.mk.injEq] at hl
        obtain ⟨rfl, hl⟩ := hl
        have hjl : j + 1 = l := by simpa using congrArg Cursor.seen hl
        subst hjl
        rw [readStringStep_after o hq'.1 hq'.2, scanQuote_agree h hs (by omega)]
        simp only [slice_agree h (show j ≤ K by omega), hc]
    | unclosed => simp [hs] at hl
    | unclosedEscape => simp [hs] at hl

theorem readNumberStep_mirrors (h : Agrees t t' K) {i : Nat} {b : UInt8} (h0 : 0 < i)
    (hb : t[i - 1]? = some b) (hn : numberStart b = true) (hiK : i ≤ K) :
    Mirrors t t' K (readNumberStep o (after t i)) (readNumberStep o (after t' i)) := by
  refine ⟨fun f hf hc _ => ?_, fun x l hl hlK => .inl ?_⟩
  · obtain ⟨-, hc' | ⟨hc', -⟩⟩ := readNumberStep_error h0 hb hn hf <;> rw [hc'] at hc <;> cases hc
  · have hb' : t'[i - 1]? = some b := by rw [h.2 (i - 1) (by omega)]; exact hb
    rw [readNumberStep_after o h0 hb hn] at hl
    cases hr : readNumber (slice t (i - 1) (runEnd Code.isNumberPart t i)) o.numberOptions with
    | error g => simp [hr] at hl
    | ok y =>
      simp only [hr, Except.ok.injEq, Prod.mk.injEq] at hl
      obtain ⟨rfl, hl⟩ := hl
      have hrl : runEnd Code.isNumberPart t i = l := by simpa using congrArg Cursor.seen hl
      subst hrl
      rw [readNumberStep_after o h0 hb' hn, runEnd_agree h hlK, slice_agree h hlK.le, hr]

theorem readLiteralStep_mirrors (h : Agrees t t' K) {i : Nat} {b : UInt8} (h0 : 0 < i)
    (hb : t[i - 1]? = some b) (hl : literalStart b = true) (hiK : i ≤ K) :
    Mirrors t t' K (readLiteralStep (after t i)) (readLiteralStep (after t' i)) := by
  refine ⟨fun f hf hc _ => ?_, fun v l hr hlK => .inl ?_⟩
  · rcases readLiteralStep_error h0 hb hl hf with ⟨hc', -⟩ | ⟨hc', -⟩ <;> rw [hc'] at hc <;>
      cases hc
  · have hb' : t'[i - 1]? = some b := by rw [h.2 (i - 1) (by omega)]; exact hb
    rw [readLiteralStep_after h0 hb (letter_of_literalStart hl)] at hr
    split_ifs at hr with hk
    cases hv : literalValue (slice t (i - 1) (runEnd Code.isLetter t i)) with
    | none => simp [hv] at hr
    | some v' =>
      simp only [hv, Except.ok.injEq, Prod.mk.injEq] at hr
      obtain ⟨rfl, hr⟩ := hr
      have hrl : runEnd Code.isLetter t i = l := by simpa using congrArg Cursor.seen hr
      subst hrl
      have hk' : runEnd Code.isLetter t' i < t'.size := by
        rw [runEnd_agree h hlK]
        exact lt_of_lt_of_le hlK h.size_le
      rw [readLiteralStep_after h0 hb' (letter_of_literalStart hl), if_pos hk',
        runEnd_agree h hlK, slice_agree h hlK.le, hv]

end Steps

/-! ## The reader mirrors -/

section Reader

variable (o : ReadOptions) {t t' : Array UInt8} {K : Nat}

mutual

theorem readContainer_mirrors (h : Agrees t t' K) {i : Nat} (hiK : i ≤ K) (hi : i ≤ t.size)
    (d : Nat) : ∀ F F', Mirrors t t' K (readContainer o d F (after t i))
      (readContainer o d F' (after t' i))
  | 0, _ => Mirrors.of_internal _ _
  | _ + 1, 0 => Mirrors.out_of_fuel _ _ _
  | F + 1, F' + 1 => by
    rw [readContainer_succ, readContainer_succ]
    exact walk_mirrors h hiK hi d (p := .init) rfl trivial F F'
termination_by structural F _ => F

theorem walk_mirrors (h : Agrees t t' K) {i : Nat} (hiK : i ≤ K) (hi : i ≤ t.size) (d : Nat)
    {p : Phase} {s : List Pending} (hs : p.Arrives s) (hp : p.Placed t i) :
    ∀ F F', Mirrors t t' K (walk o d p s F (after t i)) (walk o d p s F' (after t' i))
  | 0, _ => Mirrors.of_internal _ _
  | _ + 1, 0 => Mirrors.out_of_fuel _ _ _
  | F + 1, F' + 1 => by
    cases hend : p.isEnd with
    | true =>
      rw [walk_end o d hend, walk_end o d hend]
      obtain ⟨v, hv⟩ := Pending.result_of_holds hend (Phase.holds_of_arrives_end hend hs) (i - 1)
      simp only [after_offset, hv]
      exact Mirrors.ok_same v i
    | false =>
      rw [walk_step o d hend, walk_step o d hend]
      have hme := enterPhase_mirrors h hiK hi d hs hp hend F F'
      have hee := enterPhase_ends o hi d hs hp hend F
      rcases hr : enterPhase o d p s F (after t i) with f | ⟨s₁, c₁⟩
      · -- the entry action fails on `t`
        rw [hr] at hme
        refine ⟨fun g hg hc ho => ?_, fun a l hl _ => by cases hl⟩
        have hfg : f = g := by cases hg; rfl
        rw [← hfg] at hc ho ⊢
        rcases hme.1 f rfl hc ho with h' | ⟨g', h', hg'⟩ <;> rw [h']
        · exact .inl rfl
        · exact .inr ⟨g', rfl, hg'⟩
      · rw [hr] at hme hee
        obtain ⟨j, rfl, hij, hj⟩ := hee
        simp only
        rcases ha : p.advance (after t j) with f | ⟨q, c₂⟩
        · -- the move fails on `t`, on the octet after the blanks
          have hf := Phase.advance_eq_error hend hj ha
          refine ⟨fun g hg hc ho => ?_, fun a l hl _ => by cases hl⟩
          have hfg : f = g := by cases hg; rfl
          rw [← hfg] at ho ⊢
          have ho' : ((blankEnd t j : Nat) : Int) < K := by rw [hf] at ho; exact ho
          have hbK : blankEnd t j < K := by omega
          have hjK : j < K := lt_of_le_of_lt (le_blankEnd t j) hbK
          rcases hme.2 s₁ j rfl hjK with h' | ⟨g', h', hg'⟩ <;> rw [h']
          · simp only
            rw [Phase.advance_agree h hj hbK, ha]
            exact .inl rfl
          · exact .inr ⟨g', rfl, hg'⟩
        · simp only
          obtain ⟨k, rfl, hjk, hk, -⟩ := Phase.advance_moves hj ha
          have hq := Phase.arrives_of_advance ha (Phase.holds_of_enterPhase hr hs)
          have hpq := Phase.placed_of_advance hj (delimited_of_entry hp hr) ha
          have hwe := walk_ends o hk d hq hpq F
          have hbk := blankEnd_le_of_advance hj ha
          -- below `K`, the run on `t'` reaches the same phase at the same position
          have hside : k < K →
              (enterPhase o d p s F' (after t' i) = .ok (s₁, after t' j) ∧
                p.advance (after t' j) = .ok (q, after t' k)) ∨
              OutOfFuel (enterPhase o d p s F' (after t' i)) := by
            intro hkK
            rcases hme.2 s₁ j rfl (by omega) with h' | h'
            · exact .inl ⟨h', by rw [Phase.advance_agree h hj (by omega), ha]; rfl⟩
            · exact .inr h'
          refine ⟨fun g hg hc ho => ?_, fun a l hl hlK => ?_⟩
          · rw [hg] at hwe
            obtain ⟨n, hn, -, hoct, -⟩ := hwe
            have hkn := (hoct hc).1
            rcases hside (by omega) with ⟨he', ha'⟩ | ⟨g', he', hg'⟩ <;> rw [he']
            · simp only
              rw [ha']
              exact (walk_mirrors h (by omega) hk d hq hpq F F').1 g hg hc ho
            · exact .inr ⟨g', rfl, hg'⟩
          · rw [hl] at hwe
            obtain ⟨l', hl', hkl, -⟩ := hwe
            have hll : l = l' := by simpa using congrArg Cursor.seen hl'
            rcases hside (by omega) with ⟨he', ha'⟩ | ⟨g', he', hg'⟩ <;> rw [he']
            · simp only
              rw [ha']
              exact (walk_mirrors h (by omega) hk d hq hpq F F').2 a l hl hlK
            · exact .inr ⟨g', rfl, hg'⟩
termination_by structural F _ => F

theorem enterPhase_mirrors (h : Agrees t t' K) {i : Nat} (hiK : i ≤ K) (hi : i ≤ t.size)
    (d : Nat) {p : Phase} {s : List Pending} (hs : p.Arrives s) (hp : p.Placed t i)
    (hend : p.isEnd = false) :
    ∀ F F', Mirrors t t' K (enterPhase o d p s F (after t i)) (enterPhase o d p s F' (after t' i))
  | 0, _ => Mirrors.of_internal _ _
  | _ + 1, 0 => Mirrors.out_of_fuel _ _ _
  | F + 1, F' + 1 => by
    cases p with
    | init | nextProperty | objectEnd | arrayEnd =>
      rw [enterPhase_idle o d (by simp), enterPhase_idle o d (by simp)]
      exact Mirrors.ok_same s i
    | objectStart =>
      rw [enterPhase_objectStart, enterPhase_objectStart]
      exact Mirrors.ok_same _ i
    | arrayStart =>
      rw [enterPhase_arrayStart, enterPhase_arrayStart]
      exact Mirrors.ok_same _ i
    | propertyName =>
      rw [enterPhase_propertyName, enterPhase_propertyName]
      have hm := readStringStep_mirrors (o := o) h hp.1 hiK
      generalize readStringStep o (after t i) = R at hm ⊢
      generalize readStringStep o (after t' i) = R' at hm ⊢
      refine Mirrors.post (fun R => match R with
          | .ok (k, c) => .ok (Pending.key k :: s, c)
          | .error f => .error f) (fun f => rfl) (fun k => .inl ⟨_, fun c => rfl⟩) hm ?_ ?_
      · rcases R with _ | ⟨_, _⟩ <;> rfl
      · rcases R' with _ | ⟨_, _⟩ <;> rfl
    | propertyValue | nextElement =>
      rw [enterPhase_value o d (by simp), enterPhase_value o d (by simp)]
      have hm := readValueStep_mirrors h hiK hi d hp F F'
      simp only [after_offset]
      generalize readValueStep o d F (after t i) = R at hm ⊢
      generalize readValueStep o d F' (after t' i) = R' at hm ⊢
      refine Mirrors.post (fun R => match R with
          | .ok (v, c) => (Pending.attach s v (i - 1)).map (·, c)
          | .error f => .error f) (fun f => rfl) (fun v => ?_) hm ?_ ?_
      rotate_left
      · rcases R with _ | ⟨v, _⟩ <;> simp only
        cases Pending.attach s v (i - 1) <;> rfl
      · rcases R' with _ | ⟨v, _⟩ <;> simp only
        cases Pending.attach s v (i - 1) <;> rfl
      cases hatt : Pending.attach s v (i - 1) with
      | ok s' => exact .inl ⟨s', fun c => by simp only [hatt]; rfl⟩
      | error f =>
        -- `attach` fails only as an internal error
        refine .inr ⟨f, ?_, fun c => by simp only [hatt]; rfl⟩
        unfold Pending.attach at hatt
        split at hatt <;> cases hatt <;> rfl
termination_by structural F _ => F

theorem readValueStep_mirrors (h : Agrees t t' K) {i : Nat} (hiK : i ≤ K) (hi : i ≤ t.size)
    (d : Nat) (hd : Delimited t i) :
    ∀ F F', Mirrors t t' K (readValueStep o d F (after t i)) (readValueStep o d F' (after t' i))
  | 0, _ => Mirrors.of_internal _ _
  | _ + 1, 0 => Mirrors.out_of_fuel _ _ _
  | F + 1, F' + 1 => by
    by_cases hbK : blankEnd t i < K
    · have hbt : blankEnd t i < t.size := lt_of_lt_of_le hbK h.1
      have hbt' : blankEnd t i < t'.size := lt_of_lt_of_le hbK h.size_le
      have hat : t[blankEnd t i + 1 - 1]? = some t[blankEnd t i] := by simp [hbt]
      rw [readValueStep_after o d hi, readValueStep_after o d (le_trans hiK h.size_le)]
      simp only [blankEnd_agree h hbK, dif_pos hbt, dif_pos hbt', h.getElem_eq hbK hbt]
      split_ifs with hq hn hl hbr hdep
      · exact Mirrors.map _ (readStringStep_mirrors h ⟨by omega, by rw [hat, hq]⟩ (by omega))
      · exact readNumberStep_mirrors h (by omega) hat hn (by omega)
      · exact readLiteralStep_mirrors h (by omega) hat hl (by omega)
      · exact Mirrors.error_same _
      · exact readContainer_mirrors h hbK.le hbt.le (d + 1) F F'
      · exact Mirrors.error_same _
    · -- the value starts at or past `K`
      exact Mirrors.of_ends (readValueStep_ends o hi d hd (F + 1)) (Nat.le_of_not_lt hbK)
termination_by structural F _ => F

end

end Reader

end ExactJson
