import Mathlib
import ExactJson.Proofs.KeyOrder

/-!
# Writing equivalent values

The writer sees a value only up to the equality of the model: literals, integers, strings and
keys exactly, decimals through their normal form, members and elements in order. Equivalent
values are written alike (`Writer.value_congr`), and a value equivalent to one whose objects are
sorted has sorted objects too (`KeysSorted.of_equiv`).
-/

namespace ExactJson

namespace Value

theorem membersEquiv_mem {ms ns : List (Bytes × Value)} (h : membersEquiv ms ns = true)
    {m : Bytes × Value} (hm : m ∈ ms) : ∃ n ∈ ns, m.1 = n.1 ∧ m.2.equiv n.2 = true := by
  induction ms generalizing ns with
  | nil => cases hm
  | cons a ms ih =>
    cases ns with
    | nil => simp [membersEquiv] at h
    | cons b ns =>
      obtain ⟨k, v⟩ := a
      obtain ⟨k', v'⟩ := b
      simp only [membersEquiv, Bool.and_eq_true, beq_iff_eq] at h
      rcases List.mem_cons.mp hm with rfl | hm
      · exact ⟨(k', v'), List.mem_cons_self, h.1.1, h.1.2⟩
      · obtain ⟨n, hn, hkey, hv⟩ := ih h.2 hm
        exact ⟨n, List.mem_cons_of_mem _ hn, hkey, hv⟩

theorem elemsEquiv_mem {xs ys : List Value} (h : elemsEquiv xs ys = true) {x : Value}
    (hx : x ∈ xs) : ∃ y ∈ ys, x.equiv y = true := by
  induction xs generalizing ys with
  | nil => cases hx
  | cons a xs ih =>
    cases ys with
    | nil => simp [elemsEquiv] at h
    | cons b ys =>
      simp only [elemsEquiv, Bool.and_eq_true] at h
      rcases List.mem_cons.mp hx with rfl | hx
      · exact ⟨b, List.mem_cons_self, h.1⟩
      · obtain ⟨y, hy, hxy⟩ := ih h.2 hx
        exact ⟨y, List.mem_cons_of_mem _ hy, hxy⟩

/-- The key order of a member list depends on its keys alone. -/
theorem pairwise_keyLE_of_keys {ms ns : List (Bytes × Value)}
    (hkeys : ms.map Prod.fst = ns.map Prod.fst) (h : ns.Pairwise fun a b => keyLE a b = true) :
    ms.Pairwise fun a b => keyLE a b = true := by
  have hkey : ∀ l : List (Bytes × Value), (l.Pairwise fun a b => keyLE a b = true) ↔
      (l.map Prod.fst).Pairwise fun a b => Utf16.compare a b != .gt := by
    intro l
    rw [List.pairwise_map]
    rfl
  rw [hkey, hkeys, ← hkey]
  exact h

/-- Sortedness is a matter of keys, which equivalent values share. -/
theorem KeysSorted.of_equiv {a b : Value} (h : a.equiv b = true) (hb : b.KeysSorted) :
    a.KeysSorted := by
  induction a using induction_mem generalizing b with
  | obj ms ih =>
    cases b with
    | obj ns =>
      have hms : membersEquiv ms ns = true := by simpa [equiv] using h
      cases hb with
      | leaf hc => simp [isContainer] at hc
      | obj hsorted hns =>
        refine .obj (pairwise_keyLE_of_keys (keys_eq_of_membersEquiv hms) hsorted)
          fun m hm => ?_
        obtain ⟨n, hn, -, hv⟩ := membersEquiv_mem hms hm
        exact ih m hm hv (hns n hn)
    | _ => simp [equiv] at h
  | arr xs ih =>
    cases b with
    | arr ys =>
      have hxs : elemsEquiv xs ys = true := by simpa [equiv] using h
      cases hb with
      | leaf hc => simp [isContainer] at hc
      | arr hys =>
        refine .arr fun x hx => ?_
        obtain ⟨y, hy, hv⟩ := elemsEquiv_mem hxs hx
        exact ih x hx hv (hys y hy)
    | _ => simp [equiv] at h
  | _ => exact .leaf rfl

end Value

namespace Decimal

/-- The text of a decimal depends on its value alone. -/
theorem render_congr {d d' : Decimal} (h : d.normalize = d'.normalize) : d.render = d'.render := by
  have hplain : d.plain = d'.plain := by
    unfold plain
    rw [h]
  unfold render
  rw [hplain]

end Decimal

namespace Writer

variable {wo : WriteOptions}

theorem members_congr {ms ns : List (Bytes × Value)} (h : Value.membersEquiv ms ns = true)
    (ih : ∀ m ∈ ms, ∀ level v, m.2.equiv v = true → value wo level m.2 = value wo level v)
    (level : Nat) : members wo level ms = members wo level ns := by
  induction ms generalizing ns with
  | nil =>
    cases ns with
    | nil => rfl
    | cons => simp [Value.membersEquiv] at h
  | cons a ms ihl =>
    cases ns with
    | nil => simp [Value.membersEquiv] at h
    | cons b ns =>
      obtain ⟨k, v⟩ := a
      obtain ⟨k', v'⟩ := b
      simp only [Value.membersEquiv, Bool.and_eq_true, beq_iff_eq] at h
      obtain ⟨⟨rfl, hv⟩, hrest⟩ := h
      have hhead := ih (k, v) List.mem_cons_self level v' hv
      -- the writer treats a last member apart from the others
      cases ms with
      | nil =>
        cases ns with
        | nil => simp only [members, hhead]
        | cons => simp [Value.membersEquiv] at hrest
      | cons m ms =>
        cases ns with
        | nil => simp [Value.membersEquiv] at hrest
        | cons n ns =>
          have htail := ihl hrest fun m hm => ih m (List.mem_cons_of_mem _ hm)
          simp only [members, hhead, htail]

theorem elems_congr {xs ys : List Value} (h : Value.elemsEquiv xs ys = true)
    (ih : ∀ x ∈ xs, ∀ level v, x.equiv v = true → value wo level x = value wo level v)
    (level : Nat) : elems wo level xs = elems wo level ys := by
  induction xs generalizing ys with
  | nil =>
    cases ys with
    | nil => rfl
    | cons => simp [Value.elemsEquiv] at h
  | cons x xs ihl =>
    cases ys with
    | nil => simp [Value.elemsEquiv] at h
    | cons y ys =>
      simp only [Value.elemsEquiv, Bool.and_eq_true] at h
      have hhead := ih x List.mem_cons_self level y h.1
      cases xs with
      | nil =>
        cases ys with
        | nil => simp only [elems, hhead]
        | cons => simp [Value.elemsEquiv] at h
      | cons x₂ xs =>
        cases ys with
        | nil => simp [Value.elemsEquiv] at h
        | cons y₂ ys =>
          have htail := ihl h.2 fun x hx => ih x (List.mem_cons_of_mem _ hx)
          simp only [elems, hhead, htail]

/-- Equivalent values are written alike. -/
theorem value_congr {a b : Value} (h : a.equiv b = true) (level : Nat) :
    value wo level a = value wo level b := by
  induction a using Value.induction_mem generalizing b level with
  | dec d =>
    cases b with
    | dec d' =>
      have hn : d.normalize = d'.normalize := by
        simpa [Value.equiv, Decimal.sameValue] using h
      simp only [value, Decimal.render_congr hn]
    | _ => simp [Value.equiv] at h
  | obj ms ih =>
    cases b with
    | obj ns =>
      have hms : Value.membersEquiv ms ns = true := by simpa [Value.equiv] using h
      cases ms with
      | nil =>
        cases ns with
        | nil => rfl
        | cons => simp [Value.membersEquiv] at hms
      | cons m ms =>
        cases ns with
        | nil => simp [Value.membersEquiv] at hms
        | cons n ns =>
          simp only [value]
          rw [members_congr hms fun m hm level v hv => ih m hm hv level]
    | _ => simp [Value.equiv] at h
  | arr xs ih =>
    cases b with
    | arr ys =>
      have hxs : Value.elemsEquiv xs ys = true := by simpa [Value.equiv] using h
      cases xs with
      | nil =>
        cases ys with
        | nil => rfl
        | cons => simp [Value.elemsEquiv] at hxs
      | cons x xs =>
        cases ys with
        | nil => simp [Value.elemsEquiv] at hxs
        | cons y ys =>
          simp only [value]
          rw [elems_congr hxs fun x hx level v hv => ih x hx hv level]
    | _ => simp [Value.equiv] at h
  | _ => cases b <;> simp_all [Value.equiv]

end Writer

end ExactJson
