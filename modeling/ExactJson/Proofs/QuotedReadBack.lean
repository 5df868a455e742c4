import Mathlib
import ExactJson.Proofs.EscapeText
import ExactJson.Proofs.CursorSteps
import ExactJson.Proofs.GrammarValues
import ExactJson.Proofs.StepText

/-!
# Written strings read back

The writer puts a string between quotes, escaped with the fewest escapes or, with raw strings,
exactly as it is. The cursor reads a quoted string from its opening quote by letting a backslash
hide the octet after it, and hands back the text between the quotes as written; the reader then
unescapes that text when it holds a backslash, unless strings are kept raw.

The three fit on every byte string, well-formed UTF-8 or not:

* a read from an opening quote returns exactly the body of the grammar that follows it, and
  stops one octet past its closing quote (`readQuoted_of_body`);
* an escaped string is such a body (`quoteBody_escape`), so it is read as written, and the
  reader's unescaping gives the string back;
* whatever a read returns, from any text, is again a body whatever follows its closing quote
  (`quoteBody_of_readQuoted`), so a raw string that was read, written between quotes as it is,
  reads back unchanged.
-/

namespace ExactJson

open Grammar

namespace Cursor

/-- The octets from `i` are those of a text ahead of `i`, up to its length. -/
theorem slice_of_drop {t : Array UInt8} {i : Nat} {body rest : Bytes}
    (h : t.toList.drop i = body ++ rest) : slice t i (i + body.length) = body := by
  rw [slice_eq, h, Nat.add_sub_cancel_left, List.take_left]

/-- A read from an opening quote whose closing quote the scan finds at `j` returns the octets
in between and stops one octet past `j`. -/
theorem readQuoted_closed {c : Cursor} (hq : c.current = some 0x22) {j : Nat}
    (hs : scanQuote c.input c.seen = .closed j) :
    c.readQuoted = (after c.input (j + 2), .ok (slice c.input c.seen j)) := by
  simp [readQuoted, hq, hs, after]

/-- A body of the grammar ahead of the opening quote is read as written, and the cursor stops one
octet past its closing quote. -/
theorem readQuoted_of_body {c : Cursor} {body rest : Bytes} (hq : c.current = some 0x22)
    (hb : QuoteBody (c.input.toList.drop c.seen) body rest) :
    c.readQuoted = (after c.input (c.seen + body.length + 2), .ok body) := by
  rw [readQuoted_closed hq (scanQuote_of_body hb), slice_of_drop hb.eq_append]

/-- What a read of a quoted string returns is a body that ends at the quote written after it,
whatever follows that quote. -/
theorem quoteBody_of_readQuoted {c : Cursor} {k : Bytes} (h : c.readQuoted.2 = .ok k)
    (r : Bytes) : QuoteBody (k ++ 0x22 :: r) k r := by
  unfold readQuoted at h
  split at h
  · cases h
  · -- only a closing quote found by the scan gives a result
    split at h
    · rename_i j hj
      cases h
      exact (scanQuote_closed hj).2.2.reframe r
    all_goals cases h

/-- The cursor on the first octet of a quoted text written after `pre` stands on a quote, with
the body, the closing quote and what follows ahead of it. -/
theorem on_quoted {c : Cursor} {pre body rest : Bytes}
    (ht : c.input.toList = pre ++ 0x22 :: (body ++ 0x22 :: rest)) (hs : c.seen = pre.length + 1) :
    c.current = some 0x22 ∧ c.input.toList.drop c.seen = body ++ 0x22 :: rest := by
  have hq : c.input[pre.length]? = some 0x22 := by
    rw [← Array.getElem?_toList, ht, List.getElem?_append_right le_rfl, Nat.sub_self]
    rfl
  refine ⟨by simp [current, hs, hq], ?_⟩
  rw [ht, hs, List.drop_append]
  simp

end Cursor

open Cursor

/-- Reading a string is reading its quoted text, stepping back onto the closing quote, and taking
the content the options give the body. -/
theorem readStringStep_of_readQuoted (o : ReadOptions) {c c' : Cursor} {body : Bytes}
    (h : c.readQuoted = (c', .ok body)) :
    readStringStep o c = match stringContent o body with
      | some k => .ok (k, c'.pushBack)
      | none => .error (malformedEscape c.offset) := by
  simp only [readStringStep, ReadStep.offset_bind, ReadStep.ofRead_bind, h, ReadStep.modify_bind,
    stringContent]
  split
  · rfl
  · cases Escape.unescape body <;> rfl

/-- A string whose body is ahead of the opening quote is read as the content the options give
that body, and the reader ends on the closing quote. -/
theorem readStringStep_of_body (o : ReadOptions) {c : Cursor} {body rest k : Bytes}
    (hq : c.current = some 0x22) (hb : QuoteBody (c.input.toList.drop c.seen) body rest)
    (hk : stringContent o body = some k) :
    readStringStep o c = .ok (k, after c.input (c.seen + body.length + 1)) := by
  rw [readStringStep_of_readQuoted o (readQuoted_of_body hq hb), hk]
  rfl

/-- Strings written by the writer read back from the quote they open with. Escaped, a string's
text is read as written, with the cursor one octet past the closing quote, and read with
unescaping it is the string itself; unescaping undoes the escaping of every byte string, and a
string whose escaping holds no backslash is its own escaping. Raw, any content that a read of a
quoted string returns, from any text, reads back unchanged from the quotes the writer puts
around it, as written by the cursor and as a string of the reader with raw strings. -/
theorem written_strings_read_back :
    (∀ (w : WriteOptions) (s pre rest : Bytes) (c : Cursor), w.rawStrings = false →
      c.input.toList = pre ++ Writer.quoted w s ++ rest → c.seen = pre.length + 1 →
      c.readQuoted =
          (after c.input (c.seen + (Escape.escape s).length + 2), .ok (Escape.escape s)) ∧
        ∀ o : ReadOptions, o.strings = .unescape →
          readStringStep o c = .ok (s, after c.input (c.seen + (Escape.escape s).length + 1))) ∧
    (∀ s : Bytes, Escape.unescape (Escape.escape s) = some s ∧
      ((0x5C : UInt8) ∉ Escape.escape s → Escape.escape s = s)) ∧
    (∀ (c : Cursor) (k : Bytes), c.readQuoted.2 = .ok k →
      ∀ (w : WriteOptions) (pre rest : Bytes) (d : Cursor), w.rawStrings = true →
        d.input.toList = pre ++ Writer.quoted w k ++ rest → d.seen = pre.length + 1 →
        d.readQuoted = (after d.input (d.seen + k.length + 2), .ok k) ∧
          ∀ o : ReadOptions, o.strings = .raw →
            readStringStep o d = .ok (k, after d.input (d.seen + k.length + 1))) := by
  refine ⟨?escaped, fun s => ⟨Escape.unescape_escape s, Escape.escape_eq_self⟩, ?raw⟩
  case escaped =>
    intro w s pre rest c hw ht hs
    have ht' : c.input.toList = pre ++ 0x22 :: (Escape.escape s ++ 0x22 :: rest) := by
      simp [ht, Writer.quoted, hw]
    obtain ⟨hq, hahead⟩ := on_quoted ht' hs
    have hb := hahead ▸ quoteBody_escape s rest
    exact ⟨readQuoted_of_body hq hb,
      fun o ho => readStringStep_of_body o hq hb (stringContent_escape ho s)⟩
  case raw =>
    intro c k hk w pre rest d hw ht hs
    have ht' : d.input.toList = pre ++ 0x22 :: (k ++ 0x22 :: rest) := by
      simp [ht, Writer.quoted, hw]
    obtain ⟨hq, hahead⟩ := on_quoted ht' hs
    have hb := hahead ▸ quoteBody_of_readQuoted hk rest
    exact ⟨readQuoted_of_body hq hb,
      fun o ho => readStringStep_of_body o hq hb (by simp [stringContent, ho])⟩

/-- A quote, a line feed and the octet 0xE9, written escaped between a blank and a comma, read
back as written and, unescaped, as themselves; and the raw content `\"` read from one text and
read back from between brackets. -/
theorem written_strings_read_back_quote_newline :
    (after #[0x20, 0x22, 0x5C, 0x22, 0x5C, 0x6E, 0xE9, 0x22, 0x2C] 2).readQuoted =
        (after #[0x20, 0x22, 0x5C, 0x22, 0x5C, 0x6E, 0xE9, 0x22, 0x2C] 9,
          .ok [0x5C, 0x22, 0x5C, 0x6E, 0xE9]) ∧
      readStringStep {} (after #[0x20, 0x22, 0x5C, 0x22, 0x5C, 0x6E, 0xE9, 0x22, 0x2C] 2) =
        .ok ([0x22, 0x0A, 0xE9], after #[0x20, 0x22, 0x5C, 0x22, 0x5C, 0x6E, 0xE9, 0x22, 0x2C] 8) ∧
      (after #[0x22, 0x5C, 0x22, 0x22] 1).readQuoted.2 = .ok [0x5C, 0x22] ∧
      (after #[0x5B, 0x22, 0x5C, 0x22, 0x22, 0x5D] 2).readQuoted =
        (after #[0x5B, 0x22, 0x5C, 0x22, 0x22, 0x5D] 6, .ok [0x5C, 0x22]) := by
  obtain ⟨hescaped, -, hraw⟩ := written_strings_read_back
  have h1 := hescaped {} [0x22, 0x0A, 0xE9] [0x20] [0x2C]
    (after #[0x20, 0x22, 0x5C, 0x22, 0x5C, 0x6E, 0xE9, 0x22, 0x2C] 2) rfl (by decide) rfl
  have hk : (after #[0x22, 0x5C, 0x22, 0x22] 1).readQuoted.2 = .ok [0x5C, 0x22] := by
    rw [readQuoted_of_body (c := after #[0x22, 0x5C, 0x22, 0x22] 1) (by decide)
      (.escape (.close []) : QuoteBody [0x5C, 0x22, 0x22] [0x5C, 0x22] [])]
  have h2 := hraw _ _ hk { rawStrings := true } [0x5B] [0x5D]
    (after #[0x5B, 0x22, 0x5C, 0x22, 0x22, 0x5D] 2) rfl (by decide) rfl
  exact ⟨h1.1, h1.2 {} rfl, hk, h2.1⟩

end ExactJson
