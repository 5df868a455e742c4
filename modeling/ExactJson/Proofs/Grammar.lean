import ExactJson.Reader.Code
import ExactJson.Reader.Options
import ExactJson.Text.Escape
import ExactJson.Value.Basic

/-!
# The grammar of documents

The text a reader accepts, written as a grammar over octets and with no reference to the
reader. A document is one object or array between runs of blanks:

* `doc ::= ws (object | array) ws`, with `ws` a run of space, tab, line feed and carriage return;
* `object ::= '{' ws ('}' | member (ws ',' ws member)* ws '}')`,
  `member ::= string ws ':' ws value`;
* `array ::= '[' ws (']' | value (ws ',' ws value)* ws ']')`;
* `value ::= string | number | literal | object | array`.

The tokens are as the reader delimits them. A string is a quote, octets in which a backslash
hides the octet after it, and a quote; its content is the text between the quotes, unescaped
when it holds a backslash, unless the options keep strings raw. A number is a
maximal run of digits, signs, points and exponent marks that starts with no exponent mark and
that the number reader accepts. A literal is a maximal run of ASCII letters that spells `true`,
`false` or `null` in any case.

Every production is a relation `P s x r`: the octets `s` start with a text of `P` that stands for
`x`, and `r` is what follows it. Containers carry a bound on their nesting depth, the container
itself counting one; a document's container is bounded by the depth limit of the options. The
value a text stands for is the one the reader builds: members are set in order, so that a
repeated key keeps its first place and its last value.
-/

namespace ExactJson.Grammar

/-- A blank octet. -/
def blank (b : UInt8) : Bool := Code.isBlank b.toNat

/-- An octet that can start a numeric run. -/
def numberStart (b : UInt8) : Bool := Code.isNumberStart b.toNat

/-- An octet that can continue a numeric run. -/
def numberPart (b : UInt8) : Bool := Code.isNumberPart b.toNat

/-- An ASCII letter. -/
def letter (b : UInt8) : Bool := Code.isLetter b.toNat

/-- An octet that can start a literal. -/
def literalStart (b : UInt8) : Bool := Code.isLiteralStart b.toNat

/-- `Blanks s r`: `s` is a run of blanks followed by `r`. -/
inductive Blanks : Bytes → Bytes → Prop
  | nil (s : Bytes) : Blanks s s
  | cons {b : UInt8} {s r : Bytes} : blank b = true → Blanks s r → Blanks (b :: s) r

/-- `QuoteBody s body r`: after an opening quote, `s` holds the string body `body`, the closing
quote, and then `r`. A backslash hides the octet after it, so `body` ends at the first quote
that no backslash hides. -/
inductive QuoteBody : Bytes → Bytes → Bytes → Prop
  | close (r : Bytes) : QuoteBody (0x22 :: r) [] r
  | plain {b : UInt8} {s body r : Bytes} :
      b ≠ 0x22 → b ≠ 0x5C → QuoteBody s body r → QuoteBody (b :: s) (b :: body) r
  | escape {e : UInt8} {s body r : Bytes} :
      QuoteBody s body r → QuoteBody (0x5C :: e :: s) (0x5C :: e :: body) r

/-- The content of a string whose body is `body`: the body itself when strings are kept raw or
it holds no backslash, and the body unescaped otherwise. -/
def stringContent (o : ReadOptions) (body : Bytes) : Option Bytes :=
  if o.strings == .raw || !body.contains 0x5C then some body else Escape.unescape body

/-- `StringText o s k r`: `s` starts with a string of content `k`, followed by `r`. -/
inductive StringText (o : ReadOptions) : Bytes → Bytes → Bytes → Prop
  | mk {s body k r : Bytes} :
      QuoteBody s body r → stringContent o body = some k → StringText o (0x22 :: s) k r

/-- `NumberText o s x r`: `s` starts with a maximal numeric run that reads as the number `x`,
followed by `r`. -/
inductive NumberText (o : ReadOptions) : Bytes → Number → Bytes → Prop
  | mk {b : UInt8} {run r : Bytes} {x : Number} :
      numberStart b = true → (∀ c ∈ run, numberPart c = true) →
      (∀ c ∈ r.head?, numberPart c = false) →
      readNumber (b :: run) o.numberOptions = .ok x → NumberText o (b :: run ++ r) x r

/-- The literal a run of letters spells, in any case. -/
def literalValue (lit : Bytes) : Option Value :=
  if Bytes.equalsFolded lit (Bytes.ofString "true") then some (.bool true)
  else if Bytes.equalsFolded lit (Bytes.ofString "false") then some (.bool false)
  else if Bytes.equalsFolded lit (Bytes.ofString "null") then some .null
  else none

/-- `LiteralText s v r`: `s` starts with a maximal run of letters spelling the literal `v`,
followed by `r`. -/
inductive LiteralText : Bytes → Value → Bytes → Prop
  | mk {b : UInt8} {run r : Bytes} {v : Value} :
      literalStart b = true → (∀ c ∈ run, letter c = true) → (∀ c ∈ r.head?, letter c = false) →
      literalValue (b :: run) = some v → LiteralText (b :: run ++ r) v r

mutual

/-- `ValueText o n s v r`: `s` starts with a value of nesting depth at most `n` that stands for
`v`, followed by `r`. -/
inductive ValueText (o : ReadOptions) : Nat → Bytes → Value → Bytes → Prop
  | string {n : Nat} {s k r : Bytes} : StringText o s k r → ValueText o n s (.str k) r
  | number {n : Nat} {s r : Bytes} {x : Number} :
      NumberText o s x r → ValueText o n s (Value.ofNumber x) r
  | literal {n : Nat} {s r : Bytes} {v : Value} : LiteralText s v r → ValueText o n s v r
  | container {n : Nat} {s r : Bytes} {v : Value} :
      ContainerText o n s v r → ValueText o n s v r

/-- `ContainerText o n s v r`: `s` starts with an object or array of nesting depth at most `n`
that stands for `v`, followed by `r`. -/
inductive ContainerText (o : ReadOptions) : Nat → Bytes → Value → Bytes → Prop
  | emptyObject {n : Nat} {s r : Bytes} :
      Blanks s (0x7D :: r) → ContainerText o (n + 1) (0x7B :: s) (.obj []) r
  | object {n : Nat} {s s₁ s₂ r : Bytes} {ps : List (Bytes × Value)} :
      Blanks s s₁ → MembersText o n s₁ ps s₂ → Blanks s₂ (0x7D :: r) →
      ContainerText o (n + 1) (0x7B :: s) (.obj (Members.ofPairs ps)) r
  | emptyArray {n : Nat} {s r : Bytes} :
      Blanks s (0x5D :: r) → ContainerText o (n + 1) (0x5B :: s) (.arr []) r
  | array {n : Nat} {s s₁ s₂ r : Bytes} {xs : List Value} :
      Blanks s s₁ → ElementsText o n s₁ xs s₂ → Blanks s₂ (0x5D :: r) →
      ContainerText o (n + 1) (0x5B :: s) (.arr xs) r

/-- `MemberText o n s m r`: `s` starts with a member `string ws ':' ws value`. -/
inductive MemberText (o : ReadOptions) : Nat → Bytes → Bytes × Value → Bytes → Prop
  | mk {n : Nat} {s s₁ s₂ s₃ r k : Bytes} {v : Value} :
      StringText o s k s₁ → Blanks s₁ (0x3A :: s₂) → Blanks s₂ s₃ → ValueText o n s₃ v r →
      MemberText o n s (k, v) r

/-- `MembersText o n s ps r`: `s` starts with `member (ws ',' ws member)*`. -/
inductive MembersText (o : ReadOptions) : Nat → Bytes → List (Bytes × Value) → Bytes → Prop
  | one {n : Nat} {s r : Bytes} {m : Bytes × Value} :
      MemberText o n s m r → MembersText o n s [m] r
  | cons {n : Nat} {s s₁ s₂ s₃ r : Bytes} {m : Bytes × Value} {ps : List (Bytes × Value)} :
      MemberText o n s m s₁ → Blanks s₁ (0x2C :: s₂) → Blanks s₂ s₃ →
      MembersText o n s₃ ps r → MembersText o n s (m :: ps) r

/-- `ElementsText o n s xs r`: `s` starts with `value (ws ',' ws value)*`. -/
inductive ElementsText (o : ReadOptions) : Nat → Bytes → List Value → Bytes → Prop
  | one {n : Nat} {s r : Bytes} {x : Value} : ValueText o n s x r → ElementsText o n s [x] r
  | cons {n : Nat} {s s₁ s₂ s₃ r : Bytes} {x : Value} {xs : List Value} :
      ValueText o n s x s₁ → Blanks s₁ (0x2C :: s₂) → Blanks s₂ s₃ →
      ElementsText o n s₃ xs r → ElementsText o n s (x :: xs) r

end

/-- `DocumentText o t v`: `t` is a document standing for `v`: blanks, a container within the
depth limit of the options, and blanks to the end. -/
def DocumentText (o : ReadOptions) (t : Bytes) (v : Value) : Prop :=
  ∃ s r, Blanks t s ∧ ContainerText o o.depthLimit s v r ∧ Blanks r []

end ExactJson.Grammar
