import Std.Data.HashMap
import ExactJson.Value.Members

/-!
# Objects as they are stored

An object keeps three things: its keys in the order they were first set, the value of each key
at the same position of a second list, and an index from each key to its position. The *zero*
object, one that no constructor made, has no index at all: every read finds nothing in it, and
the first `set` creates the index.

* `set` looks the key up in the index: a present key has its value replaced where it stands; a
  new key is appended to both lists and its position recorded.
* `delete` looks the key up, drops it from the index, closes the gap in both lists, and records
  again the position of every key after the gap, each one place earlier than before.
* `get?`, `has`, `len`, `keys` and `range` only read: through the index, or along the two lists.

A reader of the lists relies on their being in step: a position the index gives must hold a
value. Nothing here checks it; it is the representation invariant, and the library's theory
proves that every sequence of calls keeps it.

`Call` lists what a client can do with an object and `Answer` what it is told; `Object.call` and
`Members.call` run one call on the stored object and on a plain member list.
-/

namespace ExactJson

namespace Members

variable {α σ : Type}

/-- Calls `fn` on the members in order, threading its state, until it answers `false`. -/
def range (ms : List (Bytes × α)) (fn : σ → Bytes → α → σ × Bool) (s : σ) : σ :=
  match ms with
  | [] => s
  | (k, v) :: rest =>
    let (s', more) := fn s k v
    if more then range rest fn s' else s'

/-- The members a `range` visits when the callback decides from the members visited before. -/
def visitWhile (ms : List (Bytes × α)) (fn : List (Bytes × α) → Bytes → α → Bool) :
    List (Bytes × α) :=
  range ms (fun seen k v => (seen ++ [(k, v)], fn seen k v)) []

end Members

/-- An object as stored: its keys, their values, and the position of each key. -/
structure Object (α : Type) where
  /-- The keys in insertion order. -/
  keys : List Bytes
  /-- The value of each key, at the key's position. -/
  values : List α
  /-- The position of each key; none in the zero object. -/
  index : Option (Std.HashMap Bytes Nat)

namespace Object

variable {α σ : Type}

/-- A new, empty object. -/
def new : Object α := ⟨[], [], some ∅⟩

/-- The zero object: empty, and without an index. -/
def zero : Object α := ⟨[], [], none⟩

/-- The position the index records for a key. -/
def position (o : Object α) (k : Bytes) : Option Nat := o.index.bind (·[k]?)

/-- The number of entries in the index; the missing index has none. -/
def indexSize (o : Object α) : Nat := (o.index.map (·.size)).getD 0

/-- Stores `v` under `k`: in place when the index knows `k`, at the end otherwise. -/
def set (o : Object α) (k : Bytes) (v : α) : Object α :=
  let index := o.index.getD ∅
  match index[k]? with
  | some i => { o with values := o.values.set i v, index := some index }
  | none =>
    { keys := o.keys ++ [k], values := o.values ++ [v],
      index := some (index.insert k o.keys.length) }

/-- The value stored under `k`. -/
def get? (o : Object α) (k : Bytes) : Option α :=
  match o.position k with
  | some i => o.values[i]?
  | none => none

/-- Whether `k` is present. -/
def has (o : Object α) (k : Bytes) : Bool := (o.position k).isSome

/-- Records the positions `j`, `j + 1`, … for the keys `ks`. -/
def reindex (index : Std.HashMap Bytes Nat) : List Bytes → Nat → Std.HashMap Bytes Nat
  | [], _ => index
  | k :: ks, j => reindex (index.insert k j) ks (j + 1)

/-- Removes `k`, and says whether it was present. The keys after it move one place earlier and
their positions are recorded again. -/
def delete (o : Object α) (k : Bytes) : Object α × Bool :=
  match o.index with
  | none => (o, false)
  | some index =>
    match index[k]? with
    | none => (o, false)
    | some i =>
      let keys := o.keys.eraseIdx i
      ({ keys, values := o.values.eraseIdx i,
         index := some (reindex (index.erase k) (keys.drop i) i) }, true)

/-- The number of members. -/
def len (o : Object α) : Nat := o.keys.length

/-- The members, read along the two lists. -/
def members (o : Object α) : List (Bytes × α) := o.keys.zip o.values

/-- Calls `fn` on each key and the value at its position, in order, until it answers `false`. -/
def range (o : Object α) (fn : σ → Bytes → α → σ × Bool) (s : σ) : σ :=
  Members.range o.members fn s

end Object

/-- What a client can do with an object. -/
inductive Call (α : Type) where
  /-- Store a value under a key. -/
  | set (k : Bytes) (v : α)
  /-- Remove a key. -/
  | delete (k : Bytes)
  /-- Read the value under a key. -/
  | get (k : Bytes)
  /-- Ask whether a key is present. -/
  | has (k : Bytes)
  /-- Count the members. -/
  | len
  /-- Read the keys in order. -/
  | keys
  /-- Visit the members in order; the callback sees the members it was called on before and
  answers whether to go on. -/
  | range (fn : List (Bytes × α) → Bytes → α → Bool)

/-- What a client is told by a call. -/
inductive Answer (α : Type) where
  /-- A call that tells nothing. -/
  | done
  /-- The value found under a key, if any. -/
  | found (v : Option α)
  /-- Whether a key was present. -/
  | flag (b : Bool)
  /-- A number of members. -/
  | count (n : Nat)
  /-- The keys. -/
  | keys (ks : List Bytes)
  /-- The members a visit saw. -/
  | visited (ms : List (Bytes × α))

/-- One call on a stored object. -/
def Object.call {α : Type} (o : Object α) : Call α → Object α × Answer α
  | .set k v => (o.set k v, .done)
  | .delete k => let (o', b) := o.delete k; (o', .flag b)
  | .get k => (o, .found (o.get? k))
  | .has k => (o, .flag (o.has k))
  | .len => (o, .count o.len)
  | .keys => (o, .keys o.keys)
  | .range fn => (o, .visited (o.range (fun seen k v => (seen ++ [(k, v)], fn seen k v)) []))

/-- One call on a plain member list. -/
def Members.call {α : Type} (ms : List (Bytes × α)) : Call α → List (Bytes × α) × Answer α
  | .set k v => (set ms k v, .done)
  | .delete k => (erase ms k, .flag (has ms k))
  | .get k => (ms, .found (get? ms k))
  | .has k => (ms, .flag (has ms k))
  | .len => (ms, .count ms.length)
  | .keys => (ms, .keys (keys ms))
  | .range fn => (ms, .visited (visitWhile ms fn))

/-- Runs calls in order on a stored object, collecting the answers. -/
def Object.run {α : Type} (o : Object α) : List (Call α) → Object α × List (Answer α)
  | [] => (o, [])
  | c :: cs =>
    let (o', a) := o.call c
    let (o'', as) := o'.run cs
    (o'', a :: as)

/-- Runs calls in order on a member list, collecting the answers. -/
def Members.run {α : Type} (ms : List (Bytes × α)) :
    List (Call α) → List (Bytes × α) × List (Answer α)
  | [] => (ms, [])
  | c :: cs =>
    let (ms', a) := Members.call ms c
    let (ms'', as) := Members.run ms' cs
    (ms'', a :: as)

end ExactJson
