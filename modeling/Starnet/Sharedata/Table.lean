import Mathlib.Algebra.Order.Ring.Nat
import Mathlib.Data.List.Range

/-! The shared read-only table of `starnet_sharedata.cpp`: an array part and a hash part whose
entries are in their main slot or linked to it by slot indices. A value is `none` when its type is
`VALUETYPE_NIL`. The hash of a key is computed where the source copies it. -/

namespace Starnet.Sharedata

/-- `SharedKey`: `KEYTYPE_INTEGER` or `KEYTYPE_STRING`. -/
inductive Key
  | integer (x : Int64)
  | string (s : List UInt8)
  deriving DecidableEq, Repr

/-- The loop of `HashKey`, downwards from `i`. -/
def hashLoop (s : List UInt8) (step : Nat) : (rounds i : Nat) → UInt32 → UInt32
  | 0, _, h => h
  | rounds + 1, i, h =>
    if i ≥ step then
      hashLoop s step rounds (i - step)
        (h ^^^ ((h <<< 5) + (h >>> 2) + (s.getD (i - 1) 0).toUInt32))
    else h

/-- `HashKey`; `step` is positive, so the length is enough for the rounds. -/
def hashKey (s : List UInt8) : UInt32 :=
  hashLoop s (s.length / 32 + 1) s.length s.length (UInt32.ofNat s.length)

/-- The hash that `AddHash` and `Lookup` give a key. -/
def Key.hash : Key → UInt32
  | integer x => x.toUInt64.toUInt32
  | string s => hashKey s

variable {V : Type}

/-- `SharedNode`. -/
structure Node (V : Type) where
  key : Key := .integer 0
  value : Option V := none
  next : Int32 := -1
  nocolliding : Bool := false

/-- `SharedTable`. -/
structure SharedTable (V : Type) where
  array : List (Option V) := []
  hash : List (Node V) := []
  pending : List (Key × Option V) := []

/-- `hash_[i]`. -/
def nodeAt (hash : List (Node V)) (i : Nat) : Node V := hash.getD i {}

/-- The main slot of a key. -/
def mainSlot (size : Nat) (key : Key) : Nat := key.hash.toNat % size

namespace SharedTable

/-! ### Building -/

def setArray (t : SharedTable V) (index : Nat) (v : Option V) : SharedTable V :=
  if index > 0 then
    let array := if index > t.array.length then
        t.array ++ List.replicate (index - t.array.length) none
      else t.array
    { t with array := array.set (index - 1) v }
  else t

def addHash (t : SharedTable V) (key : Key) (v : Option V) : SharedTable V :=
  { t with pending := t.pending ++ [(key, v)] }

/-- One round of `FillNoColliding`. -/
def fillMain (size : Nat) (hash : List (Node V)) (kv : Key × Option V) : List (Node V) :=
  let i := mainSlot size kv.1
  if (nodeAt hash i).value.isNone then
    hash.set i { key := kv.1, value := kv.2, next := -1, nocolliding := true }
  else hash

def fillNoColliding (items : List (Key × Option V)) (size : Nat) (hash : List (Node V)) :
    List (Node V) :=
  items.foldl (fillMain size) hash

/-- The first empty slot from `start` on. -/
def emptySlot (hash : List (Node V)) (start size : Nat) : Option Nat :=
  (List.range' start (size - start)).find? fun i => (nodeAt hash i).value.isNone

/-- The entry `kv` is put in slot `n` and linked in after the main slot `m`; links are `int`. -/
def linkAfter (hash : List (Node V)) (m n : Nat) (kv : Key × Option V) : List (Node V) :=
  let hash := hash.set n { nodeAt hash n with next := (nodeAt hash m).next }
  let hash := hash.set m { nodeAt hash m with next := Int32.ofNat n, nocolliding := false }
  hash.set n { nodeAt hash n with key := kv.1, value := kv.2, nocolliding := false }

/-- One round of `FillColliding`. -/
def fillDisplaced (size : Nat) (state : Nat × List (Node V)) (kv : Key × Option V) :
    Nat × List (Node V) :=
  let m := mainSlot size kv.1
  if (nodeAt state.2 m).key = kv.1 then state
  else
    match emptySlot state.2 state.1 size with
    | none => state
    | some n => (n + 1, linkAfter state.2 m n kv)

def fillColliding (items : List (Key × Option V)) (size : Nat) (hash : List (Node V)) :
    List (Node V) :=
  (items.foldl (fillDisplaced size) (0, hash)).2

def finish (t : SharedTable V) : SharedTable V :=
  if t.pending = [] then t
  else
    let size := t.pending.length
    let hash := List.replicate size {}
    let hash := fillNoColliding t.pending size hash
    { t with hash := fillColliding t.pending size hash, pending := [] }

/-! ### Reading -/

/-- `LookupArray`. -/
def lookupArray (t : SharedTable V) (x : Int64) : Option (Option V) :=
  if 0 < x.toInt ∧ x.toInt ≤ t.array.length then t.array[x.toInt.toNat - 1]? else none

/-- The loop of `LookupHash`; the result is `none` when the fuel runs out. -/
def lookupChain (hash : List (Node V)) (key : Key) : (fuel i : Nat) → Option (Option Nat)
  | 0, _ => none
  | fuel + 1, i =>
    let n := nodeAt hash i
    if key.hash = n.key.hash ∧ key = n.key then some (some i)
    else if n.next < 0 then some none
    else lookupChain hash key fuel n.next.toNatClampNeg

/-- `LookupHash`: the slot of the node. A search that visits more nodes than there are does not
end. -/
def lookupHash (t : SharedTable V) (key : Key) : Option (Option Nat) :=
  if t.hash.length = 0 then some none
  else
    let i := mainSlot t.hash.length key
    let n := nodeAt t.hash i
    if key.hash ≠ n.key.hash ∧ n.nocolliding = true then some none
    else lookupChain t.hash key t.hash.length i

/-- `Lookup`: the pointer to the value, or `none` when the search does not end. -/
def lookup (t : SharedTable V) (key : Key) : Option (Option (Option V)) :=
  let inArray :=
    match key with
    | .integer x => t.lookupArray x
    | .string _ => none
  match inArray with
  | some v => some (some v)
  | none => (t.lookupHash key).map fun n => n.map fun i => (nodeAt t.hash i).value

/-! ### Iterating -/

/-- `NextHashSlot`. -/
def nextHashSlot (t : SharedTable V) (start : Nat) : Option (Key × Option V) :=
  (t.hash.drop start).findSome? fun n => if n.value.isNone then none else some (n.key, n.value)

/-- The loops over the array part in `NextKey`, from index `start` on, before the hash part. -/
def nextArraySlot (t : SharedTable V) (start : Nat) : Option (Key × Option V) :=
  match (List.range' start (t.array.length - start)).find? fun i => (t.array.getD i none).isSome with
  | some i => some (.integer (Int64.ofNat (i + 1)), t.array.getD i none)
  | none => t.nextHashSlot 0

/-- `NextKey`: the next entry, if there is one, or `none` when the search for `prev` does not end.
-/
def nextKey (t : SharedTable V) (prev : Key) : Option (Option (Key × Option V)) :=
  if prev = .integer 0 then some (t.nextArraySlot 0)
  else
    let inArray :=
      match prev with
      | .integer x => if 0 < x.toInt ∧ x.toInt ≤ t.array.length then some x.toInt.toNat else none
      | .string _ => none
    match inArray with
    | some i => some (t.nextArraySlot i)
    | none =>
      (t.lookupHash prev).map fun n =>
        match n with
        | some i => t.nextHashSlot (i + 1)
        | none => t.nextHashSlot 0

end SharedTable

end Starnet.Sharedata
