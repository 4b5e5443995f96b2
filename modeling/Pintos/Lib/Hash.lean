import Mathlib.Algebra.Group.Nat.Defs
import Pintos.Lib.LinkedList

/-!
# Hash tables (lib/kernel/hash.c)

A table is an array of linked lists over the heap of list nodes. Elements are of any type
`α`, with the hash function and the comparison the table was initialized with. `none` is
a failed `ASSERT`, an access through a null pointer, or a bound on the rounds of a loop
that is too small. `malloc` is answered by an argument: the number of the array it returns,
or nothing.
-/

namespace Pintos.Lib

open Foundation

/-- The list nodes there are: those embedded in elements, and the heads and tails of the
buckets of each array. -/
inductive HashNode (α : Type*)
  | elem (e : α)
  | head (array index : Nat)
  | tail (array index : Nat)
  deriving DecidableEq

abbrev HashHeap (α : Type*) := Links (HashNode α)

def bucketAt {α : Type*} (array index : Nat) : ListHdr (HashNode α) :=
  ⟨.head array index, .tail array index⟩

/-- A `struct hash`, without the functions it was initialized with. -/
structure HashTable where
  elemCnt : Nat
  bucketCnt : Nat
  buckets : Nat
  deriving DecidableEq

/-- What the functions of the source read and write. -/
abbrev HashState (α : Type*) := HashHeap α × HashTable

def turnOffLeast1bit (x : Nat) : Nat := x &&& (x - 1)

def isPowerOf2 (x : Nat) : Bool := x != 0 && turnOffLeast1bit x == 0

def powerOf2Loop : Nat → Nat → Option Nat
  | 0, _ => none
  | fuel + 1, n => if isPowerOf2 n then some n else powerOf2Loop fuel (turnOffLeast1bit n)

/-- The number of buckets `rehash` wants for `elemCnt` elements. -/
def newBucketCnt (fuel elemCnt : Nat) : Option Nat :=
  powerOf2Loop fuel (if elemCnt / 2 < 4 then 4 else elemCnt / 2)

/-- `malloc` does not return the array that the table holds: such an answer is a failure. -/
def mallocBuckets (h : HashTable) (answer : Option Nat) : Option Nat :=
  if answer = some h.buckets then none else answer

variable {α : Type*} [DecidableEq α]

section Functions

variable (hash : α → Nat) (less : α → α → Bool)

def bucketIdx (h : HashTable) (e : α) : Nat := hash e &&& (h.bucketCnt - 1)

def findBucket (h : HashTable) (e : α) : ListHdr (HashNode α) :=
  bucketAt h.buckets (bucketIdx hash h e)

def findElemLoop (heap : HashHeap α) (bucket : ListHdr (HashNode α)) (e : α) :
    Nat → Option (HashNode α) → Option (Option α)
  | 0, _ => none
  | _ + 1, none => none
  | fuel + 1, some i =>
      if i = listEnd bucket then some none
      else
        match i with
        | .elem hi =>
            if !less hi e && !less e hi then some (some hi)
            else (listNext heap i).bind (findElemLoop heap bucket e fuel)
        | _ => none

def findElem (fuel : Nat) (heap : HashHeap α) (bucket : ListHdr (HashNode α)) (e : α) :
    Option (Option α) :=
  findElemLoop less heap bucket e fuel (listBegin heap bucket)

def insertElem (s : HashState α) (bucket : ListHdr (HashNode α)) (e : α) :
    Option (HashState α) :=
  (listPushFront s.1 bucket (.elem e)).map (·, { s.2 with elemCnt := s.2.elemCnt + 1 })

def removeElem (s : HashState α) (e : α) : Option (HashState α) :=
  (listRemove s.1 (.elem e)).map fun r => (r.1, { s.2 with elemCnt := s.2.elemCnt - 1 })

def initBuckets (heap : HashHeap α) (array cnt : Nat) : HashHeap α :=
  (List.range cnt).foldl (fun heap i => listInit heap (bucketAt array i)) heap

/-- The inner loop of `rehash`: an old bucket's elements go to the buckets of `h`. -/
def moveLoop (h : HashTable) (oldBucket : ListHdr (HashNode α)) :
    Nat → HashHeap α → Option (HashNode α) → Option (HashHeap α)
  | 0, _, _ => none
  | _ + 1, _, none => none
  | fuel + 1, heap, some elem =>
      if elem = listEnd oldBucket then some heap
      else
        match elem with
        | .elem e =>
            (listNext heap elem).bind fun next =>
              (listRemove heap elem).bind fun r =>
                (listPushFront r.1 (findBucket hash h e) elem).bind fun heap =>
                  moveLoop h oldBucket fuel heap next
        | _ => none

def moveBucket (fuel : Nat) (old h : HashTable) (heap : HashHeap α) (i : Nat) :
    Option (HashHeap α) :=
  moveLoop hash h (bucketAt old.buckets i) fuel heap (listBegin heap (bucketAt old.buckets i))

def rehash (fuel : Nat) (answer : Option Nat) (s : HashState α) : Option (HashState α) :=
  (newBucketCnt fuel s.2.elemCnt).bind fun cnt =>
    if cnt = s.2.bucketCnt then some s
    else
      match mallocBuckets s.2 answer with
      | none => some s
      | some array =>
          let h := { s.2 with buckets := array, bucketCnt := cnt }
          ((List.range s.2.bucketCnt).foldlM (moveBucket hash fuel s.2 h)
            (initBuckets s.1 array cnt)).map (·, h)

/-- `while (!list_empty (bucket))` of `hash_clear`, with the elements that the destructor
has been called for. -/
def destroyLoop (bucket : ListHdr (HashNode α)) :
    Nat → HashHeap α → List α → Option (HashHeap α × List α)
  | 0, _, _ => none
  | fuel + 1, heap, destroyed =>
      if listEmpty heap bucket then some (heap, destroyed)
      else
        (listPopFront heap bucket).bind fun r =>
          match r.2 with
          | .elem e => destroyLoop bucket fuel r.1 (destroyed ++ [e])
          | _ => none

def clearBucket (fuel : Nat) (destructor : Bool) (array : Nat) (s : HashHeap α × List α)
    (i : Nat) : Option (HashHeap α × List α) :=
  (if destructor then destroyLoop (bucketAt array i) fuel s.1 s.2 else some s).map fun r =>
    (listInit r.1 (bucketAt array i), r.2)

def hashClear (fuel : Nat) (destructor : Bool) (s : HashState α) :
    Option (HashState α × List α) :=
  ((List.range s.2.bucketCnt).foldlM (clearBucket fuel destructor s.2.buckets) (s.1, [])).map
    fun r => ((r.1, { s.2 with elemCnt := 0 }), r.2)

/-- `hash_init`; the inner `none` is the return value false. -/
def hashInit (fuel : Nat) (heap : HashHeap α) (answer : Option Nat) :
    Option (Option (HashState α)) :=
  match answer with
  | none => some none
  | some array =>
      (hashClear fuel false (heap, ⟨0, 4, array⟩)).map fun r => some r.1

def hashInsert (fuel : Nat) (answer : Option Nat) (s : HashState α) (new : α) :
    Option (HashState α × Option α) :=
  let bucket := findBucket hash s.2 new
  (findElem less fuel s.1 bucket new).bind fun old =>
    (match old with
      | none => insertElem s bucket new
      | some _ => some s).bind fun s =>
        (rehash hash fuel answer s).map (·, old)

def hashReplace (fuel : Nat) (answer : Option Nat) (s : HashState α) (new : α) :
    Option (HashState α × Option α) :=
  let bucket := findBucket hash s.2 new
  (findElem less fuel s.1 bucket new).bind fun old =>
    (match old with
      | some old => removeElem s old
      | none => some s).bind fun s =>
        (insertElem s bucket new).bind fun s =>
          (rehash hash fuel answer s).map (·, old)

def hashFind (fuel : Nat) (s : HashState α) (e : α) : Option (Option α) :=
  findElem less fuel s.1 (findBucket hash s.2 e) e

def hashDelete (fuel : Nat) (answer : Option Nat) (s : HashState α) (e : α) :
    Option (HashState α × Option α) :=
  (findElem less fuel s.1 (findBucket hash s.2 e) e).bind fun found =>
    match found with
    | some o =>
        (removeElem s o).bind fun s => (rehash hash fuel answer s).map (·, found)
    | none => some (s, found)

end Functions

inductive HashCall (α : Type*)
  | insert (new : α)
  | replace (new : α)
  | find (e : α)
  | delete (e : α)
  | clear (destructor : Bool)

/-- The table after a call, the pointer it returns and the elements it destroyed. -/
def HashCall.run (hash : α → Nat) (less : α → α → Bool) (fuel : Nat) (answer : Option Nat)
    (s : HashState α) : HashCall α → Option (HashState α × Option α × List α)
  | .insert new => (hashInsert hash less fuel answer s new).map fun r => (r.1, r.2, [])
  | .replace new => (hashReplace hash less fuel answer s new).map fun r => (r.1, r.2, [])
  | .find e => (hashFind hash less fuel s e).map fun r => (s, r, [])
  | .delete e => (hashDelete hash less fuel answer s e).map fun r => (r.1, r.2, [])
  | .clear destructor => (hashClear fuel destructor s).map fun r => (r.1, none, r.2)

/-- A sequence of calls, each with the answer of `malloc` to it, and what they return. -/
def hashRun (hash : α → Nat) (less : α → α → Bool) (fuel : Nat) :
    HashState α → List (HashCall α × Option Nat) →
      Option (HashState α × List (Option α × List α))
  | s, [] => some (s, [])
  | s, call :: calls =>
      (call.1.run hash less fuel call.2 s).bind fun r =>
        (hashRun hash less fuel r.1 calls).map fun t => (t.1, r.2 :: t.2)

end Pintos.Lib
