import ExplicitControl.PairHeap.Basic

namespace ExplicitControl

/-- A collection under way: live pairs move from the source, of which `limit`
slots are in use, to the first `next` slots of the target. -/
structure Evacuation where
  source : Region
  target : Region
  limit : Nat
  next : Nat

namespace Evacuation

/-- Makes a pointer refer to the target. The first time a pair is met it is
copied and leaves its new address behind; later references follow that. -/
def relocate (pointer : Pointer) : EStateM HeapError Evacuation Pointer := fun evacuation =>
  match pointer with
  | .pair old =>
    if evacuation.limit ≤ old then
      .error (.fault .pair old evacuation.limit) evacuation
    else
      match evacuation with
      | ⟨source, target, limit, next⟩ =>
        match source[old]? with
        | none => .error (.overrun old source.size) ⟨source, target, limit, next⟩
        | some ⟨.moved new, _⟩ => .ok (.pair new) ⟨source, target, limit, next⟩
        | some ⟨.value head, tail⟩ =>
          if next < target.size then
            .ok (.pair next)
              { source := source.setIfInBounds old ⟨.moved next, .undefined⟩
                target := target.setIfInBounds next ⟨.value head, tail⟩
                limit := limit
                next := next + 1 }
          else .error (.overrun next target.size) ⟨source, target, limit, next⟩
  | other => .ok other evacuation

/-- The pair at a slot of the target, still as it was copied. -/
def copied (slot : Nat) : EStateM HeapError Evacuation (Pointer × Pointer) := fun evacuation =>
  match evacuation.target[slot]? with
  | none => .error (.overrun slot evacuation.target.size) evacuation
  | some ⟨.value head, tail⟩ => .ok (head, tail) evacuation
  | some ⟨.moved _, _⟩ => .error (.fault .pair slot evacuation.next) evacuation

/-- Writes a pair to a slot of the target. -/
def write (slot : Nat) (head tail : Pointer) : EStateM HeapError Evacuation Unit := fun
  | ⟨source, target, limit, next⟩ =>
    .ok () ⟨source, target.setIfInBounds slot ⟨.value head, tail⟩, limit, next⟩

/-- Makes head and tail of a copied pair refer to the target. -/
def scanSlot (slot : Nat) : EStateM HeapError Evacuation Unit := do
  let (head, tail) ← copied slot
  let head ← relocate head
  let tail ← relocate tail
  write slot head tail

/-- Scans the copied pairs from `slot` on, including those that are copied
meanwhile, for at most `fuel` pairs. -/
def scan (slot : Nat) : (fuel : Nat) → EStateM HeapError Evacuation Unit
  | 0 => pure ()
  | fuel + 1 => do
    if slot < (← get).next then
      scanSlot slot
      scan (slot + 1) fuel

/-- Relocates roots from left to right; `done` holds those relocated so far,
last one first. Where one fails, it and the roots after it stay as they
were. -/
def relocateRoots (done : List Pointer) :
    List Pointer → Evacuation → Except HeapError Unit × List Pointer × Evacuation
  | [], evacuation => (.ok (), done.reverse, evacuation)
  | root :: rest, evacuation =>
    match relocate root evacuation with
    | .ok moved evacuation => relocateRoots (moved :: done) rest evacuation
    | .error fault evacuation => (.error fault, done.reverseAux (root :: rest), evacuation)

end Evacuation

/-- What a collection leaves: the heap, the roots, and the number of live
pairs or what went wrong. -/
structure Collection where
  heap : PairHeap
  roots : List Pointer
  outcome : Except HeapError Nat

namespace PairHeap

/-- Keeps the pairs that can be reached from the roots, moves them together
at the start of the other region, and makes the roots refer to them there.
No more pairs than were in use can be copied, so that many scans suffice.
When a reference leads outside the heap the collection stops half way: the
pairs moved by then are gone from the active region. -/
def collect (heap : PairHeap) (roots : List Pointer) : Collection :=
  match heap with
  | ⟨active, spare, limit, capacity, statistics⟩ =>
    match Evacuation.relocateRoots [] roots ⟨active, spare, limit, 0⟩ with
    | (.error fault, roots, ⟨source, target, _, _⟩) =>
      ⟨⟨source, target, limit, capacity, statistics⟩, roots, .error fault⟩
    | (.ok (), roots, evacuation) =>
      match Evacuation.scan 0 limit evacuation with
      | .error fault ⟨source, target, _, _⟩ =>
        ⟨⟨source, target, limit, capacity, statistics⟩, roots, .error fault⟩
      | .ok () ⟨source, target, _, live⟩ =>
        { heap :=
            { active := target
              spare := source
              free := live
              capacity := capacity
              statistics := { statistics with
                collections := statistics.collections + 1
                copied := statistics.copied + live
                liveAfterLast := live } }
          roots := roots
          outcome := .ok live }

end PairHeap

end ExplicitControl
