import ExplicitControl.Proofs.Memory.Collection
import Mathlib.Data.Set.Card

namespace ExplicitControl.Memory

/-- The number of pairs that can be reached from the registers, the stack and
pending pointers. -/
noncomputable def live (memory : Memory) (pending : List Pointer) : Nat :=
  {a | memory.heap.Reaches (memory.roots pending) a}.ncard

variable {memory : Memory} {pending : List Pointer}

theorem live_eq_length {order : List Nat} (nodup : order.Nodup)
    (reached : ∀ a, a ∈ order ↔ memory.heap.Reaches (memory.roots pending) a) :
    memory.live pending = order.length := by
  have same : {a | memory.heap.Reaches (memory.roots pending) a} = (order.toFinset : Set Nat) := by
    ext a
    rw [Finset.mem_coe, List.mem_toFinset, reached]
    rfl
  rw [live, same, Set.ncard_coe_finset, List.toFinset_card_of_nodup nodup]

theorem Closed.live_le_free (closed : memory.Closed) (below : ∀ p ∈ pending, p.Below memory.heap.free) :
    memory.live pending ≤ memory.heap.free := by
  have inUse : {a | memory.heap.Reaches (memory.roots pending) a} ⊆ (Finset.range memory.heap.free : Set Nat) :=
    fun a reached => Finset.mem_coe.mpr (Finset.mem_range.mpr (closed.reaches_lt (closed.roots_below below) reached))
  calc memory.live pending
      ≤ (Finset.range memory.heap.free : Set Nat).ncard := Set.ncard_le_ncard inUse (Finset.finite_toSet _)
    _ = memory.heap.free := by rw [Set.ncard_coe_finset, Finset.card_range]

/-- Room is refused only where what can be reached leaves too little of it.
The answer depends on the live data, the capacity and the room asked for, and
not on the garbage or on where pairs lie. -/
theorem Closed.reserve_outcome (closed : memory.Closed) (below : ∀ p ∈ pending, p.Below memory.heap.free)
    (count : Nat) : (memory.reserve count pending).outcome =
      if memory.live pending + count ≤ memory.heap.capacity then .ok ()
      else .error (.heap (.exhausted memory.heap.capacity (memory.live pending))) := by
  by_cases room : count ≤ memory.heap.available
  · have live := closed.live_le_free below
    have used := closed.heap.free
    have fits : memory.live pending + count ≤ memory.heap.capacity := by
      rw [PairHeap.available] at room
      omega
    rw [reserve, if_pos room, if_pos fits]
  · obtain ⟨order, after, collected, nodup, reached, free, capacity, _, _, _, _, closed'⟩ := closed.collect below
    have live := live_eq_length nodup reached
    have used := closed'.heap.free
    rw [free, capacity] at used
    have room' : count ≤ after.heap.available ↔ memory.live pending + count ≤ memory.heap.capacity := by
      rw [PairHeap.available, free, capacity, live]
      omega
    simp only [reserve, if_neg room, collected]
    by_cases fits : memory.live pending + count ≤ memory.heap.capacity
    · rw [if_pos (room'.mpr fits), if_pos fits]
    · rw [if_neg (mt room'.mp fits), if_neg fits]
      simp only [free, capacity, live]

/-- The memory and the pending pointers are the same as before but for where
pairs lie: which pair stands for which is one to one, and registers, stack
slots, pending pointers and the heads and tails of such pairs all go by it. -/
def Isomorphic (memory : Memory) (pending : List Pointer) (after : Memory) (moved : List Pointer) : Prop :=
  ∃ ρ, memory.Matches ρ after ∧ List.Forall₂ (Pointer.Matches ρ) pending moved

theorem Isomorphic.refl (closed : memory.Closed) (below : ∀ p ∈ pending, p.Below memory.heap.free) :
    memory.Isomorphic pending memory pending :=
  ⟨_, closed.matches_self, List.forall₂_same.mpr fun p member => carries_refl (below p member)⟩

/-- What setting room aside leaves behind. -/
structure Exact (memory : Memory) (count : Nat) (pending : List Pointer) (result : Reservation) : Prop where
  idle : count ≤ memory.heap.available → result = ⟨memory, pending, .ok ()⟩
  collected : memory.heap.available < count →
    result.memory.heap.statistics.collections = memory.heap.statistics.collections + 1
  free : memory.heap.available < count → result.memory.heap.free = memory.live pending
  granted : memory.heap.available < count → memory.live pending + count ≤ memory.heap.capacity →
    result.outcome = .ok ()
  refused : memory.heap.available < count → memory.heap.capacity < memory.live pending + count →
    result.outcome = .error (.heap (.exhausted memory.heap.capacity (memory.live pending)))
  capacity : result.memory.heap.capacity = memory.heap.capacity
  isomorphic : memory.Isomorphic pending result.memory result.pending

/-- Setting room aside is exact wherever no reference dangles. Nothing happens
while there is room; otherwise one collection leaves just the pairs that can
be reached, and room is refused only where these leave too little of it.
Registers, stack and pending pointers stand for the same pairs as before,
shared as before, also where room is refused. -/
theorem reserve_exact (closed : memory.Closed) (below : ∀ p ∈ pending, p.Below memory.heap.free)
    (count : Nat) : memory.Exact count pending (memory.reserve count pending) := by
  by_cases room : count ≤ memory.heap.available
  · have unchanged : memory.reserve count pending = ⟨memory, pending, .ok ()⟩ := by
      rw [reserve, if_pos room]
    have enough : ¬ memory.heap.available < count := Nat.not_lt.mpr room
    rw [unchanged]
    exact ⟨fun _ => rfl, (absurd · enough), (absurd · enough), (absurd · enough), (absurd · enough), rfl,
      .refl closed below⟩
  obtain ⟨order, after, collected, nodup, reached, free, capacity, counted, _, matched, pendingMatched, closed'⟩ :=
    closed.collect below
  have live := live_eq_length nodup reached
  have inUse := closed'.heap.free
  rw [free, capacity] at inUse
  have room' : count ≤ after.heap.available ↔ memory.live pending + count ≤ memory.heap.capacity := by
    rw [PairHeap.available, free, capacity, live]
    omega
  by_cases fits : memory.live pending + count ≤ memory.heap.capacity
  · have granted : memory.reserve count pending = ⟨after, pending.map (Pointer.forward order), .ok ()⟩ := by
      simp only [reserve, if_neg room, collected, if_pos (room'.mpr fits)]
    rw [granted]
    exact ⟨(absurd · room), fun _ => counted, fun _ => free.trans live.symm, fun _ _ => rfl,
      fun _ short => absurd fits (Nat.not_le.mpr short), capacity, _, matched, pendingMatched⟩
  · have refused : memory.reserve count pending
        = ⟨after.record (.shortage count after.heap.free after.heap.capacity), pending.map (Pointer.forward order),
            .error (.heap (.exhausted memory.heap.capacity (memory.live pending)))⟩ := by
      simp only [reserve, if_neg room, collected, if_neg (mt room'.mp fits), free, capacity, live]
    rw [refused]
    exact ⟨(absurd · room), fun _ => counted, fun _ => free.trans live.symm, fun _ fits' => absurd fits' fits,
      fun _ _ => rfl, capacity, _, { matched with }, pendingMatched⟩

/-- A memory in which two pairs are shared between a register, the stack and
each other, and a third one is garbage. -/
def sharing : Memory where
  heap := PairHeap.ring
  registers := #[⟨"one", .pointer (.pair 2)⟩, ⟨"two", .label 5⟩, ⟨"three", .unassigned⟩]
  stack := { items := #[.label 7, .pointer (.pair 1)] }
  program := {}
  operations := .standard
  journal := #[]

theorem reserve_sharing_exact : sharing.Closed ∧ sharing.heap.available < 2 ∧
    sharing.Exact 2 [.pair 2, .null] (sharing.reserve 2 [.pair 2, .null]) ∧
    sharing.Exact 3 [.pair 2, .null] (sharing.reserve 3 [.pair 2, .null]) := by
  have closed : sharing.Closed := by
    refine ⟨⟨⟨rfl, by simp [sharing, PairHeap.ring, Region.blank], by decide⟩, ?_⟩, ?_, ?_⟩
    · exact PairHeap.check_eq_ok_iff.mp rfl
    · simp [sharing, PairHeap.ring, Contents.Below, Pointer.Below]
    · simp [sharing, PairHeap.ring, Contents.Below, Pointer.Below]
  have below : ∀ p ∈ [Pointer.pair 2, .null], p.Below sharing.heap.free := by
    simp [sharing, PairHeap.ring, Pointer.Below]
  exact ⟨closed, by decide, reserve_exact closed below 2, reserve_exact closed below 3⟩

end ExplicitControl.Memory
