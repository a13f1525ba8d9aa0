import ExplicitControl.Proofs.Machine.Lockstep

namespace ExplicitControl.Machine

/-- A run has come to a machine after so many instructions, and not ended. -/
def Visits (start : Machine) (count : Nat) (machine : Machine) : Prop :=
  start.runFuel count = (.unfinished, machine)

/-- Where a pair of a machine visited at one time is in those visited later.
Addresses change with every collection, so a pair has no other identity
through a run than the way it has gone. -/
inductive Lineage (visits : Nat → Machine → Prop) (since a : Nat) : Nat → Nat → Prop
  | here {machine : Machine} : visits since machine → a < machine.memory.heap.free →
      Lineage visits since a since a
  | step {count b c : Nat} {machine next : Machine} : Lineage visits since a count b →
      visits count machine → visits (count + 1) next →
      machine.memory.heap.Carries next.memory.heap b c → Lineage visits since a (count + 1) c

namespace Lineage

variable {visits : Nat → Machine → Prop} {i j k a b c : Nat}

theorem trans (one : Lineage visits i a j b) (other : Lineage visits j b k c) : Lineage visits i a k c := by
  induction other with
  | here _ _ => exact one
  | step _ here there carried ih => exact .step ih here there carried

theorem le (lineage : Lineage visits i a j b) : i ≤ j := by
  induction lineage with
  | here => exact Nat.le_refl _
  | step _ _ _ _ ih => exact ih.trans (Nat.le_succ _)

theorem visited (lineage : Lineage visits i a j b) : ∃ machine, visits j machine := by
  cases lineage with
  | here visits _ => exact ⟨_, visits⟩
  | step _ _ visits _ => exact ⟨_, visits⟩

end Lineage

variable {start machine machine' next : Machine} {count : Nat}

theorem Visits.unique (one : start.Visits count machine) (other : start.Visits count machine') :
    machine = machine' := by
  have same := one.symm.trans other
  simp only [Prod.mk.injEq, true_and] at same
  exact same

/-- A run goes on from where it has come to, as if it had been started there. -/
theorem Visits.runFuel_add (visits : start.Visits count machine) (more : Nat) :
    start.runFuel (count + more) = machine.runFuel more := by
  induction count generalizing start with
  | zero =>
    cases visits
    rw [Nat.zero_add]
  | succ count ih =>
    rw [Nat.add_right_comm]
    simp only [Visits, runFuel] at visits ⊢
    cases found : start.current? with
    | none =>
      rw [found] at visits
      cases visits
    | some instruction =>
      simp only [found] at visits ⊢
      cases stepped : start.step instruction with
      | error cause failed =>
        rw [stepped] at visits
        cases visits
      | ok value after =>
        simp only [stepped] at visits ⊢
        exact ih visits

theorem Visits.step (visits : start.Visits count machine) {instruction : BoundInstruction}
    (found : machine.current? = some instruction) (stepped : machine.step instruction = .ok () next) :
    start.Visits (count + 1) next := by
  rw [Visits, visits.runFuel_add]
  simp only [runFuel, found, stepped]

/-- Where a run has ended nothing further is visited. -/
theorem Visits.le_of_ended (visits : start.Visits count machine) (ended : (machine.runFuel 1).1 ≠ .unfinished)
    {later : Nat} (further : start.Visits later machine') : later ≤ count := by
  by_contra beyond
  rw [← visits.runFuel_add] at ended
  have same := start.runFuel_add ended (later - (count + 1))
  rw [Nat.add_sub_cancel' (Nat.not_le.mp beyond)] at same
  rw [← same, further] at ended
  exact ended rfl

/-- A run comes to every machine from the one before, by carrying out the
instruction that is current there. Invariants of the machines visited are
shown along these steps. -/
theorem Visits.exists_last (visits : start.Visits (count + 1) next) :
    ∃ machine instruction, start.Visits count machine ∧ machine.current? = some instruction ∧
      machine.step instruction = .ok () next := by
  have earlier : start.Visits count (start.runFuel count).2 := by
    by_contra ended
    have isEnded : (start.runFuel count).1 ≠ .unfinished := fun same => ended (Prod.ext same rfl)
    have same := start.runFuel_add isEnded 1
    rw [Visits] at visits
    rw [visits] at same
    exact isEnded (same ▸ rfl)
  have last := earlier.runFuel_add 1
  rw [Visits] at visits
  rw [visits] at last
  simp only [runFuel] at last
  cases found : (start.runFuel count).2.current? with
  | none =>
    rw [found] at last
    cases last
  | some instruction =>
    simp only [found] at last
    cases stepped : (start.runFuel count).2.step instruction with
    | error cause failed =>
      rw [stepped] at last
      cases last
    | ok value after =>
      rw [stepped] at last
      cases last
      exact ⟨_, instruction, earlier, found, stepped⟩

/-- A run that is done has come to a machine with no instruction left, and has
changed nothing there but the log. -/
theorem exists_visits_of_done {fuel : Nat} {final : Machine} (done : start.runFuel fuel = (.done (), final)) :
    ∃ count machine event, start.Visits count machine ∧ machine.current? = none ∧ final = machine.record event := by
  induction fuel generalizing start with
  | zero => cases done
  | succ fuel ih =>
    simp only [runFuel] at done
    cases found : start.current? with
    | none =>
      rw [found] at done
      cases done
      exact ⟨0, start, _, rfl, found, rfl⟩
    | some instruction =>
      simp only [found] at done
      cases stepped : start.step instruction with
      | error cause failed =>
        rw [stepped] at done
        cases done
      | ok value after =>
        simp only [stepped] at done
        obtain ⟨count, machine, event, visits, rest⟩ := ih done
        refine ⟨count + 1, machine, event, ?_, rest⟩
        simpa only [Visits, runFuel, found, stepped] using visits

/-- A register cannot be restored only where nothing is saved, so on a stack
that is never empty at a restore no restore fails. -/
theorem underflows_of_error {instruction : BoundInstruction} {register : Nat} {cause : Error}
    (isRestore : instruction.code = .restore register) (failed : machine.step instruction = .error cause next) :
    ∃ name, cause = .machine (.stackUnderflow name) := by
  rw [step_eq, isRestore] at failed
  have executed : execute (.restore register) (machine.traced instruction)
      = EStateM.bind (onMemory (restore register)) (fun _ => advance) (machine.traced instruction) := rfl
  rw [executed] at failed
  simp only [EStateM.bind, onMemory, restore] at failed
  cases top : (machine.traced instruction).memory.stack.top? with
  | none =>
    simp only [top] at failed
    cases failed
    exact ⟨_, rfl⟩
  | some value =>
    simp only [top] at failed
    cases failed

/-- Two runs side by side, with what says at each time which pairs stand for
one another. If the one on the right collects nothing, its addresses never
change, and a pair there is the identity of the pairs on the left that it
stands for. -/
structure Linked (left right : Machine) (count : Nat) (link : Nat → Nat → Nat → Prop) : Prop where
  twin : ∀ i ≤ count, ∃ l r, left.Visits i l ∧ right.Visits i r ∧ Twin (link i) l r
  kin : ∀ i < count, ∃ l r l' r', left.Visits i l ∧ right.Visits i r ∧ left.Visits (i + 1) l' ∧
    right.Visits (i + 1) r' ∧ Kin (origin (link i) l r) (link (i + 1)) l' r'

variable {ρ : Nat → Nat → Prop} {left right : Machine} {link : Nat → Nat → Nat → Prop}

/-- Twin machines visit twin machines, at each time with a relation of their
pairs that coheres with the one before. -/
theorem Twin.exists_linked (twin : Twin ρ left right) (visits : left.Visits count machine) :
    ∃ link, link 0 = ρ ∧ Linked left right count link := by
  induction count generalizing machine with
  | zero =>
    refine ⟨fun _ => ρ, rfl, fun i le => ?_, fun i lt => absurd lt (Nat.not_lt_zero i)⟩
    obtain rfl := Nat.le_zero.mp le
    exact ⟨left, right, rfl, rfl, twin⟩
  | succ count ih =>
    obtain ⟨before, instruction, visits', found, stepped⟩ := visits.exists_last
    obtain ⟨link, first, linked⟩ := ih visits'
    obtain ⟨l, r, visitsLeft, visitsRight, twinHere⟩ := linked.twin count (Nat.le_refl _)
    obtain rfl := visitsLeft.unique visits'
    have fetched : r.current? = some instruction := by
      rw [← found]
      simp only [current?, twinHere.code, twinHere.position]
    have member : instruction ∈ l.code.toList := by
      simp only [current?] at found
      exact Array.mem_toList_iff.mpr (Array.mem_of_getElem? found)
    have tied := step_tied (twinHere.pairless instruction member) twinHere
    rw [stepped] at tied
    generalize steppedRight : step instruction r = result at tied
    cases tied with
    | @ok _ _ _ r' kept =>
      obtain ⟨σ, kin⟩ := kept
      have visitsRight' : right.Visits (count + 1) r' := visitsRight.step fetched steppedRight
      refine ⟨fun i => if i ≤ count then link i else σ, ?_, fun i le => ?_, fun i lt => ?_⟩
      · exact (if_pos (Nat.zero_le _)).trans first
      · rcases Nat.le_succ_iff.mp le with old | rfl
        · rw [if_pos old]
          exact linked.twin i old
        · rw [if_neg (Nat.not_succ_le_self count)]
          exact ⟨machine, r', visits, visitsRight', kin.toTwin⟩
      · rw [if_pos (Nat.le_of_lt_succ lt)]
        rcases Nat.lt_succ_iff_lt_or_eq.mp lt with old | rfl
        · rw [if_pos (Nat.succ_le_of_lt old)]
          exact linked.kin i old
        · rw [if_neg (Nat.not_succ_le_self i)]
          exact ⟨l, r, machine, r', visits', visitsRight, visits, visitsRight', kin⟩

namespace Linked

variable {i j a b w : Nat} (linked : Linked left right count link)
  (still : ∀ i ≤ count, ∀ r, right.Visits i r → r.memory.heap.statistics.collections = 0)
include linked

theorem twin_of_visits (le : i ≤ count) {l r : Machine} (visitsLeft : left.Visits i l)
    (visitsRight : right.Visits i r) : Twin (link i) l r := by
  obtain ⟨l', r', visitsLeft', visitsRight', twin⟩ := linked.twin i le
  rw [visitsLeft.unique visitsLeft', visitsRight.unique visitsRight']
  exact twin

include still

theorem coheres (lt : i < count) : ∃ l r l' r', left.Visits i l ∧ right.Visits i r ∧
    left.Visits (i + 1) l' ∧ right.Visits (i + 1) r' ∧
    (origin (link i) l r).Coheres (link (i + 1)) l'.memory.heap r'.memory.heap := by
  obtain ⟨l, r, l', r', visitsLeft, visitsRight, visitsLeft', visitsRight', kin⟩ := linked.kin i lt
  have same : r'.memory.heap.statistics.collections = r.memory.heap.statistics.collections :=
    (still (i + 1) lt r' visitsRight').trans (still i lt.le r visitsRight).symm
  exact ⟨l, r, l', r', visitsLeft, visitsRight, visitsLeft', visitsRight', kin.kin.coheres same⟩

/-- Wherever a pair goes on the left, it stands for the same one on the right,
as long as nothing is collected there. -/
theorem onward (le : j ≤ count) (lineage : Lineage left.Visits i a j b) (related : link i a w) :
    link j b w := by
  induction lineage with
  | here _ _ => exact related
  | step _ visits visits' carried ih =>
    obtain ⟨l, r, l', r', visitsLeft, _, visitsLeft', _, coheres⟩ := linked.coheres still le
    rw [visits.unique visitsLeft, visits'.unique visitsLeft'] at carried
    exact coheres.onward (ih (Nat.le_of_succ_le le)) carried

theorem free_le (le : i ≤ j) (inside : j ≤ count) {r r' : Machine} (visits : right.Visits i r)
    (visits' : right.Visits j r') : r.memory.heap.free ≤ r'.memory.heap.free := by
  induction j, le using Nat.le_induction generalizing r' with
  | base => rw [visits.unique visits']
  | succ j le ih =>
    obtain ⟨_, r₁, _, r₂, _, visitsBefore, _, visitsAfter, coheres⟩ := linked.coheres still inside
    rw [visits'.unique visitsAfter]
    exact (ih (Nat.le_of_succ_le inside) visitsBefore).trans coheres.free

/-- A pair that stands for one from before comes from there. So two pairs on
the left, at different times, are the same pair if they stand for the same one
on the right. -/
theorem back (le : i ≤ j) (inside : j ≤ count) {r : Machine} (visits : right.Visits i r)
    (old : w < r.memory.heap.free) (related : link j b w) :
    ∃ a, link i a w ∧ Lineage left.Visits i a j b := by
  induction j, le using Nat.le_induction generalizing b with
  | base =>
    obtain ⟨l, _, visitsLeft, _, twin⟩ := linked.twin i inside
    exact ⟨b, related, .here visitsLeft (twin.memory.matched.heap.lt_left related)⟩
  | succ j le ih =>
    obtain ⟨l, r', l', _, visitsLeft, visitsRight, visitsLeft', _, coheres⟩ := linked.coheres still inside
    have before := Nat.le_of_succ_le inside
    have below : w < r'.memory.heap.free := old.trans_le (linked.free_le still le before visits visitsRight)
    obtain ⟨c, earlier, carried⟩ := coheres.back related below
    obtain ⟨a, first, lineage⟩ := ih before earlier
    exact ⟨a, first, .step lineage visitsLeft visitsLeft' carried⟩

/-- Every pair on the left stands for one on the right, if it did so at the
start: those that were allocated since have been allocated on both sides. -/
theorem total (first : ∀ a < left.memory.heap.free, ∃ w, link 0 a w) (le : i ≤ count) {l : Machine}
    (visits : left.Visits i l) (inUse : a < l.memory.heap.free) : ∃ w, link i a w := by
  induction i generalizing l a with
  | zero =>
    cases visits
    exact first a inUse
  | succ i ih =>
    obtain ⟨l', _, _, _, visitsLeft, _, visitsLeft', _, coheres⟩ := linked.coheres still le
    rw [visits.unique visitsLeft'] at inUse
    exact coheres.total (fun c inUse' => ih (Nat.le_of_succ_le le) visitsLeft inUse') a inUse

end Linked

end ExplicitControl.Machine
