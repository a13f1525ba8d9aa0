import ExplicitControl.Proofs.Evaluator.Path
import ExplicitControl.Proofs.Evaluator.Refinement

namespace ExplicitControl.Evaluator

open Machine (Lineage Linked)

/-- A run of the evaluator has come to a machine after so many instructions,
and not ended. -/
def Visits (settings : Settings) (tree : Tree) (count : Nat) (machine : Machine) : Prop :=
  ∃ made, Evaluator.machine settings = .ok made ∧ run count made tree = (.unfinished, machine)

/-- Whether a run goes on, and its machine passes a check. -/
def goesOn (p : Machine → Bool) : Outcome Pointer × Machine → Bool
  | (.unfinished, machine) => p machine
  | _ => false

/-- A machine that a run visits is found by carrying the run out so far, and
checked where it is found. -/
theorem exists_visits_of_goesOn {settings : Settings} {tree : Tree} {count : Nat} {p : Machine → Bool}
    (shown : goesOn p (run count (pristine.configure settings) tree)) :
    ∃ machine, Visits settings tree count machine ∧ p machine := by
  rcases ran : run count (pristine.configure settings) tree with ⟨_ | _ | _, machine⟩ <;> rw [ran] at shown
  · exact absurd shown Bool.false_ne_true
  · exact absurd shown Bool.false_ne_true
  · exact ⟨machine, ⟨_, machine_pristine settings, ran⟩, shown⟩

/-- A machine is at a position and holds what a configuration says, but for
where the pairs lie. -/
structure Mirrors (link : Nat → Nat → Prop) (c : Config) (position : Nat) (machine : Machine) : Prop where
  code : machine.code.toList.map BoundInstruction.code = listing
  position : machine.position = position
  registers : ∀ index, (machine.memory.contents index).Matches link (c.registers index)
  stack : List.Forall₂ (Contents.Matches link) machine.memory.stack.items.toList.reverse c.stack
  unique : Relator.BiUnique link
  pairs : ∀ a b, link a b → ∃ head tail head' tail', machine.memory.heap.Holds a head tail ∧
    c.heap[b]? = some (head', tail') ∧ head.Matches link head' ∧ tail.Matches link tail'

theorem Mirrors.of_twin {link : Nat → Nat → Prop} {program : ProgramHeap} {c : Config} {position : Nat}
    {left right : Machine} (twin : Machine.Twin link left right) (stands : Stands program c position right) :
    Mirrors link c position left := by
  refine ⟨by rw [twin.code, stands.code], twin.position.trans stands.position, fun index => ?_, ?_,
    twin.memory.matched.heap.unique, fun a b related => ?_⟩
  · rw [← stands.registers index]
    exact twin.memory.contents index
  · rw [← stands.stack]
    exact List.rel_reverse twin.memory.matched.stack
  · obtain ⟨head, tail, head', tail', holds, holds', matched⟩ := twin.memory.matched.heap.pairs a b related
    exact ⟨head, tail, head', tail', holds, stands.memory.heap.getElem?_of_holds holds', matched⟩

/-- The path of a run up to a number of instructions, whatever the capacity of
its heap. What a pair of the path stands for is the same pair all the time,
wherever it is moved. -/
structure Account (visits : Nat → Machine → Prop) (count : Nat) (layout : Layout)
    (path : Nat → Config × Nat) (link : Nat → Nat → Nat → Prop) : Prop where
  first : (path 0).1.trail = []
  ticks : ∀ i < count, Ticks layout (path i) (path (i + 1))
  last : listing[(path count).2]? = none → ∃ c, Leaves (path count).2 (path count).1 c ∧ c.trail = []
  visited : ∀ i ≤ count, ∃ machine, visits i machine
  mirrors : ∀ i ≤ count, ∀ machine, visits i machine → Mirrors (link i) (path i).1 (path i).2 machine
  onward : ∀ i j a b w, j ≤ count → Lineage visits i a j b → link i a w → link j b w
  back : ∀ i j b w, i ≤ j → j ≤ count → w < (path i).1.heap.length → link j b w →
    ∃ a, link i a w ∧ Lineage visits i a j b
  total : ∀ i a machine, i ≤ count → visits i machine → a < machine.memory.heap.free → ∃ w, link i a w

variable {settings : Settings} {tree : Tree} {count : Nat} {machine : Machine} {layout : Layout}
  {path : Nat → Config × Nat} {steps : Nat}

theorem answer_eq_unfinished_iff {ended : Outcome Unit × Machine} :
    answer ended = (.unfinished, machine) ↔ ended = (.unfinished, machine) := by
  obtain ⟨outcome, machine'⟩ := ended
  cases outcome with
  | unfinished => simp [answer]
  | failed cause => simp [answer]
  | done value =>
    simp only [answer]
    cases Evaluator.result machine' <;> simp

theorem Visits.unique {machine' : Machine} (one : Visits settings tree count machine)
    (other : Visits settings tree count machine') : machine = machine' := by
  obtain ⟨made, isMade, ran⟩ := one
  obtain ⟨made', isMade', ran'⟩ := other
  obtain rfl := Except.ok.inj (isMade.symm.trans isMade')
  exact congrArg Prod.snd (ran.symm.trans ran')

theorem eq_done_of_answer {ended : Outcome Unit × Machine} {value : Pointer}
    (done : answer ended = (.done value, machine)) : ended = (.done (), machine) := by
  obtain ⟨outcome, machine'⟩ := ended
  cases outcome with
  | unfinished => cases done
  | failed cause => cases done
  | done value =>
    simp only [answer] at done
    cases found : Evaluator.result machine' with
    | ok value =>
      rw [found] at done
      cases done
      rfl
    | error cause =>
      rw [found] at done
      cases done

section

variable {made : Machine} (isMade : Machine.make registers OperationTable.evaluator controller = .ok made)
include isMade

theorem visits_eq (settings : Settings) (tree : Tree) :
    Visits settings tree = (started (made.configure settings) tree).Visits := by
  funext count machine
  refine propext ⟨?_, fun visits => ⟨_, machine_eq isMade settings, ?_⟩⟩
  · rintro ⟨made', isMade', ran⟩
    rw [machine_eq isMade] at isMade'
    cases isMade'
    rw [run_eq_start isMade] at ran
    exact answer_eq_unfinished_iff.mp ran
  · rw [run_eq_start isMade]
    exact answer_eq_unfinished_iff.mpr visits

/-- At the start of a run the capacity makes no difference: whatever the
registers hold is the same, and there are no pairs yet. -/
theorem started_twin {settings settings' : Settings} (le : settings.heapCapacity ≤ settings'.heapCapacity)
    (tree : Tree) :
    Machine.Twin (fun _ _ => False) (started (made.configure settings) tree)
      (started (made.configure settings') tree) :=
  (((loaded_ready isMade settings tree).prepare_twin (loaded_ready isMade settings' tree) rfl rfl rfl rfl
    le).recordLeft _).recordRight _

end

theorem Stands.runFuel_ended {program : ProgramHeap} {c : Config} {position : Nat}
    (stands : Stands program c position machine) (outside : listing[position]? = none) :
    (machine.runFuel 1).1 = .done () := by
  rw [← stands.code, ← stands.position, List.getElem?_map, Array.getElem?_toList, Option.map_eq_none_iff] at outside
  simp only [Machine.runFuel, Machine.current?, outside]

/-- The course of a whole program is as long as wanted, or at its end a
machine ends: behind the last instruction with nothing left on the trail. -/
theorem exists_course {n : Nat} {c : Config}
    {result : EStateM.Result Interpreter.Halt Interpreter.Store Interpreter.Value}
    (leads : LeadsFrom layout n 0 c (Gained (World.blank layout) [] Label.done.position) result) :
    ∃ steps c' position' bound, Course layout steps c 0 c' position' ∧
      ∀ machine, Stands layout.program c' position' machine → bound ≤ machine.memory.heap.capacity →
        n ≤ steps ∨ (machine.runFuel 1).1 ≠ .unfinished ∧ (listing[position']? = none → c'.trail = []) := by
  cases leads with
  | @ok value store steps c' position' course gained =>
    obtain ⟨_, _, _⟩ := gained
    refine ⟨steps, _, _, 0, course, fun machine stands _ => .inr ⟨?_, fun _ => rfl⟩⟩
    rw [stands.runFuel_ended (List.getElem?_eq_none listing_length.le)]
    simp
  | @mistake m store steps c' position' course fails =>
    obtain ⟨bound, fails⟩ := fails
    refine ⟨steps, c', position', bound, course, fun machine stands room => .inr ?_⟩
    obtain ⟨cause, machine', _, failed⟩ := fails machine stands room
    have failed := failed 0
    refine ⟨by rw [failed]; simp, fun outside => ?_⟩
    have ended := stands.runFuel_ended outside
    rw [failed] at ended
    cases ended
  | @unfinished store steps c' position' course enough =>
    exact ⟨steps, c', position', 0, course, fun _ _ _ => .inl enough⟩

/-- The account of a run that goes beside another one, which takes a path and
collects nothing. The other run has room enough by choice, so its addresses
are those of the path. -/
theorem Account.of_linked {left right : Machine} {link : Nat → Nat → Nat → Prop}
    (linked : Linked left right count link) (empty : left.memory.heap.free = 0)
    (along : ∀ i ≤ count, ∃ r, right.Visits i r ∧ Stands layout.program (path i).1 (path i).2 r)
    (first : (path 0).1.trail = []) (ticks : ∀ i < count, Ticks layout (path i) (path (i + 1)))
    (last : listing[(path count).2]? = none → ∃ c, Leaves (path count).2 (path count).1 c ∧ c.trail = []) :
    Account left.Visits count layout path link := by
  have still : ∀ i ≤ count, ∀ r, right.Visits i r → r.memory.heap.statistics.collections = 0 := by
    intro i le r visits
    obtain ⟨r', visits', stands⟩ := along i le
    rw [visits.unique visits']
    exact stands.memory.heap.uncollected
  refine ⟨first, ticks, last, fun i le => ?_, fun i le l visits => ?_, fun i j a b w le lineage related => ?_,
    fun i j b w le inside old related => ?_, fun i a l le visits inUse => ?_⟩
  · obtain ⟨l, _, visits, _⟩ := linked.twin i le
    exact ⟨l, visits⟩
  · obtain ⟨r, visits', stands⟩ := along i le
    exact .of_twin (linked.twin_of_visits le visits visits') stands
  · exact linked.onward still le lineage related
  · obtain ⟨r, visits, stands⟩ := along i (le.trans inside)
    exact linked.back still le inside visits (stands.memory.heap.used ▸ old) related
  · refine linked.total still (fun a inUse => ?_) le visits inUse
    rw [empty] at inUse
    exact absurd inUse (Nat.not_lt_zero a)

/-- A run with room enough takes the course that the interpreter gives, and
for as long as it has room a run with less takes it too. -/
theorem exists_account_from_start (visits : Visits settings tree count machine) :
    ∃ layout path link, Account (Visits settings tree) count layout path link ∧
      layout.program = (ProgramHeap.install {} tree).2 ∧ path 0 = (⟨fun _ => .unassigned, [], [], false⟩, 0) := by
  obtain ⟨made, isMade⟩ := make_ok
  obtain ⟨layout, program, leads⟩ := exists_leads tree
  obtain ⟨steps, c', position', bound', course, ends⟩ := exists_course (leads (count + 1))
  obtain ⟨path, start, ticks, last, leaves⟩ := course.exists_path
  obtain ⟨bound, along⟩ := exists_visits ticks
  let wide : Settings := ⟨max settings.heapCapacity (max bound bound'), settings.trace⟩
  have stands : Stands layout.program (path 0).1 (path 0).2 (started (made.configure wide) tree) := by
    rw [start, ← program]
    exact (fresh_of_make isMade).stands wide tree _
  have along := along _ stands ((le_max_left _ _).trans (le_max_right _ _))
  obtain ⟨r, visitsLast, standsLast, capacity⟩ := along steps (Nat.le_refl _)
  have ends := ends r (leaves.stands (last ▸ standsLast))
    (capacity ▸ (le_max_right _ _).trans (le_max_right _ _))
  rw [visits_eq isMade] at visits ⊢
  have wider : settings.heapCapacity ≤ wide.heapCapacity := le_max_left _ _
  obtain ⟨link, _, linked⟩ := (started_twin isMade wider tree).exists_linked visits
  obtain ⟨_, _, _, visitsRight, _⟩ := linked.twin count (Nat.le_refl _)
  have within : count ≤ steps := by
    rcases ends with longer | ⟨ended, _⟩
    · exact Nat.le_of_succ_le longer
    · exact visitsLast.le_of_ended ended visitsRight
  refine ⟨layout, path, link, .of_linked linked rfl (fun i le => ?_) (by rw [start])
    (fun i lt => ticks i (lt.trans_le within)) (fun outside => ?_), program.symm, start⟩
  · obtain ⟨r, visits, stands, _⟩ := along i (le.trans within)
    exact ⟨r, visits, stands⟩
  · rcases Nat.lt_or_eq_of_le within with inside | rfl
    · obtain ⟨_, _, passes⟩ := ticks count inside
      obtain ⟨code, here, _⟩ := passes.marks
      rw [outside] at here
      cases here
    · rcases ends with longer | ⟨_, cleared⟩
      · exact absurd longer (Nat.not_succ_le_self _)
      · exact ⟨c', last ▸ leaves, cleared (last ▸ outside)⟩

/-- Every machine that a run of the evaluator visits has an account of the run
up to it, at every capacity and for every tree. -/
theorem exists_account (visits : Visits settings tree count machine) :
    ∃ layout path link, Account (Visits settings tree) count layout path link := by
  obtain ⟨layout, path, link, account, _⟩ := exists_account_from_start visits
  exact ⟨layout, path, link, account⟩

end ExplicitControl.Evaluator
