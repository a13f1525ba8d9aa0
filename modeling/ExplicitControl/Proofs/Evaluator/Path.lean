import ExplicitControl.Proofs.Evaluator.Course
import ExplicitControl.Proofs.Machine.Lineage

namespace ExplicitControl.Evaluator

/-- At a position the expressions are left that were to go on there. -/
inductive Leaves (position : Nat) : Config → Config → Prop
  | refl (c : Config) : Leaves position c c
  | left {r : Nat → Contents} {trail : List Mark} {heap : Cells} {flag : Bool} {exp env : Contents} {c : Config} :
      Leaves position ⟨r, trail, heap, flag⟩ c →
      Leaves position ⟨r, .entered position exp env :: trail, heap, flag⟩ c

/-- One place of a course and the next. -/
def Ticks (layout : Layout) (one next : Config × Nat) : Prop :=
  ∃ c, Leaves one.2 one.1 c ∧ Passes layout c one.2 next.1 next.2

variable {layout : Layout} {steps position position' i j : Nat} {c c' : Config}
  {path : Nat → Config × Nat} {mark : Mark} {above below : List Mark}

namespace Leaves

theorem trail_eq (leaves : Leaves position c c') : ∃ dropped, c.trail = dropped ++ c'.trail ∧
    ∀ mark ∈ dropped, ∃ exp env, mark = .entered position exp env := by
  induction leaves with
  | refl c => exact ⟨[], rfl, by simp⟩
  | @left _ _ _ _ exp env _ _ ih =>
    obtain ⟨dropped, same, entered⟩ := ih
    exact ⟨.entered position exp env :: dropped, congrArg (_ :: ·) same,
      List.forall_mem_cons.mpr ⟨⟨exp, env, rfl⟩, entered⟩⟩

theorem registers_eq (leaves : Leaves position c c') : c.registers = c'.registers := by
  induction leaves with
  | refl c => rfl
  | left _ ih => exact ih

theorem stack_eq (leaves : Leaves position c c') : c.stack = c'.stack := by
  induction leaves with
  | refl c => rfl
  | left _ ih => exact ih

theorem stands {program : ProgramHeap} {machine : Machine} (leaves : Leaves position c c')
    (stands : Stands program c position machine) : Stands program c' position machine := by
  induction leaves with
  | refl c => exact stands
  | left _ ih => exact ih (Stands.unmarked.mp stands)

end Leaves

/-- A row of places with one put before it. -/
def prepend {α : Type} (first : α) (path : Nat → α) : Nat → α
  | 0 => first
  | i + 1 => path i

/-- A course goes through one place after the other, each of which the next
one follows by one instruction. -/
theorem Course.exists_path (course : Course layout steps c position c' position') :
    ∃ path : Nat → Config × Nat, path 0 = (c, position) ∧
      (∀ i < steps, Ticks layout (path i) (path (i + 1))) ∧
      (path steps).2 = position' ∧ Leaves position' (path steps).1 c' := by
  induction course with
  | refl c position => exact ⟨fun _ => (c, position), rfl, by simp, rfl, .refl c⟩
  | @step steps position _ _ c _ _ passes _ ih =>
    obtain ⟨path, first, ticks, last, leaves⟩ := ih
    refine ⟨prepend (c, position) path, rfl, fun i inside => ?_, last, leaves⟩
    cases i with
    | zero =>
      refine ⟨c, .refl c, ?_⟩
      change Passes layout c position (path 0).1 (path 0).2
      rw [first]
      exact passes
    | succ i => exact ticks i (Nat.lt_of_succ_lt_succ inside)
  | @left steps position position' r trail heap flag exp env _ _ ih =>
    obtain ⟨path, first, ticks, last, leaves⟩ := ih
    refine ⟨prepend (⟨r, .entered position exp env :: trail, heap, flag⟩, position) fun i => path (i + 1),
      rfl, fun i inside => ?_, ?_, ?_⟩
    · cases i with
      | zero =>
        obtain ⟨c, leaves, passes⟩ := ticks 0 inside
        rw [first] at leaves passes
        exact ⟨c, .left leaves, passes⟩
      | succ i => exact ticks (i + 1) inside
    · cases steps with
      | zero =>
        rw [← last, first]
        rfl
      | succ steps => exact last
    · cases steps with
      | zero =>
        obtain rfl : position = position' := by rw [← last, first]
        rw [first] at leaves
        exact .left leaves
      | succ steps => exact leaves

/-- With room enough a machine visits every place of a path. -/
theorem exists_visits (ticks : ∀ i < steps, Ticks layout (path i) (path (i + 1))) :
    ∃ bound, ∀ machine, Stands layout.program (path 0).1 (path 0).2 machine →
      bound ≤ machine.memory.heap.capacity → ∀ i ≤ steps, ∃ machine', machine.Visits i machine' ∧
        Stands layout.program (path i).1 (path i).2 machine' ∧
        machine'.memory.heap.capacity = machine.memory.heap.capacity := by
  induction steps with
  | zero =>
    refine ⟨0, fun machine stands _ i le => ?_⟩
    obtain rfl := Nat.le_zero.mp le
    exact ⟨machine, rfl, stands, rfl⟩
  | succ steps ih =>
    obtain ⟨bound, visits⟩ := ih fun i inside => ticks i (Nat.lt_succ_of_lt inside)
    obtain ⟨c, leaves, passes⟩ := ticks steps (Nat.lt_succ_self _)
    obtain ⟨bound', runs⟩ := passes.reaches
    refine ⟨max bound bound', fun machine stands room i le => ?_⟩
    have visits := visits machine stands ((le_max_left _ _).trans room)
    rcases Nat.le_succ_iff.mp le with old | rfl
    · exact visits i old
    · obtain ⟨machine', visits', stands', capacity⟩ := visits steps (Nat.le_refl _)
      obtain ⟨next, standsNext, capacity', same⟩ :=
        runs machine' (leaves.stands stands') (capacity ▸ (le_max_right _ _).trans room)
      refine ⟨next, ?_, standsNext, capacity'.trans capacity⟩
      exact (visits'.runFuel_add 1).trans (same 0)

/-- No instruction takes away an expression that was entered. It is left by
coming to its label, not by an instruction. -/
theorem Passes.keeps_entered {label : Nat} {exp env : Contents}
    (passes : Passes layout c position c' position')
    (held : .entered label exp env :: below <:+ c.trail) : .entered label exp env :: below <:+ c'.trail := by
  obtain ⟨code, _, marks⟩ := passes.marks
  generalize c'.trail = trail at marks
  cases marks with
  | enter _ => exact held.trans (List.suffix_cons _ _)
  | save _ => exact held.trans (List.suffix_cons _ _)
  | restore popped =>
    rw [popped] at held
    rcases List.suffix_cons_iff.mp held with same | further
    · cases same
    · exact further
  | plain _ => exact held

/-- A mark with everything below it is on the trail from one place of a path,
not included, to another. -/
def Stays (path : Nat → Config × Nat) (mark : Mark) (below : List Mark) (i j : Nat) : Prop :=
  ∀ k, i < k → k ≤ j → mark :: below <:+ (path k).1.trail

theorem Stays.next (stays : Stays path mark below i j) (held : mark :: below <:+ (path (j + 1)).1.trail) :
    Stays path mark below i (j + 1) := by
  intro k after upTo
  rcases Nat.le_succ_iff.mp upTo with old | rfl
  · exact stays k after old
  · exact held

theorem Stays.start (held : (path (i + 1)).1.trail = mark :: below) : Stays path mark below i (i + 1) := by
  intro k after upTo
  obtain rfl : k = i + 1 := Nat.le_antisymm upTo after
  exact ⟨[], held.symm⟩

/-- A mark was left by the instruction at one place of a path, and has stayed
up to another. -/
structure Marking (layout : Layout) (path : Nat → Config × Nat) (mark : Mark) (below : List Mark)
    (i j : Nat) : Prop where
  lt : i < j
  left : ∃ c, Leaves (path i).2 (path i).1 c ∧ c.trail = below ∧
    Passes layout c (path i).2 (path (i + 1)).1 (path (i + 1)).2
  held : (path (i + 1)).1.trail = mark :: below
  stays : Stays path mark below i j

section

variable (ticks : ∀ i < steps, Ticks layout (path i) (path (i + 1)))
include ticks

/-- Every mark was left by an instruction and has stayed ever since. What is
on the stack can so be traced to the instruction that saved it. -/
theorem exists_marking (first : (path 0).1.trail = []) (le : j ≤ steps)
    (held : (path j).1.trail = above ++ mark :: below) : ∃ i, Marking layout path mark below i j := by
  induction j generalizing above with
  | zero => rw [first] at held; cases above <;> cases held
  | succ j ih =>
    obtain ⟨c, leaves, passes⟩ := ticks j le
    obtain ⟨dropped, same, _⟩ := leaves.trail_eq
    have earlier {above' : List Mark} (inside : c.trail = above' ++ mark :: below) :
        ∃ i, Marking layout path mark below i (j + 1) := by
      rw [inside, ← List.append_assoc] at same
      obtain ⟨i, marking⟩ := ih (Nat.le_of_succ_le le) same
      exact ⟨i, { marking with
        lt := Nat.lt_succ_of_lt marking.lt
        stays := marking.stays.next ⟨above, held.symm⟩ }⟩
    have pushes {new : Mark} (pushed : (path (j + 1)).1.trail = new :: c.trail) :
        ∃ i, Marking layout path mark below i (j + 1) := by
      rw [held] at pushed
      cases above with
      | nil =>
        obtain ⟨rfl, isBelow⟩ := List.cons.inj pushed
        exact ⟨j, Nat.lt_succ_self j, ⟨c, leaves, isBelow.symm, passes⟩, held, .start held⟩
      | cons _ above => exact earlier (List.cons.inj pushed).2.symm
    obtain ⟨code, _, marks⟩ := passes.marks
    generalize taken : (path (j + 1)).1.trail = trail at marks
    cases marks with
    | enter _ => exact pushes taken
    | save _ => exact pushes taken
    | @restore index value _ popped =>
      rw [← taken, held, ← List.cons_append] at popped
      exact earlier popped
    | plain _ => exact earlier (taken.symm.trans held)

/-- An expression that was entered stays so until the run comes to where it is
to go on, with everything saved since then restored. -/
theorem stays_or_left {label : Nat} {exp env : Contents}
    (entered : (path (i + 1)).1.trail = .entered label exp env :: below) (before : i + 1 ≤ j) (le : j ≤ steps) :
    Stays path (.entered label exp env) below i j ∨
      ∃ k, i < k ∧ k < j ∧ (path k).2 = label ∧ (path k).1.stack = below.filterMap Mark.value? ∧
        Stays path (.entered label exp env) below i k := by
  induction j, before using Nat.le_induction with
  | base => exact .inl (.start entered)
  | succ j before ih =>
    rcases ih (Nat.le_of_succ_le le) with stays | ⟨k, after, upTo, left⟩
    · obtain ⟨above, same⟩ := stays j before (Nat.le_refl j)
      obtain ⟨c, leaves, passes⟩ := ticks j le
      obtain ⟨dropped, split, isEntered⟩ := leaves.trail_eq
      rw [← same] at split
      have kept (a : List Mark) (inside : c.trail = a ++ .entered label exp env :: below) :
          Stays path (.entered label exp env) below i (j + 1) :=
        stays.next (passes.keeps_entered ⟨a, inside.symm⟩)
      rcases List.append_eq_append_iff.mp split with ⟨more, isDropped, rest⟩ | ⟨more, _, rest⟩
      · cases more with
        | nil => exact .inl (kept [] rest.symm)
        | cons top more =>
          -- the mark itself goes, and with it everything that was entered above it
          obtain ⟨rfl, _⟩ := List.cons.inj rest
          rw [isDropped] at isEntered
          obtain ⟨_, _, isMark⟩ := isEntered (.entered label exp env) (by simp)
          have nothing : above.filterMap Mark.value? = [] := by
            refine List.filterMap_eq_nil_iff.mpr fun mark member => ?_
            obtain ⟨_, _, rfl⟩ := isEntered mark (List.mem_append_left _ member)
            rfl
          refine .inr ⟨j, before, Nat.lt_succ_self j, ?_, ?_, stays⟩
          · injection isMark with isLabel
            exact isLabel.symm
          · rw [Config.stack, ← same, List.filterMap_append, nothing]
            rfl
      · exact .inl (kept more rest)
    · exact .inr ⟨k, after, Nat.lt_succ_of_lt upTo, left⟩

end

end ExplicitControl.Evaluator
