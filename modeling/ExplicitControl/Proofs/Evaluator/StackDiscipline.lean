import ExplicitControl.Proofs.Evaluator.Account
import ExplicitControl.Proofs.Evaluator.Safety

namespace ExplicitControl

/-- The stack of a machine, its top first. -/
def Machine.saved (machine : Machine) : List Contents :=
  machine.memory.stack.items.toList.reverse

/-- A machine is about to carry out an instruction. -/
def Machine.Faces (machine : Machine) (code : Code) : Prop :=
  ∃ instruction, machine.current? = some instruction ∧ instruction.code = code

namespace Evaluator

open Machine (Lineage)

/-- Where a label of the evaluator stands. -/
def labelPosition? (name : String) : Option Nat :=
  match labelsFrom 0 [] controller with
  | .ok labels => labels.lookup name
  | .error _ => none

theorem labelPosition_evalDispatch : labelPosition? "eval_dispatch" = some Label.evalDispatch.position := by
  decide +kernel

/-- A machine is about to evaluate an expression. -/
def Entering (machine : Machine) : Prop :=
  labelPosition? "eval_dispatch" = some machine.position

theorem entering_iff {machine : Machine} : Entering machine ↔ machine.position = Label.evalDispatch.position := by
  rw [Entering, labelPosition_evalDispatch, Option.some.injEq, eq_comm]

/-- The same contents at one time and at another, wherever the pairs have been
moved in between. -/
abbrev Relocated (visits : Nat → Machine → Prop) (i j : Nat) : List Contents → List Contents → Prop :=
  List.Forall₂ (Contents.Matches fun a b => Lineage visits i a j b)

/-- From one time on, up to another, given contents of that time are the lowest
on the stack. -/
def Unreleased (visits : Nat → Machine → Prop) (i : Nat) (contents : List Contents) (j : Nat) : Prop :=
  ∀ k machine, i < k → k ≤ j → visits k machine →
    ∃ lowest, lowest <:+ machine.saved ∧ Relocated visits i k contents lowest

/-- The evaluation that a machine was about to enter has come to where it was to
go on, and the stack is as it was. -/
structure Completes (visits : Nat → Machine → Prop) (i : Nat) (entering : Machine) (label k : Nat) : Prop where
  lt : i < k
  unreleased : Unreleased visits i entering.saved k
  returned : ∃ machine, visits k machine ∧ machine.position = label ∧
    Relocated visits i k entering.saved machine.saved

/-- How the stack is used in the evaluation of a program. -/
structure StackDiscipline (settings : Settings) (tree : Tree) : Prop where
  /-- What is restored was saved from the same register, and not released in
  the meantime. -/
  restores : ∀ j machine register, Visits settings tree j machine → machine.Faces (.restore register) →
    ∃ i saving, i < j ∧ Visits settings tree i saving ∧ saving.Faces (.save register) ∧
      Unreleased (Visits settings tree) i (saving.memory.contents register :: saving.saved) j ∧
      Relocated (Visits settings tree) i j (saving.memory.contents register :: saving.saved) machine.saved
  /-- An evaluation is left at the label that it was entered with, with the
  stack as it was; until then that is never touched. -/
  evaluations : ∀ i j entering machine, Visits settings tree i entering → Entering entering → i < j →
    Visits settings tree j machine →
    ∃ label, entering.memory.contents Listing.cont = .label label ∧
      (Unreleased (Visits settings tree) i entering.saved j ∨
        ∃ k ≤ j, Completes (Visits settings tree) i entering label k)
  /-- Nothing is ever restored from an empty stack. -/
  underflow : ∀ fuel register, evaluate fuel settings tree ≠ .failed (.machine (.stackUnderflow register))
  /-- A run that succeeds leaves the stack empty, and has completed every
  evaluation. -/
  success : ∀ fuel made value final, machine settings = .ok made → run fuel made tree = (.done value, final) →
    final.saved = [] ∧ ∀ i entering, Visits settings tree i entering → Entering entering →
      ∃ label k, entering.memory.contents Listing.cont = .label label ∧
        Completes (Visits settings tree) i entering label k

theorem Marks.of_saved {c : Config} {code : Code} {register : Nat} {value : Contents}
    (marks : Marks c code (.saved register value :: c.trail)) :
    code = .save register ∧ c.registers register = value := by
  generalize same : Mark.saved register value :: c.trail = trail at marks
  cases marks with
  | enter _ => cases same
  | save index =>
    cases same
    exact ⟨rfl, rfl⟩
  | restore popped =>
    have longer := congrArg List.length popped
    simp only [← same, List.length_cons] at longer
    omega
  | plain _ => exact absurd same (List.cons_ne_self _ _)

theorem Marks.of_restore {c : Config} {register : Nat} {trail : List Mark}
    (marks : Marks c (.restore register) trail) : ∃ value, c.trail = .saved register value :: trail := by
  cases marks with
  | restore popped => exact ⟨_, popped⟩
  | plain plain => exact plain.elim

theorem Marks.of_enter {c : Config} {trail : List Mark}
    (marks : Marks c (put Listing.e .expressionKind [Listing.exp]) trail) :
    ∃ label exp env, c.registers Listing.cont = .label label ∧ trail = .entered label exp env :: c.trail := by
  cases marks with
  | enter cont => exact ⟨_, _, _, cont, rfl⟩
  | plain plain => exact absurd rfl plain

section

variable {layout : Layout} {path : Nat → Config × Nat} {register i j label : Nat} {value : Contents}
  {below : List Mark}

/-- What was saved is what the register held, on top of the rest. -/
theorem Marking.of_saved (marking : Marking layout path (.saved register value) below i j) :
    listing[(path i).2]? = some (.save register) ∧ (path i).1.registers register = value ∧
      (path i).1.stack = below.filterMap Mark.value? := by
  obtain ⟨c, leaves, rfl, passes⟩ := marking.left
  obtain ⟨code, here, marks⟩ := passes.marks
  rw [marking.held] at marks
  obtain ⟨rfl, held⟩ := marks.of_saved
  exact ⟨here, leaves.registers_eq ▸ held, leaves.stack_eq⟩

set_option maxRecDepth 4000 in
/-- Where the form of an expression is asked for, it is entered. -/
theorem Ticks.entered (ticks : Ticks layout (path i) (path (i + 1)))
    (here : (path i).2 = Label.evalDispatch.position) :
    ∃ label exp env below, (path i).1.registers Listing.cont = .label label ∧
      (path (i + 1)).1.trail = .entered label exp env :: below ∧
      (path i).1.stack = below.filterMap Mark.value? := by
  obtain ⟨c, leaves, passes⟩ := ticks
  obtain ⟨code, found, marks⟩ := passes.marks
  have isEnter : code = put Listing.e .expressionKind [Listing.exp] := by
    rw [here] at found
    exact (Option.some.inj found).symm
  rw [isEnter] at marks
  obtain ⟨label, exp, env, cont, pushed⟩ := marks.of_enter
  exact ⟨label, exp, env, c.trail, leaves.registers_eq ▸ cont, pushed, leaves.stack_eq⟩

theorem Stays.stack_suffix {mark : Mark} (stays : Stays path mark below i j) {k : Nat} (after : i < k)
    (upTo : k ≤ j) : (mark :: below).filterMap Mark.value? <:+ (path k).1.stack :=
  (stays k after upTo).filterMap _

end

theorem Mirrors.faces_iff {link : Nat → Nat → Prop} {c : Config} {position : Nat} {machine : Machine}
    (mirrors : Mirrors link c position machine) {code : Code} :
    machine.Faces code ↔ listing[position]? = some code := by
  rw [← mirrors.code, ← mirrors.position, List.getElem?_map, Array.getElem?_toList, Option.map_eq_some_iff]
  rfl

namespace Account

variable {visits : Nat → Machine → Prop} {count : Nat} {layout : Layout} {path : Nat → Config × Nat}
  {link : Nat → Nat → Nat → Prop} {i j : Nat} {one other : Machine} {xs zs : List Contents}
  (account : Account visits count layout path link)
include account

/-- Whatever stands for the same at two times is the same. -/
theorem relocates (le : i ≤ j) (inside : j ≤ count) (here : visits i one) {x y z : Contents}
    (first : x.Matches (link i) z) (later : y.Matches (link j) z) :
    x.Matches (fun a b => Lineage visits i a j b) y := by
  cases first with
  | unassigned => cases later; exact .unassigned
  | label position => cases later; exact .label position
  | pointer first =>
    cases later with | pointer later => ?_
    cases first with
    | scalar value => cases later; exact .pointer (.scalar value)
    | program address => cases later; exact .pointer (.program address)
    | @pair a w related =>
      cases later with | @pair b _ related' => ?_
      have mirrors := account.mirrors i (le.trans inside) one here
      obtain ⟨_, _, _, _, _, found, _⟩ := mirrors.pairs a w related
      obtain ⟨a', related', lineage⟩ :=
        account.back i j b w le inside (List.getElem?_eq_some_iff.mp found).1 related'
      rw [mirrors.unique.1 related related']
      exact .pointer (.pair lineage)

theorem relocated (le : i ≤ j) (inside : j ≤ count) (here : visits i one) {ys : List Contents}
    (first : List.Forall₂ (Contents.Matches (link i)) xs zs)
    (later : List.Forall₂ (Contents.Matches (link j)) ys zs) : Relocated visits i j xs ys := by
  induction first generalizing ys with
  | nil => cases later; exact .nil
  | cons head _ ih =>
    cases later with
    | cons head' tail' => exact .cons (account.relocates le inside here head head') (ih tail')

/-- What stays on the stack of a path stays on those of its machines. -/
theorem unreleased (inside : j ≤ count) (here : visits i one)
    (first : List.Forall₂ (Contents.Matches (link i)) xs zs)
    (stays : ∀ k, i < k → k ≤ j → zs <:+ (path k).1.stack) : Unreleased visits i xs j := by
  intro k machine after upTo there
  obtain ⟨above, split⟩ := stays k after upTo
  have stack := (account.mirrors k (upTo.trans inside) machine there).stack
  rw [← split] at stack
  exact ⟨_, List.drop_suffix _ _,
    account.relocated after.le (upTo.trans inside) here first (List.forall₂_drop_append _ _ _ stack)⟩

/-- A register is restored to what was saved from it and not released. -/
theorem restores {register : Nat} {machine : Machine} (before : j < count) (here : visits j machine)
    (faces : machine.Faces (.restore register)) :
    ∃ i saving, i < j ∧ visits i saving ∧ saving.Faces (.save register) ∧
      Unreleased visits i (saving.memory.contents register :: saving.saved) j ∧
      Relocated visits i j (saving.memory.contents register :: saving.saved) machine.saved := by
  have mirrors := account.mirrors j before.le machine here
  obtain ⟨c, leaves, passes⟩ := account.ticks j before
  obtain ⟨code, found, marks⟩ := passes.marks
  obtain rfl := Option.some.inj (found.symm.trans (mirrors.faces_iff.mp faces))
  obtain ⟨value, top⟩ := marks.of_restore
  obtain ⟨dropped, split, _⟩ := leaves.trail_eq
  rw [top] at split
  obtain ⟨i, marking⟩ := exists_marking account.ticks account.first before.le split
  obtain ⟨isSave, held, stack⟩ := marking.of_saved
  have earlier : i ≤ count := (marking.lt.trans before).le
  obtain ⟨saving, there⟩ := account.visited i earlier
  have mirrors' := account.mirrors i earlier saving there
  have first : List.Forall₂ (Contents.Matches (link i)) (saving.memory.contents register :: saving.saved)
      (value :: (path i).1.stack) := .cons (held ▸ mirrors'.registers register) mirrors'.stack
  refine ⟨i, saving, marking.lt, there, mirrors'.faces_iff.mpr isSave, ?_, ?_⟩
  · refine account.unreleased before.le there first fun k after upTo => ?_
    rw [stack]
    exact marking.stays.stack_suffix after upTo
  · refine account.relocated marking.lt.le before.le there first ?_
    have now := mirrors.stack
    rw [leaves.stack_eq, Config.stack, top] at now
    rw [stack]
    exact now

/-- An evaluation that was entered goes on above what was on the stack, or has
come to where it was to go on. -/
theorem evaluates {entering : Machine} (here : visits i entering)
    (enters : entering.position = Label.evalDispatch.position) (after : i < j) (inside : j ≤ count) :
    ∃ label exp env below, entering.memory.contents Listing.cont = .label label ∧
      List.Forall₂ (Contents.Matches (link i)) entering.saved (below.filterMap Mark.value?) ∧
      (Stays path (.entered label exp env) below i j ∨ ∃ k ≤ j, Completes visits i entering label k) := by
  have mirrors := account.mirrors i (after.le.trans inside) entering here
  obtain ⟨label, exp, env, below, cont, entered, stack⟩ :=
    (account.ticks i (after.trans_le inside)).entered (mirrors.position.symm.trans enters)
  have first := mirrors.stack
  rw [stack] at first
  have held := mirrors.registers Listing.cont
  rw [cont] at held
  refine ⟨label, exp, env, below, ?_, first, ?_⟩
  · generalize entering.memory.contents Listing.cont = contents at held
    cases held
    rfl
  · have ticks (k : Nat) (before : k < j) := account.ticks k (before.trans_le inside)
    refine (stays_or_left ticks entered after (Nat.le_refl j)).imp_right ?_
    rintro ⟨k, later, before, position, left, stays⟩
    have inside' : k ≤ count := before.le.trans inside
    obtain ⟨machine, there⟩ := account.visited k inside'
    have mirrors' := account.mirrors k inside' machine there
    refine ⟨k, before.le, later, ?_, machine, there, mirrors'.position.trans position, ?_⟩
    · exact account.unreleased inside' here first fun k' later' upTo => stays.stack_suffix later' upTo
    · exact account.relocated later.le inside' here first (left ▸ mirrors'.stack)

end Account

variable {settings : Settings} {tree : Tree}

/-- An underflow would be no mistake that the interpreter can find, and no
want of room either. -/
theorem evaluate_never_underflows (settings : Settings) (tree : Tree) (fuel : Nat) (register : String) :
    evaluate fuel settings tree ≠ .failed (.machine (.stackUnderflow register)) := by
  intro failed
  obtain ⟨m, store, locate, _, shown⟩ := exists_mistake_of_failed failed id
  cases shown

theorem exists_visits_of_restore {j register : Nat} {machine : Machine} (visits : Visits settings tree j machine)
    (faces : machine.Faces (.restore register)) : ∃ next, Visits settings tree (j + 1) next := by
  obtain ⟨made, isMade⟩ := make_ok
  obtain ⟨instruction, found, isRestore⟩ := faces
  rw [visits_eq isMade] at visits ⊢
  cases stepped : machine.step instruction with
  | ok value next => exact ⟨next, visits.step found stepped⟩
  | error cause failed =>
    obtain ⟨name, rfl⟩ := Machine.underflows_of_error isRestore stepped
    refine absurd ?_ (evaluate_never_underflows settings tree (j + 1) name)
    have ended : (started (made.configure settings) tree).runFuel (j + 1)
        = (.failed (.machine (.stackUnderflow name)), failed) := by
      rw [visits.runFuel_add]
      simp only [Machine.runFuel, found, stepped]
    rw [evaluate, machine_eq isMade]
    change (run (j + 1) (made.configure settings) tree).1 = _
    rw [run_eq_start isMade]
    exact congrArg (fun ended => (answer ended).1) ended

/-- Where a run succeeds it has come behind the last instruction. -/
theorem exists_visits_of_success {fuel : Nat} {made final : Machine} {value : Pointer}
    (isMade : machine settings = .ok made) (done : run fuel made tree = (.done value, final)) :
    ∃ count last, Visits settings tree count last ∧ last.current? = none ∧ final.saved = last.saved ∧
      ∀ i earlier, Visits settings tree i earlier → i < count ∨ earlier = last := by
  obtain ⟨blank, isBlank⟩ := make_ok
  rw [machine_eq isBlank] at isMade
  cases isMade
  rw [run_eq_start isBlank] at done
  rw [visits_eq isBlank]
  obtain ⟨count, last, event, visits, outside, rfl⟩ := Machine.exists_visits_of_done (eq_done_of_answer done)
  refine ⟨count, last, visits, outside, rfl, fun i earlier there => ?_⟩
  have ended : (last.runFuel 1).1 ≠ .unfinished := by simp [Machine.runFuel, outside]
  rcases Nat.lt_or_eq_of_le (visits.le_of_ended ended there) with before | rfl
  · exact .inl before
  · exact .inr (there.unique visits)

/-- At the end of a run every evaluation has come to where it was to go on. -/
theorem Account.completes {count : Nat} {layout : Layout} {path : Nat → Config × Nat}
    {link : Nat → Nat → Nat → Prop} {visits : Nat → Machine → Prop}
    (account : Account visits count layout path link) {last : Machine} (there : visits count last)
    (outside : listing[last.position]? = none) :
    last.saved = [] ∧ ∀ i entering, visits i entering → entering.position = Label.evalDispatch.position →
      i < count →
        ∃ label k, entering.memory.contents Listing.cont = .label label ∧ Completes visits i entering label k := by
  have mirrors := account.mirrors count (Nat.le_refl _) last there
  rw [mirrors.position] at outside
  obtain ⟨c, leaves, cleared⟩ := account.last outside
  obtain ⟨dropped, split, entered⟩ := leaves.trail_eq
  rw [cleared, List.append_nil] at split
  have nothing {trail : List Mark} (suffix : trail <:+ (path count).1.trail) :
      trail.filterMap Mark.value? = [] := by
    refine List.filterMap_eq_nil_iff.mpr fun mark member => ?_
    obtain ⟨_, _, rfl⟩ := entered mark (split ▸ suffix.subset member)
    rfl
  have empty : last.saved = [] := by
    have stack := mirrors.stack
    rw [Config.stack, nothing (List.suffix_refl _)] at stack
    exact List.forall₂_nil_right_iff.mp stack
  refine ⟨empty, fun i entering here enters before => ?_⟩
  obtain ⟨label, exp, env, below, cont, first, stays | ⟨k, _, completes⟩⟩ :=
    account.evaluates here enters before (Nat.le_refl count)
  · have onTrail := stays count before (Nat.le_refl count)
    obtain ⟨_, _, isLabel⟩ := entered (.entered label exp env) (split ▸ onTrail.subset List.mem_cons_self)
    injection isLabel with isLabel
    refine ⟨label, count, cont, before, ?_, last, there, mirrors.position.trans isLabel.symm, ?_⟩
    · exact account.unreleased (Nat.le_refl count) here first fun k => stays.stack_suffix
    · rw [nothing ((List.suffix_cons _ below).trans onTrail)] at first
      rw [empty, List.forall₂_nil_right_iff.mp first]
      exact .nil
  · exact ⟨label, k, cont, completes⟩

/-- Every program is evaluated with its stack in order. What a register is
restored to was saved from that register and not released since, every
evaluation gives the stack back as it was when it was entered, nothing is ever
taken from an empty stack, and a run that succeeds leaves it empty. -/
theorem stack_discipline (settings : Settings) (tree : Tree) : StackDiscipline settings tree where
  restores := by
    intro j machine register visits faces
    obtain ⟨next, further⟩ := exists_visits_of_restore visits faces
    obtain ⟨layout, path, link, account⟩ := exists_account further
    exact account.restores (Nat.lt_succ_self j) visits faces
  evaluations := by
    intro i j entering machine visits enters after further
    obtain ⟨layout, path, link, account⟩ := exists_account further
    obtain ⟨label, exp, env, below, cont, first, stays | completes⟩ :=
      account.evaluates visits (entering_iff.mp enters) after (Nat.le_refl j)
    · exact ⟨label, cont, .inl (account.unreleased (Nat.le_refl j) visits first fun k => stays.stack_suffix)⟩
    · exact ⟨label, cont, .inr completes⟩
  underflow := evaluate_never_underflows settings tree
  success := by
    intro fuel made value final isMade done
    obtain ⟨count, last, further, outside, same, earlier⟩ := exists_visits_of_success isMade done
    obtain ⟨layout, path, link, account⟩ := exists_account further
    have outside : listing[last.position]? = none := by
      have mirrors := account.mirrors count (Nat.le_refl _) last further
      rw [← mirrors.code, List.getElem?_map, Array.getElem?_toList, Option.map_eq_none_iff]
      exact outside
    obtain ⟨empty, completes⟩ := account.completes further outside
    refine ⟨same.trans empty, fun i entering visits enters => ?_⟩
    rcases earlier i entering visits with before | rfl
    · exact completes i entering visits (entering_iff.mp enters) before
    · rw [entering_iff.mp enters] at outside
      cases outside

end Evaluator

end ExplicitControl
