import ExplicitControl.Proofs.Evaluator.Scope

namespace ExplicitControl.Evaluator

open Interpreter

variable {layout : Layout} {w w' : World layout}

/-- The values of arguments, in a list of loose pairs with rising addresses
from a base on. The list is written as it grows, so its pairs must not be part
of anything that a value is shown by. -/
inductive World.Arguments (w : World layout) : Nat → List Value → Pointer → Prop
  | nil (base : Nat) : Arguments w base [] .null
  | cons {base a : Nat} {value : Value} {values : List Value} {p rest : Pointer} :
      base ≤ a → w.Loose a → w.heap[a]? = some (p, rest) → w.picture.Depicts layout value p →
      Arguments w (a + 1) values rest → Arguments w base (value :: values) (.pair a)

namespace World.Arguments

variable {base : Nat} {values : List Value} {p : Pointer}

theorem later (arguments : w.Arguments base values p) (grows : w.Extends w') :
    w'.Arguments base values p := by
  induction arguments with
  | nil base => exact .nil base
  | cons le loose held depicts _ ih =>
    obtain ⟨loose', same⟩ := loose.later grows
    exact .cons le loose' (same.trans held) (depicts.mono grows.picture) ih

theorem length_le (arguments : w.Arguments base values p) : values.length ≤ w.heap.length - base := by
  induction arguments with
  | nil base => exact Nat.zero_le _
  | cons le loose _ _ _ ih =>
    have below := loose.1
    simp only [List.length_cons]
    omega

theorem listItems_eq (arguments : w.Arguments base values p) :
    ∃ ps, List.Forall₂ (w.picture.Depicts layout) values ps ∧
      ∀ memory : Memory, memory.Bears layout.program table w.heap → ∀ start fuel, values.length < fuel →
        listItems memory.head memory.tail start fuel p = .ok ps := by
  induction arguments with
  | nil base =>
    refine ⟨[], .nil, fun memory _ start fuel enough => ?_⟩
    cases fuel with
    | zero => exact absurd enough (Nat.not_lt_zero _)
    | succ fuel => rfl
  | @cons base a value values p rest _ _ held depicts _ ih =>
    obtain ⟨ps, row, read⟩ := ih
    refine ⟨p :: ps, .cons depicts row, fun memory bears start fuel enough => ?_⟩
    cases fuel with
    | zero => exact absurd enough (Nat.not_lt_zero _)
    | succ fuel =>
      have others := read memory bears start fuel (Nat.lt_of_succ_lt_succ enough)
      change (do
        let item ← memory.head (.pair a)
        let rest ← memory.tail (.pair a)
        return item :: (← listItems memory.head memory.tail start fuel rest)) = _
      rw [bears.head_eq held, bears.tail_eq held]
      change (do return p :: (← listItems memory.head memory.tail start fuel rest)) = _
      rw [others]
      rfl

/-- The machine reads off a list what the interpreter has in it, item by item. -/
theorem items_eq (arguments : w.Arguments base values p) :
    ∃ ps, List.Forall₂ (w.picture.Depicts layout) values ps ∧
      ∀ memory : Memory, memory.Bears layout.program table w.heap → memory.items p = .ok ps := by
  obtain ⟨ps, row, read⟩ := arguments.listItems_eq
  refine ⟨ps, row, fun memory bears => read memory bears p _ ?_⟩
  have short := arguments.length_le
  rw [bears.heap.used]
  omega

/-- A list that is not empty has a last pair, and in a later world another
argument goes there. -/
theorem exists_last (arguments : w.Arguments base values p) (grows : w.Extends w') (nonempty : values ≠ []) :
    ∃ last item, ∃ loose : w'.Loose last, base ≤ last ∧ w'.heap[last]? = some (item, .null) ∧
      (∀ memory : Memory, memory.Bears layout.program table w'.heap → ∀ start fuel, values.length ≤ fuel →
        memory.lastPair start fuel p = .ok (.pair last)) ∧
      ∀ new value q, w.heap.length ≤ new → w'.Loose new → w'.heap[new]? = some (q, .null) →
        w'.picture.Depicts layout value q →
        (w'.replace loose item (.pair new)).Arguments base (values ++ [value]) p := by
  induction arguments with
  | nil base => exact absurd rfl nonempty
  | @cons base a value values p rest le loose held depicts arguments ih =>
    obtain ⟨loose', same⟩ := loose.later grows
    have held' := same.trans held
    have depicts' := depicts.mono grows.picture
    cases arguments with
    | nil =>
      refine ⟨a, p, loose', le, held', fun memory bears start fuel enough => ?_, ?_⟩
      · cases fuel with
        | zero => exact absurd enough (Nat.not_lt_zero _)
        | succ fuel =>
          simp only [Memory.lastPair, bears.tail_eq held']
          rfl
      · intro new value' q after looseNew heldNew depictsNew
        have below := loose.1
        have different : a ≠ new := by omega
        have kept : (w'.heap.set a (p, .pair new))[new]? = some (q, .null) := by
          rw [List.getElem?_set_ne different]
          exact heldNew
        exact .cons le (loose'.replaced loose') (List.getElem?_set_self loose'.1) depicts'
          (.cons (by omega) (looseNew.replaced loose') kept depictsNew (.nil _))
    | cons le₂ loose₂ held₂ depicts₂ arguments =>
      obtain ⟨last, item, looseLast, leLast, heldLast, found, grown⟩ := ih (List.cons_ne_nil _ _)
      refine ⟨last, item, looseLast, by omega, heldLast, fun memory bears start fuel enough => ?_, ?_⟩
      · cases fuel with
        | zero => exact absurd enough (Nat.not_lt_zero _)
        | succ fuel =>
          simp only [Memory.lastPair, bears.tail_eq held']
          exact found memory bears start fuel (Nat.le_of_succ_le_succ enough)
      · intro new value' q after looseNew heldNew depictsNew
        have different : last ≠ a := by omega
        have kept := (List.getElem?_set_ne different (a := (item, Pointer.pair new))).trans held'
        exact .cons le (loose'.replaced looseLast) kept depicts'
          (grown new value' q after looseNew heldNew depictsNew)

end World.Arguments

/-- Another argument at the end of a list. Pairs from before the list began
stay as they are. -/
theorem adjoinArgument_yields {w₀ : World layout} {values : List Value} {value : Value} {p q : Pointer}
    (before : w₀.Extends w) (arguments : w.Arguments w₀.heap.length values p)
    (depicts : w.picture.Depicts layout value q) :
    ∃ p' w', Yields layout .adjoinArgument [q, p] w.heap p' w'.heap ∧ w₀.Extends w' ∧
      w'.store = w.store ∧ w'.Arguments w₀.heap.length (values ++ [value]) p' := by
  let added := w.add q .null
  have later : w.Extends added := w.add_extends q .null
  have looseNew : added.Loose w.heap.length := w.add_loose q .null
  have heldNew : added.heap[w.heap.length]? = some (q, .null) := w.add_heap q .null
  have length : w.heap.length + 1 ≤ added.heap.length := by simp [added, World.add]
  have allocated : Action.Gives layout.program table (Action.allocReserved q .null) w.heap
      (.pair w.heap.length) added.heap := .allocReserved q .null w.heap
  cases arguments with
  | nil =>
    have yields : Yields layout .adjoinArgument [q, .null] w.heap (.pair w.heap.length) added.heap :=
      .of_run (by simp) (.reserve length (allocated.bind (.pure (Applied.mk _ [q, .null]) _)))
    exact ⟨_, added, yields, before.trans later, rfl,
      .cons before.length looseNew heldNew depicts (.nil _)⟩
  | @cons _ a value₁ values p₁ rest le loose held depicts₁ arguments =>
    have whole : w.Arguments w₀.heap.length (value₁ :: values) (.pair a) :=
      .cons le loose held depicts₁ arguments
    obtain ⟨last, item, looseLast, leLast, heldLast, found, grown⟩ :=
      whole.exists_last later (List.cons_ne_nil _ _)
    have read : Action.Gives layout.program table
        (Action.inspect fun memory => memory.lastPair (.pair a) (memory.heap.free + 1) (.pair a))
        added.heap (.pair last) added.heap := by
      refine .inspect fun memory bears => found memory bears _ _ ?_
      have short := whole.length_le
      rw [bears.heap.used]
      omega
    have linked : Action.Gives layout.program table (Action.setTail (.pair last) (.pair w.heap.length))
        added.heap () (added.replace looseLast item (.pair w.heap.length)).heap := .setTail heldLast _
    have yields : Yields layout .adjoinArgument [q, .pair a] w.heap (.pair a)
        (added.replace looseLast item (.pair w.heap.length)).heap :=
      .of_run (by simp) (.reserve (by simpa [World.replace] using length)
        (allocated.bind (read.bind (linked.bind (.pure (Applied.mk _ [q, .pair a]) _)))))
    exact ⟨_, _, yields, World.replace_extends (before.trans later) looseLast leLast _ _, rfl,
      grown _ value q (Nat.le_refl _) looseNew heldNew depicts⟩

end ExplicitControl.Evaluator
