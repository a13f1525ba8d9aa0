import ExplicitControl.Proofs.Evaluator.Safety

namespace ExplicitControl

open Relation

namespace PairHeap

/-- The description of one pair goes on with another. That of a function value
does not go on. -/
inductive Opens (heap : PairHeap) (a b : Nat) : Prop
  | head {tail : Pointer} : heap.Holds a (.pair b) tail → Opens heap a b
  | tail {head : Pointer} : heap.Holds a head (.pair b) → head ≠ .string "primitive" →
      head ≠ .string "compound" → Opens heap a b

/-- No pair that the description of an address goes through leads back to
itself. -/
def Unfolds (heap : PairHeap) (a : Nat) : Prop :=
  ∀ b, ReflTransGen heap.Opens a b → ¬ TransGen heap.Opens b b

variable {heap : PairHeap} {a b : Nat}

theorem Opens.lt (opens : heap.Opens a b) : a < heap.free := by
  cases opens with
  | head holds => exact holds.lt
  | tail holds _ _ => exact holds.lt

theorem Unfolds.next (unfolds : heap.Unfolds a) (opens : heap.Opens a b) : heap.Unfolds b :=
  fun c reached => unfolds c (.head opens reached)

/-- What cannot be gone through without end never leads back to itself. -/
theorem unfolds_of_acc (acc : Acc (fun b a => heap.Opens a b) a) : heap.Unfolds a := by
  induction acc with
  | intro a _ ih =>
    intro b reached back
    rcases reached.cases_head with rfl | ⟨c, opens, further⟩
    · obtain ⟨c, opens, further⟩ := TransGen.head'_iff.mp back
      exact ih c opens a further back
    · exact ih c opens b further back

/-- The way that has been gone to a pair: different pairs in use, from each of
which it is come to. -/
structure Way (heap : PairHeap) (path : List Nat) (a : Nat) : Prop where
  nodup : path.Nodup
  lt : ∀ b ∈ path, b < heap.free
  leads : ∀ b ∈ path, TransGen heap.Opens b a

variable {path : List Nat}

theorem Way.not_mem (way : heap.Way path a) (unfolds : heap.Unfolds a) : a ∉ path :=
  fun member => unfolds a .refl (way.leads a member)

theorem Way.next (way : heap.Way path a) (unfolds : heap.Unfolds a) (opens : heap.Opens a b) :
    heap.Way (a :: path) b where
  nodup := List.nodup_cons.mpr ⟨way.not_mem unfolds, way.nodup⟩
  lt := List.forall_mem_cons.mpr ⟨opens.lt, way.lt⟩
  leads := List.forall_mem_cons.mpr ⟨.single opens, fun c member => (way.leads c member).tail opens⟩

/-- No way is longer than there are pairs, since the pairs on it are all
different. -/
theorem Way.length_lt (way : heap.Way path a) (unfolds : heap.Unfolds a) (inUse : a < heap.free) :
    path.length < heap.free := by
  have nodup : (a :: path).Nodup := List.nodup_cons.mpr ⟨way.not_mem unfolds, way.nodup⟩
  have lt : ∀ b ∈ a :: path, b < heap.free := List.forall_mem_cons.mpr ⟨inUse, way.lt⟩
  have subset : a :: path ⊆ List.range heap.free := fun b member => List.mem_range.mpr (lt b member)
  have length := (nodup.subperm subset).length_le
  rwa [List.length_cons, List.length_range] at length

/-- What is not a pair is described in no steps. -/
theorem describeFuel_flat {p : Pointer} (flat : ∀ a, p ≠ .pair a) (few many : Nat) :
    heap.describeFuel many p = heap.describeFuel few p := by
  cases p with
  | pair a => exact absurd rfl (flat a)
  | program a => cases few <;> cases many <;> rfl
  | scalar value => cases value <;> cases few <;> cases many <;> rfl

/-- Descriptions agree where those agree that they go on with. -/
theorem describeFuel_congr {few many : Nat}
    (same : ∀ b, heap.Opens a b → heap.describeFuel many (.pair b) = heap.describeFuel few (.pair b)) :
    heap.describeFuel (many + 1) (.pair a) = heap.describeFuel (few + 1) (.pair a) := by
  simp only [describeFuel]
  cases isHead : heap.head a with
  | error cause => rfl
  | ok head =>
    obtain ⟨tail, holds⟩ := head_eq_ok_iff.mp isHead
    rw [holds.tail_eq]
    dsimp only
    split
    · rfl
    · rfl
    · rename_i notPrimitive notCompound
      have first : heap.describeFuel many head = heap.describeFuel few head := by
        cases head with
        | pair b => exact same b (.head holds)
        | _ => exact describeFuel_flat (by simp) few many
      have second : heap.describeFuel many tail = heap.describeFuel few tail := by
        cases tail with
        | pair b => exact same b (.tail holds notPrimitive notCompound)
        | _ => exact describeFuel_flat (by simp) few many
      rw [first, second]

/-- As many steps as there are pairs off the way are enough for a description:
more of them change nothing. -/
theorem Way.describeFuel_eq {few many : Nat} (le : few ≤ many) (enough : heap.free ≤ path.length + few)
    (unfolds : heap.Unfolds a) (way : heap.Way path a) :
    heap.describeFuel many (.pair a) = heap.describeFuel few (.pair a) := by
  induction few generalizing many a path with
  | zero =>
    -- the way has been through all pairs, so this one is not there
    have unused : ¬ a < heap.free := fun inUse => absurd (way.length_lt unfolds inUse) (by omega)
    cases many with
    | zero => rfl
    | succ many =>
      cases isHead : heap.head a with
      | error cause => simp only [describeFuel, isHead]
      | ok head =>
        obtain ⟨_, holds⟩ := head_eq_ok_iff.mp isHead
        exact absurd holds.lt unused
  | succ few ih =>
    obtain ⟨many, rfl⟩ := Nat.exists_eq_add_of_le' (Nat.succ_le_of_lt (Nat.lt_of_lt_of_le few.succ_pos le))
    refine describeFuel_congr fun b opens =>
      ih (Nat.le_of_succ_le_succ le) ?_ (unfolds.next opens) (way.next unfolds opens)
    rw [List.length_cons]
    omega

/-- Pairs that do not lead back to themselves are described whole, within as
many steps as there are pairs. -/
theorem Unfolds.describeFuel_eq (unfolds : heap.Unfolds a) {enough : Nat} (le : heap.free ≤ enough) :
    heap.describeFuel enough (.pair a) = heap.describe (.pair a) :=
  Way.describeFuel_eq le (Nat.le_add_left _ _) unfolds ⟨List.nodup_nil, nofun, nofun⟩

end PairHeap

/-- The number of return values around what is none. -/
def Interpreter.Value.layers : Interpreter.Value → Nat
  | .returned _ content => content.layers + 1
  | _ => 0

namespace Evaluator

open Interpreter PairHeap

variable {layout : Layout} {π : Picture} {store : Store} {heap : PairHeap} {value : Value} {a b : Nat}

/-- From a pair that stands for a value a description goes on with a return
value's content only, and never from a function. -/
theorem Picture.Depicts.opens (depicts : π.Depicts layout value (.pair a))
    (fits : π.Fits layout store heap.Holds) (opens : heap.Opens a b) :
    ∃ content, π.Depicts layout content (.pair b) ∧ content.layers < value.layers := by
  -- a text is at the head of every function value and return value: only the tail is gone on with
  have tag : ∃ tag p, heap.Holds a (.string tag) p ∧
      (tag ≠ "primitive" → tag ≠ "compound" → p = .pair b →
        ∃ content, π.Depicts layout content (.pair b) ∧ content.layers < value.layers) := by
    cases depicts with
    | builtin thing holds => exact ⟨_, _, fits.holds _ _ _ holds, fun other => absurd rfl other⟩
    | closure thing holds _ _ _ _ _ _ => exact ⟨_, _, fits.holds _ _ _ holds, fun _ other => absurd rfl other⟩
    | returned thing holds inner =>
      refine ⟨_, _, fits.holds _ _ _ holds, ?_⟩
      rintro _ _ rfl
      exact ⟨_, inner, Nat.lt_succ_self _⟩
  obtain ⟨tag, p, holds, goes⟩ := tag
  cases opens with
  | head opened => cases (holds.unique opened).1
  | tail opened notPrimitive notCompound =>
    obtain ⟨rfl, rfl⟩ := holds.unique opened
    exact goes (fun same => notPrimitive (same ▸ rfl)) (fun same => notCompound (same ▸ rfl)) rfl

theorem Picture.Depicts.acc (depicts : π.Depicts layout value (.pair a)) (fits : π.Fits layout store heap.Holds) :
    Acc (fun b a => heap.Opens a b) a := by
  induction layers : value.layers using Nat.strong_induction_on generalizing value a with
  | h n ih =>
    refine ⟨a, fun b opens => ?_⟩
    obtain ⟨content, inner, fewer⟩ := depicts.opens fits opens
    exact ih _ (layers ▸ fewer) inner rfl

/-- The description of a result ends, although it is found by following pairs
with nothing kept of those already met and environments may lead back to
themselves. None of the pairs that it goes through leads back to itself, and
it is the same however far pairs may be followed beyond their number. -/
theorem describe_ends {settings : Settings} {tree : Tree} {steps : Nat} {made final : Machine} {p : Pointer}
    (isMade : machine settings = .ok made) (ran : run steps made tree = (.done p, final)) :
    (∀ a, p = .pair a → final.memory.heap.Unfolds a) ∧
      ∀ enough, final.memory.heap.free ≤ enough →
        final.memory.heap.describeFuel enough p = final.memory.heap.describe p := by
  obtain ⟨blank, isBlank⟩ := make_ok
  obtain ⟨layout, agrees⟩ := exists_agrees isBlank tree
  rw [machine_eq isBlank] at isMade
  cases isMade
  have settled : (run steps (blank.configure settings) tree).1.Settled := by
    rw [ran]
    trivial
  have agreed := agrees settings steps settled
  rw [ran] at agreed
  generalize Interpreter.run steps tree = result at agreed
  cases agreed with
  | value fits depicts =>
    cases p with
    | pair a =>
      have unfolds := unfolds_of_acc (depicts.acc fits)
      exact ⟨fun b same => Pointer.pair.inj same ▸ unfolds, fun enough le => unfolds.describeFuel_eq le⟩
    | _ => exact ⟨nofun, fun enough _ => describeFuel_flat (by simp) _ _⟩

/-- Whether a run has ended with a pair. -/
def givesPair : Outcome Pointer → Bool
  | .done (.pair _) => true
  | _ => false

theorem eq_of_givesPair {outcome : Outcome Pointer} (gives : givesPair outcome = true) :
    ∃ a, outcome = .done (.pair a) := by
  unfold givesPair at gives
  split at gives
  · exact ⟨_, rfl⟩
  · cases gives

/-- What is returned here, and returned again, is a function that is found in
its own environment. -/
theorem describe_recursive_ends :
    let program := Tree.sequence [.functionDeclaration "f" [] (.returnStatement (.name "f")),
      .returnStatement (.returnStatement (.name "f"))]
    ∃ made final a, machine ⟨100, false⟩ = .ok made ∧ run 200 made program = (.done (.pair a), final) ∧
      final.memory.heap.Unfolds a ∧ ∀ enough, final.memory.heap.free ≤ enough →
        final.memory.heap.describeFuel enough (.pair a) = final.memory.heap.describe (.pair a) := by
  intro program
  have gives : givesPair (run 200 (pristine.configure ⟨100, false⟩) program).1 = true := by decide +kernel
  rcases ran : run 200 (pristine.configure ⟨100, false⟩) program with ⟨outcome, final⟩
  rw [ran] at gives
  obtain ⟨a, rfl⟩ := eq_of_givesPair gives
  obtain ⟨unfolds, stays⟩ := describe_ends (machine_pristine _) ran
  exact ⟨_, _, a, machine_pristine _, ran, unfolds a rfl, stays⟩

end Evaluator

end ExplicitControl
