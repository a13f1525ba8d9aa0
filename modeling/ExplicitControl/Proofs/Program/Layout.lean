import ExplicitControl.Proofs.Interpreter.Syntax
import ExplicitControl.ProgramHeap
import Mathlib.Algebra.Order.BigOperators.Group.List
import Mathlib.Algebra.Order.Group.Nat
import Mathlib.Data.List.Nodup
import Mathlib.Logic.Encodable.Basic
import Mathlib.Logic.Equiv.List

namespace ExplicitControl

namespace ProgramHeap

/-- A tree lies where a pointer says, its pairs in the cells of a list of
addresses, from the root down and from left to right. -/
inductive Lies (cells : Array (Pointer × Pointer)) : Tree → Pointer → List Nat → Prop
  | atom (value : Scalar) : Lies cells (.atom value) (.scalar value) []
  | pair {head tail : Tree} {h t : Pointer} {a : Nat} {as bs : List Nat} :
      cells[a]? = some (h, t) → Lies cells head h as → Lies cells tail t bs →
      Lies cells (.pair head tail) (.program a) (a :: (as ++ bs))

/-- The tree of a vacancy lies where the vacancy says. -/
def Vacancy.Filled (cells : Array (Pointer × Pointer)) (vacancy : Vacancy) (addresses : List Nat) :
    Prop :=
  Lies cells (.pair vacancy.head vacancy.tail) (.program vacancy.address) addresses

variable {cells : Array (Pointer × Pointer)} {vacancies : List Vacancy}

/-- Placing a tree sets at most one cell aside, at the end, and leaves the
others as they are. Once that cell is filled the tree lies at its pointer. -/
theorem place_cases (tree : Tree) (cells : Array (Pointer × Pointer)) (vacancies : List Vacancy) :
    ∃ new, (place tree cells vacancies).2.2 = new ++ vacancies ∧
      new.map Vacancy.address = List.range' cells.size new.length ∧
      (place tree cells vacancies).2.1.size = cells.size + new.length ∧
      (∀ a < cells.size, (place tree cells vacancies).2.1[a]? = cells[a]?) ∧
      ∀ final lists, List.Forall₂ (Vacancy.Filled final) new lists →
        Lies final tree (place tree cells vacancies).1 lists.flatten := by
  cases tree with
  | atom value =>
    refine ⟨[], rfl, rfl, rfl, fun _ _ => rfl, fun final lists filled => ?_⟩
    cases filled
    exact .atom value
  | pair head tail =>
    refine ⟨[⟨cells.size, head, tail⟩], rfl, rfl, by simp [place], fun a inside => ?_, ?_⟩
    · simp only [place, Array.getElem?_push, if_neg (Nat.ne_of_lt inside)]
    · intro final lists filled
      cases filled with
      | cons first rest =>
        cases rest
        simpa [Vacancy.Filled, place] using first

theorem forall₂_append_left {α β : Type} {r : α → β → Prop} {xs ys : List α} {zs : List β}
    (row : List.Forall₂ r (xs ++ ys) zs) :
    ∃ us vs, zs = us ++ vs ∧ List.Forall₂ r xs us ∧ List.Forall₂ r ys vs := by
  induction xs generalizing zs with
  | nil => exact ⟨[], zs, rfl, .nil, row⟩
  | cons x xs ih =>
    cases row with
    | cons first rest =>
      obtain ⟨us, vs, rfl, one, other⟩ := ih rest
      exact ⟨_ :: us, vs, rfl, .cons first one, other⟩

/-- Every vacancy is filled, in cells of its own that are new but for the one
set aside; all other cells stay as they are. -/
theorem fill_cases (inside : ∀ v ∈ vacancies, v.address < cells.size)
    (nodup : (vacancies.map Vacancy.address).Nodup) :
    cells.size ≤ (fill vacancies cells).size ∧
      (∀ a < cells.size, a ∉ vacancies.map Vacancy.address →
        (fill vacancies cells)[a]? = cells[a]?) ∧
      ∃ lists, List.Forall₂ (Vacancy.Filled (fill vacancies cells)) vacancies lists ∧
        lists.flatten.Nodup ∧
        ∀ a ∈ lists.flatten, a ∈ vacancies.map Vacancy.address ∨ cells.size ≤ a := by
  fun_induction fill vacancies cells with
  | case1 cells => exact ⟨le_rfl, fun _ _ _ => rfl, [], .nil, .nil, by simp⟩
  | case2 address head tail vacancies cells headPointer cells₁ vacancies₁ headPlaced tailPointer cells₂
      vacancies₂ tailPlaced ih =>
    obtain ⟨headNew, headSame, headAddresses, headSize, headKept, headLies⟩ :=
      place_cases head cells vacancies
    rw [headPlaced] at headSame headSize headKept headLies
    obtain ⟨tailNew, tailSame, tailAddresses, tailSize, tailKept, tailLies⟩ :=
      place_cases tail cells₁ vacancies₁
    rw [tailPlaced] at tailSame tailSize tailKept tailLies
    dsimp only at headSame headSize headKept headLies tailSame tailSize tailKept tailLies
    obtain ⟨addressInside, othersInside⟩ := List.forall_mem_cons.mp inside
    obtain ⟨addressNew, othersNodup⟩ := List.nodup_cons.mp nodup
    dsimp only at addressInside addressNew
    have addresses : vacancies₂.map Vacancy.address
        = List.range' cells₁.size tailNew.length
          ++ (List.range' cells.size headNew.length ++ vacancies.map Vacancy.address) := by
      rw [tailSame, headSame, List.map_append, List.map_append, tailAddresses, headAddresses]
    have nextInside : ∀ v ∈ vacancies₂,
        v.address < (cells₂.setIfInBounds address (headPointer, tailPointer)).size := by
      intro v member
      have listed : v.address ∈ vacancies₂.map Vacancy.address := List.mem_map_of_mem member
      rw [addresses] at listed
      simp only [Array.size_setIfInBounds, tailSize, headSize]
      simp only [List.mem_append, List.mem_range', Nat.one_mul] at listed
      rcases listed with ⟨i, bound, same⟩ | ⟨i, bound, same⟩ | old
      · omega
      · omega
      · obtain ⟨w, inOld, same⟩ := List.mem_map.mp old
        have bound := othersInside w inOld
        omega
    have nextNodup : (vacancies₂.map Vacancy.address).Nodup := by
      rw [addresses]
      refine List.Nodup.append List.nodup_range' (List.Nodup.append List.nodup_range' othersNodup ?_) ?_
      · intro a isNew isOld
        obtain ⟨i, bound, same⟩ := List.mem_range'.mp isNew
        obtain ⟨w, inOld, same'⟩ := List.mem_map.mp isOld
        have below := othersInside w inOld
        omega
      · intro a isNew isOld
        obtain ⟨i, bound, same⟩ := List.mem_range'.mp isNew
        rcases List.mem_append.mp isOld with isHead | isOld
        · obtain ⟨j, bound', same'⟩ := List.mem_range'.mp isHead
          omega
        · obtain ⟨w, inOld, same'⟩ := List.mem_map.mp isOld
          have below := othersInside w inOld
          omega
    obtain ⟨size, kept, lists, filled, distinct, origin⟩ := ih nextInside nextNodup
    generalize fill vacancies₂ (cells₂.setIfInBounds address (headPointer, tailPointer)) = final at *
    simp only [Array.size_setIfInBounds, tailSize, headSize] at size kept origin
    have notNext (a : Nat) (below : a < cells.size) (notOld : a ∉ vacancies.map Vacancy.address) :
        a ∉ vacancies₂.map Vacancy.address := by
      rw [addresses]
      simp only [List.mem_append, List.mem_range', Nat.one_mul]
      rintro (⟨i, bound, same⟩ | ⟨i, bound, same⟩ | old)
      · omega
      · omega
      · exact notOld old
    refine ⟨by omega, ?_, ?_⟩
    · intro a below listed
      simp only [List.map_cons, List.mem_cons, not_or] at listed
      rw [kept a (by omega) (notNext a below listed.2), Array.getElem?_setIfInBounds_ne (Ne.symm listed.1),
        tailKept a (by omega), headKept a below]
    · rw [tailSame, headSame] at filled
      obtain ⟨tailLists, rest, rfl, tailFilled, filled⟩ := forall₂_append_left filled
      obtain ⟨headLists, oldLists, rfl, headFilled, oldFilled⟩ := forall₂_append_left filled
      have here : final[address]? = some (headPointer, tailPointer) := by
        rw [kept address (by omega) (notNext address addressInside addressNew)]
        exact Array.getElem?_setIfInBounds_self_of_lt (by omega)
      refine ⟨(address :: (headLists.flatten ++ tailLists.flatten)) :: oldLists,
        .cons (.pair here (headLies _ _ headFilled) (tailLies _ _ tailFilled)) oldFilled, ?_, ?_⟩
      · have fresh : address ∉ (tailLists ++ (headLists ++ oldLists)).flatten := by
          intro member
          rcases origin address member with listed | above
          · exact notNext address addressInside addressNew listed
          · omega
        simp only [List.flatten_append] at distinct fresh
        have permuted : (headLists.flatten ++ tailLists.flatten ++ oldLists.flatten).Perm
            (tailLists.flatten ++ (headLists.flatten ++ oldLists.flatten)) := by
          rw [← List.append_assoc]
          exact List.perm_append_comm.append_right _
        simp only [List.flatten_cons, List.cons_append]
        exact List.nodup_cons.mpr
          ⟨fun member => fresh (permuted.mem_iff.mp member), permuted.nodup_iff.mpr distinct⟩
      · intro a member
        simp only [List.flatten_cons, List.cons_append, List.mem_cons, List.mem_append] at member
        simp only [List.map_cons, List.mem_cons]
        rcases member with same | rest
        · exact .inl (.inl same)
        · have listed : a ∈ (tailLists ++ (headLists ++ oldLists)).flatten := by
            simp only [List.flatten_append, List.mem_append]
            tauto
          rcases origin a listed with next | above
          · rw [addresses] at next
            simp only [List.mem_append, List.mem_range', Nat.one_mul] at next
            rcases next with ⟨i, bound, same⟩ | ⟨i, bound, same⟩ | old
            · exact .inr (by omega)
            · exact .inr (by omega)
            · exact .inl (.inr old)
          · exact .inr (by omega)

/-- An installed tree lies at the root, each of its pairs in a new cell of its
own; the cells that were there stay as they are. -/
theorem install_cases (program : ProgramHeap) (tree : Tree) :
    (∀ a < program.size, (program.install tree).2.cells[a]? = program.cells[a]?) ∧
      ∃ addresses, addresses.Nodup ∧ (∀ a ∈ addresses, program.size ≤ a) ∧
        Lies (program.install tree).2.cells tree (program.install tree).1 addresses := by
  obtain ⟨new, same, newAddresses, size, placeKept, lies⟩ := place_cases tree program.cells []
  have vacant : (place tree program.cells []).2.2 = new := by simpa using same
  have listed (a : Nat) : a ∈ (place tree program.cells []).2.2.map Vacancy.address →
      program.cells.size ≤ a ∧ a < (place tree program.cells []).2.1.size := by
    intro member
    rw [vacant, newAddresses] at member
    obtain ⟨i, bound, same⟩ := List.mem_range'.mp member
    omega
  have nodup : ((place tree program.cells []).2.2.map Vacancy.address).Nodup := by
    rw [vacant, newAddresses]
    exact List.nodup_range'
  obtain ⟨_, fillKept, lists, filled, distinct, origin⟩ :=
    fill_cases (fun v member => (listed _ (List.mem_map_of_mem member)).2) nodup
  refine ⟨fun a below => ?_, lists.flatten, distinct, fun a member => ?_, ?_⟩
  · have fresh : a ∉ (place tree program.cells []).2.2.map Vacancy.address :=
      fun member => absurd (listed a member).1 (Nat.not_le.mpr below)
    exact (fillKept a (Nat.lt_of_lt_of_le below (size ▸ Nat.le_add_right _ _)) fresh).trans (placeKept a below)
  · rcases origin a member with vacantCell | above
    · exact (listed a vacantCell).1
    · exact (Nat.le_add_right program.cells.size new.length).trans (size ▸ above)
  · rw [vacant] at filled
    exact lies _ _ (vacant ▸ filled)

/-- Where a turn leads: to the head or to the tail. -/
def turn (cells : Array (Pointer × Pointer)) (tail : Bool) : Pointer → Pointer
  | .program a =>
    match cells[a]? with
    | some (h, t) => if tail then t else h
    | none => .undefined
  | other => other

/-- The address at a place, found by taking its turns from a root. -/
def addressAt (cells : Array (Pointer × Pointer)) (root : Pointer) (place : List Bool) : Nat :=
  match place.foldr (turn cells) root with
  | .program a => a
  | _ => 0

end ProgramHeap

namespace Interpreter.Node

variable {program : ProgramHeap} {locate locate' : List Bool → Nat}

/-- The pointer of a node, given the addresses of all places. -/
def point (locate : List Bool → Nat) : Node → Pointer
  | .leaf value => .scalar value
  | .pair place _ _ => .program (locate place)

/-- A node and all below it are on the program heap. -/
def Placed (program : ProgramHeap) (locate : List Bool → Nat) : Node → Prop
  | .leaf _ => True
  | .pair place head tail =>
    program.cells[locate place]? = some (head.point locate, tail.point locate) ∧
      head.Placed program locate ∧ tail.Placed program locate

/-- The places of the pairs of a node. -/
def places : Node → List (List Bool)
  | .leaf _ => []
  | .pair place head tail => place :: (head.places ++ tail.places)

theorem point_congr {node : Node} (same : ∀ place ∈ node.places, locate place = locate' place) :
    node.point locate = node.point locate' := by
  cases node with
  | leaf value => rfl
  | pair place head tail => simp only [point, same place (List.mem_cons_self ..)]

theorem Placed.congr {node : Node} (placed : node.Placed program locate)
    (same : ∀ place ∈ node.places, locate place = locate' place) : node.Placed program locate' := by
  induction node with
  | leaf value => trivial
  | pair place head tail headIH tailIH =>
    simp only [places, List.forall_mem_cons, List.forall_mem_append] at same
    obtain ⟨here, headSame, tailSame⟩ := same
    obtain ⟨cell, headPlaced, tailPlaced⟩ := placed
    refine ⟨?_, headIH headPlaced headSame, tailIH tailPlaced tailSame⟩
    rw [← here, ← point_congr headSame, ← point_congr tailSame]
    exact cell

/-- A tree that lies on the program heap is placed by the turns from the root:
from the address of a pair, each turn leads to the address of the part. -/
theorem placed_of_lies {cells : Array (Pointer × Pointer)} {root p : Pointer} {tree : Tree}
    {addresses : List Nat} (rootless : Option Pointer) (lies : ProgramHeap.Lies cells tree p addresses)
    {place : List Bool} (reached : place.foldr (ProgramHeap.turn cells) root = p) :
    (mark place tree).Placed ⟨cells, rootless⟩ (ProgramHeap.addressAt cells root) ∧
      (mark place tree).point (ProgramHeap.addressAt cells root) = p ∧
      (mark place tree).places.map (ProgramHeap.addressAt cells root) = addresses := by
  induction lies generalizing place with
  | atom value => exact ⟨trivial, rfl, rfl⟩
  | @pair head tail h t a as bs cell _ _ headIH tailIH =>
    have headReached : (false :: place).foldr (ProgramHeap.turn cells) root = h := by
      simp only [List.foldr_cons, reached, ProgramHeap.turn, cell]
      rfl
    have tailReached : (true :: place).foldr (ProgramHeap.turn cells) root = t := by
      simp only [List.foldr_cons, reached, ProgramHeap.turn, cell]
      rfl
    have here : ProgramHeap.addressAt cells root place = a := by
      simp only [ProgramHeap.addressAt, reached]
    obtain ⟨headPlaced, headPoint, headPlaces⟩ := headIH headReached
    obtain ⟨tailPlaced, tailPoint, tailPlaces⟩ := tailIH tailReached
    refine ⟨⟨?_, headPlaced, tailPlaced⟩, ?_, ?_⟩
    · rw [here, headPoint, tailPoint]
      exact cell
    · simp only [mark, point, here]
    · simp only [mark, places, List.map_cons, List.map_append, here, headPlaces, tailPlaces]

/-- An installed tree has a one-to-one map of places to addresses that places
it at the root. With it, places of the tree and addresses of the heap can be
taken for one another. -/
theorem exists_locate (program : ProgramHeap) (tree : Tree) :
    ∃ locate : List Bool → Nat, Function.Injective locate ∧
      (mark [] tree).Placed (program.install tree).2 locate ∧
      (mark [] tree).point locate = (program.install tree).1 := by
  obtain ⟨_, addresses, nodup, _, lies⟩ := program.install_cases tree
  have start : ([] : List Bool).foldr (ProgramHeap.turn (program.install tree).2.cells)
      (program.install tree).1 = (program.install tree).1 := rfl
  obtain ⟨placed, pointed, listed⟩ := placed_of_lies (program.install tree).2.root lies start
  generalize ProgramHeap.addressAt _ _ = address at placed pointed listed
  -- places outside the tree get the addresses after all of those in it
  let locate (place : List Bool) : Nat :=
    if place ∈ (mark [] tree).places then address place else addresses.sum + 1 + Encodable.encode place
  have inside : ∀ place ∈ (mark [] tree).places, address place = locate place :=
    fun place member => (if_pos member).symm
  have bound : ∀ place ∈ (mark [] tree).places, address place ≤ addresses.sum := by
    intro place member
    exact List.le_sum_of_mem (listed ▸ List.mem_map_of_mem member)
  refine ⟨locate, ?_, placed.congr inside, (point_congr inside).symm.trans pointed⟩
  intro one other same
  simp only [locate] at same
  split at same <;> rename_i inOne <;> split at same <;> rename_i inOther
  · exact List.inj_on_of_nodup_map (listed.symm ▸ nodup) inOne inOther same
  · have below := bound one inOne
    omega
  · have below := bound other inOther
    omega
  · exact Encodable.encode_injective (by omega)

end Interpreter.Node

end ExplicitControl
