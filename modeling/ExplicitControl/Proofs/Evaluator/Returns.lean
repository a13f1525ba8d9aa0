import ExplicitControl.Proofs.Evaluator.Declarations
import ExplicitControl.Proofs.Evaluator.Reuse

namespace ExplicitControl

namespace PairHeap

/-- A pair with the tag of return values. -/
def IsReturn (heap : PairHeap) (p : Pointer) : Prop :=
  ∃ a content, p = .pair a ∧ heap.Holds a (.string Tag.returnValue.text) content

/-- What is an item of a list, as far as that goes. -/
inductive Item (heap : PairHeap) : Pointer → Pointer → Prop
  | first {a : Nat} {item rest : Pointer} : heap.Holds a item rest → Item heap (.pair a) item
  | later {a : Nat} {first rest item : Pointer} : heap.Holds a first rest → Item heap rest item →
      Item heap (.pair a) item

end PairHeap

namespace Evaluator

open Interpreter (Law)
open Machine (Lineage)
open Listing

/-- A binding of an environment that expressions were evaluated in, wherever it
has been moved. -/
def BindingCell (visits : Nat → Machine → Prop) (i a : Nat) : Prop :=
  ∃ j machine p frames frame names bindings first, visits j machine ∧ machine.memory.contents env = .pointer p ∧
    machine.memory.heap.EnvironmentAt p frames ∧ frame ∈ frames ∧ machine.memory.heap.FrameAt frame names bindings ∧
    .pair first ∈ bindings ∧ Lineage visits j first i a

/-- A return value that a return statement has made, wherever it has been
moved. -/
def ReturnValue (visits : Nat → Machine → Prop) (i a : Nat) : Prop :=
  ∃ j making made first, visits j making ∧ making.Faces (put val .makeReturn [val]) ∧ visits (j + 1) made ∧
    made.memory.contents val = .pointer (.pair first) ∧ Lineage visits (j + 1) first i a

/-- Where return values do not get in the evaluation of a program. -/
structure ReturnDiscipline (settings : Settings) (tree : Tree) : Prop where
  /-- No binding has one as its value. -/
  bindings : ∀ i machine a value flag, Visits settings tree i machine → BindingCell (Visits settings tree) i a →
    machine.memory.heap.Holds a value flag → ¬ machine.memory.heap.IsReturn value
  /-- None is an argument. -/
  arguments : ∀ i machine list item, Visits settings tree i machine →
    machine.memory.contents argl = .pointer list → machine.memory.heap.Item list item →
    ¬ machine.memory.heap.IsReturn item
  /-- Nor is any among arguments that are saved, until they are released. -/
  saved : ∀ i j saving machine list item below, Visits settings tree i saving → saving.Faces (.save argl) → i < j →
    Visits settings tree j machine →
    Unreleased (Visits settings tree) i (saving.memory.contents argl :: saving.saved) j →
    .pointer list :: below <:+ machine.saved → below.length = saving.saved.length →
    machine.memory.heap.Item list item → ¬ machine.memory.heap.IsReturn item
  /-- None is called. -/
  function : ∀ i machine p, Visits settings tree i machine → machine.memory.contents fn = .pointer p →
    ¬ machine.memory.heap.IsReturn p
  /-- None is the content of another. -/
  nested : ∀ i machine a tag content, Visits settings tree i machine → ReturnValue (Visits settings tree) i a →
    machine.memory.heap.Holds a tag content → ¬ machine.memory.heap.IsReturn content
  /-- None is the value of the program. -/
  answer : ∀ fuel made value final, machine settings = .ok made → run fuel made tree = (.done value, final) →
    ¬ final.memory.heap.IsReturn value

section

variable {link : Nat → Nat → Prop} {c : Config} {position : Nat} {machine : Machine} {layout : Layout} {law : Law}
  {census : Census} (mirrors : Mirrors link c position machine) (fits : census.Fits layout law c.heap)
  (strict : law.strict = true)
include mirrors fits strict

/-- A value that is no return value in the census has another tag in the
machine, or none. -/
theorem Mirrors.not_isReturn {p p' : Pointer} (value : census.Value law.strict false p')
    (matched : p.Matches link p') :
    ¬ machine.memory.heap.IsReturn p := by
  rintro ⟨a, content, rfl, holds⟩
  have tagged (tag : Tag) {w : Nat} {role : Role} (same : p' = .pair w) (known : census.Has w role)
      (tags : ∀ head tail, census.Allows layout law role head tail → head = .string tag.text) :
      tag = .returnValue := by
    subst same
    obtain ⟨_, same, related⟩ := matched.exists_pair
    cases same
    obtain ⟨_, _, head, _, holds', _, allowed, headMatched, _⟩ := mirrors.exists_pair fits related known
    rw [tags _ _ allowed] at headMatched
    have same := (holds.unique holds').1.trans headMatched.eq_scalar
    exact (tag_text_inj.mp (Scalar.string.inj (Pointer.scalar.inj same))).symm
  cases value with
  | scalar value => cases matched
  | primitive role =>
    cases tagged .primitive rfl role fun _ _ allowed => by cases allowed; rfl
  | closure role =>
    cases tagged .compound rfl role fun _ _ allowed => by cases allowed; rfl
  | returned role allowed => cases allowed strict

/-- No return value is in a list of arguments. -/
theorem Mirrors.item_not_isReturn {p p' item : Pointer} (arguments : census.Arguments p') (matched : p.Matches link p')
    (isItem : machine.memory.heap.Item p item) : ¬ machine.memory.heap.IsReturn item := by
  induction isItem generalizing p' with
  | first holds =>
    rcases arguments with rfl | ⟨w, rfl, role⟩
    · cases matched
    · obtain ⟨_, same, related⟩ := matched.exists_pair
      cases same
      obtain ⟨_, _, _, _, holds', _, allowed, headMatched, _⟩ := mirrors.exists_pair fits related role
      obtain ⟨rfl, rfl⟩ := holds.unique holds'
      cases allowed with
      | argument value rest => exact mirrors.not_isReturn fits strict value headMatched
  | later holds _ ih =>
    rcases arguments with rfl | ⟨w, rfl, role⟩
    · cases matched
    · obtain ⟨_, same, related⟩ := matched.exists_pair
      cases same
      obtain ⟨_, _, _, _, holds', _, allowed, _, tailMatched⟩ := mirrors.exists_pair fits related role
      obtain ⟨rfl, rfl⟩ := holds.unique holds'
      cases allowed with
      | argument value rest => exact ih rest tailMatched

end

/-- What was saved at one time is what is in its place later, as long as it
has not been released. -/
theorem Unreleased.relocated {visits : Nat → Machine → Prop} {i j : Nat} {contents slot : Contents}
    {rest below : List Contents} {machine : Machine} (unreleased : Unreleased visits i (contents :: rest) j)
    (before : i < j) (here : visits j machine) (suffix : slot :: below <:+ machine.saved)
    (depth : below.length = rest.length) : contents.Matches (fun a b => Lineage visits i a j b) slot := by
  obtain ⟨lowest, lowestSuffix, relocated⟩ := unreleased j machine before le_rfl here
  have same : slot :: below = lowest := by
    have length : (slot :: below).length = lowest.length := by
      rw [← relocated.length_eq, List.length_cons, List.length_cons, depth]
    exact (List.suffix_of_suffix_length_le suffix lowestSuffix length.le).eq_of_length length
  subst same
  cases relocated with
  | cons top _ => exact top

/-- An instruction that makes a return value. -/
def makesReturn : Code → Bool
  | .assign 2 (.application ⟨_, .addressAware .makeReturn, _⟩) => true
  | _ => false

/-- Where a return value has been made it is there. -/
theorem makeReturn_verified : ∀ entry ∈ listing.zipIdx, makesReturn entry.1 = true →
    ∀ st ∈ statesAt (entry.2 + 1), st.registers val = .returned := by
  decide +kernel

/-- What a program leaves at its end is no return value: those that come to
the top level are opened there. -/
theorem done_plain : ∀ st ∈ statesAt Label.done.position, st.registers val = .value .plain := by
  decide +kernel

namespace Recounts

variable {visits : Nat → Machine → Prop} {law : Law} {count : Nat} {layout : Layout} {path : Nat → Config × Nat}
  {link : Nat → Nat → Nat → Prop} {censuses : Nat → Census} {i j a : Nat} {machine : Machine} {p : Pointer}
  (recounts : Recounts visits law count layout path link censuses)
include recounts

/-- A binding of the machine is one of the path. -/
theorem bindingCell (inside : i ≤ count) (cell : BindingCell visits i a) :
    ∃ w f k, link i a w ∧ (censuses i).Has w (.binding f k) := by
  obtain ⟨j, machine, p, frames, frame, names, bindings, first, here, isEnv, environmentAt, isOn, frameAt, listed,
    lineage⟩ := cell
  have later := lineage.le
  have mirrors := recounts.mirrors (later.trans inside) here
  have fits := recounts.fits (later.trans inside)
  have matched := mirrors.registers env
  rw [isEnv] at matched
  rcases recounts.register_env (later.trans inside) with isUnassigned | ⟨f, p', isPointer, environment⟩
  · rw [isUnassigned] at matched
    cases matched
  rw [isPointer] at matched
  cases matched with
  | pointer matched =>
    obtain ⟨frames', numbers, lists, row, _, _⟩ := mirrors.frames fits environment matched
    obtain rfl := environmentAt.lists.unique lists
    obtain ⟨n, _, record, known, frameMatched⟩ := exists_of_forall₂ row isOn
    obtain ⟨names', bindings', frameAt', cells⟩ := mirrors.frame fits known frameMatched
    obtain rfl := frameAt.unique frameAt'
    obtain ⟨w, isCell, cellMatched⟩ := exists_of_forall₂ cells listed
    obtain ⟨_, same, related⟩ := cellMatched.exists_pair
    cases same
    obtain ⟨k, place⟩ := List.mem_iff_getElem?.mp isCell
    obtain ⟨_, account⟩ := recounts.account
    exact ⟨w, n, k, account.onward _ _ _ _ _ inside lineage related,
      (recounts.extends_of_le later inside).has ((fits.frames n record known).cells k w place)⟩

/-- A return value of the machine is one of the path. -/
theorem returnValue (inside : i ≤ count) (returned : ReturnValue visits i a) :
    ∃ w, link i a w ∧ (censuses i).Has w .returned := by
  obtain ⟨j, making, made, first, visitsMaking, faces, visitsMade, isVal, lineage⟩ := returned
  have later := lineage.le
  have found := (recounts.mirrors (by omega) visitsMaking).faces_iff.mp faces
  have position : (scenesOf path (j + 1)).position = (path j).2 + 1 :=
    recounts.next_position (by omega) found fun _ => ⟨nofun, nofun, nofun⟩
  obtain ⟨st, member, ⟨fit⟩⟩ := recounts.chronicle.fits (j + 1) (by omega)
  rw [position] at member
  have isReturned := makeReturn_verified (_, (path j).2) (List.mem_zipIdx_iff_getElem?.mpr found) rfl st member
  have held := fit.registers val (by decide)
  rw [isReturned] at held
  change Holds _ _ _ _ _ ((path (j + 1)).1.registers val) _ at held
  have matched := (recounts.mirrors (by omega) visitsMade).registers val
  rw [isVal] at matched
  generalize (path (j + 1)).1.registers val = contents at held matched
  cases held with
  | @returned w _ role =>
    cases matched with | pointer matched => ?_
    cases matched with | pair related => ?_
    obtain ⟨_, account⟩ := recounts.account
    exact ⟨w, account.onward _ _ _ _ _ inside lineage related, (recounts.extends_of_le later inside).has role⟩

/-- The register of arguments holds arguments, once it is assigned. -/
theorem register_argl (inside : i ≤ count) :
    (path i).1.registers argl = .unassigned ∨
      ∃ p, (path i).1.registers argl = .pointer p ∧ (censuses i).Arguments p := by
  have held := recounts.resting inside (show argl < Evaluator.registers.length by decide) ⟨0, 0, 0, false⟩ 0
  change Holds _ _ _ _ .list _ _ at held
  generalize (path i).1.registers argl = contents at held ⊢
  cases held with
  | unlisted => exact .inl rfl
  | list arguments => exact .inr ⟨_, rfl, arguments⟩

/-- And the register of functions a value that is no return value. -/
theorem register_fn (inside : i ≤ count) :
    (path i).1.registers fn = .unassigned ∨
      ∃ p, (path i).1.registers fn = .pointer p ∧ (censuses i).Value law.strict false p := by
  have held := recounts.resting inside (show fn < Evaluator.registers.length by decide) ⟨0, 0, 0, false⟩ 0
  change Holds _ _ _ _ .held _ _ at held
  generalize (path i).1.registers fn = contents at held ⊢
  cases held with
  | unheld => exact .inl rfl
  | held value => exact .inr ⟨_, rfl, value⟩

/-- At the end of a program there is a value that is no return value. -/
theorem register_val (inside : i ≤ count) (behind : Label.done.position ≤ (path i).2) :
    ∃ p, (path i).1.registers val = .pointer p ∧ (censuses i).Value law.strict false p := by
  obtain ⟨st, member, ⟨fit⟩⟩ := recounts.chronicle.fits i inside
  rw [show (scenesOf path i).position = (path i).2 from rfl, statesAt_of_le behind] at member
  have held := fit.registers val (by decide)
  rw [done_plain st member] at held
  change Holds _ _ _ _ _ ((path i).1.registers val) _ at held
  generalize (path i).1.registers val = contents at held ⊢
  cases held with
  | value value => exact ⟨_, rfl, value⟩

end Recounts

/-- Where a run succeeds its value is what is left in a register behind the
last instruction. -/
theorem exists_visits_of_value {settings : Settings} {tree : Tree} {fuel : Nat} {made final : Machine}
    {value : Pointer}
    (isMade : machine settings = .ok made) (done : run fuel made tree = (.done value, final)) :
    ∃ count last, Visits settings tree count last ∧ last.current? = none ∧ final.memory.heap = last.memory.heap ∧
      ∀ p, last.memory.contents val = .pointer p → value = p := by
  obtain ⟨blank, isBlank⟩ := make_ok
  rw [machine_eq isBlank] at isMade
  cases isMade
  rw [run_eq_start isBlank] at done
  rw [visits_eq isBlank]
  have ended := eq_done_of_answer done
  have names := ((loaded_builtAs isBlank settings tree).start fuel).memory.names
  rw [ended] at names
  have index : final.memory.registerIndex? "val" = some Listing.val := registerIndex_eq names "val"
  obtain ⟨count, last, event, visits, outside, rfl⟩ := Machine.exists_visits_of_done ended
  refine ⟨count, last, visits, outside, rfl, fun p held => ?_⟩
  rw [ended] at done
  have held' : (last.record event).memory.contents Listing.val = .pointer p := held
  have found : Evaluator.result (last.record event) = .ok p := by
    simp only [Evaluator.result, Machine.contents, Machine.registerIndex, index, bind, Except.bind, pure, Except.pure,
      held']
  simp only [answer, found] at done
  cases done
  rfl

/-- Where a program returns only where statements stand, return values are on
their way to the call that they end and never get anywhere else: no binding
has one as its value, none is an argument, a function or the content of
another, and none is the value of the program. -/
theorem return_discipline (settings : Settings) {tree : Tree} (returning : tree.Returning true) :
    ReturnDiscipline settings tree where
  bindings := by
    intro i machine a value flag visits cell holds
    obtain ⟨layout, path, link, censuses, recounts⟩ := exists_recounting .returning visits ⟨[], tree, returning, rfl⟩
    have mirrors := recounts.mirrors le_rfl visits
    have fits := recounts.fits le_rfl
    obtain ⟨w, f, k, related, role⟩ := recounts.bindingCell le_rfl cell
    obtain ⟨_, _, _, _, holds', _, allowed, headMatched, _⟩ := mirrors.exists_pair fits related role
    obtain ⟨rfl, rfl⟩ := holds.unique holds'
    cases allowed with
    | binding plain _ _ => exact mirrors.not_isReturn fits rfl plain headMatched
  arguments := by
    intro i machine list item visits held isItem
    obtain ⟨layout, path, link, censuses, recounts⟩ := exists_recounting .returning visits ⟨[], tree, returning, rfl⟩
    have mirrors := recounts.mirrors le_rfl visits
    have matched := mirrors.registers argl
    rw [held] at matched
    rcases recounts.register_argl le_rfl with isUnassigned | ⟨p, isPointer, arguments⟩
    · rw [isUnassigned] at matched
      cases matched
    · rw [isPointer] at matched
      cases matched with
      | pointer matched => exact mirrors.item_not_isReturn (recounts.fits le_rfl) rfl arguments matched isItem
  saved := by
    intro i j saving machine list item below visitsSaving _ before visits unreleased suffix depth isItem
    obtain ⟨layout, path, link, censuses, recounts⟩ := exists_recounting .returning visits ⟨[], tree, returning, rfl⟩
    obtain ⟨_, account⟩ := recounts.account
    have first := (recounts.mirrors before.le visitsSaving).registers argl
    have matched := account.matches_onward le_rfl (unreleased.relocated before visits suffix depth) first
    rcases recounts.register_argl before.le with isUnassigned | ⟨p, isPointer, arguments⟩
    · rw [isUnassigned] at matched
      cases matched
    · rw [isPointer] at matched
      cases matched with
      | pointer matched =>
        have ext := recounts.extends_of_le before.le le_rfl
        exact (recounts.mirrors le_rfl visits).item_not_isReturn (recounts.fits le_rfl) rfl (ext.arguments arguments)
          matched isItem
  function := by
    intro i machine p visits held
    obtain ⟨layout, path, link, censuses, recounts⟩ := exists_recounting .returning visits ⟨[], tree, returning, rfl⟩
    have mirrors := recounts.mirrors le_rfl visits
    have matched := mirrors.registers fn
    rw [held] at matched
    rcases recounts.register_fn le_rfl with isUnassigned | ⟨p', isPointer, value⟩
    · rw [isUnassigned] at matched
      cases matched
    · rw [isPointer] at matched
      cases matched with
      | pointer matched => exact mirrors.not_isReturn (recounts.fits le_rfl) rfl value matched
  nested := by
    intro i machine a tag content visits returned holds
    obtain ⟨layout, path, link, censuses, recounts⟩ := exists_recounting .returning visits ⟨[], tree, returning, rfl⟩
    have mirrors := recounts.mirrors le_rfl visits
    have fits := recounts.fits le_rfl
    obtain ⟨w, related, role⟩ := recounts.returnValue le_rfl returned
    obtain ⟨_, _, _, _, holds', _, allowed, _, tailMatched⟩ := mirrors.exists_pair fits related role
    obtain ⟨rfl, rfl⟩ := holds.unique holds'
    cases allowed with
    | returned plain => exact mirrors.not_isReturn fits rfl plain tailMatched
  answer := by
    intro fuel made value final isMade done
    obtain ⟨count, last, visits, outside, same, isValue⟩ := exists_visits_of_value isMade done
    obtain ⟨layout, path, link, censuses, recounts⟩ := exists_recounting .returning visits ⟨[], tree, returning, rfl⟩
    have mirrors := recounts.mirrors le_rfl visits
    have behind : Label.done.position ≤ (path count).2 := by
      rw [Machine.current?, ← Option.map_eq_none_iff (f := BoundInstruction.code), ← Array.getElem?_toList,
        ← List.getElem?_map, mirrors.code, List.getElem?_eq_none_iff, listing_length] at outside
      exact mirrors.position ▸ outside
    have matched := mirrors.registers val
    obtain ⟨p', isPointer, plain⟩ := recounts.register_val le_rfl behind
    rw [isPointer] at matched
    generalize held : last.memory.contents val = contents at matched
    cases matched with
    | pointer matched =>
      rw [same, isValue _ held]
      exact mirrors.not_isReturn (recounts.fits le_rfl) rfl plain matched

/-- A function that returns from a branch and from a block, called with what it
returns. -/
def returningBranches : Tree :=
  .sequence [.constantDeclaration "f" (.functionDefinition ["x"]
      (.conditionalStatement (.name "x") (.returnStatement (.name "x")) (.block (.returnStatement (.atom .null))))),
    .returnStatement (.application (.name "f") [.application (.name "f") [.atom (.bool true)]])]

/-- Whether the value of an expression is the return value at an address. -/
def holdsReturn (address : Nat) (machine : Machine) : Bool :=
  match machine.memory.contents val with
  | .pointer (.pair a) =>
    match machine.memory.heap.head a with
    | .ok (.string tag) => a == address && tag == Tag.returnValue.text
    | _ => false
  | _ => false

theorem exists_of_holdsReturn {address : Nat} {machine : Machine} (held : holdsReturn address machine) :
    machine.memory.contents val = .pointer (.pair address) ∧
      ∃ content, machine.memory.heap.Holds address (.string Tag.returnValue.text) content := by
  unfold holdsReturn at held
  split at held
  case h_2 => exact absurd held Bool.false_ne_true
  rename_i isVal
  split at held
  case h_2 => exact absurd held Bool.false_ne_true
  rename_i isTag
  obtain ⟨isAddress, isText⟩ := Bool.and_eq_true_iff.mp held
  obtain rfl := beq_iff_eq.mp isAddress
  obtain rfl := beq_iff_eq.mp isText
  exact ⟨isVal, PairHeap.head_eq_ok_iff.mp isTag⟩

/-- The inner call has made its return value after so many instructions; what it
holds is no return value, and none is bound or an argument then. -/
theorem return_discipline_branches :
    returningBranches.Returning true ∧ ReturnDiscipline ⟨100, false⟩ returningBranches ∧
      ∃ machine a content, Visits ⟨100, false⟩ returningBranches 385 machine ∧
        ReturnValue (Visits ⟨100, false⟩ returningBranches) 385 a ∧
        machine.memory.heap.Holds a (.string Tag.returnValue.text) content ∧
          ¬ machine.memory.heap.IsReturn content := by
  have call : (Tree.application (.name "f") [.application (.name "f") [.atom (.bool true)]]).Returning false :=
    .application (.name "f") (List.forall_mem_singleton.mpr
      (.application (.name "f") (List.forall_mem_singleton.mpr (.atom (.bool true)))))
  have returning : returningBranches.Returning true := by
    refine .sequence fun statement member => ?_
    simp only [List.mem_cons, List.not_mem_nil, or_false] at member
    rcases member with rfl | rfl
    · exact .constantDeclaration "f" (.functionDefinition ["x"]
        (.conditionalStatement (.name "x") (.returnStatement (.name "x")) (.block (.returnStatement (.atom .null)))))
    · exact .returnStatement call
  have discipline := return_discipline ⟨100, false⟩ returning
  have wraps : goesOn (fun machine => machine.position == Label.returnWrap.position + 1)
      (run 384 (pristine.configure ⟨100, false⟩) returningBranches) := by decide +kernel
  have wrapped : goesOn (holdsReturn 74) (run 385 (pristine.configure ⟨100, false⟩) returningBranches) := by
    decide +kernel
  obtain ⟨making, visitsMaking, atWrap⟩ := exists_visits_of_goesOn wraps
  obtain ⟨made, visitsMade, held⟩ := exists_visits_of_goesOn wrapped
  obtain ⟨isVal, content, holds⟩ := exists_of_holdsReturn held
  have isReturned : ReturnValue (Visits ⟨100, false⟩ returningBranches) 385 74 := by
    obtain ⟨_, _, _, account⟩ := exists_account visitsMaking
    have mirrors := account.mirrors 384 le_rfl making visitsMaking
    have faces : making.Faces (put val .makeReturn [val]) := by
      rw [mirrors.faces_iff, ← mirrors.position, beq_iff_eq.mp atWrap]
      rfl
    exact ⟨384, making, made, 74, visitsMaking, faces, visitsMade, isVal, .here visitsMade holds.lt⟩
  exact ⟨returning, discipline, made, 74, content, visitsMade, isReturned, holds,
    discipline.nested 385 made 74 _ content visitsMade isReturned holds⟩

end Evaluator

end ExplicitControl
