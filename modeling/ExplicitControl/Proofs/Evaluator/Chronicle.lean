import ExplicitControl.Proofs.Evaluator.Deciding

namespace ExplicitControl.Evaluator

open Interpreter (Node Law)
open Listing

/-- An operation that is used under its own name, on registers that there are. -/
def regularUse (application : Application) : Bool :=
  application.inputs.all (fun
    | .register index => index < registers.length
    | .constant _ => true) &&
  match application.operation with
  | .addressAware operation => application.name = operation.name
  | .primitive _ => false

/-- An instruction on registers that there are. -/
def regular : Code → Bool
  | .save index | .restore index | .gotoRegister index => index < registers.length
  | .assign target (.application application) => target < registers.length && regularUse application
  | .assign target (.register index) => target < registers.length && index < registers.length
  | .assign target _ => target < registers.length
  | .perform application | .test application => regularUse application
  | _ => true

theorem listing_regular : ∀ code ∈ listing, regular code = true := by
  decide +kernel

variable {layout : Layout} {law : Law} {census later : Census} {st other : State} {s s' : Scene} {code : Code}

/-- Only jumps do not lead to the next instruction. -/
theorem Moves.next {program : ProgramHeap} (moves : Moves program code s s')
    (straight : ∀ position, code ≠ .goto position ∧ code ≠ .branch position ∧ code ≠ .gotoRegister position) :
    s'.position = s.position + 1 := by
  obtain ⟨machine, machine', shows, executed, shows'⟩ := moves
  rw [← shows.position, ← shows'.position]
  cases code with
  | goto position => exact absurd rfl (straight position).1
  | branch position => exact absurd rfl (straight position).2.1
  | gotoRegister position => exact absurd rfl (straight position).2.2
  | assign target source =>
    obtain ⟨_, _, ran, rest⟩ := Machine.bind_eq_ok_iff.mp executed
    obtain ⟨_, _, rfl⟩ := Machine.onMemory_eq_ok_iff.mp ran
    obtain ⟨_, _, ran, rest⟩ := Machine.bind_eq_ok_iff.mp rest
    obtain ⟨_, _, rfl⟩ := Machine.onMemory_eq_ok_iff.mp ran
    cases rest
    rfl
  | test application =>
    obtain ⟨value, _, ran, rest⟩ := Machine.bind_eq_ok_iff.mp executed
    obtain ⟨_, _, rfl⟩ := Machine.onMemory_eq_ok_iff.mp ran
    split at rest
    · cases rest
      rfl
    · cases rest
  | save index =>
    obtain ⟨_, _, ran, rest⟩ := Machine.bind_eq_ok_iff.mp executed
    obtain ⟨_, _, rfl⟩ := Machine.onMemory_eq_ok_iff.mp ran
    cases rest
    rfl
  | restore index =>
    obtain ⟨_, _, ran, rest⟩ := Machine.bind_eq_ok_iff.mp executed
    obtain ⟨_, _, rfl⟩ := Machine.onMemory_eq_ok_iff.mp ran
    cases rest
    rfl
  | perform application =>
    obtain ⟨_, _, ran, rest⟩ := Machine.bind_eq_ok_iff.mp executed
    obtain ⟨_, _, rfl⟩ := Machine.onMemory_eq_ok_iff.mp ran
    cases rest
    rfl

theorem State.straight_of_after (after : st.after code = some other) (position : Nat) :
    code ≠ .goto position ∧ code ≠ .branch position ∧ code ≠ .gotoRegister position := by
  refine ⟨?_, ?_, ?_⟩ <;> rintro rfl <;> cases after

theorem State.registers_of_indices {inputs : List Input} {indices : List Nat}
    (found : State.indices inputs = some indices) : inputs = indices.map .register := by
  induction inputs generalizing indices with
  | nil =>
    cases found
    rfl
  | cons input rest ih =>
    cases input with
    | constant value => cases found
    | register index =>
      obtain ⟨others, foundRest, rfl⟩ := Option.map_eq_some_iff.mp found
      rw [List.map_cons, ← ih foundRest]

/-- What a regular use of an operation on registers is: one under the name of
the operation, on registers that there are. -/
theorem regularUse_registers {name : String} {operation : HeapOperation} {inputs : List Input} {indices : List Nat}
    (isRegular : regularUse ⟨name, .addressAware operation, inputs⟩ = true)
    (found : State.indices inputs = some indices) :
    (⟨name, .addressAware operation, inputs⟩ : Application) = use operation (indices.map .register) ∧
      ∀ index ∈ indices, index < registers.length := by
  simp only [regularUse, Bool.and_eq_true, decide_eq_true_eq, List.all_eq_true] at isRegular
  obtain ⟨inside, rfl⟩ := isRegular
  cases State.registers_of_indices found
  refine ⟨rfl, fun index member => ?_⟩
  simpa using inside (.register index) (List.mem_map_of_mem member)

theorem Fitting.constant (fit : Fitting layout law census st s) (value : Pointer) (tokens : Tokens) :
    Holds layout law census fit.σ (State.constantKind value) (.pointer value) tokens := by
  unfold State.constantKind
  split
  · exact .arguments (.inl rfl)
  · exact .value (.scalar _)
  · exact .truth _
  · exact .any _

/-- An instruction that is no jump leads to what is known behind it. -/
theorem Fitting.after (fit : Fitting layout law census st s) (rooted : Rooted layout law)
    (isRegular : regular code = true) (after : st.after code = some other) (moves : Moves layout.program code s s') :
    ∃ later, census.Extends later ∧
      (code = Evaluator.act .setTail [res, unev] → Settled law later (s.registers res)) ∧
      Nonempty (Fitting layout law later other s') := by
  have kept (fits : Nonempty (Fitting layout law census other s'))
      (else' : code ≠ Evaluator.act .setTail [res, unev]) : ∃ later, census.Extends later ∧
      (code = Evaluator.act .setTail [res, unev] → Settled law later (s.registers res)) ∧
      Nonempty (Fitting layout law later other s') :=
    ⟨census, .refl census, fun same => absurd same else', fits⟩
  unfold State.after at after
  split at after
  · cases after
    cases moves.save
    exact kept ⟨fit.save (of_decide_eq_true isRegular)⟩ nofun
  · have inside := of_decide_eq_true isRegular
    obtain ⟨value, rest, top, rfl⟩ := moves.restore inside
    split at after
    · cases after
      exact kept (fit.restore ‹_› top inside) nofun
    · cases after
  · simp only [regular, Bool.and_eq_true, decide_eq_true_eq] at isRegular
    cases after
    cases moves.assignRegister isRegular.1
    exact kept ⟨fit.assign fit.heap.grows_refl (fit.registers _ isRegular.2).copied⟩ nofun
  · cases after
    cases moves.assignConstant (of_decide_eq_true isRegular)
    exact kept ⟨fit.assign fit.heap.grows_refl (fit.constant _ _)⟩ nofun
  · cases moves.assignLabel (of_decide_eq_true isRegular)
    split at after
    · rename_i isCont
      subst isCont
      obtain ⟨label, found, folded⟩ := Option.bind_eq_some_iff.mp after
      have isPosition := List.find?_some found
      rw [decide_eq_true_eq] at isPosition
      subst isPosition
      exact kept (fit.fold folded) nofun
    · cases after
      exact kept ⟨fit.assign fit.heap.grows_refl (.label _)⟩ nofun
  · obtain ⟨indices, found, put⟩ := Option.bind_eq_some_iff.mp after
    simp only [regular, Bool.and_eq_true, decide_eq_true_eq] at isRegular
    obtain ⟨same, inside⟩ := regularUse_registers isRegular.2 found
    rw [same] at moves
    obtain ⟨later, ext, fits⟩ := fit.put rooted isRegular.1 inside put moves
    exact ⟨later, ext, nofun, fits⟩
  · obtain ⟨indices, found, acts⟩ := Option.bind_eq_some_iff.mp after
    obtain ⟨same, inside⟩ := regularUse_registers isRegular found
    rw [same] at moves ⊢
    obtain ⟨later, ext, settled, fits⟩ := fit.act inside acts moves
    refine ⟨later, ext, fun isSet => ?_, fits⟩
    injection isSet with isUse
    injection isUse with _ isOperation isInputs
    injection isOperation with isOperation
    have registers : indices = [res, unev] :=
      List.map_injective_iff.mpr (fun _ _ same => Input.register.inj same) isInputs
    exact settled res unev isOperation registers
  · obtain ⟨fact, asks, rfl⟩ := Option.map_eq_some_iff.mp after
    simp only [regular, regularUse, Bool.and_eq_true, decide_eq_true_eq] at isRegular
    obtain ⟨_, rfl⟩ := isRegular
    exact kept (fit.ask asks moves) nofun
  · cases after

/-- A signal is not carried out: it ends the run. -/
theorem Moves.signal {cause : Signal} {name : String} {inputs : List Input}
    (isRegular : regularUse ⟨name, .addressAware (.signal cause), inputs⟩ = true)
    (moves : Moves layout.program (.perform ⟨name, .addressAware (.signal cause), inputs⟩) s s') : False := by
  simp only [regularUse, Bool.and_eq_true, decide_eq_true_eq] at isRegular
  obtain ⟨_, rfl⟩ := isRegular
  obtain ⟨_, _, _, _, never, _⟩ := moves.act (fun _ _ _ => False) fun ps _ => by
    refine brings_of_run nofun ?_
    match ps with
    | [p] => exact .inspect_bind fun _ _ _ read => by cases read
    | [] => exact .throw _
    | _ :: _ :: _ => exact .throw _
  exact never

/-- One instruction leads from what is known before it to what is known where
control goes. There is one case for each instruction of the listing, and what
is known between them is computed and checked once for the listing as a whole. -/
theorem Fitting.step (fit : Fitting layout law census st s) (rooted : Rooted layout law)
    (member : st ∈ statesAt s.position) (here : listing[s.position]? = some code)
    (moves : Moves layout.program code s s') :
    ∃ later, census.Extends later ∧
      (code = Evaluator.act .setTail [res, unev] → Settled law later (s.registers res)) ∧
      ∃ state ∈ statesAt s'.position, Nonempty (Fitting layout law later state s') := by
  have isRegular := listing_regular code (List.mem_of_getElem? here)
  have listed : (code, s.position) ∈ listing.zipIdx := List.mem_zipIdx_iff_getElem?.mpr here
  have leaves := listing_verified _ listed st member
  rw [Bool.and_eq_true] at leaves
  replace leaves : st.leaves s.position code = true := leaves.2
  have stays {st' : State} {position : Nat} (fit : Fitting layout law census st' s)
      (admitted : admits position st' = true) (else' : code ≠ Evaluator.act .setTail [res, unev]) :
      ∃ later, census.Extends later ∧
        (code = Evaluator.act .setTail [res, unev] → Settled law later (s.registers res)) ∧
        ∃ state ∈ statesAt position, Nonempty (Fitting layout law later state { s with position }) :=
    ⟨census, .refl census, fun same => absurd same else', (fit.moved position).admitted admitted⟩
  unfold State.leaves at leaves
  split at leaves
  · cases moves.goto
    exact stays fit leaves nofun
  · rw [Bool.and_eq_true] at leaves
    cases moves.branch
    by_cases flag : s.flag = true
    · obtain ⟨fit⟩ := fit.taken flag
      rw [if_pos flag]
      exact stays fit leaves.1 nofun
    · obtain ⟨fit⟩ := fit.missed (by simpa using flag)
      rw [if_neg flag]
      exact stays fit leaves.2 nofun
  · obtain ⟨label, held, rfl⟩ := moves.gotoRegister
    split at leaves
    · rename_i isCont
      subst isCont
      exact ⟨census, .refl census, nofun, fit.resume leaves held⟩
    · split at leaves
      · rename_i isLabel
        have labelHeld := fit.registers _ (of_decide_eq_true isRegular)
        rw [held, isLabel] at labelHeld
        cases labelHeld
        exact stays fit leaves nofun
      · cases leaves
  · exact (moves.signal isRegular).elim
  · split at leaves
    · rename_i after
      obtain ⟨later, ext, settled, ⟨fit⟩⟩ := fit.after rooted isRegular after moves
      rw [moves.next (State.straight_of_after after)]
      exact ⟨later, ext, settled, fit.admitted leaves⟩
    · cases leaves

/-- What is known between the instructions of a run: a census for each scene,
which grows, and in which a declaration that was carried out is recorded. Each
scene fits one of the states of knowledge that its position has. -/
structure Chronicle (layout : Layout) (law : Law) (count : Nat) (scenes : Nat → Scene) (censuses : Nat → Census) :
    Prop where
  fits : ∀ i ≤ count, ∃ st ∈ statesAt (scenes i).position,
    Nonempty (Fitting layout law (censuses i) st (scenes i))
  grows : ∀ i < count, (censuses i).Extends (censuses (i + 1))
  settled : ∀ i < count, (scenes i).position = Label.declarationFound.position + 1 →
    Settled law (censuses (i + 1)) ((scenes i).registers res)

/-- Before the first instruction nothing is there, so that everything which is
known there holds. -/
theorem exists_fitting_start (layout : Layout) (law : Law) :
    ∃ st ∈ statesAt 0, Nonempty (Fitting layout law ⟨[], [], []⟩ st ⟨fun _ => .unassigned, [], [], false, 0⟩) := by
  let context : Context := ⟨0, 0, 0, false⟩
  have heap : Census.Fits layout law ⟨[], [], []⟩ [] := ⟨rfl, nofun, nofun, nofun⟩
  have ledger : Ledger ⟨[], [], []⟩ (total (fun _ => 0) + 0 + 0) := by
    rw [total, Finset.sum_const_zero]
    exact ⟨Multiset.nodup_zero, by simp, by simp⟩
  let fit : Fitting layout law ⟨[], [], []⟩ (.given [] [] .blank) ⟨fun _ => .unassigned, [], [], false, 0⟩ :=
    ⟨context, fun _ => 0, [], 0, [], 0, heap, holds_given (fun index _ => ?_) nofun, rfl, .nil, ⟨rfl, rfl⟩,
      trivial, ledger⟩
  · exact fit.admitted (by decide +kernel)
  · rcases resting_cases index with isKind | isKind | isKind | isKind <;> rw [isKind]
    · exact .unscoped
    · exact .unheld
    · exact .unlisted
    · exact .any _

/-- Every run has a chronicle, by induction on the number of its instructions. -/
theorem exists_chronicle {count : Nat} {scenes : Nat → Scene} (rooted : Rooted layout law)
    (unfolds : Unfolds layout.program count scenes) : ∃ censuses, Chronicle layout law count scenes censuses := by
  suffices partway : ∀ n ≤ count, ∃ censuses, Chronicle layout law n scenes censuses from partway count le_rfl
  intro n
  induction n with
  | zero =>
    intro _
    refine ⟨fun _ => ⟨[], [], []⟩, fun i le => ?_, nofun, nofun⟩
    obtain rfl := Nat.le_zero.mp le
    rw [unfolds.first]
    exact exists_fitting_start layout law
  | succ n ih =>
    intro inside
    obtain ⟨censuses, chronicle⟩ := ih (Nat.le_of_succ_le inside)
    obtain ⟨st, member, ⟨fit⟩⟩ := chronicle.fits n le_rfl
    obtain ⟨code, here, moves⟩ := unfolds.moves n inside
    obtain ⟨later, ext, settled, fits⟩ := fit.step rooted member here moves
    let extended (i : Nat) : Census := if i ≤ n then censuses i else later
    have old {i : Nat} (le : i ≤ n) : extended i = censuses i := if_pos le
    have new : extended (n + 1) = later := if_neg (Nat.not_succ_le_self n)
    refine ⟨extended, fun i le => ?_, fun i lt => ?_, fun i lt isWrite => ?_⟩
    · rcases Nat.le_succ_iff.mp le with le | rfl
      · rw [old le]
        exact chronicle.fits i le
      · rw [new]
        exact fits
    · rcases Nat.lt_succ_iff_lt_or_eq.mp lt with lt | rfl
      · rw [old lt.le, old lt]
        exact chronicle.grows i lt
      · rw [old le_rfl, new]
        exact ext
    · rcases Nat.lt_succ_iff_lt_or_eq.mp lt with lt | rfl
      · rw [old lt]
        exact chronicle.settled i lt isWrite
      · rw [new]
        refine settled ?_
        rw [isWrite] at here
        exact (Option.some.inj here).symm

end ExplicitControl.Evaluator
