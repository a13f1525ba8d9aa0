import ExplicitControl.Proofs.Evaluator.Scene
import ExplicitControl.Proofs.Evaluator.Signature
import Mathlib.Algebra.BigOperators.Group.Finset.Piecewise
import Mathlib.Algebra.Order.BigOperators.Group.Finset
import Mathlib.Tactic.Abel

namespace ExplicitControl.Evaluator

open Interpreter (Node Law)
open Listing

section

variable (layout : Layout) (law : Law) (census : Census)

/-- Slots of the stack, and the tokens that they hold together. -/
inductive Row (σ : Context) : List Kind → List Contents → Tokens → Prop
  | nil : Row σ [] [] 0
  | cons {kind : Kind} {kinds : List Kind} {contents : Contents} {slots : List Contents} {first rest : Tokens} :
      Holds layout law census σ kind contents first → Row σ kinds slots rest →
      Row σ (kind :: kinds) (contents :: slots) (first + rest)

/-- What a continuation needs on the stack, given whether it is to take return
values: its own slots, and below them what the continuation needs that is
saved among them. The whole stack is read in this way down to the ground. -/
inductive Frames : Bool → Nat → List Contents → Tokens → Prop
  | top (returns : Bool) : Frames returns Label.topLevelDone.position [] 0
  | row {label : Label} {grade : Grade} {kinds : List Kind} {σ : Context} {slots base : List Contents}
      {first rest : Tokens} {returns : Bool} :
      label.returnPoint = some (grade, kinds) → census.Known σ.frame → Row layout law census σ kinds slots first →
      Frames σ.returns σ.back base rest → (returns = true → grade.returns σ = true) →
      Frames returns label.position (slots ++ base) (first + rest)

/-- What lies under the known slots. -/
def Grounds (σ : Context) (base : List Contents) (tokens : Tokens) : Phase → Prop
  | .blank => base = [] ∧ census.frames = []
  | .founded => base = [] ∧ census.Known σ.frame ∧ σ.frame = 0
  | .ground => base = [] ∧ census.Known σ.frame
  | .framed => Frames layout law census σ.returns σ.back base tokens ∧ census.Known σ.frame

end

/-- Tokens are for places of inner frames, each owed once and not yet declared. -/
structure Ledger (census : Census) (tokens : Tokens) : Prop where
  nodup : tokens.Nodup
  undeclared : ∀ token ∈ tokens, token ∉ census.declared
  inner : ∀ token ∈ tokens, token.1 ≠ 0 ∧ token.1 < census.frames.length

/-- The name of the form of an expression. -/
def formText (program : ProgramHeap) (p : Pointer) : String :=
  match ExpressionKind.classify program p with
  | some kind => kind.text
  | none => "unknown"

def Fact.Holds (program : ProgramHeap) (s : Scene) : Fact → Prop
  | .none => True
  | .classified =>
    ∃ p, s.registers exp = .pointer p ∧ s.registers e = .pointer (.string (formText program p))
  | .asked kind =>
    ∃ p, s.registers exp = .pointer p ∧ s.registers e = .pointer (.string (formText program p)) ∧
      (s.flag = true → ExpressionKind.classify program p = some kind)
  | .ended => ∃ p, s.registers c = .pointer p ∧ (s.flag = true → p = .null)
  | .same => ∃ p q, s.registers e = .pointer p ∧ s.registers a = .pointer q ∧ s.flag = (p == q)
  | .tagged tag index =>
    ∃ p, s.registers index = .pointer p ∧
      (s.flag = true ↔ ∃ a tail, p = .pair a ∧ s.heap[a]? = some (.string tag.text, tail))
  | .flagged =>
    ∃ a head p, s.registers res = .pointer (.pair a) ∧ s.heap[a]? = some (head, p) ∧ s.registers e = .pointer p
  | .locked =>
    ∃ a head p, s.registers res = .pointer (.pair a) ∧ s.heap[a]? = some (head, p) ∧ s.flag = (p == .bool false)
  | .unlocked =>
    ∃ a head p, s.registers res = .pointer (.pair a) ∧ s.heap[a]? = some (head, p) ∧ p ≠ .bool false

/-- The tokens of all registers. -/
def total (debts : Nat → Tokens) : Tokens :=
  ∑ index ∈ Finset.range Evaluator.registers.length, debts index

/-- A scene fits what is known, in a context, with the tokens of each
register. Every register and every known slot holds what its kind says, what
lies below is what the continuation needs, and no two declarations that are
still to be carried out owe the same place. -/
structure Fitting (layout : Layout) (law : Law) (census : Census) (st : State) (s : Scene) where
  σ : Context
  debts : Nat → Tokens
  slots : List Contents
  slotTokens : Tokens
  base : List Contents
  baseTokens : Tokens
  heap : census.Fits layout law s.heap
  registers : ∀ index < Evaluator.registers.length,
    Holds layout law census σ (st.registers index) (s.registers index) (debts index)
  stack : s.stack = slots ++ base
  row : Row layout law census σ st.stack slots slotTokens
  ground : Grounds layout law census σ base baseTokens st.phase
  fact : st.fact.Holds layout.program s
  ledger : Ledger census (total debts + slotTokens + baseTokens)

variable {layout : Layout} {law : Law} {census later : Census} {σ : Context} {st other : State} {s s' : Scene}

theorem Ledger.mono {tokens tokens' : Tokens} (ledger : Ledger census tokens) (le : tokens' ≤ tokens) :
    Ledger census tokens' :=
  ⟨Multiset.nodup_of_le le ledger.nodup, fun token member => ledger.undeclared token (Multiset.mem_of_le le member),
    fun token member => ledger.inner token (Multiset.mem_of_le le member)⟩

/-- A census that has declared no more leaves the tokens as they are. -/
theorem Ledger.extend {tokens : Tokens} (ledger : Ledger census tokens) (ext : census.Extends later)
    (declared : later.declared = census.declared) : Ledger later tokens :=
  ⟨ledger.nodup, declared.symm ▸ ledger.undeclared,
    fun token member => ⟨(ledger.inner token member).1, (ledger.inner token member).2.trans_le ext.frames.length_le⟩⟩

section

variable {index target : Nat} {tokens first rest : Tokens}

theorem total_update (debts : Nat → Tokens) (tokens : Tokens) (inside : index < Evaluator.registers.length) :
    total (Function.update debts index tokens) + debts index = total debts + tokens := by
  have member : index ∈ Finset.range Evaluator.registers.length := Finset.mem_range.mpr inside
  unfold total
  rw [Finset.sum_update_of_mem member, ← Finset.add_sum_erase _ debts member, Finset.sdiff_singleton_eq_erase]
  abel

/-- Tokens go from one register to another, and none is held twice on the way. -/
theorem total_transfer_le {debts : Nat → Tokens} (insideIndex : index < Evaluator.registers.length)
    (insideTarget : target < Evaluator.registers.length) (le : first + rest ≤ debts index) :
    total (Function.update (Function.update debts index rest) target first) ≤ total debts := by
  have one := total_update debts rest insideIndex
  have two := total_update (Function.update debts index rest) first insideTarget
  generalize Function.update debts index rest target = dropped at two
  generalize total (Function.update (Function.update debts index rest) target first) = result at two ⊢
  generalize total (Function.update debts index rest) = between at one two
  refine le_of_add_le_add_right (a := dropped + debts index) ?_
  calc result + (dropped + debts index) = result + dropped + debts index := (add_assoc _ _ _).symm
    _ = between + debts index + first := by rw [two]; abel
    _ = total debts + (first + rest) := by rw [one]; abel
    _ ≤ total debts + debts index := add_le_add_right le _
    _ ≤ total debts + (dropped + debts index) := add_le_add_right (Multiset.le_add_left _ _) _

end

theorem Row.extend {kinds : List Kind} {slots : List Contents} {tokens : Tokens}
    (row : Row layout law census σ kinds slots tokens) (ext : census.Extends later) :
    Row layout law later σ kinds slots tokens := by
  induction row with
  | nil => exact .nil
  | cons first _ ih => exact .cons (first.extend ext) ih

theorem Row.le {kinds others : List Kind} {slots : List Contents} {tokens : Tokens}
    (row : Row layout law census σ kinds slots tokens) (same : kinds.length = others.length)
    (le : (kinds.zip others).all (fun pair => pair.1.le pair.2) = true) :
    Row layout law census σ others slots tokens := by
  induction row generalizing others with
  | nil =>
    cases others with
    | nil => exact .nil
    | cons _ _ => cases same
  | cons first _ ih =>
    cases others with
    | nil => cases same
    | cons other others =>
      simp only [List.zip_cons_cons, List.all_cons, Bool.and_eq_true] at le
      exact .cons (first.le le.1) (ih (Nat.succ.inj same) le.2)

theorem Row.cursor {kinds : List Kind} {slots : List Contents} {tokens : Tokens}
    (row : Row layout law census σ kinds slots tokens) (steady : kinds.all Kind.steady = true) (cursor : Nat) :
    Row layout law census { σ with cursor } kinds slots tokens := by
  induction row with
  | nil => exact .nil
  | cons first _ ih =>
    simp only [List.all_cons, Bool.and_eq_true] at steady
    exact .cons (first.steady steady.1 cursor) (ih steady.2)

theorem Frames.extend {returns : Bool} {back : Nat} {base : List Contents} {tokens : Tokens}
    (frames : Frames layout law census returns back base tokens) (ext : census.Extends later) :
    Frames layout law later returns back base tokens := by
  induction frames with
  | top => exact .top _
  | row point known row _ allowed ih => exact .row point (ext.known known) (row.extend ext) ih allowed

theorem Grounds.extend {base : List Contents} {tokens : Tokens} {phase : Phase}
    (grounds : Grounds layout law census σ base tokens phase) (ext : census.Extends later)
    (frames : later.frames = census.frames) : Grounds layout law later σ base tokens phase := by
  cases phase with
  | blank => exact ⟨grounds.1, frames.trans grounds.2⟩
  | founded => exact ⟨grounds.1, ext.known grounds.2.1, grounds.2.2⟩
  | ground => exact ⟨grounds.1, ext.known grounds.2⟩
  | framed => exact ⟨grounds.1.extend ext, ext.known grounds.2⟩

theorem State.le_iff : st.le other = true ↔
    (∀ index < Evaluator.registers.length, (st.registers index).le (other.registers index) = true) ∧
      st.stack.length = other.stack.length ∧
      (st.stack.zip other.stack).all (fun pair => pair.1.le pair.2) = true ∧
      (other.fact = .none ∨ st.fact = other.fact) ∧ st.phase = other.phase := by
  simp only [State.le, Bool.and_eq_true, List.all_eq_true, List.mem_range, beq_iff_eq, Bool.or_eq_true,
    decide_eq_true_eq, and_assoc]

/-- A scene that fits fits what is less. -/
def Fitting.weaken (fit : Fitting layout law census st s) (le : st.le other = true) :
    Fitting layout law census other s :=
  have le := State.le_iff.mp le
  { fit with
    registers := fun index inside => (fit.registers index inside).le (le.1 index inside)
    row := fit.row.le le.2.1 le.2.2.1
    ground := le.2.2.2.2 ▸ fit.ground
    fact := by
      rcases le.2.2.2.1 with none | same
      · rw [none]
        trivial
      · exact same ▸ fit.fact }

section

variable {target index : Nat} {kind : Kind} {contents : Contents} {cells : Cells} {flag : Bool} {position : Nat}

theorem holds_update (target : Nat) {debts : Nat → Tokens} {kinds : Nat → Kind} {registers : Nat → Contents}
    {tokens : Tokens}
    (holds : ∀ index < Evaluator.registers.length,
      Holds layout law census σ (kinds index) (registers index) (debts index))
    (new : Holds layout law census σ kind contents tokens) :
    ∀ index < Evaluator.registers.length,
      Holds layout law census σ (Function.update kinds target kind index) (write registers target contents index)
        (Function.update debts target tokens index) := by
  intro index inside
  by_cases same : index = target
  · subst same
    simp only [Function.update_self, write_self]
    exact new
  · simp only [Function.update_of_ne same, write_of_ne same]
    exact holds index inside

/-- A register is written, and pairs may have been added. -/
def Fitting.assign (fit : Fitting layout law census st s) (grows : census.Grows layout law later cells)
    (holds : Holds layout law later fit.σ kind contents (fit.debts target)) :
    Fitting layout law later (st.set target kind)
      ⟨write s.registers target contents, s.stack, cells, flag, position⟩ :=
  { fit with
    heap := grows.fits
    registers := by
      have all := holds_update target (fun index inside => (fit.registers index inside).extend grows.extends) holds
      rwa [Function.update_eq_self] at all
    row := fit.row.extend grows.extends
    ground := fit.ground.extend grows.extends grows.frames
    fact := trivial
    ledger := fit.ledger.extend grows.extends grows.declared }

/-- A register is written, with tokens from another one. -/
def Fitting.transfer (fit : Fitting layout law census st s) {left : Kind} {first rest : Tokens}
    (insideIndex : index < Evaluator.registers.length) (insideTarget : target < Evaluator.registers.length)
    (le : first + rest ≤ fit.debts index) (holds : Holds layout law census fit.σ kind contents first)
    (remains : Holds layout law census fit.σ left (s.registers index) rest) :
    Fitting layout law census ((st.set index left).set target kind)
      ⟨write s.registers target contents, s.stack, s.heap, flag, position⟩ :=
  { fit with
    debts := Function.update (Function.update fit.debts index rest) target first
    registers := by
      have all := holds_update target (holds_update index fit.registers remains) holds
      have same : write s.registers index (s.registers index) = s.registers := by
        funext i
        by_cases isIndex : i = index
        · rw [isIndex, write_self]
        · rw [write_of_ne isIndex]
      rwa [same] at all
    fact := trivial
    ledger := fit.ledger.mono (add_le_add_left (add_le_add_left (total_transfer_le insideIndex insideTarget le) _) _) }

/-- A register is saved, and its tokens with it. -/
def Fitting.save (fit : Fitting layout law census st s) (inside : index < Evaluator.registers.length) :
    Fitting layout law census
      { st with
        registers := Function.update st.registers index (st.registers index).copied
        stack := st.registers index :: st.stack
        fact := .none }
      ⟨s.registers, s.registers index :: s.stack, s.heap, flag, position⟩ :=
  { fit with
    debts := Function.update fit.debts index 0
    slots := s.registers index :: fit.slots
    slotTokens := fit.debts index + fit.slotTokens
    registers := by
      intro i insideI
      dsimp only
      by_cases isIndex : i = index
      · subst isIndex
        simp only [Function.update_self]
        exact (fit.registers i insideI).copied
      · simp only [Function.update_of_ne isIndex]
        exact fit.registers i insideI
    stack := by rw [fit.stack]; rfl
    row := .cons (fit.registers index inside) fit.row
    fact := trivial
    ledger := by
      have moved := total_update fit.debts 0 inside
      rw [add_zero] at moved
      have same : total (Function.update fit.debts index 0) + (fit.debts index + fit.slotTokens) + fit.baseTokens
          = total fit.debts + fit.slotTokens + fit.baseTokens := by
        rw [← moved]
        abel
      rw [same]
      exact fit.ledger }

/-- A slot is put back into a register, with its tokens. -/
theorem Fitting.restore (fit : Fitting layout law census st s) {kinds : List Kind} {rest : List Contents}
    (known : st.stack = kind :: kinds) (top : s.stack = contents :: rest)
    (inside : target < Evaluator.registers.length) :
    Nonempty (Fitting layout law census { st.set target kind with stack := kinds }
      ⟨write s.registers target contents, rest, s.heap, flag, position⟩) := by
  obtain ⟨σ, debts, slots, slotTokens, base, baseTokens, heap, registers, stack, row, ground, fact, ledger⟩ := fit
  rw [known] at row
  cases row with
  | @cons _ _ _ slots first others holds row =>
    rw [stack, List.cons_append] at top
    cases top
    refine ⟨⟨σ, Function.update debts target first, slots, others, base, baseTokens, heap,
      holds_update target registers holds, rfl, row, ground, trivial, ledger.mono ?_⟩⟩
    have updated := total_update debts first inside
    have le : total (Function.update debts target first) ≤ total debts + first := by
      rw [← updated]
      exact Multiset.le_add_right _ _
    calc total (Function.update debts target first) + others + baseTokens
        ≤ total debts + first + others + baseTokens := add_le_add_left (add_le_add_left le _) _
      _ = total debts + (first + others) + baseTokens := by rw [add_assoc (total debts)]

end

section

variable {contents : Contents} {tokens tokens' : Tokens} {flag : Bool} {position : Nat}

theorem resting_cases (index : Nat) :
    resting index = .scope ∨ resting index = .held ∨ resting index = .list ∨ resting index = .any := by
  unfold resting
  split
  · exact .inl rfl
  · split
    · exact .inr (.inl rfl)
    · split
      · exact .inr (.inr (.inl rfl))
      · exact .inr (.inr (.inr rfl))

/-- What is known in any case does not depend on a context. -/
theorem Holds.resting {index : Nat} (holds : Holds layout law census σ (resting index) contents tokens)
    (σ' : Context) : Holds layout law census σ' (Evaluator.resting index) contents tokens' := by
  rcases resting_cases index with isKind | isKind | isKind | isKind <;> rw [isKind] at holds ⊢
  · cases holds with
    | unscoped => exact .unscoped
    | scope environment => exact .scope environment
  · cases holds with
    | unheld => exact .unheld
    | held value => exact .held value
  · cases holds with
    | unlisted => exact .unlisted
    | list arguments => exact .list arguments
  · exact .any _

theorem Fitting.resting (fit : Fitting layout law census st s) (rests : st.rests = true) (σ' : Context) (index : Nat)
    (inside : index < Evaluator.registers.length) :
    Holds layout law census σ' (Evaluator.resting index) (s.registers index) tokens := by
  have le := List.all_eq_true.mp rests index (List.mem_range.mpr inside)
  exact ((fit.registers index inside).le le).resting σ'

theorem holds_given {kinds : List (Nat × Kind)} {registers : Nat → Contents} {debts : Nat → Tokens}
    {stack : List Kind} {phase : Phase}
    (resting : ∀ index < Evaluator.registers.length,
      Holds layout law census σ (resting index) (registers index) (debts index))
    (given : ∀ entry ∈ kinds, Holds layout law census σ entry.2 (registers entry.1) (debts entry.1)) :
    ∀ index < Evaluator.registers.length,
      Holds layout law census σ ((State.given kinds stack phase).registers index) (registers index) (debts index) := by
  intro index inside
  simp only [State.given]
  induction kinds with
  | nil => exact resting index inside
  | cons entry kinds ih =>
    obtain ⟨here, others⟩ := List.forall_mem_cons.mp given
    rw [List.lookup_cons]
    split
    · rename_i same
      rw [eq_of_beq same]
      exact here
    · exact ih others

/-- A continuation is set up from the known slots and what lies below them.
Behind the label that it leads to nothing more has to be known of the stack
than that label says. -/
theorem Fitting.fold (fit : Fitting layout law census st s) {label : Label} (folded : st.fold label = some other) :
    Nonempty (Fitting layout law census other
      ⟨write s.registers cont (.label label.position), s.stack, s.heap, flag, position⟩) := by
  unfold State.fold at folded
  split at folded
  case isFalse => cases folded
  case isTrue ready =>
  simp only [Bool.and_eq_true, decide_eq_true_eq] at ready
  obtain ⟨rests, environment⟩ := ready
  -- the registers, whatever the continuation takes
  have registers (grade : Grade) : ∀ index < Evaluator.registers.length,
      Holds layout law census { fit.σ with back := label.position, returns := grade.returns fit.σ }
        ((State.given [(exp, (st.registers exp).entered grade), (env, .environment true), (cont, .continuation)]
          [] .framed).registers index)
        (write s.registers cont (.label label.position) index) (fit.debts index) := by
    refine holds_given (fun index inside => ?_) ?_
    · by_cases same : index = cont
      · subst same
        exact .any _
      · rw [write_of_ne same]
        exact fit.resting rests _ index inside
    · simp only [List.forall_mem_cons, List.not_mem_nil, false_implies, implies_true, and_true]
      refine ⟨?_, ?_, ?_⟩
      · exact (fit.registers exp (by decide)).entered grade label.position
      · have held := fit.registers env (by decide)
        rw [environment] at held
        change Holds _ _ _ _ _ (s.registers env) _
        generalize s.registers env = contents at held ⊢
        cases held with
        | environment environment own => exact .environment environment own
      · exact .continuation
  obtain ⟨σ, debts, slots, slotTokens, base, baseTokens, heap, _, stack, row, ground, _, ledger⟩ := fit
  split at folded
  · split at folded
    · rename_i bare
      simp only [Bool.and_eq_true, decide_eq_true_eq] at bare
      cases folded
      rw [bare.1] at row
      rw [bare.2] at ground
      cases row
      obtain ⟨rfl, known⟩ := ground
      refine ⟨⟨_, debts, [], 0, [], 0, heap, registers .free, stack, .nil, ⟨.top _, known⟩, trivial, ledger.mono ?_⟩⟩
      exact add_le_add_right (Multiset.zero_le _) _
    · cases folded
  · rename_i grade kinds _ point
    split at folded
    · rename_i same
      simp only [Bool.and_eq_true, decide_eq_true_eq] at same
      cases folded
      rw [same.1] at row
      rw [same.2] at ground
      refine ⟨⟨_, debts, [], 0, slots ++ base, slotTokens + baseTokens, heap, registers grade, stack, .nil,
        ⟨.row point ground.2 row ground.1 id, ground.2⟩, trivial, ?_⟩⟩
      rwa [add_zero, ← add_assoc]
    · cases folded
  · cases folded

theorem Fitting.admitted (fit : Fitting layout law census st s) (admitted : admits position st = true) :
    ∃ state ∈ statesAt position, Nonempty (Fitting layout law census state s) := by
  obtain ⟨state, member, le⟩ := List.any_eq_true.mp admitted
  exact ⟨state, member, ⟨fit.weaken le⟩⟩

theorem Label.mem_all (label : Label) : label ∈ Label.all := by
  cases label <;> simp [Label.all]

/-- A value is handed back to the continuation, where the known slots are
again those that it was set up from. -/
theorem Fitting.resume (fit : Fitting layout law census st s) (resumes : st.resumes = true) {label : Nat}
    (back : s.registers cont = .label label) :
    ∃ state ∈ statesAt label, Nonempty (Fitting layout law census state { s with position := label }) := by
  simp only [State.resumes, Bool.and_eq_true, Bool.or_eq_true, decide_eq_true_eq] at resumes
  obtain ⟨⟨⟨rests, noSlots⟩, framed⟩, ready⟩ := resumes
  have resting (σ' : Context) (tokens : Tokens) := @Fitting.resting layout law census st s tokens fit rests σ'
  have contHeld := fit.registers cont (by decide)
  have valHeld := fit.registers val (by decide)
  rw [back] at contHeld
  -- what is handed back is taken there
  have taken : label = fit.σ.back ∧ ∃ p, s.registers val = .pointer p ∧ census.Value law.strict fit.σ.returns p := by
    generalize s.registers val = contents at valHeld ⊢
    rcases ready with ⟨isBack, isValue⟩ | ⟨isExit, isValue⟩
    · cases contHeld.le isBack
      cases valHeld.le isValue with
      | value value => exact ⟨rfl, _, rfl, value⟩
    · rw [isExit] at contHeld
      cases contHeld with
      | exit allowed =>
        cases valHeld.le isValue with
        | value value =>
          refine ⟨rfl, _, rfl, ?_⟩
          cases value with
          | scalar value => exact .scalar value
          | primitive role => exact .primitive role
          | closure role => exact .closure role
          | returned role _ => exact .returned role allowed
  obtain ⟨rfl, p, val, value⟩ := taken
  obtain ⟨σ, debts, slots, slotTokens, base, baseTokens, heap, _, stack, row, ground, _, ledger⟩ := fit
  rw [noSlots] at row
  rw [framed] at ground
  cases row
  obtain ⟨frames, known⟩ := ground
  have returned (σ' : Context) (grade : Grade) (kinds : List Kind) (phase : Phase)
      (value : census.Value law.strict (grade.returns σ') p) :
      ∀ index < Evaluator.registers.length, Holds layout law census σ'
        ((State.given [(Listing.val, .value grade)] kinds phase).registers index) (s.registers index)
        (debts index) := by
    refine holds_given (fun index inside => resting σ' _ index inside) ?_
    simp only [List.forall_mem_cons, List.not_mem_nil, false_implies, implies_true, and_true]
    rw [val]
    exact .value value
  dsimp only at value ⊢
  generalize σ.back = label at frames ⊢
  generalize σ.returns = returns at frames value
  cases frames with
  | top =>
    have fit : Fitting layout law census (.given [(Listing.val, .value .free)] [] .ground)
        { s with position := Label.topLevelDone.position } :=
      ⟨σ, debts, [], 0, [], 0, heap, returned σ .free _ _ (value_of_le value fun _ => rfl), stack, .nil, ⟨rfl, known⟩,
        trivial, ledger⟩
    exact fit.admitted topLevelDone_verified
  | @row label grade kinds σ' slots base first rest _ point known' row frames allowed =>
    have fit : Fitting layout law census (.resumed grade kinds) { s with position := label.position } :=
      ⟨σ', debts, slots, first, base, rest, heap, returned σ' grade _ _ (value_of_le value allowed), stack, row,
        ⟨frames, known'⟩, trivial, by rwa [add_zero, ← add_assoc] at ledger⟩
    exact fit.admitted (returnPoints_verified label label.mem_all (grade, kinds) point)

end

end ExplicitControl.Evaluator
