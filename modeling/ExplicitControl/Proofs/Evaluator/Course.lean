import ExplicitControl.Proofs.Evaluator.Instructions

namespace ExplicitControl.Evaluator

open Interpreter (Node Value Mistake Store Halt Interpretation)

/-- The register that an instruction writes. -/
def written : Code → Option Nat
  | .assign target _ => some target
  | .restore target => some target
  | _ => none

set_option maxRecDepth 4000 in
theorem listing_written : (listing.all fun code => (written code).all (· < registers.length)) = true := by
  rfl

theorem Follows.written_lt {position target : Nat} {code : Code} {codes : List Code}
    (follows : Follows position (code :: codes)) (writes : written code = some target) :
    target < registers.length := by
  have inside := List.all_eq_true.mp listing_written code (List.mem_of_getElem? follows.here)
  rw [writes] at inside
  exact of_decide_eq_true inside

/-- An instruction that neither saves nor restores, nor enters an expression:
that is where the form of one is asked for. -/
def Plain : Code → Prop
  | .save _ => False
  | .restore _ => False
  | .assign _ (.application application) => application.operation ≠ .addressAware .expressionKind
  | _ => True

/-- What an instruction makes of the trail: a register that is restored was
the last one saved. -/
inductive Marks (c : Config) : Code → List Mark → Prop
  | enter {label : Nat} : c.registers Listing.cont = .label label →
      Marks c (put Listing.e .expressionKind [Listing.exp])
        (.entered label (c.registers Listing.exp) (c.registers Listing.env) :: c.trail)
  | save (index : Nat) : Marks c (.save index) (.saved index (c.registers index) :: c.trail)
  | restore {index : Nat} {value : Contents} {trail : List Mark} :
      c.trail = .saved index value :: trail → Marks c (.restore index) trail
  | plain {code : Code} : Plain code → Marks c code c.trail

/-- An instruction leads from one place to another and leaves its marks. -/
structure Passes (layout : Layout) (c : Config) (position : Nat) (c' : Config) (position' : Nat) : Prop where
  reaches : Reaches layout.program 1 c position c' position'
  marks : ∃ code, listing[position]? = some code ∧ Marks c code c'.trail

/-- The course of a run, instruction by instruction. An expression is left at
the label that it was entered with, and the trail keeps account of what was
saved and of what was entered. -/
inductive Course (layout : Layout) : Nat → Config → Nat → Config → Nat → Prop
  | refl (c : Config) (position : Nat) : Course layout 0 c position c position
  | step {steps position position' position'' : Nat} {c c' c'' : Config} :
      Passes layout c position c' position' → Course layout steps c' position' c'' position'' →
      Course layout (steps + 1) c position c'' position''
  | left {steps position position' : Nat} {r : Nat → Contents} {trail : List Mark} {heap : Cells} {flag : Bool}
      {exp env : Contents} {c' : Config} : Course layout steps ⟨r, trail, heap, flag⟩ position c' position' →
      Course layout steps ⟨r, .entered position exp env :: trail, heap, flag⟩ position c' position'

namespace Course

variable {layout : Layout} {steps steps' position position' position'' : Nat} {c c' c'' : Config}

theorem trans (first : Course layout steps c position c' position')
    (next : Course layout steps' c' position' c'' position'') :
    Course layout (steps' + steps) c position c'' position'' := by
  induction first with
  | refl => exact next
  | step passes _ ih => exact .step passes (ih next)
  | left _ ih => exact .left (ih next)

/-- Apart from its marks, a course is where the machine comes to. -/
theorem reaches (course : Course layout steps c position c' position') :
    Reaches layout.program steps c position c' position' := by
  induction course with
  | refl c position => exact .refl _ c position
  | step passes _ ih => exact passes.reaches.trans ih
  | left _ ih =>
    obtain ⟨bound, runs⟩ := ih
    exact ⟨bound, fun machine stands => runs machine (Stands.unmarked.mp stands)⟩

end Course

/-- A run from a position on goes along with the interpreter. A result is
reached and described by `post`; a mistake shows as an error; and where the
interpreter was not let go deep enough, the run takes at least `n` steps. -/
inductive LeadsFrom {α : Type} (layout : Layout) (n : Nat) (position : Nat) (c : Config)
    (post : α → Store → Config → Nat → Prop) : EStateM.Result Halt Store α → Prop
  | ok {a : α} {store : Store} {steps : Nat} {c' : Config} {position' : Nat} :
      Course layout steps c position c' position' → post a store c' position' →
      LeadsFrom layout n position c post (.ok a store)
  | mistake {m : Mistake} {store : Store} {steps : Nat} {c' : Config} {position' : Nat} :
      Course layout steps c position c' position' →
      Fails layout.program 1 c' position' (m.Shows layout.locate) →
      LeadsFrom layout n position c post (.error (.mistake m) store)
  | unfinished {store : Store} {steps : Nat} {c' : Config} {position' : Nat} :
      Course layout steps c position c' position' → n ≤ steps →
      LeadsFrom layout n position c post (.error .unfinished store)

/-- A run through given instructions goes along with the interpreter. -/
def Leads {α : Type} (layout : Layout) (n : Nat) (codes : List Code) (c : Config)
    (post : α → Store → Config → Nat → Prop) (result : EStateM.Result Halt Store α) : Prop :=
  ∀ position, Follows position codes → LeadsFrom layout n position c post result

variable {α β : Type} {layout : Layout} {n position : Nat} {c c' : Config} {codes codes' : List Code}
  {post : α → Store → Config → Nat → Prop} {post' : β → Store → Config → Nat → Prop}
  {result : EStateM.Result Halt Store α} {store : Store}

theorem LeadsFrom.after {steps position' : Nat} (course : Course layout steps c position c' position')
    (next : LeadsFrom layout n position' c' post result) :
    LeadsFrom layout (n + steps) position c post result := by
  cases next with
  | ok further holds => exact .ok (course.trans further) holds
  | mistake further fails => exact .mistake (course.trans further) fails
  | unfinished further enough => exact .unfinished (course.trans further) (by omega)

theorem LeadsFrom.mono {n' : Nat} (leads : LeadsFrom layout n position c post result) (le : n' ≤ n) :
    LeadsFrom layout n' position c post result := by
  cases leads with
  | ok course holds => exact .ok course holds
  | mistake course fails => exact .mistake course fails
  | unfinished course enough => exact .unfinished course (le.trans enough)

/-- What is described at the end may be what is left of it without steps. -/
theorem LeadsFrom.imp {post' : α → Store → Config → Nat → Prop}
    (leads : LeadsFrom layout n position c post result)
    (weaker : ∀ a store c position, post a store c position →
      ∃ c', Course layout 0 c position c' position ∧ post' a store c' position) :
    LeadsFrom layout n position c post' result := by
  cases leads with
  | ok course holds =>
    obtain ⟨c', further, holds'⟩ := weaker _ _ _ _ holds
    exact .ok (course.trans further) holds'
  | mistake course fails => exact .mistake course fails
  | unfinished course enough => exact .unfinished course enough

/-- Where the interpreter goes on with what it has got, the machine goes on
from where it has come to. -/
theorem LeadsFrom.bind {x : Interpretation α} {f : α → Interpretation β}
    (first : LeadsFrom layout n position c post (x store))
    (next : ∀ a store' c' position', post a store' c' position' →
      LeadsFrom layout n position' c' post' (f a store')) :
    LeadsFrom layout n position c post' ((x >>= f) store) := by
  change LeadsFrom layout n position c post' (EStateM.bind x f store)
  unfold EStateM.bind
  generalize x store = outcome at first
  cases first with
  | ok course holds => exact ((next _ _ _ _ holds).after course).mono (Nat.le_add_right n _)
  | mistake course fails => exact .mistake course fails
  | unfinished course enough => exact .unfinished course enough

namespace Leads

theorem mono {n' : Nat} (leads : Leads layout n codes c post result) (le : n' ≤ n) :
    Leads layout n' codes c post result :=
  fun position follows => (leads position follows).mono le

theorem bind {x : Interpretation α} {f : α → Interpretation β}
    (first : Leads layout n codes c post (x store))
    (next : ∀ a store' c' position', post a store' c' position' →
      LeadsFrom layout n position' c' post' (f a store')) :
    Leads layout n codes c post' ((x >>= f) store) :=
  fun position follows => (first position follows).bind next

theorem imp {post' : α → Store → Config → Nat → Prop} (leads : Leads layout n codes c post result)
    (weaker : ∀ a store c position, post a store c position → post' a store c position) :
    Leads layout n codes c post' result :=
  fun position follows => (leads position follows).imp fun a store c position holds =>
    ⟨c, .refl c position, weaker a store c position holds⟩

/-- An instruction that was carried out counts as a step. -/
theorem step {code : Code} (leads : Leads layout n codes c' post result) (marks : Marks c code c'.trail)
    (reaches : ∀ position, Follows position (code :: codes) →
      Reaches layout.program 1 c position c' (position + 1)) :
    Leads layout (n + 1) (code :: codes) c post result :=
  fun position follows => (leads _ follows.next).after
    (.step ⟨reaches position follows, code, follows.here, marks⟩ (.refl c' _))

theorem jump {code : Code} {target : Nat} (leads : LeadsFrom layout n target c post result) (plain : Plain code)
    (reaches : ∀ position, Follows position (code :: codes) → Reaches layout.program 1 c position c target) :
    Leads layout n (code :: codes) c post result :=
  fun position follows => (leads.after (.step ⟨reaches position follows, code, follows.here, .plain plain⟩
    (.refl c _))).mono (Nat.le_succ n)

theorem leave {label : Nat} (leads : LeadsFrom layout n label c post result) :
    Leads layout n (.goto label :: codes) c post result :=
  jump leads trivial fun _ here => .goto here

theorem goto {label : Nat} (leads : Leads layout n codes' c post result) (follows : Follows label codes') :
    Leads layout n (.goto label :: codes) c post result :=
  leave (leads label follows)

theorem gotoRegister {index label : Nat} (held : c.registers index = .label label)
    (leads : LeadsFrom layout n label c post result) :
    Leads layout n (.gotoRegister index :: codes) c post result :=
  jump leads trivial fun _ here => .gotoRegister held here

theorem proceed {code : Code} (leads : Leads layout n codes c' post result) (marks : Marks c code c'.trail)
    (reaches : ∀ position, Follows position (code :: codes) →
      Reaches layout.program 1 c position c' (position + 1)) :
    Leads layout n (code :: codes) c post result :=
  (leads.step marks reaches).mono (Nat.le_succ n)

section

variable {r : Nat → Contents} {trail : List Mark} {heap : Cells} {flag : Bool} {target index : Nat}

theorem assignRegister
    (leads : Leads layout n codes ⟨write r target (r index), trail, heap, flag⟩ post result) :
    Leads layout n (.assign target (.register index) :: codes) ⟨r, trail, heap, flag⟩ post result :=
  leads.proceed (.plain trivial) fun _ here => .assignRegister (here.written_lt rfl) here

theorem assignConstant {value : Pointer}
    (leads : Leads layout n codes ⟨write r target (.pointer value), trail, heap, flag⟩ post result) :
    Leads layout n (.assign target (.constant value) :: codes) ⟨r, trail, heap, flag⟩ post result :=
  leads.proceed (.plain trivial) fun _ here => .assignConstant (here.written_lt rfl) here

theorem assignLabel {label : Nat}
    (leads : Leads layout n codes ⟨write r target (.label label), trail, heap, flag⟩ post result) :
    Leads layout n (.assign target (.label label) :: codes) ⟨r, trail, heap, flag⟩ post result :=
  leads.proceed (.plain trivial) fun _ here => .assignLabel (here.written_lt rfl) here

theorem save (leads : Leads layout n codes ⟨r, .saved index (r index) :: trail, heap, flag⟩ post result) :
    Leads layout n (.save index :: codes) ⟨r, trail, heap, flag⟩ post result :=
  leads.proceed (.save index) fun _ here => .save here

theorem saveHeld {value : Contents} (held : r index = value)
    (leads : Leads layout n codes ⟨r, .saved index value :: trail, heap, flag⟩ post result) :
    Leads layout n (.save index :: codes) ⟨r, trail, heap, flag⟩ post result :=
  save (held.symm ▸ leads)

theorem restore {value : Contents}
    (leads : Leads layout n codes ⟨write r target value, trail, heap, flag⟩ post result) :
    Leads layout n (.restore target :: codes) ⟨r, .saved target value :: trail, heap, flag⟩ post result :=
  leads.proceed (.restore rfl) fun _ here => .restore (here.written_lt rfl) here

theorem clearStack (leads : Leads layout n codes ⟨r, [], heap, flag⟩ post result) :
    Leads layout n (Evaluator.act .clearStack [] :: codes) ⟨r, [], heap, flag⟩ post result :=
  leads.proceed (.plain trivial) fun _ here => .clearStack here

variable {inputs : List Input} {ps : List Pointer} {operation : HeapOperation} {cells : Cells}
  {value : Pointer} {m : Mistake}

theorem put (plain : operation ≠ .expressionKind)
    (supplies : Config.Supplies ⟨r, trail, heap, flag⟩ inputs ps)
    (yields : Yields layout operation ps heap value cells)
    (leads : Leads layout n codes ⟨write r target (.pointer value), trail, cells, flag⟩ post result) :
    Leads layout n (.assign target (.application (use operation inputs)) :: codes) ⟨r, trail, heap, flag⟩
      post result :=
  leads.proceed (.plain fun same => plain (Operation.addressAware.inj same)) fun _ here =>
    .put supplies yields (here.written_lt rfl) here

theorem put_fails (supplies : Config.Supplies ⟨r, trail, heap, flag⟩ inputs ps)
    (declines : Declines layout operation ps heap m) :
    Leads layout n (.assign target (.application (use operation inputs)) :: codes) ⟨r, trail, heap, flag⟩
      post (.error (.mistake m) store) :=
  fun position here => .mistake (.refl _ position) (.put supplies declines here)

theorem act (supplies : Config.Supplies ⟨r, trail, heap, flag⟩ inputs ps)
    (yields : Yields layout operation ps heap value cells)
    (leads : Leads layout n codes ⟨r, trail, cells, flag⟩ post result) :
    Leads layout n (.perform (use operation inputs) :: codes) ⟨r, trail, heap, flag⟩ post result :=
  leads.proceed (.plain trivial) fun _ here => .act supplies yields here

theorem act_fails (supplies : Config.Supplies ⟨r, trail, heap, flag⟩ inputs ps)
    (declines : Declines layout operation ps heap m) :
    Leads layout n (.perform (use operation inputs) :: codes) ⟨r, trail, heap, flag⟩ post
      (.error (.mistake m) store) :=
  fun position here => .mistake (.refl _ position) (.act supplies declines here)

theorem ask {flag' : Bool} (supplies : Config.Supplies ⟨r, trail, heap, flag⟩ inputs ps)
    (yields : Yields layout operation ps heap (.bool flag') heap)
    (leads : Leads layout n codes ⟨r, trail, heap, flag'⟩ post result) :
    Leads layout n (.test (use operation inputs) :: codes) ⟨r, trail, heap, flag⟩ post result :=
  leads.proceed (.plain trivial) fun _ here => .ask supplies yields here

end

theorem branch {label : Nat} (flag : c.flag = true) (leads : LeadsFrom layout n label c post result) :
    Leads layout n (.branch label :: codes) c post result :=
  jump leads trivial fun _ here => .branch_taken flag here

theorem branch_taken {label : Nat} (flag : c.flag = true) (follows : Follows label codes')
    (leads : Leads layout n codes' c post result) : Leads layout n (.branch label :: codes) c post result :=
  branch flag (leads label follows)

theorem branch_passed {label : Nat} (flag : c.flag = false) (leads : Leads layout n codes c post result) :
    Leads layout n (.branch label :: codes) c post result :=
  leads.proceed (.plain trivial) fun _ here => .branch_passed flag here

end Leads

end ExplicitControl.Evaluator
