import ExplicitControl.Proofs.Memory.Resemblance
import ExplicitControl.Proofs.Operation.Lockstep

namespace ExplicitControl

open ExplicitControl.Action

variable {lax : Prop} {build : Memory.Build} {left right : Memory}

namespace Environment

theorem declarationSymbol_congr (resembles : Memory.Resembles lax build left right) :
    declarationSymbol left = declarationSymbol right := by
  funext declaration
  simp only [declarationSymbol, resembles.programItem]

theorem statements_congr (resembles : Memory.Resembles lax build left right) : statements left = statements right := by
  funext body
  simp only [statements, resembles.program, resembles.programItem, resembles.programItems]

theorem declares_congr (resembles : Memory.Resembles lax build left right) : declares left = declares right := by
  funext statement
  simp only [declares, resembles.program]

theorem declaredNames_congr (resembles : Memory.Resembles lax build left right) :
    declaredNames left = declaredNames right := by
  funext body
  simp only [declaredNames, statements_congr resembles, declares_congr resembles,
    declarationSymbol_congr resembles]

theorem callNames_congr (resembles : Memory.Resembles lax build left right) : callNames left = callNames right := by
  funext function arguments
  simp only [callNames, parameterNames, declaredNames_congr resembles, resembles.item, resembles.items,
    resembles.programItem, resembles.programItems]

theorem allocBindings_steady (bindings : List Binding) : Steady lax build (allocBindings bindings) := by
  induction bindings with
  | nil => exact .pure _
  | cons binding rest ih => exact (Steady.allocReserved _ _).bind fun _ => ih.bind fun _ => .pure _

theorem push_steady (bindings : List Binding) (enclosing : Pointer) : Steady lax build (push bindings enclosing) := by
  refine (allocBindings_steady bindings).bind fun cells => ?_
  refine (Steady.buildList _).bind fun names => ?_
  refine (Steady.buildList cells).bind fun cells => ?_
  exact (Steady.allocReserved names cells).bind fun frame => .allocReserved frame enclosing

theorem allocPrimitives_steady (names : List String) : Steady lax build (allocPrimitives names) := by
  induction names with
  | nil => exact .pure _
  | cons name rest ih => exact (Steady.allocReserved _ _).bind fun _ => ih.bind fun _ => .pure _

theorem global_steady : Steady lax build global :=
  (Steady.reserve _ _).bind fun _ => (allocPrimitives_steady _).bind fun _ => push_steady _ _

theorem extendBlock_steady (body environment : Pointer) : Steady lax build (extendBlock body environment) := by
  refine (Steady.inspect fun _ _ resembles => by rw [declaredNames_congr resembles]).bind fun names => ?_
  exact (Steady.reserve _ _).bind fun moved => (push_steady _ _).bind fun _ => .pure _

/-- A call builds the same frame in memories that resemble one another: what
it reads are pairs in use and the program. -/
theorem extendCall_steady (function arguments : Pointer) : Steady lax build (extendCall function arguments) := by
  refine (Steady.inspect fun _ _ resembles => by rw [callNames_congr resembles]).bind fun names => ?_
  refine (Steady.reserve _ _).bind fun moved => ?_
  refine (Steady.inspect fun _ _ resembles => by rw [resembles.items]).bind fun values => ?_
  refine (Steady.inspect fun _ _ resembles => by rw [resembles.item]).bind fun closure => ?_
  exact (push_steady _ _).bind fun _ => .pure _

end Environment

theorem Tag.test_congr (tag : Tag) (resembles : Memory.Resembles lax build left right) :
    tag.test left = tag.test right := by
  funext p
  cases p with
  | pair address => simp only [Tag.test, resembles.head]
  | _ => rfl

theorem Signal.error_congr (signal : Signal) (resembles : Memory.Resembles lax build left right) (p : Pointer) :
    signal.error left p = signal.error right p := by
  cases signal <;> simp only [Signal.error, resembles.programHead]

theorem appendArgument_steady (value list : Pointer) : Steady lax build (appendArgument value list) := by
  refine (Steady.reserve _ _).bind fun moved => ?_
  refine (Steady.allocReserved _ _).bind fun cell => ?_
  split
  · exact .pure _
  · refine (Steady.inspect fun _ _ resembles => ?_).bind fun last => ?_
    · rw [resembles.lastPair, resembles.heap.free]
    · exact (Steady.setTail last cell).bind fun _ => .pure _

namespace HeapOperation

/-- Looking something up that reads the same gives the same, and changes
nothing. -/
theorem read_steady {f : Memory → Except Error Pointer} {operands : List Pointer}
    (reads : ∀ left right, Memory.Resembles lax build left right → f left = f right) :
    Steady lax build (do return (⟨← Action.inspect f, operands⟩ : Applied)) :=
  (Steady.inspect reads).bind fun _ => .pure _

/-- Every operation gives the same in memories that resemble one another,
whatever there is beyond the free address. -/
theorem run_steady (operation : HeapOperation) (operands : List Pointer) :
    Steady lax build (operation.run operands) := by
  unfold run
  split
  · exact .pure _
  · exact .pure _
  · exact .pure _
  · exact (Steady.allocPair _ _).bind fun _ => .pure _
  · exact read_steady fun _ _ resembles => by rw [resembles.head]
  · exact read_steady fun _ _ resembles => by rw [resembles.tail]
  · exact (Steady.setHead _ _).bind fun _ => .pure _
  · exact (Steady.setTail _ _).bind fun _ => .pure _
  · exact read_steady fun _ _ resembles => by rw [resembles.programHead]
  · exact read_steady fun _ _ resembles => by rw [resembles.programTail]
  · exact read_steady fun _ _ resembles => by rw [resembles.program]
  · exact Steady.clearStack.bind fun _ => .pure _
  · exact read_steady fun _ _ resembles => by rw [resembles.program]
  · exact read_steady fun _ _ resembles => by rw [resembles.programItem]
  · exact read_steady fun _ _ resembles => by rw [Environment.declarationSymbol_congr resembles]
  · exact read_steady fun _ _ resembles => by rw [resembles.programItem]
  · exact read_steady fun _ _ resembles => by rw [resembles.programItem]
  · exact read_steady fun _ _ resembles => by simp only [settlingValue, resembles.programItem]
  · exact Environment.global_steady.bind fun _ => .pure _
  · exact (Environment.extendBlock_steady _ _).bind fun _ => .pure _
  · exact (Environment.extendCall_steady _ _).bind fun _ => .pure _
  · exact (Steady.reserve _ _).bind fun _ => (Steady.buildList _).bind fun _ => .pure _
  · exact appendArgument_steady _ _
  · exact read_steady fun _ _ resembles => by rw [Tag.test_congr _ resembles]
  · exact read_steady fun _ _ resembles => by rw [resembles.item]
  · exact (Steady.reserve _ _).bind fun _ => (Steady.allocReserved _ _).bind fun _ => .pure _
  · exact read_steady fun _ _ resembles => by rw [resembles.tail]
  · exact read_steady fun _ _ resembles => by rw [Signal.error_congr _ resembles]
  · exact .fail _

end HeapOperation

namespace Operation

/-- A call is steady, if it is where it repeats. -/
theorem once_or_repeats {fuel : Nat} {name : String} {operation : Operation} {operands : List Pointer}
    (repeats : ∀ p q, Steady lax build (callFuel fuel name (.addressAware .applyPrimitive) [p, q])) :
    Steady lax build (callFuel fuel name operation operands) := by
  cases operation with
  | primitive primitive =>
    rw [callFuel_primitive]
    exact (Steady.inspect fun _ _ _ => rfl).bind fun _ => .pure _
  | addressAware operation =>
    by_cases twice : operation = .applyPrimitive ∧ operands.length = 2
    · obtain ⟨rfl, length⟩ := twice
      obtain ⟨p, q, rfl⟩ := List.length_eq_two.mp length
      exact repeats p q
    · rw [callFuel_run fuel name fun same length => twice ⟨same, length⟩]
      exact operation.run_steady operands

theorem callFuel_steady (fuel : Nat) (name : String) (operation : Operation) (operands : List Pointer) :
    Steady lax build (callFuel fuel name operation operands) := by
  induction fuel generalizing name operation operands with
  | zero => exact once_or_repeats fun p q => .fail _
  | succ fuel ih =>
    refine once_or_repeats fun p q => ?_
    refine (Steady.inspect fun _ _ resembles => by rw [resembles.tail]).bind fun symbol => ?_
    refine (Steady.inspect fun _ _ resembles => by rw [resembles.items]).bind fun inputs => ?_
    refine (Steady.inspect fun _ _ resembles => by rw [resembles.operations]).bind fun found => ?_
    exact ((ih _ found inputs).mapError countMistake).bind fun _ => .pure _

theorem call_steady (name : String) (operation : Operation) (operands : List Pointer) :
    Steady lax build (operation.call name operands) := by
  intro left right resembles
  unfold call
  rw [resembles.heap.free]
  exact callFuel_steady _ name operation operands left right resembles

end Operation

end ExplicitControl
