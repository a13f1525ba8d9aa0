import ExplicitControl.Proofs.Memory.Collection

namespace ExplicitControl

/-- The error with every pair address put through a function. -/
def ValueError.rename (f : Nat → Nat) : ValueError → ValueError
  | .notScalar p => .notScalar (p.rename f)
  | .notPair p => .notPair (p.rename f)
  | .notProgramPair p => .notProgramPair (p.rename f)
  | other => other

@[inherit_doc ValueError.rename]
def MachineError.rename (f : Nat → Nat) : MachineError → MachineError
  | .notLabel register held => .notLabel register (held.rename f)
  | .notPointer operation register held => .notPointer operation register (held.rename f)
  | .notBoolean operation p => .notBoolean operation (p.rename f)
  | .endless p => .endless (p.rename f)
  | other => other

@[inherit_doc ValueError.rename]
def EvalError.rename (f : Nat → Nat) : EvalError → EvalError
  | .unboundName p => .unboundName (p.rename f)
  | .useBeforeDeclaration p => .useBeforeDeclaration (p.rename f)
  | .assignToConstant p => .assignToConstant (p.rename f)
  | .duplicateDeclaration p => .duplicateDeclaration (p.rename f)
  | .unknownExpression p => .unknownExpression (p.rename f)
  | .unknownOperator p => .unknownOperator (p.rename f)
  | .unknownFunction p => .unknownFunction (p.rename f)
  | .nonBooleanPredicate p => .nonBooleanPredicate (p.rename f)
  | .tooMany expected got => .tooMany expected got
  | .tooFew expected got => .tooFew expected got

namespace Error

@[inherit_doc ValueError.rename]
def rename (f : Nat → Nat) : Error → Error
  | .value cause => .value (cause.rename f)
  | .heap cause => .heap cause
  | .machine cause => .machine (cause.rename f)
  | .eval cause => .eval (cause.rename f)

/-- The same error, but for the addresses of pairs in it. A name that no
operation has may be the text of a pair, which shows its address, and such
names may differ as the addresses do. -/
inductive Alike : Error → Error → Prop
  | addresses {e e' : Error} : e.rename (fun _ => 0) = e'.rename (fun _ => 0) → Alike e e'
  | named (a b : Nat) : Alike (.machine (.unknownOperation (Pointer.pair a).display))
      (.machine (.unknownOperation (Pointer.pair b).display))

/-- A reference was followed to where no pair is. -/
def Dangles : Error → Prop
  | .heap (.fault .pair _ _) => True
  | .heap (.overrun _ _) => True
  | _ => False

/-- Live pairs left too little room. -/
def Exhausts : Error → Prop
  | .heap (.exhausted _ _) => True
  | _ => False

theorem Alike.refl (e : Error) : e.Alike e :=
  .addresses rfl

/-- Only one that ran out of room is like another: running out of room names
no address. -/
theorem Alike.exhausts {e e' : Error} (alike : e.Alike e') (exhausts : e'.Exhausts) : e.Exhausts := by
  cases alike with
  | addresses same =>
    cases e with
    | heap cause =>
      cases e' with
      | heap cause' =>
        simp only [rename, Error.heap.injEq] at same
        exact same ▸ exhausts
      | value cause' => exact exhausts.elim
      | machine cause' => exact exhausts.elim
      | eval cause' => exact exhausts.elim
    | value cause => cases e' <;> first | exact exhausts.elim | simp [rename] at same
    | machine cause => cases e' <;> first | exact exhausts.elim | simp [rename] at same
    | eval cause => cases e' <;> first | exact exhausts.elim | simp [rename] at same
  | named a b => exact exhausts.elim

end Error

theorem Pointer.Matches.rename_zero {ρ : Nat → Nat → Prop} {p q : Pointer}
    (matched : p.Matches ρ q) : p.rename (fun _ => 0) = q.rename (fun _ => 0) := by
  cases matched <;> rfl

theorem Contents.Matches.rename_zero {ρ : Nat → Nat → Prop} {c d : Contents}
    (matched : c.Matches ρ d) : c.rename (fun _ => 0) = d.rename (fun _ => 0) := by
  cases matched with
  | pointer inner => exact congrArg Contents.pointer inner.rename_zero
  | label position => rfl
  | unassigned => rfl

/-- A computation that gives a result gave one at each of its steps. -/
theorem Read.bind_eq_ok_iff {ε α β : Type} {x : Except ε α} {f : α → Except ε β} {b : β} :
    x >>= f = .ok b ↔ ∃ a, x = .ok a ∧ f a = .ok b := by
  cases x with
  | error e => simp [bind, Except.bind]
  | ok a => simp [bind, Except.bind]

/-- A computation whose result passes a check, if it has one, has one. Closed
computations are carried out by deciding the check. -/
theorem Read.exists_of_any {ε α : Type} {x : Except ε α} {p : α → Bool} (works : x.toOption.any p) :
    ∃ a, x = .ok a ∧ p a := by
  cases x with
  | ok a => exact ⟨a, rfl, works⟩
  | error e => exact absurd works Bool.false_ne_true

/-- What is looked up in two memories belongs together: related results, or
errors that are alike. -/
inductive Read.Tied {α β : Type} (rel : α → β → Prop) : Except Error α → Except Error β → Prop
  | ok {a : α} {b : β} : rel a b → Tied rel (.ok a) (.ok b)
  | error {e e' : Error} : e.Alike e' → ¬ e.Dangles → Tied rel (.error e) (.error e')

namespace Read.Tied

variable {α β γ δ : Type} {rel : α → β → Prop} {rel' : γ → δ → Prop}

theorem bind {x : Except Error α} {y : Except Error β} {f : α → Except Error γ}
    {g : β → Except Error δ} (first : Tied rel x y)
    (next : ∀ a b, rel a b → Tied rel' (f a) (g b)) : Tied rel' (x >>= f) (y >>= g) := by
  cases first with
  | ok related => exact next _ _ related
  | error alike safe => exact .error alike safe

theorem mono {rel' : α → β → Prop} {x : Except Error α} {y : Except Error β}
    (tied : Tied rel x y) (weaker : ∀ a b, rel a b → rel' a b) : Tied rel' x y := by
  cases tied with
  | ok related => exact .ok (weaker _ _ related)
  | error alike safe => exact .error alike safe

end Read.Tied

/-- Memories that count the same pushes, depth and allocations. -/
structure Memory.Tallies (left right : Memory) : Prop where
  pushes : left.stack.pushes = right.stack.pushes
  maxDepth : left.stack.maxDepth = right.stack.maxDepth
  allocated : left.heap.statistics.allocated = right.heap.statistics.allocated

theorem Memory.Matches.tallies {ρ : Nat → Nat → Prop} {left right : Memory}
    (matched : left.Matches ρ right) : left.Tallies right :=
  ⟨matched.pushes, matched.maxDepth, matched.allocated⟩

/-- What a computation leaves in two states belongs together: states and
results that are related, or errors that are alike. States in which it failed
need only agree. Nothing is said where the one on the left runs out of room. -/
inductive Run.Tied {S α β : Type} (agree : S → S → Prop) (post : α → S → β → S → Prop) :
    EStateM.Result Error S α → EStateM.Result Error S β → Prop
  | ok {a : α} {b : β} {left right : S} : post a left b right →
      Tied agree post (.ok a left) (.ok b right)
  | error {e e' : Error} {left right : S} : e.Alike e' → ¬ e.Dangles → agree left right →
      Tied agree post (.error e left) (.error e' right)
  | exhausted {e : Error} {left : S} {result : EStateM.Result Error S β} :
      e.Exhausts → Tied agree post (.error e left) result

namespace Run.Tied

variable {S α β γ δ : Type} {agree : S → S → Prop} {post : α → S → β → S → Prop}
  {post' : γ → S → δ → S → Prop} {left right : S}

theorem bind {x : EStateM Error S α} {y : EStateM Error S β} {f : α → EStateM Error S γ}
    {g : β → EStateM Error S δ} (first : Tied agree post (x left) (y right))
    (next : ∀ a l b r, post a l b r → Tied agree post' (f a l) (g b r)) :
    Tied agree post' ((x >>= f) left) ((y >>= g) right) := by
  change Tied agree post' (EStateM.bind x f left) (EStateM.bind y g right)
  cases outcome : x left with
  | ok a l =>
    cases outcome' : y right with
    | ok b r =>
      rw [outcome, outcome'] at first
      cases first with | ok related => simpa only [EStateM.bind, outcome, outcome'] using next _ _ _ _ related
    | error e' r => rw [outcome, outcome'] at first; cases first
  | error e l =>
    rw [outcome] at first
    simp only [EStateM.bind, outcome]
    generalize y right = result at first
    cases first with
    | error alike safe agreed => exact .error alike safe agreed
    | exhausted exhausts => exact .exhausted exhausts

theorem mono {post' : α → S → β → S → Prop}
    {x : EStateM.Result Error S α} {y : EStateM.Result Error S β}
    (tied : Tied agree post x y) (weaker : ∀ a l b r, post a l b r → post' a l b r) :
    Tied agree post' x y := by
  cases tied with
  | ok related => exact .ok (weaker _ _ _ _ related)
  | error alike safe agreed => exact .error alike safe agreed
  | exhausted exhausts => exact .exhausted exhausts

end Run.Tied

/-- What an action leaves in two memories belongs together. -/
abbrev Action.Tied {α β : Type} (post : α → Memory → β → Memory → Prop) :
    EStateM.Result Error Memory α → EStateM.Result Error Memory β → Prop :=
  Run.Tied Memory.Tallies post

theorem Action.Tied.inspect {α β : Type} {left right : Memory} {f : Memory → Except Error α}
    {g : Memory → Except Error β} {rel : α → β → Prop}
    (read : Read.Tied rel (f left) (g right)) (tallies : left.Tallies right) :
    Action.Tied (fun a l b r => l = left ∧ r = right ∧ rel a b) (Action.inspect f left)
      (Action.inspect g right) := by
  unfold Action.inspect
  generalize f left = x at read
  generalize g right = y at read
  cases read with
  | ok related => exact .ok ⟨rfl, rfl, related⟩
  | error alike safe => exact .error alike safe tallies

end ExplicitControl
