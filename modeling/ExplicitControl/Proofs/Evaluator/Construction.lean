import ExplicitControl.Proofs.Evaluator.Effects

namespace ExplicitControl.Evaluator

open Interpreter

variable {layout : Layout} {w w' w'' : World layout}

/-- A later world in which the store is as before and nothing got an
identity. -/
structure World.Still (w w' : World layout) : Prop where
  store : w'.store = w.store
  thing : ∀ i a, w'.picture.thing i a → w.picture.thing i a

theorem World.Still.refl (w : World layout) : w.Still w :=
  ⟨rfl, fun _ _ => id⟩

theorem World.Still.trans (one : w.Still w') (other : w'.Still w'') : w.Still w'' :=
  ⟨other.store.trans one.store, fun i a thing => one.thing i a (other.thing i a thing)⟩

/-- An action allocates so many pairs and leads to a later world. -/
def Builds {α : Type} (count : Nat) (action : Action α) (w : World layout)
    (post : α → World layout → Prop) : Prop :=
  ∃ value w', Action.Gives layout.program table action w.heap value w'.heap ∧ w.Extends w' ∧
    w'.heap.length = w.heap.length + count ∧ post value w'

namespace Builds

variable {α β : Type} {count more : Nat} {post : α → World layout → Prop} {post' : β → World layout → Prop}

theorem pure {value : α} (holds : post value w) : Builds 0 (Pure.pure value : Action α) w post :=
  ⟨value, w, .pure _ _, .refl w, rfl, holds⟩

theorem bind {x : Action α} {f : α → Action β} (first : Builds count x w post)
    (next : ∀ value w', w.Extends w' → post value w' → Builds more (f value) w' post') :
    Builds (count + more) (x >>= f) w post' := by
  obtain ⟨value, w', gives, grows, length, holds⟩ := first
  obtain ⟨value', w'', gives', grows', length', holds'⟩ := next value w' grows holds
  exact ⟨value', w'', gives.bind gives', grows.trans grows', by omega, holds'⟩

theorem mono {action : Action α} {post' : α → World layout → Prop} (builds : Builds count action w post)
    (weaker : ∀ value w', w.Extends w' → post value w' → post' value w') : Builds count action w post' := by
  obtain ⟨value, w', gives, grows, length, holds⟩ := builds
  exact ⟨value, w', gives, grows, length, weaker value w' grows holds⟩

theorem reserve {pending : List Pointer} {f : List Pointer → Action β} {post : β → World layout → Prop}
    (next : Builds count (f pending) w post) : Builds count (Action.reserve count pending >>= f) w post := by
  obtain ⟨value, w', gives, grows, length, holds⟩ := next
  exact ⟨value, w', gives.reserve length.ge, grows, length, holds⟩

/-- A pair that stays as it is, and stands for nothing yet. -/
theorem allocReserved (p q : Pointer) (w : World layout) :
    Builds 1 (Action.allocReserved p q) w fun value w' =>
      value = .pair w.heap.length ∧ w'.picture.holds w.heap.length p q ∧ w.Still w' := by
  let added := w.add p q
  have loose : added.Loose w.heap.length := w.add_loose p q
  refine ⟨_, added.fix loose (w.add_heap p q), .allocReserved p q w.heap,
    World.fix_extends (w.add_extends p q) loose _ (Nat.le_refl _), ?_, rfl, .inr rfl, ⟨rfl, fun _ _ => id⟩⟩
  simp [World.fix, added, World.add]

theorem buildList (items : List Pointer) (w : World layout) :
    Builds items.length (Action.buildList items) w fun value w' =>
      w'.picture.Lists items value ∧ w.Still w' ∧ ∀ a, value = .pair a → w.heap.length ≤ a := by
  induction items with
  | nil => exact .pure ⟨.nil, .refl w, fun a same => by cases same⟩
  | cons item items ih =>
    refine ih.bind ?_
    rintro rest w₁ grows₁ ⟨lists, still, _⟩
    refine (allocReserved item rest w₁).mono ?_
    rintro value w₂ grows₂ ⟨rfl, holds, still'⟩
    refine ⟨.cons holds (lists.mono grows₂.picture), still.trans still', fun a same => ?_⟩
    cases same
    exact grows₁.length

end Builds

/-- Something new gets an identity, which belongs to no other value. -/
theorem World.exists_identified {a made : Nat} {identity : Identity} (grows : w.Extends w') (still : w.Still w')
    (below : a < w'.heap.length) (new : w.heap.length ≤ a) (unused : ∀ b, ¬ w.picture.thing identity b)
    (more : w.store.made ≤ made) (counts : ∀ n, identity = .made n → n < made) :
    ∃ w'' : World layout, w.Extends w'' ∧ w'.picture.Le w''.picture ∧ w''.heap = w'.heap ∧
      w''.picture.thing identity a ∧ (∀ i b, w''.picture.thing i b → w.picture.thing i b ∨ i = identity) ∧
      w''.store = { w.store with made := made } := by
  have newThing (b : Nat) : ¬ w'.picture.thing identity b := fun thing =>
    unused b (still.thing identity b thing)
  have newAddress (i : Identity) : ¬ w'.picture.thing i a := fun thing =>
    absurd (w.inside i a (still.thing i a thing)) (Nat.not_lt.mpr new)
  have more' : w'.store.made ≤ made := by rw [still.store]; exact more
  refine ⟨w'.identify _ below newThing newAddress more' counts,
    World.identify_extends grows below newThing newAddress more' counts, ⟨id, .inl, id⟩, rfl, .inr rfl, ?_, ?_⟩
  · rintro i b (old | same)
    · exact .inl (still.thing i b old)
    · cases same
      exact .inr rfl
  · simp only [World.identify, still.store]

/-- Something new gets the next identity, as in the interpreter. -/
theorem World.exists_made {a : Nat} (grows : w.Extends w') (still : w.Still w')
    (below : a < w'.heap.length) (new : w.heap.length ≤ a) :
    ∃ w'' : World layout, w.Extends w'' ∧ w'.picture.Le w''.picture ∧ w''.heap = w'.heap ∧
      w''.picture.thing (.made w.store.made) a ∧ w''.store = { w.store with made := w.store.made + 1 } := by
  have unused (b : Nat) : ¬ w.picture.thing (.made w.store.made) b := fun thing =>
    absurd (w.counted _ _ thing) (Nat.lt_irrefl _)
  have counts : ∀ n, Identity.made w.store.made = .made n → n < w.store.made + 1 := by
    intro n same
    cases same
    exact Nat.lt_succ_self _
  obtain ⟨w'', grows', more, heap, thing, _, store⟩ :=
    World.exists_identified grows still below new unused (Nat.le_succ _) counts
  exact ⟨w'', grows', more, heap, thing, store⟩

/-- A function value is made of four pairs that hold what the interpreter has
in the closure. -/
theorem makeCompound_yields {parameters body : Node} {environment : List Frame} {e : Pointer}
    (parametersPlaced : parameters.Placed layout.program layout.locate)
    (bodyPlaced : body.Placed layout.program layout.locate)
    (depicts : w.picture.Environment layout environment e) :
    ∃ p w', Yields layout .makeCompound [parameters.point layout.locate, body.point layout.locate, e]
        w.heap p w'.heap ∧ w.Extends w' ∧
      w'.picture.Depicts layout (.closure w.store.made parameters body environment) p ∧
      w'.store = { w.store with made := w.store.made + 1 } := by
  obtain ⟨p, w₁, gives, grows, length, lists, still, new⟩ := Builds.buildList
    [.string Tag.compound.text, parameters.point layout.locate, body.point layout.locate, e] w
  cases lists with
  | @cons _ _ a _ tag lists =>
    cases lists with
    | cons first lists =>
      cases lists with
      | cons second lists =>
        cases lists with
        | cons third lists =>
          cases lists
          obtain ⟨w₂, grows', more, heap, thing, store⟩ :=
            World.exists_made grows still (World.holds_lt tag) (new a rfl)
          refine ⟨.pair a, w₂, ?_, grows', ?_, store⟩
          · rw [heap]
            exact .of_run (by simp) (Action.Gives.reserve length.ge (gives.bind (.pure _ _)))
          · exact .closure thing (more.holds tag) (more.holds first) (more.holds second) (more.holds third)
              parametersPlaced bodyPlaced (depicts.mono grows'.picture)

/-- A return value is one pair around what is returned. -/
theorem makeReturn_yields {content : Value} {p : Pointer} (depicts : w.picture.Depicts layout content p) :
    ∃ q w', Yields layout .makeReturn [p] w.heap q w'.heap ∧ w.Extends w' ∧
      w'.picture.Depicts layout (.returned w.store.made content) q ∧
      w'.store = { w.store with made := w.store.made + 1 } := by
  obtain ⟨_, w₁, gives, grows, length, rfl, holds, still⟩ :=
    Builds.allocReserved (.string Tag.returnValue.text) p w
  obtain ⟨w₂, grows', more, heap, thing, store⟩ :=
    World.exists_made grows still (World.holds_lt holds) (Nat.le_refl _)
  refine ⟨_, w₂, ?_, grows', .returned thing (more.holds holds) (depicts.mono grows'.picture), store⟩
  rw [heap]
  exact .of_run (by simp) (Action.Gives.reserve length.ge (gives.bind (.pure _ _)))

end ExplicitControl.Evaluator
