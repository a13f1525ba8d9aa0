import ExplicitControl.Proofs.Evaluator.Construction

namespace ExplicitControl.Evaluator

open Interpreter

variable {layout : Layout} {w w' : World layout}

/-- A binding that is about to be allocated, and the name and cell it is
for. -/
structure Pictured (layout : Layout) (π : Picture) (binding : Binding) (entry : Node × Cell) : Prop where
  name : binding.name = entry.1.point layout.locate
  value : π.Depicts layout entry.2.value binding.value
  flag : binding.flag = entry.2.flag.pointer

theorem Pictured.mono {π σ : Picture} {binding : Binding} {entry : Node × Cell}
    (pictured : Pictured layout π binding entry) (le : π.Le σ) :
    Pictured layout σ binding entry :=
  { pictured with value := pictured.value.mono le }

theorem Picture.Bindings.of_lists {π : Picture} {symbols : List Node} {locations addresses : List Nat}
    {names cells : Pointer} (row : List.Forall₂ π.cell locations addresses)
    (nameList : π.Lists (symbols.map (Node.point layout.locate)) names)
    (cellList : π.Lists (addresses.map .pair) cells) (same : symbols.length = locations.length) :
    π.Bindings layout (symbols.zip locations) names cells := by
  induction row generalizing symbols names cells with
  | nil =>
    obtain rfl : symbols = [] := List.length_eq_zero_iff.mp same
    cases nameList
    cases cellList
    exact .nil
  | cons first _ ih =>
    cases symbols with
    | nil => cases same
    | cons symbol symbols =>
      cases nameList with
      | cons name names =>
        cases cellList with
        | cons cell cells => exact .cons name cell first (ih names cells (Nat.succ.inj same))

namespace Builds

theorem allocBindings {bindings : List Binding} {entries : List (Node × Cell)}
    (row : List.Forall₂ (Pictured layout w.picture) bindings entries) :
    Builds bindings.length (Environment.allocBindings bindings) w fun cells w' =>
      ∃ addresses, cells = addresses.map .pair ∧
        List.Forall₂ w'.picture.cell (List.range' w.store.cells.length entries.length) addresses ∧
        w'.store = { w.store with cells := w.store.cells ++ entries.map Prod.snd } := by
  induction bindings generalizing w entries with
  | nil =>
    cases row
    exact .pure ⟨[], rfl, .nil, by simp⟩
  | cons binding bindings ih =>
    cases row with
    | @cons _ entry _ entries first rest =>
      -- the pair is added first and then becomes the cell of the next location
      let added := w.add binding.value binding.flag
      have loose : added.Loose w.heap.length := w.add_loose _ _
      have held : added.heap[w.heap.length]? = some (binding.value, entry.2.flag.pointer) := by
        rw [← first.flag]
        exact w.add_heap _ _
      let bound := added.bind loose entry.2 held first.value
      have allocated : Builds 1 (Action.allocReserved binding.value binding.flag) w fun cell w' =>
          cell = .pair w.heap.length ∧ w' = bound :=
        ⟨_, bound, .allocReserved _ _ w.heap,
          World.bind_extends (w.add_extends _ _) loose entry.2 held first.value (Nat.le_refl _),
          by simp [bound, World.bind, added, World.add], rfl, rfl⟩
      have count : (binding :: bindings).length = 1 + (bindings.length + 0) := by
        simp only [List.length_cons]
        omega
      rw [count]
      refine allocated.bind ?_
      rintro _ _ grows ⟨rfl, rfl⟩
      refine (ih (rest.imp fun _ _ pictured => pictured.mono grows.picture)).bind ?_
      rintro _ w₂ grows₂ ⟨addresses, rfl, cells, store⟩
      refine .pure ⟨w.heap.length :: addresses, rfl, ?_, ?_⟩
      · rw [List.length_cons, List.range'_succ]
        refine .cons (grows₂.picture.cell (.inr rfl)) ?_
        simpa [bound, World.bind, added, World.add] using cells
      · rw [store]
        simp [bound, World.bind, added, World.add]

/-- A new frame is what the interpreter opens: the same names, with cells that
stand for the new locations. -/
theorem push {bindings : List Binding} {entries : List (Node × Cell)} {environment : List Frame} {e : Pointer}
    (row : List.Forall₂ (Pictured layout w.picture) bindings entries)
    (depicts : w.picture.Environment layout environment e) :
    Builds (Environment.frameSize entries.length) (Environment.push bindings e) w fun p w' =>
      ∃ extended, Interpretation.openFrame entries environment w.store = .ok extended w'.store ∧
        w'.picture.Environment layout extended p := by
  have size : Environment.frameSize entries.length
      = bindings.length + ((bindings.map Binding.name).length + (bindings.length + (1 + 1))) := by
    simp only [Environment.frameSize, List.length_map, row.length_eq]
    omega
  have names : bindings.map Binding.name = (entries.map Prod.fst).map (Node.point layout.locate) := by
    clear size
    induction row with
    | nil => rfl
    | cons first _ ih => simp only [List.map_cons, first.name, ih]
  rw [size]
  refine (allocBindings row).bind ?_
  rintro _ w₁ grows₁ ⟨addresses, rfl, cells, store⟩
  refine (buildList _ w₁).bind ?_
  rintro nameList w₂ grows₂ ⟨nameLists, still₂, _⟩
  have length : bindings.length = (addresses.map Pointer.pair).length := by
    rw [List.length_map, ← cells.length_eq, List.length_range', row.length_eq]
  rw [length]
  refine (buildList _ w₂).bind ?_
  rintro cellList w₃ grows₃ ⟨cellLists, still₃, _⟩
  refine (allocReserved nameList cellList w₃).bind ?_
  rintro _ w₄ grows₄ ⟨rfl, frame, still₄⟩
  refine (allocReserved _ e w₄).mono ?_
  rintro _ w₅ grows₅ ⟨rfl, link, still₅⟩
  have bindings : w₅.picture.Bindings layout
      ((entries.map Prod.fst).zip (List.range' w.store.cells.length entries.length)) nameList cellList := by
    have later := (grows₂.trans (grows₃.trans (grows₄.trans grows₅))).picture
    refine .of_lists (cells.imp fun _ _ cell => later.cell cell) ?_ ?_ (by simp)
    · exact names ▸ nameLists.mono (grows₃.trans (grows₄.trans grows₅)).picture
    · exact cellLists.mono (grows₄.trans grows₅).picture
  refine ⟨_, ?_, .cons link (grows₅.picture.holds frame) bindings
    (depicts.mono (grows₁.trans (grows₂.trans (grows₃.trans (grows₄.trans grows₅)))).picture)⟩
  rw [still₅.store, still₄.store, still₃.store, still₂.store, store]
  rfl

/-- The functions of every program, each with an identity of its own. -/
theorem allocPrimitives {functions : List Builtin} (different : functions.Nodup)
    (unused : ∀ function ∈ functions, ∀ a, ¬ w.picture.thing (.builtin function) a) :
    Builds functions.length (Environment.allocPrimitives (functions.map Builtin.name)) w fun bindings w' =>
      List.Forall₂ (Pictured layout w'.picture) bindings
        (functions.map fun function => (.leaf (.string function.name), ⟨.builtin function, .constant⟩)) ∧
      w'.store = w.store := by
  induction functions generalizing w with
  | nil => exact .pure ⟨.nil, rfl⟩
  | cons function functions ih =>
    obtain ⟨absent, different⟩ := List.nodup_cons.mp different
    have allocated : Builds 1
        (Action.allocReserved (.string Tag.primitive.text) (.string function.name)) w fun p w' =>
          w'.picture.Depicts layout (.builtin function) p ∧ w'.store = w.store ∧
            ∀ other ∈ functions, ∀ a, ¬ w'.picture.thing (.builtin other) a := by
      obtain ⟨_, w₁, gives, grows, length, rfl, holds, still⟩ :=
        allocReserved (.string Tag.primitive.text) (.string function.name) w
      obtain ⟨w₂, grows', more, heap, thing, others, store⟩ :=
        World.exists_identified grows still (World.holds_lt holds) (Nat.le_refl _)
          (unused function List.mem_cons_self) (Nat.le_refl _) (by simp)
      refine ⟨_, w₂, heap ▸ gives, grows', heap ▸ length, .builtin thing (more.holds holds), store, ?_⟩
      intro other member a isThing
      rcases others _ a isThing with old | same
      · exact unused other (List.mem_cons_of_mem _ member) a old
      · cases same
        exact absent member
    have count : (function :: functions).length = 1 + (functions.length + 0) := by
      simp only [List.length_cons]
      omega
    rw [count]
    refine allocated.bind ?_
    rintro p w₁ grows ⟨depicts, store, unused'⟩
    refine (ih different unused').bind ?_
    rintro bindings w₂ grows₂ ⟨row, store₂⟩
    exact .pure ⟨.cons ⟨rfl, depicts.mono grows₂.picture, rfl⟩ row, store₂.trans store⟩

end Builds

/-- Before anything is there. -/
def World.blank (layout : Layout) : World layout where
  picture := ⟨fun _ _ => False, fun _ _ => False, fun _ _ _ => False⟩
  store := {}
  heap := []
  fits := ⟨fun _ _ _ => False.elim, fun _ _ => False.elim, ⟨fun _ _ _ => False.elim, fun _ _ _ => False.elim⟩,
    ⟨fun _ _ _ => False.elim, fun _ _ _ => False.elim⟩⟩
  separate := fun _ _ _ _ => False.elim
  inside := fun _ _ => False.elim
  counted := fun _ _ => False.elim

theorem constants_pictured (π : Picture) :
    List.Forall₂ (Pictured layout π)
      (Environment.constants.map fun (name, value) => Binding.constant (.string name) value)
      (constants.map fun constant => (.leaf (.string constant.1), ⟨.scalar constant.2, .constant⟩)) := by
  have pictured (name : String) (value : Scalar) : Pictured layout π (.constant (.string name) (.scalar value))
      (.leaf (.string name), ⟨.scalar value, .constant⟩) := ⟨rfl, .scalar value, rfl⟩
  exact .cons (pictured _ _) (.cons (pictured _ _) (.cons (pictured _ _) .nil))

/-- The first environment of every program is what the interpreter opens, with
its functions and constants in the same order. -/
theorem globalEnvironment_yields (layout : Layout) :
    ∃ (p : Pointer) (w : World layout) (extended : List Frame),
      Yields layout .globalEnvironment [] [] p w.heap ∧ (World.blank layout).Extends w ∧
      Interpretation.openFrame globals [] {} = .ok extended w.store ∧
      w.picture.Environment layout extended p := by
  have different : builtins.Nodup := by decide
  have built : Builds (builtins.length + Environment.frameSize globals.length) Environment.global
      (World.blank layout) fun p w => ∃ extended,
        Interpretation.openFrame globals [] {} = .ok extended w.store ∧
        w.picture.Environment layout extended p := by
    refine .reserve ((Builds.allocPrimitives different fun _ _ _ => False.elim).bind ?_)
    rintro bindings w₁ grows ⟨row, store⟩
    have pushed := Builds.push (List.rel_append row (constants_pictured w₁.picture)) .nil
    rw [store] at pushed
    exact pushed
  obtain ⟨p, w, gives, grows, _, extended, opened, depicts⟩ := built
  exact ⟨p, w, extended, .of_run (by simp) (gives.bind (.pure _ _)), grows, opened, depicts⟩

theorem declared_pictured (π : Picture) (names : List Node) :
    List.Forall₂ (Pictured layout π) ((names.map (Node.point layout.locate)).map Binding.declared)
      (names.map declared) := by
  simp only [List.map_map, List.forall₂_map_left_iff, List.forall₂_map_right_iff, List.forall₂_same]
  exact fun symbol _ => ⟨rfl, .scalar _, rfl⟩

section

variable {body : Node} {memory : Memory} (placed : body.Placed layout.program layout.locate)
include placed

theorem declaredNames_eq {names : List Node} (found : body.declaredNames = .ok names)
    (same : memory.program = layout.program) :
    Environment.declaredNames memory (body.point layout.locate)
      = .ok (names.map (Node.point layout.locate)) := by
  rw [← same] at placed
  have reads := declaredNames_reads layout.injective placed
  rw [found] at reads
  generalize Environment.declaredNames memory (body.point layout.locate) = outcome at reads
  cases reads with | ok row => rw [Node.At.row_eq row]

theorem declaredNames_fails {m : Mistake} (failed : body.declaredNames = .error m)
    (same : memory.program = layout.program) :
    ∃ cause, Environment.declaredNames memory (body.point layout.locate) = .error cause ∧
      m.Shows layout.locate cause := by
  rw [← same] at placed
  have reads := declaredNames_reads layout.injective placed
  rw [failed] at reads
  generalize Environment.declaredNames memory (body.point layout.locate) = outcome at reads
  cases reads with | error shown => exact ⟨_, rfl, shown⟩

/-- The frame of a block has the names that its body declares, as the
interpreter reads them. -/
theorem extendBlock_yields {names : List Node} (found : body.declaredNames = .ok names)
    {environment : List Frame} {e : Pointer} (depicts : w.picture.Environment layout environment e) :
    ∃ p w' extended, Yields layout .extendBlock [body.point layout.locate, e] w.heap p w'.heap ∧
      w.Extends w' ∧
      Interpretation.openFrame (names.map declared) environment w.store = .ok extended w'.store ∧
      w'.picture.Environment layout extended p := by
  obtain ⟨p, w', gives, grows, length, extended, opened, depicts'⟩ :=
    Builds.push (declared_pictured w.picture names) depicts
  have read : Action.Gives layout.program table
      (Action.inspect fun memory => Environment.declaredNames memory (body.point layout.locate)) w.heap
      (names.map (Node.point layout.locate)) w.heap :=
    .inspect fun memory bears => declaredNames_eq placed found bears.program
  rw [List.length_map, ← List.length_map (Node.point layout.locate)] at length
  have pushed : Action.Gives layout.program table (Environment.extendBlock (body.point layout.locate) e)
      w.heap (p, [body.point layout.locate, e]) w'.heap :=
    read.bind (.reserve length.ge (gives.bind (.pure _ _)))
  exact ⟨p, w', extended, .of_run (by simp) (pushed.bind (.pure _ _)), grows, opened, depicts'⟩

theorem extendBlock_declines {m : Mistake} (failed : body.declaredNames = .error m) (e : Pointer)
    (cells : Cells) : Declines layout .extendBlock [body.point layout.locate, e] cells m := by
  refine .of_run (by simp) (.bind (.bind (.inspect fun memory bears => ?_) _) _)
  exact declaredNames_fails placed failed bears.program

end

end ExplicitControl.Evaluator
