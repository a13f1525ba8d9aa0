import ExplicitControl.Proofs.Evaluator.Chronicle
import ExplicitControl.Proofs.Evaluator.StackDiscipline

namespace ExplicitControl

namespace PairHeap

/-- A binding: a value, and a flag that is true, false or null. -/
def IsBinding (heap : PairHeap) (p : Pointer) : Prop :=
  ∃ a value flag, p = .pair a ∧ heap.Holds a value flag ∧ Evaluator.IsFlag flag

/-- A frame: a pair of a list of names, no two of them the same, and a list of
as many bindings. -/
structure FrameAt (heap : PairHeap) (p : Pointer) (names bindings : List Pointer) : Prop where
  pair : ∃ a head tail, p = .pair a ∧ heap.Holds a head tail ∧ heap.Lists head names ∧ heap.Lists tail bindings
  counted : names.length = bindings.length
  distinct : names.Pairwise fun p q => (p == q) = false
  flagged : ∀ binding ∈ bindings, heap.IsBinding binding

/-- An environment: a list of frames, from the innermost outwards. -/
structure EnvironmentAt (heap : PairHeap) (p : Pointer) (frames : List Pointer) : Prop where
  lists : heap.Lists p frames
  frames : ∀ frame ∈ frames, ∃ names bindings, heap.FrameAt frame names bindings

end PairHeap

namespace Pointer.Matches

variable {ρ : Nat → Nat → Prop} {p : Pointer}

theorem eq_scalar {value : Scalar} (matched : p.Matches ρ (.scalar value)) : p = .scalar value := by
  cases matched
  rfl

theorem exists_pair {w : Nat} (matched : p.Matches ρ (.pair w)) : ∃ a, p = .pair a ∧ ρ a w := by
  cases matched with
  | pair related => exact ⟨_, rfl, related⟩

end Pointer.Matches

section

variable {α β : Type} {rel : α → β → Prop} {xs : List α} {ys : List β} (matched : List.Forall₂ rel xs ys)
include matched

theorem exists_of_forall₂ {x : α} (member : x ∈ xs) : ∃ y ∈ ys, rel x y := by
  induction matched with
  | nil => cases member
  | cons head _ ih =>
    rcases List.mem_cons.mp member with rfl | member
    · exact ⟨_, List.mem_cons_self, head⟩
    · obtain ⟨y, member', related⟩ := ih member
      exact ⟨y, List.mem_cons_of_mem _ member', related⟩

theorem getLast?_of_forall₂ {y : β} (last : ys.getLast? = some y) : ∃ x, xs.getLast? = some x ∧ rel x y := by
  rw [List.getLast?_eq_head?_reverse] at last ⊢
  have reversed := List.forall₂_reverse_iff.mpr matched
  generalize xs.reverse = xs, ys.reverse = ys at reversed last
  cases reversed with
  | nil => cases last
  | cons head _ =>
    cases last
    exact ⟨_, rfl, head⟩

theorem pairwise_of_forall₂ {one : α → α → Prop} {other : β → β → Prop} (pairwise : ys.Pairwise other)
    (carries : ∀ x x' y y', rel x y → rel x' y' → other y y' → one x x') : xs.Pairwise one := by
  induction matched with
  | nil => exact .nil
  | cons head tail ih =>
    obtain ⟨first, rest⟩ := List.pairwise_cons.mp pairwise
    refine .cons (fun x' member => ?_) (ih rest)
    obtain ⟨y', member', related⟩ := exists_of_forall₂ tail member
    exact carries _ _ _ _ head related (first y' member')

end

namespace Evaluator

open Interpreter (Node Law)
open Machine (Lineage)
open Listing

section

variable {link : Nat → Nat → Prop} {c : Config} {position : Nat} {machine : Machine} {layout : Layout} {law : Law}
  {census : Census} (mirrors : Mirrors link c position machine) (fits : census.Fits layout law c.heap)
include mirrors fits

/-- A pair of a role, in the path and in the machine. -/
theorem Mirrors.exists_pair {a w : Nat} {role : Role} (related : link a w) (known : census.Has w role) :
    ∃ head tail head' tail', machine.memory.heap.Holds a head tail ∧ c.heap[w]? = some (head', tail') ∧
      census.Allows layout law role head' tail' ∧ head.Matches link head' ∧ tail.Matches link tail' := by
  obtain ⟨head, tail, head', tail', holds, found, matched⟩ := mirrors.pairs a w related
  exact ⟨head, tail, head', tail', holds, found, fits.allowed found known, matched⟩

theorem Mirrors.names {items : List Pointer} {p p' : Pointer} (names : census.Names items p')
    (matched : p.Matches link p') :
    ∃ ps, machine.memory.heap.Lists p ps ∧ List.Forall₂ (Pointer.Matches link) ps items := by
  induction items generalizing p p' with
  | nil =>
    cases names
    rw [matched.eq_scalar]
    exact ⟨[], .nil, .nil⟩
  | cons name items ih =>
    obtain ⟨w, rfl, role⟩ := names
    obtain ⟨a, rfl, related⟩ := matched.exists_pair
    obtain ⟨head, tail, _, _, holds, _, allowed, headMatched, tailMatched⟩ := mirrors.exists_pair fits related role
    cases allowed with
    | names rest =>
      obtain ⟨ps, lists, row⟩ := ih rest tailMatched
      exact ⟨head :: ps, .cons holds lists, .cons headMatched row⟩

theorem Mirrors.bindings {addresses : List Nat} {p p' : Pointer} (bindings : census.Bindings addresses p')
    (matched : p.Matches link p') :
    ∃ ps, machine.memory.heap.Lists p ps ∧ List.Forall₂ (fun q w => q.Matches link (.pair w)) ps addresses := by
  induction addresses generalizing p p' with
  | nil =>
    cases bindings
    rw [matched.eq_scalar]
    exact ⟨[], .nil, .nil⟩
  | cons cell addresses ih =>
    obtain ⟨w, rfl, role⟩ := bindings
    obtain ⟨a, rfl, related⟩ := matched.exists_pair
    obtain ⟨head, tail, _, _, holds, _, allowed, headMatched, tailMatched⟩ := mirrors.exists_pair fits related role
    cases allowed with
    | bindings _ rest =>
      obtain ⟨ps, lists, row⟩ := ih rest tailMatched
      exact ⟨head :: ps, .cons holds lists, .cons headMatched row⟩

/-- A frame of the census is one in the machine, with the same names and as
many bindings. -/
theorem Mirrors.frame {f : Nat} {record : FrameRecord} {p : Pointer} (known : census.frames[f]? = some record)
    (matched : p.Matches link (.pair record.address)) :
    ∃ names bindings, machine.memory.heap.FrameAt p names bindings ∧
      List.Forall₂ (fun q w => q.Matches link (.pair w)) bindings record.cells := by
  have orderly := fits.frames f record known
  obtain ⟨a, rfl, related⟩ := matched.exists_pair
  obtain ⟨head, tail, head', tail', holds, _, allowed, headMatched, tailMatched⟩ :=
    mirrors.exists_pair fits related orderly.address
  cases allowed with
  | frame known' isNames isBindings =>
    cases known.symm.trans known'
    obtain ⟨names, nameList, nameRow⟩ := mirrors.names fits isNames headMatched
    obtain ⟨bindings, bindingList, bindingRow⟩ := mirrors.bindings fits isBindings tailMatched
    refine ⟨names, bindings, ⟨⟨a, head, tail, rfl, holds, nameList, bindingList⟩, ?_, ?_, ?_⟩, bindingRow⟩
    · rw [nameRow.length_eq, bindingRow.length_eq, orderly.counted]
    · refine pairwise_of_forall₂ nameRow orderly.distinct fun p q p' q' left right different => ?_
      rw [left.same_eq mirrors.unique right]
      exact different
    · intro binding member
      obtain ⟨w, member', bindingMatched⟩ := exists_of_forall₂ bindingRow member
      obtain ⟨b, rfl, related⟩ := bindingMatched.exists_pair
      obtain ⟨place, listed⟩ := List.mem_iff_getElem?.mp member'
      obtain ⟨value, flag, _, _, holds, _, allowed, _, flagMatched⟩ :=
        mirrors.exists_pair fits related (orderly.cells place w listed)
      cases allowed with
      | binding _ isFlag _ =>
        refine ⟨b, value, flag, rfl, holds, ?_⟩
        rcases isFlag with rfl | rfl | rfl
        · exact .inl flagMatched.eq_scalar
        · exact .inr (.inl flagMatched.eq_scalar)
        · exact .inr (.inr flagMatched.eq_scalar)

/-- An environment of the census leads from frame to frame, each older than
the one before, to the first. So the list of frames ends. -/
theorem Mirrors.frames {f : Nat} {p p' : Pointer} (environment : census.Environment f p')
    (matched : p.Matches link p') :
    ∃ frames numbers, machine.memory.heap.Lists p frames ∧
      List.Forall₂ (fun q n => ∃ record, census.frames[n]? = some record ∧ q.Matches link (.pair record.address))
        frames (f :: numbers) ∧
      (f :: numbers).Pairwise (· > ·) ∧ (f :: numbers).getLast? = some 0 := by
  induction f using Nat.strong_induction_on generalizing p p' with
  | h f ih =>
    obtain ⟨w, rfl, role⟩ := environment
    obtain ⟨a, rfl, related⟩ := matched.exists_pair
    obtain ⟨head, tail, _, _, holds, _, allowed, headMatched, tailMatched⟩ := mirrors.exists_pair fits related role
    cases allowed with
    | @outermost _ record known isNone =>
      have first := (fits.frames f record known).enclosing
      rw [isNone] at first
      subst first
      rw [tailMatched.eq_scalar] at holds
      exact ⟨[head], [], .cons holds .nil, .cons ⟨record, known, headMatched⟩ .nil, List.pairwise_singleton _ _, rfl⟩
    | @environment _ outer record _ known isSome enclosing =>
      have older := (fits.frames f record known).enclosing
      rw [isSome] at older
      obtain ⟨frames, numbers, lists, row, descending, last⟩ := ih outer older enclosing tailMatched
      refine ⟨head :: frames, outer :: numbers, .cons holds lists, .cons ⟨record, known, headMatched⟩ row,
        .cons (fun n member => ?_) descending, by rw [List.getLast?_cons_cons]; exact last⟩
      rcases List.mem_cons.mp member with rfl | member
      · exact older
      · exact (List.rel_of_pairwise_cons descending member).trans older

theorem Mirrors.environmentAt {f : Nat} {p p' : Pointer} (environment : census.Environment f p')
    (matched : p.Matches link p') :
    ∃ frames last record, machine.memory.heap.EnvironmentAt p frames ∧ frames.getLast? = some (.pair last) ∧
      census.frames[0]? = some record ∧ link last record.address := by
  obtain ⟨frames, numbers, lists, row, _, last⟩ := mirrors.frames fits environment matched
  obtain ⟨q, isLast, record, known, lastMatched⟩ := getLast?_of_forall₂ row last
  obtain ⟨a, rfl, related⟩ := lastMatched.exists_pair
  refine ⟨frames, a, record, ⟨lists, fun frame member => ?_⟩, isLast, known, related⟩
  obtain ⟨_, _, record, known, frameMatched⟩ := exists_of_forall₂ row member
  obtain ⟨names, bindings, isFrame, _⟩ := mirrors.frame fits known frameMatched
  exact ⟨names, bindings, isFrame⟩

end

/-- The account of a run together with its chronicle. -/
structure Recounts (visits : Nat → Machine → Prop) (law : Law) (count : Nat) (layout : Layout)
    (path : Nat → Config × Nat) (link : Nat → Nat → Nat → Prop) (censuses : Nat → Census) : Prop where
  account : ∃ layout', Account visits count layout' path link
  unfolds : Unfolds layout.program count (scenesOf path)
  chronicle : Chronicle layout law count (scenesOf path) censuses

theorem exists_recounting {settings : Settings} {tree : Tree} {count : Nat} {machine : Machine} (law : Law)
    (visits : Visits settings tree count machine) (good : law.good .body true (Interpreter.mark [] tree)) :
    ∃ layout path link censuses, Recounts (Visits settings tree) law count layout path link censuses := by
  obtain ⟨layout', path, link, account, unfolds⟩ := exists_unfolding visits
  obtain ⟨locate, injective, placed, point⟩ := Node.exists_locate {} tree
  let layout : Layout := ⟨(ProgramHeap.install {} tree).2, locate, injective⟩
  have rooted : Rooted layout law := by
    intro root isRoot
    refine ⟨Interpreter.mark [] tree, ⟨?_, placed⟩, good⟩
    exact Option.some.inj (isRoot.symm.trans (congrArg some point.symm))
  obtain ⟨censuses, chronicle⟩ := exists_chronicle rooted unfolds
  exact ⟨layout, path, link, censuses, ⟨layout', account⟩, unfolds, chronicle⟩

/-- The frame of the environment that was made first, wherever it has been
moved. -/
def GlobalFrame (visits : Nat → Machine → Prop) (i a : Nat) : Prop :=
  ∃ j making made p first, visits j making ∧ making.Faces (put env .globalEnvironment []) ∧ visits (j + 1) made ∧
    made.memory.contents env = .pointer p ∧ made.memory.heap.Lists p [.pair first] ∧ Lineage visits (j + 1) first i a

namespace Recounts

variable {visits : Nat → Machine → Prop} {law : Law} {count : Nat} {layout : Layout} {path : Nat → Config × Nat}
  {link : Nat → Nat → Nat → Prop} {censuses : Nat → Census} {i j : Nat} {machine : Machine}
  (recounts : Recounts visits law count layout path link censuses)
include recounts

theorem mirrors (le : i ≤ count) (here : visits i machine) : Mirrors (link i) (path i).1 (path i).2 machine := by
  obtain ⟨_, account⟩ := recounts.account
  exact account.mirrors i le machine here

theorem fits (le : i ≤ count) : (censuses i).Fits layout law (path i).1.heap := by
  obtain ⟨_, _, ⟨fit⟩⟩ := recounts.chronicle.fits i le
  exact fit.heap

theorem extends_of_le (le : i ≤ j) (inside : j ≤ count) : (censuses i).Extends (censuses j) := by
  induction le with
  | refl => exact .refl _
  | step _ ih => exact (ih (Nat.le_of_succ_le inside)).trans (recounts.chronicle.grows _ inside)

/-- The instruction that a path comes to is carried out. -/
theorem moves_of_code {code : Code} (before : i < count) (here : listing[(path i).2]? = some code) :
    Moves layout.program code (scenesOf path i) (scenesOf path (i + 1)) := by
  obtain ⟨code', found, moves⟩ := recounts.unfolds.moves i before
  cases here.symm.trans found
  exact moves

theorem next_position {code : Code} (before : i < count) (here : listing[(path i).2]? = some code)
    (straight : ∀ position, code ≠ .goto position ∧ code ≠ .branch position ∧ code ≠ .gotoRegister position) :
    (path (i + 1)).2 = (path i).2 + 1 :=
  (recounts.moves_of_code before here).next straight

/-- The first instructions are carried out one after the other. -/
theorem position_eq (le : i ≤ 3) (inside : i ≤ count) : (path i).2 = i := by
  induction i with
  | zero => exact congrArg Scene.position recounts.unfolds.first
  | succ i ih =>
    have here := ih (Nat.le_of_succ_le le) (Nat.le_of_succ_le inside)
    have straight : ∀ k < 3, ∃ code, listing[k]? = some code ∧
        ∀ position, code ≠ .goto position ∧ code ≠ .branch position ∧ code ≠ .gotoRegister position := by
      intro k before
      match k, before with
      | 0, _ => exact ⟨_, rfl, fun _ => ⟨nofun, nofun, nofun⟩⟩
      | 1, _ => exact ⟨_, rfl, fun _ => ⟨nofun, nofun, nofun⟩⟩
      | 2, _ => exact ⟨_, rfl, fun _ => ⟨nofun, nofun, nofun⟩⟩
    obtain ⟨code, found, straight⟩ := straight i le
    have next := recounts.next_position inside (here.symm ▸ found) straight
    rw [next, here]

/-- Before the first frame is made there is none. -/
theorem le_of_known {f : Nat} (inside : i ≤ count) (known : (censuses i).Known f) : 3 ≤ i := by
  by_contra early
  obtain ⟨st, member, ⟨fit⟩⟩ := recounts.chronicle.fits i inside
  have here : (scenesOf path i).position = i := recounts.position_eq (by omega) inside
  rw [here] at member
  have blank : ∀ k < 3, ∀ st ∈ statesAt k, st.phase = .blank := by decide +kernel
  have ground := fit.ground
  rw [blank i (by omega) st member] at ground
  obtain ⟨record, found⟩ := known
  rw [ground.2] at found
  cases found

/-- The first frame of the census is the global one, wherever it is in the
machine. -/
theorem globalFrame {a : Nat} {record : FrameRecord} (inside : i ≤ count)
    (known : (censuses i).frames[0]? = some record) (related : link i a record.address) : GlobalFrame visits i a := by
  have late := recounts.le_of_known inside ⟨record, known⟩
  obtain ⟨_, account⟩ := recounts.account
  obtain ⟨making, visitsTwo⟩ := account.visited 2 (by omega)
  obtain ⟨made, visitsThree⟩ := account.visited 3 (by omega)
  have mirrorsTwo := recounts.mirrors (by omega) visitsTwo
  have mirrorsThree := recounts.mirrors (by omega) visitsThree
  have fitsThree := recounts.fits (i := 3) (by omega)
  -- what the environment is right after it was made
  obtain ⟨st, member, ⟨fit⟩⟩ := recounts.chronicle.fits 3 (by omega)
  have here : (scenesOf path 3).position = 3 := recounts.position_eq le_rfl (by omega)
  rw [here] at member
  have first : ∀ st ∈ statesAt 3, st.phase = .founded ∧ st.registers env = .environment true := by decide +kernel
  obtain ⟨founded, isEnvironment⟩ := first st member
  have ground := fit.ground
  rw [founded] at ground
  have held := fit.registers env (by decide)
  rw [isEnvironment] at held
  change Holds _ _ _ _ _ ((path 3).1.registers env) _ at held
  have matched := mirrorsThree.registers env
  generalize (path 3).1.registers env = contents at held matched
  generalize isEnv : made.memory.contents env = contents' at matched
  cases held with
  | @environment _ f p' _ environment own =>
    cases matched with
    | @pointer p _ matched =>
      obtain rfl : f = 0 := (own rfl).trans ground.2.2
      obtain ⟨frames, numbers, lists, row, descending, _⟩ := mirrorsThree.frames fitsThree environment matched
      obtain rfl : numbers = [] := by
        cases numbers with
        | nil => rfl
        | cons n numbers => exact absurd (List.rel_of_pairwise_cons descending List.mem_cons_self) (Nat.not_lt_zero n)
      cases row with
      | cons isFirst rest =>
        cases rest
        obtain ⟨record', known', firstMatched⟩ := isFirst
        obtain ⟨first, rfl, related'⟩ := firstMatched.exists_pair
        cases known.symm.trans ((recounts.extends_of_le late inside).record known')
        refine ⟨2, making, made, p, first, visitsTwo, ?_, visitsThree, isEnv, lists, ?_⟩
        · rw [mirrorsTwo.faces_iff, recounts.position_eq (by omega) (by omega)]
          rfl
        · obtain ⟨_, _, found, _⟩ := fitsThree.exists_pair (fitsThree.frames _ _ known').address
          obtain ⟨first', related'', lineage⟩ :=
            account.back 3 i a record.address late inside (List.getElem?_eq_some_iff.mp found).1 related
          rwa [mirrorsThree.unique.1 related' related'']

/-- An environment of the census is one in the machine. -/
theorem environmentAt {f : Nat} {p p' : Pointer} (inside : i ≤ count) (here : visits i machine)
    (environment : (censuses i).Environment f p') (matched : p.Matches (link i) p') :
    ∃ frames last, machine.memory.heap.EnvironmentAt p frames ∧ frames.getLast? = some (.pair last) ∧
      GlobalFrame visits i last := by
  obtain ⟨frames, last, record, isEnvironment, isLast, known, related⟩ :=
    (recounts.mirrors inside here).environmentAt (recounts.fits inside) environment matched
  exact ⟨frames, last, isEnvironment, isLast, recounts.globalFrame inside known related⟩

end Recounts

/-- A pointer to an environment whose last frame is the global one. -/
def HoldsEnvironment (visits : Nat → Machine → Prop) (i : Nat) (machine : Machine) (p : Pointer) : Prop :=
  ∃ frames last, machine.memory.heap.EnvironmentAt p frames ∧ frames.getLast? = some (.pair last) ∧
    GlobalFrame visits i last

/-- A function that a definition has made, wherever it has been moved. -/
def CompoundFunction (visits : Nat → Machine → Prop) (i a : Nat) : Prop :=
  ∃ j making made first, visits j making ∧ making.Faces (put val .makeCompound [unev, exp, env]) ∧
    visits (j + 1) made ∧ made.memory.contents val = .pointer (.pair first) ∧ Lineage visits (j + 1) first i a

/-- What environments are between any two instructions of the evaluation of a
program. -/
structure EnvironmentDiscipline (settings : Settings) (tree : Tree) : Prop where
  /-- Once the register of environments is assigned it holds one. -/
  register : ∀ i machine, Visits settings tree i machine →
    machine.memory.contents env = .unassigned ∨
      ∃ p, machine.memory.contents env = .pointer p ∧ HoldsEnvironment (Visits settings tree) i machine p
  /-- So does a slot that was pushed from that register, until it is released. -/
  saved : ∀ i j saving machine slot below, Visits settings tree i saving → saving.Faces (.save env) → i < j →
    Visits settings tree j machine →
    Unreleased (Visits settings tree) i (saving.memory.contents env :: saving.saved) j →
    slot :: below <:+ machine.saved → below.length = saving.saved.length →
    ∃ p, slot = .pointer p ∧ HoldsEnvironment (Visits settings tree) j machine p
  /-- The fourth element of a function is an environment. -/
  functions : ∀ i machine a, Visits settings tree i machine → CompoundFunction (Visits settings tree) i a →
    ∃ parameters body scope,
      machine.memory.heap.Lists (.pair a) [.string Tag.compound.text, parameters, body, scope] ∧
        HoldsEnvironment (Visits settings tree) i machine scope

/-- A function of the census, in the machine. -/
theorem Mirrors.closure {link : Nat → Nat → Prop} {c : Config} {position : Nat} {machine : Machine} {layout : Layout}
    {law : Law} {census : Census} (mirrors : Mirrors link c position machine)
    (fits : census.Fits layout law c.heap) {a w : Nat} {body : Pointer} (related : link a w)
    (role : census.Has w (.closure 0 body)) :
    ∃ parameters body' scope f scope',
      machine.memory.heap.Lists (.pair a) [.string Tag.compound.text, parameters, body', scope] ∧
        census.Environment f scope' ∧ scope.Matches link scope' := by
  obtain ⟨tag, _, _, _, holds, _, allowed, tagMatched, tailMatched⟩ := mirrors.exists_pair fits related role
  cases allowed with
  | tag role =>
    rw [tagMatched.eq_scalar] at holds
    obtain ⟨a₁, rfl, related⟩ := tailMatched.exists_pair
    obtain ⟨parameters, _, _, _, holds₁, _, allowed, _, tailMatched⟩ := mirrors.exists_pair fits related role
    cases allowed with
    | parameters _ role =>
      obtain ⟨a₂, rfl, related⟩ := tailMatched.exists_pair
      obtain ⟨body', _, _, _, holds₂, _, allowed, _, tailMatched⟩ := mirrors.exists_pair fits related role
      cases allowed with
      | body _ _ role =>
        obtain ⟨a₃, rfl, related⟩ := tailMatched.exists_pair
        obtain ⟨scope, _, _, _, holds₃, _, allowed, scopeMatched, tailMatched⟩ := mirrors.exists_pair fits related role
        cases allowed with
        | scope environment =>
          rw [tailMatched.eq_scalar] at holds₃
          exact ⟨parameters, body', scope, _, _, .cons holds (.cons holds₁ (.cons holds₂ (.cons holds₃ .nil))),
            environment, scopeMatched⟩

/-- Behind the last instruction no more is known than where it ends. -/
theorem statesAt_of_le {position : Nat} (behind : Label.done.position ≤ position) :
    statesAt position = statesAt Label.done.position := by
  have label {k : Nat} (behind : Label.done.position ≤ k) : labelAt k = .done := by
    have found : Label.all.reverse.find? (·.position ≤ k) = some .done := by
      change (Label.done :: Label.all.dropLast.reverse).find? _ = _
      rw [List.find?_cons_of_pos (by simpa using behind)]
    rw [labelAt, found]
    rfl
  simp only [statesAt, label behind, label le_rfl, Label.code, List.take_nil]

/-- What is known of a register in any case, at whatever instruction. -/
theorem rests_of_mem {position : Nat} {st : State} (member : st ∈ statesAt position) : st.rests = true := by
  rcases Nat.lt_or_ge position listing.length with inside | behind
  · have listed : (listing[position], position) ∈ listing.zipIdx :=
      List.mem_zipIdx_iff_getElem?.mpr (List.getElem?_eq_getElem inside)
    have verified := listing_verified _ listed st member
    rw [Bool.and_eq_true] at verified
    exact verified.1
  · rw [listing_length] at behind
    rw [statesAt_of_le behind] at member
    exact done_verified st member

/-- Where the environment is saved it is there, so what is restored later is
an environment. -/
theorem save_verified : ∀ entry ∈ listing.zipIdx,
    (match entry.1 with
      | .save 1 => (statesAt entry.2).all fun st => st.registers env = .environment true
      | _ => true) = true := by
  decide +kernel

/-- Where a function has been made it is there, with an environment for its
fourth item. -/
theorem makeCompound_verified : ∀ entry ∈ listing.zipIdx,
    (match entry.1 with
      | .assign 2 (.application ⟨_, .addressAware .makeCompound, _⟩) =>
        (statesAt (entry.2 + 1)).all fun st => st.registers val = .closure
      | _ => true) = true := by
  decide +kernel

namespace Recounts

variable {visits : Nat → Machine → Prop} {law : Law} {count : Nat} {layout : Layout} {path : Nat → Config × Nat}
  {link : Nat → Nat → Nat → Prop} {censuses : Nat → Census} {i j : Nat} {machine : Machine}
  (recounts : Recounts visits law count layout path link censuses)
include recounts

/-- What a register holds in any case, in the path. -/
theorem resting {index : Nat} (inside : i ≤ count) (isRegister : index < Evaluator.registers.length) (σ : Context)
    (tokens : Tokens) :
    Holds layout law (censuses i) σ (Evaluator.resting index) ((path i).1.registers index) tokens := by
  obtain ⟨st, member, ⟨fit⟩⟩ := recounts.chronicle.fits i inside
  exact fit.resting (rests_of_mem member) σ index isRegister

theorem register_env (inside : i ≤ count) :
    (path i).1.registers env = .unassigned ∨
      ∃ f p, (path i).1.registers env = .pointer p ∧ (censuses i).Environment f p := by
  have held := recounts.resting inside (show env < Evaluator.registers.length by decide) ⟨0, 0, 0, false⟩ 0
  change Holds _ _ _ _ .scope _ _ at held
  generalize (path i).1.registers env = contents at held ⊢
  cases held with
  | unscoped => exact .inl rfl
  | scope environment => exact .inr ⟨_, _, rfl, environment⟩

/-- What is held in the path where the environment is saved. -/
theorem saved_env (inside : i ≤ count) (here : visits i machine) (faces : machine.Faces (.save env)) :
    ∃ f p, (path i).1.registers env = .pointer p ∧ (censuses i).Environment f p := by
  have found := (recounts.mirrors inside here).faces_iff.mp faces
  have verified := save_verified (.save env, (path i).2) (List.mem_zipIdx_iff_getElem?.mpr found)
  obtain ⟨st, member, ⟨fit⟩⟩ := recounts.chronicle.fits i inside
  have isEnvironment := of_decide_eq_true (List.all_eq_true.mp verified st member)
  have held := fit.registers env (by decide)
  rw [isEnvironment] at held
  change Holds _ _ _ _ _ ((path i).1.registers env) _ at held
  generalize (path i).1.registers env = contents at held ⊢
  cases held with
  | environment environment _ => exact ⟨_, _, rfl, environment⟩

/-- A function that a definition has made, in the path. -/
theorem compound {a : Nat} (inside : i ≤ count) (compound : CompoundFunction visits i a) :
    ∃ w body, link i a w ∧ (censuses i).Has w (.closure 0 body) := by
  obtain ⟨j, making, made, first, visitsMaking, faces, visitsMade, isVal, lineage⟩ := compound
  have later := lineage.le
  have found := (recounts.mirrors (by omega) visitsMaking).faces_iff.mp faces
  have verified := makeCompound_verified (put val .makeCompound [unev, exp, env], (path j).2)
    (List.mem_zipIdx_iff_getElem?.mpr found)
  have position : (scenesOf path (j + 1)).position = (path j).2 + 1 :=
    recounts.next_position (by omega) found fun _ => ⟨nofun, nofun, nofun⟩
  obtain ⟨st, member, ⟨fit⟩⟩ := recounts.chronicle.fits (j + 1) (by omega)
  rw [position] at member
  have isClosure := of_decide_eq_true (List.all_eq_true.mp verified st member)
  have held := fit.registers val (by decide)
  rw [isClosure] at held
  change Holds _ _ _ _ _ ((path (j + 1)).1.registers val) _ at held
  have matched := (recounts.mirrors (by omega) visitsMade).registers val
  rw [isVal] at matched
  generalize (path (j + 1)).1.registers val = contents at held matched
  cases held with
  | @closure w body _ role =>
    cases matched with
    | pointer matched =>
      cases matched with
      | pair related =>
        obtain ⟨_, account⟩ := recounts.account
        exact ⟨w, body, account.onward _ _ _ _ _ inside lineage related,
          (recounts.extends_of_le later inside).has role⟩

end Recounts

/-- What stands for the same at a later time. -/
theorem Account.matches_onward {visits : Nat → Machine → Prop} {count : Nat} {layout : Layout}
    {path : Nat → Config × Nat} {link : Nat → Nat → Nat → Prop} {i j : Nat} {x y z : Contents}
    (account : Account visits count layout path link) (inside : j ≤ count)
    (relocated : x.Matches (fun a b => Lineage visits i a j b) y) (first : x.Matches (link i) z) :
    y.Matches (link j) z := by
  cases relocated with
  | unassigned => cases first; exact .unassigned
  | label position => cases first; exact .label position
  | pointer relocated =>
    cases first with | pointer first => ?_
    cases relocated with
    | scalar value => cases first; exact .pointer (.scalar value)
    | program address => cases first; exact .pointer (.program address)
    | pair lineage =>
      cases first with
      | pair related => exact .pointer (.pair (account.onward _ _ _ _ _ inside lineage related))

/-- Every environment that a run of the evaluator holds is a list of frames
that ends in the global one, each with names that are all different and as
many bindings, wherever its pairs have been moved. That is so of the register
for the environment, of what is saved from it, and of the functions that
definitions have made. -/
theorem environment_discipline (settings : Settings) (tree : Tree) : EnvironmentDiscipline settings tree where
  register := by
    intro i machine visits
    obtain ⟨layout, path, link, censuses, recounts⟩ := exists_recounting .none visits trivial
    have matched := (recounts.mirrors le_rfl visits).registers env
    rcases recounts.register_env le_rfl with isUnassigned | ⟨f, p', isPointer, environment⟩
    · rw [isUnassigned] at matched
      generalize machine.memory.contents env = contents at matched
      cases matched
      exact .inl rfl
    · rw [isPointer] at matched
      generalize machine.memory.contents env = contents at matched
      cases matched with
      | pointer matched => exact .inr ⟨_, rfl, recounts.environmentAt le_rfl visits environment matched⟩
  saved := by
    intro i j saving machine slot below visitsSaving faces before visits unreleased suffix depth
    obtain ⟨layout, path, link, censuses, recounts⟩ := exists_recounting .none visits trivial
    obtain ⟨_, account⟩ := recounts.account
    obtain ⟨f, p', isPointer, environment⟩ := recounts.saved_env before.le visitsSaving faces
    have first := (recounts.mirrors before.le visitsSaving).registers env
    rw [isPointer] at first
    obtain ⟨lowest, lowestSuffix, relocated⟩ := unreleased j machine before le_rfl visits
    -- the slot is the one that has been the lowest but for those below it
    have same : slot :: below = lowest := by
      have length : (slot :: below).length = lowest.length := by
        rw [← relocated.length_eq, List.length_cons, List.length_cons, depth]
      exact (List.suffix_of_suffix_length_le suffix lowestSuffix length.le).eq_of_length length
    subst same
    cases relocated with
    | cons top _ =>
      have matched := account.matches_onward le_rfl top first
      cases matched with
      | pointer matched =>
        have ext := recounts.extends_of_le before.le le_rfl
        exact ⟨_, rfl, recounts.environmentAt le_rfl visits (ext.environment environment) matched⟩
  functions := by
    intro i machine a visits compound
    obtain ⟨layout, path, link, censuses, recounts⟩ := exists_recounting .none visits trivial
    obtain ⟨w, body, related, role⟩ := recounts.compound le_rfl compound
    obtain ⟨parameters, body', scope, f, scope', lists, environment, matched⟩ :=
      (recounts.mirrors le_rfl visits).closure (recounts.fits le_rfl) related role
    exact ⟨parameters, body', scope, lists, recounts.environmentAt le_rfl visits environment matched⟩

end Evaluator

end ExplicitControl
