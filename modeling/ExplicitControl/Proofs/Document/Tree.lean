import ExplicitControl.Proofs.Document.Standard
import ExplicitControl.Tree.Source
import Mathlib.Data.List.Forall2

namespace ExplicitControl

namespace Json

/-- Where a tree is expected in a document: the document itself, the items of
an array, and the two parts of a pair, as long as these stand where a tree is
expected. -/
inductive Expects (document : Json) : Json → Prop
  | root : Expects document document
  | item {items : List Json} {item : Json} : Expects document (.array items) → item ∈ items → Expects document item
  | head {head tail : Json} : Expects document (.object [("pair", .array [head, tail])]) → Expects document head
  | tail {head tail : Json} : Expects document (.object [("pair", .array [head, tail])]) → Expects document tail

/-- An object that stands for no tree. -/
def Misfit : Json → Prop
  | .object fields => fields ≠ [("undefined", .bool true)] ∧ ∀ head tail, fields ≠ [("pair", .array [head, tail])]
  | _ => False

mutual

/-- What stands where a tree is expected, from left to right, a part before
the parts inside it. -/
def treeParts : Json → List Json
  | .array items => .array items :: itemParts items
  | .object [("pair", .array [head, tail])] =>
    .object [("pair", .array [head, tail])] :: (treeParts head ++ treeParts tail)
  | document => [document]

/-- What stands where a tree is expected in the items of an array. -/
def itemParts : List Json → List Json
  | [] => []
  | item :: rest => treeParts item ++ itemParts rest

end

/-- The first object in a row of parts that stands for no tree. -/
def FirstMisfit (parts : List Json) (part : Json) : Prop :=
  ∃ before after, parts = before ++ part :: after ∧ (∀ earlier ∈ before, ¬ earlier.Misfit) ∧ part.Misfit

/-- The tree that a document spells. -/
inductive Spells : Json → Tree → Prop
  | null : Spells .null (.atom .null)
  | bool (value : Bool) : Spells (.bool value) (.atom (.bool value))
  | integer (value : Int) : Spells (.integer value) (.atom (.number (Float.ofInt value)))
  | number (value : Float) : Spells (.number value) (.atom (.number value))
  | string (value : String) : Spells (.string value) (.atom (.string value))
  | undefined : Spells (.object [("undefined", .bool true)]) (.atom .undefined)
  | array {items : List Json} {trees : List Tree} : List.Forall₂ Spells items trees →
      Spells (.array items) (Tree.ofList trees)
  | pair {head tail : Json} {headTree tailTree : Tree} : Spells head headTree → Spells tail tailTree →
      Spells (.object [("pair", .array [head, tail])]) (.pair headTree tailTree)

/-- An array spelled out as nested pairs, the last of which ends in null. -/
def spelledOut (items : List Json) : Json :=
  items.foldr (fun item rest => .object [("pair", .array [item, rest])]) .null

section

variable {document part other : Json} {parts more : List Json}

theorem FirstMisfit.misfit (first : FirstMisfit parts part) : part ∈ parts ∧ part.Misfit := by
  obtain ⟨before, after, rfl, _, misfit⟩ := first
  exact ⟨List.mem_append_right _ (.head _), misfit⟩

theorem FirstMisfit.append_left (first : FirstMisfit parts part) (more : List Json) :
    FirstMisfit (parts ++ more) part := by
  obtain ⟨before, after, rfl, fit, misfit⟩ := first
  exact ⟨before, after ++ more, by simp, fit, misfit⟩

theorem FirstMisfit.append_right (fit : ∀ earlier ∈ parts, ¬ earlier.Misfit) (first : FirstMisfit more part) :
    FirstMisfit (parts ++ more) part := by
  obtain ⟨before, after, rfl, fit', misfit⟩ := first
  exact ⟨parts ++ before, after, by simp, List.forall_mem_append.mpr ⟨fit, fit'⟩, misfit⟩

/-- A row of parts has one first misfit at most, so an error that names it
leaves nothing open. -/
theorem FirstMisfit.unique (one : FirstMisfit parts part) (two : FirstMisfit parts other) : part = other := by
  obtain ⟨before, after, rfl, fit, misfit⟩ := one
  obtain ⟨before', after', split, fit', misfit'⟩ := two
  induction before generalizing before' with
  | nil =>
    cases before' with
    | nil => exact (List.cons.inj split).1
    | cons first rest =>
      obtain ⟨rfl, _⟩ := List.cons.inj split
      exact absurd misfit (fit' part (.head _))
  | cons first before ih =>
    cases before' with
    | nil =>
      obtain ⟨rfl, _⟩ := List.cons.inj split
      exact absurd misfit' (fit first (.head _))
    | cons first' before' =>
      obtain ⟨rfl, same⟩ := List.cons.inj split
      exact ih (fun earlier member => fit earlier (.tail _ member)) before' same
        fun earlier member => fit' earlier (.tail _ member)

end

/-- An attempt to read a row of parts. All of them fit, and what is answered
is right, or the answer is the first of them that does not fit. Attempts made
one after the other judge their rows together. -/
def Judges {α : Type} (parts : List Json) (right : α → Prop) (attempt : Except Json α) : Prop :=
  (∃ value, attempt = .ok value ∧ right value ∧ ∀ part ∈ parts, ¬ part.Misfit) ∨
    ∃ part, attempt = .error part ∧ FirstMisfit parts part

section

variable {α β : Type} {parts more : List Json} {right : α → Prop} {right' : β → Prop} {attempt : Except Json α}

theorem Judges.bind {next : α → Except Json β} (first : Judges parts right attempt)
    (second : ∀ value, right value → Judges more right' (next value)) :
    Judges (parts ++ more) right' (attempt >>= next) := by
  rcases first with ⟨value, rfl, isRight, fit⟩ | ⟨part, rfl, first⟩
  · rcases second value isRight with ⟨value', same, isRight', fit'⟩ | ⟨part, same, first⟩
    · exact .inl ⟨value', same, isRight', List.forall_mem_append.mpr ⟨fit, fit'⟩⟩
    · exact .inr ⟨part, same, first.append_right fit⟩
  · exact .inr ⟨part, rfl, first.append_left more⟩

theorem Judges.pure {value : β} (isRight : right' value) : Judges [] right' (.ok value) :=
  .inl ⟨value, rfl, isRight, fun _ member => nomatch member⟩

/-- A part that fits may come before the others without changing the judgement
on them. -/
theorem Judges.cons {part : Json} (fit : ¬ part.Misfit) (judges : Judges parts right attempt) :
    Judges (part :: parts) right attempt := by
  rcases judges with ⟨value, same, isRight, others⟩ | ⟨bad, same, first⟩
  · exact .inl ⟨value, same, isRight, List.forall_mem_cons.mpr ⟨fit, others⟩⟩
  · exact .inr ⟨bad, same, first.append_right (List.forall_mem_singleton.mpr fit)⟩

theorem Judges.map {f : α → β} (judges : Judges parts right attempt)
    (carries : ∀ value, right value → right' (f value)) : Judges parts right' (attempt.map f) := by
  rcases judges with ⟨value, rfl, isRight, fit⟩ | ⟨part, rfl, first⟩
  · exact .inl ⟨f value, rfl, carries value isRight, fit⟩
  · exact .inr ⟨part, rfl, first⟩

end

/-- A document that is neither an array nor a pair has no part but itself, so
it is read at once or refused at once. -/
theorem treeParts_eq_self {document : Json} (notArray : ∀ items, document = .array items → False)
    (notPair : ∀ head tail, document = .object [("pair", .array [head, tail])] → False) :
    document.treeParts = [document] := by
  rw [treeParts]
  · exact notArray
  · exact notPair

/-- What stands for a scalar is no misfit, and spells the tree that is this
scalar alone. -/
theorem spells_atom {document : Json} {value : Scalar} (found : Scalar.ofJson? document = some value) :
    document.Spells (.atom value) ∧ ¬ document.Misfit := by
  unfold Scalar.ofJson? at found
  split at found
  all_goals cases found
  · exact ⟨.null, id⟩
  · exact ⟨.bool _, id⟩
  · exact ⟨.integer _, id⟩
  · exact ⟨.number _, id⟩
  · exact ⟨.string _, id⟩
  · exact ⟨.undefined, fun misfit => misfit.1 rfl⟩

theorem misfit_of_unread {document : Json} (notArray : ∀ items, document = .array items → False)
    (notPair : ∀ head tail, document = .object [("pair", .array [head, tail])] → False)
    (unread : Scalar.ofJson? document = none) : document.Misfit := by
  unfold Scalar.ofJson? at unread
  split at unread
  all_goals cases unread
  · exact (notArray _ rfl).elim
  · rename_i fields other
    exact ⟨other, fun head tail same => notPair head tail (congrArg _ same)⟩

/-- Reading a document judges its parts, and so does reading items. The two
are proved together, since a document has items that are read and the items
are documents. -/
theorem reading_judges : (∀ document : Json, Judges document.treeParts document.Spells (Tree.ofJson document)) ∧
    ∀ items : List Json, Judges (itemParts items) (List.Forall₂ Spells items) (Tree.listOfJson items) := by
  refine Tree.ofJson.mutual_induct _ _ ?array ?pair ?atom ?misfit ?nil ?cons
  case array =>
    intro items judges
    rw [treeParts, Tree.ofJson]
    exact (judges.map fun _ => .array).cons id
  case pair =>
    intro head tail headJudges tailJudges
    rw [treeParts, Tree.ofJson]
    have fit : ¬ Misfit (.object [("pair", .array [head, tail])]) := fun misfit => misfit.2 head tail rfl
    have both := headJudges.bind fun headTree spellsHead => tailJudges.bind fun tailTree spellsTail =>
      .pure (Spells.pair spellsHead spellsTail)
    rw [List.append_nil] at both
    exact both.cons fit
  case atom =>
    intro document notArray notPair value found
    obtain ⟨spells, fit⟩ := spells_atom found
    rw [treeParts_eq_self notArray notPair, Tree.ofJson.eq_3 document notArray notPair, found]
    exact .inl ⟨_, rfl, spells, List.forall_mem_singleton.mpr fit⟩
  case misfit =>
    intro document notArray notPair unread
    have misfit := misfit_of_unread notArray notPair unread
    rw [treeParts_eq_self notArray notPair, Tree.ofJson.eq_3 document notArray notPair, unread]
    exact .inr ⟨document, rfl, [], [], rfl, nofun, misfit⟩
  case nil => exact .pure .nil
  case cons =>
    intro item rest itemJudges restJudges
    rw [itemParts, Tree.listOfJson]
    have both := itemJudges.bind fun tree spellsItem => restJudges.bind fun trees spellsRest =>
      .pure (List.Forall₂.cons spellsItem spellsRest)
    rw [List.append_nil] at both
    exact both

theorem Spells.of_pair {head tail : Json} {tree : Tree}
    (spells : Spells (.object [("pair", .array [head, tail])]) tree) :
    ∃ headTree tailTree, tree = .pair headTree tailTree ∧ head.Spells headTree ∧ tail.Spells tailTree := by
  generalize same : Json.object [("pair", .array [head, tail])] = document at spells
  cases spells with
  | pair spellsHead spellsTail =>
    cases same
    exact ⟨_, _, rfl, spellsHead, spellsTail⟩
  | undefined => simp at same
  | null | bool | integer | number | string | array => cases same

/-- What a document spells is what is read. With the judgement on its parts,
this makes reading the same as spelling. -/
theorem spelling_read : (∀ (document : Json) (tree : Tree), document.Spells tree → Tree.ofJson document = .ok tree) ∧
    ∀ (items : List Json) (trees : List Tree), List.Forall₂ Spells items trees →
      Tree.listOfJson items = .ok trees := by
  refine Tree.ofJson.mutual_induct _ _ ?array ?pair ?atom ?misfit ?nil ?cons
  case array =>
    intro items ih tree spells
    cases spells with
    | array spellsItems =>
      rw [Tree.ofJson, ih _ spellsItems]
      rfl
  case pair =>
    intro head tail headRead tailRead tree spells
    obtain ⟨headTree, tailTree, rfl, spellsHead, spellsTail⟩ := spells.of_pair
    rw [Tree.ofJson, headRead _ spellsHead, tailRead _ spellsTail]
    rfl
  case atom =>
    intro document notArray notPair value found tree spells
    rw [Tree.ofJson.eq_3 document notArray notPair, found]
    cases spells with
    | array => exact (notArray _ rfl).elim
    | pair => exact (notPair _ _ rfl).elim
    | _ =>
      cases found
      rfl
  case misfit =>
    intro document notArray notPair unread tree spells
    cases spells with
    | array => exact (notArray _ rfl).elim
    | pair => exact (notPair _ _ rfl).elim
    | _ => cases unread
  case nil =>
    intro trees spells
    cases spells
    rfl
  case cons =>
    intro item rest itemRead restRead trees spells
    cases spells with
    | cons spellsItem spellsRest =>
      rw [Tree.listOfJson, itemRead _ spellsItem, restRead _ spellsRest]
      rfl

/-- What is read of a document is the tree that it spells, if it spells one,
and nothing otherwise. -/
theorem ofJson_eq_ok_iff {document : Json} {tree : Tree} : Tree.ofJson document = .ok tree ↔ document.Spells tree := by
  constructor
  · intro read
    rcases reading_judges.1 document with ⟨tree', same, spells, _⟩ | ⟨part, same, _⟩
    · cases same.symm.trans read
      exact spells
    · cases same.symm.trans read
  · exact spelling_read.1 document tree

/-- A document is refused exactly for its first misfit, in the order in which
its parts stand, a part before the parts inside it. -/
theorem ofJson_eq_error_iff {document part : Json} :
    Tree.ofJson document = .error part ↔ FirstMisfit document.treeParts part := by
  rcases reading_judges.1 document with ⟨tree, same, _, fit⟩ | ⟨part', same, first⟩
  · constructor
    · intro refused
      cases same.symm.trans refused
    · intro first
      exact absurd first.misfit.2 (fit part first.misfit.1)
  · constructor
    · intro refused
      cases same.symm.trans refused
      exact first
    · intro first'
      rw [first'.unique first, same]

theorem exists_ofJson_iff {document : Json} :
    (∃ tree, Tree.ofJson document = .ok tree) ↔ ∀ part ∈ document.treeParts, ¬ part.Misfit := by
  rcases reading_judges.1 document with ⟨tree, same, _, fit⟩ | ⟨part, same, first⟩
  · exact iff_of_true ⟨tree, same⟩ fit
  · constructor
    · rintro ⟨tree, read⟩
      cases same.symm.trans read
    · intro fit
      exact absurd first.misfit.2 (fit part first.misfit.1)

theorem mem_treeParts_self (document : Json) : document ∈ document.treeParts := by
  unfold treeParts
  split <;> simp

/-- The parts of an item are among the parts of all items. -/
theorem treeParts_subset_itemParts {item : Json} {items : List Json} (member : item ∈ items) :
    item.treeParts ⊆ itemParts items := by
  induction items with
  | nil => cases member
  | cons first rest ih =>
    rw [itemParts]
    rcases List.mem_cons.mp member with rfl | later
    · exact List.subset_append_left _ _
    · exact List.subset_append_of_subset_right _ (ih later)

/-- The parts of a part are parts of the whole, since what stands where a tree
is expected has such places of its own. -/
theorem treeParts_subset : (∀ document : Json, ∀ part ∈ document.treeParts, part.treeParts ⊆ document.treeParts) ∧
    ∀ items : List Json, ∀ part ∈ itemParts items, part.treeParts ⊆ itemParts items := by
  refine treeParts.mutual_induct _ _ ?array ?pair ?other ?nil ?cons
  case array =>
    intro items ih part member
    rw [treeParts] at member ⊢
    rcases List.mem_cons.mp member with rfl | inside
    · rw [treeParts]
      exact List.Subset.refl _
    · exact List.subset_cons_of_subset _ (ih part inside)
  case pair =>
    intro head tail headParts tailParts part member
    rw [treeParts] at member ⊢
    rcases List.mem_cons.mp member with rfl | inside
    · rw [treeParts]
      exact List.Subset.refl _
    · refine List.subset_cons_of_subset _ ?_
      rcases List.mem_append.mp inside with inHead | inTail
      · exact List.subset_append_of_subset_left _ (headParts part inHead)
      · exact List.subset_append_of_subset_right _ (tailParts part inTail)
  case other =>
    intro document notArray notPair part member
    rw [treeParts_eq_self notArray notPair, List.mem_singleton] at member
    rw [member]
    exact List.Subset.refl _
  case nil => exact fun _ member => nomatch member
  case cons =>
    intro item rest itemWhole restWhole part member
    rw [itemParts] at member ⊢
    rcases List.mem_append.mp member with inItem | inRest
    · exact List.subset_append_of_subset_left _ (itemWhole part inItem)
    · exact List.subset_append_of_subset_right _ (restWhole part inRest)

/-- What stands where a tree is expected in a document has all its parts where
trees are expected in that document. -/
theorem expects_parts {root : Json} :
    (∀ document : Json, root.Expects document → ∀ part ∈ document.treeParts, root.Expects part) ∧
      ∀ items : List Json, (∀ item ∈ items, root.Expects item) → ∀ part ∈ itemParts items, root.Expects part := by
  refine treeParts.mutual_induct _ _ ?array ?pair ?other ?nil ?cons
  case array =>
    intro items ih here part member
    rw [treeParts] at member
    rcases List.mem_cons.mp member with rfl | inside
    · exact here
    · exact ih (fun item => here.item) part inside
  case pair =>
    intro head tail headParts tailParts here part member
    rw [treeParts] at member
    rcases List.mem_cons.mp member with rfl | inside
    · exact here
    · rcases List.mem_append.mp inside with inHead | inTail
      · exact headParts here.head part inHead
      · exact tailParts here.tail part inTail
  case other =>
    intro document notArray notPair here part member
    rw [treeParts_eq_self notArray notPair, List.mem_singleton] at member
    exact member ▸ here
  case nil => exact fun _ _ member => nomatch member
  case cons =>
    intro item rest itemParts' restParts here part member
    rw [itemParts] at member
    obtain ⟨first, others⟩ := List.forall_mem_cons.mp here
    rcases List.mem_append.mp member with inItem | inRest
    · exact itemParts' first part inItem
    · exact restParts others part inRest

/-- The list of parts has just what stands where a tree is expected. The list
puts in order what the relation leaves open, and an order is needed to say
which misfit is the first. -/
theorem mem_treeParts_iff {document part : Json} : part ∈ document.treeParts ↔ document.Expects part := by
  constructor
  · exact expects_parts.1 document .root part
  · intro expects
    have whole {inner : Json} (member : inner ∈ document.treeParts) : inner.treeParts ⊆ document.treeParts :=
      treeParts_subset.1 document inner member
    induction expects with
    | root => exact mem_treeParts_self document
    | item _ member ih =>
      refine whole ih ?_
      rw [treeParts]
      exact .tail _ (treeParts_subset_itemParts member (mem_treeParts_self _))
    | head _ ih =>
      refine whole ih ?_
      rw [treeParts]
      exact .tail _ (List.mem_append_left _ (mem_treeParts_self _))
    | tail _ ih =>
      refine whole ih ?_
      rw [treeParts]
      exact .tail _ (List.mem_append_right _ (mem_treeParts_self _))

/-- An object fits if it is one of the two that stand for trees: the object
for a pair, which has exactly two parts, and the object for the value that is
undefined. -/
theorem not_misfit_iff {fields : List (String × Json)} : ¬ Misfit (.object fields) ↔
    fields = [("undefined", .bool true)] ∨ ∃ head tail, fields = [("pair", .array [head, tail])] := by
  simp only [Misfit, ne_eq, not_and_or, not_not, not_forall]

end Json

namespace Tree

open Json (Standard spelledOut)

/-- All numbers in a tree are finite. -/
def Finite : Tree → Prop
  | .atom value => value.Finite
  | .pair head tail => head.Finite ∧ tail.Finite

/-- A document that spells a tree, every pair as a pair. -/
def toJson : Tree → Json
  | .atom value => value.toJson
  | .pair head tail => .object [("pair", .array [head.toJson, tail.toJson])]

theorem toJson_standard (tree : Tree) : tree.toJson.Standard := by
  induction tree with
  | atom value => exact value.toJson_standard
  | pair head tail headStandard tailStandard =>
    exact .field (.array (List.forall_mem_cons.mpr ⟨headStandard, List.forall_mem_singleton.mpr tailStandard⟩))

/-- Every tree of finite numbers is spelled by the document in which each of
its pairs is written as a pair. -/
theorem toJson_spells {tree : Tree} (finite : tree.Finite) : tree.toJson.Spells tree := by
  induction tree with
  | atom value =>
    have found : Scalar.ofJson? value.toJson = some value := by
      rw [value.ofJson?_toJson, Scalar.Finite.settled_eq finite]
    exact (Json.spells_atom found).1
  | pair head tail headSpells tailSpells => exact .pair (headSpells finite.1) (tailSpells finite.2)

/-- An array spelled out is read like the array, whether the items of the
array can be read or not. -/
theorem ofJson_spelledOut (items : List Json) : ofJson (spelledOut items) = ofJson (.array items) := by
  rw [ofJson]
  induction items with
  | nil => rfl
  | cons item rest ih =>
    rw [spelledOut, List.foldr_cons, ← spelledOut, ofJson, listOfJson, ih]
    cases ofJson item with
    | error part => rfl
    | ok tree => cases listOfJson rest <;> rfl

variable {document : Json}

theorem ofDocument_eq_ok_iff {tree : Tree} : ofDocument document = .ok tree ↔ ofJson document = .ok tree := by
  unfold ofDocument
  cases ofJson document <;> simp [Except.mapError]

theorem ofDocument_eq_error_iff {cause : Error} : ofDocument document = .error cause ↔
    ∃ part, ofJson document = .error part ∧ cause = .value (.invalid part) := by
  unfold ofDocument
  cases ofJson document <;> simp [Except.mapError, eq_comm]

end Tree

/-- What reading a tree makes of a document. -/
structure Json.Reads (document : Json) : Prop where
  /-- It succeeds where all objects that stand for trees are of one of the two
  kinds that do. -/
  accepted : (∃ tree, Tree.ofDocument document = .ok tree) ↔
    ∀ fields, document.Expects (.object fields) →
      fields = [("undefined", .bool true)] ∨ ∃ head tail, fields = [("pair", .array [head, tail])]
  /-- It gives the tree that the document spells. -/
  spelled : ∀ tree, Tree.ofDocument document = .ok tree ↔ document.Spells tree
  /-- The parts in order are what stands where a tree is expected. -/
  parts : ∀ part, part ∈ document.treeParts ↔ document.Expects part
  /-- Of these it reports the first object that stands for no tree. -/
  refused : ∀ cause, Tree.ofDocument document = .error cause ↔
    ∃ part, Json.FirstMisfit document.treeParts part ∧ cause = .value (.invalid part) ∧
      cause.message = "invalid value: " ++ part.compact

theorem Json.reads (document : Json) : document.Reads where
  accepted := by
    simp only [Tree.ofDocument_eq_ok_iff, exists_ofJson_iff, mem_treeParts_iff]
    constructor
    · intro fit fields expects
      exact not_misfit_iff.mp (fit _ expects)
    · intro fit part expects misfit
      cases part with
      | object fields => exact not_misfit_iff.mpr (fit fields expects) misfit
      | _ => exact misfit
  spelled := fun tree => Tree.ofDocument_eq_ok_iff.trans ofJson_eq_ok_iff
  parts := fun part => mem_treeParts_iff
  refused := by
    intro cause
    simp only [Tree.ofDocument_eq_error_iff, ofJson_eq_error_iff]
    constructor
    · rintro ⟨part, first, rfl⟩
      exact ⟨part, first, rfl, rfl⟩
    · rintro ⟨part, first, rfl, _⟩
      exact ⟨part, first, rfl⟩

/-- Documents are read by the format of trees. A document is accepted exactly
when every object that stands where a tree is expected is one of the two that
stand for trees; what is read is the tree that it spells, and what is refused
is the first object that is neither. An array is read like the pairs that
spell it out, and every tree of finite numbers is read from some document. -/
theorem Tree.ofDocument_exact : (∀ document : Json, document.Reads) ∧
    (∀ items : List Json, ofDocument (.array items) = ofDocument (Json.spelledOut items)) ∧
    ∀ tree : Tree, tree.Finite → ∃ document : Json, document.Standard ∧ ofDocument document = .ok tree := by
  refine ⟨Json.reads, fun items => ?_, fun tree finite => ⟨tree.toJson, tree.toJson_standard, ?_⟩⟩
  · rw [ofDocument, ofDocument, ofJson_spelledOut]
  · rw [ofDocument_eq_ok_iff, Json.ofJson_eq_ok_iff]
    exact toJson_spells finite

/-- A pair with a misfit in it is still a pair; the misfit inside comes first. -/
example : Tree.ofJson (.array [.object [("pair", .array [.null, .object []])], .object [("undefined", .bool false)]]) =
    .error (.object []) := rfl

end ExplicitControl
