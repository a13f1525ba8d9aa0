import ExplicitControl.Proofs.Evaluator.Effects

namespace ExplicitControl.Evaluator

open Interpreter

theorem Follows.append {position : Nat} {codes codes' : List Code} (one : Follows position codes)
    (other : Follows (position + codes.length) codes') : Follows position (codes ++ codes') := by
  obtain ⟨rest, dropped⟩ := one
  obtain ⟨rest', dropped'⟩ := other
  refine ⟨rest', ?_⟩
  rw [← List.drop_drop, dropped, List.drop_left] at dropped'
  rw [dropped, dropped', List.append_assoc]

/-- The instructions of a label and those of the next one, into which control
runs on. -/
theorem Label.follows_next (label next : Label)
    (adjacent : next.position = label.position + label.code.length) :
    Follows label.position (label.code ++ next.code) :=
  (label.follows).append (adjacent ▸ next.follows)

variable {α β : Type} {layout : Layout} {n position : Nat} {codes : List Code}
  {post : α → Store → Config → Nat → Prop} {result : EStateM.Result Halt Store α}
  {w : World layout} {store : Store} {r : Nat → Contents} {trail : List Mark} {heap : Cells} {flag : Bool}

namespace Leads

/-- What the interpreter does to its store alone takes no steps. -/
theorem computed {c : Config} {x : Interpretation β} {f : β → Interpretation α} {b : β} {store' : Store}
    (ran : x store = .ok b store') (leads : Leads layout n codes c post (f b store')) :
    Leads layout n codes c post ((x >>= f) store) := by
  have same : (x >>= f) store = f b store' := by
    change EStateM.bind x f store = _
    simp only [EStateM.bind, ran]
  exact same ▸ leads

/-- Reads a part of the program into a register. -/
theorem read {f : β → Interpretation α} {x : Except Mistake β} {operation : HeapOperation} {p : Pointer}
    {image : β → Pointer} {good : β → Prop} {target index : Nat}
    (plain : operation ≠ .expressionKind) (held : r index = .pointer p)
    (selects : Selects layout operation p image good x)
    (next : ∀ b, good b →
      Leads layout n codes ⟨write r target (.pointer (image b)), trail, heap, flag⟩ post (f b store)) :
    Leads layout n (Evaluator.put target operation [index] :: codes) ⟨r, trail, heap, flag⟩ post
      ((Interpretation.read x >>= f) store) := by
  have selected := selects heap
  cases x with
  | ok b => exact .put plain (.cons held .nil) selected.2 (next b selected.1)
  | error m => exact .put_fails (.cons held .nil) selected

end Leads

/-- A search leaves the registers that it does not work with. -/
structure Searched (r r' : Nat → Contents) : Prop where
  exp : r' Listing.exp = r Listing.exp
  env : r' Listing.env = r Listing.env
  val : r' Listing.val = r Listing.val
  cont : r' Listing.cont = r Listing.cont
  unev : r' Listing.unev = r Listing.unev
  a : r' Listing.a = r Listing.a
  d : r' Listing.d = r Listing.d

section

variable {symbol : Node} {label : Nat} (name : r Listing.a = .pointer (symbol.point layout.locate))
  (back : r Listing.d = .label label)
include name back

/-- The names of a frame are compared one by one, with the list of bindings
followed beside them. -/
theorem scan_leads {frame : Frame} {names cells : Pointer}
    (bindings : w.picture.Bindings layout frame names cells) (left : r Listing.c = .pointer names)
    (right : r Listing.res = .pointer cells)
    (found : ∀ entry cell r' flag, frame.find? (fun entry => entry.1 == symbol) = some entry →
      w.picture.cell entry.2 cell → Searched r r' → r' Listing.res = .pointer (.pair cell) →
      LeadsFrom layout n label ⟨r', trail, w.heap, flag⟩ post result)
    (missing : ∀ r' flag, frame.find? (fun entry => entry.1 == symbol) = none → Searched r r' →
      r' Listing.b = r Listing.b → Leads layout n Label.nextFrame.code ⟨r', trail, w.heap, flag⟩ post result) :
    Leads layout n Label.scan.code ⟨r, trail, w.heap, flag⟩ post result := by
  induction bindings generalizing r flag with
  | nil =>
    refine .ask (.cons left .nil) (.isNull _ _) (.branch_taken rfl (Label.follows .nextFrame) ?_)
    exact missing _ _ rfl ⟨rfl, rfl, rfl, rfl, rfl, rfl, rfl⟩ rfl
  | @cons symbol' location frame a b cell names cells nameHeld cellHeld isCell _ ih =>
    refine .ask (.cons left .nil) (.isNull _ _) (.branch_passed rfl ?_)
    refine .put nofun (.cons left .nil) (.head (w.fits.holds _ _ _ nameHeld)) ?_
    refine .ask (.cons rfl (.cons name .nil)) (.identical _ _ _) ?_
    rw [Node.point_same layout.injective]
    cases same : symbol' == symbol with
    | true =>
      refine .branch_taken rfl (Label.follows .found) ?_
      refine .put nofun (.cons right .nil) (.head (w.fits.holds _ _ _ cellHeld)) ?_
      refine .gotoRegister back (found (symbol', location) cell _ _ ?_ isCell
        ⟨rfl, rfl, rfl, rfl, rfl, rfl, rfl⟩ rfl)
      simp only [List.find?_cons, same]
    | false =>
      refine .branch_passed rfl ?_
      refine .put nofun (.cons left .nil) (.tail (w.fits.holds _ _ _ nameHeld)) ?_
      refine .put nofun (.cons right .nil) (.tail (w.fits.holds _ _ _ cellHeld)) ?_
      refine .goto ?_ (Label.follows .scan)
      refine ih name back rfl rfl ?_ ?_
      · rintro entry cell' r' flag isFound isCell' ⟨exp, env, val, cont, unev, a, d⟩ res
        refine found entry cell' r' flag ?_ isCell' ⟨exp, env, val, cont, unev, a, d⟩ res
        simp only [List.find?_cons, same, isFound]
      · rintro r' flag isMissing ⟨exp, env, val, cont, unev, a, d⟩ b
        refine missing r' flag ?_ ⟨exp, env, val, cont, unev, a, d⟩ b
        simp only [List.find?_cons, same, isMissing]

/-- The search ends where it was asked to, with the cell that the interpreter
finds, or with the name reported as unbound by both. -/
theorem findBinding_leads {environment : List Frame} {e : Pointer}
    (depicts : w.picture.Environment layout environment e) (inner : r Listing.b = .pointer e) (store : Store) :
    Leads layout n (Label.findBinding.code ++ Label.scan.code) ⟨r, trail, w.heap, flag⟩
      (fun location store' c position => position = label ∧ store' = store ∧
        ∃ cell r' flag, c = ⟨r', trail, w.heap, flag⟩ ∧ w.picture.cell location cell ∧ Searched r r' ∧
          r' Listing.res = .pointer (.pair cell))
      (Interpreter.lookup environment symbol store) := by
  induction depicts generalizing r flag with
  | nil =>
    refine .ask (.cons inner .nil) (.isNull _ _) (.branch_taken rfl (Label.follows .unboundName) ?_)
    exact .act_fails (.cons name .nil) (.signal fun _ _ => .unboundName symbol)
  | @cons frame environment a f names cells rest link held bindings _ ih =>
    refine .ask (.cons inner .nil) (.isNull _ _) (.branch_passed rfl ?_)
    refine .put nofun (.cons inner .nil) (.head (w.fits.holds _ _ _ link)) ?_
    refine .put nofun (.cons rfl .nil) (.tail (w.fits.holds _ _ _ held)) ?_
    refine .put nofun (.cons rfl .nil) (.head (w.fits.holds _ _ _ held)) ?_
    refine scan_leads name back bindings rfl rfl ?_ ?_
    · rintro entry cell r' flag isFound isCell ⟨exp, env, val, cont, unev, a, d⟩ res
      have located : Interpreter.lookup (frame :: environment) symbol store = .ok entry.2 store := by
        simp only [Interpreter.lookup, find, List.findSome?_cons, isFound, Option.map_some]
        rfl
      rw [located]
      exact .ok (.refl _ _) ⟨rfl, rfl, cell, r', flag, rfl, isCell, ⟨exp, env, val, cont, unev, a, d⟩, res⟩
    · rintro r' flag isMissing ⟨exp, env, val, cont, unev, a, d⟩ b
      have further : Interpreter.lookup (frame :: environment) symbol store
          = Interpreter.lookup environment symbol store := by
        simp only [Interpreter.lookup, find, List.findSome?_cons, isMissing, Option.map_none]
      rw [further]
      refine .put nofun (.cons (b.trans inner) .nil) (.tail (w.fits.holds _ _ _ link)) ?_
      refine .goto ?_ (Label.follows_next .findBinding .scan rfl)
      refine Leads.imp (ih (a.trans name) (d.trans back) rfl) ?_
      rintro location store' c position ⟨rfl, rfl, cell, r'', flag, rfl, isCell, searched, res⟩
      obtain ⟨exp', env', val', cont', unev', a', d'⟩ := searched
      exact ⟨rfl, rfl, cell, r'', flag, rfl, isCell, ⟨exp'.trans exp, env'.trans env, val'.trans val,
        cont'.trans cont, unev'.trans unev, a'.trans a, d'.trans d⟩, res⟩

end

end ExplicitControl.Evaluator
