import ExplicitControl.Scalar

namespace ExplicitControl

/-- Any scalar but NaN and the infinities. -/
def Scalar.Finite : Scalar → Prop
  | .number x => x.isNaN = false ∧ x.isInf = false
  | _ => True

instance : DecidablePred Scalar.Finite
  | .number x => inferInstanceAs (Decidable (x.isNaN = false ∧ x.isInf = false))
  | .bool _ => .isTrue trivial
  | .string _ => .isTrue trivial
  | .null => .isTrue trivial
  | .undefined => .isTrue trivial

namespace Json

/-- A document as reading leaves it: whole numbers fit in 64 bits, all others
are finite, and the fields of an object are sorted by key, no key twice. -/
inductive Standard : Json → Prop
  | null : Standard .null
  | bool (value : Bool) : Standard (.bool value)
  | integer {value : Int} : -(1 <<< 63) ≤ value → value < 1 <<< 64 → Standard (.integer value)
  | number {value : Float} : value.isNaN = false → value.isInf = false → Standard (.number value)
  | string (value : String) : Standard (.string value)
  | array {items : List Json} : (∀ item ∈ items, Standard item) → Standard (.array items)
  | object {fields : List (String × Json)} : (fields.map Prod.fst).Pairwise (· < ·) →
      (∀ field ∈ fields, Standard field.2) → Standard (.object fields)

theorem Standard.field {key : String} {value : Json} (standard : Standard value) : Standard (.object [(key, value)]) :=
  .object (List.pairwise_singleton _ _) (List.forall_mem_singleton.mpr standard)

end Json

namespace Scalar

/-- The scalar that is left of one that is written and read back: itself,
unless it is a number for which the format has no words, which is left as
null. -/
def settled : Scalar → Scalar
  | .number x => if x.isNaN || x.isInf then .null else .number x
  | value => value

variable {value : Scalar}

theorem Finite.settled_eq (finite : value.Finite) : value.settled = value := by
  cases value with
  | number x =>
    obtain ⟨notNaN, notInf⟩ := finite
    simp only [settled, notNaN, notInf, Bool.or_self, Bool.false_eq_true, if_false]
  | _ => rfl

theorem settled_eq_null (strange : ¬ value.Finite) : value.settled = .null := by
  cases value with
  | number x =>
    cases lost : x.isNaN || x.isInf with
    | true => simp only [settled, lost, if_true]
    | false => exact absurd (Bool.or_eq_false_iff.mp lost) strange
  | _ => exact absurd trivial strange

/-- What is written of a scalar stands for that scalar, or for null if it is
NaN or infinite. A number keeps all its digits, whether it is written as a
whole number or as a fraction. -/
theorem ofJson?_toJson (value : Scalar) : ofJson? value.toJson = some value.settled := by
  cases value with
  | number x =>
    simp only [toJson, settled]
    split <;> rfl
  | _ => rfl

theorem canonical_toJson (value : Scalar) : value.toJson.canonical = value.toJson := by
  cases value with
  | number x =>
    simp only [toJson]
    split <;> rfl
  | _ => rfl

/-- What is written of a scalar is a document as reading leaves one: whole
numbers fit in 64 bits, and all other numbers are finite. -/
theorem toJson_standard (value : Scalar) : value.toJson.Standard := by
  cases value with
  | number x =>
    simp only [toJson]
    split
    · exact .null
    · next kept =>
      obtain ⟨notNaN, notInf⟩ := Bool.or_eq_false_iff.mp (Bool.not_eq_true _ ▸ kept)
      exact .number notNaN notInf
  | bool b => exact .bool b
  | string s => exact .string s
  | null => exact .null
  | undefined => exact .field (.bool true)

end Scalar

end ExplicitControl
