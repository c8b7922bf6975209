import ProcessSpaces.Truth

/-!
# Values and their kinds

An expression denotes either a truth value of the logic or a boolean, and which of the two
is settled by its outermost operator. `Kind` names the two cases, `Kind.Carrier` is the type
of the values of a kind, and `Value` is a value together with its kind. A value is read back
at a kind by `Value.as?`, which answers exactly when the kinds agree (`Value.as?_eq_none_iff`).
-/

namespace ProcessSpaces

/-- The two kinds of value. -/
inductive Kind where
  /-- One of the three truth values of the logic. -/
  | ternary
  /-- True or false. -/
  | boolean
deriving DecidableEq, Repr, Inhabited

/-- The name of a kind in messages. -/
def Kind.text : Kind → String
  | ternary => "ternary"
  | boolean => "boolean"

/-- The values of a kind. -/
@[reducible] def Kind.Carrier : Kind → Type
  | ternary => Truth
  | boolean => Bool

/-- A value of either kind. -/
inductive Value where
  /-- A truth value of the logic. -/
  | ternary (a : Truth)
  /-- A boolean. -/
  | boolean (b : Bool)
deriving DecidableEq, Repr, Inhabited

namespace Value

/-- The kind of a value. -/
def kind : Value → Kind
  | ternary _ => .ternary
  | boolean _ => .boolean

/-- A value of a known kind, forgetting that it is known. -/
def ofCarrier : (k : Kind) → k.Carrier → Value
  | .ternary, a => ternary a
  | .boolean, b => boolean b

/-- The value at the kind `k`, if that is its kind. -/
def as? : (k : Kind) → Value → Option k.Carrier
  | .ternary, ternary a => some a
  | .ternary, boolean _ => none
  | .boolean, ternary _ => none
  | .boolean, boolean b => some b

/-- The value as it is written in tables. -/
def text : Value → String
  | ternary a => a.text
  | boolean true => "true"
  | boolean false => "false"

@[simp] theorem kind_ofCarrier (k : Kind) (a : k.Carrier) : (ofCarrier k a).kind = k := by
  cases k <;> rfl

@[simp] theorem as?_ofCarrier (k : Kind) (a : k.Carrier) : (ofCarrier k a).as? k = some a := by
  cases k <;> rfl

theorem as?_eq_some_iff {k : Kind} {v : Value} {a : k.Carrier} :
    v.as? k = some a ↔ v = ofCarrier k a := by
  cases k <;> cases v <;> simp [as?, ofCarrier]

theorem as?_eq_none_iff {k : Kind} {v : Value} : v.as? k = none ↔ v.kind ≠ k := by
  cases k <;> cases v <;> simp [as?, kind]

end Value

end ProcessSpaces
