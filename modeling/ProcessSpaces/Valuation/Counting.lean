import ProcessSpaces.Valuation.Traversal

/-!
# Counting the valuations with machine words

`Valuation.count` refuses lists that are too long by looking at their length alone, since it is known
how many names there may be. Here the same is found out as a machine does it that knows nothing of
this: it computes a power of three, and stops where a number comes up for which there is no machine
word.

* The exponent has to be a word of half the size. A greater number is refused before anything is
  computed, and nothing is cut off from it (`narrow`).
* The power is computed by squaring. The exponent is halved from step to step, while the base is
  squared; where the exponent is odd, a factor is set aside (`setAside`, `powFrom`). Each
  product is checked (`checkedMul`), also those that are only needed for later ones.

Whatever goes wrong, the answer is that the names are too many, with their number (`countWord`).
-/

namespace ProcessSpaces

/-- The product of two machine words, if it is one. -/
def checkedMul (a b : UInt64) : Except Fault UInt64 :=
  if a.toNat * b.toNat ≤ maxWord then .ok (a * b) else .error .overflow

/-- A word of half the size for the number, if there is one. -/
def narrow (n : UInt64) : Option UInt32 :=
  if n.toNat < UInt32.size then some n.toUInt32 else none

/-- Half of a number is smaller, unless there is nothing to be halved. -/
theorem toNat_half_lt {n : UInt32} (h : ¬n / 2 = 0) : (n / 2).toNat < n.toNat := by
  have hne : n.toNat / 2 ≠ 0 := fun hzero => h (UInt32.toNat_inj.mp hzero)
  change n.toNat / 2 < n.toNat
  omega

/-- Sets a factor aside, if the exponent is odd. -/
def setAside (aside base : UInt64) (exponent : UInt32) : Except Fault UInt64 :=
  if exponent % 2 = 1 then checkedMul aside base else .ok aside

/-- What has been set aside, multiplied by a power. The base is squared only if there is a factor
still to come. -/
def powFrom (aside base : UInt64) (exponent : UInt32) : Except Fault UInt64 := do
  let aside ← setAside aside base exponent
  if h : exponent / 2 = 0 then
    return aside
  else
    let base ← checkedMul base base
    powFrom aside base (exponent / 2)
termination_by exponent.toNat
decreasing_by exact toNat_half_lt h

/-- A power of a machine word, if it is one. -/
def checkedPow (base : UInt64) (exponent : UInt32) : Except Fault UInt64 := powFrom 1 base exponent

/-- The number of valuations of `n` names, as a machine word. -/
def Valuation.countWord (n : UInt64) : Except EvalError UInt64 :=
  match (narrow n).bind fun exponent => (checkedPow 3 exponent).toOption with
  | some c => .ok c
  | none => .error (.tooManyVariables n.toNat)

end ProcessSpaces
