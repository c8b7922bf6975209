import ProcessSpaces.Proofs.Causes
import ProcessSpaces.Proofs.StaticKinds

/-!
# Variables in the order of their occurrence

The names of the variables are noted along the tokens, and a name that has been noted is passed over
from then on. What this comes to has been seen before (`listsVariables_variablesOf`). Here the list
is looked at from three sides.

* Two names stand in the list as their first occurrences stand among the tokens, and this also holds
  of names that do not occur, if those are taken to come behind all others
  (`ListsVariables.idxOf_lt_idxOf_iff`).
* The list can be made in pieces. The names of two rows of tokens, one behind the other, are those
  of the first and then those of the second that are new (`variablesOf_append`).
* No name is missed. The valuations of a table bind the names in the list and no others, so that an
  expression with a variable outside it would fail in its table for want of a value. This never
  happens (`tabulate_ne_unboundVariable`), whatever else an expression may fail for.
-/

namespace ProcessSpaces

variable {names : List String} {tokens : List Token} {σ : Valuation} {x y : String}

/-! ### The order of two names -/

/-- A name that comes earlier among the listed ones occurs earlier. -/
theorem ListsVariables.idxOf_lt_idxOf (h : ListsVariables names tokens) (hy : y ∈ names)
    (hlt : names.idxOf x < names.idxOf y) : tokens.idxOf (.var x) < tokens.idxOf (.var y) := by
  have hylt : names.idxOf y < names.length := List.idxOf_lt_length_of_mem hy
  have hpair := List.pairwise_iff_getElem.mp h.pairwise _ _ (hlt.trans hylt) hylt hlt
  rwa [List.getElem_idxOf, List.getElem_idxOf] at hpair

/-- **Names are listed as they occur**: one of them comes before the other exactly if its first
occurrence does. A name that is not listed counts as coming behind all others, in the list and among
the tokens. -/
theorem ListsVariables.idxOf_lt_idxOf_iff (h : ListsVariables names tokens) :
    names.idxOf x < names.idxOf y ↔ tokens.idxOf (.var x) < tokens.idxOf (.var y) := by
  by_cases hx : x ∈ names
  · by_cases hy : y ∈ names
    · refine ⟨h.idxOf_lt_idxOf hy, fun hlt => ?_⟩
      rcases Nat.lt_trichotomy (names.idxOf x) (names.idxOf y) with hxy | hxy | hxy
      · exact hxy
      · rw [(List.idxOf_inj hx).mp hxy] at hlt
        exact absurd hlt (Nat.lt_irrefl _)
      · exact absurd hlt (Nat.lt_asymm (h.idxOf_lt_idxOf hx hxy))
    · -- the second name is nowhere, and the first one somewhere
      rw [List.idxOf_eq_length hy, List.idxOf_eq_length (mt (h.mem_iff y).mpr hy)]
      exact iff_of_true (List.idxOf_lt_length_of_mem hx)
        (List.idxOf_lt_length_of_mem ((h.mem_iff x).mp hx))
  · rw [List.idxOf_eq_length hx, List.idxOf_eq_length (mt (h.mem_iff x).mpr hx)]
    exact iff_of_false (Nat.not_lt_of_le List.idxOf_le_length)
      (Nat.not_lt_of_le List.idxOf_le_length)

/-! ### No variable is missed -/

/-- An expression does not fail for want of a value if all its variables have one. -/
theorem valueOf_ne_unboundVariable (h : σ.Binds tokens) (x : String) (q : Nat) :
    valueOf σ tokens ≠ .error (.unboundVariable x q) := by
  intro hvalue
  rcases cause_of_valueOf hvalue with hcause | ⟨_, _, _, -, -, htrailing⟩
  · cases hcause with
    | unboundVariable hvar hnone =>
      have hsome := h x (List.mem_of_getElem? hvar)
      rw [hnone] at hsome
      cases hsome
  · cases htrailing

/-- **No table is missing for want of a value.** -/
theorem tabulate_ne_unboundVariable (e x : String) (q : Nat) :
    (tabulate e).result ≠ .error (.unboundVariable x q) := by
  intro h
  rcases Nat.lt_or_ge maxVariables (variablesOf (tokensOf e)).length with hlt | hle
  · rw [result_tabulate_of_lt hlt] at h
    cases h
  · exact valueOf_ne_unboundVariable (Valuation.binds_nth _ 0) x q
      (valueOf_first_of_tabulate_eq_error hle h)

/-- **The variables are listed in the order of their occurrence.** The names in the list are those
of the variables among the tokens, and each is there once. Of two names that one comes first whose
first occurrence does; names that do not occur count as coming behind all others. If there are more
tokens behind, then the names that are new among these belong at the end, in their order, and
nothing else changes. No variable is missed by the list, so that no table is missing because a
variable has no value. -/
theorem variablesOf_in_order_of_occurrence (tokens : List Token) :
    (∀ x, x ∈ variablesOf tokens ↔ .var x ∈ tokens) ∧
    (variablesOf tokens).Nodup ∧
    (∀ x y, (variablesOf tokens).idxOf x < (variablesOf tokens).idxOf y ↔
      tokens.idxOf (.var x) < tokens.idxOf (.var y)) ∧
    (∀ more, variablesOf (tokens ++ more) =
      variablesOf tokens ++ (variablesOf more).filter fun x => x ∉ variablesOf tokens) ∧
    ∀ e x q, (tabulate e).result ≠ .error (.unboundVariable x q) :=
  ⟨fun _ => mem_variablesOf, nodup_variablesOf tokens,
    fun _ _ => (listsVariables_variablesOf tokens).idxOf_lt_idxOf_iff, variablesOf_append tokens,
    tabulate_ne_unboundVariable⟩

/-- In `meet Z meet A Z` the name `Z` occurs first, and is not listed again for its second
occurrence; behind other tokens that hold an `A`, it is the only new name. -/
theorem variablesOf_in_order_of_occurrence_meet :
    (variablesOf (tokensOf "meet Z meet A Z")).idxOf "Z" <
        (variablesOf (tokensOf "meet Z meet A Z")).idxOf "A" ∧
      variablesOf (tokensOf "|| A B" ++ tokensOf "meet Z meet A Z") = ["A", "B", "Z"] := by
  obtain ⟨-, -, horder, -⟩ := variablesOf_in_order_of_occurrence (tokensOf "meet Z meet A Z")
  obtain ⟨-, -, -, happend, -⟩ := variablesOf_in_order_of_occurrence (tokensOf "|| A B")
  refine ⟨(horder "Z" "A").mpr (by decide), ?_⟩
  rw [happend]
  decide

end ProcessSpaces
