import ProcessSpaces.Token

/-!
# Counting operands

Whether tokens form an expression can be told by counting alone. At the beginning one expression
is owed. Each token that is read settles one and owes as many as it needs operands, so that
after `k` tokens the number still owed is `owed tokens k`. An expression ends where nothing is
owed for the first time (`CompletesAt`).
-/

namespace ProcessSpaces

/-- The number of expressions that are still owed when the first `k` tokens have been read. -/
def owed (tokens : List Token) (k : Nat) : Int :=
  (tokens.take k).foldl (fun n t => n - 1 + t.arity) 1

/-- After `k` tokens, and not before, nothing is owed any more. -/
def CompletesAt (tokens : List Token) (k : Nat) : Prop :=
  k ≤ tokens.length ∧ owed tokens k = 0 ∧ ∀ j < k, 0 < owed tokens j

instance (tokens : List Token) (k : Nat) : Decidable (CompletesAt tokens k) :=
  inferInstanceAs (Decidable (_ ∧ _ ∧ _))

@[simp] theorem owed_zero (tokens : List Token) : owed tokens 0 = 1 := rfl

/-- Reading one token settles one expression and owes the operands of the token. -/
theorem owed_succ {tokens : List Token} {k : Nat} {t : Token} (h : tokens[k]? = some t) :
    owed tokens (k + 1) = owed tokens k - 1 + t.arity := by
  simp only [owed, List.take_add_one, h, Option.toList_some, List.foldl_append, List.foldl_cons,
    List.foldl_nil]

end ProcessSpaces
