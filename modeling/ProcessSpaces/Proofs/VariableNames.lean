import Mathlib.Data.List.Basic
import Mathlib.Data.List.Induction
import ProcessSpaces.Token

/-!
# The names of the variables

`variablesOf` walks along the tokens and notes each name that it has not noted yet. What comes
out is determined by two properties (`ListsVariables.unique`): the names are those of the variables
among the tokens, and they stand in the order in which these first occur. The second of them implies
that no name is noted twice.

The proof follows the walk: one more token at the end adds its name at the end, if it is a new
one, and changes nothing otherwise (`variablesOf_concat`). What a single token adds in this way is
a case of what any number of tokens add (`ListsVariables.append`), so that the walk may also be made
in pieces (`variablesOf_append`).
-/

namespace ProcessSpaces

/-- The list holds the names of the variables among the tokens, in the order of their first
occurrences. -/
structure ListsVariables (names : List String) (tokens : List Token) : Prop where
  /-- The names are those of the variables that occur. -/
  mem_iff (x : String) : x ∈ names ↔ .var x ∈ tokens
  /-- A name that comes earlier occurs earlier. -/
  pairwise : names.Pairwise fun x y => tokens.idxOf (.var x) < tokens.idxOf (.var y)

variable {names : List String} {tokens : List Token}

/-- No name is listed twice, since it cannot occur before itself. -/
theorem ListsVariables.nodup (h : ListsVariables names tokens) : names.Nodup :=
  h.pairwise.imp fun {x y} hxy hne => by
    rw [hne] at hxy
    exact Nat.lt_irrefl _ hxy

/-- **There is only one such list**: the names are settled, and so is the order of any two. -/
theorem ListsVariables.unique {names' : List String} (h : ListsVariables names tokens)
    (h' : ListsVariables names' tokens) : names = names' := by
  have hmem : ∀ x, x ∈ names ↔ x ∈ names' := fun x => (h.mem_iff x).trans (h'.mem_iff x).symm
  have hperm : names.Perm names' := (List.perm_ext_iff_of_nodup h.nodup h'.nodup).mpr hmem
  refine hperm.eq_of_pairwise (fun x y _ _ hxy hyx => ?_) h.pairwise h'.pairwise
  exact absurd hxy (Nat.lt_asymm hyx)

/-! ### Tokens behind one another -/

/-- **Names behind one another**: if names are listed for some tokens, and others for the tokens
behind these, then those of the others that are new belong at the end. -/
theorem ListsVariables.append {names' : List String} {more : List Token}
    (h : ListsVariables names tokens) (h' : ListsVariables names' more) :
    ListsVariables (names ++ names'.filter fun x => x ∉ names) (tokens ++ more) := by
  have hnew {x : String} (hx : x ∈ names'.filter fun x => x ∉ names) :
      x ∈ names' ∧ .var x ∉ tokens := by
    rw [List.mem_filter, decide_eq_true_iff] at hx
    exact ⟨hx.1, mt (h.mem_iff x).mpr hx.2⟩
  refine ⟨fun x => ?_, List.pairwise_append.mpr ⟨?_, ?_, fun x hx y hy => ?_⟩⟩
  · rw [List.mem_append, List.mem_filter, decide_eq_true_iff, List.mem_append, ← h.mem_iff,
      ← h'.mem_iff]
    by_cases hx : x ∈ names
    · exact iff_of_true (Or.inl hx) (Or.inl hx)
    · rw [and_iff_left hx]
  · refine h.pairwise.imp_of_mem fun {x y} hx hy hxy => ?_
    rwa [List.idxOf_append_of_mem ((h.mem_iff x).mp hx),
      List.idxOf_append_of_mem ((h.mem_iff y).mp hy)]
  · refine (h'.pairwise.filter _).imp_of_mem fun {x y} hx hy hxy => ?_
    rw [List.idxOf_append_of_notMem (hnew hx).2, List.idxOf_append_of_notMem (hnew hy).2]
    omega
  · -- the first name occurs among the first tokens, and the second one only behind them
    have hlt : tokens.idxOf (.var x) < tokens.length :=
      List.idxOf_lt_length_of_mem ((h.mem_iff x).mp hx)
    rw [List.idxOf_append_of_mem ((h.mem_iff x).mp hx), List.idxOf_append_of_notMem (hnew hy).2]
    omega

/-- A single token has its own name for a variable, if it is one. -/
theorem listsVariables_singleton (t : Token) : ListsVariables t.name?.toList [t] := by
  cases t with
  | var x => exact ⟨fun y => by simp [Token.name?], List.pairwise_singleton _ _⟩
  | constant a => exact ⟨fun y => by simp [Token.name?], List.Pairwise.nil⟩
  | unary op => exact ⟨fun y => by simp [Token.name?], List.Pairwise.nil⟩
  | binary op => exact ⟨fun y => by simp [Token.name?], List.Pairwise.nil⟩
  | gap => exact ⟨fun y => by simp [Token.name?], List.Pairwise.nil⟩

/-! ### One more token -/

/-- A token that is no variable adds no name. -/
theorem variablesOf_concat_of_name?_eq_none {t : Token} (h : t.name? = none) :
    variablesOf (tokens ++ [t]) = variablesOf tokens := by
  rw [variablesOf, variablesOf, List.filterMap_append, List.filterMap_cons_none h,
    List.filterMap_nil, List.append_nil]

/-- A variable adds its name at the end, unless the name has been noted. -/
theorem variablesOf_concat_of_name?_eq_some {t : Token} {x : String} (h : t.name? = some x) :
    variablesOf (tokens ++ [t]) =
      if x ∈ variablesOf tokens then variablesOf tokens else variablesOf tokens ++ [x] := by
  rw [variablesOf, List.filterMap_append, List.filterMap_cons_some h, List.foldl_append]
  rfl

theorem variablesOf_concat_var (x : String) :
    variablesOf (tokens ++ [.var x]) =
      if x ∈ variablesOf tokens then variablesOf tokens else variablesOf tokens ++ [x] :=
  variablesOf_concat_of_name?_eq_some rfl

/-- One more token adds its name at the end, if it has one and this is new. -/
theorem variablesOf_concat (t : Token) :
    variablesOf (tokens ++ [t]) =
      variablesOf tokens ++ t.name?.toList.filter fun x => x ∉ variablesOf tokens := by
  cases ht : t.name? with
  | none =>
    rw [variablesOf_concat_of_name?_eq_none ht, Option.toList_none, List.filter_nil,
      List.append_nil]
  | some x =>
    rw [variablesOf_concat_of_name?_eq_some ht, Option.toList_some]
    by_cases hx : x ∈ variablesOf tokens
    · simp [hx]
    · simp [hx]

/-! ### All tokens -/

/-- **The names that are noted are those of the variables, in the order of first occurrence**, by
induction on how many tokens have been passed. -/
theorem listsVariables_variablesOf (tokens : List Token) :
    ListsVariables (variablesOf tokens) tokens := by
  induction tokens using List.reverseRecOn with
  | nil => exact ⟨fun x => by simp [variablesOf], List.Pairwise.nil⟩
  | append_singleton tokens t ih =>
    rw [variablesOf_concat]
    exact ih.append (listsVariables_singleton t)

/-- The names that are noted are those of the variables. -/
theorem mem_variablesOf {x : String} : x ∈ variablesOf tokens ↔ .var x ∈ tokens :=
  (listsVariables_variablesOf tokens).mem_iff x

/-- No name is noted twice. -/
theorem nodup_variablesOf (tokens : List Token) : (variablesOf tokens).Nodup :=
  (listsVariables_variablesOf tokens).nodup

/-- **The names of tokens behind one another** are those of the first tokens, and then those of the
others that are new, since only this list has them in their order. -/
theorem variablesOf_append (tokens more : List Token) :
    variablesOf (tokens ++ more) =
      variablesOf tokens ++ (variablesOf more).filter fun x => x ∉ variablesOf tokens :=
  (listsVariables_variablesOf _).unique
    ((listsVariables_variablesOf tokens).append (listsVariables_variablesOf more))

end ProcessSpaces
