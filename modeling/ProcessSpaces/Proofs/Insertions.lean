import ProcessSpaces.Proofs.Place
import ProcessSpaces.Proofs.VariableNames

/-!
# Values given one after the other

`Valuation.ofList` gives values to names in turn, and a name may have its turn more than once. What
comes of it mixes two orders. The names stand where they came first (`Valuation.listsOnce_ofList`),
and each has the value that came last (`Valuation.get?_ofList_of_last`).

Both are shown by following the turns. The order of the names grows as the list of the variables
does that are noted along an expression, so that what is known about that list is used here.
-/

namespace ProcessSpaces

variable {ds names : List String} {x y : String} {a : Truth}

/-! ### The order of first occurrence -/

/-- The list `ds` holds the names that occur among `names`, in the order of their first
occurrences. -/
structure ListsOnce (ds names : List String) : Prop where
  /-- The names are those that occur. -/
  mem_iff (x : String) : x ∈ ds ↔ x ∈ names
  /-- A name that comes earlier occurs earlier. -/
  pairwise : ds.Pairwise fun x y => names.idxOf x < names.idxOf y

theorem idxOf_map_var (x : String) (names : List String) :
    (names.map Token.var).idxOf (.var x) = names.idxOf x := by
  induction names with
  | nil => rfl
  | cons y names ih =>
    by_cases h : y = x
    · rw [h, List.map_cons, List.idxOf_cons_self, List.idxOf_cons_self]
    · have hvar : Token.var y ≠ .var x := fun heq => h (Token.var.inj heq)
      rw [List.map_cons, List.idxOf_cons_ne _ hvar, List.idxOf_cons_ne _ h, ih]

/-- Names are listed once exactly if they are listed as the variables of a stream of them. -/
theorem listsOnce_iff : ListsOnce ds names ↔ ListsVariables ds (names.map .var) := by
  have hmem (x : String) : .var x ∈ names.map Token.var ↔ x ∈ names := by simp
  constructor
  · rintro ⟨hds, hpairwise⟩
    exact ⟨fun x => (hds x).trans (hmem x).symm, by simpa only [idxOf_map_var] using hpairwise⟩
  · rintro ⟨hds, hpairwise⟩
    exact ⟨fun x => (hds x).trans (hmem x), by simpa only [idxOf_map_var] using hpairwise⟩

theorem ListsOnce.nodup (h : ListsOnce ds names) : ds.Nodup := (listsOnce_iff.mp h).nodup

/-- There is only one such list. -/
theorem ListsOnce.unique {ds' : List String} (h : ListsOnce ds names) (h' : ListsOnce ds' names) :
    ds = ds' :=
  (listsOnce_iff.mp h).unique (listsOnce_iff.mp h')

/-- Where no name occurs twice, all names are listed as they stand. -/
theorem listsOnce_self (h : names.Nodup) : ListsOnce names names where
  mem_iff x := Iff.rfl
  pairwise := by
    rw [List.pairwise_iff_getElem]
    intro i j hi hj hij
    rw [h.idxOf_getElem i hi, h.idxOf_getElem j hj]
    exact hij

namespace Valuation

variable {l : List (String × Truth)}

/-- The last turn is an insertion. -/
theorem ofList_concat (l : List (String × Truth)) (p : String × Truth) :
    ofList (l ++ [p]) = (ofList l).insert p.1 p.2 := by
  rw [ofList, List.foldl_append]
  rfl

theorem names_ofList (l : List (String × Truth)) :
    (ofList l).names = variablesOf ((l.map Prod.fst).map .var) := by
  induction l using List.reverseRecOn with
  | nil => rfl
  | append_singleton l p ih =>
    rw [ofList_concat, names_insert, ih, List.map_append, List.map_append]
    exact (variablesOf_concat_var p.1).symm

/-- **The names are bound in the order in which they came first.** -/
theorem listsOnce_ofList (l : List (String × Truth)) :
    ListsOnce (ofList l).names (l.map Prod.fst) := by
  rw [listsOnce_iff, names_ofList]
  exact listsVariables_variablesOf _

/-! ### The last value -/

/-- What is found are the values that came last. -/
theorem get?_ofList (l : List (String × Truth)) (x : String) :
    (ofList l).get? x = l.reverse.lookup x := by
  induction l using List.reverseRecOn with
  | nil => rfl
  | append_singleton l p ih =>
    obtain ⟨y, a⟩ := p
    rw [ofList_concat, List.reverse_append, List.reverse_singleton, List.singleton_append]
    by_cases hxy : x = y
    · rw [hxy, get?_insert_self, List.lookup_cons_self]
    · rw [get?_insert_of_ne _ hxy, ih, List.lookup_cons, beq_false_of_ne hxy]

/-- The first turn counts for its name only if there is no other. -/
theorem get?_ofList_cons (p : String × Truth) (l : List (String × Truth)) (x : String) :
    (ofList (p :: l)).get? x = ((ofList l).get? x).or (if x = p.1 then some p.2 else none) := by
  rw [get?_ofList, get?_ofList, List.reverse_cons, List.lookup_append]
  congr 1
  by_cases hx : x = p.1
  · rw [if_pos hx, hx, List.lookup_cons_self]
  · rw [if_neg hx, List.lookup_cons, beq_false_of_ne hx, List.lookup_nil]

theorem get?_ofList_eq_none_iff : (ofList l).get? x = none ↔ x ∉ l.map Prod.fst := by
  rw [← (listsOnce_ofList l).mem_iff, ← isSome_get?_iff, Option.not_isSome_iff_eq_none]

/-- **A name has the value of its last turn.** -/
theorem get?_ofList_of_last {j : Nat} (hj : l[j]? = some (x, a))
    (hlast : ∀ k, j < k → (l.map Prod.fst)[k]? ≠ some x) : (ofList l).get? x = some a := by
  induction l generalizing j with
  | nil => cases hj
  | cons p l ih =>
    rw [get?_ofList_cons]
    cases j with
    | zero =>
      obtain rfl : p = (x, a) := Option.some.inj hj
      have hx : x ∉ l.map Prod.fst := by
        intro hmem
        obtain ⟨k, hk⟩ := List.mem_iff_getElem?.mp hmem
        exact hlast (k + 1) k.succ_pos hk
      rw [get?_ofList_eq_none_iff.mpr hx, Option.none_or, if_pos rfl]
    | succ j =>
      rw [ih hj fun k hk => hlast (k + 1) (Nat.succ_lt_succ hk)]
      rfl

end Valuation

end ProcessSpaces
