import ProcessSpaces.Truth

/-!
# Valuations

A valuation gives truth values to finitely many names. It remembers the order in which the
names came, since that is the order in which it is written: giving a value to a new name puts
the name last, giving another value to a name that has one leaves the name where it is. No
name occurs twice, and this is part of the type.

What a valuation says about a name is `Valuation.get?`. A value that has just been given is
found (`Valuation.get?_insert_self`), and all other names keep theirs
(`Valuation.get?_insert_of_ne`).
-/

namespace ProcessSpaces

namespace Valuation

/-- A list of names with their values, as it is after `x` has been given the value `a`. -/
def put (x : String) (a : Truth) : List (String × Truth) → List (String × Truth)
  | [] => [(x, a)]
  | (y, b) :: l => if y = x then (x, a) :: l else (y, b) :: put x a l

/-- Binding a name adds it at the end, if it is new, and moves no other name. -/
theorem map_fst_put (x : String) (a : Truth) (l : List (String × Truth)) :
    (put x a l).map Prod.fst =
      if x ∈ l.map Prod.fst then l.map Prod.fst else l.map Prod.fst ++ [x] := by
  induction l with
  | nil => rfl
  | cons p l ih =>
    obtain ⟨y, b⟩ := p
    by_cases h : y = x
    · simp [put, h]
    · have h' : ¬x = y := fun e => h e.symm
      rw [put, if_neg h, List.map_cons, ih, List.map_cons]
      by_cases hx : x ∈ l.map Prod.fst
      · rw [if_pos hx, if_pos (List.mem_cons_of_mem y hx)]
      · rw [if_neg hx, if_neg (by simp only [List.mem_cons, not_or]; exact ⟨h', hx⟩)]
        rfl

theorem nodup_put {x : String} {a : Truth} {l : List (String × Truth)}
    (h : (l.map Prod.fst).Nodup) : ((put x a l).map Prod.fst).Nodup := by
  rw [map_fst_put]
  split
  · exact h
  · next hx =>
    refine List.nodup_append.2 ⟨h, by simp, fun y hy z hz e => hx ?_⟩
    rw [List.mem_singleton.1 hz] at e
    exact e ▸ hy

end Valuation

/-- A finite map from names to truth values that remembers the order of the names. -/
structure Valuation where
  /-- The names and their values, in the order in which the names came. -/
  bindings : List (String × Truth)
  /-- No name occurs twice. -/
  nodup_names : (bindings.map Prod.fst).Nodup
deriving DecidableEq

namespace Valuation

/-- The valuation without a name. -/
instance : EmptyCollection Valuation where
  emptyCollection := ⟨[], List.nodup_nil⟩

instance : Inhabited Valuation := ⟨∅⟩

/-- The names in their order. -/
def names (σ : Valuation) : List String := σ.bindings.map Prod.fst

/-- Whether no name has a value. -/
def isEmpty (σ : Valuation) : Bool := σ.bindings.isEmpty

/-- The value of a name, if it has one. -/
def get? (σ : Valuation) (x : String) : Option Truth := σ.bindings.lookup x

/-- Gives the name `x` the value `a`. -/
def insert (σ : Valuation) (x : String) (a : Truth) : Valuation :=
  ⟨put x a σ.bindings, nodup_put σ.nodup_names⟩

/-- Gives names their values one after the other, starting from no name. -/
def ofList (l : List (String × Truth)) : Valuation :=
  l.foldl (fun σ p => σ.insert p.1 p.2) ∅

/-- The valuation as it is written in tables. -/
def text (σ : Valuation) : String :=
  "\x7b" ++ ", ".intercalate (σ.bindings.map fun p => p.1 ++ ": " ++ p.2.text) ++ "\x7d"

theorem ext_bindings {σ τ : Valuation} (h : σ.bindings = τ.bindings) : σ = τ := by
  cases σ; cases τ; cases h; rfl

@[simp] theorem get?_empty (x : String) : (∅ : Valuation).get? x = none := rfl

theorem lookup_put_self (x : String) (a : Truth) (l : List (String × Truth)) :
    (put x a l).lookup x = some a := by
  induction l with
  | nil => simp [put]
  | cons p l ih =>
    obtain ⟨y, b⟩ := p
    by_cases h : y = x
    · simp [put, h]
    · have h' : (x == y) = false := beq_false_of_ne fun e => h e.symm
      rw [put, if_neg h, List.lookup_cons, h']
      exact ih

theorem lookup_put_of_ne {x y : String} (hne : y ≠ x) (a : Truth) (l : List (String × Truth)) :
    (put x a l).lookup y = l.lookup y := by
  have hyx : (y == x) = false := beq_false_of_ne hne
  induction l with
  | nil => simp [put, List.lookup_cons, hyx]
  | cons p l ih =>
    obtain ⟨z, b⟩ := p
    by_cases h : z = x
    · simp [put, h, List.lookup_cons, hyx]
    · rw [put, if_neg h, List.lookup_cons, List.lookup_cons, ih]

@[simp] theorem get?_insert_self (σ : Valuation) (x : String) (a : Truth) :
    (σ.insert x a).get? x = some a :=
  lookup_put_self x a σ.bindings

theorem get?_insert_of_ne (σ : Valuation) {x y : String} (h : y ≠ x) (a : Truth) :
    (σ.insert x a).get? y = σ.get? y :=
  lookup_put_of_ne h a σ.bindings

theorem names_insert (σ : Valuation) (x : String) (a : Truth) :
    (σ.insert x a).names = if x ∈ σ.names then σ.names else σ.names ++ [x] :=
  map_fst_put x a σ.bindings

end Valuation

end ProcessSpaces
