/-!
# The catalog

A few expressions have names: the laws of the logic of process spaces that are worth a table
of their own. All but `mll-mix` are boolean and meant to hold in every row; `mll-mix` has truth
values of the logic for values, and is never rejected.
-/

namespace ProcessSpaces

/-- An expression with a name. -/
structure CatalogEntry where
  /-- The name by which the entry is asked for. -/
  name : String
  /-- The expression. -/
  expression : String
  /-- What the expression says. -/
  description : String
deriving DecidableEq, Repr

/-- The named expressions in the order in which they are listed. -/
def catalog : List CatalogEntry :=
  [{ name := "verification"
     expression := "equiv [= A B robust || - A B"
     description := "A entails B exactly when -A || B is robust." },
   { name := "lollipop"
     expression := "== lpop A B || - A B"
     description := "Linear implication is definable as -A || B." },
   { name := "mll-mix"
     expression := "lpop oplus A || X B || oplus A X B"
     description := "The MLL+MIX rule from 'MLL+MIX as a Logic of Influence and Causation' " ++
       "(A oplus (X || B)) -o ((A oplus X) || B)." },
   { name := "mix"
     expression := "implies and robust G robust D robust || G D"
     description := "The MIX inference rule: robust G and robust D give robust G || D." },
   { name := "excluded-middle"
     expression := "[= phi || A - A"
     description := "A || -A is never worse than phi." },
   { name := "cut"
     expression := "implies and [= phi || Gamma A [= phi || Delta - A [= phi || Gamma Delta"
     description := "Cut: from Gamma, A and Delta, -A conclude Gamma, Delta." },
   { name := "tensor"
     expression := "implies and [= phi || Gamma A [= phi || Delta B " ++
       "[= phi || || Gamma Delta oplus A B"
     description := "Tensor introduction: from Gamma, A and Delta, B conclude Gamma, Delta, " ++
       "A oplus B." }]

/-- The entry with a given name. -/
def CatalogEntry.find? (name : String) : Option CatalogEntry :=
  catalog.find? fun e => e.name = name

end ProcessSpaces
