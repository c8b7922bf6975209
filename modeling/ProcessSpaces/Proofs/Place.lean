import Mathlib.Algebra.BigOperators.Fin
import ProcessSpaces.Valuation.Sequence

/-!
# The place of a valuation in the sequence

The valuations of a list of names come in the order of their numbers, and the number spells out
the values in base three, the first name having the most significant digit. This file turns that
round: given the values, it computes the number. `Valuation.place` is Horner's rule from the left,
and it is the sum of the digits times their weights (`Valuation.place_eq_sum`).

Where no name is listed twice, the two directions are inverse to one another. The valuation with
the number `i` gives the names the values `f` exactly if `i` is the place of `f`
(`Valuation.forall_get?_nth_iff`), so each choice of values is met once and nowhere else. The
heart of it is `Valuation.choices_eq_map_iff`, an induction along the names in which one digit is
split off a remainder at each step.
-/

namespace ProcessSpaces

namespace Valuation

/-! ### Counting the valuations -/

theorem number_eq_pow (n : Nat) : number n = 3 ^ n := rfl

/-- One more name, three times as many valuations. -/
theorem number_succ (n : Nat) : number (n + 1) = 3 * number n := by
  rw [number_eq_pow, number_eq_pow, pow_succ']

theorem number_pos (n : Nat) : 0 < number n := Nat.pow_pos (by decide)

/-! ### The place of a choice of values -/

/-- The number whose digits in base three are the values that `f` gives to the names. -/
def place (f : String → Truth) : List String → Nat
  | [] => 0
  | x :: xs => (f x).digit * number xs.length + place f xs

variable {f : String → Truth} {names : List String} {i : Nat}

/-- Places are numbers of valuations. -/
theorem place_lt (f : String → Truth) (names : List String) :
    place f names < number names.length := by
  induction names with
  | nil => exact number_pos 0
  | cons x xs ih =>
    have hdigit : ((f x).digit : Nat) + 1 ≤ 3 := (f x).digit.isLt
    have hfirst : ((f x).digit : Nat) * number xs.length + number xs.length
        ≤ 3 * number xs.length := by
      rw [← Nat.succ_mul]
      exact Nat.mul_le_mul_right _ hdigit
    rw [place, List.length_cons, number_succ]
    omega

/-- **The place is the sum of the digits times their weights**, the last name having the
weight one. -/
theorem place_eq_sum (f : String → Truth) (names : List String) :
    place f names =
      ∑ j : Fin names.length, ((f names[j]).digit : Nat) * 3 ^ (names.length - 1 - j) := by
  induction names with
  | nil => rfl
  | cons x xs ih =>
    have hweight (j : Fin xs.length) : xs.length + 1 - 1 - (j.succ : Nat) = xs.length - 1 - j := by
      rw [Fin.val_succ]
      omega
    rw [place, ih, number_eq_pow]
    simp only [List.length_cons]
    rw [Fin.sum_univ_succ]
    simp only [hweight]
    rfl

/-! ### Digits back to values -/

/-- A remainder in base three is its first digit times the weight of that digit, and the
remainder behind it. -/
theorem mod_number_succ (i n : Nat) :
    i % number (n + 1) = i / number n % 3 * number n + i % number n := by
  rw [number_eq_pow, number_eq_pow, Nat.mod_pow_succ, Nat.mul_comm, Nat.add_comm]

/-- Two numbers below three times `n` agree if and only if they agree in the digit in front and in
the remainder behind it. -/
theorem mul_add_eq_mul_add_iff {n d e r s : Nat} (hr : r < n) (hs : s < n) :
    d * n + r = e * n + s ↔ d = e ∧ r = s := by
  constructor
  · intro h
    have hdiv : (d * n + r) / n = (e * n + s) / n := by rw [h]
    have hmod : (d * n + r) % n = (e * n + s) % n := by rw [h]
    have hn : 0 < n := Nat.zero_lt_of_lt hr
    rw [Nat.add_comm, Nat.add_comm (e * n), Nat.add_mul_div_right _ _ hn,
      Nat.add_mul_div_right _ _ hn, Nat.div_eq_of_lt hr, Nat.div_eq_of_lt hs, Nat.zero_add,
      Nat.zero_add] at hdiv
    rw [Nat.add_comm, Nat.add_comm (e * n), Nat.add_mul_mod_self_right,
      Nat.add_mul_mod_self_right, Nat.mod_eq_of_lt hr, Nat.mod_eq_of_lt hs] at hmod
    exact ⟨hdiv, hmod⟩
  · rintro ⟨rfl, rfl⟩
    rfl

/-- A digit stands for a truth value exactly if it is the digit of that value. -/
theorem ofDigit_eq_iff {d : Fin 3} {a : Truth} : Truth.ofDigit d = a ↔ (d : Nat) = a.digit := by
  constructor
  · rintro rfl
    rw [Truth.digit_ofDigit]
  · intro h
    rw [Fin.ext h, Truth.ofDigit_digit]

/-- **A number spells out the values `f` exactly if its last digits are the place of `f`.** -/
theorem choices_eq_map_iff :
    choices names i = names.map (fun x => (x, f x)) ↔
      i % number names.length = place f names := by
  induction names with
  | nil => simp [choices, place, number, Nat.mod_one]
  | cons x xs ih =>
    have hmod : i % number xs.length < number xs.length := Nat.mod_lt _ (number_pos _)
    rw [choices, List.map_cons, List.cons.injEq, Prod.mk.injEq, ih, List.length_cons,
      mod_number_succ, place, mul_add_eq_mul_add_iff hmod (place_lt f xs), ofDigit_eq_iff]
    simp only [true_and]

/-! ### Looking the values up -/

/-- A name that has no value yet comes last. -/
theorem put_of_not_mem {x : String} {a : Truth} {l : List (String × Truth)}
    (h : x ∉ l.map Prod.fst) : put x a l = l ++ [(x, a)] := by
  induction l with
  | nil => rfl
  | cons p l ih =>
    obtain ⟨y, b⟩ := p
    rw [List.map_cons, List.mem_cons, not_or] at h
    rw [put, if_neg (Ne.symm h.1), ih h.2]
    rfl

/-- Values given to new names one after the other are kept as they come. -/
theorem bindings_foldl_insert {l : List (String × Truth)} (σ : Valuation)
    (h : (σ.names ++ l.map Prod.fst).Nodup) :
    (l.foldl (fun σ p => σ.insert p.1 p.2) σ).bindings = σ.bindings ++ l := by
  induction l generalizing σ with
  | nil => rw [List.foldl_nil, List.append_nil]
  | cons p l ih =>
    obtain ⟨x, a⟩ := p
    have hx : x ∉ σ.names := by
      intro hmem
      exact (List.nodup_append.mp h).2.2 x hmem x (List.mem_cons_self) rfl
    have hbindings : (σ.insert x a).bindings = σ.bindings ++ [(x, a)] := put_of_not_mem hx
    have hnames : (σ.insert x a).names = σ.names ++ [x] := by rw [names_insert, if_neg hx]
    rw [List.foldl_cons, ih, hbindings, List.append_assoc, List.singleton_append]
    rw [hnames, List.append_assoc, List.singleton_append]
    exact h

/-- The valuation with a number binds the names as the number spells them out. -/
theorem bindings_nth (h : names.Nodup) (i : Nat) : (nth names i).bindings = choices names i := by
  have hnil : ((∅ : Valuation).names ++ (choices names i).map Prod.fst).Nodup := by
    rw [map_fst_choices]
    exact h
  exact bindings_foldl_insert ∅ hnil

/-- The valuation with a number binds the names in their order. -/
theorem names_nth (h : names.Nodup) (i : Nat) : (nth names i).names = names := by
  rw [Valuation.names, bindings_nth h, map_fst_choices]

/-- A name is found in a list in which each name has its value. -/
theorem lookup_map_of_mem {x : String} (hx : x ∈ names) :
    (names.map fun y => (y, f y)).lookup x = some (f x) := by
  induction names with
  | nil => cases hx
  | cons y names ih =>
    by_cases hxy : x = y
    · rw [hxy, List.map_cons, List.lookup_cons_self]
    · have hmem : x ∈ names := (List.mem_cons.mp hx).resolve_left hxy
      rw [List.map_cons, List.lookup_cons, beq_false_of_ne hxy]
      exact ih hmem

/-- A list without repeated names is determined by what is found in it. -/
theorem eq_map_of_forall_lookup {l : List (String × Truth)} (hl : (l.map Prod.fst).Nodup)
    (h : ∀ x ∈ l.map Prod.fst, l.lookup x = some (f x)) :
    l = (l.map Prod.fst).map fun x => (x, f x) := by
  induction l with
  | nil => rfl
  | cons p l ih =>
    obtain ⟨y, a⟩ := p
    rw [List.map_cons, List.nodup_cons] at hl
    have hfirst := h y List.mem_cons_self
    rw [List.lookup_cons_self, Option.some.injEq] at hfirst
    have hrest := ih hl.2 fun x hx => by
      have hne : x ≠ y := fun hxy => hl.1 (hxy ▸ hx)
      have hfound := h x (List.mem_cons_of_mem y hx)
      rwa [List.lookup_cons, beq_false_of_ne hne] at hfound
    rw [List.map_cons, List.map_cons, ← hrest, ← hfirst]

/-- **The valuation that gives the names the values `f` is the one at the place of `f`.** -/
theorem forall_get?_nth_iff (hnames : names.Nodup) (hi : i < number names.length) :
    (∀ x ∈ names, (nth names i).get? x = some (f x)) ↔ i = place f names := by
  rw [← Nat.mod_eq_of_lt hi, ← choices_eq_map_iff, Nat.mod_eq_of_lt hi]
  simp only [get?, bindings_nth hnames]
  constructor
  · intro h
    have hmap := eq_map_of_forall_lookup (f := f) (l := choices names i)
    rw [map_fst_choices] at hmap
    exact hmap hnames h
  · intro h x hx
    rw [h]
    exact lookup_map_of_mem hx

/-- The names that have a value are those that are bound. -/
theorem isSome_get?_iff {σ : Valuation} {x : String} : (σ.get? x).isSome ↔ x ∈ σ.names := by
  rw [get?, List.lookup_isSome_iff, names, List.mem_map]
  constructor
  · rintro ⟨p, hp, hx⟩
    exact ⟨p, hp, (eq_of_beq hx).symm⟩
  · rintro ⟨p, hp, rfl⟩
    exact ⟨p, hp, BEq.rfl⟩

end Valuation

end ProcessSpaces
