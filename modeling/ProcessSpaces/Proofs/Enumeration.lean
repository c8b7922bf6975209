import Mathlib.Data.List.Dedup
import Mathlib.Data.List.Lex
import ProcessSpaces.Proofs.Insertions
import ProcessSpaces.Proofs.Place
import ProcessSpaces.Valuation.Traversal

/-!
# All valuations, with their multiplicities

The valuations of a list of names are numbered, and the number of a valuation has a digit in base
three for each name of the list. This file says what becomes of that where a name is listed several
times.

Its last digit decides (`Valuation.get?_nth_of_last`), and its other digits are of no account. So
each choice of values for the names is met several times, with a factor of three for each digit that
does not count. That is the counting argument of this file (`Valuation.countP_spells`), an induction
along the names: the numbers below three times `n` are pairs of a digit and a number below `n`, and
what is asked of a number is asked of the two apart.

Where no name is listed twice, each choice is met once, and the valuations come in the lexicographic
order of their values (`Valuation.lex_values`).

The values can be computed in place, from the last name to the first, on a machine word. That the
digits come out at their weights is `Valuation.nthWord_eq_nth`.
-/

namespace ProcessSpaces

namespace Valuation

variable {names ds : List String} {x y : String} {i k : Nat} {f : String → Truth}

/-! ### Digits at their weights -/

theorem ofDigit?_mod_three (n : Nat) :
    Truth.ofDigit? (n % 3) = some (Truth.ofDigit ⟨n % 3, Nat.mod_lt _ (by decide)⟩) :=
  dif_pos (Nat.mod_lt _ (by decide))

/-- **The slots are filled with the digits of the number**, each at its weight, and the number is
divided by three as often as there are slots. -/
theorem fill_eq {slots : List Truth} (hslots : slots.length = names.length) (number : UInt64) :
    (fill slots number).1 = (choices names number.toNat).map Prod.snd ∧
      (fill slots number).2.toNat = number.toNat / Valuation.number names.length := by
  induction names generalizing slots with
  | nil =>
    obtain rfl : slots = [] := List.eq_nil_of_length_eq_zero hslots
    exact ⟨rfl, (Nat.div_one _).symm⟩
  | cons x names ih =>
    obtain ⟨slot, slots, rfl⟩ := List.exists_cons_of_length_eq_add_one hslots
    obtain ⟨hfilled, hleft⟩ := ih (Nat.succ.inj hslots)
    constructor
    · have hdigit : ((fill slots number).2 % 3).toNat =
          number.toNat / Valuation.number names.length % 3 := by
        rw [UInt64.toNat_mod, hleft]
        rfl
      rw [fill, choices, List.map_cons, ← hfilled]
      simp only [hdigit, ofDigit?_mod_three, Option.getD_some]
    · rw [fill, UInt64.toNat_div, hleft, List.length_cons, number_succ, Nat.mul_comm,
        ← Nat.div_div_eq_div_mul]
      rfl

/-- **Filling slots makes the valuation with the number.** -/
theorem nthWord_eq_nth (names : List String) (number : UInt64) :
    nthWord names number = nth names number.toNat := by
  obtain ⟨hfilled, -⟩ := fill_eq (List.length_replicate (n := names.length) (a := .reject)) number
  rw [nthWord, nth, hfilled]
  refine congrArg ofList ?_
  exact (List.zip_of_prod (map_fst_choices names _) rfl).symm

/-- The value at a place in the list of names is the digit with the weight of that place. -/
theorem getElem?_choices {j : Nat} (hj : names[j]? = some x) :
    ∃ a, Truth.ofDigit? (i / 3 ^ (names.length - 1 - j) % 3) = some a ∧
      (choices names i)[j]? = some (x, a) := by
  induction names generalizing j with
  | nil => cases hj
  | cons y names ih =>
    cases j with
    | zero =>
      cases hj
      exact ⟨_, ofDigit?_mod_three _, rfl⟩
    | succ j =>
      obtain ⟨a, ha, hget⟩ := ih hj
      refine ⟨a, ?_, hget⟩
      rw [List.length_cons, Nat.add_sub_cancel, Nat.add_comm j, Nat.sub_add_eq]
      exact ha

/-- **The last digit of a name decides on its value.** -/
theorem get?_nth_of_last {j : Nat} (hj : names[j]? = some x)
    (hlast : ∀ k, j < k → names[k]? ≠ some x) :
    ∃ a, Truth.ofDigit? (i / 3 ^ (names.length - 1 - j) % 3) = some a ∧
      (nth names i).get? x = some a := by
  obtain ⟨a, ha, hget⟩ := getElem?_choices (i := i) hj
  refine ⟨a, ha, get?_ofList_of_last hget ?_⟩
  rwa [map_fst_choices]

/-- The names are bound in the order in which they are listed first. -/
theorem listsOnce_nth (names : List String) (i : Nat) : ListsOnce (nth names i).names names := by
  have h := listsOnce_ofList (choices names i)
  rwa [map_fst_choices] at h

/-! ### How often a choice of values is met -/

/-- The number spells out the values `f`: each name has its value in the valuation with the
number. -/
def Spells (f : String → Truth) (names : List String) (i : Nat) : Prop :=
  ∀ x ∈ names, (nth names i).get? x = some (f x)

instance : Decidable (Spells f names i) := inferInstanceAs (Decidable (∀ _ ∈ _, _))

/-- One more name in front counts for its own value only if it is not listed again. -/
theorem get?_nth_cons (x : String) (names : List String) (i : Nat) (y : String) :
    (nth (x :: names) i).get? y = ((nth names i).get? y).or
      (if y = x then Truth.ofDigit? (i / number names.length % 3) else none) := by
  rw [ofDigit?_mod_three]
  exact get?_ofList_cons _ _ y

theorem get?_nth_eq_none_iff : (nth names i).get? x = none ↔ x ∉ names := by
  rw [nth, get?_ofList_eq_none_iff, map_fst_choices]

theorem get?_nth_cons_of_mem (hy : y ∈ names) :
    (nth (x :: names) i).get? y = (nth names i).get? y := by
  obtain ⟨a, ha⟩ := Option.ne_none_iff_exists'.mp fun h => get?_nth_eq_none_iff.mp h hy
  rw [get?_nth_cons, ha, Option.some_or]

theorem get?_nth_cons_of_not_mem (hx : x ∉ names) :
    (nth (x :: names) i).get? x = Truth.ofDigit? (i / number names.length % 3) := by
  rw [get?_nth_cons, get?_nth_eq_none_iff.mpr hx, Option.none_or, if_pos rfl]

/-- The digit in front has to be that of the first name, unless it is listed again. -/
theorem spells_cons_iff :
    Spells f (x :: names) i ↔
      (x ∈ names ∨ i / number names.length % 3 = (f x).digit) ∧ Spells f names i := by
  have hrest : Spells f names i ↔ ∀ y ∈ names, (nth (x :: names) i).get? y = some (f y) :=
    forall₂_congr fun y hy => by rw [get?_nth_cons_of_mem hy]
  rw [Spells, List.forall_mem_cons, ← hrest]
  refine and_congr_left fun hspells => ?_
  by_cases hx : x ∈ names
  · rw [get?_nth_cons_of_mem hx]
    exact iff_of_true (hspells x hx) (Or.inl hx)
  · rw [get?_nth_cons_of_not_mem hx, ofDigit?_mod_three, Option.some.injEq, ofDigit_eq_iff]
    exact (or_iff_right hx).symm

/-- Only as many digits count as there are names. -/
theorem choices_congr (h : i % number names.length = k % number names.length) :
    choices names i = choices names k := by
  induction names with
  | nil => rfl
  | cons x names ih =>
    rw [List.length_cons, mod_number_succ, mod_number_succ,
      mul_add_eq_mul_add_iff (Nat.mod_lt _ (number_pos _)) (Nat.mod_lt _ (number_pos _))] at h
    simp only [choices, h.1, ih h.2]

theorem spells_mod_iff : Spells f names (i % number names.length) ↔ Spells f names i := by
  rw [Spells, Spells, nth, nth, choices_congr (Nat.mod_mod _ _)]

/-- The numbers below `a * b` are pairs of a number below `a` and one below `b`, so that those are
counted whose parts are counted. -/
theorem countP_range_mul (p q : Nat → Bool) (a b : Nat) :
    (List.range (a * b)).countP (fun i => p (i / b) && q (i % b)) =
      (List.range a).countP p * (List.range b).countP q := by
  induction a with
  | zero => simp
  | succ a ih =>
    -- the numbers from `a * b` on are those with `a` as their first part
    have hlast : (List.range b).countP (fun r => p ((a * b + r) / b) && q ((a * b + r) % b)) =
        (List.range b).countP (fun r => p a && q r) := by
      refine List.countP_congr fun r hr => ?_
      have hr : r < b := List.mem_range.mp hr
      have hb : 0 < b := Nat.zero_lt_of_lt hr
      rw [Nat.add_comm, Nat.add_mul_div_right _ _ hb, Nat.div_eq_of_lt hr, Nat.zero_add,
        Nat.add_mul_mod_self_right, Nat.mod_eq_of_lt hr]
    rw [Nat.succ_mul, List.range_add, List.countP_append, ih, List.countP_map, List.range_succ,
      List.countP_append, Nat.add_mul]
    refine congrArg _ (hlast.trans ?_)
    cases hp : p a with
    | false => simp [hp]
    | true => simp [hp]

/-- All digits may stand in front of a name that is listed again, and one may in front of another
name. -/
theorem countP_digit (c : Prop) [Decidable c] (d : Fin 3) :
    (List.range 3).countP (fun n => decide (c ∨ n = (d : Nat))) = if c then 3 else 1 := by
  by_cases hc : c
  · simp [hc]
  · simp only [hc, false_or, if_false]
    revert d
    decide

/-- **How often a choice of values is met.** Among the numbers of all valuations, those that spell
out given values are three times as many for each name that is listed again. -/
theorem countP_spells (f : String → Truth) (names : List String) :
    (List.range (number names.length)).countP (fun i => decide (Spells f names i)) =
      3 ^ (names.length - names.dedup.length) := by
  induction names with
  | nil => rfl
  | cons x names ih =>
    have hsplit : (List.range (number (x :: names).length)).countP
          (fun i => decide (Spells f (x :: names) i)) =
        (List.range (3 * number names.length)).countP fun i =>
          decide (x ∈ names ∨ i / number names.length = (f x).digit) &&
            decide (Spells f names (i % number names.length)) := by
      rw [List.length_cons, number_succ]
      refine List.countP_congr fun i hi => ?_
      have hdigit : i / number names.length < 3 :=
        Nat.div_lt_of_lt_mul (Nat.mul_comm 3 _ ▸ List.mem_range.mp hi)
      rw [Bool.and_eq_true, decide_eq_true_iff, decide_eq_true_iff, decide_eq_true_iff,
        spells_cons_iff, spells_mod_iff, Nat.mod_eq_of_lt hdigit]
    have hle : names.dedup.length ≤ names.length := (List.dedup_sublist names).length_le
    rw [hsplit, countP_range_mul (fun d => decide (x ∈ names ∨ d = (f x).digit))
      (fun r => decide (Spells f names r)), ih, countP_digit]
    by_cases hx : x ∈ names
    · rw [if_pos hx, List.dedup_cons_of_mem hx, List.length_cons, Nat.sub_add_comm hle, pow_succ']
    · rw [if_neg hx, List.dedup_cons_of_notMem hx, List.length_cons, List.length_cons,
        Nat.add_sub_add_right, Nat.one_mul]

/-- Names are listed once as often as they are kept when repetitions are dropped. -/
theorem length_dedup (h : ListsOnce ds names) : names.dedup.length = ds.length := by
  refine List.Perm.length_eq ((List.perm_ext_iff_of_nodup names.nodup_dedup h.nodup).mpr ?_)
  intro x
  rw [List.mem_dedup, h.mem_iff]

/-! ### The order of the values -/

/-- **The values come in lexicographic order.** -/
theorem lex_values (h : i % number names.length < k % number names.length) :
    List.Lex (fun a b : Truth => a.digit < b.digit) ((choices names i).map Prod.snd)
      ((choices names k).map Prod.snd) := by
  induction names with
  | nil => simp [number, Nat.mod_one] at h
  | cons x names ih =>
    rw [List.length_cons, mod_number_succ, mod_number_succ] at h
    have hi : i % number names.length < number names.length := Nat.mod_lt _ (number_pos _)
    have hk : k % number names.length < number names.length := Nat.mod_lt _ (number_pos _)
    rcases Nat.lt_trichotomy (i / number names.length % 3) (k / number names.length % 3)
      with hlt | heq | hgt
    · refine List.Lex.rel ?_
      rw [Truth.digit_ofDigit, Truth.digit_ofDigit]
      exact hlt
    · rw [heq, Nat.add_lt_add_iff_left] at h
      simp only [choices, List.map_cons, heq]
      exact List.Lex.cons (ih h)
    · -- a greater digit in front makes a greater number
      exfalso
      have hmul := Nat.mul_le_mul_right (number names.length) hgt
      rw [Nat.succ_mul] at hmul
      omega

end Valuation

/-! ### The whole sequence -/

section Start

open ProcessSpaces.Valuation

variable {names ds : List String} {c : Cursor}

/-- The cursor at the start has all valuations in front of it. -/
theorem Cursor.toList_of_start (h : Cursor.start names = .ok c) :
    c.toList = (List.range (number names.length)).map (nth names) := by
  rw [Cursor.start] at h
  split at h
  · cases h
    simp [Cursor.toList, Cursor.remaining]
  · cases h

theorem Cursor.start_of_length_le (h : names.length ≤ maxVariables) :
    ∃ c, Cursor.start names = .ok c := ⟨_, dif_pos h⟩

/-- The machine word for a number that fits in one stands for this number. -/
theorem toNat_ofNat_of_le_maxWord {n : Nat} (h : n ≤ maxWord) : (UInt64.ofNat n).toNat = n :=
  UInt64.toNat_ofNat_of_lt' (Nat.lt_of_le_pred (by decide) h)

/-- The valuations of a list without repeated names come in the lexicographic order of their
values. -/
theorem pairwise_values (hnames : names.Nodup) :
    (((List.range (number names.length)).map (nth names)).map fun σ =>
      σ.bindings.map Prod.snd).Pairwise (List.Lex fun a b => a.digit < b.digit) := by
  rw [List.map_map, List.pairwise_map]
  refine List.pairwise_lt_range.imp_of_mem fun {i k} hi hk hik => ?_
  simp only [Function.comp_apply, bindings_nth hnames]
  refine lex_values ?_
  rwa [Nat.mod_eq_of_lt (List.mem_range.mp hi), Nat.mod_eq_of_lt (List.mem_range.mp hk)]

/-- **The valuations are enumerated with the right multiplicities, in the order of base three.** A
list of `n` names, of which `ds` are the different ones, has `3 ^ n` valuations, if they can be
counted. The one with the number `i` binds the different names in the order of their first
occurrences, each to the value whose digit `i` has at the weight of the last occurrence of the name.
It is the one that comes of filling slots. Each choice of values is met as often as the other digits
can be chosen. If no name is listed twice, then no valuation comes twice, each choice of values is
met once, and the values come in lexicographic order. -/
theorem enumeration_complete (hcount : names.length ≤ maxVariables) (hds : ListsOnce ds names) :
    ∃ c, Cursor.start names = .ok c ∧ c.toList.length = 3 ^ names.length ∧
      (∀ i, (c.take? i).1 = c.toList[i]?) ∧
      (∀ i < 3 ^ names.length, ∃ σ, c.toList[i]? = some σ ∧ σ.names = ds ∧
        (∀ x j, names[j]? = some x → (∀ k, j < k → names[k]? ≠ some x) →
          ∃ a, Truth.ofDigit? (i / 3 ^ (names.length - 1 - j) % 3) = some a ∧
            σ.get? x = some a) ∧
        σ = nthWord names (.ofNat i)) ∧
      (∀ f : String → Truth, c.toList.countP (fun σ => decide (∀ x ∈ names, σ.get? x = some (f x)))
        = 3 ^ (names.length - ds.length)) ∧
      (names.Nodup → c.toList.Nodup ∧
        (∀ f : String → Truth,
          c.toList.countP (fun σ => decide (∀ x ∈ names, σ.get? x = some (f x))) = 1) ∧
        (c.toList.map fun σ => σ.bindings.map Prod.snd).Pairwise
          (List.Lex fun a b => a.digit < b.digit)) := by
  obtain ⟨c, hc⟩ := Cursor.start_of_length_le hcount
  have hlist := Cursor.toList_of_start hc
  have hcountP (f : String → Truth) :
      c.toList.countP (fun σ => decide (∀ x ∈ names, σ.get? x = some (f x))) =
        3 ^ (names.length - ds.length) := by
    rw [hlist, List.countP_map, ← length_dedup hds, ← countP_spells f names]
    rfl
  refine ⟨c, hc, ?_, ?_, ?_, hcountP, ?_⟩
  · rw [hlist, List.length_map, List.length_range, number_eq_pow]
  · intro i
    rw [Cursor.getElem?_toList]
    rfl
  · intro i hi
    refine ⟨nth names i, ?_, (listsOnce_nth names i).unique hds, ?_, ?_⟩
    · rw [hlist, List.getElem?_map, number_eq_pow, List.getElem?_range hi]
      rfl
    · intro x j hj hlast
      exact get?_nth_of_last hj hlast
    · have hword : number names.length ≤ maxWord := number_le_maxWord_iff.mpr hcount
      rw [nthWord_eq_nth, toNat_ofNat_of_le_maxWord (hi.le.trans hword)]
  · intro hnames
    have hvalues := hlist ▸ pairwise_values hnames
    refine ⟨?_, ?_, hvalues⟩
    · have hnodup : (c.toList.map fun σ => σ.bindings.map Prod.snd).Nodup := by
        refine hvalues.imp ?_
        rintro values _ hlex rfl
        exact List.lex_irrefl (fun a : Truth => lt_irrefl a.digit) values hlex
      exact hnodup.of_map _
    · intro f
      rw [hcountP, (listsOnce_self hnames).unique hds, Nat.sub_self]
      rfl

/-- Of the valuations of `A`, `B` and `A` again, number `7` binds `A` and then `B`, to the values of
the last and the middle digit of `021`; each choice of values for the two names is met three
times. -/
theorem enumeration_complete_repeated :
    ∃ c, Cursor.start ["A", "B", "A"] = .ok c ∧ c.toList.length = 27 ∧
      (∃ σ, c.toList[7]? = some σ ∧ σ.names = ["A", "B"] ∧ σ.get? "A" = some .grant ∧
        σ.get? "B" = some .neutral) ∧
      c.toList.countP (fun σ => decide (∀ x ∈ ["A", "B", "A"], σ.get? x = some .neutral)) = 3 := by
  have hds : ListsOnce ["A", "B"] ["A", "B", "A"] := ⟨by simp; grind, by decide⟩
  obtain ⟨c, hc, hlength, -, hitem, hcountP, -⟩ := enumeration_complete (by decide) hds
  obtain ⟨σ, hσ, hnames, hvalue, -⟩ := hitem 7 (by decide)
  obtain ⟨a, ha, hA⟩ := hvalue "A" 2 rfl (by rintro (_ | _ | _ | k) hk <;> simp at hk ⊢)
  obtain ⟨b, hb, hB⟩ := hvalue "B" 1 rfl (by rintro (_ | _ | _ | k) hk <;> simp at hk ⊢)
  cases ha
  cases hb
  exact ⟨c, hc, hlength, ⟨σ, hσ, hnames, hA, hB⟩, hcountP fun _ => .neutral⟩

end Start

end ProcessSpaces
