import ProcessSpaces.Proofs.Occurrences
import ProcessSpaces.Proofs.Traversal
import ProcessSpaces.Valuation.Counting

/-!
# Counting the valuations

How many valuations a list of names has is a power of three, which soon outgrows a machine word. To
compute it and to notice where it does so takes some care: what is computed on the way must neither
run over unnoticed nor be too great itself where the power is not. This file shows that counting with
machine words is counting (`countWord_eq`), for as many names as a machine word can tell.

The key is to see a checked computation as a search for the machine word that stands for a certain
number (`wordOf`). A step on the way does no harm if its number is at most the one that is looked for
(`wordOf_bind`). If there is a word for the step, then the computation goes on from it, and if there
is none, then there is none for the result either. Powers by squaring are of this kind, since no
square is computed beyond the one that is still needed; the invariant is that the factors set aside
and the power of the base that is left make up the power that is looked for (`powFrom_eq`).

The limit is the same wherever valuations are counted. A list of more than forty names has no first
valuation (`start_of_lt`). A table is refused for the number of variables exactly if there are more
than forty of them (`tabulate_eq_tooManyVariables_iff`), and for that before it is even tried to read
the expression.
-/

namespace ProcessSpaces

open ProcessSpaces.Valuation

/-! ### Machine words for numbers -/

/-- The machine word for a number, if there is one. -/
def wordOf (n : Nat) : Except Fault UInt64 :=
  if n ≤ maxWord then .ok (.ofNat n) else .error .overflow

section Words

variable {aside base : UInt64} {exponent : UInt32} {k n : Nat} {f : UInt64 → Except Fault UInt64}

theorem wordOf_of_le (h : n ≤ maxWord) : wordOf n = .ok (.ofNat n) := if_pos h

theorem wordOf_of_lt (h : maxWord < n) : wordOf n = .error .overflow :=
  if_neg (Nat.not_le_of_lt h)

/-- A machine word is the word for the number that it stands for. -/
theorem wordOf_toNat (a : UInt64) : wordOf a.toNat = .ok a := by
  have hle : a.toNat ≤ maxWord := Nat.le_pred_of_lt a.toNat_lt
  rw [wordOf_of_le hle, UInt64.ofNat_toNat]

/-- A checked product is the word for the product. -/
theorem checkedMul_eq (a b : UInt64) : checkedMul a b = wordOf (a.toNat * b.toNat) := by
  rw [checkedMul, wordOf, UInt64.ofNat_mul, UInt64.ofNat_toNat, UInt64.ofNat_toNat]

/-- **What is needed on the way to a number may be checked on the way**, if it is not greater: if
there is no word for it, then there is none for the number. -/
theorem wordOf_bind (hle : k ≤ n) (hf : ∀ a, a.toNat = k → f a = wordOf n) :
    (wordOf k >>= f) = wordOf n := by
  rcases Nat.lt_or_ge maxWord k with hlt | hword
  · rw [wordOf_of_lt hlt, error_bind, wordOf_of_lt (hlt.trans_le hle)]
  · rw [wordOf_of_le hword, ok_bind]
    exact hf _ (toNat_ofNat_of_le_maxWord hword)

/-! ### Powers by squaring -/

/-- What is set aside for an odd exponent is a factor, and for an even one nothing. -/
theorem setAside_eq (aside base : UInt64) (exponent : UInt32) :
    setAside aside base exponent =
      wordOf (aside.toNat * base.toNat ^ (exponent.toNat % 2)) := by
  have hodd : exponent % 2 = 1 ↔ exponent.toNat % 2 = 1 := by
    rw [← UInt32.toNat_inj, UInt32.toNat_mod]
    rfl
  rw [setAside]
  by_cases h : exponent % 2 = 1
  · rw [if_pos h, hodd.mp h, checkedMul_eq, pow_one]
  · have heven : exponent.toNat % 2 = 0 := Nat.mod_two_ne_one.mp (mt hodd.mpr h)
    rw [if_neg h, heven, pow_zero, Nat.mul_one, wordOf_toNat]

/-- Halving the exponent and squaring the base changes nothing about the power, once a factor has
been set aside. -/
theorem mul_pow_mod_mul_pow_div (a b k : Nat) : a * b ^ (k % 2) * (b * b) ^ (k / 2) = a * b ^ k := by
  rw [← pow_two, ← pow_mul, Nat.mul_assoc, ← pow_add, Nat.mod_add_div]

/-- **A power by squaring is the word for the power**, and is there if there is one: no product on
the way is greater than the last. -/
theorem powFrom_eq (haside : 0 < aside.toNat) (hbase : 0 < base.toNat) :
    powFrom aside base exponent = wordOf (aside.toNat * base.toNat ^ exponent.toNat) := by
  induction hk : exponent.toNat using Nat.strong_induction_on
    generalizing aside base exponent with
  | _ k ih =>
    have hhalf : (exponent / 2).toNat = k / 2 := by
      rw [UInt32.toNat_div, hk]
      rfl
    rw [powFrom, setAside_eq, hk]
    refine wordOf_bind (Nat.mul_le_mul_left _ (Nat.pow_le_pow_right hbase (Nat.mod_le k 2)))
      fun aside' haside' => ?_
    by_cases h : exponent / 2 = 0
    · -- there is no factor still to come
      have hzero : k / 2 = 0 := by rw [← hhalf, h]; rfl
      have hmod : k % 2 = k := Nat.mod_eq_of_lt (by omega)
      rw [dif_pos h, ← hmod, ← haside', wordOf_toNat]
      rfl
    · have hne : k / 2 ≠ 0 := fun hzero => h (UInt32.toNat_inj.mp (hhalf.trans hzero))
      have htwo : 2 ≤ k := by omega
      have hsquare : base.toNat * base.toNat ≤ aside.toNat * base.toNat ^ k := by
        rw [← pow_two]
        exact (Nat.pow_le_pow_right hbase htwo).trans (Nat.le_mul_of_pos_left _ haside)
      have hpos : 0 < aside'.toNat := haside' ▸ Nat.mul_pos haside (Nat.pow_pos hbase)
      rw [dif_neg h, checkedMul_eq]
      refine wordOf_bind hsquare fun base' hbase' => ?_
      rw [ih _ (by omega) hpos (hbase' ▸ Nat.mul_pos hbase hbase) hhalf, haside', hbase',
        mul_pow_mod_mul_pow_div]

/-- A power of three is the word for the number of valuations. -/
theorem checkedPow_three_eq (exponent : UInt32) :
    checkedPow 3 exponent = wordOf (number exponent.toNat) := by
  rw [checkedPow, powFrom_eq (by decide) (by decide), number_eq_pow]
  exact congrArg wordOf (Nat.one_mul _)

end Words

/-! ### The number of valuations -/

/-- A number that is small enough is not changed when it is made narrow. -/
theorem narrow_of_lt {n : UInt64} (h : n.toNat < UInt32.size) :
    ∃ exponent, narrow n = some exponent ∧ exponent.toNat = n.toNat := by
  refine ⟨n.toUInt32, if_pos h, ?_⟩
  rw [UInt64.toNat_toUInt32]
  exact Nat.mod_eq_of_lt h

/-- **Counting with machine words is counting**, for every number of names that is a machine
word. -/
theorem countWord_eq (n : UInt64) : countWord n = (count n.toNat).map UInt64.ofNat := by
  rcases Nat.lt_or_ge n.toNat UInt32.size with hlt | hge
  · obtain ⟨exponent, hnarrow, hexponent⟩ := narrow_of_lt hlt
    rw [countWord, hnarrow, Option.bind_some, checkedPow_three_eq, hexponent, count]
    by_cases hle : n.toNat ≤ maxVariables
    · rw [wordOf_of_le (number_le_maxWord_iff.mpr hle), if_pos hle]
      rfl
    · have hword : maxWord < number n.toNat :=
        Nat.lt_of_not_le (mt number_le_maxWord_iff.mp hle)
      rw [wordOf_of_lt hword, if_neg hle]
      rfl
  · have hnarrow : narrow n = none := if_neg (Nat.not_lt_of_le hge)
    have hmany : ¬n.toNat ≤ maxVariables := fun hle => by
      have hsmall : maxVariables < UInt32.size := by decide
      omega
    rw [countWord, hnarrow, Option.bind_none, count, if_neg hmany]
    rfl

/-- There is a machine word for the number of valuations of up to forty names. -/
theorem three_pow_le_iff {n : Nat} : 3 ^ n ≤ 2 ^ 64 - 1 ↔ n ≤ 40 := number_le_maxWord_iff

/-- **Counting with machine words gives the number of valuations**, if there is a word for it. -/
theorem countWord_eq_ok_iff {n c : UInt64} :
    countWord n = .ok c ↔ 3 ^ n.toNat ≤ 2 ^ 64 - 1 ∧ c.toNat = 3 ^ n.toNat := by
  rw [countWord_eq, map_eq_ok_iff, count]
  by_cases hle : n.toNat ≤ maxVariables
  · have hword : number n.toNat ≤ maxWord := number_le_maxWord_iff.mpr hle
    rw [if_pos hle, and_iff_right (three_pow_le_iff.mpr hle), ← number_eq_pow]
    constructor
    · rintro ⟨_, hnumber, rfl⟩
      cases hnumber
      exact toNat_ofNat_of_le_maxWord hword
    · intro hc
      exact ⟨_, rfl, by rw [← hc, UInt64.ofNat_toNat]⟩
  · rw [if_neg hle]
    refine iff_of_false ?_ fun h => hle (three_pow_le_iff.mp h.1)
    rintro ⟨_, hnumber, -⟩
    cases hnumber

/-- **Counting with machine words refuses all other numbers**, and says which. -/
theorem countWord_eq_error_iff {n : UInt64} {err : EvalError} :
    countWord n = .error err ↔ 2 ^ 64 - 1 < 3 ^ n.toNat ∧ err = .tooManyVariables n.toNat := by
  rw [countWord_eq, map_eq_error_iff, count, ← Nat.not_le, three_pow_le_iff]
  by_cases hle : n.toNat ≤ maxVariables
  · rw [if_pos hle]
    refine iff_of_false ?_ fun h => h.1 hle
    intro h
    cases h
  · rw [if_neg hle, Except.error.injEq, eq_comm]
    exact (and_iff_right hle).symm

/-- The words and the numbers that counting yields stand for one another. -/
theorem count_toNat (n : UInt64) : count n.toNat = (countWord n).map UInt64.toNat := by
  rw [countWord_eq, map_map, count]
  split
  · next hle =>
    have hword := toNat_ofNat_of_le_maxWord (number_le_maxWord_iff.mpr hle)
    exact congrArg Except.ok hword.symm
  · rfl

/-! ### Cursors -/

section Start

variable {names : List String}

/-- Up to forty names, the number of valuations is what is still to come at the start. -/
theorem remaining_of_length_le (h : names.length ≤ maxVariables) :
    ∃ c w, Cursor.start names = .ok c ∧ c.remaining = 3 ^ names.length ∧
      WordCursor.start names = .ok w ∧ w.length = .ok (3 ^ names.length) := by
  obtain ⟨c, hc⟩ := Cursor.start_of_length_le h
  obtain ⟨w, hw, -, hat⟩ := WordCursor.start_eq h hc
  have hremaining : c.remaining = 3 ^ names.length := by
    rw [← Cursor.length_toList, Cursor.toList_of_start hc, List.length_map, List.length_range,
      number_eq_pow]
  exact ⟨c, w, hc, hremaining, hw, hremaining ▸ hat.length⟩

/-- With more than forty names there is no start. -/
theorem start_of_lt (h : maxVariables < names.length) :
    Cursor.start names = .error (.tooManyVariables names.length) ∧
      WordCursor.start names = .error (.tooManyVariables names.length) := by
  refine ⟨dif_neg (Nat.not_le_of_lt h), ?_⟩
  rw [WordCursor.start, count, if_neg (Nat.not_le_of_lt h)]
  rfl

end Start

/-! ### Tables -/

/-- The list of the variables is as long as there are different names. -/
theorem length_variablesOf (tokens : List Token) :
    (variablesOf tokens).length = (tokens.filterMap Token.name?).dedup.length := by
  refine List.Perm.length_eq ((List.perm_ext_iff_of_nodup (nodup_variablesOf tokens)
    (List.nodup_dedup _)).mpr fun x => ?_)
  rw [mem_variablesOf, List.mem_dedup, List.mem_filterMap]
  constructor
  · intro h
    exact ⟨_, h, rfl⟩
  · rintro ⟨t, ht, hname⟩
    cases t <;> cases hname
    exact ht

/-- An expression never fails for the number of its variables while it is read. -/
theorem valueOf_ne_tooManyVariables (σ : Valuation) (tokens : List Token) (n : Nat) :
    valueOf σ tokens ≠ .error (.tooManyVariables n) := by
  intro hvalue
  rcases cause_of_valueOf hvalue with hcause | ⟨_, _, _, -, -, htrailing⟩
  · cases hcause
  · cases htrailing

/-- **A table is refused for the number of variables exactly if there are more than forty.** -/
theorem tabulate_eq_tooManyVariables_iff {e : String} {n : Nat} :
    (tabulate e).result = .error (.tooManyVariables n) ↔
      maxVariables < (variablesOf (tokensOf e)).length ∧
        n = (variablesOf (tokensOf e)).length := by
  rcases Nat.lt_or_ge maxVariables (variablesOf (tokensOf e)).length with hlt | hle
  · rw [result_tabulate_of_lt hlt, and_iff_right hlt, Except.error.injEq,
      EvalError.tooManyVariables.injEq, eq_comm]
  · refine iff_of_false (fun h => ?_) fun h => Nat.not_lt_of_le hle h.1
    exact valueOf_ne_tooManyVariables _ _ n (valueOf_first_of_tabulate_eq_error hle h)

/-- **Valuations are counted exactly, or not at all.** For every number of names that is a machine
word, counting yields the number of their valuations exactly if this is a machine word, too, which
it is up to forty names; and otherwise it is refused, with the number of the names as it was given,
even where this is too great for an exponent. It makes no difference whether one counts with machine
words. A list of up to forty names has a start, at which as many valuations are still to come, and a
longer list is refused. And the table of an expression is refused for the number of its variables
exactly if more than forty different names occur, and it is their number that it is refused with. -/
theorem count_exact_or_refused :
    (∀ n : UInt64,
      (3 ^ n.toNat ≤ 2 ^ 64 - 1 ↔ n.toNat ≤ 40) ∧
      (∀ c, countWord n = .ok c ↔ 3 ^ n.toNat ≤ 2 ^ 64 - 1 ∧ c.toNat = 3 ^ n.toNat) ∧
      (∀ err, countWord n = .error err ↔
        2 ^ 64 - 1 < 3 ^ n.toNat ∧ err = .tooManyVariables n.toNat) ∧
      count n.toNat = (countWord n).map UInt64.toNat) ∧
    (∀ names : List String, names.length ≤ 40 →
      count names.length = .ok (3 ^ names.length) ∧
      ∃ c w, Cursor.start names = .ok c ∧ c.remaining = 3 ^ names.length ∧
        WordCursor.start names = .ok w ∧ w.length = .ok (3 ^ names.length)) ∧
    (∀ names : List String, 40 < names.length →
      Cursor.start names = .error (.tooManyVariables names.length) ∧
      WordCursor.start names = .error (.tooManyVariables names.length)) ∧
    ∀ e n, (tabulate e).result = .error (.tooManyVariables n) ↔
      40 < ((tokensOf e).filterMap Token.name?).dedup.length ∧
        n = ((tokensOf e).filterMap Token.name?).dedup.length := by
  refine ⟨fun n => ⟨three_pow_le_iff, fun c => countWord_eq_ok_iff,
    fun err => countWord_eq_error_iff, count_toNat n⟩, fun names h => ⟨if_pos h, ?_⟩,
    fun names => start_of_lt, fun e n => ?_⟩
  · exact remaining_of_length_le h
  · rw [← length_variablesOf]
    exact tabulate_eq_tooManyVariables_iff

/-- For forty names the last number is counted that is a machine word, and forty-one names are
refused. So are as many names as there are words of half the size, which no such word stands for. -/
theorem count_exact_or_refused_forty :
    (∃ c w, Cursor.start (List.replicate 40 "A") = .ok c ∧ c.remaining = 12157665459056928801 ∧
      WordCursor.start (List.replicate 40 "A") = .ok w ∧
      w.length = .ok 12157665459056928801) ∧
    WordCursor.start (List.replicate 41 "A") = .error (.tooManyVariables 41) ∧
    countWord 0x100000000 = .error (.tooManyVariables 0x100000000) := by
  obtain ⟨hcount, hstart, hrefused, -⟩ := count_exact_or_refused
  obtain ⟨-, hforty⟩ := hstart (List.replicate 40 "A") (by decide)
  obtain ⟨-, hmany⟩ := hrefused (List.replicate 41 "A") (by decide)
  obtain ⟨hbound, -, herror, -⟩ := hcount 0x100000000
  have hlarge := Nat.lt_of_not_le (mt hbound.mp (by decide))
  exact ⟨hforty, hmany, (herror _).mpr ⟨hlarge, rfl⟩⟩

end ProcessSpaces
