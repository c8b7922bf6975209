import ProcessSpaces.Proofs.Insertions

/-!
# Valuations are maps with an order

A valuation comes about by giving values to names in turn, and it can be looked at in two ways: as a
map, which says what value a name has, and as a list, in which the names have their places. This
file says what becomes of the turns in either way, and that there is nothing else to a valuation.

The map holds what came last (`LastGives`, `Valuation.get?_ofList_eq_some_iff`). The list holds the
names in the order in which they came first, and the two together make up the valuation
(`Valuation.ext_get?`). So a valuation can be told from the turns without following them
(`Valuation.eq_ofList_iff`), and two lists of turns come to the same exactly if they agree in the
order of the first turns and in the values of the last ones.
-/

namespace ProcessSpaces

/-- The last turn of the name `x` gives it the value `a`. -/
def LastGives (l : List (String × Truth)) (x : String) (a : Truth) : Prop :=
  ∃ l₁ l₂, l = l₁ ++ (x, a) :: l₂ ∧ x ∉ l₂.map Prod.fst

namespace Valuation

variable {l l' : List (String × Truth)} {σ τ : Valuation} {x : String} {a : Truth}

/-! ### A valuation as a list and as a map -/

/-- A name is found with a value exactly if it is bound to it, since it is bound only once. -/
theorem mem_bindings_iff : (x, a) ∈ σ.bindings ↔ σ.get? x = some a := by
  rw [get?, List.lookup_eq_some_iff]
  constructor
  · intro h
    obtain ⟨l₁, l₂, hl⟩ := List.append_of_mem h
    refine ⟨l₁, l₂, hl, fun p hp => ?_⟩
    have hnodup := σ.nodup_names
    rw [hl, List.map_append, List.nodup_append] at hnodup
    have hne := hnodup.2.2 p.1 (List.mem_map_of_mem hp) x List.mem_cons_self
    rw [bne_iff_ne]
    exact hne.symm
  · rintro ⟨l₁, l₂, hl, -⟩
    rw [hl]
    exact List.mem_append_right _ List.mem_cons_self

/-- **The order of the names and the values that are found make up a valuation.** -/
theorem ext_get? (hnames : σ.names = τ.names) (hget : ∀ x, σ.get? x = τ.get? x) : σ = τ := by
  have hmap (ρ : Valuation) (hρ : ∀ x, ρ.get? x = σ.get? x) :
      ρ.bindings = ρ.names.map fun x => (x, (σ.get? x).getD .neutral) := by
    refine eq_map_of_forall_lookup ρ.nodup_names fun x hx => ?_
    obtain ⟨a, ha⟩ := Option.isSome_iff_exists.mp (isSome_get?_iff.mpr hx)
    rw [← hρ x, ha]
    exact ha
  apply ext_bindings
  rw [hmap σ fun x => rfl, hmap τ fun x => (hget x).symm, hnames]

/-- Giving a name the value that it has changes nothing. -/
theorem insert_of_get?_eq_some (h : σ.get? x = some a) : σ.insert x a = σ := by
  have hmem : x ∈ σ.names := isSome_get?_iff.mp (Option.isSome_of_eq_some h)
  refine ext_get? ?_ fun y => ?_
  · rw [names_insert, if_pos hmem]
  · by_cases hyx : y = x
    · rw [hyx, get?_insert_self, h]
    · exact get?_insert_of_ne σ hyx a

/-- No name loses its place when another one is given a value. -/
theorem names_prefix_insert (σ : Valuation) (x : String) (a : Truth) :
    σ.names <+: (σ.insert x a).names := by
  rw [names_insert]
  split
  · exact List.prefix_rfl
  · exact List.prefix_append _ _

/-! ### What the turns come to -/

/-- **What is found is what came last.** -/
theorem get?_ofList_eq_some_iff : (ofList l).get? x = some a ↔ LastGives l x a := by
  rw [get?_ofList, List.lookup_eq_some_iff]
  constructor
  · rintro ⟨l₁, l₂, hl, hne⟩
    refine ⟨l₂.reverse, l₁.reverse, ?_, ?_⟩
    · rw [← List.reverse_reverse l, hl]
      simp
    · rw [List.map_reverse, List.mem_reverse, List.mem_map]
      rintro ⟨p, hp, rfl⟩
      have hself := hne p hp
      simp at hself
  · rintro ⟨l₁, l₂, rfl, hx⟩
    refine ⟨l₂.reverse, l₁.reverse, by simp, fun p hp => ?_⟩
    rw [bne_iff_ne]
    rintro rfl
    exact hx (List.mem_map_of_mem (List.mem_reverse.mp hp))

/-- No name is bound exactly if no name had a turn. -/
theorem isEmpty_ofList_iff : (ofList l).isEmpty = true ↔ l = [] := by
  rw [isEmpty, List.isEmpty_iff]
  constructor
  · intro h
    cases l with
    | nil => rfl
    | cons p l =>
      have hmem : p.1 ∈ (ofList (p :: l)).names :=
        ((listsOnce_ofList (p :: l)).mem_iff p.1).mpr List.mem_cons_self
      rw [names, h] at hmem
      cases hmem
  · rintro rfl
    rfl

/-- Turns that come later are taken on what the earlier ones have come to. -/
theorem foldl_insert_ofList (l l' : List (String × Truth)) :
    l'.foldl (fun σ p => σ.insert p.1 p.2) (ofList l) = ofList (l ++ l') := by
  rw [ofList, ofList, List.foldl_append]

/-- **A valuation can be told from the turns without following them**: its names are in the order of
their first turns, and they have the values of the last ones. -/
theorem eq_ofList_iff :
    σ = ofList l ↔
      ListsOnce σ.names (l.map Prod.fst) ∧ ∀ x a, σ.get? x = some a ↔ LastGives l x a := by
  constructor
  · rintro rfl
    exact ⟨listsOnce_ofList l, fun x a => get?_ofList_eq_some_iff⟩
  · rintro ⟨hnames, hget⟩
    refine ext_get? (hnames.unique (listsOnce_ofList l)) fun x => Option.ext fun a => ?_
    rw [hget, get?_ofList_eq_some_iff]

/-- **Two lists of turns come to the same** exactly if they agree in the order of the first turns
and in the values of the last ones. -/
theorem ofList_eq_ofList_iff :
    ofList l = ofList l' ↔
      (∀ ds, ListsOnce ds (l.map Prod.fst) ↔ ListsOnce ds (l'.map Prod.fst)) ∧
        ∀ x a, LastGives l x a ↔ LastGives l' x a := by
  rw [eq_ofList_iff]
  simp only [get?_ofList_eq_some_iff]
  refine and_congr_left fun _ => ⟨fun h ds => ?_, fun h => (h _).mp (listsOnce_ofList l)⟩
  -- there is one list of the first turns on either side, and the valuation has them both
  constructor
  · intro hds
    rw [hds.unique (listsOnce_ofList l)]
    exact h
  · intro hds
    rw [hds.unique h]
    exact listsOnce_ofList l

/-- **A valuation is a finite map with an order.** After any turns, the bindings hold each name that
had one, and no other, exactly once, in the order of the first turns and with the value of the last
one; and this value is found, or none if the name had no turn. Giving a value to a name changes
nothing for the others, neither their values nor their order. No name is bound exactly if there was
no turn. It makes no difference how many of the turns are taken at once. And two lists of turns
come to the same exactly if they agree in the order of the first turns and in the values of the last
ones. -/
theorem ofList_is_ordered_map (l : List (String × Truth)) :
    ListsOnce ((ofList l).bindings.map Prod.fst) (l.map Prod.fst) ∧
    ((ofList l).bindings.map Prod.fst).Nodup ∧
    (∀ x a, (x, a) ∈ (ofList l).bindings ↔ LastGives l x a) ∧
    (∀ x a, (ofList l).get? x = some a ↔ LastGives l x a) ∧
    (∀ x, (ofList l).get? x = none ↔ x ∉ l.map Prod.fst) ∧
    (∀ x a, (∀ y, y ≠ x → ((ofList l).insert x a).get? y = (ofList l).get? y) ∧
      (ofList l).names <+: ((ofList l).insert x a).names) ∧
    ((ofList l).isEmpty = true ↔ l = []) ∧
    (∀ l', l'.foldl (fun σ p => σ.insert p.1 p.2) (ofList l) = ofList (l ++ l')) ∧
    ∀ l', ofList l = ofList l' ↔
      (∀ ds, ListsOnce ds (l.map Prod.fst) ↔ ListsOnce ds (l'.map Prod.fst)) ∧
        ∀ x a, LastGives l x a ↔ LastGives l' x a := by
  have hnames : ListsOnce ((ofList l).bindings.map Prod.fst) (l.map Prod.fst) := listsOnce_ofList l
  refine ⟨hnames, hnames.nodup, fun x a => ?_, fun x a => get?_ofList_eq_some_iff,
    fun x => get?_ofList_eq_none_iff, fun x a => ⟨fun y hy => get?_insert_of_ne _ hy a, ?_⟩,
    isEmpty_ofList_iff, foldl_insert_ofList l, fun l' => ofList_eq_ofList_iff⟩
  · rw [mem_bindings_iff, get?_ofList_eq_some_iff]
  · exact names_prefix_insert _ x a

/-- If `A` is given a value, then `B`, and then `A` another one, then the last one is found, and a
further value for `A` is of no account for `B`. It comes to the same as giving `A` its last value at
once, since the names come in the same order. -/
theorem ofList_is_ordered_map_repeated :
    ∃ l, l = [("A", .reject), ("B", .grant), ("A", .neutral)] ∧
      LastGives l "A" .neutral ∧ (ofList l).get? "A" = some .neutral ∧
      ((ofList l).insert "A" .grant).get? "B" = (ofList l).get? "B" ∧
      ofList l = ofList [("A", .neutral), ("B", .grant)] ∧
      ∀ ds, ListsOnce ds ["A", "B", "A"] ↔ ListsOnce ds ["A", "B"] := by
  obtain ⟨-, -, -, hget, -, hinsert, -, -, heq⟩ :=
    ofList_is_ordered_map [("A", .reject), ("B", .grant), ("A", .neutral)]
  have hlast : LastGives [("A", .reject), ("B", .grant), ("A", .neutral)] "A" .neutral :=
    ⟨[("A", .reject), ("B", .grant)], [], rfl, List.not_mem_nil⟩
  have hsame : ofList [("A", .reject), ("B", .grant), ("A", .neutral)] =
      ofList [("A", .neutral), ("B", .grant)] := by decide
  exact ⟨_, rfl, hlast, (hget "A" .neutral).mpr hlast, (hinsert "A" .grant).1 "B" (by decide),
    hsame, ((heq _).mp hsame).1⟩

end Valuation

end ProcessSpaces
