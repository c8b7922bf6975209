import Mathlib.Data.List.Forall2
import ProcessSpaces.Proofs.Enumeration
import ProcessSpaces.Proofs.Outcome

/-!
# Going through the valuations is going through a list

However one goes through the valuations, and whatever one asks for on the way, the answers are those
that a list of what is still to come would give, and no machine word runs over
(`traversal_answers_as_list`).

The proof is in three steps. An iteration **goes through lists** if each of its operations does to a
place what it does to the list that is still to come there (`Iteration.GoesThrough`). This is a
condition on single operations, and it carries over to requests with copies of places
(`Iteration.GoesThrough.answer_eq`) and to any number of them (`Iteration.GoesThrough.run_eq`). It
is met by cursors, since skipping is dropping, and by machine words as long as they stand for a
cursor (`WordCursor.At`). A word that stands for a place is at most the number of all valuations,
and that is what keeps the sums and the differences within the range of a word.

A later valuation is found one by one with machine words, and at once with a cursor. The two are
compared in `WordCursor.At.nth?`, by induction on how far ahead it is. No sum is computed on the
way to a place behind the end, so that it does not matter how large the number is that is asked for.
-/

namespace ProcessSpaces

open ProcessSpaces.Valuation

variable {γ δ : Type} {names : List String}

/-! ### One request, many requests -/

/-- **Going through lists.** The relation says which list is still to come at a place, and each
operation does to the place what it does to the list. -/
structure Iteration.GoesThrough (I : Iteration γ) (R : γ → List Valuation → Prop) : Prop where
  /-- The next valuation is the head. -/
  next {c : γ} {l : List Valuation} : R c l → ∃ c', I.next c = .ok (l.head?, c') ∧ R c' l.tail
  /-- Passing over valuations drops them from the list. -/
  nth {c : γ} {l : List Valuation} (k : Nat) :
    R c l → ∃ c', I.nth k c = .ok (l[k]?, c') ∧ R c' (l.drop (k + 1))
  /-- The number of valuations is the length. -/
  length {c : γ} {l : List Valuation} : R c l → I.length c = .ok l.length
  /-- Both bounds are the length. -/
  bounds {c : γ} {l : List Valuation} : R c l → I.bounds c = .ok (l.length, some l.length)

/-- The place where one is and the copies that have been kept are related one by one. -/
structure Traversal.Related (R : γ → δ → Prop) (t : Traversal γ) (u : Traversal δ) : Prop where
  /-- The places where one is. -/
  current : R t.current u.current
  /-- The copies. -/
  kept : List.Forall₂ R t.kept u.kept

/-- Copies with the same number are related, and if there are none then so are the places where one
is. -/
theorem rel_getD {R : γ → δ → Prop} {l : List γ} {l' : List δ} (h : List.Forall₂ R l l') {a : γ}
    {b : δ} (hab : R a b) (i : Nat) : R (l.getD i a) (l'.getD i b) := by
  induction h generalizing i with
  | nil => exact hab
  | cons hhead _ ih =>
    cases i with
    | zero => exact hhead
    | succ i => exact ih i

/-- The replies to requests are that to the first and those to the others. -/
theorem Iteration.run_cons_of_eq_ok {I : Iteration γ} {t t₁ t₂ : Traversal γ} {request : Request}
    {requests : List Request} {reply : Reply} {replies : List Reply}
    (hfirst : I.answer request t = .ok (reply, t₁))
    (hrest : I.run requests t₁ = .ok (replies, t₂)) :
    I.run (request :: requests) t = .ok (reply :: replies, t₂) := by
  rw [Iteration.run, hfirst, ok_bind]
  dsimp only
  rw [hrest]
  rfl

namespace Iteration.GoesThrough

variable {I : Iteration γ} {R : γ → List Valuation → Prop} {t : Traversal γ}
  {u : Traversal (List Valuation)}

/-- **A request is answered as the list answers it.** -/
theorem answer_eq (h : I.GoesThrough R) (ht : t.Related R u) (request : Request) :
    ∃ reply t' u', Iteration.ofList.answer request u = .ok (reply, u') ∧
      I.answer request t = .ok (reply, t') ∧ t'.Related R u' := by
  cases request with
  | next =>
    obtain ⟨c, hc, hR⟩ := h.next ht.current
    refine ⟨_, { t with current := c }, _, rfl, ?_, hR, ht.kept⟩
    rw [Iteration.answer, hc]
    rfl
  | nth k =>
    obtain ⟨c, hc, hR⟩ := h.nth k.toNat ht.current
    refine ⟨_, { t with current := c }, _, rfl, ?_, hR, ht.kept⟩
    rw [Iteration.answer, hc]
    rfl
  | length =>
    refine ⟨_, _, _, rfl, ?_, ht⟩
    rw [Iteration.answer, h.length ht.current]
    rfl
  | bounds =>
    refine ⟨_, _, _, rfl, ?_, ht⟩
    rw [Iteration.answer, h.bounds ht.current]
    rfl
  | save =>
    have hkept := List.rel_append ht.kept (List.Forall₂.cons ht.current List.Forall₂.nil)
    exact ⟨_, _, _, rfl, rfl, ht.current, hkept⟩
  | restore i =>
    exact ⟨_, _, _, rfl, rfl, rel_getD ht.kept ht.current i, ht.kept⟩

/-- **All requests are answered as the list answers them**, by induction on the requests. -/
theorem run_eq (h : I.GoesThrough R) (ht : t.Related R u) (requests : List Request) :
    ∃ replies t' u', Iteration.ofList.run requests u = .ok (replies, u') ∧
      I.run requests t = .ok (replies, t') ∧ t'.Related R u' := by
  induction requests generalizing t u with
  | nil => exact ⟨[], t, u, rfl, rfl, ht⟩
  | cons request requests ih =>
    obtain ⟨reply, t₁, u₁, hlist, hplace, ht₁⟩ := h.answer_eq ht request
    obtain ⟨replies, t₂, u₂, hlists, hplaces, ht₂⟩ := ih ht₁
    exact ⟨reply :: replies, t₂, u₂, Iteration.run_cons_of_eq_ok hlist hlists,
      Iteration.run_cons_of_eq_ok hplace hplaces, ht₂⟩

end Iteration.GoesThrough

/-! ### Cursors -/

namespace Cursor

variable {c : Cursor} {k : Nat}

/-- Skipping from place to place is skipping at once. -/
theorem skip_skip (c : Cursor) (j k : Nat) : (c.skip j).skip k = c.skip (j + k) := by
  simp only [skip, Cursor.mk.injEq, true_and]
  omega

/-- At the end there is nothing to skip. -/
theorem skip_of_remaining_eq_zero (h : c.remaining = 0) (k : Nat) : c.skip k = c := by
  obtain ⟨names, index, _, hle⟩ := c
  simp only [remaining] at h
  simp only [skip, Cursor.mk.injEq, true_and]
  omega

theorem get?_skip (c : Cursor) (j k : Nat) : (c.skip j).get? k = c.get? (j + k) := by
  rw [← getElem?_toList, ← getElem?_toList, toList_skip, List.getElem?_drop]

/-- One step and then `k` valuations further is one valuation further at once. -/
theorem take?_next? (c : Cursor) (k : Nat) : c.next?.2.take? k = c.take? (k + 1) := by
  change ((c.skip 1).get? k, (c.skip 1).skip (k + 1)) = (c.get? (k + 1), c.skip (k + 1 + 1))
  rw [get?_skip, skip_skip, Nat.add_comm 1, Nat.add_comm 1]

theorem take?_of_remaining_eq_zero (h : c.remaining = 0) (k : Nat) : c.take? k = (none, c) := by
  rw [take?, skip_of_remaining_eq_zero h, get?, if_neg (by omega)]

/-- The next valuation is the first of those that are still to come. -/
theorem head?_toList (c : Cursor) : c.toList.head? = c.next?.1 := by
  rw [List.head?_eq_getElem?, getElem?_toList]
  rfl

/-- The next step leaves the others. -/
theorem tail_toList (c : Cursor) : c.next?.2.toList = c.toList.tail := by
  rw [← List.drop_one]
  exact toList_skip c 1

/-- The cursors go through the lists of what is still to come. -/
theorem goesThrough : Iteration.ofCursor.GoesThrough fun c l => c.toList = l where
  next := by
    rintro c _ rfl
    rw [head?_toList]
    exact ⟨c.next?.2, rfl, tail_toList c⟩
  nth := by
    rintro c _ k rfl
    refine ⟨c.skip (k + 1), ?_, toList_skip c _⟩
    rw [getElem?_toList]
    rfl
  length := by
    rintro c _ rfl
    rw [length_toList]
    rfl
  bounds := by
    rintro c _ rfl
    rw [length_toList]
    rfl

end Cursor

/-! ### Machine words -/

/-- A sum that is small enough is the sum. -/
theorem checkedAdd_of_le {a b : UInt64} (h : a.toNat + b.toNat ≤ maxWord) :
    ∃ s, checkedAdd a b = .ok s ∧ s.toNat = a.toNat + b.toNat := by
  refine ⟨a + b, if_pos h, ?_⟩
  rw [maxWord, UInt64.size] at h
  rw [UInt64.toNat_add, Nat.mod_eq_of_lt]
  omega

/-- A difference that is not negative is the difference. -/
theorem checkedSub_of_le {a b : UInt64} (h : b ≤ a) :
    ∃ d, checkedSub a b = .ok d ∧ d.toNat = a.toNat - b.toNat :=
  ⟨a - b, if_pos h, UInt64.toNat_sub_of_le _ _ h⟩

namespace WordCursor

variable {w : WordCursor} {c : Cursor} {l : List Valuation}

/-- The two machine words stand for the place of the cursor. -/
structure At (w : WordCursor) (c : Cursor) : Prop where
  /-- The names are the same. -/
  names_eq : w.names = c.names
  /-- The first word is the number of the next valuation. -/
  index_eq : w.index.toNat = c.index
  /-- The second word is the number of all valuations. -/
  stop_eq : w.stop.toNat = number c.names.length

/-- The place is not behind the end. -/
theorem At.index_le_stop (h : w.At c) : w.index ≤ w.stop := by
  rw [UInt64.le_iff_toNat_le, h.index_eq, h.stop_eq]
  exact c.index_le

/-- What is still to come is what lies between the two words. -/
theorem At.remaining_eq (h : w.At c) : c.remaining = w.stop.toNat - w.index.toNat := by
  rw [h.index_eq, h.stop_eq]
  rfl

/-- The end is reached when the two words are the same, or have passed one another. -/
theorem At.stop_le_index_iff (h : w.At c) : w.stop ≤ w.index ↔ c.remaining = 0 := by
  rw [UInt64.le_iff_toNat_le, h.remaining_eq]
  omega

/-- **A step with machine words is a step of the cursor**, and the sum is a machine word. -/
theorem At.next? (h : w.At c) : ∃ w', w.next? = .ok (c.next?.1, w') ∧ w'.At c.next?.2 := by
  by_cases hend : w.stop ≤ w.index
  · have hnext : c.next? = (none, c) :=
      Cursor.take?_of_remaining_eq_zero (h.stop_le_index_iff.mp hend) 0
    rw [hnext]
    exact ⟨w, if_pos hend, h⟩
  · have hremaining : 0 < c.remaining :=
      Nat.pos_of_ne_zero fun hzero => hend (h.stop_le_index_iff.mpr hzero)
    have hlt : c.index + 1 ≤ number c.names.length := by
      rw [Cursor.remaining] at hremaining
      omega
    have hword : w.index.toNat + (1 : UInt64).toNat ≤ maxWord := by
      rw [h.index_eq]
      exact hlt.trans (number_le_maxWord_iff.mpr c.length_le)
    obtain ⟨index, hindex, hsum⟩ := checkedAdd_of_le hword
    refine ⟨{ w with index }, ?_, h.names_eq, ?_, h.stop_eq⟩
    · have hitem : c.next?.1 = some (nthWord w.names w.index) := by
        rw [nthWord_eq_nth, h.names_eq, h.index_eq]
        exact if_pos hremaining
      rw [WordCursor.next?, if_neg hend, hindex, hitem]
      rfl
    · change index.toNat = min (c.index + 1) (number c.names.length)
      rw [Nat.min_eq_left hlt, hsum, h.index_eq]
      rfl

/-- **Steps with machine words come to the place that a cursor finds at once**, by induction on
their number. -/
theorem At.nth? (h : w.At c) (k : Nat) :
    ∃ w', w.nth? k = .ok ((c.take? k).1, w') ∧ w'.At (c.take? k).2 := by
  induction k generalizing w c with
  | zero => exact h.next?
  | succ k ih =>
    obtain ⟨w₁, hnext, hw₁⟩ := h.next?
    rw [WordCursor.nth?, hnext, ok_bind, ← Cursor.take?_next?]
    cases hitem : c.next?.1 with
    | none =>
      -- the cursor is at the end, and stays there
      have hzero : c.remaining = 0 := by
        refine Nat.eq_zero_of_not_pos fun hpos => ?_
        rw [Cursor.next?, Cursor.take?, Cursor.get?, if_pos hpos] at hitem
        cases hitem
      have hstay : c.next? = (none, c) := Cursor.take?_of_remaining_eq_zero hzero 0
      rw [hstay] at hw₁ ⊢
      rw [Cursor.take?_of_remaining_eq_zero hzero k]
      exact ⟨w₁, rfl, hw₁⟩
    | some σ => exact ih hw₁

/-- The bounds are the number of what is still to come. -/
theorem At.bounds (h : w.At c) : w.bounds = .ok (c.remaining, some c.remaining) := by
  obtain ⟨d, hd, hdifference⟩ := checkedSub_of_le h.index_le_stop
  rw [WordCursor.bounds, hd, ok_bind, hdifference, ← h.remaining_eq]
  rfl

theorem At.length (h : w.At c) : w.length = .ok c.remaining := by
  rw [WordCursor.length, h.bounds, ok_bind]
  exact if_pos rfl

/-- The list is still to come at the place that the machine words stand for. -/
def Holds (names : List String) (w : WordCursor) (l : List Valuation) : Prop :=
  ∃ c : Cursor, c.names = names ∧ w.At c ∧ c.toList = l

/-- Machine words go through the lists of what is still to come. -/
theorem goesThrough (names : List String) : Iteration.ofWords.GoesThrough (Holds names) where
  next := by
    rintro w _ ⟨c, hnames, hw, rfl⟩
    obtain ⟨w', hnext, hw'⟩ := hw.next?
    rw [Cursor.head?_toList]
    exact ⟨w', hnext, c.next?.2, hnames, hw', Cursor.tail_toList c⟩
  nth := by
    rintro w _ k ⟨c, hnames, hw, rfl⟩
    obtain ⟨w', hnth, hw'⟩ := hw.nth? k
    rw [Cursor.getElem?_toList]
    exact ⟨w', hnth, (c.take? k).2, hnames, hw', Cursor.toList_skip c _⟩
  length := by
    rintro w _ ⟨c, -, hw, rfl⟩
    rw [Cursor.length_toList]
    exact hw.length
  bounds := by
    rintro w _ ⟨c, -, hw, rfl⟩
    rw [Cursor.length_toList]
    exact hw.bounds

/-- At the start the machine words stand for the start of a cursor. -/
theorem start_eq (hcount : names.length ≤ maxVariables) {c : Cursor}
    (hc : Cursor.start names = .ok c) : ∃ w, start names = .ok w ∧ c.names = names ∧ w.At c := by
  rw [Cursor.start, dif_pos hcount] at hc
  cases hc
  refine ⟨⟨names, 0, .ofNat (number names.length)⟩, ?_, rfl, rfl, rfl, ?_⟩
  · rw [start, count, if_pos hcount]
    rfl
  · exact toNat_ofNat_of_le_maxWord (number_le_maxWord_iff.mpr hcount)

/-- What is still to come ends at the number of all valuations. -/
theorem Holds.index_add (h : w.Holds names l) :
    w.index ≤ w.stop ∧ w.stop.toNat = 3 ^ names.length ∧
      w.index.toNat + l.length = 3 ^ names.length := by
  obtain ⟨c, rfl, hw, rfl⟩ := h
  have hle : w.index.toNat ≤ w.stop.toNat := UInt64.le_iff_toNat_le.mp hw.index_le_stop
  refine ⟨hw.index_le_stop, hw.stop_eq, ?_⟩
  rw [Cursor.length_toList, hw.remaining_eq, ← number_eq_pow, ← hw.stop_eq]
  omega

/-- There is only one place at the end. -/
theorem Holds.unique {w' : WordCursor} (h : w.Holds names []) (h' : w'.Holds names []) :
    w = w' := by
  obtain ⟨-, hstop, hindex⟩ := h.index_add
  obtain ⟨-, hstop', hindex'⟩ := h'.index_add
  obtain ⟨c, hc, hw, -⟩ := h
  obtain ⟨c', hc', hw', -⟩ := h'
  obtain ⟨names₁, index, stop⟩ := w
  obtain ⟨names₂, index', stop'⟩ := w'
  rw [WordCursor.mk.injEq, ← UInt64.toNat_inj, ← UInt64.toNat_inj]
  exact ⟨hw.names_eq.trans (hc.trans (hc'.symm.trans hw'.names_eq.symm)),
    hindex.trans hindex'.symm, hstop.trans hstop'.symm⟩

end WordCursor

/-! ### The end -/

/-- The reply tells of no valuation that is still to come. -/
def Reply.TellsOfNone : Reply → Prop
  | .item σ? => σ? = none
  | .length n => n = 0
  | .bounds lower upper? => lower = 0 ∧ upper? = some 0
  | .done => True

/-- At the end of a list requests leave one there, unless one goes back to a copy. -/
theorem ofList_answer_nil {u : Traversal (List Valuation)} (hu : u.current = []) {request : Request}
    (hrequest : ∀ i, request ≠ .restore i) :
    ∃ reply u', Iteration.ofList.answer request u = .ok (reply, u') ∧ u'.current = [] ∧
      reply.TellsOfNone := by
  obtain ⟨current, kept⟩ := u
  obtain rfl : current = [] := hu
  cases request with
  | next => exact ⟨_, _, rfl, rfl, rfl⟩
  | nth k => exact ⟨_, _, rfl, rfl, rfl⟩
  | length => exact ⟨_, _, rfl, rfl, rfl⟩
  | bounds => exact ⟨_, _, rfl, rfl, rfl, rfl⟩
  | save => exact ⟨_, _, rfl, rfl, trivial⟩
  | restore i => exact absurd rfl (hrequest i)

/-- **Who is at the end stays at the end**, by induction on the requests. -/
theorem ofList_run_nil {u : Traversal (List Valuation)} (hu : u.current = [])
    {requests : List Request} (hrequests : ∀ i, .restore i ∉ requests) :
    ∃ replies u', Iteration.ofList.run requests u = .ok (replies, u') ∧ u'.current = [] ∧
      ∀ reply ∈ replies, reply.TellsOfNone := by
  induction requests generalizing u with
  | nil => exact ⟨[], u, rfl, hu, List.forall_mem_nil _⟩
  | cons request requests ih =>
    have hfirst (i : Nat) : request ≠ .restore i := by
      rintro rfl
      exact hrequests i List.mem_cons_self
    obtain ⟨reply, u₁, hanswer, hu₁, hreply⟩ := ofList_answer_nil hu hfirst
    obtain ⟨replies, u₂, hrun, hu₂, hreplies⟩ :=
      ih hu₁ fun i hi => hrequests i (List.mem_cons_of_mem _ hi)
    exact ⟨reply :: replies, u₂, Iteration.run_cons_of_eq_ok hanswer hrun, hu₂,
      List.forall_mem_cons.mpr ⟨hreply, hreplies⟩⟩

/-- **Going through the valuations is going through their list.** Up to forty names, a cursor starts
in front of the list of all valuations, and so do machine words. Whatever is asked for on the way,
how far ahead it may be, and whatever copies are kept and gone back to, all replies are those that
the list of what is still to come gives. No sum and no difference leaves the range of a machine
word. What is still to come begins at the number of the next valuation, which is never greater than
the number of all valuations. Once nothing is still to come, nothing is after any other requests,
but for those to go back to a copy. -/
theorem traversal_answers_as_list (hcount : names.length ≤ maxVariables) :
    ∃ c w, Cursor.start names = .ok c ∧ WordCursor.start names = .ok w ∧
      c.toList = (List.range (3 ^ names.length)).map (nth names) ∧
      ∀ requests, ∃ replies l d v,
        Iteration.ofList.run requests ⟨c.toList, []⟩ = .ok (replies, l) ∧
        Iteration.ofCursor.run requests ⟨c, []⟩ = .ok (replies, d) ∧
        Iteration.ofWords.run requests ⟨w, []⟩ = .ok (replies, v) ∧
        d.current.toList = l.current ∧
        v.current.index ≤ v.current.stop ∧ v.current.stop.toNat = 3 ^ names.length ∧
        v.current.index.toNat + l.current.length = 3 ^ names.length ∧
        (l.current = [] → ∀ more, (∀ i, .restore i ∉ more) → ∃ replies' d' v',
          Iteration.ofCursor.run more d = .ok (replies', d') ∧
          Iteration.ofWords.run more v = .ok (replies', v') ∧
          d'.current.toList = [] ∧ v'.current = v.current ∧
          ∀ reply ∈ replies', reply.TellsOfNone) := by
  obtain ⟨c, hc⟩ := Cursor.start_of_length_le hcount
  obtain ⟨w, hw, hnames, hat⟩ := WordCursor.start_eq hcount hc
  refine ⟨c, w, hc, hw, Cursor.toList_of_start hc, fun requests => ?_⟩
  have hcursor : (Traversal.mk c []).Related (fun c l => c.toList = l) ⟨c.toList, []⟩ :=
    ⟨rfl, List.Forall₂.nil⟩
  have hwords : (Traversal.mk w []).Related (WordCursor.Holds names) ⟨c.toList, []⟩ :=
    ⟨⟨c, hnames, hat, rfl⟩, List.Forall₂.nil⟩
  obtain ⟨replies, d, l, hl, hd, hdl⟩ := Cursor.goesThrough.run_eq hcursor requests
  obtain ⟨_, v, _, hl', hv, hvl⟩ := (WordCursor.goesThrough names).run_eq hwords requests
  cases hl.symm.trans hl'
  obtain ⟨hle, hstop, hindex⟩ := hvl.current.index_add
  refine ⟨replies, l, d, v, hl, hd, hv, hdl.current, hle, hstop, hindex, fun hend more hmore => ?_⟩
  obtain ⟨replies', l', hl', hend', hreplies'⟩ := ofList_run_nil hend hmore
  obtain ⟨_, d', _, hl₁, hd', hdl'⟩ := Cursor.goesThrough.run_eq hdl more
  obtain ⟨_, v', _, hl₂, hv', hvl'⟩ := (WordCursor.goesThrough names).run_eq hvl more
  cases hl'.symm.trans hl₁
  cases hl'.symm.trans hl₂
  have hholds : v.current.Holds names [] := hend ▸ hvl.current
  have hholds' : v'.current.Holds names [] := hend' ▸ hvl'.current
  exact ⟨replies', d', v', hd', hv', hdl'.current.trans hend', hholds'.unique hholds, hreplies'⟩

/-- With the one name `A` there are three valuations. Who asks for the last one that a machine word
can number is at the end, and who then goes back to a copy of the start is told of three again. -/
theorem traversal_answers_as_list_maxWord :
    ∃ w v, WordCursor.start ["A"] = .ok w ∧
      Iteration.ofWords.run [.save, .nth 0xffffffffffffffff, .next, .bounds, .restore 0, .length]
        ⟨w, []⟩ =
          .ok ([.done, .item none, .item none, .bounds 0 (some 0), .done, .length 3], v) := by
  have hcount : ["A"].length ≤ maxVariables := by decide
  obtain ⟨c, w, -, hw, hlist, hrun⟩ := traversal_answers_as_list hcount
  obtain ⟨replies, l, -, v, hl, -, hv, -⟩ := hrun
    [.save, .nth 0xffffffffffffffff, .next, .bounds, .restore 0, .length]
  rw [hlist] at hl
  cases hl
  exact ⟨w, v, hw, hv⟩

end ProcessSpaces
