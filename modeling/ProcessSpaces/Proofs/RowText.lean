import ProcessSpaces.Proofs.Spelling
import ProcessSpaces.Proofs.Tabulation

/-!
# How rows are written

A row is written on a line of its own, and nothing but a line feed shows where the line ends. So
there must be none inside. All of a row is fixed but for the names of the variables. These may hold
colons, commas and braces, and may look like values; but they are words, and hold no blanks. Hence
the only blanks in a row are the spaces between its parts (`TruthTable.IsTableOf.onlySpaces_text`).

The value comes last, behind a space. So whatever the names are, the end of the line tells whether
the expression is true in the row (`Row.endsInTrue_iff`).
-/

namespace ProcessSpaces

/-! ### Blanks other than the space -/

namespace Text

variable {s s' : String} {l : List String}

/-- The text holds no blank but the space. -/
def OnlySpaces (s : String) : Prop := ∀ c ∈ s.toList, isBlank c = true → c = ' '

instance (s : String) : Decidable (OnlySpaces s) :=
  decidable_of_iff (s.toList.all (fun c => !isBlank c || c == ' ') = true) <| by
    rw [List.all_eq_true, OnlySpaces]
    refine forall₂_congr fun c _ => ?_
    cases isBlank c with
    | false => simp
    | true => simp

theorem OnlySpaces.append (h : OnlySpaces s) (h' : OnlySpaces s') : OnlySpaces (s ++ s') := by
  intro c hc
  rw [String.toList_append, List.mem_append] at hc
  rcases hc with hc | hc
  · exact h c hc
  · exact h' c hc

theorem OnlySpaces.intercalate (h : OnlySpaces s) (hl : ∀ s' ∈ l, OnlySpaces s') :
    OnlySpaces (s.intercalate l) := by
  induction l with
  | nil =>
    rw [String.intercalate_nil]
    decide
  | cons t l ih =>
    obtain ⟨ht, hrest⟩ := List.forall_mem_cons.mp hl
    cases l with
    | nil =>
      rw [String.intercalate_singleton]
      exact ht
    | cons u l =>
      rw [String.intercalate_cons_cons]
      exact (ht.append h).append (ih hrest)

theorem IsWord.onlySpaces (h : IsWord s.toList) : OnlySpaces s := by
  intro c hc hblank
  rw [h.not_blank c hc] at hblank
  cases hblank

/-- There is no line feed among spaces. -/
theorem OnlySpaces.not_mem_lineFeed (h : OnlySpaces s) : '\n' ∉ s.toList := by
  intro hmem
  have hspace : '\n' = ' ' := h '\n' hmem rfl
  exact absurd hspace (by decide)

end Text

/-! ### Names and values -/

theorem Truth.onlySpaces_text (a : Truth) : Text.OnlySpaces a.text := by
  cases a with
  | reject => decide
  | grant => decide
  | neutral => decide

theorem Value.onlySpaces_text (v : Value) : Text.OnlySpaces v.text := by
  cases v with
  | ternary a => exact a.onlySpaces_text
  | boolean b =>
    cases b with
    | false => decide
    | true => decide

/-- A valuation of names without other blanks than spaces is written without them. -/
theorem Valuation.onlySpaces_text {σ : Valuation} (h : ∀ x ∈ σ.names, Text.OnlySpaces x) :
    Text.OnlySpaces σ.text := by
  have hbindings : ∀ s ∈ σ.bindings.map fun p => p.1 ++ ": " ++ p.2.text, Text.OnlySpaces s := by
    intro s hs
    obtain ⟨p, hp, rfl⟩ := List.mem_map.mp hs
    have hname : Text.OnlySpaces p.1 := h p.1 (List.mem_map_of_mem hp)
    have hcolon : Text.OnlySpaces ": " := by decide
    exact (hname.append hcolon).append p.2.onlySpaces_text
  have hcomma : Text.OnlySpaces ", " := by decide
  have hopen : Text.OnlySpaces "\x7b" := by decide
  have hclose : Text.OnlySpaces "\x7d" := by decide
  exact (hopen.append (hcomma.intercalate hbindings)).append hclose

namespace Row

variable {r : Row}

theorem onlySpaces_text (h : ∀ x ∈ r.valuation.names, Text.OnlySpaces x) :
    Text.OnlySpaces r.text := by
  have hspace : Text.OnlySpaces " " := by decide
  exact ((Valuation.onlySpaces_text h).append hspace).append r.value.onlySpaces_text

/-- The line ends as the line of a row does in which the expression is true. -/
def EndsInTrue (line : String) : Prop := " true".toList <:+ line.toList

instance (line : String) : Decidable (EndsInTrue line) :=
  inferInstanceAs (Decidable (_ <:+ _))

/-- **The end of the line tells whether the expression is true**, whatever stands in front. -/
theorem endsInTrue_iff (r : Row) : EndsInTrue r.text ↔ r.value = .boolean true := by
  obtain ⟨σ, v⟩ := r
  rw [EndsInTrue, ← List.reverse_prefix]
  cases v with
  | ternary a =>
    cases a with
    | reject => simp [text, Value.text, Truth.text, Truth.label]
    | grant => simp [text, Value.text, Truth.text, Truth.label]
    | neutral => simp [text, Value.text, Truth.text, Truth.label]
  | boolean b =>
    cases b with
    | false => simp [text, Value.text]
    | true => simp [text, Value.text]

end Row

/-! ### The rows of a table -/

/-- The names in a table are words. -/
theorem TruthTable.IsTableOf.isWord_of_mem_names {t : TruthTable} {e x : String}
    (h : t.IsTableOf e) (hx : x ∈ t.names) : Text.IsWord x.toList := by
  have hvar : .var x ∈ tokensOf e := (h.listsVariables.mem_iff x).mp hx
  exact (canonical_of_mem_tokensOf hvar).isWord_text

/-- The rows of a table bind its names. -/
theorem TruthTable.IsTableOf.names_valuation {t : TruthTable} {e : String} {r : Row}
    (h : t.IsTableOf e) (hr : r ∈ t.rows) : r.valuation.names = t.names := by
  obtain ⟨i, hi⟩ := List.mem_iff_getElem?.mp hr
  rw [(h.isAt i r hi).1, Valuation.names_nth h.listsVariables.nodup]

/-- **The rows of a table are written without blanks other than spaces.** -/
theorem TruthTable.IsTableOf.onlySpaces_text {t : TruthTable} {e : String} {r : Row}
    (h : t.IsTableOf e) (hr : r ∈ t.rows) : Text.OnlySpaces r.text := by
  refine Row.onlySpaces_text fun x hx => ?_
  rw [h.names_valuation hr] at hx
  exact (h.isWord_of_mem_names hx).onlySpaces

/-- A row is a single line. -/
theorem TruthTable.IsTableOf.lineFeed_not_mem {t : TruthTable} {e l : String}
    (h : t.IsTableOf e) (hl : l ∈ t.rows.map Row.text) : '\n' ∉ l.toList := by
  obtain ⟨r, hr, rfl⟩ := List.mem_map.mp hl
  exact (h.onlySpaces_text hr).not_mem_lineFeed

end ProcessSpaces
