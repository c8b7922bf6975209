import ProcessSpaces.Proofs.RowText
import ProcessSpaces.Proofs.Validity

/-!
# Reading rows back

A row is written without quotes and without escapes, and the names in it may hold any of the marks
that it is written with: colons, commas and braces. They may even look like a whole row. Still, a
row can be read back from its text (`Row.read?_text`), as long as no name holds a blank.

It is the blanks that show where things begin and end. Behind the opening brace, the words of the
text come in pairs, one for each name. The first word of a pair is the name with a colon behind it;
the second is the letter of the value, and behind it a comma or the closing brace. So the closing
brace is looked for in no other place than behind a letter (`readBindings?`), and what a name holds
is never looked at. If there are no names, the brace is a word of its own, and no pair begins with
that word.

The names in a table are words, so that its rows can be read back from its lines, and no two lines
are the same (`row_text_unambiguous`).
-/

namespace ProcessSpaces

/-! ### Reading letters, values and names -/

/-- The truth value with the letter. -/
def Truth.ofLabel? (c : Char) : Option Truth := Truth.all.find? fun a => a.label = c

/-- The values of both kinds. -/
def Value.all : List Value := Truth.all.map .ternary ++ [.boolean true, .boolean false]

/-- The value with the text. -/
def Value.ofText? (s : String) : Option Value := Value.all.find? fun v => v.text = s

/-- The name that stands in front of a colon. -/
def readName? (w : List Char) : Option String :=
  if w.getLast? = some ':' then some (String.ofList w.dropLast) else none

theorem Truth.ofLabel?_label (a : Truth) : ofLabel? a.label = some a := by
  cases a with
  | reject => rfl
  | grant => rfl
  | neutral => rfl

theorem Value.ofText?_text (v : Value) : ofText? v.text = some v := by
  have hall : ∀ w ∈ Value.all, ofText? w.text = some w := by decide
  refine hall v ?_
  rcases v with a | b
  · cases a <;> decide
  · cases b <;> decide

theorem readName?_append_colon (x : String) : readName? (x.toList ++ [':']) = some x := by
  rw [readName?, List.getLast?_concat, if_pos rfl, List.dropLast_concat, String.ofList_toList]

/-! ### Reading bindings -/

/-- Bindings as they are written between the braces. -/
def bindingsText (l : List (String × Truth)) : String :=
  ", ".intercalate (l.map fun p => p.1 ++ ": " ++ p.2.text)

/-- Reads bindings from words, two for each of them: the name with a colon, and the letter of the
value with a comma, or with the brace that comes behind the last binding. Answers with the bindings
and the words that are left. -/
def readBindings? : List (List Char) → Option (List (String × Truth) × List (List Char))
  | w :: [c, mark] :: ws => do
    let x ← readName? w
    let a ← Truth.ofLabel? c
    if mark = '\x7d' then
      return ([(x, a)], ws)
    else if mark = ',' then
      let (l, rest) ← readBindings? ws
      return ((x, a) :: l, rest)
    else
      none
  | _ => none

section Bindings

variable {x : String} {a : Truth} {p : String × Truth} {l : List (String × Truth)}
  {ws rest : List (List Char)}

/-- The brace ends the bindings. -/
theorem readBindings?_brace :
    readBindings? ((x.toList ++ [':']) :: [a.label, '\x7d'] :: ws) = some ([(x, a)], ws) := by
  rw [readBindings?, readName?_append_colon, Truth.ofLabel?_label]
  rfl

/-- Behind a comma there are more bindings. -/
theorem readBindings?_comma (h : readBindings? ws = some (l, rest)) :
    readBindings? ((x.toList ++ [':']) :: [a.label, ','] :: ws) = some ((x, a) :: l, rest) := by
  rw [readBindings?, readName?_append_colon, Truth.ofLabel?_label, h]
  rfl

/-- No binding begins with the brace alone. -/
theorem readBindings?_brace_cons (ws : List (List Char)) :
    readBindings? (['\x7d'] :: ws) = none := by
  rcases ws with _ | ⟨_ | ⟨c, _ | ⟨mark, _ | ⟨d, cs⟩⟩⟩, ws⟩
  · rfl
  · rfl
  · rfl
  · rfl
  · rfl

/-- A binding is written as two words, whatever the name holds besides blanks. -/
theorem words_binding {mark : Char} (hx : ∀ c ∈ x.toList, Text.isBlank c = false)
    (hmark : Text.isBlank mark = false) (cs : List Char) :
    Text.words ((x ++ ": " ++ a.text).toList ++ mark :: ' ' :: cs) =
      (x.toList ++ [':']) :: [a.label, mark] :: Text.words cs := by
  have hname : Text.IsWord (x.toList ++ [':']) := by
    refine ⟨List.append_ne_nil_of_right_ne_nil _ (List.cons_ne_nil _ _), fun c hc => ?_⟩
    rcases List.mem_append.mp hc with hc | hc
    · exact hx c hc
    · rw [List.mem_singleton.mp hc]
      rfl
  have hvalue : Text.IsWord [a.label, mark] := by
    refine ⟨List.cons_ne_nil _ _, fun c hc => ?_⟩
    rcases List.mem_pair.mp hc with rfl | rfl
    · cases a <;> rfl
    · exact hmark
  have hsplit : (x ++ ": " ++ a.text).toList ++ mark :: ' ' :: cs =
      (x.toList ++ [':']) ++ ' ' :: ([a.label, mark] ++ ' ' :: cs) := by
    simp [Truth.text]
  have hspace : Text.isBlank ' ' = true := rfl
  rw [hsplit, Text.words_append_cons hspace (x.toList ++ [':']), Text.words_append_cons hspace,
    hname.words_eq, hvalue.words_eq]
  rfl

/-- **Bindings are read back** from the words of their text. -/
theorem readBindings?_words (h : ∀ q ∈ p :: l, ∀ c ∈ q.1.toList, Text.isBlank c = false)
    (cs : List Char) :
    readBindings? (Text.words ((bindingsText (p :: l)).toList ++ '\x7d' :: ' ' :: cs)) =
      some (p :: l, Text.words cs) := by
  obtain ⟨hp, hl⟩ := List.forall_mem_cons.mp h
  induction l generalizing p with
  | nil =>
    rw [bindingsText, List.map_singleton, String.intercalate_singleton, words_binding hp rfl]
    exact readBindings?_brace
  | cons q l ih =>
    obtain ⟨hq, hl'⟩ := List.forall_mem_cons.mp hl
    have hrest := ih hl hq hl'
    rw [bindingsText, List.map_cons] at hrest
    rw [bindingsText, List.map_cons, List.map_cons, String.intercalate_cons_cons,
      String.toList_append, String.toList_append, List.append_assoc, List.append_assoc]
    -- the comma behind the first binding comes with its blank
    exact (congrArg readBindings? (words_binding hp rfl _)).trans (readBindings?_comma hrest)

end Bindings

/-! ### Reading valuations -/

namespace Valuation

variable {σ : Valuation}

/-- No name holds a blank. -/
def NoBlanks (σ : Valuation) : Prop := ∀ x ∈ σ.names, ∀ c ∈ x.toList, Text.isBlank c = false

instance (σ : Valuation) : Decidable σ.NoBlanks :=
  decidable_of_iff (σ.names.all (fun x => x.toList.all fun c => !Text.isBlank c) = true) <| by
    simp [NoBlanks]

/-- Giving the names their values in turn makes the valuation anew. -/
theorem ofList_bindings (σ : Valuation) : ofList σ.bindings = σ :=
  ext_bindings (bindings_foldl_insert ∅ σ.nodup_names)

/-- Reads a valuation from the words behind the opening brace. If there are no bindings, the brace
that closes them is a word of its own. Answers with the valuation and the words that are left. -/
def read? (ws : List (List Char)) : Option (Valuation × List (List Char)) :=
  if ws.head? = some ['\x7d'] then
    some (∅, ws.tail)
  else
    (readBindings? ws).map fun p => (ofList p.1, p.2)

/-- **A valuation is read back** from the words of its text, if no name holds a blank. -/
theorem read?_words (h : σ.NoBlanks) (cs : List Char) :
    read? (Text.words ((bindingsText σ.bindings).toList ++ '\x7d' :: ' ' :: cs)) =
      some (σ, Text.words cs) := by
  have hofList : ofList σ.bindings = σ := σ.ofList_bindings
  cases hbindings : σ.bindings with
  | nil =>
    have hwords : Text.words ('\x7d' :: ' ' :: cs) = ['\x7d'] :: Text.words cs :=
      Text.words_append_cons rfl ['\x7d'] cs
    obtain rfl : σ = ∅ := ext_bindings hbindings
    rw [bindingsText, List.map_nil, String.intercalate_nil, String.toList_empty, List.nil_append,
      hwords]
    rfl
  | cons p l =>
    have hnames : ∀ q ∈ p :: l, ∀ c ∈ q.1.toList, Text.isBlank c = false := by
      intro q hq
      rw [← hbindings] at hq
      exact h q.1 (List.mem_map_of_mem hq)
    have hread := readBindings?_words hnames cs
    have hhead : (Text.words ((bindingsText (p :: l)).toList ++ '\x7d' :: ' ' :: cs)).head? ≠
        some ['\x7d'] := by
      intro hhead
      obtain ⟨ws, hws⟩ := List.head?_eq_some_iff.mp hhead
      rw [hws, readBindings?_brace_cons] at hread
      cases hread
    rw [read?, if_neg hhead, hread, Option.map_some, ← hbindings, hofList]

end Valuation

/-! ### Reading rows -/

/-- The text of a value is a single word. -/
theorem Value.words_text (v : Value) : Text.words v.text.toList = [v.text.toList] := by
  rcases v with a | b
  · cases a <;> rfl
  · cases b <;> rfl

namespace Row

variable {r s : Row}

/-- Reads a row. -/
def read? (line : String) : Option Row :=
  match line.toList with
  | '\x7b' :: cs => do
    let (σ, rest) ← Valuation.read? (Text.words cs)
    match rest with
    | [w] => (Value.ofText? (String.ofList w)).map (Row.mk σ)
    | _ => none
  | _ => none

/-- Behind the opening brace there are the bindings, the closing brace, and the value behind a
space. -/
theorem toList_text (r : Row) :
    r.text.toList =
      '\x7b' :: ((bindingsText r.valuation.bindings).toList ++
        '\x7d' :: ' ' :: r.value.text.toList) := by
  simp [text, Valuation.text, bindingsText]

/-- **A row is read back from its text**, if no name holds a blank. -/
theorem read?_text (h : r.valuation.NoBlanks) : read? r.text = some r := by
  have hread := Valuation.read?_words h r.value.text.toList
  rw [r.value.words_text] at hread
  rw [read?, toList_text]
  simp only [hread, Option.bind_eq_bind, Option.bind_some, String.ofList_toList,
    Value.ofText?_text, Option.map_some]

/-- Rows with the same text are the same, if no name holds a blank. -/
theorem eq_of_text_eq (hr : r.valuation.NoBlanks) (hs : s.valuation.NoBlanks)
    (h : r.text = s.text) : r = s := by
  have hread := read?_text hr
  rw [h, read?_text hs] at hread
  exact (Option.some.inj hread).symm

end Row

/-- Valuations with the same text are the same, if no name holds a blank. -/
theorem Valuation.eq_of_text_eq {σ τ : Valuation} (hσ : σ.NoBlanks) (hτ : τ.NoBlanks)
    (h : σ.text = τ.text) : σ = τ := by
  have hrows : (⟨σ, .boolean true⟩ : Row) = ⟨τ, .boolean true⟩ :=
    Row.eq_of_text_eq hσ hτ (congrArg (fun s => s ++ " " ++ "true") h)
  exact congrArg Row.valuation hrows

/-! ### The rows of a table -/

namespace TruthTable.IsTableOf

variable {t : TruthTable} {e : String} {r : Row}

/-- The names in the rows of a table hold no blanks. -/
theorem noBlanks (h : t.IsTableOf e) (hr : r ∈ t.rows) : r.valuation.NoBlanks := by
  intro x hx
  rw [h.names_valuation hr] at hx
  exact (h.isWord_of_mem_names hx).not_blank

/-- **The rows of a table are read back from their lines.** -/
theorem map_read?_text (h : t.IsTableOf e) :
    (t.rows.map Row.text).map Row.read? = t.rows.map some := by
  rw [List.map_map]
  exact List.map_congr_left fun r hr => Row.read?_text (h.noBlanks hr)

/-- **No two lines of a table are the same.** -/
theorem nodup_map_text (h : t.IsTableOf e) : (t.rows.map Row.text).Nodup := by
  refine List.Nodup.map_on (fun r hr s hs hrs => ?_) (List.Nodup.of_map _ h.nodup_map_valuation)
  exact Row.eq_of_text_eq (h.noBlanks hr) (h.noBlanks hs) hrs

end TruthTable.IsTableOf

/-- **The text of a row is unambiguous.** Valuations in which no name holds a blank have the same
text only if they are the same, with the names in the same order; and so it is with rows. In a table
all lines are different, and the list of the rows can be read back from the lines alone. -/
theorem row_text_unambiguous :
    (∀ σ τ : Valuation, σ.NoBlanks → τ.NoBlanks → σ.text = τ.text → σ = τ) ∧
    (∀ r s : Row, r.valuation.NoBlanks → s.valuation.NoBlanks → r.text = s.text → r = s) ∧
    ∀ (e : String) (t : TruthTable), (tabulate e).result = .ok t →
      (t.rows.map Row.text).Nodup ∧ (t.rows.map Row.text).map Row.read? = t.rows.map some := by
  refine ⟨fun σ τ => Valuation.eq_of_text_eq, fun r s => Row.eq_of_text_eq, fun e t h => ?_⟩
  have ht : t.IsTableOf e := tabulate_eq_ok_iff.mp h
  exact ⟨ht.nodup_map_text, ht.map_read?_text⟩

/-- The names may be `}:` and `R,`. Two ways to come by a valuation of these with the same text come
to the same valuation; and the three lines of the table of `robust }` are different, and read back
as its rows. -/
theorem row_text_unambiguous_brace :
    ∃ (σ τ : Valuation) (t : TruthTable),
      σ = .ofList [("\x7d:", .reject), ("R,", .grant), ("\x7d:", .neutral)] ∧
      τ = .ofList [("\x7d:", .neutral), ("R,", .grant)] ∧ σ.NoBlanks ∧ τ.NoBlanks ∧
      σ.text = "\x7b\x7d:: E, R,: G\x7d" ∧ τ.text = "\x7b\x7d:: E, R,: G\x7d" ∧ σ = τ ∧
      (⟨σ, .ternary .grant⟩ : Row) = ⟨τ, .ternary .grant⟩ ∧
      (tabulate "robust \x7d").result = .ok t ∧
      t.rows.map Row.text =
        ["\x7b\x7d: R\x7d false", "\x7b\x7d: G\x7d true", "\x7b\x7d: E\x7d true"] ∧
      (t.rows.map Row.text).Nodup ∧ (t.rows.map Row.text).map Row.read? = t.rows.map some := by
  obtain ⟨hvaluation, hrow, htable⟩ := row_text_unambiguous
  obtain ⟨t, ht, hlines⟩ :
    ∃ t : TruthTable, (tabulate "robust \x7d").result = .ok t ∧ t.rows.map Row.text =
      ["\x7b\x7d: R\x7d false", "\x7b\x7d: G\x7d true", "\x7b\x7d: E\x7d true"] :=
    ⟨_, rfl, by decide⟩
  have hσ : (Valuation.ofList
      [("\x7d:", .reject), ("R,", .grant), ("\x7d:", .neutral)]).NoBlanks := by decide
  have hτ : (Valuation.ofList [("\x7d:", .neutral), ("R,", .grant)]).NoBlanks := by decide
  exact ⟨_, _, t, rfl, rfl, hσ, hτ, by decide, by decide, hvaluation _ _ hσ hτ (by decide),
    hrow _ _ hσ hτ (by decide), ht, hlines, htable _ t ht⟩

end ProcessSpaces
