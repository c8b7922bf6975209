import ProcessSpaces.Proofs.Tabulation
import ProcessSpaces.Proofs.Words

/-!
# Reading tokens back from how they are written

A token is written as a word, and words stand for tokens. This file says that the two are inverse to
one another. Not every token comes from a word: a gap does not, nor does a variable whose name is
empty, or has a blank in it, or is a reserved word. The others are *canonical* (`Token.Canonical`).
The reserved words are listed once more here, each beside its token (`Token.keywords`). Canonical
tokens are read back from a text in which they stand with any gaps around them (`tokensOf_layOut`).

Conversely all tokens of a text are canonical (`canonical_of_mem_tokensOf`), and the text is
one in which they are laid out (`exists_layOut`). So texts with the same tokens differ in their gaps
only. The tables of two such texts differ in nothing but the text they keep
(`result_tabulate_of_tokensOf_eq`).
-/

namespace ProcessSpaces

namespace Token

/-! ### Canonical tokens -/

/-- The reserved words, with the tokens that they are reserved for. -/
def keywords : List (String × Token) :=
  [("-", .unary .neg), ("/", .unary .cycle), ("robust", .unary .robust), ("not", .unary .not),
   ("||", .binary .par), ("[=", .binary .entails), ("==", .binary .equal),
   ("oplus", .binary .oplus), ("meet", .binary .meet), ("join", .binary .join),
   ("lpop", .binary .lpop), ("and", .binary .and), ("or", .binary .or),
   ("implies", .binary .implies), ("equiv", .binary .equiv),
   ("bot", .constant .reject), ("phi", .constant .grant), ("top", .constant .neutral)]

/-- The tokens that have a word: those with a reserved one, and the variables whose name is a word
that is not reserved. -/
inductive Canonical : Token → Prop
  /-- A token with a reserved word. -/
  | keyword {word : String} {t : Token} (h : (word, t) ∈ keywords) : Canonical t
  /-- A variable. -/
  | var {name : String} (hword : Text.IsWord name.toList) (hfree : ∀ t, (name, t) ∉ keywords) :
      Canonical (.var name)

/-- The reserved words are what their tokens are written as. -/
theorem keywords_eq_map : keywords = reserved.map fun t => (t.text, t) := by
  decide

theorem isWord_of_mem_keywords : ∀ p ∈ keywords, Text.IsWord p.1.toList := by
  decide

theorem mem_keywords_iff {word : String} {t : Token} :
    (word, t) ∈ keywords ↔ t ∈ reserved ∧ t.text = word := by
  rw [keywords_eq_map, List.mem_map]
  constructor
  · rintro ⟨t', ht', he⟩
    cases he
    exact ⟨ht', rfl⟩
  · rintro ⟨ht, rfl⟩
    exact ⟨t, ht, rfl⟩

/-- Reserved words are words. -/
theorem isWord_text_of_mem_reserved {t : Token} (h : t ∈ reserved) : Text.IsWord t.text.toList :=
  isWord_of_mem_keywords (t.text, t) (mem_keywords_iff.mpr ⟨h, rfl⟩)

/-- A reserved word stands for the token that it is reserved for. -/
theorem ofWord_of_mem_keywords {word : String} {t : Token} (h : (word, t) ∈ keywords) :
    ofWord word = t := by
  obtain ⟨hmem, rfl⟩ := mem_keywords_iff.mp h
  exact ofWord_text_of_mem_reserved t hmem

/-- Any other word stands for a variable. -/
theorem ofWord_of_forall_not_mem_keywords {word : String} (h : ∀ t, (word, t) ∉ keywords) :
    ofWord word = .var word :=
  ofWord_of_forall_ne fun t ht he => h t (mem_keywords_iff.mpr ⟨ht, he⟩)

/-- A token is written as the word that it was read off. -/
theorem text_ofWord (word : String) : (ofWord word).text = word := by
  rw [ofWord]
  cases h : reserved.find? fun t => t.text = word with
  | none => rfl
  | some t => simpa using List.find?_some h

/-- Every word stands for a canonical token. -/
theorem canonical_ofWord {word : String} (h : Text.IsWord word.toList) :
    (ofWord word).Canonical := by
  by_cases hreserved : ∃ t, (word, t) ∈ keywords
  · obtain ⟨t, ht⟩ := hreserved
    rw [ofWord_of_mem_keywords ht]
    exact .keyword ht
  · have hfree : ∀ t, (word, t) ∉ keywords := fun t ht => hreserved ⟨t, ht⟩
    rw [ofWord_of_forall_not_mem_keywords hfree]
    exact .var h hfree

/-- A canonical token is written as a word. -/
theorem Canonical.isWord_text {t : Token} (h : t.Canonical) : Text.IsWord t.text.toList := by
  cases h with
  | keyword h => exact isWord_text_of_mem_reserved (mem_keywords_iff.mp h).1
  | var hword _ => exact hword

/-- No word stands for a gap. -/
theorem not_canonical_gap : ¬Canonical .gap := by
  rintro ⟨h⟩
  exact absurd (mem_keywords_iff.mp h).1 (by decide)

/-- **A canonical token is read back from the word it is written as.** -/
theorem Canonical.ofWord_text {t : Token} (h : t.Canonical) : ofWord t.text = t := by
  cases h with
  | keyword h => exact ofWord_text_of_mem_reserved t (mem_keywords_iff.mp h).1
  | var _ hfree => exact ofWord_of_forall_not_mem_keywords hfree

end Token

/-! ### Tokens laid out in a text -/

section LayOut

variable {front : List Char} {l : List (Token × List Char)} {tokens : List Token} {text : String}

/-- The text in which each of the tokens, as it is written, is followed by its gap, behind a gap in
front of all. -/
def layOut (front : List Char) (l : List (Token × List Char)) : String :=
  String.ofList (Text.spread front (l.map fun p => (p.1.text.toList, p.2)))

/-- Canonical tokens are read back from their words. -/
theorem map_ofWord_of_canonical (h : ∀ t ∈ tokens, t.Canonical) :
    (tokens.map fun t => t.text.toList).map (fun w => Token.ofWord (String.ofList w)) = tokens := by
  rw [List.map_map]
  refine (List.map_congr_left fun t ht => ?_).trans (List.map_id tokens)
  rw [Function.comp_apply, String.ofList_toList, (h t ht).ofWord_text, id]

/-- **Canonical tokens are read back from every text in which they are laid out.** -/
theorem tokensOf_layOut (ht : ∀ p ∈ l, p.1.Canonical)
    (hgaps : Text.Separates front (l.map Prod.snd)) :
    tokensOf (layOut front l) = l.map Prod.fst := by
  let words := l.map fun p => (p.1.text.toList, p.2)
  have hwords : ∀ p ∈ words, Text.IsWord p.1 := by
    intro p hp
    obtain ⟨q, hq, rfl⟩ := List.mem_map.mp hp
    exact (ht q hq).isWord_text
  have hsnd : words.map Prod.snd = l.map Prod.snd := List.map_map
  have hfst : words.map Prod.fst = (l.map Prod.fst).map fun t => t.text.toList := by
    rw [List.map_map, List.map_map]
    rfl
  have hcanonical : ∀ t ∈ l.map Prod.fst, t.Canonical := List.forall_mem_map.mpr ht
  rw [tokensOf, layOut, String.toList_ofList, Text.words_spread (hsnd ▸ hgaps) hwords, hfst,
    map_ofWord_of_canonical hcanonical]

/-- Canonical tokens are read back from the text in which there is a single space between any
two. -/
theorem tokensOf_intercalate (h : ∀ t ∈ tokens, t.Canonical) :
    tokensOf (" ".intercalate (tokens.map Token.text)) = tokens := by
  have hwords : ∀ w ∈ tokens.map fun t => t.text.toList, Text.IsWord w :=
    List.forall_mem_map.mpr fun t ht => (h t ht).isWord_text
  have htext : (" ".intercalate (tokens.map Token.text)).toList =
      [' '].intercalate (tokens.map fun t => t.text.toList) := by
    rw [String.toList_intercalate, List.map_map]
    rfl
  rw [tokensOf, htext, Text.words_intercalate rfl hwords, map_ofWord_of_canonical h]

/-- **All tokens of a text are canonical.** -/
theorem canonical_of_mem_tokensOf {t : Token} (h : t ∈ tokensOf text) : t.Canonical := by
  obtain ⟨w, hw, rfl⟩ := List.mem_map.mp h
  refine Token.canonical_ofWord ?_
  rw [String.toList_ofList]
  exact Text.isWord_of_mem_words hw

/-- **Every text is one in which its tokens are laid out.** -/
theorem exists_layOut (text : String) :
    ∃ front l, text = layOut front l ∧ l.map Prod.fst = tokensOf text ∧
      Text.Separates front (l.map Prod.snd) := by
  obtain ⟨front, l, htext, hgaps, hwords⟩ := Text.exists_spread text.toList
  let tokens := l.map fun p => (Token.ofWord (String.ofList p.1), p.2)
  have hspread : tokens.map (fun p => (p.1.text.toList, p.2)) = l := by
    rw [List.map_map]
    refine (List.map_congr_left fun p _ => ?_).trans (List.map_id l)
    rw [Function.comp_apply, Token.text_ofWord, String.toList_ofList, id]
  have hsnd : tokens.map Prod.snd = l.map Prod.snd := List.map_map
  refine ⟨front, tokens, ?_, ?_, hsnd ▸ hgaps⟩
  · rw [layOut, hspread, ← htext, String.ofList_toList]
  · rw [tokensOf, htext, Text.words_spread hgaps hwords, List.map_map, List.map_map]
    rfl

end LayOut

/-! ### Texts with the same tokens -/

/-- **The tables of texts with the same tokens differ in the text that they keep and in nothing
else**, and if one of them has none then neither has the other, for the same reason. -/
theorem result_tabulate_of_tokensOf_eq {text text' : String} (h : tokensOf text = tokensOf text') :
    (tabulate text').result =
      (tabulate text).result.map fun t => { t with expression := text' } := by
  rcases Nat.lt_or_ge maxVariables (variablesOf (tokensOf text)).length with hlt | hle
  · rw [result_tabulate_of_lt hlt]
    rw [h] at hlt ⊢
    rw [result_tabulate_of_lt hlt]
    rfl
  · obtain ⟨⟨done, failure?⟩, hloop⟩ : ∃ p, rowsFrom (tokensOf text) (variablesOf (tokensOf text))
      (Valuation.number (variablesOf (tokensOf text)).length) 0 #[] = p := ⟨_, rfl⟩
    rw [result_tabulate_of_rowsFrom hle hloop]
    rw [h] at hle hloop ⊢
    rw [result_tabulate_of_rowsFrom hle hloop]
    cases failure? with
    | none => rfl
    | some e => rfl

/-- **Tokens are read back from how they are written, and texts are written as their tokens.**

If canonical tokens are laid out in a text, with any gaps of blanks around them, of which only those
at the two ends may be empty, then they are the tokens of the text. Conversely, all tokens of a text
are canonical, and the text is one in which they are laid out. So they are also the tokens of the
text in which single spaces stand between them. Texts with the same tokens have the same variables,
and their tables differ in nothing but the text that they keep: they have the same rows, or fail
with the same error. -/
theorem spelling_round_trip :
    (∀ (front : List Char) (l : List (Token × List Char)), (∀ p ∈ l, p.1.Canonical) →
      Text.Separates front (l.map Prod.snd) → tokensOf (layOut front l) = l.map Prod.fst) ∧
    (∀ text, ∀ t ∈ tokensOf text, t.Canonical) ∧
    (∀ text, ∃ front l, text = layOut front l ∧ l.map Prod.fst = tokensOf text ∧
      Text.Separates front (l.map Prod.snd)) ∧
    (∀ text, tokensOf (" ".intercalate ((tokensOf text).map Token.text)) = tokensOf text) ∧
    ∀ text text', tokensOf text = tokensOf text' →
      variablesOf (tokensOf text) = variablesOf (tokensOf text') ∧
        (tabulate text').result =
          (tabulate text).result.map fun t => { t with expression := text' } :=
  ⟨fun _ _ => tokensOf_layOut, fun _ _ => canonical_of_mem_tokensOf, exists_layOut,
    fun _ => tokensOf_intercalate fun _ => canonical_of_mem_tokensOf,
    fun _ _ h => ⟨congrArg variablesOf h, result_tabulate_of_tokensOf_eq h⟩⟩

/-- Tabs, line feeds and spaces of any width may stand around an operator and two variables whose
names begin like reserved words. -/
theorem spelling_round_trip_entails :
    ∃ text, text = "\t[=\n\u00a0ands\u2003-A" ∧
      tokensOf text = [.binary .entails, .var "ands", .var "-A"] ∧
      (Token.var "-A").Canonical ∧
      (tabulate text).result =
        (tabulate "[= ands -A").result.map fun t => { t with expression := text } := by
  obtain ⟨hlaid, hcanonical, -, -, hsame⟩ := spelling_round_trip
  have htokens := hlaid ['\t']
    [(.binary .entails, ['\n', '\u00a0']), (.var "ands", ['\u2003']), (.var "-A", [])]
    (fun p hp => hcanonical "[= ands -A" p.1 (List.mem_map_of_mem hp)) (by decide)
  exact ⟨_, rfl, htokens, hcanonical "[= ands -A" _ (by decide),
    (hsame "[= ands -A" _ htokens.symm).2⟩

end ProcessSpaces
