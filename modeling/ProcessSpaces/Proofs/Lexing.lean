import ProcessSpaces.Lexer
import ProcessSpaces.Proofs.Spelling

/-!
# The longest match takes whole words

The rules by which tokens are read know nothing of words, and a word may well begin with a reserved
one. This file says that all the same no word is taken apart: with any scanner that takes the
longest match, reading the tokens of a text by the rules is the same as looking up each of its words
(`Lexer.tokenizeFrom_eq`).

What the scanner takes from a text is either blanks, which leaves the words behind them as they are,
or a word (`Lexer.blanks_or_isWord_lexeme`). It takes a word as a whole, since another character
that is not a blank would make a longer match for the rule of the variables
(`Lexer.words_eq_lexeme_cons`). If the word is reserved then two rules match it, and the priorities
decide in favour of the reserved word (`Lexer.token?_lexeme`). And there is always a rule that
matches, so that the scanner never fails (`Lexer.exists_scan_eq_ok`).

That there are scanners of this kind is shown by the one which tries all rules
(`Lexer.takesLongest_munch`).
-/

namespace ProcessSpaces.Lexer

variable {cs : List Char} {r : Rule}

/-! ### The rules -/

theorem mem_rules_iff :
    r ∈ rules ↔ (∃ t ∈ Token.reserved, r = .reserved t) ∨ r = .var ∨ r = .blanks := by
  simp only [rules, List.mem_append, List.mem_map, List.mem_cons, List.not_mem_nil, or_false,
    eq_comm]

theorem var_mem_rules : Rule.var ∈ rules := mem_rules_iff.mpr (.inr (.inl rfl))

theorem blanks_mem_rules : Rule.blanks ∈ rules := mem_rules_iff.mpr (.inr (.inr rfl))

/-- The rule of the variables looks for words. -/
theorem matches_var_iff {l : List Char} : Rule.var.pattern.Matches l ↔ Text.IsWord l := by
  simp only [Rule.var, Pattern.Matches, Bool.not_eq_true']
  exact ⟨fun ⟨hne, hblank⟩ => ⟨hne, hblank⟩, fun ⟨hne, hblank⟩ => ⟨hne, hblank⟩⟩

/-- Reserved words have a higher priority than variables. -/
theorem Weighs.var_lt_reserved {weight : Rule → Nat} (hweight : Weighs weight) {t : Token}
    (h : t ∈ Token.reserved) : weight .var < weight (.reserved t) := by
  have hne : t.text ≠ "" := fun he =>
    (Token.isWord_text_of_mem_reserved h).ne_nil (String.toList_eq_nil_iff.mpr he)
  have hsize : t.text.utf8ByteSize ≠ 0 := mt String.utf8ByteSize_eq_zero_iff.mp hne
  rw [hweight.own (r := .var) rfl, hweight.word (r := .reserved t) rfl rfl]
  omega

/-! ### What the scanner takes -/

section Scanner

variable {scan : Scanner} {weight : Rule → Nat} {m : Match cs}

/-- **The scanner takes blanks or a word**, and a word for the rule of the variables or for that of
the very same reserved word. -/
theorem blanks_or_isWord_lexeme (hscan : scan.TakesLongest rules weight) (hm : scan cs = .ok m) :
    (m.rule = .blanks ∧ ∀ c ∈ m.lexeme, Text.isBlank c = true) ∨
      Text.IsWord m.lexeme ∧ (m.rule = .var ∨
        ∃ t ∈ Token.reserved, m.rule = .reserved t ∧ m.lexeme = t.text.toList) := by
  have hmatch := hscan.matches_lexeme hm
  rcases mem_rules_iff.mp (hscan.mem hm) with ⟨t, ht, hr⟩ | hr | hr
  · rw [hr] at hmatch
    exact .inr ⟨hmatch ▸ Token.isWord_text_of_mem_reserved ht, .inr ⟨t, ht, hr, hmatch⟩⟩
  · rw [hr] at hmatch
    exact .inr ⟨matches_var_iff.mp hmatch, .inl hr⟩
  · rw [hr] at hmatch
    exact .inl ⟨hr, hmatch.2⟩

/-- **A word is taken as a whole**: what is left behind it does not go on with one. -/
theorem isBlank_of_mem_head?_rest (hscan : scan.TakesLongest rules weight)
    (hm : scan cs = .ok m) (hword : Text.IsWord m.lexeme) :
    ∀ c ∈ m.rest.head?, Text.isBlank c = true := by
  intro c hc
  by_contra hblank
  rw [Bool.not_eq_true] at hblank
  obtain ⟨rest, hrest⟩ := List.head?_eq_some_iff.mp hc
  -- otherwise one more character would make a longer match
  have hlonger : Text.IsWord (m.lexeme ++ [c]) :=
    ⟨List.append_ne_nil_of_right_ne_nil _ (List.cons_ne_nil c []),
      List.forall_mem_append.mpr ⟨hword.not_blank, List.forall_mem_singleton.mpr hblank⟩⟩
  have hfront : m.lexeme ++ [c] <+: cs :=
    ⟨rest, by rw [List.append_assoc, List.singleton_append, ← hrest, m.append_eq]⟩
  have hlength := hscan.longest hm var_mem_rules hfront (matches_var_iff.mpr hlonger)
  rw [List.length_append, List.length_singleton] at hlength
  omega

/-- If the scanner takes a word, then the words of the text are this one and those of what is
left. -/
theorem words_eq_lexeme_cons (hscan : scan.TakesLongest rules weight) (hm : scan cs = .ok m)
    (hword : Text.IsWord m.lexeme) : Text.words cs = m.lexeme :: Text.words m.rest := by
  have hsplit : Text.words cs = Text.words (m.lexeme ++ m.rest) := by rw [m.append_eq]
  have hrest := isBlank_of_mem_head?_rest hscan hm hword
  rw [hsplit]
  cases hl : m.rest with
  | nil =>
    rw [List.append_nil, hword.words_eq]
    rfl
  | cons c rest =>
    have hc : Text.isBlank c = true := hrest c (by rw [hl]; rfl)
    have hdrop : Text.words (c :: rest) = Text.words rest :=
      Text.words_append_of_forall_blank_left (List.forall_mem_singleton.mpr hc) rest
    rw [Text.words_append_cons hc, hword.words_eq, hdrop]
    rfl

/-- **A word that the scanner takes becomes the token that the word stands for.** A reserved word is
never taken for a variable, since its own rule has a higher priority. -/
theorem token?_lexeme (hscan : scan.TakesLongest rules weight) (hweight : Weighs weight)
    (hm : scan cs = .ok m) (hrule : m.rule = .var ∨
      ∃ t ∈ Token.reserved, m.rule = .reserved t ∧ m.lexeme = t.text.toList) :
    m.rule.token? (String.ofList m.lexeme) = some (Token.ofWord (String.ofList m.lexeme)) := by
  rcases hrule with hr | ⟨t, ht, hr, hl⟩
  · have hfree : ∀ t ∈ Token.reserved, t.text ≠ String.ofList m.lexeme := by
      intro t ht he
      have hmem : Rule.reserved t ∈ rules := mem_rules_iff.mpr (.inl ⟨t, ht, rfl⟩)
      have hl : m.lexeme = t.text.toList := by rw [he, String.toList_ofList]
      have hle := hscan.priority hm hmem hl
      rw [hr] at hle
      exact absurd (hweight.var_lt_reserved ht) (Nat.not_lt.mpr hle)
    rw [hr, Token.ofWord_of_forall_ne hfree]
    rfl
  · rw [hr, hl, String.ofList_toList, Token.ofWord_text_of_mem_reserved t ht]
    rfl

/-- **The scanner never fails**, since one of the rules matches whatever character comes first. -/
theorem exists_scan_eq_ok (hscan : scan.TakesLongest rules weight) (c : Char) (cs : List Char) :
    ∃ m, scan (c :: cs) = .ok m := by
  cases h : scan (c :: cs) with
  | ok m => exact ⟨m, rfl⟩
  | error bad =>
    have hfront : [c] <+: c :: cs := List.prefix_append [c] cs
    have hne : [c] ≠ [] := List.cons_ne_nil c []
    cases hc : Text.isBlank c with
    | true =>
      refine absurd ?_ (hscan.not_matches h blanks_mem_rules hfront hne)
      exact ⟨hne, List.forall_mem_singleton.mpr hc⟩
    | false =>
      refine absurd ?_ (hscan.not_matches h var_mem_rules hfront hne)
      exact matches_var_iff.mpr ⟨hne, List.forall_mem_singleton.mpr hc⟩

end Scanner

/-! ### Reading by rules and reading words -/

section Reading

variable {scan : Scanner} {weight : Rule → Nat}

/-- The tokens of a text are what the scanner makes of its front and the tokens of what is left. -/
theorem tokensOf_eq_append (hscan : scan.TakesLongest rules weight) (hweight : Weighs weight)
    {m : Match cs} (hm : scan cs = .ok m) :
    tokensOf (String.ofList cs) =
      (m.rule.token? (String.ofList m.lexeme)).toList ++ tokensOf (String.ofList m.rest) := by
  simp only [tokensOf, String.toList_ofList]
  rcases blanks_or_isWord_lexeme hscan hm with ⟨hr, hblank⟩ | ⟨hword, hrule⟩
  · have hwords : Text.words cs = Text.words m.rest := by
      calc Text.words cs = Text.words (m.lexeme ++ m.rest) := by rw [m.append_eq]
        _ = Text.words m.rest := Text.words_append_of_forall_blank_left hblank m.rest
    rw [hwords, hr]
    rfl
  · rw [words_eq_lexeme_cons hscan hm hword, token?_lexeme hscan hweight hm hrule]
    rfl

/-- **Reading a text to its end by the rules gives the tokens of its words**, behind those that have
been read before. -/
theorem tokenizeFrom_eq (hscan : scan.TakesLongest rules weight) (hweight : Weighs weight)
    (done : List Token) (cs : List Char) :
    tokenizeFrom scan done cs = .ok (done ++ tokensOf (String.ofList cs)) := by
  induction done, cs using tokenizeFrom.induct scan with
  | case1 done =>
    have hempty : tokensOf (String.ofList []) = [] := tokensOf_empty
    rw [tokenizeFrom, hempty, List.append_nil]
  | case2 done c cs bad hbad =>
    obtain ⟨m, hm⟩ := exists_scan_eq_ok hscan c cs
    rw [hbad] at hm
    exact nomatch hm
  | case3 done c cs m hm ih =>
    rw [tokenizeFrom]
    simp only [hm]
    rw [ih, List.append_assoc, ← tokensOf_eq_append hscan hweight hm]

theorem tokenize_eq (hscan : scan.TakesLongest rules weight) (hweight : Weighs weight)
    (text : String) : tokenize scan text = .ok (tokensOf text) := by
  rw [tokenize, tokenizeFrom_eq hscan hweight, String.ofList_toList, List.nil_append]

end Reading

/-! ### Trying all rules -/

section Munch

variable {l : List Char}

/-- What a rule finds is what it looks for. -/
theorem Rule.matches_longest (h : r.longest cs ≠ []) : r.pattern.Matches (r.longest cs) := by
  rw [Rule.longest] at h ⊢
  cases hp : r.pattern with
  | word w =>
    simp only [hp] at h ⊢
    split at h
    · rename_i hfront
      exact if_pos hfront
    · exact absurd rfl h
  | run p =>
    simp only [hp] at h ⊢
    exact ⟨h, fun c hc => List.mem_takeWhile_imp hc⟩

/-- A rule finds as much as it matches. -/
theorem Rule.length_le_length_longest (hfront : l <+: cs) (hl : r.pattern.Matches l) :
    l.length ≤ (r.longest cs).length := by
  rw [Rule.longest]
  cases hp : r.pattern with
  | word w =>
    rw [hp] at hl
    obtain rfl : l = w.toList := hl
    simp only [if_pos hfront, le_refl]
  | run p =>
    rw [hp] at hl
    obtain ⟨rest, rfl⟩ := hfront
    simp only [List.takeWhile_append_of_pos hl.2, List.length_append, Nat.le_add_right]

theorem Rule.of_match?_eq_some {m : Match cs} (h : r.match? cs = some m) :
    m.rule = r ∧ m.lexeme = r.longest cs := by
  rw [Rule.match?] at h
  split at h
  · obtain rfl := Option.some.inj h
    exact ⟨rfl, rfl⟩
  · exact nomatch h

/-- A rule that matches something is among those that are tried, with a match that is as long. -/
theorem exists_mem_filterMap_match? {rules : List Rule} (hr : r ∈ rules) (hfront : l <+: cs)
    (hl : r.pattern.Matches l) (hne : l ≠ []) :
    ∃ m ∈ rules.filterMap fun r => r.match? cs, m.rule = r ∧ l.length ≤ m.lexeme.length := by
  have hle := Rule.length_le_length_longest hfront hl
  have hlongest : r.longest cs ≠ [] := by
    have hpos := List.length_pos_iff.mpr hne
    exact List.length_pos_iff.mp (Nat.lt_of_lt_of_le hpos hle)
  exact ⟨_, List.mem_filterMap.mpr ⟨r, hr, dif_pos hlongest⟩, rfl, hle⟩

/-- The match that is taken is one of a rule, and none of the others is better. -/
theorem mem_argmax_of_munch_eq_ok {rules : List Rule} {weight : Rule → Nat} {m : Match cs}
    (h : munch rules weight cs = .ok m) :
    m ∈ (rules.filterMap fun r => r.match? cs).argmax
      fun m => toLex (m.lexeme.length, weight m.rule) := by
  rw [munch] at h
  split at h
  · rename_i m' hm'
    obtain rfl := Except.ok.inj h
    exact hm'
  · exact nomatch h

/-- **There is a scanner which takes the longest match**: the one that tries all rules. -/
theorem takesLongest_munch (rules : List Rule) (weight : Rule → Nat) :
    (munch rules weight).TakesLongest rules weight where
  mem h := by
    obtain ⟨r, hr, hm⟩ := List.mem_filterMap.mp (List.argmax_mem (mem_argmax_of_munch_eq_ok h))
    rwa [(Rule.of_match?_eq_some hm).1]
  matches_lexeme {cs m} h := by
    obtain ⟨r, -, hm⟩ := List.mem_filterMap.mp (List.argmax_mem (mem_argmax_of_munch_eq_ok h))
    obtain ⟨rfl, hl⟩ := Rule.of_match?_eq_some hm
    rw [hl]
    exact Rule.matches_longest (hl ▸ m.ne_nil)
  longest {cs l m r} h hr hfront hl := by
    rcases eq_or_ne l [] with rfl | hne
    · exact Nat.zero_le _
    · obtain ⟨m', hm', -, hle⟩ := exists_mem_filterMap_match? hr hfront hl hne
      have hbest := List.le_of_mem_argmax hm' (mem_argmax_of_munch_eq_ok h)
      rcases Prod.Lex.toLex_le_toLex.mp hbest with hlt | ⟨heq, -⟩
      · exact hle.trans hlt.le
      · exact hle.trans heq.le
  priority {cs m r} h hr hl := by
    have hfront : m.lexeme <+: cs := ⟨m.rest, m.append_eq⟩
    obtain ⟨m', hm', rfl, hle⟩ := exists_mem_filterMap_match? hr hfront hl m.ne_nil
    have hbest := List.le_of_mem_argmax hm' (mem_argmax_of_munch_eq_ok h)
    -- the other match is at least as long, so that the priorities decide
    rcases Prod.Lex.toLex_le_toLex.mp hbest with hlt | ⟨-, hle'⟩
    · exact absurd hlt (Nat.not_lt.mpr hle)
    · exact hle'
  not_matches {cs l bad r} h hr hfront hne hl := by
    obtain ⟨m, hm, -⟩ := exists_mem_filterMap_match? hr hfront hl hne
    rw [munch] at h
    split at h
    · exact nomatch h
    · rename_i hnone
      exact absurd (List.argmax_eq_none.mp hnone) (List.ne_nil_of_mem hm)

theorem weighs_weight : Weighs Rule.weight where
  own h := by rw [Rule.weight, h, Option.getD_some]
  word h hw := by rw [Rule.weight, h, hw, Option.getD_none]

end Munch

/-! ### Whole texts -/

/-- **Reading the tokens of a text by the rules is looking up its words.**

It succeeds with any text, and gives the tokens of the text. If the text consists of certain words,
with any gaps of blanks around them, of which only those at the two ends may be empty, then these
are the tokens that these very words stand for, one after the other; and every text is of this kind.
A reserved word stands for its token and any other word for the variable of that name. The gap is
never among the tokens. In particular the tokens of two texts with blanks between them are those of
the one and then those of the other. -/
theorem tokenize_reads_words {scan : Scanner} {weight : Rule → Nat}
    (hscan : scan.TakesLongest rules weight) (hweight : Weighs weight) :
    (∀ text, tokenize scan text = .ok (tokensOf text)) ∧
    (∀ (front : List Char) (l : List (List Char × List Char)),
      Text.Separates front (l.map Prod.snd) → (∀ p ∈ l, Text.IsWord p.1) →
      tokenize scan (String.ofList (Text.spread front l)) =
        .ok (l.map fun p => Token.ofWord (String.ofList p.1))) ∧
    (∀ text : String, ∃ front l, text.toList = Text.spread front l ∧
      Text.Separates front (l.map Prod.snd) ∧ ∀ p ∈ l, Text.IsWord p.1) ∧
    (∀ word, (∀ t, (word, t) ∈ Token.keywords → Token.ofWord word = t) ∧
      ((∀ t, (word, t) ∉ Token.keywords) → Token.ofWord word = .var word)) ∧
    (∀ text tokens, tokenize scan text = .ok tokens → Token.gap ∉ tokens) ∧
    ∀ front gap back, Text.Blank gap → gap ≠ "" →
      ∃ tokens tokens', tokenize scan front = .ok tokens ∧ tokenize scan back = .ok tokens' ∧
        tokenize scan (front ++ gap ++ back) = .ok (tokens ++ tokens') := by
  have hread := tokenize_eq hscan hweight
  refine ⟨hread, ?_, fun text => Text.exists_spread text.toList, fun word =>
    ⟨fun _ => Token.ofWord_of_mem_keywords, Token.ofWord_of_forall_not_mem_keywords⟩, ?_, ?_⟩
  · intro front l hgaps hwords
    rw [hread, tokensOf, String.toList_ofList, Text.words_spread hgaps hwords, List.map_map]
    rfl
  · intro text tokens h hgap
    rw [hread] at h
    obtain rfl := Except.ok.inj h
    exact Token.not_canonical_gap (canonical_of_mem_tokensOf hgap)
  · intro front gap back hblank hne
    refine ⟨_, _, hread front, hread back, ?_⟩
    rw [hread, tokensOf_append_append hblank hne]

/-- Reserved words at the two ends of other words, and an em space between words. -/
theorem tokenize_reads_words_par :
    tokenize (munch rules Rule.weight) "[=x ands\u2003|| -A||" =
      .ok [.var "[=x", .var "ands", .binary .par, .var "-A||"] := by
  obtain ⟨hread, -⟩ := tokenize_reads_words (takesLongest_munch rules Rule.weight) weighs_weight
  rw [hread]
  rfl

end ProcessSpaces.Lexer
