import Mathlib.Data.List.MinMax
import Mathlib.Data.Prod.Lex
import ProcessSpaces.Token

/-!
# Reading tokens by rules

The tokens of a text can also be read off one after the other, by rules that look at nothing but the
front of what is left. A **rule** has a pattern to look for and says what becomes of the characters
that match it. There is a rule for each of the reserved words, one for other words, which takes any
characters that are not blank, and one that skips blanks (`rules`).

Often several rules match, and each of them in several ways: a long word begins with shorter ones,
some of which are reserved. Which rule applies, and to how many characters, is up to a **scanner**.
What is expected of it is no more than that it takes the longest match, and among the rules that
match just as much one of the highest priority (`Scanner.TakesLongest`). Rules without a priority of
their own are given one by the scanner: a word has twice the priority of its length in bytes, and
nothing is said about runs (`Weighs`).

With a scanner at hand, `tokenize` reads a text to its end. A scanner that finds the longest match
by trying all rules is `munch`.
-/

namespace ProcessSpaces.Lexer

/-- What a rule looks for. -/
inductive Pattern where
  /-- A certain word. -/
  | word (w : String)
  /-- One or more characters of a certain sort. -/
  | run (p : Char → Bool)

/-- The characters are what the pattern looks for. -/
def Pattern.Matches : Pattern → List Char → Prop
  | word w, l => l = w.toList
  | run p, l => l ≠ [] ∧ ∀ c ∈ l, p c = true

/-- A rule for reading tokens. -/
structure Rule where
  /-- What the rule looks for. -/
  pattern : Pattern
  /-- The priority of the rule, if it is not left to the scanner. -/
  priority? : Option Nat
  /-- The token that characters stand for, or none if they are skipped. -/
  token? : String → Option Token

/-- The rule for a token with a reserved word. -/
def Rule.reserved (t : Token) : Rule := ⟨.word t.text, none, fun _ => some t⟩

/-- The rule for the words that name variables. Its priority is lower than that of any reserved
word. -/
def Rule.var : Rule := ⟨.run fun c => !Text.isBlank c, some 1, fun w => some (.var w)⟩

/-- The rule for blanks, which are skipped. -/
def Rule.blanks : Rule := ⟨.run Text.isBlank, none, fun _ => none⟩

/-- The rules of the language. -/
def rules : List Rule := Token.reserved.map Rule.reserved ++ [Rule.var, Rule.blanks]

/-! ### Scanners -/

/-- A choice of what to take from the front of a text. -/
structure Match (cs : List Char) where
  /-- The rule that applies. -/
  rule : Rule
  /-- The characters that are taken. -/
  lexeme : List Char
  /-- The characters that are left. -/
  rest : List Char
  /-- The characters that are taken stand in front of those that are left. -/
  append_eq : lexeme ++ rest = cs
  /-- Something is taken. -/
  ne_nil : lexeme ≠ []

theorem Match.length_rest_lt {cs : List Char} (m : Match cs) : m.rest.length < cs.length := by
  have hpos : 0 < m.lexeme.length := List.length_pos_iff.mpr m.ne_nil
  have hlength := congrArg List.length m.append_eq
  rw [List.length_append] at hlength
  omega

/-- A scanner finds out what to take from the front of a text, or else reports the characters with
which no rule can do anything. -/
abbrev Scanner := (cs : List Char) → Except String (Match cs)

/-- The priorities that rules have are as they should be. -/
structure Weighs (weight : Rule → Nat) : Prop where
  /-- A priority of the rule's own is heeded. -/
  own {r : Rule} {n : Nat} (h : r.priority? = some n) : weight r = n
  /-- Each byte of a word counts twice. -/
  word {r : Rule} {w : String} (h : r.priority? = none) (hw : r.pattern = .word w) :
    weight r = 2 * w.utf8ByteSize

/-- The scanner takes the longest match that there is among the rules, for a rule of the highest
priority, and fails only if there is none. -/
structure Scanner.TakesLongest (scan : Scanner) (rules : List Rule) (weight : Rule → Nat) :
    Prop where
  /-- What is taken is taken by one of the rules. -/
  mem {cs : List Char} {m : Match cs} (h : scan cs = .ok m) : m.rule ∈ rules
  /-- What is taken is what the rule looks for. -/
  matches_lexeme {cs : List Char} {m : Match cs} (h : scan cs = .ok m) :
    m.rule.pattern.Matches m.lexeme
  /-- No rule matches more. -/
  longest {cs l : List Char} {m : Match cs} {r : Rule} (h : scan cs = .ok m) (hr : r ∈ rules)
    (hfront : l <+: cs) (hl : r.pattern.Matches l) : l.length ≤ m.lexeme.length
  /-- No rule that matches the same has a higher priority. -/
  priority {cs : List Char} {m : Match cs} {r : Rule} (h : scan cs = .ok m) (hr : r ∈ rules)
    (hl : r.pattern.Matches m.lexeme) : weight r ≤ weight m.rule
  /-- Where the scanner fails, no rule matches anything. -/
  not_matches {cs l : List Char} {bad : String} {r : Rule} (h : scan cs = .error bad)
    (hr : r ∈ rules) (hfront : l <+: cs) (hne : l ≠ []) : ¬r.pattern.Matches l

/-! ### A scanner that tries all rules -/

/-- The most characters at the front of the text that the rule matches, if there are any. -/
def Rule.longest (r : Rule) (cs : List Char) : List Char :=
  match r.pattern with
  | .word w => if w.toList <+: cs then w.toList else []
  | .run p => cs.takeWhile p

theorem Rule.longest_append (r : Rule) (cs : List Char) :
    r.longest cs ++ cs.drop (r.longest cs).length = cs := by
  refine List.prefix_iff_eq_append.mp ?_
  rw [Rule.longest]
  split
  · split
    · assumption
    · exact ⟨cs, rfl⟩
  · exact ⟨_, List.takeWhile_append_dropWhile⟩

/-- What the rule can take from the front of the text, if anything. -/
def Rule.match? (r : Rule) (cs : List Char) : Option (Match cs) :=
  if h : r.longest cs ≠ [] then
    some ⟨r, r.longest cs, cs.drop (r.longest cs).length, r.longest_append cs, h⟩
  else none

/-- The scanner that tries all rules and takes the longest of their matches, and among those that
are equally long one of the highest priority. Where no rule matches it reports the first
character. -/
def munch (rules : List Rule) (weight : Rule → Nat) : Scanner := fun cs =>
  match (rules.filterMap fun r => r.match? cs).argmax
      fun m => toLex (m.lexeme.length, weight m.rule) with
  | some m => .ok m
  | none => .error (String.ofList (cs.take 1))

/-- The priority of a rule, which is its own if it has one. A run is taken for a word of a single
byte. -/
def Rule.weight (r : Rule) : Nat :=
  r.priority?.getD <| match r.pattern with
    | .word w => 2 * w.utf8ByteSize
    | .run _ => 2

/-! ### Reading to the end -/

/-- Reads the tokens of a text, of which those in `done` have been read before. Where the scanner
fails, the position of the error is that of the token which would have come next. -/
def tokenizeFrom (scan : Scanner) (done : List Token) (cs : List Char) :
    Except EvalError (List Token) :=
  match cs with
  | [] => .ok done
  | c :: cs =>
    match scan (c :: cs) with
    | .error bad => .error (.strayToken bad done.length)
    | .ok m => tokenizeFrom scan (done ++ (m.rule.token? (String.ofList m.lexeme)).toList) m.rest
termination_by cs.length
decreasing_by exact m.length_rest_lt

/-- Reads the tokens of a text. -/
def tokenize (scan : Scanner) (text : String) : Except EvalError (List Token) :=
  tokenizeFrom scan [] text.toList

end ProcessSpaces.Lexer
