import ProcessSpaces.Operator
import ProcessSpaces.Text.Blank

/-!
# Tokens

An expression is a row of tokens, each of which announces what it needs: a constant or a
variable nothing, an operator its one or two operands. Eighteen words are reserved for the
constants and the operators (`Token.reserved`), and every other word names a variable
(`Token.ofWord`). A reserved word reads back from its text, so `Token.text` and `Token.ofWord`
are inverse to one another wherever a token can have come from a word.

Besides these there is the gap between two words, which begins no expression. It never comes
out of a text (`tokensOf`): the words of a text are all that is looked at, and no text is
refused at this stage.
-/

namespace ProcessSpaces

/-- A token of an expression. -/
inductive Token where
  /-- One of the three constants. -/
  | constant (a : Truth)
  /-- A variable. -/
  | var (name : String)
  /-- An operator of one operand. -/
  | unary (op : UnaryOp)
  /-- An operator of two operands. -/
  | binary (op : BinaryOp)
  /-- The gap between two words. -/
  | gap
deriving DecidableEq, Repr

/-- The reserved word for a truth value. -/
def Truth.word : Truth → String
  | reject => "bot"
  | grant => "phi"
  | neutral => "top"

namespace Token

/-- The token as it is written. -/
def text : Token → String
  | constant a => a.word
  | var name => name
  | unary op => op.text
  | binary op => op.text
  | gap => " "

/-- The name of a variable. -/
def name? : Token → Option String
  | var name => some name
  | _ => none

/-- How many operands the token needs. -/
def arity : Token → Nat
  | unary _ => 1
  | binary _ => 2
  | _ => 0

/-- The tokens with a word of their own. -/
def reserved : List Token :=
  UnaryOp.all.map unary ++ BinaryOp.all.map binary ++ Truth.all.map constant

/-- The token that a word stands for: the one it is reserved for, or else a variable. -/
def ofWord (word : String) : Token :=
  (reserved.find? fun t => t.text = word).getD (var word)

/-- A reserved word stands for its token. -/
theorem ofWord_text_of_mem_reserved : ∀ t ∈ reserved, ofWord t.text = t := by
  decide

/-- A word that is not reserved names a variable. -/
theorem ofWord_of_forall_ne {word : String} (h : ∀ t ∈ reserved, t.text ≠ word) :
    ofWord word = var word := by
  have : (reserved.find? fun t => t.text = word) = none := by
    simpa [List.find?_eq_none] using h
  simp [ofWord, this]

end Token

/-- The tokens that the words of a text stand for. -/
def tokensOf (text : String) : List Token :=
  (Text.words text.toList).map fun w => Token.ofWord (String.ofList w)

/-- The distinct names of the variables among the tokens, in the order in which they first
occur. -/
def variablesOf (tokens : List Token) : List String :=
  (tokens.filterMap Token.name?).foldl (fun names x => if x ∈ names then names else names ++ [x]) []

end ProcessSpaces
