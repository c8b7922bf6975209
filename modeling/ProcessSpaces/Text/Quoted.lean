import ProcessSpaces.Text.Unprinted

/-!
# Quoted texts

A quoted text stands between double quotes and shows every character it holds. The quote
itself and the backslash are written behind a backslash, the four most common control
characters have a letter each, and any other character that would not show on its own is
written as its code point in hexadecimal digits, between braces.
-/

namespace ProcessSpaces.Text

/-- A character as it stands in a quoted text. -/
def escape (c : Char) : String :=
  match c with
  | '\x00' => "\\0"
  | '\t' => "\\t"
  | '\r' => "\\r"
  | '\n' => "\\n"
  | '"' => "\\\""
  | '\\' => "\\\\"
  | c =>
    if isUnprinted c then
      "\\u\x7b" ++ String.ofList (Nat.toDigits 16 c.toNat) ++ "\x7d"
    else
      c.toString

/-- The text between quotes. -/
def quote (s : String) : String :=
  "\"" ++ String.join (s.toList.map escape) ++ "\""

/-- The texts between quotes, in brackets. -/
def quoteList (l : List String) : String :=
  "[" ++ ", ".intercalate (l.map quote) ++ "]"

end ProcessSpaces.Text
