import ProcessSpaces.Text.Ranges

/-!
# Blanks, words and lines

A character is **blank** if it has the property of white space: the control characters that
move the writing position, the space, and the other spaces and separators of Unicode. Blanks
alone decide how a text falls apart. Its **words** are its longest runs of characters that are
not blank (`words`), and a text is **trimmed** by dropping the blanks at both ends (`trim`).
The zero-width characters are not blank, although nothing of them can be seen.

A text without blanks is a single word, unless it is empty (`words_of_forall_not_blank`), and
a text of blanks has no word at all (`words_of_forall_blank`).
-/

namespace ProcessSpaces.Text

/-- The characters of white space. -/
def blanks : Ranges :=
  [(0x09, 0x0D), (0x20, 0x20), (0x85, 0x85), (0xA0, 0xA0), (0x1680, 0x1680), (0x2000, 0x200A),
   (0x2028, 0x2029), (0x202F, 0x202F), (0x205F, 0x205F), (0x3000, 0x3000)]

/-- Whether the character is white space. -/
def isBlank (c : Char) : Bool := blanks.holds c

/-! ### Words -/

/-- Puts a word, if there is one, in front of the words behind it. -/
def consWord (w : List Char) (ws : List (List Char)) : List (List Char) :=
  if w.isEmpty then ws else w :: ws

/-- Reads one more character in front of a text that opens with the word `s.1`, empty where it
opens with a blank, and goes on with the words `s.2`. -/
def wordStep (c : Char) (s : List Char × List (List Char)) : List Char × List (List Char) :=
  if isBlank c then ([], consWord s.1 s.2) else (c :: s.1, s.2)

/-- The words of a text in their order. -/
def words (cs : List Char) : List (List Char) :=
  let s := cs.foldr wordStep ([], [])
  consWord s.1 s.2

/-- Reading a word in front of a text lengthens the word that the text opens with. -/
theorem foldr_wordStep_of_forall_not_blank {w : List Char} (h : ∀ c ∈ w, isBlank c = false)
    (s : List Char × List (List Char)) : w.foldr wordStep s = (w ++ s.1, s.2) := by
  induction w with
  | nil => rfl
  | cons c w ih =>
    rw [List.foldr_cons, ih fun d hd => h d (List.mem_cons_of_mem c hd)]
    simp [wordStep, h c List.mem_cons_self]

theorem words_of_forall_not_blank {w : List Char} (h : ∀ c ∈ w, isBlank c = false)
    (hne : w ≠ []) : words w = [w] := by
  simp [words, foldr_wordStep_of_forall_not_blank h, consWord, hne]

/-- Reading blanks in front of a text closes the word that the text opens with. -/
theorem foldr_wordStep_of_forall_blank {g : List Char} (h : ∀ c ∈ g, isBlank c = true)
    (hne : g ≠ []) (s : List Char × List (List Char)) :
    g.foldr wordStep s = ([], consWord s.1 s.2) := by
  induction g with
  | nil => exact absurd rfl hne
  | cons c g ih =>
    have hg : ∀ d ∈ g, isBlank d = true := fun d hd => h d (List.mem_cons_of_mem c hd)
    rw [List.foldr_cons, wordStep, if_pos (h c List.mem_cons_self)]
    cases g with
    | nil => rfl
    | cons d g => rw [ih hg (List.cons_ne_nil d g)]; rfl

theorem words_of_forall_blank {g : List Char} (h : ∀ c ∈ g, isBlank c = true) :
    words g = [] := by
  cases g with
  | nil => rfl
  | cons c g => simp [words, foldr_wordStep_of_forall_blank h, consWord]

/-! ### Trimming and lines -/

/-- The text without the blanks at its two ends. -/
def trimChars (cs : List Char) : List Char :=
  ((cs.dropWhile isBlank).reverse.dropWhile isBlank).reverse

/-- The text without the blanks at its two ends. -/
def trim (s : String) : String := String.ofList (trimChars s.toList)

/-- Reads one more character in front of a text that falls into the line `s.1` and the lines
`s.2` behind it. -/
def lineStep (c : Char) (s : List Char × List (List Char)) : List Char × List (List Char) :=
  if c = '\n' then ([], s.1 :: s.2) else (c :: s.1, s.2)

/-- The lines of a text, which are what the line feeds leave between them. -/
def lines (cs : List Char) : List (List Char) :=
  let s := cs.foldr lineStep ([], [])
  s.1 :: s.2

end ProcessSpaces.Text
