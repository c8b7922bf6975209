import Mathlib.Data.List.TakeWhile
import Mathlib.Logic.Basic
import ProcessSpaces.Token

/-!
# Words, and the blanks between them

Blanks at the two ends of a text belong to no word. Trimming a text drops just such blanks, so a
text and what is left of it when it is trimmed have the same words (`Text.words_trimChars`), and
therefore the same tokens (`tokensOf_trim`): it makes no difference to the language whether an
expression is trimmed before it is read.

Blanks inside a text keep words apart. Where there is one, the words in front of it and those behind
it can be found separately (`Text.words_append_cons`). So if words are written down with gaps around
them (`Text.spread`), just these words are found again, however wide the gaps are
(`Text.words_spread`). And there is no other text: every text is its own words, with gaps of blanks
(`Text.exists_spread`). In particular a text has no words exactly if it is blank, and this is also
when trimming leaves nothing of it (`tokensOf_eq_nil_iff`, `Text.trim_eq_empty_iff`).
-/

namespace ProcessSpaces

namespace Text

variable {g g' cs ds m : List Char} {c : Char}

/-- Blanks in front of a text change nothing about its words. -/
theorem words_append_of_forall_blank_left (h : ∀ c ∈ g, isBlank c = true) (cs : List Char) :
    words (g ++ cs) = words cs := by
  rcases eq_or_ne g [] with rfl | hne
  · rfl
  · simp only [words]
    rw [List.foldr_append, foldr_wordStep_of_forall_blank h hne]
    rfl

/-- Blanks behind a text change nothing about its words. -/
theorem words_append_of_forall_blank_right (h : ∀ c ∈ g, isBlank c = true) (cs : List Char) :
    words (cs ++ g) = words cs := by
  rcases eq_or_ne g [] with rfl | hne
  · rw [List.append_nil]
  · simp only [words]
    rw [List.foldr_append, foldr_wordStep_of_forall_blank h hne]
    rfl

/-! ### Words behind one another -/

theorem consWord_append (w : List Char) (ws ws' : List (List Char)) :
    consWord w (ws ++ ws') = consWord w ws ++ ws' := by
  cases w <;> rfl

/-- The words behind a blank are not looked at when a text is read in front of it. -/
theorem foldr_wordStep_append (cs : List Char) (ws : List (List Char)) :
    cs.foldr wordStep ([], ws) =
      ((cs.foldr wordStep ([], [])).1, (cs.foldr wordStep ([], [])).2 ++ ws) := by
  induction cs with
  | nil => rfl
  | cons c cs ih =>
    rw [List.foldr_cons, ih, List.foldr_cons, wordStep, wordStep]
    split
    · rw [consWord_append]
    · rfl

/-- **A blank keeps words apart**: the words of a text are those in front of it and then those
behind it. -/
theorem words_append_cons (h : isBlank c = true) (cs ds : List Char) :
    words (cs ++ c :: ds) = words cs ++ words ds := by
  have hstep : (c :: ds).foldr wordStep ([], []) = ([], words ds) := by
    rw [List.foldr_cons, wordStep, if_pos h]
    rfl
  simp only [words]
  rw [List.foldr_append, hstep, foldr_wordStep_append, consWord_append]
  rfl

/-- A gap keeps words apart. -/
theorem words_append_append (h : ∀ c ∈ g, isBlank c = true) (hne : g ≠ []) (cs ds : List Char) :
    words (cs ++ (g ++ ds)) = words cs ++ words ds := by
  obtain ⟨c, g, rfl⟩ := List.exists_cons_of_ne_nil hne
  rw [List.cons_append, words_append_cons (h c List.mem_cons_self),
    words_append_of_forall_blank_left fun d hd => h d (List.mem_cons_of_mem c hd)]

/-! ### Words and gaps -/

/-- The characters form a word: there are some, and none of them is a blank. -/
structure IsWord (w : List Char) : Prop where
  /-- There are some. -/
  ne_nil : w ≠ []
  /-- None of them is a blank. -/
  not_blank : ∀ c ∈ w, isBlank c = false

instance (w : List Char) : Decidable (IsWord w) :=
  decidable_of_iff (w.isEmpty = false ∧ w.all (fun c => !isBlank c) = true) <| by
    constructor
    · rintro ⟨hne, hall⟩
      exact ⟨List.isEmpty_eq_false_iff.mp hne, by simpa using hall⟩
    · rintro ⟨hne, hall⟩
      exact ⟨List.isEmpty_eq_false_iff.mpr hne, by simpa using hall⟩

theorem IsWord.words_eq {w : List Char} (h : IsWord w) : words w = [w] :=
  words_of_forall_not_blank h.not_blank h.ne_nil

/-- The text in which each of the words is followed by its gap, behind a gap in front of all. -/
def spread (front : List Char) (l : List (List Char × List Char)) : List Char :=
  front ++ l.flatMap fun p => p.1 ++ p.2

/-- The gaps keep words apart: they consist of blanks, and none of them is empty but the one in
front of all words and the one behind the last. -/
structure Separates (front : List Char) (gaps : List (List Char)) : Prop where
  /-- The gap in front consists of blanks. -/
  blank_front : ∀ c ∈ front, isBlank c = true
  /-- The gaps behind the words consist of blanks. -/
  blank : ∀ g ∈ gaps, ∀ c ∈ g, isBlank c = true
  /-- The gaps between words are not empty. -/
  ne_nil : ∀ g ∈ gaps.dropLast, g ≠ []

instance (front : List Char) (gaps : List (List Char)) : Decidable (Separates front gaps) :=
  decidable_of_iff (front.all isBlank = true ∧ gaps.all (fun g => g.all isBlank) = true ∧
      gaps.dropLast.all (fun g => !g.isEmpty) = true) <| by
    constructor
    · rintro ⟨hfront, hblank, hne⟩
      exact ⟨by simpa using hfront, by simpa using hblank, by simpa using hne⟩
    · rintro ⟨hfront, hblank, hne⟩
      exact ⟨by simpa using hfront, by simpa using hblank, by simpa using hne⟩

variable {front : List Char} {l : List (List Char × List Char)}

/-- **Words with gaps around them are found again**, however wide the gaps are. -/
theorem words_spread (hgaps : Separates front (l.map Prod.snd)) (hw : ∀ p ∈ l, IsWord p.1) :
    words (spread front l) = l.map Prod.fst := by
  obtain ⟨hfront, hblank, hne⟩ := hgaps
  rw [spread, words_append_of_forall_blank_left hfront]
  induction l with
  | nil => rfl
  | cons p l ih =>
    obtain ⟨w, g⟩ := p
    have hword : IsWord w := hw _ List.mem_cons_self
    have hg : ∀ c ∈ g, isBlank c = true := hblank g List.mem_cons_self
    rw [List.flatMap_cons, List.append_assoc]
    cases l with
    | nil =>
      -- the gap behind the last word may be empty
      rw [List.flatMap_nil, List.append_nil, words_append_of_forall_blank_right hg, hword.words_eq]
      rfl
    | cons q l =>
      have hgne : g ≠ [] := hne g List.mem_cons_self
      have hrest := ih (fun q' hq' => hw q' (List.mem_cons_of_mem _ hq'))
        (fun g' hg' => hblank g' (List.mem_cons_of_mem _ hg'))
        (fun g' hg' => hne g' (List.mem_cons_of_mem _ hg'))
      rw [words_append_append hg hgne, hword.words_eq, hrest]
      rfl

/-- **Every text is made of words and gaps.** -/
theorem exists_spread (cs : List Char) :
    ∃ front l, cs = spread front l ∧ Separates front (l.map Prod.snd) ∧ ∀ p ∈ l, IsWord p.1 := by
  induction cs with
  | nil => exact ⟨[], [], rfl, ⟨by simp, by simp, by simp⟩, by simp⟩
  | cons c cs ih =>
    obtain ⟨front, l, rfl, ⟨hfront, hblank, hne⟩, hw⟩ := ih
    by_cases hc : isBlank c = true
    · -- a blank widens the gap in front
      exact ⟨c :: front, l, rfl, ⟨List.forall_mem_cons.mpr ⟨hc, hfront⟩, hblank, hne⟩, hw⟩
    · rw [Bool.not_eq_true] at hc
      cases l with
      | nil =>
        refine ⟨[], [([c], front)], by simp [spread], ⟨by simp, ?_, by simp⟩, ?_⟩
        · simpa using hfront
        · simpa using IsWord.mk (List.cons_ne_nil c []) (by simpa using hc)
      | cons p l =>
        obtain ⟨w, g⟩ := p
        obtain ⟨hword, hw⟩ := List.forall_mem_cons.mp hw
        cases front with
        | nil =>
          -- the text opens with a word, which becomes longer
          refine ⟨[], (c :: w, g) :: l, rfl, ⟨hfront, hblank, hne⟩,
            List.forall_mem_cons.mpr ⟨⟨List.cons_ne_nil c w, ?_⟩, hw⟩⟩
          exact List.forall_mem_cons.mpr ⟨hc, hword.not_blank⟩
        | cons d front =>
          -- the text opens with a gap, and the character is a word in front of it
          refine ⟨[], ([c], d :: front) :: (w, g) :: l, by simp [spread],
            ⟨by simp, List.forall_mem_cons.mpr ⟨hfront, hblank⟩, ?_⟩, ?_⟩
          · exact List.forall_mem_cons.mpr ⟨List.cons_ne_nil d front, hne⟩
          · exact List.forall_mem_cons.mpr
              ⟨⟨List.cons_ne_nil c [], by simpa using hc⟩, List.forall_mem_cons.mpr ⟨hword, hw⟩⟩

/-- The words of a text are words. -/
theorem isWord_of_mem_words {w : List Char} (h : w ∈ words cs) : IsWord w := by
  obtain ⟨front, l, rfl, hgaps, hw⟩ := exists_spread cs
  rw [words_spread hgaps hw] at h
  obtain ⟨p, hp, rfl⟩ := List.mem_map.mp h
  exact hw p hp

/-- A text has no words exactly if all of it is blank. -/
theorem words_eq_nil_iff : words cs = [] ↔ ∀ c ∈ cs, isBlank c = true := by
  constructor
  · intro h
    obtain ⟨front, l, rfl, hgaps, hw⟩ := exists_spread cs
    rw [words_spread hgaps hw, List.map_eq_nil_iff] at h
    rw [h, spread, List.flatMap_nil, List.append_nil]
    exact hgaps.blank_front
  · exact words_of_forall_blank

/-- Words that are written with single blanks between them are found again. -/
theorem words_intercalate {sep : Char} (hsep : isBlank sep = true) {ws : List (List Char)}
    (h : ∀ w ∈ ws, IsWord w) : words ([sep].intercalate ws) = ws := by
  induction ws with
  | nil => rfl
  | cons w ws ih =>
    obtain ⟨hw, hws⟩ := List.forall_mem_cons.mp h
    cases ws with
    | nil => rw [List.intercalate_singleton, hw.words_eq]
    | cons w' ws =>
      rw [List.intercalate_cons_cons, List.append_assoc, List.singleton_append,
        words_append_cons hsep, hw.words_eq, ih hws]
      rfl

/-! ### Trimming -/

/-- A text is what trimming leaves of it, between blanks. -/
theorem exists_eq_append_trimChars_append (cs : List Char) :
    ∃ g g', cs = g ++ trimChars cs ++ g' ∧ (∀ c ∈ g, isBlank c = true) ∧
      ∀ c ∈ g', isBlank c = true := by
  refine ⟨cs.takeWhile isBlank, ((cs.dropWhile isBlank).reverse.takeWhile isBlank).reverse,
    ?_, fun c hc => List.mem_takeWhile_imp hc, fun c hc => ?_⟩
  · -- the blanks at the end are those at the beginning of the reversed text
    rw [trimChars, List.append_assoc, ← List.reverse_append, List.takeWhile_append_dropWhile,
      List.reverse_reverse, List.takeWhile_append_dropWhile]
  · exact List.mem_takeWhile_imp (List.mem_reverse.mp hc)

/-- **Trimming a text leaves its words as they are.** -/
theorem words_trimChars (cs : List Char) : words (trimChars cs) = words cs := by
  obtain ⟨g, g', hcs, hg, hg'⟩ := exists_eq_append_trimChars_append cs
  calc words (trimChars cs) = words (g ++ trimChars cs) :=
        (words_append_of_forall_blank_left hg _).symm
    _ = words (g ++ trimChars cs ++ g') := (words_append_of_forall_blank_right hg' _).symm
    _ = words cs := by rw [← hcs]

/-- There is no blank at either end of the text. -/
structure Trimmed (cs : List Char) : Prop where
  /-- The first character is not a blank. -/
  head : ∀ c ∈ cs.head?, isBlank c = false
  /-- The last character is not a blank. -/
  last : ∀ c ∈ cs.getLast?, isBlank c = false

/-- Dropping blanks drops those in front of a text that does not begin with one. -/
theorem dropWhile_append_of_head? (hg : ∀ c ∈ g, isBlank c = true)
    (hm : ∀ c ∈ m.head?, isBlank c = false) : (g ++ m).dropWhile isBlank = m := by
  rw [List.dropWhile_append_of_pos hg]
  cases m with
  | nil => rfl
  | cons c m =>
    have hc : isBlank c = false := hm c rfl
    rw [List.dropWhile_cons_of_neg]
    rw [hc]
    exact Bool.false_ne_true

/-- **Trimming drops the blanks around a trimmed text.** -/
theorem Trimmed.trimChars_append (hm : Trimmed m) (hg : ∀ c ∈ g, isBlank c = true)
    (hg' : ∀ c ∈ g', isBlank c = true) : trimChars (g ++ m ++ g') = m := by
  obtain ⟨hhead, hlast⟩ := hm
  cases m with
  | nil =>
    have hblank : ∀ c ∈ g ++ [] ++ g', isBlank c = true := by
      simpa [or_imp, forall_and] using ⟨hg, hg'⟩
    rw [trimChars, List.dropWhile_eq_nil_iff.mpr hblank]
    rfl
  | cons c m =>
    have hhead' : ∀ d ∈ (c :: m ++ g').head?, isBlank d = false := hhead
    have hg'' : ∀ d ∈ g'.reverse, isBlank d = true := fun d hd => hg' d (List.mem_reverse.mp hd)
    rw [← List.head?_reverse] at hlast
    rw [trimChars, List.append_assoc, dropWhile_append_of_head? hg hhead', List.reverse_append,
      dropWhile_append_of_head? hg'' hlast, List.reverse_reverse]

/-- What trimming leaves is trimmed. -/
theorem trimmed_trimChars (cs : List Char) : Trimmed (trimChars cs) where
  head c hc := by
    -- what trimming leaves is the beginning of what is left without the blanks in front
    have hfront : cs.dropWhile isBlank =
        trimChars cs ++ ((cs.dropWhile isBlank).reverse.takeWhile isBlank).reverse := by
      rw [trimChars, ← List.reverse_append, List.takeWhile_append_dropWhile, List.reverse_reverse]
    have h := List.head?_dropWhile_not isBlank cs
    rwa [hfront, List.head?_append, Option.mem_def.mp hc] at h
  last c hc := by
    rw [trimChars, List.getLast?_reverse] at hc
    have h := List.head?_dropWhile_not isBlank (cs.dropWhile isBlank).reverse
    rwa [Option.mem_def.mp hc] at h

/-- Blanks around a text do not count when it is trimmed. -/
theorem trimChars_append_append (hg : ∀ c ∈ g, isBlank c = true)
    (hg' : ∀ c ∈ g', isBlank c = true) (cs : List Char) :
    trimChars (g ++ cs ++ g') = trimChars cs := by
  obtain ⟨f, f', hcs, hf, hf'⟩ := exists_eq_append_trimChars_append cs
  have hgf : ∀ c ∈ g ++ f, isBlank c = true := List.forall_mem_append.mpr ⟨hg, hf⟩
  have hfg : ∀ c ∈ f' ++ g', isBlank c = true := List.forall_mem_append.mpr ⟨hf', hg'⟩
  have hsplit : g ++ cs ++ g' = g ++ f ++ trimChars cs ++ (f' ++ g') := by
    calc g ++ cs ++ g' = g ++ (f ++ trimChars cs ++ f') ++ g' := by rw [← hcs]
      _ = g ++ f ++ trimChars cs ++ (f' ++ g') := by simp only [List.append_assoc]
  rw [hsplit, (trimmed_trimChars cs).trimChars_append hgf hfg]

/-- Trimming leaves nothing exactly if all of a text is blank. -/
theorem trimChars_eq_nil_iff : trimChars cs = [] ↔ ∀ c ∈ cs, isBlank c = true := by
  constructor
  · intro h
    rw [← words_eq_nil_iff, ← words_trimChars, h]
    rfl
  · intro h
    have htrim := trimChars_append_append h (List.forall_mem_nil _) []
    rw [List.append_nil, List.append_nil] at htrim
    exact htrim

/-! ### Blank texts -/

/-- The text consists of blanks. -/
def Blank (s : String) : Prop := ∀ c ∈ s.toList, isBlank c = true

instance (s : String) : Decidable (Blank s) :=
  decidable_of_iff (s.toList.all isBlank = true) List.all_eq_true

/-- Trimming leaves nothing of a blank text, and something of any other. -/
theorem trim_eq_empty_iff {s : String} : trim s = "" ↔ Blank s := by
  rw [trim, String.ofList_eq_empty_iff, trimChars_eq_nil_iff, Blank]

theorem isEmpty_trim_iff {s : String} : (trim s).isEmpty = true ↔ Blank s := by
  rw [String.isEmpty_iff, trim_eq_empty_iff]

/-- What trimming leaves is trimmed. -/
theorem trimmed_trim (s : String) : Trimmed (trim s).toList := by
  rw [trim, String.toList_ofList]
  exact trimmed_trimChars s.toList

/-- A text is trimmed but once. -/
theorem trim_trim (s : String) : trim (trim s) = trim s := by
  have hnil : ∀ c ∈ ([] : List Char), isBlank c = true := List.forall_mem_nil _
  have htrim := (trimmed_trim s).trimChars_append hnil hnil
  rw [List.nil_append, List.append_nil] at htrim
  rw [trim, htrim, String.ofList_toList]

/-- Blank texts around a text do not count when it is trimmed. -/
theorem trim_append_append {front back : String} (hfront : Blank front) (hback : Blank back)
    (s : String) : trim (front ++ s ++ back) = trim s := by
  rw [trim, String.toList_append, String.toList_append, trimChars_append_append hfront hback, trim]

end Text

/-- **Trimming an expression leaves its tokens as they are.** -/
theorem tokensOf_trim (e : String) : tokensOf (Text.trim e) = tokensOf e := by
  rw [tokensOf, tokensOf, Text.trim, String.toList_ofList, Text.words_trimChars]

/-- The empty text has no tokens. -/
theorem tokensOf_empty : tokensOf "" = [] := rfl

/-- A blank keeps tokens apart: the tokens of a text are those in front of it and then those behind
it. -/
theorem tokensOf_append_cons {c : Char} (h : Text.isBlank c = true) (cs ds : List Char) :
    tokensOf (String.ofList (cs ++ c :: ds)) =
      tokensOf (String.ofList cs) ++ tokensOf (String.ofList ds) := by
  simp only [tokensOf, String.toList_ofList, Text.words_append_cons h, List.map_append]

/-- A gap keeps tokens apart. -/
theorem tokensOf_append_append {gap : String} (h : Text.Blank gap) (hne : gap ≠ "")
    (front back : String) : tokensOf (front ++ gap ++ back) = tokensOf front ++ tokensOf back := by
  have hne' : gap.toList ≠ [] := mt String.toList_eq_nil_iff.mp hne
  simp only [tokensOf, String.toList_append, List.append_assoc]
  rw [Text.words_append_append h hne', List.map_append]

/-- The texts without tokens are the blank ones. -/
theorem tokensOf_eq_nil_iff {s : String} : tokensOf s = [] ↔ Text.Blank s := by
  rw [tokensOf, List.map_eq_nil_iff, Text.words_eq_nil_iff, Text.Blank]

end ProcessSpaces
