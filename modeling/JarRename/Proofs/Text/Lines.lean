import JarRename.Text.Blank
import Mathlib.Data.List.Basic
import Mathlib.Data.List.TakeWhile

/-!
**Texts put together from pieces, lines and words.**

Cutting a text at a class of characters gives back the pieces it was put together from, if none of them has such a
character. So lines and words are read back from where they were written.

* `pieces_cons`, `pieces_append`: pieces one by one;
* `pieces_intercalate`: pieces with a cut between any two of them;
* `lines_ended`: the lines of a text in which every line is ended;
* `exists_pieces`, `filterMap_lines`: the lines of a text as pieces between line feeds;
* `words_at_blank`: the words on both sides of white space;
* `words_spaced`: the words of a line, with a space between any two of them;
* `words_trimEnd`, `head?_trimEnd`, `trimEnd_append_cons`: a text without the white space at its end;
* `mem_words_of_occursIn`: a word found between spaces;
* `dropStart?_eq_some`, `dropEnd?_eq_some`: what stands at the start and at the end of a text;
* `splitLast?_append`, `afterLast_append`: a text cut at the last occurrence of a character, and what follows it;
* `exists_beforeLast`, `afterLast_append_of_mem`: where the last occurrence is.
-/

namespace JarRename.Text

variable {isCut : Char → Bool} {text : List Char}

/-! ### Pieces -/

theorem pieces_eq (isCut : Char → Bool) (text : List Char) :
    pieces isCut text = (cut isCut text).1 :: (cut isCut text).2 := rfl

/-- The pieces of a text with one character more in front. -/
theorem pieces_cons (isCut : Char → Bool) (c : Char) (text : List Char) :
    pieces isCut (c :: text) =
      if isCut c then [] :: pieces isCut text else (c :: (cut isCut text).1) :: (cut isCut text).2 := by
  rw [pieces_eq, pieces_eq, cut, List.foldr_cons, ← cut]
  split_ifs <;> rfl

/-- The last piece of a text that does not end at a cut has characters. -/
theorem getLast?_pieces (filled : text ≠ []) (uncut : ∀ c, text.getLast? = some c → isCut c = false) :
    ∃ c rest, (pieces isCut text).getLast? = some (c :: rest) := by
  induction text with
  | nil => exact absurd rfl filled
  | cons c text ih =>
    rw [pieces_cons]
    by_cases alone : text = []
    · subst alone
      rw [uncut c rfl]
      exact ⟨c, [], rfl⟩
    · obtain ⟨d, rest, last⟩ := ih alone fun e found => uncut e (by rw [List.getLast?_cons_of_ne_nil alone, found])
      rw [pieces_eq] at last ⊢
      by_cases isAtCut : isCut c = true
      · rw [if_pos isAtCut]
        exact ⟨d, rest, last⟩
      · rw [if_neg isAtCut]
        cases later : (cut isCut text).2 with
        | nil => exact ⟨c, _, rfl⟩
        | cons second others =>
          rw [later] at last
          exact ⟨d, rest, last⟩

/-- A piece in front of a text makes its first piece longer. -/
theorem pieces_append {piece : List Char} (uncut : ∀ c ∈ piece, isCut c = false) (text : List Char) :
    pieces isCut (piece ++ text) = (piece ++ (cut isCut text).1) :: (cut isCut text).2 := by
  induction piece with
  | nil => rfl
  | cons c piece ih =>
    obtain ⟨here, later⟩ := List.forall_mem_cons.mp uncut
    have rest := ih later
    rw [pieces_eq, List.cons.injEq] at rest
    rw [List.cons_append, pieces_cons, here, if_neg Bool.false_ne_true, rest.1, rest.2]
    rfl

/-- A text without a cut is its only piece. -/
theorem pieces_of_uncut {piece : List Char} (uncut : ∀ c ∈ piece, isCut c = false) : pieces isCut piece = [piece] := by
  have whole := pieces_append uncut []
  rwa [List.append_nil, cut, List.foldr_nil, List.append_nil] at whole

/-- **A cut** ends the pieces in front of it. -/
theorem pieces_at_cut {c : Char} (isAtCut : isCut c = true) (before text : List Char) :
    pieces isCut (before ++ c :: text) = pieces isCut before ++ pieces isCut text := by
  induction before with
  | nil =>
    rw [List.nil_append, pieces_cons, if_pos isAtCut]
    rfl
  | cons d before ih =>
    rw [List.cons_append, pieces_cons, pieces_cons]
    rw [pieces_eq isCut (before ++ c :: text), pieces_eq isCut before, List.cons_append, List.cons.injEq] at ih
    split_ifs
    · rw [List.cons_append, pieces_eq isCut (before ++ c :: text), ih.1, ih.2, pieces_eq isCut before, List.cons_append]
    · rw [ih.1, ih.2, List.cons_append]

/-- A piece that is cut off comes before the pieces behind it. -/
theorem pieces_append_cut {piece : List Char} (uncut : ∀ c ∈ piece, isCut c = false) {c : Char}
    (isAtCut : isCut c = true) (text : List Char) :
    pieces isCut (piece ++ c :: text) = piece :: pieces isCut text := by
  rw [pieces_at_cut isAtCut, pieces_of_uncut uncut, List.singleton_append]

/-- A character that is no cut stands in a piece. -/
theorem exists_piece {c : Char} (member : c ∈ text) (uncut : isCut c = false) :
    ∃ piece ∈ pieces isCut text, c ∈ piece := by
  induction text with
  | nil => cases member
  | cons d text ih =>
    rw [pieces_cons]
    rcases List.mem_cons.mp member with rfl | later
    · rw [uncut, if_neg Bool.false_ne_true]
      exact ⟨_, List.mem_cons_self, List.mem_cons_self⟩
    · obtain ⟨piece, listed, inside⟩ := ih later
      split_ifs
      · exact ⟨piece, List.mem_cons_of_mem _ listed, inside⟩
      · rw [pieces_eq] at listed
        rcases List.mem_cons.mp listed with rfl | behind
        · exact ⟨_, List.mem_cons_self, List.mem_cons_of_mem d inside⟩
        · exact ⟨piece, List.mem_cons_of_mem _ behind, inside⟩

/-- No piece has a cut. -/
theorem uncut_of_mem_pieces {piece : List Char} (listed : piece ∈ pieces isCut text) : ∀ c ∈ piece, isCut c = false := by
  induction text generalizing piece with
  | nil =>
    cases List.mem_singleton.mp listed
    exact nofun
  | cons d text ih =>
    rw [pieces_eq] at ih
    obtain ⟨here, later⟩ := List.forall_mem_cons.mp fun piece => @ih piece
    rw [pieces_cons] at listed
    by_cases isAtCut : isCut d = true
    · rw [if_pos isAtCut] at listed
      rcases List.mem_cons.mp listed with rfl | behind
      · exact nofun
      · exact ih behind
    · rw [if_neg isAtCut] at listed
      rcases List.mem_cons.mp listed with rfl | behind
      · exact List.forall_mem_cons.mpr ⟨by simpa using isAtCut, here⟩
      · exact later piece behind

/-- **Pieces are read back** from where they stand, with a cut between any two of them. -/
theorem pieces_intercalate {mark : Char} {all : List (List Char)} (filled : all ≠ [])
    (uncut : ∀ piece ∈ all, mark ∉ piece) : pieces (· == mark) (List.intercalate [mark] all) = all := by
  induction all with
  | nil => exact absurd rfl filled
  | cons piece rest ih =>
    obtain ⟨here, later⟩ := List.forall_mem_cons.mp uncut
    have plain : ∀ c ∈ piece, (c == mark) = false := fun c member => beq_false_of_ne (ne_of_mem_of_not_mem member here)
    cases rest with
    | nil => rw [List.intercalate_singleton, pieces_of_uncut plain]
    | cons next others =>
      rw [List.intercalate_cons_cons, List.append_assoc, List.singleton_append, pieces_append_cut plain (beq_self_eq_true mark),
        ih (List.cons_ne_nil _ _) later]

/-! ### Lines -/

/-- The text of lines that are all ended. -/
def ended (all : List (List Char)) : List Char :=
  all.flatMap (· ++ ['\n'])

/-- The pieces of ended lines are the lines and what is left behind the last of them. -/
theorem pieces_ended {all : List (List Char)} (unbroken : ∀ line ∈ all, '\n' ∉ line) :
    pieces (· == '\n') (ended all) = all ++ [[]] := by
  induction all with
  | nil => rfl
  | cons line rest ih =>
    obtain ⟨here, later⟩ := List.forall_mem_cons.mp unbroken
    have uncut : ∀ c ∈ line, (c == '\n') = false := by
      intro c member
      exact beq_false_of_ne (ne_of_mem_of_not_mem member here)
    have opened : ended (line :: rest) = line ++ '\n' :: ended rest := by
      rw [ended, List.flatMap_cons, List.append_assoc]
      rfl
    rw [opened, pieces_append_cut uncut rfl, ih later]
    rfl

/-- **Lines are read back**, unless they have a line feed or end with a carriage return. -/
theorem lines_ended {all : List (List Char)} (unbroken : ∀ line ∈ all, '\n' ∉ line)
    (bare : ∀ line ∈ all, line.getLast? ≠ some '\r') : lines (ended all) = all := by
  have kept : all.map dropCarriageReturn = all := by
    refine (List.map_congr_left fun line member => ?_).trans (List.map_id all)
    rw [dropCarriageReturn, if_neg (bare line member), id]
  unfold lines
  simp only [pieces_ended unbroken, List.dropLast_concat, List.getLast?_concat, kept]

/-- The lines of a text are the pieces between line feeds, but the last one is left out if it is empty. -/
theorem exists_pieces (text : List Char) : ∃ front last, pieces (· == '\n') text = front ++ [last] ∧
    lines text = front.map dropCarriageReturn ++ if last = [] then [] else [last] := by
  unfold lines
  rcases List.eq_nil_or_concat' (pieces (· == '\n') text) with empty | ⟨front, last, whole⟩
  · cases empty
  · refine ⟨front, last, whole, ?_⟩
    rw [whole]
    cases last <;> simp

/-- What is read from lines one by one is read from the pieces between line feeds, if it does not depend on a carriage
return and nothing is read from an empty line. -/
theorem filterMap_lines {find : List Char × Nat → Option β} (nothing : ∀ number, find ([], number) = none)
    (ended : ∀ line number, find (dropCarriageReturn line, number) = find (line, number)) (text : List Char)
    (start : Nat) :
    ((lines text).zipIdx start).filterMap find = ((pieces (· == '\n') text).zipIdx start).filterMap find := by
  obtain ⟨front, last, pieces, lines⟩ := exists_pieces text
  have fronts : ((front.map dropCarriageReturn).zipIdx start).filterMap find = (front.zipIdx start).filterMap find := by
    rw [List.zipIdx_map, List.filterMap_map]
    refine List.filterMap_congr ?_
    rintro ⟨line, number⟩ -
    exact ended line number
  rw [pieces, lines, List.zipIdx_append, List.zipIdx_append, List.filterMap_append, List.filterMap_append, fronts]
  split_ifs with empty
  · simp [empty, nothing]
  · simp

/-- The same without numbers. -/
theorem filterMap_lines_unnumbered {find : List Char → Option β} (nothing : find [] = none)
    (ended : ∀ line, find (dropCarriageReturn line) = find line) (text : List Char) :
    (lines text).filterMap find = (pieces (· == '\n') text).filterMap find := by
  have numbered := @filterMap_lines _ (find ∘ Prod.fst) (fun _ => nothing) (fun line _ => ended line) text 0
  rwa [← List.filterMap_map, ← List.filterMap_map, List.zipIdx_map_fst, List.zipIdx_map_fst] at numbered

/-! ### Words -/

/-- Words with a space between any two of them. -/
def spaced (words : List (List Char)) : List Char :=
  List.intercalate [' '] words

/-- **White space ends a word.** What is known of the words of a text comes from this equation. -/
theorem words_at_blank {c : Char} (blank : isBlank c = true) (before text : List Char) :
    words (before ++ c :: text) = words before ++ words text := by
  rw [words, pieces_at_cut blank, List.filter_append, words, words]

/-- White space in front of a text is between no words. -/
theorem words_cons {c : Char} (blank : isBlank c = true) (text : List Char) : words (c :: text) = words text :=
  words_at_blank blank [] text

/-- White space has no words. -/
theorem words_of_blank (blank : ∀ c ∈ text, isBlank c = true) : words text = [] := by
  induction text with
  | nil => rfl
  | cons c text ih =>
    obtain ⟨here, later⟩ := List.forall_mem_cons.mp blank
    rw [words_cons here, ih later]

/-- White space behind a text is between no words. -/
theorem words_append_blank {blanks : List Char} (blank : ∀ c ∈ blanks, isBlank c = true) (text : List Char) :
    words (text ++ blanks) = words text := by
  cases blanks with
  | nil => rw [List.append_nil]
  | cons c blanks =>
    obtain ⟨here, later⟩ := List.forall_mem_cons.mp blank
    rw [words_at_blank here, words_of_blank later, List.append_nil]

/-- A text without white space is its only word. -/
theorem words_of_unblank {word : List Char} (filled : word ≠ []) (unblank : ∀ c ∈ word, isBlank c = false) :
    words word = [word] := by
  rw [words, pieces_of_uncut unblank]
  simpa using filled

/-- A character that is no white space stands in a word. -/
theorem exists_word {c : Char} (member : c ∈ text) (unblank : isBlank c = false) : ∃ word ∈ words text, c ∈ word := by
  obtain ⟨word, listed, inside⟩ := exists_piece member unblank
  refine ⟨word, List.mem_filter.mpr ⟨listed, ?_⟩, inside⟩
  simpa using List.ne_nil_of_mem inside

/-- **Words are read back** from a line. -/
theorem words_spaced {all : List (List Char)} (filled : ∀ word ∈ all, word ≠ [])
    (unblank : ∀ word ∈ all, ∀ c ∈ word, isBlank c = false) : words (spaced all) = all := by
  induction all with
  | nil => rfl
  | cons word rest ih =>
    obtain ⟨filledHere, filledLater⟩ := List.forall_mem_cons.mp filled
    obtain ⟨unblankHere, unblankLater⟩ := List.forall_mem_cons.mp unblank
    cases rest with
    | nil => rw [spaced, List.intercalate_singleton, words_of_unblank filledHere unblankHere]
    | cons next others =>
      have opened : spaced (word :: next :: others) = word ++ ' ' :: spaced (next :: others) := by
        rw [spaced, List.intercalate_cons_cons, List.append_assoc]
        rfl
      rw [opened, words_at_blank (by decide), words_of_unblank filledHere unblankHere, ih filledLater unblankLater,
        List.singleton_append]

/-- A character of a line is that of a word or a space. -/
theorem mem_spaced {all : List (List Char)} {c : Char} (member : c ∈ spaced all) :
    c = ' ' ∨ ∃ word ∈ all, c ∈ word := by
  induction all with
  | nil => cases member
  | cons word rest ih =>
    cases rest with
    | nil =>
      rw [spaced, List.intercalate_singleton] at member
      exact .inr ⟨word, List.mem_cons_self, member⟩
    | cons next others =>
      rw [spaced, List.intercalate_cons_cons, List.mem_append, List.mem_append, List.mem_singleton] at member
      rcases member with (here | space) | later
      · exact .inr ⟨word, List.mem_cons_self, here⟩
      · exact .inl space
      · refine (ih later).imp_right ?_
        rintro ⟨other, inside, found⟩
        exact ⟨other, List.mem_cons_of_mem _ inside, found⟩

/-- A line ends as its last word does. -/
theorem getLast?_spaced {all : List (List Char)} {last : List Char} (ends : all.getLast? = some last)
    (filled : last ≠ []) : (spaced all).getLast? = last.getLast? := by
  induction all with
  | nil => cases ends
  | cons word rest ih =>
    cases rest with
    | nil =>
      rw [List.getLast?_singleton, Option.some.injEq] at ends
      rw [spaced, List.intercalate_singleton, ends]
    | cons next others =>
      have later := ih (by rwa [List.getLast?_cons_of_ne_nil (by simp)] at ends)
      rw [spaced, List.intercalate_cons_cons, List.getLast?_append_of_ne_nil, ← later, spaced]
      rintro empty
      rw [spaced, empty, List.getLast?_nil] at later
      exact filled (List.getLast?_eq_none_iff.mp later.symm)

/-! ### The start and the end of a text -/

/-- A text that does not end with white space stays as it is without white space at its end. -/
theorem trimEnd_of_getLast? {c : Char} (last : text.getLast? = some c) (seen : isBlank c = false) :
    trimEnd text = text := by
  obtain ⟨before, rfl⟩ := List.getLast?_eq_some_iff.mp last
  rw [trimEnd, List.reverse_append, List.reverse_singleton, List.singleton_append,
    List.dropWhile_cons_of_neg (by simp [seen]), List.reverse_cons, List.reverse_reverse]

/-- A text is what is left without the white space at its end, and that white space. -/
theorem exists_trimEnd (text : List Char) :
    ∃ blanks, text = trimEnd text ++ blanks ∧ ∀ c ∈ blanks, isBlank c = true := by
  refine ⟨(text.reverse.takeWhile isBlank).reverse, ?_, ?_⟩
  · rw [trimEnd, ← List.reverse_append, List.takeWhile_append_dropWhile, List.reverse_reverse]
  · intro c member
    exact List.mem_takeWhile_imp (List.mem_reverse.mp member)

theorem trimEnd_append_blank {blanks : List Char} (blank : ∀ c ∈ blanks, isBlank c = true) (text : List Char) :
    trimEnd (text ++ blanks) = trimEnd text := by
  have skipped : ∀ c ∈ blanks.reverse, isBlank c = true := fun c member => blank c (List.mem_reverse.mp member)
  rw [trimEnd, List.reverse_append, List.dropWhile_append_of_pos skipped, trimEnd]

theorem trimEnd_of_blank (blank : ∀ c ∈ text, isBlank c = true) : trimEnd text = [] :=
  trimEnd_append_blank blank []

/-- White space is left out only behind the last character that is none. -/
theorem trimEnd_append_cons {c : Char} (seen : isBlank c = false) (before after : List Char) :
    trimEnd (before ++ c :: after) = before ++ c :: trimEnd after := by
  have turned : (before ++ c :: after).reverse = after.reverse ++ c :: before.reverse := by simp
  rw [trimEnd, turned, List.dropWhile_append]
  split_ifs with blank
  · rw [List.isEmpty_iff] at blank
    simp [trimEnd, blank, seen]
  · simp [trimEnd]

theorem trimEnd_prefix (text : List Char) : trimEnd text <+: text := by
  obtain ⟨blanks, whole, -⟩ := exists_trimEnd text
  exact ⟨blanks, whole.symm⟩

/-- The words of a text are those that are left without the white space at its end. -/
theorem words_trimEnd (text : List Char) : words (trimEnd text) = words text := by
  obtain ⟨blanks, whole, blank⟩ := exists_trimEnd text
  have kept := words_append_blank blank (trimEnd text)
  rw [← whole] at kept
  exact kept.symm

/-- A text with words starts as before without the white space at its end. -/
theorem head?_trimEnd (filled : words text ≠ []) : (trimEnd text).head? = text.head? := by
  obtain ⟨blanks, whole, -⟩ := exists_trimEnd text
  rw [← words_trimEnd] at filled
  cases front : trimEnd text with
  | nil =>
    rw [front] at filled
    exact absurd rfl filled
  | cons c rest =>
    rw [front] at whole
    rw [whole]
    rfl

/-- A text with words does not vanish without the white space at its start. -/
theorem trimStart_ne_nil (filled : words text ≠ []) : trimStart text ≠ [] := by
  rw [trimStart, ne_eq, List.dropWhile_eq_nil_iff]
  exact fun blank => filled (words_of_blank blank)

/-- A text is white space, or has a first character that is none. -/
theorem blank_or_exists_first (text : List Char) : (∀ c ∈ text, isBlank c = true) ∨
    ∃ blanks c rest, text = blanks ++ c :: rest ∧ (∀ d ∈ blanks, isBlank d = true) ∧ isBlank c = false := by
  induction text with
  | nil => exact .inl nofun
  | cons d text ih =>
    by_cases blank : isBlank d = true
    · rcases ih with all | ⟨blanks, c, rest, rfl, skipped, seen⟩
      · exact .inl (List.forall_mem_cons.mpr ⟨blank, all⟩)
      · exact .inr ⟨d :: blanks, c, rest, rfl, List.forall_mem_cons.mpr ⟨blank, skipped⟩, seen⟩
    · exact .inr ⟨[], d, text, rfl, nofun, by simpa using blank⟩
/-- A carriage return at the end of a line is white space. -/
theorem exists_dropCarriageReturn (line : List Char) : ∃ blanks, line = dropCarriageReturn line ++ blanks ∧
    ∀ c ∈ blanks, isBlank c = true := by
  unfold dropCarriageReturn
  split_ifs with ends
  · obtain ⟨front, rfl⟩ := List.getLast?_eq_some_iff.mp ends
    exact ⟨['\r'], by simp, List.forall_mem_singleton.mpr rfl⟩
  · exact ⟨[], by simp, nofun⟩

theorem trimEnd_dropCarriageReturn (line : List Char) :
    trimEnd (dropCarriageReturn line) = trimEnd line := by
  obtain ⟨blanks, whole, blank⟩ := exists_dropCarriageReturn line
  conv_rhs => rw [whole, trimEnd_append_blank blank]

/-- A word occurs in a text exactly if it stands somewhere in it. -/
theorem occursIn_iff {word : List Char} : occursIn word text = true ↔ word <:+: text := by
  induction text with
  | nil => rw [occursIn, List.isEmpty_iff, List.infix_nil]
  | cons c text ih => rw [occursIn, Bool.or_eq_true, List.isPrefixOf_iff_prefix, ih, List.infix_cons_iff]

/-- A word that occurs between spaces is one of the words of a text. -/
theorem mem_words_of_occursIn {word : List Char} (filled : word ≠ []) (unblank : ∀ c ∈ word, isBlank c = false)
    (occurs : occursIn (' ' :: (word ++ [' '])) text = true) : word ∈ words text := by
  obtain ⟨before, after, rfl⟩ := occursIn_iff.mp occurs
  have opened : before ++ ' ' :: (word ++ [' ']) ++ after = before ++ ' ' :: (word ++ ' ' :: after) := by simp
  rw [opened, words_at_blank (by decide), words_at_blank (by decide), words_of_unblank filled unblank]
  simp

/-- A text starts with what can be dropped from its start. -/
theorem dropStart?_eq_some {start text rest : List Char} :
    dropStart? start text = some rest ↔ text = start ++ rest := by
  induction start generalizing text with
  | nil => simp [dropStart?]
  | cons c start ih =>
    cases text with
    | nil => simp [dropStart?]
    | cons d text =>
      by_cases same : c = d
      · simp [dropStart?, same, ih]
      · simp [dropStart?, same, Ne.symm same]

/-- A text ends with what can be dropped from its end. -/
theorem dropEnd?_eq_some {ending text front : List Char} :
    dropEnd? ending text = some front ↔ text = front ++ ending := by
  simp only [dropEnd?, Option.map_eq_some_iff, dropStart?_eq_some]
  constructor
  · rintro ⟨turned, split, rfl⟩
    rw [← List.reverse_reverse text, split, List.reverse_append, List.reverse_reverse]
  · rintro rfl
    exact ⟨front.reverse, List.reverse_append, List.reverse_reverse front⟩

/-- An ending without the character stands behind its last occurrence. -/
theorem afterLast_append {mark : Char} {ending : List Char} (unmarked : mark ∉ ending) (text : List Char) :
    afterLast mark (text ++ ending) = afterLast mark text ++ ending := by
  have skips : ∀ c ∈ ending.reverse, (c != mark) = true := by
    intro c member
    rw [bne_iff_ne]
    exact ne_of_mem_of_not_mem (List.mem_reverse.mp member) unmarked
  rw [afterLast, List.reverse_append, List.takeWhile_append_of_pos skips, List.reverse_append, List.reverse_reverse,
    afterLast]

/-- A text is cut at the last occurrence of a character. -/
theorem splitLast?_append {mark : Char} {name : List Char} (unmarked : mark ∉ name) (before : List Char) :
    splitLast? mark (before ++ mark :: name) = some (before, name) := by
  have skips : ∀ c ∈ name.reverse, (c != mark) = true := by
    intro c member
    rw [bne_iff_ne]
    exact ne_of_mem_of_not_mem (List.mem_reverse.mp member) unmarked
  have turned : (before ++ mark :: name).reverse = name.reverse ++ mark :: before.reverse := by simp
  rw [splitLast?, afterLast, turned, List.dropWhile_append_of_pos skips, List.takeWhile_append_of_pos skips,
    List.dropWhile_cons, List.takeWhile_cons]
  simp

/-! ### After the last occurrence -/

section LastOccurrence

variable {mark : Char} {name : List Char}

/-- What follows the last occurrence of a character has none. -/
theorem notMem_afterLast (mark : Char) (text : List Char) : mark ∉ afterLast mark text := by
  intro member
  have other := List.mem_takeWhile_imp (List.mem_reverse.mp member)
  exact (bne_iff_ne.mp other) rfl

theorem afterLast_suffix (mark : Char) (text : List Char) : afterLast mark text <:+ text := by
  have front := List.takeWhile_prefix (l := text.reverse) (· != mark)
  rwa [← List.reverse_suffix, List.reverse_reverse] at front

/-- What follows an occurrence, if there is no later one. -/
theorem afterLast_at (unmarked : mark ∉ name) (before : List Char) :
    afterLast mark (before ++ mark :: name) = name := by
  have nothing : afterLast mark (before ++ [mark]) = [] := by simp [afterLast]
  rw [List.append_cons, afterLast_append unmarked, nothing, List.nil_append]

/-- The whole text follows what does not occur in it. -/
theorem afterLast_of_notMem (unmarked : mark ∉ text) : afterLast mark text = text :=
  afterLast_append unmarked []

/-- What is not skipped stays. -/
theorem mem_dropWhile {skips : Char → Bool} {c : Char} (member : c ∈ text) (stays : skips c = false) :
    c ∈ text.dropWhile skips := by
  rw [← List.takeWhile_append_dropWhile (p := skips) (l := text), List.mem_append] at member
  refine member.resolve_left fun front => ?_
  rw [List.mem_takeWhile_imp front] at stays
  cases stays

/-- A text is cut at the last occurrence of any character that it has. -/
theorem exists_beforeLast (member : mark ∈ text) : ∃ before, text = before ++ mark :: afterLast mark text := by
  obtain ⟨behind, before, turned, unmarked⟩ := List.eq_append_cons_of_mem (List.mem_reverse.mpr member)
  have whole : text = before.reverse ++ mark :: behind.reverse := by
    rw [← List.reverse_reverse text, turned]
    simp
  refine ⟨before.reverse, ?_⟩
  rw [whole, afterLast_at (by simpa using unmarked)]

/-- The last occurrence is in the last part of a text that has one. -/
theorem afterLast_append_of_mem (member : mark ∈ text) (before : List Char) :
    afterLast mark (before ++ text) = afterLast mark text := by
  obtain ⟨front, whole⟩ := exists_beforeLast member
  rw [whole, ← List.append_assoc, afterLast_at (notMem_afterLast mark text), afterLast_at (notMem_afterLast mark text)]

end LastOccurrence

end JarRename.Text
