import JarRename.Proofs.Mapping.Table
import JarRename.Proofs.Text.Lines

/-!
**Comments in mappings.**

The lines of a mapping are read without their comments. The format is guessed from lines that still have them, only
lines that are nothing but a comment are left out. So a comment behind a line says nothing once the format is known, but
it can be taken for what shows the format.

* `uncommented`: a text with every line cut at its first mark of a comment;
* `contentLines_uncommented`, `parseAs_uncommented`: what is read in a known format;
* `Format.sample_uncommented`: the lines that show the format;
* `Format.ShownOutside`, `Format.ofSample_eq_iff`: whether they show it without their comments;
* `parse_uncommented`: the table of a text with and without its comments;
* `not_parse_uncommented`: comments that are taken for an arrow and for the rest of a mark.
-/

namespace JarRename.Mapping

open Text (isBlank)

/-! ### Lines without comments -/

/-- A line up to its first mark of a comment. -/
def bare (line : List Char) : List Char :=
  line.takeWhile (· != '#')

/-- The text with every line cut at its first mark of a comment. -/
def uncommented (text : String) : String :=
  String.ofList (List.intercalate ['\n'] ((Text.pieces (· == '\n') text.toList).map bare))

theorem not_mem_bare (line : List Char) : '#' ∉ bare line := fun member => by
  simpa using List.mem_takeWhile_imp member

theorem bare_of_not_mem {line : List Char} (plain : '#' ∉ line) : bare line = line := by
  refine List.takeWhile_eq_self_iff.mpr fun c member => ?_
  rw [bne_iff_ne]
  exact ne_of_mem_of_not_mem member plain

theorem bare_append {front : List Char} (plain : '#' ∉ front) (rest : List Char) :
    bare (front ++ rest) = front ++ bare rest := by
  have passed : ∀ c ∈ front, (c != '#') = true := fun c member => by
    rw [bne_iff_ne]
    exact ne_of_mem_of_not_mem member plain
  exact List.takeWhile_append_of_pos passed

theorem not_mem_of_blank {blanks : List Char} (blank : ∀ c ∈ blanks, isBlank c = true) : '#' ∉ blanks := fun member =>
  absurd (blank '#' member) (by decide)

theorem withoutComment_eq (line : List Char) : withoutComment line = Text.trimEnd (bare line) := rfl

theorem withoutComment_bare (line : List Char) : withoutComment (bare line) = withoutComment line := by
  rw [withoutComment_eq, bare_of_not_mem (not_mem_bare line), withoutComment_eq]

/-- White space at the end of a line does not show in it. -/
theorem withoutComment_append_blank {blanks : List Char} (blank : ∀ c ∈ blanks, isBlank c = true) (line : List Char) :
    withoutComment (line ++ blanks) = withoutComment line := by
  rw [withoutComment_eq, withoutComment_eq]
  by_cases comment : '#' ∈ line
  · obtain ⟨before, after, rfl, plain⟩ := List.eq_append_cons_of_mem comment
    rw [List.append_assoc, List.cons_append, bare_append plain, bare_append plain]
    simp [bare]
  · rw [bare_append comment, bare_of_not_mem comment, bare_of_not_mem (not_mem_of_blank blank),
      Text.trimEnd_append_blank blank]

theorem withoutComment_trimEnd (line : List Char) : withoutComment (Text.trimEnd line) = withoutComment line := by
  obtain ⟨blanks, whole, blank⟩ := Text.exists_trimEnd line
  conv_rhs => rw [whole, withoutComment_append_blank blank]

theorem withoutComment_dropCarriageReturn (line : List Char) :
    withoutComment (Text.dropCarriageReturn line) = withoutComment line := by
  obtain ⟨blanks, whole, blank⟩ := Text.exists_dropCarriageReturn line
  conv_rhs => rw [whole, withoutComment_append_blank blank]

/-! ### What is read -/

theorem pieces_uncommented (text : String) :
    Text.pieces (· == '\n') (uncommented text).toList = (Text.pieces (· == '\n') text.toList).map bare := by
  rw [uncommented, String.toList_ofList]
  refine Text.pieces_intercalate (by simp [Text.pieces]) ?_
  intro line member broken
  obtain ⟨piece, listed, rfl⟩ := List.mem_map.mp member
  have uncut := Text.uncut_of_mem_pieces listed '\n' ((List.takeWhile_sublist _).subset broken)
  cases uncut

/-- What a line says, with its number. -/
def content? : List Char × Nat → Option (Nat × List Char) := fun (line, number) =>
  let line := withoutComment line
  if (Text.trimStart line).isEmpty then none else some (number, line)

theorem contentLines_eq_pieces (text : List Char) :
    contentLines text = ((Text.pieces (· == '\n') text).zipIdx 1).filterMap content? := by
  refine Text.filterMap_lines (fun number => rfl) (fun line number => ?_) text 1
  simp only [withoutComment_dropCarriageReturn]

/-- **The lines that say something** are the same without comments. -/
theorem contentLines_uncommented (text : String) :
    contentLines (uncommented text).toList = contentLines text.toList := by
  rw [contentLines_eq_pieces, contentLines_eq_pieces, pieces_uncommented, List.zipIdx_map, List.filterMap_map]
  refine List.filterMap_congr ?_
  rintro ⟨line, number⟩ -
  simp only [content?, Function.comp_apply, Prod.map_apply, withoutComment_bare, id]

/-! ### Lines that show a format -/

namespace Format

/-- A line that can show a format: it has characters, and a comment is not all there is in it. -/
def shows (line : List Char) : Bool :=
  !line.isEmpty && (Text.trimStart line).head? != some '#'

/-- What a line shows. -/
def shown? (line : List Char) : Option (List Char) :=
  if shows (Text.trimEnd line) then some (Text.trimEnd line) else none

theorem sample_eq_pieces (text : List Char) :
    sample text = ((Text.pieces (· == '\n') text).filterMap shown?).take sampleSize := by
  have read : ((Text.lines text).map Text.trimEnd).filter shows = (Text.lines text).filterMap shown? := by
    rw [← List.filterMap_eq_filter, List.filterMap_map]
    refine List.filterMap_congr fun line _ => ?_
    simp [shown?, Option.guard]
  rw [← Text.filterMap_lines_unnumbered rfl (fun line => by rw [shown?, shown?, Text.trimEnd_dropCarriageReturn]), ← read]
  rfl

/-- A line starts with what is left of it without its comment. -/
theorem starts_withoutComment (line : List Char) : withoutComment line <+: line :=
  (Text.trimEnd_prefix _).trans (List.takeWhile_prefix _)

/-- A line shows something exactly if it does so without its comment. -/
theorem shows_withoutComment (line : List Char) : shows (withoutComment line) = shows (Text.trimEnd line) := by
  rcases Text.blank_or_exists_first line with blank | ⟨blanks, c, rest, rfl, blank, seen⟩
  · rw [withoutComment_eq, bare_of_not_mem (not_mem_of_blank blank)]
  · have first (behind : List Char) : shows (blanks ++ c :: behind) = (c != '#') := by
      rw [shows, Text.trimStart, List.dropWhile_append_of_pos blank, List.dropWhile_cons_of_neg (by simp [seen])]
      simp [bne]
    rw [withoutComment_eq, bare_append (not_mem_of_blank blank), Text.trimEnd_append_cons seen, first]
    by_cases comment : c = '#'
    · subst comment
      simp [bare, shows, Text.trimEnd_of_blank blank]
    · have kept : bare (c :: rest) = c :: bare rest := List.takeWhile_cons_of_pos (by simpa using comment)
      rw [kept, Text.trimEnd_append_cons seen, first]

/-- What a line shows without its comment. -/
theorem shown?_bare (line : List Char) : shown? (bare line) = (shown? line).map withoutComment := by
  rw [shown?, shown?, ← withoutComment_eq, shows_withoutComment]
  split_ifs
  · rw [Option.map_some, withoutComment_trimEnd]
  · rfl

/-- **The lines that show the format** are the same lines without their comments. -/
theorem sample_uncommented (text : String) :
    sample (uncommented text).toList = (sample text.toList).map withoutComment := by
  rw [sample_eq_pieces, sample_eq_pieces, pieces_uncommented, List.filterMap_map, List.map_take, List.map_filterMap]
  simp only [shown?_bare, Function.comp_def]

/-- What shows the format stands outside comments: the first line with a mark or an arrow, if there is one, has a mark,
and some line has a mark without its comment. -/
def ShownOutside (lines : List (List Char)) : Prop :=
  ∀ line, lines.find? (fun line => isMarked line || hasArrow line) = some line →
    isMarked line = true ∧ ∃ other ∈ lines, isMarked (withoutComment other) = true

theorem isMarked_mono {front line : List Char} (starts : front <+: line) (marked : isMarked front = true) :
    isMarked line = true := by
  obtain ⟨mark, known, stands⟩ := List.any_eq_true.mp marked
  refine List.any_eq_true.mpr ⟨mark, known, ?_⟩
  rw [List.isPrefixOf_iff_prefix] at stands ⊢
  exact stands.trans starts

theorem hasArrow_mono {front line : List Char} (starts : front <+: line) (arrow : hasArrow front = true) :
    hasArrow line = true :=
  Text.occursIn_iff.mpr ((Text.occursIn_iff.mp arrow).trans starts.isInfix)

/-- Without arrows, marks and tabs decide. -/
theorem ofSample_of_unarrowed {lines : List (List Char)} (unarrowed : ∀ line ∈ lines, hasArrow line = false) :
    ofSample lines =
      if lines.any isMarked then srg else if lines.any (fun line => line.head? == some '\t') then tsrg else csrg := by
  unfold ofSample
  cases found : lines.find? fun line => isMarked line || hasArrow line with
  | none =>
    have unmarked : lines.any isMarked = false := by
      rw [List.any_eq_false]
      intro line member marked
      have neither := List.find?_eq_none.mp found line member
      simp [marked] at neither
    rw [unmarked]
    rfl
  | some line =>
    have member := List.mem_of_find?_eq_some found
    have marked : isMarked line = true := by simpa [unarrowed line member] using List.find?_some found
    rw [if_pos (List.any_eq_true.mpr ⟨line, member, marked⟩)]
    simp only [marked, if_true]

/-- **The format is the same without comments** exactly if it shows outside them. -/
theorem ofSample_eq_iff {lines : List (List Char)} (unarrowed : ∀ line ∈ lines, hasArrow (withoutComment line) = false)
    (starts : ∀ line ∈ lines, (withoutComment line).head? = line.head?) :
    ofSample lines = ofSample (lines.map withoutComment) ↔ ShownOutside lines := by
  have tabs : (lines.map withoutComment).any (fun line => line.head? == some '\t') =
      lines.any fun line => line.head? == some '\t' := by
    have first (lines : List (List Char)) : lines.any (fun line => line.head? == some '\t') =
        (lines.map List.head?).any (· == some '\t') := by
      rw [List.any_map]
      rfl
    have heads : lines.map (List.head? ∘ withoutComment) = lines.map List.head? := List.map_congr_left starts
    rw [first, first, List.map_map, heads]
  have outside : (lines.map withoutComment).any isMarked = true ↔ ∃ other ∈ lines, isMarked (withoutComment other) = true := by
    rw [List.any_map, List.any_eq_true]
    rfl
  rw [ofSample_of_unarrowed (List.forall_mem_map.mpr unarrowed), tabs, ofSample, ShownOutside]
  cases found : lines.find? fun line => isMarked line || hasArrow line with
  | none =>
    have unmarked : (lines.map withoutComment).any isMarked ≠ true := by
      rw [ne_eq, outside]
      rintro ⟨other, member, marked⟩
      have neither := List.find?_eq_none.mp found other member
      simp [isMarked_mono (starts_withoutComment other) marked] at neither
    rw [if_neg unmarked]
    exact ⟨fun _ => nofun, fun _ => rfl⟩
  | some line =>
    simp only [Option.some.injEq, forall_eq']
    rw [← outside]
    by_cases marked : isMarked line = true
    · simp only [marked, if_true, true_and]
      split_ifs <;> simp_all
    · simp only [marked]
      split_ifs <;> simp_all

/-- A line that shows the format keeps its first character without its comment. -/
theorem head?_withoutComment {text : List Char} {line : List Char} (member : line ∈ sample text) :
    (withoutComment line).head? = line.head? := by
  rw [sample_eq_pieces] at member
  obtain ⟨piece, -, shown⟩ := List.mem_filterMap.mp (List.mem_of_mem_take member)
  unfold shown? at shown
  split_ifs at shown with seen
  cases shown
  have filled : withoutComment (Text.trimEnd piece) ≠ [] := by
    rw [← shows_withoutComment, ← withoutComment_trimEnd] at seen
    intro empty
    rw [empty] at seen
    cases seen
  obtain ⟨rest, whole⟩ := starts_withoutComment (Text.trimEnd piece)
  conv_rhs => rw [← whole, List.head?_append_of_ne_nil _ filled]

theorem exists_line_of_mem_sample {text line : List Char} (member : line ∈ sample text) :
    ∃ whole ∈ Text.lines text, line <+: whole := by
  obtain ⟨whole, listed, rfl⟩ := List.mem_map.mp (List.mem_of_mem_filter (List.mem_of_mem_take member))
  exact ⟨whole, listed, Text.trimEnd_prefix whole⟩

end Format

/-- **In a known format** a text says the same with and without comments. -/
theorem parseAs_uncommented {format : Format} (lined : format ≠ .proGuard) (text : String) :
    parseAs format (uncommented text) = parseAs format text := by
  cases format with
  | proGuard => exact absurd rfl lined
  | srg => rw [parseAs, parseAs, parseSrg, parseSrg, readLines, readLines, contentLines_uncommented]
  | csrg => rw [parseAs, parseAs, parseCsrg, parseCsrg, readLines, readLines, contentLines_uncommented]
  | tsrg => rw [parseAs, parseAs, parseTsrg, parseTsrg, contentLines_uncommented]

/-- **Comments say nothing** if the format shows outside them. Take a text that has no arrow outside its comments. It
shows the same format with and without them exactly if what shows the format stands outside them, and then it has the
same table or fails alike, in both directions. -/
theorem parse_uncommented {text : String}
    (unarrowed : ∀ line ∈ Text.lines (uncommented text).toList, Format.hasArrow line = false) :
    (Format.detect text = Format.detect (uncommented text) ↔ Format.ShownOutside (Format.sample text.toList)) ∧
      (Format.ShownOutside (Format.sample text.toList) →
        ∀ direction, Table.parse text direction = Table.parse (uncommented text) direction) := by
  have unarrowedSample : ∀ line ∈ Format.sample (uncommented text).toList, Format.hasArrow line = false := by
    intro line member
    obtain ⟨whole, listed, starts⟩ := Format.exists_line_of_mem_sample member
    rw [Bool.eq_false_iff, ne_eq]
    intro arrow
    exact Bool.false_ne_true ((unarrowed whole listed).symm.trans (Format.hasArrow_mono starts arrow))
  have same : Format.detect text = Format.detect (uncommented text) ↔
      Format.ShownOutside (Format.sample text.toList) := by
    rw [Format.detect, Format.detect, Format.sample_uncommented]
    rw [Format.sample_uncommented] at unarrowedSample
    exact Format.ofSample_eq_iff (List.forall_mem_map.mp unarrowedSample) fun line => Format.head?_withoutComment
  refine ⟨same, fun shown direction => ?_⟩
  have lined : Format.detect (uncommented text) ≠ .proGuard := by
    rw [Format.detect, Format.ofSample_of_unarrowed unarrowedSample]
    split_ifs <;> decide
  rw [Table.parse, Table.parse, same.mpr shown, parseAs_uncommented lined]

/-- A text whose comments have arrows and marks, behind lines and in lines of their own. -/
def remarkedText : String :=
  "# x -> y\nCL: a b # c -> d\nFD: a/e b/f #CL: g h\n"

theorem parse_uncommented_remarked :
    uncommented remarkedText = "\nCL: a b \nFD: a/e b/f \n" ∧
      (∀ line ∈ Text.lines (uncommented remarkedText).toList, Format.hasArrow line = false) ∧
      Format.ShownOutside (Format.sample remarkedText.toList) ∧
      Table.parse remarkedText .reverse = Table.parse (uncommented remarkedText) .reverse := by
  have unarrowed : ∀ line ∈ Text.lines (uncommented remarkedText).toList, Format.hasArrow line = false := by
    decide +kernel
  obtain ⟨same, parsed⟩ := parse_uncommented unarrowed
  have shown := same.mp (by decide +kernel)
  exact ⟨by decide +kernel, unarrowed, shown, parsed shown .reverse⟩

/-- A class, with an arrow in its comment. -/
def arrowText : String :=
  "a b # c -> d\n"

/-- The mark of a package, with nothing behind it but a comment. -/
def markText : String :=
  "PK: # c\n"

/-- **Not all comments say nothing.** An arrow in a comment makes a text that is read without it a broken mapping of
another format, and a mark counts only with a comment behind it. -/
theorem not_parse_uncommented :
    ((∀ line ∈ Text.lines (uncommented arrowText).toList, Format.hasArrow line = false) ∧
      (∃ error, Table.parse arrowText .forward = .error error) ∧
      ∃ table, Table.parse (uncommented arrowText) .forward = .ok table ∧ table.class? "a" = some "b") ∧
    (∀ line ∈ Text.lines (uncommented markText).toList, Format.hasArrow line = false) ∧
      (∃ table, Table.parse markText .forward = .ok table) ∧
      ∃ error, Table.parse (uncommented markText) .forward = .error error := by
  refine ⟨⟨by decide +kernel, ?_, ?_⟩, by decide +kernel, ?_, ?_⟩
  · have read : parseAs (Format.detect arrowText) arrowText = .error { line := 1, cause := .badRecord } := by
      decide +kernel
    exact ⟨_, by rw [Table.parse, read]; rfl⟩
  · have read : parseAs (Format.detect (uncommented arrowText)) (uncommented arrowText) =
        .ok [(1, .ofClass "a" "b")] := by decide +kernel
    obtain ⟨table, built⟩ : ∃ table, Table.ofForward [(1, .ofClass "a" "b")] = .ok table :=
      Table.exists_ofForward_iff.mpr (by decide +kernel)
    refine ⟨table, by rw [Table.parse, read, ok_bind, Table.ofEntries_forward, built], ?_⟩
    exact (Table.holds_ofForward built (.ofClass "a" "b")).mpr ⟨1, List.mem_singleton.mpr rfl⟩
  · have read : parseAs (Format.detect markText) markText = .ok [] := by decide +kernel
    exact ⟨{}, by rw [Table.parse, read, ok_bind, Table.ofEntries_forward]; rfl⟩
  · have read : parseAs (Format.detect (uncommented markText)) (uncommented markText) =
        .error { line := 1, cause := .wordCount 1 } := by decide +kernel
    exact ⟨_, by rw [Table.parse, read]; rfl⟩

end JarRename.Mapping
