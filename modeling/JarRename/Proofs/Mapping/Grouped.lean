import JarRename.Proofs.Mapping.Spelling
import JarRename.Proofs.Mapping.Table

/-!
**Members grouped under their classes.**

A text in TSRG is made of groups: the line of a class, and behind it the indented lines of its members. The format is
guessed from the first lines, and only a tab at the start of one of them shows that there are groups. A text that shows
this is read group by group, every member under the class in front of it.

* `ClassLine`, `MemberLine`, `Group`: lines and groups, with what they say;
* `Grouped`: a text that is made of groups, and has no marks of other formats;
* `Grouped.detect_eq`: the format that such a text shows;
* `Group.entries`, `entriesFrom`: the entries of groups;
* `tsrgLines_members`, `tsrgLines_groups`: the lines of members and of groups read one after another;
* `parse_grouped`: the table of a text that is made of groups.
-/

namespace JarRename.Mapping

/-! ### Groups -/

/-- What the line of a member says. -/
inductive MemberWords where
  | ofField (old new : List Char)
  | ofMethod (old descriptor new : List Char)

namespace MemberWords

/-- The words of the line. -/
def words : MemberWords → List (List Char)
  | ofField old new => [old, new]
  | ofMethod old descriptor new => [old, descriptor, new]

/-- The entry of the member of a class. -/
def entry (owner : List Char) : MemberWords → Entry
  | ofField old new => fieldEntry owner old new
  | ofMethod old descriptor new => methodEntry owner old descriptor new

end MemberWords

/-- The line of a class: two words that are not indented. -/
structure ClassLine where
  line : List Char
  old : List Char
  new : List Char
  unindented : isIndented line = false
  words : Text.words line = [old, new]

/-- The line of a member: two or three words that are indented by a tab or a space. -/
structure MemberLine where
  line : List Char
  said : MemberWords
  indented : isIndented line = true
  words : Text.words line = said.words

/-- A class with its members. -/
structure Group where
  head : ClassLine
  members : List MemberLine

/-- The lines of a group. -/
def Group.lines (group : Group) : List (List Char) :=
  group.head.line :: group.members.map MemberLine.line

/-- A text that is made of the lines of groups. No word of it is an arrow or has the mark of a comment, and no line
starts with a mark of SRG. -/
structure Grouped (text : String) (groups : List Group) : Prop where
  lines : Text.lines text.toList = groups.flatMap Group.lines
  unarrowed : ∀ line ∈ Text.lines text.toList, "->".toList ∉ Text.words line
  uncommented : ∀ line ∈ Text.lines text.toList, ∀ word ∈ Text.words line, '#' ∉ word
  unmarked : ∀ line ∈ Text.lines text.toList, ∀ mark ∈ ["PK:", "CL:", "FD:", "MD:"], ¬mark.toList <+: line

theorem ClassLine.words_ne_nil (head : ClassLine) : Text.words head.line ≠ [] := by
  rw [head.words]
  exact List.cons_ne_nil _ _

theorem MemberLine.words_ne_nil (member : MemberLine) : Text.words member.line ≠ [] := by
  rw [member.words]
  cases member.said <;> exact List.cons_ne_nil _ _

namespace Grouped

variable {text : String} {groups : List Group}

/-- Every line has words. -/
theorem words_ne_nil (grouped : Grouped text groups) : ∀ line ∈ Text.lines text.toList, Text.words line ≠ [] := by
  intro line member
  rw [grouped.lines] at member
  obtain ⟨group, -, inside⟩ := List.mem_flatMap.mp member
  rcases List.mem_cons.mp inside with rfl | inside
  · exact group.head.words_ne_nil
  · obtain ⟨indented, -, rfl⟩ := List.mem_map.mp inside
    exact indented.words_ne_nil

/-- No line has the mark of a comment. -/
theorem not_mem_line (grouped : Grouped text groups) : ∀ line ∈ Text.lines text.toList, '#' ∉ line := by
  intro line member comment
  obtain ⟨word, listed, inside⟩ := Text.exists_word comment (by decide)
  exact grouped.uncommented line member word listed inside

/-! ### The format -/

/-- The lines that show the format are the first ones. -/
theorem sample_eq (grouped : Grouped text groups) :
    Format.sample text.toList = ((Text.lines text.toList).map Text.trimEnd).take 64 := by
  rw [Format.sample, List.filter_eq_self.mpr]
  · rfl
  · intro trimmed member
    obtain ⟨line, listed, rfl⟩ := List.mem_map.mp member
    have filled : Text.words (Text.trimEnd line) ≠ [] := by
      rw [Text.words_trimEnd]
      exact grouped.words_ne_nil line listed
    have seen : Text.trimEnd line ≠ [] := by
      intro empty
      rw [empty] at filled
      exact filled rfl
    have plain : (Text.trimStart (Text.trimEnd line)).head? ≠ some '#' := by
      intro start
      have inside : '#' ∈ Text.trimEnd line := (List.dropWhile_sublist _).subset (List.mem_of_head? start)
      exact grouped.not_mem_line line listed ((Text.trimEnd_prefix line).subset inside)
    simp [seen, plain]

/-- No line starts with a mark of SRG. -/
theorem not_isMarked (grouped : Grouped text groups) {line : List Char} (listed : line ∈ Text.lines text.toList) :
    Format.isMarked (Text.trimEnd line) = false := by
  have shorter : ∀ mark ∈ ["PK: ", "CL: ", "FD: ", "MD: "],
      ∃ start ∈ ["PK:", "CL:", "FD:", "MD:"], start.toList <+: mark.toList := by decide
  rw [Format.isMarked, List.any_eq_false]
  intro mark known starts
  obtain ⟨start, knownToo, short⟩ := shorter mark known
  exact grouped.unmarked line listed start knownToo
    (short.trans ((List.isPrefixOf_iff_prefix.mp starts).trans (Text.trimEnd_prefix line)))

/-- No line contains an arrow between spaces. -/
theorem not_hasArrow (grouped : Grouped text groups) {line : List Char} (listed : line ∈ Text.lines text.toList) :
    Format.hasArrow (Text.trimEnd line) = false := by
  rw [Bool.eq_false_iff, ne_eq]
  intro arrow
  have unblank : ∀ c ∈ "->".toList, Text.isBlank c = false :=
    List.forall_mem_cons.mpr ⟨rfl, List.forall_mem_singleton.mpr rfl⟩
  have word : "->".toList ∈ Text.words (Text.trimEnd line) := Text.mem_words_of_occursIn (by decide) unblank arrow
  rw [Text.words_trimEnd] at word
  exact grouped.unarrowed line listed word

/-- **A text that is made of groups shows this** exactly if one of its first lines starts with a tab. -/
theorem detect_eq (grouped : Grouped text groups) :
    Format.detect text =
      if ((Text.lines text.toList).take 64).any (fun line => line.head? == some '\t') then .tsrg else .csrg := by
  have first {trimmed : List Char} (member : trimmed ∈ ((Text.lines text.toList).take 64).map Text.trimEnd) :
      ∃ line ∈ Text.lines text.toList, Text.trimEnd line = trimmed := by
    obtain ⟨line, listed, same⟩ := List.mem_map.mp member
    exact ⟨line, List.mem_of_mem_take listed, same⟩
  have undecided : (((Text.lines text.toList).take 64).map Text.trimEnd).find?
      (fun line => Format.isMarked line || Format.hasArrow line) = none := by
    refine List.find?_eq_none.mpr fun trimmed member => ?_
    obtain ⟨line, listed, rfl⟩ := first member
    simp [grouped.not_isMarked listed, grouped.not_hasArrow listed]
  have starts : (((Text.lines text.toList).take 64).map Text.trimEnd).any (fun line => line.head? == some '\t') =
      ((Text.lines text.toList).take 64).any (fun line => line.head? == some '\t') := by
    rw [List.any_map, Bool.eq_iff_iff, List.any_eq_true, List.any_eq_true]
    refine exists_congr fun line => and_congr_right fun listed => ?_
    rw [Function.comp_apply, Text.head?_trimEnd (grouped.words_ne_nil line (List.mem_of_mem_take listed))]
  rw [Format.detect, grouped.sample_eq, ← List.map_take, Format.ofSample, undecided]
  simp only [starts]

end Grouped

/-! ### The entries of groups -/

/-- Whether a group is the renaming of a package, which says nothing about classes. -/
def Group.ofPackage (group : Group) : Bool :=
  isPackage group.head.old && isPackage group.head.new

/-- The class that lines behind a group belong to. -/
def Group.owner (group : Group) : Option (List Char) :=
  if group.ofPackage then none else some group.head.old

/-- A group that can be read: its class is not the mark of a newer format, and the renaming of a package has no
members. -/
structure Group.Readable (group : Group) : Prop where
  current : "tsrg2 ".toList.isPrefixOf (Text.trimEnd group.head.line) = false
  owned : group.ofPackage = true → group.members = []

/-- The entries of the members of a class, with the numbers of their lines. -/
def memberEntries (owner : List Char) (number : Nat) (members : List MemberLine) : List Numbered :=
  (members.zipIdx number).map fun (member, number) => (number, member.said.entry owner)

/-- The entries of a group whose class stands in the line of a number: the class, then its members. -/
def Group.entries (number : Nat) (group : Group) : List Numbered :=
  if group.ofPackage then []
  else
    (number, classEntry group.head.old group.head.new) :: memberEntries group.head.old (number + 1) group.members

/-- The entries of groups that start in the line of a number. -/
def entriesFrom (number : Nat) : List Group → List Numbered
  | [] => []
  | group :: rest => group.entries number ++ entriesFrom (number + group.lines.length) rest

/-! ### One line -/

/-- Lines without the white space at their ends, numbered. -/
def numberedLines (number : Nat) (lines : List (List Char)) : List (Nat × List Char) :=
  (lines.zipIdx number).map fun (line, number) => (number, Text.trimEnd line)

theorem isIndented_trimEnd {line : List Char} (filled : Text.words line ≠ []) :
    isIndented (Text.trimEnd line) = isIndented line := by
  rw [isIndented, isIndented, Text.head?_trimEnd filled]

/-- **The line of a class** is read as the class that the lines behind it belong to. -/
theorem tsrgLine_head (owner : Option (List Char)) (group : Group) :
    tsrgLine owner (Text.trimEnd group.head.line) =
      if "tsrg2 ".toList.isPrefixOf (Text.trimEnd group.head.line) then .error .newerFormat
      else if group.ofPackage then .ok (none, none)
      else .ok (some group.head.old, some (classEntry group.head.old group.head.new)) := by
  rw [tsrgLine, isIndented_trimEnd group.head.words_ne_nil, group.head.unindented, tsrgClassLine, Text.words_trimEnd,
    group.head.words]
  rfl

/-- An indented line is not the mark of a newer format. -/
theorem MemberLine.not_newerFormat (member : MemberLine) :
    "tsrg2 ".toList.isPrefixOf (Text.trimEnd member.line) = false := by
  rw [Bool.eq_false_iff, ne_eq, List.isPrefixOf_iff_prefix]
  rintro ⟨rest, same⟩
  have indented := member.indented
  rw [← isIndented_trimEnd member.words_ne_nil, ← same] at indented
  cases indented

/-- **The line of a member** is read as a member of the class in front of it. -/
theorem tsrgLine_member (owner : List Char) (member : MemberLine) :
    tsrgLine (some owner) (Text.trimEnd member.line) = .ok (some owner, some (member.said.entry owner)) := by
  rw [tsrgLine, member.not_newerFormat, isIndented_trimEnd member.words_ne_nil, member.indented, tsrgMemberLine,
    Text.words_trimEnd, member.words]
  cases member.said <;> rfl

/-- The line of a member is not read without a class. -/
theorem tsrgLine_orphan (member : MemberLine) :
    tsrgLine none (Text.trimEnd member.line) = .error .memberOutsideClass := by
  rw [tsrgLine, member.not_newerFormat, isIndented_trimEnd member.words_ne_nil, member.indented]
  rfl

/-! ### All lines -/

/-- **The lines of members** are read one after another, all of them as members of one class. -/
theorem tsrgLines_members (owner : List Char) (members : List MemberLine) (number : Nat) (found : List Numbered)
    (rest : List (Nat × List Char)) :
    tsrgLines (some owner) found (numberedLines number (members.map MemberLine.line) ++ rest) =
      tsrgLines (some owner) ((memberEntries owner number members).reverse ++ found) rest := by
  induction members generalizing number found with
  | nil => rfl
  | cons member members ih =>
    have opened : numberedLines number ((member :: members).map MemberLine.line) =
        (number, Text.trimEnd member.line) :: numberedLines (number + 1) (members.map MemberLine.line) := rfl
    have listed : memberEntries owner number (member :: members) =
        (number, member.said.entry owner) :: memberEntries owner (number + 1) members := rfl
    rw [opened, listed, List.cons_append, tsrgLines, tsrgLine_member, List.reverse_cons, List.append_assoc,
      List.singleton_append]
    exact ih (number + 1) _

/-- The numbered lines of groups: the class of the first one, its members, and the other groups. -/
theorem numberedLines_groups (number : Nat) (group : Group) (rest : List Group) :
    numberedLines number ((group :: rest).flatMap Group.lines) =
      (number, Text.trimEnd group.head.line) ::
        (numberedLines (number + 1) (group.members.map MemberLine.line) ++
          numberedLines (number + group.lines.length) (rest.flatMap Group.lines)) := by
  rw [numberedLines, List.flatMap_cons, Group.lines, List.cons_append, List.zipIdx_cons, List.zipIdx_append,
    List.map_cons, List.map_append, List.length_cons, Nat.add_right_comm, Nat.add_assoc]
  rfl

/-- **The lines of a group** are read exactly if the group can be read, and then as its entries. -/
theorem tsrgLines_group {owner : Option (List Char)} {found entries : List Numbered} {number : Nat} {group : Group}
    {rest : List (Nat × List Char)} :
    tsrgLines owner found ((number, Text.trimEnd group.head.line) ::
        (numberedLines (number + 1) (group.members.map MemberLine.line) ++ rest)) = .ok entries ↔
      group.Readable ∧ tsrgLines group.owner ((group.entries number).reverse ++ found) rest = .ok entries := by
  rw [tsrgLines, tsrgLine_head, Group.owner, Group.entries]
  by_cases newer : "tsrg2 ".toList.isPrefixOf (Text.trimEnd group.head.line) = true
  · rw [if_pos newer]
    constructor
    · intro done
      cases done
    · rintro ⟨readable, -⟩
      exact absurd (newer.symm.trans readable.current) (by decide)
  rw [if_neg newer]
  rw [Bool.not_eq_true] at newer
  by_cases package : group.ofPackage = true
  · rw [if_pos package, if_pos package, if_pos package]
    cases members : group.members with
    | nil =>
      have readable : group.Readable := ⟨newer, fun _ => members⟩
      exact (and_iff_right readable).symm
    | cons member others =>
      -- the first member has no class to stand under
      have orphan : tsrgLines none found (numberedLines (number + 1) ((member :: others).map MemberLine.line) ++ rest) =
          .error { line := number + 1, cause := .memberOutsideClass } := by
        show tsrgLines none found ((number + 1, Text.trimEnd member.line) :: _) = _
        rw [tsrgLines, tsrgLine_orphan]
      constructor
      · intro done
        cases orphan.symm.trans done
      · rintro ⟨readable, -⟩
        cases members.symm.trans (readable.owned package)
  · have readable : group.Readable := ⟨newer, fun isPackage => absurd isPackage package⟩
    rw [if_neg package, if_neg package, if_neg package, and_iff_right readable, List.reverse_cons, List.append_assoc,
      List.singleton_append, ← tsrgLines_members]

/-- **The lines of groups** are read exactly if every group can be read, and then as the entries of the groups. By
induction over the groups, whatever class stands in front of them. -/
theorem tsrgLines_groups {owner : Option (List Char)} {found entries : List Numbered} {number : Nat}
    {groups : List Group} :
    tsrgLines owner found (numberedLines number (groups.flatMap Group.lines)) = .ok entries ↔
      (∀ group ∈ groups, group.Readable) ∧ entries = found.reverse ++ entriesFrom number groups := by
  induction groups generalizing owner found number with
  | nil =>
    show Except.ok found.reverse = .ok entries ↔ _
    rw [entriesFrom, List.append_nil, Except.ok.injEq, eq_comm]
    exact (and_iff_right nofun).symm
  | cons group rest ih =>
    rw [numberedLines_groups, tsrgLines_group, ih, List.forall_mem_cons, entriesFrom, and_assoc, List.reverse_append,
      List.reverse_reverse, List.append_assoc]

/-- A text that is made of groups is read exactly if every group can be read, and then as the entries of the groups. -/
theorem Grouped.parseTsrg_eq_ok {text : String} {groups : List Group} (grouped : Grouped text groups)
    {entries : List Numbered} :
    parseTsrg text = .ok entries ↔ (∀ group ∈ groups, group.Readable) ∧ entries = entriesFrom 1 groups := by
  rw [parseTsrg, contentLines_eq grouped.not_mem_line grouped.words_ne_nil, grouped.lines]
  exact tsrgLines_groups

/-! ### The table of a text -/

/-- **Groups are loaded as groups** if one of the first lines starts with a tab. The table is that of the entries that
the text has in TSRG, in both directions. There are such entries exactly if every group can be read, and then they are
the classes and, under each of them, its own members. -/
theorem parse_grouped {text : String} {groups : List Group} (grouped : Grouped text groups)
    (tabbed : ∃ line ∈ (Text.lines text.toList).take 64, line.head? = some '\t') (direction : Direction) :
    (Table.parse text direction = do
      let entries ← parseTsrg text
      Table.ofEntries entries direction) ∧
    ∀ entries, parseTsrg text = .ok entries ↔ (∀ group ∈ groups, group.Readable) ∧ entries = entriesFrom 1 groups := by
  have shown : Format.detect text = .tsrg := by
    obtain ⟨line, listed, tab⟩ := tabbed
    rw [grouped.detect_eq, if_pos]
    exact List.any_eq_true.mpr ⟨line, listed, by rw [tab]; rfl⟩
  refine ⟨?_, fun entries => grouped.parseTsrg_eq_ok⟩
  rw [Table.parse, shown, parseAs]

/-- A package, a class with a method that is indented by a space, and a class with a field that is indented by a tab. -/
def mixedGroups : List Group :=
  [{ head := { line := "./ x/".toList, old := "./".toList, new := "x/".toList, unindented := rfl, words := by decide }
     members := [] },
    { head := { line := "a b".toList, old := ['a'], new := ['b'], unindented := rfl, words := by decide }
      members := [{ line := " c (I)V d ".toList, said := .ofMethod ['c'] "(I)V".toList ['d'], indented := rfl,
                    words := by decide }] },
    { head := { line := "e  f".toList, old := ['e'], new := ['f'], unindented := rfl, words := by decide }
      members := [{ line := "\tg h".toList, said := .ofField ['g'] ['h'], indented := rfl, words := by decide }] }]

theorem parse_grouped_mixed :
    let text := "./ x/\na b\n c (I)V d \r\ne  f\n\tg h"
    Grouped text mixedGroups ∧ (∃ line ∈ (Text.lines text.toList).take 64, line.head? = some '\t') ∧
      (Table.parse text .reverse = do
        let entries ← parseTsrg text
        Table.ofEntries entries .reverse) ∧
      parseTsrg text = .ok [(2, .ofClass "a" "b"), (3, .ofMethod "a" "c" "(I)V" "d"), (4, .ofClass "e" "f"),
        (5, .ofField "e" "g" "h")] := by
  intro text
  have grouped : Grouped text mixedGroups :=
    ⟨by decide +kernel, by decide +kernel, by decide +kernel, by decide +kernel⟩
  have tabbed : ∃ line ∈ (Text.lines text.toList).take 64, line.head? = some '\t' := by decide +kernel
  have readable : ∀ group ∈ mixedGroups, group.Readable := by
    refine List.forall_mem_cons.mpr ⟨⟨by decide, fun _ => rfl⟩, List.forall_mem_cons.mpr ⟨⟨by decide, ?_⟩,
      List.forall_mem_singleton.mpr ⟨by decide, ?_⟩⟩⟩
    · intro package
      cases package
    · intro package
      cases package
  obtain ⟨loaded, read⟩ := parse_grouped grouped tabbed .reverse
  exact ⟨grouped, tabbed, loaded, (read _).mpr ⟨readable, by decide +kernel⟩⟩

/-! ### Groups that do not show -/

section Unshown

variable {text : String} {heads : List Numbered} {line : Nat}

/-- A text that is taken for one without groups loads the field in its last line as a class. -/
theorem parse_ne_grouped (shown : Format.detect text = .csrg)
    (plain : ∀ numbered ∈ heads, numbered.2 = .ofClass "a" "b")
    (guess : parseCsrg text = .ok (heads ++ [(line, .ofClass "c" "d")]))
    (read : parseTsrg text = .ok (heads ++ [(line, .ofField "a" "c" "d")])) :
    Table.parse text .forward ≠ (do
      let entries ← parseTsrg text
      Table.ofEntries entries .forward) := by
  have guessed : ∀ numbered ∈ heads ++ [(line, Entry.ofClass "c" "d")],
      numbered.2 = .ofClass "a" "b" ∨ numbered.2 = .ofClass "c" "d" := by
    intro numbered member
    rcases List.mem_append.mp member with head | last
    · exact .inl (plain numbered head)
    · exact .inr (congrArg Prod.snd (List.mem_singleton.mp last))
  have absent : ∀ numbered ∈ heads ++ [(line, Entry.ofField "a" "c" "d")], numbered.2.key ≠ .ofClass "c" := by
    intro numbered member
    rcases List.mem_append.mp member with head | last
    · rw [plain numbered head]
      decide
    · rw [List.mem_singleton.mp last]
      exact nofun
  have exists_table : ∃ table, Table.ofForward (heads ++ [(line, .ofClass "c" "d")]) = .ok table := by
    refine Table.exists_ofForward_iff.mpr ⟨fun numbered member => ?_, fun first one second two => ?_⟩
    · rcases guessed numbered member with entry | entry <;> rw [entry] <;> trivial
    · rcases guessed first one with entry | entry <;> rcases guessed second two with entryToo | entryToo <;>
        rw [entry, entryToo] <;> decide
  obtain ⟨table, built⟩ := exists_table
  have held : table.get? (.ofClass "c") = some "d" :=
    (Table.holds_ofForward built (.ofClass "c" "d")).mpr ⟨line, List.mem_append_right _ List.mem_cons_self⟩
  rw [Table.parse, shown, parseAs, guess, read, ok_bind, ok_bind, Table.ofEntries_forward, Table.ofEntries_forward,
    built]
  intro same
  rw [Table.get?_ofForward_eq_none same.symm (.ofClass "c") absent] at held
  cases held

/-- A class without members, in a line of its own. -/
def plainHead : ClassLine where
  line := "a b".toList
  old := ['a']
  new := ['b']
  unindented := rfl
  words := by decide

/-- A field that is indented by a tab or by a space. -/
def plainField (indent : Indent) : MemberLine where
  line := indent.char :: "c d".toList
  said := .ofField ['c'] ['d']
  indented := by cases indent <;> rfl
  words := by cases indent <;> decide

/-- A field that is indented by a space. -/
def spacedGroups : List Group :=
  [{ head := plainHead, members := [plainField .space] }]

/-- A field that stands behind as many lines of classes as show the format. -/
def lateGroups : List Group :=
  List.replicate 63 { head := plainHead, members := [] } ++ [{ head := plainHead, members := [plainField .tab] }]

/-- The text of these groups. -/
def lateText : String :=
  String.ofList (Text.ended (lateGroups.flatMap Group.lines))

theorem lines_lateText : Text.lines lateText.toList = lateGroups.flatMap Group.lines := by
  rw [lateText, String.toList_ofList]
  exact Text.lines_ended (by decide +kernel) (by decide +kernel)

theorem grouped_lateText : Grouped lateText lateGroups where
  lines := lines_lateText
  unarrowed := by
    rw [lines_lateText]
    decide +kernel
  uncommented := by
    rw [lines_lateText]
    decide +kernel
  unmarked := by
    rw [lines_lateText]
    decide +kernel

/-- The entries of the classes in that text. -/
def lateHeads : List Numbered :=
  (List.range 64).map fun index => (index + 1, .ofClass "a" "b")

/-- **Not all groups are loaded as groups.** A field that is indented by a space does not show that there are groups,
nor does a tab behind the first lines, and both are loaded as classes. -/
theorem not_parse_grouped :
    (Grouped "a b\n c d\n" spacedGroups ∧ (∃ group ∈ spacedGroups, group.members ≠ []) ∧
      Table.parse "a b\n c d\n" .forward ≠ do
        let entries ← parseTsrg "a b\n c d\n"
        Table.ofEntries entries .forward) ∧
    (Grouped lateText lateGroups ∧ (∃ group ∈ lateGroups, group.members ≠ []) ∧
      Table.parse lateText .forward ≠ do
        let entries ← parseTsrg lateText
        Table.ofEntries entries .forward) := by
  refine ⟨⟨⟨by decide +kernel, by decide +kernel, by decide +kernel, by decide +kernel⟩, ?_, ?_⟩,
    grouped_lateText, ?_, ?_⟩
  · exact ⟨_, List.mem_cons_self, List.cons_ne_nil _ _⟩
  · have guess : parseCsrg "a b\n c d\n" = .ok ([(1, .ofClass "a" "b")] ++ [(2, .ofClass "c" "d")]) := by decide +kernel
    have read : parseTsrg "a b\n c d\n" = .ok ([(1, .ofClass "a" "b")] ++ [(2, .ofField "a" "c" "d")]) := by
      decide +kernel
    exact parse_ne_grouped (by decide +kernel) (by decide) guess read
  · exact ⟨_, List.mem_append_right _ List.mem_cons_self, List.cons_ne_nil _ _⟩
  · have shown : Format.detect lateText = .csrg := by
      rw [grouped_lateText.detect_eq, lines_lateText]
      decide +kernel
    have guess : parseCsrg lateText = .ok (lateHeads ++ [(65, .ofClass "c" "d")]) := by
      rw [parseCsrg, readLines, contentLines_eq grouped_lateText.not_mem_line grouped_lateText.words_ne_nil,
        lines_lateText]
      decide +kernel
    have read : parseTsrg lateText = .ok (lateHeads ++ [(65, .ofField "a" "c" "d")]) := by
      rw [parseTsrg, contentLines_eq grouped_lateText.not_mem_line grouped_lateText.words_ne_nil, lines_lateText]
      decide +kernel
    have plain : ∀ numbered ∈ lateHeads, numbered.2 = .ofClass "a" "b" := by
      intro numbered member
      obtain ⟨index, -, rfl⟩ := List.mem_map.mp member
      rfl
    exact parse_ne_grouped shown plain guess read

end Unshown

end JarRename.Mapping
