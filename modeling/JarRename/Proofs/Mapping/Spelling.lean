import JarRename.Mapping.Lines
import JarRename.Proofs.Outcome
import JarRename.Proofs.Text.Lines
import Mathlib.Data.List.TakeWhile

/-!
**Three spellings of a mapping.**

A mapping is written class by class, each class with its members behind it and one entry to a line. The three line
formats say the same in this way: the path of a member has its owner in front of the last slash, a word of its own
names the owner, or the owner is the class that the line is indented under.

* `Word`, `Name`, `Block`: what can be written, with the conditions under which a line says what it should;
* `Item`, `Block.items`, `numbered`: the entries of blocks, with the numbers of their lines;
* `srgText`, `csrgText`, `tsrgText`: the three spellings;
* `contentLines_eq`, `readLines_spelled`: lines that are read one by one;
* `Led`, `tsrgLines_spelled`: lines that are read under the class in front of them;
* `parse_spelled`: all three are read as the same entries.
-/

namespace JarRename.Mapping

open Text (isBlank)

/-! ### Words and names -/

/-- A character that can stand in a word, which is neither white space nor the mark of a comment. -/
def isPlain (c : Char) : Bool :=
  !isBlank c && c != '#'

/-- A word of a line: it has characters, and all of them can stand in a word. -/
structure Word where
  text : String
  filled : text ≠ "" := by decide
  plain : text.toList.all isPlain := by decide

/-- The name of a member, which has no slash. -/
structure Name extends Word where
  simple : '/' ∉ text.toList := by decide

namespace Word

/-- The characters of a word. -/
def chars (word : Word) : List Char :=
  word.text.toList

/-- The path of a member: the name behind that of its owner. -/
def path (owner : Word) (name : Name) : Word where
  text := owner.text ++ "/" ++ name.text
  filled := by simp
  plain := by
    rw [String.toList_append, String.toList_append, List.all_append, List.all_append, owner.plain, name.plain]
    decide

theorem chars_ne_nil (word : Word) : word.chars ≠ [] := by
  simpa [chars] using word.filled

theorem isBlank_chars (word : Word) : ∀ c ∈ word.chars, isBlank c = false := by
  intro c member
  have plain := List.all_eq_true.mp word.plain c member
  rw [isPlain, Bool.and_eq_true, Bool.not_eq_true'] at plain
  exact plain.1

theorem not_mem_chars (word : Word) : '#' ∉ word.chars := fun member =>
  Bool.false_ne_true (List.all_eq_true.mp word.plain '#' member)

theorem ofList_chars (word : Word) : String.ofList word.chars = word.text :=
  String.ofList_toList

/-- The line of words. -/
def line (words : List Word) : List Char :=
  Text.spaced (words.map chars)

end Word

/-! ### Blocks -/

/-- A member of a class with its new name. -/
inductive Renaming where
  | ofField (old new : Name)
  | ofMethod (old : Name) (descriptor : Word) (new : Name)

/-- A class with its new name and the new names of members. It does not look like the renaming of a package, or like
the mark of a newer format. -/
structure Block where
  old : Word
  new : Word
  members : List Renaming
  isClass : (isPackage old.chars && isPackage new.chars) = false
  current : old.text ≠ "tsrg2"

/-- One entry of a block. -/
inductive Item where
  | ofClass (block : Block)
  | ofMember (block : Block) (member : Renaming)

/-- The entries of a block: the class, then its members. -/
def Block.items (block : Block) : List Item :=
  .ofClass block :: block.members.map (.ofMember block)

namespace Item

/-- The entry itself. -/
def entry : Item → Entry
  | ofClass block => .ofClass block.old.text block.new.text
  | ofMember block (.ofField old new) => .ofField block.old.text old.text new.text
  | ofMember block (.ofMethod old descriptor new) =>
    .ofMethod block.old.text old.text descriptor.text new.text

end Item

/-- The entries of blocks in order, numbered from one. -/
def numbered (blocks : List Block) : List Numbered :=
  ((blocks.flatMap Block.items).zipIdx 1).map fun (item, number) => (number, item.entry)

/-! ### The spellings -/

/-- The text of blocks with an entry to each line, which may be spelled by its number. -/
def spelled (line : Nat → Item → List Char) (blocks : List Block) : String :=
  String.ofList (Text.ended (((blocks.flatMap Block.items).zipIdx 1).map fun (item, number) => line number item))

namespace Item

/-- The line of an entry in SRG. The new descriptor of a method says nothing new. -/
def srgLine (newDescriptor : Word) : Item → List Char
  | ofClass block => Word.line [{ text := "CL:" }, block.old, block.new]
  | ofMember block (.ofField old new) =>
    Word.line [{ text := "FD:" }, block.old.path old, block.new.path new]
  | ofMember block (.ofMethod old descriptor new) =>
    Word.line [{ text := "MD:" }, block.old.path old, descriptor, block.new.path new, newDescriptor]

/-- The line of an entry in CSRG. -/
def csrgLine : Item → List Char
  | ofClass block => Word.line [block.old, block.new]
  | ofMember block (.ofField old new) => Word.line [block.old, old.toWord, new.toWord]
  | ofMember block (.ofMethod old descriptor new) =>
    Word.line [block.old, old.toWord, descriptor, new.toWord]

end Item

/-- What a line is indented by. -/
inductive Indent where
  | tab
  | space

/-- The character of an indentation. -/
def Indent.char : Indent → Char
  | tab => '\t'
  | space => ' '

/-- The line of an entry in TSRG. -/
def Item.tsrgLine (indent : Indent) : Item → List Char
  | ofClass block => Word.line [block.old, block.new]
  | ofMember _ (.ofField old new) => indent.char :: Word.line [old.toWord, new.toWord]
  | ofMember _ (.ofMethod old descriptor new) =>
    indent.char :: Word.line [old.toWord, descriptor, new.toWord]

/-- The text of blocks in SRG, with a new descriptor for the method in each line that has one. -/
def srgText (newDescriptor : Nat → Word) (blocks : List Block) : String :=
  spelled (fun number => Item.srgLine (newDescriptor number)) blocks

/-- The text of blocks in CSRG. -/
def csrgText (blocks : List Block) : String :=
  spelled (fun _ => Item.csrgLine) blocks

/-- The text of blocks in TSRG, with an indentation for the member in each line that has one. -/
def tsrgText (indent : Nat → Indent) (blocks : List Block) : String :=
  spelled (fun number => Item.tsrgLine (indent number)) blocks

/-! ### Lines -/

/-- A line that says something and has no comment. -/
structure Plain (line : List Char) : Prop where
  unbroken : '\n' ∉ line
  uncommented : '#' ∉ line
  ends : ∃ c, line.getLast? = some c ∧ isBlank c = false

namespace Plain

variable {line : List Char}

theorem trimEnd_eq (plain : Plain line) : Text.trimEnd line = line := by
  obtain ⟨c, last, seen⟩ := plain.ends
  exact Text.trimEnd_of_getLast? last seen

theorem words_ne_nil (plain : Plain line) : Text.words line ≠ [] := by
  obtain ⟨c, last, seen⟩ := plain.ends
  obtain ⟨word, listed, -⟩ := Text.exists_word (List.mem_of_getLast? last) seen
  exact List.ne_nil_of_mem listed

theorem indented (plain : Plain line) (indent : Indent) : Plain (indent.char :: line) where
  unbroken := by
    refine List.not_mem_cons_of_ne_of_not_mem ?_ plain.unbroken
    cases indent <;> decide
  uncommented := by
    refine List.not_mem_cons_of_ne_of_not_mem ?_ plain.uncommented
    cases indent <;> decide
  ends := by
    obtain ⟨c, last, seen⟩ := plain.ends
    refine ⟨c, ?_, seen⟩
    rw [List.getLast?_cons_of_ne_nil, last]
    rintro rfl
    cases last

end Plain

namespace Word

theorem words_line (words : List Word) : Text.words (line words) = words.map chars := by
  refine Text.words_spaced ?_ ?_
  · intro chars member
    obtain ⟨word, -, rfl⟩ := List.mem_map.mp member
    exact word.chars_ne_nil
  · intro chars member
    obtain ⟨word, -, rfl⟩ := List.mem_map.mp member
    exact word.isBlank_chars

/-- A line of words says something. -/
theorem plain_line {words : List Word} (filled : words ≠ []) : Plain (line words) where
  unbroken := by
    intro member
    rcases Text.mem_spaced member with space | ⟨chars, inside, found⟩
    · cases space
    · obtain ⟨word, -, rfl⟩ := List.mem_map.mp inside
      exact Bool.false_ne_true ((word.isBlank_chars _ found).symm.trans (by decide))
  uncommented := by
    intro member
    rcases Text.mem_spaced member with space | ⟨chars, inside, found⟩
    · cases space
    · obtain ⟨word, -, rfl⟩ := List.mem_map.mp inside
      exact word.not_mem_chars found
  ends := by
    let word := words.getLast filled
    have ends : (words.map chars).getLast? = some word.chars := by
      rw [List.getLast?_map, List.getLast?_eq_some_getLast filled, Option.map_some]
    have last := List.getLast?_eq_some_getLast word.chars_ne_nil
    exact ⟨_, (Text.getLast?_spaced ends word.chars_ne_nil).trans last,
      word.isBlank_chars _ (List.mem_of_getLast? last)⟩

end Word

/-- **Lines with words** and without comments are read with their numbers. -/
theorem contentLines_eq {text : List Char} (uncommented : ∀ line ∈ Text.lines text, '#' ∉ line)
    (filled : ∀ line ∈ Text.lines text, Text.words line ≠ []) :
    contentLines text = ((Text.lines text).zipIdx 1).map fun (line, number) => (number, Text.trimEnd line) := by
  rw [contentLines, ← List.filterMap_eq_map]
  refine List.filterMap_congr ?_
  rintro ⟨line, number⟩ member
  have listed := List.fst_mem_of_mem_zipIdx member
  have whole : line.takeWhile (· != '#') = line := by
    refine List.takeWhile_eq_self_iff.mpr fun c inside => ?_
    rw [bne_iff_ne]
    exact ne_of_mem_of_not_mem inside (uncommented line listed)
  have seen : (Text.trimStart (Text.trimEnd line)).isEmpty = false := by
    rw [List.isEmpty_eq_false_iff]
    exact Text.trimStart_ne_nil (by rw [Text.words_trimEnd]; exact filled line listed)
  simp only [withoutComment, whole, seen, Bool.false_eq_true, if_false, Function.comp_apply]

/-- Lines that say something are read as they are. -/
theorem contentLines_ended {all : List (List Char)} (plain : ∀ line ∈ all, Plain line) :
    contentLines (Text.ended all) = (all.zipIdx 1).map fun (line, number) => (number, line) := by
  have bare : ∀ line ∈ all, line.getLast? ≠ some '\r' := by
    intro line member ends
    obtain ⟨c, last, seen⟩ := (plain line member).ends
    cases last.symm.trans ends
    exact Bool.false_ne_true (seen.symm.trans (by decide))
  have lines := Text.lines_ended (fun line member => (plain line member).unbroken) bare
  have read := contentLines_eq (lines.symm ▸ fun line member => (plain line member).uncommented)
    (lines.symm ▸ fun line member => (plain line member).words_ne_nil)
  rw [read, lines]
  refine List.map_congr_left ?_
  rintro ⟨line, number⟩ member
  simp only [(plain line (List.fst_mem_of_mem_zipIdx member)).trimEnd_eq]

/-- The numbers of lines are those that their items have. -/
theorem zipIdx_spelled (line : Nat → Item → List Char) (items : List Item) (start : Nat) :
    ((items.zipIdx start).map fun (item, number) => line number item).zipIdx start =
      (items.zipIdx start).map fun (item, number) => (line number item, number) := by
  induction items generalizing start with
  | nil => rfl
  | cons item rest ih => rw [List.zipIdx_cons, List.map_cons, List.map_cons, List.zipIdx_cons, ih]

/-- The lines of blocks that are spelled in lines that say something. -/
theorem contentLines_spelled {line : Nat → Item → List Char} (plain : ∀ number item, Plain (line number item))
    (blocks : List Block) :
    contentLines (spelled line blocks).toList =
      ((blocks.flatMap Block.items).zipIdx 1).map fun (item, number) => (number, line number item) := by
  rw [spelled, String.toList_ofList, contentLines_ended, zipIdx_spelled, List.map_map]
  · rfl
  · intro text member
    obtain ⟨⟨item, number⟩, -, rfl⟩ := List.mem_map.mp member
    exact plain number item

/-! ### Lines that are read one by one -/

/-- **Blocks are read back** from lines of which each is read as its entry. -/
theorem readLines_spelled {entry : List Char → Except MappingCause (Option Entry)} {line : Nat → Item → List Char}
    (plain : ∀ number item, Plain (line number item))
    (reads : ∀ number item, entry (line number item) = .ok (some item.entry)) (blocks : List Block) :
    readLines entry (spelled line blocks) = .ok (numbered blocks) := by
  rw [readLines, contentLines_spelled plain, bind_eq_ok]
  refine ⟨((blocks.flatMap Block.items).zipIdx 1).map fun (item, number) => some (number, item.entry), ?_, ?_⟩
  · rw [mapM_eq_ok, List.forall₂_map_left_iff, List.forall₂_map_right_iff]
    refine List.forall₂_same.mpr ?_
    rintro ⟨item, number⟩ -
    simp only [reads, Option.map_some]
  · rw [List.filterMap_map, numbered, ← List.filterMap_eq_map]
    rfl

/-- The owner and the name are read back from the path of a member. -/
theorem splitMember_path (owner : Word) (name : Name) :
    splitMember (owner.path name).chars = .ok (owner.chars, name.chars) := by
  have opened : (owner.path name).chars = owner.chars ++ '/' :: name.chars := by simp [Word.chars, Word.path]
  have split : Text.splitLast? '/' (owner.chars ++ '/' :: name.chars) = some (owner.chars, name.chars) :=
    Text.splitLast?_append name.simple owner.chars
  rw [splitMember, opened, split]
  simp [owner.chars_ne_nil, name.chars_ne_nil]

theorem Item.plain_srgLine (newDescriptor : Word) (item : Item) : Plain (item.srgLine newDescriptor) := by
  cases item with
  | ofClass block => exact Word.plain_line (by simp)
  | ofMember block member => cases member <;> exact Word.plain_line (by simp)

/-- **A line of SRG** is read as its entry. -/
theorem Item.srgEntry_srgLine (newDescriptor : Word) (item : Item) :
    srgEntry (item.srgLine newDescriptor) = .ok (some item.entry) := by
  cases item with
  | ofClass block =>
    rw [srgLine, srgEntry, Word.words_line]
    simp [Word.chars, entry, classEntry]
  | ofMember block member =>
    cases member with
    | ofField old new =>
      rw [srgLine, srgEntry, Word.words_line]
      simp only [List.map_cons, List.map_nil, splitMember_path, ok_bind]
      simp [Word.chars, entry, fieldEntry, pure_eq_ok]
    | ofMethod old descriptor new =>
      rw [srgLine, srgEntry, Word.words_line]
      simp only [List.map_cons, List.map_nil, splitMember_path, ok_bind]
      simp [Word.chars, entry, methodEntry, pure_eq_ok]

theorem Item.plain_csrgLine (item : Item) : Plain item.csrgLine := by
  cases item with
  | ofClass block => exact Word.plain_line (by simp)
  | ofMember block member => cases member <;> exact Word.plain_line (by simp)

/-- **A line of CSRG** is read as its entry, by the number of its words. -/
theorem Item.csrgEntry_csrgLine (item : Item) : csrgEntry item.csrgLine = .ok (some item.entry) := by
  cases item with
  | ofClass block =>
    rw [csrgLine, csrgEntry, Word.words_line]
    simp [block.isClass, classEntry, Word.ofList_chars, entry]
  | ofMember block member =>
    cases member with
    | ofField old new =>
      rw [csrgLine, csrgEntry, Word.words_line]
      simp [fieldEntry, Word.ofList_chars, entry]
    | ofMethod old descriptor new =>
      rw [csrgLine, csrgEntry, Word.words_line]
      simp [methodEntry, Word.ofList_chars, entry]

/-! ### Lines that are read under a class -/

theorem Item.plain_tsrgLine (indent : Indent) (item : Item) : Plain (item.tsrgLine indent) := by
  cases item with
  | ofClass block => exact Word.plain_line (by simp)
  | ofMember block member => cases member <;> exact (Word.plain_line (by simp)).indented indent

/-- The lines of members stand behind that of their class. -/
def Led : Option Block → List Item → Prop
  | _, [] => True
  | _, .ofClass block :: rest => Led (some block) rest
  | owner, .ofMember block _ :: rest => owner = some block ∧ Led owner rest

theorem led_members {block : Block} (members : List Renaming) {rest : List Item} (later : Led (some block) rest) :
    Led (some block) (members.map (.ofMember block) ++ rest) := by
  induction members with
  | nil => exact later
  | cons member others ih => exact ⟨rfl, ih⟩

/-- Every block starts with its class. -/
theorem led_items (owner : Option Block) (blocks : List Block) : Led owner (blocks.flatMap Block.items) := by
  induction blocks generalizing owner with
  | nil => trivial
  | cons block rest ih =>
    rw [List.flatMap_cons]
    exact led_members block.members (ih (some block))

/-- The line of a class is not the mark of a newer format. -/
theorem Block.not_newerFormat (block : Block) :
    "tsrg2 ".toList.isPrefixOf (Word.line [block.old, block.new]) = false := by
  rw [Bool.eq_false_iff, ne_eq, List.isPrefixOf_iff_prefix]
  rintro ⟨rest, same⟩
  -- both texts have a space behind their first word
  have opened : Word.line [block.old, block.new] = block.old.chars ++ ' ' :: block.new.chars := by
    simp [Word.line, Text.spaced, List.intercalate_cons_cons]
  let mark : Word := { text := "tsrg2" }
  have marked : "tsrg2 ".toList ++ rest = mark.chars ++ ' ' :: rest := by simp [mark, Word.chars]
  have pieces := congrArg (Text.pieces isBlank) (marked.symm.trans (same.trans opened))
  rw [Text.pieces_append_cut mark.isBlank_chars (by decide),
    Text.pieces_append_cut block.old.isBlank_chars (by decide), List.cons.injEq] at pieces
  exact block.current (String.toList_injective pieces.1.symm)

/-- The line of a class is not indented. -/
theorem Block.not_indented (block : Block) : isIndented (Word.line [block.old, block.new]) = false := by
  obtain ⟨c, rest, chars⟩ := List.exists_cons_of_ne_nil block.old.chars_ne_nil
  have seen := block.old.isBlank_chars c (chars ▸ List.mem_cons_self)
  have opened : Word.line [block.old, block.new] = c :: (rest ++ ' ' :: block.new.chars) := by
    simp [Word.line, Text.spaced, List.intercalate_cons_cons, chars]
  rw [opened, isIndented, List.head?_cons]
  have noTab : c ≠ '\t' := by
    rintro rfl
    cases seen
  have noSpace : c ≠ ' ' := by
    rintro rfl
    cases seen
  simp [noTab, noSpace]

/-- **A line of TSRG** is read as its entry, under the class in front of it or as the next class. -/
theorem tsrgLine_item {owner : Option Block} {item : Item} {rest : List Item} (led : Led owner (item :: rest))
    (indent : Indent) : ∃ next, Led next rest ∧
      tsrgLine (owner.map fun block => block.old.chars) (item.tsrgLine indent) =
        .ok (next.map fun block => block.old.chars, some item.entry) := by
  cases item with
  | ofClass block =>
    refine ⟨some block, led, ?_⟩
    rw [Item.tsrgLine, tsrgLine, block.not_newerFormat, block.not_indented, tsrgClassLine, Word.words_line]
    simp [block.isClass, classEntry, Word.ofList_chars, Item.entry]
  | ofMember block member =>
    obtain ⟨rfl, later⟩ := led
    refine ⟨some block, later, ?_⟩
    have older (line : List Char) : "tsrg2 ".toList.isPrefixOf (indent.char :: line) = false := by
      cases indent <;> rfl
    have inside (line : List Char) : isIndented (indent.char :: line) = true := by
      cases indent <;> rfl
    have blank : isBlank indent.char = true := by
      cases indent <;> rfl
    cases member with
    | ofField old new =>
      rw [Item.tsrgLine, tsrgLine, older, inside, Option.map_some, tsrgMemberLine, Text.words_cons blank,
        Word.words_line]
      simp [fieldEntry, Word.ofList_chars, Item.entry]
    | ofMethod old descriptor new =>
      rw [Item.tsrgLine, tsrgLine, older, inside, Option.map_some, tsrgMemberLine, Text.words_cons blank,
        Word.words_line]
      simp [methodEntry, Word.ofList_chars, Item.entry]

/-- **All lines of TSRG** are read as their entries, by induction over the lines with the class they stand under. -/
theorem tsrgLines_spelled (indent : Nat → Indent) {owner : Option Block} {items : List Item} (led : Led owner items)
    (start : Nat) (found : List Numbered) :
    tsrgLines (owner.map fun block => block.old.chars) found
        ((items.zipIdx start).map fun (item, number) => (number, item.tsrgLine (indent number))) =
      .ok (found.reverse ++ (items.zipIdx start).map fun (item, number) => (number, item.entry)) := by
  induction items generalizing owner start found with
  | nil => rw [List.zipIdx_nil, List.map_nil, List.map_nil, tsrgLines, List.append_nil]
  | cons item rest ih =>
    obtain ⟨next, later, read⟩ := tsrgLine_item led (indent start)
    simp only [List.zipIdx_cons, List.map_cons, tsrgLines, read]
    rw [ih later, List.reverse_cons, List.append_assoc]
    rfl

/-! ### All three -/

/-- **The three formats are spellings of one mapping.** Whatever the new descriptors in the one and the indentations in
the other, blocks are read back from each as the entries that they have, with the numbers of their lines. -/
theorem parse_spelled (blocks : List Block) (newDescriptor : Nat → Word) (indent : Nat → Indent) :
    parseSrg (srgText newDescriptor blocks) = .ok (numbered blocks) ∧
      parseCsrg (csrgText blocks) = .ok (numbered blocks) ∧
      parseTsrg (tsrgText indent blocks) = .ok (numbered blocks) := by
  refine ⟨?_, ?_, ?_⟩
  · exact readLines_spelled (fun number item => item.plain_srgLine (newDescriptor number))
      (fun number item => item.srgEntry_srgLine (newDescriptor number)) blocks
  · exact readLines_spelled (fun _ item => item.plain_csrgLine) (fun _ item => item.csrgEntry_csrgLine) blocks
  · rw [parseTsrg, tsrgText, contentLines_spelled fun number item => item.plain_tsrgLine (indent number)]
    exact tsrgLines_spelled indent (led_items none blocks) 1 []

/-- A class with the name of a mark, which goes into a package without a name, and a field with the name of another
mark. -/
def oddBlock : Block where
  old := { text := "PK:" }
  new := { text := "x/" }
  members := [.ofField { text := "CL:" } { text := "f" }, .ofMethod { text := "m" } { text := "(I)V" } { text := "n" }]
  isClass := by decide
  current := by decide

theorem parse_spelled_odd :
    let entries : List Numbered := [(1, .ofClass "PK:" "x/"), (2, .ofField "PK:" "CL:" "f"),
      (3, .ofMethod "PK:" "m" "(I)V" "n")]
    parseSrg "CL: PK: x/\nFD: PK:/CL: x//f\nMD: PK:/m (I)V x//n (J)V\n" = .ok entries ∧
      parseCsrg "PK: x/\nPK: CL: f\nPK: m (I)V n\n" = .ok entries ∧
      parseTsrg "PK: x/\n\tCL: f\n m (I)V n\n" = .ok entries := by
  let newDescriptor : Nat → Word := fun _ => { text := "(J)V" }
  let indent : Nat → Indent := fun number => if number = 2 then .tab else .space
  have srg : srgText newDescriptor [oddBlock] = "CL: PK: x/\nFD: PK:/CL: x//f\nMD: PK:/m (I)V x//n (J)V\n" := by
    decide +kernel
  have csrg : csrgText [oddBlock] = "PK: x/\nPK: CL: f\nPK: m (I)V n\n" := by decide +kernel
  have tsrg : tsrgText indent [oddBlock] = "PK: x/\n\tCL: f\n m (I)V n\n" := by decide +kernel
  have read := parse_spelled [oddBlock] newDescriptor indent
  rwa [srg, csrg, tsrg] at read

end JarRename.Mapping
