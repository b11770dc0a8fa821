import JarRename.Proofs.Renaming.Constants

/-!
**The sites of a renamed class.**

The sites of a renamed class are those of the class before, at the same locations and in the same order, and every
symbol is renamed by the answers for the names it had. Each part of the class is read once more, beside the part
before the renaming.

* `ClassFile.Reopened.constantSites`, `ClassFile.Reopened.fieldSites`, `ClassFile.Reopened.methodSites`,
  `ClassFile.Reopened.tableSites`, `ClassFile.Reopened.instructionSites`: the parts;
* `ClassFile.Reopened.account`, `ClassFile.Reopened.mentions`: the mentions in an attribute;
* `ClassFile.sites_of_rename`: all sites.
-/

namespace JarRename.ClassFile

namespace Reopened

variable {renamer : Renamer} {file after : ClassFile} {context later : SiteContext} {parts : SiteParts}
variable {count : Nat} {sites : List Site}

/-! ### Constants -/

/-- **The sites of the constants are renamed.** The names behind the pool have none. -/
theorem constantSites (reopened : Reopened renamer file context parts after count later)
    (done : context.constantSites = .ok sites) :
    ∃ new, later.constantSites = .ok new ∧ List.Forall₂ renamer.RenamesSite sites new := by
  obtain ⟨found, each, rfl⟩ := SiteContext.constantSites_eq_ok.mp done
  rw [reopened.collected.pool] at each
  obtain ⟨old, names, entries, alike, added⟩ := reopened.edited.pool.entries
  rw [← reopened.pool] at entries
  have step (entry renamed : Index × Constant) (site? : Option Site) (_ : entry ∈ file.pool.entries)
      (both : renamed.1 = entry.1 ∧ entry.2.Alike renamed.2) (done : context.entrySite? entry = .ok site?) :
      ∃ new?, later.entrySite? renamed = .ok new? ∧ Option.Rel renamer.RenamesSite site? new? := by
    unfold SiteContext.entrySite? at done ⊢
    rw [both.1, both.2.kind]
    split_ifs at done ⊢
    · cases done
      exact ⟨none, rfl, .none⟩
    · exact reopened.constantSite? done
  obtain ⟨again, eachAgain, related⟩ := mapM_related alike each step
  have nothing : names.mapM later.entrySite? = .ok (names.map fun _ => none) := by
    have small : later.pool.size ≤ Pool.maxSlots := reopened.pool ▸ reopened.edited.pool.small reopened.small
    refine mapM_none fun entry member => SiteContext.entrySite?_name ?_ (added entry member)
    exact (Pool.mem_entries small).mp (entries ▸ List.mem_append_right _ member)
  refine ⟨_, SiteContext.constantSites_eq_ok.mpr ⟨again ++ names.map fun _ => none, ?_, rfl⟩, ?_⟩
  · rw [entries, List.mapM_append, eachAgain, nothing]
    rfl
  · have none : (names.map fun _ => (none : Option Site)).filterMap id = [] := by simp
    rw [List.filterMap_append, none, List.append_nil]
    exact List.rel_filterMap (fun _ _ both => both) related

/-! ### Declarations -/

/-- The sites of declarations are renamed, if each declaration is. -/
theorem declarationSites {location : Nat → Location} {symbol newSymbol : String → String → Flags → Symbol}
    {members others : List Member} (length : others.length = members.length)
    (each : ∀ (position : Nat) member other name descriptor, members[position]? = some member →
      others[position]? = some other → context.pool.utf8 member.name = .ok name →
      context.pool.utf8 member.descriptor = .ok descriptor →
      ∃ newName newDescriptor, later.pool.utf8 other.name = .ok newName ∧
        later.pool.utf8 other.descriptor = .ok newDescriptor ∧
        renamer.renamedSymbol (symbol name descriptor member.flags) =
          .ok (newSymbol newName newDescriptor other.flags))
    (done : context.declarationSites location symbol members = .ok sites) :
    ∃ new, later.declarationSites location newSymbol others = .ok new ∧
      List.Forall₂ renamer.RenamesSite sites new := by
  have related : List.Forall₂ (fun item other => item.2 = other.2 ∧
      members[item.2]? = some item.1 ∧ others[item.2]? = some other.1) members.zipIdx others.zipIdx :=
    forall₂_zipIdx length fun position member other found kept => ⟨rfl, found, kept⟩
  refine mapM_related related done ?_
  rintro ⟨member, position⟩ ⟨other, _⟩ site - ⟨rfl, found, kept⟩ step
  obtain ⟨name, nameRead, step⟩ := bind_eq_ok.mp step
  obtain ⟨descriptor, descriptorRead, step⟩ := bind_eq_ok.mp step
  cases step
  obtain ⟨newName, newDescriptor, newNameRead, newDescriptorRead, renamed⟩ :=
    each position member other name descriptor found kept nameRead descriptorRead
  exact ⟨_, bind_eq_ok.mpr ⟨newName, newNameRead, bind_eq_ok.mpr ⟨newDescriptor, newDescriptorRead, rfl⟩⟩,
    rfl, renamed⟩

/-- **The sites of the declarations of fields are renamed.** -/
theorem fieldSites (reopened : Reopened renamer file context parts after count later)
    (done : context.fieldSites file.fields = .ok sites) :
    ∃ new, later.fieldSites after.fields = .ok new ∧ List.Forall₂ renamer.RenamesSite sites new := by
  rw [SiteContext.fieldSites_eq] at done ⊢
  refine declarationSites ?_
    (fun position field other name descriptor found kept nameRead descriptorRead => ?_) done
  · simpa using congrArg List.length reopened.edited.fieldFlags
  · obtain ⟨_, _, nameAgain, descriptorAgain, member⟩ := reopened.collected.field found
    rw [reopened.collected.pool] at nameRead descriptorRead
    cases nameRead.symm.trans nameAgain
    cases descriptorRead.symm.trans descriptorAgain
    obtain ⟨replacement?, asked, stores⟩ := reopened.stores _ member rfl
    obtain ⟨newName, newDescriptor, renamed, stored⟩ := Renamer.renamedSymbol_field reopened.name asked
    rw [Symbol.stored, stored, Stores, ← reopened.pool] at stores
    obtain ⟨_, otherKept, newNameRead, newDescriptorRead⟩ := stores
    cases kept.symm.trans otherKept
    obtain ⟨_, otherKept, flags⟩ := Member.exists_of_flags reopened.edited.fieldFlags found
    cases kept.symm.trans otherKept
    rw [flags]
    exact ⟨newName, newDescriptor, newNameRead, newDescriptorRead, renamed⟩

/-- **The sites of the declarations of methods are renamed.** -/
theorem methodSites (reopened : Reopened renamer file context parts after count later)
    (done : context.methodSites file.methods = .ok sites) :
    ∃ new, later.methodSites after.methods = .ok new ∧ List.Forall₂ renamer.RenamesSite sites new := by
  rw [SiteContext.methodSites_eq] at done ⊢
  refine declarationSites ?_
    (fun position method other name descriptor found kept nameRead descriptorRead => ?_) done
  · simpa using congrArg List.length reopened.edited.methodFlags
  · obtain ⟨_, _, nameAgain, descriptorAgain, member⟩ := reopened.collected.method found
    rw [reopened.collected.pool] at nameRead descriptorRead
    cases nameRead.symm.trans nameAgain
    cases descriptorRead.symm.trans descriptorAgain
    obtain ⟨replacement?, asked, stores⟩ := reopened.stores _ member rfl
    obtain ⟨newName, newDescriptor, renamed, stored⟩ := Renamer.renamedSymbol_method reopened.name asked
    rw [Symbol.stored, stored, Stores, ← reopened.pool] at stores
    obtain ⟨_, otherKept, newNameRead, newDescriptorRead⟩ := stores
    cases kept.symm.trans otherKept
    obtain ⟨_, otherKept, flags⟩ := Member.exists_of_flags reopened.edited.methodFlags found
    cases kept.symm.trans otherKept
    rw [flags]
    exact ⟨newName, newDescriptor, newNameRead, newDescriptorRead, renamed⟩

/-! ### Attributes -/

/-- What the walk over an attribute of the renamed class can rely on: each index stands for what is stored for the
renamed symbol. -/
theorem account (reopened : Reopened renamer file context parts after count later) :
    Mention.Account file.pool after.pool context.name later.name (renamer.Follows after.pool) where
  text := fun _ _ => reopened.edited.pool.utf8
  descriptor := by
    rintro old index new ⟨renamed, names⟩
    obtain ⟨found, mapped, same⟩ := bind_eq_ok.mp renamed
    cases same
    refine ⟨found, names, rfl, ?_⟩
    rintro rfl
    exact Descriptor.eq_void_of_rename mapped
  signature := by
    rintro old index new ⟨renamed, names⟩
    obtain ⟨found, -, same⟩ := bind_eq_ok.mp renamed
    cases same
    exact ⟨found, names, rfl⟩
  innerName := by
    rintro inner className old index new read ⟨renamed, names⟩
    obtain ⟨newClass, mapped, newRead⟩ := reopened.className reopened.small read
    obtain ⟨_, mappedAgain, same⟩ := bind_eq_ok.mp renamed
    cases mapped.symm.trans mappedAgain
    cases same
    exact ⟨newClass, _, newRead, names, rfl⟩
  enclosingMethod := by
    rintro around className name descriptor index new read ⟨renamed, names⟩
    obtain ⟨newClass, mapped, newRead⟩ := reopened.className reopened.small read
    obtain ⟨_, mappedAgain, rest⟩ := bind_eq_ok.mp renamed
    obtain ⟨newDescriptor, -, same⟩ := bind_eq_ok.mp rest
    cases mapped.symm.trans mappedAgain
    cases same
    exact ⟨newClass, _, newDescriptor, newRead, names, rfl⟩
  component := by
    rintro name descriptor index new second newSecond ⟨renamed, names⟩ ⟨renamedSecond, namesSecond⟩
    obtain ⟨_, mappedOwner, rest⟩ := bind_eq_ok.mp renamed
    obtain ⟨newDescriptor, mapped, same⟩ := bind_eq_ok.mp rest
    cases reopened.name.symm.trans mappedOwner
    cases same
    obtain ⟨_, mappedAgain, same⟩ := bind_eq_ok.mp renamedSecond
    cases mapped.symm.trans mappedAgain
    cases same
    exact ⟨_, newDescriptor, names, namesSecond, rfl, rfl⟩

/-- The symbols in the pieces of an attribute have all the answers that renaming them takes. -/
theorem answers_of_sound (reopened : Reopened renamer file context parts after count later) {pieces : List Piece}
    (sound : Piece.Sound file.pool context.name pieces)
    (asked : ∀ mention ∈ Piece.mentions 0 pieces, ∃ replacement?,
      renamer.replacement? mention.symbol = .ok replacement?)
    {index : Index} {symbol : Symbol} (member : .named index symbol ∈ pieces) : renamer.Answers symbol := by
  obtain ⟨-, backed⟩ := sound index symbol member
  cases symbol
  case innerName | enclosingMethod =>
    obtain ⟨place, read⟩ := backed
    obtain ⟨new, mapped, -⟩ := reopened.className reopened.small read
    exact ⟨new, mapped⟩
  case recordComponent record name descriptor =>
    obtain ⟨rfl, second, inside⟩ := backed
    obtain ⟨mention, mentioned, same⟩ := Piece.exists_mem_mentions 0 inside
    obtain ⟨replacement?, answer⟩ := asked mention mentioned
    rw [same] at answer
    obtain ⟨newDescriptor, mapped, -⟩ := bind_eq_ok.mp answer
    exact ⟨⟨_, reopened.name⟩, newDescriptor, mapped⟩
  case ofDescriptor | ofSignature => trivial
  all_goals exact False.elim backed

/-- **The mentions in an attribute are renamed**, and stand at the same offsets. -/
theorem mentions (reopened : Reopened renamer file context parts after count later) {owner : Owner}
    {position : Nat} {item : Attribute} (found : (file.attributesOf owner)[position]? = some item) {name : String}
    {mentions : List Mention} (read : file.pool.utf8 item.name = .ok name)
    (walked : Mention.ofAttribute file.pool context.name (SiteContext.isMethodOwner owner) name item.data =
      .ok mentions) :
    ∃ renamed new, (after.attributesOf owner)[position]? = some renamed ∧
      after.pool.utf8 renamed.name = .ok name ∧
      Mention.ofAttribute after.pool later.name (SiteContext.isMethodOwner owner) name renamed.data = .ok new ∧
      List.Forall₂ (fun mention other => other.offset = mention.offset ∧
        renamer.renamedSymbol mention.symbol = .ok other.symbol) mentions new := by
  obtain ⟨renamed, _, _, kept, shape, readAgain, walkedAgain, outside, inside⟩ :=
    reopened.item reopened.small found
  cases read.symm.trans readAgain
  cases walked.symm.trans walkedAgain
  obtain ⟨pieces, rest, data, rfl, sound, again⟩ := reopened.account.ofAttribute_again walked
  have asked (mention : Mention) (member : mention ∈ Piece.mentions 0 pieces) :
      ∃ replacement?, renamer.replacement? mention.symbol = .ok replacement? := by
    obtain ⟨replacement?, -, asked, -⟩ := inside mention member
    exact ⟨replacement?, asked⟩
  have length : renamed.data.length = (Piece.bytesOf pieces ++ rest).length := by
    rw [← data]
    exact congrArg Prod.snd shape
  rw [data] at outside
  have follows (mention : Mention) (member : mention ∈ Piece.mentions 0 pieces) : ∃ index new,
      renamed.data.peek (mention.offset - 0) = .ok index ∧
        renamer.Follows after.pool mention.symbol index new := by
    obtain ⟨replacement?, index, answer, peeked, names⟩ := inside mention member
    obtain ⟨front, old, back, same, -⟩ := Piece.exists_of_mem_mentions member
    have answers := reopened.answers_of_sound sound asked (same ▸ List.mem_append_right _ List.mem_cons_self)
    obtain ⟨new, renamedTo, stored⟩ := Renamer.exists_renamedSymbol answer answers
    exact ⟨index, new, peeked, renamedTo, stored ▸ names⟩
  obtain ⟨others, newData, alike⟩ :=
    Piece.exists_alike length (fun place free => outside place (by simpa using free)) follows
  refine ⟨renamed, Piece.mentions 0 others, kept, ?_, ?_, ?_⟩
  · rw [reopened.edited.name_eq found kept]
    exact reopened.edited.pool.utf8 read
  · rw [newData]
    exact again others alike
  · exact (Piece.mentions_of_alike 0 alike).imp fun _ _ ⟨offset, _, renamedTo, _⟩ => ⟨offset, renamedTo⟩

/-- **The sites of a table of attributes are renamed.** -/
theorem tableSites (reopened : Reopened renamer file context parts after count later) (owner : Owner)
    (done : context.tableSites owner (file.attributesOf owner) = .ok sites) :
    ∃ new, later.tableSites owner (after.attributesOf owner) = .ok new ∧
      List.Forall₂ renamer.RenamesSite sites new := by
  obtain ⟨lists, each, same⟩ := bind_eq_ok.mp done
  cases same
  have related : List.Forall₂ (fun item other => item.2 = other.2 ∧
      (file.attributesOf owner)[item.2]? = some item.1 ∧ (after.attributesOf owner)[item.2]? = some other.1)
      (file.attributesOf owner).zipIdx (after.attributesOf owner).zipIdx :=
    forall₂_zipIdx (reopened.edited.length_attributesOf owner) fun position item other found kept =>
      ⟨rfl, found, kept⟩
  have step (item renamed : Attribute × Nat) (list : List Site) (_ : item ∈ (file.attributesOf owner).zipIdx)
      (both : item.2 = renamed.2 ∧ (file.attributesOf owner)[item.2]? = some item.1 ∧
        (after.attributesOf owner)[item.2]? = some renamed.1)
      (done : context.attributeSites owner item.1 item.2 = .ok list) :
      ∃ new, later.attributeSites owner renamed.1 renamed.2 = .ok new ∧
        List.Forall₂ renamer.RenamesSite list new := by
    obtain ⟨samePosition, found, kept⟩ := both
    rw [← samePosition]
    obtain ⟨name, mentions, read, walked, rfl⟩ := SiteContext.attributeSites_eq_ok.mp done
    rw [reopened.collected.pool] at read walked
    obtain ⟨_, new, otherKept, newRead, newWalked, alike⟩ := reopened.mentions found read walked
    cases kept.symm.trans otherKept
    rw [← reopened.pool] at newRead newWalked
    refine ⟨_, SiteContext.attributeSites_eq_ok.mpr ⟨name, new, newRead, newWalked, rfl⟩, ?_⟩
    rw [List.forall₂_map_left_iff, List.forall₂_map_right_iff]
    exact alike.imp fun mention other ⟨offset, symbol⟩ => ⟨by rw [offset], symbol⟩
  obtain ⟨again, eachAgain, renamed⟩ := mapM_related related each step
  exact ⟨again.flatten, bind_eq_ok.mpr ⟨again, eachAgain, rfl⟩, List.rel_flatten renamed⟩

/-- The sites of the attributes of members are renamed. -/
theorem memberTableSites (reopened : Reopened renamer file context parts after count later) {owner : Nat → Owner}
    {members others : List Member} (length : others.length = members.length)
    (before : ∀ position member, members[position]? = some member →
      file.attributesOf (owner position) = member.attributes)
    (behind : ∀ position member, others[position]? = some member →
      after.attributesOf (owner position) = member.attributes)
    (done : context.memberTableSites owner members = .ok sites) :
    ∃ new, later.memberTableSites owner others = .ok new ∧ List.Forall₂ renamer.RenamesSite sites new := by
  obtain ⟨lists, each, same⟩ := bind_eq_ok.mp done
  cases same
  have related : List.Forall₂ (fun item other => item.2 = other.2 ∧
      file.attributesOf (owner item.2) = item.1.attributes ∧
      after.attributesOf (owner item.2) = other.1.attributes) members.zipIdx others.zipIdx :=
    forall₂_zipIdx length fun position member other found kept =>
      ⟨rfl, before position member found, behind position other kept⟩
  have step (item other : Member × Nat) (list : List Site) (_ : item ∈ members.zipIdx)
      (both : item.2 = other.2 ∧ file.attributesOf (owner item.2) = item.1.attributes ∧
        after.attributesOf (owner item.2) = other.1.attributes)
      (done : context.tableSites (owner item.2) item.1.attributes = .ok list) :
      ∃ new, later.tableSites (owner other.2) other.1.attributes = .ok new ∧
        List.Forall₂ renamer.RenamesSite list new := by
    obtain ⟨samePosition, here, there⟩ := both
    rw [← here] at done
    rw [← samePosition, ← there]
    exact reopened.tableSites _ done
  obtain ⟨again, eachAgain, renamed⟩ := mapM_related related each step
  exact ⟨again.flatten, bind_eq_ok.mpr ⟨again, eachAgain, rfl⟩, List.rel_flatten renamed⟩

/-! ### Operands -/

theorem operandSite? (reopened : Reopened renamer file context parts after count later) {position : Nat}
    {operand : Operand} {site? : Option Site} (done : context.operandSite? position operand = .ok site?) :
    ∃ new?, later.operandSite? position operand = .ok new? ∧ Option.Rel renamer.RenamesSite site? new? := by
  obtain ⟨found, read, rfl⟩ := SiteContext.operandSite?_eq_ok.mp done
  obtain ⟨new?, newRead, renames⟩ := reopened.constantSite? read
  refine ⟨_, SiteContext.operandSite?_eq_ok.mpr ⟨new?, newRead, rfl⟩, ?_⟩
  cases renames with
  | none => exact .none
  | some renames => exact .some ⟨rfl, renames.symbol⟩

/-- The operands of a method are the same, and their sites are renamed. -/
theorem codeSites (reopened : Reopened renamer file context parts after count later) {position : Nat}
    {method other : Member} (found : file.methods[position]? = some method)
    (kept : after.methods[position]? = some other) (done : context.codeSites method position = .ok sites) :
    ∃ new, later.codeSites other position = .ok new ∧ List.Forall₂ renamer.RenamesSite sites new := by
  have code {code? : Option CodeAttribute}
      (read : Attribute.findCode? context.pool method.attributes = .ok code?) :
      ∃ new?, Attribute.findCode? later.pool other.attributes = .ok new? ∧
        Option.Rel CodeAttribute.Alike code? new? := by
    rw [reopened.collected.pool] at read
    obtain ⟨_, new?, otherKept, again, alike⟩ := reopened.code reopened.small found read
    cases kept.symm.trans otherKept
    exact ⟨new?, reopened.pool ▸ again, alike⟩
  obtain ⟨read, rfl⟩ | ⟨body, operands, list, read, scanned, each, rfl⟩ := SiteContext.codeSites_eq_ok.mp done
  · obtain ⟨_, again, ⟨⟩⟩ := code read
    exact ⟨[], SiteContext.codeSites_eq_ok.mpr (.inl ⟨again, rfl⟩), .nil⟩
  · obtain ⟨_, again, alike⟩ := code read
    cases alike with
    | @some _ new alike =>
      have equal : List.Forall₂ (· = ·) operands operands := List.forall₂_eq_eq_eq ▸ rfl
      obtain ⟨newList, eachAgain, renames⟩ := mapM_related equal each
        fun operand _ site? _ same step => same ▸ reopened.operandSite? step
      refine ⟨_, SiteContext.codeSites_eq_ok.mpr
        (.inr ⟨new, operands, newList, again, ?_, eachAgain, rfl⟩), ?_⟩
      · rw [alike.instructions, scanned]
      · exact List.rel_filterMap (fun _ _ both => both) renames

/-- **The sites of the operands in code are renamed.** -/
theorem instructionSites (reopened : Reopened renamer file context parts after count later)
    (done : context.instructionSites file.methods = .ok sites) :
    ∃ new, later.instructionSites after.methods = .ok new ∧ List.Forall₂ renamer.RenamesSite sites new := by
  obtain ⟨lists, each, same⟩ := bind_eq_ok.mp done
  cases same
  have length : after.methods.length = file.methods.length := by
    simpa using congrArg List.length reopened.edited.methodFlags
  have related : List.Forall₂ (fun item other => item.2 = other.2 ∧ file.methods[item.2]? = some item.1 ∧
      after.methods[item.2]? = some other.1) file.methods.zipIdx after.methods.zipIdx :=
    forall₂_zipIdx length fun position method other found kept => ⟨rfl, found, kept⟩
  have step (item other : Member × Nat) (list : List Site) (_ : item ∈ file.methods.zipIdx)
      (both : item.2 = other.2 ∧ file.methods[item.2]? = some item.1 ∧ after.methods[item.2]? = some other.1)
      (done : context.codeSites item.1 item.2 = .ok list) :
      ∃ new, later.codeSites other.1 other.2 = .ok new ∧ List.Forall₂ renamer.RenamesSite list new := by
    obtain ⟨samePosition, found, kept⟩ := both
    rw [← samePosition]
    exact reopened.codeSites found kept done
  obtain ⟨again, eachAgain, renamed⟩ := mapM_related related each step
  exact ⟨again.flatten, bind_eq_ok.mpr ⟨again, eachAgain, rfl⟩, List.rel_flatten renamed⟩

/-! ### All sites -/

/-- The sites of the renamed class, part by part. -/
theorem collectedAgain (reopened : Reopened renamer file context parts after count later) :
    ∃ new, after.Collected later new ∧ List.Forall₂ renamer.RenamesSite parts.all new.all := by
  have collected := reopened.collected
  obtain ⟨constants, constantsDone, constantsRenamed⟩ := reopened.constantSites collected.constants
  obtain ⟨fields, fieldsDone, fieldsRenamed⟩ := reopened.fieldSites collected.fields
  obtain ⟨methods, methodsDone, methodsRenamed⟩ := reopened.methodSites collected.methods
  obtain ⟨classTable, classDone, classRenamed⟩ := reopened.tableSites .ofClass collected.classTable
  obtain ⟨fieldTables, fieldTablesDone, fieldTablesRenamed⟩ :=
    reopened.memberTableSites (by simpa using congrArg List.length reopened.edited.fieldFlags)
      (fun _ _ => attributesOf_field) (fun _ _ => attributesOf_field) collected.fieldTables
  obtain ⟨methodTables, methodTablesDone, methodTablesRenamed⟩ :=
    reopened.memberTableSites (by simpa using congrArg List.length reopened.edited.methodFlags)
      (fun _ _ => attributesOf_method) (fun _ _ => attributesOf_method) collected.methodTables
  obtain ⟨instructions, instructionsDone, instructionsRenamed⟩ :=
    reopened.instructionSites collected.instructions
  refine ⟨⟨constants, fields, methods, classTable, fieldTables, methodTables, instructions⟩,
    ⟨reopened.opened, constantsDone, fieldsDone, methodsDone, classDone, fieldTablesDone, methodTablesDone,
      instructionsDone⟩, ?_⟩
  have first := List.rel_append (List.rel_append constantsRenamed fieldsRenamed) methodsRenamed
  have second := List.rel_append (List.rel_append (List.rel_append first classRenamed) fieldTablesRenamed)
    methodTablesRenamed
  exact List.rel_append second instructionsRenamed

end Reopened

/-- **Renaming is exact, simultaneous and site for site.** The sites of a renamed class are at the locations of the
sites before, in the same order, and each symbol is the one before with its parts renamed. -/
theorem sites_of_rename {bytes : Bytes} {file after : ClassFile} {renamer : Renamer} {count : Nat}
    (parsed : parse bytes = .ok file) (answers : AnswersClassNames renamer.mapClass)
    (factory : renamer.KeepsFactory) (renamed : file.rename renamer = .ok (after, count)) :
    ∃ sites new, file.sites = .ok sites ∧ after.sites = .ok new ∧
      List.Forall₂ renamer.RenamesSite sites new := by
  have small := small_of_parse parsed
  obtain ⟨context, parts, outcome⟩ := outcome_of_rename small renamed
  obtain ⟨later, reopened⟩ := exists_reopened outcome small answers factory
  obtain ⟨new, collected, renames⟩ := reopened.collectedAgain
  exact ⟨parts.all, new.all, sites_eq_ok.mpr ⟨context, parts, outcome.collected, rfl⟩,
    sites_eq_ok.mpr ⟨later, new, collected, rfl⟩, renames⟩

/-- A class `A` with a method `run`, whose code has a call site that makes a lambda for the method `run` of the
interface `I`. -/
def lambdaBytes : Bytes :=
  [0xCA, 0xFE, 0xBA, 0xBE, 0x00, 0x00, 0x00, 0x34, 0x00, 0x11,
    0x01, 0x00, 0x01, 0x41,
    0x07, 0x00, 0x01,
    0x01, 0x00, 0x22, 0x6A, 0x61, 0x76, 0x61, 0x2F, 0x6C, 0x61, 0x6E, 0x67, 0x2F, 0x69, 0x6E, 0x76,
    0x6F, 0x6B, 0x65, 0x2F, 0x4C, 0x61, 0x6D, 0x62, 0x64, 0x61, 0x4D, 0x65, 0x74, 0x61, 0x66, 0x61,
    0x63, 0x74, 0x6F, 0x72, 0x79,
    0x07, 0x00, 0x03,
    0x01, 0x00, 0x0B, 0x6D, 0x65, 0x74, 0x61, 0x66, 0x61, 0x63, 0x74, 0x6F, 0x72, 0x79,
    0x01, 0x00, 0x03, 0x28, 0x29, 0x56,
    0x0C, 0x00, 0x05, 0x00, 0x06,
    0x0A, 0x00, 0x04, 0x00, 0x07,
    0x0F, 0x06, 0x00, 0x08,
    0x10, 0x00, 0x06,
    0x01, 0x00, 0x03, 0x72, 0x75, 0x6E,
    0x01, 0x00, 0x05, 0x28, 0x29, 0x4C, 0x49, 0x3B,
    0x0C, 0x00, 0x0B, 0x00, 0x0C,
    0x12, 0x00, 0x00, 0x00, 0x0D,
    0x01, 0x00, 0x10, 0x42, 0x6F, 0x6F, 0x74, 0x73, 0x74, 0x72, 0x61, 0x70, 0x4D, 0x65, 0x74, 0x68,
    0x6F, 0x64, 0x73,
    0x01, 0x00, 0x04, 0x43, 0x6F, 0x64, 0x65,
    0x00, 0x21, 0x00, 0x02, 0x00, 0x00, 0x00, 0x00, 0x00, 0x00,
    0x00, 0x01, 0x00, 0x09, 0x00, 0x0B, 0x00, 0x06, 0x00, 0x01, 0x00, 0x10, 0x00, 0x00, 0x00, 0x13,
    0x00, 0x01, 0x00, 0x00, 0x00, 0x00, 0x00, 0x07, 0xBA, 0x00, 0x0E, 0x00, 0x00, 0x57, 0xB1, 0x00,
    0x00, 0x00, 0x00,
    0x00, 0x01, 0x00, 0x0F, 0x00, 0x00, 0x00, 0x08, 0x00, 0x01, 0x00, 0x09, 0x00, 0x01, 0x00, 0x0A]

/-- The class file in these bytes. -/
def lambdaClass : ClassFile where
  minor := 0
  major := 52
  pool.slots := #[.utf8 (Text.encode "A"), .classRef 1, .utf8 (Text.encode lambdaFactory), .classRef 3,
    .utf8 (Text.encode "metafactory"), .utf8 (Text.encode "()V"), .nameAndType 5 6, .method 4 7, .methodHandle 6 8,
    .methodType 6, .utf8 (Text.encode "run"), .utf8 (Text.encode "()LI;"), .nameAndType 11 12, .invokeDynamic 0 13,
    .utf8 (Text.encode "BootstrapMethods"), .utf8 (Text.encode "Code")]
  flags := 0x21
  thisClass := 2
  superClass := none
  interfaces := []
  fields := []
  methods := [{ flags := 9, name := 11, descriptor := 6,
                attributes := [{ name := 16,
                                 data := [0, 1, 0, 0, 0, 0, 0, 7, 0xBA, 0, 14, 0, 0, 0x57, 0xB1, 0, 0, 0, 0] }] }]
  attributes := [{ name := 15, data := [0, 1, 0, 9, 0, 1, 0, 10] }]

/-- The renamer of the class `A`, the interface `I` and its method `run`. -/
def lambdaRenamer : Renamer where
  mapClass := fun name => if name = "A" then some "B" else if name = "I" then some "J" else none
  mapField := fun _ _ _ _ => none
  mapMethod := fun owner name _ _ => if owner = "I" ∧ name = "run" then some "go" else none

/-- The class renamed. The method `run` of `A` shares its name with the call site and keeps it. -/
def lambdaRenamed : ClassFile :=
  { lambdaClass with
    pool.slots := #[.utf8 (Text.encode "A"), .classRef 17, .utf8 (Text.encode lambdaFactory), .classRef 3,
      .utf8 (Text.encode "metafactory"), .utf8 (Text.encode "()V"), .nameAndType 5 6, .method 4 7,
      .methodHandle 6 8, .methodType 6, .utf8 (Text.encode "run"), .utf8 (Text.encode "()LI;"), .nameAndType 11 12,
      .invokeDynamic 0 20, .utf8 (Text.encode "BootstrapMethods"), .utf8 (Text.encode "Code"),
      .utf8 (Text.encode "B"), .utf8 (Text.encode "go"), .utf8 (Text.encode "()LJ;"), .nameAndType 18 19] }

theorem answers_lambdaRenamer : AnswersClassNames lambdaRenamer.mapClass := by
  intro name new answered
  unfold lambdaRenamer at answered
  dsimp only at answered
  split_ifs at answered <;> cases answered
  all_goals
    unfold IsClassName
    decide +kernel

theorem keepsFactory_lambdaRenamer : lambdaRenamer.KeepsFactory where
  name := by decide +kernel
  only := by
    intro name same
    unfold renameOrKeep lambdaRenamer at same
    dsimp only at same
    have differ : "B" ≠ lambdaFactory ∧ "J" ≠ lambdaFactory := by decide +kernel
    split_ifs at same
    · exact absurd same differ.1
    · exact absurd same differ.2
    · exact same
  field := fun _ _ _ => rfl
  method := by
    intro name descriptor declared
    have other : ¬(lambdaFactory = "I" ∧ name = "run") := fun both => absurd both.1 (by decide +kernel)
    simp only [lambdaRenamer, if_neg other, Option.getD_none]

theorem sites_of_rename_lambda :
    parse lambdaBytes = .ok lambdaClass ∧ AnswersClassNames lambdaRenamer.mapClass ∧
      lambdaRenamer.KeepsFactory ∧ lambdaClass.rename lambdaRenamer = .ok (lambdaRenamed, 2) ∧
      ∃ sites new, lambdaClass.sites = .ok sites ∧ lambdaRenamed.sites = .ok new ∧
        List.Forall₂ lambdaRenamer.RenamesSite sites new :=
  have parsed : parse lambdaBytes = .ok lambdaClass := by decide +kernel
  have renamed : lambdaClass.rename lambdaRenamer = .ok (lambdaRenamed, 2) := by decide +kernel
  ⟨parsed, answers_lambdaRenamer, keepsFactory_lambdaRenamer, renamed,
    sites_of_rename parsed answers_lambdaRenamer keepsFactory_lambdaRenamer renamed⟩

end JarRename.ClassFile
