import JarRename.Proofs.ClassFile.Contents
import JarRename.Proofs.Renaming.Run

/-!
**Renaming touches nothing but the sites.**

Names are repointed and never edited, because literals, members and attributes may share them. So the constants
keep their slots, new names stand behind them, and an attribute keeps all bytes that are no index of a name: its
counts and lengths, and the instructions and handlers of code.

* `ClassFile.Outcome.item`: an attribute before and after;
* `CodeAttribute.Alike`, `ClassFile.Outcome.code`: the code of a method before and after;
* `ClassFile.Framed`, `ClassFile.framed_of_rename`: everything that a renaming leaves as it is.
-/

namespace JarRename

/-- Code of the same limits, instructions and handlers, with nested attributes of the same names and lengths. -/
structure CodeAttribute.Alike (code later : CodeAttribute) : Prop where
  maxStack : later.maxStack = code.maxStack
  maxLocals : later.maxLocals = code.maxLocals
  instructions : later.code = code.code
  handlers : later.handlers = code.handlers
  shapes : later.attributes.map Attribute.shape = code.attributes.map Attribute.shape

/-- Attributes of the same names as valid ones are valid in a pool that keeps its constants. -/
theorem Attribute.valid_of_shapes {before after : Pool} (keeps : Pool.Keeps before after)
    {items others : List Attribute} (shapes : others.map shape = items.map shape)
    (valid : ∀ item ∈ items, item.Valid before) : ∀ item ∈ others, item.Valid after := by
  intro item member
  have inside : item.shape ∈ items.map shape := by
    rw [← shapes]
    exact List.mem_map_of_mem member
  obtain ⟨old, oldMember, same⟩ := List.mem_map.mp inside
  have sameName : old.name = item.name := congrArg Prod.fst same
  have kept := keeps.has (valid old oldMember)
  rw [sameName] at kept
  exact kept

namespace ClassFile

theorem small_of_parse {bytes : Bytes} {file : ClassFile} (parsed : parse bytes = .ok file) :
    file.pool.size ≤ Pool.maxSlots := by
  obtain ⟨-, -, wrote⟩ := parse_eq_ok_iff.mp parsed
  obtain ⟨pool, wrotePool, -⟩ := bind_eq_ok.mp wrote
  exact Pool.small_of_toBytes wrotePool

namespace Outcome

variable {renamer : Renamer} {file after : ClassFile} {context : SiteContext} {parts : SiteParts} {count : Nat}

/-! ### Attributes -/

/-- **An attribute before and after.** It keeps its name and its length, the bytes at its mentions hold the
replacements, and all other bytes stay. -/
theorem item (outcome : Outcome renamer file context parts after count)
    (small : file.pool.size ≤ Pool.maxSlots) {owner : Owner} {position : Nat} {item : Attribute}
    (found : (file.attributesOf owner)[position]? = some item) :
    ∃ later name mentions, (after.attributesOf owner)[position]? = some later ∧ later.shape = item.shape ∧
      file.pool.utf8 item.name = .ok name ∧
      Mention.ofAttribute file.pool context.name (SiteContext.isMethodOwner owner) name item.data =
        .ok mentions ∧
      (∀ offset, (∀ mention ∈ mentions, offset < mention.offset ∨ mention.offset + 2 ≤ offset) →
        later.data[offset]? = item.data[offset]?) ∧
      ∀ mention ∈ mentions, ∃ replacement? index, renamer.replacement? mention.symbol = .ok replacement? ∧
        later.data.peek mention.offset = .ok index ∧
        after.pool.Names index (replacement?.getD mention.symbol.stored) := by
  obtain ⟨later, kept, shape, same⟩ := outcome.edited.item found
  obtain ⟨name, mentions, read, walked, sites⟩ := outcome.collected.walked found
  refine ⟨later, name, mentions, kept, shape, read, walked, fun offset free => same offset ?_,
    fun mention member => ?_⟩
  · -- a site that covers the byte would be a mention
    rintro ⟨site, member, covers⟩
    obtain ⟨location, symbol⟩ := site
    cases location
    case inAttribute other place start =>
      obtain ⟨rfl, rfl, low, high⟩ := covers
      obtain ⟨otherItem, otherName, others, mention, otherFound, otherRead, otherWalked, mentioned, rfl, -⟩ :=
        outcome.collected.mention_of_mem small member rfl
      cases found.symm.trans otherFound
      cases read.symm.trans otherRead
      cases walked.symm.trans otherWalked
      have place := free mention mentioned
      omega
    all_goals cases covers
  · obtain ⟨replacement?, asked, otherItem, index, otherFound, peeked, names⟩ :=
      outcome.stores _ (sites mention member) rfl
    cases kept.symm.trans otherFound
    exact ⟨replacement?, index, asked, peeked, names⟩

/-! ### Code -/

/-- Contents of code are read again as alike code. -/
theorem readCode (outcome : Outcome renamer file context parts after count)
    (small : file.pool.size ≤ Pool.maxSlots) {method position : Nat} {item later : Attribute}
    (found : (file.attributesOf (.ofMethod method))[position]? = some item)
    (kept : (after.attributesOf (.ofMethod method))[position]? = some later)
    (named : file.pool.utf8 item.name = .ok "Code") {code : CodeAttribute}
    (read : CodeAttribute.read file.pool item.data = .ok (code, [])) :
    ∃ new, CodeAttribute.read after.pool later.data = .ok (new, []) ∧ code.Alike new := by
  obtain ⟨other, name, mentions, otherKept, shape, nameRead, walked, outside, -⟩ := outcome.item small found
  cases kept.symm.trans otherKept
  cases named.symm.trans nameRead
  obtain ⟨nested, shapes, wrote⟩ := Mention.code_differs read walked (congrArg Prod.snd shape) outside
  refine ⟨{ code with attributes := nested }, ?_, ⟨rfl, rfl, rfl, rfl, shapes⟩⟩
  obtain ⟨valid, -⟩ := (CodeAttribute.read_inverts file.pool _ _ _).mp read
  have keeps := outcome.edited.pool.toKeeps
  exact (CodeAttribute.read_inverts after.pool _ _ _).mpr ⟨⟨(valid.keep keeps).handlers,
    Attribute.valid_of_shapes keeps shapes valid.attributes⟩, _, wrote, (List.append_nil _).symm⟩

/-- **The code of a method before and after.** -/
theorem code (outcome : Outcome renamer file context parts after count)
    (small : file.pool.size ≤ Pool.maxSlots) {position : Nat} {method : Member}
    (found : file.methods[position]? = some method) {code? : Option CodeAttribute}
    (read : Attribute.findCode? file.pool method.attributes = .ok code?) :
    ∃ later new?, after.methods[position]? = some later ∧
      Attribute.findCode? after.pool later.attributes = .ok new? ∧
      Option.Rel CodeAttribute.Alike code? new? := by
  obtain ⟨later, kept, -⟩ := Member.exists_of_flags outcome.edited.methodFlags found
  rw [← attributesOf_method found] at read
  obtain ⟨new?, again, alike⟩ := Attribute.find?_related outcome.edited.pool.toKeeps
    (outcome.edited.items (.ofMethod position)) (fun _ _ ⟨_, here, there⟩ => outcome.edited.name_eq here there)
    (fun _ _ _ ⟨_, here, there⟩ named decoded => outcome.readCode small here there named decoded) read
  rw [attributesOf_method kept] at again
  exact ⟨later, new?, kept, again, alike⟩

end Outcome

/-! ### The frame of a renaming -/

/-- What a renaming leaves as it is, where `count` of the sites changed. -/
structure Framed (sites : List Site) (count : Nat) (before after : ClassFile) : Prop where
  /-- Every slot holds the constant it held, up to the index of a name that it points at. -/
  slots : ∀ index constant, before.pool.slot? index = some constant →
    ∃ later, after.pool.slot? index = some later ∧ constant.Alike later
  /-- Texts, name-and-types, literals, numbers, method handles, modules, packages and upper halves are the same. -/
  fixed : ∀ index constant, before.pool.slot? index = some constant → constant.isPointed = false →
    after.pool.slot? index = some constant
  /-- A string literal stands for the same bytes. -/
  literals : ∀ index text bytes, before.pool.slot? index = some (.string text) →
    before.pool.utf8Bytes text = .ok bytes →
    after.pool.slot? index = some (.string text) ∧ after.pool.utf8Bytes text = .ok bytes
  /-- A new slot holds a text or a name-and-type. -/
  added : ∀ (position : Nat) constant, before.pool.size ≤ position →
    after.pool.slots[position]? = some constant → constant.IsName
  /-- The constant in a new slot is in no other slot. -/
  fresh : ∀ (position other : Nat) constant, before.pool.size ≤ position →
    after.pool.slots[position]? = some constant → after.pool.slots[other]? = some constant → other = position
  /-- There are at most three new slots for each site that changed. -/
  few : after.pool.size ≤ before.pool.size + 3 * count
  /-- The version, the class, superclass and interface indices, and all flags are the same. -/
  outline : after.outline = before.outline
  /-- There are as many fields and methods. -/
  members : after.fields.length = before.fields.length ∧ after.methods.length = before.methods.length
  /-- Every owner has as many attributes, of the same names and lengths. -/
  shapes : ∀ owner,
    (after.attributesOf owner).map Attribute.shape = (before.attributesOf owner).map Attribute.shape
  /-- A byte of an attribute that no site covers is the same. -/
  bytes : ∀ owner position offset,
    (∀ site ∈ sites, ∀ start, site.location = .inAttribute owner position start →
      offset < start ∨ start + 2 ≤ offset) →
    after.attributeByte? owner position offset = before.attributeByte? owner position offset
  /-- The code of a method has the same limits, instructions and handlers. -/
  code : ∀ (position : Nat) method code, before.methods[position]? = some method →
    Attribute.findCode? before.pool method.attributes = .ok (some code) →
    ∃ later new, after.methods[position]? = some later ∧
      Attribute.findCode? after.pool later.attributes = .ok (some new) ∧ code.Alike new

/-- **Renaming touches nothing but the sites.** -/
theorem framed_of_rename {bytes : Bytes} {file after : ClassFile} {renamer : Renamer} {count : Nat}
    (parsed : parse bytes = .ok file) (renamed : file.rename renamer = .ok (after, count)) :
    ∃ sites, file.sites = .ok sites ∧ Framed sites count file after := by
  have small := small_of_parse parsed
  obtain ⟨context, parts, outcome⟩ := outcome_of_rename small renamed
  have grown := outcome.edited.pool
  refine ⟨parts.all, sites_eq_ok.mpr ⟨context, parts, outcome.collected, rfl⟩, ?_⟩
  constructor
  case slots => exact fun index constant found => grown.slot found
  case fixed => exact fun index constant found fixed => grown.slot_eq found fixed
  case literals => exact fun index text bytes found read => ⟨grown.slot_eq found rfl, grown.utf8Bytes read⟩
  case added => exact fun position constant outside found => (grown.added position constant outside found).1
  case fresh => exact fun position other constant => grown.fresh position other constant
  case few => exact outcome.size
  case outline => exact outcome.edited.outline
  case members =>
    exact ⟨by simpa using congrArg List.length outcome.edited.fieldFlags,
      by simpa using congrArg List.length outcome.edited.methodFlags⟩
  case shapes => exact outcome.edited.shapes
  case bytes =>
    intro owner position offset free
    refine outcome.edited.bytes owner position offset ?_
    rintro ⟨⟨location, symbol⟩, member, covers⟩
    cases location
    case inAttribute other place start =>
      obtain ⟨rfl, rfl, low, high⟩ := covers
      have place := free _ member start rfl
      omega
    all_goals cases covers
  case code =>
    intro position method code found read
    obtain ⟨later, new?, kept, again, alike⟩ := outcome.code small found read
    cases alike with
    | some alike => exact ⟨later, _, kept, again, alike⟩

/-- A class `A` with a literal that shares the text of its name, a field of its own type with a generic
signature, and a method with operands and a table of local variables in its code. -/
def sampleBytes : Bytes :=
  [0xCA, 0xFE, 0xBA, 0xBE, 0x00, 0x00, 0x00, 0x34, 0x00, 0x0B,
    0x01, 0x00, 0x01, 0x41,
    0x07, 0x00, 0x01,
    0x08, 0x00, 0x01,
    0x01, 0x00, 0x01, 0x66,
    0x01, 0x00, 0x03, 0x4C, 0x41, 0x3B,
    0x01, 0x00, 0x09, 0x53, 0x69, 0x67, 0x6E, 0x61, 0x74, 0x75, 0x72, 0x65,
    0x01, 0x00, 0x01, 0x6D,
    0x01, 0x00, 0x03, 0x28, 0x29, 0x56,
    0x01, 0x00, 0x04, 0x43, 0x6F, 0x64, 0x65,
    0x01, 0x00, 0x12, 0x4C, 0x6F, 0x63, 0x61, 0x6C, 0x56, 0x61, 0x72, 0x69, 0x61, 0x62, 0x6C, 0x65,
    0x54, 0x61, 0x62, 0x6C, 0x65,
    0x00, 0x21, 0x00, 0x02, 0x00, 0x00, 0x00, 0x00,
    0x00, 0x01, 0x00, 0x02, 0x00, 0x04, 0x00, 0x05,
    0x00, 0x01, 0x00, 0x06, 0x00, 0x00, 0x00, 0x02, 0x00, 0x05,
    0x00, 0x01, 0x00, 0x09, 0x00, 0x07, 0x00, 0x08,
    0x00, 0x01, 0x00, 0x09, 0x00, 0x00, 0x00, 0x26, 0x00, 0x01, 0x00, 0x01,
    0x00, 0x00, 0x00, 0x08, 0xBB, 0x00, 0x02, 0x57, 0x12, 0x03, 0x57, 0xB1,
    0x00, 0x00, 0x00, 0x01, 0x00, 0x0A, 0x00, 0x00, 0x00, 0x0C,
    0x00, 0x01, 0x00, 0x00, 0x00, 0x08, 0x00, 0x07, 0x00, 0x05, 0x00, 0x00,
    0x00, 0x00]

/-- The class file in the sample bytes. -/
def sample : ClassFile where
  minor := 0
  major := 52
  pool.slots := #[.utf8 [0x41], .classRef 1, .string 1, .utf8 [0x66], .utf8 [0x4C, 0x41, 0x3B],
    .utf8 [0x53, 0x69, 0x67, 0x6E, 0x61, 0x74, 0x75, 0x72, 0x65], .utf8 [0x6D], .utf8 [0x28, 0x29, 0x56],
    .utf8 [0x43, 0x6F, 0x64, 0x65],
    .utf8 [0x4C, 0x6F, 0x63, 0x61, 0x6C, 0x56, 0x61, 0x72, 0x69, 0x61, 0x62, 0x6C, 0x65, 0x54, 0x61, 0x62, 0x6C,
      0x65]]
  flags := 0x21
  thisClass := 2
  superClass := none
  interfaces := []
  fields := [{ flags := 2, name := 4, descriptor := 5, attributes := [{ name := 6, data := [0, 5] }] }]
  methods := [{ flags := 9, name := 7, descriptor := 8,
                attributes := [{ name := 9,
                                 data := [0, 1, 0, 1, 0, 0, 0, 8, 0xBB, 0, 2, 0x57, 0x12, 3, 0x57, 0xB1, 0, 0,
                                   0, 1, 0, 10, 0, 0, 0, 12, 0, 1, 0, 0, 0, 8, 0, 7, 0, 5, 0, 0] }] }]
  attributes := []

/-- The renamer of the class `A` to `B`. -/
def sampleRenamer : Renamer where
  mapClass := fun name => if name = "A" then some "B" else none
  mapField := fun _ _ _ _ => none
  mapMethod := fun _ _ _ _ => none

/-- The sample renamed: `B` and `LB;` stand behind the pool, and `A` stays for the literal. -/
def sampleRenamed : ClassFile :=
  { sample with
    pool.slots := #[.utf8 [0x41], .classRef 11, .string 1, .utf8 [0x66], .utf8 [0x4C, 0x41, 0x3B],
      .utf8 [0x53, 0x69, 0x67, 0x6E, 0x61, 0x74, 0x75, 0x72, 0x65], .utf8 [0x6D], .utf8 [0x28, 0x29, 0x56],
      .utf8 [0x43, 0x6F, 0x64, 0x65],
      .utf8 [0x4C, 0x6F, 0x63, 0x61, 0x6C, 0x56, 0x61, 0x72, 0x69, 0x61, 0x62, 0x6C, 0x65, 0x54, 0x61, 0x62, 0x6C,
        0x65],
      .utf8 [0x42], .utf8 [0x4C, 0x42, 0x3B]]
    fields := [{ flags := 2, name := 4, descriptor := 12, attributes := [{ name := 6, data := [0, 12] }] }]
    methods := [{ flags := 9, name := 7, descriptor := 8,
                  attributes := [{ name := 9,
                                   data := [0, 1, 0, 1, 0, 0, 0, 8, 0xBB, 0, 2, 0x57, 0x12, 3, 0x57, 0xB1, 0, 0,
                                     0, 1, 0, 10, 0, 0, 0, 12, 0, 1, 0, 0, 0, 8, 0, 7, 0, 12, 0, 0] }] }] }

theorem framed_of_rename_sample :
    parse sampleBytes = .ok sample ∧ sample.rename sampleRenamer = .ok (sampleRenamed, 4) ∧
      ∃ sites, sample.sites = .ok sites ∧ Framed sites 4 sample sampleRenamed :=
  have parsed : parse sampleBytes = .ok sample := by decide +kernel
  have renamed : sample.rename sampleRenamer = .ok (sampleRenamed, 4) := by decide +kernel
  ⟨parsed, renamed, framed_of_rename parsed renamed⟩

end ClassFile

end JarRename
