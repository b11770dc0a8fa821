import JarRename.Proofs.Renaming.Frame

/-!
**A renamed class is a valid class file.**

A constant that is renamed points at a name of the kind it needs, and so does a declaration. Everything else that
reading checks rests on the kinds of constants, which a renaming keeps. So the bytes written for a renamed class
are read as that class again.

* `Code.Accepted`, `ClassFile.checkCode_eq_ok`: format checking of code;
* `ClassFile.Outcome.refersIn`, `ClassFile.Outcome.codeAccepted`: what format checking asks of a class holds after
  a renaming;
* `ClassFile.Outcome.wellFormed`, `ClassFile.valid_of_rename`: reading accepts a renamed class.
-/

namespace JarRename

/-! ### Format checking of code -/

/-- An operand points at a constant of a kind that its opcode accepts. -/
def Code.Accepted (pool : Pool) (operand : Operand) : Prop :=
  ∃ constant, pool.get operand.index = .ok constant ∧ Code.accepts operand.opcode constant.kind = true

theorem Code.checkOperand_eq_ok {pool : Pool} {operand : Operand} :
    checkOperand pool operand = .ok () ↔ Accepted pool operand := by
  rw [checkOperand, bind_eq_ok]
  refine exists_congr fun constant => and_congr_right fun _ => ?_
  cases accepts operand.opcode constant.kind
  · exact ⟨nofun, nofun⟩
  · exact ⟨fun _ => rfl, fun _ => rfl⟩

theorem Code.check_eq_ok {pool : Pool} {code : Bytes} :
    check pool code = .ok () ↔ ∃ found, operands code = .ok found ∧ ∀ operand ∈ found, Accepted pool operand := by
  rw [check, bind_eq_ok]
  simp only [forM_eq_ok, checkOperand_eq_ok]

theorem Code.Accepted.keep {before after : Pool} {operand : Operand} (accepted : Accepted before operand)
    (keeps : Pool.Keeps before after) : Accepted after operand := by
  obtain ⟨constant, found, accepts⟩ := accepted
  obtain ⟨later, kept, alike⟩ := keeps.get found
  exact ⟨later, kept, by rw [alike.kind, accepts]⟩

namespace ClassFile

/-- The code of a method decodes, if it has any, and its operands are accepted. -/
def CodeAccepted (pool : Pool) (method : Member) : Prop :=
  ∃ code?, Attribute.findCode? pool method.attributes = .ok code? ∧
    ∀ code ∈ code?, ∃ found, Code.operands code.code = .ok found ∧
      ∀ operand ∈ found, Code.Accepted pool operand

theorem checkMethod_eq_ok {pool : Pool} {method : Member} :
    checkMethod pool method = .ok () ↔ CodeAccepted pool method := by
  rw [checkMethod, bind_eq_ok]
  refine exists_congr fun code? => and_congr_right fun _ => ?_
  cases code? with
  | none =>
    refine ⟨fun _ code member => ?_, fun _ => rfl⟩
    cases member
  | some code => simp only [mapError_eq_ok, Code.check_eq_ok, Option.mem_some_iff, forall_eq']

theorem checkCode_eq_ok {file : ClassFile} :
    file.checkCode = .ok () ↔ ∀ method ∈ file.methods, CodeAccepted file.pool method := by
  rw [checkCode, forM_eq_ok]
  simp only [checkMethod_eq_ok]

/-! ### Constants and declarations -/

/-- A constant at a location that holds a replacement refers to constants of the right kinds, if it is alike to one
that did before. -/
theorem refersIn_of_stores {before : Pool} {file : ClassFile} (keeps : Pool.Keeps before file.pool)
    {old later : Constant} (refers : before.RefersIn old) (alike : old.Alike later) {index : Index}
    (slot : file.pool.slot? index = some later) {location : Location} {replacement : Replacement}
    (covers : location.Covers (.constant index)) (stores : file.Stores location replacement) :
    file.pool.RefersIn later := by
  obtain ⟨target, rfl⟩ := alike.exists_repoint
  cases location <;> cases replacement
  case classConstant.text | methodTypeConstant.text =>
    obtain rfl := covers
    obtain ⟨name, found, read⟩ := stores
    rw [Option.some.inj (slot.symm.trans found)]
    exact Pool.has_of_utf8 read
  case memberConstant.nameAndType =>
    obtain rfl := covers
    obtain ⟨kind, owner, pair, found, read⟩ := stores
    have same := Option.some.inj (slot.symm.trans found)
    have paired := Pool.has_of_nameAndType read
    cases kind <;> cases old <;> cases same <;> exact ⟨keeps.has refers.1, paired⟩
  case dynamicConstant.nameAndType =>
    obtain rfl := covers
    obtain ⟨bootstrap, pair, found | found, read⟩ := stores
    all_goals
      rw [Option.some.inj (slot.symm.trans found)]
      exact Pool.has_of_nameAndType read
  all_goals first | exact False.elim covers | exact False.elim stores

namespace Outcome

variable {renamer : Renamer} {file after : ClassFile} {context : SiteContext} {parts : SiteParts} {count : Nat}

/-- **Every constant of a renamed class refers to constants of the right kinds**, if all did before. -/
theorem refersIn (outcome : Outcome renamer file context parts after count)
    (small : file.pool.size ≤ Pool.maxSlots)
    (checked : ∀ index constant, file.pool.get index = .ok constant → file.pool.RefersIn constant)
    {index : Index} {constant : Constant} (found : after.pool.get index = .ok constant) :
    after.pool.RefersIn constant := by
  have grown := outcome.edited.pool
  rcases grown.get_cases found with ⟨before, old, alike⟩ | ⟨-, new⟩
  · have refers := checked index before old
    by_cases fixed : before.isPointed = false
    · rw [alike.eq fixed]
      exact grown.refersIn refers
    · -- the constant has a site, which holds its replacement now
      obtain ⟨site, member, -, covers, stays⟩ := outcome.collected.constant small old (by simpa using fixed)
      obtain ⟨replacement?, -, stores⟩ := outcome.stores site member stays
      exact refersIn_of_stores grown.toKeeps refers alike (Pool.get_eq_ok.mp found).1 covers stores
  · exact new

/-- The name and the descriptor of a declared field are texts. -/
theorem field_texts (outcome : Outcome renamer file context parts after count) {position : Nat}
    {field later : Member} (found : file.fields[position]? = some field)
    (kept : after.fields[position]? = some later) :
    after.pool.Has .utf8 later.name ∧ after.pool.Has .utf8 later.descriptor := by
  obtain ⟨name, descriptor, -, -, declared⟩ := outcome.collected.field found
  obtain ⟨replacement?, -, stores⟩ := outcome.stores _ declared rfl
  generalize replacement?.getD _ = replacement at stores
  cases replacement with
  | text => exact False.elim stores
  | nameAndType newName newDescriptor =>
    obtain ⟨other, otherKept, nameRead, descriptorRead⟩ := stores
    cases kept.symm.trans otherKept
    exact ⟨Pool.has_of_utf8 nameRead, Pool.has_of_utf8 descriptorRead⟩

/-- The name and the descriptor of a declared method are texts. -/
theorem method_texts (outcome : Outcome renamer file context parts after count) {position : Nat}
    {method later : Member} (found : file.methods[position]? = some method)
    (kept : after.methods[position]? = some later) :
    after.pool.Has .utf8 later.name ∧ after.pool.Has .utf8 later.descriptor := by
  obtain ⟨name, descriptor, -, -, declared⟩ := outcome.collected.method found
  obtain ⟨replacement?, -, stores⟩ := outcome.stores _ declared rfl
  generalize replacement?.getD _ = replacement at stores
  cases replacement with
  | text => exact False.elim stores
  | nameAndType newName newDescriptor =>
    obtain ⟨other, otherKept, nameRead, descriptorRead⟩ := stores
    cases kept.symm.trans otherKept
    exact ⟨Pool.has_of_utf8 nameRead, Pool.has_of_utf8 descriptorRead⟩

/-- Members of a renamed class are valid, if those before were and their names and descriptors are texts. -/
theorem members_valid (outcome : Outcome renamer file context parts after count) {owner : Nat → Owner}
    {members others : List Member} (flags : others.map Member.flags = members.map Member.flags)
    (before : ∀ position member, members[position]? = some member →
      file.attributesOf (owner position) = member.attributes)
    (behind : ∀ position member, others[position]? = some member →
      after.attributesOf (owner position) = member.attributes)
    (texts : ∀ (position : Nat) member other, members[position]? = some member → others[position]? = some other →
      after.pool.Has .utf8 other.name ∧ after.pool.Has .utf8 other.descriptor)
    (valid : ∀ member ∈ members, member.Valid file.pool) : ∀ other ∈ others, other.Valid after.pool := by
  intro other inside
  obtain ⟨position, kept⟩ := List.mem_iff_getElem?.mp inside
  obtain ⟨member, found, -⟩ := Member.exists_of_flags flags.symm kept
  obtain ⟨hasName, hasDescriptor⟩ := texts position member other found kept
  have shapes := outcome.edited.shapes (owner position)
  rw [before position member found, behind position other kept] at shapes
  exact ⟨hasName, hasDescriptor, Attribute.valid_of_shapes outcome.edited.pool.toKeeps shapes
    (valid member (List.mem_of_getElem? found)).attributes⟩

/-! ### The class -/

/-- **The code of a renamed class is accepted**, if it was before. -/
theorem codeAccepted (outcome : Outcome renamer file context parts after count)
    (small : file.pool.size ≤ Pool.maxSlots)
    (checked : ∀ method ∈ file.methods, CodeAccepted file.pool method) :
    ∀ method ∈ after.methods, CodeAccepted after.pool method := by
  intro later member
  obtain ⟨position, kept⟩ := List.mem_iff_getElem?.mp member
  obtain ⟨method, found, -⟩ := Member.exists_of_flags outcome.edited.methodFlags.symm kept
  obtain ⟨code?, read, accepted⟩ := checked method (List.mem_of_getElem? found)
  obtain ⟨other, new?, otherKept, again, alike⟩ := outcome.code small found read
  obtain rfl : later = other := Option.some.inj (kept.symm.trans otherKept)
  refine ⟨new?, again, ?_⟩
  cases alike with
  | none => nofun
  | @some code new alike =>
    rintro _ ⟨⟩
    obtain ⟨operands, scanned, each⟩ := accepted code rfl
    refine ⟨operands, ?_, fun operand inside => (each operand inside).keep outcome.edited.pool.toKeeps⟩
    rw [alike.instructions, scanned]

/-- **A renamed class is well formed**, if it was before. -/
theorem wellFormed (outcome : Outcome renamer file context parts after count)
    (small : file.pool.size ≤ Pool.maxSlots) (valid : file.WellFormed) : after.WellFormed := by
  have grown := outcome.edited.pool
  have outline := outcome.edited.outline
  have major : after.major = file.major := congrArg Outline.major outline
  have thisClass : after.thisClass = file.thisClass := congrArg Outline.thisClass outline
  have superClass : after.superClass = file.superClass := congrArg Outline.superClass outline
  have interfaces : after.interfaces = file.interfaces := congrArg Outline.interfaces outline
  constructor
  case version =>
    rw [major]
    exact valid.version
  case laid => exact grown.laid valid.laid
  case checked =>
    refine (Pool.check_eq_ok (grown.small small)).mpr fun index constant found => ?_
    exact outcome.refersIn small ((Pool.check_eq_ok small).mp valid.checked) found
  case thisClass =>
    rw [thisClass]
    exact grown.has valid.thisClass
  case superClass =>
    rw [superClass]
    exact fun index member => grown.has (valid.superClass index member)
  case interfaces =>
    rw [interfaces]
    exact fun index member => grown.has (valid.interfaces index member)
  case fields =>
    exact outcome.members_valid outcome.edited.fieldFlags (fun _ _ => attributesOf_field)
      (fun _ _ => attributesOf_field) (fun _ _ _ => outcome.field_texts) valid.fields
  case methods =>
    exact outcome.members_valid outcome.edited.methodFlags (fun _ _ => attributesOf_method)
      (fun _ _ => attributesOf_method) (fun _ _ _ => outcome.method_texts) valid.methods
  case attributes =>
    exact Attribute.valid_of_shapes grown.toKeeps (outcome.edited.shapes .ofClass) valid.attributes

end Outcome

/-- **A renamed class is a valid class file.** Its constants refer to constants of the right kinds, the code of its
methods decodes and has operands of the right kinds, and it is read again from the bytes written for it. -/
theorem valid_of_rename {bytes : Bytes} {file after : ClassFile} {renamer : Renamer} {count : Nat}
    (parsed : parse bytes = .ok file) (renamed : file.rename renamer = .ok (after, count)) :
    (∀ written, after.toBytes = .ok written → parse written = .ok after) ∧
      (∀ index constant, after.pool.get index = .ok constant → after.pool.RefersIn constant) ∧
      ∀ method ∈ after.methods, CodeAccepted after.pool method := by
  have small := small_of_parse parsed
  obtain ⟨context, parts, outcome⟩ := outcome_of_rename small renamed
  obtain ⟨valid, checked, -⟩ := parse_eq_ok_iff.mp parsed
  have accepted := outcome.codeAccepted small (checkCode_eq_ok.mp checked)
  refine ⟨fun written wrote => ?_, fun index constant found => ?_, accepted⟩
  · exact parse_eq_ok_iff.mpr ⟨outcome.wellFormed small valid, checkCode_eq_ok.mpr accepted, wrote⟩
  · exact outcome.refersIn small ((Pool.check_eq_ok small).mp valid.checked) found

/-- The bytes of the renamed sample. -/
def sampleRenamedBytes : Bytes :=
  [0xCA, 0xFE, 0xBA, 0xBE, 0x00, 0x00, 0x00, 0x34, 0x00, 0x0D,
    0x01, 0x00, 0x01, 0x41,
    0x07, 0x00, 0x0B,
    0x08, 0x00, 0x01,
    0x01, 0x00, 0x01, 0x66,
    0x01, 0x00, 0x03, 0x4C, 0x41, 0x3B,
    0x01, 0x00, 0x09, 0x53, 0x69, 0x67, 0x6E, 0x61, 0x74, 0x75, 0x72, 0x65,
    0x01, 0x00, 0x01, 0x6D,
    0x01, 0x00, 0x03, 0x28, 0x29, 0x56,
    0x01, 0x00, 0x04, 0x43, 0x6F, 0x64, 0x65,
    0x01, 0x00, 0x12, 0x4C, 0x6F, 0x63, 0x61, 0x6C, 0x56, 0x61, 0x72, 0x69, 0x61, 0x62, 0x6C, 0x65,
    0x54, 0x61, 0x62, 0x6C, 0x65,
    0x01, 0x00, 0x01, 0x42,
    0x01, 0x00, 0x03, 0x4C, 0x42, 0x3B,
    0x00, 0x21, 0x00, 0x02, 0x00, 0x00, 0x00, 0x00,
    0x00, 0x01, 0x00, 0x02, 0x00, 0x04, 0x00, 0x0C,
    0x00, 0x01, 0x00, 0x06, 0x00, 0x00, 0x00, 0x02, 0x00, 0x0C,
    0x00, 0x01, 0x00, 0x09, 0x00, 0x07, 0x00, 0x08,
    0x00, 0x01, 0x00, 0x09, 0x00, 0x00, 0x00, 0x26, 0x00, 0x01, 0x00, 0x01,
    0x00, 0x00, 0x00, 0x08, 0xBB, 0x00, 0x02, 0x57, 0x12, 0x03, 0x57, 0xB1,
    0x00, 0x00, 0x00, 0x01, 0x00, 0x0A, 0x00, 0x00, 0x00, 0x0C,
    0x00, 0x01, 0x00, 0x00, 0x00, 0x08, 0x00, 0x07, 0x00, 0x0C, 0x00, 0x00,
    0x00, 0x00]

theorem valid_of_rename_sample :
    parse sampleBytes = .ok sample ∧ sample.rename sampleRenamer = .ok (sampleRenamed, 4) ∧
      sampleRenamed.toBytes = .ok sampleRenamedBytes ∧ parse sampleRenamedBytes = .ok sampleRenamed ∧
      sampleRenamed.pool.RefersIn (.classRef 11) ∧
      ∀ method ∈ sampleRenamed.methods, CodeAccepted sampleRenamed.pool method :=
  have parsed : parse sampleBytes = .ok sample := by decide +kernel
  have renamed : sample.rename sampleRenamer = .ok (sampleRenamed, 4) := by decide +kernel
  have wrote : sampleRenamed.toBytes = .ok sampleRenamedBytes := by decide +kernel
  have ⟨again, refers, accepted⟩ := valid_of_rename parsed renamed
  ⟨parsed, renamed, wrote, again _ wrote, refers 2 _ rfl, accepted⟩

end ClassFile

end JarRename
