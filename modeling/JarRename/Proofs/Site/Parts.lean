import JarRename.Proofs.Site.Collect

/-!
**All sites of a class.**

The sites of a class lie apart from each other, and each holds what its symbol says. Every mention in an
attribute has its site.

* `ClassFile.Collected`, `ClassFile.sites_eq_ok`: the sites of a class, part by part;
* `ClassFile.Collected.constant`, `ClassFile.Collected.field`, `ClassFile.Collected.method`,
  `ClassFile.Collected.walked`: every name has its site;
* `ClassFile.Collected.mention_of_mem`: sites in attributes are mentions;
* `ClassFile.Collected.pairwise_apart`, `ClassFile.Collected.stores`: the two facts about all sites.
-/

namespace JarRename

/-- The sites of a class by the part of the class that they belong to. -/
structure SiteParts where
  constants : List Site
  fields : List Site
  methods : List Site
  classTable : List Site
  fieldTables : List Site
  methodTables : List Site
  instructions : List Site

/-- All sites, in order. -/
def SiteParts.all (parts : SiteParts) : List Site :=
  parts.constants ++ parts.fields ++ parts.methods ++ parts.classTable ++ parts.fieldTables ++
    parts.methodTables ++ parts.instructions

namespace ClassFile

/-- The sites of a class, part by part. -/
structure Collected (file : ClassFile) (context : SiteContext) (parts : SiteParts) : Prop where
  opened : SiteContext.ofClass file = .ok context
  constants : context.constantSites = .ok parts.constants
  fields : context.fieldSites file.fields = .ok parts.fields
  methods : context.methodSites file.methods = .ok parts.methods
  classTable : context.tableSites .ofClass file.attributes = .ok parts.classTable
  fieldTables : context.memberTableSites .ofField file.fields = .ok parts.fieldTables
  methodTables : context.memberTableSites .ofMethod file.methods = .ok parts.methodTables
  instructions : context.instructionSites file.methods = .ok parts.instructions

theorem sites_eq_ok {file : ClassFile} {sites : List Site} :
    file.sites = .ok sites ↔ ∃ context parts, file.Collected context parts ∧ parts.all = sites := by
  simp only [ClassFile.sites, bind_eq_ok, pure_eq_ok]
  constructor
  · rintro ⟨context, opened, constants, one, fields, two, methods, three, classTable, four, fieldTables, five,
      methodTables, six, instructions, seven, rfl⟩
    exact ⟨context, ⟨constants, fields, methods, classTable, fieldTables, methodTables, instructions⟩,
      ⟨opened, one, two, three, four, five, six, seven⟩, rfl⟩
  · rintro ⟨context, parts, collected, rfl⟩
    exact ⟨context, collected.opened, _, collected.constants, _, collected.fields, _, collected.methods, _,
      collected.classTable, _, collected.fieldTables, _, collected.methodTables, _, collected.instructions, rfl⟩

namespace Collected

variable {file : ClassFile} {context : SiteContext} {parts : SiteParts}

theorem pool (collected : file.Collected context parts) : context.pool = file.pool :=
  (SiteContext.ofClass_eq_ok.mp collected.opened).1

theorem location_of_mem_instructions (collected : file.Collected context parts) {site : Site}
    (member : site ∈ parts.instructions) : ∃ method pc index, site.location = .instruction method pc index := by
  obtain ⟨lists, each, same⟩ := bind_eq_ok.mp collected.instructions
  rw [pure_eq_ok] at same
  rw [← same, List.mem_flatten] at member
  obtain ⟨list, inside, member⟩ := member
  obtain ⟨⟨method, position⟩, -, step⟩ := mem_of_mapM each inside
  exact ⟨position, SiteContext.location_of_mem_codeSites step member⟩

/-- The table of every owner is walked, and its sites are sites of the class. -/
theorem table (collected : file.Collected context parts) (owner : Owner) :
    ∃ found, context.tableSites owner (file.attributesOf owner) = .ok found ∧
      ∀ site ∈ found, site ∈ parts.all := by
  cases owner with
  | ofClass => exact ⟨_, collected.classTable, fun site member => by simp [SiteParts.all, member]⟩
  | ofField position =>
    obtain ⟨found, done⟩ := SiteContext.exists_tableSites collected.fieldTables position
    refine ⟨found, done, fun site member => ?_⟩
    have inside := (SiteContext.mem_memberTableSites collected.fieldTables).mpr ⟨position, found, done, member⟩
    simp [SiteParts.all, inside]
  | ofMethod position =>
    obtain ⟨found, done⟩ := SiteContext.exists_tableSites collected.methodTables position
    refine ⟨found, done, fun site member => ?_⟩
    have inside := (SiteContext.mem_memberTableSites collected.methodTables).mpr ⟨position, found, done, member⟩
    simp [SiteParts.all, inside]

/-- The sites of a class by their sort: a constant, a declaration, a mention in an attribute or an operand. -/
theorem mem_cases (collected : file.Collected context parts) {site : Site} (member : site ∈ parts.all) :
    site ∈ parts.constants ∨ site ∈ parts.fields ∨ site ∈ parts.methods ∨
      (∃ owner found, context.tableSites owner (file.attributesOf owner) = .ok found ∧ site ∈ found) ∨
      site ∈ parts.instructions := by
  simp only [SiteParts.all, List.mem_append] at member
  obtain (((((inside | inside) | inside) | inside) | inside) | inside) | inside := member
  · exact .inl inside
  · exact .inr (.inl inside)
  · exact .inr (.inr (.inl inside))
  · exact .inr (.inr (.inr (.inl ⟨.ofClass, _, collected.classTable, inside⟩)))
  · obtain ⟨position, found, done, inside⟩ := (SiteContext.mem_memberTableSites collected.fieldTables).mp inside
    exact .inr (.inr (.inr (.inl ⟨.ofField position, found, done, inside⟩)))
  · obtain ⟨position, found, done, inside⟩ := (SiteContext.mem_memberTableSites collected.methodTables).mp inside
    exact .inr (.inr (.inr (.inl ⟨.ofMethod position, found, done, inside⟩)))
  · exact .inr (.inr (.inr (.inr inside)))

/-- Every mention in an attribute has its site. -/
theorem walked (collected : file.Collected context parts) {owner : Owner} {position : Nat} {item : Attribute}
    (found : (file.attributesOf owner)[position]? = some item) :
    ∃ name mentions, file.pool.utf8 item.name = .ok name ∧
      Mention.ofAttribute file.pool context.name (SiteContext.isMethodOwner owner) name item.data =
        .ok mentions ∧
      ∀ mention ∈ mentions,
        { location := .inAttribute owner position mention.offset, symbol := mention.symbol } ∈ parts.all := by
  obtain ⟨sites, done, inside⟩ := collected.table owner
  obtain ⟨name, mentions, read, walked⟩ := SiteContext.walked_of_tableSites done found
  have every (mention : Mention) (member : mention ∈ mentions) :
      { location := .inAttribute owner position mention.offset, symbol := mention.symbol } ∈ parts.all :=
    inside _ ((SiteContext.mem_tableSites done).mpr
      ⟨position, item, name, mentions, mention, found, read, walked, member, rfl⟩)
  rw [collected.pool] at read walked
  exact ⟨name, mentions, read, walked, every⟩

/-- Every constant that points at a name has its site. -/
theorem constant (collected : file.Collected context parts) (small : file.pool.size ≤ Pool.maxSlots)
    {index : Index} {constant : Constant} (found : file.pool.get index = .ok constant)
    (pointed : constant.isPointed = true) :
    ∃ site ∈ parts.all, context.constantSite? index = .ok (some site) ∧
      site.location.Covers (.constant index) ∧ site.location.isInstruction = false := by
  rw [← collected.pool] at small found
  have own : constant.kind ≠ .methodHandle := by
    rintro same
    cases constant <;> cases pointed <;> cases same
  obtain ⟨site, done⟩ := SiteContext.exists_constantSite collected.constants small found own pointed
  have member := (SiteContext.mem_constantSites small collected.constants).mpr ⟨index, constant, found, own, done⟩
  obtain ⟨covers, -⟩ := SiteContext.stores_constant collected.pool.symm found own done
  refine ⟨site, by simp [SiteParts.all, member], done, covers, ?_⟩
  cases location : site.location <;> rw [location] at covers <;> first | rfl | cases covers

/-- Every declaration of a field has its site. -/
theorem field (collected : file.Collected context parts) {position : Nat} {field : Member}
    (found : file.fields[position]? = some field) :
    ∃ name descriptor, file.pool.utf8 field.name = .ok name ∧ file.pool.utf8 field.descriptor = .ok descriptor ∧
      { location := .fieldDeclaration position,
        symbol := .ofField context.name name descriptor (some field.flags) } ∈ parts.all := by
  have done := collected.fields
  rw [SiteContext.fieldSites_eq] at done
  obtain ⟨name, descriptor, nameRead, descriptorRead, member⟩ := SiteContext.exists_declarationSite done found
  rw [collected.pool] at nameRead descriptorRead
  exact ⟨name, descriptor, nameRead, descriptorRead, by simp [SiteParts.all, member]⟩

/-- Every declaration of a method has its site. -/
theorem method (collected : file.Collected context parts) {position : Nat} {method : Member}
    (found : file.methods[position]? = some method) :
    ∃ name descriptor, file.pool.utf8 method.name = .ok name ∧
      file.pool.utf8 method.descriptor = .ok descriptor ∧
      { location := .methodDeclaration position,
        symbol := .ofMethod context.name name descriptor (some method.flags) } ∈ parts.all := by
  have done := collected.methods
  rw [SiteContext.methodSites_eq] at done
  obtain ⟨name, descriptor, nameRead, descriptorRead, member⟩ := SiteContext.exists_declarationSite done found
  rw [collected.pool] at nameRead descriptorRead
  exact ⟨name, descriptor, nameRead, descriptorRead, by simp [SiteParts.all, member]⟩

theorem part_constants (collected : file.Collected context parts) (small : file.pool.size ≤ Pool.maxSlots)
    {site : Site} (member : site ∈ parts.constants) : site.location.part = 0 := by
  rw [← collected.pool] at small
  obtain ⟨index, constant, read, own, done⟩ :=
    (SiteContext.mem_constantSites small collected.constants).mp member
  exact (SiteContext.stores_constant collected.pool.symm read own done).1.part

theorem part_fields (collected : file.Collected context parts) {site : Site}
    (member : site ∈ parts.fields) : site.location.part = 1 := by
  obtain ⟨position, field, name, descriptor, -, -, -, rfl⟩ :=
    (SiteContext.mem_declarationSites (SiteContext.fieldSites_eq context ▸ collected.fields)).mp member
  rfl

theorem part_methods (collected : file.Collected context parts) {site : Site}
    (member : site ∈ parts.methods) : site.location.part = 2 := by
  obtain ⟨position, method, name, descriptor, -, -, -, rfl⟩ :=
    (SiteContext.mem_declarationSites (SiteContext.methodSites_eq context ▸ collected.methods)).mp member
  rfl

/-- Every site in an attribute is a mention of it. -/
theorem mention_of_mem (collected : file.Collected context parts) (small : file.pool.size ≤ Pool.maxSlots)
    {owner : Owner} {position offset : Nat}
    {site : Site} (member : site ∈ parts.all) (location : site.location = .inAttribute owner position offset) :
    ∃ item name mentions mention, (file.attributesOf owner)[position]? = some item ∧
      file.pool.utf8 item.name = .ok name ∧
      Mention.ofAttribute file.pool context.name (SiteContext.isMethodOwner owner) name item.data =
        .ok mentions ∧
      mention ∈ mentions ∧ mention.offset = offset ∧ mention.symbol = site.symbol := by
  have late : 3 ≤ site.location.part := by
    rw [location]
    cases owner <;> simp [Location.part]
  obtain inside | inside | inside | ⟨other, found, done, inside⟩ | inside := collected.mem_cases member
  · rw [collected.part_constants small inside] at late
    omega
  · rw [collected.part_fields inside] at late
    omega
  · rw [collected.part_methods inside] at late
    omega
  · obtain ⟨place, item, name, mentions, mention, found, read, walked, mentioned, rfl⟩ :=
      (SiteContext.mem_tableSites done).mp inside
    rw [collected.pool] at read walked
    cases location
    exact ⟨item, name, mentions, mention, found, read, walked, mentioned, rfl, rfl⟩
  · obtain ⟨method, pc, index, other⟩ := collected.location_of_mem_instructions inside
    cases location.symm.trans other

/-- Lists of sites of one part after sites of earlier parts. -/
theorem pairwise_append_of_part {first second : List Site} {number : Nat}
    (earlier : (first.Pairwise fun one two => one.location.Apart two.location) ∧
      ∀ site ∈ first, site.location.part < number)
    (apart : second.Pairwise fun one two => one.location.Apart two.location)
    (parts : ∀ site ∈ second, site.location.part = number) :
    ((first ++ second).Pairwise fun one two => one.location.Apart two.location) ∧
      ∀ site ∈ first ++ second, site.location.part < number + 1 := by
  refine ⟨List.pairwise_append.mpr ⟨earlier.1, apart, fun one inside two insideToo => ?_⟩, fun site member => ?_⟩
  · refine Location.apart_of_part (Nat.ne_of_lt ?_)
    rw [parts two insideToo]
    exact earlier.2 one inside
  · obtain inside | inside := List.mem_append.mp member
    · exact Nat.lt_succ_of_lt (earlier.2 site inside)
    · exact Nat.lt_succ_of_le (Nat.le_of_eq (parts site inside))

/-- **Sites lie apart.** -/
theorem pairwise_apart (collected : file.Collected context parts) (small : file.pool.size ≤ Pool.maxSlots) :
    parts.all.Pairwise fun first second => first.location.Apart second.location := by
  have constants := SiteContext.constantSites_pairwise collected.pool.symm
    (collected.pool ▸ small) collected.constants
  have fields := SiteContext.declarationSites_pairwise (SiteContext.fieldSites_eq context ▸ collected.fields)
    fun position other differ => by
      rintro (_ | _ | _ | _) ⟨⟩ ⟨⟩
      exact differ rfl
  have methods := SiteContext.declarationSites_pairwise (SiteContext.methodSites_eq context ▸ collected.methods)
    fun position other differ => by
      rintro (_ | _ | _ | _) ⟨⟩ ⟨⟩
      exact differ rfl
  have instructions : parts.instructions.Pairwise fun one two => one.location.Apart two.location := by
    refine List.pairwise_iff_forall_sublist.mpr fun {one two} both => ?_
    obtain ⟨method, pc, index, location⟩ :=
      collected.location_of_mem_instructions (both.subset List.mem_cons_self)
    rw [location]
    rintro cell ⟨⟩
  have first := pairwise_append_of_part
    ⟨constants, fun site member => Nat.lt_succ_of_le (Nat.le_of_eq (collected.part_constants small member))⟩
    fields fun site member => collected.part_fields member
  have second := pairwise_append_of_part first methods fun site member => collected.part_methods member
  have third := pairwise_append_of_part second (SiteContext.tableSites_pairwise collected.classTable)
    fun site member => by
      obtain ⟨_, _, _, _, mention, -, -, -, -, rfl⟩ := (SiteContext.mem_tableSites collected.classTable).mp member
      rfl
  have fourth := pairwise_append_of_part third
    (SiteContext.memberTableSites_pairwise (fun _ _ => Owner.ofField.inj) collected.fieldTables)
    fun site member => by
      obtain ⟨position, found, done, inside⟩ :=
        (SiteContext.mem_memberTableSites collected.fieldTables).mp member
      obtain ⟨_, _, _, _, mention, -, -, -, -, rfl⟩ := (SiteContext.mem_tableSites done).mp inside
      rfl
  have fifth := pairwise_append_of_part fourth
    (SiteContext.memberTableSites_pairwise (fun _ _ => Owner.ofMethod.inj) collected.methodTables)
    fun site member => by
      obtain ⟨position, found, done, inside⟩ :=
        (SiteContext.mem_memberTableSites collected.methodTables).mp member
      obtain ⟨_, _, _, _, mention, -, -, -, -, rfl⟩ := (SiteContext.mem_tableSites done).mp inside
      rfl
  exact (pairwise_append_of_part fifth instructions fun site member => by
    obtain ⟨method, pc, index, location⟩ := collected.location_of_mem_instructions member
    rw [location]
    rfl).1

/-- **Every site that is no operand holds what its symbol says.** -/
theorem stores (collected : file.Collected context parts) (small : file.pool.size ≤ Pool.maxSlots)
    {site : Site} (member : site ∈ parts.all) (stored : site.location.isInstruction = false) :
    file.Stores site.location site.symbol.stored := by
  have pool := collected.pool
  obtain inside | inside | inside | ⟨owner, found, done, inside⟩ | inside := collected.mem_cases member
  · rw [← pool] at small
    obtain ⟨index, constant, read, own, done⟩ :=
      (SiteContext.mem_constantSites small collected.constants).mp inside
    exact (SiteContext.stores_constant pool.symm read own done).2
  · have done := collected.fields
    rw [SiteContext.fieldSites_eq] at done
    obtain ⟨position, field, name, descriptor, found, nameRead, descriptorRead, rfl⟩ :=
      (SiteContext.mem_declarationSites done).mp inside
    rw [pool] at nameRead descriptorRead
    exact ⟨field, found, nameRead, descriptorRead⟩
  · have done := collected.methods
    rw [SiteContext.methodSites_eq] at done
    obtain ⟨position, method, name, descriptor, found, nameRead, descriptorRead, rfl⟩ :=
      (SiteContext.mem_declarationSites done).mp inside
    rw [pool] at nameRead descriptorRead
    exact ⟨method, found, nameRead, descriptorRead⟩
  · obtain ⟨position, item, name, mentions, mention, found, -, walked, mentioned, rfl⟩ :=
      (SiteContext.mem_tableSites done).mp inside
    obtain ⟨index, peeked, names⟩ := (Mention.layout_of_ofAttribute walked).2 mention mentioned
    rw [pool] at names
    exact ⟨item, index, found, peeked, names⟩
  · obtain ⟨method, pc, index, location⟩ := collected.location_of_mem_instructions inside
    rw [location] at stored
    cases stored

end Collected

end ClassFile

end JarRename
