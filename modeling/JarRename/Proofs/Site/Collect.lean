import JarRename.Proofs.Site.Attribute
import JarRename.Proofs.Site.Location

/-!
**The parts of the sites of a class.**

Constants, declarations, tables of attributes and operands each have their sites. In each part the sites are
those of its items, and they lie apart from each other.

* `SiteContext.mem_constantSites`, `SiteContext.stores_constant`: the constants;
* `SiteContext.declarationSites`, `SiteContext.mem_declarationSites`: the declarations;
* `SiteContext.mem_tableSites`, `SiteContext.mem_memberTableSites`: the mentions in attributes;
* `SiteContext.codeSites_eq_ok`: the operands in code.
-/

namespace JarRename

/-! ### Constants -/

/-- The symbol of a member. -/
def MemberRef.symbol (member : MemberRef) : Symbol :=
  match member.kind with
  | .field => .ofField member.owner member.name member.descriptor none
  | .method | .interfaceMethod => .ofMethod member.owner member.name member.descriptor none

theorem MemberRef.stored_symbol (member : MemberRef) :
    member.symbol.stored = .nameAndType member.name member.descriptor := by
  obtain ⟨kind, owner, name, descriptor⟩ := member
  cases kind <;> rfl

namespace SiteContext

variable {context : SiteContext} {index : Index}

theorem memberSymbol_eq_ok {symbol : Symbol} :
    context.memberSymbol index = .ok symbol ↔
      ∃ member, context.pool.memberRef index = .ok member ∧ member.symbol = symbol := by
  rw [memberSymbol, bind_eq_ok]
  refine exists_congr fun member => and_congr_right fun _ => ?_
  obtain ⟨kind, owner, name, descriptor⟩ := member
  cases kind <;> exact pure_eq_ok

/-- A lambda is looked for behind the member that the bootstrap method calls. -/
theorem lambdaTarget?_eq_ok {bootstrap : UInt16} {descriptor : String} {lambda : Option LambdaTarget} :
    context.lambdaTarget? bootstrap descriptor = .ok lambda ↔
      ∃ methods method kind target member, context.bootstraps = some methods ∧
        methods[bootstrap.toNat]? = some method ∧ context.pool.methodHandle method.handle = .ok (kind, target) ∧
        context.pool.memberRef target = .ok member ∧
        (if isLambdaFactory member then context.lambdaOf method descriptor else return none) = .ok lambda := by
  unfold lambdaTarget?
  constructor
  · intro done
    cases table : context.bootstraps with
    | none =>
      rw [table] at done
      cases done
    | some methods =>
      rw [table] at done
      dsimp only at done
      cases found : methods[bootstrap.toNat]? with
      | none =>
        rw [found] at done
        cases done
      | some method =>
        rw [found] at done
        obtain ⟨⟨kind, target⟩, handle, done⟩ := bind_eq_ok.mp done
        obtain ⟨member, read, done⟩ := bind_eq_ok.mp done
        exact ⟨methods, method, kind, target, member, rfl, found, handle, read, done⟩
  · rintro ⟨methods, method, kind, target, member, table, found, handle, read, done⟩
    rw [table]
    dsimp only
    rw [found]
    exact bind_eq_ok.mpr ⟨(kind, target), handle, bind_eq_ok.mpr ⟨member, read, done⟩⟩

theorem callSite_eq_ok {bootstrap : UInt16} {pair : Index} {symbol : Symbol} :
    context.callSite bootstrap pair = .ok symbol ↔
      ∃ name descriptor lambda, context.pool.nameAndType pair = .ok (name, descriptor) ∧
        context.lambdaTarget? bootstrap descriptor = .ok lambda ∧
        .callSite { name, descriptor, lambda } = symbol := by
  simp only [callSite, bind_eq_ok, pure_eq_ok, Prod.exists]
  constructor
  · rintro ⟨name, descriptor, read, lambda, found, same⟩
    exact ⟨name, descriptor, lambda, read, found, same⟩
  · rintro ⟨name, descriptor, lambda, read, found, same⟩
    exact ⟨name, descriptor, read, lambda, found, same⟩

/-- The site of a constant that is no method handle is the constant, which holds its symbol. -/
theorem stores_constant {file : ClassFile} (pool : file.pool = context.pool) {site : Site} {constant : Constant}
    (found : context.pool.get index = .ok constant) (own : constant.kind ≠ .methodHandle)
    (done : context.constantSite? index = .ok (some site)) :
    site.location.Covers (.constant index) ∧ file.Stores site.location site.symbol.stored := by
  obtain ⟨slot, -⟩ := Pool.get_eq_ok.mp found
  rw [constantSite?, found, ok_bind] at done
  rw [← pool] at slot
  cases constant
  case classRef name =>
    obtain ⟨text, read, same⟩ := bind_eq_ok.mp done
    cases same
    obtain ⟨other, again, read⟩ := Pool.className_eq_ok.mp read
    rw [← pool] at again read
    exact ⟨rfl, other, again, read⟩
  case field | method | interfaceMethod =>
    obtain ⟨symbol, read, same⟩ := bind_eq_ok.mp done
    cases same
    obtain ⟨member, memberRead, rfl⟩ := memberSymbol_eq_ok.mp read
    obtain ⟨owner, pair, again, pairRead, -⟩ := Pool.memberRef_eq_ok.mp memberRead
    rw [← pool] at again pairRead
    rw [MemberRef.stored_symbol]
    exact ⟨rfl, member.kind, owner, pair, again, pairRead⟩
  case methodType descriptor =>
    obtain ⟨text, read, same⟩ := bind_eq_ok.mp done
    cases same
    rw [← pool] at read
    exact ⟨rfl, descriptor, slot, read⟩
  case dynamic bootstrap pair =>
    obtain ⟨symbol, read, same⟩ := bind_eq_ok.mp done
    cases same
    obtain ⟨name, descriptor, lambda, pairRead, -, rfl⟩ := callSite_eq_ok.mp read
    rw [← pool] at pairRead
    exact ⟨rfl, bootstrap, pair, .inl slot, pairRead⟩
  case invokeDynamic bootstrap pair =>
    obtain ⟨symbol, read, same⟩ := bind_eq_ok.mp done
    cases same
    obtain ⟨name, descriptor, lambda, pairRead, -, rfl⟩ := callSite_eq_ok.mp read
    rw [← pool] at pairRead
    exact ⟨rfl, bootstrap, pair, .inr slot, pairRead⟩
  case methodHandle => exact absurd rfl own
  all_goals cases done

/-- The site of a member is its constant. -/
theorem constantSite?_member {member : MemberRef} (read : context.pool.memberRef index = .ok member) :
    context.constantSite? index = .ok (some { location := .memberConstant index, symbol := member.symbol }) := by
  obtain ⟨owner, pair, slot, -, -⟩ := Pool.memberRef_eq_ok.mp read
  have symbol : context.memberSymbol index = .ok member.symbol := memberSymbol_eq_ok.mpr ⟨member, read, rfl⟩
  have found : context.pool.get index = .ok (member.kind.constant owner pair) :=
    Pool.get_eq_ok.mpr ⟨slot, by cases member.kind <;> nofun⟩
  rw [constantSite?, found, ok_bind]
  cases member.kind
  all_goals exact bind_eq_ok.mpr ⟨_, symbol, rfl⟩

/-- The site of an entry of the pool; method handles have none of their own. -/
def entrySite? (context : SiteContext) (entry : Index × Constant) : Except Fault (Option Site) :=
  if entry.2.kind = .methodHandle then pure none else context.constantSite? entry.1

theorem constantSites_eq_ok {sites : List Site} :
    context.constantSites = .ok sites ↔
      ∃ found, context.pool.entries.mapM context.entrySite? = .ok found ∧ found.filterMap id = sites :=
  bind_eq_ok.trans (exists_congr fun _ => and_congr_right fun _ => pure_eq_ok)

/-- A text or a name-and-type names nothing by itself. -/
theorem entrySite?_name {entry : Index × Constant} (found : context.pool.get entry.1 = .ok entry.2)
    (name : entry.2.IsName) : context.entrySite? entry = .ok none := by
  obtain ⟨index, constant⟩ := entry
  cases constant
  case utf8 | nameAndType =>
    rw [entrySite?, if_neg (by nofun), constantSite?, found]
    rfl
  all_goals cases name

/-- The sites of the constants are those of the constants in use that are no method handles. -/
theorem mem_constantSites (small : context.pool.size ≤ Pool.maxSlots) {sites : List Site}
    (done : context.constantSites = .ok sites) {site : Site} :
    site ∈ sites ↔ ∃ index constant, context.pool.get index = .ok constant ∧
      constant.kind ≠ .methodHandle ∧ context.constantSite? index = .ok (some site) := by
  obtain ⟨found, each, same⟩ := bind_eq_ok.mp done
  cases same
  rw [List.mem_filterMap]
  constructor
  · rintro ⟨site?, member, rfl⟩
    obtain ⟨⟨index, constant⟩, inside, step⟩ := mem_of_mapM each member
    dsimp only at step
    split at step
    · cases step
    next own => exact ⟨index, constant, (Pool.mem_entries small).mp inside, own, step⟩
  · rintro ⟨index, constant, read, own, step⟩
    obtain ⟨site?, member, again⟩ := mapM_of_mem each ((Pool.mem_entries small).mpr read)
    dsimp only at again
    rw [if_neg own, step] at again
    cases again
    exact ⟨some site, member, rfl⟩

/-- A constant in use that points at a name has a site. -/
theorem exists_constantSite {sites : List Site} (done : context.constantSites = .ok sites)
    (small : context.pool.size ≤ Pool.maxSlots) {constant : Constant}
    (found : context.pool.get index = .ok constant) (own : constant.kind ≠ .methodHandle)
    (pointed : constant.isPointed = true) : ∃ site, context.constantSite? index = .ok (some site) := by
  obtain ⟨_, each, -⟩ := bind_eq_ok.mp done
  obtain ⟨site?, -, step⟩ := mapM_of_mem each ((Pool.mem_entries small).mpr found)
  dsimp only at step
  rw [if_neg own] at step
  cases site? with
  | some site => exact ⟨site, step⟩
  | none =>
    rw [constantSite?, found, ok_bind] at step
    cases constant
    case classRef | methodType | field | method | interfaceMethod | dynamic | invokeDynamic =>
      obtain ⟨value, -, step⟩ := bind_eq_ok.mp step
      cases step
    all_goals cases pointed

theorem pairwise_entries {pool : Pool} (small : pool.size ≤ Pool.maxSlots) :
    pool.entries.Pairwise fun first second => first.1 ≠ second.1 := by
  unfold Pool.maxSlots at small
  rw [Pool.entries, List.pairwise_filterMap]
  refine (pairwise_zipIdx pool.slots.toList 1).imp_of_mem ?_
  rintro ⟨first, position⟩ ⟨second, other⟩ member otherMember less ⟨index, constant⟩ one ⟨otherIndex, last⟩ two
  have bound : position < 65536 := by
    have := List.snd_lt_of_mem_zipIdx member
    rw [← Pool.size_eq_length] at this
    omega
  have otherBound : other < 65536 := by
    have := List.snd_lt_of_mem_zipIdx otherMember
    rw [← Pool.size_eq_length] at this
    omega
  dsimp only at one two less ⊢
  split at one
  · cases one
  split at two
  · cases two
  cases one
  cases two
  intro same
  have numbers := congrArg UInt16.toNat same
  rw [UInt16.toNat_ofNat_of_lt' bound, UInt16.toNat_ofNat_of_lt' otherBound] at numbers
  omega

theorem constantSites_pairwise {file : ClassFile} (pool : file.pool = context.pool)
    (small : context.pool.size ≤ Pool.maxSlots) {sites : List Site}
    (done : context.constantSites = .ok sites) :
    sites.Pairwise fun first second => first.location.Apart second.location := by
  obtain ⟨found, each, same⟩ := bind_eq_ok.mp done
  cases same
  rw [List.pairwise_filterMap]
  refine pairwise_of_mapM (pairwise_entries small) each ?_
  rintro ⟨index, constant⟩ member ⟨other, last⟩ otherMember site? otherSite? differ step otherStep
  rintro site rfl otherSite rfl
  dsimp only at differ step otherStep
  split at step
  · cases step
  split at otherStep
  · cases otherStep
  next own otherOwn =>
    obtain ⟨covers, -⟩ := stores_constant pool ((Pool.mem_entries small).mp member) own step
    obtain ⟨otherCovers, -⟩ := stores_constant pool ((Pool.mem_entries small).mp otherMember) otherOwn otherStep
    intro cell here there
    have same := (covers.eq_constant here).symm.trans (otherCovers.eq_constant there)
    injection same with same
    exact differ same

/-! ### Declarations -/

/-- The sites of declarations, with their locations by position and their symbols by name, descriptor and
flags. -/
def declarationSites (context : SiteContext) (location : Nat → Location)
    (symbol : String → String → Flags → Symbol) (members : List Member) : Except Fault (List Site) :=
  members.zipIdx.mapM fun (member, position) => do
    let name ← context.pool.utf8 member.name
    let descriptor ← context.pool.utf8 member.descriptor
    return { location := location position, symbol := symbol name descriptor member.flags }

theorem fieldSites_eq (context : SiteContext) :
    context.fieldSites = context.declarationSites .fieldDeclaration fun name descriptor flags =>
      .ofField context.name name descriptor (some flags) := rfl

theorem methodSites_eq (context : SiteContext) :
    context.methodSites = context.declarationSites .methodDeclaration fun name descriptor flags =>
      .ofMethod context.name name descriptor (some flags) := rfl

section Declarations

variable {location : Nat → Location} {symbol : String → String → Flags → Symbol} {members : List Member}
variable {sites : List Site}

/-- Each declaration has its site. -/
theorem mem_declarationSites (done : context.declarationSites location symbol members = .ok sites)
    {site : Site} :
    site ∈ sites ↔ ∃ position member name descriptor, members[position]? = some member ∧
      context.pool.utf8 member.name = .ok name ∧ context.pool.utf8 member.descriptor = .ok descriptor ∧
      site = { location := location position, symbol := symbol name descriptor member.flags } := by
  constructor
  · intro inside
    obtain ⟨⟨member, position⟩, found, step⟩ := mem_of_mapM done inside
    obtain ⟨name, nameRead, step⟩ := bind_eq_ok.mp step
    obtain ⟨descriptor, descriptorRead, step⟩ := bind_eq_ok.mp step
    exact ⟨position, member, name, descriptor, List.mk_mem_zipIdx_iff_getElem?.mp found, nameRead,
      descriptorRead, (pure_eq_ok.mp step).symm⟩
  · rintro ⟨position, member, name, descriptor, found, nameRead, descriptorRead, rfl⟩
    obtain ⟨site, inside, step⟩ := mapM_of_mem done (List.mk_mem_zipIdx_iff_getElem?.mpr found)
    obtain ⟨otherName, otherRead, step⟩ := bind_eq_ok.mp step
    obtain ⟨otherDescriptor, otherDescriptorRead, step⟩ := bind_eq_ok.mp step
    cases nameRead.symm.trans otherRead
    cases descriptorRead.symm.trans otherDescriptorRead
    cases step
    exact inside

theorem exists_declarationSite (done : context.declarationSites location symbol members = .ok sites)
    {position : Nat} {member : Member} (found : members[position]? = some member) :
    ∃ name descriptor, context.pool.utf8 member.name = .ok name ∧
      context.pool.utf8 member.descriptor = .ok descriptor ∧
      { location := location position, symbol := symbol name descriptor member.flags } ∈ sites := by
  obtain ⟨site, inside, step⟩ := mapM_of_mem done (List.mk_mem_zipIdx_iff_getElem?.mpr found)
  obtain ⟨name, nameRead, step⟩ := bind_eq_ok.mp step
  obtain ⟨descriptor, descriptorRead, step⟩ := bind_eq_ok.mp step
  cases step
  exact ⟨name, descriptor, nameRead, descriptorRead, inside⟩

theorem declarationSites_pairwise (done : context.declarationSites location symbol members = .ok sites)
    (apart : ∀ position other, position ≠ other → (location position).Apart (location other)) :
    sites.Pairwise fun first second => first.location.Apart second.location := by
  refine pairwise_of_mapM (pairwise_zipIdx members 0) done ?_
  rintro ⟨member, position⟩ - ⟨last, other⟩ - site otherSite less step otherStep
  obtain ⟨name, -, step⟩ := bind_eq_ok.mp step
  obtain ⟨descriptor, -, step⟩ := bind_eq_ok.mp step
  obtain ⟨otherName, -, otherStep⟩ := bind_eq_ok.mp otherStep
  obtain ⟨otherDescriptor, -, otherStep⟩ := bind_eq_ok.mp otherStep
  cases step
  cases otherStep
  exact apart position other (Nat.ne_of_lt less)

end Declarations

/-! ### Attributes -/

section Tables

variable {owner : Owner} {items : List Attribute} {sites : List Site}

theorem attributeSites_eq_ok {item : Attribute} {position : Nat} :
    context.attributeSites owner item position = .ok sites ↔
      ∃ name found, context.pool.utf8 item.name = .ok name ∧
        Mention.ofAttribute context.pool context.name (isMethodOwner owner) name item.data = .ok found ∧
        sites = found.map fun mention =>
          { location := .inAttribute owner position mention.offset, symbol := mention.symbol } := by
  simp only [attributeSites, bind_eq_ok, mapError_eq_ok, pure_eq_ok]
  constructor
  · rintro ⟨name, read, found, walked, rfl⟩
    exact ⟨name, found, read, walked, rfl⟩
  · rintro ⟨name, found, read, walked, rfl⟩
    exact ⟨name, read, found, walked, rfl⟩

/-- Each mention in an attribute has its site. -/
theorem mem_tableSites (done : context.tableSites owner items = .ok sites) {site : Site} :
    site ∈ sites ↔ ∃ position item name found mention, items[position]? = some item ∧
      context.pool.utf8 item.name = .ok name ∧
      Mention.ofAttribute context.pool context.name (isMethodOwner owner) name item.data = .ok found ∧
      mention ∈ found ∧
      site = { location := .inAttribute owner position mention.offset, symbol := mention.symbol } := by
  obtain ⟨lists, each, same⟩ := bind_eq_ok.mp done
  cases same
  rw [List.mem_flatten]
  constructor
  · rintro ⟨list, inside, member⟩
    obtain ⟨⟨item, position⟩, found, step⟩ := mem_of_mapM each inside
    obtain ⟨name, mentions, read, walked, rfl⟩ := attributeSites_eq_ok.mp step
    obtain ⟨mention, mentioned, rfl⟩ := List.mem_map.mp member
    exact ⟨position, item, name, mentions, mention, List.mk_mem_zipIdx_iff_getElem?.mp found, read, walked,
      mentioned, rfl⟩
  · rintro ⟨position, item, name, mentions, mention, found, read, walked, mentioned, rfl⟩
    obtain ⟨list, inside, step⟩ := mapM_of_mem each (List.mk_mem_zipIdx_iff_getElem?.mpr found)
    obtain ⟨otherName, others, otherRead, otherWalked, rfl⟩ := attributeSites_eq_ok.mp step
    cases read.symm.trans otherRead
    cases walked.symm.trans otherWalked
    exact ⟨_, inside, List.mem_map.mpr ⟨mention, mentioned, rfl⟩⟩

/-- Every attribute of a table is walked. -/
theorem walked_of_tableSites (done : context.tableSites owner items = .ok sites) {position : Nat}
    {item : Attribute} (found : items[position]? = some item) :
    ∃ name mentions, context.pool.utf8 item.name = .ok name ∧
      Mention.ofAttribute context.pool context.name (isMethodOwner owner) name item.data = .ok mentions := by
  obtain ⟨lists, each, -⟩ := bind_eq_ok.mp done
  obtain ⟨list, -, step⟩ := mapM_of_mem each (List.mk_mem_zipIdx_iff_getElem?.mpr found)
  obtain ⟨name, mentions, read, walked, -⟩ := attributeSites_eq_ok.mp step
  exact ⟨name, mentions, read, walked⟩

theorem tableSites_pairwise (done : context.tableSites owner items = .ok sites) :
    sites.Pairwise fun first second => first.location.Apart second.location := by
  obtain ⟨lists, each, same⟩ := bind_eq_ok.mp done
  cases same
  refine List.pairwise_flatten.mpr ⟨fun list inside => ?_, ?_⟩
  · -- inside an attribute the indices do not overlap
    obtain ⟨⟨item, position⟩, -, step⟩ := mem_of_mapM each inside
    obtain ⟨name, mentions, -, walked, rfl⟩ := attributeSites_eq_ok.mp step
    rw [List.pairwise_map]
    refine (Mention.layout_of_ofAttribute walked).1.imp fun {first second} less => ?_
    exact Location.apart_inAttribute fun _ _ => .inl less
  · refine pairwise_of_mapM (pairwise_zipIdx items 0) each ?_
    rintro ⟨item, position⟩ - ⟨last, other⟩ - list otherList less step otherStep
    obtain ⟨name, mentions, -, -, rfl⟩ := attributeSites_eq_ok.mp step
    obtain ⟨otherName, others, -, -, rfl⟩ := attributeSites_eq_ok.mp otherStep
    rintro site member otherSite otherMember
    obtain ⟨mention, -, rfl⟩ := List.mem_map.mp member
    obtain ⟨otherMention, -, rfl⟩ := List.mem_map.mp otherMember
    exact Location.apart_inAttribute fun _ same => absurd same (Nat.ne_of_lt less)

/-- The attributes of the member at a position; there are none outside the list. -/
def attributesAt (members : List Member) (position : Nat) : List Attribute :=
  (members[position]?.map Member.attributes).getD []

/-- The table of every member is walked. -/
theorem exists_tableSites {owner : Nat → Owner} {members : List Member}
    (done : context.memberTableSites owner members = .ok sites) (position : Nat) :
    ∃ found, context.tableSites (owner position) (attributesAt members position) = .ok found := by
  unfold attributesAt
  cases member : members[position]? with
  | none => exact ⟨[], rfl⟩
  | some member' =>
    obtain ⟨lists, each, -⟩ := bind_eq_ok.mp done
    obtain ⟨list, -, step⟩ := mapM_of_mem each (List.mk_mem_zipIdx_iff_getElem?.mpr member)
    exact ⟨list, step⟩

/-- The sites of the tables of members are those of the table of each. -/
theorem mem_memberTableSites {owner : Nat → Owner} {members : List Member}
    (done : context.memberTableSites owner members = .ok sites) {site : Site} :
    site ∈ sites ↔ ∃ position found,
      context.tableSites (owner position) (attributesAt members position) = .ok found ∧ site ∈ found := by
  obtain ⟨lists, each, same⟩ := bind_eq_ok.mp done
  cases same
  rw [List.mem_flatten]
  constructor
  · rintro ⟨list, inside, member⟩
    obtain ⟨⟨owned, position⟩, found, step⟩ := mem_of_mapM each inside
    refine ⟨position, list, ?_, member⟩
    rw [attributesAt, List.mk_mem_zipIdx_iff_getElem?.mp found]
    exact step
  · rintro ⟨position, list, step, inside⟩
    unfold attributesAt at step
    cases found : members[position]? with
    | none =>
      rw [found] at step
      cases step
      cases inside
    | some member =>
      rw [found] at step
      obtain ⟨other, otherInside, again⟩ := mapM_of_mem each (List.mk_mem_zipIdx_iff_getElem?.mpr found)
      cases step.symm.trans again
      exact ⟨list, otherInside, inside⟩

theorem memberTableSites_pairwise {owner : Nat → Owner} (injective : Function.Injective owner)
    {members : List Member} (done : context.memberTableSites owner members = .ok sites) :
    sites.Pairwise fun first second => first.location.Apart second.location := by
  obtain ⟨lists, each, same⟩ := bind_eq_ok.mp done
  cases same
  refine List.pairwise_flatten.mpr ⟨fun list inside => ?_, ?_⟩
  · obtain ⟨⟨member, position⟩, -, step⟩ := mem_of_mapM each inside
    exact tableSites_pairwise step
  · refine pairwise_of_mapM (pairwise_zipIdx members 0) each ?_
    rintro ⟨member, position⟩ - ⟨last, other⟩ - list otherList less step otherStep
    rintro site inside otherSite otherInside
    obtain ⟨_, _, _, _, mention, -, -, -, -, rfl⟩ := (mem_tableSites step).mp inside
    obtain ⟨_, _, _, _, otherMention, -, -, -, -, rfl⟩ := (mem_tableSites otherStep).mp otherInside
    exact Location.apart_inAttribute fun same _ => absurd (injective same) (Nat.ne_of_lt less)

end Tables

/-! ### Operands -/

theorem operandSite?_eq_ok {position : Nat} {operand : Operand} {site? : Option Site} :
    context.operandSite? position operand = .ok site? ↔
      ∃ found, context.constantSite? operand.index = .ok found ∧
        site? = found.map fun site =>
          { site with location := .instruction position operand.pc operand.index } := by
  rw [operandSite?, bind_eq_ok]
  exact exists_congr fun found => and_congr_right fun _ => pure_eq_ok.trans eq_comm

/-- The sites of the operands of a method are those of its code, if it has any. -/
theorem codeSites_eq_ok {method : Member} {position : Nat} {sites : List Site} :
    context.codeSites method position = .ok sites ↔
      (Attribute.findCode? context.pool method.attributes = .ok none ∧ sites = []) ∨
      ∃ code operands found, Attribute.findCode? context.pool method.attributes = .ok (some code) ∧
        Code.operands code.code = .ok operands ∧
        operands.mapM (context.operandSite? position) = .ok found ∧ sites = found.filterMap id := by
  rw [codeSites, bind_eq_ok]
  constructor
  · rintro ⟨code?, read, done⟩
    cases code? with
    | none => exact .inl ⟨read, (pure_eq_ok.mp done).symm⟩
    | some code =>
      obtain ⟨operands, scanned, done⟩ := bind_eq_ok.mp done
      obtain ⟨found, each, done⟩ := bind_eq_ok.mp done
      exact .inr ⟨code, operands, found, read, scanned, each, (pure_eq_ok.mp done).symm⟩
  · rintro (⟨read, rfl⟩ | ⟨code, operands, found, read, scanned, each, rfl⟩)
    · exact ⟨none, read, rfl⟩
    · exact ⟨some code, read, bind_eq_ok.mpr ⟨operands, scanned, bind_eq_ok.mpr ⟨found, each, rfl⟩⟩⟩

theorem location_of_mem_codeSites {method : Member} {position : Nat} {sites : List Site}
    (done : context.codeSites method position = .ok sites) {site : Site} (member : site ∈ sites) :
    ∃ pc index, site.location = .instruction position pc index := by
  obtain ⟨-, rfl⟩ | ⟨code, operands, found, -, -, each, rfl⟩ := codeSites_eq_ok.mp done
  · cases member
  · obtain ⟨site?, inside, same⟩ := List.mem_filterMap.mp member
    obtain ⟨operand, -, step⟩ := mem_of_mapM each inside
    obtain ⟨read, -, rfl⟩ := operandSite?_eq_ok.mp step
    obtain ⟨old, -, rfl⟩ := Option.map_eq_some_iff.mp same
    exact ⟨operand.pc, operand.index, rfl⟩

theorem ofClass_eq_ok {file : ClassFile} :
    ofClass file = .ok context ↔ context.pool = file.pool ∧ file.name = .ok context.name ∧
      Attribute.findBootstraps? file.pool file.attributes = .ok context.bootstraps := by
  simp only [ofClass, bind_eq_ok, pure_eq_ok]
  constructor
  · rintro ⟨name, named, bootstraps, found, rfl⟩
    exact ⟨rfl, named, found⟩
  · rintro ⟨pool, named, found⟩
    refine ⟨_, named, _, found, ?_⟩
    rw [← pool]

end SiteContext

end JarRename
