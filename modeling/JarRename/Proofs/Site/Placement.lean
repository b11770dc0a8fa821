import JarRename.Proofs.Renaming.Frame

/-!
**Where sites stand and what stands there.**

No two sites of a class are in one place, operands apart: each constant and each declaration has one site at most, and
the indices that are sites in attributes do not share a byte. Such an index is one of the pool that stands for the name
of the site. An operand has no name of its own, but that of a constant, which has a site too.

* `Pool.Spells`, `Mention.spelled_of_ofAttribute`: the index at a mention;
* `Location.isConstant`, `ClassFile.Collected.exists_constant`: the constant that an operand names;
* `ClassFile.placed_of_sites`: all sites of a class.
-/

namespace JarRename

/-! ### Indices in attributes -/

/-- The index stands for the name of a symbol in an attribute: that of a method around a class is a name-and-type, all
others are texts. -/
def Pool.Spells (pool : Pool) (index : Index) : Symbol → Prop
  | .ofDescriptor text | .ofSignature text | .innerName _ text | .recordComponent _ text _ =>
    pool.utf8 index = .ok text
  | .enclosingMethod _ name descriptor => pool.nameAndType index = .ok (name, descriptor)
  | .ofClass _ | .ofField _ _ _ _ | .ofMethod _ _ _ _ | .callSite _ => False

/-- An index that stands for what a mention stores spells its symbol. -/
theorem Pool.spells_of_backed {pool : Pool} {owner : String} {pieces : List Piece} {index : Index} {symbol : Symbol}
    (backed : Piece.Backed pool owner pieces symbol) (names : pool.Names index symbol.stored) :
    pool.Spells index symbol := by
  cases symbol
  case ofClass | ofField | ofMethod | callSite => cases backed
  all_goals exact names

theorem Bytes.inside_of_peek {bytes : Bytes} {offset : Nat} {index : UInt16} (peeked : bytes.peek offset = .ok index) :
    offset + 2 ≤ bytes.length := by
  obtain ⟨_, _, -, second, -⟩ := peek_eq_ok.mp peeked
  obtain ⟨inside, -⟩ := List.getElem?_eq_some_iff.mp second
  exact inside

/-- **The mentions in an attribute** stand at two bytes of its contents, and the index there spells the symbol. -/
theorem Mention.spelled_of_ofAttribute {pool : Pool} {owner name : String} {inMethod : Bool} {data : Bytes}
    {found : List Mention} (done : ofAttribute pool owner inMethod name data = .ok found) {mention : Mention}
    (member : mention ∈ found) :
    mention.offset + 2 ≤ data.length ∧ ∃ index, data.peek mention.offset = .ok index ∧
      pool.Spells index mention.symbol := by
  obtain ⟨pieces, rest, rfl, rfl, sound, -⟩ := (account_self pool owner).ofAttribute_again done
  obtain ⟨index, peeked, names⟩ := sound.peek rest member
  obtain ⟨front, other, back, split, -⟩ := Piece.exists_of_mem_mentions member
  obtain ⟨-, backed⟩ := sound other mention.symbol (split ▸ List.mem_append_right _ List.mem_cons_self)
  exact ⟨Bytes.inside_of_peek peeked, index, peeked, Pool.spells_of_backed backed names⟩

/-! ### Constants -/

namespace Location

/-- Whether a location is a constant. -/
def isConstant : Location → Bool
  | classConstant _ | memberConstant _ | methodTypeConstant _ | dynamicConstant _ => true
  | _ => false

theorem isConstant_of_part {location : Location} (first : location.part = 0) : location.isConstant = true := by
  cases location with
  | classConstant | memberConstant | methodTypeConstant | dynamicConstant => rfl
  | inAttribute owner => cases owner <;> cases first
  | fieldDeclaration | methodDeclaration | instruction => cases first

/-- Every location that is no operand is stored somewhere. -/
theorem exists_covers {location : Location} (stored : location.isInstruction = false) :
    ∃ cell, location.Covers cell := by
  cases location with
  | classConstant index | memberConstant index | methodTypeConstant index | dynamicConstant index =>
    exact ⟨.constant index, rfl⟩
  | fieldDeclaration position => exact ⟨.field position, rfl⟩
  | methodDeclaration position => exact ⟨.method position, rfl⟩
  | inAttribute owner position offset =>
    exact ⟨.byte owner position offset, rfl, rfl, Nat.le_refl _, Nat.lt_add_of_pos_right Nat.two_pos⟩
  | instruction => cases stored

/-- Locations that have no cell in common differ. -/
theorem Apart.ne {first second : Location} (apart : first.Apart second) (stored : first.isInstruction = false) :
    first ≠ second := by
  rintro rfl
  obtain ⟨cell, covers⟩ := exists_covers stored
  exact apart cell covers covers

/-- Indices in one attribute that have no cell in common do not overlap. -/
theorem Apart.disjoint {owner : Owner} {position offset other : Nat}
    (apart : (inAttribute owner position offset).Apart (inAttribute owner position other)) :
    offset + 2 ≤ other ∨ other + 2 ≤ offset := by
  by_contra overlap
  -- the later of the two offsets would be covered by both
  have cell := apart (.byte owner position (max offset other))
  simp only [Covers, true_and] at cell
  omega

end Location

namespace ClassFile

namespace Collected

variable {file : ClassFile} {context : SiteContext} {parts : SiteParts} {index : Index} {site : Site}

/-- **What an index names is named by a constant.** That is the constant with the index, or the member that it points at
if it is a method handle. -/
theorem exists_constant (collected : file.Collected context parts) (small : file.pool.size ≤ Pool.maxSlots)
    (named : context.constantSite? index = .ok (some site)) :
    ∃ constant ∈ parts.constants, constant.symbol = site.symbol := by
  rw [← collected.pool] at small
  have listed := fun site => @SiteContext.mem_constantSites _ small _ collected.constants site
  obtain ⟨constant, found, step⟩ := bind_eq_ok.mp named
  by_cases handle : constant.kind = .methodHandle
  · cases constant with
    | methodHandle kind target =>
      obtain ⟨symbol, read, same⟩ := bind_eq_ok.mp step
      cases same
      obtain ⟨member, memberRead, rfl⟩ := SiteContext.memberSymbol_eq_ok.mp read
      obtain ⟨owner, pair, slot, -, -⟩ := Pool.memberRef_eq_ok.mp memberRead
      have target : context.pool.get target = .ok (member.kind.constant owner pair) :=
        Pool.get_eq_ok.mpr ⟨slot, by cases member.kind <;> nofun⟩
      refine ⟨_, (listed _).mpr ⟨_, _, target, ?_, SiteContext.constantSite?_member memberRead⟩, rfl⟩
      cases member.kind <;> nofun
    | _ => cases handle
  · exact ⟨site, (listed site).mpr ⟨index, constant, found, handle, named⟩, rfl⟩

/-- **An operand has the symbol of a constant.** -/
theorem constant_of_operand (collected : file.Collected context parts) (small : file.pool.size ≤ Pool.maxSlots)
    (member : site ∈ parts.instructions) : ∃ constant ∈ parts.constants, constant.symbol = site.symbol := by
  obtain ⟨lists, each, same⟩ := bind_eq_ok.mp collected.instructions
  rw [pure_eq_ok] at same
  rw [← same, List.mem_flatten] at member
  obtain ⟨list, inside, member⟩ := member
  obtain ⟨⟨method, position⟩, -, step⟩ := mem_of_mapM each inside
  obtain ⟨-, rfl⟩ | ⟨code, operands, found, -, -, scanned, rfl⟩ := SiteContext.codeSites_eq_ok.mp step
  · cases member
  · obtain ⟨site?, listed, same⟩ := List.mem_filterMap.mp member
    obtain ⟨operand, -, step⟩ := mem_of_mapM scanned listed
    obtain ⟨named?, named, rfl⟩ := SiteContext.operandSite?_eq_ok.mp step
    obtain ⟨old, rfl, rfl⟩ := Option.map_eq_some_iff.mp same
    obtain ⟨constant, inside, same⟩ := collected.exists_constant small named
    exact ⟨constant, inside, same⟩

/-- A site that is an operand is among those of the code. -/
theorem mem_instructions (collected : file.Collected context parts) (small : file.pool.size ≤ Pool.maxSlots)
    (member : site ∈ parts.all) (operand : site.location.isInstruction = true) : site ∈ parts.instructions := by
  have last : site.location.part = 6 := by
    cases location : site.location <;> rw [location] at operand <;> first | rfl | cases operand
  obtain inside | inside | inside | ⟨owner, found, done, inside⟩ | inside := collected.mem_cases member
  · cases (collected.part_constants small inside).symm.trans last
  · cases (collected.part_fields inside).symm.trans last
  · cases (collected.part_methods inside).symm.trans last
  · obtain ⟨_, _, _, _, mention, -, -, -, -, rfl⟩ := (SiteContext.mem_tableSites done).mp inside
    cases operand
  · exact inside

end Collected

/-- **Sites point at what they say and never overlap.** All locations of sites that are no operands differ. A site in an
attribute stands at two bytes of its contents, which are the index of its name, and shares no byte with another site.
Every operand has the symbol of a constant that is a site. -/
theorem placed_of_sites {bytes : Bytes} {file : ClassFile} {sites : List Site} (parsed : parse bytes = .ok file)
    (done : file.sites = .ok sites) :
    ((sites.filter fun site => !site.location.isInstruction).map Site.location).Nodup ∧
    (∀ site ∈ sites, ∀ owner position offset, site.location = .inAttribute owner position offset →
      ∃ item index, (file.attributesOf owner)[position]? = some item ∧ offset + 2 ≤ item.data.length ∧
        item.data.peek offset = .ok index ∧ file.pool.Spells index site.symbol) ∧
    (sites.Pairwise fun first second => ∀ owner position offset other,
      first.location = .inAttribute owner position offset → second.location = .inAttribute owner position other →
      offset + 2 ≤ other ∨ other + 2 ≤ offset) ∧
    ∀ site ∈ sites, site.location.isInstruction = true →
      ∃ constant ∈ sites, constant.location.isConstant = true ∧ constant.symbol = site.symbol := by
  have small := small_of_parse parsed
  obtain ⟨context, parts, collected, rfl⟩ := sites_eq_ok.mp done
  have apart := collected.pairwise_apart small
  refine ⟨?_, ?_, ?_, ?_⟩
  · rw [List.Nodup, List.pairwise_map]
    refine (apart.filter _).imp_of_mem fun {first second} inside _ apart => apart.ne ?_
    simpa using (List.mem_filter.mp inside).2
  · intro site member owner position offset location
    obtain ⟨item, name, mentions, mention, found, -, walked, mentioned, rfl, same⟩ :=
      collected.mention_of_mem small member location
    obtain ⟨inside, index, peeked, spells⟩ := Mention.spelled_of_ofAttribute walked mentioned
    exact ⟨item, index, found, inside, peeked, same ▸ spells⟩
  · refine apart.imp fun {first second} apart owner position offset other one two => ?_
    rw [one, two] at apart
    exact apart.disjoint
  · intro site member operand
    obtain ⟨constant, inside, same⟩ :=
      collected.constant_of_operand small (collected.mem_instructions small member operand)
    refine ⟨constant, ?_, Location.isConstant_of_part (collected.part_constants small inside), same⟩
    simp [SiteParts.all, inside]

/-- The sites of the sample: its class, its members, a signature, a local variable and an operand. -/
def sampleSites : List Site :=
  [{ location := .classConstant 2, symbol := .ofClass "A" },
    { location := .fieldDeclaration 0, symbol := .ofField "A" "f" "LA;" (some 2) },
    { location := .methodDeclaration 0, symbol := .ofMethod "A" "m" "()V" (some 9) },
    { location := .inAttribute (.ofField 0) 0 0, symbol := .ofSignature "LA;" },
    { location := .inAttribute (.ofMethod 0) 0 34, symbol := .ofDescriptor "LA;" },
    { location := .instruction 0 0 2, symbol := .ofClass "A" }]

/-- The descriptor of the local variable stands inside the code of its method, and the operand has a constant. -/
theorem placed_of_sites_sample : parse sampleBytes = .ok sample ∧ sample.sites = .ok sampleSites ∧
    (∃ item index, (sample.attributesOf (.ofMethod 0))[0]? = some item ∧ 34 + 2 ≤ item.data.length ∧
      item.data.peek 34 = .ok index ∧ sample.pool.utf8 index = .ok "LA;") ∧
    ∃ constant ∈ sampleSites, constant.location.isConstant = true ∧ constant.symbol = .ofClass "A" := by
  have parsed : parse sampleBytes = .ok sample := by decide +kernel
  have done : sample.sites = .ok sampleSites := by decide +kernel
  obtain ⟨-, inAttributes, -, operands⟩ := placed_of_sites parsed done
  refine ⟨parsed, done, ?_, ?_⟩
  · exact inAttributes ⟨.inAttribute (.ofMethod 0) 0 34, .ofDescriptor "LA;"⟩ (by decide) _ _ _ rfl
  · exact operands ⟨.instruction 0 0 2, .ofClass "A"⟩ (by decide) rfl

end ClassFile

end JarRename
