import JarRename.Proofs.Site.Walk

/-!
**The names in attributes, walked twice.**

The walk over an attribute decides where to go by bytes that no renaming changes: counts, lengths, tags,
the names of nested attributes and whether an optional index is there. So it goes the same way again over
the contents of the renamed class, and finds the new names at the offsets of the old ones.

* `Mention.Account`: what the second walk can rely on;
* `Mention.ofAttributeAt_retraces`: the walk over an attribute, by cases over its parts;
* `Mention.ofAttribute_again`: the mentions in an attribute, before and after;
* `Mention.inside_of_ofAttributeAt`, `Mention.layout_of_ofAttribute`: where mentions stand.
-/

namespace JarRename

namespace Mention

/-- What a second walk can rely on. It uses another pool and another name of the class, and `alike` relates a
symbol of the first walk to the index that stands in its place and the symbol of the second walk. -/
structure Account (pool other : Pool) (owner otherOwner : String)
    (alike : Symbol → Index → Symbol → Prop) : Prop where
  text : ∀ index found, pool.utf8 index = .ok found → other.utf8 index = .ok found
  descriptor : ∀ old index new, alike (.ofDescriptor old) index new →
    ∃ found, other.utf8 index = .ok found ∧ new = .ofDescriptor found ∧ (found = "V" → old = "V")
  signature : ∀ old index new, alike (.ofSignature old) index new →
    ∃ found, other.utf8 index = .ok found ∧ new = .ofSignature found
  innerName : ∀ inner className old index new, pool.className inner = .ok className →
    alike (.innerName className old) index new →
    ∃ newClass found, other.className inner = .ok newClass ∧ other.utf8 index = .ok found ∧
      new = .innerName newClass found
  enclosingMethod : ∀ around className name descriptor index new, pool.className around = .ok className →
    alike (.enclosingMethod className name descriptor) index new →
    ∃ newClass newName newDescriptor, other.className around = .ok newClass ∧
      other.nameAndType index = .ok (newName, newDescriptor) ∧
      new = .enclosingMethod newClass newName newDescriptor
  component : ∀ name descriptor index new second newSecond,
    alike (.recordComponent owner name descriptor) index new →
    alike (.ofDescriptor descriptor) second newSecond →
    ∃ newName newDescriptor, other.utf8 index = .ok newName ∧ other.utf8 second = .ok newDescriptor ∧
      new = .recordComponent otherOwner newName newDescriptor ∧ newSecond = .ofDescriptor newDescriptor

variable {pool other : Pool} {owner otherOwner : String} {alike : Symbol → Index → Symbol → Prop}

/-! ### Texts -/

theorem text_eq_ok {offset place : Nat} {window : Bytes} {found : String} {final : Cursor} :
    text pool ⟨offset, window⟩ = .ok ((place, found), final) ↔
      place = offset ∧ ∃ index rest, window = Bytes.bytes16 index ++ rest ∧
        pool.utf8 index = .ok found ∧ final = ⟨offset + 2, rest⟩ := by
  constructor
  · intro done
    obtain ⟨_, _, step, done⟩ := run_bind_eq_ok.mp done
    cases step
    obtain ⟨index, _, step, done⟩ := run_bind_eq_ok.mp done
    obtain ⟨rest, rfl, rfl⟩ := Walk.u16_eq_ok.mp step
    obtain ⟨text, _, step, done⟩ := run_bind_eq_ok.mp done
    obtain ⟨read, rfl⟩ := Walk.check_eq_ok.mp step
    cases done
    exact ⟨rfl, index, rest, rfl, read, rfl⟩
  · rintro ⟨rfl, index, rest, rfl, read, rfl⟩
    refine run_bind_eq_ok.mpr ⟨place, _, rfl, ?_⟩
    refine run_bind_eq_ok.mpr ⟨index, _, Walk.u16_eq_ok.mpr ⟨rest, rfl, rfl⟩, ?_⟩
    exact run_bind_eq_ok.mpr ⟨found, _, Walk.check_eq_ok.mpr ⟨read, rfl⟩, rfl⟩

/-- A text that is mentioned as a symbol. -/
theorem text_retraces {symbol : String → Symbol} (stored : ∀ found, (symbol found).stored = .text found)
    (backed : ∀ found pieces, Piece.Backed pool owner pieces (symbol found))
    (again : ∀ old index new, alike (symbol old) index new →
      ∃ found, other.utf8 index = .ok found ∧ new = symbol found) :
    Walk.Retraces pool owner alike
      (do let (offset, found) ← text pool; return [{ offset, symbol := symbol found }])
      (do let (offset, found) ← text other; return [{ offset, symbol := symbol found }]) := by
  intro offset window found final done
  obtain ⟨⟨place, value⟩, between, step, done⟩ := run_bind_eq_ok.mp done
  obtain ⟨rfl, rfl⟩ := run_pure_eq_ok.mp done
  obtain ⟨rfl, index, rest, rfl, read, rfl⟩ := text_eq_ok.mp step
  refine ⟨[.named index (symbol value)], rest, rfl, rfl, rfl, ?_, ?_⟩
  · intro index symbol member
    cases List.mem_singleton.mp member
    rw [stored]
    exact ⟨read, backed _ _⟩
  · intro others left same
    obtain ⟨otherIndex, new, rfl, related⟩ := Piece.alike_named same
    obtain ⟨newText, newRead, rfl⟩ := again _ _ _ related
    exact run_bind_eq_ok.mpr ⟨(place, newText), _, text_eq_ok.mpr ⟨rfl, otherIndex, left, rfl, newRead, rfl⟩, rfl⟩

namespace Account

variable (account : Account pool other owner otherOwner alike)
include account

theorem descriptor_retraces :
    Walk.Retraces pool owner alike (Mention.descriptor pool) (Mention.descriptor other) := by
  refine text_retraces (fun _ => rfl) (fun _ _ => trivial) fun old index new related => ?_
  obtain ⟨found, read, rfl, -⟩ := account.descriptor old index new related
  exact ⟨found, read, rfl⟩

theorem signature_retraces :
    Walk.Retraces pool owner alike (Mention.signature pool) (Mention.signature other) :=
  text_retraces (fun _ => rfl) (fun _ _ => trivial) account.signature

/-! ### Annotations -/

/-- The descriptor of `void` is no mention, neither the first time nor the second. -/
theorem classElement_retraces :
    Walk.Retraces pool owner alike (classElement pool) (classElement other) := by
  intro offset window found final done
  obtain ⟨⟨place, value⟩, between, step, done⟩ := run_bind_eq_ok.mp done
  obtain ⟨rfl, index, rest, rfl, read, rfl⟩ := text_eq_ok.mp step
  dsimp only at done
  by_cases void : value = "V"
  · rw [if_pos void] at done
    obtain ⟨rfl, rfl⟩ := run_pure_eq_ok.mp done
    refine ⟨[.plain (Bytes.bytes16 index)], rest, rfl, rfl, rfl, .plain _, fun others left same => ?_⟩
    obtain rfl := Piece.alike_plain same
    refine run_bind_eq_ok.mpr ⟨(place, value), _, text_eq_ok.mpr
      ⟨rfl, index, left, rfl, account.text _ _ read, rfl⟩, ?_⟩
    dsimp only
    rw [if_pos void]
    rfl
  · rw [if_neg void] at done
    obtain ⟨rfl, rfl⟩ := run_pure_eq_ok.mp done
    refine ⟨[.named index (.ofDescriptor value)], rest, rfl, rfl, rfl, ?_, fun others left same => ?_⟩
    · intro index symbol member
      cases List.mem_singleton.mp member
      exact ⟨read, trivial⟩
    · obtain ⟨otherIndex, new, rfl, related⟩ := Piece.alike_named same
      obtain ⟨newText, newRead, rfl, voids⟩ := account.descriptor _ _ _ related
      refine run_bind_eq_ok.mpr ⟨(place, newText), _, text_eq_ok.mpr
        ⟨rfl, otherIndex, left, rfl, newRead, rfl⟩, ?_⟩
      dsimp only
      rw [if_neg fun isVoid => void (voids isVoid)]
      rfl

theorem marker_retraces {value otherValue : Walk (List Mention)}
    (retraces : Walk.Retraces pool owner alike value otherValue) :
    Walk.Retraces pool owner alike (marker pool value) (marker other otherValue) :=
  account.descriptor_retraces.append (.table (.after (.skip 2) fun _ => retraces))

theorem elementAt_retraces (depth : Nat) :
    Walk.Retraces pool owner alike (elementAt pool depth) (elementAt other depth) := by
  induction depth with
  | zero => exact .truncated
  | succ depth ih =>
    refine .after .u8 fun tag => ?_
    refine .ite (fun _ => .after (.skip 2) fun _ => .nothing) fun _ => ?_
    refine .ite (fun _ => account.descriptor_retraces.before (.skip 2)) fun _ => ?_
    refine .ite (fun _ => account.classElement_retraces) fun _ => ?_
    refine .ite (fun _ => account.marker_retraces ih) fun _ => ?_
    exact .ite (fun _ => ih.table) fun _ => .fail _

omit account in
theorem target_agrees : Walk.Agrees target target := by
  refine .bind .u8 fun kind => ?_
  cases targetSize? kind with
  | none => exact .fail _
  | some size =>
    cases size with
    | inl size => exact .skip size
    | inr size => exact .bind .u16 fun count => .skip _

theorem typeMarker_retraces {value otherValue : Walk (List Mention)}
    (retraces : Walk.Retraces pool owner alike value otherValue) :
    Walk.Retraces pool owner alike (typeMarker pool value) (typeMarker other otherValue) :=
  .after target_agrees fun _ => .after .u8 fun _ => .after (.skip _) fun _ =>
    account.marker_retraces retraces

/-! ### Tables of a class, a record and a method -/

omit account in
/-- An index that is zero where there is no name. What is read from it is a mention at its offset. -/
theorem optional_retraces {last : Walk Unit} (agrees : Walk.Agrees last last)
    {read otherRead : Nat → Index → Walk (List Mention)}
    (again : ∀ offset index cursor found final, read offset index cursor = .ok (found, final) →
      ∃ symbol, found = [⟨offset, symbol⟩] ∧ final = cursor ∧ pool.Names index symbol.stored ∧
        (∀ pieces, Piece.Backed pool owner pieces symbol) ∧
        ∀ otherIndex new, alike symbol otherIndex new → otherIndex ≠ 0 ∧
          ∀ otherCursor, otherRead offset otherIndex otherCursor = .ok ([⟨offset, new⟩], otherCursor)) :
    Walk.Retraces pool owner alike
      (do
        let offset ← Walk.position
        let index ← Walk.u16
        last
        if index = 0 then return [] else read offset index)
      (do
        let offset ← Walk.position
        let index ← Walk.u16
        last
        if index = 0 then return [] else otherRead offset index) := by
  intro offset window found final done
  obtain ⟨_, _, step, done⟩ := run_bind_eq_ok.mp done
  cases step
  obtain ⟨index, _, step, done⟩ := run_bind_eq_ok.mp done
  obtain ⟨rest, rfl, rfl⟩ := Walk.u16_eq_ok.mp step
  obtain ⟨⟨⟩, _, step, done⟩ := run_bind_eq_ok.mp done
  obtain ⟨taken, rest, rfl, rfl, lastAgain⟩ := agrees _ _ _ _ step
  -- both walks take the index and what follows it, and then look whether the index is zero
  have taking (walk : Nat → Index → Walk (List Mention)) (otherIndex : Index) (left : Bytes) :
      (do
        let offset ← Walk.position
        let index ← Walk.u16
        last
        if index = 0 then return [] else walk offset index) ⟨offset, Bytes.bytes16 otherIndex ++ (taken ++ left)⟩ =
      (if otherIndex = 0 then return [] else walk offset otherIndex : Walk (List Mention))
        ⟨offset + 2 + taken.length, left⟩ := by
    have first : Walk.position ⟨offset, Bytes.bytes16 otherIndex ++ (taken ++ left)⟩ =
        .ok (offset, ⟨offset, Bytes.bytes16 otherIndex ++ (taken ++ left)⟩) := rfl
    rw [run_bind_of_ok first, run_bind_of_ok (Walk.u16_eq_ok.mpr ⟨_, rfl, rfl⟩),
      run_bind_of_ok (lastAgain left)]
  by_cases zero : index = 0
  · rw [if_pos zero] at done
    obtain ⟨rfl, rfl⟩ := run_pure_eq_ok.mp done
    refine ⟨[.plain (Bytes.bytes16 index ++ taken)], rest, ?_, ?_, rfl, .plain _, fun others left same => ?_⟩
    · simp [Piece.bytes]
    · simp [Piece.bytes, Nat.add_assoc]
    · obtain rfl := Piece.alike_plain same
      have bytes : Piece.bytesOf [.plain (Bytes.bytes16 index ++ taken)] ++ left =
          Bytes.bytes16 index ++ (taken ++ left) := by
        simp [Piece.bytes]
      rw [bytes, taking otherRead index left, if_pos zero]
      refine run_pure_eq_ok.mpr ⟨rfl, ?_⟩
      simp [Piece.bytes, Nat.add_assoc]
  · rw [if_neg zero] at done
    obtain ⟨symbol, rfl, rfl, names, backed, named⟩ := again _ _ _ _ _ done
    refine ⟨[.named index symbol] ++ [.plain taken], rest, ?_, ?_, rfl, ?_, fun others left whole => ?_⟩
    · simp [Piece.bytes]
    · simp [Piece.bytes, Nat.add_assoc]
    · refine Piece.Sound.append (fun other symbol member => ?_) (.plain taken)
      cases List.mem_singleton.mp member
      exact ⟨names, backed _⟩
    · obtain ⟨one, two, rfl, head, plain⟩ := Piece.alike_append whole
      obtain ⟨otherIndex, new, rfl, related⟩ := Piece.alike_named head
      obtain rfl := Piece.alike_plain plain
      obtain ⟨nonzero, reads⟩ := named otherIndex new related
      have bytes : Piece.bytesOf ([.named otherIndex new] ++ [.plain taken]) ++ left =
          Bytes.bytes16 otherIndex ++ (taken ++ left) := by
        simp [Piece.bytes]
      rw [bytes, taking otherRead otherIndex left, if_neg nonzero, reads]
      simp [Piece.bytes, Piece.mentions, Nat.add_assoc]

/-- The index of the nested class stays; that of its simple name is a mention, if it is there. -/
theorem nestedClass_retraces :
    Walk.Retraces pool owner alike (nestedClass pool) (nestedClass other) := by
  refine .after .u16 fun inner => .after (.skip 2) fun _ => optional_retraces (.skip 2) ?_
  intro offset index cursor found final done
  obtain ⟨className, _, step, done⟩ := run_bind_eq_ok.mp done
  obtain ⟨classRead, rfl⟩ := Walk.check_eq_ok.mp step
  obtain ⟨name, _, step, done⟩ := run_bind_eq_ok.mp done
  obtain ⟨nameRead, rfl⟩ := Walk.check_eq_ok.mp step
  obtain ⟨rfl, rfl⟩ := run_pure_eq_ok.mp done
  refine ⟨.innerName className name, rfl, rfl, nameRead, fun _ => ⟨inner, classRead⟩,
    fun otherIndex new related => ?_⟩
  obtain ⟨newClass, newName, newClassRead, newNameRead, rfl⟩ :=
    account.innerName _ _ _ _ _ classRead related
  refine ⟨(Pool.has_of_utf8 newNameRead).ne_zero, fun otherCursor => ?_⟩
  refine run_bind_eq_ok.mpr ⟨newClass, _, Walk.check_eq_ok.mpr ⟨newClassRead, rfl⟩, ?_⟩
  exact run_bind_eq_ok.mpr ⟨newName, _, Walk.check_eq_ok.mpr ⟨newNameRead, rfl⟩, rfl⟩

/-- The index of the class around stays; that of the method is a mention, if it is there. -/
theorem enclosing_retraces :
    Walk.Retraces pool owner alike (enclosing pool) (enclosing other) := by
  refine .after .u16 fun around => optional_retraces (.pure ()) ?_
  intro offset index cursor found final done
  obtain ⟨⟨name, descriptor⟩, _, step, done⟩ := run_bind_eq_ok.mp done
  obtain ⟨pairRead, rfl⟩ := Walk.check_eq_ok.mp step
  obtain ⟨className, _, step, done⟩ := run_bind_eq_ok.mp done
  obtain ⟨classRead, rfl⟩ := Walk.check_eq_ok.mp step
  obtain ⟨rfl, rfl⟩ := run_pure_eq_ok.mp done
  refine ⟨.enclosingMethod className name descriptor, rfl, rfl, pairRead, fun _ => ⟨around, classRead⟩,
    fun otherIndex new related => ?_⟩
  obtain ⟨newClass, newName, newDescriptor, newClassRead, newPairRead, rfl⟩ :=
    account.enclosingMethod _ _ _ _ _ _ classRead related
  refine ⟨(Pool.has_of_nameAndType newPairRead).ne_zero, fun otherCursor => ?_⟩
  refine run_bind_eq_ok.mpr ⟨(newName, newDescriptor), _, Walk.check_eq_ok.mpr ⟨newPairRead, rfl⟩, ?_⟩
  exact run_bind_eq_ok.mpr ⟨newClass, _, Walk.check_eq_ok.mpr ⟨newClassRead, rfl⟩, rfl⟩

omit account in
theorem localVariable_retraces {type otherType : Walk (List Mention)}
    (retraces : Walk.Retraces pool owner alike type otherType) :
    Walk.Retraces pool owner alike (localVariable type) (localVariable otherType) :=
  .after (.skip 6) fun _ => retraces.before (.skip 2)

/-- The descriptor of a component is mentioned twice, once with its name. -/
theorem component_retraces :
    Walk.Retraces pool owner alike (Mention.component pool owner) (Mention.component other otherOwner) := by
  intro offset window found final done
  obtain ⟨⟨place, name⟩, _, step, done⟩ := run_bind_eq_ok.mp done
  obtain ⟨rfl, index, rest, rfl, read, rfl⟩ := text_eq_ok.mp step
  obtain ⟨⟨second, descriptor⟩, _, step, done⟩ := run_bind_eq_ok.mp done
  obtain ⟨rfl, secondIndex, rest, rfl, secondRead, rfl⟩ := text_eq_ok.mp step
  obtain ⟨rfl, rfl⟩ := run_pure_eq_ok.mp done
  refine ⟨[.named index (.recordComponent owner name descriptor)] ++
    [.named secondIndex (.ofDescriptor descriptor)], rest, rfl, rfl, rfl, ?_, ?_⟩
  · intro index symbol member
    obtain member | member := List.mem_append.mp member
    · cases List.mem_singleton.mp member
      exact ⟨read, rfl, secondIndex, List.mem_cons_of_mem _ List.mem_cons_self⟩
    · cases List.mem_singleton.mp member
      exact ⟨secondRead, trivial⟩
  · intro others left whole
    obtain ⟨one, two, rfl, first, last⟩ := Piece.alike_append whole
    obtain ⟨otherIndex, new, rfl, related⟩ := Piece.alike_named first
    obtain ⟨otherSecond, newSecond, rfl, relatedSecond⟩ := Piece.alike_named last
    obtain ⟨newName, newDescriptor, newRead, newSecondRead, rfl, rfl⟩ :=
      account.component _ _ _ _ _ _ related relatedSecond
    refine run_bind_eq_ok.mpr ⟨(place, newName), _, text_eq_ok.mpr
      ⟨rfl, otherIndex, Bytes.bytes16 otherSecond ++ left, rfl, newRead, rfl⟩, ?_⟩
    exact run_bind_eq_ok.mpr ⟨(place + 2, newDescriptor), _, text_eq_ok.mpr
      ⟨rfl, otherSecond, left, rfl, newSecondRead, rfl⟩, rfl⟩

/-! ### Nested attributes -/

/-- The name and the length of a nested attribute stay, and its contents are walked again. -/
theorem ofNestedOne_retraces {walk otherWalk : String → Walk (List Mention)}
    (retraces : ∀ name, Walk.Retraces pool owner alike (walk name) (otherWalk name)) :
    Walk.Retraces pool owner alike
      (ofNestedOne pool fun name cursor => do let (found, _) ← walk name cursor; return found)
      (ofNestedOne other fun name cursor => do let (found, _) ← otherWalk name cursor; return found) :=
  .after .u16 fun index => .after (.check fun _ => account.text index _) fun name =>
    .after .u32 fun length => (retraces name).nested length

omit account in
theorem flatten_ofNested (pool : Pool) (visit : String → Cursor → Except Fault (List Mention)) :
    (do return (← ofNested pool visit).flatten) = Walk.table (ofNestedOne pool visit) := by
  rw [ofNested, Walk.table, bind_assoc]
  rfl

omit account in
theorem beforeNested_agrees : Walk.Agrees beforeNested beforeNested :=
  .bind (.skip 4) fun _ => .bind .u32 fun _ => .bind (.skip _) fun _ => .bind .u16 fun _ => .skip _

/-- **The walk over an attribute is retraced**, through its nested attributes too. -/
theorem ofAttributeAt_retraces (inMethod : Bool) (depth : Nat) (name : String) :
    Walk.Retraces pool owner alike (ofAttributeAt pool owner inMethod depth name)
      (ofAttributeAt other otherOwner inMethod depth name) := by
  induction depth generalizing name with
  | zero => exact .truncated
  | succ depth ih =>
    have element := account.elementAt_retraces (depth + 1)
    have markers := account.marker_retraces element
    have nested := (account.ofNestedOne_retraces ih).table
    rw [← flatten_ofNested, ← flatten_ofNested] at nested
    refine .ite (fun _ => account.signature_retraces) fun _ => ?_
    refine .ite (fun _ => account.nestedClass_retraces.table) fun _ => ?_
    refine .ite (fun _ => account.enclosing_retraces) fun _ => ?_
    refine .ite (fun _ => (localVariable_retraces account.descriptor_retraces).table) fun _ => ?_
    refine .ite (fun _ => (localVariable_retraces account.signature_retraces).table) fun _ => ?_
    refine .ite (fun _ => markers.table) fun _ => ?_
    refine .ite (fun _ => .after .u8 fun _ => markers.table.concat _) fun _ => ?_
    refine .ite (fun _ => (account.typeMarker_retraces element).table) fun _ => ?_
    refine .ite (fun _ => element) fun _ => ?_
    refine .ite (fun _ => .table ?_) fun _ => ?_
    · have both := account.component_retraces.append nested
      simp only [bind_assoc, pure_bind] at both
      exact both
    exact .ite (fun _ => .after beforeNested_agrees fun _ => nested) fun _ => .nothing

/-! ### Whole attributes -/

/-- **The mentions in an attribute, found twice.** They stand at indices of the contents, and the second walk
over contents in which only these differ finds what stands there then. -/
theorem ofAttribute_again {inMethod : Bool} {name : String} {data : Bytes} {found : List Mention}
    (done : ofAttribute pool owner inMethod name data = .ok found) :
    ∃ pieces rest, data = Piece.bytesOf pieces ++ rest ∧ found = Piece.mentions 0 pieces ∧
      Piece.Sound pool owner pieces ∧ ∀ others, List.Forall₂ (Piece.Alike alike) pieces others →
        ofAttribute other otherOwner inMethod name (Piece.bytesOf others ++ rest) =
          .ok (Piece.mentions 0 others) := by
  obtain ⟨⟨mentions, final⟩, walked, same⟩ := bind_eq_ok.mp done
  cases same
  obtain ⟨pieces, rest, rfl, rfl, rfl, sound, again⟩ :=
    account.ofAttributeAt_retraces inMethod _ name _ _ _ _ walked
  refine ⟨pieces, rest, rfl, rfl, sound, fun others alike => ?_⟩
  have size : (Piece.bytesOf others ++ rest).length = (Piece.bytesOf pieces ++ rest).length := by
    rw [List.length_append, List.length_append, Piece.length_bytesOf_of_alike alike]
  rw [ofAttribute, size]
  exact bind_eq_ok.mpr ⟨_, again others rest alike, rfl⟩

end Account

/-- The bootstrap methods of a class mention nothing. -/
theorem ofAttribute_bootstrapMethods {inMethod : Bool} {data : Bytes} {found : List Mention}
    (done : ofAttribute pool owner inMethod "BootstrapMethods" data = .ok found) : found = [] := by
  obtain ⟨⟨mentions, final⟩, walked, same⟩ := bind_eq_ok.mp done
  cases same
  rw [ofAttributeAt] at walked
  simp only [String.reduceEq, ↓reduceIte, decide_false, Bool.or_self, Bool.false_eq_true, Bool.false_and] at walked
  exact (run_pure_eq_ok.mp walked).1.symm

/-! ### The same class -/

/-- The walk over the same contents, where each index stands for its symbol. -/
theorem account_self (pool : Pool) (owner : String) :
    Account pool pool owner owner fun symbol index new => pool.Names index symbol.stored ∧ new = symbol where
  text := fun _ _ => id
  descriptor := by
    rintro old index new ⟨names, rfl⟩
    exact ⟨old, names, rfl, id⟩
  signature := by
    rintro old index new ⟨names, rfl⟩
    exact ⟨old, names, rfl⟩
  innerName := by
    rintro inner className old index new classRead ⟨names, rfl⟩
    exact ⟨className, old, classRead, names, rfl⟩
  enclosingMethod := by
    rintro around className name descriptor index new classRead ⟨names, rfl⟩
    exact ⟨className, name, descriptor, classRead, names, rfl⟩
  component := by
    rintro name descriptor index new second newSecond ⟨names, rfl⟩ ⟨secondNames, rfl⟩
    exact ⟨name, descriptor, names, secondNames, rfl, rfl⟩

/-- The mentions of a walk stand inside its window. -/
theorem inside_of_ofAttributeAt {inMethod : Bool} {depth offset : Nat} {name : String} {window : Bytes}
    {found : List Mention} {final : Cursor}
    (done : ofAttributeAt pool owner inMethod depth name ⟨offset, window⟩ = .ok (found, final))
    {mention : Mention} (member : mention ∈ found) :
    offset ≤ mention.offset ∧ mention.offset + 2 ≤ offset + window.length := by
  obtain ⟨pieces, rest, rfl, -, rfl, -⟩ :=
    (account_self pool owner).ofAttributeAt_retraces inMethod depth name _ _ _ _ done
  have inside := Piece.inside_of_mem_mentions member
  rw [List.length_append]
  omega

/-- The mentions in an attribute stand at indices of its contents that do not overlap. -/
theorem layout_of_ofAttribute {inMethod : Bool} {name : String} {data : Bytes} {found : List Mention}
    (done : ofAttribute pool owner inMethod name data = .ok found) :
    (found.Pairwise fun first second => first.offset + 2 ≤ second.offset) ∧
      ∀ mention ∈ found, ∃ index, data.peek mention.offset = .ok index ∧
        pool.Names index mention.symbol.stored := by
  obtain ⟨pieces, rest, rfl, rfl, sound, -⟩ := (account_self pool owner).ofAttribute_again done
  exact ⟨Piece.pairwise_mentions 0 pieces, fun mention member => sound.peek rest member⟩

end Mention

end JarRename
