import JarRename.Proofs.Bytes.Patch
import JarRename.Proofs.Pool.Growth

/-!
**The contents of an attribute in pieces.**

The contents of an attribute are bytes that stay as they are with indices of names between them. Contents in
which only the indices differ have the same mentions up to their symbols.

* `Piece`, `Piece.bytesOf`, `Piece.mentions`: the pieces of contents, with their bytes and their mentions;
* `Piece.Alike`: pieces that differ in their names only;
* `Piece.exists_of_mem_mentions`, `Piece.pairwise_mentions`: where mentions stand;
* `Piece.exists_alike`: contents that differ only where mentions stand are those of alike pieces.
-/

namespace JarRename

/-- What is stored for a symbol at its site. -/
def Symbol.stored : Symbol → Replacement
  | ofClass name => .text name
  | ofField _ name descriptor _ => .nameAndType name descriptor
  | ofMethod _ name descriptor _ => .nameAndType name descriptor
  | ofDescriptor descriptor => .text descriptor
  | ofSignature signature => .text signature
  | innerName _ name => .text name
  | recordComponent _ name _ => .text name
  | enclosingMethod _ name descriptor => .nameAndType name descriptor
  | callSite site => .nameAndType site.name site.descriptor

/-! ### Pieces -/

/-- A piece of the contents of an attribute: bytes that no renaming changes, or the index of a name. -/
inductive Piece where
  | plain (bytes : Bytes)
  | named (index : Index) (symbol : Symbol)

namespace Piece

/-- The bytes of a piece. -/
def bytes : Piece → Bytes
  | plain bytes => bytes
  | named index _ => Bytes.bytes16 index

/-- The bytes of pieces, one after the other. -/
def bytesOf (pieces : List Piece) : Bytes :=
  pieces.flatMap bytes

/-- The mentions in pieces that start at an offset. -/
def mentions : Nat → List Piece → List Mention
  | _, [] => []
  | offset, plain bytes :: rest => mentions (offset + bytes.length) rest
  | offset, named _ symbol :: rest => ⟨offset, symbol⟩ :: mentions (offset + 2) rest

/-- Pieces with the same bytes, or with names related by `alike` (given the new index). -/
inductive Alike (alike : Symbol → Index → Symbol → Prop) : Piece → Piece → Prop
  | plain (bytes : Bytes) : Alike alike (plain bytes) (plain bytes)
  | named {index other : Index} {symbol new : Symbol} (same : alike symbol other new) :
      Alike alike (named index symbol) (named other new)

/-- A symbol that attributes mention, whose other names are met elsewhere: those of nested classes and classes
around are classes of the pool, and a component belongs to the class `owner` and has its descriptor among the
pieces. -/
def Backed (pool : Pool) (owner : String) (pieces : List Piece) : Symbol → Prop
  | .innerName inner _ => ∃ index, pool.className index = .ok inner
  | .enclosingMethod around _ _ => ∃ index, pool.className index = .ok around
  | .recordComponent record _ descriptor =>
    record = owner ∧ ∃ index, named index (.ofDescriptor descriptor) ∈ pieces
  | .ofDescriptor _ | .ofSignature _ => True
  | .ofClass _ | .ofField _ _ _ _ | .ofMethod _ _ _ _ | .callSite _ => False

/-- The indices in the pieces stand for what their symbols store, and the other names of these are met
elsewhere. -/
def Sound (pool : Pool) (owner : String) (pieces : List Piece) : Prop :=
  ∀ index symbol, named index symbol ∈ pieces →
    pool.Names index symbol.stored ∧ Backed pool owner pieces symbol

variable {alike : Symbol → Index → Symbol → Prop} {pieces others : List Piece} {pool : Pool}
  {owner : String}

@[simp]
theorem bytesOf_nil : bytesOf [] = [] := rfl

@[simp]
theorem bytesOf_cons (piece : Piece) (rest : List Piece) :
    bytesOf (piece :: rest) = piece.bytes ++ bytesOf rest := rfl

@[simp]
theorem bytesOf_append (first second : List Piece) :
    bytesOf (first ++ second) = bytesOf first ++ bytesOf second :=
  List.flatMap_append

theorem mentions_append (offset : Nat) (first second : List Piece) :
    mentions offset (first ++ second) =
      mentions offset first ++ mentions (offset + (bytesOf first).length) second := by
  induction first generalizing offset with
  | nil => rfl
  | cons piece rest ih =>
    cases piece with
    | plain bytes =>
      rw [List.cons_append, mentions, mentions, ih, bytesOf_cons, List.length_append, Nat.add_assoc]
      rfl
    | named index symbol =>
      rw [List.cons_append, mentions, mentions, ih, bytesOf_cons, List.length_append, Nat.add_assoc]
      rfl

theorem Sound.nil : Sound pool owner [] :=
  fun _ _ member => absurd member List.not_mem_nil

theorem Sound.plain (bytes : Bytes) : Sound pool owner [plain bytes] :=
  fun _ _ member => nomatch List.mem_singleton.mp member

theorem Backed.mono {symbol : Symbol} (backed : Backed pool owner pieces symbol)
    (inside : ∀ piece ∈ pieces, piece ∈ others) : Backed pool owner others symbol := by
  cases symbol
  case recordComponent =>
    obtain ⟨same, index, member⟩ := backed
    exact ⟨same, index, inside _ member⟩
  all_goals exact backed

theorem Sound.append {first second : List Piece} (one : Sound pool owner first) (two : Sound pool owner second) :
    Sound pool owner (first ++ second) := by
  intro index symbol member
  obtain inside | inside := List.mem_append.mp member
  · obtain ⟨names, backed⟩ := one index symbol inside
    exact ⟨names, backed.mono fun _ => List.mem_append_left _⟩
  · obtain ⟨names, backed⟩ := two index symbol inside
    exact ⟨names, backed.mono fun _ => List.mem_append_right _⟩

theorem length_bytes_of_alike {piece other : Piece} (same : Alike alike piece other) :
    other.bytes.length = piece.bytes.length := by
  cases same <;> rfl

/-- Alike pieces take the same room. -/
theorem length_bytesOf_of_alike (same : List.Forall₂ (Alike alike) pieces others) :
    (bytesOf others).length = (bytesOf pieces).length := by
  induction same with
  | nil => rfl
  | cons head _ ih =>
    rw [bytesOf_cons, bytesOf_cons, List.length_append, List.length_append, ih,
      length_bytes_of_alike head]

/-- Pieces alike to a list in two parts come in two such parts. -/
theorem alike_append {first second : List Piece}
    (same : List.Forall₂ (Alike alike) (first ++ second) others) :
    ∃ one two, others = one ++ two ∧ List.Forall₂ (Alike alike) first one ∧
      List.Forall₂ (Alike alike) second two := by
  refine ⟨others.take first.length, others.drop first.length, (List.take_append_drop _ _).symm, ?_, ?_⟩
  · have taken := List.forall₂_take first.length same
    rwa [List.take_left] at taken
  · have dropped := List.forall₂_drop first.length same
    rwa [List.drop_left] at dropped

theorem alike_plain {bytes : Bytes} (same : List.Forall₂ (Alike alike) [plain bytes] others) :
    others = [plain bytes] := by
  obtain ⟨other, rest, head, tail, rfl⟩ := List.forall₂_cons_left_iff.mp same
  obtain rfl := List.forall₂_nil_left_iff.mp tail
  cases head
  rfl

theorem alike_named {index : Index} {symbol : Symbol}
    (same : List.Forall₂ (Alike alike) [named index symbol] others) :
    ∃ other new, others = [named other new] ∧ alike symbol other new := by
  obtain ⟨piece, rest, head, tail, rfl⟩ := List.forall₂_cons_left_iff.mp same
  obtain rfl := List.forall₂_nil_left_iff.mp tail
  cases head with
  | named related => exact ⟨_, _, rfl, related⟩

/-! ### Where mentions stand -/

/-- A mention stands at an index between pieces. -/
theorem exists_of_mem_mentions {offset : Nat} {mention : Mention} (member : mention ∈ mentions offset pieces) :
    ∃ front index back, pieces = front ++ named index mention.symbol :: back ∧
      mention.offset = offset + (bytesOf front).length := by
  induction pieces generalizing offset with
  | nil => cases member
  | cons piece rest ih =>
    cases piece with
    | plain bytes =>
      obtain ⟨front, index, back, rfl, place⟩ := ih member
      refine ⟨plain bytes :: front, index, back, rfl, ?_⟩
      rw [place, bytesOf_cons, List.length_append, Nat.add_assoc]
      rfl
    | named index symbol =>
      obtain rfl | member := List.mem_cons.mp member
      · exact ⟨[], index, rest, rfl, rfl⟩
      · obtain ⟨front, other, back, rfl, place⟩ := ih member
        refine ⟨named index symbol :: front, other, back, rfl, ?_⟩
        rw [place, bytesOf_cons, List.length_append, Nat.add_assoc]
        rfl

/-- Every index between pieces has its mention. -/
theorem exists_mem_mentions (offset : Nat) {index : Index} {symbol : Symbol}
    (member : named index symbol ∈ pieces) : ∃ mention ∈ mentions offset pieces, mention.symbol = symbol := by
  obtain ⟨front, back, rfl⟩ := List.append_of_mem member
  rw [mentions_append]
  exact ⟨_, List.mem_append_right _ List.mem_cons_self, rfl⟩

/-- Alike pieces have mentions at the same offsets. -/
theorem mentions_of_alike (offset : Nat) (same : List.Forall₂ (Alike alike) pieces others) :
    List.Forall₂ (fun mention other => other.offset = mention.offset ∧
      ∃ index, alike mention.symbol index other.symbol) (mentions offset pieces) (mentions offset others) := by
  induction same generalizing offset with
  | nil => exact .nil
  | cons head _ ih =>
    cases head with
    | plain bytes => exact ih _
    | named related => exact .cons ⟨rfl, _, related⟩ (ih _)

/-- Mentions stand inside the contents. -/
theorem inside_of_mem_mentions {offset : Nat} {mention : Mention} (member : mention ∈ mentions offset pieces) :
    offset ≤ mention.offset ∧ mention.offset + 2 ≤ offset + (bytesOf pieces).length := by
  obtain ⟨front, index, back, rfl, place⟩ := exists_of_mem_mentions member
  have size : (named index mention.symbol).bytes.length = 2 := rfl
  rw [place, bytesOf_append, bytesOf_cons, List.length_append, List.length_append, size]
  omega

/-- Mentions do not overlap, and stand in order. -/
theorem pairwise_mentions (offset : Nat) (pieces : List Piece) :
    (mentions offset pieces).Pairwise fun first second => first.offset + 2 ≤ second.offset := by
  induction pieces generalizing offset with
  | nil => exact .nil
  | cons piece rest ih =>
    cases piece with
    | plain bytes => exact ih _
    | named index symbol =>
      exact .cons (fun other member => (inside_of_mem_mentions member).1) (ih _)

/-- The index at a mention stands for what its symbol stores. -/
theorem Sound.peek (sound : Sound pool owner pieces) (rest : Bytes) {mention : Mention}
    (member : mention ∈ mentions 0 pieces) :
    ∃ index, Bytes.peek (bytesOf pieces ++ rest) mention.offset = .ok index ∧
      pool.Names index mention.symbol.stored := by
  obtain ⟨front, index, back, rfl, place⟩ := exists_of_mem_mentions member
  refine ⟨index, Bytes.peek_eq_ok.mpr ⟨_, _, ?_, ?_, Bytes.word16_bytes16 index⟩,
    (sound index _ (List.mem_append_right _ List.mem_cons_self)).1⟩
  · rw [place]
    simp [bytes, Bytes.bytes16]
  · rw [place]
    simp [bytes, Bytes.bytes16]

/-- **Contents that differ only where mentions stand** are those of alike pieces. -/
theorem exists_alike {offset : Nat} {rest data : Bytes}
    (length : data.length = (bytesOf pieces ++ rest).length)
    (outside : ∀ position, (∀ mention ∈ mentions offset pieces,
        offset + position < mention.offset ∨ mention.offset + 2 ≤ offset + position) →
      data[position]? = (bytesOf pieces ++ rest)[position]?)
    (inside : ∀ mention ∈ mentions offset pieces, ∃ index new,
      Bytes.peek data (mention.offset - offset) = .ok index ∧ alike mention.symbol index new) :
    ∃ others, data = bytesOf others ++ rest ∧ List.Forall₂ (Alike alike) pieces others := by
  induction pieces generalizing offset data with
  | nil =>
    refine ⟨[], List.ext_getElem? fun position => ?_, .nil⟩
    exact outside position fun _ member => absurd member List.not_mem_nil
  | cons piece pieces ih =>
    -- the pieces after the first are met in what follows the bytes of the first
    have split : mentions offset (piece :: pieces) =
        mentions offset [piece] ++ mentions (offset + piece.bytes.length) pieces := by
      rw [← List.singleton_append, mentions_append]
      simp
    have bytes : bytesOf (piece :: pieces) ++ rest = piece.bytes ++ (bytesOf pieces ++ rest) := by
      rw [bytesOf_cons, List.append_assoc]
    rw [bytes] at length outside
    rw [split] at outside inside
    obtain ⟨others, later, alikeLater⟩ : ∃ others, data.drop piece.bytes.length = bytesOf others ++ rest ∧
        List.Forall₂ (Alike alike) pieces others := by
      refine @ih (offset + piece.bytes.length) _ ?_ (fun position free => ?_) fun mention member => ?_
      · rw [List.length_drop, length, List.length_append, Nat.add_sub_cancel_left]
      · rw [List.getElem?_drop, outside, List.getElem?_append_right (Nat.le_add_right _ _),
          Nat.add_sub_cancel_left]
        intro mention member
        obtain head | member := List.mem_append.mp member
        · have bound := (inside_of_mem_mentions head).2
          simp only [bytesOf_cons, bytesOf_nil, List.append_nil] at bound
          omega
        · have place := free mention member
          omega
      · obtain ⟨index, new, found, related⟩ := inside mention (List.mem_append_right _ member)
        refine ⟨index, new, Bytes.peek_drop ?_, related⟩
        have bound := (inside_of_mem_mentions member).1
        rw [← found]
        congr 1
        omega
    obtain ⟨other, first, alikeFirst⟩ : ∃ other : Piece, data.take piece.bytes.length = other.bytes ∧
        Alike alike piece other := by
      cases piece with
      | plain fixed =>
        refine ⟨plain fixed, List.ext_getElem? fun position => ?_, .plain fixed⟩
        by_cases early : position < (plain fixed).bytes.length
        · have same := outside position fun mention member => ?_
          · rw [List.getElem?_take_of_lt early, same]
            exact List.getElem?_append_left early
          · have bound := (inside_of_mem_mentions member).1
            exact .inl (Nat.lt_of_lt_of_le (Nat.add_lt_add_left early offset) bound)
        · have late := Nat.le_of_not_lt early
          rw [List.getElem?_eq_none, List.getElem?_eq_none]
          · exact late
          · exact Nat.le_trans (List.length_take_le _ _) late
      | named index symbol =>
        obtain ⟨new, newSymbol, found, related⟩ := inside ⟨offset, symbol⟩ List.mem_cons_self
        rw [Nat.sub_self] at found
        exact ⟨named new newSymbol, Bytes.take_two_of_peek found, .named related⟩
    refine ⟨other :: others, ?_, .cons alikeFirst alikeLater⟩
    rw [bytesOf_cons, List.append_assoc, ← later, ← first, List.take_append_drop]

end Piece

end JarRename
