import JarRename.Text.ModifiedUtf8
import JarRename.Proofs.Outcome

/-!
**Modified UTF-8 reads back what it writes.**

Decoding takes the bytes of a text apart into the units that encoding made of its characters, and puts
the characters together again. Texts of plain bytes are decoded in one step, with the same outcome.

* `isPlain_iff`, `leadsTwo_iff`, `isHighSurrogate_iff` and the like: the sorts of bytes and units by their bounds;
* `decode_eq_units`: decoding in two steps, whatever the bytes;
* `unitsFrom_bytesOfUnit`, `charsFrom_unitsOfChar`: one unit and one character read back;
* `decode_encode`: a text is decoded from its bytes;
* `mem_bytesOfUnit`, `encode_lossless`: the bytes of a text, none of which is zero or above those that lead three bytes.
-/

namespace JarRename.Text

/-! ### Bytes and units by their bounds -/

theorem isPlain_iff {byte : UInt8} : isPlain byte = true ↔ 0x01 ≤ byte.toNat ∧ byte.toNat ≤ 0x7F := by
  rw [isPlain, Bool.and_eq_true, decide_eq_true_eq, decide_eq_true_eq]
  omega

theorem isContinuation_iff {byte : UInt8} : isContinuation byte = true ↔ 0x80 ≤ byte.toNat ∧ byte.toNat ≤ 0xBF := by
  rw [isContinuation, Bool.and_eq_true, decide_eq_true_eq, decide_eq_true_eq]
  omega

theorem leadsTwo_iff {byte : UInt8} : leadsTwo byte = true ↔ 0xC0 ≤ byte.toNat ∧ byte.toNat ≤ 0xDF := by
  rw [leadsTwo, Bool.and_eq_true, decide_eq_true_eq, decide_eq_true_eq]
  omega

theorem leadsThree_iff {byte : UInt8} : leadsThree byte = true ↔ 0xE0 ≤ byte.toNat ∧ byte.toNat ≤ 0xEF := by
  rw [leadsThree, Bool.and_eq_true, decide_eq_true_eq, decide_eq_true_eq]
  omega

theorem isHighSurrogate_iff {unit : Nat} : isHighSurrogate unit = true ↔ 0xD800 ≤ unit ∧ unit ≤ 0xDBFF := by
  rw [isHighSurrogate, Bool.and_eq_true, decide_eq_true_eq, decide_eq_true_eq]
  omega

theorem isLowSurrogate_iff {unit : Nat} : isLowSurrogate unit = true ↔ 0xDC00 ≤ unit ∧ unit ≤ 0xDFFF := by
  rw [isLowSurrogate, Bool.and_eq_true, decide_eq_true_eq, decide_eq_true_eq]
  omega

/-! ### The forms of a unit -/

theorem unitsFrom_plain {lead : UInt8} (plain : isPlain lead = true) (position : Nat) (found : List Nat)
    (rest : List UInt8) :
    unitsFrom position found (lead :: rest) = unitsFrom (position + 1) (lead.toNat :: found) rest := by
  rw [unitsFrom.eq_def]
  simp only [if_pos plain]

theorem unitsFrom_two {lead second : UInt8} (leads : leadsTwo lead = true)
    (continues : isContinuation second = true) (position : Nat) (found : List Nat) (rest : List UInt8) :
    unitsFrom position found (lead :: second :: rest) =
      unitsFrom (position + 2) (unitOfTwo lead second :: found) rest := by
  have notPlain : ¬isPlain lead = true := by
    rw [isPlain_iff]
    have bounds := leadsTwo_iff.mp leads
    omega
  rw [unitsFrom.eq_def]
  simp only [if_neg notPlain, if_pos leads, if_pos continues]

theorem unitsFrom_three {lead second third : UInt8} (leads : leadsThree lead = true)
    (continues : isContinuation second = true) (ends : isContinuation third = true) (position : Nat)
    (found : List Nat) (rest : List UInt8) :
    unitsFrom position found (lead :: second :: third :: rest) =
      unitsFrom (position + 3) (unitOfThree lead second third :: found) rest := by
  have bounds := leadsThree_iff.mp leads
  have notPlain : ¬isPlain lead = true := by
    rw [isPlain_iff]
    omega
  have notTwo : ¬leadsTwo lead = true := by
    rw [leadsTwo_iff]
    omega
  rw [unitsFrom.eq_def]
  simp only [if_neg notPlain, if_neg notTwo, if_pos leads, continues, ends, Bool.not_true,
    Bool.false_eq_true, if_false]

/-! ### Plain bytes -/

/-- Plain bytes are units of their own. -/
theorem unitsFrom_of_isPlain {bytes : List UInt8} (plain : bytes.all isPlain = true) (position : Nat)
    (found : List Nat) :
    unitsFrom position found bytes = .ok (found.reverse ++ bytes.map UInt8.toNat) := by
  induction bytes generalizing position found with
  | nil => rw [unitsFrom, List.map_nil, List.append_nil]
  | cons lead rest ih =>
    rw [List.all_cons, Bool.and_eq_true] at plain
    rw [unitsFrom_plain plain.1, ih plain.2, List.reverse_cons, List.map_cons, List.append_assoc]
    rfl

/-- Units below the surrogates are characters of their own. -/
theorem charsFrom_of_lt {units : List Nat} (small : ∀ unit ∈ units, unit < 0xD800) (found : List Char) :
    charsFrom found units = .ok (found.reverse ++ units.map Char.ofNat) := by
  induction units generalizing found with
  | nil => rw [charsFrom, List.map_nil, List.append_nil]
  | cons unit rest ih =>
    have below := small unit List.mem_cons_self
    have low : ¬isLowSurrogate unit = true := by
      rw [isLowSurrogate_iff]
      omega
    have high : ¬isHighSurrogate unit = true := by
      rw [isHighSurrogate_iff]
      omega
    rw [charsFrom.eq_def]
    simp only [if_neg low, if_neg high]
    rw [ih fun other member => small other (List.mem_cons_of_mem _ member), List.reverse_cons,
      List.map_cons, List.append_assoc]
    rfl

/-- Decoding takes bytes apart into units and puts these together to characters, also where all bytes
are plain. -/
theorem decode_eq_units (bytes : List UInt8) :
    decode bytes = (do
      let units ← unitsOfBytes bytes
      let chars ← charsOfUnits units
      return String.ofList chars) := by
  unfold decode
  by_cases plain : bytes.all isPlain = true
  · have small : ∀ unit ∈ bytes.map UInt8.toNat, unit < 0xD800 := by
      intro unit member
      obtain ⟨byte, _, rfl⟩ := List.mem_map.mp member
      have := byte.toNat_lt
      omega
    have units : unitsOfBytes bytes = .ok (bytes.map UInt8.toNat) := unitsFrom_of_isPlain plain 0 []
    have chars : charsOfUnits (bytes.map UInt8.toNat) = .ok ((bytes.map UInt8.toNat).map Char.ofNat) :=
      charsFrom_of_lt small []
    rw [if_pos plain, units]
    show _ = charsOfUnits (bytes.map UInt8.toNat) >>= fun chars => pure (String.ofList chars)
    rw [chars, List.map_map]
    rfl
  · rw [if_neg plain]

/-! ### One unit and one character -/

/-- A number of eight bits is that of its byte. -/
theorem toNat_byte {n : Nat} (small : n < 256) : (UInt8.ofNat n).toNat = n :=
  UInt8.toNat_ofNat_of_lt' small

/-- A byte of six bits after the mark of a continuation is one. -/
theorem isContinuation_byte {n : Nat} (small : n < 64) : isContinuation (UInt8.ofNat (0x80 + n)) = true := by
  rw [isContinuation_iff, toNat_byte (by omega)]
  omega

/-- **A unit** is read back from its shortest form. -/
theorem unitsFrom_bytesOfUnit {unit : Nat} (small : unit < 0x10000) (position : Nat) (found : List Nat)
    (rest : List UInt8) :
    ∃ after, unitsFrom position found (bytesOfUnit unit ++ rest) = unitsFrom after (unit :: found) rest := by
  unfold bytesOfUnit
  by_cases one : 0 < unit ∧ unit < 0x80
  · have plain : isPlain (UInt8.ofNat unit) = true := by
      rw [isPlain_iff, toNat_byte (by omega)]
      omega
    refine ⟨position + 1, ?_⟩
    rw [if_pos one, List.singleton_append, unitsFrom_plain plain, toNat_byte (by omega)]
  rw [if_neg one]
  by_cases two : unit < 0x800
  · have leads : leadsTwo (UInt8.ofNat (0xC0 + unit / 64)) = true := by
      rw [leadsTwo_iff, toNat_byte (by omega)]
      omega
    have value : unitOfTwo (UInt8.ofNat (0xC0 + unit / 64)) (UInt8.ofNat (0x80 + unit % 64)) = unit := by
      unfold unitOfTwo
      rw [toNat_byte (by omega), toNat_byte (by omega)]
      omega
    refine ⟨position + 2, ?_⟩
    rw [if_pos two, List.cons_append, List.singleton_append,
      unitsFrom_two leads (isContinuation_byte (by omega)), value]
  · have leads : leadsThree (UInt8.ofNat (0xE0 + unit / 4096)) = true := by
      rw [leadsThree_iff, toNat_byte (by omega)]
      omega
    have value : unitOfThree (UInt8.ofNat (0xE0 + unit / 4096)) (UInt8.ofNat (0x80 + unit / 64 % 64))
        (UInt8.ofNat (0x80 + unit % 64)) = unit := by
      unfold unitOfThree
      rw [toNat_byte (by omega), toNat_byte (by omega), toNat_byte (by omega)]
      omega
    refine ⟨position + 3, ?_⟩
    rw [if_neg two, List.cons_append, List.cons_append, List.singleton_append,
      unitsFrom_three leads (isContinuation_byte (by omega)) (isContinuation_byte (by omega)), value]

/-- Characters are numbered below the end of the last plane. -/
theorem toNat_lt_planes (c : Char) : c.toNat < 0x110000 := by
  rcases c.valid with low | high
  · exact Nat.lt_trans low (by decide)
  · exact high.2

/-- The units of a character have sixteen bits. -/
theorem lt_of_mem_unitsOfChar {c : Char} {unit : Nat} (member : unit ∈ unitsOfChar c) : unit < 0x10000 := by
  have bound := toNat_lt_planes c
  unfold unitsOfChar at member
  by_cases small : c.toNat < 0x10000
  · rw [if_pos small, List.mem_singleton] at member
    omega
  · rw [if_neg small, List.mem_cons, List.mem_singleton] at member
    omega

/-- **A character** is read back from its units. -/
theorem charsFrom_unitsOfChar (c : Char) (found : List Char) (rest : List Nat) :
    charsFrom found (unitsOfChar c ++ rest) = charsFrom (c :: found) rest := by
  have bound := toNat_lt_planes c
  unfold unitsOfChar
  by_cases small : c.toNat < 0x10000
  · have scalar : c.toNat < 0xD800 ∨ 0xDFFF < c.toNat := c.valid.imp id And.left
    have low : ¬isLowSurrogate c.toNat = true := by
      rw [isLowSurrogate_iff]
      omega
    have high : ¬isHighSurrogate c.toNat = true := by
      rw [isHighSurrogate_iff]
      omega
    rw [if_pos small, List.singleton_append, charsFrom.eq_def]
    simp only [if_neg low, if_neg high, Char.ofNat_toNat]
  · rw [if_neg small, charsFrom.eq_def]
    have notLow : ¬(0xDC00 ≤ 0xD800 + (c.toNat - 0x10000) / 0x400 ∧
        0xD800 + (c.toNat - 0x10000) / 0x400 < 0xE000) := by omega
    have high : 0xD800 ≤ 0xD800 + (c.toNat - 0x10000) / 0x400 ∧
        0xD800 + (c.toNat - 0x10000) / 0x400 < 0xDC00 := by omega
    have low : 0xDC00 ≤ 0xDC00 + (c.toNat - 0x10000) % 0x400 ∧
        0xDC00 + (c.toNat - 0x10000) % 0x400 < 0xE000 := by omega
    have value : charOfPair (0xD800 + (c.toNat - 0x10000) / 0x400)
        (0xDC00 + (c.toNat - 0x10000) % 0x400) = c := by
      unfold charOfPair
      have same : 0x10000 + (0xD800 + (c.toNat - 0x10000) / 0x400 - 0xD800) * 0x400 +
          (0xDC00 + (c.toNat - 0x10000) % 0x400 - 0xDC00) = c.toNat := by omega
      rw [same, Char.ofNat_toNat]
    simp only [List.cons_append, List.nil_append, isLowSurrogate, isHighSurrogate, Bool.and_eq_true,
      decide_eq_true_eq, if_neg notLow, if_pos high, if_pos low, value]

/-! ### Texts -/

/-- Units are read back from their shortest forms. -/
theorem unitsFrom_flatMap {units : List Nat} (small : ∀ unit ∈ units, unit < 0x10000) (position : Nat)
    (found : List Nat) :
    unitsFrom position found (units.flatMap bytesOfUnit) = .ok (found.reverse ++ units) := by
  induction units generalizing position found with
  | nil => rw [List.flatMap_nil, unitsFrom, List.append_nil]
  | cons unit rest ih =>
    obtain ⟨after, step⟩ := unitsFrom_bytesOfUnit (small unit List.mem_cons_self) position found
      (rest.flatMap bytesOfUnit)
    rw [List.flatMap_cons, step, ih fun other member => small other (List.mem_cons_of_mem _ member),
      List.reverse_cons, List.append_assoc]
    rfl

/-- Characters are read back from their units. -/
theorem charsFrom_flatMap (chars found : List Char) :
    charsFrom found (chars.flatMap unitsOfChar) = .ok (found.reverse ++ chars) := by
  induction chars generalizing found with
  | nil => rw [List.flatMap_nil, charsFrom, List.append_nil]
  | cons c rest ih =>
    rw [List.flatMap_cons, charsFrom_unitsOfChar, ih, List.reverse_cons, List.append_assoc]
    rfl

/-- **A text is decoded from its bytes.** -/
theorem decode_encode (text : String) : decode (encode text) = .ok text := by
  have small : ∀ unit ∈ text.toList.flatMap unitsOfChar, unit < 0x10000 := by
    intro unit member
    obtain ⟨c, _, inside⟩ := List.mem_flatMap.mp member
    exact lt_of_mem_unitsOfChar inside
  have units : unitsOfBytes (encode text) = .ok (text.toList.flatMap unitsOfChar) :=
    unitsFrom_flatMap small 0 []
  have chars : charsOfUnits (text.toList.flatMap unitsOfChar) = .ok text.toList :=
    charsFrom_flatMap text.toList []
  rw [decode_eq_units, units]
  show charsOfUnits (text.toList.flatMap unitsOfChar) >>= (fun chars => pure (String.ofList chars)) = _
  rw [chars]
  show Except.ok (String.ofList text.toList) = _
  rw [String.ofList_toList]

/-! ### The bytes of a text -/

/-- The bytes of a unit are plain, lead two or three bytes or continue them. -/
theorem mem_bytesOfUnit {unit : Nat} (small : unit < 0x10000) {byte : UInt8} (member : byte ∈ bytesOfUnit unit) :
    0 < byte.toNat ∧ byte.toNat ≤ 0xEF := by
  unfold bytesOfUnit at member
  by_cases one : 0 < unit ∧ unit < 0x80
  · rw [if_pos one, List.mem_singleton] at member
    rw [member, toNat_byte (by omega)]
    omega
  rw [if_neg one] at member
  -- the two longer forms mark every byte, so none is zero
  by_cases two : unit < 0x800
  · rw [if_pos two, List.mem_cons, List.mem_singleton] at member
    rcases member with lead | second
    · rw [lead, toNat_byte (by omega)]
      omega
    · rw [second, toNat_byte (by omega)]
      omega
  · rw [if_neg two, List.mem_cons, List.mem_cons, List.mem_singleton] at member
    rcases member with lead | second | third
    · rw [lead, toNat_byte (by omega)]
      omega
    · rw [second, toNat_byte (by omega)]
      omega
    · rw [third, toNat_byte (by omega)]
      omega

/-- **Nothing of a text is lost in its bytes.** It is decoded from them, so no other text has the same bytes, and none
of them is zero or above `0xEF`. -/
theorem encode_lossless :
    (∀ text, decode (encode text) = .ok text) ∧ Function.Injective encode ∧
      ∀ text, ∀ byte ∈ encode text, byte.toNat ≠ 0x00 ∧ byte.toNat ≤ 0xEF := by
  refine ⟨decode_encode, ?_, ?_⟩
  · intro first second same
    have decoded := decode_encode first
    rw [same, decode_encode second] at decoded
    exact (Except.ok.inj decoded).symm
  · intro text byte member
    obtain ⟨unit, inText, inUnit⟩ := List.mem_flatMap.mp member
    obtain ⟨c, -, inChar⟩ := List.mem_flatMap.mp inText
    obtain ⟨positive, bounded⟩ := mem_bytesOfUnit (lt_of_mem_unitsOfChar inChar) inUnit
    exact ⟨Nat.ne_of_gt positive, bounded⟩

-- the null character, a character of two bytes and one beyond the first plane
example : encode "\x00é😀" = [0xC0, 0x80, 0xC3, 0xA9, 0xED, 0xA0, 0xBD, 0xED, 0xB8, 0x80] := by decide +kernel

end JarRename.Text
