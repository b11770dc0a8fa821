import JarRename.Proofs.Text.ModifiedUtf8

/-!
**Modified UTF-8 accepts exactly its forms.**

A unit is stored in a form of one, two or three bytes, and most units have more than one form. Bytes are decoded exactly
if they are forms in a row whose units are those of a text, so a surrogate stands only in a pair. Encoding the text
again gives every unit its shortest form.

* `Form`, `Form.bytes`, `Form.unit`: the forms, with the bounds of their bytes, and the unit of each;
* `unitsFrom_eq_ok`: the units of bytes, by the forms that the bytes are;
* `WellPaired`, `exists_charsOfUnits_iff`, `charsOfUnits_eq_ok`: the units of a text;
* `Form.Shortest`, `Form.shortest_iff`: the form that encoding gives a unit;
* `Form.length_written_le`, `Form.written_eq_iff`: forms whose units are written again;
* `decode_exactly`: what is accepted, what it is decoded to, and what that is encoded to.
-/

namespace JarRename.Text

/-! ### Forms -/

/-- The bytes of one unit: a plain byte, or a leading byte with one or two continuations. -/
inductive Form where
  | one (byte : UInt8) (plain : 0x01 ≤ byte.toNat ∧ byte.toNat ≤ 0x7F)
  | two (lead second : UInt8) (leads : 0xC0 ≤ lead.toNat ∧ lead.toNat ≤ 0xDF)
    (continues : 0x80 ≤ second.toNat ∧ second.toNat ≤ 0xBF)
  | three (lead second third : UInt8) (leads : 0xE0 ≤ lead.toNat ∧ lead.toNat ≤ 0xEF)
    (continues : 0x80 ≤ second.toNat ∧ second.toNat ≤ 0xBF) (ends : 0x80 ≤ third.toNat ∧ third.toNat ≤ 0xBF)

namespace Form

/-- The bytes of a form. -/
def bytes : Form → List UInt8
  | one byte _ => [byte]
  | two lead second _ _ => [lead, second]
  | three lead second third _ _ _ => [lead, second, third]

/-- The unit of a form: the bits of its bytes that do not mark their place. -/
def unit : Form → Nat
  | one byte _ => byte.toNat
  | two lead second _ _ => lead.toNat % 32 * 64 + second.toNat % 64
  | three lead second third _ _ _ => lead.toNat % 16 * 4096 + second.toNat % 64 * 64 + third.toNat % 64

/-- Units have sixteen bits. -/
theorem unit_lt (form : Form) : form.unit < 0x10000 := by
  cases form with
  | one byte plain =>
    show byte.toNat < 0x10000
    omega
  | two lead second leads continues =>
    show lead.toNat % 32 * 64 + second.toNat % 64 < 0x10000
    omega
  | three lead second third leads continues ends =>
    show lead.toNat % 16 * 4096 + second.toNat % 64 * 64 + third.toNat % 64 < 0x10000
    omega

end Form

/-! ### The units of bytes -/

theorem unitOfTwo_eq {lead second : UInt8} (leads : 0xC0 ≤ lead.toNat ∧ lead.toNat ≤ 0xDF)
    (continues : 0x80 ≤ second.toNat ∧ second.toNat ≤ 0xBF) :
    unitOfTwo lead second = (Form.two lead second leads continues).unit := by
  show (lead.toNat - 0xC0) * 64 + (second.toNat - 0x80) = lead.toNat % 32 * 64 + second.toNat % 64
  omega

theorem unitOfThree_eq {lead second third : UInt8} (leads : 0xE0 ≤ lead.toNat ∧ lead.toNat ≤ 0xEF)
    (continues : 0x80 ≤ second.toNat ∧ second.toNat ≤ 0xBF) (ends : 0x80 ≤ third.toNat ∧ third.toNat ≤ 0xBF) :
    unitOfThree lead second third = (Form.three lead second third leads continues ends).unit := by
  show (lead.toNat - 0xE0) * 4096 + (second.toNat - 0x80) * 64 + (third.toNat - 0x80) =
    lead.toNat % 16 * 4096 + second.toNat % 64 * 64 + third.toNat % 64
  omega

/-- **One form** is read as its unit. -/
theorem unitsFrom_form (form : Form) (position : Nat) (found : List Nat) (rest : List UInt8) :
    ∃ after, unitsFrom position found (form.bytes ++ rest) = unitsFrom after (form.unit :: found) rest := by
  cases form with
  | one byte plain => exact ⟨_, unitsFrom_plain (isPlain_iff.mpr plain) position found rest⟩
  | two lead second leads continues =>
    refine ⟨position + 2, ?_⟩
    rw [← unitOfTwo_eq]
    exact unitsFrom_two (leadsTwo_iff.mpr leads) (isContinuation_iff.mpr continues) position found rest
  | three lead second third leads continues ends =>
    refine ⟨position + 3, ?_⟩
    rw [← unitOfThree_eq]
    exact unitsFrom_three (leadsThree_iff.mpr leads) (isContinuation_iff.mpr continues)
      (isContinuation_iff.mpr ends) position found rest

/-- Bytes that are forms in a row, with the units of the forms behind those found before. -/
def Formed (found : List Nat) (bytes : List UInt8) (units : List Nat) : Prop :=
  ∃ forms : List Form, bytes = forms.flatMap Form.bytes ∧ units = found.reverse ++ forms.map Form.unit

theorem Formed.cons (form : Form) {found units : List Nat} {rest : List UInt8}
    (later : Formed (form.unit :: found) rest units) : Formed found (form.bytes ++ rest) units := by
  obtain ⟨forms, rfl, rfl⟩ := later
  refine ⟨form :: forms, rfl, ?_⟩
  rw [List.reverse_cons, List.append_assoc, List.map_cons, List.singleton_append]

/-- **Bytes have units** exactly if they are forms in a row, and then they have the units of these forms. -/
theorem unitsFrom_eq_ok {position : Nat} {found units : List Nat} {bytes : List UInt8} :
    unitsFrom position found bytes = .ok units ↔ Formed found bytes units := by
  constructor
  · intro done
    fun_induction unitsFrom position found bytes with
    | case1 position found =>
      cases done
      exact ⟨[], rfl, (List.append_nil _).symm⟩
    | case2 position found byte rest plain ih => exact .cons (.one byte (isPlain_iff.mp plain)) (ih done)
    | case4 position found lead notPlain leads second rest continues ih =>
      rw [unitOfTwo_eq (leadsTwo_iff.mp leads) (isContinuation_iff.mp continues)] at ih done
      exact .cons _ (ih done)
    | case10 position found lead notPlain notTwo leads second third rest continues ends ih =>
      rw [Bool.not_eq_true', Bool.not_eq_false] at continues ends
      rw [unitOfThree_eq (leadsThree_iff.mp leads) (isContinuation_iff.mp continues)
        (isContinuation_iff.mp ends)] at ih done
      exact .cons _ (ih done)
    | case3 | case5 | case6 | case7 | case8 | case9 | case11 => cases done
  · rintro ⟨forms, rfl, rfl⟩
    induction forms generalizing position found with
    | nil => rw [List.flatMap_nil, unitsFrom, List.map_nil, List.append_nil]
    | cons form forms ih =>
      obtain ⟨after, step⟩ := unitsFrom_form form position found (forms.flatMap Form.bytes)
      rw [List.flatMap_cons, step, ih, List.reverse_cons, List.append_assoc, List.map_cons, List.singleton_append]

theorem unitsOfBytes_eq_ok {bytes : List UInt8} {units : List Nat} : unitsOfBytes bytes = .ok units ↔
    ∃ forms : List Form, bytes = forms.flatMap Form.bytes ∧ units = forms.map Form.unit :=
  unitsFrom_eq_ok

/-! ### The characters of units -/

/-- Surrogates stand only in pairs, a high one in front of a low one. -/
inductive WellPaired : List Nat → Prop
  | nil : WellPaired []
  | single {unit : Nat} {rest : List Nat} (outside : unit < 0xD800 ∨ 0xDFFF < unit) (later : WellPaired rest) :
    WellPaired (unit :: rest)
  | pair {high low : Nat} {rest : List Nat} (isHigh : 0xD800 ≤ high ∧ high ≤ 0xDBFF)
    (isLow : 0xDC00 ≤ low ∧ low ≤ 0xDFFF) (later : WellPaired rest) : WellPaired (high :: low :: rest)

/-- Units that are read as characters have their surrogates in pairs. -/
theorem wellPaired_of_charsFrom {found chars : List Char} {units : List Nat}
    (done : charsFrom found units = .ok chars) : WellPaired units := by
  fun_induction charsFrom found units with
  | case1 found => exact .nil
  | case4 found high notLow isHigh low rest isLow ih =>
    exact .pair (isHighSurrogate_iff.mp isHigh) (isLowSurrogate_iff.mp isLow) (ih done)
  | case6 found unit rest notLow notHigh ih =>
    rw [isLowSurrogate_iff] at notLow
    rw [isHighSurrogate_iff] at notHigh
    exact .single (by omega) (ih done)
  | case2 | case3 | case5 => cases done

/-- A number of a character is that of its character. -/
theorem toNat_char {n : Nat} (valid : n.isValidChar) : (Char.ofNat n).toNat = n := by
  rw [Char.ofNat, dif_pos valid]
  rfl

/-- A unit outside the surrogates is that of a character. -/
theorem exists_char_single {unit : Nat} (small : unit < 0x10000) (outside : unit < 0xD800 ∨ 0xDFFF < unit) :
    ∃ c, unitsOfChar c = [unit] := by
  have valid : unit.isValidChar := by
    unfold Nat.isValidChar
    omega
  refine ⟨Char.ofNat unit, ?_⟩
  rw [unitsOfChar, toNat_char valid, if_pos small]

/-- A pair of surrogates is that of a character beyond the first plane. -/
theorem exists_char_pair {high low : Nat} (isHigh : 0xD800 ≤ high ∧ high ≤ 0xDBFF)
    (isLow : 0xDC00 ≤ low ∧ low ≤ 0xDFFF) : ∃ c, unitsOfChar c = [high, low] := by
  have valid : (0x10000 + (high - 0xD800) * 0x400 + (low - 0xDC00)).isValidChar := by
    unfold Nat.isValidChar
    omega
  refine ⟨charOfPair high low, ?_⟩
  have beyond : ¬0x10000 + (high - 0xD800) * 0x400 + (low - 0xDC00) < 0x10000 := by omega
  have first : 0xD800 + (0x10000 + (high - 0xD800) * 0x400 + (low - 0xDC00) - 0x10000) / 0x400 = high := by omega
  have second : 0xDC00 + (0x10000 + (high - 0xD800) * 0x400 + (low - 0xDC00) - 0x10000) % 0x400 = low := by omega
  rw [unitsOfChar, charOfPair, toNat_char valid, if_neg beyond, first, second]

/-- Units whose surrogates stand in pairs are those of characters. -/
theorem exists_chars {units : List Nat} (paired : WellPaired units) (small : ∀ unit ∈ units, unit < 0x10000) :
    ∃ chars : List Char, chars.flatMap unitsOfChar = units := by
  induction paired with
  | nil => exact ⟨[], rfl⟩
  | single outside later ih =>
    obtain ⟨here, behind⟩ := List.forall_mem_cons.mp small
    obtain ⟨c, unit⟩ := exists_char_single here outside
    obtain ⟨chars, rfl⟩ := ih behind
    exact ⟨c :: chars, by rw [List.flatMap_cons, unit, List.singleton_append]⟩
  | pair isHigh isLow later ih =>
    obtain ⟨-, behind⟩ := List.forall_mem_cons.mp small
    obtain ⟨c, units⟩ := exists_char_pair isHigh isLow
    obtain ⟨chars, rfl⟩ := ih (List.forall_mem_cons.mp behind).2
    exact ⟨c :: chars, by rw [List.flatMap_cons, units]; rfl⟩

/-- **Units have characters** exactly if their surrogates stand in pairs. -/
theorem exists_charsOfUnits_iff {units : List Nat} (small : ∀ unit ∈ units, unit < 0x10000) :
    (∃ chars, charsOfUnits units = .ok chars) ↔ WellPaired units := by
  constructor
  · rintro ⟨chars, done⟩
    exact wellPaired_of_charsFrom done
  · intro paired
    obtain ⟨chars, rfl⟩ := exists_chars paired small
    exact ⟨chars, charsFrom_flatMap chars []⟩

/-- The characters of units are those that have these units. -/
theorem charsOfUnits_eq_ok {units : List Nat} (small : ∀ unit ∈ units, unit < 0x10000) {chars : List Char} :
    charsOfUnits units = .ok chars ↔ chars.flatMap unitsOfChar = units := by
  constructor
  · intro done
    obtain ⟨others, rfl⟩ := exists_chars (wellPaired_of_charsFrom done) small
    have read : charsOfUnits (others.flatMap unitsOfChar) = .ok others := charsFrom_flatMap others []
    cases done.symm.trans read
    rfl
  · rintro rfl
    exact charsFrom_flatMap chars []

/-! ### Decoding -/

theorem Form.units_lt (forms : List Form) : ∀ unit ∈ forms.map Form.unit, unit < 0x10000 := by
  intro unit member
  obtain ⟨form, -, rfl⟩ := List.mem_map.mp member
  exact form.unit_lt

/-- **Bytes are decoded** to the text that has the units of their forms. -/
theorem decode_eq_ok {bytes : List UInt8} {text : String} : decode bytes = .ok text ↔
    ∃ forms : List Form, bytes = forms.flatMap Form.bytes ∧ text.toList.flatMap unitsOfChar = forms.map Form.unit := by
  rw [decode_eq_units, bind_eq_ok]
  constructor
  · rintro ⟨units, read, done⟩
    obtain ⟨forms, rfl, rfl⟩ := unitsOfBytes_eq_ok.mp read
    obtain ⟨chars, spelled, same⟩ := bind_eq_ok.mp done
    rw [charsOfUnits_eq_ok (Form.units_lt forms)] at spelled
    cases same
    exact ⟨forms, rfl, by rw [String.toList_ofList, spelled]⟩
  · rintro ⟨forms, rfl, spelled⟩
    refine ⟨forms.map Form.unit, unitsOfBytes_eq_ok.mpr ⟨forms, rfl, rfl⟩, bind_eq_ok.mpr ⟨text.toList, ?_, ?_⟩⟩
    · exact (charsOfUnits_eq_ok (Form.units_lt forms)).mpr spelled
    · rw [String.ofList_toList]
      rfl

/-! ### Shortest forms -/

namespace Form

/-- No form of the same unit is shorter. -/
def Shortest (form : Form) : Prop :=
  ∀ other : Form, other.unit = form.unit → form.bytes.length ≤ other.bytes.length

/-- What encoding writes for a unit is one of its forms. -/
theorem exists_bytesOfUnit {unit : Nat} (small : unit < 0x10000) :
    ∃ form : Form, form.bytes = bytesOfUnit unit ∧ form.unit = unit := by
  -- it is read as that unit alone, so it is one form
  have read : unitsOfBytes (bytesOfUnit unit) = .ok [unit] := by
    have written := unitsFrom_flatMap (List.forall_mem_singleton.mpr small) 0 []
    rwa [List.flatMap_singleton] at written
  obtain ⟨forms, bytes, units⟩ := unitsOfBytes_eq_ok.mp read
  obtain ⟨form, rfl, same⟩ := List.map_eq_singleton_iff.mp units.symm
  rw [List.flatMap_singleton] at bytes
  exact ⟨form, bytes.symm, same⟩

/-- What encoding writes for a unit is not longer than any form of it. -/
theorem length_bytesOfUnit_le (form : Form) : (bytesOfUnit form.unit).length ≤ form.bytes.length := by
  cases form with
  | one byte plain =>
    have one : 0 < byte.toNat ∧ byte.toNat < 0x80 := by omega
    rw [unit, bytesOfUnit, if_pos one]
    exact Nat.le_refl 1
  | two lead second leads continues =>
    have two : lead.toNat % 32 * 64 + second.toNat % 64 < 0x800 := by omega
    rw [unit, bytesOfUnit, if_pos two]
    split_ifs
    · exact Nat.le_succ 1
    · exact Nat.le_refl 2
  | three lead second third leads continues ends =>
    rw [bytesOfUnit]
    split_ifs
    · exact Nat.le_add_left 1 2
    · exact Nat.le_succ 2
    · exact Nat.le_refl 3

/-- Forms of the same unit and the same length are the same. -/
theorem bytes_eq_of_unit {first second : Form} (same : first.unit = second.unit)
    (long : first.bytes.length = second.bytes.length) : first.bytes = second.bytes := by
  cases first with
  | one byte plain =>
    cases second with
    | one other plainToo =>
      have equal : byte = other := UInt8.toNat_inj.mp same
      rw [bytes, bytes, equal]
    | two | three => cases long
  | two lead next leads continues =>
    cases second with
    | two lead' next' leads' continues' =>
      have units : lead.toNat % 32 * 64 + next.toNat % 64 = lead'.toNat % 32 * 64 + next'.toNat % 64 := same
      have sameLead : lead = lead' := UInt8.toNat_inj.mp (by omega)
      have sameNext : next = next' := UInt8.toNat_inj.mp (by omega)
      rw [bytes, bytes, sameLead, sameNext]
    | one | three => cases long
  | three lead next last leads continues ends =>
    cases second with
    | three lead' next' last' leads' continues' ends' =>
      have units : lead.toNat % 16 * 4096 + next.toNat % 64 * 64 + last.toNat % 64 =
        lead'.toNat % 16 * 4096 + next'.toNat % 64 * 64 + last'.toNat % 64 := same
      have sameLead : lead = lead' := UInt8.toNat_inj.mp (by omega)
      have sameNext : next = next' := UInt8.toNat_inj.mp (by omega)
      have sameLast : last = last' := UInt8.toNat_inj.mp (by omega)
      rw [bytes, bytes, sameLead, sameNext, sameLast]
    | one | two => cases long

/-- **The shortest form of a unit** is what encoding writes for it. -/
theorem shortest_iff {form : Form} : form.Shortest ↔ bytesOfUnit form.unit = form.bytes := by
  constructor
  · intro shortest
    obtain ⟨written, bytes, same⟩ := exists_bytesOfUnit form.unit_lt
    have less := form.length_bytesOfUnit_le
    rw [← bytes] at less ⊢
    exact bytes_eq_of_unit same (Nat.le_antisymm less (shortest written same))
  · intro written other same
    rw [← written, ← same]
    exact other.length_bytesOfUnit_le

/-- Units are not written longer than in any of their forms. -/
theorem length_written_le (forms : List Form) :
    ((forms.map Form.unit).flatMap bytesOfUnit).length ≤ (forms.flatMap Form.bytes).length := by
  induction forms with
  | nil => exact Nat.le_refl 0
  | cons form forms ih =>
    rw [List.map_cons, List.flatMap_cons, List.flatMap_cons, List.length_append, List.length_append]
    exact Nat.add_le_add form.length_bytesOfUnit_le ih

/-- **Forms are written again as they were** exactly if all of them are shortest ones. By induction: where a form and
the forms behind it are not shorter when they are written again, neither is longer than it was. -/
theorem written_eq_iff (forms : List Form) :
    (forms.map Form.unit).flatMap bytesOfUnit = forms.flatMap Form.bytes ↔ ∀ form ∈ forms, form.Shortest := by
  induction forms with
  | nil => exact ⟨fun _ => nofun, fun _ => rfl⟩
  | cons form forms ih =>
    rw [List.map_cons, List.flatMap_cons, List.flatMap_cons, List.forall_mem_cons, ← ih, shortest_iff]
    constructor
    · intro same
      have total := congrArg List.length same
      rw [List.length_append, List.length_append] at total
      have here := form.length_bytesOfUnit_le
      have behind := length_written_le forms
      exact List.append_inj same (by omega)
    · rintro ⟨here, behind⟩
      rw [here, behind]

end Form

/-! ### Exactly its forms -/

/-- **Decoding accepts exactly the forms of modified UTF-8.** Bytes are decoded exactly if they are forms in a row whose
units have surrogates only in pairs. Decoding plain bytes in one step makes no difference. The text is the one that has
these units. Encoded again, it is not longer than the bytes, and the same exactly if every form was the shortest one. -/
theorem decode_exactly (bytes : List UInt8) :
    ((∃ text, decode bytes = .ok text) ↔
      ∃ forms : List Form, bytes = forms.flatMap Form.bytes ∧ WellPaired (forms.map Form.unit)) ∧
    (decode bytes = do
      let units ← unitsOfBytes bytes
      let chars ← charsOfUnits units
      return String.ofList chars) ∧
    ∀ (text : String) (forms : List Form), decode bytes = .ok text → bytes = forms.flatMap Form.bytes →
      text.toList.flatMap unitsOfChar = forms.map Form.unit ∧
      (encode text).length ≤ bytes.length ∧
      (encode text = bytes ↔ ∀ form ∈ forms, form.Shortest) := by
  refine ⟨⟨?_, ?_⟩, decode_eq_units bytes, ?_⟩
  · rintro ⟨text, done⟩
    obtain ⟨forms, rfl, spelled⟩ := decode_eq_ok.mp done
    refine ⟨forms, rfl, (exists_charsOfUnits_iff (Form.units_lt forms)).mp ⟨text.toList, ?_⟩⟩
    exact (charsOfUnits_eq_ok (Form.units_lt forms)).mpr spelled
  · rintro ⟨forms, rfl, paired⟩
    obtain ⟨chars, spelled⟩ := exists_chars paired (Form.units_lt forms)
    exact ⟨String.ofList chars, decode_eq_ok.mpr ⟨forms, rfl, by rw [String.toList_ofList, spelled]⟩⟩
  · rintro text forms done rfl
    obtain ⟨others, same, spelled⟩ := decode_eq_ok.mp done
    have units : others.map Form.unit = forms.map Form.unit := by
      have read := unitsOfBytes_eq_ok.mpr ⟨forms, rfl, rfl⟩
      rw [unitsOfBytes_eq_ok.mpr ⟨others, same, rfl⟩] at read
      exact Except.ok.inj read
    rw [units] at spelled
    rw [encode, spelled]
    exact ⟨rfl, Form.length_written_le forms, Form.written_eq_iff forms⟩

/-- A letter in two bytes, the null character in three, and a character beyond the first plane. -/
def longForms : List Form :=
  [.two 0xC1 0x81 (by decide) (by decide), .three 0xE0 0x80 0x80 (by decide) (by decide) (by decide),
    .three 0xED 0xA0 0xBD (by decide) (by decide) (by decide),
    .three 0xED 0xB8 0x80 (by decide) (by decide) (by decide)]

theorem decode_exactly_long :
    let bytes := [0xC1, 0x81, 0xE0, 0x80, 0x80, 0xED, 0xA0, 0xBD, 0xED, 0xB8, 0x80]
    decode bytes = .ok "A\x00😀" ∧ bytes = longForms.flatMap Form.bytes ∧ (encode "A\x00😀").length ≤ bytes.length ∧
      encode "A\x00😀" ≠ bytes ∧ ¬∀ form ∈ longForms, form.Shortest := by
  intro bytes
  have done : decode bytes = .ok "A\x00😀" := by decide +kernel
  have other : encode "A\x00😀" ≠ bytes := by decide +kernel
  obtain ⟨-, shorter, again⟩ := (decode_exactly bytes).2.2 _ longForms done rfl
  exact ⟨done, rfl, shorter, other, fun shortest => other (again.mpr shortest)⟩

end JarRename.Text
