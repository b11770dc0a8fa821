import JarRename.Bytes.Word

/-!
**Compressed contents.**

Compressed bytes are a sequence of blocks of bits, the least significant bit of a byte first. A block holds
plain bytes, or symbols in prefix codes: a symbol is a byte, the end of the block, or a length. A length is
followed by a distance, and both together stand for bytes that were there before. The codes of a block are
fixed or given in front of it by their lengths.

* `Inflate.Code`: prefix codes given by the lengths of their words;
* `Inflate.Failure`: why bytes are not compressed ones;
* `Jar.inflate`: the bytes that were compressed;
* `Jar.deflate`: bytes in plain blocks, which every reader of compressed bytes accepts.
-/

namespace JarRename.Jar

namespace Inflate

/-- Why bytes are not compressed ones. -/
inductive Failure where
  /-- They break a rule. -/
  | corrupt
  /-- They end too early. -/
  | incomplete
  deriving DecidableEq

/-! ### Bits -/

/-- Bits to be read: what is left of a byte, and the bytes after it. -/
structure Bits where
  current : Nat
  left : Nat
  rest : Bytes
  deriving DecidableEq

/-- A reader of bits. -/
abbrev Scan (α : Type) := StateT Bits (Except Failure) α

/-- Fails because a rule is broken. -/
def broken {α : Type} : Scan α := fun _ => .error .corrupt

/-- A value that is there unless a rule is broken. -/
def known {α : Type} (value : Option α) : Scan α := fun bits =>
  match value with
  | some value => .ok (value, bits)
  | none => .error .corrupt

/-- The next bit. -/
def bit : Scan Nat := fun bits =>
  if bits.left = 0 then
    match bits.rest with
    | [] => .error .incomplete
    | byte :: rest => .ok (byte.toNat % 2, { current := byte.toNat / 2, left := 7, rest })
  else
    .ok (bits.current % 2, { bits with current := bits.current / 2, left := bits.left - 1 })

/-- A number of several bits, the least significant one first. -/
def number : Nat → Scan Nat
  | 0 => pure 0
  | size + 1 => do
    let low ← bit
    let high ← number size
    return low + 2 * high

/-- The next `size` bytes, from the next whole byte on. -/
def block (size : Nat) : Scan Bytes := fun bits =>
  let taken := bits.rest.take size
  if taken.length = size then
    .ok (taken, { current := 0, left := 0, rest := bits.rest.drop size })
  else .error .incomplete

/-! ### Codes -/

/-- A prefix code: how many words there are of each length from one on, and the symbols in order of their
words. -/
structure Code where
  counts : List Nat
  symbols : Array Nat
  deriving DecidableEq

/-- The length of the longest words. -/
def maxLength : Nat := 15

/-- The code whose words have given lengths, by symbol. Symbols of length zero have no word. -/
def Code.ofLengths (lengths : List Nat) : Code :=
  let sizes := (List.range maxLength).map (· + 1)
  let symbolsOf := fun size =>
    lengths.zipIdx.filterMap fun (length, symbol) => if length = size then some symbol else none
  { counts := sizes.map fun size => (symbolsOf size).length
    symbols := (sizes.flatMap symbolsOf).toArray }

/-- Whether every sequence of bits starts with a word, and with one only. -/
def Code.isComplete (code : Code) : Bool :=
  code.counts.foldl (fun total count => (total + count) * 2) 0 == Nat.pow 2 (maxLength + 1)

/-- Whether a code can be that of a block: it is complete, or it has one word at most. -/
def Code.isUsable (code : Code) : Bool :=
  code.isComplete || code.symbols.size ≤ 1

/-- The symbol of the word that goes on with the next bits. Of the words as long as the next one, the first is
`first`, and `index` symbols have shorter words. -/
def decodeFrom (symbols : Array Nat) (word first index : Nat) : List Nat → Scan Nat
  | [] => broken
  | count :: counts => do
    let word := word + (← bit)
    if word < first + count then known symbols[index + (word - first)]?
    else decodeFrom symbols (word * 2) ((first + count) * 2) (index + count) counts

/-- The symbol of the next word. -/
def Code.decode (code : Code) : Scan Nat :=
  decodeFrom code.symbols 0 0 0 code.counts

/-- The codes of a block: for bytes and lengths, and for distances. -/
structure Codes where
  literals : Code
  distances : Code

/-- The fixed codes. -/
def fixedCodes : Codes where
  literals := .ofLengths (List.replicate 144 8 ++ List.replicate 112 9 ++ List.replicate 24 7 ++
    List.replicate 8 8)
  distances := .ofLengths (List.replicate 32 5)

/-- The order in which the lengths of the code for lengths are given. -/
def lengthOrder : List Nat :=
  [16, 17, 18, 0, 8, 7, 9, 6, 10, 5, 11, 4, 12, 3, 13, 2, 14, 1, 15]

/-- Lengths up to a total, after those found before them (latest first), with at most `limit` symbols. Three
symbols repeat a length: the last one, or zero for a short or a long time. -/
def readLengths (code : Code) (total : Nat) : Nat → List Nat → Scan (List Nat)
  | 0, _ => broken
  | limit + 1, found =>
    if found.length = total then return found.reverse
    else if total < found.length then broken
    else do
      let symbol ← code.decode
      if symbol < 16 then readLengths code total limit (symbol :: found)
      else if symbol = 16 then
        match found with
        | [] => broken
        | last :: _ =>
          let count ← number 2
          readLengths code total limit (List.replicate (count + 3) last ++ found)
      else if symbol = 17 then
        let count ← number 3
        readLengths code total limit (List.replicate (count + 3) 0 ++ found)
      else
        let count ← number 7
        readLengths code total limit (List.replicate (count + 11) 0 ++ found)

/-- The lengths of a code in the order of its symbols. -/
def orderedLengths (given : List Nat) : List Nat :=
  let pairs := lengthOrder.zip given
  (List.range 19).map fun symbol => (pairs.lookup symbol).getD 0

/-- Several numbers of three bits. -/
def smallNumbers : Nat → Scan (List Nat)
  | 0 => pure []
  | count + 1 => do
    let first ← number 3
    return first :: (← smallNumbers count)

/-- The most symbols for bytes and lengths. -/
def maxLiterals : Nat := 286

/-- The most symbols for distances. -/
def maxDistances : Nat := 30

/-- The lengths of the words of both codes, end to end. -/
def readBothLengths (literalCount distanceCount lengthCount : Nat) : Scan (List Nat) := do
  let code := Code.ofLengths (orderedLengths (← smallNumbers lengthCount))
  let total := literalCount + distanceCount
  if code.isComplete then readLengths code total (total + 1) [] else broken

/-- The codes given in front of a block. -/
def readCodes : Scan Codes := do
  let literalCount := (← number 5) + 257
  let distanceCount := (← number 5) + 1
  let lengthCount := (← number 4) + 4
  if maxLiterals < literalCount || maxDistances < distanceCount then broken
  else
    let lengths ← readBothLengths literalCount distanceCount lengthCount
    let literals := Code.ofLengths (lengths.take literalCount)
    let distances := Code.ofLengths (lengths.drop literalCount)
    if literals.isUsable && distances.isUsable then return { literals, distances } else broken

/-! ### Blocks -/

/-- The least length of a symbol, and how many bits are added to it. -/
def lengthRanges : Array (Nat × Nat) :=
  #[(3, 0), (4, 0), (5, 0), (6, 0), (7, 0), (8, 0), (9, 0), (10, 0), (11, 1), (13, 1), (15, 1), (17, 1),
    (19, 2), (23, 2), (27, 2), (31, 2), (35, 3), (43, 3), (51, 3), (59, 3), (67, 4), (83, 4), (99, 4),
    (115, 4), (131, 5), (163, 5), (195, 5), (227, 5), (258, 0)]

/-- The least distance of a symbol, and how many bits are added to it. -/
def distanceRanges : Array (Nat × Nat) :=
  #[(1, 0), (2, 0), (3, 0), (4, 0), (5, 1), (7, 1), (9, 2), (13, 2), (17, 3), (25, 3), (33, 4), (49, 4),
    (65, 5), (97, 5), (129, 6), (193, 6), (257, 7), (385, 7), (513, 8), (769, 8), (1025, 9), (1537, 9),
    (2049, 10), (3073, 10), (4097, 11), (6145, 11), (8193, 12), (12289, 12), (16385, 13), (24577, 13)]

/-- A number in the range of a symbol. -/
def inRange (ranges : Array (Nat × Nat)) (symbol : Nat) : Scan Nat := do
  let (least, size) ← known ranges[symbol]?
  return least + (← number size)

/-- The bytes with `length` bytes more, each of which stands `distance` bytes before. Before all bytes there are
zeros. -/
def copy (distance : Nat) : Nat → Array UInt8 → Array UInt8
  | 0, out => out
  | length + 1, out =>
    let byte := if distance ≤ out.size then out.getD (out.size - distance) 0 else 0
    copy distance length (out.push byte)

/-- The bytes after those of the symbols of a block, of which there are at most `limit`. -/
def symbols (codes : Codes) : Nat → Array UInt8 → Scan (Array UInt8)
  | 0, _ => broken
  | limit + 1, out => do
    let symbol ← codes.literals.decode
    if symbol < 256 then symbols codes limit (out.push (UInt8.ofNat symbol))
    else if symbol = 256 then return out
    else
      let length ← inRange lengthRanges (symbol - 257)
      let distance ← inRange distanceRanges (← codes.distances.decode)
      symbols codes limit (copy distance length out)

/-- The bytes after those of a plain block, which has its length and the complement of it in front. -/
def plainBlock (out : Array UInt8) : Scan (Array UInt8) := do
  match ← block 4 with
  | [a, b, c, d] =>
    let length := a.toNat + 256 * b.toNat
    if length + (c.toNat + 256 * d.toNat) = 65535 then return out ++ (← block length)
    else broken
  | _ => broken

/-- The bytes after those of blocks, of which there are at most `limit`. Every block and every symbol takes a
bit. -/
def blocks (limit : Nat) : Nat → Array UInt8 → Scan (Array UInt8)
  | 0, _ => broken
  | count + 1, out => do
    let isLast ← bit
    let kind ← number 2
    let out ←
      if kind = 0 then plainBlock out
      else if kind = 1 then symbols fixedCodes limit out
      else if kind = 2 then symbols (← readCodes) limit out
      else broken
    if isLast = 1 then return out else blocks limit count out

end Inflate

/-- The bytes that were compressed. -/
def inflate (data : Bytes) : Except Inflate.Failure Bytes := do
  let limit := 8 * data.length + 1
  let (out, _) ← Inflate.blocks limit limit #[] { current := 0, left := 0, rest := data }
  return out.toList

/-- The most bytes of a plain block. -/
def plainSize : Nat := 65535

/-- The plain block of at most `plainSize` bytes. -/
def plainBlockOf (isLast : Bool) (bytes : Bytes) : Bytes :=
  let length := bytes.length
  let rest := plainSize - length
  (if isLast then 1 else 0) :: UInt8.ofNat length :: UInt8.ofNat (length / 256) :: UInt8.ofNat rest ::
    UInt8.ofNat (rest / 256) :: bytes

/-- Bytes in plain blocks. -/
def deflate (bytes : Bytes) : Bytes :=
  if _large : plainSize < bytes.length then
    plainBlockOf false (bytes.take plainSize) ++ deflate (bytes.drop plainSize)
  else plainBlockOf true bytes
termination_by bytes.length
decreasing_by
  simp only [List.length_drop]
  have : 0 < plainSize := by decide
  omega

end JarRename.Jar
