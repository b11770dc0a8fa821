import JarRename.Pool.Kind
import JarRename.Text.Quoted

/-!
**What can be wrong with a class file.**

Every failure of reading, checking, renaming or writing a class file has a cause, and every cause
has one wording.

* `Fault`: the causes;
* `Fault.message`: their wording.
-/

namespace JarRename

/-- The widths of the numbers read from bytes. -/
inductive Width where
  | u8
  | u16
  | u32
  | u64
  | i8
  | i16
  | i32
  deriving DecidableEq

/-- The name of a width in messages. -/
def Width.name : Width → String
  | u8 => "u8"
  | u16 => "u16"
  | u32 => "u32"
  | u64 => "u64"
  | i8 => "i8"
  | i16 => "i16"
  | i32 => "i32"

/-- The causes of failure in the bytes, the names and the structure of a class file. -/
inductive Fault where
  /-- A number is cut off at the end of the bytes. -/
  | outOfBytes (width : Width) (remaining : Nat)
  /-- A block of bytes is cut off at the end of the bytes. -/
  | outOfBlock (length remaining : Nat)
  /-- A length is too large for its field. -/
  | tooLong (length : Nat) (width : Width)
  /-- An index cannot be overwritten because it lies outside the bytes. -/
  | patchOutside (offset size : Nat)
  /-- An index cannot be read because it lies outside the bytes. -/
  | peekOutside (offset size : Nat)
  /-- A byte inside an encoded character is not a continuation. -/
  | badContinuation (position : Nat)
  /-- No encoded character starts with this byte. -/
  | badLead (byte : UInt8) (position : Nat)
  /-- Half of a surrogate pair stands alone. -/
  | loneSurrogate
  /-- A method descriptor has no opening parenthesis. -/
  | notOpened (descriptor : String)
  /-- A method descriptor has no closing parenthesis. -/
  | notClosed (descriptor : String)
  /-- A descriptor goes on after its end. -/
  | trailing (descriptor : String)
  /-- A type is missing at the end of a descriptor. -/
  | noType
  /-- A class name in a descriptor has no semicolon. -/
  | openClassName (name : String)
  /-- A class name in a descriptor is empty. -/
  | emptyClassName
  /-- No type starts with this character. -/
  | unknownType (start : Char)
  /-- A signature stops too early. -/
  | signatureEnded (signature : String)
  /-- A signature has another character than the only one that can stand there. -/
  | signatureExpected (signature : String) (expected : Char) (position : Nat) (found : Char)
  /-- A type parameter of a signature has no name. -/
  | unnamedParameter (signature : String)
  /-- No type of a signature starts with this character. -/
  | signatureUnexpected (signature : String) (found : Char) (position : Nat)
  /-- A constant does not fit into the pool. -/
  | poolOverflow (limit : Nat)
  /-- An index points outside the pool. -/
  | outOfPool (index : UInt16) (slots : Nat)
  /-- An index points at the upper half of a constant. -/
  | upperHalf (index : UInt16)
  /-- An index points at a constant of another kind. -/
  | wrongKind (expected : Kind) (index : UInt16) (found : Kind)
  /-- An index points at a constant that is no member. -/
  | notMember (index : UInt16) (found : Kind)
  /-- No kind of constant has this tag. -/
  | unknownTag (tag : UInt8)
  /-- A constant of the pool breaks a rule. -/
  | badConstant (index : UInt16) (cause : Fault)
  /-- There is no such kind of method handle. -/
  | unknownHandle (kind : UInt8)
  /-- A method handle of this kind cannot point at such a constant. -/
  | handleTarget (kind : UInt8) (target : Kind)
  /-- The first bytes are not those of a class file. -/
  | badMagic (magic : UInt32)
  /-- The version of the class file is out of range. -/
  | badVersion (major minor : UInt16)
  /-- The declared number of slots is zero. -/
  | noPool
  /-- The last constant takes a slot more than declared. -/
  | poolOverrun (slots : Nat)
  /-- Bytes follow the end of the class file. -/
  | extraBytes
  /-- Bytes follow the end of an attribute's contents. -/
  | trailingBytes (name : String)
  /-- The code of a method breaks a rule. -/
  | badCode (name descriptor : String) (cause : Fault)
  /-- An operand is cut off at the end of the code. -/
  | operandOutside (position : Nat)
  /-- There is no such opcode. -/
  | unknownOpcode (opcode : UInt8)
  /-- The cases of a table switch are counted backwards. -/
  | tableBackwards (pc : Nat)
  /-- The cases of a lookup switch are counted below zero. -/
  | negativePairs (pc : Nat)
  /-- The prefix for wide operands stands before an opcode that has no wide form. -/
  | notWidened (opcode : UInt8)
  /-- The last instruction goes on after the end of the code. -/
  | codeOverrun (excess : Nat)
  /-- An instruction uses a constant of a kind that it does not accept. -/
  | badOperand (opcode : UInt8) (pc : Nat) (found : Kind) (index : UInt16)
  /-- A dynamic constant has no table of bootstrap methods to point into. -/
  | noBootstraps
  /-- A dynamic constant points outside the table of bootstrap methods. -/
  | bootstrapOutside (index : UInt16)
  /-- The contents of an attribute break a rule. -/
  | badAttribute (name : String) (cause : Fault)
  /-- A nested attribute goes on after the end of the one around it. -/
  | nestedOverrun (length : Nat)
  /-- The contents of an attribute are cut off. -/
  | truncated (offset : Nat)
  /-- No element value has this tag. -/
  | unknownElement (tag : UInt8)
  /-- No type annotation has this target. -/
  | unknownTarget (target : UInt8)
  /-- A class has no field at this position. -/
  | noField (position : Nat)
  /-- A class has no method at this position. -/
  | noMethod (position : Nat)
  /-- The owner of attributes has none at this position. -/
  | noAttribute (position : Nat)
  /-- A value of this sort cannot be stored at the location. -/
  | unfit (location : String)
  deriving DecidableEq

namespace Fault

/-- The wording of a cause. -/
def message : Fault → String
  | outOfBytes width remaining => s!"out of bytes reading {width.name} ({remaining} remaining)"
  | outOfBlock length remaining =>
    s!"out of bytes reading {length} byte block ({remaining} remaining)"
  | tooLong length width => s!"{length} does not fit in a {width.name}"
  | patchOutside offset size => s!"patch offset {offset} out of bounds ({size} bytes)"
  | peekOutside offset size => s!"read offset {offset} out of bounds ({size} bytes)"
  | badContinuation position => s!"bad continuation byte at {position}"
  | badLead byte position =>
    "invalid modified utf-8 byte " ++ Text.hex 2 byte.toNat ++ s!" at {position}"
  | loneSurrogate => "invalid utf-16: lone surrogate found"
  | notOpened descriptor => "descriptor " ++ Text.quoted descriptor ++ " did not start with ("
  | notClosed descriptor => "descriptor " ++ Text.quoted descriptor ++ " has no closing )"
  | trailing descriptor => "descriptor " ++ Text.quoted descriptor ++ " has trailing characters"
  | noType => "no more chars"
  | openClassName name => "class name " ++ Text.quoted name ++ " is missing a ;"
  | emptyClassName => "empty class name in descriptor"
  | unknownType start => s!"unknown type {start}"
  | signatureEnded signature => "signature " ++ Text.quoted signature ++ " ended unexpectedly"
  | signatureExpected signature expected position found =>
    "signature " ++ Text.quoted signature ++
      s!": expected '{expected}' at {position} but found '{found}'"
  | unnamedParameter signature =>
    "signature " ++ Text.quoted signature ++ " has an unnamed type parameter"
  | signatureUnexpected signature found position =>
    "signature " ++ Text.quoted signature ++ s!": unexpected '{found}' at {position}"
  | poolOverflow limit => s!"constant pool overflow, cannot grow past {limit} slots"
  | outOfPool index slots => s!"constant pool index #{index} out of range (1..={slots})"
  | upperHalf index => s!"constant pool index #{index} is the upper half of a wide entry"
  | wrongKind expected index found =>
    s!"expected {expected.name} at #{index} but found {found.name}"
  | notMember index found => s!"expected a member reference at #{index} but found {found.name}"
  | unknownTag tag => s!"{tag} is an unknown constant pool tag"
  | badConstant index cause => s!"constant pool entry #{index} is invalid: " ++ message cause
  | unknownHandle kind => s!"unknown method handle kind {kind}"
  | handleTarget kind target => s!"method handle of kind {kind} cannot reference a {target.name}"
  | badMagic magic => "invalid magic value '" ++ Text.hex 8 magic.toNat ++ "'"
  | badVersion major minor => s!"unsupported class file version {major}.{minor}"
  | noPool => "constant_pool_count must be at least 1"
  | poolOverrun slots => s!"constant pool declared {slots} slots but a wide entry overran it"
  | extraBytes => "classfile has extra bytes at the end"
  | trailingBytes name => name ++ " attribute has trailing bytes"
  | badCode name descriptor cause => "bad code in " ++ name ++ descriptor ++ ": " ++ message cause
  | operandOutside position =>
    s!"instruction operand at {position} runs past the end of the code"
  | unknownOpcode opcode => "unknown opcode " ++ Text.hex 2 opcode.toNat
  | tableBackwards pc => s!"tableswitch at {pc} has high < low"
  | negativePairs pc => s!"lookupswitch at {pc} has a negative pair count"
  | notWidened opcode => "wide cannot modify opcode " ++ Text.hex 2 opcode.toNat
  | codeOverrun excess => s!"last instruction overruns the code by {excess} bytes"
  | badOperand opcode pc found index =>
    "opcode " ++ Text.hex 2 opcode.toNat ++
      s!" at {pc} cannot use a {found.name} constant (#{index})"
  | noBootstraps => "dynamic constant without a BootstrapMethods attribute"
  | bootstrapOutside index => s!"bootstrap method {index} out of range"
  | badAttribute name cause => name ++ " attribute is malformed: " ++ message cause
  | nestedOverrun length => s!"nested attribute of {length} bytes overruns its parent"
  | truncated offset => s!"attribute truncated at offset {offset}"
  | unknownElement tag => "unknown element value tag " ++ Text.quotedChar (Char.ofUInt8 tag)
  | unknownTarget target => "unknown type annotation target " ++ Text.hex 2 target.toNat
  | noField position => s!"no field at {position}"
  | noMethod position => s!"no method at {position}"
  | noAttribute position => s!"no attribute at {position}"
  | unfit location => "cannot rewrite " ++ location ++ " with this kind of value"

end Fault

end JarRename
