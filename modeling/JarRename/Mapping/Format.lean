import JarRename.Text.Blank

/-!
**Recognising mapping formats.**

The format of a mapping shows in its first lines: lines of SRG start with a mark, records of ProGuard
contain an arrow, and TSRG indents members by tabs.

* `Mapping.Format`: the formats;
* `Mapping.Format.detect`: the format of a text.
-/

namespace JarRename.Mapping

/-- The formats of mappings. -/
inductive Format where
  /-- Lines that start with `CL:`, `FD:` or `MD:`. -/
  | srg
  /-- Lines of bare words. -/
  | csrg
  /-- Lines for classes, each followed by indented lines for its members. -/
  | tsrg
  /-- Records such as `readable -> obfuscated:`. -/
  | proGuard
  deriving DecidableEq

namespace Format

/-- The name of a format in messages. -/
def name : Format → String
  | srg => "Srg"
  | csrg => "Csrg"
  | tsrg => "Tsrg"
  | proGuard => "Proguard"

/-- How many lines show the format. -/
def sampleSize : Nat := 64

/-- The lines that show the format: without white space at their ends, and neither empty nor comments. -/
def sample (text : List Char) : List (List Char) :=
  (((Text.lines text).map Text.trimEnd).filter fun line =>
    !line.isEmpty && (Text.trimStart line).head? != some '#').take sampleSize

/-- Whether a line starts with a mark of SRG. -/
def isMarked (line : List Char) : Bool :=
  ["PK: ", "CL: ", "FD: ", "MD: "].any fun mark => mark.toList.isPrefixOf line

/-- Whether a line contains an arrow. -/
def hasArrow (line : List Char) : Bool :=
  Text.occursIn " -> ".toList line

/-- The format that lines show: the first mark or arrow decides, then whether any line starts with a
tab. -/
def ofSample (lines : List (List Char)) : Format :=
  match lines.find? fun line => isMarked line || hasArrow line with
  | some line => if isMarked line then srg else proGuard
  | none => if lines.any fun line => line.head? == some '\t' then tsrg else csrg

/-- The format of a text. -/
def detect (text : String) : Format :=
  ofSample (sample text.toList)

end Format

end JarRename.Mapping
