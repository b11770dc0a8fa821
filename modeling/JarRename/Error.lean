import JarRename.Fault
import JarRename.Mapping.Entry

/-!
**What can go wrong in a run.**

* `IoCause`, `ArchiveCause`: failures of files and of jars;
* `Error`: failures of a run, with their wording (`Error.message`) and the causes behind them
  (`Error.causes`).
-/

namespace JarRename

/-- Failures of files. -/
inductive IoCause where
  /-- There is nothing at the path. -/
  | notFound
  /-- Something on the way is no directory. -/
  | notDirectory
  /-- A directory is in place of a file. -/
  | isDirectory
  /-- A path ends with a place that cannot be replaced. -/
  | busy
  /-- A path or a part of it is too long. -/
  | nameTooLong
  /-- A path to be read has a null character in it. -/
  | nullInName
  /-- A path to be written has a null character in it, or a file has no such position. -/
  | badArgument
  /-- The contents are not text. -/
  | notText
  /-- The contents end too early. -/
  | endOfFile
  /-- Compressed contents break the rules of their format. -/
  | corruptStream
  /-- Compressed contents end too early. -/
  | incompleteStream
  /-- The contents do not have their checksum. -/
  | badChecksum
  /-- No temporary file can be made in a directory. -/
  | noTemporary (cause : IoCause) (directory : String)
  deriving DecidableEq

/-- The wording of failures of files. -/
def IoCause.message : IoCause → String
  | notFound => "No such file or directory (os error 2)"
  | notDirectory => "Not a directory (os error 20)"
  | isDirectory => "Is a directory (os error 21)"
  | busy => "Device or resource busy (os error 16)"
  | nameTooLong => "File name too long (os error 36)"
  | nullInName => "file name contained an unexpected NUL byte"
  | badArgument => "Invalid argument (os error 22)"
  | notText => "stream did not contain valid UTF-8"
  | endOfFile => "failed to fill whole buffer"
  | corruptStream => "corrupt deflate stream"
  | incompleteStream => "incomplete deflate stream"
  | badChecksum => "Invalid checksum"
  | noTemporary cause directory =>
    message cause ++ " at path " ++ Text.quoted (directory ++ "/.tmp")

/-- Failures of jars. -/
inductive ArchiveCause where
  /-- The file is too short for a jar. -/
  | badHeader
  /-- The file has no directory of entries. -/
  | noDirectory
  /-- The directory of entries does not fit in front of its end. -/
  | badExtent
  /-- The jar is a part of a larger one. -/
  | severalDisks
  /-- The end of the directory of a large jar does not fit into the file. -/
  | noRoomForLargeEnd
  /-- The end of the directory of a large jar is missing. -/
  | noLargeEnd
  /-- The directory of entries starts beyond every file. -/
  | unreachableDirectory
  /-- The directory of entries is malformed. -/
  | badDirectory
  /-- An entry starts beyond every file. -/
  | headerTooFar
  /-- The header in front of the contents of an entry is malformed. -/
  | badEntryHeader
  /-- An entry is stored in an unknown way. -/
  | unknownMethod
  /-- An entry is encrypted. -/
  | encrypted
  /-- An entry is encrypted and does not tell how. -/
  | noCipher
  /-- What tells of the encryption of an entry has a wrong length. -/
  | cipherLength
  /-- An encryption is of another vendor. -/
  | cipherVendor
  /-- An encryption is of another version. -/
  | cipherVersion
  /-- An encryption is of another strength. -/
  | cipherStrength
  /-- The file cannot be read. -/
  | io (cause : IoCause)
  deriving DecidableEq

/-- The wording of failures of jars. -/
def ArchiveCause.message : ArchiveCause → String
  | badHeader => "invalid Zip archive: Invalid zip header"
  | noDirectory => "invalid Zip archive: Could not find central directory end"
  | badExtent => "invalid Zip archive: Invalid central directory size or offset"
  | severalDisks => "unsupported Zip archive: Support for multi-disk files is not implemented"
  | noRoomForLargeEnd => "invalid Zip archive: File cannot contain ZIP64 central directory end"
  | noLargeEnd => "invalid Zip archive: Could not find ZIP64 central directory end"
  | unreachableDirectory => "invalid Zip archive: Could not seek to start of central directory"
  | badDirectory => "invalid Zip archive: Invalid Central Directory header"
  | headerTooFar => "invalid Zip archive: Archive header is too large"
  | badEntryHeader => "invalid Zip archive: Invalid local file header"
  | unknownMethod => "unsupported Zip archive: Compression method not supported"
  | encrypted => "unsupported Zip archive: Password required to decrypt file"
  | noCipher => "invalid Zip archive: AES encryption without AES extra data field"
  | cipherLength => "unsupported Zip archive: AES extra data field has an unsupported length"
  | cipherVendor => "invalid Zip archive: Invalid AES vendor"
  | cipherVersion => "invalid Zip archive: Invalid AES vendor version"
  | cipherStrength => "invalid Zip archive: Invalid AES encryption strength"
  | io cause => cause.message

/-- The wordings of a failure of a jar and of the failure of a file behind it. -/
def ArchiveCause.causes (cause : ArchiveCause) : List String :=
  cause.message ::
    match cause with
    | io behind => [behind.message]
    | _ => []

/-- Failures of a run. -/
inductive Error where
  /-- A class is malformed. -/
  | malformedClass (entry : String) (cause : Fault)
  /-- A mapping is malformed. -/
  | mapping (error : MappingError)
  /-- An entry of the classpath cannot be opened. -/
  | classpath (path : String) (cause : Error)
  /-- A jar cannot be read. -/
  | archive (path : String) (cause : ArchiveCause)
  /-- A file cannot be read or written. -/
  | io (path : String) (cause : IoCause)
  /-- Two entries would get one name. -/
  | duplicate (name : String)
  deriving DecidableEq

namespace Error

/-- The wording of a failure. -/
def message : Error → String
  | malformedClass entry cause => "malformed class in " ++ entry ++ ": " ++ cause.message
  | mapping error => s!"mapping error on line {error.line}: " ++ error.cause.message
  | classpath path cause => "cannot open classpath entry " ++ path ++ ": " ++ message cause
  | archive path cause => "archive error in " ++ path ++ ": " ++ cause.message
  | io path cause => "IO error on " ++ path ++ ": " ++ cause.message
  | duplicate name => "two entries would both be written as " ++ name

/-- The wordings of the causes behind a failure, from the outermost to the innermost. -/
def causes : Error → List String
  | malformedClass _ cause => [cause.message]
  | mapping _ => []
  | classpath _ cause => message cause :: causes cause
  | archive _ cause => cause.causes
  | io _ cause => [cause.message]
  | duplicate _ => []

end Error

end JarRename
