import JarRename.Draft
import JarRename.Main
import JarRename.Proofs.Outcome
import JarRename.Proofs.Pool.Lookup
import JarRename.Proofs.Reading
import JarRename.Proofs.ClassFile.Format
import JarRename.Proofs.Descriptor
import JarRename.Proofs.Text.ModifiedUtf8
import JarRename.Proofs.Bytes.Patch
import JarRename.Proofs.ClassFile.Contents
import JarRename.Proofs.Renaming.Constants
import JarRename.Proofs.Renaming.Sites
import JarRename.Proofs.Renaming.Validity
import JarRename.Proofs.Mapping.Reverse
import JarRename.Proofs.Hierarchy.Renamed
import JarRename.Proofs.Resolver.RoundTrip
import JarRename.Proofs.Files
import JarRename.Proofs.Resolver.Agreement
import JarRename.Proofs.Archive
import JarRename.Proofs.Mapping.Spelling
import JarRename.Proofs.Renaming.Unmapped
import JarRename.Proofs.Renaming.Header
import JarRename.Proofs.Hierarchy.Stage
import JarRename.Proofs.Resolver.Superclass
import JarRename.Proofs.Pipeline
import JarRename.Proofs.Site.Placement
import JarRename.Proofs.Code.Decoding
import JarRename.Proofs.Signature.Descriptors
import JarRename.Proofs.Signature.Renamed
import JarRename.Proofs.Descriptor.Laws
import JarRename.Proofs.Text.Forms
import JarRename.Proofs.Mapping.Grouped
import JarRename.Proofs.Mapping.Insertion
import JarRename.Proofs.Mapping.Order
import JarRename.Proofs.Mapping.Comments
import JarRename.Proofs.Mapping.Namespaces
import JarRename.Proofs.Resolver.Unrelated
import JarRename.Proofs.Hierarchy.Memory
import JarRename.Proofs.Hierarchy.Indexed
import JarRename.Proofs.ClassFile.Truncated
import JarRename.Proofs.Renaming.InnerName
import JarRename.Proofs.Renaming.Count
import JarRename.Proofs.Renaming.Reached
import JarRename.Proofs.Renaming.Failure
import JarRename.Proofs.Draft.Finish
import JarRename.Proofs.Pool.Inserted
import JarRename.Proofs.Pool.Interned
import JarRename.Proofs.Draft.Interned
import JarRename.Proofs.Site.Depth
import JarRename.Proofs.Site.Nested
