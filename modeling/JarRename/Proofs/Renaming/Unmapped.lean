import JarRename.Proofs.Archive
import JarRename.Proofs.Descriptor
import JarRename.Proofs.Signature

/-!
**Classes without mapped names stay as they are.**

A symbol is replaced only if a class, a field or a method that it asks about has a new name. Descriptors and
signatures are read and written again on the way, so a text that is none makes the renaming fail; a text that is one
comes back as it was, except for what is left behind a complete method signature.

* `Question`, `Symbol.questions`: what a symbol asks a renamer about;
* `Symbol.Malformed`, `ClassFile.Rejects`: why a renaming without new names fails;
* `Renamer.replacement?_of_unmapped`: a symbol none of whose questions has an answer;
* `ClassFile.renameFrom_of_unmapped`, `ClassFile.renameBytes_unmapped`: a run over such symbols, and the bytes of a
  class that has only such.
-/

namespace JarRename

/-! ### Questions -/

/-- What a renamer is asked about. -/
inductive Question where
  | ofClass (name : String)
  | ofField (owner name descriptor : String) (declared : Option Flags)
  | ofMethod (owner name descriptor : String) (declared : Option Flags)
  deriving DecidableEq

/-- The new name in the answer to a question. -/
def Renamer.answer (renamer : Renamer) : Question → Option String
  | .ofClass name => renamer.mapClass name
  | .ofField owner name descriptor declared => renamer.mapField owner name descriptor declared
  | .ofMethod owner name descriptor declared => renamer.mapMethod owner name descriptor declared

namespace Symbol

/-- The descriptor in a symbol. A record component has one that is not renamed with its name. -/
def descriptor? : Symbol → Option String
  | ofClass name => if Renamer.isArray name then some name else none
  | ofField _ _ descriptor _ | ofMethod _ _ descriptor _ | enclosingMethod _ _ descriptor => some descriptor
  | ofDescriptor descriptor => some descriptor
  | callSite site => some site.descriptor
  | ofSignature _ | innerName _ _ | recordComponent _ _ _ => none

/-- The classes that a symbol asks about. -/
def classNames : Symbol → List String
  | ofClass name => if Renamer.isArray name then Descriptor.classNames name else [name]
  | ofField _ _ descriptor _ | ofMethod _ _ descriptor _ | enclosingMethod _ _ descriptor =>
    Descriptor.classNames descriptor
  | ofDescriptor descriptor => Descriptor.classNames descriptor
  | callSite site => Descriptor.classNames site.descriptor
  | ofSignature signature => Signature.classNames signature
  | innerName inner _ => [inner]
  | recordComponent _ _ _ => []

/-- The member that a symbol asks about. -/
def member? : Symbol → Option Question
  | ofField owner name descriptor declared => some (.ofField owner name descriptor declared)
  | ofMethod owner name descriptor declared => some (.ofMethod owner name descriptor declared)
  | enclosingMethod owner name descriptor => some (.ofMethod owner name descriptor none)
  | recordComponent owner name descriptor => some (.ofField owner name descriptor (some Renamer.componentFlags))
  | callSite site =>
    site.lambda.map fun lambda => .ofMethod lambda.interface site.name lambda.methodDescriptor none
  | ofClass _ | ofDescriptor _ | ofSignature _ | innerName _ _ => none

/-- What a symbol asks a renamer about. -/
def questions (symbol : Symbol) : List Question :=
  symbol.member?.toList ++ symbol.classNames.map .ofClass

/-- A text in a symbol is no descriptor, or no signature, for a cause. -/
def Malformed (symbol : Symbol) (cause : Fault) : Prop :=
  (∃ descriptor, symbol.descriptor? = some descriptor ∧ Descriptor.Malformed descriptor cause) ∨
    ∃ signature, symbol = .ofSignature signature ∧ Signature.parse signature = .error cause

/-- No characters are left behind a complete method signature in a symbol. -/
def Complete : Symbol → Prop
  | ofSignature signature => Signature.leftover signature = []
  | _ => True

instance : DecidablePred Complete
  | ofSignature signature => inferInstanceAs (Decidable (Signature.leftover signature = []))
  | ofClass _ | ofField .. | ofMethod .. | ofDescriptor _ | innerName .. | recordComponent .. | enclosingMethod ..
  | callSite _ => inferInstanceAs (Decidable True)

/-- A renamer has no new name for anything that a symbol asks about. -/
def Unmapped (renamer : Renamer) (symbol : Symbol) : Prop :=
  ∀ question ∈ symbol.questions, renamer.answer question = none

instance (renamer : Renamer) (symbol : Symbol) : Decidable (symbol.Unmapped renamer) :=
  inferInstanceAs (Decidable (∀ question ∈ symbol.questions, renamer.answer question = none))

variable {renamer : Renamer} {symbol : Symbol}

theorem Unmapped.mapClass (unmapped : symbol.Unmapped renamer) :
    ∀ name ∈ symbol.classNames, renamer.mapClass name = none := fun name asked =>
  unmapped (.ofClass name) (List.mem_append_right _ (List.mem_map_of_mem asked))

theorem Unmapped.member (unmapped : symbol.Unmapped renamer) :
    ∀ question, symbol.member? = some question → renamer.answer question = none := fun question asked =>
  unmapped question (List.mem_append_left _ (Option.mem_toList.mpr asked))

end Symbol

/-! ### Symbols without new names -/

namespace Renamer

variable {renamer : Renamer} {symbol : Symbol}

/-- What is replaced by itself is not replaced. -/
theorem changed_self (text : String) : changed text text = none :=
  if_pos rfl

theorem changedMember_self (name descriptor : String) : changedMember name descriptor none descriptor = none := by
  rw [changedMember, Option.getD_none, if_pos (by simp)]

/-- A descriptor in which no class is renamed. -/
theorem mapDescriptor_of_unmapped {descriptor : String} (inside : symbol.descriptor? = some descriptor)
    (unmapped : ∀ name ∈ Descriptor.classNames descriptor, renamer.mapClass name = none) :
    renamer.mapDescriptor descriptor = .ok descriptor ∨
      ∃ cause, renamer.mapDescriptor descriptor = .error cause ∧ symbol.Malformed cause := by
  have keeps := Descriptor.rename_of_kept fun name asked => renameOrKeep_of_unmapped (unmapped name asked)
  rcases keeps with kept | ⟨cause, failed, malformed⟩
  · exact .inl kept
  · exact .inr ⟨cause, failed, .inl ⟨descriptor, inside, malformed⟩⟩

/-- A class constant in which no class is renamed. -/
theorem mapType_of_unmapped {name : String}
    (unmapped : ∀ inside ∈ (Symbol.ofClass name).classNames, renamer.mapClass inside = none) :
    renamer.mapType name = .ok none ∨
      ∃ cause, renamer.mapType name = .error cause ∧ (Symbol.ofClass name).Malformed cause := by
  unfold mapType
  split_ifs with array
  · have classes : (Symbol.ofClass name).classNames = Descriptor.classNames name := if_pos array
    rw [classes] at unmapped
    refine bind_of_or (mapDescriptor_of_unmapped (if_pos array) unmapped) ?_
    rw [if_pos rfl]
    rfl
  · have classes : (Symbol.ofClass name).classNames = [name] := if_neg array
    rw [classes] at unmapped
    rw [unmapped name List.mem_cons_self]
    exact .inl rfl

/-- A member in which neither its name nor a class in its descriptor is renamed. -/
theorem changedMember_of_unmapped {name descriptor : String} {new? : Option String}
    (inside : symbol.descriptor? = some descriptor)
    (classes : ∀ name ∈ Descriptor.classNames descriptor, renamer.mapClass name = none) (kept : new? = none) :
    (do return changedMember name descriptor new? (← renamer.mapDescriptor descriptor)) = .ok none ∨
      ∃ cause, (do return changedMember name descriptor new? (← renamer.mapDescriptor descriptor)) = .error cause ∧
        symbol.Malformed cause := by
  refine bind_of_or (mapDescriptor_of_unmapped inside classes) ?_
  rw [kept, changedMember_self]
  rfl

/-- **A symbol without new names** is not replaced, or holds a text that is no descriptor or signature. -/
theorem replacement?_of_unmapped (unmapped : symbol.Unmapped renamer) (complete : symbol.Complete) :
    renamer.replacement? symbol = .ok none ∨
      ∃ cause, renamer.replacement? symbol = .error cause ∧ symbol.Malformed cause := by
  have classes := unmapped.mapClass
  have member := unmapped.member
  cases symbol with
  | ofClass name => exact bind_of_or (mapType_of_unmapped classes) rfl
  | ofField owner name descriptor declared =>
    exact changedMember_of_unmapped rfl classes (member (.ofField owner name descriptor declared) rfl)
  | ofMethod owner name descriptor declared =>
    exact changedMember_of_unmapped rfl classes (member (.ofMethod owner name descriptor declared) rfl)
  | enclosingMethod owner name descriptor =>
    exact changedMember_of_unmapped rfl classes (member (.ofMethod owner name descriptor none) rfl)
  | callSite site =>
    have kept : renamer.mapCallSiteName site = none := by
      unfold mapCallSiteName
      cases lambda : site.lambda with
      | none => rfl
      | some target =>
        refine member (.ofMethod target.interface site.name target.methodDescriptor none) ?_
        rw [Symbol.member?, lambda]
        rfl
    exact changedMember_of_unmapped rfl classes kept
  | ofDescriptor descriptor =>
    refine bind_of_or (mapDescriptor_of_unmapped rfl classes) ?_
    rw [changed_self]
    rfl
  | ofSignature signature =>
    have kept : renamer.mapSignature signature = .ok signature ∨
        ∃ cause, renamer.mapSignature signature = .error cause ∧ (Symbol.ofSignature signature).Malformed cause := by
      have keeps := fun name asked => renameOrKeep_of_unmapped (classes name asked)
      rcases Signature.rename_of_kept complete keeps with kept | ⟨cause, failed, malformed⟩
      · exact .inl kept
      · exact .inr ⟨cause, failed, .inr ⟨signature, rfl, malformed⟩⟩
    refine bind_of_or kept ?_
    rw [changed_self]
    rfl
  | innerName inner name =>
    have kept : renamer.mapInnerName inner name = none := by
      rw [mapInnerName, classes inner List.mem_cons_self]
      rfl
    rw [replacement?, kept]
    exact .inl rfl
  | recordComponent owner name descriptor =>
    have kept : renamer.mapField owner name descriptor (some componentFlags) = none := member _ rfl
    rw [replacement?, kept]
    exact .inl rfl

end Renamer

/-! ### Classes without new names -/

namespace ClassFile

variable {renamer : Renamer} {file : ClassFile} {site : Site} {sites : List Site}

/-- **One site without new names** changes nothing, or fails at its text. -/
theorem renameSite_of_unmapped (file : ClassFile)
    (unmapped : site.location.isInstruction = false → site.symbol.Unmapped renamer) (complete : site.symbol.Complete) :
    renameSite renamer site file = .ok 0 file ∨
      ∃ cause, renameSite renamer site file = .error cause file ∧ site.symbol.Malformed cause := by
  unfold renameSite
  split_ifs with instruction
  · exact .inl rfl
  · rcases Renamer.replacement?_of_unmapped (unmapped (Bool.eq_false_iff.mpr instruction)) complete with
      none | ⟨cause, failed, malformed⟩
    · rw [none]
      exact .inl rfl
    · rw [failed]
      exact .inr ⟨cause, rfl, malformed⟩

/-- **A run over sites without new names** changes nothing, or fails at a text of one of them. -/
theorem renameFrom_of_unmapped (file : ClassFile)
    (unmapped : ∀ site ∈ sites, site.location.isInstruction = false → site.symbol.Unmapped renamer)
    (complete : ∀ site ∈ sites, site.symbol.Complete) (start : Nat) :
    renameFrom renamer sites start file = .ok start file ∨
      ∃ cause, renameFrom renamer sites start file = .error cause file ∧
        ∃ site ∈ sites, site.symbol.Malformed cause := by
  induction sites with
  | nil => exact .inl rfl
  | cons site sites ih =>
    obtain ⟨here, behind⟩ := List.forall_mem_cons.mp unmapped
    obtain ⟨completeHere, completeBehind⟩ := List.forall_mem_cons.mp complete
    rw [renameFrom, List.foldlM_cons]
    rcases renameSite_of_unmapped file here completeHere with kept | ⟨cause, failed, malformed⟩
    · have step : (do return start + (← renameSite renamer site)) file = EStateM.Result.ok start file :=
        edit_bind_of_ok kept
      rw [edit_bind_of_ok step]
      rcases ih behind completeBehind with done | ⟨cause, failed, other, member, malformed⟩
      · exact .inl done
      · exact .inr ⟨cause, failed, other, List.mem_cons_of_mem _ member, malformed⟩
    · exact .inr ⟨cause, edit_bind_of_error (edit_bind_of_error failed), site, List.mem_cons_self, malformed⟩

/-- The sites of a class cannot be found, or a text in one of them is no descriptor or signature, for a cause. -/
def Rejects (file : ClassFile) (cause : Fault) : Prop :=
  file.sites = .error cause ∨ ∃ sites, file.sites = .ok sites ∧ ∃ site ∈ sites, site.symbol.Malformed cause

/-- A class whose own name cannot be read has no sites. -/
theorem sites_of_name_eq_error {cause : Fault} (failed : file.name = .error cause) : file.sites = .error cause := by
  rw [ClassFile.sites, SiteContext.ofClass, failed]
  rfl

/-- **A class without mapped names stays as it is**, byte for byte, unless it is rejected. -/
theorem renameBytes_unmapped (resolver : Resolver) {bytes : Bytes} (parsed : parse bytes = .ok file)
    (complete : ∀ sites, file.sites = .ok sites → ∀ site ∈ sites, site.symbol.Complete)
    (unmapped : ∀ sites, file.sites = .ok sites → ∀ site ∈ sites, site.location.isInstruction = false →
      site.symbol.Unmapped resolver.renamer) :
    (∃ name, file.name = .ok name ∧
      renameBytes resolver.renamer bytes = .ok { oldName := name, newName := name, bytes, changes := 0 }) ∨
    ∃ cause, renameBytes resolver.renamer bytes = .error cause ∧ file.Rejects cause := by
  rw [renameBytes, parsed, ok_bind]
  cases named : file.name with
  | error cause => exact .inr ⟨cause, rfl, .inl (sites_of_name_eq_error named)⟩
  | ok name =>
    rw [ok_bind, rename]
    cases found : file.sites with
    | error cause => exact .inr ⟨cause, rfl, .inl found⟩
    | ok sites =>
      have run := renameFrom_of_unmapped file (unmapped sites found) (complete sites found) 0
      rw [ok_bind]
      rcases run with done | ⟨cause, failed, malformed⟩
      · have whole : renameSites resolver.renamer sites file = .ok 0 file := done
        rw [whole]
        exact .inl ⟨name, rfl, rfl⟩
      · have whole : renameSites resolver.renamer sites file = .error cause file := failed
        rw [whole]
        exact .inr ⟨cause, rfl, .inr ⟨sites, found, malformed⟩⟩

/-- A second renaming of `A` to `B` finds no `A` but in the text of a literal, and leaves the class alone. -/
theorem renameBytes_unmapped_again : ∃ table bytes, Table.ofEntries Archive.mixedEntries .forward = .ok table ∧
    sampleRenamed.toBytes = .ok bytes ∧
    renameBytes (Resolver.mk table {}).renamer bytes =
      .ok { oldName := "B", newName := "B", bytes, changes := 0 } := by
  obtain ⟨table, built, answers⟩ := Archive.exists_mixed
  have sound : sampleRenamed.toBytes >>= parse = .ok sampleRenamed := by decide +kernel
  obtain ⟨bytes, wrote, parsed⟩ := bind_eq_ok.mp sound
  have checked : (match sampleRenamed.sites with
      | .ok sites => decide (∀ site ∈ sites, site.symbol.Complete ∧ site.symbol.Unmapped sampleRenamer)
      | .error _ => true) = true := by decide +kernel
  have spared (sites : List Site) (found : sampleRenamed.sites = .ok sites) :
      ∀ site ∈ sites, site.symbol.Complete ∧ site.symbol.Unmapped sampleRenamer := by
    rw [found] at checked
    exact of_decide_eq_true checked
  have outcome := renameBytes_unmapped (Resolver.mk table {}) parsed
    (fun sites found site member => (spared sites found site member).1)
    (fun sites found site member _ => answers ▸ (spared sites found site member).2)
  rcases outcome with ⟨name, named, done⟩ | ⟨cause, failed, -⟩
  · have isB : sampleRenamed.name = .ok "B" := by decide +kernel
    cases named.symm.trans isB
    exact ⟨table, bytes, built, wrote, done⟩
  · have accepted : (sampleRenamed.toBytes >>= renameBytes sampleRenamer).isOk = true := by decide +kernel
    rw [wrote, ok_bind, ← answers, failed] at accepted
    cases accepted

end ClassFile

end JarRename
