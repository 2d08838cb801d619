import TriggerLogic.Proofs.Recompilation
import TriggerLogic.Proofs.VersionNames

namespace TriggerLogic

theorem Path.isName_of_mem {name : Text} (c : Char) (member : c ∈ name) (other : c ≠ '.')
    (single : '/' ∉ name) : IsName name := by
  refine ⟨List.ne_nil_of_mem member, single, ?_, ?_⟩ <;> rintro rfl <;> simp [other] at member

theorem FileTree.isFile_iff {tree : FileTree} {path : Path} :
    tree.isFile path = true ↔ ∃ entry, tree.entry path = .ok entry ∧ entry ≠ .directory := by
  unfold isFile
  cases tree.entry path with
  | error fault => simp
  | ok entry => cases entry <;> simp

namespace ArtifactPlan

variable {plan : ArtifactPlan} {input : Path} {namePrefix : Text} {outDirectory : Option Path}

theorem isName_fileName (planned : ofInput input namePrefix outDirectory = .ok plan)
    (artifact : Artifact) : Path.IsName (plan.fileName artifact) := by
  obtain ⟨parts, named, rfl⟩ := exists_parts_of_ofInput planned
  have single := Path.slash_not_mem_fileName named
  have numbers : '/' ∉ parts.version := parts.not_mem_version (by decide) (by decide)
  have before : '/' ∉ namePrefix := fun member => single (List.mem_append_left _ member)
  have extension := slash_not_mem_fileExtension artifact
  refine Path.isName_of_mem '_' (by simp [fileName]) (by decide) ?_
  simp only [fileName, List.mem_append, List.mem_cons, not_or] at extension ⊢
  exact ⟨⟨before, by decide, numbers⟩, extension⟩

theorem nodup_fileNames (plan : ArtifactPlan) : (Artifact.all.map plan.fileName).Nodup := by
  apply List.Nodup.map _ (by decide)
  intro first second same
  have extensions : first.fileExtension = second.fileExtension := by
    simpa [fileName] using same
  revert extensions
  cases first <;> cases second <;> decide

section Writes

variable {texts : ArtifactTexts} {session after : Session} {outcome : Except Fault (List Path)}

theorem written_of_writeIn (ran : plan.writeIn texts session = (outcome, after)) :
    ∃ middle written,
      FileTree.Grown (plan.directory :: plan.directory.parents) session.files middle ∧
      plan.Written texts written middle after.files := by
  obtain ⟨made, middle, ensured, stages⟩ := writeIn_stages ran
  have grown := (Session.ensureDirectories_grown ensured).1
  rcases stages with ⟨-, -, -, rfl⟩ | ⟨-, wrote⟩
  · exact ⟨_, [], grown, Written.nil plan texts _⟩
  · rcases writeEach_cases wrote with ⟨-, all⟩ | ⟨written, _, _, _, -, -, some, -⟩
    · exact ⟨_, _, grown, all⟩
    · exact ⟨_, written, grown, some⟩

theorem entry_of_writeIn {path : Path} {name : Text} {location : Location}
    (ran : plan.writeIn texts session = (outcome, after))
    (leads : session.files.locate path = .ok location)
    (there : session.files.entryAt? location ≠ none) (last : location.getLast? = some name)
    (other : ¬ IsArtifactName name) : after.files.entry path = session.files.entry path := by
  obtain ⟨middle, written, grown, wrote⟩ := written_of_writeIn ran
  apply (grown.retains.trans wrote.retains).entry_eq leads
  have kept : middle.entryAt? location = session.files.entryAt? location := by
    rcases grown.entry location with same | ⟨absent, -⟩
    · exact same
    · exact absurd absent there
  rw [← kept]
  rcases wrote.entry location with same | ⟨artifact, -, reached⟩
  · exact same
  · obtain ⟨stem, named⟩ := plan.exists_name_of_locate
    exact absurd ⟨artifact, stem, Option.some.inj ((named reached).symm.trans last)⟩ other

theorem input_of_writeIn (planned : ofInput input namePrefix outDirectory = .ok plan)
    (ran : plan.writeIn texts session = (outcome, after))
    (file : session.files.isFile input = true) :
    after.files.entry input = session.files.entry input := by
  obtain ⟨parts, named, -⟩ := exists_parts_of_ofInput planned
  obtain ⟨entry, found, notDirectory⟩ := FileTree.isFile_iff.mp file
  obtain ⟨location, leads, content⟩ := FileTree.entry_eq_ok_iff.mp found
  have last := FileTree.name_of_locate named leads (by simpa [content] using notDirectory)
  exact entry_of_writeIn ran leads (by simp [content]) last (not_isArtifactName_input planned named)

end Writes

/-- The artifacts of an input are four files with names of their own in the output directory. The
input is none of them, and writing them leaves it as it is. -/
theorem artifacts_spare_input (planned : ofInput input namePrefix outDirectory = .ok plan) :
    (∀ artifact, Path.IsName (plan.fileName artifact)) ∧
    (Artifact.all.map plan.fileName).Nodup ∧
    (∀ artifact, Path.components (plan.path artifact) =
      Path.components (outDirectory.getD (input.parent?.getD [])) ++ [.name (plan.fileName artifact)]) ∧
    (∀ artifact, input.fileName? ≠ some (plan.fileName artifact)) ∧
    ∀ texts session outcome after, plan.writeIn texts session = (outcome, after) →
      session.files.isFile input = true → after.files.entry input = session.files.entry input := by
  refine ⟨isName_fileName planned, plan.nodup_fileNames, ?_, ?_, ?_⟩
  · intro artifact
    have placed := (isName_fileName planned artifact).components_join plan.directory
    obtain ⟨parts, -, rfl⟩ := exists_parts_of_ofInput planned
    exact placed
  · intro artifact named
    exact not_isArtifactName_input planned named ⟨artifact, List.suffix_append _ _⟩
  · intro texts session outcome after ran file
    exact input_of_writeIn planned ran file

def lonelySession : Session where
  files := { entries := [(["ftd_0.01.vhd".toList], .text "begin\n".toList)] }

def lonelyPlan : ArtifactPlan := ⟨"0_01".toList, "ftd_0_01".toList, ['.']⟩

theorem lonelySession_spared :
    ofInput ".//ftd_0.01.vhd".toList "ftd".toList none = .ok lonelyPlan ∧
      Path.components (lonelyPlan.path .evaluator) =
        [.here] ++ [.name (lonelyPlan.fileName .evaluator)] ∧
      (lonelyPlan.writeIn sampleTexts lonelySession).2.files.entry ".//ftd_0.01.vhd".toList =
        lonelySession.files.entry ".//ftd_0.01.vhd".toList := by
  have planned : ofInput ".//ftd_0.01.vhd".toList "ftd".toList none = .ok lonelyPlan := by
    decide +kernel
  have directory : Path.components ((none : Option Path).getD
      ((Path.parent? ".//ftd_0.01.vhd".toList).getD [])) = [.here] := by decide +kernel
  have file : lonelySession.files.isFile ".//ftd_0.01.vhd".toList = true := by decide +kernel
  obtain ⟨-, -, places, -, kept⟩ := artifacts_spare_input planned
  refine ⟨planned, ?_, kept sampleTexts lonelySession _ _ (Prod.eta _).symm file⟩
  rw [places, directory]

end ArtifactPlan

end TriggerLogic
