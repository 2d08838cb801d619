import TriggerLogic.Artifact.Compiled
import TriggerLogic.Settings

namespace TriggerLogic

def sourceStem? (fileName : Text) : Option Text :=
  let plain := Text.lower fileName
  if ".vhdl".toList.isSuffixOf plain then some (fileName.take (fileName.length - 5))
  else if ".vhd".toList.isSuffixOf plain then some (fileName.take (fileName.length - 4))
  else none

/-- The version that `<major>.<minor>` spells. The first dot or underscore divides the numbers. -/
def versionOfNumbers? (text : Text) : Option Text :=
  let isMark := fun c => c == '.' || c == '_'
  let major := text.takeWhile fun c => !isMark c
  match text.dropWhile fun c => !isMark c with
  | [] => none
  | _ :: minor =>
    if Text.isNumber major && Text.isNumber minor then some (major ++ '_' :: minor) else none

def version? (namePrefix fileName : Text) : Option Text :=
  ((sourceStem? fileName).bind (Text.afterLead? (namePrefix ++ ['_']))).bind versionOfNumbers?

structure ArtifactPlan where
  version : Text
  functionName : Text
  directory : Path
  deriving DecidableEq, Repr

namespace ArtifactPlan

def versionOf (namePrefix fileName : Text) : Except Fault Text :=
  match version? namePrefix fileName with
  | some version => .ok version
  | none => .error (.badFileName fileName)

/-- Artifacts go to `outDirectory`, or next to the input. -/
def ofInput (input : Path) (namePrefix : Text) (outDirectory : Option Path) :
    Except Fault ArtifactPlan :=
  match input.fileName? with
  | none => .error (.badFileName input)
  | some name =>
    (versionOf namePrefix name).map fun version =>
      ⟨version, namePrefix ++ '_' :: version, outDirectory.getD (input.parent?.getD [])⟩

def fileName (plan : ArtifactPlan) (artifact : Artifact) : Text :=
  plan.functionName ++ '.' :: artifact.fileExtension

def path (plan : ArtifactPlan) (artifact : Artifact) : Path :=
  plan.directory.join (plan.fileName artifact)

def preview (plan : ArtifactPlan) (texts : ArtifactTexts) : Text :=
  Text.join ['\n'] (Artifact.all.map fun artifact =>
    "==> ".toList ++ plan.fileName artifact ++ " <==\n".toList ++ texts.get artifact)

variable {m : Type → Type} [Monad m] [FileAccess m]

def existing (plan : ArtifactPlan) : m (List Path) :=
  FileAccess.presentAmong (Artifact.all.map plan.path)

/-- Writes artifacts one after the other; the first that fails ends it. -/
def writeEach (plan : ArtifactPlan) (texts : ArtifactTexts) :
    List Artifact → m (Except Fault (List Path))
  | [] => pure (.ok [])
  | artifact :: more => do
    match ← FileAccess.writeText (plan.path artifact) (texts.get artifact) with
    | .error fault => pure (.error (.access (plan.path artifact) fault))
    | .ok () => return (← plan.writeEach texts more).map (plan.path artifact :: ·)

def write (plan : ArtifactPlan) (texts : ArtifactTexts) : m (Except Fault (List Path)) := do
  match ← FileAccess.ensureDirectories plan.directory with
  | .error fault => pure (.error (.access plan.directory fault))
  | .ok () => plan.writeEach texts Artifact.all

end ArtifactPlan

def buildFile {m : Type → Type} [Monad m] [FileAccess m] (input : Path) :
    m (Except Fault (List Path)) := do
  match ← Settings.discover (input.parent?.getD []) with
  | .error fault => pure (.error fault)
  | .ok settings =>
    match ArtifactPlan.ofInput input settings.namePrefix settings.outDirectory with
    | .error fault => pure (.error fault)
    | .ok plan =>
      match ← FileAccess.readText input with
      | .error fault => pure (.error (.access input fault))
      | .ok source =>
        match compile settings.markers plan.functionName (input.fileName?.getD input) source with
        | .error fault => pure (.error fault.toFault)
        | .ok compiled => plan.write compiled.texts

end TriggerLogic
