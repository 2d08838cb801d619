import TriggerLogic.Artifact.Plan
import TriggerLogic.Command.Options
import TriggerLogic.Decision.Printout
import TriggerLogic.Report.Layout
import TriggerLogic.Settings

namespace TriggerLogic

class Terminal (m : Type → Type) where
  print : Text → m Unit
  notify : Text → m Unit
  readLine : m Text

namespace Command

def usage : Text := "Usage: ftdc [OPTIONS] <INPUT>\n".toList

def versionText : Text := "ftdc 0.1.0\n".toList

def helpText : Text :=
  "Compile trigger final-decision logic into bit tables, DNF algebra and a bit evaluator\n\n".toList ++
    usage ++
    "\nArguments:\n".toList ++
    "  <INPUT>  Logic source named <prefix>_<major>.<minor>.vhd\n".toList ++
    "\nOptions:\n".toList ++
    "  -v, --verbose        Print the compiled model and enable debug logging\n".toList ++
    "  -f, --force          Overwrite existing artifacts without asking\n".toList ++
    "  -p, --preview        Print the artifacts to stdout instead of writing them\n".toList ++
    "  -o, --out-dir <DIR>  Directory for the artifacts (default: next to the input)\n".toList ++
    "  -h, --help           Print help\n".toList ++
    "  -V, --version        Print version\n".toList

def directoryOf (input : Path) : Path :=
  match input.parent? with
  | none => ['.']
  | some parent => if parent.isEmpty then ['.'] else parent

def isConsent (answer : Text) : Bool :=
  let word := Text.lower (Text.trim answer)
  word == ['y'] || word == ['y', 'e', 's']

variable {m : Type → Type} [Monad m] [FileAccess m] [Terminal m]

def fail (message : Text) : m Nat := do
  Terminal.notify ("error: ".toList ++ message ++ ['\n'])
  pure 1

def failWithUsage (message : Text) : m Nat := do
  Terminal.notify ("error: ".toList ++ message ++ "\n\n".toList ++ usage)
  pure 1

/-- Asks before artifacts that are there are replaced, unless `force` is given. -/
def clearTargets (plan : ArtifactPlan) (force : Bool) : m (Except Fault Unit) := do
  match ← plan.existing with
  | [] => pure (.ok ())
  | first :: more =>
    if force then pure (.ok ())
    else
      Terminal.notify ((first :: more).flatMap fun path =>
        "warning: '".toList ++ path ++ "' already exists\n".toList)
      Terminal.notify "Overwrite existing artifacts? [y/N] ".toList
      let answer ← Terminal.readLine
      if isConsent answer then pure (.ok ()) else pure (.error (.targetExists first))

def writeArtifacts (plan : ArtifactPlan) (texts : ArtifactTexts) : m Nat := do
  match ← plan.write texts with
  | .error fault => fail fault.message
  | .ok paths =>
    Terminal.notify (paths.flatMap fun path => "Compiled -> ".toList ++ path ++ ['\n'])
    pure 0

def deliver (options : Options) (plan : ArtifactPlan) (compiled : Compiled) : m Nat := do
  if options.verbose then Terminal.notify compiled.table.summary
  if options.preview then
    Terminal.print (plan.preview compiled.texts)
    pure 0
  else
    match ← clearTargets plan options.force with
    | .error fault => fail fault.message
    | .ok () => writeArtifacts plan compiled.texts

def compileInput (input : Path) (options : Options) : m Nat := do
  if ← FileAccess.isFile input then
    match ← Settings.discover (directoryOf input) with
    | .error fault => fail fault.message
    | .ok settings =>
      match ArtifactPlan.ofInput input settings.namePrefix
          (options.outDirectory.or settings.outDirectory) with
      | .error fault => failWithUsage fault.message
      | .ok plan =>
        match ← FileAccess.readText input with
        | .error fault =>
          failWithUsage ("cannot read '".toList ++ input ++ "': ".toList ++ fault.reason)
        | .ok source =>
          let name := input.fileName?.getD input
          match compile settings.markers plan.functionName name source with
          | .error (.source fault) =>
            Terminal.notify (Report.render name source fault.notice)
            pure 1
          | .error .overflow =>
            Terminal.notify (TableFault.overflow.message ++ ['\n'])
            pure 101
          | .ok compiled => deliver options plan compiled
  else failWithUsage ("cannot find input file '".toList ++ input ++ "'".toList)

def run (arguments : List Text) : m Nat := do
  match Request.ofArguments arguments with
  | .help =>
    Terminal.print helpText
    pure 0
  | .version =>
    Terminal.print versionText
    pure 0
  | .misuse =>
    Terminal.notify ("error: unexpected or missing argument\n\n".toList ++ usage)
    pure 2
  | .compile input options => compileInput input options

end Command

end TriggerLogic
