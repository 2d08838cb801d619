import TriggerLogic.Decision.Evaluator
import TriggerLogic.Decision.Printout
import TriggerLogic.Digest.Blake3

namespace TriggerLogic

inductive Artifact where
  | inputBits
  | outputBits
  | algebra
  | evaluator
  deriving DecidableEq, Repr

namespace Artifact

def all : List Artifact := [inputBits, outputBits, algebra, evaluator]

def fileExtension : Artifact → Text
  | inputBits => "inbits".toList
  | outputBits => "outbits".toList
  | algebra => "alg".toList
  | evaluator => "rs".toList

end Artifact

structure ArtifactTexts where
  inputBits : Text
  outputBits : Text
  algebra : Text
  evaluator : Text
  deriving DecidableEq, Repr

def ArtifactTexts.get (texts : ArtifactTexts) : Artifact → Text
  | .inputBits => texts.inputBits
  | .outputBits => texts.outputBits
  | .algebra => texts.algebra
  | .evaluator => texts.evaluator

structure Compiled where
  table : DecisionTable
  texts : ArtifactTexts
  deriving DecidableEq, Repr

def DecisionTable.artifacts (table : DecisionTable) (head : EvaluatorHead) : ArtifactTexts :=
  { inputBits := table.inputTable
    outputBits := table.outputTable
    algebra := Listing.text table.algebra
    evaluator := table.evaluator head }

def compile (markers : Markers) (functionName sourceName source : Text) :
    Except TableFault Compiled :=
  (DecisionTable.ofSource markers source).map fun table =>
    ⟨table, table.artifacts ⟨functionName, sourceName, Blake3.hexDigest source⟩⟩

end TriggerLogic
