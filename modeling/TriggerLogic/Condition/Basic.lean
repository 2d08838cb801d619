import TriggerLogic.Condition.Clause
import TriggerLogic.Source.Statement

namespace TriggerLogic.Condition

/-- The text between `when` and `else` and its byte offset in the right-hand side. `opened` tells
whether a keyword may stand at its start. -/
structure Extent where
  offset : Nat
  opened : Bool
  text : Text
  deriving DecidableEq, Repr

def afterWhen (rhs : Text) : Extent :=
  match Text.cutKeyword? ['w', 'h', 'e', 'n'] true rhs with
  | some (before, rest) => ⟨Text.byteLength before + 4, false, rest⟩
  | none => ⟨0, true, rhs⟩

def extent (rhs : Text) : Extent :=
  let start := afterWhen rhs
  match Text.cutKeyword? ['e', 'l', 's', 'e'] start.opened start.text with
  | some (before, _) => { start with text := before }
  | none => start

/-- A level without condition assigns nothing that could be decided. -/
def isUnconditional (rhs : Text) : Bool :=
  (Text.cutKeyword? ['w', 'h', 'e', 'n'] true rhs).isNone &&
    (Text.trim rhs == ['\'', '0', '\''] || Text.trim rhs == ['\'', '1', '\''])

def pieceSpan (offset : Nat) (piece : Text) : Span :=
  let lead := Text.byteLength piece - Text.byteLength (Text.trimStart piece)
  Span.between (offset + lead) (offset + max (Text.byteLength (Text.trimEnd piece)) lead)

def readPieces (layout : Layout) (output : Text) : Nat → List Text → Except SourceFault (List Clause)
  | _, [] => .ok []
  | offset, piece :: more =>
    match Clause.read layout output (pieceSpan offset piece) piece with
    | .error fault => .error fault
    | .ok clause =>
      (readPieces layout output (offset + Text.byteLength piece + 3) more).map (clause :: ·)

def read (layout : Layout) (statement : Statement) : Except SourceFault (List Clause) :=
  if isUnconditional statement.rhs then
    .error (.malformedAssignment statement.target statement.span)
  else
    let condition := extent statement.rhs
    readPieces layout statement.target (statement.rhsSpan.start + condition.offset)
      (Text.pieces ['a', 'n', 'd'] condition.opened condition.text)

end TriggerLogic.Condition
