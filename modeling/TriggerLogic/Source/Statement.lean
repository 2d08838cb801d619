import TriggerLogic.Source.Fault
import TriggerLogic.Text.Word

namespace TriggerLogic

structure Statement where
  target : Text
  rhs : Text
  rhsSpan : Span
  span : Span
  deriving DecidableEq, Repr

/-- The text of a statement whose semicolon has not been met, from byte `start` on. -/
structure OpenStatement where
  start : Nat
  text : Text
  deriving DecidableEq, Repr

structure StatementList where
  closed : List Statement := []
  pending : Option OpenStatement := none
  deriving DecidableEq, Repr

namespace OpenStatement

def target (statement : OpenStatement) : Text :=
  match Text.cut? ['<', '='] statement.text with
  | some (left, _) => Text.trim left
  | none => Text.trim statement.text

def close? (statement : OpenStatement) : Option Statement :=
  let text := statement.text
  (Text.cut? ['<', '='] text).map fun parts =>
    let lead := Text.byteLength text - Text.byteLength (Text.trimStart text)
    let arrow := statement.start + Text.byteLength parts.1
    let semicolon := statement.start + Text.byteLength text
    { target := Text.trim parts.1
      rhs := parts.2
      rhsSpan := Span.between (arrow + 2) semicolon
      span := Span.between (statement.start + lead) (semicolon + 1) }

end OpenStatement

namespace StatementList

def opensStatement (text : Text) : Bool :=
  match Text.cut? ['<', '='] text with
  | some (left, _) => Text.isIdentifier (Text.trim left)
  | none => false

def extend? (statements : StatementList) (offset : Nat) (text : Text) : Option OpenStatement :=
  match statements.pending with
  | some earlier => some { earlier with text := earlier.text ++ text }
  | none => if opensStatement text then some ⟨offset, text⟩ else none

def close (statements : StatementList) (statement : OpenStatement) : StatementList :=
  { closed := statements.closed ++ statement.close?.toList, pending := none }

/-- Takes in the parts of a line between semicolons. The rest of a line is passed over from the
first part on that neither opens a statement nor goes on with one. -/
def collect : Nat → List Text → StatementList → StatementList
  | _, [], statements => statements
  | offset, [rest], statements => { statements with pending := statements.extend? offset rest }
  | offset, part :: more, statements =>
    match statements.extend? offset part with
    | none => statements
    | some statement =>
      collect (offset + Text.byteLength part + 1) more (statements.close statement)

def addLine (statements : StatementList) (offset : Nat) (line : Text) : StatementList :=
  collect offset (line.splitOn ';') statements

end StatementList

end TriggerLogic
