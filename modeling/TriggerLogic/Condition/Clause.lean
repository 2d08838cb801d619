import TriggerLogic.Source.Layout

namespace TriggerLogic

inductive Demand where
  | compare (comparator : Comparator) (field : Field) (threshold : Nat)
  | literal (literal : Literal)
  deriving DecidableEq, Repr

structure Clause where
  demand : Demand
  text : Text
  span : Span
  deriving DecidableEq, Repr

def Clause.sum (clause : Clause) : Except SourceFault SumOfProducts :=
  match clause.demand with
  | .literal literal => .ok [[literal]]
  | .compare comparator field threshold =>
    match Comparison.sum comparator field.start field.width threshold with
    | .ok sum => .ok sum
    | .error (.unsupported comparator threshold) =>
      .error (.unsupportedThreshold comparator field.name threshold clause.span)
    | .error .empty => .error (.emptyExpansion clause.text clause.span)

/-- A clause as it is spelled: without parentheses and blanks, a leading `not` noted. -/
structure ClauseSpelling where
  inverted : Bool
  body : Text
  deriving DecidableEq, Repr

inductive ClauseForm where
  | level (name : Text) (negated : Bool)
  | compare (comparator : Comparator) (name : Text) (threshold : Nat)
  deriving DecidableEq, Repr

namespace ClauseSpelling

def ofPiece (piece : Text) : ClauseSpelling :=
  let bare := Text.trim (piece.filter fun c => c != '(' && c != ')')
  match Text.afterKeyword? ['n', 'o', 't'] bare with
  | some rest => ⟨true, Text.compact rest⟩
  | none => ⟨false, Text.compact bare⟩

def text (spelling : ClauseSpelling) : Text :=
  if spelling.inverted then ['n', 'o', 't', ' '] ++ spelling.body else spelling.body

def quotedLevel? (body : Text) : Option ClauseForm :=
  match Text.cut? ['='] body with
  | some (name, ['\'', '1', '\'']) => some (.level name false)
  | some (name, ['\'', '0', '\'']) => some (.level name true)
  | _ => none

def comparison? (comparator : Comparator) (body : Text) : Option ClauseForm :=
  match Text.cut? comparator.symbol body with
  | none => none
  | some (name, value) =>
    (Text.numberBelow? thresholdBound value).map (.compare comparator name)

def bareLevel (body : Text) : ClauseForm :=
  match body with
  | '!' :: name => .level name true
  | name => .level name false

/-- Quotes count only around a level; elsewhere they are passed over. -/
def form (spelling : ClauseSpelling) : ClauseForm :=
  match quotedLevel? spelling.body with
  | some form => form
  | none =>
    let body := spelling.body.filter fun c => c != '\'' && c != '"'
    match comparison? .above body with
    | some form => form
    | none => (comparison? .equal body).getD (bareLevel body)

end ClauseSpelling

def ClauseForm.name : ClauseForm → Text
  | level name _ => name
  | compare _ name _ => name

def Clause.read (layout : Layout) (output : Text) (span : Span) (piece : Text) :
    Except SourceFault Clause :=
  let spelling := ClauseSpelling.ofPiece piece
  let text := spelling.text
  if spelling.body.isEmpty then .error (.malformedAssignment output span)
  else if spelling.body.contains '<' then .error (.unsupportedComparator text output span)
  else match layout.find? spelling.form.name with
    | none => .error (.unresolvedSignal spelling.form.name text output span)
    | some field =>
      match spelling.form with
      | .level _ negated => .ok ⟨.literal ⟨field.start, negated != spelling.inverted⟩, text, span⟩
      | .compare comparator _ threshold =>
        if spelling.inverted then .error (.negatedComparison text output span)
        else .ok ⟨.compare comparator field threshold, text, span⟩

end TriggerLogic
