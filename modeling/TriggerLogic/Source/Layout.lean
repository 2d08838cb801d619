import TriggerLogic.Source.Declaration

namespace TriggerLogic

structure Field where
  name : Text
  start : Nat
  width : Nat
  deriving DecidableEq, Repr

def Field.bits (field : Field) : List Nat :=
  List.range' field.start field.width

structure Layout where
  fields : List Field
  deriving DecidableEq, Repr

def firstRepeated? (seen : List Text) : List (Text × Span) → Option (Text × Span)
  | [] => none
  | entry :: more =>
    if seen.contains entry.1 then some entry else firstRepeated? (entry.1 :: seen) more

/-- Names have to be distinct; the second declaration of a name is the fault. -/
def distinctNames (entries : List (Text × Span)) : Except SourceFault Unit :=
  match firstRepeated? [] entries with
  | some (name, span) => .error (.duplicateSignal name span)
  | none => .ok ()

namespace Layout

def place : Nat → List InputDeclaration → List Field
  | _, [] => []
  | start, declaration :: more =>
    ⟨declaration.name, start, declaration.width⟩ :: place (start + declaration.width) more

theorem names_place (start : Nat) (declarations : List InputDeclaration) :
    (place start declarations).map Field.name = declarations.map InputDeclaration.name := by
  induction declarations generalizing start with
  | nil => rfl
  | cons declaration more ih => simp [place, ih]

theorem widths_place (start : Nat) (declarations : List InputDeclaration) :
    (place start declarations).map Field.width = declarations.map InputDeclaration.width := by
  induction declarations generalizing start with
  | nil => rfl
  | cons declaration more ih => simp [place, ih]

def ofDeclarations (declarations : List InputDeclaration) : Except SourceFault Layout :=
  (distinctNames (declarations.map fun declaration => (declaration.name, declaration.span))).map
    fun _ => ⟨place 0 declarations⟩

def find? (layout : Layout) (name : Text) : Option Field :=
  layout.fields.find? fun field => field.name == name

def totalBits (layout : Layout) : Nat :=
  layout.fields.foldr (fun field total => field.width + total) 0

end Layout

end TriggerLogic
