import TriggerLogic.Source.Declaration
import TriggerLogic.Source.Statement

namespace TriggerLogic

namespace Line

def body (raw : Text) : Text :=
  Text.dropEndWhile (fun c => c == '\n' || c == '\r') raw

def code (raw : Text) : Text :=
  match Text.cut? ['-', '-'] (body raw) with
  | some (before, _) => before
  | none => body raw

def comment? (raw : Text) : Option Text :=
  (Text.cut? ['-', '-'] (body raw)).map (·.2)

/-- The code with one space for each byte that follows it, so that offsets stay those of the
source. -/
def blanked (raw : Text) : Text :=
  code raw ++ List.replicate (Text.byteLength raw - Text.byteLength (code raw)) ' '

end Line

structure Markers where
  inputs : Text := "Inputs".toList
  outputs : Text := "Outputs".toList
  deriving DecidableEq, Repr

structure DesignUnit where
  inputs : List InputDeclaration := []
  outputs : List OutputDeclaration := []
  statements : List Statement := []
  deriving DecidableEq, Repr

inductive SourcePart where
  | preamble
  | inputs
  | outputs
  | body
  deriving DecidableEq, Repr

structure Reading where
  part : SourcePart := .preamble
  inputs : List InputDeclaration := []
  outputs : List OutputDeclaration := []
  statements : StatementList := {}
  deriving DecidableEq, Repr

def markerLabel (comment : Text) : Text :=
  Text.lower (Text.strip (fun c => Text.isBlank c || c == '-' || c == '=' || c == ':') comment)

def Markers.partOpenedBy? (markers : Markers) (comment : Text) : Option SourcePart :=
  if markerLabel comment = markerLabel markers.inputs then some .inputs
  else if markerLabel comment = markerLabel markers.outputs then some .outputs
  else none

def opensBody (code : Text) : Bool :=
  (Text.words code).head?.any fun word => Text.lower word == ['b', 'e', 'g', 'i', 'n']

namespace Reading

/-- Outputs are single bits: a vector among them is passed over. -/
def declare (reading : Reading) (declaration : Declaration) : Reading :=
  match reading.part with
  | .inputs =>
    let added := declaration.names.map fun name => ⟨name, declaration.width, declaration.span⟩
    { reading with inputs := reading.inputs ++ added }
  | .outputs =>
    if declaration.isVector then reading
    else
      let added := declaration.names.map fun name => ⟨name, declaration.span⟩
      { reading with outputs := reading.outputs ++ added }
  | .preamble => reading
  | .body => reading

def commentLine (markers : Markers) (reading : Reading) (raw : Text) : Reading :=
  match (Line.comment? raw).bind markers.partOpenedBy? with
  | some part => { reading with part := part }
  | none => reading

def declarationLine (reading : Reading) (offset : Nat) (code : Text) : Except SourceFault Reading :=
  if opensBody code then .ok { reading with part := .body }
  else match Declaration.read code offset with
    | .error fault => .error fault
    | .ok none => .ok reading
    | .ok (some declaration) => .ok (reading.declare declaration)

def step (markers : Markers) (reading : Reading) (offset : Nat) (raw : Text) :
    Except SourceFault Reading :=
  if reading.part = .body then
    .ok { reading with statements := reading.statements.addLine offset (Line.blanked raw) }
  else if (Text.trim (Line.code raw)).isEmpty then .ok (commentLine markers reading raw)
  else if reading.part = .preamble then .ok reading
  else reading.declarationLine offset (Line.code raw)

def steps (markers : Markers) : Nat → Reading → List Text → Except SourceFault Reading
  | _, reading, [] => .ok reading
  | offset, reading, raw :: more =>
    match reading.step markers offset raw with
    | .error fault => .error fault
    | .ok next => steps markers (offset + Text.byteLength raw) next more

section Runs

variable {markers : Markers} {reading next : Reading} {offset : Nat} {raw : Text}

/-- A line of the body goes to the statements. Any other line may open a part or, where signals are
declared, declare some. -/
theorem step_cases (read : reading.step markers offset raw = .ok next) :
    reading.part = .body ∧
        next = { reading with statements := reading.statements.addLine offset (Line.blanked raw) } ∨
      reading.part ≠ .body ∧ (∃ part, next = { reading with part := part }) ∨
      (reading.part = .inputs ∨ reading.part = .outputs) ∧ ∃ declaration,
        Declaration.read (Line.code raw) offset = .ok (some declaration) ∧
        next = reading.declare declaration := by
  unfold step at read
  split at read
  · rename_i body
    cases read
    exact .inl ⟨body, rfl⟩
  rename_i outside
  refine .inr ?_
  split at read
  · cases read
    refine .inl ⟨outside, ?_⟩
    unfold commentLine
    split
    · exact ⟨_, rfl⟩
    · exact ⟨reading.part, rfl⟩
  split at read
  · cases read
    exact .inl ⟨outside, reading.part, rfl⟩
  rename_i declares
  unfold declarationLine at read
  split at read
  · cases read
    exact .inl ⟨outside, .body, rfl⟩
  split at read
  · cases read
  · cases read
    exact .inl ⟨outside, reading.part, rfl⟩
  · rename_i declaration found
    cases read
    refine .inr ⟨?_, declaration, found, rfl⟩
    cases part : reading.part with
    | preamble => exact absurd part declares
    | inputs => exact .inl rfl
    | outputs => exact .inr rfl
    | body => exact absurd part outside

theorem steps_preserves_of_mem {kept : Reading → Prop} {lines : List Text}
    (line : ∀ {before after offset raw}, raw ∈ lines → before.step markers offset raw = .ok after →
      kept before → kept after)
    {final : Reading} (read : steps markers offset reading lines = .ok final)
    (start : kept reading) : kept final := by
  induction lines generalizing offset reading with
  | nil =>
    cases read
    exact start
  | cons raw lines ih =>
    rw [steps] at read
    split at read
    · cases read
    · rename_i next stepped
      exact ih (fun listed => line (List.mem_cons_of_mem raw listed)) read
        (line List.mem_cons_self stepped start)

/-- What every line keeps, every run keeps. -/
theorem steps_preserves {kept : Reading → Prop}
    (line : ∀ {before after offset raw}, before.step markers offset raw = .ok after →
      kept before → kept after)
    {lines : List Text} {final : Reading} (read : steps markers offset reading lines = .ok final)
    (start : kept reading) : kept final :=
  steps_preserves_of_mem (fun _ => line) read start

end Runs

def finish (reading : Reading) (length : Nat) : Except SourceFault DesignUnit :=
  match reading.statements.pending with
  | some statement =>
    .error (.malformedAssignment statement.target (Span.between statement.start length))
  | none => .ok ⟨reading.inputs, reading.outputs, reading.statements.closed⟩

end Reading

def DesignUnit.read (markers : Markers) (source : Text) : Except SourceFault DesignUnit :=
  match Reading.steps markers 0 {} (Text.lines source) with
  | .error fault => .error fault
  | .ok reading => reading.finish (Text.byteLength source)

theorem DesignUnit.read_eq_ok {markers : Markers} {source : Text} {unit : DesignUnit}
    (accepted : DesignUnit.read markers source = .ok unit) :
    ∃ reading, Reading.steps markers 0 {} (Text.lines source) = .ok reading ∧
      unit = ⟨reading.inputs, reading.outputs, reading.statements.closed⟩ := by
  unfold DesignUnit.read at accepted
  split at accepted
  · cases accepted
  · rename_i reading stepped
    refine ⟨reading, stepped, ?_⟩
    unfold Reading.finish at accepted
    split at accepted
    · cases accepted
    · cases accepted
      rfl

end TriggerLogic
