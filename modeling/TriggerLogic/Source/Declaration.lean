import TriggerLogic.Source.Fault
import TriggerLogic.Text.Word

namespace TriggerLogic

structure InputDeclaration where
  name : Text
  width : Nat
  span : Span
  deriving DecidableEq, Repr

structure OutputDeclaration where
  name : Text
  span : Span
  deriving DecidableEq, Repr

inductive SignalType where
  | bit
  | vector (range : Text)
  deriving DecidableEq, Repr

structure Declaration where
  names : List Text
  width : Nat
  isVector : Bool
  span : Span
  deriving DecidableEq, Repr

def rangeWidth (range : Text) : Except RangeFault Nat :=
  let inner? := (Text.afterLead? ['('] (Text.trim range)).bind fun rest =>
    Text.beforeTail? [')'] (Text.trimEnd rest)
  match inner? with
  | none => .error .noParentheses
  | some inner =>
    match Text.words inner with
    | [high, direction, low] =>
      if direction ≠ ['d', 'o', 'w', 'n', 't', 'o'] then .error (.wrongDirection direction)
      else match Text.numberBelow? indexBound high with
        | none => .error (.badBound high)
        | some upper =>
          match Text.numberBelow? indexBound low with
          | none => .error (.badBound low)
          | some lower =>
            if upper < lower then .error (.empty upper lower)
            else if upper - lower + 1 < indexBound then .ok (upper - lower + 1)
            else .error (.tooWide upper lower)
    | _ => .error (.unreadable (Text.trim inner))

def signalType? (text : Text) : Option SignalType :=
  let bare := Text.dropEndWhile (· == ';') (Text.trim text)
  let typed := match Text.cut? [':', '='] bare with
    | some (before, _) => before
    | none => bare
  let name := Text.lower (Text.trim typed)
  match Text.afterLead? "std_logic_vector".toList name with
  | some range => some (.vector range)
  | none => if name = "std_logic".toList then some .bit else none

def signalNames (text : Text) : List Text :=
  ((text.splitOn ',').map Text.trim).filter fun name => !name.isEmpty

def declarationParts? (line : Text) : Option (List Text × SignalType) :=
  match Text.afterKeyword? ['s', 'i', 'g', 'n', 'a', 'l'] line with
  | none => none
  | some rest =>
    match Text.cut? [':'] rest with
    | none => none
    | some (left, right) =>
      let names := signalNames left
      if names.isEmpty then none else (signalType? right).map fun type => (names, type)

/-- Reads the code of a line at byte `offset`; a line that declares nothing is no fault. -/
def Declaration.read (code : Text) (offset : Nat) : Except SourceFault (Option Declaration) :=
  let lead := Text.byteLength code - Text.byteLength (Text.trimStart code)
  let line := Text.trim code
  let span := Span.between (offset + lead) (offset + lead + Text.byteLength line)
  match declarationParts? line with
  | none => .ok none
  | some (names, .bit) => .ok (some ⟨names, 1, false, span⟩)
  | some (names, .vector range) =>
    match rangeWidth range with
    | .error fault => .error (.malformedDeclaration names fault span)
    | .ok width => .ok (some ⟨names, width, true, span⟩)

theorem Declaration.read_eq_ok {code : Text} {offset : Nat} {declaration : Declaration}
    (found : Declaration.read code offset = .ok (some declaration)) :
    ∃ type, declarationParts? (Text.trim code) = some (declaration.names, type) ∧
      (type = .bit ∧ declaration.width = 1 ∨
        ∃ range, type = .vector range ∧ rangeWidth range = .ok declaration.width) := by
  unfold Declaration.read at found
  simp only at found
  split at found
  · cases found
  · rename_i parts
    cases found
    exact ⟨.bit, parts, .inl ⟨rfl, rfl⟩⟩
  · rename_i range parts
    split at found
    · cases found
    · rename_i ranged
      cases found
      exact ⟨.vector range, parts, .inr ⟨range, rfl, ranged⟩⟩

end TriggerLogic
