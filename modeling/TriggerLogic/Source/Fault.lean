import TriggerLogic.Logic.Comparison

namespace TriggerLogic

structure Span where
  start : Nat
  stop : Nat
  deriving DecidableEq, Repr

def Span.nowhere : Span := ⟨0, 0⟩

/-- Offsets are kept modulo 2^32. -/
def Span.offsetBound : Nat := 0x100000000

def Span.between (start stop : Nat) : Span :=
  ⟨start % offsetBound, stop % offsetBound⟩

inductive RangeFault where
  | noParentheses
  | unreadable (inner : Text)
  | wrongDirection (word : Text)
  | badBound (word : Text)
  | empty (high low : Nat)
  | tooWide (high low : Nat)
  deriving DecidableEq, Repr

def RangeFault.reason : RangeFault → Text
  | .noParentheses => "expected '(<high> downto <low>)'".toList
  | .unreadable inner => "cannot read range '(".toList ++ inner ++ ")'".toList
  | .wrongDirection word => "expected 'downto', found '".toList ++ word ++ "'".toList
  | .badBound word => "bound '".toList ++ word ++ "' is not a number".toList
  | .empty high low =>
    "range ".toList ++ Text.decimal high ++ " downto ".toList ++ Text.decimal low ++ " is empty".toList
  | .tooWide high low =>
    "range ".toList ++ Text.decimal high ++ " downto ".toList ++ Text.decimal low ++
      " is too wide".toList

inductive SourceFault where
  | malformedDeclaration (names : List Text) (fault : RangeFault) (span : Span)
  | duplicateSignal (name : Text) (span : Span)
  | malformedAssignment (output : Text) (span : Span)
  | unresolvedSignal (name clause output : Text) (span : Span)
  | unsupportedComparator (clause output : Text) (span : Span)
  | negatedComparison (clause output : Text) (span : Span)
  | unsupportedThreshold (comparator : Comparator) (field : Text) (threshold : Nat) (span : Span)
  | emptyExpansion (clause : Text) (span : Span)
  deriving DecidableEq, Repr

namespace SourceFault

def span : SourceFault → Span
  | malformedDeclaration _ _ span => span
  | duplicateSignal _ span => span
  | malformedAssignment _ span => span
  | unresolvedSignal _ _ _ span => span
  | unsupportedComparator _ _ span => span
  | negatedComparison _ _ span => span
  | unsupportedThreshold _ _ _ span => span
  | emptyExpansion _ span => span

def message : SourceFault → Text
  | malformedDeclaration names fault _ =>
    "malformed declaration of '".toList ++ Text.join [',', ' '] names ++ "': ".toList ++ fault.reason
  | duplicateSignal name _ =>
    "signal '".toList ++ name ++ "' is declared more than once".toList
  | malformedAssignment output _ =>
    "assignment to '".toList ++ output ++ "' has no condition".toList
  | unresolvedSignal name clause output _ =>
    "unknown signal '".toList ++ name ++ "' in clause '".toList ++ clause ++ "' of output '".toList ++
      output ++ "'".toList
  | unsupportedComparator clause output _ =>
    "less-than comparison is not supported: '".toList ++ clause ++ "' in output '".toList ++ output ++
      "'".toList
  | negatedComparison clause output _ =>
    "negated comparison '".toList ++ clause ++ "' in output '".toList ++ output ++
      "' cannot be expanded".toList
  | unsupportedThreshold comparator field threshold _ =>
    "unsupported ".toList ++ comparator.symbol ++ " threshold ".toList ++ Text.decimal threshold ++
      " on '".toList ++ field ++ "'".toList
  | emptyExpansion clause _ =>
    "clause '".toList ++ clause ++ "' expands to no terms".toList

def notes : SourceFault → List Text
  | unresolvedSignal .. => ["only signals declared in the inputs region can be referenced".toList]
  | unsupportedThreshold .above _ _ _ => ["'>' thresholds must be in 0..=3".toList]
  | unsupportedThreshold .equal _ _ _ => ["'=' thresholds must be in 0..=2".toList]
  | emptyExpansion .. =>
    ["the threshold leaves no bit of the field able to satisfy the comparison".toList]
  | _ => []

def help? : SourceFault → Option Text
  | malformedDeclaration .. =>
    some ("vector ranges must read 'std_logic_vector(<high> downto <low>)' with high >= low".toList)
  | unsupportedComparator .. => some ("rewrite the clause with '>' or '='".toList)
  | negatedComparison .. =>
    some ("negate the individual bits instead, e.g. 'field = 0' for no bit set".toList)
  | _ => none

end SourceFault

structure Notice where
  message : Text
  span : Span
  notes : List Text := []
  help : Option Text := none
  deriving DecidableEq, Repr

def SourceFault.notice (fault : SourceFault) : Notice :=
  ⟨fault.message, fault.span, fault.notes, fault.help?⟩

end TriggerLogic
