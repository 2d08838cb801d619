import TriggerLogic.Logic.SumOfProducts
import TriggerLogic.Text.Basic

namespace TriggerLogic

structure ListingLine where
  bit : Nat
  sum : SumOfProducts
  deriving DecidableEq, Repr

inductive ListingFault where
  | noColon
  | badBit (word : Text)
  | noParentheses
  | badLiteral (word : Text)
  deriving DecidableEq, Repr

def ListingFault.reason : ListingFault → Text
  | .noColon => "expected '<bit> : ( <expression> )'".toList
  | .badBit word => "'".toList ++ word ++ "' is not a bit index".toList
  | .noParentheses => "expression must be parenthesised".toList
  | .badLiteral word => "'".toList ++ word ++ "' is not an input bit".toList

namespace ListingLine

def holds (line : ListingLine) (input : List Bool) : Bool :=
  SumOfProducts.holds line.sum input

def text (line : ListingLine) : Text :=
  Text.decimal line.bit ++ " : ( ".toList ++ SumOfProducts.text line.sum ++ " )\n".toList

end ListingLine

namespace Listing

def text (lines : List ListingLine) : Text :=
  lines.flatMap ListingLine.text

def readLiteral (word : Text) : Except ListingFault Literal :=
  let word := Text.trim word
  let negated := word.head? == some '!'
  match Text.numberBelow? indexBound (if negated then word.drop 1 else word) with
  | some bit => .ok ⟨bit, negated⟩
  | none => .error (.badLiteral word)

def readProduct (text : Text) : Except ListingFault Product :=
  (text.splitOn '*').mapM readLiteral

def readSum (text : Text) : Except ListingFault SumOfProducts :=
  (text.splitOn '+').mapM readProduct

def unwrap? (text : Text) : Option Text :=
  (Text.afterLead? ['('] text).bind (Text.beforeTail? [')'])

def readLine (line : Text) : Except ListingFault ListingLine :=
  match Text.cut? [' ', ':', ' '] line with
  | none => .error .noColon
  | some (left, right) =>
    match Text.numberBelow? indexBound (Text.trim left) with
    | none => .error (.badBit (Text.trim left))
    | some bit =>
      match unwrap? (Text.trim right) with
      | none => .error .noParentheses
      | some inner => (readSum (Text.trim inner)).map fun sum => ⟨bit, sum⟩

def readFrom (number : Nat) : List Text → Except (Nat × ListingFault) (List ListingLine)
  | [] => .ok []
  | line :: more =>
    if (Text.trim line).isEmpty then readFrom (number + 1) more
    else match readLine line with
      | .error fault => .error (number, fault)
      | .ok first => (readFrom (number + 1) more).map (first :: ·)

/-- Reads a whole listing; a fault comes with the number of its line. -/
def read (text : Text) : Except (Nat × ListingFault) (List ListingLine) :=
  readFrom 1 ((Text.lines text).map Text.withoutLineEnd)

end Listing

end TriggerLogic
