import TriggerLogic.Text.Basic

namespace TriggerLogic

/-- Bit indices, widths and counts are below 2^64. -/
def indexBound : Nat := 0x10000000000000000

structure Literal where
  bit : Nat
  negated : Bool
  deriving DecidableEq, Repr

abbrev Product := List Literal

abbrev SumOfProducts := List Product

namespace Literal

def high (bit : Nat) : Literal := ⟨bit, false⟩
def low (bit : Nat) : Literal := ⟨bit, true⟩

/-- A bit that the input does not have reads low. -/
def holds (literal : Literal) (input : List Bool) : Bool :=
  input.getD literal.bit false != literal.negated

def text (literal : Literal) : Text :=
  if literal.negated then '!' :: Text.decimal literal.bit else Text.decimal literal.bit

end Literal

namespace Product

def holds (product : Product) (input : List Bool) : Bool :=
  product.all fun literal => literal.holds input

theorem holds_append (first second : Product) (input : List Bool) :
    holds (first ++ second) input = (holds first input && holds second input) :=
  List.all_append

theorem holds_flatMap {α : Type} (items : List α) (product : α → Product) (input : List Bool) :
    holds (items.flatMap product) input = items.all fun item => holds (product item) input := by
  induction items with
  | nil => rfl
  | cons item items ih => rw [List.flatMap_cons, holds_append, List.all_cons, ih]

def text (product : Product) : Text :=
  Text.join [' ', '*', ' '] (product.map Literal.text)

end Product

namespace SumOfProducts

def holds (sum : SumOfProducts) (input : List Bool) : Bool :=
  sum.any fun product => Product.holds product input

theorem holds_iff (sum : SumOfProducts) (input : List Bool) :
    holds sum input = true ↔ ∃ product ∈ sum, Product.holds product input = true :=
  List.any_eq_true

def text (sum : SumOfProducts) : Text :=
  Text.join [' ', '+', ' '] (sum.map Product.text)

end SumOfProducts

namespace Dealing

variable {α : Type}

def countWith? (count : Nat) (choices : List α) : Option Nat :=
  if count * choices.length < indexBound then some (count * choices.length) else none

/-- Number of slots that lists are dealt into, their lengths multiplied from the left. -/
def slotCount? (lists : List (List α)) : Option Nat :=
  lists.foldlM countWith? 1

/-- What slot number `slot` takes from the lists, each being dealt round and round. -/
def hand (tables : List (Array α)) (slot : Nat) : List α :=
  tables.flatMap fun choices => choices[slot % choices.size]?.toList

def deal? (lists : List (List α)) : Option (List (List α)) :=
  let tables := lists.map List.toArray
  (slotCount? lists).map fun count => (List.range count).map (hand tables)

end Dealing

def SumOfProducts.conjoin? (alternatives : List SumOfProducts) : Option SumOfProducts :=
  (Dealing.deal? alternatives).map fun slots => slots.map List.flatten

end TriggerLogic
