import TriggerLogic.Condition.Basic
import TriggerLogic.Logic.SumOfProducts
import TriggerLogic.Source.DesignUnit

namespace TriggerLogic

structure Decision where
  clauses : List Clause
  sum : SumOfProducts
  deriving DecidableEq, Repr

/-- An output bit; without a decision it stays low. -/
structure Output where
  name : Text
  decision : Option Decision := none
  deriving DecidableEq, Repr

/-- Input fields and output bits of one source. An output's bit is its position. -/
structure DecisionTable where
  layout : Layout
  outputs : List Output
  deriving DecidableEq, Repr

/-- Why there is no decision table: the source is at fault, or a condition has more products than
can be counted. -/
inductive TableFault where
  | source (fault : SourceFault)
  | overflow
  deriving DecidableEq, Repr

def TableFault.message : TableFault → Text
  | source fault => fault.message
  | overflow => "attempt to multiply with overflow".toList

namespace Decision

def ofStatement (layout : Layout) (statement : Statement) : Except TableFault Decision :=
  match Condition.read layout statement with
  | .error fault => .error (.source fault)
  | .ok clauses =>
    match clauses.mapM Clause.sum with
    | .error fault => .error (.source fault)
    | .ok sums =>
      match SumOfProducts.conjoin? sums with
      | none => .error .overflow
      | some sum => .ok ⟨clauses, sum⟩

def holds (decision : Decision) (input : List Bool) : Bool :=
  SumOfProducts.holds decision.sum input

end Decision

def Output.value (output : Output) (input : List Bool) : Bool :=
  output.decision.any fun decision => decision.holds input

namespace DecisionTable

def assign (target : Text) (decision : Decision) (outputs : List Output) : List Output :=
  outputs.map fun output =>
    if output.name = target then { output with decision := some decision } else output

/-- Takes in statements in order: the last one to an output wins, and one to a name that is no
output is passed over. -/
def assignAll (layout : Layout) : List Output → List Statement → Except TableFault (List Output)
  | outputs, [] => .ok outputs
  | outputs, statement :: more =>
    if outputs.any fun output => output.name == statement.target then
      match Decision.ofStatement layout statement with
      | .error fault => .error fault
      | .ok decision => assignAll layout (assign statement.target decision outputs) more
    else assignAll layout outputs more

def ofUnit (unit : DesignUnit) : Except TableFault DecisionTable :=
  match Layout.ofDeclarations unit.inputs with
  | .error fault => .error (.source fault)
  | .ok layout =>
    match distinctNames (unit.outputs.map fun output => (output.name, output.span)) with
    | .error fault => .error (.source fault)
    | .ok _ =>
      (assignAll layout (unit.outputs.map fun output => { name := output.name }) unit.statements).map
        fun outputs => ⟨layout, outputs⟩

def ofSource (markers : Markers) (source : Text) : Except TableFault DecisionTable :=
  match DesignUnit.read markers source with
  | .error fault => .error (.source fault)
  | .ok unit => ofUnit unit

def evaluate (table : DecisionTable) (input : List Bool) : List Bool :=
  table.outputs.map fun output => output.value input

def decided (table : DecisionTable) : List (Nat × Text × Decision) :=
  table.outputs.zipIdx.filterMap fun entry =>
    entry.1.decision.map fun decision => (entry.2, entry.1.name, decision)

def outputBit? (table : DecisionTable) (name : Text) : Option Nat :=
  table.outputs.findIdx? fun output => output.name == name

end DecisionTable

end TriggerLogic
