import TriggerLogic.Decision.Table
import TriggerLogic.Logic.Listing

namespace TriggerLogic

def bitTableLine (bit : Nat) (label : Text) : Text :=
  Text.decimal bit ++ [' ', ' ', ' '] ++ label ++ ['\n']

/-- The label of each bit of a field: its name, numbered unless the field is a single bit. -/
def Field.labels (field : Field) : List Text :=
  if field.width = 1 then [field.name]
  else (List.range field.width).map fun place => field.name ++ '_' :: Text.decimal place

namespace DecisionTable

def inputTable (table : DecisionTable) : Text :=
  table.layout.fields.flatMap fun field =>
    (field.labels.zipIdx field.start).flatMap fun entry => bitTableLine entry.2 entry.1

def outputTable (table : DecisionTable) : Text :=
  table.outputs.zipIdx.flatMap fun entry => bitTableLine entry.2 entry.1.name

def algebra (table : DecisionTable) : List ListingLine :=
  table.decided.map fun entry => ⟨entry.1, entry.2.2.sum⟩

end DecisionTable

def padRight (width : Nat) (text : Text) : Text :=
  text ++ List.replicate (width - text.length) ' '

def summaryEntry (place name : Text) : Text :=
  [' ', ' '] ++ padRight 8 place ++ ' ' :: name

def Field.place (field : Field) : Text :=
  if field.width = 1 then Text.decimal field.start
  else Text.decimal field.start ++ "..=".toList ++ Text.decimal (field.start + field.width - 1)

def Output.condition (output : Output) : Text :=
  match output.decision with
  | none => "  (unassigned)\n".toList
  | some decision =>
    " <= ".toList ++ Text.join " and ".toList (decision.clauses.map Clause.text) ++ "  [".toList ++
      Text.decimal decision.sum.length ++ " terms]\n".toList

def DecisionTable.summary (table : DecisionTable) : Text :=
  "inputs: ".toList ++ Text.decimal table.layout.fields.length ++ " fields, ".toList ++
    Text.decimal table.layout.totalBits ++ " bits\n".toList ++
    table.layout.fields.flatMap (fun field => summaryEntry field.place field.name ++ ['\n']) ++
    "outputs: ".toList ++ Text.decimal table.outputs.length ++ " bits\n".toList ++
    table.outputs.zipIdx.flatMap (fun entry =>
      summaryEntry (Text.decimal entry.2) entry.1.name ++ entry.1.condition) ++
    "algebra:\n".toList ++ table.algebra.flatMap fun line => [' ', ' '] ++ line.text

end TriggerLogic
