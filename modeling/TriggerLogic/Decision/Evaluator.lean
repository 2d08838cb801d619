import TriggerLogic.Decision.Table

namespace TriggerLogic

namespace Literal

def code (literal : Literal) : Text :=
  if literal.negated then "!input[".toList ++ Text.decimal literal.bit ++ [']']
  else "input[".toList ++ Text.decimal literal.bit ++ [']']

end Literal

def Product.code (grouped : Bool) (product : Product) : Text :=
  let joined := Text.join " && ".toList (product.map Literal.code)
  match product with
  | [] => "true".toList
  | [_] => joined
  | _ => if grouped then '(' :: joined ++ [')'] else joined

def SumOfProducts.code (sum : SumOfProducts) : Text :=
  match sum with
  | [] => "false".toList
  | [product] => Product.code false product
  | _ => Text.join " || ".toList (sum.map (Product.code true))

def Output.code (output : Output) : Text :=
  match output.decision with
  | some decision => SumOfProducts.code decision.sum
  | none => "false".toList

structure EvaluatorHead where
  functionName : Text
  sourceName : Text
  sourceDigest : Text
  deriving DecidableEq, Repr

namespace DecisionTable

def evaluatorBody (table : DecisionTable) : Text :=
  table.outputs.zipIdx.flatMap fun entry =>
    "    ftdout[".toList ++ Text.decimal entry.2 ++ "] = ".toList ++ entry.1.code ++ [';', '\n']

def evaluator (table : DecisionTable) (head : EvaluatorHead) : Text :=
  "// Generated by ftdc from ".toList ++ head.sourceName ++ ". Do not edit.\n".toList ++
    "// source blake3: ".toList ++ head.sourceDigest ++ "\n\n".toList ++
    "/// Computes the ".toList ++ Text.decimal table.outputs.length ++ " output bits from ".toList ++
    Text.decimal table.layout.totalBits ++ " input bits.\n".toList ++
    "pub fn ".toList ++ head.functionName ++
    "(ftdout: &mut [bool], input: &[bool]) \x7b\n".toList ++
    table.evaluatorBody ++ "\x7d\n".toList

end DecisionTable

end TriggerLogic
