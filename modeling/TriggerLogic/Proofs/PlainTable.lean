import Mathlib.Data.List.Forall2
import TriggerLogic.Artifact.Compiled
import TriggerLogic.Decision.Printout
import TriggerLogic.Proofs.SqueezedText

namespace TriggerLogic

def SourceFault.plain : SourceFault → SourceFault
  | malformedDeclaration names fault _ => malformedDeclaration names fault .nowhere
  | duplicateSignal name _ => duplicateSignal name .nowhere
  | malformedAssignment output _ => malformedAssignment output .nowhere
  | unresolvedSignal name clause output _ => unresolvedSignal name clause output .nowhere
  | unsupportedComparator clause output _ => unsupportedComparator clause output .nowhere
  | negatedComparison clause output _ => negatedComparison clause output .nowhere
  | unsupportedThreshold comparator field threshold _ =>
    unsupportedThreshold comparator field threshold .nowhere
  | emptyExpansion clause _ => emptyExpansion clause .nowhere

theorem SourceFault.message_plain (fault : SourceFault) : fault.plain.message = fault.message := by
  cases fault <;> rfl

def TableFault.plain : TableFault → TableFault
  | source fault => source fault.plain
  | overflow => overflow

theorem TableFault.message_plain (fault : TableFault) : fault.plain.message = fault.message := by
  cases fault with
  | source fault => exact fault.message_plain
  | overflow => rfl

/-- Two outcomes that are alike: faults that say the same, or values that are related. -/
inductive SameOutcome {ε α : Type} (plain : ε → ε) (alike : α → α → Prop) :
    Except ε α → Except ε α → Prop
  | error {fault other : ε} (same : plain fault = plain other) :
    SameOutcome plain alike (.error fault) (.error other)
  | ok {value other : α} (same : alike value other) : SameOutcome plain alike (.ok value) (.ok other)

namespace SameOutcome

variable {ε α β : Type} {plain : ε → ε} {alike : α → α → Prop} {after : β → β → Prop}
  {first second : Except ε α}

theorem bind {next later : α → Except ε β} (same : SameOutcome plain alike first second)
    (goesOn : ∀ value other, first = .ok value → alike value other →
      SameOutcome plain after (next value) (later other)) :
    SameOutcome plain after (first.bind next) (second.bind later) := by
  cases same with
  | error same => exact .error same
  | ok same => exact goesOn _ _ rfl same

theorem map {next later : α → β} (same : SameOutcome plain alike first second)
    (goesOn : ∀ value other, alike value other → after (next value) (later other)) :
    SameOutcome plain after (first.map next) (second.map later) :=
  same.bind fun value other _ both => .ok (goesOn value other both)

theorem source {first second : Except SourceFault α}
    (same : SameOutcome SourceFault.plain alike first second) :
    SameOutcome TableFault.plain alike (first.mapError .source) (second.mapError .source) := by
  cases same with
  | error same => exact .error (congrArg TableFault.source same)
  | ok same => exact .ok same

end SameOutcome

theorem rel_of_map_eq {α β : Type} {f : α → β} {first second : Option α}
    (same : first.map f = second.map f) :
    Option.Rel (fun value other => f value = f other) first second := by
  cases first with
  | none =>
    cases second with
    | none => exact .none
    | some other => cases same
  | some value =>
    cases second with
    | none => cases same
    | some other => exact .some (Option.some.inj same)

theorem forall₂_of_map_eq {α β : Type} {f : α → β} {first second : List α}
    (same : first.map f = second.map f) :
    List.Forall₂ (fun item other => f item = f other) first second := by
  rw [← List.forall₂_eq_eq_eq, List.forall₂_map_left_iff, List.forall₂_map_right_iff] at same
  exact same

def Clause.plain (clause : Clause) : Clause :=
  { clause with span := .nowhere }

def Decision.plain (decision : Decision) : Decision :=
  { decision with clauses := decision.clauses.map Clause.plain }

def Output.plain (output : Output) : Output :=
  { output with decision := output.decision.map Decision.plain }

def DecisionTable.plain (table : DecisionTable) : DecisionTable :=
  { table with outputs := table.outputs.map Output.plain }

def InputDeclaration.plain (declaration : InputDeclaration) : InputDeclaration :=
  { declaration with span := .nowhere }

def OutputDeclaration.plain (declaration : OutputDeclaration) : OutputDeclaration :=
  { declaration with span := .nowhere }

/-- The statement without its place, its right-hand side squeezed. -/
def Statement.plain (statement : Statement) : Statement :=
  ⟨statement.target, Text.squeeze statement.rhs, .nowhere, .nowhere⟩

theorem Statement.eq_of_plain {first second : Statement} (same : first.plain = second.plain) :
    first.target = second.target ∧ Text.squeeze first.rhs = Text.squeeze second.rhs := by
  obtain ⟨target, rhs, -⟩ := Statement.mk.inj same
  exact ⟨target, rhs⟩

def DesignUnit.plain (unit : DesignUnit) : DesignUnit :=
  ⟨unit.inputs.map InputDeclaration.plain, unit.outputs.map OutputDeclaration.plain,
    unit.statements.map Statement.plain⟩

theorem Clause.read_alike {layout : Layout} {output first second : Text} (span place : Span)
    (same : Text.squeeze first = Text.squeeze second) :
    SameOutcome SourceFault.plain (fun clause other => clause.plain = other.plain)
      (read layout output span first) (read layout output place second) := by
  have spelled : ClauseSpelling.ofPiece first = ClauseSpelling.ofPiece second := by
    rw [← ClauseSpelling.ofPiece_squeeze, same, ClauseSpelling.ofPiece_squeeze]
  unfold read
  rw [spelled]
  simp only
  split
  · exact .error rfl
  · split
    · exact .error rfl
    · split
      · exact .error rfl
      · split
        · exact .ok rfl
        · split
          · exact .error rfl
          · exact .ok rfl

theorem Clause.sum_alike {first second : Clause} (same : first.plain = second.plain) :
    SameOutcome SourceFault.plain Eq first.sum second.sum := by
  obtain ⟨demand, text, span⟩ := first
  obtain ⟨_, _, place⟩ := second
  cases same
  unfold sum
  simp only
  split
  · exact .ok rfl
  · split
    · exact .ok rfl
    · exact .error rfl
    · exact .error rfl

theorem Clause.sums_alike {first second : List Clause}
    (same : first.map Clause.plain = second.map Clause.plain) :
    SameOutcome SourceFault.plain Eq (first.mapM Clause.sum) (second.mapM Clause.sum) := by
  replace same := forall₂_of_map_eq same
  induction same with
  | nil => exact .ok rfl
  | cons alike _ ih =>
    rw [List.mapM_cons, List.mapM_cons]
    refine (Clause.sum_alike alike).bind fun sum other _ sameSum => ?_
    refine ih.bind fun sums more _ rest => ?_
    rw [sameSum, rest]
    exact .ok rfl

namespace Condition

theorem readPieces_cons (layout : Layout) (output : Text) (offset : Nat) (piece : Text)
    (more : List Text) :
    readPieces layout output offset (piece :: more) =
      (Clause.read layout output (pieceSpan offset piece) piece).bind fun clause =>
        (readPieces layout output (offset + Text.byteLength piece + 3) more).map (clause :: ·) := by
  rw [readPieces]
  cases Clause.read layout output (pieceSpan offset piece) piece <;> rfl

theorem readPieces_alike {layout : Layout} {output : Text} {pieces others : List Text}
    (same : pieces.map Text.squeeze = others.map Text.squeeze) (offset place : Nat) :
    SameOutcome SourceFault.plain
      (fun clauses more => clauses.map Clause.plain = more.map Clause.plain)
      (readPieces layout output offset pieces) (readPieces layout output place others) := by
  replace same := forall₂_of_map_eq same
  induction same generalizing offset place with
  | nil => exact .ok rfl
  | cons alike _ ih =>
    rw [readPieces_cons, readPieces_cons]
    refine (Clause.read_alike _ _ alike).bind fun clause other _ sameClause => ?_
    refine (ih _ _).map fun clauses more rest => ?_
    rw [List.map_cons, List.map_cons, sameClause, rest]

theorem read_alike {layout : Layout} {first second : Statement} (same : first.plain = second.plain) :
    SameOutcome SourceFault.plain
      (fun clauses more => clauses.map Clause.plain = more.map Clause.plain)
      (read layout first) (read layout second) := by
  obtain ⟨target, rhs⟩ := Statement.eq_of_plain same
  have level : isUnconditional first.rhs = isUnconditional second.rhs := by
    rw [← isUnconditional_squeeze, rhs, isUnconditional_squeeze]
  have opened : (extent first.rhs).opened = (extent second.rhs).opened := by
    rw [← (extent_squeeze first.rhs).1, rhs, (extent_squeeze second.rhs).1]
  have text : Text.squeeze (extent first.rhs).text = Text.squeeze (extent second.rhs).text := by
    rw [← (extent_squeeze first.rhs).2, rhs, (extent_squeeze second.rhs).2]
  unfold read
  rw [level, target]
  split
  · exact .error rfl
  · apply readPieces_alike
    rw [opened]
    rw [← Text.pieces_squeeze Text.isKeyword_and, text, Text.pieces_squeeze Text.isKeyword_and]

end Condition

namespace Decision

theorem ofStatement_eq (layout : Layout) (statement : Statement) :
    ofStatement layout statement =
      ((Condition.read layout statement).mapError .source).bind fun clauses =>
        ((clauses.mapM Clause.sum).mapError .source).bind fun sums =>
          (SumOfProducts.conjoin? sums).elim (.error .overflow) fun sum => .ok ⟨clauses, sum⟩ := by
  rw [ofStatement]
  cases Condition.read layout statement with
  | error fault => rfl
  | ok clauses =>
    simp only [Except.mapError, Except.bind]
    cases clauses.mapM Clause.sum with
    | error fault => rfl
    | ok sums =>
      simp only
      cases SumOfProducts.conjoin? sums <;> rfl

theorem ofStatement_alike {layout : Layout} {first second : Statement}
    (same : first.plain = second.plain) :
    SameOutcome TableFault.plain (fun decision other => decision.plain = other.plain)
      (ofStatement layout first) (ofStatement layout second) := by
  rw [ofStatement_eq, ofStatement_eq]
  refine (Condition.read_alike same).source.bind fun clauses others _ alike => ?_
  refine (Clause.sums_alike alike).source.bind fun sums more _ sameSums => ?_
  cases sameSums
  cases SumOfProducts.conjoin? sums with
  | none => exact .error rfl
  | some sum =>
    apply SameOutcome.ok
    rw [plain, plain, alike]

end Decision

theorem firstRepeated?_congr {first second : List (Text × Span)}
    (same : first.map Prod.fst = second.map Prod.fst) (seen : List Text) :
    (firstRepeated? seen first).map Prod.fst = (firstRepeated? seen second).map Prod.fst := by
  replace same := forall₂_of_map_eq same
  induction same generalizing seen with
  | nil => rfl
  | cons alike _ ih =>
    rw [firstRepeated?, firstRepeated?, alike]
    split
    · exact congrArg some alike
    · exact ih _

theorem distinctNames_alike {first second : List (Text × Span)}
    (same : first.map Prod.fst = second.map Prod.fst) :
    SameOutcome SourceFault.plain Eq (distinctNames first) (distinctNames second) := by
  have found := rel_of_map_eq (firstRepeated?_congr same [])
  unfold distinctNames
  generalize firstRepeated? [] first = entry at found ⊢
  generalize firstRepeated? [] second = other at found ⊢
  cases found with
  | none => exact .ok rfl
  | some named => exact .error (congrArg (SourceFault.duplicateSignal · .nowhere) named)

namespace Layout

theorem place_plain (start : Nat) (declarations : List InputDeclaration) :
    place start (declarations.map InputDeclaration.plain) = place start declarations := by
  induction declarations generalizing start with
  | nil => rfl
  | cons declaration more ih =>
    rw [List.map_cons, place, place, ih]
    rfl

theorem ofDeclarations_alike {first second : List InputDeclaration}
    (same : first.map InputDeclaration.plain = second.map InputDeclaration.plain) :
    SameOutcome SourceFault.plain Eq (ofDeclarations first) (ofDeclarations second) := by
  have names := congrArg (List.map InputDeclaration.name) same
  rw [List.map_map, List.map_map] at names
  rw [ofDeclarations, ofDeclarations]
  refine (distinctNames_alike ?_).map fun _ _ _ => ?_
  · rw [List.map_map, List.map_map]
    exact names
  · rw [← place_plain, same, place_plain]

end Layout

namespace DecisionTable

theorem plain_assign (target : Text) (decision : Decision) (outputs : List Output) :
    (assign target decision outputs).map Output.plain =
      assign target decision.plain (outputs.map Output.plain) := by
  rw [assign, assign, List.map_map, List.map_map]
  apply List.map_congr_left
  intro output _
  by_cases named : output.name = target
  · simp [Output.plain, named]
  · simp [Output.plain, named]

theorem assignAll_cons (layout : Layout) (outputs : List Output) (statement : Statement)
    (more : List Statement) :
    assignAll layout outputs (statement :: more) =
      if outputs.any fun output => output.name == statement.target then
        (Decision.ofStatement layout statement).bind fun decision =>
          assignAll layout (assign statement.target decision outputs) more
      else assignAll layout outputs more := by
  rw [assignAll]
  cases Decision.ofStatement layout statement <;> rfl

theorem assignAll_alike {layout : Layout} {outputs others : List Output}
    {statements more : List Statement}
    (sameOutputs : outputs.map Output.plain = others.map Output.plain)
    (same : statements.map Statement.plain = more.map Statement.plain) :
    SameOutcome TableFault.plain
      (fun outputs others => outputs.map Output.plain = others.map Output.plain)
      (assignAll layout outputs statements) (assignAll layout others more) := by
  replace same := forall₂_of_map_eq same
  induction same generalizing outputs others with
  | nil => exact .ok sameOutputs
  | @cons statement other _ _ alike _ ih =>
    obtain ⟨target, -⟩ := Statement.eq_of_plain alike
    have named : (outputs.any fun output => output.name == other.target) =
        others.any fun output => output.name == other.target := by
      have any := congrArg (List.any · fun output => output.name == other.target) sameOutputs
      rw [List.any_map, List.any_map] at any
      exact any
    rw [assignAll_cons, assignAll_cons, target, named]
    split
    · refine (Decision.ofStatement_alike alike).bind fun decision another _ sameDecision => ?_
      apply ih
      rw [plain_assign, plain_assign, sameOutputs, sameDecision]
    · exact ih sameOutputs

theorem ofUnit_eq (unit : DesignUnit) :
    ofUnit unit =
      ((Layout.ofDeclarations unit.inputs).mapError .source).bind fun layout =>
        ((distinctNames (unit.outputs.map fun output => (output.name, output.span))).mapError
          .source).bind fun _ =>
          (assignAll layout (unit.outputs.map fun output => { name := output.name })
            unit.statements).map fun outputs => ⟨layout, outputs⟩ := by
  rw [ofUnit]
  cases Layout.ofDeclarations unit.inputs with
  | error fault => rfl
  | ok layout =>
    simp only
    cases distinctNames (unit.outputs.map fun output => (output.name, output.span)) <;> rfl

theorem ofUnit_alike {first second : DesignUnit} (same : first.plain = second.plain) :
    SameOutcome TableFault.plain (fun table other => table.plain = other.plain) (ofUnit first)
      (ofUnit second) := by
  obtain ⟨inputs, outputs, statements⟩ := DesignUnit.mk.inj same
  have names := congrArg (List.map OutputDeclaration.name) outputs
  have undecided := congrArg (List.map fun output => Output.mk output.name none) outputs
  rw [List.map_map, List.map_map] at names undecided
  rw [ofUnit_eq, ofUnit_eq]
  refine (Layout.ofDeclarations_alike inputs).source.bind fun layout other _ sameLayout => ?_
  cases sameLayout
  refine (distinctNames_alike ?_).source.bind fun _ _ _ _ => ?_
  · rw [List.map_map, List.map_map]
    exact names
  · refine (assignAll_alike ?_ statements).map fun outputs others sameOutputs => ?_
    · rw [List.map_map, List.map_map]
      exact undecided
    · rw [plain, plain, sameOutputs]

section Artifacts

variable (table : DecisionTable)

theorem layout_plain : table.plain.layout = table.layout := rfl

theorem algebra_plain : table.plain.algebra = table.algebra := by
  rw [algebra, algebra, decided, decided, plain, List.zipIdx_map, List.filterMap_map,
    List.map_filterMap, List.map_filterMap]
  congr 1
  funext entry
  cases found : entry.1.decision <;> simp [Output.plain, Decision.plain, found]

theorem outputTable_plain : table.plain.outputTable = table.outputTable := by
  rw [outputTable, outputTable, plain, List.zipIdx_map, List.flatMap_map]
  rfl

theorem evaluatorBody_plain : table.plain.evaluatorBody = table.evaluatorBody := by
  have code : ∀ output : Output, output.plain.code = output.code := by
    intro output
    cases found : output.decision <;> simp [Output.code, Output.plain, Decision.plain, found]
  rw [evaluatorBody, evaluatorBody, plain, List.zipIdx_map, List.flatMap_map]
  simp only [Prod.map, code, id_eq]

theorem artifacts_plain (head : EvaluatorHead) : table.plain.artifacts head = table.artifacts head := by
  have count : table.plain.outputs.length = table.outputs.length := List.length_map _
  have program : table.plain.evaluator head = table.evaluator head := by
    unfold evaluator
    rw [evaluatorBody_plain, count, layout_plain]
  rw [artifacts, artifacts, outputTable_plain, algebra_plain, program, inputTable, inputTable,
    layout_plain]

theorem evaluate_plain (input : List Bool) : table.plain.evaluate input = table.evaluate input := by
  rw [evaluate, evaluate, plain, List.map_map]
  apply List.map_congr_left
  intro output _
  cases found : output.decision <;>
    simp [Output.value, Output.plain, Decision.plain, Decision.holds, found]

theorem summary_plain : table.plain.summary = table.summary := by
  have condition : ∀ output : Output, output.plain.condition = output.condition := by
    intro output
    cases found : output.decision with
    | none => simp [Output.condition, Output.plain, found]
    | some decision =>
      simp only [Output.condition, Output.plain, found, Option.map_some, Decision.plain, List.map_map]
      rfl
  have count : table.plain.outputs.length = table.outputs.length := List.length_map _
  have entries : (table.plain.outputs.zipIdx.flatMap fun entry =>
        summaryEntry (Text.decimal entry.2) entry.1.name ++ entry.1.condition) =
      table.outputs.zipIdx.flatMap fun entry =>
        summaryEntry (Text.decimal entry.2) entry.1.name ++ entry.1.condition := by
    rw [plain, List.zipIdx_map, List.flatMap_map]
    simp only [Prod.map, condition, id_eq]
    rfl
  unfold summary
  rw [entries, algebra_plain, count, layout_plain]

end Artifacts

end DecisionTable

end TriggerLogic
