import TriggerLogic.Proofs.PlainTable

namespace TriggerLogic

def statementsTo (name : Text) (statements : List Statement) : List Statement :=
  statements.filter fun statement => statement.target = name

theorem statementsTo_cons_of_eq {name : Text} {statement : Statement} (same : statement.target = name)
    (more : List Statement) :
    statementsTo name (statement :: more) = statement :: statementsTo name more :=
  List.filter_cons_of_pos (decide_eq_true same)

theorem statementsTo_cons_of_ne {name : Text} {statement : Statement} (other : statement.target ≠ name)
    (more : List Statement) : statementsTo name (statement :: more) = statementsTo name more :=
  List.filter_cons_of_neg (by simpa using other)

/-- The output behind the statements: the last one to its name decides. -/
def Output.behind (layout : Layout) (statements : List Statement) (output : Output) : Output :=
  match (statementsTo output.name statements).getLast? with
  | none => output
  | some last => { output with decision := (Decision.ofStatement layout last).toOption }

namespace Output

variable {layout : Layout} {statement : Statement} {output : Output}

theorem behind_cons_of_ne (other : statement.target ≠ output.name) (more : List Statement) :
    output.behind layout (statement :: more) = output.behind layout more := by
  unfold behind
  rw [statementsTo_cons_of_ne other]

theorem behind_cons_of_eq {decision : Decision} (same : statement.target = output.name)
    (decided : Decision.ofStatement layout statement = .ok decision) (more : List Statement) :
    output.behind layout (statement :: more) =
      behind layout more { output with decision := some decision } := by
  unfold behind
  rw [statementsTo_cons_of_eq same, List.getLast?_cons]
  show _ = match (statementsTo output.name more).getLast? with
    | none => _
    | some last => _
  cases (statementsTo output.name more).getLast? with
  | none => simp only [Option.getD_none, decided, Except.toOption]
  | some last => rfl

end Output

namespace DecisionTable

def AllDecide (layout : Layout) (names : List Text) (statements : List Statement) : Prop :=
  ∀ name ∈ names, ∀ statement ∈ statementsTo name statements,
    ∃ decision, Decision.ofStatement layout statement = .ok decision

section Assignments

variable {layout : Layout} {names : List Text} {statement : Statement}

theorem allDecide_cons_of_not_mem (other : statement.target ∉ names) (more : List Statement) :
    AllDecide layout names (statement :: more) ↔ AllDecide layout names more := by
  apply forall₂_congr
  intro name listed
  have apart : statement.target ≠ name := fun same => other (same ▸ listed)
  rw [statementsTo_cons_of_ne apart]

theorem allDecide_cons_of_mem (named : statement.target ∈ names) (more : List Statement) :
    AllDecide layout names (statement :: more) ↔
      (∃ decision, Decision.ofStatement layout statement = .ok decision) ∧
        AllDecide layout names more := by
  constructor
  · intro all
    refine ⟨all _ named statement ?_, ?_⟩
    · rw [statementsTo_cons_of_eq rfl]
      exact List.mem_cons_self
    · intro name listed later member
      apply all name listed later
      by_cases same : statement.target = name
      · rw [statementsTo_cons_of_eq same]
        exact List.mem_cons_of_mem _ member
      · rwa [statementsTo_cons_of_ne same]
  · rintro ⟨first, all⟩ name listed later member
    by_cases same : statement.target = name
    · rw [statementsTo_cons_of_eq same] at member
      rcases List.mem_cons.mp member with rfl | member
      · exact first
      · exact all name listed later member
    · rw [statementsTo_cons_of_ne same] at member
      exact all name listed later member

theorem map_behind_assign {decision : Decision}
    (decided : Decision.ofStatement layout statement = .ok decision) (outputs : List Output)
    (more : List Statement) :
    (assign statement.target decision outputs).map (Output.behind layout more) =
      outputs.map (Output.behind layout (statement :: more)) := by
  rw [assign, List.map_map]
  apply List.map_congr_left
  intro output _
  by_cases same : output.name = statement.target
  · rw [Function.comp_apply, if_pos same, Output.behind_cons_of_eq same.symm decided]
  · rw [Function.comp_apply, if_neg same, Output.behind_cons_of_ne (Ne.symm same)]

/-- Assignments succeed when each statement to an output gives a decision, in whatever order, and
then each output is decided by the last statement to it alone. -/
theorem assignAll_eq_ok_iff {outputs result : List Output} {statements : List Statement} :
    assignAll layout outputs statements = .ok result ↔
      AllDecide layout (outputs.map Output.name) statements ∧
        outputs.map (Output.behind layout statements) = result := by
  induction statements generalizing outputs with
  | nil =>
    have idle : outputs.map (Output.behind layout []) = outputs := List.map_id _
    rw [assignAll, idle, Except.ok.injEq]
    refine (and_iff_right ?_).symm
    intro name _ statement member
    cases member
  | cons statement more ih =>
    rw [assignAll_cons]
    have any : (outputs.any fun output => output.name == statement.target) = true ↔
        statement.target ∈ outputs.map Output.name := by
      simp
    by_cases named : statement.target ∈ outputs.map Output.name
    · rw [if_pos (any.mpr named), allDecide_cons_of_mem named]
      cases decided : Decision.ofStatement layout statement with
      | error fault => simp [Except.bind]
      | ok decision =>
        show assignAll layout (assign statement.target decision outputs) more = _ ↔ _
        rw [ih, names_assign, map_behind_assign decided]
        simp
    · have unnamed : outputs.map (Output.behind layout (statement :: more)) =
          outputs.map (Output.behind layout more) := by
        apply List.map_congr_left
        intro output listed
        apply Output.behind_cons_of_ne
        exact fun same => named (same ▸ List.mem_map_of_mem listed)
      rw [if_neg (mt any.mp named), ih, allDecide_cons_of_not_mem named, unnamed]

end Assignments

theorem ofUnit_eq_ok_iff {unit : DesignUnit} {table : DecisionTable} :
    ofUnit unit = .ok table ↔
      ∃ layout, Layout.ofDeclarations unit.inputs = .ok layout ∧
        distinctNames (unit.outputs.map fun output => (output.name, output.span)) = .ok () ∧
        AllDecide layout (unit.outputs.map OutputDeclaration.name) unit.statements ∧
        ⟨layout, unit.outputs.map fun output =>
          Output.behind layout unit.statements { name := output.name }⟩ = table := by
  rw [ofUnit_eq]
  cases Layout.ofDeclarations unit.inputs with
  | error fault => simp [Except.mapError, Except.bind]
  | ok layout =>
    cases distinctNames (unit.outputs.map fun output => (output.name, output.span)) with
    | error fault => simp [Except.mapError, Except.bind]
    | ok _ =>
      simp only [Except.mapError, Except.bind, map_eq_ok_iff, assignAll_eq_ok_iff, List.map_map]
      simp only [Except.ok.injEq, exists_eq_left', true_and]
      constructor
      · rintro ⟨_, ⟨all, rfl⟩, rfl⟩
        exact ⟨all, rfl⟩
      · rintro ⟨all, rfl⟩
        exact ⟨_, ⟨all, rfl⟩, rfl⟩

structure LastDecides (unit : DesignUnit) (table : DecisionTable) : Prop where
  length : table.outputs.length = unit.outputs.length
  decided : ∀ (bit : Nat) (declared : OutputDeclaration) (last : Statement),
    unit.outputs[bit]? = some declared →
    (statementsTo declared.name unit.statements).getLast? = some last →
    ∃ decision, Decision.ofStatement table.layout last = .ok decision ∧
      table.outputs[bit]? = some ⟨declared.name, some decision⟩
  undecided : ∀ (bit : Nat) (declared : OutputDeclaration), unit.outputs[bit]? = some declared →
    statementsTo declared.name unit.statements = [] →
    table.outputs[bit]? = some ⟨declared.name, none⟩

theorem lastDecides_of_ofUnit {unit : DesignUnit} {table : DecisionTable}
    (built : ofUnit unit = .ok table) : table.LastDecides unit := by
  obtain ⟨layout, -, -, all, rfl⟩ := ofUnit_eq_ok_iff.mp built
  constructor
  · exact List.length_map _
  · intro bit declared last placed final
    have named : declared.name ∈ unit.outputs.map OutputDeclaration.name :=
      List.mem_map_of_mem (List.mem_of_getElem? placed)
    obtain ⟨decision, decided⟩ := all _ named last (List.mem_of_getLast? final)
    refine ⟨decision, decided, ?_⟩
    rw [List.getElem?_map, placed, Option.map_some, Output.behind]
    simp only [final, decided, Except.toOption]
  · intro bit declared placed none
    rw [List.getElem?_map, placed, Option.map_some, Output.behind]
    simp only [none, List.getLast?_nil]

end DecisionTable

/-- Two units declare the same, and to each output they have the same statements in the same order.
Places in the source and blanks do not count, nor do statements to other names or how the statements
to different outputs are interleaved. -/
structure DesignUnit.SameAssignments (first second : DesignUnit) : Prop where
  inputs : first.inputs.map InputDeclaration.plain = second.inputs.map InputDeclaration.plain
  outputs : first.outputs.map OutputDeclaration.plain = second.outputs.map OutputDeclaration.plain
  statements : ∀ name ∈ first.outputs.map OutputDeclaration.name,
    (statementsTo name first.statements).map Statement.plain =
      (statementsTo name second.statements).map Statement.plain

namespace DesignUnit.SameAssignments

variable {first second : DesignUnit}

theorem names (same : SameAssignments first second) :
    first.outputs.map OutputDeclaration.name = second.outputs.map OutputDeclaration.name := by
  have names := congrArg (List.map OutputDeclaration.name) same.outputs
  rw [List.map_map, List.map_map] at names
  exact names

theorem symm (same : SameAssignments first second) : SameAssignments second first where
  inputs := same.inputs.symm
  outputs := same.outputs.symm
  statements := by
    intro name listed
    rw [← same.names] at listed
    exact (same.statements name listed).symm

end DesignUnit.SameAssignments

theorem Decision.toOption_alike {layout : Layout} {first second : Statement}
    (same : first.plain = second.plain) :
    (ofStatement layout first).toOption.map Decision.plain =
      (ofStatement layout second).toOption.map Decision.plain := by
  have outcome := @ofStatement_alike layout _ _ same
  generalize ofStatement layout first = one at outcome ⊢
  generalize ofStatement layout second = other at outcome ⊢
  cases outcome with
  | error _ => rfl
  | ok alike => exact congrArg some alike

theorem Output.behind_alike {layout : Layout} {first second : List Statement} {output : Output}
    (same : (statementsTo output.name first).map Statement.plain =
      (statementsTo output.name second).map Statement.plain) :
    (output.behind layout first).plain = (output.behind layout second).plain := by
  have last := congrArg List.getLast? same
  rw [List.getLast?_map, List.getLast?_map] at last
  unfold behind
  generalize (statementsTo output.name first).getLast? = one at last ⊢
  generalize (statementsTo output.name second).getLast? = other at last ⊢
  cases rel_of_map_eq last with
  | none => rfl
  | some alike => simp only [plain, Decision.toOption_alike alike]

namespace DecisionTable

theorem AllDecide.alike {layout : Layout} {names : List Text} {first second : List Statement}
    (same : ∀ name ∈ names, (statementsTo name first).map Statement.plain =
      (statementsTo name second).map Statement.plain)
    (all : AllDecide layout names first) : AllDecide layout names second := by
  intro name listed statement member
  have plain : statement.plain ∈ (statementsTo name first).map Statement.plain :=
    same name listed ▸ List.mem_map_of_mem member
  obtain ⟨earlier, inFirst, alike⟩ := List.mem_map.mp plain
  obtain ⟨decision, decided⟩ := all name listed earlier inFirst
  have outcome := @Decision.ofStatement_alike layout _ _ alike
  rw [decided] at outcome
  cases found : Decision.ofStatement layout statement with
  | error fault =>
    rw [found] at outcome
    cases outcome
  | ok other => exact ⟨other, rfl⟩

theorem ofUnit_of_sameAssignments {first second : DesignUnit} {table : DecisionTable}
    (same : first.SameAssignments second) (built : ofUnit first = .ok table) :
    ∃ other, ofUnit second = .ok other ∧ table.plain = other.plain := by
  obtain ⟨layout, placed, distinct, all, rfl⟩ := ofUnit_eq_ok_iff.mp built
  have placedToo : Layout.ofDeclarations second.inputs = .ok layout := by
    have outcome := Layout.ofDeclarations_alike same.inputs
    rw [placed] at outcome
    generalize Layout.ofDeclarations second.inputs = other at outcome ⊢
    cases outcome with
    | ok sameLayout => rw [sameLayout]
  have distinctToo :
      distinctNames (second.outputs.map fun output => (output.name, output.span)) = .ok () := by
    have entries : (first.outputs.map fun output => (output.name, output.span)).map Prod.fst =
        (second.outputs.map fun output => (output.name, output.span)).map Prod.fst := by
      rw [List.map_map, List.map_map]
      exact same.names
    have outcome := distinctNames_alike entries
    rw [distinct] at outcome
    generalize distinctNames (second.outputs.map fun output => (output.name, output.span)) = other
      at outcome ⊢
    cases outcome with
    | ok _ => rfl
  refine ⟨_, ofUnit_eq_ok_iff.mpr ⟨layout, placedToo, distinctToo, ?_, rfl⟩, ?_⟩
  · rw [← same.names]
    exact all.alike same.statements
  · have decided : (first.outputs.map OutputDeclaration.name).map (fun name =>
          (Output.behind layout first.statements { name := name }).plain) =
        (second.outputs.map OutputDeclaration.name).map fun name =>
          (Output.behind layout second.statements { name := name }).plain := by
      rw [← same.names]
      exact List.map_congr_left fun name listed => Output.behind_alike (same.statements name listed)
    rw [List.map_map, List.map_map] at decided
    rw [plain, plain, List.map_map, List.map_map]
    exact congrArg (DecisionTable.mk layout) decided

/-- Units with the same assignments to each output are both refused, or the last statement to each
output decides it in both and all that is computed and emitted is the same. -/
theorem interleaving_changes_nothing {first second : DesignUnit}
    (same : first.SameAssignments second) :
    (∃ fault other, ofUnit first = .error fault ∧ ofUnit second = .error other) ∨
      ∃ table other, ofUnit first = .ok table ∧ ofUnit second = .ok other ∧
        table.LastDecides first ∧ other.LastDecides second ∧
        (∀ input, table.evaluate input = other.evaluate input) ∧
        table.inputTable = other.inputTable ∧ table.outputTable = other.outputTable ∧
        Listing.text table.algebra = Listing.text other.algebra ∧
        table.evaluatorBody = other.evaluatorBody ∧ table.summary = other.summary := by
  cases built : ofUnit first with
  | error fault =>
    cases later : ofUnit second with
    | error other => exact .inl ⟨fault, other, rfl, rfl⟩
    | ok other =>
      obtain ⟨table, contrary, -⟩ := ofUnit_of_sameAssignments same.symm later
      rw [built] at contrary
      cases contrary
  | ok table =>
    obtain ⟨other, later, alike⟩ := ofUnit_of_sameAssignments same built
    have layout : table.layout = other.layout := by
      rw [← table.layout_plain, alike, other.layout_plain]
    refine .inr ⟨table, other, rfl, later, lastDecides_of_ofUnit built, lastDecides_of_ofUnit later,
      ?_, ?_, ?_, ?_, ?_, ?_⟩
    · intro input
      rw [← table.evaluate_plain, alike, other.evaluate_plain]
    · rw [inputTable, inputTable, layout]
    · rw [← table.outputTable_plain, alike, other.outputTable_plain]
    · rw [← table.algebra_plain, alike, other.algebra_plain]
    · rw [← table.evaluatorBody_plain, alike, other.evaluatorBody_plain]
    · rw [← table.summary_plain, alike, other.summary_plain]

def interleavedUnit : DesignUnit where
  inputs := [⟨['a'], 1, ⟨10, 31⟩⟩, ⟨['b'], 3, ⟨32, 71⟩⟩]
  outputs := [⟨['y'], ⟨83, 104⟩⟩, ⟨['z'], ⟨105, 126⟩⟩, ⟨['s'], ⟨127, 148⟩⟩]
  statements := [⟨['y'], " a".toList, ⟨159, 161⟩, ⟨155, 162⟩⟩,
    ⟨['z'], " b>0 and a".toList, ⟨167, 177⟩, ⟨163, 178⟩⟩,
    ⟨['y'], " not a and b=1".toList, ⟨183, 197⟩, ⟨179, 198⟩⟩]

def regroupedUnit : DesignUnit where
  inputs := [⟨['a'], 1, ⟨10, 31⟩⟩, ⟨['b'], 3, ⟨32, 71⟩⟩]
  outputs := [⟨['y'], ⟨83, 104⟩⟩, ⟨['z'], ⟨105, 126⟩⟩, ⟨['s'], ⟨127, 148⟩⟩]
  statements := [⟨['z'], " b>0 and  a".toList, ⟨159, 170⟩, ⟨155, 171⟩⟩,
    ⟨['t'], " b<0".toList, ⟨176, 180⟩, ⟨172, 181⟩⟩,
    ⟨['y'], " a".toList, ⟨186, 188⟩, ⟨182, 189⟩⟩,
    ⟨['y'], " not a and b=1".toList, ⟨194, 208⟩, ⟨190, 209⟩⟩]

theorem regroupedUnit_decided_alike :
    interleavedUnit.SameAssignments regroupedUnit ∧
      ∃ table other, ofUnit interleavedUnit = .ok table ∧ ofUnit regroupedUnit = .ok other ∧
        table.evaluate [false, true] = other.evaluate [false, true] ∧
        table.summary = other.summary := by
  have same : interleavedUnit.SameAssignments regroupedUnit :=
    ⟨by decide, by decide, by decide +kernel⟩
  have accepted : (ofUnit interleavedUnit).isOk = true := by decide +kernel
  refine ⟨same, ?_⟩
  rcases interleaving_changes_nothing same with ⟨fault, -, refused, -⟩ |
    ⟨table, other, built, later, -, -, values, -, -, -, -, summary⟩
  · rw [refused] at accepted
    cases accepted
  · exact ⟨table, other, built, later, values _, summary⟩

end DecisionTable

end TriggerLogic
