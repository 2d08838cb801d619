import Mathlib.Control.Monad.Basic
import Mathlib.Data.List.Forall2
import TriggerLogic.Decision.Table

namespace TriggerLogic

theorem map_eq_ok_iff {ε α β : Type} {value : α → β} {outcome : Except ε α} {result : β} :
    outcome.map value = .ok result ↔ ∃ found, outcome = .ok found ∧ value found = result := by
  cases outcome <;> simp [Except.map]

theorem exists_of_forall₂ {α β : Type} {related : α → β → Prop} {firsts : List α} {seconds : List β}
    (all : List.Forall₂ related firsts seconds) {first : α} (listed : first ∈ firsts) :
    ∃ second, related first second := by
  induction all with
  | nil => cases listed
  | cons holds _ ih =>
    rcases List.mem_cons.mp listed with rfl | later
    · exact ⟨_, holds⟩
    · exact ih later

theorem mapM_eq_ok_iff {ε α β : Type} {step : α → Except ε β} {items : List α} {results : List β} :
    items.mapM step = .ok results ↔
      List.Forall₂ (fun item result => step item = .ok result) items results := by
  induction items generalizing results with
  | nil => simp [Pure.pure, Except.pure, eq_comm]
  | cons item items ih =>
    rw [List.mapM_cons, List.forall₂_cons_left_iff]
    cases first : step item with
    | error fault => simp [Bind.bind, Except.bind]
    | ok result =>
      cases others : items.mapM step with
      | error fault =>
        simp only [Bind.bind, Except.bind, reduceCtorEq, Except.ok.injEq, false_iff]
        rintro ⟨_, rest, _, steps, _⟩
        rw [← ih, others] at steps
        cases steps
      | ok rest =>
        simp only [Bind.bind, Except.bind, Pure.pure, Except.pure, Except.ok.injEq]
        constructor
        · rintro rfl
          exact ⟨result, rest, rfl, ih.mp others, rfl⟩
        · rintro ⟨_, more, rfl, steps, rfl⟩
          rw [← ih, others] at steps
          cases steps
          rfl

/-- What a demand asks about is declared: its field, or the field that its bit starts. -/
def Demand.InLayout (layout : Layout) : Demand → Prop
  | .literal asked => ∃ field ∈ layout.fields, asked.bit = field.start
  | .compare _ field _ => field ∈ layout.fields

theorem Clause.inLayout_of_read {layout : Layout} {output piece : Text} {span : Span} {clause : Clause}
    (found : Clause.read layout output span piece = .ok clause) : clause.demand.InLayout layout := by
  unfold Clause.read at found
  simp only at found
  split at found
  · cases found
  split at found
  · cases found
  split at found
  · cases found
  rename_i field declared
  have listed : field ∈ layout.fields := List.mem_of_find?_eq_some declared
  split at found
  · cases found
    exact ⟨field, listed, rfl⟩
  · split at found
    · cases found
    · cases found
      exact listed

namespace Condition

theorem clauses_of_readPieces {layout : Layout} {output : Text} {offset : Nat} {pieces : List Text}
    {clauses : List Clause} (found : readPieces layout output offset pieces = .ok clauses) :
    clauses.length = pieces.length ∧ ∀ clause ∈ clauses, clause.demand.InLayout layout := by
  induction pieces generalizing offset clauses with
  | nil =>
    cases found
    simp
  | cons piece pieces ih =>
    unfold readPieces at found
    split at found
    · cases found
    · rename_i clause first
      obtain ⟨more, others, rfl⟩ := map_eq_ok_iff.mp found
      obtain ⟨sameLength, inLayout⟩ := ih others
      constructor
      · rw [List.length_cons, List.length_cons, sameLength]
      · exact List.forall_mem_cons.mpr ⟨Clause.inLayout_of_read first, inLayout⟩

theorem piecesFrom_ne_nil (keyword : Text) (skip : Nat) (opened : Bool) (text : Text) :
    Text.piecesFrom keyword skip opened text ≠ [] := by
  induction text generalizing skip opened with
  | nil => simp [Text.piecesFrom]
  | cons c rest ih =>
    cases skip with
    | succ skip => exact ih skip false
    | zero =>
      unfold Text.piecesFrom
      split
      · exact List.cons_ne_nil _ _
      · have others := ih 0 (Text.isDelimiter c)
        cases pieces : Text.piecesFrom keyword 0 (Text.isDelimiter c) rest with
        | nil => exact absurd pieces others
        | cons piece pieces => exact List.cons_ne_nil _ _

theorem clauses_of_read {layout : Layout} {statement : Statement} {clauses : List Clause}
    (found : read layout statement = .ok clauses) :
    clauses ≠ [] ∧ ∀ clause ∈ clauses, clause.demand.InLayout layout := by
  unfold read at found
  split at found
  · cases found
  · obtain ⟨sameLength, inLayout⟩ := clauses_of_readPieces found
    refine ⟨?_, inLayout⟩
    have some := piecesFrom_ne_nil ['a', 'n', 'd'] 0 (extent statement.rhs).opened
      (extent statement.rhs).text
    rw [← List.length_pos_iff, sameLength, List.length_pos_iff]
    exact some

end Condition

/-- A statement is decided when its condition can be read and expanded and the products counted. -/
theorem Decision.ofStatement_eq_ok_iff {layout : Layout} {statement : Statement}
    {decision : Decision} :
    ofStatement layout statement = .ok decision ↔
      Condition.read layout statement = .ok decision.clauses ∧
        ∃ sums, decision.clauses.mapM Clause.sum = .ok sums ∧
          SumOfProducts.conjoin? sums = some decision.sum := by
  unfold ofStatement
  constructor
  · intro found
    split at found
    · cases found
    · rename_i clauses condition
      split at found
      · cases found
      · rename_i sums expanded
        split at found
        · cases found
        · rename_i sum dealt
          cases found
          exact ⟨condition, sums, expanded, dealt⟩
  · rintro ⟨condition, sums, expanded, dealt⟩
    simp only [condition, expanded, dealt]

/-- The clauses of a decision are declared and its sum is dealt from their sums. -/
structure Decision.Expanded (layout : Layout) (decision : Decision) : Prop where
  nonempty : decision.clauses ≠ []
  inLayout : ∀ clause ∈ decision.clauses, clause.demand.InLayout layout
  dealt : ∃ sums, List.Forall₂ (fun clause sum => Clause.sum clause = .ok sum) decision.clauses sums ∧
    SumOfProducts.conjoin? sums = some decision.sum

theorem Decision.expanded_of_statement {layout : Layout} {statement : Statement} {decision : Decision}
    (found : ofStatement layout statement = .ok decision) : decision.Expanded layout := by
  obtain ⟨condition, sums, expanded, dealt⟩ := ofStatement_eq_ok_iff.mp found
  obtain ⟨nonempty, inLayout⟩ := Condition.clauses_of_read condition
  exact ⟨nonempty, inLayout, sums, mapM_eq_ok_iff.mp expanded, dealt⟩

namespace DecisionTable

def DecidedBy (layout : Layout) (statements : List Statement) (outputs : List Output) : Prop :=
  ∀ output ∈ outputs, ∀ decision, output.decision = some decision →
    ∃ statement ∈ statements, statement.target = output.name ∧
      Decision.ofStatement layout statement = .ok decision

theorem decidedBy_assign {layout : Layout} {earlier : List Statement} {statement : Statement}
    {decision : Decision} {outputs : List Output} (before : DecidedBy layout earlier outputs)
    (decided : Decision.ofStatement layout statement = .ok decision) :
    DecidedBy layout (earlier ++ [statement]) (assign statement.target decision outputs) := by
  intro output member found decides
  obtain ⟨previous, listed, rfl⟩ := List.mem_map.mp member
  by_cases target : previous.name = statement.target
  · simp only [target, ↓reduceIte, Option.some.injEq] at decides ⊢
    subst found
    exact ⟨statement, by simp, rfl, decided⟩
  · simp only [target, ↓reduceIte] at decides ⊢
    obtain ⟨origin, inEarlier, same, result⟩ := before previous listed found decides
    exact ⟨origin, List.mem_append_left _ inEarlier, same, result⟩

theorem decidedBy_assignAll {layout : Layout} {earlier statements : List Statement}
    {outputs result : List Output} (before : DecidedBy layout earlier outputs)
    (found : assignAll layout outputs statements = .ok result) :
    DecidedBy layout (earlier ++ statements) result := by
  induction statements generalizing earlier outputs with
  | nil =>
    cases found
    simpa using before
  | cons statement statements ih =>
    rw [← List.singleton_append, ← List.append_assoc]
    unfold assignAll at found
    split at found
    · split at found
      · cases found
      · rename_i decision decided
        exact ih (decidedBy_assign before decided) found
    · apply ih _ found
      intro output member decision decides
      obtain ⟨origin, inEarlier, same, decided⟩ := before output member decision decides
      exact ⟨origin, List.mem_append_left _ inEarlier, same, decided⟩

theorem ofUnit_eq_ok {unit : DesignUnit} {table : DecisionTable} (accepted : ofUnit unit = .ok table) :
    table.layout = ⟨Layout.place 0 unit.inputs⟩ ∧
      DecidedBy table.layout unit.statements table.outputs := by
  unfold ofUnit at accepted
  split at accepted
  · cases accepted
  · rename_i layout placed
    split at accepted
    · cases accepted
    · obtain ⟨outputs, assigned, rfl⟩ := map_eq_ok_iff.mp accepted
      obtain ⟨_, -, rfl⟩ := map_eq_ok_iff.mp placed
      refine ⟨rfl, ?_⟩
      have undecided : DecidedBy ⟨Layout.place 0 unit.inputs⟩ []
          (unit.outputs.map fun output => { name := output.name }) := by
        intro output member decision decides
        obtain ⟨_, -, rfl⟩ := List.mem_map.mp member
        cases decides
      simpa using decidedBy_assignAll undecided assigned

theorem names_assign (target : Text) (decision : Decision) (outputs : List Output) :
    (assign target decision outputs).map Output.name = outputs.map Output.name := by
  rw [assign, List.map_map]
  apply List.map_congr_left
  intro output _
  show Output.name (if _ then _ else _) = _
  split <;> rfl

theorem names_assignAll {layout : Layout} {statements : List Statement} {outputs result : List Output}
    (found : assignAll layout outputs statements = .ok result) :
    result.map Output.name = outputs.map Output.name := by
  induction statements generalizing outputs with
  | nil =>
    cases found
    rfl
  | cons statement statements ih =>
    unfold assignAll at found
    split at found
    · split at found
      · cases found
      · rw [ih found, names_assign]
    · exact ih found

theorem names_ofUnit {unit : DesignUnit} {table : DecisionTable} (accepted : ofUnit unit = .ok table) :
    table.outputs.map Output.name = unit.outputs.map OutputDeclaration.name := by
  unfold ofUnit at accepted
  split at accepted
  · cases accepted
  · split at accepted
    · cases accepted
    · obtain ⟨outputs, assigned, rfl⟩ := map_eq_ok_iff.mp accepted
      have names := names_assignAll assigned
      rw [List.map_map] at names
      exact names

theorem ofSource_eq_ok {markers : Markers} {source : Text} {table : DecisionTable}
    (accepted : ofSource markers source = .ok table) :
    ∃ unit, DesignUnit.read markers source = .ok unit ∧ ofUnit unit = .ok table := by
  unfold ofSource at accepted
  split at accepted
  · cases accepted
  · rename_i unit found
    exact ⟨unit, found, accepted⟩

theorem mem_decided_iff (table : DecisionTable) (bit : Nat) (name : Text) (decision : Decision) :
    (bit, name, decision) ∈ table.decided ↔
      table.outputs[bit]? = some ⟨name, some decision⟩ := by
  simp only [decided, List.mem_filterMap, Option.map_eq_some_iff, Prod.mk.injEq]
  constructor
  · rintro ⟨⟨output, place⟩, member, found, decides, rfl, rfl, rfl⟩
    rw [List.mem_zipIdx_iff_getElem?] at member
    rw [member, ← decides]
  · intro placed
    exact ⟨(⟨name, some decision⟩, bit), List.mem_zipIdx_iff_getElem?.mpr placed, decision, rfl, rfl,
      rfl, rfl⟩

/-- Every decision of an accepted source is dealt from the sums of its own clauses. -/
theorem expanded_of_decided {markers : Markers} {source : Text} {table : DecisionTable}
    (accepted : ofSource markers source = .ok table) {bit : Nat} {name : Text} {decision : Decision}
    (listed : (bit, name, decision) ∈ table.decided) : decision.Expanded table.layout := by
  rw [mem_decided_iff] at listed
  obtain ⟨unit, -, built⟩ := ofSource_eq_ok accepted
  obtain ⟨-, decided⟩ := ofUnit_eq_ok built
  obtain ⟨statement, -, -, made⟩ := decided _ (List.mem_of_getElem? listed) decision rfl
  exact Decision.expanded_of_statement made

theorem evaluate_decided {table : DecisionTable} {bit : Nat} {name : Text} {decision : Decision}
    (listed : (bit, name, decision) ∈ table.decided) (input : List Bool) :
    (table.evaluate input)[bit]? = some (decision.holds input) := by
  rw [mem_decided_iff] at listed
  rw [evaluate, List.getElem?_map, listed]
  rfl

def sampleSource : Text :=
  "architecture rtl of ftd is\n".toList ++
    "  -- Inputs\n".toList ++
    "  signal full : std_logic_vector(2 downto 0);\n".toList ++
    "  signal short : std_logic_vector(2 downto 0);\n".toList ++
    "  signal veto : std_logic;\n".toList ++
    "  -- Outputs\n".toList ++
    "  signal zzx : std_logic;\n".toList ++
    "  signal ffy : std_logic;\n".toList ++
    "  signal spare : std_logic;\n".toList ++
    "begin\n".toList ++
    "  zzx <= '1' when full>1 and short>0 else '0';\n".toList ++
    "  ffy <= '1' when full=1 and veto='0' else '0';\n".toList ++
    "end rtl;\n".toList

def sampleAbove : Decision where
  clauses :=
    [⟨.compare .above ⟨"full".toList, 0, 3⟩ 1, "full>1".toList, ⟨276, 282⟩⟩,
      ⟨.compare .above ⟨"short".toList, 3, 3⟩ 0, "short>0".toList, ⟨287, 294⟩⟩]
  sum :=
    [[.high 1, .high 3], [.high 2, .high 4], [.high 1, .high 5], [.high 2, .high 3],
      [.high 1, .high 4], [.high 2, .high 5]]

def sampleVetoed : Decision where
  clauses :=
    [⟨.compare .equal ⟨"full".toList, 0, 3⟩ 1, "full=1".toList, ⟨323, 329⟩⟩,
      ⟨.literal (.low 6), "veto='0'".toList, ⟨334, 342⟩⟩]
  sum := [[.high 0, .low 1, .low 2, .low 6]]

def sampleTable : DecisionTable where
  layout := ⟨[⟨"full".toList, 0, 3⟩, ⟨"short".toList, 3, 3⟩, ⟨"veto".toList, 6, 1⟩]⟩
  outputs :=
    [⟨"zzx".toList, some sampleAbove⟩, ⟨"ffy".toList, some sampleVetoed⟩, ⟨"spare".toList, none⟩]

theorem ofSource_sample : ofSource {} sampleSource = .ok sampleTable := by
  decide +kernel

end DecisionTable

end TriggerLogic
