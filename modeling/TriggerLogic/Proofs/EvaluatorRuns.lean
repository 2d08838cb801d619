import TriggerLogic.Decision.Evaluator
import TriggerLogic.Proofs.EvaluatorProgram
import TriggerLogic.Proofs.InputBits

namespace TriggerLogic.Program

def literalTokens (literal : Literal) : List Token :=
  (if literal.negated then [.mark '!'] else []) ++
    [.word "input".toList, .mark '[', .number literal.bit, .mark ']']

def literalExpression (literal : Literal) : Expression :=
  if literal.negated then .not (.input literal.bit) else .input literal.bit

theorem lexes_literal (literal : Literal) : Lexes literal.code (literalTokens literal) := by
  have bit : Lexes ("input".toList ++ ['['] ++ Text.decimal literal.bit ++ [']']) _ :=
    lexes_indexed (by decide) literal.bit
  unfold Literal.code literalTokens
  split
  · have bang : Lexes ['!'] [.mark '!'] := lexes_mark (by decide)
    exact bang.append bit
  · exact bit

theorem reads_literal (nested? : Reader Expression) (literal : Literal) :
    Reads (operand? nested?) (fun _ => True) (literalTokens literal) (literalExpression literal) := by
  intro rest _
  unfold literalTokens literalExpression
  split <;> simp [operand?, indexed?]

def productTokens (grouped : Bool) : Product → List Token
  | [] => [.word "true".toList]
  | first :: more =>
    let joined := joinedTokens (.double '&') literalTokens first more
    if grouped && !more.isEmpty then .mark '(' :: joined ++ [.mark ')'] else joined

def productExpression : Product → Expression
  | [] => .constant true
  | first :: more =>
    more.foldl (fun left literal => .and left (literalExpression literal)) (literalExpression first)

theorem lexes_product (grouped : Bool) {product : Product} (nonempty : product ≠ []) :
    Lexes (product.code grouped) (productTokens grouped product) := by
  obtain ⟨first, more, rfl⟩ := List.exists_cons_of_ne_nil nonempty
  have joined : Lexes (Text.join " && ".toList ((first :: more).map Literal.code))
      (joinedTokens (.double '&') literalTokens first more) :=
    lexes_join (by decide) fun literal _ => lexes_literal literal
  have opens : Lexes ['('] [.mark '('] := lexes_mark (by decide)
  have closes : Lexes [')'] [.mark ')'] := lexes_mark (by decide)
  cases more with
  | nil => cases grouped <;> exact joined
  | cons next more =>
    cases grouped with
    | false => exact joined
    | true => exact opens.append (joined.append closes)

theorem reads_ungrouped (nested? : Reader Expression) {product : Product} (nonempty : product ≠ []) :
    Reads (chain? (.double '&') .and (operand? nested?)) EndsProduct (productTokens false product)
      (productExpression product) := by
  obtain ⟨first, more, rfl⟩ := List.exists_cons_of_ne_nil nonempty
  intro rest ends
  exact reads_chain (fun literal _ => reads_literal nested? literal) (fun _ => trivial) rest
    ⟨trivial, ends⟩

def sumTokens : SumOfProducts → List Token
  | [] => [.word "false".toList]
  | first :: more => joinedTokens (.double '|') (productTokens (!more.isEmpty)) first more

def sumExpression : SumOfProducts → Expression
  | [] => .constant false
  | first :: more =>
    more.foldl (fun left product => .or left (productExpression product)) (productExpression first)

theorem reads_product (depth : Nat) (grouped : Bool) {product : Product} (nonempty : product ≠ []) :
    Reads (chain? (.double '&') .and (operand? (expression? (depth + 1)))) EndsProduct
      (productTokens grouped product) (productExpression product) := by
  have ungrouped := fun nested? => reads_ungrouped nested? nonempty
  obtain ⟨first, more, rfl⟩ := List.exists_cons_of_ne_nil nonempty
  by_cases several : (grouped && !more.isEmpty) = true
  · have nested : Reads (expression? (depth + 1)) EndsSum (productTokens false (first :: more))
        (productExpression (first :: more)) := reads_alone (ungrouped (expression? depth))
    have shape : productTokens grouped (first :: more) =
        .mark '(' :: productTokens false (first :: more) ++ [.mark ')'] := by
      simp [productTokens, several]
    intro rest ends
    rw [shape]
    exact reads_alone (reads_group nested) rest ⟨trivial, ends⟩
  · simpa [productTokens, several] using ungrouped (expression? (depth + 1))

theorem reads_sum (depth : Nat) {sum : SumOfProducts} (nonempty : ∀ product ∈ sum, product ≠ []) :
    Reads (expression? (depth + 2)) EndsSum (sumTokens sum) (sumExpression sum) := by
  cases sum with
  | nil =>
    have constant : Reads (operand? (expression? (depth + 1))) (fun _ => True) (sumTokens [])
        (.constant false) := by
      intro rest _
      simp [sumTokens, operand?]
    intro rest ends
    exact reads_alone (reads_alone constant) rest ⟨⟨trivial, ends.1⟩, ends.2⟩
  | cons first more =>
    have each := fun product member => reads_product depth (!more.isEmpty) (nonempty product member)
    exact reads_chain each endsProduct_double_or

/-- A constant would run on into a letter, so the semicolon behind the expression is needed. -/
theorem lexes_sum {sum : SumOfProducts} (nonempty : ∀ product ∈ sum, product ≠ []) :
    Lexes (sum.code ++ [';']) (sumTokens sum ++ [.mark ';']) := by
  have stop : Lexes [';'] [.mark ';'] := lexes_mark (by decide)
  cases sum with
  | nil =>
    intro rest
    have semicolon := stop rest
    rw [List.singleton_append] at semicolon
    show tokens? ("false".toList ++ [';'] ++ rest) = _
    rw [List.append_assoc, List.singleton_append, tokens?_name (by decide) (by decide), semicolon,
      Option.map_map]
    rfl
  | cons first more =>
    have each : ∀ grouped, ∀ product ∈ first :: more,
        Lexes (product.code grouped) (productTokens grouped product) :=
      fun grouped product member => lexes_product grouped (nonempty product member)
    apply Lexes.append _ stop
    cases more with
    | nil =>
      have alone : sumTokens [first] = productTokens false first := List.append_nil _
      rw [alone]
      exact each false first List.mem_cons_self
    | cons next more => exact lexes_join (by decide) (each true)

theorem value?_literal {literal : Literal} {bits : List Bool} (inside : literal.bit < bits.length) :
    (literalExpression literal).value? bits = some (literal.holds bits) := by
  have found : bits[literal.bit]? = some bits[literal.bit] := List.getElem?_eq_getElem inside
  unfold literalExpression Literal.holds
  cases literal.negated <;> simp [Expression.value?, found]

theorem value?_product {product : Product} {bits : List Bool}
    (inside : ∀ literal ∈ product, literal.bit < bits.length) :
    (productExpression product).value? bits = some (product.holds bits) := by
  cases product with
  | nil => rfl
  | cons first more =>
    rw [List.forall_mem_cons] at inside
    have each : ∀ literal ∈ more, (literalExpression literal).value? bits = some (literal.holds bits) :=
      fun literal member => value?_literal (inside.2 literal member)
    exact value?_foldl_and each (value?_literal inside.1)

theorem value?_sum {sum : SumOfProducts} {bits : List Bool}
    (inside : ∀ product ∈ sum, ∀ literal ∈ product, literal.bit < bits.length) :
    (sumExpression sum).value? bits = some (sum.holds bits) := by
  cases sum with
  | nil => rfl
  | cons first more =>
    rw [List.forall_mem_cons] at inside
    have each : ∀ product ∈ more, (productExpression product).value? bits = some (product.holds bits) :=
      fun product member => value?_product (inside.2 product member)
    exact value?_foldl_or each (value?_product inside.1)

theorem indices_literal (literal : Literal) : (literalExpression literal).indices = [literal.bit] := by
  unfold literalExpression
  split <;> rfl

theorem indices_product (product : Product) :
    (productExpression product).indices = product.map Literal.bit := by
  cases product with
  | nil => rfl
  | cons first more =>
    rw [productExpression, indices_foldl fun _ _ => rfl]
    simp only [indices_literal]
    rw [← List.map_eq_flatMap]
    rfl

theorem indices_sum (sum : SumOfProducts) :
    (sumExpression sum).indices = sum.flatMap fun product => product.map Literal.bit := by
  cases sum with
  | nil => rfl
  | cons first more =>
    rw [sumExpression, indices_foldl fun _ _ => rfl]
    simp only [indices_product]
    rfl

def outputSum (output : Output) : SumOfProducts :=
  match output.decision with
  | some decision => decision.sum
  | none => []

theorem code_eq (output : Output) : output.code = SumOfProducts.code (outputSum output) := by
  unfold Output.code outputSum
  cases output.decision <;> rfl

theorem value_eq (output : Output) (bits : List Bool) :
    output.value bits = SumOfProducts.holds (outputSum output) bits := by
  unfold Output.value outputSum
  cases output.decision <;> rfl

def statementTokens (entry : Output × Nat) : List Token :=
  [.word "ftdout".toList, .mark '[', .number entry.2, .mark ']', .mark '='] ++
    (sumTokens (outputSum entry.1) ++ [.mark ';'])

def statement (entry : Output × Nat) : Assignment :=
  ⟨entry.2, sumExpression (outputSum entry.1)⟩

theorem lexes_statement {entry : Output × Nat}
    (nonempty : ∀ product ∈ outputSum entry.1, product ≠ []) :
    Lexes ("    ftdout[".toList ++ Text.decimal entry.2 ++ "] = ".toList ++ entry.1.code ++ [';', '\n'])
      (statementTokens entry) := by
  have space : Lexes [' '] [] := lexes_blank (by decide)
  have lineFeed : Lexes ['\n'] [] := lexes_blank (by decide)
  have equals : Lexes ['='] [.mark '='] := lexes_mark (by decide)
  have indent : Lexes [' ', ' ', ' ', ' '] [] := space.append (space.append (space.append space))
  have target : Lexes ("ftdout".toList ++ ['['] ++ Text.decimal entry.2 ++ [']']) _ :=
    lexes_indexed (by decide) entry.2
  have whole := indent.append (target.append (space.append (equals.append (space.append
    ((lexes_sum nonempty).append lineFeed)))))
  simpa [code_eq, statementTokens] using whole

theorem reads_statement {entry : Output × Nat}
    (nonempty : ∀ product ∈ outputSum entry.1, product ≠ []) :
    Reads assignment? (fun _ => True) (statementTokens entry) (statement entry) := by
  intro rest _
  have value := reads_sum (sumTokens (outputSum entry.1) ++ rest).length nonempty (.mark ';' :: rest)
    (by simp [EndsSum, EndsProduct])
  have depth : (sumTokens (outputSum entry.1) ++ .mark ';' :: rest).length + 1 =
      (sumTokens (outputSum entry.1) ++ rest).length + 2 := by
    simp only [List.length_append, List.length_cons]
    omega
  simp only [statementTokens, List.cons_append, List.nil_append, List.append_assoc, assignment?,
    if_true, depth, value]
  rfl

theorem assignments?_statements {entries : List (Output × Nat)}
    (nonempty : ∀ entry ∈ entries, ∀ product ∈ outputSum entry.1, product ≠ []) {rounds : Nat}
    (enough : (entries.flatMap statementTokens).length ≤ rounds) :
    assignments? rounds (entries.flatMap statementTokens) = some (entries.map statement) := by
  induction entries generalizing rounds with
  | nil => cases rounds <;> rfl
  | cons entry entries ih =>
    rw [List.forall_mem_cons] at nonempty
    have positive : 0 < (statementTokens entry).length := by simp [statementTokens]
    rw [List.flatMap_cons, List.length_append] at enough
    obtain ⟨fewer, rfl⟩ : ∃ fewer, rounds = fewer + 1 := ⟨rounds - 1, by omega⟩
    have first := reads_statement nonempty.1 (entries.flatMap statementTokens) trivial
    rw [List.flatMap_cons, assignments?_step first, ih nonempty.2 (by omega)]
    rfl

theorem read?_evaluatorBody {table : DecisionTable}
    (nonempty : ∀ output ∈ table.outputs, ∀ product ∈ outputSum output, product ≠ []) :
    read? table.evaluatorBody = some (table.outputs.zipIdx.map statement) := by
  have each : ∀ entry ∈ table.outputs.zipIdx, ∀ product ∈ outputSum entry.1, product ≠ [] :=
    fun entry member => nonempty entry.1 (List.fst_mem_of_mem_zipIdx member)
  have lexes : Lexes table.evaluatorBody (table.outputs.zipIdx.flatMap statementTokens) :=
    lexes_flatMap fun entry member => lexes_statement (each entry member)
  rw [read?, lexes.tokens_eq]
  exact assignments?_statements each le_rfl

/-- What has been assigned stands in front of what is still to be assigned. -/
theorem run?_statements {outputs : List Output} {bits : List Bool}
    (valued : ∀ output ∈ outputs,
      (sumExpression (outputSum output)).value? bits = some (output.value bits))
    (assigned pending : List Bool) (room : outputs.length ≤ pending.length) :
    run? bits ((outputs.zipIdx assigned.length).map statement) (assigned ++ pending) =
      some (assigned ++ outputs.map (·.value bits) ++ pending.drop outputs.length) := by
  induction outputs generalizing assigned pending with
  | nil => simp [run?]
  | cons output outputs ih =>
    rw [List.forall_mem_cons] at valued
    cases pending with
    | nil => simp at room
    | cons old pending =>
      have step : (statement (output, assigned.length)).run? bits (assigned ++ old :: pending) =
          some (assigned ++ [output.value bits] ++ pending) := by
        simp [statement, Assignment.run?, valued.1]
      have later := ih valued.2 (assigned ++ [output.value bits]) pending (by simpa using room)
      simp only [List.length_append, List.length_singleton] at later
      simp only [run?, List.zipIdx_cons, List.map_cons, List.foldlM_cons, step] at later ⊢
      simpa using later

end TriggerLogic.Program

namespace TriggerLogic.DecisionTable

theorem outputSum_over {markers : Markers} {source : Text} {table : DecisionTable}
    (accepted : ofSource markers source = .ok table) {output : Output}
    (listed : output ∈ table.outputs) :
    (Program.outputSum output).Over (· < table.layout.totalBits) := by
  obtain ⟨name, decision⟩ := output
  cases decision with
  | none => simp [Program.outputSum, SumOfProducts.Over]
  | some decision =>
    obtain ⟨bit, placed⟩ := List.mem_iff_getElem?.mp listed
    have decided := (mem_decided_iff table bit name decision).mpr placed
    exact (expanded_of_decided accepted decided).sum_over (placed_of_ofSource accepted)

/-- The evaluator's statements assign the output bits in ascending order, each once, and name only
input bits that there are. Running them never fails and leaves what the table gives. -/
theorem evaluator_computes_outputs {markers : Markers} {source : Text} {table : DecisionTable}
    (accepted : ofSource markers source = .ok table) (head : EvaluatorHead) :
    ∃ opening program,
      table.evaluator head = opening ++ table.evaluatorBody ++ "\x7d\n".toList ∧
      Program.read? table.evaluatorBody = some program ∧
      program.map Program.Assignment.index = List.range table.outputs.length ∧
      (∀ assignment ∈ program, ∀ index ∈ assignment.value.indices, index < table.layout.totalBits) ∧
      ∀ input ftdout : List Bool, table.layout.totalBits ≤ input.length →
        table.outputs.length ≤ ftdout.length →
        Program.run? input program ftdout =
          some (table.evaluate input ++ ftdout.drop table.outputs.length) := by
  have covered : ∀ output ∈ table.outputs, (Program.outputSum output).Over (· < table.layout.totalBits) :=
    fun output listed => outputSum_over accepted listed
  have nonempty := fun output listed product member => (covered output listed product member).1
  refine ⟨_, _, rfl, Program.read?_evaluatorBody nonempty, ?_, ?_, ?_⟩
  · rw [List.map_map, List.range_eq_range']
    exact List.zipIdx_map_snd 0 table.outputs
  · rw [List.forall_mem_map]
    rintro ⟨output, place⟩ listed index named
    have inTable : output ∈ table.outputs := List.fst_mem_of_mem_zipIdx listed
    rw [Program.statement, Program.indices_sum] at named
    obtain ⟨product, member, bits⟩ := List.mem_flatMap.mp named
    obtain ⟨literal, inProduct, rfl⟩ := List.mem_map.mp bits
    exact (covered output inTable product member).2 literal inProduct
  · intro input ftdout wide room
    have valued : ∀ output ∈ table.outputs,
        (Program.sumExpression (Program.outputSum output)).value? input = some (output.value input) := by
      intro output listed
      rw [Program.value_eq]
      apply Program.value?_sum
      intro product member literal inProduct
      exact Nat.lt_of_lt_of_le ((covered output listed product member).2 literal inProduct) wide
    exact Program.run?_statements valued [] ftdout room

theorem sample_evaluator_runs :
    ∃ program, Program.read? sampleTable.evaluatorBody = some program ∧
      Program.run? [false, true, false, true, false, false, true] program [true, true, true, true] =
        some [true, false, false, true] := by
  obtain ⟨_, program, -, spelled, -, -, runs⟩ :=
    evaluator_computes_outputs ofSource_sample ⟨"decide".toList, "ftd.vhd".toList, []⟩
  exact ⟨program, spelled, runs _ _ (by decide) (by decide)⟩

end TriggerLogic.DecisionTable
