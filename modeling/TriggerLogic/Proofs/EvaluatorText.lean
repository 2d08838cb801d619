import TriggerLogic.Proofs.ArtifactNames
import TriggerLogic.Proofs.EvaluatorRuns

namespace TriggerLogic

namespace Text

theorem continuesName_of_isDigit {c : Char} (digit : c.isDigit = true) : continuesName c = true := by
  simp [continuesName, Char.isAlphanum, digit]

theorem continuesName_of_isNumber {number : Text} (digits : isNumber number = true) :
    ∀ c ∈ number, continuesName c = true := fun c member =>
  continuesName_of_isDigit (isDigit_of_isNumber digits c member)

theorem continuesName_of_isAlpha {c : Char} (letter : c.isAlpha = true) : continuesName c = true := by
  simp [continuesName, Char.isAlphanum, letter]

theorem isIdentifier_append {name rest : Text} (identifier : isIdentifier name = true)
    (continues : ∀ c ∈ rest, continuesName c = true) : isIdentifier (name ++ rest) = true := by
  obtain ⟨c, more, rfl⟩ := List.exists_cons_of_ne_nil (ne_nil_of_isIdentifier identifier)
  rw [isIdentifier, Bool.and_eq_true, List.all_eq_true] at identifier
  rw [List.cons_append, isIdentifier, Bool.and_eq_true, List.all_eq_true, List.forall_mem_append]
  exact ⟨identifier.1, identifier.2, continues⟩

end Text

namespace VersionedName

theorem continuesName_of_mem_version (parts : VersionedName) :
    ∀ c ∈ '_' :: parts.version, Text.continuesName c = true := by
  rw [version, List.forall_mem_cons, List.forall_mem_append, List.forall_mem_cons]
  exact ⟨by decide, Text.continuesName_of_isNumber parts.majorNumber, by decide,
    Text.continuesName_of_isNumber parts.minorNumber⟩

theorem continuesName_or_dot_of_mem {namePrefix : Text}
    (identifier : Text.isIdentifier namePrefix = true) (parts : VersionedName) :
    ∀ c ∈ parts.fileName namePrefix, Text.continuesName c = true ∨ c = '.' := by
  intro c member
  simp only [fileName, List.mem_append, List.mem_cons] at member
  rcases member with inPrefix | rfl | (inMajor | rfl | inMinor) | inEnding
  · exact .inl (Text.continuesName_of_mem identifier inPrefix)
  · exact .inl (by decide)
  · exact .inl (Text.continuesName_of_isNumber parts.majorNumber c inMajor)
  · rcases parts.separates with dot | underscore
    · exact .inr dot
    · exact .inl (underscore ▸ by decide)
  · exact .inl (Text.continuesName_of_isNumber parts.minorNumber c inMinor)
  · rcases parts.ends.mem c inEnding with letter | dot
    · exact .inl (Text.continuesName_of_isAlpha letter)
    · exact .inr dot

end VersionedName

namespace Settings

theorem isIdentifier_of_discover {directory : Path} {session after : Session} {settings : Settings}
    (found : (discover directory : StateM Session _) session = (.ok settings, after)) :
    Text.isIdentifier settings.namePrefix = true := by
  rw [Session.discover_run] at found
  have settled : session.files.settings directory = .ok settings := congrArg Prod.fst found
  unfold FileTree.settings at settled
  split at settled
  · cases settled
    decide
  · obtain ⟨text, -, read⟩ := FileTree.loadSettings_eq_ok settled
    exact (usable_of_ofText read).namePrefix

end Settings

namespace Blake3

def hexDigits : Text :=
  "0123456789abcdef".toList

theorem mem_hexDigits_of_mem_hexByte {byte : UInt8} : ∀ c ∈ hexByte byte, c ∈ hexDigits := by
  have digit : ∀ number < 16, Nat.digitChar number ∈ hexDigits := by decide
  have bound := byte.toNat_lt
  rw [hexByte, List.forall_mem_cons, List.forall_mem_singleton]
  exact ⟨digit _ (by omega), digit _ (by omega)⟩

theorem mem_hexDigits_of_mem_hexDigest (text : Text) : ∀ c ∈ hexDigest text, c ∈ hexDigits := by
  intro c member
  obtain ⟨byte, -, inByte⟩ := List.mem_flatMap.mp member
  exact mem_hexDigits_of_mem_hexByte c inByte

theorem length_digest (bytes : List UInt8) : (digest bytes).length = 32 := by
  unfold digest
  generalize (rootNode bytes).compress rootFlag = words
  have each : ∀ word ∈ words.toList, (bytesOfWord word).length = 4 := fun _ _ => rfl
  rw [List.length_flatMap, List.map_congr_left each, List.map_const', List.sum_replicate,
    Vector.length_toList]
  rfl

theorem length_hexDigest (text : Text) : (hexDigest text).length = 64 := by
  have each : ∀ byte ∈ digest (Text.bytes text), (hexByte byte).length = 2 := fun _ _ => rfl
  rw [hexDigest, List.length_flatMap, List.map_congr_left each, List.map_const', List.sum_replicate,
    length_digest]
  rfl

end Blake3

section Code

theorem lineFeed_not_mem_join {mark : Text} {parts : List Text} (between : '\n' ∉ mark)
    (each : ∀ part ∈ parts, '\n' ∉ part) : '\n' ∉ Text.join mark parts := by
  intro member
  rcases Text.mem_join member with inMark | ⟨part, listed, inPart⟩
  · exact between inMark
  · exact each part listed inPart

theorem Literal.lineFeed_not_mem_code (literal : Literal) : '\n' ∉ literal.code := by
  have digits : '\n' ∉ Text.decimal literal.bit := Text.not_mem_decimal _ (by decide)
  unfold Literal.code
  split <;> simp [digits]

theorem Product.lineFeed_not_mem_code (grouped : Bool) (product : Product) :
    '\n' ∉ product.code grouped := by
  have joined : '\n' ∉ Text.join " && ".toList (product.map Literal.code) := by
    apply lineFeed_not_mem_join (by decide)
    rw [List.forall_mem_map]
    intro literal _
    exact literal.lineFeed_not_mem_code
  unfold Product.code
  split
  · decide
  · exact joined
  · split
    · simp only [List.mem_cons, List.mem_append, not_or]
      exact ⟨⟨by decide, joined⟩, by decide, List.not_mem_nil⟩
    · exact joined

theorem SumOfProducts.lineFeed_not_mem_code (sum : SumOfProducts) : '\n' ∉ sum.code := by
  unfold SumOfProducts.code
  split
  · decide
  · exact Product.lineFeed_not_mem_code _ _
  · apply lineFeed_not_mem_join (by decide)
    rw [List.forall_mem_map]
    intro product _
    exact product.lineFeed_not_mem_code true

end Code

def EvaluatorHead.lines (head : EvaluatorHead) (outputs inputs : Nat) : List Text :=
  ["// Generated by ftdc from ".toList ++ head.sourceName ++ ". Do not edit.".toList,
    "// source blake3: ".toList ++ head.sourceDigest,
    [],
    "/// Computes the ".toList ++ Text.decimal outputs ++ " output bits from ".toList ++
      Text.decimal inputs ++ " input bits.".toList,
    "pub fn ".toList ++ head.functionName ++ "(ftdout: &mut [bool], input: &[bool]) \x7b".toList]

def assignmentLine (entry : Output × Nat) : Text :=
  "    ftdout[".toList ++ Text.decimal entry.2 ++ "] = ".toList ++ entry.1.code ++ [';']

namespace DecisionTable

def evaluatorLines (table : DecisionTable) (head : EvaluatorHead) : List Text :=
  head.lines table.outputs.length table.layout.totalBits ++ table.outputs.zipIdx.map assignmentLine ++
    ["\x7d".toList]

theorem evaluatorBody_eq_flatMap (table : DecisionTable) :
    table.evaluatorBody =
      (table.outputs.zipIdx.map assignmentLine).flatMap fun line => line ++ ['\n'] := by
  rw [List.flatMap_map]
  unfold evaluatorBody assignmentLine
  congr 1
  funext entry
  rw [List.append_assoc _ [';'], List.singleton_append]

theorem evaluator_eq_flatMap (table : DecisionTable) (head : EvaluatorHead) :
    table.evaluator head = (table.evaluatorLines head).flatMap fun line => line ++ ['\n'] := by
  have first : ". Do not edit.\n".toList = ". Do not edit.".toList ++ ['\n'] := by decide +kernel
  have second : "\n\n".toList = ['\n', '\n'] := by decide
  have fourth : " input bits.\n".toList = " input bits.".toList ++ ['\n'] := by decide +kernel
  have fifth : "(ftdout: &mut [bool], input: &[bool]) \x7b\n".toList =
      "(ftdout: &mut [bool], input: &[bool]) \x7b".toList ++ ['\n'] := by decide +kernel
  have closing : "\x7d\n".toList = "\x7d".toList ++ ['\n'] := by decide
  unfold evaluator evaluatorLines EvaluatorHead.lines
  simp only [first, second, fourth, fifth, closing, evaluatorBody_eq_flatMap, List.flatMap_append,
    List.flatMap_cons, List.flatMap_nil, List.append_assoc, List.cons_append, List.nil_append,
    List.append_nil]

theorem lineFeed_not_mem_line {table : DecisionTable} {head : EvaluatorHead}
    (function : '\n' ∉ head.functionName) (source : '\n' ∉ head.sourceName)
    (digest : '\n' ∉ head.sourceDigest) : ∀ line ∈ table.evaluatorLines head, '\n' ∉ line := by
  have decimal : ∀ number, '\n' ∉ Text.decimal number := fun number =>
    Text.not_mem_decimal number (by decide)
  unfold evaluatorLines EvaluatorHead.lines
  rw [List.forall_mem_append, List.forall_mem_append, List.forall_mem_map, List.forall_mem_singleton]
  refine ⟨⟨?_, ?_⟩, by decide⟩
  · simp only [List.forall_mem_cons, List.mem_append, not_or]
    exact ⟨⟨⟨by decide, source⟩, by decide⟩, ⟨by decide, digest⟩, List.not_mem_nil,
      ⟨⟨⟨⟨by decide, decimal _⟩, by decide⟩, decimal _⟩, by decide⟩,
      ⟨⟨by decide, function⟩, by decide⟩, List.forall_mem_nil _⟩
  · intro entry _
    unfold assignmentLine
    rw [Program.code_eq]
    simp only [List.mem_append, not_or]
    exact ⟨⟨⟨⟨by decide, decimal _⟩, by decide⟩, SumOfProducts.lineFeed_not_mem_code _⟩, by decide⟩

theorem lines_evaluator_eq {table : DecisionTable} {head : EvaluatorHead}
    (function : '\n' ∉ head.functionName) (source : '\n' ∉ head.sourceName)
    (digest : '\n' ∉ head.sourceDigest) :
    Text.lines (table.evaluator head) =
      (table.evaluatorLines head).map fun line => line ++ ['\n'] := by
  rw [evaluator_eq_flatMap]
  exact Text.lines_flatMap_lineFeed (lineFeed_not_mem_line function source digest)

end DecisionTable

def IsAssignmentLine (bit : Nat) (line : Text) : Prop :=
  ∃ code value, line = "    ftdout[".toList ++ Text.decimal bit ++ "] = ".toList ++ code ++ [';'] ∧
    Program.read? (line ++ ['\n']) = some [⟨bit, value⟩]

theorem isAssignmentLine {entry : Output × Nat}
    (nonempty : ∀ product ∈ Program.outputSum entry.1, product ≠ []) :
    IsAssignmentLine entry.2 (assignmentLine entry) := by
  have lexes : Program.Lexes (assignmentLine entry ++ ['\n']) (Program.statementTokens entry) := by
    unfold assignmentLine
    rw [List.append_assoc _ [';'], List.singleton_append]
    exact Program.lexes_statement nonempty
  have reads := @Program.assignments?_statements [entry] (by simpa using nonempty) _ le_rfl
  rw [List.flatMap_singleton, List.map_singleton] at reads
  refine ⟨entry.1.code, (Program.statement entry).value, rfl, ?_⟩
  rw [Program.read?, lexes.tokens_eq]
  exact reads

theorem DecisionTable.exists_statements {markers : Markers} {source : Text} {table : DecisionTable}
    (accepted : ofSource markers source = .ok table) {head : EvaluatorHead}
    (function : '\n' ∉ head.functionName) (name : '\n' ∉ head.sourceName)
    (digest : '\n' ∉ head.sourceDigest) :
    ∃ statements, statements.length = table.outputs.length ∧
      (∀ bit line, statements[bit]? = some line → IsAssignmentLine bit line) ∧
      Text.lines (table.evaluator head) =
        (head.lines table.outputs.length table.layout.totalBits ++ statements ++ ["\x7d".toList]).map
          (· ++ ['\n']) := by
  refine ⟨table.outputs.zipIdx.map assignmentLine, by simp, ?_, lines_evaluator_eq function name digest⟩
  intro bit line placed
  rw [List.getElem?_map, Option.map_eq_some_iff] at placed
  obtain ⟨⟨output, place⟩, entry, rfl⟩ := placed
  rw [List.getElem?_zipIdx, Option.map_eq_some_iff] at entry
  obtain ⟨_, listed, same⟩ := entry
  cases same
  rw [Nat.zero_add]
  exact isAssignmentLine fun product member =>
    (outputSum_over accepted (List.mem_of_getElem? listed) product member).1

theorem ArtifactPlan.names_of_ofInput {input : Path} {namePrefix name : Text}
    {outDirectory : Option Path} {plan : ArtifactPlan}
    (identifier : Text.isIdentifier namePrefix = true)
    (planned : ofInput input namePrefix outDirectory = .ok plan) (named : input.fileName? = some name) :
    Text.isIdentifier plan.functionName = true ∧
      ∀ c ∈ name, Text.continuesName c = true ∨ c = '.' := by
  obtain ⟨parts, inputName, rfl⟩ := exists_parts_of_ofInput planned
  cases named.symm.trans inputName
  exact ⟨Text.isIdentifier_append identifier parts.continuesName_of_mem_version,
    parts.continuesName_or_dot_of_mem identifier⟩

/-- The evaluator of a source that is compiled under the settings found for it: what it takes over
from outside keeps to its line. -/
theorem evaluator_keeps_its_lines {directory input : Path} {session after : Session}
    {settings : Settings} {outDirectory : Option Path} {plan : ArtifactPlan} {markers : Markers}
    {name source : Text} {compiled : Compiled}
    (found : (Settings.discover directory : StateM Session _) session = (.ok settings, after))
    (planned : ArtifactPlan.ofInput input settings.namePrefix outDirectory = .ok plan)
    (named : input.fileName? = some name)
    (compiles : compile markers plan.functionName name source = .ok compiled) :
    Text.isIdentifier plan.functionName = true ∧
    (∀ c ∈ name, Text.continuesName c = true ∨ c = '.') ∧
    (Text.lines compiled.texts.evaluator).length = compiled.table.outputs.length + 6 ∧
    ∃ digest statements,
      digest.length = 64 ∧ (∀ c ∈ digest, c ∈ Blake3.hexDigits) ∧
      statements.length = compiled.table.outputs.length ∧
      (∀ bit line, statements[bit]? = some line → IsAssignmentLine bit line) ∧
      Text.lines compiled.texts.evaluator =
        (EvaluatorHead.lines ⟨plan.functionName, name, digest⟩ compiled.table.outputs.length
          compiled.table.layout.totalBits ++ statements ++ ["\x7d".toList]).map (· ++ ['\n']) := by
  have identifier := Settings.isIdentifier_of_discover found
  obtain ⟨function, characters⟩ := ArtifactPlan.names_of_ofInput identifier planned named
  obtain ⟨table, accepted, rfl⟩ := map_eq_ok_iff.mp compiles
  have size := Blake3.length_hexDigest source
  have digits := Blake3.mem_hexDigits_of_mem_hexDigest source
  generalize Blake3.hexDigest source = digest at size digits ⊢
  obtain ⟨statements, count, assigns, lines⟩ := @DecisionTable.exists_statements _ _ _ accepted
    ⟨plan.functionName, name, digest⟩ (Text.not_mem_identifier function (by decide))
    (fun member => absurd (characters _ member) (by decide))
    (fun member => absurd (digits _ member) (by decide))
  refine ⟨function, characters, ?_, digest, statements, size, digits, count, assigns, lines⟩
  have shown := congrArg List.length lines
  simp only [EvaluatorHead.lines, List.length_map, List.length_append, List.length_cons,
    List.length_nil, count] at shown
  show (Text.lines (table.evaluator _)).length = table.outputs.length + 6
  omega

def prefixedSession : Session where
  files := { entries := [(["ftdc.toml".toList], .text "prefix = \"gdl_1\"\n".toList),
    (["src".toList], .directory)] }

def prefixedPlan : ArtifactPlan := ⟨"0_01".toList, "gdl_1_0_01".toList, "src".toList⟩

theorem prefixedSession_evaluator :
    ∃ compiled, compile {} prefixedPlan.functionName "gdl_1_0.01.VHD".toList
        DecisionTable.sampleSource = .ok compiled ∧
      Text.isIdentifier prefixedPlan.functionName = true ∧
      (Text.lines compiled.texts.evaluator).length = compiled.table.outputs.length + 6 := by
  have settled : prefixedSession.files.settings "src".toList = .ok { namePrefix := "gdl_1".toList } := by
    decide +kernel
  have found : (Settings.discover "src".toList : StateM Session _) prefixedSession =
      (.ok { namePrefix := "gdl_1".toList }, prefixedSession) := by
    rw [Session.discover_run, settled]
  have planned : ArtifactPlan.ofInput "src/gdl_1_0.01.VHD".toList "gdl_1".toList none =
      .ok prefixedPlan := by decide +kernel
  have named : Path.fileName? "src/gdl_1_0.01.VHD".toList = some "gdl_1_0.01.VHD".toList := by
    decide +kernel
  obtain ⟨compiled, compiles⟩ : ∃ compiled, compile {} prefixedPlan.functionName
      "gdl_1_0.01.VHD".toList DecisionTable.sampleSource = .ok compiled :=
    ⟨_, map_eq_ok_iff.mpr ⟨_, DecisionTable.ofSource_sample, rfl⟩⟩
  obtain ⟨function, -, count, -⟩ := evaluator_keeps_its_lines found planned named compiles
  exact ⟨compiled, compiles, function, count⟩

end TriggerLogic
