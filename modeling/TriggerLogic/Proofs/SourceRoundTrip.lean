import TriggerLogic.Proofs.BodyText
import TriggerLogic.Proofs.DeclarationText

namespace TriggerLogic

structure InputPort where
  name : Text
  width : Nat
  low : Nat
  identifier : Text.isIdentifier name = true
  positive : 0 < width
  bounded : width - 1 + low < indexBound

structure OutputPort where
  name : Text
  identifier : Text.isIdentifier name = true

def bitType : Text :=
  "std_logic".toList

def InputPort.type (port : InputPort) : Text :=
  if port.width = 1 then bitType else vectorType (port.width - 1 + port.low) port.low

structure Design where
  inputs : List InputPort
  outputs : List OutputPort
  assignments : List Assignment

def Text.LineOf (text line : Text) : Prop :=
  line = text ++ ['\n'] ∨ line = text ++ ['\r', '\n']

def MarkerLine (marker line : Text) : Prop :=
  ∃ lead tail : Text, (∀ c ∈ lead, c ∈ ['-', '=', ':', ' ']) ∧ (∀ c ∈ tail, c ∈ ['-', '=', ':', ' ']) ∧
    Text.LineOf ('-' :: '-' :: (lead ++ marker ++ tail)) line

inductive Design.Written (markers : Markers) (design : Design) : Text → Prop
  | intro {inputsLine outputsLine beginLine body : Text} {inputLines outputLines : List Text} :
      MarkerLine markers.inputs inputsLine →
      List.Forall₂ (fun port line => Text.LineOf (signalLine port.name port.type) line)
        design.inputs inputLines →
      MarkerLine markers.outputs outputsLine →
      List.Forall₂ (fun port line => Text.LineOf (signalLine port.name bitType) line)
        design.outputs outputLines →
      Text.LineOf "begin".toList beginLine →
      BodyText design.assignments body →
      Written markers design
        ((inputsLine :: inputLines ++ (outputsLine :: outputLines ++ [beginLine])).flatten ++ body)

namespace InputPort

variable (port : InputPort)

theorem not_mem_type {c : Char} (other : c ∉ bitType ++ (vectorName ++ downto ++ ['(', ')']))
    (digit : c.isDigit = false) : c ∉ port.type := by
  rw [List.mem_append, not_or] at other
  rw [type]
  split
  · exact other.1
  · exact not_mem_vectorType _ _ other.2 digit

theorem read_declaration (narrow : port.width < indexBound) (offset : Nat) :
    ∃ isVector span, Declaration.read (signalLine port.name port.type) offset =
      .ok (some ⟨[port.name], port.width, isVector, span⟩) := by
  have positive := port.positive
  by_cases single : port.width = 1
  · obtain ⟨span, read⟩ := read_bitLine port.identifier offset
    rw [type, if_pos single, single]
    exact ⟨false, span, read⟩
  · have width : port.width - 1 + port.low - port.low + 1 = port.width := by omega
    obtain ⟨span, read⟩ := read_vectorLine port.identifier (Nat.le_add_left port.low (port.width - 1))
      port.bounded (by rw [width]; exact narrow) offset
    rw [width] at read
    rw [type, if_neg single]
    exact ⟨true, span, read⟩

end InputPort

namespace Text

theorem LineOf.cases {text line : Text} (ended : LineOf text line) :
    ∃ ends : Text, line = text ++ ends ∧ (∀ c ∈ ends, Line.isEnd c = true) ∧
      ∃ front, ends = front ++ ['\n'] ∧ '\n' ∉ front := by
  rcases ended with rfl | rfl
  · exact ⟨['\n'], rfl, by decide, [], rfl, by decide⟩
  · exact ⟨['\r', '\n'], rfl, by decide, ['\r'], rfl, by decide⟩

theorem lines_lineOf {text line : Text} (ended : LineOf text line) (single : '\n' ∉ text) (rest : Text) :
    lines (line ++ rest) = line :: lines rest := by
  obtain ⟨_, rfl, -, front, rfl, fresh⟩ := ended.cases
  have before : '\n' ∉ text ++ front := by
    rw [List.mem_append, not_or]
    exact ⟨single, fresh⟩
  have whole : text ++ (front ++ ['\n']) ++ rest = text ++ front ++ '\n' :: rest := by simp
  rw [whole, lines_append_lineFeed before]
  simp

theorem lines_flatten_append {printed : List Text}
    (single : ∀ line ∈ printed, ∃ text, LineOf text line ∧ '\n' ∉ text) (rest : Text) :
    lines (printed.flatten ++ rest) = printed ++ lines rest := by
  induction printed with
  | nil => rfl
  | cons line printed ih =>
    obtain ⟨⟨text, ended, fresh⟩, more⟩ := List.forall_mem_cons.mp single
    rw [List.flatten_cons, List.append_assoc, lines_lineOf ended fresh, ih more]
    rfl

end Text

namespace Line

theorem code_lineOf {text line : Text} (ended : text.LineOf line) (solid : text.Solid)
    (fresh : '-' ∉ text) : code line = text := by
  obtain ⟨ends, rfl, areEnds, -⟩ := ended.cases
  obtain ⟨-, front, c, rfl, dark⟩ := solid
  have whole : body (front ++ [c] ++ ends) = front ++ [c] := by
    have dropped := @Text.dropEndWhile_append_of_forall isEnd (front ++ [c]) ends areEnds
    rw [Text.dropEndWhile_last (isEnd_of_dark dark)] at dropped
    exact dropped
  rw [code, whole, Text.cut?_eq_none fresh]

theorem comment?_comment (text : Text) : comment? ('-' :: '-' :: text) = some (body text) := by
  rw [comment?, body_cons (.inl rfl), body_cons (.inl rfl)]
  rfl

end Line

section Label

def isRule (c : Char) : Bool :=
  Text.isBlank c || c == '-' || c == '=' || c == ':'

theorem isRule_of_mem {c : Char} (listed : c ∈ ['-', '=', ':', ' ']) : isRule c = true := by
  simp only [List.mem_cons, List.not_mem_nil, or_false] at listed
  rcases listed with rfl | rfl | rfl | rfl <;> decide

theorem isRule_of_isEnd {c : Char} (ends : Line.isEnd c = true) : isRule c = true := by
  simp only [Line.isEnd, Bool.or_eq_true, beq_iff_eq] at ends
  rcases ends with rfl | rfl <;> decide

theorem markerLabel_append {lead tail : Text} (leadRule : ∀ c ∈ lead, isRule c = true)
    (tailRule : ∀ c ∈ tail, isRule c = true) (text : Text) :
    markerLabel (lead ++ text ++ tail) = markerLabel text := by
  have stripped := Text.strip_append leadRule tailRule text
  exact congrArg Text.lower stripped

theorem markerLabel_body (text : Text) : markerLabel (Line.body text) = markerLabel text := by
  obtain ⟨dropped, whole, ends⟩ := Text.exists_dropEndWhile Line.isEnd text
  have same := @markerLabel_append [] dropped (by simp)
    (fun c member => isRule_of_isEnd (ends c member)) (Line.body text)
  exact same.symm.trans (congrArg markerLabel whole.symm)

theorem markerLabel_markerLine {marker line : Text} (marked : MarkerLine marker line) :
    ∃ text, line = '-' :: '-' :: text ∧ markerLabel (Line.body text) = markerLabel marker := by
  obtain ⟨lead, tail, leadRule, tailRule, ended⟩ := marked
  obtain ⟨ends, rfl, areEnds, -⟩ := ended.cases
  refine ⟨lead ++ marker ++ tail ++ ends, rfl, ?_⟩
  rw [markerLabel_body, List.append_assoc _ tail]
  apply markerLabel_append fun c member => isRule_of_mem (leadRule c member)
  exact List.forall_mem_append.mpr
    ⟨fun c member => isRule_of_mem (tailRule c member),
      fun c member => isRule_of_isEnd (areEnds c member)⟩

end Label

namespace Reading

variable {markers : Markers} {reading : Reading}

theorem step_comment {raw comment : Text} (found : Line.comment? raw = some comment)
    (blank : Text.trim (Line.code raw) = []) (header : reading.part ≠ .body) (offset : Nat) :
    reading.step markers offset raw =
      .ok { reading with part := (markers.partOpenedBy? comment).getD reading.part } := by
  rw [step, if_neg header, blank, List.isEmpty_nil, if_pos rfl, commentLine, found, Option.bind_some]
  cases markers.partOpenedBy? comment <;> rfl

theorem step_markerLine {marker line : Text} {part : SourcePart} (marked : MarkerLine marker line)
    (opens : ∀ comment, markerLabel comment = markerLabel marker →
      markers.partOpenedBy? comment = some part)
    (header : reading.part ≠ .body) (offset : Nat) :
    reading.step markers offset line = .ok { reading with part := part } := by
  obtain ⟨text, rfl, label⟩ := markerLabel_markerLine marked
  have blank : Text.trim (Line.code ('-' :: '-' :: text)) = [] := by
    rw [Line.code_comment]
    rfl
  rw [step_comment (Line.comment?_comment text) blank header, opens _ label]
  rfl

theorem step_signalLine {name type line : Text} {declaration : Declaration} {offset : Nat}
    (identifier : Text.isIdentifier name = true) (fresh : '-' ∉ type)
    (ended : Text.LineOf (signalLine name type) line)
    (declares : reading.part = .inputs ∨ reading.part = .outputs)
    (read : Declaration.read (signalLine name type) offset = .ok (some declaration)) :
    reading.step markers offset line = .ok (reading.declare declaration) := by
  have solid := solid_signalLine name type
  have code : Line.code line = signalLine name type := by
    apply Line.code_lineOf ended solid
    exact not_mem_signalLine identifier (by decide) (by decide) fresh
  have shown : ¬ (Text.trim (signalLine name type)).isEmpty = true := by
    rw [Text.trim_solid solid, List.isEmpty_iff]
    exact solid.ne_nil
  have header : reading.part ≠ .body ∧ reading.part ≠ .preamble := by
    rcases declares with part | part <;> rw [part] <;> decide
  have notBegin : opensBody (signalLine name type) = false := by
    rw [opensBody, signalLine_eq, List.append_assoc, Text.words_dark_append (by decide) (by decide) rfl]
    rfl
  rw [step, if_neg header.1, code, if_neg shown, if_neg header.2, declarationLine, notBegin, read]
  rfl

theorem step_begin {line : Text} (ended : Text.LineOf "begin".toList line)
    (part : reading.part = .outputs) (offset : Nat) :
    reading.step markers offset line = .ok { reading with part := .body } := by
  have code : Line.code line = "begin".toList :=
    Line.code_lineOf ended (Text.solid_of_forall (by decide) (by decide)) (by decide)
  rw [step, part, if_neg (by decide), code, if_neg (by decide), if_neg (by decide), declarationLine,
    if_pos (by decide)]

theorem steps_inputs {ports : List InputPort} {lines : List Text}
    (written : List.Forall₂ (fun port line => Text.LineOf (signalLine port.name port.type) line)
      ports lines)
    (narrow : ∀ port ∈ ports, port.width < indexBound) (part : reading.part = .inputs) (offset : Nat) :
    ∃ (added : List InputDeclaration) (later : Nat),
      (added.map fun input => (input.name, input.width)) =
        (ports.map fun port => (port.name, port.width)) ∧
      ∀ rest, steps markers offset reading (lines ++ rest) =
        steps markers later { reading with inputs := reading.inputs ++ added } rest := by
  induction written generalizing reading offset with
  | nil => exact ⟨[], offset, rfl, fun rest => by rw [List.append_nil]; rfl⟩
  | @cons port line ports lines ended _ ih =>
    obtain ⟨small, more⟩ := List.forall_mem_cons.mp narrow
    obtain ⟨isVector, span, read⟩ := port.read_declaration small offset
    have stepped := @step_signalLine markers reading _ _ _ _ _ port.identifier
      (port.not_mem_type (by decide) (by decide)) ended (.inl part) read
    have declared : reading.declare ⟨[port.name], port.width, isVector, span⟩ =
        { reading with inputs := reading.inputs ++ [⟨port.name, port.width, span⟩] } := by
      rw [declare, part]
      rfl
    rw [declared] at stepped
    obtain ⟨added, later, same, taken⟩ := @ih
      { reading with inputs := reading.inputs ++ [⟨port.name, port.width, span⟩] } more part
      (offset + Text.byteLength line)
    refine ⟨⟨port.name, port.width, span⟩ :: added, later, ?_, ?_⟩
    · rw [List.map_cons, List.map_cons, same]
    · intro rest
      rw [List.cons_append, steps_cons stepped, taken, List.append_assoc]
      rfl

theorem steps_outputs {ports : List OutputPort} {lines : List Text}
    (written : List.Forall₂ (fun port line => Text.LineOf (signalLine port.name bitType) line)
      ports lines)
    (part : reading.part = .outputs) (offset : Nat) :
    ∃ (added : List OutputDeclaration) (later : Nat),
      added.map OutputDeclaration.name = ports.map OutputPort.name ∧
      ∀ rest, steps markers offset reading (lines ++ rest) =
        steps markers later { reading with outputs := reading.outputs ++ added } rest := by
  induction written generalizing reading offset with
  | nil => exact ⟨[], offset, rfl, fun rest => by rw [List.append_nil]; rfl⟩
  | @cons port line ports lines ended _ ih =>
    obtain ⟨span, read⟩ := read_bitLine port.identifier offset
    have stepped := @step_signalLine markers reading _ _ _ _ _ port.identifier (by decide) ended
      (.inr part) read
    have declared : reading.declare ⟨[port.name], 1, false, span⟩ =
        { reading with outputs := reading.outputs ++ [⟨port.name, span⟩] } := by
      rw [declare, part]
      rfl
    rw [declared] at stepped
    obtain ⟨added, later, same, taken⟩ := @ih
      { reading with outputs := reading.outputs ++ [⟨port.name, span⟩] } part
      (offset + Text.byteLength line)
    refine ⟨⟨port.name, span⟩ :: added, later, ?_, ?_⟩
    · rw [List.map_cons, List.map_cons, same]
    · intro rest
      rw [List.cons_append, steps_cons stepped, taken, List.append_assoc]
      rfl

end Reading

namespace Text

theorem LaidOut.append {first second shown more : Text} (before : first.LaidOut shown)
    (after : second.LaidOut more) : (first ++ second).LaidOut (shown ++ more) := by
  induction before with
  | nil => exact after
  | dark dark _ ih => exact .dark dark ih
  | blank blank fills nonempty _ ih =>
    rw [List.append_assoc]
    exact .blank blank fills nonempty ih

theorem laidOut_self {text : Text} (single : '\n' ∉ text) : text.LaidOut text := by
  induction text with
  | nil => exact .nil
  | cons c text ih =>
    rw [List.mem_cons, not_or] at single
    cases blank : isBlank c with
    | false => exact .dark blank (ih single.2)
    | true =>
      have fills : Filler [c] := .blanks (by simpa [AllBlank] using blank) (by simpa using single.1)
      exact .blank blank fills (List.cons_ne_nil _ _) (ih single.2)

end Text

namespace Design

variable {markers : Markers} {design : Design}

theorem single_markerLine {marker line : Text} (marked : MarkerLine marker line)
    (fresh : '\n' ∉ marker) :
    ∃ text, Text.LineOf text line ∧ '\n' ∉ text := by
  obtain ⟨lead, tail, leadRule, tailRule, ended⟩ := marked
  refine ⟨_, ended, ?_⟩
  simp only [List.mem_cons, List.mem_append, not_or]
  exact ⟨by decide, by decide, ⟨fun member => absurd (leadRule _ member) (by decide), fresh⟩,
    fun member => absurd (tailRule _ member) (by decide)⟩

theorem single_lines {α : Type} {ports : List α} {text : α → Text} {lines : List Text}
    (written : List.Forall₂ (fun port line => Text.LineOf (text port) line) ports lines)
    (fresh : ∀ port, '\n' ∉ text port) :
    ∀ line ∈ lines, ∃ text, Text.LineOf text line ∧ '\n' ∉ text := by
  induction written with
  | nil => simp
  | @cons port line _ _ ended _ ih => exact List.forall_mem_cons.mpr ⟨⟨text port, ended, fresh port⟩, ih⟩

theorem steps_header {inputsLine outputsLine beginLine : Text} {inputLines outputLines : List Text}
    (differ : markerLabel markers.inputs ≠ markerLabel markers.outputs)
    (narrow : ∀ port ∈ design.inputs, port.width < indexBound)
    (inputsMarked : MarkerLine markers.inputs inputsLine)
    (inputsWritten : List.Forall₂ (fun port line => Text.LineOf (signalLine port.name port.type) line)
      design.inputs inputLines)
    (outputsMarked : MarkerLine markers.outputs outputsLine)
    (outputsWritten : List.Forall₂ (fun port line => Text.LineOf (signalLine port.name bitType) line)
      design.outputs outputLines)
    (begins : Text.LineOf "begin".toList beginLine) :
    ∃ (inputs : List InputDeclaration) (outputs : List OutputDeclaration) (offset : Nat),
      (inputs.map fun input => (input.name, input.width)) =
        (design.inputs.map fun port => (port.name, port.width)) ∧
      outputs.map OutputDeclaration.name = design.outputs.map OutputPort.name ∧
      ∀ rest, Reading.steps markers 0 {}
          (inputsLine :: inputLines ++ (outputsLine :: outputLines ++ [beginLine]) ++ rest) =
        Reading.steps markers offset ⟨.body, inputs, outputs, {}⟩ rest := by
  have opensInputs : ∀ comment, markerLabel comment = markerLabel markers.inputs →
      markers.partOpenedBy? comment = some .inputs := by
    intro comment label
    rw [Markers.partOpenedBy?, if_pos label]
  have opensOutputs : ∀ comment, markerLabel comment = markerLabel markers.outputs →
      markers.partOpenedBy? comment = some .outputs := by
    intro comment label
    rw [Markers.partOpenedBy?, if_neg (by rw [label]; exact differ.symm), if_pos label]
  have first := @Reading.step_markerLine markers {} _ _ _ inputsMarked opensInputs (by decide) 0
  obtain ⟨inputs, afterInputs, sameInputs, takenInputs⟩ :=
    @Reading.steps_inputs markers ⟨.inputs, [], [], {}⟩ _ _ inputsWritten narrow rfl
      (0 + Text.byteLength inputsLine)
  have inHeader : SourcePart.inputs ≠ .body := by decide
  have second := @Reading.step_markerLine markers ⟨.inputs, inputs, [], {}⟩ _ _ _ outputsMarked
    opensOutputs inHeader afterInputs
  obtain ⟨outputs, afterOutputs, sameOutputs, takenOutputs⟩ :=
    @Reading.steps_outputs markers ⟨.outputs, inputs, [], {}⟩ _ _ outputsWritten rfl
      (afterInputs + Text.byteLength outputsLine)
  have last := @Reading.step_begin markers ⟨.outputs, inputs, outputs, {}⟩ _ begins rfl afterOutputs
  refine ⟨inputs, outputs, afterOutputs + Text.byteLength beginLine, sameInputs, sameOutputs, ?_⟩
  intro rest
  simp only [List.cons_append, List.append_assoc, List.nil_append]
  calc Reading.steps markers 0 {}
        (inputsLine :: (inputLines ++ outputsLine :: (outputLines ++ beginLine :: rest)))
    _ = Reading.steps markers _ ⟨.inputs, [], [], {}⟩
          (inputLines ++ outputsLine :: (outputLines ++ beginLine :: rest)) :=
      Reading.steps_cons first _
    _ = Reading.steps markers afterInputs ⟨.inputs, inputs, [], {}⟩
          (outputsLine :: (outputLines ++ beginLine :: rest)) :=
      takenInputs _
    _ = Reading.steps markers _ ⟨.outputs, inputs, [], {}⟩ (outputLines ++ beginLine :: rest) :=
      Reading.steps_cons second _
    _ = Reading.steps markers afterOutputs ⟨.outputs, inputs, outputs, {}⟩ (beginLine :: rest) :=
      takenOutputs _
    _ = Reading.steps markers _ ⟨.body, inputs, outputs, {}⟩ rest :=
      Reading.steps_cons last rest

/-- Reading undoes writing. -/
theorem read_written {source : Text} (inputsSingle : '\n' ∉ markers.inputs)
    (outputsSingle : '\n' ∉ markers.outputs)
    (differ : markerLabel markers.inputs ≠ markerLabel markers.outputs)
    (narrow : ∀ port ∈ design.inputs, port.width < indexBound)
    (written : design.Written markers source) :
    ∃ unit, DesignUnit.read markers source = .ok unit ∧
      (unit.inputs.map fun input => (input.name, input.width)) =
        (design.inputs.map fun port => (port.name, port.width)) ∧
      unit.outputs.map OutputDeclaration.name = design.outputs.map OutputPort.name ∧
      List.Forall₂ Statement.States unit.statements design.assignments := by
  obtain @⟨inputsLine, outputsLine, beginLine, body, inputLines, outputLines, inputsMarked,
    inputsWritten, outputsMarked, outputsWritten, begins, bodyWritten⟩ := written
  obtain ⟨inputs, outputs, offset, sameInputs, sameOutputs, header⟩ := steps_header differ narrow
    inputsMarked inputsWritten outputsMarked outputsWritten begins
  obtain ⟨statements, states, added⟩ := StatementList.addText_body bodyWritten [] offset
  refine ⟨⟨inputs, outputs, statements⟩, ?_, sameInputs, sameOutputs, states⟩
  have single : ∀ line ∈ inputsLine :: inputLines ++ (outputsLine :: outputLines ++ [beginLine]),
      ∃ text, Text.LineOf text line ∧ '\n' ∉ text := by
    have inputsFresh := single_lines inputsWritten fun port =>
      not_mem_signalLine port.identifier (by decide) (by decide)
        (port.not_mem_type (by decide) (by decide))
    have outputsFresh := single_lines outputsWritten fun port =>
      not_mem_signalLine port.identifier (by decide) (by decide) (by decide)
    rw [List.forall_mem_append, List.forall_mem_append, List.forall_mem_cons, List.forall_mem_cons,
      List.forall_mem_singleton]
    exact ⟨⟨single_markerLine inputsMarked inputsSingle, inputsFresh⟩,
      ⟨single_markerLine outputsMarked outputsSingle, outputsFresh⟩, _, begins, by decide⟩
  have collected : StatementList.addLines offset {} (Text.lines body) = ⟨statements, none⟩ := added
  rw [DesignUnit.read, Text.lines_flatten_append single, header, Reading.steps_body rfl, collected]
  rfl

def sampleDesign : Design where
  inputs := [⟨['a'], 1, 0, by decide, by decide, by decide⟩,
    ⟨['v'], 4, 2, by decide, by decide, by decide⟩]
  outputs := [⟨['y'], by decide⟩]
  assignments := [⟨['y'], "'1' when a else '0'".toList, by decide, by decide, by decide⟩]

def sampleBody : Text :=
  [' ', ' '] ++ (['y'] ++ [' ', '<', '=', ' '] ++
    ("'1' when".toList ++ (" -- b <= c;\n ".toList ++ "a else '0'".toList) ++ ';' :: ['\n']))

def sampleText : Text :=
  ("--== Inputs ==\r\n".toList ::
    ["signal a : std_logic;\n".toList, "signal v : std_logic_vector(5 downto 2);\n".toList] ++
    ("-- Outputs:\n".toList :: ["signal y : std_logic;\n".toList] ++ ["begin\n".toList])).flatten ++
  sampleBody

theorem bodyText_sampleBody : BodyText sampleDesign.assignments sampleBody := by
  have comment : Filler ([] ++ [' '] ++ '-' :: '-' :: " b <= c;".toList ++ '\n' :: [' ']) :=
    .line (.comment (by decide) (by decide) (by decide)) (.blanks (by decide) (by decide))
  have ending : Filler ([] ++ '\n' :: []) :=
    .line (.plain (by decide) (by decide)) (.blanks (by decide) (by decide))
  have rhs : Text.LaidOut ("'1' when".toList ++ ' ' :: "a else '0'".toList)
      ("'1' when".toList ++ (" -- b <= c;\n ".toList ++ "a else '0'".toList)) :=
    (Text.laidOut_self (by decide)).append
      (.blank rfl comment (by decide) (Text.laidOut_self (by decide)))
  exact .cons (.blanks (by decide) (by decide)) rhs (.nil ending)

theorem written_sampleDesign : sampleDesign.Written {} sampleText :=
  .intro ⟨"== ".toList, " ==".toList, by decide, by decide, .inr (by decide)⟩
    (.cons (.inl (by decide +kernel)) (.cons (.inl (by decide +kernel)) .nil))
    ⟨[' '], [':'], by decide, by decide, .inl (by decide)⟩
    (.cons (.inl (by decide)) .nil) (.inl (by decide)) bodyText_sampleBody

theorem read_sampleText :
    sampleDesign.Written {} sampleText ∧
      ∃ unit, DesignUnit.read {} sampleText = .ok unit ∧
        (unit.inputs.map fun input => (input.name, input.width)) = [(['a'], 1), (['v'], 4)] ∧
        unit.outputs.map OutputDeclaration.name = [['y']] ∧
        List.Forall₂ Statement.States unit.statements sampleDesign.assignments :=
  ⟨written_sampleDesign, read_written (by decide) (by decide) (by decide) (by decide)
    written_sampleDesign⟩

def widestDesign : Design :=
  ⟨[⟨['a'], indexBound, 0, by decide, by decide, by decide⟩], [], []⟩

def widestText : Text :=
  ("-- Inputs\n".toList ::
    ["signal a : std_logic_vector(18446744073709551615 downto 0);\n".toList] ++
    ("-- Outputs\n".toList :: [] ++ ["begin\n".toList])).flatten ++ []

theorem widestText_rejected :
    widestDesign.Written {} widestText ∧ ¬ ∃ unit, DesignUnit.read {} widestText = .ok unit := by
  have rejected : DesignUnit.read {} widestText =
      .error (.malformedDeclaration [['a']] (.tooWide 18446744073709551615 0) ⟨10, 69⟩) := by
    decide +kernel
  constructor
  · exact .intro ⟨[' '], [], by decide, by decide, .inl (by decide)⟩
      (.cons (.inl (by decide +kernel)) .nil) ⟨[' '], [], by decide, by decide, .inl (by decide)⟩
      .nil (.inl (by decide)) (.nil (.blanks (by decide) (by decide)))
  · rintro ⟨unit, accepted⟩
    rw [rejected] at accepted
    cases accepted

end Design

end TriggerLogic
