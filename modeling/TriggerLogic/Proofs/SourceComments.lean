import TriggerLogic.Proofs.BodyText
import TriggerLogic.Proofs.PlainTable
import TriggerLogic.Proofs.StatementPlaces

namespace TriggerLogic

def OpenStatement.Alike (first second : OpenStatement) : Prop :=
  ∃ parts others : AssignmentText, first.text = parts.text ∧ second.text = others.text ∧
    parts.target = others.target ∧ Text.squeeze parts.rhs = Text.squeeze others.rhs

namespace AssignmentText

theorem target_text (parts : AssignmentText) (start : Nat) :
    (OpenStatement.mk start parts.text).target = parts.target := by
  rw [OpenStatement.target, parts.cut?_text]
  exact parts.trim_front

theorem exists_of_squeeze {text : Text} (parts : AssignmentText)
    (same : Text.squeeze parts.text = Text.squeeze text) :
    ∃ others : AssignmentText, text = others.text ∧ parts.target = others.target ∧
      Text.squeeze parts.rhs = Text.squeeze others.rhs := by
  have dark : ∀ d ∈ ['<', '='], Text.isPlainBlank d = false := by decide
  have cut := Text.cut?_squeeze dark parts.text
  rw [same, Text.cut?_squeeze dark, parts.cut?_text] at cut
  obtain ⟨⟨left, rhs⟩, found, squeezed⟩ := Option.map_eq_some_iff.mp cut
  obtain ⟨front, back⟩ := Prod.mk.inj squeezed
  have target : parts.target = Text.trim left := by
    rw [← parts.trim_front]
    apply Text.trim_congr front.symm
    rw [parts.trim_front]
    intro c member
    exact Text.isPlainBlank_of_dark (Text.isBlank_of_isIdentifier parts.identifier c member)
  have single : ';' ∉ rhs := by
    rw [← Text.mem_squeeze (by decide), back, Text.mem_squeeze (by decide)]
    exact parts.single
  obtain ⟨others, head, named, rest⟩ :=
    @exists_of_named left rhs (target ▸ parts.identifier) single
  refine ⟨others, ?_, target.trans named.symm, by rw [rest, back]⟩
  rw [AssignmentText.text, head, rest]
  exact Text.cut?_eq_some found

end AssignmentText

namespace StatementList

structure Alike (first second : StatementList) : Prop where
  closed : first.closed.map Statement.plain = second.closed.map Statement.plain
  pending : Option.Rel OpenStatement.Alike first.pending second.pending

def outline (statements : StatementList) : List Statement × Option Text :=
  (statements.closed.map Statement.plain, statements.pending.map OpenStatement.target)

variable {first second : StatementList} {statement another : OpenStatement}

theorem Alike.outline (alike : first.Alike second) : first.outline = second.outline := by
  obtain ⟨closed, pending⟩ := first
  obtain ⟨others, waiting⟩ := second
  obtain ⟨same, both⟩ := alike
  simp only at same both
  rw [StatementList.outline, StatementList.outline, same]
  cases both with
  | none => rfl
  | @some statement another both =>
    obtain ⟨start, text⟩ := statement
    obtain ⟨place, more⟩ := another
    obtain ⟨parts, others, rfl, rfl, target, -⟩ := both
    simp only [Option.map_some, AssignmentText.target_text, target]

theorem Alike.extend {part other : Text} (alike : first.Alike second) (single : ';' ∉ part)
    (same : Text.squeeze part = Text.squeeze other) (offset place : Nat) :
    Option.Rel OpenStatement.Alike (first.extend? offset part) (second.extend? place other) := by
  obtain ⟨closed, pending⟩ := first
  obtain ⟨others, waiting⟩ := second
  obtain ⟨-, both⟩ := alike
  have singleOther : ';' ∉ other := by
    rw [← Text.mem_squeeze (by decide), ← same, Text.mem_squeeze (by decide)]
    exact single
  cases both with
  | none =>
    by_cases opens : opensStatement part = true
    · obtain ⟨parts, rfl⟩ := AssignmentText.exists_of_opensStatement opens single
      obtain ⟨others, rfl, target, rhs⟩ := parts.exists_of_squeeze same
      simp only [extend?, parts.opensStatement_text, others.opensStatement_text, if_true]
      exact .some ⟨parts, others, rfl, rfl, target, rhs⟩
    · have idle : ¬ opensStatement other = true := by
        intro opensOther
        obtain ⟨others, rfl⟩ := AssignmentText.exists_of_opensStatement opensOther singleOther
        obtain ⟨parts, rfl, -⟩ := others.exists_of_squeeze same.symm
        exact opens parts.opensStatement_text
      simp only [extend?, if_neg opens, if_neg idle]
      exact .none
  | some both =>
    obtain ⟨parts, others, text, more, target, rhs⟩ := both
    refine .some ⟨parts.goOn part single, others.goOn other singleOther, ?_, ?_, target, ?_⟩
    · rw [text, parts.text_goOn]
    · rw [more, others.text_goOn]
    · exact Text.squeeze_append_congr rhs same

theorem Alike.close (alike : first.Alike second) (both : statement.Alike another) :
    (first.close statement).Alike (second.close another) := by
  obtain ⟨start, text⟩ := statement
  obtain ⟨place, more⟩ := another
  obtain ⟨parts, others, rfl, rfl, target, rhs⟩ := both
  refine ⟨?_, .none⟩
  rw [StatementList.close, StatementList.close, parts.close?_text, others.close?_text]
  simp only [Option.toList_some, List.map_append, alike.closed, List.map_cons, List.map_nil,
    Statement.plain, AssignmentText.statementAt, target, rhs]

theorem Alike.addLine {line other : Text} (alike : first.Alike second)
    (same : Text.squeeze line = Text.squeeze other) (offset place : Nat) :
    (first.addLine offset line).Alike (second.addLine place other) := by
  induction length : line.length using Nat.strongRecOn
    generalizing line other first second offset place with
  | _ n ih =>
    have either : ';' ∈ line ↔ ';' ∈ other := by
      rw [← Text.mem_squeeze (by decide), same, Text.mem_squeeze (by decide)]
    by_cases found : ';' ∈ line
    · obtain ⟨part, rest, rfl, single⟩ := List.eq_append_cons_of_mem found
      obtain ⟨front, back, rfl, singleFront⟩ := List.eq_append_cons_of_mem (either.mp found)
      obtain ⟨sameFront, sameBack⟩ := Text.squeeze_parts (by decide) single singleFront same
      have shorter : rest.length < n := by
        rw [List.length_append, List.length_cons] at length
        omega
      have both := alike.extend single sameFront offset place
      rw [addLine_semicolon single, addLine_semicolon singleFront]
      generalize first.extend? offset part = extended at both ⊢
      generalize second.extend? place front = continued at both ⊢
      cases both with
      | none => exact alike
      | some both => exact ih _ shorter (alike.close both) sameBack _ _ rfl
    · have last := mt either.mpr found
      rw [addLine_last found, addLine_last last]
      exact ⟨alike.closed, alike.extend found same offset place⟩

theorem outline_extend? {blanks : Text} (blank : blanks.AllBlank) (statements : StatementList)
    (offset : Nat) (part : Text) :
    (statements.extend? offset (part ++ blanks)).map OpenStatement.target =
      (statements.extend? offset part).map OpenStatement.target := by
  have cut := @Text.cut?_append_fresh '<' ['='] blanks fun c member =>
    blank.not_mem (by revert c; decide)
  have target : ∀ (start : Nat) (text : Text),
      (OpenStatement.mk start (text ++ blanks)).target = (OpenStatement.mk start text).target := by
    intro start text
    simp only [OpenStatement.target, cut]
    cases Text.cut? ['<', '='] text with
    | none => exact Text.trim_append_blank blank text
    | some parts => rfl
  have opens : opensStatement (part ++ blanks) = opensStatement part := by
    rw [opensStatement, opensStatement, cut]
    cases Text.cut? ['<', '='] part <;> rfl
  unfold extend?
  cases statements.pending with
  | none =>
    simp only [opens]
    split
    · exact congrArg some (target offset part)
    · rfl
  | some earlier =>
    simp only [Option.map_some, ← List.append_assoc, target]

theorem outline_addLine {blanks : Text} (blank : blanks.AllBlank) (statements : StatementList)
    (offset : Nat) (line : Text) :
    (statements.addLine offset (line ++ blanks)).outline = (statements.addLine offset line).outline := by
  induction length : line.length using Nat.strongRecOn generalizing line statements offset with
  | _ n ih =>
    by_cases found : ';' ∈ line
    · obtain ⟨part, rest, rfl, single⟩ := List.eq_append_cons_of_mem found
      rw [List.append_assoc, List.cons_append, addLine_semicolon single, addLine_semicolon single]
      have shorter : rest.length < n := by
        rw [List.length_append, List.length_cons] at length
        omega
      cases statements.extend? offset part with
      | none => rfl
      | some statement => exact ih _ shorter _ _ _ rfl
    · have last : ';' ∉ line ++ blanks := by
        rw [List.mem_append, not_or]
        exact ⟨found, blank.not_mem (by decide)⟩
      rw [addLine_last found, addLine_last last, outline, outline]
      simp only [outline_extend? blank]

end StatementList

namespace Line

def stem (raw : Text) : Text :=
  body (code raw)

theorem exists_stem_append (raw : Text) :
    ∃ ends, code raw = stem raw ++ ends ∧ ends.PlainBlank := by
  obtain ⟨ends, whole, all⟩ := Text.exists_dropEndWhile isEnd (code raw)
  refine ⟨ends, whole, ?_⟩
  intro c member
  have isEnd := all c member
  simp only [Line.isEnd, Bool.or_eq_true, beq_iff_eq] at isEnd
  rcases isEnd with rfl | rfl <;> decide

theorem trim_code (raw : Text) : Text.trim (code raw) = Text.trim (stem raw) := by
  obtain ⟨ends, whole, plain⟩ := exists_stem_append raw
  rw [whole, Text.trim_append_blank plain.allBlank]

theorem opensBody_code (raw : Text) : opensBody (code raw) = opensBody (stem raw) := by
  obtain ⟨ends, whole, plain⟩ := exists_stem_append raw
  rw [opensBody, opensBody, whole, Text.words_append_allBlank plain.allBlank]

theorem exists_blanked (raw : Text) :
    ∃ blanks, blanked raw = stem raw ++ blanks ∧ blanks.PlainBlank := by
  obtain ⟨ends, whole, plain⟩ := exists_stem_append raw
  refine ⟨ends ++ List.replicate (Text.byteLength raw - Text.byteLength (code raw)) ' ', ?_, ?_⟩
  · rw [← List.append_assoc, ← whole]
    rfl
  · refine List.forall_mem_append.mpr ⟨plain, ?_⟩
    intro c member
    rw [List.eq_of_mem_replicate member]
    decide

theorem exists_blanked_gap (text : Text) :
    ∃ gap, blanked (text ++ ['\n']) = stem (text ++ ['\n']) ++ gap ∧ gap.Gap := by
  obtain ⟨blanks, shown, plain⟩ := exists_blanked (text ++ ['\n'])
  refine ⟨blanks, shown, ?_, plain⟩
  intro none
  have bare := code_lineFeed text
  obtain ⟨ends, whole, -⟩ := exists_stem_append (text ++ ['\n'])
  obtain ⟨rest, split⟩ := exists_code_append text
  have lengths := congrArg Text.byteLength shown
  have codeLength := congrArg Text.byteLength whole
  have textLength := congrArg Text.byteLength split
  rw [none, List.append_nil, byteLength_blanked, Text.byteLength_append] at lengths
  rw [bare, Text.byteLength_append] at codeLength
  rw [Text.byteLength_append] at textLength
  have feed : Text.byteLength ['\n'] = 1 := rfl
  omega

end Line

def Declaration.plain (declaration : Declaration) : Declaration :=
  { declaration with span := .nowhere }

theorem Declaration.read_alike {code other : Text} (same : Text.trim code = Text.trim other)
    (offset place : Nat) :
    SameOutcome SourceFault.plain (fun found another => found.map plain = another.map plain)
      (read code offset) (read other place) := by
  unfold read
  rw [same]
  simp only
  split
  · exact .ok rfl
  · exact .ok rfl
  · split
    · exact .error rfl
    · exact .ok rfl

namespace Reading

/-- Two readings that stand in the same part with the same declarations and with statements that are
related by `alike`. -/
structure Rel (alike : StatementList → StatementList → Prop) (first second : Reading) : Prop where
  part : first.part = second.part
  inputs : first.inputs.map InputDeclaration.plain = second.inputs.map InputDeclaration.plain
  outputs : first.outputs.map OutputDeclaration.plain = second.outputs.map OutputDeclaration.plain
  statements : alike first.statements second.statements

variable {alike : StatementList → StatementList → Prop} {first second : Reading} {markers : Markers}
  {offset place : Nat} {raw other : Text}

theorem Rel.commentLine (both : Rel alike first second)
    (comment : Line.comment? raw = Line.comment? other) :
    Rel alike (first.commentLine markers raw) (second.commentLine markers other) := by
  unfold Reading.commentLine
  rw [comment]
  cases (Line.comment? other).bind markers.partOpenedBy? with
  | none => exact both
  | some part => exact ⟨rfl, both.inputs, both.outputs, both.statements⟩

theorem Rel.declare {declaration another : Declaration} (both : Rel alike first second)
    (same : declaration.plain = another.plain) :
    Rel alike (first.declare declaration) (second.declare another) := by
  obtain ⟨names, width, isVector, span⟩ := declaration
  obtain ⟨_, _, _, stop⟩ := another
  cases same
  unfold Reading.declare
  rw [both.part]
  split
  · refine ⟨rfl, ?_, both.outputs, both.statements⟩
    simp only [List.map_append, both.inputs, List.map_map]
    rfl
  · split
    · exact both
    · refine ⟨rfl, both.inputs, ?_, both.statements⟩
      simp only [List.map_append, both.outputs, List.map_map]
      rfl
  · exact both
  · exact both

theorem Rel.declarationLine {code another : Text} (both : Rel alike first second)
    (trimmed : Text.trim code = Text.trim another) (opens : opensBody code = opensBody another) :
    SameOutcome SourceFault.plain (Rel alike) (first.declarationLine offset code)
      (second.declarationLine place another) := by
  unfold Reading.declarationLine
  rw [opens]
  split
  · exact .ok ⟨rfl, both.inputs, both.outputs, both.statements⟩
  · have read := Declaration.read_alike trimmed offset place
    generalize Declaration.read code offset = declared at read ⊢
    generalize Declaration.read another place = found at read ⊢
    cases read with
    | error same => exact .error same
    | ok same =>
      cases rel_of_map_eq same with
      | none => exact .ok both
      | some alike => exact .ok (both.declare alike)

theorem Rel.step {after : StatementList → StatementList → Prop} (both : Rel alike first second)
    (stem : Line.stem raw = Line.stem other)
    (comment : first.part ≠ .body → Text.trim (Line.code raw) = [] →
      Line.comment? raw = Line.comment? other)
    (kept : after first.statements second.statements)
    (taken : after (first.statements.addLine offset (Line.blanked raw))
      (second.statements.addLine place (Line.blanked other))) :
    SameOutcome SourceFault.plain (Rel after) (first.step markers offset raw)
      (second.step markers place other) := by
  have trimmed : Text.trim (Line.code raw) = Text.trim (Line.code other) := by
    rw [Line.trim_code, Line.trim_code, stem]
  have opens : opensBody (Line.code raw) = opensBody (Line.code other) := by
    rw [Line.opensBody_code, Line.opensBody_code, stem]
  have later : Rel after first second := ⟨both.part, both.inputs, both.outputs, kept⟩
  unfold Reading.step
  rw [both.part, trimmed]
  split
  · exact .ok ⟨rfl, both.inputs, both.outputs, taken⟩
  · rename_i outside
    split
    · rename_i empty
      rw [List.isEmpty_iff] at empty
      exact .ok (later.commentLine (comment (both.part ▸ outside) (trimmed.trans empty)))
    · split
      · exact .ok later
      · exact later.declarationLine trimmed opens

theorem step_nil (reading : Reading) : reading.step markers offset [] = .ok reading := by
  unfold Reading.step
  split
  · have same := StatementList.addLine_nil reading.statements offset
    exact congrArg (fun statements => Except.ok { reading with statements := statements }) same
  · rfl

theorem steps_head (reading : Reading) (lines : List Text) :
    steps markers offset reading lines =
      (reading.step markers offset (lines.headD [])).bind fun next =>
        steps markers (offset + Text.byteLength (lines.headD [])) next lines.tail := by
  cases lines with
  | nil =>
    rw [List.headD_nil, step_nil]
    rfl
  | cons raw lines =>
    rw [steps, List.headD_cons]
    cases reading.step markers offset raw <;> rfl

def Precedes (markers : Markers) (offset : Nat) (reading : Reading) (lines : List Text)
    (index : Nat) : Prop :=
  ∃ middle, steps markers offset reading (lines.take index) = .ok middle ∧ middle.part ≠ .body

/-- Lines that differ in comments and line ends only. Where one source has fewer lines, it goes on
with empty ones. -/
structure SameCode (markers : Markers) (offset : Nat) (reading : Reading) (lines others : List Text) :
    Prop where
  stem : ∀ index, Line.stem (lines.getD index []) = Line.stem (others.getD index [])
  comment : ∀ index, Precedes markers offset reading lines index →
    Text.trim (Line.code (lines.getD index [])) = [] →
    Line.comment? (lines.getD index []) = Line.comment? (others.getD index [])

variable {lines others : List Text}

theorem getD_tail (lines : List Text) (index : Nat) :
    lines.tail.getD index [] = lines.getD (index + 1) [] := by
  cases lines <;> rfl

theorem headD_eq_getD (lines : List Text) : lines.headD [] = lines.getD 0 [] := by
  cases lines <;> rfl

theorem SameCode.tail {next : Reading} (same : SameCode markers offset first lines others)
    (stepped : first.step markers offset (lines.headD []) = .ok next) :
    SameCode markers (offset + Text.byteLength (lines.headD [])) next lines.tail others.tail := by
  constructor
  · intro index
    rw [getD_tail, getD_tail]
    exact same.stem (index + 1)
  · rintro index ⟨middle, reached, outside⟩
    rw [getD_tail, getD_tail]
    apply same.comment (index + 1)
    have head : (lines.take (index + 1)).headD [] = lines.headD [] := by cases lines <;> rfl
    have tail : (lines.take (index + 1)).tail = lines.tail.take index := by
      cases lines with
      | nil => rw [List.take_nil, List.tail_nil, List.take_nil]
      | cons raw lines => rfl
    refine ⟨middle, ?_, outside⟩
    rw [steps_head, head, tail, stepped]
    exact reached

theorem SameCode.head (same : SameCode markers offset first lines others) :
    Line.stem (lines.headD []) = Line.stem (others.headD []) ∧
      (first.part ≠ .body → Text.trim (Line.code (lines.headD [])) = [] →
        Line.comment? (lines.headD []) = Line.comment? (others.headD [])) := by
  rw [headD_eq_getD, headD_eq_getD]
  exact ⟨same.stem 0, fun outside => same.comment 0 ⟨first, rfl, outside⟩⟩

def SameOutline (first second : StatementList) : Prop :=
  first.outline = second.outline

theorem Rel.steps_ended {count : Nat} (both : Rel SameOutline first second)
    (same : SameCode markers offset first lines others) (ended : lines = [] ∨ others = [])
    (short : lines.length ≤ count ∧ others.length ≤ count) :
    SameOutcome SourceFault.plain (Rel SameOutline) (steps markers offset first lines)
      (steps markers place second others) := by
  induction count generalizing first second offset place lines others with
  | zero =>
    rw [Nat.le_zero, Nat.le_zero, List.length_eq_zero_iff, List.length_eq_zero_iff] at short
    rw [short.1, short.2]
    exact .ok both
  | succ count ih =>
    have empty : Line.stem (lines.headD []) = [] ∧ Line.stem (others.headD []) = [] := by
      obtain ⟨stem, -⟩ := same.head
      rcases ended with rfl | rfl
      · exact ⟨rfl, stem.symm⟩
      · exact ⟨stem, rfl⟩
    have idle : ∀ (statements : StatementList) (start : Nat) (raw : Text), Line.stem raw = [] →
        (statements.addLine start (Line.blanked raw)).outline = statements.outline := by
      intro statements start raw bare
      obtain ⟨blanks, shown, plain⟩ := Line.exists_blanked raw
      rw [shown, bare, StatementList.outline_addLine plain.allBlank, StatementList.addLine_nil]
    have shows : SameOutline (first.statements.addLine offset (Line.blanked (lines.headD [])))
        (second.statements.addLine place (Line.blanked (others.headD []))) := by
      rw [SameOutline, idle _ _ _ empty.1, idle _ _ _ empty.2]
      exact both.statements
    rw [steps_head, steps_head]
    refine (both.step same.head.1 same.head.2 both.statements shows).bind fun next after read later => ?_
    apply ih later (same.tail read)
    · rcases ended with rfl | rfl
      · exact .inl rfl
      · exact .inr rfl
    · rw [List.length_tail, List.length_tail]
      omega

def Terminated (lines : List Text) : Prop :=
  ∀ line ∈ lines.dropLast, ∃ text, line = text ++ ['\n']

theorem terminated_lines (source : Text) : Terminated (Text.lines source) := by
  induction source with
  | nil =>
    intro line member
    cases member
  | cons c rest ih =>
    by_cases feed : c = '\n'
    · rw [Text.lines, if_pos feed]
      cases more : Text.lines rest with
      | nil =>
        intro line member
        cases member
      | cons next lines =>
        rw [Terminated, List.dropLast_cons_cons, List.forall_mem_cons, ← more]
        exact ⟨⟨[], by rw [feed]; rfl⟩, ih⟩
    · rw [Text.lines, if_neg feed]
      cases more : Text.lines rest with
      | nil =>
        intro line member
        cases member
      | cons first lines =>
        cases lines with
        | nil =>
          intro line member
          cases member
        | cons next lines =>
          rw [more, Terminated, List.dropLast_cons_cons, List.forall_mem_cons] at ih
          obtain ⟨⟨text, ended⟩, others⟩ := ih
          simp only
          rw [Terminated, List.dropLast_cons_cons, List.forall_mem_cons]
          exact ⟨⟨c :: text, by rw [ended, List.cons_append]⟩, others⟩

theorem Terminated.head (terminated : Terminated lines) (more : lines.tail ≠ []) :
    ∃ text, lines.headD [] = text ++ ['\n'] := by
  cases lines with
  | nil => exact absurd rfl more
  | cons line lines =>
    obtain ⟨next, rest, rfl⟩ := List.exists_cons_of_ne_nil more
    exact terminated line List.mem_cons_self

theorem Terminated.tail (terminated : Terminated lines) : Terminated lines.tail := by
  cases lines with
  | nil => exact terminated
  | cons line lines =>
    intro other member
    apply terminated
    cases lines with
    | nil => cases member
    | cons next rest => exact List.mem_cons_of_mem line member

/-- Readings of the same code stay alike as long as line feeds set off what stands on the next line;
the line where a source ends may lack one, and then only the outlines are the same. -/
theorem Rel.steps {count : Nat} (both : Rel StatementList.Alike first second)
    (same : SameCode markers offset first lines others) (terminated : Terminated lines)
    (terminatedOthers : Terminated others) (short : lines.length ≤ count ∧ others.length ≤ count) :
    SameOutcome SourceFault.plain (Rel SameOutline) (steps markers offset first lines)
      (steps markers place second others) := by
  induction count generalizing first second offset place lines others with
  | zero =>
    rw [Nat.le_zero, Nat.le_zero, List.length_eq_zero_iff, List.length_eq_zero_iff] at short
    rw [short.1, short.2]
    exact .ok ⟨both.part, both.inputs, both.outputs, both.statements.outline⟩
  | succ count ih =>
    have shorter : lines.tail.length ≤ count ∧ others.tail.length ≤ count := by
      rw [List.length_tail, List.length_tail]
      omega
    obtain ⟨stem, comment⟩ := same.head
    rw [steps_head, steps_head]
    by_cases ended : lines.tail = [] ∨ others.tail = []
    · have shows : SameOutline (first.statements.addLine offset (Line.blanked (lines.headD [])))
          (second.statements.addLine place (Line.blanked (others.headD []))) := by
        obtain ⟨blanks, shown, plain⟩ := Line.exists_blanked (lines.headD [])
        obtain ⟨spaces, shownOther, plainOther⟩ := Line.exists_blanked (others.headD [])
        have alike := both.statements.addLine (congrArg Text.squeeze stem) offset place
        rw [SameOutline, shown, shownOther, StatementList.outline_addLine plain.allBlank,
          StatementList.outline_addLine plainOther.allBlank]
        exact alike.outline
      refine (both.step stem comment both.statements.outline shows).bind
        fun next after read later => ?_
      exact later.steps_ended (same.tail read) ended shorter
    · rw [not_or] at ended
      have taken : (first.statements.addLine offset (Line.blanked (lines.headD []))).Alike
          (second.statements.addLine place (Line.blanked (others.headD []))) := by
        obtain ⟨text, line⟩ := terminated.head ended.1
        obtain ⟨other, lineOther⟩ := terminatedOthers.head ended.2
        obtain ⟨gap, shown, isGap⟩ := Line.exists_blanked_gap text
        obtain ⟨space, shownOther, isSpace⟩ := Line.exists_blanked_gap other
        rw [← line] at shown
        rw [← lineOther] at shownOther
        apply both.statements.addLine
        rw [shown, shownOther, stem]
        apply Text.squeeze_append_congr rfl
        rw [Text.squeeze_gap isGap, Text.squeeze_gap isSpace]
      refine (both.step stem comment both.statements taken).bind fun next after read later => ?_
      exact ih later (same.tail read) terminated.tail terminatedOthers.tail shorter

theorem Rel.finish (both : Rel SameOutline first second) (length stop : Nat) :
    SameOutcome SourceFault.plain (fun unit other => unit.plain = other.plain) (first.finish length)
      (second.finish stop) := by
  obtain ⟨closed, targets⟩ := Prod.mk.inj both.statements
  replace targets := rel_of_map_eq targets
  unfold Reading.finish
  generalize first.statements.pending = pending at targets ⊢
  generalize second.statements.pending = waiting at targets ⊢
  cases targets with
  | none =>
    apply SameOutcome.ok
    rw [DesignUnit.plain, DesignUnit.plain, both.inputs, both.outputs, closed]
  | some target => exact .error (congrArg (SourceFault.malformedAssignment · .nowhere) target)

end Reading

theorem DesignUnit.read_eq (markers : Markers) (source : Text) :
    read markers source =
      (Reading.steps markers 0 {} (Text.lines source)).bind fun reading =>
        reading.finish (Text.byteLength source) := by
  rw [read]
  cases Reading.steps markers 0 {} (Text.lines source) <;> rfl

theorem DecisionTable.ofSource_eq (markers : Markers) (source : Text) :
    ofSource markers source = ((DesignUnit.read markers source).mapError .source).bind ofUnit := by
  rw [ofSource]
  cases DesignUnit.read markers source <;> rfl

variable {markers : Markers} {first second : Text}

theorem DesignUnit.read_alike
    (same : Reading.SameCode markers 0 {} (Text.lines first) (Text.lines second)) :
    SameOutcome SourceFault.plain (fun unit other => unit.plain = other.plain) (read markers first)
      (read markers second) := by
  have start : Reading.Rel StatementList.Alike {} {} := ⟨rfl, rfl, rfl, rfl, .none⟩
  rw [read_eq, read_eq]
  refine (start.steps same (Reading.terminated_lines first) (Reading.terminated_lines second)
    ⟨Nat.le_max_left _ _, Nat.le_max_right _ _⟩).bind fun reading other _ both => ?_
  exact both.finish _ _

theorem DecisionTable.ofSource_alike
    (same : Reading.SameCode markers 0 {} (Text.lines first) (Text.lines second)) :
    SameOutcome TableFault.plain (fun table other => table.plain = other.plain)
      (ofSource markers first) (ofSource markers second) := by
  rw [ofSource_eq, ofSource_eq]
  exact (DesignUnit.read_alike same).source.bind fun unit other _ both => ofUnit_alike both

theorem Blake3.not_mem_hexByte (byte : UInt8) : '\n' ∉ hexByte byte := by
  have digit : ∀ number < 16, '\n' ≠ Nat.digitChar number := by decide
  have bound := byte.toNat_lt
  rw [hexByte, List.mem_cons, List.mem_singleton, not_or]
  exact ⟨digit _ (by omega), digit _ (by omega)⟩

theorem Blake3.not_mem_hexDigest (text : Text) : '\n' ∉ hexDigest text := by
  rw [hexDigest, List.mem_flatMap]
  rintro ⟨byte, -, member⟩
  exact not_mem_hexByte byte member

def digestLine (digest : Text) : Text :=
  "// source blake3: ".toList ++ digest ++ ['\n']

theorem DecisionTable.texts_alike {table other : DecisionTable} (same : table.plain = other.plain)
    (head another : EvaluatorHead) :
    (table.artifacts head).inputBits = (other.artifacts another).inputBits ∧
      (table.artifacts head).outputBits = (other.artifacts another).outputBits ∧
      (table.artifacts head).algebra = (other.artifacts another).algebra ∧
      (table.artifacts head).evaluator = other.evaluator head := by
  rw [← table.artifacts_plain, same, other.artifacts_plain]
  exact ⟨rfl, rfl, rfl, rfl⟩

theorem DecisionTable.evaluator_split (table : DecisionTable) (functionName sourceName : Text) :
    ∃ above below, ∀ digest,
      table.evaluator ⟨functionName, sourceName, digest⟩ =
        above ++ '\n' :: ("// source blake3: ".toList ++ digest ++ '\n' :: below) := by
  have opening : ". Do not edit.\n".toList = ". Do not edit.".toList ++ ['\n'] := by decide
  have gap : "\n\n".toList = ['\n', '\n'] := by decide
  refine ⟨"// Generated by ftdc from ".toList ++ sourceName ++ ". Do not edit.".toList,
    '\n' :: ("/// Computes the ".toList ++ Text.decimal table.outputs.length ++
      " output bits from ".toList ++ Text.decimal table.layout.totalBits ++
      " input bits.\n".toList ++ "pub fn ".toList ++ functionName ++
      "(ftdout: &mut [bool], input: &[bool]) \x7b\n".toList ++ table.evaluatorBody ++
      "\x7d\n".toList), ?_⟩
  intro digest
  unfold evaluator
  rw [opening, gap]
  simp only [List.append_assoc, List.cons_append, List.nil_append]

theorem DecisionTable.lines_evaluator (table : DecisionTable) (functionName sourceName : Text) :
    ∃ above below, ∀ digest, '\n' ∉ digest →
      Text.lines (table.evaluator ⟨functionName, sourceName, digest⟩) =
        above ++ digestLine digest :: below := by
  obtain ⟨above, below, split⟩ := table.evaluator_split functionName sourceName
  refine ⟨Text.lines (above ++ ['\n']), Text.lines below, ?_⟩
  intro digest fresh
  have single : '\n' ∉ "// source blake3: ".toList ++ digest := by
    rw [List.mem_append, not_or]
    exact ⟨by decide, fresh⟩
  unfold digestLine
  rw [split, Text.lines_append, Text.lines_append_lineFeed single]

/-- What `compile` makes of two sources is the same but for places: it refuses both for the same
reason, or all texts are the same up to the digest that the evaluator names. -/
def CompiledAlike (markers : Markers) (functionName sourceName first second : Text) : Prop :=
  (∃ fault other, compile markers functionName sourceName first = .error fault ∧
    compile markers functionName sourceName second = .error other ∧
    fault.plain = other.plain ∧ fault.message = other.message) ∨
  ∃ compiled other, compile markers functionName sourceName first = .ok compiled ∧
    compile markers functionName sourceName second = .ok other ∧
    compiled.texts.inputBits = other.texts.inputBits ∧
    compiled.texts.outputBits = other.texts.outputBits ∧
    compiled.texts.algebra = other.texts.algebra ∧
    compiled.table.summary = other.table.summary ∧
    ∃ above below, Text.lines compiled.texts.evaluator =
        above ++ digestLine (Blake3.hexDigest first) :: below ∧
      Text.lines other.texts.evaluator = above ++ digestLine (Blake3.hexDigest second) :: below

/-- Comments and line ends change nothing in what is compiled. -/
theorem comments_change_nothing (functionName sourceName : Text)
    (same : Reading.SameCode markers 0 {} (Text.lines first) (Text.lines second)) :
    CompiledAlike markers functionName sourceName first second := by
  have outcome := DecisionTable.ofSource_alike same
  unfold CompiledAlike compile
  generalize DecisionTable.ofSource markers first = table at outcome ⊢
  generalize DecisionTable.ofSource markers second = another at outcome ⊢
  cases outcome with
  | @error fault other alike =>
    refine .inl ⟨fault, other, rfl, rfl, alike, ?_⟩
    rw [← fault.message_plain, alike, other.message_plain]
  | @ok table other alike =>
    refine .inr ⟨_, _, rfl, rfl, ?_⟩
    obtain ⟨above, below, lines⟩ := other.lines_evaluator functionName sourceName
    obtain ⟨inputs, outputs, algebra, evaluator⟩ := DecisionTable.texts_alike alike
      ⟨functionName, sourceName, Blake3.hexDigest first⟩
      ⟨functionName, sourceName, Blake3.hexDigest second⟩
    have summary : table.summary = other.summary := by
      rw [← table.summary_plain, alike, other.summary_plain]
    refine ⟨inputs, outputs, algebra, summary, above, below, ?_,
      lines _ (Blake3.not_mem_hexDigest second)⟩
    rw [← lines _ (Blake3.not_mem_hexDigest first), ← evaluator]

def commentedLines : List Text :=
  ["-- Inputs\n".toList, "signal a : std_logic;-- in\n".toList, "-- Outputs\n".toList,
    "signal y : std_logic;\n".toList, "begin\n".toList, "-- gate\n".toList, "y <= a-- on\n".toList,
    " and a;\n".toList]

def bareLines : List Text :=
  ["-- Inputs\r\n".toList, "signal a : std_logic;\n".toList, "-- Outputs\n".toList,
    "signal y : std_logic;--\n".toList, "begin\r\n".toList, "\n".toList, "y <= a\n".toList,
    " and a;".toList]

theorem bareLines_alike :
    Reading.SameCode {} 0 {} (Text.lines commentedLines.flatten) (Text.lines bareLines.flatten) ∧
      CompiledAlike {} ['f'] ['s'] commentedLines.flatten bareLines.flatten := by
  have opened : Reading.steps {} 0 {} (commentedLines.take 5) =
      .ok ⟨.body, [⟨['a'], 1, ⟨10, 31⟩⟩], [⟨['y'], ⟨48, 69⟩⟩], {}⟩ := by
    decide +kernel
  have stems : ∀ index < 8, Line.stem (commentedLines.getD index []) =
      Line.stem (bareLines.getD index []) := by
    decide +kernel
  have comments : ∀ index < 8, index ≠ 5 →
      Text.trim (Line.code (commentedLines.getD index [])) = [] →
      Line.comment? (commentedLines.getD index []) = Line.comment? (bareLines.getD index []) := by
    decide +kernel
  have past : ∀ index, ¬ index < 8 → commentedLines.getD index [] = [] ∧
      bareLines.getD index [] = [] := by
    intro index late
    rw [Nat.not_lt] at late
    exact ⟨List.getD_eq_default _ _ late, List.getD_eq_default _ _ late⟩
  have lines : Text.lines commentedLines.flatten = commentedLines := by decide +kernel
  have bare : Text.lines bareLines.flatten = bareLines := by decide +kernel
  have same : Reading.SameCode {} 0 {} (Text.lines commentedLines.flatten)
      (Text.lines bareLines.flatten) := by
    rw [lines, bare]
    constructor
    · intro index
      by_cases early : index < 8
      · exact stems index early
      · rw [(past index early).1, (past index early).2]
    · rintro index ⟨middle, reached, outside⟩ empty
      by_cases early : index < 8
      · by_cases gate : index = 5
        · rw [gate, opened] at reached
          cases reached
          exact absurd rfl outside
        · exact comments index early gate empty
      · rw [(past index early).1, (past index early).2]
  exact ⟨same, comments_change_nothing ['f'] ['s'] same⟩

end TriggerLogic
