import TriggerLogic.Proofs.BodyText

namespace TriggerLogic

namespace StatementList

section Holds

variable {target part : Text} {place offset : Nat} {statements : StatementList} {statement : OpenStatement}

def Holds (target : Text) (place : Nat) (statements : StatementList) : Prop :=
  (∃ statement ∈ statements.closed, statement.target = target ∧ statement.rhsSpan.start = place) ∨
    ∃ start, ∃ parts : AssignmentText, statements.pending = some ⟨start, parts.text⟩ ∧
      parts.target = target ∧ (start + Text.byteLength parts.head) % Span.offsetBound = place

theorem Holds.extend (holds : statements.Holds target place) (single : ';' ∉ part)
    (extended : statements.extend? offset part = some statement) :
    Holds target place ⟨statements.closed, some statement⟩ := by
  rcases holds with closed | ⟨start, parts, pending, named, placed⟩
  · exact .inl closed
  · rw [extend?, pending] at extended
    cases extended
    exact .inr ⟨start, parts.goOn part single, by rw [parts.text_goOn], named, placed⟩

theorem Holds.close (holds : Holds target place ⟨statements.closed, some statement⟩) :
    (statements.close statement).Holds target place := by
  rcases holds with ⟨earlier, listed, facts⟩ | ⟨start, parts, ⟨⟩, named, placed⟩
  · exact .inl ⟨earlier, List.mem_append_left _ listed, facts⟩
  · refine .inl ⟨parts.statementAt start, ?_, named, placed⟩
    rw [StatementList.close, parts.close?_text]
    exact List.mem_append_right _ (List.mem_singleton_self _)

theorem Holds.addLine (holds : statements.Holds target place) (offset : Nat) (line : Text) :
    (statements.addLine offset line).Holds target place := by
  have keep := @addLine_induction fun _ _ statements after =>
    statements.Holds target place → after.Holds target place
  refine keep ?_ ?_ ?_ offset line statements holds
  · intro offset line statements _ holds
    exact holds
  · intro offset line statements statement single extended holds
    exact holds.extend single extended
  · intro offset part rest statements statement after single extended ih holds
    exact ih (holds.extend single extended).close

theorem Holds.addLines (holds : statements.Holds target place) (offset : Nat) (lines : List Text) :
    (statements.addLines offset lines).Holds target place := by
  induction lines generalizing offset statements with
  | nil => exact holds
  | cons raw lines ih => exact ih (holds.addLine offset _) _

end Holds

theorem holds_of_named {left : Text} (named : Text.isIdentifier (Text.trim left) = true)
    (single : ';' ∉ left) (closed : List Statement) (offset : Nat) (rest : Text) :
    (addLine ⟨closed, none⟩ offset (left ++ ['<', '='] ++ rest)).Holds (Text.trim left)
      ((offset + (Text.byteLength left + 2)) % Span.offsetBound) := by
  have opened : ∀ part, ';' ∉ part → ∃ statement,
      extend? ⟨closed, none⟩ offset (left ++ ['<', '='] ++ part) = some statement ∧
        Holds (Text.trim left) ((offset + (Text.byteLength left + 2)) % Span.offsetBound)
          ⟨closed, some statement⟩ := by
    intro part fresh
    obtain ⟨parts, heads, target, rhs⟩ := AssignmentText.exists_of_named named fresh
    have text : parts.text = left ++ ['<', '='] ++ part := by rw [AssignmentText.text, heads, rhs]
    have length : Text.byteLength parts.head = Text.byteLength left + 2 := by
      rw [heads, Text.byteLength_append]
      rfl
    refine ⟨⟨offset, parts.text⟩, ?_, .inr ⟨offset, parts, rfl, target, by rw [length]⟩⟩
    rw [← text, extend?, parts.opensStatement_text]
    rfl
  have singleHead : ∀ part, ';' ∉ part → ';' ∉ left ++ ['<', '='] ++ part := by
    intro part fresh
    rw [List.mem_append, List.mem_append, not_or, not_or]
    exact ⟨⟨single, by decide⟩, fresh⟩
  by_cases found : ';' ∈ rest
  · obtain ⟨part, more, rfl, fresh⟩ := List.eq_append_cons_of_mem found
    obtain ⟨statement, extended, holds⟩ := opened part fresh
    rw [← List.append_assoc, addLine_semicolon (singleHead part fresh), extended]
    exact (@Holds.close _ _ ⟨closed, none⟩ _ holds).addLine _ _
  · obtain ⟨statement, extended, holds⟩ := opened rest found
    rw [addLine_last (singleHead rest found), extended]
    exact holds

def ended (parts : List Text) : Text :=
  parts.flatMap (· ++ [';'])

theorem byteLength_ended_cons (part : Text) (parts : List Text) :
    Text.byteLength (ended (part :: parts)) =
      Text.byteLength part + 1 + Text.byteLength (ended parts) := by
  rw [ended, List.flatMap_cons, Text.byteLength_append, Text.byteLength_append]
  rfl

theorem addLine_ended {parts : List Text} (single : ∀ part ∈ parts, ';' ∉ part)
    (opens : ∀ part ∈ parts, opensStatement part = true) (closed : List Statement) (offset : Nat) :
    ∃ added, ∀ rest, addLine ⟨closed, none⟩ offset (ended parts ++ rest) =
      addLine ⟨closed ++ added, none⟩ (offset + Text.byteLength (ended parts)) rest := by
  induction parts generalizing closed offset with
  | nil => exact ⟨[], fun rest => by rw [List.append_nil]; rfl⟩
  | cons part parts ih =>
    rw [List.forall_mem_cons] at single opens
    obtain ⟨added, taken⟩ := ih single.2 opens.2
      (closed ++ (OpenStatement.close? ⟨offset, part⟩).toList) (offset + Text.byteLength part + 1)
    have extended : extend? ⟨closed, none⟩ offset part = some ⟨offset, part⟩ := by
      rw [extend?, opens.1]
      rfl
    refine ⟨(OpenStatement.close? ⟨offset, part⟩).toList ++ added, ?_⟩
    intro rest
    have split : ended (part :: parts) ++ rest = part ++ ';' :: (ended parts ++ rest) := by
      simp [ended]
    rw [split, addLine_semicolon single.1, extended, byteLength_ended_cons, ← List.append_assoc,
      ← Nat.add_assoc, ← Nat.add_assoc]
    exact taken rest

/-- From the first part on that is no assignment, the rest of the line is passed over. -/
theorem addLine_broken {kept : List Text} {part : Text} (single : ∀ part ∈ kept, ';' ∉ part)
    (opens : ∀ part ∈ kept, opensStatement part = true) (partSingle : ';' ∉ part)
    (other : opensStatement part = false) (closed : List Statement) (offset : Nat) (rest : Text) :
    addLine ⟨closed, none⟩ offset (ended kept ++ (part ++ ';' :: rest)) =
        addLine ⟨closed, none⟩ offset (ended kept) ∧
      (addLine ⟨closed, none⟩ offset (ended kept)).pending = none := by
  obtain ⟨added, taken⟩ := addLine_ended single opens closed offset
  have alone := taken []
  rw [List.append_nil, addLine_nil] at alone
  have passed : extend? ⟨closed ++ added, none⟩ (offset + Text.byteLength (ended kept)) part = none := by
    rw [extend?, other]
    rfl
  rw [taken, addLine_semicolon partSingle, passed, alone]
  exact ⟨rfl, rfl⟩

section Late

variable {old : List Statement} {bound : Nat} {text : Text} {statements : StatementList}

structure Late (old : List Statement) (bound : Nat) (text : Text) (statements : StatementList) :
    Prop where
  traced : statements.TracedIn text
  reached : bound ≤ Text.byteLength text
  closed : ∀ statement ∈ statements.closed, statement ∈ old ∨ bound < statement.rhsSpan.start
  pending : ∀ statement, statements.pending = some statement → bound ≤ statement.start

theorem Late.skip (late : statements.Late old bound text) (idle : statements.pending = none)
    (more : Text) : statements.Late old bound (text ++ more) := by
  refine ⟨late.traced.skip idle more, ?_, late.closed, late.pending⟩
  rw [Text.byteLength_append]
  exact Nat.le_add_right_of_le late.reached

theorem Late.extend {part : Text} {statement : OpenStatement} (late : statements.Late old bound text)
    (single : ';' ∉ part)
    (extended : statements.extend? (Text.byteLength text) part = some statement) :
    Late old bound (text ++ part) ⟨statements.closed, some statement⟩ := by
  refine ⟨late.traced.extend single extended, ?_, late.closed, ?_⟩
  · rw [Text.byteLength_append]
    exact Nat.le_add_right_of_le late.reached
  · rintro _ ⟨⟩
    rcases extend?_cases extended with ⟨earlier, pending, rfl⟩ | ⟨-, -, rfl⟩
    · exact late.pending earlier pending
    · exact late.reached

theorem Late.close {statement : OpenStatement}
    (late : Late old bound text ⟨statements.closed, some statement⟩)
    (short : Text.byteLength text + 1 < Span.offsetBound) :
    (statements.close statement).Late old bound (text ++ [';']) := by
  have starts := late.pending statement rfl
  refine ⟨late.traced.close short, ?_, ?_, by rintro _ ⟨⟩⟩
  · rw [Text.byteLength_append]
    exact Nat.le_add_right_of_le late.reached
  · obtain ⟨before, parts, rfl, rfl, -⟩ := late.traced.pending statement rfl
    rw [StatementList.close, parts.close?_text]
    intro closed listed
    rcases List.mem_append.mp listed with earlier | last
    · exact late.closed closed earlier
    · right
      rw [List.mem_singleton.mp last, parts.statementAt_eq short]
      have arrow : 2 ≤ Text.byteLength parts.head := by
        rw [AssignmentText.head, Text.byteLength_append]
        exact Nat.le_add_left _ _
      show bound < Text.byteLength (before ++ parts.head)
      rw [Text.byteLength_append]
      simp only at starts
      omega

theorem Late.addLine {line : Text} (late : statements.Late old bound text)
    (short : Text.byteLength (text ++ line) < Span.offsetBound) :
    (statements.addLine (Text.byteLength text) line).Late old bound (text ++ line) := by
  apply addLine_preserves _ _ _ late short
  · intro text statements more idle late
    exact late.skip idle more
  · intro text statements part statement single extended late
    exact late.extend single extended
  · intro text statements statement short late
    exact late.close short

theorem Late.addLines {lines : List Text} (late : statements.Late old bound text)
    (short : Text.byteLength (text ++ lines.flatMap Line.blanked) < Span.offsetBound) :
    (statements.addLines (Text.byteLength text) lines).Late old bound
      (text ++ lines.flatMap Line.blanked) := by
  induction lines generalizing text statements with
  | nil =>
    rw [List.flatMap_nil, List.append_nil]
    exact late
  | cons raw lines ih =>
    rw [List.flatMap_cons, ← List.append_assoc] at short ⊢
    have inside : Text.byteLength (text ++ Line.blanked raw) < Span.offsetBound := by
      rw [Text.byteLength_append] at short
      omega
    have offset : Text.byteLength text + Text.byteLength raw =
        Text.byteLength (text ++ Line.blanked raw) := by
      rw [Text.byteLength_append, Line.byteLength_blanked]
    rw [StatementList.addLines, offset]
    exact ih (late.addLine inside) short

end Late

end StatementList

/-- An arrow of a body line with a name before it, where no statement is open at the start of the
line. A right-hand side that began earlier cannot hold it: no arrow stands between it and the
semicolon before it. -/
structure NamedArrow (markers : Markers) (source : Text) where
  earlier : List Text
  line : Text
  later : List Text
  reading : Reading
  parts : List Text
  left : Text
  rest : Text
  lines : Text.lines source = earlier ++ line :: later
  read : Reading.steps markers 0 {} earlier = .ok reading
  body : reading.part = .body
  idle : reading.statements.pending = none
  code : Line.code line = StatementList.ended parts ++ (left ++ ['<', '='] ++ rest)
  partSingle : ∀ part ∈ parts, ';' ∉ part
  leftSingle : ';' ∉ left
  named : Text.isIdentifier (Text.trim left) = true

namespace NamedArrow

variable {markers : Markers} {source : Text} (arrow : NamedArrow markers source) {unit : DesignUnit}

def place : Nat :=
  Text.byteLength arrow.earlier.flatten +
    (Text.byteLength (StatementList.ended arrow.parts) + (Text.byteLength arrow.left + 2))

def CollectedIn (unit : DesignUnit) : Prop :=
  ∃ statement ∈ unit.statements, statement.target = Text.trim arrow.left ∧
    statement.rhsSpan.start = arrow.place % Span.offsetBound

/-- Each part of the line before that of the arrow is an assignment, too. -/
def FollowsAssignments : Prop :=
  ∀ part ∈ arrow.parts, StatementList.opensStatement part = true

def taken : StatementList :=
  arrow.reading.statements.addLine (Text.byteLength arrow.earlier.flatten) (Line.blanked arrow.line)

theorem statements_eq : arrow.reading.statements = ⟨arrow.reading.statements.closed, none⟩ := by
  rw [← arrow.idle]

theorem blanked_line : ∃ blanks, Line.blanked arrow.line =
    StatementList.ended arrow.parts ++ (arrow.left ++ ['<', '='] ++ (arrow.rest ++ blanks)) := by
  refine ⟨List.replicate (Text.byteLength arrow.line - Text.byteLength (Line.code arrow.line)) ' ', ?_⟩
  rw [Line.blanked]
  nth_rewrite 1 [arrow.code]
  simp only [List.append_assoc]

theorem statements_of_read (accepted : DesignUnit.read markers source = .ok unit) :
    unit.statements = (arrow.taken.addLines
        (Text.byteLength arrow.earlier.flatten + Text.byteLength arrow.line) arrow.later).closed ∧
      (arrow.taken.addLines
        (Text.byteLength arrow.earlier.flatten + Text.byteLength arrow.line) arrow.later).pending =
          none := by
  have whole : Reading.steps markers 0 {} (Text.lines source) = .ok
      { arrow.reading with
        statements := arrow.reading.statements.addLines (Text.byteLength arrow.earlier.flatten)
          (arrow.line :: arrow.later) } := by
    rw [arrow.lines, Reading.steps_append arrow.read, Nat.zero_add, Reading.steps_body arrow.body]
  rw [DesignUnit.read, whole] at accepted
  simp only [Reading.finish] at accepted
  split at accepted
  · cases accepted
  · rename_i idle
    cases accepted
    exact ⟨rfl, idle⟩

theorem collectedIn_of_followsAssignments (accepted : DesignUnit.read markers source = .ok unit)
    (follows : arrow.FollowsAssignments) : arrow.CollectedIn unit := by
  have holds : arrow.taken.Holds (Text.trim arrow.left) (arrow.place % Span.offsetBound) := by
    obtain ⟨blanks, shown⟩ := arrow.blanked_line
    obtain ⟨added, ended⟩ := StatementList.addLine_ended arrow.partSingle follows
      arrow.reading.statements.closed (Text.byteLength arrow.earlier.flatten)
    rw [taken, shown, statements_eq, ended, place, ← Nat.add_assoc]
    exact StatementList.holds_of_named arrow.named arrow.leftSingle _ _ _
  obtain ⟨listed, idle⟩ := arrow.statements_of_read accepted
  rcases holds.addLines _ arrow.later with closed | ⟨start, parts, pending, -⟩
  · rw [CollectedIn, listed]
    exact closed
  · rw [idle] at pending
    cases pending

def textBehind : Text :=
  arrow.earlier.flatMap Line.blanked ++ Line.blanked arrow.line

theorem byteLength_textBehind : Text.byteLength arrow.textBehind =
    Text.byteLength arrow.earlier.flatten + Text.byteLength arrow.line := by
  rw [textBehind, Text.byteLength_append, Line.byteLength_flatMap_blanked, Line.byteLength_blanked]

theorem place_le : arrow.place ≤ Text.byteLength arrow.textBehind := by
  obtain ⟨blanks, shown⟩ := arrow.blanked_line
  have arrowLength : Text.byteLength ['<', '='] = 2 := rfl
  rw [textBehind, shown, place, Text.byteLength_append, Line.byteLength_flatMap_blanked]
  simp only [Text.byteLength_append]
  omega

theorem byteLength_source : Text.byteLength source =
    Text.byteLength arrow.textBehind + Text.byteLength arrow.later.flatten := by
  have lengths := congrArg (fun lines => Text.byteLength (List.flatten lines)) arrow.lines
  simp only [Text.lines_flatten, List.flatten_append, List.flatten_cons, Text.byteLength_append]
    at lengths
  rw [lengths, byteLength_textBehind, Nat.add_assoc]

theorem late_of_broken (short : Text.byteLength source < Span.offsetBound)
    (broken : ¬ arrow.FollowsAssignments) :
    ∃ old, (∀ statement ∈ old, statement.rhsSpan.start < arrow.place) ∧
      arrow.taken.Late old (Text.byteLength arrow.textBehind) arrow.textBehind := by
  obtain ⟨part, found⟩ : ∃ part,
      arrow.parts.find? (fun part => !StatementList.opensStatement part) = some part := by
    rw [← Option.isSome_iff_exists, List.find?_isSome]
    by_contra none
    apply broken
    intro part listed
    by_contra other
    exact none ⟨part, listed, by simpa using other⟩
  obtain ⟨other, kept, more, split, opens⟩ := List.find?_eq_some_iff_append.mp found
  have single := arrow.partSingle
  rw [split, List.forall_mem_append, List.forall_mem_cons] at single
  obtain ⟨blanks, shown⟩ := arrow.blanked_line
  have line : Line.blanked arrow.line = StatementList.ended kept ++ (part ++ ';' ::
      (StatementList.ended more ++ (arrow.left ++ ['<', '='] ++ (arrow.rest ++ blanks)))) := by
    rw [shown, split]
    simp [StatementList.ended]
  have total := arrow.byteLength_source
  rw [textBehind, Text.byteLength_append] at total
  have before : arrow.reading.statements.TracedIn (arrow.earlier.flatMap Line.blanked) :=
    (Reading.traced_of_lines (by omega) arrow.read).1
  have offset := Line.byteLength_flatMap_blanked arrow.earlier
  obtain ⟨passed, idle⟩ := @StatementList.addLine_broken kept part single.1
    (by simpa using opens) single.2.1 (by simpa using other) arrow.reading.statements.closed
    (Text.byteLength arrow.earlier.flatten)
    (StatementList.ended more ++ (arrow.left ++ ['<', '='] ++ (arrow.rest ++ blanks)))
  rw [← line, ← statements_eq] at passed
  rw [← statements_eq, ← passed] at idle
  have traced : arrow.taken.TracedIn
      (arrow.earlier.flatMap Line.blanked ++ StatementList.ended kept) := by
    rw [taken, passed, ← offset]
    apply before.addLine
    rw [line] at total
    simp only [Text.byteLength_append] at total ⊢
    omega
  refine ⟨arrow.taken.closed, ?_, ?_⟩
  · intro statement listed
    obtain ⟨front, -, -, starts, stops⟩ := (traced.placed statement listed).rhs
    have inside := (traced.placed statement listed).semicolon.stop_le
    have ends := (traced.placed statement listed).stop_eq
    have behind : Text.byteLength (StatementList.ended kept) ≤
        Text.byteLength (StatementList.ended arrow.parts) := by
      rw [split, StatementList.ended, StatementList.ended, List.flatMap_append, Text.byteLength_append]
      omega
    rw [Text.byteLength_append, offset] at inside
    rw [place]
    omega
  · have whole := traced.skip idle (part ++ ';' ::
      (StatementList.ended more ++ (arrow.left ++ ['<', '='] ++ (arrow.rest ++ blanks))))
    rw [List.append_assoc, ← line] at whole
    refine ⟨whole, Nat.le_refl _, fun statement listed => .inl listed, ?_⟩
    intro statement pending
    rw [taken, idle] at pending
    cases pending

theorem followsAssignments_of_collectedIn (short : Text.byteLength source < Span.offsetBound)
    (accepted : DesignUnit.read markers source = .ok unit) (collected : arrow.CollectedIn unit) :
    arrow.FollowsAssignments := by
  by_contra broken
  obtain ⟨old, before, late⟩ := arrow.late_of_broken short broken
  obtain ⟨statement, listed, -, starts⟩ := collected
  have total := arrow.byteLength_source
  have inside := arrow.place_le
  have remaining : Text.byteLength (arrow.textBehind ++ arrow.later.flatMap Line.blanked) <
      Span.offsetBound := by
    rw [Text.byteLength_append, Line.byteLength_flatMap_blanked]
    omega
  have after := late.addLines remaining
  rw [Nat.mod_eq_of_lt (by omega)] at starts
  rw [(arrow.statements_of_read accepted).1, ← byteLength_textBehind] at listed
  rcases after.closed statement listed with earlier | behind
  · have front := before statement earlier
    omega
  · omega

/-- An arrow with a name before it makes a statement exactly if each part of its line before that
is an assignment, too. -/
theorem collected_iff_follows_assignments (accepted : DesignUnit.read markers source = .ok unit) :
    (arrow.FollowsAssignments → arrow.CollectedIn unit) ∧
      (Text.byteLength source < Span.offsetBound →
        arrow.CollectedIn unit → arrow.FollowsAssignments) :=
  ⟨arrow.collectedIn_of_followsAssignments accepted,
    fun short => arrow.followsAssignments_of_collectedIn short accepted⟩

def lineSource (line : Text) : Text :=
  "-- Outputs\nsignal y : std_logic;\nbegin\n".toList ++ line

def lineUnit (statements : List Statement) : DesignUnit :=
  ⟨[], [⟨['y'], ⟨11, 32⟩⟩], statements⟩

def headerLines : List Text :=
  ["-- Outputs\n".toList, "signal y : std_logic;\n".toList, "begin\n".toList]

def headerReading : Reading :=
  ⟨.body, [], [⟨['y'], ⟨11, 32⟩⟩], {}⟩

theorem read_headerLines : Reading.steps {} 0 {} headerLines = .ok headerReading := by
  decide +kernel

def secondArrow : NamedArrow {} (lineSource "x <= a; y <= a;\n".toList) where
  earlier := headerLines
  line := "x <= a; y <= a;\n".toList
  later := []
  reading := headerReading
  parts := ["x <= a".toList]
  left := " y ".toList
  rest := " a;".toList
  lines := by decide +kernel
  read := read_headerLines
  body := rfl
  idle := rfl
  code := by decide +kernel
  partSingle := by decide
  leftSingle := by decide
  named := by decide

def pairUnit : DesignUnit :=
  lineUnit [⟨['x'], [' ', 'a'], ⟨43, 45⟩, ⟨39, 46⟩⟩, ⟨['y'], [' ', 'a'], ⟨51, 53⟩, ⟨47, 54⟩⟩]

theorem secondArrow_collected :
    DesignUnit.read {} (lineSource "x <= a; y <= a;\n".toList) = .ok pairUnit ∧
      secondArrow.FollowsAssignments ∧ secondArrow.CollectedIn pairUnit := by
  have accepted : DesignUnit.read {} (lineSource "x <= a; y <= a;\n".toList) = .ok pairUnit := by
    decide +kernel
  have follows : secondArrow.FollowsAssignments := by
    show ∀ part ∈ ["x <= a".toList], StatementList.opensStatement part = true
    decide
  exact ⟨accepted, follows, (secondArrow.collected_iff_follows_assignments accepted).1 follows⟩

def lostArrow : NamedArrow {} (lineSource "end process; y <= a;\n".toList) where
  earlier := headerLines
  line := "end process; y <= a;\n".toList
  later := []
  reading := headerReading
  parts := ["end process".toList]
  left := " y ".toList
  rest := " a;".toList
  lines := by decide +kernel
  read := read_headerLines
  body := rfl
  idle := rfl
  code := by decide +kernel
  partSingle := by decide
  leftSingle := by decide
  named := by decide

theorem lostArrow_not_collected :
    DesignUnit.read {} (lineSource "end process; y <= a;\n".toList) = .ok (lineUnit []) ∧
      ¬ lostArrow.CollectedIn (lineUnit []) := by
  refine ⟨by decide +kernel, ?_⟩
  rintro ⟨statement, ⟨⟩, -⟩

end NamedArrow

end TriggerLogic
