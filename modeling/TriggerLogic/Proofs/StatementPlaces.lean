import TriggerLogic.Proofs.AssignmentText

namespace TriggerLogic

namespace Text

def At (text : Text) (start stop : Nat) (part : Text) : Prop :=
  ∃ before after, text = before ++ part ++ after ∧ start = byteLength before ∧
    stop = byteLength before + byteLength part

theorem At.append {text part : Text} {start stop : Nat} (placed : text.At start stop part)
    (more : Text) : (text ++ more).At start stop part := by
  obtain ⟨before, after, rfl, starts, stops⟩ := placed
  exact ⟨before, after ++ more, by simp only [List.append_assoc], starts, stops⟩

theorem At.stop_le {text part : Text} {start stop : Nat} (placed : text.At start stop part) :
    stop ≤ byteLength text := by
  obtain ⟨before, after, rfl, -, rfl⟩ := placed
  simp only [byteLength_append]
  omega

end Text

theorem Span.between_eq {start stop : Nat} (ordered : start ≤ stop) (short : stop < offsetBound) :
    Span.between start stop = ⟨start, stop⟩ := by
  rw [Span.between, Nat.mod_eq_of_lt (Nat.lt_of_le_of_lt ordered short), Nat.mod_eq_of_lt short]

/-- Where a statement stands in a text: its target and the arrow, then its right-hand side, then a
semicolon. -/
structure Statement.PlacedIn (text : Text) (statement : Statement) : Prop where
  target : Text.isIdentifier statement.target = true
  head : ∃ gap : Text, gap.AllBlank ∧
    text.At statement.span.start statement.rhsSpan.start (statement.target ++ gap ++ ['<', '='])
  rhs : text.At statement.rhsSpan.start statement.rhsSpan.stop statement.rhs
  single : ';' ∉ statement.rhs
  semicolon : text.At statement.rhsSpan.stop statement.span.stop [';']

theorem Statement.PlacedIn.append {text : Text} {statement : Statement}
    (placed : statement.PlacedIn text) (more : Text) : statement.PlacedIn (text ++ more) := by
  obtain ⟨gap, blank, head⟩ := placed.head
  exact ⟨placed.target, ⟨gap, blank, head.append more⟩, placed.rhs.append more, placed.single,
    placed.semicolon.append more⟩

theorem Statement.PlacedIn.stop_eq {text : Text} {statement : Statement}
    (placed : statement.PlacedIn text) : statement.rhsSpan.stop + 1 = statement.span.stop := by
  obtain ⟨before, -, -, starts, stops⟩ := placed.semicolon
  rw [starts, stops]
  rfl

theorem Statement.PlacedIn.start_lt_stop {text : Text} {statement : Statement}
    (placed : statement.PlacedIn text) : statement.span.start < statement.span.stop := by
  obtain ⟨gap, -, before, -, -, starts, stops⟩ := placed.head
  obtain ⟨front, -, -, rhsStarts, rhsStops⟩ := placed.rhs
  have ends := placed.stop_eq
  omega

namespace AssignmentText

variable (parts : AssignmentText) {before : Text}

theorem statementAt_eq (short : Text.byteLength (before ++ parts.text) + 1 < Span.offsetBound) :
    parts.statementAt (Text.byteLength before) =
      ⟨parts.target, parts.rhs,
        ⟨Text.byteLength (before ++ parts.head), Text.byteLength (before ++ parts.text)⟩,
        ⟨Text.byteLength (before ++ parts.lead), Text.byteLength (before ++ parts.text) + 1⟩⟩ := by
  have head : Text.byteLength parts.lead ≤ Text.byteLength parts.text := by
    rw [text, AssignmentText.head]
    simp only [Text.byteLength_append]
    omega
  have inside : Text.byteLength parts.head ≤ Text.byteLength parts.text := by
    rw [text, Text.byteLength_append]
    omega
  simp only [Text.byteLength_append] at short ⊢
  rw [statementAt, Span.between_eq (by omega) (by omega), Span.between_eq (by omega) (by omega)]

theorem placedIn_statementAt
    (short : Text.byteLength (before ++ parts.text) + 1 < Span.offsetBound) :
    (parts.statementAt (Text.byteLength before)).PlacedIn (before ++ parts.text ++ [';']) := by
  rw [parts.statementAt_eq short]
  refine ⟨parts.identifier, ⟨parts.gap, parts.gapBlank, ?_⟩, ?_, parts.single, ?_⟩
  · refine ⟨before ++ parts.lead, parts.rhs ++ [';'], ?_, rfl, ?_⟩
    · simp only [text, head, List.append_assoc]
    · rw [← Text.byteLength_append]
      simp only [head, List.append_assoc]
  · refine ⟨before ++ parts.head, [';'], ?_, rfl, ?_⟩
    · simp only [text, List.append_assoc]
    · rw [← Text.byteLength_append]
      simp only [text, List.append_assoc]
  · exact ⟨before ++ parts.text, [], by simp, rfl, rfl⟩

theorem le_start_statementAt
    (short : Text.byteLength (before ++ parts.text) + 1 < Span.offsetBound) :
    Text.byteLength before ≤ (parts.statementAt (Text.byteLength before)).span.start := by
  rw [parts.statementAt_eq short]
  show Text.byteLength before ≤ Text.byteLength (before ++ parts.lead)
  rw [Text.byteLength_append]
  omega

end AssignmentText

namespace StatementList

def EndsWith (text : Text) (closed : List Statement) (statement : OpenStatement) : Prop :=
  ∃ (before : Text) (parts : AssignmentText), text = before ++ parts.text ∧
    statement = ⟨Text.byteLength before, parts.text⟩ ∧ ∀ earlier ∈ closed, earlier.PlacedIn before

/-- What the statements collected from a text have to do with it. -/
structure TracedIn (text : Text) (statements : StatementList) : Prop where
  placed : ∀ statement ∈ statements.closed, statement.PlacedIn text
  ordered : statements.closed.Pairwise fun earlier later => earlier.span.stop ≤ later.span.start
  pending : ∀ statement, statements.pending = some statement →
    EndsWith text statements.closed statement

variable {text : Text} {statements : StatementList}

theorem TracedIn.skip (traced : statements.TracedIn text) (idle : statements.pending = none)
    (more : Text) : statements.TracedIn (text ++ more) := by
  refine ⟨fun statement listed => (traced.placed statement listed).append more, traced.ordered, ?_⟩
  intro statement pending
  rw [idle] at pending
  cases pending

/-- What passing over text, going on with a statement and closing one keep, a line keeps. -/
theorem addLine_preserves {holds : Text → StatementList → Prop}
    (pass : ∀ text statements more, statements.pending = none → holds text statements →
      holds (text ++ more) statements)
    (goOn : ∀ text statements part statement, ';' ∉ part →
      extend? statements (Text.byteLength text) part = some statement → holds text statements →
      holds (text ++ part) ⟨statements.closed, some statement⟩)
    (close : ∀ text (statements : StatementList) statement,
      Text.byteLength text + 1 < Span.offsetBound → holds text ⟨statements.closed, some statement⟩ →
      holds (text ++ [';']) (statements.close statement))
    {line : Text} (before : holds text statements)
    (short : Text.byteLength (text ++ line) < Span.offsetBound) :
    holds (text ++ line) (statements.addLine (Text.byteLength text) line) := by
  have follow := @addLine_induction fun offset line statements after =>
    ∀ text, offset = Text.byteLength text → holds text statements →
      Text.byteLength (text ++ line) < Span.offsetBound → holds (text ++ line) after
  refine follow ?_ ?_ ?_ _ line statements text rfl before short
  · intro offset line statements passed text _ before _
    exact pass text statements line (pending_of_extend?_eq_none passed) before
  · rintro _ line statements statement single extended text rfl before -
    exact goOn text statements line statement single extended before
  · rintro _ part rest statements statement after single extended ih text rfl before short
    have whole : text ++ (part ++ ';' :: rest) = text ++ part ++ [';'] ++ rest := by simp
    have offset : Text.byteLength text + Text.byteLength part + 1 =
        Text.byteLength (text ++ part ++ [';']) := by
      simp only [Text.byteLength_append]
      rfl
    rw [whole] at short ⊢
    have inside : Text.byteLength (text ++ part) + 1 < Span.offsetBound := by
      rw [Text.byteLength_append] at short ⊢
      omega
    have opened := goOn text statements part statement single extended before
    exact ih _ offset (close _ statements statement inside opened) short

theorem TracedIn.extend {part : Text} {statement : OpenStatement} (traced : statements.TracedIn text)
    (single : ';' ∉ part) (found : statements.extend? (Text.byteLength text) part = some statement) :
    TracedIn (text ++ part) ⟨statements.closed, some statement⟩ := by
  refine ⟨fun earlier listed => (traced.placed earlier listed).append part, traced.ordered, ?_⟩
  rintro _ ⟨⟩
  rcases extend?_cases found with ⟨earlier, pending, rfl⟩ | ⟨-, opens, rfl⟩
  · obtain ⟨before, parts, rfl, rfl, behind⟩ := traced.pending earlier pending
    refine ⟨before, parts.goOn part single, ?_, ?_, behind⟩
    · rw [parts.text_goOn, List.append_assoc]
    · rw [parts.text_goOn]
  · obtain ⟨parts, rfl⟩ := AssignmentText.exists_of_opensStatement opens single
    exact ⟨text, parts, rfl, rfl, traced.placed⟩

theorem TracedIn.close {statement : OpenStatement}
    (traced : TracedIn text ⟨statements.closed, some statement⟩)
    (short : Text.byteLength text + 1 < Span.offsetBound) :
    (statements.close statement).TracedIn (text ++ [';']) := by
  obtain ⟨before, parts, rfl, rfl, behind⟩ := traced.pending statement rfl
  have placed := parts.placedIn_statementAt short
  have starts := parts.le_start_statementAt short
  rw [StatementList.close, parts.close?_text]
  refine ⟨?_, ?_, by simp⟩
  · intro statement listed
    rcases List.mem_append.mp listed with earlier | last
    · rw [List.append_assoc]
      exact (behind statement earlier).append _
    · rw [List.mem_singleton.mp last]
      exact placed
  · rw [Option.toList_some, List.pairwise_append]
    refine ⟨traced.ordered, List.pairwise_singleton _ _, ?_⟩
    intro earlier listed later last
    rw [List.mem_singleton.mp last]
    have inside := (behind earlier listed).semicolon.stop_le
    omega

theorem TracedIn.addLine {line : Text} (traced : statements.TracedIn text)
    (short : Text.byteLength (text ++ line) < Span.offsetBound) :
    (statements.addLine (Text.byteLength text) line).TracedIn (text ++ line) := by
  apply addLine_preserves _ _ _ traced short
  · intro text statements more idle traced
    exact traced.skip idle more
  · intro text statements part statement single extended traced
    exact traced.extend single extended
  · intro text statements statement short traced
    exact traced.close short

end StatementList

namespace Line

theorem exists_code_append (raw : Text) : ∃ rest, raw = code raw ++ rest := by
  obtain ⟨ends, whole, -⟩ := Text.exists_dropEndWhile (fun c => c == '\n' || c == '\r') raw
  unfold code
  cases found : Text.cut? ['-', '-'] (body raw) with
  | none => exact ⟨ends, whole⟩
  | some parts =>
    have cut := Text.cut?_eq_some found
    refine ⟨['-', '-'] ++ parts.2 ++ ends, ?_⟩
    rw [body] at cut
    nth_rewrite 1 [whole, cut]
    simp only [List.append_assoc]

theorem byteLength_spaces (count : Nat) : Text.byteLength (List.replicate count ' ') = count := by
  induction count with
  | zero => rfl
  | succ count ih =>
    rw [List.replicate_succ, Text.byteLength, ih]
    exact Nat.add_comm 1 count

theorem byteLength_blanked (raw : Text) : Text.byteLength (blanked raw) = Text.byteLength raw := by
  obtain ⟨rest, whole⟩ := exists_code_append raw
  have lengths := congrArg Text.byteLength whole
  rw [Text.byteLength_append] at lengths
  rw [blanked, Text.byteLength_append, byteLength_spaces]
  omega

theorem exists_of_blanked {raw before after : Text} {c : Char} (dark : c ≠ ' ')
    (split : blanked raw = before ++ c :: after) : ∃ rest, raw = before ++ c :: rest := by
  obtain ⟨rest, whole⟩ := exists_code_append raw
  rw [blanked] at split
  rcases List.append_eq_append_iff.mp split with ⟨spaces, -, tail⟩ | ⟨_ | ⟨d, later⟩, front, tail⟩
  · have space : c ∈ List.replicate _ ' ' := tail ▸ List.mem_append_right _ List.mem_cons_self
    exact absurd (List.eq_of_mem_replicate space) dark
  · have space : c ∈ List.replicate _ ' ' := tail ▸ List.mem_cons_self
    exact absurd (List.eq_of_mem_replicate space) dark
  · rw [List.cons_append, List.cons.injEq] at tail
    refine ⟨later ++ rest, ?_⟩
    rw [whole, front, tail.1]
    simp

theorem exists_of_blanked_lines {lines : List Text} {before after : Text} {c : Char} (dark : c ≠ ' ')
    (split : lines.flatMap blanked = before ++ c :: after) :
    ∃ front back, lines.flatten = front ++ c :: back ∧
      Text.byteLength front = Text.byteLength before := by
  induction lines generalizing before with
  | nil => simp at split
  | cons raw lines ih =>
    rw [List.flatMap_cons] at split
    rw [List.flatten_cons]
    rcases List.append_eq_append_iff.mp split with ⟨later, rfl, tail⟩ | ⟨_ | ⟨d, later⟩, front, tail⟩
    · obtain ⟨front, back, found, same⟩ := ih tail
      refine ⟨raw ++ front, back, by rw [found, List.append_assoc], ?_⟩
      rw [Text.byteLength_append, Text.byteLength_append, byteLength_blanked, same]
    · obtain ⟨back, found⟩ : ∃ back, lines.flatten = c :: back := by
        obtain ⟨front, back, found, same⟩ := @ih [] tail.symm
        cases front with
        | nil => exact ⟨back, found⟩
        | cons d front =>
          have positive := d.utf8Size_pos
          simp only [Text.byteLength] at same
          omega
      rw [List.append_nil] at front
      exact ⟨raw, back, by rw [found], by rw [← front, byteLength_blanked]⟩
    · rw [List.cons_append, List.cons.injEq] at tail
      rw [← tail.1] at front
      obtain ⟨rest, whole⟩ := exists_of_blanked dark front
      exact ⟨before, rest ++ lines.flatten, by rw [whole]; simp, rfl⟩

end Line

namespace Reading

variable {markers : Markers} {reading next : Reading} {offset : Nat} {raw : Text}

theorem statements_declare (reading : Reading) (declaration : Declaration) :
    (reading.declare declaration).statements = reading.statements := by
  unfold declare
  split
  · rfl
  · split <;> rfl
  · rfl
  · rfl

theorem statements_step (read : reading.step markers offset raw = .ok next) :
    reading.part = .body ∧ next.part = .body ∧
        next.statements = reading.statements.addLine offset (Line.blanked raw) ∨
      reading.part ≠ .body ∧ next.statements = reading.statements := by
  rcases step_cases read with ⟨body, rfl⟩ | ⟨other, part, rfl⟩ | ⟨declares, declaration, -, rfl⟩
  · exact .inl ⟨body, body, rfl⟩
  · exact .inr ⟨other, rfl⟩
  · refine .inr ⟨?_, statements_declare _ _⟩
    rcases declares with part | part <;> simp [part]

def Traced (text : Text) (reading : Reading) : Prop :=
  reading.statements.TracedIn text ∧ (reading.part ≠ .body → reading.statements.pending = none)

theorem Traced.step {text : Text} (traced : reading.Traced text)
    (short : Text.byteLength (text ++ Line.blanked raw) < Span.offsetBound)
    (read : reading.step markers (Text.byteLength text) raw = .ok next) :
    next.Traced (text ++ Line.blanked raw) := by
  rcases statements_step read with ⟨-, body, added⟩ | ⟨other, same⟩
  · rw [Traced, added]
    exact ⟨traced.1.addLine short, fun outside => absurd body outside⟩
  · rw [Traced, same]
    exact ⟨traced.1.skip (traced.2 other) _, fun _ => traced.2 other⟩

theorem Traced.steps {text : Text} {lines : List Text} {final : Reading} (traced : reading.Traced text)
    (short : Text.byteLength (text ++ lines.flatMap Line.blanked) < Span.offsetBound)
    (read : Reading.steps markers (Text.byteLength text) reading lines = .ok final) :
    final.Traced (text ++ lines.flatMap Line.blanked) := by
  induction lines generalizing text reading with
  | nil =>
    cases read
    rw [List.flatMap_nil, List.append_nil]
    exact traced
  | cons raw lines ih =>
    unfold Reading.steps at read
    split at read
    · cases read
    · rename_i next stepped
      rw [List.flatMap_cons, ← List.append_assoc] at short ⊢
      have inside : Text.byteLength (text ++ Line.blanked raw) < Span.offsetBound := by
        rw [Text.byteLength_append] at short
        omega
      have offset : Text.byteLength text + Text.byteLength raw =
          Text.byteLength (text ++ Line.blanked raw) := by
        rw [Text.byteLength_append, Line.byteLength_blanked]
      rw [offset] at read
      exact ih (traced.step inside stepped) short read

end Reading

theorem Line.byteLength_flatMap_blanked (lines : List Text) :
    Text.byteLength (lines.flatMap Line.blanked) = Text.byteLength lines.flatten := by
  induction lines with
  | nil => rfl
  | cons raw lines ih =>
    rw [List.flatMap_cons, List.flatten_cons, Text.byteLength_append, Text.byteLength_append, ih,
      Line.byteLength_blanked]

def blankedSource (source : Text) : Text :=
  (Text.lines source).flatMap Line.blanked

theorem byteLength_blankedSource (source : Text) :
    Text.byteLength (blankedSource source) = Text.byteLength source := by
  rw [blankedSource, Line.byteLength_flatMap_blanked, Text.lines_flatten]

theorem at_source_of_at_blanked {source : Text} {c : Char} {start stop : Nat} (dark : c ≠ ' ')
    (placed : (blankedSource source).At start stop [c]) : source.At start stop [c] := by
  obtain ⟨before, after, split, rfl, rfl⟩ := placed
  rw [List.append_assoc, List.singleton_append] at split
  obtain ⟨front, back, whole, same⟩ := Line.exists_of_blanked_lines dark split
  rw [Text.lines_flatten] at whole
  exact ⟨front, back, by rw [whole]; simp, same.symm, by rw [same]⟩

theorem Reading.traced_of_lines {markers : Markers} {lines : List Text} {reading : Reading}
    (short : Text.byteLength (lines.flatMap Line.blanked) < Span.offsetBound)
    (read : Reading.steps markers 0 {} lines = .ok reading) :
    reading.Traced (lines.flatMap Line.blanked) := by
  have fresh : Reading.Traced [] {} := ⟨⟨by simp, .nil, by simp⟩, fun _ => rfl⟩
  exact fresh.steps short read

theorem Reading.traced_of_steps {markers : Markers} {source : Text} {reading : Reading}
    (short : Text.byteLength source < Span.offsetBound)
    (read : Reading.steps markers 0 {} (Text.lines source) = .ok reading) :
    reading.Traced (blankedSource source) := by
  rw [← byteLength_blankedSource] at short
  exact Reading.traced_of_lines short read

/-- Each statement of a source stands at its spans, which follow one another. -/
theorem statements_in_place {markers : Markers} {source : Text} {unit : DesignUnit}
    (short : Text.byteLength source < Span.offsetBound)
    (accepted : DesignUnit.read markers source = .ok unit) :
    (∀ statement ∈ unit.statements, statement.PlacedIn (blankedSource source) ∧
        statement.rhsSpan.stop + 1 = statement.span.stop ∧
        source.At statement.rhsSpan.stop statement.span.stop [';'] ∧
        statement.span.start < statement.span.stop) ∧
      unit.statements.Pairwise fun earlier later => earlier.span.stop ≤ later.span.start := by
  obtain ⟨reading, steps, listed⟩ := DesignUnit.read_eq_ok accepted
  have traced := (Reading.traced_of_steps short steps).1
  rw [listed]
  refine ⟨?_, traced.ordered⟩
  intro statement member
  have placed := traced.placed statement member
  exact ⟨placed, placed.stop_eq, at_source_of_at_blanked (by decide) placed.semicolon,
    placed.start_lt_stop⟩

def brokenSource : Text :=
  ("-- Inputs\nsignal a : std_logic;\n-- Outputs\nbegin\n" ++
    "y <= '1' when -- µ; b <= a\r\n  a else '0'; z<=a;\n").toList

def brokenStatement : Statement :=
  ⟨['y'], " '1' when                  a else '0'".toList, ⟨53, 90⟩, ⟨49, 91⟩⟩

def secondStatement : Statement :=
  ⟨['z'], ['a'], ⟨95, 96⟩, ⟨92, 97⟩⟩

theorem brokenSource_in_place :
    DesignUnit.read {} brokenSource =
        .ok ⟨[⟨['a'], 1, ⟨10, 31⟩⟩], [], [brokenStatement, secondStatement]⟩ ∧
      brokenStatement.PlacedIn (blankedSource brokenSource) ∧
      brokenSource.At 90 91 [';'] ∧ brokenStatement.span.stop ≤ secondStatement.span.start := by
  have accepted : DesignUnit.read {} brokenSource =
      .ok ⟨[⟨['a'], 1, ⟨10, 31⟩⟩], [], [brokenStatement, secondStatement]⟩ := by
    decide +kernel
  have places := statements_in_place (by decide +kernel) accepted
  have broken := places.1 brokenStatement List.mem_cons_self
  have apart := List.rel_of_pairwise_cons places.2 (List.mem_singleton_self secondStatement)
  exact ⟨accepted, broken.1, broken.2.2.1, apart⟩

end TriggerLogic
