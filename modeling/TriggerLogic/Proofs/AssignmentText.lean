import TriggerLogic.Proofs.ClauseText

namespace TriggerLogic

namespace Text

theorem trimStart_append {lead text : Text} (blank : lead.AllBlank) (solid : text.Solid)
    (more : Text) : trimStart (lead ++ text ++ more) = text ++ more := by
  obtain ⟨⟨c, rest, rfl, dark⟩, -⟩ := solid
  rw [trimStart, List.append_assoc, List.dropWhile_append_of_pos blank, List.cons_append,
    List.dropWhile_cons_of_neg (by simp [dark])]

theorem not_mem_of_trim {text : Text} {c : Char} (named : isIdentifier (trim text) = true)
    (dark : isBlank c = false) (other : continuesName c = false) : c ∉ text := by
  obtain ⟨lead, gap, split, leadBlank, gapBlank⟩ := exists_trim text
  rw [split]
  simp only [List.mem_append, not_or]
  exact ⟨⟨leadBlank.not_mem dark, not_mem_identifier named other⟩, gapBlank.not_mem dark⟩

end Text

theorem StatementList.opensStatement_iff {text : Text} : opensStatement text = true ↔
    ∃ left rhs, text = left ++ ['<', '='] ++ rhs ∧ Text.isIdentifier (Text.trim left) = true := by
  constructor
  · intro opens
    unfold opensStatement at opens
    cases found : Text.cut? ['<', '='] text with
    | none =>
      rw [found] at opens
      cases opens
    | some cut =>
      rw [found] at opens
      exact ⟨cut.1, cut.2, Text.cut?_eq_some found, opens⟩
  · rintro ⟨left, rhs, rfl, named⟩
    have fresh : '<' ∉ left := Text.not_mem_of_trim named (by decide) (by decide)
    rw [opensStatement, Text.cut?_append fresh]
    exact named

structure AssignmentText where
  lead : Text
  target : Text
  gap : Text
  rhs : Text
  leadBlank : lead.AllBlank
  identifier : Text.isIdentifier target = true
  gapBlank : gap.AllBlank
  single : ';' ∉ rhs

namespace AssignmentText

variable (parts : AssignmentText)

def head : Text :=
  parts.lead ++ parts.target ++ parts.gap ++ ['<', '=']

def text : Text :=
  parts.head ++ parts.rhs

def goOn (more : Text) (single : ';' ∉ more) : AssignmentText :=
  { parts with
    rhs := parts.rhs ++ more
    single := by
      rw [List.mem_append, not_or]
      exact ⟨parts.single, single⟩ }

theorem text_goOn {more : Text} (single : ';' ∉ more) :
    (parts.goOn more single).text = parts.text ++ more :=
  (List.append_assoc _ _ _).symm

theorem not_mem_front {c : Char} (dark : Text.isBlank c = false)
    (other : Text.continuesName c = false) : c ∉ parts.lead ++ parts.target ++ parts.gap := by
  simp only [List.mem_append, not_or]
  exact ⟨⟨parts.leadBlank.not_mem dark, Text.not_mem_identifier parts.identifier other⟩,
    parts.gapBlank.not_mem dark⟩

theorem single_text : ';' ∉ parts.text := by
  have front := parts.not_mem_front (c := ';') (by decide) (by decide)
  rw [text, head, List.mem_append, List.mem_append, not_or, not_or]
  exact ⟨⟨front, by decide⟩, parts.single⟩

theorem cut?_text :
    Text.cut? ['<', '='] parts.text = some (parts.lead ++ parts.target ++ parts.gap, parts.rhs) :=
  Text.cut?_append (parts.not_mem_front (by decide) (by decide)) parts.rhs

theorem trim_front : Text.trim (parts.lead ++ parts.target ++ parts.gap) = parts.target :=
  Text.trim_of_solid parts.leadBlank (Text.solid_of_isIdentifier parts.identifier) parts.gapBlank

theorem opensStatement_text : StatementList.opensStatement parts.text = true := by
  refine StatementList.opensStatement_iff.mpr ⟨_, parts.rhs, rfl, ?_⟩
  rw [parts.trim_front]
  exact parts.identifier

theorem exists_of_named {left rhs : Text} (named : Text.isIdentifier (Text.trim left) = true)
    (single : ';' ∉ rhs) :
    ∃ parts : AssignmentText, parts.head = left ++ ['<', '='] ∧ parts.target = Text.trim left ∧
      parts.rhs = rhs := by
  obtain ⟨lead, gap, split, leadBlank, gapBlank⟩ := Text.exists_trim left
  refine ⟨⟨lead, Text.trim left, gap, rhs, leadBlank, named, gapBlank, single⟩, ?_, rfl, rfl⟩
  rw [head, ← split]

theorem exists_of_opensStatement {text : Text} (opens : StatementList.opensStatement text = true)
    (single : ';' ∉ text) : ∃ parts : AssignmentText, parts.text = text := by
  obtain ⟨left, rhs, rfl, named⟩ := StatementList.opensStatement_iff.mp opens
  rw [List.mem_append, not_or] at single
  obtain ⟨parts, heads, -, rhsEq⟩ := exists_of_named named single.2
  exact ⟨parts, by rw [AssignmentText.text, heads, rhsEq]⟩

def statementAt (start : Nat) : Statement where
  target := parts.target
  rhs := parts.rhs
  rhsSpan := Span.between (start + Text.byteLength parts.head) (start + Text.byteLength parts.text)
  span := Span.between (start + Text.byteLength parts.lead) (start + Text.byteLength parts.text + 1)

theorem close?_text (start : Nat) :
    (OpenStatement.mk start parts.text).close? = some (parts.statementAt start) := by
  have begins : Text.trimStart parts.text = parts.target ++ (parts.gap ++ ['<', '='] ++ parts.rhs) := by
    rw [text, head]
    have trimmed := Text.trimStart_append parts.leadBlank
      (Text.solid_of_isIdentifier parts.identifier) (parts.gap ++ ['<', '='] ++ parts.rhs)
    simpa only [List.append_assoc] using trimmed
  have lead : Text.byteLength parts.text - Text.byteLength (Text.trimStart parts.text) =
      Text.byteLength parts.lead := by
    rw [begins, text, head]
    simp only [Text.byteLength_append]
    omega
  have front : Text.byteLength parts.head =
      Text.byteLength (parts.lead ++ parts.target ++ parts.gap) + 2 :=
    Text.byteLength_append _ _
  rw [OpenStatement.close?, parts.cut?_text]
  simp only [Option.map_some, parts.trim_front, lead, statementAt, front, Nat.add_assoc]

end AssignmentText

namespace StatementList

theorem addLine_last {line : Text} (single : ';' ∉ line) (statements : StatementList) (offset : Nat) :
    statements.addLine offset line =
      { statements with pending := statements.extend? offset line } := by
  rw [addLine, List.splitOn_eq_singleton single]
  rfl

theorem addLine_semicolon {part : Text} (single : ';' ∉ part) (statements : StatementList)
    (offset : Nat) (rest : Text) :
    statements.addLine offset (part ++ ';' :: rest) =
      match statements.extend? offset part with
      | none => statements
      | some statement =>
        (statements.close statement).addLine (offset + Text.byteLength part + 1) rest := by
  rw [addLine, List.splitOn_append_cons_self_of_not_mem single]
  cases parts : rest.splitOn ';' with
  | nil => exact absurd parts (List.splitOn_ne_nil _ _)
  | cons next more =>
    rw [collect]
    · cases statements.extend? offset part with
      | none => rfl
      | some statement =>
        simp only
        rw [addLine, parts]
    · simp

theorem pending_of_extend?_eq_none {statements : StatementList} {offset : Nat} {part : Text}
    (passed : statements.extend? offset part = none) : statements.pending = none := by
  cases pending : statements.pending with
  | none => rfl
  | some earlier =>
    rw [extend?, pending] at passed
    cases passed

theorem extend?_cases {statements : StatementList} {offset : Nat} {part : Text}
    {statement : OpenStatement} (extended : statements.extend? offset part = some statement) :
    (∃ earlier, statements.pending = some earlier ∧
        statement = ⟨earlier.start, earlier.text ++ part⟩) ∨
      statements.pending = none ∧ opensStatement part = true ∧ statement = ⟨offset, part⟩ := by
  unfold extend? at extended
  cases pending : statements.pending with
  | some earlier =>
    rw [pending] at extended
    cases extended
    exact .inl ⟨earlier, rfl, rfl⟩
  | none =>
    rw [pending] at extended
    simp only [Option.ite_none_right_eq_some, Option.some.injEq] at extended
    exact .inr ⟨rfl, extended.1, extended.2.symm⟩

theorem opensStatement_semicolon {part : Text} (single : ';' ∉ part) (rest : Text) :
    opensStatement (part ++ ';' :: rest) = opensStatement part := by
  rw [Bool.eq_iff_iff, opensStatement_iff, opensStatement_iff]
  constructor
  · rintro ⟨left, rhs, whole, named⟩
    have fresh : ';' ∉ left ++ ['<', '='] := by
      rw [List.mem_append, not_or]
      exact ⟨Text.not_mem_of_trim named (by decide) (by decide), by decide⟩
    rcases List.append_eq_append_iff.mp whole with ⟨_ | ⟨c, more⟩, begins, split⟩ | ⟨more, begins, -⟩
    · exact ⟨left, [], by rw [begins, List.append_nil, List.append_nil], named⟩
    · rw [List.cons_append, List.cons.injEq] at split
      rw [begins, ← split.1] at fresh
      exact absurd (List.mem_append_right part List.mem_cons_self) fresh
    · exact ⟨left, more, begins, named⟩
  · rintro ⟨left, rhs, rfl, named⟩
    exact ⟨left, rhs ++ ';' :: rest, List.append_assoc _ _ _, named⟩

theorem extend?_semicolon {part : Text} (single : ';' ∉ part) (statements : StatementList)
    (offset : Nat) (rest : Text) :
    statements.extend? offset (part ++ ';' :: rest) =
      (statements.extend? offset part).map fun statement =>
        ⟨statement.start, statement.text ++ ';' :: rest⟩ := by
  rw [extend?, extend?, opensStatement_semicolon single]
  cases statements.pending with
  | some earlier => simp
  | none => cases opensStatement part <;> rfl

/-- What holds of a line is shown part by part: the rest of the line is passed over, it is the last
part, or it is a part with a semicolon and what stands behind it. -/
theorem addLine_induction {motive : Nat → Text → StatementList → StatementList → Prop}
    (pass : ∀ offset line statements, extend? statements offset line = none →
      motive offset line statements statements)
    (last : ∀ offset line statements statement, ';' ∉ line →
      extend? statements offset line = some statement →
      motive offset line statements ⟨statements.closed, some statement⟩)
    (next : ∀ offset part rest statements statement after, ';' ∉ part →
      extend? statements offset part = some statement →
      motive (offset + Text.byteLength part + 1) rest (statements.close statement) after →
      motive offset (part ++ ';' :: rest) statements after)
    (offset : Nat) (line : Text) (statements : StatementList) :
    motive offset line statements (statements.addLine offset line) := by
  -- What stands behind a semicolon is taken in like a line of its own, only shorter.
  induction length : line.length using Nat.strongRecOn generalizing line offset statements with
  | _ n ih =>
    by_cases found : ';' ∈ line
    · obtain ⟨part, rest, rfl, single⟩ := List.eq_append_cons_of_mem found
      rw [addLine_semicolon single]
      cases extended : statements.extend? offset part with
      | none =>
        refine pass _ _ _ ?_
        rw [extend?_semicolon single, extended]
        rfl
      | some statement =>
        have shorter : rest.length < n := by
          rw [List.length_append, List.length_cons] at length
          omega
        exact next offset part rest statements statement _ single extended (ih _ shorter _ _ _ rfl)
    · rw [addLine_last found]
      cases extended : statements.extend? offset line with
      | none =>
        have idle := pending_of_extend?_eq_none extended
        have same : { statements with pending := none } = statements := by rw [← idle]
        rw [same]
        exact pass offset line statements extended
      | some statement => exact last offset line statements statement found extended

end StatementList

end TriggerLogic
