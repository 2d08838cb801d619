import TriggerLogic.Proofs.StatementPlaces

namespace TriggerLogic

/-- A line of blanks, with or without a comment behind a space. -/
inductive BlankLine : Text → Prop
  | plain {blanks : Text} : blanks.AllBlank → '\n' ∉ blanks → BlankLine blanks
  | comment {blanks text : Text} : blanks.AllBlank → '\n' ∉ blanks → '\n' ∉ text →
      BlankLine (blanks ++ [' '] ++ '-' :: '-' :: text)

/-- What may stand in the place of white space: blanks, line ends and comments before these. -/
inductive Filler : Text → Prop
  | blanks {blanks : Text} : blanks.AllBlank → '\n' ∉ blanks → Filler blanks
  | line {line rest : Text} : BlankLine line → Filler rest → Filler (line ++ '\n' :: rest)

inductive Text.LaidOut : Text → Text → Prop
  | nil : LaidOut [] []
  | dark {c : Char} {text shown : Text} : Text.isBlank c = false → LaidOut text shown →
      LaidOut (c :: text) (c :: shown)
  | blank {c : Char} {text filler shown : Text} : Text.isBlank c = true → Filler filler →
      filler ≠ [] → LaidOut text shown → LaidOut (c :: text) (filler ++ shown)

structure Assignment where
  target : Text
  rhs : Text
  identifier : Text.isIdentifier target = true
  single : ';' ∉ rhs
  code : ¬ ['-', '-'] <:+: rhs

inductive BodyText : List Assignment → Text → Prop
  | nil {filler : Text} : Filler filler → BodyText [] filler
  | cons {assignment : Assignment} {more : List Assignment} {filler printed rest : Text} :
      Filler filler → assignment.rhs.LaidOut printed → BodyText more rest →
      BodyText (assignment :: more)
        (filler ++ (assignment.target ++ [' ', '<', '=', ' '] ++ (printed ++ ';' :: rest)))

def Statement.States (statement : Statement) (assignment : Assignment) : Prop :=
  statement.target = assignment.target ∧ Text.words statement.rhs = Text.words assignment.rhs

namespace Text

def firstLine (text : Text) : Text :=
  (lines text).headD []

theorem lines_cons {c : Char} (inside : c ≠ '\n') (text : Text) :
    lines (c :: text) = (c :: firstLine text) :: (lines text).tail := by
  rw [lines, if_neg inside, firstLine]
  cases lines text <;> rfl

theorem head?_firstLine (text : Text) : (firstLine text).head? = text.head? := by
  cases text with
  | nil => rfl
  | cons c text =>
    by_cases ends : c = '\n'
    · subst ends
      rfl
    · rw [firstLine, lines_cons ends]
      rfl

theorem firstLine_append {first : Text} (single : '\n' ∉ first) (rest : Text) :
    firstLine (first ++ rest) = first ++ firstLine rest := by
  induction first with
  | nil => rfl
  | cons c first ih =>
    rw [List.mem_cons, not_or] at single
    rw [List.cons_append, firstLine, lines_cons (Ne.symm single.1), List.headD_cons, ih single.2]
    rfl

theorem tail_lines {text : Text} (single : '\n' ∉ text) : (lines text).tail = [] := by
  induction text with
  | nil => rfl
  | cons c text ih =>
    rw [List.mem_cons, not_or] at single
    rw [lines_cons (Ne.symm single.1), List.tail_cons, ih single.2]

end Text

namespace Line

def isEnd (c : Char) : Bool :=
  c == '\n' || c == '\r'

theorem isEnd_of_dark {c : Char} (dark : Text.isBlank c = false) : isEnd c = false := by
  simp only [isEnd, Bool.or_eq_false_iff, beq_eq_false_iff_ne]
  constructor <;> (rintro rfl; cases dark)

theorem body_of_ends {line : Text} (ends : ∀ c ∈ line, isEnd c = true) : body line = [] := by
  exact @Text.dropEndWhile_append_of_forall isEnd [] line ends

theorem code_lineFeed (text : Text) : code (text ++ ['\n']) = code text := by
  have bare : body (text ++ ['\n']) = body text :=
    @Text.dropEndWhile_append_of_forall isEnd text ['\n'] (by decide)
  rw [code, code, bare]

theorem blanked_of_ends {line : Text} (ends : ∀ c ∈ line, isEnd c = true) :
    blanked line = List.replicate (Text.byteLength line) ' ' := by
  have bare : code line = [] := by
    rw [code, body_of_ends ends]
    rfl
  rw [blanked, bare]
  rfl

theorem forall_isEnd {line : Text} (none : ¬ ∃ c ∈ line, isEnd c = false) :
    ∀ c ∈ line, isEnd c = true := by
  intro c member
  rw [← Bool.not_eq_false]
  exact fun inside => none ⟨c, member, inside⟩

theorem body_cons {c : Char} {line : Text} (stays : isEnd c = false ∨ ∃ d ∈ line, isEnd d = false) :
    body (c :: line) = c :: body line := by
  by_cases other : ∃ d ∈ line, isEnd d = false
  · exact @Text.dropEndWhile_append isEnd [c] line other
  · have ends := forall_isEnd other
    have inside : isEnd c = false := stays.resolve_right other
    have alone : body (c :: line) = Text.dropEndWhile isEnd [c] :=
      @Text.dropEndWhile_append_of_forall isEnd [c] line ends
    rw [alone, body_of_ends ends]
    simp [Text.dropEndWhile, inside]

theorem code_cons {c : Char} {line : Text} (stays : isEnd c = false ∨ ∃ d ∈ line, isEnd d = false)
    (apart : c = '-' → line.head? ≠ some '-') : code (c :: line) = c :: code line := by
  obtain ⟨ends, whole, -⟩ := Text.exists_dropEndWhile isEnd line
  have fresh : ['-', '-'].isPrefixOf (c :: body line) = false := by
    rw [Bool.eq_false_iff]
    intro begins
    obtain ⟨rest, same⟩ := List.isPrefixOf_iff_prefix.mp begins
    simp only [List.cons_append, List.nil_append, List.cons.injEq] at same
    apply apart same.1.symm
    have split : line = body line ++ ends := whole
    rw [split, ← same.2]
    rfl
  rw [code, code, body_cons stays, Text.cut?, fresh]
  cases Text.cut? ['-', '-'] (body line) <;> rfl

theorem blanked_cons {c : Char} {line : Text} (stays : isEnd c = false ∨ ∃ d ∈ line, isEnd d = false)
    (apart : c = '-' → line.head? ≠ some '-') : blanked (c :: line) = c :: blanked line := by
  rw [blanked, blanked, code_cons stays apart]
  simp only [Text.byteLength, Nat.add_sub_add_left, List.cons_append]

theorem blanked_blank {c : Char} (blank : Text.isBlank c = true) (inside : c ≠ '\n') (line : Text) :
    ∃ d, Text.isBlank d = true ∧ d.utf8Size = c.utf8Size ∧ blanked (c :: line) = d :: blanked line := by
  have apart : c = '-' → line.head? ≠ some '-' := by
    rintro rfl
    cases blank
  by_cases stays : isEnd c = false ∨ ∃ d ∈ line, isEnd d = false
  · exact ⟨c, blank, rfl, blanked_cons stays apart⟩
  · rw [not_or] at stays
    have returns : c = '\r' := by simpa [isEnd, inside] using stays.1
    subst returns
    have ends := forall_isEnd stays.2
    refine ⟨' ', rfl, rfl, ?_⟩
    rw [blanked_of_ends ends, blanked_of_ends (List.forall_mem_cons.mpr ⟨rfl, ends⟩),
      Text.byteLength, Nat.add_comm]
    rfl

theorem blanked_blanks_append {blanks : Text} (blank : blanks.AllBlank) (single : '\n' ∉ blanks)
    (line : Text) :
    ∃ shown : Text, shown.AllBlank ∧ blanked (blanks ++ line) = shown ++ blanked line := by
  induction blanks with
  | nil => exact ⟨[], Text.allBlank_nil, rfl⟩
  | cons c blanks ih =>
    rw [List.mem_cons, not_or] at single
    obtain ⟨first, rest⟩ := List.forall_mem_cons.mp blank
    obtain ⟨shown, restBlank, split⟩ := ih rest single.2
    obtain ⟨d, dBlank, -, step⟩ := blanked_blank first (Ne.symm single.1) (blanks ++ line)
    refine ⟨d :: shown, List.forall_mem_cons.mpr ⟨dBlank, restBlank⟩, ?_⟩
    rw [List.cons_append, step, split]
    rfl

theorem blanked_append {plain : Text} (inside : ∀ c ∈ plain, isEnd c = false ∧ c ≠ '-') (line : Text) :
    blanked (plain ++ line) = plain ++ blanked line := by
  induction plain with
  | nil => rfl
  | cons c plain ih =>
    obtain ⟨first, rest⟩ := List.forall_mem_cons.mp inside
    rw [List.cons_append, blanked_cons (.inl first.1) (fun dash => absurd dash first.2), ih rest]
    rfl

theorem code_comment (text : Text) : code ('-' :: '-' :: text) = [] := by
  rw [code, body_cons (.inl rfl), body_cons (.inl rfl)]
  rfl

theorem allBlank_blanked_comment (text : Text) : (blanked ('-' :: '-' :: text)).AllBlank := by
  rw [blanked, code_comment]
  intro c member
  rw [List.eq_of_mem_replicate member]
  rfl

end Line

theorem BlankLine.single {line : Text} (blank : BlankLine line) : '\n' ∉ line := by
  cases blank with
  | plain _ single => exact single
  | comment _ single text =>
    simp only [List.mem_append, List.mem_cons, List.not_mem_nil, not_or]
    exact ⟨⟨single, by decide, by decide⟩, by decide, by decide, text⟩

theorem BlankLine.allBlank_blanked {line : Text} (blank : BlankLine line) :
    (Line.blanked (line ++ ['\n'])).AllBlank := by
  cases blank with
  | plain blank single =>
    obtain ⟨shown, shownBlank, split⟩ := Line.blanked_blanks_append blank single ['\n']
    rw [split]
    exact List.forall_mem_append.mpr ⟨shownBlank, by decide⟩
  | @comment blanks text blank single _ =>
    have spaced : Text.AllBlank (blanks ++ [' ']) :=
      List.forall_mem_append.mpr ⟨blank, Text.allBlank_space⟩
    have fresh : '\n' ∉ blanks ++ [' '] := by
      rw [List.mem_append, not_or]
      exact ⟨single, by decide⟩
    obtain ⟨shown, shownBlank, split⟩ :=
      Line.blanked_blanks_append spaced fresh ('-' :: '-' :: text ++ ['\n'])
    rw [List.append_assoc (blanks ++ [' ']), split]
    exact List.forall_mem_append.mpr ⟨shownBlank, Line.allBlank_blanked_comment _⟩

theorem Text.AllBlank.head_append {first second : Text} (blank : first.AllBlank) {c : Char}
    (begins : (first ++ second).head? = some c) (next : second.head? = some c → Text.isBlank c = true) :
    Text.isBlank c = true := by
  cases first with
  | nil => exact next begins
  | cons d first =>
    cases begins
    exact blank c List.mem_cons_self

theorem Filler.head_blank {filler : Text} (fills : Filler filler) {c : Char}
    (begins : filler.head? = some c) : Text.isBlank c = true := by
  cases fills with
  | blanks blank _ => exact blank c (List.mem_of_head? begins)
  | line blank _ =>
    cases blank with
    | plain blank _ =>
      apply blank.head_append begins
      intro lineFeed
      cases lineFeed
      rfl
    | comment blank _ _ =>
      rw [List.append_assoc, List.append_assoc] at begins
      apply blank.head_append begins
      intro space
      cases space
      rfl

theorem Text.LaidOut.head_dash {rhs printed rest : Text} (laidOut : rhs.LaidOut printed)
    (ends : rest.head? ≠ some '-') (dash : (printed ++ rest).head? = some '-') :
    ∃ more, rhs = '-' :: more := by
  cases laidOut with
  | nil => exact absurd dash ends
  | @dark c rhs printed _ _ =>
    cases dash
    exact ⟨rhs, rfl⟩
  | @blank c rhs filler printed _ fills nonempty _ =>
    obtain ⟨d, more, rfl⟩ := List.exists_cons_of_ne_nil nonempty
    have blank : Text.isBlank d = true := fills.head_blank rfl
    cases dash
    cases blank

namespace StatementList

def addLines : Nat → StatementList → List Text → StatementList
  | _, statements, [] => statements
  | offset, statements, raw :: more =>
    addLines (offset + Text.byteLength raw) (statements.addLine offset (Line.blanked raw)) more

/-- Takes in a text of the body that starts at byte `offset`, where a line or a statement begins. -/
def addText (offset : Nat) (statements : StatementList) (text : Text) : StatementList :=
  addLines offset statements (Text.lines text)

theorem addLine_nil (statements : StatementList) (offset : Nat) :
    statements.addLine offset [] = statements := by
  obtain ⟨closed, pending⟩ := statements
  rw [addLine_last List.not_mem_nil, extend?]
  cases pending with
  | none => rfl
  | some earlier =>
    obtain ⟨start, text⟩ := earlier
    simp

theorem addText_eq (offset : Nat) (statements : StatementList) (text : Text) :
    statements.addText offset text =
      addLines (offset + Text.byteLength (Text.firstLine text))
        (statements.addLine offset (Line.blanked (Text.firstLine text))) (Text.lines text).tail := by
  rw [addText, Text.firstLine]
  cases Text.lines text with
  | nil =>
    have same := addLine_nil statements offset
    exact same.symm
  | cons line more => rfl

theorem addText_line {line : Text} (single : '\n' ∉ line) (offset : Nat) (statements : StatementList)
    (rest : Text) :
    statements.addText offset (line ++ '\n' :: rest) =
      (statements.addLine offset (Line.blanked (line ++ ['\n']))).addText
        (offset + Text.byteLength (line ++ ['\n'])) rest := by
  rw [addText, Text.lines_append_lineFeed single]
  rfl

section Pending

variable (closed : List Statement) (start : Nat) (text : Text)

theorem addLine_cons {c : Char} (other : c ≠ ';') (offset : Nat) (line : Text) :
    addLine ⟨closed, some ⟨start, text⟩⟩ offset (c :: line) =
      addLine ⟨closed, some ⟨start, text ++ [c]⟩⟩ (offset + c.utf8Size) line := by
  by_cases found : ';' ∈ line
  · obtain ⟨part, rest, rfl, single⟩ := List.eq_append_cons_of_mem found
    have singleCons : ';' ∉ c :: part := by
      rw [List.mem_cons, not_or]
      exact ⟨Ne.symm other, single⟩
    rw [← List.cons_append, addLine_semicolon singleCons, addLine_semicolon single]
    simp only [extend?, close, Text.byteLength, List.append_assoc, List.singleton_append,
      Nat.add_assoc]
  · have singleCons : ';' ∉ c :: line := by
      rw [List.mem_cons, not_or]
      exact ⟨Ne.symm other, found⟩
    rw [addLine_last singleCons, addLine_last found]
    simp only [extend?, List.append_assoc, List.singleton_append]

theorem addText_cons {c d : Char} {rest : Text} (inside : c ≠ '\n') (other : d ≠ ';')
    (size : d.utf8Size = c.utf8Size)
    (shown : Line.blanked (c :: Text.firstLine rest) = d :: Line.blanked (Text.firstLine rest))
    (offset : Nat) :
    addText offset ⟨closed, some ⟨start, text⟩⟩ (c :: rest) =
      addText (offset + c.utf8Size) ⟨closed, some ⟨start, text ++ [d]⟩⟩ rest := by
  rw [addText_eq, addText_eq _ _ rest, Text.firstLine, Text.lines_cons inside, List.headD_cons, shown,
    addLine_cons closed start text other, size, Text.byteLength, List.tail_cons, Nat.add_assoc]

theorem addText_semicolon (offset : Nat) (statement : OpenStatement) (rest : Text) :
    addText offset ⟨closed, some statement⟩ (';' :: rest) =
      addText (offset + 1) ⟨closed ++ statement.close?.toList, none⟩ rest := by
  have shown : Line.blanked (';' :: Text.firstLine rest) =
      [] ++ ';' :: Line.blanked (Text.firstLine rest) :=
    Line.blanked_cons (.inl rfl) (fun dash => absurd dash (by decide))
  have length : offset + Text.byteLength (';' :: Text.firstLine rest) =
      offset + 1 + Text.byteLength (Text.firstLine rest) := by
    rw [Text.byteLength, ← Nat.add_assoc]
    rfl
  have same : extend? ⟨closed, some statement⟩ offset [] = some statement := by
    obtain ⟨start, text⟩ := statement
    simp [extend?]
  rw [addText_eq, addText_eq _ _ rest, Text.firstLine, Text.lines_cons (by decide), List.headD_cons,
    shown, addLine_semicolon List.not_mem_nil, same, List.tail_cons, length]
  rfl

theorem addText_plain {plain : Text} (inside : ∀ c ∈ plain, Line.isEnd c = false ∧ c ≠ '-')
    (single : ';' ∉ plain) (offset : Nat) (rest : Text) :
    addText offset ⟨closed, some ⟨start, text⟩⟩ (plain ++ rest) =
      addText (offset + Text.byteLength plain) ⟨closed, some ⟨start, text ++ plain⟩⟩ rest := by
  induction plain generalizing text offset with
  | nil => simp [Text.byteLength]
  | cons c plain ih =>
    obtain ⟨first, more⟩ := List.forall_mem_cons.mp inside
    rw [List.mem_cons, not_or] at single
    have other : c ≠ '\n' := by
      rintro rfl
      cases first.1
    have shown := @Line.blanked_cons c (Text.firstLine (plain ++ rest)) (.inl first.1)
      (fun dash => absurd dash first.2)
    rw [List.cons_append, addText_cons closed start text other (Ne.symm single.1) rfl shown,
      ih (text ++ [c]) more single.2]
    simp only [Text.byteLength, List.append_assoc, List.singleton_append, Nat.add_assoc]

theorem addText_blanks {blanks : Text} (blank : blanks.AllBlank) (single : '\n' ∉ blanks)
    (offset : Nat) (rest : Text) :
    ∃ (shown : Text) (later : Nat), shown.AllBlank ∧ (blanks ≠ [] → shown ≠ []) ∧
      addText offset ⟨closed, some ⟨start, text⟩⟩ (blanks ++ rest) =
        addText later ⟨closed, some ⟨start, text ++ shown⟩⟩ rest := by
  induction blanks generalizing text offset with
  | nil => exact ⟨[], offset, Text.allBlank_nil, by simp, by simp⟩
  | cons c blanks ih =>
    obtain ⟨first, more⟩ := List.forall_mem_cons.mp blank
    rw [List.mem_cons, not_or] at single
    obtain ⟨d, dBlank, size, step⟩ :=
      Line.blanked_blank first (Ne.symm single.1) (Text.firstLine (blanks ++ rest))
    have other : d ≠ ';' := by
      rintro rfl
      cases dBlank
    obtain ⟨shown, later, shownBlank, -, taken⟩ := ih (text ++ [d]) more single.2 (offset + c.utf8Size)
    refine ⟨d :: shown, later, List.forall_mem_cons.mpr ⟨dBlank, shownBlank⟩, by simp, ?_⟩
    rw [List.cons_append, addText_cons closed start text (Ne.symm single.1) other size step, taken]
    simp only [List.append_assoc, List.singleton_append]

theorem addText_filler {filler : Text} (fills : Filler filler) (offset : Nat) (rest : Text) :
    ∃ (shown : Text) (later : Nat), shown.AllBlank ∧ (filler ≠ [] → shown ≠ []) ∧
      addText offset ⟨closed, some ⟨start, text⟩⟩ (filler ++ rest) =
        addText later ⟨closed, some ⟨start, text ++ shown⟩⟩ rest := by
  induction fills generalizing text offset with
  | blanks blank single => exact addText_blanks closed start text blank single offset rest
  | @line line more blank _ ih =>
    have lineBlank := blank.allBlank_blanked
    generalize taken : Line.blanked (line ++ ['\n']) = shownLine at lineBlank
    have single : ';' ∉ shownLine := lineBlank.not_mem (by decide)
    obtain ⟨shown, later, shownBlank, -, same⟩ :=
      ih (text ++ shownLine) (offset + Text.byteLength (line ++ ['\n']))
    refine ⟨shownLine ++ shown, later, List.forall_mem_append.mpr ⟨lineBlank, shownBlank⟩, ?_, ?_⟩
    · intro _ empty
      have length := Line.byteLength_blanked (line ++ ['\n'])
      have one : Text.byteLength ['\n'] = 1 := rfl
      rw [taken, (List.append_eq_nil_iff.mp empty).1, Text.byteLength_append, one] at length
      exact absurd length.symm (Nat.succ_ne_zero _)
    · rw [List.append_assoc, List.cons_append, addText_line blank.single, taken, addLine_last single]
      simp only [extend?]
      rw [same, List.append_assoc]

theorem addText_laidOut {rhs printed : Text} (laidOut : rhs.LaidOut printed) (single : ';' ∉ rhs)
    (code : ¬ ['-', '-'] <:+: rhs) (rest : Text) (ends : rest.head? ≠ some '-') (offset : Nat) :
    ∃ (shown : Text) (later : Nat), ';' ∉ shown ∧
      (∀ front : Text, Text.words (front ++ shown) = Text.words (front ++ rhs)) ∧
      addText offset ⟨closed, some ⟨start, text⟩⟩ (printed ++ rest) =
        addText later ⟨closed, some ⟨start, text ++ shown⟩⟩ rest := by
  induction laidOut generalizing text offset with
  | nil => exact ⟨[], offset, List.not_mem_nil, fun front => rfl, by simp⟩
  | @dark c rhs printed dark laidOut ih =>
    rw [List.mem_cons, not_or] at single
    have codeRest : ¬ ['-', '-'] <:+: rhs := fun found => code (List.infix_cons found)
    have apart : c = '-' → (Text.firstLine (printed ++ rest)).head? ≠ some '-' := by
      rintro rfl
      rw [Text.head?_firstLine]
      intro dash
      obtain ⟨more, rfl⟩ := laidOut.head_dash ends dash
      exact code ⟨[], more, rfl⟩
    have other : c ≠ '\n' := by
      rintro rfl
      cases dark
    obtain ⟨shown, later, shownSingle, same, taken⟩ :=
      ih (text ++ [c]) single.2 codeRest (offset + c.utf8Size)
    refine ⟨c :: shown, later, ?_, ?_, ?_⟩
    · rw [List.mem_cons, not_or]
      exact ⟨single.1, shownSingle⟩
    · -- The character may go on with a word of `front`, so the words of `rhs` alone are not enough.
      intro front
      have later := same (front ++ [c])
      simpa only [List.append_assoc, List.singleton_append] using later
    · rw [List.cons_append, addText_cons closed start text other (Ne.symm single.1) rfl
        (Line.blanked_cons (.inl (Line.isEnd_of_dark dark)) apart), taken]
      simp only [List.append_assoc, List.singleton_append]
  | @blank c rhs filler printed blank fills nonempty laidOut ih =>
    rw [List.mem_cons, not_or] at single
    have codeRest : ¬ ['-', '-'] <:+: rhs := fun found => code (List.infix_cons found)
    obtain ⟨gap, middle, gapBlank, filled, skipped⟩ :=
      addText_filler closed start text fills offset (printed ++ rest)
    obtain ⟨shown, later, shownSingle, same, taken⟩ := ih (text ++ gap) single.2 codeRest middle
    refine ⟨gap ++ shown, later, ?_, ?_, ?_⟩
    · rw [List.mem_append, not_or]
      exact ⟨gapBlank.not_mem (by decide), shownSingle⟩
    · intro front
      obtain ⟨d, more, rfl⟩ := List.exists_cons_of_ne_nil (filled nonempty)
      obtain ⟨dBlank, moreBlank⟩ := List.forall_mem_cons.mp gapBlank
      have words : Text.words shown = Text.words rhs := same []
      rw [List.cons_append, Text.words_append_blank dBlank, Text.words_append_blank blank,
        Text.words_allBlank_append moreBlank, words]
    · rw [List.append_assoc, skipped, taken, List.append_assoc]

end Pending

section Idle

variable (closed : List Statement)

theorem addLine_blank {line : Text} (blank : line.AllBlank) (offset : Nat) :
    addLine ⟨closed, none⟩ offset line = ⟨closed, none⟩ := by
  have fresh : opensStatement line = false := by
    rw [opensStatement, Text.cut?_eq_none (blank.not_mem (by decide))]
  rw [addLine_last (blank.not_mem (by decide)), extend?]
  simp [fresh]

theorem addLine_open (parts : AssignmentText) (offset : Nat) (rest : Text) :
    addLine ⟨closed, none⟩ offset (parts.text ++ rest) =
      addLine ⟨closed, some ⟨offset, []⟩⟩ offset (parts.text ++ rest) := by
  have opens : ∀ part (single : ';' ∉ part),
      extend? ⟨closed, none⟩ offset (parts.text ++ part) =
        extend? ⟨closed, some ⟨offset, []⟩⟩ offset (parts.text ++ part) := by
    intro part single
    have opened := (parts.goOn part single).opensStatement_text
    rw [parts.text_goOn] at opened
    simp [extend?, opened]
  by_cases found : ';' ∈ rest
  · obtain ⟨part, more, rfl, single⟩ := List.eq_append_cons_of_mem found
    have whole := (parts.goOn part single).single_text
    rw [parts.text_goOn] at whole
    rw [← List.append_assoc, addLine_semicolon whole, addLine_semicolon whole, opens part single]
    rfl
  · have whole := (parts.goOn rest found).single_text
    rw [parts.text_goOn] at whole
    rw [addLine_last whole, addLine_last whole, opens rest found]

theorem addText_idle {filler : Text} (fills : Filler filler) (offset : Nat) :
    addText offset ⟨closed, none⟩ filler = ⟨closed, none⟩ := by
  induction fills generalizing offset with
  | @blanks text blank single =>
    obtain ⟨shown, shownBlank, split⟩ := Line.blanked_blanks_append blank single []
    have whole : Text.firstLine (text ++ []) = text ++ [] := Text.firstLine_append single []
    have empty : Line.blanked [] = [] := rfl
    rw [List.append_nil] at whole split
    rw [empty, List.append_nil] at split
    rw [addText_eq, whole, split, addLine_blank closed shownBlank, Text.tail_lines single]
    rfl
  | line blank _ ih =>
    rw [addText_line blank.single, addLine_blank closed blank.allBlank_blanked, ih]

section Statement

variable {target : Text} (identifier : Text.isIdentifier target = true)

include identifier

theorem plain_head : ∀ c ∈ target ++ [' ', '<', '=', ' '], Line.isEnd c = false ∧ c ≠ '-' := by
  rw [List.forall_mem_append]
  refine ⟨?_, by decide⟩
  intro c member
  have continues := Text.continuesName_of_mem identifier member
  refine ⟨Line.isEnd_of_dark (Text.isBlank_of_continuesName continues), ?_⟩
  rintro rfl
  cases continues

theorem single_head : ';' ∉ target ++ [' ', '<', '=', ' '] := by
  rw [List.mem_append, not_or]
  exact ⟨Text.not_mem_identifier identifier (by decide), by decide⟩

theorem firstLine_head (rest : Text) :
    Text.firstLine (target ++ [' ', '<', '=', ' '] ++ rest) =
      target ++ [' ', '<', '=', ' '] ++ Text.firstLine rest := by
  apply Text.firstLine_append
  intro member
  cases (plain_head identifier _ member).1

theorem addText_open {lead : Text} (blank : lead.AllBlank) (single : '\n' ∉ lead) (offset : Nat)
    (rest : Text) :
    addText offset ⟨closed, none⟩ (lead ++ (target ++ [' ', '<', '=', ' '] ++ rest)) =
      addText offset ⟨closed, some ⟨offset, []⟩⟩ (lead ++ (target ++ [' ', '<', '=', ' '] ++ rest)) := by
  obtain ⟨shown, shownBlank, split⟩ := Line.blanked_blanks_append blank single
    (target ++ [' ', '<', '=', ' '] ++ Text.firstLine rest)
  obtain ⟨parts, text⟩ : ∃ parts : AssignmentText,
      parts.text = shown ++ (target ++ [' ', '<', '=', ' ']) :=
    ⟨⟨shown, target, [' '], [' '], shownBlank, identifier, Text.allBlank_space, by decide⟩,
      by simp [AssignmentText.text, AssignmentText.head]⟩
  have shownLine : Line.blanked (Text.firstLine (lead ++ (target ++ [' ', '<', '=', ' '] ++ rest))) =
      parts.text ++ Line.blanked (Text.firstLine rest) := by
    rw [Text.firstLine_append single, firstLine_head identifier, split,
      Line.blanked_append (plain_head identifier), text]
    simp only [List.append_assoc]
  rw [addText_eq, addText_eq _ ⟨closed, some ⟨offset, []⟩⟩, shownLine, addLine_open]

theorem addText_opened {filler : Text} (fills : Filler filler) (offset : Nat) (rest : Text) :
    ∃ (lead : Text) (start later : Nat), lead.AllBlank ∧
      addText offset ⟨closed, none⟩ (filler ++ (target ++ [' ', '<', '=', ' '] ++ rest)) =
        addText later ⟨closed, some ⟨start, lead⟩⟩ (target ++ [' ', '<', '=', ' '] ++ rest) := by
  induction fills generalizing offset with
  | blanks blank single =>
    obtain ⟨lead, later, leadBlank, -, taken⟩ := addText_blanks closed offset [] blank single offset
      (target ++ [' ', '<', '=', ' '] ++ rest)
    refine ⟨lead, offset, later, leadBlank, ?_⟩
    rw [addText_open closed identifier blank single, taken, List.nil_append]
  | line blank _ ih =>
    obtain ⟨lead, start, later, leadBlank, taken⟩ := ih _
    refine ⟨lead, start, later, leadBlank, ?_⟩
    rw [List.append_assoc, List.cons_append, addText_line blank.single,
      addLine_blank closed blank.allBlank_blanked]
    exact taken

theorem addText_statement {filler rhs printed : Text} (fills : Filler filler)
    (laidOut : rhs.LaidOut printed) (single : ';' ∉ rhs) (code : ¬ ['-', '-'] <:+: rhs)
    (offset : Nat) (rest : Text) :
    ∃ (statement : Statement) (later : Nat), statement.target = target ∧
      Text.words statement.rhs = Text.words rhs ∧
      addText offset ⟨closed, none⟩
          (filler ++ (target ++ [' ', '<', '=', ' '] ++ (printed ++ ';' :: rest))) =
        addText later ⟨closed ++ [statement], none⟩ rest := by
  obtain ⟨lead, start, opened, leadBlank, begun⟩ :=
    addText_opened closed identifier fills offset (printed ++ ';' :: rest)
  obtain ⟨shown, later, shownSingle, words, taken⟩ := addText_laidOut closed start
    (lead ++ (target ++ [' ', '<', '=', ' '])) laidOut single code (';' :: rest) (by simp)
    (opened + Text.byteLength (target ++ [' ', '<', '=', ' ']))
  obtain ⟨parts, text, named, rhsEq⟩ : ∃ parts : AssignmentText,
      parts.text = lead ++ (target ++ [' ', '<', '=', ' ']) ++ shown ∧ parts.target = target ∧
        parts.rhs = ' ' :: shown :=
    ⟨⟨lead, target, [' '], ' ' :: shown, leadBlank, identifier, Text.allBlank_space,
      by simpa using shownSingle⟩, by simp [AssignmentText.text, AssignmentText.head], rfl, rfl⟩
  refine ⟨parts.statementAt start, later + 1, named, ?_, ?_⟩
  · show Text.words parts.rhs = Text.words rhs
    rw [rhsEq, Text.words_blank_cons rfl]
    exact words []
  · rw [begun, addText_plain closed start lead (plain_head identifier) (single_head identifier), taken,
      addText_semicolon, ← text, parts.close?_text]
    rfl

end Statement

end Idle

/-- A body gives the statements that were written into it. -/
theorem addText_body {assignments : List Assignment} {text : Text} (body : BodyText assignments text)
    (closed : List Statement) (offset : Nat) :
    ∃ added, List.Forall₂ Statement.States added assignments ∧
      addText offset ⟨closed, none⟩ text = ⟨closed ++ added, none⟩ := by
  induction body generalizing closed offset with
  | nil fills => exact ⟨[], .nil, by rw [addText_idle closed fills, List.append_nil]⟩
  | @cons assignment more filler printed rest fills laidOut _ ih =>
    obtain ⟨statement, later, named, words, taken⟩ := addText_statement closed assignment.identifier
      fills laidOut assignment.single assignment.code offset rest
    obtain ⟨added, states, remaining⟩ := ih (closed ++ [statement]) later
    refine ⟨statement :: added, .cons ⟨named, words⟩ states, ?_⟩
    rw [taken, remaining, List.append_assoc, List.singleton_append]

end StatementList

namespace Reading

variable {markers : Markers} {reading : Reading}

theorem steps_cons {next : Reading} {offset : Nat} {raw : Text}
    (stepped : reading.step markers offset raw = .ok next) (rest : List Text) :
    steps markers offset reading (raw :: rest) =
      steps markers (offset + Text.byteLength raw) next rest := by
  rw [steps, stepped]

theorem steps_append {middle : Reading} {offset : Nat} {first : List Text}
    (read : steps markers offset reading first = .ok middle) (second : List Text) :
    steps markers offset reading (first ++ second) =
      steps markers (offset + Text.byteLength first.flatten) middle second := by
  induction first generalizing reading offset with
  | nil =>
    cases read
    rfl
  | cons raw first ih =>
    cases stepped : reading.step markers offset raw with
    | error fault =>
      rw [steps, stepped] at read
      cases read
    | ok next =>
      rw [steps_cons stepped] at read
      rw [List.cons_append, steps_cons stepped, ih read, List.flatten_cons, Text.byteLength_append,
        Nat.add_assoc]

theorem steps_body (part : reading.part = .body) (offset : Nat) (lines : List Text) :
    steps markers offset reading lines =
      .ok { reading with statements := reading.statements.addLines offset lines } := by
  induction lines generalizing reading offset with
  | nil => rfl
  | cons raw lines ih =>
    have stepped : reading.step markers offset raw =
        .ok { reading with statements := reading.statements.addLine offset (Line.blanked raw) } := by
      rw [step, if_pos part]
    rw [steps_cons stepped]
    exact @ih { reading with statements := reading.statements.addLine offset (Line.blanked raw) } part _

end Reading

end TriggerLogic
