import TriggerLogic.Proofs.StatementPlaces

namespace TriggerLogic

theorem map_eq_error_iff {ε α β : Type} {value : α → β} {outcome : Except ε α} {fault : ε} :
    outcome.map value = .error fault ↔ outcome = .error fault := by
  cases outcome <;> simp [Except.map]

theorem exists_of_mapM_eq_error {ε α β : Type} {step : α → Except ε β} {items : List α} {fault : ε}
    (refused : items.mapM step = .error fault) : ∃ item ∈ items, step item = .error fault := by
  induction items with
  | nil => cases refused
  | cons item items ih =>
    rw [List.mapM_cons] at refused
    cases first : step item with
    | error other =>
      rw [first] at refused
      cases refused
      exact ⟨item, List.mem_cons_self, first⟩
    | ok result =>
      cases others : items.mapM step with
      | error other =>
        rw [first, others] at refused
        cases refused
        obtain ⟨later, listed, failed⟩ := ih others
        exact ⟨later, List.mem_cons_of_mem item listed, failed⟩
      | ok results =>
        rw [first, others] at refused
        cases refused

namespace Text

/-- A character of the text begins at byte `place`, or the text ends there. -/
def Boundary (text : Text) (place : Nat) : Prop :=
  ∃ before after, text = before ++ after ∧ place = byteLength before

theorem Boundary.le {text : Text} {place : Nat} (boundary : text.Boundary place) :
    place ≤ byteLength text := by
  obtain ⟨before, after, rfl, rfl⟩ := boundary
  rw [byteLength_append]
  omega

theorem At.boundary_start {text part : Text} {start stop : Nat} (placed : text.At start stop part) :
    text.Boundary start := by
  obtain ⟨before, after, rfl, starts, -⟩ := placed
  exact ⟨before, part ++ after, List.append_assoc _ _ _, starts⟩

theorem At.boundary_stop {text part : Text} {start stop : Nat} (placed : text.At start stop part) :
    text.Boundary stop := by
  obtain ⟨before, after, rfl, -, stops⟩ := placed
  exact ⟨before ++ part, after, rfl, by rw [byteLength_append, stops]⟩

theorem byteLength_pos {text : Text} (nonempty : text ≠ []) : 0 < byteLength text := by
  obtain ⟨c, rest, rfl⟩ := List.exists_cons_of_ne_nil nonempty
  have positive := c.utf8Size_pos
  rw [byteLength]
  omega

theorem eq_of_byteLength_eq {first second rest other : Text} (same : first ++ rest = second ++ other)
    (lengths : byteLength first = byteLength second) : first = second := by
  have none : ∀ {extra text : Text}, byteLength text = byteLength (text ++ extra) → extra = [] := by
    intro extra text equal
    by_contra some
    have positive := byteLength_pos some
    rw [byteLength_append] at equal
    omega
  rcases List.append_eq_append_iff.mp same with ⟨extra, rfl, -⟩ | ⟨extra, rfl, -⟩
  · rw [none lengths, List.append_nil]
  · rw [none lengths.symm, List.append_nil]

theorem byteLength_of_letters {word : Text} (letters : ∀ c ∈ word, c.isAlpha = true) :
    byteLength word = word.length := by
  induction word with
  | nil => rfl
  | cons c word ih =>
    rw [List.forall_mem_cons, isAlpha_iff] at letters
    have small : c.toNat ≤ 127 := by omega
    have size : c.utf8Size = 1 := Char.utf8Size_eq_one_iff.mpr small
    rw [byteLength, size, ih letters.2, List.length_cons, Nat.add_comm]

theorem trimEnd_append {core tail : Text} (lead : Text) (solid : core.Solid) (blank : tail.AllBlank) :
    trimEnd (lead ++ core ++ tail) = lead ++ core := by
  obtain ⟨-, front, c, rfl, dark⟩ := solid
  rw [trimEnd, dropEndWhile_append_of_forall blank, ← List.append_assoc, dropEndWhile]
  simp [dark]

theorem trimStart_of_allBlank {text : Text} (blank : text.AllBlank) : trimStart text = [] :=
  List.dropWhile_eq_nil_iff.mpr blank

theorem trimEnd_of_allBlank {text : Text} (blank : text.AllBlank) : trimEnd text = [] :=
  @dropEndWhile_append_of_forall isBlank [] text blank

theorem ne_space_of_dark {c : Char} (dark : isBlank c = false) : c ≠ ' ' := by
  rintro rfl
  cases dark

end Text

/-- The span ends where it starts or behind that, at characters of the source. It starts before the
source's end and does not end at its very start. -/
structure Span.Marks (source : Text) (span : Span) : Prop where
  ordered : span.start ≤ span.stop
  starts : source.Boundary span.start
  stops : source.Boundary span.stop
  inside : span.start < Text.byteLength source
  positive : 0 < span.stop

theorem Span.marks_between {source : Text} {start stop : Nat} (starts : source.Boundary start)
    (stops : source.Boundary stop) (ordered : start ≤ stop) (inside : start < Text.byteLength source)
    (positive : 0 < stop) (short : Text.byteLength source < offsetBound) :
    (Span.between start stop).Marks source := by
  have fits := stops.le
  rw [Span.between_eq ordered (by omega)]
  exact ⟨ordered, starts, stops, inside, positive⟩

section Declarations

def Declaration.place (code : Text) (offset : Nat) : Span :=
  let lead := Text.byteLength code - Text.byteLength (Text.trimStart code)
  Span.between (offset + lead) (offset + lead + Text.byteLength (Text.trim code))

theorem Declaration.place_of_read {code : Text} {offset : Nat} {declaration : Declaration}
    (found : Declaration.read code offset = .ok (some declaration)) :
    declaration.span = Declaration.place code offset := by
  unfold Declaration.read at found
  simp only at found
  split at found
  · cases found
  · cases found
    rfl
  · split at found
    · cases found
    · cases found
      rfl

theorem Declaration.place_of_refused {code : Text} {offset : Nat} {fault : SourceFault}
    (refused : Declaration.read code offset = .error fault) :
    fault.span = Declaration.place code offset := by
  unfold Declaration.read at refused
  simp only at refused
  split at refused
  · cases refused
  · cases refused
  · split at refused
    · cases refused
      rfl
    · cases refused

theorem Declaration.marks_place {before raw after : Text}
    (visible : Text.trim (Line.code raw) ≠ [])
    (short : Text.byteLength (before ++ raw ++ after) < Span.offsetBound) :
    (Declaration.place (Line.code raw) (Text.byteLength before)).Marks (before ++ raw ++ after) := by
  obtain ⟨rest, whole⟩ := Line.exists_code_append raw
  rcases Text.allBlank_or_solid (Line.code raw) with blank | ⟨lead, core, tail, split, leadBlank, solid, tailBlank⟩
  · exact absurd (Text.trim_of_allBlank blank) visible
  · have trimmed : Text.trim (Line.code raw) = core := by
      rw [split, Text.trim_of_solid leadBlank solid tailBlank]
    have front : Text.byteLength (Line.code raw) - Text.byteLength (Text.trimStart (Line.code raw)) =
        Text.byteLength lead := by
      rw [split, Text.trimStart_append leadBlank solid]
      simp only [Text.byteLength_append]
      omega
    have source : before ++ raw ++ after = before ++ lead ++ core ++ (tail ++ rest ++ after) := by
      rw [whole, split]
      simp only [List.append_assoc]
    have positive := Text.byteLength_pos solid.ne_nil
    rw [source] at short ⊢
    rw [Declaration.place, trimmed, front]
    have inside : Text.byteLength before + Text.byteLength lead <
        Text.byteLength (before ++ lead ++ core ++ (tail ++ rest ++ after)) := by
      simp only [Text.byteLength_append]
      omega
    apply Span.marks_between _ _ (by omega) inside (by omega) short
    · exact ⟨before ++ lead, core ++ (tail ++ rest ++ after), List.append_assoc _ _ _,
        by rw [Text.byteLength_append]⟩
    · exact ⟨before ++ lead ++ core, tail ++ rest ++ after, rfl, by simp only [Text.byteLength_append]⟩

end Declarations

theorem StatementList.start_addLine {statements : StatementList} {offset : Nat} {line : Text}
    {statement : OpenStatement}
    (pending : (statements.addLine offset line).pending = some statement) :
    (∃ earlier, statements.pending = some earlier ∧ earlier.start = statement.start) ∨
      ∃ front rest, line = front ++ rest ∧ statement.start = offset + Text.byteLength front ∧
        (front = [] ∨ ∃ part, front = part ++ [';']) := by
  have trace := @addLine_induction fun offset line statements after =>
    after.pending = some statement →
      (∃ earlier, statements.pending = some earlier ∧ earlier.start = statement.start) ∨
        ∃ front rest, line = front ++ rest ∧ statement.start = offset + Text.byteLength front ∧
          (front = [] ∨ ∃ part, front = part ++ [';'])
  refine trace ?_ ?_ ?_ offset line statements pending
  · intro offset line statements _ pending
    exact .inl ⟨statement, pending, rfl⟩
  · intro offset line statements last _ extended pending
    cases pending
    rcases extend?_cases extended with ⟨earlier, found, rfl⟩ | ⟨-, -, rfl⟩
    · exact .inl ⟨earlier, found, rfl⟩
    · exact .inr ⟨[], line, rfl, rfl, .inl rfl⟩
  · intro offset part rest statements last after _ _ ih pending
    rcases ih pending with ⟨_, ⟨⟩, _⟩ | ⟨front, back, rfl, starts, ends⟩
    refine .inr ⟨part ++ ';' :: front, back, by simp, ?_, .inr ?_⟩
    · have semicolon : Text.byteLength (';' :: front) = 1 + Text.byteLength front := rfl
      rw [starts, Text.byteLength_append, semicolon]
      omega
    · rcases ends with rfl | ⟨inner, rfl⟩
      · exact ⟨part, rfl⟩
      · exact ⟨part ++ ';' :: inner, by simp⟩

namespace Reading

variable {markers : Markers} {reading next : Reading} {source before raw after : Text}

structure Marked (source : Text) (reading : Reading) : Prop where
  inputs : ∀ input ∈ reading.inputs, input.span.Marks source
  outputs : ∀ output ∈ reading.outputs, output.span.Marks source
  pending : ∀ statement, reading.statements.pending = some statement →
    source.Boundary statement.start

theorem Marked.declare {declaration : Declaration} (marked : reading.Marked source)
    (marks : declaration.span.Marks source) : (reading.declare declaration).Marked source := by
  unfold Reading.declare
  split
  · refine ⟨?_, marked.outputs, marked.pending⟩
    rw [List.forall_mem_append, List.forall_mem_map]
    exact ⟨marked.inputs, fun _ _ => marks⟩
  · split
    · exact marked
    · refine ⟨marked.inputs, ?_, marked.pending⟩
      rw [List.forall_mem_append, List.forall_mem_map]
      exact ⟨marked.outputs, fun _ _ => marks⟩
  · exact marked
  · exact marked

theorem Marked.addLine (marked : reading.Marked (before ++ raw ++ after)) :
    Marked (before ++ raw ++ after) { reading with
      statements := reading.statements.addLine (Text.byteLength before) (Line.blanked raw) } := by
  refine ⟨marked.inputs, marked.outputs, ?_⟩
  intro statement pending
  rcases StatementList.start_addLine pending with ⟨earlier, found, same⟩ |
    ⟨front, rest, shown, starts, ends⟩
  · rw [← same]
    exact marked.pending earlier found
  · rcases ends with rfl | ⟨part, rfl⟩
    · exact ⟨before, raw ++ after, List.append_assoc _ _ _, starts⟩
    · rw [List.append_assoc, List.singleton_append] at shown
      obtain ⟨back, whole⟩ := Line.exists_of_blanked (by decide) shown
      refine ⟨before ++ (part ++ [';']), back ++ after, by rw [whole]; simp, ?_⟩
      rw [starts, ← Text.byteLength_append]

/-- One line keeps the marks, or it is refused with a mark of its own. -/
theorem Marked.step (marked : reading.Marked (before ++ raw ++ after))
    (short : Text.byteLength (before ++ raw ++ after) < Span.offsetBound) :
    (∃ next, reading.step markers (Text.byteLength before) raw = .ok next ∧
        next.Marked (before ++ raw ++ after)) ∨
      ∃ fault, reading.step markers (Text.byteLength before) raw = .error fault ∧
        fault.span.Marks (before ++ raw ++ after) := by
  unfold Reading.step
  split
  · exact .inl ⟨_, rfl, marked.addLine⟩
  split
  · refine .inl ⟨_, rfl, ?_⟩
    unfold commentLine
    split <;> exact ⟨marked.inputs, marked.outputs, marked.pending⟩
  rename_i visible
  rw [List.isEmpty_iff] at visible
  have marks := Declaration.marks_place visible short
  split
  · exact .inl ⟨reading, rfl, marked⟩
  unfold declarationLine
  split
  · exact .inl ⟨_, rfl, ⟨marked.inputs, marked.outputs, marked.pending⟩⟩
  split
  · rename_i fault refused
    exact .inr ⟨fault, rfl, Declaration.place_of_refused refused ▸ marks⟩
  · exact .inl ⟨reading, rfl, marked⟩
  · rename_i declaration found
    exact .inl ⟨_, rfl, marked.declare (Declaration.place_of_read found ▸ marks)⟩

theorem Marked.steps {lines : List Text} (marked : reading.Marked (before ++ lines.flatten))
    (short : Text.byteLength (before ++ lines.flatten) < Span.offsetBound) :
    (∃ final, Reading.steps markers (Text.byteLength before) reading lines = .ok final ∧
        final.Marked (before ++ lines.flatten)) ∨
      ∃ fault, Reading.steps markers (Text.byteLength before) reading lines = .error fault ∧
        fault.span.Marks (before ++ lines.flatten) := by
  induction lines generalizing before reading with
  | nil => exact .inl ⟨reading, rfl, marked⟩
  | cons raw lines ih =>
    rw [List.flatten_cons, ← List.append_assoc] at marked short ⊢
    unfold Reading.steps
    rcases @Marked.step markers reading before raw _ marked short with
      ⟨next, stepped, nextMarked⟩ | ⟨fault, refused, marks⟩
    · rw [stepped, ← Text.byteLength_append]
      exact ih nextMarked short
    · rw [refused]
      exact .inr ⟨fault, rfl, marks⟩

end Reading

section Statements

variable {source : Text} {statement : Statement}

theorem byteLength_lt_of_split {front rest : Text} (more : rest ≠ [])
    (split : blankedSource source = front ++ rest) :
    Text.byteLength front < Text.byteLength source := by
  have positive := Text.byteLength_pos more
  rw [← byteLength_blankedSource source, split, Text.byteLength_append]
  omega

theorem boundary_of_dark {front back : Text} {c : Char} (dark : c ≠ ' ')
    (split : blankedSource source = front ++ c :: back) :
    source.Boundary (Text.byteLength front) ∧
      source.Boundary (Text.byteLength (front ++ [c])) := by
  have placed : (blankedSource source).At (Text.byteLength front) (Text.byteLength (front ++ [c])) [c] :=
    ⟨front, back, by rw [split]; simp, rfl, Text.byteLength_append _ _⟩
  have same := at_source_of_at_blanked dark placed
  exact ⟨same.boundary_start, same.boundary_stop⟩

theorem Statement.PlacedIn.marks (placed : statement.PlacedIn (blankedSource source)) :
    statement.span.Marks source := by
  have order := placed.start_lt_stop
  have stops := (at_source_of_at_blanked (by decide) placed.semicolon).boundary_stop
  have fits := stops.le
  refine ⟨by omega, ?_, stops, by omega, by omega⟩
  obtain ⟨gap, -, front, back, split, starts, -⟩ := placed.head
  obtain ⟨⟨c, rest, named, dark⟩, -⟩ := Text.solid_of_isIdentifier placed.target
  rw [starts]
  apply (@boundary_of_dark source front (rest ++ gap ++ ['<', '='] ++ back) c
    (Text.ne_space_of_dark dark) _).1
  rw [split, named]
  simp

theorem Clause.span_of_read {layout : Layout} {output piece : Text} {span : Span} {clause : Clause}
    (found : Clause.read layout output span piece = .ok clause) : clause.span = span := by
  unfold Clause.read at found
  simp only at found
  split at found
  · cases found
  split at found
  · cases found
  split at found
  · cases found
  split at found
  · cases found
    rfl
  · split at found
    · cases found
    · cases found
      rfl

theorem Clause.span_of_refused {layout : Layout} {output piece : Text} {span : Span}
    {fault : SourceFault} (refused : Clause.read layout output span piece = .error fault) :
    fault.span = span := by
  unfold Clause.read at refused
  simp only at refused
  split at refused
  · cases refused
    rfl
  split at refused
  · cases refused
    rfl
  split at refused
  · cases refused
    rfl
  split at refused
  · cases refused
  · split at refused
    · cases refused
      rfl
    · cases refused

theorem Clause.span_of_refused_sum {clause : Clause} {fault : SourceFault}
    (refused : clause.sum = .error fault) : fault.span = clause.span := by
  unfold Clause.sum at refused
  split at refused
  · cases refused
  · split at refused
    · cases refused
    · cases refused
      rfl
    · cases refused
      rfl

namespace Condition

theorem pieceSpan_of_allBlank {piece : Text} (blank : piece.AllBlank) (offset : Nat) :
    pieceSpan offset piece =
      Span.between (offset + Text.byteLength piece) (offset + Text.byteLength piece) := by
  rw [pieceSpan, Text.trimStart_of_allBlank blank, Text.trimEnd_of_allBlank blank]
  simp only [Text.byteLength, Nat.sub_zero, Nat.zero_max]

theorem pieceSpan_of_solid {lead core tail : Text} (leadBlank : lead.AllBlank) (solid : core.Solid)
    (tailBlank : tail.AllBlank) (offset : Nat) :
    pieceSpan offset (lead ++ core ++ tail) =
      Span.between (offset + Text.byteLength lead) (offset + Text.byteLength (lead ++ core)) := by
  rw [pieceSpan, Text.trimStart_append leadBlank solid, Text.trimEnd_append lead solid tailBlank]
  simp only [Text.byteLength_append]
  congr 1 <;> omega

theorem marks_pieceSpan {front piece back : Text} {c : Char} (dark : c ≠ ' ')
    (split : blankedSource source = front ++ piece ++ c :: back) (positive : 0 < Text.byteLength front)
    (short : Text.byteLength source < Span.offsetBound) :
    (pieceSpan (Text.byteLength front) piece).Marks source := by
  rcases Text.allBlank_or_solid piece with blank | ⟨lead, core, tail, rfl, leadBlank, solid, tailBlank⟩
  · have boundary := (boundary_of_dark dark split).1
    rw [pieceSpan_of_allBlank blank, ← Text.byteLength_append]
    apply Span.marks_between boundary boundary (Nat.le_refl _) _ _ short
    · exact byteLength_lt_of_split (List.cons_ne_nil c back) split
    · rw [Text.byteLength_append]
      omega
  · have place := pieceSpan_of_solid leadBlank solid tailBlank (Text.byteLength front)
    rw [← Text.byteLength_append, ← Text.byteLength_append, ← List.append_assoc] at place
    obtain ⟨⟨d, rest, begins, darkStart⟩, inner, e, ends, darkEnd⟩ := solid
    rw [place]
    apply Span.marks_between _ _ _ _ _ short
    · apply (@boundary_of_dark source (front ++ lead) (rest ++ tail ++ c :: back) d
        (Text.ne_space_of_dark darkStart) _).1
      rw [split, begins]
      simp
    · have stops := (@boundary_of_dark source (front ++ lead ++ inner) (tail ++ c :: back) e
        (Text.ne_space_of_dark darkEnd) (by rw [split, ends]; simp)).2
      rw [ends]
      simpa only [List.append_assoc] using stops
    · rw [Text.byteLength_append (front ++ lead)]
      omega
    · apply @byteLength_lt_of_split _ (front ++ lead) (core ++ tail ++ c :: back) (by simp)
      rw [split]
      simp only [List.append_assoc]
    · simp only [Text.byteLength_append]
      omega

def pieceSpans : Nat → List Text → List Span
  | _, [] => []
  | offset, piece :: more =>
    pieceSpan offset piece :: pieceSpans (offset + Text.byteLength piece + 3) more

theorem span_of_readPieces {layout : Layout} {output : Text} {offset : Nat} {pieces : List Text}
    {clauses : List Clause} (found : readPieces layout output offset pieces = .ok clauses) :
    clauses.map Clause.span = pieceSpans offset pieces := by
  induction pieces generalizing offset clauses with
  | nil =>
    cases found
    rfl
  | cons piece pieces ih =>
    unfold readPieces at found
    split at found
    · cases found
    · rename_i clause first
      obtain ⟨more, others, rfl⟩ := map_eq_ok_iff.mp found
      rw [List.map_cons, Clause.span_of_read first, ih others, pieceSpans]

theorem span_of_refused_pieces {layout : Layout} {output : Text} {offset : Nat} {pieces : List Text}
    {fault : SourceFault} (refused : readPieces layout output offset pieces = .error fault) :
    fault.span ∈ pieceSpans offset pieces := by
  induction pieces generalizing offset with
  | nil => cases refused
  | cons piece pieces ih =>
    unfold readPieces at refused
    rw [pieceSpans]
    split at refused
    · rename_i first
      cases refused
      rw [Clause.span_of_refused first]
      exact List.mem_cons_self
    · exact List.mem_cons_of_mem _ (ih (map_eq_error_iff.mp refused))

def StopsPiece (rest : Text) : Prop :=
  ∀ c ∈ rest.head?, c.isAlpha = true

theorem stopsPiece_keyword {keyword word : Text} (isKeyword : Text.IsKeyword keyword)
    (spelled : Text.lower word = Text.lower keyword) (rest : Text) : StopsPiece (word ++ rest) := by
  have nonempty := isKeyword.ne_nil_of_spelled spelled
  have letters := isKeyword.isAlpha_of_spelled spelled
  obtain ⟨c, more, rfl⟩ := List.exists_cons_of_ne_nil nonempty
  rintro _ ⟨⟩
  exact letters c List.mem_cons_self

theorem byteLength_keyword {keyword word : Text} (isKeyword : Text.IsKeyword keyword)
    (spelled : Text.lower word = Text.lower keyword) : Text.byteLength word = keyword.length := by
  rw [Text.byteLength_of_letters (isKeyword.isAlpha_of_spelled spelled),
    Text.length_of_spelled spelled]

theorem exists_of_mem_pieceSpans {offset : Nat} {opened : Bool} {text : Text} {span : Span}
    (listed : span ∈ pieceSpans offset (Text.pieces ['a', 'n', 'd'] opened text)) :
    ∃ front piece back, text = front ++ piece ++ back ∧
      span = pieceSpan (offset + Text.byteLength front) piece ∧ StopsPiece back := by
  induction length : text.length using Nat.strongRecOn generalizing text offset opened with
  | _ n ih =>
    rw [Text.pieces_eq _ _ _ (by decide)] at listed
    cases found : Text.cutKeyword? ['a', 'n', 'd'] opened text with
    | none =>
      rw [found] at listed
      have same : span = pieceSpan offset text := List.mem_singleton.mp listed
      exact ⟨[], text, [], by simp, same, by rintro _ ⟨⟩⟩
    | some parts =>
      obtain ⟨before, after⟩ := parts
      obtain ⟨word, rfl, spelled⟩ := Text.cutKeyword?_eq_some found
      have size : Text.byteLength word = 3 := byteLength_keyword Text.isKeyword_and spelled
      rw [found] at listed
      rcases List.mem_cons.mp listed with same | later
      · exact ⟨[], before, word ++ after, by simp, same, stopsPiece_keyword Text.isKeyword_and spelled _⟩
      · have shorter : after.length < n := by
          have nonempty := List.length_pos_iff.mpr (Text.isKeyword_and.ne_nil_of_spelled spelled)
          simp only [List.length_append] at length
          omega
        obtain ⟨front, piece, back, rfl, same, stops⟩ := ih _ shorter later rfl
        refine ⟨before ++ word ++ front, piece, back, by simp only [List.append_assoc], ?_, stops⟩
        rw [same, Text.byteLength_append, Text.byteLength_append, size]
        simp only [Nat.add_assoc]

theorem exists_afterWhen (rhs : Text) :
    ∃ front, rhs = front ++ (afterWhen rhs).text ∧ (afterWhen rhs).offset = Text.byteLength front := by
  unfold afterWhen
  split
  · rename_i before rest found
    obtain ⟨word, rfl, spelled⟩ := Text.cutKeyword?_eq_some found
    refine ⟨before ++ word, rfl, ?_⟩
    rw [Text.byteLength_append, byteLength_keyword Text.isKeyword_when spelled]
    rfl
  · exact ⟨[], rfl, rfl⟩

theorem exists_extent (rhs : Text) :
    ∃ front back, rhs = front ++ (extent rhs).text ++ back ∧
      (extent rhs).offset = Text.byteLength front ∧ StopsPiece back := by
  obtain ⟨front, split, offset⟩ := exists_afterWhen rhs
  unfold extent
  simp only
  split
  · rename_i before rest found
    obtain ⟨word, whole, spelled⟩ := Text.cutKeyword?_eq_some found
    refine ⟨front, word ++ rest, ?_, offset, stopsPiece_keyword Text.isKeyword_else spelled _⟩
    rw [List.append_assoc, ← List.append_assoc before, ← whole, ← split]
  · exact ⟨front, [], by rw [List.append_nil, ← split], offset, by rintro _ ⟨⟩⟩

def spans (statement : Statement) : List Span :=
  pieceSpans (statement.rhsSpan.start + (extent statement.rhs).offset)
    (Text.pieces ['a', 'n', 'd'] (extent statement.rhs).opened (extent statement.rhs).text)

theorem marks_spans (placed : statement.PlacedIn (blankedSource source))
    (short : Text.byteLength source < Span.offsetBound) :
    ∀ span ∈ spans statement, span.Marks source := by
  intro span listed
  obtain ⟨front, piece, back, text, same, stops⟩ := exists_of_mem_pieceSpans listed
  obtain ⟨lead, trail, rhs, offset, ends⟩ := exists_extent statement.rhs
  obtain ⟨before, after, split, starts, rhsStops⟩ := placed.rhs
  obtain ⟨others, remaining, splitAgain, semicolon, -⟩ := placed.semicolon
  have atEnd : others = before ++ statement.rhs := by
    have both : others ++ ([';'] ++ remaining) = before ++ statement.rhs ++ after := by
      rw [← List.append_assoc, ← splitAgain, split]
    apply Text.eq_of_byteLength_eq both
    rw [← semicolon, rhsStops, Text.byteLength_append]
  have whole : blankedSource source =
      before ++ lead ++ front ++ piece ++ (back ++ trail ++ ';' :: remaining) := by
    rw [splitAgain, atEnd, rhs, text]
    simp only [List.append_assoc, List.singleton_append]
  obtain ⟨c, rest, next, dark⟩ : ∃ c rest, back ++ trail ++ ';' :: remaining = c :: rest ∧ c ≠ ' ' := by
    have letter : ∀ c : Char, c.isAlpha = true → c ≠ ' ' := by
      rintro c alpha rfl
      cases alpha
    cases back with
    | cons c back => exact ⟨c, _, rfl, letter c (stops c rfl)⟩
    | nil =>
      cases trail with
      | cons c trail => exact ⟨c, _, rfl, letter c (ends c rfl)⟩
      | nil => exact ⟨';', remaining, rfl, by decide⟩
  have positive : 0 < Text.byteLength before := by
    obtain ⟨gap, -, _, _, -, -, headStops⟩ := placed.head
    have arrow : Text.byteLength ['<', '='] = 2 := rfl
    rw [Text.byteLength_append _ ['<', '='], arrow] at headStops
    omega
  have place : statement.rhsSpan.start + (extent statement.rhs).offset + Text.byteLength front =
      Text.byteLength (before ++ lead ++ front) := by
    rw [starts, offset, Text.byteLength_append, Text.byteLength_append]
  rw [next] at whole
  rw [same, place]
  apply marks_pieceSpan dark whole _ short
  simp only [Text.byteLength_append]
  omega

end Condition

theorem Decision.span_of_refused {layout : Layout} {fault : SourceFault}
    (refused : Decision.ofStatement layout statement = .error (.source fault)) :
    fault.span = statement.span ∨ fault.span ∈ Condition.spans statement := by
  unfold Decision.ofStatement at refused
  split at refused
  · rename_i conditionFault unread
    cases refused
    unfold Condition.read at unread
    split at unread
    · cases unread
      exact .inl rfl
    · exact .inr (Condition.span_of_refused_pieces unread)
  · rename_i clauses read
    split at refused
    · rename_i unexpanded
      cases refused
      obtain ⟨clause, listed, failed⟩ := exists_of_mapM_eq_error unexpanded
      unfold Condition.read at read
      split at read
      · cases read
      · right
        rw [Condition.spans, ← Condition.span_of_readPieces read, Clause.span_of_refused_sum failed]
        exact List.mem_map_of_mem listed
    · split at refused <;> cases refused

end Statements

section Declared

theorem mem_of_firstRepeated? {seen : List Text} {entries : List (Text × Span)} {entry : Text × Span}
    (found : firstRepeated? seen entries = some entry) : entry ∈ entries := by
  induction entries generalizing seen with
  | nil => cases found
  | cons first entries ih =>
    unfold firstRepeated? at found
    split at found
    · cases found
      exact List.mem_cons_self
    · exact List.mem_cons_of_mem _ (ih found)

theorem span_of_repeated {entries : List (Text × Span)} {fault : SourceFault}
    (refused : distinctNames entries = .error fault) : fault.span ∈ entries.map Prod.snd := by
  unfold distinctNames at refused
  split at refused
  · rename_i name span found
    cases refused
    exact List.mem_map_of_mem (mem_of_firstRepeated? found)
  · cases refused

theorem exists_of_refused_assignAll {layout : Layout} {outputs : List Output}
    {statements : List Statement} {fault : TableFault}
    (refused : DecisionTable.assignAll layout outputs statements = .error fault) :
    ∃ statement ∈ statements, Decision.ofStatement layout statement = .error fault := by
  induction statements generalizing outputs with
  | nil => cases refused
  | cons statement statements ih =>
    have later : ∀ {outputs}, DecisionTable.assignAll layout outputs statements = .error fault →
        ∃ later ∈ statement :: statements, Decision.ofStatement layout later = .error fault := by
      intro outputs refused
      obtain ⟨other, listed, failed⟩ := ih refused
      exact ⟨other, List.mem_cons_of_mem statement listed, failed⟩
    unfold DecisionTable.assignAll at refused
    split at refused
    · split at refused
      · rename_i failed
        cases refused
        exact ⟨statement, List.mem_cons_self, failed⟩
      · exact later refused
    · exact later refused

end Declared

namespace DecisionTable

variable {source : Text} {fault : SourceFault}

/-- What a unit is refused for is marked where its declarations and statements are. -/
theorem marks_of_refused_unit {unit : DesignUnit}
    (inputs : ∀ input ∈ unit.inputs, input.span.Marks source)
    (outputs : ∀ output ∈ unit.outputs, output.span.Marks source)
    (placed : ∀ statement ∈ unit.statements, statement.PlacedIn (blankedSource source))
    (short : Text.byteLength source < Span.offsetBound)
    (refused : ofUnit unit = .error (.source fault)) : fault.span.Marks source := by
  unfold ofUnit at refused
  split at refused
  · rename_i repeated
    cases refused
    have listed := span_of_repeated (map_eq_error_iff.mp repeated)
    rw [List.map_map] at listed
    obtain ⟨input, member, same⟩ := List.mem_map.mp listed
    exact same ▸ inputs input member
  · split at refused
    · rename_i repeated
      cases refused
      have listed := span_of_repeated repeated
      rw [List.map_map] at listed
      obtain ⟨output, member, same⟩ := List.mem_map.mp listed
      exact same ▸ outputs output member
    · obtain ⟨statement, listed, failed⟩ := exists_of_refused_assignAll (map_eq_error_iff.mp refused)
      have inPlace := placed statement listed
      rcases Decision.span_of_refused failed with same | piece
      · rw [same]
        exact inPlace.marks
      · exact Condition.marks_spans inPlace short _ piece

theorem marks_of_refused {markers : Markers} (short : Text.byteLength source < Span.offsetBound)
    (refused : ofSource markers source = .error (.source fault)) : fault.span.Marks source := by
  have fresh : Reading.Marked ([] ++ (Text.lines source).flatten) {} :=
    ⟨by rintro _ ⟨⟩, by rintro _ ⟨⟩, by rintro _ ⟨⟩⟩
  have whole : [] ++ (Text.lines source).flatten = source := Text.lines_flatten source
  have outcome := @Reading.Marked.steps markers {} [] _ fresh (whole.symm ▸ short)
  rw [whole] at outcome
  unfold ofSource at refused
  rcases outcome with ⟨reading, read, marked⟩ | ⟨early, failed, marks⟩
  · have traced := (Reading.traced_of_steps short read).1
    rw [DesignUnit.read, show Reading.steps markers 0 {} (Text.lines source) = .ok reading from read]
      at refused
    simp only [Reading.finish] at refused
    cases pending : reading.statements.pending with
    | some statement =>
      rw [pending] at refused
      cases refused
      have starts := marked.pending statement pending
      have ends : source.Boundary (Text.byteLength source) := ⟨source, [], by simp, rfl⟩
      obtain ⟨before, parts, text, rfl, -⟩ := traced.pending statement pending
      have more : parts.text ≠ [] := by simp [AssignmentText.text, AssignmentText.head]
      have inside := byteLength_lt_of_split more text
      exact Span.marks_between starts ends starts.le inside (by omega) short
    | none =>
      rw [pending] at refused
      exact marks_of_refused_unit marked.inputs marked.outputs traced.placed short refused
  · rw [DesignUnit.read, show Reading.steps markers 0 {} (Text.lines source) = .error early from failed]
      at refused
    cases refused
    exact marks

/-- A fault, of whichever kind, comes with a place of the source: a range of bytes that begins and
ends at characters. -/
theorem fault_has_place {markers : Markers} (short : Text.byteLength source < Span.offsetBound)
    (refused : ofSource markers source = .error (.source fault)) :
    fault.span.start ≤ fault.span.stop ∧ fault.span.stop ≤ Text.byteLength source ∧
      source.Boundary fault.span.start ∧ source.Boundary fault.span.stop ∧
      fault.span ≠ Span.nowhere := by
  have marks := marks_of_refused short refused
  refine ⟨marks.ordered, marks.stops.le, marks.starts, marks.stops, ?_⟩
  intro nowhere
  have positive := marks.positive
  rw [nowhere] at positive
  exact absurd positive (by decide)

def danglingSource : Text :=
  ("-- Inputs\nsignal a : std_logic;\n-- Outputs\nsignal y : std_logic;\nbegin\n" ++
    "y <= '1' when a and -- µ\n else '0';\n").toList

theorem danglingSource_has_place :
    ofSource {} danglingSource = .error (.source (.malformedAssignment ['y'] ⟨98, 98⟩)) ∧
      98 ≤ Text.byteLength danglingSource ∧ danglingSource.Boundary 98 := by
  have refused : ofSource {} danglingSource = .error (.source (.malformedAssignment ['y'] ⟨98, 98⟩)) := by
    decide +kernel
  obtain ⟨-, inside, boundary, -⟩ := fault_has_place (by decide +kernel) refused
  exact ⟨refused, inside, boundary⟩

end DecisionTable

end TriggerLogic
