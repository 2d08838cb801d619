import TriggerLogic.Proofs.ConditionRoundTrip
import TriggerLogic.Proofs.FaultSpans
import TriggerLogic.Proofs.WholeTokens

namespace TriggerLogic

namespace Text

def Negates (text rest : Text) : Prop :=
  ∃ (lead word : Text) (c : Char), text = lead ++ word ++ c :: rest ∧ lead.AllBlank ∧ word.IsNot ∧
    isPlainBlank c = true ∧ ¬ rest.AllBlank

/-- What is shown of a clause that is written as `core`: no parentheses and no blanks, but for the
one behind a leading `not`. -/
def ShownAs (core shown : Text) : Prop :=
  (∃ rest, core.bare.Negates rest ∧ shown = ['n', 'o', 't', ' '] ++ compact rest) ∨
    (∀ rest, ¬ core.bare.Negates rest) ∧ shown = compact core.bare

theorem allBlank_bare {text : Text} (blank : text.AllBlank) : text.bare.AllBlank :=
  fun c member => blank c (List.mem_of_mem_filter member)

theorem IsNot.solid {word : Text} (isNot : word.IsNot) : word.Solid := by
  apply solid_of_forall (isKeyword_not.ne_nil_of_spelled isNot)
  intro c member
  exact isBlank_of_isAlpha (isNot.isAlpha c member)

theorem Negates.afterKeyword? {text rest : Text} (negates : text.Negates rest) :
    ∃ more, Text.afterKeyword? ['n', 'o', 't'] (trim text) = some more := by
  obtain ⟨lead, word, c, rfl, leadBlank, isNot, plain, visible⟩ := negates
  rcases allBlank_or_solid rest with blank | ⟨gap, core, tail, rfl, gapBlank, solid, tailBlank⟩
  · exact absurd blank visible
  · have joined := isNot.solid.append solid (c :: gap)
    have split : lead ++ word ++ c :: (gap ++ core ++ tail) =
        lead ++ (word ++ c :: gap ++ core) ++ tail := by simp
    rw [split, trim_of_solid leadBlank joined tailBlank, List.append_assoc, List.cons_append]
    exact ⟨_, afterKeyword?_not isNot plain _⟩

end Text

theorem ClauseSpelling.shownAs_text (core : Text) : core.ShownAs (ofPiece core).text := by
  rw [ofPiece_bare]
  cases found : Text.afterKeyword? ['n', 'o', 't'] (Text.trim core.bare) with
  | none =>
    right
    constructor
    · intro rest negates
      obtain ⟨more, some⟩ := negates.afterKeyword?
      rw [found] at some
      cases some
    · exact Text.compact_trim _
  | some rest =>
    left
    obtain ⟨word, c, more, trimmed, isNot, plain, rfl⟩ := Text.exists_of_afterKeyword?_not found
    obtain ⟨lead, tail, whole, leadBlank, tailBlank⟩ := Text.exists_trim core.bare
    have blank := Text.isBlank_of_isPlainBlank plain
    have split : core.bare = lead ++ word ++ c :: (more ++ tail) := by
      rw [whole, trimmed]
      simp
    refine ⟨more ++ tail, ⟨lead, word, c, split, leadBlank, isNot, plain, ?_⟩, ?_⟩
    · intro blanks
      have alone : Text.trim core.bare = word := by
        rw [split]
        exact Text.trim_of_solid leadBlank isNot.solid (List.forall_mem_cons.mpr ⟨blank, blanks⟩)
      rw [trimmed] at alone
      simp at alone
    · rw [Text.compact_append, Text.compact_of_allBlank tailBlank, List.append_nil]
      show _ ++ Text.compact (c :: more) = _
      rw [Text.compact_blank_cons blank]

structure Span.Within (inner outer : Span) : Prop where
  starts : outer.start ≤ inner.start
  ordered : inner.start ≤ inner.stop
  stops : inner.stop ≤ outer.stop

namespace Statement

variable (statement : Statement)

def byteAt (place : Nat) : Nat :=
  statement.rhsSpan.start + Text.byteLength (statement.rhs.take place)

def Has (start stop : Nat) (part : Text) : Prop :=
  ∃ before after, statement.rhs = before ++ part ++ after ∧
    start = statement.rhsSpan.start + Text.byteLength before ∧ stop = start + Text.byteLength part

def HasBlanks (start stop : Nat) : Prop :=
  ∃ blanks, statement.Has start stop blanks ∧ blanks.AllBlank

def HasAnd (start stop : Nat) : Prop :=
  ∃ before word after, statement.rhs = before ++ word ++ after ∧ Text.lower word = ['a', 'n', 'd'] ∧
    Text.tokenAt ['a', 'n', 'd'] statement.rhs before.length = true ∧
    start = statement.rhsSpan.start + Text.byteLength before ∧ stop = start + 3

structure Frames (start stop : Nat) (clause : Clause) : Prop where
  lead : statement.HasBlanks start clause.span.start
  nonempty : clause.span.start < clause.span.stop
  core : ∃ core, statement.Has clause.span.start clause.span.stop core ∧ core.ShownAs clause.text
  tail : statement.HasBlanks clause.span.stop stop

/-- Clauses one behind the other from `start` to `stop`, with an `and` between neighbours. -/
inductive Spread : Nat → Nat → List Clause → Prop
  | last {start stop : Nat} {clause : Clause} :
      statement.Frames start stop clause → Spread start stop [clause]
  | and {start before after stop : Nat} {clause : Clause} {clauses : List Clause} :
      statement.Frames start before clause → statement.HasAnd before after →
      Spread after stop clauses → Spread start stop (clause :: clauses)

def AndBetween (first second : Clause) : Prop :=
  ∃ start stop, statement.HasBlanks first.span.stop start ∧ statement.HasAnd start stop ∧
    statement.HasBlanks stop second.span.start

variable {statement} {start stop : Nat} {clauses : List Clause}

theorem byteAt_length {front rest : Text} (split : statement.rhs = front ++ rest) :
    statement.byteAt front.length = statement.rhsSpan.start + Text.byteLength front := by
  rw [byteAt, split, List.take_left]

theorem has_of_split {before part after : Text} (split : statement.rhs = before ++ part ++ after) :
    statement.Has (statement.rhsSpan.start + Text.byteLength before)
      (statement.rhsSpan.start + Text.byteLength (before ++ part)) part :=
  ⟨before, after, split, rfl, by rw [Text.byteLength_append]; omega⟩

theorem Has.le {part : Text} (has : statement.Has start stop part) : start ≤ stop := by
  obtain ⟨before, after, -, -, stops⟩ := has
  omega

theorem HasBlanks.le (blanks : statement.HasBlanks start stop) : start ≤ stop := by
  obtain ⟨part, has, -⟩ := blanks
  exact has.le

theorem HasAnd.lt (token : statement.HasAnd start stop) : start < stop := by
  obtain ⟨_, _, _, _, _, _, _, stops⟩ := token
  omega

theorem Frames.inside {clause : Clause} (frames : statement.Frames start stop clause) :
    start ≤ clause.span.start ∧ clause.span.start < clause.span.stop ∧ clause.span.stop ≤ stop :=
  ⟨frames.lead.le, frames.nonempty, frames.tail.le⟩

theorem Spread.le (spread : statement.Spread start stop clauses) : start ≤ stop := by
  induction spread with
  | last frames =>
    have inside := frames.inside
    omega
  | and frames token _ ih =>
    have inside := frames.inside
    have longer := token.lt
    omega

theorem Spread.ne_nil (spread : statement.Spread start stop clauses) : clauses ≠ [] := by
  cases spread with
  | last => exact List.cons_ne_nil _ _
  | and => exact List.cons_ne_nil _ _

theorem Spread.mem (spread : statement.Spread start stop clauses) :
    ∀ clause ∈ clauses, start ≤ clause.span.start ∧ clause.span.start < clause.span.stop ∧
      clause.span.stop ≤ stop ∧
      ∃ core, statement.Has clause.span.start clause.span.stop core ∧ core.ShownAs clause.text := by
  induction spread with
  | last frames =>
    have inside := frames.inside
    simp only [List.forall_mem_singleton]
    exact ⟨inside.1, inside.2.1, inside.2.2, frames.core⟩
  | and frames token rest ih =>
    have inside := frames.inside
    have longer := token.lt
    have further := rest.le
    rw [List.forall_mem_cons]
    refine ⟨⟨inside.1, inside.2.1, by omega, frames.core⟩, ?_⟩
    intro clause listed
    obtain ⟨starts, nonempty, stops, core⟩ := ih clause listed
    exact ⟨by omega, nonempty, stops, core⟩

theorem Spread.pairwise (spread : statement.Spread start stop clauses) :
    clauses.Pairwise fun first second => first.span.stop < second.span.start := by
  induction spread with
  | last => exact List.pairwise_singleton _ _
  | and frames token rest ih =>
    have inside := frames.inside
    have longer := token.lt
    refine .cons ?_ ih
    intro clause listed
    have starts := (rest.mem clause listed).1
    omega

theorem Spread.head (spread : statement.Spread start stop clauses) :
    ∀ clause ∈ clauses.head?, statement.HasBlanks start clause.span.start := by
  cases spread with
  | last frames =>
    rintro _ ⟨⟩
    exact frames.lead
  | and frames =>
    rintro _ ⟨⟩
    exact frames.lead

theorem Spread.getLast (spread : statement.Spread start stop clauses) :
    ∀ clause ∈ clauses.getLast?, statement.HasBlanks clause.span.stop stop := by
  induction spread with
  | last frames =>
    rintro _ ⟨⟩
    exact frames.tail
  | and _ _ rest ih =>
    intro clause last
    rw [List.getLast?_cons_of_ne_nil rest.ne_nil] at last
    exact ih clause last

theorem Spread.chain (spread : statement.Spread start stop clauses) :
    clauses.IsChain statement.AndBetween := by
  induction spread with
  | last => exact .singleton _
  | and frames token rest ih =>
    obtain ⟨next, others, rfl⟩ := List.exists_cons_of_ne_nil rest.ne_nil
    exact .cons_cons ⟨_, _, frames.tail, token, rest.head next rfl⟩ ih

end Statement

namespace Condition

def startPlace (rhs : Text) : Nat :=
  match Text.firstToken? ['w', 'h', 'e', 'n'] rhs 0 with
  | some place => place + 4
  | none => 0

def stopPlace (rhs : Text) : Nat :=
  (Text.firstToken? ['e', 'l', 's', 'e'] rhs (startPlace rhs)).getD rhs.length

theorem exists_startPlace (rhs : Text) :
    ∃ front, rhs = front ++ (afterWhen rhs).text ∧
      (afterWhen rhs).offset = Text.byteLength front ∧
      (afterWhen rhs).opened = front.getLast?.all Text.isDelimiter ∧
      front.length = startPlace rhs := by
  have first : Text.firstToken? ['w', 'h', 'e', 'n'] rhs 0 =
      (Text.cutKeyword? ['w', 'h', 'e', 'n'] true rhs).map fun parts => parts.1.length :=
    Text.firstToken?_append ['w', 'h', 'e', 'n'] [] rhs
  unfold afterWhen startPlace
  rw [first]
  cases cut : Text.cutKeyword? ['w', 'h', 'e', 'n'] true rhs with
  | none => exact ⟨[], rfl, rfl, rfl, rfl⟩
  | some parts =>
    obtain ⟨before, rest⟩ := parts
    obtain ⟨word, rfl, spelled⟩ := Text.cutKeyword?_eq_some cut
    have lengths : word.length = 4 := Text.length_of_spelled spelled
    refine ⟨before ++ word, rfl, ?_, ?_, ?_⟩
    · rw [Text.byteLength_append, byteLength_keyword Text.isKeyword_when spelled]
      rfl
    · rw [Text.getLast?_keyword Text.isKeyword_when spelled]
    · simp [lengths]

theorem exists_stopPlace (rhs : Text) :
    ∃ front back, rhs = front ++ (extent rhs).text ++ back ∧
      (extent rhs).offset = Text.byteLength front ∧
      (extent rhs).opened = front.getLast?.all Text.isDelimiter ∧
      front.length = startPlace rhs ∧ (front ++ (extent rhs).text).length = stopPlace rhs ∧
      (back = [] ∨ (front ++ (extent rhs).text).getLast?.all Text.isDelimiter = true) := by
  obtain ⟨front, split, offset, opened, start⟩ := exists_startPlace rhs
  have first := Text.firstToken?_append ['e', 'l', 's', 'e'] front (afterWhen rhs).text
  rw [← split, start, ← opened] at first
  unfold extent stopPlace
  simp only [first]
  cases cut : Text.cutKeyword? ['e', 'l', 's', 'e'] (afterWhen rhs).opened (afterWhen rhs).text with
  | none =>
    refine ⟨front, [], ?_, offset, opened, start, ?_, .inl rfl⟩
    · rw [List.append_nil, ← split]
    · rw [← split]
      rfl
  | some parts =>
    obtain ⟨before, rest⟩ := parts
    obtain ⟨word, whole, spelled⟩ := Text.cutKeyword?_eq_some cut
    refine ⟨front, word ++ rest, ?_, offset, opened, start, rfl, .inr ?_⟩
    · rw [List.append_assoc, ← List.append_assoc before, ← whole, ← split]
    · rw [opened] at cut
      have found := (Text.tokenAt_of_cut cut).1
      rw [whole, List.append_assoc before, ← List.append_assoc front, Text.tokenAt_length,
        Bool.and_eq_true] at found
      exact found.1

section Run

variable {layout : Layout} {output : Text} {statement : Statement}
  (short : statement.rhsSpan.start + Text.byteLength statement.rhs < Span.offsetBound)

include short

theorem frames_of_read {front piece back : Text} (split : statement.rhs = front ++ piece ++ back)
    {clause : Clause}
    (found : Clause.read layout output
      (pieceSpan (statement.rhsSpan.start + Text.byteLength front) piece) piece = .ok clause) :
    statement.Frames (statement.rhsSpan.start + Text.byteLength front)
      (statement.rhsSpan.start + Text.byteLength (front ++ piece)) clause := by
  have span := Clause.span_of_read found
  have text := Clause.text_of_read found
  rcases Text.allBlank_or_solid piece with blank | ⟨lead, core, tail, rfl, leadBlank, solid, tailBlank⟩
  · have nothing : ClauseSpelling.ofPiece (piece ++ [] ++ []) = ClauseSpelling.ofPiece [] :=
      ClauseSpelling.ofPiece_between (Text.allBlank_bare blank) (by decide) []
    rw [List.append_nil, List.append_nil] at nothing
    apply absurd _ (Clause.read_eq_ok_iff.mp found).1
    rw [nothing]
    rfl
  · rw [ClauseSpelling.ofPiece_between (Text.allBlank_bare leadBlank) (Text.allBlank_bare tailBlank)]
      at text
    have positive := Text.byteLength_pos solid.ne_nil
    have place : clause.span = ⟨statement.rhsSpan.start + Text.byteLength (front ++ lead),
        statement.rhsSpan.start + Text.byteLength (front ++ lead ++ core)⟩ := by
      rw [split] at short
      simp only [Text.byteLength_append] at short ⊢
      rw [span, pieceSpan_of_solid leadBlank solid tailBlank, Text.byteLength_append,
        Span.between_eq (by omega) (by omega)]
      simp only [Nat.add_assoc]
    simp only [← List.append_assoc] at split ⊢
    constructor
    · rw [place]
      refine ⟨lead, @Statement.has_of_split statement front lead (core ++ tail ++ back) ?_, leadBlank⟩
      simpa only [← List.append_assoc] using split
    · rw [place]
      simp only [Text.byteLength_append]
      omega
    · rw [place, text]
      refine ⟨core, @Statement.has_of_split statement (front ++ lead) core (tail ++ back) ?_,
        ClauseSpelling.shownAs_text core⟩
      simpa only [← List.append_assoc] using split
    · rw [place]
      exact ⟨tail, Statement.has_of_split split, tailBlank⟩

/-- The clauses of the pieces fill the text that the pieces make up. -/
theorem spread_of_readPieces {front text back : Text} (split : statement.rhs = front ++ text ++ back)
    (apart : back = [] ∨ (front ++ text).getLast?.all Text.isDelimiter = true)
    {clauses : List Clause}
    (found : readPieces layout output (statement.rhsSpan.start + Text.byteLength front)
      (Text.pieces ['a', 'n', 'd'] (front.getLast?.all Text.isDelimiter) text) = .ok clauses) :
    statement.Spread (statement.rhsSpan.start + Text.byteLength front)
      (statement.rhsSpan.start + Text.byteLength (front ++ text)) clauses := by
  induction length : text.length using Nat.strongRecOn generalizing front text clauses with
  | _ n ih =>
    rw [Text.pieces_eq _ _ _ Text.isKeyword_and.nonempty] at found
    cases cut : Text.cutKeyword? ['a', 'n', 'd'] (front.getLast?.all Text.isDelimiter) text with
    | none =>
      rw [cut] at found
      unfold readPieces at found
      split at found
      · cases found
      · rename_i clause first
        cases found
        exact .last (frames_of_read short split first)
    | some parts =>
      obtain ⟨before, after⟩ := parts
      rw [cut] at found
      unfold readPieces at found
      split at found
      · cases found
      · rename_i clause first
        obtain ⟨others, rest, rfl⟩ := map_eq_ok_iff.mp found
        obtain ⟨word, rfl, spelled⟩ := Text.cutKeyword?_eq_some cut
        have size : Text.byteLength word = 3 := byteLength_keyword Text.isKeyword_and spelled
        have positive := List.length_pos_iff.mpr (Text.isKeyword_and.ne_nil_of_spelled spelled)
        have token := (Text.tokenAt_of_cut cut).1
        rw [← Text.tokenAt_append Text.isKeyword_and apart
          (by simp only [List.length_append]; omega), ← split] at token
        simp only [← List.append_assoc] at split apart ⊢
        have stops : statement.rhsSpan.start + Text.byteLength front + Text.byteLength before + 3 =
            statement.rhsSpan.start + Text.byteLength (front ++ before ++ word) := by
          rw [Text.byteLength_append, Text.byteLength_append, size]
          omega
        rw [stops, ← Text.getLast?_keyword Text.isKeyword_and spelled (front ++ before)] at rest
        refine .and (@frames_of_read layout output statement short front before
            (word ++ after ++ back) ?_ clause first)
          ⟨front ++ before, word, after ++ back, ?_, spelled, token, rfl, ?_⟩
          (ih after.length ?_ split apart rest rfl)
        · simpa only [← List.append_assoc] using split
        · simpa only [← List.append_assoc] using split
        · rw [← stops, Text.byteLength_append]
          omega
        · simp only [List.length_append] at length
          omega

end Run

/-- The clauses are what the condition is made of, and their spans say where each of them stands. -/
structure Covered (statement : Statement) (clauses : List Clause) : Prop where
  count : clauses.length = Text.countTokens ['a', 'n', 'd'] statement.rhs (startPlace statement.rhs)
    (stopPlace statement.rhs) + 1
  places : ∀ clause ∈ clauses, statement.byteAt (startPlace statement.rhs) ≤ clause.span.start ∧
    clause.span.start < clause.span.stop ∧
    clause.span.stop ≤ statement.byteAt (stopPlace statement.rhs) ∧
    ∃ core, statement.Has clause.span.start clause.span.stop core ∧ core.ShownAs clause.text
  ordered : clauses.Pairwise fun first second => first.span.stop < second.span.start
  joined : clauses.IsChain statement.AndBetween
  lead : ∀ clause ∈ clauses.head?,
    statement.HasBlanks (statement.byteAt (startPlace statement.rhs)) clause.span.start
  tail : ∀ clause ∈ clauses.getLast?,
    statement.HasBlanks clause.span.stop (statement.byteAt (stopPlace statement.rhs))

section Whole

theorem pieceSpan_within {piece : Text} {offset : Nat}
    (short : offset + Text.byteLength piece < Span.offsetBound) :
    (pieceSpan offset piece).Within ⟨offset, offset + Text.byteLength piece⟩ := by
  rcases Text.allBlank_or_solid piece with blank | ⟨lead, core, tail, rfl, leadBlank, solid, tailBlank⟩
  · rw [pieceSpan_of_allBlank blank, Span.between_eq (Nat.le_refl _) short]
    exact ⟨Nat.le_add_right _ _, Nat.le_refl _, Nat.le_refl _⟩
  · simp only [Text.byteLength_append] at short ⊢
    rw [pieceSpan_of_solid leadBlank solid tailBlank, Text.byteLength_append,
      Span.between_eq (by omega) (by omega)]
    exact ⟨Nat.le_add_right _ _, by simp only; omega, by simp only; omega⟩

variable {layout : Layout} {statement : Statement}
  (short : statement.rhsSpan.start + Text.byteLength statement.rhs < Span.offsetBound)

include short

theorem covered_of_read {clauses : List Clause} (found : read layout statement = .ok clauses) :
    Covered statement clauses := by
  rw [read] at found
  split at found
  · cases found
  · obtain ⟨front, back, split, offset, opened, start, stop, apart⟩ := exists_stopPlace statement.rhs
    simp only [offset, opened] at found
    have spread := spread_of_readPieces short split apart found
    rw [← Statement.byteAt_length split, stop,
      ← Statement.byteAt_length (split.trans (List.append_assoc _ _ _)), start] at spread
    refine ⟨?_, spread.mem, spread.pairwise, spread.chain, spread.head, spread.getLast⟩
    rw [← start, ← stop, ← (forall₂_of_readPieces found).length_eq,
      Text.length_pieces_eq_countTokens Text.isKeyword_and apart, ← split]

theorem within_of_refused {fault : SourceFault} (refused : read layout statement = .error fault)
    (covers : statement.rhsSpan.stop = statement.rhsSpan.start + Text.byteLength statement.rhs) :
    fault.span = statement.span ∨ fault.span.Within statement.rhsSpan := by
  rw [read] at refused
  split at refused
  · cases refused
    exact .inl rfl
  · right
    obtain ⟨front, piece, back, text, same, -⟩ :=
      exists_of_mem_pieceSpans (span_of_refused_pieces refused)
    obtain ⟨lead, trail, split, offset, -⟩ := exists_extent statement.rhs
    have lengths := congrArg Text.byteLength split
    rw [text] at lengths
    simp only [Text.byteLength_append] at lengths
    rw [same, offset]
    have bounds := @pieceSpan_within piece
      (statement.rhsSpan.start + Text.byteLength lead + Text.byteLength front) (by omega)
    obtain ⟨starts, ordered, stops⟩ := bounds
    simp only at starts stops
    exact ⟨by omega, ordered, by omega⟩

end Whole

/-- The clauses that are read cover the condition, and a fault lies in the statement. -/
theorem clauses_cover_condition (layout : Layout) {statement : Statement}
    (covers : statement.rhsSpan.stop = statement.rhsSpan.start + Text.byteLength statement.rhs)
    (short : statement.rhsSpan.stop < Span.offsetBound) :
    (∀ clauses, read layout statement = .ok clauses → Covered statement clauses) ∧
      ∀ fault, read layout statement = .error fault →
        fault.span = statement.span ∨ fault.span.Within statement.rhsSpan := by
  rw [covers] at short
  constructor
  · intro clauses found
    exact covered_of_read short found
  · intro fault refused
    exact within_of_refused short refused covers

def spacedRhs : Text :=
  "'1' when a\u00a0)And(not (a) and \u3000f > 2 else '0'".toList

def spacedClauses : List Clause :=
  [⟨.literal ⟨0, false⟩, "a".toList, ⟨13, 17⟩⟩, ⟨.literal ⟨0, true⟩, "not a".toList, ⟨20, 28⟩⟩,
    ⟨.compare .above ⟨['f'], 1, 2⟩ 2, "f>2".toList, ⟨36, 41⟩⟩]

def gapRhs : Text :=
  "a and \u3000 and f".toList

theorem spacedRhs_covered :
    read bitAndPair (sampleStatement spacedRhs) = .ok spacedClauses ∧
      Covered (sampleStatement spacedRhs) spacedClauses ∧
      read bitAndPair (sampleStatement gapRhs) = .error (.malformedAssignment ['y'] ⟨14, 14⟩) ∧
      Span.Within ⟨14, 14⟩ (sampleStatement gapRhs).rhsSpan := by
  have accepted : read bitAndPair (sampleStatement spacedRhs) = .ok spacedClauses := by decide
  have refused : read bitAndPair (sampleStatement gapRhs) =
      .error (.malformedAssignment ['y'] ⟨14, 14⟩) := by decide
  have covered := (clauses_cover_condition bitAndPair (by decide) (by decide)).1 _ accepted
  have faulty := (clauses_cover_condition bitAndPair (by decide) (by decide)).2 _ refused
  exact ⟨accepted, covered, refused, faulty.resolve_left (by decide)⟩

end Condition

end TriggerLogic
