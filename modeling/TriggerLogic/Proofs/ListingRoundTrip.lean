import TriggerLogic.Decision.Printout
import TriggerLogic.Proofs.InputBits
import TriggerLogic.Proofs.TextRoundTrip

namespace TriggerLogic

theorem Literal.mem_text {literal : Literal} {c : Char} (member : c ∈ literal.text) :
    c = '!' ∨ c.isDigit = true := by
  unfold Literal.text at member
  split at member
  · rcases List.mem_cons.mp member with mark | digit
    · exact .inl mark
    · exact .inr (Text.isDigit_of_mem_decimal digit)
  · exact .inr (Text.isDigit_of_mem_decimal member)

theorem Literal.solid_text (literal : Literal) : literal.text.Solid := by
  apply Text.solid_of_forall
  · unfold Literal.text
    split
    · exact List.cons_ne_nil _ _
    · exact Text.decimal_ne_nil _
  · intro c member
    rcases Literal.mem_text member with rfl | digit
    · decide
    · exact Text.isBlank_of_isDigit digit

theorem Product.mem_text {product : Product} {c : Char} (member : c ∈ product.text) :
    c = ' ' ∨ c = '*' ∨ c = '!' ∨ c.isDigit = true := by
  rcases Text.mem_spaced_join member with space | star | ⟨literal, -, inLiteral⟩
  · exact .inl space
  · exact .inr (.inl star)
  · exact .inr (.inr (Literal.mem_text inLiteral))

theorem Product.solid_text {product : Product} (nonempty : product ≠ []) : product.text.Solid := by
  apply Text.solid_join (by simpa using nonempty)
  exact List.forall_mem_map.mpr fun literal _ => literal.solid_text

theorem SumOfProducts.mem_text {sum : SumOfProducts} {c : Char} (member : c ∈ sum.text) :
    c = ' ' ∨ c = '+' ∨ c = '*' ∨ c = '!' ∨ c.isDigit = true := by
  rcases Text.mem_spaced_join member with space | plus | ⟨product, -, inProduct⟩
  · exact .inl space
  · exact .inr (.inl plus)
  · rcases Product.mem_text inProduct with space | rest
    · exact .inl space
    · exact .inr (.inr rest)

theorem SumOfProducts.solid_text {sum : SumOfProducts} {allowed : Nat → Prop} (nonempty : sum ≠ [])
    (covered : sum.Over allowed) : sum.text.Solid := by
  apply Text.solid_join (by simpa using nonempty)
  exact List.forall_mem_map.mpr fun product member => Product.solid_text (covered product member).1

/-- A line that can be read back: it has products, none of them is empty, and its numbers are
indices. -/
structure ListingLine.Readable (line : ListingLine) : Prop where
  bit : line.bit < indexBound
  nonempty : line.sum ≠ []
  covered : line.sum.Over (· < indexBound)

namespace Listing

theorem readLiteral_text {literal : Literal} (small : literal.bit < indexBound) {lead tail : Text}
    (blankLead : lead.AllBlank) (blankTail : tail.AllBlank) :
    readLiteral (lead ++ literal.text ++ tail) = .ok literal := by
  have trimmed := Text.trim_of_solid blankLead literal.solid_text blankTail
  unfold readLiteral
  rw [trimmed]
  obtain ⟨bit, negated⟩ := literal
  cases negated with
  | true => simp [Literal.text, Text.numberBelow?_decimal small]
  | false =>
    have plain : (Text.decimal bit).head? ≠ some '!' := by
      intro first
      exact Text.not_mem_decimal bit (by decide) (List.mem_of_head? first)
    simp [Literal.text, Text.numberBelow?_decimal small, plain]

theorem readProduct_text {product : Product} (covered : product.Over (· < indexBound))
    {lead tail : Text} (blankLead : lead.AllBlank) (blankTail : tail.AllBlank) :
    readProduct (lead ++ product.text ++ tail) = .ok product := by
  rw [readProduct, mapM_eq_ok_iff]
  apply Text.forall₂_splitOn_join (by decide) covered.1 _ _ blankLead blankTail
  · intro literal _ member
    rcases Literal.mem_text member with same | digit
    · exact absurd same (by decide)
    · exact absurd digit (by decide)
  · intro literal member lead tail blankLead blankTail
    exact readLiteral_text (covered.2 literal member) blankLead blankTail

theorem readSum_text {sum : SumOfProducts} (nonempty : sum ≠ []) (covered : sum.Over (· < indexBound)) :
    readSum sum.text = .ok sum := by
  rw [readSum, mapM_eq_ok_iff]
  have parts : List.Forall₂ (fun part product => readProduct part = .ok product)
      (([] ++ sum.text ++ []).splitOn '+') sum := by
    apply Text.forall₂_splitOn_join (by decide) nonempty _ _ Text.allBlank_nil Text.allBlank_nil
    · intro product _ member
      rcases Product.mem_text member with same | same | same | digit
      · exact absurd same (by decide)
      · exact absurd same (by decide)
      · exact absurd same (by decide)
      · exact absurd digit (by decide)
    · intro product member lead tail blankLead blankTail
      exact readProduct_text (covered product member) blankLead blankTail
  simpa using parts

def lineBody (line : ListingLine) : Text :=
  Text.decimal line.bit ++ [' ', ':', ' '] ++ (['('] ++ ([' '] ++ line.sum.text ++ [' ']) ++ [')'])

theorem text_eq_lineBody (line : ListingLine) : line.text = lineBody line ++ ['\n'] := by
  simp [ListingLine.text, lineBody]

theorem lineBody_no_break {line : ListingLine} {c : Char} (member : c ∈ lineBody line) :
    c ≠ '\n' ∧ c ≠ '\r' := by
  have plain : c = ' ' ∨ c = ':' ∨ c = '(' ∨ c = ')' ∨ c = '+' ∨ c = '*' ∨ c = '!' ∨
      c.isDigit = true := by
    simp only [lineBody, List.mem_append, List.mem_cons, List.not_mem_nil, or_false] at member
    rcases member with (digit | mark) | ((mark | (mark | inSum) | mark) | mark)
    · simp [Text.isDigit_of_mem_decimal digit]
    · rcases mark with rfl | rfl | rfl <;> simp
    · simp [mark]
    · simp [mark]
    · rcases SumOfProducts.mem_text inSum with same | same | same | same | digit
      · simp [same]
      · simp [same]
      · simp [same]
      · simp [same]
      · simp [digit]
    · simp [mark]
    · simp [mark]
  constructor
  · rintro rfl
    revert plain
    decide
  · rintro rfl
    revert plain
    decide

theorem solid_lineBody (line : ListingLine) : (lineBody line).Solid :=
  (Text.solid_decimal line.bit).append (Text.solid_group _) _

theorem unwrap?_group (inner : Text) : unwrap? (['('] ++ inner ++ [')']) = some inner := by
  have opened : Text.afterLead? ['('] (['('] ++ inner ++ [')']) = some (inner ++ [')']) := by
    simp [Text.afterLead?]
  have closed : Text.beforeTail? [')'] (inner ++ [')']) = some inner := by
    have ends : List.isSuffixOf [')'] (inner ++ [')']) = true :=
      List.isSuffixOf_iff_suffix.mpr (List.suffix_append _ _)
    simp [Text.beforeTail?, ends]
  rw [unwrap?, opened, Option.bind_some, closed]

theorem readLine_lineBody {line : ListingLine} (readable : line.Readable) :
    readLine (lineBody line) = .ok line := by
  have space : ' ' ∉ Text.decimal line.bit := Text.not_mem_decimal line.bit (by decide)
  have inner : Text.trim ([' '] ++ line.sum.text ++ [' ']) = line.sum.text :=
    Text.trim_of_solid Text.allBlank_space
      (SumOfProducts.solid_text readable.nonempty readable.covered) Text.allBlank_space
  rw [readLine, lineBody, Text.cut?_append space]
  simp only [Text.trim_solid (Text.solid_decimal line.bit), Text.numberBelow?_decimal readable.bit,
    Text.trim_solid (Text.solid_group _), unwrap?_group, inner, readSum_text readable.nonempty readable.covered]
  rfl

theorem readFrom_lineBodies {lines : List ListingLine} (readable : ∀ line ∈ lines, line.Readable)
    (number : Nat) : readFrom number (lines.map lineBody) = .ok lines := by
  induction lines generalizing number with
  | nil => rfl
  | cons line lines ih =>
    rw [List.forall_mem_cons] at readable
    have solid := solid_lineBody line
    have present : (Text.trim (lineBody line)).isEmpty = false := by
      rw [Text.trim_solid solid, List.isEmpty_eq_false_iff]
      exact solid.ne_nil
    rw [List.map_cons, readFrom, present, readLine_lineBody readable.1, ih readable.2]
    rfl

theorem lines_text (lines : List ListingLine) :
    (Text.lines (text lines)).map Text.withoutLineEnd = lines.map lineBody := by
  have shape : text lines = lines.flatMap fun line => lineBody line ++ ['\n'] :=
    List.flatMap_congr fun line _ => text_eq_lineBody line
  rw [shape, Text.lines_flatMap_lineFeed fun line _ member => (lineBody_no_break member).1 rfl,
    List.map_map]
  apply List.map_congr_left
  intro line _
  apply Text.withoutLineEnd_lineFeed
  intro last
  exact (lineBody_no_break (List.mem_of_getLast? last)).2 rfl

/-- Reading a printed listing gives its lines back. -/
theorem read_text {lines : List ListingLine} (readable : ∀ line ∈ lines, line.Readable) :
    read (text lines) = .ok lines := by
  rw [read, lines_text, readFrom_lineBodies readable]

end Listing

namespace DecisionTable

structure InIndexRange (table : DecisionTable) : Prop where
  inputs : table.layout.totalBits ≤ indexBound
  outputs : table.outputs.length ≤ indexBound

theorem decided_ascending (table : DecisionTable) :
    table.decided.Pairwise fun first second => first.1 < second.1 := by
  have places : table.outputs.zipIdx.Pairwise fun first second => first.2 < second.2 := by
    apply List.pairwise_map.mp
    rw [List.zipIdx_map_snd]
    exact List.pairwise_lt_range'
  rw [decided, List.pairwise_filterMap]
  apply places.imp
  intro first second order entry found later foundLater
  obtain ⟨_, -, rfl⟩ := Option.map_eq_some_iff.mp found
  obtain ⟨_, -, rfl⟩ := Option.map_eq_some_iff.mp foundLater
  exact order

theorem mem_algebra_iff (table : DecisionTable) (bit : Nat) (sum : SumOfProducts) :
    ⟨bit, sum⟩ ∈ table.algebra ↔
      ∃ output decision, table.outputs[bit]? = some output ∧ output.decision = some decision ∧
        decision.sum = sum := by
  rw [algebra, List.mem_map]
  constructor
  · rintro ⟨⟨place, name, decision⟩, listed, same⟩
    obtain ⟨rfl, rfl⟩ := ListingLine.mk.inj same
    exact ⟨_, decision, (mem_decided_iff table place name decision).mp listed, rfl, rfl⟩
  · rintro ⟨⟨name, _⟩, decision, placed, rfl, rfl⟩
    exact ⟨(bit, name, decision), (mem_decided_iff table bit name decision).mpr placed, rfl⟩

theorem readable_algebra {markers : Markers} {source : Text} {table : DecisionTable}
    (accepted : ofSource markers source = .ok table) (inRange : table.InIndexRange) :
    ∀ line ∈ table.algebra, line.Readable := by
  rw [algebra, List.forall_mem_map]
  rintro ⟨bit, name, decision⟩ listed
  have placed := placed_of_ofSource accepted
  have expanded := expanded_of_decided accepted listed
  obtain ⟨inside, -⟩ := List.getElem?_eq_some_iff.mp ((mem_decided_iff table bit name decision).mp listed)
  constructor
  · exact Nat.lt_of_lt_of_le inside inRange.outputs
  · exact expanded.sum_ne_nil
  · exact (expanded.sum_over placed).mono fun bit small => Nat.lt_of_lt_of_le small inRange.inputs

theorem evaluate_undecided {table : DecisionTable} {bit : Nat} {output : Output}
    (placed : table.outputs[bit]? = some output) (undecided : output.decision = none)
    (input : List Bool) : (table.evaluate input)[bit]? = some false := by
  rw [evaluate, List.getElem?_map, placed, Option.map_some, Output.value, undecided]
  rfl

/-- The algebra of an accepted source is read back as it was, one line for each decided output, and
says for every input what the outputs are. -/
theorem algebra_reads_back {markers : Markers} {source : Text} {table : DecisionTable}
    (accepted : ofSource markers source = .ok table) (inRange : table.InIndexRange) :
    ∃ lines, Listing.read (Listing.text table.algebra) = .ok lines ∧
      (lines.Pairwise fun first second => first.bit < second.bit) ∧
      (∀ bit sum, ⟨bit, sum⟩ ∈ lines ↔
        ∃ output decision, table.outputs[bit]? = some output ∧ output.decision = some decision ∧
          decision.sum = sum) ∧
      ∀ input,
        (∀ line ∈ lines, (table.evaluate input)[line.bit]? = some (line.holds input)) ∧
        ∀ bit < table.outputs.length, (∀ line ∈ lines, line.bit ≠ bit) →
          (table.evaluate input)[bit]? = some false := by
  refine ⟨table.algebra, Listing.read_text (readable_algebra accepted inRange),
    List.pairwise_map.mpr table.decided_ascending, mem_algebra_iff table, ?_⟩
  intro input
  constructor
  · rw [algebra, List.forall_mem_map]
    rintro ⟨bit, name, decision⟩ listed
    exact evaluate_decided listed input
  · intro bit inside unlisted
    obtain ⟨output, placed⟩ : ∃ output, table.outputs[bit]? = some output :=
      ⟨_, List.getElem?_eq_getElem inside⟩
    cases decides : output.decision with
    | none => exact evaluate_undecided placed decides input
    | some decision =>
      have listed := (mem_algebra_iff table bit decision.sum).mpr ⟨output, decision, placed, decides, rfl⟩
      exact absurd rfl (unlisted _ listed)

theorem sample_algebra_reads_back :
    sampleTable.InIndexRange ∧
      ∃ lines, Listing.read (Listing.text sampleTable.algebra) = .ok lines ∧
        ∀ input, ∀ line ∈ lines, (sampleTable.evaluate input)[line.bit]? = some (line.holds input) := by
  have inRange : sampleTable.InIndexRange := ⟨by decide, by decide⟩
  obtain ⟨lines, back, -, -, agree⟩ := algebra_reads_back ofSource_sample inRange
  exact ⟨inRange, lines, back, fun input => (agree input).1⟩

end DecisionTable

end TriggerLogic
