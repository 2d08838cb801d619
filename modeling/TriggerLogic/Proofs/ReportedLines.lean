import TriggerLogic.Fault
import TriggerLogic.Proofs.BodyText
import TriggerLogic.Proofs.FaultSpans
import TriggerLogic.Report.Layout

namespace TriggerLogic

namespace Text

section Bytes

theorem high_or {low high : UInt8} (large : 128 ≤ high) : 128 ≤ low ||| high := by
  rw [UInt8.le_iff_toNat_le] at large ⊢
  rw [UInt8.toNat_or]
  exact Nat.le_trans large Nat.right_le_or

theorem high_of_wide {c : Char} (wide : c.utf8Size ≠ 1) :
    ∀ byte ∈ String.utf8EncodeChar c, 128 ≤ byte := by
  rcases c.utf8Size_eq with one | two | three | four
  · exact absurd one wide
  · simp [String.utf8EncodeChar_eq_cons_cons two, high_or]
  · simp [String.utf8EncodeChar_eq_cons_cons_cons three, high_or]
  · simp [String.utf8EncodeChar_eq_cons_cons_cons_cons four, high_or]

theorem count_encode (c : Char) :
    (String.utf8EncodeChar c).count '\n'.toUInt8 = [c].count '\n' := by
  by_cases narrow : c.utf8Size = 1
  · have small : c.val.toNat ≤ 127 :=
      UInt32.le_iff_toNat_le.mp (Char.utf8Size_eq_one_iff.mp narrow)
    have same : c.val.toUInt8 = '\n'.toUInt8 ↔ c = '\n' := by
      rw [← UInt8.toNat_inj, ← Char.val_inj, ← UInt32.toNat_inj, UInt32.toNat_toUInt8]
      change c.val.toNat % 256 = 10 ↔ c.val.toNat = 10
      omega
    rw [String.utf8EncodeChar_eq_singleton narrow]
    simp only [List.count_singleton, beq_iff_eq, same]
  · have other : c ≠ '\n' := by
      rintro rfl
      exact narrow (by decide)
    have absent : '\n'.toUInt8 ∉ String.utf8EncodeChar c := by
      intro member
      exact absurd (high_of_wide narrow _ member) (by decide)
    rw [List.count_eq_zero_of_not_mem absent, List.count_singleton, if_neg (by simpa using other)]

theorem bytes_append (first second : Text) : bytes (first ++ second) = bytes first ++ bytes second :=
  List.flatMap_append

theorem length_bytes (text : Text) : (bytes text).length = byteLength text := by
  induction text with
  | nil => rfl
  | cons c text ih =>
    rw [bytes, List.flatMap_cons, List.length_append, String.length_utf8EncodeChar, byteLength]
    exact congrArg (c.utf8Size + ·) ih

theorem count_bytes (text : Text) : (bytes text).count '\n'.toUInt8 = text.count '\n' := by
  induction text with
  | nil => rfl
  | cons c text ih =>
    have whole : (c :: text).count '\n' = [c].count '\n' + text.count '\n' :=
      @List.count_append Char _ '\n' [c] text
    rw [bytes, List.flatMap_cons, List.count_append, count_encode, whole]
    exact congrArg ([c].count '\n' + ·) ih

theorem take_bytes (before after : Text) :
    (bytes (before ++ after)).take (byteLength before) = bytes before := by
  rw [bytes_append, ← length_bytes, List.take_left]

theorem byteLength_eq_length {text : Text} (low : ∀ byte ∈ bytes text, byte < 128) :
    byteLength text = text.length := by
  induction text with
  | nil => rfl
  | cons c text ih =>
    rw [bytes, List.flatMap_cons, List.forall_mem_append] at low
    have narrow : c.utf8Size = 1 := by
      by_contra wide
      obtain ⟨byte, rest, encoded⟩ := List.exists_cons_of_ne_nil (@String.utf8EncodeChar_ne_nil c)
      have member : byte ∈ String.utf8EncodeChar c := by rw [encoded]; exact List.mem_cons_self
      exact UInt8.not_lt.mpr (high_of_wide wide byte member) (low.1 byte member)
    rw [byteLength, narrow, ih low.2, List.length_cons, Nat.add_comm]

theorem length_le_byteLength (text : Text) : text.length ≤ byteLength text := by
  induction text with
  | nil => exact Nat.le_refl 0
  | cons c text ih =>
    have positive := c.utf8Size_pos
    rw [byteLength, List.length_cons]
    omega

end Bytes

/-- The line of the byte at `place`: one more than the line feeds among the bytes before it. -/
def lineOfByte (text : Text) (place : Nat) : Nat :=
  1 + ((bytes text).take place).count '\n'.toUInt8

/-- The line of the character at `place`. Behind the last character no new line begins. -/
def lineOfCharacter (text : Text) (place : Nat) : Nat :=
  1 + (text.dropLast.take place).count '\n'

theorem lineOfByte_append (before after : Text) :
    lineOfByte (before ++ after) (byteLength before) = 1 + before.count '\n' := by
  rw [lineOfByte, take_bytes, count_bytes]

theorem lineOfByte_le_lineOfCharacter {before after : Text} (more : after ≠ []) :
    lineOfByte (before ++ after) (byteLength before) ≤
      lineOfCharacter (before ++ after) (byteLength before) := by
  rw [lineOfByte_append, lineOfCharacter, List.dropLast_append_of_ne_nil more, List.take_append,
    List.take_of_length_le (length_le_byteLength before), List.count_append]
  omega

theorem lineOfCharacter_of_narrow {before after : Text} (more : after ≠ [])
    (narrow : byteLength before = before.length) :
    lineOfCharacter (before ++ after) (byteLength before) =
      lineOfByte (before ++ after) (byteLength before) := by
  rw [lineOfByte_append, lineOfCharacter, List.dropLast_append_of_ne_nil more, narrow, List.take_left]

/-- A text is a line without an end, or a line feed ends its first line and another text follows. -/
theorem line_induction {motive : Text → Prop} (last : ∀ line, '\n' ∉ line → motive line)
    (cons : ∀ line rest, '\n' ∉ line → motive rest → motive (line ++ '\n' :: rest)) (text : Text) :
    motive text := by
  induction size : text.length using Nat.strong_induction_on generalizing text with
  | h size ih =>
    by_cases feed : '\n' ∈ text
    · obtain ⟨line, rest, rfl, single⟩ := List.eq_append_cons_of_mem feed
      rw [List.length_append, List.length_cons] at size
      exact cons line rest single (ih rest.length (by omega) rest rfl)
    · exact last text feed

theorem first_mark_inj {mark : Char} {first second rest other : Text}
    (same : first ++ mark :: rest = second ++ mark :: other) (clear : mark ∉ first)
    (free : mark ∉ second) : first = second ∧ rest = other := by
  have cuts : ∀ {before after : Text}, mark ∉ before →
      cut? [mark] (before ++ mark :: after) = some (before, after) := by
    intro before after clear
    rw [← cut?_append clear after, List.append_assoc]
    rfl
  have pairs := @cuts first rest clear
  rw [same, cuts free, Option.some.injEq, Prod.mk.injEq] at pairs
  exact ⟨pairs.1.symm, pairs.2.symm⟩

end Text

namespace Report

variable {source : Text}

theorem le_start_of_mem {line : NumberedLine} {number start : Nat} {lines : List Text}
    (listed : line ∈ numberFrom number start lines) : start ≤ line.start := by
  induction lines generalizing number start with
  | nil => cases listed
  | cons first lines ih =>
    rcases List.mem_cons.mp listed with rfl | later
    · exact Nat.le_refl start
    · exact Nat.le_trans (Nat.le_add_right start first.length) (ih later)

/-- Numbering the lines from `number` on, the last one that starts by a place of the text is as many
lines further as line feeds stand before that place. -/
theorem exists_last_started (filled : source ≠ []) (number start : Nat) {place : Nat}
    (inside : place ≤ source.length) :
    ∃ line, ((numberFrom number start (Text.lines source)).filter
        fun line => line.start ≤ start + place).getLast? = some line ∧
      line.number = number + (source.dropLast.take place).count '\n' := by
  induction source using Text.line_induction generalizing number start place with
  | last line single =>
    have absent : '\n' ∉ line.dropLast.take place :=
      fun member => single (List.mem_of_mem_dropLast (List.mem_of_mem_take member))
    rw [Text.lines_of_single single filled, List.count_eq_zero_of_not_mem absent]
    exact ⟨⟨number, start, line⟩, by simp [numberFrom], rfl⟩
  | cons line rest single ih =>
    have whole : line ++ '\n' :: rest = (line ++ ['\n']) ++ rest := by simp
    have length : (line ++ ['\n']).length = line.length + 1 := List.length_append
    rw [Text.lines_append_lineFeed single, numberFrom, List.filter_cons_of_pos (by simp),
      List.getLast?_cons, length]
    by_cases reaches : rest ≠ [] ∧ line.length + 1 ≤ place
    · obtain ⟨more, behind⟩ := reaches
      obtain ⟨further, rfl⟩ := Nat.exists_eq_add_of_le behind
      have short : further ≤ rest.length := by
        rw [whole, List.length_append, length] at inside
        omega
      obtain ⟨found, last, numbered⟩ := ih more (number + 1) (start + (line.length + 1)) short
      have before : (line ++ '\n' :: rest).dropLast.take (line.length + 1 + further) =
          (line ++ ['\n']) ++ rest.dropLast.take further := by
        rw [whole, List.dropLast_append_of_ne_nil more, ← length, List.take_length_add_append]
      rw [← Nat.add_assoc, last, before, List.count_append, List.count_append,
        List.count_eq_zero_of_not_mem single, List.count_singleton_self]
      exact ⟨found, rfl, by omega⟩
    · have later : (numberFrom (number + 1) (start + (line.length + 1)) (Text.lines rest)).filter
          (fun line => line.start ≤ start + place) = [] := by
        rw [List.filter_eq_nil_iff]
        intro other listed
        have behind := le_start_of_mem listed
        have more : rest ≠ [] := by
          rintro rfl
          cases listed
        have early : ¬ line.length + 1 ≤ place := fun long => reaches ⟨more, long⟩
        rw [decide_eq_true_iff]
        omega
      have absent : '\n' ∉ (line ++ '\n' :: rest).dropLast.take place := by
        by_cases more : rest = []
        · rw [more, List.dropLast_concat]
          exact fun member => single (List.mem_of_mem_take member)
        · have early : place ≤ line.length := by
            by_contra long
            exact reaches ⟨more, by omega⟩
          rw [List.dropLast_append_of_ne_nil (List.cons_ne_nil _ _),
            List.take_append_of_le_length early]
          exact fun member => single (List.mem_of_mem_take member)
      rw [later, List.count_eq_zero_of_not_mem absent]
      exact ⟨⟨number, start, line ++ ['\n']⟩, rfl, rfl⟩

theorem lineAt?_of_lt {place : Nat} (outside : source.length < place) : lineAt? source place = none :=
  if_pos outside

theorem exists_lineAt? (filled : source ≠ []) {place : Nat} (inside : place ≤ source.length) :
    ∃ line, lineAt? source place = some line ∧ line.number = source.lineOfCharacter place := by
  obtain ⟨line, last, numbered⟩ := exists_last_started filled 1 0 inside
  rw [Nat.zero_add] at last
  exact ⟨line, by rw [lineAt?, if_neg (Nat.not_lt.mpr inside), last], numbered⟩

theorem exists_lineRange?_iff {span : Span} (filled : source ≠ []) (ordered : span.start ≤ span.stop)
    (positive : 0 < span.stop) (number : Nat) :
    (∃ first last, lineRange? source span = some (first, last) ∧ first.number = number) ↔
      span.start ≤ source.length ∧ span.stop ≤ source.length + 1 ∧
        number = source.lineOfCharacter span.start := by
  have placed : span ≠ Span.nowhere := by
    rintro rfl
    exact absurd positive (by decide)
  rw [lineRange?, if_neg placed]
  by_cases starts : span.start ≤ source.length
  · obtain ⟨first, found, numbered⟩ := exists_lineAt? filled starts
    rw [found]
    by_cases proper : span.start < span.stop
    · by_cases stops : span.stop - 1 ≤ source.length
      · obtain ⟨last, ended, -⟩ := exists_lineAt? filled stops
        simp only [if_pos proper, ended, Option.map_some]
        constructor
        · rintro ⟨_, _, ⟨⟩, same⟩
          exact ⟨starts, by omega, same.symm.trans numbered⟩
        · rintro ⟨-, -, rfl⟩
          exact ⟨first, last, rfl, numbered⟩
      · simp only [if_pos proper, lineAt?_of_lt (Nat.not_le.mp stops), Option.map_none]
        constructor
        · rintro ⟨_, _, ⟨⟩, _⟩
        · rintro ⟨-, ends, -⟩
          omega
    · simp only [if_neg proper]
      constructor
      · rintro ⟨_, _, ⟨⟩, same⟩
        exact ⟨starts, by omega, same.symm.trans numbered⟩
      · rintro ⟨-, -, rfl⟩
        exact ⟨first, first, rfl, numbered⟩
  · rw [lineAt?_of_lt (Nat.not_le.mp starts)]
    constructor
    · rintro ⟨_, _, ⟨⟩, _⟩
    · rintro ⟨inside, -, -⟩
      exact absurd inside starts

/-- The report says below its message that the matter is on this line of the source. -/
def Locates (report message sourceName : Text) (line : Nat) : Prop :=
  ∃ (indent rest : Text) (column : Nat), (∀ c ∈ indent, c = ' ') ∧
    report = "Error: ".toList ++ message ++ '\n' :: indent ++ "╭─[".toList ++ sourceName ++
      ':' :: Text.decimal line ++ ':' :: Text.decimal column ++ "]\n".toList ++ rest

theorem locates_render_iff (sourceName : Text) (notice : Notice) (line : Nat) :
    Locates (render sourceName source notice) notice.message sourceName line ↔
      ∃ first last, lineRange? source notice.span = some (first, last) ∧ first.number = line := by
  have corner : "╭─[".toList = '╭' :: "─[".toList := by decide
  have spaced : ∀ {text : Text}, (∀ c ∈ text, c = ' ') → '╭' ∉ text :=
    fun spaces member => absurd (spaces _ member) (by decide)
  have colon : ∀ number, ':' ∉ Text.decimal number :=
    fun number => Text.not_mem_decimal number (by decide)
  have blank : ∀ width, ∀ c ∈ indent width ' ', c = ' ' :=
    fun width c member => List.eq_of_mem_replicate member
  unfold render Locates
  constructor
  · rintro ⟨spaces, rest, column, allSpaces, shown⟩
    simp only [corner, List.append_assoc, List.cons_append, List.append_cancel_left_eq,
      List.cons.injEq, true_and] at shown
    cases found : lineRange? source notice.span with
    | none =>
      rw [found] at shown
      cases spaces <;> cases shown
    | some range =>
      obtain ⟨first, last⟩ := range
      rw [found] at shown
      simp only at shown
      have headers := (Text.first_mark_inj shown (spaced (blank _)) (spaced allSpaces)).2
      simp only [List.append_cancel_left_eq, List.cons.injEq, true_and] at headers
      have digits := (Text.first_mark_inj headers (colon _) (colon _)).1
      refine ⟨first, last, rfl, ?_⟩
      rw [← Text.value_decimal first.number, digits, Text.value_decimal]
  · rintro ⟨first, last, found, rfl⟩
    rw [found]
    refine ⟨indent (Text.decimal last.number).length ' ', ?_⟩
    simp only [corner, List.append_assoc, List.cons_append]
    exact ⟨_, notice.span.start - first.start + 1, blank _, rfl⟩

end Report

namespace DecisionTable

open Report

/-- The report of a fault names the line of the character whose position is the byte offset of the
fault, and no line when there are too few characters. So it never names a line before the right one,
and names the right one when what is marked and all before it are characters of one byte. -/
theorem reported_line {markers : Markers} {source : Text} {fault : SourceFault} (sourceName : Text)
    (short : Text.byteLength source < Span.offsetBound)
    (refused : ofSource markers source = .error (.source fault)) :
    (∀ line, Locates (render sourceName source fault.notice) fault.message sourceName line ↔
      fault.span.start ≤ source.length ∧ fault.span.stop ≤ source.length + 1 ∧
        line = source.lineOfCharacter fault.span.start) ∧
    source.lineOfByte fault.span.start ≤ source.lineOfCharacter fault.span.start ∧
    ((∀ byte ∈ (Text.bytes source).take fault.span.stop, byte < 128) →
      Locates (render sourceName source fault.notice) fault.message sourceName
        (source.lineOfByte fault.span.start)) := by
  have marks := marks_of_refused short refused
  obtain ⟨before, after, rfl, starts⟩ := marks.starts
  obtain ⟨front, rest, same, stops⟩ := marks.stops
  have more : after ≠ [] := by
    rintro rfl
    have inside := marks.inside
    rw [starts, List.append_nil] at inside
    exact Nat.lt_irrefl _ inside
  have filled : before ++ after ≠ [] := by simp [more]
  have located : ∀ line, Locates (render sourceName (before ++ after) fault.notice) fault.message
      sourceName line ↔ fault.span.start ≤ (before ++ after).length ∧
        fault.span.stop ≤ (before ++ after).length + 1 ∧
        line = (before ++ after).lineOfCharacter fault.span.start :=
    fun line => (locates_render_iff sourceName fault.notice line).trans
      (exists_lineRange?_iff filled marks.ordered marks.positive line)
  refine ⟨located, ?_, ?_⟩
  · rw [starts]
    exact Text.lineOfByte_le_lineOfCharacter more
  · intro low
    have beforeNarrow : Text.byteLength before = before.length := by
      apply Text.byteLength_eq_length
      intro byte member
      rw [← Text.take_bytes before after, ← starts] at member
      exact low byte (List.take_subset_take_left _ marks.ordered member)
    have frontNarrow : Text.byteLength front = front.length := by
      apply Text.byteLength_eq_length
      rw [← Text.take_bytes front rest, ← same, ← stops]
      exact low
    have lengths := congrArg List.length same
    rw [List.length_append, List.length_append] at lengths
    rw [located, starts, stops, beforeNarrow, frontNarrow, List.length_append, ← beforeNarrow]
    refine ⟨by omega, by omega, (Text.lineOfCharacter_of_narrow more beforeNarrow).symm⟩

def shiftedSource (wide : Nat) : Text :=
  "-- ".toList ++ List.replicate wide 'µ' ++
    "\n-- Outputs\nsignal y : std_logic;\nbegin\ny <= b;\nend;\n".toList

def shiftedFault (wide : Nat) : SourceFault :=
  .unresolvedSignal ['b'] ['b'] ['y'] ⟨48 + 2 * wide, 49 + 2 * wide⟩

def shiftedReport (wide : Nat) : Text :=
  render "gdl_1.vhd".toList (shiftedSource wide) (shiftedFault wide).notice

theorem shiftedSource_reported :
    ofSource {} (shiftedSource 0) = .error (.source (shiftedFault 0)) ∧
      ofSource {} (shiftedSource 1) = .error (.source (shiftedFault 1)) ∧
      Locates (shiftedReport 0) (shiftedFault 0).message "gdl_1.vhd".toList 5 ∧
      Locates (shiftedReport 1) (shiftedFault 1).message "gdl_1.vhd".toList 5 := by
  have plain : ofSource {} (shiftedSource 0) = .error (.source (shiftedFault 0)) := by decide +kernel
  have shifted : ofSource {} (shiftedSource 1) = .error (.source (shiftedFault 1)) := by decide +kernel
  refine ⟨plain, shifted, ?_, ?_⟩
  · have line : (shiftedSource 0).lineOfByte (shiftedFault 0).span.start = 5 := by decide +kernel
    rw [← line]
    exact (reported_line _ (by decide +kernel) plain).2.2 (by decide +kernel)
  · exact ((reported_line _ (by decide +kernel) shifted).1 5).mpr (by decide +kernel)

/-- With three such characters the report names the sixth line, and with ten none. -/
theorem shiftedSource_misreported :
    ofSource {} (shiftedSource 3) = .error (.source (shiftedFault 3)) ∧
      (shiftedSource 3).lineOfByte (shiftedFault 3).span.start = 5 ∧
      Locates (shiftedReport 3) (shiftedFault 3).message "gdl_1.vhd".toList 6 ∧
      ¬ Locates (shiftedReport 3) (shiftedFault 3).message "gdl_1.vhd".toList 5 ∧
      ofSource {} (shiftedSource 10) = .error (.source (shiftedFault 10)) ∧
      ∀ line, ¬ Locates (shiftedReport 10) (shiftedFault 10).message "gdl_1.vhd".toList line := by
  have located : ∀ wide line,
      Locates (shiftedReport wide) (shiftedFault wide).message "gdl_1.vhd".toList line ↔
        48 + 2 * wide ≤ (shiftedSource wide).length ∧
          49 + 2 * wide ≤ (shiftedSource wide).length + 1 ∧
          line = (shiftedSource wide).lineOfCharacter (48 + 2 * wide) := by
    intro wide line
    have filled : shiftedSource wide ≠ [] := List.cons_ne_nil _ _
    have ordered : 48 + 2 * wide ≤ 49 + 2 * wide := by omega
    have positive : 0 < 49 + 2 * wide := by omega
    exact (locates_render_iff _ (shiftedFault wide).notice line).trans
      (exists_lineRange?_iff filled ordered positive line)
  refine ⟨by decide +kernel, by decide +kernel, ?_, ?_, by decide +kernel, ?_⟩
  · rw [located]
    decide +kernel
  · rw [located]
    decide +kernel
  · intro line found
    have inside := ((located 10 line).mp found).1
    exact absurd inside (by decide +kernel)

end DecisionTable

end TriggerLogic
