import Mathlib.Logic.Relation
import TriggerLogic.Proofs.StatementPlaces

namespace TriggerLogic

theorem Text.splitBytes_append (front rest : Text) :
    splitBytes (byteLength front) (front ++ rest) = (front, rest) := by
  induction front with
  | nil => rw [byteLength, List.nil_append, splitBytes]
  | cons c front ih =>
    have positive := c.utf8Size_pos
    obtain ⟨count, size⟩ : ∃ count, byteLength (c :: front) = count + 1 :=
      Nat.exists_eq_add_one.mpr (by rw [byteLength]; omega)
    rw [size, List.cons_append, splitBytes, ← size, byteLength, Nat.add_sub_cancel_left, ih]

namespace StatementList

def PendingAssigns (statements : StatementList) : Prop :=
  ∀ statement, statements.pending = some statement →
    ∃ parts : AssignmentText, statement.text = parts.text

def carried (statements : StatementList) : Nat :=
  Text.byteLength (statements.pending.elim [] OpenStatement.text)

variable {statements : StatementList} {statement : OpenStatement} {offset : Nat} {part : Text}

theorem PendingAssigns.extend (assigns : statements.PendingAssigns) (single : ';' ∉ part)
    (extended : statements.extend? offset part = some statement) :
    ∃ parts : AssignmentText, statement.text = parts.text := by
  rcases extend?_cases extended with ⟨earlier, pending, rfl⟩ | ⟨-, opens, rfl⟩
  · obtain ⟨parts, text⟩ := assigns earlier pending
    exact ⟨parts.goOn part single, by rw [text, parts.text_goOn]⟩
  · obtain ⟨parts, text⟩ := AssignmentText.exists_of_opensStatement opens single
    exact ⟨parts, text.symm⟩

theorem pendingAssigns_close (statements : StatementList) (statement : OpenStatement) :
    (statements.close statement).PendingAssigns := by
  rintro _ ⟨⟩

theorem PendingAssigns.addLine (assigns : statements.PendingAssigns) (offset : Nat) (line : Text) :
    (statements.addLine offset line).PendingAssigns := by
  have keep := @addLine_induction fun _ _ statements after =>
    statements.PendingAssigns → after.PendingAssigns
  refine keep ?_ ?_ ?_ offset line statements assigns
  · intro offset line statements _ assigns
    exact assigns
  · rintro offset line statements statement single extended assigns _ ⟨⟩
    exact assigns.extend single extended
  · intro offset part rest statements statement after _ _ ih _
    exact ih (pendingAssigns_close statements statement)

theorem byteLength_extend? (extended : statements.extend? offset part = some statement) :
    Text.byteLength statement.text = statements.carried + Text.byteLength part := by
  rcases extend?_cases extended with ⟨earlier, pending, rfl⟩ | ⟨pending, -, rfl⟩
  · rw [carried, pending, Text.byteLength_append]
    rfl
  · rw [carried, pending]
    exact (Nat.zero_add _).symm

end StatementList

theorem Reading.pendingAssigns_of_steps {markers : Markers} {lines : List Text} {reading : Reading}
    (read : steps markers 0 {} lines = .ok reading) : reading.statements.PendingAssigns := by
  have keep := @steps_preserves markers {} 0 fun reading => reading.statements.PendingAssigns
  refine keep ?_ read ?_
  · intro before after offset raw stepped assigns
    rcases statements_step stepped with ⟨-, -, added⟩ | ⟨-, same⟩
    · rw [added]
      exact assigns.addLine offset _
    · rw [same]
      exact assigns
  · rintro _ ⟨⟩

/-- What is left of a line, its place and the statements so far. A loop over the line joins what is open
with what is left, looks for the first semicolon of the whole and counts bytes to go on behind it. -/
structure LineWalk where
  chunk : Text
  offset : Nat
  statements : StatementList

namespace LineWalk

def joined? (walk : LineWalk) : Option OpenStatement :=
  walk.statements.extend? walk.offset walk.chunk

def closing? (walk : LineWalk) : Option OpenStatement :=
  walk.joined?.bind fun joined =>
    (Text.cut? [';'] joined.text).map fun parts => ⟨joined.start, parts.1⟩

def consumed (walk : LineWalk) (statement : OpenStatement) : Nat :=
  Text.byteLength statement.text + 1 - walk.statements.carried

def behind (walk : LineWalk) (statement : OpenStatement) : LineWalk where
  chunk := (Text.splitBytes (walk.consumed statement) walk.chunk).2
  offset := walk.offset + walk.consumed statement
  statements := walk.statements.close statement

def next? (walk : LineWalk) : Option LineWalk :=
  walk.closing?.map walk.behind

def Reaches : LineWalk → LineWalk → Prop :=
  Relation.ReflTransGen fun walk next => walk.next? = some next

/-- The loop comes to an end with these statements. -/
inductive Ends : LineWalk → StatementList → Prop
  | stop {walk : LineWalk} : walk.next? = none →
      Ends walk ⟨walk.statements.closed, walk.joined?⟩
  | pass {walk next : LineWalk} {after : StatementList} : walk.next? = some next → Ends next after →
      Ends walk after

structure Advances (walk : LineWalk) (statement : OpenStatement) : Prop where
  carried_le : walk.statements.carried ≤ Text.byteLength statement.text
  consumed_le : walk.consumed statement ≤ Text.byteLength walk.chunk
  split : ∃ front, walk.chunk = front ++ (walk.behind statement).chunk ∧
    Text.byteLength front = walk.consumed statement
  shorter : (walk.behind statement).chunk.length < walk.chunk.length
  assigns : statement.close?.isSome = true

section Passes

variable {walk next : LineWalk} {statement : OpenStatement} {part : Text}

theorem closing?_of_single (assigns : walk.statements.PendingAssigns) (single : ';' ∉ walk.chunk) :
    walk.closing? = none := by
  rw [closing?]
  cases joined : walk.joined? with
  | none => rfl
  | some statement =>
    obtain ⟨parts, text⟩ := assigns.extend single joined
    rw [Option.bind_some, text, Text.cut?_eq_none parts.single_text]
    rfl

theorem closing?_semicolon (assigns : walk.statements.PendingAssigns) (single : ';' ∉ part)
    {rest : Text} (chunk : walk.chunk = part ++ ';' :: rest) :
    walk.closing? = walk.statements.extend? walk.offset part := by
  rw [closing?, joined?, chunk, StatementList.extend?_semicolon single]
  cases extended : walk.statements.extend? walk.offset part with
  | none => rfl
  | some statement =>
    obtain ⟨parts, text⟩ := assigns.extend single extended
    have found := @Text.cut?_append ';' [] _ parts.single_text rest
    rw [← text, List.append_assoc] at found
    rw [Option.map_some, Option.bind_some]
    exact congrArg (Option.map _) found

theorem behind_semicolon {rest : Text} (chunk : walk.chunk = part ++ ';' :: rest)
    (extended : walk.statements.extend? walk.offset part = some statement) :
    walk.consumed statement = Text.byteLength (part ++ [';']) ∧
      walk.behind statement = ⟨rest, walk.offset + Text.byteLength part + 1,
        walk.statements.close statement⟩ := by
  have semicolon : Text.byteLength (part ++ [';']) = Text.byteLength part + 1 :=
    Text.byteLength_append part [';']
  have consumed : walk.consumed statement = Text.byteLength (part ++ [';']) := by
    rw [LineWalk.consumed, StatementList.byteLength_extend? extended, semicolon]
    omega
  refine ⟨consumed, ?_⟩
  rw [List.append_cons] at chunk
  rw [behind, consumed, chunk, Text.splitBytes_append, semicolon, Nat.add_assoc]

/-- A pass finds its semicolon in the chunk, since what is open has none. -/
theorem exists_of_closing? (assigns : walk.statements.PendingAssigns)
    (closing : walk.closing? = some statement) :
    ∃ part rest, walk.chunk = part ++ ';' :: rest ∧ ';' ∉ part ∧
      walk.statements.extend? walk.offset part = some statement := by
  by_cases found : ';' ∈ walk.chunk
  · obtain ⟨part, rest, chunk, single⟩ := List.eq_append_cons_of_mem found
    exact ⟨part, rest, chunk, single, by rw [← closing?_semicolon assigns single chunk, closing]⟩
  · rw [closing?_of_single assigns found] at closing
    cases closing

theorem advances_of_closing? (assigns : walk.statements.PendingAssigns)
    (closing : walk.closing? = some statement) : walk.Advances statement := by
  obtain ⟨part, rest, chunk, single, extended⟩ := exists_of_closing? assigns closing
  obtain ⟨consumed, behind⟩ := behind_semicolon chunk extended
  have left : (walk.behind statement).chunk = rest := by rw [behind]
  have whole : walk.chunk = part ++ [';'] ++ (walk.behind statement).chunk := by
    rw [chunk, left, List.append_cons]
  constructor
  · rw [StatementList.byteLength_extend? extended]
    exact Nat.le_add_right _ _
  · rw [consumed, whole, Text.byteLength_append (part ++ [';'])]
    exact Nat.le_add_right _ _
  · exact ⟨part ++ [';'], whole, consumed.symm⟩
  · rw [chunk, left, List.length_append, List.length_cons]
    omega
  · obtain ⟨parts, text⟩ := assigns.extend single extended
    have closed := parts.close?_text statement.start
    rw [← text] at closed
    exact Option.isSome_of_eq_some closed

theorem pendingAssigns_of_reaches (assigns : walk.statements.PendingAssigns)
    (reached : walk.Reaches next) : next.statements.PendingAssigns := by
  induction reached with
  | refl => exact assigns
  | tail _ passed _ =>
    obtain ⟨statement, -, rfl⟩ := Option.map_eq_some_iff.mp passed
    exact StatementList.pendingAssigns_close _ statement

end Passes

theorem Ends.unique {walk : LineWalk} {after other : StatementList} (ends : walk.Ends after)
    (otherEnds : walk.Ends other) : after = other := by
  induction ends with
  | stop stopped =>
    cases otherEnds with
    | stop => rfl
    | pass passed =>
      rw [stopped] at passed
      cases passed
  | pass passed _ ih =>
    cases otherEnds with
    | stop stopped =>
      rw [stopped] at passed
      cases passed
    | pass otherPassed otherEnds =>
      rw [passed] at otherPassed
      cases otherPassed
      exact ih otherEnds

theorem ends_addLine {statements : StatementList} (assigns : statements.PendingAssigns)
    (offset : Nat) (line : Text) :
    Ends ⟨line, offset, statements⟩ (statements.addLine offset line) := by
  have follow := @StatementList.addLine_induction fun offset line statements after =>
    statements.PendingAssigns → Ends ⟨line, offset, statements⟩ after
  refine follow ?_ ?_ ?_ offset line statements assigns
  · intro offset line statements passed _
    have stopped : next? ⟨line, offset, statements⟩ = none := by
      rw [next?, closing?, joined?, passed]
      rfl
    have ends := Ends.stop stopped
    have idle := StatementList.pending_of_extend?_eq_none passed
    rw [joined?, passed, ← idle] at ends
    exact ends
  · intro offset line statements statement single extended assigns
    have stopped : next? ⟨line, offset, statements⟩ = none := by
      rw [next?, closing?_of_single assigns single]
      rfl
    have ends := Ends.stop stopped
    rw [joined?, extended] at ends
    exact ends
  · intro offset part rest statements statement after single extended ih assigns
    refine .pass ?_ (ih (StatementList.pendingAssigns_close statements statement))
    rw [next?, closing?_semicolon assigns single rfl, extended, Option.map_some,
      (behind_semicolon rfl extended).2]

end LineWalk

/-- However far a source has been read, the loop over the next line of the body ends with what
reading that line adds. Each pass that meets a semicolon meets it behind the carried text, leaves a
shorter chunk that starts with a whole character, and closes an assignment. -/
theorem body_line_walk_ends {markers : Markers} {lines : List Text} {reading : Reading}
    (read : Reading.steps markers 0 {} lines = .ok reading) (body : reading.part = .body)
    (offset : Nat) (raw : Text) :
    (∀ earlier, reading.statements.pending = some earlier →
      ';' ∉ earlier.text ∧ ∃ parts : AssignmentText, earlier.text = parts.text) ∧
    (∃ next, reading.step markers offset raw = .ok next ∧ ∀ after,
      LineWalk.Ends ⟨Line.blanked raw, offset, reading.statements⟩ after ↔
        after = next.statements) ∧
    ∀ walk, LineWalk.Reaches ⟨Line.blanked raw, offset, reading.statements⟩ walk →
      ∀ statement, walk.closing? = some statement → walk.Advances statement := by
  have assigns := Reading.pendingAssigns_of_steps read
  refine ⟨?_, ?_, ?_⟩
  · intro earlier pending
    obtain ⟨parts, text⟩ := assigns earlier pending
    exact ⟨text ▸ parts.single_text, parts, text⟩
  · refine ⟨_, by rw [Reading.step, if_pos body], ?_⟩
    have ends := LineWalk.ends_addLine assigns offset (Line.blanked raw)
    intro after
    constructor
    · intro others
      exact others.unique ends
    · rintro rfl
      exact ends
  · intro walk reached statement closing
    exact LineWalk.advances_of_closing? (LineWalk.pendingAssigns_of_reaches assigns reached) closing

def carriedReading : Reading :=
  { part := .body, statements := ⟨[], some ⟨17, "y <= ä ".toList⟩⟩ }

theorem carriedReading_walk_ends :
    Reading.steps {} 0 {} ["-- Outputs\n".toList, "begin\n".toList, "y <= ä\n".toList] =
        .ok carriedReading ∧
      carriedReading.part = .body ∧
      LineWalk.Ends ⟨Line.blanked "  ß; z <= a; -- ;\n".toList, 25, carriedReading.statements⟩
        ⟨[⟨['y'], " ä   ß".toList, ⟨21, 29⟩, ⟨17, 30⟩⟩,
          ⟨['z'], " a".toList, ⟨35, 37⟩, ⟨31, 38⟩⟩], none⟩ ∧
      LineWalk.Advances ⟨Line.blanked "  ß; z <= a; -- ;\n".toList, 25, carriedReading.statements⟩
        ⟨17, "y <= ä   ß".toList⟩ := by
  have read : Reading.steps {} 0 {} ["-- Outputs\n".toList, "begin\n".toList, "y <= ä\n".toList] =
      .ok carriedReading := by decide +kernel
  obtain ⟨-, ⟨next, stepped, ends⟩, advances⟩ :=
    body_line_walk_ends read rfl 25 "  ß; z <= a; -- ;\n".toList
  have added : next.statements =
      ⟨[⟨['y'], " ä   ß".toList, ⟨21, 29⟩, ⟨17, 30⟩⟩,
        ⟨['z'], " a".toList, ⟨35, 37⟩, ⟨31, 38⟩⟩], none⟩ := by
    cases stepped
    decide +kernel
  exact ⟨read, rfl, (ends _).mpr added.symm, advances _ .refl _ (by decide +kernel)⟩

end TriggerLogic
