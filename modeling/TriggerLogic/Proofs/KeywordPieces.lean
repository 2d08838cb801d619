import TriggerLogic.Proofs.DecisionOrigin
import TriggerLogic.Proofs.TextCuts

namespace TriggerLogic.Text

theorem toLower_of_not_isAlpha {c : Char} (other : c.isAlpha = false) : c.toLower = c := by
  rw [Bool.eq_false_iff, ne_eq, isAlpha_iff] at other
  unfold Char.toLower
  split
  · rename_i upper
    exact absurd (.inl upper) other
  · rfl

theorem isAlpha_of_isDelimiter {c : Char} (delimits : isDelimiter c = true) : c.isAlpha = false := by
  simp only [isDelimiter, isPlainBlank, Bool.or_eq_true, beq_iff_eq] at delimits
  rcases delimits with (((((rfl | rfl) | rfl) | rfl) | rfl) | rfl) | rfl <;> decide

theorem isDelimiter_of_isPlainBlank {c : Char} (plain : isPlainBlank c = true) :
    isDelimiter c = true := by
  simp [isDelimiter, plain]

theorem isPlainBlank_of_dark {c : Char} (dark : isBlank c = false) : isPlainBlank c = false := by
  rw [Bool.eq_false_iff]
  intro plain
  rw [isBlank_of_isPlainBlank plain] at dark
  cases dark

theorem length_of_spelled {word keyword : Text} (spelled : lower word = lower keyword) :
    word.length = keyword.length := by
  have lengths := congrArg List.length spelled
  rw [lower, lower, List.length_map, List.length_map] at lengths
  exact lengths

structure IsKeyword (keyword : Text) : Prop where
  nonempty : keyword ≠ []
  letters : ∀ c ∈ lower keyword, c.isAlpha = true

theorem IsKeyword.not_mem {keyword : Text} (isKeyword : IsKeyword keyword) {c : Char}
    (other : c.isAlpha = false) : c.toLower ∉ lower keyword := by
  intro member
  rw [toLower_of_not_isAlpha other] at member
  rw [isKeyword.letters c member] at other
  cases other

theorem IsKeyword.isAlpha_of_spelled {keyword word : Text} (isKeyword : IsKeyword keyword)
    (spelled : lower word = lower keyword) : ∀ c ∈ word, c.isAlpha = true := by
  intro c member
  rw [← Bool.not_eq_false]
  intro other
  exact isKeyword.not_mem other (spelled ▸ List.mem_map_of_mem member)

theorem IsKeyword.dark_of_spelled {keyword word : Text} (isKeyword : IsKeyword keyword)
    (spelled : lower word = lower keyword) : ∀ c ∈ word, isDelimiter c = false := by
  intro c member
  rw [Bool.eq_false_iff]
  intro delimits
  have letter := isKeyword.isAlpha_of_spelled spelled c member
  rw [isAlpha_of_isDelimiter delimits] at letter
  cases letter

theorem IsKeyword.ne_nil_of_spelled {keyword word : Text} (isKeyword : IsKeyword keyword)
    (spelled : lower word = lower keyword) : word ≠ [] := by
  rintro rfl
  exact isKeyword.nonempty (List.map_eq_nil_iff.mp spelled.symm)

theorem isKeyword_and : IsKeyword ['a', 'n', 'd'] := ⟨by decide, by decide⟩

theorem isKeyword_when : IsKeyword ['w', 'h', 'e', 'n'] := ⟨by decide, by decide⟩

theorem isKeyword_else : IsKeyword ['e', 'l', 's', 'e'] := ⟨by decide, by decide⟩

theorem isKeyword_not : IsKeyword ['n', 'o', 't'] := ⟨by decide, by decide⟩

theorem length_le_of_startsWithKeyword {keyword text : Text}
    (starts : startsWithKeyword keyword text = true) : keyword.length ≤ text.length := by
  simp only [startsWithKeyword, Bool.and_eq_true, beq_iff_eq] at starts
  have lengths := length_of_spelled starts.1
  rw [List.length_take] at lengths
  omega

section Delimited

variable {keyword : Text} (isKeyword : IsKeyword keyword) {c : Char} (delimits : isDelimiter c = true)

include isKeyword

theorem startsWithKeyword_of_not_isAlpha (other : c.isAlpha = false) (text : Text) :
    startsWithKeyword keyword (c :: text) = false := by
  obtain ⟨letter, letters, rfl⟩ := List.exists_cons_of_ne_nil isKeyword.nonempty
  have differs : c.toLower ≠ letter.toLower := by
    intro same
    exact isKeyword.not_mem other (same ▸ List.mem_cons_self)
  simp [startsWithKeyword, lower, differs]

include delimits

theorem startsWithKeyword_append (first rest : Text) :
    startsWithKeyword keyword (first ++ c :: rest) = startsWithKeyword keyword first := by
  by_cases long : keyword.length ≤ first.length
  · have same : (first ++ c :: rest).take keyword.length = first.take keyword.length :=
      List.take_append_of_le_length long
    have remains : (first ++ c :: rest).drop keyword.length = first.drop keyword.length ++ c :: rest :=
      List.drop_append_of_le_length long
    rw [startsWithKeyword, startsWithKeyword, same, remains]
    cases first.drop keyword.length with
    | nil => simp [delimits]
    | cons d more => rfl
  · have short : startsWithKeyword keyword first = false := by
      rw [Bool.eq_false_iff]
      intro starts
      exact long (length_le_of_startsWithKeyword starts)
    rw [short, startsWithKeyword, Bool.and_eq_false_iff, beq_eq_false_iff_ne]
    left
    intro same
    have taken : c ∈ (first ++ c :: rest).take keyword.length := by
      obtain ⟨more, counted⟩ : ∃ more, keyword.length - first.length = more + 1 :=
        ⟨keyword.length - first.length - 1, by omega⟩
      rw [List.take_append, counted, List.take_succ_cons]
      simp
    have member : c.toLower ∈ lower keyword := same ▸ List.mem_map_of_mem taken
    exact isKeyword.not_mem (isAlpha_of_isDelimiter delimits) member

theorem cutKeyword?_append (opened : Bool) (first rest : Text) :
    cutKeyword? keyword opened (first ++ c :: rest) =
      match cutKeyword? keyword opened first with
      | some (before, after) => some (before, after ++ c :: rest)
      | none => (cutKeyword? keyword true rest).map fun parts => (first ++ c :: parts.1, parts.2) := by
  induction first generalizing opened with
  | nil =>
    have fresh : startsWithKeyword keyword (c :: rest) = false :=
      startsWithKeyword_of_not_isAlpha isKeyword (isAlpha_of_isDelimiter delimits) rest
    have step : cutKeyword? keyword opened (c :: rest) =
        (cutKeyword? keyword true rest).map fun parts => (c :: parts.1, parts.2) := by
      rw [cutKeyword?, fresh, Bool.and_false, if_neg Bool.false_ne_true, delimits]
    exact step
  | cons d first ih =>
    have same := startsWithKeyword_append isKeyword delimits (d :: first) rest
    rw [List.cons_append] at same
    rw [List.cons_append, cutKeyword?, cutKeyword?, same]
    by_cases found : (opened && startsWithKeyword keyword (d :: first)) = true
    · rw [Bool.and_eq_true] at found
      have long := length_le_of_startsWithKeyword found.2
      rw [found.1, found.2, Bool.and_self, if_pos rfl, if_pos rfl, ← List.cons_append,
        List.drop_append_of_le_length long]
    · rw [if_neg found, if_neg found, ih]
      cases cutKeyword? keyword (isDelimiter d) first with
      | some parts => rfl
      | none => simp [Function.comp_def]

end Delimited

def Delimiters (gap : Text) : Prop :=
  gap ≠ [] ∧ ∀ c ∈ gap, isDelimiter c = true

theorem cutKeyword?_gap {keyword gap : Text} (isKeyword : IsKeyword keyword)
    (delimiters : Delimiters gap) (opened : Bool) (first rest : Text) :
    cutKeyword? keyword opened (first ++ gap ++ rest) =
      match cutKeyword? keyword opened first with
      | some (before, after) => some (before, after ++ gap ++ rest)
      | none => (cutKeyword? keyword true rest).map fun parts => (first ++ gap ++ parts.1, parts.2) := by
  obtain ⟨nonempty, delimit⟩ := delimiters
  induction gap generalizing first opened with
  | nil => exact absurd rfl nonempty
  | cons c gap ih =>
    rw [List.forall_mem_cons] at delimit
    rw [List.append_assoc, List.cons_append, cutKeyword?_append isKeyword delimit.1]
    cases gap with
    | nil => simp
    | cons d gap =>
      have later := ih true [] (List.cons_ne_nil _ _) delimit.2
      rw [List.nil_append] at later
      rw [later]
      cases cutKeyword? keyword opened first with
      | some parts => simp
      | none => simp [cutKeyword?, Function.comp_def]

section Pieces

/-- The pieces of a text and of what follows it: the last of the one and the first of the other
are one piece. -/
def seam : List Text → List Text → List Text
  | [], second => second
  | [last], second => second.modifyHead (last ++ ·)
  | piece :: next :: more, second => piece :: seam (next :: more) second

theorem seam_cons {piece : Text} {first : List Text} (more : first ≠ []) (second : List Text) :
    seam (piece :: first) second = piece :: seam first second := by
  obtain ⟨next, rest, rfl⟩ := List.exists_cons_of_ne_nil more
  rfl

theorem seam_eq_append {first : List Text} (nonempty : first ≠ []) (piece : Text)
    (second : List Text) : seam first (piece :: second) = seam first [piece] ++ second := by
  induction first with
  | nil => exact absurd rfl nonempty
  | cons text first ih =>
    cases first with
    | nil => rfl
    | cons next first =>
      rw [seam_cons (List.cons_ne_nil _ _), seam_cons (List.cons_ne_nil _ _),
        ih (List.cons_ne_nil _ _), List.cons_append]

theorem pieces_ne_nil (keyword : Text) (opened : Bool) (text : Text) :
    pieces keyword opened text ≠ [] :=
  Condition.piecesFrom_ne_nil keyword 0 opened text

variable {keyword : Text} (isKeyword : IsKeyword keyword)

include isKeyword

theorem pieces_append {c : Char} (delimits : isDelimiter c = true) (opened : Bool)
    (first rest : Text) :
    pieces keyword opened (first ++ c :: rest) =
      seam (pieces keyword opened first) ((pieces keyword true rest).modifyHead (c :: ·)) := by
  induction length : first.length using Nat.strongRecOn generalizing first opened with
  | _ n ih =>
    rw [pieces_eq _ _ _ isKeyword.nonempty, pieces_eq _ _ first isKeyword.nonempty,
      cutKeyword?_append isKeyword delimits]
    cases found : cutKeyword? keyword opened first with
    | some parts =>
      obtain ⟨before, after⟩ := parts
      obtain ⟨word, rfl, spelled⟩ := cutKeyword?_eq_some found
      have shorter : after.length < n := by
        have lengths := length_of_spelled spelled
        have positive := List.length_pos_iff.mpr isKeyword.nonempty
        simp only [List.length_append] at length
        omega
      simp only
      rw [ih _ shorter _ after rfl, seam_cons (pieces_ne_nil _ _ _)]
    | none =>
      rw [pieces_eq _ true rest isKeyword.nonempty]
      cases cutKeyword? keyword true rest with
      | none => rfl
      | some parts => rfl

theorem pieces_gap {gap : Text} (delimiters : Delimiters gap) (opened : Bool) (first rest : Text) :
    pieces keyword opened (first ++ gap ++ rest) =
      seam (pieces keyword opened first) ((pieces keyword true rest).modifyHead (gap ++ ·)) := by
  obtain ⟨nonempty, delimit⟩ := delimiters
  induction gap generalizing first opened with
  | nil => exact absurd rfl nonempty
  | cons c gap ih =>
    rw [List.forall_mem_cons] at delimit
    rw [List.append_assoc, List.cons_append, pieces_append isKeyword delimit.1]
    cases gap with
    | nil => rfl
    | cons d gap =>
      have later := ih true [] (List.cons_ne_nil _ _) delimit.2
      rw [List.nil_append] at later
      rw [later]
      cases pieces keyword true rest <;> rfl

theorem mem_of_mem_pieces {opened : Bool} {text piece : Text}
    (listed : piece ∈ pieces keyword opened text) {c : Char} (member : c ∈ piece) : c ∈ text := by
  induction length : text.length using Nat.strongRecOn generalizing text opened with
  | _ n ih =>
    rw [pieces_eq _ _ _ isKeyword.nonempty] at listed
    cases found : cutKeyword? keyword opened text with
    | none =>
      rw [found] at listed
      rw [← List.mem_singleton.mp listed]
      exact member
    | some parts =>
      obtain ⟨before, after⟩ := parts
      obtain ⟨word, rfl, spelled⟩ := cutKeyword?_eq_some found
      rw [found] at listed
      rcases List.mem_cons.mp listed with rfl | later
      · simp [member]
      · have shorter : after.length < n := by
          have lengths := length_of_spelled spelled
          have positive := List.length_pos_iff.mpr isKeyword.nonempty
          simp only [List.length_append] at length
          omega
        have inside := ih _ shorter later rfl
        simp [inside]

end Pieces

section Head

variable {keyword : Text} (isKeyword : IsKeyword keyword)

include isKeyword

theorem cutKeyword?_of_not_isAlpha {text : Text} (other : ∀ c ∈ text, c.isAlpha = false)
    (opened : Bool) : cutKeyword? keyword opened text = none := by
  induction text generalizing opened with
  | nil => rfl
  | cons c text ih =>
    rw [List.forall_mem_cons] at other
    rw [cutKeyword?, startsWithKeyword_of_not_isAlpha isKeyword other.1, ih other.2]
    simp

/-- No keyword begins inside a word. -/
theorem cutKeyword?_closed {word rest : Text} (dark : ∀ c ∈ word, isDelimiter c = false)
    (other : ∀ c ∈ rest, c.isAlpha = false) : cutKeyword? keyword false (word ++ rest) = none := by
  induction word with
  | nil => exact cutKeyword?_of_not_isAlpha isKeyword other false
  | cons c word ih =>
    rw [List.forall_mem_cons] at dark
    rw [List.cons_append, cutKeyword?, dark.1, ih dark.2]
    simp

theorem cutKeyword?_word {word rest : Text} (nonempty : word ≠ [])
    (dark : ∀ c ∈ word, isDelimiter c = false) (other : ∀ c ∈ rest, c.isAlpha = false) :
    cutKeyword? keyword true (word ++ rest) = none ∨
      lower word = lower keyword ∧ cutKeyword? keyword true (word ++ rest) = some ([], rest) := by
  obtain ⟨c, letters, rfl⟩ := List.exists_cons_of_ne_nil nonempty
  have closed : cutKeyword? keyword (isDelimiter c) (letters ++ rest) = none := by
    rw [List.forall_mem_cons] at dark
    rw [dark.1]
    exact cutKeyword?_closed isKeyword dark.2 other
  rw [List.cons_append, cutKeyword?, closed, Bool.true_and]
  by_cases starts : startsWithKeyword keyword (c :: (letters ++ rest)) = true
  · right
    rw [if_pos starts]
    have long := length_le_of_startsWithKeyword starts
    simp only [startsWithKeyword, Bool.and_eq_true, beq_iff_eq] at starts
    obtain ⟨spelled, ends⟩ := starts
    rw [← List.cons_append] at spelled ends long ⊢
    generalize c :: letters = word at *
    have notShorter : ¬ keyword.length < word.length := by
      intro shorter
      have inside : word.drop keyword.length ≠ [] := by
        rw [ne_eq, List.drop_eq_nil_iff]
        omega
      obtain ⟨d, more, dropped⟩ := List.exists_cons_of_ne_nil inside
      rw [List.drop_append_of_le_length (by omega), dropped] at ends
      have delimits : isDelimiter d = true := by simpa using ends
      have member : d ∈ word := List.mem_of_mem_drop (dropped ▸ List.mem_cons_self)
      rw [dark d member] at delimits
      cases delimits
    have notLonger : ¬ word.length < keyword.length := by
      intro longer
      have some : rest ≠ [] := by
        rintro rfl
        simp only [List.append_nil] at long
        omega
      obtain ⟨d, more, rfl⟩ := List.exists_cons_of_ne_nil some
      obtain ⟨extra, counted⟩ : ∃ extra, keyword.length - word.length = extra + 1 :=
        ⟨keyword.length - word.length - 1, by omega⟩
      have taken : d ∈ (word ++ d :: more).take keyword.length := by
        rw [List.take_append, counted, List.take_succ_cons]
        simp
      exact isKeyword.not_mem (other d List.mem_cons_self) (spelled ▸ List.mem_map_of_mem taken)
    have length : keyword.length = word.length := by omega
    rw [length, List.take_left] at spelled
    rw [length, List.drop_left]
    exact ⟨spelled, rfl⟩
  · left
    rw [if_neg starts]
    rfl

end Head

section Delimited

variable {keyword : Text} (isKeyword : IsKeyword keyword) {word gap : Text}
  (delimiters : Delimiters gap)

include isKeyword

theorem cutKeyword?_keyword (spelled : lower word = lower keyword) {rest : Text}
    (ends : rest.head?.all isDelimiter = true) :
    cutKeyword? keyword true (word ++ rest) = some ([], rest) := by
  have length : keyword.length = word.length := (length_of_spelled spelled).symm
  have starts : startsWithKeyword keyword (word ++ rest) = true := by
    rw [startsWithKeyword, length, List.take_left, List.drop_left, spelled, ends, beq_self_eq_true]
    rfl
  have nonempty : word ++ rest ≠ [] := by
    intro empty
    have positive := List.length_pos_iff.mpr isKeyword.nonempty
    have none := congrArg List.length empty
    simp only [List.length_append, List.length_nil] at none
    omega
  obtain ⟨c, more, whole⟩ := List.exists_cons_of_ne_nil nonempty
  rw [whole] at starts ⊢
  rw [cutKeyword?, starts, Bool.and_self, if_pos rfl, ← whole, length, List.drop_left]

theorem cutKeyword?_lone {other : Text} (nonempty : other ≠ [])
    (dark : ∀ c ∈ other, isDelimiter c = false) (differs : lower other ≠ lower keyword) :
    cutKeyword? keyword true other = none := by
  rcases @cutKeyword?_word keyword isKeyword other [] nonempty dark (by simp) with none | ⟨spelled, -⟩
  · rw [List.append_nil] at none
    exact none
  · exact absurd spelled differs

include delimiters

theorem cutKeyword?_lead (opened : Bool) (text : Text) :
    cutKeyword? keyword opened (gap ++ text) =
      (cutKeyword? keyword true text).map fun parts => (gap ++ parts.1, parts.2) :=
  cutKeyword?_gap isKeyword delimiters opened [] text

theorem cutKeyword?_trail (opened : Bool) (text : Text) :
    cutKeyword? keyword opened (text ++ gap) =
      (cutKeyword? keyword opened text).map fun parts => (parts.1, parts.2 ++ gap) := by
  have step := cutKeyword?_gap isKeyword delimiters opened text []
  rw [List.append_nil] at step
  rw [step]
  cases cutKeyword? keyword opened text with
  | none => rfl
  | some parts => simp

theorem cutKeyword?_other {other : Text} (nonempty : other ≠ [])
    (dark : ∀ c ∈ other, isDelimiter c = false) (differs : lower other ≠ lower keyword)
    (text : Text) :
    cutKeyword? keyword true (other ++ gap ++ text) =
      (cutKeyword? keyword true text).map fun parts => (other ++ gap ++ parts.1, parts.2) := by
  rw [cutKeyword?_gap isKeyword delimiters, cutKeyword?_lone isKeyword nonempty dark differs]

theorem pieces_lead (opened : Bool) (text : Text) :
    pieces keyword opened (gap ++ text) = (pieces keyword true text).modifyHead (gap ++ ·) := by
  have step := pieces_gap isKeyword delimiters opened [] text
  rw [List.nil_append] at step
  rw [step]
  cases pieces keyword true text <;> rfl

theorem pieces_trail (opened : Bool) (text : Text) :
    pieces keyword opened (text ++ gap) = seam (pieces keyword opened text) [gap] := by
  have step := pieces_gap isKeyword delimiters opened text []
  rw [List.append_nil] at step
  rw [step]
  simp [pieces, piecesFrom]

theorem pieces_other {other : Text} (nonempty : other ≠ [])
    (dark : ∀ c ∈ other, isDelimiter c = false) (differs : lower other ≠ lower keyword)
    (text : Text) :
    pieces keyword true (other ++ gap ++ text) =
      (pieces keyword true text).modifyHead (other ++ gap ++ ·) := by
  have alone : pieces keyword true other = [other] := by
    rw [pieces_eq _ _ _ isKeyword.nonempty, cutKeyword?_lone isKeyword nonempty dark differs]
  rw [pieces_gap isKeyword delimiters, alone]
  cases pieces keyword true text with
  | nil => rfl
  | cons piece more => simp [seam]

/-- A keyword between delimiters ends a piece and begins the next one. -/
theorem pieces_keyword {lead : Text} (leading : Delimiters lead)
    (spelled : lower word = lower keyword) (opened : Bool) (first second : Text) :
    pieces keyword opened (first ++ lead ++ (word ++ gap ++ second)) =
      seam (pieces keyword opened first) [lead] ++
        (pieces keyword true second).modifyHead (gap ++ ·) := by
  have lone : cutKeyword? keyword true word = some ([], []) := by
    have found := @cutKeyword?_keyword keyword isKeyword word spelled [] rfl
    rw [List.append_nil] at found
    exact found
  have split : pieces keyword true word = [[], []] := by
    rw [pieces_eq _ _ _ isKeyword.nonempty, lone]
    rfl
  have later : pieces keyword true (word ++ gap ++ second) =
      [] :: (pieces keyword true second).modifyHead (gap ++ ·) := by
    rw [pieces_gap isKeyword delimiters, split]
    cases pieces keyword true second <;> rfl
  rw [pieces_gap isKeyword leading, later, List.modifyHead_cons, List.append_nil,
    seam_eq_append (pieces_ne_nil _ _ _)]

end Delimited

end TriggerLogic.Text
