import TriggerLogic.Text.Basic

namespace TriggerLogic.Text

def startsName (c : Char) : Bool :=
  c.isAlpha || c == '_'

def continuesName (c : Char) : Bool :=
  c.isAlphanum || c == '_'

def isIdentifier : Text → Bool
  | [] => false
  | c :: rest => startsName c && rest.all continuesName

def isDelimiter (c : Char) : Bool :=
  isPlainBlank c || c == '(' || c == ')'

def startsWithKeyword (keyword text : Text) : Bool :=
  lower (text.take keyword.length) == lower keyword &&
    (text.drop keyword.length).head?.all isDelimiter

/-- Cuts at the first `keyword` that stands between delimiters. `opened` tells whether a keyword
may stand at the very start. -/
def cutKeyword? (keyword : Text) (opened : Bool) : Text → Option (Text × Text)
  | [] => none
  | c :: rest =>
    if opened && startsWithKeyword keyword (c :: rest) then some ([], (c :: rest).drop keyword.length)
    else (cutKeyword? keyword (isDelimiter c) rest).map fun parts => (c :: parts.1, parts.2)

theorem cutKeyword?_eq_some {keyword text before after : Text} {opened : Bool}
    (found : cutKeyword? keyword opened text = some (before, after)) :
    ∃ word, text = before ++ word ++ after ∧ lower word = lower keyword := by
  induction text generalizing opened before with
  | nil => simp [cutKeyword?] at found
  | cons c rest ih =>
    unfold cutKeyword? at found
    split at found
    · rename_i starts
      simp only [Option.some.injEq, Prod.mk.injEq] at found
      obtain ⟨rfl, rfl⟩ := found
      simp only [startsWithKeyword, Bool.and_eq_true, beq_iff_eq] at starts
      exact ⟨(c :: rest).take keyword.length, by simp, starts.2.1⟩
    · obtain ⟨parts, inner, pair⟩ := Option.map_eq_some_iff.mp found
      simp only [Prod.mk.injEq] at pair
      obtain ⟨rfl, rfl⟩ := pair
      obtain ⟨word, same, spelled⟩ := ih inner
      exact ⟨word, by simp [same], spelled⟩

/-- The pieces between the keywords that stand between delimiters. `skip` characters still belong
to the keyword found last, which no other keyword can follow directly. -/
def piecesFrom (keyword : Text) : Nat → Bool → Text → List Text
  | _, _, [] => [[]]
  | skip + 1, _, _ :: rest => piecesFrom keyword skip false rest
  | 0, opened, c :: rest =>
    if opened && startsWithKeyword keyword (c :: rest) then
      [] :: piecesFrom keyword (keyword.length - 1) false rest
    else (piecesFrom keyword 0 (isDelimiter c) rest).modifyHead (c :: ·)

def pieces (keyword : Text) (opened : Bool) (text : Text) : List Text :=
  piecesFrom keyword 0 opened text

theorem pieces_cons (keyword : Text) (opened : Bool) (c : Char) (rest : Text) :
    pieces keyword opened (c :: rest) =
      if opened && startsWithKeyword keyword (c :: rest) then
        [] :: piecesFrom keyword (keyword.length - 1) false rest
      else (pieces keyword (isDelimiter c) rest).modifyHead (c :: ·) := rfl

theorem piecesFrom_skip (keyword : Text) (skip : Nat) (text : Text) :
    piecesFrom keyword skip false text = pieces keyword false (text.drop skip) := by
  induction skip generalizing text with
  | zero => rfl
  | succ skip ih =>
    cases text with
    | nil => rfl
    | cons c rest => exact ih rest

theorem pieces_eq (keyword : Text) (opened : Bool) (text : Text) (named : keyword ≠ []) :
    pieces keyword opened text = match cutKeyword? keyword opened text with
      | none => [text]
      | some (before, after) => before :: pieces keyword false after := by
  induction text generalizing opened with
  | nil => rfl
  | cons c rest ih =>
    obtain ⟨letter, letters, rfl⟩ := List.exists_cons_of_ne_nil named
    rw [pieces_cons, cutKeyword?]
    split
    · simp [piecesFrom_skip]
    · rw [ih]
      cases cutKeyword? (letter :: letters) (isDelimiter c) rest <;> rfl

/-- Splits where `count` bytes or the next whole character end. -/
def splitBytes : Nat → Text → Text × Text
  | 0, text => ([], text)
  | _ + 1, [] => ([], [])
  | count + 1, c :: rest =>
    let parts := splitBytes (count + 1 - c.utf8Size) rest
    (c :: parts.1, parts.2)

def findKeyword? (keyword text : Text) (start : Nat) : Option Nat :=
  if keyword.isEmpty then none
  else
    let parts := splitBytes start text
    (cutKeyword? keyword (parts.1.getLast?.all isDelimiter) parts.2).map fun found =>
      byteLength parts.1 + byteLength found.1

def afterKeyword? (keyword text : Text) : Option Text :=
  let rest := text.drop keyword.length
  if lower (text.take keyword.length) == lower keyword && rest.head?.any isPlainBlank then some rest
  else none

end TriggerLogic.Text
