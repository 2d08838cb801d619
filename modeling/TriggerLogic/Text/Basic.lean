namespace TriggerLogic

abbrev Text := List Char

namespace Text

/-- Length in UTF-8 bytes, the unit of every position in a source. -/
def byteLength : Text → Nat
  | [] => 0
  | c :: rest => c.utf8Size + byteLength rest

def bytes (text : Text) : List UInt8 :=
  text.flatMap String.utf8EncodeChar

/-- Lower-cases the letters A to Z and nothing else. -/
def lower (text : Text) : Text :=
  text.map Char.toLower

def cut? (mark : Text) : Text → Option (Text × Text)
  | [] => none
  | c :: rest =>
    if mark.isPrefixOf (c :: rest) then some ([], (c :: rest).drop mark.length)
    else (cut? mark rest).map fun parts => (c :: parts.1, parts.2)

def afterLead? (lead text : Text) : Option Text :=
  if lead.isPrefixOf text then some (text.drop lead.length) else none

def beforeTail? (tail text : Text) : Option Text :=
  if tail.isSuffixOf text then some (text.take (text.length - tail.length)) else none

def dropEndWhile (p : Char → Bool) (text : Text) : Text :=
  (text.reverse.dropWhile p).reverse

def strip (p : Char → Bool) (text : Text) : Text :=
  dropEndWhile p (text.dropWhile p)

def join (mark : Text) (parts : List Text) : Text :=
  mark.intercalate parts

def lines : Text → List Text
  | [] => []
  | c :: rest =>
    if c = '\n' then [c] :: lines rest
    else match lines rest with
      | [] => [[c]]
      | line :: more => (c :: line) :: more

/-- A line without its line feed and the one carriage return before it. -/
def withoutLineEnd (line : Text) : Text :=
  match line.reverse with
  | '\n' :: '\r' :: rest => rest.reverse
  | '\n' :: rest => rest.reverse
  | _ => line

theorem byteLength_append (first second : Text) :
    byteLength (first ++ second) = byteLength first + byteLength second := by
  induction first with
  | nil => simp [byteLength]
  | cons c rest ih => simp only [List.cons_append, byteLength, ih, Nat.add_assoc]

theorem lines_flatten (text : Text) : (lines text).flatten = text := by
  induction text with
  | nil => rfl
  | cons c rest ih =>
    unfold lines
    split
    · simp [ih]
    · split <;> simp_all

theorem cut?_eq_some {mark text before after : Text} (found : cut? mark text = some (before, after)) :
    text = before ++ mark ++ after := by
  induction text generalizing before with
  | nil => simp [cut?] at found
  | cons c rest ih =>
    unfold cut? at found
    split at found
    · rename_i lead
      obtain ⟨tail, same⟩ := List.isPrefixOf_iff_prefix.mp lead
      simp only [Option.some.injEq, Prod.mk.injEq] at found
      obtain ⟨rfl, rfl⟩ := found
      rw [← same]
      simp
    · obtain ⟨parts, inner, pair⟩ := Option.map_eq_some_iff.mp found
      simp only [Prod.mk.injEq] at pair
      obtain ⟨rfl, rfl⟩ := pair
      rw [ih inner]
      simp

def decimal (number : Nat) : Text :=
  Nat.toDigits 10 number

def isNumber (text : Text) : Bool :=
  !text.isEmpty && text.all Char.isDigit

/-- Reads decimal digits after at most one plus sign; the value has to stay below `bound`. -/
def numberBelow? (bound : Nat) (text : Text) : Option Nat :=
  let digits := (afterLead? ['+'] text).getD text
  let value := Nat.ofDigitChars 10 digits 0
  if isNumber digits && value < bound then some value else none

theorem value_decimal (number : Nat) : Nat.ofDigitChars 10 (decimal number) 0 = number :=
  Nat.ofDigitChars_toDigits (by decide) (by decide)

def isBlank (c : Char) : Bool :=
  let code := c.toNat
  (9 ≤ code && code ≤ 13) || code == 0x20 || code == 0x85 || code == 0xA0 || code == 0x1680 ||
    (0x2000 ≤ code && code ≤ 0x200A) || code == 0x2028 || code == 0x2029 || code == 0x202F ||
    code == 0x205F || code == 0x3000

/-- Space, tab, line feed, form feed and carriage return: the blanks that end a keyword. -/
def isPlainBlank (c : Char) : Bool :=
  c == ' ' || c == '\t' || c == '\n' || c == '\x0c' || c == '\r'

def trimStart (text : Text) : Text :=
  text.dropWhile isBlank

def trimEnd (text : Text) : Text :=
  dropEndWhile isBlank text

def trim (text : Text) : Text :=
  strip isBlank text

def words (text : Text) : List Text :=
  (text.splitOnP isBlank).filter fun word => !word.isEmpty

def compact (text : Text) : Text :=
  text.filter fun c => !isBlank c

theorem isBlank_of_isPlainBlank {c : Char} (plain : isPlainBlank c = true) : isBlank c = true := by
  simp only [isPlainBlank, Bool.or_eq_true, beq_iff_eq] at plain
  rcases plain with (((rfl | rfl) | rfl) | rfl) | rfl <;> decide

end Text

end TriggerLogic
