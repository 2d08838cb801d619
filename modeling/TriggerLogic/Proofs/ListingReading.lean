import TriggerLogic.Proofs.ClauseText
import TriggerLogic.Proofs.ListingRoundTrip

namespace TriggerLogic

namespace Text

def LineEnded (text : Text) : Prop :=
  text = [] ∨ ∃ front, text = front ++ ['\n']

theorem LineEnded.lines_append {first : Text} (ended : first.LineEnded) (second : Text) :
    lines (first ++ second) = lines first ++ lines second := by
  rcases ended with rfl | ⟨front, rfl⟩
  · rfl
  · rw [List.append_assoc, List.singleton_append]
    exact Text.lines_append front second

theorem length_lines_lineFeed (front : Text) :
    (lines (front ++ ['\n'])).length = (front ++ ['\n']).count '\n' := by
  induction front with
  | nil => rfl
  | cons c front ih =>
    by_cases feed : c = '\n'
    · subst feed
      rw [List.cons_append, lines, if_pos rfl, List.length_cons, ih, List.count_cons_self]
    · rw [List.cons_append, lines, if_neg feed, List.count_cons_of_ne feed, ← ih]
      cases found : lines (front ++ ['\n']) with
      | nil =>
        have whole := lines_flatten (front ++ ['\n'])
        rw [found] at whole
        simp at whole
      | cons line more => rfl

theorem LineEnded.length_lines {text : Text} (ended : text.LineEnded) :
    (lines text).length = text.count '\n' := by
  rcases ended with rfl | ⟨front, rfl⟩
  · rfl
  · exact length_lines_lineFeed front

end Text

namespace Listing

section Image

variable {text : Text}

theorem bit_lt_of_readLiteral {literal : Literal} (read : readLiteral text = .ok literal) :
    literal.bit < indexBound := by
  unfold readLiteral at read
  simp only at read
  split at read
  · rename_i bit number
    cases read
    exact (Text.numberBelow?_eq_some_iff.mp number).2
  · cases read

theorem items_of_splitOn {α : Type} {separator : Char} {reader : Text → Except ListingFault α}
    {items : List α} (read : (text.splitOn separator).mapM reader = .ok items) :
    items ≠ [] ∧ ∀ item ∈ items, ∃ part, reader part = .ok item := by
  rw [mapM_eq_ok_iff] at read
  constructor
  · intro none
    rw [none, List.forall₂_nil_right_iff] at read
    exact List.splitOn_ne_nil _ _ read
  · intro item listed
    exact exists_of_forall₂ read.flip listed

theorem over_of_readProduct {product : Product} (read : readProduct text = .ok product) :
    product.Over (· < indexBound) := by
  obtain ⟨nonempty, each⟩ := items_of_splitOn read
  refine ⟨nonempty, ?_⟩
  intro literal listed
  obtain ⟨part, found⟩ := each literal listed
  exact bit_lt_of_readLiteral found

theorem over_of_readSum {sum : SumOfProducts} (read : readSum text = .ok sum) :
    sum ≠ [] ∧ sum.Over (· < indexBound) := by
  obtain ⟨nonempty, each⟩ := items_of_splitOn read
  refine ⟨nonempty, ?_⟩
  intro product listed
  obtain ⟨part, found⟩ := each product listed
  exact over_of_readProduct found

theorem readable_of_readLine {line : ListingLine} (read : readLine text = .ok line) :
    line.Readable := by
  unfold readLine at read
  split at read
  · cases read
  split at read
  · cases read
  rename_i bit number
  split at read
  · cases read
  obtain ⟨sum, found, rfl⟩ := map_eq_ok_iff.mp read
  obtain ⟨nonempty, covered⟩ := over_of_readSum found
  exact ⟨(Text.numberBelow?_eq_some_iff.mp number).2, nonempty, covered⟩

theorem readable_of_readFrom {number : Nat} {texts : List Text} {lines : List ListingLine}
    (read : readFrom number texts = .ok lines) : ∀ line ∈ lines, line.Readable := by
  induction texts generalizing number lines with
  | nil =>
    cases read
    simp
  | cons text texts ih =>
    rw [readFrom] at read
    split at read
    · exact ih read
    split at read
    · cases read
    · rename_i first found
      obtain ⟨later, behind, rfl⟩ := map_eq_ok_iff.mp read
      exact List.forall_mem_cons.mpr ⟨readable_of_readLine found, ih behind⟩

end Image

/-- Lines are read from some text exactly when they have products, all with literals, and numbers
below the bound. Their print is such a text, so printing what was read, however it was laid out, and
reading the print gives the same lines. -/
theorem readable_lines_are_the_image (lines : List ListingLine) :
    ((∃ source, read source = .ok lines) ↔ ∀ line ∈ lines, line.Readable) ∧
      ((∀ line ∈ lines, line.Readable) → read (text lines) = .ok lines) ∧
      ∀ source, read source = .ok lines → read (text lines) = .ok lines := by
  have image : ∀ source, read source = .ok lines → ∀ line ∈ lines, line.Readable :=
    fun source found => readable_of_readFrom found
  refine ⟨⟨?_, ?_⟩, read_text, ?_⟩
  · rintro ⟨source, found⟩
    exact image source found
  · intro readable
    exact ⟨text lines, read_text readable⟩
  · intro source found
    exact read_text (image source found)

def looseListing : Text :=
  ["\r\n", " +007 : (  03*!1\t+2 )\r\n", "   \n", "1 : (4)"].flatMap String.toList

def looseLines : List ListingLine :=
  [⟨7, [[.high 3, .low 1], [.high 2]]⟩, ⟨1, [[.high 4]]⟩]

theorem looseListing_read_again :
    read looseListing = .ok looseLines ∧ text looseLines ≠ looseListing ∧
      (∀ line ∈ looseLines, line.Readable) ∧ read (text looseLines) = .ok looseLines := by
  have found : read looseListing = .ok looseLines := by decide +kernel
  obtain ⟨image, -, again⟩ := readable_lines_are_the_image looseLines
  exact ⟨found, by decide +kernel, image.mp ⟨_, found⟩, again _ found⟩

def later (passed : Nat) (fault : Nat × ListingFault) : Nat × ListingFault :=
  (fault.1 + passed, fault.2)

theorem readFrom_append (number : Nat) (first second : List Text) :
    readFrom number (first ++ second) =
      (readFrom number first).bind fun lines =>
        (readFrom (number + first.length) second).map (lines ++ ·) := by
  induction first generalizing number with
  | nil =>
    rw [List.nil_append, readFrom, List.length_nil, Nat.add_zero]
    cases readFrom number second <;> rfl
  | cons line first ih =>
    have count : number + (line :: first).length = number + 1 + first.length := by
      rw [List.length_cons]
      omega
    rw [List.cons_append, readFrom, readFrom, ih, count]
    split
    · rfl
    split
    · rfl
    · cases readFrom (number + 1) first with
      | error fault => rfl
      | ok lines => cases readFrom (number + 1 + first.length) second <;> rfl

theorem readFrom_later (passed number : Nat) (lines : List Text) :
    readFrom (number + passed) lines = (readFrom number lines).mapError (later passed) := by
  induction lines generalizing number with
  | nil => rfl
  | cons line lines ih =>
    have count : number + passed + 1 = number + 1 + passed := by omega
    rw [readFrom, readFrom, count, ih]
    split
    · rfl
    split
    · rfl
    · cases readFrom (number + 1) lines <;> rfl

theorem read_append {first : Text} (ended : first.LineEnded) (second : Text) :
    read (first ++ second) =
      (read first).bind fun lines =>
        ((read second).mapError (later (Text.lines first).length)).map (lines ++ ·) := by
  have behind := readFrom_later (Text.lines first).length 1 ((Text.lines second).map Text.withoutLineEnd)
  rw [read, ended.lines_append, List.map_append, readFrom_append, List.length_map, behind]
  rfl

/-- Behind a text that ends its last line another text is read for itself. The lines of the two
follow one another, and the first fault is reported, with all lines before it counted. -/
theorem joined_listings_read_in_turn {first : Text} (ended : first.LineEnded) (second : Text) :
    (Text.lines first).length = first.count '\n' ∧
      (∀ lines more, read first = .ok lines → read second = .ok more →
        read (first ++ second) = .ok (lines ++ more)) ∧
      (∀ number fault, read first = .error (number, fault) →
        read (first ++ second) = .error (number, fault)) ∧
      ∀ lines number fault, read first = .ok lines → read second = .error (number, fault) →
        read (first ++ second) = .error (number + (Text.lines first).length, fault) := by
  refine ⟨ended.length_lines, ?_, ?_, ?_⟩
  · intro lines more found behind
    rw [read_append ended, found, behind]
    rfl
  · intro number fault refused
    rw [read_append ended, refused]
    rfl
  · intro lines number fault found refused
    rw [read_append ended, found, refused]
    rfl

def headListing : Text :=
  ["0 : ( 1 )\r\n", "\n"].flatMap String.toList

def faultyListing : Text :=
  ["\n", "1 : ( 2 * x )"].flatMap String.toList

theorem faultyListing_behind_headListing :
    headListing.LineEnded ∧ read headListing = .ok [⟨0, [[.high 1]]⟩] ∧
      read faultyListing = .error (2, .badLiteral ['x']) ∧
      read (headListing ++ faultyListing) = .error (4, .badLiteral ['x']) ∧
      read (headListing ++ headListing) = .ok [⟨0, [[.high 1]]⟩, ⟨0, [[.high 1]]⟩] := by
  have ended : headListing.LineEnded := .inr ⟨"0 : ( 1 )\r\n".toList, by decide⟩
  have found : read headListing = .ok [⟨0, [[.high 1]]⟩] := by decide +kernel
  have refused : read faultyListing = .error (2, .badLiteral ['x']) := by decide +kernel
  obtain ⟨-, -, -, fault⟩ := joined_listings_read_in_turn ended faultyListing
  obtain ⟨-, joined, -, -⟩ := joined_listings_read_in_turn ended headListing
  exact ⟨ended, found, refused, fault _ _ _ found refused, joined _ _ found found⟩

end Listing

end TriggerLogic
