import TriggerLogic.Source.Fault
import TriggerLogic.Text.Basic
import TriggerLogic.Text.Width

namespace TriggerLogic.Report

structure NumberedLine where
  number : Nat
  start : Nat
  text : Text
  deriving DecidableEq, Repr

def numberFrom : Nat → Nat → List Text → List NumberedLine
  | _, _, [] => []
  | number, start, line :: more =>
    ⟨number, start, line⟩ :: numberFrom (number + 1) (start + line.length) more

/-- The last line that starts at or before a position of the source. Lines end at line feeds: a source
is taken to have no other line separators, such as lone carriage returns, vertical tabs, form feeds or
U+0085, U+2028 and U+2029, at which a terminal report may break lines too. -/
def lineAt? (source : Text) (position : Nat) : Option NumberedLine :=
  if source.length < position then none
  else ((numberFrom 1 0 (Text.lines source)).filter fun line => line.start ≤ position).getLast?

/-- The lines that a span starts and ends on. Its offsets are taken for character positions. -/
def lineRange? (source : Text) (span : Span) : Option (NumberedLine × NumberedLine) :=
  if span = Span.nowhere then none
  else match lineAt? source span.start with
    | none => none
    | some first =>
      if span.start < span.stop then (lineAt? source (span.stop - 1)).map fun last => (first, last)
      else some (first, first)

/-- Columns that a character takes: a tab reaches to the next multiple of four, and every other
blank takes one. -/
def cellWidth (place : Nat) (c : Char) : Nat :=
  if c = '\t' then 4 - place % 4
  else if Text.isBlank c then 1
  else Text.displayWidth c

def shown (line : Text) : Text :=
  (Text.trimEnd line).zipIdx.flatMap fun entry =>
    if Text.isBlank entry.1 then List.replicate (cellWidth entry.2 entry.1) ' ' else [entry.1]

/-- Draws below the first `count` characters of a line: `mark` in the first column of each and
`tail` in the others. Below a character without columns nothing is drawn. -/
def drawRow (line : Text) (count : Nat) (mark tail : Nat → Char) : Text :=
  ((Text.trimEnd line ++ List.replicate count ' ').take count).zipIdx.flatMap fun entry =>
    match cellWidth entry.2 entry.1 with
    | 0 => []
    | more + 1 => mark entry.2 :: List.replicate more (tail entry.2)

def indent (width : Nat) (fill : Char) : Text :=
  List.replicate (width + 2) fill

def margin (width : Nat) : Text :=
  indent width ' ' ++ ['│']

def numberedLine (width : Nat) (line : NumberedLine) (connector : Text) : Text :=
  let number := Text.decimal line.number
  ' ' :: List.replicate (width - number.length) ' ' ++ number ++ " │ ".toList ++ connector ++
    shown line.text ++ ['\n']

def singleLine (width : Nat) (line : NumberedLine) (notice : Notice) : Text :=
  let start := notice.span.start - line.start
  let stop := notice.span.stop - line.start
  let middle := (notice.span.start + notice.span.stop) / 2 - line.start
  let inside := fun place => start ≤ place && place < stop
  let across := fun place => if inside place then '─' else ' '
  if line.start + line.text.length < notice.span.stop then margin width ++ [' ', '\n']
  else
    numberedLine width line [] ++
    margin width ++ ' ' :: drawRow line.text (stop + 2)
      (fun place => if place = middle then (if inside place then '┬' else '│') else across place)
      across ++
    '\n' :: margin width ++ ' ' :: drawRow line.text (stop + 2)
      (fun place => if place < middle then ' ' else if place = middle then '╰' else '─')
      (fun place => if place < middle then ' ' else '─') ++
    ' ' :: notice.message ++ ['\n']

/-- A label beside several lines: the first and the last are shown, with an arrow to each. One that
ends beyond its last line has only the first arrow. -/
def severalLines (width : Nat) (first last : NumberedLine) (notice : Notice) : Text :=
  let count := last.text.length + 2
  let gap := indent width ' ' ++ "┆ ┆   \n".toList
  numberedLine width first "╭─▶ ".toList ++
  if last.start + last.text.length < notice.span.stop then gap
  else
    (if 1 < last.number - first.number then gap else []) ++
    numberedLine width last "├─▶ ".toList ++
    margin width ++ " │   ".toList ++ drawRow last.text count (fun _ => ' ') (fun _ => ' ') ++
    '\n' :: margin width ++ " ╰───".toList ++ drawRow last.text count (fun _ => '─') (fun _ => '─') ++
    ' ' :: notice.message ++ ['\n']

def remarks (lead : Text) (notice : Notice) : Text :=
  let remark := fun (label text : Text) => lead ++ '\n' :: lead ++ label ++ text ++ ['\n']
  (notice.help.map (remark "Help: ".toList)).getD [] ++
    (notice.notes.getLast?.map (remark "Note: ".toList)).getD []

def remarkIndent (source : Text) (first last : NumberedLine) (span : Span) : Text :=
  if first.number = last.number then []
  else if (Text.lines source).head?.map List.length = some span.start then "│   ".toList
  else "    ".toList

def render (sourceName source : Text) (notice : Notice) : Text :=
  "Error: ".toList ++ notice.message ++ '\n' ::
  match lineRange? source notice.span with
  | none => []
  | some (first, last) =>
    let width := (Text.decimal last.number).length
    let column := notice.span.start - first.start + 1
    indent width ' ' ++ "╭─[".toList ++ sourceName ++ ':' :: Text.decimal first.number ++
      ':' :: Text.decimal column ++ "]\n".toList ++ margin width ++ '\n' ::
    (if first.number = last.number then singleLine width first notice
      else severalLines width first last notice) ++
    remarks (margin width ++ ' ' :: remarkIndent source first last notice.span) notice ++
    indent width '─' ++ "╯\n".toList

end TriggerLogic.Report
