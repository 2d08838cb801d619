import Mathlib.Data.List.Induction
import TriggerLogic.Proofs.PathPlaces
import TriggerLogic.Proofs.Recompilation
import TriggerLogic.Proofs.TextCuts

namespace TriggerLogic

inductive SettingsKey where
  | namePrefix
  | outDirectory
  | inputsMarker
  | outputsMarker
  deriving DecidableEq, Repr

def SettingsKey.name : SettingsKey → Text
  | namePrefix => "prefix".toList
  | outDirectory => "out_dir".toList
  | inputsMarker => "inputs_marker".toList
  | outputsMarker => "outputs_marker".toList

theorem SettingsKey.solid_name (key : SettingsKey) : key.name.Solid := by
  apply Text.solid_of_forall <;> cases key <;> decide

/-- A line `key = "value"`, with any blanks at its ends and around the equals sign. -/
structure SettingsEntry where
  lead : Text
  key : SettingsKey
  left : Text
  right : Text
  value : Text
  tail : Text
  blank : (lead ++ left ++ right ++ tail).AllBlank
  opens : value.head? ≠ some '"'
  closes : value.getLast? ≠ some '"'
  single : '\n' ∉ lead ++ left ++ right ++ value ++ tail

def SettingsEntry.text (entry : SettingsEntry) : Text :=
  entry.lead ++ entry.key.name ++ entry.left ++
    '=' :: (entry.right ++ ('"' :: entry.value ++ ['"']) ++ entry.tail)

def SettingsEntry.plain (key : SettingsKey) (value : Text) (opens : value.head? ≠ some '"')
    (closes : value.getLast? ≠ some '"') (single : '\n' ∉ value) : SettingsEntry where
  lead := []
  key := key
  left := [' ']
  right := [' ']
  value := value
  tail := []
  blank := by decide
  opens := opens
  closes := closes
  single := by simpa using single

inductive SettingsLine where
  | blank (text : Text) (blank : text.AllBlank) (single : '\n' ∉ text)
  | silent (lead : Text) (mark : Char) (rest : Text) (blank : lead.AllBlank)
    (marks : mark = '#' ∨ mark = '[') (single : '\n' ∉ lead ++ rest)
  | unknown (key value : Text) (plain : '=' ∉ key)
    (other : ∀ known : SettingsKey, Settings.bare key ≠ known.name) (single : '\n' ∉ key ++ value)
  | entry (written : SettingsEntry)

namespace SettingsLine

def text : SettingsLine → Text
  | blank text _ _ => text
  | silent lead mark rest _ _ _ => lead ++ mark :: rest
  | unknown key value _ _ _ => key ++ '=' :: value
  | entry written => written.text

def value? (key : SettingsKey) : SettingsLine → Option Text
  | entry written => if written.key = key then some written.value else none
  | _ => none

def lastValue? (key : SettingsKey) (lines : List SettingsLine) : Option Text :=
  (lines.filterMap (value? key)).getLast?

def fileText (lines : List SettingsLine) : Text :=
  Text.join ['\n'] (lines.map text)

theorem lineFeed_not_mem_text (line : SettingsLine) : '\n' ∉ line.text := by
  cases line with
  | blank text blank single => exact single
  | silent lead mark rest blank marks single =>
    rw [List.mem_append, not_or] at single
    have other : '\n' ≠ mark := by
      rintro rfl
      simp at marks
    simp [text, single, other]
  | unknown key value plain other single =>
    rw [List.mem_append, not_or] at single
    simp [text, single]
  | entry written =>
    have single := written.single
    have named : '\n' ∉ written.key.name := by cases written.key <;> decide
    simp only [List.mem_append, not_or] at single
    simp [text, SettingsEntry.text, single, named]

theorem lastValue?_concat (key : SettingsKey) (lines : List SettingsLine) (line : SettingsLine) :
    lastValue? key (lines ++ [line]) = (line.value? key).or (lastValue? key lines) := by
  rw [lastValue?, List.filterMap_append, List.getLast?_append]
  cases found : line.value? key with
  | none => simp [found, lastValue?]
  | some value => simp [found]

end SettingsLine

namespace Settings

def takeLine (root : Path) (settings : Settings) (line : Text) : Settings :=
  match pair? line with
  | none => settings
  | some (key, value) => settings.set root key value

theorem takeLine_congr {line other : Text} (same : Text.trim line = Text.trim other) (root : Path)
    (settings : Settings) : settings.takeLine root line = settings.takeLine root other := by
  rw [takeLine, takeLine, pair?, pair?, same]

theorem ofText_eq (root : Path) (text : Text) :
    ofText root text = check ((Text.lines text).foldl (takeLine root) {}) := by
  rw [ofText]
  simp only [List.foldl_filterMap, List.foldl_map]
  congr 2
  funext settings line
  rw [takeLine_congr (Text.trim_withoutLineEnd line).symm, takeLine]
  cases pair? (Text.withoutLineEnd line) <;> rfl

theorem foldl_takeLine_join {root : Path} {lines : List Text} (single : ∀ line ∈ lines, '\n' ∉ line)
    (settings : Settings) :
    (Text.lines (Text.join ['\n'] lines)).foldl (takeLine root) settings =
      lines.foldl (takeLine root) settings := by
  induction lines generalizing settings with
  | nil => rfl
  | cons line lines ih =>
    rw [List.forall_mem_cons] at single
    cases lines with
    | nil =>
      rw [Text.join, List.intercalate_singleton]
      by_cases empty : line = []
      · rw [empty]
        rfl
      · rw [Text.lines_of_single single.1 empty]
    | cons next lines =>
      have feed : Text.trim (line ++ ['\n']) = Text.trim line := Text.trim_append_blank (by decide) line
      rw [Text.join, List.intercalate_cons_cons, List.append_assoc, List.singleton_append,
        Text.lines_append_lineFeed single.1, List.foldl_cons, List.foldl_cons, takeLine_congr feed]
      exact ih single.2 _

theorem pair?_cut {before after : Text} (plain : '=' ∉ before)
    (speaks : isSilent (Text.trim (before ++ '=' :: after)) = false) :
    pair? (before ++ '=' :: after) = some (bare before, bare after) := by
  have fresh : '=' ∉ Text.trimStart before := fun member =>
    plain ((List.dropWhile_suffix _).subset member)
  have cut := @Text.cut?_append '=' [] _ fresh (Text.trimEnd after)
  rw [List.append_assoc, List.singleton_append] at cut
  rw [pair?]
  simp only [speaks, Bool.false_eq_true, if_false]
  rw [Text.trim_append_dark (by decide), cut]
  simp only [Option.map_some, bare, Text.trim_trimStart, Text.trim_trimEnd]

theorem set_unknown {key : Text} (other : ∀ known : SettingsKey, key ≠ known.name) (root : Path)
    (settings : Settings) (value : Text) : settings.set root key value = settings :=
  (if_neg (other .namePrefix)).trans <| (if_neg (other .outDirectory)).trans <|
    (if_neg (other .inputsMarker)).trans <| if_neg (other .outputsMarker)

theorem set_name (root : Path) (settings : Settings) (key : SettingsKey) (value : Text) :
    settings.set root key.name value = match key with
      | .namePrefix => { settings with namePrefix := value }
      | .outDirectory => { settings with outDirectory := some (root.join value) }
      | .inputsMarker => { settings with markers := { settings.markers with inputs := value } }
      | .outputsMarker => { settings with markers := { settings.markers with outputs := value } } := by
  cases key <;> rfl

/-- What the last line of each key says, and the defaults for the keys without a line. -/
def settled (root : Path) (lines : List SettingsLine) : Settings where
  namePrefix := (SettingsLine.lastValue? .namePrefix lines).getD "ftd".toList
  outDirectory := (SettingsLine.lastValue? .outDirectory lines).map root.join
  markers :=
    { inputs := (SettingsLine.lastValue? .inputsMarker lines).getD "Inputs".toList
      outputs := (SettingsLine.lastValue? .outputsMarker lines).getD "Outputs".toList }

theorem settled_concat_of_none {line : SettingsLine} (none : ∀ key, line.value? key = none) (root : Path)
    (lines : List SettingsLine) : settled root (lines ++ [line]) = settled root lines := by
  simp only [settled, SettingsLine.lastValue?_concat, none, Option.none_or]

theorem settled_concat_entry (root : Path) (lines : List SettingsLine) (written : SettingsEntry) :
    settled root (lines ++ [.entry written]) =
      (settled root lines).set root written.key.name written.value := by
  rw [set_name]
  cases key : written.key <;>
    simp [settled, SettingsLine.lastValue?_concat, SettingsLine.value?, key]

theorem solid_quoted (value : Text) : Text.Solid ('"' :: value ++ ['"']) :=
  (Text.solid_singleton (by decide)).append (Text.solid_singleton (by decide)) value

theorem bare_quoted {lead value tail : Text} (leadBlank : lead.AllBlank) (tailBlank : tail.AllBlank)
    (opens : value.head? ≠ some '"') (closes : value.getLast? ≠ some '"') :
    bare (lead ++ ('"' :: value ++ ['"']) ++ tail) = value := by
  have quote : ∀ c ∈ ['"'], (c == '"') = true := by decide
  rw [bare, Text.trim_of_solid leadBlank (solid_quoted value) tailBlank]
  refine (Text.strip_append quote quote value).trans (Text.strip_eq_self ?_ ?_)
  · intro c found
    rw [beq_eq_false_iff_ne]
    exact fun quoted => opens (quoted ▸ found)
  · intro c found
    rw [beq_eq_false_iff_ne]
    exact fun quoted => closes (quoted ▸ found)

theorem bare_name {lead tail : Text} (leadBlank : lead.AllBlank) (tailBlank : tail.AllBlank)
    (key : SettingsKey) : bare (lead ++ key.name ++ tail) = key.name := by
  rw [bare, Text.trim_of_solid leadBlank key.solid_name tailBlank]
  cases key <;> decide

theorem pair?_entry (written : SettingsEntry) :
    pair? written.text = some (written.key.name, written.value) := by
  obtain ⟨⟨⟨leadBlank, leftBlank⟩, rightBlank⟩, tailBlank⟩ :
      ((written.lead.AllBlank ∧ written.left.AllBlank) ∧ written.right.AllBlank) ∧
        written.tail.AllBlank := by
    simpa only [Text.AllBlank, List.forall_mem_append] using written.blank
  have plain : '=' ∉ written.lead ++ written.key.name ++ written.left := by
    have named : '=' ∉ written.key.name := by cases written.key <;> decide
    simp only [List.mem_append, not_or]
    exact ⟨⟨leadBlank.not_mem (by decide), named⟩, leftBlank.not_mem (by decide)⟩
  have speaks : isSilent (Text.trim written.text) = false := by
    have solid := written.key.solid_name.append (solid_quoted written.value)
      (written.left ++ '=' :: written.right)
    have core := Text.trim_of_solid leadBlank solid tailBlank
    have shape : written.text = written.lead ++ (written.key.name ++
        (written.left ++ '=' :: written.right) ++ ('"' :: written.value ++ ['"'])) ++ written.tail := by
      simp [SettingsEntry.text]
    rw [shape, core]
    cases written.key <;> rfl
  rw [SettingsEntry.text, pair?_cut plain speaks, bare_name leadBlank leftBlank,
    bare_quoted rightBlank tailBlank written.opens written.closes]

theorem takeLine_settled (root : Path) (lines : List SettingsLine) (line : SettingsLine) :
    (settled root lines).takeLine root line.text = settled root (lines ++ [line]) := by
  cases line with
  | blank text blank single =>
    rw [settled_concat_of_none fun _ => rfl]
    exact @takeLine_congr text [] (Text.trim_of_allBlank blank) root _
  | silent lead mark rest blank marks single =>
    have dark : Text.isBlank mark = false := by
      rcases marks with rfl | rfl <;> decide
    have none : pair? (lead ++ mark :: rest) = none := by
      have start : Text.trimStart lead = [] := List.dropWhile_eq_nil_iff.mpr blank
      rw [pair?, Text.trim_append_dark dark, start, List.nil_append]
      rcases marks with rfl | rfl <;> rfl
    rw [settled_concat_of_none fun _ => rfl, takeLine, SettingsLine.text, none]
  | unknown key value plain other single =>
    rw [settled_concat_of_none fun _ => rfl, takeLine, SettingsLine.text]
    cases speaks : isSilent (Text.trim (key ++ '=' :: value)) with
    | true => simp only [pair?, speaks, if_true]
    | false =>
      rw [pair?_cut plain speaks]
      exact set_unknown other root _ _
  | entry written =>
    rw [settled_concat_entry, takeLine, SettingsLine.text, pair?_entry]

theorem ofText_fileText (root : Path) (lines : List SettingsLine) :
    ofText root (SettingsLine.fileText lines) = check (settled root lines) := by
  have folded : (lines.map SettingsLine.text).foldl (takeLine root) {} = settled root lines := by
    induction lines using List.reverseRecOn with
    | nil => rfl
    | append_singleton lines line ih =>
      rw [List.map_append, List.foldl_append, ih]
      exact takeLine_settled root lines line
  rw [ofText_eq, SettingsLine.fileText, foldl_takeLine_join, folded]
  rw [List.forall_mem_map]
  exact fun line _ => line.lineFeed_not_mem_text

theorem load_fileText {session : Session} {path root : Path} {lines : List SettingsLine}
    (there : session.files.readText path = .ok (SettingsLine.fileText lines))
    (parent : path.parent? = some root) :
    (load path : StateM Session _) session =
      ((check (settled root lines)).mapError (Fault.settings path), session) := by
  rw [Session.load_run, FileTree.loadSettings, there, parent]
  simp only [Option.getD_some, ofText_fileText]
  cases check (settled root lines) <;> rfl

/-- The lines of a settings file may come in any order and repeat their keys: each key has the value
of its last line, and a file is refused for what its last lines say only. -/
theorem last_lines_settle {session : Session} {path : Path} {lines : List SettingsLine}
    (there : session.files.readText path = .ok (SettingsLine.fileText lines)) :
    ∃ root final, path.parent? = some root ∧ final = settled root lines ∧
      (final.Usable → (load path : StateM Session _) session = (.ok final, session)) ∧
      ((∃ fault, (load path : StateM Session _) session = (.error (.settings path fault), session)) ↔
        Text.isIdentifier final.namePrefix = false ∨ final.markers.inputs = [] ∨
          final.markers.outputs = []) := by
  obtain ⟨location, leads, file⟩ := FileTree.entry_eq_ok_iff.mp (FileTree.readText_eq_ok_iff.mp there)
  obtain ⟨root, parent⟩ := FileTree.exists_parent_of_file leads (by simp [file])
  refine ⟨root, settled root lines, parent, rfl, ?_, ?_⟩
  · intro usable
    rw [load_fileText there parent, check_of_usable usable]
    rfl
  · rw [load_fileText there parent, ← not_usable_iff]
    constructor
    · rintro ⟨fault, failed⟩ usable
      rw [check_of_usable usable] at failed
      cases failed
    · intro refused
      obtain ⟨fault, failed⟩ := check_of_not_usable refused
      exact ⟨fault, by rw [failed]; rfl⟩

def mixedLines : List SettingsLine :=
  [.silent [] '[' "compiler]".toList (by decide) (by decide) (by decide),
    .entry (.plain .namePrefix "9ftd".toList (by decide) (by decide) (by decide)),
    .unknown "colour ".toList " \"blue\"".toList (by decide)
      (fun known => by cases known <;> decide) (by decide),
    .blank [' ', '\r'] (by decide) (by decide),
    .entry (.plain .inputsMarker "In = #1".toList (by decide) (by decide) (by decide)),
    .entry (.plain .namePrefix "gdl".toList (by decide) (by decide) (by decide)),
    .entry (.plain .outDirectory "out".toList (by decide) (by decide) (by decide))]

def mixedSession : Session where
  files := { entries := [(["conf".toList], .directory),
    (["conf".toList, "ftdc.toml".toList], .text (SettingsLine.fileText mixedLines))] }

theorem mixedSession_settled :
    (load "conf/ftdc.toml".toList : StateM Session _) mixedSession =
      (.ok ⟨"gdl".toList, some "conf/out".toList, ⟨"In = #1".toList, "Outputs".toList⟩⟩,
        mixedSession) := by
  have there : mixedSession.files.readText "conf/ftdc.toml".toList =
      .ok (SettingsLine.fileText mixedLines) := by decide +kernel
  obtain ⟨root, final, parent, rfl, loads, -⟩ := last_lines_settle there
  have directory : Path.parent? "conf/ftdc.toml".toList = some "conf".toList := by decide +kernel
  cases parent.symm.trans directory
  have values : settled "conf".toList mixedLines =
      ⟨"gdl".toList, some "conf/out".toList, ⟨"In = #1".toList, "Outputs".toList⟩⟩ := by
    decide +kernel
  rw [values] at loads
  exact loads ⟨by decide, by decide, by decide⟩

end Settings

end TriggerLogic
