import TriggerLogic.Proofs.SettingsLines
import TriggerLogic.Proofs.SourceRoundTrip

namespace TriggerLogic

namespace Settings

variable {root : Path} {settings : Settings}

def MarkersInline (settings : Settings) : Prop :=
  '\n' ∉ settings.markers.inputs ∧ '\n' ∉ settings.markers.outputs

theorem bare_subset (text : Text) : bare text ⊆ text := fun _ member =>
  Text.trim_subset text (Text.strip_subset _ _ member)

theorem value_subset_of_pair? {line key value : Text} (found : pair? line = some (key, value)) :
    value ⊆ Text.trim line := by
  unfold pair? at found
  simp only at found
  split at found
  · cases found
  · obtain ⟨parts, cut, same⟩ := Option.map_eq_some_iff.mp found
    cases same
    intro c member
    rw [Text.cut?_eq_some cut]
    exact List.mem_append_right _ (bare_subset _ member)

theorem MarkersInline.set {value : Text} (inline : settings.MarkersInline) (single : '\n' ∉ value)
    (key : Text) : (settings.set root key value).MarkersInline := by
  unfold Settings.set
  split
  · exact inline
  split
  · exact inline
  split
  · exact ⟨single, inline.2⟩
  split
  · exact ⟨inline.1, single⟩
  · exact inline

theorem MarkersInline.takeLine {line : Text} (inline : settings.MarkersInline)
    (single : '\n' ∉ Text.trim line) : (settings.takeLine root line).MarkersInline := by
  unfold Settings.takeLine
  split
  · exact inline
  · rename_i found
    exact inline.set (fun member => single (value_subset_of_pair? found member)) _

theorem lineFeed_not_mem_trim {text raw : Text} (listed : raw ∈ Text.lines text) :
    '\n' ∉ Text.trim raw := by
  obtain ⟨front, single, shape⟩ := Text.cases_of_mem_lines listed
  have same : Text.trim raw = Text.trim front := by
    rcases shape with rfl | rfl
    · rfl
    · exact Text.trim_append_blank (by decide) front
  rw [same]
  exact fun member => single (Text.trim_subset front member)

theorem markersInline_of_ofText {text : Text} (read : ofText root text = .ok settings) :
    settings.MarkersInline := by
  rw [ofText_eq] at read
  obtain ⟨-, rfl⟩ := check_eq_ok read
  have start : Settings.MarkersInline {} := ⟨by decide, by decide⟩
  have each : ∀ raw ∈ Text.lines text, '\n' ∉ Text.trim raw := fun _ => lineFeed_not_mem_trim
  clear read
  generalize ({} : Settings) = settings at start
  generalize Text.lines text = lines at each
  induction lines generalizing settings with
  | nil => exact start
  | cons raw lines ih =>
    rw [List.forall_mem_cons] at each
    exact ih _ (start.takeLine each.1) each.2

end Settings

section Label

/-- Only blanks and the characters that rules are made of. -/
def Text.AllRule (text : Text) : Prop :=
  ∀ c ∈ text, isRule c = true

instance (text : Text) : Decidable text.AllRule :=
  inferInstanceAs (Decidable (∀ c ∈ text, _))

variable {markers : Markers} {comment : Text}

theorem markerLabel_eq_nil_iff {text : Text} : markerLabel text = [] ↔ text.AllRule := by
  rw [markerLabel, Text.lower, List.map_eq_nil_iff]
  exact Text.strip_eq_nil_iff

theorem partOpenedBy?_rule (rule : comment.AllRule) :
    markers.partOpenedBy? comment =
      if markers.inputs.AllRule then some .inputs
      else if markers.outputs.AllRule then some .outputs
      else none := by
  have same : ∀ marker, markerLabel comment = markerLabel marker ↔ marker.AllRule := by
    intro marker
    rw [markerLabel_eq_nil_iff.mpr rule, eq_comm]
    exact markerLabel_eq_nil_iff
  exact if_congr (same _) rfl (if_congr (same _) rfl rfl)

end Label

structure CommentLine (raw comment : Text) : Prop where
  comment : Line.comment? raw = some comment
  code : Text.trim (Line.code raw) = []

def markerComment (marker : Text) : Text :=
  '-' :: '-' :: ' ' :: marker

theorem commentLine_markerComment (marker ends : Text) :
    CommentLine (markerComment marker ++ ends) (Line.body (' ' :: marker ++ ends)) where
  comment := Line.comment?_comment _
  code := by
    have bare := Line.code_comment (' ' :: marker ++ ends)
    exact (congrArg Text.trim bare).trans rfl

theorem markerLabel_markerComment (marker : Text) {ends : Text}
    (areEnds : ∀ c ∈ ends, Line.isEnd c = true) :
    markerLabel (Line.body (' ' :: marker ++ ends)) = markerLabel marker := by
  rw [markerLabel_body]
  exact @markerLabel_append [' '] ends (by decide) (fun c member => isRule_of_isEnd (areEnds c member))
    marker

/-- Markers that a settings file may set say something, each on one line, and the comment of the
inputs marker opens the inputs. That of the outputs marker opens the outputs exactly if the two
labels differ, and a line of rules opens a part exactly if a marker is nothing but rules. -/
theorem accepted_markers_open_parts {session after : Session} {path : Path} {settings : Settings}
    (accepted : (Settings.load path : StateM Session _) session = (.ok settings, after)) :
    (∀ marker ∈ [settings.markers.inputs, settings.markers.outputs], marker ≠ [] ∧ '\n' ∉ marker) ∧
    (∀ (reading : Reading) (offset : Nat) (raw comment : Text), CommentLine raw comment →
      comment.AllRule → ∃ next, reading.step settings.markers offset raw = .ok next ∧
        next.part = if reading.part = .body then .body
          else if settings.markers.inputs.AllRule then .inputs
          else if settings.markers.outputs.AllRule then .outputs
          else reading.part) ∧
    ∀ (reading : Reading) (offset : Nat) (ends : Text), reading.part ≠ .body →
      (∀ c ∈ ends, Line.isEnd c = true) →
        reading.step settings.markers offset (markerComment settings.markers.inputs ++ ends) =
          .ok { reading with part := .inputs } ∧
        reading.step settings.markers offset (markerComment settings.markers.outputs ++ ends) =
          .ok { reading with
            part := if markerLabel settings.markers.outputs = markerLabel settings.markers.inputs
              then .inputs else .outputs } := by
  rw [Session.load_run] at accepted
  obtain ⟨text, -, read⟩ := FileTree.loadSettings_eq_ok (congrArg Prod.fst accepted)
  have usable := Settings.usable_of_ofText read
  have inline := Settings.markersInline_of_ofText read
  refine ⟨?_, ?_, ?_⟩
  · rw [List.forall_mem_cons, List.forall_mem_singleton]
    exact ⟨⟨usable.inputs, inline.1⟩, usable.outputs, inline.2⟩
  · intro reading offset raw comment line rule
    by_cases body : reading.part = .body
    · rw [Reading.step, if_pos body, if_pos body]
      exact ⟨_, rfl, body⟩
    · rw [Reading.step_comment line.comment line.code body, partOpenedBy?_rule rule, if_neg body]
      refine ⟨_, rfl, ?_⟩
      split
      · rfl
      · split <;> rfl
  · intro reading offset ends header areEnds
    constructor
    · have line := commentLine_markerComment settings.markers.inputs ends
      rw [Reading.step_comment line.comment line.code header, Markers.partOpenedBy?,
        markerLabel_markerComment _ areEnds, if_pos rfl]
      rfl
    · have line := commentLine_markerComment settings.markers.outputs ends
      rw [Reading.step_comment line.comment line.code header, Markers.partOpenedBy?,
        markerLabel_markerComment _ areEnds, if_pos rfl]
      split <;> rfl

def markerSession (marker : Text) : Session where
  files := { entries := [(["ftdc.toml".toList],
    .text ("inputs_marker = \"".toList ++ marker ++ "\"\n".toList))] }

def markerSettings (marker : Text) : Settings where
  markers := { inputs := marker }

theorem load_markerSession {marker : Text}
    (read : (markerSession marker).files.loadSettings "ftdc.toml".toList = .ok (markerSettings marker)) :
    (Settings.load "ftdc.toml".toList : StateM Session _) (markerSession marker) =
      (.ok (markerSettings marker), markerSession marker) := by
  rw [Session.load_run, read]

def outputsReading : Reading where
  part := .outputs

theorem namedMarker_opens_inputs :
    (Settings.load "ftdc.toml".toList : StateM Session _) (markerSession "PSNM inputs".toList) =
      (.ok (markerSettings "PSNM inputs".toList), markerSession "PSNM inputs".toList) ∧
    (∃ next, outputsReading.step (markerSettings "PSNM inputs".toList).markers 11 "-- ==:==\n".toList =
      .ok next ∧ next.part = .outputs) ∧
    Reading.step (markerSettings "PSNM inputs".toList).markers {} 0 "-- PSNM inputs\n".toList =
      .ok { part := .inputs } ∧
    Reading.step (markerSettings "PSNM inputs".toList).markers {} 0 "-- Outputs\n".toList =
      .ok { part := .outputs } := by
  have read : (markerSession "PSNM inputs".toList).files.loadSettings "ftdc.toml".toList =
      .ok (markerSettings "PSNM inputs".toList) := by decide +kernel
  have accepted := load_markerSession read
  obtain ⟨-, rules, comments⟩ := accepted_markers_open_parts accepted
  have line : CommentLine "-- ==:==\n".toList " ==:==".toList := ⟨by decide +kernel, by decide +kernel⟩
  obtain ⟨inputs, outputs⟩ := comments {} 0 ['\n'] (by decide) (by decide)
  exact ⟨accepted, rules outputsReading 11 _ _ line (by decide), inputs, outputs⟩

/-- Both files are accepted. With the first one a rule among the outputs opens the inputs; with the
second one so does the comment of the outputs marker. -/
theorem ruleMarker_opens_inputs :
    (Settings.load "ftdc.toml".toList : StateM Session _) (markerSession "---".toList) =
        (.ok (markerSettings "---".toList), markerSession "---".toList) ∧
      CommentLine "----------\n".toList "--------".toList ∧ Text.AllRule "--------".toList ∧
      outputsReading.step (markerSettings "---".toList).markers 33 "----------\n".toList =
        .ok { part := .inputs } ∧
      (Settings.load "ftdc.toml".toList : StateM Session _) (markerSession "outputs:".toList) =
        (.ok (markerSettings "outputs:".toList), markerSession "outputs:".toList) ∧
      Reading.step (markerSettings "outputs:".toList).markers {} 0
        (markerComment (markerSettings "outputs:".toList).markers.outputs ++ ['\n']) =
        .ok { part := .inputs } :=
  ⟨load_markerSession (by decide +kernel), ⟨by decide +kernel, by decide +kernel⟩, by decide,
    by decide +kernel, load_markerSession (by decide +kernel), by decide +kernel⟩

end TriggerLogic
