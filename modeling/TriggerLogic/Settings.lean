import TriggerLogic.Fault
import TriggerLogic.Files.Access
import TriggerLogic.Source.DesignUnit

namespace TriggerLogic

structure Settings where
  namePrefix : Text := "ftd".toList
  outDirectory : Option Path := none
  markers : Markers := {}
  deriving DecidableEq, Repr

namespace Settings

def fileName : Text := "ftdc.toml".toList

def isSilent (line : Text) : Bool :=
  line.isEmpty || line.head? == some '#' || line.head? == some '['

def bare (text : Text) : Text :=
  Text.strip (· == '"') (Text.trim text)

def pair? (line : Text) : Option (Text × Text) :=
  let line := Text.trim line
  if isSilent line then none
  else (Text.cut? ['='] line).map fun parts => (bare parts.1, bare parts.2)

def set (root : Path) (settings : Settings) (key value : Text) : Settings :=
  if key = "prefix".toList then { settings with namePrefix := value }
  else if key = "out_dir".toList then { settings with outDirectory := some (root.join value) }
  else if key = "inputs_marker".toList then
    { settings with markers := { settings.markers with inputs := value } }
  else if key = "outputs_marker".toList then
    { settings with markers := { settings.markers with outputs := value } }
  else settings

def check (settings : Settings) : Except SettingsFault Settings :=
  if !Text.isIdentifier settings.namePrefix then .error .badNamePrefix
  else if settings.markers.inputs.isEmpty || settings.markers.outputs.isEmpty then .error .emptyMarker
  else .ok settings

/-- Reads the text of a settings file in the directory `root`; of equal keys the last one counts. -/
def ofText (root : Path) (text : Text) : Except SettingsFault Settings :=
  let pairs := ((Text.lines text).map Text.withoutLineEnd).filterMap pair?
  check (pairs.foldl (fun settings pair => settings.set root pair.1 pair.2) {})

variable {m : Type → Type} [Monad m] [FileAccess m]

def load (path : Path) : m (Except Fault Settings) := do
  match ← FileAccess.readText path with
  | .error fault => pure (.error (.access path fault))
  | .ok text =>
    match ofText (path.parent?.getD ['.']) text with
    | .error fault => pure (.error (.settings path fault))
    | .ok settings => pure (.ok settings)

/-- The settings file of the given directory or of the nearest one above it. -/
def find? (directory : Path) : m (Option Path) :=
  FileAccess.firstPresent? ((directory :: directory.parents).map fun place => place.join fileName)

def discover (directory : Path) : m (Except Fault Settings) := do
  match ← find? directory with
  | some path => load path
  | none => pure (.ok {})

end Settings

end TriggerLogic
