import TriggerLogic.Files.Access

namespace TriggerLogic

abbrev Location := List Text

inductive FileEntry where
  | directory
  | text (content : Text)
  | binary (content : List UInt8)
  deriving DecidableEq, Repr

structure FileTree where
  workingDirectory : Location := []
  entries : List (Location × FileEntry) := []
  deriving DecidableEq, Repr

namespace FileTree

def entryAt? (tree : FileTree) (location : Location) : Option FileEntry :=
  if location.isEmpty then some .directory else tree.entries.lookup location

def stepTo (location : Location) (segment : Text) : Location :=
  if Path.isIdle segment then location
  else if segment = ['.', '.'] then location.dropLast
  else location ++ [segment]

def follow (tree : FileTree) : Location → List Text → Except AccessFault Location
  | location, [] => .ok location
  | location, segment :: more =>
    match tree.entryAt? location with
    | none => .error .notFound
    | some .directory => tree.follow (stepTo location segment) more
    | some _ => .error .notDirectory

def followSegments (tree : FileTree) (path : Path) (segments : List Text) :
    Except AccessFault Location :=
  if path.isEmpty then .error .notFound
  else tree.follow (if path.head? = some '/' then [] else tree.workingDirectory) segments

def locate (tree : FileTree) (path : Path) : Except AccessFault Location :=
  tree.followSegments path (path.splitOn '/')

def entry (tree : FileTree) (path : Path) : Except AccessFault FileEntry :=
  match tree.locate path with
  | .error fault => .error fault
  | .ok location =>
    match tree.entryAt? location with
    | none => .error .notFound
    | some entry => .ok entry

def isPresent (tree : FileTree) (path : Path) : Bool :=
  (tree.entry path).isOk

def isDirectory (tree : FileTree) (path : Path) : Bool :=
  match tree.entry path with
  | .ok .directory => true
  | _ => false

def isFile (tree : FileTree) (path : Path) : Bool :=
  match tree.entry path with
  | .ok (.text _) => true
  | .ok (.binary _) => true
  | _ => false

def readText (tree : FileTree) (path : Path) : Except AccessFault Text :=
  match tree.entry path with
  | .error fault => .error fault
  | .ok .directory => .error .isDirectory
  | .ok (.text content) => .ok content
  | .ok (.binary _) => .error .notText

def setEntry (location : Location) (entry : FileEntry) :
    List (Location × FileEntry) → List (Location × FileEntry)
  | [] => [(location, entry)]
  | first :: more =>
    if first.1 = location then (location, entry) :: more else first :: setEntry location entry more

def set (tree : FileTree) (location : Location) (entry : FileEntry) : FileTree :=
  { tree with entries := setEntry location entry tree.entries }

theorem lookup_entry (place location : Location) (entry : FileEntry)
    (more : List (Location × FileEntry)) :
    ((location, entry) :: more).lookup place =
      if place = location then some entry else more.lookup place := by
  by_cases same : place = location
  · simp [same]
  · rw [List.lookup_cons, beq_false_of_ne same, if_neg same]

theorem lookup_setEntry (location place : Location) (entry : FileEntry)
    (entries : List (Location × FileEntry)) :
    (setEntry location entry entries).lookup place =
      if place = location then some entry else entries.lookup place := by
  induction entries with
  | nil => exact lookup_entry place location entry []
  | cons first more ih =>
    obtain ⟨key, value⟩ := first
    unfold setEntry
    by_cases here : key = location
    · subst here
      rw [if_pos rfl, lookup_entry, lookup_entry]
      split <;> rfl
    · rw [if_neg here, lookup_entry, lookup_entry, ih]
      by_cases found : place = key
      · subst found
        simp [here]
      · simp [found]

/-- Setting an entry shows at its location and nowhere else. -/
theorem entryAt?_set (tree : FileTree) (location place : Location) (entry : FileEntry)
    (inside : location ≠ []) :
    (tree.set location entry).entryAt? place =
      if place = location then some entry else tree.entryAt? place := by
  by_cases top : place = []
  · subst top
    simp [entryAt?, Ne.symm inside]
  · simp [entryAt?, set, top, lookup_setEntry]

def write (tree : FileTree) (path : Path) (content : FileEntry) : Except AccessFault FileTree :=
  match tree.locate path with
  | .error fault => .error fault
  | .ok location =>
    if tree.entryAt? location = some .directory then .error .isDirectory
    else .ok (tree.set location content)

/-- Adds a directory to one that is there. Slashes at the end of the path do not count. -/
def makeDirectory (tree : FileTree) (path : Path) : Except AccessFault FileTree :=
  let segments := ((path.splitOn '/').reverse.dropWhile List.isEmpty).reverse
  match tree.followSegments path segments with
  | .error fault => .error fault
  | .ok location =>
    if segments.getLast?.all (fun segment => Path.isIdle segment || segment == ['.', '.']) then
      .error .alreadyThere
    else if (tree.entryAt? location).isSome then .error .alreadyThere
    else .ok (tree.set location .directory)

end FileTree

end TriggerLogic
