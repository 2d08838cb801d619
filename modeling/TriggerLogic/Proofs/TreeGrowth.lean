import Mathlib.Data.List.TakeWhile
import TriggerLogic.Files.Tree

namespace TriggerLogic

namespace FileTree

variable {tree before middle after : FileTree}

theorem follow_append_eq_ok {start location : Location} {front back : List Text} :
    tree.follow start (front ++ back) = .ok location ↔
      ∃ reached, tree.follow start front = .ok reached ∧ tree.follow reached back = .ok location := by
  induction front generalizing start with
  | nil => simp [follow]
  | cons segment front ih =>
    rw [List.cons_append, follow, follow]
    split
    · simp
    · exact ih
    · simp

theorem follow_idle {location : Location} (here : tree.entryAt? location = some .directory)
    {segments : List Text} (idle : ∀ segment ∈ segments, Path.isIdle segment = true) :
    tree.follow location segments = .ok location := by
  induction segments with
  | nil => rfl
  | cons segment segments ih =>
    rw [List.forall_mem_cons] at idle
    simp only [follow, here, stepTo, idle.1, if_true]
    exact ih idle.2

theorem follow_start {start location : Location} {segment : Text} {more : List Text}
    (found : tree.follow start (segment :: more) = .ok location) :
    tree.entryAt? start = some .directory := by
  rw [follow] at found
  split at found
  · cases found
  · assumption
  · cases found

theorem follow_front {start location : Location} {front back : List Text}
    (found : tree.follow start (front ++ back) = .ok location) (more : back ≠ []) :
    ∃ passed, tree.follow start front = .ok passed ∧ tree.entryAt? passed = some .directory := by
  obtain ⟨passed, reached, onward⟩ := follow_append_eq_ok.mp found
  obtain ⟨segment, back, rfl⟩ := List.exists_cons_of_ne_nil more
  exact ⟨passed, reached, follow_start onward⟩

theorem follow_last {start location : Location} {front : List Text} {segment : Text}
    (found : tree.follow start (front ++ [segment]) = .ok location) :
    ∃ reached, tree.follow start front = .ok reached ∧
      tree.entryAt? reached = some .directory ∧ location = stepTo reached segment := by
  obtain ⟨reached, leads, step⟩ := follow_append_eq_ok.mp found
  have here := follow_start step
  simp only [follow, here] at step
  exact ⟨reached, leads, here, (Except.ok.inj step).symm⟩

theorem stepTo_name {segment : Text} (name : (Path.isIdle segment || segment == ['.', '.']) = false)
    (reached : Location) : stepTo reached segment = reached ++ [segment] := by
  obtain ⟨idle, back⟩ := Bool.or_eq_false_iff.mp name
  have onward : segment ≠ ['.', '.'] := by simpa using back
  rw [stepTo, idle, if_neg Bool.false_ne_true, if_neg onward]

def startOf (tree : FileTree) (path : Path) : Location :=
  if path.head? = some '/' then [] else tree.workingDirectory

theorem startOf_append {path : Path} (nonempty : path ≠ []) (more : Text) :
    tree.startOf (path ++ more) = tree.startOf path := by
  obtain ⟨c, path, rfl⟩ := List.exists_cons_of_ne_nil nonempty
  rfl

theorem followSegments_eq_ok_iff {path : Path} {segments : List Text} {location : Location} :
    tree.followSegments path segments = .ok location ↔
      path ≠ [] ∧ tree.follow (tree.startOf path) segments = .ok location := by
  unfold followSegments
  split
  · rename_i empty
    simp [List.isEmpty_iff.mp empty]
  · rename_i nonempty
    have nonempty : path ≠ [] := by simpa using nonempty
    rw [startOf]
    simp [nonempty]

theorem locate_eq_ok_iff {path : Path} {location : Location} :
    tree.locate path = .ok location ↔
      path ≠ [] ∧ tree.follow (tree.startOf path) (path.splitOn '/') = .ok location :=
  followSegments_eq_ok_iff

theorem entry_eq_ok_iff {path : Path} {entry : FileEntry} :
    tree.entry path = .ok entry ↔
      ∃ location, tree.locate path = .ok location ∧ tree.entryAt? location = some entry := by
  unfold FileTree.entry
  cases tree.locate path with
  | error fault => simp
  | ok location => cases found : tree.entryAt? location <;> simp [found]

theorem isDirectory_iff {path : Path} :
    tree.isDirectory path = true ↔
      ∃ location, tree.locate path = .ok location ∧ tree.entryAt? location = some .directory := by
  rw [← entry_eq_ok_iff]
  unfold isDirectory
  split
  · rename_i found
    simp [found]
  · rename_i other
    simpa using other

/-- Directories are still there, and relative paths start where they did. -/
structure Retains (before after : FileTree) : Prop where
  workingDirectory : after.workingDirectory = before.workingDirectory
  directory : ∀ location, before.entryAt? location = some .directory →
    after.entryAt? location = some .directory

namespace Retains

theorem refl (tree : FileTree) : Retains tree tree :=
  ⟨rfl, fun _ found => found⟩

theorem trans (first : Retains before middle) (second : Retains middle after) :
    Retains before after :=
  ⟨second.workingDirectory.trans first.workingDirectory,
    fun location found => second.directory location (first.directory location found)⟩

theorem follow (kept : Retains before after) {start location : Location} {segments : List Text}
    (found : before.follow start segments = .ok location) :
    after.follow start segments = .ok location := by
  induction segments generalizing start with
  | nil => exact found
  | cons segment segments ih =>
    rw [FileTree.follow] at found ⊢
    split at found
    · cases found
    · rename_i here
      rw [kept.directory _ here]
      exact ih found
    · cases found

theorem followSegments (kept : Retains before after) {path : Path} {segments : List Text}
    {location : Location} (found : before.followSegments path segments = .ok location) :
    after.followSegments path segments = .ok location := by
  rw [followSegments_eq_ok_iff, startOf] at found ⊢
  rw [kept.workingDirectory]
  exact ⟨found.1, kept.follow found.2⟩

theorem locate (kept : Retains before after) {path : Path} {location : Location}
    (found : before.locate path = .ok location) : after.locate path = .ok location :=
  kept.followSegments found

theorem isDirectory (kept : Retains before after) {path : Path}
    (found : before.isDirectory path = true) : after.isDirectory path = true := by
  obtain ⟨location, leads, here⟩ := isDirectory_iff.mp found
  exact isDirectory_iff.mpr ⟨location, kept.locate leads, kept.directory location here⟩

end Retains

theorem ne_nil_of_not_directory {location : Location}
    (free : tree.entryAt? location ≠ some .directory) : location ≠ [] := by
  rintro rfl
  exact free rfl

theorem entryAt?_set_self {location : Location} (free : tree.entryAt? location ≠ some .directory)
    (entry : FileEntry) : (tree.set location entry).entryAt? location = some entry := by
  rw [entryAt?_set tree location location entry (ne_nil_of_not_directory free), if_pos rfl]

theorem entryAt?_set_ne {location place : Location}
    (free : tree.entryAt? location ≠ some .directory) (other : place ≠ location)
    (entry : FileEntry) : (tree.set location entry).entryAt? place = tree.entryAt? place := by
  rw [entryAt?_set tree location place entry (ne_nil_of_not_directory free), if_neg other]

theorem retains_set {location : Location} (free : tree.entryAt? location ≠ some .directory)
    (entry : FileEntry) : Retains tree (tree.set location entry) := by
  refine ⟨rfl, ?_⟩
  intro place here
  have other : place ≠ location := by
    rintro rfl
    exact free here
  rw [entryAt?_set_ne free other, here]

theorem write_eq_ok_iff {path : Path} {content : FileEntry} :
    tree.write path content = .ok after ↔
      ∃ location, tree.locate path = .ok location ∧ tree.entryAt? location ≠ some .directory ∧
        tree.set location content = after := by
  unfold FileTree.write
  cases tree.locate path with
  | error fault => simp
  | ok location =>
    by_cases here : tree.entryAt? location = some .directory
    · simp [here]
    · simp [here]

theorem followSegments_name {path : Path} {segments : List Text} {location : Location}
    (leads : tree.followSegments path segments = .ok location)
    (named : ¬ segments.getLast?.all (fun segment =>
      Path.isIdle segment || segment == ['.', '.']) = true) :
    ∃ name ∈ segments, name ≠ [] ∧ location.getLast? = some name := by
  cases last : segments.getLast? with
  | none =>
    rw [last] at named
    exact absurd rfl named
  | some name =>
    rw [last, Option.all_some, Bool.not_eq_true] at named
    obtain ⟨front, rfl⟩ := List.getLast?_eq_some_iff.mp last
    obtain ⟨reached, -, -, rfl⟩ := follow_last (followSegments_eq_ok_iff.mp leads).2
    refine ⟨name, List.mem_append_right _ (List.mem_singleton_self name), ?_, ?_⟩
    · rintro rfl
      cases named
    · rw [stepTo_name named, List.getLast?_concat]

/-- A directory that has been made is where its path leads and has a name from that path, and there
was nothing before. -/
theorem makeDirectory_eq_ok {path : Path} (made : tree.makeDirectory path = .ok after) :
    ∃ location, (∃ name ∈ path.splitOn '/', name ≠ [] ∧ location.getLast? = some name) ∧
      tree.entryAt? location = none ∧ tree.set location .directory = after ∧
      after.locate path = .ok location := by
  unfold FileTree.makeDirectory at made
  simp only at made
  split at made
  · cases made
  rename_i location leads
  split at made
  · cases made
  rename_i named
  split at made
  · cases made
  rename_i absent
  have absent : tree.entryAt? location = none := by simpa using absent
  have free : tree.entryAt? location ≠ some .directory := by simp [absent]
  have parts : path.splitOn '/' =
      ((path.splitOn '/').reverse.dropWhile List.isEmpty).reverse ++
        ((path.splitOn '/').reverse.takeWhile List.isEmpty).reverse := by
    rw [← List.reverse_append, List.takeWhile_append_dropWhile, List.reverse_reverse]
  refine ⟨location, ?_, absent, Except.ok.inj made, ?_⟩
  · obtain ⟨name, listed, spelled⟩ := followSegments_name leads named
    exact ⟨name, parts ▸ List.mem_append_left _ listed, spelled⟩
  · cases made
    have kept := (retains_set free .directory).followSegments leads
    obtain ⟨nonempty, reached⟩ := followSegments_eq_ok_iff.mp kept
    rw [locate_eq_ok_iff, parts]
    refine ⟨nonempty, follow_append_eq_ok.mpr ⟨location, reached, ?_⟩⟩
    apply follow_idle (entryAt?_set_self free .directory)
    intro segment member
    have all := List.all_takeWhile (p := List.isEmpty) (l := (path.splitOn '/').reverse)
    have empty := List.all_eq_true.mp all segment (List.mem_reverse.mp member)
    rw [Path.isIdle, empty, Bool.true_or]

/-- Directories have been added where the paths lead, and nothing else has changed. -/
structure Grown (paths : List Path) (before after : FileTree) : Prop where
  workingDirectory : after.workingDirectory = before.workingDirectory
  entry : ∀ location, after.entryAt? location = before.entryAt? location ∨
    before.entryAt? location = none ∧ after.entryAt? location = some .directory ∧
      ∃ path ∈ paths, after.locate path = .ok location

namespace Grown

variable {paths more : List Path}

theorem refl (paths : List Path) (tree : FileTree) : Grown paths tree tree :=
  ⟨rfl, fun _ => .inl rfl⟩

theorem retains (grown : Grown paths before after) : Retains before after := by
  refine ⟨grown.workingDirectory, ?_⟩
  intro location here
  rcases grown.entry location with same | ⟨-, added, -⟩
  · rw [same, here]
  · exact added

theorem mono (grown : Grown paths before after) (sub : paths ⊆ more) : Grown more before after := by
  refine ⟨grown.workingDirectory, ?_⟩
  intro location
  rcases grown.entry location with same | ⟨absent, added, path, listed, leads⟩
  · exact .inl same
  · exact .inr ⟨absent, added, path, sub listed, leads⟩

theorem trans (first : Grown paths before middle) (second : Grown paths middle after) :
    Grown paths before after := by
  refine ⟨second.workingDirectory.trans first.workingDirectory, ?_⟩
  intro location
  rcases second.entry location with same | ⟨absent, added, reached⟩
  · rw [same]
    rcases first.entry location with unchanged | ⟨absent, added, path, listed, leads⟩
    · exact .inl unchanged
    · exact .inr ⟨absent, added, path, listed, second.retains.locate leads⟩
  · rcases first.entry location with unchanged | ⟨-, already, -⟩
    · exact .inr ⟨unchanged ▸ absent, added, reached⟩
    · rw [already] at absent
      cases absent

theorem of_makeDirectory {path : Path} (made : before.makeDirectory path = .ok after) :
    Grown [path] before after ∧ after.isDirectory path = true := by
  obtain ⟨location, -, absent, rfl, leads⟩ := makeDirectory_eq_ok made
  have free : before.entryAt? location ≠ some .directory := by simp [absent]
  have here := entryAt?_set_self free .directory
  refine ⟨⟨rfl, ?_⟩, isDirectory_iff.mpr ⟨location, leads, here⟩⟩
  intro place
  by_cases same : place = location
  · subst same
    exact .inr ⟨absent, here, path, List.mem_singleton_self path, leads⟩
  · exact .inl (entryAt?_set_ne free same .directory)

end Grown

end FileTree

namespace Path

theorem join_cons (segment : Text) {segments : List Text} (more : segments ≠ []) :
    Text.join ['/'] (segment :: segments) = segment ++ '/' :: Text.join ['/'] segments := by
  obtain ⟨next, rest, rfl⟩ := List.exists_cons_of_ne_nil more
  simp [Text.join, List.intercalate_cons_cons]

theorem join_append {front back : List Text} (some : front ≠ []) (more : back ≠ []) :
    Text.join ['/'] (front ++ back) = Text.join ['/'] front ++ '/' :: Text.join ['/'] back := by
  induction front with
  | nil => exact absurd rfl some
  | cons segment front ih =>
    cases front with
    | nil =>
      rw [List.singleton_append, join_cons segment more]
      simp [Text.join]
    | cons next front =>
      rw [List.cons_append, join_cons segment (List.append_ne_nil_of_right_ne_nil _ more),
        join_cons segment (List.cons_ne_nil _ _), ih (List.cons_ne_nil _ _)]
      simp

theorem ofSegmentsBack_segmentsBack (path : Path) :
    ofSegmentsBack (anchor path) (segmentsBack path) = path := by
  have lead : anchor path ++ path.drop (anchor path).length = path := by
    unfold anchor
    split <;> simp
  rw [ofSegmentsBack, segmentsBack, List.reverse_reverse, Text.join, List.intercalate_splitOn, lead]

theorem exists_of_mem_stepsBack {segments front : List Text} (member : front ∈ stepsBack segments) :
    ∃ back, back ≠ [] ∧ segments = back ++ front := by
  induction segments with
  | nil => cases member
  | cons segment segments ih =>
    have later : front ∈ stepsBack segments → ∃ back, back ≠ [] ∧
        segment :: segments = back ++ front := by
      intro member
      obtain ⟨back, -, rfl⟩ := ih member
      exact ⟨segment :: back, List.cons_ne_nil _ _, rfl⟩
    rw [stepsBack] at member
    split at member
    · exact later member
    · rcases List.mem_cons.mp member with rfl | member
      · refine ⟨segment :: segments.takeWhile isIdle, List.cons_ne_nil _ _, ?_⟩
        rw [List.cons_append, List.takeWhile_append_dropWhile]
      · exact later member

theorem anchor_cases (path : Path) :
    anchor path = [] ∨ (anchor path = ['/'] ∧ ∃ rest, path = '/' :: rest) ∨
      anchor path = ['.'] ∧ (path = ['.'] ∨ ∃ rest, path = '.' :: '/' :: rest) := by
  unfold anchor
  split
  · exact .inr (.inl ⟨rfl, _, rfl⟩)
  · exact .inr (.inr ⟨rfl, .inl rfl⟩)
  · exact .inr (.inr ⟨rfl, .inr ⟨_, rfl⟩⟩)
  · exact .inl rfl

theorem split_of_mem_parents {path parent : Path} (member : parent ∈ path.parents)
    (nonempty : parent ≠ []) :
    parent = ['/'] ∧ path.head? = some '/' ∨ ∃ rest, path = parent ++ '/' :: rest := by
  rcases List.mem_append.mp member with member | top
  · obtain ⟨front, stepped, rfl⟩ := List.mem_map.mp member
    obtain ⟨back, more, segments⟩ := exists_of_mem_stepsBack stepped
    have whole := ofSegmentsBack_segmentsBack path
    by_cases none : front = []
    · subst none
      have alone : ofSegmentsBack (anchor path) [] = anchor path := List.append_nil _
      rw [alone] at nonempty ⊢
      rcases anchor_cases path with absent | ⟨root, rest, rfl⟩ | ⟨dot, rfl | ⟨rest, rfl⟩⟩
      · exact absurd absent nonempty
      · exact .inl ⟨root, rfl⟩
      · cases stepped
      · exact .inr ⟨rest, by rw [dot]; rfl⟩
    · refine .inr ⟨Text.join ['/'] back.reverse, ?_⟩
      have behind : back.reverse ≠ [] := by simpa using more
      have ahead : front.reverse ≠ [] := by simpa using none
      rw [segments, ofSegmentsBack, List.reverse_append, join_append ahead behind,
        ← List.append_assoc] at whole
      exact whole.symm
  · split at top
    · exact absurd (List.mem_singleton.mp top) nonempty
    · cases top

end Path

theorem FileTree.isDirectory_of_mem_parents {tree : FileTree} {path parent : Path}
    {location : Location} (leads : tree.locate path = .ok location) (member : parent ∈ path.parents)
    (nonempty : parent ≠ []) : tree.isDirectory parent = true := by
  rw [isDirectory_iff]
  rcases Path.split_of_mem_parents member nonempty with ⟨rfl, -⟩ | ⟨rest, rfl⟩
  · have root : tree.entryAt? [] = some .directory := rfl
    exact ⟨[], follow_idle root (by decide), root⟩
  · obtain ⟨-, found⟩ := locate_eq_ok_iff.mp leads
    rw [startOf_append nonempty, List.splitOn_append_cons_self] at found
    obtain ⟨passed, reached, between⟩ := follow_front found (List.splitOn_ne_nil _ _)
    exact ⟨passed, locate_eq_ok_iff.mpr ⟨nonempty, reached⟩, between⟩

end TriggerLogic
