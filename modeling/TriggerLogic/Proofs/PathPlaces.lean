import TriggerLogic.Proofs.TreeGrowth

namespace TriggerLogic

namespace Path

variable {path parent : Path} {segment name : Text}

theorem mem_splitOn_of_mem_parents (member : parent ∈ path.parents)
    (listed : name ∈ parent.splitOn '/') (spelled : name ≠ []) : name ∈ path.splitOn '/' := by
  by_cases empty : parent = []
  · subst empty
    rw [List.splitOn_nil, List.mem_singleton] at listed
    exact absurd listed spelled
  · rcases split_of_mem_parents member empty with ⟨rfl, -⟩ | ⟨rest, rfl⟩
    · have blank : (['/'] : Path).splitOn '/' = [[], []] := by decide
      rw [blank] at listed
      exact absurd (by simpa using listed) spelled
    · rw [List.splitOn_append_cons_self]
      exact List.mem_append_left _ listed

theorem relative_of_nil_mem_parents (member : [] ∈ path.parents) : path.head? ≠ some '/' := by
  intro absolute
  obtain ⟨rest, rfl⟩ := List.head?_eq_some_iff.mp absolute
  rcases List.mem_append.mp member with member | top
  · obtain ⟨front, -, spelled⟩ := List.mem_map.mp member
    simp [ofSegmentsBack, anchor] at spelled
  · simp [anchor] at top

theorem getLast?_splitOn_append (lead rest : Path) :
    ((lead ++ '/' :: rest).splitOn '/').getLast? = (rest.splitOn '/').getLast? := by
  rw [List.splitOn_append_cons_self, List.getLast?_append,
    List.getLast?_eq_some_getLast (List.splitOn_ne_nil '/' rest), Option.some_or]

theorem head?_segmentsBack (last : (path.splitOn '/').getLast? = some segment)
    (moves : isIdle segment = false) : (segmentsBack path).head? = some segment := by
  rw [segmentsBack, List.head?_reverse]
  rcases anchor_cases path with none | ⟨root, rest, rfl⟩ | ⟨dot, rfl | ⟨rest, rfl⟩⟩
  · rw [none]
    exact last
  · rw [root]
    exact (getLast?_splitOn_append [] rest).symm.trans last
  · have alone : segment = ['.'] := (Option.some.inj last).symm
    rw [alone] at moves
    cases moves
  · rw [dot]
    have behind := (getLast?_splitOn_append ['.'] rest).symm.trans last
    exact (getLast?_splitOn_append [] rest).trans behind

theorem eq_of_fileName? (last : (path.splitOn '/').getLast? = some segment)
    (moves : isIdle segment = false) (named : path.fileName? = some name) :
    segment = name ∧ segment ≠ ['.', '.'] := by
  obtain ⟨before, segments⟩ := List.head?_eq_some_iff.mp (head?_segmentsBack last moves)
  rw [fileName?, segments, List.dropWhile_cons_of_neg (by simp [moves])] at named
  simp only at named
  split at named
  · cases named
  · rename_i onward
    exact ⟨Option.some.inj named, onward⟩

theorem stepsBack_ne_nil {segments : List Text} (moves : segments.dropWhile isIdle ≠ []) :
    stepsBack segments ≠ [] := by
  induction segments with
  | nil => exact absurd rfl moves
  | cons segment before ih =>
    rw [stepsBack]
    split
    · rename_i idle
      rw [List.dropWhile_cons_of_pos idle] at moves
      exact ih moves
    · exact List.cons_ne_nil _ _

theorem exists_parent_of_moves (moves : (segmentsBack path).dropWhile isIdle ≠ []) :
    ∃ parent ∈ path.parents, path.parent? = some parent := by
  obtain ⟨front, more, steps⟩ := List.exists_cons_of_ne_nil (stepsBack_ne_nil moves)
  rw [parent?, parents, steps]
  exact ⟨_, List.mem_cons_self, rfl⟩

theorem exists_parent_of_fileName? (named : path.fileName? = some name) :
    ∃ parent ∈ path.parents, path.parent? = some parent := by
  apply exists_parent_of_moves
  intro none
  rw [fileName?, none] at named
  cases named

section Components

inductive Component where
  | root
  | here
  | above
  | name (text : Text)
  deriving DecidableEq, Repr

def Component.ofSegment (segment : Text) : Component :=
  if segment = ['.', '.'] then .above else .name segment

def movingSegments (path : Path) : List Text :=
  (path.splitOn '/').filter fun segment => !isIdle segment

def components (path : Path) : List Component :=
  (if anchor path = ['/'] then [.root] else if anchor path = ['.'] then [.here] else []) ++
    path.movingSegments.map Component.ofSegment

theorem movingSegments_append (lead rest : Path) :
    movingSegments (lead ++ '/' :: rest) = movingSegments lead ++ movingSegments rest := by
  rw [movingSegments, List.splitOn_append_cons_self, List.filter_append]
  rfl

theorem movingSegments_nil : movingSegments [] = [] := rfl

theorem movingSegments_slash (rest : Path) : movingSegments ('/' :: rest) = movingSegments rest :=
  movingSegments_append [] rest

theorem movingSegments_drop_anchor (path : Path) :
    movingSegments (path.drop (anchor path).length) = path.movingSegments := by
  rcases anchor_cases path with none | ⟨root, rest, rfl⟩ | ⟨dot, rfl | ⟨rest, rfl⟩⟩
  · rw [none]
    rfl
  · rw [root]
    exact (movingSegments_slash rest).symm
  · decide
  · rw [dot]
    exact (movingSegments_slash rest).trans (movingSegments_append ['.'] rest).symm

theorem head?_dropWhile_segmentsBack (path : Path) :
    ((segmentsBack path).dropWhile isIdle).head? = path.movingSegments.getLast? := by
  rw [← movingSegments_drop_anchor, movingSegments, List.getLast?_filter,
    List.find?_eq_head?_dropWhile_not]
  simp only [Bool.not_not]
  rfl

theorem fileName?_eq_some_iff :
    path.fileName? = some name ↔ path.components.getLast? = some (.name name) := by
  have last := head?_dropWhile_segmentsBack path
  rw [components, List.getLast?_append, List.getLast?_map, ← last, fileName?]
  cases (segmentsBack path).dropWhile isIdle with
  | nil =>
    constructor
    · intro none
      cases none
    · intro anchored
      simp only [List.head?_nil, Option.map_none, Option.none_or] at anchored
      split at anchored
      · cases anchored
      · split at anchored <;> cases anchored
  | cons segment before =>
    simp only [List.head?_cons, Option.map_some, Option.some_or, Component.ofSegment]
    split <;> simp

theorem anchor_append {lead : Path} (nonempty : lead ≠ []) (rest : Path) :
    anchor (lead ++ '/' :: rest) = anchor lead := by
  obtain ⟨c, lead, rfl⟩ := List.exists_cons_of_ne_nil nonempty
  by_cases root : c = '/'
  · rw [root]
    rfl
  · cases lead with
    | nil => by_cases dot : c = '.' <;> simp [anchor, root, dot]
    | cons d lead =>
      by_cases dot : c = '.' <;> by_cases slash : d = '/' <;> simp [anchor, root, dot, slash]

theorem components_append {lead : Path} (nonempty : lead ≠ []) (rest : Path) :
    components (lead ++ '/' :: rest) =
      components lead ++ rest.movingSegments.map Component.ofSegment := by
  rw [components, anchor_append nonempty, movingSegments_append, List.map_append, ← List.append_assoc]
  rfl

theorem slash_not_mem_segment (listed : segment ∈ path.splitOn '/') : '/' ∉ segment := by
  induction length : path.length using Nat.strongRecOn generalizing path with
  | _ n ih =>
    by_cases slash : '/' ∈ path
    · obtain ⟨front, rest, rfl, fresh⟩ := List.eq_append_cons_of_mem slash
      rw [List.splitOn_append_cons_self, List.splitOn_eq_singleton fresh, List.singleton_append] at listed
      rcases List.mem_cons.mp listed with rfl | later
      · exact fresh
      · have shorter : rest.length < n := by
          rw [List.length_append, List.length_cons] at length
          omega
        exact ih rest.length shorter later rfl
    · rw [List.splitOn_eq_singleton slash, List.mem_singleton] at listed
      exact listed ▸ slash

theorem slash_not_mem_fileName (named : path.fileName? = some name) : '/' ∉ name := by
  have member := List.mem_of_getLast? (fileName?_eq_some_iff.mp named)
  rcases List.mem_append.mp member with anchored | moved
  · split at anchored
    · simp at anchored
    · split at anchored <;> simp at anchored
  · obtain ⟨segment, listed, same⟩ := List.mem_map.mp moved
    unfold Component.ofSegment at same
    split at same
    · cases same
    · cases same
      exact slash_not_mem_segment (List.mem_filter.mp listed).1

structure IsName (text : Text) : Prop where
  spelled : text ≠ []
  single : '/' ∉ text
  notHere : text ≠ ['.']
  notAbove : text ≠ ['.', '.']

theorem IsName.movingSegments (isName : IsName name) :
    (movingSegments name).map Component.ofSegment = [.name name] := by
  have moves : isIdle name = false := by simp [isIdle, isName.spelled, isName.notHere]
  rw [Path.movingSegments, List.splitOn_eq_singleton isName.single,
    List.filter_cons_of_pos (by simp [moves]), List.filter_nil, List.map_singleton,
    Component.ofSegment, if_neg isName.notAbove]

theorem IsName.components (isName : IsName name) : components name = [.name name] := by
  have loose : anchor name = [] := by
    have single := isName.single
    rcases anchor_cases name with none | ⟨-, rest, rfl⟩ | ⟨-, rfl | ⟨rest, rfl⟩⟩
    · exact none
    · simp at single
    · exact absurd rfl isName.notHere
    · simp at single
  rw [Path.components, loose, isName.movingSegments]
  rfl

/-- A name extends a path by one component. -/
theorem IsName.components_join (isName : IsName name) (path : Path) :
    Path.components (path.join name) = path.components ++ [.name name] := by
  have relative : name.head? ≠ some '/' := fun head => isName.single (List.mem_of_head? head)
  rw [join, if_neg relative]
  by_cases empty : path = []
  · rw [empty]
    exact isName.components
  by_cases ended : path.getLast? = some '/'
  · rw [if_pos (by simp [ended])]
    obtain ⟨lead, rfl⟩ := List.getLast?_eq_some_iff.mp ended
    rw [List.append_assoc, List.singleton_append]
    by_cases root : lead = []
    · rw [root, ← isName.movingSegments]
      exact congrArg (fun segments => [.root] ++ segments.map Component.ofSegment)
        (movingSegments_append [] name)
    · rw [components_append root, components_append root, isName.movingSegments, movingSegments_nil,
        List.map_nil, List.append_nil]
  · rw [if_neg (by simp [ended, empty]), components_append empty, isName.movingSegments]

end Components

end Path

namespace FileTree

variable {tree : FileTree} {path place : Path} {location : Location} {name : Text}

theorem last_segment_of_file (leads : tree.locate path = .ok location)
    (file : tree.entryAt? location ≠ some .directory) :
    ∃ segment reached, (path.splitOn '/').getLast? = some segment ∧ Path.isIdle segment = false ∧
      location = stepTo reached segment := by
  obtain ⟨-, found⟩ := locate_eq_ok_iff.mp leads
  obtain ⟨front, segment, parts⟩ : ∃ front segment, path.splitOn '/' = front ++ [segment] := by
    have some := List.splitOn_ne_nil '/' path
    exact ⟨_, _, (List.dropLast_concat_getLast some).symm⟩
  rw [parts] at found
  obtain ⟨reached, -, directory, rfl⟩ := follow_last found
  refine ⟨segment, reached, by rw [parts, List.getLast?_concat], ?_, rfl⟩
  rw [Bool.eq_false_iff]
  intro idle
  rw [stepTo, if_pos idle] at file
  exact file directory

theorem name_of_locate (named : path.fileName? = some name) (leads : tree.locate path = .ok location)
    (file : tree.entryAt? location ≠ some .directory) : location.getLast? = some name := by
  obtain ⟨segment, reached, last, moves, rfl⟩ := last_segment_of_file leads file
  obtain ⟨rfl, onward⟩ := Path.eq_of_fileName? last moves named
  rw [stepTo_name (by simp [moves, onward]), List.getLast?_concat]

theorem exists_parent_of_file (leads : tree.locate path = .ok location)
    (file : tree.entryAt? location ≠ some .directory) : ∃ parent, path.parent? = some parent := by
  obtain ⟨segment, -, last, moves, -⟩ := last_segment_of_file leads file
  obtain ⟨before, segments⟩ := List.head?_eq_some_iff.mp (Path.head?_segmentsBack last moves)
  have some : (Path.segmentsBack path).dropWhile Path.isIdle ≠ [] := by
    rw [segments, List.dropWhile_cons_of_neg (by simp [moves])]
    exact List.cons_ne_nil _ _
  obtain ⟨parent, -, found⟩ := Path.exists_parent_of_moves some
  exact ⟨parent, found⟩

/-- A directory from which a name leads on; no path at all stands for the working directory. -/
structure Opens (tree : FileTree) (place : Path) (location : Location) : Prop where
  directory : tree.entryAt? location = some .directory
  leads : place = [] ∧ location = tree.workingDirectory ∨ tree.locate place = .ok location

theorem Opens.locate_join (opens : tree.Opens place location) (single : '/' ∉ name)
    (spelled : name ≠ []) : tree.locate (place.join name) = .ok (stepTo location name) := by
  have relative : name.head? ≠ some '/' := fun head => single (List.mem_of_head? head)
  have step : tree.follow location [name] = .ok (stepTo location name) := by
    simp only [follow, opens.directory]
  rw [Path.join, if_neg relative, locate_eq_ok_iff]
  rcases opens.leads with ⟨rfl, rfl⟩ | leads
  · have start : tree.startOf name = tree.workingDirectory := if_neg relative
    rw [List.isEmpty_nil, Bool.true_or, if_pos rfl, List.nil_append, start, List.splitOn_eq_singleton single]
    exact ⟨spelled, step⟩
  · obtain ⟨nonempty, found⟩ := locate_eq_ok_iff.mp leads
    by_cases ended : place.getLast? = some '/'
    · rw [if_pos (by simp [ended]), startOf_append nonempty]
      obtain ⟨lead, rfl⟩ := List.getLast?_eq_some_iff.mp ended
      rw [List.splitOn_append_cons_self, List.splitOn_nil] at found
      obtain ⟨reached, front, -, same⟩ := follow_last found
      have stay : location = reached := same
      rw [List.append_assoc, List.singleton_append, List.splitOn_append_cons_self,
        List.splitOn_eq_singleton single]
      exact ⟨by simp, follow_append_eq_ok.mpr ⟨reached, front, stay ▸ step⟩⟩
    · rw [if_neg (by simp [ended, nonempty]), startOf_append nonempty,
        List.splitOn_append_cons_self, List.splitOn_eq_singleton single]
      exact ⟨by simp, follow_append_eq_ok.mpr ⟨location, found, step⟩⟩

theorem exists_opens_of_isDirectory (here : tree.isDirectory place = true) :
    ∃ location, tree.Opens place location := by
  obtain ⟨location, leads, directory⟩ := isDirectory_iff.mp here
  exact ⟨location, directory, .inr leads⟩

theorem opens_workingDirectory (leads : tree.locate path = .ok location)
    (relative : path.head? ≠ some '/') : tree.Opens [] tree.workingDirectory := by
  obtain ⟨-, found⟩ := locate_eq_ok_iff.mp leads
  obtain ⟨segment, more, parts⟩ := List.exists_cons_of_ne_nil (List.splitOn_ne_nil '/' path)
  rw [startOf, if_neg relative, parts] at found
  exact ⟨follow_start found, .inl ⟨rfl, rfl⟩⟩

theorem exists_opens_of_mem_parents (leads : tree.locate path = .ok location)
    (member : place ∈ path.parents) : ∃ location, tree.Opens place location := by
  by_cases empty : place = []
  · subst empty
    exact ⟨_, opens_workingDirectory leads (Path.relative_of_nil_mem_parents member)⟩
  · exact exists_opens_of_isDirectory (isDirectory_of_mem_parents leads member empty)

end FileTree

end TriggerLogic
