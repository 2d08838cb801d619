import Mathlib.Data.List.Chain
import TriggerLogic.Proofs.CommandEffects
import TriggerLogic.Proofs.PathPlaces

namespace TriggerLogic

namespace Path

variable {path place : Path}

theorem movingSegments_join {segments : List Text} (single : ∀ segment ∈ segments, '/' ∉ segment) :
    movingSegments (Text.join ['/'] segments) = segments.filter fun segment => !isIdle segment := by
  induction segments with
  | nil => rfl
  | cons segment segments ih =>
    rw [List.forall_mem_cons] at single
    have alone : movingSegments segment = [segment].filter fun segment => !isIdle segment := by
      rw [movingSegments, List.splitOn_eq_singleton single.1]
    cases segments with
    | nil => rw [Text.join, List.intercalate_singleton, alone]
    | cons next segments =>
      rw [join_cons segment (List.cons_ne_nil _ _), movingSegments_append, ih single.2, alone,
        ← List.filter_append]
      rfl

theorem movingSegments_dot (segments : List Text) :
    movingSegments ('.' :: Text.join ['/'] ([] :: segments)) =
      movingSegments (Text.join ['/'] ([] :: segments)) := by
  by_cases none : segments = []
  · rw [none]
    rfl
  · rw [join_cons [] none, List.nil_append, movingSegments_slash]
    exact movingSegments_append ['.'] _

theorem movingSegments_ofSegmentsBack {front : List Text}
    (stepped : front ∈ stepsBack (segmentsBack path)) :
    movingSegments (ofSegmentsBack (anchor path) front) =
      (front.filter fun segment => !isIdle segment).reverse := by
  obtain ⟨back, -, segments⟩ := exists_of_mem_stepsBack stepped
  have joined : movingSegments (Text.join ['/'] front.reverse) =
      (front.filter fun segment => !isIdle segment).reverse := by
    rw [movingSegments_join, List.filter_reverse]
    intro segment listed
    have member : segment ∈ segmentsBack path :=
      segments ▸ List.mem_append_right back (List.mem_reverse.mp listed)
    exact slash_not_mem_segment (List.mem_reverse.mp member)
  rcases anchor_cases path with none | ⟨root, rest, rfl⟩ | ⟨dot, rfl | ⟨rest, rfl⟩⟩
  · rw [none]
    exact joined
  · rw [root]
    exact (movingSegments_slash _).trans joined
  · cases stepped
  · rw [dot, ← joined]
    have parts : (rest.splitOn '/').reverse ++ [[]] = back ++ front := by
      rw [← segments]
      exact (@List.reverse_append _ [[]] (rest.splitOn '/')).symm
    rcases List.eq_nil_or_concat' front with rfl | ⟨front, last, rfl⟩
    · rfl
    · rw [← List.append_assoc] at parts
      obtain ⟨-, same⟩ := List.append_inj' parts rfl
      cases same
      rw [ofSegmentsBack, List.reverse_append]
      exact movingSegments_dot front.reverse

theorem movingSegments_segmentsBack (path : Path) :
    ((segmentsBack path).filter fun segment => !isIdle segment).reverse = path.movingSegments := by
  rw [segmentsBack, List.filter_reverse, List.reverse_reverse]
  exact movingSegments_drop_anchor path

theorem movingSegments_prefix (member : place ∈ path.parents) :
    place.movingSegments <+: path.movingSegments := by
  by_cases empty : place = []
  · rw [empty]
    exact List.nil_prefix
  · rcases split_of_mem_parents member empty with ⟨rfl, -⟩ | ⟨rest, rfl⟩
    · exact List.nil_prefix
    · rw [movingSegments_append]
      exact List.prefix_append _ _

end Path

namespace FileTree

variable {tree : FileTree} {path place : Path} {location : Location}

theorem startOf_of_mem_parents (member : place ∈ path.parents) : tree.startOf place = tree.startOf path := by
  by_cases empty : place = []
  · subst empty
    exact (if_neg (Path.relative_of_nil_mem_parents member)).symm
  · rcases Path.split_of_mem_parents member empty with ⟨rfl, root⟩ | ⟨rest, rfl⟩
    · exact (if_pos root).symm
    · exact (startOf_append empty _).symm

def standing (start : Location) (segments : List Text) : Location :=
  segments.foldr (fun segment location => stepTo location segment) start

theorem stepTo_idle {segment : Text} (idle : Path.isIdle segment = true) (location : Location) :
    stepTo location segment = location :=
  if_pos idle

theorem standing_filter (start : Location) (segments : List Text) :
    standing start (segments.filter fun segment => !Path.isIdle segment) = standing start segments := by
  induction segments with
  | nil => rfl
  | cons segment segments ih =>
    cases idle : Path.isIdle segment with
    | true =>
      rw [List.filter_cons_of_neg (by simp [idle]), ih]
      exact (stepTo_idle idle _).symm
    | false =>
      rw [List.filter_cons_of_pos (by simp [idle])]
      exact congrArg (stepTo · segment) ih

theorem standing_dropWhile (start : Location) (segments : List Text) :
    standing start (segments.dropWhile Path.isIdle) = standing start segments := by
  induction segments with
  | nil => rfl
  | cons segment segments ih =>
    cases idle : Path.isIdle segment with
    | true =>
      rw [List.dropWhile_cons_of_pos idle, ih]
      exact (stepTo_idle idle _).symm
    | false => rw [List.dropWhile_cons_of_neg (by simp [idle])]

/-- Where a path leads if there is a directory wherever it passes. -/
def destination (tree : FileTree) (path : Path) : Location :=
  standing (tree.startOf path) path.movingSegments.reverse

theorem follow_eq_standing {start : Location} {segments : List Text}
    (found : tree.follow start segments = .ok location) : location = standing start segments.reverse := by
  induction segments generalizing start with
  | nil => exact (Except.ok.inj found).symm
  | cons segment segments ih =>
    have here := follow_start found
    rw [follow, here] at found
    rw [ih found, List.reverse_cons, standing, standing, List.foldr_append]
    rfl

theorem destination_of_locate (leads : tree.locate path = .ok location) :
    location = tree.destination path := by
  obtain ⟨-, found⟩ := locate_eq_ok_iff.mp leads
  rw [follow_eq_standing found, destination, Path.movingSegments, ← List.filter_reverse, standing_filter]

theorem destination_eq_standing (path : Path) :
    tree.destination path = standing (tree.startOf path) (Path.segmentsBack path) := by
  rw [destination, ← Path.movingSegments_segmentsBack, List.reverse_reverse, standing_filter]

theorem destination_ofSegmentsBack {front : List Text}
    (stepped : front ∈ Path.stepsBack (Path.segmentsBack path)) :
    tree.destination (Path.ofSegmentsBack (Path.anchor path) front) =
      standing (tree.startOf path) front := by
  have member : Path.ofSegmentsBack (Path.anchor path) front ∈ path.parents :=
    List.mem_append_left _ (List.mem_map_of_mem stepped)
  rw [destination, Path.movingSegments_ofSegmentsBack stepped, List.reverse_reverse, standing_filter,
    startOf_of_mem_parents member]

theorem opens_destination (leads : tree.locate path = .ok location)
    (here : tree.entryAt? location = some .directory) (listed : place ∈ path :: path.parents) :
    tree.Opens place (tree.destination place) := by
  rcases List.mem_cons.mp listed with rfl | member
  · rw [← destination_of_locate leads]
    exact ⟨here, .inr leads⟩
  · obtain ⟨reached, opens⟩ := exists_opens_of_mem_parents leads member
    rcases opens.leads with ⟨rfl, rfl⟩ | passed
    · exact opens
    · rw [← destination_of_locate passed]
      exact opens

/-- One of two places holds the other, or they are the same. -/
def Adjacent (first second : Location) : Prop :=
  second = first ∨ second = first.dropLast ∨ first = second.dropLast

theorem adjacent_stepTo (location : Location) (segment : Text) :
    Adjacent (stepTo location segment) location := by
  unfold stepTo
  split
  · exact .inl rfl
  split
  · exact .inr (.inr rfl)
  · exact .inr (.inl List.dropLast_concat.symm)

theorem isChain_standing {start : Location} {more : List Location} (ends : more = [] ∨ more = [start])
    (segments : List Text) :
    List.IsChain Adjacent
      (standing start segments :: ((Path.stepsBack segments).map (standing start) ++ more)) := by
  induction segments with
  | nil =>
    rcases ends with rfl | rfl
    · exact List.isChain_singleton start
    · exact List.isChain_cons_cons.mpr ⟨.inl rfl, List.isChain_singleton start⟩
  | cons segment segments ih =>
    rw [Path.stepsBack]
    split
    · rename_i idle
      have same : standing start (segment :: segments) = standing start segments :=
        stepTo_idle idle _
      rw [same]
      exact ih
    · rw [List.map_cons, standing_dropWhile]
      exact List.isChain_cons_cons.mpr ⟨adjacent_stepTo _ segment, ih⟩

theorem isChain_parents (tree : FileTree) (path : Path) :
    List.IsChain Adjacent ((path :: path.parents).map tree.destination) := by
  have ends : (if Path.anchor path = ['.'] then [[]] else []).map tree.destination = [] ∨
      (if Path.anchor path = ['.'] then [[]] else []).map tree.destination = [tree.startOf path] := by
    split
    · rename_i dot
      have member : [] ∈ path.parents := List.mem_append_right _ (by simp [dot])
      rw [← startOf_of_mem_parents member]
      exact .inr rfl
    · exact .inl rfl
  have steps : ((Path.stepsBack (Path.segmentsBack path)).map
      (Path.ofSegmentsBack (Path.anchor path))).map tree.destination =
        (Path.stepsBack (Path.segmentsBack path)).map (standing (tree.startOf path)) := by
    rw [List.map_map]
    exact List.map_congr_left fun front stepped => destination_ofSegmentsBack stepped
  rw [List.map_cons, Path.parents, List.map_append, steps, destination_eq_standing]
  exact isChain_standing ends _

theorem prefix_of_adjacent {first second place : Location} (near : Adjacent first second)
    (above : place <+: first) (other : place ≠ first) : place <+: second := by
  rcases near with rfl | rfl | rfl
  · exact above
  · obtain ⟨tail, rfl⟩ := above
    have more : tail ≠ [] := by
      rintro rfl
      exact other (List.append_nil _).symm
    rw [List.dropLast_append_of_ne_nil more]
    exact List.prefix_append _ _
  · exact above.trans (List.dropLast_prefix second)

/-- A walk to an ancestor passes everything between. -/
theorem mem_of_between {passed later : List Location} {start goal place : Location}
    (chain : List.IsChain Adjacent (passed ++ goal :: later))
    (begins : (passed ++ goal :: later).head? = some start)
    (below : goal <+: place) (above : place <+: start) (other : place ≠ goal) : place ∈ passed := by
  induction passed generalizing start with
  | nil =>
    cases begins
    exact absurd (above.eq_of_length_le below.length_le) other
  | cons first passed ih =>
    cases begins
    by_cases here : place = first
    · exact here ▸ List.mem_cons_self
    · obtain ⟨near, rest⟩ := List.isChain_cons.mp chain
      obtain ⟨next, head⟩ : ∃ next, (passed ++ goal :: later).head? = some next :=
        Option.isSome_iff_exists.mp (by simp)
      exact List.mem_cons_of_mem _ (ih rest head (prefix_of_adjacent (near next head) above here))

theorem standing_of_names {start : Location} {segments : List Text}
    (names : ∀ segment ∈ segments, (Path.isIdle segment || segment == ['.', '.']) = false) :
    standing start segments = start ++ segments.reverse := by
  induction segments with
  | nil => exact (List.append_nil start).symm
  | cons segment segments ih =>
    rw [List.forall_mem_cons] at names
    have step : standing start (segment :: segments) = stepTo (standing start segments) segment := rfl
    rw [step, ih names.2, stepTo_name names.1, List.reverse_cons, List.append_assoc]

theorem destination_prefix (plain : ['.', '.'] ∉ path.splitOn '/') (member : place ∈ path.parents) :
    tree.destination place <+: tree.destination path := by
  have names : ∀ segment ∈ path.movingSegments,
      (Path.isIdle segment || segment == ['.', '.']) = false := by
    intro segment moving
    obtain ⟨listed, moves⟩ := List.mem_filter.mp moving
    have onward : segment ≠ ['.', '.'] := fun back => plain (back ▸ listed)
    simpa [onward] using moves
  have front := Path.movingSegments_prefix member
  rw [destination, destination, startOf_of_mem_parents member, standing_of_names, standing_of_names,
    List.reverse_reverse, List.reverse_reverse, List.prefix_append_right_inj]
  · exact front
  · exact fun segment listed => names segment (List.mem_reverse.mp listed)
  · exact fun segment listed => names segment (front.subset (List.mem_reverse.mp listed))

theorem Opens.isPresent_join {name : Text} (opens : tree.Opens place location) (isName : Path.IsName name) :
    tree.locate (place.join name) = .ok (location ++ [name]) ∧
      (tree.isPresent (place.join name) = true ↔ tree.entryAt? (location ++ [name]) ≠ none) := by
  have leads := opens.locate_join isName.single isName.spelled
  rw [stepTo_name (by simp [Path.isIdle, isName.spelled, isName.notHere, isName.notAbove])] at leads
  refine ⟨leads, ?_⟩
  rw [isPresent, entry, leads]
  simp only
  cases tree.entryAt? (location ++ [name]) <;> simp [Except.isOk, Except.toBool]

theorem absent_between {name : Text} (isName : Path.IsName name) {passed later : List Path}
    (leads : tree.locate path = .ok location) (here : tree.entryAt? location = some .directory)
    (places : path :: path.parents = passed ++ place :: later)
    (absent : ∀ spelled ∈ passed, tree.isPresent (spelled.join name) = false) {nearer : Location}
    (below : tree.destination place <+: nearer) (above : nearer <+: location)
    (other : nearer ≠ tree.destination place) : tree.entryAt? (nearer ++ [name]) = none := by
  have chain := isChain_parents tree path
  have head : ((path :: path.parents).map tree.destination).head? = some location := by
    rw [List.map_cons, List.head?_cons, ← destination_of_locate leads]
  rw [places, List.map_append, List.map_cons] at chain head
  obtain ⟨spelled, early, rfl⟩ := List.mem_map.mp (mem_of_between chain head below above other)
  have listed : spelled ∈ path :: path.parents := places ▸ List.mem_append_left _ early
  have opens := opens_destination leads here listed
  by_contra some
  have found := (opens.isPresent_join isName).2.mpr some
  rw [absent spelled early] at found
  cases found

end FileTree

theorem Settings.isName_fileName : Path.IsName fileName :=
  ⟨by decide, by decide, by decide, by decide⟩

/-- The settings found for a directory are in a place on the way that its path spells. No place between
that one and the directory has settings, and it holds the directory unless the path goes back. -/
theorem found_settings_nearest {session after : Session} {directory path : Path} {location : Location}
    (leads : session.files.locate directory = .ok location)
    (here : session.files.entryAt? location = some .directory)
    (found : (Settings.find? directory : StateM Session _) session = (some path, after)) :
    ∃ holder, (∃ spelled ∈ directory :: directory.parents,
        session.files.Opens spelled holder ∧ path = spelled.join Settings.fileName) ∧
      session.files.locate path = .ok (holder ++ [Settings.fileName]) ∧
      session.files.entryAt? (holder ++ [Settings.fileName]) ≠ none ∧
      (∀ nearer, holder <+: nearer → nearer <+: location → nearer ≠ holder →
        session.files.entryAt? (nearer ++ [Settings.fileName]) = none) ∧
      (['.', '.'] ∉ directory.splitOn '/' → holder <+: location) := by
  rw [Session.find?_run] at found
  have first := congrArg Prod.fst found
  rw [List.find?_eq_some_iff_append] at first
  obtain ⟨present, candidates, others, split, absent⟩ := first
  obtain ⟨passed, rest, places, rfl, tail⟩ := List.map_eq_append_iff.mp split
  obtain ⟨place, later, rfl, rfl, rfl⟩ := List.map_eq_cons_iff.mp tail
  have listed : place ∈ directory :: directory.parents := by
    rw [places]
    exact List.mem_append_right _ List.mem_cons_self
  have opens := FileTree.opens_destination leads here listed
  obtain ⟨reached, entry⟩ := opens.isPresent_join Settings.isName_fileName
  refine ⟨_, ⟨place, listed, opens, rfl⟩, reached, entry.mp present, ?_, ?_⟩
  · intro nearer below above other
    refine FileTree.absent_between Settings.isName_fileName leads here places ?_ below above other
    intro spelled early
    have missing := absent _ (List.mem_map_of_mem early)
    rwa [Bool.not_eq_true'] at missing
  · intro plain
    rw [FileTree.destination_of_locate leads]
    rcases List.mem_cons.mp listed with rfl | member
    · exact List.prefix_rfl
    · exact FileTree.destination_prefix plain member

def nestedSession : Session where
  files :=
    { workingDirectory := ["home".toList]
      entries := [(["ftdc.toml".toList], .text []), (["home".toList], .directory),
        (["home".toList, "ftdc.toml".toList], .text []),
        (["home".toList, "logic".toList], .directory),
        (["home".toList, "logic".toList, "v1".toList], .directory)] }

theorem nestedSession_nearest :
    (Settings.find? "logic/.//v1".toList : StateM Session _) nestedSession =
      (some "ftdc.toml".toList, nestedSession) ∧
    ∃ holder, nestedSession.files.locate "ftdc.toml".toList = .ok (holder ++ [Settings.fileName]) ∧
      holder <+: ["home".toList, "logic".toList, "v1".toList] ∧
      ∀ nearer, holder <+: nearer → nearer <+: ["home".toList, "logic".toList, "v1".toList] →
        nearer ≠ holder → nestedSession.files.entryAt? (nearer ++ [Settings.fileName]) = none := by
  have leads : nestedSession.files.locate "logic/.//v1".toList =
      .ok ["home".toList, "logic".toList, "v1".toList] := by decide +kernel
  have found : (Settings.find? "logic/.//v1".toList : StateM Session _) nestedSession =
      (some "ftdc.toml".toList, nestedSession) :=
    (Session.find?_run _ _).trans (congrArg (·, nestedSession) (by decide +kernel))
  obtain ⟨holder, -, reached, -, nearest, above⟩ :=
    found_settings_nearest leads (by decide +kernel) found
  have plain : ['.', '.'] ∉ "logic/.//v1".toList.splitOn '/' := by decide +kernel
  exact ⟨found, holder, reached, above plain, nearest⟩

def straySession : Session where
  files := { entries := [(["a".toList], .directory),
    (["a".toList, "ftdc.toml".toList], .text "prefix = \"gdl\"\n".toList)] }

theorem straySession_found_below :
    straySession.files.locate "a/..".toList = .ok [] ∧
      straySession.files.entryAt? [] = some .directory ∧
      (Settings.find? "a/..".toList : StateM Session _) straySession =
        (some "a/ftdc.toml".toList, straySession) ∧
      straySession.files.locate "a/ftdc.toml".toList = .ok (["a".toList] ++ [Settings.fileName]) ∧
      ¬ ["a".toList] <+: [] :=
  ⟨by decide +kernel, rfl,
    (Session.find?_run _ _).trans (congrArg (·, straySession) (by decide +kernel)),
    by decide +kernel, by decide⟩

end TriggerLogic
