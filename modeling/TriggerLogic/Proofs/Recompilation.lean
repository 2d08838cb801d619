import Mathlib.Data.List.Find
import TriggerLogic.Proofs.CommandEffects
import TriggerLogic.Proofs.DecisionOrigin
import TriggerLogic.Proofs.ForcedRequest
import TriggerLogic.Proofs.PathPlaces

namespace TriggerLogic

namespace FileTree

variable {tree before after : FileTree} {path : Path}

theorem setEntry_same {location : Location} {entry : FileEntry} {entries : List (Location × FileEntry)}
    (found : entries.lookup location = some entry) : setEntry location entry entries = entries := by
  induction entries with
  | nil => cases found
  | cons first more ih =>
    obtain ⟨key, value⟩ := first
    rw [lookup_entry] at found
    unfold setEntry
    by_cases here : key = location
    · rw [if_pos here.symm] at found
      rw [if_pos here, ← here, Option.some.inj found]
    · rw [if_neg (Ne.symm here)] at found
      rw [if_neg here, ih found]

theorem write_same {content : Text} (here : tree.entry path = .ok (.text content)) :
    tree.write path (.text content) = .ok tree := by
  obtain ⟨location, leads, found⟩ := entry_eq_ok_iff.mp here
  have file : tree.entryAt? location ≠ some .directory := by simp [found]
  refine write_eq_ok_iff.mpr ⟨location, leads, file, ?_⟩
  rw [entryAt?, if_neg (by simpa using ne_nil_of_not_directory file)] at found
  rw [set, setEntry_same found]

theorem readText_eq_ok_iff {content : Text} :
    tree.readText path = .ok content ↔ tree.entry path = .ok (.text content) := by
  unfold readText
  split <;> simp_all

theorem Retains.entry_eq (kept : Retains before after) {location : Location}
    (leads : before.locate path = .ok location)
    (same : after.entryAt? location = before.entryAt? location) :
    after.entry path = before.entry path := by
  rw [entry, entry, leads, kept.locate leads]
  simp only [same]

theorem settings_congr {directory : Path}
    (same : ∀ place ∈ directory :: directory.parents,
      after.entry (place.join Settings.fileName) = before.entry (place.join Settings.fileName)) :
    after.settings directory = before.settings directory := by
  have candidates : ∀ path ∈ (directory :: directory.parents).map
      (fun place => place.join Settings.fileName), after.entry path = before.entry path := by
    intro path listed
    obtain ⟨place, member, rfl⟩ := List.mem_map.mp listed
    exact same place member
  have present : ∀ path ∈ (directory :: directory.parents).map
      (fun place => place.join Settings.fileName), after.isPresent path = before.isPresent path := by
    intro path listed
    rw [isPresent, isPresent, candidates path listed]
  rw [settings, settings, List.find?_congr present]
  split
  · rfl
  · rename_i path found
    have entry := candidates path (List.mem_of_find?_eq_some found)
    rw [loadSettings, loadSettings, readText, readText, entry]

end FileTree

theorem Session.entryAt?_ensureDirectories {session after : Session}
    {outcome : Except AccessFault Unit} {path : Path} {location : Location} {name : Text}
    (ran : (FileAccess.ensureDirectories path : StateM Session _) session = (outcome, after))
    (last : location.getLast? = some name)
    (kept : session.files.entryAt? location ≠ none ∨ name ∉ path.splitOn '/') :
    after.files.entryAt? location = session.files.entryAt? location := by
  apply ensureChain_preserves
    (motive := fun files => files.entryAt? location = session.files.entryAt? location) _ ran rfl
  intro spelled listed before after made same
  obtain ⟨place, ⟨segment, member, some, placed⟩, absent, rfl, -⟩ :=
    FileTree.makeDirectory_eq_ok made
  have other : location ≠ place := by
    rintro rfl
    rcases kept with present | unnamed
    · exact present (same.symm.trans absent)
    · cases last.symm.trans placed
      rcases List.mem_cons.mp listed with rfl | above
      · exact unnamed member
      · exact unnamed (Path.mem_splitOn_of_mem_parents above member some)
  rw [FileTree.entryAt?_set_ne (by simp [absent]) other, same]

namespace ArtifactPlan

variable {plan : ArtifactPlan} {texts : ArtifactTexts} {session after : Session} {paths : List Path}

def IsArtifactName (name : Text) : Prop :=
  ∃ artifact : Artifact, '.' :: artifact.fileExtension <:+ name

theorem not_isArtifactName_settings : ¬ IsArtifactName Settings.fileName := by
  rintro ⟨artifact, suffix⟩
  revert suffix
  cases artifact <;> decide

theorem writeIn_eq_ok (ran : plan.writeIn texts session = (.ok paths, after)) :
    ∃ middle,
      (FileAccess.ensureDirectories plan.directory : StateM Session _) session = (.ok (), middle) ∧
      plan.Written texts Artifact.all middle.files after.files := by
  obtain ⟨made, middle, ensured, ⟨_, -, contrary, -⟩ | ⟨rfl, wrote⟩⟩ := writeIn_stages ran
  · cases contrary
  · refine ⟨middle, ensured, ?_⟩
    rcases writeEach_cases wrote with ⟨-, written⟩ | ⟨_, _, _, _, -, contrary, -⟩
    · exact written
    · cases contrary

theorem retains_writeIn (ran : plan.writeIn texts session = (.ok paths, after)) :
    FileTree.Retains session.files after.files := by
  obtain ⟨middle, ensured, written⟩ := writeIn_eq_ok ran
  exact (Session.ensureDirectories_grown ensured).1.retains.trans written.retains

theorem entryAt?_writeIn {location : Location} {name : Text}
    (ran : plan.writeIn texts session = (.ok paths, after)) (last : location.getLast? = some name)
    (other : ¬ IsArtifactName name)
    (kept : session.files.entryAt? location ≠ none ∨ name ∉ plan.directory.splitOn '/') :
    after.files.entryAt? location = session.files.entryAt? location := by
  obtain ⟨middle, ensured, written⟩ := writeIn_eq_ok ran
  rw [← Session.entryAt?_ensureDirectories ensured last kept]
  rcases written.entry location with same | ⟨artifact, -, leads⟩
  · exact same
  · obtain ⟨stem, named⟩ := plan.exists_name_of_locate
    refine absurd ⟨artifact, stem, ?_⟩ other
    exact Option.some.inj ((named leads).symm.trans last)

theorem writeEach_same {artifacts : List Artifact}
    (there : ∀ artifact ∈ artifacts,
      session.files.entry (plan.path artifact) = .ok (.text (texts.get artifact))) :
    (plan.writeEach texts artifacts : StateM Session _) session =
      (.ok (artifacts.map plan.path), session) := by
  induction artifacts with
  | nil => rfl
  | cons artifact more ih =>
    rw [List.forall_mem_cons] at there
    have wrote : (FileAccess.writeText (plan.path artifact) (texts.get artifact) :
        StateM Session _) session = (.ok (), session) :=
      Session.change_of_ok (FileTree.write_same there.1)
    rw [writeEach, Session.run_bind, wrote]
    show (plan.writeEach texts more >>= _ : StateM Session _) session = _
    rw [Session.run_bind, ih there.2]
    rfl

/-- Writing artifacts that are there already changes nothing. -/
theorem writeIn_same (directory : plan.directory = [] ∨ session.files.isDirectory plan.directory = true)
    (there : ∀ artifact ∈ Artifact.all,
      session.files.entry (plan.path artifact) = .ok (.text (texts.get artifact))) :
    plan.writeIn texts session = (.ok (Artifact.all.map plan.path), session) := by
  rw [writeIn, write, Session.run_bind, Session.ensureDirectories_present directory]
  exact writeEach_same there

theorem suffix_of_version? {namePrefix name version : Text}
    (found : version? namePrefix name = some version) :
    ".vhdl".toList <:+ Text.lower name ∨ ".vhd".toList <:+ Text.lower name := by
  by_contra neither
  rw [not_or, ← List.isSuffixOf_iff_suffix, ← List.isSuffixOf_iff_suffix] at neither
  have endless : sourceStem? name = none := by
    simp only [sourceStem?, neither.1, neither.2]
    rfl
  rw [version?, endless] at found
  cases found

theorem not_isArtifactName_input {input : Path} {namePrefix name : Text} {directory : Option Path}
    (planned : ofInput input namePrefix directory = .ok plan) (named : input.fileName? = some name) :
    ¬ IsArtifactName name := by
  rintro ⟨artifact, suffix⟩
  have lowered : Text.lower ('.' :: artifact.fileExtension) <:+ Text.lower name := suffix.map _
  rw [ofInput, named] at planned
  obtain ⟨version, read, -⟩ := map_eq_ok_iff.mp planned
  have found : version? namePrefix name = some version := by
    unfold versionOf at read
    split at read
    · cases read
      assumption
    · cases read
  rcases suffix_of_version? found with long | short
  · have nested := List.suffix_or_suffix_of_suffix lowered long
    revert nested
    cases artifact <;> decide
  · have nested := List.suffix_or_suffix_of_suffix lowered short
    revert nested
    cases artifact <;> decide

end ArtifactPlan

namespace Command

open Session

variable {session after : Session} {input : Path} {options : Options} {plan : ArtifactPlan}
  {compiled : Compiled} {paths : List Path}

theorem isDirectory_directoryOf {tree : FileTree} {name : Text} {location : Location}
    (named : input.fileName? = some name) (leads : tree.locate input = .ok location) :
    tree.isDirectory (directoryOf input) = true := by
  obtain ⟨parent, member, first⟩ := Path.exists_parent_of_fileName? named
  rw [directoryOf, first]
  simp only
  split
  · rename_i empty
    rw [List.isEmpty_iff] at empty
    subst empty
    have opens := FileTree.opens_workingDirectory leads (Path.relative_of_nil_mem_parents member)
    have dot : tree.locate ['.'] = .ok tree.workingDirectory :=
      FileTree.locate_eq_ok_iff.mpr ⟨by simp, FileTree.follow_idle opens.directory (by decide)⟩
    exact FileTree.isDirectory_iff.mpr ⟨_, dot, opens.directory⟩
  · rename_i nonempty
    exact FileTree.isDirectory_of_mem_parents leads member (by simpa using nonempty)

theorem exists_opens_of_searched {tree : FileTree} {name : Text} {location : Location} {place : Path}
    (named : input.fileName? = some name) (leads : tree.locate input = .ok location)
    (searched : place ∈ directoryOf input :: (directoryOf input).parents) :
    ∃ location, tree.Opens place location := by
  have here := isDirectory_directoryOf named leads
  rcases List.mem_cons.mp searched with rfl | above
  · exact FileTree.exists_opens_of_isDirectory here
  · obtain ⟨reached, found, -⟩ := FileTree.isDirectory_iff.mp here
    exact FileTree.exists_opens_of_mem_parents found above

/-- A write leaves the input and every settings file that may count as they are. -/
theorem Compiles.again (compiles : Compiles session.files input options plan compiled)
    (wrote : plan.writeIn compiled.texts session = (.ok paths, after))
    (unnamed : Settings.fileName ∉ plan.directory.splitOn '/') :
    Compiles after.files input options.withForce plan compiled := by
  obtain ⟨isFile, settings, source, found, planned, text, compiled⟩ := compiles
  have kept := ArtifactPlan.retains_writeIn wrote
  obtain ⟨name, named⟩ : ∃ name, input.fileName? = some name := by
    cases named : input.fileName? with
    | none =>
      rw [ArtifactPlan.ofInput, named] at planned
      cases planned
    | some name => exact ⟨name, rfl⟩
  obtain ⟨location, leads, content⟩ :=
    FileTree.entry_eq_ok_iff.mp (FileTree.readText_eq_ok_iff.mp text)
  have sameInput : after.files.entry input = session.files.entry input := by
    apply kept.entry_eq leads
    have last := FileTree.name_of_locate named leads (by simp [content])
    exact ArtifactPlan.entryAt?_writeIn wrote last
      (ArtifactPlan.not_isArtifactName_input planned named) (.inl (by simp [content]))
  have sameSettings : after.files.settings (directoryOf input) =
      session.files.settings (directoryOf input) := by
    apply FileTree.settings_congr
    intro place searched
    obtain ⟨reached, opens⟩ := exists_opens_of_searched named leads searched
    apply kept.entry_eq (opens.locate_join (by decide) (by decide))
    apply ArtifactPlan.entryAt?_writeIn wrote _ ArtifactPlan.not_isArtifactName_settings (.inr unnamed)
    rw [FileTree.stepTo_name (by decide), List.getLast?_concat]
  refine ⟨?_, settings, source, sameSettings.trans found, planned, ?_, compiled⟩
  · rw [FileTree.isFile, sameInput]
    exact isFile
  · rw [FileTree.readText, sameInput]
    exact text

theorem compileInput_run (compiles : Compiles session.files input options plan compiled) :
    (compileInput input options : StateM Session Nat) session =
      (deliver options plan compiled : StateM Session Nat) session := by
  obtain ⟨isFile, settings, source, found, planned, text, compiled⟩ := compiles
  rw [compileInput, run_bind]
  show (if session.files.isFile input = true then _ else _ : StateM Session Nat) session = _
  rw [if_pos isFile, run_bind, discover_run, found]
  simp only
  rw [planned]
  simp only
  have read : (FileAccess.readText input : StateM Session _) session =
    (session.files.readText input, session) := rfl
  rw [run_bind, read, text]
  simp only
  rw [compiled]

theorem deliver_run (session : Session) (written : options.preview = false) :
    ∃ shown : Session, shown.files = session.files ∧
      (deliver options plan compiled : StateM Session Nat) session =
        (do
          match ← clearTargets plan options.force with
          | .error fault => fail fault.message
          | .ok () => writeArtifacts plan compiled.texts : StateM Session Nat) shown := by
  rw [deliver, written]
  split
  · exact ⟨{ session with notified := session.notified ++ compiled.table.summary }, rfl, rfl⟩
  · exact ⟨session, rfl, rfl⟩

theorem writeIn_of_deliver (written : options.preview = false)
    (ran : (deliver options plan compiled : StateM Session Nat) session = (0, after)) :
    ∃ asked paths done, asked.files = session.files ∧
      plan.writeIn compiled.texts asked = (.ok paths, done) ∧ after.files = done.files := by
  obtain ⟨shown, sameFiles, same⟩ := deliver_run session written
  rw [same, run_bind] at ran
  cases asking : (clearTargets plan options.force : StateM Session _) shown with
  | mk outcome asked =>
    rw [asking] at ran
    obtain ⟨unchanged, -⟩ := clearTargets_cases asking
    cases outcome with
    | error fault => cases ran
    | ok _ =>
      replace ran : (writeArtifacts plan compiled.texts : StateM Session Nat) asked = _ := ran
      rw [writeArtifacts, run_bind] at ran
      cases wrote : plan.writeIn compiled.texts asked with
      | mk result done =>
        have same : (plan.write compiled.texts : StateM Session _) asked = (result, done) := wrote
        rw [same] at ran
        cases result with
        | error fault => cases ran
        | ok paths =>
          cases ran
          exact ⟨asked, paths, done, unchanged.trans sameFiles, wrote, rfl⟩

theorem clearTargets_forced (plan : ArtifactPlan) (session : Session) :
    (clearTargets plan true : StateM Session _) session = (.ok (), session) := by
  rw [clearTargets, run_bind, ArtifactPlan.existing, presentAmong_run]
  cases (Artifact.all.map plan.path).filter session.files.isPresent <;> rfl

theorem deliver_same (written : options.preview = false)
    (there : ∀ again : Session, again.files = session.files →
      plan.writeIn compiled.texts again = (.ok paths, again)) :
    ∃ final, (deliver options.withForce plan compiled : StateM Session Nat) session = (0, final) ∧
      final.files = session.files := by
  have shownAll : options.withForce.preview = false := written
  obtain ⟨shown, sameFiles, same⟩ := deliver_run session shownAll
  rw [same, run_bind, Options.withForce, clearTargets_forced]
  show ∃ final, (writeArtifacts plan compiled.texts : StateM Session Nat) shown = _ ∧ _
  have wrote : (plan.write compiled.texts : StateM Session _) shown = _ := there shown sameFiles
  rw [writeArtifacts, run_bind, wrote]
  exact ⟨_, rfl, sameFiles⟩

theorem compiles_of_runIn {arguments : List Text} (ran : runIn arguments session = (0, after))
    (asked : Request.ofArguments arguments = .compile input options)
    (written : options.preview = false) :
    ∃ plan compiled, Compiles session.files input options plan compiled := by
  have ends := ends_of_runIn ran asked
  generalize after.files = files at ends
  cases ends with
  | shown preview => exact absurd (preview.symm.trans written) (by decide)
  | refused _ failed => exact absurd rfl failed
  | delivered preview compiles => exact ⟨_, _, compiles⟩

theorem recompile_same {again : Session}
    (compiles : Compiles session.files input options plan compiled)
    (unnamed : Settings.fileName ∉ plan.directory.splitOn '/') (written : options.preview = false)
    (ran : (compileInput input options : StateM Session Nat) session = (0, after))
    (sameFiles : again.files = after.files) :
    ∃ final, (compileInput input options.withForce : StateM Session Nat) again = (0, final) ∧
      final.files = again.files := by
  rw [compileInput_run compiles] at ran
  obtain ⟨asked, paths, done, before, wrote, left⟩ := writeIn_of_deliver written ran
  have still : Compiles again.files input options.withForce plan compiled := by
    rw [sameFiles, left]
    rw [← before] at compiles
    exact compiles.again wrote unnamed
  rw [compileInput_run still]
  rcases ArtifactPlan.writeIn_cases wrote with ⟨-, delivered⟩ | ⟨_, _, _, _, -, stopped, -, -⟩
  · apply deliver_same written
    intro session same
    apply ArtifactPlan.writeIn_same
    · by_cases here : plan.directory = []
      · exact .inl here
      · rw [same, sameFiles, left]
        exact .inr (delivered.directories _ List.mem_cons_self here)
    · rw [same, sameFiles, left]
      exact delivered.text
  · rcases stopped with ⟨contrary, -⟩ | contrary
    · cases contrary
    · cases contrary

/-- Compiling once more with leave to replace the artifacts succeeds and changes no file. -/
theorem recompiling_changes_nothing {arguments : List Text} {session after : Session}
    (ran : runIn arguments session = (0, after))
    (written : ∀ input options, Request.ofArguments arguments = .compile input options →
      options.preview = false ∧ ∀ plan compiled, Compiles session.files input options plan compiled →
        Settings.fileName ∉ plan.directory.splitOn '/') :
    Request.ofArguments (Request.forcing arguments) = (Request.ofArguments arguments).withForce ∧
      ∀ forced again, Request.ofArguments forced = (Request.ofArguments arguments).withForce →
        again.files = after.files →
          (runIn forced again).1 = 0 ∧ (runIn forced again).2.files = after.files := by
  refine ⟨Request.ofArguments_forcing arguments, ?_⟩
  intro forced again asked sameFiles
  rw [← sameFiles, runIn, run, asked]
  cases request : Request.ofArguments arguments with
  | compile input options =>
    obtain ⟨shown, elsewhere⟩ := written input options request
    obtain ⟨plan, compiled, compiles⟩ := compiles_of_runIn ran request shown
    rw [runIn, run, request] at ran
    obtain ⟨final, ended, unchanged⟩ :=
      recompile_same compiles (elsewhere plan compiled compiles) shown ran sameFiles
    rw [Request.withForce]
    simp only [ended]
    exact ⟨trivial, unchanged⟩
  | help | version => exact ⟨rfl, rfl⟩
  | misuse =>
    rw [runIn, run, request] at ran
    cases ran

def nestedSession : Session where
  files := { entries := [(["ftdc.toml".toList], .text "out_dir = \"out/bits\"\n".toList),
    (["src".toList], .directory),
    (["src".toList, "ftd_0.01.vhd".toList],
      .text ("-- Inputs\nsignal a : std_logic;\n".toList ++
        "-- Outputs\nsignal y : std_logic;\nbegin\ny <= a;\n".toList))] }

def nestedArguments : List Text := ["src/ftd_0.01.vhd".toList]

theorem nestedSession_recompiled :
    (runIn nestedArguments nestedSession).1 = 0 ∧
      (runIn ["src/ftd_0.01.vhd".toList, "-f".toList] (runIn nestedArguments nestedSession).2).1 = 0 ∧
      (runIn ["src/ftd_0.01.vhd".toList, "-f".toList] (runIn nestedArguments nestedSession).2).2.files =
        (runIn nestedArguments nestedSession).2.files := by
  have succeeds : (runIn nestedArguments nestedSession).1 = 0 := by decide +kernel
  have read : Request.ofArguments nestedArguments =
      .compile "src/ftd_0.01.vhd".toList ⟨some "src/ftd_0.01.vhd".toList, none, false, false, false⟩ := by
    decide +kernel
  have settled : nestedSession.files.settings (directoryOf "src/ftd_0.01.vhd".toList) =
      .ok ⟨"ftd".toList, some "out/bits".toList, {}⟩ := by decide +kernel
  have planned : ArtifactPlan.ofInput "src/ftd_0.01.vhd".toList "ftd".toList (some "out/bits".toList) =
      .ok ⟨"0_01".toList, "ftd_0_01".toList, "out/bits".toList⟩ := by decide +kernel
  have repeats := recompiling_changes_nothing (Prod.fst_eq_iff.mp succeeds) (by
    intro input options asked
    cases read.symm.trans asked
    refine ⟨rfl, ?_⟩
    rintro plan compiled ⟨-, settings, source, found, plans, -⟩
    cases settled.symm.trans found
    cases planned.symm.trans plans
    decide)
  exact ⟨succeeds, repeats.2 _ _ (by decide +kernel) rfl⟩

end Command

end TriggerLogic
