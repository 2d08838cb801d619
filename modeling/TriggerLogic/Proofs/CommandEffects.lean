import Mathlib.Data.Prod.Basic
import TriggerLogic.Command.Run
import TriggerLogic.Proofs.ArtifactFiles

namespace TriggerLogic

namespace Settings

structure Usable (settings : Settings) : Prop where
  namePrefix : Text.isIdentifier settings.namePrefix = true
  inputs : settings.markers.inputs ≠ []
  outputs : settings.markers.outputs ≠ []

variable {settings final : Settings}

theorem not_usable_iff :
    ¬ settings.Usable ↔ Text.isIdentifier settings.namePrefix = false ∨
      settings.markers.inputs = [] ∨ settings.markers.outputs = [] := by
  constructor
  · intro refused
    by_contra accepted
    simp only [not_or, Bool.not_eq_false] at accepted
    exact refused ⟨accepted.1, accepted.2.1, accepted.2.2⟩
  · rintro (other | empty | empty) usable
    · simp [usable.namePrefix] at other
    · exact usable.inputs empty
    · exact usable.outputs empty

theorem check_of_usable (usable : settings.Usable) : check settings = .ok settings := by
  simp [check, usable.namePrefix, usable.inputs, usable.outputs]

theorem check_of_not_usable (refused : ¬ settings.Usable) : ∃ fault, check settings = .error fault := by
  rcases not_usable_iff.mp refused with other | empty | empty
  · exact ⟨.badNamePrefix, by simp [check, other]⟩
  all_goals
    cases identifier : Text.isIdentifier settings.namePrefix with
    | true => exact ⟨.emptyMarker, by simp [check, identifier, empty]⟩
    | false => exact ⟨.badNamePrefix, by simp [check, identifier]⟩

theorem check_eq_ok (done : check settings = .ok final) : settings.Usable ∧ final = settings := by
  by_cases usable : settings.Usable
  · rw [check_of_usable usable] at done
    exact ⟨usable, (Except.ok.inj done).symm⟩
  · obtain ⟨fault, failed⟩ := check_of_not_usable usable
    rw [failed] at done
    cases done

theorem usable_of_ofText {root : Path} {text : Text} (read : ofText root text = .ok final) :
    final.Usable := by
  unfold ofText at read
  obtain ⟨usable, rfl⟩ := check_eq_ok read
  exact usable

end Settings

namespace FileTree

def loadSettings (tree : FileTree) (path : Path) : Except Fault Settings :=
  match tree.readText path with
  | .error fault => .error (.access path fault)
  | .ok text =>
    match Settings.ofText (path.parent?.getD ['.']) text with
    | .error fault => .error (.settings path fault)
    | .ok settings => .ok settings

theorem loadSettings_eq_ok {tree : FileTree} {path : Path} {settings : Settings}
    (loaded : tree.loadSettings path = .ok settings) :
    ∃ text, tree.readText path = .ok text ∧
      Settings.ofText (path.parent?.getD ['.']) text = .ok settings := by
  unfold loadSettings at loaded
  split at loaded
  · cases loaded
  rename_i text there
  split at loaded
  · cases loaded
  · rename_i read
    cases loaded
    exact ⟨text, there, read⟩

def settings (tree : FileTree) (directory : Path) : Except Fault Settings :=
  match ((directory :: directory.parents).map fun place => place.join Settings.fileName).find?
      tree.isPresent with
  | none => .ok {}
  | some path => tree.loadSettings path

end FileTree

namespace Session

theorem firstPresent?_run (paths : List Path) (session : Session) :
    (FileAccess.firstPresent? paths : StateM Session _) session =
      (paths.find? session.files.isPresent, session) := by
  induction paths with
  | nil => rfl
  | cons path paths ih =>
    rw [FileAccess.firstPresent?, run_bind, List.find?_cons]
    show (if session.files.isPresent path = true then _ else _ : StateM Session _) session = _
    cases session.files.isPresent path with
    | true => rfl
    | false => exact ih

theorem presentAmong_run (paths : List Path) (session : Session) :
    (FileAccess.presentAmong paths : StateM Session _) session =
      (paths.filter session.files.isPresent, session) := by
  induction paths with
  | nil => rfl
  | cons path paths ih =>
    rw [FileAccess.presentAmong, run_bind]
    show (FileAccess.presentAmong paths >>= _ : StateM Session _) session = _
    rw [run_bind, ih, List.filter_cons]
    rfl

theorem load_run (path : Path) (session : Session) :
    (Settings.load path : StateM Session _) session = (session.files.loadSettings path, session) := by
  have read : (FileAccess.readText path : StateM Session _) session =
      (session.files.readText path, session) := rfl
  rw [Settings.load, run_bind, read, FileTree.loadSettings]
  cases session.files.readText path with
  | error fault => rfl
  | ok text =>
    simp only
    cases Settings.ofText (path.parent?.getD ['.']) text <;> rfl

theorem find?_run (directory : Path) (session : Session) :
    (Settings.find? directory : StateM Session _) session =
      (((directory :: directory.parents).map fun place => place.join Settings.fileName).find?
        session.files.isPresent, session) :=
  firstPresent?_run _ session

theorem discover_run (directory : Path) (session : Session) :
    (Settings.discover directory : StateM Session _) session =
      (session.files.settings directory, session) := by
  rw [Settings.discover, run_bind, find?_run, FileTree.settings]
  cases ((directory :: directory.parents).map fun place => place.join Settings.fileName).find?
      session.files.isPresent with
  | none => rfl
  | some path => exact load_run path session

def firstLine (session : Session) : Text :=
  (Text.lines session.input).headD []

theorem readLine_run (session : Session) :
    ∃ after : Session, after.files = session.files ∧
      (Terminal.readLine : StateM Session Text) session = (session.firstLine, after) := by
  simp only [Terminal.readLine, firstLine]
  split
  · rename_i lines
    exact ⟨session, rfl, by rw [lines]; rfl⟩
  · rename_i line more lines
    exact ⟨{ session with input := more.flatten }, rfl, by rw [lines]; rfl⟩

end Session

theorem Artifact.mem_all (artifact : Artifact) : artifact ∈ Artifact.all := by
  cases artifact <;> decide

namespace Command

open Session

variable {session after : Session} {input : Path} {options : Options} {plan : ArtifactPlan}
  {compiled : Compiled}

/-- What the input compiles to with the settings found for it, and where that goes. -/
structure Compiles (tree : FileTree) (input : Path) (options : Options) (plan : ArtifactPlan)
    (compiled : Compiled) : Prop where
  isFile : tree.isFile input = true
  compiles : ∃ settings source, tree.settings (directoryOf input) = .ok settings ∧
    ArtifactPlan.ofInput input settings.namePrefix
      (options.outDirectory.or settings.outDirectory) = .ok plan ∧
    tree.readText input = .ok source ∧
    compile settings.markers plan.functionName (input.fileName?.getD input) source = .ok compiled

/-- No artifact is there already, unless the options or an answer allow to replace it. -/
def Cleared (tree : FileTree) (answer : Text) (options : Options) (plan : ArtifactPlan) : Prop :=
  (∃ artifact, tree.isPresent (plan.path artifact) = true) →
    options.force = true ∨ Text.lower (Text.trim answer) = ['y'] ∨
      Text.lower (Text.trim answer) = ['y', 'e', 's']

theorem isConsent_iff (answer : Text) :
    isConsent answer = true ↔
      Text.lower (Text.trim answer) = ['y'] ∨ Text.lower (Text.trim answer) = ['y', 'e', 's'] := by
  simp [isConsent]

theorem answer_cases {first : Path} {outcome : Except Fault Unit}
    (ran : (do
      let answer ← Terminal.readLine
      if isConsent answer then pure (.ok ()) else pure (.error (.targetExists first)) :
        StateM Session (Except Fault Unit)) session = (outcome, after)) :
    after.files = session.files ∧ (outcome = .ok () → isConsent session.firstLine = true) := by
  obtain ⟨answered, sameFiles, read⟩ := readLine_run session
  rw [run_bind, read] at ran
  simp only at ran
  split at ran
  · rename_i consent
    cases ran
    exact ⟨sameFiles, fun _ => consent⟩
  · cases ran
    exact ⟨sameFiles, fun done => nomatch done⟩

theorem clearTargets_cases {outcome : Except Fault Unit}
    (ran : (clearTargets plan options.force : StateM Session _) session = (outcome, after)) :
    after.files = session.files ∧
      (outcome = .ok () → Cleared session.files session.firstLine options plan) := by
  rw [clearTargets, run_bind, ArtifactPlan.existing, presentAmong_run] at ran
  cases found : (Artifact.all.map plan.path).filter session.files.isPresent with
  | nil =>
    rw [found] at ran
    cases ran
    refine ⟨rfl, ?_⟩
    rintro - ⟨artifact, present⟩
    have absent := List.filter_eq_nil_iff.mp found _ (List.mem_map_of_mem artifact.mem_all)
    exact absurd present absent
  | cons first more =>
    rw [found] at ran
    simp only at ran
    split at ran
    · rename_i forced
      cases ran
      exact ⟨rfl, fun _ _ => .inl forced⟩
    · rw [run_bind, run_bind] at ran
      obtain ⟨sameFiles, consent⟩ := answer_cases ran
      exact ⟨sameFiles, fun done _ => .inr ((isConsent_iff _).mp (consent done))⟩

theorem writeArtifacts_cases {texts : ArtifactTexts} {status : Nat}
    (ran : (writeArtifacts plan texts : StateM Session Nat) session = (status, after)) :
    status = 0 ∧ plan.Delivered texts session.files after.files ∨
      status = 1 ∧ ∃ path reason broken,
        plan.writeIn texts session = (.error (.access path reason), broken) ∧
        after.files = broken.files := by
  rw [writeArtifacts, run_bind] at ran
  cases wrote : plan.writeIn texts session with
  | mk outcome broken =>
    have same : (plan.write texts : StateM Session _) session = (outcome, broken) := wrote
    rw [same] at ran
    rcases ArtifactPlan.writeIn_cases wrote with ⟨rfl, delivered⟩ | ⟨_, _, _, _, -, stopped, -, -⟩
    · cases ran
      exact .inl ⟨rfl, delivered⟩
    · rcases stopped with ⟨rfl, -⟩ | rfl
      · cases ran
        exact .inr ⟨rfl, _, _, _, rfl, rfl⟩
      · cases ran
        exact .inr ⟨rfl, _, _, _, rfl, rfl⟩

/-- How a compilation may end, by exit status and files: shown, refused, delivered, or broken off
while writing. -/
inductive Ends (tree : FileTree) (answer : Text) (input : Path) (options : Options) :
    Nat → FileTree → Prop
  | shown (preview : options.preview = true) : Ends tree answer input options 0 tree
  | refused (status : Nat) (failed : status ≠ 0) : Ends tree answer input options status tree
  | delivered {plan : ArtifactPlan} {compiled : Compiled} {files : FileTree}
    (preview : options.preview = false)
    (compiles : Compiles tree input options plan compiled)
    (cleared : Cleared tree answer options plan)
    (delivered : plan.Delivered compiled.texts tree files) :
    Ends tree answer input options 0 files
  | broken {plan : ArtifactPlan} {compiled : Compiled} {asked broken : Session} {path : Path}
    {reason : AccessFault}
    (preview : options.preview = false)
    (compiles : Compiles tree input options plan compiled)
    (cleared : Cleared tree answer options plan) (sameFiles : asked.files = tree)
    (failed : plan.writeIn compiled.texts asked = (.error (.access path reason), broken)) :
    Ends tree answer input options 1 broken.files

theorem ends_of_clear {status : Nat} (preview : options.preview = false)
    (compiles : Compiles session.files input options plan compiled)
    (ran : (do
      match ← clearTargets plan options.force with
      | .error fault => fail fault.message
      | .ok () => writeArtifacts plan compiled.texts : StateM Session Nat) session =
        (status, after)) :
    Ends session.files session.firstLine input options status after.files := by
  rw [run_bind] at ran
  cases asking : (clearTargets plan options.force : StateM Session _) session with
  | mk outcome asked =>
    rw [asking] at ran
    obtain ⟨sameFiles, cleared⟩ := clearTargets_cases asking
    cases outcome with
    | error fault =>
      cases ran
      exact sameFiles ▸ Ends.refused 1 Nat.one_ne_zero
    | ok done =>
      rcases writeArtifacts_cases ran with ⟨rfl, delivered⟩ | ⟨rfl, _, _, broken, failed, left⟩
      · exact .delivered preview compiles (cleared rfl) (sameFiles ▸ delivered)
      · exact left ▸ .broken preview compiles (cleared rfl) sameFiles failed

theorem ends_of_show {status : Nat}
    (ran : (do
      if options.preview then
        Terminal.print (plan.preview compiled.texts)
        pure 0
      else
        match ← clearTargets plan options.force with
        | .error fault => fail fault.message
        | .ok () => writeArtifacts plan compiled.texts : StateM Session Nat) session =
      (status, after))
    (compiles : Compiles session.files input options plan compiled) :
    Ends session.files session.firstLine input options status after.files := by
  split at ran
  · rename_i preview
    cases ran
    exact .shown preview
  · rename_i preview
    exact ends_of_clear (Bool.eq_false_iff.mpr preview) compiles ran

theorem ends_of_deliver {status : Nat}
    (compiles : Compiles session.files input options plan compiled)
    (ran : (deliver options plan compiled : StateM Session Nat) session = (status, after)) :
    Ends session.files session.firstLine input options status after.files := by
  rw [deliver] at ran
  split at ran
  · rw [run_bind] at ran
    have ends := ends_of_show ran compiles
    exact ends
  · exact ends_of_show ran compiles

theorem ends_of_compileInput {status : Nat}
    (ran : (compileInput input options : StateM Session Nat) session = (status, after)) :
    Ends session.files session.firstLine input options status after.files := by
  have refused : ∀ message, ((fail message : StateM Session Nat) session = (status, after) ∨
      (failWithUsage message : StateM Session Nat) session = (status, after)) →
      Ends session.files session.firstLine input options status after.files := by
    intro message ran
    rcases ran with ran | ran
    · cases ran
      exact .refused 1 Nat.one_ne_zero
    · cases ran
      exact .refused 1 Nat.one_ne_zero
  rw [compileInput, run_bind] at ran
  replace ran : (if session.files.isFile input = true then _ else _ : StateM Session Nat) session =
    (status, after) := ran
  split at ran
  case isFalse => exact refused _ (.inr ran)
  rename_i isFile
  rw [run_bind, discover_run] at ran
  cases found : session.files.settings (directoryOf input) with
  | error fault =>
    rw [found] at ran
    exact refused _ (.inl ran)
  | ok settings =>
    rw [found] at ran
    simp only at ran
    cases planned : ArtifactPlan.ofInput input settings.namePrefix
        (options.outDirectory.or settings.outDirectory) with
    | error fault =>
      rw [planned] at ran
      exact refused _ (.inr ran)
    | ok plan =>
      rw [planned] at ran
      simp only at ran
      have read : (FileAccess.readText input : StateM Session _) session =
        (session.files.readText input, session) := rfl
      rw [run_bind, read] at ran
      cases text : session.files.readText input with
      | error fault =>
        rw [text] at ran
        exact refused _ (.inr ran)
      | ok source =>
        rw [text] at ran
        simp only at ran
        cases compiles : compile settings.markers plan.functionName (input.fileName?.getD input)
            source with
        | error fault =>
          rw [compiles] at ran
          cases fault with
          | source fault =>
            cases ran
            exact .refused 1 Nat.one_ne_zero
          | overflow =>
            cases ran
            exact .refused 101 (by decide)
        | ok compiled =>
          rw [compiles] at ran
          exact ends_of_deliver ⟨isFile, settings, source, found, planned, text, compiles⟩ ran

def runIn (arguments : List Text) (session : Session) : Nat × Session :=
  (run arguments : StateM Session Nat) session

theorem ends_of_runIn {arguments : List Text} {status : Nat}
    (ran : runIn arguments session = (status, after))
    (asked : Request.ofArguments arguments = .compile input options) :
    Ends session.files session.firstLine input options status after.files := by
  rw [runIn, run, asked] at ran
  exact ends_of_compileInput ran

theorem files_of_runIn {arguments : List Text} {status : Nat}
    (ran : runIn arguments session = (status, after))
    (asked : ∀ input options, Request.ofArguments arguments ≠ .compile input options) :
    after.files = session.files := by
  rw [runIn, run] at ran
  cases request : Request.ofArguments arguments with
  | compile input options => exact absurd request (asked input options)
  | help | version | misuse =>
    rw [request] at ran
    cases ran
    rfl

/-- What a run does to the files. A preview changes nothing. A compilation without it that succeeds
writes the artifacts and makes their directory, replacing artifacts only when allowed to. One that
fails changes nothing unless it is the writing that fails, and other requests change nothing. -/
theorem run_changes_only_artifacts {arguments : List Text} {session after : Session} {status : Nat}
    (ran : runIn arguments session = (status, after)) :
    (∀ input options, Request.ofArguments arguments = .compile input options →
      (status = 0 → options.preview = true → after.files = session.files) ∧
      (status = 0 → options.preview = false → ∃ plan compiled,
        Compiles session.files input options plan compiled ∧
        Cleared session.files session.firstLine options plan ∧
        plan.Delivered compiled.texts session.files after.files) ∧
      (status ≠ 0 → after.files = session.files ∨ ∃ plan compiled asked path reason broken,
        options.preview = false ∧ Compiles session.files input options plan compiled ∧
        Cleared session.files session.firstLine options plan ∧ asked.files = session.files ∧
        plan.writeIn compiled.texts asked = (.error (.access path reason), broken) ∧
        after.files = broken.files)) ∧
    ((∀ input options, Request.ofArguments arguments ≠ .compile input options) →
      after.files = session.files) := by
  refine ⟨?_, files_of_runIn ran⟩
  intro input options asked
  generalize left : after.files = files
  have ends := ends_of_runIn ran asked
  rw [left] at ends
  cases ends with
  | shown preview =>
    exact ⟨fun _ _ => rfl, fun _ other => absurd (preview.symm.trans other) (by decide),
      fun failed => absurd rfl failed⟩
  | refused _ failed =>
    exact ⟨fun zero => absurd zero failed, fun zero => absurd zero failed, fun _ => .inl rfl⟩
  | delivered preview compiles cleared delivered =>
    exact ⟨fun _ other => absurd (preview.symm.trans other) (by decide),
      fun _ _ => ⟨_, _, compiles, cleared, delivered⟩, fun failed => absurd rfl failed⟩
  | broken preview compiles cleared sameFiles failed =>
    exact ⟨fun zero => absurd zero Nat.one_ne_zero, fun zero => absurd zero Nat.one_ne_zero,
      fun _ => .inr ⟨_, _, _, _, _, _, preview, compiles, cleared, sameFiles, failed, rfl⟩⟩

def sampleSession : Session where
  files := { entries := [(["ftd_0.01.vhd".toList],
    .text ("-- Inputs\nsignal a : std_logic;\n".toList ++
      "-- Outputs\nsignal y : std_logic;\nbegin\ny <= a;\n".toList))] }

def sampleArguments : List Text := ["-o".toList, "x/y".toList, "ftd_0.01.vhd".toList]

def sampleOptions : Options where
  input := some "ftd_0.01.vhd".toList
  outDirectory := some "x/y".toList

theorem sampleSession_delivered :
    Request.ofArguments sampleArguments = .compile "ftd_0.01.vhd".toList sampleOptions ∧
      (runIn sampleArguments sampleSession).1 = 0 ∧
      ∃ plan compiled,
        Compiles sampleSession.files "ftd_0.01.vhd".toList sampleOptions plan compiled ∧
        plan.Delivered compiled.texts sampleSession.files
          (runIn sampleArguments sampleSession).2.files := by
  have asked : Request.ofArguments sampleArguments =
      .compile "ftd_0.01.vhd".toList sampleOptions := by decide +kernel
  have succeeds : (runIn sampleArguments sampleSession).1 = 0 := by decide +kernel
  have changes := (run_changes_only_artifacts (Prod.fst_eq_iff.mp succeeds)).1 _ _ asked
  obtain ⟨plan, compiled, compiles, -, delivered⟩ := changes.2.1 rfl rfl
  exact ⟨asked, succeeds, plan, compiled, compiles, delivered⟩

end Command

end TriggerLogic
