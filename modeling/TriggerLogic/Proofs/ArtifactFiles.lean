import TriggerLogic.Artifact.Plan
import TriggerLogic.Command.Session
import TriggerLogic.Proofs.TreeGrowth

namespace TriggerLogic

namespace Session

open FileTree

variable {session after : Session} {outcome : Except AccessFault Unit}

theorem run_bind {α β : Type} (action : StateM Session α) (next : α → StateM Session β)
    (session : Session) :
    (action >>= next) session = next (action session).1 (action session).2 := rfl

theorem change_of_ok {operation : FileTree → Except AccessFault FileTree} {files : FileTree}
    (done : operation session.files = .ok files) :
    change operation session = (.ok (), { session with files := files }) := by
  rw [change, done]

theorem change_of_error {operation : FileTree → Except AccessFault FileTree} {fault : AccessFault}
    (failed : operation session.files = .error fault) :
    change operation session = (.error fault, session) := by
  rw [change, failed]

theorem ensureDirectory_of_ok {path : Path} {files : FileTree}
    (made : session.files.makeDirectory path = .ok files) :
    (FileAccess.ensureDirectory path : StateM Session _) session =
      (.ok (), { session with files := files }) := by
  have done : (FileAccess.makeDirectory path : StateM Session _) session = _ := change_of_ok made
  rw [FileAccess.ensureDirectory, run_bind, done]
  rfl

theorem ensureDirectory_of_error {path : Path} {fault : AccessFault}
    (failed : session.files.makeDirectory path = .error fault) :
    (FileAccess.ensureDirectory path : StateM Session _) session =
      (if session.files.isDirectory path then .ok () else .error fault, session) := by
  have done : (FileAccess.makeDirectory path : StateM Session _) session = _ :=
    change_of_error failed
  rw [FileAccess.ensureDirectory, run_bind, done]
  show (if session.files.isDirectory path = true then _ else _ : StateM Session _) session = _
  split <;> rfl

theorem ensureDirectory_grown {path : Path}
    (ran : (FileAccess.ensureDirectory path : StateM Session _) session = (outcome, after)) :
    Grown [path] session.files after.files ∧
      (outcome = .ok () → after.files.isDirectory path = true) ∧
      ∀ fault, outcome = .error fault → after = session := by
  cases made : session.files.makeDirectory path with
  | ok files =>
    rw [ensureDirectory_of_ok made] at ran
    cases ran
    obtain ⟨grown, here⟩ := Grown.of_makeDirectory made
    exact ⟨grown, fun _ => here, fun _ contrary => nomatch contrary⟩
  | error fault =>
    rw [ensureDirectory_of_error made] at ran
    cases ran
    refine ⟨Grown.refl _ _, ?_, fun _ _ => rfl⟩
    intro done
    by_contra missing
    rw [if_neg missing] at done
    cases done

theorem ensureDirectory_present {path : Path} (here : session.files.isDirectory path = true) :
    (FileAccess.ensureDirectory path : StateM Session _) session = (.ok (), session) := by
  cases made : session.files.makeDirectory path with
  | ok files =>
    obtain ⟨location, -, absent, -, leads⟩ := makeDirectory_eq_ok made
    obtain ⟨place, led, directory⟩ := isDirectory_iff.mp here
    have same := (Grown.of_makeDirectory made).1.retains.locate led
    rw [leads] at same
    cases same
    rw [absent] at directory
    cases directory
  | error fault => rw [ensureDirectory_of_error made, if_pos here]

theorem ensureChain_cases {path : Path} {parents : List Path} (nonempty : path ≠ [])
    (ran : (FileAccess.ensureChain (path :: parents) : StateM Session _) session =
      (outcome, after)) :
    (FileAccess.ensureDirectory path : StateM Session _) session = (outcome, after) ∨
      (∃ middle, (FileAccess.ensureChain parents : StateM Session _) session = (.ok (), middle) ∧
        (FileAccess.ensureDirectory path : StateM Session _) middle = (outcome, after)) ∨
      ∃ fault, outcome = .error fault ∧
        (FileAccess.ensureChain parents : StateM Session _) session = (.error fault, after) := by
  rw [FileAccess.ensureChain, if_neg (by simpa using nonempty), run_bind] at ran
  cases tried : (FileAccess.ensureDirectory path : StateM Session _) session with
  | mk first attempted =>
    rw [tried] at ran
    cases first with
    | ok done => exact .inl ran
    | error fault =>
      cases fault with
      | alreadyThere | notDirectory | isDirectory | notText | other => exact .inl ran
      | notFound =>
        obtain ⟨-, -, unmade⟩ := ensureDirectory_grown tried
        cases unmade .notFound rfl
        replace ran : (FileAccess.ensureChain parents >>= _ : StateM Session _) session = _ := ran
        rw [run_bind] at ran
        cases climbed : (FileAccess.ensureChain parents : StateM Session _) session with
        | mk second middle =>
          rw [climbed] at ran
          cases second with
          | ok done => exact .inr (.inl ⟨middle, rfl, ran⟩)
          | error fault =>
            cases ran
            exact .inr (.inr ⟨fault, rfl, rfl⟩)

/-- A property of the files that no new directory of the chain destroys holds at the end. -/
theorem ensureChain_preserves {motive : FileTree → Prop} {paths : List Path}
    (step : ∀ path ∈ paths, ∀ {before after}, before.makeDirectory path = .ok after →
      motive before → motive after)
    (ran : (FileAccess.ensureChain paths : StateM Session _) session = (outcome, after))
    (start : motive session.files) : motive after.files := by
  induction paths generalizing session after outcome with
  | nil =>
    cases ran
    exact start
  | cons path parents ih =>
    rw [List.forall_mem_cons] at step
    have single : ∀ {first last : Session} {result : Except AccessFault Unit},
        (FileAccess.ensureDirectory path : StateM Session _) first = (result, last) →
        motive first.files → motive last.files := by
      intro first last result tried kept
      cases made : first.files.makeDirectory path with
      | ok files =>
        rw [ensureDirectory_of_ok made] at tried
        cases tried
        exact step.1 made kept
      | error fault =>
        rw [ensureDirectory_of_error made] at tried
        cases tried
        exact kept
    by_cases empty : path = []
    · subst empty
      cases ran
      exact start
    · rcases ensureChain_cases empty ran with direct | ⟨middle, climbed, made⟩ | ⟨fault, -, climbed⟩
      · exact single direct start
      · exact single made (ih step.2 climbed start)
      · exact ih step.2 climbed start

theorem ensureChain_grown {paths : List Path}
    (ran : (FileAccess.ensureChain paths : StateM Session _) session = (outcome, after)) :
    Grown paths session.files after.files ∧
      (outcome = .ok () → ∀ path ∈ paths.head?, path ≠ [] →
        after.files.isDirectory path = true) := by
  refine ⟨?_, ?_⟩
  · apply ensureChain_preserves (motive := Grown paths session.files) _ ran (Grown.refl _ _)
    intro path listed before after made grown
    have sub : [path] ⊆ paths := by simpa using listed
    exact grown.trans ((Grown.of_makeDirectory made).1.mono sub)
  · rintro rfl path head nonempty
    obtain ⟨parents, rfl⟩ : ∃ parents, paths = path :: parents := List.head?_eq_some_iff.mp head
    rcases ensureChain_cases nonempty ran with direct | ⟨middle, -, made⟩ | ⟨fault, contrary, -⟩
    · exact (ensureDirectory_grown direct).2.1 rfl
    · exact (ensureDirectory_grown made).2.1 rfl
    · cases contrary

theorem ensureDirectories_grown {path : Path}
    (ran : (FileAccess.ensureDirectories path : StateM Session _) session = (outcome, after)) :
    Grown (path :: path.parents) session.files after.files ∧
      (outcome = .ok () → ∀ spelled ∈ path :: path.parents, spelled ≠ [] →
        after.files.isDirectory spelled = true) := by
  obtain ⟨grown, here⟩ := ensureChain_grown ran
  refine ⟨grown, ?_⟩
  intro done spelled listed nonempty
  rcases List.mem_cons.mp listed with rfl | above
  · exact here done _ rfl nonempty
  · have path_ne : path ≠ [] := by
      rintro rfl
      cases above
    obtain ⟨location, leads, -⟩ := isDirectory_iff.mp (here done path rfl path_ne)
    exact isDirectory_of_mem_parents leads above nonempty

theorem ensureDirectories_present {path : Path}
    (here : path = [] ∨ session.files.isDirectory path = true) :
    (FileAccess.ensureDirectories path : StateM Session _) session = (.ok (), session) := by
  rw [FileAccess.ensureDirectories, FileAccess.ensureChain]
  split
  · rfl
  · rename_i nonempty
    have directory := here.resolve_left (by simpa using nonempty)
    rw [run_bind, ensureDirectory_present directory]
    rfl

end Session

theorem Path.exists_splitOn_append (lead : Path) :
    ∃ front stem, ∀ tail, '/' ∉ tail → (lead ++ tail).splitOn '/' = front ++ [stem ++ tail] := by
  by_cases slash : '/' ∈ lead.reverse
  · obtain ⟨stem, front, reversed, last⟩ := List.eq_append_cons_of_mem slash
    have parts : lead = front.reverse ++ '/' :: stem.reverse := by
      rw [← List.reverse_reverse lead, reversed]
      simp
    refine ⟨front.reverse.splitOn '/', stem.reverse, ?_⟩
    intro tail fresh
    have single : '/' ∉ stem.reverse ++ tail := by simpa using ⟨last, fresh⟩
    rw [parts, List.append_assoc, List.cons_append, List.splitOn_append_cons_self,
      List.splitOn_eq_singleton single]
  · refine ⟨[], lead, ?_⟩
    intro tail fresh
    have single : '/' ∉ lead ++ tail := by
      rw [List.mem_append, not_or]
      exact ⟨by simpa using slash, fresh⟩
    rw [List.splitOn_eq_singleton single, List.nil_append]

namespace ArtifactPlan

variable {plan : ArtifactPlan} {texts : ArtifactTexts}

theorem exists_path_eq (plan : ArtifactPlan) :
    ∃ lead, ∀ artifact, plan.path artifact = lead ++ '.' :: artifact.fileExtension := by
  have head : ∀ tail : Text, (plan.functionName ++ '.' :: tail).head? = some '/' ↔
      plan.functionName.head? = some '/' := by
    intro tail
    cases plan.functionName <;> simp
  by_cases absolute : plan.functionName.head? = some '/'
  · exact ⟨plan.functionName, fun artifact => if_pos ((head _).mpr absolute)⟩
  · have relative : ∀ artifact, plan.path artifact =
        if plan.directory.isEmpty || plan.directory.getLast? = some '/' then
          plan.directory ++ plan.fileName artifact
        else plan.directory ++ '/' :: plan.fileName artifact :=
      fun artifact => if_neg (mt (head _).mp absolute)
    by_cases ended : (plan.directory.isEmpty || plan.directory.getLast? = some '/') = true
    · refine ⟨plan.directory ++ plan.functionName, ?_⟩
      intro artifact
      rw [relative, if_pos ended, fileName, List.append_assoc]
    · refine ⟨plan.directory ++ '/' :: plan.functionName, ?_⟩
      intro artifact
      rw [relative, if_neg ended, fileName, List.append_assoc, List.cons_append]

theorem slash_not_mem_fileExtension (artifact : Artifact) : '/' ∉ '.' :: artifact.fileExtension := by
  cases artifact <;> decide

theorem last_of_fileExtension (artifact : Artifact) :
    ∃ c, c ≠ '.' ∧ ('.' :: artifact.fileExtension).getLast? = some c := by
  cases artifact with
  | inputBits | outputBits | evaluator => exact ⟨'s', by decide, by decide⟩
  | algebra => exact ⟨'g', by decide, by decide⟩

theorem stepTo_named (reached : Location) (stem : Text) (artifact : Artifact) :
    FileTree.stepTo reached (stem ++ '.' :: artifact.fileExtension) =
      reached ++ [stem ++ '.' :: artifact.fileExtension] := by
  have last : (stem ++ '.' :: artifact.fileExtension).getLast? ≠ some '.' := by
    obtain ⟨c, other, last⟩ := last_of_fileExtension artifact
    rw [List.getLast?_append, last, Option.some_or]
    exact fun same => other (Option.some.inj same)
  apply FileTree.stepTo_name
  rw [Bool.eq_false_iff]
  intro special
  rcases Bool.or_eq_true_iff.mp special with idle | back
  · rcases Bool.or_eq_true_iff.mp idle with empty | dot
    · simp at empty
    · rw [beq_iff_eq.mp dot] at last
      exact last rfl
  · rw [beq_iff_eq.mp back] at last
    exact last rfl

theorem exists_name_of_locate (plan : ArtifactPlan) :
    ∃ stem, ∀ {tree : FileTree} {artifact location},
      tree.locate (plan.path artifact) = .ok location →
        location.getLast? = some (stem ++ '.' :: artifact.fileExtension) := by
  obtain ⟨lead, paths⟩ := plan.exists_path_eq
  obtain ⟨front, stem, segments⟩ := Path.exists_splitOn_append lead
  refine ⟨stem, ?_⟩
  intro tree artifact location leads
  obtain ⟨-, found⟩ := FileTree.locate_eq_ok_iff.mp leads
  rw [paths, segments _ (slash_not_mem_fileExtension artifact)] at found
  obtain ⟨reached, -, -, rfl⟩ := FileTree.follow_last found
  rw [stepTo_named, List.getLast?_concat]

theorem eq_of_locate {tree : FileTree} {location : Location} {first second : Artifact}
    (here : tree.locate (plan.path first) = .ok location)
    (there : tree.locate (plan.path second) = .ok location) : first = second := by
  obtain ⟨stem, named⟩ := plan.exists_name_of_locate
  have names := Option.some.inj ((named here).symm.trans (named there))
  have extensions : first.fileExtension = second.fileExtension := by simpa using names
  revert extensions
  cases first <;> cases second <;> decide

structure Written (plan : ArtifactPlan) (texts : ArtifactTexts) (written : List Artifact)
    (before after : FileTree) : Prop where
  retains : FileTree.Retains before after
  text : ∀ artifact ∈ written, after.entry (plan.path artifact) = .ok (.text (texts.get artifact))
  entry : ∀ location, after.entryAt? location = before.entryAt? location ∨
    ∃ artifact ∈ written, after.locate (plan.path artifact) = .ok location

theorem Written.nil (plan : ArtifactPlan) (texts : ArtifactTexts) (tree : FileTree) :
    plan.Written texts [] tree tree :=
  ⟨FileTree.Retains.refl tree, fun _ listed => (nomatch listed), fun _ => .inl rfl⟩

theorem Written.cons {artifact : Artifact} {more : List Artifact} {before middle after : FileTree}
    (first : before.write (plan.path artifact) (.text (texts.get artifact)) = .ok middle)
    (others : plan.Written texts more middle after) :
    plan.Written texts (artifact :: more) before after := by
  obtain ⟨place, leads, free, rfl⟩ := FileTree.write_eq_ok_iff.mp first
  have kept := FileTree.retains_set free (.text (texts.get artifact))
  have leadsAfter := (kept.trans others.retains).locate leads
  refine ⟨kept.trans others.retains, ?_, ?_⟩
  · refine List.forall_mem_cons.mpr ⟨?_, others.text⟩
    rcases others.entry place with same | ⟨other, listed, shared⟩
    · rw [FileTree.entryAt?_set_self free] at same
      exact FileTree.entry_eq_ok_iff.mpr ⟨place, leadsAfter, same⟩
    · cases eq_of_locate leadsAfter shared
      exact others.text artifact listed
  · intro location
    by_cases here : location = place
    · exact .inr ⟨artifact, List.mem_cons_self, here ▸ leadsAfter⟩
    · rcases others.entry location with same | ⟨other, listed, leadsThere⟩
      · exact .inl (same.trans (FileTree.entryAt?_set_ne free here _))
      · exact .inr ⟨other, List.mem_cons_of_mem _ listed, leadsThere⟩

section Runs

variable {session after : Session} {outcome : Except Fault (List Path)}

/-- All artifacts are written, or those before the first whose path cannot be written to. -/
theorem writeEach_cases {artifacts : List Artifact}
    (ran : (plan.writeEach texts artifacts : StateM Session _) session = (outcome, after)) :
    outcome = .ok (artifacts.map plan.path) ∧
        plan.Written texts artifacts session.files after.files ∨
      ∃ written failing rest reason, artifacts = written ++ failing :: rest ∧
        outcome = .error (.access (plan.path failing) reason) ∧
        plan.Written texts written session.files after.files ∧ (written = [] → after = session) := by
  induction artifacts generalizing session after outcome with
  | nil =>
    cases ran
    exact .inl ⟨rfl, Written.nil plan texts _⟩
  | cons artifact more ih =>
    rw [writeEach, Session.run_bind] at ran
    cases wrote : session.files.write (plan.path artifact) (.text (texts.get artifact)) with
    | error reason =>
      have failed : (FileAccess.writeText (plan.path artifact) (texts.get artifact) :
          StateM Session _) session = _ := Session.change_of_error wrote
      rw [failed] at ran
      cases ran
      exact .inr ⟨[], artifact, more, reason, rfl, rfl, Written.nil plan texts _, fun _ => rfl⟩
    | ok files =>
      have done : (FileAccess.writeText (plan.path artifact) (texts.get artifact) :
          StateM Session _) session = _ := Session.change_of_ok wrote
      rw [done] at ran
      replace ran : (plan.writeEach texts more >>= _ : StateM Session _) _ = _ := ran
      rw [Session.run_bind] at ran
      cases later : (plan.writeEach texts more : StateM Session _) { session with files := files } with
      | mk result final =>
        rw [later] at ran
        cases ran
        rcases ih later with ⟨rfl, others⟩ | ⟨written, failing, rest, reason, rfl, rfl, others, -⟩
        · exact .inl ⟨rfl, Written.cons wrote others⟩
        · exact .inr ⟨artifact :: written, failing, rest, reason, rfl, rfl, Written.cons wrote others,
            fun none => nomatch none⟩

/-- The given artifacts hold their texts, directories that the path of the output directory spells
may have been made, and nothing else has changed. -/
structure Advanced (plan : ArtifactPlan) (texts : ArtifactTexts) (written : List Artifact)
    (before after : FileTree) : Prop where
  workingDirectory : after.workingDirectory = before.workingDirectory
  text : ∀ artifact ∈ written, after.entry (plan.path artifact) = .ok (.text (texts.get artifact))
  entry : ∀ location, after.entryAt? location = before.entryAt? location ∨
    (∃ artifact ∈ written, after.locate (plan.path artifact) = .ok location) ∨
    before.entryAt? location = none ∧ after.entryAt? location = some .directory ∧
      ∃ path ∈ plan.directory :: plan.directory.parents, after.locate path = .ok location

theorem Written.advanced {written : List Artifact} {before middle after : FileTree}
    (grown : FileTree.Grown (plan.directory :: plan.directory.parents) before middle)
    (wrote : plan.Written texts written middle after) : plan.Advanced texts written before after := by
  refine ⟨wrote.retains.workingDirectory.trans grown.workingDirectory, wrote.text, ?_⟩
  intro location
  rcases wrote.entry location with same | artifact
  · rw [same]
    rcases grown.entry location with unchanged | ⟨absent, added, path, spelled, leads⟩
    · exact .inl unchanged
    · exact .inr (.inr ⟨absent, added, path, spelled, wrote.retains.locate leads⟩)
  · exact .inr (.inl artifact)

/-- The output directory is there with all parents that its path spells, every artifact holds its
text, and nothing else has changed. -/
structure Delivered (plan : ArtifactPlan) (texts : ArtifactTexts) (before after : FileTree) : Prop
    extends plan.Advanced texts Artifact.all before after where
  directories : ∀ path ∈ plan.directory :: plan.directory.parents, path ≠ [] →
    after.isDirectory path = true

def writeIn (plan : ArtifactPlan) (texts : ArtifactTexts) (session : Session) :
    Except Fault (List Path) × Session :=
  (plan.write texts : StateM Session (Except Fault (List Path))) session

theorem writeIn_stages (ran : plan.writeIn texts session = (outcome, after)) :
    ∃ made middle,
      (FileAccess.ensureDirectories plan.directory : StateM Session _) session = (made, middle) ∧
      ((∃ reason, made = .error reason ∧ outcome = .error (.access plan.directory reason) ∧
          after = middle) ∨
        made = .ok () ∧
          (plan.writeEach texts Artifact.all : StateM Session _) middle = (outcome, after)) := by
  rw [writeIn, write, Session.run_bind] at ran
  cases ensured : (FileAccess.ensureDirectories plan.directory : StateM Session _) session with
  | mk made middle =>
    refine ⟨made, middle, rfl, ?_⟩
    rw [ensured] at ran
    cases made with
    | error reason =>
      cases ran
      exact .inl ⟨reason, rfl, rfl, rfl⟩
    | ok done => exact .inr ⟨rfl, ran⟩

theorem writeIn_cases (ran : plan.writeIn texts session = (outcome, after)) :
    outcome = .ok (Artifact.all.map plan.path) ∧ plan.Delivered texts session.files after.files ∨
      ∃ written failing rest reason, Artifact.all = written ++ failing :: rest ∧
        (outcome = .error (.access plan.directory reason) ∧ written = [] ∨
          outcome = .error (.access (plan.path failing) reason)) ∧
        plan.Advanced texts written session.files after.files ∧
        (written = [] → plan.directory = [] ∨ session.files.isDirectory plan.directory = true →
          after = session) := by
  obtain ⟨made, middle, ensured, stages⟩ := writeIn_stages ran
  obtain ⟨grown, directories⟩ := Session.ensureDirectories_grown ensured
  rcases stages with ⟨reason, rfl, rfl, rfl⟩ | ⟨rfl, ran⟩
  · refine .inr ⟨[], .inputBits, _, reason, rfl, .inl ⟨rfl, rfl⟩,
      (Written.nil plan texts _).advanced grown, ?_⟩
    intro _ present
    rw [Session.ensureDirectories_present present] at ensured
    cases ensured
  · rcases writeEach_cases ran with ⟨rfl, wrote⟩ | ⟨written, failing, rest, reason, split, rfl,
      wrote, untouched⟩
    · refine .inl ⟨rfl, wrote.advanced grown, ?_⟩
      intro path spelled nonempty
      exact wrote.retains.isDirectory (directories rfl path spelled nonempty)
    · refine .inr ⟨written, failing, rest, reason, split, .inr rfl, wrote.advanced grown, ?_⟩
      intro none present
      rw [Session.ensureDirectories_present present] at ensured
      cases ensured
      exact untouched none

/-- What a failed write leaves behind: the artifacts before the one that failed, and directories made
for them. With the output directory there and no artifact written, nothing has changed. -/
theorem failed_write_leaves {fault : Fault}
    (failed : plan.writeIn texts session = (.error fault, after)) :
    ∃ written failing rest reason, Artifact.all = written ++ failing :: rest ∧
      (fault = .access plan.directory reason ∧ written = [] ∨
        fault = .access (plan.path failing) reason) ∧
      plan.Advanced texts written session.files after.files ∧
      (written = [] → plan.directory = [] ∨ session.files.isDirectory plan.directory = true →
        after.files = session.files) := by
  rcases writeIn_cases failed with ⟨contrary, -⟩ | ⟨written, failing, rest, reason, split, stopped,
    advanced, untouched⟩
  · cases contrary
  · simp only [Except.error.injEq] at stopped
    exact ⟨written, failing, rest, reason, split, stopped, advanced,
      fun none present => congrArg Session.files (untouched none present)⟩

end Runs

def samplePlan : ArtifactPlan := ⟨"0_01".toList, "ftd_0_01".toList, []⟩

def sampleTexts : ArtifactTexts :=
  ⟨"0   a\n".toList, "0   y\n".toList, "0 : ( 0 )\n".toList, "// evaluator\n".toList⟩

def blockedSession : Session where
  files := { entries := [(["ftd_0_01.outbits".toList], .directory)] }

def blockedFault : Fault := .access "ftd_0_01.outbits".toList .isDirectory

def partlyWritten : Session where
  files := { entries := [(["ftd_0_01.outbits".toList], .directory),
    (["ftd_0_01.inbits".toList], .text "0   a\n".toList)] }

theorem blockedSession_leaves :
    samplePlan.writeIn sampleTexts blockedSession = (.error blockedFault, partlyWritten) ∧
      ∃ written, samplePlan.Advanced sampleTexts written blockedSession.files partlyWritten.files := by
  have failed : samplePlan.writeIn sampleTexts blockedSession =
      (.error blockedFault, partlyWritten) := by decide +kernel
  obtain ⟨written, _, _, _, -, -, advanced, -⟩ := failed_write_leaves failed
  exact ⟨failed, written, advanced⟩

theorem blockedSession_changed :
    samplePlan.writeIn sampleTexts blockedSession = (.error blockedFault, partlyWritten) ∧
      partlyWritten.files ≠ blockedSession.files ∧
      blockedSession.files.entry "ftd_0_01.inbits".toList = .error .notFound ∧
      partlyWritten.files.entry "ftd_0_01.inbits".toList = .ok (.text "0   a\n".toList) := by
  decide +kernel

end ArtifactPlan

end TriggerLogic
