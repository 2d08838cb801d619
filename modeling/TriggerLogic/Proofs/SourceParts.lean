import TriggerLogic.Proofs.BodyText

namespace TriggerLogic

theorem StatementList.closed_addLine (statements : StatementList) (offset : Nat) (line : Text) :
    ∃ added, (statements.addLine offset line).closed = statements.closed ++ added := by
  refine addLine_induction
    (motive := fun _ _ before after => ∃ added, after.closed = before.closed ++ added)
    ?_ ?_ ?_ offset line statements
  · intro _ _ statements _
    exact ⟨[], (List.append_nil _).symm⟩
  · intro _ _ statements _ _ _
    exact ⟨[], (List.append_nil _).symm⟩
  · rintro _ _ _ statements statement after _ _ ⟨added, grown⟩
    refine ⟨statement.close?.toList ++ added, ?_⟩
    rw [grown, close, List.append_assoc]

namespace Reading

variable {markers : Markers} {reading before middle after : Reading} {offset : Nat} {raw : Text}

/-- What the part in which a line is read lets the line change. Each list grows at its end only, and
no line of another part adds to it. -/
structure Extends (before after : Reading) : Prop where
  body : before.part = .body → after.part = .body
  inputs : ∃ added, after.inputs = before.inputs ++ added ∧ (added ≠ [] → before.part = .inputs)
  outputs : ∃ added, after.outputs = before.outputs ++ added ∧ (added ≠ [] → before.part = .outputs)
  closed : ∃ added, after.statements.closed = before.statements.closed ++ added ∧
    (added ≠ [] → before.part = .body)
  pending : before.part ≠ .body → after.statements.pending = before.statements.pending
  preamble : before.part = .preamble → after = { before with part := after.part }

theorem extends_part (outside : reading.part ≠ .body) (part : SourcePart) :
    reading.Extends { reading with part := part } where
  body body := absurd body outside
  inputs := ⟨[], (List.append_nil _).symm, fun some => absurd rfl some⟩
  outputs := ⟨[], (List.append_nil _).symm, fun some => absurd rfl some⟩
  closed := ⟨[], (List.append_nil _).symm, fun some => absurd rfl some⟩
  pending _ := rfl
  preamble _ := rfl

theorem extends_addLine (body : reading.part = .body) (offset : Nat) (line : Text) :
    reading.Extends { reading with statements := reading.statements.addLine offset line } where
  body _ := body
  inputs := ⟨[], (List.append_nil _).symm, fun some => absurd rfl some⟩
  outputs := ⟨[], (List.append_nil _).symm, fun some => absurd rfl some⟩
  closed := by
    obtain ⟨added, grown⟩ := reading.statements.closed_addLine offset line
    exact ⟨added, grown, fun _ => body⟩
  pending outside := absurd body outside
  preamble other := by
    rw [body] at other
    cases other

theorem extends_declare (declares : reading.part = .inputs ∨ reading.part = .outputs)
    (declaration : Declaration) : reading.Extends (reading.declare declaration) := by
  have outside : reading.part ≠ .body := by
    rcases declares with part | part <;> simp [part]
  have same : reading.Extends reading := extends_part outside reading.part
  rcases declares with part | part
  · rw [declare, part]
    exact { same with
      body := fun body => absurd (part.symm.trans body) (by decide)
      inputs := ⟨_, rfl, fun _ => part⟩
      preamble := fun other => absurd (part.symm.trans other) (by decide) }
  · rw [declare, part]
    simp only
    split
    · exact same
    · exact { same with
        body := fun body => absurd (part.symm.trans body) (by decide)
        outputs := ⟨_, rfl, fun _ => part⟩
        preamble := fun other => absurd (part.symm.trans other) (by decide) }

theorem extends_step (read : before.step markers offset raw = .ok after) : before.Extends after := by
  rcases step_cases read with ⟨body, rfl⟩ | ⟨outside, part, rfl⟩ | ⟨declares, declaration, -, rfl⟩
  · exact extends_addLine body offset _
  · exact extends_part outside part
  · exact extends_declare declares declaration

theorem step_preamble (part : reading.part = .preamble) :
    ∃ next, reading.step markers offset raw = .ok next := by
  have outside : reading.part ≠ .body := by simp [part]
  rw [step, if_neg outside]
  split <;> exact ⟨_, rfl⟩

/-- Where a run may lead: the lists have grown, and behind the start of the body nothing more is
declared. -/
structure LeadsTo (before after : Reading) : Prop where
  inputs : before.inputs <+: after.inputs
  outputs : before.outputs <+: after.outputs
  closed : before.statements.closed <+: after.statements.closed
  body : before.part = .body →
    after.part = .body ∧ after.inputs = before.inputs ∧ after.outputs = before.outputs

theorem LeadsTo.refl (reading : Reading) : reading.LeadsTo reading :=
  ⟨List.prefix_rfl, List.prefix_rfl, List.prefix_rfl, fun body => ⟨body, rfl, rfl⟩⟩

theorem LeadsTo.trans (first : before.LeadsTo middle) (second : middle.LeadsTo after) :
    before.LeadsTo after where
  inputs := first.inputs.trans second.inputs
  outputs := first.outputs.trans second.outputs
  closed := first.closed.trans second.closed
  body start := by
    obtain ⟨between, inputs, outputs⟩ := first.body start
    obtain ⟨final, laterInputs, laterOutputs⟩ := second.body between
    exact ⟨final, laterInputs.trans inputs, laterOutputs.trans outputs⟩

theorem Extends.leadsTo (line : before.Extends after) : before.LeadsTo after := by
  obtain ⟨inputs, sameInputs, declaresInputs⟩ := line.inputs
  obtain ⟨outputs, sameOutputs, declaresOutputs⟩ := line.outputs
  obtain ⟨closed, sameClosed, -⟩ := line.closed
  refine ⟨⟨inputs, sameInputs.symm⟩, ⟨outputs, sameOutputs.symm⟩, ⟨closed, sameClosed.symm⟩, ?_⟩
  intro body
  have noInput : inputs = [] := by
    by_contra some
    exact absurd (body.symm.trans (declaresInputs some)) (by decide)
  have noOutput : outputs = [] := by
    by_contra some
    exact absurd (body.symm.trans (declaresOutputs some)) (by decide)
  rw [noInput, List.append_nil] at sameInputs
  rw [noOutput, List.append_nil] at sameOutputs
  exact ⟨line.body body, sameInputs, sameOutputs⟩

theorem leadsTo_steps {lines : List Text} (read : steps markers offset before lines = .ok after) :
    before.LeadsTo after :=
  steps_preserves (fun stepped leads => leads.trans (extends_step stepped).leadsTo) read
    (LeadsTo.refl before)

def Idle (reading : Reading) : Prop :=
  reading.part ≠ .body → reading.statements.pending = none

theorem Idle.step (idle : before.Idle) (read : before.step markers offset raw = .ok after) :
    after.Idle := by
  intro outside
  have line := extends_step read
  have earlier : before.part ≠ .body := mt line.body outside
  rw [line.pending earlier, idle earlier]

theorem idle_of_steps {lines : List Text} (read : steps markers 0 {} lines = .ok reading) :
    reading.Idle :=
  steps_preserves (fun stepped idle => idle.step stepped) read fun _ => rfl

end Reading

theorem DesignUnit.declared_before_body {markers : Markers} {source : Text} {unit : DesignUnit}
    {shared : List Text} {reading : Reading} (read : Reading.steps markers 0 {} shared = .ok reading)
    (body : reading.part = .body) (leading : shared <+: Text.lines source)
    (accepted : DesignUnit.read markers source = .ok unit) :
    unit.inputs = reading.inputs ∧ unit.outputs = reading.outputs := by
  obtain ⟨final, whole, rfl⟩ := read_eq_ok accepted
  obtain ⟨more, lines⟩ := leading
  rw [← lines, Reading.steps_append read] at whole
  exact ((Reading.leadsTo_steps whole).body body).2

/-- Every run reads its lines part by part. A line adds to the list of its own part only, one before
the first part is never refused and declares nothing, and no statement is open outside the body. A
run never leaves the body, so sources that agree up to its start declare the same signals. -/
theorem parts_extend_their_own_lists (markers : Markers) :
    (∀ lines raw reading, Reading.steps markers 0 {} lines = .ok reading →
      reading.Idle ∧
      (reading.part = .preamble →
        ∃ next, reading.step markers (Text.byteLength lines.flatten) raw = .ok next) ∧
      ∀ next, reading.step markers (Text.byteLength lines.flatten) raw = .ok next →
        reading.Extends next ∧ next.Idle) ∧
    (∀ lines more before after, Reading.steps markers 0 {} lines = .ok before →
      Reading.steps markers 0 {} (lines ++ more) = .ok after → before.LeadsTo after) ∧
    ∀ shared reading first second unit other, Reading.steps markers 0 {} shared = .ok reading →
      reading.part = .body → shared <+: Text.lines first → shared <+: Text.lines second →
      DesignUnit.read markers first = .ok unit → DesignUnit.read markers second = .ok other →
      unit.inputs = other.inputs ∧ unit.outputs = other.outputs := by
  refine ⟨?_, ?_, ?_⟩
  · intro lines raw reading read
    have idle := Reading.idle_of_steps read
    refine ⟨idle, Reading.step_preamble, ?_⟩
    intro next stepped
    exact ⟨Reading.extends_step stepped, idle.step stepped⟩
  · intro lines more before after read whole
    rw [Reading.steps_append read] at whole
    exact Reading.leadsTo_steps whole
  · intro shared reading first second unit other read body firstShares secondShares accepted
      otherAccepted
    obtain ⟨inputs, outputs⟩ := DesignUnit.declared_before_body read body firstShares accepted
    obtain ⟨otherInputs, otherOutputs⟩ :=
      DesignUnit.declared_before_body read body secondShares otherAccepted
    exact ⟨inputs.trans otherInputs.symm, outputs.trans otherOutputs.symm⟩

def declaringLines : List Text :=
  ["-- Inputs\n".toList, "signal a : std_logic;\n".toList, "-- Outputs\n".toList,
    "signal y : std_logic;\n".toList, "begin\n".toList]

def inputsReading : Reading :=
  ⟨.inputs, [⟨['a'], 1, ⟨10, 31⟩⟩], [], {}⟩

def declaringReading : Reading :=
  ⟨.body, [⟨['a'], 1, ⟨10, 31⟩⟩], [⟨['y'], ⟨43, 64⟩⟩], {}⟩

def plainLines : List Text := declaringLines ++ ["y <= a;\n".toList]

def redeclaringLines : List Text :=
  declaringLines ++ ["-- Inputs\n".toList, "signal b : std_logic;\n".toList, "y <= not a;\n".toList]

def plainUnit : DesignUnit :=
  ⟨declaringReading.inputs, declaringReading.outputs, [⟨['y'], [' ', 'a'], ⟨75, 77⟩, ⟨71, 78⟩⟩]⟩

def redeclaringUnit : DesignUnit :=
  ⟨declaringReading.inputs, declaringReading.outputs,
    [⟨['y'], " not a".toList, ⟨107, 113⟩, ⟨103, 114⟩⟩]⟩

theorem redeclaringLines_extend_nothing :
    Reading.steps {} 0 {} (declaringLines.take 2) = .ok inputsReading ∧
      Reading.steps {} 0 {} declaringLines = .ok declaringReading ∧ declaringReading.part = .body ∧
      declaringLines <+: Text.lines plainLines.flatten ∧
      declaringLines <+: Text.lines redeclaringLines.flatten ∧
      DesignUnit.read {} plainLines.flatten = .ok plainUnit ∧
      DesignUnit.read {} redeclaringLines.flatten = .ok redeclaringUnit ∧
      inputsReading.statements.pending = none ∧ inputsReading.LeadsTo declaringReading ∧
      plainUnit.inputs = redeclaringUnit.inputs ∧ plainUnit.outputs = redeclaringUnit.outputs := by
  obtain ⟨line, run, sources⟩ := parts_extend_their_own_lists {}
  have early : Reading.steps {} 0 {} (declaringLines.take 2) = .ok inputsReading := by decide +kernel
  have read : Reading.steps {} 0 {} declaringLines = .ok declaringReading := by decide +kernel
  have plain : declaringLines <+: Text.lines plainLines.flatten := by decide +kernel
  have redeclaring : declaringLines <+: Text.lines redeclaringLines.flatten := by decide +kernel
  have accepted : DesignUnit.read {} plainLines.flatten = .ok plainUnit := by decide +kernel
  have alsoAccepted : DesignUnit.read {} redeclaringLines.flatten = .ok redeclaringUnit := by
    decide +kernel
  have whole : declaringLines.take 2 ++ declaringLines.drop 2 = declaringLines :=
    List.take_append_drop 2 declaringLines
  exact ⟨early, read, rfl, plain, redeclaring, accepted, alsoAccepted,
    (line _ [] _ early).1 (by decide), run _ _ _ _ early (whole.symm ▸ read),
    sources _ _ _ _ _ _ read rfl plain redeclaring accepted alsoAccepted⟩

end TriggerLogic
