import TriggerLogic.Command.Options

namespace TriggerLogic

def Options.withForce (options : Options) : Options :=
  { options with force := true }

def Request.withForce : Request → Request
  | .compile input options => .compile input options.withForce
  | request => request

namespace Options

namespace Effect

def options : Effect → Options
  | .done options => options
  | .wantsDirectory options => options

def awaits : Effect → Bool
  | .done _ => false
  | .wantsDirectory _ => true

def withForce : Effect → Effect
  | .done options => .done options.withForce
  | .wantsDirectory options => .wantsDirectory options.withForce

end Effect

/-- What leaves `force` unset does the same to options that have it set, and what is refused asks for
no compilation. -/
structure Unforced {α : Type} (view : α → Options) (mark : α → α) (options : Options)
    (plain forced : Except Request α) : Prop where
  accepted : ∀ result, plain = .ok result → (view result).force = false →
    options.force = false ∧ forced = .ok (mark result)
  refused : ∀ request, plain = .error request → request.withForce = request

section Steps

variable {α β : Type} {view : α → Options} {mark : α → α} {viewNext : β → Options} {markNext : β → β}
  {options : Options} {plain forced : Except Request α}

theorem Unforced.ok {result : α} (kept : (view result).force = options.force) :
    Unforced view mark options (.ok result) (.ok (mark result)) := by
  refine ⟨?_, ?_⟩
  · rintro _ ⟨⟩ unset
    exact ⟨kept.symm.trans unset, rfl⟩
  · intro request failed
    cases failed

theorem Unforced.error {request : Request} (refused : request.withForce = request) :
    Unforced view mark options (.error request) forced := by
  refine ⟨?_, ?_⟩
  · intro result done
    cases done
  · rintro _ ⟨⟩
    exact refused

/-- Step after step: what the last one leaves unset was never set. -/
theorem Unforced.bind {step : α → Except Request β} (first : Unforced view mark options plain forced)
    (rest : ∀ result, Unforced viewNext markNext (view result) (step result) (step (mark result))) :
    Unforced viewNext markNext options (plain.bind step) (forced.bind step) := by
  cases plain with
  | error request => exact .error (first.refused request rfl)
  | ok result =>
    refine ⟨?_, (rest result).refused⟩
    intro last done unset
    obtain ⟨between, onward⟩ := (rest result).accepted last done unset
    obtain ⟨start, again⟩ := first.accepted result rfl between
    rw [again]
    exact ⟨start, onward⟩

end Steps

theorem setFlag_unforced {options update : Options} {given : Bool}
    (kept : update.force = options.force) :
    Unforced id withForce options (setFlag given update) (setFlag given update.withForce) := by
  unfold setFlag
  split
  · exact .error rfl
  · exact .ok kept

theorem setInput_unforced (options : Options) (path : Path) :
    Unforced id withForce options (options.setInput path) (options.withForce.setInput path) :=
  setFlag_unforced rfl

theorem setDirectory_unforced (options : Options) (path : Path) :
    Unforced id withForce options (options.setDirectory path) (options.withForce.setDirectory path) :=
  setFlag_unforced rfl

theorem flag_unforced (options : Options) (switch : Switch) :
    Unforced id withForce options (options.flag switch) (options.withForce.flag switch) := by
  cases switch with
  | verbose | preview => exact setFlag_unforced rfl
  | force =>
    refine ⟨?_, ?_⟩
    · intro next set unset
      simp only [flag, setFlag] at set
      split at set
      · cases set
      · cases set
        cases unset
    · exact (setFlag_unforced rfl).refused
  | help | version | outDirectory => exact .error rfl

theorem Unforced.done {options : Options} {plain forced : Except Request Options}
    (step : Unforced id withForce options plain forced) :
    Unforced Effect.options Effect.withForce options (plain.map .done) (forced.map .done) := by
  have whole : ∀ outcome : Except Request Options,
      outcome.map Effect.done = outcome.bind fun next => .ok (.done next) := by
    intro outcome
    cases outcome <;> rfl
  rw [whole, whole]
  exact step.bind fun next => .ok rfl

theorem letters_cons (options : Options) {letter : Char} {switch : Switch}
    (known : Switch.ofLetter? letter = some switch) (other : switch ≠ .outDirectory) (rest : Text) :
    options.letters (letter :: rest) = (options.flag switch).bind fun next => next.letters rest := by
  rw [letters, known]
  cases switch with
  | outDirectory => exact absurd rfl other
  | verbose | force | preview | help | version =>
    simp only
    split <;> rename_i flagged <;> rw [flagged] <;> rfl

theorem letters_unforced (options : Options) (text : Text) :
    Unforced Effect.options Effect.withForce options (options.letters text)
      (options.withForce.letters text) := by
  induction text generalizing options with
  | nil => exact .ok rfl
  | cons letter rest ih =>
    cases known : Switch.ofLetter? letter with
    | none =>
      rw [letters, known]
      exact .error rfl
    | some switch =>
      by_cases directory : switch = .outDirectory
      · rw [letters, letters, known, directory]
        simp only
        split
        · exact .ok rfl
        · exact (setDirectory_unforced _ _).done
      · rw [letters_cons options known directory, letters_cons options.withForce known directory]
        exact (flag_unforced _ _).bind ih

theorem named_unforced (options : Options) (text : Text) :
    Unforced Effect.options Effect.withForce options (options.named text)
      (options.withForce.named text) := by
  unfold named
  split
  · split
    · exact (setDirectory_unforced _ _).done
    · exact .error rfl
  · split
    · exact .error rfl
    · exact .ok rfl
    · exact (flag_unforced _ _).done

theorem argument_unforced (options : Options) (text : Text) :
    Unforced Effect.options Effect.withForce options (options.argument text)
      (options.withForce.argument text) := by
  unfold argument
  split
  · exact named_unforced _ _
  · exact letters_unforced _ _
  · exact (setInput_unforced _ _).done

theorem inputs_cons (options : Options) (path : Path) (more : List Path) :
    options.inputs (path :: more) = (options.setInput path).bind fun next => next.inputs more := by
  rw [inputs]
  split <;> rename_i given <;> rw [given] <;> rfl

theorem inputs_unforced (options : Options) (paths : List Path) :
    Unforced id withForce options (options.inputs paths) (options.withForce.inputs paths) := by
  induction paths generalizing options with
  | nil => exact .ok rfl
  | cons path more ih =>
    rw [inputs_cons, inputs_cons]
    exact (setInput_unforced options path).bind ih

theorem arguments_awaited (options : Options) {first : Text} (value : isValue first = true)
    (more : List Text) :
    options.arguments true (first :: more) =
      (options.setDirectory first).bind fun next => next.arguments false more := by
  rw [Options.arguments, if_pos rfl, if_pos value]
  split <;> rename_i given <;> rw [given] <;> rfl

theorem arguments_cons (options : Options) {first : Text} (further : first ≠ ['-', '-'])
    (more : List Text) :
    options.arguments false (first :: more) =
      (options.argument first).bind fun effect => effect.options.arguments effect.awaits more := by
  rw [Options.arguments, if_neg Bool.false_ne_true, if_neg further]
  split <;> rename_i read <;> rw [read] <;> rfl

theorem arguments_unforced (options : Options) (awaited : Bool) (arguments : List Text) :
    Unforced id withForce options (options.arguments awaited arguments)
      (options.withForce.arguments awaited arguments) := by
  induction arguments generalizing options awaited with
  | nil => exact setFlag_unforced rfl
  | cons first more ih =>
    cases awaited with
    | true =>
      by_cases value : isValue first = true
      · rw [arguments_awaited options value, arguments_awaited options.withForce value]
        exact (setDirectory_unforced options first).bind fun next => ih next false
      · rw [Options.arguments, if_pos rfl, if_neg value]
        exact .error rfl
    | false =>
      by_cases last : first = ['-', '-']
      · subst last
        exact inputs_unforced options more
      · rw [arguments_cons options last, arguments_cons options.withForce last]
        refine (argument_unforced options first).bind fun effect => ?_
        cases effect <;> exact ih _ _

end Options

namespace Request

def forcing (arguments : List Text) : List Text :=
  match Options.arguments {} false arguments with
  | .ok options => if options.force then arguments else "--force".toList :: arguments
  | .error _ => arguments

theorem arguments_force {arguments : List Text} {options : Options}
    (read : Options.arguments {} false arguments = .ok options) (unset : options.force = false) :
    Options.arguments {} false ("--force".toList :: arguments) = .ok options.withForce :=
  ((Options.arguments_unforced {} false arguments).accepted options read unset).2

theorem ofArguments_forcing (arguments : List Text) :
    ofArguments (forcing arguments) = (ofArguments arguments).withForce := by
  cases read : Options.arguments {} false arguments with
  | error request =>
    have refused := (Options.arguments_unforced {} false arguments).refused request read
    simp only [forcing, ofArguments, read, refused]
  | ok options =>
    cases set : options.force with
    | true =>
      have same : options.withForce = options := by
        rw [Options.withForce, ← set]
      simp only [forcing, ofArguments, read, set, if_true]
      cases options.input <;> simp [withForce, same]
    | false =>
      have again := arguments_force read set
      simp only [forcing, ofArguments, read, set, again, Bool.false_eq_true, if_false]
      cases given : options.input <;> simp [withForce, Options.withForce, given]

end Request

end TriggerLogic
