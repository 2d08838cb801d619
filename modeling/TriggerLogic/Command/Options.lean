import TriggerLogic.Files.Path

namespace TriggerLogic

structure Options where
  input : Option Path := none
  outDirectory : Option Path := none
  verbose : Bool := false
  force : Bool := false
  preview : Bool := false
  deriving DecidableEq, Repr

inductive Request where
  | compile (input : Path) (options : Options)
  | help
  | version
  | misuse
  deriving DecidableEq, Repr

inductive Switch where
  | verbose
  | force
  | preview
  | outDirectory
  | help
  | version
  deriving DecidableEq, Repr

namespace Switch

def ofLetter? : Char → Option Switch
  | 'v' => some .verbose
  | 'f' => some .force
  | 'p' => some .preview
  | 'o' => some .outDirectory
  | 'h' => some .help
  | 'V' => some .version
  | _ => none

def ofName? (name : Text) : Option Switch :=
  if name = "verbose".toList then some .verbose
  else if name = "force".toList then some .force
  else if name = "preview".toList then some .preview
  else if name = "out-dir".toList then some .outDirectory
  else if name = "help".toList then some .help
  else if name = "version".toList then some .version
  else none

end Switch

namespace Options

def setFlag (given : Bool) (update : Options) : Except Request Options :=
  if given then .error .misuse else .ok update

def flag (options : Options) : Switch → Except Request Options
  | .verbose => setFlag options.verbose { options with verbose := true }
  | .force => setFlag options.force { options with force := true }
  | .preview => setFlag options.preview { options with preview := true }
  | .help => .error .help
  | .version => .error .version
  | .outDirectory => .error .misuse

def setDirectory (options : Options) (path : Path) : Except Request Options :=
  if path.isEmpty || options.outDirectory.isSome then .error .misuse
  else .ok { options with outDirectory := some path }

def setInput (options : Options) (path : Path) : Except Request Options :=
  if path.isEmpty || options.input.isSome then .error .misuse
  else .ok { options with input := some path }

inductive Effect where
  | done (options : Options)
  | wantsDirectory (options : Options)

/-- Takes in the letters after one dash. What follows the letter of the output directory is its
value, with or without an equals sign. -/
def letters (options : Options) : Text → Except Request Effect
  | [] => .ok (.done options)
  | letter :: rest =>
    match Switch.ofLetter? letter with
    | none => .error .misuse
    | some .outDirectory =>
      if rest.isEmpty then .ok (.wantsDirectory options)
      else (options.setDirectory ((Text.afterLead? ['='] rest).getD rest)).map .done
    | some switch =>
      match options.flag switch with
      | .error request => .error request
      | .ok next => next.letters rest

def named (options : Options) (text : Text) : Except Request Effect :=
  match Text.cut? ['='] text with
  | some (name, value) =>
    if Switch.ofName? name = some .outDirectory then (options.setDirectory value).map .done
    else .error .misuse
  | none =>
    match Switch.ofName? text with
    | none => .error .misuse
    | some .outDirectory => .ok (.wantsDirectory options)
    | some switch => (options.flag switch).map .done

def argument (options : Options) : Text → Except Request Effect
  | '-' :: '-' :: name => options.named name
  | '-' :: letter :: more => options.letters (letter :: more)
  | path => (options.setInput path).map .done

/-- An argument that starts with a dash is no value, a dash alone is one. -/
def isValue (argument : Text) : Bool :=
  argument.head? != some '-' || argument.length == 1

def inputs (options : Options) : List Text → Except Request Options
  | [] => .ok options
  | path :: more =>
    match options.setInput path with
    | .error request => .error request
    | .ok next => next.inputs more

/-- Takes in arguments in order; `awaited` tells that the output directory is still to come. -/
def arguments (options : Options) (awaited : Bool) : List Text → Except Request Options
  | [] => if awaited then .error .misuse else .ok options
  | first :: more =>
    if awaited then
      if isValue first then
        match options.setDirectory first with
        | .error request => .error request
        | .ok next => next.arguments false more
      else .error .misuse
    else if first = ['-', '-'] then options.inputs more
    else match options.argument first with
      | .error request => .error request
      | .ok (.done next) => next.arguments false more
      | .ok (.wantsDirectory next) => next.arguments true more

end Options

def Request.ofArguments (arguments : List Text) : Request :=
  match Options.arguments {} false arguments with
  | .error request => request
  | .ok options =>
    match options.input with
    | none => .misuse
    | some input => .compile input options

end TriggerLogic
