import TriggerLogic.Files.Path

namespace TriggerLogic

inductive AccessFault where
  | notFound
  | alreadyThere
  | notDirectory
  | isDirectory
  | notText
  | other (text : Text)
  deriving DecidableEq, Repr

def AccessFault.reason : AccessFault → Text
  | notFound => "No such file or directory (os error 2)".toList
  | alreadyThere => "File exists (os error 17)".toList
  | notDirectory => "Not a directory (os error 20)".toList
  | isDirectory => "Is a directory (os error 21)".toList
  | notText => "stream did not contain valid UTF-8".toList
  | other text => text

class FileAccess (m : Type → Type) where
  isFile : Path → m Bool
  isDirectory : Path → m Bool
  isPresent : Path → m Bool
  readText : Path → m (Except AccessFault Text)
  writeText : Path → Text → m (Except AccessFault Unit)
  makeDirectory : Path → m (Except AccessFault Unit)

namespace FileAccess

variable {m : Type → Type} [Monad m] [FileAccess m]

def firstPresent? : List Path → m (Option Path)
  | [] => pure none
  | path :: more => do if ← isPresent path then pure (some path) else firstPresent? more

def presentAmong : List Path → m (List Path)
  | [] => pure []
  | path :: more => do
    let here ← isPresent path
    let others ← presentAmong more
    pure (if here then path :: others else others)

def ensureDirectory (path : Path) : m (Except AccessFault Unit) := do
  match ← makeDirectory path with
  | .ok () => pure (.ok ())
  | .error fault => if ← isDirectory path then pure (.ok ()) else pure (.error fault)

/-- Makes the first of the given directories; the others are its parents, made when missing. -/
def ensureChain : List Path → m (Except AccessFault Unit)
  | [] => pure (.error (.other "failed to create whole tree".toList))
  | path :: parents =>
    if path.isEmpty then pure (.ok ())
    else do
      match ← ensureDirectory path with
      | .error .notFound =>
        match ← ensureChain parents with
        | .ok () => ensureDirectory path
        | .error fault => pure (.error fault)
      | result => pure result

def ensureDirectories (path : Path) : m (Except AccessFault Unit) :=
  ensureChain (path :: path.parents)

end FileAccess

end TriggerLogic
