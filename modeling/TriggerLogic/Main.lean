import TriggerLogic.Command.Run

namespace TriggerLogic

def AccessFault.ofError : IO.Error → AccessFault
  | .noFileOrDirectory .. => .notFound
  | .alreadyExists .. => .alreadyThere
  | .inappropriateType _ 20 _ => .notDirectory
  | .inappropriateType _ 21 _ => .isDirectory
  | error => .other (toString error).toList

def attempt {α : Type} (action : IO α) : IO (Except AccessFault α) := do
  match ← action.toBaseIO with
  | .ok value => pure (.ok value)
  | .error error => pure (.error (.ofError error))

instance : FileAccess IO where
  isFile path := do
    match ← ((← IO.currentDir) / String.ofList path).metadata.toBaseIO with
    | .ok metadata => pure (metadata.type matches .file)
    | .error _ => pure false
  isDirectory path := do
    ((← IO.currentDir) / String.ofList path).isDir
  isPresent path := do
    ((← IO.currentDir) / String.ofList path).pathExists
  readText path := do
    match ← attempt (IO.FS.readBinFile (String.ofList path)) with
    | .error fault => pure (.error fault)
    | .ok bytes =>
      match String.fromUTF8? bytes with
      | some text => pure (.ok text.toList)
      | none => pure (.error .notText)
  writeText path content :=
    attempt (IO.FS.writeFile (String.ofList path) (String.ofList content))
  makeDirectory path :=
    attempt (IO.FS.createDir (String.ofList path))

instance : Terminal IO where
  print text := do
    let stream ← IO.getStdout
    stream.putStr (String.ofList text)
    stream.flush
  notify text := do
    let stream ← IO.getStderr
    stream.putStr (String.ofList text)
    stream.flush
  readLine := do
    return (← (← IO.getStdin).getLine).toList

end TriggerLogic

def main (arguments : List String) : IO UInt32 := do
  return (← TriggerLogic.Command.run (arguments.map String.toList)).toUInt32
