import TriggerLogic.Command.Run
import TriggerLogic.Files.Tree

namespace TriggerLogic

structure Session where
  files : FileTree := {}
  input : Text := []
  printed : Text := []
  notified : Text := []
  deriving DecidableEq, Repr

namespace Session

/-- Carries out a change of the files that may fail, and then leaves them as they are. -/
def change (operation : FileTree → Except AccessFault FileTree) :
    StateM Session (Except AccessFault Unit) := fun session =>
  match operation session.files with
  | .error fault => (.error fault, session)
  | .ok files => (.ok (), { session with files := files })

instance : FileAccess (StateM Session) where
  isFile path := fun session => (session.files.isFile path, session)
  isDirectory path := fun session => (session.files.isDirectory path, session)
  isPresent path := fun session => (session.files.isPresent path, session)
  readText path := fun session => (session.files.readText path, session)
  writeText path content := change fun files => files.write path (.text content)
  makeDirectory path := change fun files => files.makeDirectory path

instance : Terminal (StateM Session) where
  print text := fun session => ((), { session with printed := session.printed ++ text })
  notify text := fun session => ((), { session with notified := session.notified ++ text })
  readLine := fun session =>
    match Text.lines session.input with
    | [] => ([], session)
    | line :: more => (line, { session with input := more.flatten })

end Session

end TriggerLogic
