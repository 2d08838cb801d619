import TriggerLogic.Decision.Table
import TriggerLogic.Files.Access
import TriggerLogic.Logic.Listing

namespace TriggerLogic

inductive SettingsFault where
  | badNamePrefix
  | emptyMarker
  deriving DecidableEq, Repr

def SettingsFault.reason : SettingsFault → Text
  | badNamePrefix => "'prefix' must be a valid identifier".toList
  | emptyMarker => "region markers must not be empty".toList

inductive Fault where
  | source (fault : SourceFault)
  | overflow
  | targetExists (path : Path)
  | badFileName (name : Text)
  | listing (line : Nat) (fault : ListingFault)
  | settings (path : Path) (fault : SettingsFault)
  | access (path : Path) (fault : AccessFault)
  deriving DecidableEq, Repr

namespace Fault

def message : Fault → Text
  | source fault => fault.message
  | overflow => TableFault.overflow.message
  | targetExists path => "'".toList ++ path ++ "' already exists (use --force to overwrite)".toList
  | badFileName name =>
    "'".toList ++ name ++ "' does not match '<prefix>_<major>.<minor>.vhd'".toList
  | listing line fault =>
    "algebra listing line ".toList ++ Text.decimal line ++ ": ".toList ++ fault.reason
  | settings path fault =>
    "invalid configuration in '".toList ++ path ++ "': ".toList ++ fault.reason
  | access path fault => "cannot access '".toList ++ path ++ "': ".toList ++ fault.reason

def notice : Fault → Notice
  | source fault => fault.notice
  | fault => ⟨fault.message, Span.nowhere, [], none⟩

end Fault

def TableFault.toFault : TableFault → Fault
  | source fault => .source fault
  | overflow => .overflow

end TriggerLogic
