import JobOperator.Config.Duration
import JobOperator.Config.Images

/-!
The configuration of the operator, and the settings it is made from: what a file gives, of which
everything may be left out. Settings are checked one after the other, and the first that cannot be
used is the one reported.
-/

namespace JobOperator

/-- How long to wait before a job is looked at again: while it runs, and after a failure. -/
structure Requeue where
  running : Duration := { nanos := 60 * 1000000000 }
  error : Duration := { nanos := 30 * 1000000000 }
  deriving DecidableEq, Repr

/-- The configuration of the operator. Without a namespace, it looks after the jobs of all. -/
structure Config where
  «namespace» : Option String := none
  images : Images := {}
  servicePort : Int32 := 8001
  requeue : Requeue := {}
  deriving DecidableEq, Repr

/-- The images that a file gives. -/
structure ImageSettings where
  gitSync : Option String := none
  objectStore : Option String := none
  dependencyInstaller : Option String := none
  deriving DecidableEq, Repr

/-- What a file gives. -/
structure Settings where
  «namespace» : Option String := none
  images : ImageSettings := {}
  servicePort : Int64 := 8001
  requeue : Requeue := {}
  deriving DecidableEq, Repr

/-- An image by the key of its setting. -/
inductive ImageKey where
  | gitSync
  | objectStore
  | dependencyInstaller
  deriving DecidableEq, Repr

/-- The key of an image in a file. -/
def ImageKey.name : ImageKey → String
  | gitSync => "gitSync"
  | objectStore => "objectStore"
  | dependencyInstaller => "dependencyInstaller"

/-- Why settings cannot be used. -/
inductive SettingsError where
  | portOutOfRange (port : Int64)
  | emptyNamespace
  | emptyImage (key : ImageKey)
  deriving DecidableEq, Repr

namespace SettingsError

/-- The words of a failure. -/
def message : SettingsError → String
  | portOutOfRange port =>
    "servicePort must be between 1 and 65535, got " ++ String.ofList (Decimal.ofInt port.toInt)
  | emptyNamespace => "namespace must not be empty when set"
  | emptyImage key => "Image '" ++ key.name ++ "' must not be empty"

end SettingsError

namespace Settings

/-- An image: the given one, which must not be blank, or the usual one. -/
def image (key : ImageKey) (usual : String) : Option String → Except SettingsError String
  | none => .ok usual
  | some given => if Text.allBlank given then .error (.emptyImage key) else .ok given

/-- The images that settings stand for. -/
def checkImages (given : ImageSettings) : Except SettingsError Images := do
  let usual : Images := {}
  let gitSync ← image .gitSync usual.gitSync given.gitSync
  let objectStore ← image .objectStore usual.objectStore given.objectStore
  let dependencyInstaller ←
    image .dependencyInstaller usual.dependencyInstaller given.dependencyInstaller
  return { gitSync, objectStore, dependencyInstaller }

/-- The configuration that settings stand for. -/
def check (settings : Settings) : Except SettingsError Config :=
  if ¬ (1 ≤ settings.servicePort ∧ settings.servicePort ≤ 65535) then
    .error (.portOutOfRange settings.servicePort)
  else if settings.namespace.any Text.allBlank then .error .emptyNamespace
  else do
    let images ← checkImages settings.images
    return {
      «namespace» := settings.namespace
      images
      servicePort := settings.servicePort.toInt32
      requeue := settings.requeue }

end Settings

end JobOperator
