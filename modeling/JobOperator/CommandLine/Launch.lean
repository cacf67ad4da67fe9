import JobOperator.Api.Access
import JobOperator.CommandLine.Basic
import JobOperator.Store.Call

/-!
What the program needs before its controller starts: a configuration, and then a server to talk to.
-/

namespace JobOperator

/-- The words for a file that gives no configuration. Where its text cannot be read as settings, they
do not say why. -/
def ConfigError.message (path : String) : ConfigError → String
  | missing => "Failed to read config file '" ++ path ++ "': No such file or directory (os error 2)"
  | notText => "Failed to read config file '" ++ path ++ "': stream did not contain valid UTF-8"
  | malformed => "Failed to parse config file '" ++ path ++ "':"
  | invalid cause => "Invalid config file '" ++ path ++ "': " ++ cause.message

namespace CommandLine

/-- Why the program ends with a failure. -/
inductive Failure where
  | config (path : String) (cause : ConfigError)
  /-- There is no server to talk to. -/
  | access
  /-- The controller has not started. -/
  | controller (cause : ClientError)
  deriving DecidableEq, Repr

/-- The words of a failure. Of a client, they do not say why it failed. -/
def Failure.message : Failure → String
  | config path cause => "Failed to load config.\n" ++ cause.message path
  | access => "Failed to initialize kubernetes client."
  | controller _ => "Controller stopped due to following error:"

/-- What the controller is to be started with: the configuration from the bytes of a file, and the
access from the configuration of clients, if there is one. -/
def prepare (path : String) (file : Option ByteArray) (clients : Option String) :
    Except Failure (Config × Access) := do
  let config ← (Config.ofFile file).mapError (.config path)
  match clients.bind Access.ofText? with
  | some access => return (config, access)
  | none => .error .access

end CommandLine

end JobOperator
