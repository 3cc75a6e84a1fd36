import LivePage.Json.Settings
import LivePage.Toml.Settings

namespace LivePage

inductive SettingsFormat
  | toml
  | json
deriving DecidableEq, Repr

inductive SettingsError
  | toml
  | json (fault : Json.Fault)
deriving DecidableEq, Repr

def SettingsError.message : SettingsError → String
  | .toml => "invalid TOML settings"
  | .json _ => "invalid JSON settings"

def MountSettings.read (format : SettingsFormat) (text : String) :
    Except SettingsError MountSettings :=
  match format with
  | .toml =>
    match ofToml? text with
    | some s => .ok s
    | none => .error .toml
  | .json =>
    match ofJson text with
    | .ok s => .ok s
    | .error fault => .error (.json fault)

end LivePage
