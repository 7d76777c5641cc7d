import Renumber.Settings.Basic
import Renumber.Toml.Reader
import Renumber.World.Basic

/-!
# Loading settings

The settings are in a file below the working folder. Without the file the usual
settings hold.
-/

namespace Renumber

/-- Why settings could not be loaded. -/
inductive SettingsFault where
  /-- The file cannot be read as text. -/
  | unreadable (path : Path) (fault : DiskFault)
  /-- The text makes no sense as settings. -/
  | senseless (path : Path)
  deriving DecidableEq, Repr

/-- The fault in words. -/
def SettingsFault.message : SettingsFault → String
  | unreadable path _ => "Failed to read config file: " ++ path.display
  | senseless path => "Failed to parse config file: " ++ path.display

/-- The fault in words, with what the disk says about it. -/
def SettingsFault.detailed (fault : SettingsFault) : String :=
  match fault with
  | unreadable _ cause => fault.message ++ ": " ++ cause.message
  | senseless _ => fault.message

namespace Settings

/-- The settings in a text. -/
def parse? (s : List Char) : Option Settings :=
  (Toml.parse? s).bind ofToml?

/-- The text in a file. -/
def readText (w : World) (path : Path) : Except DiskFault (List Char) := do
  match Text.decode? (← w.disk.readFile w.cwd path) with
  | some s => return s
  | none => throw .garbled

/-- The settings in a file. -/
def loadFrom (w : World) (path : Path) : Except SettingsFault Settings :=
  match readText w path with
  | .error fault => .error (.unreadable path fault)
  | .ok s =>
    match parse? s with
    | some settings => .ok settings
    | none => .error (.senseless path)

/-- The file of the settings of a working folder. -/
def file (w : World) : Path :=
  (w.folder.join settingsFolder).join (.ofString "config.toml")

/-- The settings of the working folder. -/
def load (w : World) : Except SettingsFault Settings :=
  if w.reaches (file w) then loadFrom w (file w) else .ok {}

end Settings

end Renumber
