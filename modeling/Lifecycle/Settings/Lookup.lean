import Lifecycle.Settings.Text

/-!
# Finding and loading settings

The settings file is the one that a variable names, which must then exist, or the
one in the configuration directory, which need not. Without a file all settings
keep their defaults. What exists is given by a `FileTree`, so that the answer is
a function of the surroundings.
-/

namespace Lifecycle

/-- What stands at a place of a file tree. -/
inductive FileEntry where
  /-- A directory. -/
  | directory
  /-- A file with its content. -/
  | file (content : ByteArray)

/-- Files and directories, by the names on the way from the root. A directory that holds something
need not be listed. -/
structure FileTree where
  /-- The directory where relative paths start. -/
  start : List String := []
  /-- Files with their contents. -/
  files : List (List String × ByteArray) := []
  /-- Directories that may be empty. -/
  directories : List (List String) := []

namespace FileTree

/-- What stands at a place. -/
def entry? (t : FileTree) (place : List String) : Option FileEntry :=
  match t.files.find? (·.1 = place) with
  | some (_, content) => some (.file content)
  | none =>
    if place.isPrefixOf t.start ∨ t.directories.any (place.isPrefixOf ·)
        ∨ t.files.any (place.isPrefixOf ·.1) then some .directory
    else none

/-- One step from a directory. -/
def walk? (t : FileTree) (place : List String) (name : String) : Option (List String) :=
  match t.entry? place with
  | some .directory =>
    some (if name = "" ∨ name = "." then place
      else if name = ".." then place.dropLast
      else place ++ [name])
  | _ => none

/-- Paths are absolute when they start at the root. -/
def isAbsolute (path : String) : Bool := path.startsWith "/"

/-- The most bytes that a path may take. -/
def maxPathSize : Nat := 4095

/-- What a path leads to. An empty one and one that is too long lead nowhere. -/
def find? (t : FileTree) (path : String) : Option FileEntry := do
  guard (path ≠ "" ∧ path.utf8ByteSize ≤ maxPathSize)
  t.entry? (← (path.splitOn "/").foldlM t.walk? (if isAbsolute path then [] else t.start))

/-- A name within a directory. -/
def join (directory name : String) : String :=
  if directory.endsWith "/" then directory ++ name else directory ++ "/" ++ name

end FileTree

/-- All that decides which settings are in force. -/
structure Surroundings where
  /-- The file that the variable names, when it is set. -/
  configPath : Option String := none
  /-- The directory for configuration, when one is set. -/
  configHome : Option String := none
  /-- The home directory. -/
  home : String
  /-- What exists. -/
  tree : FileTree

/-- Why no settings could be loaded. -/
inductive SettingsError where
  /-- The file that the variable names does not exist. -/
  | notFound (path : String)
  /-- There is no file to read, or it holds no text. -/
  | unreadable
  /-- The text does not describe settings. -/
  | malformed
  /-- The settings are not accepted. -/
  | refused (objection : SettingsObjection)
  deriving DecidableEq, Repr

namespace Settings

/-- Accepts settings unless something speaks against them. -/
def accept (s : Settings) : Except SettingsError Settings :=
  match s.objection? with
  | some objection => .error (.refused objection)
  | none => .ok s

/-- Loads the settings of a text. -/
def ofAcceptedText (text : String) : Except SettingsError Settings :=
  match ofText? text with
  | some s => s.accept
  | none => .error .malformed

/-- Loads settings from a file. -/
def ofFile : Option FileEntry → Except SettingsError Settings
  | some (.file content) =>
    match String.fromUTF8? content with
    | some text => ofAcceptedText text
    | none => .error .unreadable
  | _ => .error .unreadable

end Settings

namespace Surroundings

open FileTree (join)

/-- The variable that names a settings file. -/
def configPathVariable : String := "REDFLOW_CONFIG_PATH"

/-- The directory for the program's configuration, in the one that is set when that is absolute,
and otherwise in the home directory. -/
def configDirectory (s : Surroundings) : String :=
  let base := (s.configHome.filter FileTree.isAbsolute).getD (join s.home ".config")
  join base "redflow"

/-- The path of the settings file, if there is one. -/
def settingsFile? (s : Surroundings) : Except SettingsError (Option String) :=
  match s.configPath with
  | some path => if (s.tree.find? path).isSome then .ok (some path) else .error (.notFound path)
  | none =>
    let path := join s.configDirectory "handlers.yaml"
    .ok (if (s.tree.find? path).isSome then some path else none)

/-- The settings in force. -/
def settings (s : Surroundings) : Except SettingsError Settings := do
  match ← s.settingsFile? with
  | some path => Settings.ofFile (s.tree.find? path)
  | none => return {}

end Surroundings

/-- The error in words; only these say more than their kind. -/
def SettingsError.message? : SettingsError → Option String
  | .notFound path =>
    some ("Settings file " ++ path ++ " does not exist (set via "
      ++ Surroundings.configPathVariable ++ ")")
  | .refused objection => some ("Invalid settings: " ++ objection.message)
  | .unreadable | .malformed => none

end Lifecycle
