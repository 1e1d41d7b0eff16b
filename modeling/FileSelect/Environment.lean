import FileSelect.Path.Basic

/-!
# Environment

The two variables that decide where the configuration is and what `~` means.
-/

namespace FileSelect

structure Environment where
  home : Option Text
  /-- The home directory of the account, for when no other is given. -/
  accountHome : Option Text
  stateDirectory : Option Text

namespace Environment

def stateDirectoryPath (env : Environment) : Text :=
  match env.stateDirectory with
  | some directory => directory
  | none => Path.append (Path.append (env.home.getD "/tmp") ".config") "fileset"

def settingsPath (env : Environment) : Text :=
  Path.append env.stateDirectoryPath "config.toml"

/-- An empty home counts as none given. -/
def expand (env : Environment) (path : Text) : Text :=
  let home := env.home.filter fun h => !h.isEmpty
  Path.expandHome (home.or env.accountHome) path

end Environment

end FileSelect
