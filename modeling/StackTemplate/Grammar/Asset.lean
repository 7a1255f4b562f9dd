import StackTemplate.Grammar.Error

/-!
Grammar assets in a directory.
-/

namespace StackTemplate

inductive FileEntry where
  | file (bytes : ByteArray)
  | directory

structure AssetDirectory where
  path : String
  entries : List (String × FileEntry)

namespace AssetDirectory

def assetName (format : Format) : String :=
  s!"tree-sitter-{format.name}.wasm"

/-- A name below a directory; the empty path is the directory itself. -/
def join (directory name : String) : String :=
  if directory.isEmpty || directory.endsWith "/" then directory ++ name
  else directory ++ "/" ++ name

def assetPath (directory : AssetDirectory) (format : Format) : String :=
  join directory.path (assetName format)

/-- An asset without bytes cannot be one. -/
def load (directory : AssetDirectory) (format : Format) : Except LoadError ByteArray :=
  match directory.entries.lookup (assetName format) with
  | none => .error (.ofFileFault .absent "No such file or directory (os error 2)")
  | some .directory => .error (.ofFileFault .other "Is a directory (os error 21)")
  | some (.file bytes) =>
    if bytes.isEmpty then .error (.unreadable s!"{directory.assetPath format} is empty")
    else .ok bytes

end AssetDirectory

end StackTemplate
