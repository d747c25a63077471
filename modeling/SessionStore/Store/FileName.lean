import SessionStore.Digest.Sha256
import SessionStore.Disk.Path
import SessionStore.Text.Utf8

/-! # File names

Every id has a file of its own. Simple ids name their file themselves, all others are named by their
digest, so that no id leads out of the directory or makes a name too long. From a name alone it can
be told whether it is that of an entry or of an unfinished one.
-/

namespace SessionStore

structure FileStore where
  directory : String
  extension : String
  deriving DecidableEq, Repr

namespace FileStore

/-- Lower-case ASCII letters, digits, hyphens and underscores. -/
def isPlainChar (c : Char) : Bool :=
  ('a' ≤ c && c ≤ 'z') || ('0' ≤ c && c ≤ '9') || c == '-' || c == '_'

/-- The longest id that names its own file, in bytes. -/
def plainLimit : Nat := 200

def isPlain (id : String) : Bool :=
  id != "" && decide (id.utf8ByteSize ≤ plainLimit) && id.toList.all isPlainChar

/-- The name of an id's file without its extension. A tilde begins no plain id. -/
def stem (id : String) : String :=
  if isPlain id then id else "~" ++ String.ofList (Digest.hex (Digest.sha256 (Utf8.encodeText id)))

def fileName (f : FileStore) (id : String) : String := stem id ++ "." ++ f.extension

/-- The path of the file for an id. -/
def pathFor (f : FileStore) (id : String) : String := Path.join f.directory (f.fileName id)

/-- Where contents are written before they take the place of those at `path`. -/
def temporary (path : String) : String := path ++ ".tmp"

/-- A name cut at its last dot, which must not be its first character. -/
def cut? (name : List Char) : Option (List Char × List Char) :=
  if name = ['.', '.'] then none
  else
    match name.reverse.dropWhile (· ≠ '.') with
    | [] | [_] => none
    | _ :: before => some (before.reverse, (name.reverse.takeWhile (· ≠ '.')).reverse)

/-- The name has the extension of entries. -/
def isEntry (f : FileStore) (name : List Char) : Bool :=
  match cut? name with
  | some (_, ext) => ext == f.extension.toList
  | none => false

/-- The name is that of an entry with the ending of unfinished contents. -/
def isTemporary (f : FileStore) (name : List Char) : Bool :=
  match cut? name with
  | some (before, ext) => ext == ['t', 'm', 'p'] && f.isEntry before
  | none => false

/-- The directory and extension that are used if none are given. -/
def standard (temporaryDirectory : String) : FileStore where
  directory := Path.join (Path.join temporaryDirectory "lapse") "sess"
  extension := "sess"

end FileStore

end SessionStore
