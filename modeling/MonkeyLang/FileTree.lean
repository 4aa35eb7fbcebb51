import MonkeyLang.Text.Quoted

/-! Files by path. A path is followed name by name from the working directory; every name but the last has to be a
directory's. -/

namespace MonkeyLang

inductive FileFault
  | missing (path : String)
  | directory (path : String)
  | notDirectory (path : String)
  | nameTooLong (path : String)
  | nullCharacter
  | refused (text : String)
deriving DecidableEq

def FileFault.message : FileFault → String
  | missing path => "[Errno 2] No such file or directory: " ++ Text.quote path
  | directory path => "[Errno 21] Is a directory: " ++ Text.quote path
  | notDirectory path => "[Errno 20] Not a directory: " ++ Text.quote path
  | nameTooLong path => "[Errno 36] File name too long: " ++ Text.quote path
  | nullCharacter => "embedded null byte"
  | refused text => text

/-- The content of a file, or a directory. -/
inductive FileEntry
  | file (bytes : List UInt8)
  | directory

/-- What is below the working directory: entries by the names on the way to them. The directories on the way to
an entry are there too. -/
structure FileTree where
  entries : List (List String × FileEntry)

namespace FileTree

def names (path : String) : List String :=
  ((path.splitToList (· = '/')).filter fun name => name ≠ "" && name ≠ ".")

def ofList (files : List (String × FileEntry)) : FileTree := ⟨files.map fun (path, entry) => (names path, entry)⟩

def find? (tree : FileTree) (place : List String) : Option FileEntry :=
  if place = [] then some .directory
  else match tree.entries.lookup place with
    | some entry => some entry
    | none => if tree.entries.any fun (names, _) => place.isPrefixOf names then some .directory else none

/-- Follows names from a place in the tree. What lies above the working directory is not part of the tree. -/
def follow (tree : FileTree) (path : String) (place : List String) : List String → Except FileFault (List UInt8)
  | [] =>
    match tree.find? place with
    | some (.file bytes) => .ok bytes
    | some .directory => .error (.directory path)
    | none => .error (.missing path)
  | name :: rest =>
    match tree.find? place with
    | some (.file _) => .error (.notDirectory path)
    | none => .error (.missing path)
    | some .directory =>
      if 255 < name.utf8ByteSize then .error (.nameTooLong path)
      else if name = ".." then
        if place = [] then .error (.missing path) else tree.follow path place.dropLast rest
      else tree.follow path (place ++ [name]) rest

def read (tree : FileTree) (path : String) : Except FileFault (List UInt8) :=
  if path.toList.contains '\x00' then .error .nullCharacter
  else if 4096 ≤ path.utf8ByteSize then .error (.nameTooLong path)
  else if path.toList.head? = some '/' then .error (.missing path)
  else tree.follow path [] (names path)

end FileTree

end MonkeyLang
