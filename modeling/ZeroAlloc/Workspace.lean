import ZeroAlloc.FilePath
set_option autoImplicit false

/-! # Workspaces

The files and directories that the program works on, and the directory in which it runs. A directory
is there if it is listed or if something lies below it, so that no file can lack its directory.
Paths are followed piece by piece as an operating system does it, with the same reasons to fail. -/

namespace ZeroAlloc

/-- The names on the way from the root to a file or directory. -/
abbrev Place := List String

/-- The place that a path leads to from another one, if all its directories are there. -/
def Place.ofParts (p : Place) : List PathPart → Place
  | [] => p
  | .root :: parts => ofParts [] parts
  | .here :: parts => ofParts p parts
  | .above :: parts => ofParts p.dropLast parts
  | .name text :: parts => ofParts (p ++ [text]) parts

/-- Whether a place comes before another one, or is it, where each directory is listed by its
names. -/
def Place.listedBefore : Place → Place → Bool
  | [], _ => true
  | _ :: _, [] => false
  | a :: p, b :: q => if a = b then listedBefore p q else a < b

/-- The absolute path of a place. -/
def Place.text (p : Place) : String :=
  "/" ++ String.intercalate "/" p

/-- What a file holds. -/
inductive FileContent where
  | text (s : String)
  /-- Bytes that are no text. -/
  | binary (bytes : List UInt8)
  deriving DecidableEq

/-- What a file with the given bytes holds. -/
def FileContent.ofBytes (bytes : List UInt8) : FileContent :=
  match String.fromUTF8? ⟨bytes.toArray⟩ with
  | some s => .text s
  | none => .binary bytes

/-- The text that a file holds, if it holds one. -/
def FileContent.text? : FileContent → Option String
  | text s => some s
  | binary _ => none

/-- Why an access to a file fails. -/
inductive FileError where
  | notFound
  | alreadyExists
  | notDirectory
  | isDirectory
  | notText
  | nulInPath
  deriving DecidableEq

/-- The text of the error. -/
def FileError.message : FileError → String
  | notFound => "No such file or directory (os error 2)"
  | alreadyExists => "File exists (os error 17)"
  | notDirectory => "Not a directory (os error 20)"
  | isDirectory => "Is a directory (os error 21)"
  | notText => "stream did not contain valid UTF-8"
  | nulInPath => "file name contained an unexpected NUL byte"

/-- Files and directories by their places. -/
structure Workspace where
  /-- The directory in which the program runs. -/
  current : Place
  files : List (Place × FileContent)
  /-- Directories that are there even if they are empty. -/
  directories : List Place
  deriving DecidableEq

namespace Workspace

/-! ## What is there -/

/-- The content of the file at a place. -/
def content? (w : Workspace) (p : Place) : Option FileContent :=
  w.files.lookup p

/-- Whether a file is at a place. -/
def isFile (w : Workspace) (p : Place) : Bool :=
  (w.content? p).isSome

/-- Whether a directory is at a place. -/
def isDirectory (w : Workspace) (p : Place) : Bool :=
  p.isPrefixOf w.current || w.directories.any p.isPrefixOf ||
    w.files.any fun f => p.isPrefixOf f.1.dropLast

/-- Whether a file or a directory is at a place. -/
def has (w : Workspace) (p : Place) : Bool :=
  w.isFile p || w.isDirectory p

/-! ## Following paths -/

/-- The place that pieces of a path lead to from a place. Only a directory has anything below or
above it, and a piece that names nothing still asks for a directory. -/
def follow (w : Workspace) (p : Place) : List (List Char) → Except FileError Place
  | [] => .ok p
  | piece :: pieces =>
    if !w.isDirectory p then .error .notDirectory
    else
      match FilePath.part? piece with
      | none => w.follow p pieces
      | some .above => w.follow p.dropLast pieces
      | some _ =>
        let next := p ++ [String.ofList piece]
        if w.has next then w.follow next pieces else .error .notFound

/-- The place that pieces of a path lead to. A first piece that is empty stands for the root, unless
it is the only one. -/
def followAll (w : Workspace) : List (List Char) → Except FileError Place
  | [] => .ok w.current
  | [] :: piece :: pieces => w.follow [] (piece :: pieces)
  | pieces => w.follow w.current pieces

/-- The place that a path leads to. The empty path leads nowhere. -/
def resolve (w : Workspace) (path : FilePath) : Except FileError Place :=
  if path.pieces.any (·.contains '\x00') then .error .nulInPath
  else if path.text.isEmpty then .error .notFound
  else w.followAll path.pieces

/-- Whether a path leads anywhere. -/
def pathExists (w : Workspace) (path : FilePath) : Bool :=
  (w.resolve path).isOk

/-- The text of the file that a path leads to. -/
def readText (w : Workspace) (path : FilePath) : Except FileError String := do
  match w.content? (← w.resolve path) with
  | some (.text s) => return s
  | some (.binary _) => throw .notText
  | none => throw .isDirectory

/-! ## Making files and directories -/

/-- Where something new can be made, or what is there instead. -/
inductive Spot where
  | free (p : Place)
  | file (p : Place)
  | directory

/-- The pieces of a path without empty ones at the end, and whether there were any. -/
def trimSlashes (path : FilePath) : List (List Char) × Bool :=
  let pieces := (path.pieces.reverse.dropWhile List.isEmpty).reverse
  (pieces, pieces.length < path.pieces.length)

/-- What is at the place that a path names, whether or not a slash follows its last piece. -/
def spot (w : Workspace) (path : FilePath) : Except FileError Spot := do
  if path.pieces.any (·.contains '\x00') then throw .nulInPath
  if path.text.isEmpty then throw .notFound
  match (trimSlashes path).1.reverse with
  | [] => return .directory
  | last :: before =>
    let parent ← w.followAll (if before == [[]] then [[], []] else before.reverse)
    if !w.isDirectory parent then throw .notDirectory
    match FilePath.part? last with
    | some (.name name) =>
      let p := parent ++ [name]
      if w.isFile p then return .file p
      else if w.isDirectory p then return .directory
      else return .free p
    | _ => return .directory

/-- The workspace in which the file at a place has a content. -/
def put (w : Workspace) (p : Place) (content : FileContent) : Workspace :=
  if w.isFile p then
    { w with files := w.files.map fun f => if f.1 = p then (p, content) else f }
  else { w with files := w.files ++ [(p, content)] }

/-- Write a text to the file that a path names. -/
def writeText (w : Workspace) (path : FilePath) (text : String) : Except FileError Workspace := do
  match ← w.spot path, (trimSlashes path).2 with
  | .directory, _ => throw .isDirectory
  | _, true => throw .isDirectory
  | .file p, false => return w.put p (.text text)
  | .free p, false => return w.put p (.text text)

/-- Make the directory that a path names. -/
def makeDirectory (w : Workspace) (path : FilePath) : Except FileError Workspace := do
  match ← w.spot path with
  | .free p => return { w with directories := p :: w.directories }
  | _ => throw .alreadyExists

/-- Whether a path leads to a directory. -/
def leadsToDirectory (w : Workspace) (path : FilePath) : Bool :=
  match w.resolve path with
  | .ok p => w.isDirectory p
  | .error _ => false

/-- Make the directory that a path names if it is not there. -/
def ensureDirectory (w : Workspace) (path : FilePath) : Except FileError Workspace :=
  match w.makeDirectory path with
  | .ok w => .ok w
  | .error e => if w.leadsToDirectory path then .ok w else .error e

/-- Make the directories that the components of a path, last first, lead through, where they are not
there. -/
def ensureDirectories (w : Workspace) : List PathPart → Except FileError Workspace
  | [] => .ok w
  | last :: before =>
    let path := FilePath.ofParts (last :: before).reverse
    match w.ensureDirectory path with
    | .error .notFound => do (← w.ensureDirectories before).ensureDirectory path
    | made => made

/-! ## Changes -/

/-- The files that are new or hold something else than in an earlier workspace, by their places. -/
def changesSince (w earlier : Workspace) : List (Place × FileContent) :=
  (w.files.filter fun f => earlier.content? f.1 ≠ some f.2).mergeSort fun f g =>
    f.1.listedBefore g.1

end Workspace

end ZeroAlloc
