import AisScript.Source.File

/-!
# Disks

A disk is a value: the folders and files below the root, and the working directory that relative
paths start from.  Reading leaves it as it is and writing gives a new one, so a whole build is a
function from disks to disks.

* `Disk.stat`, `Disk.read`                 what stands at a path
* `Disk.write`, `makeFolders`, `remove`    changing it
* `Disk.below`                             everything below a folder, in order
-/

namespace AisScript

/-- What stands at a place of a disk. -/
inductive DiskEntry where
  | folder
  | file (bytes : Text)
deriving DecidableEq, Repr, Inhabited

/-- Why a disk refuses something. -/
inductive DiskCause where
  | notFound | notFolder | isFolder | present | invalid | nameTooLong
deriving DecidableEq, Repr

/-- The words of a cause. -/
def DiskCause.words : DiskCause → Text
  | .notFound => "no such file or directory"
  | .notFolder => "not a directory"
  | .isFolder => "is a directory"
  | .present => "file exists"
  | .invalid => "invalid argument"
  | .nameTooLong => "file name too long"

/-- What was tried at which path, and why it failed. -/
structure DiskError where
  action : Text
  path : Text
  cause : DiskCause
deriving DecidableEq, Repr

/-- The words of an error. -/
def DiskError.message (e : DiskError) : Text := e.action ++ " " ++ e.path ++ ": " ++ e.cause.words

/-- Folders and files. -/
structure Disk where
  /-- The working directory. -/
  cwd : Text
  entries : List (List Text × DiskEntry)
deriving DecidableEq, Repr, Inhabited

namespace Disk

/-- The entry at a place. -/
def entry? (d : Disk) (place : List Text) : Option DiskEntry := d.entries.lookup place

/-- Puts an entry at a place. -/
def put (d : Disk) (place : List Text) (e : DiskEntry) : Disk :=
  { d with entries := (place, e) :: d.entries.filter (·.1 != place) }

/-- A disk with nothing but the working directory and the folders above it. -/
def empty (cwd : Text) : Disk :=
  let cs := Path.cleanComponents cwd
  { cwd, entries := (List.range (cs.length + 1)).map fun n => (cs.take n, .folder) }

/-- Follows components from a place.  Everything passed through has to be a folder; the last place
need not exist. -/
def follow (d : Disk) : (place : List Text) → List Text → Except DiskCause (List Text)
  | place, [] => .ok place
  | place, c :: cs =>
    match d.entry? place with
    | none => .error .notFound
    | some (.file _) => .error .notFolder
    | some .folder =>
      if c = Path.up then d.follow place.dropLast cs
      else if 255 < c.length then .error .nameTooLong
      else d.follow (place ++ [c]) cs

/-- The place a path leads to. -/
def locate (d : Disk) (p : Text) : Except DiskCause (List Text) :=
  if p.isEmpty then .error .notFound
  else if p.contains 0 then .error .invalid
  else if 4096 ≤ p.length then .error .nameTooLong
  else d.follow (if Path.isAbsolute p then [] else Path.cleanComponents d.cwd) (Path.components p)

/-- Whether a path can only name a folder: it ends in a separator or in a dot. -/
def namesFolder (p : Text) : Bool :=
  match (p.split Path.slash).getLast? with
  | some c => c.isEmpty || c = (".": Text)
  | none => false

/-- What stands at a path. -/
def find (d : Disk) (p : Text) : Except DiskCause DiskEntry := do
  let place ← d.locate p
  match d.entry? place with
  | none => .error .notFound
  | some (.file bytes) => if namesFolder p then .error .notFolder else .ok (.file bytes)
  | some .folder => .ok .folder

/-- Names what was tried. -/
def failing {α : Type} (action path : Text) : Except DiskCause α → Except DiskError α
  | .ok a => .ok a
  | .error cause => .error { action, path, cause }

/-- What stands at a path, or why nothing can be said about it. -/
def stat (d : Disk) (p : Text) : Except DiskError DiskEntry := failing "stat" p (d.find p)

/-- The bytes of a file. -/
def read (d : Disk) (p : Text) : Except DiskError Text :=
  match d.find p with
  | .ok (.file bytes) => .ok bytes
  | .ok .folder => .error { action := "read", path := p, cause := .isFolder }
  | .error cause => .error { action := "open", path := p, cause }

/-- Writes a file into a folder that exists. -/
def write (d : Disk) (p bytes : Text) : Except DiskError Disk :=
  failing "open" p do
    let place ← d.locate p
    match d.entry? place with
    | some .folder => .error .isFolder
    | some (.file _) => if namesFolder p then .error .notFolder else .ok (d.put place (.file bytes))
    | none =>
      if namesFolder p then .error .isFolder
      else if d.entry? place.dropLast = some .folder then .ok (d.put place (.file bytes))
      else .error .notFound

/-- Makes one folder in a folder that exists. -/
def makeFolder (d : Disk) (p : Text) : Except DiskCause Disk := do
  let place ← d.locate p
  if (d.entry? place).isSome then .error .present
  else if d.entry? place.dropLast = some .folder then .ok (d.put place .folder)
  else .error .notFound

/-- The path with its last component and the separator in front of that cut off. -/
def parentPath (p : Text) : Text :=
  let trimmed := (p.reverse.dropWhile (· = Path.slash)).reverse
  (Path.splitLast trimmed).1.dropLast

/-- Makes a folder and the missing ones above it.  `fuel` bounds the number of components. -/
def makeFoldersWithin (fuel : Nat) (d : Disk) (p : Text) : Except DiskError Disk :=
  match fuel with
  | 0 => .ok d
  | fuel + 1 =>
    match d.find p with
    | .ok .folder => .ok d
    | .ok (.file _) => .error { action := "mkdir", path := p, cause := .notFolder }
    | .error _ => do
      let parent := parentPath p
      let d ← if parent.isEmpty then .ok d else makeFoldersWithin fuel d parent
      match d.makeFolder p with
      | .ok d => .ok d
      | .error cause =>
        match d.find p with
        | .ok .folder => .ok d
        | _ => .error { action := "mkdir", path := p, cause }

/-- Makes a folder and the missing ones above it. -/
def makeFolders (d : Disk) (p : Text) : Except DiskError Disk := makeFoldersWithin (p.length + 1) d p

/-- Whether the last component of a path is a single dot. -/
def endsInDot (p : Text) : Bool := (Path.splitLast p).2 = (".": Text)

/-- The directory a path is in and its last component, trailing separators aside.  A path of one
component is in the directory `.`. -/
def splitEntry (p : Text) : Text × Text :=
  let trimmed := (p.reverse.dropWhile (· = Path.slash)).reverse
  let (above, name) := Path.splitLast trimmed
  (if above.isEmpty then "." else if above = [Path.slash] then above else above.dropLast, name)

/-- Removes what stands at a path, with everything below it.  What does not exist need not be
removed; a directory cannot be removed under the name of a dot. -/
def remove (d : Disk) (p : Text) : Except DiskError Disk :=
  if p.isEmpty then .ok d
  else if endsInDot p then .error { action := "RemoveAll", path := p, cause := .invalid }
  else match d.locate p with
    | .ok place => .ok { d with entries := d.entries.filter fun (q, _) => !place.isPrefixOf q }
    | .error .notFound => .ok d
    | .error cause =>
      let (above, name) := splitEntry p
      match d.find above with
      | .ok _ => .error { action := "unlinkat", path := above ++ [Path.slash] ++ name, cause }
      | .error .notFound => .ok d
      | .error cause => .error { action := "open", path := above, cause }

/-- The order of places: a folder in front of what is in it, and beside each other by name. -/
def placeLe : List Text → List Text → Bool
  | [], _ => true
  | _ :: _, [] => false
  | a :: as, b :: bs => if a = b then placeLe as bs else Text.le a b

/-- Everything below a place, in order, with the way from there. -/
def below (d : Disk) (place : List Text) : List (List Text × DiskEntry) :=
  let inside := d.entries.filterMap fun (q, e) =>
    if place.isPrefixOf q && q ≠ place then some (q.drop place.length, e) else none
  inside.mergeSort fun a b => placeLe a.1 b.1

/-- The files below a path in order, each with the path joined to the way. -/
def filesBelow (d : Disk) (p : Text) : List (Text × Text) :=
  match d.locate p with
  | .error _ => []
  | .ok place => (d.below place).filterMap fun (way, e) =>
    match e with
    | .file bytes => some (Path.join p (Text.join [Path.slash] way), bytes)
    | .folder => none

end Disk

/-- Reads a script from a disk. -/
def Disk.load (d : Disk) (p : Text) : Except DiskError SourceFile := do
  return .ofDisk p (← d.read p)

end AisScript
