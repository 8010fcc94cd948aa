import AisScript.Source.Span
import AisScript.Path
import AisScript.Digest

/-!
# Source files

A source file is a path with its contents.  Line ends are folded when a file is read, and positions
are counted in lines and byte columns from one.  A file set numbers the files of one compilation in
the order in which they were added.

* `Source.foldLineEnds`    a carriage return in front of a newline is dropped
* `Source.hasLongEnds`     whether there is such a carriage return
* `Source.position`        line and column of an offset
* `FileSet.add`, `get?`    numbering files and finding them again
-/

namespace AisScript

namespace Source

/-- Drops every carriage return that stands directly in front of a newline. -/
def foldLineEnds : Text → Text
  | [] => []
  | b :: t => if b = 0x0D ∧ t.head? = some 0x0A then foldLineEnds t else b :: foldLineEnds t

/-- Whether a carriage return stands directly in front of a newline somewhere. -/
def hasLongEnds : Text → Bool
  | [] => false
  | b :: t => (b == 0x0D && t.head? == some 0x0A) || hasLongEnds t

/-- The contents without a leading byte order mark. -/
def dropMark : Text → Text
  | 0xEF :: 0xBB :: 0xBF :: t => t
  | t => t

/-- The offsets of the newlines of a text that begins at `offset`. -/
def newlines : (offset : Nat) → Text → List Nat
  | _, [] => []
  | o, b :: t => if b = 0x0A then o :: newlines (o + 1) t else newlines (o + 1) t

/-- A line and a column, both counted from one.  A column is a 32-bit word, so the one behind the last
offset of a file is zero. -/
structure Position where
  line : Nat
  column : Nat
deriving DecidableEq, Repr

/-- The number of different offsets, and of different columns. -/
def offsetCount : Nat := 0x100000000

/-- Where `x` stands among ascending numbers, or where it would stand, if that is between two places: the
stretch between them is halved until nothing is left of it. -/
def bisect (xs : List Nat) (x low high : Nat) : Nat :=
  if low < high then
    let middle := (low + high) / 2
    if xs.getD middle 0 < x then bisect xs x (middle + 1) high else bisect xs x low middle
  else low
termination_by high - low

/-- The position of an offset among the newlines of its file. -/
def position (breaks : List Nat) (offset : Nat) : Position :=
  let before := bisect breaks offset 0 breaks.length
  let lineStart := if before = 0 then 0 else breaks.getD (before - 1) 0 + 1
  ⟨before + 1, (offset - lineStart + 1) % offsetCount⟩

end Source

/-- What is known about how a file came in. -/
structure FileFlags where
  /-- Added from memory and not from a disk. -/
  isVirtual : Bool := false
  /-- A byte order mark was dropped. -/
  hadMark : Bool := false
  /-- Line ends were folded. -/
  folded : Bool := false
deriving DecidableEq, Repr

/-- The flags as a number: 1, 2 and 4. -/
def FileFlags.toNat (f : FileFlags) : Nat :=
  f.isVirtual.toNat + 2 * f.hadMark.toNat + 4 * f.folded.toNat

/-- A file with a cleaned path. -/
structure SourceFile where
  path : Text
  content : Text
  flags : FileFlags := {}
deriving DecidableEq, Repr

namespace SourceFile

/-- The offsets of the newlines. -/
def newlines (f : SourceFile) : List Nat := Source.newlines 0 f.content

/-- The digest of the contents. -/
def hash (f : SourceFile) : Text := f.content.sha256

/-- Line `n`, counted from one, without its newline; nothing for a line that does not exist. -/
def line (f : SourceFile) (n : Nat) : Text :=
  let breaks := f.newlines
  if n = 0 ∨ breaks.length + 1 < n then []
  else
    let start := if n = 1 then 0 else breaks.getD (n - 2) 0 + 1
    let stop := breaks.getD (n - 1) f.content.length
    f.content.extract start stop

/-- The directory against which the file's own paths are resolved. -/
def dir (cwd : Text) (f : SourceFile) : Text := if f.flags.isVirtual then cwd else Path.dir f.path

/-- A file with the bytes as they are. -/
def raw (path content : Text) (flags : FileFlags := {}) : SourceFile :=
  { path := Path.clean path, content, flags }

/-- A file that exists in memory only; its line ends are folded. -/
def inMemory (path content : Text) : SourceFile :=
  raw path (Source.foldLineEnds content) { isVirtual := true }

/-- A file as it is read from a disk: without byte order mark and with folded line ends. -/
def ofDisk (path bytes : Text) : SourceFile :=
  let unmarked := Source.dropMark bytes
  let content := Source.foldLineEnds unmarked
  raw path content { hadMark := unmarked != bytes, folded := Source.hasLongEnds unmarked }

end SourceFile

/-- The files of one compilation, numbered from zero in the order of adding. -/
structure FileSet where
  files : List SourceFile := []
deriving DecidableEq, Repr

namespace FileSet

/-- Adds a file under a new number, even if its path was seen before. -/
def add (fs : FileSet) (f : SourceFile) : Nat × FileSet :=
  (fs.files.length, ⟨fs.files ++ [f]⟩)

/-- The file with a given number. -/
def get? (fs : FileSet) (id : Nat) : Option SourceFile := fs.files[id]?

/-- The number of the latest file with a given path. -/
def lookup (fs : FileSet) (path : Text) : Option Nat :=
  let p := Path.clean path
  ((List.range fs.files.length).filter fun i => (fs.files[i]?.map (·.path)) == some p).getLast?

/-- Where a span begins and ends, in lines and columns. -/
def resolve? (fs : FileSet) (s : Span) : Option (Source.Position × Source.Position) :=
  (fs.get? s.file).map fun f => (Source.position f.newlines s.start, Source.position f.newlines s.stop)

end FileSet

end AisScript
