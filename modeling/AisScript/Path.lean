import AisScript.Text

/-!
# Paths

Slash-separated paths as texts.  All operations work on the components of a path and never look at
a disk.

* `Path.clean`   the shortest path that means the same
* `Path.join`    one path below another
* `Path.rel?`    how to get from one directory to another path
-/

namespace AisScript.Path

/-- The separator of components. -/
def slash : UInt8 := 0x2F

/-- A path that begins at the root. -/
def isAbsolute (p : Text) : Bool := p.head? == some slash

/-- The components of a path that say something: empty ones and single dots are dropped. -/
def components (p : Text) : List Text :=
  (p.split slash).filter fun c => !c.isEmpty && c != (".": Text)

/-- The component that leads one directory up. -/
def up : Text := ".."

/-- Resolves every `..` that has a component in front of it.  `done` is what stands in front, last
component first; at the root there is nothing above, elsewhere a leading `..` stays. -/
def resolve (rooted : Bool) : (done : List Text) → List Text → List Text
  | done, [] => done.reverse
  | done, c :: cs =>
    if c = up then
      match done with
      | d :: ds => if d = up then resolve rooted (up :: done) cs else resolve rooted ds cs
      | [] => if rooted then resolve rooted [] cs else resolve rooted [up] cs
    else resolve rooted (c :: done) cs

/-- The components of the cleaned path. -/
def cleanComponents (p : Text) : List Text := resolve (isAbsolute p) [] (components p)

/-- A path from its components. -/
def ofComponents (rooted : Bool) (cs : List Text) : Text :=
  if rooted then slash :: Text.join [slash] cs
  else if cs.isEmpty then "." else Text.join [slash] cs

/-- The shortest path that means the same; the empty path means the current directory. -/
def clean (p : Text) : Text := ofComponents (isAbsolute p) (cleanComponents p)

/-- One path below another, cleaned; empty parts are left out. -/
def join (p q : Text) : Text :=
  match p, q with
  | [], [] => []
  | [], q => clean q
  | p, [] => clean p
  | p, q => clean (p ++ [slash] ++ q)

/-- A path made absolute by the working directory. -/
def absolute (cwd p : Text) : Text := if isAbsolute p then clean p else join cwd p

/-- The bytes behind the last separator, and those up to and including it. -/
def splitLast (p : Text) : Text × Text :=
  let name := (p.reverse.takeWhile (· ≠ slash)).reverse
  (p.take (p.length - name.length), name)

/-- The directory of a path, cleaned. -/
def dir (p : Text) : Text := clean (splitLast p).1

/-- The last component of a path, trailing separators aside. -/
def base (p : Text) : Text :=
  if p.isEmpty then "."
  else
    let trimmed := (p.reverse.dropWhile (· = slash)).reverse
    if trimmed.isEmpty then [slash] else (splitLast trimmed).2

/-- The last component's text from its last dot on, or nothing. -/
def ext (p : Text) : Text :=
  let name := (splitLast p).2
  let tail := (name.reverse.takeWhile (· ≠ 0x2E)).reverse
  if tail.length < name.length then name.drop (name.length - tail.length - 1) else []

/-- Drops the common beginning of two lists of components. -/
def dropCommon : List Text → List Text → List Text × List Text
  | b :: bs, t :: ts => if b = t then dropCommon bs ts else (b :: bs, t :: ts)
  | bs, ts => (bs, ts)

/-- The path that leads from the directory `from_` to `to_`.  There is none between an absolute
and a relative path, and none out of a directory above an unknown one. -/
def rel? (from_ to_ : Text) : Option Text :=
  let base := clean from_
  let target := clean to_
  if base = target then some "."
  else if isAbsolute base != isAbsolute target then none
  else
    let targetParts := if target = (".": Text) then [target] else cleanComponents to_
    let (ups, downs) := dropCommon (cleanComponents from_) targetParts
    if ups.head? = some up then none
    else some (Text.join [slash] (ups.map (fun _ => up) ++ downs))

end AisScript.Path
