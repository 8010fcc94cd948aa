import AisScript.Text.Utf8
import AisScript.Text.Classes
import AisScript.Text.Joining
import AisScript.Text.Wide

/-!
# Clusters and widths

A terminal draws a text cluster by cluster: a character with the marks that extend it, a syllable,
a flag, a chain of joined pictographs.  A cluster is as wide as its first character that has a
width at all.

* `Text.clusters`    the clusters of a text; nothing is lost between them
* `Text.width`       the number of cells a text fills
* `Text.truncate`    the beginning that fits a number of cells, with a tail that tells of the cut
-/

namespace AisScript.Text

/-- How a character joins with its neighbours. -/
inductive Joining where
  | other | carriageReturn | lineFeed | control | extend | joiner | spacing | leading | pictograph
  | regional | syllableL | syllableV | syllableT | syllableLV | syllableLVT
  /-- The beginning of a character that the end of the text cuts short. -/
  | cutShort
deriving DecidableEq, Repr

/-- How a code point joins. -/
def joining (code : Nat) : Joining :=
  if code = 0x0D then .carriageReturn
  else if code = 0x0A then .lineFeed
  else if 0x20 ≤ code && code < 0x7F then .other
  else if code = 0x200D then .joiner
  else if 0x1F1E6 ≤ code && code ≤ 0x1F1FF then .regional
  else if 0xAC00 ≤ code && code ≤ 0xD7A3 then
    if (code - 0xAC00) % 28 = 0 then .syllableLV else .syllableLVT
  else if (0x1100 ≤ code && code ≤ 0x115F) || (0xA960 ≤ code && code ≤ 0xA97C) then .syllableL
  else if (0x1160 ≤ code && code ≤ 0x11A7) || (0xD7B0 ≤ code && code ≤ 0xD7C6) then .syllableV
  else if (0x11A8 ≤ code && code ≤ 0x11FF) || (0xD7CB ≤ code && code ≤ 0xD7FB) then .syllableT
  else if inRanges controlRanges code then .control
  else if inRanges extendRanges code then .extend
  else if inRanges spacingRanges code then .spacing
  else if inRanges leadingRanges code then .leading
  else if inRanges pictographRanges code then .pictograph
  else .other

/-- Some bytes that are never divided, and how they join. -/
structure Piece where
  joining : Joining
  bytes : Text
deriving DecidableEq, Repr

/-- The piece that begins with `b`.  A malformed character ends in front of the first byte that
does not continue it; one that the text ends within takes all that is left. -/
def pieceAt (b : UInt8) (rest : Text) : Piece :=
  let n := announced b
  if rest.length < n then ⟨.cutShort, b :: rest⟩
  else
    let tail := (rest.take n).takeWhile isContinuation
    match glyphAt b rest with
    | (.char code, _) => ⟨joining code, b :: tail⟩
    | (.stray _, _) => ⟨.other, b :: tail⟩

/-- A text in pieces. -/
def pieces : Text → List Piece
  | [] => []
  | b :: rest =>
    let p := pieceAt b rest
    p :: pieces (rest.drop (p.bytes.length - 1))
termination_by t => t.length
decreasing_by simp only [List.length_drop, List.length_cons]; omega

/-- What the end of a cluster still remembers. -/
structure Link where
  /-- The last piece. -/
  last : Joining
  /-- The last two pieces that do not merely extend others. -/
  kept : Joining := .other
  keptBefore : Joining := .other
  /-- The number of joins between two regional letters so far. -/
  flags : Nat := 0

namespace Link

/-- The link before the rules look at the next piece. -/
def advance (l : Link) : Link :=
  if l.last = .extend then l else { l with kept := l.last, keptBefore := l.kept }

/-- Whether the next piece belongs to the cluster; `l` has advanced over its last piece. -/
def joins (l : Link) (next : Joining) : Bool :=
  let breaks (j : Joining) : Bool := j = .control || j = .carriageReturn || j = .lineFeed
  if next = .cutShort then true
  else if next = .lineFeed && l.last = .carriageReturn then true
  else if breaks next || breaks l.last then false
  else match l.last, next with
    | .syllableL, .syllableL | .syllableL, .syllableV => true
    | .syllableL, .syllableLV | .syllableL, .syllableLVT => true
    | .syllableLV, .syllableV | .syllableLV, .syllableT => true
    | .syllableV, .syllableV | .syllableV, .syllableT => true
    | .syllableLVT, .syllableT | .syllableT, .syllableT => true
    | _, .extend | _, .joiner | _, .spacing => true
    | .leading, _ => true
    | .joiner, .pictograph => l.keptBefore = .pictograph
    | .regional, .regional => l.flags % 2 = 0
    | _, _ => false

/-- The link after the next piece has joined. -/
def push (l : Link) (next : Joining) : Link :=
  { l with last := next, flags := if l.last = .regional && next = .regional then l.flags + 1 else l.flags }

end Link

/-- Gathers the pieces behind a cluster that has begun. -/
def gather : (cluster : Text) → Link → List Piece → List Text
  | c, _, [] => [c]
  | c, l, p :: ps =>
    let l := l.advance
    if l.joins p.joining then gather (c ++ p.bytes) (l.push p.joining) ps
    else c :: gather p.bytes { last := p.joining } ps

/-- The clusters of a text. -/
def clusters (t : Text) : List Text :=
  match pieces t with
  | [] => []
  | p :: ps => gather p.bytes { last := p.joining } ps

/-- The number of cells that a single code point fills. -/
def codeWidth (code : Nat) : Nat :=
  if code < 0x20 || (0x7F ≤ code && code ≤ 0x9F) || code = 0xAD then 0
  else if code < 0x300 then 1
  else if inRanges invisibleRanges code || inRanges overlaidRanges code then 0
  else if inRanges wideRanges code then 2
  else 1

/-- The number of cells that a cluster fills: the width of its first character that has one. -/
def clusterWidth (c : Text) : Nat :=
  (((glyphs c).map fun g => codeWidth g.code).find? (0 < ·)).getD 0

/-- The number of cells that a text fills. -/
def width (t : Text) : Nat := (clusters t).foldl (fun n c => n + clusterWidth c) 0

/-- The clusters from the left that fit into `room` cells. -/
def fitting : (room : Nat) → List Text → Text
  | _, [] => []
  | room, c :: cs => if room < clusterWidth c then [] else c ++ fitting (room - clusterWidth c) cs

/-- A text of at most `room` cells: the whole text, or a beginning of it followed by `tail`. -/
def truncate (t : Text) (room : Nat) (tail : Text) : Text :=
  if t.width ≤ room then t else fitting (room - tail.width) t.clusters ++ tail

end AisScript.Text
