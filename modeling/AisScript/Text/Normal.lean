import AisScript.Text.Utf8
import AisScript.Text.Combining
import AisScript.Text.Decomposition
import AisScript.Text.MarkCount

/-!
# Canonical composition

Names that look alike must be the same name, so names and string literals are brought into
composed canonical form.  What is in that form already stays as it is.  Everything else is taken
segment by segment, a segment being a character with the marks behind it: it is decomposed, its
marks are put into canonical order, and what can be composed is composed again.  A segment has at
most thirty marks; where there are more, a grapheme joiner divides them.  Bytes that spell no
character combine with nothing, and a character that the end of the text cuts short is left alone.

* `Text.Character`    a character with all that composition has to know about it
* `Text.characters`   the characters of a text
* `Text.compose`      the composed canonical form of a text
-/

namespace AisScript.Text

/-- The entry of a table sorted by key, found by halving. -/
def search {α : Type} (table : Array α) (key : α → Nat) (code : Nat) : Option α :=
  go (table.size + 1) 0 table.size
where
  /-- Looks between `low` and `high`; every step halves the gap, so the size of the table is
  more than enough steps. -/
  go : Nat → Nat → Nat → Option α
    | 0, _, _ => none
    | steps + 1, low, high =>
      if low < high then
        let mid := (low + high) / 2
        match table[mid]? with
        | none => none
        | some entry =>
          if key entry = code then some entry
          else if key entry < code then go steps (mid + 1) high
          else go steps low mid
      else none

/-! ## What is known about a character -/

/-- The canonical combining class of a code point. -/
def combiningClass (code : Nat) : Nat :=
  if code < 0x300 then 0
  else match combiningRanges.find? fun (first, last, _) => first ≤ code && code ≤ last with
    | some (_, _, cc) => cc
    | none => 0

/-- A Hangul syllable. -/
def isSyllable (code : Nat) : Bool := 0xAC00 ≤ code && code < 0xD7A4

/-- The letters of a Hangul syllable: consonant, vowel and perhaps a final consonant. -/
def syllableParts (code : Nat) : List Nat :=
  let s := code - 0xAC00
  [0x1100 + s / 588, 0x1161 + s % 588 / 28] ++ if s % 28 = 0 then [] else [0x11A7 + s % 28]

/-- One step of canonical decomposition of a character that is no Hangul syllable. -/
def decomposeOnce (code : Nat) : Option (List Nat) :=
  if code < 0xC0 then none
  else match search composites (·.1) code with
    | some (_, a, b) => some [a, b]
    | none => match search splitOnly (·.1) code with
      | some (_, a, b) => some [a, b]
      | none => (search renamed (·.1) code).map fun (_, a) => [a]

/-- The full canonical decomposition; no chain of decompositions is longer than `depth`. -/
def decomposeFully : (depth : Nat) → Nat → List Nat
  | 0, code => [code]
  | depth + 1, code =>
    match decomposeOnce code with
    | none => [code]
    | some parts => parts.flatMap (decomposeFully depth)

/-- The characters that are the second part of a composite, other than the letters of Hangul. -/
def secondParts : List Nat := (composites.toList.map fun (_, _, b) => b).eraseDups

/-- Whether a character may be composed with one before it. -/
def joinsBack (code : Nat) : Bool :=
  0x300 ≤ code && ((0x1161 ≤ code && code < 0x1176) || (0x11A8 ≤ code && code < 0x11C3)
    || secondParts.contains code)

/-- The composition of two characters.  Only the low sixteen bits of the two are looked at, so a
character beyond the first plane is composed as its counterpart there would be. -/
def composePair (a b : Nat) : Option Nat :=
  let low (n : Nat) : Nat := n % 0x10000
  (composites.find? fun (_, x, y) => low x = low a && low y = low b).map (·.1)

/-- A character as composition sees it. -/
structure Character where
  /-- How it is spelled. -/
  bytes : Text
  /-- Its code point; bytes that spell no character count as the replacement character. -/
  code : Nat := replacement
  /-- The combining class of its first part. -/
  first : Nat := 0
  /-- The combining class of its last part. -/
  last : Nat := 0
  /-- The number of marks it begins with; if there are any, it has no other parts. -/
  opening : Nat := 0
  /-- The number of marks it ends with. -/
  closing : Nat := 0
  /-- Whether it stands for itself in composed form, whatever is around it. -/
  settled : Bool := true
  /-- Whether it may be composed with a character before it. -/
  joins : Bool := false
  /-- Its full decomposition, if it is not its own. -/
  parts : List Nat := []
deriving DecidableEq, Repr

/-- The number of marks that a character other than a Hangul syllable ends with. -/
def closingMarks (code : Nat) : Nat :=
  match closingMarkRanges.find? fun (first, last, _) => first ≤ code && code ≤ last with
  | some (_, _, n) => n
  | none => 0

namespace Character

/-- The character of a code point. -/
def ofCode (code : Nat) : Character :=
  let bytes := encode code
  if code < 0xA0 then { bytes, code }
  else if isSyllable code then
    { bytes, code, closing := if (code - 0xAC00) % 28 = 0 then 1 else 2, parts := syllableParts code }
  else match decomposeOnce code with
    | some parts =>
      let parts := parts.flatMap (decomposeFully 3)
      let closing := closingMarks code
      let first := ((parts.head?.map combiningClass).getD 0)
      { bytes, code, first, closing, parts
        last := (parts.getLast?.map combiningClass).getD 0
        opening := if first = 0 then 0 else closing
        settled := (search composites (·.1) code).isSome }
    | none =>
      let cc := combiningClass code
      let joins := joinsBack code
      if cc = 0 && !joins then
        let closing := closingMarks code
        let marksOnly := openingMarkRanges.any fun (first, last) => first ≤ code && code ≤ last
        { bytes, code, closing, opening := if marksOnly then closing else 0 }
      else { bytes, code, first := cc, last := cc, opening := 1, closing := 1, joins, settled := !joins }

/-- Whether nothing before the character matters to it. -/
def begins (l : Character) : Bool := l.first = 0 && !l.joins

/-- A letter of Hangul, or another character of their block. -/
def isHangul (l : Character) : Bool := l.code / 0x100 = 0x11

/-- A character that came about by composition or by taking a syllable apart: it combines as a
character without class. -/
def plain (code : Nat) : Character := { bytes := encode code, code }

/-- A single byte below 0x80. -/
def isAscii (l : Character) : Bool := l.bytes.all (· < 0x80)

end Character

/-- The grapheme joiner, which divides marks and is none itself. -/
def joiner : Character := Character.plain 0x34F

/-! ## The characters of a text -/

/-- The character that begins with `b`, unless the end of the text cuts it short.  Bytes that spell no
character end in front of the first one that does not continue them. -/
def characterAt? (b : UInt8) (rest : Text) : Option Character :=
  let n := announced b
  if rest.length < n then none
  else match glyphAt b rest with
    | (.char code, _) => some (Character.ofCode code)
    | (.stray _, _) => some { bytes := b :: (rest.take n).takeWhile isContinuation }

/-- The characters of a text, and the bytes at its end that are cut short. -/
def characters : Text → List Character × Text
  | [] => ([], [])
  | b :: rest =>
    match characterAt? b rest with
    | none => ([], b :: rest)
    | some l =>
      let (ls, cut) := characters (rest.drop (l.bytes.length - 1))
      (l :: ls, cut)
termination_by t => t.length
decreasing_by simp only [List.length_drop, List.length_cons]; omega

/-! ## Segments -/

/-- The largest number of marks in one segment. -/
def longestRun : Nat := 30

/-- The number of characters at the beginning that are in composed form for certain.  `run` is the
number of marks since the last character that is no mark, `last` the class of the last of them, and
`open_` the number of characters since the last place where the text could be cut. -/
def settledWithin (run last open_ : Nat) : List Character → Nat
  | [] => open_
  | l :: ls =>
    if l.isAscii then open_ + settledWithin 0 0 1 ls
    else if longestRun < run + l.opening then 0
    else if l.opening = 0 then
      if l.settled then open_ + settledWithin l.closing l.last 1 ls else open_
    else if l.first < last || !l.settled then 0
    else settledWithin (run + l.opening) l.last (open_ + 1) ls

/-- The number of characters at the beginning that are in composed form for certain. -/
def settledCount (ls : List Character) : Nat := settledWithin 0 0 0 ls

/-- The number of marks that belong to a segment with `run` of them so far, and whether it has to be
divided behind them. -/
def following (run : Nat) : List Character → Nat × Bool
  | [] => (0, false)
  | l :: ls =>
    if l.opening = 0 then (0, false)
    else if longestRun < run + l.opening then (0, true)
    else
      let (n, divided) := following (run + l.opening) ls
      (n + 1, divided)

/-- Puts a character into a segment, behind every character of its own or a lower class. -/
def insertCharacter (segment : List Character) (l : Character) : List Character :=
  if l.first = 0 then segment ++ [l]
  else
    let higher := (segment.reverse.takeWhile fun m => l.first < m.first).reverse
    segment.take (segment.length - higher.length) ++ l :: higher

/-! ## Composing a segment -/

/-- A segment while it is composed from left to right. -/
structure Folding where
  /-- Letters that are finished. -/
  done : List Character := []
  /-- The character that the next ones may be composed with. -/
  base : Character
  /-- The characters behind it. -/
  held : List Character := []

namespace Folding

/-- All characters in order. -/
def toList (f : Folding) : List Character := f.done ++ f.base :: f.held

/-- The class of the last character. -/
def lastClass (f : Folding) : Nat := (f.held.getLast?.getD f.base).first

/-- Makes the last character the base if it has no class. -/
def rebase (f : Folding) : Folding :=
  match f.held.getLast? with
  | some l => if l.first = 0 then ⟨f.done ++ f.base :: f.held.dropLast, l, []⟩ else f
  | none => f

/-- Whether the characters behind the base keep a character from it. -/
def blocks (f : Folding) (l : Character) : Bool := !f.held.isEmpty && l.first ≤ f.lastClass

/-- Adds a character behind the others. -/
def push (f : Folding) (l : Character) : Folding := { f with held := f.held ++ [l] }

/-- Adds a character, or composes it with the base if `pair` has a composition for the two. -/
def meet (pair : Nat → Nat → Option Nat) (f : Folding) (l : Character) : Folding :=
  let f := f.rebase
  if f.blocks l then f.push l
  else match pair f.base.code l.code with
    | some c => { f with base := Character.plain c }
    | none => f.push l

end Folding

/-- The composition of letters of Hangul. -/
def composeHangul (a b : Nat) : Option Nat :=
  if 0x1100 ≤ a && a < 0x1113 && 0x1161 ≤ b && b < 0x1176 then
    some (0xAC00 + ((a - 0x1100) * 21 + (b - 0x1161)) * 28)
  else if isSyllable a && (a - 0xAC00) % 28 = 0 && 0x11A7 < b && b < 0x11C3 then some (a + (b - 0x11A7))
  else none

/-- Composes the rest of a segment.  From the first letter of Hangul on, only Hangul is composed; a
character that does not join leaves the base as it is. -/
def foldCharacters : Folding → List Character → Folding
  | f, [] => f
  | f, l :: ls =>
    if l.isHangul then (l :: ls).foldl (Folding.meet composeHangul) f
    else foldCharacters (if l.joins then f.meet composePair l else f.push l) ls

/-- The text of a segment, composed. -/
def closeSegment : List Character → Text
  | [] => []
  | l :: ls => (foldCharacters { base := l } ls).toList.flatMap Character.bytes

/-- Adds the decomposition of a character to a segment.  A part that nothing before it matters to ends
the segment; the text of what has ended comes first. -/
def addCharacter (written : Text × List Character) (l : Character) : Text × List Character :=
  if isSyllable l.code then (written.1, written.2 ++ l.parts.map Character.plain)
  else if l.parts.isEmpty then (written.1, insertCharacter written.2 l)
  else l.parts.foldl (fun (text, segment) c =>
    let part := Character.ofCode c
    if part.begins && !segment.isEmpty then (text ++ closeSegment segment, [part])
    else (text, insertCharacter segment part)) written

/-- The text of a segment given by its characters. -/
def composeSegment (ls : List Character) (divided : Bool) : Text :=
  let (text, segment) := ls.foldl addCharacter ([], [])
  text ++ closeSegment (if divided then insertCharacter segment joiner else segment)

/-- The composed form of characters. -/
def composeCharacters (ls : List Character) : Text :=
  let n := settledCount ls
  (ls.take n).flatMap Character.bytes ++
    match _h : ls.drop n with
    | [] => []
    | l :: rest =>
      let (more, divided) := following (if l.opening = 0 then l.closing else l.opening) rest
      composeSegment (l :: rest.take more) divided ++ composeCharacters (rest.drop more)
termination_by ls.length
decreasing_by
  have := congrArg List.length _h
  simp only [List.length_drop, List.length_cons] at this ⊢
  omega

/-- The composed canonical form of a text. -/
def compose (t : Text) : Text :=
  if t.all (· < 0x80) then t
  else
    let (ls, cut) := characters t
    composeCharacters ls ++ cut

end AisScript.Text
