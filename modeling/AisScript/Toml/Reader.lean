import AisScript.Toml.Literal
import AisScript.Toml.Document

/-!
# Reading TOML files

A TOML file is a sequence of lines: headers that name a table, and keys with their values.  Blank
lines and comments say nothing.  The document is filled while the file is read, so of several things
that are wrong the first one counts.

* `Toml.key?`                the key at the beginning of a text
* `Document.readValue`       the value of a key
* `Toml.document`            the document of a file
-/

namespace AisScript.Toml

/-- The text behind the blanks at its beginning. -/
def skipSpace (t : Text) : Text := t.dropWhile isSpace

/-- The text behind all blanks, newlines and comments at its beginning.  A comment ends in front of
what is unreadable. -/
def skipFiller (inComment : Bool) : Text → Text
  | [] => []
  | b :: t =>
    if b = unreadable then b :: t
    else if inComment then skipFiller (!isNewline b) t
    else if isSpace b || isNewline b then skipFiller false t
    else if b = 0x23 then skipFiller true t
    else b :: t

/-- One name of a key. -/
def name? : Text → Option (Text × Text)
  | 0x22 :: t => do
    let (s, r) ← closing? 0x22 true t
    return (← unescape? s, r)
  | 0x27 :: t => closing? 0x27 false t
  | t =>
    let name := t.takeWhile isBare
    if name.isEmpty then none else some (name, t.drop name.length)

/-- The names of a key with dots between them; blanks around them are passed over.  `fuel` bounds
the number of names. -/
def keyWithin? (fuel : Nat) (t : Text) : Option (Key × Text) := do
  match fuel with
  | 0 => none
  | fuel + 1 =>
    let (n, r) ← name? (skipSpace t)
    match skipSpace r with
    | 0x2E :: r => do
      let (ns, r) ← keyWithin? fuel r
      return (n :: ns, r)
    | r => return ([n], r)

/-- The key at the beginning of a text, and what is behind it and the blanks that follow. -/
def key? (t : Text) : Option (Key × Text) := keyWithin? (t.length + 1) t

namespace Document

mutual

/-- Reads the value at the beginning of a text, for a name in a table.  Tables in braces are entered
into the document on the way; `inList` says that the value is an element of the list at that name.
`fuel` bounds how many values and brackets there are. -/
def readValue (fuel : Nat) (d : Document) (table : Key) (name : Text) (inList : Bool) (t : Text) :
    Except Failure (Document × Value × Text) :=
  match fuel with
  | 0 => .error .malformed
  | fuel + 1 =>
    match t with
    | 0x22 :: t => do
      let (s, r) ← basic t
      return (d, .text s, r)
    | 0x27 :: t => do
      let (s, r) ← raw t
      return (d, .text s, r)
    | 0x5B :: t => do
      let (d, vs, r) ← readElements fuel (d.noteList (noteKey table name) true) table name t
      return (d, .list vs, r)
    | 0x7B :: t => do
      let inner := table ++ [name]
      let d := d.imply inner
      let d ← orMalformed (if inList then d.enterNext? inner else d.enter? inner)
      match skipSpace t with
      | 0x7D :: r => return (d, .table [], r)
      | t => do
        let (d, own, r) ← readMembers fuel d inner [] t
        return (d, .table own, r)
    | t => do
      let (v, r) ← orMalformed (word? t)
      return (d, v, r)

/-- Reads the elements of a list up to its closing bracket, with commas between them and perhaps one
behind the last. -/
def readElements (fuel : Nat) (d : Document) (table : Key) (name : Text) (t : Text) :
    Except Failure (Document × List Value × Text) :=
  match fuel with
  | 0 => .error .malformed
  | fuel + 1 =>
    match skipFiller false t with
    | 0x5D :: r => return (d, [], r)
    | t => do
      let (d, v, r) ← readValue fuel d table name true t
      match skipFiller false r with
      | 0x5D :: r => return (d, [v], r)
      | 0x2C :: r => do
        let (d, vs, r) ← readElements fuel d table name r
        return (d, v :: vs, r)
      | _ => .error .malformed

/-- Reads a key with its value and sets it in a table.  `own` is the table as its braces have given
it so far; a key that leads through a list there loses the reader its place. -/
def readPair (fuel : Nat) (d : Document) (table : Key) (own : Table) (t : Text) :
    Except Failure (Document × Table × Text) :=
  match fuel with
  | 0 => .error .malformed
  | fuel + 1 => do
    let (k, r) ← orMalformed (key? t)
    let r ← orMalformed (behind? 0x3D r)
    let name := k.getLast?.getD []
    let inner := table ++ k.dropLast
    let d ← orMalformed (d.enterAll? table k.dropLast)
    let d := { d with keys := d.keys ++ [inner ++ [name]] }
    let (d, v, r) ← readValue fuel d inner name false (skipSpace r)
    let d ← orMalformed (d.set? inner name v)
    let isList := match v with
      | .list _ => true
      | _ => false
    match own.alter (fun t => some (t.set name v)) k.dropLast with
    | none => .error .lost
    | some own => return (d.noteList (noteKey inner name) isList, own, r)

/-- Reads the members of a table in braces up to the closing one, at least one of them. -/
def readMembers (fuel : Nat) (d : Document) (table : Key) (own : Table) (t : Text) :
    Except Failure (Document × Table × Text) :=
  match fuel with
  | 0 => .error .malformed
  | fuel + 1 => do
    let (d, own, r) ← readPair fuel d table own t
    match skipSpace r with
    | 0x7D :: r => return (d, own, r)
    | 0x2C :: r => readMembers fuel d table own r
    | _ => .error .malformed

end

/-- Reads the line at the beginning of a text.  The result has the table that the keys behind it
belong to. -/
def readLine (d : Document) (table : Key) (t : Text) : Except Failure (Document × Key × Text) :=
  match t with
  | 0x5B :: 0x5B :: t => do
    let (k, r) ← orMalformed (key? t)
    let r ← orMalformed ((behind? 0x5D r).bind (behind? 0x5D))
    let d ← orMalformed (d.enterNext? k)
    return ({ d.noteList k false with keys := d.keys ++ [k] }, k, r)
  | 0x5B :: t => do
    let (k, r) ← orMalformed (key? t)
    let r ← orMalformed (behind? 0x5D r)
    let d ← orMalformed (d.enter? k)
    return ({ d.noteList k false with keys := d.keys ++ [k] }, k, r)
  | t => do
    let (d, _, r) ← d.readPair (2 * t.length + 2) table [] t
    return (d, table, r)

/-- Whether a line may end here: only blanks and a comment are left of it. -/
def endsLine (t : Text) : Bool :=
  match skipSpace t with
  | [] => true
  | b :: _ => isNewline b || b = 0x23

/-- Reads all lines of a text.  `fuel` bounds their number. -/
def readLines (fuel : Nat) (d : Document) (table : Key) (t : Text) : Except Failure Document :=
  match fuel with
  | 0 => .error .malformed
  | fuel + 1 =>
    match skipFiller false t with
    | [] => .ok d
    | t => do
      let (d, table, r) ← d.readLine table t
      if endsLine r then d.readLines fuel table r else .error .malformed

end Document

/-- The text without a byte order mark at its beginning. -/
def dropMark : Text → Text
  | 0xFF :: 0xFE :: t => t
  | 0xFE :: 0xFF :: t => t
  | 0xEF :: 0xBB :: 0xBF :: t => t
  | t => t

/-- The document of a file. -/
def document (file : Text) : Except Failure Document :=
  let t := readable (dropMark file).glyphs
  Document.readLines (t.length + 1) {} [] t

end AisScript.Toml
