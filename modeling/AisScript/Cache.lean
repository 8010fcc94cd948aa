import AisScript.Disk
import AisScript.Host
import AisScript.Version
import AisScript.Text.Packed

/-!
# The output cache

Generated text is kept on the disk under a key made from everything it depends on: the build of the
compiler, the host's globals, the script and the files it requires.  A file that cannot be read as
an entry is no entry.

* `combinedDigest`          the key
* `Cache.Entry.encode`, `decode?`   an entry as bytes
* `Cache.get?`, `put`, `clear`      the cache on a disk
-/

namespace AisScript

/-- The digest of a salt, a content digest and the digests of required files in order. -/
def combinedDigest (salt content : Text) (required : List Text) : Text :=
  (salt ++ content ++ required.flatten).sha256

/-- A folder that holds generated text. -/
structure Cache where
  dir : Text
deriving DecidableEq, Repr, Inhabited

namespace Cache

/-- The outcome of a successful compilation. -/
structure Entry where
  /-- The version of the entry's form. -/
  form : Nat := 0
  path : Text := []
  output : Option Text := none
  temps : Int := 0
deriving DecidableEq, Repr, Inhabited

/-- The form of entries that this compiler writes and reads. -/
def currentForm : Nat := 1

namespace Entry

/-- The entry as bytes. -/
def encode (e : Entry) : Text :=
  let name (t : Text) : Text := Packed.ofText t
  [0x84] ++ name "Schema" ++ Packed.word16 e.form ++ name "Path" ++ Packed.ofText e.path
    ++ name "Output" ++ (match e.output with
      | some t => Packed.ofBytes t
      | none => [0xC0])
    ++ name "Temps" ++ Packed.ofNat e.temps.toNat

/-- A member that holds a number; a missing value counts as zero. -/
def numberOf : Packed → Option Int
  | .null => some 0
  | .number n => some n
  | _ => none

/-- A member that holds bytes or nothing. -/
def bytesOf : Packed → Option (Option Text)
  | .null => some none
  | .bytes b => some (some b)
  | _ => none

/-- Sets the member with a given name; names that mean nothing are passed over. -/
def set (e : Entry) (name : Text) (v : Packed) : Option Entry :=
  if name = ("Schema" : Text) then do
    let n ← numberOf v
    return { e with form := (n % 65536).toNat }
  else if name = ("Path" : Text) then do
    let b ← bytesOf v
    return { e with path := b.getD [] }
  else if name = ("Output" : Text) then do
    let b ← bytesOf v
    return { e with output := b }
  else if name = ("Temps" : Text) then do
    let n ← numberOf v
    return { e with temps := (n + 0x8000000000000000) % 0x10000000000000000 - 0x8000000000000000 }
  else some e

/-- The entry with the given members set in order. -/
def setAll (e : Entry) : List (Packed × Packed) → Option Entry
  | [] => some e
  | (k, v) :: ms => do
    let name ← bytesOf k
    let e ← e.set (name.getD []) v
    setAll e ms

/-- The entry that bytes stand for: a record by names, or a list of all four members in order. -/
def decode? (bytes : Text) : Option Entry := do
  let (v, _) ← Packed.read? bytes
  match v with
  | .null | .list [] => return {}
  | .record ms => setAll {} ms
  | .list [form, path, output, temps] =>
    let e ← ({} : Entry).set "Schema" form
    let e ← e.set "Path" path
    let e ← e.set "Output" output
    e.set "Temps" temps
  | _ => none

end Entry

/-- The key of a compilation. -/
def key (v : Version) (h : Host) (content : Text) (required : List Text) : Text :=
  let named (g : Global) : Text := ";" ++ g.name ++ ":" ++ g.ty.render
  combinedDigest (v.fingerprint ++ h.globals.flatMap named) content required

/-- Where the entry of a key is kept. -/
def fileOf (c : Cache) (key : Text) : Text := Path.join c.dir ("units/" ++ key.hex ++ ".mp")

/-- Makes the folder of a cache. -/
def open? (d : Disk) (dir : Text) : Option (Cache × Disk) :=
  match d.makeFolders dir with
  | .ok d => some (⟨dir⟩, d)
  | .error _ => none

/-- The entry of a key, if there is one of the current form. -/
def get? (c : Cache) (d : Disk) (key : Text) : Option Entry := do
  let bytes ← (d.read (c.fileOf key)).toOption
  let e ← Entry.decode? bytes
  if e.form = currentForm then some e else none

/-- Keeps an entry; where that is impossible nothing is kept. -/
def put (c : Cache) (d : Disk) (key : Text) (e : Entry) : Disk :=
  let stored := do
    let file := c.fileOf key
    let d ← d.makeFolders (Path.dir file)
    d.write file e.encode
  match stored with
  | .ok d => d
  | .error _ => d

/-- Empties a cache; where that is impossible everything stays. -/
def clear (c : Cache) (d : Disk) : Disk :=
  match d.find c.dir with
  | .error _ => d
  | .ok _ =>
    match (d.remove c.dir).bind fun emptied => emptied.makeFolders c.dir with
    | .ok d => d
    | .error _ => d

end Cache

end AisScript
