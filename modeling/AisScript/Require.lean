import AisScript.Disk
import AisScript.Parser
import AisScript.Diagnostic.Bag
import AisScript.Build.Output

/-!
# Requires

A require statement stands for the statements of another file.  Every file is included at most once
per unit, at the first require that names it; the later ones stand for nothing, which also ends
cycles.  A required file holds definitions only.

* `requirePath`       the file a require names
* `Block.resolve`     a program with its requires replaced
-/

namespace AisScript

/-- The file that a require names: the extension is added if it is missing, and a relative path
starts at `dir`. -/
def requirePath (path dir : Text) : Text :=
  let path := if Path.ext path = sourceExt then path else path ++ sourceExt
  if Path.isAbsolute path then Path.clean path else Path.clean (Path.join dir path)

/-- What is known while requires are resolved. -/
structure Requires where
  files : FileSet
  reporter : Reporter
  /-- The absolute paths that were required so far, found or not. -/
  included : List Text := []
  /-- The numbers of the files that were included, in order. -/
  loaded : List Nat := []

/-- Replaces one require: the statements it stands for, given its place, the path it names and the
directory it is in. -/
abbrev Include := Requires → Span → (path dir : Text) → List Stmt × Requires

mutual

/-- Replaces the requires below a statement; the statement itself may become several or none. -/
def Stmt.requires (step : Include) (dir : Text) (r : Requires) : Stmt → List Stmt × Requires
  | .require s p => step r s p dir
  | .block b =>
    let (b, r) := b.requires step dir r
    ([.block b], r)
  | .cond s c t f =>
    let (t, r) := t.requires step dir r
    let (f, r) := requiresOption step dir r f
    ([.cond s c t f], r)
  | .loop s c b =>
    let (b, r) := b.requires step dir r
    ([.loop s c b], r)
  | .forLoop s i c st b =>
    let (b, r) := b.requires step dir r
    ([.forLoop s i c st b], r)
  | .funcDef s n ns ps b =>
    let (b, r) := b.requires step dir r
    ([.funcDef s n ns ps b], r)
  | .eval s e => ([.eval s e], r)
  | .assign a => ([.assign a], r)
  | .assignMember s t v => ([.assignMember s t v], r)
  | .ret s v => ([.ret s v], r)
  | .leave s => ([.leave s], r)
  | .code s t => ([.code s t], r)
  | .bitfieldDef s d => ([.bitfieldDef s d], r)
  | .enumDef s d => ([.enumDef s d], r)

/-- Replaces the requires of statements in order. -/
def requiresStmts (step : Include) (dir : Text) (r : Requires) : List Stmt → List Stmt × Requires
  | [] => ([], r)
  | s :: ss =>
    let (s, r) := s.requires step dir r
    let (ss, r) := requiresStmts step dir r ss
    (s ++ ss, r)

/-- Replaces the requires of a block. -/
def Block.requires (step : Include) (dir : Text) (r : Requires) : Block → Block × Requires
  | .mk os ss sp =>
    let (ss, r) := requiresStmts step dir r ss
    (.mk os ss sp, r)

/-- Replaces the requires of a block that may be absent. -/
def requiresOption (step : Include) (dir : Text) (r : Requires) : Option Block → Option Block × Requires
  | none => (none, r)
  | some b =>
    let (b, r) := b.requires step dir r
    (some b, r)

end

/-- Whether a statement may stand at the top of a required file. -/
def Stmt.isDefinition : Stmt → Bool
  | .funcDef .. | .bitfieldDef .. | .enumDef .. | .require .. => true
  | _ => false

/-- The report of a required file that cannot be read. -/
def requireMissing (span : Span) (path : Text) (e : DiskError) : Diagnostic :=
  { code := .requireNotFound, span
    message := "cannot read required file " ++ path ++ ": " ++ e.message }

/-- The report of a statement that may not stand in a required file. -/
def requireTopLevel (span : Span) (s : Stmt) : Diagnostic :=
  { code := .requireTopLevel, span := s.span
    message := "top-level code is not allowed in required file"
    notes := [⟨span, "required here"⟩] }

/-- Includes a file.  `fuel` bounds how deep files require each other; since every file is included
once, the number of files on the disk is enough. -/
def includeWithin (disk : Disk) (maxErrors : Nat) : (fuel : Nat) → Include
  | 0, r, _, _, _ => ([], r)
  | fuel + 1, r, span, path, dir =>
    let path := requirePath path dir
    let key := Path.absolute disk.cwd path
    if r.included.contains key then ([], r)
    else
      let r := { r with included := key :: r.included }
      match disk.load path with
      | .error e => ([], { r with reporter := r.reporter.report (requireMissing span path e) })
      | .ok f =>
        let (id, files) := r.files.add f
        let parsed := parse id maxErrors f.content
        let stray := parsed.program.stmts.filter (!·.isDefinition)
        let reporter := (r.reporter.reportAll parsed.reports).reportAll (stray.map (requireTopLevel span))
        let r := { r with files, reporter, loaded := r.loaded ++ [id] }
        requiresStmts (includeWithin disk maxErrors fuel) (f.dir disk.cwd) r parsed.program.stmts

/-- Replaces every require of a program, which was read from `file`.  A file from the disk counts
as included in itself. -/
def Block.resolve (disk : Disk) (maxErrors : Nat) (files : FileSet) (reporter : Reporter)
    (file : SourceFile) (program : Block) : Block × Requires :=
  let included := if file.flags.isVirtual then [] else [Path.absolute disk.cwd file.path]
  program.requires (includeWithin disk maxErrors (disk.entries.length + 1)) (file.dir disk.cwd)
    { files, reporter, included }

end AisScript
