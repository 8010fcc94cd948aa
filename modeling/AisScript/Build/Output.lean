import AisScript.Path
import AisScript.Text.Utf8

/-!
# Where outputs go

The name of a file in progress events, and the place where its generated text is written.

* `Build.displayName`   relative to the base directory for files below it
* `Build.outputPath`    next to the source, or at the same place below an output directory
-/

namespace AisScript

/-- The extension of scripts; required paths without it get it appended. -/
def sourceExt : Text := ".redux"

namespace Build

/-- The extension of generated files. -/
def outputExt : Text := ".ais"

/-- A file relative to the base directory if it lies below it, and absolute otherwise; without a
base directory the path as it is. -/
def displayName (cwd base file : Text) : Text :=
  let base := base.trim
  if base.isEmpty then Path.clean file
  else
    let path := Path.absolute cwd file
    match Path.rel? (Path.absolute cwd base) path with
    | some rel => if rel ≠ (".": Text) && !Path.up.isPrefixOf rel then rel else path
    | none => path

/-- A text without a given end, if it has it. -/
def trimEnd (t suffix : Text) : Text :=
  if t.endsWith suffix then t.take (t.length - suffix.length) else t

/-- Where the text generated for a source is written.  Without an output directory it lands next
to the source; with one it keeps its path below the base directory there, and a source
from elsewhere lands in it directly. -/
def outputPath (cwd src outDir base : Text) : Text :=
  let name := trimEnd src sourceExt ++ outputExt
  if outDir.isEmpty then name
  else
    let rel := displayName cwd base name
    Path.join outDir (if Path.isAbsolute rel then Path.base name else rel)

end Build

end AisScript
