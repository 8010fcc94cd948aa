import AisScript.Style

/-!
# Versions

Which build of the compiler this is.  The fingerprint goes into the keys of cached output, so that
output of another build is never taken.
-/

namespace AisScript

/-- A build of the compiler. -/
structure Version where
  /-- The semantic version. -/
  number : Text := "0.1.0-dev"
  commit : Text := []
  /-- The message of the commit. -/
  message : Text := []
  /-- When it was built. -/
  date : Text := []
deriving DecidableEq, Repr, Inhabited

namespace Version

/-- Identifies the build. -/
def fingerprint (v : Version) : Text := "reduxc " ++ v.number ++ " " ++ v.commit

/-- The text in front of the first occurrence of a byte, and the text behind it if it occurs. -/
def cut (sep : UInt8) (t : Text) : Text × Option Text :=
  match t.dropWhile (· ≠ sep) with
  | [] => (t, none)
  | _ :: rest => (t.takeWhile (· ≠ sep), some rest)

/-- The version with its three parts in their own colours; one without three parts as it is. -/
def painted (v : Version) (colored : Bool) : Text :=
  let (core, suffix) := cut 0x2D v.number
  match cut 0x2E core with
  | (major, some rest) =>
    match cut 0x2E rest with
    | (minor, some patch) =>
      let suffix := suffix.getD []
      major.painted colored [.yellow, .bold] ++ "." ++ minor.painted colored [.green, .bold] ++ "."
        ++ patch.painted colored [.blue, .bold] ++ (if suffix.isEmpty then [] else 0x2D :: suffix)
    | _ => v.number
  | _ => v.number

end Version

end AisScript
