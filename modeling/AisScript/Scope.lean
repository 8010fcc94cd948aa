import AisScript.Text

/-!
# Lexical scopes

A scope is a stack of frames, one for each open block, and a frame binds names.  A name means its
binding in the innermost frame that has one.  There is always a frame to bind in.

* `Scope.define`, `Scope.lookup`   binding and finding names
* `Scope.push`, `Scope.pop?`       opening and closing a block
* `Scope.snapshot`                 everything visible, in one frame
-/

namespace AisScript

/-- The bindings of one block, the latest first. -/
abbrev Frame (α : Type) := List (Text × α)

/-- The frames of the open blocks. -/
structure Scope (α : Type) where
  inner : Frame α := []
  outer : List (Frame α) := []
deriving Repr

namespace Scope

variable {α : Type}

/-- Opens a block. -/
def push (s : Scope α) : Scope α := ⟨[], s.inner :: s.outer⟩

/-- Closes the innermost block; the outermost frame stays open. -/
def pop? (s : Scope α) : Option (Scope α) :=
  match s.outer with
  | [] => none
  | f :: fs => some ⟨f, fs⟩

/-- The number of frames. -/
def depth (s : Scope α) : Nat := s.outer.length + 1

/-- Binds a name in the innermost frame. -/
def define (s : Scope α) (name : Text) (v : α) : Scope α := { s with inner := (name, v) :: s.inner }

/-- The first binding found, from the innermost frame outwards. -/
def lookupIn : List (Frame α) → Text → Option α
  | [], _ => none
  | f :: fs, name => match f.lookup name with
    | some v => some v
    | none => lookupIn fs name

/-- What a name means. -/
def lookup (s : Scope α) (name : Text) : Option α := lookupIn (s.inner :: s.outer) name

/-- Whether the innermost frame binds a name. -/
def bindsHere (s : Scope α) (name : Text) : Bool := (s.inner.lookup name).isSome

/-- Gives a name a new meaning in the first frame that binds it. -/
def rebindIn : List (Frame α) → Text → α → Option (List (Frame α))
  | [], _, _ => none
  | f :: fs, name, v =>
    if (f.lookup name).isSome then some (((name, v) :: f) :: fs)
    else (rebindIn fs name v).map (f :: ·)

/-- Gives a name a new meaning in the frame that binds it, if one does. -/
def rebind? (s : Scope α) (name : Text) (v : α) : Option (Scope α) :=
  match rebindIn (s.inner :: s.outer) name v with
  | some (f :: fs) => some ⟨f, fs⟩
  | _ => none

/-- Everything visible in a single frame; what is bound later does not show. -/
def snapshot (s : Scope α) : Scope α := ⟨(s.inner :: s.outer).flatten, []⟩

end Scope

end AisScript
