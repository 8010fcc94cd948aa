import AisScript.Text

/-!
# Spans

A span is a half-open range of bytes inside one file of a file set.  Nothing forces `start` to lie
before `stop`; the spans the parser builds do, the ones a caller hands in may not.
-/

namespace AisScript

/-- The bytes from `start` up to but not including `stop` of the file numbered `file`. -/
structure Span where
  file : Nat := 0
  start : Nat := 0
  stop : Nat := 0
deriving DecidableEq, Repr, Inhabited

namespace Span

/-- A span that holds no byte. -/
def isEmpty (s : Span) : Bool := s.start == s.stop

/-- The number of bytes as an unsigned 32-bit number: a reversed span wraps around. -/
def length (s : Span) : Nat := (s.stop + 0x100000000 - s.start % 0x100000000) % 0x100000000

/-- The least span that covers both; spans of different files are not merged. -/
def cover (s t : Span) : Span :=
  if s.file = t.file then ⟨s.file, min s.start t.start, max s.stop t.stop⟩ else s

/-- The empty span at one offset. -/
def point (file offset : Nat) : Span := ⟨file, offset, offset⟩

/-- `file:start-stop`. -/
def render (s : Span) : Text :=
  Text.ofNat s.file ++ ":" ++ Text.ofNat s.start ++ "-" ++ Text.ofNat s.stop

@[simp] theorem cover_file (s t : Span) : (s.cover t).file = s.file := by
  unfold cover; split <;> rfl

end Span

end AisScript
