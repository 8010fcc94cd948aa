import AisScript.Scope

/-!
# Lexical scopes: what is found where

A scope is used through `lookup` alone.  Opening a block or flattening the frames into one changes
nothing that can be found, and a definition changes what is found under its own name only.

* `Scope.lookup_define`     a definition hides its name and nothing else
* `Scope.lookup_push`       an opened block shows what was visible before
* `Scope.lookup_snapshot`   a snapshot shows what was visible when it was taken
-/

namespace AisScript

namespace Scope

variable {α : Type}

/-- The innermost frame is searched first. -/
private theorem lookup_eq_orElse (s : Scope α) (n : Text) :
    s.lookup n = (s.inner.lookup n).or (lookupIn s.outer n) := by
  simp only [lookup, lookupIn]
  cases s.inner.lookup n <;> rfl

/-- A definition hides its name and nothing else. -/
theorem lookup_define (s : Scope α) (m n : Text) (v : α) :
    (s.define m v).lookup n = if n = m then some v else s.lookup n := by
  rw [lookup_eq_orElse, lookup_eq_orElse]
  simp only [define, List.lookup_cons]
  by_cases h : n = m
  · simp only [h, beq_self_eq_true, if_true, Option.some_or]
  · simp only [beq_eq_false_iff_ne.2 h, if_neg h]

/-- The name that was just defined is found. -/
@[simp] theorem lookup_define_self (s : Scope α) (n : Text) (v : α) :
    (s.define n v).lookup n = some v := by
  rw [lookup_define, if_pos rfl]

/-- Other names mean what they meant before a definition. -/
theorem lookup_define_of_ne (s : Scope α) {m n : Text} (v : α) (h : n ≠ m) :
    (s.define m v).lookup n = s.lookup n := by
  rw [lookup_define, if_neg h]

/-- An opened block shows what was visible before. -/
@[simp] theorem lookup_push (s : Scope α) (n : Text) : s.push.lookup n = s.lookup n := by
  rw [lookup_eq_orElse]
  simp only [push, List.lookup_nil, Option.none_or, lookup]

/-- Frames one behind the other are searched like one long frame. -/
private theorem lookup_flatten (fs : List (Frame α)) (n : Text) :
    fs.flatten.lookup n = lookupIn fs n := by
  induction fs with
  | nil => rfl
  | cons f fs ih =>
    rw [List.flatten_cons, List.lookup_append, ih, lookupIn]
    cases f.lookup n <;> rfl

/-- A scope of a single frame finds what the frame holds. -/
@[simp] theorem lookup_single (f : Frame α) (n : Text) :
    (⟨f, []⟩ : Scope α).lookup n = f.lookup n := by
  rw [lookup_eq_orElse]
  simp only [lookupIn, Option.or_none]

/-- A snapshot shows what was visible when it was taken. -/
@[simp] theorem lookup_snapshot (s : Scope α) (n : Text) :
    s.snapshot.inner.lookup n = s.lookup n := by
  simp only [snapshot, lookup_flatten, lookup]

/-- Visible names stay visible behind a definition. -/
theorem isSome_lookup_define (s : Scope α) {m n : Text} (v : α) (h : (s.lookup n).isSome) :
    ((s.define m v).lookup n).isSome := by
  rw [lookup_define]
  split
  · rfl
  · exact h

end Scope

end AisScript
