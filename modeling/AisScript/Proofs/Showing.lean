import AisScript.Proofs.Levels
import AisScript.Proofs.Renumbering
import AisScript.Proofs.Sharing

/-!
# What shared scopes show

A scope that is handed on as a value and a scope that is changed in place show the same if their frames bind
the same names to the same, where a function that keeps what it has captured is the same as one that keeps the
number of a scope, if that scope shows what was captured in its only frame.  So a function means something
only as long as no call is under way on the scope that it has captured.

Numbers of bindings may differ, as a renumbering says.

* `Heap.AtRest`             scopes on which no call is under way
* `Entry.Shown`             a slot stands for what an entry stands for
* `Scope.Shown`             a scope changed in place shows what another scope does
* `Entry.Shown.kept`        scopes that are not at rest may change
* `Entry.Shown.unique`      what a slot stands for
* `frameShown_entered`      a call may enter the scope of its function
-/

namespace AisScript

/-! ## Scopes at rest -/

namespace Heap

/-- A scope that was captured, and on which no call is under way. -/
def AtRest (M : Heap) (r : Nat) : Prop := 0 < r ∧ r < M.count ∧ (M.scope r).outer = []

/-- What is at rest stays as it is. -/
def KeepsRest (M M' : Heap) : Prop := ∀ r, M.AtRest r → M'.AtRest r ∧ M'.scope r = M.scope r

/-- Scopes stay at rest if they stay as they are. -/
theorem KeepsRest.of_scope {M M' : Heap} (hcount : M.count ≤ M'.count)
    (hscope : ∀ r, M.AtRest r → M'.scope r = M.scope r) : M.KeepsRest M' := by
  intro r hr
  refine ⟨⟨hr.1, Nat.lt_of_lt_of_le hr.2.1 hcount, ?_⟩, hscope r hr⟩
  rw [hscope r hr]
  exact hr.2.2

end Heap

/-! ## Slots and entries -/

mutual

/-- A slot stands for what an entry stands for. -/
def Entry.Shown (φ : Nat → Nat) (M : Heap) : Entry → Slot → Prop
  | .value b, s => ∃ b', s = .value b' ∧ b'.renumber φ = b.renumber φ
  | .function ps body captured, s =>
    ∃ r, s = .function ps body r ∧ M.AtRest r ∧ frameShown φ M captured (M.scope r).inner
  | .bitfield layout, s => s = .bitfield layout
  | .intrinsic op, s => s = .intrinsic op

/-- A frame binds the names of another, in order, and their slots stand for the same. -/
def frameShown (φ : Nat → Nat) (M : Heap) : List (Text × Entry) → List (Text × Slot) → Prop
  | [], f => f = []
  | x :: xs, f => ∃ n s ys, f = (n, s) :: ys ∧ boundShown φ M x n s ∧ frameShown φ M xs ys

/-- A bound name. -/
def boundShown (φ : Nat → Nat) (M : Heap) : Text × Entry → Text → Slot → Prop
  | (m, e), n, s => n = m ∧ e.Shown φ M s

end

variable {φ ψ : Nat → Nat} {M M' : Heap}

mutual

/-- A slot stands for the same as long as what is at rest stays as it is. -/
theorem Entry.Shown.kept (h : M.KeepsRest M') : (e : Entry) → {s : Slot} → e.Shown φ M s → e.Shown φ M' s
  | .value _, _, hs => hs
  | .function _ _ captured, _, hs => by
    obtain ⟨r, rfl, hr, hf⟩ := hs
    obtain ⟨hr', hscope⟩ := h r hr
    exact ⟨r, rfl, hr', hscope ▸ frameShown_kept h captured hf⟩
  | .bitfield _, _, hs => hs
  | .intrinsic _, _, hs => hs

/-- A frame shows the same as long as what is at rest stays as it is. -/
theorem frameShown_kept (h : M.KeepsRest M') : (f : List (Text × Entry)) → {g : List (Text × Slot)} →
    frameShown φ M f g → frameShown φ M' f g
  | [], _, hg => hg
  | x :: xs, _, hg => by
    obtain ⟨n, s, ys, rfl, hx, hxs⟩ := hg
    exact ⟨n, s, ys, rfl, boundShown_kept h x hx, frameShown_kept h xs hxs⟩

private theorem boundShown_kept (h : M.KeepsRest M') : (x : Text × Entry) → {n : Text} → {s : Slot} →
    boundShown φ M x n s → boundShown φ M' x n s
  | (_, e), _, _, hx => ⟨hx.1, Entry.Shown.kept h e hx.2⟩

end

mutual

/-- What is the same with the numbers that there are is the same with all others. -/
theorem Entry.Shown.renumber : (e : Entry) → {s : Slot} → e.Shown id M s → e.Shown φ M s
  | .value _, _, hs => by
    obtain ⟨b', rfl, hb⟩ := hs
    rw [renumber_binding_id, renumber_binding_id] at hb
    exact ⟨b', rfl, hb ▸ rfl⟩
  | .function _ _ captured, _, hs => by
    obtain ⟨r, rfl, hr, hf⟩ := hs
    exact ⟨r, rfl, hr, frameShown_renumber captured hf⟩
  | .bitfield _, _, hs => hs
  | .intrinsic _, _, hs => hs

private theorem frameShown_renumber : (f : List (Text × Entry)) → {g : List (Text × Slot)} →
    frameShown id M f g → frameShown φ M f g
  | [], _, hg => hg
  | x :: xs, _, hg => by
    obtain ⟨n, s, ys, rfl, hx, hxs⟩ := hg
    exact ⟨n, s, ys, rfl, boundShown_renumber x hx, frameShown_renumber xs hxs⟩

private theorem boundShown_renumber : (x : Text × Entry) → {n : Text} → {s : Slot} →
    boundShown id M x n s → boundShown φ M x n s
  | (_, e), _, _, hx => ⟨hx.1, Entry.Shown.renumber e hx.2⟩

end

mutual

/-- With the numbers that there are, a slot stands for one entry only. -/
theorem Entry.Shown.unique : (e e' : Entry) → {s : Slot} → e.Shown id M s → e'.Shown id M s → e = e'
  | .value b, e', _, hs, hs' => by
    obtain ⟨b₁, rfl, hb⟩ := hs
    -- A value is shown by its binding, which has the same number.
    cases e' with
    | value b' =>
      obtain ⟨b₂, h₂, hb'⟩ := hs'
      cases h₂
      rw [renumber_binding_id, renumber_binding_id] at hb hb'
      rw [← hb, hb']
    | function _ _ _ => obtain ⟨_, h₂, _⟩ := hs'; cases h₂
    | bitfield _ => cases hs'
    | intrinsic _ => cases hs'
  | .function ps body captured, e', _, hs, hs' => by
    -- A function is shown by its text and its captured frame.
    obtain ⟨r, rfl, hr, hf⟩ := hs
    cases e' with
    | function ps' body' captured' =>
      -- The other entry has the same parts, by its captured frame.
      obtain ⟨r', h', _, hf'⟩ := hs'
      cases h'
      rw [frameShown_unique captured captured' hf hf']
    | value _ => obtain ⟨_, h₂, _⟩ := hs'; cases h₂
    | bitfield _ => cases hs'
    | intrinsic _ => cases hs'
  | .bitfield _, e', _, hs, hs' => by
    -- A layout is shown by itself.
    cases hs
    cases e' with
    | bitfield _ => cases hs'; rfl
    | value _ => obtain ⟨_, h₂, _⟩ := hs'; cases h₂
    | function _ _ _ => obtain ⟨_, h₂, _⟩ := hs'; cases h₂
    | intrinsic _ => cases hs'
  | .intrinsic _, e', _, hs, hs' => by
    -- A built-in function is shown by itself.
    cases hs
    cases e' with
    | intrinsic _ => cases hs'; rfl
    | value _ => obtain ⟨_, h₂, _⟩ := hs'; cases h₂
    | function _ _ _ => obtain ⟨_, h₂, _⟩ := hs'; cases h₂
    | bitfield _ => cases hs'

private theorem frameShown_unique : (f f' : List (Text × Entry)) → {g : List (Text × Slot)} →
    frameShown id M f g → frameShown id M f' g → f = f'
  | [], f', _, hg, hg' => by
    -- An empty frame shows no names.
    cases hg
    cases f' with
    | nil => rfl
    | cons _ _ => obtain ⟨_, _, _, h', _⟩ := hg'; cases h'
  | x :: xs, f', _, hg, hg' => by
    -- The first name and its entry, and the others behind them.
    obtain ⟨n, s, ys, rfl, hx, hxs⟩ := hg
    cases f' with
    | nil => cases hg'
    | cons x' xs' =>
      obtain ⟨_, _, _, h', hx', hxs'⟩ := hg'
      cases h'
      rw [boundShown_unique x x' hx hx', frameShown_unique xs xs' hxs hxs']

private theorem boundShown_unique : (x x' : Text × Entry) → {n : Text} → {s : Slot} →
    boundShown id M x n s → boundShown id M x' n s → x = x'
  | (_, e), (_, e'), _, _, hx, hx' => by
    rw [← hx.1, ← hx'.1, Entry.Shown.unique e e' hx.2 hx'.2]

end

/-! ## Levels -/

mutual

/-- The level of what a slot stands for. -/
private theorem Entry.Shown.level_eq : (e e' : Entry) → {s : Slot} → e.Shown φ M s → e'.Shown φ M s →
    e.level = e'.level
  | .value _, e', _, hs, hs' => by
    -- Only functions have a level above zero, and no value is one.
    obtain ⟨_, rfl, _⟩ := hs
    cases e' with
    | function _ _ _ => obtain ⟨_, h₂, _⟩ := hs'; cases h₂
    | _ => rfl
  | .function _ _ captured, e', _, hs, hs' => by
    -- A function is one level above its captured frame.
    obtain ⟨r, rfl, _, hf⟩ := hs
    cases e' with
    | function _ _ captured' =>
      obtain ⟨_, h', _, hf'⟩ := hs'
      cases h'
      rw [Entry.level, Entry.level, frameShown_level captured captured' hf hf']
    | value _ => obtain ⟨_, h₂, _⟩ := hs'; cases h₂
    | bitfield _ => cases hs'
    | intrinsic _ => cases hs'
  | .bitfield _, e', _, hs, hs' => by
    cases hs
    cases e' with
    | function _ _ _ => obtain ⟨_, h₂, _⟩ := hs'; cases h₂
    | _ => rfl
  | .intrinsic _, e', _, hs, hs' => by
    cases hs
    cases e' with
    | function _ _ _ => obtain ⟨_, h₂, _⟩ := hs'; cases h₂
    | _ => rfl

private theorem frameShown_level : (f f' : List (Text × Entry)) → {g : List (Text × Slot)} →
    frameShown φ M f g → frameShown φ M f' g → frameLevel f = frameLevel f'
  | [], f', _, hg, hg' => by
    -- An empty frame shows no names.
    cases hg
    cases f' with
    | nil => rfl
    | cons _ _ => obtain ⟨_, _, _, h', _⟩ := hg'; cases h'
  | x :: xs, f', _, hg, hg' => by
    -- The levels of the first entry and of the others.
    obtain ⟨n, s, ys, rfl, hx, hxs⟩ := hg
    cases f' with
    | nil => cases hg'
    | cons x' xs' =>
      obtain ⟨_, _, _, h', hx', hxs'⟩ := hg'
      cases h'
      rw [frameLevel, frameLevel, boundShown_level x x' hx hx', frameShown_level xs xs' hxs hxs']

private theorem boundShown_level : (x x' : Text × Entry) → {n : Text} → {s : Slot} →
    boundShown φ M x n s → boundShown φ M x' n s → boundLevel x = boundLevel x'
  | (_, e), (_, e'), _, _, hx, hx' => Entry.Shown.level_eq e e' hx.2 hx'.2

end

section Entered

variable {r : Nat} {κ : List (Text × Entry)}

/-! What a function has captured is below the function, so it does not hold the function: a call may be under
way on the scope that was captured, and everything in it stands for the same as before. -/

mutual

/-- What is not above a captured scope stands for the same while a call is under way on it. -/
private theorem Entry.Shown.entered (hκ : frameShown φ M κ (M.scope r).inner)
    (h : ∀ r', r' ≠ r → M.AtRest r' → M'.AtRest r' ∧ M'.scope r' = M.scope r') : (e : Entry) → {s : Slot} →
    e.level ≤ frameLevel κ → e.Shown φ M s → e.Shown φ M' s
  -- Values stand for the same in every heap.
  | .value _, _, _, hs => hs
  | .function ps body captured, _, hlevel, hs => by
    obtain ⟨r', rfl, hr', hf⟩ := hs
    rw [Entry.level] at hlevel
    -- A function that had captured this scope would be above what was captured.
    have hne : r' ≠ r := by
      rintro rfl
      have := frameShown_level captured κ hf hκ
      omega
    -- Any other captured scope is at rest, before and behind.
    obtain ⟨hrest, hscope⟩ := h r' hne hr'
    exact ⟨r', rfl, hrest, hscope ▸ frameShown_entered' hκ h captured (by omega) hf⟩
  | .bitfield _, _, _, hs => hs
  | .intrinsic _, _, _, hs => hs

private theorem frameShown_entered' (hκ : frameShown φ M κ (M.scope r).inner)
    (h : ∀ r', r' ≠ r → M.AtRest r' → M'.AtRest r' ∧ M'.scope r' = M.scope r') :
    (f : List (Text × Entry)) → {g : List (Text × Slot)} → frameLevel f ≤ frameLevel κ →
      frameShown φ M f g → frameShown φ M' f g
  | [], _, _, hg => hg
  | x :: xs, _, hlevel, hg => by
    obtain ⟨n, s, ys, rfl, hx, hxs⟩ := hg
    rw [frameLevel] at hlevel
    exact ⟨n, s, ys, rfl, boundShown_entered hκ h x (Nat.le_trans (Nat.le_max_left _ _) hlevel) hx,
      frameShown_entered' hκ h xs (Nat.le_trans (Nat.le_max_right _ _) hlevel) hxs⟩

private theorem boundShown_entered (hκ : frameShown φ M κ (M.scope r).inner)
    (h : ∀ r', r' ≠ r → M.AtRest r' → M'.AtRest r' ∧ M'.scope r' = M.scope r') : (x : Text × Entry) →
    {n : Text} → {s : Slot} → boundLevel x ≤ frameLevel κ → boundShown φ M x n s → boundShown φ M' x n s
  | (_, e), _, _, hlevel, hx => ⟨hx.1, Entry.Shown.entered hκ h e hlevel hx.2⟩

end

/-- A captured scope shows the same while a call is under way on it. -/
theorem frameShown_entered (hκ : frameShown φ M κ (M.scope r).inner)
    (h : ∀ r', r' ≠ r → M.AtRest r' → M'.AtRest r' ∧ M'.scope r' = M.scope r') :
    frameShown φ M' κ (M.scope r).inner :=
  frameShown_entered' hκ h κ (Nat.le_refl _) hκ

end Entered

/-! ## Scopes -/

/-- Frames that show the same as others. -/
def framesShown (φ : Nat → Nat) (M : Heap) : List (Frame Entry) → List (Frame Slot) → Prop
  | [], gs => gs = []
  | f :: fs, gs => ∃ g gs', gs = g :: gs' ∧ frameShown φ M f g ∧ framesShown φ M fs gs'

/-- A scope that is changed in place shows what another scope does. -/
def Scope.Shown (φ : Nat → Nat) (M : Heap) (σ : Scope Entry) (τ : Scope Slot) : Prop :=
  frameShown φ M σ.inner τ.inner ∧ framesShown φ M σ.outer τ.outer

/-- What a name means in both. -/
def SameMeaning (φ : Nat → Nat) (M : Heap) (e : Option Entry) (s : Option Slot) : Prop :=
  match e, s with
  | none, none => True
  | some e, some s => e.Shown φ M s
  | _, _ => False

/-- A name has no meaning in both, or one that is the same. -/
theorem SameMeaning.cases {e : Option Entry} {s : Option Slot} (h : SameMeaning φ M e s) :
    (e = none ∧ s = none) ∨ ∃ x y, e = some x ∧ s = some y ∧ x.Shown φ M y := by
  cases e with
  | none =>
    cases s with
    | none => exact .inl ⟨rfl, rfl⟩
    | some _ => exact h.elim
  | some x =>
    cases s with
    | none => exact h.elim
    | some y => exact .inr ⟨x, y, rfl, rfl, h⟩

section Scopes

variable {σ : Scope Entry} {τ : Scope Slot}

private theorem framesShown_kept (h : M.KeepsRest M') {fs : List (Frame Entry)} {gs : List (Frame Slot)}
    (hs : framesShown φ M fs gs) : framesShown φ M' fs gs := by
  induction fs generalizing gs with
  | nil => exact hs
  | cons f fs ih =>
    obtain ⟨g, gs', rfl, hf, hfs⟩ := hs
    exact ⟨g, gs', rfl, frameShown_kept h f hf, ih hfs⟩

/-- A scope shows the same as long as what is at rest stays as it is. -/
theorem Scope.Shown.kept (hs : σ.Shown φ M τ) (h : M.KeepsRest M') : σ.Shown φ M' τ :=
  ⟨frameShown_kept h _ hs.1, framesShown_kept h hs.2⟩

/-- Both open a block. -/
theorem Scope.Shown.push (hs : σ.Shown φ M τ) : σ.push.Shown φ M τ.push := ⟨rfl, _, _, rfl, hs.1, hs.2⟩

/-- Both bind a name. -/
theorem Scope.Shown.define (hs : σ.Shown φ M τ) (n : Text) {e : Entry} {s : Slot} (he : e.Shown φ M s) :
    (σ.define n e).Shown φ M (τ.define n s) :=
  ⟨⟨n, s, _, rfl, ⟨rfl, he⟩, hs.1⟩, hs.2⟩

private theorem frameShown_append {f f' : List (Text × Entry)} {g g' : List (Text × Slot)}
    (h : frameShown φ M f g) (h' : frameShown φ M f' g') : frameShown φ M (f ++ f') (g ++ g') := by
  induction f generalizing g with
  | nil => cases h; exact h'
  | cons x xs ih =>
    obtain ⟨n, s, ys, rfl, hx, hxs⟩ := h
    exact ⟨n, s, _, rfl, hx, ih hxs⟩

private theorem frameShown_flatten (fs : List (Frame Entry)) {gs : List (Frame Slot)}
    (h : framesShown φ M fs gs) : frameShown φ M fs.flatten gs.flatten := by
  induction fs generalizing gs with
  | nil => cases h; exact rfl
  | cons f fs ih =>
    obtain ⟨g, gs', rfl, hf, hfs⟩ := h
    exact frameShown_append hf (ih hfs)

/-- Both take the same with them. -/
theorem Scope.Shown.snapshot (hs : σ.Shown φ M τ) : frameShown φ M σ.snapshot.inner τ.snapshot.inner :=
  frameShown_flatten (σ.inner :: σ.outer) ⟨_, _, rfl, hs.1, hs.2⟩

private theorem sameMeaning_frame {f : List (Text × Entry)} {g : List (Text × Slot)} (h : frameShown φ M f g)
    (n : Text) : SameMeaning φ M (f.lookup n) (g.lookup n) := by
  induction f generalizing g with
  | nil => cases h; exact trivial
  | cons x xs ih =>
    obtain ⟨m, e⟩ := x
    obtain ⟨_, s, ys, rfl, ⟨rfl, he⟩, hxs⟩ := h
    rw [List.lookup_cons, List.lookup_cons]
    split
    · exact he
    · exact ih hxs

private theorem sameMeaning_frames (fs : List (Frame Entry)) {gs : List (Frame Slot)}
    (h : framesShown φ M fs gs) (n : Text) :
    SameMeaning φ M (Scope.lookupIn fs n) (Scope.lookupIn gs n) := by
  induction fs generalizing gs with
  | nil => cases h; exact trivial
  -- The name is in the innermost frame, or it is looked for in the others.
  | cons f fs ih =>
    obtain ⟨g, gs', rfl, hf, hfs⟩ := h
    have hn := sameMeaning_frame hf n
    rw [Scope.lookupIn, Scope.lookupIn]
    -- It is in neither of the innermost frames, or in both.
    cases hfn : f.lookup n with
    | none =>
      cases hgn : g.lookup n with
      | none => exact ih hfs
      | some s => rw [hfn, hgn] at hn; exact hn.elim
    | some e =>
      cases hgn : g.lookup n with
      | none => rw [hfn, hgn] at hn; exact hn.elim
      | some s => rw [hfn, hgn] at hn; exact hn

/-- A name means the same in both. -/
theorem Scope.Shown.lookup (hs : σ.Shown φ M τ) (n : Text) : SameMeaning φ M (σ.lookup n) (τ.lookup n) :=
  sameMeaning_frames (σ.inner :: σ.outer) ⟨_, _, rfl, hs.1, hs.2⟩ n

end Scopes

end AisScript
