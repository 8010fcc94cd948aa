import AisScript.Proofs.Places
import AisScript.Proofs.Splicing
import AisScript.Proofs.Walk

/-!
# What requires expand to

The reference for the resolution of requires is an expansion that knows nothing of fuel: it goes
through statements in order and keeps the requires met so far.  The first require of a path stands
for the expanded statements of its file, or for nothing if there is none; every later one stands for
nothing.  An expansion is a finite derivation, so that there is one means that resolving ends.

* `Block.Expands`             what a block expands to, and the requires met on the way
* `Met.Grows`                 what the requires met so far always satisfy
* `Block.resolve_expands`     resolving requires gives the only expansion there is
-/

namespace AisScript

/-! ## The reference -/

/-- A require that was met: the absolute path it names, and the file that it brought in. -/
structure Met where
  key : Text
  file : Option SourceFile
deriving DecidableEq, Repr

/-- The files that were brought in, in order. -/
def Met.files (ms : List Met) : List SourceFile := ms.filterMap Met.file

/-- Whether some require of a path was met. -/
def Met.Knows (ms : List Met) (key : Text) : Prop := key ∈ ms.map Met.key

/-- Statements that neither are requires nor have blocks. -/
def Stmt.isPlain : Stmt → Bool
  | .eval .. | .assign _ | .assignMember .. | .ret .. | .leave _ | .code .. | .bitfieldDef .. | .enumDef .. =>
    true
  | _ => false

/-- What the statements of a file in `dir` expand to, given the requires met before them, and those met
when they are done.  Files are parsed under the numbers from `base` on, in the order they are brought in. -/
inductive Expands (disk : Disk) (max base : Nat) :
    (dir : Text) → (before : List Met) → List Stmt → List Stmt → (after : List Met) → Prop where
  | nil {dir : Text} {ms : List Met} : Expands disk max base dir ms [] [] ms
  | plain {dir : Text} {s : Stmt} {ms ms' : List Met} {ss xs : List Stmt} (h : s.isPlain = true)
      (hrest : Expands disk max base dir ms ss xs ms') :
      Expands disk max base dir ms (s :: ss) (s :: xs) ms'
  /-- The first require of a path to a file. -/
  | first {dir path : Text} {sp : Span} {f : SourceFile} {ms ms' ms'' : List Met} {ss xs ys : List Stmt}
      (hnew : ¬Met.Knows ms (Path.absolute disk.cwd (requirePath path dir)))
      (hload : disk.load (requirePath path dir) = .ok f)
      (hfile : Expands disk max base (f.dir disk.cwd)
        (ms ++ [⟨Path.absolute disk.cwd (requirePath path dir), some f⟩])
        (parse (base + (Met.files ms).length) max f.content).program.stmts xs ms')
      (hrest : Expands disk max base dir ms' ss ys ms'') :
      Expands disk max base dir ms (.require sp path :: ss) (xs ++ ys) ms''
  /-- The first require of a path to no file. -/
  | missing {dir path : Text} {sp : Span} {e : DiskError} {ms ms' : List Met} {ss xs : List Stmt}
      (hnew : ¬Met.Knows ms (Path.absolute disk.cwd (requirePath path dir)))
      (hload : disk.load (requirePath path dir) = .error e)
      (hrest : Expands disk max base dir
        (ms ++ [⟨Path.absolute disk.cwd (requirePath path dir), none⟩]) ss xs ms') :
      Expands disk max base dir ms (.require sp path :: ss) xs ms'
  /-- Any later require of a path. -/
  | later {dir path : Text} {sp : Span} {ms ms' : List Met} {ss xs : List Stmt}
      (hknown : Met.Knows ms (Path.absolute disk.cwd (requirePath path dir)))
      (hrest : Expands disk max base dir
        (ms ++ [⟨Path.absolute disk.cwd (requirePath path dir), none⟩]) ss xs ms') :
      Expands disk max base dir ms (.require sp path :: ss) xs ms'
  | block {dir : Text} {os : List Assign} {bs : Span} {ms ms' ms'' : List Met} {ss ss' xs ys : List Stmt}
      (h : Expands disk max base dir ms ss ss' ms') (hrest : Expands disk max base dir ms' xs ys ms'') :
      Expands disk max base dir ms (.block (.mk os ss bs) :: xs) (.block (.mk os ss' bs) :: ys) ms''
  | cond {dir : Text} {sp : Span} {c : Expr} {os : List Assign} {bs : Span} {ms ms' ms'' : List Met}
      {ss ss' xs ys : List Stmt} (h : Expands disk max base dir ms ss ss' ms')
      (hrest : Expands disk max base dir ms' xs ys ms'') :
      Expands disk max base dir ms (.cond sp c (.mk os ss bs) none :: xs)
        (.cond sp c (.mk os ss' bs) none :: ys) ms''
  | condElse {dir : Text} {sp : Span} {c : Expr} {os os' : List Assign} {bs bs' : Span}
      {ms ms' ms'' end_ : List Met} {ss ss' us us' xs ys : List Stmt}
      (ht : Expands disk max base dir ms ss ss' ms') (hf : Expands disk max base dir ms' us us' ms'')
      (hrest : Expands disk max base dir ms'' xs ys end_) :
      Expands disk max base dir ms (.cond sp c (.mk os ss bs) (some (.mk os' us bs')) :: xs)
        (.cond sp c (.mk os ss' bs) (some (.mk os' us' bs')) :: ys) end_
  | loop {dir : Text} {sp : Span} {c : Expr} {os : List Assign} {bs : Span} {ms ms' ms'' : List Met}
      {ss ss' xs ys : List Stmt} (h : Expands disk max base dir ms ss ss' ms')
      (hrest : Expands disk max base dir ms' xs ys ms'') :
      Expands disk max base dir ms (.loop sp c (.mk os ss bs) :: xs) (.loop sp c (.mk os ss' bs) :: ys) ms''
  | forLoop {dir : Text} {sp : Span} {i st : Option Assign} {c : Option Expr} {os : List Assign} {bs : Span}
      {ms ms' ms'' : List Met} {ss ss' xs ys : List Stmt} (h : Expands disk max base dir ms ss ss' ms')
      (hrest : Expands disk max base dir ms' xs ys ms'') :
      Expands disk max base dir ms (.forLoop sp i c st (.mk os ss bs) :: xs)
        (.forLoop sp i c st (.mk os ss' bs) :: ys) ms''
  | funcDef {dir n : Text} {sp ns : Span} {ps : List Param} {os : List Assign} {bs : Span}
      {ms ms' ms'' : List Met} {ss ss' xs ys : List Stmt} (h : Expands disk max base dir ms ss ss' ms')
      (hrest : Expands disk max base dir ms' xs ys ms'') :
      Expands disk max base dir ms (.funcDef sp n ns ps (.mk os ss bs) :: xs)
        (.funcDef sp n ns ps (.mk os ss' bs) :: ys) ms''

/-- What a block expands to. -/
def Block.Expands (disk : Disk) (max base : Nat) (dir : Text) (before : List Met) (b b' : Block)
    (after : List Met) : Prop :=
  b'.overrides = b.overrides ∧ b'.span = b.span
    ∧ AisScript.Expands disk max base dir before b.stmts b'.stmts after

section Expansions

variable {disk : Disk} {max base : Nat} {dir : Text}

/-! ### One expansion at most -/

/-- There is one expansion at most. -/
theorem Expands.unique {ms ms₁ ms₂ : List Met} {ss xs ys : List Stmt}
    (h₁ : Expands disk max base dir ms ss xs ms₁) (h₂ : Expands disk max base dir ms ss ys ms₂) :
    xs = ys ∧ ms₁ = ms₂ := by
  -- By induction on the first expansion; the second one has to apply the same rule.
  induction h₁ generalizing ys ms₂ with
  | nil =>
    cases h₂
    exact ⟨rfl, rfl⟩
  | plain h _ ih =>
    cases h₂ with
    | plain _ hrest =>
      obtain ⟨rfl, rfl⟩ := ih hrest
      exact ⟨rfl, rfl⟩
    | _ => exact nomatch h
  | first hnew hload _ _ ihfile ih =>
    cases h₂ with
    -- The rule is told by the statement, by what has been met, and by what the disk has to say.
    | plain h => exact nomatch h
    | first _ hload' hfile hrest =>
      -- Both load the same file.
      obtain rfl := Except.ok.inj (hload.symm.trans hload')
      obtain ⟨rfl, rfl⟩ := ihfile hfile
      obtain ⟨rfl, rfl⟩ := ih hrest
      exact ⟨rfl, rfl⟩
    | missing _ hload' => exact nomatch hload.symm.trans hload'
    | later hknown => exact absurd hknown hnew
  | missing hnew hload _ ih =>
    cases h₂ with
    -- A file cannot both load and fail to load.
    | plain h => exact nomatch h
    | first _ hload' => exact nomatch hload.symm.trans hload'
    | missing _ _ hrest => exact ih hrest
    | later hknown => exact absurd hknown hnew
  | later hknown _ ih =>
    cases h₂ with
    | plain h => exact nomatch h
    -- A path that was met is not met for the first time.
    | first hnew => exact absurd hknown hnew
    | missing hnew => exact absurd hknown hnew
    | later _ hrest => exact ih hrest
  | condElse _ _ _ iht ihf ih =>
    cases h₂ with
    | plain h => exact nomatch h
    -- Both blocks, the second behind what the first has met.
    | condElse ht hf hrest =>
      obtain ⟨rfl, rfl⟩ := iht ht
      obtain ⟨rfl, rfl⟩ := ihf hf
      obtain ⟨rfl, rfl⟩ := ih hrest
      exact ⟨rfl, rfl⟩
  | block _ _ ihblock ih | cond _ _ ihblock ih | loop _ _ ihblock ih | forLoop _ _ ihblock ih
  | funcDef _ _ ihblock ih =>
    cases h₂ with
    | plain h => exact nomatch h
    -- Statements with one block in them.
    | _ =>
      rename_i h hrest
      obtain ⟨rfl, rfl⟩ := ihblock h
      obtain ⟨rfl, rfl⟩ := ih hrest
      exact ⟨rfl, rfl⟩

/-! ### What the requires met satisfy -/

/-- One more require that was met. -/
private theorem Met.knows_concat (ms : List Met) (m : Met) (k : Text) :
    Met.Knows (ms ++ [m]) k ↔ Met.Knows ms k ∨ k = m.key := by
  simp [Met.Knows]

/-- Between two lists of requires that were met, every file was brought in by the first require of its
path, and it is what stands on the disk under that path. -/
inductive Met.Grows (disk : Disk) (ms : List Met) : List Met → Prop where
  | refl : Met.Grows disk ms ms
  | passed {ms' : List Met} (h : Met.Grows disk ms ms') (key : Text) : Met.Grows disk ms (ms' ++ [⟨key, none⟩])
  | brought {ms' : List Met} {p : Text} {f : SourceFile} (h : Met.Grows disk ms ms')
      (hnew : ¬Met.Knows ms' (Path.absolute disk.cwd p)) (hclean : Path.clean p = p)
      (hload : disk.load p = .ok f) : Met.Grows disk ms (ms' ++ [⟨Path.absolute disk.cwd p, some f⟩])

/-- Growing and growing again. -/
theorem Met.Grows.trans {ms ms' ms'' : List Met} (h : Met.Grows disk ms ms') (h' : Met.Grows disk ms' ms'') :
    Met.Grows disk ms ms'' := by
  induction h' with
  | refl => exact h
  | passed _ key ih => exact ih.passed key
  | brought _ hnew hclean hload ih => exact ih.brought hnew hclean hload

/-- What was met before is met first. -/
private theorem Met.Grows.isPrefix {ms ms' : List Met} (h : Met.Grows disk ms ms') : ms <+: ms' := by
  induction h with
  | refl => exact List.prefix_refl ms
  | passed _ _ ih | brought _ _ _ _ ih => exact ih.trans (List.prefix_append _ _)

/-- A path that a require names is clean. -/
private theorem clean_requirePath (path dir : Text) :
    Path.clean (requirePath path dir) = requirePath path dir := by
  simp only [requirePath]
  split <;> split <;> exact Path.clean_clean _

/-- The requires met during an expansion. -/
theorem Expands.grows {ms ms' : List Met} {ss xs : List Stmt} (h : Expands disk max base dir ms ss xs ms') :
    Met.Grows disk ms ms' := by
  induction h with
  | nil => exact .refl
  | plain _ _ ih => exact ih
  | first hnew hload _ _ ihfile ih =>
    exact ((Met.Grows.refl.brought hnew (clean_requirePath _ _) hload).trans ihfile).trans ih
  | missing _ _ _ ih | later _ _ ih => exact (Met.Grows.refl.passed _).trans ih
  | condElse _ _ _ iht ihf ih => exact (iht.trans ihf).trans ih
  | block _ _ ihblock ih | cond _ _ ihblock ih | loop _ _ ihblock ih | forLoop _ _ ihblock ih
  | funcDef _ _ ihblock ih => exact ihblock.trans ih

/-- Every file is listed under its own absolute path, which no require before it named, and can be loaded
from there. -/
structure Met.Sound (disk : Disk) (ms : List Met) : Prop where
  fresh : ms.Pairwise fun a b => b.file.isSome → a.key ≠ b.key
  loaded : ∀ m ∈ ms, ∀ f, m.file = some f → m.key = Path.absolute disk.cwd f.path ∧ disk.load f.path = .ok f

/-- One more require that was met. -/
theorem Met.Sound.concat {ms : List Met} {m : Met} (h : Met.Sound disk ms)
    (hfresh : m.file.isSome → ¬Met.Knows ms m.key)
    (hloaded : ∀ f, m.file = some f → m.key = Path.absolute disk.cwd f.path ∧ disk.load f.path = .ok f) :
    Met.Sound disk (ms ++ [m]) where
  fresh := by
    -- Those before are fresh by assumption, and the new one by freshness.
    refine List.pairwise_append.2 ⟨h.fresh, List.pairwise_singleton _ _, fun a ha b hb hsome => ?_⟩
    rw [List.mem_singleton.1 hb] at hsome ⊢
    exact fun heq => hfresh hsome (heq ▸ List.mem_map_of_mem ha)
  loaded := by
    -- The file of the new require was loaded from its own path.
    intro a ha f hf
    rcases List.mem_append.1 ha with ha | ha
    · exact h.loaded a ha f hf
    · rw [List.mem_singleton.1 ha] at hf ⊢
      exact hloaded f hf

/-- The path of a file that was loaded. -/
private theorem Disk.path_of_load {d : Disk} {p : Text} {f : SourceFile} (h : d.load p = .ok f) :
    f.path = Path.clean p ∧ f.flags.isVirtual = false := by
  simp only [Disk.load, bind, Except.bind] at h
  cases hread : d.read p with
  | error e => rw [hread] at h; cases h
  | ok bytes =>
    rw [hread] at h
    cases h
    exact ⟨rfl, rfl⟩

/-- Growing keeps the files sound. -/
theorem Met.Grows.sound {ms ms' : List Met} (h : Met.Grows disk ms ms') (hs : Met.Sound disk ms) :
    Met.Sound disk ms' := by
  induction h with
  | refl => exact hs
  | passed _ _ ih => exact ih.concat nofun nofun
  | brought _ hnew hclean hload ih =>
    have hpath := (Disk.path_of_load hload).1.trans hclean
    refine ih.concat (fun _ => hnew) fun g hg => ?_
    cases hg
    rw [hpath]
    exact ⟨rfl, hload⟩

/-- A file that was loaded stands at the place of its path. -/
private theorem Disk.place_of_load {d : Disk} {p : Text} {f : SourceFile} (h : d.load p = .ok f) :
    ∃ place bytes, d.locate p = .ok place ∧ (place, DiskEntry.file bytes) ∈ d.entries := by
  -- What is looked up is an entry.
  have hlookup : ∀ (es : List (List Text × DiskEntry)) (q : List Text) (e : DiskEntry),
      es.lookup q = some e → (q, e) ∈ es := by
    intro es q e
    induction es with
    | nil => exact nofun
    | cons x es ih =>
      obtain ⟨q', e'⟩ := x
      rw [List.lookup_cons]
      split
      · rename_i heq
        intro he
        rw [eq_of_beq heq, Option.some.inj he]
        exact List.mem_cons_self
      · exact fun he => List.mem_cons_of_mem _ (ih he)
  -- Loading finds the place, then an entry, then its bytes.
  simp only [Disk.load, Disk.read, Disk.find, bind, Except.bind] at h
  cases hplace : d.locate p with
  | error cause => simp [hplace] at h
  | ok place =>
    cases hentry : d.entry? place with
    | none => simp [hplace, hentry] at h
    | some e =>
      cases e with
      | folder => simp [hplace, hentry] at h
      | file bytes => exact ⟨place, bytes, rfl, hlookup _ _ _ hentry⟩

/-- Paths that lead to one place have one absolute path. -/
private theorem Disk.absolute_eq_of_locate {d : Disk} (hcwd : Path.isAbsolute d.cwd = true) {p q : Text}
    {place : List Text} (hp : d.locate p = .ok place) (hq : d.locate q = .ok place) :
    Path.absolute d.cwd p = Path.absolute d.cwd q := by
  rw [Path.absolute_eq hcwd, Path.absolute_eq hcwd, ← Disk.aim_of_locate hp, ← Disk.aim_of_locate hq]

/-- The files brought in stand at different places. -/
theorem Met.Sound.places (hcwd : Path.isAbsolute disk.cwd = true) {ms : List Met} (h : Met.Sound disk ms) :
    (Met.files ms).Pairwise fun f g => disk.locate f.path ≠ disk.locate g.path := by
  refine List.pairwise_filterMap.2 ?_
  refine h.fresh.imp_of_mem fun {a b} ha hb hne f hf g hg hplace => ?_
  obtain ⟨hkey, _⟩ := h.loaded a ha f hf
  obtain ⟨hkey', hload⟩ := h.loaded b hb g hg
  obtain ⟨place, _, hlocate, _⟩ := Disk.place_of_load hload
  have hsome : b.file.isSome = true := by rw [hg]; rfl
  refine hne hsome ?_
  rw [hkey, hkey']
  exact Disk.absolute_eq_of_locate hcwd (hplace.trans hlocate) hlocate

/-! ### No requires are left -/

/-- There is no require in a plain statement. -/
private theorem Stmt.requireCount_of_isPlain {s : Stmt} (h : s.isPlain = true) :
    requireCount s.nodes = 0 := by
  cases s with
  | block | cond | loop | forLoop | funcDef | require => exact nomatch h
  | _ => simp [Stmt.nodes, exprNodes, Node.isRequire]

/-- There is no require in what statements expand to. -/
private theorem Expands.requireCount_eq_zero {ms ms' : List Met} {ss xs : List Stmt}
    (h : Expands disk max base dir ms ss xs ms') : requireCount (stmtsNodes xs) = 0 := by
  induction h with
  | nil => rfl
  | plain h _ ih => simp [stmtsNodes, Stmt.requireCount_of_isPlain h, ih]
  | first _ _ _ _ ihfile ih => simp [stmtsNodes_append, ihfile, ih]
  | missing _ _ _ ih | later _ _ ih => exact ih
  | condElse _ _ _ iht ihf ih =>
    simp [stmtsNodes, Stmt.nodes, Block.nodes, exprNodes, Node.isRequire, iht, ihf, ih]
  | block _ _ ihblock ih | cond _ _ ihblock ih | loop _ _ ihblock ih | forLoop _ _ ihblock ih
  | funcDef _ _ ihblock ih =>
    simp [stmtsNodes, Stmt.nodes, Block.nodes, exprNodes, Node.isRequire, ihblock, ih]

end Expansions

/-! ## Resolving follows the reference -/

/-- The paths of a disk that no require met so far names. -/
def Disk.unmet (d : Disk) (ms : List Met) : List Text :=
  (d.entries.map fun e => Path.ofComponents true e.1).filter fun p => p ∉ ms.map Met.key

/-- The more requires were met, the fewer paths are left. -/
private theorem Disk.length_unmet_le (d : Disk) {ms ms' : List Met} (h : ms <+: ms') :
    (d.unmet ms').length ≤ (d.unmet ms).length := by
  obtain ⟨new, rfl⟩ := h
  have hfilter : d.unmet (ms ++ new) = (d.unmet ms).filter fun p => p ∉ new.map Met.key := by
    rw [Disk.unmet, Disk.unmet, List.filter_filter]
    refine List.filter_congr fun p _ => ?_
    simp [not_or, Bool.and_comm]
  rw [hfilter]
  exact List.length_filter_le _ _

/-- The first require of a path to a file leaves fewer paths. -/
private theorem Disk.length_unmet_lt {d : Disk} (hcwd : Path.isAbsolute d.cwd = true) {ms : List Met}
    {p : Text} {f : SourceFile} (hload : d.load p = .ok f) (hnew : ¬Met.Knows ms (Path.absolute d.cwd p))
    (file : Option SourceFile) :
    (d.unmet (ms ++ [⟨Path.absolute d.cwd p, file⟩])).length < (d.unmet ms).length := by
  obtain ⟨place, bytes, hlocate, hentry⟩ := Disk.place_of_load hload
  -- The path was on the disk and had not been met.
  have hmem : Path.absolute d.cwd p ∈ d.unmet ms := by
    refine List.mem_filter.2 ⟨?_, by simpa [Met.Knows] using hnew⟩
    rw [Path.absolute_eq hcwd, ← Disk.aim_of_locate hlocate]
    exact List.mem_map.2 ⟨_, hentry, rfl⟩
  -- Behind the require the paths are those before without it.
  have hfilter : d.unmet (ms ++ [⟨Path.absolute d.cwd p, file⟩])
      = (d.unmet ms).filter fun q => q ≠ Path.absolute d.cwd p := by
    rw [Disk.unmet, Disk.unmet, List.filter_filter]
    refine List.filter_congr fun q _ => ?_
    simp [not_or, Bool.and_comm]
  rw [hfilter]
  exact List.length_filter_lt_length_iff_exists.2 ⟨_, hmem, by simp⟩

/-- A state of the resolution that has met these requires, and began with some files. -/
structure Requires.Follows (own : List SourceFile) (ms : List Met) (r : Requires) : Prop where
  included : ∀ k, k ∈ r.included ↔ Met.Knows ms k
  files : r.files.files = own ++ Met.files ms
  loaded : r.loaded = List.range' own.length (Met.files ms).length

/-- The requires met so far, with one that brought in nothing. -/
private theorem Met.files_passed (ms : List Met) (key : Text) :
    Met.files (ms ++ [⟨key, none⟩]) = Met.files ms := by
  simp [Met.files]

/-- The requires met so far, with one that brought in a file. -/
private theorem Met.files_brought (ms : List Met) (key : Text) (f : SourceFile) :
    Met.files (ms ++ [⟨key, some f⟩]) = Met.files ms ++ [f] := by
  simp [Met.files]

section Following

variable {disk : Disk} {max fuel : Nat} {own : List SourceFile} {dir : Text} {step : Include}

/-- As long as there is fuel for the paths that are left, a part of the resolution stands for what a
statement expands to, whatever comes behind it. -/
def Resolving.Follows (disk : Disk) (max fuel : Nat) (own : List SourceFile) (dir : Text) (s : Stmt)
    (x : Resolving (List Stmt)) : Prop :=
  ∀ r ms, r.Follows own ms → (disk.unmet ms).length < fuel →
    ∃ ms', (x r).2.Follows own ms' ∧ ∀ ss ys end_, Expands disk max own.length dir ms' ss ys end_ →
      Expands disk max own.length dir ms (s :: ss) ((x r).1 ++ ys) end_

mutual

/-- The requires of a statement. -/
private theorem Stmt.requires_follows
    (hstep : ∀ sp path, Resolving.Follows disk max fuel own dir (.require sp path) (step · sp path dir)) :
    (s : Stmt) → Resolving.Follows disk max fuel own dir s (s.requires step dir ·)
  | .require sp path => hstep sp path
  -- Requires inside a block are those of its statements.
  | .block (.mk os ss sp) => by
    intro r ms hr hfuel
    obtain ⟨ms', hexpands, hr'⟩ := requiresStmts_follows hstep ss r ms hr hfuel
    exact ⟨ms', hr', fun _ _ _ hrest => .block hexpands hrest⟩
  | .cond sp c (.mk os ss bs) none => by
    intro r ms hr hfuel
    obtain ⟨ms', hexpands, hr'⟩ := requiresStmts_follows hstep ss r ms hr hfuel
    exact ⟨ms', hr', fun _ _ _ hrest => .cond hexpands hrest⟩
  -- The second block goes on with what the first has met.
  | .cond sp c (.mk os ss bs) (some (.mk os' us bs')) => by
    intro r ms hr hfuel
    obtain ⟨ms', hthen, hr'⟩ := requiresStmts_follows hstep ss r ms hr hfuel
    -- Meeting more leaves no more paths, so the fuel is still enough.
    have hfuel' := Nat.lt_of_le_of_lt (disk.length_unmet_le hthen.grows.isPrefix) hfuel
    obtain ⟨ms'', helse, hr''⟩ := requiresStmts_follows hstep us _ ms' hr' hfuel'
    exact ⟨ms'', hr'', fun _ _ _ hrest => .condElse hthen helse hrest⟩
  | .loop sp c (.mk os ss bs) => by
    intro r ms hr hfuel
    obtain ⟨ms', hexpands, hr'⟩ := requiresStmts_follows hstep ss r ms hr hfuel
    exact ⟨ms', hr', fun _ _ _ hrest => .loop hexpands hrest⟩
  | .forLoop sp i c st (.mk os ss bs) => by
    intro r ms hr hfuel
    obtain ⟨ms', hexpands, hr'⟩ := requiresStmts_follows hstep ss r ms hr hfuel
    exact ⟨ms', hr', fun _ _ _ hrest => .forLoop hexpands hrest⟩
  | .funcDef sp n ns ps (.mk os ss bs) => by
    intro r ms hr hfuel
    obtain ⟨ms', hexpands, hr'⟩ := requiresStmts_follows hstep ss r ms hr hfuel
    exact ⟨ms', hr', fun _ _ _ hrest => .funcDef hexpands hrest⟩
  | .eval _ _ | .assign _ | .assignMember _ _ _ | .ret _ _ | .leave _ | .code _ _ | .bitfieldDef _ _
  -- There are no requires in these.
  | .enumDef _ _ => fun _ ms hr _ => ⟨ms, hr, fun _ _ _ hrest => .plain rfl hrest⟩

/-- The requires of statements. -/
private theorem requiresStmts_follows
    (hstep : ∀ sp path, Resolving.Follows disk max fuel own dir (.require sp path) (step · sp path dir)) :
    (ss : List Stmt) → ∀ r ms, r.Follows own ms → (disk.unmet ms).length < fuel →
      ∃ ms', Expands disk max own.length dir ms ss (requiresStmts step dir r ss).1 ms'
        ∧ (requiresStmts step dir r ss).2.Follows own ms'
  | [], _, ms, hr, _ => ⟨ms, .nil, hr⟩
  | s :: ss, r, ms, hr, hfuel => by
    obtain ⟨ms', hr', hs⟩ := Stmt.requires_follows hstep s r ms hr hfuel
    have hgrows := (hs [] [] ms' .nil).grows
    have hfuel' := Nat.lt_of_le_of_lt (disk.length_unmet_le hgrows.isPrefix) hfuel
    obtain ⟨ms'', hexpands, hr''⟩ := requiresStmts_follows hstep ss _ ms' hr' hfuel'
    exact ⟨ms'', hs _ _ _ hexpands, hr''⟩

end

/-- Including a file for the first time goes on with its own requires. -/
private theorem includeWithin_first (max fuel : Nat) {r : Requires} {path : Text} {f : SourceFile}
    (hnew : Path.absolute disk.cwd (requirePath path dir) ∉ r.included)
    (hload : disk.load (requirePath path dir) = .ok f) (sp : Span) :
    ∃ r' : Requires, r'.included = Path.absolute disk.cwd (requirePath path dir) :: r.included
      ∧ r'.files.files = r.files.files ++ [f] ∧ r'.loaded = r.loaded ++ [r.files.files.length]
      ∧ includeWithin disk max (fuel + 1) r sp path dir = requiresStmts (includeWithin disk max fuel)
          (f.dir disk.cwd) r' (parse r.files.files.length max f.content).program.stmts := by
  have hcontains : r.included.contains (Path.absolute disk.cwd (requirePath path dir)) = false := by
    rw [← Bool.not_eq_true, List.contains_iff_mem]
    exact hnew
  simp only [includeWithin, hcontains, hload]
  exact ⟨_, rfl, rfl, rfl, rfl⟩

/-- Including a file, with fuel for the paths that are left. -/
private theorem includeWithin_follows (hcwd : Path.isAbsolute disk.cwd = true) (sp : Span) (path dir : Text) :
    Resolving.Follows disk max fuel own dir (.require sp path)
      (includeWithin disk max fuel · sp path dir) := by
  -- By induction on the fuel, which is more than the paths that are left.
  induction fuel generalizing sp path dir with
  | zero => exact fun _ _ _ hfuel => absurd hfuel (Nat.not_lt_zero _)
  | succ fuel ih =>
    intro r ms hr hfuel
    -- The path was met before, so nothing is included.
    by_cases hknown : Met.Knows ms (Path.absolute disk.cwd (requirePath path dir))
    · have hcontains : r.included.contains (Path.absolute disk.cwd (requirePath path dir)) = true :=
        List.contains_iff_mem.2 ((hr.included _).2 hknown)
      simp only [includeWithin, hcontains, if_true]
      refine ⟨_, ⟨fun k => ?_, ?_, ?_⟩, fun _ _ _ hrest => .later hknown hrest⟩
      · rw [Met.knows_concat, hr.included]
        exact ⟨.inl, fun h => h.elim id fun heq => heq ▸ hknown⟩
      · rw [Met.files_passed, hr.files]
      · rw [Met.files_passed, hr.loaded]
    · have hnew : Path.absolute disk.cwd (requirePath path dir) ∉ r.included :=
        fun h => hknown ((hr.included _).1 h)
      -- In the other cases the path is met now.
      have hcons : ∀ (file : Option SourceFile) (k : Text),
          k ∈ Path.absolute disk.cwd (requirePath path dir) :: r.included
            ↔ Met.Knows (ms ++ [⟨Path.absolute disk.cwd (requirePath path dir), file⟩]) k := by
        intro file k
        rw [Met.knows_concat, List.mem_cons, hr.included, or_comm]
      -- Without a file at the path only a report is left.
      cases hload : disk.load (requirePath path dir) with
      | error e =>
        have hcontains : r.included.contains (Path.absolute disk.cwd (requirePath path dir)) = false := by
          rw [← Bool.not_eq_true, List.contains_iff_mem]
          exact hnew
        simp only [includeWithin, hcontains, hload]
        refine ⟨_, ⟨hcons none, ?_, ?_⟩, fun _ _ _ hrest => .missing hknown hload hrest⟩
        · rw [Met.files_passed, ← hr.files]
          rfl
        · rw [Met.files_passed, ← hr.loaded]
          rfl
      | ok f =>
        -- With a file there is one path less, so the fuel is enough for the requires inside.
        have hless := Disk.length_unmet_lt hcwd hload hknown (some f)
        have hcount : r.files.files.length = own.length + (Met.files ms).length := by
          rw [hr.files, List.length_append]
        obtain ⟨r₁, hincluded, hfiles, hloaded, heq⟩ := includeWithin_first max fuel hnew hload sp
        -- The file joins those that were met, added and loaded.
        have hr₁ : r₁.Follows own (ms ++ [⟨Path.absolute disk.cwd (requirePath path dir), some f⟩]) := by
          refine ⟨fun k => by rw [hincluded]; exact hcons (some f) k, ?_, ?_⟩
          · rw [hfiles, hr.files, Met.files_brought, List.append_assoc]
          · rw [hloaded, hr.loaded, hcount, Met.files_brought, List.length_append, List.length_singleton,
              List.range'_1_concat]
        -- The requires of the file have one path less left.
        obtain ⟨ms', hexpands, hr'⟩ := requiresStmts_follows (fun sp path => ih sp path (f.dir disk.cwd))
          (parse r.files.files.length max f.content).program.stmts r₁ _ hr₁ (by omega)
        simp only [heq]
        refine ⟨ms', hr', fun _ _ _ hrest => .first hknown hload ?_ hrest⟩
        rw [← hcount]
        exact hexpands

end Following

/-! ## Resolving -/

section Resolving

variable {disk : Disk} {max base : Nat}

/-- A block has one expansion at most. -/
theorem Block.Expands.unique {dir : Text} {ms ms₁ ms₂ : List Met} {b b₁ b₂ : Block}
    (h₁ : Block.Expands disk max base dir ms b b₁ ms₁) (h₂ : Block.Expands disk max base dir ms b b₂ ms₂) :
    b₁ = b₂ ∧ ms₁ = ms₂ := by
  obtain ⟨os, ss, sp⟩ := b
  obtain ⟨os₁, ss₁, sp₁⟩ := b₁
  obtain ⟨os₂, ss₂, sp₂⟩ := b₂
  obtain ⟨rfl, rfl, h₁⟩ := h₁
  obtain ⟨rfl, rfl, h₂⟩ := h₂
  obtain ⟨rfl, rfl⟩ : ss₁ = ss₂ ∧ ms₁ = ms₂ := AisScript.Expands.unique h₁ h₂
  exact ⟨rfl, rfl⟩

/-- There is no require in what a block expands to. -/
private theorem Block.Expands.requireCount_eq_zero {dir : Text} {ms ms' : List Met} {b b' : Block}
    (h : Block.Expands disk max base dir ms b b' ms') : requireCount b'.nodes = 0 := by
  obtain ⟨os, ss, sp⟩ := b'
  rw [Block.nodes, requireCount_append, requireCount_overrides]
  exact (Nat.zero_add _).trans h.2.2.requireCount_eq_zero

/-- The requires met before a program: its own file counts as one, unless it is in memory only. -/
def SourceFile.met (cwd : Text) (file : SourceFile) : List Met :=
  if file.flags.isVirtual then [] else [⟨Path.absolute cwd file.path, none⟩]

/-- Resolving the requires of a program gives what it expands to. -/
private theorem Block.resolve_follows (hcwd : Path.isAbsolute disk.cwd = true) (max : Nat) (files : FileSet)
    (reporter : Reporter) (file : SourceFile) (program : Block) :
    ∃ ms, Block.Expands disk max files.files.length (file.dir disk.cwd) (file.met disk.cwd) program
        (program.resolve disk max files reporter file).1 ms
      ∧ (program.resolve disk max files reporter file).2.Follows files.files ms := by
  obtain ⟨os, ss, sp⟩ := program
  -- The main file is met at the start, unless it is virtual.
  have hstart : Requires.Follows files.files (file.met disk.cwd)
      { files, reporter
        included := if file.flags.isVirtual then [] else [Path.absolute disk.cwd file.path] } := by
    unfold SourceFile.met
    split
    · exact ⟨fun _ => Iff.rfl, (List.append_nil _).symm, rfl⟩
    · exact ⟨fun _ => Iff.rfl, (List.append_nil _).symm, rfl⟩
  -- The disk has fewer paths than there is fuel.
  have hfuel : (disk.unmet (file.met disk.cwd)).length < disk.entries.length + 1 := by
    have hle := List.length_filter_le (fun p => decide (p ∉ (file.met disk.cwd).map Met.key))
      (disk.entries.map fun e => Path.ofComponents true e.1)
    rw [List.length_map] at hle
    exact Nat.lt_succ_of_le hle
  obtain ⟨ms, hexpands, hfollows⟩ := requiresStmts_follows
    (fun sp path => includeWithin_follows hcwd sp path (file.dir disk.cwd)) ss _ _ hstart hfuel
  exact ⟨ms, ⟨rfl, rfl, hexpands⟩, hfollows⟩

/-- Resolving the requires of a program from the disk gives the one expansion there is, and no require is
left in it.  The files brought in are those on the disk, every one at a place of its own which is not
that of the program; they are added and listed in the order in which they are first required. -/
theorem Block.resolve_expands (hcwd : Path.isAbsolute disk.cwd = true) (max : Nat) (files : FileSet)
    (reporter : Reporter) {path : Text} {file : SourceFile} (hmain : disk.load path = .ok file)
    (program : Block) :
    let (result, reqs) := program.resolve disk max files reporter file
    let Expansion := Block.Expands disk max files.files.length (file.dir disk.cwd)
      [⟨Path.absolute disk.cwd file.path, none⟩] program
    ∃ ms, Expansion result ms
      ∧ (∀ other ms', Expansion other ms' → other = result ∧ ms' = ms)
      ∧ requireCount result.nodes = 0
      ∧ (∀ f ∈ Met.files ms, disk.load f.path = .ok f ∧ disk.locate f.path ≠ disk.locate path)
      ∧ (Met.files ms).Pairwise (fun f g => disk.locate f.path ≠ disk.locate g.path)
      ∧ reqs.files.files = files.files ++ Met.files ms
      ∧ reqs.loaded = List.range' files.files.length (Met.files ms).length := by
  obtain ⟨ms, hexpands, hfollows⟩ := Block.resolve_follows hcwd max files reporter file program
  obtain ⟨hpath, hvirtual⟩ := Disk.path_of_load hmain
  -- A file from the disk is not virtual.
  have hmet : file.met disk.cwd = [⟨Path.absolute disk.cwd file.path, none⟩] := by
    rw [SourceFile.met, hvirtual]
    rfl
  rw [hmet] at hexpands
  have hgrows := hexpands.2.2.grows
  -- The main file was met but is not brought in.
  have hstart : Met.Sound disk [⟨Path.absolute disk.cwd file.path, none⟩] := by
    refine ⟨List.pairwise_singleton _ _, fun m hm f hf => ?_⟩
    rw [List.mem_singleton.1 hm] at hf
    exact nomatch hf
  have hsound := hgrows.sound hstart
  refine ⟨ms, hexpands, fun other ms' h => ?_, hexpands.requireCount_eq_zero, fun f hf => ?_,
    hsound.places hcwd, hfollows.files, hfollows.loaded⟩
  · exact h.unique hexpands
  · obtain ⟨m, hm, hfile⟩ := List.mem_filterMap.1 hf
    -- A file that was brought in was loaded from the path that it was met under.
    obtain ⟨hkey, hload⟩ := hsound.loaded m hm f hfile
    refine ⟨hload, fun hplace => ?_⟩
    -- The program's own path is met before everything else.
    obtain ⟨rest, rfl⟩ := hgrows.isPrefix
    have hrest : m ∈ rest := by
      rcases List.mem_append.1 hm with hm | hm
      · rw [List.mem_singleton.1 hm] at hfile
        exact nomatch hfile
      · exact hm
    have hsome : m.file.isSome = true := by rw [hfile]; rfl
    refine (List.pairwise_append.1 hsound.fresh).2.2 _ (List.mem_singleton.2 rfl) m hrest hsome ?_
    -- The place of the main file has one absolute path, which is not that of the file.
    obtain ⟨place, _, hlocate, _⟩ := Disk.place_of_load hmain
    have hown : Path.absolute disk.cwd file.path = Path.absolute disk.cwd path := by
      rw [hpath, Path.absolute_eq hcwd, Path.absolute_eq hcwd, Disk.aim_clean]
    rw [hkey]
    exact hown.trans (Disk.absolute_eq_of_locate hcwd hlocate (hplace.trans hlocate))

end Resolving

/-- Two files that require each other, and themselves. -/
def crossing : Disk where
  cwd := "/w"
  entries := [([], .folder), (["w"], .folder), (["w", "a.redux"], .file "require \"b\" def f() require \"b\" end"),
    (["w", "b.redux"], .file "require \"a\" require \"./b.redux\" require \"c\"")]

/-- The first of the two, as it is read. -/
def crossingMain : SourceFile := .ofDisk "a.redux" "require \"b\" def f() require \"b\" end"

/-- Resolving the first of the two files ends, with no require left. -/
theorem crossing_resolved :
    let program := (parse 0 100 crossingMain.content).program
    ∃ result ms, program.Expands crossing 100 1 "." [⟨"/w/a.redux", none⟩] result ms
      ∧ requireCount result.nodes = 0 := by
  have hload : crossing.load "a.redux" = .ok crossingMain := by rfl
  obtain ⟨ms, hexpands, _, hcount, _⟩ := Block.resolve_expands (by decide) 100 ⟨[crossingMain]⟩
    { bag := Bag.new 100 } hload (parse 0 100 crossingMain.content).program
  exact ⟨_, ms, hexpands, hcount⟩

end AisScript
