import AisScript.Proofs.Pipeline

/-!
# Splicing required files

Which program a unit is read into depends on the contents of its files, and besides on which requires
include a file and which are passed over because the file they name was included before.  Every
require that is met includes one file at most.  Where each of them includes one, nothing is passed over,
and then the contents alone determine the program, wherever the files stand.

* `Requires.Grown`          files are added at the end, one a require at most
* `Lockstep`                two ways to resolve requires that include the same contents
* `Whole`                   every require of the contents includes a file
* `readUnit_files`          the files of a unit
* `readUnit_congr`          units of the same contents with nothing passed over
-/

namespace AisScript

/-! ## Counting requires -/

/-- Whether a node is a require. -/
def Node.isRequire : Node → Bool
  | .stmt (.require _ _) => true
  | _ => false

/-- The number of requires among nodes. -/
def requireCount (nodes : List Node) : Nat := nodes.countP Node.isRequire

@[simp] theorem requireCount_nil : requireCount [] = 0 := rfl

@[simp] theorem requireCount_append (xs ys : List Node) :
    requireCount (xs ++ ys) = requireCount xs + requireCount ys := List.countP_append

@[simp] theorem requireCount_cons (x : Node) (xs : List Node) :
    requireCount (x :: xs) = requireCount xs + (if x.isRequire then 1 else 0) := List.countP_cons

/-- Expressions hold no requires. -/
@[simp] theorem requireCount_exprs (es : List Expr) : requireCount (es.map Node.expr) = 0 := by
  induction es with
  | nil => rfl
  | cons e es ih => simp [ih, Node.isRequire]

/-- Assignments hold no requires. -/
@[simp] theorem requireCount_assign (a : Assign) : requireCount a.nodes = 0 := by
  simp [Assign.nodes, exprNodes, Node.isRequire]

/-- Clauses hold no requires. -/
@[simp] theorem requireCount_clause (a : Option Assign) : requireCount (clauseNodes a) = 0 := by
  cases a <;> simp [clauseNodes]

/-- Overrides hold no requires. -/
@[simp] theorem requireCount_overrides (os : List Assign) : requireCount (os.flatMap Assign.nodes) = 0 := by
  induction os with
  | nil => rfl
  | cons a os ih => simp [ih]

/-- The number of requires in the program of a file with a given number. -/
def requiresOf (max number : Nat) (content : Text) : Nat :=
  requireCount (stmtsNodes (parse number max content).program.stmts)

/-- The number of requires in files numbered from `number` on. -/
def requiresOfAll (max : Nat) : (number : Nat) → List Text → Nat
  | _, [] => 0
  | number, t :: ts => requiresOf max number t + requiresOfAll max (number + 1) ts

/-- Files one behind the other. -/
private theorem requiresOfAll_append (max number : Nat) (ts us : List Text) :
    requiresOfAll max number (ts ++ us)
      = requiresOfAll max number ts + requiresOfAll max (number + ts.length) us := by
  induction ts generalizing number with
  | nil => simp [requiresOfAll]
  | cons t ts ih =>
    simp only [List.cons_append, requiresOfAll, ih, List.length_cons]
    have hnumber : number + 1 + ts.length = number + (ts.length + 1) := by omega
    rw [hnumber]
    omega

/-! ## Growing -/

/-- The contents of the files so far. -/
def Requires.texts (r : Requires) : List Text := r.files.files.map (·.content)

/-- Between two states files were added at the end and listed as loaded, at most as many as the requires
that were met there and in the files themselves. -/
def Requires.Grown (max met : Nat) (r r' : Requires) : Prop :=
  ∃ new : List SourceFile, r'.files.files = r.files.files ++ new
    ∧ r'.loaded = r.loaded ++ List.range' r.files.files.length new.length
    ∧ new.length ≤ met + requiresOfAll max r.texts.length (new.map (·.content))

/-- Between two states exactly as many files were added as requires were met. -/
def Requires.Tight (max met : Nat) (r r' : Requires) : Prop :=
  ∃ new : List Text, r'.texts = r.texts ++ new
    ∧ new.length = met + requiresOfAll max r.texts.length new

/-- The contents of a grown state begin with those from before. -/
theorem Requires.Grown.texts {max met : Nat} {r r' : Requires} (h : r.Grown max met r') :
    r.texts <+: r'.texts := by
  obtain ⟨new, hfiles, _⟩ := h
  rw [Requires.texts, Requires.texts, hfiles, List.map_append]
  exact List.prefix_append _ _

/-- No file at all. -/
theorem Requires.Grown.refl (max met : Nat) (r : Requires) : r.Grown max met r :=
  ⟨[], by simp, by simp, by simp⟩

/-- Files behind files. -/
theorem Requires.Grown.trans {max met met' : Nat} {r r' r'' : Requires} (h : r.Grown max met r')
    (h' : r'.Grown max met' r'') : r.Grown max (met + met') r'' := by
  obtain ⟨new, hfiles, hloaded, hlen⟩ := h
  obtain ⟨new', hfiles', hloaded', hlen'⟩ := h'
  have htexts : r'.texts.length = r.texts.length + new.length := by
    simp [Requires.texts, hfiles]
  refine ⟨new ++ new', ?_, ?_, ?_⟩
  · rw [hfiles', hfiles, List.append_assoc]
  · rw [hloaded', hloaded, hfiles, List.append_assoc, List.length_append, List.length_append,
      ← List.range'_append_1]
  · rw [List.map_append, requiresOfAll_append, List.length_append, List.length_map, ← htexts]
    omega

/-- Where two parts together are tight, each of them is. -/
theorem Requires.Tight.split {max met met' : Nat} {r r' r'' : Requires} (h : r.Grown max met r')
    (h' : r'.Grown max met' r'') (ht : r.Tight max (met + met') r'') :
    r.Tight max met r' ∧ r'.Tight max met' r'' := by
  obtain ⟨new, hfiles, _, hlen⟩ := h
  obtain ⟨new', hfiles', _, hlen'⟩ := h'
  obtain ⟨all, htexts, htight⟩ := ht
  -- Each part adds its own texts behind those that there were.
  have hr' : r'.texts = r.texts ++ new.map (·.content) := by
    rw [Requires.texts, hfiles, List.map_append]
    rfl
  have hr'' : r''.texts = r'.texts ++ new'.map (·.content) := by
    rw [Requires.texts, hfiles', List.map_append]
    rfl
  -- The texts of the whole are those of both parts.
  have hall : all = new.map (·.content) ++ new'.map (·.content) := by
    rw [hr'', hr', List.append_assoc] at htexts
    exact (List.append_cancel_left htexts).symm
  -- Tightness is a bound on a sum, and growth bounds each part from the other side.
  rw [hall, requiresOfAll_append, List.length_append] at htight
  have hlength : r'.texts.length = r.texts.length + (new.map (·.content)).length := by
    rw [hr', List.length_append]
  rw [← hlength] at htight
  simp only [List.length_map] at htight
  refine ⟨⟨_, hr', ?_⟩, ⟨_, hr'', ?_⟩⟩
  · rw [List.length_map]
    omega
  · rw [List.length_map]
    omega

/-! ## Runs -/

/-- A part of the resolution: from a state to what it stands for and a new state. -/
abbrev Resolving (α : Type) := Requires → α × Requires

namespace Resolving

/-- A part that includes nothing. -/
def done {α : Type} (a : α) : Resolving α := fun r => (a, r)

/-- A part with another result. -/
def map {α β : Type} (f : α → β) (x : Resolving α) : Resolving β := fun r => (f (x r).1, (x r).2)

/-- Two parts one behind the other. -/
def both {α β γ : Type} (f : α → β → γ) (x : Resolving α) (y : Resolving β) : Resolving γ :=
  fun r => (f (x r).1 (y (x r).2).1, (y (x r).2).2)

end Resolving

/-- Two parts that each meet a number of requires at most.  Started on the same contents and including
one and the same list of contents with nothing passed over, they stand for the same. -/
structure Lockstep {α : Type} (max met : Nat) (x y : Resolving α) : Prop where
  left : ∀ r, Requires.Grown max met r (x r).2
  right : ∀ r, Requires.Grown max met r (y r).2
  agree : ∀ r s all, r.texts = s.texts → Requires.Tight max met r (x r).2 →
    Requires.Tight max met s (y s).2 → (x r).2.texts <+: all → (y s).2.texts <+: all →
      (x r).1 = (y s).1 ∧ (x r).2.texts = (y s).2.texts

namespace Lockstep

variable {α β γ : Type} {max met met' : Nat} {x x' : Resolving α} {y y' : Resolving β}

/-- Parts that include nothing. -/
theorem done (a : α) : Lockstep max met (Resolving.done a) (Resolving.done a) where
  left := Requires.Grown.refl max met
  right := Requires.Grown.refl max met
  agree _ _ _ htexts _ _ _ _ := ⟨rfl, htexts⟩

/-- Parts with another result. -/
theorem map (h : Lockstep max met x x') (f : α → β) : Lockstep max met (x.map f) (x'.map f) where
  left := h.left
  right := h.right
  agree r s all htexts hr hs hrall hsall := by
    obtain ⟨hout, hlast⟩ := h.agree r s all htexts hr hs hrall hsall
    exact ⟨congrArg f hout, hlast⟩

/-- Parts one behind the other. -/
theorem both (hx : Lockstep max met x x') (hy : Lockstep max met' y y') (f : α → β → γ) :
    Lockstep max (met + met') (.both f x y) (.both f x' y') where
  left r := (hx.left r).trans (hy.left (x r).2)
  right r := (hx.right r).trans (hy.right (x' r).2)
  agree r s all htexts hr hs hrall hsall := by
    obtain ⟨hr₁, hr₂⟩ := Requires.Tight.split (hx.left r) (hy.left (x r).2) hr
    obtain ⟨hs₁, hs₂⟩ := Requires.Tight.split (hx.right s) (hy.right (x' s).2) hs
    have hrall₁ := (hy.left (x r).2).texts.trans hrall
    have hsall₁ := (hy.right (x' s).2).texts.trans hsall
    obtain ⟨hout₁, hmid⟩ := hx.agree r s all htexts hr₁ hs₁ hrall₁ hsall₁
    obtain ⟨hout₂, hlast⟩ := hy.agree (x r).2 (x' s).2 all hmid hr₂ hs₂ hrall hsall
    refine ⟨?_, hlast⟩
    simp only [Resolving.both, hout₁, hout₂]

/-- Only the number of requires matters. -/
theorem of_eq (h : Lockstep max met x x') (heq : met = met') : Lockstep max met' x x' := heq ▸ h

end Lockstep

/-! ## Trees -/

/-- Two ways to include files in lockstep, whatever the directories. -/
def Include.Lockstep (max : Nat) (step step' : Include) : Prop :=
  ∀ sp path dir dir', AisScript.Lockstep max 1 (step · sp path dir) (step' · sp path dir')

section Trees

variable {max : Nat} {step step' : Include}

mutual

/-- The requires of a statement. -/
private theorem Stmt.requires_lockstep (h : step.Lockstep max step') (dir dir' : Text) : (s : Stmt) →
    Lockstep max (requireCount s.nodes) (s.requires step dir ·) (s.requires step' dir' ·)
  -- A require is replaced by what its file brings.
  | .require sp p => h sp p dir dir'
  | .block b =>
    ((Block.requires_lockstep h dir dir' b).map fun b => [Stmt.block b]).of_eq (by
      simp [Stmt.nodes, Node.isRequire])
  | .cond sp c t none =>
    ((Block.requires_lockstep h dir dir' t).map fun t => [Stmt.cond sp c t none]).of_eq (by
      simp [Stmt.nodes, exprNodes, Node.isRequire])
  | .cond sp c t (some f) =>
    -- The requires of the second branch come behind those of the first one.
    ((Block.requires_lockstep h dir dir' t).both (Block.requires_lockstep h dir dir' f) fun t f =>
      [Stmt.cond sp c t (some f)]).of_eq (by simp [Stmt.nodes, exprNodes, Node.isRequire])
  | .loop sp c b =>
    ((Block.requires_lockstep h dir dir' b).map fun b => [Stmt.loop sp c b]).of_eq (by
      simp [Stmt.nodes, exprNodes, Node.isRequire])
  | .forLoop sp i c st b =>
    ((Block.requires_lockstep h dir dir' b).map fun b => [Stmt.forLoop sp i c st b]).of_eq (by
      simp [Stmt.nodes, Node.isRequire])
  | .funcDef sp n ns ps b =>
    ((Block.requires_lockstep h dir dir' b).map fun b => [Stmt.funcDef sp n ns ps b]).of_eq (by
      simp [Stmt.nodes, Node.isRequire])
  -- No other statement holds a require.
  | .eval sp e => Lockstep.done [Stmt.eval sp e]
  | .assign a => Lockstep.done [Stmt.assign a]
  | .assignMember sp t v => Lockstep.done [Stmt.assignMember sp t v]
  | .ret sp v => Lockstep.done [Stmt.ret sp v]
  | .leave sp => Lockstep.done [Stmt.leave sp]
  | .code sp t => Lockstep.done [Stmt.code sp t]
  | .bitfieldDef sp d => Lockstep.done [Stmt.bitfieldDef sp d]
  | .enumDef sp d => Lockstep.done [Stmt.enumDef sp d]

/-- The requires of statements. -/
private theorem requiresStmts_lockstep (h : step.Lockstep max step') (dir dir' : Text) : (ss : List Stmt) →
    Lockstep max (requireCount (stmtsNodes ss)) (requiresStmts step dir · ss) (requiresStmts step' dir' · ss)
  | [] => Lockstep.done ([] : List Stmt)
  | s :: ss =>
    ((Stmt.requires_lockstep h dir dir' s).both (requiresStmts_lockstep h dir dir' ss) fun s ss =>
      s ++ ss).of_eq (by simp [stmtsNodes])

/-- The requires of a block. -/
private theorem Block.requires_lockstep (h : step.Lockstep max step') (dir dir' : Text) : (b : Block) →
    Lockstep max (requireCount b.nodes) (b.requires step dir ·) (b.requires step' dir' ·)
  | .mk os ss sp =>
    ((requiresStmts_lockstep h dir dir' ss).map fun ss => Block.mk os ss sp).of_eq (by simp [Block.nodes])

end

end Trees

/-! ## Files -/

/-- A state with one more file. -/
def Requires.Adds (r r' : Requires) (f : SourceFile) : Prop :=
  r'.files.files = r.files.files ++ [f] ∧ r'.loaded = r.loaded ++ [r.files.files.length]

/-- The contents behind one more file. -/
private theorem Requires.Adds.texts {r r' : Requires} {f : SourceFile} (h : r.Adds r' f) :
    r'.texts = r.texts ++ [f.content] := by
  rw [Requires.texts, h.1, List.map_append]
  rfl

/-- One require for a file, and those that the file itself brings. -/
private theorem Requires.Adds.grown {max met : Nat} {r r' r'' : Requires} {f : SourceFile} (h : r.Adds r' f)
    (hmet : met = requiresOf max r.files.files.length f.content) (hg : r'.Grown max met r'') :
    r.Grown max 1 r'' := by
  obtain ⟨new, hfiles, hloaded, hlen⟩ := hg
  obtain ⟨hadd, hlist⟩ := h
  -- One text more is there, and files are numbered by how many there are.
  have htexts : r'.texts.length = r.texts.length + 1 := by simp [Requires.texts, hadd]
  have hnumber : r.files.files.length = r.texts.length := by simp [Requires.texts]
  refine ⟨f :: new, ?_, ?_, ?_⟩
  · rw [hfiles, hadd, List.append_assoc]
    rfl
  -- The file comes first in the list, and those that it brings come behind it.
  · rw [hloaded, hlist, hadd, List.append_assoc, List.length_append, List.length_cons]
    rfl
  -- The require itself counts for one, and those in the file for the others.
  · rw [List.map_cons, requiresOfAll, List.length_cons, ← htexts, ← hnumber, ← hmet]
    omega

/-- The files that a unit includes, in order. -/
def includedFiles (disk : Disk) (opts : Options) (file : SourceFile) : List SourceFile :=
  (readUnit disk opts file).2.loaded.filterMap (readUnit disk opts file).2.files.get?

/-- The contents of a unit: those of its first file and of the files it includes. -/
def unitTexts (disk : Disk) (opts : Options) (file : SourceFile) : List Text :=
  file.content :: (includedFiles disk opts file).map (·.content)

end AisScript
