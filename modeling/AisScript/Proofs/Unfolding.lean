import AisScript.Proofs.Hygiene
import Mathlib.Data.List.Forall2

/-!
# Unfoldings of programs with their calls entered

A code literal is passed through as it is: no renaming touches the names in its text.  Whether it still
speaks of the variables of its function once the function's body has been moved to a call is decided by
the calls around it.

The unfolding of a typed tree lists, in the order of the expansion, everything that will stand in the
place of its calls, with the bodies that the calls carry but without any new names; and all code
literals, each once for every call that brings it along.

* `Passage`           a code literal in one copy of its function
* `Passage.Keeps`     the variables of the copy that keep their names
* `Block.unfolded`     the unfolding of a tree
* `Mirrors`           an expanded tree and its unfolding use the same bindings
* `Mirrors.freshen`   a freshened body and its unfolding
-/

namespace AisScript

/-! ## Passages and unfoldings -/

/-- A code literal in one copy of the function it stands in. -/
structure Passage where
  span : Span
  text : Text
  /-- The variables of the copy in front of it, the parameters included, the innermost first. -/
  env : Env
  /-- The numbers of variables that a loop around it declares in a step behind it. -/
  moved : List Nat := []
  /-- Everything that stands in the place of the calls around it, the innermost call first. -/
  calls : List (List Node) := []

/-- A variable of the copy keeps its name and its place in front of the literal: no step that moves
declares it, and no call around the literal contests it. -/
def Passage.Keeps (p : Passage) (b : Binding) : Prop :=
  b.id ∉ p.moved ∧ ∀ nodes ∈ p.calls, ∀ n, (b.id, n) ∉ contested nodes

/-- A passage in one more call. -/
def Passage.within (nodes : List Node) (p : Passage) : Passage := { p with calls := p.calls ++ [nodes] }

/-- What will stand in the place of a tree: its nodes, and the code literals among them. -/
structure Unfolding where
  nodes : List Node := []
  passages : List Passage := []

/-- Unfoldings one behind the other. -/
instance : Append Unfolding := ⟨fun o o' => ⟨o.nodes ++ o'.nodes, o.passages ++ o'.passages⟩⟩

/-- Nodes without code literals. -/
def Unfolding.only (nodes : List Node) : Unfolding := ⟨nodes, []⟩

/-- The unfolding of a call: its parameters and arguments, and behind them its body. -/
def Unfolding.called (bound : List Node) (body : Unfolding) : Unfolding :=
  ⟨bound ++ body.nodes, body.passages.map (·.within (bound ++ body.nodes))⟩

@[simp] theorem Unfolding.nodes_append (o o' : Unfolding) : (o ++ o').nodes = o.nodes ++ o'.nodes := rfl

@[simp] theorem Unfolding.passages_append (o o' : Unfolding) :
    (o ++ o').passages = o.passages ++ o'.passages := rfl

theorem Unfolding.append_assoc (o o' o'' : Unfolding) : o ++ o' ++ o'' = o ++ (o' ++ o'') := by
  show Unfolding.mk _ _ = Unfolding.mk _ _
  simp

theorem Unfolding.append_nil (o : Unfolding) : o ++ {} = o := by
  show Unfolding.mk _ _ = o
  simp

@[simp] theorem Unfolding.nodes_only (xs : List Node) : (Unfolding.only xs).nodes = xs := rfl

@[simp] theorem Unfolding.passages_only (xs : List Node) : (Unfolding.only xs).passages = [] := rfl

mutual

/-- What is left of an expression in its own place: a call of one of the script's functions leaves
nothing. -/
def Expr.left : Expr → List Node
  | e@(.const _ _) | e@(.var _ _ _) => [.expr e]
  | .binary _ _ l r => l.left ++ r.left
  | .unary _ _ x => x.left
  | .member _ _ b _ _ => b.left
  | .query _ _ _ u x c => leftOption u ++ leftOption x ++ leftOption c
  | .call _ _ _ _ (.function _ _) => []
  | .call _ _ _ args _ => leftList args

/-- What is left of expressions. -/
def leftList : List Expr → List Node
  | [] => []
  | e :: es => e.left ++ leftList es

/-- What is left of an expression that may be absent. -/
def leftOption : Option Expr → List Node
  | none => []
  | some e => e.left

end

/-- The parameters of a call and what is left of its arguments. -/
def boundNodes (binds : List Assign) (args : List Expr) : List Node :=
  binds.map (fun a => .stmt (.assign a)) ++ leftList args

/-- The number of the variable that a step declares, if the step moves behind the body of its loop. -/
def movedNumber (st : Option Assign) : List Nat :=
  match st with
  | some a => if stepCalls st && a.info.declares then a.info.binding.toList.map (·.id) else []
  | none => []

mutual

/-- The unfolding of what is put in front of an expression. -/
def Expr.unfolded : Expr → Unfolding
  | .const _ _ | .var _ _ _ => {}
  | .binary _ _ l r => l.unfolded ++ r.unfolded
  | .unary _ _ x => x.unfolded
  | .member _ _ b _ _ => b.unfolded
  | .query _ _ _ u x c => unfoldedOption u ++ unfoldedOption x ++ unfoldedOption c
  | .call _ _ _ args (.function binds body) =>
    unfoldedList args ++ (body.unfolded (assignsBehind [] binds) []).called (boundNodes binds args)
  | .call _ _ _ args _ => unfoldedList args

/-- The unfolding of what is put in front of expressions. -/
def unfoldedList : List Expr → Unfolding
  | [] => {}
  | e :: es => e.unfolded ++ unfoldedList es

/-- The unfolding of what is put in front of an expression that may be absent. -/
def unfoldedOption : Option Expr → Unfolding
  | none => {}
  | some e => e.unfolded

/-- The unfolding of an assignment. -/
def Assign.unfolded : Assign → Unfolding
  | .mk i v => v.unfolded ++ .only (.stmt (.assign (.mk i v)) :: v.left)

/-- The unfolding of a clause that may be absent. -/
def unfoldedClause : Option Assign → Unfolding
  | none => {}
  | some a => a.unfolded

/-- The unfolding of a statement behind the variables of its function. -/
def Stmt.unfolded (ε : Env) (μ : List Nat) : Stmt → Unfolding
  | .block b => b.unfolded ε μ
  | .eval _ e | .ret _ e => e.unfolded ++ .only e.left
  | .assign a => a.unfolded
  | .assignMember _ t v => t.unfolded ++ v.unfolded ++ .only (t.left ++ v.left)
  | .cond _ c t f => c.unfolded ++ .only c.left ++ t.unfolded ε μ ++ unfoldedElse ε μ f
  | .loop _ c b => c.unfolded ++ .only c.left ++ b.unfolded ε μ
  | .forLoop _ i c st b =>
    unfoldedClause i ++ unfoldedOption c ++ .only (leftOption c)
      ++ b.unfolded (clauseBehind (clauseBehind ε i) st) (movedNumber st ++ μ) ++ unfoldedClause st
  | .code s t => ⟨[], [{ span := s, text := t, env := ε, moved := μ }]⟩
  | .leave _ | .bitfieldDef _ _ | .enumDef _ _ | .funcDef _ _ _ _ _ | .require _ _ => {}

/-- The unfolding of statements in order. -/
def unfoldedStmts (ε : Env) (μ : List Nat) : List Stmt → Unfolding
  | [] => {}
  | s :: ss => s.unfolded ε μ ++ unfoldedStmts (s.behind ε) μ ss

/-- The unfolding of a block. -/
def Block.unfolded (ε : Env) (μ : List Nat) : Block → Unfolding
  | .mk _ ss _ => unfoldedStmts ε μ ss

/-- The unfolding of an else block that may be absent. -/
def unfoldedElse (ε : Env) (μ : List Nat) : Option Block → Unfolding
  | none => {}
  | some b => b.unfolded ε μ

end

/-! ## Uses and declarations -/

/-- The nodes use a binding under a name. -/
def Uses (xs : List Node) (n : Text) (id : Nat) : Prop := ∃ x ∈ xs, x.use? = some (n, id)

/-- The nodes declare a binding. -/
def Declares (xs : List Node) (id : Nat) : Prop := ∃ x ∈ xs, x.declared? = some id

@[simp] theorem uses_nil (n : Text) (id : Nat) : Uses [] n id ↔ False := by simp [Uses]

@[simp] theorem declares_nil (id : Nat) : Declares [] id ↔ False := by simp [Declares]

@[simp] theorem uses_append (xs ys : List Node) (n : Text) (id : Nat) :
    Uses (xs ++ ys) n id ↔ Uses xs n id ∨ Uses ys n id := by
  simp only [Uses, List.mem_append]
  constructor
  · rintro ⟨x, hx | hx, hu⟩
    · exact .inl ⟨x, hx, hu⟩
    · exact .inr ⟨x, hx, hu⟩
  · rintro (⟨x, hx, hu⟩ | ⟨x, hx, hu⟩)
    · exact ⟨x, .inl hx, hu⟩
    · exact ⟨x, .inr hx, hu⟩

@[simp] theorem declares_append (xs ys : List Node) (id : Nat) :
    Declares (xs ++ ys) id ↔ Declares xs id ∨ Declares ys id := by
  simp only [Declares, List.mem_append]
  constructor
  · rintro ⟨x, hx | hx, hd⟩
    · exact .inl ⟨x, hx, hd⟩
    · exact .inr ⟨x, hx, hd⟩
  · rintro (⟨x, hx, hd⟩ | ⟨x, hx, hd⟩)
    · exact ⟨x, .inl hx, hd⟩
    · exact ⟨x, .inr hx, hd⟩

theorem uses_cons (x : Node) (xs : List Node) (n : Text) (id : Nat) :
    Uses (x :: xs) n id ↔ x.use? = some (n, id) ∨ Uses xs n id := by
  simp [Uses]

theorem declares_cons (x : Node) (xs : List Node) (id : Nat) :
    Declares (x :: xs) id ↔ x.declared? = some id ∨ Declares xs id := by
  simp [Declares]

/-- A binding is contested under a name if it is declared and used under it, and so is a binding that is
not declared. -/
private theorem mem_contested_iff {xs : List Node} {n : Text} {id : Nat} :
    (id, n) ∈ contested xs ↔ Uses xs n id ∧ Declares xs id ∧ ∃ f, Uses xs n f ∧ ¬Declares xs f := by
  simp only [mem_contested, List.mem_filterMap, Uses, Declares]

/-- Nodes that use and declare the same. -/
structure Alike (xs ys : List Node) : Prop where
  uses : ∀ n id, Uses xs n id ↔ Uses ys n id
  declares : ∀ id, Declares xs id ↔ Declares ys id

namespace Alike

variable {xs ys zs xs' ys' : List Node} {x : Node}

theorem refl (xs : List Node) : Alike xs xs := ⟨fun _ _ => Iff.rfl, fun _ => Iff.rfl⟩

theorem symm (h : Alike xs ys) : Alike ys xs := ⟨fun n id => (h.uses n id).symm, fun id => (h.declares id).symm⟩

theorem trans (h : Alike xs ys) (h' : Alike ys zs) : Alike xs zs :=
  ⟨fun n id => (h.uses n id).trans (h'.uses n id), fun id => (h.declares id).trans (h'.declares id)⟩

/-- Parts that are alike. -/
theorem append (h : Alike xs ys) (h' : Alike xs' ys') : Alike (xs ++ xs') (ys ++ ys') where
  uses n id := by rw [uses_append, uses_append, h.uses, h'.uses]
  declares id := by rw [declares_append, declares_append, h.declares, h'.declares]

/-- The order does not count. -/
theorem comm (xs ys : List Node) : Alike (xs ++ ys) (ys ++ xs) where
  uses n id := by rw [uses_append, uses_append, or_comm]
  declares id := by rw [declares_append, declares_append, or_comm]

/-- A node that uses and declares nothing does not count. -/
theorem cons (h : Alike xs ys) (hu : x.use? = none) (hd : x.declared? = none) : Alike (x :: xs) ys where
  uses n id := by
    rw [uses_cons, hu, h.uses]
    simp
  declares id := by
    rw [declares_cons, hd, h.declares]
    simp

end Alike

/-- What a renamed node uses. -/
private theorem Node.use?_rename (r : Renaming) (x : Node) :
    (x.rename r).use? = x.use?.map fun u => ((r.lookup u.2).getD u.1, u.2) := by
  cases x with
  | expr e =>
    cases e with
    | var i n b => cases b <;> rfl
    | _ => rfl
  | stmt s =>
    cases s with
    | assign a =>
      obtain ⟨⟨_, _, _, _, _, binding⟩, v⟩ := a
      cases binding <;> rfl
    | _ => rfl

/-- What a renamed node declares. -/
private theorem Node.declared?_rename (r : Renaming) (x : Node) : (x.rename r).declared? = x.declared? := by
  cases x with
  | expr e => cases e <;> rfl
  | stmt s =>
    cases s with
    | assign a =>
      obtain ⟨⟨_, _, _, _, _, _⟩, v⟩ := a
      rfl
    | _ => rfl

/-- Nodes that declare nothing and use only what is reached from a scope, under plain names. -/
structure OnlyReads (σ : Scope Entry) (xs : List Node) : Prop where
  silent : ∀ id, ¬Declares xs id
  reached : ∀ n id, Uses xs n id → n.isPlain = true ∧ ∃ b, Reaches σ n b ∧ b.id = id

/-- No nodes at all. -/
theorem OnlyReads.nil {σ : Scope Entry} : OnlyReads σ [] := ⟨by simp, by simp⟩

/-- Nodes one behind the other. -/
theorem OnlyReads.append {σ : Scope Entry} {xs ys : List Node} (hx : OnlyReads σ xs) (hy : OnlyReads σ ys) :
    OnlyReads σ (xs ++ ys) where
  silent id := by
    rw [declares_append, not_or]
    exact ⟨hx.silent id, hy.silent id⟩
  reached n id hu := by
    rw [uses_append] at hu
    rcases hu with hu | hu
    · exact hx.reached n id hu
    · exact hy.reached n id hu

/-! ## Expanded trees and their unfoldings -/

/-- Nodes `xs` of an expanded tree and nodes `ws` of its unfolding, in scope `σ` with `τ` behind the tree.
They declare the same bindings, numbered from `lo` up to `hi`, and use the same ones, except that those
in `R`, which a call inside the tree contests, have new names in the expanded tree. -/
structure Mirrors (σ τ : Scope Entry) (lo hi : Nat) (ws xs : List Node) (R : Nat → Prop) : Prop where
  kept : ∀ n id, Uses xs n id → n.isPlain = true → Uses ws n id ∧ ¬R id
  back : ∀ n id, Uses ws n id → ¬R id → Uses xs n id
  madeUp : ∀ n id, Uses xs n id → n.isPlain = false → R id
  declares : ∀ id, Declares xs id ↔ Declares ws id
  plain : ∀ n id, Uses ws n id → n.isPlain = true ∧ id < hi ∧ (id < lo → ∃ b, Reaches σ n b ∧ b.id = id)
  own : ∀ id, Declares ws id → lo ≤ id ∧ id < hi
  renamed : ∀ id, R id → Declares ws id
  behind : ∀ n b, Reaches τ n b → (lo ≤ b.id ∨ Reaches σ n b) ∧ ¬R b.id

namespace Mirrors

variable {D : Dialect} {σ τ υ : Scope Entry} {lo mid hi : Nat} {ws xs ws' xs' : List Node} {R R' : Nat → Prop}

/-- No nodes at all. -/
theorem nil : Mirrors σ σ lo lo [] [] fun _ => False where
  kept _ _ h := absurd h (by simp)
  back _ _ h := absurd h (by simp)
  madeUp _ _ h := absurd h (by simp)
  declares _ := by simp
  plain _ _ h := absurd h (by simp)
  own _ h := absurd h (by simp)
  renamed _ h := h.elim
  behind _ _ h := ⟨.inr h, id⟩

/-- Nodes that use and declare nothing, and what they may bind besides variables. -/
theorem silent (h : Alike xs []) (hb : ∀ n b, Reaches τ n b → lo ≤ b.id ∨ Reaches σ n b) :
    Mirrors σ τ lo hi [] xs fun _ => False where
  kept n id hu := absurd ((h.uses n id).1 hu) (by simp)
  back n id hu := absurd hu (by simp)
  madeUp n id hu := absurd ((h.uses n id).1 hu) (by simp)
  declares id := h.declares id
  plain n id hu := absurd hu (by simp)
  own id hd := absurd hd (by simp)
  renamed _ hr := hr.elim
  behind n b hr := ⟨hb n b hr, fun h => h⟩

/-- Trees one behind the other. -/
theorem append (h : Mirrors σ τ lo mid ws xs R) (h' : Mirrors τ υ mid hi ws' xs' R') (hlo : lo ≤ mid)
    (hhi : mid ≤ hi) : Mirrors σ υ lo hi (ws ++ ws') (xs ++ xs') fun id => R id ∨ R' id := by
  -- What the one tree uses, the other one does not rename.
  have hfirst : ∀ n id, Uses ws n id → ¬R' id := by
    intro n id hu hr
    -- The numbers used in front are below `mid`, the ones renamed behind are not.
    have hlt := (h.plain n id hu).2.1
    have hle := (h'.own id (h'.renamed id hr)).1
    omega
  have hsecond : ∀ n id, Uses ws' n id → ¬R id := by
    -- What is renamed in front is reached behind it by no name.
    intro n id hu hr
    have hlt := (h.own id (h.renamed id hr)).2
    obtain ⟨b, hb, rfl⟩ := (h'.plain n id hu).2.2 hlt
    exact (h.behind n b hb).2 hr
  refine ⟨fun n id hu hn => ?_, fun n id hu hr => ?_, fun n id hu hn => ?_, fun id => ?_, fun n id hu => ?_,
    fun id hd => ?_, fun id hr => ?_, fun n b hb => ?_⟩
  -- A plain name that is kept is kept by the tree that uses it.
  · rw [uses_append] at hu ⊢
    rcases hu with hu | hu
    · obtain ⟨hw, hr⟩ := h.kept n id hu hn
      exact ⟨.inl hw, fun h => h.elim hr (hfirst n id hw)⟩
    · obtain ⟨hw, hr⟩ := h'.kept n id hu hn
      exact ⟨.inr hw, fun h => h.elim (hsecond n id hw) hr⟩
  -- What is not renamed by either tree is not renamed by its own.
  · rw [uses_append] at hu ⊢
    rcases hu with hu | hu
    · exact .inl (h.back n id hu fun hR => hr (.inl hR))
    · exact .inr (h'.back n id hu fun hR => hr (.inr hR))
  -- Made-up names come from one tree or the other.
  · rw [uses_append] at hu
    rcases hu with hu | hu
    · exact .inl (h.madeUp n id hu hn)
    · exact .inr (h'.madeUp n id hu hn)
  -- Declarations of both trees together.
  · rw [declares_append, declares_append, h.declares, h'.declares]
  -- What the second tree reaches of a number below `lo` was reached in front of the first.
  · rw [uses_append] at hu
    rcases hu with hu | hu
    · obtain ⟨hn, hlt, hreach⟩ := h.plain n id hu
      exact ⟨hn, by omega, hreach⟩
    · obtain ⟨hn, hlt, hreach⟩ := h'.plain n id hu
      refine ⟨hn, hlt, fun hid => ?_⟩
      obtain ⟨b, hb, rfl⟩ := hreach (by omega)
      rcases (h.behind n b hb).1 with hle | hb
      · omega
      · exact ⟨b, hb, rfl⟩
  -- The numbers of the first are below `mid`, those of the second from `mid` on.
  · rw [declares_append] at hd
    rcases hd with hd | hd
    · have := h.own id hd
      omega
    · have := h'.own id hd
      omega
  · rw [declares_append]
    exact hr.imp (h.renamed id) (h'.renamed id)
  -- Behind both trees nothing is reached by a number that either has renamed.
  · obtain ⟨hreach, hr'⟩ := h'.behind n b hb
    rcases hreach with hle | hb'
    · refine ⟨.inl (by omega), fun hr => hr.elim (fun hR => ?_) hr'⟩
      have := (h.own b.id (h.renamed b.id hR)).2
      omega
    · obtain ⟨hreach, hr⟩ := h.behind n b hb'
      exact ⟨hreach, fun h => h.elim hr hr'⟩

/-- Only what is used and declared counts. -/
theorem congr (h : Mirrors σ τ lo hi ws xs R) (hw : Alike ws' ws) (hx : Alike xs' xs) :
    Mirrors σ τ lo hi ws' xs' R where
  -- Each field moves along the two equivalences on uses and declarations.
  kept n id hu := by
    rw [hx.uses] at hu
    rw [hw.uses]
    exact h.kept n id hu
  back n id hu := by
    rw [hw.uses] at hu
    rw [hx.uses]
    exact h.back n id hu
  madeUp n id hu := h.madeUp n id ((hx.uses n id).1 hu)
  declares id := by rw [hx.declares, hw.declares, h.declares]
  plain n id hu := h.plain n id ((hw.uses n id).1 hu)
  own id hd := h.own id ((hw.declares id).1 hd)
  renamed id hr := (hw.declares id).2 (h.renamed id hr)
  behind := h.behind

/-- Scopes in which the same is found. -/
theorem scope (h : Mirrors σ τ lo hi ws xs R) {σ' τ' : Scope Entry}
    (hσ : ∀ m, σ'.lookup m = σ.lookup m) (hτ : ∀ m, τ'.lookup m = τ.lookup m) :
    Mirrors σ' τ' lo hi ws xs R := by
  refine { h with plain := fun n id hu => ?_, behind := fun n b hb => ?_ }
  · obtain ⟨hn, hlt, hreach⟩ := h.plain n id hu
    refine ⟨hn, hlt, fun hid => ?_⟩
    obtain ⟨b, hb, rfl⟩ := hreach hid
    exact ⟨b, hb.congr hσ, rfl⟩
  · obtain ⟨hreach, hr⟩ := h.behind n b (hb.congr fun m => (hτ m).symm)
    exact ⟨hreach.imp_right fun hb => hb.congr hσ, hr⟩

/-- A tree with a scope of its own: behind it everything is as in front of it. -/
theorem close (h : Mirrors σ τ lo hi ws xs R) (hσ : Sound D lo σ) : Mirrors σ σ lo hi ws xs R := by
  refine { h with behind := fun n b hb => ⟨.inr hb, fun hr => ?_⟩ }
  have hlt := (hσ.reached hb).1
  have hle := (h.own b.id (h.renamed b.id hr)).1
  omega

/-- Nodes that only read. -/
theorem of_reads (hσ : Sound D lo σ) (h : OnlyReads σ ws) (ha : Alike xs ws) :
    Mirrors σ σ lo lo ws xs fun _ => False where
  kept n id hu _ := ⟨(ha.uses n id).1 hu, fun hr => hr⟩
  back n id hu _ := (ha.uses n id).2 hu
  -- Names that are read from the scope are plain, so none is made up.
  madeUp n id hu hn := by
    have hp := (h.reached n id ((ha.uses n id).1 hu)).1
    rw [hn] at hp
    cases hp
  declares id := ha.declares id
  -- What is read was reached in front.
  plain n id hu := by
    obtain ⟨hp, b, hb, rfl⟩ := h.reached n id hu
    exact ⟨hp, (hσ.reached hb).1, fun _ => ⟨b, hb, rfl⟩⟩
  own id hd := absurd hd (h.silent id)
  renamed _ hr := hr.elim
  behind _ _ hb := ⟨.inr hb, fun hr => hr⟩

end Mirrors

/-! ## Freshened bodies -/

section Freshen

variable {D : Dialect} {σ τ : Scope Entry} {lo hi : Nat} {ws : List Node} {b : Block} {R : Nat → Prop}

/-- A new name is not plain, and its binding was contested. -/
private theorem contested_of_lookup {number id : Nat} {cs : List (Nat × Text)} {fresh : Text}
    (h : (freshNames number cs).lookup id = some fresh) : fresh.isPlain = false ∧ ∃ n, (id, n) ∈ cs := by
  obtain ⟨j, n, hj, rfl⟩ := lookup_freshNames h
  exact ⟨isPlain_freshName n _, n, List.mem_of_getElem? hj⟩

/-- A plain name under a renaming belongs to a binding that keeps its name. -/
private theorem lookup_eq_none_of_plain {number id : Nat} {cs : List (Nat × Text)} {n m : Text}
    (h : ((freshNames number cs).lookup id).getD m = n) (hn : n.isPlain = true) :
    (freshNames number cs).lookup id = none ∧ m = n := by
  cases hl : (freshNames number cs).lookup id with
  | none =>
    rw [hl, Option.getD_none] at h
    exact ⟨rfl, h⟩
  | some fresh =>
    rw [hl, Option.getD_some] at h
    have hfresh := (contested_of_lookup hl).1
    rw [h, hn] at hfresh
    cases hfresh

/-- The nodes of a freshened body. -/
private theorem Block.freshen_nodes (b : Block) (number : Nat) (n : Text) (id : Nat) :
    (Uses (b.freshen number).1.nodes n id ↔ ∃ m, Uses b.nodes m id
        ∧ ((freshNames number (contested b.nodes)).lookup id).getD m = n)
      ∧ (Declares (b.freshen number).1.nodes id ↔ Declares b.nodes id) := by
  -- With nothing contested the body is left as it is.
  simp only [Block.freshen]
  split
  · rename_i hempty
    rw [List.isEmpty_iff.1 hempty]
    simp only [freshNames, List.lookup_nil, Option.getD_none, exists_eq_right, and_self]
  -- Otherwise a use carries the name that the renaming gives, and declarations keep their numbers.
  · generalize freshNames number (contested b.nodes) = r
    simp only [Uses, Declares, Block.nodes_rename, List.mem_map]
    constructor
    · constructor
      · rintro ⟨_, ⟨x, hx, rfl⟩, hu⟩
        rw [Node.use?_rename] at hu
        obtain ⟨⟨m, id'⟩, hm, heq⟩ := Option.map_eq_some_iff.1 hu
        cases heq
        exact ⟨m, ⟨x, hx, hm⟩, rfl⟩
      · rintro ⟨m, ⟨x, hx, hm⟩, rfl⟩
        exact ⟨_, ⟨x, hx, rfl⟩, by rw [Node.use?_rename, hm]; rfl⟩
    · constructor
      · rintro ⟨_, ⟨x, hx, rfl⟩, hd⟩
        rw [Node.declared?_rename] at hd
        exact ⟨x, hx, hd⟩
      · rintro ⟨x, hx, hd⟩
        exact ⟨_, ⟨x, hx, rfl⟩, by rw [Node.declared?_rename, hd]⟩

/-- What the unfolding of a body contests, its tree contests too, unless it was renamed before. -/
private theorem Mirrors.contested_iff (h : Mirrors σ τ lo hi ws b.nodes R) {id : Nat} :
    (∃ n, (id, n) ∈ contested b.nodes) ↔ (∃ n, (id, n) ∈ contested ws) ∧ ¬R id := by
  simp only [mem_contested_iff, h.declares]
  -- A foreign binding is never renamed, so its name is plain.
  have hforeign : ∀ f, ¬Declares ws f → ¬R f := fun f hf hr => hf (h.renamed f hr)
  constructor
  · rintro ⟨n, hu, hd, f, huf, hdf⟩
    have hn : n.isPlain = true := by
      cases hp : n.isPlain with
      | true => rfl
      | false => exact absurd (h.madeUp n f huf hp) (hforeign f hdf)
    obtain ⟨huw, hr⟩ := h.kept n id hu hn
    exact ⟨⟨n, huw, hd, f, (h.kept n f huf hn).1, hdf⟩, hr⟩
  · rintro ⟨⟨n, hu, hd, f, huf, hdf⟩, hr⟩
    exact ⟨n, h.back n id hu hr, hd, f, h.back n f huf (hforeign f hdf), hdf⟩

/-- A freshened body mirrors the unfolding of the body: what is contested is renamed besides. -/
theorem Mirrors.freshen (h : Mirrors σ τ lo hi ws b.nodes R) (hσ : Sound D lo σ) (number : Nat) :
    Mirrors σ σ lo hi ws (b.freshen number).1.nodes fun id => R id ∨ ∃ n, (id, n) ∈ contested b.nodes := by
  have hnew : ∀ id, (∃ n, (id, n) ∈ contested b.nodes) → Declares ws id := fun id hc => by
    obtain ⟨n, hc⟩ := (h.contested_iff.1 hc).1
    exact (mem_contested_iff.1 hc).2.1
  refine Mirrors.close (τ := σ) ⟨fun n id hu hn => ?_, fun n id hu hr => ?_, fun n id hu hn => ?_, fun id => ?_,
    -- With the part on scopes closed, one goal is left for each field that the renaming touches.
    h.plain, h.own, fun id hr => ?_, fun n c hc => ⟨.inr hc, fun hr => ?_⟩⟩ hσ
  -- A plain name is no fresh one, so its binding was not in the renaming.
  · obtain ⟨m, hm, heq⟩ := ((b.freshen_nodes number n id).1).1 hu
    obtain ⟨hnone, rfl⟩ := lookup_eq_none_of_plain heq hn
    obtain ⟨hw, hr⟩ := h.kept m id hm hn
    refine ⟨hw, fun hR => hR.elim hr ?_⟩
    rintro ⟨k, hk⟩
    exact lookup_freshNames_ne_none hk hnone
  -- What is renamed now is contested, so anything else keeps its name.
  · refine ((b.freshen_nodes number n id).1).2 ⟨n, h.back n id hu fun hR => hr (.inl hR), ?_⟩
    cases hl : (freshNames number (contested b.nodes)).lookup id with
    | none => rfl
    | some fresh => exact absurd (.inr (contested_of_lookup hl).2) hr
  -- A made-up name was there before, or the renaming gave it.
  · obtain ⟨m, hm, heq⟩ := ((b.freshen_nodes number n id).1).1 hu
    cases hl : (freshNames number (contested b.nodes)).lookup id with
    | none =>
      rw [hl, Option.getD_none] at heq
      exact .inl (h.madeUp m id hm (heq ▸ hn))
    | some fresh => exact .inr (contested_of_lookup hl).2
  -- Renaming changes no declaration.
  · rw [(b.freshen_nodes number [] id).2, h.declares]
  -- What is renamed, now or before, is declared in the body.
  · exact hr.elim (h.renamed id) (hnew id)
  -- What the scope reaches has a number below `lo`, and what is renamed has not.
  · have hd : Declares ws c.id := hr.elim (h.renamed c.id) (hnew c.id)
    have hlt := (hσ.reached hc).1
    have hle := (h.own c.id hd).1
    omega

end Freshen

/-! ## Passages of expanded trees -/

/-- Whether a node is a code literal. -/
def Node.isCode : Node → Bool
  | .stmt (.code _ _) => true
  | _ => false

/-- The code literals among places. -/
def codes (ss : List Site) : List Site := ss.filter (·.node.isCode)

@[simp] theorem codes_nil : codes [] = [] := rfl

@[simp] theorem codes_append (ss ts : List Site) : codes (ss ++ ts) = codes ss ++ codes ts :=
  List.filter_append ..

theorem codes_cons {s : Site} (h : s.node.isCode = false) (ss : List Site) :
    codes (s :: ss) = codes ss := by
  rw [codes, List.filter_cons, h]
  rfl

/-- Code literals behind further bindings. -/
theorem codes_under (δ : Env) (ss : List Site) :
    codes (ss.map (·.under δ)) = (codes ss).map (·.under δ) := by
  rw [codes, codes, List.filter_map]
  rfl

/-- There are no code literals among expressions. -/
@[simp] theorem codes_exprs (ε : Env) (es : List Expr) : codes ((es.map Node.expr).map (Site.mk ε)) = [] := by
  simp [codes, Node.isCode]

@[simp] theorem codes_exprSites (ε : Env) (e : Expr) : codes (exprSites ε e) = [] := codes_exprs ε e.nodes

/-- There are no code literals in an assignment. -/
@[simp] theorem codes_assign (ε : Env) (a : Assign) : codes (a.sites ε) = [] := by
  rw [Assign.sites, Assign.nodes, List.map_cons, codes_cons rfl]
  exact codes_exprs ε _

/-- There are no code literals in assignments. -/
@[simp] theorem codes_assigns (ε : Env) (as : List Assign) : codes (assignsSites ε as) = [] := by
  induction as generalizing ε with
  | nil => rfl
  | cons a as ih => rw [assignsSites, codes_append, codes_assign, ih, List.nil_append]

/-- There are no code literals in a clause. -/
@[simp] theorem codes_clause (ε : Env) (a : Option Assign) : codes (clauseSites ε a) = [] := by
  cases a with
  | none => rfl
  | some a => exact codes_assign ε a

section Stmts

variable (ε : Env) (sp : Span) (e f : Expr) (a : Assign) (b t : Block)

@[simp] theorem codes_stmt_assign : codes ((Stmt.assign a).sites ε) = [] := codes_assign ε a

@[simp] theorem codes_stmt_block : codes ((Stmt.block b).sites ε) = codes (b.sites ε) := codes_cons rfl _

@[simp] theorem codes_stmt_eval : codes ((Stmt.eval sp e).sites ε) = [] := by
  rw [Stmt.sites, codes_cons rfl, codes_exprSites]

@[simp] theorem codes_stmt_ret : codes ((Stmt.ret sp e).sites ε) = [] := by
  rw [Stmt.sites, codes_cons rfl, codes_exprSites]

@[simp] theorem codes_stmt_assignMember : codes ((Stmt.assignMember sp e f).sites ε) = [] := by
  rw [Stmt.sites, codes_cons rfl, codes_append, codes_exprSites, codes_exprSites, List.append_nil]

@[simp] theorem codes_stmt_cond : codes ((Stmt.cond sp e b none).sites ε) = codes (b.sites ε) := by
  rw [Stmt.sites, codes_cons rfl, codes_append, codes_exprSites, List.nil_append]

@[simp] theorem codes_stmt_else :
    codes ((Stmt.cond sp e b (some t)).sites ε) = codes (b.sites ε) ++ codes (t.sites ε) := by
  rw [Stmt.sites, codes_cons rfl, codes_append, codes_append, codes_exprSites, List.nil_append]

@[simp] theorem codes_stmt_loop : codes ((Stmt.loop sp e b).sites ε) = codes (b.sites ε) := by
  rw [Stmt.sites, codes_cons rfl, codes_append, codes_exprSites, List.nil_append]

@[simp] theorem codes_stmt_forLoop (i st : Option Assign) (c : Option Expr) :
    codes ((Stmt.forLoop sp i c st b).sites ε) = codes (b.sites (clauseBehind (clauseBehind ε i) st)) := by
  rw [Stmt.sites, codes_cons rfl, codes_append, codes_append, codes_append, codes_exprs, codes_clause,
    codes_clause, List.nil_append, List.nil_append, List.nil_append]

end Stmts

/-- A code literal of an expanded tree is a passage of its unfolding.  The variables of its function, which
are numbered from `lo` up to `hi`, are found in front of it if they keep their names, and are not there at
all otherwise. -/
structure Passage.Meets (lo hi : Nat) (p : Passage) (s : Site) : Prop where
  node : s.node = .stmt (.code p.span p.text)
  env : ∀ n b, p.env.lookup n = some (.variable (some b)) → n.isPlain = true ∧ (lo ≤ b.id ∧ b.id < hi)
    ∧ (p.Keeps b → s.env.lookup n = some (.variable (some b)))
    ∧ (¬p.Keeps b → (n, .variable (some b)) ∉ s.env)

/-- Bindings with other numbers. -/
def Env.Outside (lo hi : Nat) (δ : Env) : Prop :=
  ∀ n b, (n, .variable (some b)) ∈ δ → b.id < lo ∨ hi ≤ b.id

namespace Passage.Meets

variable {σ τ : Scope Entry} {lo hi first last : Nat} {ws : List Node} {b : Block} {R : Nat → Prop}
  {p : Passage} {s : Site}

/-- More numbers are taken. -/
theorem mono (h : p.Meets lo hi s) {lo' hi' : Nat} (hlo : lo' ≤ lo) (hhi : hi ≤ hi') : p.Meets lo' hi' s := by
  refine ⟨h.node, fun n c hn => ?_⟩
  obtain ⟨hplain, hid, hrest⟩ := h.env n c hn
  exact ⟨hplain, by omega, hrest⟩

/-- A passage behind bindings with other numbers. -/
theorem under (h : p.Meets lo hi s) {δ : Env} (hδ : δ.Outside lo hi) : p.Meets lo hi (s.under δ) := by
  refine ⟨h.node, fun n c hn => ?_⟩
  obtain ⟨hplain, hid, hkeeps, hlost⟩ := h.env n c hn
  refine ⟨hplain, hid, fun hk => ?_, fun hk hmem => ?_⟩
  · rw [Site.under, List.lookup_append, hkeeps hk]
    rfl
  · rcases List.mem_append.1 hmem with hmem | hmem
    · exact hlost hk hmem
    · have := hδ n c hmem
      omega

/-- A passage of a body that is freshened at its call. -/
theorem freshen (h : p.Meets first last s) (hs : s ∈ b.sites []) (hm : Mirrors σ τ lo hi ws b.nodes R)
    (number : Nat) :
    (p.within ws).Meets first last ⟨s.env.rename (freshNames number (contested b.nodes)), s.node⟩ := by
  refine ⟨h.node, fun n c hn => ?_⟩
  obtain ⟨hplain, hbase, hkeeps, hlost⟩ := h.env n c hn
  -- Inside the body a binding keeps its name if the calls
  -- inside keep it and the body does not contest it.
  have hwithin : (p.within ws).Keeps c ↔ p.Keeps c ∧ ∀ m, (c.id, m) ∉ contested ws := by
    simp only [Passage.Keeps, Passage.within, List.forall_mem_append, List.forall_mem_singleton, and_assoc]
  refine ⟨hplain, hbase, fun hk => ?_, fun hk hmem => ?_⟩
  · obtain ⟨hk, hcalm⟩ := hwithin.1 hk
    -- The binding keeps its name, and no other binding gets it.
    have hnone : (freshNames number (contested b.nodes)).lookup c.id = none := by
      cases hl : (freshNames number (contested b.nodes)).lookup c.id with
      | none => rfl
      | some fresh =>
        obtain ⟨m, hm'⟩ := (hm.contested_iff.1 (contested_of_lookup hl).2).1
        exact absurd hm' (hcalm m)
    have hname : Binder.rename (freshNames number (contested b.nodes)) n (.variable (some c)) = n := by
      simp only [Binder.rename, Renaming.apply, hnone, Option.getD_none]
    have hfound := Env.lookup_rename (hkeeps hk) fun y hy heq => by
      rw [hname] at heq
      rcases y with ⟨m, ⟨_ | c'⟩ | v⟩
      · exact heq
      · exact (lookup_eq_none_of_plain heq hplain).2
      · exact heq
    rw [hname] at hfound
    exact hfound
  -- If the name is still in sight, it was there before and the renaming left it alone.
  · obtain ⟨⟨m, v⟩, hy, heq⟩ := List.mem_map.1 hmem
    obtain ⟨hname, rfl⟩ : v.rename _ m = n ∧ v = .variable (some c) := Prod.mk.inj heq
    obtain ⟨hnone, rfl⟩ := lookup_eq_none_of_plain hname hplain
    -- The binding has its old name, so it was not renamed before and is not contested now.
    obtain ⟨x, hx, hbinds⟩ := Block.binds_of_mem_env hs hy
    have hr : ¬R c.id := (hm.kept m c.id ⟨x, hx, (Node.use?_of_binds hbinds).1⟩ hplain).2
    refine hk (hwithin.2 ⟨?_, fun k hc => ?_⟩)
    · by_cases hkeep : p.Keeps c
      · exact hkeep
      · exact absurd hy (hlost hkeep)
    · obtain ⟨j, hj⟩ := hm.contested_iff.2 ⟨⟨k, hc⟩, hr⟩
      exact lookup_freshNames_ne_none hj hnone

end Passage.Meets

/-- Names that are not renamed. -/
private theorem Env.rename_nil (ε : Env) : ε.rename [] = ε := by
  have hid : ∀ y : Text × Binder, (y.2.rename [] y.1, y.2) = y := by
    rintro ⟨n, ⟨_ | c⟩ | v⟩ <;> rfl
  rw [Env.rename, funext hid]
  exact List.map_id' ε

/-- The code literals of a freshened body. -/
theorem Block.codes_freshen (b : Block) (number : Nat) :
    codes ((b.freshen number).1.sites []) = (codes (b.sites [])).map fun s =>
      ⟨s.env.rename (freshNames number (contested b.nodes)), s.node⟩ := by
  -- With nothing contested both sides are the same.
  simp only [Block.freshen]
  split
  · rename_i hempty
    rw [List.isEmpty_iff.1 hempty]
    simp only [freshNames, Env.rename_nil, List.map_id']
  · have hsites := b.sites_rename (freshNames number (contested b.nodes)) []
    rw [Env.rename, List.map_nil] at hsites
    rw [hsites]
    generalize freshNames number (contested b.nodes) = r
    -- A code literal is not changed by a renaming, and no other node becomes one.
    have hcode : ∀ x : Node, (x.rename r).isCode = x.isCode ∧ (x.isCode = true → x.rename r = x) := by
      intro x
      cases x with
      | expr e => exact ⟨rfl, fun h => by cases h⟩
      | stmt s => cases s <;> first | exact ⟨rfl, fun _ => rfl⟩ | exact ⟨rfl, fun h => by cases h⟩
    -- The list of sites is filtered site by site.
    induction b.sites [] with
    | nil => rfl
    | cons s ss ih =>
      obtain ⟨hsame, hkeep⟩ := hcode s.node
      cases hs : s.node.isCode with
      | true =>
        have hs' : (s.rename r).node.isCode = true := hsame.trans hs
        simp only [codes, List.map_cons, List.filter_cons, hs, hs', if_true] at ih ⊢
        rw [ih, Site.rename, hkeep hs]
      | false => rw [List.map_cons, codes_cons (hsame.trans hs), codes_cons hs, ih]

end AisScript
