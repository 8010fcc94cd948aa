import AisScript.Proofs.Scoping
import AisScript.Proofs.Members

/-!
# What string variables stand for

A string variable never changes, so following its binding from declaration to declaration, and from a
temporary to the return that closed it, ends at a literal.  Which literal is a matter of the nodes of a
tree alone.

* `Assembled.clear`   the expressions of an expanded tree
* `Spells`            the text that a variable stands for
* `byWord`            reads string variables as their texts
* `Block.withoutStrings`   a tree without the assignments of strings
-/

namespace AisScript

/-! ## The expressions of an expanded tree -/

/-- An expression that is a string only if it is a literal or a variable.  A variable has the type of its
binding, it is no enumeration, and if it is a string it is one of the script. -/
def Expr.IsClear (e : Expr) : Prop :=
  e.IsWorded ∧ ∀ i n b, e = .var i n (some b) →
    i.ty = some b.ty ∧ b.origin ≠ .enumeration ∧ (b.ty = .string → b.origin = .script)

/-- A renaming keeps expressions clear. -/
theorem Expr.IsClear.rename {e : Expr} (h : e.IsClear) (r : Renaming) : (e.rename r).IsClear := by
  obtain ⟨hworded, hvar⟩ := h
  refine ⟨?_, fun i n b heq => ?_⟩
  · cases e <;> exact hworded
  · cases e with
    | var i' n' b' =>
      cases heq
      exact hvar _ _ _ rfl
    | _ => cases heq

/-- What is left of expressions is clear. -/
theorem Left.clear {D : Dialect} {lo : Nat} {σ : Scope Entry} (hσ : Firm D lo σ) {p : List Stmt}
    {es : List Expr} (h : Left σ p es) : ∀ e ∈ es, e.IsClear := by
  intro e he
  refine ⟨h.worded e he, ?_⟩
  rintro i n b rfl
  obtain ⟨hr, _, hty, hvalued⟩ := h.reached i n b he
  exact ⟨hty, hvalued, fun hs => (hσ.fixed n b hr hs).2⟩

/-- A clear expression, or a statement in which no member of an enumeration has a made-up name. -/
def Node.IsClear : Node → Prop
  | .expr e => e.IsClear
  | .stmt (.enumDef _ d) => ∀ m ∈ d.members, m.name.isPlain = true
  | .stmt _ => True

/-- Nodes that are clear. -/
def ClearNodes (xs : List Node) : Prop := ∀ x ∈ xs, x.IsClear

/-- No nodes at all. -/
private theorem clear_nil : ClearNodes [] := fun _ hx => by cases hx

/-- Nodes one behind the other. -/
private theorem clear_append {xs ys : List Node} : ClearNodes (xs ++ ys) ↔ ClearNodes xs ∧ ClearNodes ys :=
  List.forall_mem_append

/-- A node in front of others. -/
private theorem clear_cons {x : Node} {xs : List Node} : ClearNodes (x :: xs) ↔ x.IsClear ∧ ClearNodes xs :=
  List.forall_mem_cons

/-- An assignment and the nodes of its value. -/
private theorem clear_assign {a : Assign} : ClearNodes a.nodes ↔ ClearNodes (exprNodes a.value) := by
  cases a
  exact clear_cons.trans (and_iff_right trivial)

/-- A block as a statement. -/
private theorem clear_block {b : Block} : ClearNodes (Stmt.block b).nodes ↔ ClearNodes b.nodes :=
  clear_cons.trans (and_iff_right trivial)

/-- The nodes of expressions. -/
private theorem clear_exprs {es : List Expr} : ClearNodes (es.map .expr) ↔ ∀ e ∈ es, e.IsClear :=
  List.forall_mem_map

/-- Renamed nodes. -/
theorem ClearNodes.rename {xs : List Node} (h : ClearNodes xs) (r : Renaming) :
    ClearNodes (xs.map (·.rename r)) := by
  refine List.forall_mem_map.2 fun x hx => ?_
  have hclear := h x hx
  cases x with
  | expr e => exact Expr.IsClear.rename hclear r
  | stmt s => cases s <;> exact hclear

/-- The nodes of a statement that declares nothing itself. -/
theorem Stmt.Holds.mem_nodes {s : Stmt} {es : List Expr} {bs : List Block} (h : s.Holds es bs) {x : Node}
    (hx : x ∈ s.nodes) : x = .stmt s ∨ x ∈ es.map .expr ∨ x ∈ stmtsNodes (bs.map .block) := by
  cases h <;> simp [Stmt.nodes, exprNodes, stmtsNodes] at hx ⊢ <;> grind

/-- Such a statement is clear if its expressions and its blocks are. -/
theorem Stmt.Holds.clear {s : Stmt} {es : List Expr} {bs : List Block} (h : s.Holds es bs)
    (hes : ∀ e ∈ es, e.IsClear) (hbs : ClearNodes (stmtsNodes (bs.map .block))) : ClearNodes s.nodes := by
  intro x hx
  rcases h.mem_nodes hx with rfl | hx | hx
  · cases h <;> trivial
  · exact clear_exprs.2 hes x hx
  · exact hbs x hx

section Clear

variable {D : Dialect} {P : Prop} {f : Bool} {σ τ : Scope Entry} {lo hi : Nat} {c c' : Expansion} {p : List Stmt}

/-- The parameters of a call. -/
private theorem clear_overrides {binds : List Assign} {args : List Expr}
    (h : ∀ e ∈ nodesOfList args, e.IsClear) :
    ClearNodes ((bindExpanded binds args).flatMap Assign.nodes) := by
  induction binds generalizing args with
  | nil => exact fun _ he => by cases he
  | cons b binds ih =>
    cases args with
    | nil => exact fun _ he => by cases he
    | cons e args =>
      obtain ⟨he, hargs⟩ := List.forall_mem_append.1 h
      exact clear_append.2 ⟨clear_assign.2 (clear_exprs.2 he), ih hargs⟩

/-- What stands for a call. -/
private theorem clear_called {os : List Assign} {ss q : List Stmt} {sp : Span} {b : Block} {e e' : Expr}
    {c₁ : Expansion} (fresh : freshened (.mk os ss sp) c = .ok (b, c₁))
    (place : placeBody e b c₁ = .ok ((q, e'), c')) (kept : e'.ty? = e.ty?)
    (h : ClearNodes (Block.mk os ss sp).nodes) : ClearNodes (stmtsNodes q) := by
  -- The call has become a temporary with a block in front, or a block alone.
  obtain ⟨_, hq⟩ := called_cases fresh place kept
  generalize freshNames c.renamed (contested (Block.mk os ss sp).nodes) = r at hq
  have hrenamed := h.rename r
  rw [← Block.nodes_rename] at hrenamed
  rcases hq with ⟨front, s, v, zero, rfl, _, hzero, _, rfl⟩ | ⟨_, rfl⟩
  · -- Nothing is reached from no scope at all.
    have hzero : ClearNodes (exprNodes zero) := clear_exprs.2 fun e he =>
      ⟨(hzero {}).worded e he, fun i n b heq => by
        obtain ⟨hr, _⟩ := (hzero {}).reached i n b (heq ▸ he)
        rcases hr with h | ⟨h, _⟩ <;> cases h⟩
    -- The block assigns the value of the return in its place.
    have hplaced : ClearNodes (Block.mk (os.map (·.rename r))
        (renameStmts r front ++ [.assign (.make (tempName c.temps) (v.rename r) false s)]) sp).nodes := by
      simp only [Block.rename, Block.nodes, renameStmts_eq_map, List.map_append, List.map_cons, List.map_nil,
        stmtsNodes_append, stmtsNodes_singleton, Stmt.rename, Stmt.nodes, clear_append, clear_cons] at hrenamed ⊢
      obtain ⟨hos, hfront, _, hv⟩ := hrenamed
      exact ⟨hos, hfront, clear_assign.2 hv⟩
    -- Declaration of the temporary, then the block.
    rw [stmtsNodes, stmtsNodes_singleton, clear_append]
    exact ⟨clear_assign.2 hzero, clear_block.2 hplaced⟩
  · rw [stmtsNodes_singleton]
    exact clear_block.2 hrenamed

/-- A body with a test that has moved there. -/
private theorem clear_inner {η : Scope Entry} (hη : Firm D lo η) {q ss inner : List Stmt}
    {x test : Option Expr} {sp span : Span} (left : Left η q (nodesOfOption x))
    (htest : test = x ∧ q = [] ∧ inner = ss
      ∨ test = none ∧ ∃ e, x = some e ∧ inner = q ++ [guarded sp e (.mk [] ss span)])
    (hq : ClearNodes (stmtsNodes q)) (hss : ClearNodes (stmtsNodes ss)) :
    ClearNodes ((nodesOfOption test).map .expr) ∧ ClearNodes (stmtsNodes inner) := by
  -- The test stays in the header, or it has moved into the body as a condition.
  have hx := clear_exprs.2 (left.clear hη)
  rcases htest with ⟨rfl, rfl, rfl⟩ | ⟨rfl, e, rfl, rfl⟩
  · exact ⟨hx, hss⟩
  · refine ⟨(fun _ he => by cases he), ?_⟩
    rw [stmtsNodes_append, stmtsNodes_singleton, clear_append]
    refine ⟨hq, ?_⟩
    simp only [guarded, leaveBlock, Stmt.nodes, Block.nodes, stmtsNodes, clear_cons, Node.IsClear, true_and,
      clear_append, List.flatMap_nil, List.nil_append, List.append_nil]
    exact ⟨⟨hx, hss⟩, fun _ he => by cases he⟩

/-- A loop, from the clauses in its header or behind its body. -/
private theorem clear_forLoop {p r inner last : List Stmt} {i st step : Option Assign} {test : Option Expr}
    (sp span : Span) (hp : ClearNodes (stmtsNodes (p ++ i.toList.map .assign)))
    (htest : ClearNodes ((nodesOfOption test).map .expr)) (hinner : ClearNodes (stmtsNodes inner))
    (hst : ClearNodes (stmtsNodes (r ++ st.toList.map .assign)))
    (hstep : step = st ∧ r = [] ∧ last = [] ∨ step = none ∧ last = r ++ st.toList.map .assign) :
    ClearNodes (stmtsNodes (p ++ [.forLoop sp i test step (.mk [] (inner ++ last) span)])) := by
  -- A clause has the nodes of the statement that it is.
  have hclause : ∀ a : Option Assign, stmtsNodes (a.toList.map .assign) = clauseNodes a := by
    intro a
    cases a <;> simp [stmtsNodes, Stmt.nodes, clauseNodes]
  rw [stmtsNodes_append, hclause, clear_append] at hp hst
  simp only [stmtsNodes_append, stmtsNodes_singleton, Stmt.nodes, Block.nodes, clear_append, clear_cons,
    Node.IsClear, true_and, List.flatMap_nil, List.nil_append]
  refine ⟨hp.1, ⟨⟨⟨htest, hp.2⟩, ?_⟩, hinner, ?_⟩⟩
  -- The step is in the header, or is gone from it.
  · rcases hstep with ⟨rfl, _, _⟩ | ⟨rfl, _⟩
    · exact hst.2
    · exact fun _ he => by cases he
  -- The body has nothing behind it, or the step.
  · rcases hstep with ⟨_, _, rfl⟩ | ⟨_, rfl⟩
    · exact fun _ he => by cases he
    · rw [stmtsNodes_append, hclause, clear_append]
      exact hst

/-- The expressions of an expanded tree are clear. -/
theorem Assembled.clear (hD : D.Plain) (h : Assembled D P f σ τ lo hi c c' p) :
    Firm D lo σ → ClearNodes (stmtsNodes p) := by
  -- The induction is on the pieces of the tree.
  induction h with
  | nil | rescope => exact fun _ _ he => by cases he
  | append _ first _ ih₁ ih₂ =>
    intro hσ
    rw [stmtsNodes_append, clear_append]
    -- The scope behind the first piece is firm too.
    exact ⟨ih₁ hσ, ih₂ (first.counted hD hσ).1⟩
  | congr hσ' _ _ ih => exact fun hσ => ih (hσ.congr fun m => (hσ' m).symm)
  | enumeration sp d plain =>
    intro _
    rw [stmtsNodes_singleton]
    exact clear_cons.2 ⟨plain, clear_nil⟩
  | block sp _ ih =>
    intro hσ
    rw [stmtsNodes_singleton]
    exact clear_block.2 (ih hσ.push)
  -- What is nested is clear by what was left of it.
  | nest before _ left holds ih₁ ih₂ =>
    intro hσ
    rw [stmtsNodes_append, stmtsNodes_singleton, clear_append]
    exact ⟨ih₁ hσ, holds.clear (left.clear hσ) (ih₂ (before.counted hD hσ).1)⟩
  | declare _ left _ _ _ _ _ _ ih | assign _ left _ _ _ _ _ _ _ ih =>
    intro hσ
    rw [stmtsNodes_append, stmtsNodes_singleton, clear_append]
    exact ⟨ih hσ, clear_assign.2 (clear_exprs.2 (left.clear hσ))⟩
  -- Each scope along the header is firm, so its part is clear.
  | forLoop sp span span' _ init tested left _ _ stepped htest hstep _ ihi ihq ihs _ ihst =>
    intro hσ
    obtain ⟨hη, _⟩ := init.counted hD hσ.push
    obtain ⟨hη₂, _⟩ := tested.counted hD hη
    obtain ⟨hη', _⟩ := stepped.counted hD hη₂
    obtain ⟨hheader, hinner⟩ := clear_inner hη left htest (ihq hη) (ihs hη'.push)
    exact clear_forLoop sp span (ihi hσ.push) hheader hinner (ihst hη₂) (hstep.imp_right fun h => ⟨h.1, h.2.2⟩)
  | call sp before left function _ _ proper bound _ _ fresh _ place kept ihp ihs =>
    intro hσ
    rw [stmtsNodes_append, clear_append]
    -- The copy is clear if the body and the arguments are.
    refine ⟨ihp hσ, clear_called fresh place kept ?_⟩
    rw [Block.nodes, clear_append]
    refine ⟨clear_overrides (left.clear hσ), ihs ?_⟩
    rw [bound]
    exact hσ.body function (before.counted hD hσ).2.le.1 proper

end Clear

/-! ## The text of a variable -/

/-- An assignment gives a variable its value: it declares the variable, or it closes the temporary. -/
def Assign.Gives (a : Assign) (n : Text) : Option Binding → Prop
  | some b => a.info.declares = true ∧ a.info.binding = some b
  | none => a.mark? = some (.closed n)

/-- The text that a variable stands for, followed from assignment to assignment down to a literal. -/
inductive Spells (xs : List Node) : Text → Option Binding → Text → Prop where
  | literal {a : Assign} {n : Text} {b : Option Binding} {i : ExprInfo} {t : Text}
      (assigned : .stmt (.assign a) ∈ xs) (gives : a.Gives n b) (value : a.value = .const i (.string t)) :
    Spells xs n b t
  | through {a : Assign} {n m : Text} {b d : Option Binding} {i : ExprInfo} {t : Text}
      (assigned : .stmt (.assign a) ∈ xs) (gives : a.Gives n b) (value : a.value = .var i m d)
      (spells : Spells xs m d t) : Spells xs n b t

/-- The mark of the assignment that gives a variable its value. -/
def Mark.giving (n : Text) : Option Binding → Mark
  | some b => .own b.id
  | none => .closed n

/-- An assignment that gives a variable its value has that mark. -/
theorem Assign.Gives.mark {a : Assign} {n : Text} {b : Option Binding} (h : a.Gives n b) :
    a.mark? = some (.giving n b) := by
  cases b with
  | none => exact h
  | some b =>
    obtain ⟨hd, hb⟩ := h
    simp [Assign.mark?, hd, hb, Mark.giving]

/-- Where every variable is declared once and every temporary closed once, a variable stands for one text. -/
theorem Spells.unique {x y : Counter} {xs : List Node} (hxs : Counted x y (acts xs)) {n : Text}
    {b : Option Binding} {t u : Text} (ht : Spells xs n b t) (hu : Spells xs n b u) : t = u := by
  have hact : ∀ a, Node.stmt (.assign a) ∈ xs → .assign a ∈ acts xs :=
    fun a ha => List.mem_filterMap.2 ⟨_, ha, rfl⟩
  have hsame : ∀ {a a' : Assign} {n b}, Node.stmt (.assign a) ∈ xs → Node.stmt (.assign a') ∈ xs →
      a.Gives n b → a'.Gives n b → a = a' := fun ha ha' hg hg' =>
    Act.assign.inj (hxs.unique (m := .giving _ _) (hact _ ha) (hact _ ha') hg.mark hg'.mark)
  -- The induction is on how the first text is spelled; the second is spelled by the same assignment.
  induction ht generalizing u with
  | literal ha hg hv =>
    -- The literal is one value.
    cases hu with
    | literal ha' hg' hv' =>
      obtain rfl := hsame ha ha' hg hg'
      cases hv.symm.trans hv'
      rfl
    | through ha' hg' hv' _ =>
      obtain rfl := hsame ha ha' hg hg'
      cases hv.symm.trans hv'
  -- The variable is spelled through the same other variable.
  | through ha hg hv _ ih =>
    cases hu with
    | literal ha' hg' hv' =>
      obtain rfl := hsame ha ha' hg hg'
      cases hv.symm.trans hv'
    | through ha' hg' hv' hs' =>
      obtain rfl := hsame ha ha' hg hg'
      cases hv.symm.trans hv'
      exact ih hs'

/-! ## Trees without strings -/

/-- Reads a string variable as a text, and every other variable as typing found it to mean. -/
def byWord (w : Text → Option Binding → Text) : Reading := fun ε i n b =>
  if i.ty = some .string then .literal (.string (w n b)) i.span else byBinding ε i n b

/-- The assignment of something else than a string. -/
def Assign.stores (a : Assign) : Bool := a.value.ty? != some .string

mutual

/-- What is left of a statement without the assignments of strings. -/
def Stmt.withoutStrings : Stmt → List Stmt
  | .block b => [.block b.withoutStrings]
  | .assign a => ((some a).filter Assign.stores).toList.map .assign
  | .cond s c t f => [.cond s c t.withoutStrings (elseWithoutStrings f)]
  | .loop s c b => [.loop s c b.withoutStrings]
  | .forLoop s i c st b => [.forLoop s (i.filter Assign.stores) c (st.filter Assign.stores) b.withoutStrings]
  | .funcDef s n ns ps b => [.funcDef s n ns ps b.withoutStrings]
  | s@(.eval _ _) | s@(.assignMember _ _ _) | s@(.ret _ _) | s@(.leave _) | s@(.code _ _)
  | s@(.bitfieldDef _ _) | s@(.enumDef _ _) | s@(.require _ _) => [s]

/-- What is left of statements. -/
def stmtsWithoutStrings : List Stmt → List Stmt
  | [] => []
  | s :: ss => s.withoutStrings ++ stmtsWithoutStrings ss

/-- A block without the assignments of strings. -/
def Block.withoutStrings : Block → Block
  | .mk os ss sp => .mk (os.filter Assign.stores) (stmtsWithoutStrings ss) sp

/-- An else block that may be absent. -/
def elseWithoutStrings : Option Block → Option Block
  | none => none
  | some b => some b.withoutStrings

end

/-- A reading as texts is a string exactly if the expression is one. -/
theorem Expr.ty?_byWord (w : Text → Option Binding → Text) (ε : Env) (e : Expr) :
    ((e.replace (byWord w) ε).ty? = some .string ↔ e.ty? = some .string)
      ∧ (e.ty?.isSome = true → (e.replace (byWord w) ε).ty?.isSome = true) := by
  cases e with
  | var i n b =>
    by_cases hs : i.ty = some .string
    · simp only [Expr.replace, byWord, if_pos hs]
      exact ⟨⟨fun _ => hs, fun _ => rfl⟩, fun _ => rfl⟩
    · simp only [Expr.replace, byWord, if_neg hs, byBinding, valueOr]
      cases b.bind Binding.value? with
      | none => exact ⟨Iff.rfl, id⟩
      | some v => exact ⟨⟨(fun h => by cases h), fun h => absurd h hs⟩, fun _ => rfl⟩
  | _ => exact ⟨Iff.rfl, id⟩

end AisScript
