import AisScript.Tree.Walk
import AisScript.Proofs.Walk

/-!
# Names by scope

How a name is read off a tree alone, without the bindings that typing has recorded: by the innermost
declaration in front of it.  Blocks and loop headers open frames; in a block the overrides come
first, then the statements in order; in a loop header the first clause comes before test and step.
Declaring assignments and the members of enumerations are what a name can be bound to.

* `Env`                what names are bound to at a place, the innermost first
* `Block.sites`        every node of a tree with the bindings around it
* `Block.map_node_sites`    the sites are the nodes of the walk, in its order
* `Block.sites_under`       a tree under further bindings
-/

namespace AisScript

/-- What a tree binds a name to. -/
inductive Binder where
  /-- A declaring assignment, with the binding recorded on it. -/
  | variable (binding : Option Binding)
  /-- A member of an enumeration, with its value. -/
  | member (value : Int64)
deriving DecidableEq, Repr

/-- The value of a member of an enumeration that a name is bound to. -/
def Binder.value? : Binder → Option Int64
  | .member v => some v
  | .variable _ => none

/-- The value of a member of an enumeration that a reference was found to mean. -/
def Binding.value? (b : Binding) : Option Int64 :=
  match b.origin with
  | .member v => some v
  | .host | .script | .enumeration => none

/-- What names are bound to at a place, the innermost first. -/
abbrev Env := List (Text × Binder)

/-- A node and what names are bound to in front of it. -/
structure Site where
  env : Env
  node : Node

/-! ## Bindings behind a tree -/

/-- The bindings behind an assignment. -/
def Assign.behind (ε : Env) (a : Assign) : Env :=
  if a.info.declares then (a.info.name, .variable a.info.binding) :: ε else ε

/-- The bindings behind assignments in order. -/
def assignsBehind (ε : Env) : List Assign → Env
  | [] => ε
  | a :: as => assignsBehind (a.behind ε) as

/-- The bindings behind a clause that may be absent. -/
def clauseBehind (ε : Env) : Option Assign → Env
  | none => ε
  | some a => a.behind ε

/-- The bindings behind the members of an enumeration. -/
def membersBehind (ε : Env) : List EnumMember → Env
  | [] => ε
  | m :: ms => membersBehind ((m.name, .member m.value) :: ε) ms

/-- The bindings behind a statement. -/
def Stmt.behind (ε : Env) : Stmt → Env
  | .assign a => a.behind ε
  | .enumDef _ d => membersBehind ε d.members
  | _ => ε

/-- The bindings behind statements in order. -/
def stmtsBehind (ε : Env) : List Stmt → Env
  | [] => ε
  | s :: ss => stmtsBehind (s.behind ε) ss

/-! ## Sites -/

/-- The sites of an expression. -/
def exprSites (ε : Env) (e : Expr) : List Site := (exprNodes e).map (Site.mk ε)

/-- The sites of an assignment; its own binding shows only behind it. -/
def Assign.sites (ε : Env) (a : Assign) : List Site := a.nodes.map (Site.mk ε)

/-- The sites of assignments in order. -/
def assignsSites (ε : Env) : List Assign → List Site
  | [] => []
  | a :: as => a.sites ε ++ assignsSites (a.behind ε) as

/-- The sites of a clause that may be absent. -/
def clauseSites (ε : Env) (a : Option Assign) : List Site := (clauseNodes a).map (Site.mk ε)

mutual

/-- The sites of a statement, in the order of the walk. -/
def Stmt.sites (ε : Env) : Stmt → List Site
  | s@(.block b) => ⟨ε, .stmt s⟩ :: b.sites ε
  | .assign a => a.sites ε
  | s@(.eval _ e) | s@(.ret _ e) => ⟨ε, .stmt s⟩ :: exprSites ε e
  | s@(.assignMember _ t v) => ⟨ε, .stmt s⟩ :: (exprSites ε t ++ exprSites ε v)
  | s@(.cond _ c t none) => ⟨ε, .stmt s⟩ :: (exprSites ε c ++ t.sites ε)
  | s@(.cond _ c t (some f)) => ⟨ε, .stmt s⟩ :: (exprSites ε c ++ t.sites ε ++ f.sites ε)
  | s@(.loop _ c b) => ⟨ε, .stmt s⟩ :: (exprSites ε c ++ b.sites ε)
  | s@(.forLoop _ i c st b) =>
    ⟨ε, .stmt s⟩ :: (((nodesOfOption c).map .expr).map (Site.mk (clauseBehind ε i)) ++ clauseSites ε i
      ++ clauseSites (clauseBehind ε i) st ++ b.sites (clauseBehind (clauseBehind ε i) st))
  | s@(.funcDef _ _ _ _ b) => ⟨ε, .stmt s⟩ :: b.sites ε
  | s@(.leave _) | s@(.code _ _) | s@(.bitfieldDef _ _) | s@(.enumDef _ _) | s@(.require _ _) =>
    [⟨ε, .stmt s⟩]

/-- The sites of statements in order. -/
def stmtsSites (ε : Env) : List Stmt → List Site
  | [] => []
  | s :: ss => s.sites ε ++ stmtsSites (s.behind ε) ss

/-- The sites of a block, its overrides first. -/
def Block.sites (ε : Env) : Block → List Site
  | .mk os ss _ => assignsSites ε os ++ stmtsSites (assignsBehind ε os) ss

end

/-! ## Sites are the nodes of the walk -/

/-- The nodes of sites under one environment. -/
private theorem map_node_mk (ε : Env) (xs : List Node) : (xs.map (Site.mk ε)).map Site.node = xs := by
  rw [List.map_map]
  exact List.map_id' xs

/-- The sites of assignments are their nodes. -/
private theorem map_node_assignsSites (ε : Env) (as : List Assign) :
    (assignsSites ε as).map Site.node = as.flatMap Assign.nodes := by
  induction as generalizing ε with
  | nil => rfl
  | cons a as ih =>
    simp only [assignsSites, Assign.sites, List.map_append, map_node_mk, ih, List.flatMap_cons]

mutual

/-- The sites of a statement are its nodes. -/
theorem Stmt.map_node_sites (ε : Env) : (s : Stmt) → (s.sites ε).map Site.node = s.nodes
  -- A block is walked like its statements.
  | .block b => by simp only [Stmt.sites, List.map_cons, Block.map_node_sites ε b, Stmt.nodes]
  | .assign a => map_node_mk ε a.nodes
  | .eval _ e | .ret _ e => by
    simp only [Stmt.sites, exprSites, List.map_cons, map_node_mk, Stmt.nodes]
  | .assignMember _ t v => by
    simp only [Stmt.sites, exprSites, List.map_cons, List.map_append, map_node_mk, Stmt.nodes]
  -- The branches are walked in order, with or without the second one.
  | .cond _ c t none => by
    simp only [Stmt.sites, exprSites, List.map_cons, List.map_append, map_node_mk,
      Block.map_node_sites ε t, Stmt.nodes]
  | .cond _ c t (some f) => by
    simp only [Stmt.sites, exprSites, List.map_cons, List.map_append, map_node_mk,
      Block.map_node_sites ε t, Block.map_node_sites ε f, Stmt.nodes]
  | .loop _ c b => by
    simp only [Stmt.sites, exprSites, List.map_cons, List.map_append, map_node_mk,
      Block.map_node_sites ε b, Stmt.nodes]
  -- The environments of the clauses differ, and their nodes are the same.
  | .forLoop _ i c st b => by
    simp only [Stmt.sites, clauseSites, List.map_cons, List.map_append, map_node_mk,
      Block.map_node_sites _ b, Stmt.nodes]
  | .funcDef _ _ _ _ b => by
    simp only [Stmt.sites, List.map_cons, Block.map_node_sites ε b, Stmt.nodes]
  -- These statements are one node.
  | .leave _ | .code _ _ | .bitfieldDef _ _ | .enumDef _ _ | .require _ _ => rfl

/-- The sites of statements are their nodes. -/
private theorem map_node_stmtsSites (ε : Env) : (ss : List Stmt) →
    (stmtsSites ε ss).map Site.node = stmtsNodes ss
  | [] => rfl
  | s :: ss => by
    simp only [stmtsSites, List.map_append, Stmt.map_node_sites ε s, map_node_stmtsSites _ ss,
      stmtsNodes]

/-- The sites of a block are its nodes. -/
theorem Block.map_node_sites (ε : Env) : (b : Block) → (b.sites ε).map Site.node = b.nodes
  | .mk os ss _ => by
    simp only [Block.sites, List.map_append, map_node_assignsSites, map_node_stmtsSites _ ss,
      Block.nodes]

end

/-! ## Joined statements -/

/-- The bindings behind joined statements. -/
theorem stmtsBehind_append (ε : Env) (ss ts : List Stmt) :
    stmtsBehind ε (ss ++ ts) = stmtsBehind (stmtsBehind ε ss) ts := by
  induction ss generalizing ε with
  | nil => rfl
  | cons s ss ih => exact ih (s.behind ε)

/-- The sites of joined statements. -/
theorem stmtsSites_append (ε : Env) (ss ts : List Stmt) :
    stmtsSites ε (ss ++ ts) = stmtsSites ε ss ++ stmtsSites (stmtsBehind ε ss) ts := by
  induction ss generalizing ε with
  | nil => rfl
  | cons s ss ih =>
    simp only [List.cons_append, stmtsSites, ih, stmtsBehind, List.append_assoc]

/-- The sites of a single statement. -/
@[simp] theorem stmtsSites_singleton (ε : Env) (s : Stmt) : stmtsSites ε [s] = s.sites ε := by
  rw [stmtsSites, stmtsSites, List.append_nil]

/-! ## Further bindings around a tree -/

/-- The same site with further bindings around its tree. -/
def Site.under (δ : Env) (s : Site) : Site := ⟨s.env ++ δ, s.node⟩

/-- Further bindings stay behind an assignment. -/
theorem Assign.behind_append (ε δ : Env) (a : Assign) : a.behind (ε ++ δ) = a.behind ε ++ δ := by
  unfold Assign.behind
  split <;> rfl

/-- Further bindings stay behind assignments. -/
theorem assignsBehind_append (ε δ : Env) (as : List Assign) :
    assignsBehind (ε ++ δ) as = assignsBehind ε as ++ δ := by
  induction as generalizing ε with
  | nil => rfl
  | cons a as ih => rw [assignsBehind, a.behind_append, ih, assignsBehind]

/-- Further bindings stay behind a clause. -/
theorem clauseBehind_append (ε δ : Env) (a : Option Assign) :
    clauseBehind (ε ++ δ) a = clauseBehind ε a ++ δ := by
  cases a with
  | none => rfl
  | some a => exact a.behind_append ε δ

/-- Further bindings stay behind the members of an enumeration. -/
private theorem membersBehind_append (ε δ : Env) (ms : List EnumMember) :
    membersBehind (ε ++ δ) ms = membersBehind ε ms ++ δ := by
  induction ms generalizing ε with
  | nil => rfl
  | cons m ms ih => exact ih ((m.name, .member m.value) :: ε)

/-- Further bindings stay behind a statement. -/
theorem Stmt.behind_append (ε δ : Env) (s : Stmt) : s.behind (ε ++ δ) = s.behind ε ++ δ := by
  cases s with
  | assign a => exact a.behind_append ε δ
  | enumDef _ d => exact membersBehind_append ε δ d.members
  | _ => rfl

/-- Further bindings stay behind statements. -/
theorem stmtsBehind_under (ε δ : Env) (ss : List Stmt) :
    stmtsBehind (ε ++ δ) ss = stmtsBehind ε ss ++ δ := by
  induction ss generalizing ε with
  | nil => rfl
  | cons s ss ih => rw [stmtsBehind, s.behind_append, ih, stmtsBehind]

/-- Sites in one environment under further bindings. -/
private theorem map_mk_under (ε δ : Env) (xs : List Node) :
    xs.map (Site.mk (ε ++ δ)) = (xs.map (Site.mk ε)).map (·.under δ) := by
  rw [List.map_map]
  rfl

/-- Assignments under further bindings. -/
private theorem assignsSites_under (ε δ : Env) (as : List Assign) :
    assignsSites (ε ++ δ) as = (assignsSites ε as).map (·.under δ) := by
  induction as generalizing ε with
  | nil => rfl
  | cons a as ih =>
    simp only [assignsSites, Assign.sites, a.behind_append, ih, List.map_append, map_mk_under]

mutual

/-- A statement under further bindings. -/
theorem Stmt.sites_under (ε δ : Env) : (s : Stmt) → s.sites (ε ++ δ) = (s.sites ε).map (·.under δ)
  -- What a block declares comes in front of what is around it.
  | .block b => by simp only [Stmt.sites, Block.sites_under ε δ b, List.map_cons]; rfl
  | .assign a => map_mk_under ε δ a.nodes
  | .eval _ e | .ret _ e => by
    simp only [Stmt.sites, exprSites, map_mk_under, List.map_cons]
    rfl
  | .assignMember _ t v => by
    simp only [Stmt.sites, exprSites, map_mk_under, List.map_cons, List.map_append]
    rfl
  -- All parts of a condition are under the same environment.
  | .cond _ c t none => by
    simp only [Stmt.sites, exprSites, map_mk_under, Block.sites_under ε δ t, List.map_cons,
      List.map_append]
    rfl
  | .cond _ c t (some f) => by
    simp only [Stmt.sites, exprSites, map_mk_under, Block.sites_under ε δ t, Block.sites_under ε δ f,
      List.map_cons, List.map_append]
    rfl
  | .loop _ c b => by
    simp only [Stmt.sites, exprSites, map_mk_under, Block.sites_under ε δ b, List.map_cons,
      List.map_append]
    rfl
  -- What clauses declare comes in front of what is around the loop.
  | .forLoop _ i c st b => by
    simp only [Stmt.sites, clauseSites, clauseBehind_append, map_mk_under, Block.sites_under _ δ b,
      List.map_cons, List.map_append]
    rfl
  | .funcDef _ _ _ _ b => by simp only [Stmt.sites, Block.sites_under ε δ b, List.map_cons]; rfl
  -- These statements are one place.
  | .leave _ | .code _ _ | .bitfieldDef _ _ | .enumDef _ _ | .require _ _ => rfl

/-- Statements under further bindings. -/
theorem stmtsSites_under (ε δ : Env) : (ss : List Stmt) →
    stmtsSites (ε ++ δ) ss = (stmtsSites ε ss).map (·.under δ)
  | [] => rfl
  | s :: ss => by
    simp only [stmtsSites, s.behind_append, Stmt.sites_under ε δ s, stmtsSites_under _ δ ss,
      List.map_append]

/-- A block under further bindings. -/
theorem Block.sites_under (ε δ : Env) : (b : Block) → b.sites (ε ++ δ) = (b.sites ε).map (·.under δ)
  | .mk os ss _ => by
    simp only [Block.sites, assignsSites_under, assignsBehind_append, stmtsSites_under _ δ ss,
      List.map_append]

end

end AisScript
