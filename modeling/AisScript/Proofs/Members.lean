import AisScript.Proofs.Pipeline
import AisScript.Proofs.Freshening

/-!
# Members of enumerations by name and by binding

References to members of enumerations are replaced behind the expansion, by name: what counts is the
innermost declaration in front of a reference.  Typing has recorded on every reference what it means,
at a time when the bodies of functions still stood at their definitions.  Both replace the same
references exactly if no reference of the expanded program is misread, and there are accepted programs
with references that are.

* `Block.replace`                       replaces the variables of a tree, place by place
* `Block.substituteEnums_eq`            substitution is the replacement by name
* `Block.replace_eq_iff`                two replacements agree if they agree at every place
* `Block.substituteEnums_agrees_iff`    substitution follows the bindings exactly if nothing is misread
-/

namespace AisScript

/-! ## Replacing variables -/

/-- What becomes of a variable, from what names are bound to in front of it, its place and type, its name
and its binding. -/
abbrev Reading := Env → ExprInfo → Text → Option Binding → Expr

mutual

/-- Replaces the variables of an expression. -/
def Expr.replace (r : Reading) (ε : Env) : Expr → Expr
  | .const i v => .const i v
  | .var i n b => r ε i n b
  | .binary i op x y => .binary i op (x.replace r ε) (y.replace r ε)
  | .unary i op x => .unary i op (x.replace r ε)
  | .call i n ns args t => .call i n ns (replaceList r ε args) t
  | .member i a b n ns => .member i a (b.replace r ε) n ns
  | .query i k op u x c =>
    .query i k op (replaceOption r ε u) (replaceOption r ε x) (replaceOption r ε c)

/-- Replaces the variables of several expressions. -/
def replaceList (r : Reading) (ε : Env) : List Expr → List Expr
  | [] => []
  | e :: es => e.replace r ε :: replaceList r ε es

/-- Replaces the variables of an expression that may be absent. -/
def replaceOption (r : Reading) (ε : Env) : Option Expr → Option Expr
  | none => none
  | some e => some (e.replace r ε)

end

/-- Replaces the variables in the value of an assignment. -/
def Assign.replace (r : Reading) (ε : Env) : Assign → Assign
  | .mk i v => .mk i (v.replace r ε)

/-- Replaces the variables in the values of assignments. -/
def replaceAssigns (r : Reading) (ε : Env) : List Assign → List Assign
  | [] => []
  | a :: as => a.replace r ε :: replaceAssigns r (a.behind ε) as

mutual

/-- Replaces the variables of a statement. -/
def Stmt.replace (r : Reading) (ε : Env) : Stmt → Stmt
  | .block b => .block (b.replace r ε)
  | .eval s e => .eval s (e.replace r ε)
  | .assign a => .assign (a.replace r ε)
  | .assignMember s t v => .assignMember s (t.replace r ε) (v.replace r ε)
  | .cond s c t f => .cond s (c.replace r ε) (t.replace r ε) (replaceElse r ε f)
  | .loop s c b => .loop s (c.replace r ε) (b.replace r ε)
  | .forLoop s i c st b =>
    -- As in `Stmt.sites`: test and step are read behind the first clause, the body behind both.
    let δ := clauseBehind ε i
    .forLoop s (i.map (·.replace r ε)) (replaceOption r δ c) (st.map (·.replace r δ))
      (b.replace r (clauseBehind δ st))
  | .ret s v => .ret s (v.replace r ε)
  | .funcDef s n ns ps b => .funcDef s n ns ps (b.replace r ε)
  | .leave s => .leave s
  | .code s t => .code s t
  | .bitfieldDef s d => .bitfieldDef s d
  | .enumDef s d => .enumDef s d
  | .require s p => .require s p

/-- Replaces the variables of statements. -/
def replaceStmts (r : Reading) (ε : Env) : List Stmt → List Stmt
  | [] => []
  | s :: ss => s.replace r ε :: replaceStmts r (s.behind ε) ss

/-- Replaces the variables of a block. -/
def Block.replace (r : Reading) (ε : Env) : Block → Block
  | .mk os ss sp => .mk (replaceAssigns r ε os) (replaceStmts r (assignsBehind ε os) ss) sp

/-- Replaces the variables of an else block that may be absent. -/
def replaceElse (r : Reading) (ε : Env) : Option Block → Option Block
  | none => none
  | some b => some (b.replace r ε)

end

/-- A variable, or the value it stands for. -/
def valueOr (value : Option Int64) (i : ExprInfo) (n : Text) (b : Option Binding) : Expr :=
  match value with
  | some v => .literal (.int v) i.span
  | none => .var i n b

/-- Reads a variable as the member of an enumeration that is declared last in front of it. -/
def byName : Reading := fun ε i n b => valueOr ((ε.lookup n).bind Binder.value?) i n b

/-- Reads a variable as the member of an enumeration that typing found it to mean. -/
def byBinding : Reading := fun _ i n b => valueOr (b.bind Binding.value?) i n b

/-- A variable that is a member of an enumeration by name and not by binding, or the other way, or that
is one with another value. -/
def Site.Misread (s : Site) : Prop :=
  ∃ i n b, s.node = .expr (.var i n b)
    ∧ (s.env.lookup n).bind Binder.value? ≠ b.bind Binding.value?

/-! ## Constants and what is declared -/

/-- The constants that names stand for are the members of enumerations that are declared. -/
def Constants.Models (cs : Constants) (ε : Env) : Prop :=
  ∀ n, match ε.lookup n with
    | some (.member v) => ∃ s, cs.lookup n = some (some (.literal (.int v) s))
    | some (.variable _) => cs.lookup n = some none
    | none => cs.lookup n = none

namespace Constants.Models

variable {cs : Constants} {ε : Env}

/-- Nothing is declared in front of a program. -/
theorem empty : Models {} [] := fun _ => rfl

/-- An opened block declares nothing yet. -/
theorem push (h : cs.Models ε) : Models (Scope.push cs) ε := by
  intro n
  have hn := h n
  rwa [← Scope.lookup_push] at hn

/-- A declaration hides constants of its name. -/
theorem declare (h : cs.Models ε) (m : Text) (b : Option Binding) :
    Models (Scope.define cs m none) ((m, .variable b) :: ε) := by
  intro n
  have hn := h n
  rw [List.lookup_cons, Scope.lookup_define]
  by_cases heq : n = m
  · rw [heq, beq_self_eq_true, if_pos rfl]
  · rw [beq_false_of_ne heq, if_neg heq]
    exact hn

/-- Members of an enumeration become constants. -/
theorem bindMembers (h : cs.Models ε) (d : Enumeration) :
    Models (Constants.bindMembers cs d) (membersBehind ε d.members) := by
  unfold Constants.bindMembers
  generalize d.members = ms
  -- By induction on the members: each hides what stood under its name.
  induction ms generalizing cs ε with
  | nil => exact h
  | cons m ms ih =>
    refine ih fun n => ?_
    have hn := h n
    rw [List.lookup_cons, Scope.lookup_define]
    -- The member itself, or another name.
    by_cases heq : n = m.name
    · rw [heq, beq_self_eq_true, if_pos rfl]
      exact ⟨d.site, rfl⟩
    · rw [beq_false_of_ne heq, if_neg heq]
      exact hn

end Constants.Models

/-- The constants behind the members of an enumeration have the same outer frames. -/
private theorem outer_bindMembers (cs : Constants) (d : Enumeration) :
    Scope.outer (Constants.bindMembers cs d) = cs.outer := by
  unfold Constants.bindMembers
  generalize d.members = ms
  induction ms generalizing cs with
  | nil => rfl
  | cons m ms ih => exact ih _

/-! ## Substitution by name -/

mutual

/-- Substitution in an expression reads its variables by name. -/
private theorem Expr.substitute_eq {cs : Constants} {ε : Env} (h : cs.Models ε) : (e : Expr) →
    e.substitute cs = e.replace byName ε
  | .const _ _ => rfl
  | .var i n b => by
    have hn := h n
    -- The constants and the environment say the same of the name.
    simp only [Expr.substitute, Expr.replace, byName]
    cases hε : ε.lookup n with
    | none =>
      rw [hε] at hn
      rw [hn]
      rfl
    | some w =>
      -- A variable hides any constant, and a member is one.
      rw [hε] at hn
      cases w with
      | «variable» c =>
        rw [hn]
        rfl
      | member v =>
        obtain ⟨s, hs⟩ := hn
        rw [hs]
        rfl
  | .binary _ _ x y => by
    simp only [Expr.substitute, Expr.replace, Expr.substitute_eq h x, Expr.substitute_eq h y]
  | .unary _ _ x => by simp only [Expr.substitute, Expr.replace, Expr.substitute_eq h x]
  | .call _ _ _ args _ => by simp only [Expr.substitute, Expr.replace, substituteList_eq h args]
  | .member _ _ b _ _ => by simp only [Expr.substitute, Expr.replace, Expr.substitute_eq h b]
  | .query _ _ _ u x c => by
    simp only [Expr.substitute, Expr.replace, substituteOption_eq h u, substituteOption_eq h x,
      substituteOption_eq h c]

/-- Substitution in several expressions reads their variables by name. -/
private theorem substituteList_eq {cs : Constants} {ε : Env} (h : cs.Models ε) : (es : List Expr) →
    substituteList cs es = replaceList byName ε es
  | [] => rfl
  | e :: es => by
    simp only [substituteList, replaceList, Expr.substitute_eq h e, substituteList_eq h es]

/-- Substitution in an expression that may be absent reads its variables by name. -/
private theorem substituteOption_eq {cs : Constants} {ε : Env} (h : cs.Models ε) : (e : Option Expr) →
    substituteOption cs e = replaceOption byName ε e
  | none => rfl
  | some e => by simp only [substituteOption, replaceOption, Expr.substitute_eq h e]

end

/-- A step of the substitution: it gives `x`, the constants behind it are those declared in `ε`, and the
frames around the current one stay as they are. -/
private def Substitutes {α : Type} (r : Except Fault (α × Constants)) (x : α) (cs : Constants) (ε : Env) :
    Prop :=
  ∃ cs' : Constants, r = .ok (x, cs') ∧ cs'.Models ε ∧ cs'.outer = cs.outer

/-- Closing a block that was opened in front of some steps brings the constants back. -/
private theorem closed_eq {cs cs' : Constants} (h : cs'.outer = (Scope.push cs).outer) :
    Constants.closed cs' = cs := by
  obtain ⟨inner, outer⟩ := cs'
  obtain rfl : outer = cs.inner :: cs.outer := h
  rfl

/-- Substitution in an assignment. -/
private theorem Assign.substitute_eq {cs : Constants} {ε : Env} (h : cs.Models ε) (a : Assign) :
    Substitutes (a.substitute keepAssign cs) (some (a.replace byName ε)) cs (a.behind ε) := by
  obtain ⟨i, v⟩ := a
  refine ⟨if i.declares then Scope.define cs i.name none else cs, ?_, ?_, ?_⟩
  · rw [Assign.replace, ← Expr.substitute_eq h v]
    rfl
  · rw [Assign.behind, Assign.info]
    split
    · exact h.declare i.name i.binding
    · exact h
  · split <;> rfl

/-- Substitution in a clause that may be absent. -/
private theorem substituteClause_eq {cs : Constants} {ε : Env} (h : cs.Models ε) (a : Option Assign) :
    Substitutes (substituteClause keepAssign cs a) (a.map (·.replace byName ε)) cs (clauseBehind ε a) := by
  cases a with
  | none => exact ⟨cs, rfl, h, rfl⟩
  | some a => exact Assign.substitute_eq h a

/-- Substitution in assignments in order. -/
private theorem substituteAssigns_eq {cs : Constants} {ε : Env} (h : cs.Models ε) (as : List Assign) :
    Substitutes (substituteAssigns keepAssign cs as) (replaceAssigns byName ε as) cs
      (assignsBehind ε as) := by
  induction as generalizing cs ε with
  | nil => exact ⟨cs, rfl, h, rfl⟩
  | cons a as ih =>
    obtain ⟨cs₁, ha, hm₁, ho₁⟩ := Assign.substitute_eq h a
    obtain ⟨cs₂, has, hm₂, ho₂⟩ := ih hm₁
    refine ⟨cs₂, ?_, hm₂, ho₂.trans ho₁⟩
    simp only [substituteAssigns, ha, has, bind, Except.bind]
    rfl

mutual

/-- Substitution in a statement reads its variables by name. -/
private theorem Stmt.substitute_eq {cs : Constants} {ε : Env} (h : cs.Models ε) : (s : Stmt) →
    SettledNodes s.nodes →
      Substitutes (s.substitute keepAssign cs) [s.replace byName ε] cs (s.behind ε)
  | .block b, hs => by
    -- What is in the block is read in a frame of its own, and nothing of it is seen behind.
    have hb := Block.substituteIn_eq h b (settled_cons.1 hs).2
    refine ⟨cs, ?_, h, rfl⟩
    simp only [Stmt.substitute, hb, bind, Except.bind]
    rfl
  | .assign a, _ => by
    obtain ⟨cs₁, ha, hm, ho⟩ := Assign.substitute_eq h a
    refine ⟨cs₁, ?_, hm, ho⟩
    simp only [Stmt.substitute, ha, bind, Except.bind]
    rfl
  | .eval _ e, _ => ⟨cs, by rw [Stmt.substitute, Expr.substitute_eq h e]; rfl, h, rfl⟩
  | .assignMember _ t v, _ =>
    ⟨cs, by rw [Stmt.substitute, Expr.substitute_eq h t, Expr.substitute_eq h v]; rfl, h, rfl⟩
  -- The branches are read with the constants in front of the statement.
  | .cond _ c t none, hs => by
    have ht := Block.substituteIn_eq h t (settled_append.1 (settled_cons.1 hs).2).2
    refine ⟨cs, ?_, h, rfl⟩
    simp only [Stmt.substitute, ht, substituteElse, Expr.substitute_eq h c, bind, Except.bind]
    rfl
  | .cond _ c t (some f), hs => by
    obtain ⟨hct, hf⟩ := settled_append.1 (settled_cons.1 hs).2
    have ht := Block.substituteIn_eq h t (settled_append.1 hct).2
    have hf := Block.substituteIn_eq h f hf
    refine ⟨cs, ?_, h, rfl⟩
    simp only [Stmt.substitute, ht, substituteElse, hf, Expr.substitute_eq h c, bind, Except.bind]
    rfl
  | .loop _ c b, hs => by
    have hb := Block.substituteIn_eq h b (settled_append.1 (settled_cons.1 hs).2).2
    refine ⟨cs, ?_, h, rfl⟩
    simp only [Stmt.substitute, hb, Expr.substitute_eq h c, bind, Except.bind]
    rfl
  | .forLoop _ i c st b, hs => by
    -- Each clause is read with the constants behind the clause in front of it.
    obtain ⟨cs₁, hi, hm₁, ho₁⟩ := substituteClause_eq h.push i
    obtain ⟨cs₂, hst, hm₂, ho₂⟩ := substituteClause_eq hm₁ st
    have hb := Block.substituteIn_eq hm₂ b (settled_append.1 (settled_cons.1 hs).2).2
    refine ⟨cs, ?_, h, rfl⟩
    simp only [Stmt.substitute, hi, substituteOption_eq hm₁ c, hst, hb, bind, Except.bind,
      closed_eq (ho₂.trans ho₁)]
    rfl
  -- Its members are constants from now on.
  | .enumDef _ d, _ => ⟨_, rfl, h.bindMembers d, outer_bindMembers cs d⟩
  | .leave _, _ | .code _ _, _ | .bitfieldDef _ _, _ => ⟨cs, rfl, h, rfl⟩
  -- Nothing of this kind is settled.
  | .ret _ _, hs | .funcDef _ _ _ _ _, hs | .require _ _, hs => (settled_cons.1 hs).1.elim

/-- Substitution in statements reads their variables by name. -/
private theorem substituteStmts_eq {cs : Constants} {ε : Env} (h : cs.Models ε) : (ss : List Stmt) →
    SettledNodes (stmtsNodes ss) →
      Substitutes (substituteStmts keepAssign cs ss) (replaceStmts byName ε ss) cs (stmtsBehind ε ss)
  | [], _ => ⟨cs, rfl, h, rfl⟩
  | s :: ss, hs => by
    obtain ⟨hs, hss⟩ := settled_append.1 hs
    obtain ⟨cs₁, hs, hm₁, ho₁⟩ := Stmt.substitute_eq h s hs
    obtain ⟨cs₂, hss, hm₂, ho₂⟩ := substituteStmts_eq hm₁ ss hss
    refine ⟨cs₂, ?_, hm₂, ho₂.trans ho₁⟩
    simp only [substituteStmts, hs, hss, bind, Except.bind]
    rfl

/-- Substitution in a block reads its variables by name, and leaves the constants around it alone. -/
private theorem Block.substituteIn_eq {cs : Constants} {ε : Env} (h : cs.Models ε) : (b : Block) →
    SettledNodes b.nodes → b.substituteIn keepAssign cs = .ok (b.replace byName ε, cs)
  | .mk os ss sp, hb => by
    obtain ⟨cs₁, hos, hm₁, ho₁⟩ := substituteAssigns_eq h.push os
    obtain ⟨cs₂, hss, _, ho₂⟩ := substituteStmts_eq hm₁ ss (settled_append.1 hb).2
    simp only [Block.substituteIn, hos, hss, bind, Except.bind, closed_eq (ho₂.trans ho₁)]
    rfl

end

/-- Substitution in a settled program reads its variables by name. -/
theorem Block.substituteEnums_eq {b : Block} (h : SettledNodes b.nodes) :
    b.substituteEnums = .ok (b.replace byName []) := by
  simp only [Block.substituteEnums, Block.substituteIn_eq Constants.Models.empty b h, bind, Except.bind]
  rfl

/-! ## Replacements that agree -/

/-- Two readings agree at a place. -/
def Site.Agrees (r r' : Reading) (s : Site) : Prop :=
  ∀ i n b, s.node = .expr (.var i n b) → r s.env i n b = r' s.env i n b

section Agree

variable (r r' : Reading)

/-- Whether a node is a variable. -/
private def Node.isVariable : Node → Bool
  | .expr (.var _ _ _) => true
  | _ => false

/-- A node that is no variable is read alike. -/
private theorem agrees_cons {x : Node} {ε : Env} {ss : List Site} (hx : x.isVariable = false) :
    (∀ s ∈ ⟨ε, x⟩ :: ss, s.Agrees r r') ↔ ∀ s ∈ ss, s.Agrees r r' := by
  rw [List.forall_mem_cons]
  refine and_iff_right fun i n b h => ?_
  have hvar : x.isVariable = true := congrArg Node.isVariable h
  cases hx.symm.trans hvar

mutual

/-- Replacements in an expression agree exactly if they agree at every variable. -/
private theorem Expr.replace_eq_iff (ε : Env) : (e : Expr) →
    (e.replace r ε = e.replace r' ε ↔ ∀ s ∈ exprSites ε e, s.Agrees r r')
  -- A constant is the same under every replacement.
  | .const i v => by
    simp only [exprSites, exprNodes, Expr.nodes, List.map_cons, List.map_nil]
    rw [agrees_cons r r' (x := .expr (.const i v)) rfl]
    exact ⟨fun _ => nofun, fun _ => rfl⟩
  | .var i n b => by
    simp only [exprSites, exprNodes, Expr.nodes, List.map_cons, List.map_nil, List.forall_mem_singleton,
      Expr.replace]
    -- The only reference is the variable itself.
    refine ⟨fun h i' n' b' heq => ?_, fun h => h i n b rfl⟩
    cases heq
    exact h
  -- An operator is kept, so both operands have to agree.
  | .binary i op x y => by
    have hx := Expr.replace_eq_iff ε x
    have hy := Expr.replace_eq_iff ε y
    simp only [exprSites, exprNodes] at hx hy
    simp only [exprSites, exprNodes, Expr.nodes, List.map_cons, List.map_append]
    rw [agrees_cons r r' (x := .expr (.binary i op x y)) rfl, List.forall_mem_append, ← hx, ← hy]
    simp only [Expr.replace, Expr.binary.injEq, true_and]
  | .unary i op x => by
    have hx := Expr.replace_eq_iff ε x
    simp only [exprSites, exprNodes] at hx
    simp only [exprSites, exprNodes, Expr.nodes, List.map_cons]
    rw [agrees_cons r r' (x := .expr (.unary i op x)) rfl, ← hx]
    simp only [Expr.replace, Expr.unary.injEq, true_and]
  | .call i n ns args t => by
    have hargs := replaceList_eq_iff ε args
    simp only [exprSites, exprNodes, Expr.nodes, List.map_cons]
    rw [agrees_cons r r' (x := .expr (.call i n ns args t)) rfl, ← hargs]
    simp only [Expr.replace, Expr.call.injEq, true_and, and_true]
  | .member i a b n ns => by
    have hb := Expr.replace_eq_iff ε b
    simp only [exprSites, exprNodes] at hb
    simp only [exprSites, exprNodes, Expr.nodes, List.map_cons]
    rw [agrees_cons r r' (x := .expr (.member i a b n ns)) rfl, ← hb]
    simp only [Expr.replace, Expr.member.injEq, true_and, and_true]
  -- The three parts of a query, in the order of the walk.
  | .query i k op u x c => by
    have hu := replaceOption_eq_iff ε u
    have hx := replaceOption_eq_iff ε x
    have hc := replaceOption_eq_iff ε c
    simp only [exprSites, exprNodes, Expr.nodes, List.map_cons, List.map_append]
    rw [agrees_cons r r' (x := .expr (.query i k op u x c)) rfl, List.forall_mem_append, List.forall_mem_append,
      ← hu, ← hx, ← hc]
    simp only [Expr.replace, Expr.query.injEq, true_and, and_assoc]

/-- Replacements in several expressions agree exactly if they agree at every variable. -/
private theorem replaceList_eq_iff (ε : Env) : (es : List Expr) →
    (replaceList r ε es = replaceList r' ε es
      ↔ ∀ s ∈ ((nodesOfList es).map Node.expr).map (Site.mk ε), s.Agrees r r')
  | [] => ⟨fun _ => nofun, fun _ => rfl⟩
  | e :: es => by
    have he := Expr.replace_eq_iff ε e
    have hes := replaceList_eq_iff ε es
    simp only [exprSites, exprNodes] at he
    simp only [nodesOfList, List.map_append]
    rw [List.forall_mem_append, ← he, ← hes]
    simp only [replaceList, List.cons.injEq]

/-- Replacements in an expression that may be absent agree exactly if they agree at every variable. -/
private theorem replaceOption_eq_iff (ε : Env) : (e : Option Expr) →
    (replaceOption r ε e = replaceOption r' ε e
      ↔ ∀ s ∈ ((nodesOfOption e).map Node.expr).map (Site.mk ε), s.Agrees r r')
  | none => ⟨fun _ => nofun, fun _ => rfl⟩
  | some e => by
    have he := Expr.replace_eq_iff ε e
    simp only [exprSites, exprNodes] at he
    simp only [nodesOfOption]
    rw [← he]
    simp only [replaceOption, Option.some.injEq]

end

/-- Replacements in an assignment agree exactly if they agree at every variable. -/
private theorem Assign.replace_eq_iff (ε : Env) (a : Assign) :
    a.replace r ε = a.replace r' ε ↔ ∀ s ∈ a.sites ε, s.Agrees r r' := by
  obtain ⟨i, v⟩ := a
  have hv := Expr.replace_eq_iff r r' ε v
  simp only [Assign.sites, Assign.nodes, List.map_cons]
  rw [agrees_cons r r' (x := .stmt (.assign (.mk i v))) rfl, Assign.value]
  rw [exprSites] at hv
  rw [← hv]
  simp only [Assign.replace, Assign.mk.injEq, true_and]

/-- Replacements in a clause that may be absent agree exactly if they agree at every variable. -/
private theorem replaceClause_eq_iff (ε : Env) (a : Option Assign) :
    a.map (·.replace r ε) = a.map (·.replace r' ε) ↔ ∀ s ∈ clauseSites ε a, s.Agrees r r' := by
  cases a with
  | none => exact ⟨fun _ => nofun, fun _ => rfl⟩
  | some a =>
    simp only [Option.map_some, Option.some.injEq]
    exact Assign.replace_eq_iff r r' ε a

/-- Replacements in assignments agree exactly if they agree at every variable. -/
private theorem replaceAssigns_eq_iff (ε : Env) (as : List Assign) :
    replaceAssigns r ε as = replaceAssigns r' ε as ↔ ∀ s ∈ assignsSites ε as, s.Agrees r r' := by
  induction as generalizing ε with
  | nil => exact ⟨fun _ => nofun, fun _ => rfl⟩
  | cons a as ih =>
    simp only [replaceAssigns, List.cons.injEq, assignsSites]
    rw [List.forall_mem_append, Assign.replace_eq_iff r r' ε a, ih]

mutual

/-- Replacements in a statement agree exactly if they agree at every variable. -/
private theorem Stmt.replace_eq_iff (ε : Env) : (s : Stmt) →
    (s.replace r ε = s.replace r' ε ↔ ∀ x ∈ s.sites ε, x.Agrees r r')
  -- In each case, the parts have to agree, and everything else is kept.
  | .block b => by
    rw [Stmt.sites, agrees_cons r r' (x := .stmt (.block b)) rfl, ← Block.replace_eq_iff ε b]
    simp only [Stmt.replace, Stmt.block.injEq]
  | .eval s e => by
    rw [Stmt.sites, agrees_cons r r' (x := .stmt (.eval s e)) rfl, ← Expr.replace_eq_iff r r' ε e]
    simp only [Stmt.replace, Stmt.eval.injEq, true_and]
  | .ret s e => by
    rw [Stmt.sites, agrees_cons r r' (x := .stmt (.ret s e)) rfl, ← Expr.replace_eq_iff r r' ε e]
    simp only [Stmt.replace, Stmt.ret.injEq, true_and]
  | .assign a => by
    rw [Stmt.sites, ← Assign.replace_eq_iff r r' ε a]
    simp only [Stmt.replace, Stmt.assign.injEq]
  | .assignMember s t v => by
    rw [Stmt.sites, agrees_cons r r' (x := .stmt (.assignMember s t v)) rfl, List.forall_mem_append,
      ← Expr.replace_eq_iff r r' ε t, ← Expr.replace_eq_iff r r' ε v]
    simp only [Stmt.replace, Stmt.assignMember.injEq, true_and]
  -- Without a second branch, there are two parts, and with one there are three.
  | .cond s c t none => by
    rw [Stmt.sites, agrees_cons r r' (x := .stmt (.cond s c t none)) rfl, List.forall_mem_append,
      ← Expr.replace_eq_iff r r' ε c, ← Block.replace_eq_iff ε t]
    simp only [Stmt.replace, replaceElse, Stmt.cond.injEq, true_and, and_true]
  | .cond s c t (some f) => by
    rw [Stmt.sites, agrees_cons r r' (x := .stmt (.cond s c t (some f))) rfl, List.forall_mem_append,
      List.forall_mem_append, ← Expr.replace_eq_iff r r' ε c, ← Block.replace_eq_iff ε t,
      ← Block.replace_eq_iff ε f]
    simp only [Stmt.replace, replaceElse, Stmt.cond.injEq, Option.some.injEq, true_and, and_assoc]
  | .loop s c b => by
    rw [Stmt.sites, agrees_cons r r' (x := .stmt (.loop s c b)) rfl, List.forall_mem_append,
      ← Expr.replace_eq_iff r r' ε c, ← Block.replace_eq_iff ε b]
    simp only [Stmt.replace, Stmt.loop.injEq, true_and]
  | .forLoop s i c st b => by
    rw [Stmt.sites, agrees_cons r r' (x := .stmt (.forLoop s i c st b)) rfl, List.forall_mem_append,
      List.forall_mem_append, List.forall_mem_append, ← replaceOption_eq_iff r r' _ c,
      ← replaceClause_eq_iff r r' ε i, ← replaceClause_eq_iff r r' _ st, ← Block.replace_eq_iff _ b]
    simp only [Stmt.replace, Stmt.forLoop.injEq, true_and]
    -- The walk looks at the test in front of the first clause.
    exact ⟨fun ⟨hi, hc, hst, hb⟩ => ⟨⟨⟨hc, hi⟩, hst⟩, hb⟩, fun ⟨⟨⟨hc, hi⟩, hst⟩, hb⟩ => ⟨hi, hc, hst, hb⟩⟩
  | .funcDef s n ns ps b => by
    rw [Stmt.sites, agrees_cons r r' (x := .stmt (.funcDef s n ns ps b)) rfl, ← Block.replace_eq_iff ε b]
    simp only [Stmt.replace, Stmt.funcDef.injEq, true_and]
  -- Nothing is read in these statements.
  | .leave s => ⟨fun _ => (agrees_cons r r' (x := .stmt (.leave s)) rfl).2 nofun, fun _ => rfl⟩
  | .code s t => ⟨fun _ => (agrees_cons r r' (x := .stmt (.code s t)) rfl).2 nofun, fun _ => rfl⟩
  | .bitfieldDef s d =>
    ⟨fun _ => (agrees_cons r r' (x := .stmt (.bitfieldDef s d)) rfl).2 nofun, fun _ => rfl⟩
  | .enumDef s d => ⟨fun _ => (agrees_cons r r' (x := .stmt (.enumDef s d)) rfl).2 nofun, fun _ => rfl⟩
  | .require s p => ⟨fun _ => (agrees_cons r r' (x := .stmt (.require s p)) rfl).2 nofun, fun _ => rfl⟩

/-- Replacements in statements agree exactly if they agree at every variable. -/
private theorem replaceStmts_eq_iff (ε : Env) : (ss : List Stmt) →
    (replaceStmts r ε ss = replaceStmts r' ε ss ↔ ∀ x ∈ stmtsSites ε ss, x.Agrees r r')
  | [] => ⟨fun _ => nofun, fun _ => rfl⟩
  | s :: ss => by
    simp only [replaceStmts, List.cons.injEq, stmtsSites]
    rw [List.forall_mem_append, Stmt.replace_eq_iff ε s, replaceStmts_eq_iff _ ss]

/-- Replacements in a block agree exactly if they agree at every variable. -/
theorem Block.replace_eq_iff (ε : Env) : (b : Block) →
    (b.replace r ε = b.replace r' ε ↔ ∀ x ∈ b.sites ε, x.Agrees r r')
  | .mk os ss sp => by
    simp only [Block.replace, Block.mk.injEq, Block.sites, and_true]
    rw [List.forall_mem_append, replaceAssigns_eq_iff r r' ε os, replaceStmts_eq_iff _ ss]

end

end Agree

/-! ## Programs -/

/-- A variable stands for its value or for itself. -/
private theorem valueOr_inj {v w : Option Int64} {i : ExprInfo} {n : Text} {b : Option Binding}
    (h : valueOr v i n b = valueOr w i n b) : v = w := by
  cases v <;> cases w
  · rfl
  · exact nomatch h
  · exact nomatch h
  · simp only [valueOr, Expr.literal, Expr.const.injEq, Literal.int.injEq] at h
    rw [h.2]

/-- Reading by name and by binding agree exactly where nothing is misread. -/
private theorem Site.agrees_iff (s : Site) : s.Agrees byName byBinding ↔ ¬s.Misread := by
  constructor
  · rintro h ⟨i, n, b, hs, hne⟩
    exact hne (valueOr_inj (h i n b hs))
  · intro h i n b hs
    have heq : (s.env.lookup n).bind Binder.value? = b.bind Binding.value? :=
      Classical.byContradiction fun hne => h ⟨i, n, b, hs, hne⟩
    exact congrArg (fun v => valueOr v i n b) heq

/-- In an accepted program, substitution replaces exactly those references that typing found to mean
members of enumerations, each by the value of its member, if and only if no reference of the expanded
program is misread. -/
theorem Block.substituteEnums_agrees_iff {h : Host} (hh : ∀ g ∈ h.globals, g.ty.isProper = true)
    {program typed : Block} (hp : program.Sourced) (ha : program.Accepted h typed) :
    ∃ x enums, typed.expand = .ok x ∧ x.program.substituteEnums = .ok enums
      ∧ (enums = x.program.replace byBinding [] ↔ ∀ s ∈ x.program.sites [], ¬s.Misread) := by
  obtain ⟨hi, hr⟩ := ha.resolved hh hp
  obtain ⟨x, hx, hsettled⟩ := Block.expand_settled hr
  refine ⟨x, x.program.replace byName [], hx, Block.substituteEnums_eq hsettled, ?_⟩
  rw [Block.replace_eq_iff byName byBinding [] x.program]
  exact forall₂_congr fun s _ => s.agrees_iff

/-- Whether a reference is misread can be computed. -/
instance : DecidablePred Site.Misread
  | ⟨ε, .expr (.var i n b)⟩ =>
    decidable_of_iff ((ε.lookup n).bind Binder.value? ≠ b.bind Binding.value?)
      ⟨fun hne => ⟨i, n, b, rfl, hne⟩, fun ⟨_, _, _, heq, hne⟩ => by cases heq; exact hne⟩
  | ⟨_, .expr (.const ..)⟩ | ⟨_, .expr (.binary ..)⟩ | ⟨_, .expr (.unary ..)⟩ | ⟨_, .expr (.call ..)⟩
  | ⟨_, .expr (.member ..)⟩ | ⟨_, .expr (.query ..)⟩ | ⟨_, .stmt _⟩ =>
    .isFalse fun ⟨_, _, _, heq, _⟩ => by cases heq

/-- `enum E a end def f(b) return a end y = f(a)`: a member of an enumeration as an argument and in the
body of a function. -/
def memberInBody : Block :=
  .mk [] [.enumDef {} letters,
    .funcDef {} "f" {} [⟨"b", {}⟩] (.mk [] [.ret {} (.name "a" {})] {}),
    .assign (.make "y" (.apply "f" {} [.name "a" {}] {}) false {})] {}

/-- No reference to the member is misread, so each of them is replaced by its value. -/
theorem memberInBody_agrees :
    let typed := ((memberInBody.declare .default).1.annotate .default).1
    ∃ x enums, typed.expand = .ok x ∧ x.program.substituteEnums = .ok enums
      ∧ (∀ s ∈ x.program.sites [], ¬s.Misread) ∧ enums = x.program.replace byBinding [] := by
  -- The program is as it was written.
  intro typed
  have hsourced : memberInBody.Sourced := by
    simp [memberInBody, Block.Sourced, Block.Marked, MarkedStmts, Stmt.Marked, Assign.Marked, Assign.make,
      Expr.Bare, Expr.name, Expr.apply, Expr.nodes, nodesOfList, Expr.IsBare, Dialect.full]
  -- No reference is misread, by evaluation.
  have hread : (typed.expand.toOption.all fun x => decide (∀ s ∈ x.program.sites [], ¬s.Misread)) = true := by
    decide +kernel
  obtain ⟨x, enums, hx, henums, hagrees⟩ := @Block.substituteEnums_agrees_iff .default (by decide) memberInBody
    typed hsourced (Block.accepted_of_none (by decide +kernel) (by decide +kernel))
  rw [hx] at hread
  have hnone := of_decide_eq_true hread
  exact ⟨x, enums, hx, henums, hnone, hagrees.2 hnone⟩

/-- `a = 7 def f() return a end enum E a end y = f()`: a member of an enumeration that comes between a
variable of its name and the place to which a use of the variable is moved. -/
def laterMember : Block :=
  .mk [] [.assign (.make "a" (.literal (.int 7) {}) false {}),
    .funcDef {} "f" {} [] (.mk [] [.ret {} (.name "a" {})] {}),
    .enumDef {} letters,
    .assign (.make "y" (.apply "f" {} [] {}) false {})] {}

/-- The names under which a tree refers to variables of the script. -/
def Block.variables (b : Block) : List Text :=
  (b.nodes.filterMap Node.refers?).filterMap fun u => if u.2.origin = .script then some u.1 else none

/-- A variable is replaced by a member of an enumeration that it never meant: typing accepts the program,
the expanded program refers to the variable, and behind the substitution nothing does. -/
theorem laterMember_misread :
    (match (laterMember.declare .default).1.annotate .default with
      | (typed, none) => match typed.expand with
        | .ok x => match x.program.substituteEnums with
          | .ok enums => some (x.program.variables, enums.variables, (x.program.replace byBinding []).variables)
          | .error _ => none
        | .error _ => none
      | (_, some _) => none) = some ((["a"] : List Text), [], (["a"] : List Text)) := by
  decide +kernel

end AisScript
