import AisScript.Proofs.Sites
import AisScript.Proofs.MadeUp
import AisScript.Proofs.Resolved

/-!
# Freshening a body

The body of a call is moved to the place of the call.  Its own declarations may then hide foreign
bindings that the body uses, in an argument or in a nested body, under the same name.  Renaming the
contested declarations undoes this: behind it every foreign use is free of the body's declarations,
while every use of the body's own bindings still finds its declaration.

* `Node.Binds`, `Node.refers?`    what a node binds and what it refers to
* `Block.sites_rename`            the places of a renamed tree
* `mem_contested`                 which bindings are contested
* `Tidy`, `Numbered`              declarations with numbers and names of their own
* `Block.rename_keeps`            own uses keep their declarations behind a freshening
* `Block.rename_frees`            foreign uses are free behind a freshening
* `Block.freshen_reads`           both, at every place of a body
-/

namespace AisScript

/-! ## What nodes bind and refer to -/

/-- A node binds a name: a declaring assignment its own, an enumeration those of its members. -/
def Node.Binds (x : Node) (y : Text × Binder) : Prop :=
  match x with
  | .stmt (.assign a) => a.info.declares = true ∧ y = (a.info.name, .variable a.info.binding)
  | .stmt (.enumDef _ d) => ∃ m ∈ d.members, y = (m.name, .member m.value)
  | _ => False

/-- The name and the binding that a node refers to: a variable, or an assignment that declares nothing. -/
def Node.refers? : Node → Option (Text × Binding)
  | .expr (.var _ n (some b)) => some (n, b)
  | .stmt (.assign a) => if a.info.declares then none else a.info.binding.map fun b => (a.info.name, b)
  | _ => none

/-- What a node refers to it uses. -/
private theorem Node.use?_of_refers? {x : Node} {n : Text} {b : Binding} (h : x.refers? = some (n, b)) :
    x.use? = some (n, b.id) := by
  unfold Node.refers? at h
  split at h
  · cases h
    rfl
  · split at h
    · exact nomatch h
    · obtain ⟨_, hb, hn⟩ := Option.map_eq_some_iff.1 h
      cases hn
      rw [Node.use?, hb]
      rfl
  · exact nomatch h

/-- What a node binds it uses. -/
theorem Node.use?_of_binds {x : Node} {n : Text} {b : Binding} (h : x.Binds (n, .variable (some b))) :
    x.use? = some (n, b.id) ∧ x.declared? = some b.id := by
  unfold Node.Binds at h
  split at h
  · obtain ⟨hd, hy⟩ := h
    injection hy with hn hb
    injection hb with hb
    rw [Node.use?, Node.declared?, hd, ← hb, ← hn]
    exact ⟨rfl, rfl⟩
  · obtain ⟨_, _, hy⟩ := h
    exact nomatch hy
  · exact h.elim

/-- A declared number is that of a binding. -/
private theorem Node.of_declared? {x : Node} {id : Nat} (h : x.declared? = some id) :
    ∃ (n : Text) (b : Binding), b.id = id ∧ x.Binds (n, .variable (some b)) := by
  unfold Node.declared? at h
  split at h
  · rename_i a
    split at h
    · rename_i hd
      obtain ⟨b, hb, hid⟩ := Option.map_eq_some_iff.1 h
      exact ⟨a.info.name, b, hid, hd, by rw [hb]⟩
    · exact nomatch h
  · exact nomatch h

/-! ## Bindings in scope come from nodes -/

/-- A binding behind an assignment. -/
private theorem Assign.mem_behind {ε : Env} {a : Assign} {y : Text × Binder} (h : y ∈ a.behind ε) :
    y ∈ ε ∨ (Node.stmt (.assign a)).Binds y := by
  unfold Assign.behind at h
  split at h
  · rename_i hd
    rcases List.mem_cons.1 h with rfl | h
    · exact .inr ⟨hd, rfl⟩
    · exact .inl h
  · exact .inl h

/-- A binding behind a clause. -/
private theorem mem_clauseBehind {ε : Env} {a : Option Assign} {y : Text × Binder}
    (h : y ∈ clauseBehind ε a) : y ∈ ε ∨ ∃ x ∈ clauseNodes a, x.Binds y := by
  cases a with
  | none => exact .inl h
  | some a => exact (Assign.mem_behind h).imp_right fun h => ⟨_, List.mem_cons_self, h⟩

/-- A binding behind assignments. -/
theorem mem_assignsBehind {ε : Env} {as : List Assign} {y : Text × Binder}
    (h : y ∈ assignsBehind ε as) : y ∈ ε ∨ ∃ x ∈ as.flatMap Assign.nodes, x.Binds y := by
  induction as generalizing ε with
  | nil => exact .inl h
  | cons a as ih =>
    rw [List.flatMap_cons]
    rcases ih h with h | ⟨x, hx, hb⟩
    · exact (Assign.mem_behind h).imp_right fun h => ⟨_, List.mem_append_left _ List.mem_cons_self, h⟩
    · exact .inr ⟨x, List.mem_append_right _ hx, hb⟩

/-- A binding behind the members of an enumeration. -/
private theorem mem_membersBehind {ε : Env} {ms : List EnumMember} {y : Text × Binder}
    (h : y ∈ membersBehind ε ms) : y ∈ ε ∨ ∃ m ∈ ms, y = (m.name, .member m.value) := by
  induction ms generalizing ε with
  | nil => exact .inl h
  | cons m ms ih =>
    rcases ih h with h | ⟨m', hm', rfl⟩
    · rcases List.mem_cons.1 h with rfl | h
      · exact .inr ⟨m, List.mem_cons_self, rfl⟩
      · exact .inl h
    · exact .inr ⟨m', List.mem_cons_of_mem m hm', rfl⟩

/-- A binding behind a statement. -/
private theorem Stmt.mem_behind {ε : Env} {s : Stmt} {y : Text × Binder} (h : y ∈ s.behind ε) :
    y ∈ ε ∨ ∃ x ∈ s.nodes, x.Binds y := by
  cases s with
  | assign a => exact (Assign.mem_behind h).imp_right fun h => ⟨_, List.mem_cons_self, h⟩
  | enumDef sp d => exact (mem_membersBehind h).imp_right fun h => ⟨_, List.mem_cons_self, h⟩
  | _ => exact .inl h

/-- A binding behind statements. -/
theorem mem_stmtsBehind {ε : Env} {ss : List Stmt} {y : Text × Binder} (h : y ∈ stmtsBehind ε ss) :
    y ∈ ε ∨ ∃ x ∈ stmtsNodes ss, x.Binds y := by
  induction ss generalizing ε with
  | nil => exact .inl h
  | cons s ss ih =>
    rcases ih h with h | ⟨x, hx, hb⟩
    · exact (Stmt.mem_behind h).imp_right fun ⟨x, hx, hb⟩ => ⟨x, List.mem_append_left _ hx, hb⟩
    · exact .inr ⟨x, List.mem_append_right _ hx, hb⟩

/-- A binding in scope at a place of a tree is one from around the tree, or a node of the tree binds it. -/
private def Bound (ε : Env) (nodes : List Node) (sites : List Site) : Prop :=
  ∀ s ∈ sites, ∀ y ∈ s.env, y ∈ ε ∨ ∃ x ∈ nodes, x.Binds y

namespace Bound

variable {ε δ : Env} {xs ys : List Node} {ss ts : List Site}

/-- Places in one environment. -/
private theorem here (ns : List Node) : Bound ε xs (ns.map (Site.mk ε)) := by
  intro s hs y hy
  obtain ⟨_, _, rfl⟩ := List.mem_map.1 hs
  exact .inl hy

/-- More nodes of the same tree. -/
private theorem mono (h : Bound ε xs ss) (hsub : xs ⊆ ys) : Bound ε ys ss := fun s hs y hy =>
  (h s hs y hy).imp_right fun ⟨x, hx, hb⟩ => ⟨x, hsub hx, hb⟩

/-- Two parts of a tree. -/
private theorem append (hs : Bound ε xs ss) (ht : Bound ε xs ts) : Bound ε xs (ss ++ ts) :=
  fun s h => (List.mem_append.1 h).elim (hs s) (ht s)

/-- A place and those below it. -/
private theorem cons {n : Node} (h : Bound ε xs ss) : Bound ε xs (⟨ε, n⟩ :: ss) := fun s hs y hy => by
  rcases List.mem_cons.1 hs with rfl | hs
  · exact .inl hy
  · exact h s hs y hy

/-- A part behind another one. -/
private theorem behind (h : Bound δ xs ss) (hδ : ∀ y ∈ δ, y ∈ ε ∨ ∃ x ∈ xs, x.Binds y) :
    Bound ε xs ss := fun s hs y hy => (h s hs y hy).elim (hδ y) .inr

end Bound

/-- The places of assignments. -/
private theorem assignsSites_bound (ε : Env) (as : List Assign) :
    Bound ε (as.flatMap Assign.nodes) (assignsSites ε as) := by
  induction as generalizing ε with
  | nil => exact fun _ hs => nomatch hs
  | cons a as ih =>
    rw [List.flatMap_cons]
    refine (Bound.here _).append ?_
    refine ((ih (a.behind ε)).mono (List.subset_append_right _ _)).behind fun y hy => ?_
    exact (Assign.mem_behind hy).imp_right fun h => ⟨_, List.mem_append_left _ List.mem_cons_self, h⟩

mutual

/-- The places of a statement. -/
private theorem Stmt.sites_bound (ε : Env) : (s : Stmt) → Bound ε s.nodes (s.sites ε)
  | .block b => ((Block.sites_bound ε b).mono (List.subset_cons_self _ _)).cons
  | .assign a => Bound.here a.nodes
  | .eval _ e | .ret _ e => (Bound.here (exprNodes e)).cons
  | .assignMember _ t v => ((Bound.here (exprNodes t)).append (Bound.here (exprNodes v))).cons
  | .cond _ c t none => by
    -- The branch is seen from the scope around the conditional.
    refine Bound.cons ((Bound.here _).append ((Block.sites_bound ε t).mono ?_))
    exact List.subset_cons_of_subset _ (List.subset_append_right _ _)
  | .cond _ c t (some f) => by
    refine Bound.cons (((Bound.here _).append ((Block.sites_bound ε t).mono ?_)).append
      ((Block.sites_bound ε f).mono ?_))
    · exact List.subset_cons_of_subset _ (List.subset_append_of_subset_left _ (List.subset_append_right _ _))
    · exact List.subset_cons_of_subset _ (List.subset_append_right _ _)
  | .loop _ c b => by
    refine Bound.cons ((Bound.here _).append ((Block.sites_bound ε b).mono ?_))
    exact List.subset_cons_of_subset _ (List.subset_append_right _ _)
  -- What is seen behind a clause was seen before, or the clause declares it.
  | .forLoop sp i c st b => by
    have hi : ∀ y ∈ clauseBehind ε i, y ∈ ε ∨ ∃ x ∈ (Stmt.forLoop sp i c st b).nodes, x.Binds y := by
      intro y hy
      refine (mem_clauseBehind hy).imp_right fun ⟨x, hx, hb⟩ => ⟨x, ?_, hb⟩
      exact List.mem_cons_of_mem _ (List.mem_append_left _ (List.mem_append_left _
        (List.mem_append_right _ hx)))
    have hst : ∀ y ∈ clauseBehind (clauseBehind ε i) st,
        y ∈ ε ∨ ∃ x ∈ (Stmt.forLoop sp i c st b).nodes, x.Binds y := by
      intro y hy
      rcases mem_clauseBehind hy with hy | ⟨x, hx, hb⟩
      · exact hi y hy
      · exact .inr ⟨x, List.mem_cons_of_mem _ (List.mem_append_left _ (List.mem_append_right _ hx)), hb⟩
    -- The test is behind the first clause, the body behind both.
    refine Bound.cons ((((Bound.here _).behind hi).append (Bound.here _)).append
      ((Bound.here _).behind hi) |>.append (((Block.sites_bound _ b).mono ?_).behind hst))
    exact List.subset_cons_of_subset _ (List.subset_append_right _ _)
  | .funcDef _ _ _ _ b => ((Block.sites_bound ε b).mono (List.subset_cons_self _ _)).cons
  -- No other places.
  | .leave _ | .code _ _ | .bitfieldDef _ _ | .enumDef _ _ | .require _ _ =>
    Bound.cons fun _ hs => nomatch hs

/-- The places of statements. -/
private theorem stmtsSites_bound (ε : Env) : (ss : List Stmt) → Bound ε (stmtsNodes ss) (stmtsSites ε ss)
  | [] => fun _ hs => nomatch hs
  | s :: ss => by
    refine ((Stmt.sites_bound ε s).mono (List.subset_append_left _ _)).append ?_
    refine ((stmtsSites_bound (s.behind ε) ss).mono (List.subset_append_right _ _)).behind fun y hy => ?_
    exact (Stmt.mem_behind hy).imp_right fun ⟨x, hx, hb⟩ => ⟨x, List.mem_append_left _ hx, hb⟩

/-- The places of a block. -/
private theorem Block.sites_bound (ε : Env) : (b : Block) → Bound ε b.nodes (b.sites ε)
  | .mk os ss _ => by
    refine ((assignsSites_bound ε os).mono (List.subset_append_left _ _)).append ?_
    refine ((stmtsSites_bound _ ss).mono (List.subset_append_right _ _)).behind fun y hy => ?_
    exact (mem_assignsBehind hy).imp_right fun ⟨x, hx, hb⟩ => ⟨x, List.mem_append_left _ hx, hb⟩

end

/-- What is in scope at a place of a block that stands alone is bound by a node of the block. -/
theorem Block.binds_of_mem_env {b : Block} {s : Site} {y : Text × Binder} (hs : s ∈ b.sites [])
    (hy : y ∈ s.env) : ∃ x ∈ b.nodes, x.Binds y :=
  (Block.sites_bound [] b s hs y hy).elim (fun h => nomatch h) id

/-! ## Renamed places -/

/-- The name of something bound, renamed. -/
def Binder.rename (r : Renaming) (n : Text) : Binder → Text
  | .variable b => r.apply b n
  | .member _ => n

/-- What names are bound to, renamed. -/
def Env.rename (r : Renaming) (ε : Env) : Env := ε.map fun y => (y.2.rename r y.1, y.2)

/-- A place, renamed. -/
def Site.rename (r : Renaming) (s : Site) : Site := ⟨s.env.rename r, s.node.rename r⟩

/-- The bindings behind a renamed assignment. -/
private theorem Assign.behind_rename (r : Renaming) (ε : Env) (a : Assign) :
    (a.rename r).behind (ε.rename r) = (a.behind ε).rename r := by
  obtain ⟨⟨_, _, _, declares, _, _⟩, v⟩ := a
  cases declares <;> rfl

/-- The bindings behind renamed assignments. -/
private theorem assignsBehind_rename (r : Renaming) (ε : Env) (as : List Assign) :
    assignsBehind (ε.rename r) (as.map (·.rename r)) = (assignsBehind ε as).rename r := by
  induction as generalizing ε with
  | nil => rfl
  | cons a as ih => rw [List.map_cons, assignsBehind, a.behind_rename, ih, assignsBehind]

/-- The bindings behind a renamed clause. -/
private theorem clauseBehind_rename (r : Renaming) (ε : Env) (a : Option Assign) :
    clauseBehind (ε.rename r) (a.map (·.rename r)) = (clauseBehind ε a).rename r := by
  cases a with
  | none => rfl
  | some a => exact a.behind_rename r ε

/-- The bindings behind the members of an enumeration. -/
private theorem membersBehind_rename (r : Renaming) (ε : Env) (ms : List EnumMember) :
    membersBehind (ε.rename r) ms = (membersBehind ε ms).rename r := by
  induction ms generalizing ε with
  | nil => rfl
  | cons m ms ih => exact ih ((m.name, .member m.value) :: ε)

/-- The bindings behind a renamed statement. -/
private theorem Stmt.behind_rename (r : Renaming) (ε : Env) (s : Stmt) :
    (s.rename r).behind (ε.rename r) = (s.behind ε).rename r := by
  cases s with
  | assign a => exact a.behind_rename r ε
  | enumDef sp d => exact membersBehind_rename r ε d.members
  | _ => rfl

/-- Renamed places in one environment. -/
private theorem map_mk_rename (r : Renaming) (ε : Env) (ns : List Node) :
    (ns.map (·.rename r)).map (Site.mk (ε.rename r)) = (ns.map (Site.mk ε)).map (·.rename r) := by
  rw [List.map_map, List.map_map]
  rfl

/-- The places of renamed assignments. -/
private theorem assignsSites_rename (r : Renaming) (ε : Env) (as : List Assign) :
    assignsSites (ε.rename r) (as.map (·.rename r)) = (assignsSites ε as).map (·.rename r) := by
  induction as generalizing ε with
  | nil => rfl
  | cons a as ih =>
    simp only [List.map_cons, assignsSites, Assign.sites, a.behind_rename, ih, List.map_append,
      Assign.nodes_rename, map_mk_rename]

/-- The test of a renamed loop header. -/
private theorem testSites_rename (r : Renaming) (ε : Env) (c : Option Expr) :
    ((nodesOfOption (renameOption r c)).map Node.expr).map (Site.mk (ε.rename r))
      = (((nodesOfOption c).map Node.expr).map (Site.mk ε)).map (·.rename r) := by
  rw [testNodes_rename, map_mk_rename]

mutual

/-- The places of a renamed statement. -/
private theorem Stmt.sites_rename (r : Renaming) (ε : Env) : (s : Stmt) →
    (s.rename r).sites (ε.rename r) = (s.sites ε).map (·.rename r)
  -- Every place of the renamed statement is a renamed place, with its scope renamed too.
  | .block b => by
    simp only [Stmt.rename, Stmt.sites, Block.sites_rename r ε b, List.map_cons]
    rfl
  | .assign a => by
    simp only [Stmt.rename, Stmt.sites, Assign.sites, Assign.nodes_rename, map_mk_rename]
  | .eval _ e | .ret _ e => by
    simp only [Stmt.rename, Stmt.sites, exprSites, exprNodes_rename, map_mk_rename, List.map_cons]
    rfl
  | .assignMember _ t v => by
    simp only [Stmt.rename, Stmt.sites, exprSites, exprNodes_rename, map_mk_rename, List.map_cons,
      List.map_append]
    rfl
  -- A conditional has the places of its condition and of its branches.
  | .cond _ c t none => by
    simp only [Stmt.rename, renameElse, Stmt.sites, exprSites, exprNodes_rename, map_mk_rename,
      Block.sites_rename r ε t, List.map_cons, List.map_append]
    rfl
  | .cond _ c t (some f) => by
    simp only [Stmt.rename, renameElse, Stmt.sites, exprSites, exprNodes_rename, map_mk_rename,
      Block.sites_rename r ε t, Block.sites_rename r ε f, List.map_cons, List.map_append]
    rfl
  | .loop _ c b => by
    simp only [Stmt.rename, Stmt.sites, exprSites, exprNodes_rename, map_mk_rename,
      Block.sites_rename r ε b, List.map_cons, List.map_append]
    rfl
  -- The scopes of a loop grow by renamed clauses.
  | .forLoop _ i c st b => by
    simp only [Stmt.rename, Stmt.sites, clauseSites, clauseBehind_rename, testSites_rename,
      clauseNodes_rename, map_mk_rename, Block.sites_rename r _ b, List.map_cons, List.map_append]
    rfl
  | .funcDef _ _ _ _ b => by
    simp only [Stmt.rename, Stmt.sites, Block.sites_rename r ε b, List.map_cons]
    rfl
  | .leave _ | .code _ _ | .bitfieldDef _ _ | .enumDef _ _ | .require _ _ => rfl

/-- The places of renamed statements. -/
private theorem stmtsSites_rename (r : Renaming) (ε : Env) : (ss : List Stmt) →
    stmtsSites (ε.rename r) (renameStmts r ss) = (stmtsSites ε ss).map (·.rename r)
  | [] => rfl
  | s :: ss => by
    simp only [renameStmts, stmtsSites, s.behind_rename, Stmt.sites_rename r ε s,
      stmtsSites_rename r _ ss, List.map_append]

/-- The places of a renamed block. -/
theorem Block.sites_rename (r : Renaming) (ε : Env) : (b : Block) →
    (b.rename r).sites (ε.rename r) = (b.sites ε).map (·.rename r)
  | .mk os ss _ => by
    simp only [Block.rename, Block.sites, assignsSites_rename, assignsBehind_rename,
      stmtsSites_rename r _ ss, List.map_append]

end

/-- What a renamed node refers to. -/
theorem Node.refers?_rename (r : Renaming) (x : Node) :
    (x.rename r).refers? = x.refers?.map fun u => (r.apply (some u.2) u.1, u.2) := by
  -- Only variables and plain assignments refer to something.
  cases x with
  | expr e =>
    cases e with
    | var i n b => cases b <;> rfl
    | _ => rfl
  | stmt s =>
    cases s with
    | assign a =>
      obtain ⟨⟨_, _, _, declares, _, binding⟩, v⟩ := a
      -- A declaration refers to nothing.
      cases declares with
      | true => rfl
      | false => cases binding <;> rfl
    | _ => rfl

/-- What a renamed node binds. -/
theorem Node.binds_of_rename {r : Renaming} {x : Node} {y : Text × Binder} (h : (x.rename r).Binds y) :
    ∃ n, y = (y.2.rename r n, y.2) ∧ x.Binds (n, y.2) := by
  -- Only declarations and enumerations bind.
  cases x with
  | expr e => exact h.elim
  | stmt s =>
    cases s with
    | assign a =>
      obtain ⟨i, v⟩ := a
      obtain ⟨hd, rfl⟩ := h
      exact ⟨i.name, rfl, hd, rfl⟩
    -- Members keep their names.
    | enumDef sp d =>
      obtain ⟨m, hm, rfl⟩ := h
      exact ⟨m.name, rfl, m, hm, rfl⟩
    | _ => exact h.elim

/-! ## Lookup in renamed bindings -/

/-- A name is still found if no other name in scope is renamed to the same. -/
theorem Env.lookup_rename {r : Renaming} {ε : Env} {n : Text} {v : Binder} (h : ε.lookup n = some v)
    (hinj : ∀ y ∈ ε, y.2.rename r y.1 = v.rename r n → y.1 = n) :
    (ε.rename r).lookup (v.rename r n) = some v := by
  -- Along the scope, from the innermost name on.
  induction ε with
  | nil => exact nomatch h
  | cons y ε ih =>
    obtain ⟨m, w⟩ := y
    obtain ⟨hhead, htail⟩ := List.forall_mem_cons.1 hinj
    rw [Env.rename, List.map_cons, List.lookup_cons]
    rw [List.lookup_cons] at h
    split at h
    -- The name is bound here, and so is the new one.
    case h_1 heq =>
      cases h
      rw [beq_iff_eq.1 heq, beq_self_eq_true]
    case h_2 heq =>
      -- Another name is bound here, which is not renamed to the same.
      have hne : (v.rename r n == w.rename r m) = false := by
        refine beq_false_of_ne fun hsame => ?_
        have hm : m = n := hhead hsame.symm
        rw [hm, beq_self_eq_true] at heq
        exact nomatch heq
      rw [hne]
      exact ih h htail

/-- What is found is in scope. -/
theorem Env.mem_of_lookup {ε : Env} {n : Text} {v : Binder} (h : ε.lookup n = some v) : (n, v) ∈ ε := by
  obtain ⟨δ, δ', rfl, _⟩ := List.lookup_eq_some_iff.1 h
  exact List.mem_append_right δ List.mem_cons_self

/-- A name that nothing in scope is renamed to is not found. -/
private theorem Env.lookup_rename_none {r : Renaming} {ε : Env} {n : Text}
    (h : ∀ y ∈ ε, y.2.rename r y.1 ≠ n) : (ε.rename r).lookup n = none := by
  rw [List.lookup_eq_none_iff]
  intro y hy
  obtain ⟨x, hx, rfl⟩ := List.mem_map.1 hy
  exact bne_iff_ne.2 fun heq => h x hx heq.symm

/-! ## Variables in scope -/

/-- Whether a name is bound to a variable. -/
def Binder.isVariable : Binder → Bool
  | .variable _ => true
  | .member _ => false

/-- The variables that names are bound to, the innermost first. -/
def Env.variables (ε : Env) : Env := ε.filter (·.2.isVariable)

/-- The variables among joined bindings. -/
@[simp] theorem Env.variables_append (ε δ : Env) : Env.variables (ε ++ δ) = ε.variables ++ δ.variables :=
  List.filter_append ε δ

/-- The variables among renamed bindings. -/
private theorem Env.variables_rename (r : Renaming) (ε : Env) :
    (ε.rename r).variables = ε.variables.rename r := by
  rw [Env.variables, Env.rename, List.filter_map]
  rfl

/-- A variable in scope. -/
theorem Env.mem_variables {ε : Env} {y : Text × Binder} : y ∈ ε.variables ↔ y ∈ ε ∧ ∃ w, y.2 = .variable w := by
  obtain ⟨n, w⟩ := y
  rw [Env.variables, List.mem_filter]
  cases w <;> simp [Binder.isVariable]

/-! ## Contested bindings -/

/-- The bindings used under a name. -/
private theorem mem_usedAs {uses : List (Text × Nat)} {n : Text} {id : Nat} :
    id ∈ usedAs uses n ↔ (n, id) ∈ uses := by
  rw [usedAs, List.mem_eraseDups, List.mem_map]
  constructor
  · rintro ⟨⟨m, _⟩, hu, rfl⟩
    obtain ⟨hu, hm⟩ := List.mem_filter.1 hu
    exact beq_iff_eq.1 hm ▸ hu
  · exact fun hu => ⟨(n, id), List.mem_filter.2 ⟨hu, beq_self_eq_true n⟩, rfl⟩

/-- A binding is contested under a name if it is declared and used under it, and so is a binding that is
not declared. -/
theorem mem_contested {nodes : List Node} {n : Text} {id : Nat} :
    (id, n) ∈ contested nodes ↔ (n, id) ∈ nodes.filterMap Node.use?
      ∧ id ∈ nodes.filterMap Node.declared?
      ∧ ∃ foreign, (n, foreign) ∈ nodes.filterMap Node.use? ∧ foreign ∉ nodes.filterMap Node.declared? := by
  generalize huses : nodes.filterMap Node.use? = uses
  -- Names are grouped; a name is contested if a foreign binding is among its uses.
  generalize hdeclared : nodes.filterMap Node.declared? = declared
  simp only [contested, huses, hdeclared, List.mem_flatMap, List.mem_eraseDups]
  constructor
  -- A name is in the list because not all bindings used under it are declared.
  · rintro ⟨m, _, hmem⟩
    split at hmem
    case isTrue => exact nomatch hmem
    case isFalse hall =>
      obtain ⟨id', hid', heq⟩ := List.mem_map.1 hmem
      cases heq
      obtain ⟨hused, hdecl⟩ := List.mem_filter.1 hid'
      rw [List.all_eq_true] at hall
      obtain ⟨foreign, hforeign⟩ := Classical.not_forall.1 hall
      obtain ⟨hf, hnot⟩ := Classical.not_imp.1 hforeign
      exact ⟨mem_usedAs.1 hused, List.contains_iff_mem.1 hdecl, foreign, mem_usedAs.1 hf,
        fun h => hnot (List.contains_iff_mem.2 h)⟩
  -- A foreign binding under the name makes its declared bindings contested.
  · rintro ⟨hused, hdecl, foreign, hf, hnot⟩
    refine ⟨n, List.mem_map.2 ⟨(n, id), hused, rfl⟩, ?_⟩
    rw [if_neg fun hall => hnot (List.contains_iff_mem.1
      (List.all_eq_true.1 hall foreign (mem_usedAs.2 hf)))]
    exact List.mem_map.2 ⟨id, List.mem_filter.2 ⟨mem_usedAs.2 hused, List.contains_iff_mem.2 hdecl⟩, rfl⟩

/-- A new name belongs to an entry of the list and has its number. -/
theorem lookup_freshNames {number id : Nat} {cs : List (Nat × Text)} {fresh : Text}
    (h : (freshNames number cs).lookup id = some fresh) :
    ∃ j n, cs[j]? = some (id, n) ∧ fresh = freshName n (number + j) := by
  -- The head stands behind the others, so those are asked first.
  induction cs generalizing number with
  | nil => cases h
  | cons y cs ih =>
    obtain ⟨id', n⟩ := y
    rw [freshNames, List.lookup_append] at h
    -- Found among the others, one place further.
    cases hrest : (freshNames (number + 1) cs).lookup id with
    | some fresh' =>
      rw [hrest] at h
      cases h
      obtain ⟨j, m, hj, hfresh⟩ := ih hrest
      exact ⟨j + 1, m, hj, by rw [hfresh, Nat.add_right_comm, Nat.add_assoc]⟩
    -- Otherwise it is the head, with the first number.
    | none =>
      rw [hrest, Option.none_or, List.lookup_cons] at h
      split at h
      case h_1 heq =>
        cases h
        exact ⟨0, n, by rw [beq_iff_eq.1 heq]; rfl, rfl⟩
      case h_2 => cases h

/-- Every entry of the list gets a new name. -/
theorem lookup_freshNames_ne_none {number id : Nat} {n : Text} {cs : List (Nat × Text)}
    (h : (id, n) ∈ cs) : (freshNames number cs).lookup id ≠ none := by
  induction cs generalizing number with
  | nil => cases h
  | cons y cs ih =>
    rw [freshNames, List.lookup_append]
    intro hnone
    obtain ⟨hrest, hhead⟩ := Option.or_eq_none_iff.1 hnone
    rcases List.mem_cons.1 h with rfl | h
    · rw [List.lookup_cons, beq_self_eq_true] at hhead
      cases hhead
    · exact ih h hrest

/-! ## Declarations with numbers and names of their own -/

/-- A name that a binding can have while the fresh names below `number` are taken. -/
def KnownName (number : Nat) (n : Text) : Prop :=
  n.isPlain = true ∨ ∃ m k, n = freshName m k ∧ k < number

/-- More fresh names are taken. -/
theorem KnownName.mono {number number' : Nat} {n : Text} (h : KnownName number n)
    (hle : number ≤ number') : KnownName number' n :=
  h.imp_right fun ⟨m, k, hn, hk⟩ => ⟨m, k, hn, Nat.lt_of_lt_of_le hk hle⟩

/-- A known name is none of the fresh names to come. -/
private theorem KnownName.ne_freshName {number : Nat} {n : Text} (h : KnownName number n) (m : Text) {k : Nat}
    (hk : number ≤ k) : n ≠ freshName m k := by
  rcases h with h | ⟨m', k', rfl, hk'⟩
  · rintro rfl
    rw [isPlain_freshName] at h
    exact nomatch h
  · exact fun heq => Nat.not_lt_of_le hk (freshName_number heq ▸ hk')

/-- A known name is not that of a temporary. -/
theorem KnownName.ne_tempName {number : Nat} {n : Text} (h : KnownName number n) (k : Nat) :
    n ≠ tempName k := by
  rcases h with h | ⟨m, j, rfl, _⟩
  · rintro rfl
    rw [isPlain_tempName] at h
    exact nomatch h
  · exact freshName_ne_tempName m j k

/-- Declarations of an expanded tree: a node binds a temporary, or a variable of the script under a known
name, numbered from `lo` up to `hi`; and one number stands for one name and one binding. -/
structure Tidy (lo hi number : Nat) (nodes : List Node) : Prop where
  binds : ∀ x ∈ nodes, ∀ y, x.Binds y → (∃ k, y = (tempName k, .variable none))
    ∨ ∃ n b, y = (n, .variable (some b)) ∧ lo ≤ b.id ∧ b.id < hi ∧ b.origin = .script
      ∧ KnownName number n
  coherent : ∀ x ∈ nodes, ∀ x' ∈ nodes, ∀ n n' b b', x.Binds (n, .variable (some b)) →
    x'.Binds (n', .variable (some b')) → b.id = b'.id → n = n' ∧ b = b'

/-- Declarations of variables: a node declares a temporary, or a variable under a known name, numbered from `lo`
on; and one number stands for one name. -/
structure Numbered (lo number : Nat) (nodes : List Node) : Prop where
  binds : ∀ x ∈ nodes, ∀ n w, x.Binds (n, .variable w) → (w = none ∧ ∃ k, n = tempName k)
    ∨ ∃ b, w = some b ∧ lo ≤ b.id ∧ KnownName number n
  names : ∀ x ∈ nodes, ∀ x' ∈ nodes, ∀ n n' b b', x.Binds (n, .variable (some b)) →
    x'.Binds (n', .variable (some b')) → b.id = b'.id → n = n'

/-- Tidy declarations are numbered. -/
theorem Tidy.numbered {lo hi number : Nat} {nodes : List Node} (h : Tidy lo hi number nodes) :
    Numbered lo number nodes where
  binds x hx n w hb := by
    rcases h.binds x hx _ hb with ⟨k, hk⟩ | ⟨m, b, hm, hle, _, _, hknown⟩
    · cases hk
      exact .inl ⟨rfl, k, rfl⟩
    · cases hm
      exact .inr ⟨b, rfl, hle, hknown⟩
  names x hx x' hx' n n' b b' hb hb' hid := (h.coherent x hx x' hx' n n' b b' hb hb' hid).1

/-- What a node refers to is declared in scope under its own binding, or is reached from outside. -/
def Site.Meets (σ : Scope Entry) (lo : Nat) (s : Site) : Prop :=
  ∀ n b, s.node.refers? = some (n, b) →
    (lo ≤ b.id ∧ s.env.lookup n = some (.variable (some b)))
      ∨ b.id < lo ∧ Reaches σ n b ∧ n.isPlain = true

/-- What a node refers to is declared in scope under its own binding, or is reached from outside and
nothing in scope has its name. -/
def Site.Reads (σ : Scope Entry) (lo : Nat) (s : Site) : Prop :=
  ∀ n b, s.node.refers? = some (n, b) →
    (lo ≤ b.id ∧ s.env.lookup n = some (.variable (some b)))
      ∨ b.id < lo ∧ Reaches σ n b ∧ n.isPlain = true ∧ s.env.lookup n = none

/-! ## Freshening -/

section Freshen

variable {σ : Scope Entry} {lo hi number : Nat} {b : Block}

/-- A declaration under a name that is also used for a foreign binding is contested. -/
private theorem contested_of_foreign (ht : Numbered lo number b.nodes) {x x' : Node} (hx : x ∈ b.nodes)
    (hx' : x' ∈ b.nodes) {n : Text} {c d : Binding} (hbinds : x.Binds (n, .variable (some c)))
    (hrefers : x'.refers? = some (n, d)) (hforeign : d.id < lo) : (c.id, n) ∈ contested b.nodes := by
  obtain ⟨huse, hdecl⟩ := Node.use?_of_binds hbinds
  refine mem_contested.2 ⟨List.mem_filterMap.2 ⟨x, hx, huse⟩, List.mem_filterMap.2 ⟨x, hx, hdecl⟩,
    d.id, List.mem_filterMap.2 ⟨x', hx', Node.use?_of_refers? hrefers⟩, fun hd => ?_⟩
  -- What the tree declares is numbered from `lo` on.
  obtain ⟨x'', hx'', hd⟩ := List.mem_filterMap.1 hd
  obtain ⟨m, e, he, hb⟩ := Node.of_declared? hd
  rcases ht.binds x'' hx'' m _ hb with ⟨hnone, _⟩ | ⟨_, hsome, hle, _⟩
  · exact nomatch hnone
  · cases hsome
    omega

/-- A contested binding is one of the tree's own. -/
private theorem le_of_contested (ht : Numbered lo number b.nodes) {n : Text} {id : Nat}
    (h : (id, n) ∈ contested b.nodes) : lo ≤ id := by
  obtain ⟨_, hd, _⟩ := mem_contested.1 h
  obtain ⟨x, hx, hd⟩ := List.mem_filterMap.1 hd
  obtain ⟨m, e, rfl, hb⟩ := Node.of_declared? hd
  rcases ht.binds x hx m _ hb with ⟨hnone, _⟩ | ⟨_, hsome, hle, _⟩
  · exact nomatch hnone
  · cases hsome
    exact hle

/-- The new name of a binding is a fresh one, and the binding was contested. -/
private theorem fresh_of_lookup {cs : List (Nat × Text)} {id : Nat} {fresh : Text}
    (h : (freshNames number cs).lookup id = some fresh) :
    ∃ m k, fresh = freshName m k ∧ number ≤ k ∧ k < number + cs.length ∧ (id, m) ∈ cs := by
  obtain ⟨j, m, hj, rfl⟩ := lookup_freshNames h
  obtain ⟨hlt, heq⟩ := List.getElem?_eq_some_iff.1 hj
  exact ⟨m, number + j, rfl, Nat.le_add_right _ _, Nat.add_lt_add_left hlt _, heq ▸ List.getElem_mem hlt⟩

/-- Different bindings get different new names. -/
private theorem eq_of_lookup_freshNames {cs : List (Nat × Text)} {id id' : Nat} {fresh : Text}
    (h : (freshNames number cs).lookup id = some fresh)
    (h' : (freshNames number cs).lookup id' = some fresh) : id = id' := by
  obtain ⟨j, m, hj, hfresh⟩ := lookup_freshNames h
  obtain ⟨j', m', hj', hfresh'⟩ := lookup_freshNames h'
  have hnumber := freshName_number (hfresh.symm.trans hfresh')
  have hsame : j = j' := by omega
  subst hsame
  rw [hj] at hj'
  cases hj'
  rfl

/-- Variables keep apart under new names: two that get one name had one name. -/
theorem rename_injective (ht : Numbered lo number b.nodes) {x x' : Node} (hx : x ∈ b.nodes)
    (hx' : x' ∈ b.nodes) {n n' : Text} {c : Binding} {w : Option Binding}
    (hn : x.Binds (n, .variable (some c))) (hn' : x'.Binds (n', .variable w))
    (heq : Renaming.apply (freshNames number (contested b.nodes)) w n'
      = Renaming.apply (freshNames number (contested b.nodes)) (some c) n) : n' = n := by
  generalize hr : freshNames number (contested b.nodes) = r at heq
  -- The name of a declaration is known: plain, or made up before this number.
  have hknown : KnownName number n := by
    rcases ht.binds x hx n _ hn with ⟨hnone, _⟩ | ⟨_, _, _, hknown⟩
    · exact nomatch hnone
    · exact hknown
  rcases ht.binds x' hx' n' w hn' with ⟨rfl, k, rfl⟩ | ⟨d, rfl, _, hknown'⟩
  · -- The name of a temporary stays, and no other name is or becomes one.
    simp only [Renaming.apply] at heq
    cases hc : r.lookup c.id with
    | none => rw [hc] at heq; exact heq
    | some fresh =>
      obtain ⟨m, j, rfl, _⟩ := fresh_of_lookup (hr ▸ hc)
      rw [hc] at heq
      exact absurd heq.symm (freshName_ne_tempName m j k)
  · simp only [Renaming.apply] at heq
    cases hd : r.lookup d.id with
    | none =>
      -- Neither is renamed, so the names are the same.
      cases hc : r.lookup c.id with
      | none => rw [hc, hd] at heq; exact heq
      -- One is renamed: its new name has a number that no known name has.
      | some fresh =>
        obtain ⟨m', j, rfl, hj, _⟩ := fresh_of_lookup (hr ▸ hc)
        rw [hc, hd] at heq
        exact absurd heq (hknown'.ne_freshName m' hj)
    | some fresh =>
      cases hc : r.lookup c.id with
      | none =>
        obtain ⟨m', j, rfl, hj, _⟩ := fresh_of_lookup (hr ▸ hd)
        rw [hc, hd] at heq
        exact absurd heq.symm (hknown.ne_freshName m' hj)
      -- Both are renamed, and the numbers tell which binding it is.
      | some fresh' =>
        rw [hc, hd] at heq
        cases heq
        have hid := eq_of_lookup_freshNames (hr ▸ hd) (hr ▸ hc)
        exact ht.names x' hx' x hx n' n d c hn' hn hid

/-- A use of a body's own binding still finds its declaration under the new name. -/
theorem Block.rename_keeps (ht : Numbered lo number b.nodes) {s : Site} (hs : s ∈ b.sites []) {n : Text}
    {c : Binding} (hfound : s.env.variables.lookup n = some (.variable (some c))) :
    let r := freshNames number (contested b.nodes)
    (s.rename r).env.variables.lookup (r.apply (some c) n) = some (.variable (some c)) := by
  intro r
  obtain ⟨x, hx, hb⟩ := Block.binds_of_mem_env hs (Env.mem_variables.1 (Env.mem_of_lookup hfound)).1
  rw [Site.rename, Env.variables_rename]
  refine Env.lookup_rename hfound fun y hy heq => ?_
  obtain ⟨hy, w, hw⟩ := Env.mem_variables.1 hy
  obtain ⟨n', _⟩ := y
  obtain rfl : _ = Binder.variable w := hw
  obtain ⟨x', hx', hb'⟩ := Block.binds_of_mem_env hs hy
  exact rename_injective ht hx hx' hb hb' heq

/-- A foreign binding keeps its name, and no variable of the body has it any more. -/
theorem Block.rename_frees (ht : Numbered lo number b.nodes) {s : Site} (hs : s ∈ b.sites []) {n : Text}
    {c : Binding} (hrefers : s.node.refers? = some (n, c)) (hlt : c.id < lo) (hplain : n.isPlain = true) :
    let r := freshNames number (contested b.nodes)
    r.apply (some c) n = n ∧ (s.rename r).env.variables.lookup n = none := by
  intro r
  have hnode : s.node ∈ b.nodes := b.map_node_sites [] ▸ List.mem_map_of_mem hs
  -- The binding is not among the contested ones, as those are declared inside.
  refine ⟨?_, ?_⟩
  · simp only [Renaming.apply]
    cases hc : r.lookup c.id with
    | none => rfl
    | some fresh =>
      obtain ⟨_, _, _, _, _, hmem⟩ := fresh_of_lookup hc
      exact absurd (le_of_contested ht hmem) (Nat.not_le_of_lt hlt)
  -- Suppose a variable in front of the place had the name.
  · rw [Site.rename, Env.variables_rename]
    refine Env.lookup_rename_none fun y hy heq => ?_
    obtain ⟨hy, w, hw⟩ := Env.mem_variables.1 hy
    obtain ⟨n', _⟩ := y
    obtain rfl : _ = Binder.variable w := hw
    obtain ⟨x, hx, hb⟩ := Block.binds_of_mem_env hs hy
    -- It is no temporary, since those have names that are not plain.
    rcases ht.binds x hx n' w hb with ⟨rfl, k, rfl⟩ | ⟨d, rfl, _⟩
    · simp only [Binder.rename, Renaming.apply] at heq
      rw [← heq, isPlain_tempName] at hplain
      cases hplain
    · simp only [Binder.rename, Renaming.apply] at heq
      -- If it kept its name it was contested; if not, its new name is not plain.
      cases hd : r.lookup d.id with
      | none =>
        rw [hd] at heq
        cases heq
        exact lookup_freshNames_ne_none (contested_of_foreign ht hx hnode hb hrefers hlt) hd
      | some fresh =>
        obtain ⟨_, _, rfl, _⟩ := fresh_of_lookup hd
        rw [hd] at heq
        rw [← heq, Option.getD_some, isPlain_freshName] at hplain
        cases hplain

/-- Renamed declarations are tidy. -/
private theorem Tidy.rename (ht : Tidy lo hi number b.nodes) :
    Tidy lo hi (number + (contested b.nodes).length)
      (b.rename (freshNames number (contested b.nodes))).nodes := by
  rw [Block.nodes_rename]
  -- Each declaration has a known name, and two with one number agree.
  refine ⟨fun z hz y hy => ?_, fun z hz z' hz' n n' c c' hn hn' hid => ?_⟩
  · obtain ⟨x, hx, rfl⟩ := List.mem_map.1 hz
    obtain ⟨n, hyn, hb⟩ := Node.binds_of_rename hy
    -- A temporary keeps its name; a variable keeps it or takes one of the new ones.
    rcases ht.binds x hx _ hb with ⟨k, hk⟩ | ⟨m, c, hm, hlo, hhi, horigin, hknown⟩
    · injection hk with hn hv
      rw [hyn, hv, hn]
      exact .inl ⟨k, rfl⟩
    · injection hm with hn hv
      rw [hyn, hv, hn]
      refine .inr ⟨_, c, rfl, hlo, hhi, horigin, ?_⟩
      simp only [Binder.rename, Renaming.apply]
      -- A new name has a number below the new counter.
      cases hc : (freshNames number (contested b.nodes)).lookup c.id with
      | none => exact hknown.mono (Nat.le_add_right _ _)
      | some fresh =>
        obtain ⟨m', k, rfl, _, hk, _⟩ := fresh_of_lookup hc
        exact .inr ⟨m', k, rfl, hk⟩
  -- Two declarations of one number were coherent before, and are renamed alike.
  · obtain ⟨x, hx, rfl⟩ := List.mem_map.1 hz
    obtain ⟨x', hx', rfl⟩ := List.mem_map.1 hz'
    obtain ⟨m, hm, hb⟩ := Node.binds_of_rename hn
    obtain ⟨m', hm', hb'⟩ := Node.binds_of_rename hn'
    obtain ⟨rfl, rfl⟩ := ht.coherent x hx x' hx' m m' c c' hb hb' hid
    exact ⟨(Prod.mk.inj hm).1.trans (Prod.mk.inj hm').1.symm, rfl⟩

/-- Tidy nodes bind variables only. -/
private theorem Tidy.variables_env (ht : Tidy lo hi number b.nodes) {s : Site} (hs : s ∈ b.sites []) :
    s.env.variables = s.env := by
  refine List.filter_eq_self.2 fun y hy => ?_
  obtain ⟨x, hx, hb⟩ := Block.binds_of_mem_env hs hy
  rcases ht.binds x hx y hb with ⟨k, rfl⟩ | ⟨_, _, rfl, _⟩ <;> rfl

/-- Freshening frees the foreign uses of a body from its declarations, and keeps the body's own uses at
their declarations. -/
theorem Block.freshen_reads (ht : Tidy lo hi number b.nodes) (hm : ∀ s ∈ b.sites [], s.Meets σ lo) :
    number ≤ (b.freshen number).2 ∧ Tidy lo hi (b.freshen number).2 (b.freshen number).1.nodes
      ∧ ∀ s ∈ (b.freshen number).1.sites [], s.Reads σ lo := by
  rw [Block.freshen_eq]
  -- The declarations are tidy again; it remains to look at every reference.
  refine ⟨Nat.le_add_right _ _, ht.rename, fun s' hs' n c hn => ?_⟩
  have hsites := b.sites_rename (freshNames number (contested b.nodes)) []
  rw [Env.rename, List.map_nil] at hsites
  have hs'' := hs'
  rw [hsites] at hs''
  -- The place comes from one of the body.
  obtain ⟨s, hs, rfl⟩ := List.mem_map.1 hs''
  -- Without members of enumerations all names in scope are variables.
  have hvariables : (s.rename (freshNames number (contested b.nodes))).env.variables
      = (s.rename (freshNames number (contested b.nodes))).env := ht.rename.variables_env hs'
  rw [← hvariables]
  rw [Site.rename, Node.refers?_rename] at hn
  obtain ⟨⟨m, c⟩, hm', heq⟩ := Option.map_eq_some_iff.1 hn
  cases heq
  -- A reference is to a variable of the body, or to a foreign one.
  rcases hm s hs m c hm' with ⟨hle, hlookup⟩ | ⟨hlt, hreach, hplain⟩
  · rw [← ht.variables_env hs] at hlookup
    exact .inl ⟨hle, Block.rename_keeps ht.numbered hs hlookup⟩
  · obtain ⟨hkeeps, hnone⟩ := Block.rename_frees ht.numbered hs hm' hlt hplain
    rw [hkeeps]
    exact .inr ⟨hlt, hreach, hplain, hnone⟩

end Freshen

end AisScript
