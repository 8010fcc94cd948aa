import AisScript.Proofs.Storage
import AisScript.Proofs.Scoping
import AisScript.Proofs.Words

/-!
# Frames of expanded trees

Blocks and loop headers open frames.  In an expanded tree no frame declares a name twice: what stands behind
something else in a frame declares names that are not shown there, temporaries have numbers of their own, and
the parameters of a call come in front of a body that shows them.  A renaming of what is contested gives
different names to what had different names.  Only two parameters of one name would meet in a frame.

* `FramedNodes`           nodes whose frames declare each name once
* `FramedNodes.rename`    freshening keeps names apart
* `Assembled.framed`      expanded trees are framed
* `Framed.lowered`        they stay so without the assignments of strings
-/

namespace AisScript

/-! ## Frames as assignments -/

/-- The assignment that a statement is. -/
def Stmt.assignment? : Stmt → Option Assign
  | .assign a => some a
  | _ => none

/-- The assignments in the frame of a block, its overrides first. -/
def Block.assignments : Block → List Assign
  | .mk os ss _ => os ++ ss.filterMap Stmt.assignment?

/-- The assignments in each frame that a node opens. -/
def Node.assignments : Node → List (List Assign)
  | .stmt (.block b) | .stmt (.loop _ _ b) | .stmt (.funcDef _ _ _ _ b) => [b.assignments]
  | .stmt (.cond _ _ t f) => t.assignments :: f.toList.map Block.assignments
  | .stmt (.forLoop _ i _ st b) => [i.toList ++ st.toList, b.assignments]
  | _ => []

/-- A statement declares what its assignment declares. -/
private theorem Stmt.declared?_eq (s : Stmt) : s.declared? = s.assignment?.bind Assign.declared? := by
  cases s <;> rfl

/-- The names that a block declares are those of its assignments. -/
private theorem Block.declares_eq (b : Block) : b.declares = b.assignments.filterMap Assign.declared? := by
  obtain ⟨os, ss, _⟩ := b
  have hss : ss.filterMap Stmt.declared? = (ss.filterMap Stmt.assignment?).filterMap Assign.declared? := by
    rw [List.filterMap_filterMap]
    exact congrArg (List.filterMap · ss) (funext Stmt.declared?_eq)
  rw [Block.declares, Block.assignments, List.filterMap_append, hss]

/-- The names in the frames of a node are those of its assignments. -/
private theorem Node.frames_eq (x : Node) :
    x.frames = x.assignments.map (List.filterMap Assign.declared?) := by
  cases x with
  | expr e => rfl
  | stmt s => cases s <;> simp [Node.frames, Node.assignments, Block.declares_eq, headerDeclares]

/-- What a declaration declares. -/
private theorem Assign.declared?_eq_some {a : Assign} {n : Text} :
    a.declared? = some n ↔ a.info.declares = true ∧ a.info.name = n := by
  unfold Assign.declared?
  split <;> simp_all

/-! ## Frames that declare each name once -/

/-- Each frame that a node opens declares every name once. -/
def Node.Framed (x : Node) : Prop := ∀ ns ∈ x.frames, ns.Nodup

/-- Nodes whose frames declare every name once. -/
def FramedNodes (xs : List Node) : Prop := ∀ x ∈ xs, x.Framed

/-- No nodes at all. -/
private theorem framed_nil : FramedNodes [] := fun _ hx => by cases hx

/-- Nodes one behind the other. -/
private theorem framed_append {xs ys : List Node} :
    FramedNodes (xs ++ ys) ↔ FramedNodes xs ∧ FramedNodes ys :=
  List.forall_mem_append

/-- A node in front of others. -/
private theorem framed_cons {x : Node} {xs : List Node} : FramedNodes (x :: xs) ↔ x.Framed ∧ FramedNodes xs :=
  List.forall_mem_cons

/-- A node that opens no frame. -/
private theorem framed_leaf {x : Node} (h : x.frames = []) : FramedNodes [x] := by
  intro y hy ns hns
  cases List.mem_singleton.1 hy
  rw [h] at hns
  cases hns

/-- Expressions open no frames. -/
private theorem framed_exprs (es : List Expr) : FramedNodes (es.map .expr) :=
  List.forall_mem_map.2 fun _ _ _ hns => by cases hns

/-- An assignment opens no frame. -/
private theorem framed_assign (a : Assign) : FramedNodes a.nodes :=
  framed_append.2 ⟨framed_leaf rfl, framed_exprs a.value.nodes⟩

/-- A clause opens no frame. -/
private theorem framed_clause (a : Option Assign) : FramedNodes (clauseNodes a) := by
  cases a with
  | none => exact framed_nil
  | some a => exact framed_assign a

/-- Nor do assignments in order. -/
private theorem framed_assigns (as : List Assign) : FramedNodes (as.flatMap Assign.nodes) := by
  induction as with
  | nil => exact framed_nil
  | cons a as ih => exact framed_append.2 ⟨framed_assign a, ih⟩

/-- A block is framed if it declares every name once and its statements are framed. -/
private theorem framed_block {os : List Assign} {ss : List Stmt} {sp : Span} :
    FramedNodes (Stmt.block (.mk os ss sp)).nodes
      ↔ (Block.mk os ss sp).declares.Nodup ∧ FramedNodes (stmtsNodes ss) := by
  rw [Stmt.nodes, framed_cons, Block.nodes, framed_append]
  simp [Node.Framed, Node.frames, framed_assigns]

/-! ## Freshening -/

/-- Nodes with the assignments of all their frames among them. -/
private def FrameClosed (xs : List Node) : Prop :=
  ∀ x ∈ xs, ∀ as ∈ x.assignments, ∀ a ∈ as, .stmt (.assign a) ∈ xs

/-- Nodes one behind the other. -/
private theorem FrameClosed.append {xs ys : List Node} (hx : FrameClosed xs) (hy : FrameClosed ys) :
    FrameClosed (xs ++ ys) := by
  intro x h as has a ha
  rcases List.mem_append.1 h with h | h
  · exact List.mem_append_left _ (hx x h as has a ha)
  · exact List.mem_append_right _ (hy x h as has a ha)

/-- A node whose frames are below it. -/
private theorem FrameClosed.cons {x : Node} {xs : List Node} (hxs : FrameClosed xs)
    (hx : ∀ as ∈ x.assignments, ∀ a ∈ as, .stmt (.assign a) ∈ xs) : FrameClosed (x :: xs) := by
  intro y h as has a ha
  rcases List.mem_cons.1 h with rfl | h
  · exact List.mem_cons_of_mem _ (hx as has a ha)
  · exact List.mem_cons_of_mem _ (hxs y h as has a ha)

/-- Expressions open no frames. -/
private theorem FrameClosed.exprs (es : List Expr) : FrameClosed (es.map .expr) := by
  intro x hx as has
  obtain ⟨e, _, rfl⟩ := List.mem_map.1 hx
  cases has

/-- An assignment opens no frame. -/
private theorem FrameClosed.assign (a : Assign) : FrameClosed a.nodes :=
  (FrameClosed.exprs a.value.nodes).cons fun _ has => by cases has

/-- A clause opens no frame. -/
private theorem FrameClosed.clause (a : Option Assign) : FrameClosed (clauseNodes a) := by
  cases a with
  | none => exact fun _ hx => by cases hx
  | some a => exact FrameClosed.assign a

/-- The assignments in the frame of a block are among its nodes. -/
private theorem Block.mem_nodes_of_assignments {b : Block} {a : Assign} (ha : a ∈ b.assignments) :
    .stmt (.assign a) ∈ b.nodes := by
  obtain ⟨os, ss, _⟩ := b
  rcases List.mem_append.1 ha with ha | ha
  · exact List.mem_append_left _ (List.mem_flatMap.2 ⟨a, ha, List.mem_cons_self⟩)
  · obtain ⟨s, hs, heq⟩ := List.mem_filterMap.1 ha
    obtain rfl : s = .assign a := by
      cases s <;> cases heq
      rfl
    exact List.mem_append_right _ (nodes_subset_stmtsNodes hs List.mem_cons_self)

/-- The assignments in a header are among the nodes of its clauses. -/
private theorem mem_clauseNodes {i : Option Assign} {a : Assign} (ha : a ∈ i.toList) :
    .stmt (.assign a) ∈ clauseNodes i := by
  cases i with
  | none => cases ha
  | some i =>
    cases List.mem_singleton.1 ha
    exact List.mem_cons_self

mutual

/-- The nodes of a statement have the assignments of their frames among them. -/
private theorem Stmt.nodes_closed : (s : Stmt) → FrameClosed s.nodes
  | .block b | .funcDef _ _ _ _ b => by
    -- The only frame is that of the block.
    refine (Block.nodes_closed b).cons fun as has a ha => ?_
    cases List.mem_singleton.1 has
    exact b.mem_nodes_of_assignments ha
  | .assign a => FrameClosed.assign a
  | .eval _ e | .ret _ e => (FrameClosed.exprs e.nodes).cons fun _ has => by cases has
  | .assignMember _ t v =>
    ((FrameClosed.exprs t.nodes).append (FrameClosed.exprs v.nodes)).cons fun _ has => by cases has
  | .cond _ c t none => by
    -- One frame for the branch.
    refine ((FrameClosed.exprs c.nodes).append (Block.nodes_closed t)).cons fun as has a ha => ?_
    cases List.mem_singleton.1 has
    exact List.mem_append_right _ (t.mem_nodes_of_assignments ha)
  | .cond _ c t (some f) => by
    refine (((FrameClosed.exprs c.nodes).append (Block.nodes_closed t)).append (Block.nodes_closed f)).cons
      fun as has a ha => ?_
    -- The frame of the one branch or of the other.
    rcases List.mem_cons.1 has with rfl | has
    · exact List.mem_append_left _ (List.mem_append_right _ (t.mem_nodes_of_assignments ha))
    · cases List.mem_singleton.1 has
      exact List.mem_append_right _ (f.mem_nodes_of_assignments ha)
  | .loop _ c b => by
    refine ((FrameClosed.exprs c.nodes).append (Block.nodes_closed b)).cons fun as has a ha => ?_
    cases List.mem_singleton.1 has
    exact List.mem_append_right _ (b.mem_nodes_of_assignments ha)
  | .forLoop _ i c st b => by
    have hclauses := ((FrameClosed.exprs (nodesOfOption c)).append (FrameClosed.clause i)).append
      (FrameClosed.clause st)
    refine (hclauses.append (Block.nodes_closed b)).cons fun as has a ha => ?_
    -- The first frame is that of the header, the other one that of the body.
    rcases List.mem_cons.1 has with rfl | has
    -- A clause of the header, the first one or the step.
    · rcases List.mem_append.1 ha with ha | ha
      · exact List.mem_append_left _ (List.mem_append_left _ (List.mem_append_right _ (mem_clauseNodes ha)))
      · exact List.mem_append_left _ (List.mem_append_right _ (mem_clauseNodes ha))
    · cases List.mem_singleton.1 has
      exact List.mem_append_right _ (b.mem_nodes_of_assignments ha)
  | .leave _ | .code _ _ | .bitfieldDef _ _ | .enumDef _ _ | .require _ _ => by
    -- No frames.
    intro x hx as has
    cases List.mem_singleton.1 hx
    cases has

/-- The nodes of statements have them. -/
private theorem stmtsNodes_closed : (ss : List Stmt) → FrameClosed (stmtsNodes ss)
  | [] => fun _ hx => by cases hx
  | s :: ss => (Stmt.nodes_closed s).append (stmtsNodes_closed ss)

/-- The nodes of a block have them. -/
private theorem Block.nodes_closed : (b : Block) → FrameClosed b.nodes
  | .mk os ss _ => by
    refine FrameClosed.append ?_ (stmtsNodes_closed ss)
    intro x hx
    obtain ⟨a, ha, hx⟩ := List.mem_flatMap.1 hx
    intro as has b hb
    exact List.mem_flatMap.2 ⟨a, ha, FrameClosed.assign a x hx as has b hb⟩

end

/-- A renamed node has renamed assignments in its frames. -/
private theorem Node.assignments_rename (r : Renaming) (x : Node) :
    (x.rename r).assignments = x.assignments.map (List.map (·.rename r)) := by
  -- The assignments of a block are renamed one by one.
  have hblock : ∀ b : Block, (b.rename r).assignments = b.assignments.map (·.rename r) := by
    intro b
    obtain ⟨os, ss, _⟩ := b
    have hss : (ss.map (·.rename r)).filterMap Stmt.assignment?
        = (ss.filterMap Stmt.assignment?).map (·.rename r) := by
      rw [List.filterMap_map, List.map_filterMap]
      refine congrArg (List.filterMap · ss) (funext fun s => ?_)
      cases s <;> rfl
    rw [Block.rename, Block.assignments, renameStmts_eq_map, hss, ← List.map_append]
    rfl
  -- The frames of a node are those of its blocks and of its header.
  cases x with
  | expr e => rfl
  | stmt s =>
    cases s with
    | cond sp c t f =>
      cases f <;> simp [Node.rename, Stmt.rename, renameElse, Node.assignments, hblock]
    | forLoop sp i c st b =>
      cases i <;> cases st <;> simp [Node.rename, Stmt.rename, Node.assignments, hblock]
    | _ => simp [Node.rename, Stmt.rename, Node.assignments, hblock]

/-- Two declarations that get one name by freshening had one name. -/
private theorem eq_of_rename {b : Block} {lo number : Nat} (hb : Numbered lo number b.nodes) {a a' : Assign}
    (ha : .stmt (.assign a) ∈ b.nodes) (ha' : .stmt (.assign a') ∈ b.nodes) (hd : a.info.declares = true)
    (hd' : a'.info.declares = true)
    (heq : (a.rename (freshNames number (contested b.nodes))).info.name
      = (a'.rename (freshNames number (contested b.nodes))).info.name) : a.info.name = a'.info.name := by
  obtain ⟨i, v⟩ := a
  obtain ⟨i', v'⟩ := a'
  -- Injectivity is known of names that bindings have, so one of the two has to have a binding.
  cases hi : i.binding with
  -- The first has a binding, so injectivity applies to it.
  | some c =>
    refine (rename_injective hb ha ha' (n := i.name) (c := c) ⟨hd, ?_⟩ ⟨hd', rfl⟩ ?_).symm
    · rw [← hi]
      rfl
    · rw [← hi]
      exact heq.symm
  | none =>
    cases hi' : i'.binding with
    -- The second has one.
    | some c =>
      refine rename_injective hb ha' ha (n := i'.name) (c := c) ⟨hd', ?_⟩ ⟨hd, rfl⟩ ?_
      · rw [← hi']
        rfl
      · rw [← hi']
        exact heq
    | none =>
      -- Temporaries keep their names.
      simpa [Assign.rename, Assign.info, Renaming.apply, hi, hi'] using heq

/-- Freshening keeps the names in a frame apart. -/
theorem FramedNodes.rename {b : Block} {lo number : Nat} (hb : Numbered lo number b.nodes) {xs : List Node}
    (h : FramedNodes xs) (hxs : ∀ x ∈ xs, ∀ as ∈ x.assignments, ∀ a ∈ as, .stmt (.assign a) ∈ b.nodes) :
    FramedNodes (xs.map (·.rename (freshNames number (contested b.nodes)))) := by
  refine List.forall_mem_map.2 fun x hx ns hns => ?_
  -- The frames of a renamed node are the renamed frames of the node.
  rw [Node.frames_eq, Node.assignments_rename, List.map_map] at hns
  obtain ⟨as, has, rfl⟩ := List.mem_map.1 hns
  -- The names were apart before.
  have hapart : (as.filterMap Assign.declared?).Nodup := by
    refine h x hx _ ?_
    rw [Node.frames_eq]
    exact List.mem_map_of_mem has
  show ((as.map _).filterMap Assign.declared?).Nodup
  rw [List.filterMap_map]
  -- Two names of the frame that are one after the renaming were one before it.
  refine List.pairwise_filterMap.2 ?_
  refine (List.pairwise_filterMap.1 hapart).imp_of_mem fun {a a'} ha ha' hne n hn m hm heq => ?_
  obtain ⟨hd, rfl⟩ := Assign.declared?_eq_some.1 hn
  obtain ⟨hd', rfl⟩ := Assign.declared?_eq_some.1 hm
  -- A renaming leaves alone whether a name is declared.
  have hdeclares : ∀ c : Assign, (c.rename (freshNames number (contested b.nodes))).info.declares
      = c.info.declares := fun c => by cases c; rfl
  rw [hdeclares] at hd hd'
  refine hne _ (Assign.declared?_eq_some.2 ⟨hd, rfl⟩) _ (Assign.declared?_eq_some.2 ⟨hd', rfl⟩) ?_
  exact eq_of_rename hb (hxs x hx as has a ha) (hxs x hx as has a' ha') hd hd' heq

/-! ## Names behind one another -/

/-- A statement that declares a name is an assignment. -/
private theorem Stmt.declared?_eq_some {s : Stmt} {n : Text} (h : s.declared? = some n) :
    ∃ a, s = .assign a ∧ a.info.declares = true ∧ a.info.name = n := by
  cases s with
  | assign a => exact ⟨a, rfl, Assign.declared?_eq_some.1 h⟩
  | _ => cases h

/-- A name that statements declare is bound behind them. -/
private theorem mem_stmtsBehind_of_declared {p : List Stmt} {n : Text} (h : n ∈ p.filterMap Stmt.declared?) :
    ∃ w, (n, .variable w) ∈ stmtsBehind [] p := by
  obtain ⟨s, hs, hn⟩ := List.mem_filterMap.1 h
  obtain ⟨a, rfl, hd, rfl⟩ := Stmt.declared?_eq_some hn
  exact ⟨a.info.binding, mem_stmtsBehind_of_assign hs hd []⟩

section Names

variable {f g : Bool} {σ τ τ' υ : Scope Entry} {c c₁ c₂ c' : Expansion} {ε : Env} {p q : List Stmt}

/-- What is declared in a scope that shows nothing new are temporaries. -/
theorem Introduces.temps (h : Introduces f σ σ c c' ε) : Introduces true σ σ c c' ε := by
  intro n w hn
  rcases h n w hn with htemp | ⟨_, _, _, hnot, hshow⟩
  · exact .inl htemp
  · exact absurd hshow hnot

/-- Names behind a piece are declared in a frame with those of the piece: temporaries are numbered on, and
variables behind the piece have names that its scope does not show. -/
private theorem nodup_declared_append
    (hp : (p.filterMap Stmt.declared?).Nodup) (hq : (q.filterMap Stmt.declared?).Nodup)
    (hpε : Introduces f σ τ c c₁ (stmtsBehind [] p)) (hqε : Introduces g τ' υ c₂ c' (stmtsBehind [] q))
    (hle : c₁.temps ≤ c₂.temps) (hshows : g = false → ∀ n, τ.Shows n → τ'.Shows n) :
    ((p ++ q).filterMap Stmt.declared?).Nodup := by
  rw [List.filterMap_append]
  refine List.nodup_append.2 ⟨hp, hq, ?_⟩
  -- Suppose that one name is declared in both pieces.
  rintro n hn _ hm rfl
  obtain ⟨w, hw⟩ := mem_stmtsBehind_of_declared hn
  obtain ⟨w', hw'⟩ := mem_stmtsBehind_of_declared hm
  -- Both names are temporaries, or both are plain: no temporary has a plain name.
  rcases hpε n w hw with ⟨_, k, ⟨_, hlt⟩, rfl⟩ | ⟨_, _, hplain, _, hshow⟩
  · rcases hqε _ w' hw' with ⟨_, j, ⟨hge, _⟩, heq⟩ | ⟨_, _, hplain, _⟩
    -- Two temporaries have numbers from ranges that do not meet.
    · have hkj := tempName_number heq
      omega
    · rw [isPlain_tempName] at hplain
      cases hplain
  -- A variable is not declared where its name is shown.
  · rcases hqε n w' hw' with ⟨_, j, _, rfl⟩ | ⟨hg, _, _, hnot, _⟩
    · rw [isPlain_tempName] at hplain
      cases hplain
    · exact hnot (hshows hg n hshow)

end Names

/-! ## Pieces -/

/-- A piece of an expanded tree whose frames, and the one that it stands in, declare every name once. -/
structure Framed (p : List Stmt) : Prop where
  names : (p.filterMap Stmt.declared?).Nodup
  nodes : FramedNodes (stmtsNodes p)

/-- The clauses of a loop as statements. -/
private theorem filterMap_clause (i : Option Assign) :
    (i.toList.map Stmt.assign).filterMap Stmt.declared? = i.toList.filterMap Assign.declared? := by
  rw [List.filterMap_map]
  rfl

section Pieces

variable {p q : List Stmt}

/-- Nothing at all. -/
theorem Framed.nil : Framed [] := ⟨List.nodup_nil, framed_nil⟩

/-- A statement that declares nothing behind others. -/
theorem Framed.concat (hp : Framed p) {s : Stmt} (hs : s.declared? = none) (hnodes : FramedNodes s.nodes) :
    Framed (p ++ [s]) where
  names := by
    rw [List.filterMap_append, List.filterMap_cons_none hs]
    simpa using hp.names
  nodes := by
    rw [stmtsNodes_append, stmtsNodes_singleton]
    exact framed_append.2 ⟨hp.nodes, hnodes⟩

/-- A piece as a block. -/
theorem Framed.block (hp : Framed p) (sp : Span) : FramedNodes (Stmt.block (.mk [] p sp)).nodes :=
  framed_block.2 ⟨hp.names, hp.nodes⟩

/-- A statement that declares nothing itself opens frames for its blocks. -/
theorem Stmt.Holds.framed {s : Stmt} {es : List Expr} {bs : List Block} (h : s.Holds es bs)
    (hbs : FramedNodes (stmtsNodes (bs.map .block))) : s.declared? = none ∧ FramedNodes s.nodes := by
  have hblocks : ∀ b ∈ bs, b.declares.Nodup := by
    intro b hb
    have hb : .stmt (.block b) ∈ stmtsNodes (bs.map .block) :=
      nodes_subset_stmtsNodes (List.mem_map_of_mem hb) List.mem_cons_self
    exact hbs _ hb _ List.mem_cons_self
  refine ⟨by cases h <;> rfl, fun x hx => ?_⟩
  rcases h.mem_nodes hx with rfl | hx | hx
  · cases h <;> simp [Node.Framed, Node.frames] at hblocks ⊢ <;> exact hblocks
  · exact framed_exprs es x hx
  · exact hbs x hx

/-- A loop behind other statements, from the frames of its header and of its body. -/
private theorem Framed.loop (hp : Framed p) (sp span : Span) {i step : Option Assign} {x : Option Expr}
    {ss : List Stmt} (hheader : (headerDeclares i step).Nodup) (hss : Framed ss) :
    Framed (p ++ [.forLoop sp i x step (.mk [] ss span)]) := by
  refine hp.concat rfl ?_
  rw [Stmt.nodes]
  refine framed_cons.2 ⟨fun ns hns => ?_, ?_⟩
  · rcases List.mem_cons.1 hns with rfl | hns
    · exact hheader
    · cases List.mem_singleton.1 hns
      exact hss.names
  · simp only [framed_append, Block.nodes, List.flatMap_nil]
    exact ⟨⟨⟨framed_exprs _, framed_clause i⟩, framed_clause step⟩, framed_nil, hss.nodes⟩

/-- The body of a loop with a test that has moved there. -/
private theorem Framed.inner (hq : Framed q) {ss inner : List Stmt} (hss : Framed ss) {x test : Option Expr}
    {sp span : Span}
    (htest : test = x ∧ q = [] ∧ inner = ss
      ∨ test = none ∧ ∃ e, x = some e ∧ inner = q ++ [guarded sp e (.mk [] ss span)]) : Framed inner := by
  rcases htest with ⟨_, _, rfl⟩ | ⟨_, e, _, rfl⟩
  · exact hss
  -- The guard stands behind what is put in front of the test, and the old body is one of its branches.
  · refine hq.concat rfl ?_
    rw [guarded, Stmt.nodes]
    refine framed_cons.2 ⟨fun ns hns => ?_, ?_⟩
    -- The frame of the branch is that of the old body; the other branch declares nothing.
    · rcases List.mem_cons.1 hns with rfl | hns
      · exact hss.names
      · cases List.mem_singleton.1 hns
        exact List.nodup_nil
    · simp only [leaveBlock, framed_append, Block.nodes, List.flatMap_nil, stmtsNodes, Stmt.nodes]
      exact ⟨⟨framed_exprs _, framed_nil, hss.nodes⟩, framed_nil, framed_leaf rfl, framed_nil⟩

end Pieces

/-! ## Calls -/

/-- Parameters are shown in the body that they are bound for. -/
private theorem shows_bodyScope
    {captured : List (Text × Entry)} {mid : Nat} {params : List Param} {args : List Expr}
    {a : Assign} (ha : a ∈ numberBinds mid (bindArguments params args)) :
    (bodyScope captured (numberBinds mid (bindArguments params args))).Shows a.info.name := by
  -- By induction on the parameters: a name is shown already, or the parameter is still to come.
  -- The scope of the body is extended by one parameter after the other.
  have hdeclare : ∀ as : List Assign,
      (∀ b ∈ as, b.info.declares = true ∧ ∃ d, b.info.binding = some d ∧ mid ≤ d.id) →
      ∀ σ : Scope Entry, σ.Shows a.info.name ∨ a ∈ as → (extendAll σ as).Shows a.info.name := by
    intro as
    induction as with
    | nil => exact fun _ σ h => h.resolve_right List.not_mem_nil
    | cons b as ih =>
      intro has σ h
      obtain ⟨⟨hd, d, hb, _⟩, has⟩ := List.forall_mem_cons.1 has
      have hextend : b.extend σ = σ.define b.info.name (.value d) := by
        rw [Assign.extend, if_pos hd, hb]
      rw [extendAll, hextend]
      refine ih has _ ?_
      rcases h with hσ | h
      -- What is shown stays shown, and the parameter itself is shown from here on.
      · exact .inl (hσ.define _ _)
      · rcases List.mem_cons.1 h with rfl | h
        · exact .inl (σ.shows_define_self _ _)
        · exact .inr h
  exact hdeclare _ (numberBinds_declare mid params args) _ (.inr ha)

/-- They have the names of the function's parameters. -/
private theorem numberBinds_name {mid : Nat} {params : List Param} {args : List Expr} {a : Assign}
    (ha : a ∈ numberBinds mid (bindArguments params args)) : ∃ x ∈ params, a.info.name = x.name := by
  induction params generalizing mid args with
  | nil => cases ha
  | cons x params ih =>
    cases args with
    | nil => cases ha
    | cons e args =>
      rcases List.mem_cons.1 ha with rfl | ha
      · exact ⟨x, List.mem_cons_self, rfl⟩
      · obtain ⟨y, hy, hname⟩ := ih ha
        exact ⟨y, List.mem_cons_of_mem x hy, hname⟩

/-- What assignments declare does not depend on their values. -/
private theorem filterMap_declared_congr {as bs : List Assign} (h : as.map Assign.info = bs.map Assign.info) :
    as.filterMap Assign.declared? = bs.filterMap Assign.declared? := by
  let declared (i : AssignInfo) : Option Text := if i.declares then some i.name else none
  have hinfo : ∀ cs : List Assign, cs.filterMap Assign.declared? = (cs.map Assign.info).filterMap declared := by
    intro cs
    rw [List.filterMap_map]
    rfl
  rw [hinfo, hinfo, h]

/-- Declarations declare their names. -/
private theorem filterMap_declared_of_declares {as : List Assign} (h : ∀ a ∈ as, a.info.declares = true) :
    as.filterMap Assign.declared? = as.map (·.info.name) := by
  induction as with
  | nil => rfl
  | cons a as ih =>
    obtain ⟨hd, has⟩ := List.forall_mem_cons.1 h
    rw [List.filterMap_cons_some (Assign.declared?_eq_some.2 ⟨hd, rfl⟩), ih has, List.map_cons]

section Calls

variable {υ : Scope Entry} {mid : Nat} {c c₁ c' : Expansion}

/-- The body of a call declares every name once if no two parameters have one name: its statements declare
nothing under the name of a parameter. -/
private theorem framed_body {params : List Param} (hparams : ∀ x ∈ params, x.name.isPlain = true)
    {captured : List (Text × Entry)} {args args' : List Expr} {binds : List Assign} {ss : List Stmt} (sp : Span)
    (count : params.length = args.length) (types : args'.length = args.length)
    (bound : binds = numberBinds mid (bindArguments params args)) (apart : (binds.map (·.info.name)).Nodup)
    (hss : Framed ss) (hε : Introduces false (bodyScope captured binds) υ c c' (stmtsBehind [] ss)) :
    FramedNodes (Stmt.block (.mk (bindExpanded binds args') ss sp)).nodes := by
  subst bound
  refine framed_block.2 ⟨?_, hss.nodes⟩
  have hinfo := map_info_bindExpanded ((length_numberBinds mid params args count).trans types.symm)
  have hdeclare := numberBinds_declare mid params args
  -- The frame holds the parameters and what the statements of the body declare.
  rw [Block.declares, filterMap_declared_congr hinfo,
    filterMap_declared_of_declares fun a ha => (hdeclare a ha).1]
  -- The parameters are apart by assumption, the others by induction.
  refine List.nodup_append.2 ⟨apart, hss.names, ?_⟩
  rintro n hn _ hm rfl
  obtain ⟨a, ha, rfl⟩ := List.mem_map.1 hn
  obtain ⟨w, hw⟩ := mem_stmtsBehind_of_declared hm
  -- A temporary has no plain name, and a variable of the body one that its scope does not show.
  rcases hε _ w hw with ⟨_, k, _, hk⟩ | ⟨_, _, _, hnot, _⟩
  · obtain ⟨x, hx, hname⟩ := numberBinds_name ha
    have hplain := hparams x hx
    rw [← hname, hk, isPlain_tempName] at hplain
    cases hplain
  · exact hnot (shows_bodyScope ha)

/-- What stands for a call is framed as the body is, and declares a temporary at most. -/
private theorem framed_called {os : List Assign} {ss q : List Stmt} {sp : Span} {b : Block} {e e' : Expr}
    (fresh : freshened (.mk os ss sp) c = .ok (b, c₁)) (place : placeBody e b c₁ = .ok ((q, e'), c'))
    (kept : e'.ty? = e.ty?) (hnum : Numbered mid c.renamed (Block.mk os ss sp).nodes)
    (h : FramedNodes (Stmt.block (.mk os ss sp)).nodes) (σ : Scope Entry) :
    Framed q ∧ Introduces true σ σ c c' (stmtsBehind [] q) := by
  -- The freshened body is framed, as renaming keeps names apart.
  obtain ⟨_, hq⟩ := called_cases fresh place kept
  have hclosed := Stmt.nodes_closed (.block (.mk os ss sp))
  have hrenamed := h.rename hnum fun x hx as has a ha => by
    rcases List.mem_cons.1 (hclosed x hx as has a ha) with heq | hmem
    · cases heq
    · exact hmem
  generalize freshNames c.renamed (contested (Block.mk os ss sp).nodes) = r at hq hrenamed
  rw [← Stmt.nodes_rename] at hrenamed
  -- With a return there is a temporary in front, without one only the block of the body.
  rcases hq with ⟨front, s, v, zero, rfl, _, hzero, htemps, rfl⟩ | ⟨htemps, rfl⟩
  · refine ⟨⟨?_, ?_⟩, fun n w hn => ?_⟩
    · show [tempName c.temps].Nodup
      simp
    · rw [stmtsNodes, stmtsNodes_singleton]
      refine framed_append.2 ⟨framed_assign _, ?_⟩
      -- The assignment in the place of the return declares nothing.
      simp only [Stmt.rename, Block.rename, renameStmts_eq_map, List.map_append, List.map_cons, List.map_nil,
        framed_block, Block.declares, List.filterMap_append, stmtsNodes_append, stmtsNodes_singleton,
        framed_append] at hrenamed ⊢
      obtain ⟨hnames, hfront, _⟩ := hrenamed
      exact ⟨hnames, hfront, framed_assign _⟩
    -- The temporary is the only name that the call introduces.
    · cases List.mem_singleton.1 hn
      exact .inl ⟨rfl, c.temps, ⟨Nat.le_refl _, by omega⟩, rfl⟩
  · refine ⟨⟨List.nodup_nil, ?_⟩, fun _ _ hn => by cases hn⟩
    rw [stmtsNodes_singleton]
    exact hrenamed

end Calls

/-! ## Expanded trees are framed -/

section Loops

variable {σ η η' υ : Scope Entry} {c c₁ c₂ c₃ c' : Expansion} {p q r ss inner last : List Stmt}
  {i st step : Option Assign} {x test : Option Expr} {sp span span' : Span}

/-- A loop behind what stands in front of it. -/
private theorem framed_forLoop (hp : Framed p) (hinit : Framed (p ++ i.toList.map .assign)) (hq : Framed q)
    (hss : Framed ss) (hst : Framed (r ++ st.toList.map .assign))
    (hiε : Introduces false σ η c c₁ (stmtsBehind [] (p ++ i.toList.map .assign)))
    (hqε : Introduces true η η c₁ c₂ (stmtsBehind [] q))
    (hssε : Introduces false η'.push υ c₂ c₃ (stmtsBehind [] ss))
    (hstε : Introduces false η η' c₃ c' (stmtsBehind [] (r ++ st.toList.map .assign)))
    (hle : c₁.temps ≤ c₂.temps) (hle' : c₂.temps ≤ c₃.temps)
    (htest : test = x ∧ q = [] ∧ inner = ss
      ∨ test = none ∧ ∃ e, x = some e ∧ inner = q ++ [guarded sp e (.mk [] ss span')])
    (hstep : step = st ∧ r = [] ∧ last = []
      ∨ step = none ∧ η' = η ∧ last = r ++ st.toList.map .assign) :
    Framed (p ++ [.forLoop sp i test step (.mk [] (inner ++ last) span)]) := by
  have hinner := hq.inner hss htest
  -- The first clause declares at most one name behind what stands in front of it.
  have hi : (i.toList.filterMap Assign.declared?).Nodup := by
    have hnames := hinit.names
    rw [List.filterMap_append, filterMap_clause] at hnames
    exact (List.nodup_append.1 hnames).2.1
  -- The step stays in the header, or it moves.
  rcases hstep with ⟨rfl, rfl, rfl⟩ | ⟨rfl, rfl, rfl⟩
  · rw [List.append_nil]
    refine hp.loop sp span ?_ hinner
    -- The step comes behind the first clause in the header.
    have hnames := nodup_declared_append hinit.names hst.names hiε hstε (by omega) fun _ _ h => h
    rw [List.nil_append, List.filterMap_append, List.filterMap_append, filterMap_clause, filterMap_clause,
      List.append_assoc, ← List.filterMap_append] at hnames
    exact (List.nodup_append.1 hnames).2.1
  · -- The step comes behind the body, in its frame.
    refine hp.loop sp span ?_ ⟨?_, ?_⟩
    · rw [headerDeclares, Option.toList_none, List.append_nil]
      exact hi
    -- A test that stays has nothing in front of it; a guard declares nothing.
    · rcases htest with ⟨_, _, rfl⟩ | ⟨_, e, _, rfl⟩
      · exact nodup_declared_append hss.names hst.names hssε hstε.temps (Nat.le_refl _) fun h => by cases h
      · have hguarded : ([guarded sp e (.mk [] ss span')]).filterMap Stmt.declared? = [] := rfl
        have hnames := nodup_declared_append hq.names hst.names hqε hstε.temps hle' fun h => by cases h
        rw [List.filterMap_append, List.filterMap_append, hguarded, List.append_nil, ← List.filterMap_append]
        exact hnames
    · rw [stmtsNodes_append]
      exact framed_append.2 ⟨hinner.nodes, hst.nodes⟩

end Loops

/-- If no call binds two parameters of one name, every frame of an expanded tree declares each name once. -/
theorem Assembled.framed {D : Dialect} {P : Prop} {f : Bool} {σ τ : Scope Entry} {lo hi : Nat}
    {c c' : Expansion} {p : List Stmt} (hD : D.Plain) (hP : P) (h : Assembled D P f σ τ lo hi c c' p) :
    Firm D lo σ → Framed p := by
  -- Two pieces in one frame are told apart by what they introduce; only the parameters of a call need `hP`.
  induction h with
  | nil | rescope => exact fun _ => Framed.nil
  | append _ first second ih₁ ih₂ =>
    intro hσ
    obtain ⟨hτ, _⟩ := first.counted hD hσ
    refine ⟨nodup_declared_append (ih₁ hσ).names (ih₂ hτ).names (first.scoped hD hσ).declares
      (second.scoped hD hτ).declares (Nat.le_refl _) fun _ _ h => h, ?_⟩
    -- The nodes are those of both pieces.
    rw [stmtsNodes_append]
    exact framed_append.2 ⟨(ih₁ hσ).nodes, (ih₂ hτ).nodes⟩
  | congr hσ' _ _ ih => exact fun hσ => ih (hσ.congr fun m => (hσ' m).symm)
  | enumeration sp d _ => exact fun _ => ⟨List.nodup_nil, framed_leaf rfl⟩
  | block sp _ ih =>
    intro hσ
    -- A block declares nothing in the frame around it.
    refine ⟨List.nodup_nil, ?_⟩
    rw [stmtsNodes_singleton]
    exact (ih hσ.push).block sp
  | nest before _ _ holds ih₁ ih₂ =>
    intro hσ
    obtain ⟨hσ₁, _⟩ := before.counted hD hσ
    -- A statement that holds the blocks declares nothing either.
    obtain ⟨hs, hnodes⟩ := holds.framed (ih₂ hσ₁).nodes
    exact (ih₁ hσ).concat hs hnodes
  | @declare σ _ _ _ _ p i v _ before _ declares _ plain _ _ _ ih =>
    intro hσ
    refine ⟨?_, ?_⟩
    · have hdeclared : (Stmt.assign (.mk i v)).declared? = some i.name := if_pos declares
      rw [List.filterMap_append, List.filterMap_cons_some hdeclared, List.filterMap_nil]
      refine List.nodup_append.2 ⟨(ih hσ).names, by simp, ?_⟩
      rintro n hn _ hm rfl
      -- In front of the value stand temporaries only.
      obtain ⟨w, hw⟩ := mem_stmtsBehind_of_declared hn
      rcases (before.scoped hD hσ).declares n w hw with ⟨_, k, _, rfl⟩ | ⟨hf, _⟩
      · rw [← List.mem_singleton.1 hm, isPlain_tempName] at plain
        cases plain
      · cases hf
    · rw [stmtsNodes_append, stmtsNodes_singleton]
      exact framed_append.2 ⟨(ih hσ).nodes, framed_assign _⟩
  | @assign σ _ _ _ _ p i v _ _ _ _ declares _ _ _ _ _ _ ih =>
    intro hσ
    -- A plain assignment declares nothing.
    have hdeclared : (Stmt.assign (.mk i v)).declared? = none := if_neg (by rw [Assign.info, declares]; simp)
    exact (ih hσ).concat hdeclared (framed_assign _)
  | forLoop sp span span' before init tested _ body _ stepped htest hstep ihp ihi ihq ihs _ ihst =>
    intro hσ
    -- Each part of the loop is framed in the scope that the parts in front of it leave.
    obtain ⟨hη, _⟩ := init.counted hD hσ.push
    obtain ⟨hη₂, _⟩ := tested.counted hD hη
    obtain ⟨hη', _⟩ := stepped.counted hD hη₂
    exact framed_forLoop (ihp hσ.push) (ihi hσ.push) (ihq hη) (ihs hη'.push) (ihst hη₂)
      (init.scoped hD hσ.push).declares (tested.scoped hD hη).declares (body.scoped hD hη'.push).declares
      (stepped.scoped hD hη₂).declares tested.ordered.1 body.ordered.1 htest hstep
  | @call σ _ lo mid hi c c₁ c₂ _ c' p _ _ params _ _ captured args args' binds ss _ _ sp before left function
      count types proper bound apart body fresh _ place kept ihp ihs =>
    intro hσ
    obtain ⟨_, hp⟩ := before.counted hD hσ
    -- The body of a call is framed in its own scope.
    have hbody : Firm D (mid + params.length) (bodyScope captured binds) := by
      rw [bound]
      exact hσ.body function hp.le.1 proper
    have hlen : args'.length = args.length := by
      simpa using congrArg List.length types
    have hparams : ∀ x ∈ params, x.name.isPlain = true :=
      fun x hx => hD x.name ((hσ.sound.template function).1 x hx)
    -- The body declares each binding once, so freshening keeps its names apart.
    have hcounted : Counted (c₁.counter mid) (c₂.counter hi)
        (acts (Block.mk (bindExpanded binds args') ss sp).nodes) :=
      counted_body hparams sp count types proper bound (body.counted hD hbody).2
    have hframed := framed_body hparams sp count hlen bound (apart hP) (ihs hbody) (body.scoped hD hbody).declares
    obtain ⟨hq, hqε⟩ := framed_called fresh place kept hcounted.numbered hframed σ
    -- In front of the body stand temporaries of the arguments, which have lower numbers.
    refine ⟨nodup_declared_append (ihp hσ).names hq.names (before.scoped hD hσ).declares hqε body.ordered.1
      (fun h => by cases h), ?_⟩
    rw [stmtsNodes_append]
    exact framed_append.2 ⟨(ihp hσ).nodes, hq.nodes⟩

/-! ## Lowered trees are framed -/

section Lowered

variable (r : Reading)

/-- What an assignment declares does not depend on its value. -/
private theorem Assign.declared?_replace (ε : Env) (a : Assign) :
    (a.replace r ε).declared? = a.declared? := by
  cases a
  rfl

/-- A clause that stays declares what it declared. -/
private theorem sublist_clause (ε : Env) (a : Option Assign) :
    (((a.map (·.replace r ε)).filter Assign.stores).toList.filterMap Assign.declared?).Sublist
      (a.toList.filterMap Assign.declared?) := by
  cases a with
  | none => exact List.Sublist.refl _
  | some a =>
    have hdeclared : [a.replace r ε].filterMap Assign.declared? = [a].filterMap Assign.declared? := by
      rw [List.filterMap_cons, List.filterMap_cons, a.declared?_replace r ε]
    rw [Option.map_some, Option.filter_some, Option.toList_some, ← hdeclared]
    split
    · exact List.Sublist.refl _
    · exact List.nil_sublist _

/-- Parameters of a call that stay declare what they declared. -/
private theorem sublist_assigns (ε : Env) (as : List Assign) :
    (((replaceAssigns r ε as).filter Assign.stores).filterMap Assign.declared?).Sublist
      (as.filterMap Assign.declared?) := by
  have hdeclared : ∀ ε,
      (replaceAssigns r ε as).filterMap Assign.declared? = as.filterMap Assign.declared? := by
    induction as with
    | nil => exact fun _ => rfl
    | cons a as ih =>
      intro ε
      rw [replaceAssigns, List.filterMap_cons, List.filterMap_cons, a.declared?_replace r ε, ih]
  rw [← hdeclared ε]
  exact List.filter_sublist.filterMap _

/-- What stays of a statement declares what it declared. -/
private theorem Stmt.sublist_declared (ε : Env) (s : Stmt) :
    ((s.replace r ε).withoutStrings.filterMap Stmt.declared?).Sublist ([s].filterMap Stmt.declared?) := by
  cases s with
  | assign a =>
    have hclause := sublist_clause r ε (some a)
    simp only [Stmt.replace, Stmt.withoutStrings, filterMap_clause]
    rwa [Option.map_some] at hclause
  | _ => exact List.Sublist.refl _

/-- So does what stays of statements. -/
private theorem sublist_stmts (ε : Env) (ss : List Stmt) :
    ((stmtsWithoutStrings (replaceStmts r ε ss)).filterMap Stmt.declared?).Sublist
      (ss.filterMap Stmt.declared?) := by
  induction ss generalizing ε with
  | nil => exact List.Sublist.refl _
  | cons s ss ih =>
    rw [replaceStmts, stmtsWithoutStrings, List.filterMap_append, ← List.singleton_append, List.filterMap_append]
    exact (s.sublist_declared r ε).append (ih _)

/-- So does what stays of a block. -/
private theorem Block.sublist_declares (ε : Env) (b : Block) :
    (b.replace r ε).withoutStrings.declares.Sublist b.declares := by
  obtain ⟨os, ss, _⟩ := b
  exact (sublist_assigns r ε os).append (sublist_stmts r _ ss)

/-- The frame of a block stays one that declares every name once. -/
private theorem Block.nodup_lowered (ε : Env) (b : Block) (h : b.declares.Nodup) :
    (b.replace r ε).withoutStrings.declares.Nodup := h.sublist (b.sublist_declares r ε)

/-- So does that of a header, whose step is read behind the first clause. -/
private theorem nodup_header (ε : Env) {i st : Option Assign} (h : (headerDeclares i st).Nodup) :
    (headerDeclares ((i.map (·.replace r ε)).filter Assign.stores)
      ((st.map (·.replace r (clauseBehind ε i))).filter Assign.stores)).Nodup := by
  refine h.sublist ?_
  rw [headerDeclares, headerDeclares, List.filterMap_append, List.filterMap_append]
  exact (sublist_clause r ε i).append (sublist_clause r _ st)

mutual

/-- Without the assignments of strings, a statement stays framed, however its variables are read. -/
private theorem Stmt.framed_lowered (ε : Env) : (s : Stmt) → FramedNodes s.nodes →
    FramedNodes (stmtsNodes (s.replace r ε).withoutStrings)
  | .block b, h => by
    -- The frame of the block loses declarations at most.
    obtain ⟨hb, hnodes⟩ := framed_cons.1 h
    have hdeclares := b.nodup_lowered r ε (hb _ List.mem_cons_self)
    rw [Stmt.replace, Stmt.withoutStrings, stmtsNodes_singleton]
    exact framed_cons.2 ⟨List.forall_mem_singleton.2 hdeclares, Block.framed_lowered ε b hnodes⟩
  | .assign a, _ => by
    simp only [Stmt.replace, Stmt.withoutStrings]
    -- The assignment goes if it stores a string.
    cases (some (a.replace r ε)).filter Assign.stores with
    | none => exact framed_nil
    | some a' => simpa [stmtsNodes, Stmt.nodes] using framed_assign a'
  | .cond sp c t none, h => by
    obtain ⟨hb, hnodes⟩ := framed_cons.1 h
    have hdeclares := t.nodup_lowered r ε (hb _ List.mem_cons_self)
    have hlowered := Block.framed_lowered ε t (framed_append.1 hnodes).2
    rw [Stmt.replace, replaceElse, Stmt.withoutStrings, elseWithoutStrings, stmtsNodes_singleton]
    exact framed_cons.2 ⟨List.forall_mem_singleton.2 hdeclares, framed_append.2 ⟨framed_exprs _, hlowered⟩⟩
  | .cond sp c t (some f), h => by
    -- The same for both branches.
    obtain ⟨hb, hnodes⟩ := framed_cons.1 h
    obtain ⟨hct, hf⟩ := framed_append.1 hnodes
    have hdeclares := t.nodup_lowered r ε (hb _ List.mem_cons_self)
    have hdeclares' := f.nodup_lowered r ε (hb _ (List.mem_cons_of_mem _ List.mem_cons_self))
    have hlowered := Block.framed_lowered ε t (framed_append.1 hct).2
    have hlowered' := Block.framed_lowered ε f hf
    rw [Stmt.replace, replaceElse, Stmt.withoutStrings, elseWithoutStrings, stmtsNodes_singleton]
    refine framed_cons.2 ⟨List.forall_mem_cons.2 ⟨hdeclares, List.forall_mem_singleton.2 hdeclares'⟩, ?_⟩
    exact framed_append.2 ⟨framed_append.2 ⟨framed_exprs _, hlowered⟩, hlowered'⟩
  | .loop sp c b, h => by
    obtain ⟨hb, hnodes⟩ := framed_cons.1 h
    have hdeclares := b.nodup_lowered r ε (hb _ List.mem_cons_self)
    have hlowered := Block.framed_lowered ε b (framed_append.1 hnodes).2
    rw [Stmt.replace, Stmt.withoutStrings, stmtsNodes_singleton]
    exact framed_cons.2 ⟨List.forall_mem_singleton.2 hdeclares, framed_append.2 ⟨framed_exprs _, hlowered⟩⟩
  | .forLoop sp i c st b, h => by
    obtain ⟨hb, hnodes⟩ := framed_cons.1 h
    -- The body is read behind both clauses.
    have hlowered := Block.framed_lowered (clauseBehind (clauseBehind ε i) st) b (framed_append.1 hnodes).2
    -- The header loses declarations at most as well.
    have hheader := nodup_header r ε (hb _ List.mem_cons_self)
    have hdeclares := b.nodup_lowered r (clauseBehind (clauseBehind ε i) st)
      (hb _ (List.mem_cons_of_mem _ List.mem_cons_self))
    rw [Stmt.replace, Stmt.withoutStrings, stmtsNodes_singleton]
    refine framed_cons.2 ⟨List.forall_mem_cons.2 ⟨hheader, List.forall_mem_singleton.2 hdeclares⟩, ?_⟩
    simp only [framed_append]
    exact ⟨⟨⟨framed_exprs _, framed_clause _⟩, framed_clause _⟩, hlowered⟩
  | .funcDef sp n ns ps b, h => by
    -- And the body of a function.
    obtain ⟨hb, hnodes⟩ := framed_cons.1 h
    have hdeclares := b.nodup_lowered r ε (hb _ List.mem_cons_self)
    rw [Stmt.replace, Stmt.withoutStrings, stmtsNodes_singleton]
    exact framed_cons.2 ⟨List.forall_mem_singleton.2 hdeclares, Block.framed_lowered ε b hnodes⟩
  -- No frames.
  | .eval _ _, _ | .ret _ _, _ => by
    rw [Stmt.replace, Stmt.withoutStrings, stmtsNodes_singleton]
    exact framed_append.2 ⟨framed_leaf rfl, framed_exprs _⟩
  | .assignMember _ _ _, _ => by
    rw [Stmt.replace, Stmt.withoutStrings, stmtsNodes_singleton]
    exact framed_append.2 ⟨framed_leaf rfl, framed_append.2 ⟨framed_exprs _, framed_exprs _⟩⟩
  | .leave _, _ | .code _ _, _ | .bitfieldDef _ _, _ | .enumDef _ _, _ | .require _ _, _ => framed_leaf rfl

/-- Statements stay framed. -/
private theorem framed_loweredStmts (ε : Env) : (ss : List Stmt) → FramedNodes (stmtsNodes ss) →
    FramedNodes (stmtsNodes (stmtsWithoutStrings (replaceStmts r ε ss)))
  | [], _ => framed_nil
  | s :: ss, h => by
    obtain ⟨hs, hss⟩ := framed_append.1 h
    rw [replaceStmts, stmtsWithoutStrings, stmtsNodes_append]
    exact framed_append.2 ⟨Stmt.framed_lowered ε s hs, framed_loweredStmts _ ss hss⟩

/-- A block stays framed. -/
private theorem Block.framed_lowered (ε : Env) : (b : Block) → FramedNodes b.nodes →
    FramedNodes (b.replace r ε).withoutStrings.nodes
  | .mk os ss _, h => framed_append.2
      ⟨framed_assigns _, framed_loweredStmts (assignsBehind ε os) ss (framed_append.1 h).2⟩

end

/-- Without the assignments of strings, a program that is framed declares every name once in each frame. -/
theorem Framed.lowered {ss : List Stmt} (h : Framed ss) (sp : Span) :
    ∀ ns ∈ ((Block.mk [] ss sp).replace r []).withoutStrings.frames, ns.Nodup := by
  intro ns hns
  rcases List.mem_cons.1 hns with rfl | hns
  · exact Block.nodup_lowered r [] (.mk [] ss sp) h.names
  · obtain ⟨x, hx, hns⟩ := List.mem_flatMap.1 hns
    exact Block.framed_lowered r [] (.mk [] ss sp) h.nodes x hx ns hns

end Lowered

end AisScript
