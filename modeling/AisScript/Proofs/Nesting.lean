import AisScript.Tree.Walk

/-!
# Trees whose places nest

The parts of a node are the statements and expressions directly below it, in the order in which they are
written: its own expressions, the clauses of a loop header and the statements of its blocks.  A tree *nests*
if the place of every node holds the places of its parts, which stand one behind the other.

Trees are built from left to right, so rows of nodes that nest between two offsets are put side by side, and
a row becomes the parts of a node whose place reaches from its first token to its last.

* `Span.Fills`    spans with at least one byte, between two offsets of a file
* `Node.held`     the parts of a node
* `Node.Nests`    nodes that hold their parts
* `Laid`          rows of nodes that nest, all the way down
* `Laid.node`     a row becomes the parts of a node
-/

namespace AisScript

/-! ## Spans -/

/-- A span of a file with at least one byte, between two offsets. -/
structure Span.Fills (file lo hi : Nat) (s : Span) : Prop where
  file : s.file = file
  start : lo ≤ s.start
  pos : s.start < s.stop
  stop : s.stop ≤ hi

namespace Span.Fills

variable {file lo lo' mid mid' hi hi' : Nat} {s t : Span}

/-- A wider stretch. -/
theorem widen (h : s.Fills file lo hi) (hlo : lo' ≤ lo) (hhi : hi ≤ hi') : s.Fills file lo' hi' :=
  ⟨h.file, Nat.le_trans hlo h.start, h.pos, Nat.le_trans h.stop hhi⟩

/-- Where a span stands. -/
theorem order (h : s.Fills file lo hi) : lo ≤ s.start ∧ s.start < s.stop ∧ s.stop ≤ hi := ⟨h.start, h.pos, h.stop⟩

/-- A stretch with a span in it. -/
theorem lt (h : s.Fills file lo hi) : lo < hi := by
  have horder := h.order
  omega

/-- The span that covers two, the first of which stands in front of the second. -/
private theorem cover_eq (hs : s.Fills file lo mid) (ht : t.Fills file mid' hi) (hmid : mid ≤ mid') :
    s.cover t = ⟨file, s.start, t.stop⟩ := by
  have hsorder := hs.order
  have htorder := ht.order
  rw [cover, if_pos (hs.file.trans ht.file.symm), hs.file, Nat.min_eq_left (by omega), Nat.max_eq_right (by omega)]

/-- The span that covers two stands where the two stand. -/
theorem cover (hs : s.Fills file lo mid) (ht : t.Fills file mid' hi) (hmid : mid ≤ mid') :
    (s.cover t).Fills file lo hi := by
  have hsorder := hs.order
  have htorder := ht.order
  rw [hs.cover_eq ht hmid]
  exact ⟨rfl, hs.start, by dsimp only; omega, ht.stop⟩

end Span.Fills

/-! ## Parts -/

/-- What a block holds: the bindings of arguments, and its statements. -/
def Block.held (b : Block) : List Node := b.overrides.map (fun a => .stmt (.assign a)) ++ b.stmts.map .stmt

/-- A clause of a loop header, if there is one. -/
def clauseHeld (a : Option Assign) : List Node := a.toList.map fun a => .stmt (.assign a)

/-- What a statement holds. -/
def Stmt.held : Stmt → List Node
  | .block b | .funcDef _ _ _ _ b => b.held
  | .eval _ e | .ret _ e => [.expr e]
  | .assign a => [.expr a.value]
  | .assignMember _ t v => [.expr t, .expr v]
  | .cond _ c t f => .expr c :: (t.held ++ f.toList.flatMap Block.held)
  | .loop _ c b => .expr c :: b.held
  | .forLoop _ i c st b => clauseHeld i ++ c.toList.map .expr ++ clauseHeld st ++ b.held
  | .leave _ | .code _ _ | .bitfieldDef _ _ | .enumDef _ _ | .require _ _ => []

namespace Node

/-- The parts of a node: what it holds. -/
def held : Node → List Node
  | .stmt s => s.held
  | .expr e => e.children.map .expr

/-- A node and everything below it. -/
def below : Node → List Node
  | .stmt s => s.nodes
  | .expr e => exprNodes e

/-- A node whose place has at least one byte, lies between two offsets of a file, and holds the places of its
parts, which stand one behind the other. -/
structure Nests (file lo hi : Nat) (n : Node) : Prop where
  fills : n.span.Fills file lo hi
  inside : ∀ p ∈ n.held, p.span.Fills file n.span.start n.span.stop
  apart : n.held.Pairwise fun p q => p.span.stop ≤ q.span.start

/-- A wider stretch. -/
theorem Nests.widen {file lo lo' hi hi' : Nat} {n : Node} (h : n.Nests file lo hi) (hlo : lo' ≤ lo) (hhi : hi ≤ hi') :
    n.Nests file lo' hi' := ⟨h.fills.widen hlo hhi, h.inside, h.apart⟩

end Node

/-! ## What is below a node -/

/-- The nodes of a list of expressions. -/
private theorem nodesOfList_eq : (es : List Expr) → nodesOfList es = es.flatMap Expr.nodes
  | [] => rfl
  | e :: es => by rw [nodesOfList, nodesOfList_eq es, List.flatMap_cons]

/-- The nodes of an expression that may be absent. -/
private theorem nodesOfOption_eq (e : Option Expr) : nodesOfOption e = e.toList.flatMap Expr.nodes := by
  cases e with
  | none => rfl
  | some e => exact (List.append_nil _).symm

/-- An expression stands in front of what is below its operands. -/
theorem Expr.nodes_eq (e : Expr) : e.nodes = e :: e.children.flatMap Expr.nodes := by
  cases e <;> simp only [nodes, children, nodesOfList_eq, nodesOfOption_eq, List.flatMap_nil, List.flatMap_cons,
    List.flatMap_append, List.append_nil]

/-- The nodes of statements in a row. -/
private theorem stmtsNodes_eq : (ss : List Stmt) → stmtsNodes ss = ss.flatMap Stmt.nodes
  | [] => rfl
  | s :: ss => by rw [stmtsNodes, stmtsNodes_eq ss, List.flatMap_cons]

/-- What is below the parts of a block. -/
theorem Block.nodes_eq (b : Block) : b.nodes = b.held.flatMap Node.below := by
  obtain ⟨os, ss, sp⟩ := b
  rw [nodes, stmtsNodes_eq, held, List.flatMap_append, List.flatMap_map, List.flatMap_map]
  rfl

/-- What is below a clause. -/
private theorem clauseNodes_eq (a : Option Assign) : clauseNodes a = (clauseHeld a).flatMap Node.below := by
  cases a with
  | none => rfl
  | some a => exact (List.append_nil _).symm

/-- What is below an expression, as nodes of a program. -/
private theorem exprNodes_eq (e : Expr) :
    exprNodes e = .expr e :: (e.children.map Node.expr).flatMap Node.below := by
  rw [exprNodes, e.nodes_eq, List.map_cons, List.map_flatMap, List.flatMap_map]
  rfl

/-- A node has itself below it, and what is below its parts. -/
private theorem Node.mem_below {n m : Node} : m ∈ n.below ↔ m = n ∨ ∃ p ∈ n.held, m ∈ p.below := by
  -- One case per kind of node, by what it holds.
  rw [← List.mem_flatMap, ← List.mem_cons]
  cases n with
  -- An expression holds its operands.
  | expr e => rw [below, exprNodes_eq, held]
  | stmt s =>
    cases s with
    -- The second branch and the clauses of a loop may be absent.
    | cond sp c t f =>
      cases f <;> simp only [below, held, Stmt.nodes, Stmt.held, Block.nodes_eq, Option.toList_none,
        Option.toList_some, List.flatMap_nil, List.flatMap_cons, List.flatMap_append, List.append_nil,
        List.append_assoc]
    | forLoop sp i c st b =>
      -- The nodes of the test are in front of those of the first clause.
      have htest : (nodesOfOption c).map Node.expr = (c.toList.map Node.expr).flatMap below := by
        cases c with
        | none => rfl
        | some c => exact (List.append_nil _).symm
      simp only [below, held, Stmt.nodes, Stmt.held, htest, clauseNodes_eq, Block.nodes_eq, List.flatMap_append,
        List.mem_cons, List.mem_append, or_assoc, or_left_comm]
    | _ =>
      simp only [below, held, Stmt.nodes, Stmt.held, Assign.nodes, Block.nodes_eq, List.flatMap_nil,
        List.flatMap_cons, List.append_nil]

/-! ## Rows of nodes -/

/-- Nodes that stand one behind the other and nest between two offsets of a file, with everything below
them. -/
structure Laid (file lo hi : Nat) (ns : List Node) : Prop where
  nests : ∀ n ∈ ns, ∀ m ∈ n.below, m.Nests file lo hi
  apart : ns.Pairwise fun n m => n.span.stop ≤ m.span.start

namespace Laid

variable {file lo lo' mid mid' hi hi' : Nat} {ns ms : List Node} {n : Node} {s t : Span}

/-- Where the nodes of a row stand. -/
theorem fills (h : Laid file lo hi ns) {n : Node} (hn : n ∈ ns) : n.span.Fills file lo hi :=
  (h.nests n hn n (Node.mem_below.2 (.inl rfl))).fills

/-- A stretch with a node in it. -/
theorem lt (h : Laid file lo hi [n]) : lo < hi := (h.fills List.mem_cons_self).lt

/-- A wider stretch. -/
theorem widen (h : Laid file lo hi ns) (hlo : lo' ≤ lo) (hhi : hi ≤ hi') : Laid file lo' hi' ns :=
  ⟨fun n hn m hm => (h.nests n hn m hm).widen hlo hhi, h.apart⟩

/-- A row of no nodes. -/
theorem nil : Laid file lo hi [] := ⟨nofun, .nil⟩

/-- Two rows side by side. -/
theorem append (h : Laid file lo mid ns) (h' : Laid file mid hi ms) (hlo : lo ≤ mid) (hhi : mid ≤ hi) :
    Laid file lo hi (ns ++ ms) := by
  refine ⟨List.forall_mem_append.2 ⟨(h.widen (Nat.le_refl _) hhi).nests, (h'.widen hlo (Nat.le_refl _)).nests⟩,
    List.pairwise_append.2 ⟨h.apart, h'.apart, fun n hn m hm => ?_⟩⟩
  exact Nat.le_trans (h.fills hn).stop (h'.fills hm).start

/-- A row becomes the parts of a node whose place holds theirs. -/
theorem node (hn : n.span.Fills file lo hi) (hparts : Laid file lo hi n.held)
    (hin : ∀ p ∈ n.held, n.span.start ≤ p.span.start ∧ p.span.stop ≤ n.span.stop) : Laid file lo hi [n] := by
  refine ⟨List.forall_mem_singleton.2 fun m hm => ?_, List.pairwise_singleton _ _⟩
  rcases Node.mem_below.1 hm with rfl | ⟨p, hp, hm⟩
  · refine ⟨hn, fun p hp => ?_, hparts.apart⟩
    have hfills := hparts.fills hp
    exact ⟨hfills.file, (hin p hp).1, hfills.pos, (hin p hp).2⟩
  · exact hparts.nests p hp m hm

/-- A node without parts. -/
theorem leaf (hn : n.span.Fills file lo hi) (hparts : n.held = []) : Laid file lo hi [n] :=
  node hn (hparts ▸ nil) (hparts ▸ nofun)

/-- A row becomes the parts of a node that reaches from one span to another. -/
theorem ends (hspan : n.span = s.cover t) (hs : s.Fills file lo mid) (ht : t.Fills file mid' hi) (hmid : mid ≤ mid')
    (hparts : Laid file lo hi n.held) (hin : ∀ p ∈ n.held, s.start ≤ p.span.start ∧ p.span.stop ≤ t.stop) :
    Laid file lo hi [n] := by
  refine node (hspan ▸ hs.cover ht hmid) hparts fun p hp => ?_
  rw [hspan, hs.cover_eq ht hmid]
  exact hin p hp

/-- A row becomes the parts of a node that begins in front of them and reaches to the end of the stretch. -/
theorem marked (hspan : n.span = s.cover t) (hs : s.Fills file lo mid) (ht : t.Fills file mid hi) (hend : t.stop = hi)
    (hparts : Laid file mid hi n.held) : Laid file lo hi [n] := by
  refine ends hspan hs ht (Nat.le_refl _) (hparts.widen (Nat.le_of_lt hs.lt) (Nat.le_refl _)) fun p hp => ?_
  have horder := hs.order
  have hpart := (hparts.fills hp).order
  omega

/-- Where the only expression of a row stands. -/
theorem expr {e : Expr} (h : Laid file lo hi [.expr e]) : e.span.Fills file lo hi := h.fills List.mem_cons_self

/-- An expression becomes the only part of a node that begins in front of it and ends where it ends. -/
theorem valued {x : Expr} (hspan : n.span = s.cover x.span) (hone : n.held = [.expr x]) (hs : s.Fills file lo mid)
    (hx : Laid file mid hi [.expr x]) : Laid file lo hi [n] := by
  refine ends hspan hs hx.expr (Nat.le_refl _) (hone ▸ hx.widen (Nat.le_of_lt hs.lt) (Nat.le_refl _)) ?_
  have horder := hs.order
  have hpart := hx.expr.order
  rw [hone]
  exact List.forall_mem_singleton.2 ⟨show s.start ≤ x.span.start by omega, Nat.le_refl _⟩

/-! ## Nodes with two parts -/

/-- An operator between two operands. -/
theorem infixOp {l r : Expr} (op : BinaryOp) (hl : Laid file lo mid [.expr l]) (hr : Laid file mid hi [.expr r]) :
    Laid file lo hi [.expr (.infixOp op l r)] := by
  have hleft := hl.expr.order
  have hright := hr.expr.order
  refine ends rfl hl.expr hr.expr (Nat.le_refl _) (hl.append hr (by omega) (by omega)) ?_
  exact List.forall_mem_cons.2 ⟨⟨Nat.le_refl _, show l.span.stop ≤ r.span.stop by omega⟩,
    List.forall_mem_singleton.2 ⟨show l.span.start ≤ r.span.start by omega, Nat.le_refl _⟩⟩

/-- A member of a base. -/
theorem access {b : Expr} {m : Span} (a : Access) (name : Text) (hb : Laid file lo mid [.expr b])
    (hm : m.Fills file mid hi) : Laid file lo hi [.expr (.access a b name m)] := by
  have hbase := hb.expr.order
  have hmember := hm.order
  refine ends rfl hb.expr hm (Nat.le_refl _) (hb.widen (Nat.le_refl _) (by omega)) ?_
  exact List.forall_mem_singleton.2 ⟨Nat.le_refl _, show b.span.stop ≤ m.stop by omega⟩

/-- An assignment to a member of a variable. -/
theorem assignMember {name m : Span} {v : Expr} (x field : Text) (hname : name.Fills file lo mid)
    (hm : m.Fills file mid mid') (hv : Laid file mid' hi [.expr v]) :
    Laid file lo hi [.stmt (.assignMember (name.cover v.span) (.access .dotted (.name x name) field m) v)] := by
  -- The target fills the place up to the value.
  have htarget : Laid file lo mid' [.expr (.access .dotted (.name x name) field m)] :=
    access .dotted field (leaf (n := .expr (.name x name)) hname rfl) hm
  have hstart : (name.cover m).start = name.start := by rw [hname.cover_eq hm (Nat.le_refl _)]
  have hfirst := hname.order
  have hsecond : (name.cover m).Fills file lo mid' := htarget.expr
  have hvalue := hv.expr.order
  -- From the name to the value, with both parts inside.
  refine ends rfl hname hv.expr (Nat.le_of_lt hm.lt) (htarget.append hv (Nat.le_of_lt hsecond.lt)
    (Nat.le_of_lt hv.lt)) ?_
  -- The target begins with the statement, and the value begins behind the target.
  refine List.forall_mem_cons.2 ⟨?_, List.forall_mem_singleton.2 ⟨?_, Nat.le_refl _⟩⟩
  · have hstop := hsecond.stop
    change name.start ≤ (name.cover m).start ∧ (name.cover m).stop ≤ v.span.stop
    omega
  · change name.start ≤ v.span.start
    have hlt := hm.lt
    omega

end Laid

end AisScript
