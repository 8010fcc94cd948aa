import AisScript.Generate
import AisScript.Proofs.Expanding
import AisScript.Proofs.Walk
import AisScript.Proofs.MadeUp
import AisScript.Proofs.TypingSound

/-!
# Settled trees

A tree is settled when every node of it is one that the passes behind the expansion handle: every
expression has its type, calls stand for operations of the host with enough arguments, members of
bitfields have their range, and no return, function or require is left.  Resolved trees always
expand, and what they expand to is settled, but for the return that ends a function's body.

* `Node.IsSettled`, `SettledNodes`   the predicate, node by node
* `Expr.expand_settled`, `Stmt.expand_settled`   expansion of a resolved tree
* `Block.expand_settled`              expansion of a resolved program
-/

namespace AisScript

/-! ## The predicate -/

/-- The least number of arguments that an operation is written from. -/
def Signature.least : Signature → Nat
  | .print => 0
  | .sink _ | .unary _ _ | .toObject => 1
  | .binary _ _ | .binaryFloat _ | .objects _ => 2

/-- What the passes behind the expansion need of a single expression. -/
def Expr.IsSettled (e : Expr) : Prop :=
  e.ty?.isSome = true ∧ match e with
    | .call _ _ _ args (.intrinsic op) => op.signature.least ≤ args.length
    | .call _ _ _ args (.constructor _) => 1 ≤ args.length
    | .call _ _ _ _ _ => False
    | .member _ .dotted base n _ =>
      ∀ layout, base.ty? = some (.bitfield layout) → ∃ range, layout.limits n = .ok range
    | _ => True

/-- What the passes behind the expansion need of a single node. -/
def Node.IsSettled : Node → Prop
  | .expr e => e.IsSettled
  | .stmt (.assign a) => ∃ t, a.value.ty? = some t ∧ t.isProper = true
  | .stmt (.ret _ _) | .stmt (.funcDef _ _ _ _ _) | .stmt (.require _ _) => False
  | .stmt _ => True

/-- An expression with nothing left to expand. -/
def Expr.Settled (e : Expr) : Prop := ∀ x ∈ e.nodes, x.IsSettled

/-- Nodes with nothing left to expand. -/
def SettledNodes (nodes : List Node) : Prop := ∀ x ∈ nodes, x.IsSettled

/-- Nodes one behind the other. -/
theorem settled_append {xs ys : List Node} : SettledNodes (xs ++ ys) ↔ SettledNodes xs ∧ SettledNodes ys :=
  List.forall_mem_append

/-- A node and those behind it. -/
theorem settled_cons {x : Node} {xs : List Node} : SettledNodes (x :: xs) ↔ x.IsSettled ∧ SettledNodes xs :=
  List.forall_mem_cons

/-- No nodes at all. -/
theorem settled_nil : SettledNodes [] := fun _ hx => nomatch hx

/-- The nodes of a settled expression. -/
theorem settled_exprNodes {e : Expr} : SettledNodes (exprNodes e) ↔ e.Settled := by
  simp only [SettledNodes, exprNodes, List.forall_mem_map, Node.IsSettled, Expr.Settled]

/-- A renaming keeps an expression settled. -/
private theorem Expr.IsSettled.rename {e : Expr} (r : Renaming) (h : e.IsSettled) :
    (e.rename r).IsSettled := by
  obtain ⟨ht, hm⟩ := h
  refine ⟨by rwa [Expr.ty?_rename], ?_⟩
  cases e with
  | call i n ns args t =>
    cases t <;> simp only [Expr.rename, renameList_eq_map, List.length_map] at hm ⊢ <;> exact hm
  | member i a b n ns =>
    cases a <;> simp only [Expr.rename, Expr.ty?_rename] at hm ⊢
    exact hm
  | _ => trivial

/-- A renaming keeps a node settled. -/
private theorem Node.IsSettled.rename {x : Node} (r : Renaming) (h : x.IsSettled) :
    (x.rename r).IsSettled := by
  cases x with
  | expr e => exact Expr.IsSettled.rename r h
  | stmt s =>
    cases s with
    | assign a =>
      obtain ⟨i, v⟩ := a
      obtain ⟨t, ht, hp⟩ := h
      exact ⟨t, (v.ty?_rename r).trans ht, hp⟩
    | _ => exact h

/-- A renaming keeps nodes settled. -/
theorem SettledNodes.rename {xs : List Node} (r : Renaming) (h : SettledNodes xs) :
    SettledNodes (xs.map (·.rename r)) := by
  intro y hy
  obtain ⟨x, hx, rfl⟩ := List.mem_map.1 hy
  exact (h x hx).rename r

/-! ## Resolved expressions -/

/-- An operation that accepts arguments is written from them. -/
private theorem Intrinsic.least_le_of_check {op : Intrinsic} {types : List Ty} {t : Ty}
    (h : op.check types = .ok t) : op.signature.least ≤ types.length := by
  simp only [Intrinsic.check] at h
  split at h
  case h_2 => cases h
  case h_1 hr =>
    generalize op.signature = s at hr ⊢
    unfold Intrinsic.resultOf at hr
    split at hr
    case h_2 => exact Nat.zero_le _
    all_goals first | exact Nat.le_refl _ | cases hr

/-- Resolved arguments have as many types as there are. -/
theorem ResolvedArgs.length {D : Dialect} {σ : Scope Entry} {lo hi : Nat} {types : List Ty}
    {es : List Expr} (h : ResolvedArgs D σ lo hi types es) : types.length = es.length := by
  induction es generalizing lo types with
  | nil => rw [h.1]; rfl
  | cons e es ih =>
    obtain ⟨_, _, ts, rfl, _, _, _, hes⟩ := h
    rw [List.length_cons, List.length_cons, ih hes]

/-- The type of a resolved expression is known. -/
theorem Expr.Resolved.isSome_ty? {D : Dialect} {σ : Scope Entry} {lo hi : Nat} {e : Expr}
    (h : e.Resolved D σ lo hi) : e.ty?.isSome = true := by
  cases e with
  | const i v => rw [Expr.ty?, Expr.info, h.1]; rfl
  | var i n b => obtain ⟨_, _, _, _, _, h⟩ := h; rw [Expr.ty?, Expr.info, h]; rfl
  | binary i op l r => obtain ⟨_, _, _, _, _, _, _, _, _, h⟩ := h; rw [Expr.ty?, Expr.info, h]; rfl
  | unary i op x => obtain ⟨_, _, _, _, _, h⟩ := h; rw [Expr.ty?, Expr.info, h]; rfl
  | call i n ns args t => obtain ⟨_, _, _, _, _, h⟩ := h; rw [Expr.ty?, Expr.info, h]; rfl
  | member i a b n ns => obtain ⟨_, _, _, _, _, h⟩ := h; rw [Expr.ty?, Expr.info, h]; rfl
  | query i k op u x c => obtain ⟨_, _, _, _, _, h⟩ := h; rw [Expr.ty?, Expr.info, h]; rfl

/-- What expanding an expression gives: settled statements in front, and an expression of the same
type that is settled too, unless it was a call that produces nothing. -/
private def Expr.Expands (e : Expr) : Prop :=
  ∀ c, ∃ p e' c', e.expand c = .ok ((p, e'), c') ∧ SettledNodes (stmtsNodes p) ∧ e'.ty? = e.ty?
    ∧ ((e.isScriptCall = true → e.ty? ≠ some .void) → e'.Settled)

/-- Statements that end as those they come from: with a return of the same type, or settled. -/
def EndsAs (ss ss' : List Stmt) : Prop :=
  match ss.getLast? with
  | some (.ret sp v) => ∃ front v', ss' = front ++ [.ret sp v'] ∧ SettledNodes (stmtsNodes front)
      ∧ v'.Settled ∧ v'.ty? = v.ty?
  | _ => SettledNodes (stmtsNodes ss')

/-- An expression of a proper type leaves a settled one. -/
theorem ne_void_of_proper {e : Expr} {t : Ty} (ht : e.ty? = some t) (hp : t.isProper = true) :
    e.isScriptCall = true → e.ty? ≠ some .void := by
  intro _ hv
  rw [ht] at hv
  cases hv
  exact nomatch hp

/-- Every value has something to begin with. -/
private theorem zeroOf_ok {t : Ty} (h : t.isValue = true) (span : Span) :
    ∃ e, zeroOf t span = .ok e ∧ e.ty? = some t ∧ e.Settled := by
  cases t with
  | int => exact ⟨_, rfl, rfl, List.forall_mem_cons.2 ⟨⟨rfl, trivial⟩, fun _ h => nomatch h⟩⟩
  | float => exact ⟨_, rfl, rfl, List.forall_mem_cons.2 ⟨⟨rfl, trivial⟩, fun _ h => nomatch h⟩⟩
  | string => exact ⟨_, rfl, rfl, List.forall_mem_cons.2 ⟨⟨rfl, trivial⟩, fun _ h => nomatch h⟩⟩
  | bitfield b => exact ⟨_, rfl, rfl, List.forall_mem_cons.2 ⟨⟨rfl, trivial⟩, fun _ h => nomatch h⟩⟩
  | object =>
    exact ⟨_, rfl, rfl, List.forall_mem_cons.2 ⟨⟨rfl, Nat.le_refl 1⟩,
      List.forall_mem_cons.2 ⟨⟨rfl, trivial⟩, fun _ h => nomatch h⟩⟩⟩
  | _ => exact nomatch h

/-- The statements that stand for a call whose body is `overrides`, `front` and a return. -/
def placed (call : Expr) (number : Nat) (zero : Expr) (body : Block) (front : List Stmt) (sp : Span)
    (value : Expr) : List Stmt :=
  [.assign (.make (tempName number) zero true call.span),
    .block (.mk body.overrides (front ++ [.assign (.make (tempName number) value false sp)]) body.span)]

/-- A body that ends with a return assigns its value to a new temporary. -/
private theorem placeBody_ret {call : Expr} {body : Block} {front : List Stmt} {sp : Span} {v zero : Expr}
    {t : Ty} {c : Expansion} (hl : body.stmts = front ++ [.ret sp v]) (ht : call.ty? = some t)
    (hz : zeroOf t call.span = .ok zero) :
    placeBody call body c = .ok ((placed call c.temps zero body front sp v,
      .var { span := call.span, ty := some t } (tempName c.temps) none),
        { c with temps := c.temps + 1, made := tempName c.temps :: c.made }) := by
  have hlast : body.stmts.getLast? = some (.ret sp v) := by
    rw [hl, List.getLast?_concat]
  have hfront : body.stmts.dropLast = front := by
    rw [hl, List.dropLast_concat]
  simp only [placeBody, hlast, hfront, Expr.knownTy, ht, Expanding.bind_ok, Expanding.lift_ok]
  exact ⟨t, c, ⟨t, rfl, rfl⟩, zero, c, ⟨zero, hz, rfl⟩, tempName c.temps, _, rfl, rfl⟩

/-- A body without a return leaves the call as it is. -/
theorem placeBody_open {call : Expr} {body : Block} {c : Expansion}
    (hl : ∀ sp v, body.stmts.getLast? ≠ some (.ret sp v)) :
    placeBody call body c = .ok (([.block body], call), c) := by
  have heq : placeBody call body = pure ([.block body], call) := by
    unfold placeBody
    split
    case h_1 sp v hlast => exact absurd hlast (hl sp v)
    case h_2 => rfl
  rw [heq]
  rfl

/-- A body that was put in place and ends with a return assigns its value to a new temporary, of the type of
the call. -/
theorem placeBody_returned {call e : Expr} {body : Block} {q : List Stmt} {c c' : Expansion} {sp : Span} {v : Expr}
    (hlast : body.stmts.getLast? = some (.ret sp v)) (h : placeBody call body c = .ok ((q, e), c')) :
    ∃ front t zero, body.stmts = front ++ [.ret sp v] ∧ call.ty? = some t ∧ zeroOf t call.span = .ok zero
      ∧ q = placed call c.temps zero body front sp v
      ∧ e = .var { span := call.span, ty := some t } (tempName c.temps) none
      ∧ c' = { c with temps := c.temps + 1, made := tempName c.temps :: c.made } := by
  obtain ⟨front, hfront⟩ := List.getLast?_eq_some_iff.1 hlast
  simp only [placeBody, hlast] at h
  -- The type of the call is known, and it has a first value.
  obtain ⟨t, c₁, ht, h⟩ := Expanding.bind_ok.1 h
  obtain ⟨_, hty, hc₁⟩ := Expanding.lift_ok.1 ht
  cases hc₁
  obtain ⟨zero, c₂, hlift, h⟩ := Expanding.bind_ok.1 h
  obtain ⟨_, hz, hc₂⟩ := Expanding.lift_ok.1 hlift
  cases hc₂
  cases h
  have hcall : call.ty? = some t := by
    simp only [Expr.knownTy] at hty
    split at hty
    case h_1 heq =>
      cases hty
      exact heq
    case h_2 => cases hty
  refine ⟨front, t, zero, hfront, hcall, hz, ?_, rfl, rfl⟩
  rw [hfront, List.dropLast_concat]
  rfl

/-- The body of a call is put in one of two ways. -/
theorem placeBody_cases {call e : Expr} {body : Block} {q : List Stmt} {c c' : Expansion}
    (h : placeBody call body c = .ok ((q, e), c')) :
    (∃ front sp v t zero, body.stmts = front ++ [.ret sp v] ∧ zeroOf t call.span = .ok zero
        ∧ q = placed call c.temps zero body front sp v
        ∧ e = .var { span := call.span, ty := some t } (tempName c.temps) none
        ∧ c' = { c with temps := c.temps + 1, made := tempName c.temps :: c.made })
      ∨ q = [.block body] ∧ e = call ∧ c' = c := by
  by_cases hret : ∃ sp v, body.stmts.getLast? = some (.ret sp v)
  · obtain ⟨sp, v, hlast⟩ := hret
    obtain ⟨front, t, zero, hfront, _, hrest⟩ := placeBody_returned hlast h
    exact .inl ⟨front, sp, v, t, zero, hfront, hrest⟩
  · rw [placeBody_open fun sp v hlast => hret ⟨sp, v, hlast⟩] at h
    cases h
    exact .inr ⟨rfl, rfl, rfl⟩

/-- The operands of a binary operation have proper types. -/
theorem BinaryOp.operands_proper {op : BinaryOp} {l r t : Ty} (h : op.resultTy l r = .ok t) :
    l.isProper = true ∧ r.isProper = true := by
  -- A type that stands in one of the families is proper.
  have hwithin : ∀ {t : Ty} {fs : List Family}, t.within fs = true → t.isProper = true := by
    intro t fs ht
    cases t <;> first | rfl | cases ht
  simp only [BinaryOp.resultTy] at h
  split at h
  -- Comparisons admit two numbers, or two values of one type.
  · split at h
    case isTrue hc =>
      simp only [comparable, Bool.or_eq_true, Bool.and_eq_true, beq_iff_eq] at hc
      rcases hc with ⟨hl, hr⟩ | ⟨rfl, hv⟩
      · exact ⟨Ty.isProper_of_isNumeric hl, Ty.isProper_of_isNumeric hr⟩
      · exact ⟨Ty.isProper_of_isValue hv, Ty.isProper_of_isValue hv⟩
    case isFalse => cases h
  · -- All other operators look at the families of their operands.
    have hfamilies : ∀ {fs : List Family} {x : Ty} {e : SemanticCause},
        (if l.within fs && r.within fs then Except.ok x else .error e) = .ok t →
          l.isProper = true ∧ r.isProper = true := by
      intro fs x e hif
      split at hif
      case isTrue hw =>
        obtain ⟨hl, hr⟩ := Bool.and_eq_true_iff.1 hw
        exact ⟨hwithin hl, hwithin hr⟩
      case isFalse => cases hif
    split at h
    · exact hfamilies h
    · split at h <;> exact hfamilies h

/-- The operand of a unary operation has a proper type. -/
theorem UnaryOp.operand_proper {op : UnaryOp} {x t : Ty} (h : op.resultTy x = .ok t) :
    x.isProper = true := by
  cases op <;> cases x <;> first | rfl | exact nomatch h

/-- The base of a member has a proper type, and a member of a bitfield has a range. -/
theorem memberTy_base {a : Access} {base t : Ty} {n : Text} {ns s : Span}
    (h : memberTy a base n ns s = .ok t) :
    base.isProper = true ∧ ∀ layout, base = .bitfield layout → ∃ range, layout.limits n = .ok range := by
  -- A bitfield has a range for its member; an object is proper and has no layout.
  simp only [memberTy] at h
  split at h
  case h_1 layout =>
    split at h
    case h_1 range hr =>
      refine ⟨rfl, fun layout' heq => ?_⟩
      cases heq
      exact ⟨range, hr⟩
    case h_2 => cases h
  case h_2 => exact ⟨rfl, fun _ heq => by cases heq⟩
  case h_3 => cases h

/-- Lists with the same images have the same length. -/
private theorem length_eq_of_map_eq {α β : Type} {f : α → β} {xs ys : List α}
    (h : xs.map f = ys.map f) : xs.length = ys.length := by
  have := congrArg List.length h
  rwa [List.length_map, List.length_map] at this

/-- The nodes of settled expressions. -/
theorem settled_nodesOfList {es : List Expr} (h : ∀ e ∈ es, e.Settled) :
    ∀ x ∈ nodesOfList es, x.IsSettled := by
  induction es with
  | nil => exact fun _ hx => nomatch hx
  | cons e es ih =>
    obtain ⟨he, hes⟩ := List.forall_mem_cons.1 h
    exact List.forall_mem_append.2 ⟨he, ih hes⟩

/-- Bound arguments are settled if the arguments are. -/
private theorem settled_bindExpanded {binds : List Assign} {args : List Expr}
    (h : ∀ e ∈ args, e.Settled ∧ ∃ t, e.ty? = some t ∧ t.isProper = true) :
    SettledNodes ((bindExpanded binds args).flatMap Assign.nodes) := by
  induction binds generalizing args with
  | nil => exact settled_nil
  | cons b binds ih =>
    cases args with
    | nil => exact settled_nil
    | cons e es =>
      obtain ⟨⟨he, t, ht, hp⟩, hes⟩ := List.forall_mem_cons.1 h
      exact settled_append.2 ⟨settled_cons.2 ⟨⟨t, ht, hp⟩, settled_exprNodes.2 he⟩, ih hes⟩

/-- Renaming a body's contested names keeps it settled and its end. -/
private theorem freshened_ends {b : Block} {ss : List Stmt} (c : Expansion)
    (ho : SettledNodes (b.overrides.flatMap Assign.nodes)) (he : EndsAs ss b.stmts) :
    ∃ b' c', freshened b c = .ok (b', c') ∧ SettledNodes (b'.overrides.flatMap Assign.nodes)
      ∧ EndsAs ss b'.stmts := by
  refine ⟨(b.freshen c.renamed).1, _, rfl, ?_⟩
  -- A body without contested declarations stays as it is; any other is renamed as a whole.
  simp only [Block.freshen]
  split
  · exact ⟨ho, he⟩
  · generalize freshNames c.renamed (contested b.nodes) = r
    obtain ⟨os, ts, sp⟩ := b
    simp only [Block.rename, Block.overrides, Block.stmts] at ho he ⊢
    refine ⟨by rw [flatMap_nodes_rename]; exact ho.rename r, ?_⟩
    -- Renaming keeps the shape of the end: the return stays the last statement, and nothing else is one.
    unfold EndsAs at he ⊢
    split at he
    case h_1 =>
      obtain ⟨front, v', rfl, hf, hv, hty⟩ := he
      refine ⟨renameStmts r front, v'.rename r, ?_, ?_, ?_, (v'.ty?_rename r).trans hty⟩
      · rw [renameStmts_eq_map, renameStmts_eq_map, List.map_append]
        rfl
      · rw [stmtsNodes_rename]
        exact hf.rename r
      · rw [← settled_exprNodes, exprNodes_rename]
        exact (settled_exprNodes.2 hv).rename r
    case h_2 =>
      rw [stmtsNodes_rename]
      exact he.rename r

/-- The statements that stand for a call are settled, and so is what takes its place if the call
produces a value. -/
private theorem placeBody_settled (call : Expr) {source body : Block} (c : Expansion)
    (hcall : call.ty? = some source.returnTy)
    (hsource : (source.returned? = none ∧ source.returnTy = .void)
      ∨ ∃ v t, source.returned? = some v ∧ v.ty? = some t ∧ t.isValue = true ∧ source.returnTy = t)
    (ho : SettledNodes (body.overrides.flatMap Assign.nodes)) (he : EndsAs source.stmts body.stmts) :
    ∃ q e c', placeBody call body c = .ok ((q, e), c') ∧ SettledNodes (stmtsNodes q)
      ∧ e.ty? = call.ty? ∧ (call.ty? ≠ some .void → e.Settled) := by
  rcases hsource with ⟨hnone, hvoid⟩ | ⟨v, t, hsome, hv, hval, hret⟩
  · -- Nothing is returned, so the body is settled as it is.
    have hsettled : SettledNodes (stmtsNodes body.stmts) := by
      unfold EndsAs at he
      split at he
      case h_1 sp v hlast =>
        simp only [Block.returned?, hlast] at hnone
        cases hnone
      case h_2 => exact he
    have hopen : ∀ sp v, body.stmts.getLast? ≠ some (.ret sp v) := by
      intro sp v hlast
      have hmem := List.mem_of_getLast? hlast
      exact hsettled (.stmt (.ret sp v)) (nodes_subset_stmtsNodes hmem List.mem_cons_self)
    refine ⟨_, _, c, placeBody_open hopen, ?_, rfl, fun h => absurd (hcall.trans (by rw [hvoid])) h⟩
    rw [stmtsNodes_singleton]
    obtain ⟨os, ss, sp⟩ := body
    exact settled_cons.2 ⟨trivial, settled_append.2 ⟨ho, hsettled⟩⟩
  -- The source returns a value at its end, and so does the expanded body.
  · have hlast : ∃ sp, source.stmts.getLast? = some (.ret sp v) := by
      unfold Block.returned? at hsome
      split at hsome
      case h_1 sp v' hlast =>
        cases hsome
        exact ⟨sp, hlast⟩
      case h_2 => cases hsome
    obtain ⟨sp, hlast⟩ := hlast
    simp only [EndsAs, hlast] at he
    obtain ⟨front, v', hbody, hfront, hv', hty⟩ := he
    -- The temporary has the type of the returned value, which has a first value.
    rw [hret] at hcall
    obtain ⟨zero, hz, hzt, hzs⟩ := zeroOf_ok hval call.span
    have hp := Ty.isProper_of_isValue hval
    refine ⟨_, _, _, placeBody_ret hbody hcall hz, ?_, hcall.symm, fun _ => ?_⟩
    -- First the temporary is declared, then the body assigns to it where it returned.
    · simp only [placed, stmtsNodes, List.append_nil]
      refine settled_append.2 ⟨settled_cons.2 ⟨⟨t, hzt, hp⟩, settled_exprNodes.2 hzs⟩, ?_⟩
      refine settled_cons.2 ⟨trivial, settled_append.2 ⟨ho, ?_⟩⟩
      rw [stmtsNodes_append, stmtsNodes_singleton]
      exact settled_append.2 ⟨hfront, settled_cons.2 ⟨⟨t, hty.trans hv, hp⟩, settled_exprNodes.2 hv'⟩⟩
    · exact List.forall_mem_cons.2 ⟨⟨rfl, trivial⟩, fun _ hx => by cases hx⟩

/-- Arguments of resolved calls are settled values. -/
private theorem forall_settled_proper {D : Dialect} {σ : Scope Entry} {lo hi : Nat} {types : List Ty}
    {es es' : List Expr} (h : ResolvedArgs D σ lo hi types es)
    (hty : es'.map Expr.ty? = es.map Expr.ty?) (hs : ∀ e ∈ es', e.Settled) :
    ∀ e ∈ es', e.Settled ∧ ∃ t, e.ty? = some t ∧ t.isProper = true := by
  intro e he
  have hmem : e.ty? ∈ es.map Expr.ty? := hty ▸ List.mem_map_of_mem he
  obtain ⟨e₀, he₀, heq⟩ := List.mem_map.1 hmem
  obtain ⟨t, ht, hp⟩ := h.proper e₀ he₀
  exact ⟨hs e he, t, heq ▸ ht, hp⟩

/-- Where nothing may return, the last statement is no return. -/
private theorem ResolvedStmts.not_returns {D : Dialect} {σ : Scope Entry} {lo hi : Nat}
    {ss : List Stmt} {sp : Span} {v : Expr} (h : ResolvedStmts D σ lo hi false ss) :
    ss.getLast? ≠ some (.ret sp v) := by
  induction ss generalizing σ lo with
  | nil => exact fun hl => nomatch hl
  | cons s ss ih =>
    obtain ⟨mid, hs, hss⟩ := h
    cases ss with
    | nil =>
      -- The last statement would be a return, which needs the permission that is not given.
      intro hl
      cases hl
      exact nomatch hs.1
    | cons s' ss =>
      rw [List.getLast?_cons_cons]
      exact ih hss

/-- A conditional with settled parts. -/
private theorem settled_cond {s : Span} {x : Expr} {t : Block} {f : Option Block} (hx : x.Settled)
    (ht : SettledNodes t.nodes) (hf : ∀ b, f = some b → SettledNodes b.nodes) :
    SettledNodes (Stmt.cond s x t f).nodes := by
  cases f with
  | none => exact settled_cons.2 ⟨trivial, settled_append.2 ⟨settled_exprNodes.2 hx, ht⟩⟩
  | some f =>
    exact settled_cons.2 ⟨trivial, settled_append.2 ⟨settled_append.2 ⟨settled_exprNodes.2 hx, ht⟩,
      hf f rfl⟩⟩

/-- A guarded body with settled parts. -/
private theorem settled_guarded {s : Span} {x : Expr} {b : Block} (hx : x.Settled)
    (hb : SettledNodes b.nodes) : SettledNodes (guarded s x b).nodes := by
  refine settled_cond hx hb fun f hf => ?_
  cases hf
  exact settled_cons.2 ⟨trivial, settled_nil⟩

/-- The body of a loop is settled with what has moved there. -/
private theorem settled_foldedBody {s span : Span} {c c' : Option Expr} {q last : List Stmt} {b : Block}
    (hq : SettledNodes (stmtsNodes q)) (hc : ∀ x ∈ nodesOfOption c', x.IsSettled)
    (hb : SettledNodes b.nodes) (hlast : SettledNodes (stmtsNodes last)) :
    SettledNodes (foldedBody s c q c' span b last).nodes := by
  -- Either the guard and the old body stand in a body of their own, or the body has the step behind it.
  unfold foldedBody
  split
  · change SettledNodes (stmtsNodes _)
    rw [stmtsNodes_append, stmtsNodes_append, stmtsNodes_singleton]
    exact settled_append.2 ⟨settled_append.2 ⟨hq, settled_guarded hc hb⟩, hlast⟩
  · obtain ⟨os, ss, sp⟩ := b
    obtain ⟨ho, hs⟩ := settled_append.1 hb
    refine settled_append.2 ⟨ho, ?_⟩
    rw [Block.stmts, stmtsNodes_append]
    exact settled_append.2 ⟨hs, hlast⟩

mutual

/-- A resolved expression expands. -/
theorem Expr.expand_settled {D : Dialect} {σ : Scope Entry} {lo hi : Nat} : (e : Expr) →
    e.Resolved D σ lo hi → e.Expands
  | .const i v, h => fun c => ⟨[], .const i v, c, rfl, settled_nil, rfl, fun _ =>
      List.forall_mem_cons.2 ⟨⟨h.isSome_ty?, trivial⟩, fun _ hx => nomatch hx⟩⟩
  | .var i n b, h => fun c => ⟨[], .var i n b, c, rfl, settled_nil, rfl, fun _ =>
      List.forall_mem_cons.2 ⟨⟨h.isSome_ty?, trivial⟩, fun _ hx => nomatch hx⟩⟩
  | .binary i op l r, h => fun c => by
    have hty := h.isSome_ty?
    obtain ⟨mid, lt, rt, t, hl, hlt, hr, hrt, ho, _⟩ := h
    -- The operands expand one behind the other, and neither of them is a call without a value.
    obtain ⟨p, l', c₁, hl, hp, -, hls⟩ := Expr.expand_settled l hl c
    obtain ⟨q, r', c₂, hr, hq, -, hrs⟩ := Expr.expand_settled r hr c₁
    obtain ⟨hlv, hrv⟩ := BinaryOp.operands_proper ho
    refine ⟨p ++ q, .binary i op l' r', c₂, ?_, ?_, rfl, fun _ => ?_⟩
    · exact Expr.expand_binary_ok.2 ⟨_, _, _, hl, _, _, _, hr, rfl⟩
    · rw [stmtsNodes_append]
      exact settled_append.2 ⟨hp, hq⟩
    · simp only [Expr.Settled, Expr.nodes, List.forall_mem_cons, List.forall_mem_append]
      exact ⟨⟨hty, trivial⟩, hls (ne_void_of_proper hlt hlv), hrs (ne_void_of_proper hrt hrv)⟩
  | .unary i op x, h => fun c => by
    have hty := h.isSome_ty?
    obtain ⟨xt, t, hx, hxt, ho, _⟩ := h
    obtain ⟨p, x', c₁, hx, hp, -, hxs⟩ := Expr.expand_settled x hx c
    refine ⟨p, .unary i op x', c₁, ?_, hp, rfl, fun _ => ?_⟩
    · exact Expr.expand_unary_ok.2 ⟨_, _, _, hx, rfl⟩
    · simp only [Expr.Settled, Expr.nodes, List.forall_mem_cons]
      exact ⟨⟨hty, trivial⟩, hxs (ne_void_of_proper hxt (UnaryOp.operand_proper ho))⟩
  | .member i a b n ns, h => fun c => by
    have hty := h.isSome_ty?
    obtain ⟨bt, t, hb, hbt, hm, _⟩ := h
    obtain ⟨p, b', c₁, hb, hp, hb', hbs⟩ := Expr.expand_settled b hb c
    -- The type of the base stays, and with it the range of a bitfield's member.
    obtain ⟨hbv, hlimits⟩ := memberTy_base hm
    refine ⟨p, .member i a b' n ns, c₁, ?_, hp, rfl, fun _ => ?_⟩
    · exact Expr.expand_member_ok.2 ⟨_, _, _, hb, rfl⟩
    · simp only [Expr.Settled, Expr.nodes, List.forall_mem_cons]
      refine ⟨⟨hty, ?_⟩, hbs (ne_void_of_proper hbt hbv)⟩
      cases a with
      | dotted =>
        intro layout hlayout
        rw [hb', hbt] at hlayout
        exact hlimits layout (Option.some.inj hlayout)
      | _ => trivial
  | .query i k op u x q, h => fun c => by
    have hty := h.isSome_ty?
    obtain ⟨m₁, m₂, hu, hx, hq, _⟩ := h
    obtain ⟨pu, u', c₁, hu, hpu, hus⟩ := expandOption_settled u hu c
    obtain ⟨px, x', c₂, hx, hpx, hxs⟩ := expandOption_settled x hx c₁
    obtain ⟨pq, q', c₃, hq, hpq, hqs⟩ := expandOption_settled q hq c₂
    refine ⟨pu ++ px ++ pq, .query i k op u' x' q', c₃, ?_, ?_, rfl, fun _ => ?_⟩
    · exact Expr.expand_query_ok.2 ⟨_, _, _, hu, _, _, _, hx, _, _, _, hq, rfl⟩
    · rw [stmtsNodes_append, stmtsNodes_append]
      exact settled_append.2 ⟨settled_append.2 ⟨hpu, hpx⟩, hpq⟩
    · simp only [Expr.Settled, Expr.nodes, List.forall_mem_cons, List.forall_mem_append]
      exact ⟨⟨hty, trivial⟩, ⟨hus, hxs⟩, hqs⟩
  | .call i n ns args (.function binds body), h => fun c => by
    -- In the order of the expansion: arguments, body, fresh names, and the place of the call.
    obtain ⟨mid, types, t, hargs, ⟨params, template, captured, _, _, _, hbody, rfl⟩, hit⟩ := h
    obtain ⟨p, args', c₁, ha, hp, hat, has⟩ := expandList_settled args hargs c
    obtain ⟨ss, c₂, hb, hends⟩ := Block.expandOver_settled body hbody (bindExpanded binds args')
      { c₁ with expanded := n :: c₁.expanded }
    obtain ⟨body', c₃, hf, ho, hends⟩ := freshened_ends c₂
      (b := .mk (bindExpanded binds args') ss body.span)
      (settled_bindExpanded (forall_settled_proper hargs hat has)) hends
    obtain ⟨q, e, c₄, hq, hqs, hety, hes⟩ := placeBody_settled
      (.call i n ns args' (.function binds body')) c₃ hit hbody.returnTy ho hends
    refine ⟨p ++ q, e, c₄, ?_, ?_, hety, fun h => hes (h rfl)⟩
    · exact Expr.expand_call_ok.2 ⟨_, _, _, ha, _, _, hb, _, _, hf, _, _, _, hq, rfl⟩
    · rw [stmtsNodes_append]
      exact settled_append.2 ⟨hp, hqs⟩
  -- A typed program has no unresolved call.
  | .call i n ns args .unresolved, h => by
    obtain ⟨_, _, _, _, h, _⟩ := h
    exact h.elim
  | .call i n ns args (.intrinsic op), h => fun c => by
    have hty := h.isSome_ty?
    obtain ⟨mid, types, t, hargs, ⟨_, hcheck⟩, _⟩ := h
    obtain ⟨p, args', c₁, ha, hp, hat, has⟩ := expandList_settled args hargs c
    refine ⟨p, .call i n ns args' (.intrinsic op), c₁, ?_, hp, rfl, fun _ => ?_⟩
    · exact (Expr.expand_keptCall_ok rfl).2 ⟨_, _, _, ha, rfl⟩
    · simp only [Expr.Settled, Expr.nodes, List.forall_mem_cons]
      refine ⟨⟨hty, ?_⟩, settled_nodesOfList has⟩
      -- The arguments are as many as before, so an intrinsic still has the least number of them.
      have hlen := Intrinsic.least_le_of_check hcheck
      rwa [hargs.length, ← length_eq_of_map_eq hat] at hlen
  | .call i n ns args (.constructor layout), h => fun c => by
    have hty := h.isSome_ty?
    obtain ⟨mid, types, t, hargs, ⟨_, htypes, _⟩, _⟩ := h
    obtain ⟨p, args', c₁, ha, hp, hat, has⟩ := expandList_settled args hargs c
    refine ⟨p, .call i n ns args' (.constructor layout), c₁, ?_, hp, rfl, fun _ => ?_⟩
    · exact (Expr.expand_keptCall_ok rfl).2 ⟨_, _, _, ha, rfl⟩
    · simp only [Expr.Settled, Expr.nodes, List.forall_mem_cons]
      refine ⟨⟨hty, ?_⟩, settled_nodesOfList has⟩
      -- A constructor has one argument for each of its members.
      have hlen := hargs.length
      rw [htypes, ← length_eq_of_map_eq hat] at hlen
      exact Nat.le_of_eq hlen

/-- Resolved arguments expand. -/
theorem expandList_settled {D : Dialect} {σ : Scope Entry} {lo hi : Nat} {types : List Ty} :
    (es : List Expr) → ResolvedArgs D σ lo hi types es → ∀ c, ∃ p es' c',
      expandList es c = .ok ((p, es'), c') ∧ SettledNodes (stmtsNodes p)
        ∧ es'.map Expr.ty? = es.map Expr.ty? ∧ ∀ e ∈ es', e.Settled
  | [], _ => fun c => by
    exact ⟨[], [], c, rfl, settled_nil, rfl, fun _ hx => nomatch hx⟩
  | e :: es, h => fun c => by
    obtain ⟨mid, t, ts, _, he, ht, hp, hes⟩ := h
    obtain ⟨p, e', c₁, he, hps, hety, hes'⟩ := Expr.expand_settled e he c
    obtain ⟨q, es', c₂, hq, hqs, hesty, hess⟩ := expandList_settled es hes c₁
    refine ⟨p ++ q, e' :: es', c₂, ?_, ?_, by rw [List.map_cons, List.map_cons, hety, hesty], ?_⟩
    · exact expandList_cons_ok.2 ⟨_, _, _, he, _, _, _, hq, rfl⟩
    · rw [stmtsNodes_append]
      exact settled_append.2 ⟨hps, hqs⟩
    · exact List.forall_mem_cons.2 ⟨hes' (ne_void_of_proper ht hp), hess⟩

/-- A resolved expression that may be absent expands. -/
theorem expandOption_settled {D : Dialect} {σ : Scope Entry} {lo hi : Nat} : (e : Option Expr) →
    ResolvedOption D σ lo hi e → ∀ c, ∃ p e' c',
      expandOption e c = .ok ((p, e'), c') ∧ SettledNodes (stmtsNodes p)
        ∧ ∀ x ∈ nodesOfOption e', x.IsSettled
  | none, _ => fun c => ⟨[], none, c, rfl, settled_nil, fun _ hx => nomatch hx⟩
  | some e, ⟨he, t, ht, hp⟩ => fun c => by
    obtain ⟨p, e', c₁, he, hps, _, hes⟩ := Expr.expand_settled e he c
    refine ⟨p, some e', c₁, ?_, hps, hes (ne_void_of_proper ht hp)⟩
    exact expandOption_some_ok.2 ⟨_, _, _, he, rfl⟩

/-- A resolved assignment expands. -/
theorem Assign.expand_settled {D : Dialect} {σ : Scope Entry} {lo hi : Nat} : (a : Assign) →
    a.Resolved D σ lo hi → ∀ c, ∃ p a' c',
      a.expand c = .ok ((p, a'), c') ∧ SettledNodes (stmtsNodes p) ∧ SettledNodes a'.nodes
  | .mk i v, h => fun c => by
    obtain ⟨mid, t, _, _, hv, ht, hval, _⟩ := h
    have hp := Ty.isProper_of_isValue hval
    obtain ⟨p, v', c₁, hv, hps, hvt, hvs⟩ := Expr.expand_settled v hv c
    refine ⟨p, .mk i v', c₁, ?_, hps, settled_cons.2 ⟨⟨t, hvt.trans ht, hp⟩,
      settled_exprNodes.2 (hvs (ne_void_of_proper ht hp))⟩⟩
    exact Assign.expand_ok.2 ⟨_, _, _, hv, rfl⟩

/-- A resolved clause expands. -/
private theorem expandClause_settled {D : Dialect} {σ : Scope Entry} {lo hi : Nat} : (a : Option Assign) →
    ResolvedClause D σ lo hi a → ∀ c, ∃ p a' c',
      expandClause a c = .ok ((p, a'), c') ∧ SettledNodes (stmtsNodes p) ∧ SettledNodes (clauseNodes a')
  | none, _ => fun c => ⟨[], none, c, rfl, settled_nil, fun _ hx => nomatch hx⟩
  | some a, h => fun c => by
    obtain ⟨p, a', c₁, ha, hps, has⟩ := Assign.expand_settled a h c
    refine ⟨p, some a', c₁, ?_, hps, has⟩
    exact expandClause_some_ok.2 ⟨_, _, _, ha, rfl⟩

/-- A resolved statement expands. -/
theorem Stmt.expand_settled {D : Dialect} {σ : Scope Entry} {lo hi : Nat} {last : Bool} : (s : Stmt) →
    s.Resolved D σ lo hi last → ∀ c, ∃ ss c', s.expand c = .ok (ss, c') ∧ EndsAs [s] ss
  | .block b, h => fun c => by
    obtain ⟨b', c₁, hb, hbs⟩ := Block.expandOver_block b h c
    refine ⟨[.block b'], c₁, ?_, ?_⟩
    · exact Stmt.expand_block_ok.2 ⟨_, _, hb, rfl⟩
    -- A block is no return, so everything in it has to be settled.
    · change SettledNodes (stmtsNodes [.block b'])
      rw [stmtsNodes_singleton]
      exact settled_cons.2 ⟨trivial, hbs⟩
  | .eval s e, h => fun c => by
    obtain ⟨p, e', c₁, he, hps, _, hes⟩ := Expr.expand_settled e h c
    -- A call of a script function that stands alone disappears; what it leaves in front is settled.
    cases hcall : e.isScriptCall with
    | true =>
      refine ⟨p, c₁, ?_, hps⟩
      exact Stmt.expand_eval_ok.2 ⟨_, _, _, he, by rw [hcall, if_pos rfl]⟩
    | false =>
      refine ⟨p ++ [.eval s e'], c₁, ?_, ?_⟩
      · exact Stmt.expand_eval_ok.2 ⟨_, _, _, he, by rw [hcall, if_neg Bool.false_ne_true]⟩
      · change SettledNodes (stmtsNodes (p ++ [.eval s e']))
        rw [stmtsNodes_append, stmtsNodes_singleton]
        refine settled_append.2 ⟨hps, settled_cons.2 ⟨trivial, settled_exprNodes.2 (hes fun h => ?_)⟩⟩
        -- What is no call of a script function produces a value or is one of the host.
        rw [hcall] at h
        exact nomatch h
  | .assign a, h => fun c => by
    obtain ⟨p, a', c₁, ha, hps, has⟩ := Assign.expand_settled a h c
    refine ⟨p ++ [.assign a'], c₁, ?_, ?_⟩
    · exact Stmt.expand_assign_ok.2 ⟨_, _, _, ha, rfl⟩
    · change SettledNodes (stmtsNodes (p ++ [.assign a']))
      rw [stmtsNodes_append, stmtsNodes_singleton]
      exact settled_append.2 ⟨hps, has⟩
  | .assignMember s t v, h => fun c => by
    obtain ⟨mid, layout, hm, ht, _, hv, hvt⟩ := h
    obtain ⟨p, t', c₁, ht, hps, _, hts⟩ := Expr.expand_settled t ht c
    obtain ⟨q, v', c₂, hv, hqs, _, hvs⟩ := Expr.expand_settled v hv c₁
    refine ⟨p ++ q ++ [.assignMember s t' v'], c₂, ?_, ?_⟩
    · exact Stmt.expand_assignMember_ok.2 ⟨_, _, _, ht, _, _, _, hv, rfl⟩
    · change SettledNodes (stmtsNodes (p ++ q ++ [.assignMember s t' v']))
      rw [stmtsNodes_append, stmtsNodes_append, stmtsNodes_singleton]
      refine settled_append.2 ⟨settled_append.2 ⟨hps, hqs⟩, settled_cons.2 ⟨trivial, settled_append.2
        -- The target is a member and no call, so it has a value.
        ⟨settled_exprNodes.2 (hts fun h => ?_), settled_exprNodes.2 (hvs (ne_void_of_proper hvt rfl))⟩⟩⟩
      obtain ⟨_, _, _, _, _, _, rfl⟩ := Expr.eq_of_isNamedMember hm
      exact nomatch h
  | .cond s x t f, h => fun c => by
    obtain ⟨m₁, m₂, xt, hx, hxt, hnum, ht, hf⟩ := h
    obtain ⟨p, x', c₁, hx, hps, _, hxs⟩ := Expr.expand_settled x hx c
    obtain ⟨t', c₂, ht, hts⟩ := Block.expandOver_block t ht c₁
    obtain ⟨f', c₃, hf, hfs⟩ := expandElse_settled f hf c₂
    -- The condition is a number, so it is no call without a value.
    have hxs := hxs (ne_void_of_proper hxt (Ty.isProper_of_isNumeric hnum))
    refine ⟨p ++ [.cond s x' t' f'], c₃, ?_, ?_⟩
    · exact Stmt.expand_cond_ok.2 ⟨_, _, _, hx, _, _, ht, _, _, hf, rfl⟩
    · change SettledNodes (stmtsNodes (p ++ [.cond s x' t' f']))
      rw [stmtsNodes_append, stmtsNodes_singleton]
      exact settled_append.2 ⟨hps, settled_cond hxs hts hfs⟩
  | .loop s x b, h => fun c => by
    obtain ⟨mid, xt, hx, hxt, hnum, hb⟩ := h
    obtain ⟨p, x', c₁, hx, hps, _, hxs⟩ := Expr.expand_settled x hx c
    obtain ⟨b', c₂, hb, hbs⟩ := Block.expandOver_block b hb c₁
    have hxs := hxs (ne_void_of_proper hxt (Ty.isProper_of_isNumeric hnum))
    -- The condition's calls and the guard become the head of the body.
    refine ⟨[.loop s (.literal (.int 1) x.span) (.mk [] (p ++ [guarded s x' b']) b.span)], c₂, ?_, ?_⟩
    · exact Stmt.expand_loop_ok.2 ⟨_, _, _, hx, _, _, hb, rfl⟩
    · change SettledNodes (stmtsNodes [.loop s (.literal (.int 1) x.span)
        (.mk [] (p ++ [guarded s x' b']) b.span)])
      rw [stmtsNodes_singleton]
      refine settled_cons.2 ⟨trivial, settled_append.2 ⟨settled_exprNodes.2
        (List.forall_mem_cons.2 ⟨⟨rfl, trivial⟩, fun _ hx => nomatch hx⟩), ?_⟩⟩
      change SettledNodes (stmtsNodes (p ++ [guarded s x' b']))
      rw [stmtsNodes_append, stmtsNodes_singleton]
      exact settled_append.2 ⟨hps, settled_guarded hxs hbs⟩
  | .forLoop s i x st b, h => fun c => by
    obtain ⟨m₁, m₂, m₃, hi, hx, hst, _, hb⟩ := h
    obtain ⟨p, i', c₁, hi, hps, his⟩ := expandClause_settled i hi c
    obtain ⟨q, x', c₂, hx, hqs, hxs⟩ := expandOption_settled x hx c₁
    obtain ⟨b', c₃, hb, hbs⟩ := Block.expandOver_block b hb c₂
    obtain ⟨r, st', c₄, hst, hrs, hsts⟩ := expandClause_settled st hst c₃
    -- What moves to the end of the body is settled, whether the step moves or not.
    have hstep : SettledNodes (stmtsNodes (movedStep st r st')) := by
      unfold movedStep
      split
      · rw [stmtsNodes_append]
        refine settled_append.2 ⟨hrs, ?_⟩
        cases st' with
        | none => exact settled_nil
        | some a =>
          simp only [Option.toList_some, List.map_cons, List.map_nil, stmtsNodes_singleton]
          exact hsts
      · exact settled_nil
    refine ⟨p ++ [.forLoop s i' (if testCalls x then none else x) (if stepCalls st then none else st)
      (foldedBody s x q x' b.span b' (movedStep st r st'))], c₄, ?_, ?_⟩
    · exact Stmt.expand_forLoop_ok.2 ⟨_, _, _, hi, _, _, _, hx, _, _, hb, _, _, _, hst, rfl⟩
    -- The parts of the loop, in the order in which they stand: first clause, condition, step, body.
    · change SettledNodes (stmtsNodes (p ++ [_]))
      rw [stmtsNodes_append, stmtsNodes_singleton]
      refine settled_append.2 ⟨hps, settled_cons.2 ⟨trivial, settled_append.2 ⟨settled_append.2
        ⟨settled_append.2 ⟨?_, his⟩, ?_⟩, settled_foldedBody hqs hxs hbs hstep⟩⟩⟩
      -- A condition that stays is the old one, as it has nothing to expand.
      · cases hcalls : testCalls x with
        | true => exact settled_nil
        | false =>
          rw [expandOption_of_not_testCalls hcalls] at hx
          cases hx
          exact List.forall_mem_map.2 hxs
      -- And so is a step that stays.
      · cases hcalls : stepCalls st with
        | true => exact settled_nil
        | false =>
          rw [expandClause_of_not_stepCalls hcalls] at hst
          cases hst
          exact hsts
  | .ret s v, h => fun c => by
    obtain ⟨_, hv, t, hvt, hval⟩ := h
    obtain ⟨p, v', c₁, hv, hps, hvty, hvs⟩ := Expr.expand_settled v hv c
    -- A return is what the end may be: its value is settled and keeps its type.
    refine ⟨p ++ [.ret s v'], c₁, ?_, p, v', rfl, hps,
      hvs (ne_void_of_proper hvt (Ty.isProper_of_isValue hval)), hvty⟩
    exact Stmt.expand_ret_ok.2 ⟨_, _, _, hv, rfl⟩
  | .leave s, _ => fun c => ⟨[.leave s], c, rfl, settled_cons.2 ⟨trivial, fun _ hx => nomatch hx⟩⟩
  | .code s t, _ => fun c => ⟨[.code s t], c, rfl, settled_cons.2 ⟨trivial, fun _ hx => nomatch hx⟩⟩
  | .bitfieldDef s d, _ => fun c =>
    ⟨[.bitfieldDef s d], c, rfl, settled_cons.2 ⟨trivial, fun _ hx => nomatch hx⟩⟩
  | .enumDef s d, _ => fun c =>
    ⟨[.enumDef s d], c, rfl, settled_cons.2 ⟨trivial, fun _ hx => nomatch hx⟩⟩
  | .funcDef _ _ _ _ _, _ => fun c => ⟨[], c, rfl, fun _ hx => nomatch hx⟩
  | .require _ _, h => h.elim

/-- Resolved statements expand. -/
private theorem expandStmts_settled {D : Dialect} {σ : Scope Entry} {lo hi : Nat} {last : Bool} :
    (ss : List Stmt) → ResolvedStmts D σ lo hi last ss → ∀ c, ∃ ss' c',
      expandStmts ss c = .ok (ss', c') ∧ EndsAs ss ss'
  | [], _ => fun c => ⟨[], c, rfl, fun _ hx => nomatch hx⟩
  | s :: ss, ⟨mid, hs, hss⟩ => fun c => by
    obtain ⟨s', c₁, hs', hends⟩ := Stmt.expand_settled s hs c
    obtain ⟨ss', c₂, hss', hendss⟩ := expandStmts_settled ss hss c₁
    refine ⟨s' ++ ss', c₂, ?_, ?_⟩
    · exact expandStmts_cons_ok.2 ⟨_, _, hs', _, _, hss', rfl⟩
    -- What ends as the last statement does is the last
    -- part; nothing stands behind it if it is the only one.
    · cases ss with
      | nil =>
        have hnil : ss' = [] := by
          cases hss'
          rfl
        rw [hnil, List.append_nil]
        exact hends
      | cons s₁ ss =>
        -- A statement with others behind it is no return.
        have hfront : SettledNodes (stmtsNodes s') := by
          cases s with
          | ret _ _ =>
            obtain ⟨hl, _⟩ := hs
            rw [List.isEmpty_cons, Bool.and_false] at hl
            exact nomatch hl
          | _ => exact hends
        -- The end of the rest is the end of all.
        unfold EndsAs at hendss ⊢
        rw [List.getLast?_cons_cons]
        split at hendss
        case h_1 hlast =>
          obtain ⟨front, v', rfl, hf, hv⟩ := hendss
          refine ⟨s' ++ front, v', (List.append_assoc _ _ _).symm, ?_, hv⟩
          rw [stmtsNodes_append]
          exact settled_append.2 ⟨hfront, hf⟩
        case h_2 =>
          rw [stmtsNodes_append]
          exact settled_append.2 ⟨hfront, hendss⟩

/-- A resolved block expands. -/
theorem Block.expandOver_settled {D : Dialect} {σ : Scope Entry} {lo hi : Nat} {last : Bool} :
    (b : Block) → b.Resolved D σ lo hi last → ∀ binds c, ∃ ss c',
      b.expandOver binds c = .ok (.mk binds ss b.span, c') ∧ EndsAs b.stmts ss
  | .mk os ss sp, ⟨ho, hss⟩ => fun binds c => by
    obtain ⟨ss', c₁, hss, hends⟩ := expandStmts_settled ss hss c
    subst ho
    refine ⟨ss', c₁, ?_, hends⟩
    exact Block.expandOver_ok.2 ⟨_, _, hss, by rw [List.append_nil]; rfl⟩

/-- A resolved block that cannot return expands to a settled one. -/
theorem Block.expandOver_block {D : Dialect} {σ : Scope Entry} {lo hi : Nat} :
    (b : Block) → b.Resolved D σ lo hi false → ∀ c, ∃ b' c',
      b.expandOver [] c = .ok (b', c') ∧ SettledNodes b'.nodes
  | .mk os ss sp, ⟨ho, hss⟩ => fun c => by
    obtain ⟨ss', c₁, hss', hends⟩ := expandStmts_settled ss hss c
    subst ho
    refine ⟨.mk [] ss' sp, c₁, ?_, ?_⟩
    · exact Block.expandOver_ok.2 ⟨_, _, hss', by rw [List.append_nil]⟩
    · unfold EndsAs at hends
      split at hends
      case h_1 hlast => exact absurd hlast hss.not_returns
      case h_2 => exact hends

/-- A resolved else block expands. -/
private theorem expandElse_settled {D : Dialect} {σ : Scope Entry} {lo hi : Nat} : (b : Option Block) →
    ResolvedElse D σ lo hi b → ∀ c, ∃ b' c',
      expandElse b c = .ok (b', c') ∧ ∀ x, b' = some x → SettledNodes x.nodes
  | none, _ => fun c => ⟨none, c, rfl, fun _ hx => nomatch hx⟩
  | some b, h => fun c => by
    obtain ⟨b', c₁, hb, hbs⟩ := Block.expandOver_block b h c
    refine ⟨some b', c₁, ?_, fun x hx => by cases hx; exact hbs⟩
    exact expandElse_some_ok.2 ⟨_, _, hb, rfl⟩

end

/-- A program is expanded as its block is, from the first name to make up on. -/
theorem Block.expand_eq_ok {b : Block} {x : Expanded} :
    b.expand = .ok x ↔ ∃ b' c, b.expandOver [] {} = .ok (b', c)
      ∧ x = { program := b', temps := c.temps, made := c.made, functions := c.expanded.reverse } := by
  constructor
  · intro h
    -- The bind of the definition succeeds if the block is expanded.
    simp only [Block.expand, StateT.run] at h
    cases hover : b.expandOver [] {} with
    | error f => rw [hover] at h; cases h
    | ok out =>
      rw [hover] at h
      cases h
      exact ⟨out.1, out.2, rfl, rfl⟩
  · rintro ⟨b', c, hover, rfl⟩
    simp only [Block.expand, StateT.run, hover]
    rfl

/-- A resolved program expands to a settled one. -/
theorem Block.expand_settled {D : Dialect} {σ : Scope Entry} {lo hi : Nat} {b : Block}
    (h : b.Resolved D σ lo hi false) : ∃ x, b.expand = .ok x ∧ SettledNodes x.program.nodes := by
  obtain ⟨b', c, hb, hbs⟩ := Block.expandOver_block b h {}
  exact ⟨_, Block.expand_eq_ok.2 ⟨b', c, hb, rfl⟩, hbs⟩

end AisScript
