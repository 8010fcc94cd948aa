import AisScript.Proofs.TypingSound

/-!
# Typing a typed tree again

Typing rewrites a tree: expressions get types, names their bindings, calls their meaning and private
bodies.  None of what it leaves behind is read by another run.  Typing what typing gave, in the same scope
and from the same binding number on, gives it again, whole: the tree, the numbers and the outcome, also
where the first run had stopped with an error in the middle of a tree.

* `Expr.annotate_again`, `Stmt.annotate_again`   typing what typing gave
* `Stmt.templates_annotate`                      definitions of functions are left as they are
* `Block.annotate_repeatable`                    a program may be typed twice
-/

namespace AisScript

/-! ## What queries look for -/

section BestMoves

/-- The best-move queries among the nodes of a tree, position by position. -/
private def bestMoves (nodes : List Expr) : List Bool := nodes.map Expr.isBestMove

private theorem bestMoves_cons (e : Expr) (es : List Expr) :
    bestMoves (e :: es) = e.isBestMove :: bestMoves es :=
  rfl

private theorem bestMoves_append (xs ys : List Expr) : bestMoves (xs ++ ys) = bestMoves xs ++ bestMoves ys :=
  List.map_append

private theorem any_of_bestMoves {xs ys : List Expr} (h : bestMoves xs = bestMoves ys) :
    xs.any Expr.isBestMove = ys.any Expr.isBestMove := by
  have hany : ∀ zs : List Expr, zs.any Expr.isBestMove = (bestMoves zs).any id := fun zs => by
    simp only [bestMoves, List.any_map, Function.comp_def, id]
  rw [hany, hany, h]

/-- The call that is left of a call has the arguments. -/
private theorem bestMoves_callTyped (enter : EnterBody) (σ : Scope Entry) (next : Nat) (i : ExprInfo)
    (n : Text) (ns : Span) (args : List Expr) (t : Target) (types : List Ty) :
    bestMoves (callTyped enter σ next i n ns args t types).tree.nodes
      = false :: bestMoves (nodesOfList args) := by
  unfold callTyped
  dsimp only
  repeat' split
  all_goals rfl

mutual

/-- Typing leaves best-move queries where they are. -/
private theorem Expr.bestMoves_annotate (enter : EnterBody) (σ : Scope Entry) (next : Nat) : (e : Expr) →
    bestMoves (e.annotate enter σ next).tree.nodes = bestMoves e.nodes
  | .const _ _ => rfl
  -- A variable has no parts.
  | .var _ _ _ => by
    simp only [Expr.annotate]
    repeat' split
    all_goals rfl
  | .binary _ _ l r => by
    -- Whatever typing comes to, the tree has both typed operands.
    have hl := l.bestMoves_annotate enter σ next
    have hr := r.bestMoves_annotate enter σ (l.annotate enter σ next).next
    simp only [Expr.annotate, Typed.next_asValue]
    repeat' split
    all_goals
      simp only [Typed.fail, Typed.tree_asValue, Expr.nodes, bestMoves_cons, bestMoves_append, Expr.isBestMove,
        hl, hr]
  | .unary _ _ x => by
    have hx := x.bestMoves_annotate enter σ next
    simp only [Expr.annotate]
    repeat' split
    all_goals simp only [Typed.fail, Typed.tree_asValue, Expr.nodes, bestMoves_cons, Expr.isBestMove, hx]
  | .call _ _ _ args _ => by
    -- The arguments are typed, and the call around them has the same queries.
    have hargs := bestMoves_annotateArgs enter σ next args
    simp only [Expr.annotate]
    split
    · simp only [Expr.nodes, bestMoves_cons, Expr.isBestMove, hargs]
    · rw [bestMoves_callTyped, hargs]
      rfl
  | .member _ _ b _ _ => by
    -- The base stays in place.
    have hb := b.bestMoves_annotate enter σ next
    simp only [Expr.annotate]
    repeat' split
    all_goals simp only [Typed.tree_asValue, Expr.nodes, bestMoves_cons, Expr.isBestMove, hb]
  | .query _ _ _ u x c => by
    -- The three parts, typed or not, have the same queries.
    have hu := bestMoves_annotateUnit enter σ next u
    have hx := bestMoves_annotateOperand enter σ (annotateUnit enter σ next u).next x
    have hc := bestMoves_annotateOperand enter σ
      (annotateOperand enter σ (annotateUnit enter σ next u).next x).next c
    simp only [Expr.annotate]
    repeat' split
    all_goals simp only [Typed.fail, Expr.nodes, bestMoves_cons, bestMoves_append, Expr.isBestMove, hu, hx, hc]

private theorem bestMoves_annotateArgs (enter : EnterBody) (σ : Scope Entry) (next : Nat) : (es : List Expr) →
    bestMoves (nodesOfList (annotateArgs enter σ next es).tree) = bestMoves (nodesOfList es)
  | [] => rfl
  | e :: es => by
    have he := e.bestMoves_annotate enter σ next
    have hes := bestMoves_annotateArgs enter σ (e.annotate enter σ next).next es
    simp only [annotateArgs, Typed.next_asValue]
    split
    all_goals simp only [nodesOfList, bestMoves_append, Typed.tree_asValue, he, hes]

private theorem bestMoves_annotateUnit (enter : EnterBody) (σ : Scope Entry) (next : Nat) :
    (e : Option Expr) →
    bestMoves (nodesOfOption (annotateUnit enter σ next e).tree) = bestMoves (nodesOfOption e)
  | none => rfl
  | some e => by
    simp only [annotateUnit, Typed.asQueryUnit_eq, Typed.tree_demanding, nodesOfOption]
    exact e.bestMoves_annotate enter σ next

private theorem bestMoves_annotateOperand (enter : EnterBody) (σ : Scope Entry) (next : Nat) :
    (e : Option Expr) →
      bestMoves (nodesOfOption (annotateOperand enter σ next e).tree) = bestMoves (nodesOfOption e)
  | none => rfl
  | some e => by
    simp only [annotateOperand, Typed.asQueryOperand_eq, Typed.tree_demanding, nodesOfOption]
    exact e.bestMoves_annotate enter σ next

end

/-- A query is let through if no part of it holds a best-move query. -/
private theorem nestedBestMove_none_iff {i : ExprInfo} {k op : Text} {u x c : Option Expr} :
    nestedBestMove? (.query i k op u x c) = none ↔ (nodesOfOption u).any Expr.isBestMove = false ∧
      (nodesOfOption x).any Expr.isBestMove = false ∧ (nodesOfOption c).any Expr.isBestMove = false := by
  have hone : ∀ e : Option Expr, (∀ y ∈ e.toList, ¬ y.nodes.any Expr.isBestMove = true) ↔
      (nodesOfOption e).any Expr.isBestMove = false := fun e => by
    cases e with
    | none => exact ⟨fun _ => rfl, fun _ => nofun⟩
    | some e => simp only [Option.toList_some, List.forall_mem_singleton, Bool.not_eq_true, nodesOfOption]
  simp only [nestedBestMove?, Expr.children, List.find?_eq_none, List.forall_mem_append, hone, and_assoc]

end BestMoves

/-! ## Expressions -/

/-- Doing what a call means again changes nothing. -/
private theorem callTyped_again (enter : EnterBody) (σ : Scope Entry) (next : Nat) (i : ExprInfo) (n : Text)
    (ns : Span) (args : List Expr) (t : Target) (types : List Ty) :
    ∃ i' t', (callTyped enter σ next i n ns args t types).tree = .call i' n ns args t' ∧
      callTyped enter σ next i' n ns args t' types = callTyped enter σ next i n ns args t types := by
  unfold callTyped
  dsimp only [Typed.fail]
  cases σ.lookup n with
  -- A name that is not defined fails again.
  | none => exact ⟨i, t, rfl, rfl⟩
  | some entry =>
    cases entry with
    -- So does a value.
    | value _ => exact ⟨i, t, rfl, rfl⟩
    -- The operator checks the same types.
    | intrinsic operation =>
      dsimp only
      cases operation.check types with
      | error _ => exact ⟨i, t, rfl, rfl⟩
      | ok _ => exact ⟨_, _, rfl, rfl⟩
    -- The bitfield takes the same arguments.
    | bitfield layout =>
      dsimp only
      split
      · exact ⟨_, _, rfl, rfl⟩
      · exact ⟨i, t, rfl, rfl⟩
    -- The function is entered with the same arguments, and so it comes to the same.
    | function params body captured =>
      dsimp only
      split
      · exact ⟨i, t, rfl, rfl⟩
      · cases (enter ⟨captured, []⟩ next (bindArguments params args) body).result with
        | error _ => exact ⟨i, t, rfl, rfl⟩
        | ok _ => exact ⟨_, _, rfl, rfl⟩

mutual

/-- Typing a typed expression again gives it again. -/
theorem Expr.annotate_again (enter : EnterBody) (σ : Scope Entry) (next : Nat) : (e : Expr) →
    (e.annotate enter σ next).tree.annotate enter σ next = e.annotate enter σ next
  | .const _ _ => rfl
  | .var _ n _ => by
    simp only [Expr.annotate]
    -- The name is looked up in the same scope.
    cases hn : σ.lookup n with
    | none => simp only [Typed.fail, Expr.annotate, hn]
    | some entry => cases entry <;> simp only [Typed.fail, Expr.annotate, hn]
  | .binary _ op l r => by
    -- The left operand comes to the same, and then the right one does.
    have hl := l.annotate_again enter σ next
    simp only [Expr.annotate, Typed.next_asValue]
    generalize l.annotate enter σ next = a at hl ⊢
    cases ha : a.asValue.result with
    | error _ => simp only [Expr.annotate, Typed.tree_asValue, hl, ha, Typed.next_asValue]
    -- The left operand is typed, so the right one is typed behind it.
    | ok lt =>
      have hr := r.annotate_again enter σ a.next
      dsimp only
      generalize r.annotate enter σ a.next = b at hr ⊢
      cases hb : b.asValue.result with
      | error _ => simp only [Expr.annotate, Typed.tree_asValue, hl, hr, ha, hb, Typed.next_asValue]
      -- The operator has the same operands.
      | ok rt =>
        cases hop : op.resultTy lt rt <;>
          simp only [Typed.fail, Expr.annotate, Typed.tree_asValue, hl, hr, ha, hb, hop, Typed.next_asValue]
  | .unary _ op x => by
    -- The operand comes to the same, and the operator has the same operand.
    have hx := x.annotate_again enter σ next
    simp only [Expr.annotate, Typed.next_asValue]
    generalize x.annotate enter σ next = a at hx ⊢
    cases ha : a.asValue.result with
    | error _ => simp only [Expr.annotate, Typed.tree_asValue, hx, ha, Typed.next_asValue]
    | ok t =>
      cases hop : op.resultTy t <;>
        simp only [Typed.fail, Expr.annotate, Typed.tree_asValue, hx, ha, hop, Typed.next_asValue]
  | .call i n ns args t => by
    -- The arguments come to the same, and the call with them.
    have hargs := annotateArgs_again enter σ next args
    simp only [Expr.annotate]
    generalize annotateArgs enter σ next args = a at hargs ⊢
    cases ha : a.result with
    | error _ => simp only [Expr.annotate, hargs, ha]
    | ok types =>
      obtain ⟨i', t', htree, hagain⟩ := callTyped_again enter σ a.next i n ns a.tree t types
      simp only [htree, Expr.annotate, hargs, ha, hagain]
  | .member i access b n ns => by
    -- The base comes to the same, and its member is the same.
    have hb := b.annotate_again enter σ next
    simp only [Expr.annotate, Typed.next_asValue]
    generalize b.annotate enter σ next = a at hb ⊢
    cases ha : a.asValue.result with
    | error _ => simp only [Expr.annotate, Typed.tree_asValue, hb, ha, Typed.next_asValue]
    | ok t =>
      cases hm : memberTy access t n ns i.span <;>
        simp only [Expr.annotate, Typed.tree_asValue, hb, ha, hm, Typed.next_asValue]
  | .query i k op u x c => by
    -- The parts are typed in a row, and the first fault stays the first.
    have hu := annotateUnit_again enter σ next u
    have hmu := any_of_bestMoves (bestMoves_annotateUnit enter σ next u)
    simp only [Expr.annotate]
    cases hn : nestedBestMove? (.query i k op u x c) with
    -- A nested query is found again.
    | some part => simp only [Typed.fail, Expr.annotate, hn]
    | none =>
      -- The parts hold no best-move query, typed or not.
      rw [nestedBestMove_none_iff] at hn
      obtain ⟨hnu, hnx, hnc⟩ := hn
      rw [← hmu] at hnu
      have hclear {j : ExprInfo} {u x c : Option Expr} (hu : (nodesOfOption u).any Expr.isBestMove = false)
          (hx : (nodesOfOption x).any Expr.isBestMove = false)
          (hc : (nodesOfOption c).any Expr.isBestMove = false) : nestedBestMove? (.query j k op u x c) = none :=
        nestedBestMove_none_iff.mpr ⟨hu, hx, hc⟩
      cases hw : queryWordsFault? k op with
      | some cause => simp only [Typed.fail, Expr.annotate, hclear (hmu ▸ hnu) hnx hnc, hw]
      -- All words are known, so the parts are typed one by one.
      | none =>
        dsimp only
        generalize annotateUnit enter σ next u = a at hu hnu ⊢
        cases ha : a.result with
        | error _ => simp only [Expr.annotate, hclear hnu hnx hnc, hw, hu, ha]
        | ok _ =>
          have hx := annotateOperand_again enter σ a.next x
          rw [← any_of_bestMoves (bestMoves_annotateOperand enter σ a.next x)] at hnx
          dsimp only
          generalize annotateOperand enter σ a.next x = b at hx hnx ⊢
          cases hb : b.result with
          | error _ => simp only [Expr.annotate, hclear hnu hnx hnc, hw, hu, ha, hx, hb]
          | ok _ =>
            have hc := annotateOperand_again enter σ b.next c
            rw [← any_of_bestMoves (bestMoves_annotateOperand enter σ b.next c)] at hnc
            dsimp only
            generalize annotateOperand enter σ b.next c = d at hc hnc ⊢
            cases hd : d.result <;>
              simp only [Expr.annotate, hclear hnu hnx hnc, hw, hu, ha, hx, hb, hc, hd]

/-- Typing typed arguments again gives them again. -/
private theorem annotateArgs_again (enter : EnterBody) (σ : Scope Entry) (next : Nat) : (es : List Expr) →
    annotateArgs enter σ next (annotateArgs enter σ next es).tree = annotateArgs enter σ next es
  | [] => rfl
  | e :: es => by
    have he := e.annotate_again enter σ next
    simp only [annotateArgs, Typed.next_asValue]
    generalize e.annotate enter σ next = a at he ⊢
    cases ha : a.asValue.result with
    | error _ => simp only [annotateArgs, Typed.tree_asValue, he, ha, Typed.next_asValue]
    | ok t =>
      have hes := annotateArgs_again enter σ a.next es
      simp only [annotateArgs, Typed.tree_asValue, he, ha, hes, Typed.next_asValue]

/-- The unit of a query. -/
private theorem annotateUnit_again (enter : EnterBody) (σ : Scope Entry) (next : Nat) : (e : Option Expr) →
    annotateUnit enter σ next (annotateUnit enter σ next e).tree = annotateUnit enter σ next e
  | none => rfl
  | some e => by
    have he := e.annotate_again enter σ next
    simp only [annotateUnit, Typed.asQueryUnit_eq, Typed.tree_demanding, he]

/-- An operand of a query. -/
private theorem annotateOperand_again (enter : EnterBody) (σ : Scope Entry) (next : Nat) : (e : Option Expr) →
    annotateOperand enter σ next (annotateOperand enter σ next e).tree = annotateOperand enter σ next e
  | none => rfl
  | some e => by
    have he := e.annotate_again enter σ next
    simp only [annotateOperand, Typed.asQueryOperand_eq, Typed.tree_demanding, he]

end

/-! ## Assignments and clauses -/

/-- What an assignment does with a value again changes nothing. -/
private theorem assignTyped_again (σ : Scope Entry) (i : AssignInfo) (v : Typed Expr Ty) :
    ∃ i', (assignTyped σ i v).tree = .mk i' v.tree ∧ i'.binds = i.binds ∧
      assignTyped σ i' v = assignTyped σ i v := by
  -- Only what the value comes to matters.
  rw [← v.tree_asValue]
  obtain ⟨s, n, ns, declares, binds, binding⟩ := i
  unfold assignTyped
  dsimp only [Typed.fail]
  generalize v.asValue = w
  cases w.result with
  | error _ => exact ⟨_, rfl, rfl, rfl⟩
  | ok t =>
    -- A value of an enumeration is refused again.
    cases t with
    | enum _ => exact ⟨_, rfl, rfl, rfl⟩
    | _ =>
      cases declares with
      -- A declaration binds the same variable.
      | true => exact ⟨_, rfl, rfl, rfl⟩
      | false =>
        dsimp only
        -- The target is looked up in the same scope.
        cases hn : σ.lookup n with
        | none => exact ⟨_, rfl, rfl, by simp only [hn]⟩
        | some entry =>
          cases entry with
          | value b =>
            refine ⟨⟨s, n, ns, false, binds, some b⟩, ?_, rfl, by simp only [hn]⟩
            simp only [Bool.false_eq_true, if_false]
            repeat' split
            all_goals rfl
          -- Nothing else can be assigned to, typed again or not.
          | _ => exact ⟨_, rfl, rfl, by simp only [hn]⟩

/-- Typing a typed assignment again gives it again. -/
theorem Assign.annotate_again (enter : EnterBody) (σ : Scope Entry) (next : Nat) (a : Assign) :
    (a.annotate enter σ next).tree.annotate enter σ next = a.annotate enter σ next := by
  obtain ⟨i, v⟩ := a
  cases hi : i.binds with
  | true => simp only [Assign.annotate, Assign.info, hi, if_true, Assign.bindParam]
  | false =>
    obtain ⟨i', htree, hbinds, hagain⟩ := assignTyped_again σ i (v.annotate enter σ next)
    simp only [Assign.annotate, Assign.info, Assign.value, hi, Bool.false_eq_true, if_false, htree, hbinds,
      v.annotate_again enter σ next, hagain]

/-- Typing typed assignments again gives them again. -/
private theorem annotateAssigns_again (enter : EnterBody) (σ : Scope Entry) (next : Nat) (as : List Assign) :
    annotateAssigns enter σ next (annotateAssigns enter σ next as).tree
      = annotateAssigns enter σ next as := by
  -- By induction on the list, each in the scope that those in front of it lead to.
  induction as generalizing σ next with
  | nil => rfl
  | cons a as ih =>
    have ha := a.annotate_again enter σ next
    simp only [annotateAssigns]
    generalize a.annotate enter σ next = r at ha ⊢
    cases hr : r.result with
    -- The first one that is refused is refused again.
    | error _ => simp only [annotateAssigns, ha, hr]
    | ok σ' =>
      have has := ih σ' r.next
      simp only [annotateAssigns, ha, hr, has]

/-- Typing a typed clause again gives it again. -/
private theorem annotateClause_again (enter : EnterBody) (σ : Scope Entry) (next : Nat) (a : Option Assign) :
    annotateClause enter σ next (annotateClause enter σ next a).tree = annotateClause enter σ next a := by
  cases a with
  | none => rfl
  | some a => simp only [annotateClause, Typed.wrap, a.annotate_again enter σ next]

/-- Typing a typed test again gives it again. -/
private theorem annotateTest_again (enter : EnterBody) (σ : Scope Entry) (next : Nat) : (e : Option Expr) →
    annotateTest enter σ next (annotateTest enter σ next e).tree = annotateTest enter σ next e
  | none => rfl
  | some e => by
    simp only [annotateTest, Typed.asCondition_eq, Typed.tree_demanding, e.annotate_again enter σ next]

/-- Typing a typed assignment to a member again gives it again. -/
private theorem annotateMemberAssign_again (enter : EnterBody) (σ : Scope Entry) (next : Nat) (s : Span)
    (t v : Expr) :
    (annotateMemberAssign enter σ next s t v).tree.annotate enter σ next =
      annotateMemberAssign enter σ next s t v := by
  unfold annotateMemberAssign
  split
  -- What is no member is refused again.
  case h_2 hne =>
    simp only [Typed.fail, Stmt.annotate, annotateMemberAssign]
  case h_1 i b m ms =>
    -- The base comes to the same.
    have hb := b.annotate_again enter σ next
    dsimp only
    simp only [Typed.next_asValue]
    generalize b.annotate enter σ next = a at hb ⊢
    cases ha : a.asValue.result with
    | error _ => simp only [Stmt.annotate, annotateMemberAssign, Typed.tree_asValue, hb, ha, Typed.next_asValue]
    | ok t =>
      cases t with
      -- Only members of bitfields can be assigned to.
      | bitfield layout =>
        dsimp only
        cases hm : memberTy .dotted (.bitfield layout) m ms i.span with
        | error _ =>
          simp only [Stmt.annotate, annotateMemberAssign, Typed.tree_asValue, hb, ha, hm, Typed.next_asValue]
        | ok mt =>
          -- The base has the member, so the value comes to the same.
          have hv := v.annotate_again enter σ a.next
          dsimp only
          generalize v.annotate enter σ a.next = w at hv ⊢
          cases hw : w.asValue.result with
          | error _ =>
            simp only [Stmt.annotate, annotateMemberAssign, Typed.tree_asValue, hb, ha, hm, hv, hw,
              Typed.next_asValue]
          | ok vt =>
            cases vt <;> simp only [Typed.fail, Stmt.annotate, annotateMemberAssign, Typed.tree_asValue, hb, ha,
              hm, hv, hw, Typed.next_asValue]
      -- A base of another type is refused again.
      | _ =>
        simp only [Typed.fail, Stmt.annotate, annotateMemberAssign, Typed.tree_asValue, hb, ha,
          Typed.next_asValue]

/-! ## Statements -/

mutual

/-- Typing a typed statement again gives it again. -/
theorem Stmt.annotate_again (enter : EnterBody) (σ : Scope Entry) (next : Nat) : (s : Stmt) →
    (s.annotate enter σ next).tree.annotate enter σ next = s.annotate enter σ next
  -- A block comes to the same in the same frame.
  | .block b => by simp only [Stmt.annotate, b.annotateIn_again enter σ.push next]
  | .eval _ e => by simp only [Stmt.annotate, e.annotate_again enter σ next]
  | .assign a => by simp only [Stmt.annotate, Typed.wrap, a.annotate_again enter σ next]
  | .assignMember s t v => annotateMemberAssign_again enter σ next s t v
  | .cond _ c t f => by
    -- The condition comes to the same, and so do both branches.
    have hc := c.annotate_again enter σ next
    simp only [Stmt.annotate, Typed.asCondition_eq, Typed.next_demanding]
    generalize c.annotate enter σ next = a at hc ⊢
    cases ha : (a.demanding (·.isNumeric = true) .conditionNotNumeric).result with
    | error _ =>
      simp only [Stmt.annotate, Typed.asCondition_eq, Typed.tree_demanding, Typed.next_demanding, hc, ha]
    | ok _ =>
      have ht := t.annotateIn_again enter σ.push a.next
      dsimp only
      generalize t.annotateIn enter σ.push a.next = r at ht ⊢
      cases hr : r.result with
      | error _ =>
        simp only [Stmt.annotate, Typed.asCondition_eq, Typed.tree_demanding, Typed.next_demanding, hc, ha, ht,
          hr]
      | ok _ =>
        have hf := annotateElse_again enter σ r.next f
        simp only [Stmt.annotate, Typed.asCondition_eq, Typed.tree_demanding, Typed.next_demanding, hc, ha, ht,
          hr, hf]
  | .loop _ c b => by
    -- The condition comes to the same, and so does the body.
    have hc := c.annotate_again enter σ next
    simp only [Stmt.annotate, Typed.asCondition_eq, Typed.next_demanding]
    generalize c.annotate enter σ next = a at hc ⊢
    cases ha : (a.demanding (·.isNumeric = true) .conditionNotNumeric).result with
    | error _ =>
      simp only [Stmt.annotate, Typed.asCondition_eq, Typed.tree_demanding, Typed.next_demanding, hc, ha]
    | ok _ =>
      have hb := b.annotateIn_again enter σ.push a.next
      simp only [Stmt.annotate, Typed.asCondition_eq, Typed.tree_demanding, Typed.next_demanding, hc, ha, hb]
  | .forLoop _ i c st b => by
    -- The clauses come to the same in their order, and then the body does.
    have hi := annotateClause_again enter σ.push next i
    simp only [Stmt.annotate]
    generalize annotateClause enter σ.push next i = a at hi ⊢
    cases ha : a.result with
    | error _ => simp only [Stmt.annotate, hi, ha]
    | ok υ =>
      have hc := annotateTest_again enter υ a.next c
      dsimp only
      generalize annotateTest enter υ a.next c = d at hc ⊢
      cases hd : d.result with
      | error _ => simp only [Stmt.annotate, hi, ha, hc, hd]
      | ok _ =>
        have hst := annotateClause_again enter υ d.next st
        dsimp only
        generalize annotateClause enter υ d.next st = p at hst ⊢
        cases hp : p.result with
        | error _ => simp only [Stmt.annotate, hi, ha, hc, hd, hst, hp]
        | ok τ =>
          have hb := b.annotateIn_again enter τ.push p.next
          simp only [Stmt.annotate, hi, ha, hc, hd, hst, hp, hb]
  | .ret _ v => by
    -- The value comes to the same, and so does the check of its type.
    have hv := v.annotate_again enter σ next
    simp only [Stmt.annotate]
    generalize v.annotate enter σ next = a at hv ⊢
    cases ha : a.asValue.result with
    | error _ => simp only [Stmt.annotate, Typed.tree_asValue, hv, ha]
    | ok t => cases t <;> simp only [Typed.fail, Stmt.annotate, Typed.tree_asValue, hv, ha]
  -- Nothing is typed in these statements.
  | .leave _ | .code _ _ | .funcDef _ _ _ _ _ | .bitfieldDef _ _ | .enumDef _ _ | .require _ _ => rfl

/-- Typing typed statements again gives them again. -/
private theorem annotateStmts_again (enter : EnterBody) (σ : Scope Entry) (next : Nat) : (ss : List Stmt) →
    annotateStmts enter σ next (annotateStmts enter σ next ss).tree = annotateStmts enter σ next ss
  | [] => rfl
  | s :: ss => by
    have hs := s.annotate_again enter σ next
    simp only [annotateStmts]
    generalize s.annotate enter σ next = r at hs ⊢
    cases hr : r.result with
    | error _ => simp only [annotateStmts, hs, hr]
    | ok σ' =>
      have hss := annotateStmts_again enter σ' r.next ss
      simp only [annotateStmts, hs, hr, hss]

/-- Typing a typed block again gives it again. -/
private theorem Block.annotateIn_again (enter : EnterBody) (σ : Scope Entry) (next : Nat) : (b : Block) →
    (b.annotateIn enter σ next).tree.annotateIn enter σ next = b.annotateIn enter σ next
  | .mk os ss _ => by
    have hos := annotateAssigns_again enter σ next os
    simp only [Block.annotateIn]
    generalize annotateAssigns enter σ next os = a at hos ⊢
    cases ha : a.result with
    | error _ => simp only [Block.annotateIn, hos, ha]
    | ok σ' =>
      have hss := annotateStmts_again enter σ' a.next ss
      simp only [Block.annotateIn, hos, ha, hss]

/-- An else block that may be absent. -/
private theorem annotateElse_again (enter : EnterBody) (σ : Scope Entry) (next : Nat) : (b : Option Block) →
    annotateElse enter σ next (annotateElse enter σ next b).tree = annotateElse enter σ next b
  | none => rfl
  | some b => by simp only [annotateElse, Typed.wrap, b.annotateIn_again enter σ.push next]

end

/-! ## Templates -/

/-- The definition of a function at a node. -/
def Node.template? : Node → Option Stmt
  | .stmt (.funcDef s n ns ps b) => some (.funcDef s n ns ps b)
  | _ => none

/-- The definitions of functions among nodes, in order. -/
def templates (nodes : List Node) : List Stmt := nodes.filterMap Node.template?

private theorem templates_append (xs ys : List Node) : templates (xs ++ ys) = templates xs ++ templates ys :=
  List.filterMap_append

/-- There are no definitions in an expression. -/
private theorem templates_exprs (es : List Expr) : templates (es.map .expr) = [] := by
  simp only [templates, List.filterMap_map, List.filterMap_eq_nil_iff]
  exact fun _ _ => rfl

private theorem templates_exprNodes (e : Expr) : templates (exprNodes e) = [] := templates_exprs e.nodes

private theorem templates_assign (a : Assign) : templates a.nodes = [] := templates_exprNodes a.value

private theorem templates_assigns (as : List Assign) : templates (as.flatMap Assign.nodes) = [] := by
  induction as with
  | nil => rfl
  | cons a as ih => rw [List.flatMap_cons, templates_append, templates_assign, ih, List.nil_append]

private theorem templates_clause (a : Option Assign) : templates (clauseNodes a) = [] := by
  cases a with
  | none => rfl
  | some a => exact templates_assign a

/-- A statement that is no definition adds nothing. -/
private theorem templates_cons {s : Stmt} {xs : List Node} (h : Node.template? (.stmt s) = none) :
    templates (.stmt s :: xs) = templates xs := List.filterMap_cons_none h

/-- What the nodes of a statement say about definitions, where its parts are known. -/
private theorem templates_cond (s : Span) (c : Expr) (t : Block) (f : Option Block) :
    templates (Stmt.cond s c t f).nodes = templates t.nodes ++ (f.map fun b => templates b.nodes).getD [] := by
  cases f with
  | none =>
    rw [Stmt.nodes, templates_cons rfl, templates_append, templates_exprNodes, List.nil_append, Option.map_none,
      Option.getD_none, List.append_nil]
  | some f =>
    rw [Stmt.nodes, templates_cons rfl, templates_append, templates_append, templates_exprNodes,
      List.nil_append, Option.map_some, Option.getD_some]

private theorem templates_loop (s : Span) (c : Expr) (b : Block) :
    templates (Stmt.loop s c b).nodes = templates b.nodes := by
  rw [Stmt.nodes, templates_cons rfl, templates_append, templates_exprNodes, List.nil_append]

private theorem templates_forLoop (s : Span) (i : Option Assign) (c : Option Expr) (st : Option Assign)
    (b : Block) : templates (Stmt.forLoop s i c st b).nodes = templates b.nodes := by
  rw [Stmt.nodes, templates_cons rfl, templates_append, templates_append, templates_append, templates_exprs,
    templates_clause, templates_clause, List.nil_append, List.nil_append, List.nil_append]

private theorem templates_assignMember (s : Span) (t v : Expr) :
    templates (Stmt.assignMember s t v).nodes = [] := by
  rw [Stmt.nodes, templates_cons rfl, templates_append, templates_exprNodes, templates_exprNodes,
    List.nil_append]

mutual

/-- The definitions counted in a statement are the definitions found in it. -/
private theorem Stmt.definitions_eq : (s : Stmt) → s.definitions = (templates s.nodes).length
  | .block b => by
    -- A block has the definitions of its statements.
    rw [Stmt.definitions, Stmt.nodes, templates_cons rfl, b.definitions_eq]
  | .cond _ c t none => by
    rw [Stmt.definitions, templates_cond, Option.map_none, Option.getD_none, List.append_nil, t.definitions_eq]
  | .cond _ c t (some f) => by
    rw [Stmt.definitions, templates_cond, Option.map_some, Option.getD_some, List.length_append,
      t.definitions_eq, f.definitions_eq]
  | .loop _ c b => by rw [Stmt.definitions, templates_loop, b.definitions_eq]
  | .forLoop _ i c st b => by rw [Stmt.definitions, templates_forLoop, b.definitions_eq]
  -- The definition itself is one more.
  | .funcDef _ _ _ _ b => by
    rw [Stmt.definitions, b.definitions_eq]
    rfl
  -- Expressions define nothing.
  | .assign a => by
    rw [Stmt.nodes, templates_assign]
    rfl
  | .eval _ e | .ret _ e => by
    rw [Stmt.nodes, templates_cons rfl, templates_exprNodes]
    rfl
  | .assignMember s t v => by
    rw [templates_assignMember]
    rfl
  | .leave _ | .code _ _ | .bitfieldDef _ _ | .enumDef _ _ | .require _ _ => rfl

private theorem stmtsDefinitions_eq : (ss : List Stmt) →
    stmtsDefinitions ss = (templates (stmtsNodes ss)).length
  | [] => rfl
  | s :: ss => by
    rw [stmtsDefinitions, stmtsNodes, templates_append, List.length_append, s.definitions_eq,
      stmtsDefinitions_eq ss]

private theorem Block.definitions_eq : (b : Block) → b.definitions = (templates b.nodes).length
  | .mk os ss _ => by
    rw [Block.definitions, Block.nodes, templates_append, templates_assigns, List.nil_append,
      stmtsDefinitions_eq ss]

end

/-- An assignment to a member stays one. -/
private theorem tree_annotateMemberAssign (enter : EnterBody) (σ : Scope Entry) (next : Nat) (s : Span)
    (t v : Expr) : ∃ t' v', (annotateMemberAssign enter σ next s t v).tree = .assignMember s t' v' := by
  unfold annotateMemberAssign
  dsimp only
  repeat' split
  all_goals exact ⟨_, _, rfl⟩

mutual

/-- Typing leaves the definitions of functions as they are. -/
private theorem Stmt.templates_annotate (enter : EnterBody) (σ : Scope Entry) (next : Nat) : (s : Stmt) →
    templates (s.annotate enter σ next).tree.nodes = templates s.nodes
  | .block b => by
    -- A block keeps the definitions in it.
    simp only [Stmt.annotate, Stmt.nodes]
    rw [templates_cons rfl, templates_cons rfl, b.templates_annotateIn enter]
  | .cond _ c t f => by
    -- Whether the branches are typed or not, they have the same definitions.
    have ht := t.templates_annotateIn enter σ.push (c.annotate enter σ next).next
    have hf := templates_annotateElse enter σ
      (t.annotateIn enter σ.push (c.annotate enter σ next).next).next f
    simp only [Stmt.annotate, Typed.asCondition_eq, Typed.next_demanding]
    repeat' split
    all_goals simp only [templates_cond, ht, hf]
  | .loop _ c b => by
    have hb := b.templates_annotateIn enter σ.push (c.annotate enter σ next).next
    simp only [Stmt.annotate, Typed.asCondition_eq, Typed.next_demanding]
    split <;> simp only [templates_loop, hb]
  | .forLoop _ i c st b => by
    -- Whichever part fails, the body keeps its definitions.
    simp only [Stmt.annotate]
    repeat' split
    all_goals simp only [templates_forLoop, b.templates_annotateIn enter]
  | .eval _ e => by
    -- Expressions define nothing, typed or not.
    simp only [Stmt.annotate, Stmt.nodes]
    rw [templates_cons rfl, templates_cons rfl, templates_exprNodes, templates_exprNodes]
  | .assign a => by
    simp only [Stmt.annotate, Typed.wrap, Stmt.nodes, templates_assign]
  | .assignMember s t v => by
    obtain ⟨t', v', htree⟩ := tree_annotateMemberAssign enter σ next s t v
    rw [Stmt.annotate, htree, templates_assignMember, templates_assignMember]
  | .ret _ v => by
    simp only [Stmt.annotate]
    repeat' split
    all_goals
      simp only [Typed.fail, Stmt.nodes]
      rw [templates_cons rfl, templates_cons rfl, templates_exprNodes, templates_exprNodes]
  | .leave _ | .code _ _ | .funcDef _ _ _ _ _ | .bitfieldDef _ _ | .enumDef _ _ | .require _ _ => rfl

private theorem templates_annotateStmts (enter : EnterBody) (σ : Scope Entry) (next : Nat) :
    (ss : List Stmt) →
    templates (stmtsNodes (annotateStmts enter σ next ss).tree) = templates (stmtsNodes ss)
  | [] => rfl
  | s :: ss => by
    have hs := s.templates_annotate enter σ next
    simp only [annotateStmts]
    split
    · simp only [stmtsNodes, templates_append, hs]
    · simp only [stmtsNodes, templates_append, hs, templates_annotateStmts enter]

/-- Typing a block leaves the definitions of functions as they are. -/
private theorem Block.templates_annotateIn (enter : EnterBody) (σ : Scope Entry) (next : Nat) : (b : Block) →
    templates (b.annotateIn enter σ next).tree.nodes = templates b.nodes
  | .mk os ss _ => by
    simp only [Block.annotateIn]
    split
    · simp only [Block.nodes, templates_append, templates_assigns]
    · simp only [Block.nodes, templates_append, templates_assigns, templates_annotateStmts enter]

private theorem templates_annotateElse (enter : EnterBody) (σ : Scope Entry) (next : Nat) :
    (b : Option Block) →
    ((annotateElse enter σ next b).tree.map fun b => templates b.nodes) = b.map fun b => templates b.nodes
  | none => rfl
  | some b => by simp only [annotateElse, Typed.wrap, Option.map_some, b.templates_annotateIn enter]

end

/-! ## Programs -/

/-- Typing leaves the number of definitions as it is, and so the levels that calls may nest. -/
private theorem Block.definitions_annotateIn (enter : EnterBody) (σ : Scope Entry) (next : Nat) (b : Block) :
    (b.annotateIn enter σ next).tree.definitions = b.definitions := by
  rw [Block.definitions_eq, Block.definitions_eq, b.templates_annotateIn enter σ next]

/-- A program may be typed twice.  Typing the tree that a run has left, in the same host, gives the same
tree: every type, every binding, every meaning of a call and every private body.  It gives the same outcome,
success or the same error.  The definitions of functions are the ones of the program before the first
run. -/
theorem Block.annotate_repeatable (h : Host) (b : Block) :
    (b.annotate h).1.annotate h = b.annotate h ∧
      templates (b.annotate h).1.nodes = templates b.nodes := by
  have htree : (b.annotate h).1 =
      (b.annotateIn (enterWithin (b.definitions + Host.achronal.length)) h.entryScope.1.push
        h.entryScope.2).tree := by
    simp only [Block.annotate]
    split <;> rfl
  rw [htree]
  refine ⟨?_, b.templates_annotateIn _ _ _⟩
  simp only [Block.annotate, Block.definitions_annotateIn, Block.annotateIn_again]

end AisScript
