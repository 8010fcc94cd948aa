import AisScript.Expand

/-!
# Steps of the expansion

The expansion counts what it makes up and may fail, so every form of tree is expanded in steps.  What the
expansion of each form is put together from is said once here, in both directions: the proofs about expanded
trees take their steps from these lemmas, and so does the proof that there are such trees.

* `Expanding.bind_ok`, `Expanding.lift_ok`   single steps
* `Expr.expand_eq_pure`                      expressions without calls
* `Stmt.expand_forLoop`                      what stays in a loop header is expanded like what moves
* `Expr.expand_binary_ok`, `Expr.expand_call_ok`, `Stmt.expand_cond_ok`, `Stmt.expand_forLoop_ok`
  the steps of each form
-/

namespace AisScript

/-! ## Single steps -/

namespace Expanding

variable {α β : Type}

/-- Two steps in a row. -/
theorem bind_ok {x : Expanding α} {f : α → Expanding β} {c : Expansion} {r : β × Expansion} :
    (x >>= f) c = .ok r ↔ ∃ a c', x c = .ok (a, c') ∧ f a c' = .ok r := by
  -- A step is a function on the state that may fail, so a bind is one of `Except`.
  change ((x c).bind fun p => f p.1 p.2) = _ ↔ _
  constructor
  · intro h
    cases hx : x c with
    | error e => rw [hx] at h; exact nomatch h
    | ok p =>
      obtain ⟨a, c'⟩ := p
      rw [hx] at h
      exact ⟨a, c', rfl, h⟩
  · rintro ⟨a, c', hx, hf⟩
    rw [hx]
    exact hf

/-- No step at all. -/
theorem pure_ok {a : α} {c : Expansion} {r : α × Expansion} :
    (pure a : Expanding α) c = .ok r ↔ (a, c) = r :=
  ⟨Except.ok.inj, congrArg Except.ok⟩

/-- Noting a function cannot fail. -/
theorem noteExpanded_bind {n : Text} {f : Unit → Expanding β} {c : Expansion} :
    (noteExpanded n >>= f) c = f () { c with expanded := n :: c.expanded } := rfl

/-- A step that may fail and leaves the state alone. -/
theorem lift_ok {x : Except Fault α} {c : Expansion} {r : α × Expansion} :
    (liftM x : Expanding α) c = .ok r ↔ ∃ a, x = .ok a ∧ (a, c) = r := by
  cases x with
  | error e => exact ⟨(fun h => nomatch h), fun ⟨_, h, _⟩ => nomatch h⟩
  | ok a => exact ⟨fun h => by cases h; exact ⟨a, rfl, rfl⟩, fun ⟨_, h, hr⟩ => by cases h; cases hr; rfl⟩

end Expanding

/-! ## Expressions without calls -/

mutual

/-- An expression without calls of the script's functions expands to itself. -/
theorem Expr.expand_eq_pure : (e : Expr) → e.nodes.any Expr.isScriptCall = false →
    e.expand = pure ([], e)
  | .const _ _, _ | .var _ _ _, _ => rfl
  | .binary _ _ l r, h => by
    -- The operands hold no calls either, so nothing is put in front of them.
    simp only [Expr.nodes, List.any_cons, List.any_append, Bool.or_eq_false_iff] at h
    simp only [Expr.expand, Expr.expand_eq_pure l h.2.1, Expr.expand_eq_pure r h.2.2, pure_bind,
      List.append_nil]
  | .unary _ _ x, h => by
    simp only [Expr.nodes, List.any_cons, Bool.or_eq_false_iff] at h
    simp only [Expr.expand, Expr.expand_eq_pure x h.2, pure_bind]
  | .member _ _ b _ _, h => by
    simp only [Expr.nodes, List.any_cons, Bool.or_eq_false_iff] at h
    simp only [Expr.expand, Expr.expand_eq_pure b h.2, pure_bind]
  | .query _ _ _ u x c, h => by
    simp only [Expr.nodes, List.any_cons, List.any_append, Bool.or_eq_false_iff] at h
    simp only [Expr.expand, expandOption_eq_pure u h.2.1.1, expandOption_eq_pure x h.2.1.2,
      expandOption_eq_pure c h.2.2, pure_bind, List.append_nil]
  | .call _ _ _ _ (.function _ _), h => by
    -- The call itself is one of the calls ruled out.
    simp only [Expr.nodes, List.any_cons, Expr.isScriptCall, Bool.true_or] at h
    cases h
  | .call _ _ _ args .unresolved, h | .call _ _ _ args (.intrinsic _), h
  | .call _ _ _ args (.constructor _), h => by
    simp only [Expr.nodes, List.any_cons, Bool.or_eq_false_iff] at h
    simp only [Expr.expand, expandList_eq_pure args h.2, pure_bind]

/-- Expressions without calls of the script's functions expand to themselves. -/
private theorem expandList_eq_pure : (es : List Expr) → (nodesOfList es).any Expr.isScriptCall = false →
    expandList es = pure ([], es)
  | [], _ => rfl
  | e :: es, h => by
    simp only [nodesOfList, List.any_append, Bool.or_eq_false_iff] at h
    simp only [expandList, Expr.expand_eq_pure e h.1, expandList_eq_pure es h.2, pure_bind,
      List.append_nil]

/-- An expression that may be absent and has no calls of the script's functions expands to itself. -/
private theorem expandOption_eq_pure : (e : Option Expr) →
    (nodesOfOption e).any Expr.isScriptCall = false → expandOption e = pure ([], e)
  | none, _ => rfl
  | some e, h => by
    rw [nodesOfOption] at h
    simp only [expandOption, Expr.expand_eq_pure e h, pure_bind]

end

/-! ## Loop headers -/

/-- Whether the test of a loop header holds a call of the script's functions. -/
def testCalls (c : Option Expr) : Bool := (c.map Expr.hasScriptCall).getD false

/-- Whether the step of a loop header holds a call of the script's functions. -/
def stepCalls (st : Option Assign) : Bool := (st.map fun a => a.value.hasScriptCall).getD false

/-- The statements behind the body of a loop whose step has moved there. -/
def movedStep (st : Option Assign) (r : List Stmt) (st' : Option Assign) : List Stmt :=
  if stepCalls st then r ++ st'.toList.map .assign else []

/-- The body of a loop with what has moved there: its test in front, its step behind. -/
def foldedBody (s : Span) (c : Option Expr) (q : List Stmt) (c' : Option Expr) (span : Span) (b' : Block)
    (last : List Stmt) : Block :=
  match testCalls c, c' with
  | true, some test => .mk [] (q ++ [guarded s test b'] ++ last) span
  | _, _ => .mk b'.overrides (b'.stmts ++ last) b'.span

/-- A test that stays in its header has nothing to expand. -/
theorem expandOption_of_not_testCalls {c : Option Expr} (h : testCalls c = false) :
    expandOption c = pure ([], c) := by
  cases c with
  | none => rfl
  | some e => exact expandOption_eq_pure (some e) h

/-- A step that stays in its header has nothing to expand. -/
theorem expandClause_of_not_stepCalls {st : Option Assign} (h : stepCalls st = false) :
    expandClause st = pure ([], st) := by
  cases st with
  | none => rfl
  | some a =>
    obtain ⟨i, v⟩ := a
    simp only [expandClause, Assign.expand, Expr.expand_eq_pure v h, pure_bind]

/-- Test and step of a loop header are expanded whether they move or not: one that stays has nothing
to expand. -/
theorem Stmt.expand_forLoop (s : Span) (i : Option Assign) (c : Option Expr) (st : Option Assign)
    (b : Block) :
    (Stmt.forLoop s i c st b).expand = (do
      let (p, i) ← expandClause i
      let (q, c') ← expandOption c
      let b' ← b.expandOver []
      let (r, st') ← expandClause st
      pure (p ++ [.forLoop s i (if testCalls c then none else c) (if stepCalls st then none else st)
        (foldedBody s c q c' b.span b' (movedStep st r st'))])) := by
  -- The two conditions of the definition have names of their own.
  have htest : (c.map Expr.hasScriptCall).getD false = testCalls c := rfl
  have hstep : (st.map fun a => a.value.hasScriptCall).getD false = stepCalls st := rfl
  simp only [Stmt.expand, htest, hstep, foldedBody, movedStep]
  -- What moves is expanded by both sides; what stays holds no call and expands to itself.
  cases hc : testCalls c with
  | true =>
    cases hst : stepCalls st with
    | true => rfl
    | false => simp only [expandClause_of_not_stepCalls hst, pure_bind]; rfl
  | false =>
    simp only [expandOption_of_not_testCalls hc, pure_bind]
    cases hst : stepCalls st with
    | true => rfl
    | false => simp only [expandClause_of_not_stepCalls hst, pure_bind]; rfl

/-! ## The steps of each form -/

section Forms

variable {c : Expansion}

/-- Both operands are expanded, from left to right. -/
theorem Expr.expand_binary_ok {i : ExprInfo} {op : BinaryOp} {l r : Expr} {out : (List Stmt × Expr) × Expansion} :
    (Expr.binary i op l r).expand c = .ok out ↔
      ∃ p l' c₁, l.expand c = .ok ((p, l'), c₁) ∧ ∃ q r' c₂, r.expand c₁ = .ok ((q, r'), c₂)
        ∧ ((p ++ q, .binary i op l' r'), c₂) = out := by
  simp only [Expr.expand, Expanding.bind_ok, Expanding.pure_ok, Prod.exists]

/-- The operand is expanded. -/
theorem Expr.expand_unary_ok {i : ExprInfo} {op : UnaryOp} {x : Expr} {out : (List Stmt × Expr) × Expansion} :
    (Expr.unary i op x).expand c = .ok out ↔
      ∃ p x' c₁, x.expand c = .ok ((p, x'), c₁) ∧ ((p, .unary i op x'), c₁) = out := by
  simp only [Expr.expand, Expanding.bind_ok, Expanding.pure_ok, Prod.exists]

/-- The base is expanded. -/
theorem Expr.expand_member_ok {i : ExprInfo} {a : Access} {b : Expr} {n : Text} {ns : Span}
    {out : (List Stmt × Expr) × Expansion} :
    (Expr.member i a b n ns).expand c = .ok out ↔
      ∃ p b' c₁, b.expand c = .ok ((p, b'), c₁) ∧ ((p, .member i a b' n ns), c₁) = out := by
  simp only [Expr.expand, Expanding.bind_ok, Expanding.pure_ok, Prod.exists]

/-- Unit, operand and condition are expanded, in this order. -/
theorem Expr.expand_query_ok {i : ExprInfo} {k op : Text} {u x q : Option Expr}
    {out : (List Stmt × Expr) × Expansion} :
    (Expr.query i k op u x q).expand c = .ok out ↔
      ∃ pu u' c₁, expandOption u c = .ok ((pu, u'), c₁) ∧ ∃ px x' c₂, expandOption x c₁ = .ok ((px, x'), c₂)
        ∧ ∃ pq q' c₃, expandOption q c₂ = .ok ((pq, q'), c₃)
        ∧ ((pu ++ px ++ pq, .query i k op u' x' q'), c₃) = out := by
  simp only [Expr.expand, Expanding.bind_ok, Expanding.pure_ok, Prod.exists]

/-- The arguments are expanded and the function is noted; then its body is expanded, freshened and put in
place of the call. -/
theorem Expr.expand_call_ok {i : ExprInfo} {n : Text} {ns : Span} {args : List Expr} {binds : List Assign}
    {body : Block} {out : (List Stmt × Expr) × Expansion} :
    (Expr.call i n ns args (.function binds body)).expand c = .ok out ↔
      ∃ p args' c₁, expandList args c = .ok ((p, args'), c₁)
        ∧ ∃ body₁ c₂, body.expandOver (bindExpanded binds args') { c₁ with expanded := n :: c₁.expanded }
          = .ok (body₁, c₂)
        ∧ ∃ body₂ c₃, freshened body₁ c₂ = .ok (body₂, c₃)
        ∧ ∃ q e c₄, placeBody (.call i n ns args' (.function binds body₂)) body₂ c₃ = .ok ((q, e), c₄)
        ∧ ((p ++ q, e), c₄) = out := by
  simp only [Expr.expand, Expanding.bind_ok, Expanding.noteExpanded_bind, Expanding.pure_ok, Prod.exists]

/-- A call that stays has its arguments expanded. -/
theorem Expr.expand_keptCall_ok {i : ExprInfo} {n : Text} {ns : Span} {args : List Expr} {t : Target}
    (ht : (Expr.call i n ns args t).isScriptCall = false) {out : (List Stmt × Expr) × Expansion} :
    (Expr.call i n ns args t).expand c = .ok out ↔
      ∃ p args' c₁, expandList args c = .ok ((p, args'), c₁) ∧ ((p, .call i n ns args' t), c₁) = out := by
  cases t with
  | function binds body => cases ht
  | _ => simp only [Expr.expand, Expanding.bind_ok, Expanding.pure_ok, Prod.exists]

/-- The first expression is expanded, then the others. -/
theorem expandList_cons_ok {e : Expr} {es : List Expr} {out : (List Stmt × List Expr) × Expansion} :
    expandList (e :: es) c = .ok out ↔
      ∃ p e' c₁, e.expand c = .ok ((p, e'), c₁) ∧ ∃ q es' c₂, expandList es c₁ = .ok ((q, es'), c₂)
        ∧ ((p ++ q, e' :: es'), c₂) = out := by
  simp only [expandList, Expanding.bind_ok, Expanding.pure_ok, Prod.exists]

/-- An expression that is there is expanded. -/
theorem expandOption_some_ok {e : Expr} {out : (List Stmt × Option Expr) × Expansion} :
    expandOption (some e) c = .ok out ↔
      ∃ p e' c₁, e.expand c = .ok ((p, e'), c₁) ∧ ((p, some e'), c₁) = out := by
  simp only [expandOption, Expanding.bind_ok, Expanding.pure_ok, Prod.exists]

/-- The value is expanded. -/
theorem Assign.expand_ok {i : AssignInfo} {v : Expr} {out : (List Stmt × Assign) × Expansion} :
    (Assign.mk i v).expand c = .ok out ↔
      ∃ p v' c₁, v.expand c = .ok ((p, v'), c₁) ∧ ((p, .mk i v'), c₁) = out := by
  simp only [Assign.expand, Expanding.bind_ok, Expanding.pure_ok, Prod.exists]

/-- A clause that is there is expanded. -/
theorem expandClause_some_ok {a : Assign} {out : (List Stmt × Option Assign) × Expansion} :
    expandClause (some a) c = .ok out ↔
      ∃ p a' c₁, a.expand c = .ok ((p, a'), c₁) ∧ ((p, some a'), c₁) = out := by
  simp only [expandClause, Expanding.bind_ok, Expanding.pure_ok, Prod.exists]

/-- The statements of a block are expanded, and the bindings put in front of its overrides. -/
theorem Block.expandOver_ok {binds os : List Assign} {ss : List Stmt} {sp : Span} {out : Block × Expansion} :
    (Block.mk os ss sp).expandOver binds c = .ok out ↔
      ∃ ss' c₁, expandStmts ss c = .ok (ss', c₁) ∧ (.mk (binds ++ os) ss' sp, c₁) = out := by
  simp only [Block.expandOver, Expanding.bind_ok, Expanding.pure_ok]

/-- A second branch that is there is expanded. -/
theorem expandElse_some_ok {b : Block} {out : Option Block × Expansion} :
    expandElse (some b) c = .ok out ↔
      ∃ b' c₁, b.expandOver [] c = .ok (b', c₁) ∧ (some b', c₁) = out := by
  simp only [expandElse, Expanding.bind_ok, Expanding.pure_ok]

/-- The first statement is expanded, then the others. -/
theorem expandStmts_cons_ok {s : Stmt} {ss : List Stmt} {out : List Stmt × Expansion} :
    expandStmts (s :: ss) c = .ok out ↔
      ∃ p c₁, s.expand c = .ok (p, c₁) ∧ ∃ q c₂, expandStmts ss c₁ = .ok (q, c₂) ∧ (p ++ q, c₂) = out := by
  simp only [expandStmts, Expanding.bind_ok, Expanding.pure_ok]

variable {s : Span} {out : List Stmt × Expansion}

/-- A block stays a block. -/
theorem Stmt.expand_block_ok {b : Block} :
    (Stmt.block b).expand c = .ok out ↔
      ∃ b' c₁, b.expandOver [] c = .ok (b', c₁) ∧ ([.block b'], c₁) = out := by
  simp only [Stmt.expand, Expanding.bind_ok, Expanding.pure_ok]

/-- Of an expression only what stands in front is left if it is a call of the script's functions. -/
theorem Stmt.expand_eval_ok {e : Expr} :
    (Stmt.eval s e).expand c = .ok out ↔
      ∃ p e' c₁, e.expand c = .ok ((p, e'), c₁)
        ∧ (if e.isScriptCall then p else p ++ [.eval s e'], c₁) = out := by
  cases hcall : e.isScriptCall with
  | true => simp only [Stmt.expand, Expanding.bind_ok, Expanding.pure_ok, Prod.exists, hcall, if_true]
  | false =>
    simp only [Stmt.expand, Expanding.bind_ok, Expanding.pure_ok, Prod.exists, hcall, Bool.false_eq_true, if_false]

/-- An assignment stands behind what is put in front of it. -/
theorem Stmt.expand_assign_ok {a : Assign} :
    (Stmt.assign a).expand c = .ok out ↔
      ∃ p a' c₁, a.expand c = .ok ((p, a'), c₁) ∧ (p ++ [.assign a'], c₁) = out := by
  simp only [Stmt.expand, Expanding.bind_ok, Expanding.pure_ok, Prod.exists]

/-- Target and value of an assignment to a member are expanded, in this order. -/
theorem Stmt.expand_assignMember_ok {t v : Expr} :
    (Stmt.assignMember s t v).expand c = .ok out ↔
      ∃ p t' c₁, t.expand c = .ok ((p, t'), c₁) ∧ ∃ q v' c₂, v.expand c₁ = .ok ((q, v'), c₂)
        ∧ (p ++ q ++ [.assignMember s t' v'], c₂) = out := by
  simp only [Stmt.expand, Expanding.bind_ok, Expanding.pure_ok, Prod.exists]

/-- What the condition puts in front stands in front of the branches. -/
theorem Stmt.expand_cond_ok {x : Expr} {t : Block} {f : Option Block} :
    (Stmt.cond s x t f).expand c = .ok out ↔
      ∃ p x' c₁, x.expand c = .ok ((p, x'), c₁) ∧ ∃ t' c₂, t.expandOver [] c₁ = .ok (t', c₂)
        ∧ ∃ f' c₃, expandElse f c₂ = .ok (f', c₃) ∧ (p ++ [.cond s x' t' f'], c₃) = out := by
  simp only [Stmt.expand, Expanding.bind_ok, Expanding.pure_ok, Prod.exists]

/-- The condition of a loop becomes a guard at the head of its body. -/
theorem Stmt.expand_loop_ok {x : Expr} {b : Block} :
    (Stmt.loop s x b).expand c = .ok out ↔
      ∃ p x' c₁, x.expand c = .ok ((p, x'), c₁) ∧ ∃ b' c₂, b.expandOver [] c₁ = .ok (b', c₂)
        ∧ ([.loop s (.literal (.int 1) x.span) (.mk [] (p ++ [guarded s x' b']) b.span)], c₂) = out := by
  simp only [Stmt.expand, Expanding.bind_ok, Expanding.pure_ok, Prod.exists]

/-- The first clause, the test, the body and the step of a loop are expanded, in this order. -/
theorem Stmt.expand_forLoop_ok {i st : Option Assign} {x : Option Expr} {b : Block} :
    (Stmt.forLoop s i x st b).expand c = .ok out ↔
      ∃ p i' c₁, expandClause i c = .ok ((p, i'), c₁) ∧ ∃ q x' c₂, expandOption x c₁ = .ok ((q, x'), c₂)
        ∧ ∃ b' c₃, b.expandOver [] c₂ = .ok (b', c₃) ∧ ∃ r st' c₄, expandClause st c₃ = .ok ((r, st'), c₄)
        ∧ (p ++ [.forLoop s i' (if testCalls x then none else x) (if stepCalls st then none else st)
          (foldedBody s x q x' b.span b' (movedStep st r st'))], c₄) = out := by
  simp only [Stmt.expand_forLoop, Expanding.bind_ok, Expanding.pure_ok, Prod.exists]

/-- What the value of a return puts in front stands in front of it. -/
theorem Stmt.expand_ret_ok {v : Expr} :
    (Stmt.ret s v).expand c = .ok out ↔
      ∃ p v' c₁, v.expand c = .ok ((p, v'), c₁) ∧ (p ++ [.ret s v'], c₁) = out := by
  simp only [Stmt.expand, Expanding.bind_ok, Expanding.pure_ok, Prod.exists]

end Forms

end AisScript
