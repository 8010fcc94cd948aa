import AisScript.Proofs.Hoisting
import AisScript.Proofs.Pieces

/-!
# What stands for calls and loops

The places where expansion moves code, one by one.  The body of a call is renamed, which changes nothing
that it does, and put in front of the statement that holds the call: its value is kept in a temporary, or
nothing is left of the call.  A test that calls functions is folded into the body of its loop, a step is
moved behind it.

* `Block.run_rename`          renamed trees do the same
* `Expr.Yields`               expressions that give values
* `Expr.Hoisted`              what expanding an expression gives
* `placeBody_hoisted`         the body of a call in front of its statement
* `forLoop_replaces`          a loop whose test and step may have moved
-/

namespace AisScript

/-! ## Renamed trees -/

section Rename

variable {M : Machine} (r : Renaming)

/-- A renaming changes no place where values are kept. -/
private theorem keyOf_apply (b : Option Binding) (n : Text) : keyOf (r.apply b n) b = keyOf n b := by
  cases b <;> rfl

/-- A renaming changes no values. -/
private theorem lookup_apply (b : Option Binding) (n : Text) : M.lookup (r.apply b n) b = M.lookup n b := by
  funext st
  simp only [Machine.lookup, keyOf_apply]

/-- A renamed assignment assigns the same. -/
private theorem assign_apply (i : AssignInfo) (v : M.Value) :
    M.assign { i with name := r.apply i.binding i.name } v = M.assign i v := by
  simp only [Machine.assign, Machine.kept, keyOf_apply]

/-- A renamed member of a variable is assigned the same. -/
private theorem assignMember_rename (t : Expr) (v : M.Value) :
    M.assignMember (t.rename r) v = M.assignMember t v := by
  unfold Machine.assignMember
  cases t with
  | member i a b n ns =>
    cases a with
    | dotted =>
      cases b with
      | var vi m c => simp only [Expr.rename, keyOf_apply]
      | _ => rfl
    | _ => rfl
  | _ => rfl

mutual

/-- A renamed expression does the same. -/
private theorem Expr.run_rename : (e : Expr) → (e.rename r).run M = e.run M
  | .const _ _ => rfl
  | .var _ n b => by simp only [Expr.rename, Expr.run, lookup_apply]
  | .binary _ _ x y => by simp only [Expr.rename, Expr.run, Expr.run_rename x, Expr.run_rename y]
  | .unary _ _ x => by simp only [Expr.rename, Expr.run, Expr.run_rename x]
  | .call _ _ _ args (.function _ _) | .call _ _ _ args (.intrinsic _)
  | .call _ _ _ args (.constructor _) | .call _ _ _ args .unresolved => by
    simp only [Expr.rename, Expr.run, runList_rename args]
  | .member _ _ b _ _ => by simp only [Expr.rename, Expr.run, Expr.run_rename b, Expr.ty?_rename]
  | .query _ _ _ _ _ _ => by simp only [Expr.rename, Expr.run]

/-- Renamed expressions do the same. -/
private theorem runList_rename : (es : List Expr) → runList M (renameList r es) = runList M es
  | [] => rfl
  | e :: es => by simp only [renameList, runList, Expr.run_rename e, runList_rename es]

end

/-- A renamed assignment does the same. -/
private theorem Assign.run_rename (a : Assign) : (a.rename r).run M = a.run M := by
  obtain ⟨i, v⟩ := a
  simp only [Assign.rename, Assign.run, Expr.run_rename r v, assign_apply]

/-- Renamed assignments do the same. -/
private theorem runAssigns_rename (as : List Assign) :
    runAssigns M (as.map (·.rename r)) = runAssigns M as := by
  induction as with
  | nil => rfl
  | cons a as ih => simp only [List.map_cons, runAssigns, Assign.run_rename r a, ih]

/-- A renamed clause does the same. -/
private theorem runClause_rename (a : Option Assign) : runClause M (a.map (·.rename r)) = runClause M a := by
  cases a with
  | none => rfl
  | some a => simp only [Option.map_some, runClause, Assign.run_rename r a]

/-- A renamed test says the same. -/
private theorem runTest_rename (e : Option Expr) : runTest M (renameOption r e) = runTest M e := by
  cases e with
  | none => rfl
  | some e => simp only [renameOption, runTest, Expr.run_rename r e]

mutual

/-- A renamed statement does the same. -/
private theorem Stmt.run_rename : (s : Stmt) → (s.rename r).run M = s.run M
  | .block b => by simp only [Stmt.rename, Stmt.run, Block.run_rename b]
  | .eval _ e | .ret _ e => by simp only [Stmt.rename, Stmt.run, Expr.run_rename r e]
  | .assign a => by simp only [Stmt.rename, Stmt.run, Assign.run_rename r a]
  | .assignMember _ t v => by
    simp only [Stmt.rename, Stmt.run, Expr.run_rename r v, assignMember_rename]
  | .cond _ c t f => by
    simp only [Stmt.rename, Stmt.run, Expr.run_rename r c, Block.run_rename t, runElse_rename f]
  | .loop _ c b => by simp only [Stmt.rename, Stmt.run, Expr.run_rename r c, Block.run_rename b]
  | .forLoop _ i c st b => by
    simp only [Stmt.rename, Stmt.run, runClause_rename, runTest_rename, Block.run_rename b]
  | .leave _ | .code _ _ | .funcDef _ _ _ _ _ | .bitfieldDef _ _ | .enumDef _ _ | .require _ _ => by
    simp only [Stmt.rename, Stmt.run]

/-- Renamed statements do the same. -/
private theorem runStmts_rename : (ss : List Stmt) → runStmts M (renameStmts r ss) = runStmts M ss
  | [] => rfl
  | s :: ss => by simp only [renameStmts, runStmts, Stmt.run_rename s, runStmts_rename ss]

/-- A renamed block does the same. -/
theorem Block.run_rename : (b : Block) → (b.rename r).run M = b.run M
  | .mk os ss _ => by
    simp only [Block.rename, Block.run, runAssigns_rename, runStmts_rename ss]

/-- A renamed else block does the same. -/
private theorem runElse_rename : (b : Option Block) → runElse M (renameElse r b) = runElse M b
  | none => rfl
  | some b => by simp only [renameElse, runElse, Block.run_rename b]

end

end Rename

/-! ## Settled statements -/

section Settled

variable {M : Machine}

/-- Statements give a value back if one of them does. -/
private theorem Run.give_of_andThen {E F : Run M (Ending M.Value)} {s s' : M.State} {v : M.Value}
    (h : E.andThen F s (.give v) s') : E s (.give v) s' ∨ ∃ s₁, F s₁ (.give v) s' := by
  obtain ⟨e, s₁, hE, hF⟩ := h
  cases e with
  | next => exact .inr ⟨s₁, hF⟩
  | leave => exact nomatch hF.1
  | give w =>
    obtain ⟨hv, rfl⟩ := hF
    exact .inl (hv ▸ hE)

/-- A loop gives a value back only if its body does. -/
private theorem Turns.give_body {T : Run M Bool} {B : Run M (Ending M.Value)} {S : Run M Unit}
    {s s' : M.State} {e : Ending M.Value} (h : Turns T B S s e s') {v : M.Value} (he : e = .give v) :
    ∃ s₁ s₂, B s₁ (.give v) s₂ := by
  induction h with
  | stop _ => exact nomatch he
  | leave _ _ => exact nomatch he
  | give _ hbody =>
    cases he
    exact ⟨_, _, hbody⟩
  | turn _ _ _ _ ih => exact ih he

mutual

/-- A settled statement gives nothing back. -/
private theorem Stmt.not_give : (st : Stmt) → SettledNodes st.nodes →
    ∀ {s s' : M.State} {v : M.Value}, ¬st.run M s (.give v) s'
  | .block b, hs, _, _, _, h => by
    -- A block gives what its statements give.
    rw [Stmt.run] at h
    exact Block.not_give b (settled_cons.1 hs).2 h
  -- Expressions and assignments end normally.
  | .eval _ _, _, _, _, _, h | .assign _, _, _, _, _, h => by
    rw [Stmt.run] at h
    obtain ⟨_, _, _, h, _⟩ := h
    exact nomatch h
  | .assignMember _ _ _, _, _, _, _, h => by
    rw [Stmt.run] at h
    obtain ⟨_, _, _, _, _, _, h, _⟩ := h
    exact nomatch h
  | .cond _ _ t none, hs, _, _, _, h => by
    rw [Stmt.run] at h
    -- Whichever branch is taken gives nothing.
    obtain ⟨v, _, _, h⟩ := h
    split at h
    · exact Block.not_give t (settled_append.1 (settled_cons.1 hs).2).2 h
    · exact nomatch h.1
  | .cond _ _ t (some f), hs, _, _, _, h => by
    obtain ⟨hct, hf⟩ := settled_append.1 (settled_cons.1 hs).2
    rw [Stmt.run] at h
    obtain ⟨v, _, _, h⟩ := h
    split at h
    · exact Block.not_give t (settled_append.1 hct).2 h
    · exact Block.not_give f hf h
  | .loop _ _ b, hs, _, _, _, h => by
    rw [Stmt.run] at h
    -- If a loop gave something, its body would.
    obtain ⟨_, _, hb⟩ := Turns.give_body h rfl
    exact Block.not_give b (settled_append.1 (settled_cons.1 hs).2).2 hb
  | .forLoop _ _ _ _ b, hs, _, _, _, h => by
    rw [Stmt.run] at h
    obtain ⟨_, _, _, h⟩ := h
    obtain ⟨_, _, hb⟩ := Turns.give_body h rfl
    exact Block.not_give b (settled_append.1 (settled_cons.1 hs).2).2 hb
  -- Returns, definitions and requires are not settled.
  | .ret _ _, hs, _, _, _, _ | .funcDef _ _ _ _ _, hs, _, _, _, _ | .require _ _, hs, _, _, _, _ =>
    (settled_cons.1 hs).1.elim
  | .leave _, _, _, _, _, h | .bitfieldDef _ _, _, _, _, _, h | .enumDef _ _, _, _, _, _, h => by
    rw [Stmt.run] at h
    exact nomatch h.1
  | .code _ _, _, _, _, _, h => by
    -- Nothing is said of what code does.
    rw [Stmt.run] at h
    exact h

/-- Settled statements give nothing back. -/
private theorem runStmts_not_give : (ss : List Stmt) → SettledNodes (stmtsNodes ss) →
    ∀ {s s' : M.State} {v : M.Value}, ¬runStmts M ss s (.give v) s'
  | [], _, _, _, _, h => nomatch h.1
  | st :: ss, hs, _, _, _, h => by
    obtain ⟨hst, hss⟩ := settled_append.1 hs
    rw [runStmts] at h
    rcases Run.give_of_andThen h with h | ⟨_, h⟩
    · exact Stmt.not_give st hst h
    · exact runStmts_not_give ss hss h

/-- A settled block gives nothing back. -/
private theorem Block.not_give : (b : Block) → SettledNodes b.nodes →
    ∀ {s s' : M.State} {v : M.Value}, ¬b.run M s (.give v) s'
  | .mk _ ss _, hs, _, _, _, h => by
    rw [Block.run] at h
    obtain ⟨_, _, _, h⟩ := h
    exact runStmts_not_give ss (settled_append.1 hs).2 h

end

end Settled

/-! ## Expressions that give values -/

/-- Whether an expression stands for a value: it is no call of a function that returns nothing, and no
operation of the host that does something. -/
def Expr.Yields : Expr → Prop
  | .call i _ _ _ (.function _ _) => i.ty ≠ some .void
  | .call _ _ _ _ (.intrinsic op) => op.speaks = false
  | _ => True

/-- An operation that does something gives nothing. -/
private theorem Intrinsic.void_of_speaks {op : Intrinsic} {types : List Ty} {t : Ty}
    (h : op.check types = .ok t) (hs : op.speaks = true) : t = .void := by
  -- An operator that speaks prints or sends its argument.
  simp only [Intrinsic.check] at h
  unfold Intrinsic.speaks at hs
  -- Its check is what the rule for its signature says.
  split at h
  case h_2 => cases h
  case h_1 hr =>
    cases h
    generalize op.signature = sig at hr hs
    cases sig with
    -- Printing takes at least one value and yields none.
    | print =>
      cases types with
      | nil => cases hr
      | cons t ts =>
        simp only [Intrinsic.resultOf] at hr
        split at hr
        · cases hr
        · exact (Except.ok.inj hr).symm
    -- A sink takes one value and yields none.
    | sink _ =>
      rcases types with _ | ⟨t, _ | ⟨u, ts⟩⟩
      · cases hr
      · simp only [Intrinsic.resultOf] at hr
        split at hr
        · exact (Except.ok.inj hr).symm
        · cases hr
      · cases hr
    | _ => cases hs

section Yields

variable {D : Dialect} {σ : Scope Entry} {lo hi k : Nat}

/-- An expression of a proper type gives a value. -/
theorem Expr.Resolved.yields {e : Expr} {t : Ty} (h : e.Resolved D σ lo hi) (ht : e.ty? = some t)
    (hp : t.isProper = true) : e.Yields := by
  unfold Expr.Yields
  -- Calls of functions and of operators may yield nothing.
  split
  · intro hvoid
    have heq := ht.symm.trans hvoid
    cases heq
    exact nomatch hp
  -- A call of an operator has the type that its check says.
  · obtain ⟨_, _, t', _, ⟨_, hcheck⟩, hty⟩ := h
    have heq := ht.symm.trans hty
    cases heq
    -- If the operator did something, its type would be void.
    cases hs : Intrinsic.speaks _ with
    | false => rfl
    | true =>
      obtain rfl := Intrinsic.void_of_speaks hcheck hs
      exact nomatch hp
  · trivial

mutual

/-- A resolved expression looks at variables that are bound already. -/
private theorem Expr.looksAt_lt (hσ : Sound D k σ) {lo hi : Nat} : (e : Expr) → e.Resolved D σ lo hi →
    ∀ id ∈ e.looksAt, id < k
  | .const _ _, _ => nofun
  -- A variable that is read is visible, so it is bound under a smaller number.
  | .var _ n b, ⟨_, _, c, hn, hb, _⟩ => by
    rw [Expr.looksAt, hb]
    intro id hid
    rw [Option.map_some, Option.toList_some, List.mem_singleton] at hid
    exact hid ▸ (hσ.reached (.here hn)).1
  | .binary _ _ l r, ⟨_, _, _, _, hl, _, hr, _⟩ =>
    List.forall_mem_append.2 ⟨Expr.looksAt_lt hσ l hl, Expr.looksAt_lt hσ r hr⟩
  | .unary _ _ x, ⟨_, _, hx, _⟩ => Expr.looksAt_lt hσ x hx
  -- A call of a function is looked at no more, as its value is held in a temporary.
  | .call _ _ _ _ (.function _ _), _ => nofun
  | .call _ _ _ args .unresolved, ⟨_, _, _, ha, _⟩ | .call _ _ _ args (.intrinsic _), ⟨_, _, _, ha, _⟩
  | .call _ _ _ args (.constructor _), ⟨_, _, _, ha, _⟩ => looksAtList_lt hσ args ha
  | .member _ _ b _ _, ⟨_, _, hb, _⟩ => Expr.looksAt_lt hσ b hb
  -- A query reads no variables itself.
  | .query _ _ _ _ _ _, _ => nofun

/-- Resolved arguments look at variables that are bound already. -/
theorem looksAtList_lt (hσ : Sound D k σ) {lo hi : Nat} {types : List Ty} : (es : List Expr) →
    ResolvedArgs D σ lo hi types es → ∀ id ∈ looksAtList es, id < k
  | [], _ => nofun
  | e :: es, ⟨_, _, _, _, he, _, _, hes⟩ =>
    List.forall_mem_append.2 ⟨Expr.looksAt_lt hσ e he, looksAtList_lt hσ es hes⟩

end

/-- What expanding a resolved expression gives is settled. -/
theorem Expr.Resolved.settled {e e' : Expr} {p : List Stmt} {c c' : Expansion}
    (h : e.Resolved D σ lo hi) (hex : e.expand c = .ok ((p, e'), c')) :
    SettledNodes (stmtsNodes p) ∧ e'.ty? = e.ty?
      ∧ ((e.isScriptCall = true → e.ty? ≠ some .void) → e'.Settled) := by
  obtain ⟨_, _, _, hex', hp, hty, hs⟩ := Expr.expand_settled e h c
  cases hex.symm.trans hex'
  exact ⟨hp, hty, hs⟩

end Yields

/-- The value that a temporary begins with is known. -/
private theorem zeroOf_run {M : Machine} {t : Ty} {sp : Span} {zero : Expr} (h : zeroOf t sp = .ok zero) :
    ∃ z, zero.run M = pure z := by
  cases t with
  | int | float | string | bitfield _ =>
    cases h
    exact ⟨_, rfl⟩
  | object =>
    cases h
    refine ⟨M.operation .object [M.literal (some .int) (.int 0)], ?_⟩
    simp only [Expr.run, runList, Expr.literal, pure_bind, Machine.perform]
    rfl
  | _ => exact nomatch h

/-! ## Operators -/

section Operators

variable {M : Machine}

/-- What an operator makes of its operands, the right one of a connective counting only if needed. -/
def Machine.connected (M : Machine) (op : BinaryOp) (a b : M.Value) : M.Value :=
  match op.decided? (M.truth a) with
  | some known => M.ofBool known
  | none => M.binary op a b

/-- An operator may evaluate both operands, if it is no connective or the right one does nothing. -/
theorem connect_eq {op : BinaryOp} {R : Run M M.Value}
    (h : op.isLogical = false ∨ ∃ f, R = Run.reads f) (a : M.Value) :
    M.connect op a R = (do let b ← R; pure (M.connected op a b)) := by
  cases hknown : op.decided? (M.truth a) with
  | none => simp only [Machine.connect, Machine.connected, hknown]
  | some known =>
    simp only [Machine.connect, Machine.connected, hknown]
    rcases h with hop | ⟨f, rfl⟩
    · have hnone : op.decided? (M.truth a) = none := by
        cases op <;> first | rfl | cases hop
      exact nomatch hknown.symm.trans hnone
    · rw [Run.reads_pure f fun _ => M.ofBool known]
      rfl

end Operators

/-! ## Calls -/

section Calls

variable {M : Machine} {binds : List Assign} {ids : List Nat} {lo mid hi : Nat}

/-- Renaming the contested names of a body changes nothing that is done. -/
theorem freshened_run {b b' : Block} {c c' : Expansion} (h : freshened b c = .ok (b', c')) :
    c'.temps = c.temps ∧ runAssigns M b'.overrides = runAssigns M b.overrides
      ∧ ∀ E, Replaces (M := M) E b.stmts lo hi → Replaces E b'.stmts lo hi := by
  -- Only names change, and no temporaries are taken.
  obtain ⟨rfl, htemps⟩ : b' = (b.freshen c.renamed).1 ∧ c'.temps = c.temps := by
    cases h
    exact ⟨rfl, rfl⟩
  refine ⟨htemps, ?_⟩
  simp only [Block.freshen]
  -- With nothing to rename the body stays, and otherwise all uses are renamed alike.
  split
  · exact ⟨rfl, fun _ hE => hE⟩
  · obtain ⟨os, ss, sp⟩ := b
    refine ⟨runAssigns_rename _ os, fun E hE => ⟨⟨hE.temps.le, fun k hk st hst => ?_⟩, ?_⟩⟩
    -- A renamed statement runs as it ran, so it leaves the same temporaries alone.
    · rw [Block.rename, Block.stmts, renameStmts_eq_map] at hst
      obtain ⟨st₀, hst₀, rfl⟩ := List.mem_map.1 hst
      rw [Stmt.run_rename]
      exact hE.temps.spares k hk st₀ hst₀
    -- The renamed statements run as those they come from.
    · rw [Block.rename, Block.stmts, runStmts_rename]
      exact hE.sim

/-- Settled statements that leave no loop can only be followed by the next one. -/
private theorem follows_of_settled {ss : List Stmt} (hs : SettledNodes (stmtsNodes ss))
    (hl : ∀ s s', ¬runStmts M ss s .leave s') : Follows M ss := by
  intro s e s' h
  cases e with
  | next => rfl
  | leave => exact (hl s s' h).elim
  | give v => exact (runStmts_not_give ss hs h).elim

/-- What expanding an expression gives: a front and a lookup if the expression gives a value, and in any
case statements that do what evaluating the expression does. -/
structure Expr.Hoisted (M : Machine) (e : Expr) (p : List Stmt) (e' : Expr) (lo hi : Nat) :
    Prop where
  value : e.Yields → Hoists (e.run M) e.looksAt p (e'.run M) lo hi
  stmt : ∀ s, Replaces (do let _ ← e.run M; pure .next) (if e.isScriptCall then p else p ++ [.eval s e']) lo hi

/-- A front and a lookup give both. -/
theorem Expr.Hoisted.of_hoists {e e' : Expr} {p : List Stmt}
    (h : Hoists (e.run M) e.looksAt p (e'.run M) lo hi) : e.Hoisted M p e' lo hi := by
  refine ⟨fun _ => h, fun s => ?_⟩
  split
  · exact h.drop
  · exact h.stmt (Nat.le_refl hi) (L := fun _ => pure .next) (by rw [Stmt.run]) (fun _ => Sim.pure _)
      fun _ _ _ => Run.Fixes.pure _

/-- The body of a call, put in front of the statement that holds the call. -/
theorem placeBody_hoisted {i : ExprInfo} {n : Text} {ns : Span} {args args' : List Expr}
    {body body' : Block} {call e' : Expr} {p q : List Stmt} {c c' : Expansion}
    (hargs : Hoists (runList M args) ids p (runList M args') lo mid)
    (hover : runAssigns M body'.overrides = (do let vs ← runList M args'; M.bindAll binds vs))
    (hbound : ∀ b ∈ binds, ∃ c, b.info.binding = some c)
    (hbody : Replaces (body.run M) body'.stmts mid c.temps) (hcalm : body.isCalm false = true)
    (hplace : placeBody call body' c = .ok ((q, e'), c')) (hcall : call.isScriptCall = true)
    (hsettled : SettledNodes (stmtsNodes q)) (hvalue : i.ty ≠ some .void → e'.Settled) :
    Expr.Hoisted M (.call i n ns args (.function binds body)) (p ++ q) e' lo c'.temps := by
  -- A called body leaves no loop, so what it expands to leaves none.
  have hleave : ∀ s s', ¬runStmts M body'.stmts s .leave s' := by
    intro s s' h
    obtain ⟨_, hrun, _⟩ := hbody.sim.back (.refl s) h
    cases Block.inLoop_of_leave body hcalm hrun
  -- The body returns a value, which is assigned to a temporary, or it does not.
  rcases placeBody_cases hplace with ⟨fr, sp, v, t, zero, hstmts, hz, rfl, rfl, rfl⟩ | ⟨rfl, rfl, rfl⟩
  -- The front of the body is settled and leaves no loop, so what follows it is run.
  · have hfr : Follows M fr := by
      refine follows_of_settled ?_ fun s s' h => hleave s s' ?_
      · simp only [placed, stmtsNodes, Stmt.nodes, Block.nodes, List.append_nil, stmtsNodes_append] at hsettled
        exact (settled_append.1 (settled_append.1 (settled_cons.1 (settled_append.1 hsettled).2).2).2).1
      · rw [hstmts, runStmts_append]
        exact ⟨.leave, s', h, rfl, rfl⟩
    -- The zero value of the temporary can be evaluated.
    obtain ⟨z, hz⟩ := zeroOf_run (M := M) hz
    -- The arguments, the parameters, the body and the assignment in a row.
    have hhoists := hargs.placed call hover hbound hbody hstmts hfr hz
    rw [← Expr.run] at hhoists
    exact .of_hoists hhoists
  · refine ⟨fun hyields => ?_, fun _ => ?_⟩
    -- Without a returned value, the call has none, so nothing can be read of it.
    · have hhead := hvalue hyields e' (by cases e' <;> exact List.mem_cons_self)
      cases e' with
      | call i n ns args t =>
        cases t with
        | function _ _ => exact hhead.2.elim
        | _ => cases hcall
      | _ => cases hcall
    -- The body stands in front as a block, and the call is dropped.
    · simp only [stmtsNodes_singleton, Stmt.nodes] at hsettled
      obtain ⟨os, ss, sp⟩ := body'
      have hss := (settled_append.1 (settled_cons.1 hsettled).2).2
      -- It does what the call did.
      have hreplaces := hargs.block hover hbound hbody (follows_of_settled hss hleave)
      rw [Expr.run]
      simp only [bind_assoc]
      exact hreplaces

end Calls

/-! ## Loops -/

section Loops

variable {M : Machine} {ids : List Nat} {lo mid hi : Nat}

/-- A loop whose test is folded into its body and whose step is moved behind it, or one of both. -/
private theorem Run.loop_folded (t u : Bool) (T : Run M Bool) (B : Run M (Ending M.Value)) (S : Run M Unit) :
    Run.loop T B S = Run.loop (if t then pure true else T)
      (Run.andThen (if t then (do let b ← T; if b then B else pure .leave) else B)
        (if u then (do S; pure .next) else pure .next))
      (if u then pure () else S) := by
  -- First the test moves to the front of the body, where it leaves the loop.
  have hguard : Run.loop T B S = Run.loop (if t then pure true else T)
      (if t then (do let b ← T; if b then B else pure .leave) else B) S := by
    cases t with
    | true => exact Run.loop_guard T B S
    | false => rfl
  rw [hguard]
  -- Then the step moves behind the body.
  cases u with
  | true => exact Run.loop_step _ _ S
  | false => simp only [Bool.false_eq_true, if_false, Run.andThen_next]

/-- A block of statements without overrides. -/
theorem Block.run_mk_nil (ss : List Stmt) (sp : Span) : (Block.mk [] ss sp).run M = runStmts M ss := by
  rw [Block.run, runAssigns, pure_bind]

/-- A test folded into a body. -/
theorem guarded_replaces {e e' : Expr} {q ss : List Stmt} {B : Run M (Ending M.Value)} (s sp : Span)
    (hT : Hoists (runTest M (some e)) ids q (runTest M (some e')) lo mid) (hB : Replaces B ss mid hi) :
    Replaces (do let b ← runTest M (some e); if b then B else pure .leave)
      (q ++ [guarded s e' (.mk [] ss sp)]) lo hi := by
  have hleave : (leaveBlock s).run M = pure .leave := by
    rw [leaveBlock, Block.run_mk_nil, runStmts_singleton, Stmt.run]
  refine hT.stmt hB.temps.le (L := fun b => if b then runStmts M ss else pure .leave) ?_ (fun b => ?_)
    fun b k hk => ?_
  · simp only [guarded, Stmt.run, runElse, runTest, hleave, Block.run_mk_nil, bind_assoc, pure_bind]
  · exact Sim.ite b hB.sim (Sim.pure _)
  · cases b with
    | true => exact hB.temps.runStmts hk
    | false => exact Run.Fixes.pure _

/-- An assignment with what stands in front of its value. -/
structure Leading (E : Run M Unit) (p : List Stmt) (E' : Run M Unit) (lo hi : Nat) : Prop where
  temps : TempsIn M p lo hi
  follows : Follows M p
  sim : Sim E (do front M p; E')
  spares : ∀ k, Run.Fixes E' (.temp (tempName k))

/-- An assignment as a statement. -/
theorem Leading.replaces {a' : Assign} {E : Run M Unit} {p : List Stmt}
    (h : Leading E p (a'.run M) lo hi) : Replaces (do E; pure .next) (p ++ [.assign a']) lo hi := by
  have hrun : (Stmt.assign a').run M = (do a'.run M; pure .next) := by rw [Stmt.run]
  refine ⟨h.temps.append (TempsIn.single (Nat.le_refl hi) fun k _ => ?_), ?_⟩
  · rw [hrun]
    exact (h.spares k).bind fun _ => Run.Fixes.pure _
  · have hsim := h.sim.bind fun _ => Sim.pure (Ending.next : Ending M.Value)
    rw [bind_assoc] at hsim
    rwa [h.follows.runStmts_append, runStmts_singleton, hrun]

/-- What is left of a clause is there if the clause is. -/
private theorem isSome_of_expandClause {st st' : Option Assign} {r : List Stmt} {c c' : Expansion}
    (h : expandClause st c = .ok ((r, st'), c')) : st'.isSome = st.isSome := by
  cases st with
  | none =>
    cases h
    rfl
  | some a =>
    obtain ⟨_, _, _, _, ⟨⟩⟩ := expandClause_some_ok.1 h
    rfl

/-- The step of a loop, behind its body if it moves there. -/
private theorem movedStep_replaces {st st' : Option Assign} {r : List Stmt} {c c' : Expansion}
    (hex : expandClause st c = .ok ((r, st'), c'))
    (h : Leading (runClause M st) r (runClause M st') c.temps c'.temps) :
    Replaces (M := M) (if stepCalls st then (do runClause M st; pure .next) else pure .next)
      (movedStep st r st') c.temps c'.temps := by
  have hsome := isSome_of_expandClause hex
  unfold movedStep
  -- The step moves if a function is called in it.
  cases hcalls : stepCalls st with
  -- An expanded step is there if the step is.
  | true =>
    cases st' with
    | none =>
      cases st with
      | none => exact nomatch hcalls
      | some _ => exact nomatch hsome
    | some a' => exact Leading.replaces h
  -- A step that stays is expanded to itself, and nothing is behind the body.
  | false =>
    rw [expandClause_of_not_stepCalls hcalls] at hex
    cases hex
    exact ⟨TempsIn.nil, Sim.pure _⟩

/-- A step that stays in its header does what it did there. -/
private theorem stayingStep {st st' : Option Assign} {r : List Stmt} {c c' : Expansion}
    (hex : expandClause st c = .ok ((r, st'), c'))
    (h : Leading (runClause M st) r (runClause M st') c.temps c'.temps) :
    Sim (if stepCalls st then pure () else runClause M st) (runClause M (if stepCalls st then none else st))
      ∧ ∀ k, Run.Fixes (runClause M (if stepCalls st then none else st)) (.temp (tempName k)) := by
  cases hcalls : stepCalls st with
  | true => exact ⟨Sim.pure (), fun _ => Run.Fixes.pure ()⟩
  | false =>
    rw [expandClause_of_not_stepCalls hcalls] at hex
    cases hex
    have hsim := h.sim
    rw [front_nil, pure_bind] at hsim
    exact ⟨hsim, h.spares⟩

/-- A test that stays in its header says what it said there. -/
private theorem stayingTest {x x' : Option Expr} {q : List Stmt} {c c' : Expansion}
    (hex : expandOption x c = .ok ((q, x'), c'))
    (h : Hoists (runTest M x) ids q (runTest M x') c.temps c'.temps) :
    Sim (if testCalls x then pure true else runTest M x) (runTest M (if testCalls x then none else x))
      ∧ ∀ k, Run.Fixes (runTest M (if testCalls x then none else x)) k := by
  cases hcalls : testCalls x with
  | true => exact ⟨Sim.pure true, fun _ => Run.Fixes.pure true⟩
  | false =>
    rw [expandOption_of_not_testCalls hcalls] at hex
    cases hex
    have hsim := h.sim
    rw [front_nil, pure_bind] at hsim
    exact ⟨hsim, h.value.fixes⟩

/-- The body of a loop with its test in front, if it moves there. -/
private theorem foldedBody_replaces {x x' : Option Expr} {q ss last : List Stmt}
    {B F : Run M (Ending M.Value)}
    {c₁ c₂ : Expansion} (s span sp : Span) (hex : expandOption x c₁ = .ok ((q, x'), c₂))
    (hx : Hoists (runTest M x) ids q (runTest M x') c₁.temps c₂.temps) (hB : Replaces B ss c₂.temps mid)
    (hlast : Replaces F last mid hi) :
    ∃ ts sp', foldedBody s x q x' span (.mk [] ss sp) last = .mk [] ts sp'
      ∧ Replaces (Run.andThen (if testCalls x then (do let b ← runTest M x; if b then B else pure .leave) else B)
          F) ts c₁.temps hi := by
  unfold foldedBody
  -- The test moves if a function is called in it.
  cases hcalls : testCalls x with
  | true =>
    cases x with
    | none => exact nomatch hcalls
    -- What stands in front of the test comes first, then the test, then the body.
    | some e =>
      obtain ⟨_, e', _, _, ⟨⟩⟩ := expandOption_some_ok.1 hex
      exact ⟨_, _, rfl, (guarded_replaces s sp hx hB).append hlast⟩
  -- A test that stays is expanded to itself, with nothing in front.
  | false =>
    rw [expandOption_of_not_testCalls hcalls] at hex
    cases hex
    exact ⟨_, _, rfl, hB.append hlast⟩

/-- A loop whose header is expanded. -/
theorem forLoop_replaces {i i' st st' : Option Assign} {x x' : Option Expr} {p q r ss : List Stmt}
    {b : Block} {lo₁ : Nat} {c₁ c₂ c₃ c₄ : Expansion} (s span sp : Span)
    (hi : Leading (runClause M i) p (runClause M i') lo₁ c₁.temps)
    (hex : expandOption x c₁ = .ok ((q, x'), c₂))
    (hx : Hoists (runTest M x) ids q (runTest M x') c₁.temps c₂.temps)
    (hb : Replaces (b.run M) ss c₂.temps c₃.temps) (hest : expandClause st c₃ = .ok ((r, st'), c₄))
    (hst : Leading (runClause M st) r (runClause M st') c₃.temps c₄.temps) :
    Replaces ((Stmt.forLoop s i x st b).run M)
      (p ++ [.forLoop s i' (if testCalls x then none else x) (if stepCalls st then none else st)
        (foldedBody s x q x' span (.mk [] ss sp) (movedStep st r st'))]) lo₁ c₄.temps := by
  -- Test and step stay as they are, or they move and leave nothing.
  obtain ⟨hsim, hfix⟩ := stayingTest hex hx
  obtain ⟨hsim', hfix'⟩ := stayingStep hest hst
  obtain ⟨ts, sp', hfolded, hbody⟩ := foldedBody_replaces s span sp hex hx hb (movedStep_replaces hest hst)
  rw [hfolded]
  -- No statement of the loop touches a temporary that was taken before.
  refine ⟨hi.temps.append (TempsIn.single hbody.temps.le fun k hk => ?_), ?_⟩
  · rw [Stmt.run, Block.run_mk_nil]
    exact (hi.spares k).bind fun _ => Run.Fixes.loop (hfix _) (hbody.temps.runStmts hk) (hfix' k)
  -- First the clause in front, and then the loop with the folded body.
  · rw [hi.follows.runStmts_append, runStmts_singleton, Stmt.run, Stmt.run, Block.run_mk_nil,
      Run.loop_folded (testCalls x) (stepCalls st)]
    -- The parts of the loop simulate each other one by one.
    have hall := hi.sim.bind fun _ => Sim.loop hsim hbody.sim hsim'
    rwa [bind_assoc] at hall

end Loops

/-! ## Members of variables -/

section Members

variable {M : Machine}

/-- An assignment to a member of a variable on both sides. -/
theorem Sim.assignMember (i j : ExprInfo) (n m : Text) (b : Binding) (ns : Span) (v : M.Value) :
    let t : Expr := .member i .dotted (.var j n (some b)) m ns
    Sim (M.assignMember t v) (M.assignMember t v) := by
  refine Sim.writes fun s t h => ?_
  have hkey : s.store (.variable b.id) = t.store (.variable b.id) := h.2 b.id
  simp only [keyOf, hkey]
  exact h.set _ _

/-- An assignment to a member of a variable changes no temporary. -/
theorem fixes_assignMember_temp (i j : ExprInfo) (n m : Text) (b : Binding) (ns : Span) (v : M.Value)
    (k : Text) : Run.Fixes (M.assignMember (.member i .dotted (.var j n (some b)) m ns) v) (.temp k) := by
  have hne : Key.temp k ≠ .variable b.id := nofun
  exact Run.Fixes.set hne _

end Members

end AisScript
