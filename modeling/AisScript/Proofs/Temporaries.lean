import AisScript.Proofs.Prepending

/-!
# Temporaries are used linearly

Expansion makes up one temporary for each call that it replaces whose function ends with a return.  In the
expanded program each of them is used linearly.

* `Expr.inlined`, `Block.inlined`   the calls that expansion replaces, in order
* `Expr.expand_prepends`            what stands in front of an expanded expression
* `Block.expand_linear`             temporaries of an expanded program
-/

namespace AisScript

/-! ## Calls -/

mutual

/-- The calls of the script's functions in an expression, in the order in which expansion replaces them: the
name of each, and whether its function ends with a return. -/
def Expr.inlined : Expr → List (Text × Bool)
  | .const _ _ | .var _ _ _ => []
  | .binary _ _ l r => l.inlined ++ r.inlined
  | .unary _ _ x => x.inlined
  | .member _ _ b _ _ => b.inlined
  | .query _ _ _ u x c => inlinedOption u ++ inlinedOption x ++ inlinedOption c
  | .call _ n _ args (.function _ body) =>
    inlinedList args ++ (n, body.returned?.isSome) :: body.inlined
  | .call _ _ _ args _ => inlinedList args

/-- The calls in expressions. -/
def inlinedList : List Expr → List (Text × Bool)
  | [] => []
  | e :: es => e.inlined ++ inlinedList es

/-- The calls in an expression that may be absent. -/
def inlinedOption : Option Expr → List (Text × Bool)
  | none => []
  | some e => e.inlined

/-- The calls in an assignment. -/
def Assign.inlined : Assign → List (Text × Bool)
  | .mk _ v => v.inlined

/-- The calls in a clause that may be absent. -/
def inlinedClause : Option Assign → List (Text × Bool)
  | none => []
  | some a => a.inlined

/-- The calls in a statement. -/
def Stmt.inlined : Stmt → List (Text × Bool)
  | .block b => b.inlined
  | .eval _ e | .ret _ e => e.inlined
  | .assign a => a.inlined
  | .assignMember _ t v => t.inlined ++ v.inlined
  | .cond _ c t f => c.inlined ++ t.inlined ++ inlinedElse f
  | .loop _ c b => c.inlined ++ b.inlined
  | .forLoop _ i c st b => inlinedClause i ++ inlinedOption c ++ b.inlined ++ inlinedClause st
  | .leave _ | .code _ _ | .bitfieldDef _ _ | .enumDef _ _ | .funcDef _ _ _ _ _ | .require _ _ => []

/-- The calls in statements. -/
def inlinedStmts : List Stmt → List (Text × Bool)
  | [] => []
  | s :: ss => s.inlined ++ inlinedStmts ss

/-- The calls in a block. -/
def Block.inlined : Block → List (Text × Bool)
  | .mk _ ss _ => inlinedStmts ss

/-- The calls in an else block that may be absent. -/
def inlinedElse : Option Block → List (Text × Bool)
  | none => []
  | some b => b.inlined

end

/-! ## The expansion -/

mutual

/-- What expanding an expression puts in front of it. -/
theorem Expr.expand_prepends {D : Dialect} {σ : Scope Entry} {lo hi : Nat} : (e : Expr) →
    e.Resolved D σ lo hi → ∀ {c p e' c'}, e.expand c = .ok ((p, e'), c') →
      Prepends [] c c' e.inlined p e'.temps
  | .const i v, _, _, _, _, _, he => by
    -- A constant reads no temporary.
    cases he
    exact .nil
  | .var i n b, h, _, _, _, _, he => by
    -- A variable of the program has a binding, so it is no temporary.
    cases he
    obtain ⟨_, _, _, _, rfl, _⟩ := h
    exact .nil
  | .binary i op l r, h, _, _, _, _, he => by
    -- Both operands, one behind the other.
    obtain ⟨mid, _, _, _, hl, _, hr, _⟩ := h
    obtain ⟨p, l', c₁, hl', q, r', c₂, hr', ⟨⟩⟩ := Expr.expand_binary_ok.1 he
    have happend := (Expr.expand_prepends l hl hl').append (Expr.expand_prepends r hr hr')
    rwa [Expr.temps, Expr.temps, ← List.filterMap_append] at happend
  | .unary i op x, h, _, _, _, _, he => by
    obtain ⟨_, _, hx, _⟩ := h
    obtain ⟨p, x', c₁, hx', ⟨⟩⟩ := Expr.expand_unary_ok.1 he
    -- An operator reads what its operand reads.
    have hp := Expr.expand_prepends x hx hx'
    exact hp
  | .member i a b n ns, h, _, _, _, _, he => by
    -- A member reads what its base reads.
    obtain ⟨_, _, hb, _⟩ := h
    obtain ⟨p, b', c₁, hb', ⟨⟩⟩ := Expr.expand_member_ok.1 he
    have hp := Expr.expand_prepends b hb hb'
    exact hp
  | .query i k op u x q, h, _, _, _, _, he => by
    -- The three parts of a query, one behind the other.
    obtain ⟨m₁, m₂, hu, hx, hq, _⟩ := h
    obtain ⟨pu, u', c₁, hu', px, x', c₂, hx', pq, q', c₃, hq', ⟨⟩⟩ := Expr.expand_query_ok.1 he
    have happend := ((expandOption_prepends u hu hu').append (expandOption_prepends x hx hx')).append
      (expandOption_prepends q hq hq')
    rwa [← List.filterMap_append, ← List.filterMap_append] at happend
  | .call i n ns args (.function binds body), h, _, _, _, _, he => by
    -- A call of a function: the arguments, then the body in its place.
    obtain ⟨mid, types, t, hargs, ⟨params, template, captured, _, hlen, rfl, hbody, rfl⟩, _⟩ := h
    obtain ⟨p, args', c₁, hargs', body', c₃, hbody', body'', c₄, hfresh, q, e, c₅, hplace, ⟨⟩⟩ :=
      Expr.expand_call_ok.1 he
    -- The arguments, then the body; the function is noted in front of those that its body calls.
    have hp := expandList_prepends args hargs hargs'
    obtain ⟨hover, hb⟩ := Block.expandOver_prepends body hbody hbody'
    -- As many arguments are left as there were, and the body ends as it did.
    obtain ⟨_, _, _, hargs₁, _, htys, _⟩ := expandList_settled args hargs _
    cases hargs'.symm.trans hargs₁
    have hlen' : args'.length = args.length := by simpa using congrArg List.length htys
    obtain ⟨_, _, hbody₁, hends⟩ := Block.expandOver_settled body hbody _ _
    cases hbody'.symm.trans hbody₁
    -- Renaming changes no temporaries, and notes nothing.
    obtain ⟨r, rfl, htold, htemps⟩ := freshened_eq hfresh
    -- The parameters are bound, so they read what their arguments read.
    have hbinds : ∀ a ∈ numberBinds mid (bindArguments params args), a.info.binding.isSome = true := by
      intro a ha
      obtain ⟨_, b, hb, _⟩ := numberBinds_declare mid params args a ha
      rw [hb]
      rfl
    have hreads := tempUses_overrides
      ((length_numberBinds mid params args hlen).trans hlen'.symm) hbinds
    rw [← tempUses_rename r, ← flatMap_nodes_rename] at hreads
    -- Renamed or not, the body returns if the function does.
    have hreturns := (Block.returned?_rename r (.mk (bindExpanded (numberBinds mid (bindArguments params args))
      args') _ body.span)).trans hends.returned?
    rw [Expr.inlined, ← hreturns]
    exact hp.replaced (hb.enclose.rename r htold htemps) hreads rfl hplace
  | .call i n ns args .unresolved, h, _, _, _, _, _ => by
    -- Every call of an accepted program is resolved.
    obtain ⟨_, _, _, _, h, _⟩ := h
    exact h.elim
  | .call i n ns args (.intrinsic op), h, _, _, _, _, he
  | .call i n ns args (.constructor op), h, _, _, _, _, he => by
    -- The host's calls stay, so only their arguments count.
    obtain ⟨mid, _, _, hargs, _, _⟩ := h
    obtain ⟨p, args', c₁, hargs', ⟨⟩⟩ := (Expr.expand_keptCall_ok rfl).1 he
    exact expandList_prepends args hargs hargs'
  termination_by structural e => e

/-- What expanding arguments puts in front of them. -/
private theorem expandList_prepends {D : Dialect} {σ : Scope Entry} {lo hi : Nat} {types : List Ty} :
    (es : List Expr) → ResolvedArgs D σ lo hi types es → ∀ {c p es' c'},
      expandList es c = .ok ((p, es'), c') →
        Prepends [] c c' (inlinedList es) p ((nodesOfList es').filterMap Expr.temp?)
  | [], _, _, _, _, _, he => by
    -- Nothing stands in front of no arguments.
    cases he
    exact .nil
  | e :: es, ⟨mid, _, _, _, he, _, _, hes⟩, _, _, _, _, h => by
    -- The first argument, and the others behind it.
    obtain ⟨p, e', c₁, he', q, es', c₂, hes', ⟨⟩⟩ := expandList_cons_ok.1 h
    have happend := (Expr.expand_prepends e he he').append (expandList_prepends es hes hes')
    rwa [Expr.temps, ← List.filterMap_append] at happend
  termination_by structural es => es

/-- What expanding an expression that may be absent puts in front of it. -/
private theorem expandOption_prepends {D : Dialect} {σ : Scope Entry} {lo hi : Nat} :
    (e : Option Expr) → ResolvedOption D σ lo hi e → ∀ {c p e' c'},
      expandOption e c = .ok ((p, e'), c') →
        Prepends [] c c' (inlinedOption e) p ((nodesOfOption e').filterMap Expr.temp?)
  | none, _, _, _, _, _, he => by
    cases he
    exact .nil
  | some e, ⟨h, _⟩, _, _, _, _, he => by
    obtain ⟨p, e', c₁, he', ⟨⟩⟩ := expandOption_some_ok.1 he
    exact Expr.expand_prepends e h he'
  termination_by structural e => e

/-- What expanding an assignment puts in front of it, and what the assignment reads then. -/
theorem Assign.expand_prepends {D : Dialect} {σ : Scope Entry} {lo hi : Nat} :
    (a : Assign) → a.Resolved D σ lo hi → ∀ {c p a' c'}, a.expand c = .ok ((p, a'), c') →
      ∃ left, Prepends [] c c' a.inlined p left ∧ tempUses a'.nodes = left.map .read
  | .mk i v, h, _, _, _, _, ha => by
    -- The value comes first.
    obtain ⟨p, v', c₁, hv', ⟨⟩⟩ := Assign.expand_ok.1 ha
    obtain ⟨mid, t, _, _, hv, _, _, hdeclares, hassigns⟩ := h
    -- Whether it declares or not, a resolved assignment has a binding.
    have hbound : i.binding.isSome = true := by
      cases hd : i.declares with
      | true =>
        obtain ⟨_, hb, _⟩ := hdeclares hd
        rw [hb]
        rfl
      | false =>
        obtain ⟨_, _, _, hb, _⟩ := hassigns hd
        rw [hb]
        rfl
    exact ⟨v'.temps, Expr.expand_prepends v hv hv', tempUses_bound hbound⟩

/-- What expanding a clause that may be absent puts in front of it, and what the clause reads then. -/
private theorem expandClause_prepends {D : Dialect} {σ : Scope Entry} {lo hi : Nat} :
    (a : Option Assign) → ResolvedClause D σ lo hi a → ∀ {c p a' c'},
      expandClause a c = .ok ((p, a'), c') →
        ∃ left, Prepends [] c c' (inlinedClause a) p left ∧ tempUses (clauseNodes a') = left.map .read
  | none, _, _, _, _, _, ha => by
    cases ha
    exact ⟨[], .nil, rfl⟩
  | some a, h, _, _, _, _, ha => by
    obtain ⟨p, a', c₁, ha', ⟨⟩⟩ := expandClause_some_ok.1 ha
    exact Assign.expand_prepends a h ha'

/-- What expanding a statement gives. -/
theorem Stmt.expand_prepends {D : Dialect} {σ : Scope Entry} {lo hi : Nat} {last : Bool} :
    (s : Stmt) → s.Resolved D σ lo hi last → ∀ {c ss c'}, s.expand c = .ok (ss, c') →
      Prepends [] c c' s.inlined ss []
  | .block b, h, _, _, _, hs => by
    -- The block holds what its statements hold, and leaves nothing to read.
    obtain ⟨b', c₁, hb', ⟨⟩⟩ := Stmt.expand_block_ok.1 hs
    obtain ⟨hover, hb⟩ := Block.expandOver_prepends b h hb'
    exact (hb.block hover).stmt .nil (List.Perm.refl _) (List.Subset.refl _) (List.nil_subset _)
  | .eval sp e, h, _, _, _, hs => by
    -- The expression is expanded in front.
    obtain ⟨p, e', c₁, he', hs⟩ := Stmt.expand_eval_ok.1 hs
    have hp := Expr.expand_prepends e h he'
    -- A call that was put in place leaves nothing to say, and any other expression stays.
    split at hs <;> cases hs
    · exact hp.forget
    · exact hp.plain (tempUses_exprNodes e')
  | .assign a, h, _, _, _, hs => by
    -- The value comes in front of the assignment.
    obtain ⟨p, a', c₁, ha', ⟨⟩⟩ := Stmt.expand_assign_ok.1 hs
    obtain ⟨_, hp, ha⟩ := Assign.expand_prepends a h ha'
    exact hp.plain ha
  | .assignMember sp t v, h, _, _, _, hs => by
    -- Target and value, one behind the other.
    obtain ⟨mid, _, _, ht, _, hv, _⟩ := h
    obtain ⟨p, t', c₁, ht', q, v', c₂, hv', ⟨⟩⟩ := Stmt.expand_assignMember_ok.1 hs
    refine ((Expr.expand_prepends t ht ht').append (Expr.expand_prepends v hv hv')).plain ?_
    rw [Stmt.nodes, tempUses_cons, tempUses_append, tempUses_exprNodes, tempUses_exprNodes, List.map_append]
    rfl
  | .cond sp x t f, h, _, _, _, hs => by
    -- The condition comes first, and both branches behind it.
    obtain ⟨m₁, m₂, _, hx, _, _, ht, hf⟩ := h
    obtain ⟨p, x', c₁, hx', t', c₂, ht', f', c₃, hf', ⟨⟩⟩ := Stmt.expand_cond_ok.1 hs
    obtain ⟨hover, ht⟩ := Block.expandOver_prepends t ht ht'
    have hcond := (Expr.expand_prepends x hx hx').cond sp (ht.block hover)
      (expandElse_encloses f hf hf')
    rwa [← List.append_assoc] at hcond
  | .loop sp x b, h, _, _, _, hs => by
    -- The condition moves into the body, with what stands in front of it.
    obtain ⟨mid, _, hx, _, _, hb⟩ := h
    obtain ⟨p, x', c₁, hx', b', c₂, hb', ⟨⟩⟩ := Stmt.expand_loop_ok.1 hs
    obtain ⟨hover, hb⟩ := Block.expandOver_prepends b hb hb'
    have hbody := (Expr.expand_prepends x hx hx').guard sp (hb.block hover)
    refine (hbody.block (b := .mk [] _ b.span) rfl).stmt .nil (List.Perm.refl _) ?_ (List.nil_subset _)
    exact Block.lists_subset rfl
  | .forLoop sp i x st b, h, _, _, _, hs => by
    -- The parts of the loop: clause, test, body and step.
    obtain ⟨m₁, m₂, m₃, hi, hx, hst, _, hb⟩ := h
    obtain ⟨p, i', c₁, hi', q, x', c₂, hx', b', c₃, hb', r, st', c₄, hst', ⟨⟩⟩ := Stmt.expand_forLoop_ok.1 hs
    obtain ⟨left, hp, hinit⟩ := expandClause_prepends i hi hi'
    have hq := expandOption_prepends x hx hx'
    obtain ⟨hover, hb⟩ := Block.expandOver_prepends b hb hb'
    obtain ⟨_, hr, hstep⟩ := expandClause_prepends st hst hst'
    -- The step stays in the header, or it is moved behind the body.
    obtain ⟨hlast, hstays⟩ := hr.moved hst' hstep
    -- The body holds the test if that has moved, and the moved step.
    have hbody := Prepends.folded sp b.span hx' hq hb hover hlast
    have hloop := hbody.stmt hp (s := .forLoop sp i' (if testCalls x then none else x)
      (if stepCalls st then none else st) (foldedBody sp x q x' b.span b' (movedStep st r st')))
      (List.Perm.of_eq ?_) (Block.lists_subset rfl) (List.nil_subset _)
    · rwa [← List.append_assoc, ← List.append_assoc] at hloop
    -- The header reads what the clause and the test that stays read.
    · rw [Stmt.nodes, tempUses_cons, tempUses_append, tempUses_append, tempUses_append, hq.stayingTest hx', hinit,
        hstays, List.append_nil]
      rfl
  | .ret sp v, h, _, _, _, hs => by
    -- The value comes in front of the return.
    obtain ⟨_, hv, _⟩ := h
    obtain ⟨p, v', c₁, hv', ⟨⟩⟩ := Stmt.expand_ret_ok.1 hs
    exact (Expr.expand_prepends v hv hv').plain (tempUses_exprNodes v')
  | .leave sp, _, _, _, _, hs | .code sp t, _, _, _, _, hs | .bitfieldDef sp d, _, _, _, _, hs
  | .enumDef sp d, _, _, _, _, hs => by
    -- These statements read nothing.
    cases hs
    exact Prepends.nil.plain rfl
  | .funcDef sp f ns ps b, _, _, _, _, hs => by
    -- A definition is dropped.
    cases hs
    exact .nil
  | .require _ _, h, _, _, _, _ => h.elim
  termination_by structural s => s

/-- What expanding statements gives. -/
private theorem expandStmts_prepends {D : Dialect} {σ : Scope Entry} {lo hi : Nat} {last : Bool} :
    (ss : List Stmt) → ResolvedStmts D σ lo hi last ss → ∀ {c ss' c'},
      expandStmts ss c = .ok (ss', c') → Prepends [] c c' (inlinedStmts ss) ss' []
  | [], _, _, _, _, h => by
    cases h
    exact .nil
  | s :: ss, ⟨mid, hs, hss⟩, _, _, _, h => by
    obtain ⟨s', c₁, hs', ss', c₂, hss', ⟨⟩⟩ := expandStmts_cons_ok.1 h
    exact (Stmt.expand_prepends s hs hs').append (expandStmts_prepends ss hss hss')
  termination_by structural ss => ss

/-- What expanding a block gives. -/
private theorem Block.expandOver_prepends {D : Dialect} {σ : Scope Entry} {lo hi : Nat} {last : Bool} :
    (b : Block) → b.Resolved D σ lo hi last → ∀ {binds c b' c'},
      b.expandOver binds c = .ok (b', c') →
        b'.overrides = binds ∧ Prepends [] c c' b.inlined b'.stmts []
  | .mk os ss sp, ⟨ho, hss⟩, _, _, _, _, h => by
    subst ho
    obtain ⟨ss', c₁, hss', ⟨⟩⟩ := Block.expandOver_ok.1 h
    exact ⟨List.append_nil _, expandStmts_prepends ss hss hss'⟩
  termination_by structural b => b

/-- What expanding an else block that may be absent gives. -/
private theorem expandElse_encloses {D : Dialect} {σ : Scope Entry} {lo hi : Nat} :
    (f : Option Block) → ResolvedElse D σ lo hi f → ∀ {c f' c'}, expandElse f c = .ok (f', c') →
      Encloses c c' (inlinedElse f) (tempUses ((f'.map Block.nodes).getD [])) ((f'.map Block.lists).getD [])
  | none, _, _, _, _, h => by
    cases h
    exact .nil
  | some f, hf, _, _, _, h => by
    obtain ⟨f', c₁, hf', ⟨⟩⟩ := expandElse_some_ok.1 h
    obtain ⟨hover, hf⟩ := Block.expandOver_prepends f hf hf'
    exact hf.block hover
  termination_by structural f => f

end

/-! ## Programs -/

/-- Temporaries are used linearly.  Expanding an accepted program replaces its calls in order and takes note of
their functions; it makes up as many temporaries as there are calls among these whose function ends with a
return.  No name of the expanded program lacks a binding but those of temporaries, and each temporary is
declared once, assigned once by the last statement of the block right behind its declaration, and read only
behind that block in the list of statements of its declaration. -/
theorem Block.expand_linear {h : Host} (hh : ∀ g ∈ h.globals, g.ty.isProper = true) {program typed : Block}
    (hp : program.Sourced) (ha : program.Accepted h typed) :
    ∃ x, typed.expand = .ok x ∧ x.functions = typed.inlined.map Prod.fst
      ∧ x.temps = typed.inlined.countP Prod.snd
      ∧ (∀ u ∈ tempUses x.program.nodes, ∃ k < x.temps, u.name = tempName k)
      ∧ ∀ k < x.temps, Linear (tempName k) (tempUses x.program.nodes) x.program.lists := by
  obtain ⟨hi, hres⟩ := ha.resolved hh hp
  -- The program is expanded from the beginning, with nothing noted and no temporary taken.
  obtain ⟨b, c, hb, _⟩ := Block.expandOver_block typed hres {}
  obtain ⟨hover, hprepends⟩ := Block.expandOver_prepends typed hres hb
  have hencloses := hprepends.block hover
  refine ⟨_, Block.expand_eq_ok.2 ⟨b, c, hb, rfl⟩, ?_, ?_, ?_, ?_⟩
  -- Functions are noted in reverse.
  · rw [hencloses.told, List.append_nil, List.reverse_reverse]
  -- One temporary for each returning call, counted from zero.
  · exact hencloses.temps.trans (Nat.zero_add _)
  -- Each use is of a temporary that was taken.
  · intro u hu
    obtain ⟨k, _, hlt, hname⟩ := hencloses.own u hu
    exact ⟨k, hlt, hname⟩
  · exact fun k hk => hencloses.linear _ ⟨k, Nat.zero_le k, hk, rfl⟩

/-- `def f(a) return a end def g(b) say(f(b)) end g(f(f(1)))`: calls in arguments, and one in the body of a call
that does not return. -/
def callsInCalls : Block :=
  .mk [] [.funcDef {} "f" {} [⟨"a", {}⟩] (.mk [] [.ret {} (.name "a" {})] {}),
    .funcDef {} "g" {} [⟨"b", {}⟩]
      (.mk [] [.eval {} (.apply "say" {} [.apply "f" {} [.name "b" {}] {}] {})] {}),
    .eval {} (.apply "g" {} [.apply "f" {} [.apply "f" {} [.literal (.int 1) {}] {}] {}] {})] {}

/-- Its three temporaries are used linearly. -/
theorem callsInCalls_linear :
    ∃ x, ((callsInCalls.declare .default).1.annotate .default).1.expand = .ok x
      ∧ x.functions = (["f", "f", "g", "f"] : List Text) ∧ x.temps = 3
      ∧ (∀ u ∈ tempUses x.program.nodes, ∃ k < x.temps, u.name = tempName k)
      ∧ ∀ k < x.temps, Linear (tempName k) (tempUses x.program.nodes) x.program.lists := by
  have hsourced : callsInCalls.Sourced := by
    simp [callsInCalls, Block.Sourced, Block.Marked, MarkedStmts, Stmt.Marked, Expr.Bare, Expr.literal,
      Expr.name, Expr.apply, Expr.nodes, nodesOfList, Expr.IsBare, Dialect.full, Literal.ty]
  obtain ⟨x, hx, hfunctions, htemps, huses⟩ := @Block.expand_linear .default (by decide) callsInCalls _ hsourced
    (Block.accepted_of_none (by decide +kernel) (by decide +kernel))
  refine ⟨x, hx, hfunctions.trans ?_, htemps.trans ?_, huses⟩
  · decide +kernel
  · decide +kernel

end AisScript
