import AisScript.Proofs.Placing
import AisScript.Proofs.Pipeline

/-!
# Expansion preserves behaviour

The expanded form of a calm program does what the program does: it says the same things in the same
order and leaves every variable with the same value.  The proof goes along the tree, with the temporaries
of each part numbered one behind the other.  Programs that are not calm may come to something else.

* `Expr.expand_hoisted`        what stands in front of an expression does what its calls do
* `Stmt.expand_replaces`       what stands for a statement does what the statement does
* `Block.expand_preserves`     expanded programs come to what they came to before
* `callBehind_changed`         programs that are not calm, and what expansion changes
-/

namespace AisScript

/-! ## Trees -/

section Trees

variable {M : Machine} {D : Dialect}

mutual

/-- What stands in front of an expression does what its calls do. -/
private theorem Expr.expand_hoisted {σ : Scope Entry} {lo hi : Nat} (hσ : Sound D lo σ) : (e : Expr) →
    e.Resolved D σ lo hi → e.isCalm = true → ∀ {c c' : Expansion} {p : List Stmt} {e' : Expr},
      e.expand c = .ok ((p, e'), c') → e.Hoisted M p e' c.temps c'.temps
  | .const i v, _, _, c, _, _, _, hex => by
    cases hex
    -- A constant looks at nothing, so nothing in front of it matters.
    refine .of_hoists ?_
    rw [Expr.run]
    exact .of_looksUp (.pure _)
  | .var i n b, h, _, c, _, _, _, hex => by
    obtain ⟨_, _, v, _, hb, _⟩ := h
    cases hex
    refine .of_hoists ?_
    rw [Expr.run]
    refine .of_looksUp ⟨_, rfl, fun st st' hst _ => ?_⟩
    rw [Expr.looksAt, hb] at hst
    -- The variable has the same value in front of the hoisted statements and behind them.
    have hkey := hst v.id (List.mem_singleton.2 rfl)
    simp only [Machine.lookup, hb, keyOf, hkey]
  | .binary i op l r, h, hcalm, c, _, _, _, hex => by
    obtain ⟨mid, lt, rt, t, hl, hlt, hr, hrt, ho, _⟩ := h
    simp only [Expr.isCalm, Bool.and_eq_true, Bool.not_eq_true'] at hcalm
    obtain ⟨⟨⟨hlc, hrc⟩, hblind⟩, hlogical⟩ := hcalm
    obtain ⟨p, l', c₁, hlex, q, r', c₂, hrex, ⟨⟩⟩ := Expr.expand_binary_ok.1 hex
    -- Both operands are expanded; what stands in front of
    -- the right one runs in front of the left one too.
    obtain ⟨hlp, hrp⟩ := BinaryOp.operands_proper ho
    have hL := (Expr.expand_hoisted hσ l hl hlc hlex).value (hl.yields hlt hlp)
    have hR := (Expr.expand_hoisted (hσ.mono (Expr.Resolved.le l hl)) r hr hrc hrex).value (hr.yields hrt hrp)
    obtain ⟨f, hf, _⟩ := hR.value
    -- The right operand of a connective holds no call, so nothing stands in front of it.
    have hsource : op.isLogical = false ∨ ∃ f, r.run M = Run.reads f := by
      cases hop : op.isLogical with
      | false => exact .inl rfl
      | true =>
        rw [hop, Bool.true_and] at hlogical
        rw [Expr.expand_eq_pure r hlogical] at hrex
        cases hrex
        exact .inr ⟨f, hf⟩
    refine .of_hoists ?_
    rw [Expr.run, Expr.run]
    simp only [connect_eq hsource, connect_eq (.inr ⟨f, hf⟩)]
    -- The right operand leaves alone what the left one
    -- looks at, so the left one may be evaluated behind it.
    exact hL.both hR (fun id hid => Expr.run_fixes r (Expr.not_mem_of_isBlindTo hblind hid)) (M.connected op)
  | .unary i op x, h, hcalm, c, _, _, _, hex => by
    obtain ⟨xt, t, hx, hxt, ho, _⟩ := h
    obtain ⟨p, x', c₁, hxex, ⟨⟩⟩ := Expr.expand_unary_ok.1 hex
    have hX := (Expr.expand_hoisted hσ x hx hcalm hxex).value (hx.yields hxt (UnaryOp.operand_proper ho))
    refine .of_hoists ?_
    rw [Expr.run, Expr.run]
    exact hX.map (M.unary op)
  | .member i a b n ns, h, hcalm, c, _, _, _, hex => by
    obtain ⟨bt, t, hb, hbt, hm, _⟩ := h
    obtain ⟨p, b', c₁, hbex, ⟨⟩⟩ := Expr.expand_member_ok.1 hex
    have hB := (Expr.expand_hoisted hσ b hb hcalm hbex).value (hb.yields hbt (memberTy_base hm).1)
    refine .of_hoists ?_
    -- The type of the base is kept, so the member is looked up in the same way.
    rw [Expr.run, Expr.run, (hb.settled hbex).2.1]
    exact hB.map (M.member a b.ty? n)
  -- Queries are not calm.
  | .query _ _ _ _ _ _, _, hcalm, _, _, _, _, _ => nomatch hcalm
  | .call i n ns args (.function binds body), h, hcalm, c, _, _, _, hex => by
    obtain ⟨hsettled, hety, hvalue⟩ := h.settled hex
    obtain ⟨mid, types, t, hargs, ⟨params, template, captured, hf, hlen, hbinds, hbody, _⟩, _⟩ := h
    simp only [Expr.isCalm, Bool.and_eq_true] at hcalm
    obtain ⟨p, args', c₁, haex, body₁, c₃, hbex, body₂, c₄, hfresh, q, e, c₅, hplace, ⟨⟩⟩ :=
      Expr.expand_call_ok.1 hex
    -- The arguments are hoisted, then the body does what it did in the scope where it was declared.
    obtain ⟨hA, hvalues, hlen'⟩ := expandList_hoists hσ args hargs hcalm.1 haex
    have hle := ResolvedArgs.le args hargs
    have hσ' : Sound D (mid + params.length) (bodyScope captured binds) := by
      rw [hbinds]
      exact (bodyScope_sound ((hσ.inner hf).mono hle) params hargs.proper).1
    obtain ⟨ss, rfl, hB⟩ := Block.expandOver_replaces hσ' body hbody hcalm.2 hbex
    -- Renaming changes names but no keys, so the body does the same with fresh names.
    obtain ⟨htemps, hover, hreplaces⟩ := freshened_run (M := M) hfresh
    -- The parameters are numbered behind everything that the arguments look at.
    have hbound : ∀ b ∈ binds, ∃ c, b.info.binding = some c ∧ c.id ∉ looksAtList args := by
      intro b hb
      rw [hbinds] at hb
      obtain ⟨_, c, hc, hid⟩ := numberBinds_declare mid params args b hb
      refine ⟨c, hc, fun hmem => ?_⟩
      have hlt := looksAtList_lt hσ args hargs c.id hmem
      omega
    have hblen : binds.length = args'.length := by
      rw [hbinds, length_numberBinds mid params args hlen, hlen']
    -- Binding the parameters reads the arguments, and none of the bindings changes another argument.
    rw [Block.overrides, runAssigns_bindExpanded hblen hvalues hbound] at hover
    rw [stmtsNodes_append] at hsettled
    refine placeBody_hoisted hA hover (fun b hb => (hbound b hb).imp fun _ h => h.1) (hreplaces _ ?_) hcalm.2
      hplace rfl (settled_append.1 hsettled).2 fun hne => hvalue fun _ => hne
    rw [htemps]
    exact hB
  | .call i n ns args .unresolved, h, _, _, _, _, _, _ => by
    obtain ⟨_, _, _, _, h, _⟩ := h
    exact h.elim
  | .call i n ns args (.intrinsic op), h, hcalm, c, _, _, _, hex => by
    obtain ⟨mid, types, t, hargs, _, _⟩ := h
    obtain ⟨p, args', c₁, haex, ⟨⟩⟩ := (Expr.expand_keptCall_ok rfl).1 hex
    obtain ⟨hA, _, _⟩ := expandList_hoists hσ args hargs hcalm haex
    -- An intrinsic that says nothing is a value; one that speaks has to be a statement of its own.
    refine ⟨fun hquiet => ?_, fun s => ?_⟩
    · have hquiet : op.speaks = false := hquiet
      rw [Expr.run, Expr.run]
      simp only [Machine.perform, hquiet, Bool.false_eq_true, if_false]
      exact hA.map (M.operation op)
    · rw [Expr.run, bind_assoc]
      refine hA.stmt (Nat.le_refl _) (L := fun vs => do let _ ← M.perform op vs; pure .next) ?_
        (fun vs => (Sim.perform op vs).bind fun _ => Sim.pure _)
        fun vs k _ => (Run.Fixes.perform op vs).bind fun _ => Run.Fixes.pure _
      rw [Stmt.run, Expr.run, bind_assoc]
  | .call i n ns args (.constructor layout), h, hcalm, c, _, _, _, hex => by
    obtain ⟨mid, types, t, hargs, _, _⟩ := h
    obtain ⟨p, args', c₁, haex, ⟨⟩⟩ := (Expr.expand_keptCall_ok rfl).1 hex
    -- A constructor reads its arguments and nothing else.
    obtain ⟨hA, _, _⟩ := expandList_hoists hσ args hargs hcalm haex
    refine .of_hoists ?_
    rw [Expr.run, Expr.run]
    exact hA.map (M.construct layout)
  termination_by structural e => e

/-- What stands in front of arguments does what their calls do, and each argument is then looked up. -/
private theorem expandList_hoists {σ : Scope Entry} {lo hi : Nat} (hσ : Sound D lo σ) {types : List Ty} :
    (es : List Expr) → ResolvedArgs D σ lo hi types es → isCalmList es = true →
      ∀ {c c' : Expansion} {p : List Stmt} {es' : List Expr}, expandList es c = .ok ((p, es'), c') →
        Hoists (runList M es) (looksAtList es) p (runList M es') c.temps c'.temps
          ∧ (∀ e ∈ es', (e.run M).LooksUp (looksAtList es) c.temps c'.temps) ∧ es'.length = es.length
  | [], _, _, c, _, _, _, hex => by
    -- No arguments: nothing stands in front.
    cases hex
    exact ⟨.of_looksUp (.pure _), nofun, rfl⟩
  | e :: es, h, hcalm, c, _, _, _, hex => by
    obtain ⟨mid, t, ts, _, he, ht, hp, hes⟩ := h
    simp only [isCalmList, Bool.and_eq_true] at hcalm
    obtain ⟨⟨hec, hesc⟩, hblind⟩ := hcalm
    obtain ⟨p, e', c₁, heex, q, es', c₂, hesex, ⟨⟩⟩ := expandList_cons_ok.1 hex
    -- As for two operands: later arguments leave alone what earlier ones look at.
    have hE := (Expr.expand_hoisted hσ e he hec heex).value (he.yields ht hp)
    obtain ⟨hS, hvalues, hlen⟩ := expandList_hoists (hσ.mono (Expr.Resolved.le e he)) es hes hesc hesex
    refine ⟨?_, List.forall_mem_cons.2 ⟨?_, fun x hx => ?_⟩, congrArg (· + 1) hlen⟩
    · rw [runList, runList]
      exact hE.both hS (fun id hid => runList_fixes es (Expr.not_mem_of_isBlindTo hblind hid)) List.cons
    · exact hE.value.mono (List.subset_append_left _ _) (Nat.le_refl _) hS.temps.le
    · exact (hvalues x hx).mono (List.subset_append_right _ _) hE.temps.le (Nat.le_refl _)
  termination_by structural es => es

/-- What stands in front of a test does what its calls do. -/
private theorem expandOption_hoists {σ : Scope Entry} {lo hi : Nat} (hσ : Sound D lo σ) :
    (x : Option Expr) → ResolvedOption D σ lo hi x → isCalmTest x = true →
      ∀ {c c' : Expansion} {q : List Stmt} {x' : Option Expr}, expandOption x c = .ok ((q, x'), c') →
        ∃ ids, Hoists (runTest M x) ids q (runTest M x') c.temps c'.temps
  | none, _, _, c, _, _, _, hex => by
    cases hex
    exact ⟨[], .of_looksUp (.pure _)⟩
  | some e, h, hcalm, c, _, _, _, hex => by
    obtain ⟨he, t, ht, hp⟩ := h
    obtain ⟨q, e', c₁, heex, ⟨⟩⟩ := expandOption_some_ok.1 hex
    -- The test is the truth of the expression's value.
    have hE := (Expr.expand_hoisted hσ e he hcalm heex).value (he.yields ht hp)
    exact ⟨_, hE.map M.truth⟩
  termination_by structural x => x

/-- What stands in front of an assignment does what its calls do. -/
private theorem Assign.expand_leading {σ : Scope Entry} {lo hi : Nat} (hσ : Sound D lo σ) : (a : Assign) →
    a.Resolved D σ lo hi → a.value.isCalm = true → ∀ {c c' : Expansion} {p : List Stmt} {a' : Assign},
      a.expand c = .ok ((p, a'), c') → Leading (a.run M) p (a'.run M) c.temps c'.temps
  | .mk i v, h, hcalm, c, _, _, _, hex => by
    obtain ⟨mid, t, _, _, hv, ht, hval, hd, hn⟩ := h
    obtain ⟨p, v', c₁, hvex, ⟨⟩⟩ := Assign.expand_ok.1 hex
    have hV := (Expr.expand_hoisted hσ v hv hcalm hvex).value (hv.yields ht (Ty.isProper_of_isValue hval))
    -- Declared or not, the variable has a binding, so the assignment does not reach any temporary.
    obtain ⟨b, hb⟩ : ∃ b, i.binding = some b := by
      cases hdec : i.declares with
      | true => exact ⟨_, (hd hdec).2.1⟩
      | false =>
        obtain ⟨_, b, _, hb, _⟩ := hn hdec
        exact ⟨b, hb⟩
    refine ⟨hV.temps, hV.follows, ?_, fun k => ?_⟩
    · rw [Assign.run, Assign.run]
      exact hV.sim_bind fun x => Sim.assign i x
    · rw [Assign.run]
      exact (hV.value.fixes _).bind fun x => fixes_assign_temp hb x (tempName k)
  termination_by structural a => a

/-- What stands in front of a clause does what its calls do. -/
private theorem expandClause_leading {σ : Scope Entry} {lo hi : Nat} (hσ : Sound D lo σ) :
    (a : Option Assign) → ResolvedClause D σ lo hi a → isCalmClause a = true →
      ∀ {c c' : Expansion} {p : List Stmt} {a' : Option Assign}, expandClause a c = .ok ((p, a'), c') →
        Leading (runClause M a) p (runClause M a') c.temps c'.temps
  | none, _, _, c, _, _, _, hex => by
    cases hex
    -- An absent clause does nothing and has nothing in front.
    refine ⟨TempsIn.nil, Follows.nil, ?_, fun _ => Run.Fixes.pure ()⟩
    rw [front_nil, pure_bind]
    exact Sim.pure ()
  | some a, h, hcalm, c, _, _, _, hex => by
    obtain ⟨p, a', c₁, haex, ⟨⟩⟩ := expandClause_some_ok.1 hex
    exact Assign.expand_leading hσ a h (by obtain ⟨i, v⟩ := a; exact hcalm) haex
  termination_by structural a => a

/-- What stands for a statement does what the statement does. -/
private theorem Stmt.expand_replaces {σ : Scope Entry} {lo hi : Nat} {last inLoop : Bool}
    (hσ : Sound D lo σ) : (s : Stmt) → s.Resolved D σ lo hi last → s.isCalm inLoop = true →
      ∀ {c c' : Expansion} {ss : List Stmt}, s.expand c = .ok (ss, c') →
        Replaces (s.run M) ss c.temps c'.temps
  | .block b, h, hcalm, c, _, _, hex => by
    obtain ⟨b', c₁, hbex, ⟨⟩⟩ := Stmt.expand_block_ok.1 hex
    -- A block of its own takes the place of the block.
    obtain ⟨ss, rfl, hB⟩ := Block.expandOver_replaces hσ.push b h hcalm hbex
    rw [Stmt.run]
    refine .single hB.temps.le ?_ fun k hk => ?_
    · rw [Stmt.run, Block.run_mk_nil]
      exact hB.sim
    · rw [Stmt.run, Block.run_mk_nil]
      exact hB.temps.runStmts hk
  | .eval s e, h, hcalm, c, _, _, hex => by
    obtain ⟨p, e', c₁, heex, hex⟩ := Stmt.expand_eval_ok.1 hex
    -- Whether the call stays or disappears, the rest of the program sees no value.
    have hE := (Expr.expand_hoisted hσ e h hcalm heex).stmt s
    rw [Stmt.run]
    cases hcall : e.isScriptCall with
    | true =>
      simp only [hcall, if_true] at hex hE
      cases hex
      exact hE
    | false =>
      simp only [hcall, Bool.false_eq_true, if_false] at hex hE
      cases hex
      exact hE
  | .assign a, h, hcalm, c, _, _, hex => by
    obtain ⟨p, a', c₁, haex, ⟨⟩⟩ := Stmt.expand_assign_ok.1 hex
    -- One statement that reads a hoisted value.
    rw [Stmt.run]
    exact (Assign.expand_leading hσ a h (by obtain ⟨i, v⟩ := a; exact hcalm) haex).replaces
  | .assignMember s t v, h, hcalm, c, _, _, hex => by
    obtain ⟨mid, layout, hm, ht, _, hv, hvt⟩ := h
    obtain ⟨p, t', c₁, htex, q, v', c₂, hvex, ⟨⟩⟩ := Stmt.expand_assignMember_ok.1 hex
    -- The target is a member of a variable, so nothing is put in front of it.
    obtain ⟨_, _, n, b, _, _, rfl⟩ := Expr.eq_of_isNamedMember hm
    obtain ⟨_, _, hbase, _⟩ := ht
    obtain ⟨rfl, _, b, _, rfl, _⟩ := hbase
    cases htex
    have hV := (Expr.expand_hoisted hσ v hv hcalm hvex).value (hv.yields hvt rfl)
    rw [Stmt.run, List.nil_append]
    -- The assigned member is that of the same variable in both programs.
    refine hV.stmt (Nat.le_refl _) (L := fun x => do M.assignMember _ x; pure .next) (by rw [Stmt.run])
      (fun x => (Sim.assignMember _ _ _ _ b _ x).bind fun _ => Sim.pure _) fun x k _ => ?_
    exact (fixes_assignMember_temp _ _ _ _ b _ x _).bind fun _ => Run.Fixes.pure _
  | .cond s x t f, h, hcalm, c, _, _, hex => by
    obtain ⟨m₁, m₂, xt, hx, hxt, hnum, ht, hf⟩ := h
    simp only [Stmt.isCalm, Bool.and_eq_true] at hcalm
    obtain ⟨⟨hxc, htc⟩, hfc⟩ := hcalm
    obtain ⟨p, x', c₁, hxex, t', c₂, htex, f', c₃, hfex, ⟨⟩⟩ := Stmt.expand_cond_ok.1 hex
    -- The condition is hoisted in front, and both branches do what they did.
    have hσ₁ := hσ.mono (Expr.Resolved.le x hx)
    have hX := (Expr.expand_hoisted hσ x hx hxc hxex).value (hx.yields hxt (Ty.isProper_of_isNumeric hnum))
    obtain ⟨ss, rfl, hT⟩ := Block.expandOver_replaces hσ₁.push t ht htc htex
    obtain ⟨hsim, hle, hfix⟩ := expandElse_sim (hσ₁.mono (Block.Resolved.le t ht)) f hf hfc hfex
    rw [Stmt.run]
    refine hX.stmt (Nat.le_trans hT.temps.le hle)
      (L := fun v => if M.truth v then runStmts M ss else runElse M f') ?_ (fun v => ?_) fun v k hk => ?_
    · rw [Stmt.run]
      simp only [Block.run_mk_nil]
    -- Both branches are simulated, and the same one is taken.
    · exact Sim.ite _ hT.sim hsim
    -- The branches change no temporaries but their own.
    · split
      · exact hT.temps.runStmts (by omega)
      · have := hT.temps.le
        exact hfix k (by omega)
  | .loop s x b, h, hcalm, c, _, _, hex => by
    obtain ⟨mid, xt, hx, hxt, hnum, hb⟩ := h
    simp only [Stmt.isCalm, Bool.and_eq_true] at hcalm
    obtain ⟨p, x', c₁, hxex, b', c₂, hbex, ⟨⟩⟩ := Stmt.expand_loop_ok.1 hex
    -- The condition's statements run at the head of each turn, as a guard of the body.
    have hX := (Expr.expand_hoisted hσ x hx hcalm.1 hxex).value (hx.yields hxt (Ty.isProper_of_isNumeric hnum))
    obtain ⟨ss, rfl, hB⟩ := Block.expandOver_replaces (hσ.mono (Expr.Resolved.le x hx)).push b hb hcalm.2 hbex
    have hbody := guarded_replaces s b.span (hX.map M.truth) hB
    -- A condition that is always true drops out of the loop.
    have hrun : (Stmt.loop s (.literal (.int 1) x.span)
        (.mk [] (p ++ [guarded s x' (.mk [] ss b.span)]) b.span)).run M
        = Run.loop (pure true) (runStmts M (p ++ [guarded s x' (.mk [] ss b.span)])) (pure ()) := by
      rw [Stmt.run, Expr.literal, Expr.run, pure_bind, Block.run_mk_nil]
      exact congrArg (fun t => Run.loop (pure t) _ _) M.truth_one
    refine .single hbody.temps.le ?_ fun k hk => ?_
    -- A loop with a condition is one that leaves its body where the condition fails.
    · rw [hrun, Stmt.run, Run.loop_guard]
      exact Sim.loop (Sim.pure true) hbody.sim (Sim.pure ())
    · rw [hrun]
      exact Run.Fixes.loop (Run.Fixes.pure _) (hbody.temps.runStmts hk) (Run.Fixes.pure _)
  | .forLoop s i x st b, h, hcalm, c, _, _, hex => by
    obtain ⟨m₁, m₂, m₃, hi, hx, hst, _, hb⟩ := h
    simp only [Stmt.isCalm, Bool.and_eq_true] at hcalm
    obtain ⟨⟨⟨hic, hxc⟩, hstc⟩, hbc⟩ := hcalm
    obtain ⟨p, i', c₁, hiex, q, x', c₂, hxex, b', c₃, hbex, r, st', c₄, hstex, ⟨⟩⟩ := Stmt.expand_forLoop_ok.1 hex
    -- The header's scope grows from clause to clause, and the body is typed in the last of them.
    have hσ₁ := hi.sound hσ.push
    have hσ₂ := hσ₁.mono (ResolvedOption.le x hx)
    have hσ₃ := hst.sound hσ₂
    -- Each part is simulated by itself; the lemma on loops puts them together.
    have hI := expandClause_leading hσ.push i hi hic hiex
    obtain ⟨ids, hX⟩ := expandOption_hoists hσ₁ x hx hxc hxex
    obtain ⟨ss, rfl, hB⟩ := Block.expandOver_replaces hσ₃.push b hb hbc hbex
    have hS := expandClause_leading hσ₂ st hst hstc hstex
    exact forLoop_replaces s b.span b.span hI hxex hX hB hstex hS
  | .ret s v, h, hcalm, c, _, _, hex => by
    obtain ⟨_, hv, t, ht, hval⟩ := h
    obtain ⟨p, v', c₁, hvex, ⟨⟩⟩ := Stmt.expand_ret_ok.1 hex
    have hV := (Expr.expand_hoisted hσ v hv hcalm hvex).value (hv.yields ht (Ty.isProper_of_isValue hval))
    -- The value is hoisted, and giving it back reads nothing else.
    rw [Stmt.run]
    refine hV.stmt (Nat.le_refl _) (L := fun x => pure (.give x)) (by rw [Stmt.run]) (fun x => Sim.pure _)
      fun x k _ => Run.Fixes.pure _
  | .leave _, _, _, c, _, _, hex | .bitfieldDef _ _, _, _, c, _, _, hex | .enumDef _ _, _, _, c, _, _, hex => by
    cases hex
    -- These do nothing that a run can tell.
    refine .single (Nat.le_refl _) ?_ fun k _ => ?_
    · rw [Stmt.run]
      exact Sim.pure _
    · rw [Stmt.run]
      exact Run.Fixes.pure _
  | .funcDef _ _ _ _ _, _, _, c, _, _, hex => by
    -- A definition disappears and does nothing.
    cases hex
    rw [Stmt.run]
    exact ⟨TempsIn.nil, Sim.pure _⟩
  -- Code literals are not calm, and typed programs hold no requires.
  | .code _ _, _, hcalm, _, _, _, _ | .require _ _, _, hcalm, _, _, _, _ => nomatch hcalm
  termination_by structural s => s

/-- What stands for statements does what the statements do. -/
private theorem expandStmts_replaces {σ : Scope Entry} {lo hi : Nat} {last inLoop : Bool}
    (hσ : Sound D lo σ) :
    (ss : List Stmt) → ResolvedStmts D σ lo hi last ss → isCalmStmts inLoop ss = true →
      ∀ {c c' : Expansion} {ss' : List Stmt}, expandStmts ss c = .ok (ss', c') →
        Replaces (runStmts M ss) ss' c.temps c'.temps
  | [], _, _, c, _, _, hex => by
    cases hex
    exact ⟨TempsIn.nil, Sim.pure _⟩
  | s :: ss, h, hcalm, c, _, _, hex => by
    obtain ⟨mid, hs, hss⟩ := h
    simp only [isCalmStmts, Bool.and_eq_true] at hcalm
    obtain ⟨s', c₁, hsex, ss', c₂, hssex, ⟨⟩⟩ := expandStmts_cons_ok.1 hex
    rw [runStmts]
    -- One behind the other, as both programs run them.
    exact (Stmt.expand_replaces hσ s hs hcalm.1 hsex).append
      (expandStmts_replaces (hs.sound hσ) ss hss hcalm.2 hssex)
  termination_by structural ss => ss

/-- What stands for a block does what the block does. -/
private theorem Block.expandOver_replaces {σ : Scope Entry} {lo hi : Nat} {last inLoop : Bool}
    (hσ : Sound D lo σ) : (b : Block) → b.Resolved D σ lo hi last → b.isCalm inLoop = true →
      ∀ {c c' : Expansion} {binds : List Assign} {b' : Block}, b.expandOver binds c = .ok (b', c') →
        ∃ ss, b' = .mk binds ss b.span ∧ Replaces (b.run M) ss c.temps c'.temps
  | .mk os ss sp, h, hcalm, c, _, binds, _, hex => by
    obtain ⟨ho, hss⟩ := h
    obtain ⟨ss', c₁, hssex, ⟨⟩⟩ := Block.expandOver_ok.1 hex
    -- Typed blocks have no overrides, so those of the expanded block are the bindings.
    subst ho
    refine ⟨ss', by rw [List.append_nil]; rfl, ?_⟩
    rw [Block.run_mk_nil]
    exact expandStmts_replaces hσ ss hss hcalm hssex
  termination_by structural b => b

/-- What stands for an else block does what the block does. -/
private theorem expandElse_sim {σ : Scope Entry} {lo hi : Nat} {inLoop : Bool} (hσ : Sound D lo σ) :
    (f : Option Block) → ResolvedElse D σ lo hi f → isCalmElse inLoop f = true →
      ∀ {c c' : Expansion} {f' : Option Block}, expandElse f c = .ok (f', c') →
        Sim (runElse M f) (runElse M f') ∧ c.temps ≤ c'.temps
          ∧ ∀ k, k < c.temps ∨ c'.temps ≤ k → Run.Fixes (runElse M f') (.temp (tempName k))
  | none, _, _, c, _, _, hex => by
    -- No else block is an empty one.
    cases hex
    exact ⟨Sim.pure _, Nat.le_refl _, fun _ _ => Run.Fixes.pure _⟩
  | some b, h, hcalm, c, _, _, hex => by
    obtain ⟨b', c₁, hbex, ⟨⟩⟩ := expandElse_some_ok.1 hex
    obtain ⟨ss, rfl, hB⟩ := Block.expandOver_replaces hσ.push b h hcalm hbex
    rw [runElse, runElse, Block.run_mk_nil]
    exact ⟨hB.sim, hB.temps.le, fun k hk => hB.temps.runStmts hk⟩
  termination_by structural f => f

end

end Trees

/-! ## Programs -/

/-- What can come of a program: how it ends, what was said and the values of its variables. -/
def Block.Outcome (M : Machine) (b : Block) (s : M.State) (e : Ending M.Value)
    (said : List (Intrinsic × List M.Value)) (values : Nat → M.Value) : Prop :=
  ∃ s', b.run M s e s' ∧ s'.trace = said ∧ ∀ id, s'.store (.variable id) = values id

/-- Programs that simulate each other come to the same. -/
private theorem Sim.outcome_iff {M : Machine} {b b' : Block} (h : Sim (b.run M) (b'.run M)) (s : M.State)
    (e : Ending M.Value) (said : List (Intrinsic × List M.Value)) (values : Nat → M.Value) :
    b.Outcome M s e said values ↔ b'.Outcome M s e said values := by
  constructor
  · rintro ⟨s', hrun, hsaid, hvalues⟩
    obtain ⟨t', hrun', hagrees⟩ := h.forth (.refl s) hrun
    exact ⟨t', hrun', hagrees.1.symm.trans hsaid, fun id => (hagrees.2 id).symm.trans (hvalues id)⟩
  · rintro ⟨t', hrun, hsaid, hvalues⟩
    obtain ⟨s', hrun', hagrees⟩ := h.back (.refl s) hrun
    exact ⟨s', hrun', hagrees.1.trans hsaid, fun id => (hagrees.2 id).trans (hvalues id)⟩

/-- Expansion preserves behaviour.  The expanded form of a calm program comes to what the program comes
to, from every state and for every meaning of the host's operations: it ends if the program does, and
then says the same things in the same order and leaves every variable with the same value. -/
theorem Block.expand_preserves {h : Host} (hh : ∀ g ∈ h.globals, g.ty.isProper = true)
    {program typed : Block} (hp : program.Sourced) (ha : program.Accepted h typed)
    (hcalm : typed.isCalm false = true) :
    ∃ x, typed.expand = .ok x ∧ ∀ M s e said values,
      typed.Outcome M s e said values ↔ x.program.Outcome M s e said values := by
  obtain ⟨hi, hres⟩ := ha.resolved hh hp
  obtain ⟨hσ, _⟩ := Host.entryScope_sound (D := .full) (fun _ _ => trivial) hh
  obtain ⟨x, hx, _⟩ := Block.expand_settled hres
  -- Outcomes are kept by a simulation in both directions.
  refine ⟨x, hx, fun M => Sim.outcome_iff ?_⟩
  obtain ⟨b', c, hover, rfl⟩ := Block.expand_eq_ok.1 hx
  -- The whole program is a block in the scope of the host.
  obtain ⟨ss, rfl, hB⟩ := Block.expandOver_replaces (M := M) hσ.push typed hres hcalm hover
  rw [Block.run_mk_nil]
  exact hB.sim

/-- `n = 3 def next() n = n - 1 return n end while next() > 0 say(n) end`: the body of a call runs on every
turn of a loop and changes a variable of the program. -/
def countdown : Block :=
  .mk [] [.assign (.make "n" (.literal (.int 3) {}) false {}),
    .funcDef {} "next" {} [] (.mk []
      [.assign (.make "n" (.infixOp .sub (.name "n" {}) (.literal (.int 1) {})) false {}),
        .ret {} (.name "n" {})] {}),
    .loop {} (.infixOp .gt (.apply "next" {} [] {}) (.literal (.int 0) {}))
      (.mk [] [.eval {} (.apply "say" {} [.name "n" {}] {})] {})] {}

/-- A loop whose test calls a function does the same when the test is folded into its body. -/
theorem countdown_preserved :
    let typed := ((countdown.declare .default).1.annotate .default).1
    typed.isCalm false = true ∧ ∃ x, typed.expand = .ok x ∧ ∀ M s e said values,
      typed.Outcome M s e said values ↔ x.program.Outcome M s e said values := by
  have hcalm : ((countdown.declare .default).1.annotate .default).1.isCalm false = true := by decide +kernel
  refine ⟨hcalm, @Block.expand_preserves .default (by decide) countdown _ ?_
    (Block.accepted_of_none ?_ ?_) hcalm⟩
  · simp [countdown, Block.Sourced, Block.Marked, MarkedStmts, Stmt.Marked, Assign.Marked, Assign.make,
      Expr.Bare, Expr.literal, Expr.name, Expr.apply, Expr.infixOp, Expr.nodes, nodesOfList, Expr.IsBare,
      Dialect.full, Literal.ty]
  · decide +kernel
  · decide +kernel

/-! ## Programs that are not calm -/

/-- Numbers, of which only sums are computed. -/
def Machine.sums : Machine where
  Value := Int
  nothing := 0
  literal _ v := match v with
    | .int n => n.toInt
    | _ => 0
  truth v := v != 0
  ofBool b := if b then 1 else 0
  binary op a b := if op = .add then a + b else 0
  unary _ _ := 0
  operation _ _ := 0
  construct _ _ := 0
  member _ _ _ _ := 0
  withMember _ _ v _ := v
  convert _ v := v
  truth_one := by decide

/-- `x = a def f() x = b return 1 end y = l op f()`: a call behind another operand changes a variable. -/
def callBehind (a b : Int64) (l : Expr) (op : BinaryOp) : Block :=
  .mk [] [.assign (.make "x" (.literal (.int a) {}) false {}),
    .funcDef {} "f" {} [] (.mk [] [.assign (.make "x" (.literal (.int b) {}) false {}),
      .ret {} (.literal (.int 1) {})] {}),
    .assign (.make "y" (.infixOp op l (.apply "f" {} [] {})) false {})] {}

/-- What is known of an integer expression. -/
private def intInfo : ExprInfo := { span := {}, ty := some .int }

/-- What is known of an assignment of an integer variable. -/
private def intVar (n : Text) (declares : Bool) (id : Nat) : AssignInfo :=
  { span := {}, name := n, nameSpan := {}, declares, binding := some (.variable id .int) }

/-- The program with its types: `x` is one binding, inside the copied body too. -/
private def callBehindTyped (a b : Int64) (l : Expr) (op : BinaryOp) : Block :=
  .mk [] [.assign (.mk (intVar "x" true 7) (.literal (.int a) {})),
    .funcDef {} "f" {} [] (.mk [] [.assign (.make "x" (.literal (.int b) {}) false {}),
      .ret {} (.literal (.int 1) {})] {}),
    .assign (.mk (intVar "y" true 8) (.binary intInfo op l
      (.call intInfo "f" {} [] (.function [] (.mk [] [.assign (.mk (intVar "x" false 7) (.literal (.int b) {})),
        .ret {} (.literal (.int 1) {})] {})))))] {}

/-- The program with its call expanded: the body stands before the statement that reads `x`. -/
private def callBehindExpanded (a b : Int64) (l : Expr) (op : BinaryOp) : Block :=
  .mk [] [.assign (.mk (intVar "x" true 7) (.literal (.int a) {})),
    .assign (.make (tempName 0) (.literal (.int 0) {}) true {}),
    .block (.mk [] [.assign (.mk (intVar "x" false 7) (.literal (.int b) {})),
      .assign (.make (tempName 0) (.literal (.int 1) {}) false {})] {}),
    .assign (.mk (intVar "y" true 8) (.binary intInfo op l (.var intInfo (tempName 0) none)))] {}

section CallBehind

variable (M : Machine) (a b : Int64) (l : Expr) (op : BinaryOp)

/-- An integer as a machine writes it. -/
private def Machine.int (n : Int64) : M.Value := M.literal (some .int) (.int n)

/-- The program evaluates the left operand first, and the call only if the operator needs it. -/
private theorem callBehindTyped_run : (callBehindTyped a b l op).run M = (do
    M.assign (intVar "x" true 7) (M.int a)
    let v ← l.run M
    let y ← M.connect op v (do
      M.assign (intVar "x" false 7) (M.int b)
      pure (M.int 1))
    M.assign (intVar "y" true 8) y
    pure .next) := by
  simp only [callBehindTyped, Block.run, runAssigns, runStmts, Stmt.run, Assign.run, Expr.run, Expr.literal,
    runList, Run.andThen, Machine.bindAll, Machine.given, pure_bind, bind_assoc]
  rfl

/-- The expanded program runs the body of the call before it evaluates the left operand. -/
private theorem callBehindExpanded_run : (callBehindExpanded a b l op).run M = (do
    M.assign (intVar "x" true 7) (M.int a)
    M.assign (Assign.make (tempName 0) (.literal (.int 0) {}) true {}).info (M.int 0)
    M.assign (intVar "x" false 7) (M.int b)
    M.assign (Assign.make (tempName 0) (.literal (.int 1) {}) false {}).info (M.int 1)
    let v ← l.run M
    let y ← M.connect op v (Run.reads fun st => st (.temp (tempName 0)))
    M.assign (intVar "y" true 8) y
    pure .next) := by
  -- Every statement is a bind, and the blocks around them only reassociate.
  simp only [callBehindExpanded, Block.run, runAssigns, runStmts, Stmt.run, Assign.run, Assign.make, Expr.run,
    Expr.literal, Run.andThen, pure_bind, bind_assoc]
  rfl

end CallBehind

/-- Expansion changes what a program comes to. -/
def Block.ChangedBy (program : Block) (M : Machine) : Prop :=
  ∃ typed x, program.Accepted .default typed ∧ typed.expand = .ok x
    ∧ ∃ s e said values, typed.Outcome M s e said values ∧ ¬x.program.Outcome M s e said values

/-- A program whose expanded form always ends with another value of a variable. -/
private theorem changedBy_sums {program t x : Block} {temps : Nat} {made functions : List Text}
    {i : Nat} {v w : Int} (hd : (program.declare .default).2 = none)
    (ha : ((program.declare .default).1.annotate .default).2 = none)
    (ht : ((program.declare .default).1.annotate .default).1 = t)
    (hx : t.expand = .ok ⟨x, temps, made, functions⟩) (hne : v ≠ w)
    (hrun : ∀ s, ∃ s', t.run .sums s .next s' ∧ s'.store (.variable i) = v)
    (hrun' : ∀ s e s', x.run .sums s e s' → s'.store (.variable i) = w) : program.ChangedBy .sums := by
  -- The program ends with the first value from the empty state.
  refine ⟨t, _, ⟨_, Prod.ext rfl hd, Prod.ext ht ha⟩, hx, ⟨fun _ => (0 : Int), []⟩, ?_⟩
  obtain ⟨s', hs', hv⟩ := hrun ⟨fun _ => (0 : Int), []⟩
  refine ⟨.next, s'.trace, fun id => s'.store (.variable id), ⟨s', hs', rfl, fun _ => rfl⟩, ?_⟩
  -- If the expanded program had the same outcome, the variable had both values.
  rintro ⟨t', ht', _, hvalues⟩
  exact hne (hv.symm.trans ((hvalues i).symm.trans (hrun' _ _ _ ht')))

/-- `x = 1 def f() x = 2 return 1 end y = x + f()` and `x = 0 def f() x = 1 return 1 end y = 0 and f()`: an
operand looks at a variable that the call behind it changes, and a call stands where it is not evaluated. -/
theorem callBehind_changed :
    (callBehind 1 2 (.name "x" {}) .add).ChangedBy .sums
      ∧ (callBehind 0 1 (.literal (.int 0) {}) .and).ChangedBy .sums := by
  constructor
  · -- The sum is 2 at first, and 3 when the operand is looked up behind the call.
    refine changedBy_sums (t := callBehindTyped 1 2 (.var intInfo "x" (some (.variable 7 .int))) .add)
      (x := callBehindExpanded 1 2 (.var intInfo "x" (some (.variable 7 .int))) .add)
      (by decide) (by decide) rfl rfl (i := 8) (v := 2) (w := 3) (by decide)
      (fun s => ?_) fun s e s' h => ?_
    · rw [callBehindTyped_run]
      exact ⟨_, ⟨(), _, rfl, _, _, ⟨rfl, rfl⟩, _, _, ⟨_, _, ⟨(), _, rfl, rfl, rfl⟩, rfl, rfl⟩, (), _, rfl, rfl, rfl⟩,
        rfl⟩
    · rw [callBehindExpanded_run] at h
      obtain ⟨_, _, rfl, _, _, rfl, _, _, rfl, _, _, rfl, _, _, ⟨rfl, rfl⟩, _, _, ⟨_, _, ⟨rfl, rfl⟩, rfl, rfl⟩,
        _, _, rfl, _, rfl⟩ := h
      rfl
  · -- The variable of the call keeps its value at first, and is changed when the call runs anyway.
    refine changedBy_sums (t := callBehindTyped 0 1 (.literal (.int 0) {}) .and)
      (x := callBehindExpanded 0 1 (.literal (.int 0) {}) .and)
      (by decide) (by decide) rfl rfl (i := 7) (v := 0) (w := 1) (by decide)
      (fun s => ?_) fun s e s' h => ?_
    · rw [callBehindTyped_run]
      exact ⟨_, ⟨(), _, rfl, _, _, ⟨rfl, rfl⟩, _, _, ⟨rfl, rfl⟩, (), _, rfl, rfl, rfl⟩, rfl⟩
    · rw [callBehindExpanded_run] at h
      obtain ⟨_, _, rfl, _, _, rfl, _, _, rfl, _, _, rfl, _, _, ⟨rfl, rfl⟩, _, _, ⟨rfl, rfl⟩,
        _, _, rfl, _, rfl⟩ := h
      rfl

end AisScript
