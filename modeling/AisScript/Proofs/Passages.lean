import AisScript.Proofs.Copies
import AisScript.Proofs.Fresh

/-!
# Code literals of expanded programs

Expansion copies the code literals of a function to every place where the function is called, each with
a copy of the function's variables.  Its text names these variables as the function does, so it depends
on them keeping their names and staying in front of it.  Whether they do can be told from the unfolding
of the program, before anything is expanded.

* `Expr.expand_copies`, `Stmt.expand_copies`   what expansion makes of each kind of tree
* `Block.expand_passages`   the code literals of an expanded program, and what they find
-/

namespace AisScript

/-! ## Expansion -/

/-- What expansion leaves of a resolved expression with a value is settled. -/
private theorem Expr.Resolved.settled_value {D : Dialect} {σ : Scope Entry} {lo hi : Nat} {e : Expr}
    (h : e.Resolved D σ lo hi) (hvoid : e.isScriptCall = true → e.ty? ≠ some .void) {c c' : Expansion}
    {p : List Stmt} {e' : Expr} (he : e.expand c = .ok ((p, e'), c')) : e'.Settled := by
  obtain ⟨_, _, _, he₁, _, _, hs⟩ := Expr.expand_settled e h c
  cases he.symm.trans he₁
  exact hs hvoid

mutual

/-- What stands in front of an expanded expression comes from its unfolding. -/
theorem Expr.expand_copies {D : Dialect} (hD : D.Plain) {σ : Scope Entry} {lo hi : Nat}
    (hσ : Sound D lo σ) : (e : Expr) → e.Resolved D σ lo hi → ∀ {c p e' c'},
      e.expand c = .ok ((p, e'), c') → Leads σ lo hi e.unfolded p
  | .const i v, h, _, _, _, _, he => by
    -- A constant binds and reads nothing.
    cases he
    obtain ⟨_, rfl⟩ := h
    exact Leads.nil
  | .var i n b, h, _, _, _, _, he => by
    -- A variable has no code in front of it.
    cases he
    obtain ⟨rfl, _⟩ := h
    exact Leads.nil
  | .binary i op l r, h, _, _, _, _, he => by
    -- Both operands, with what stands in front of each, in a row.
    obtain ⟨mid, _, _, _, hl, _, hr, _⟩ := h
    obtain ⟨p, l', c₁, hl', q, r', c₂, hr', ⟨⟩⟩ := Expr.expand_binary_ok.1 he
    exact (Expr.expand_copies hD hσ l hl hl').append (Expr.expand_copies hD (hσ.mono hl.le) r hr hr') hl.le hr.le
  | .unary i op x, h, _, _, _, _, he => by
    -- An operator with one operand leaves it in place.
    obtain ⟨_, _, hx, _⟩ := h
    obtain ⟨p, x', c₁, hx', ⟨⟩⟩ := Expr.expand_unary_ok.1 he
    exact Expr.expand_copies hD hσ x hx hx'
  | .member i a b n ns, h, _, _, _, _, he => by
    -- The base stands in place.
    obtain ⟨_, _, hb, _⟩ := h
    obtain ⟨p, b', c₁, hb', ⟨⟩⟩ := Expr.expand_member_ok.1 he
    exact Expr.expand_copies hD hσ b hb hb'
  | .query i k op u x q, h, _, _, _, _, he => by
    -- The three parts of a query in a row.
    obtain ⟨m₁, m₂, hu, hx, hq, _⟩ := h
    obtain ⟨pu, u', c₁, hu', px, x', c₂, hx', pq, q', c₃, hq', ⟨⟩⟩ := Expr.expand_query_ok.1 he
    have hpu := expandOption_copies hD hσ u hu hu'
    have hpx := expandOption_copies hD (hσ.mono hu.le) x hx hx'
    have hpq := expandOption_copies hD (hσ.mono (Nat.le_trans hu.le hx.le)) q hq hq'
    exact (hpu.append hpx hu.le hx.le).append hpq (Nat.le_trans hu.le hx.le) hq.le
  | .call i n ns args (.function binds body), h, _, _, _, _, he => by
    -- A function: its template, its number of parameters and its typed body.
    obtain ⟨mid, types, t, hargs, ⟨params, template, captured, hf, hlen, hbinds, hbody, rfl⟩, _⟩ := h
    obtain ⟨p, args', c₁, hargs', body', c₃, hbody', body'', c₄, hfresh, q, e, c₅, hplace, ⟨⟩⟩ :=
      Expr.expand_call_ok.1 he
    -- The body is freshened with the number that has been counted to.
    cases hfresh
    have hmid := hargs.le
    have hlast := hbody.le
    have hσ' := hσ.mono hmid
    have hp := expandList_copies hD hσ args hargs hargs'
    -- The arguments that are left have values, so all their calls are gone.
    obtain ⟨_, _, _, hargs₁, _, htys, hsettled⟩ := expandList_settled args hargs _
    cases hargs'.symm.trans hargs₁
    -- One expanded argument for each argument.
    have hlen' : args'.length = args.length := by
      have := congrArg List.length htys
      rwa [List.length_map, List.length_map] at this
    have halike := expandList_left args hargs' (settled_nodesOfList hsettled)
    have hleft := leftList_reads hD args hargs
    -- The body is typed in the scope of its definition, behind its parameters.
    obtain ⟨hs, _⟩ := bodyScope_sound ((hσ.inner hf).mono hmid) params hargs.proper
    rw [← hbinds] at hs
    -- Behind the parameters, what is visible is one of them or was visible at the definition.
    have hshown := shown_params hD hσ' hf args
    rw [← hbinds] at hshown
    obtain ⟨ss, τ, rfl, hss⟩ := Block.expandOver_copies hD hs (Nat.le_add_right mid params.length) hshown
      body hbody hbody'
    -- The call as a whole: parameters, body and the place where the result is left.
    obtain ⟨⟨R, hm⟩, hps⟩ := called_copies body.span hD hσ' hf hlen hlen' hleft halike hlast hbinds hss
    exact hp.append (placeBody_leads hσ' hm hps hplace) hmid (Nat.le_trans (Nat.le_add_right _ _) hlast)
  | .call i n ns args .unresolved, h, _, _, _, _, _ => by
    -- Every call of an accepted program is resolved.
    obtain ⟨_, _, _, _, h, _⟩ := h
    exact h.elim
  | .call i n ns args (.intrinsic op), h, _, _, _, _, he => by
    -- Built-in functions and constructors keep their calls, so only the arguments count.
    obtain ⟨mid, _, _, hargs, ⟨rfl, _⟩, _⟩ := h
    obtain ⟨p, args', c₁, hargs', ⟨⟩⟩ := (Expr.expand_keptCall_ok rfl).1 he
    exact expandList_copies hD hσ args hargs hargs'
  | .call i n ns args (.constructor layout), h, _, _, _, _, he => by
    obtain ⟨mid, _, _, hargs, ⟨rfl, _⟩, _⟩ := h
    obtain ⟨p, args', c₁, hargs', ⟨⟩⟩ := (Expr.expand_keptCall_ok rfl).1 he
    exact expandList_copies hD hσ args hargs hargs'
  termination_by structural e => e

/-- What stands in front of expanded arguments comes from their unfolding. -/
private theorem expandList_copies {D : Dialect} (hD : D.Plain) {σ : Scope Entry} {lo hi : Nat}
    {types : List Ty}
    (hσ : Sound D lo σ) : (es : List Expr) → ResolvedArgs D σ lo hi types es → ∀ {c p es' c'},
      expandList es c = .ok ((p, es'), c') → Leads σ lo hi (unfoldedList es) p
  | [], h, _, _, _, _, he => by
    -- Nothing stands in front of no arguments.
    cases he
    obtain ⟨_, rfl⟩ := h
    exact Leads.nil
  | e :: es, ⟨mid, _, _, _, he, _, _, hes⟩, _, _, _, _, h => by
    -- The first argument, and the others behind it.
    obtain ⟨p, e', c₁, he', q, es', c₂, hes', ⟨⟩⟩ := expandList_cons_ok.1 h
    exact (Expr.expand_copies hD hσ e he he').append (expandList_copies hD (hσ.mono he.le) es hes hes') he.le
      hes.le
  termination_by structural es => es

/-- What stands in front of an expanded expression that may be absent comes from its unfolding. -/
private theorem expandOption_copies {D : Dialect} (hD : D.Plain) {σ : Scope Entry} {lo hi : Nat}
    (hσ : Sound D lo σ) : (e : Option Expr) → ResolvedOption D σ lo hi e → ∀ {c p e' c'},
      expandOption e c = .ok ((p, e'), c') → Leads σ lo hi (unfoldedOption e) p
  | none, h, _, _, _, _, he => by
    cases he
    obtain rfl : hi = lo := h
    exact Leads.nil
  | some e, ⟨h, _⟩, _, _, _, _, he => by
    obtain ⟨p, e', c₁, he', ⟨⟩⟩ := expandOption_some_ok.1 he
    exact Expr.expand_copies hD hσ e h he'
  termination_by structural e => e

/-- An expanded assignment comes from its unfolding. -/
theorem Assign.expand_copies {D : Dialect} (hD : D.Plain) {σ : Scope Entry} {lo hi : Nat}
    (hσ : Sound D lo σ) : (a : Assign) → a.Resolved D σ lo hi → ∀ {c p a' c'},
      a.expand c = .ok ((p, a'), c') →
        ∃ mid u ws, CopiesClause σ (a.extend σ) lo mid hi u ws p (some a) (some a')
  | .mk i v, h, _, _, _, _, ha => by
    -- The value comes first, with what stands in front of it.
    obtain ⟨p, v', c₁, hv', ⟨⟩⟩ := Assign.expand_ok.1 ha
    obtain ⟨_, _, _, _, hres, ht, hval, _⟩ := id h
    -- The value has a type, so it is settled behind the expansion.
    have hsettled := hres.settled_value (ne_void_of_proper ht (Ty.isProper_of_isValue hval)) hv'
    obtain ⟨mid, hv, hle, hm⟩ := h.mirrors hD hσ
    exact ⟨mid, v.unfolded, _, Expr.expand_copies hD hσ v hv hv', hm v' (Expr.expand_left v hv' hsettled), rfl,
      rfl, hv.le, hle⟩
  termination_by structural a => a

/-- An expanded clause comes from its unfolding. -/
private theorem expandClause_copies {D : Dialect} (hD : D.Plain) {σ : Scope Entry} {lo hi : Nat}
    (hσ : Sound D lo σ) : (a : Option Assign) → ResolvedClause D σ lo hi a → ∀ {c p a' c'},
      expandClause a c = .ok ((p, a'), c') →
        ∃ mid u ws, CopiesClause σ (extendClause σ a) lo mid hi u ws p a a'
  | none, h, _, _, _, _, ha => by
    -- A clause that is absent is the same before and after.
    cases ha
    obtain rfl : hi = lo := h
    exact ⟨hi, {}, [], Leads.nil, ⟨_, Mirrors.nil⟩, rfl, rfl, Nat.le_refl hi, Nat.le_refl hi⟩
  | some a, h, _, _, _, _, ha => by
    -- A clause is its assignment.
    obtain ⟨p, a', c₁, ha', ⟨⟩⟩ := expandClause_some_ok.1 ha
    exact Assign.expand_copies hD hσ a h ha'
  termination_by structural a => a

/-- An expanded statement comes from its unfolding, and the variables behind it are found as before. -/
theorem Stmt.expand_copies {D : Dialect} (hD : D.Plain) {σ : Scope Entry} {base lo hi : Nat} {last : Bool}
    {μ : List Nat} {ε ε' : Env} (hσ : Sound D lo σ) (hbase : base ≤ lo) (hε : Env.Shown base lo μ ε ε') :
    (s : Stmt) → s.Resolved D σ lo hi last → ∀ {c ss c'}, s.expand c = .ok (ss, c') →
      CopiesStmts σ (s.extend σ lo) base lo hi ε' (s.unfolded ε μ) ss
        ∧ Env.Shown base hi μ (s.behind ε) (stmtsBehind ε' ss)
  | .block b, h, _, _, _, hs => by
    -- The block keeps its frame, so what it declares is not seen behind it.
    obtain ⟨b', c₁, hb', ⟨⟩⟩ := Stmt.expand_block_ok.1 hs
    obtain ⟨ss, τ, rfl, hss⟩ := Block.expandOver_copies hD hσ.push hbase hε b h hb'
    refine ⟨(hss.inner hσ).congr ?_ ?_, hε.mono h.le⟩
    · rw [stmtsNodes_singleton]
      exact (Alike.refl _).cons rfl rfl
    · simp [Block.sites, assignsSites, assignsBehind]
  | .eval sp e, h, _, _, _, hs => by
    -- The expression is expanded, and what stands in front of it comes first.
    obtain ⟨p, e', c₁, he', hs⟩ := Stmt.expand_eval_ok.1 hs
    have hp := Expr.expand_copies hD hσ e h he'
    have hle := Expr.Resolved.le e h
    split at hs
    -- Only the call itself is dropped: the result of a call of a function is not kept.
    case isTrue hcall =>
      cases hs
      -- Nothing is left of such a call.
      have hleft : e.left = [] := by
        cases e with
        | call i n ns args t =>
          cases t with
          | function binds body => rfl
          | _ => exact nomatch hcall
        | _ => exact nomatch hcall
      refine ⟨?_, (hp.shown hε).mono hle⟩
      have hcopies := (hp.stmts (hε.outside hi) hbase).append
        (Copies.only base (hσ.mono hle) OnlyReads.nil (Alike.refl [])) hle (Nat.le_refl hi)
      rw [List.append_nil, List.append_nil] at hcopies
      simp only [Stmt.unfolded, hleft]
      exact hcopies
    -- A call of the host or of a built-in function stays.
    case isFalse hcall =>
      cases hs
      have hsettled := h.settled_value (fun hc => absurd hc hcall) he'
      refine hp.stmt hε hbase ((Copies.only base (hσ.mono hle) (Expr.left_reads hD e h) ?_).congr
        (Alike.refl _) ?_) (fun _ => rfl) hle (Nat.le_refl hi)
      · rw [stmtsNodes_singleton]
        exact (Expr.expand_left e he' hsettled).cons rfl rfl
      · simp
  | .assign a, h, _, _, _, hs => by
    -- The value is expanded in front of the assignment.
    obtain ⟨p, a', c₁, ha', ⟨⟩⟩ := Stmt.expand_assign_ok.1 hs
    obtain ⟨mid, u, ws, hclause⟩ := Assign.expand_copies hD hσ a h ha'
    obtain ⟨R, hm⟩ := hclause.mirrors
    -- What is left is the assignment with the value that is left.
    have hassign : CopiesStmts σ (a.extend σ) base mid hi (stmtsBehind ε' p) (.only ws) [.assign a'] := by
      refine ⟨⟨R, ?_⟩, ?_⟩
      · rw [stmtsNodes_singleton]
        exact hm
      · simp
    have hunfolded : (Stmt.assign a).unfolded ε μ = u ++ .only ws := hclause.unfolded
    refine ⟨?_, ?_⟩
    · rw [hunfolded]
      exact (hclause.leads.stmts (hε.outside mid) hbase).stmts hassign hclause.low hclause.high
    -- Its variable is found behind it, as before.
    · rw [stmtsBehind_append]
      have hsame : (Stmt.assign a').behind (stmtsBehind ε' p) = clauseBehind (stmtsBehind ε' p) (some a) :=
        clauseBehind_congr hclause.info _
      rw [stmtsBehind, stmtsBehind, hsame]
      exact ResolvedClause.shown (a := some a) hD h (hclause.leads.shown hε) hbase
  | .assignMember sp t v, h, _, _, _, hs => by
    -- Target and value in a row.
    obtain ⟨mid, _, hname, ht, _, hv, hint⟩ := h
    obtain ⟨p, t', c₁, ht', q, v', c₂, hv', ⟨⟩⟩ := Stmt.expand_assignMember_ok.1 hs
    have hle := Nat.le_trans ht.le hv.le
    -- The target is a member and no call, so it has a type.
    have hts := ht.settled_value (fun hc => by
      obtain ⟨_, _, _, _, _, _, rfl⟩ := Expr.eq_of_isNamedMember hname
      exact nomatch hc) ht'
    have hvs := hv.settled_value (ne_void_of_proper hint rfl) hv'
    have hleft := (Expr.left_reads hD t ht).append (Expr.left_reads hD v hv)
    have hp := (Expr.expand_copies hD hσ t ht ht').append (Expr.expand_copies hD (hσ.mono ht.le) v hv hv') ht.le
      hv.le
    refine hp.stmt hε hbase ((Copies.only base (hσ.mono hle) hleft ?_).congr (Alike.refl _) ?_) (fun _ => rfl) hle
      (Nat.le_refl hi)
    · rw [stmtsNodes_singleton]
      exact ((Expr.expand_left t ht' hts).append (Expr.expand_left v hv' hvs)).cons rfl rfl
    · simp
  | .cond sp x t f, h, _, _, _, hs => by
    -- The condition is tested in front, and both branches are typed behind it.
    obtain ⟨m₁, m₂, _, hx, hty, hnum, ht, hf⟩ := h
    obtain ⟨p, x', c₁, hx', t', c₂, ht', f', c₃, hf', ⟨⟩⟩ := Stmt.expand_cond_ok.1 hs
    have hσ₁ := hσ.mono hx.le
    have hp := Expr.expand_copies hD hσ x hx hx'
    have hxs := hx.settled_value (ne_void_of_proper hty (Ty.isProper_of_isNumeric hnum)) hx'
    have hε₁ := (hp.shown hε).mono hx.le
    have hbase₁ := Nat.le_trans hbase hx.le
    obtain ⟨ts, τ, rfl, hts⟩ := Block.expandOver_copies hD hσ₁.push hbase₁ hε₁ t ht ht'
    have htest := Copies.only base hσ₁ (Expr.left_reads hD x hx) (Expr.expand_left x hx' hxs)
    have hfront := htest.append (hts.inner hσ₁) (Nat.le_refl m₁) ht.le
    -- Without a second branch, the first one comes last.
    cases f with
    | none =>
      obtain rfl : hi = m₂ := hf
      cases hf'
      rw [Stmt.unfolded, unfoldedElse, Unfolding.append_nil, Unfolding.append_assoc]
      refine hp.stmt hε hbase (hfront.congr ?_ ?_) (fun _ => rfl) hx.le ht.le
      · rw [stmtsNodes_singleton]
        exact (Alike.refl _).cons rfl rfl
      · simp [Block.sites, assignsSites, assignsBehind]
    -- With a second branch, it comes behind the first one.
    | some f =>
      obtain ⟨_, _, hf', ⟨⟩⟩ := expandElse_some_ok.1 hf'
      have hfle : m₂ ≤ hi := Block.Resolved.le f hf
      obtain ⟨fs, υ, rfl, hfs⟩ := Block.expandOver_copies hD (hσ₁.mono ht.le).push
        (Nat.le_trans hbase₁ ht.le) (hε₁.mono ht.le) f hf hf'
      have hboth := hfront.append (hfs.inner (hσ₁.mono ht.le)) ht.le hfle
      rw [Stmt.unfolded, unfoldedElse, Unfolding.append_assoc, Unfolding.append_assoc,
        ← Unfolding.append_assoc (.only x.left)]
      refine hp.stmt hε hbase (hboth.congr ?_ ?_) (fun _ => rfl) hx.le (Nat.le_trans ht.le hfle)
      · rw [stmtsNodes_singleton]
        exact (Alike.refl _).cons rfl rfl
      · simp [Block.sites, assignsSites, assignsBehind]
  | .loop sp x b, h, _, _, _, hs => by
    -- The condition is evaluated each time, and the body behind it.
    obtain ⟨mid, _, hx, hty, hnum, hb⟩ := h
    obtain ⟨p, x', c₁, hx', b', c₂, hb', ⟨⟩⟩ := Stmt.expand_loop_ok.1 hs
    have hσ₁ := hσ.mono hx.le
    have hp := Expr.expand_copies hD hσ x hx hx'
    have hxs := hx.settled_value (ne_void_of_proper hty (Ty.isProper_of_isNumeric hnum)) hx'
    have hε₁ := (hp.shown hε).mono hx.le
    obtain ⟨ss, τ, rfl, hss⟩ := Block.expandOver_copies hD hσ₁.push (Nat.le_trans hbase hx.le) hε₁ b hb hb'
    have htest := Copies.only base hσ₁ (Expr.left_reads hD x hx) (Expr.expand_left x hx' hxs)
    -- The condition has moved into the body, behind what stands in front of it.
    have hall := ((hp.stmts (hε.outside mid) hbase).append htest hx.le (Nat.le_refl mid)).append
      (hss.inner hσ₁) hx.le hb.le
    refine ⟨hall.congr ?_ ?_, hε.mono (Nat.le_trans hx.le hb.le)⟩
    · have hguard := (Alike.refl (stmtsNodes p)).append (alike_guarded sp x' (.mk [] ss b.span))
      rw [stmtsNodes_singleton, List.append_assoc]
      refine Alike.cons ?_ rfl rfl
      refine Alike.cons ?_ rfl rfl
      simp only [Block.nodes, List.flatMap_nil, List.nil_append, stmtsNodes_append, stmtsNodes_singleton]
      exact hguard
    · simp [Block.sites, assignsSites, assignsBehind, stmtsSites_append, codes_guarded]
  | .forLoop sp i x st b, h, _, _, _, hs => by
    -- The three clauses and the body of the loop.
    obtain ⟨m₁, m₂, m₃, hinit, hx, hst, hno, hb⟩ := h
    obtain ⟨p, i', c₁, hinit', q, x', c₂, hx', b', c₃, hb', r, st', c₄, hst', ⟨⟩⟩ := Stmt.expand_forLoop_ok.1 hs
    -- The scopes behind the first clause and behind the step.
    have hη := ResolvedClause.sound hσ.push hinit
    have hη' := ResolvedClause.sound (hη.mono hx.le) hst
    have hbase₁ := Nat.le_trans hbase hinit.le
    have hle := Nat.le_trans hinit.le (Nat.le_trans hx.le (Nat.le_trans hst.le hb.le))
    obtain ⟨k, ui, wi, hp⟩ := expandClause_copies hD hσ.push i hinit hinit'
    have hq := expandOption_copies hD hη x hx hx'
    obtain ⟨k', us, wst, hr⟩ := expandClause_copies hD (hη.mono hx.le) st hst hst'
    -- The environments at the test, at the step and in the body.
    have hε₁ := hinit.shown hD (hp.leads.shown hε) hbase
    rw [← clauseBehind_congr hp.info (stmtsBehind ε' p)] at hε₁
    obtain ⟨hε₃, hout⟩ := hst.step hD hε₁ hbase₁ hx.le
    obtain ⟨ss, τ, rfl, hss⟩ := Block.expandOver_copies hD hη'.push
      (Nat.le_trans hbase₁ (Nat.le_trans hx.le hst.le)) (hq.shown hε₃) b hb hb'
    obtain ⟨_, _, _, hx₁, _, hsettled⟩ := expandOption_settled x hx _
    cases hx'.symm.trans hx₁
    -- The loop is put together from parts that are known to come from their unfoldings.
    have hparts : LoopParts base lo k m₁ m₂ k' m₃ hi σ (extendClause σ.push i)
        (extendClause (extendClause σ.push i) st) τ ε' ui (unfoldedOption x) us
        (b.unfolded (clauseBehind (clauseBehind ε i) st) (movedNumber st ++ μ)) wi (leftOption x) wst i i' x x'
        st st' p q r ss := by
      -- Where a clause calls no function, nothing stands in front of it.
      refine ⟨hp, hq, leftOption_reads hD x hx, expandOption_left x hx' hsettled, hr, hss, fun hcalls => ?_,
        fun hcalls => ?_, fun hcalls => ?_, hinit.le, hx.le, hst.le, hb.le⟩
      · rw [expandOption_of_not_testCalls hcalls] at hx'
        cases hx'
        exact ⟨rfl, rfl⟩
      · cases x with
        | none => exact nomatch hcalls
        | some e =>
          obtain ⟨_, _, _, _, ⟨⟩⟩ := expandOption_some_ok.1 hx'
          rfl
      · rw [expandClause_of_not_stepCalls hcalls] at hst'
        cases hst'
        exact ⟨rfl, rfl⟩
    obtain ⟨R, hm⟩ := hparts.mirrors hσ hη sp b.span b.span
    -- The nodes are those of the parts, though the step has moved behind the body.
    refine ⟨⟨⟨R, hm.congr ?_ (Alike.refl _)⟩, ?_⟩, ?_⟩
    · simp only [Stmt.unfolded, hp.unfolded, hr.unfolded, Unfolding.nodes_append, Unfolding.nodes_only,
        List.append_assoc]
      refine (Alike.refl _).append ((Alike.refl _).append ((Alike.refl _).append ((Alike.refl _).append ?_)))
      rw [← List.append_assoc us.nodes]
      exact Alike.comm _ _
    -- The code literals are those of the parts, with steps that are passed behind the body.
    · simp only [Stmt.unfolded, hp.unfolded, hr.unfolded, Unfolding.passages_append, Unfolding.passages_only,
        List.append_nil, List.append_assoc]
      exact hparts.passages hbase hε hε₁.known hout
    -- Nothing of the header is seen behind the loop.
    · rw [stmtsBehind_append]
      exact (hp.leads.shown hε).mono hle
  | .ret sp v, h, _, _, _, hs => by
    -- The returned value is left where the return stood.
    obtain ⟨_, hv, _, hty, hval⟩ := h
    obtain ⟨p, v', c₁, hv', ⟨⟩⟩ := Stmt.expand_ret_ok.1 hs
    have hsettled := hv.settled_value (ne_void_of_proper hty (Ty.isProper_of_isValue hval)) hv'
    refine (Expr.expand_copies hD hσ v hv hv').stmt hε hbase ((Copies.only base (hσ.mono hv.le)
      (Expr.left_reads hD v hv) ?_).congr (Alike.refl _) ?_) (fun _ => rfl) hv.le (Nat.le_refl hi)
    · rw [stmtsNodes_singleton]
      exact (Expr.expand_left v hv' hsettled).cons rfl rfl
    · simp
  | .leave sp, h, _, _, _, hs => by
    -- Nothing is read or bound by these statements.
    cases hs
    obtain rfl : hi = lo := h
    exact ⟨⟨⟨_, Mirrors.silent ((Alike.refl []).cons rfl rfl) fun _ _ hr => .inr hr⟩, .nil⟩, hε⟩
  | .code sp t, h, _, _, _, hs => by
    -- The code literal itself: it meets what its environment shows.
    cases hs
    obtain rfl : hi = lo := h
    exact ⟨⟨⟨_, Mirrors.silent ((Alike.refl []).cons rfl rfl) fun _ _ hr => .inr hr⟩,
      .cons (hε.meets sp t) .nil⟩, hε⟩
  | .bitfieldDef sp d, h, _, _, _, hs => by
    -- A layout is no value, so no variable is bound.
    cases hs
    obtain rfl : hi = lo := h
    refine ⟨⟨⟨_, Mirrors.silent ((Alike.refl []).cons rfl rfl) fun n b hr => ?_⟩, .nil⟩, hε⟩
    rcases hr.of_define with hr | ⟨_, hb⟩ | ⟨_, _, _, hb, _⟩
    · exact .inr hr
    · exact nomatch hb
    · exact nomatch hb
  | .enumDef sp d, h, _, _, _, hs => by
    -- The members are bound under their own numbers, in both environments.
    cases hs
    have hle := Stmt.Resolved.le _ h
    exact ⟨⟨⟨_, Mirrors.silent ((Alike.refl []).cons rfl rfl) fun _ _ hr => hr.of_bindEnum.symm.imp_left (·.1)⟩, .nil⟩,
      (hε.members d.members).mono hle⟩
  | .funcDef sp f ns ps b, h, _, _, _, hs => by
    -- The definition is dropped, as the copies stand where it is called.
    cases hs
    obtain ⟨rfl, _⟩ := h
    exact ⟨⟨⟨_, Mirrors.silent (Alike.refl []) fun _ _ hr => .inr hr.of_bindFunction⟩, .nil⟩, hε⟩
  | .require _ _, h, _, _, _, _ => h.elim
  termination_by structural s => s

/-- Expanded statements come from their unfolding. -/
private theorem expandStmts_copies {D : Dialect} (hD : D.Plain) {σ : Scope Entry} {base lo hi : Nat}
    {last : Bool}
    {μ : List Nat} {ε ε' : Env} (hσ : Sound D lo σ) (hbase : base ≤ lo) (hε : Env.Shown base lo μ ε ε') :
    (ss : List Stmt) → ResolvedStmts D σ lo hi last ss → ∀ {c ss' c'}, expandStmts ss c = .ok (ss', c') →
      ∃ τ, CopiesStmts σ τ base lo hi ε' (unfoldedStmts ε μ ss) ss'
  | [], h, _, _, _, hs => by
    -- Nothing comes of no statements.
    cases hs
    obtain rfl : hi = lo := h
    exact ⟨σ, Copies.nil⟩
  | s :: ss, ⟨mid, hs, hss⟩, _, _, _, h => by
    -- The first statement, and the others behind it.
    obtain ⟨s', c₁, hs', ss', c₂, hss', ⟨⟩⟩ := expandStmts_cons_ok.1 h
    obtain ⟨hfirst, hε'⟩ := Stmt.expand_copies hD hσ hbase hε s hs hs'
    obtain ⟨τ, hrest⟩ := expandStmts_copies hD (hs.sound hσ) (Nat.le_trans hbase hs.le) hε' ss hss hss'
    exact ⟨τ, hfirst.stmts hrest hs.le hss.le⟩
  termination_by structural ss => ss

/-- An expanded block comes from its unfolding. -/
private theorem Block.expandOver_copies {D : Dialect} (hD : D.Plain) {σ : Scope Entry} {base lo hi : Nat}
    {last : Bool} {μ : List Nat} {ε ε' : Env} (hσ : Sound D lo σ) (hbase : base ≤ lo)
    (hε : Env.Shown base lo μ ε ε') : (b : Block) → b.Resolved D σ lo hi last → ∀ {binds c b' c'},
      b.expandOver binds c = .ok (b', c') →
        ∃ ss τ, b' = .mk binds ss b.span ∧ CopiesStmts σ τ base lo hi ε' (b.unfolded ε μ) ss
  | .mk os ss sp, ⟨ho, hss⟩, binds, _, _, _, h => by
    subst ho
    obtain ⟨ss', c₁, hss', ⟨⟩⟩ := Block.expandOver_ok.1 h
    obtain ⟨τ, hcopies⟩ := expandStmts_copies hD hσ hbase hε ss hss hss'
    exact ⟨ss', τ, by rw [List.append_nil]; rfl, hcopies⟩
  termination_by structural b => b

end

/-! ## Programs -/

/-- The code literals of an expanded program are those of its unfolding, in order, one for each copy of
the function around it.  A variable or parameter of the copy is what the literal finds under its name
exactly if it keeps its name: no call around the literal contests it, and no loop around the literal
declares it in a step that calls a function. -/
theorem Block.expand_passages {h : Host} (hh : ∀ g ∈ h.globals, g.ty.isProper = true)
    {program declared typed : Block} (hp : program.Sourced)
    (hd : program.declare h = (declared, none)) (ht : declared.annotate h = (typed, none))
    (hplain : ∀ n ∈ declared.identifiers, n.isPlain = true) :
    ∃ x, typed.expand = .ok x ∧ List.Forall₂ (fun p s => s.node = .stmt (.code p.span p.text)
        ∧ ∀ n b, p.env.lookup n = some (.variable (some b)) →
            (s.env.lookup n = some (.variable (some b)) ↔ p.Keeps b))
      (typed.unfolded [] []).passages (codes (x.program.sites [])) := by
  -- The program is resolved in the scope of the host.
  obtain ⟨hi, hres⟩ := Block.annotate_named hh hp hd ht
  have hD := Dialect.named_plain hplain
  obtain ⟨hσ, _⟩ := Host.entryScope_sound (D := .named (declared.identifiers ++ Host.achronalNames))
    (fun n hn => List.mem_append_right _ hn) hh
  -- So it can be expanded, and is put together from its unfolding.
  obtain ⟨x, hx, _⟩ := Block.expand_settled hres
  refine ⟨x, hx, ?_⟩
  obtain ⟨b', c, hover, rfl⟩ := Block.expand_eq_ok.1 hx
  obtain ⟨ss, τ, hout, hcopies⟩ := Block.expandOver_copies hD hσ.push (Nat.le_refl _) Env.Shown.nil typed hres
    hover
  -- A program has no overrides, so its code literals are those of its statements.
  have hsites : codes (b'.sites []) = codes (stmtsSites [] ss) := by
    rw [hout, Block.sites, codes_append, codes_assigns]
    rfl
  rw [hsites]
  -- What an environment shows is kept or lost, whether its variable is contested or not.
  refine hcopies.passages.imp fun p s hmeets => ⟨hmeets.node, fun n b hn => ?_⟩
  obtain ⟨_, _, hkeeps, hlost⟩ := hmeets.env n b hn
  refine ⟨fun hfound => ?_, hkeeps⟩
  by_contra hnot
  exact hlost hnot (Env.mem_of_lookup hfound)

/-- The number of the variable that is found under a name. -/
def Env.number? (ε : Env) (n : Text) : Option Nat :=
  match ε.lookup n with
  | some (.variable b) => b.map (·.id)
  | _ => none

/-- `k = 1 y = __get_achronal_field(k) z = __get_achronal_field(y)`: two copies of a code literal that
speaks of the parameter `num`. -/
def twoFields : Block :=
  .mk [] [.assign (.make "k" (.literal (.int 1) {}) false {}),
    .assign (.make "y" (.apply getAchronalField {} [.name "k" {}] {}) false {}),
    .assign (.make "z" (.apply getAchronalField {} [.name "y" {}] {}) false {})] {}

/-- Each copy finds the parameter of its own call. -/
theorem twoFields_passages :
    let typed := ((twoFields.declare .default).1.annotate .default).1
    (typed.unfolded [] []).passages.length = 2
      ∧ ∃ x, typed.expand = .ok x ∧ List.Forall₂ (fun p s => s.node = .stmt (.code p.span p.text)
          ∧ ∀ n b, p.env.lookup n = some (.variable (some b)) →
              (s.env.lookup n = some (.variable (some b)) ↔ p.Keeps b))
        (typed.unfolded [] []).passages (codes (x.program.sites [])) := by
  -- Two code literals, by evaluation.
  refine ⟨by decide +kernel, @Block.expand_passages .default (by decide) twoFields _ _ ?_
    (Block.declare_eq_of_none ?_) (Block.annotate_eq_of_none ?_) ?_⟩
  · simp [twoFields, Block.Sourced, Block.Marked, MarkedStmts, Stmt.Marked, Assign.Marked, Assign.make,
      Expr.Bare, Expr.literal, Expr.name, Expr.apply, Expr.nodes, nodesOfList, Expr.IsBare, Dialect.full,
      Literal.ty]
  · decide +kernel
  · decide +kernel
  · decide +kernel

/-- `num = 1 y = __get_achronal_field(num + 1)`: the argument has the name of the parameter. -/
def callersNum : Block :=
  .mk [] [.assign (.make "num" (.literal (.int 1) {}) false {}),
    .assign (.make "y" (.apply getAchronalField {}
      [.infixOp .add (.name "num" {}) (.literal (.int 1) {})] {}) false {})] {}

/-- The parameter is renamed because the argument has its name, and the code literal, which speaks of the
parameter, finds the variable of the caller instead. -/
theorem callersNum_mistaken :
    (match (callersNum.declare .default).1.annotate .default with
      | (typed, none) => match typed.expand with
        | .ok x => some ((typed.unfolded [] []).passages.map (fun p => (p.text, p.env.number? "num")),
            (codes (x.program.sites [])).map fun s => s.env.number? "num")
        | .error _ => none
      | (_, some _) => none)
    = some ([(Text.ofString "PERFORM GET_ACHRONAL_FIELD num;", some 8)], [some 7]) := by
  decide +kernel

end AisScript
