import AisScript.Proofs.Pieces

/-!
# Hygiene of the expansion

Expansion copies the bodies of functions to the places of their calls.  In a program without
enumerations, made-up names and loop steps that declare, this never changes what a name means: read by
the innermost declaration in front of it, every name of the expanded program still finds the
declaration of its own binding, and a name of the host finds none.

* `Expr.expand_front`, `Stmt.expand_inner`   the pieces that expansion makes
* `Block.expand_hygienic`                    names of an expanded program mean what they meant
-/

namespace AisScript

/-! ## Clauses -/

/-- The clause of an expanded loop header, or an expanded assignment. -/
structure Clause (σ τ : Scope Entry) (lo hi k : Nat) (a : Option Assign) : Prop where
  tidy : Tidy lo hi k (clauseNodes a)
  reads : ∀ s ∈ clauseSites [] a, s.Reads σ lo
  new : New σ (clauseBehind [] a)
  carries : Carries σ τ lo (clauseBehind [] a)

/-- A clause that is absent. -/
theorem Clause.absent {D : Dialect} {σ : Scope Entry} {lo hi k : Nat} (hσ : Sound D lo σ) :
    Clause σ σ lo hi k none where
  tidy := Tidy.nil
  reads := nofun
  new := nofun
  carries _ _ hr _ := .inr ⟨(hσ.reached hr).1, hr, rfl⟩

/-- A declaration of a name that means nothing yet. -/
private theorem Clause.declaration {D : Dialect} {σ : Scope Entry} {lo k : Nat} (hσ : Sound D lo σ)
    {i : AssignInfo} {t : Ty} {v : Expr} (hd : i.declares = true)
    (hb : i.binding = some (.variable lo t)) (hplain : i.name.isPlain = true)
    (hnone : σ.lookup i.name = none) (hv : v.Reached σ) :
    Clause σ ((Assign.mk i v).extend σ) lo (lo + 1) k (some (.mk i v)) := by
  -- The clause declares its own name and nothing else.
  have hbehind : clauseBehind [] (some (.mk i v)) = [(i.name, .variable (some (.variable lo t)))] := by
    rw [clauseBehind, Assign.behind, Assign.info, if_pos hd, hb]
  have hextend : (Assign.mk i v).extend σ = σ.define i.name (.value (.variable lo t)) := by
    rw [Assign.extend, Assign.info, if_pos hd, hb]
  have hnot : ¬σ.Shows i.name := by
    rw [Scope.Shows, hnone]
    exact Bool.false_ne_true
  -- The parts of `Clause`: numbers, readings, what is behind it, and what it carries on.
  refine ⟨tidy_override v hplain hb, List.forall_mem_cons.2 ⟨fun n b hn => ?_, hv.reads hσ⟩, ?_, ?_⟩
  · have hrefers : (Node.stmt (.assign (.mk i v))).refers? = none := if_pos hd
    cases hrefers.symm.trans hn
  · rw [hbehind]
    exact fun y hy => .inr (List.mem_singleton.1 hy ▸ hnot)
  · rw [hbehind, hextend]
    intro n b hr _
    rw [List.lookup_cons]
    -- What is reached behind the declaration was reached before, or is the new variable.
    rcases hr.of_define with hr | ⟨rfl, hb⟩ | ⟨_, _, _, hb, _⟩
    · -- Everything that was reached is shown, so it has another name.
      have hne : n ≠ i.name := by
        rintro rfl
        exact hnot (hσ.closed hr)
      rw [beq_false_of_ne hne]
      exact .inr ⟨(hσ.reached hr).1, hr, rfl⟩
    · cases hb
      rw [beq_self_eq_true]
      exact .inl ⟨Nat.le_refl lo, rfl⟩
    · cases hb

/-- An assignment of a variable that is found. -/
private theorem Clause.assignment {D : Dialect} {σ : Scope Entry} {lo k : Nat} (hσ : Sound D lo σ)
    {i : AssignInfo} {v : Expr} (hd : i.declares = false) {b : Binding} (hb : i.binding = some b)
    (hplain : i.name.isPlain = true) (hsome : σ.lookup i.name = some (.value b)) (hv : v.Reached σ) :
    Clause σ ((Assign.mk i v).extend σ) lo lo k (some (.mk i v)) := by
  have hneg : ¬i.declares = true := by
    rw [hd]
    exact Bool.false_ne_true
  -- Nothing is declared, so the scope stays as it is.
  have hbehind : clauseBehind [] (some (.mk i v)) = [] := if_neg hneg
  have hextend : (Assign.mk i v).extend σ = σ := if_neg hneg
  refine ⟨(Tidy.exprs v.nodes).cons fun y hy => hneg hy.1,
    List.forall_mem_cons.2 ⟨fun n c hn => ?_, hv.reads hσ⟩, ?_, ?_⟩
  -- The assigned variable is reached in the scope of the assignment.
  · have hrefers : (Node.stmt (.assign (.mk i v))).refers? = some (i.name, b) := by
      rw [Node.refers?, Assign.info, if_neg hneg, hb]
      rfl
    cases hrefers.symm.trans hn
    have hr : Reaches σ i.name b := .here hsome
    exact .inr ⟨(hσ.reached hr).1, hr, hplain, rfl⟩
  · rw [hbehind]
    exact List.forall_mem_nil _
  · rw [hbehind, hextend]
    exact fun _ _ hr _ => .inr ⟨(hσ.reached hr).1, hr, rfl⟩

/-- An assignment with what expansion may leave of its value. -/
theorem Assign.Resolved.clause {σ : Scope Entry} {lo hi : Nat} {i : AssignInfo} {v : Expr}
    (hσ : Sound .plain lo σ) (h : (Assign.mk i v).Resolved .plain σ lo hi) :
    ∃ mid, v.Resolved .plain σ lo mid ∧ mid ≤ hi ∧ ∀ k v', v'.Reached σ →
      Clause σ ((Assign.mk i v).extend σ) mid hi k (some (.mk i v')) := by
  obtain ⟨mid, t, _, hplain, hres, _, _, hdeclares, hassigns⟩ := h
  have hσ := hσ.mono hres.le
  refine ⟨mid, hres, ?_⟩
  -- The two kinds of assignments, by what the resolution says of each.
  cases hd : i.declares with
  | true =>
    obtain ⟨hnone, hb, rfl⟩ := hdeclares hd
    exact ⟨Nat.le_succ mid, fun _ _ hv => Clause.declaration hσ hd hb hplain hnone hv⟩
  | false =>
    obtain ⟨rfl, b, hsome, hb, _⟩ := hassigns hd
    exact ⟨Nat.le_refl _, fun _ _ hv => Clause.assignment hσ hd hb hplain hsome hv⟩

/-- An expanded assignment as a statement. -/
theorem Clause.inner {σ τ : Scope Entry} {lo hi k : Nat} {a : Assign}
    (h : Clause σ τ lo hi k (some a)) : Inner σ lo hi k k [.assign a] where
  grows := Nat.le_refl k
  tidy := by
    rw [stmtsNodes_singleton]
    exact h.tidy
  reads := by
    rw [stmtsSites_singleton]
    exact h.reads
  new := h.new

/-! ## Loops -/

section Loops

variable {D : Dialect} {σ η : Scope Entry} {lo mid hi k : Nat} {x : Node} {y : Text × Binder}
  {sp span span' : Span} {c c' : Option Expr} {st st' : Option Assign} {q r ss last : List Stmt}

/-- A step that declares nothing changes neither the scope nor what is declared. -/
private theorem clauseBehind_of_not_declares (h : ∀ a, st = some a → ¬a.info.declares = true) :
    extendClause σ st = σ ∧ ∀ ε, clauseBehind ε st = ε := by
  cases st with
  | none => exact ⟨rfl, fun _ => rfl⟩
  | some a => exact ⟨if_neg (h a rfl), fun _ => if_neg (h a rfl)⟩

/-- A guarded body binds what the body binds. -/
theorem binds_guarded {test : Expr} {b : Block} (hx : x ∈ (guarded sp test b).nodes)
    (hy : x.Binds y) : x ∈ b.nodes := by
  rcases List.mem_cons.1 hx with rfl | hx
  · exact hy.elim
  · rcases List.mem_append.1 hx with hx | hx
    · rcases List.mem_append.1 hx with hx | hx
      · obtain ⟨_, _, rfl⟩ := List.mem_map.1 hx
        exact hy.elim
      · exact hx
    · rw [List.mem_singleton.1 hx] at hy
      exact hy.elim

/-- A step that has moved binds what it bound. -/
theorem mem_movedStep (hx : x ∈ stmtsNodes (movedStep st r st')) :
    x ∈ stmtsNodes r ∨ x ∈ clauseNodes st' := by
  unfold movedStep at hx
  split at hx
  · rw [stmtsNodes_append] at hx
    refine (List.mem_append.1 hx).imp_right fun hx => ?_
    cases st' with
    | none => exact hx
    | some a =>
      simp only [Option.toList_some, List.map_cons, List.map_nil, stmtsNodes_singleton] at hx
      exact hx
  · cases hx

/-- The body of a loop with what has moved there binds nothing else. -/
theorem binds_foldedBody (hx : x ∈ (foldedBody sp c q c' span (.mk [] ss span') last).nodes)
    (hy : x.Binds y) : x ∈ stmtsNodes q ∨ x ∈ stmtsNodes ss ∨ x ∈ stmtsNodes last := by
  unfold foldedBody at hx
  split at hx
  · simp only [Block.nodes, List.flatMap_nil, List.nil_append, stmtsNodes_append, stmtsNodes_singleton,
      List.mem_append] at hx
    rcases hx with (hx | hx) | hx
    · exact .inl hx
    · exact .inr (.inl (binds_guarded hx hy))
    · exact .inr (.inr hx)
  · simp only [Block.overrides, Block.stmts, Block.nodes, List.flatMap_nil, List.nil_append,
      stmtsNodes_append, List.mem_append] at hx
    exact .inr hx

/-- A guarded body is quiet if the body is. -/
private theorem quiet_guarded (sp span : Span) (hσ : Sound D lo σ) {test : Expr} (htest : test.Reached σ)
    (hss : Quiet σ lo ss) : Quiet σ lo [guarded sp test (.mk [] ss span)] := by
  refine ⟨?_, fun _ hy => nomatch hy⟩
  rw [stmtsSites_singleton]
  refine List.forall_mem_cons.2 ⟨Site.reads_of_none rfl, List.forall_mem_append.2
    ⟨List.forall_mem_append.2 ⟨htest.reads hσ, hss.1⟩, ?_⟩⟩
  exact List.forall_mem_singleton.2 (Site.reads_of_none rfl)

/-- A step that has moved is quiet. -/
private theorem quiet_movedStep (hσ : Sound D lo σ) (hr : Quiet σ lo r)
    (hst : ∀ a, st' = some a → Quiet σ lo [.assign a]) : Quiet σ lo (movedStep st r st') := by
  unfold movedStep
  split
  · cases st' with
    | none => exact hr.append hσ Quiet.nil
    | some a => exact hr.append hσ (hst a rfl)
  · exact Quiet.nil

/-- The body of a loop with what has moved there, in the scope of the header. -/
private theorem foldedBody_reads (hσ : Sound D lo σ) (hq : Quiet σ lo q)
    (hc : ∀ e, c' = some e → e.Reached σ) (hss : Quiet σ lo ss) (hlast : Quiet σ lo last) :
    ∀ s ∈ (foldedBody sp c q c' span (.mk [] ss span') last).sites [], s.Reads σ lo := by
  unfold foldedBody
  split
  · exact ((hq.append hσ (quiet_guarded _ _ hσ (hc _ rfl) hss)).append hσ hlast).1
  · exact (hss.append hσ hlast).1

/-- A loop whose step declares nothing, from its parts in the scope behind its first clause. -/
private theorem forLoop_reads {i : Option Assign} {b : Block} (hi : Clause σ η lo mid k i)
    (hle : lo ≤ mid) (hη : Sound D mid η)
    (hc : ∀ x ∈ nodesOfOption c, ∀ n d, (Node.expr x).refers? = some (n, d) →
      Reaches η n d ∧ n.isPlain = true)
    (hst : ∀ s ∈ clauseSites [] st, s.Reads η mid) (hno : ∀ ε, clauseBehind ε st = ε)
    (hb : ∀ s ∈ b.sites [], s.Reads η mid) :
    ∀ s ∈ (Stmt.forLoop sp i c st b).sites [], s.Reads σ lo := by
  -- Whatever reads in the scope behind the first clause reads under its declarations.
  have hunder : ∀ {ts : List Site}, (∀ s ∈ ts, s.Reads η mid) →
      ∀ s ∈ ts.map (·.under (clauseBehind [] i)), s.Reads σ lo := fun hts =>
    List.forall_mem_map.2 fun s hs => (hts s hs).under hi.carries hle
  refine List.forall_mem_cons.2 ⟨Site.reads_of_none rfl, ?_⟩
  rw [hno]
  refine List.forall_mem_append.2 ⟨List.forall_mem_append.2 ⟨List.forall_mem_append.2 ⟨?_, hi.reads⟩, ?_⟩, ?_⟩
  -- The test, the step and the body, each under the first clause.
  · have h := hunder (reads_of_reached hη hc)
    rwa [List.map_map] at h
  · have h := hunder hst
    rwa [clauseSites, List.map_map] at h
  · have h := hunder hb
    rwa [← Block.sites_under] at h

/-- The nodes of an expanded loop bind under numbers of their own. -/
private theorem forLoop_tidy {i : Option Assign} {m₁ m₂ m₃ m₄ k₁ k₂ k₃ : Nat}
    (hinit : Tidy lo m₁ k (clauseNodes i)) (hq : Tidy m₁ m₂ k₁ (stmtsNodes q))
    (hr : Tidy m₂ m₃ k₃ (stmtsNodes r)) (hst : Tidy m₃ m₄ k₃ (clauseNodes st'))
    (hss : Tidy m₄ hi k₂ (stmtsNodes ss)) (hm : lo ≤ m₁ ∧ m₁ ≤ m₂ ∧ m₂ ≤ m₃ ∧ m₃ ≤ m₄ ∧ m₄ ≤ hi)
    (hk : k ≤ k₁ ∧ k₁ ≤ k₂ ∧ k₂ ≤ k₃) {test : Option Expr} {step : Option Assign}
    (hstep : step = none ∨ step = st') :
    Tidy lo hi k₃ (Stmt.forLoop sp i test step
      (foldedBody sp c q c' span (.mk [] ss span') (movedStep st r st'))).nodes := by
  obtain ⟨h₁, h₂, h₃, h₄, h₅⟩ := hm
  -- Fresh names may be counted up to the end of the loop in all parts.
  have hinit : Tidy lo m₁ k₃ _ := hinit.mono (Nat.le_refl _) (Nat.le_refl _) (by omega)
  have hq : Tidy m₁ m₂ k₃ _ := hq.mono (Nat.le_refl _) (Nat.le_refl _) (by omega)
  have hss : Tidy m₄ hi k₃ _ := hss.mono (Nat.le_refl _) (Nat.le_refl _) (by omega)
  have hall := hinit.append (hq.append ((hr.append hst h₃ h₄).append hss (by omega) h₅) h₂ (by omega)) h₁
    (by omega)
  -- What binds in the loop binds in one of the parts, and those are apart.
  refine hall.of_binds fun x hx y hy => ?_
  simp only [List.mem_append]
  rcases List.mem_cons.1 hx with rfl | hx
  · exact hy.elim
  rcases List.mem_append.1 hx with hx | hx
  -- Condition, first clause and step of the header.
  · rcases List.mem_append.1 hx with hx | hx
    · rcases List.mem_append.1 hx with hx | hx
      · obtain ⟨_, _, rfl⟩ := List.mem_map.1 hx
        exact hy.elim
      · exact .inl hx
    · rcases hstep with hstep | hstep <;> rw [hstep] at hx
      · cases hx
      · exact .inr (.inr (.inl (.inr hx)))
  -- The folded body, with what stands in front of the test and behind the body.
  · rcases binds_foldedBody hx hy with hx | hx | hx
    · exact .inr (.inl hx)
    · exact .inr (.inr (.inr hx))
    · exact .inr (.inr (.inl (mem_movedStep hx)))

end Loops

/-! ## Expansion -/

/-- What is shown stays shown behind a statement. -/
private theorem Stmt.Resolved.shows {σ : Scope Entry} {lo hi : Nat} {last : Bool} {s : Stmt}
    (h : s.Resolved .plain σ lo hi last) : ∀ n, σ.Shows n → (s.extend σ lo).Shows n := by
  intro n hn
  cases s with
  | assign a =>
    -- An assignment defines a name at most, and what is defined shows.
    rw [Stmt.extend, Assign.extend]
    split
    · split
      · exact hn.define _ _
      · exact hn
    · exact hn
  | funcDef sp f ns ps b => exact hn.define _ _
  | bitfieldDef sp d => exact hn.define _ _
  -- Dialects without enumerations have no definition of one.
  | enumDef sp d => exact h.1.1.elim
  | _ => exact hn

/-- Everything that expressions refer to is reached. -/
private theorem reached_nodesOfList {σ : Scope Entry} {es : List Expr} (h : ∀ e ∈ es, e.Reached σ) :
    ∀ x ∈ nodesOfList es, ∀ n b, (Node.expr x).refers? = some (n, b) →
      Reaches σ n b ∧ n.isPlain = true := by
  induction es with
  | nil => exact fun _ hx => nomatch hx
  | cons e es ih =>
    obtain ⟨he, hes⟩ := List.forall_mem_cons.1 h
    exact List.forall_mem_append.2 ⟨he, ih hes⟩

/-- A node that refers to nothing itself, and those below it. -/
private theorem Expr.Reached.node {σ : Scope Entry} {e : Expr} {es : List Expr}
    (hnodes : e.nodes = e :: es) (hnone : (Node.expr e).refers? = none)
    (hes : ∀ x ∈ es, ∀ n b, (Node.expr x).refers? = some (n, b) → Reaches σ n b ∧ n.isPlain = true) :
    e.Reached σ := by
  rw [Expr.Reached, hnodes]
  exact List.forall_mem_cons.2 ⟨fun _ _ hn => (nomatch hnone.symm.trans hn), hes⟩

mutual

/-- What expansion makes of an expression: a piece in front, and an expression that refers only to what
is reached. -/
theorem Expr.expand_front {σ : Scope Entry} {lo hi : Nat} (hσ : Sound .plain lo σ) : (e : Expr) →
    e.Resolved .plain σ lo hi → ∀ {c p e' c'}, e.expand c = .ok ((p, e'), c') →
      Front σ lo hi c.renamed c'.renamed p ∧ e'.Reached σ
  | .const i v, _, _, _, _, _, he => by
    cases he
    exact ⟨Front.nil, Expr.Reached.node rfl rfl nofun⟩
  | .var i n b, h, _, _, _, _, he => by
    cases he
    obtain ⟨rfl, hplain, d, hd, rfl, _⟩ := h
    -- A variable is reached where it is found.
    refine ⟨Front.nil, List.forall_mem_cons.2 ⟨fun m b hn => ?_, nofun⟩⟩
    cases hn
    exact ⟨.here hd, hplain⟩
  | .binary i op l r, h, _, _, _, _, he => by
    obtain ⟨mid, _, _, _, hl, _, hr, _⟩ := h
    obtain ⟨p, l', c₁, hl', q, r', c₂, hr', ⟨⟩⟩ := Expr.expand_binary_ok.1 he
    -- The pieces in front of the operands follow each other, also in their numbers.
    obtain ⟨hp, hlr⟩ := Expr.expand_front hσ l hl hl'
    obtain ⟨hq, hrr⟩ := Expr.expand_front (hσ.mono hl.le) r hr hr'
    exact ⟨hp.append hσ hq hl.le hr.le, Expr.Reached.node rfl rfl (List.forall_mem_append.2 ⟨hlr, hrr⟩)⟩
  | .unary i op x, h, _, _, _, _, he => by
    obtain ⟨_, _, hx, _⟩ := h
    obtain ⟨p, x', c₁, hx', ⟨⟩⟩ := Expr.expand_unary_ok.1 he
    obtain ⟨hp, hxr⟩ := Expr.expand_front hσ x hx hx'
    exact ⟨hp, Expr.Reached.node rfl rfl hxr⟩
  | .member i a b n ns, h, _, _, _, _, he => by
    obtain ⟨_, _, hb, _⟩ := h
    obtain ⟨p, b', c₁, hb', ⟨⟩⟩ := Expr.expand_member_ok.1 he
    obtain ⟨hp, hbr⟩ := Expr.expand_front hσ b hb hb'
    exact ⟨hp, Expr.Reached.node rfl rfl hbr⟩
  | .query i k op u x q, h, _, _, _, _, he => by
    obtain ⟨m₁, m₂, hu, hx, hq, _⟩ := h
    obtain ⟨pu, u', c₁, hu', px, x', c₂, hx', pq, q', c₃, hq', ⟨⟩⟩ := Expr.expand_query_ok.1 he
    -- The three parts of a query, one behind the other.
    obtain ⟨hpu, hur⟩ := expandOption_front hσ u hu hu'
    obtain ⟨hpx, hxr⟩ := expandOption_front (hσ.mono hu.le) x hx hx'
    obtain ⟨hpq, hqr⟩ := expandOption_front (hσ.mono (Nat.le_trans hu.le hx.le)) q hq hq'
    exact ⟨(hpu.append hσ hpx hu.le hx.le).append hσ hpq (Nat.le_trans hu.le hx.le) hq.le,
      Expr.Reached.node rfl rfl (List.forall_mem_append.2 ⟨List.forall_mem_append.2 ⟨hur, hxr⟩, hqr⟩)⟩
  | .call i n ns args (.function binds body), h, _, _, _, _, he => by
    obtain ⟨mid, types, t, hargs, ⟨params, template, captured, hf, hlen, rfl, hbody, rfl⟩, _⟩ := h
    -- Arguments, note, body, fresh names and place.
    obtain ⟨p, args', c₁, hargs', body', c₃, hbody', body'', c₄, hfresh, q, e, c₅, hplace, ⟨⟩⟩ :=
      Expr.expand_call_ok.1 he
    have hmid := hargs.le
    have hlast := hbody.le
    obtain ⟨hp, hlen', hreached⟩ := expandList_front hσ args hargs hargs'
    -- The body is typed in the scope of the definition, and moved to the scope of the call.
    obtain ⟨hs, _⟩ := bodyScope_sound ((hσ.inner hf).mono hmid) params hargs.proper
    obtain ⟨ss, rfl, hss⟩ := Block.expandOver_inner hs body hbody hbody'
    -- Moved to the call, the body meets foreign variables under its own declarations.
    obtain ⟨ht, hm⟩ := called_meets body.span rfl hσ hmid hf hlen hlen' hreached hlast hss
    -- Freshening renames the declarations that stand in the way, so that all of it reads.
    obtain ⟨hgrows, ht, hr⟩ := Block.freshen_reads ht hm
    cases hfresh
    obtain ⟨hq, he⟩ := placeBody_front (hσ.mono hmid) (Nat.le_trans (Nat.le_add_right _ _) hlast) ht hr
      (Expr.Reached.node rfl rfl (reached_nodesOfList hreached)) hplace
    -- The whole is a piece behind that of the arguments.
    refine ⟨hp.append hσ ?_ hmid (Nat.le_trans (Nat.le_add_right _ _) hlast), he⟩
    exact ⟨Nat.le_trans hss.grows (Nat.le_trans hgrows hq.grows), hq.tidy, hq.reads, hq.temps⟩
  | .call i n ns args .unresolved, h, _, _, _, _, _ => by
    obtain ⟨_, _, _, _, h, _⟩ := h
    exact h.elim
  | .call i n ns args (.intrinsic op), h, _, _, _, _, he => by
    obtain ⟨mid, _, _, hargs, ⟨rfl, _⟩, _⟩ := h
    -- Calls of the host stay and refer to what their arguments refer to.
    obtain ⟨p, args', c₁, hargs', ⟨⟩⟩ := (Expr.expand_keptCall_ok rfl).1 he
    obtain ⟨hp, _, hreached⟩ := expandList_front hσ args hargs hargs'
    exact ⟨hp, Expr.Reached.node rfl rfl (reached_nodesOfList hreached)⟩
  | .call i n ns args (.constructor layout), h, _, _, _, _, he => by
    obtain ⟨mid, _, _, hargs, ⟨rfl, _⟩, _⟩ := h
    obtain ⟨p, args', c₁, hargs', ⟨⟩⟩ := (Expr.expand_keptCall_ok rfl).1 he
    obtain ⟨hp, _, hreached⟩ := expandList_front hσ args hargs hargs'
    exact ⟨hp, Expr.Reached.node rfl rfl (reached_nodesOfList hreached)⟩
  termination_by structural e => e

/-- What expansion makes of arguments. -/
private theorem expandList_front {σ : Scope Entry} {lo hi : Nat} {types : List Ty} (hσ : Sound .plain lo σ) :
    (es : List Expr) → ResolvedArgs .plain σ lo hi types es → ∀ {c p es' c'},
      expandList es c = .ok ((p, es'), c') →
        Front σ lo hi c.renamed c'.renamed p ∧ es'.length = es.length ∧ ∀ e ∈ es', e.Reached σ
  | [], _, _, _, _, _, he => by
    cases he
    exact ⟨Front.nil, rfl, nofun⟩
  | e :: es, ⟨mid, _, _, _, he, _, _, hes⟩, _, _, _, _, h => by
    obtain ⟨p, e', c₁, he', q, es', c₂, hes', ⟨⟩⟩ := expandList_cons_ok.1 h
    -- One argument behind the other.
    obtain ⟨hp, her⟩ := Expr.expand_front hσ e he he'
    obtain ⟨hq, hlen, hesr⟩ := expandList_front (hσ.mono he.le) es hes hes'
    exact ⟨hp.append hσ hq he.le hes.le, congrArg (· + 1) hlen, List.forall_mem_cons.2 ⟨her, hesr⟩⟩
  termination_by structural es => es

/-- What expansion makes of an expression that may be absent. -/
private theorem expandOption_front {σ : Scope Entry} {lo hi : Nat} (hσ : Sound .plain lo σ) :
    (e : Option Expr) → ResolvedOption .plain σ lo hi e → ∀ {c p e' c'},
      expandOption e c = .ok ((p, e'), c') → Front σ lo hi c.renamed c'.renamed p
        ∧ ∀ x ∈ nodesOfOption e', ∀ n b, (Node.expr x).refers? = some (n, b) →
            Reaches σ n b ∧ n.isPlain = true
  | none, _, _, _, _, _, he => by
    -- Nothing is there to expand.
    cases he
    exact ⟨Front.nil, nofun⟩
  | some e, ⟨h, _⟩, _, _, _, _, he => by
    obtain ⟨p, e', c₁, he', ⟨⟩⟩ := expandOption_some_ok.1 he
    exact Expr.expand_front hσ e h he'
  termination_by structural e => e

/-- What expansion makes of an assignment. -/
private theorem Assign.expand_clause {σ : Scope Entry} {lo hi : Nat} (hσ : Sound .plain lo σ) : (a : Assign) →
    a.Resolved .plain σ lo hi → ∀ {c p a' c'}, a.expand c = .ok ((p, a'), c') →
      ∃ mid, lo ≤ mid ∧ mid ≤ hi ∧ Front σ lo mid c.renamed c'.renamed p
        ∧ Clause σ (a.extend σ) mid hi c'.renamed (some a')
  | .mk i v, h, _, _, _, _, ha => by
    obtain ⟨p, v', c₁, hv', ⟨⟩⟩ := Assign.expand_ok.1 ha
    obtain ⟨mid, hv, hle, hclause⟩ := h.clause hσ
    obtain ⟨hp, hvr⟩ := Expr.expand_front hσ v hv hv'
    exact ⟨mid, hv.le, hle, hp, hclause _ v' hvr⟩
  termination_by structural a => a

/-- What expansion makes of a clause that may be absent. -/
private theorem expandClause_clause {σ : Scope Entry} {lo hi : Nat} (hσ : Sound .plain lo σ) :
    (a : Option Assign) → ResolvedClause .plain σ lo hi a → ∀ {c p a' c'},
      expandClause a c = .ok ((p, a'), c') →
        ∃ mid, lo ≤ mid ∧ mid ≤ hi ∧ Front σ lo mid c.renamed c'.renamed p
          ∧ Clause σ (extendClause σ a) mid hi c'.renamed a'
  | none, h, _, _, _, _, ha => by
    cases ha
    -- An absent clause is nothing behind nothing.
    exact ⟨lo, Nat.le_refl lo, Nat.le_of_eq h.symm, Front.nil, Clause.absent hσ⟩
  | some a, h, _, _, _, _, ha => by
    obtain ⟨p, a', c₁, ha', ⟨⟩⟩ := expandClause_some_ok.1 ha
    exact Assign.expand_clause hσ a h ha'
  termination_by structural a => a

/-- What expansion makes of a statement: a piece that carries the scope on. -/
theorem Stmt.expand_inner {σ : Scope Entry} {lo hi : Nat} {last : Bool} (hσ : Sound .plain lo σ) :
    (s : Stmt) → s.Resolved .plain σ lo hi last → ∀ {c ss c'}, s.expand c = .ok (ss, c') →
      Inner σ lo hi c.renamed c'.renamed ss ∧ Carries σ (s.extend σ lo) lo (stmtsBehind [] ss)
  | .block b, h, _, _, _, hs => by
    obtain ⟨b', c₁, hb', ⟨⟩⟩ := Stmt.expand_block_ok.1 hs
    obtain ⟨ss, rfl, hss⟩ := Block.expandOver_inner hσ.push b h hb'
    -- A frame that is opened shows what the scope shows.
    have hss := hss.congr fun m => (σ.lookup_push m).symm
    exact Front.nil.stmt hσ hss.grows (hss.tidy.cons fun _ hy => hy)
      (List.forall_mem_cons.2 ⟨Site.reads_of_none rfl, hss.reads⟩) rfl (Nat.le_refl lo) h.le
  | .eval sp e, h, _, _, _, hs => by
    obtain ⟨p, e', c₁, he', hs⟩ := Stmt.expand_eval_ok.1 hs
    obtain ⟨hp, her⟩ := Expr.expand_front hσ e h he'
    split at hs <;> cases hs
    -- A call that stands alone leaves the piece in front of it.
    · exact ⟨hp.inner, hp.temps.carries hσ⟩
    · exact hp.stmt hσ (Nat.le_refl _) ((Tidy.exprs e'.nodes).cons fun _ hy => hy)
        (List.forall_mem_cons.2 ⟨Site.reads_of_none rfl, her.reads (hσ.mono h.le)⟩) rfl h.le
        (Nat.le_refl hi)
  | .assign a, h, _, _, _, hs => by
    obtain ⟨p, a', c₁, ha', ⟨⟩⟩ := Stmt.expand_assign_ok.1 hs
    obtain ⟨mid, hlo, hhi, hp, hclause⟩ := Assign.expand_clause hσ a h ha'
    refine ⟨hp.then hσ hclause.inner hlo hhi, ?_⟩
    -- What is behind the assignment is behind the clause, and temporaries in front of it.
    rw [stmtsBehind_append, stmtsBehind_eq_append]
    exact (hp.temps.carries hσ).trans hclause.carries hlo
  | .assignMember sp t v, h, _, _, _, hs => by
    obtain ⟨mid, _, _, ht, _, hv, _⟩ := h
    obtain ⟨p, t', c₁, ht', q, v', c₂, hv', ⟨⟩⟩ := Stmt.expand_assignMember_ok.1 hs
    -- Target and value in a row, with the statement behind both.
    obtain ⟨hp, htr⟩ := Expr.expand_front hσ t ht ht'
    obtain ⟨hq, hvr⟩ := Expr.expand_front (hσ.mono ht.le) v hv hv'
    have hle := Nat.le_trans ht.le hv.le
    have hσ' := hσ.mono hle
    refine (hp.append hσ hq ht.le hv.le).stmt hσ (Nat.le_refl _) (Tidy.cons ?_ fun _ hy => hy)
      (List.forall_mem_cons.2 ⟨Site.reads_of_none rfl, List.forall_mem_append.2
        ⟨htr.reads hσ', hvr.reads hσ'⟩⟩) rfl hle (Nat.le_refl hi)
    rw [exprNodes, exprNodes, ← List.map_append]
    exact Tidy.exprs _
  | .cond sp x t f, h, _, _, _, hs => by
    obtain ⟨m₁, m₂, _, hx, _, _, ht, hf⟩ := h
    obtain ⟨p, x', c₁, hx', t', c₂, ht', f', c₃, hf', ⟨⟩⟩ := Stmt.expand_cond_ok.1 hs
    have hσ₁ := hσ.mono hx.le
    obtain ⟨hp, hxr⟩ := Expr.expand_front hσ x hx hx'
    obtain ⟨ts, rfl, hts⟩ := Block.expandOver_inner hσ₁.push t ht ht'
    -- The branches are typed behind the condition, each in a frame that is closed again.
    have hts := hts.congr fun m => (σ.lookup_push m).symm
    have hexprs : Tidy m₁ m₁ c₂.renamed (exprNodes x') := Tidy.exprs x'.nodes
    have hfront := hexprs.append hts.tidy (Nat.le_refl m₁) ht.le
    -- Without an else block one branch follows the condition, otherwise two.
    cases f with
    | none =>
      obtain rfl : hi = m₂ := hf
      cases hf'
      exact hp.stmt hσ hts.grows (hfront.cons fun _ hy => hy) (List.forall_mem_cons.2
        ⟨Site.reads_of_none rfl, List.forall_mem_append.2 ⟨hxr.reads hσ₁, hts.reads⟩⟩) rfl hx.le ht.le
    | some f =>
      obtain ⟨_, _, hf', ⟨⟩⟩ := expandElse_some_ok.1 hf'
      obtain ⟨fs, rfl, hfs⟩ := Block.expandOver_inner (hσ₁.mono ht.le).push f hf hf'
      have hfs := hfs.congr fun m => (σ.lookup_push m).symm
      have hfle : m₂ ≤ hi := Block.Resolved.le f hf
      have htidy := (hfront.mono (Nat.le_refl _) (Nat.le_refl _) hfs.grows).append hfs.tidy ht.le hfle
      exact hp.stmt hσ (Nat.le_trans hts.grows hfs.grows) (htidy.cons fun _ hy => hy)
        (List.forall_mem_cons.2 ⟨Site.reads_of_none rfl, List.forall_mem_append.2 ⟨List.forall_mem_append.2
          ⟨hxr.reads hσ₁, hts.reads⟩, fun s hs => (hfs.reads s hs).lower hσ₁ ht.le⟩⟩) rfl hx.le
        (Nat.le_trans ht.le hfle)
  | .loop sp x b, h, _, _, _, hs => by
    obtain ⟨mid, _, hx, _, _, hb⟩ := h
    obtain ⟨p, x', c₁, hx', b', c₂, hb', ⟨⟩⟩ := Stmt.expand_loop_ok.1 hs
    have hσ₁ := hσ.mono hx.le
    obtain ⟨hp, hxr⟩ := Expr.expand_front hσ x hx hx'
    obtain ⟨ss, rfl, hss⟩ := Block.expandOver_inner hσ₁.push b hb hb'
    have hss := hss.congr fun m => (σ.lookup_push m).symm
    -- The condition has moved into the body, behind what stands in front of it.
    have hbody := (hp.inner.quiet hσ (Nat.le_refl lo)).append hσ
      (quiet_guarded sp b.span hσ hxr (hss.quiet hσ hx.le))
    have htidy := (hp.tidy.mono (Nat.le_refl _) (Nat.le_refl _) hss.grows).append hss.tidy hx.le hb.le
    refine Front.nil.stmt hσ (Nat.le_trans hp.grows hss.grows) (htidy.of_binds fun y hy z hz => ?_)
      (List.forall_mem_cons.2 ⟨Site.reads_of_none rfl, List.forall_mem_cons.2
        ⟨Site.reads_of_none rfl, hbody.1⟩⟩) rfl (Nat.le_refl lo) (Nat.le_trans hx.le hb.le)
    -- Neither the loop nor its literal condition binds anything.
    rcases List.mem_cons.1 hy with rfl | hy
    · exact hz.elim
    · rcases List.mem_cons.1 hy with rfl | hy
      · exact hz.elim
      · change y ∈ stmtsNodes (p ++ [guarded sp x' _]) at hy
        rw [stmtsNodes_append, stmtsNodes_singleton] at hy
        rcases List.mem_append.1 hy with hy | hy
        · exact List.mem_append_left _ hy
        · exact List.mem_append_right _ (binds_guarded hy hz)
  | .forLoop sp i x st b, h, _, _, _, hs => by
    obtain ⟨m₁, m₂, m₃, hi, hx, hst, hno, hb⟩ := h
    obtain ⟨p, i', c₁, hi', q, x', c₂, hx', b', c₃, hb', r, st', c₄, hst', ⟨⟩⟩ := Stmt.expand_forLoop_ok.1 hs
    have hσ₁ := hσ.push
    have hη := ResolvedClause.sound hσ₁ hi
    have hη₃ := hη.mono (Nat.le_trans hx.le hst.le)
    -- The step declares nothing in this dialect, so the scope behind it is that of the first clause.
    obtain ⟨hext, hbehind⟩ := clauseBehind_of_not_declares (σ := extendClause σ.push i) hno
    rw [hext] at hb
    -- Each part of the loop, in the scope that the parts in front of it leave.
    obtain ⟨m, hlo, hm, hp, hclause⟩ := expandClause_clause hσ₁ i hi hi'
    obtain ⟨hq, hxr⟩ := expandOption_front hη x hx hx'
    obtain ⟨ss, rfl, hss⟩ := Block.expandOver_inner hη₃.push b hb hb'
    have hss := hss.congr fun n => (Scope.lookup_push _ n).symm
    obtain ⟨m', hm₂, hm', hr, hstep⟩ := expandClause_clause (hη.mono hx.le) st hst hst'
    -- A step that stays is the old one, as it has nothing to expand.
    have hkeep : (if stepCalls st then none else st) = none
        ∨ (if stepCalls st then none else st) = st' := by
      cases hcalls : stepCalls st with
      | true => exact .inl rfl
      | false =>
        rw [expandClause_of_not_stepCalls hcalls] at hst'
        cases hst'
        exact .inr rfl
    have hp := hp.congr fun n => (σ.lookup_push n).symm
    refine hp.stmt hσ (Nat.le_trans hq.grows (Nat.le_trans hss.grows hr.grows)) (forLoop_tidy
      hclause.tidy hq.tidy hr.tidy hstep.tidy hss.tidy ⟨hm, hx.le, hm₂, hm', hb.le⟩
      ⟨hq.grows, hss.grows, hr.grows⟩ hkeep) (fun s hs => ?_) rfl hlo ?_
    · refine Site.Reads.congr ?_ fun n => (σ.lookup_push n).symm
      refine forLoop_reads hclause hm hη ?_ ?_ ?_ ?_ s hs
      -- A condition with calls has left the header.
      · cases hcalls : testCalls x with
        | true => exact nofun
        | false =>
          rw [expandOption_of_not_testCalls hcalls] at hx'
          cases hx'
          exact hxr
      -- And so has a step with calls; otherwise it reads where it stands.
      · rcases hkeep with hkeep | hkeep <;> rw [hkeep]
        · exact nofun
        · exact fun s hs => (hstep.reads s hs).lower hη (Nat.le_trans hx.le hm₂)
      · split
        · exact fun _ => rfl
        · exact hbehind
      -- The folded body reads all that has moved into it.
      · refine foldedBody_reads hη (hq.inner.quiet hη (Nat.le_refl _)) ?_
          (hss.quiet hη (Nat.le_trans hx.le hst.le)) ?_
        · rintro e rfl
          exact hxr
        · refine quiet_movedStep hη (hr.inner.quiet hη hx.le) ?_
          rintro a rfl
          exact hstep.inner.quiet hη (Nat.le_trans hx.le hm₂)
    · exact Nat.le_trans hm (Nat.le_trans hx.le (Nat.le_trans hst.le hb.le))
  | .ret sp v, h, _, _, _, hs => by
    obtain ⟨_, hv, _⟩ := h
    obtain ⟨p, v', c₁, hv', ⟨⟩⟩ := Stmt.expand_ret_ok.1 hs
    obtain ⟨hp, hvr⟩ := Expr.expand_front hσ v hv hv'
    exact hp.stmt hσ (Nat.le_refl _) ((Tidy.exprs v'.nodes).cons fun _ hy => hy)
      (List.forall_mem_cons.2 ⟨Site.reads_of_none rfl, hvr.reads (hσ.mono hv.le)⟩) rfl hv.le
      (Nat.le_refl hi)
  -- These statements refer to nothing.
  | .leave sp, h, _, _, _, hs | .code sp t, h, _, _, _, hs => by
    cases hs
    obtain rfl : hi = lo := h
    exact Front.nil.stmt hσ (Nat.le_refl _) (Tidy.nil.cons fun _ hy => hy)
      (List.forall_mem_singleton.2 (Site.reads_of_none rfl)) rfl (Nat.le_refl _) (Nat.le_refl _)
  | .bitfieldDef sp d, h, _, _, _, hs => by
    cases hs
    obtain rfl : hi = lo := h
    refine ⟨Inner.single (Tidy.nil.cons fun _ hy => hy)
      (List.forall_mem_singleton.2 (Site.reads_of_none rfl)) rfl, fun n b hr _ => ?_⟩
    -- A bitfield is no variable, so nothing else is reached.
    rcases hr.of_define with hr | ⟨_, hb⟩ | ⟨_, _, _, hb, _⟩
    · exact .inr ⟨(hσ.reached hr).1, hr, rfl⟩
    · exact nomatch hb
    · exact nomatch hb
  | .enumDef _ _, h, _, _, _, _ => h.1.1.elim
  | .funcDef sp f ns ps b, h, _, _, _, hs => by
    cases hs
    obtain ⟨rfl, _⟩ := h
    refine ⟨Front.nil.inner, fun n b hr _ => ?_⟩
    -- A definition shows variables only that were reached before.
    have hr := hr.of_bindFunction
    exact .inr ⟨(hσ.reached hr).1, hr, rfl⟩
  | .require _ _, h, _, _, _, _ => h.elim
  termination_by structural s => s

/-- What expansion makes of statements. -/
private theorem expandStmts_inner {σ : Scope Entry} {lo hi : Nat} {last : Bool} (hσ : Sound .plain lo σ) :
    (ss : List Stmt) → ResolvedStmts .plain σ lo hi last ss → ∀ {c ss' c'},
      expandStmts ss c = .ok (ss', c') → Inner σ lo hi c.renamed c'.renamed ss'
  | [], _, _, _, _, h => by
    cases h
    exact Front.nil.inner
  | s :: ss, ⟨mid, hs, hss⟩, _, _, _, h => by
    obtain ⟨s', c₁, hs', ss', c₂, hss', ⟨⟩⟩ := expandStmts_cons_ok.1 h
    obtain ⟨hin, hcarries⟩ := Stmt.expand_inner hσ s hs hs'
    -- The others are expanded in the scope behind the first.
    exact hin.append hcarries hs.shows (expandStmts_inner (hs.sound hσ) ss hss hss') hs.le hss.le
  termination_by structural ss => ss

/-- What expansion makes of a block. -/
private theorem Block.expandOver_inner {σ : Scope Entry} {lo hi : Nat} {last : Bool}
    (hσ : Sound .plain lo σ) : (b : Block) → b.Resolved .plain σ lo hi last → ∀ {binds c b' c'},
      b.expandOver binds c = .ok (b', c') →
        ∃ ss, b' = .mk binds ss b.span ∧ Inner σ lo hi c.renamed c'.renamed ss
  | .mk os ss sp, ⟨ho, hss⟩, binds, _, _, _, h => by
    subst ho
    obtain ⟨ss', c₁, hss', ⟨⟩⟩ := Block.expandOver_ok.1 h
    exact ⟨ss', by rw [List.append_nil]; rfl, expandStmts_inner hσ ss hss hss'⟩
  termination_by structural b => b

end

/-! ## Programs -/

/-- What is reached in front of a program is a variable that the host declares. -/
theorem Host.global_of_reaches (h : Host) {n : Text} {b : Binding} (hr : Reaches h.entryScope.1 n b) :
    b.origin = .host ∧ ∃ g ∈ h.globals, g.name = n ∧ b.ty = g.ty := by
  -- Every name that is reached is one of the host's globals.
  let Ours (σ : Scope Entry) : Prop :=
    ∀ n b, Reaches σ n b → b.origin = .host ∧ ∃ g ∈ h.globals, g.name = n ∧ b.ty = g.ty
  -- Globals are bound one after the other.
  have hglobals : ∀ gs ⊆ h.globals, ∀ (σ : Scope Entry) (next : Nat), Ours σ → Ours (bindGlobals σ next gs).1 := by
    intro gs
    induction gs with
    | nil => exact fun _ _ _ hσ => hσ
    | cons g gs ih =>
      intro hgs σ next hσ
      obtain ⟨hg, hgs⟩ := List.cons_subset.1 hgs
      refine ih hgs _ _ fun n b hr => ?_
      rcases hr.of_define with hr | ⟨rfl, hb⟩ | ⟨_, _, _, hb, _⟩
      · exact hσ n b hr
      · cases hb
        exact ⟨rfl, g, hg, rfl, rfl⟩
      · cases hb
  -- Intrinsics are no variables.
  have hintrinsics : ∀ (ops : List Intrinsic) (σ : Scope Entry), Ours σ →
      Ours (ops.foldl (fun sc op => sc.define op.name (.intrinsic op)) σ) := by
    intro ops
    induction ops with
    | nil => exact fun _ hσ => hσ
    | cons op ops ih =>
      refine fun σ hσ => ih _ fun n b hr => ?_
      rcases hr.of_define with hr | ⟨_, hb⟩ | ⟨_, _, _, hb, _⟩
      · exact hσ n b hr
      · cases hb
      · cases hb
  -- In an empty scope nothing is reached.
  have hempty : Ours {} := by
    intro n b hr
    cases hr with
    | here hn => cases hn
    | through hf _ => cases hf
  -- The achronal functions are defined last and were defined in view of the same variables.
  exact hintrinsics _ _ (hglobals _ (List.Subset.refl _) _ _ hempty) n b hr.of_bindFunction.of_bindFunction

/-- What is reached in front of a program belongs to the host. -/
private theorem Host.origin_of_reaches (h : Host) {n : Text} {b : Binding} (hr : Reaches h.entryScope.1 n b) :
    b.origin = .host := (h.global_of_reaches hr).1

/-- Whether a node is plain can be computed. -/
instance : DecidablePred (Node.Within .plain)
  | .expr (.var _ n _) => inferInstanceAs (Decidable (n.isPlain = true))
  | .stmt (.assign a) => inferInstanceAs (Decidable (a.info.name.isPlain = true))
  | .stmt (.funcDef _ _ _ ps _) => inferInstanceAs (Decidable (∀ p ∈ ps, p.name.isPlain = true))
  | .stmt (.enumDef _ d) => inferInstanceAs (Decidable (False ∧ ∀ m ∈ d.members, m.name.isPlain = true))
  | .stmt (.forLoop _ _ _ (some a) _) => inferInstanceAs (Decidable (a.info.declares = true → False))
  | .expr (.const ..) | .expr (.binary ..) | .expr (.unary ..) | .expr (.call ..) | .expr (.member ..)
  | .expr (.query ..) | .stmt (.block _) | .stmt (.eval ..) | .stmt (.assignMember ..) | .stmt (.cond ..)
  | .stmt (.loop ..) | .stmt (.forLoop _ _ _ none _) | .stmt (.ret ..) | .stmt (.leave _)
  | .stmt (.code ..) | .stmt (.bitfieldDef ..) | .stmt (.require ..) => inferInstanceAs (Decidable True)

/-- Expansion is hygienic.  In an accepted program without enumerations, made-up names and loop steps
that declare, every variable and every assignment that refers to a binding still finds the declaration
of that very binding in the expanded program, and none at all if the binding is the host's. -/
theorem Block.expand_hygienic {h : Host} (hh : ∀ g ∈ h.globals, g.ty.isProper = true)
    {program declared typed : Block} (hp : program.Sourced)
    (hd : program.declare h = (declared, none)) (ht : declared.annotate h = (typed, none))
    (hplain : ∀ x ∈ declared.nodes, x.Within .plain) :
    ∃ x, typed.expand = .ok x ∧ ∀ s ∈ x.program.sites [], ∀ n b, s.node.refers? = some (n, b) →
      s.env.lookup n = if b.origin = .host then none else some (.variable (some b)) := by
  -- All parts of a marked program keep to names that are not made up.
  obtain ⟨_, hmarked⟩ := Block.declare_marked h hp
  rw [hd] at hmarked
  have hN : ∀ n ∈ Host.achronalNames, n.isPlain = true := by decide
  obtain ⟨hi, hres⟩ := Block.annotate_resolved id hN hh (Block.Marked.within declared hmarked hplain) ht
  obtain ⟨hσ, _⟩ := Host.entryScope_sound (D := .plain) hN hh
  obtain ⟨x, hx, _⟩ := Block.expand_settled hres
  refine ⟨x, hx, fun s hs n b hn => ?_⟩
  -- The program is a block in the scope of the host.
  obtain ⟨b', c, hover, rfl⟩ := Block.expand_eq_ok.1 hx
  obtain ⟨ss, hout, hinner⟩ := Block.expandOver_inner hσ.push typed hres hover
  rw [hout] at hs
  -- A place reads its own declaration, or one in front of the program.
  rcases hinner.reads s hs n b hn with ⟨_, hown⟩ | ⟨_, hr, _, hnone⟩
  · -- The declaration is a node of the program, so the binding is the script's.
    obtain ⟨y, hy, hbinds⟩ := Block.binds_of_mem_env hs (Env.mem_of_lookup hown)
    rcases hinner.tidy.binds y hy _ hbinds with ⟨_, heq⟩ | ⟨_, _, heq, _, _, horigin, _⟩
    · cases heq
    · cases heq
      rw [horigin, if_neg (by decide)]
      exact hown
  · -- What was bound in front of the program is the host's.
    have horigin := h.origin_of_reaches (hr.congr fun m => (Scope.lookup_push _ m).symm)
    rw [horigin, if_pos rfl]
    exact hnone

/-- `x = 1 def g() return x end def f(x) return g() end y = f(x)`: a parameter with the name of a
variable that the body reaches through another function. -/
def hiddenGlobal : Block :=
  .mk [] [.assign (.make "x" (.literal (.int 1) {}) false {}),
    .funcDef {} "g" {} [] (.mk [] [.ret {} (.name "x" {})] {}),
    .funcDef {} "f" {} [⟨"x", {}⟩] (.mk [] [.ret {} (.apply "g" {} [] {})] {}),
    .assign (.make "y" (.apply "f" {} [.name "x" {}] {}) false {})] {}

/-- A parameter does not capture a variable of the same name. -/
theorem hiddenGlobal_hygienic :
    let declared := (hiddenGlobal.declare .default).1
    let typed := (declared.annotate .default).1
    ∃ x, typed.expand = .ok x ∧ ∀ s ∈ x.program.sites [], ∀ n b, s.node.refers? = some (n, b) →
      s.env.lookup n = if b.origin = .host then none else some (.variable (some b)) := by
  refine @Block.expand_hygienic .default (by decide) hiddenGlobal _ _ ?_ (Block.declare_eq_of_none ?_)
    (Block.annotate_eq_of_none ?_) ?_
  · simp [hiddenGlobal, Block.Sourced, Block.Marked, MarkedStmts, Stmt.Marked, Assign.Marked, Assign.make,
      Expr.Bare, Expr.literal, Expr.name, Expr.apply, Expr.nodes, nodesOfList, Expr.IsBare, Dialect.full,
      Literal.ty]
  · decide +kernel
  · decide +kernel
  · decide +kernel

end AisScript
