import AisScript.Proofs.Lowering

/-!
# When code is generated

Generation of a settled tree without assignments of strings stops for two reasons only: a declaration
of a variable that has the type of an enumeration, and an assignment to a name that no declaration in
scope has.  Both can be read off the places of the tree.

* `Expr.generate_ok`         a settled expression is always written
* `Site.Blocked`             a place where generation stops
* `Variables.Models`         the declared variables are those of the declarations in scope
* `Block.generate_ok_iff`    generation succeeds exactly where there is no such place
-/

namespace AisScript

/-! ## Expressions -/

/-- An operation with enough arguments is written. -/
private theorem Intrinsic.emit?_isSome {op : Intrinsic} {args : List Text}
    (h : op.signature.least ≤ args.length) : ∃ t, op.emit? args = some t := by
  unfold Intrinsic.emit?
  cases hs : op.signature with
  | print => exact ⟨_, rfl⟩
  | sink _ | unary _ _ | toObject =>
    rw [hs] at h
    obtain ⟨a, as, rfl⟩ := List.exists_cons_of_length_pos h
    exact ⟨_, rfl⟩
  | binary _ _ | binaryFloat _ | objects _ =>
    rw [hs] at h
    match args, h with
    | a :: b :: as, _ => exact ⟨_, rfl⟩

mutual

/-- A settled expression is always written. -/
theorem Expr.generate_ok : (e : Expr) → e.Settled → ∃ t, e.generate = .ok t
  | .const _ v, _ => ⟨_, rfl⟩
  | .var _ n _, _ => ⟨_, rfl⟩
  | .binary _ op l r, h => by
    -- Both operands are settled, so both are written.
    obtain ⟨hl, hr⟩ := List.forall_mem_append.1 (List.forall_mem_cons.1 h).2
    obtain ⟨lt, hl⟩ := Expr.generate_ok l hl
    obtain ⟨rt, hr⟩ := Expr.generate_ok r hr
    simp only [Expr.generate, hl, hr]
    exact ⟨_, rfl⟩
  | .unary _ op x, h => by
    obtain ⟨t, hx⟩ := Expr.generate_ok x (List.forall_mem_cons.1 h).2
    simp only [Expr.generate, hx]
    exact ⟨_, rfl⟩
  | .call _ n _ args t, h => by
    obtain ⟨⟨_, ht⟩, hargs⟩ := List.forall_mem_cons.1 h
    obtain ⟨ts, hts, hlen⟩ := generateList_ok args hargs
    simp only [Expr.generate, hts, bind, Except.bind, callText]
    -- Only targets of the host are left.
    cases t with
    | unresolved => exact ht.elim
    | function _ _ => exact ht.elim
    -- The intrinsic has its least number of arguments, so there is a text for it.
    | intrinsic op =>
      have hleast : op.signature.least ≤ ts.length := hlen ▸ ht
      obtain ⟨t, ht⟩ := Intrinsic.emit?_isSome hleast
      simp only [ht]
      exact ⟨t, rfl⟩
    -- A constructor has a first argument.
    | constructor layout =>
      have hpos : 0 < ts.length := hlen ▸ ht
      obtain ⟨t, ts', rfl⟩ := List.exists_cons_of_length_pos hpos
      exact ⟨t, rfl⟩
  | .member _ a b n _, h => by
    obtain ⟨⟨_, hm⟩, hb⟩ := List.forall_mem_cons.1 h
    obtain ⟨t, ht⟩ := Expr.generate_ok b hb
    simp only [Expr.generate, ht, bind, Except.bind]
    -- A member of an object is always written.
    cases a with
    | dotted =>
      obtain ⟨bt, hbt⟩ := Option.isSome_iff_exists.1 (hb b (by cases b <;> exact List.mem_cons_self)).1
      have hknown : b.knownTy = .ok bt := by rw [Expr.knownTy, hbt]
      simp only [memberText, hknown, bind, Except.bind]
      -- A member of a bitfield has a range.
      cases bt with
      | bitfield layout =>
        obtain ⟨range, hr⟩ := hm layout hbt
        simp only [hr]
        exact ⟨_, rfl⟩
      | _ => exact ⟨_, rfl⟩
    | _ => exact ⟨_, rfl⟩
  | .query _ k op u x c, h => by
    -- The three parts of a query, each of which may be absent.
    obtain ⟨hux, hc⟩ := List.forall_mem_append.1 (List.forall_mem_cons.1 h).2
    obtain ⟨hu, hx⟩ := List.forall_mem_append.1 hux
    obtain ⟨ut, hu⟩ := generateOption_ok u hu
    obtain ⟨xt, hx⟩ := generateOption_ok x hx
    obtain ⟨ct, hc⟩ := generateOption_ok c hc
    simp only [Expr.generate, hu, hx, hc]
    exact ⟨_, rfl⟩

/-- Settled expressions are always written, each on its own. -/
private theorem generateList_ok : (es : List Expr) → (∀ x ∈ nodesOfList es, x.IsSettled) →
    ∃ ts, generateList es = .ok ts ∧ ts.length = es.length
  | [], _ => ⟨[], rfl, rfl⟩
  | e :: es, h => by
    obtain ⟨he, hes⟩ := List.forall_mem_append.1 h
    obtain ⟨t, ht⟩ := Expr.generate_ok e he
    obtain ⟨ts, hts, hlen⟩ := generateList_ok es hes
    refine ⟨t :: ts, ?_, by rw [List.length_cons, List.length_cons, hlen]⟩
    simp only [generateList, ht, hts, bind, Except.bind, pure, Except.pure]

/-- A settled expression that may be absent is always written. -/
private theorem generateOption_ok : (e : Option Expr) → (∀ x ∈ nodesOfOption e, x.IsSettled) →
    ∃ t, generateOption e = .ok t
  | none, _ => ⟨[], rfl⟩
  | some e, h => Expr.generate_ok e h

end

/-! ## Places where generation stops -/

/-- Whether a declaration in scope has a name; members of enumerations are no declarations. -/
def Env.declares (ε : Env) (n : Text) : Bool :=
  ε.any fun x => x.1 == n && match x.2 with
    | .variable _ => true
    | .member _ => false

/-- A place where generation stops: a declaration of a variable with the type of an enumeration, or an
assignment to a name that neither a declaration in scope nor the host has. -/
def Site.Blocked (h : Host) (s : Site) : Prop :=
  match s.node with
  | .stmt (.assign a) =>
    if a.info.declares then ∃ d, a.value.ty? = some (.enum d)
    else s.env.declares a.info.name = false ∧ h.has a.info.name = false
  | _ => False

/-- No expression stops generation. -/
private theorem not_blocked_expr {h : Host} {ε : Env} {es : List Expr} :
    ∀ s ∈ (es.map Node.expr).map (Site.mk ε), ¬s.Blocked h := by
  intro s hs
  rw [List.map_map] at hs
  obtain ⟨e, _, rfl⟩ := List.mem_map.1 hs
  exact fun hb => hb

/-- The outcome of writing the places `sites`: a result with `post` and no place that stops generation, or
a fault and such a place. -/
private def Written {α : Type} (h : Host) (x : Except Fault α) (sites : List Site) (post : α → Prop) :
    Prop :=
  (∃ a, x = .ok a ∧ post a ∧ ∀ s ∈ sites, ¬s.Blocked h)
    ∨ (∃ f, x = .error f) ∧ ∃ s ∈ sites, s.Blocked h

namespace Written

variable {α β : Type} {h : Host} {x : Except Fault α} {f : α → Except Fault β} {xs ys : List Site}
  {P : α → Prop} {Q : β → Prop}

/-- One part behind the other. -/
private theorem bind (hx : Written h x xs P) (hf : ∀ a, P a → Written h (f a) ys Q) :
    Written h (x >>= f) (xs ++ ys) Q := by
  rcases hx with ⟨a, rfl, ha, hxs⟩ | ⟨⟨e, rfl⟩, s, hs, hb⟩
  · rcases hf a ha with ⟨b, hfa, hb, hys⟩ | ⟨⟨e, hfa⟩, s, hs, hb⟩
    · exact .inl ⟨b, hfa, hb, List.forall_mem_append.2 ⟨hxs, hys⟩⟩
    · exact .inr ⟨⟨e, hfa⟩, s, List.mem_append_right xs hs, hb⟩
  · exact .inr ⟨⟨e, rfl⟩, s, List.mem_append_left ys hs, hb⟩

/-- A part without places of its own. -/
private theorem ok {a : α} (ha : P a) : Written h (.ok a : Except Fault α) [] P :=
  .inl ⟨a, rfl, ha, fun _ hs => by cases hs⟩

/-- A part and what is made of its result. -/
private theorem map (hx : Written h x xs P) {g : α → β} (hg : ∀ a, P a → Q (g a)) :
    Written h (x >>= fun a => pure (g a)) xs Q := by
  rcases hx with ⟨a, rfl, ha, hxs⟩ | ⟨⟨e, rfl⟩, hs⟩
  · exact .inl ⟨g a, rfl, hg a ha, hxs⟩
  · exact .inr ⟨⟨e, rfl⟩, hs⟩

/-- The parts of a loop: the test is written behind the first clause and comes in front of it in the
walk. -/
private theorem header {is cs ss bs : List Site} (hx : Written h x (is ++ (cs ++ (ss ++ bs))) P) :
    Written h x (cs ++ is ++ ss ++ bs) P := by
  have hmem : ∀ s, s ∈ is ++ (cs ++ (ss ++ bs)) ↔ s ∈ cs ++ is ++ ss ++ bs := fun s => by
    simp only [List.mem_append]
    rw [or_left_comm, or_assoc, or_assoc]
  rcases hx with ⟨a, hx, ha, hxs⟩ | ⟨hx, s, hs, hb⟩
  · exact .inl ⟨a, hx, ha, fun s hs => hxs s ((hmem s).2 hs)⟩
  · exact .inr ⟨hx, s, (hmem s).1 hs, hb⟩

/-- A statement that is no assignment stops nothing itself. -/
private theorem stmt (s : Stmt) (hne : ∀ a, s ≠ .assign a) {ε : Env} (hx : Written h x xs P) :
    Written h x (⟨ε, .stmt s⟩ :: xs) P := by
  have hs : ¬Site.Blocked h ⟨ε, .stmt s⟩ := by
    cases s with
    | assign a => exact absurd rfl (hne a)
    | _ => exact fun hb => hb
  rcases hx with ⟨a, hx, ha, hxs⟩ | ⟨hx, s', hs', hb⟩
  · exact .inl ⟨a, hx, ha, List.forall_mem_cons.2 ⟨hs, hxs⟩⟩
  · exact .inr ⟨hx, s', List.mem_cons_of_mem _ hs', hb⟩

/-- A settled expression. -/
private theorem expr {e : Expr} (he : e.Settled) (ε : Env) :
    Written h e.generate (exprSites ε e) fun _ => True := by
  obtain ⟨t, ht⟩ := Expr.generate_ok e he
  exact .inl ⟨t, ht, trivial, not_blocked_expr⟩

/-- A settled test of a loop header. -/
private theorem test {e : Option Expr} (he : ∀ x ∈ nodesOfOption e, x.IsSettled) (ε : Env) :
    Written h (generateOption e) (((nodesOfOption e).map .expr).map (Site.mk ε)) fun _ => True := by
  obtain ⟨t, ht⟩ := generateOption_ok e he
  exact .inl ⟨t, ht, trivial, not_blocked_expr⟩

end Written

/-! ## Variables in scope -/

/-- The declared variables are those of the host and of the declarations in scope. -/
def Variables.Models (vars : Variables) (h : Host) (ε : Env) : Prop :=
  ∀ n, (Scope.lookup vars n).isSome = (ε.declares n || h.has n)

/-- Only declarations count. -/
private theorem Env.declares_membersBehind (ε : Env) (ms : List EnumMember) (n : Text) :
    Env.declares (membersBehind ε ms) n = ε.declares n := by
  induction ms generalizing ε with
  | nil => rfl
  | cons m ms ih =>
    rw [membersBehind, ih]
    simp only [Env.declares, List.any_cons, Bool.and_false, Bool.false_or]

namespace Variables.Models

variable {vars : Variables} {h : Host} {ε : Env}

/-- A new block has no variables of its own yet. -/
theorem push (hm : vars.Models h ε) : Models (Scope.push vars) h ε := fun n => by
  rw [Scope.lookup_push]
  exact hm n

/-- A declaration. -/
theorem define (hm : vars.Models h ε) (n : Text) (b : Option Binding) (t : Ty) :
    Models (Scope.define vars n t) h ((n, .variable b) :: ε) := fun m => by
  rw [Scope.lookup_define]
  simp only [Env.declares, List.any_cons, Bool.and_true]
  split
  case isTrue heq => rw [heq, beq_self_eq_true, Bool.true_or, Bool.true_or]; rfl
  case isFalse hne =>
    have hbeq : (n == m) = false := beq_false_of_ne fun heq => hne heq.symm
    rw [hbeq, Bool.false_or]
    exact hm m

end Variables.Models

/-- The variables of the host. -/
private theorem Host.variables_models (h : Host) : h.variables.Models h [] := by
  intro n
  -- A name is a variable of the host if it was one before or is one of the remaining globals.
  have hfold : ∀ (gs : List Global) (vs : Variables),
      (Scope.lookup (gs.foldl (fun vs g => vs.define g.name g.ty) vs) n).isSome
        = ((Scope.lookup vs n).isSome || gs.any (·.name == n)) := by
    intro gs
    induction gs with
    | nil => exact fun vs => (Bool.or_false _).symm
    | cons g gs ih =>
      intro vs
      -- A global hides what had its name, so both sides hold.
      rw [List.foldl_cons, ih, Scope.lookup_define, List.any_cons]
      split
      case isTrue heq =>
        rw [heq, beq_self_eq_true, Option.isSome_some, Bool.true_or, Bool.or_true]
      case isFalse hne =>
        have hbeq : (g.name == n) = false := beq_false_of_ne fun heq => hne heq.symm
        rw [hbeq, Bool.false_or]
  exact hfold h.globals {}

/-! ## Statements -/

/-- A value that is no string can be declared unless it has the type of an enumeration. -/
private theorem Ty.storageName?_eq_none {t : Ty} (hp : t.isProper = true) (hs : t ≠ .string) :
    t.storageName? = none ↔ ∃ d, t = .enum d := by
  cases t with
  | enum d => exact ⟨fun _ => ⟨d, rfl⟩, fun _ => rfl⟩
  | string => exact absurd rfl hs
  | invalid | void | reserved _ => exact nomatch hp
  | _ => exact ⟨fun h => (nomatch h), fun ⟨_, h⟩ => (nomatch h)⟩

/-- Writing an assignment. -/
private theorem Assign.written {h : Host} {vars : Variables} {ε : Env} (hm : vars.Models h ε) {a : Assign}
    (ha : Stays Assign.NoString a.nodes) :
    Written h (a.generate vars) (a.sites ε) fun r => r.2.Models h (a.behind ε) := by
  obtain ⟨i, v⟩ := a
  -- The value is settled and no string.
  obtain ⟨⟨t, ht, hp⟩, hv⟩ := settled_cons.1 ha.1
  have hs : t ≠ .string := fun hs => ha.2 _ List.mem_cons_self (hs ▸ ht)
  obtain ⟨text, htext⟩ := Expr.generate_ok v (settled_exprNodes.1 hv)
  have hknown : v.knownTy = .ok t := by rw [Expr.knownTy, show v.ty? = some t from ht]
  have hrest : ∀ s ∈ (exprNodes v).map (Site.mk ε), ¬s.Blocked h := not_blocked_expr
  simp only [Assign.generate, hknown, htext, Except.bind, Bind.bind]
  unfold Assign.behind
  rw [Assign.info]
  -- What blocks the assignment depends on whether it declares.
  rcases Bool.eq_false_or_eq_true i.declares with hd | hd <;> rw [hd]
  case inl =>
    have hblocked : Site.Blocked h ⟨ε, .stmt (.assign (.mk i v))⟩ ↔ ∃ d, t = .enum d := by
      -- A declaration is blocked by an enumeration, which has no word for its storage.
      simp only [Site.Blocked, Assign.info, Assign.value, hd, if_true]
      exact exists_congr fun d => by rw [show v.ty? = some t from ht, Option.some.injEq]
    cases hstore : t.storageName? with
    | none =>
      refine .inr ⟨⟨_, rfl⟩, _, List.mem_cons_self, hblocked.2 ?_⟩
      exact (Ty.storageName?_eq_none hp hs).1 hstore
    | some word =>
      refine .inl ⟨_, rfl, hm.define i.name i.binding t, List.forall_mem_cons.2 ⟨fun hb => ?_, hrest⟩⟩
      rw [(Ty.storageName?_eq_none hp hs).2 (hblocked.1 hb)] at hstore
      cases hstore
  case inr =>
    -- A plain assignment is blocked if its variable is unknown.
    have hblocked : Site.Blocked h ⟨ε, .stmt (.assign (.mk i v))⟩ ↔
        (Scope.lookup vars i.name).isNone = true := by
      simp only [Site.Blocked, Assign.info, hd, Bool.false_eq_true, if_false, Option.isNone_iff_eq_none,
        ← Option.not_isSome_iff_eq_none, hm i.name, Bool.or_eq_true, not_or, Bool.not_eq_true]
    simp only [Bool.false_eq_true, if_false]
    split
    case isTrue hnone => exact .inr ⟨⟨_, rfl⟩, _, List.mem_cons_self, hblocked.2 hnone⟩
    case isFalse hsome =>
      exact .inl ⟨_, rfl, hm, List.forall_mem_cons.2 ⟨fun hb => hsome (hblocked.1 hb), hrest⟩⟩

/-- Writing a clause that may be absent. -/
private theorem generateClause_written {h : Host} {vars : Variables} {ε : Env} (hm : vars.Models h ε)
    {a : Option Assign} (ha : Stays Assign.NoString (clauseNodes a)) :
    Written h (generateClause vars a) (clauseSites ε a) fun r => r.2.Models h (clauseBehind ε a) := by
  cases a with
  | none => exact Written.ok hm
  | some a => exact Assign.written hm ha

/-- Writing overrides. -/
private theorem generateOverrides_written {h : Host} {vars : Variables} {ε : Env}
    (hm : vars.Models h ε) {as : List Assign} (ha : Stays Assign.NoString (as.flatMap Assign.nodes)) :
    Written h (generateOverrides vars as) (assignsSites ε as)
      fun r => r.2.Models h (assignsBehind ε as) := by
  induction as generalizing vars ε with
  | nil => exact Written.ok hm
  | cons a as ih =>
    rw [List.flatMap_cons] at ha
    exact (Assign.written hm ha.left).bind fun r hr => (ih hr ha.right).map fun q hq => hq

mutual

/-- Writing a statement. -/
private theorem Stmt.written {h : Host} : (s : Stmt) → ∀ {vars : Variables} {ε : Env},
    vars.Models h ε → Stays Assign.NoString s.nodes →
      Written h (s.generate vars) (s.sites ε) fun r => r.2.Models h (s.behind ε)
  | .block b, vars, ε, hm, hs => by
    -- A block is written in a scope of its own.
    refine Written.stmt (.block b) nofun ?_
    exact (Block.written b hm.push hs.tail).map fun _ _ => hm
  | .eval sp e, vars, ε, hm, hs => by
    have he := settled_exprNodes.1 hs.tail.1
    -- The expression is settled, so it is written.
    refine Written.stmt (.eval sp e) nofun ?_
    exact (Written.expr he ε).map fun _ _ => hm
  | .assign a, vars, ε, hm, hs => Assign.written hm hs
  | .assignMember sp t v, vars, ε, hm, hs => by
    have ht := settled_exprNodes.1 hs.tail.left.1
    have hv := settled_exprNodes.1 hs.tail.right.1
    refine Written.stmt (.assignMember sp t v) nofun ?_
    exact (Written.expr ht ε).bind fun _ _ => (Written.expr hv ε).map fun _ _ => hm
  | .cond sp c t none, vars, ε, hm, hs => by
    have hc := settled_exprNodes.1 hs.tail.left.1
    refine Written.stmt (.cond sp c t none) nofun ?_
    exact (Written.expr hc ε).bind fun _ _ => (Block.written t hm.push hs.tail.right).map fun _ _ => hm
  | .cond sp c t (some f), vars, ε, hm, hs => by
    have hc := settled_exprNodes.1 hs.tail.left.left.1
    -- The else block comes behind the other one.
    have hf : Written h (generateElse vars (some f)) (f.sites ε) fun _ => True :=
      (Block.written f hm.push hs.tail.right).map fun _ _ => trivial
    refine Written.stmt (.cond sp c t (some f)) nofun ?_
    rw [List.append_assoc]
    exact (Written.expr hc ε).bind fun _ _ => (Block.written t hm.push hs.tail.left.right).bind
      fun _ _ => hf.map fun _ _ => hm
  | .loop sp c b, vars, ε, hm, hs => by
    have hc := settled_exprNodes.1 hs.tail.left.1
    refine Written.stmt (.loop sp c b) nofun ?_
    exact (Written.expr hc ε).bind fun _ _ => (Block.written b hm.push hs.tail.right).map fun _ _ => hm
  | .forLoop sp i c st b, vars, ε, hm, hs => by
    have hc : ∀ x ∈ nodesOfOption c, x.IsSettled := fun x hx =>
      hs.tail.left.left.left.1 _ (List.mem_map_of_mem hx)
    refine Written.stmt (.forLoop sp i c st b) nofun (Written.header ?_)
    -- First clause, test, step and body, in the order in which they are written.
    exact (generateClause_written hm.push hs.tail.left.left.right).bind fun r hr =>
      (Written.test hc (clauseBehind ε i)).bind fun _ _ =>
        (generateClause_written hr hs.tail.left.right).bind fun q hq =>
          (Block.written b hq.push hs.tail.right).map fun _ _ => hm
  | .leave sp, vars, ε, hm, _ => Written.stmt (.leave sp) nofun (.inl ⟨_, rfl, hm, nofun⟩)
  | .code sp t, vars, ε, hm, _ => Written.stmt (.code sp t) nofun (.inl ⟨_, rfl, hm, nofun⟩)
  | .bitfieldDef sp d, vars, ε, hm, _ => Written.stmt (.bitfieldDef sp d) nofun (.inl ⟨_, rfl, hm, nofun⟩)
  | .enumDef sp d, vars, ε, hm, _ => by
    refine Written.stmt (.enumDef sp d) nofun (.inl ⟨_, rfl, fun n => ?_, nofun⟩)
    -- Members are no variables of the written program.
    rw [Stmt.behind, Env.declares_membersBehind]
    exact hm n
  -- An expanded program holds none of these.
  | .ret _ _, _, _, _, hs | .funcDef _ _ _ _ _, _, _, _, hs | .require _ _, _, _, _, hs =>
    (settled_cons.1 hs.1).1.elim

/-- Writing statements. -/
private theorem generateStmts_written {h : Host} : (ss : List Stmt) → ∀ {vars : Variables} {ε : Env},
    vars.Models h ε → Stays Assign.NoString (stmtsNodes ss) →
      Written h (generateStmts vars ss) (stmtsSites ε ss) fun _ => True
  | [], _, _, _, _ => Written.ok trivial
  | s :: ss, _, _, hm, hs =>
    (Stmt.written s hm hs.left).bind fun _ hr => (generateStmts_written ss hr hs.right).map
      fun _ _ => trivial

/-- Writing a block. -/
private theorem Block.written {h : Host} : (b : Block) → ∀ {vars : Variables} {ε : Env},
    vars.Models h ε → Stays Assign.NoString b.nodes →
      Written h (b.generateIn vars) (b.sites ε) fun _ => True
  | .mk _ ss _, _, _, hm, hs =>
    (generateOverrides_written hm hs.left).bind fun _ hr => (generateStmts_written ss hr hs.right).map
      fun _ _ => trivial

end

/-- Generation of a settled program without assignments of strings succeeds exactly where no place stops
it. -/
theorem Block.generate_ok_iff {h : Host} {b : Block} (hb : Stays Assign.NoString b.nodes) :
    (∃ t, b.generate h = .ok t) ↔ ∀ s ∈ b.sites [], ¬s.Blocked h := by
  rcases Block.written b h.variables_models.push hb with ⟨t, ht, _, hfree⟩ | ⟨⟨f, hf⟩, s, hs, hblocked⟩
  · exact ⟨fun _ => hfree, fun _ => ⟨t, ht⟩⟩
  · refine ⟨fun ⟨t, ht⟩ => ?_, fun hfree => absurd hblocked (hfree s hs)⟩
    rw [Block.generate, hf] at ht
    exact nomatch ht

end AisScript
