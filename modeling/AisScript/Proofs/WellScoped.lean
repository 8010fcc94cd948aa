import AisScript.Proofs.Frames
import AisScript.Proofs.Inlining

/-!
# Names of generated code

The tree that code is generated from declares every name in front of its uses.  In the expanded program
a variable is found by its name, or it is one of the host; what is left of a program behind the inlining of
members and strings reads no string, and the declarations that it has lost are those of strings.

This works out in every accepted program whose loops stay in order: a step that declares a variable and calls a
function moves behind the body that uses the variable.

* `Assembled.aims`            only variables are assigned
* `Site.Stored`               places at which every name but those of strings has a declaration
* `Env.Keeps`                 declarations that stay
* `Block.lower_wellScoped`    lowered programs are well scoped
-/

namespace AisScript

/-! ## What is assigned -/

/-- A scope in which everything that can be assigned is a variable. -/
def Varies (σ : Scope Entry) : Prop := ∀ n b, Reaches σ n b → b.immutable = false → b.isVariable = true

/-- An act that assigns nothing but a variable. -/
def Act.Aims (x : Act) : Prop :=
  ∀ a b, x = .assign a → a.info.declares = false → a.info.binding = some b → b.isVariable = true

/-- Readings assign nothing. -/
private theorem aims_of_reads {xs : List Act} (h : ∀ x ∈ xs, ∃ n t, x = .read n t) : ∀ x ∈ xs, x.Aims := by
  rintro x hx a b rfl
  obtain ⟨_, _, heq⟩ := h _ hx
  cases heq

/-- Declarations assign nothing that is declared elsewhere. -/
private theorem aims_of_declares {as : List Assign} (h : ∀ a ∈ as, a.info.declares = true) :
    ∀ x ∈ acts (as.flatMap Assign.nodes), x.Aims := by
  induction as with
  | nil => exact fun _ hx => by cases hx
  | cons a as ih =>
    obtain ⟨hd, has⟩ := List.forall_mem_cons.1 h
    rw [List.flatMap_cons, acts_append, acts_assign]
    refine List.forall_mem_append.2 ⟨List.forall_mem_cons.2 ⟨?_, aims_of_reads (acts_exprs _)⟩, ih has⟩
    intro a' b heq hd'
    cases heq
    cases hd.symm.trans hd'

/-- Renamed acts assign what they assigned. -/
theorem Act.Aims.rename {x : Act} (h : x.Aims) (r : Renaming) : (x.rename r).Aims := by
  intro a b heq
  cases x with
  | read n t => cases heq
  | assign a' =>
    cases heq
    obtain ⟨i, v⟩ := a'
    exact h (.mk i v) b rfl

/-- The assignment of a temporary. -/
private theorem aims_temp (n : Text) (v : Expr) (declares : Bool) (sp : Span) :
    (Act.assign (.make n v declares sp)).Aims := by
  intro a b heq _ hb
  cases heq
  cases hb

section Aims

variable {D : Dialect} {P : Prop} {f : Bool} {σ τ : Scope Entry} {lo hi : Nat} {c c₁ c' : Expansion}
  {p : List Stmt}

/-- What stands for a call assigns what the body assigns, and a temporary. -/
private theorem aims_called {os : List Assign} {ss q : List Stmt} {sp : Span} {b : Block} {e e' : Expr}
    (fresh : freshened (.mk os ss sp) c = .ok (b, c₁)) (place : placeBody e b c₁ = .ok ((q, e'), c'))
    (kept : e'.ty? = e.ty?) (h : ∀ x ∈ acts (Block.mk os ss sp).nodes, x.Aims) :
    ∀ x ∈ acts (stmtsNodes q), x.Aims := by
  -- A body that returns assigns its value to the temporary at last, any other one is a block.
  obtain ⟨_, hq⟩ := called_cases fresh place kept
  generalize freshNames c.renamed (contested (Block.mk os ss sp).nodes) = r at hq
  rcases hq with ⟨front, s, v, zero, rfl, _, hzero, _, rfl⟩ | ⟨_, rfl⟩
  -- What the placed body assigns is the temporary, twice, and what the renamed body assigns.
  · rw [acts_placed os front s sp e.span v (tempName c.temps) r (Left.acts_nil (hzero {}))]
    rw [acts_returned] at h
    obtain ⟨hbody, hvalue⟩ := List.forall_mem_append.1 h
    refine List.forall_mem_cons.2 ⟨aims_temp _ _ _ _, List.forall_mem_append.2 ⟨?_, ?_⟩⟩
    · exact List.forall_mem_map.2 fun x hx => (hbody x hx).rename r
    · exact List.forall_mem_cons.2 ⟨aims_temp _ _ _ _, hvalue⟩
  -- A block assigns what the renamed body assigns.
  · rw [stmtsNodes_singleton, Stmt.nodes, acts_stmt (by simp), Block.nodes_rename, acts_rename]
    exact List.forall_mem_map.2 fun x hx => (h x hx).rename r

/-- In an expanded tree only variables are assigned. -/
theorem Assembled.aims (h : Assembled D P f σ τ lo hi c c' p) :
    Varies σ → Varies τ ∧ ∀ x ∈ acts (stmtsNodes p), x.Aims := by
  -- By induction on the pieces: what can be assigned behind one is what could be, or what it declares.
  induction h with
  | nil => exact fun hσ => ⟨hσ, fun _ hx => by cases hx⟩
  | append _ _ _ ih₁ ih₂ =>
    -- The second piece is assembled in the scope behind the first.
    intro hσ
    obtain ⟨hτ, hp⟩ := ih₁ hσ
    obtain ⟨hυ, hq⟩ := ih₂ hτ
    rw [stmtsNodes_append, acts_append]
    exact ⟨hυ, List.forall_mem_append.2 ⟨hp, hq⟩⟩
  | congr hσ' hτ' _ ih =>
    intro hσ
    obtain ⟨hτ, hp⟩ := ih fun n b hr => hσ n b (hr.congr hσ')
    exact ⟨fun n b hr => hτ n b (hr.congr fun m => (hτ' m).symm), hp⟩
  | rescope hr _ _ => exact fun hσ => ⟨fun n b hn => hσ n b (hr n b hn), fun _ hx => by cases hx⟩
  -- The members of an enumeration are fixed, so no variable is added.
  | enumeration sp d _ =>
    refine fun hσ => ⟨fun n b hr himm => ?_, fun _ hx => by cases hx⟩
    rcases hr.of_bindEnum with hr | ⟨_, himm', _⟩
    · exact hσ n b hr himm
    · cases himm.symm.trans himm'
  -- The block is assembled in a scope of its own.
  | block sp _ ih =>
    intro hσ
    obtain ⟨_, hss⟩ := ih fun n b hr => hσ n b (hr.congr fun m => (Scope.lookup_push _ m).symm)
    rw [stmtsNodes_singleton, Stmt.nodes, acts_stmt (by simp), acts_block]
    exact ⟨hσ, hss⟩
  -- The statement that is nested assigns what its blocks do, behind what stands for its calls.
  | nest _ _ _ holds ih₁ ih₂ =>
    intro hσ
    obtain ⟨_, hp⟩ := ih₁ hσ
    obtain ⟨_, hbs⟩ := ih₂ hσ
    rw [stmtsNodes_append, stmtsNodes_singleton, acts_append, holds.acts_eq]
    exact ⟨hσ, List.forall_mem_append.2 ⟨hp, List.forall_mem_append.2 ⟨aims_of_reads (acts_exprs _), hbs⟩⟩⟩
  -- A declaration adds a variable, and is no assignment to something else.
  | declare _ _ declares _ _ _ _ _ ih =>
    intro hσ
    obtain ⟨_, hp⟩ := ih hσ
    refine ⟨fun n b hr himm => ?_, ?_⟩
    · rcases hr.of_define with hr | ⟨_, heq⟩ | ⟨_, _, _, heq, _⟩
      · exact hσ n b hr himm
      · cases heq
        rfl
      · cases heq
    · rw [stmtsNodes_append, stmtsNodes_singleton, acts_append, Stmt.nodes, acts_assign]
      refine List.forall_mem_append.2 ⟨hp, List.forall_mem_cons.2 ⟨?_, aims_of_reads (acts_exprs _)⟩⟩
      intro a b heq hd
      cases heq
      cases declares.symm.trans hd
  -- An assignment names the variable that the scope has there.
  | assign _ _ _ binding _ bound _ _ mutable ih =>
    intro hσ
    obtain ⟨_, hp⟩ := ih hσ
    rw [stmtsNodes_append, stmtsNodes_singleton, acts_append, Stmt.nodes, acts_assign]
    refine ⟨hσ, List.forall_mem_append.2 ⟨hp, List.forall_mem_cons.2 ⟨?_, aims_of_reads (acts_exprs _)⟩⟩⟩
    intro a b heq _ hb
    cases heq
    cases binding.symm.trans hb
    exact hσ _ _ (.here bound) mutable
  -- The header, the test, the step and the body, each behind what it needs.
  | forLoop sp span span' _ _ _ left _ _ _ htest hstep _ ihi ihq ihs _ ihst =>
    intro hσ
    have hpush : ∀ {υ : Scope Entry}, Varies υ → Varies υ.push :=
      fun hυ n b hr => hυ n b (hr.congr fun m => (Scope.lookup_push _ m).symm)
    -- Each part is assembled in the scope behind the part in front of it.
    obtain ⟨hη, hinit⟩ := ihi (hpush hσ)
    obtain ⟨_, hq⟩ := ihq hη
    obtain ⟨hη', hst⟩ := ihst hη
    obtain ⟨_, hss⟩ := ihs (hpush hη')
    obtain ⟨hheader, ts, hinner, hts⟩ := acts_tested left htest
    -- In the body stand what the test needs, the test itself, which reads, and the loop's own statements.
    have hbody := List.forall_mem_append.2 ⟨List.forall_mem_append.2 ⟨hq, aims_of_reads fun t ht =>
      ⟨_, _, (hts t ht).choose_spec.choose_spec.1⟩⟩, hss⟩
    rw [← hinner] at hbody
    refine ⟨hσ, ?_⟩
    -- The step stays in the header, or stands behind the body.
    rcases acts_loop sp span hheader (hstep.imp_right fun h => ⟨h.1, h.2.2⟩) with hdone | hdone
    · rw [hdone]
      exact List.forall_mem_append.2 ⟨hinit, List.forall_mem_append.2 ⟨hst, hbody⟩⟩
    · rw [hdone]
      exact List.forall_mem_append.2 ⟨hinit, List.forall_mem_append.2 ⟨hbody, hst⟩⟩
  -- A call: its arguments come first, then the body that stands for it.
  | @call σ _ _ mid _ _ _ _ _ _ _ _ _ params _ _ captured args args' binds _ _ _ sp _ _ function count
      types _ bound _ _ fresh _ place kept ihp ihs =>
    intro hσ
    obtain ⟨_, hp⟩ := ihp hσ
    have hlen : args'.length = args.length := by
      simpa using congrArg List.length types
    have hbinds := numberBinds_declare mid params args
    -- The body reaches its parameters, which are variables, and what the function reached where it stood.
    have hbody : Varies (bodyScope captured binds) := by
      intro n b hr himm
      rw [bound] at hr
      rcases reaches_extendAll hr with hr | ⟨a, ha, hb⟩
      · have hcaptured : Reaches ⟨captured, []⟩ n b := hr.congr fun m => (Scope.lookup_push _ m).symm
        exact hσ n b (.through function hcaptured) himm
      · obtain ⟨k, t, hvar⟩ := numberBinds_variable ha
        cases hb.symm.trans hvar
        rfl
    -- What the parameters are bound by are declarations.
    have hdeclares : ∀ a ∈ bindExpanded binds args', a.info.declares = true := by
      intro a ha
      have hinfo := map_info_bindExpanded ((length_numberBinds mid params args count).trans hlen.symm)
      rw [bound] at ha
      obtain ⟨a', ha', heq⟩ := List.mem_map.1 (hinfo ▸ List.mem_map_of_mem ha)
      rw [← heq]
      exact (hbinds a' ha').1
    refine ⟨hσ, ?_⟩
    rw [stmtsNodes_append, acts_append]
    refine List.forall_mem_append.2 ⟨hp, aims_called fresh place kept ?_⟩
    rw [Block.nodes, acts_append]
    exact List.forall_mem_append.2 ⟨aims_of_declares hdeclares, (ihs hbody).2⟩

end Aims

/-! ## Declarations that stay -/

/-- A variable in scope that is no string has a name. -/
def Env.Stores (T : Text → Option Ty) (ε : Env) (n : Text) : Prop :=
  ∃ w, (n, .variable w) ∈ ε ∧ typeOf T n w ≠ some .string

/-- A place at which every name but those of strings has a declaration: names that are read or assigned belong to
variables in scope that are no strings, or to the host, and declarations have values of their variables' types. -/
structure Site.Stored (h : Host) (T : Text → Option Ty) (s : Site) : Prop where
  used : ∀ i n b, s.node = .expr (.var i n b) → b.bind Binding.value? = none → i.ty ≠ some .string →
    s.env.Stores T n ∨ h.has n = true
  assigned : ∀ a, s.node = .stmt (.assign a) → a.info.declares = false → a.value.ty? ≠ some .string →
    s.env.Stores T a.info.name ∨ h.has a.info.name = true
  declared : ∀ a, s.node = .stmt (.assign a) → a.info.declares = true →
    a.value.ty? = typeOf T a.info.name a.info.binding

/-- All variables of `ε` but the strings are declared in `δ`. -/
def Env.Keeps (T : Text → Option Ty) (ε δ : Env) : Prop := ∀ n, ε.Stores T n → δ.declares n = true

/-- A variable in scope is declared there. -/
private theorem Env.declares_iff {ε : Env} {n : Text} : ε.declares n = true ↔ ∃ w, (n, .variable w) ∈ ε := by
  unfold Env.declares
  rw [List.any_eq_true]
  constructor
  · rintro ⟨⟨m, w⟩, hmem, heq⟩
    cases w with
    | «variable» b =>
      obtain rfl : m = n := by simpa using heq
      exact ⟨b, hmem⟩
    | member v => simp at heq
  · rintro ⟨w, hmem⟩
    exact ⟨_, hmem, by simp⟩

section Keeps

variable {h : Host} {T : Text → Option Ty} {w : Text → Option Binding → Text} {ε δ : Env}

/-- Nothing is declared in front of a program. -/
theorem Env.Keeps.nil : Env.Keeps T [] [] := by
  rintro n ⟨w, hmem, _⟩
  cases hmem

/-- A name that a variable in scope has is held behind the declarations that stay. -/
theorem Env.Keeps.held (hk : ε.Keeps T δ) {n : Text} (hn : ε.Stores T n ∨ h.has n = true) :
    δ.declares n = true ∨ h.has n = true := hn.imp_left (hk n)

/-- Behind an assignment that stays, or goes as it is one of a string. -/
theorem Env.Keeps.clause (hk : ε.Keeps T δ) {a : Option Assign} (ha : ∀ s ∈ clauseSites ε a, s.Stored h T) :
    (clauseBehind ε a).Keeps T (clauseBehind δ ((a.map (·.replace (byWord w) ε)).filter Assign.stores)) := by
  -- What was in front stays declared; what the assignment declares does if its value is no string.
  cases a with
  | none => exact hk
  | some a =>
    obtain ⟨i, v⟩ := a
    -- Nothing that was declared in front is lost behind the clause.
    have hstays : ∀ n, ε.Stores T n → Env.declares (clauseBehind δ
        (((some (Assign.mk i v)).map (·.replace (byWord w) ε)).filter Assign.stores)) n = true := by
      intro n hn
      obtain ⟨b, hb⟩ := Env.declares_iff.1 (hk n hn)
      refine Env.declares_iff.2 ⟨b, ?_⟩
      cases ((some (Assign.mk i v)).map (·.replace (byWord w) ε)).filter Assign.stores with
      | none => exact hb
      | some a' =>
        rw [clauseBehind, Assign.behind]
        split
        · exact List.mem_cons_of_mem _ hb
        · exact hb
    -- A name with a place behind the clause had it in front, or the clause declares it.
    rintro n ⟨b, hmem, hty⟩
    rw [clauseBehind, Assign.behind] at hmem
    split at hmem
    case isFalse => exact hstays n ⟨b, hmem, hty⟩
    case isTrue hd =>
      rcases List.mem_cons.1 hmem with heq | hmem
      · -- The value of the declaration has the type of the variable, so it stays if this is no string.
        cases heq
        have hvalue := (ha _ List.mem_cons_self).declared (.mk i v) rfl hd
        have hstores : (Assign.mk i (v.replace (byWord w) ε)).stores = true := by
          refine bne_iff_ne.2 fun hs => hty ?_
          rw [← hvalue]
          exact (v.ty?_byWord w ε).1.1 hs
        have hdeclares : i.declares = true := hd
        refine Env.declares_iff.2 ⟨i.binding, ?_⟩
        rw [Option.map_some, Assign.replace, Option.filter_some, if_pos hstores, clauseBehind, Assign.behind,
          Assign.info, if_pos hdeclares]
        exact List.mem_cons_self
      · exact hstays n ⟨b, hmem, hty⟩

/-- Members of enumerations are no variables. -/
theorem Env.Keeps.members (hk : ε.Keeps T δ) (ms : List EnumMember) :
    (membersBehind ε ms).Keeps T (membersBehind δ ms) := by
  -- Declarations are found by membership, so no member hides one.
  have hmem : ∀ (γ : Env) n b, (n, .variable b) ∈ membersBehind γ ms ↔ (n, Binder.variable b) ∈ γ := by
    intro γ n b
    have hvariables : ∀ γ : Env, (n, .variable b) ∈ γ.variables ↔ (n, Binder.variable b) ∈ γ :=
      fun γ => Env.mem_variables.trans (and_iff_left ⟨b, rfl⟩)
    rw [← hvariables, variables_membersBehind, hvariables]
  rintro n ⟨b, hb, hty⟩
  obtain ⟨d, hd⟩ := Env.declares_iff.1 (hk n ⟨b, (hmem ε n b).1 hb, hty⟩)
  exact Env.declares_iff.2 ⟨d, (hmem δ n d).2 hd⟩

/-- Behind what stays of a statement. -/
theorem Env.Keeps.stmt (hk : ε.Keeps T δ) {s : Stmt} (hs : ∀ x ∈ s.sites ε, x.Stored h T) :
    (s.behind ε).Keeps T (stmtsBehind δ (s.replace (byWord w) ε).withoutStrings) := by
  -- Only an assignment can go; members of enumerations stay behind their definition.
  cases s with
  | assign a =>
    have hclause := hk.clause (w := w) (a := some a) hs
    rw [Option.map_some] at hclause
    rw [Stmt.replace, Stmt.withoutStrings]
    -- It goes if its value is a string.
    cases hstays : (some (a.replace (byWord w) ε)).filter Assign.stores with
    | none =>
      rw [hstays] at hclause
      exact hclause
    | some a' =>
      rw [hstays] at hclause
      exact hclause
  | enumDef sp d => exact hk.members d.members
  | _ => exact hk

/-- Behind the parameters of a call that stay. -/
theorem Env.Keeps.assigns (hk : ε.Keeps T δ) {as : List Assign}
    (has : ∀ s ∈ assignsSites ε as, s.Stored h T) :
    (assignsBehind ε as).Keeps T (assignsBehind δ ((replaceAssigns (byWord w) ε as).filter Assign.stores)) := by
  -- The induction is on the parameters, from the first on.
  induction as generalizing ε δ with
  | nil => exact hk
  | cons a as ih =>
    obtain ⟨ha, has⟩ := List.forall_mem_append.1 has
    have hclause := hk.clause (w := w) (a := some a) ha
    rw [Option.map_some, Option.filter_some] at hclause
    rw [assignsBehind, replaceAssigns, List.filter_cons]
    split at hclause
    -- The parameter stays, and the rest stands behind it.
    case isTrue hstores =>
      rw [if_pos hstores]
      exact ih hclause has
    case isFalse hstores =>
      -- The parameter goes, and with it nothing that is stored.
      rw [if_neg hstores]
      exact ih hclause has

end Keeps

/-! ## Names that are held -/

section Held

variable (h : Host) (T : Text → Option Ty) (w : Text → Option Binding → Text)

mutual

/-- A variable that is left of an expression read as texts is one of the expression, and no string. -/
private theorem Expr.var_of_replace (ε : Env) {i : ExprInfo} {n : Text} {b : Option Binding} : (e : Expr) →
    -- The induction is on the expression; literals hold no variable.
    .var i n b ∈ (e.replace (byWord w) ε).nodes →
      .var i n b ∈ e.nodes ∧ b.bind Binding.value? = none ∧ i.ty ≠ some .string
  | .const _ _, hx => by cases List.mem_singleton.1 hx
  -- A variable that is a string, or has a value recorded, becomes a literal.
  | .var j m d, hx => by
    by_cases hs : j.ty = some .string
    · rw [Expr.replace, byWord, if_pos hs] at hx
      cases List.mem_singleton.1 hx
    · rw [Expr.replace, byWord, if_neg hs, byBinding] at hx
      cases hd : d.bind Binding.value? with
      | none =>
        rw [hd] at hx
        cases List.mem_singleton.1 hx
        exact ⟨List.mem_cons_self, hd, hs⟩
      | some v =>
        rw [hd] at hx
        cases List.mem_singleton.1 hx
  -- Operators hold the variables of their parts.
  | .binary _ _ l r, hx => by
    rcases List.mem_cons.1 hx with heq | hx
    · cases heq
    · rcases List.mem_append.1 hx with hx | hx
      · exact (Expr.var_of_replace ε l hx).imp_left fun h => List.mem_cons_of_mem _ (List.mem_append_left _ h)
      · exact (Expr.var_of_replace ε r hx).imp_left fun h => List.mem_cons_of_mem _ (List.mem_append_right _ h)
  | .unary _ _ x, hx | .member _ _ x _ _, hx => by
    rcases List.mem_cons.1 hx with heq | hx
    · cases heq
    · exact (Expr.var_of_replace ε x hx).imp_left fun h => List.mem_cons_of_mem _ h
  | .call _ _ _ args _, hx => by
    rcases List.mem_cons.1 hx with heq | hx
    · cases heq
    · exact (var_of_replaceList ε args hx).imp_left fun h => List.mem_cons_of_mem _ h
  | .query _ _ _ u x c, hx => by
    rcases List.mem_cons.1 hx with heq | hx
    · cases heq
    · rcases List.mem_append.1 hx with hx | hx
      · rcases List.mem_append.1 hx with hx | hx
        · exact (var_of_replaceOption ε u hx).imp_left fun h =>
            List.mem_cons_of_mem _ (List.mem_append_left _ (List.mem_append_left _ h))
        · exact (var_of_replaceOption ε x hx).imp_left fun h =>
            List.mem_cons_of_mem _ (List.mem_append_left _ (List.mem_append_right _ h))
      · exact (var_of_replaceOption ε c hx).imp_left fun h => List.mem_cons_of_mem _ (List.mem_append_right _ h)

/-- The same for several expressions. -/
private theorem var_of_replaceList (ε : Env) {i : ExprInfo} {n : Text} {b : Option Binding} :
    (es : List Expr) → .var i n b ∈ nodesOfList (replaceList (byWord w) ε es) →
      .var i n b ∈ nodesOfList es ∧ b.bind Binding.value? = none ∧ i.ty ≠ some .string
  | [], hx => by cases hx
  | e :: es, hx => by
    rcases List.mem_append.1 hx with hx | hx
    · exact (Expr.var_of_replace ε e hx).imp_left fun h => List.mem_append_left _ h
    · exact (var_of_replaceList ε es hx).imp_left fun h => List.mem_append_right _ h

/-- The same for one that may be absent. -/
private theorem var_of_replaceOption (ε : Env) {i : ExprInfo} {n : Text} {b : Option Binding} :
    (e : Option Expr) → .var i n b ∈ nodesOfOption (replaceOption (byWord w) ε e) →
      .var i n b ∈ nodesOfOption e ∧ b.bind Binding.value? = none ∧ i.ty ≠ some .string
  | none, hx => by cases hx
  | some e, hx => Expr.var_of_replace ε e hx

end

variable {h T w}

/-- Expressions read as texts read names that are held. -/
private theorem held_nodes {ε δ : Env} (hk : ε.Keeps T δ) {es es' : List Expr}
    (hsub : ∀ i n b, .var i n b ∈ es' →
      .var i n b ∈ es ∧ b.bind Binding.value? = none ∧ i.ty ≠ some .string)
    (hes : ∀ s ∈ (es.map Node.expr).map (Site.mk ε), s.Stored h T) :
    ∀ s ∈ (es'.map Node.expr).map (Site.mk δ), s.Held h := by
  intro s hs n hn
  rw [List.map_map] at hs
  obtain ⟨e, he, rfl⟩ := List.mem_map.1 hs
  -- Only a variable uses a name, and this one was in the expression that was read.
  cases e with
  | var i m b =>
    cases hn
    obtain ⟨hmem, hvalue, hty⟩ := hsub i n b he
    exact hk.held ((hes _ (List.mem_map_of_mem (List.mem_map_of_mem hmem))).used i n b rfl hvalue hty)
  | _ => cases hn

/-- So does an expression. -/
private theorem Expr.sites_held {ε δ : Env} (hk : ε.Keeps T δ) (e : Expr)
    (he : ∀ s ∈ exprSites ε e, s.Stored h T) :
    ∀ s ∈ exprSites δ (e.replace (byWord w) ε), s.Held h :=
  held_nodes hk (fun _ _ _ hx => e.var_of_replace w ε hx) he

/-- A statement that is no assignment reads and assigns nothing itself. -/
private theorem Stmt.self_held {δ : Env} {s : Stmt} (hs : ∀ a, s ≠ .assign a) :
    Site.Held h ⟨δ, .stmt s⟩ := by
  intro n hn
  cases s with
  | assign a => exact absurd rfl (hs a)
  | _ => cases hn

/-- An assignment that stays is held. -/
private theorem clause_held {ε δ : Env} (hk : ε.Keeps T δ) (a : Option Assign)
    (ha : ∀ s ∈ clauseSites ε a, s.Stored h T) :
    ∀ s ∈ clauseSites δ ((a.map (·.replace (byWord w) ε)).filter Assign.stores), s.Held h := by
  cases a with
  | none => exact fun _ hs => by cases hs
  | some a =>
    obtain ⟨i, v⟩ := a
    rw [Option.map_some, Option.filter_some]
    -- A clause whose value is a string is gone.
    split
    case isFalse => exact fun _ hs => by cases hs
    -- One that stays assigns a name that has a place, and its value reads such names.
    case isTrue hstores =>
      obtain ⟨hself, hvalue⟩ := List.forall_mem_cons.1 ha
      refine List.forall_mem_cons.2 ⟨fun n hn => ?_, v.sites_held hk hvalue⟩
      have hn : (if i.declares then none else some i.name) = some n := hn
      split at hn
      case isTrue => cases hn
      case isFalse hd =>
        cases hn
        -- A string would have made the clause go.
        refine hk.held (hself.assigned (.mk i v) rfl (Bool.eq_false_iff.2 hd) fun hs => ?_)
        exact bne_iff_ne.1 hstores ((v.ty?_byWord w ε).1.2 hs)

/-- Parameters of a call that stay are held. -/
private theorem assigns_held {ε δ : Env} (hk : ε.Keeps T δ) (as : List Assign)
    (has : ∀ s ∈ assignsSites ε as, s.Stored h T) :
    ∀ s ∈ assignsSites δ ((replaceAssigns (byWord w) ε as).filter Assign.stores), s.Held h := by
  -- The induction is on the parameters; those in front stay declared or go.
  induction as generalizing ε δ with
  | nil => exact fun _ hs => by cases hs
  | cons a as ih =>
    obtain ⟨ha, has⟩ := List.forall_mem_append.1 has
    have hbehind := hk.clause (w := w) (a := some a) ha
    have hheld := clause_held (w := w) hk (some a) ha
    rw [Option.map_some, Option.filter_some] at hbehind hheld
    rw [replaceAssigns, List.filter_cons]
    split at hbehind
    case isTrue hstores =>
      rw [if_pos hstores] at hheld ⊢
      exact List.forall_mem_append.2 ⟨hheld, ih hbehind has⟩
    case isFalse hstores =>
      rw [if_neg hstores]
      exact ih hbehind has

mutual

/-- What stays of a statement reads and assigns names that are held. -/
private theorem Stmt.sites_held {ε δ : Env} (hk : ε.Keeps T δ) : (s : Stmt) →
    (∀ x ∈ s.sites ε, x.Stored h T) → ∀ x ∈ stmtsSites δ (s.replace (byWord w) ε).withoutStrings, x.Held h
  -- A block is replaced statement by statement.
  | .block b, hs => by
    rw [Stmt.replace, Stmt.withoutStrings, stmtsSites_singleton]
    exact List.forall_mem_cons.2 ⟨Stmt.self_held nofun, Block.sites_held hk b (List.forall_mem_cons.1 hs).2⟩
  -- An assignment stays or goes.
  | .assign a, hs => by
    have hheld := clause_held (w := w) hk (some a) hs
    rw [Option.map_some] at hheld
    rw [Stmt.replace, Stmt.withoutStrings]
    cases hstays : (some (a.replace (byWord w) ε)).filter Assign.stores with
    | none => exact fun _ hx => by cases hx
    | some a' =>
      rw [hstays] at hheld
      rw [Option.toList_some, List.map_singleton, stmtsSites_singleton]
      exact hheld
  -- The expressions read what is held.
  | .eval _ e, hs | .ret _ e, hs => by
    rw [Stmt.replace, Stmt.withoutStrings, stmtsSites_singleton]
    exact List.forall_mem_cons.2 ⟨Stmt.self_held nofun, e.sites_held hk (List.forall_mem_cons.1 hs).2⟩
  | .assignMember _ t v, hs => by
    obtain ⟨ht, hv⟩ := List.forall_mem_append.1 (List.forall_mem_cons.1 hs).2
    rw [Stmt.replace, Stmt.withoutStrings, stmtsSites_singleton]
    exact List.forall_mem_cons.2 ⟨Stmt.self_held nofun, List.forall_mem_append.2
      ⟨t.sites_held hk ht, v.sites_held hk hv⟩⟩
  | .cond _ c t none, hs => by
    obtain ⟨hc, ht⟩ := List.forall_mem_append.1 (List.forall_mem_cons.1 hs).2
    rw [Stmt.replace, replaceElse, Stmt.withoutStrings, elseWithoutStrings, stmtsSites_singleton]
    exact List.forall_mem_cons.2 ⟨Stmt.self_held nofun, List.forall_mem_append.2
      ⟨c.sites_held hk hc, Block.sites_held hk t ht⟩⟩
  | .cond _ c t (some f), hs => by
    obtain ⟨hct, hf⟩ := List.forall_mem_append.1 (List.forall_mem_cons.1 hs).2
    obtain ⟨hc, ht⟩ := List.forall_mem_append.1 hct
    rw [Stmt.replace, replaceElse, Stmt.withoutStrings, elseWithoutStrings, stmtsSites_singleton]
    exact List.forall_mem_cons.2 ⟨Stmt.self_held nofun, List.forall_mem_append.2
      ⟨List.forall_mem_append.2 ⟨c.sites_held hk hc, Block.sites_held hk t ht⟩, Block.sites_held hk f hf⟩⟩
  | .loop _ c b, hs => by
    obtain ⟨hc, hb⟩ := List.forall_mem_append.1 (List.forall_mem_cons.1 hs).2
    rw [Stmt.replace, Stmt.withoutStrings, stmtsSites_singleton]
    exact List.forall_mem_cons.2 ⟨Stmt.self_held nofun, List.forall_mem_append.2
      ⟨c.sites_held hk hc, Block.sites_held hk b hb⟩⟩
  -- The four parts of a loop, each in the environment in front of it.
  | .forLoop _ i c st b, hs => by
    obtain ⟨hcst, hb⟩ := List.forall_mem_append.1 (List.forall_mem_cons.1 hs).2
    obtain ⟨hci, hst⟩ := List.forall_mem_append.1 hcst
    obtain ⟨hc, hi⟩ := List.forall_mem_append.1 hci
    -- Test and step are read behind the first clause, the body behind both.
    have hk₁ := hk.clause (w := w) hi
    have hk₂ := hk₁.clause (w := w) hst
    rw [Stmt.replace, Stmt.withoutStrings, stmtsSites_singleton]
    refine List.forall_mem_cons.2 ⟨Stmt.self_held nofun, List.forall_mem_append.2 ⟨List.forall_mem_append.2
      ⟨List.forall_mem_append.2 ⟨?_, clause_held hk i hi⟩, clause_held hk₁ st hst⟩,
      Block.sites_held hk₂ b hb⟩⟩
    exact held_nodes hk₁ (fun _ _ _ hx => var_of_replaceOption w _ c hx) hc
  | .funcDef _ _ _ _ b, hs => by
    rw [Stmt.replace, Stmt.withoutStrings, stmtsSites_singleton]
    exact List.forall_mem_cons.2 ⟨Stmt.self_held nofun, Block.sites_held hk b (List.forall_mem_cons.1 hs).2⟩
  -- Nothing is read or assigned here.
  | .leave _, _ | .code _ _, _ | .bitfieldDef _ _, _ | .enumDef _ _, _ | .require _ _, _ =>
    List.forall_mem_singleton.2 (Stmt.self_held nofun)

/-- So does what stays of statements. -/
private theorem stmts_held {ε δ : Env} (hk : ε.Keeps T δ) : (ss : List Stmt) →
    (∀ x ∈ stmtsSites ε ss, x.Stored h T) →
      ∀ x ∈ stmtsSites δ (stmtsWithoutStrings (replaceStmts (byWord w) ε ss)), x.Held h
  | [], _ => fun _ hx => by cases hx
  | s :: ss, hs => by
    obtain ⟨hs, hss⟩ := List.forall_mem_append.1 hs
    rw [replaceStmts, stmtsWithoutStrings, stmtsSites_append]
    exact List.forall_mem_append.2 ⟨Stmt.sites_held hk s hs, stmts_held (hk.stmt hs) ss hss⟩

/-- So does what stays of a block. -/
private theorem Block.sites_held {ε δ : Env} (hk : ε.Keeps T δ) : (b : Block) →
    (∀ x ∈ b.sites ε, x.Stored h T) → ∀ x ∈ (b.replace (byWord w) ε).withoutStrings.sites δ, x.Held h
  | .mk os ss _, hb => by
    obtain ⟨hos, hss⟩ := List.forall_mem_append.1 hb
    exact List.forall_mem_append.2 ⟨assigns_held hk os hos, stmts_held (hk.assigns hos) ss hss⟩

end

end Held

/-! ## Programs -/

/-- What is bound to a name is bound around the place. -/
private theorem stores_of_lookup {T : Text → Option Ty} {ε : Env} {n : Text} {w : Option Binding}
    (hn : ε.lookup n = some (.variable w)) (hty : typeOf T n w ≠ some .string) : ε.Stores T n :=
  ⟨w, Env.mem_of_lookup hn, hty⟩

/-- In an expanded program in which no reference is misread, every name but those of strings has a declaration, or
belongs to the host. -/
theorem Assembled.stored {D : Dialect} (hD : D.Plain) {P : Prop} {σ τ : Scope Entry} {lo hi : Nat}
    {c : Expansion} {ss : List Stmt} (sp : Span) (h : Assembled D P false σ τ lo hi {} c ss) (hσ : Firm D lo σ)
    {host : Host} (hhost : ∀ n b, Reaches σ n b → b.origin = .host ∧ host.has n = true)
    (hsettled : SettledNodes (Block.mk [] ss sp).nodes)
    (hread : ∀ s ∈ (Block.mk [] ss sp).sites [], ¬s.Misread) :
    ∀ s ∈ (Block.mk [] ss sp).sites [], s.Stored host (tempTy (acts (Block.mk [] ss sp).nodes)) := by
  -- What has been shown of assembled trees: references
  -- read right, declarations are counted, names settle.
  have hlegible := h.legible hD sp hσ (fun n b hr => (hhost n b hr).1) hsettled hread
  obtain ⟨_, hcounted⟩ := h.counted hD hσ
  have hsettles := (h.scoped hD hσ).settles
  -- The variables of the host are variables.
  have hvaries : Varies σ := by
    intro n b hr _
    simp [Binding.isVariable, (hhost n b hr).1]
  obtain ⟨_, haims⟩ := h.aims hvaries
  generalize hb : Block.mk [] ss sp = b at hlegible hread ⊢
  have hnodes : stmtsNodes ss = b.nodes := by rw [← hb]; rfl
  have hsites : stmtsSites [] ss = b.sites [] := by rw [← hb]; rfl
  rw [hnodes] at hcounted haims
  rw [hsites] at hsettles
  -- A variable of the script is found by its name, and one of the host is no variable of the tree.
  have hfound : ∀ s ∈ b.sites [], ∀ n d, s.node.refers? = some (n, d) → d.isVariable = true →
      d.ty ≠ .string → s.env.Stores (tempTy (acts b.nodes)) n ∨ host.has n = true := by
    intro s hs n d hn hvar hty
    -- The name settles on a declaration of the tree, or is reached from outside.
    rcases (hsettles s hs).1 n d hn hvar with ⟨_, hsome⟩ | ⟨_, hr, _⟩
    · refine .inl ⟨some d, (Env.mem_variables.1 (Env.mem_of_lookup hsome)).1, fun heq => ?_⟩
      exact hty (Option.some.inj heq)
    · exact .inr (hhost n d hr).2
  intro s hs
  have hplace := hlegible.places s hs
  have hnode := hlegible.known s hs
  obtain ⟨ε, node⟩ := s
  -- A site is stored in three regards: what it reads, what it assigns and what it declares.
  refine ⟨?_, ?_, fun a heq hd => hplace.declared a heq hd⟩
  · rintro i n w rfl hvalue hty
    -- The variable is found with the type that it is read with.
    rcases hplace.found i n w rfl hvalue with ⟨hlookup, htype⟩ | ⟨hnone, _⟩
    · exact .inl (stores_of_lookup hlookup (htype ▸ hty))
    · cases w with
      | none =>
        -- It has no binding, so the name is bound in front of it without one.
        have hmem : (n, Binder.variable none) ∈ ε := (hsettles _ hs).2 n rfl
        exact absurd (List.lookup_eq_none_iff.1 hnone _ hmem) (by simp)
      | some d =>
        -- It is bound but not found, so it belongs to the host.
        obtain ⟨htype, horigin, _⟩ := (hplace.clear _ rfl).2 i n d rfl
        refine hfound _ hs n d rfl (Binding.isVariable_of_value? hvalue horigin) fun hstring => hty ?_
        rw [htype, hstring]
  · rintro a rfl hd hty
    have hact := mem_acts_assign hnode
    -- The assignment closes a temporary, which was declared with the type of the value.
    cases hbinding : a.info.binding with
    | none =>
      have hmark : a.mark? = some (.closed a.info.name) := by simp [Assign.mark?, hd, hbinding]
      obtain ⟨hlookup, htype⟩ := hplace.closed a _ rfl hmark
      refine .inl (stores_of_lookup hlookup ?_)
      rw [typeOf, ← htype]
      exact hty
    -- The assignment is to a variable of the script or the host.
    | some d =>
      refine hfound _ hs _ d ?_ (haims _ hact a d rfl hd hbinding) ((hcounted.kept a hact d hbinding).2 hd).1
      simp [Node.refers?, hd, hbinding]

/-- Lowered programs are well scoped.  In an accepted program without made-up names, without enumerations in the
place of values and without loops whose step declares a variable and calls a function, for a host without string
variables: if no reference of the expanded program is misread, the program is lowered, and in the lowered tree every
name that is read or assigned is declared in front, in the same frame or in one around it, or the host has it.  If no
call binds two parameters of one name, no frame declares a name twice. -/
theorem Block.lower_wellScoped {h : Host} (hh : ∀ g ∈ h.globals, g.ty.isProper = true)
    (hstrings : ∀ g ∈ h.globals, g.ty ≠ .string) {program declared typed : Block} (hp : program.Sourced)
    (hd : program.declare h = (declared, none)) (ht : declared.annotate h = (typed, none))
    (hplain : ∀ n ∈ declared.identifiers, n.isPlain = true) (hsteady : ∀ y ∈ typed.deep, y.Steady)
    (hvalued : ∀ y ∈ typed.deep, y.Valued) :
    ∃ x, typed.expand = .ok x ∧ ((∀ s ∈ x.program.sites [], ¬s.Misread) →
      ∃ lowered, typed.lower = .ok lowered ∧ (∀ s ∈ lowered.sites [], s.Held h)
        ∧ ((∀ y ∈ typed.deep, y.Apart) → ∀ ns ∈ lowered.frames, ns.Nodup)) := by
  obtain ⟨x, enums, hx, henums, hagrees⟩ := Block.substituteEnums_agrees_iff hh hp ⟨declared, hd, ht⟩
  refine ⟨x, hx, fun hread => ?_⟩
  -- No reference is misread, so the enumerations go without a change to the rest.
  have heq := hagrees.2 hread
  have hlower : typed.lower = enums.substituteStrings := by
    simp only [Block.lower, hx, henums, bind, Except.bind]
  -- The tree is assembled under the condition that parameters differ, which only its frames need.
  have hfits : ∀ y ∈ typed.deep, y.Fits (∀ y ∈ typed.deep, y.Apart) :=
    fun y hy => ⟨hsteady y hy, hvalued y hy, fun hapart => hapart y hy⟩
  obtain ⟨D, ss, _, _, _, hD, hσ, hout, hsettled, hassembled⟩ :=
    Block.expand_assembled hh hstrings hp hd ht hplain hfits hx
  rw [hout] at hread hsettled heq
  -- The strings go too.
  obtain ⟨w, hresult, _⟩ :=
    hassembled.inlined hD typed.span hσ (fun n b hr => (h.reaches_push hr).1) hsettled hread
  rw [← heq] at hresult
  refine ⟨_, hlower.trans hresult, ?_, fun hapart => ?_⟩
  -- Each name of the lowered tree is held.
  · exact Block.sites_held Env.Keeps.nil _
      (hassembled.stored hD typed.span hσ (fun n b hr => h.reaches_push hr) hsettled hread)
  -- Frames of the lowered tree have the names of the expanded one, less the strings.
  · exact (hassembled.framed hD hapart hσ).lowered (byWord w) typed.span

/-- Whether a call binds different parameters can be computed. -/
instance : DecidablePred Node.Apart
  | .expr (.call _ _ _ _ (.function binds _)) => inferInstanceAs (Decidable (binds.map (·.info.name)).Nodup)
  | .expr (.call _ _ _ _ .unresolved) | .expr (.call _ _ _ _ (.intrinsic _))
  | .expr (.call _ _ _ _ (.constructor _)) | .expr (.const ..) | .expr (.var ..) | .expr (.binary ..)
  | .expr (.unary ..) | .expr (.member ..) | .expr (.query ..) | .stmt _ => inferInstanceAs (Decidable True)

/-- `n = 2 def f(n, s) for i = n; ; say(s) n = i end return n end y = f(n, "a")`: a call whose parameter has the
name of its argument, with a loop in its body and a string to say. -/
def saidLoop : Block :=
  .mk [] [.assign (.make "n" (.literal (.int 2) {}) false {}),
    .funcDef {} "f" {} [⟨"n", {}⟩, ⟨"s", {}⟩] (.mk []
      [.forLoop {} (some (.make "i" (.name "n" {}) false {})) none none
          (.mk [] [.eval {} (.apply "say" {} [.name "s" {}] {}), .assign (.make "n" (.name "i" {}) false {})] {}),
        .ret {} (.name "n" {})] {}),
    .assign (.make "y" (.apply "f" {} [.name "n" {}, .literal (.string "a") {}] {}) false {})] {}

/-- The program as it is typed. -/
def saidLoopTyped : Block := ((saidLoop.declare .default).1.annotate .default).1

/-- Every name of the lowered program is declared in front of its uses, and once. -/
theorem saidLoop_wellScoped :
    saidLoop.Accepted .default saidLoopTyped ∧ ∃ x, saidLoopTyped.expand = .ok x
      ∧ (∀ s ∈ x.program.sites [], ¬s.Misread)
      ∧ ∃ lowered, saidLoopTyped.lower = .ok lowered ∧ (∀ s ∈ lowered.sites [], s.Held .default)
        ∧ (∀ y ∈ saidLoopTyped.deep, y.Apart) ∧ ∀ ns ∈ lowered.frames, ns.Nodup := by
  -- The source form is checked from the definitions.
  have hsourced : saidLoop.Sourced := by
    simp [saidLoop, Block.Sourced, Block.Marked, MarkedStmts, Stmt.Marked, Assign.Marked, Assign.make, MarkedClause,
      BareOption, Expr.Bare, Expr.literal, Expr.name, Expr.apply, Expr.nodes, nodesOfList, nodesOfOption,
      Expr.IsBare, Dialect.full, Literal.ty]
  have hd : saidLoop.declare .default = ((saidLoop.declare .default).1, none) :=
    Block.declare_eq_of_none (by decide +kernel)
  have ht : (saidLoop.declare .default).1.annotate .default = (saidLoopTyped, none) :=
    Block.annotate_eq_of_none (by decide +kernel)
  -- The conditions on the expanded tree are decided by evaluation.
  have hread : (saidLoopTyped.expand.map fun x => decide (∀ s ∈ x.program.sites [], ¬s.Misread)) = .ok true := by
    decide +kernel
  have hapart : ∀ y ∈ saidLoopTyped.deep, y.Apart := by decide +kernel
  obtain ⟨x, hx, hlowered⟩ := Block.lower_wellScoped (by decide) (by decide) hsourced hd ht (by decide +kernel)
    (by decide +kernel) (by decide +kernel)
  rw [hx] at hread
  have hnone := of_decide_eq_true (Except.ok.inj hread)
  obtain ⟨lowered, hlower, hheld, hframes⟩ := hlowered hnone
  exact ⟨⟨_, hd, ht⟩, x, hx, hnone, lowered, hlower, hheld, hapart, hframes hapart⟩

end AisScript
