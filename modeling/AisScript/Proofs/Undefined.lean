import AisScript.Proofs.Visibility

/-!
# Names that are not defined

What the declaration pass and typing show at the same assignment differs only in the functions around it:
the declaration pass has bound the name of a function before it walks the body, and the snapshot in which
typing walks the body was taken in front of that.  So an assignment that declares hides nothing, and one
that does not declare has a target that typing cannot find only if the target is such a function.

For the errors of a whole program this is followed through all copies: every function that is called was
defined where typing had come to, or is one of the host's own.

* `Scope.functions_of_walk`   functions in scope were defined at a place of the program
* `IsUndefined`               what an undefined name comes from
* `enterWithin_blames`        it comes from there in copies of functions too
* `Block.passes_see_alike`    the two passes on every program
-/

namespace AisScript

open Typed

/-! ## Functions in scope -/

/-- A function as a scope has it: its parameters, its body and what it captured. -/
abbrev FunctionKind := List Param → Block → List (Text × Entry) → Prop

/-- All functions that a scope shows are of some kind. -/
def Scope.FunctionsOf (Q : FunctionKind) (σ : Scope Entry) : Prop :=
  ∀ n ps body κ, σ.lookup n = some (.function ps body κ) → Q ps body κ

namespace Scope.FunctionsOf

variable {Q : FunctionKind} {σ τ : Scope Entry}

/-- An opened block shows the same functions. -/
theorem push (h : σ.FunctionsOf Q) : σ.push.FunctionsOf Q := by
  intro n ps body κ hn
  rw [Scope.lookup_push] at hn
  exact h n ps body κ hn

/-- What was captured shows the same functions. -/
theorem snapshot (h : σ.FunctionsOf Q) : Scope.FunctionsOf Q ⟨σ.snapshot.inner, []⟩ := by
  intro n ps body κ hn
  rw [Scope.lookup_single, Scope.lookup_snapshot] at hn
  exact h n ps body κ hn

/-- A definition adds what it defines. -/
theorem define (h : σ.FunctionsOf Q) (m : Text) {e : Entry}
    (he : ∀ ps body κ, e = .function ps body κ → Q ps body κ) : (σ.define m e).FunctionsOf Q := by
  intro n ps body κ hn
  by_cases hm : n = m
  · subst hm
    rw [Scope.lookup_define_self] at hn
    exact he ps body κ (Option.some.inj hn)
  · rw [Scope.lookup_define_of_ne σ e hm] at hn
    exact h n ps body κ hn

/-- A value adds no function. -/
theorem defineValue (h : σ.FunctionsOf Q) (m : Text) (b : Binding) :
    (σ.define m (.value b)).FunctionsOf Q := h.define m nofun

/-- An enumeration adds no function. -/
theorem bindEnum (h : σ.FunctionsOf Q) (next : Nat) (d : Enumeration) :
    (AisScript.bindEnum σ next d).1.FunctionsOf Q := by
  have hmembers : ∀ (ms : List EnumMember) (σ : Scope Entry) (next : Nat), σ.FunctionsOf Q →
      (bindMembers σ next ms).1.FunctionsOf Q := by
    intro ms
    induction ms with
    | nil => exact fun _ _ h => h
    | cons m ms ih => exact fun _ _ h => ih _ _ (h.defineValue m.name _)
  exact hmembers d.members _ _ (h.defineValue d.name _)

/-- An assignment adds no function. -/
theorem assign (h : σ.FunctionsOf Q) {a : Assign} (ha : a.Leads σ τ) : τ.FunctionsOf Q := by
  unfold Assign.Leads at ha
  split at ha
  · obtain ⟨b, rfl⟩ := ha
    exact h.defineValue _ b
  · rw [ha]
    exact h

/-- A clause adds no function. -/
theorem clause (h : σ.FunctionsOf Q) {a : Option Assign} (ha : ClauseLeads σ τ a) : τ.FunctionsOf Q := by
  cases a with
  | none =>
    cases ha
    exact h
  | some a => exact h.assign ha

/-- A statement adds the function that it defines. -/
theorem stmt (h : σ.FunctionsOf Q) {s : Stmt}
    (hdef : ∀ sp f ns ps body, s = .funcDef sp f ns ps body → Q ps body σ.snapshot.inner)
    (hs : s.Leads σ τ) : τ.FunctionsOf Q := by
  -- Only these statements touch a scope; the definition alone adds a function.
  cases s with
  | assign a => exact h.assign hs
  | funcDef sp f ns ps body =>
    rw [hs]
    apply h.define f
    rintro _ _ _ ⟨⟩
    exact hdef sp f ns ps body rfl
  | bitfieldDef sp d =>
    rw [hs]
    exact h.define d.name nofun
  | enumDef sp d =>
    obtain ⟨next, rfl⟩ := hs
    exact h.bindEnum next d
  | _ =>
    cases hs
    exact h

/-- Bindings of parameters add no functions. -/
theorem binds (h : σ.FunctionsOf Q) {enter : EnterBody} {next : Nat} {as : List Assign}
    (has : (annotateAssigns enter σ next as).result = .ok τ) : τ.FunctionsOf Q := by
  induction as generalizing σ next with
  | nil =>
    cases has
    exact h
  | cons a as ih =>
    simp only [annotateAssigns] at has
    split at has
    · cases has
    · rename_i ha
      exact ih (h.assign (Assign.leads_of_annotate ha)) has

end Scope.FunctionsOf

/-- One of the host's own functions. -/
def IsHostFunction (ps : List Param) (body : Block) : Prop :=
  ∃ sp f ns, Stmt.funcDef sp f ns ps body ∈ Host.achronal

/-- A function of the host, or one that was defined at a place typing came to, with what was visible
there. -/
def DefinedAt (ss₀ : List Stmt) (scope₀ : Scope Entry) : FunctionKind := fun ps body κ =>
  IsHostFunction ps body ∨ ∃ π sp f ns ss scope,
    typing.Walks ss₀ scope₀ π (.funcDef sp f ns ps body :: ss) scope ∧ κ = scope.snapshot.inner

/-- Every function in scope, where typing comes to, is the host's or was defined where typing came to. -/
theorem functions_of_walk {ss₀ ss : List Stmt} {scope₀ scope : Scope Entry} {π : Route}
    (h₀ : scope₀.FunctionsOf fun ps body _ => IsHostFunction ps body)
    (h : typing.Walks ss₀ scope₀ π ss scope) : scope.FunctionsOf (DefinedAt ss₀ scope₀) := by
  -- The induction is on the walk: a step behind a statement, or one into its body.
  induction h with
  | start => exact fun n ps body κ hn => .inl (h₀ n ps body κ hn)
  | behind hwalk hstep ih =>
    obtain ⟨depth, next, hs⟩ := hstep
    refine ih.stmt ?_ (Stmt.leads_of_annotate hs)
    -- A definition that typing has come past is one that typing has come to.
    rintro sp f ns ps body rfl
    exact .inr ⟨_, sp, f, ns, _, _, hwalk, rfl⟩
  -- Bodies open scopes that hold no function yet.
  | into _ hstep ih =>
    cases hstep with
    | block | thenBlock | elseBlock | loop => exact ih.push
    | forLoop depth next next' hi hst =>
      exact ((ih.push.clause (clauseLeads_of_annotate hi)).clause (clauseLeads_of_annotate hst)).push
    -- A copy sees what the definition saw, and binds parameters to values.
    | copy depth next args hlen hbinds => exact ih.snapshot.push.binds hbinds

/-! ## Where undefined names come from -/

/-- An error that is no undefined name, or that is about a name read or called in the program or in a
function of the host, or about the target of an assignment that typing has come to. -/
def IsUndefined (ss₀ : List Stmt) (scope₀ : Scope Entry) (e : SemanticError) : Prop :=
  ∀ n, e.cause = .notDefined n →
    (∃ x, (Node.expr x ∈ stmtsNodes ss₀ ∨ ∃ s ∈ Host.achronal, Node.expr x ∈ s.nodes)
        ∧ x.Reads n e.span)
      ∨ ∃ π a scope, typing.Meets ss₀ scope₀ π a scope ∧ a.info.name = n ∧ a.info.nameSpan = e.span
        ∧ a.info.declares = false ∧ ¬ scope.Shows n

/-- What is needed to follow the errors of a program through copies that are nested so deep. -/
structure Grounded (ss₀ : List Stmt) (scope₀ : Scope Entry) (depth : Nat) : Prop where
  /-- In front of the program there are functions of the host only. -/
  host : scope₀.FunctionsOf fun ps body _ => IsHostFunction ps body
  unbound : Unbound ss₀
  copies : ∀ ps body κ, DefinedAt ss₀ scope₀ ps body κ → ∀ next args, args.length = ps.length →
    (enterWithin depth ⟨κ, []⟩ next (bindArguments ps args) body).Blames (IsUndefined ss₀ scope₀)

/-- The statements of a block are among the nodes of the block. -/
private theorem mem_nodes_of_stmts {b : Block} {y : Node} (h : y ∈ stmtsNodes b.stmts) : y ∈ b.nodes := by
  obtain ⟨os, ss, sp⟩ := b
  rw [Block.nodes]
  exact List.mem_append_right _ h

/-- The nodes of a block that typing enters are nodes of the statement. -/
private theorem nodes_of_enters {s : Stmt} {p : Spot} {b : Block} {scope scope' : Scope Entry} {y : Node}
    (h : TypingEnters scope s p b scope') (hy : y ∈ stmtsNodes b.stmts) : y ∈ s.nodes := by
  have hb := mem_nodes_of_stmts hy
  cases h with
  | @thenBlock _ _ _ f => cases f <;> simp [Stmt.nodes, hb]
  | _ => simp [Stmt.nodes, hb]

/-- What typing comes to are nodes of the program. -/
private theorem nodes_of_walk {ss₀ ss : List Stmt} {scope₀ scope : Scope Entry} {π : Route} {y : Node}
    (h : typing.Walks ss₀ scope₀ π ss scope) (hy : y ∈ stmtsNodes ss) : y ∈ stmtsNodes ss₀ := by
  induction h with
  | start => exact hy
  | behind _ _ ih => exact ih (List.mem_append_right _ hy)
  | into _ hstep ih => exact ih (List.mem_append_left _ (nodes_of_enters hstep hy))

namespace Grounded

variable {ss₀ ss : List Stmt} {scope₀ scope σ : Scope Entry} {depth : Nat} {π : Route} {s : Stmt}

/-- An error that is not about a name. -/
theorem other {e : SemanticError} (h : ∀ n, e.cause ≠ .notDefined n) : IsUndefined ss₀ scope₀ e :=
  fun n hn => absurd hn (h n)

/-- Where all functions in scope are the host's or of the program, expressions blame undefined names. -/
theorem blaming (G : Grounded ss₀ scope₀ depth) (hσ : σ.FunctionsOf (DefinedAt ss₀ scope₀)) :
    Blaming (IsUndefined ss₀ scope₀) (enterWithin depth) σ where
  other _ he := other he.1
  copies n ps body κ hn := G.copies ps body κ (hσ n ps body κ hn)

/-- A name that is read where typing comes to. -/
theorem reads (h : typing.Walks ss₀ scope₀ π (s :: ss) scope) {x : Expr} (hx : Node.expr x ∈ s.nodes)
    (n : Text) (sp : Span) (hr : x.Reads n sp) : IsUndefined ss₀ scope₀ ⟨.notDefined n, sp⟩ := by
  rintro _ ⟨⟩
  exact .inl ⟨x, .inl (nodes_of_walk h (List.mem_append_left _ hx)), hr⟩

/-- A target that is not found where typing comes to. -/
theorem target (h : typing.Walks ss₀ scope₀ π (s :: ss) scope) {p : Spot} {a : Assign}
    (ha : TypingAssigns scope s p a σ) (hdeclares : a.info.declares = false)
    (hnone : σ.lookup a.info.name = none) :
    IsUndefined ss₀ scope₀ ⟨.notDefined a.info.name, a.info.nameSpan⟩ := by
  rintro _ ⟨⟩
  have hnot : ¬ σ.Shows a.info.name := by
    simp [Scope.Shows, hnone]
  exact .inr ⟨_, a, σ, .intro h ha, rfl, rfl, hdeclares, hnot⟩

/-- The expressions of a statement are among its nodes. -/
private theorem mem_exprNodes {e x : Expr} (h : x ∈ e.nodes) : Node.expr x ∈ exprNodes e :=
  List.mem_map_of_mem h

mutual

/-- A statement that typing comes to blames undefined names. -/
theorem stmt (G : Grounded ss₀ scope₀ depth) {π : Route} {ss : List Stmt} {scope : Scope Entry}
    (next : Nat) : (s : Stmt) → typing.Walks ss₀ scope₀ π (s :: ss) scope →
      (s.annotate (enterWithin depth) scope next).Blames (IsUndefined ss₀ scope₀)
  -- A block blames what its statements blame.
  | .block b, hw => (block G next b hw .block).map _ _ _
  -- An expression blames what it reads.
  | .eval sp e, hw => by
    have hblaming := G.blaming (functions_of_walk G.host hw)
    have hr : ∀ x ∈ e.nodes, ∀ n sp, x.Reads n sp → IsUndefined ss₀ scope₀ ⟨.notDefined n, sp⟩ :=
      fun x hx => reads hw (by simp [Stmt.nodes, mem_exprNodes hx])
    exact (Expr.annotate_blames hblaming next e hr).map _ _ _
  -- The target is blamed at its own place, the value at its reads.
  | .assign a, hw => by
    have hblaming := G.blaming (functions_of_walk G.host hw)
    have hr : ∀ x ∈ a.value.nodes, ∀ n sp, x.Reads n sp → IsUndefined ss₀ scope₀ ⟨.notDefined n, sp⟩ :=
      fun x hx => reads hw (by simp [Stmt.nodes, Assign.nodes, mem_exprNodes hx])
    exact Assign.annotate_blames hblaming next a hr (target hw .whole)
  | .assignMember sp t v, hw => by
    have hblaming := G.blaming (functions_of_walk G.host hw)
    exact annotateMemberAssign_blames hblaming next sp t v
      (fun x hx => reads hw (by simp [Stmt.nodes, mem_exprNodes hx]))
      fun x hx => reads hw (by simp [Stmt.nodes, mem_exprNodes hx])
  -- The condition first; if that is accepted then the branches.
  | .cond sp c t f, hw => by
    have hblaming := G.blaming (functions_of_walk G.host hw)
    have hc := asCondition_blames hblaming next c
      fun x hx => reads hw (by cases f <;> simp [Stmt.nodes, mem_exprNodes hx])
    have ht := block G (c.annotate (enterWithin depth) scope next).asCondition.next t hw .thenBlock
    simp only [Stmt.annotate]
    split
    · exact blames_error (hc _ ‹_›)
    · split
      · exact blames_error (ht _ ‹_›)
      · cases f with
        | none => exact blames_ok
        | some f => exact (block G _ f hw .elseBlock).map _ _ _
  | .loop sp c b, hw => by
    have hblaming := G.blaming (functions_of_walk G.host hw)
    have hc := asCondition_blames hblaming next c
      fun x hx => reads hw (by simp [Stmt.nodes, mem_exprNodes hx])
    simp only [Stmt.annotate]
    split
    · exact blames_error (hc _ ‹_›)
    · exact (block G _ b hw .loop).map _ _ _
  -- The first clause is typed in the scope of the header.
  | .forLoop sp i c st b, hw => by
    have hfunctions := functions_of_walk G.host hw
    have hi := annotateClause_blames (G.blaming hfunctions.push) next i
      (fun a ha x hx => reads hw (by simp [Stmt.nodes, ha, clauseNodes, Assign.nodes, mem_exprNodes hx]))
      (by rintro a rfl; exact target hw .init)
    simp only [Stmt.annotate]
    split
    · exact blames_error (hi _ ‹_›)
    · -- The test, the step and the body are typed behind the first clause.
      rename_i header hinit
      have hheader := hfunctions.push.clause (clauseLeads_of_annotate hinit)
      have hc := annotateTest_blames (G.blaming hheader)
        (annotateClause (enterWithin depth) scope.push next i).next c
        fun x hx => reads hw (by simp [Stmt.nodes, hx])
      have hst := annotateClause_blames (G.blaming hheader)
        (annotateTest (enterWithin depth) header
          (annotateClause (enterWithin depth) scope.push next i).next c).next st
        (fun a ha x hx => reads hw (by simp [Stmt.nodes, ha, clauseNodes, Assign.nodes, mem_exprNodes hx]))
        (by rintro a rfl; exact target hw (.step depth next hinit))
      split
      · exact blames_error (hc _ ‹_›)
      · split
        · exact blames_error (hst _ ‹_›)
        · rename_i hstep
          exact (block G _ b hw (.forLoop depth next _ hinit hstep)).map _ _ _
  -- A return blames its value; a void one is refused for another reason.
  | .ret sp v, hw => by
    have hblaming := G.blaming (functions_of_walk G.host hw)
    have hv := (Expr.annotate_blames hblaming next v
      fun x hx => reads hw (by simp [Stmt.nodes, mem_exprNodes hx])).asValue hblaming.other
    simp only [Stmt.annotate]
    split
    · exact blames_error (hv _ ‹_›)
    · exact blames_error (other nofun)
    · exact blames_ok
  -- These are accepted as they stand.
  | .leave _, _ | .code _ _, _ | .bitfieldDef _ _, _ | .enumDef _ _, _ | .require _ _, _ => blames_ok
  | .funcDef _ _ _ _ _, _ => blames_ok

/-- Statements that typing comes to blame undefined names. -/
theorem stmts (G : Grounded ss₀ scope₀ depth) {π : Route} {scope : Scope Entry} (next : Nat) :
    (ss : List Stmt) → typing.Walks ss₀ scope₀ π ss scope →
      (annotateStmts (enterWithin depth) scope next ss).Blames (IsUndefined ss₀ scope₀)
  | [], _ => blames_ok
  | s :: ss, hw =>
    annotateStmts_blames_cons (stmt G next s hw) fun _ hok =>
      stmts G _ ss (hw.behind ⟨depth, next, hok⟩)

/-- A block that typing enters blames undefined names. -/
theorem block (G : Grounded ss₀ scope₀ depth) {π : Route} {s : Stmt} {ss : List Stmt} {p : Spot}
    {scope scope' : Scope Entry} (next : Nat) : (b : Block) →
      typing.Walks ss₀ scope₀ π (s :: ss) scope → TypingEnters scope s p b scope' →
        (b.annotateIn (enterWithin depth) scope' next).Blames (IsUndefined ss₀ scope₀)
  | .mk os ts sp, hw, hb => by
    have hos : os = [] := by
      have htypes : Seen.Types ⟨scope₀.Shows, []⟩ scope₀ := fun _ => Iff.rfl
      obtain ⟨x, _, hx, hunbound⟩ := binding_of_typing G.unbound htypes hw
      obtain ⟨y, hy, _⟩ := binding_enters hunbound hx hb
      exact (hunbound.enters hy).2
    subst hos
    simp only [Block.annotateIn, annotateAssigns]
    exact (stmts G next ts (hw.into hb)).map _ _ _

end

end Grounded

/-! ## Copies -/

/-- The functions of the host blame undefined names: one of them reads a variable. -/
private theorem IsHostFunction.blames {ss₀ : List Stmt} {scope₀ : Scope Entry} {ps : List Param}
    {body : Block} (h : IsHostFunction ps body) (enter : EnterBody) (σ : Scope Entry) (next : Nat) :
    (body.annotateIn enter σ next).Blames (IsUndefined ss₀ scope₀) := by
  obtain ⟨sp, f, ns, hmem⟩ := h
  rcases List.mem_cons.1 hmem with heq | hmem
  · -- The first function returns a variable of the host.
    have hvar : Node.expr (.name "perf_ret" {}) ∈ (Stmt.funcDef sp f ns ps body).nodes := by
      rw [heq]
      simp [Stmt.nodes, Block.nodes, stmtsNodes, exprNodes, Expr.name, Expr.nodes]
    have hread : IsUndefined ss₀ scope₀ ⟨.notDefined "perf_ret", {}⟩ := by
      rintro _ ⟨⟩
      exact .inl ⟨_, .inr ⟨_, hmem, hvar⟩, rfl, rfl⟩
    cases heq
    -- The variable is found, or is reported at the place where it is read.
    have hvalue : ((Expr.name "perf_ret" {}).annotate enter σ next).asValue.Blames
        (IsUndefined ss₀ scope₀) := by
      apply Blames.asValue _ fun e he => Grounded.other he.1
      simp only [Expr.name, Expr.annotate]
      split
      · exact blames_error hread
      · exact blames_ok
      · exact blames_error (Grounded.other (by simp))
    have hret : (Stmt.annotate enter σ next (.ret {} (.name "perf_ret" {}))).Blames
        (IsUndefined ss₀ scope₀) := by
      simp only [Stmt.annotate]
      split
      · exact blames_error (hvalue _ ‹_›)
      · exact blames_error (Grounded.other (by simp))
      · exact blames_ok
    -- The code literal is accepted, so the return decides.
    have hstmts : (annotateStmts enter σ next [.code {} "PERFORM GET_ACHRONAL_FIELD num;",
        .ret {} (.name "perf_ret" {})]).Blames (IsUndefined ss₀ scope₀) := by
      refine annotateStmts_blames_cons (fun _ he => by cases he) ?_
      rintro _ ⟨⟩
      exact annotateStmts_blames_cons hret fun _ _ => blames_ok
    exact hstmts.map _ _ _
  · -- The second passes code through.
    rcases List.mem_singleton.1 hmem with heq
    cases heq
    exact blames_ok

/-- Copies of functions blame undefined names, however deep they are nested. -/
theorem enterWithin_blames {ss₀ : List Stmt} {scope₀ : Scope Entry}
    (h₀ : scope₀.FunctionsOf fun ps body _ => IsHostFunction ps body) (hss₀ : Unbound ss₀)
    (depth : Nat) : Grounded ss₀ scope₀ depth := by
  -- The induction is on the depth to which copies may nest.
  induction depth with
  | zero =>
    -- At depth none every copy is refused, for the reason that it nests too deep.
    refine ⟨h₀, hss₀, ?_⟩
    intro ps body κ _ next args _
    exact blames_error (Grounded.other nofun)
  | succ depth ih =>
    refine ⟨h₀, hss₀, ?_⟩
    intro ps body κ hfrom next args hlen
    have hbinds := annotateAssigns_bindArguments (enterWithin depth) (Scope.push ⟨κ, []⟩) next ps args
      hlen.symm
    -- The parameters are bound without an error, so the body decides.
    simp only [enterWithin, hbinds]
    -- The function is the host's own, or typing came to its definition.
    rcases hfrom with hhost | ⟨π, sp, f, ns, ss, scope, hwalk, rfl⟩
    · exact hhost.blames _ _ _
    · have henters : TypingEnters scope (.funcDef sp f ns ps body) .body body _ :=
        .copy depth next args hlen (congrArg Typed.result hbinds)
      exact ih.block _ body hwalk henters

/-! ## Programs -/

/-- The host's variables are no functions, and they are shown. -/
private theorem bindGlobals_shows {Q : FunctionKind} {σ : Scope Entry} (hσ : σ.FunctionsOf Q) (next : Nat)
    (gs : List Global) : (bindGlobals σ next gs).1.FunctionsOf Q
      ∧ ∀ n, (bindGlobals σ next gs).1.Shows n ↔ σ.Shows n ∨ n ∈ gs.map (·.name) := by
  induction gs generalizing σ next with
  | nil => exact ⟨hσ, fun n => by simp [bindGlobals]⟩
  | cons g gs ih =>
    obtain ⟨hfunctions, hshows⟩ := ih (hσ.defineValue g.name _) (next + 1)
    refine ⟨hfunctions, ?_⟩
    intro n
    rw [bindGlobals, hshows, Scope.shows_define, List.map_cons, List.mem_cons, or_assoc]

/-- The host's operations are no functions of a script. -/
private theorem intrinsics_functionsOf {Q : FunctionKind} (ops : List Intrinsic) {σ : Scope Entry}
    (hσ : σ.FunctionsOf Q) :
    (ops.foldl (fun sc op => sc.define op.name (.intrinsic op)) σ).FunctionsOf Q := by
  induction ops generalizing σ with
  | nil => exact hσ
  | cons op ops ih => exact ih (hσ.define op.name nofun)

/-- The scope in front of every program has functions of the host only, and shows what the declaration
pass takes for taken. -/
private theorem Host.entryScope_shows (h : Host) :
    h.entryScope.1.FunctionsOf (fun ps body _ => IsHostFunction ps body)
      ∧ ∀ n, h.entryScope.1.Shows n ↔ h.nameScope.Shows n := by
  have hempty : Scope.FunctionsOf (fun ps body _ => IsHostFunction ps body) {} := nofun
  obtain ⟨hglobals, hshows⟩ := bindGlobals_shows hempty 0 h.globals
  have hintrinsics := intrinsics_functionsOf Intrinsic.all hglobals
  -- A definition of the host adds a function of the host.
  have hdefine : ∀ {σ : Scope Entry} {sp ns : Span} {f : Text} {ps : List Param} {body : Block},
      σ.FunctionsOf (fun ps body _ => IsHostFunction ps body) → .funcDef sp f ns ps body ∈ Host.achronal →
        (bindFunction σ f ps body).FunctionsOf fun ps body _ => IsHostFunction ps body := by
    intro σ sp ns f ps body hσ hmem
    apply hσ.define f
    rintro _ _ _ ⟨⟩
    exact ⟨sp, f, ns, hmem⟩
  refine ⟨?_, ?_⟩
  · have hfirst := hdefine hintrinsics (List.mem_cons_self ..)
    exact hdefine hfirst (List.mem_cons_of_mem _ (List.mem_cons_self ..))
  · intro n
    -- Neither scope shows a name at first.
    have hempty : ¬ Scope.Shows ({} : Scope Unit) n ∧ ¬ Scope.Shows ({} : Scope Entry) n := ⟨nofun, nofun⟩
    have hnames : h.nameScope.Shows n ↔ n ∈ h.names := by
      apply (Scope.shows_foldl_define_iff id (fun _ => ()) h.names {} n).trans
      simp [hempty]
    rw [hnames, Host.names]
    -- Both fold the same definitions, group by group.
    simp only [Host.entryScope, Host.achronal, List.foldl_cons, List.foldl_nil, bindHostFunction,
      bindFunction, Scope.shows_define, Scope.shows_foldl_define_iff Intrinsic.name Entry.intrinsic,
      hshows, hempty, false_or, List.mem_append, List.mem_map, List.mem_cons, List.not_mem_nil]
    grind

/-- On every program the two passes see alike.  Wherever typing comes to an assignment, in any copy of the
function around it, the declaration pass has marked that assignment; typing shows there the names that
are bound in front of it, and the declaration pass showed these and the names of the functions around it.
So an assignment that declares hides nothing, and the target of one that does not is found unless it is
the name of a function around it.  And if typing reports a name as undefined, then the name is read or
called there, or it is the target of an assignment in the body of the function of that name. -/
theorem Block.passes_see_alike (h : Host) {b : Block} (hb : b.Sourced) :
    (∀ π a scope, typing.Meets (b.declare h).1.stmts h.entryScope.1.push π a scope →
      ∃ a₀ names x, declaring.Meets b.stmts h.nameScope.push π a₀ names
        ∧ (∀ a₁ names₁, declaring.Meets b.stmts h.nameScope.push π a₁ names₁ → a₁ = a₀ ∧ names₁ = names)
        ∧ binding.Meets (b.declare h).1.stmts ⟨h.nameScope.Shows, []⟩ π a x
        ∧ a = (a₀.declare names).1
        ∧ (∀ n, scope.Shows n ↔ x.bound n)
        ∧ (∀ n, names.Shows n ↔ x.bound n ∨ n ∈ x.own)
        ∧ (a.info.declares = true → ¬ scope.Shows a.info.name)
        ∧ (a.info.declares = false → ¬ scope.Shows a.info.name → a.info.name ∈ x.own))
    ∧ ∀ n sp, ((b.declare h).1.annotate h).2 = some ⟨.notDefined n, sp⟩ →
      (∃ e, (Node.expr e ∈ (b.declare h).1.nodes ∨ ∃ s ∈ Host.achronal, Node.expr e ∈ s.nodes)
        ∧ e.Reads n sp)
      ∨ ∃ π a scope x, typing.Meets (b.declare h).1.stmts h.entryScope.1.push π a scope
        ∧ binding.Meets (b.declare h).1.stmts ⟨h.nameScope.Shows, []⟩ π a x
        ∧ a.info.name = n ∧ a.info.nameSpan = sp ∧ a.info.declares = false
        ∧ ¬ scope.Shows n ∧ n ∈ x.own := by
  -- A tree of the source holds no records of names at its top.
  obtain ⟨ss, sp, rfl⟩ : ∃ ss sp, b = .mk [] ss sp := by
    obtain ⟨os, ss, sp⟩ := b
    exact ⟨ss, sp, by rw [hb.1]⟩
  obtain ⟨hfunctions, hshows⟩ := h.entryScope_shows
  have hunmarked : Unmarked ss := ⟨false, hb.2⟩
  have hunbound : Unbound (Block.declare h (.mk [] ss sp)).1.stmts :=
    ⟨_, false, (Block.declare_marked h hb).2.2⟩
  -- The three walkers set out from scopes that show the same names.
  have htypes : Seen.Types ⟨h.nameScope.Shows, []⟩ h.entryScope.1.push := by
    intro n
    rw [Scope.shows_push]
    exact hshows n
  have hdeclares : Seen.Declares ⟨h.nameScope.Shows, []⟩ h.nameScope.push := by
    intro n
    rw [Scope.shows_push]
    simp
  -- The three walks come to an assignment together.
  have halike : ∀ π a scope,
      typing.Meets (Block.declare h (.mk [] ss sp)).1.stmts h.entryScope.1.push π a scope →
      ∃ a₀ names x, declaring.Meets ss h.nameScope.push π a₀ names
        ∧ (∀ a₁ names₁, declaring.Meets ss h.nameScope.push π a₁ names₁ → a₁ = a₀ ∧ names₁ = names)
        ∧ binding.Meets (Block.declare h (.mk [] ss sp)).1.stmts ⟨h.nameScope.Shows, []⟩ π a x
        ∧ a = (a₀.declare names).1
        ∧ (∀ n, scope.Shows n ↔ x.bound n)
        ∧ (∀ n, names.Shows n ↔ x.bound n ∨ n ∈ x.own)
        ∧ (a.info.declares = true → ¬ scope.Shows a.info.name)
        ∧ (a.info.declares = false → ¬ scope.Shows a.info.name → a.info.name ∈ x.own) := by
    intro π a scope hmeets
    obtain ⟨x, hbinding, hx⟩ := binding_meets_of_typing hunbound htypes hmeets
    obtain ⟨a₀, names, hdeclaring, rfl, hnames, hplain⟩ :=
      declaring_meets_of_binding hunmarked hdeclares hbinding
    obtain ⟨hname, hmarked⟩ := a₀.declares_declare hplain names
    refine ⟨a₀, names, x, hdeclaring, ?_, hbinding, rfl, hx, hnames, ?_, ?_⟩
    -- The declaration pass comes to one place by one route.
    · intro a₁ names₁ h₁
      exact h₁.unique declaring_deterministic hdeclaring
    -- A declaration stands where the name was not shown.
    · intro hdec
      rw [hmarked, hnames] at hdec
      rw [hname, hx]
      exact fun hbound => hdec (.inl hbound)
    -- Otherwise the name was shown, so it is bound or is the name of a function around.
    · intro hdec hnot
      have hshown : names.Shows a₀.info.name := by
        apply Classical.byContradiction
        intro hhidden
        rw [hmarked.2 hhidden] at hdec
        cases hdec
      rw [hname] at hnot ⊢
      exact ((hnames _).1 hshown).resolve_left fun hbound => hnot ((hx _).2 hbound)
  refine ⟨halike, ?_⟩
  intro n nsp herror
  -- For the second part, the typing of the whole block blames undefined names only.
  have hgrounded := enterWithin_blames hfunctions.push hunbound
    ((Block.declare h (.mk [] ss sp)).1.definitions + Host.achronal.length)
  have hstmts := hgrounded.stmts h.entryScope.2 _ .start
  have hblock : (Block.annotateIn (enterWithin _) h.entryScope.1.push h.entryScope.2
      (Block.declare h (.mk [] ss sp)).1).Blames (IsUndefined _ h.entryScope.1.push) := hstmts.map _ _ _
  simp only [Block.annotate] at herror
  split at herror
  · cases herror
  · rename_i e he
    cases herror
    rcases hblock _ he n rfl with ⟨x, hx, hreads⟩ | ⟨π, a, scope, hmeets, rfl, hspan, hdec, hnot⟩
    -- The name is read there.
    · exact .inl ⟨x, hx.imp_left mem_nodes_of_stmts, hreads⟩
    -- The name is the target of an assignment, to which the first part applies.
    · obtain ⟨_, _, x, _, _, hbinding, _, _, _, _, hown⟩ := halike π a scope hmeets
      exact .inr ⟨π, a, scope, x, hmeets, hbinding, rfl, hspan, hdec, hnot, hown hdec hnot⟩

/-- The expression that a node is, if it is one. -/
def Node.expr? : Node → Option Expr
  | .expr e => some e
  | .stmt _ => none

/-- `def f(a) f = a end f(1)`: a function that assigns to its own name. -/
def assignsItself : Block :=
  .mk [] [.funcDef {} "f" {} [⟨"a", {}⟩]
      (.mk [] [.assign (.make "f" (.name "a" ⟨0, 13, 14⟩) false ⟨0, 9, 10⟩)] {}),
    .eval {} (.apply "f" ⟨0, 19, 20⟩ [.literal (.int 1) {}] {})] {}

/-- The declaration pass sees the name and marks no declaration; typing does not see it in the copy that
the call asks for, and says so. -/
theorem assignsItself_unseen : assignsItself.Sourced
    ∧ ∃ π a scope a₀ names, ∃ x : Seen, typing.Meets (assignsItself.declare .default).1.stmts
        (Host.entryScope .default).1.push π a scope
      ∧ declaring.Meets assignsItself.stmts (Host.nameScope .default).push π a₀ names
      ∧ binding.Meets (assignsItself.declare .default).1.stmts ⟨(Host.nameScope .default).Shows, []⟩ π a x
      ∧ a.info.name = "f" ∧ names.Shows "f" ∧ ¬ scope.Shows "f" ∧ ("f" : Text) ∈ x.own := by
  have hsourced : assignsItself.Sourced := by
    simp [assignsItself, Block.Sourced, Block.Marked, MarkedStmts, Stmt.Marked, Assign.Marked, Assign.make,
      Expr.Bare, Expr.literal, Expr.apply, Expr.name, Expr.IsBare, Expr.nodes, nodesOfList, Dialect.full]
  obtain ⟨halike, hundefined⟩ := Block.passes_see_alike .default hsourced
  have herror : ((assignsItself.declare .default).1.annotate .default).2
      = some ⟨.notDefined "f", ⟨0, 9, 10⟩⟩ := by decide
  -- Nothing in the program or in the host reads `f` at the place of the report.
  have hunread : ∀ e ∈ ((assignsItself.declare .default).1.nodes
      ++ Host.achronal.flatMap Stmt.nodes).filterMap Node.expr?, ¬ e.Reads "f" ⟨0, 9, 10⟩ := by
    decide
  refine ⟨hsourced, ?_⟩
  -- So the report is about the target of the assignment.
  rcases hundefined "f" ⟨0, 9, 10⟩ herror with
    ⟨e, he, hreads⟩ | ⟨π, a, scope, x, hmeets, hbinding, hname, _, hdec, hnot, hown⟩
  · refine absurd hreads (hunread e (List.mem_filterMap.2 ⟨.expr e, ?_, rfl⟩))
    rw [List.mem_append, List.mem_flatMap]
    exact he
  · obtain ⟨a₀, names, y, hdeclaring, _, hbinding', _, _, hnames, _, _⟩ := halike π a scope hmeets
    -- The walk that binds comes to one place by one route, so both find the same names.
    obtain ⟨_, rfl⟩ := hbinding.unique binding_deterministic hbinding'
    exact ⟨π, a, scope, a₀, names, x, hmeets, hdeclaring, hbinding, hname, (hnames _).2 (.inr hown), hnot,
      hown⟩

end AisScript
