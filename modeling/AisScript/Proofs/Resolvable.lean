import AisScript.Diagnostic.Report
import AisScript.Proofs.Outcomes
import AisScript.Proofs.Verdict

/-!
# Where diagnostics point

Every diagnostic of a unit, and every note, points into a file of the unit: its span does not end before
it begins or behind the contents.  Lexing and parsing see to that for the file they read, and the program
that a unit is read into is placed in its files.  Declaring moves nothing, and an error of typing points
to a node of the program or of the body of a function that stems from it.  So reports can be made of all
diagnostics of a unit.

* `Block.declare_placed`     declarations leave a program in its place
* `Scope.Placed`             scopes whose functions are placed
* `Typed.Points`             outcomes of typing whose error has its place
* `Block.annotate_points`    errors of programs
* `Outcome.Resolvable`       outcomes whose diagnostics point into their files
* `compile_resolvable`       all outcomes are such
-/

namespace AisScript

section Placing

variable {P : Span → Prop}

/-! ## Declarations -/

/-- Marking an assignment. -/
theorem Assign.declare_placed {a : Assign} (h : a.Placed P) (names : Scope Unit) :
    (a.declare names).1.Placed P := by
  obtain ⟨i, v⟩ := a
  simp only [Assign.declare]
  split
  · exact h
  · exact h

/-- Marking assignments in order. -/
private theorem declareAssigns_placed {as : List Assign} (h : ∀ a ∈ as, a.Placed P) (names : Scope Unit) :
    ∀ a ∈ (declareAssigns names as).1, a.Placed P := by
  induction as generalizing names with
  | nil => exact nofun
  | cons a as ih =>
    obtain ⟨ha, has⟩ := List.forall_mem_cons.1 h
    exact List.forall_mem_cons.2 ⟨Assign.declare_placed ha names, ih has _⟩

/-- Marking a clause. -/
private theorem declareClause_placed {a : Option Assign} (h : PlacedClause P a) (names : Scope Unit) :
    PlacedClause P (declareClause names a).1 := by
  cases a with
  | none => trivial
  | some a => exact Assign.declare_placed h names

mutual

/-- Marking a statement. -/
theorem Stmt.declare_placed : (s : Stmt) → s.Placed P → (names : Scope Unit) → (s.declare names).tree.Placed P
  | .block b, h, _ => Block.declareIn_placed b h _
  | .assign _, h, names => Assign.declare_placed h names
  | .cond _ _ t f, ⟨hs, hc, ht, hf⟩, names => by
    -- Both branches are marked, unless the first one has a fault.
    have ht := Block.declareIn_placed t ht names.push
    simp only [Stmt.declare]
    split
    · exact ⟨hs, hc, ht, hf⟩
    · exact ⟨hs, hc, ht, declareOption_placed f hf names⟩
  | .loop _ _ b, ⟨hs, hc, hb⟩, _ => ⟨hs, hc, Block.declareIn_placed b hb _⟩
  | .forLoop _ _ _ _ b, ⟨hs, hi, hc, hst, hb⟩, _ =>
    ⟨hs, declareClause_placed hi _, hc, declareClause_placed hst _, Block.declareIn_placed b hb _⟩
  | .funcDef _ _ _ _ b, ⟨hs, hn, hb⟩, _ => ⟨hs, hn, Block.declareIn_placed b hb _⟩
  | .eval _ _, h, _ | .assignMember _ _ _, h, _ | .ret _ _, h, _ | .leave _, h, _ | .code _ _, h, _
  | .bitfieldDef _ _, h, _ | .enumDef _ _, h, _ | .require _ _, h, _ => h

/-- Marking statements in order. -/
private theorem declareStmts_placed : (ss : List Stmt) → PlacedStmts P ss → (names : Scope Unit) →
    PlacedStmts P (declareStmts names ss).tree
  | [], _, _ => trivial
  | s :: ss, ⟨hs, hss⟩, names => by
    have hs := Stmt.declare_placed s hs names
    simp only [declareStmts]
    split
    · exact ⟨hs, hss⟩
    · exact ⟨hs, declareStmts_placed ss hss _⟩

/-- Marking a block. -/
private theorem Block.declareIn_placed : (b : Block) → b.Placed P → (names : Scope Unit) →
    (b.declareIn names).tree.Placed P
  | .mk _ ss _, ⟨hos, hss, hsp⟩, names =>
    ⟨declareAssigns_placed hos names, declareStmts_placed ss hss _, hsp⟩

/-- Marking an else block. -/
private theorem declareOption_placed : (b : Option Block) → PlacedElse P b → (names : Scope Unit) →
    PlacedElse P (declareOption names b).tree
  | none, _, _ => trivial
  | some b, h, _ => Block.declareIn_placed b h _

end

/-- Declarations leave a program in its place. -/
theorem Block.declare_placed {b : Block} (h : b.Placed P) (host : Host) : (b.declare host).1.Placed P :=
  Block.declareIn_placed b h _

/-! ## Scopes -/

/-- A scope whose functions have placed bodies, and captured scopes of the same kind. -/
inductive Scope.Placed (P : Span → Prop) : Scope Entry → Prop where
  | intro {σ : Scope Entry}
      (body : ∀ f ps t κ, σ.lookup f = some (.function ps t κ) → t.Placed P)
      (inner : ∀ f ps t κ, σ.lookup f = some (.function ps t κ) → Placed P ⟨κ, []⟩) : Placed P σ

namespace Scope.Placed

variable {σ τ : Scope Entry}

/-- A function in scope. -/
theorem function (h : σ.Placed P) {f : Text} {ps : List Param} {t : Block} {κ : List (Text × Entry)}
    (hf : σ.lookup f = some (.function ps t κ)) : t.Placed P ∧ Scope.Placed P ⟨κ, []⟩ := by
  cases h with
  | intro body inner => exact ⟨body f ps t κ hf, inner f ps t κ hf⟩

/-- A scope that shows the same. -/
private theorem of_lookup (h : σ.Placed P) (heq : ∀ n, τ.lookup n = σ.lookup n) : τ.Placed P :=
  ⟨fun f _ _ _ hf => (h.function ((heq f).symm.trans hf)).1,
    fun f _ _ _ hf => (h.function ((heq f).symm.trans hf)).2⟩

/-- Nothing in scope. -/
theorem empty : Scope.Placed P {} := ⟨nofun, nofun⟩

/-- An opened block. -/
theorem push (h : σ.Placed P) : σ.push.Placed P := h.of_lookup fun n => Scope.lookup_push σ n

/-- A name that stands for no function. -/
theorem define (h : σ.Placed P) (n : Text) {e : Entry} (he : ∀ ps t κ, e ≠ .function ps t κ) :
    (σ.define n e).Placed P := by
  have hfound : ∀ {f ps t κ}, (σ.define n e).lookup f = some (.function ps t κ) →
      σ.lookup f = some (.function ps t κ) := by
    intro f ps t κ hf
    rw [Scope.lookup_define] at hf
    split at hf
    · exact absurd (Option.some.inj hf) (he ps t κ)
    · exact hf
  exact ⟨fun _ _ _ _ hf => (h.function (hfound hf)).1, fun _ _ _ _ hf => (h.function (hfound hf)).2⟩

/-- A variable. -/
theorem defineValue (h : σ.Placed P) (n : Text) (b : Binding) : (σ.define n (.value b)).Placed P :=
  h.define n nofun

/-- A function captures what is visible. -/
theorem bindFunction (h : σ.Placed P) (n : Text) (ps : List Param) {t : Block} (ht : t.Placed P) :
    (bindFunction σ n ps t).Placed P := by
  have hκ : Scope.Placed P ⟨σ.snapshot.inner, []⟩ :=
    h.of_lookup fun m => (Scope.lookup_single _ m).trans (Scope.lookup_snapshot σ m)
  have hfound : ∀ {f ps' t' κ}, (AisScript.bindFunction σ n ps t).lookup f = some (.function ps' t' κ) →
      t'.Placed P ∧ Scope.Placed P ⟨κ, []⟩ := by
    intro f ps' t' κ hf
    rw [AisScript.bindFunction, Scope.lookup_define] at hf
    split at hf
    · cases hf
      exact ⟨ht, hκ⟩
    · exact h.function hf
  exact ⟨fun _ _ _ _ hf => (hfound hf).1, fun _ _ _ _ hf => (hfound hf).2⟩

/-- The members of an enumeration. -/
theorem bindMembers (h : σ.Placed P) (next : Nat) (ms : List EnumMember) :
    (bindMembers σ next ms).1.Placed P := by
  induction ms generalizing σ next with
  | nil => exact h
  | cons m ms ih => exact ih (h.defineValue _ _) _

/-- The host's variables. -/
theorem bindGlobals (h : σ.Placed P) (next : Nat) (gs : List Global) : (bindGlobals σ next gs).1.Placed P := by
  induction gs generalizing σ next with
  | nil => exact h
  | cons g gs ih => exact ih (h.defineValue _ _) _

/-- The intrinsics. -/
private theorem bindIntrinsics (h : σ.Placed P) (ops : List Intrinsic) :
    (ops.foldl (fun sc op => sc.define op.name (.intrinsic op)) σ).Placed P := by
  induction ops generalizing σ with
  | nil => exact h
  | cons op ops ih => exact ih (h.define _ nofun)

end Scope.Placed

/-- The two functions of the host stand at the beginning of the first file. -/
private theorem Host.entryScope_placed (hP : P {}) (h : Host) : h.entryScope.1.Placed P := by
  have hg := (Scope.Placed.empty (P := P)).bindGlobals 0 h.globals
  have hi := hg.bindIntrinsics Intrinsic.all
  refine (hi.bindFunction _ _ ?_).bindFunction _ _ ?_
  · exact ⟨nofun, ⟨hP, ⟨hP, List.forall_mem_singleton.2 hP⟩, trivial⟩, hP⟩
  · exact ⟨nofun, ⟨hP, trivial⟩, hP⟩

/-! ## Parts of expressions -/

/-- The parts of a placed expression are placed. -/
private theorem Expr.Placed.child {e x : Expr} (h : e.Placed P) (hx : x ∈ e.children) : x.Placed P := by
  -- By induction on the list of arguments.
  have hlist : ∀ {es : List Expr}, (∀ y ∈ nodesOfList es, y.PlacedHere P) → x ∈ es → x.Placed P := by
    intro es
    induction es with
    | nil => exact fun _ hx => by cases hx
    | cons e es ih =>
      intro h hx
      rw [nodesOfList, List.forall_mem_append] at h
      rcases List.mem_cons.1 hx with rfl | hx
      · exact h.1
      · exact ih h.2 hx
  -- An optional part is placed if it is there.
  have hoption : ∀ {o : Option Expr}, PlacedOption P o → x ∈ o.toList → x.Placed P := by
    intro o h hx
    cases o with
    | none => cases hx
    | some e => exact List.mem_singleton.1 hx ▸ h
  cases e with
  -- Neither constants nor variables have parts.
  | const | var => cases hx
  | binary i op l r =>
    simp only [Expr.Placed, Expr.nodes, List.forall_mem_cons, List.forall_mem_append] at h
    simp only [Expr.children, List.mem_cons, List.not_mem_nil, or_false] at hx
    -- Either of the two operands.
    rcases hx with rfl | rfl
    · exact h.2.1
    · exact h.2.2
  | unary i op y | member i a y n ns =>
    simp only [Expr.Placed, Expr.nodes, List.forall_mem_cons] at h
    exact List.mem_singleton.1 hx ▸ h.2
  | call i n ns args t =>
    simp only [Expr.Placed, Expr.nodes, List.forall_mem_cons] at h
    exact hlist h.2 hx
  | query i k op u y c =>
    simp only [Expr.Placed, Expr.nodes, List.forall_mem_cons, List.forall_mem_append] at h
    simp only [Expr.children, List.mem_append] at hx
    -- One of the three parts of the query.
    rcases hx with (hx | hx) | hx
    · exact hoption h.2.1.1 hx
    · exact hoption h.2.1.2 hx
    · exact hoption h.2.2 hx

/-! ## Typing -/

/-- Outcomes whose error, if they have one, has its place. -/
abbrev Typed.Points {α β : Type} (P : Span → Prop) (r : Typed α β) : Prop := r.Blames fun e => P e.span

namespace Typed.Points

variable {r : Typed Expr Ty}

/-- The demand for a value points to the expression. -/
theorem asValue (h : r.Points P) (ht : P r.tree.span) : r.asValue.Points P := by
  unfold Typed.asValue
  split
  · exact Typed.blames_error ht
  · exact h

/-- A demand points to the expression. -/
theorem demanding (h : r.Points P) (ht : P r.tree.span) (accepts : Ty → Prop) [DecidablePred accepts]
    (cause : Ty → SemanticCause) : (r.demanding accepts cause).Points P := by
  have hv := h.asValue ht
  simp only [Typed.demanding]
  split
  · split
    · exact hv
    · exact Typed.blames_error (by rw [Typed.tree_asValue]; exact ht)
  · exact hv

end Typed.Points

/-- Ways to type copies of functions whose errors have their place: the bodies are placed, and the
parameters are bound to what was typed at the call. -/
def EnterBody.Points (P : Span → Prop) (enter : EnterBody) : Prop :=
  ∀ (κ : Scope Entry) next binds body, κ.Placed P → (∀ a ∈ binds, a.info.binds = true) → body.Placed P →
    (enter κ next binds body).Points P

section Typing

variable {enter : EnterBody} {σ : Scope Entry}

/-- Typing an expression leaves it in its place. -/
private theorem Expr.span_annotate (enter : EnterBody) (σ : Scope Entry) (next : Nat) (e : Expr) :
    (e.annotate enter σ next).tree.span = e.span := by
  -- A call may be refused in several places, and always keeps its own.
  cases e with
  | call i n ns args t =>
    simp only [Expr.annotate]
    split
    · rfl
    · unfold callTyped
      dsimp only
      repeat' split
      all_goals rfl
  -- All other expressions are rebuilt in place.
  | _ =>
    simp only [Expr.annotate]
    repeat' split
    all_goals rfl

/-- The parameters of a call are bound and not assigned. -/
private theorem binds_of_bindArguments {ps : List Param} {args : List Expr} {a : Assign}
    (h : a ∈ bindArguments ps args) : a.info.binds = true := by
  obtain ⟨i, hi, rfl⟩ := List.mem_iff_getElem.1 h
  simp only [bindArguments, List.getElem_zipWith, Assign.info]

/-- A member fails at its name or as a whole. -/
private theorem memberTy_points {a : Access} {base : Ty} {n : Text} {ns s : Span} {e : SemanticError}
    (hns : P ns) (hs : P s) (h : memberTy a base n ns s = .error e) : P e.span := by
  simp only [memberTy] at h
  repeat' split at h
  all_goals cases h
  all_goals first
    | exact hns
    | exact hs

/-- A call fails at its name, as a whole, or in the body of what it calls. -/
private theorem callTyped_points (hE : enter.Points P) (hσ : σ.Placed P) (next : Nat) {i : ExprInfo}
    {n : Text} {ns : Span} (args : List Expr) (t : Target) (types : List Ty) (hi : P i.span) (hns : P ns) :
    (callTyped enter σ next i n ns args t types).Points P := by
  unfold callTyped
  -- Each fault is at the name or at the call, but for those in the body.
  cases hn : σ.lookup n with
  | none => exact Typed.blames_error hns
  | some entry =>
    cases entry with
    -- A value is no function.
    | value b => exact Typed.blames_error hns
    -- The operator checks its arguments.
    | intrinsic op =>
      dsimp only
      split
      · exact Typed.blames_ok
      · exact Typed.blames_error hi
    -- A bitfield takes one integer.
    | bitfield layout =>
      dsimp only
      split
      · exact Typed.blames_ok
      · exact Typed.blames_error hi
    | function ps body κ =>
      -- The function was placed when it was defined, and its copy fails in it.
      obtain ⟨hbody, hκ⟩ := hσ.function hn
      have hcopy := hE ⟨κ, []⟩ next (bindArguments ps args) body hκ (fun _ => binds_of_bindArguments) hbody
      dsimp only
      split
      · exact Typed.blames_error hi
      · split
        · exact Typed.blames_error (hcopy _ ‹_›)
        · exact Typed.blames_ok

mutual

/-- An expression fails at one of its nodes, or in the body of a function that it calls. -/
theorem Expr.annotate_points (hE : enter.Points P) (hσ : σ.Placed P) (next : Nat) : (e : Expr) →
    e.Placed P → (e.annotate enter σ next).Points P
  | .const _ _, _ => Typed.blames_ok
  | .var i n b, h => by
    -- The name is not defined, or it is no value.
    have hi : P i.span := h.span
    simp only [Expr.annotate]
    split
    · exact Typed.blames_error hi
    · exact Typed.blames_ok
    · exact Typed.blames_error hi
  | .binary i op l r, h => by
    simp only [Expr.Placed, Expr.nodes, List.forall_mem_cons, List.forall_mem_append] at h
    obtain ⟨hi, hl, hr⟩ := h
    -- The left operand fails, or the right one, or the operator does.
    have hl := Expr.value_points hE hσ next l hl
    simp only [Expr.annotate]
    split
    · exact Typed.blames_error (hl _ ‹_›)
    · have hr := Expr.value_points hE hσ (l.annotate enter σ next).asValue.next r hr
      split
      · exact Typed.blames_error (hr _ ‹_›)
      · split
        · exact Typed.blames_error hi
        · exact Typed.blames_ok
  | .unary i op x, h => by
    simp only [Expr.Placed, Expr.nodes, List.forall_mem_cons] at h
    obtain ⟨hi, hx⟩ := h
    -- The operand fails, or the operator does.
    have hx := Expr.value_points hE hσ next x hx
    simp only [Expr.annotate]
    split
    · exact Typed.blames_error (hx _ ‹_›)
    · split
      · exact Typed.blames_error hi
      · exact Typed.blames_ok
  | .call i n ns args t, h => by
    simp only [Expr.Placed, Expr.nodes, List.forall_mem_cons] at h
    obtain ⟨⟨hi, hns⟩, hargs⟩ := h
    -- The arguments fail, or the call does.
    have ha := annotateArgs_points hE hσ next args hargs
    simp only [Expr.annotate]
    split
    · exact Typed.blames_error (ha _ ‹_›)
    · exact callTyped_points hE hσ _ _ t _ hi hns
  | .member i a b n ns, h => by
    simp only [Expr.Placed, Expr.nodes, List.forall_mem_cons] at h
    obtain ⟨⟨hi, hns⟩, hb⟩ := h
    -- The base fails, or the access does.
    have hb := Expr.value_points hE hσ next b hb
    simp only [Expr.annotate]
    split
    · exact Typed.blames_error (hb _ ‹_›)
    · split
      · exact Typed.blames_error (memberTy_points hns hi ‹_›)
      · exact Typed.blames_ok
  | .query i k op u x c, h => by
    -- A nested query is a part, so it has a place of its own.
    have hparts := h
    simp only [Expr.Placed, Expr.nodes, List.forall_mem_cons, List.forall_mem_append] at h
    obtain ⟨hi, ⟨hu, hx⟩, hc⟩ := h
    -- One of the three parts fails, or the words of the query do.
    have hu := annotateUnit_points hE hσ next u hu
    have hx := annotateOperand_points hE hσ (annotateUnit enter σ next u).next x hx
    have hc := annotateOperand_points hE hσ
      (annotateOperand enter σ (annotateUnit enter σ next u).next x).next c hc
    simp only [Expr.annotate]
    split
    · rename_i part hpart
      exact Typed.blames_error (hparts.child (List.mem_of_find?_eq_some hpart)).span
    · split
      · exact Typed.blames_error hi
      · split
        · exact Typed.blames_error (hu _ ‹_›)
        · split
          · exact Typed.blames_error (hx _ ‹_›)
          · split
            · exact Typed.blames_error (hc _ ‹_›)
            · exact Typed.blames_ok

/-- A value that is demanded. -/
private theorem Expr.value_points (hE : enter.Points P) (hσ : σ.Placed P) (next : Nat) (e : Expr)
    (h : e.Placed P) : (e.annotate enter σ next).asValue.Points P :=
  (Expr.annotate_points hE hσ next e h).asValue (by rw [Expr.span_annotate]; exact h.span)

/-- Arguments fail as expressions do. -/
private theorem annotateArgs_points (hE : enter.Points P) (hσ : σ.Placed P) (next : Nat) : (es : List Expr) →
    (∀ x ∈ nodesOfList es, x.PlacedHere P) → (annotateArgs enter σ next es).Points P
  | [], _ => Typed.blames_ok
  | e :: es, h => by
    simp only [nodesOfList, List.forall_mem_append] at h
    have he := Expr.value_points hE hσ next e h.1
    simp only [annotateArgs]
    split
    · exact Typed.blames_error (he _ ‹_›)
    · exact (annotateArgs_points hE hσ (e.annotate enter σ next).asValue.next es h.2).map _ _ _

/-- The unit of a query. -/
private theorem annotateUnit_points (hE : enter.Points P) (hσ : σ.Placed P) (next : Nat) : (e : Option Expr) →
    PlacedOption P e → (annotateUnit enter σ next e).Points P
  | none, _ => Typed.blames_ok
  | some e, h => by
    have he : ((e.annotate enter σ next).demanding (· = .object) .queryUnit).Points P :=
      (Expr.annotate_points hE hσ next e h).demanding (by rw [Expr.span_annotate]; exact Expr.Placed.span h) _ _
    exact he.map _ _ _

/-- An operand of a query. -/
private theorem annotateOperand_points (hE : enter.Points P) (hσ : σ.Placed P) (next : Nat) :
    (e : Option Expr) → PlacedOption P e → (annotateOperand enter σ next e).Points P
  | none, _ => Typed.blames_ok
  | some e, h => by
    have he : ((e.annotate enter σ next).demanding (·.isNumeric = true) .queryOperand).Points P :=
      (Expr.annotate_points hE hσ next e h).demanding (by rw [Expr.span_annotate]; exact Expr.Placed.span h) _ _
    exact he.map _ _ _

end

/-- A condition fails as its expression does, or as a whole. -/
private theorem asCondition_points (hE : enter.Points P) (hσ : σ.Placed P) (next : Nat) {c : Expr}
    (h : c.Placed P) : (c.annotate enter σ next).asCondition.Points P :=
  (Expr.annotate_points hE hσ next c h).demanding (by rw [Expr.span_annotate]; exact h.span)
    (·.isNumeric = true) .conditionNotNumeric

/-- The test of a loop header. -/
private theorem annotateTest_points (hE : enter.Points P) (hσ : σ.Placed P) (next : Nat) {c : Option Expr}
    (h : PlacedOption P c) : (annotateTest enter σ next c).Points P := by
  cases c with
  | none => exact Typed.blames_ok
  | some c => exact (asCondition_points hE hσ next h).map _ _ _

/-- An assignment fails as its value does, at its name or as a whole; a parameter does not fail. -/
theorem Assign.annotate_points (hE : enter.Points P) (hσ : σ.Placed P) (next : Nat) {a : Assign}
    (h : a.info.binds = true ∨ a.Placed P) : (a.annotate enter σ next).Points P := by
  obtain ⟨i, v⟩ := a
  rw [Assign.annotate]
  split
  -- A parameter is bound without being checked.
  · exact Typed.blames_ok
  · rename_i hbinds
    obtain ⟨hspan, hname, hvalue⟩ := h.resolve_left hbinds
    -- The value fails, or it does not fit.
    have hv := Expr.value_points hE hσ next v hvalue
    -- The typed value is where it was.
    have htree : P (v.annotate enter σ next).asValue.tree.span := by
      rw [Typed.tree_asValue, Expr.span_annotate]
      exact Expr.Placed.span hvalue
    simp only [Assign.info, Assign.value] at hspan hname ⊢
    unfold assignTyped
    dsimp only
    split
    · exact Typed.blames_error (hv _ ‹_›)
    -- The value of an enumeration is refused where it stands.
    · split
      · exact Typed.blames_error htree
      · split
        · exact Typed.blames_ok
        -- What is assigned to is not there, is of another kind or is of another type.
        · split
          · exact Typed.blames_error hname
          · split
            · exact Typed.blames_error hspan
            · split
              · exact Typed.blames_error hname
              · exact Typed.blames_ok
          · exact Typed.blames_error hspan

/-- The scope behind an assignment. -/
theorem Assign.Leads.placed {τ : Scope Entry} {a : Assign} (h : a.Leads σ τ) (hσ : σ.Placed P) :
    τ.Placed P := by
  unfold Assign.Leads at h
  split at h
  · obtain ⟨b, rfl⟩ := h
    exact hσ.defineValue _ b
  · exact h ▸ hσ

/-- The scope behind a clause. -/
theorem ClauseLeads.placed {τ : Scope Entry} {a : Option Assign} (h : ClauseLeads σ τ a) (hσ : σ.Placed P) :
    τ.Placed P := by
  cases a with
  | none => exact Eq.symm h ▸ hσ
  | some a => exact Assign.Leads.placed h hσ

/-- The scope behind a statement. -/
theorem Stmt.Leads.placed {τ : Scope Entry} {s : Stmt} (h : s.Leads σ τ) (hσ : σ.Placed P) (hs : s.Placed P) :
    τ.Placed P := by
  cases s with
  | assign a => exact Assign.Leads.placed h hσ
  | funcDef sp f ns ps b => exact Eq.symm h ▸ hσ.bindFunction f ps hs.2.2
  | bitfieldDef sp d => exact Eq.symm h ▸ hσ.define _ nofun
  | enumDef sp d =>
    obtain ⟨next, rfl⟩ := h
    exact (hσ.defineValue _ _).bindMembers _ _
  | _ => exact Eq.symm h ▸ hσ

/-- A clause of a loop header. -/
private theorem annotateClause_points (hE : enter.Points P) (hσ : σ.Placed P) (next : Nat) {a : Option Assign}
    (h : PlacedClause P a) : (annotateClause enter σ next a).Points P := by
  cases a with
  | none => exact Typed.blames_ok
  | some a => exact Assign.annotate_points hE hσ next (.inr h)

/-- Assignments in order, with the scope behind them. -/
private theorem annotateAssigns_points (hE : enter.Points P) {as : List Assign}
    (h : ∀ a ∈ as, a.info.binds = true ∨ a.Placed P) (hσ : σ.Placed P) (next : Nat) :
    (annotateAssigns enter σ next as).Points P
      ∧ ∀ τ, (annotateAssigns enter σ next as).result = .ok τ → τ.Placed P := by
  -- By induction on the list, each in the scope behind those in front of it.
  induction as generalizing σ next with
  | nil =>
    refine ⟨Typed.blames_ok, fun τ hτ => ?_⟩
    cases hτ
    exact hσ
  | cons a as ih =>
    obtain ⟨ha, has⟩ := List.forall_mem_cons.1 h
    have hpoints := Assign.annotate_points hE hσ next ha
    simp only [annotateAssigns]
    split
    -- The first one that is refused ends the list.
    · exact ⟨Typed.blames_error (hpoints _ ‹_›), by simp⟩
    · exact ih has ((Assign.leads_of_annotate ‹_›).placed hσ) _

/-- A member assignment fails as its base and its value do, at the member's name or as a whole. -/
private theorem annotateMemberAssign_points (hE : enter.Points P) (hσ : σ.Placed P) (next : Nat) {sp : Span}
    {t v : Expr} (hsp : P sp) (ht : t.Placed P) (hv : v.Placed P) :
    (annotateMemberAssign enter σ next sp t v).Points P := by
  unfold annotateMemberAssign
  split
  -- The target is a member access.
  · rename_i i base m ms
    have hspan := ht.span
    simp only [Expr.Placed, Expr.nodes, List.forall_mem_cons] at ht
    obtain ⟨⟨hi, hms⟩, hbase⟩ := ht
    have hb := Expr.value_points hE hσ next base hbase
    dsimp only
    -- The base fails, or it has no such member, or the value fails.
    split
    · exact Typed.blames_error (hb _ ‹_›)
    · split
      · exact Typed.blames_error (memberTy_points hms hi ‹_›)
      · have hv := Expr.value_points hE hσ (base.annotate enter σ next).asValue.next v hv
        split
        · exact Typed.blames_error (hv _ ‹_›)
        · exact Typed.blames_ok
        · exact Typed.blames_error hsp
    -- A base of no proper kind is blamed where it stands.
    · refine Typed.blames_error ?_
      rw [Typed.tree_asValue, Expr.span_annotate]
      exact Expr.Placed.span hbase
  -- Anything else is no target.
  · exact Typed.blames_error ht.span

mutual

/-- A statement fails at one of its nodes, or in the body of a function that it calls. -/
theorem Stmt.annotate_points (hE : enter.Points P) {σ : Scope Entry} (hσ : σ.Placed P) (next : Nat) :
    (s : Stmt) → s.Placed P → (s.annotate enter σ next).Points P
  | .block b, h => (Block.annotateIn_points hE hσ.push next b h).map _ _ _
  | .eval _ e, h => (Expr.annotate_points hE hσ next e h.2).map _ _ _
  | .assign _, h => Assign.annotate_points hE hσ next (.inr h)
  | .assignMember _ _ _, h => annotateMemberAssign_points hE hσ next h.1 h.2.1 h.2.2
  | .cond s c t f, ⟨_, hc, ht, hf⟩ => by
    -- The condition fails, or one of the branches does.
    have hc := asCondition_points hE hσ next hc
    simp only [Stmt.annotate]
    split
    · exact Typed.blames_error (hc _ ‹_›)
    -- The branches are typed in a row.
    · have ht := Block.annotateIn_points hE hσ.push (c.annotate enter σ next).asCondition.next t ht
      split
      · exact Typed.blames_error (ht _ ‹_›)
      · exact (annotateElse_points hE hσ _ f hf).map _ _ _
  | .loop s c b, ⟨_, hc, hb⟩ => by
    -- The condition fails, or the body does.
    have hc := asCondition_points hE hσ next hc
    simp only [Stmt.annotate]
    split
    · exact Typed.blames_error (hc _ ‹_›)
    · exact (Block.annotateIn_points hE hσ.push _ b hb).map _ _ _
  | .forLoop s i c st b, ⟨_, hi, hc, hst, hb⟩ => by
    -- The first clause fails, or a part behind it.
    have hi := annotateClause_points hE hσ.push next hi
    simp only [Stmt.annotate]
    split
    · exact Typed.blames_error (hi _ ‹_›)
    · rename_i header _
      -- The scope behind the first clause is placed.
      have hheader := (clauseLeads_of_annotate ‹_›).placed hσ.push
      have hc := annotateTest_points hE hheader (annotateClause enter σ.push next i).next hc
      split
      · exact Typed.blames_error (hc _ ‹_›)
      · have hst := annotateClause_points hE hheader
          (annotateTest enter header (annotateClause enter σ.push next i).next c).next hst
        split
        · exact Typed.blames_error (hst _ ‹_›)
        -- So is the scope behind the step.
        · have hbehind := (clauseLeads_of_annotate ‹_›).placed hheader
          exact (Block.annotateIn_points hE hbehind.push _ b hb).map _ _ _
  | .ret _ v, ⟨_, hv⟩ => by
    -- The value fails, or it is none that can be returned.
    have hr := Expr.value_points hE hσ next v hv
    simp only [Stmt.annotate]
    split
    · exact Typed.blames_error (hr _ ‹_›)
    · refine Typed.blames_error ?_
      rw [Typed.tree_asValue, Expr.span_annotate]
      exact hv.span
    · exact Typed.blames_ok
  | .leave _, _ | .code _ _, _ | .funcDef _ _ _ _ _, _ | .bitfieldDef _ _, _ | .enumDef _ _, _
  | .require _ _, _ => Typed.blames_ok

/-- Statements in order. -/
private theorem annotateStmts_points (hE : enter.Points P) {σ : Scope Entry} (hσ : σ.Placed P) (next : Nat) :
    (ss : List Stmt) → PlacedStmts P ss → (annotateStmts enter σ next ss).Points P
  | [], _ => Typed.blames_ok
  | s :: ss, ⟨hs, hss⟩ => annotateStmts_blames_cons (Stmt.annotate_points hE hσ next s hs) fun _ hτ =>
    annotateStmts_points hE ((Stmt.leads_of_annotate hτ).placed hσ hs) _ ss hss

/-- A block. -/
private theorem Block.annotateIn_points (hE : enter.Points P) {σ : Scope Entry} (hσ : σ.Placed P)
    (next : Nat) : (b : Block) → b.Placed P → (b.annotateIn enter σ next).Points P
  | .mk os ss _, ⟨hos, hss, _⟩ => by
    obtain ⟨hbinds, hbehind⟩ := annotateAssigns_points hE (fun a ha => .inr (hos a ha)) hσ next
    simp only [Block.annotateIn]
    split
    · exact Typed.blames_error (hbinds _ ‹_›)
    · exact (annotateStmts_points hE (hbehind _ ‹_›) _ ss hss).map _ _ _

/-- An else block. -/
private theorem annotateElse_points (hE : enter.Points P) {σ : Scope Entry} (hσ : σ.Placed P) (next : Nat) :
    (b : Option Block) → PlacedElse P b → (annotateElse enter σ next b).Points P
  | none, _ => Typed.blames_ok
  | some b, h => Block.annotateIn_points hE hσ.push next b h

end

/-- Copies of functions fail in their bodies, however deep calls may be nested. -/
private theorem enterWithin_points (depth : Nat) : (enterWithin depth).Points P := by
  -- By induction on the levels: without any, the call is refused at the body.
  induction depth with
  | zero =>
    intro _ _ _ body _ _ hbody
    refine Typed.blames_error ?_
    cases body
    exact hbody.2.2
  | succ depth ih =>
    -- The parameters come first, and the body behind them.
    intro κ next binds body hκ hbinds hbody
    obtain ⟨hpoints, hbehind⟩ := annotateAssigns_points ih (fun a ha => .inl (hbinds a ha)) hκ.push next
    simp only [enterWithin]
    split
    · exact Typed.blames_error (hpoints _ ‹_›)
    · exact Block.annotateIn_points ih (hbehind _ ‹_›) _ body hbody

/-- The error of a placed program has its place. -/
theorem Block.annotate_points (hP : P {}) {b : Block} (h : b.Placed P) {host : Host} {typed : Block}
    {e : SemanticError} (ht : b.annotate host = (typed, some e)) : P e.span := by
  have hpoints := Block.annotateIn_points (enterWithin_points (b.definitions + Host.achronal.length))
    (host.entryScope_placed hP).push host.entryScope.2 b h
  simp only [Block.annotate] at ht
  split at ht
  · cases ht
  · cases ht
    exact hpoints _ ‹_›

end Typing

end Placing

/-! ## Reports -/

/-- A diagnostic that points into the files of a set, with all its notes. -/
structure Diagnostic.Within (fs : FileSet) (d : Diagnostic) : Prop where
  span : fs.Holds d.span
  notes : ∀ n ∈ d.notes, fs.Holds n.span

namespace Report

variable {fs : FileSet} {ds : List Diagnostic}

/-- A file and two positions for a span that the set holds. -/
private theorem found {s : Span} (h : fs.Holds s) : ∃ f, fs.get? s.file = some f
    ∧ fs.resolve? s = some (Source.position f.newlines s.start, Source.position f.newlines s.stop)
    ∧ f ∈ fs.files ∧ s.start ≤ f.content.length := by
  obtain ⟨f, hf, hle, hlen⟩ := h
  refine ⟨f, hf, ?_, List.mem_of_getElem? hf, Nat.le_trans hle hlen⟩
  rw [FileSet.resolve?, hf]
  rfl

/-- One part and what is made of it. -/
private theorem isSome_bind {α β : Type} {x : Option α} {f : α → Option β} (hx : x.isSome = true)
    (hf : ∀ a, x = some a → (f a).isSome = true) : (x >>= f).isSome = true := by
  obtain ⟨a, ha⟩ := Option.isSome_iff_exists.1 hx
  rw [ha]
  exact hf a ha

/-- Parts in order. -/
private theorem isSome_mapM {α β : Type} {f : α → Option β} {xs : List α}
    (h : ∀ x ∈ xs, (f x).isSome = true) : (xs.mapM f).isSome = true := by
  induction xs with
  | nil => rfl
  | cons x xs ih =>
    obtain ⟨hx, hxs⟩ := List.forall_mem_cons.1 h
    rw [List.mapM_cons]
    exact isSome_bind hx fun _ _ => isSome_bind (ih hxs) fun _ _ => rfl

/-- A line for every diagnostic. -/
private theorem isSome_short (h : ∀ d ∈ ds, d.Within fs) : (short fs ds).isSome = true := by
  refine isSome_bind (isSome_mapM fun d hd => ?_) fun _ _ => rfl
  obtain ⟨f, hf, hp, _⟩ := found (h d hd).span
  rw [hf, hp]
  rfl

/-- A place as JSON. -/
private theorem isSome_location (c : Contents) {s : Span} (h : fs.Holds s) :
    (location c fs s).isSome = true := by
  obtain ⟨f, hf, hp, _⟩ := found h
  rw [location, hf, hp]
  rfl

/-- A record for every diagnostic. -/
private theorem isSome_json (c : Contents) (h : ∀ d ∈ ds, d.Within fs) : (json c fs ds).isSome = true := by
  have hkept : ∀ d ∈ (if 0 < c.limit then ds.take c.limit.toNat else ds), d.Within fs := by
    split
    · exact fun d hd => h d (List.mem_of_mem_take hd)
    · exact h
  refine isSome_bind (isSome_mapM fun d hd => ?_) fun _ _ => rfl
  obtain ⟨hspan, hnotes⟩ := hkept d hd
  refine isSome_bind (isSome_location c hspan) fun _ _ => isSome_bind (isSome_mapM fun n hn => ?_) fun _ _ => rfl
  refine isSome_bind (isSome_location c (hnotes n ?_)) fun _ _ => rfl
  split at hn
  · exact hn
  · exact nomatch hn

/-- A place that can be marked: no column is zero in a file whose offsets all have one. -/
private theorem isSome_context (layout : Layout) {f : SourceFile} {offset : Nat} (stop : Source.Position)
    (hle : offset ≤ f.content.length) (hlen : f.content.length + 1 < Source.offsetCount) :
    (context layout f (Source.position f.newlines offset) stop).isSome = true := by
  -- Offsets fit, so the column is one more than the way from the start of the line.
  have hcolumn : (Source.position f.newlines offset).column ≠ 0 := by
    unfold Source.position
    dsimp only
    split
    all_goals
      rw [Nat.mod_eq_of_lt (by omega)]
      omega
  -- So there is a line to mark.
  unfold context
  dsimp only
  split
  · rfl
  · rfl

/-- An entry for every diagnostic, in files of which each offset has a column. -/
private theorem isSome_pretty (layout : Layout) (h : ∀ d ∈ ds, d.Within fs)
    (hlen : ∀ f ∈ fs.files, f.content.length + 1 < Source.offsetCount) :
    (pretty layout fs ds).isSome = true := by
  -- One entry for each diagnostic.
  refine isSome_bind (isSome_mapM fun d hd => ?_) fun _ _ => rfl
  obtain ⟨hspan, hnotes⟩ := h d hd
  -- The file of the diagnostic is found, and so is its position.
  obtain ⟨f, hf, hp, hmem, hle⟩ := found hspan
  rw [entry, hf, hp]
  refine isSome_bind rfl fun _ hf' => isSome_bind rfl fun _ hp' => ?_
  cases hf'
  cases hp'
  refine isSome_bind (isSome_context layout _ hle (hlen f hmem)) fun _ _ =>
    isSome_bind (isSome_mapM fun n hn => ?_) fun _ _ => rfl
  -- Notes are shown if there are any, and each has a place.
  obtain ⟨g, hg, hq, _⟩ := found (hnotes n (by
    split at hn
    · exact hn
    · exact nomatch hn))
  rw [hg, hq]
  rfl

end Report

/-! ## Outcomes -/

/-- An outcome whose diagnostics point into its files, so that they can be reported in every form.  Marking
a source line takes a column for each offset of a file, and columns are 32-bit words. -/
structure Outcome.Resolvable (o : Outcome) : Prop where
  within : ∀ d ∈ o.bag.items, d.Within o.files
  short : (Report.short o.files o.bag.items).isSome = true
  json : ∀ c, (Report.json c o.files o.bag.items).isSome = true
  pretty : (∀ f ∈ o.files.files, f.content.length + 1 < Source.offsetCount) →
    ∀ layout, (Report.pretty layout o.files o.bag.items).isSome = true

/-- It is enough that all diagnostics point into the files. -/
private theorem Outcome.Resolvable.of_within {o : Outcome} (h : ∀ d ∈ o.bag.items, d.Within o.files) :
    o.Resolvable :=
  ⟨h, Report.isSome_short h, fun c => Report.isSome_json c h,
    fun hlen layout => Report.isSome_pretty layout h hlen⟩

/-- An outcome with a first file, and with diagnostics that point into its files. -/
structure Outcome.Located (o : Outcome) : Prop where
  first : o.files.Holds {}
  within : ∀ d ∈ o.bag.items, d.Within o.files

namespace Outcome.Located

variable {o o' : Outcome} {opts : Options}

/-- Timings point to the beginning of the first file. -/
theorem withTimings (h : o.Located) (wanted : Bool) : (o.withTimings wanted).Located := by
  unfold Outcome.withTimings
  split
  · refine ⟨h.first, fun d hd => ?_⟩
    rcases Bag.mem_add hd with hd | rfl
    · exact h.within d hd
    · exact ⟨h.first, List.forall_mem_singleton.2 h.first⟩
  · exact h

/-- The passes from typing on add one error at most, where the program or a function of the host stands. -/
theorem proceed (h : o.Located) {program : Block} (hp : program.Placed o.files.Holds)
    (hrun : o.proceed opts program = .ok o') : o'.Located := by
  have hdeclared := Block.declare_placed hp opts.host
  -- Declaring, typing and the passes behind them.
  unfold Outcome.proceed at hrun
  split at hrun
  · exact nomatch hrun
  -- What is declared is placed as before.
  · rename_i declared hd
    rw [hd] at hdeclared
    generalize ht : declared.annotate opts.host = t at hrun
    obtain ⟨typed, error⟩ := t
    cases error with
    -- An error of typing is added to the bag.
    | some e =>
      cases hrun
      refine ⟨h.first, fun d hd => ?_⟩
      rcases Bag.mem_add hd with hd | rfl
      · exact h.within d hd
      · exact ⟨Block.annotate_points h.first hdeclared ht, nofun⟩
    -- An accepted program adds no diagnostics.
    | none =>
      dsimp only at hrun
      split at hrun
      · cases hrun
        exact ⟨h.first, h.within⟩
      · -- Every further pass leaves the bag alone.
        simp only [bind, Except.bind] at hrun
        repeat' split at hrun
        all_goals cases hrun
        exact ⟨h.first, h.within⟩

end Outcome.Located

/-- The outcome of a unit that was only read. -/
private theorem readOutcome_located (disk : Disk) (opts : Options) (file : SourceFile) :
    (readOutcome disk opts file).Located := by
  have hread := readUnit_paired disk opts opts file
  have hfirst : FileSet.Holds ⟨[file]⟩ {} := ⟨file, rfl, Nat.le_refl _, Nat.zero_le _⟩
  refine ⟨hfirst.grow hread.grows, fun d hd => ?_⟩
  have hd := hread.inStep.reporters.left.items d hd
  exact ⟨hd.span, hd.notes⟩

/-- Two steps in a row both have a result where the whole has one. -/
theorem ok_of_bind {ε α β : Type} {x : Except ε α} {f : α → Except ε β} {b : β}
    (h : x >>= f = .ok b) : ∃ a, x = .ok a ∧ f a = .ok b := by
  cases x with
  | error e => exact nomatch h
  | ok a => exact ⟨a, rfl, h⟩

/-- A compilation as what comes of reading its file. -/
theorem compile_eq_read (disk : Disk) (opts : Options) (file : SourceFile) : compile disk opts file =
    if (readOutcome disk opts file).failed || opts.goal = .parse then
      .ok ((readOutcome disk opts file).withTimings opts.timings, disk)
    else
      match if opts.goal = .emit then opts.cache else none with
      | none => do
        let o ← (readOutcome disk opts file).proceed opts (readUnit disk opts file).1
        return (o.withTimings opts.timings, disk)
      | some cache =>
        let key := Cache.key opts.version opts.host file.hash
          ((readUnit disk opts file).2.loaded.filterMap fun n =>
            ((readUnit disk opts file).2.files.get? n).map SourceFile.hash)
        match cache.get? disk key with
        | some e =>
          .ok ({ readOutcome disk opts file with
            output := e.output, temps := e.temps, cached := true, program := none }.withTimings
              opts.timings, disk)
        | none => do
          let o ← (readOutcome disk opts file).proceed opts (readUnit disk opts file).1
          return (o.withTimings opts.timings, if o.output.isNone then disk else cache.put disk key
            { form := Cache.currentForm, path := o.path, output := o.output, temps := o.temps }) :=
  rfl

/-- A compilation ends with the diagnostics of what was read, or with what comes of typing. -/
private theorem compile_cases {disk disk' : Disk} {opts : Options} {file : SourceFile} {o : Outcome}
    (h : compile disk opts file = .ok (o, disk')) :
    ∃ o₀ : Outcome, o = o₀.withTimings opts.timings
      ∧ ((o₀.files = (readOutcome disk opts file).files ∧ o₀.bag = (readOutcome disk opts file).bag)
        ∨ (readOutcome disk opts file).proceed opts (readUnit disk opts file).1 = .ok o₀) := by
  rw [compile_eq_read] at h
  -- Errors, or a wish for nothing more, end the run with what was read.
  split at h
  · cases h
    exact ⟨_, rfl, .inl ⟨rfl, rfl⟩⟩
  · split at h
    -- Without a cache, the other passes are run.
    · obtain ⟨o₀, hr, h⟩ := ok_of_bind h
      cases h
      exact ⟨o₀, rfl, .inr hr⟩
    -- An entry of the cache ends the run, and otherwise the passes are run.
    · dsimp only at h
      split at h
      · cases h
        exact ⟨_, rfl, .inl ⟨rfl, rfl⟩⟩
      · obtain ⟨o₀, hr, h⟩ := ok_of_bind h
        cases h
        exact ⟨o₀, rfl, .inr hr⟩

/-- Every compilation ends in a located outcome. -/
private theorem compile_located {disk disk' : Disk} {opts : Options} {file : SourceFile} {o : Outcome}
    (h : compile disk opts file = .ok (o, disk')) : o.Located := by
  have hread := readOutcome_located disk opts file
  have hplaced : (readUnit disk opts file).1.Placed (readOutcome disk opts file).files.Holds :=
    (readUnit_paired disk opts opts file).placed
  obtain ⟨o₀, rfl, ⟨hfiles, hbag⟩ | hproceed⟩ := compile_cases h
  · refine Outcome.Located.withTimings ⟨?_, ?_⟩ _
    · rw [hfiles]
      exact hread.first
    · rw [hfiles, hbag]
      exact hread.within
  · exact (hread.proceed hplaced hproceed).withTimings _

/-- So does every compilation of a file on the disk. -/
private theorem compileFile_located {disk disk' : Disk} {opts : Options} {path : Text} {o : Outcome}
    (h : compileFile disk opts path = .ok (o, disk')) : o.Located := by
  unfold compileFile at h
  split at h
  · exact nomatch h
  · split at h
    · cases h
      exact compile_located ‹_›
    · exact nomatch h

/-- A file that cannot be read is reported at the beginning of an empty file of its name. -/
private theorem unreadable_located (opts : Options) (path : Text) (e : DiskError) :
    (unreadable opts path e).Located := by
  have hfirst : FileSet.Holds ⟨[.inMemory path []]⟩ {} := ⟨_, rfl, Nat.le_refl _, Nat.zero_le _⟩
  refine ⟨hfirst, fun d hd => ?_⟩
  rcases Bag.mem_add hd with hd | rfl
  · exact nomatch hd
  · exact ⟨hfirst, nofun⟩

/-- Whatever comes of a file, the others are compiled behind it. -/
private theorem located_cons {o : Outcome} {compiled : Except Fault (List Outcome × Disk)} {disk' : Disk}
    {os : List Outcome} (ho : o.Located)
    (hcompiled : ∀ {os disk'}, compiled = .ok (os, disk') → ∀ o ∈ os, o.Located)
    (h : (do let (os, disk) ← compiled
             return (o :: os, disk) : Except Fault (List Outcome × Disk)) = .ok (os, disk')) :
    ∀ o ∈ os, o.Located := by
  obtain ⟨⟨rest, _⟩, hrest, h⟩ := ok_of_bind h
  cases h
  exact List.forall_mem_cons.2 ⟨ho, hcompiled hrest⟩

/-- Every compilation of several files ends in located outcomes. -/
private theorem compileFiles_located {opts : Options} {paths : List Text} {disk disk' : Disk}
    {os : List Outcome} (h : compileFiles disk opts paths = .ok (os, disk')) : ∀ o ∈ os, o.Located := by
  induction paths generalizing disk disk' os with
  | nil =>
    cases h
    exact List.forall_mem_nil _
  | cons p ps ih =>
    rw [compileFiles] at h
    split at h
    · exact located_cons (compileFile_located ‹_›) ih h
    · exact located_cons (unreadable_located opts _ _) ih h
    · cases h

/-- Every diagnostic of a compilation points into a file of its unit, and so do all notes: for every file,
disk and options, and for all units of a list of files, those that cannot be read included. -/
theorem compile_resolvable (disk : Disk) (opts : Options) :
    (∀ file, match compile disk opts file with
      | .ok (o, _) => o.Resolvable
      | .error _ => True)
    ∧ ∀ paths, match compileFiles disk opts paths with
      | .ok (os, _) => ∀ o ∈ os, o.Resolvable
      | .error _ => True := by
  constructor
  · intro file
    split
    · exact .of_within (compile_located ‹_›).within
    · trivial
  · intro paths
    split
    · exact fun o ho => .of_within (compileFiles_located ‹_› o ho).within
    · trivial

end AisScript
