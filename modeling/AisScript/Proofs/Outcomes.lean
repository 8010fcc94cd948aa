import AisScript.Proofs.TypingSound

/-!
# What can come of typing

Two things about typing that hold in every scope, sound or not.  A statement that is typed leaves the
scope as it was, but for the name of what it defines.  And an error of an expression or an assignment is
one of its own operations, or that a name in it is not defined, or an error of a copy of a function that
it calls.

* `Assign.Leads`, `Stmt.Leads`       the scope behind what was typed
* `Stmt.leads_of_annotate`           typing leads there
* `Typed.Blames`                     outcomes whose error is one of some kind
* `Expr.Reads`                       names that an expression needs
* `Expr.annotate_blames`             errors of expressions
* `Assign.annotate_blames`           errors of assignments
-/

namespace AisScript

/-! ## Scopes behind statements -/

/-- The scope behind an assignment: as before, or with its variable defined. -/
def Assign.Leads (σ τ : Scope Entry) (a : Assign) : Prop :=
  if a.info.binds || a.info.declares then ∃ b, τ = σ.define a.info.name (.value b) else τ = σ

/-- The scope behind a clause that may be absent. -/
def ClauseLeads (σ τ : Scope Entry) : Option Assign → Prop
  | none => τ = σ
  | some a => a.Leads σ τ

/-- The scope behind a statement: as before, or with what the statement defines. -/
def Stmt.Leads (σ τ : Scope Entry) : Stmt → Prop
  | .assign a => a.Leads σ τ
  | .funcDef _ f _ ps b => τ = bindFunction σ f ps b
  | .bitfieldDef _ d => τ = σ.define d.name (.bitfield d)
  | .enumDef _ d => ∃ next, τ = (bindEnum σ next d).1
  | _ => τ = σ

section Leads

variable {enter : EnterBody} {σ τ : Scope Entry} {next : Nat}

/-- An assignment that is typed leaves the scope or defines its variable. -/
theorem Assign.leads_of_annotate {a : Assign} (h : (a.annotate enter σ next).result = .ok τ) :
    a.Leads σ τ := by
  obtain ⟨i, v⟩ := a
  rw [Assign.annotate] at h
  simp only [Assign.Leads, Assign.info] at h ⊢
  -- A parameter that is bound, or a statement.
  by_cases hbinds : i.binds = true
  · simp only [hbinds, if_true, Bool.true_or] at h ⊢
    cases h
    exact ⟨_, rfl⟩
  -- Only a value that is typed and fits its variable has a result.
  · simp only [hbinds, Bool.false_eq_true, if_false, Bool.false_or] at h ⊢
    unfold assignTyped at h
    simp only at h
    split at h
    · exact nomatch h
    · split at h
      · exact nomatch h
      -- Does the assignment declare?
      · split at h
        · rename_i hdeclares
          rw [if_pos hdeclares]
          cases h
          exact ⟨_, rfl⟩
        · rename_i hdeclares
          rw [if_neg hdeclares]
          split at h
          · exact nomatch h
          · split at h
            · exact nomatch h
            · split at h
              · exact nomatch h
              · cases h
                rfl
          · exact nomatch h

/-- A clause that is typed leaves the scope or defines its variable. -/
theorem clauseLeads_of_annotate {a : Option Assign}
    (h : (annotateClause enter σ next a).result = .ok τ) : ClauseLeads σ τ a := by
  cases a with
  | none =>
    cases h
    rfl
  | some a => exact Assign.leads_of_annotate h

/-- An outcome whose value is replaced by a constant is that constant. -/
private theorem Except.eq_of_map_const {ε α β : Type} {x : Except ε α} {b c : β}
    (h : x.map (fun _ => b) = .ok c) : c = b := by
  cases x with
  | error e => exact nomatch h
  | ok a =>
    cases h
    rfl

/-- A member assignment leaves the scope. -/
private theorem scope_of_annotateMemberAssign {sp : Span} {t v : Expr}
    (h : (annotateMemberAssign enter σ next sp t v).result = .ok τ) : τ = σ := by
  -- Only a target that is a member with a type, and a value that fits, have a result.
  unfold annotateMemberAssign at h
  split at h
  · simp only at h
    split at h
    · cases h
    · split at h
      · cases h
      · split at h
        · cases h
        · cases h
          rfl
        · cases h
    · cases h
  · cases h

/-- A statement that is typed leaves the scope or defines what it is a definition of. -/
theorem Stmt.leads_of_annotate {s : Stmt} (h : (s.annotate enter σ next).result = .ok τ) :
    s.Leads σ τ := by
  -- Nothing but definitions and assignments of names changes the scope behind a statement.
  cases s with
  | block b => exact Except.eq_of_map_const h
  | eval sp e => exact Except.eq_of_map_const h
  | assign a => exact Assign.leads_of_annotate h
  | assignMember sp t v => exact scope_of_annotateMemberAssign h
  | cond sp c t f =>
    -- The branches are closed again.
    simp only [Stmt.annotate] at h
    split at h
    · cases h
    · split at h
      · cases h
      · exact Except.eq_of_map_const h
  | loop sp c b =>
    simp only [Stmt.annotate] at h
    split at h
    · cases h
    · exact Except.eq_of_map_const h
  | forLoop sp i c st b =>
    -- The header and the body are closed again.
    simp only [Stmt.annotate] at h
    split at h
    · cases h
    · split at h
      · cases h
      · split at h
        · cases h
        · exact Except.eq_of_map_const h
  | ret sp v =>
    simp only [Stmt.annotate] at h
    split at h
    · cases h
    · cases h
    · cases h
      rfl
  -- Its members are numbered from the next binding on.
  | enumDef sp d =>
    simp only [Stmt.annotate] at h
    cases h
    exact ⟨next, rfl⟩
  | leave sp | code sp t | require sp p | funcDef sp n ns ps b | bitfieldDef sp d =>
    cases h
    rfl

end Leads

/-! ## Errors of expressions -/

/-- An error that is no lack of a name and no lack of levels. -/
def SemanticError.IsLocal (e : SemanticError) : Prop := (∀ n, e.cause ≠ .notDefined n) ∧ e.cause ≠ .tooDeep

/-- An outcome whose error, if it has one, is of some kind. -/
def Typed.Blames {α β : Type} (P : SemanticError → Prop) (r : Typed α β) : Prop :=
  ∀ e, r.result = .error e → P e

/-- The names that an expression needs itself, and where it names them. -/
def Expr.Reads (n : Text) (sp : Span) : Expr → Prop
  | .var i m _ => m = n ∧ i.span = sp
  | .call _ m ms _ _ => m = n ∧ ms = sp
  | _ => False

instance Expr.decidableReads (n : Text) (sp : Span) : (e : Expr) → Decidable (e.Reads n sp)
  | .var i m _ => inferInstanceAs (Decidable (m = n ∧ i.span = sp))
  | .call _ m ms _ _ => inferInstanceAs (Decidable (m = n ∧ ms = sp))
  | .const .. | .binary .. | .unary .. | .member .. | .query .. => inferInstanceAs (Decidable False)

/-- Kinds of errors that typing in a scope can have: whatever is local, and what copies of the functions
in scope have. -/
structure Blaming (P : SemanticError → Prop) (enter : EnterBody) (σ : Scope Entry) : Prop where
  other : ∀ e : SemanticError, e.IsLocal → P e
  copies : ∀ n ps body κ, σ.lookup n = some (.function ps body κ) → ∀ next args,
    args.length = ps.length → (enter ⟨κ, []⟩ next (bindArguments ps args) body).Blames P

namespace Typed

variable {α β γ δ : Type} {P : SemanticError → Prop}

/-- A success blames nothing. -/
theorem blames_ok {tree : α} {next : Nat} {x : β} : (⟨tree, next, .ok x⟩ : Typed α β).Blames P :=
  fun _ he => nomatch he

/-- An error of the kind. -/
theorem blames_error {tree : α} {next : Nat} {e : SemanticError} (h : P e) :
    (⟨tree, next, .error e⟩ : Typed α β).Blames P := by
  rintro _ ⟨⟩
  exact h

/-- Another tree and another value have the same error. -/
theorem Blames.map {r : Typed α β} (h : r.Blames P) (tree : δ) (next : Nat) (f : β → γ) :
    (⟨tree, next, r.result.map f⟩ : Typed δ γ).Blames P := by
  intro e he
  cases hr : r.result with
  | ok x =>
    simp only [hr, Except.map] at he
    exact nomatch he
  | error e' =>
    simp only [hr, Except.map] at he
    cases he
    exact h e hr

/-- A demand adds local errors. -/
theorem Blames.demanding {r : Typed Expr Ty} (h : r.asValue.Blames P)
    (hlocal : ∀ e : SemanticError, e.IsLocal → P e) {accepts : Ty → Prop} [DecidablePred accepts]
    {cause : Ty → SemanticCause} (hc : ∀ t sp, SemanticError.IsLocal ⟨cause t, sp⟩) :
    (r.demanding accepts cause).Blames P := by
  simp only [Typed.demanding]
  split
  · split
    · exact h
    · exact blames_error (hlocal _ (hc _ _))
  · exact h

/-- The demand for a value adds a local error. -/
theorem Blames.asValue {r : Typed Expr Ty} (h : r.Blames P)
    (hlocal : ∀ e : SemanticError, e.IsLocal → P e) : r.asValue.Blames P := by
  unfold Typed.asValue
  split
  · exact blames_error (hlocal _ ⟨nofun, nofun⟩)
  · exact h

end Typed

open Typed

/-- The types of binary operations fail locally. -/
private theorem BinaryOp.isLocal_resultTy {op : BinaryOp} {l r : Ty} {cause : SemanticCause} (sp : Span)
    (h : op.resultTy l r = .error cause) : SemanticError.IsLocal ⟨cause, sp⟩ := by
  simp only [BinaryOp.resultTy] at h
  repeat' split at h
  all_goals cases h
  all_goals exact ⟨by simp, by simp⟩

/-- The types of unary operations fail locally. -/
private theorem UnaryOp.isLocal_resultTy {op : UnaryOp} {t : Ty} {cause : SemanticCause} (sp : Span)
    (h : op.resultTy t = .error cause) : SemanticError.IsLocal ⟨cause, sp⟩ := by
  cases op <;> simp only [UnaryOp.resultTy] at h <;> split at h <;> cases h <;> exact ⟨by simp, by simp⟩

/-- The types of members fail locally. -/
private theorem isLocal_memberTy {a : Access} {base : Ty} {n : Text} {ns s : Span} {e : SemanticError}
    (h : memberTy a base n ns s = .error e) : e.IsLocal := by
  simp only [memberTy] at h
  repeat' split at h
  all_goals cases h
  all_goals exact ⟨by simp, by simp⟩

/-- The words of queries fail locally. -/
private theorem isLocal_queryWordsFault {k op : Text} {cause : SemanticCause} (sp : Span)
    (h : queryWordsFault? k op = some cause) : SemanticError.IsLocal ⟨cause, sp⟩ := by
  unfold queryWordsFault? at h
  repeat' split at h
  all_goals cases h
  all_goals exact ⟨nofun, nofun⟩

section Errors

variable {P : SemanticError → Prop} {enter : EnterBody} {σ : Scope Entry}

/-- A call fails because its name is not defined, or as a copy of the function does, or locally. -/
private theorem callTyped_blames (h : Blaming P enter σ) (next : Nat) (i : ExprInfo) (n : Text)
    (ns : Span) (args : List Expr) (t : Target) (types : List Ty) (hread : P ⟨.notDefined n, ns⟩) :
    (callTyped enter σ next i n ns args t types).Blames P := by
  unfold callTyped
  -- Which fault it is depends on what the name stands for.
  cases hn : σ.lookup n with
  | none => exact blames_error hread
  | some entry =>
    cases entry with
    -- A value cannot be called.
    | value b => exact blames_error (h.other _ ⟨by simp, by simp⟩)
    -- Built-in functions check the types of their arguments.
    | intrinsic op =>
      cases hc : op.check types with
      | ok t =>
        simp only [hc]
        exact blames_ok
      | error e =>
        simp only [hc]
        exact blames_error (h.other _ ⟨by simp, by simp⟩)
    -- A bitfield takes one integer.
    | bitfield layout =>
      simp only
      split
      · exact blames_ok
      · exact blames_error (h.other _ ⟨by simp, by simp⟩)
    -- The number of arguments is wrong, or the copy fails, or all is well.
    | function ps body κ =>
      simp only
      split
      · exact blames_error (h.other _ ⟨by simp, by simp⟩)
      · rename_i hlen
        have hcopy := h.copies n ps body κ hn next args (Decidable.of_not_not hlen)
        split
        · exact blames_error (hcopy _ ‹_›)
        · exact blames_ok

mutual

/-- An expression fails because a name in it is not defined, or as a copy of a function does, or
locally. -/
theorem Expr.annotate_blames (h : Blaming P enter σ) (next : Nat) : (e : Expr) →
    (∀ x ∈ e.nodes, ∀ n sp, x.Reads n sp → P ⟨.notDefined n, sp⟩) → (e.annotate enter σ next).Blames P
  | .const _ _, _ => blames_ok
  | .var i n b, hr => by
    simp only [Expr.annotate]
    -- The name is not defined, or it is no value, which is a local fault.
    split
    · exact blames_error (hr _ (List.mem_singleton_self _) n i.span ⟨rfl, rfl⟩)
    · exact blames_ok
    · exact blames_error (h.other _ ⟨nofun, nofun⟩)
  -- The operands are typed in a row, and the first fault is that of the whole.
  | .binary i op l r, hr => by
    simp only [Expr.nodes, List.forall_mem_cons, List.forall_mem_append] at hr
    have hl := (Expr.annotate_blames h next l hr.2.1).asValue h.other
    simp only [Expr.annotate]
    split
    · exact blames_error (hl _ ‹_›)
    -- The left operand is typed, so the right one decides.
    · have hr := (Expr.annotate_blames h (l.annotate enter σ next).asValue.next r hr.2.2).asValue h.other
      split
      · exact blames_error (hr _ ‹_›)
      -- Both are typed, so only the operator can refuse.
      · split
        · exact blames_error (h.other _ (BinaryOp.isLocal_resultTy i.span ‹_›))
        · exact blames_ok
  | .unary i op x, hr => by
    simp only [Expr.nodes, List.forall_mem_cons] at hr
    have hx := (Expr.annotate_blames h next x hr.2).asValue h.other
    simp only [Expr.annotate]
    split
    · exact blames_error (hx _ ‹_›)
    · split
      · exact blames_error (h.other _ (UnaryOp.isLocal_resultTy i.span ‹_›))
      · exact blames_ok
  | .call i n ns args t, hr => by
    simp only [Expr.nodes, List.forall_mem_cons] at hr
    -- The arguments come first, and the call behind them.
    have ha := annotateArgs_blames h next args hr.2
    simp only [Expr.annotate]
    split
    · exact blames_error (ha _ ‹_›)
    · exact callTyped_blames h _ i n ns _ t _ (hr.1 n ns ⟨rfl, rfl⟩)
  | .member i a b n ns, hr => by
    simp only [Expr.nodes, List.forall_mem_cons] at hr
    have hb := (Expr.annotate_blames h next b hr.2).asValue h.other
    -- The base comes first, and the member behind it.
    simp only [Expr.annotate]
    split
    · exact blames_error (hb _ ‹_›)
    · split
      · exact blames_error (h.other _ (isLocal_memberTy ‹_›))
      · exact blames_ok
  | .query i k op u x c, hr => by
    -- The three parts of a query are typed in a row, behind the checks of its words.
    simp only [Expr.nodes, List.forall_mem_cons, List.forall_mem_append] at hr
    have hu := annotateUnit_blames h next u hr.2.1.1
    have hx := annotateOperand_blames h (annotateUnit enter σ next u).next x hr.2.1.2
    have hc := annotateOperand_blames h
      (annotateOperand enter σ (annotateUnit enter σ next u).next x).next c hr.2.2
    simp only [Expr.annotate]
    split
    · exact blames_error (h.other _ ⟨nofun, nofun⟩)
    · split
      · exact blames_error (h.other _ (isLocal_queryWordsFault i.span ‹_›))
      · split
        · exact blames_error (hu _ ‹_›)
        · split
          · exact blames_error (hx _ ‹_›)
          · split
            · exact blames_error (hc _ ‹_›)
            · exact blames_ok

/-- Arguments fail as expressions do. -/
private theorem annotateArgs_blames (h : Blaming P enter σ) (next : Nat) : (es : List Expr) →
    (∀ x ∈ nodesOfList es, ∀ n sp, x.Reads n sp → P ⟨.notDefined n, sp⟩) →
      (annotateArgs enter σ next es).Blames P
  | [], _ => blames_ok
  | e :: es, hr => by
    simp only [nodesOfList, List.forall_mem_append] at hr
    have he := (Expr.annotate_blames h next e hr.1).asValue h.other
    simp only [annotateArgs]
    split
    · exact blames_error (he _ ‹_›)
    · exact (annotateArgs_blames h (e.annotate enter σ next).asValue.next es hr.2).map _ _ _

/-- The unit of a query fails as expressions do. -/
private theorem annotateUnit_blames (h : Blaming P enter σ) (next : Nat) : (e : Option Expr) →
    (∀ x ∈ nodesOfOption e, ∀ n sp, x.Reads n sp → P ⟨.notDefined n, sp⟩) →
      (annotateUnit enter σ next e).Blames P
  | none, _ => blames_ok
  | some e, hr => by
    have he : ((e.annotate enter σ next).demanding (· = .object) .queryUnit).Blames P :=
      ((Expr.annotate_blames h next e hr).asValue h.other).demanding h.other fun _ _ => ⟨nofun, nofun⟩
    exact he.map _ _ _

/-- An operand of a query fails as expressions do. -/
private theorem annotateOperand_blames (h : Blaming P enter σ) (next : Nat) : (e : Option Expr) →
    (∀ x ∈ nodesOfOption e, ∀ n sp, x.Reads n sp → P ⟨.notDefined n, sp⟩) →
      (annotateOperand enter σ next e).Blames P
  | none, _ => blames_ok
  | some e, hr => by
    have he : ((e.annotate enter σ next).demanding (·.isNumeric = true) .queryOperand).Blames P :=
      ((Expr.annotate_blames h next e hr).asValue h.other).demanding h.other fun _ _ => ⟨nofun, nofun⟩
    exact he.map _ _ _

end

/-- An assignment fails as its value does, or because its target is not defined, or locally. -/
theorem Assign.annotate_blames (h : Blaming P enter σ) (next : Nat) (a : Assign)
    (hr : ∀ x ∈ a.value.nodes, ∀ n sp, x.Reads n sp → P ⟨.notDefined n, sp⟩)
    (htarget : a.info.declares = false → σ.lookup a.info.name = none →
      P ⟨.notDefined a.info.name, a.info.nameSpan⟩) : (a.annotate enter σ next).Blames P := by
  -- A parameter is bound already.
  obtain ⟨i, v⟩ := a
  rw [Assign.annotate]
  split
  · exact blames_ok
  -- The value comes first, and its fault is that of the assignment.
  · have hv := (Expr.annotate_blames h next v hr).asValue h.other
    unfold assignTyped
    simp only
    split
    · exact blames_error (hv _ ‹_›)
    · split
      -- Whether a value that is typed can be assigned depends on the target.
      · exact blames_error (h.other _ ⟨by simp, by simp⟩)
      · split
        · exact blames_ok
        -- The target has to be defined, to be a variable and to have the type of the value.
        · rename_i hdeclares
          split
          · rename_i hnone
            exact blames_error (htarget (Bool.eq_false_iff.2 hdeclares) hnone)
          · split
            · exact blames_error (h.other _ ⟨by simp, by simp⟩)
            · split
              · exact blames_error (h.other _ ⟨by simp, by simp⟩)
              · exact blames_ok
          · exact blames_error (h.other _ ⟨by simp, by simp⟩)

/-- A clause of a loop header fails as an assignment does. -/
theorem annotateClause_blames (h : Blaming P enter σ) (next : Nat) (a : Option Assign)
    (hr : ∀ c, a = some c → ∀ x ∈ c.value.nodes, ∀ n sp, x.Reads n sp → P ⟨.notDefined n, sp⟩)
    (htarget : ∀ c, a = some c → c.info.declares = false → σ.lookup c.info.name = none →
      P ⟨.notDefined c.info.name, c.info.nameSpan⟩) : (annotateClause enter σ next a).Blames P := by
  cases a with
  | none => exact blames_ok
  | some a => exact Assign.annotate_blames h next a (hr a rfl) (htarget a rfl)

/-- A condition fails as its expression does, or locally. -/
theorem asCondition_blames (h : Blaming P enter σ) (next : Nat) (c : Expr)
    (hr : ∀ x ∈ c.nodes, ∀ n sp, x.Reads n sp → P ⟨.notDefined n, sp⟩) :
    (c.annotate enter σ next).asCondition.Blames P :=
  ((Expr.annotate_blames h next c hr).asValue h.other).demanding h.other fun _ _ => ⟨nofun, nofun⟩

/-- The test of a loop header fails as a condition does. -/
theorem annotateTest_blames (h : Blaming P enter σ) (next : Nat) (c : Option Expr)
    (hr : ∀ x ∈ nodesOfOption c, ∀ n sp, x.Reads n sp → P ⟨.notDefined n, sp⟩) :
    (annotateTest enter σ next c).Blames P := by
  cases c with
  | none => exact blames_ok
  | some c => exact (asCondition_blames h next c hr).map _ _ _

/-- A member assignment fails as its base and its value do, or locally. -/
theorem annotateMemberAssign_blames (h : Blaming P enter σ) (next : Nat) (sp : Span) (t v : Expr)
    (ht : ∀ x ∈ t.nodes, ∀ n sp, x.Reads n sp → P ⟨.notDefined n, sp⟩)
    (hv : ∀ x ∈ v.nodes, ∀ n sp, x.Reads n sp → P ⟨.notDefined n, sp⟩) :
    (annotateMemberAssign enter σ next sp t v).Blames P := by
  -- The target has to be a member, and everything else is a local fault.
  unfold annotateMemberAssign
  split
  · rename_i i base m ms
    simp only [Expr.nodes, List.forall_mem_cons] at ht
    -- The base comes first, then the member, then the value.
    have hb := (Expr.annotate_blames h next base ht.2).asValue h.other
    simp only
    split
    · exact blames_error (hb _ ‹_›)
    · split
      · exact blames_error (h.other _ (isLocal_memberTy ‹_›))
      · have hv := (Expr.annotate_blames h (base.annotate enter σ next).asValue.next v hv).asValue h.other
        split
        · exact blames_error (hv _ ‹_›)
        · exact blames_ok
        · exact blames_error (h.other _ ⟨nofun, nofun⟩)
    · exact blames_error (h.other _ ⟨nofun, nofun⟩)
  · exact blames_error (h.other _ ⟨nofun, nofun⟩)

/-- Statements fail as the first does, or as the others do behind it. -/
theorem annotateStmts_blames_cons {s : Stmt} {ss : List Stmt} {next : Nat}
    (hs : (s.annotate enter σ next).Blames P)
    (hss : ∀ τ, (s.annotate enter σ next).result = .ok τ →
      (annotateStmts enter τ (s.annotate enter σ next).next ss).Blames P) :
    (annotateStmts enter σ next (s :: ss)).Blames P := by
  simp only [annotateStmts]
  split
  · exact blames_error (hs _ ‹_›)
  · exact hss _ ‹_›

end Errors

end AisScript
