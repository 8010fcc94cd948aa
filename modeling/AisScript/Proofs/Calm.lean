import AisScript.Expand
import AisScript.Proofs.Simulation

/-!
# Calm programs

Expansion runs the bodies of calls in front of the statement that holds the calls.  That makes no
difference as long as nothing of the statement was to be evaluated earlier and could tell: a program is
calm if no operand or argument looks at a variable that a call evaluated behind it changes, and no call
stands where it might not be evaluated, in the right operand of a connective.  A calm program has no
queries and no passed-through code, and leaves only loops of its own functions.

Which variables a tree looks at and may change is read off the tree; the bodies of calls count.

* `Expr.looksAt`, `Expr.changes`   the variables of a tree
* `Expr.isCalm`, `Block.isCalm`    calm trees
* `Expr.run_fixes`                 what is not changed keeps its value
* `inLoop_of_leave_stmts`          calm statements leave no loop around their function
-/

namespace AisScript

/-! ## Variables looked at and changed -/

/-- The number of the variable that an assignment changes. -/
def AssignInfo.changes (i : AssignInfo) : List Nat := (i.binding.map (·.id)).toList

/-- The number of the variable that an assignment to a member changes. -/
def Expr.targetChanges : Expr → List Nat
  | .member _ .dotted (.var _ _ (some b)) _ _ => [b.id]
  | _ => []

mutual

/-- The variables that what is left of an expanded expression looks at: those outside of calls of the
script's functions. -/
def Expr.looksAt : Expr → List Nat
  | .const _ _ => []
  | .var _ _ b => (b.map (·.id)).toList
  | .binary _ _ l r => l.looksAt ++ r.looksAt
  | .unary _ _ x => x.looksAt
  | .call _ _ _ _ (.function _ _) => []
  | .call _ _ _ args _ => looksAtList args
  | .member _ _ b _ _ => b.looksAt
  | .query _ _ _ _ _ _ => []

/-- The variables that several expressions look at. -/
def looksAtList : List Expr → List Nat
  | [] => []
  | e :: es => e.looksAt ++ looksAtList es

end

mutual

/-- The variables that evaluating an expression may change. -/
def Expr.changes : Expr → List Nat
  | .const _ _ | .var _ _ _ => []
  | .binary _ _ l r => l.changes ++ r.changes
  | .unary _ _ x => x.changes
  | .call _ _ _ args (.function binds body) =>
    changesList args ++ binds.flatMap (·.info.changes) ++ body.changes
  | .call _ _ _ args _ => changesList args
  | .member _ _ b _ _ => b.changes
  | .query _ _ _ _ _ _ => []

/-- The variables that evaluating several expressions may change. -/
def changesList : List Expr → List Nat
  | [] => []
  | e :: es => e.changes ++ changesList es

/-- The variables that an assignment may change. -/
def Assign.changes : Assign → List Nat
  | .mk i v => i.changes ++ v.changes

/-- The variables that assignments may change. -/
def changesAssigns : List Assign → List Nat
  | [] => []
  | a :: as => a.changes ++ changesAssigns as

/-- The variables that a clause may change. -/
def changesClause : Option Assign → List Nat
  | none => []
  | some a => a.changes

/-- The variables that a test may change. -/
def changesTest : Option Expr → List Nat
  | none => []
  | some e => e.changes

/-- The variables that a statement may change. -/
def Stmt.changes : Stmt → List Nat
  | .block b => b.changes
  | .eval _ e | .ret _ e => e.changes
  | .assign a => a.changes
  | .assignMember _ t v => t.targetChanges ++ v.changes
  | .cond _ c t f => c.changes ++ t.changes ++ changesElse f
  | .loop _ c b => c.changes ++ b.changes
  | .forLoop _ i c st b => changesClause i ++ changesTest c ++ changesClause st ++ b.changes
  | .leave _ | .code _ _ | .funcDef _ _ _ _ _ | .bitfieldDef _ _ | .enumDef _ _ | .require _ _ => []

/-- The variables that statements may change. -/
def changesStmts : List Stmt → List Nat
  | [] => []
  | s :: ss => s.changes ++ changesStmts ss

/-- The variables that a block may change. -/
def Block.changes : Block → List Nat
  | .mk os ss _ => changesAssigns os ++ changesStmts ss

/-- The variables that an else block may change. -/
def changesElse : Option Block → List Nat
  | none => []
  | some b => b.changes

end

/-! ## Calm trees -/

/-- Whether what is left of an expression looks at none of some variables. -/
def Expr.isBlindTo (e : Expr) (ids : List Nat) : Bool := e.looksAt.all fun id => !ids.contains id

mutual

/-- Whether nothing in an expression can tell that the bodies of its calls are run first. -/
def Expr.isCalm : Expr → Bool
  | .const _ _ | .var _ _ _ => true
  | .binary _ op l r =>
    l.isCalm && r.isCalm && l.isBlindTo r.changes && !(op.isLogical && r.hasScriptCall)
  | .unary _ _ x => x.isCalm
  | .call _ _ _ args (.function _ body) => isCalmList args && body.isCalm false
  | .call _ _ _ args _ => isCalmList args
  | .member _ _ b _ _ => b.isCalm
  | .query _ _ _ _ _ _ => false

/-- Whether nothing in arguments can tell that the bodies of their calls are run first. -/
def isCalmList : List Expr → Bool
  | [] => true
  | e :: es => e.isCalm && isCalmList es && e.isBlindTo (changesList es)

/-- Whether a clause is calm. -/
def isCalmClause : Option Assign → Bool
  | none => true
  | some (.mk _ v) => v.isCalm

/-- Whether a test is calm. -/
def isCalmTest : Option Expr → Bool
  | none => true
  | some e => e.isCalm

/-- Whether a statement is calm, inside of a loop or not. -/
def Stmt.isCalm (inLoop : Bool) : Stmt → Bool
  | .block b => b.isCalm inLoop
  | .eval _ e | .ret _ e => e.isCalm
  | .assign (.mk _ v) => v.isCalm
  | .assignMember _ _ v => v.isCalm
  | .cond _ c t f => c.isCalm && t.isCalm inLoop && isCalmElse inLoop f
  | .loop _ c b => c.isCalm && b.isCalm true
  | .forLoop _ i c st b => isCalmClause i && isCalmTest c && isCalmClause st && b.isCalm true
  | .leave _ => inLoop
  | .funcDef _ _ _ _ _ | .bitfieldDef _ _ | .enumDef _ _ => true
  | .code _ _ | .require _ _ => false

/-- Whether statements are calm. -/
def isCalmStmts (inLoop : Bool) : List Stmt → Bool
  | [] => true
  | s :: ss => s.isCalm inLoop && isCalmStmts inLoop ss

/-- Whether the statements of a block are calm. -/
def Block.isCalm (inLoop : Bool) : Block → Bool
  | .mk _ ss _ => isCalmStmts inLoop ss

/-- Whether an else block is calm. -/
def isCalmElse (inLoop : Bool) : Option Block → Bool
  | none => true
  | some b => b.isCalm inLoop

end

/-- What an expression is blind to. -/
theorem Expr.not_mem_of_isBlindTo {e : Expr} {ids : List Nat} (h : e.isBlindTo ids = true) {id : Nat}
    (hid : id ∈ e.looksAt) : id ∉ ids := by
  have hall := List.all_eq_true.1 h id hid
  rw [Bool.not_eq_true'] at hall
  intro hmem
  rw [List.contains_iff_mem.2 hmem] at hall
  exact nomatch hall

/-! ## What is not changed keeps its value -/

section Fixes

variable {M : Machine} {id : Nat}

open Run (Fixes)

/-- An assignment changes its own variable only. -/
theorem fixes_assign {i : AssignInfo} (h : id ∉ i.changes) (v : M.Value) :
    Fixes (M.assign i v) (.variable id) := by
  refine Fixes.set (fun heq => h ?_) _
  cases hb : i.binding with
  | none =>
    rw [hb] at heq
    exact nomatch heq
  | some b =>
    rw [hb] at heq
    cases heq
    simp only [AssignInfo.changes, hb, Option.map_some, Option.toList_some, List.mem_singleton]

/-- An assignment of a variable changes no temporary. -/
theorem fixes_assign_temp {i : AssignInfo} {b : Binding} (hb : i.binding = some b) (v : M.Value)
    (n : Text) : Fixes (M.assign i v) (.temp n) := by
  refine Fixes.set (fun heq => ?_) _
  rw [hb] at heq
  exact nomatch heq

/-- Binding parameters changes the parameters only. -/
private theorem fixes_bindAll {bs : List Assign} (h : id ∉ bs.flatMap (·.info.changes))
    (vs : List M.Value) : Fixes (M.bindAll bs vs) (.variable id) := by
  induction bs generalizing vs with
  | nil => exact Fixes.pure ()
  | cons b bs ih =>
    rw [List.flatMap_cons, List.mem_append, not_or] at h
    cases vs with
    | nil => exact Fixes.pure ()
    | cons v vs => exact (fixes_assign h.1 v).bind fun _ => ih h.2 vs

/-- Binding parameters changes no temporary. -/
theorem fixes_bindAll_temp {bs : List Assign} (h : ∀ b ∈ bs, ∃ c, b.info.binding = some c)
    (vs : List M.Value) (n : Text) : Fixes (M.bindAll bs vs) (.temp n) := by
  induction bs generalizing vs with
  | nil => exact Fixes.pure ()
  | cons b bs ih =>
    obtain ⟨⟨c, hc⟩, hbs⟩ := List.forall_mem_cons.1 h
    cases vs with
    | nil => exact Fixes.pure ()
    | cons v vs => exact (fixes_assign_temp hc v n).bind fun _ => ih hbs vs

/-- An assignment to a member changes the variable only. -/
private theorem fixes_assignMember {t : Expr} (h : id ∉ t.targetChanges) (v : M.Value) :
    Fixes (M.assignMember t v) (.variable id) := by
  unfold Machine.assignMember
  split
  · rename_i b _ _
    refine Fixes.set (fun heq => ?_) _
    cases b with
    | none => exact nomatch heq
    | some b =>
      cases heq
      exact h List.mem_cons_self
  · exact Fixes.stuck

/-- What a call gives changes nothing. -/
private theorem fixes_given (e : Ending M.Value) (k : Key) : Fixes (M.given e) k := by
  cases e with
  | next => exact Fixes.pure _
  | leave => exact Fixes.stuck
  | give v => exact Fixes.pure v

mutual

/-- Evaluating an expression leaves alone what it does not change. -/
theorem Expr.run_fixes : (e : Expr) → id ∉ e.changes → Fixes (e.run M) (.variable id)
  -- One case for each kind of expression: what the whole does not change, no part of it changes.
  | .const _ _, _ => Fixes.pure _
  | .var _ _ _, _ => Fixes.reads _
  | .binary _ op l r, h => by
    simp only [Expr.changes, List.mem_append, not_or] at h
    rw [Expr.run]
    exact (Expr.run_fixes l h.1).bind fun a => Fixes.connect op a (Expr.run_fixes r h.2)
  | .unary _ _ x, h => by
    rw [Expr.run]
    exact (Expr.run_fixes x h).bind fun _ => Fixes.pure _
  | .call _ _ _ args (.function binds body), h => by
    simp only [Expr.changes, List.mem_append, not_or] at h
    rw [Expr.run]
    -- Arguments, parameters, body, and the value that is given back.
    exact (runList_fixes args h.1.1).bind fun vs => (fixes_bindAll h.1.2 vs).bind fun _ =>
      (Block.run_fixes body h.2).bind fun e => fixes_given e _
  | .call _ _ _ args (.intrinsic op), h => by
    rw [Expr.run]
    exact (runList_fixes args h).bind fun vs => Fixes.perform op vs
  | .call _ _ _ args (.constructor _), h => by
    rw [Expr.run]
    exact (runList_fixes args h).bind fun _ => Fixes.pure _
  | .call _ _ _ _ .unresolved, _ => by
    rw [Expr.run]
    -- What is not resolved does not run.
    exact Fixes.stuck
  | .member _ _ b _ _, h => by
    rw [Expr.run]
    exact (Expr.run_fixes b h).bind fun _ => Fixes.pure _
  | .query _ _ _ _ _ _, _ => by
    rw [Expr.run]
    exact Fixes.stuck

/-- Evaluating expressions leaves alone what they do not change. -/
theorem runList_fixes : (es : List Expr) → id ∉ changesList es → Fixes (runList M es) (.variable id)
  | [], _ => Fixes.pure _
  | e :: es, h => by
    simp only [changesList, List.mem_append, not_or] at h
    rw [runList]
    exact (Expr.run_fixes e h.1).bind fun _ => (runList_fixes es h.2).bind fun _ => Fixes.pure _

/-- An assignment leaves alone what it does not change. -/
private theorem Assign.run_fixes : (a : Assign) → id ∉ a.changes → Fixes (a.run M) (.variable id)
  | .mk i v, h => by
    simp only [Assign.changes, List.mem_append, not_or] at h
    rw [Assign.run]
    exact (Expr.run_fixes v h.2).bind fun x => fixes_assign h.1 x

/-- Assignments leave alone what they do not change. -/
private theorem runAssigns_fixes : (as : List Assign) → id ∉ changesAssigns as →
    Fixes (runAssigns M as) (.variable id)
  | [], _ => Fixes.pure _
  | a :: as, h => by
    simp only [changesAssigns, List.mem_append, not_or] at h
    rw [runAssigns]
    exact (Assign.run_fixes a h.1).bind fun _ => runAssigns_fixes as h.2

/-- A clause leaves alone what it does not change. -/
private theorem runClause_fixes : (a : Option Assign) → id ∉ changesClause a →
    Fixes (runClause M a) (.variable id)
  | none, _ => Fixes.pure _
  | some a, h => Assign.run_fixes a h

/-- A test leaves alone what it does not change. -/
private theorem runTest_fixes : (e : Option Expr) → id ∉ changesTest e →
    Fixes (runTest M e) (.variable id)
  | none, _ => Fixes.pure _
  | some e, h => by
    rw [runTest]
    exact (Expr.run_fixes e h).bind fun _ => Fixes.pure _

/-- A statement leaves alone what it does not change. -/
private theorem Stmt.run_fixes : (s : Stmt) → id ∉ s.changes → Fixes (s.run M) (.variable id)
  -- A run of a statement is the runs of its parts, one behind the other.
  | .block b, h => by
    rw [Stmt.run]
    exact Block.run_fixes b h
  | .eval _ e, h | .ret _ e, h => by
    rw [Stmt.run]
    exact (Expr.run_fixes e h).bind fun _ => Fixes.pure _
  | .assign a, h => by
    rw [Stmt.run]
    exact (Assign.run_fixes a h).bind fun _ => Fixes.pure _
  | .assignMember _ t v, h => by
    simp only [Stmt.changes, List.mem_append, not_or] at h
    rw [Stmt.run]
    exact (Expr.run_fixes v h.2).bind fun x => (fixes_assignMember h.1 x).bind fun _ => Fixes.pure _
  | .cond _ c t f, h => by
    simp only [Stmt.changes, List.mem_append, not_or] at h
    rw [Stmt.run]
    -- The condition, and then one of the branches.
    refine (Expr.run_fixes c h.1.1).bind fun v => ?_
    split
    · exact Block.run_fixes t h.1.2
    · exact runElse_fixes f h.2
  | .loop _ c b, h => by
    simp only [Stmt.changes, List.mem_append, not_or] at h
    rw [Stmt.run]
    -- A loop keeps what its test and its body keep.
    exact Fixes.loop ((Expr.run_fixes c h.1).bind fun _ => Fixes.pure _) (Block.run_fixes b h.2)
      (Fixes.pure ())
  | .forLoop _ i c st b, h => by
    simp only [Stmt.changes, List.mem_append, not_or] at h
    rw [Stmt.run]
    -- The first clause, then test, body and step over and over.
    exact (runClause_fixes i h.1.1.1).bind fun _ =>
      -- The first clause, then test, body and step over and over.
      Fixes.loop (runTest_fixes c h.1.1.2) (Block.run_fixes b h.2) (runClause_fixes st h.1.2)
  | .leave _, _ | .funcDef _ _ _ _ _, _ | .bitfieldDef _ _, _ | .enumDef _ _, _ => by
    rw [Stmt.run]
    exact Fixes.pure _
  | .code _ _, _ | .require _ _, _ => by
    rw [Stmt.run]
    -- These do not run.
    exact Fixes.stuck

/-- Statements leave alone what they do not change. -/
private theorem runStmts_fixes : (ss : List Stmt) → id ∉ changesStmts ss →
    Fixes (runStmts M ss) (.variable id)
  | [], _ => Fixes.pure _
  | s :: ss, h => by
    simp only [changesStmts, List.mem_append, not_or] at h
    rw [runStmts]
    exact (Stmt.run_fixes s h.1).andThen (runStmts_fixes ss h.2)

/-- A block leaves alone what it does not change. -/
private theorem Block.run_fixes : (b : Block) → id ∉ b.changes → Fixes (b.run M) (.variable id)
  | .mk os ss _, h => by
    simp only [Block.changes, List.mem_append, not_or] at h
    rw [Block.run]
    exact (runAssigns_fixes os h.1).bind fun _ => runStmts_fixes ss h.2

/-- An else block leaves alone what it does not change. -/
private theorem runElse_fixes : (b : Option Block) → id ∉ changesElse b →
    Fixes (runElse M b) (.variable id)
  | none, _ => Fixes.pure _
  | some b, h => Block.run_fixes b h

end

end Fixes

/-! ## Loops that are left -/

section Leaves

variable {M : Machine}

/-- A loop is not left for a loop around it. -/
private theorem Turns.ne_leave {T : Run M Bool} {B : Run M (Ending M.Value)} {S : Run M Unit}
    {s s' : M.State} {e : Ending M.Value} (h : Turns T B S s e s') : e ≠ .leave := by
  induction h with
  | stop _ => exact nofun
  | leave _ _ => exact nofun
  | give _ _ => exact nofun
  | turn _ _ _ _ ih => exact ih

/-- Statements leave a loop if one of them does. -/
private theorem Run.leave_of_andThen {E F : Run M (Ending M.Value)} {s s' : M.State}
    (h : E.andThen F s .leave s') : E s .leave s' ∨ ∃ s₁, F s₁ .leave s' := by
  obtain ⟨e, s₁, hE, hF⟩ := h
  cases e with
  | next => exact .inr ⟨s₁, hF⟩
  | leave =>
    obtain ⟨_, rfl⟩ := hF
    exact .inl hE
  | give v => exact nomatch hF.1

mutual

/-- A calm statement leaves a loop only inside of one. -/
private theorem Stmt.inLoop_of_leave {inLoop : Bool} : (st : Stmt) → st.isCalm inLoop = true →
    ∀ {s s' : M.State}, st.run M s .leave s' → inLoop = true
  -- A block is left if one of its statements is.
  | .block b, hc, _, _, h => by
    -- A block is left if one of its statements is.
    rw [Stmt.run] at h
    exact Block.inLoop_of_leave b hc h
  | .eval _ e, _, _, _, h | .ret _ e, _, _, _, h => by
    -- A run of these ends in its own way and never leaves a loop.
    rw [Stmt.run] at h
    obtain ⟨_, _, _, h, _⟩ := h
    exact nomatch h
  | .assign _, _, _, _, h => by
    rw [Stmt.run] at h
    obtain ⟨_, _, _, h, _⟩ := h
    exact nomatch h
  | .assignMember _ _ _, _, _, _, h => by
    rw [Stmt.run] at h
    obtain ⟨_, _, _, _, _, _, h, _⟩ := h
    exact nomatch h
  | .cond _ c t f, hc, _, _, h => by
    simp only [Stmt.isCalm, Bool.and_eq_true] at hc
    rw [Stmt.run] at h
    obtain ⟨v, _, _, h⟩ := h
    -- Either branch may leave the loop around the conditional.
    split at h
    · exact Block.inLoop_of_leave t hc.1.2 h
    · exact inLoop_of_leave_else f hc.2 h
  | .loop _ _ _, _, _, _, h => by
    rw [Stmt.run] at h
    -- A loop ends the leaving inside of it.
    exact (Turns.ne_leave h rfl).elim
  | .forLoop _ _ _ _ _, _, _, _, h => by
    rw [Stmt.run] at h
    obtain ⟨_, _, _, h⟩ := h
    exact (Turns.ne_leave h rfl).elim
  -- A calm leave stands in a loop.
  | .leave _, hc, _, _, _ => hc
  | .funcDef _ _ _ _ _, _, _, _, h | .bitfieldDef _ _, _, _, _, h | .enumDef _ _, _, _, _, h => by
    rw [Stmt.run] at h
    exact nomatch h.1
  -- These are not calm.
  | .code _ _, hc, _, _, _ | .require _ _, hc, _, _, _ => nomatch hc

/-- Calm statements leave a loop only inside of one. -/
theorem inLoop_of_leave_stmts {inLoop : Bool} : (ss : List Stmt) → isCalmStmts inLoop ss = true →
    ∀ {s s' : M.State}, runStmts M ss s .leave s' → inLoop = true
  | [], _, _, _, h => nomatch h.1
  | st :: ss, hc, _, _, h => by
    simp only [isCalmStmts, Bool.and_eq_true] at hc
    rw [runStmts] at h
    rcases Run.leave_of_andThen h with h | ⟨_, h⟩
    · exact Stmt.inLoop_of_leave st hc.1 h
    · exact inLoop_of_leave_stmts ss hc.2 h

/-- A calm block leaves a loop only inside of one. -/
theorem Block.inLoop_of_leave {inLoop : Bool} : (b : Block) → b.isCalm inLoop = true →
    ∀ {s s' : M.State}, b.run M s .leave s' → inLoop = true
  | .mk _ ss _, hc, _, _, h => by
    rw [Block.run] at h
    obtain ⟨_, _, _, h⟩ := h
    exact inLoop_of_leave_stmts ss hc h

/-- A calm else block leaves a loop only inside of one. -/
private theorem inLoop_of_leave_else {inLoop : Bool} : (b : Option Block) →
    isCalmElse inLoop b = true → ∀ {s s' : M.State}, runElse M b s .leave s' → inLoop = true
  | none, _, _, _, h => nomatch h.1
  | some b, hc, _, _, h => Block.inLoop_of_leave b hc h

end

end Leaves

end AisScript
