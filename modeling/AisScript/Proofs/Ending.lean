import AisScript.Proofs.Levels

/-!
# Typing ends

The copies that typing a program asks for form a finite tree, along which the levels go down.  So the
typing of every program ends, without any bound on the nesting of calls: in success or in one error of
the program.  The number of levels that the typing of programs allows for is never used up.

* `Typed.InBounds`               outcomes that are no lack of levels
* `TypedCopy.Ends`, `EndsAfter`  finite trees of copies
* `Block.annotate_ends`          typing a program ends after finitely many copies
-/

namespace AisScript

/-! ## Errors of typing -/

/-- An outcome that is no lack of levels. -/
def Typed.InBounds {α β : Type} (r : Typed α β) : Prop :=
  ∀ e, r.result = .error e → e.cause ≠ .tooDeep

namespace Typed

variable {α β γ : Type}

/-- A success is no lack of levels. -/
private theorem inBounds_ok {tree : α} {next : Nat} {x : β} : (⟨tree, next, .ok x⟩ : Typed α β).InBounds :=
  fun _ he => nomatch he

/-- An error is no lack of levels if its cause is none. -/
private theorem inBounds_error {tree : α} {next : Nat} {e : SemanticError} (h : e.cause ≠ .tooDeep) :
    (⟨tree, next, .error e⟩ : Typed α β).InBounds := by
  rintro _ ⟨⟩
  exact h

/-- A failure is no lack of levels if its cause is none. -/
private theorem inBounds_fail {tree : α} {next : Nat} {cause : SemanticCause} {span : Span}
    (h : cause ≠ .tooDeep) : (Typed.fail tree next cause span : Typed α β).InBounds :=
  inBounds_error h

/-- A larger tree changes nothing. -/
theorem InBounds.wrap {r : Typed α β} (h : r.InBounds) (f : α → γ) : (r.wrap f).InBounds := h

/-- Another tree and another value change nothing. -/
theorem InBounds.map {δ : Type} {r : Typed α β} (h : r.InBounds) (tree : δ) (next : Nat) (f : β → γ) :
    (⟨tree, next, r.result.map f⟩ : Typed δ γ).InBounds := by
  intro e he
  cases hr : r.result with
  | ok x =>
    simp only [hr, Except.map] at he
    exact nomatch he
  | error e' =>
    simp only [hr, Except.map] at he
    cases he
    exact h e hr

/-- The demand for a value lacks no levels. -/
theorem InBounds.asValue {r : Typed Expr Ty} (h : r.InBounds) : r.asValue.InBounds := by
  unfold Typed.asValue
  split
  · exact inBounds_error nofun
  · exact h

/-- The demand for a value of an accepted type lacks no levels. -/
theorem InBounds.demanding {r : Typed Expr Ty} (h : r.InBounds) {accepts : Ty → Prop}
    [DecidablePred accepts] {cause : Ty → SemanticCause} (hc : ∀ t, cause t ≠ .tooDeep) :
    (r.demanding accepts cause).InBounds := by
  simp only [Typed.demanding]
  split
  · split
    · exact h.asValue
    · exact inBounds_error (hc _)
  · exact h.asValue

end Typed

open Typed

/-- A way of typing copies that lacks no levels. -/
def EntersInBounds (enter : EnterBody) : Prop := ∀ q : Copy, (q.under enter).InBounds

section Errors

variable {enter : EnterBody}

/-- Whatever an expression or an assignment can fail with lacks no levels if copies lack none. -/
private theorem EntersInBounds.blaming (hE : EntersInBounds enter) (σ : Scope Entry) :
    Blaming (fun e => e.cause ≠ .tooDeep) enter σ where
  other _ he := he.2
  copies _ ps body κ _ next args _ := hE ⟨⟨κ, []⟩, next, bindArguments ps args, body⟩

/-- Typing an expression lacks no levels if copies lack none. -/
private theorem Expr.annotate_inBounds (hE : EntersInBounds enter) (σ : Scope Entry) (next : Nat)
    (e : Expr) : (e.annotate enter σ next).InBounds :=
  Expr.annotate_blames (hE.blaming σ) next e fun _ _ _ _ _ => nofun

/-- Typing an assignment lacks no levels if copies lack none. -/
private theorem Assign.annotate_inBounds (hE : EntersInBounds enter) (σ : Scope Entry) (next : Nat)
    (a : Assign) : (a.annotate enter σ next).InBounds :=
  Assign.annotate_blames (hE.blaming σ) next a (fun _ _ _ _ _ => nofun) fun _ _ => nofun

/-- Typing assignments lacks no levels if copies lack none. -/
private theorem annotateAssigns_inBounds (hE : EntersInBounds enter) (σ : Scope Entry) (next : Nat)
    (as : List Assign) : (annotateAssigns enter σ next as).InBounds := by
  induction as generalizing σ next with
  | nil => exact inBounds_ok
  | cons a as ih =>
    have ha := Assign.annotate_inBounds hE σ next a
    simp only [annotateAssigns]
    split
    · exact inBounds_error (ha _ ‹_›)
    · exact ih _ _

/-- Typing a clause lacks no levels if copies lack none. -/
private theorem annotateClause_inBounds (hE : EntersInBounds enter) (σ : Scope Entry) (next : Nat)
    (a : Option Assign) : (annotateClause enter σ next a).InBounds := by
  cases a with
  | none => exact inBounds_ok
  | some a => exact (Assign.annotate_inBounds hE σ next a).wrap some

/-- Typing the test of a loop header lacks no levels if copies lack none. -/
private theorem annotateTest_inBounds (hE : EntersInBounds enter) (σ : Scope Entry) (next : Nat)
    (c : Option Expr) : (annotateTest enter σ next c).InBounds := by
  cases c with
  | none => exact inBounds_ok
  | some c =>
    have hc : (c.annotate enter σ next).asCondition.InBounds :=
      (Expr.annotate_inBounds hE σ next c).demanding nofun
    exact hc.map _ _ _

/-- Typing a member assignment lacks no levels if copies lack none. -/
private theorem annotateMemberAssign_inBounds (hE : EntersInBounds enter) (σ : Scope Entry) (next : Nat)
    (sp : Span) (t v : Expr) : (annotateMemberAssign enter σ next sp t v).InBounds :=
  annotateMemberAssign_blames (hE.blaming σ) next sp t v (fun _ _ _ _ _ => nofun)
    fun _ _ _ _ _ => nofun

mutual

/-- Typing a statement lacks no levels if copies lack none. -/
private theorem Stmt.annotate_inBounds (hE : EntersInBounds enter) (σ : Scope Entry) (next : Nat) :
    (s : Stmt) → (s.annotate enter σ next).InBounds
  | .block b => (Block.annotateIn_inBounds hE σ.push next b).map _ _ _
  | .eval _ e => (Expr.annotate_inBounds hE σ next e).map _ _ _
  | .assign a => (Assign.annotate_inBounds hE σ next a).wrap Stmt.assign
  | .assignMember sp t v => annotateMemberAssign_inBounds hE σ next sp t v
  -- The condition lacks no levels, and each branch has those of its own.
  | .cond sp c t f => by
    have hc : (c.annotate enter σ next).asCondition.InBounds :=
      (Expr.annotate_inBounds hE σ next c).demanding nofun
    have ht := Block.annotateIn_inBounds hE σ.push (c.annotate enter σ next).asCondition.next t
    simp only [Stmt.annotate]
    split
    · exact inBounds_error (hc _ ‹_›)
    · split
      · exact inBounds_error (ht _ ‹_›)
      · exact (annotateElse_inBounds hE σ _ f).map _ _ _
  | .loop sp c b => by
    have hc : (c.annotate enter σ next).asCondition.InBounds :=
      (Expr.annotate_inBounds hE σ next c).demanding nofun
    simp only [Stmt.annotate]
    split
    · exact inBounds_error (hc _ ‹_›)
    · exact (Block.annotateIn_inBounds hE σ.push _ b).map _ _ _
  | .forLoop sp i c st b => by
    -- The clauses are typed in the scopes that the earlier ones leave.
    have hi := annotateClause_inBounds hE σ.push next i
    simp only [Stmt.annotate]
    split
    · exact inBounds_error (hi _ ‹_›)
    · rename_i τ _
      have hc := annotateTest_inBounds hE τ (annotateClause enter σ.push next i).next c
      have hst := annotateClause_inBounds hE τ
        (annotateTest enter τ (annotateClause enter σ.push next i).next c).next st
      split
      · exact inBounds_error (hc _ ‹_›)
      · split
        · exact inBounds_error (hst _ ‹_›)
        · rename_i υ _
          exact (Block.annotateIn_inBounds hE υ.push _ b).map _ _ _
  | .ret sp v => by
    -- A value that is typed lacks no levels, and an enumeration is refused for another reason.
    have hv := (Expr.annotate_inBounds hE σ next v).asValue
    simp only [Stmt.annotate]
    split
    · exact inBounds_error (hv _ ‹_›)
    · exact inBounds_fail nofun
    · exact inBounds_ok
  -- Nothing is typed here.
  | .leave _ | .code _ _ | .bitfieldDef _ _ | .enumDef _ _ | .require _ _ => inBounds_ok
  | .funcDef _ _ _ _ _ => inBounds_ok

/-- Typing statements lacks no levels if copies lack none. -/
private theorem annotateStmts_inBounds (hE : EntersInBounds enter) (σ : Scope Entry) (next : Nat) :
    (ss : List Stmt) → (annotateStmts enter σ next ss).InBounds
  | [] => inBounds_ok
  | s :: ss => by
    have hs := Stmt.annotate_inBounds hE σ next s
    simp only [annotateStmts]
    split
    · exact inBounds_error (hs _ ‹_›)
    · exact annotateStmts_inBounds hE _ _ ss

/-- Typing a block lacks no levels if copies lack none. -/
private theorem Block.annotateIn_inBounds (hE : EntersInBounds enter) (σ : Scope Entry) (next : Nat) :
    (b : Block) → (b.annotateIn enter σ next).InBounds
  | .mk os ss sp => by
    have ho := annotateAssigns_inBounds hE σ next os
    simp only [Block.annotateIn]
    split
    · exact inBounds_error (ho _ ‹_›)
    · exact (annotateStmts_inBounds hE _ _ ss).map _ _ _

/-- Typing an else block lacks no levels if copies lack none. -/
private theorem annotateElse_inBounds (hE : EntersInBounds enter) (σ : Scope Entry) (next : Nat) :
    (b : Option Block) → (annotateElse enter σ next b).InBounds
  | none => inBounds_ok
  | some b => (Block.annotateIn_inBounds hE σ.push next b).wrap some

end

/-- A step of the recursion lacks no levels if the copies it asks for lack none. -/
private theorem enterOnce_inBounds (hE : EntersInBounds enter) : EntersInBounds (enterOnce enter) := by
  intro q
  have ha := annotateAssigns_inBounds hE q.captured.push q.next q.binds
  simp only [Copy.under, enterOnce]
  split
  · exact inBounds_error (ha _ ‹_›)
  · exact (Block.annotateIn_inBounds hE _ _ q.body).wrap _

end Errors

/-- The recursion without a bound never lacks levels. -/
private theorem enterFreely_inBounds : EntersInBounds enterFreely := by
  intro q
  -- By induction on the weight: everything but the lighter copies is replaced by a success.
  induction hn : q.weight using Nat.strongRecOn generalizing q with
  | _ n ih =>
    subst hn
    -- Copies as heavy as this one are not entered.
    let enter : EnterBody := fun captured next binds body =>
      if (Copy.mk captured next binds body).weight < q.weight then enterFreely captured next binds body
      else ⟨(binds, body), next, .ok ()⟩
    -- What is entered lacks no levels by induction.
    have hE : EntersInBounds enter := by
      intro p
      simp only [enter, Copy.under]
      split
      · exact ih p.weight ‹_› p rfl
      · exact inBounds_ok
    -- A copy only asks for lighter ones, so it comes to the same with all of them.
    have hagree : ∀ p : Copy, p.weight < q.weight → p.under enter = p.under enterFreely :=
      fun p hp => if_pos hp
    rw [q.under_enterFreely, ← (q.asks enterFreely).eq_of_agree hagree]
    exact enterOnce_inBounds hE q

/-! ## Finite trees of copies -/

/-- A copy that was typed: what came of it, and how many copies were typed for it, itself included. -/
structure TypedCopy where
  copy : Copy
  outcome : Typed (List Assign × Block) Unit
  copies : Nat

/-- The number of copies typed for all of a list. -/
def copiesOf : List TypedCopy → Nat
  | [] => 0
  | c :: calls => c.copies + copiesOf calls

/-- A way of typing copies that comes to the outcomes of a list. -/
def Answers (calls : List TypedCopy) (enter : EnterBody) : Prop :=
  ∀ c ∈ calls, c.copy.under enter = c.outcome

/-- The typing of a copy ends: it asks for finitely many copies, all of them lighter and with an end
themselves, and comes to its outcome once it has theirs. -/
inductive TypedCopy.Ends : TypedCopy → Prop where
  | intro {c : TypedCopy} (calls : List TypedCopy)
      (lighter : ∀ d ∈ calls, d.copy.weight < c.copy.weight)
      (ends : ∀ d ∈ calls, d.Ends)
      (outcome : ∀ enter, Answers calls enter → c.copy.under (enterOnce enter) = c.outcome)
      (copies : c.copies = copiesOf calls + 1) : c.Ends

/-- A computation that asks for finitely many copies, all of them lighter than `w` and with an end, and
comes to `r` once it has their outcomes.  For all of them `n` copies are typed. -/
def EndsAfter {α : Type} (w : Nat) (f : EnterBody → α) (r : α) (n : Nat) : Prop :=
  ∃ calls : List TypedCopy, (∀ c ∈ calls, c.copy.weight < w ∧ c.Ends)
    ∧ (∀ enter, Answers calls enter → f enter = r) ∧ n = copiesOf calls

/-- The outcome of a copy whose typing ends is that of the recursion without a bound. -/
theorem TypedCopy.Ends.outcome_eq {c : TypedCopy} (h : c.Ends) : c.copy.under enterFreely = c.outcome := by
  induction h with
  | intro calls _ _ houtcome _ ih =>
    rw [Copy.under_enterFreely]
    exact houtcome enterFreely ih

/-- A computation comes to at most one end: what the recursion without a bound makes of it. -/
theorem EndsAfter.eq {α : Type} {w n : Nat} {f : EnterBody → α} {r : α} (h : EndsAfter w f r n) :
    f enterFreely = r := by
  obtain ⟨calls, hcalls, hr, _⟩ := h
  exact hr enterFreely fun c hc => (hcalls c hc).2.outcome_eq

/-- Copies with an end that are asked for make a computation with an end. -/
private theorem Asks.endsAfter_of_lighter {α : Type} {w : Nat} {f : EnterBody → α}
    (hf : Asks enterFreely w f)
    (hlighter : ∀ q : Copy, q.weight < w → ∃ n, TypedCopy.Ends ⟨q, q.under enterFreely, n⟩) :
    ∃ n, EndsAfter w f (f enterFreely) n := by
  obtain ⟨qs, hqs, hf⟩ := hf
  -- Every copy in the list is typed with an end of its own.
  have htyped : ∃ calls : List TypedCopy, calls.map TypedCopy.copy = qs
      ∧ ∀ c ∈ calls, c.outcome = c.copy.under enterFreely ∧ c.Ends := by
    clear hf
    induction qs with
    | nil => exact ⟨[], rfl, fun _ hc => absurd hc List.not_mem_nil⟩
    | cons q qs ih =>
      obtain ⟨hq, hqs⟩ := List.forall_mem_cons.1 hqs
      obtain ⟨n, hn⟩ := hlighter q hq
      obtain ⟨calls, hcopies, hcalls⟩ := ih hqs
      refine ⟨⟨q, q.under enterFreely, n⟩ :: calls, ?_, List.forall_mem_cons.2 ⟨⟨rfl, hn⟩, hcalls⟩⟩
      rw [List.map_cons, hcopies]
  obtain ⟨calls, rfl, hcalls⟩ := htyped
  -- The ends of the copies are those of the computation.
  have hmem : ∀ c ∈ calls, c.copy ∈ calls.map TypedCopy.copy := fun c hc => List.mem_map_of_mem hc
  refine ⟨copiesOf calls, calls, fun c hc => ⟨hqs _ (hmem c hc), (hcalls c hc).2⟩,
    fun enter henter => hf enter fun q hq => ?_, rfl⟩
  -- The copies agree with their outcomes, which is all that the computation looks at.
  obtain ⟨c, hc, rfl⟩ := List.mem_map.1 hq
  rw [henter c hc, (hcalls c hc).1]

/-- The typing of every copy ends, with the outcome of the recursion without a bound. -/
theorem Copy.ends (q : Copy) : ∃ n, TypedCopy.Ends ⟨q, q.under enterFreely, n⟩ := by
  induction hn : q.weight using Nat.strongRecOn generalizing q with
  | _ n ih =>
    subst hn
    obtain ⟨m, calls, hcalls, houtcome, hm⟩ :=
      (q.asks enterFreely).endsAfter_of_lighter fun p hp => ih p.weight hp p rfl
    refine ⟨m + 1, .intro calls (fun c hc => (hcalls c hc).1) (fun c hc => (hcalls c hc).2)
      (fun enter henter => ?_) (congrArg (· + 1) hm)⟩
    rw [q.under_enterFreely]
    exact houtcome enter henter

/-- A computation that asks for finitely many copies ends. -/
private theorem Asks.endsAfter {α : Type} {w : Nat} {f : EnterBody → α} (hf : Asks enterFreely w f) :
    ∃ n, EndsAfter w f (f enterFreely) n :=
  hf.endsAfter_of_lighter fun q _ => q.ends

/-! ## Programs -/

/-- The level of the scope in front of every program: only the host's own functions have one. -/
theorem Host.level_entryScope (h : Host) : h.entryScope.1.level ≤ Host.achronal.length := by
  -- Values and the host's operations have level zero; only its functions are copied.
  have hglobals : ∀ (gs : List Global) (σ : Scope Entry) (next : Nat),
      (bindGlobals σ next gs).1.level = σ.level := by
    intro gs
    induction gs with
    | nil => exact fun _ _ => rfl
    | cons g gs ih =>
      intro σ next
      rw [bindGlobals, ih, Scope.level_define, Entry.level, Nat.zero_max]
  have hintrinsics : ∀ (ops : List Intrinsic) (σ : Scope Entry),
      (ops.foldl (fun sc op => sc.define op.name (.intrinsic op)) σ).level = σ.level := by
    intro ops
    induction ops with
    | nil => exact fun _ => rfl
    | cons op ops ih =>
      intro σ
      rw [List.foldl_cons, ih, Scope.level_define, Entry.level, Nat.zero_max]
  have hfunctions : ∀ σ : Scope Entry, σ.level = 0 →
      (Host.achronal.foldl bindHostFunction σ).level ≤ Host.achronal.length := by
    intro σ hσ
    simp only [Host.achronal, List.foldl_cons, List.foldl_nil, bindHostFunction,
      Scope.level_bindFunction, Block.definitions, stmtsDefinitions, Stmt.definitions, hσ]
    decide
  -- The global values and the operations of the host come first and add no level.
  refine hfunctions _ ?_
  rw [hintrinsics, hglobals]
  rfl

/-- Typing a program ends, for every program and every host.  It asks for finitely many copies of
functions, nested along falling levels, and comes to a success or to one error, which is an error of the
program and no lack of levels.  What a function captures is what was visible in front of its definition,
and everything in it is of a lower level than the function, so the function itself is not. -/
theorem Block.annotate_ends (h : Host) (b : Block) :
    (∃ r n, EndsAfter (b.definitions + Host.achronal.length)
        (fun enter => b.annotateIn enter h.entryScope.1.push h.entryScope.2) r n
      ∧ (r.result = .ok () ∧ b.annotate h = (r.tree, none)
        ∨ ∃ e, r.result = .error e ∧ e.cause ≠ .tooDeep ∧ b.annotate h = (r.tree, some e)))
    ∧ ∀ (σ : Scope Entry) (f : Text) (ps : List Param) (t : Block), ∃ κ,
      (bindFunction σ f ps t).lookup f = some (.function ps t κ)
        ∧ (∀ n, (⟨κ, []⟩ : Scope Entry).lookup n = σ.lookup n)
        ∧ ∀ n e, (⟨κ, []⟩ : Scope Entry).lookup n = some e → e.level < (Entry.function ps t κ).level := by
  refine ⟨?_, bindFunction_captures⟩
  -- The levels of the program and of the host together are enough.
  have hlevel : h.entryScope.1.push.level + b.definitions ≤ b.definitions + Host.achronal.length := by
    have := h.level_entryScope
    rw [Scope.level_push]
    omega
  -- The block asks for copies of lower levels only, so the computation has an end.
  have hasks := Block.annotateIn_asks enterFreely h.entryScope.2 b hlevel
  obtain ⟨n, hends⟩ := hasks.endsAfter
  refine ⟨_, n, hends, ?_⟩
  -- The levels that programs are allowed are as good as no bound.
  have hfree : b.annotateIn (enterWithin (b.definitions + Host.achronal.length)) h.entryScope.1.push
      h.entryScope.2 = b.annotateIn enterFreely h.entryScope.1.push h.entryScope.2 :=
    hasks.eq_of_agree fun q hq => q.under_enterWithin hq
  -- No lack of levels is reported without a bound, and so none is with the bound.
  have hbounds := Block.annotateIn_inBounds enterFreely_inBounds h.entryScope.1.push h.entryScope.2 b
  simp only [Block.annotate, hfree]
  generalize b.annotateIn enterFreely h.entryScope.1.push h.entryScope.2 = r at hbounds ⊢
  cases hr : r.result with
  | ok u => exact .inl ⟨rfl, rfl⟩
  | error e => exact .inr ⟨e, rfl, hbounds e hr, rfl⟩

end AisScript
