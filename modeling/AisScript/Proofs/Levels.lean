import AisScript.Proofs.Outcomes

/-!
# Levels of functions

A call is typed by typing a private copy of the called function in the scope that the function has
captured, and the copy may hold calls of its own.  Nothing bounds this recursion but the scopes: what a
function captures was bound before it.  So every function has a *level*, above those of all functions it
captures and of those its body can define, and the calls in a copy are of lower levels than the copy.

Typing a tree asks for finitely many copies, all of them below a bound that the scope and the definitions
in the tree give.  So a number of levels above that bound is as good as none.

* `Entry.level`, `Scope.level`   levels
* `bindFunction_captures`        what a function captures is below it
* `Asks`                         computations that ask for finitely many copies below a bound
* `Block.annotateIn_asks`        typing a block is one
* `enterOnce`, `enterFreely`     one step of the recursion, and the recursion without a bound
* `Copy.under_enterFreely`       the latter is the fixed point of the former
-/

namespace AisScript

/-! ## Levels -/

mutual

/-- The level of what a name stands for.  A copy of a function binds nothing above the level of the
function. -/
def Entry.level : Entry → Nat
  | .function _ body captured => frameLevel captured + body.definitions + 1
  | .value _ | .bitfield _ | .intrinsic _ => 0

/-- The highest level in a frame. -/
def frameLevel : List (Text × Entry) → Nat
  | [] => 0
  | x :: xs => max (boundLevel x) (frameLevel xs)

/-- The level of a bound name. -/
def boundLevel : Text × Entry → Nat
  | (_, e) => e.level

end

namespace Scope

variable {σ : Scope Entry}

/-- The highest level in a scope. -/
def level (σ : Scope Entry) : Nat := frameLevel σ.snapshot.inner

/-- What a frame binds is not above the frame. -/
private theorem level_le_of_lookup_frame {f : List (Text × Entry)} {n : Text} {e : Entry}
    (h : f.lookup n = some e) : e.level ≤ frameLevel f := by
  induction f with
  | nil => exact nomatch h
  | cons x xs ih =>
    obtain ⟨m, e'⟩ := x
    rw [List.lookup_cons] at h
    rw [frameLevel, boundLevel]
    split at h
    · cases h
      exact Nat.le_max_left _ _
    · exact Nat.le_trans (ih h) (Nat.le_max_right _ _)

/-- What a scope shows is not above the scope. -/
theorem level_le_of_lookup {n : Text} {e : Entry} (h : σ.lookup n = some e) : e.level ≤ σ.level :=
  level_le_of_lookup_frame ((σ.lookup_snapshot n).trans h)

/-- An opened block has the same level. -/
@[simp] theorem level_push (σ : Scope Entry) : σ.push.level = σ.level := rfl

/-- A single frame has its own level. -/
@[simp] theorem level_single (f : List (Text × Entry)) : Scope.level ⟨f, []⟩ = frameLevel f := by
  simp only [level, snapshot, List.flatten_cons, List.flatten_nil, List.append_nil]

/-- A definition raises a scope to the level of what it binds. -/
@[simp] theorem level_define (σ : Scope Entry) (n : Text) (e : Entry) :
    (σ.define n e).level = max e.level σ.level := rfl

/-- The definition of a function raises a scope by one level and one for each definition in the body. -/
theorem level_bindFunction (σ : Scope Entry) (n : Text) (ps : List Param) (b : Block) :
    (bindFunction σ n ps b).level = σ.level + b.definitions + 1 := by
  have hlevel : (Entry.function ps b σ.snapshot.inner).level = σ.level + b.definitions + 1 := rfl
  rw [bindFunction, level_define, hlevel]
  omega

/-- Members of enumerations have no level. -/
private theorem level_bindMembers (σ : Scope Entry) (next : Nat) (ms : List EnumMember) :
    (bindMembers σ next ms).1.level = σ.level := by
  induction ms generalizing σ next with
  | nil => rfl
  | cons m ms ih => rw [bindMembers, ih, level_define, Entry.level, Nat.zero_max]

/-- Enumerations have no level. -/
@[simp] theorem level_bindEnum (σ : Scope Entry) (next : Nat) (d : Enumeration) :
    (bindEnum σ next d).1.level = σ.level := by
  rw [bindEnum, level_bindMembers, level_define, Entry.level, Nat.zero_max]

end Scope

/-- What a function captures is what was visible in front of its definition, and all of it is below the
function. -/
theorem bindFunction_captures (σ : Scope Entry) (f : Text) (ps : List Param) (b : Block) :
    ∃ κ, (bindFunction σ f ps b).lookup f = some (.function ps b κ)
      ∧ (∀ n, (⟨κ, []⟩ : Scope Entry).lookup n = σ.lookup n)
      ∧ ∀ n e, (⟨κ, []⟩ : Scope Entry).lookup n = some e → e.level < (Entry.function ps b κ).level := by
  refine ⟨σ.snapshot.inner, σ.lookup_define_self f _, fun n => ?_, fun n e he => ?_⟩
  · rw [Scope.lookup_single, Scope.lookup_snapshot]
  · have hle := Scope.level_le_of_lookup he
    rw [Scope.level_single] at hle
    rw [Entry.level]
    omega

/-! ## Levels behind typed trees -/

section Behind

variable {enter : EnterBody} {σ τ : Scope Entry} {next : Nat}

/-- Assignments have no level. -/
theorem Assign.level_behind {a : Assign} (h : (a.annotate enter σ next).result = .ok τ) :
    τ.level = σ.level := by
  have hleads := Assign.leads_of_annotate h
  unfold Assign.Leads at hleads
  split at hleads
  · obtain ⟨b, rfl⟩ := hleads
    rw [Scope.level_define, Entry.level, Nat.zero_max]
  · rw [hleads]

/-- Assignments in order have no level. -/
theorem annotateAssigns_level_behind {as : List Assign}
    (h : (annotateAssigns enter σ next as).result = .ok τ) : τ.level = σ.level := by
  induction as generalizing σ next with
  | nil =>
    cases h
    rfl
  | cons a as ih =>
    simp only [annotateAssigns] at h
    split at h
    · cases h
    · rename_i ha
      exact (ih h).trans (Assign.level_behind ha)

/-- A clause has no level. -/
theorem annotateClause_level_behind {a : Option Assign}
    (h : (annotateClause enter σ next a).result = .ok τ) : τ.level = σ.level := by
  cases a with
  | none =>
    cases h
    rfl
  | some a => exact Assign.level_behind h

/-- A statement raises the level of its scope by at most one for each definition in it. -/
theorem Stmt.level_behind {s : Stmt} (h : (s.annotate enter σ next).result = .ok τ) :
    τ.level ≤ σ.level + s.definitions := by
  -- What a statement leads to is known without typing: assignments and definitions change the scope.
  have hleads := Stmt.leads_of_annotate h
  cases s with
  | assign a => exact Nat.le_of_eq (Assign.level_behind h)
  -- A function is one level above all that it captures, and counts as one definition.
  | funcDef sp n ns ps b =>
    cases hleads
    rw [Scope.level_bindFunction]
    simp only [Stmt.definitions]
    omega
  -- Types and members of enumerations are of level zero.
  | bitfieldDef sp d =>
    cases hleads
    rw [Scope.level_define, Entry.level, Nat.zero_max]
    exact Nat.le_add_right _ _
  | enumDef sp d =>
    obtain ⟨_, rfl⟩ := hleads
    rw [Scope.level_bindEnum]
    exact Nat.le_add_right _ _
  | _ =>
    -- All other statements keep the scope.
    cases hleads
    exact Nat.le_add_right _ _

end Behind

/-! ## Copies -/

/-- The private copy of a called function, in front of its typing: what the function has captured, the
first free number, the bindings of its parameters and its body. -/
structure Copy where
  captured : Scope Entry
  next : Nat
  binds : List Assign
  body : Block

namespace Copy

/-- What `enter` makes of a copy. -/
def under (q : Copy) (enter : EnterBody) : Typed (List Assign × Block) Unit :=
  enter q.captured q.next q.binds q.body

/-- The bound on the levels in a copy. -/
def weight (q : Copy) : Nat := q.captured.level + q.body.definitions

end Copy

/-- One step of the recursion: a copy is typed, and `enter` types the copies it asks for. -/
def enterOnce (enter : EnterBody) : EnterBody := fun captured next binds body =>
  let a := annotateAssigns enter captured.push next binds
  match a.result with
  | .error e => { tree := (a.tree, body), next := a.next, result := .error e }
  | .ok scope => (body.annotateIn enter scope a.next).wrap fun b => (a.tree, b)

/-- A further level of typing is one step more. -/
private theorem enterWithin_succ (depth : Nat) :
    enterWithin (depth + 1) = enterOnce (enterWithin depth) := rfl

/-- The recursion without a bound: every copy is allowed as many levels as its weight asks for. -/
def enterFreely : EnterBody := fun captured next binds body =>
  enterWithin (captured.level + body.definitions + 1) captured next binds body

/-! ## Asking for copies -/

/-- A computation that asks `enter₀` for finitely many copies, all lighter than `w`: it does the same with
everything that makes of these copies what `enter₀` makes of them. -/
def Asks {α : Type} (enter₀ : EnterBody) (w : Nat) (f : EnterBody → α) : Prop :=
  ∃ qs : List Copy, (∀ q ∈ qs, q.weight < w)
    ∧ ∀ enter, (∀ q ∈ qs, q.under enter = q.under enter₀) → f enter = f enter₀

namespace Asks

variable {α β γ δ : Type} {enter₀ : EnterBody} {w : Nat}
  {f : EnterBody → α} {g : EnterBody → β} {h : EnterBody → γ} {k : EnterBody → δ}

/-- What does not depend on the way of typing copies asks for nothing. -/
theorem nothing (hf : ∀ enter, f enter = f enter₀) : Asks enter₀ w f :=
  ⟨[], fun _ hq => absurd hq List.not_mem_nil, fun enter _ => hf enter⟩

/-- A single copy is asked for. -/
theorem single {q : Copy} (hq : q.weight < w) : Asks enter₀ w q.under := by
  refine ⟨[q], fun q' hq' => ?_, fun enter henter => henter q (List.mem_singleton.2 rfl)⟩
  rw [List.mem_singleton.1 hq']
  exact hq

/-- Two computations, one behind the other. -/
theorem both (hf : Asks enter₀ w f) (hg : Asks enter₀ w g) :
    Asks enter₀ w fun enter => (f enter, g enter) := by
  obtain ⟨qs, hqs, hf⟩ := hf
  obtain ⟨rs, hrs, hg⟩ := hg
  refine ⟨qs ++ rs, List.forall_mem_append.2 ⟨hqs, hrs⟩, fun enter henter => ?_⟩
  obtain ⟨hq, hr⟩ := List.forall_mem_append.1 henter
  exact Prod.ext (hf enter hq) (hg enter hr)

/-- What is determined by a computation asks for the same copies. -/
theorem step (hf : Asks enter₀ w f) (hk : ∀ enter, f enter = f enter₀ → k enter = k enter₀) :
    Asks enter₀ w k := by
  obtain ⟨qs, hqs, hf⟩ := hf
  exact ⟨qs, hqs, fun enter henter => hk enter (hf enter henter)⟩

/-- What is determined by two computations. -/
private theorem step₂ (hf : Asks enter₀ w f) (hg : Asks enter₀ w g)
    (hk : ∀ enter, f enter = f enter₀ → g enter = g enter₀ → k enter = k enter₀) : Asks enter₀ w k :=
  (hf.both hg).step fun enter he => hk enter (congrArg Prod.fst he) (congrArg Prod.snd he)

/-- What is determined by three computations. -/
private theorem step₃ (hf : Asks enter₀ w f) (hg : Asks enter₀ w g) (hh : Asks enter₀ w h)
    (hk : ∀ enter, f enter = f enter₀ → g enter = g enter₀ → h enter = h enter₀ → k enter = k enter₀) :
    Asks enter₀ w k :=
  (hf.both hg).step₂ hh fun enter he => hk enter (congrArg Prod.fst he) (congrArg Prod.snd he)

/-- Two ways of typing copies that agree below a bound give the same. -/
theorem eq_of_agree (hf : Asks enter₀ w f) {enter : EnterBody}
    (h : ∀ q : Copy, q.weight < w → q.under enter = q.under enter₀) : f enter = f enter₀ := by
  obtain ⟨qs, hqs, hf⟩ := hf
  exact hf enter fun q hq => h q (hqs q hq)

end Asks

section Trees

variable (enter₀ : EnterBody) {w : Nat}

/-- A call asks for a copy of the function, which is lighter than the scope of the call. -/
private theorem callTyped_asks {σ : Scope Entry} (hw : σ.level ≤ w) (next : Nat) (i : ExprInfo)
    (n : Text) (ns : Span) (args : List Expr) (t : Target) (types : List Ty) :
    Asks enter₀ w fun enter => callTyped enter σ next i n ns args t types := by
  -- Only a script function is entered: any other entry asks for nothing.
  cases hn : σ.lookup n with
  | none =>
    refine Asks.nothing fun enter => ?_
    simp only [callTyped, hn]
  | some entry =>
    cases entry with
    | function ps body κ =>
      -- The function is visible, so what it captured is of a lower level than the scope.
      have hlevel := Scope.level_le_of_lookup hn
      have hq : (Copy.mk ⟨κ, []⟩ next (bindArguments ps args) body).weight < w := by
        rw [Entry.level] at hlevel
        simp only [Copy.weight, Scope.level_single]
        omega
      refine (Asks.single hq).step fun enter henter => ?_
      simp only [Copy.under] at henter
      simp only [callTyped, hn, henter]
    | _ =>
      refine Asks.nothing fun enter => ?_
      simp only [callTyped, hn]

mutual

/-- Typing an expression asks for copies below the level of its scope. -/
private theorem Expr.annotate_asks {σ : Scope Entry} (hw : σ.level ≤ w) (next : Nat) : (e : Expr) →
    Asks enter₀ w fun enter => e.annotate enter σ next
  | .const _ _ => Asks.nothing fun _ => rfl
  | .var _ _ _ => Asks.nothing fun _ => rfl
  | .binary i op l r =>
    (Expr.annotate_asks hw next l).step₂
      (Expr.annotate_asks hw (l.annotate enter₀ σ next).asValue.next r) fun enter hl hr => by
        simp only [Expr.annotate, hl, hr]
  | .unary i op x =>
    (Expr.annotate_asks hw next x).step fun enter hx => by
      simp only [Expr.annotate, hx]
  | .call i n ns args t => by
    -- The parts of a call are its arguments and the copy that is typed for it.
    cases ha : (annotateArgs enter₀ σ next args).result with
    -- An argument that is refused keeps the call from asking.
    | error e =>
      refine (annotateArgs_asks hw next args).step fun enter hargs => ?_
      simp only [Expr.annotate, hargs, ha]
    | ok types =>
      refine (annotateArgs_asks hw next args).step₂
        (callTyped_asks enter₀ hw (annotateArgs enter₀ σ next args).next i n ns
          (annotateArgs enter₀ σ next args).tree t types) fun enter hargs hcall => ?_
      simp only [Expr.annotate, hargs, ha, hcall]
  | .member i a b n ns =>
    (Expr.annotate_asks hw next b).step fun enter hb => by
      simp only [Expr.annotate, hb]
  | .query i k op u x c =>
    -- Where the second and the third operand start from is fixed by `enter₀`.
    let a := annotateUnit enter₀ σ next u
    let b := annotateOperand enter₀ σ a.next x
    (annotateUnit_asks hw next u).step₃ (annotateOperand_asks hw a.next x)
      (annotateOperand_asks hw b.next c) fun enter hu hx hc => by
        simp only [a, b] at hx hc
        simp only [Expr.annotate, hu, hx, hc]

/-- Typing arguments asks for copies below the level of their scope. -/
private theorem annotateArgs_asks {σ : Scope Entry} (hw : σ.level ≤ w) (next : Nat) : (es : List Expr) →
    Asks enter₀ w fun enter => annotateArgs enter σ next es
  | [] => Asks.nothing fun _ => rfl
  | e :: es =>
    (Expr.annotate_asks hw next e).step₂
      (annotateArgs_asks hw (e.annotate enter₀ σ next).asValue.next es) fun enter he hes => by
        simp only [annotateArgs, he, hes]

/-- Typing the unit of a query asks for copies below the level of its scope. -/
private theorem annotateUnit_asks {σ : Scope Entry} (hw : σ.level ≤ w) (next : Nat) : (e : Option Expr) →
    Asks enter₀ w fun enter => annotateUnit enter σ next e
  | none => Asks.nothing fun _ => rfl
  | some e =>
    (Expr.annotate_asks hw next e).step fun enter he => by
      simp only [annotateUnit, he]

/-- Typing an operand of a query asks for copies below the level of its scope. -/
private theorem annotateOperand_asks {σ : Scope Entry} (hw : σ.level ≤ w) (next : Nat) : (e : Option Expr) →
    Asks enter₀ w fun enter => annotateOperand enter σ next e
  | none => Asks.nothing fun _ => rfl
  | some e =>
    (Expr.annotate_asks hw next e).step fun enter he => by
      simp only [annotateOperand, he]

end

/-- Typing an assignment asks for copies below the level of its scope. -/
private theorem Assign.annotate_asks {σ : Scope Entry} (hw : σ.level ≤ w) (next : Nat) (a : Assign) :
    Asks enter₀ w fun enter => a.annotate enter σ next :=
  (Expr.annotate_asks enter₀ hw next a.value).step fun enter hv => by
    simp only [Assign.annotate, hv]

/-- Typing assignments asks for copies below the level of their scope. -/
private theorem annotateAssigns_asks {σ : Scope Entry} (hw : σ.level ≤ w) (next : Nat)
    (as : List Assign) : Asks enter₀ w fun enter => annotateAssigns enter σ next as := by
  -- By induction on the list: a refused assignment ends it, and an accepted one keeps the level.
  induction as generalizing σ next with
  | nil => exact Asks.nothing fun _ => rfl
  | cons a as ih =>
    have ha := Assign.annotate_asks enter₀ hw next a
    cases hr : (a.annotate enter₀ σ next).result with
    | error e =>
      refine ha.step fun enter ha => ?_
      simp only [annotateAssigns, ha, hr]
    | ok τ =>
      have hτ : τ.level ≤ w := Nat.le_trans (Nat.le_of_eq (Assign.level_behind hr)) hw
      refine ha.step₂ (ih hτ (a.annotate enter₀ σ next).next) fun enter ha has => ?_
      simp only [annotateAssigns, ha, hr, has]

/-- Typing a clause asks for copies below the level of its scope. -/
private theorem annotateClause_asks {σ : Scope Entry} (hw : σ.level ≤ w) (next : Nat)
    (a : Option Assign) : Asks enter₀ w fun enter => annotateClause enter σ next a := by
  cases a with
  | none => exact Asks.nothing fun _ => rfl
  | some a =>
    refine (Assign.annotate_asks enter₀ hw next a).step fun enter ha => ?_
    simp only [annotateClause, ha]

/-- Typing the test of a loop header asks for copies below the level of its scope. -/
private theorem annotateTest_asks {σ : Scope Entry} (hw : σ.level ≤ w) (next : Nat)
    (c : Option Expr) : Asks enter₀ w fun enter => annotateTest enter σ next c := by
  cases c with
  | none => exact Asks.nothing fun _ => rfl
  | some c =>
    refine (Expr.annotate_asks enter₀ hw next c).step fun enter hc => ?_
    simp only [annotateTest, hc]

/-- Typing a member assignment asks for copies below the level of its scope. -/
private theorem annotateMemberAssign_asks {σ : Scope Entry} (hw : σ.level ≤ w) (next : Nat) (sp : Span)
    (t v : Expr) : Asks enter₀ w fun enter => annotateMemberAssign enter σ next sp t v := by
  by_cases ht : ∃ i base m ms, t = .member i .dotted base m ms
  · obtain ⟨i, base, m, ms, rfl⟩ := ht
    refine (Expr.annotate_asks enter₀ hw next base).step₂
      (Expr.annotate_asks enter₀ hw (base.annotate enter₀ σ next).asValue.next v) fun enter hb hv => ?_
    simp only [annotateMemberAssign, hb, hv]
  · refine Asks.nothing fun enter => ?_
    unfold annotateMemberAssign
    split
    · exact absurd ⟨_, _, _, _, rfl⟩ ht
    · rfl

mutual

/-- Typing a statement asks for copies below the level of its scope and the definitions in it. -/
private theorem Stmt.annotate_asks {σ : Scope Entry} (next : Nat) : (s : Stmt) → σ.level + s.definitions ≤ w →
    Asks enter₀ w fun enter => s.annotate enter σ next
  -- A block asks for what its statements ask for.
  | .block b, hw => by
    have hblock : σ.push.level + b.definitions ≤ w := hw
    refine (Block.annotateIn_asks next b hblock).step fun enter hb => ?_
    simp only [Stmt.annotate, hb]
  | .eval _ e, hw =>
    (Expr.annotate_asks enter₀ (Nat.le_of_add_right_le hw) next e).step fun enter he => by
      simp only [Stmt.annotate, he]
  | .assign a, hw =>
    (Assign.annotate_asks enter₀ (Nat.le_of_add_right_le hw) next a).step fun enter ha => by
      simp only [Stmt.annotate, ha]
  | .assignMember sp t v, hw =>
    (annotateMemberAssign_asks enter₀ (Nat.le_of_add_right_le hw) next sp t v).step fun enter ha => by
      simp only [Stmt.annotate, ha]
  | .cond sp c t f, hw => by
    have hlevel : σ.level ≤ w := Nat.le_of_add_right_le hw
    -- The definitions of both branches are among those of the statement.
    have hthen : σ.push.level + t.definitions ≤ w := by
      cases f <;> simp only [Stmt.definitions, Scope.level_push] at hw ⊢ <;> omega
    have helse : ∀ b, f = some b → σ.level + b.definitions ≤ w := by
      rintro b rfl
      simp only [Stmt.definitions] at hw
      omega
    let a := (c.annotate enter₀ σ next).asCondition
    refine (Expr.annotate_asks enter₀ hlevel next c).step₃ (Block.annotateIn_asks a.next t hthen)
      (annotateElse_asks (t.annotateIn enter₀ σ.push a.next).next f helse) fun enter hc ht hf => ?_
    simp only [a] at ht hf
    simp only [Stmt.annotate, hc, ht, hf]
  | .loop sp c b, hw => by
    -- The frame of the body is of the level that the scope is of.
    have hbody : σ.push.level + b.definitions ≤ w := hw
    refine (Expr.annotate_asks enter₀ (Nat.le_of_add_right_le hw) next c).step₂
      (Block.annotateIn_asks (c.annotate enter₀ σ next).asCondition.next b hbody) fun enter hc hb => ?_
    simp only [Stmt.annotate, hc, hb]
  | .forLoop sp i c st b, hw => by
    -- The scopes of the test, the step and the body are those that `enter₀` leads to.
    have hlevel : σ.push.level ≤ w := Nat.le_of_add_right_le hw
    have hi := annotateClause_asks enter₀ hlevel next i
    cases hir : (annotateClause enter₀ σ.push next i).result with
    | error e =>
      refine hi.step fun enter hi => ?_
      simp only [Stmt.annotate, hi, hir]
    | ok τ =>
      have hτ : τ.level ≤ w := Nat.le_trans (Nat.le_of_eq (annotateClause_level_behind hir)) hlevel
      let a := annotateClause enter₀ σ.push next i
      let d := annotateTest enter₀ τ a.next c
      have hc := annotateTest_asks enter₀ hτ a.next c
      have hst := annotateClause_asks enter₀ hτ d.next st
      cases hsr : (annotateClause enter₀ τ d.next st).result with
      | error e =>
        refine hi.step₃ hc hst fun enter hi hc hst => ?_
        simp only [a, d] at hc hst hsr
        simp only [Stmt.annotate, hi, hir, hc, hst, hsr]
      | ok υ =>
        -- The body comes behind both clauses, which keep the level.
        have hbody : υ.push.level + b.definitions ≤ w := by
          rw [Scope.level_push, annotateClause_level_behind hsr, annotateClause_level_behind hir]
          exact hw
        have hb := Block.annotateIn_asks (annotateClause enter₀ τ d.next st).next b hbody
        refine (hi.both hc).step₃ hst hb fun enter hic hst hb => ?_
        have hi := congrArg Prod.fst hic
        have hc := congrArg Prod.snd hic
        simp only [a, d] at hi hc hst hsr hb
        simp only [Stmt.annotate, hi, hir, hc, hst, hsr, hb]
  | .ret _ v, hw =>
    (Expr.annotate_asks enter₀ (Nat.le_of_add_right_le hw) next v).step fun enter hv => by
      simp only [Stmt.annotate, hv]
  | .leave _, _ | .code _ _, _ | .bitfieldDef _ _, _ | .enumDef _ _, _ | .require _ _, _ =>
    Asks.nothing fun _ => rfl
  | .funcDef _ _ _ _ _, _ => Asks.nothing fun _ => rfl

/-- Typing statements asks for copies below the level of their scope and the definitions in them. -/
private theorem annotateStmts_asks {σ : Scope Entry} (next : Nat) : (ss : List Stmt) →
    σ.level + stmtsDefinitions ss ≤ w → Asks enter₀ w fun enter => annotateStmts enter σ next ss
  | [], _ => Asks.nothing fun _ => rfl
  | s :: ss, hw => by
    -- Its definitions are among those of the list.
    have hs : σ.level + s.definitions ≤ w := by
      simp only [stmtsDefinitions] at hw
      omega
    have ha := Stmt.annotate_asks next s hs
    cases hr : (s.annotate enter₀ σ next).result with
    | error e =>
      refine ha.step fun enter ha => ?_
      simp only [annotateStmts, ha, hr]
    | ok τ =>
      -- A definition moves from those ahead into the scope, so the sum does not grow.
      have hss : τ.level + stmtsDefinitions ss ≤ w := by
        have hτ := Stmt.level_behind hr
        simp only [stmtsDefinitions] at hw
        omega
      refine ha.step₂ (annotateStmts_asks (s.annotate enter₀ σ next).next ss hss) fun enter ha has => ?_
      simp only [annotateStmts, ha, hr, has]

/-- Typing a block asks for copies below the level of its scope and the definitions in it. -/
theorem Block.annotateIn_asks {σ : Scope Entry} (next : Nat) : (b : Block) →
    σ.level + b.definitions ≤ w → Asks enter₀ w fun enter => b.annotateIn enter σ next
  | .mk os ss sp, hw => by
    -- Statements come behind the declarations of the block, which keep the level.
    have ho := annotateAssigns_asks enter₀ (Nat.le_of_add_right_le hw) next os
    cases hr : (annotateAssigns enter₀ σ next os).result with
    | error e =>
      refine ho.step fun enter ho => ?_
      simp only [Block.annotateIn, ho, hr]
    | ok τ =>
      have hss : τ.level + stmtsDefinitions ss ≤ w := by
        rw [annotateAssigns_level_behind hr]
        exact hw
      refine ho.step₂ (annotateStmts_asks (annotateAssigns enter₀ σ next os).next ss hss)
        fun enter ho hss => ?_
      simp only [Block.annotateIn, ho, hr, hss]

/-- Typing an else block asks for copies below the level of its scope and the definitions in it. -/
private theorem annotateElse_asks {σ : Scope Entry} (next : Nat) : (b : Option Block) →
    (∀ x, b = some x → σ.level + x.definitions ≤ w) →
      Asks enter₀ w fun enter => annotateElse enter σ next b
  | none, _ => Asks.nothing fun _ => rfl
  | some b, hw => by
    have hblock : σ.push.level + b.definitions ≤ w := hw b rfl
    refine (Block.annotateIn_asks next b hblock).step fun enter hb => ?_
    simp only [annotateElse, hb]

end

/-- Typing a copy asks for lighter copies only. -/
theorem Copy.asks (q : Copy) : Asks enter₀ q.weight fun enter => q.under (enterOnce enter) := by
  -- The frame of the copy is of the level of the captured scope.
  have hlevel : q.captured.push.level ≤ q.weight := Nat.le_add_right _ _
  have ha := annotateAssigns_asks enter₀ hlevel q.next q.binds
  cases hr : (annotateAssigns enter₀ q.captured.push q.next q.binds).result with
  | error e =>
    refine ha.step fun enter ha => ?_
    simp only [Copy.under, enterOnce, ha, hr]
  | ok τ =>
    -- The body comes behind the parameters, and its definitions are in the weight.
    have hbody : τ.level + q.body.definitions ≤ q.weight := by
      rw [annotateAssigns_level_behind hr]
      exact Nat.le_refl _
    refine ha.step₂ (Block.annotateIn_asks enter₀
      (annotateAssigns enter₀ q.captured.push q.next q.binds).next q.body hbody) fun enter ha hb => ?_
    simp only [Copy.under, enterOnce, ha, hr, hb]

end Trees

/-! ## The recursion without a bound -/

/-- A copy is allowed one level more than its weight. -/
private theorem Copy.under_enterFreely_eq (q : Copy) :
    q.under enterFreely = q.under (enterWithin (q.weight + 1)) := by
  simp only [Copy.under, enterFreely, Copy.weight]

/-- A number of levels above the weight of a copy is as good as no bound. -/
theorem Copy.under_enterWithin {q : Copy} {depth : Nat} (hd : q.weight < depth) :
    q.under (enterWithin depth) = q.under enterFreely := by
  -- By induction on the weight: one step asks for lighter copies only, and on those both agree.
  induction hn : q.weight using Nat.strongRecOn generalizing q depth with
  | _ n ih =>
    subst hn
    -- Below the weight, the induction hypothesis applies for any number of levels left.
    have hlighter : ∀ d, q.weight ≤ d → ∀ p : Copy, p.weight < q.weight →
        p.under (enterWithin d) = p.under enterFreely :=
      fun d hd p hp => ih p.weight hp (Nat.lt_of_lt_of_le hp hd) rfl
    -- One more level types this copy as it is typed freely.
    have hstep : ∀ d, q.weight ≤ d → q.under (enterWithin (d + 1)) = q.under (enterOnce enterFreely) := by
      intro d hd
      rw [enterWithin_succ]
      exact (q.asks enterFreely).eq_of_agree (hlighter d hd)
    obtain ⟨d, rfl⟩ := Nat.exists_eq_add_of_lt hd
    rw [q.under_enterFreely_eq, hstep q.weight (Nat.le_refl _)]
    exact hstep (q.weight + d) (Nat.le_add_right _ _)

/-- The recursion without a bound is the fixed point of its step. -/
theorem Copy.under_enterFreely (q : Copy) : q.under enterFreely = q.under (enterOnce enterFreely) := by
  rw [q.under_enterFreely_eq, enterWithin_succ]
  exact (q.asks enterFreely).eq_of_agree fun p hp => p.under_enterWithin hp

end AisScript
