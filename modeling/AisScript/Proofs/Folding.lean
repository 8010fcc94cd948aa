import AisScript.Proofs.Semantics
import AisScript.Proofs.Settled

/-!
# Folded loops do what loops do

Expansion brings a loop into a form in which everything that may hold calls stands in the loop's body:
a condition becomes a guard that leaves the loop when it fails, and a step becomes the last statement of
the body.  Here the change of form is told apart from the expansion of calls, and is compared with the
loop as it was written.

The comparison leaves open what evaluating does: an expression may give any value, have any effects and
change any variable, in many ways or in none.  Variables are told apart by their bindings.  Executions are
derived by rules, one for each way in which a statement can come to an end; the turns of a loop are
described on their own, and loops of both forms are shown to take the same turns.

* `World`, `Executes`         what programs run in, and their executions
* `Turning`                   the turns of a loop: its test, its body, its step
* `executes_loop_iff`, `executes_forLoop_iff`   executions of loops are turns
* `Stmt.folded`, `Stmt.expandInside`            the change of form, and the expansion of what it gives
* `loops_folded`              folded loops have the executions of the loops
-/

namespace AisScript

/-! ## Worlds -/

/-- What programs run in.  What comes of evaluating an expression, of assigning to a member and of
passed-through code is left open, also what it does to the variables and to the host; a literal is only
its value. -/
structure World where
  Value : Type
  Effect : Type
  /-- What the host keeps, besides the variables of the program. -/
  Host : Type
  literal : Literal → Value
  truth : Value → Bool
  /-- An expression that is no literal may come to a value, with effects and another state behind it. -/
  evaluates : Expr → (Key → Value) × Host → Value → List Effect → (Key → Value) × Host → Prop
  /-- A value as a variable keeps it. -/
  kept : AssignInfo → Value → Value
  assignsMember : Expr → Value → (Key → Value) × Host → List Effect → (Key → Value) × Host → Prop
  performs : Text → (Key → Value) × Host → List Effect → (Key → Value) × Host → Prop
  truth_one : truth (literal (.int 1)) = true

/-- A world in which all that happens is that code is passed through. -/
example : Nonempty World :=
  ⟨{ Value := Literal, Effect := Text, Host := Unit, literal := id, truth := (· == .int 1)
     evaluates := fun _ _ _ _ _ => False, kept := fun _ v => v
     assignsMember := fun _ _ _ _ _ => False
     performs := fun t σ fx σ' => fx = [t] ∧ σ' = σ
     truth_one := by decide }⟩

namespace World

variable (W : World)

/-- The values of all variables, told apart by their bindings, and what the host keeps. -/
abbrev Store : Type := (Key → W.Value) × W.Host

/-- The evaluation of an expression. -/
inductive Evaluates : Expr → W.Store → W.Value → List W.Effect → W.Store → Prop where
  | literal {i : ExprInfo} {l : Literal} {σ : W.Store} : Evaluates (.const i l) σ (W.literal l) [] σ
  | other {e : Expr} {σ σ' : W.Store} {v : W.Value} {fx : List W.Effect} (he : ∀ i l, e ≠ .const i l)
      (h : W.evaluates e σ v fx σ') : Evaluates e σ v fx σ'

/-- The evaluation of a test that may be absent; an absent test holds. -/
inductive Tests : Option Expr → W.Store → Bool → List W.Effect → W.Store → Prop where
  | absent {σ : W.Store} : Tests none σ true [] σ
  | some {e : Expr} {σ σ' : W.Store} {v : W.Value} {fx : List W.Effect} (h : W.Evaluates e σ v fx σ') :
      Tests (some e) σ (W.truth v) fx σ'

/-- An assignment changes the variable that its binding tells. -/
inductive Assigns : Assign → W.Store → List W.Effect → W.Store → Prop where
  | mk {i : AssignInfo} {e : Expr} {σ σ' : W.Store} {v : W.Value} {fx : List W.Effect}
      (h : W.Evaluates e σ v fx σ') :
      Assigns (.mk i e) σ fx (fun k => if k = keyOf i.name i.binding then W.kept i v else σ'.1 k, σ'.2)

/-- A clause of a loop header that may be absent. -/
inductive Clause : Option Assign → W.Store → List W.Effect → W.Store → Prop where
  | absent {σ : W.Store} : Clause none σ [] σ
  | some {a : Assign} {σ σ' : W.Store} {fx : List W.Effect} (h : W.Assigns a σ fx σ') :
      Clause (some a) σ fx σ'

end World

/-! ## Executions -/

/-- The executions of a statement that come to an end: the values of the variables in front, how it ends,
its effects in order, and the values of the variables behind. -/
inductive Executes (W : World) : Stmt → W.Store → Ending W.Value → List W.Effect → W.Store → Prop where
  | blockEnd {sp : Span} {σ : W.Store} : Executes W (.block (.mk [] [] sp)) σ .next [] σ
  | blockBind {o : Assign} {os : List Assign} {ss : List Stmt} {sp : Span} {σ σ₁ σ' : W.Store}
      {ε : Ending W.Value} {fx gx : List W.Effect} (hbind : W.Assigns o σ fx σ₁)
      (hrest : Executes W (.block (.mk os ss sp)) σ₁ ε gx σ') :
      Executes W (.block (.mk (o :: os) ss sp)) σ ε (fx ++ gx) σ'
  | blockNext {s : Stmt} {ss : List Stmt} {sp : Span} {σ σ₁ σ' : W.Store} {ε : Ending W.Value}
      {fx gx : List W.Effect} (hfirst : Executes W s σ .next fx σ₁)
      (hrest : Executes W (.block (.mk [] ss sp)) σ₁ ε gx σ') :
      Executes W (.block (.mk [] (s :: ss) sp)) σ ε (fx ++ gx) σ'
  | blockExit {s : Stmt} {ss : List Stmt} {sp : Span} {σ σ' : W.Store} {ε : Ending W.Value}
      {fx : List W.Effect} (hfirst : Executes W s σ ε fx σ') (hexit : ε ≠ .next) :
      Executes W (.block (.mk [] (s :: ss) sp)) σ ε fx σ'
  | eval {sp : Span} {e : Expr} {σ σ' : W.Store} {v : W.Value} {fx : List W.Effect}
      (h : W.Evaluates e σ v fx σ') : Executes W (.eval sp e) σ .next fx σ'
  | assign {a : Assign} {σ σ' : W.Store} {fx : List W.Effect} (h : W.Assigns a σ fx σ') :
      Executes W (.assign a) σ .next fx σ'
  | assignMember {sp : Span} {t e : Expr} {σ σ₁ σ' : W.Store} {v : W.Value} {fx gx : List W.Effect}
      (h : W.Evaluates e σ v fx σ₁) (hmember : W.assignsMember t v σ₁ gx σ') :
      Executes W (.assignMember sp t e) σ .next (fx ++ gx) σ'
  | condThen {sp : Span} {c : Expr} {t : Block} {f : Option Block} {σ σ₁ σ' : W.Store} {ε : Ending W.Value}
      {fx gx : List W.Effect} (htest : W.Tests (some c) σ true fx σ₁)
      (hthen : Executes W (.block t) σ₁ ε gx σ') : Executes W (.cond sp c t f) σ ε (fx ++ gx) σ'
  | condElse {sp : Span} {c : Expr} {t f : Block} {σ σ₁ σ' : W.Store} {ε : Ending W.Value}
      {fx gx : List W.Effect} (htest : W.Tests (some c) σ false fx σ₁)
      (helse : Executes W (.block f) σ₁ ε gx σ') : Executes W (.cond sp c t (some f)) σ ε (fx ++ gx) σ'
  | condNone {sp : Span} {c : Expr} {t : Block} {σ σ' : W.Store} {fx : List W.Effect}
      (htest : W.Tests (some c) σ false fx σ') : Executes W (.cond sp c t none) σ .next fx σ'
  | loopStop {sp : Span} {c : Expr} {b : Block} {σ σ' : W.Store} {fx : List W.Effect}
      (htest : W.Tests (some c) σ false fx σ') : Executes W (.loop sp c b) σ .next fx σ'
  | loopLeave {sp : Span} {c : Expr} {b : Block} {σ σ₁ σ' : W.Store} {fx gx : List W.Effect}
      (htest : W.Tests (some c) σ true fx σ₁) (hbody : Executes W (.block b) σ₁ .leave gx σ') :
      Executes W (.loop sp c b) σ .next (fx ++ gx) σ'
  | loopGive {sp : Span} {c : Expr} {b : Block} {σ σ₁ σ' : W.Store} {v : W.Value} {fx gx : List W.Effect}
      (htest : W.Tests (some c) σ true fx σ₁) (hbody : Executes W (.block b) σ₁ (.give v) gx σ') :
      Executes W (.loop sp c b) σ (.give v) (fx ++ gx) σ'
  | loopTurn {sp : Span} {c : Expr} {b : Block} {σ σ₁ σ₂ σ' : W.Store} {ε : Ending W.Value}
      {fx gx hx : List W.Effect} (htest : W.Tests (some c) σ true fx σ₁)
      (hbody : Executes W (.block b) σ₁ .next gx σ₂) (hrest : Executes W (.loop sp c b) σ₂ ε hx σ') :
      Executes W (.loop sp c b) σ ε (fx ++ (gx ++ hx)) σ'
  | forInit {sp : Span} {i : Assign} {c : Option Expr} {st : Option Assign} {b : Block}
      {σ σ₁ σ' : W.Store} {ε : Ending W.Value} {fx gx : List W.Effect} (hinit : W.Assigns i σ fx σ₁)
      (hrest : Executes W (.forLoop sp none c st b) σ₁ ε gx σ') :
      Executes W (.forLoop sp (some i) c st b) σ ε (fx ++ gx) σ'
  | forStop {sp : Span} {c : Option Expr} {st : Option Assign} {b : Block} {σ σ' : W.Store}
      {fx : List W.Effect} (htest : W.Tests c σ false fx σ') :
      Executes W (.forLoop sp none c st b) σ .next fx σ'
  | forLeave {sp : Span} {c : Option Expr} {st : Option Assign} {b : Block} {σ σ₁ σ' : W.Store}
      {fx gx : List W.Effect} (htest : W.Tests c σ true fx σ₁)
      (hbody : Executes W (.block b) σ₁ .leave gx σ') :
      Executes W (.forLoop sp none c st b) σ .next (fx ++ gx) σ'
  | forGive {sp : Span} {c : Option Expr} {st : Option Assign} {b : Block} {σ σ₁ σ' : W.Store}
      {v : W.Value} {fx gx : List W.Effect} (htest : W.Tests c σ true fx σ₁)
      (hbody : Executes W (.block b) σ₁ (.give v) gx σ') :
      Executes W (.forLoop sp none c st b) σ (.give v) (fx ++ gx) σ'
  | forTurn {sp : Span} {c : Option Expr} {st : Option Assign} {b : Block} {σ σ₁ σ₂ σ₃ σ' : W.Store}
      {ε : Ending W.Value} {fx gx hx ix : List W.Effect} (htest : W.Tests c σ true fx σ₁)
      (hbody : Executes W (.block b) σ₁ .next gx σ₂) (hstep : W.Clause st σ₂ hx σ₃)
      (hrest : Executes W (.forLoop sp none c st b) σ₃ ε ix σ') :
      Executes W (.forLoop sp none c st b) σ ε (fx ++ (gx ++ (hx ++ ix))) σ'
  | ret {sp : Span} {e : Expr} {σ σ' : W.Store} {v : W.Value} {fx : List W.Effect}
      (h : W.Evaluates e σ v fx σ') : Executes W (.ret sp e) σ (.give v) fx σ'
  | leave {sp : Span} {σ : W.Store} : Executes W (.leave sp) σ .leave [] σ
  | code {sp : Span} {t : Text} {σ σ' : W.Store} {fx : List W.Effect} (h : W.performs t σ fx σ') :
      Executes W (.code sp t) σ .next fx σ'
  | funcDef {sp ns : Span} {n : Text} {ps : List Param} {b : Block} {σ : W.Store} :
      Executes W (.funcDef sp n ns ps b) σ .next [] σ
  | bitfieldDef {sp : Span} {d : Bitfield} {σ : W.Store} : Executes W (.bitfieldDef sp d) σ .next [] σ
  | enumDef {sp : Span} {d : Enumeration} {σ : W.Store} : Executes W (.enumDef sp d) σ .next [] σ

/-- Two statements with the same executions. -/
def SameExecutions (W : World) (s s' : Stmt) : Prop :=
  ∀ σ ε fx σ', Executes W s σ ε fx σ' ↔ Executes W s' σ ε fx σ'

/-! ## Turns -/

section Turns

variable {Value Effect Store : Type}

/-- The turns of a loop.  On every turn the test is evaluated once; if it fails, the loop is over.  If it
holds, the body runs; a body that comes to its end is followed by the step, once, and by further turns.  A
body that leaves the loop, or gives a value back, is followed by nothing. -/
inductive Turning (test : Store → Bool → List Effect → Store → Prop)
    (body : Store → Ending Value → List Effect → Store → Prop) (step : Store → List Effect → Store → Prop) :
    Store → Ending Value → List Effect → Store → Prop where
  | stop {σ σ' : Store} {fx : List Effect} (htest : test σ false fx σ') :
      Turning test body step σ .next fx σ'
  | leave {σ σ₁ σ' : Store} {fx gx : List Effect} (htest : test σ true fx σ₁)
      (hbody : body σ₁ .leave gx σ') : Turning test body step σ .next (fx ++ gx) σ'
  | give {σ σ₁ σ' : Store} {v : Value} {fx gx : List Effect} (htest : test σ true fx σ₁)
      (hbody : body σ₁ (.give v) gx σ') : Turning test body step σ (.give v) (fx ++ gx) σ'
  | turn {σ σ₁ σ₂ σ₃ σ' : Store} {ε : Ending Value} {fx gx hx ix : List Effect}
      (htest : test σ true fx σ₁) (hbody : body σ₁ .next gx σ₂) (hstep : step σ₂ hx σ₃)
      (hrest : Turning test body step σ₃ ε ix σ') :
      Turning test body step σ ε (fx ++ (gx ++ (hx ++ ix))) σ'

/-- A test that always holds, and does nothing else. -/
def Holding : Store → Bool → List Effect → Store → Prop := fun σ h fx σ' => h = true ∧ fx = [] ∧ σ' = σ

private theorem holding (σ : Store) : Holding σ true ([] : List Effect) σ := ⟨rfl, rfl, rfl⟩

/-- A step that does nothing. -/
def Staying : Store → List Effect → Store → Prop := fun σ fx σ' => fx = [] ∧ σ' = σ

private theorem staying (σ : Store) : Staying σ ([] : List Effect) σ := ⟨rfl, rfl⟩

/-- A body behind a guard: it runs if the test holds, and the loop is left if it fails. -/
inductive Guarding (test : Store → Bool → List Effect → Store → Prop)
    (body : Store → Ending Value → List Effect → Store → Prop) :
    Store → Ending Value → List Effect → Store → Prop where
  | pass {σ σ₁ σ' : Store} {ε : Ending Value} {fx gx : List Effect} (htest : test σ true fx σ₁)
      (hbody : body σ₁ ε gx σ') : Guarding test body σ ε (fx ++ gx) σ'
  | fail {σ σ' : Store} {fx : List Effect} (htest : test σ false fx σ') :
      Guarding test body σ .leave fx σ'

/-- A body with a step behind it, which runs if the body comes to its end. -/
inductive Stepping (body : Store → Ending Value → List Effect → Store → Prop)
    (step : Store → List Effect → Store → Prop) : Store → Ending Value → List Effect → Store → Prop where
  | next {σ σ₁ σ' : Store} {fx gx : List Effect} (hbody : body σ .next fx σ₁) (hstep : step σ₁ gx σ') :
      Stepping body step σ .next (fx ++ gx) σ'
  | exit {σ σ' : Store} {ε : Ending Value} {fx : List Effect} (hbody : body σ ε fx σ') (hexit : ε ≠ .next) :
      Stepping body step σ ε fx σ'

variable {test : Store → Bool → List Effect → Store → Prop}
  {body : Store → Ending Value → List Effect → Store → Prop} {step : Store → List Effect → Store → Prop}
  {σ σ' : Store} {ε : Ending Value} {fx : List Effect}

/-- A test may become a guard of the body. -/
private theorem turning_guard :
    Turning Holding (Guarding test body) step σ ε fx σ' ↔ Turning test body step σ ε fx σ' := by
  constructor
  · intro h
    -- Turn by turn; the test of the folded loop always holds, so the guard decides.
    induction h with
    | stop htest => cases htest.1
    | leave htest hbody =>
      obtain ⟨-, rfl, rfl⟩ := htest
      rw [List.nil_append]
      -- The guard passes and the body leaves, or the guard itself fails.
      cases hbody with
      | pass htest hbody => exact .leave htest hbody
      | fail htest => exact .stop htest
    | give htest hbody =>
      obtain ⟨-, rfl, rfl⟩ := htest
      rw [List.nil_append]
      cases hbody with
      | pass htest hbody => exact .give htest hbody
    | turn htest hbody hstep _ ih =>
      obtain ⟨-, rfl, rfl⟩ := htest
      rw [List.nil_append]
      cases hbody with
      | pass htest hbody =>
        rw [List.append_assoc]
        exact .turn htest hbody hstep ih
  · intro h
    -- The test of the loop holds without effect, and a guard that fails leaves the loop.
    induction h with
    | stop htest => exact (Turning.leave (holding _) (Guarding.fail htest) :)
    | leave htest hbody => exact (Turning.leave (holding _) (Guarding.pass htest hbody) :)
    | give htest hbody => exact (Turning.give (holding _) (Guarding.pass htest hbody) :)
    | turn htest hbody hstep _ ih =>
      rw [← List.append_assoc]
      exact (Turning.turn (holding _) (Guarding.pass htest hbody) hstep ih :)

/-- A step may become the end of the body. -/
private theorem turning_step :
    Turning test (Stepping body step) Staying σ ε fx σ' ↔ Turning test body step σ ε fx σ' := by
  constructor
  · intro h
    -- Turn by turn; the step does nothing now, and the body ends with it.
    induction h with
    | stop htest => exact .stop htest
    -- What leaves the loop leaves in front of the step.
    | leave htest hbody =>
      cases hbody with
      | exit hbody _ => exact .leave htest hbody
    | give htest hbody =>
      cases hbody with
      | exit hbody _ => exact .give htest hbody
    | turn htest hbody hstep _ ih =>
      obtain ⟨rfl, rfl⟩ := hstep
      cases hbody with
      -- A body that comes to its end has done the step already.
      | next hbody hstep =>
        rw [List.nil_append, List.append_assoc]
        exact .turn htest hbody hstep ih
      | exit _ hexit => exact absurd rfl hexit
  · intro h
    -- A body that leaves the loop skips the step in both forms.
    induction h with
    | stop htest => exact .stop htest
    | leave htest hbody => exact .leave htest (.exit hbody nofun)
    | give htest hbody => exact .give htest (.exit hbody nofun)
    | turn htest hbody hstep _ ih =>
      have h := Turning.turn htest (.next hbody hstep) (staying _) ih
      rwa [List.append_assoc, List.nil_append] at h

/-- What does as much takes the same turns. -/
theorem Turning.mono {test' : Store → Bool → List Effect → Store → Prop}
    {body' : Store → Ending Value → List Effect → Store → Prop} {step' : Store → List Effect → Store → Prop}
    (htest : ∀ {σ h fx σ'}, test σ h fx σ' → test' σ h fx σ')
    (hbody : ∀ {σ ε fx σ'}, body σ ε fx σ' → body' σ ε fx σ')
    (hstep : ∀ {σ fx σ'}, step σ fx σ' → step' σ fx σ') (h : Turning test body step σ ε fx σ') :
    Turning test' body' step' σ ε fx σ' := by
  induction h with
  | stop ht => exact .stop (htest ht)
  | leave ht hb => exact .leave (htest ht) (hbody hb)
  | give ht hb => exact .give (htest ht) (hbody hb)
  | turn ht hb hs _ ih => exact .turn (htest ht) (hbody hb) (hstep hs) ih

/-- What does the same takes the same turns. -/
theorem Turning.congr {test' : Store → Bool → List Effect → Store → Prop}
    {body' : Store → Ending Value → List Effect → Store → Prop} {step' : Store → List Effect → Store → Prop}
    (htest : ∀ {σ h fx σ'}, test σ h fx σ' ↔ test' σ h fx σ')
    (hbody : ∀ {σ ε fx σ'}, body σ ε fx σ' ↔ body' σ ε fx σ')
    (hstep : ∀ {σ fx σ'}, step σ fx σ' ↔ step' σ fx σ') :
    Turning test body step σ ε fx σ' ↔ Turning test' body' step' σ ε fx σ' :=
  ⟨mono htest.mp hbody.mp hstep.mp, mono htest.mpr hbody.mpr hstep.mpr⟩

end Turns

/-! ## Loops -/

section Loops

variable {W : World} {sp : Span} {σ σ' : W.Store} {ε : Ending W.Value} {fx : List W.Effect}

/-- The executions of a `while` loop are turns without a step. -/
theorem executes_loop_iff {c : Expr} {b : Block} : Executes W (.loop sp c b) σ ε fx σ' ↔
    Turning (W.Tests (some c)) (Executes W (.block b)) Staying σ ε fx σ' := by
  constructor
  · intro h
    -- The loop is fixed, so only the rules for loops apply.
    generalize hs : Stmt.loop sp c b = s at h
    induction h with
    | loopStop htest => cases hs; exact .stop htest
    | loopLeave htest hbody => cases hs; exact .leave htest hbody
    | loopGive htest hbody => cases hs; exact .give htest hbody
    | loopTurn htest hbody _ _ ih => cases hs; exact .turn htest hbody (staying _) (ih rfl)
    | _ => exact nomatch hs
  · intro h
    induction h with
    | stop htest => exact .loopStop htest
    | leave htest hbody => exact .loopLeave htest hbody
    | give htest hbody => exact .loopGive htest hbody
    | turn htest hbody hstep _ ih =>
      obtain ⟨rfl, rfl⟩ := hstep
      exact .loopTurn htest hbody ih

private theorem executes_forTurns_iff {c : Option Expr} {st : Option Assign} {b : Block} :
    Executes W (.forLoop sp none c st b) σ ε fx σ' ↔
      Turning (W.Tests c) (Executes W (.block b)) (W.Clause st) σ ε fx σ' := by
  constructor
  · intro h
    -- The same for a header, whose first clause is already done.
    generalize hs : Stmt.forLoop sp none c st b = s at h
    induction h with
    | forStop htest => cases hs; exact .stop htest
    | forLeave htest hbody => cases hs; exact .leave htest hbody
    | forGive htest hbody => cases hs; exact .give htest hbody
    | forTurn htest hbody hstep _ _ ih => cases hs; exact .turn htest hbody hstep (ih rfl)
    | _ => exact nomatch hs
  · intro h
    induction h with
    | stop htest => exact .forStop htest
    | leave htest hbody => exact .forLeave htest hbody
    | give htest hbody => exact .forGive htest hbody
    | turn htest hbody hstep _ ih => exact .forTurn htest hbody hstep ih

/-- The executions of a `for` loop are its initializer, once, and turns. -/
theorem executes_forLoop_iff {i : Option Assign} {c : Option Expr} {st : Option Assign} {b : Block} :
    Executes W (.forLoop sp i c st b) σ ε fx σ' ↔
      ∃ gx σ₁ hx, W.Clause i σ gx σ₁ ∧
        Turning (W.Tests c) (Executes W (.block b)) (W.Clause st) σ₁ ε hx σ' ∧ fx = gx ++ hx := by
  -- The first clause runs once, in front of all turns.
  cases i with
  | none =>
    rw [executes_forTurns_iff]
    exact ⟨fun h => ⟨[], σ, fx, .absent, h, rfl⟩, fun ⟨_, _, _, hi, h, hfx⟩ => by cases hi; exact hfx ▸ h⟩
  | some i =>
    constructor
    · intro h
      cases h with
      | forInit hinit hrest => exact ⟨_, _, _, .some hinit, executes_forTurns_iff.mp hrest, rfl⟩
    · rintro ⟨gx, σ₁, hx, hi, h, rfl⟩
      cases hi with
      | some hinit => exact .forInit hinit (executes_forTurns_iff.mpr h)

/-- A literal that holds is a test without effect. -/
private theorem tests_one_iff {h : Bool} :
    W.Tests (some (.literal (.int 1) sp)) σ h fx σ' ↔ Holding σ h fx σ' := by
  constructor
  · intro ht
    cases ht with
    | some he =>
      cases he with
      | literal => exact ⟨W.truth_one, rfl, rfl⟩
      | other hne _ => exact absurd rfl (hne _ _)
  · rintro ⟨rfl, rfl, rfl⟩
    exact W.truth_one ▸ .some .literal

/-- An absent test holds without effect. -/
private theorem tests_none_iff {h : Bool} : W.Tests none σ h fx σ' ↔ Holding σ h fx σ' :=
  ⟨fun ht => by cases ht; exact holding σ, fun ⟨hh, hfx, hσ⟩ => by cases hh; cases hfx; cases hσ; exact .absent⟩

/-- An absent step does nothing. -/
private theorem clause_none_iff : W.Clause none σ fx σ' ↔ Staying σ fx σ' :=
  ⟨fun h => by cases h; exact staying σ, fun ⟨hfx, hσ⟩ => by cases hfx; cases hσ; exact .absent⟩

private theorem clause_some_iff {a : Assign} : W.Assigns a σ fx σ' ↔ W.Clause (some a) σ fx σ' :=
  ⟨.some, fun h => by cases h; assumption⟩

/-! ## Blocks -/

/-- A block of one statement is the statement. -/
private theorem executes_single_iff {s : Stmt} :
    Executes W (.block (.mk [] [s] sp)) σ ε fx σ' ↔ Executes W s σ ε fx σ' := by
  constructor
  · intro h
    -- Behind the statement the block is at its end.
    cases h with
    | blockNext hfirst hrest =>
      cases hrest
      rwa [List.append_nil]
    | blockExit hfirst _ => exact hfirst
  · intro h
    -- The ending of the statement is that of the block.
    cases ε with
    | next =>
      have h : Executes W (.block (.mk [] [s] sp)) σ .next (fx ++ []) σ' := .blockNext h .blockEnd
      rwa [List.append_nil] at h
    | leave => exact .blockExit h nofun
    | give v => exact .blockExit h nofun

/-- A guard runs its body, or leaves the loop. -/
private theorem executes_guarded_iff {c : Expr} {b : Block} : Executes W (guarded sp c b) σ ε fx σ' ↔
    Guarding (W.Tests (some c)) (Executes W (.block b)) σ ε fx σ' := by
  constructor
  · intro h
    -- The guard passes, or its other branch leaves.
    cases h with
    | condThen htest hthen => exact .pass htest hthen
    | condElse htest helse =>
      rw [leaveBlock, executes_single_iff] at helse
      cases helse
      rw [List.append_nil]
      exact .fail htest
  · intro h
    cases h with
    | pass htest hbody => exact .condThen htest hbody
    | fail htest =>
      have hleave : Executes W (.block (leaveBlock sp)) σ' .leave [] σ' := executes_single_iff.mpr .leave
      have h : Executes W (guarded sp c b) σ .leave (fx ++ []) σ' := .condElse htest hleave
      rwa [List.append_nil] at h

/-- An assignment behind the statements of a block runs if they come to their end. -/
private theorem executes_snoc_iff {os : List Assign} {ss : List Stmt} {a : Assign} :
    Executes W (.block (.mk os (ss ++ [.assign a]) sp)) σ ε fx σ' ↔
      Stepping (Executes W (.block (.mk os ss sp))) (W.Assigns a) σ ε fx σ' := by
  -- Along the overrides, and then along the statements.
  induction os generalizing σ fx with
  | cons o os ih =>
    constructor
    · intro h
      cases h with
      -- An override is bound in front of both.
      | blockBind hbind hrest =>
        cases ih.mp hrest with
        | next hbody hstep =>
          rw [← List.append_assoc]
          exact .next (.blockBind hbind hbody) hstep
        | exit hbody hexit => exact .exit (.blockBind hbind hbody) hexit
    · intro h
      cases h with
      | next hbody hstep =>
        cases hbody with
        | blockBind hbind hrest =>
          rw [List.append_assoc]
          exact .blockBind hbind (ih.mpr (.next hrest hstep))
      | exit hbody hexit =>
        cases hbody with
        | blockBind hbind hrest => exact .blockBind hbind (ih.mpr (.exit hrest hexit))
  | nil =>
    -- Without overrides, along the statements.
    induction ss generalizing σ fx with
    | nil =>
      -- Only the assignment is left.
      rw [List.nil_append, executes_single_iff]
      constructor
      · intro h
        cases h with
        | assign hstep =>
          have hend : Executes W (.block (.mk [] [] sp)) σ .next [] σ := .blockEnd
          exact (Stepping.next hend hstep :)
      · intro h
        cases h with
        | next hbody hstep =>
          cases hbody
          exact .assign hstep
        | exit hbody hexit =>
          cases hbody
          exact absurd rfl hexit
    | cons s ss ih =>
      constructor
      · intro h
        cases h with
        -- The first statement comes to its end, so the rest decides.
        | blockNext hfirst hrest =>
          cases ih.mp hrest with
          | next hbody hstep =>
            rw [← List.append_assoc]
            exact .next (.blockNext hfirst hbody) hstep
          | exit hbody hexit => exact .exit (.blockNext hfirst hbody) hexit
        -- The first statement leaves, so the assignment is not reached.
        | blockExit hfirst hexit => exact .exit (.blockExit hfirst hexit) hexit
      · intro h
        cases h with
        | next hbody hstep =>
          cases hbody with
          | blockNext hfirst hrest =>
            rw [List.append_assoc]
            exact .blockNext hfirst (ih.mpr (.next hrest hstep))
          | blockExit _ hexit => exact absurd rfl hexit
        | exit hbody hexit =>
          cases hbody with
          | blockNext hfirst hrest => exact .blockNext hfirst (ih.mpr (.exit hrest hexit))
          | blockExit hfirst _ => exact .blockExit hfirst hexit

end Loops

/-! ## The change of form -/

/-- A loop in the form that its calls are expanded in.  The condition of a `while` loop becomes a guard in
its body; so does the condition of a `for` loop that holds calls, and a step that holds calls becomes the
end of the body. -/
def Stmt.folded : Stmt → Stmt
  | .loop s c b => .loop s (.literal (.int 1) c.span) (.mk [] [guarded s c b] b.span)
  | .forLoop s i c st b =>
    .forLoop s i (if testCalls c then none else c) (if stepCalls st then none else st)
      (foldedBody s c [] c b.span b (movedStep st [] st))
  | s => s

/-- The expansion of a statement; of a loop, what is expanded is the initializer and the body. -/
def Stmt.expandInside : Stmt → Expanding (List Stmt)
  | .loop s c b => do
    let b ← b.expandOver []
    pure [.loop s c b]
  | .forLoop s i c st b => do
    let (p, i) ← expandClause i
    let b ← b.expandOver []
    pure (p ++ [.forLoop s i c st b])
  | s => s.expand

/-- Statements in order are expanded in order. -/
private theorem expandStmts_append (xs ys : List Stmt) : expandStmts (xs ++ ys) = (do
    let xs ← expandStmts xs
    let ys ← expandStmts ys
    pure (xs ++ ys)) := by
  induction xs with
  | nil => simp only [List.nil_append, expandStmts, pure_bind, bind_pure]
  | cons x xs ih => simp only [List.cons_append, expandStmts, ih, bind_assoc, pure_bind, List.append_assoc]

/-- A guard is expanded in front of itself and in its body. -/
private theorem expand_guarded (s : Span) (c : Expr) (b : Block) : (guarded s c b).expand = (do
    let (p, c) ← c.expand
    let b ← b.expandOver []
    pure (p ++ [guarded s c b])) := by
  simp only [guarded, leaveBlock, Stmt.expand, expandElse, Block.expandOver, expandStmts, pure_bind,
    List.append_nil]

/-- A moved step is expanded where it stands. -/
private theorem expandStmts_movedStep (st : Option Assign) : expandStmts (movedStep st [] st) = (do
    let (r, st') ← expandClause st
    pure (movedStep st r st')) := by
  cases hst : stepCalls st with
  | false =>
    rw [expandClause_of_not_stepCalls hst, pure_bind]
    simp only [movedStep, hst, Bool.false_eq_true, if_false, expandStmts]
  | true =>
    cases st with
    | none => cases hst
    | some a =>
      simp only [movedStep, hst, if_true, List.nil_append, Option.toList_some, List.map_cons, List.map_nil,
        expandStmts, Stmt.expand, expandClause, bind_assoc, pure_bind, List.append_nil]

/-- A folded body is expanded in the order in which the clauses of the header would be. -/
private theorem expandOver_foldedBody (s : Span) (c : Option Expr) (st : Option Assign) (b : Block) :
    (foldedBody s c [] c b.span b (movedStep st [] st)).expandOver [] = (do
      let (q, c') ← expandOption c
      let b' ← b.expandOver []
      let (r, st') ← expandClause st
      pure (foldedBody s c q c' b.span b' (movedStep st r st'))) := by
  obtain ⟨os, ss, sp⟩ := b
  -- A test that stays has nothing to expand; one that moves is expanded at the head of the body.
  cases hc : testCalls c with
  | false =>
    rw [expandOption_of_not_testCalls hc]
    simp only [foldedBody, hc, Block.expandOver, Block.overrides, Block.stmts, Block.span,
      expandStmts_append, expandStmts_movedStep, bind_assoc, pure_bind, List.nil_append]
  | true =>
    cases c with
    | none => cases hc
    | some e =>
      simp only [foldedBody, hc, Block.expandOver, expandStmts_append, expandStmts, expand_guarded,
        expandStmts_movedStep, expandOption, bind_assoc, pure_bind, List.nil_append, List.append_nil,
        Block.span]

/-- To expand a statement is to change its form and to expand what that gives. -/
private theorem Stmt.expandInside_folded (s : Stmt) : s.folded.expandInside = s.expand := by
  cases s with
  | loop s c b =>
    simp only [folded, expandInside, Stmt.expand, Block.expandOver, expandStmts, expand_guarded, bind_assoc,
      pure_bind, List.append_nil]
  | forLoop s i c st b =>
    rw [Stmt.expand_forLoop, folded, expandInside, expandOver_foldedBody]
    simp only [bind_assoc, pure_bind]
  | _ => rfl

section Folded

variable {W : World} {s sp : Span} {c : Option Expr} {st : Option Assign} {b : Block}
  {σ σ' : W.Store} {ε : Ending W.Value} {fx : List W.Effect}

/-- The turns are the same if the test has moved into the body. -/
private theorem turning_movedTest {step : W.Store → List W.Effect → W.Store → Prop} :
    Turning (W.Tests (if testCalls c then none else c))
        (Executes W (.block (foldedBody s c [] c b.span b []))) step σ ε fx σ' ↔
      Turning (W.Tests c) (Executes W (.block b)) step σ ε fx σ' := by
  -- A test that stays leaves the body as it is.
  cases hc : testCalls c with
  | false =>
    obtain ⟨os, ss, sp⟩ := b
    simp only [foldedBody, hc, Bool.false_eq_true, if_false, List.append_nil, Block.overrides, Block.stmts,
      Block.span]
  | true =>
    cases c with
    | none => cases hc
    | some e =>
      simp only [foldedBody, hc, if_true, List.nil_append, List.append_nil]
      -- The guard takes the place of the test.
      exact (Turning.congr tests_none_iff (executes_single_iff.trans executes_guarded_iff) Iff.rfl).trans
        turning_guard

/-- What moves to the end of a body stands behind all its statements. -/
private theorem foldedBody_append (s : Span) (c : Option Expr) (b : Block) (last : List Stmt) :
    ∃ os ss sp, foldedBody s c [] c b.span b [] = .mk os ss sp ∧
      foldedBody s c [] c b.span b last = .mk os (ss ++ last) sp := by
  unfold foldedBody
  split
  · exact ⟨_, _, _, rfl, by rw [List.append_nil]⟩
  · exact ⟨_, _, _, rfl, by rw [List.append_nil]⟩

/-- The turns are the same if the step has moved into the body. -/
private theorem turning_movedStep {test : W.Store → Bool → List W.Effect → W.Store → Prop} :
    Turning test (Executes W (.block (foldedBody s c [] c b.span b (movedStep st [] st))))
        (W.Clause (if stepCalls st then none else st)) σ ε fx σ' ↔
      Turning test (Executes W (.block (foldedBody s c [] c b.span b []))) (W.Clause st) σ ε fx σ' := by
  -- A step that stays leaves the body as it is.
  cases hst : stepCalls st with
  | false => simp only [movedStep, hst, Bool.false_eq_true, if_false]
  | true =>
    cases st with
    | none => cases hst
    | some a =>
      -- The assignment stands behind whatever the folded body is.
      obtain ⟨os, ss, sp, hunmoved, hmoved⟩ := foldedBody_append s c b [.assign a]
      simp only [movedStep, hst, if_true, List.nil_append, Option.toList_some, List.map_cons, List.map_nil,
        hmoved, hunmoved]
      -- Its end takes the place of the step.
      exact (Turning.congr Iff.rfl executes_snoc_iff clause_none_iff).trans
        (turning_step.trans (Turning.congr Iff.rfl Iff.rfl clause_some_iff))

/-- A folded loop has the executions of the loop. -/
private theorem Stmt.folded_same (s : Stmt) : SameExecutions W s.folded s := by
  intro σ ε fx σ'
  cases s with
  | loop s c b =>
    rw [Stmt.folded, executes_loop_iff, executes_loop_iff]
    exact (Turning.congr tests_one_iff (executes_single_iff.trans executes_guarded_iff) Iff.rfl).trans
      turning_guard
  | forLoop s i c st b =>
    simp only [Stmt.folded, executes_forLoop_iff, turning_movedStep, turning_movedTest]
  | _ => exact Iff.rfl

end Folded

/-! ## Loops inside of loops -/

mutual

/-- A statement with the loops at every depth in the form that calls are expanded in. -/
def Stmt.foldedThrough : Stmt → Stmt
  | .block b => .block b.foldedThrough
  | .cond s c t f => .cond s c t.foldedThrough (foldElse f)
  | .loop s c b => (Stmt.loop s c b.foldedThrough).folded
  | .forLoop s i c st b => (Stmt.forLoop s i c st b.foldedThrough).folded
  | s => s

/-- Statements with their loops folded. -/
def foldStmts : List Stmt → List Stmt
  | [] => []
  | s :: ss => s.foldedThrough :: foldStmts ss

/-- A block with its loops folded. -/
def Block.foldedThrough : Block → Block
  | .mk os ss sp => .mk os (foldStmts ss) sp

/-- An else block that may be absent, with its loops folded. -/
def foldElse : Option Block → Option Block
  | none => none
  | some b => some b.foldedThrough

end

section Through

variable {W : World}

private theorem SameExecutions.symm {s s' : Stmt} (h : SameExecutions W s s') : SameExecutions W s' s :=
  fun σ ε fx σ' => (h σ ε fx σ').symm

private theorem SameExecutions.bind {os : List Assign} {ss ss' : List Stmt} {sp : Span}
    (h : SameExecutions W (.block (.mk [] ss sp)) (.block (.mk [] ss' sp))) :
    SameExecutions W (.block (.mk os ss sp)) (.block (.mk os ss' sp)) := by
  -- Along the overrides, which are bound in the same way.
  induction os with
  | nil => exact h
  | cons o os ih =>
    intro σ ε fx σ'
    constructor
    · intro hx
      cases hx with
      | blockBind hbind hrest => exact .blockBind hbind ((ih ..).mp hrest)
    · intro hx
      cases hx with
      | blockBind hbind hrest => exact .blockBind hbind ((ih ..).mpr hrest)

private theorem SameExecutions.cons {s s' : Stmt} {ss ss' : List Stmt} {sp : Span}
    (hs : SameExecutions W s s')
    (hss : SameExecutions W (.block (.mk [] ss sp)) (.block (.mk [] ss' sp))) {σ σ' : W.Store}
    {ε : Ending W.Value} {fx : List W.Effect} (h : Executes W (.block (.mk [] (s :: ss) sp)) σ ε fx σ') :
    Executes W (.block (.mk [] (s' :: ss') sp)) σ ε fx σ' := by
  cases h with
  | blockNext hfirst hrest => exact .blockNext ((hs ..).mp hfirst) ((hss ..).mp hrest)
  | blockExit hfirst hexit => exact .blockExit ((hs ..).mp hfirst) hexit

mutual

/-- A statement does the same with its loops folded at every depth. -/
private theorem Stmt.foldedThrough_same : (s : Stmt) → SameExecutions W s.foldedThrough s
  | .block b => b.foldedThrough_same
  | .cond s c t f => by
    intro σ ε fx σ'
    -- The condition is the same, and so are the branches by induction.
    constructor
    · intro h
      rw [Stmt.foldedThrough] at h
      cases f with
      | none =>
        cases h with
        | condThen htest hthen => exact .condThen htest ((t.foldedThrough_same ..).mp hthen)
        | condNone htest => exact .condNone htest
      | some f =>
        cases h with
        | condThen htest hthen => exact .condThen htest ((t.foldedThrough_same ..).mp hthen)
        | condElse htest helse => exact .condElse htest ((f.foldedThrough_same ..).mp helse)
    · intro h
      rw [Stmt.foldedThrough]
      cases h with
      | condThen htest hthen => exact .condThen htest ((t.foldedThrough_same ..).mpr hthen)
      | condElse htest helse => exact .condElse htest ((Block.foldedThrough_same _ ..).mpr helse)
      | condNone htest => exact .condNone htest
  | .loop s c b => fun σ ε fx σ' => by
    -- A loop does the same as its folded form, of which the body is folded in turn.
    rw [Stmt.foldedThrough, Stmt.folded_same _ _, executes_loop_iff, executes_loop_iff]
    exact Turning.congr Iff.rfl (b.foldedThrough_same ..) Iff.rfl
  | .forLoop s i c st b => fun σ ε fx σ' => by
    rw [Stmt.foldedThrough, Stmt.folded_same _ _]
    simp only [executes_forLoop_iff, Turning.congr Iff.rfl (b.foldedThrough_same ..) Iff.rfl]
  -- Nothing is folded here.
  | .eval _ _ | .assign _ | .assignMember _ _ _ | .ret _ _ | .leave _ | .code _ _ | .funcDef _ _ _ _ _
  | .bitfieldDef _ _ | .enumDef _ _ | .require _ _ => fun _ _ _ _ => Iff.rfl

/-- Statements in order do the same with their loops folded. -/
private theorem foldStmts_same : (ss : List Stmt) → {sp : Span} →
    SameExecutions W (.block (.mk [] (foldStmts ss) sp)) (.block (.mk [] ss sp))
  | [], _ => fun _ _ _ _ => Iff.rfl
  | s :: ss, _ => fun _ _ _ _ =>
    ⟨SameExecutions.cons s.foldedThrough_same (foldStmts_same ss),
      SameExecutions.cons s.foldedThrough_same.symm (foldStmts_same ss).symm⟩

/-- A block does the same with its loops folded. -/
private theorem Block.foldedThrough_same : (b : Block) → SameExecutions W (.block b.foldedThrough) (.block b)
  | .mk _ ss _ => SameExecutions.bind (foldStmts_same ss)

end

end Through

/-- Loops may be folded.  To expand a loop is to change its form, and to expand what stands in its body then;
the change of form keeps the executions of every loop, in every world, also if it is made at every depth.
The executions are the turns of the loop as it was written: the initializer runs once, condition and step
once on every turn, and a body that leaves the loop skips the step. -/
theorem loops_folded (W : World) :
    (∀ s : Stmt, s.folded.expandInside = s.expand ∧ SameExecutions W s.folded s) ∧
    (∀ b : Block, SameExecutions W (.block b.foldedThrough) (.block b)) ∧
    (∀ (sp : Span) (c : Expr) (b : Block) (σ : W.Store) (ε : Ending W.Value) (fx : List W.Effect)
      (σ' : W.Store), Executes W (.loop sp c b) σ ε fx σ' ↔
        Turning (W.Tests (some c)) (Executes W (.block b)) Staying σ ε fx σ') ∧
    ∀ (sp : Span) (i : Option Assign) (c : Option Expr) (st : Option Assign) (b : Block) (σ : W.Store)
      (ε : Ending W.Value) (fx : List W.Effect) (σ' : W.Store),
      Executes W (.forLoop sp i c st b) σ ε fx σ' ↔ ∃ gx σ₁ hx, W.Clause i σ gx σ₁ ∧
        Turning (W.Tests c) (Executes W (.block b)) (W.Clause st) σ₁ ε hx σ' ∧ fx = gx ++ hx :=
  ⟨fun s => ⟨s.expandInside_folded, s.folded_same⟩, fun b => b.foldedThrough_same,
    fun _ _ _ _ _ _ _ => executes_loop_iff, fun _ _ _ _ _ _ _ _ _ => executes_forLoop_iff⟩

end AisScript
