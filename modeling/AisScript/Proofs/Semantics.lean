import AisScript.Tree
import AisScript.Proofs.Sites

/-!
# What typed programs do

A reference semantics of typed trees, before and behind the expansion of calls.  What values are and
what the operations of the host make of them is left open: a `Machine` says it.  A tree is run from one
state to another, and the meaning of a tree is the relation between the states, built along the tree.
Operands and arguments are evaluated from left to right, the right operand of a connective only when
the left one does not decide, conditions of loops anew on every turn.  A call evaluates its arguments,
binds them to the parameters of its private body and runs the body.

Variables are told apart by the numbers of their bindings, so a body can be run wherever it stands.
Temporaries have no binding and are told apart by name.  Queries and passed-through code have no
meaning here.

* `Machine`                 values and operations
* `Run`                     relations between states, as a monad
* `Expr.run`, `Block.run`   the meaning of trees
-/

namespace AisScript

/-! ## Machines and states -/

/-- Values, and what operations make of them. -/
structure Machine where
  Value : Type
  /-- What a call gives that returns nothing. -/
  nothing : Value
  literal : Option Ty → Literal → Value
  truth : Value → Bool
  ofBool : Bool → Value
  binary : BinaryOp → Value → Value → Value
  unary : UnaryOp → Value → Value
  /-- The operations of the host that only compute. -/
  operation : Intrinsic → List Value → Value
  construct : Bitfield → List Value → Value
  /-- A member of a value of a type. -/
  member : Access → Option Ty → Text → Value → Value
  /-- A value of a type with one of its members changed. -/
  withMember : Option Ty → Text → Value → Value → Value
  /-- A value as it is kept in a variable of a type. -/
  convert : Ty → Value → Value
  truth_one : truth (literal (some .int) (.int 1)) = true

/-- What holds a value: a variable of the script or the host, or a temporary of the expansion. -/
inductive Key where
  | variable (id : Nat)
  | temp (name : Text)
deriving DecidableEq, Repr

/-- Where a name with its binding is kept. -/
def keyOf (name : Text) : Option Binding → Key
  | some b => .variable b.id
  | none => .temp name

namespace Machine

variable (M : Machine)

/-- The values kept, and what was said so far: the operations of the host that do something, in order. -/
structure State where
  store : Key → M.Value
  trace : List (Intrinsic × List M.Value)

/-- The value of a name with its binding; members of enumerations are not kept anywhere. -/
def lookup (name : Text) (binding : Option Binding) (store : Key → M.Value) : M.Value :=
  match binding.bind Binding.value? with
  | some v => M.literal (some .int) (.int v)
  | none => store (keyOf name binding)

variable {M}

/-- The state with another value kept. -/
def State.set (s : M.State) (k : Key) (v : M.Value) : M.State :=
  { s with store := fun k' => if k' = k then v else s.store k' }

/-- The state with one more thing said. -/
def State.say (s : M.State) (op : Intrinsic) (vs : List M.Value) : M.State :=
  { s with trace := s.trace ++ [(op, vs)] }

end Machine

/-! ## Relations between states -/

/-- What can happen from a state: a result and the state behind it. -/
def Run (M : Machine) (α : Type) : Type := M.State → α → M.State → Prop

namespace Run

variable {M : Machine} {α β γ : Type}

/-- Two runs are the same if the same can happen. -/
theorem ext {E F : Run M α} (h : ∀ s a s', E s a s' ↔ F s a s') : E = F := by
  funext s a s'
  exact propext (h s a s')

instance : Monad (Run M) where
  pure a := fun s b s' => b = a ∧ s' = s
  bind E F := fun s b s' => ∃ a s₁, E s a s₁ ∧ F a s₁ b s'

instance : LawfulMonad (Run M) := LawfulMonad.mk' (Run M)
  (fun E => ext fun s a s' => ⟨by rintro ⟨_, _, h, rfl, rfl⟩; exact h, fun h => ⟨a, s', h, rfl, rfl⟩⟩)
  (fun a F => ext fun s b s' => ⟨by rintro ⟨_, _, ⟨rfl, rfl⟩, h⟩; exact h, fun h => ⟨a, s, ⟨rfl, rfl⟩, h⟩⟩)
  (fun E F G => ext fun s c s' =>
    ⟨fun ⟨b, s₂, ⟨a, s₁, hE, hF⟩, hG⟩ => ⟨a, s₁, hE, b, s₂, hF, hG⟩,
      fun ⟨a, s₁, hE, b, s₂, hF, hG⟩ => ⟨b, s₂, ⟨a, s₁, hE, hF⟩, hG⟩⟩)

/-- Nothing can happen. -/
def stuck : Run M α := fun _ _ _ => False

/-- Looks at the values kept. -/
def reads (f : (Key → M.Value) → α) : Run M α := fun s a s' => a = f s.store ∧ s' = s

/-- Changes the state. -/
def writes (f : M.State → M.State) : Run M Unit := fun s _ s' => s' = f s

end Run

/-- How statements end: the next one follows, a loop is left, or a value is given back. -/
inductive Ending (α : Type) where
  | next
  | leave
  | give (value : α)

/-- The turns of a loop: its test, its body and its step. -/
inductive Turns {M : Machine} (test : Run M Bool) (body : Run M (Ending M.Value)) (step : Run M Unit) :
    M.State → Ending M.Value → M.State → Prop where
  | stop {s s' : M.State} (htest : test s false s') : Turns test body step s .next s'
  | leave {s s₁ s' : M.State} (htest : test s true s₁) (hbody : body s₁ .leave s') :
      Turns test body step s .next s'
  | give {s s₁ s' : M.State} {v : M.Value} (htest : test s true s₁) (hbody : body s₁ (.give v) s') :
      Turns test body step s (.give v) s'
  | turn {s s₁ s₂ s₃ s' : M.State} {e : Ending M.Value} (htest : test s true s₁)
      (hbody : body s₁ .next s₂) (hstep : step s₂ () s₃) (hrest : Turns test body step s₃ e s') :
      Turns test body step s e s'

/-- A loop. -/
def Run.loop {M : Machine} (test : Run M Bool) (body : Run M (Ending M.Value)) (step : Run M Unit) :
    Run M (Ending M.Value) := Turns test body step

/-! ## Single steps -/

/-- What an operator gives if its left operand already decides. -/
def BinaryOp.decided? : BinaryOp → Bool → Option Bool
  | .and, false => some false
  | .or, true => some true
  | _, _ => none

/-- Whether an operation of the host does something, and is not called for its value. -/
def Intrinsic.speaks (op : Intrinsic) : Bool :=
  match op.signature with
  | .print | .sink _ => true
  | .unary _ _ | .toObject | .binary _ _ | .binaryFloat _ | .objects _ => false

namespace Machine

variable (M : Machine)

/-- An operator with its left operand evaluated. -/
def connect (op : BinaryOp) (a : M.Value) (right : Run M M.Value) : Run M M.Value :=
  match op.decided? (M.truth a) with
  | some known => pure (M.ofBool known)
  | none => do
    let b ← right
    pure (M.binary op a b)

/-- An operation of the host with its arguments evaluated. -/
def perform (op : Intrinsic) (vs : List M.Value) : Run M M.Value :=
  if op.speaks then do
    Run.writes (·.say op vs)
    pure M.nothing
  else pure (M.operation op vs)

/-- A value as an assignment keeps it. -/
def kept (i : AssignInfo) (v : M.Value) : M.Value :=
  match i.binding with
  | some b => M.convert b.ty v
  | none => v

/-- Assigns a value. -/
def assign (i : AssignInfo) (v : M.Value) : Run M Unit :=
  Run.writes fun s => s.set (keyOf i.name i.binding) (M.kept i v)

/-- Binds values to parameters. -/
def bindAll : List Assign → List M.Value → Run M Unit
  | b :: bs, v :: vs => do
    M.assign b.info v
    bindAll bs vs
  | _, _ => pure ()

/-- Assigns a value to a member of a variable. -/
def assignMember (target : Expr) (v : M.Value) : Run M Unit :=
  match target with
  | .member _ .dotted (.var i n b) m _ =>
    Run.writes fun s => s.set (keyOf n b) (M.withMember i.ty m (s.store (keyOf n b)) v)
  | _ => Run.stuck

/-- What the body of a call gives.  A loop outside of the body cannot be left from inside. -/
def given : Ending M.Value → Run M M.Value
  | .give v => pure v
  | .next => pure M.nothing
  | .leave => Run.stuck

end Machine

/-! ## Trees -/

/-- A statement and what follows it. -/
def Run.andThen {M : Machine} (first rest : Run M (Ending M.Value)) : Run M (Ending M.Value) := do
  let e ← first
  match e with
  | .next => rest
  | e => pure e

mutual

/-- What evaluating an expression does. -/
def Expr.run (M : Machine) : Expr → Run M M.Value
  | .const i v => pure (M.literal i.ty v)
  | .var _ n b => Run.reads (M.lookup n b)
  | .binary _ op l r => do
    let a ← l.run M
    M.connect op a (r.run M)
  | .unary _ op x => do
    let a ← x.run M
    pure (M.unary op a)
  | .call _ _ _ args (.function binds body) => do
    let vs ← runList M args
    M.bindAll binds vs
    let e ← body.run M
    M.given e
  | .call _ _ _ args (.intrinsic op) => do
    let vs ← runList M args
    M.perform op vs
  | .call _ _ _ args (.constructor layout) => do
    let vs ← runList M args
    pure (M.construct layout vs)
  | .call _ _ _ _ .unresolved => Run.stuck
  | .member _ a b n _ => do
    let v ← b.run M
    pure (M.member a b.ty? n v)
  | .query _ _ _ _ _ _ => Run.stuck

/-- What evaluating expressions from left to right does. -/
def runList (M : Machine) : List Expr → Run M (List M.Value)
  | [] => pure []
  | e :: es => do
    let v ← e.run M
    let vs ← runList M es
    pure (v :: vs)

/-- What an assignment does. -/
def Assign.run (M : Machine) : Assign → Run M Unit
  | .mk i v => do
    let x ← v.run M
    M.assign i x

/-- What assignments in order do. -/
def runAssigns (M : Machine) : List Assign → Run M Unit
  | [] => pure ()
  | a :: as => do
    a.run M
    runAssigns M as

/-- What a clause does that may be absent. -/
def runClause (M : Machine) : Option Assign → Run M Unit
  | none => pure ()
  | some a => a.run M

/-- What a test says that may be absent. -/
def runTest (M : Machine) : Option Expr → Run M Bool
  | none => pure true
  | some e => do
    let v ← e.run M
    pure (M.truth v)

/-- What a statement does. -/
def Stmt.run (M : Machine) : Stmt → Run M (Ending M.Value)
  | .block b => b.run M
  | .eval _ e => do
    let _ ← e.run M
    pure .next
  | .assign a => do
    a.run M
    pure .next
  | .assignMember _ t v => do
    let x ← v.run M
    M.assignMember t x
    pure .next
  | .cond _ c t f => do
    let v ← c.run M
    if M.truth v then t.run M else runElse M f
  | .loop _ c b => Run.loop (do let v ← c.run M; pure (M.truth v)) (b.run M) (pure ())
  | .forLoop _ i c st b => do
    runClause M i
    Run.loop (runTest M c) (b.run M) (runClause M st)
  | .ret _ v => do
    let x ← v.run M
    pure (.give x)
  | .leave _ => pure .leave
  | .funcDef _ _ _ _ _ | .bitfieldDef _ _ | .enumDef _ _ => pure .next
  | .code _ _ | .require _ _ => Run.stuck

/-- What statements in order do. -/
def runStmts (M : Machine) : List Stmt → Run M (Ending M.Value)
  | [] => pure .next
  | s :: ss => (s.run M).andThen (runStmts M ss)

/-- What a block does. -/
def Block.run (M : Machine) : Block → Run M (Ending M.Value)
  | .mk os ss _ => do
    runAssigns M os
    runStmts M ss

/-- What an else block does that may be absent. -/
def runElse (M : Machine) : Option Block → Run M (Ending M.Value)
  | none => pure .next
  | some b => b.run M

end

end AisScript
