import AisScript.Typing

/-!
# Typing on shared scopes

`Block.annotate` hands scopes on as values, and a function keeps a copy of what it has captured.  Here the
same typing is written down with scopes that are changed in place.  All scopes are kept side by side and told
apart by numbers; a function keeps the number of a scope, which all its calls share.  A call opens a frame on
that scope, types the private copy there, and closes the frame, also if typing fails; in the meantime that
scope is the current one, and the scope of the call is not looked at.

* `Slot`, `Heap`                     names and scopes that are changed in place
* `Sharing`                          computations on them
* `Expr.share`, `Stmt.share`         typing of trees
* `enterShared`                      typing of private copies, which notes every call
* `Block.shareProgram`               typing of programs
-/

namespace AisScript

/-! ## Scopes side by side -/

/-- What a name in scope stands for, where a function keeps the number of the scope it has captured. -/
inductive Slot where
  | value (binding : Binding)
  | function (params : List Param) (body : Block) (captured : Nat)
  | bitfield (layout : Bitfield)
  | intrinsic (operation : Intrinsic)

/-- The word for what a name stands for in messages. -/
def Slot.word : Slot → Text
  | .value b => b.ty.render
  | .function _ _ _ => "function"
  | .bitfield _ => "bitfield type"
  | .intrinsic _ => "intrinsic"

/-- Where typing stands: all scopes, their number, the current one, and the first number that no binding has
yet.  The scope of the program has the number zero; nothing captures it. -/
structure Heap where
  scope : Nat → Scope Slot := fun _ => {}
  count : Nat := 1
  current : Nat := 0
  next : Nat := 0

namespace Heap

/-- The site with one of its scopes changed. -/
def change (M : Heap) (r : Nat) (σ : Scope Slot) : Heap :=
  { M with scope := fun r' => if r' = r then σ else M.scope r' }

/-- The changed scope. -/
theorem scope_change (M : Heap) (r : Nat) (σ : Scope Slot) : (M.change r σ).scope r = σ := if_pos rfl

/-- The other scopes. -/
theorem scope_change_of_ne (M : Heap) {r r' : Nat} (σ : Scope Slot) (h : r' ≠ r) :
    (M.change r σ).scope r' = M.scope r' := if_neg h

/-- The current scope. -/
def here (M : Heap) : Scope Slot := M.scope M.current

end Heap

/-- A scope without its innermost frame; the outermost frame stays. -/
def Scope.popped {α : Type} (σ : Scope α) : Scope α := σ.pop?.getD σ

/-- A call of a function: where typing stood in front of the private copy, how many levels the call could
nest, the function with the scope that it has captured, the typed arguments, what came of the copy, and where
typing stood behind it. -/
structure SharedCall where
  site : Heap
  depth : Nat
  params : List Param
  body : Block
  captured : Nat
  args : List Expr
  outcome : Except SemanticError (List Assign × Block)
  left : Heap

/-- The called function. -/
def SharedCall.slot (x : SharedCall) : Slot := .function x.params x.body x.captured

/-- Where typing stands, and the calls so far, the latest first. -/
structure Shared extends Heap where
  calls : List SharedCall := []

namespace Shared

/-- A frame is opened on the current scope. -/
def pushed (M : Shared) : Shared := { M with toHeap := M.change M.current M.here.push }

/-- The innermost frame of the current scope is closed. -/
def popped (M : Shared) : Shared := { M with toHeap := M.change M.current M.here.popped }

/-- Another scope is the current one. -/
def turned (M : Shared) (r : Nat) : Shared := { M with current := r }

end Shared

/-- A computation on scopes that are changed in place.  What it has changed stays changed if it fails. -/
def Sharing (α : Type) : Type := Shared → Except SemanticError α × Shared

namespace Sharing

variable {α : Type}

/-- Two computations, one behind the other; the second is left out if the first fails. -/
def andThen {β : Type} (m : Sharing α) (k : α → Sharing β) : Sharing β := fun M =>
  match m M with
  | (.ok a, M') => k a M'
  | (.error e, M') => (.error e, M')

instance : Monad Sharing where
  pure a := fun M => (.ok a, M)
  bind := andThen

/-- Fails with an error. -/
def raise (e : SemanticError) : Sharing α := fun M => (.error e, M)

/-- Fails. -/
def fail (cause : SemanticCause) (span : Span) : Sharing α := raise ⟨cause, span⟩

/-- What a name means in the current scope. -/
def find (name : Text) : Sharing (Option Slot) := fun M => (.ok (M.here.lookup name), M)

/-- Binds a name in the innermost frame of the current scope. -/
def define (name : Text) (s : Slot) : Sharing Unit := fun M =>
  (.ok (), { M with toHeap := M.change M.current (M.here.define name s) })

/-- A number for a binding. -/
def number : Sharing Nat := fun M => (.ok M.next, { M with next := M.next + 1 })

/-- A new scope with everything that the current scope shows, in one frame. -/
def snapshot : Sharing Nat := fun M =>
  (.ok M.count, { M with toHeap := { M.change M.count M.here.snapshot with count := M.count + 1 } })

/-- Opens a frame on the current scope and closes the innermost frame of the current scope at the end,
whatever the outcome. -/
def inFrame (m : Sharing α) : Sharing α := fun M => ((m M.pushed).1, (m M.pushed).2.popped)

/-- Turns to a scope and back to the current one, whatever the outcome. -/
def onScope (r : Nat) (m : Sharing α) : Sharing α := fun M =>
  ((m (M.turned r)).1, (m (M.turned r)).2.turned M.current)

/-- Notes a call behind it, whatever the outcome. -/
def noted (call : Heap → Except SemanticError α → Heap → SharedCall) (m : Sharing α) : Sharing α := fun M =>
  ((m M).1, { (m M).2 with calls := call M.toHeap (m M).1 (m M).2.toHeap :: (m M).2.calls })

/-- Demands a value. -/
def valued (m : Sharing (Expr × Ty)) : Sharing (Expr × Ty) := do
  let (e, t) ← m
  if t = .void then fail (.producesNothing e.describe) e.span else pure (e, t)

/-- Demands a value of an accepted type. -/
def demanding (accepts : Ty → Prop) [DecidablePred accepts] (cause : Ty → SemanticCause)
    (m : Sharing (Expr × Ty)) : Sharing (Expr × Ty) := do
  let (e, t) ← valued m
  if accepts t then pure (e, t) else fail (cause t) e.span

end Sharing

/-! ## Bindings -/

open Sharing

/-- Binds a value to a name, with a number of its own. -/
def shareValue (name : Text) (b : Binding) : Sharing Binding := do
  let id ← number
  define name (.value { b with id })
  pure { b with id }

/-- What an assignment does with a value that is typed and may be stored. -/
def shareStored (i : AssignInfo) (v : Expr) (t : Ty) : Sharing Assign :=
  if i.declares then do
    let b ← shareValue i.name (.variable 0 t)
    pure (.mk { i with binding := some b } v)
  else do
    match ← find i.name with
    | none => fail (.notDefined i.name) i.nameSpan
    | some (.value b) =>
      if !b.ty.assignable t then fail (.cannotAssign t i.name b.ty.render) i.span
      else if b.immutable then fail (.cannotReassign i.name) i.nameSpan
      else pure (.mk { i with binding := some b } v)
    | some s => fail (.cannotAssign t i.name s.word) i.span

/-- What an assignment does with a value that is typed. -/
def shareAssigned (i : AssignInfo) (v : Expr) (t : Ty) : Sharing Assign :=
  match t with
  | .enum _ => fail (.cannotStore t i.name) v.span
  | _ => shareStored i v t

/-- Binds the members of an enumeration. -/
def shareMembers : List EnumMember → Sharing Unit
  | [] => pure ()
  | m :: ms => do
    let _ ← shareValue m.name { id := 0, ty := .int, immutable := true, origin := .member m.value }
    shareMembers ms

/-- Binds an enumeration and its members. -/
def shareEnum (d : Enumeration) : Sharing Unit := do
  let _ ← shareValue d.name { id := 0, ty := .enum d, immutable := true, origin := .enumeration }
  shareMembers d.members

/-- Binds a function to a name.  What is visible in front of it goes into a scope of its own. -/
def shareFunction (name : Text) (params : List Param) (body : Block) : Sharing Unit := do
  let captured ← snapshot
  define name (.function params body captured)

/-! ## Calls -/

/-- How the private copy of a function is typed that has captured a scope. -/
abbrev EnterShared :=
  (params : List Param) → (body : Block) → (captured : Nat) → (args : List Expr) →
    Sharing (List Assign × Block)

/-- A call whose arguments are typed. -/
def shareCall (enter : EnterShared) (i : ExprInfo) (name : Text) (nameSpan : Span) (args : List Expr)
    (types : List Ty) : Sharing (Expr × Ty) := do
  let resolved (t : Ty) (target : Target) : Sharing (Expr × Ty) :=
    pure (.call { i with ty := some t } name nameSpan args target, t)
  match ← find name with
  | none => fail (.notDefined name) nameSpan
  | some (.intrinsic operation) =>
    match operation.check types with
    | .ok t => resolved t (.intrinsic operation)
    | .error e => fail (.badArguments e) i.span
  | some (.bitfield layout) =>
    if types = [.int] then resolved (.bitfield layout) (.constructor layout)
    else fail (.constructorArgument name) i.span
  | some (.function params body captured) =>
    if args.length ≠ params.length then fail (.arity name params.length args.length) i.span
    else do
      let (binds, body) ← enter params body captured args
      let t := match body.returned? with
        | some v => v.ty?.getD .invalid
        | none => .void
      resolved t (.function binds body)
  | some (.value _) => fail (.cannotCall name) nameSpan

/-! ## Trees -/

mutual

/-- Types an expression. -/
def Expr.share (enter : EnterShared) : Expr → Sharing (Expr × Ty)
  | .const i v => pure (.const i v, i.ty.getD v.ty)
  | .var i n _ => do
    match ← find n with
    | none => fail (.notDefined n) i.span
    | some (.value b) => pure (.var { i with ty := some b.ty } n (some b), b.ty)
    | some s => fail (.notAValue s.word n) i.span
  | .binary i op l r => do
    let (l, lt) ← valued (l.share enter)
    let (r, rt) ← valued (r.share enter)
    match op.resultTy lt rt with
    | .error cause => fail cause i.span
    | .ok t => pure (.binary { i with ty := some t } op l r, t)
  | .unary i op x => do
    let (x, xt) ← valued (x.share enter)
    match op.resultTy xt with
    | .error cause => fail cause i.span
    | .ok t => pure (.unary { i with ty := some t } op x, t)
  | .call i n ns args _ => do
    let (args, types) ← shareArgs enter args
    shareCall enter i n ns args types
  | .member i access base n ns => do
    let (base, bt) ← valued (base.share enter)
    match memberTy access bt n ns i.span with
    | .error e => raise e
    | .ok t => pure (.member { i with ty := some t } access base n ns, t)
  | .query i k op u x c =>
    match nestedBestMove? (.query i k op u x c) with
    | some part => fail .nestedBestMove part.span
    | none =>
      match queryWordsFault? k op with
      | some cause => fail cause i.span
      | none => do
        let u ← shareUnit enter u
        let x ← shareOperand enter x
        let c ← shareOperand enter c
        let t : Ty := if k = Query.unit then .object else .int
        pure (.query { i with ty := some t } k op u x c, t)

/-- Types arguments from left to right. -/
def shareArgs (enter : EnterShared) : List Expr → Sharing (List Expr × List Ty)
  | [] => pure ([], [])
  | e :: es => do
    let (e, t) ← valued (e.share enter)
    let (es, ts) ← shareArgs enter es
    pure (e :: es, t :: ts)

/-- Types the unit of a query. -/
def shareUnit (enter : EnterShared) : Option Expr → Sharing (Option Expr)
  | none => pure none
  | some e => do
    let (e, _) ← demanding (· = .object) .queryUnit (e.share enter)
    pure (some e)

/-- Types an operand of a query. -/
def shareOperand (enter : EnterShared) : Option Expr → Sharing (Option Expr)
  | none => pure none
  | some e => do
    let (e, _) ← demanding (·.isNumeric = true) .queryOperand (e.share enter)
    pure (some e)

end

/-- Types a condition. -/
def shareCondition (enter : EnterShared) (c : Expr) : Sharing Expr := do
  let (c, _) ← demanding (·.isNumeric = true) .conditionNotNumeric (c.share enter)
  pure c

/-- Types an assignment.  The value of a parameter is typed already. -/
def Assign.share (enter : EnterShared) : Assign → Sharing Assign
  | .mk i v =>
    if i.binds then do
      let b ← shareValue i.name (.variable 0 (v.ty?.getD .invalid))
      pure (.mk { i with binding := some b } v)
    else do
      let (v, t) ← valued (v.share enter)
      shareAssigned i v t

/-- Types assignments in order. -/
def shareAssigns (enter : EnterShared) : List Assign → Sharing (List Assign)
  | [] => pure []
  | a :: as => do
    let a ← a.share enter
    let as ← shareAssigns enter as
    pure (a :: as)

/-- Types a clause of a loop header. -/
def shareClause (enter : EnterShared) : Option Assign → Sharing (Option Assign)
  | none => pure none
  | some a => do
    let a ← a.share enter
    pure (some a)

/-- Types the condition of a loop header. -/
def shareTest (enter : EnterShared) : Option Expr → Sharing (Option Expr)
  | none => pure none
  | some c => do
    let c ← shareCondition enter c
    pure (some c)

/-- Types an assignment to a member of a bitfield. -/
def shareMemberAssign (enter : EnterShared) (span : Span) (target v : Expr) : Sharing Stmt :=
  match target with
  | .member i .dotted base m ms => do
    let (base, bt) ← valued (base.share enter)
    match bt with
    | .bitfield layout =>
      match memberTy .dotted (.bitfield layout) m ms i.span with
      | .error e => raise e
      | .ok t => do
        let (v, vt) ← valued (v.share enter)
        if vt = .int then pure (.assignMember span (.member { i with ty := some t } .dotted base m ms) v)
        else fail (.memberNeedsInt m vt) span
    | bt => fail (.cannotAssignMember m bt) base.span
  | _ => fail .needsMemberTarget target.span

mutual

/-- Types a statement. -/
def Stmt.share (enter : EnterShared) : Stmt → Sharing Stmt
  | .block b => do
    let b ← inFrame (b.share enter)
    pure (.block b)
  | .eval s e => do
    let (e, _) ← e.share enter
    pure (.eval s e)
  | .assign a => do
    let a ← a.share enter
    pure (.assign a)
  | .assignMember s t v => shareMemberAssign enter s t v
  | .cond s c t f => do
    let c ← shareCondition enter c
    let t ← inFrame (t.share enter)
    let f ← shareElse enter f
    pure (.cond s c t f)
  | .loop s c b => do
    let c ← shareCondition enter c
    let b ← inFrame (b.share enter)
    pure (.loop s c b)
  | .forLoop s i c st b => inFrame do
    let i ← shareClause enter i
    let c ← shareTest enter c
    let st ← shareClause enter st
    let b ← inFrame (b.share enter)
    pure (.forLoop s i c st b)
  | .ret s v => do
    let (v, t) ← valued (v.share enter)
    match t with
    | .enum d => fail (.cannotReturn (.enum d)) v.span
    | _ => pure (.ret s v)
  | .leave s => pure (.leave s)
  | .code s t => pure (.code s t)
  | .funcDef s n ns ps b => do
    shareFunction n ps b
    pure (.funcDef s n ns ps b)
  | .bitfieldDef s d => do
    define d.name (.bitfield d)
    pure (.bitfieldDef s d)
  | .enumDef s d => do
    shareEnum d
    pure (.enumDef s d)
  | .require s p => pure (.require s p)

/-- Types statements in order. -/
def shareStmts (enter : EnterShared) : List Stmt → Sharing (List Stmt)
  | [] => pure []
  | s :: ss => do
    let s ← s.share enter
    let ss ← shareStmts enter ss
    pure (s :: ss)

/-- Types a block in a frame that is already open. -/
def Block.share (enter : EnterShared) : Block → Sharing Block
  | .mk os ss sp => do
    let os ← shareAssigns enter os
    let ss ← shareStmts enter ss
    pure (.mk os ss sp)

/-- Types an else block that may be absent. -/
def shareElse (enter : EnterShared) : Option Block → Sharing (Option Block)
  | none => pure none
  | some b => do
    let b ← inFrame (b.share enter)
    pure (some b)

end

/-! ## Programs -/

/-- Types bodies that call at most `depth` levels deep: on the captured scope, in a frame of their own, with
the parameters bound first.  Every call is noted. -/
def enterShared : (depth : Nat) → EnterShared
  | 0 => fun _ body _ _ => fail .tooDeep body.span
  | depth + 1 => fun params body captured args =>
    noted (fun site outcome left =>
      { site, depth := depth + 1, params, body, captured, args, outcome, left }) <|
    onScope captured <| inFrame do
      let binds ← shareAssigns (enterShared depth) (bindArguments params args)
      let body ← body.share (enterShared depth)
      pure (binds, body)

/-- The call once more, with other arguments. -/
def SharedCall.again (x : SharedCall) (args : List Expr) :
    Except SemanticError (List Assign × Block) × Shared :=
  enterShared x.depth x.params x.body x.captured args { toHeap := x.site }

/-- Binds the host's variables. -/
def shareGlobals : List Global → Sharing Unit
  | [] => pure ()
  | g :: gs => do
    let _ ← shareValue g.name { id := 0, ty := g.ty, origin := .host }
    shareGlobals gs

/-- Binds the host's operations. -/
def shareIntrinsics : List Intrinsic → Sharing Unit
  | [] => pure ()
  | op :: ops => do
    define op.name (.intrinsic op)
    shareIntrinsics ops

/-- Binds the functions that the host defines. -/
def shareHostFunctions : List Stmt → Sharing Unit
  | [] => pure ()
  | .funcDef _ n _ ps b :: ss => do
    shareFunction n ps b
    shareHostFunctions ss
  | _ :: ss => shareHostFunctions ss

/-- Types a program: what typing gives, and where it stands in the end. -/
def Block.shareProgram (h : Host) (b : Block) : Except SemanticError Block × Shared :=
  let typing : Sharing Block := do
    shareGlobals h.globals
    shareIntrinsics Intrinsic.all
    shareHostFunctions Host.achronal
    inFrame (b.share (enterShared (b.definitions + Host.achronal.length)))
  typing {}

end AisScript
