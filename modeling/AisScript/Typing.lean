import AisScript.Scope
import AisScript.Host
import AisScript.Typing.Error
import AisScript.Tree.Walk

/-!
# Typing

Every expression gets a type, every name its binding and every call its meaning.  A call of a
script's own function gets a private copy of the function: its parameters are bound to the
arguments, and its body is typed in the scope in which the function was defined.  The first error
stops the pass; what was typed before it stays.

A function is visible only behind its own definition, in scopes that bind it.  So a body can call
only functions that were defined before it, calls cannot recur, and the nesting of bodies is
bounded by the number of definitions in the program: `Block.annotate` allows that many levels.

* `Block.annotate`   types a program
* `Entry`            what the names in scope stand for
-/

namespace AisScript

/-- What a name in scope stands for. -/
inductive Entry where
  /-- A variable, a parameter, a member of an enumeration or the name of an enumeration. -/
  | value (binding : Binding)
  /-- A function with its body, and what was visible where it was defined. -/
  | function (params : List Param) (body : Block) (captured : List (Text × Entry))
  | bitfield (layout : Bitfield)
  | intrinsic (operation : Intrinsic)

/-- The word for an entry in messages: its type, or what it is if it has none. -/
def Entry.word : Entry → Text
  | .value b => b.ty.render
  | .function _ _ _ => "function"
  | .bitfield _ => "bitfield type"
  | .intrinsic _ => "intrinsic"

/-- A tree typed so far, the first number that no binding has yet, and the outcome. -/
structure Typed (α β : Type) where
  tree : α
  next : Nat
  result : Except SemanticError β

namespace Typed

variable {α β γ : Type}

/-- A failure that leaves the tree as it is. -/
def fail (tree : α) (next : Nat) (cause : SemanticCause) (span : Span) : Typed α β :=
  { tree, next, result := .error ⟨cause, span⟩ }

/-- The same outcome around a larger tree. -/
def wrap (t : Typed α β) (f : α → γ) : Typed γ β := { t with tree := f t.tree }

end Typed

/-- How an expression is called in messages. -/
def Expr.describe : Expr → Text
  | .call _ n _ _ _ => "call of " ++ n
  | _ => "expression"

/-- Demands that a typed expression produces a value. -/
def Typed.asValue (t : Typed Expr Ty) : Typed Expr Ty :=
  match t.result with
  | .ok .void =>
    { t with result := .error ⟨.producesNothing t.tree.describe, t.tree.span⟩ }
  | _ => t

/-! ## Types of operations -/

/-- Whether two operands can be compared for equality: two numbers, or two values of one type. -/
def comparable (l r : Ty) : Bool := (l.isNumeric && r.isNumeric) || (l == r && l.isValue)

/-- The type of a binary operation. -/
def BinaryOp.resultTy (op : BinaryOp) (l r : Ty) : Except SemanticCause Ty :=
  let under (accepted : List Family) (rule : ResultRule) : Except SemanticCause Ty :=
    if l.within accepted && r.within accepted then .ok (rule.apply l r)
    else .error (.noBinaryOperator op l r)
  if op.isEquality then
    if comparable l r then .ok .int else .error (.cannotCompare l r)
  else if op.isArithmetic then under Family.numeric .arithmetic
  else if op.isBitwise then under Family.bits .int
  else under Family.numeric .int

/-- The type of a unary operation. -/
def UnaryOp.resultTy (op : UnaryOp) (t : Ty) : Except SemanticCause Ty :=
  match op with
  | .not => if t.isNumeric then .ok .int else .error (.noUnaryOperator op t)
  | .neg => if t.isNumeric then .ok t else .error (.noUnaryOperator op t)
  | .bitNot => if t.within Family.bits then .ok .int else .error (.noUnaryOperator op t)

/-- The type of a member, or what is wrong and where: at the member's name or the whole access. -/
def memberTy (access : Access) (base : Ty) (name : Text) (nameSpan span : Span) :
    Except SemanticError Ty :=
  let onObject : Except SemanticError Ty :=
    if access.hasAttribute name then .ok .int else .error ⟨.noAttribute name access, nameSpan⟩
  match base, access with
  | .bitfield layout, .dotted =>
    match layout.limits name with
    | .ok _ => .ok .int
    | .error cause => .error ⟨.badMember cause, nameSpan⟩
  | .object, _ => onObject
  | _, _ => .error ⟨.noAccess access base, span⟩

/-- Whether an expression is a best-move query. -/
def Expr.isBestMove : Expr → Bool
  | .query _ k _ _ _ _ => k == Query.bestMove
  | _ => false

/-- The part of a query that holds a best-move query, if one does. -/
def nestedBestMove? (e : Expr) : Option Expr :=
  e.children.find? fun part => part.nodes.any Expr.isBestMove

/-- What is wrong with the words of a query. -/
def queryWordsFault? (kind op : Text) : Option SemanticCause :=
  if !Query.kinds.contains kind then some (.unknownQueryKind kind)
  else if !Query.operations.contains op then some (.unknownQueryOperation op)
  else none

/-- Demands a numeric operand of a query. -/
def Typed.asQueryOperand (t : Typed Expr Ty) : Typed Expr Ty :=
  let v := t.asValue
  match v.result with
  | .ok ty => if ty.isNumeric then v else { v with result := .error ⟨.queryOperand ty, v.tree.span⟩ }
  | .error _ => v

/-- Demands an object as the unit of a query. -/
def Typed.asQueryUnit (t : Typed Expr Ty) : Typed Expr Ty :=
  let v := t.asValue
  match v.result with
  | .ok ty => if ty = .object then v else { v with result := .error ⟨.queryUnit ty, v.tree.span⟩ }
  | .error _ => v

/-- Demands a number as a condition. -/
def Typed.asCondition (t : Typed Expr Ty) : Typed Expr Ty :=
  let v := t.asValue
  match v.result with
  | .ok ty =>
    if ty.isNumeric then v else { v with result := .error ⟨.conditionNotNumeric ty, v.tree.span⟩ }
  | .error _ => v

/-! ## Bindings -/

/-- A new variable of a type; strings never change. -/
def Binding.variable (id : Nat) (ty : Ty) : Binding := { id, ty, immutable := ty == .string }

/-- The binding of a parameter to an argument whose type is known. -/
def Assign.bindParam (scope : Scope Entry) (next : Nat) : Assign → Typed Assign (Scope Entry)
  | .mk i v =>
    let b := Binding.variable next (v.ty?.getD .invalid)
    { tree := .mk { i with binding := some b } v, next := next + 1
      result := .ok (scope.define i.name (.value b)) }

/-- What an assignment does with a value that is typed. -/
def assignTyped (scope : Scope Entry) (i : AssignInfo) (v : Typed Expr Ty) :
    Typed Assign (Scope Entry) :=
  let v := v.asValue
  match v.result with
  | .error e => { tree := .mk i v.tree, next := v.next, result := .error e }
  | .ok t =>
    match t with
    | .enum _ => .fail (.mk i v.tree) v.next (.cannotStore t i.name) v.tree.span
    | _ =>
      if i.declares then
        let b := Binding.variable v.next t
        { tree := .mk { i with binding := some b } v.tree, next := v.next + 1
          result := .ok (scope.define i.name (.value b)) }
      else match scope.lookup i.name with
        | none => .fail (.mk i v.tree) v.next (.notDefined i.name) i.nameSpan
        | some (.value b) =>
          let tree := Assign.mk { i with binding := some b } v.tree
          if !b.ty.assignable t then .fail tree v.next (.cannotAssign t i.name b.ty.render) i.span
          else if b.immutable then .fail tree v.next (.cannotReassign i.name) i.nameSpan
          else { tree, next := v.next, result := .ok scope }
        | some entry => .fail (.mk i v.tree) v.next (.cannotAssign t i.name entry.word) i.span

/-- Binds the members of an enumeration, each with a number of its own. -/
def bindMembers (scope : Scope Entry) (next : Nat) : List EnumMember → Scope Entry × Nat
  | [] => (scope, next)
  | m :: ms =>
    let b : Binding := { id := next, ty := .int, immutable := true, origin := .member m.value }
    bindMembers (scope.define m.name (.value b)) (next + 1) ms

/-- Binds an enumeration and its members. -/
def bindEnum (scope : Scope Entry) (next : Nat) (d : Enumeration) : Scope Entry × Nat :=
  let b : Binding := { id := next, ty := .enum d, immutable := true, origin := .enumeration }
  bindMembers (scope.define d.name (.value b)) (next + 1) d.members

/-- Binds a function together with what is visible in front of it. -/
def bindFunction (scope : Scope Entry) (name : Text) (params : List Param) (body : Block) :
    Scope Entry :=
  scope.define name (.function params body scope.snapshot.inner)

/-- The value of the return a block ends with. -/
def Block.returned? (b : Block) : Option Expr :=
  match b.stmts.getLast? with
  | some (.ret _ v) => some v
  | _ => none

/-- The parameters of a function bound to the arguments of a call. -/
def bindArguments (params : List Param) (args : List Expr) : List Assign :=
  params.zipWith (fun p arg =>
    .mk { span := arg.span, name := p.name, nameSpan := p.span, declares := true, binds := true }
      arg) args

/-- How the private copy of a called function is typed: in the scope `captured`, with its parameters
bound, from the binding number `next` on. -/
abbrev EnterBody :=
  (captured : Scope Entry) → (next : Nat) → (binds : List Assign) → (body : Block) →
    Typed (List Assign × Block) Unit

/-- A call whose arguments are typed. -/
def callTyped (enter : EnterBody) (scope : Scope Entry) (next : Nat) (i : ExprInfo) (name : Text)
    (nameSpan : Span) (args : List Expr) (target : Target) (types : List Ty) : Typed Expr Ty :=
  let same : Expr := .call i name nameSpan args target
  let resolved (t : Ty) (target : Target) (next : Nat) : Typed Expr Ty :=
    { tree := .call { i with ty := some t } name nameSpan args target, next, result := .ok t }
  match scope.lookup name with
  | none => .fail same next (.notDefined name) nameSpan
  | some (.intrinsic operation) =>
    match operation.check types with
    | .ok t => resolved t (.intrinsic operation) next
    | .error e => .fail same next (.badArguments e) i.span
  | some (.bitfield layout) =>
    if types = [.int] then resolved (.bitfield layout) (.constructor layout) next
    else .fail same next (.constructorArgument name) i.span
  | some (.function params body captured) =>
    if args.length ≠ params.length then
      .fail same next (.arity name params.length args.length) i.span
    else
      let r := enter ⟨captured, []⟩ next (bindArguments params args) body
      match r.result with
      | .error e => { tree := same, next := r.next, result := .error e }
      | .ok () =>
        let (binds, body) := r.tree
        let t := match body.returned? with
          | some v => v.ty?.getD .invalid
          | none => .void
        resolved t (.function binds body) r.next
  | some (.value _) => .fail same next (.cannotCall name) nameSpan

/-! ## Trees -/

mutual

/-- Types an expression. -/
def Expr.annotate (enter : EnterBody) (scope : Scope Entry) (next : Nat) : Expr → Typed Expr Ty
  | .const i v => { tree := .const i v, next, result := .ok (i.ty.getD v.ty) }
  | .var i n b =>
    match scope.lookup n with
    | none => .fail (.var i n b) next (.notDefined n) i.span
    | some (.value b) =>
      { tree := .var { i with ty := some b.ty } n (some b), next, result := .ok b.ty }
    | some entry => .fail (.var i n b) next (.notAValue entry.word n) i.span
  | .binary i op l r =>
    let a := (l.annotate enter scope next).asValue
    match a.result with
    | .error e => { tree := .binary i op a.tree r, next := a.next, result := .error e }
    | .ok lt =>
      let b := (r.annotate enter scope a.next).asValue
      match b.result with
      | .error e => { tree := .binary i op a.tree b.tree, next := b.next, result := .error e }
      | .ok rt =>
        match op.resultTy lt rt with
        | .error cause => .fail (.binary i op a.tree b.tree) b.next cause i.span
        | .ok t =>
          { tree := .binary { i with ty := some t } op a.tree b.tree, next := b.next, result := .ok t }
  | .unary i op x =>
    let a := (x.annotate enter scope next).asValue
    match a.result with
    | .error e => { tree := .unary i op a.tree, next := a.next, result := .error e }
    | .ok xt =>
      match op.resultTy xt with
      | .error cause => .fail (.unary i op a.tree) a.next cause i.span
      | .ok t => { tree := .unary { i with ty := some t } op a.tree, next := a.next, result := .ok t }
  | .call i n ns args target =>
    let a := annotateArgs enter scope next args
    match a.result with
    | .error e => { tree := .call i n ns a.tree target, next := a.next, result := .error e }
    | .ok types => callTyped enter scope a.next i n ns a.tree target types
  | .member i access base n ns =>
    let a := (base.annotate enter scope next).asValue
    match a.result with
    | .error e => { tree := .member i access a.tree n ns, next := a.next, result := .error e }
    | .ok bt =>
      match memberTy access bt n ns i.span with
      | .error e => { tree := .member i access a.tree n ns, next := a.next, result := .error e }
      | .ok t =>
        { tree := .member { i with ty := some t } access a.tree n ns, next := a.next, result := .ok t }
  | .query i k op u x c =>
    let same : Expr := .query i k op u x c
    match nestedBestMove? same with
    | some part => .fail same next .nestedBestMove part.span
    | none =>
      match queryWordsFault? k op with
      | some cause => .fail same next cause i.span
      | none =>
        let a := annotateUnit enter scope next u
        match a.result with
        | .error e => { tree := .query i k op a.tree x c, next := a.next, result := .error e }
        | .ok () =>
          let b := annotateOperand enter scope a.next x
          match b.result with
          | .error e => { tree := .query i k op a.tree b.tree c, next := b.next, result := .error e }
          | .ok () =>
            let d := annotateOperand enter scope b.next c
            match d.result with
            | .error e =>
              { tree := .query i k op a.tree b.tree d.tree, next := d.next, result := .error e }
            | .ok () =>
              let t : Ty := if k = Query.unit then .object else .int
              { tree := .query { i with ty := some t } k op a.tree b.tree d.tree, next := d.next
                result := .ok t }

/-- Types arguments from left to right. -/
def annotateArgs (enter : EnterBody) (scope : Scope Entry) (next : Nat) :
    List Expr → Typed (List Expr) (List Ty)
  | [] => { tree := [], next, result := .ok [] }
  | e :: es =>
    let a := (e.annotate enter scope next).asValue
    match a.result with
    | .error err => { tree := a.tree :: es, next := a.next, result := .error err }
    | .ok t =>
      let b := annotateArgs enter scope a.next es
      { tree := a.tree :: b.tree, next := b.next, result := b.result.map (t :: ·) }

/-- Types the unit of a query. -/
def annotateUnit (enter : EnterBody) (scope : Scope Entry) (next : Nat) :
    Option Expr → Typed (Option Expr) Unit
  | none => { tree := none, next, result := .ok () }
  | some e =>
    let a := (e.annotate enter scope next).asQueryUnit
    { tree := some a.tree, next := a.next, result := a.result.map fun _ => () }

/-- Types an operand of a query. -/
def annotateOperand (enter : EnterBody) (scope : Scope Entry) (next : Nat) :
    Option Expr → Typed (Option Expr) Unit
  | none => { tree := none, next, result := .ok () }
  | some e =>
    let a := (e.annotate enter scope next).asQueryOperand
    { tree := some a.tree, next := a.next, result := a.result.map fun _ => () }

end

/-- Types an assignment. -/
def Assign.annotate (enter : EnterBody) (scope : Scope Entry) (next : Nat) (a : Assign) :
    Typed Assign (Scope Entry) :=
  if a.info.binds then a.bindParam scope next
  else assignTyped scope a.info (a.value.annotate enter scope next)

/-- Types assignments in order. -/
def annotateAssigns (enter : EnterBody) (scope : Scope Entry) (next : Nat) :
    List Assign → Typed (List Assign) (Scope Entry)
  | [] => { tree := [], next, result := .ok scope }
  | a :: as =>
    let r := a.annotate enter scope next
    match r.result with
    | .error e => { tree := r.tree :: as, next := r.next, result := .error e }
    | .ok scope =>
      let q := annotateAssigns enter scope r.next as
      { q with tree := r.tree :: q.tree }

/-- Types a clause of a loop header. -/
def annotateClause (enter : EnterBody) (scope : Scope Entry) (next : Nat) :
    Option Assign → Typed (Option Assign) (Scope Entry)
  | none => { tree := none, next, result := .ok scope }
  | some a => (a.annotate enter scope next).wrap some

/-- Types the condition of a loop header. -/
def annotateTest (enter : EnterBody) (scope : Scope Entry) (next : Nat) :
    Option Expr → Typed (Option Expr) Unit
  | none => { tree := none, next, result := .ok () }
  | some e =>
    let a := (e.annotate enter scope next).asCondition
    { tree := some a.tree, next := a.next, result := a.result.map fun _ => () }

/-- Types an assignment to a member of a bitfield. -/
def annotateMemberAssign (enter : EnterBody) (scope : Scope Entry) (next : Nat) (span : Span)
    (target value : Expr) : Typed Stmt (Scope Entry) :=
  match target with
  | .member i .dotted base m ms =>
    let a := (base.annotate enter scope next).asValue
    let rebuilt (i : ExprInfo) : Stmt := .assignMember span (.member i .dotted a.tree m ms) value
    match a.result with
    | .error e => { tree := rebuilt i, next := a.next, result := .error e }
    | .ok (.bitfield layout) =>
      match memberTy .dotted (.bitfield layout) m ms i.span with
      | .error e => { tree := rebuilt i, next := a.next, result := .error e }
      | .ok t =>
        let i := { i with ty := some t }
        let v := (value.annotate enter scope a.next).asValue
        let tree : Stmt := .assignMember span (.member i .dotted a.tree m ms) v.tree
        match v.result with
        | .error e => { tree, next := v.next, result := .error e }
        | .ok .int => { tree, next := v.next, result := .ok scope }
        | .ok vt => .fail tree v.next (.memberNeedsInt m vt) span
    | .ok bt => .fail (rebuilt i) a.next (.cannotAssignMember m bt) a.tree.span
  | _ => .fail (.assignMember span target value) next .needsMemberTarget target.span

mutual

/-- Types a statement; the result is the scope behind it.  A require has nothing to type: programs with
one left in them do not get past the declarations. -/
def Stmt.annotate (enter : EnterBody) (scope : Scope Entry) (next : Nat) :
    Stmt → Typed Stmt (Scope Entry)
  | .block b =>
    let r := b.annotateIn enter scope.push next
    { tree := .block r.tree, next := r.next, result := r.result.map fun _ => scope }
  | .eval s e =>
    let r := e.annotate enter scope next
    { tree := .eval s r.tree, next := r.next, result := r.result.map fun _ => scope }
  | .assign a => (a.annotate enter scope next).wrap .assign
  | .assignMember s t v => annotateMemberAssign enter scope next s t v
  | .cond s c t f =>
    let a := (c.annotate enter scope next).asCondition
    match a.result with
    | .error e => { tree := .cond s a.tree t f, next := a.next, result := .error e }
    | .ok _ =>
      let r := t.annotateIn enter scope.push a.next
      match r.result with
      | .error e => { tree := .cond s a.tree r.tree f, next := r.next, result := .error e }
      | .ok () =>
        let q := annotateElse enter scope r.next f
        { tree := .cond s a.tree r.tree q.tree, next := q.next, result := q.result.map fun _ => scope }
  | .loop s c b =>
    let a := (c.annotate enter scope next).asCondition
    match a.result with
    | .error e => { tree := .loop s a.tree b, next := a.next, result := .error e }
    | .ok _ =>
      let r := b.annotateIn enter scope.push a.next
      { tree := .loop s a.tree r.tree, next := r.next, result := r.result.map fun _ => scope }
  | .forLoop s i c st b =>
    let a := annotateClause enter scope.push next i
    match a.result with
    | .error e => { tree := .forLoop s a.tree c st b, next := a.next, result := .error e }
    | .ok header =>
      let d := annotateTest enter header a.next c
      match d.result with
      | .error e => { tree := .forLoop s a.tree d.tree st b, next := d.next, result := .error e }
      | .ok () =>
        let p := annotateClause enter header d.next st
        match p.result with
        | .error e => { tree := .forLoop s a.tree d.tree p.tree b, next := p.next, result := .error e }
        | .ok header =>
          let r := b.annotateIn enter header.push p.next
          { tree := .forLoop s a.tree d.tree p.tree r.tree, next := r.next
            result := r.result.map fun _ => scope }
  | .ret s v =>
    let a := (v.annotate enter scope next).asValue
    match a.result with
    | .error e => { tree := .ret s a.tree, next := a.next, result := .error e }
    | .ok (.enum d) => .fail (.ret s a.tree) a.next (.cannotReturn (.enum d)) a.tree.span
    | .ok _ => { tree := .ret s a.tree, next := a.next, result := .ok scope }
  | .leave s => { tree := .leave s, next, result := .ok scope }
  | .code s t => { tree := .code s t, next, result := .ok scope }
  | .funcDef s n ns ps b =>
    { tree := .funcDef s n ns ps b, next, result := .ok (bindFunction scope n ps b) }
  | .bitfieldDef s d =>
    { tree := .bitfieldDef s d, next, result := .ok (scope.define d.name (.bitfield d)) }
  | .enumDef s d =>
    let (scope, next) := bindEnum scope next d
    { tree := .enumDef s d, next, result := .ok scope }
  | .require s p => { tree := .require s p, next, result := .ok scope }

/-- Types statements in order; the result is the scope behind the last. -/
def annotateStmts (enter : EnterBody) (scope : Scope Entry) (next : Nat) :
    List Stmt → Typed (List Stmt) (Scope Entry)
  | [] => { tree := [], next, result := .ok scope }
  | s :: ss =>
    let r := s.annotate enter scope next
    match r.result with
    | .error e => { tree := r.tree :: ss, next := r.next, result := .error e }
    | .ok scope =>
      let q := annotateStmts enter scope r.next ss
      { q with tree := r.tree :: q.tree }

/-- Types a block in a frame that is already open. -/
def Block.annotateIn (enter : EnterBody) (scope : Scope Entry) (next : Nat) : Block → Typed Block Unit
  | .mk os ss sp =>
    let a := annotateAssigns enter scope next os
    match a.result with
    | .error e => { tree := .mk a.tree ss sp, next := a.next, result := .error e }
    | .ok scope =>
      let r := annotateStmts enter scope a.next ss
      { tree := .mk a.tree r.tree sp, next := r.next, result := r.result.map fun _ => () }

/-- Types an else block that may be absent. -/
def annotateElse (enter : EnterBody) (scope : Scope Entry) (next : Nat) :
    Option Block → Typed (Option Block) Unit
  | none => { tree := none, next, result := .ok () }
  | some b => (b.annotateIn enter scope.push next).wrap some

end

/-! ## Programs -/

/-- Types bodies that call at most `depth` levels deep. -/
def enterWithin : (depth : Nat) → EnterBody
  | 0 => fun _ next binds body => .fail (binds, body) next .tooDeep body.span
  | depth + 1 => fun captured next binds body =>
    let enter := enterWithin depth
    let a := annotateAssigns enter captured.push next binds
    match a.result with
    | .error e => { tree := (a.tree, body), next := a.next, result := .error e }
    | .ok scope => (body.annotateIn enter scope a.next).wrap fun b => (a.tree, b)

mutual

/-- The number of function definitions in a statement. -/
def Stmt.definitions : Stmt → Nat
  | .block b => b.definitions
  | .cond _ _ t none => t.definitions
  | .cond _ _ t (some f) => t.definitions + f.definitions
  | .loop _ _ b => b.definitions
  | .forLoop _ _ _ _ b => b.definitions
  | .funcDef _ _ _ _ b => b.definitions + 1
  | _ => 0

/-- The number of function definitions in statements. -/
def stmtsDefinitions : List Stmt → Nat
  | [] => 0
  | s :: ss => s.definitions + stmtsDefinitions ss

/-- The number of function definitions in a block. -/
def Block.definitions : Block → Nat
  | .mk _ ss _ => stmtsDefinitions ss

end

/-- Binds the host's variables. -/
def bindGlobals (scope : Scope Entry) (next : Nat) : List Global → Scope Entry × Nat
  | [] => (scope, next)
  | g :: gs =>
    bindGlobals (scope.define g.name (.value { id := next, ty := g.ty, origin := .host })) (next + 1) gs

/-- Binds a function that the host defines. -/
def bindHostFunction (scope : Scope Entry) : Stmt → Scope Entry
  | .funcDef _ n _ ps b => bindFunction scope n ps b
  | _ => scope

/-- What is visible before the first statement, and the first number that is free. -/
def Host.entryScope (h : Host) : Scope Entry × Nat :=
  let (scope, next) := bindGlobals {} 0 h.globals
  let scope := Intrinsic.all.foldl (fun sc op => sc.define op.name (.intrinsic op)) scope
  (Host.achronal.foldl bindHostFunction scope, next)

/-- Types a program whose declarations are marked.  The tree is returned with everything that was
typed, also when there is an error. -/
def Block.annotate (h : Host) (b : Block) : Block × Option SemanticError :=
  let (scope, next) := h.entryScope
  let depth := b.definitions + Host.achronal.length
  let r := b.annotateIn (enterWithin depth) scope.push next
  match r.result with
  | .ok () => (r.tree, none)
  | .error e => (r.tree, some e)

end AisScript
