import AisScript.Expand.Hygiene
import AisScript.Fault

/-!
# Expansion of calls

Every call of a script's own function is replaced by the private body it carries.  The body is put
in front of the statement that holds the call; its arguments are bound by the body's overrides.  A
body that ends with a return assigns the value to a fresh temporary declared in front of it, and
the temporary takes the place of the call.

Calls in a loop's condition or step have to run on every turn, so such a condition becomes a guard
at the head of the body, and such a step the body's last statement.  Every loop with only a condition
is brought into that form.  Definitions of functions disappear.

* `Block.expand`   expands all calls of a typed program
-/

namespace AisScript

/-- What has been made up so far: the number of temporaries and of fresh names, all their names, and the
names of the expanded functions, the latest first. -/
structure Expansion where
  temps : Nat := 0
  renamed : Nat := 0
  made : List Text := []
  expanded : List Text := []
deriving DecidableEq, Repr

/-- A step of the expansion. -/
abbrev Expanding (α : Type) := StateT Expansion (Except Fault) α

/-- What the name of every temporary begins with. -/
def tempStem : Text := "__retval"

/-- The name of a new temporary. -/
def newTemp : Expanding Text := do
  let s ← get
  let name := tempStem ++ Text.ofNat s.temps
  set { s with temps := s.temps + 1, made := name :: s.made }
  pure name

/-- Takes note of an expanded function. -/
def noteExpanded (name : Text) : Expanding Unit :=
  modify fun s => { s with expanded := name :: s.expanded }

/-- Renames the contested declarations of a body. -/
def freshened (b : Block) : Expanding Block := do
  let s ← get
  let fresh := freshNames s.renamed (contested b.nodes)
  let (b, renamed) := b.freshen s.renamed
  set { s with renamed, made := fresh.map Prod.snd ++ s.made }
  pure b

/-- The value a temporary of a type begins with. -/
def zeroOf (t : Ty) (span : Span) : Except Fault Expr :=
  match t with
  | .int => .ok (.literal (.int 0) span)
  | .bitfield b => .ok ((Expr.literal (.int 0) span).withTy (.bitfield b))
  | .float => .ok (.literal (.float .zero) span)
  | .string => .ok (.literal (.string []) span)
  | .object =>
    .ok (.call { span, ty := some .object } Intrinsic.object.name span [.literal (.int 0) span]
      (.intrinsic .object))
  | t => .error (.noZeroValue t)

/-- Whether an expression is a call of one of the script's functions. -/
def Expr.isScriptCall : Expr → Bool
  | .call _ _ _ _ (.function _ _) => true
  | _ => false

/-- Whether an expression holds a call of one of the script's functions. -/
def Expr.hasScriptCall (e : Expr) : Bool := e.nodes.any Expr.isScriptCall

/-- The block that leaves a loop. -/
def leaveBlock (span : Span) : Block := .mk [] [.leave span] span

/-- A body that runs only under a condition and leaves the loop otherwise. -/
def guarded (span : Span) (test : Expr) (body : Block) : Stmt :=
  .cond span test body (some (leaveBlock span))

/-- The parameters bound to the expanded arguments. -/
def bindExpanded (binds : List Assign) (args : List Expr) : List Assign :=
  binds.zipWith (fun b arg => .mk b.info arg) args

/-- The statements that stand for a call, and the expression that takes its place, from the body with
everything inside it expanded.  A body without a return leaves the call itself, which only a
statement of its own can have been. -/
def placeBody (call : Expr) (body : Block) : Expanding (List Stmt × Expr) := do
  match body.stmts.getLast? with
  | some (.ret span value) =>
    let t ← call.knownTy
    let zero ← zeroOf t call.span
    let temp ← newTemp
    let assigned : Stmt := .assign (.make temp value false span)
    let body : Block := .mk body.overrides (body.stmts.dropLast ++ [assigned]) body.span
    pure ([.assign (.make temp zero true call.span), .block body],
      .var { span := call.span, ty := some t } temp none)
  | _ => pure ([.block body], call)

mutual

/-- Expands the calls of an expression in the order of evaluation: the statements to put in front,
and what is left of the expression. -/
def Expr.expand : Expr → Expanding (List Stmt × Expr)
  | .const i v => pure ([], .const i v)
  | .var i n b => pure ([], .var i n b)
  | .binary i op l r => do
    let (p, l) ← l.expand
    let (q, r) ← r.expand
    pure (p ++ q, .binary i op l r)
  | .unary i op x => do
    let (p, x) ← x.expand
    pure (p, .unary i op x)
  | .member i a b n ns => do
    let (p, b) ← b.expand
    pure (p, .member i a b n ns)
  | .query i k op u x c => do
    let (p, u) ← expandOption u
    let (q, x) ← expandOption x
    let (r, c) ← expandOption c
    pure (p ++ q ++ r, .query i k op u x c)
  | .call i n ns args (.function binds body) => do
    let (p, args) ← expandList args
    noteExpanded n
    let body ← body.expandOver (bindExpanded binds args)
    let body ← freshened body
    let (q, e) ← placeBody (.call i n ns args (.function binds body)) body
    pure (p ++ q, e)
  | .call i n ns args t => do
    let (p, args) ← expandList args
    pure (p, .call i n ns args t)

/-- Expands the calls of expressions from left to right. -/
def expandList : List Expr → Expanding (List Stmt × List Expr)
  | [] => pure ([], [])
  | e :: es => do
    let (p, e) ← e.expand
    let (q, es) ← expandList es
    pure (p ++ q, e :: es)

/-- Expands the calls of an expression that may be absent. -/
def expandOption : Option Expr → Expanding (List Stmt × Option Expr)
  | none => pure ([], none)
  | some e => do
    let (p, e) ← e.expand
    pure (p, some e)

/-- Expands the calls of an assignment's value. -/
def Assign.expand : Assign → Expanding (List Stmt × Assign)
  | .mk i v => do
    let (p, v) ← v.expand
    pure (p, .mk i v)

/-- Expands the calls of a clause that may be absent. -/
def expandClause : Option Assign → Expanding (List Stmt × Option Assign)
  | none => pure ([], none)
  | some a => do
    let (p, a) ← a.expand
    pure (p, some a)

/-- Expands the calls of a statement: the statements that take its place. -/
def Stmt.expand : Stmt → Expanding (List Stmt)
  | .block b => do
    let b ← b.expandOver []
    pure [.block b]
  | .eval s e => do
    let (p, e') ← e.expand
    if e.isScriptCall then pure p else pure (p ++ [.eval s e'])
  | .assign a => do
    let (p, a) ← a.expand
    pure (p ++ [.assign a])
  | .assignMember s t v => do
    let (p, t) ← t.expand
    let (q, v) ← v.expand
    pure (p ++ q ++ [.assignMember s t v])
  | .cond s c t f => do
    let (p, c) ← c.expand
    let t ← t.expandOver []
    let f ← expandElse f
    pure (p ++ [.cond s c t f])
  | .loop s c b => do
    let (p, c') ← c.expand
    let b' ← b.expandOver []
    pure [.loop s (.literal (.int 1) c.span) (.mk [] (p ++ [guarded s c' b']) b.span)]
  | .forLoop s i c st b => do
    let (p, i) ← expandClause i
    let guards := (c.map Expr.hasScriptCall).getD false
    let moves := (st.map fun a => a.value.hasScriptCall).getD false
    let (q, c') ← if guards then expandOption c else pure ([], c)
    let b' ← b.expandOver []
    let (r, st') ← if moves then expandClause st else pure ([], st)
    let last : List Stmt := if moves then r ++ (st'.toList.map .assign) else []
    let body : Block := match guards, c' with
      | true, some test => .mk [] (q ++ [guarded s test b'] ++ last) b.span
      | _, _ => .mk b'.overrides (b'.stmts ++ last) b'.span
    pure (p ++ [.forLoop s i (if guards then none else c) (if moves then none else st) body])
  | .ret s v => do
    let (p, v) ← v.expand
    pure (p ++ [.ret s v])
  | .leave s => pure [.leave s]
  | .code s t => pure [.code s t]
  | .bitfieldDef s d => pure [.bitfieldDef s d]
  | .enumDef s d => pure [.enumDef s d]
  | .funcDef _ _ _ _ _ => pure []
  | .require _ _ => throw .requireInExpansion

/-- Expands the calls of statements. -/
def expandStmts : List Stmt → Expanding (List Stmt)
  | [] => pure []
  | s :: ss => do
    let s ← s.expand
    let ss ← expandStmts ss
    pure (s ++ ss)

/-- Expands the calls of a block's statements and puts `binds` in front of its overrides. -/
def Block.expandOver (binds : List Assign) : Block → Expanding Block
  | .mk os ss sp => do
    let ss ← expandStmts ss
    pure (.mk (binds ++ os) ss sp)

/-- Expands the calls of an else block that may be absent. -/
def expandElse : Option Block → Expanding (Option Block)
  | none => pure none
  | some b => do
    let b ← b.expandOver []
    pure (some b)

end

/-- What expanding a program gives. -/
structure Expanded where
  program : Block
  /-- The number of temporaries. -/
  temps : Nat
  /-- The names of the temporaries and the fresh names of declarations, the latest first. -/
  made : List Text
  /-- The names of the expanded functions in the order of expansion. -/
  functions : List Text

/-- Expands all calls of a typed program. -/
def Block.expand (b : Block) : Except Fault Expanded := do
  let (program, s) ← (b.expandOver []).run {}
  pure { program, temps := s.temps, made := s.made, functions := s.expanded.reverse }

end AisScript
