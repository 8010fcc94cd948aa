import AisScript.Scope
import AisScript.Host
import AisScript.Fault

/-!
# Generated code

A program without calls of its own functions, enumerations and string variables is written as text.
Every operation is parenthesised; a declaration begins with the word for its type; a statement ends
with a semicolon and a newline unless its text already ends a line.

* `Expr.generate`    an expression
* `Block.generate`   a program
-/

namespace AisScript

/-- The end of a statement: nothing behind a newline, a newline behind a semicolon, and both behind
anything else.  A statement without text has no end. -/
def terminated (t : Text) : Text :=
  match t.getLast? with
  | none => t
  | some b => if b = 0x0A then t else if b = 0x3B then t ++ "\n" else t ++ ";\n"

/-- A byte of a string literal.  Bytes outside printable ASCII are written with three octal digits,
which cannot swallow a digit behind them. -/
def stringByte (b : UInt8) : Text :=
  if b = 0x22 then "\\\""
  else if b = 0x5C then "\\\\"
  else if b = 0x0A then "\\n"
  else if b = 0x09 then "\\t"
  else if b = 0x0D then "\\r"
  else if b < 0x20 || 0x7F ≤ b then "\\" ++ Text.padded 3 8 b.toNat
  else [b]

/-- A string literal of the generated language. -/
def stringLiteral (t : Text) : Text := [0x22] ++ t.flatMap stringByte ++ [0x22]

/-- A float literal of the generated language; it always has a fraction. -/
def floatLiteral (d : Double) : Text :=
  let t := d.positional
  if t.contains 0x2E then t else t ++ ".0"

/-- A literal of the generated language. -/
def Literal.generate : Literal → Text
  | .int v => Text.ofInt64 v
  | .float v => floatLiteral v
  | .string t => stringLiteral t

/-- A member of a base whose text and type are known.  Members of bitfields become ranges of bits. -/
def memberText (access : Access) (base : Expr) (text name : Text) : Except Fault Text :=
  match access with
  | .dotted => do
    let t ← base.knownTy
    match t with
    | .bitfield layout =>
      match layout.limits name with
      | .ok (offset, length) =>
        pure (text ++ "[" ++ Text.ofNat offset ++ ", " ++ Text.ofNat length ++ "]")
      | .error cause => throw (.badMember cause)
    | _ => pure ("(" ++ text ++ "." ++ name ++ ")")
  | .chronal => pure ("(" ++ text ++ "->" ++ name ++ ")")
  | .classwise => pure ("(" ++ text ++ "::" ++ name ++ ")")

/-- A call from its generated arguments; the constructor of a bitfield is the argument itself. -/
def callText (name : Text) (target : Target) (args : List Text) : Except Fault Text :=
  match target with
  | .intrinsic operation =>
    match operation.emit? args with
    | some t => pure t
    | none => throw .missingArgument
  | .constructor _ =>
    match args.head? with
    | some t => pure t
    | none => throw .missingArgument
  | .unresolved | .function _ _ => throw (.unexpanded name)

mutual

/-- The text of an expression. -/
def Expr.generate : Expr → Except Fault Text
  | .const _ v => pure v.generate
  | .var _ n _ => pure n
  | .binary _ op l r => do
    let l ← l.generate
    let r ← r.generate
    pure ("(" ++ l ++ op.symbol ++ r ++ ")")
  | .unary _ op x => do
    let x ← x.generate
    pure ("(" ++ op.symbol ++ x ++ ")")
  | .call _ n _ args t => do
    let args ← generateList args
    callText n t args
  | .member _ a b n _ => do
    let t ← b.generate
    memberText a b t n
  | .query _ k op u x c => do
    let u ← generateOption u
    let x ← generateOption x
    let c ← generateOption c
    pure ("(QUERY " ++ k ++ " [" ++ u ++ "] " ++ op ++ " [" ++ x ++ "] WHERE [" ++ c ++ "])")

/-- The texts of several expressions. -/
def generateList : List Expr → Except Fault (List Text)
  | [] => pure []
  | e :: es => do
    let t ← e.generate
    let ts ← generateList es
    pure (t :: ts)

/-- The text of an expression that may be absent. -/
def generateOption : Option Expr → Except Fault Text
  | none => pure []
  | some e => e.generate

end

/-- The variables declared so far. -/
abbrev Variables := Scope Ty

/-- The text of an assignment without its end, and the variables behind it. -/
def Assign.generate (vars : Variables) : Assign → Except Fault (Text × Variables)
  | .mk i v => do
    let t ← v.knownTy
    if i.declares then
      match t.storageName? with
      | none => throw (.undeclarable i.name t)
      | some word =>
        let value ← v.generate
        pure (word ++ " " ++ i.name ++ " = " ++ value, vars.define i.name t)
    else if (vars.lookup i.name).isNone then throw (.undeclared i.name)
    else
      let value ← v.generate
      pure (i.name ++ " = " ++ value, vars)

/-- The text of a clause that may be absent. -/
def generateClause (vars : Variables) : Option Assign → Except Fault (Text × Variables)
  | none => pure ([], vars)
  | some a => a.generate vars

/-- The text of overrides, each with its end. -/
def generateOverrides (vars : Variables) : List Assign → Except Fault (Text × Variables)
  | [] => pure ([], vars)
  | a :: as => do
    let (t, vars) ← a.generate vars
    let (ts, vars) ← generateOverrides vars as
    pure (terminated t ++ ts, vars)

mutual

/-- The text of a statement without its end, and the variables behind it. -/
def Stmt.generate (vars : Variables) : Stmt → Except Fault (Text × Variables)
  | .block b => do
    let t ← b.generateIn vars.push
    pure (t, vars)
  | .eval _ e => do
    let t ← e.generate
    pure (t, vars)
  | .assign a => a.generate vars
  | .assignMember _ t v => do
    let t ← t.generate
    let v ← v.generate
    pure (t ++ " = " ++ v, vars)
  | .cond _ c t f => do
    let c ← c.generate
    let t ← t.generateIn vars.push
    let f ← generateElse vars f
    pure ("if(" ++ c ++ ")" ++ t ++ f, vars)
  | .loop _ c b => do
    let c ← c.generate
    let b ← b.generateIn vars.push
    pure ("while(" ++ c ++ ")" ++ b, vars)
  | .forLoop _ i c st b => do
    let (i, header) ← generateClause vars.push i
    let c ← generateOption c
    let (st, header) ← generateClause header st
    let b ← b.generateIn header.push
    pure ("for(" ++ i ++ "; " ++ c ++ "; " ++ st ++ ")" ++ b, vars)
  | .leave _ => pure ("break", vars)
  | .code _ t => pure (t, vars)
  | .bitfieldDef _ _ => pure ([], vars)
  | .enumDef _ _ => pure ([], vars)
  | .funcDef _ _ _ _ _ => throw (.notGenerated .funcDef)
  | .ret _ _ => throw (.notGenerated .ret)
  | .require _ _ => throw (.notGenerated .require)

/-- The text of statements, each with its end. -/
def generateStmts (vars : Variables) : List Stmt → Except Fault Text
  | [] => pure []
  | s :: ss => do
    let (t, vars) ← s.generate vars
    let ts ← generateStmts vars ss
    pure (terminated t ++ ts)

/-- The text of a block, with the frame for its variables already open. -/
def Block.generateIn (vars : Variables) : Block → Except Fault Text
  | .mk os ss _ => do
    let (t, vars) ← generateOverrides vars os
    let ts ← generateStmts vars ss
    pure ("\x7b\n" ++ t ++ ts ++ "\x7d\n")

/-- The text of an else block that may be absent. -/
def generateElse (vars : Variables) : Option Block → Except Fault Text
  | none => pure []
  | some b => do
    let t ← b.generateIn vars.push
    pure ("else " ++ t)

end

/-- The variables of the host, which need no declaration. -/
def Host.variables (h : Host) : Variables := h.globals.foldl (fun vs g => vs.define g.name g.ty) {}

/-- The text of a program. -/
def Block.generate (h : Host) (b : Block) : Except Fault Text := b.generateIn h.variables.push

end AisScript
