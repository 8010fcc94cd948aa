import AisScript.Tree

/-!
# Faults

A fault is a tree that reached a pass in a state the pass does not handle: a pass that should have
run before did not, or let something through.  Faults are not the script's errors; those are
diagnostics.
-/

namespace AisScript

/-- A tree in a state that a pass does not handle. -/
inductive Fault where
  /-- A require was left in a tree that declarations are looked for in. -/
  | requireInDeclarations
  /-- A require was left in a tree whose calls are to be expanded. -/
  | requireInExpansion
  /-- A require was left in a tree whose constants are to be substituted. -/
  | requireInSubstitution
  /-- The type of an expression was asked for before it was known. -/
  | untyped (kind : ExprKind) (span : Span)
  /-- A temporary of a type without a zero value. -/
  | noZeroValue (ty : Ty)
  /-- A statement that the expansion of calls should have removed. -/
  | survivedExpansion (kind : StmtKind)
  /-- A statement that has no generated code. -/
  | notGenerated (kind : StmtKind)
  /-- A declaration of a type that variables cannot have. -/
  | undeclarable (name : Text) (ty : Ty)
  /-- An assignment to a variable that was never declared. -/
  | undeclared (name : Text)
  /-- A call that the expansion of calls should have removed. -/
  | unexpanded (name : Text)
  /-- A member without a range. -/
  | badMember (cause : BitfieldError)
  /-- A call with too few arguments. -/
  | missingArgument
deriving DecidableEq, Repr

/-- The words of a fault; a call with too few arguments has none. -/
def Fault.message? : Fault → Option Text
  | .requireInDeclarations => some "sema: unresolved require reached the declaration analyzer"
  | .requireInExpansion => some "inline: unresolved require reached the call inliner"
  | .requireInSubstitution => some ("inline: unhandled statement " ++ StmtKind.require.name)
  | .untyped kind span =>
    some ("ast: type of " ++ kind.name ++ " expression at " ++ span.render ++ " read before annotation")
  | .noZeroValue t => some ("inline: no zero value for " ++ t.render)
  | .survivedExpansion kind => some ("inline: " ++ kind.name ++ " survived call inlining")
  | .notGenerated kind => some ("codegen: " ++ kind.name ++ " must not reach code generation")
  | .undeclarable name t => some ("codegen: cannot declare " ++ name ++ " of type " ++ t.render)
  | .undeclared name => some ("codegen: assignment to undeclared " ++ name)
  | .unexpanded name => some ("codegen: call of " ++ name ++ " was not inlined")
  | .badMember cause => some ("codegen: " ++ cause.message)
  | .missingArgument => none

/-- The type of an expression, which must be known by now. -/
def Expr.knownTy (e : Expr) : Except Fault Ty :=
  match e.ty? with
  | some t => .ok t
  | none => .error (.untyped e.kind e.span)

end AisScript
