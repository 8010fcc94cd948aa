import AisScript.Tree
import AisScript.Diagnostic

/-!
# Semantic errors

What can be wrong with a program that parses.  Each cause belongs to one of seven kinds, which give
the diagnostic its code.
-/

namespace AisScript

/-- The kinds of semantic errors. -/
inductive SemanticKind where
  | undefinedVariable
  | undefinedType
  | incompatibleType
  | notCallable
  | invalidExpression
  | immutability
  | lookupFailure
  /-- Typing gave up; no program makes it. -/
  | internal
deriving DecidableEq, Repr

/-- The words for a kind. -/
def SemanticKind.words : SemanticKind → Text
  | .undefinedVariable => "undefined variable"
  | .undefinedType => "undefined type"
  | .incompatibleType => "incompatible type"
  | .notCallable => "not callable"
  | .invalidExpression => "invalid expression"
  | .immutability => "immutability violation"
  | .lookupFailure => "lookup failure"
  | .internal => "internal error"

/-- The code of a kind. -/
def SemanticKind.code : SemanticKind → Code
  | .undefinedVariable => .undefinedVariable
  | .undefinedType => .undefinedType
  | .incompatibleType => .incompatibleType
  | .notCallable => .notCallable
  | .invalidExpression => .invalidExpression
  | .immutability => .immutability
  | .lookupFailure => .lookupFailure
  | .internal => .internal

/-- What is wrong. -/
inductive SemanticCause where
  | notDefined (name : Text)
  /-- `what` names a function, an intrinsic or a bitfield type where a value is needed. -/
  | notAValue (what name : Text)
  | producesNothing (what : Text)
  | cannotStore (ty : Ty) (name : Text)
  | cannotReturn (ty : Ty)
  | cannotAssign (ty : Ty) (name target : Text)
  | cannotReassign (name : Text)
  | needsMemberTarget
  | cannotAssignMember (member : Text) (base : Ty)
  | memberNeedsInt (member : Text) (ty : Ty)
  | conditionNotNumeric (ty : Ty)
  | cannotCompare (left right : Ty)
  | noBinaryOperator (op : BinaryOp) (left right : Ty)
  | noUnaryOperator (op : UnaryOp) (operand : Ty)
  | badArguments (cause : ArgError)
  | constructorArgument (name : Text)
  | arity (name : Text) (want got : Nat)
  | cannotCall (name : Text)
  | badMember (cause : BitfieldError)
  | noAttribute (name : Text) (access : Access)
  | noAccess (access : Access) (base : Ty)
  | nestedBestMove
  | unknownQueryKind (kind : Text)
  | unknownQueryOperation (op : Text)
  | queryUnit (ty : Ty)
  | queryOperand (ty : Ty)
  | tooDeep
deriving DecidableEq, Repr

namespace SemanticCause

/-- The kind a cause belongs to. -/
def kind : SemanticCause → SemanticKind
  | .notDefined _ => .undefinedVariable
  | .producesNothing _ => .undefinedType
  | .cannotStore _ _ | .cannotReturn _ | .cannotAssign _ _ _ | .memberNeedsInt _ _
  | .cannotCompare _ _ => .incompatibleType
  | .cannotCall _ => .notCallable
  | .cannotReassign _ => .immutability
  | .badMember (.missing _ _) => .lookupFailure
  | .tooDeep => .internal
  | .badMember (.tooWide _ _) | .notAValue _ _ | .needsMemberTarget | .cannotAssignMember _ _
  | .conditionNotNumeric _ | .noBinaryOperator _ _ _ | .noUnaryOperator _ _ | .badArguments _
  | .constructorArgument _ | .arity _ _ _ | .noAttribute _ _ | .noAccess _ _ | .nestedBestMove
  | .unknownQueryKind _ | .unknownQueryOperation _ | .queryUnit _ | .queryOperand _ =>
    .invalidExpression

/-- The words of a cause. -/
def message : SemanticCause → Text
  | .notDefined n => n ++ " is not defined"
  | .notAValue what n => what ++ " " ++ n ++ " is not a value"
  | .producesNothing what => what ++ " produces no value"
  | .cannotStore t n => "cannot store " ++ t.render ++ " in " ++ n
  | .cannotReturn t => "cannot return " ++ t.render
  | .cannotAssign t n target =>
    "cannot assign " ++ t.render ++ " to " ++ n ++ " of type " ++ target
  | .cannotReassign n => n ++ " cannot be reassigned"
  | .needsMemberTarget => "bitfield assignment needs a member target"
  | .cannotAssignMember m t => "cannot assign member " ++ m ++ " of " ++ t.render
  | .memberNeedsInt m t => "bitfield member " ++ m ++ " needs int, got " ++ t.render
  | .conditionNotNumeric t => "condition must be numeric, got " ++ t.render
  | .cannotCompare l r => "cannot compare " ++ l.render ++ " with " ++ r.render
  | .noBinaryOperator op l r =>
    "operator " ++ op.symbol ++ " is not defined for " ++ l.render ++ " and " ++ r.render
  | .noUnaryOperator op t => "operator " ++ op.symbol ++ " is not defined for " ++ t.render
  | .badArguments e => e.render
  | .constructorArgument n => n ++ "(...) expects one int argument"
  | .arity n want got =>
    n ++ " expects " ++ Text.ofNat want ++ " arguments, got " ++ Text.ofNat got
  | .cannotCall n => n ++ " is not callable"
  | .badMember e => e.message
  | .noAttribute n a => n ++ " is not a " ++ a.word ++ " attribute"
  | .noAccess a t => a.word ++ " access on " ++ t.render
  | .nestedBestMove => "BESTMOVE query cannot be nested in another query"
  | .unknownQueryKind k => "unknown query kind " ++ k
  | .unknownQueryOperation op => "unknown query operation " ++ op
  | .queryUnit t => "query unit must be an object, got " ++ t.render
  | .queryOperand t => "query operand must be numeric, got " ++ t.render
  | .tooDeep => "calls are nested too deeply"

end SemanticCause

/-- A semantic error: what is wrong, and where. -/
structure SemanticError where
  cause : SemanticCause
  span : Span
deriving DecidableEq, Repr

namespace SemanticError

/-- The kind of the error. -/
def kind (e : SemanticError) : SemanticKind := e.cause.kind

/-- The error as a diagnostic: its kind and the words of its cause. -/
def diagnostic (e : SemanticError) : Diagnostic :=
  { code := e.kind.code, span := e.span, message := e.kind.words ++ ": " ++ e.cause.message }

end SemanticError

end AisScript
