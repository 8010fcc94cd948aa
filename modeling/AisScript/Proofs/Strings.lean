import AisScript.Proofs.Members

/-!
# Strings

* `Node.isString`   variables of type string and assignments of strings
-/

namespace AisScript

/-- Whether a node is a variable of type string or the assignment of a string. -/
def Node.isString : Node → Bool
  | .expr (.var i _ _) => i.ty == some .string
  | .stmt (.assign a) => a.value.ty? == some .string
  | _ => false

/-- `def f() return "x" end for ; ; s = f() say(s) end`: a string variable that is declared by a step with a
call, which moves behind the body that reads the variable. -/
def movingWord : Block :=
  .mk [] [.funcDef {} "f" {} [] (.mk [] [.ret {} (.literal (.string "x") {})] {}),
    .forLoop {} none none (some (.make "s" (.apply "f" {} [] {}) false {}))
      (.mk [] [.eval {} (.apply "say" {} [.name "s" {}] {})] {})] {}

/-- The body of the accepted loop still reads its string variable, and nothing declares one. -/
theorem movingWord_remains : ∃ typed lowered, movingWord.Accepted .default typed
    ∧ typed.lower = .ok lowered ∧ ∃ x ∈ lowered.nodes, x.isString = true := by
  let typed := ((movingWord.declare .default).1.annotate .default).1
  -- It is accepted, by evaluation.
  have haccepted : movingWord.Accepted .default typed :=
    Block.accepted_of_none (by decide +kernel) (by decide +kernel)
  -- A node of the lowered program still holds a string.
  have hremains : (typed.lower.toOption.map fun b => b.nodes.any Node.isString) = some true := by
    decide +kernel
  -- The program is lowered, since there are nodes to look at.
  cases hlower : typed.lower with
  | error f =>
    rw [hlower] at hremains
    exact nomatch hremains
  | ok lowered =>
    rw [hlower] at hremains
    exact ⟨typed, lowered, haccepted, hlower, List.any_eq_true.1 (Option.some.inj hremains)⟩

end AisScript
