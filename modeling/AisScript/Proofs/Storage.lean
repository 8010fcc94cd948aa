import AisScript.Proofs.Members

/-!
# Declarations of generated code

* `Block.frames`   the names that each frame of a tree declares
* `Site.Held`      a place whose names are declared
* `twinParameters`   a call after which one frame declares a name twice
-/

namespace AisScript

/-! ## Frames -/

/-- The name that an assignment declares. -/
def Assign.declared? (a : Assign) : Option Text := if a.info.declares then some a.info.name else none

/-- The name that a statement declares in the frame around it. -/
def Stmt.declared? : Stmt → Option Text
  | .assign a => a.declared?
  | _ => none

/-- The names that a block declares in its frame, its overrides first. -/
def Block.declares : Block → List Text
  | .mk os ss _ => os.filterMap Assign.declared? ++ ss.filterMap Stmt.declared?

/-- The names that the header of a loop declares. -/
def headerDeclares (i st : Option Assign) : List Text := (i.toList ++ st.toList).filterMap Assign.declared?

/-- The names declared in each frame that a node opens. -/
def Node.frames : Node → List (List Text)
  | .stmt (.block b) | .stmt (.loop _ _ b) | .stmt (.funcDef _ _ _ _ b) => [b.declares]
  | .stmt (.cond _ _ t f) => t.declares :: f.toList.map Block.declares
  | .stmt (.forLoop _ i _ st b) => [headerDeclares i st, b.declares]
  | _ => []

/-- The names declared in each frame of a program. -/
def Block.frames (b : Block) : List (List Text) := b.declares :: b.nodes.flatMap Node.frames

/-! ## Places -/

/-- The name that a node reads or assigns without declaring it. -/
def Node.name? : Node → Option Text
  | .expr (.var _ n _) => some n
  | .stmt (.assign a) => if a.info.declares then none else some a.info.name
  | _ => none

/-- The name that is read or assigned at a place is declared in front of it, or the host has it. -/
def Site.Held (h : Host) (s : Site) : Prop :=
  ∀ n, s.node.name? = some n → s.env.declares n = true ∨ h.has n = true

/-- The name that is read or assigned at a place and not declared. -/
def Site.stray? (h : Host) (s : Site) : Option Text :=
  s.node.name?.filter fun n => !(s.env.declares n || h.has n)

/-- A place with such a name is not held. -/
private theorem Site.not_held_of_stray {h : Host} {s : Site} {n : Text} (hs : s.stray? h = some n) :
    ¬s.Held h := by
  obtain ⟨hname, hnot⟩ := Option.filter_eq_some_iff.1 hs
  intro hheld
  rcases hheld n hname with hdeclared | hhas
  · rw [hdeclared] at hnot
    exact nomatch hnot
  · rw [hhas, Bool.or_true] at hnot
    exact nomatch hnot

/-- `def f() return 1 end for ; ; j = f() say(j) end`: a variable that is declared by a step with a call,
which moves behind the body that reads the variable. -/
def movingStep : Block :=
  .mk [] [.funcDef {} "f" {} [] (.mk [] [.ret {} (.literal (.int 1) {})] {}),
    .forLoop {} none none (some (.make "j" (.apply "f" {} [] {}) false {}))
      (.mk [] [.eval {} (.apply "say" {} [.name "j" {}] {})] {})] {}

/-- The body of the accepted loop reads its variable in front of the declaration. -/
theorem movingStep_strays : ∃ typed lowered, movingStep.Accepted .default typed
    ∧ typed.lower = .ok lowered ∧ ∃ s ∈ lowered.sites [], ¬s.Held .default := by
  let typed := ((movingStep.declare .default).1.annotate .default).1
  -- It is accepted, by evaluation.
  have haccepted : movingStep.Accepted .default typed :=
    Block.accepted_of_none (by decide +kernel) (by decide +kernel)
  -- One of its places reads `j` without a declaration.
  have hstray : (typed.lower.toOption.map fun b => (b.sites []).filterMap (Site.stray? .default))
      = some [Text.ofString "j"] := by decide +kernel
  -- The program is lowered, since there are places to look at.
  cases hlower : typed.lower with
  | error f =>
    rw [hlower] at hstray
    exact nomatch hstray
  | ok lowered =>
    rw [hlower] at hstray
    have heq : (lowered.sites []).filterMap (Site.stray? .default) = [Text.ofString "j"] :=
      Option.some.inj hstray
    have hmem : Text.ofString "j" ∈ (lowered.sites []).filterMap (Site.stray? .default) := by
      rw [heq]
      exact List.mem_singleton_self _
    -- The place with that name is not held.
    obtain ⟨s, hs, hn⟩ := List.mem_filterMap.1 hmem
    exact ⟨typed, lowered, haccepted, hlower, s, hs, Site.not_held_of_stray hn⟩

/-- `def f(a, a) return a end y = f(1, 2)`: a function with two parameters of one name. -/
def twinParameters : Block :=
  .mk [] [.funcDef {} "f" {} [⟨"a", {}⟩, ⟨"a", {}⟩] (.mk [] [.ret {} (.name "a" {})] {}),
    .assign (.make "y" (.apply "f" {} [.literal (.int 1) {}, .literal (.int 2) {}] {}) false {})] {}

/-- The block of the accepted call declares its parameter twice. -/
theorem twinParameters_twice : ∃ typed lowered, twinParameters.Accepted .default typed
    ∧ typed.lower = .ok lowered ∧ ∃ ns ∈ lowered.frames, ¬ns.Nodup := by
  let typed := ((twinParameters.declare .default).1.annotate .default).1
  -- It is accepted, by evaluation.
  have haccepted : twinParameters.Accepted .default typed :=
    Block.accepted_of_none (by decide +kernel) (by decide +kernel)
  -- One of its blocks declares `a` twice.
  have htwice : (typed.lower.toOption.map fun b => b.frames.filter fun ns => !decide ns.Nodup)
      = some [[Text.ofString "a", Text.ofString "a"]] := by decide +kernel
  -- The program is lowered, since there are blocks to look at.
  cases hlower : typed.lower with
  | error f =>
    rw [hlower] at htwice
    exact nomatch htwice
  | ok lowered =>
    rw [hlower] at htwice
    have heq : (lowered.frames.filter fun ns => !decide ns.Nodup)
        = [[Text.ofString "a", Text.ofString "a"]] := Option.some.inj htwice
    have hmem : [Text.ofString "a", Text.ofString "a"]
        ∈ lowered.frames.filter fun ns => !decide ns.Nodup := by
      rw [heq]
      exact List.mem_singleton_self _
    -- A list with one name twice is not without repeats.
    exact ⟨typed, lowered, haccepted, hlower, _, (List.mem_filter.1 hmem).1, by decide⟩

end AisScript
