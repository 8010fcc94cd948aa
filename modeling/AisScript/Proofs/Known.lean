import AisScript.Proofs.Pipeline
import AisScript.Proofs.Pieces

/-!
# Known trees

What the passes behind typing and behind the expansion may read from a tree without a check.  An
accepted program leaves nothing open: every expression has its type, every name and assignment its
binding and every call its meaning, also inside the private bodies of calls, however deep they are
nested.  The templates of functions are the one part of the tree that typing does not look into, and
the expansion removes them, together with the calls and returns.

* `Block.parts`                   what is reached outside of templates, in the bodies of calls too
* `Part.IsKnown`                  what has to be known about a single part
* `Block.annotate_known`          typing leaves nothing unknown
* `Block.expand_complete`         expansion leaves nothing of the script's functions
-/

namespace AisScript

/-! ## Parts of typed trees -/

/-- What is reached in a typed tree, by the use that is made of it. -/
inductive Part where
  /-- An expression that is a statement of its own. -/
  | action (e : Expr)
  /-- An expression whose value is used. -/
  | value (e : Expr)
  /-- An assignment, also as a clause of a loop header or as the binding of a parameter. -/
  | assign (a : Assign)

mutual

/-- The parts below an expression, those of the bodies of its calls included. -/
def Expr.operandParts : Expr → List Part
  | .const _ _ | .var _ _ _ => []
  | .binary _ _ l r => .value l :: l.operandParts ++ (.value r :: r.operandParts)
  | .unary _ _ x => .value x :: x.operandParts
  | .call _ _ _ args t => argsParts args ++ t.parts
  | .member _ _ b _ _ => .value b :: b.operandParts
  | .query _ _ _ u x c => optionParts u ++ optionParts x ++ optionParts c

/-- The parts of arguments. -/
def argsParts : List Expr → List Part
  | [] => []
  | e :: es => .value e :: e.operandParts ++ argsParts es

/-- The parts of an expression that may be absent. -/
def optionParts : Option Expr → List Part
  | none => []
  | some e => .value e :: e.operandParts

/-- The parts of what a call stands for: of a function's body and the bindings of its parameters. -/
def Target.parts : Target → List Part
  | .unresolved | .intrinsic _ | .constructor _ => []
  | .function binds body => assignsParts binds ++ body.parts

/-- The parts of an assignment. -/
def Assign.parts : Assign → List Part
  | .mk i v => .assign (.mk i v) :: .value v :: v.operandParts

/-- The parts of assignments. -/
def assignsParts : List Assign → List Part
  | [] => []
  | a :: as => a.parts ++ assignsParts as

/-- The parts of a clause that may be absent. -/
def clauseParts : Option Assign → List Part
  | none => []
  | some a => a.parts

/-- The parts of a statement.  The template of a function has none. -/
def Stmt.parts : Stmt → List Part
  | .block b => b.parts
  | .eval _ e => .action e :: e.operandParts
  | .assign a => a.parts
  | .assignMember _ t v => .value t :: t.operandParts ++ (.value v :: v.operandParts)
  | .cond _ c t f => .value c :: c.operandParts ++ t.parts ++ elseParts f
  | .loop _ c b => .value c :: c.operandParts ++ b.parts
  | .forLoop _ i c st b => clauseParts i ++ optionParts c ++ clauseParts st ++ b.parts
  | .ret _ v => .value v :: v.operandParts
  | .leave _ | .code _ _ | .bitfieldDef _ _ | .enumDef _ _ | .require _ _ => []
  | .funcDef _ _ _ _ _ => []

/-- The parts of statements. -/
def stmtsParts : List Stmt → List Part
  | [] => []
  | s :: ss => s.parts ++ stmtsParts ss

/-- The parts of a block, its overrides included. -/
def Block.parts : Block → List Part
  | .mk os ss _ => assignsParts os ++ stmtsParts ss

/-- The parts of an else block that may be absent. -/
def elseParts : Option Block → List Part
  | none => []
  | some b => b.parts

end

/-! ## Known parts -/

/-- An expression with its type, whose name has its binding or whose call has its meaning. -/
def Expr.IsKnown (e : Expr) : Prop :=
  e.ty?.isSome = true ∧ match e with
    | .var _ _ b => b.isSome = true
    | .call _ _ _ _ .unresolved => False
    | _ => True

/-- A part about which everything is known.  Only a call that is a statement of its own may produce
nothing. -/
def Part.IsKnown : Part → Prop
  | .action e => e.IsKnown ∧ (e.ty? = some .void → e.kind = .call)
  | .value e => e.IsKnown ∧ e.ty? ≠ some .void
  | .assign a => a.info.binding.isSome = true

/-- Parts about which everything is known. -/
def KnownParts (ps : List Part) : Prop := ∀ p ∈ ps, p.IsKnown

/-- No parts at all. -/
private theorem knownParts_nil : KnownParts [] := fun _ hp => nomatch hp

/-- A part and those behind it. -/
private theorem knownParts_cons {p : Part} {ps : List Part} :
    KnownParts (p :: ps) ↔ p.IsKnown ∧ KnownParts ps :=
  List.forall_mem_cons

/-- Parts one behind the other. -/
private theorem knownParts_append {ps qs : List Part} :
    KnownParts (ps ++ qs) ↔ KnownParts ps ∧ KnownParts qs :=
  List.forall_mem_append

/-! ## Typing leaves nothing unknown -/

/-- The type of a proper expression is not that of a call that produces nothing. -/
theorem Expr.ne_void_of_proper {e : Expr} {t : Ty} (ht : e.ty? = some t) (hp : t.isProper = true) :
    e.ty? ≠ some .void := by
  intro hv
  rw [ht] at hv
  cases hv
  exact nomatch hp

/-- A resolved expression is known. -/
theorem Expr.Resolved.known {D : Dialect} {σ : Scope Entry} {lo hi : Nat} {e : Expr}
    (h : e.Resolved D σ lo hi) : e.IsKnown := by
  refine ⟨h.isSome_ty?, ?_⟩
  cases e with
  | var i n b =>
    obtain ⟨_, _, c, _, rfl, _⟩ := h
    rfl
  | call i n ns args t =>
    obtain ⟨_, _, _, _, ht, _⟩ := h
    cases t with
    | unresolved => exact ht.elim
    | _ => trivial
  | _ => trivial

/-- A resolved expression of a proper type is known where its value is used. -/
private theorem Expr.Resolved.known_value {D : Dialect} {σ : Scope Entry} {lo hi : Nat} {e : Expr} {t : Ty}
    (h : e.Resolved D σ lo hi) (ht : e.ty? = some t) (hp : t.isProper = true) :
    (Part.value e).IsKnown :=
  ⟨h.known, e.ne_void_of_proper ht hp⟩

/-- Only calls produce nothing: everything else a sound scope resolves has a proper type. -/
private theorem Expr.Resolved.known_action {D : Dialect} {σ : Scope Entry} {lo hi : Nat} (hσ : Sound D lo σ)
    {e : Expr} (h : e.Resolved D σ lo hi) : (Part.action e).IsKnown := by
  refine ⟨h.known, fun hvoid => ?_⟩
  have hne : ∀ {t : Ty}, e.ty? = some t → t.isProper = true → False :=
    fun ht hp => e.ne_void_of_proper ht hp hvoid
  cases e with
  -- Whatever is no call has a type of its own, so it is not void.
  | const i v =>
    refine (hne h.1 ?_).elim
    cases v <;> rfl
  | var i n b =>
    obtain ⟨_, _, c, hc, _, ht⟩ := h
    exact (hne ht (hσ.reached (.here hc)).2).elim
  | binary i op l r =>
    obtain ⟨_, _, _, _, _, _, _, _, hop, ht⟩ := h
    exact (hne ht (Ty.isProper_of_isNumeric (BinaryOp.isNumeric_resultTy hop))).elim
  | unary i op x =>
    obtain ⟨_, _, _, _, hop, ht⟩ := h
    exact (hne ht (Ty.isProper_of_isNumeric (UnaryOp.isNumeric_resultTy hop))).elim
  | call i n ns args t => rfl
  | member i a b n ns =>
    obtain ⟨_, _, _, _, hm, ht⟩ := h
    rw [memberTy_eq_int hm] at ht
    exact (hne ht rfl).elim
  | query i k op u x c =>
    obtain ⟨_, _, _, _, _, ht⟩ := h
    refine (hne ht ?_).elim
    split <;> rfl

/-- Bound parameters are known if the arguments are. -/
private theorem assignsParts_numberBinds_known (lo : Nat) (params : List Param) {args : List Expr}
    (h : KnownParts (argsParts args)) :
    KnownParts (assignsParts (numberBinds lo (bindArguments params args))) := by
  induction params generalizing lo args with
  | nil => exact knownParts_nil
  | cons p params ih =>
    cases args with
    | nil => exact knownParts_nil
    | cons e es =>
      rw [argsParts, knownParts_append] at h
      exact knownParts_append.2 ⟨knownParts_cons.2 ⟨rfl, h.1⟩, ih (lo + 1) h.2⟩

mutual

/-- Everything below a resolved expression is known. -/
private theorem Expr.Resolved.operands_known {D : Dialect} {σ : Scope Entry} {lo hi : Nat}
    (hσ : Sound D lo σ) : (e : Expr) → e.Resolved D σ lo hi → KnownParts e.operandParts
  | .const _ _, _ | .var _ _ _, _ => knownParts_nil
  | .binary _ _ l r, ⟨_, _, _, _, hl, hlt, hr, hrt, hop, _⟩ => by
    -- A numeric operator has proper operands.
    obtain ⟨hlp, hrp⟩ := BinaryOp.operands_proper hop
    -- The scope stays sound behind the left operand: entries that were made are never taken back.
    have hl' := Expr.Resolved.operands_known hσ l hl
    have hr' := Expr.Resolved.operands_known (hσ.mono hl.le) r hr
    exact knownParts_append.2 ⟨knownParts_cons.2 ⟨hl.known_value hlt hlp, hl'⟩,
      knownParts_cons.2 ⟨hr.known_value hrt hrp, hr'⟩⟩
  | .unary _ _ x, ⟨_, _, hx, hxt, hop, _⟩ =>
    knownParts_cons.2 ⟨hx.known_value hxt (UnaryOp.operand_proper hop), Expr.Resolved.operands_known hσ x hx⟩
  | .call _ _ _ args t, ⟨_, _, _, hargs, ht, _⟩ => by
    -- The function is entered behind its arguments, which are proper.
    have hargs' := ResolvedArgs.parts_known hσ args hargs
    exact knownParts_append.2
      ⟨hargs', Target.Resolved.parts_known (hσ.mono hargs.le) hargs' hargs.proper t ht⟩
  | .member _ _ b _ _, ⟨_, _, hb, hbt, hm, _⟩ =>
    knownParts_cons.2 ⟨hb.known_value hbt (memberTy_base hm).1, Expr.Resolved.operands_known hσ b hb⟩
  | .query _ _ _ u x c, ⟨_, _, hu, hx, hc, _⟩ => by
    -- The three parts of a query, each in a scope that is still sound.
    have hu' := ResolvedOption.parts_known hσ u hu
    have hσ := hσ.mono hu.le
    have hx' := ResolvedOption.parts_known hσ x hx
    have hc' := ResolvedOption.parts_known (hσ.mono hx.le) c hc
    exact knownParts_append.2 ⟨knownParts_append.2 ⟨hu', hx'⟩, hc'⟩

/-- Resolved arguments are known. -/
private theorem ResolvedArgs.parts_known {D : Dialect} {σ : Scope Entry} {lo hi : Nat} {types : List Ty}
    (hσ : Sound D lo σ) : (es : List Expr) → ResolvedArgs D σ lo hi types es → KnownParts (argsParts es)
  | [], _ => knownParts_nil
  | e :: es, ⟨_, _, _, _, he, ht, hp, hes⟩ =>
    knownParts_append.2 ⟨knownParts_cons.2 ⟨he.known_value ht hp, Expr.Resolved.operands_known hσ e he⟩,
      ResolvedArgs.parts_known (hσ.mono he.le) es hes⟩

/-- A resolved expression that may be absent is known. -/
private theorem ResolvedOption.parts_known {D : Dialect} {σ : Scope Entry} {lo hi : Nat} (hσ : Sound D lo σ) :
    (e : Option Expr) → ResolvedOption D σ lo hi e → KnownParts (optionParts e)
  | none, _ => knownParts_nil
  | some e, ⟨he, _, ht, hp⟩ =>
    knownParts_cons.2 ⟨he.known_value ht hp, Expr.Resolved.operands_known hσ e he⟩

/-- What a resolved call stands for is known: its body is resolved in the sound scope of the function's
definition, behind its parameters. -/
private theorem Target.Resolved.parts_known {D : Dialect} {σ : Scope Entry} {lo hi : Nat} {name : Text}
    {args : List Expr} {types : List Ty} {t : Ty} (hσ : Sound D lo σ) (hargs : KnownParts (argsParts args))
    (hproper : ∀ e ∈ args, ∃ t, e.ty? = some t ∧ t.isProper = true) : (target : Target) →
      target.Resolved D σ lo hi name args types t → KnownParts target.parts
  | .unresolved, h => h.elim
  | .intrinsic _, _ | .constructor _, _ => knownParts_nil
  | .function binds body, ⟨params, template, captured, hn, _, hbinds, hbody, _⟩ => by
    subst hbinds
    obtain ⟨hs, _⟩ := bodyScope_sound (hσ.inner hn) params hproper
    have hbody' := Block.Resolved.parts_known hs body hbody
    exact knownParts_append.2 ⟨assignsParts_numberBinds_known lo params hargs, hbody'⟩

/-- A resolved assignment is known. -/
private theorem Assign.Resolved.parts_known {D : Dialect} {σ : Scope Entry} {lo hi : Nat}
    (hσ : Sound D lo σ) : (a : Assign) → a.Resolved D σ lo hi → KnownParts a.parts
  | .mk i v, ⟨_, _, _, _, hv, ht, hval, hd, hn⟩ => by
    have hbound : i.binding.isSome = true := by
      cases hi : i.declares with
      | true => rw [(hd hi).2.1]; rfl
      | false =>
        obtain ⟨_, b, _, hb, _⟩ := hn hi
        rw [hb]; rfl
    have hv' := hv.known_value ht (Ty.isProper_of_isValue hval)
    exact knownParts_cons.2 ⟨hbound, knownParts_cons.2 ⟨hv', Expr.Resolved.operands_known hσ v hv⟩⟩

/-- A resolved clause is known. -/
private theorem ResolvedClause.parts_known {D : Dialect} {σ : Scope Entry} {lo hi : Nat} (hσ : Sound D lo σ) :
    (a : Option Assign) → ResolvedClause D σ lo hi a → KnownParts (clauseParts a)
  | none, _ => knownParts_nil
  | some a, h => Assign.Resolved.parts_known hσ a h

/-- A resolved statement is known. -/
private theorem Stmt.Resolved.parts_known {D : Dialect} {σ : Scope Entry} {lo hi : Nat} {last : Bool}
    (hσ : Sound D lo σ) : (s : Stmt) → s.Resolved D σ lo hi last → KnownParts s.parts
  | .block b, h => Block.Resolved.parts_known hσ.push b h
  | .eval _ e, h => knownParts_cons.2 ⟨Expr.Resolved.known_action hσ h, Expr.Resolved.operands_known hσ e h⟩
  | .assign a, h => Assign.Resolved.parts_known hσ a h
  | .assignMember _ t v, ⟨_, _, hm, ht, _, hv, hvt⟩ => by
    -- The target is a member of a name, so it is an integer.
    have htarget : (Part.value t).IsKnown := by
      obtain ⟨i, b, n, ns, hi, hb, rfl⟩ := Expr.eq_of_isNamedMember hm
      have hint := ht
      obtain ⟨_, _, _, _, hmember, hty⟩ := hint
      rw [memberTy_eq_int hmember] at hty
      exact ht.known_value hty rfl
    have ht' := Expr.Resolved.operands_known hσ t ht
    have hv' := Expr.Resolved.operands_known (hσ.mono ht.le) v hv
    exact knownParts_append.2 ⟨knownParts_cons.2 ⟨htarget, ht'⟩,
      knownParts_cons.2 ⟨hv.known_value hvt rfl, hv'⟩⟩
  | .cond _ c t f, ⟨_, _, _, hc, hct, hnum, ht, hf⟩ => by
    have hc' := Expr.Resolved.operands_known hσ c hc
    -- The branches are typed in frames of their own, behind the condition.
    have hσ := hσ.mono hc.le
    have ht' := Block.Resolved.parts_known hσ.push t ht
    have hf' := ResolvedElse.parts_known (hσ.mono ht.le) f hf
    exact knownParts_append.2 ⟨knownParts_append.2
      ⟨knownParts_cons.2 ⟨hc.known_value hct (Ty.isProper_of_isNumeric hnum), hc'⟩, ht'⟩, hf'⟩
  | .loop _ c b, ⟨_, _, hc, hct, hnum, hb⟩ => by
    -- The body has a frame of its own, behind the condition.
    have hc' := Expr.Resolved.operands_known hσ c hc
    have hb' := Block.Resolved.parts_known (hσ.mono hc.le).push b hb
    exact knownParts_append.2
      ⟨knownParts_cons.2 ⟨hc.known_value hct (Ty.isProper_of_isNumeric hnum), hc'⟩, hb'⟩
  | .forLoop _ i c st b, ⟨_, _, _, hi, hc, hst, _, hb⟩ => by
    -- The header has a frame of its own; test, step and body are typed behind the clauses before them.
    have hi' := ResolvedClause.parts_known hσ.push i hi
    have hσ := hi.sound hσ.push
    have hc' := ResolvedOption.parts_known hσ c hc
    have hσ := hσ.mono hc.le
    have hst' := ResolvedClause.parts_known hσ st hst
    have hb' := Block.Resolved.parts_known (hst.sound hσ).push b hb
    exact knownParts_append.2 ⟨knownParts_append.2 ⟨knownParts_append.2 ⟨hi', hc'⟩, hst'⟩, hb'⟩
  | .ret _ v, ⟨_, hv, _, ht, hval⟩ =>
    knownParts_cons.2 ⟨hv.known_value ht (Ty.isProper_of_isValue hval), Expr.Resolved.operands_known hσ v hv⟩
  | .leave _, _ | .code _ _, _ | .bitfieldDef _ _, _ | .enumDef _ _, _ => knownParts_nil
  | .funcDef _ _ _ _ _, _ => knownParts_nil
  | .require _ _, h => h.elim

/-- Resolved statements are known. -/
private theorem ResolvedStmts.parts_known {D : Dialect} {σ : Scope Entry} {lo hi : Nat} {last : Bool}
    (hσ : Sound D lo σ) : (ss : List Stmt) → ResolvedStmts D σ lo hi last ss → KnownParts (stmtsParts ss)
  | [], _ => knownParts_nil
  | s :: ss, ⟨_, hs, hss⟩ =>
    knownParts_append.2 ⟨Stmt.Resolved.parts_known hσ s hs,
      ResolvedStmts.parts_known (hs.sound hσ) ss hss⟩

/-- A resolved block is known. -/
private theorem Block.Resolved.parts_known {D : Dialect} {σ : Scope Entry} {lo hi : Nat} {last : Bool}
    (hσ : Sound D lo σ) : (b : Block) → b.Resolved D σ lo hi last → KnownParts b.parts
  | .mk _ ss _, ⟨ho, hss⟩ => by
    subst ho
    exact ResolvedStmts.parts_known hσ ss hss

/-- A resolved else block is known. -/
private theorem ResolvedElse.parts_known {D : Dialect} {σ : Scope Entry} {lo hi : Nat} (hσ : Sound D lo σ) :
    (b : Option Block) → ResolvedElse D σ lo hi b → KnownParts (elseParts b)
  | none, _ => knownParts_nil
  | some b, h => Block.Resolved.parts_known hσ.push b h

end

/-- Typing leaves nothing unknown: in what an accepted program is typed to, outside the templates of
functions but inside the private bodies of all calls, every expression has its type, every name and
every assignment its binding and every call its meaning, and only a call that is a statement of its own
produces nothing. -/
theorem Block.annotate_known {h : Host} (hh : ∀ g ∈ h.globals, g.ty.isProper = true)
    {program typed : Block} (hp : program.Sourced) (ha : program.Accepted h typed) :
    ∀ p ∈ typed.parts, p.IsKnown := by
  obtain ⟨hi, hr⟩ := ha.resolved hh hp
  obtain ⟨hs, _⟩ := @Host.entryScope_sound .full (fun _ _ => trivial) h hh
  exact hr.parts_known hs.push

/-- `def f(a) return a + 1 end def g(b) say(f(b)) end g(2)`: a call that produces nothing, and one inside
its body. -/
def nestedCalls : Block :=
  .mk [] [.funcDef {} "f" {} [⟨"a", {}⟩]
      (.mk [] [.ret {} (.infixOp .add (.name "a" {}) (.literal (.int 1) {}))] {}),
    .funcDef {} "g" {} [⟨"b", {}⟩]
      (.mk [] [.eval {} (.apply "say" {} [.apply "f" {} [.name "b" {}] {}] {})] {}),
    .eval {} (.apply "g" {} [.literal (.int 2) {}] {})] {}

/-- Everything in the nested bodies is known. -/
theorem nestedCalls_known : nestedCalls.Sourced
    ∧ ∀ p ∈ ((nestedCalls.declare .default).1.annotate .default).1.parts, p.IsKnown := by
  have hsourced : nestedCalls.Sourced := by
    simp [nestedCalls, Block.Sourced, Block.Marked, MarkedStmts, Stmt.Marked, Expr.Bare, Expr.literal,
      Expr.name, Expr.apply, Expr.infixOp, Expr.nodes, nodesOfList, Expr.IsBare, Dialect.full, Literal.ty]
  refine ⟨hsourced, @Block.annotate_known .default (by decide) nestedCalls _ hsourced
    (Block.accepted_of_none ?_ ?_)⟩
  · decide +kernel
  · decide +kernel

/-! ## Expansion leaves nothing of functions -/

/-- A node with its type and without a trace of the script's functions. -/
def Node.IsExpanded : Node → Prop
  | .expr e => e.ty?.isSome = true ∧ match e with
    | .call _ _ _ _ .unresolved | .call _ _ _ _ (.function _ _) => False
    | _ => True
  | .stmt (.funcDef _ _ _ _ _) | .stmt (.ret _ _) => False
  | .stmt _ => True

/-- A settled node is expanded. -/
theorem Node.IsSettled.expanded {n : Node} (h : n.IsSettled) : n.IsExpanded := by
  -- Settled calls have host functions or are built in, and settled statements neither define nor return.
  cases n with
  | expr e =>
    refine ⟨h.1, ?_⟩
    cases e with
    | call i n ns args t =>
      cases t with
      | unresolved => exact h.2.elim
      | function binds body => exact h.2.elim
      | _ => trivial
    | _ => trivial
  | stmt s =>
    cases s with
    | funcDef _ _ _ _ _ => exact h.elim
    | ret _ _ => exact h.elim
    | _ => trivial

/-- Expansion is complete: every accepted program expands, and in no place of the result, be it in
overrides, clauses, operands or nested blocks, is a call of the script's functions, a definition of a
function or a return left, and every expression, the made up ones included, has its type. -/
theorem Block.expand_complete {h : Host} (hh : ∀ g ∈ h.globals, g.ty.isProper = true)
    {program typed : Block} (hp : program.Sourced) (ha : program.Accepted h typed) :
    ∃ x, typed.expand = .ok x ∧ ∀ n ∈ x.program.nodes, n.IsExpanded := by
  obtain ⟨hi, hr⟩ := ha.resolved hh hp
  obtain ⟨x, hx, hxs⟩ := Block.expand_settled hr
  exact ⟨x, hx, fun n hn => (hxs n hn).expanded⟩

/-- `def f(a) return a end for i = f(0); f(i) < 2; i = i + f(1) say(i) end`: calls in every clause of a
loop. -/
def callingLoop : Block :=
  .mk [] [.funcDef {} "f" {} [⟨"a", {}⟩] (.mk [] [.ret {} (.name "a" {})] {}),
    .forLoop {} (some (.make "i" (.apply "f" {} [.literal (.int 0) {}] {}) false {}))
      (some (.infixOp .lt (.apply "f" {} [.name "i" {}] {}) (.literal (.int 2) {})))
      (some (.make "i" (.infixOp .add (.name "i" {}) (.apply "f" {} [.literal (.int 1) {}] {})) false {}))
      (.mk [] [.eval {} (.apply "say" {} [.name "i" {}] {})] {})] {}

/-- The calls in the clauses of a loop are expanded. -/
theorem callingLoop_complete :
    ∃ x, ((callingLoop.declare .default).1.annotate .default).1.expand = .ok x
      ∧ ∀ n ∈ x.program.nodes, n.IsExpanded := by
  refine @Block.expand_complete .default (by decide) callingLoop _ ?_
    (Block.accepted_of_none ?_ ?_)
  · simp [callingLoop, Block.Sourced, Block.Marked, MarkedStmts, Stmt.Marked, MarkedClause, BareOption,
      nodesOfOption, Assign.Marked, Assign.make, Assign.info, Expr.Bare, Expr.literal, Expr.name, Expr.apply,
      Expr.infixOp, Expr.nodes, nodesOfList, Expr.IsBare, Dialect.full, Literal.ty]
  · decide +kernel
  · decide +kernel

end AisScript
