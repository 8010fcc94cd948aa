import AisScript.Proofs.Copies

/-!
# How expanded trees are put together

What expansion does to a typed tree, apart from the order of its steps: temporaries and the bodies of
calls are put in front of a statement, tests and steps of loops with calls move into the body, and what
is left of every expression reads the variables it read before, or temporaries from in front of it.
Properties of expanded trees are proved along this relation, one case for each way of putting a tree
together, whatever expressions and statements the tree comes from.

* `Block.deep`            the nodes of a typed tree, those of called bodies included
* `Left`                  what is left of expressions
* `Assembled`             statements that expansion can put together
* `Block.expand_assembled`  expansion puts its result together so
-/

namespace AisScript

/-! ## Nodes with called bodies -/

mutual

/-- The nodes of an expression, those of the bodies of its calls included. -/
def Expr.deep : Expr → List Node
  | e@(.const _ _) | e@(.var _ _ _) => [.expr e]
  | e@(.binary _ _ l r) => .expr e :: (l.deep ++ r.deep)
  | e@(.unary _ _ x) => .expr e :: x.deep
  | e@(.call _ _ _ args t) => .expr e :: (deepList args ++ t.deep)
  | e@(.member _ _ b _ _) => .expr e :: b.deep
  | e@(.query _ _ _ u x c) => .expr e :: (deepOption u ++ deepOption x ++ deepOption c)

/-- The nodes of several expressions. -/
def deepList : List Expr → List Node
  | [] => []
  | e :: es => e.deep ++ deepList es

/-- The nodes of an expression that may be absent. -/
def deepOption : Option Expr → List Node
  | none => []
  | some e => e.deep

/-- The nodes of the body that a call carries. -/
def Target.deep : Target → List Node
  | .unresolved | .intrinsic _ | .constructor _ => []
  | .function _ body => body.deep

/-- The nodes of an assignment. -/
def Assign.deep : Assign → List Node
  | .mk i v => .stmt (.assign (.mk i v)) :: v.deep

/-- The nodes of a clause that may be absent. -/
def deepClause : Option Assign → List Node
  | none => []
  | some a => a.deep

/-- The nodes of a statement.  The template of a function has none. -/
def Stmt.deep : Stmt → List Node
  | s@(.block b) => .stmt s :: b.deep
  | .assign a => a.deep
  | s@(.eval _ e) | s@(.ret _ e) => .stmt s :: e.deep
  | s@(.assignMember _ t v) => .stmt s :: (t.deep ++ v.deep)
  | s@(.cond _ c t f) => .stmt s :: (c.deep ++ t.deep ++ deepElse f)
  | s@(.loop _ c b) => .stmt s :: (c.deep ++ b.deep)
  | s@(.forLoop _ i c st b) => .stmt s :: (deepClause i ++ deepOption c ++ deepClause st ++ b.deep)
  | s@(.leave _) | s@(.code _ _) | s@(.bitfieldDef _ _) | s@(.enumDef _ _) | s@(.require _ _)
  | s@(.funcDef _ _ _ _ _) => [.stmt s]

/-- The nodes of statements. -/
def deepStmts : List Stmt → List Node
  | [] => []
  | s :: ss => s.deep ++ deepStmts ss

/-- The nodes of a block's statements. -/
def Block.deep : Block → List Node
  | .mk _ ss _ => deepStmts ss

/-- The nodes of an else block that may be absent. -/
def deepElse : Option Block → List Node
  | none => []
  | some b => b.deep

end

/-- A loop whose step declares nothing if it calls one of the script's functions: such a step moves behind
the body. -/
def Node.Steady : Node → Prop
  | .stmt (.forLoop _ _ _ (some a) _) => a.value.hasScriptCall = true → a.info.declares = false
  | _ => True

/-- A reference that is not to an enumeration itself. -/
def Node.Valued : Node → Prop
  | .expr (.var _ _ (some b)) => b.origin ≠ .enumeration
  | _ => True

/-- A call that binds no two parameters of one name. -/
def Node.Apart : Node → Prop
  | .expr (.call _ _ _ _ (.function binds _)) => (binds.map (·.info.name)).Nodup
  | _ => True

/-! ## What is left of expressions -/

/-- Statements that declare a temporary for values of a type and assign it in a block. -/
def Supplies (p : List Stmt) (n : Text) (t : Option Ty) : Prop :=
  (∃ zero sp, Stmt.assign (.make n zero true sp) ∈ p ∧ zero.ty? = t)
    ∧ ∃ b v sp, .block b ∈ p ∧ .assign (.make n v false sp) ∈ b.stmts

/-- Whether an expression is a variable. -/
def Expr.isVar : Expr → Bool
  | .var _ _ _ => true
  | _ => false

/-- An expression that is a string only if it is a literal or a variable. -/
def Expr.IsWorded (e : Expr) : Prop :=
  match e with
  | .const i v => i.ty = some .string → ∃ t, v = .string t
  | .var _ _ _ => True
  | e => e.ty? ≠ some .string

/-- A literal of type string is one. -/
private theorem Literal.isWorded {i : ExprInfo} (v : Literal) (h : i.ty = some v.ty) :
    (Expr.const i v).IsWorded := by
  intro hs
  rw [h] at hs
  cases v with
  | string t => exact ⟨t, rfl⟩
  | int _ | float _ => cases hs

/-- What is left of expressions behind the statements `p` in front of them: variables that are reached
from the scope, and temporaries that `p` supplies. -/
structure Left (σ : Scope Entry) (p : List Stmt) (es : List Expr) : Prop where
  reached : ∀ i n b, .var i n (some b) ∈ es →
    Reaches σ n b ∧ n.isPlain = true ∧ i.ty = some b.ty ∧ b.origin ≠ .enumeration
  supplied : ∀ i n, .var i n none ∈ es → Supplies p n i.ty
  worded : ∀ e ∈ es, e.IsWorded

/-- More statements supply more temporaries. -/
theorem Supplies.mono {p q : List Stmt} {n : Text} {t : Option Ty} (h : Supplies p n t) (hpq : p ⊆ q) :
    Supplies q n t := by
  obtain ⟨⟨zero, sp, hz, ht⟩, b, v, sp', hb, hv⟩ := h
  exact ⟨⟨zero, sp, hpq hz, ht⟩, b, v, sp', hpq hb, hv⟩

namespace Left

variable {σ τ : Scope Entry} {p q : List Stmt} {es fs : List Expr}

/-- No expressions at all. -/
theorem nil : Left σ p [] where
  reached _ _ _ hx := absurd hx List.not_mem_nil
  supplied _ _ hx := absurd hx List.not_mem_nil
  worded _ hx := absurd hx List.not_mem_nil

/-- Expressions one behind the other. -/
theorem append (he : Left σ p es) (hf : Left σ p fs) : Left σ p (es ++ fs) where
  reached i n b hx := (List.mem_append.1 hx).elim (he.reached i n b) (hf.reached i n b)
  supplied i n hx := (List.mem_append.1 hx).elim (he.supplied i n) (hf.supplied i n)
  worded x hx := (List.mem_append.1 hx).elim (he.worded x) (hf.worded x)

/-- An expression that is no variable, and those below it. -/
theorem cons (h : Left σ p es) {e : Expr} (hvar : e.isVar = false) (he : e.IsWorded) :
    Left σ p (e :: es) where
  -- What is added is no variable, so whatever is said of variables is known of the others.
  reached i n b hx := by
    rcases List.mem_cons.1 hx with rfl | hx
    · cases hvar
    · exact h.reached i n b hx
  supplied i n hx := by
    rcases List.mem_cons.1 hx with rfl | hx
    · cases hvar
    · exact h.supplied i n hx
  worded x hx := by
    rcases List.mem_cons.1 hx with rfl | hx
    · exact he
    · exact h.worded x hx

/-- More statements in front. -/
theorem mono (h : Left σ p es) (hpq : p ⊆ q) : Left σ q es where
  reached := h.reached
  supplied i n hx := (h.supplied i n hx).mono hpq
  worded := h.worded

/-- Only what is found in the scope counts. -/
theorem congr (h : Left σ p es) (heq : ∀ m, τ.lookup m = σ.lookup m) : Left τ p es where
  reached i n b hx := by
    obtain ⟨hr, hrest⟩ := h.reached i n b hx
    exact ⟨hr.congr heq, hrest⟩
  supplied := h.supplied
  worded := h.worded

/-- A literal. -/
theorem literal (v : Literal) (sp : Span) : Left σ p [.literal v sp] :=
  nil.cons rfl (v.isWorded rfl)

end Left

/-! ## Trees put together -/

/-- A statement that declares nothing itself, with the nodes of its expressions and with its blocks. -/
inductive Stmt.Holds : Stmt → List Expr → List Block → Prop where
  | eval (sp : Span) (e : Expr) : Holds (.eval sp e) e.nodes []
  | ret (sp : Span) (v : Expr) : Holds (.ret sp v) v.nodes []
  | assignMember (sp : Span) (t v : Expr) : Holds (.assignMember sp t v) (t.nodes ++ v.nodes) []
  | cond (sp : Span) (c : Expr) (t : Block) : Holds (.cond sp c t none) c.nodes [t]
  | condElse (sp : Span) (c : Expr) (t f : Block) : Holds (.cond sp c t (some f)) c.nodes [t, f]
  | loop (sp : Span) (c : Expr) (b : Block) : Holds (.loop sp c b) c.nodes [b]
  | leave (sp : Span) : Holds (.leave sp) [] []
  | code (sp : Span) (t : Text) : Holds (.code sp t) [] []
  | bitfieldDef (sp : Span) (d : Bitfield) : Holds (.bitfieldDef sp d) [] []

/-- Statements that expansion can put together, in scope `σ` with `τ` behind them.  Their own bindings are
numbered from `lo` up to `hi`, and `c` and `c'` are the states around their expansion.  What stands in front
of an expression is marked by `f`.  Under `P` the parameters of all called functions have different
names. -/
inductive Assembled (D : Dialect) (P : Prop) : (f : Bool) → (σ τ : Scope Entry) → (lo hi : Nat) →
    (c c' : Expansion) → List Stmt → Prop where
  | nil {f : Bool} {σ : Scope Entry} {lo hi : Nat} {c : Expansion} (hle : lo ≤ hi) :
    Assembled D P f σ σ lo hi c c []
  | append {f g g' : Bool} {σ τ υ : Scope Entry} {lo mid hi : Nat} {c c₁ c' : Expansion}
      {p q : List Stmt} (hf : f = true → g = true ∧ g' = true)
      (first : Assembled D P g σ τ lo mid c c₁ p) (second : Assembled D P g' τ υ mid hi c₁ c' q) :
    Assembled D P f σ υ lo hi c c' (p ++ q)
  | congr {f : Bool} {σ τ σ' τ' : Scope Entry} {lo hi : Nat} {c c' : Expansion} {p : List Stmt}
      (hσ : ∀ m, σ'.lookup m = σ.lookup m) (hτ : ∀ m, τ'.lookup m = τ.lookup m)
      (same : Assembled D P f σ τ lo hi c c' p) : Assembled D P f σ' τ' lo hi c c' p
  /-- A definition that brings no new variables. -/
  | rescope {σ τ : Scope Entry} {lo : Nat} {c : Expansion} (hr : ∀ n b, Reaches τ n b → Reaches σ n b)
      (hshows : ∀ n, σ.Shows n → τ.Shows n) (hsound : Sound D lo σ → Sound D lo τ) :
    Assembled D P false σ τ lo lo c c []
  | enumeration {σ : Scope Entry} {lo : Nat} {c : Expansion} (sp : Span) (d : Enumeration)
      (plain : ∀ m ∈ d.members, m.name.isPlain = true) :
    Assembled D P false σ (bindEnum σ lo d).1 lo (lo + 1 + d.members.length) c c [.enumDef sp d]
  | block {f : Bool} {σ τ : Scope Entry} {lo hi : Nat} {c c' : Expansion} {ss : List Stmt} (sp : Span)
      (inner : Assembled D P f σ.push τ lo hi c c' ss) :
    Assembled D P false σ σ lo hi c c' [.block (.mk [] ss sp)]
  /-- A statement behind what stands in front of its expressions. -/
  | nest {σ : Scope Entry} {lo mid hi : Nat} {c c₁ c' : Expansion} {p : List Stmt} {s : Stmt}
      {es : List Expr} {bs : List Block} (before : Assembled D P true σ σ lo mid c c₁ p)
      (inner : Assembled D P false σ σ mid hi c₁ c' (bs.map .block)) (left : Left σ p es)
      (holds : s.Holds es bs) : Assembled D P false σ σ lo hi c c' (p ++ [s])
  | declare {σ : Scope Entry} {lo mid : Nat} {c c' : Expansion} {p : List Stmt} {i : AssignInfo}
      {v : Expr} {t : Ty} (before : Assembled D P true σ σ lo mid c c' p) (left : Left σ p v.nodes)
      (declares : i.declares = true) (binding : i.binding = some (.variable mid t))
      (plain : i.name.isPlain = true) (unbound : σ.lookup i.name = none) (ty : v.ty? = some t)
      (proper : t.isProper = true) :
    Assembled D P false σ (σ.define i.name (.value (.variable mid t))) lo (mid + 1) c c'
      (p ++ [.assign (.mk i v)])
  | assign {σ : Scope Entry} {lo hi : Nat} {c c' : Expansion} {p : List Stmt} {i : AssignInfo} {v : Expr}
      {b : Binding} {t : Ty} (before : Assembled D P true σ σ lo hi c c' p) (left : Left σ p v.nodes)
      (declares : i.declares = false) (binding : i.binding = some b) (plain : i.name.isPlain = true)
      (bound : σ.lookup i.name = some (.value b)) (ty : v.ty? = some t)
      (assignable : b.ty.assignable t = true) (mutable : b.immutable = false) :
    Assembled D P false σ σ lo hi c c' (p ++ [.assign (.mk i v)])
  /-- A loop behind what stands in front of its first clause `i`, with its test `x` and its step `st` in
  the header or moved into the body, where `q` and `r` stand in front of them. -/
  | forLoop {σ η η' υ : Scope Entry} {lo m m₁ m₂ m' m₃ hi : Nat} {c c₁ c₂ c₃ c' : Expansion}
      {p q r ss inner last : List Stmt} {i st step : Option Assign} {x test : Option Expr}
      (sp span span' : Span)
      (before : Assembled D P true σ.push σ.push lo m c c₁ p)
      (init : Assembled D P false σ.push η lo m₁ c c₁ (p ++ i.toList.map .assign))
      (tested : Assembled D P true η η m₁ m₂ c₁ c₂ q) (left : Left η q (nodesOfOption x))
      (body : Assembled D P false η'.push υ m₃ hi c₂ c₃ ss)
      (between : Assembled D P true η η m₂ m' c₃ c' r)
      (stepped : Assembled D P false η η' m₂ m₃ c₃ c' (r ++ st.toList.map .assign))
      (htest : test = x ∧ q = [] ∧ inner = ss
        ∨ test = none ∧ ∃ e, x = some e ∧ inner = q ++ [guarded sp e (.mk [] ss span')])
      (hstep : step = st ∧ r = [] ∧ last = []
        ∨ step = none ∧ η' = η ∧ last = r ++ st.toList.map .assign) :
    Assembled D P false σ σ lo hi c c' (p ++ [.forLoop sp i test step (.mk [] (inner ++ last) span)])
  /-- What stands for a call, behind what stands in front of its arguments. -/
  | call {σ υ : Scope Entry} {lo mid hi : Nat} {c c₁ c₂ c₃ c' : Expansion} {p q : List Stmt}
      {name : Text} {params : List Param} {template b : Block} {captured : List (Text × Entry)}
      {args args' : List Expr} {binds : List Assign} {ss : List Stmt} {e e' : Expr} (sp : Span)
      (before : Assembled D P true σ σ lo mid c c₁ p) (left : Left σ p (nodesOfList args'))
      (function : σ.lookup name = some (.function params template captured))
      (count : params.length = args.length) (types : args'.map Expr.ty? = args.map Expr.ty?)
      (proper : ∀ a ∈ args, ∃ t, a.ty? = some t ∧ t.isProper = true)
      (bound : binds = numberBinds mid (bindArguments params args))
      (apart : P → (binds.map (·.info.name)).Nodup)
      (body : Assembled D P false (bodyScope captured binds) υ (mid + params.length) hi
        { c₁ with expanded := name :: c₁.expanded } c₂ ss)
      (fresh : freshened (.mk (bindExpanded binds args') ss sp) c₂ = .ok (b, c₃))
      (returns : ∀ s v, ss.getLast? = some (.ret s v) → v.ty? = e.ty?)
      (place : placeBody e b c₃ = .ok ((q, e'), c')) (kept : e'.ty? = e.ty?) :
    Assembled D P true σ σ lo hi c c' (p ++ q)

/-! ## What is left of resolved expressions -/

/-- A node of a typed tree with what its expansion relies on: loops are steady, enumerations are no values,
and under `P` no two parameters of a call have one name. -/
structure Node.Fits (P : Prop) (x : Node) : Prop where
  steady : x.Steady
  valued : x.Valued
  apart : P → x.Apart

/-- A number is no string. -/
private theorem Ty.ne_string_of_isNumeric {t : Ty} (h : t.isNumeric = true) : t ≠ .string := by
  rintro rfl
  cases h

/-- A rule for results never gives a string. -/
private theorem ResultRule.apply_ne_string (rule : ResultRule) (a b : Ty) : rule.apply a b ≠ .string := by
  cases rule with
  | arithmetic =>
    simp only [ResultRule.apply, Ty.arithmetic]
    split <;> simp
  | _ => simp [ResultRule.apply]

/-- No operation of the host produces a string. -/
private theorem Intrinsic.check_ne_string {op : Intrinsic} {types : List Ty} {t : Ty}
    (h : op.check types = .ok t) : t ≠ .string := by
  have hunary : ∀ {o result}, op.signature = .unary o result → result ≠ .string := by
    intro o result hs
    cases op <;> cases hs <;> simp
  simp only [Intrinsic.check] at h
  split at h
  case h_2 => cases h
  case h_1 t' hr =>
    cases h
    unfold Intrinsic.resultOf at hr
    split at hr <;> grind [ResultRule.apply_ne_string]

/-- Only literals and variables are strings, and calls of the script's functions. -/
theorem Expr.Resolved.worded {D : Dialect} {σ : Scope Entry} {lo hi : Nat} {e : Expr}
    (h : e.Resolved D σ lo hi) (hcall : e.isScriptCall = false) : e.IsWorded := by
  -- A type other than string settles the claim.
  have hne : ∀ {i : ExprInfo} {t : Ty}, i.ty = some t → t ≠ .string → i.ty ≠ some .string :=
    fun hi ht hs => ht (Option.some.inj (hi.symm.trans hs))
  -- Operators produce numbers, members and queries integers; calls produce what their target says.
  cases e with
  | const i v => exact v.isWorded h.1
  | var i n b => exact trivial
  | binary i op l r =>
    obtain ⟨_, _, _, _, _, _, _, _, hop, ht⟩ := h
    exact hne ht (Ty.ne_string_of_isNumeric (BinaryOp.isNumeric_resultTy hop))
  | unary i op x =>
    obtain ⟨_, _, _, _, hop, ht⟩ := h
    exact hne ht (Ty.ne_string_of_isNumeric (UnaryOp.isNumeric_resultTy hop))
  | member i a b n ns =>
    obtain ⟨_, _, _, _, hm, ht⟩ := h
    exact hne ht (by rw [memberTy_eq_int hm]; simp)
  | query i k op u x c =>
    obtain ⟨_, _, _, _, _, ht⟩ := h
    refine hne ht ?_
    split <;> simp
  -- Calls of script functions are excluded; no other target produces a string.
  | call i n ns args t =>
    obtain ⟨_, _, _, _, htarget, ht⟩ := h
    cases t with
    | unresolved => exact htarget.elim
    | intrinsic op => exact hne ht (Intrinsic.check_ne_string htarget.2)
    | constructor layout => exact hne ht (by rw [htarget.2.2]; simp)
    | function binds body => cases hcall

/-- What a temporary begins with is a literal or an object, of the type it was asked for. -/
private theorem zeroOf_left {t : Ty} {sp : Span} {zero : Expr} (h : zeroOf t sp = .ok zero) :
    zero.ty? = some t ∧ ∀ σ, Left σ [] zero.nodes := by
  -- Void and enumerations have no first value.
  cases t with
  -- An object is made by a call of the host, which is no string.
  | object =>
    cases h
    refine ⟨rfl, fun σ => (Left.literal (.int 0) sp).cons rfl ?_⟩
    exact fun hs => by cases hs
  | int => cases h; exact ⟨rfl, fun σ => Left.literal _ sp⟩
  | float => cases h; exact ⟨rfl, fun σ => Left.literal _ sp⟩
  | string => cases h; exact ⟨rfl, fun σ => Left.literal _ sp⟩
  | bitfield _ =>
    cases h
    refine ⟨rfl, fun σ => Left.nil.cons rfl ?_⟩
    exact fun hs => by cases hs
  | _ => cases h

/-- What stands for a call: the freshened body, behind a temporary if the body returns something. -/
theorem called_cases {os : List Assign} {ss q : List Stmt} {sp : Span} {b : Block} {e e' : Expr}
    {c c₁ c' : Expansion} (fresh : freshened (.mk os ss sp) c = .ok (b, c₁))
    (place : placeBody e b c₁ = .ok ((q, e'), c')) (kept : e'.ty? = e.ty?) :
    let r := freshNames c.renamed (contested (Block.mk os ss sp).nodes)
    c'.renamed = c.renamed + (contested (Block.mk os ss sp).nodes).length
      ∧ ((∃ front s v zero, ss = front ++ [.ret s v] ∧ zero.ty? = e.ty? ∧ (∀ σ, Left σ [] zero.nodes)
          ∧ c'.temps = c.temps + 1
          ∧ q = [.assign (.make (tempName c.temps) zero true e.span),
              .block (.mk (os.map (·.rename r)) (renameStmts r front
                ++ [.assign (.make (tempName c.temps) (v.rename r) false s)]) sp)])
        ∨ c'.temps = c.temps ∧ q = [.block ((Block.mk os ss sp).rename r)]) := by
  intro r
  -- Freshening takes as many numbers as there are contested declarations.
  have hb : b = ((Block.mk os ss sp).freshen c.renamed).1 ∧ c₁.temps = c.temps
      ∧ c₁.renamed = ((Block.mk os ss sp).freshen c.renamed).2 := by
    cases fresh
    exact ⟨rfl, rfl, rfl⟩
  rw [Block.freshen_eq] at hb
  obtain ⟨rfl, htemps, hrenamed⟩ := hb
  rcases placeBody_cases place with ⟨front, s, v, t, zero, hret, hzero, rfl, rfl, rfl⟩ | ⟨rfl, rfl, rfl⟩
  · -- The return of the renamed body is a renamed return.
    have hmap : ss.map (·.rename r) = front ++ [.ret s v] := by
      rw [← renameStmts_eq_map]
      exact hret
    obtain ⟨front', last, rfl, rfl, hlast⟩ := List.map_eq_append_iff.1 hmap
    obtain ⟨x, hx, hxr⟩ := List.map_eq_singleton_iff.1 hlast
    -- Only a return is renamed to a return.
    cases x with
    | ret s' v' =>
      cases hxr
      obtain ⟨hty, hleft⟩ := zeroOf_left hzero
      refine ⟨hrenamed, .inl ⟨front', s, v', zero, by rw [hx], ?_, hleft, ?_, ?_⟩⟩
      · exact hty.trans kept
      · show c₁.temps + 1 = _
        rw [htemps]
      · show placed e c₁.temps zero _ _ s _ = _
        rw [htemps, renameStmts_eq_map]
        rfl
    | _ => cases hxr
  · exact ⟨hrenamed, .inr ⟨htemps, rfl⟩⟩

/-- What takes the place of a call, behind what stands for the call: a temporary that is supplied, or the
call itself if it produces nothing. -/
private theorem placeBody_left {σ : Scope Entry} {p q : List Stmt} {call e' : Expr} {b : Block}
    {c c' : Expansion} {es : List Expr} (hnodes : call.nodes = call :: es)
    (hvar : call.isVar = false) (hes : Left σ p es)
    (hvoid : (∀ s v, b.stmts.getLast? ≠ some (.ret s v)) → call.ty? = some .void)
    (h : placeBody call b c = .ok ((q, e'), c')) : Left σ (p ++ q) e'.nodes ∧ e'.ty? = call.ty? := by
  -- The body returns a value, or the call stays as it is.
  by_cases hret : ∃ s v, b.stmts.getLast? = some (.ret s v)
  · obtain ⟨s, v, hlast⟩ := hret
    obtain ⟨front, t, zero, _, hcall, hz, rfl, rfl, rfl⟩ := placeBody_returned hlast h
    refine ⟨⟨?_, ?_, ?_⟩, hcall.symm⟩
    · intro i n b hx
      cases List.mem_singleton.1 hx
    -- The temporary is declared in front, and the body assigns to it at its end.
    · intro i n hx
      cases List.mem_singleton.1 hx
      refine ⟨⟨zero, call.span, List.mem_append_right _ List.mem_cons_self, (zeroOf_left hz).1⟩,
        _, v, s, List.mem_append_right _ (List.mem_cons_of_mem _ List.mem_cons_self), ?_⟩
      exact List.mem_append_right _ List.mem_cons_self
    · intro x hx
      rw [List.mem_singleton.1 hx]
      exact trivial
  -- Nothing is returned, so the call is no string.
  · have hopen : ∀ s v, b.stmts.getLast? ≠ some (.ret s v) := fun s v hlast => hret ⟨s, v, hlast⟩
    rw [placeBody_open hopen] at h
    cases h
    refine ⟨?_, rfl⟩
    rw [hnodes]
    refine (hes.mono (List.subset_append_left p _)).cons hvar ?_
    have hworded : call.ty? ≠ some .string := by
      rw [hvoid hopen]
      simp
    cases call with
    | const i v => exact fun hs => absurd hs hworded
    | var i n b => exact trivial
    | _ => exact hworded

/-- A body ends with a return of the type of its calls, or they produce nothing. -/
private theorem EndsAs.returns {D : Dialect} {σ : Scope Entry} {lo hi : Nat} {b : Block} {ss : List Stmt}
    (hb : b.Resolved D σ lo hi true) (h : EndsAs b.stmts ss) :
    (∀ s v, ss.getLast? = some (.ret s v) → v.ty? = some b.returnTy)
      ∧ ((∀ s v, ss.getLast? ≠ some (.ret s v)) → b.returnTy = .void) := by
  -- The expanded body ends as its source does.
  unfold EndsAs at h
  split at h
  case h_1 sp v hlast =>
    obtain ⟨fs, v', rfl, _, _, hty⟩ := h
    -- The source has a return, so its type is that of the returned value.
    have hret : b.returned? = some v := by rw [Block.returned?, hlast]
    rcases hb.returnTy with ⟨hnone, _⟩ | ⟨w, t, hsome, ht, _, hrt⟩
    · cases hnone.symm.trans hret
    · cases hsome.symm.trans hret
      rw [List.getLast?_concat]
      refine ⟨fun s u hu => ?_, fun hno => absurd rfl (hno sp v')⟩
      cases hu
      rw [hty, ht, hrt]
  case h_2 hlast =>
    -- What is settled holds no return at all.
    have hno : ∀ s v, ss.getLast? ≠ some (.ret s v) := fun s v hl =>
      h (.stmt (.ret s v)) (nodes_subset_stmtsNodes (List.mem_of_getLast? hl) List.mem_cons_self)
    refine ⟨fun s v hl => absurd hl (hno s v), fun _ => ?_⟩
    rcases hb.returnTy with ⟨_, hvoid⟩ | ⟨w, t, hsome, _⟩
    · exact hvoid
    · unfold Block.returned? at hsome
      split at hsome
      case h_1 sp v hl => exact absurd hl (hlast sp v)
      case h_2 => cases hsome

/-- A freshened body ends as it did. -/
private theorem freshened_getLast? {b b' : Block} {c c' : Expansion} (h : freshened b c = .ok (b', c'))
    {s : Span} {v : Expr} (hl : b.stmts.getLast? = some (.ret s v)) :
    ∃ v', b'.stmts.getLast? = some (.ret s v') := by
  have hb : b' = (b.freshen c.renamed).1 := by
    cases h
    rfl
  -- Renaming reaches the value of the return but not the return itself.
  rw [hb, Block.freshen]
  split
  · exact ⟨v, hl⟩
  · obtain ⟨os, ss, sp⟩ := b
    rw [Block.stmts] at hl
    refine ⟨v.rename (freshNames c.renamed (contested (Block.mk os ss sp).nodes)), ?_⟩
    rw [Block.rename, Block.stmts, renameStmts_eq_map, List.getLast?_map, hl]
    rfl

/-! ## Expansion -/

namespace Assembled

variable {D : Dialect} {P : Prop} {σ τ : Scope Entry} {lo mid hi : Nat} {c c₁ c' : Expansion}
  {p q : List Stmt}

/-- What stands in front of an expression can stand for a statement. -/
theorem loose (h : Assembled D P true σ τ lo hi c c' p) : Assembled D P false σ τ lo hi c c' p := by
  have hloose : Assembled D P false σ τ lo hi c c' (p ++ []) :=
    append (fun hf => by cases hf) h (@nil D P true τ hi hi c' (Nat.le_refl hi))
  rwa [List.append_nil] at hloose

/-- What stands for two statements. -/
theorem join {υ : Scope Entry} (hp : Assembled D P false σ τ lo mid c c₁ p)
    (hq : Assembled D P false τ υ mid hi c₁ c' q) : Assembled D P false σ υ lo hi c c' (p ++ q) :=
  append (fun hf => by cases hf) hp hq

/-- What stands in front of two expressions. -/
private theorem fronts (hp : Assembled D P true σ σ lo mid c c₁ p)
    (hq : Assembled D P true σ σ mid hi c₁ c' q) :
    Assembled D P true σ σ lo hi c c' (p ++ q) := append (fun _ => ⟨rfl, rfl⟩) hp hq

/-- A statement without blocks. -/
theorem single (hp : Assembled D P true σ σ lo hi c c' p) {s : Stmt} {es : List Expr} (hes : Left σ p es)
    (hs : s.Holds es []) : Assembled D P false σ σ lo hi c c' (p ++ [s]) :=
  nest hp (nil (Nat.le_refl hi)) hes hs

/-- A block that leaves a loop. -/
private theorem leaving (sp : Span) : Assembled D P false σ σ lo lo c c [.block (leaveBlock sp)] :=
  block sp (single (nil (Nat.le_refl lo)) Left.nil (.leave sp))

/-- A guarded body behind what stands in front of its test. -/
theorem guarded {υ : Scope Entry} {c₂ : Expansion} {ss : List Stmt} {e : Expr} (sp span : Span)
    (hp : Assembled D P true σ σ lo mid c c₁ p) (he : Left σ p e.nodes)
    (hss : Assembled D P false σ.push υ mid hi c₁ c₂ ss) :
    Assembled D P false σ σ lo hi c c₂ (p ++ [AisScript.guarded sp e (.mk [] ss span)]) :=
  have hblocks : Assembled D P false σ σ mid hi c₁ c₂ ([Block.mk [] ss span, leaveBlock sp].map .block) :=
    join (block span hss) (leaving sp)
  nest hp hblocks he (.condElse sp e _ _)

end Assembled

/-- What holds of the nodes below a node and of the node. -/
private theorem fits_tail {P : Prop} {x : Node} {xs : List Node} (h : ∀ y ∈ x :: xs, y.Fits P) :
    ∀ y ∈ xs, y.Fits P := fun y hy => h y (List.mem_cons_of_mem x hy)

/-- What holds of the nodes of two parts. -/
private theorem fits_append {P : Prop} {xs ys : List Node} (h : ∀ y ∈ xs ++ ys, y.Fits P) :
    (∀ y ∈ xs, y.Fits P) ∧ ∀ y ∈ ys, y.Fits P := List.forall_mem_append.1 h

/-- The body of a loop whose test stays in the header or moves into the body. -/
private theorem foldedBody_shape {c c' : Option Expr} {q : List Stmt} (sp span : Span) (ss last : List Stmt)
    (h : (if testCalls c then none else c) = c' ∧ q = []
      ∨ (if testCalls c then none else c) = none ∧ testCalls c = true ∧ ∃ e, c' = some e) :
    ∃ inner, ((if testCalls c then none else c) = c' ∧ q = [] ∧ inner = ss
        ∨ (if testCalls c then none else c) = none
          ∧ ∃ e, c' = some e ∧ inner = q ++ [guarded sp e (.mk [] ss span)])
      ∧ foldedBody sp c q c' span (.mk [] ss span) last = .mk [] (inner ++ last) span := by
  -- A test that stays has nothing in front of it, and the body stays with it.
  rcases h with ⟨hc, rfl⟩ | ⟨hnone, hcalls, e, rfl⟩
  · refine ⟨ss, .inl ⟨hc, rfl, rfl⟩, ?_⟩
    unfold foldedBody
    split
    case h_1 e hcalls => rw [hcalls, if_pos rfl] at hc; cases hc
    case h_2 => rfl
  · exact ⟨_, .inr ⟨hnone, e, rfl, rfl⟩, by unfold foldedBody; rw [hcalls]⟩

section Expansion

variable {D : Dialect} {P : Prop}

mutual

/-- What expansion makes of an expression. -/
theorem Expr.expand_assembled (hD : D.Plain) {σ : Scope Entry} {lo hi : Nat} (hσ : Sound D lo σ) : (e : Expr) →
    e.Resolved D σ lo hi → (∀ x ∈ e.deep, x.Fits P) → ∀ {c p e' c'}, e.expand c = .ok ((p, e'), c') →
      Assembled D P true σ σ lo hi c c' p ∧ Left σ p e'.nodes ∧ e'.ty? = e.ty?
  | .const i v, h, _, _, _, _, _, he => by
    cases he
    exact ⟨.nil (Nat.le_of_eq h.2.symm), Left.nil.cons rfl (h.worded rfl), rfl⟩
  | .var i n b, h, hfits, _, _, _, _, he => by
    cases he
    obtain ⟨rfl, hn, d, hd, rfl, ht⟩ := h
    -- A variable that is found stands in the scope of its place, and is no member of an enumeration.
    have hvalued : d.origin ≠ .enumeration := (hfits _ List.mem_cons_self).valued
    refine ⟨.nil (Nat.le_refl hi), ⟨fun j m a hx => ?_, fun j m hx => ?_, fun x hx => ?_⟩, rfl⟩
    · cases List.mem_singleton.1 hx
      exact ⟨.here hd, hD n hn, ht, hvalued⟩
    · cases List.mem_singleton.1 hx
    · rw [List.mem_singleton.1 hx]
      exact trivial
  | .binary i op l r, h, hfits, _, _, _, _, he => by
    have hworded := Expr.Resolved.worded h rfl
    obtain ⟨mid, _, _, _, hl, _, hr, _⟩ := h
    obtain ⟨hfl, hfr⟩ := fits_append (fits_tail hfits)
    obtain ⟨p, l', c₁, hl', q, r', c₂, hr', ⟨⟩⟩ := Expr.expand_binary_ok.1 he
    -- The parts in front of the operands stand one behind the other.
    obtain ⟨hp, hll, _⟩ := Expr.expand_assembled hD hσ l hl hfl hl'
    obtain ⟨hq, hlr, _⟩ := Expr.expand_assembled hD (hσ.mono hl.le) r hr hfr hr'
    -- What is left of either operand reads what stands in front of both.
    exact ⟨hp.fronts hq, ((hll.mono (List.subset_append_left p q)).append
      (hlr.mono (List.subset_append_right p q))).cons rfl hworded, rfl⟩
  | .unary i op x, h, hfits, _, _, _, _, he => by
    have hworded := Expr.Resolved.worded h rfl
    obtain ⟨_, _, hx, _⟩ := h
    obtain ⟨p, x', c₁, hx', ⟨⟩⟩ := Expr.expand_unary_ok.1 he
    obtain ⟨hp, hlx, _⟩ := Expr.expand_assembled hD hσ x hx (fits_tail hfits) hx'
    exact ⟨hp, hlx.cons rfl hworded, rfl⟩
  | .member i a b n ns, h, hfits, _, _, _, _, he => by
    have hworded := Expr.Resolved.worded h rfl
    obtain ⟨_, _, hb, _⟩ := h
    obtain ⟨p, b', c₁, hb', ⟨⟩⟩ := Expr.expand_member_ok.1 he
    obtain ⟨hp, hlb, _⟩ := Expr.expand_assembled hD hσ b hb (fits_tail hfits) hb'
    exact ⟨hp, hlb.cons rfl hworded, rfl⟩
  | .query i k op u x q, h, hfits, _, _, _, _, he => by
    have hworded := Expr.Resolved.worded h rfl
    obtain ⟨m₁, m₂, hu, hx, hq, _⟩ := h
    obtain ⟨hfits, hfq⟩ := fits_append (fits_tail hfits)
    obtain ⟨hfu, hfx⟩ := fits_append hfits
    obtain ⟨pu, u', c₁, hu', px, x', c₂, hx', pq, q', c₃, hq', ⟨⟩⟩ := Expr.expand_query_ok.1 he
    obtain ⟨hpu, hlu⟩ := expandOption_assembled hD hσ u hu hfu hu'
    obtain ⟨hpx, hlx⟩ := expandOption_assembled hD (hσ.mono hu.le) x hx hfx hx'
    obtain ⟨hpq, hlq⟩ := expandOption_assembled hD (hσ.mono (Nat.le_trans hu.le hx.le)) q hq hfq hq'
    -- The three parts, joined in the same way.
    have hlux := (hlu.mono (List.subset_append_left pu px)).append (hlx.mono (List.subset_append_right pu px))
    exact ⟨(hpu.fronts hpx).fronts hpq, ((hlux.mono (List.subset_append_left _ pq)).append
      (hlq.mono (List.subset_append_right _ pq))).cons rfl hworded, rfl⟩
  | .call i n ns args (.function binds body), h, hfits, _, _, _, _, he => by
    obtain ⟨mid, types, t, hargs, ⟨params, template, captured, hf, hlen, hbinds, hbody, ht⟩, hi⟩ := h
    obtain ⟨hfa, hfb⟩ := fits_append (fits_tail hfits)
    -- The parameters of a call differ in name if that is asked for.
    have hapart : P → (binds.map (·.info.name)).Nodup := (hfits _ List.mem_cons_self).apart
    -- Arguments, note, body, fresh names and place: the steps of the expansion.
    obtain ⟨p, args', c₁, hargs', body', c₃, hbody', body'', c₄, hfresh, q, e, c₅, hplace, ⟨⟩⟩ :=
      Expr.expand_call_ok.1 he
    -- The arguments, and what is left of them.
    obtain ⟨hp, hleft, htypes⟩ := expandList_assembled hD hσ args hargs hfa hargs'
    obtain ⟨hs, _⟩ := bodyScope_sound ((hσ.inner hf).mono hargs.le) params hargs.proper
    rw [← hbinds] at hs
    obtain ⟨ss, c₆, hover, hends⟩ := Block.expandOver_settled body hbody (bindExpanded binds args')
      { c₁ with expanded := n :: c₁.expanded }
    cases hover.symm.trans hbody'
    -- The body ends with a return of the type of the call, or the call produces nothing.
    obtain ⟨hreturns, hvoid⟩ := EndsAs.returns hbody hends
    -- The body is assembled in the scope that the template was captured in.
    obtain ⟨ss', υ, heq, hss⟩ := Block.expandOver_assembled hD hs body hbody hfb hover
    cases heq
    have hty : i.ty = some body.returnTy := by rw [hi, ht]
    have hnone : (∀ s v, body''.stmts.getLast? ≠ some (.ret s v)) → i.ty = some .void := by
      intro hno
      rw [hty, hvoid fun s v hl => ?_]
      obtain ⟨v', hv'⟩ := freshened_getLast? hfresh hl
      exact hno s v' hv'
    -- What takes the place of the call reads the temporary that is put in front.
    obtain ⟨hle, hte⟩ := placeBody_left rfl rfl hleft hnone hplace
    refine ⟨?_, hle, hte⟩
    -- All of it together is a call as `Assembled` describes it.
    exact .call body.span hp hleft hf hlen htypes hargs.proper hbinds hapart hss hfresh
      (fun s v hl => by rw [hreturns s v hl]; exact hty.symm) hplace hte
  | .call i n ns args .unresolved, h, _, _, _, _, _, _ => by
    obtain ⟨_, _, _, _, h, _⟩ := h
    exact h.elim
  | .call i n ns args (.intrinsic op), h, hfits, _, _, _, _, he => by
    -- Calls of the host stay, with their arguments expanded.
    have hworded := Expr.Resolved.worded h rfl
    obtain ⟨mid, _, _, hargs, ⟨rfl, _⟩, _⟩ := h
    obtain ⟨hfa, _⟩ := fits_append (fits_tail hfits)
    obtain ⟨p, args', c₁, hargs', ⟨⟩⟩ := (Expr.expand_keptCall_ok rfl).1 he
    obtain ⟨hp, hleft, _⟩ := expandList_assembled hD hσ args hargs hfa hargs'
    exact ⟨hp, hleft.cons rfl hworded, rfl⟩
  | .call i n ns args (.constructor layout), h, hfits, _, _, _, _, he => by
    have hworded := Expr.Resolved.worded h rfl
    obtain ⟨mid, _, _, hargs, ⟨rfl, _⟩, _⟩ := h
    obtain ⟨hfa, _⟩ := fits_append (fits_tail hfits)
    obtain ⟨p, args', c₁, hargs', ⟨⟩⟩ := (Expr.expand_keptCall_ok rfl).1 he
    obtain ⟨hp, hleft, _⟩ := expandList_assembled hD hσ args hargs hfa hargs'
    exact ⟨hp, hleft.cons rfl hworded, rfl⟩
  termination_by structural e => e

/-- What expansion makes of arguments. -/
private theorem expandList_assembled (hD : D.Plain) {σ : Scope Entry} {lo hi : Nat} {types : List Ty}
    (hσ : Sound D lo σ) : (es : List Expr) → ResolvedArgs D σ lo hi types es →
      (∀ x ∈ deepList es, x.Fits P) → ∀ {c p es' c'}, expandList es c = .ok ((p, es'), c') →
        Assembled D P true σ σ lo hi c c' p ∧ Left σ p (nodesOfList es')
          ∧ es'.map Expr.ty? = es.map Expr.ty?
  | [], h, _, _, _, _, _, he => by
    cases he
    exact ⟨.nil (Nat.le_of_eq h.2.symm), Left.nil, rfl⟩
  | e :: es, ⟨mid, _, _, _, he, _, _, hes⟩, hfits, _, _, _, _, h => by
    obtain ⟨hfe, hfes⟩ := fits_append hfits
    obtain ⟨p, e', c₁, he', q, es', c₂, hes', ⟨⟩⟩ := expandList_cons_ok.1 h
    -- The first argument, and behind it the others.
    obtain ⟨hp, hle, hte⟩ := Expr.expand_assembled hD hσ e he hfe he'
    obtain ⟨hq, hles, htes⟩ := expandList_assembled hD (hσ.mono he.le) es hes hfes hes'
    refine ⟨hp.fronts hq, (hle.mono (List.subset_append_left p q)).append
      (hles.mono (List.subset_append_right p q)), ?_⟩
    rw [List.map_cons, List.map_cons, hte, htes]
  termination_by structural es => es

/-- What expansion makes of an expression that may be absent. -/
private theorem expandOption_assembled (hD : D.Plain) {σ : Scope Entry} {lo hi : Nat} (hσ : Sound D lo σ) :
    (e : Option Expr) → ResolvedOption D σ lo hi e → (∀ x ∈ deepOption e, x.Fits P) → ∀ {c p e' c'},
      expandOption e c = .ok ((p, e'), c') →
        Assembled D P true σ σ lo hi c c' p ∧ Left σ p (nodesOfOption e')
  | none, h, _, _, _, _, _, he => by
    cases he
    exact ⟨.nil (Nat.le_of_eq h.symm), Left.nil⟩
  | some e, ⟨h, _⟩, hfits, _, _, _, _, he => by
    obtain ⟨p, e', c₁, he', ⟨⟩⟩ := expandOption_some_ok.1 he
    obtain ⟨hp, hle, _⟩ := Expr.expand_assembled hD hσ e h hfits he'
    exact ⟨hp, hle⟩
  termination_by structural e => e

/-- What expansion makes of an assignment. -/
theorem Assign.expand_assembled (hD : D.Plain) {σ : Scope Entry} {lo hi : Nat} (hσ : Sound D lo σ) :
    (a : Assign) → a.Resolved D σ lo hi → (∀ x ∈ a.deep, x.Fits P) → ∀ {c p a' c'},
      a.expand c = .ok ((p, a'), c') →
      ∃ mid, Assembled D P true σ σ lo mid c c' p
        ∧ Assembled D P false σ (a.extend σ) lo hi c c' (p ++ [.assign a'])
  | .mk i v, h, hfits, _, _, _, _, ha => by
    obtain ⟨mid, t, _, hn, hv, hvt, hval, hdeclares, hassigns⟩ := h
    obtain ⟨p, v', c₁, hv', ⟨⟩⟩ := Assign.expand_ok.1 ha
    -- The value first: what stands in front of it, and what is left to read.
    obtain ⟨hp, hleft, hty⟩ := Expr.expand_assembled hD hσ v hv (fits_tail hfits) hv'
    refine ⟨mid, hp, ?_⟩
    -- A declaration extends the scope, a plain assignment finds its variable there.
    cases hd : i.declares with
    | true =>
      obtain ⟨hnone, hb, rfl⟩ := hdeclares hd
      rw [Assign.extend, Assign.info, if_pos hd, hb]
      exact .declare hp hleft hd hb (hD _ hn) hnone (hty.trans hvt) (Ty.isProper_of_isValue hval)
    | false =>
      obtain ⟨rfl, b, hsome, hb, hassignable, hmutable⟩ := hassigns hd
      rw [Assign.extend, Assign.info, hd, if_neg Bool.false_ne_true]
      exact .assign hp hleft hd hb (hD _ hn) hsome (hty.trans hvt) hassignable hmutable
  termination_by structural a => a

/-- What expansion makes of a clause that may be absent. -/
private theorem expandClause_assembled (hD : D.Plain) {σ : Scope Entry} {lo hi : Nat} (hσ : Sound D lo σ) :
    (a : Option Assign) → ResolvedClause D σ lo hi a → (∀ x ∈ deepClause a, x.Fits P) →
      ∀ {c p a' c'}, expandClause a c = .ok ((p, a'), c') →
        ∃ mid, Assembled D P true σ σ lo mid c c' p
          ∧ Assembled D P false σ (extendClause σ a) lo hi c c' (p ++ a'.toList.map .assign)
  | none, h, _, _, _, _, _, ha => by
    cases ha
    -- Nothing stands in front of an absent clause, and it assigns nothing.
    exact ⟨hi, .nil (Nat.le_of_eq h.symm), .nil (Nat.le_of_eq h.symm)⟩
  | some a, h, hfits, _, _, _, _, ha => by
    obtain ⟨p, a', c₁, ha', ⟨⟩⟩ := expandClause_some_ok.1 ha
    exact Assign.expand_assembled hD hσ a h hfits ha'
  termination_by structural a => a

/-- What expansion makes of a statement. -/
theorem Stmt.expand_assembled (hD : D.Plain) {σ : Scope Entry} {lo hi : Nat} {last : Bool} (hσ : Sound D lo σ) :
    (s : Stmt) → s.Resolved D σ lo hi last → (∀ x ∈ s.deep, x.Fits P) → ∀ {c ss c'},
      s.expand c = .ok (ss, c') → Assembled D P false σ (s.extend σ lo) lo hi c c' ss
  | .block b, h, hfits, _, _, _, hs => by
    obtain ⟨b', c₁, hb', ⟨⟩⟩ := Stmt.expand_block_ok.1 hs
    -- The statements of a block are assembled in a scope of their own.
    obtain ⟨ss, τ, rfl, hss⟩ := Block.expandOver_assembled hD hσ.push b h (fits_tail hfits) hb'
    exact .block b.span hss
  | .eval sp e, h, hfits, _, _, _, hs => by
    obtain ⟨p, e', c₁, he', hs⟩ := Stmt.expand_eval_ok.1 hs
    obtain ⟨hp, hleft, _⟩ := Expr.expand_assembled hD hσ e h (fits_tail hfits) he'
    -- A call that stands alone leaves what is in front of it, any other expression stays.
    split at hs <;> cases hs
    · exact hp.loose
    · exact hp.single hleft (.eval sp e')
  | .assign a, h, hfits, _, _, _, hs => by
    obtain ⟨p, a', c₁, ha', ⟨⟩⟩ := Stmt.expand_assign_ok.1 hs
    obtain ⟨_, _, ha⟩ := Assign.expand_assembled hD hσ a h hfits ha'
    exact ha
  | .assignMember sp t v, h, hfits, _, _, _, hs => by
    obtain ⟨mid, _, _, ht, _, hv, _⟩ := h
    obtain ⟨hft, hfv⟩ := fits_append (fits_tail hfits)
    obtain ⟨p, t', c₁, ht', q, v', c₂, hv', ⟨⟩⟩ := Stmt.expand_assignMember_ok.1 hs
    obtain ⟨hp, hlt, _⟩ := Expr.expand_assembled hD hσ t ht hft ht'
    -- Target and value are read behind what stands in front of both.
    obtain ⟨hq, hlv, _⟩ := Expr.expand_assembled hD (hσ.mono ht.le) v hv hfv hv'
    exact (hp.fronts hq).single ((hlt.mono (List.subset_append_left p q)).append
      (hlv.mono (List.subset_append_right p q))) (.assignMember sp t' v')
  | .cond sp x t f, h, hfits, _, _, _, hs => by
    obtain ⟨m₁, m₂, _, hx, _, _, ht, hf⟩ := h
    obtain ⟨hfits, hff⟩ := fits_append (fits_tail hfits)
    obtain ⟨hfx, hft⟩ := fits_append hfits
    obtain ⟨p, x', c₁, hx', t', c₂, ht', f', c₃, hf', ⟨⟩⟩ := Stmt.expand_cond_ok.1 hs
    -- The branches are typed behind the condition.
    have hσ₁ := hσ.mono hx.le
    obtain ⟨hp, hleft, _⟩ := Expr.expand_assembled hD hσ x hx hfx hx'
    obtain ⟨ts, τ, rfl, hts⟩ := Block.expandOver_assembled hD hσ₁.push t ht hft ht'
    cases f with
    -- Without an else block there is one inner block, otherwise there are two in a row.
    | none =>
      obtain rfl : hi = m₂ := hf
      cases hf'
      have hblocks : Assembled D P false σ σ _ hi _ _ ([Block.mk [] ts t.span].map .block) := .block t.span hts
      exact .nest hp hblocks hleft (.cond sp x' _)
    | some f =>
      obtain ⟨_, _, hf', ⟨⟩⟩ := expandElse_some_ok.1 hf'
      obtain ⟨fs, υ, rfl, hfs⟩ := Block.expandOver_assembled hD (hσ₁.mono ht.le).push f hf hff hf'
      have hblocks : Assembled D P false σ σ _ hi _ _
          ([Block.mk [] ts t.span, Block.mk [] fs f.span].map .block) :=
        .join (.block t.span hts) (.block f.span hfs)
      exact .nest hp hblocks hleft (.condElse sp x' _ _)
  | .loop sp x b, h, hfits, _, _, _, hs => by
    obtain ⟨mid, _, hx, _, _, hb⟩ := h
    obtain ⟨hfx, hfb⟩ := fits_append (fits_tail hfits)
    obtain ⟨p, x', c₁, hx', b', c₂, hb', ⟨⟩⟩ := Stmt.expand_loop_ok.1 hs
    have hσ₁ := hσ.mono hx.le
    obtain ⟨hp, hleft, _⟩ := Expr.expand_assembled hD hσ x hx hfx hx'
    obtain ⟨ss, τ, rfl, hss⟩ := Block.expandOver_assembled hD hσ₁.push b hb hfb hb'
    -- The condition has moved into the body, behind what stands in front of it.
    have hbody : Assembled D P false σ.push σ.push lo hi _ _ (p ++ [_]) :=
      .congr σ.lookup_push σ.lookup_push (hp.guarded sp b.span hleft hss)
    have hblocks : Assembled D P false σ σ lo hi _ _ ([Block.mk [] (p ++ [_]) b.span].map .block) :=
      .block b.span hbody
    exact .nest (.nil (Nat.le_refl lo)) hblocks (Left.literal _ x.span) (.loop sp _ _)
  | .forLoop sp i x st b, h, hfits, _, _, _, hs => by
    obtain ⟨m₁, m₂, m₃, hi, hx, hst, hno, hb⟩ := h
    have hsteady := (hfits _ List.mem_cons_self).steady
    -- Everything in the parts of the loop fits, as it fits in the whole.
    obtain ⟨hfits, hfb⟩ := fits_append (fits_tail hfits)
    obtain ⟨hfits, hfst⟩ := fits_append hfits
    obtain ⟨hfi, hfx⟩ := fits_append hfits
    obtain ⟨p, i', c₁, hi', q, x', c₂, hx', b', c₃, hb', r, st', c₄, hst', ⟨⟩⟩ := Stmt.expand_forLoop_ok.1 hs
    -- The scope grows with the first clause and with the step.
    have hη := hi.sound hσ.push
    have hη' := hst.sound (hη.mono hx.le)
    -- The four parts, in the order in which they are expanded.
    obtain ⟨m, hp, hinit⟩ := expandClause_assembled hD hσ.push i hi hfi hi'
    obtain ⟨hq, hleft⟩ := expandOption_assembled hD hη x hx hfx hx'
    obtain ⟨ss, υ, rfl, hss⟩ := Block.expandOver_assembled hD hη'.push b hb hfb hb'
    obtain ⟨m', hr, hstep⟩ := expandClause_assembled hD (hη.mono hx.le) st hst hfst hst'
    -- The test stays with nothing in front of it, or it leaves the header.
    have htest : (if testCalls x then none else x) = x' ∧ q = []
        ∨ (if testCalls x then none else x) = none ∧ testCalls x = true ∧ ∃ e, x' = some e := by
      cases hcalls : testCalls x with
      | true =>
        refine .inr ⟨rfl, rfl, ?_⟩
        cases x with
        | none => cases hcalls
        | some e =>
          obtain ⟨_, e', _, _, ⟨⟩⟩ := expandOption_some_ok.1 hx'
          exact ⟨e', rfl⟩
      | false =>
        rw [expandOption_of_not_testCalls hcalls] at hx'
        cases hx'
        exact .inl ⟨rfl, rfl⟩
    obtain ⟨inner, htest, hbody⟩ := foldedBody_shape sp b.span ss (movedStep st r st') htest
    -- A step with calls moves behind the body; it declares nothing, as the loop is steady.
    have hstep' : ∃ last, movedStep st r st' = last
        ∧ ((if stepCalls st then none else st) = st' ∧ r = [] ∧ last = []
          ∨ (if stepCalls st then none else st) = none
            ∧ extendClause (extendClause σ.push i) st = extendClause σ.push i
            ∧ last = r ++ st'.toList.map .assign) := by
      cases hcalls : stepCalls st with
      | true =>
        refine ⟨_, rfl, .inr ⟨rfl, ?_, by rw [movedStep, hcalls, if_pos rfl]⟩⟩
        cases st with
        | none => rfl
        | some a => exact if_neg (by rw [hsteady hcalls]; exact Bool.false_ne_true)
      | false =>
        rw [expandClause_of_not_stepCalls hcalls] at hst'
        cases hst'
        exact ⟨_, rfl, .inl ⟨rfl, rfl, by rw [movedStep, hcalls, if_neg Bool.false_ne_true]⟩⟩
    obtain ⟨last, hlast, hstep'⟩ := hstep'
    -- The loop is put together from its parts.
    rw [hbody, hlast]
    exact .forLoop sp b.span b.span hp hinit hq hleft hss hr hstep htest hstep'
  | .ret sp v, h, hfits, _, _, _, hs => by
    obtain ⟨_, hv, _⟩ := h
    obtain ⟨p, v', c₁, hv', ⟨⟩⟩ := Stmt.expand_ret_ok.1 hs
    obtain ⟨hp, hleft, _⟩ := Expr.expand_assembled hD hσ v hv (fits_tail hfits) hv'
    exact hp.single hleft (.ret sp v')
  | .leave sp, h, _, _, _, _, hs => by
    cases hs
    obtain rfl : hi = lo := h
    -- Statements without expressions have nothing in front of them.
    exact Assembled.single (.nil (Nat.le_refl _)) Left.nil (.leave sp)
  | .code sp t, h, _, _, _, _, hs => by
    cases hs
    obtain rfl : hi = lo := h
    exact Assembled.single (.nil (Nat.le_refl _)) Left.nil (.code sp t)
  | .bitfieldDef sp d, h, _, c, _, _, hs => by
    cases hs
    obtain rfl : hi = lo := h
    have hdef : Assembled D P false σ σ hi hi c c [.bitfieldDef sp d] :=
      Assembled.single (.nil (Nat.le_refl hi)) Left.nil (.bitfieldDef sp d)
    -- A bitfield binds a name to no variable, so the same variables are reached.
    have hscope : Assembled D P false σ (σ.define d.name (.bitfield d)) hi hi c c [] := by
      refine .rescope (fun n b hr => ?_) (fun n hn => hn.define _ _) fun hσ => hσ.defineBitfield d.name d
      rcases hr.of_define with hr | ⟨_, hb⟩ | ⟨_, _, _, hb, _⟩
      · exact hr
      · cases hb
      · cases hb
    exact .join hdef hscope
  | .enumDef sp d, h, hfits, _, _, _, hs => by
    cases hs
    -- The members have names of the dialect, which are plain.
    obtain ⟨⟨_, hmembers⟩, rfl⟩ := h
    exact .enumeration sp d fun m hm => hD m.name (hmembers m hm)
  | .funcDef sp f ns ps b, h, _, _, _, _, hs => by
    cases hs
    obtain ⟨rfl, hps, hb⟩ := h
    -- A definition leaves no statement, only a wider scope.
    exact .rescope (fun n b hr => hr.of_bindFunction) (fun n hn => hn.define _ _)
      fun hσ => hσ.bindFunction hps hb
  | .require _ _, h, _, _, _, _, _ => h.elim
  termination_by structural s => s

/-- What expansion makes of statements. -/
private theorem expandStmts_assembled (hD : D.Plain) {σ : Scope Entry} {lo hi : Nat} {last : Bool}
    (hσ : Sound D lo σ) :
    (ss : List Stmt) → ResolvedStmts D σ lo hi last ss → (∀ x ∈ deepStmts ss, x.Fits P) →
      ∀ {c ss' c'}, expandStmts ss c = .ok (ss', c') → ∃ τ, Assembled D P false σ τ lo hi c c' ss'
  | [], h, _, _, _, _, he => by
    -- No statements leave the scope as it is.
    cases he
    exact ⟨σ, .nil (Nat.le_of_eq h.symm)⟩
  | s :: ss, ⟨mid, hs, hss⟩, hfits, _, _, _, h => by
    obtain ⟨hfs, hfss⟩ := fits_append hfits
    obtain ⟨s', c₁, hs', ss', c₂, hss', ⟨⟩⟩ := expandStmts_cons_ok.1 h
    -- The others are assembled in the scope behind the first.
    obtain ⟨τ, hτ⟩ := expandStmts_assembled hD (hs.sound hσ) ss hss hfss hss'
    exact ⟨τ, .join (Stmt.expand_assembled hD hσ s hs hfs hs') hτ⟩
  termination_by structural ss => ss

/-- What expansion makes of a block's statements. -/
theorem Block.expandOver_assembled (hD : D.Plain) {σ : Scope Entry} {lo hi : Nat} {last : Bool}
    (hσ : Sound D lo σ) :
    (b : Block) → b.Resolved D σ lo hi last → (∀ x ∈ b.deep, x.Fits P) → ∀ {binds c b' c'},
      b.expandOver binds c = .ok (b', c') →
        ∃ ss τ, b' = .mk binds ss b.span ∧ Assembled D P false σ τ lo hi c c' ss
  | .mk os ss sp, ⟨ho, hss⟩, hfits, binds, _, _, _, h => by
    subst ho
    obtain ⟨ss', c₁, hss', ⟨⟩⟩ := Block.expandOver_ok.1 h
    obtain ⟨τ, hτ⟩ := expandStmts_assembled hD hσ ss hss hfits hss'
    exact ⟨ss', τ, by rw [List.append_nil]; rfl, hτ⟩
  termination_by structural b => b

end

end Expansion

end AisScript
