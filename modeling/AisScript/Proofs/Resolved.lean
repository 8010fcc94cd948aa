import AisScript.Typing
import AisScript.Proofs.Marking

/-!
# Resolved trees

What typing establishes, as a judgement on the typed tree alone.  `Resolved D σ lo hi` says of a tree
in scope `σ` that every name has the binding `σ` gives it, every expression the type of its operation
and every call its meaning, and that the bindings made on the way are numbered from `lo` up to `hi`.
The body that a call carries is resolved in the scope of the function's definition, with one binding
for each parameter.

A scope that typing can reach is `Sound`: the bindings it reaches, also through the functions it
shows, are numbered below the next free number and have proper types, and each of their names is
shown.

* `Expr.Resolved`, `Stmt.Resolved`, `Block.Resolved`   the judgement
* `Reaches`                                            bindings reached from a scope
* `Sound`                                              scopes that typing can reach
-/

namespace AisScript

/-! ## Scopes behind trees -/

/-- The scope behind an assignment: a declaration binds its name. -/
def Assign.extend (σ : Scope Entry) (a : Assign) : Scope Entry :=
  if a.info.declares then
    match a.info.binding with
    | some b => σ.define a.info.name (.value b)
    | none => σ
  else σ

/-- The scope behind assignments in order. -/
def extendAll (σ : Scope Entry) : List Assign → Scope Entry
  | [] => σ
  | a :: as => extendAll (a.extend σ) as

/-- The scope behind a clause that may be absent. -/
def extendClause (σ : Scope Entry) : Option Assign → Scope Entry
  | none => σ
  | some a => a.extend σ

/-- The scope behind a statement, whose bindings are numbered from `lo` on. -/
def Stmt.extend (σ : Scope Entry) (lo : Nat) : Stmt → Scope Entry
  | .assign a => a.extend σ
  | .funcDef _ n _ ps b => bindFunction σ n ps b
  | .bitfieldDef _ d => σ.define d.name (.bitfield d)
  | .enumDef _ d => (bindEnum σ lo d).1
  | _ => σ

/-- The bindings of parameters, numbered from `lo` on. -/
def numberBinds (lo : Nat) : List Assign → List Assign
  | [] => []
  | .mk i v :: as =>
    .mk { i with binding := some (.variable lo (v.ty?.getD .invalid)) } v :: numberBinds (lo + 1) as

/-- The type of a call whose body is typed. -/
def Block.returnTy (b : Block) : Ty :=
  match b.returned? with
  | some v => v.ty?.getD .invalid
  | none => .void

/-- The scope in which the body of a function is typed. -/
def bodyScope (captured : List (Text × Entry)) (binds : List Assign) : Scope Entry :=
  extendAll (Scope.push ⟨captured, []⟩) binds

/-- A type that bindings can have. -/
def Ty.isProper (t : Ty) : Bool := t.family?.isSome

/-! ## The judgement -/

mutual

/-- An expression resolved in a scope. -/
def Expr.Resolved (D : Dialect) (σ : Scope Entry) (lo hi : Nat) : Expr → Prop
  | .const i v => i.ty = some v.ty ∧ hi = lo
  | .var i n b =>
    hi = lo ∧ D.name n ∧ ∃ c, σ.lookup n = some (.value c) ∧ b = some c ∧ i.ty = some c.ty
  | .binary i op l r => ∃ mid lt rt t,
    l.Resolved D σ lo mid ∧ l.ty? = some lt ∧ r.Resolved D σ mid hi ∧ r.ty? = some rt
      ∧ op.resultTy lt rt = .ok t ∧ i.ty = some t
  | .unary i op x => ∃ xt t,
    x.Resolved D σ lo hi ∧ x.ty? = some xt ∧ op.resultTy xt = .ok t ∧ i.ty = some t
  | .call i n _ args target => ∃ mid types t,
    ResolvedArgs D σ lo mid types args ∧ target.Resolved D σ mid hi n args types t ∧ i.ty = some t
  | .member i a base n ns => ∃ bt t,
    base.Resolved D σ lo hi ∧ base.ty? = some bt ∧ memberTy a bt n ns i.span = .ok t ∧ i.ty = some t
  | .query i k _ u x c => ∃ m₁ m₂,
    ResolvedOption D σ lo m₁ u ∧ ResolvedOption D σ m₁ m₂ x ∧ ResolvedOption D σ m₂ hi c
      ∧ i.ty = some (if k = Query.unit then .object else .int)

/-- Arguments resolved from left to right, with their types. -/
def ResolvedArgs (D : Dialect) (σ : Scope Entry) (lo hi : Nat) (types : List Ty) : List Expr → Prop
  | [] => types = [] ∧ hi = lo
  | e :: es => ∃ mid t ts,
    types = t :: ts ∧ e.Resolved D σ lo mid ∧ e.ty? = some t ∧ t.isProper = true
      ∧ ResolvedArgs D σ mid hi ts es

/-- An expression that may be absent and produces a value. -/
def ResolvedOption (D : Dialect) (σ : Scope Entry) (lo hi : Nat) : Option Expr → Prop
  | none => hi = lo
  | some e => e.Resolved D σ lo hi ∧ ∃ t, e.ty? = some t ∧ t.isProper = true

/-- What a call stands for, given its name, its arguments, their types and its own type. -/
def Target.Resolved (D : Dialect) (σ : Scope Entry) (lo hi : Nat) (name : Text) (args : List Expr)
    (types : List Ty) (t : Ty) : Target → Prop
  | .unresolved => False
  | .intrinsic op => hi = lo ∧ op.check types = .ok t
  | .constructor layout => hi = lo ∧ types = [.int] ∧ t = .bitfield layout
  | .function binds body => ∃ params template captured,
    σ.lookup name = some (.function params template captured) ∧ params.length = args.length
      ∧ binds = numberBinds lo (bindArguments params args)
      ∧ body.Resolved D (bodyScope captured binds) (lo + params.length) hi true
      ∧ t = body.returnTy

/-- An assignment resolved in a scope.  A declaration uses a name that means nothing yet. -/
def Assign.Resolved (D : Dialect) (σ : Scope Entry) (lo hi : Nat) : Assign → Prop
  | .mk i v => ∃ mid t,
    i.binds = false ∧ D.name i.name ∧ v.Resolved D σ lo mid ∧ v.ty? = some t ∧ t.isValue = true
      ∧ (i.declares = true → σ.lookup i.name = none ∧ i.binding = some (.variable mid t)
          ∧ hi = mid + 1)
      ∧ (i.declares = false → hi = mid ∧ ∃ b, σ.lookup i.name = some (.value b)
          ∧ i.binding = some b ∧ b.ty.assignable t = true ∧ b.immutable = false)

/-- A clause that may be absent. -/
def ResolvedClause (D : Dialect) (σ : Scope Entry) (lo hi : Nat) : Option Assign → Prop
  | none => hi = lo
  | some a => a.Resolved D σ lo hi

/-- A statement resolved in a scope. -/
def Stmt.Resolved (D : Dialect) (σ : Scope Entry) (lo hi : Nat) (last : Bool) : Stmt → Prop
  | .block b => b.Resolved D σ.push lo hi false
  | .eval _ e => e.Resolved D σ lo hi
  | .assign a => a.Resolved D σ lo hi
  | .assignMember _ t v => ∃ mid layout,
    t.isNamedMember = true ∧ t.Resolved D σ lo mid ∧ (t.children.map Expr.ty?) = [some (.bitfield layout)]
      ∧ v.Resolved D σ mid hi ∧ v.ty? = some .int
  | .cond _ c t f => ∃ m₁ m₂ ct,
    c.Resolved D σ lo m₁ ∧ c.ty? = some ct ∧ ct.isNumeric = true
      ∧ t.Resolved D σ.push m₁ m₂ false ∧ ResolvedElse D σ m₂ hi f
  | .loop _ c b => ∃ mid ct,
    c.Resolved D σ lo mid ∧ c.ty? = some ct ∧ ct.isNumeric = true ∧ b.Resolved D σ.push mid hi false
  | .forLoop _ i c st b => ∃ m₁ m₂ m₃,
    ResolvedClause D σ.push lo m₁ i ∧ ResolvedOption D (extendClause σ.push i) m₁ m₂ c
      ∧ ResolvedClause D (extendClause σ.push i) m₂ m₃ st
      ∧ (∀ a, st = some a → a.info.declares = true → D.steps)
      ∧ b.Resolved D (extendClause (extendClause σ.push i) st).push m₃ hi false
  | .ret _ v => last = true ∧ v.Resolved D σ lo hi ∧ ∃ t, v.ty? = some t ∧ t.isValue = true
  | .leave _ | .code _ _ | .bitfieldDef _ _ => hi = lo
  | .enumDef _ d => (D.enums ∧ ∀ m ∈ d.members, D.name m.name) ∧ hi = lo + 1 + d.members.length
  | .funcDef _ _ _ ps b =>
    hi = lo ∧ (∀ p ∈ ps, D.name p.name) ∧ b.Marked D (seenInBody σ.Shows ps) true
  | .require _ _ => False

/-- Statements resolved in order. -/
def ResolvedStmts (D : Dialect) (σ : Scope Entry) (lo hi : Nat) (last : Bool) : List Stmt → Prop
  | [] => hi = lo
  | s :: ss => ∃ mid,
    s.Resolved D σ lo mid (last && ss.isEmpty) ∧ ResolvedStmts D (s.extend σ lo) mid hi last ss

/-- A block resolved in a frame that is already open. -/
def Block.Resolved (D : Dialect) (σ : Scope Entry) (lo hi : Nat) (last : Bool) : Block → Prop
  | .mk os ss _ => os = [] ∧ ResolvedStmts D σ lo hi last ss

/-- An else block that may be absent. -/
def ResolvedElse (D : Dialect) (σ : Scope Entry) (lo hi : Nat) : Option Block → Prop
  | none => hi = lo
  | some b => b.Resolved D σ.push lo hi false

end

/-! ## Bindings are numbered upwards -/

mutual

/-- The bindings of an expression are numbered upwards. -/
theorem Expr.Resolved.le {D : Dialect} {σ : Scope Entry} {lo hi : Nat} : (e : Expr) →
    e.Resolved D σ lo hi → lo ≤ hi
  | .const _ _, h => Nat.le_of_eq h.2.symm
  | .var _ _ _, h => Nat.le_of_eq h.1.symm
  | .binary _ _ l r, ⟨_, _, _, _, hl, _, hr, _⟩ =>
    Nat.le_trans (Expr.Resolved.le l hl) (Expr.Resolved.le r hr)
  | .unary _ _ x, ⟨_, _, hx, _⟩ => Expr.Resolved.le x hx
  | .call _ _ _ args t, ⟨_, _, _, ha, ht, _⟩ =>
    Nat.le_trans (ResolvedArgs.le args ha) (Target.Resolved.le t ht)
  | .member _ _ b _ _, ⟨_, _, hb, _⟩ => Expr.Resolved.le b hb
  | .query _ _ _ u x c, ⟨_, _, hu, hx, hc, _⟩ =>
    Nat.le_trans (ResolvedOption.le u hu) (Nat.le_trans (ResolvedOption.le x hx)
      (ResolvedOption.le c hc))

/-- The bindings of arguments are numbered upwards. -/
theorem ResolvedArgs.le {D : Dialect} {σ : Scope Entry} {lo hi : Nat} {types : List Ty} :
    (es : List Expr) → ResolvedArgs D σ lo hi types es → lo ≤ hi
  | [], h => Nat.le_of_eq h.2.symm
  | e :: es, ⟨_, _, _, _, he, _, _, hes⟩ => Nat.le_trans (Expr.Resolved.le e he) (ResolvedArgs.le es hes)

/-- The bindings of an expression that may be absent are numbered upwards. -/
theorem ResolvedOption.le {D : Dialect} {σ : Scope Entry} {lo hi : Nat} : (e : Option Expr) →
    ResolvedOption D σ lo hi e → lo ≤ hi
  | none, h => Nat.le_of_eq h.symm
  | some e, h => Expr.Resolved.le e h.1

/-- The bindings of a called body are numbered upwards, behind those of the parameters. -/
theorem Target.Resolved.le {D : Dialect} {σ : Scope Entry} {lo hi : Nat} {name : Text}
    {args : List Expr} {types : List Ty} {t : Ty} : (target : Target) →
    target.Resolved D σ lo hi name args types t → lo ≤ hi
  | .unresolved, h => h.elim
  | .intrinsic _, h => Nat.le_of_eq h.1.symm
  | .constructor _, h => Nat.le_of_eq h.1.symm
  | .function _ body, ⟨_, _, _, _, _, _, hb, _⟩ =>
    Nat.le_trans (Nat.le_add_right _ _) (Block.Resolved.le body hb)

/-- The bindings of an assignment are numbered upwards. -/
theorem Assign.Resolved.le {D : Dialect} {σ : Scope Entry} {lo hi : Nat} : (a : Assign) →
    a.Resolved D σ lo hi → lo ≤ hi
  | .mk i v, ⟨mid, _, _, _, hv, _, _, hd, hn⟩ => by
    have hle := Expr.Resolved.le v hv
    cases hi : i.declares with
    | true =>
      obtain ⟨_, _, rfl⟩ := hd hi
      exact Nat.le_succ_of_le hle
    | false =>
      obtain ⟨rfl, _⟩ := hn hi
      exact hle

/-- The bindings of a clause are numbered upwards. -/
theorem ResolvedClause.le {D : Dialect} {σ : Scope Entry} {lo hi : Nat} : (a : Option Assign) →
    ResolvedClause D σ lo hi a → lo ≤ hi
  | none, h => Nat.le_of_eq h.symm
  | some a, h => Assign.Resolved.le a h

/-- The bindings of a statement are numbered upwards. -/
theorem Stmt.Resolved.le {D : Dialect} {σ : Scope Entry} {lo hi : Nat} {last : Bool} : (s : Stmt) →
    s.Resolved D σ lo hi last → lo ≤ hi
  | .block b, h => Block.Resolved.le b h
  | .eval _ e, h => Expr.Resolved.le e h
  | .assign a, h => Assign.Resolved.le a h
  -- Targets come before values.
  | .assignMember _ t v, ⟨_, _, _, ht, _, hv, _⟩ =>
    Nat.le_trans (Expr.Resolved.le t ht) (Expr.Resolved.le v hv)
  -- Both branches come behind the condition.
  | .cond _ c t f, ⟨_, _, _, hc, _, _, ht, hf⟩ =>
    Nat.le_trans (Expr.Resolved.le c hc) (Nat.le_trans (Block.Resolved.le t ht) (ResolvedElse.le f hf))
  | .loop _ c b, ⟨_, _, hc, _, _, hb⟩ =>
    Nat.le_trans (Expr.Resolved.le c hc) (Block.Resolved.le b hb)
  -- The parts of a header come in order, and the body behind them.
  | .forLoop _ i c st b, ⟨_, _, _, hi, hc, hst, _, hb⟩ =>
    Nat.le_trans (ResolvedClause.le i hi) (Nat.le_trans (ResolvedOption.le c hc)
      (Nat.le_trans (ResolvedClause.le st hst) (Block.Resolved.le b hb)))
  | .ret _ v, ⟨_, hv, _⟩ => Expr.Resolved.le v hv
  -- Nothing is numbered in these statements.
  | .leave _, h | .code _ _, h | .bitfieldDef _ _, h => Nat.le_of_eq (Eq.symm h)
  | .enumDef _ _, ⟨_, h⟩ => by omega
  | .funcDef _ _ _ _ _, ⟨h, _⟩ => Nat.le_of_eq h.symm
  | .require _ _, h => h.elim

/-- The bindings of statements are numbered upwards. -/
theorem ResolvedStmts.le {D : Dialect} {σ : Scope Entry} {lo hi : Nat} {last : Bool} :
    (ss : List Stmt) → ResolvedStmts D σ lo hi last ss → lo ≤ hi
  | [], h => Nat.le_of_eq (Eq.symm h)
  | s :: ss, ⟨_, hs, hss⟩ => Nat.le_trans (Stmt.Resolved.le s hs) (ResolvedStmts.le ss hss)

/-- The bindings of a block are numbered upwards. -/
theorem Block.Resolved.le {D : Dialect} {σ : Scope Entry} {lo hi : Nat} {last : Bool} : (b : Block) →
    b.Resolved D σ lo hi last → lo ≤ hi
  | .mk _ ss _, h => ResolvedStmts.le ss h.2

/-- The bindings of an else block are numbered upwards. -/
theorem ResolvedElse.le {D : Dialect} {σ : Scope Entry} {lo hi : Nat} : (b : Option Block) →
    ResolvedElse D σ lo hi b → lo ≤ hi
  | none, h => Nat.le_of_eq (Eq.symm h)
  | some b, h => Block.Resolved.le b h

end

/-! ## Bindings reached from a scope -/

/-- A binding that a scope shows under a name, or that a function it shows was defined in view of. -/
inductive Reaches : Scope Entry → Text → Binding → Prop where
  | here {σ : Scope Entry} {n : Text} {b : Binding} (h : σ.lookup n = some (.value b)) : Reaches σ n b
  | through {σ : Scope Entry} {f : Text} {ps : List Param} {t : Block} {κ : List (Text × Entry)}
      {n : Text} {b : Binding} (hf : σ.lookup f = some (.function ps t κ)) (h : Reaches ⟨κ, []⟩ n b) :
      Reaches σ n b

/-- What is reached depends only on what is found. -/
theorem Reaches.congr {σ τ : Scope Entry} {n : Text} {b : Binding} (h : Reaches σ n b)
    (heq : ∀ m, τ.lookup m = σ.lookup m) : Reaches τ n b := by
  cases h with
  | here h => exact .here ((heq n).trans h)
  | through hf h => exact .through ((heq _).trans hf) h

/-- Behind a definition nothing new is reached but the binding itself, or what the defined function
reaches. -/
theorem Reaches.of_define {σ : Scope Entry} {m n : Text} {e : Entry} {b : Binding}
    (h : Reaches (σ.define m e) n b) :
    Reaches σ n b ∨ (n = m ∧ e = .value b)
      ∨ ∃ ps t κ, e = .function ps t κ ∧ Reaches ⟨κ, []⟩ n b := by
  -- The name is looked up, or it is reached through a function that is.
  cases h with
  -- The name itself is defined, or it was visible before.
  | here h =>
    rw [Scope.lookup_define] at h
    split at h
    case isTrue hnm => exact .inr (.inl ⟨hnm, Option.some.inj h⟩)
    case isFalse => exact .inl (.here h)
  -- The function is the one that is defined, or it was visible before.
  | through hf h =>
    rw [Scope.lookup_define] at hf
    split at hf
    case isTrue => exact .inr (.inr ⟨_, _, _, Option.some.inj hf, h⟩)
    case isFalse => exact .inl (.through hf h)

/-- A function reaches what was visible where it was defined. -/
theorem Reaches.of_bindFunction {σ : Scope Entry} {f n : Text} {ps : List Param} {t : Block}
    {b : Binding} (h : Reaches (bindFunction σ f ps t) n b) : Reaches σ n b := by
  rcases h.of_define with h | ⟨_, h⟩ | ⟨_, _, _, he, h⟩
  · exact h
  · exact nomatch h
  · cases he
    exact h.congr fun m => by simp only [Scope.lookup_single, Scope.lookup_snapshot]

/-! ## Sound scopes -/

/-- Scopes that typing can reach: bindings are numbered below `lo` and have proper types, functions
are marked against what they were defined in view of, and every name that is reached is shown. -/
inductive Sound (D : Dialect) (lo : Nat) : Scope Entry → Prop where
  | intro {σ : Scope Entry}
      (value : ∀ n b, σ.lookup n = some (.value b) → b.id < lo ∧ b.ty.isProper = true)
      (template : ∀ f ps t κ, σ.lookup f = some (.function ps t κ) →
        (∀ p ∈ ps, D.name p.name) ∧ t.Marked D (seenInBody (Scope.Shows ⟨κ, []⟩) ps) true)
      (inner : ∀ f ps t κ, σ.lookup f = some (.function ps t κ) → Sound D lo ⟨κ, []⟩)
      (closed : ∀ n b, Reaches σ n b → σ.Shows n) : Sound D lo σ

namespace Sound

variable {D : Dialect} {lo : Nat} {σ : Scope Entry}

/-- Every name that is reached is shown. -/
theorem closed (h : Sound D lo σ) {n : Text} {b : Binding} (hr : Reaches σ n b) : σ.Shows n := by
  cases h with
  | intro _ _ _ hc => exact hc n b hr

/-- A function was defined in view of a sound scope. -/
theorem inner (h : Sound D lo σ) {f : Text} {ps : List Param} {t : Block} {κ : List (Text × Entry)}
    (hf : σ.lookup f = some (.function ps t κ)) : Sound D lo ⟨κ, []⟩ := by
  cases h with
  | intro _ _ hi _ => exact hi f ps t κ hf

/-- A function is marked against what it was defined in view of. -/
theorem template (h : Sound D lo σ) {f : Text} {ps : List Param} {t : Block}
    {κ : List (Text × Entry)} (hf : σ.lookup f = some (.function ps t κ)) :
    (∀ p ∈ ps, D.name p.name) ∧ t.Marked D (seenInBody (Scope.Shows ⟨κ, []⟩) ps) true := by
  cases h with
  | intro _ ht _ _ => exact ht f ps t κ hf

/-- Everything that is reached is numbered below the next free number and has a proper type. -/
theorem reached (h : Sound D lo σ) {n : Text} {b : Binding} (hr : Reaches σ n b) :
    b.id < lo ∧ b.ty.isProper = true := by
  induction hr with
  | here hn =>
    cases h with
    | intro hv _ _ _ => exact hv _ _ hn
  | through hf _ ih => exact ih (h.inner hf)

/-- Soundness depends only on what is found. -/
theorem congr (h : Sound D lo σ) {τ : Scope Entry} (heq : ∀ m, τ.lookup m = σ.lookup m) :
    Sound D lo τ := by
  obtain ⟨hv, ht, hi, hc⟩ := h
  refine ⟨fun n b hn => hv n b ((heq n).symm.trans hn),
    fun f ps t κ hf => ht f ps t κ ((heq f).symm.trans hf),
    fun f ps t κ hf => hi f ps t κ ((heq f).symm.trans hf), fun n b hr => ?_⟩
  have hs := hc n b (hr.congr fun m => (heq m).symm)
  simpa only [Scope.Shows, heq] using hs

/-- A scope stays sound when more numbers are taken. -/
theorem mono (h : Sound D lo σ) {hi : Nat} (hle : lo ≤ hi) : Sound D hi σ := by
  induction h with
  | intro hv ht _ hc ih =>
    exact ⟨fun n b hn => ⟨Nat.lt_of_lt_of_le (hv n b hn).1 hle, (hv n b hn).2⟩, ht, ih, hc⟩

/-- An opened block is sound. -/
theorem push (h : Sound D lo σ) : Sound D lo σ.push := h.congr fun m => σ.lookup_push m

/-- A definition keeps a scope sound if what it binds is. -/
private theorem define (h : Sound D lo σ) {m : Text} {e : Entry}
    (hv : ∀ b, e = .value b → b.id < lo ∧ b.ty.isProper = true)
    (hf : ∀ ps t κ, e = .function ps t κ →
      (∀ p ∈ ps, D.name p.name) ∧ t.Marked D (seenInBody (Scope.Shows ⟨κ, []⟩) ps) true
        ∧ Sound D lo ⟨κ, []⟩ ∧ ∀ n b, Reaches ⟨κ, []⟩ n b → σ.Shows n) :
    Sound D lo (σ.define m e) := by
  -- What is known of the scope is known of every name in it.
  have hclosed := fun n b => h.closed (n := n) (b := b)
  have hinner := fun f ps t κ => @inner D lo σ h f ps t κ
  have htemplate := fun f ps t κ => @template D lo σ h f ps t κ
  obtain ⟨hval, _, _, _⟩ := h
  -- The four parts of soundness: values, templates, captured scopes, and what is reached.
  refine ⟨fun n b hn => ?_, fun f ps t κ hn => ?_, fun f ps t κ hn => ?_, fun n b hr => ?_⟩
  -- A value is the one that is defined, or another one.
  · rw [Scope.lookup_define] at hn
    split at hn
    · exact hv b (Option.some.inj hn)
    · exact hval n b hn
  -- So is a template.
  · rw [Scope.lookup_define] at hn
    split at hn
    · obtain ⟨hp, ht, _⟩ := hf ps t κ (Option.some.inj hn)
      exact ⟨hp, ht⟩
    · exact htemplate f ps t κ hn
  -- So is a captured scope.
  · rw [Scope.lookup_define] at hn
    split at hn
    · exact (hf ps t κ (Option.some.inj hn)).2.2.1
    · exact hinner f ps t κ hn
  -- What is reached was reached before, or it is the definition, or it is reached through it.
  · rcases hr.of_define with hr | ⟨rfl, _⟩ | ⟨ps, t, κ, he, hr⟩
    · exact (hclosed n b hr).define _ _
    · exact σ.shows_define_self _ _
    · exact ((hf ps t κ he).2.2.2 n b hr).define _ _

/-- A new variable keeps a scope sound. -/
theorem defineValue (h : Sound D lo σ) {m : Text} {b : Binding} {hi : Nat} (hle : lo ≤ hi)
    (hid : b.id < hi) (ht : b.ty.isProper = true) : Sound D hi (σ.define m (.value b)) :=
  (h.mono hle).define (fun _ he => by cases he; exact ⟨hid, ht⟩) (fun _ _ _ he => nomatch he)

/-- A bitfield keeps a scope sound. -/
theorem defineBitfield (h : Sound D lo σ) (m : Text) (d : Bitfield) :
    Sound D lo (σ.define m (.bitfield d)) :=
  h.define (fun _ he => nomatch he) (fun _ _ _ he => nomatch he)

/-- An intrinsic keeps a scope sound. -/
theorem defineIntrinsic (h : Sound D lo σ) (m : Text) (op : Intrinsic) :
    Sound D lo (σ.define m (.intrinsic op)) :=
  h.define (fun _ he => nomatch he) (fun _ _ _ he => nomatch he)

/-- A function keeps a scope sound if it is marked against it. -/
theorem bindFunction (h : Sound D lo σ) {f : Text} {ps : List Param} {t : Block}
    (hp : ∀ p ∈ ps, D.name p.name) (ht : t.Marked D (seenInBody σ.Shows ps) true) :
    Sound D lo (bindFunction σ f ps t) := by
  have hsnap : ∀ m, (⟨σ.snapshot.inner, []⟩ : Scope Entry).lookup m = σ.lookup m := fun m => by
    simp only [Scope.lookup_single, Scope.lookup_snapshot]
  refine h.define (fun _ he => nomatch he) (fun ps' t' κ he => ?_)
  cases he
  refine ⟨hp, Block.Marked.mono (fun n hn => hn.imp_left fun hn => ?_) _ ht, h.congr hsnap,
    fun n b hr => h.closed (hr.congr fun m => (hsnap m).symm)⟩
  simpa only [Scope.Shows, hsnap] using hn

end Sound

end AisScript
