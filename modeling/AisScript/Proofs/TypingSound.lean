import AisScript.Proofs.Resolved

/-!
# Typing establishes the judgement

A program that typing accepts is resolved: `Block.annotate` returns a tree for which `Block.Resolved`
holds in the scope of the host.  Expressions and statements are typed under an assumption about how
called bodies are entered (`EnterSound`); the assumption is then discharged by induction on the
number of levels that bodies may be nested.

* `Expr.annotate_resolved`, `Stmt.annotate_resolved`   one step, under the assumption
* `enterSound_enterWithin`                             the assumption holds at every depth
* `Block.annotate_resolved`                            whole programs
-/

namespace AisScript

/-! ## Types of operations -/

/-- A type that is a value is proper. -/
theorem Ty.isProper_of_isValue {t : Ty} (h : t.isValue = true) : t.isProper = true := by
  cases t <;> first | rfl | exact nomatch h

/-- A number has a proper type. -/
theorem Ty.isProper_of_isNumeric {t : Ty} (h : t.isNumeric = true) : t.isProper = true := by
  cases t <;> first | rfl | exact nomatch h

/-- A proper type that is not an enumeration's own is the type of a value. -/
private theorem Ty.isValue_of_isProper {t : Ty} (h : t.isProper = true) (he : ∀ d, t ≠ .enum d) :
    t.isValue = true := by
  cases t with
  | enum d => exact absurd rfl (he d)
  | _ => first | rfl | exact nomatch h

/-- The common type of two numbers is a number. -/
private theorem Ty.isNumeric_arithmetic (a b : Ty) : (Ty.arithmetic a b).isNumeric = true := by
  simp only [Ty.arithmetic]
  split <;> rfl

/-- A binary operation gives a number. -/
theorem BinaryOp.isNumeric_resultTy {op : BinaryOp} {l r t : Ty} (h : op.resultTy l r = .ok t) :
    t.isNumeric = true := by
  simp only [BinaryOp.resultTy] at h
  split at h
  · split at h <;> cases h
    rfl
  · split at h
    · split at h <;> cases h
      exact Ty.isNumeric_arithmetic l r
    · split at h <;> split at h <;> cases h <;> rfl

/-- A unary operation gives a number. -/
theorem UnaryOp.isNumeric_resultTy {op : UnaryOp} {x t : Ty} (h : op.resultTy x = .ok t) :
    t.isNumeric = true := by
  cases op <;> simp only [UnaryOp.resultTy] at h <;> split at h <;> cases h
  · rfl
  · assumption
  · rfl

/-- A member is an integer. -/
theorem memberTy_eq_int {a : Access} {base t : Ty} {n : Text} {ns s : Span}
    (h : memberTy a base n ns s = .ok t) : t = .int := by
  simp only [memberTy] at h
  split at h
  · split at h <;> cases h
    rfl
  · split at h <;> cases h
    rfl
  · exact nomatch h

/-- Whether the type of a signature's result is proper, if it has one. -/
private def Signature.givesProper : Signature → Bool
  | .unary _ result => result.isProper
  | .binary _ rule => rule != .unknown
  | _ => true

/-- An operation with a proper signature gives nothing or a proper type. -/
private theorem Intrinsic.resultOf_proper {s : Signature} {types : List Ty} {t : Ty}
    (hs : s.givesProper = true) (h : Intrinsic.resultOf s types = .ok t) :
    t = .void ∨ t.isProper = true := by
  unfold Intrinsic.resultOf at h
  -- One case for each of the signatures.
  split at h
  case h_1 => exact nomatch h
  -- Printing and sinks give nothing.
  case h_2 => split at h <;> cases h; exact .inl rfl
  case h_3 => split at h <;> cases h; exact .inl rfl
  -- One operand: the result is written in the signature.
  case h_4 => split at h <;> cases h; exact .inr hs
  case h_5 => split at h <;> cases h; exact .inr rfl
  -- Two operands: the rule gives a number.
  case h_6 rule a b =>
    split at h <;> cases h
    cases rule with
    | unknown => exact nomatch hs
    | arithmetic => exact .inr (Ty.isProper_of_isNumeric (Ty.isNumeric_arithmetic a b))
    | int => exact .inr rfl
  -- Fractions and objects give plain types.
  case h_7 => split at h <;> cases h; exact .inr rfl
  case h_8 => split at h <;> cases h; exact .inr rfl
  -- All other lists of types are refused.
  all_goals exact nomatch h

/-- An intrinsic gives nothing or a proper type. -/
private theorem Intrinsic.check_proper {op : Intrinsic} {types : List Ty} {t : Ty}
    (h : op.check types = .ok t) : t = .void ∨ t.isProper = true := by
  simp only [Intrinsic.check] at h
  split at h <;> cases h
  rename_i h
  exact Intrinsic.resultOf_proper (by cases op <;> rfl) h

/-! ## Demands on typed expressions -/

namespace Typed

variable {r : Typed Expr Ty} {t : Ty}

/-- A demand does not touch the tree. -/
@[simp] theorem tree_asValue (r : Typed Expr Ty) : r.asValue.tree = r.tree := by
  unfold asValue
  split <;> rfl

/-- A demand takes no numbers. -/
@[simp] theorem next_asValue (r : Typed Expr Ty) : r.asValue.next = r.next := by
  unfold asValue
  split <;> rfl

/-- A value is anything but the mark of a call that produces nothing. -/
private theorem of_asValue (h : r.asValue.result = .ok t) : r.result = .ok t ∧ t ≠ .void := by
  unfold asValue at h
  split at h
  case h_1 => exact nomatch h
  case h_2 hne =>
    refine ⟨h, ?_⟩
    rintro rfl
    exact hne h

/-- The demand for a value of an accepted type; conditions and the parts of queries are such
demands. -/
def demanding (accepts : Ty → Prop) [DecidablePred accepts] (cause : Ty → SemanticCause)
    (r : Typed Expr Ty) : Typed Expr Ty :=
  let v := r.asValue
  match v.result with
  | .ok ty => if accepts ty then v else { v with result := .error ⟨cause ty, v.tree.span⟩ }
  | .error _ => v

/-- A condition has to be a number. -/
theorem asCondition_eq (r : Typed Expr Ty) :
    r.asCondition = r.demanding (·.isNumeric = true) .conditionNotNumeric := rfl

/-- An operand of a query has to be a number. -/
theorem asQueryOperand_eq (r : Typed Expr Ty) :
    r.asQueryOperand = r.demanding (·.isNumeric = true) .queryOperand := rfl

/-- The unit of a query has to be an object. -/
theorem asQueryUnit_eq (r : Typed Expr Ty) :
    r.asQueryUnit = r.demanding (· = .object) .queryUnit := rfl

section Demanding

variable {accepts : Ty → Prop} [DecidablePred accepts] {cause : Ty → SemanticCause}

/-- A demand keeps the tree. -/
@[simp] theorem tree_demanding (r : Typed Expr Ty) : (r.demanding accepts cause).tree = r.tree := by
  simp only [demanding]
  split
  · split <;> exact r.tree_asValue
  · exact r.tree_asValue

/-- A demand takes no numbers for bindings. -/
@[simp] theorem next_demanding (r : Typed Expr Ty) : (r.demanding accepts cause).next = r.next := by
  simp only [demanding]
  split
  · split <;> exact r.next_asValue
  · exact r.next_asValue

/-- What meets a demand has an accepted type. -/
private theorem of_demanding (h : (r.demanding accepts cause).result = .ok t) :
    r.result = .ok t ∧ accepts t := by
  simp only [demanding] at h
  -- The value is typed, and its type is accepted or refused.
  split at h
  case h_1 ty hty =>
    split at h
    case isTrue hn =>
      rw [hty] at h
      cases h
      exact ⟨(of_asValue hty).1, hn⟩
    case isFalse => exact nomatch h
  case h_2 e he =>
    rw [he] at h
    exact nomatch h

end Demanding

/-- What a typed expression of type `t` satisfies. -/
structure Gives (D : Dialect) (σ : Scope Entry) (lo : Nat) (r : Typed Expr Ty) (t : Ty) : Prop where
  resolved : r.tree.Resolved D σ lo r.next
  ty : r.tree.ty? = some t
  proper : t = .void ∨ t.isProper = true

end Typed

/-! ## Expressions -/

/-- Entering called bodies gives resolved bodies: the parameters are numbered from `lo` on, and the body
is resolved behind them in the scope of the definition. -/
def EnterSound (D : Dialect) (enter : EnterBody) : Prop :=
  ∀ (κ : List (Text × Entry)) (lo : Nat) (params : List Param) (args : List Expr) (body : Block),
    Sound D lo ⟨κ, []⟩ → params.length = args.length →
    (∀ e ∈ args, ∃ t, e.ty? = some t ∧ t.isProper = true) →
    body.Marked D (seenInBody (Scope.Shows ⟨κ, []⟩) params) true →
    (enter ⟨κ, []⟩ lo (bindArguments params args) body).result = .ok () →
      (enter ⟨κ, []⟩ lo (bindArguments params args) body).tree.1
          = numberBinds lo (bindArguments params args)
        ∧ (enter ⟨κ, []⟩ lo (bindArguments params args) body).tree.2.Resolved D
          (bodyScope κ (numberBinds lo (bindArguments params args))) (lo + params.length)
          (enter ⟨κ, []⟩ lo (bindArguments params args) body).next true

/-- A return that ends resolved statements returns a value. -/
private theorem ResolvedStmts.returned {D : Dialect} {σ : Scope Entry} {lo hi : Nat} {last : Bool}
    {ss : List Stmt} {sp : Span} {v : Expr} (h : ResolvedStmts D σ lo hi last ss)
    (hl : ss.getLast? = some (.ret sp v)) : ∃ t, v.ty? = some t ∧ t.isValue = true := by
  induction ss generalizing σ lo with
  | nil => exact nomatch hl
  | cons s ss ih =>
    obtain ⟨mid, hs, hss⟩ := h
    cases ss with
    | nil =>
      cases hl
      exact hs.2.2
    | cons s' ss => exact ih hss (by rwa [List.getLast?_cons_cons] at hl)

/-- The last statement of a resolved body returns a value, or the body returns nothing. -/
theorem Block.Resolved.returnTy {D : Dialect} {σ : Scope Entry} {lo hi : Nat} {b : Block}
    (h : b.Resolved D σ lo hi true) :
    (b.returned? = none ∧ b.returnTy = .void)
      ∨ ∃ v t, b.returned? = some v ∧ v.ty? = some t ∧ t.isValue = true ∧ b.returnTy = t := by
  obtain ⟨os, ss, sp⟩ := b
  simp only [Block.returnTy, Block.returned?, Block.stmts]
  split
  case h_1 v hl =>
    obtain ⟨t, ht, hval⟩ := h.2.returned hl
    exact .inr ⟨v, t, rfl, ht, hval, by simp only [ht, Option.getD_some]⟩
  case h_2 => exact .inl ⟨rfl, rfl⟩

/-- Resolved arguments have proper types. -/
theorem ResolvedArgs.proper {D : Dialect} {σ : Scope Entry} {lo hi : Nat} {types : List Ty}
    {es : List Expr} (h : ResolvedArgs D σ lo hi types es) :
    ∀ e ∈ es, ∃ t, e.ty? = some t ∧ t.isProper = true := by
  induction es generalizing lo types with
  | nil => exact fun _ he => nomatch he
  | cons e es ih =>
    obtain ⟨mid, t, ts, _, _, ht, hp, hes⟩ := h
    exact List.forall_mem_cons.2 ⟨⟨t, ht, hp⟩, ih hes⟩

/-- A call whose arguments are resolved. -/
private theorem callTyped_gives {D : Dialect} {enter : EnterBody} (hE : EnterSound D enter)
    {σ : Scope Entry} {lo mid : Nat} (hσ : Sound D mid σ) {i : ExprInfo} {n : Text} {ns : Span}
    {args : List Expr} {target : Target} {types : List Ty} {t : Ty}
    (hargs : ResolvedArgs D σ lo mid types args)
    (h : (callTyped enter σ mid i n ns args target types).result = .ok t) :
    (callTyped enter σ mid i n ns args target types).Gives D σ lo t := by
  -- What the called name stands for decides what the call is.
  unfold callTyped at h ⊢
  cases hn : σ.lookup n with
  | none => simp only [hn] at h; exact nomatch h
  | some entry =>
    cases entry with
    | value b => simp only [hn] at h; exact nomatch h
    -- An intrinsic is called with types that its signature admits.
    | intrinsic op =>
      simp only [hn] at h ⊢
      cases hc : op.check types with
      | error e => simp only [hc] at h; exact nomatch h
      | ok t' =>
        simp only [hc] at h ⊢
        cases h
        exact ⟨⟨mid, types, t, hargs, ⟨rfl, hc⟩, rfl⟩, rfl, Intrinsic.check_proper hc⟩
    -- A bitfield is made of one integer.
    | bitfield layout =>
      simp only [hn] at h ⊢
      split at h
      case isTrue hty =>
        simp only [hty, if_true]
        cases h
        exact ⟨⟨mid, types, _, hargs, ⟨rfl, hty, rfl⟩, rfl⟩, rfl, .inr rfl⟩
      case isFalse => exact nomatch h
    -- A function is entered with as many arguments as it has parameters.
    | function params body κ =>
      simp only [hn] at h ⊢
      split at h
      case isTrue => exact nomatch h
      case isFalse hlen =>
        rw [if_neg hlen]
        have hlen : params.length = args.length := (Decidable.not_not.1 hlen).symm
        -- The copy of the body that entering makes is resolved, by the assumption on `enter`.
        have henter := hE κ mid params args body (hσ.inner hn) hlen hargs.proper (hσ.template hn).2
        generalize enter ⟨κ, []⟩ mid (bindArguments params args) body = r at h henter ⊢
        obtain ⟨⟨binds, b⟩, next, result⟩ := r
        cases result with
        | error e => exact nomatch h
        | ok u =>
          obtain ⟨hb, hr⟩ := henter rfl
          cases h
          simp only at hb hr
          subst hb
          refine ⟨⟨mid, types, _, hargs, ⟨params, body, κ, hn, hlen, rfl, hr, rfl⟩, rfl⟩, rfl, ?_⟩
          change b.returnTy = .void ∨ b.returnTy.isProper = true
          -- The type of the call is the type that the body returns, or void.
          rcases hr.returnTy with ⟨_, ht⟩ | ⟨_, t, _, _, hv, ht⟩
          · exact .inl ht
          · exact .inr (ht ▸ Ty.isProper_of_isValue hv)

mutual

/-- Typing an expression resolves it. -/
private theorem Expr.annotate_gives {D : Dialect} {enter : EnterBody} (hE : EnterSound D enter)
    {σ : Scope Entry} {lo : Nat} (hσ : Sound D lo σ) : (e : Expr) → e.Bare D → (t : Ty) →
      (e.annotate enter σ lo).result = .ok t → (e.annotate enter σ lo).Gives D σ lo t
  -- A literal carries the type of its value already.
  | .const i v, hb, t, h => by
    have hty : i.ty = some v.ty := hb _ (List.mem_singleton.2 rfl)
    simp only [Expr.annotate, hty, Option.getD_some] at h ⊢
    cases h
    refine ⟨⟨hty, rfl⟩, hty, .inr ?_⟩
    cases v <;> rfl
  -- A variable is resolved by the value that its name stands for.
  | .var i n b, hb, t, h => by
    have hname : D.name n := hb _ (List.mem_singleton.2 rfl)
    cases hn : σ.lookup n with
    | none => simp only [Expr.annotate, hn] at h; exact nomatch h
    | some entry =>
      cases entry with
      | value c =>
        simp only [Expr.annotate, hn] at h ⊢
        cases h
        exact ⟨⟨rfl, hname, c, hn, rfl, rfl⟩, rfl, .inr (hσ.reached (.here hn)).2⟩
      | _ => simp only [Expr.annotate, hn] at h; exact nomatch h
  -- The operands are typed one behind the other, and the operator admits their types.
  | .binary i op l r, hb, t, h => by
    simp only [Expr.Bare, Expr.nodes, List.forall_mem_cons, List.forall_mem_append] at hb
    simp only [Expr.annotate, Typed.tree_asValue, Typed.next_asValue] at h ⊢
    cases hl : (l.annotate enter σ lo).asValue.result with
    | error e => simp only [hl] at h; exact nomatch h
    | ok lt =>
      have gl := Expr.annotate_gives hE hσ l hb.2.1 lt (Typed.of_asValue hl).1
      -- The scope stays sound behind the numbers that the left operand takes.
      have hσ' := hσ.mono gl.resolved.le
      simp only [hl] at h ⊢
      cases hr : (r.annotate enter σ (l.annotate enter σ lo).next).asValue.result with
      | error e => simp only [hr] at h; exact nomatch h
      | ok rt =>
        have gr := Expr.annotate_gives hE hσ' r hb.2.2 rt (Typed.of_asValue hr).1
        simp only [hr] at h ⊢
        cases ho : op.resultTy lt rt with
        | error e => simp only [ho] at h; exact nomatch h
        | ok t' =>
          simp only [ho] at h ⊢
          cases h
          exact ⟨⟨_, lt, rt, t, gl.resolved, gl.ty, gr.resolved, gr.ty, ho, rfl⟩, rfl,
            .inr (Ty.isProper_of_isNumeric (BinaryOp.isNumeric_resultTy ho))⟩
  | .unary i op x, hb, t, h => by
    simp only [Expr.Bare, Expr.nodes, List.forall_mem_cons] at hb
    simp only [Expr.annotate, Typed.tree_asValue, Typed.next_asValue] at h ⊢
    cases hx : (x.annotate enter σ lo).asValue.result with
    | error e => simp only [hx] at h; exact nomatch h
    | ok xt =>
      have gx := Expr.annotate_gives hE hσ x hb.2 xt (Typed.of_asValue hx).1
      simp only [hx] at h ⊢
      cases ho : op.resultTy xt with
      | error e => simp only [ho] at h; exact nomatch h
      | ok t' =>
        simp only [ho] at h ⊢
        cases h
        exact ⟨⟨xt, t, gx.resolved, gx.ty, ho, rfl⟩, rfl,
          .inr (Ty.isProper_of_isNumeric (UnaryOp.isNumeric_resultTy ho))⟩
  -- The arguments first, then the call itself.
  | .call i n ns args target, hb, t, h => by
    simp only [Expr.Bare, Expr.nodes, List.forall_mem_cons] at hb
    simp only [Expr.annotate] at h ⊢
    cases ha : (annotateArgs enter σ lo args).result with
    | error e => simp only [ha] at h; exact nomatch h
    | ok types =>
      have hargs := annotateArgs_resolved hE hσ args hb.2 types ha
      simp only [ha] at h ⊢
      exact callTyped_gives hE (hσ.mono hargs.le) hargs h
  -- A member is an integer, on enumerations as on bitfields.
  | .member i a base n ns, hb, t, h => by
    simp only [Expr.Bare, Expr.nodes, List.forall_mem_cons] at hb
    simp only [Expr.annotate, Typed.tree_asValue, Typed.next_asValue] at h ⊢
    cases hx : (base.annotate enter σ lo).asValue.result with
    | error e => simp only [hx] at h; exact nomatch h
    | ok bt =>
      have gb := Expr.annotate_gives hE hσ base hb.2 bt (Typed.of_asValue hx).1
      simp only [hx] at h ⊢
      cases hm : memberTy a bt n ns i.span with
      | error e => simp only [hm] at h; exact nomatch h
      | ok t' =>
        simp only [hm] at h ⊢
        cases h
        exact ⟨⟨bt, t, gb.resolved, gb.ty, hm, rfl⟩, rfl, .inr (memberTy_eq_int hm ▸ rfl)⟩
  -- A query is typed by its words, then its unit, its operand and its condition.
  | .query i k op u x c, hb, t, h => by
    simp only [Expr.Bare, Expr.nodes, List.forall_mem_cons, List.forall_mem_append] at hb
    obtain ⟨_, ⟨hbu, hbx⟩, hbc⟩ := hb
    simp only [Expr.annotate] at h ⊢
    cases hn : nestedBestMove? (.query i k op u x c) with
    | some part => simp only [hn] at h; exact nomatch h
    | none =>
      simp only [hn] at h ⊢
      cases hw : queryWordsFault? k op with
      | some cause => simp only [hw] at h; exact nomatch h
      | none =>
        simp only [hw] at h ⊢
        cases hu : (annotateUnit enter σ lo u).result with
        | error e => simp only [hu] at h; exact nomatch h
        | ok =>
          have ru := annotateUnit_resolved hE hσ u hbu hu
          have hσ₁ := hσ.mono ru.le
          simp only [hu] at h ⊢
          cases hx : (annotateOperand enter σ (annotateUnit enter σ lo u).next x).result with
          | error e => simp only [hx] at h; exact nomatch h
          | ok =>
            have rx := annotateOperand_resolved hE hσ₁ x hbx hx
            have hσ₂ := hσ₁.mono rx.le
            simp only [hx] at h ⊢
            cases hc : (annotateOperand enter σ (annotateOperand enter σ
                (annotateUnit enter σ lo u).next x).next c).result with
            | error e => simp only [hc] at h; exact nomatch h
            | ok =>
              have rc := annotateOperand_resolved hE hσ₂ c hbc hc
              simp only [hc] at h ⊢
              cases h
              refine ⟨⟨_, _, ru, rx, rc, rfl⟩, rfl, .inr ?_⟩
              split <;> rfl

/-- Typing arguments resolves them. -/
private theorem annotateArgs_resolved {D : Dialect} {enter : EnterBody} (hE : EnterSound D enter)
    {σ : Scope Entry} {lo : Nat} (hσ : Sound D lo σ) : (es : List Expr) →
    (∀ x ∈ nodesOfList es, x.IsBare D) → (ts : List Ty) →
      (annotateArgs enter σ lo es).result = .ok ts →
        ResolvedArgs D σ lo (annotateArgs enter σ lo es).next ts (annotateArgs enter σ lo es).tree
  | [], _, ts, h => by
    cases h
    exact ⟨rfl, rfl⟩
  | e :: es, hb, ts, h => by
    simp only [nodesOfList, List.forall_mem_append] at hb
    simp only [annotateArgs, Typed.tree_asValue, Typed.next_asValue] at h ⊢
    cases he : (e.annotate enter σ lo).asValue.result with
    | error err => simp only [he] at h; exact nomatch h
    | ok t =>
      obtain ⟨he', hv⟩ := Typed.of_asValue he
      have ge := Expr.annotate_gives hE hσ e hb.1 t he'
      simp only [he] at h ⊢
      cases hes : (annotateArgs enter σ (e.annotate enter σ lo).next es).result with
      | error err => simp only [hes] at h; exact nomatch h
      | ok ts' =>
        have hrs := annotateArgs_resolved hE (hσ.mono ge.resolved.le) es hb.2 ts' hes
        -- Void is no type of an argument: the argument has a value.
        simp only [hes] at h
        cases h
        exact ⟨_, t, ts', rfl, ge.resolved, ge.ty, ge.proper.resolve_left hv, hrs⟩

/-- Typing the unit of a query resolves it. -/
private theorem annotateUnit_resolved {D : Dialect} {enter : EnterBody} (hE : EnterSound D enter)
    {σ : Scope Entry} {lo : Nat} (hσ : Sound D lo σ) : (e : Option Expr) → BareOption D e →
      (annotateUnit enter σ lo e).result = .ok () →
        ResolvedOption D σ lo (annotateUnit enter σ lo e).next (annotateUnit enter σ lo e).tree
  | none, _, _ => rfl
  | some e, hb, h => by
    simp only [annotateUnit, Typed.asQueryUnit_eq, Typed.tree_demanding, Typed.next_demanding] at h ⊢
    cases he : ((e.annotate enter σ lo).demanding (· = .object) .queryUnit).result with
    | error err => simp only [he] at h; exact nomatch h
    | ok t =>
      obtain ⟨he, rfl⟩ := Typed.of_demanding he
      have ge := Expr.annotate_gives hE hσ e hb _ he
      exact ⟨ge.resolved, .object, ge.ty, rfl⟩

/-- Typing an operand of a query resolves it. -/
private theorem annotateOperand_resolved {D : Dialect} {enter : EnterBody} (hE : EnterSound D enter)
    {σ : Scope Entry} {lo : Nat} (hσ : Sound D lo σ) : (e : Option Expr) → BareOption D e →
      (annotateOperand enter σ lo e).result = .ok () →
        ResolvedOption D σ lo (annotateOperand enter σ lo e).next (annotateOperand enter σ lo e).tree
  | none, _, _ => rfl
  | some e, hb, h => by
    simp only [annotateOperand, Typed.asQueryOperand_eq, Typed.tree_demanding,
      Typed.next_demanding] at h ⊢
    cases he : ((e.annotate enter σ lo).demanding (·.isNumeric = true) .queryOperand).result with
    | error err => simp only [he] at h; exact nomatch h
    | ok t =>
      -- An operand of a query is numeric, so its type is proper.
      obtain ⟨he, hn⟩ := Typed.of_demanding he
      have ge := Expr.annotate_gives hE hσ e hb _ he
      exact ⟨ge.resolved, t, ge.ty, Ty.isProper_of_isNumeric hn⟩

end

/-! ## Assignments -/

/-- What typing a tree that changes the scope satisfies: the tree is resolved, the new scope is the
one behind the tree, it is sound, and it shows only what is seen behind the tree. -/
structure Typed.Moves {α : Type} (r : Typed α (Scope Entry)) (resolved : α → Nat → Prop)
    (behind : α → Scope Entry) (seen : Text → Prop) (D : Dialect) (σ : Scope Entry) : Prop where
  resolved : resolved r.tree r.next
  behind : σ = behind r.tree
  sound : Sound D r.next σ
  seen : ∀ n, σ.Shows n → seen n

/-- A new variable shows its own name only. -/
private theorem shows_of_define {σ : Scope Entry} {m n : Text} {e : Entry}
    (h : (σ.define m e).Shows n) : σ.Shows n ∨ n = m := by
  by_cases hn : n = m
  · exact .inr hn
  · rw [Scope.Shows, Scope.lookup_define_of_ne σ e hn] at h
    exact .inl h

/-- A name that is not shown is not found. -/
private theorem lookup_eq_none_of_not_shows {σ : Scope Entry} {n : Text} (h : ¬ σ.Shows n) :
    σ.lookup n = none := by
  cases hn : σ.lookup n with
  | none => rfl
  | some e => exact absurd (by rw [Scope.Shows, hn]; rfl) h

/-- Typing an assignment resolves it. -/
private theorem Assign.annotate_moves {D : Dialect} {enter : EnterBody} (hE : EnterSound D enter)
    {σ σ' : Scope Entry} {lo : Nat} (hσ : Sound D lo σ) {a : Assign} (ha : a.Marked D σ.Shows)
    (h : (a.annotate enter σ lo).result = .ok σ') :
    (a.annotate enter σ lo).Moves (fun a hi => a.Resolved D σ lo hi) (·.extend σ)
      (a.seenBehind σ.Shows) D σ' := by
  obtain ⟨i, v⟩ := a
  obtain ⟨hb, hn, hd, hv⟩ := ha
  have hg := Expr.annotate_gives hE hσ v hv
  simp only [Assign.annotate, Assign.info, Assign.value, hb, Bool.false_eq_true, if_false] at h ⊢
  -- The equation keeps the outcome of the value while its steps are followed.
  generalize hx : assignTyped σ i (v.annotate enter σ lo) = r at h ⊢
  simp only [assignTyped, Typed.tree_asValue, Typed.next_asValue] at hx
  cases hr : (v.annotate enter σ lo).asValue.result with
  | error e =>
    simp only [hr] at hx
    subst hx
    exact nomatch h
  | ok t =>
    obtain ⟨hr', hvoid⟩ := Typed.of_asValue hr
    have g := hg t hr'
    have hp := g.proper.resolve_left hvoid
    simp only [hr] at hx
    split at hx
    case h_1 => subst hx; exact nomatch h
    case h_2 henum =>
      -- Neither void nor an enumeration: the type is one of values.
      have hval := Ty.isValue_of_isProper hp henum
      cases hdec : i.declares with
      -- A declaration gives the name a number of its own.
      | true =>
        simp only [hdec, if_true] at hx
        subst hx
        cases h
        refine ⟨⟨_, t, hb, hn, g.resolved, g.ty, hval, fun _ => ⟨?_, rfl, rfl⟩, fun hf => ?_⟩, ?_, ?_,
          fun m hm => ?_⟩
        -- The declaration pass has marked it, so the scope did not show the name.
        · exact lookup_eq_none_of_not_shows (hd hdec)
        · exact nomatch hf
        · simp only [Assign.extend, Assign.info, if_true]
        · exact hσ.defineValue (Nat.le_succ_of_le g.resolved.le) (Nat.lt_succ_self _) hp
        · exact (shows_of_define hm).imp_right fun hm => ⟨hdec, hm⟩
      -- An assignment to what stands already must agree with its type, and that must not be fixed.
      | false =>
        simp only [hdec, Bool.false_eq_true, if_false] at hx
        split at hx
        case h_1 => subst hx; exact nomatch h
        case h_2 b hlk =>
          split at hx
          case isTrue => subst hx; exact nomatch h
          case isFalse hassign =>
            split at hx
            case isTrue => subst hx; exact nomatch h
            case isFalse himm =>
              subst hx
              cases h
              -- The binding is the one found, and the scope is left as it is.
              refine ⟨⟨_, t, hb, hn, g.resolved, g.ty, hval, fun hf => ?_, fun _ => ⟨rfl, b, hlk, rfl, ?_, ?_⟩⟩,
                ?_, hσ.mono g.resolved.le, fun m hm => .inl hm⟩
              · exact nomatch hf
              · simpa only [Bool.not_eq_true', Bool.not_eq_false] using hassign
              · simpa only [Bool.not_eq_true] using himm
              · simp only [Assign.extend, Assign.info, Bool.false_eq_true, if_false]
        case h_3 => subst hx; exact nomatch h

/-- Typing decides nothing about what declares. -/
private theorem Assign.declares_annotate (enter : EnterBody) (σ : Scope Entry) (lo : Nat) (a : Assign) :
    (a.annotate enter σ lo).tree.info.declares = a.info.declares := by
  obtain ⟨i, v⟩ := a
  simp only [Assign.annotate, Assign.bindParam, assignTyped, Typed.fail]
  repeat' split
  all_goals rfl

/-- Typing a clause of a loop header resolves it. -/
private theorem annotateClause_moves {D : Dialect} {enter : EnterBody} (hE : EnterSound D enter)
    {σ σ' : Scope Entry} {lo : Nat} (hσ : Sound D lo σ) {a : Option Assign}
    (ha : MarkedClause D σ.Shows a) (h : (annotateClause enter σ lo a).result = .ok σ') :
    (annotateClause enter σ lo a).Moves (fun a hi => ResolvedClause D σ lo hi a) (extendClause σ)
      (clauseSeenBehind σ.Shows a) D σ' := by
  cases a with
  | none =>
    cases h
    exact ⟨rfl, rfl, hσ, fun _ hn => hn⟩
  | some a =>
    obtain ⟨hr, hb, hs, hseen⟩ := Assign.annotate_moves hE hσ ha h
    exact ⟨hr, hb, hs, hseen⟩

/-- Typing the condition of a loop header resolves it. -/
private theorem annotateTest_resolved {D : Dialect} {enter : EnterBody} (hE : EnterSound D enter)
    {σ : Scope Entry} {lo : Nat} (hσ : Sound D lo σ) {e : Option Expr} (hb : BareOption D e)
    (h : (annotateTest enter σ lo e).result = .ok ()) :
    ResolvedOption D σ lo (annotateTest enter σ lo e).next (annotateTest enter σ lo e).tree := by
  cases e with
  | none => rfl
  | some e =>
    simp only [annotateTest, Typed.asCondition_eq, Typed.tree_demanding, Typed.next_demanding] at h ⊢
    cases he : ((e.annotate enter σ lo).demanding (·.isNumeric = true) .conditionNotNumeric).result with
    | error err => simp only [he] at h; exact nomatch h
    | ok t =>
      obtain ⟨he, hn⟩ := Typed.of_demanding he
      have ge := Expr.annotate_gives hE hσ e hb _ he
      exact ⟨ge.resolved, t, ge.ty, Ty.isProper_of_isNumeric hn⟩

/-- Typing a name gives a name. -/
private theorem Expr.annotate_var (enter : EnterBody) (σ : Scope Entry) (lo : Nat) (i : ExprInfo)
    (n : Text) (b : Option Binding) :
    ∃ i' b', ((Expr.var i n b).annotate enter σ lo).tree = .var i' n b' := by
  simp only [Expr.annotate]
  split <;> exact ⟨_, _, rfl⟩

/-- Typing an assignment to a member resolves it. -/
private theorem annotateMemberAssign_moves {D : Dialect} {enter : EnterBody} (hE : EnterSound D enter)
    {σ σ' : Scope Entry} {lo : Nat} (hσ : Sound D lo σ) {last : Bool} {s : Span} {t v : Expr}
    (hm : t.isNamedMember = true) (ht : t.Bare D) (hv : v.Bare D)
    (h : (annotateMemberAssign enter σ lo s t v).result = .ok σ') :
    (annotateMemberAssign enter σ lo s t v).Moves (fun s hi => s.Resolved D σ lo hi last)
      (·.extend σ lo) σ.Shows D σ' := by
  -- The target is a member of a variable, so its own typing is that of the variable.
  obtain ⟨i, vi, n, vb, m, ms, rfl⟩ := Expr.eq_of_isNamedMember hm
  simp only [Expr.Bare, Expr.nodes, List.forall_mem_cons] at ht
  have hg := Expr.annotate_gives hE hσ (.var vi n vb) (List.forall_mem_cons.2 ht.2)
  have hvar := Expr.annotate_var enter σ lo vi n vb
  generalize hx : annotateMemberAssign enter σ lo s _ v = r at h ⊢
  simp only [annotateMemberAssign, Typed.tree_asValue, Typed.next_asValue] at hx
  generalize (Expr.var vi n vb).annotate enter σ lo = a at hx hg hvar
  cases ha : a.asValue.result with
  | error e =>
    simp only [ha] at hx
    subst hx
    cases h
  | ok bt =>
    have g := hg bt (Typed.of_asValue ha).1
    obtain ⟨vi', vb', hvar⟩ := hvar
    simp only [ha] at hx
    split at hx
    case h_1 heq => cases heq
    -- Of the types of variables, only the bitfields have members to assign.
    case h_2 layout heq =>
      cases heq
      split at hx
      case h_1 => subst hx; cases h
      case h_2 mt hmem =>
        have gv := Expr.annotate_gives hE (hσ.mono g.resolved.le) v hv
        split at hx
        case h_1 => subst hx; cases h
        -- The value assigned is an integer.
        case h_2 hint =>
          subst hx
          cases h
          have gv := gv .int (Typed.of_asValue hint).1
          have hname : (Expr.member { i with ty := some mt } .dotted a.tree m ms).isNamedMember
              = true := by
            rw [hvar]
            rfl
          have htarget : (Expr.member { i with ty := some mt } .dotted a.tree m ms).Resolved D σ lo
              a.next :=
            ⟨.bitfield layout, mt, g.resolved, g.ty, hmem, rfl⟩
          have hbase : (Expr.member { i with ty := some mt } .dotted a.tree m ms).children.map
              Expr.ty? = [some (.bitfield layout)] := by
            simp only [Expr.children, List.map_cons, List.map_nil, g.ty]
          exact ⟨⟨a.next, layout, hname, htarget, hbase, gv.resolved, gv.ty⟩, rfl,
            hσ.mono (Nat.le_trans g.resolved.le gv.resolved.le), fun _ hn => hn⟩
        case h_3 => subst hx; cases h
    case h_3 => subst hx; cases h

/-! ## Statements -/

/-- The members of an enumeration are bound to integers. -/
private theorem bindMembers_sound {D : Dialect} {σ : Scope Entry} {lo : Nat} (hσ : Sound D lo σ)
    (ms : List EnumMember) :
    (bindMembers σ lo ms).2 = lo + ms.length ∧ Sound D (lo + ms.length) (bindMembers σ lo ms).1
      ∧ ∀ n, (bindMembers σ lo ms).1.Shows n → σ.Shows n ∨ ∃ m ∈ ms, n = m.name := by
  induction ms generalizing σ lo with
  | nil => exact ⟨rfl, hσ, fun _ hn => .inl hn⟩
  | cons m ms ih =>
    -- The first member takes the number `lo`.
    have hm : Sound D (lo + 1) (σ.define m.name (.value
        { id := lo, ty := .int, immutable := true, origin := .member m.value })) :=
      hσ.defineValue (Nat.le_succ lo) (Nat.lt_succ_self lo) rfl
    obtain ⟨hnext, hs, hshow⟩ := ih hm
    have hlen : lo + 1 + ms.length = lo + (m :: ms).length := by
      rw [List.length_cons]
      omega
    rw [hlen] at hnext hs
    refine ⟨hnext, hs, fun n hn => ?_⟩
    -- A name shown behind the members was shown before, or is the name of one of them.
    rcases hshow n hn with hn | ⟨m', hm', rfl⟩
    · rcases shows_of_define hn with hn | rfl
      · exact .inl hn
      · exact .inr ⟨m, List.mem_cons_self, rfl⟩
    · exact .inr ⟨m', List.mem_cons_of_mem m hm', rfl⟩

/-- An enumeration is bound in front of its members. -/
theorem bindEnum_sound {D : Dialect} {σ : Scope Entry} {lo : Nat} (hσ : Sound D lo σ)
    (d : Enumeration) :
    (bindEnum σ lo d).2 = lo + 1 + d.members.length
      ∧ Sound D (lo + 1 + d.members.length) (bindEnum σ lo d).1
      ∧ ∀ n, (bindEnum σ lo d).1.Shows n → σ.Shows n ∨ n = d.name ∨ ∃ m ∈ d.members, n = m.name := by
  have hd : Sound D (lo + 1) (σ.define d.name (.value
      { id := lo, ty := .enum d, immutable := true, origin := .enumeration })) :=
    hσ.defineValue (Nat.le_succ lo) (Nat.lt_succ_self lo) rfl
  obtain ⟨hnext, hs, hshow⟩ := bindMembers_sound hd d.members
  refine ⟨hnext, hs, fun n hn => ?_⟩
  rcases hshow n hn with hn | hn
  · exact (shows_of_define hn).imp_right .inl
  · exact .inr (.inr hn)

/-- Typing keeps the number of statements. -/
private theorem annotateStmts_isEmpty (enter : EnterBody) (σ : Scope Entry) (lo : Nat)
    (ss : List Stmt) : (annotateStmts enter σ lo ss).tree.isEmpty = ss.isEmpty := by
  cases ss with
  | nil => rfl
  | cons s ss =>
    simp only [annotateStmts]
    split <;> rfl

/-- The outcome of a part of a statement is the outcome of the statement. -/
private theorem Except.of_map_ok {ε α β : Type} {f : α → β} {x : Except ε α} {b : β}
    (h : x.map f = .ok b) : ∃ a, x = .ok a ∧ f a = b := by
  cases x with
  | error e => exact nomatch h
  | ok a => exact ⟨a, rfl, Except.ok.inj h⟩

mutual

/-- Typing a statement resolves it. -/
private theorem Stmt.annotate_moves {D : Dialect} (hD : ¬ D.requires) {enter : EnterBody}
    (hE : EnterSound D enter) {σ σ' : Scope Entry} {lo : Nat} {last : Bool} (hσ : Sound D lo σ) :
    (s : Stmt) → s.Marked D σ.Shows last → (s.annotate enter σ lo).result = .ok σ' →
      (s.annotate enter σ lo).Moves (fun s hi => s.Resolved D σ lo hi last) (·.extend σ lo)
        (s.seenBehind σ.Shows) D σ'
  -- A block is typed in a scope of its own, which is left behind it.
  | .block b, hm, h => by
    simp only [Stmt.annotate] at h ⊢
    obtain ⟨_, hb, rfl⟩ := Except.of_map_ok h
    have hr := Block.annotateIn_resolved hD hE hσ.push b (by rwa [Scope.shows_push]) hb
    exact ⟨hr, rfl, hσ.mono hr.le, fun _ hn => hn⟩
  | .eval s e, hm, h => by
    simp only [Stmt.annotate] at h ⊢
    obtain ⟨t, he, rfl⟩ := Except.of_map_ok h
    have g := Expr.annotate_gives hE hσ e hm t he
    exact ⟨g.resolved, rfl, hσ.mono g.resolved.le, fun _ hn => hn⟩
  | .assign a, hm, h => by
    obtain ⟨hr, hb, hs, hseen⟩ := Assign.annotate_moves hE hσ hm h
    exact ⟨hr, hb, hs, hseen⟩
  | .assignMember s t v, ⟨hn, ht, hv⟩, h => annotateMemberAssign_moves hE hσ hn ht hv h
  -- The condition, then both branches, each in a scope of its own.
  | .cond s c t f, ⟨hc, ht, hf⟩, h => by
    simp only [Stmt.annotate, Typed.asCondition_eq, Typed.tree_demanding, Typed.next_demanding] at h ⊢
    cases hx : ((c.annotate enter σ lo).demanding (·.isNumeric = true) .conditionNotNumeric).result with
    | error e => simp only [hx] at h; exact nomatch h
    | ok ct =>
      obtain ⟨hx', hnum⟩ := Typed.of_demanding hx
      have gc := Expr.annotate_gives hE hσ c hc ct hx'
      have hσ₁ := hσ.mono gc.resolved.le
      simp only [hx] at h ⊢
      cases ht' : (t.annotateIn enter σ.push (c.annotate enter σ lo).next).result with
      | error e => simp only [ht'] at h; exact nomatch h
      | ok =>
        have rt := Block.annotateIn_resolved hD hE hσ₁.push t (by rwa [Scope.shows_push]) ht'
        have hσ₂ := hσ₁.mono rt.le
        simp only [ht'] at h ⊢
        obtain ⟨_, hf', rfl⟩ := Except.of_map_ok h
        have rf := annotateElse_resolved hD hE hσ₂ f hf hf'
        exact ⟨⟨_, _, ct, gc.resolved, gc.ty, hnum, rt, rf⟩, rfl, hσ₂.mono rf.le, fun _ hn => hn⟩
  | .loop s c b, ⟨hc, hb⟩, h => by
    simp only [Stmt.annotate, Typed.asCondition_eq, Typed.tree_demanding, Typed.next_demanding] at h ⊢
    cases hx : ((c.annotate enter σ lo).demanding (·.isNumeric = true) .conditionNotNumeric).result with
    | error e => simp only [hx] at h; exact nomatch h
    | ok ct =>
      obtain ⟨hx', hnum⟩ := Typed.of_demanding hx
      have gc := Expr.annotate_gives hE hσ c hc ct hx'
      have hσ₁ := hσ.mono gc.resolved.le
      simp only [hx] at h ⊢
      obtain ⟨_, hb', rfl⟩ := Except.of_map_ok h
      have rb := Block.annotateIn_resolved hD hE hσ₁.push b (by rwa [Scope.shows_push]) hb'
      exact ⟨⟨_, ct, gc.resolved, gc.ty, hnum, rb⟩, rfl, hσ₁.mono rb.le, fun _ hn => hn⟩
  -- The clauses of the header share the scope that the body is nested in.
  | .forLoop s i c st b, ⟨hi, hc, hst, hd, hb⟩, h => by
    simp only [Stmt.annotate] at h ⊢
    cases hi' : (annotateClause enter σ.push lo i).result with
    | error e => simp only [hi'] at h; exact nomatch h
    | ok σ₁ =>
      obtain ⟨ri, hbi, hσ₁, hs₁⟩ := annotateClause_moves hE hσ.push (by rwa [Scope.shows_push]) hi'
      rw [Scope.shows_push] at hs₁
      simp only [hi'] at h ⊢
      cases hc' : (annotateTest enter σ₁ (annotateClause enter σ.push lo i).next c).result with
      | error e => simp only [hc'] at h; exact nomatch h
      | ok =>
        have rc := annotateTest_resolved hE hσ₁ hc hc'
        have hσ₂ := hσ₁.mono rc.le
        simp only [hc'] at h ⊢
        generalize hnext₂ : (annotateTest enter σ₁ (annotateClause enter σ.push lo i).next c).next = next₂
          at h rc hσ₂ ⊢
        cases hst' : (annotateClause enter σ₁ next₂ st).result with
        | error e => simp only [hst'] at h; exact nomatch h
        | ok σ₂ =>
          obtain ⟨rst, hbst, hσ₃, hs₃⟩ := annotateClause_moves hE hσ₂ (hst.mono hs₁) hst'
          simp only [hst'] at h ⊢
          obtain ⟨_, hb', rfl⟩ := Except.of_map_ok h
          have rb := Block.annotateIn_resolved hD hE hσ₃.push b (by
            -- The names seen in the body are those seen behind the step.
            rw [Scope.shows_push]
            exact Block.Marked.mono (fun n hn => clauseSeenBehind_mono hs₁ st n (hs₃ n hn)) b hb) hb'
          subst hbi hbst
          refine ⟨⟨_, _, _, ri, rc, rst, ?_, rb⟩, rfl, hσ.mono (Nat.le_trans ri.le
            (Nat.le_trans rc.le (Nat.le_trans rst.le rb.le))), fun _ hn => hn⟩
          -- The step declares nothing that its own header has not declared.
          intro a ha hdec
          cases st with
          | none => exact nomatch ha
          | some a' =>
            cases ha
            rw [Assign.declares_annotate] at hdec
            exact hd a' rfl hdec
  -- What is returned is a value, no enumeration and not void.
  | .ret s v, ⟨hl, hv⟩, h => by
    cases hx : (v.annotate enter σ lo).asValue.result with
    | error e => simp only [Stmt.annotate, hx] at h; exact nomatch h
    | ok t =>
      obtain ⟨hx', hvoid⟩ := Typed.of_asValue hx
      have g := Expr.annotate_gives hE hσ v hv t hx'
      have hp := g.proper.resolve_left hvoid
      generalize hr : Stmt.annotate enter σ lo (.ret s v) = r at h ⊢
      simp only [Stmt.annotate, Typed.tree_asValue, Typed.next_asValue, hx] at hr
      split at hr
      case h_1 heq => exact nomatch heq
      case h_2 => subst hr; exact nomatch h
      case h_3 t' henum heq =>
        cases heq
        subst hr
        cases h
        exact ⟨⟨hl, g.resolved, t, g.ty, Ty.isValue_of_isProper hp henum⟩, rfl,
          hσ.mono g.resolved.le, fun _ hn => hn⟩
  -- These leave the scope as it is.
  | .leave _, _, h => by cases h; exact ⟨rfl, rfl, hσ, fun _ hn => hn⟩
  | .code _ _, _, h => by cases h; exact ⟨rfl, rfl, hσ, fun _ hn => hn⟩
  -- The body of a definition is not typed here: it stays marked, for the copies.
  | .funcDef s n ns ps b, ⟨hp, hb⟩, h => by
    cases h
    have hb' : b.Marked D (seenInBody σ.Shows ps) true :=
      Block.Marked.mono (fun m hm => Or.imp_left Or.inl hm) b hb
    exact ⟨⟨rfl, hp, hb'⟩, rfl, hσ.bindFunction hp hb', fun _ hn => shows_of_define hn⟩
  | .bitfieldDef s d, _, h => by
    cases h
    exact ⟨rfl, rfl, hσ.defineBitfield _ _, fun _ hn => shows_of_define hn⟩
  | .enumDef s d, he, h => by
    obtain ⟨hnext, hs, hshow⟩ := bindEnum_sound hσ d
    rw [← hnext] at hs
    cases h
    exact ⟨⟨he, hnext⟩, rfl, hs, hshow⟩
  -- No reference to another file is left at this stage.
  | .require _ _, hm, _ => absurd hm hD

/-- Typing statements resolves them. -/
private theorem annotateStmts_resolved {D : Dialect} (hD : ¬ D.requires) {enter : EnterBody}
    (hE : EnterSound D enter) {σ σ' : Scope Entry} {lo : Nat} {last : Bool} (hσ : Sound D lo σ) :
    (ss : List Stmt) → MarkedStmts D σ.Shows last ss → (annotateStmts enter σ lo ss).result = .ok σ' →
      ResolvedStmts D σ lo (annotateStmts enter σ lo ss).next last (annotateStmts enter σ lo ss).tree
  | [], _, _ => rfl
  | s :: ss, ⟨hs, hss⟩, h => by
    have hempty := fun σ lo => annotateStmts_isEmpty enter σ lo ss
    simp only [annotateStmts] at h ⊢
    cases hs' : (s.annotate enter σ lo).result with
    | error e => simp only [hs'] at h; exact nomatch h
    | ok σ₁ =>
      obtain ⟨rs, hbehind, hσ₁, hseen⟩ := Stmt.annotate_moves hD hE hσ s hs hs'
      subst hbehind
      simp only [hs'] at h ⊢
      refine ⟨_, ?_, annotateStmts_resolved hD hE hσ₁ ss (MarkedStmts.mono hseen ss hss) h⟩
      -- Behind the last statement nothing is left, as in the tree before typing.
      rw [hempty]
      exact rs

/-- Typing a block in an open frame resolves it. -/
private theorem Block.annotateIn_resolved {D : Dialect} (hD : ¬ D.requires) {enter : EnterBody}
    (hE : EnterSound D enter) {σ : Scope Entry} {lo : Nat} {last : Bool} (hσ : Sound D lo σ) :
    (b : Block) → b.Marked D σ.Shows last → (b.annotateIn enter σ lo).result = .ok () →
      (b.annotateIn enter σ lo).tree.Resolved D σ lo (b.annotateIn enter σ lo).next last
  | .mk os ss sp, ⟨ho, hss⟩, h => by
    subst ho
    simp only [Block.annotateIn, annotateAssigns] at h ⊢
    obtain ⟨σ', h', _⟩ := Except.of_map_ok h
    exact ⟨rfl, annotateStmts_resolved hD hE hσ ss hss h'⟩

/-- Typing an else block resolves it. -/
private theorem annotateElse_resolved {D : Dialect} (hD : ¬ D.requires) {enter : EnterBody}
    (hE : EnterSound D enter) {σ : Scope Entry} {lo : Nat} (hσ : Sound D lo σ) :
    (b : Option Block) → MarkedElse D σ.Shows b → (annotateElse enter σ lo b).result = .ok () →
      ResolvedElse D σ lo (annotateElse enter σ lo b).next (annotateElse enter σ lo b).tree
  | none, _, _ => rfl
  | some b, hm, h => Block.annotateIn_resolved hD hE hσ.push b (by rwa [Scope.shows_push]) h

end

/-! ## Programs -/

/-- The bindings of parameters are typed as they are numbered. -/
theorem annotateAssigns_bindArguments (enter : EnterBody) (σ : Scope Entry) (lo : Nat)
    (params : List Param) (args : List Expr) (hlen : params.length = args.length) :
    annotateAssigns enter σ lo (bindArguments params args)
      = { tree := numberBinds lo (bindArguments params args), next := lo + params.length
          result := .ok (extendAll σ (numberBinds lo (bindArguments params args))) } := by
  -- One parameter with one argument at a time; each takes the next number.
  induction params generalizing args σ lo with
  | nil => rfl
  | cons p ps ih =>
    cases args with
    | nil => exact nomatch hlen
    | cons e es =>
      have hnext : lo + 1 + ps.length = lo + (p :: ps).length := by
        rw [List.length_cons]
        omega
      simp only [bindArguments, List.zipWith_cons_cons, annotateAssigns, Assign.annotate, Assign.info,
        if_true, Assign.bindParam, numberBinds, extendAll, Assign.extend]
      have := ih (σ.define p.name (.value (.variable lo (e.ty?.getD .invalid)))) (lo + 1) es
        (Nat.succ.inj hlen)
      rw [hnext] at this
      rw [show List.zipWith _ ps es = bindArguments ps es from rfl, this]

/-- A scope stays sound behind the bindings of parameters, and shows nothing else that is new. -/
private theorem extendAll_bindArguments_sound {D : Dialect} {σ : Scope Entry} {lo : Nat}
    (hσ : Sound D lo σ) (params : List Param) (args : List Expr)
    (hargs : ∀ e ∈ args, ∃ t, e.ty? = some t ∧ t.isProper = true) :
    Sound D (lo + params.length) (extendAll σ (numberBinds lo (bindArguments params args)))
      ∧ ∀ n, (extendAll σ (numberBinds lo (bindArguments params args))).Shows n →
          σ.Shows n ∨ ∃ p ∈ params, n = p.name := by
  induction params generalizing args σ lo with
  | nil => exact ⟨hσ, fun _ hn => .inl hn⟩
  | cons p ps ih =>
    cases args with
    -- Without an argument nothing is bound, and the bound on the numbers only grows.
    | nil => exact ⟨hσ.mono (Nat.le_add_right _ _), fun _ hn => .inl hn⟩
    | cons e es =>
      obtain ⟨⟨t, ht, hp⟩, hes⟩ := List.forall_mem_cons.1 hargs
      -- The parameter is bound to the type of its argument.
      have hσ₁ : Sound D (lo + 1) (σ.define p.name (.value (.variable lo (e.ty?.getD .invalid)))) :=
        hσ.defineValue (Nat.le_succ lo) (Nat.lt_succ_self lo) (by rw [ht]; exact hp)
      obtain ⟨hs, hshow⟩ := ih hσ₁ es hes
      have hnext : lo + 1 + ps.length = lo + (p :: ps).length := by
        rw [List.length_cons]
        omega
      rw [hnext] at hs
      refine ⟨hs, fun n hn => ?_⟩
      rcases hshow n hn with hn | ⟨q, hq, rfl⟩
      · exact (shows_of_define hn).imp_right fun hn => ⟨p, List.mem_cons_self, hn⟩
      · exact .inr ⟨q, List.mem_cons_of_mem p hq, rfl⟩

/-- The scope of a called body is sound, and it shows what the function's body was marked against. -/
theorem bodyScope_sound {D : Dialect} {κ : List (Text × Entry)} {lo : Nat} (hκ : Sound D lo ⟨κ, []⟩)
    (params : List Param) {args : List Expr}
    (hargs : ∀ e ∈ args, ∃ t, e.ty? = some t ∧ t.isProper = true) :
    Sound D (lo + params.length) (bodyScope κ (numberBinds lo (bindArguments params args)))
      ∧ ∀ n, (bodyScope κ (numberBinds lo (bindArguments params args))).Shows n →
          seenInBody (Scope.Shows ⟨κ, []⟩) params n := by
  obtain ⟨hs, hshow⟩ := extendAll_bindArguments_sound hκ.push params args hargs
  rw [Scope.shows_push] at hshow
  exact ⟨hs, hshow⟩

/-- Bodies are entered soundly at every depth. -/
theorem enterSound_enterWithin {D : Dialect} (hD : ¬ D.requires) (depth : Nat) :
    EnterSound D (enterWithin depth) := by
  induction depth with
  | zero => intro _ _ _ _ _ _ _ _ _ h; exact nomatch h
  | succ depth ih =>
    intro κ lo params args body hκ hlen hargs hbody h
    obtain ⟨hs, hseen⟩ := bodyScope_sound hκ params hargs
    simp only [enterWithin, annotateAssigns_bindArguments _ _ _ _ _ hlen] at h ⊢
    exact ⟨rfl, Block.annotateIn_resolved hD ih hs body (Block.Marked.mono hseen body hbody) h⟩

/-- The host's variables are bound soundly. -/
private theorem bindGlobals_sound {D : Dialect} {σ : Scope Entry} {lo : Nat} (hσ : Sound D lo σ)
    (gs : List Global) (hgs : ∀ g ∈ gs, g.ty.isProper = true) :
    Sound D (bindGlobals σ lo gs).2 (bindGlobals σ lo gs).1
      ∧ ∀ n, (bindGlobals σ lo gs).1.Shows n → σ.Shows n ∨ n ∈ gs.map (·.name) := by
  -- Each variable of the host takes the next number.
  induction gs generalizing σ lo with
  | nil => exact ⟨hσ, fun _ hn => .inl hn⟩
  | cons g gs ih =>
    obtain ⟨hg, hgs⟩ := List.forall_mem_cons.1 hgs
    have hσ₁ : Sound D (lo + 1) (σ.define g.name (.value { id := lo, ty := g.ty, origin := .host })) :=
      hσ.defineValue (Nat.le_succ lo) (Nat.lt_succ_self lo) hg
    obtain ⟨hs, hshow⟩ := ih hσ₁ hgs
    refine ⟨hs, fun n hn => ?_⟩
    rw [List.map_cons, List.mem_cons]
    rcases hshow n hn with hn | hn
    · exact (shows_of_define hn).imp_right .inl
    · exact .inr (.inr hn)

/-- The intrinsics are bound soundly. -/
private theorem bindIntrinsics_sound {D : Dialect} {σ : Scope Entry} {lo : Nat} (hσ : Sound D lo σ)
    (ops : List Intrinsic) :
    Sound D lo (ops.foldl (fun sc op => sc.define op.name (.intrinsic op)) σ)
      ∧ ∀ n, (ops.foldl (fun sc op => sc.define op.name (.intrinsic op)) σ).Shows n →
          σ.Shows n ∨ n ∈ ops.map (·.name) := by
  -- Intrinsics take no numbers, so the bound stays.
  induction ops generalizing σ with
  | nil => exact ⟨hσ, fun _ hn => .inl hn⟩
  | cons op ops ih =>
    obtain ⟨hs, hshow⟩ := ih (hσ.defineIntrinsic op.name op)
    refine ⟨hs, fun n hn => ?_⟩
    rw [List.map_cons, List.mem_cons]
    rcases hshow n hn with hn | hn
    · exact (shows_of_define hn).imp_right .inl
    · exact .inr (.inr hn)

/-- The variables of the host's own two functions. -/
def Host.achronalNames : List Text := ["num", "value", "perf_ret"]

/-- The host's own two functions are bound soundly. -/
private theorem bindAchronal_sound {D : Dialect} (hN : ∀ n ∈ Host.achronalNames, D.name n)
    {σ : Scope Entry} {lo : Nat} (hσ : Sound D lo σ) :
    Sound D lo (Host.achronal.foldl bindHostFunction σ)
      ∧ ∀ n, (Host.achronal.foldl bindHostFunction σ).Shows n →
          σ.Shows n ∨ n ∈ [getAchronalField, setAchronalField] := by
  simp only [Host.achronalNames, List.forall_mem_cons] at hN
  obtain ⟨hnum, hvalue, hret, _⟩ := hN
  -- One definition behind the other; the names in both bodies are plain.
  refine ⟨Sound.bindFunction (Sound.bindFunction hσ ?_ ?_) ?_ ?_, fun n hn => ?_⟩
  · exact List.forall_mem_cons.2 ⟨hnum, fun _ h => nomatch h⟩
  · exact ⟨rfl, trivial, ⟨rfl, List.forall_mem_cons.2 ⟨hret, fun _ h => nomatch h⟩⟩, trivial⟩
  · exact List.forall_mem_cons.2 ⟨hnum, List.forall_mem_cons.2 ⟨hvalue, fun _ h => nomatch h⟩⟩
  · exact ⟨rfl, trivial, trivial⟩
  · rcases shows_of_define hn with hn | rfl
    -- A name shown is one of the two, or was shown before.
    · rcases shows_of_define hn with hn | rfl
      · exact .inl hn
      · exact .inr List.mem_cons_self
    · exact .inr (List.mem_cons_of_mem _ List.mem_cons_self)

/-- The scope in front of every program is sound, and shows the names the host takes. -/
theorem Host.entryScope_sound {D : Dialect} (hN : ∀ n ∈ Host.achronalNames, D.name n) {h : Host}
    (hh : ∀ g ∈ h.globals, g.ty.isProper = true) :
    Sound D h.entryScope.2 h.entryScope.1 ∧ ∀ n, h.entryScope.1.Shows n → h.nameScope.Shows n := by
  -- The empty scope binds nothing.
  have hempty : Sound D 0 {} := by
    refine ⟨?_, ?_, ?_, fun _ _ hr => ?_⟩
    · exact fun _ _ hn => nomatch hn
    · exact fun _ _ _ _ hf => nomatch hf
    · exact fun _ _ _ _ hf => nomatch hf
    · cases hr with
      | here hn => exact nomatch hn
      | through hf _ => exact nomatch hf
  obtain ⟨hg, hgn⟩ := bindGlobals_sound hempty h.globals hh
  obtain ⟨hi, hin⟩ := bindIntrinsics_sound hg Intrinsic.all
  obtain ⟨ha, han⟩ := bindAchronal_sound hN hi
  -- The names of the host are the ones its entry scope shows, group by group.
  refine ⟨ha, fun n hn => shows_foldl_define id h.names {} n (.inr ⟨n, ?_, rfl⟩)⟩
  rw [Host.names, List.mem_append, List.mem_append]
  rcases han n hn with hn | hn
  · rcases hin n hn with hn | hn
    · rcases hgn n hn with hn | hn
      · exact nomatch hn
      · exact .inl (.inl hn)
    · exact .inl (.inr hn)
  · exact .inr hn

/-- A program that typing accepts is resolved in the scope of the host. -/
theorem Block.annotate_resolved {D : Dialect} (hD : ¬ D.requires)
    (hN : ∀ n ∈ Host.achronalNames, D.name n) {h : Host}
    (hh : ∀ g ∈ h.globals, g.ty.isProper = true) {b typed : Block}
    (hb : b.Marked D h.nameScope.Shows false) (ht : b.annotate h = (typed, none)) :
    ∃ hi, typed.Resolved D h.entryScope.1.push h.entryScope.2 hi false := by
  obtain ⟨hs, hshow⟩ := Host.entryScope_sound hN hh
  -- The depth covers the definitions of the program and those of the host.
  have hE := enterSound_enterWithin hD (b.definitions + Host.achronal.length)
  simp only [Block.annotate] at ht
  split at ht
  case h_1 hok =>
    cases ht
    refine ⟨_, Block.annotateIn_resolved hD hE hs.push b ?_ hok⟩
    rw [Scope.shows_push]
    exact Block.Marked.mono hshow b hb
  case h_2 => exact nomatch ht

/-- Typing without an error gives its tree alone. -/
theorem Block.annotate_eq_of_none {h : Host} {b : Block} (hnone : (b.annotate h).2 = none) :
    b.annotate h = ((b.annotate h).1, none) :=
  Prod.ext rfl hnone

end AisScript
