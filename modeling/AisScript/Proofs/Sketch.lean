import AisScript.Proofs.Atoms
import AisScript.Proofs.Settled
import Mathlib.Data.List.Basic
import Mathlib.Data.Set.Function

/-!
# Sketches of expressions

The sketch of an expression is what its text is made from: operators, operations of the host, names and
literals in their order, and for a member of a bitfield the range of its bits.  Places, types and bindings leave
no trace in it, and neither does the name of a bitfield's member.  Operands stand around a joint or behind a lead.

A finished expression is one that typing leaves behind when no call has to be expanded any more.  It has a
sketch, its text is the text of its sketch, and the sketch is sound: it holds nothing but names, known signs
and the given float literals.

* `Sketch`, `Line`               sketches of values, and of whatever stands on a line of its own
* `Expr.sketch?`, `Expr.line?`   the sketch of an expression
* `Expr.Finished`                typed expressions with calls of the host's operations only
* `Expr.Resolved.isTyped`        typing leaves typed nodes behind
* `Sketch.Sound`                 sketches that finished expressions can have
* `Expr.Finished.sketched`       finished expressions have sound sketches, and are written by them
-/

namespace AisScript

/-! ## Sketches -/

/-- What an operation of the host is written with between its two operands. -/
def Intrinsic.between? (i : Intrinsic) : Option Text :=
  match i.signature with
  | .binary op _ | .binaryFloat op | .objects op => some op
  | _ => none

/-- A prefix operator with what parts it from its operand. -/
def Intrinsic.parted (op : Text) : Text :=
  op ++ match op.getLast? with
    | some b => if 0x61 ≤ b && b ≤ 0x7A then " " else ""
    | none => ""

/-- What an operation of the host is written with in front of its operand. -/
def Intrinsic.front? (i : Intrinsic) : Option Text :=
  match i.signature with
  | .sink op => some (op ++ " ")
  | .unary op _ => some (parted op)
  | .toObject => some "to_object "
  | _ => none

/-- The sign of an access. -/
def Access.sign : Access → Text
  | .dotted => "."
  | .chronal => "->"
  | .classwise => "::"

/-- What two operands stand around. -/
inductive Joint where
  | operator (op : BinaryOp)
  | intrinsic (op : Intrinsic)
  | access (access : Access)
deriving DecidableEq, Repr

/-- How a joint is written. -/
def Joint.sign : Joint → Text
  | .operator op => op.symbol
  | .intrinsic op => op.between?.getD []
  | .access a => a.sign

/-- Every joint. -/
def Joint.all : List Joint :=
  BinaryOp.all.map .operator ++ (Intrinsic.all.filter (·.between?.isSome)).map .intrinsic
    ++ [.access .dotted, .access .chronal, .access .classwise]

/-- What stands in front of an operand. -/
inductive Lead where
  | operator (op : UnaryOp)
  | intrinsic (op : Intrinsic)
deriving DecidableEq, Repr

/-- How a lead is written, with the blank behind a word. -/
def Lead.sign : Lead → Text
  | .operator op => op.symbol
  | .intrinsic op => op.front?.getD []

/-- Every lead. -/
def Lead.all : List Lead :=
  UnaryOp.all.map .operator ++ (Intrinsic.all.filter (·.front?.isSome)).map .intrinsic

/-- What is left of an expression in its text. -/
inductive Sketch where
  | literal (value : Literal)
  | name (name : Text)
  | joined (joint : Joint) (left right : Sketch)
  | led (lead : Lead) (operand : Sketch)
  /-- A member of a bitfield that is held by the variable `base`. -/
  | bits (base : Text) (offset length : Nat)
  | query (kind op : Text) (unit operand condition : Option Sketch)

mutual

/-- The text of a sketch. -/
def Sketch.text : Sketch → Text
  | .literal v => v.generate
  | .name n => n
  | .joined j l r => "(" ++ l.text ++ j.sign ++ r.text ++ ")"
  | .led p x => "(" ++ p.sign ++ x.text ++ ")"
  | .bits base offset length => base ++ "[" ++ Text.ofNat offset ++ ", " ++ Text.ofNat length ++ "]"
  | .query k op u x c =>
    "(QUERY " ++ k ++ " [" ++ optionText u ++ "] " ++ op ++ " [" ++ optionText x ++ "] WHERE ["
      ++ optionText c ++ "])"

/-- The text of a sketch that may be absent. -/
def optionText : Option Sketch → Text
  | none => []
  | some o => o.text

end

/-- What is left of an expression that stands on a line of its own: a value, or what is said. -/
inductive Line where
  | value (sketch : Sketch)
  | say (args : List Sketch)

/-- The text of a line. -/
def Line.text : Line → Text
  | .value o => o.text
  | .say args => "say " ++ Text.join ", " (args.map Sketch.text)

/-! ## Sketches of expressions -/

/-- The sketch of a member, from the type and the sketch of its base. -/
def memberSketch? (access : Access) (ty : Option Ty) (base : Sketch) (name : Text) : Option Sketch :=
  match access, ty with
  | .dotted, some (.bitfield layout) =>
    match base, layout.limits name with
    | .name n, .ok (offset, length) => some (.bits n offset length)
    | _, _ => none
  | .dotted, none => none
  | access, _ => some (.joined (.access access) base (.name name))

/-- The sketch of a call of the host that gives a value: its operands stand around it or behind it. -/
def Intrinsic.sketch? (op : Intrinsic) (args : List Sketch) : Option Sketch :=
  match op.between?, op.front?, args with
  | some _, _, [l, r] => some (.joined (.intrinsic op) l r)
  | _, some _, [x] => some (.led (.intrinsic op) x)
  | _, _, _ => none

mutual

/-- The sketch of an expression, if it is one that is written as a value. -/
def Expr.sketch? : Expr → Option Sketch
  | .const _ v => some (.literal v)
  | .var _ n _ => some (.name n)
  | .binary _ op l r => do
    let l ← l.sketch?
    let r ← r.sketch?
    pure (.joined (.operator op) l r)
  | .unary _ op x => do
    let x ← x.sketch?
    pure (.led (.operator op) x)
  | .call _ _ _ args (.intrinsic op) => do
    let args ← sketchList? args
    op.sketch? args
  | .call _ _ _ _ _ => none
  | .member _ a b n _ => do
    let o ← b.sketch?
    memberSketch? a b.ty? o n
  | .query _ k op u x c => do
    let u ← sketchOption? u
    let x ← sketchOption? x
    let c ← sketchOption? c
    pure (.query k op u x c)

/-- The sketches of several expressions. -/
def sketchList? : List Expr → Option (List Sketch)
  | [] => some []
  | e :: es => do
    let o ← e.sketch?
    let os ← sketchList? es
    pure (o :: os)

/-- The sketch of an expression that may be absent. -/
def sketchOption? : Option Expr → Option (Option Sketch)
  | none => some none
  | some e => e.sketch?.map some

end

/-- What is left of an expression on a line of its own. -/
def Expr.line? : Expr → Option Line
  | .call _ _ _ args (.intrinsic .say) => (sketchList? args).map .say
  | e => e.sketch?.map .value

/-! ## Finished expressions -/

/-- What typing finds out about a single node: its type follows from the types of its parts. -/
def Expr.IsTyped : Expr → Prop
  | .const i v => i.ty = some v.ty
  | .var i _ _ => i.ty.isSome = true
  | .binary i op l r => ∃ lt rt t,
    l.ty? = some lt ∧ r.ty? = some rt ∧ op.resultTy lt rt = .ok t ∧ i.ty = some t
  | .unary i op x => ∃ xt t, x.ty? = some xt ∧ op.resultTy xt = .ok t ∧ i.ty = some t
  | .call i _ _ args target => ∃ op types t,
    target = .intrinsic op ∧ args.map Expr.ty? = types.map some ∧ op.check types = .ok t ∧ i.ty = some t
  | .member i a b n ns => ∃ bt t,
    b.ty? = some bt ∧ memberTy a bt n ns i.span = .ok t ∧ i.ty = some t
  | .query i k _ u x c =>
    (∀ part ∈ [u, x, c], ∀ e ∈ part, ∃ t, e.ty? = some t ∧ t.isProper = true)
      ∧ i.ty = some (if k = Query.unit then .object else .int)

/-- The names in a single node. -/
def Expr.ownNames : Expr → List Text
  | .var _ n _ | .member _ _ _ n _ => [n]
  | .query _ k op _ _ _ => [k, op]
  | _ => []

/-- The float literal that a node may be. -/
def Expr.ownFloat? : Expr → Option Double
  | .const _ (.float d) => some d
  | _ => none

/-- A typed node with nothing left to expand, whose names are names and whose float is one of `F`. -/
structure Expr.IsFinished (F : Set Double) (e : Expr) : Prop where
  typed : e.IsTyped
  named : ∀ n ∈ e.ownNames, isName n = true
  floats : ∀ d ∈ e.ownFloat?, d ∈ F

/-- An expression of finished nodes. -/
def Expr.Finished (F : Set Double) (e : Expr) : Prop := ∀ x ∈ e.nodes, x.IsFinished F

/-! ## Typing finishes expressions -/

/-- A call, if it is one, of an operation of the host. -/
def Expr.CallsHost : Expr → Prop
  | .call _ _ _ _ target => ∃ op, target = .intrinsic op
  | _ => True

/-- The types of resolved arguments. -/
private theorem ResolvedArgs.map_ty? {D : Dialect} {σ : Scope Entry} {lo hi : Nat} {types : List Ty}
    {es : List Expr} (h : ResolvedArgs D σ lo hi types es) : es.map Expr.ty? = types.map some := by
  induction es generalizing lo types with
  | nil => rw [h.1]; rfl
  | cons e es ih =>
    obtain ⟨_, t, ts, rfl, _, ht, _, hes⟩ := h
    rw [List.map_cons, List.map_cons, ht, ih hes]

/-- A resolved part of a query has a proper type. -/
theorem ResolvedOption.proper {D : Dialect} {σ : Scope Entry} {lo hi : Nat} {e : Option Expr}
    (h : ResolvedOption D σ lo hi e) : ∀ x ∈ e, ∃ t, x.ty? = some t ∧ t.isProper = true := by
  rintro x rfl
  exact h.2

mutual

/-- In a resolved expression that calls only the host every node is typed. -/
theorem Expr.Resolved.isTyped {D : Dialect} {σ : Scope Entry} {lo hi : Nat} : (e : Expr) → e.Resolved D σ lo hi →
    (∀ x ∈ e.nodes, x.CallsHost) → ∀ x ∈ e.nodes, x.IsTyped
  -- The type of a constant is known.
  | .const i v, h, _ => List.forall_mem_singleton.2 h.1
  -- A variable has the type of its binding.
  | .var i n b, ⟨_, _, _, _, _, hty⟩, _ => List.forall_mem_singleton.2 (by rw [Expr.IsTyped, hty]; rfl)
  -- Both operands are typed, and so is what the operator makes of them.
  | .binary i op l r, ⟨_, lt, rt, t, hl, hlt, hr, hrt, hop, hty⟩, hhost => by
    obtain ⟨hlh, hrh⟩ := List.forall_mem_append.1 (List.forall_mem_cons.1 hhost).2
    exact List.forall_mem_cons.2 ⟨⟨lt, rt, t, hlt, hrt, hop, hty⟩,
      List.forall_mem_append.2 ⟨Expr.Resolved.isTyped l hl hlh, Expr.Resolved.isTyped r hr hrh⟩⟩
  | .unary i op x, ⟨xt, t, hx, hxt, hop, hty⟩, hhost =>
    List.forall_mem_cons.2 ⟨⟨xt, t, hxt, hop, hty⟩,
      Expr.Resolved.isTyped x hx (List.forall_mem_cons.1 hhost).2⟩
  -- A call of the host has typed arguments and the type that its check gives.
  | .call i n ns args target, ⟨_, types, t, hargs, htarget, hty⟩, hhost => by
    obtain ⟨⟨op, rfl⟩, hargsh⟩ := List.forall_mem_cons.1 hhost
    exact List.forall_mem_cons.2 ⟨⟨op, types, t, rfl, hargs.map_ty?, htarget.2, hty⟩,
      ResolvedArgs.isTyped args hargs hargsh⟩
  | .member i a b n ns, ⟨bt, t, hb, hbt, hmember, hty⟩, hhost =>
    List.forall_mem_cons.2 ⟨⟨bt, t, hbt, hmember, hty⟩,
      Expr.Resolved.isTyped b hb (List.forall_mem_cons.1 hhost).2⟩
  -- The three parts of a query are typed, and the query is a number.
  | .query i k op u x c, ⟨_, _, hu, hx, hc, hty⟩, hhost => by
    obtain ⟨huxh, hch⟩ := List.forall_mem_append.1 (List.forall_mem_cons.1 hhost).2
    obtain ⟨huh, hxh⟩ := List.forall_mem_append.1 huxh
    refine List.forall_mem_cons.2 ⟨⟨?_, hty⟩, List.forall_mem_append.2 ⟨List.forall_mem_append.2
      ⟨ResolvedOption.isTyped u hu huh, ResolvedOption.isTyped x hx hxh⟩, ResolvedOption.isTyped c hc hch⟩⟩
    simp only [List.forall_mem_cons]
    exact ⟨hu.proper, hx.proper, hc.proper, nofun⟩

/-- In resolved arguments that call only the host every node is typed. -/
theorem ResolvedArgs.isTyped {D : Dialect} {σ : Scope Entry} {lo hi : Nat} {types : List Ty} : (es : List Expr) →
    ResolvedArgs D σ lo hi types es → (∀ x ∈ nodesOfList es, x.CallsHost) → ∀ x ∈ nodesOfList es, x.IsTyped
  | [], _, _ => nofun
  | e :: es, ⟨_, _, _, _, he, _, _, hes⟩, hhost =>
    List.forall_mem_append.2 ⟨Expr.Resolved.isTyped e he (List.forall_mem_append.1 hhost).1,
      ResolvedArgs.isTyped es hes (List.forall_mem_append.1 hhost).2⟩

/-- In a resolved part of a query that calls only the host every node is typed. -/
theorem ResolvedOption.isTyped {D : Dialect} {σ : Scope Entry} {lo hi : Nat} : (e : Option Expr) →
    ResolvedOption D σ lo hi e → (∀ x ∈ nodesOfOption e, x.CallsHost) → ∀ x ∈ nodesOfOption e, x.IsTyped
  | none, _, _ => nofun
  | some e, h, hhost => Expr.Resolved.isTyped e h.1 hhost

end

/-! ## Sound sketches -/

mutual

/-- A sketch with names, known signs and floats of `F` only; an access is followed by a name. -/
def Sketch.Sound (F : Set Double) : Sketch → Prop
  | .literal v => ∀ d, v = .float d → d ∈ F
  | .name n => isName n = true
  | .joined j l r => j ∈ Joint.all ∧ l.Sound F ∧ r.Sound F ∧ ∀ a, j = .access a → ∃ n, r = .name n
  | .led p x => p ∈ Lead.all ∧ x.Sound F
  | .bits base _ _ => isName base = true
  | .query k op u x c =>
    isName k = true ∧ isName op = true ∧ SoundOption F u ∧ SoundOption F x ∧ SoundOption F c

/-- A sound sketch, or none. -/
def SoundOption (F : Set Double) : Option Sketch → Prop
  | none => True
  | some o => o.Sound F

end

/-- A line of sound sketches. -/
def Line.Sound (F : Set Double) : Line → Prop
  | .value o => o.Sound F
  | .say args => ∀ o ∈ args, o.Sound F

/-- What a sketch has to do with its expression. -/
structure Expr.Sketched (F : Set Double) (e : Expr) (o : Sketch) : Prop where
  found : e.sketch? = some o
  sound : o.Sound F
  written : e.generate = .ok o.text

/-- What the sketches of several expressions have to do with them. -/
structure SketchedList (F : Set Double) (es : List Expr) (os : List Sketch) : Prop where
  found : sketchList? es = some os
  sound : ∀ o ∈ os, o.Sound F
  written : generateList es = .ok (os.map Sketch.text)
  length_eq : os.length = es.length

/-- What a sketch that may be absent has to do with its expression. -/
structure SketchedOption (F : Set Double) (e : Option Expr) (o : Option Sketch) : Prop where
  found : sketchOption? e = some o
  sound : SoundOption F o
  written : generateOption e = .ok (optionText o)

/-! ## Operations of the host -/

/-- Arguments that are values are none that produce nothing. -/
private theorem firstNonValue_eq_none {i : Nat} {types : List Ty}
    (h : Intrinsic.firstNonValue i types = none) : ∀ t ∈ types, t ≠ .void := by
  induction types generalizing i with
  | nil => exact fun _ ht => absurd ht List.not_mem_nil
  | cons t ts ih =>
    rw [Intrinsic.firstNonValue] at h
    split at h
    case isTrue hvalue =>
      refine List.forall_mem_cons.2 ⟨?_, ih h⟩
      rintro rfl
      exact nomatch hvalue
    case isFalse => exact nomatch h

/-- The operands a signature has, other than those of a call that prints. -/
def Signature.operands : Signature → Option Nat
  | .print => none
  | .sink _ | .unary _ _ | .toObject => some 1
  | .binary _ _ | .binaryFloat _ | .objects _ => some 2

/-- What an accepted call takes, and what it does not give. -/
structure Intrinsic.Takes (s : Signature) (types : List Ty) (t : Ty) : Prop where
  values : ∀ ty ∈ types, ty ≠ .void
  count : ∀ n, s.operands = some n → types.length = n
  prints : s.operands = none → t = .void

/-- An accepted call takes values, as many as it has operands. -/
private theorem Intrinsic.resultOf_takes {s : Signature} {types : List Ty} {t : Ty}
    (h : Intrinsic.resultOf s types = .ok t) : Intrinsic.Takes s types t := by
  -- Whatever is a number is a value.
  have hnumeric : ∀ ty : Ty, ty.isNumeric = true → ty ≠ .void := by
    rintro ty hty rfl
    exact nomatch hty
  unfold Intrinsic.resultOf at h
  -- One case for each of the signatures.
  split at h
  case h_1 => exact nomatch h
  case h_2 =>
    -- Printing takes any values.
    split at h
    case h_1 => exact nomatch h
    case h_2 hnone =>
      cases h
      exact ⟨firstNonValue_eq_none hnone, nofun, fun _ => rfl⟩
  case h_3 =>
    split at h <;> cases h
    -- The sink takes a string.
    rename_i hstring
    exact ⟨by simp [hstring], fun _ hn => Option.some.inj hn, nofun⟩
  case h_4 =>
    split at h <;> cases h
    -- One number.
    rename_i hx
    exact ⟨List.forall_mem_singleton.2 (hnumeric _ hx), fun _ hn => Option.some.inj hn, nofun⟩
  case h_5 =>
    split at h <;> cases h
    -- One integer.
    rename_i hint
    exact ⟨by simp [hint], fun _ hn => Option.some.inj hn, nofun⟩
  case h_6 | h_7 =>
    split at h <;> cases h
    -- Two numbers.
    rename_i hlr
    obtain ⟨hl, hr⟩ := Bool.and_eq_true_iff.1 hlr
    exact ⟨List.forall_mem_cons.2 ⟨hnumeric _ hl, List.forall_mem_singleton.2 (hnumeric _ hr)⟩,
      fun _ hn => Option.some.inj hn, nofun⟩
  case h_8 =>
    split at h <;> cases h
    -- Two objects.
    rename_i hobjects
    exact ⟨by simp [hobjects], fun _ hn => Option.some.inj hn, nofun⟩
  -- All other lists of types are refused.
  all_goals exact nomatch h

/-- What the check of an operation accepts, its signature takes. -/
private theorem Intrinsic.resultOf_of_check {op : Intrinsic} {types : List Ty} {t : Ty}
    (h : op.check types = .ok t) : Intrinsic.resultOf op.signature types = .ok t := by
  simp only [Intrinsic.check] at h
  split at h <;> cases h
  assumption

/-- No rule for two operands gives a bitfield. -/
private theorem ResultRule.apply_ne_bitfield (rule : ResultRule) (l r : Ty) (layout : Bitfield) :
    rule.apply l r ≠ .bitfield layout := by
  intro h
  cases rule with
  | arithmetic =>
    rw [ResultRule.apply, Ty.arithmetic] at h
    split at h <;> cases h
  | _ => cases h

/-- No operation of the host gives a bitfield. -/
private theorem Intrinsic.check_ne_bitfield {op : Intrinsic} {types : List Ty} {layout : Bitfield} :
    op.check types ≠ .ok (.bitfield layout) := by
  intro h
  -- A result comes from the signature alone, and none is a bitfield.
  have hr := Intrinsic.resultOf_of_check h
  have hresult : ∀ s, op.signature ≠ .unary s (.bitfield layout) := by
    cases op <;> nofun
  generalize op.signature = s at hr hresult
  unfold Intrinsic.resultOf at hr
  split at hr
  -- One operand: the result is written in the signature.
  case h_4 =>
    split at hr <;> cases hr
    exact hresult _ rfl
  -- Two operands: the result is given by a rule.
  case h_6 rule a b =>
    split at hr
    case isTrue => exact rule.apply_ne_bitfield a b layout (Except.ok.inj hr)
    case isFalse => cases hr
  -- All other results are plain types.
  all_goals first | cases hr | (split at hr <;> cases hr)

/-- An operation written between its operands is a joint. -/
private theorem Intrinsic.mem_joints {op : Intrinsic} {sign : Text} (h : op.between? = some sign) :
    Joint.intrinsic op ∈ Joint.all := by
  cases op <;> first | decide | cases h

/-- An operation written in front of its operand is a lead. -/
private theorem Intrinsic.mem_leads {op : Intrinsic} {sign : Text} (h : op.front? = some sign) :
    Lead.intrinsic op ∈ Lead.all := by
  cases op <;> first | decide | cases h

variable {F : Set Double}

/-- Operands have a sound sketch together with an operation, and are written by it. -/
def Intrinsic.Sketched (F : Set Double) (op : Intrinsic) (os : List Sketch) : Prop :=
  ∃ o, op.sketch? os = some o ∧ o.Sound F ∧ op.emit? (os.map Sketch.text) = some o.text

/-- A prefix operator stands in front of its operand. -/
private theorem Intrinsic.applied_eq (op arg : Text) :
    Intrinsic.applied op arg = "(" ++ Intrinsic.parted op ++ arg ++ ")" := by
  unfold Intrinsic.applied Intrinsic.parted
  cases op.getLast? <;> simp only [List.append_assoc]

/-- One operand, with the operation in front. -/
private theorem Intrinsic.sketched_front {op : Intrinsic} (sign : Text) {x : Sketch} (hx : x.Sound F)
    (hfront : op.front? = some sign) (hemit : op.emit? [x.text] = some ("(" ++ sign ++ x.text ++ ")")) :
    op.Sketched F [x] := by
  refine ⟨.led (.intrinsic op) x, ?_, ⟨Intrinsic.mem_leads hfront, hx⟩, ?_⟩
  · simp only [Intrinsic.sketch?, hfront]
  · rw [List.map_singleton, hemit, Sketch.text, Lead.sign, hfront, Option.getD_some]

/-- Two operands, with the operation between them. -/
private theorem Intrinsic.sketched_between {op : Intrinsic} (sign : Text) {l r : Sketch} (hl : l.Sound F)
    (hr : r.Sound F) (hbetween : op.between? = some sign)
    (hemit : op.emit? [l.text, r.text] = some ("(" ++ l.text ++ sign ++ r.text ++ ")")) :
    op.Sketched F [l, r] := by
  refine ⟨.joined (.intrinsic op) l r, ?_, ⟨Intrinsic.mem_joints hbetween, hl, hr, nofun⟩, ?_⟩
  · simp only [Intrinsic.sketch?, hbetween]
  · rw [List.map_cons, List.map_singleton, hemit, Sketch.text, Joint.sign, hbetween, Option.getD_some]

/-- A call of the host other than a printing one has a sound sketch, and is written by it. -/
theorem Intrinsic.Takes.sketched {op : Intrinsic} {types : List Ty} {t : Ty}
    (h : Intrinsic.Takes op.signature types t) (hsay : op ≠ .say) {os : List Sketch}
    (hlen : os.length = types.length) (hos : ∀ o ∈ os, o.Sound F) : op.Sketched F os := by
  -- With one operand, there is one sketch.
  have hone : op.signature.operands = some 1 → ∃ x, os = [x] ∧ x.Sound F := by
    intro hcount
    obtain ⟨x, rfl⟩ := List.length_eq_one_iff.1 (hlen.trans (h.count 1 hcount))
    exact ⟨x, rfl, hos x List.mem_cons_self⟩
  -- With two operands, there are two.
  have htwo : op.signature.operands = some 2 → ∃ l r, os = [l, r] ∧ l.Sound F ∧ r.Sound F := by
    intro hcount
    obtain ⟨l, r, rfl⟩ := List.length_eq_two.1 (hlen.trans (h.count 2 hcount))
    exact ⟨l, r, rfl, hos l List.mem_cons_self, hos r (List.mem_cons_of_mem l List.mem_cons_self)⟩
  cases hs : op.signature with
  -- Only printing has this signature.
  | print => cases op <;> first | exact absurd rfl hsay | cases hs
  -- A word in front of the operand.
  | sink sign =>
    obtain ⟨x, rfl, hx⟩ := hone (by rw [hs]; rfl)
    refine Intrinsic.sketched_front (sign ++ " ") hx ?_ ?_
    · rw [Intrinsic.front?, hs]
    · simp only [Intrinsic.emit?, hs, List.append_assoc]
  | unary sign result =>
    obtain ⟨x, rfl, hx⟩ := hone (by rw [hs]; rfl)
    refine Intrinsic.sketched_front (Intrinsic.parted sign) hx ?_ ?_
    · rw [Intrinsic.front?, hs]
    · simp only [Intrinsic.emit?, hs, Intrinsic.applied_eq]
  | toObject =>
    obtain ⟨x, rfl, hx⟩ := hone (by rw [hs]; rfl)
    refine Intrinsic.sketched_front "to_object " hx ?_ ?_
    · rw [Intrinsic.front?, hs]
    · simp only [Intrinsic.emit?, hs]
      rfl
  -- A sign between two operands.
  | binary sign _ | binaryFloat sign | objects sign =>
    obtain ⟨l, r, rfl, hl, hr⟩ := htwo (by rw [hs]; rfl)
    refine Intrinsic.sketched_between sign hl hr ?_ ?_
    · rw [Intrinsic.between?, hs]
    · simp only [Intrinsic.emit?, hs]

/-! ## Sketches of finished expressions -/

/-- Only variables hold bitfields. -/
private theorem Expr.IsTyped.var_of_bitfield {e : Expr} (h : e.IsTyped) {layout : Bitfield}
    (hty : e.ty? = some (.bitfield layout)) : ∃ i n b, e = .var i n b := by
  -- No number is a bitfield.
  have hnumber : ∀ t : Ty, t.isNumeric = true → t ≠ .bitfield layout := by
    rintro t ht rfl
    exact nomatch ht
  cases e with
  | var i n b => exact ⟨i, n, b, rfl⟩
  -- No literal is one.
  | const i v =>
    cases v <;> exact nomatch h.symm.trans hty
  -- Operators give numbers.
  | binary i op l r =>
    obtain ⟨_, _, t, _, _, hop, ht⟩ := h
    exact absurd (Option.some.inj (ht.symm.trans hty)) (hnumber t (BinaryOp.isNumeric_resultTy hop))
  | unary i op x =>
    obtain ⟨_, t, _, hop, ht⟩ := h
    exact absurd (Option.some.inj (ht.symm.trans hty)) (hnumber t (UnaryOp.isNumeric_resultTy hop))
  -- The host gives no bitfields.
  | call i n ns args target =>
    obtain ⟨op, types, t, _, _, hcheck, ht⟩ := h
    rw [Option.some.inj (ht.symm.trans hty)] at hcheck
    exact absurd hcheck Intrinsic.check_ne_bitfield
  -- Members are integers.
  | member i a b n ns =>
    obtain ⟨_, t, _, hmember, ht⟩ := h
    exact absurd (Option.some.inj (ht.symm.trans hty)) (hnumber t (memberTy_eq_int hmember ▸ rfl))
  -- Queries are numbers.
  | query i k op u x c =>
    have ht := Option.some.inj (h.2.symm.trans hty)
    split at ht <;> cases ht

/-- Whether an expression is a printing call, which gives no value. -/
def Expr.isSay : Expr → Bool
  | .call _ _ _ _ (.intrinsic .say) => true
  | _ => false

/-- What has a value does not print. -/
private theorem Expr.IsTyped.isSay_eq_false {e : Expr} (h : e.IsTyped) {t : Ty} (ht : e.ty? = some t)
    (hv : t ≠ .void) : e.isSay = false := by
  cases e with
  | call i n ns args target =>
    obtain ⟨op, types, t', rfl, _, hcheck, ht'⟩ := h
    cases op with
    | say =>
      have hvoid : t' = .void := (Intrinsic.resultOf_takes (Intrinsic.resultOf_of_check hcheck)).prints rfl
      exact absurd (Option.some.inj (ht.symm.trans ht')) (hvoid ▸ hv)
    | _ => rfl
  | _ => rfl

/-- An expression is one of its own nodes. -/
private theorem Expr.mem_nodes_self (e : Expr) : e ∈ e.nodes := by
  cases e <;> exact List.mem_cons_self

/-- A proper type is not that of a call that produces nothing. -/
private theorem Ty.ne_void_of_isProper {t : Ty} (h : t.isProper = true) : t ≠ .void := by
  rintro rfl
  exact nomatch h

/-- A finished operand with a value does not print. -/
private theorem Expr.Finished.isSay_eq_false {e : Expr} (h : e.Finished F) {t : Ty} (ht : e.ty? = some t)
    (hv : t ≠ .void) : e.isSay = false :=
  (h e e.mem_nodes_self).typed.isSay_eq_false ht hv

/-- The sketch of a member, from that of its base. -/
private theorem Expr.Sketched.member {i : ExprInfo} {a : Access} {b : Expr} {n : Text} {ns : Span}
    {o : Sketch} (h : (Expr.member i a b n ns).IsFinished F) (hb : b.Finished F) (ho : b.Sketched F o) :
    ∃ o, (Expr.member i a b n ns).Sketched F o := by
  obtain ⟨bt, t, hbt, hmember, _⟩ := h.typed
  have hname : isName n = true := h.named n List.mem_cons_self
  have hknown : b.knownTy = .ok bt := by rw [Expr.knownTy, hbt]
  -- Members are written around their bases, unless they are bits.
  have haround : memberSketch? a b.ty? o n = some (.joined (.access a) o (.name n)) →
      memberText a b o.text n = .ok ("(" ++ o.text ++ a.sign ++ n ++ ")") →
      ∃ o, (Expr.member i a b n ns).Sketched F o := by
    intro hfound hwritten
    refine ⟨.joined (.access a) o (.name n), ?_,
      ⟨by cases a <;> decide, ho.sound, hname, fun _ _ => ⟨n, rfl⟩⟩, ?_⟩
    · simp only [Expr.sketch?, ho.found, hfound, Option.bind_eq_bind, Option.bind_some]
    · simp only [Expr.generate, ho.written, hwritten, bind, Except.bind, Sketch.text, Joint.sign]
  cases a with
  | chronal => exact haround rfl rfl
  | classwise => exact haround rfl rfl
  | dotted =>
    -- A member of a bitfield is written as bits of a variable, and any other one around its base.
    cases bt with
    | bitfield layout =>
      obtain ⟨⟨offset, length⟩, hlimits⟩ := (memberTy_base hmember).2 layout rfl
      -- Only a variable can be the base.
      obtain ⟨i', m, c, rfl⟩ := (hb b b.mem_nodes_self).typed.var_of_bitfield hbt
      -- The bits are written by the name, the offset and the length.
      refine ⟨.bits m offset length, ?_, (hb _ (Expr.mem_nodes_self _)).named m List.mem_cons_self, ?_⟩
      · simp only [Expr.sketch?, memberSketch?, hbt, hlimits, Option.bind_eq_bind, Option.bind_some]
      · simp only [Expr.generate, memberText, hknown, hlimits, bind, Except.bind, pure, Except.pure, Sketch.text]
    | _ =>
      refine haround ?_ ?_
      · rw [hbt]
        rfl
      · simp only [memberText, hknown, bind, Except.bind, pure, Except.pure, Access.sign]

mutual

/-- A finished expression that does not print has a sound sketch, and is written by it. -/
theorem Expr.Finished.sketched : (e : Expr) → e.Finished F → e.isSay = false → ∃ o, e.Sketched F o
  -- A literal is written by its value.
  | .const i v, h, _ =>
    ⟨.literal v, rfl, fun d hd => (h _ List.mem_cons_self).floats d (by rw [hd]; rfl), rfl⟩
  -- A variable is written by its name.
  | .var i n b, h, _ => ⟨.name n, rfl, (h _ List.mem_cons_self).named n List.mem_cons_self, rfl⟩
  | .binary i op l r, h, _ => by
    obtain ⟨hself, hparts⟩ := List.forall_mem_cons.1 h
    obtain ⟨hlf, hrf⟩ := List.forall_mem_append.1 hparts
    obtain ⟨lt, rt, t, hlt, hrt, hop, _⟩ := hself.typed
    -- Both operands are values, so none of them prints.
    obtain ⟨hlp, hrp⟩ := BinaryOp.operands_proper hop
    obtain ⟨lo, hl⟩ := Expr.Finished.sketched l hlf
      (Expr.Finished.isSay_eq_false hlf hlt (Ty.ne_void_of_isProper hlp))
    obtain ⟨ro, hr⟩ := Expr.Finished.sketched r hrf
      (Expr.Finished.isSay_eq_false hrf hrt (Ty.ne_void_of_isProper hrp))
    refine ⟨.joined (.operator op) lo ro, ?_, ⟨by cases op <;> decide, hl.sound, hr.sound, nofun⟩, ?_⟩
    · simp only [Expr.sketch?, hl.found, hr.found, Option.bind_eq_bind, Option.bind_some, Option.pure_def]
    · simp only [Expr.generate, hl.written, hr.written, bind, Except.bind, pure, Except.pure, Sketch.text,
        Joint.sign]
  | .unary i op x, h, _ => by
    -- The operand is a value, so it does not print.
    obtain ⟨hself, hxf⟩ := List.forall_mem_cons.1 h
    obtain ⟨xt, t, hxt, hop, _⟩ := hself.typed
    obtain ⟨o, hx⟩ := Expr.Finished.sketched x hxf
      (Expr.Finished.isSay_eq_false hxf hxt (Ty.ne_void_of_isProper (UnaryOp.operand_proper hop)))
    refine ⟨.led (.operator op) o, ?_, ⟨by cases op <;> decide, hx.sound⟩, ?_⟩
    · simp only [Expr.sketch?, hx.found, Option.bind_eq_bind, Option.bind_some, Option.pure_def]
    · simp only [Expr.generate, hx.written, bind, Except.bind, pure, Except.pure, Sketch.text, Lead.sign]
  | .call i n ns args target, h, hsay => by
    obtain ⟨hself, hargs⟩ := List.forall_mem_cons.1 h
    obtain ⟨op, types, t, rfl, htypes, hcheck, _⟩ := hself.typed
    have htakes := Intrinsic.resultOf_takes (Intrinsic.resultOf_of_check hcheck)
    -- The arguments are values, so each of them has a sketch.
    obtain ⟨os, hos⟩ := Expr.Finished.sketchedList args hargs types htypes htakes.values
    have hlen : os.length = types.length := by
      rw [hos.length_eq, ← List.length_map (f := Expr.ty?), htypes, List.length_map]
    -- The call does not print itself.
    have hop : op ≠ .say := by
      rintro rfl
      exact nomatch hsay
    obtain ⟨o, hfound, hsound, hemit⟩ := htakes.sketched hop hlen hos.sound
    refine ⟨o, ?_, hsound, ?_⟩
    · simp only [Expr.sketch?, hos.found, hfound, Option.bind_eq_bind, Option.bind_some]
    · simp only [Expr.generate, hos.written, callText, hemit, bind, Except.bind, pure, Except.pure]
  | .member i a b n ns, h, _ => by
    obtain ⟨hself, hbf⟩ := List.forall_mem_cons.1 h
    obtain ⟨bt, t, hbt, hmember, _⟩ := hself.typed
    -- The base is a value, so it does not print.
    obtain ⟨o, hb⟩ := Expr.Finished.sketched b hbf
      (Expr.Finished.isSay_eq_false hbf hbt (Ty.ne_void_of_isProper (memberTy_base hmember).1))
    exact Expr.Sketched.member hself hbf hb
  | .query i k op u x c, h, _ => by
    obtain ⟨hself, hparts⟩ := List.forall_mem_cons.1 h
    obtain ⟨hux, hcf⟩ := List.forall_mem_append.1 hparts
    obtain ⟨huf, hxf⟩ := List.forall_mem_append.1 hux
    -- The three parts are values if they are there.
    have hvalue : ∀ part ∈ [u, x, c], ∀ e ∈ part, ∃ t, e.ty? = some t ∧ t ≠ .void := by
      intro part hpart e he
      obtain ⟨t, ht, hproper⟩ := hself.typed.1 part hpart e he
      exact ⟨t, ht, Ty.ne_void_of_isProper hproper⟩
    obtain ⟨uo, hu⟩ := Expr.Finished.sketchedOption u huf (hvalue u (by simp))
    obtain ⟨xo, hx⟩ := Expr.Finished.sketchedOption x hxf (hvalue x (by simp))
    obtain ⟨co, hc⟩ := Expr.Finished.sketchedOption c hcf (hvalue c (by simp))
    refine ⟨.query k op uo xo co, ?_, ⟨hself.named k (by simp [Expr.ownNames]),
      hself.named op (by simp [Expr.ownNames]), hu.sound, hx.sound, hc.sound⟩, ?_⟩
    · simp only [Expr.sketch?, hu.found, hx.found, hc.found, Option.bind_eq_bind, Option.bind_some,
        Option.pure_def]
    · simp only [Expr.generate, hu.written, hx.written, hc.written, bind, Except.bind, pure, Except.pure,
        Sketch.text]

/-- Finished arguments that are values have sound sketches, and are written by them. -/
private theorem Expr.Finished.sketchedList : (es : List Expr) → (∀ x ∈ nodesOfList es, x.IsFinished F) →
    (types : List Ty) → es.map Expr.ty? = types.map some → (∀ t ∈ types, t ≠ .void) → ∃ os, SketchedList F es os
  | [], _, _, _, _ => ⟨[], rfl, nofun, rfl, rfl⟩
  | e :: es, h, [], htypes, _ => nomatch htypes
  | e :: es, h, t :: ts, htypes, hv => by
    -- The first argument, and the others behind it.
    obtain ⟨hef, hesf⟩ := List.forall_mem_append.1 h
    obtain ⟨ht, hts⟩ := List.cons_eq_cons.1 htypes
    obtain ⟨hev, hesv⟩ := List.forall_mem_cons.1 hv
    obtain ⟨o, ho⟩ := Expr.Finished.sketched e hef (Expr.Finished.isSay_eq_false hef ht hev)
    obtain ⟨os, hos⟩ := Expr.Finished.sketchedList es hesf ts hts hesv
    refine ⟨o :: os, ?_, List.forall_mem_cons.2 ⟨ho.sound, hos.sound⟩, ?_, ?_⟩
    · simp only [sketchList?, ho.found, hos.found, Option.bind_eq_bind, Option.bind_some, Option.pure_def]
    · simp only [generateList, ho.written, hos.written, bind, Except.bind, pure, Except.pure, List.map_cons]
    · rw [List.length_cons, List.length_cons, hos.length_eq]

/-- A finished part of a query has a sound sketch, and is written by it. -/
private theorem Expr.Finished.sketchedOption : (e : Option Expr) → (∀ x ∈ nodesOfOption e, x.IsFinished F) →
    (∀ x ∈ e, ∃ t, x.ty? = some t ∧ t ≠ .void) → ∃ o, SketchedOption F e o
  | none, _, _ => ⟨none, rfl, trivial, rfl⟩
  | some e, h, hv => by
    obtain ⟨t, ht, hne⟩ := hv e rfl
    obtain ⟨o, ho⟩ := Expr.Finished.sketched e h (Expr.Finished.isSay_eq_false h ht hne)
    exact ⟨some o, by rw [sketchOption?, ho.found]; rfl, ho.sound, ho.written⟩

end

/-- What a line has to do with its expression. -/
structure Expr.Lined (F : Set Double) (e : Expr) (l : Line) : Prop where
  found : e.line? = some l
  sound : l.Sound F
  written : e.generate = .ok l.text

/-- A finished expression makes a sound line, and is written by it. -/
theorem Expr.Finished.lined {e : Expr} (h : e.Finished F) : ∃ l, e.Lined F l := by
  -- An expression prints, or it has a value.
  cases hsay : e.isSay with
  -- It prints, so it is a call of the host, and its arguments are values.
  | true =>
    obtain ⟨i, n, ns, args, rfl⟩ : ∃ i n ns args, e = .call i n ns args (.intrinsic .say) := by
      unfold Expr.isSay at hsay
      split at hsay
      · exact ⟨_, _, _, _, rfl⟩
      · cases hsay
    obtain ⟨hself, hargs⟩ := List.forall_mem_cons.1 h
    obtain ⟨op, types, t, heq, htypes, hcheck, _⟩ := hself.typed
    cases heq
    have htakes := Intrinsic.resultOf_takes (Intrinsic.resultOf_of_check hcheck)
    obtain ⟨os, hos⟩ := Expr.Finished.sketchedList args hargs types htypes htakes.values
    refine ⟨.say os, ?_, hos.sound, ?_⟩
    · rw [Expr.line?, hos.found]
      rfl
    · simp only [Expr.generate, hos.written, callText, Intrinsic.emit?, Intrinsic.signature, bind, Except.bind,
        pure, Except.pure, Line.text]
  -- It has a value, so the line is its sketch.
  | false =>
    obtain ⟨o, ho⟩ := Expr.Finished.sketched e h hsay
    refine ⟨.value o, ?_, ho.sound, ho.written⟩
    unfold Expr.line?
    split
    · cases hsay
    · rw [ho.found]
      rfl

end AisScript
