import AisScript.Proofs.Agreeing
import AisScript.Proofs.Ending

/-!
# Calls are independent

All private copies of a function are typed on the one scope that the function has captured.  Each of them
opens a frame on that scope and closes it again, and none looks at the scope of its call.  So every call
leaves the captured scope as it has found it, and what comes of a call depends on nothing but the function and
the types of the arguments.

* `enterShared_agrees`          calls on shared scopes come to what calls come to otherwise
* `shareProgram_agrees`         so do programs
* `SameOutcome`                 private copies that are the same
* `calls_independent`           calls do not influence each other
-/

namespace AisScript

variable {φ : Nat → Nat}

/-! ## Private copies -/

section Copies

variable {M M' : Shared} {σ : Scope Entry} {next : Nat}

/-- Arguments of the same types are as many. -/
private theorem length_of_tys {es es' : List Expr} (h : es.map Expr.ty? = es'.map Expr.ty?) :
    es.length = es'.length := by
  have hlength := congrArg List.length h
  rwa [List.length_map, List.length_map] at hlength

/-- Parameters are bound to the arguments with the numbers ahead. -/
private theorem shareAssigns_bindArguments (enter : EnterShared) (ps : List Param) (args : List Expr)
    (M : Shared) :
    (shareAssigns enter (bindArguments ps args) M).1 = .ok (numberBinds M.next (bindArguments ps args)) := by
  -- Parameter by parameter, with the number that is ahead.
  induction ps generalizing args M with
  | nil => rfl
  | cons p ps ih =>
    cases args with
    | nil => rfl
    | cons e es =>
      -- What binds this parameter, and the binding it gets.
      let i : AssignInfo :=
        { span := e.span, name := p.name, nameSpan := p.span, declares := true, binds := true }
      let b : Binding := .variable M.next (e.ty?.getD .invalid)
      have ha : ((Assign.mk i e).share enter M).1 = .ok (.mk { i with binding := some b } e) := rfl
      have has := ih es ((Assign.mk i e).share enter M).2
      -- Typing it succeeds, and so does typing the others.
      change (((Assign.mk i e).share enter >>= fun a =>
        shareAssigns enter (bindArguments ps es) >>= fun as => pure (a :: as)) M).1 = _
      rw [Sharing.bind_of_ok _ ha, Sharing.bind_of_ok _ has]
      rfl

/-- Binding parameters to arguments of the same types comes to the same. -/
private theorem shareAssigns_bindArguments_agrees (enter : EnterShared) (ps : List Param)
    {args args' : List Expr} (hlength : args'.length = ps.length)
    (htys : args'.map Expr.ty? = args.map Expr.ty?) (hM : M.Open) (h : M.Stands φ σ next) :
    Agrees (Shared.Moves φ)
      (fun _ _ M' => M'.Stands φ (extendAll σ (numberBinds next (bindArguments ps args))) (next + ps.length)) M
      (shareAssigns enter (bindArguments ps args')) (.ok ()) := by
  -- Parameters and both lists of arguments in step.
  induction ps generalizing args args' M σ next with
  | nil => exact .pure (Shared.Keeps.refl M).toMoves h
  | cons p ps ih =>
    cases args' with
    | nil => exact nomatch hlength
    | cons e' es' =>
      cases args with
      | nil => exact nomatch htys
      | cons e es =>
        rw [List.map_cons, List.map_cons, List.cons.injEq] at htys
        let i : AssignInfo :=
          { span := e'.span, name := p.name, nameSpan := p.span, declares := true, binds := true }
        let b : Binding := .variable next (e.ty?.getD .invalid)
        -- The parameter is bound to a variable of the argument's type on both sides.
        have hbind : Agrees (Shared.Moves φ)
            (fun _ _ M' => M'.Stands φ (σ.define p.name (.value b)) (next + 1)) M
            ((Assign.mk i e').share enter) (.ok ()) := by
          simp only [Assign.share, i, if_true, htys.1]
          exact (shareValue_agrees hM h p.name b rfl).bind_ok (Shared.Moves.trans hM) rfl fun _ M₁ _ hx =>
            .pure (Shared.Keeps.refl M₁).toMoves hx.2
        -- The others are bound behind it.
        refine hbind.bind_ok (Shared.Moves.trans hM) rfl fun _ M₁ hM₁ h₁ => ?_
        have has := ih (Nat.succ.inj hlength) htys.2 (hM₁.isOpen hM) h₁
        refine has.bind_ok (Shared.Moves.trans (hM₁.isOpen hM)) rfl fun _ M₂ _ h₂ => ?_
        rw [Nat.add_right_comm] at h₂
        exact .pure (Shared.Keeps.refl M₂).toMoves h₂

/-- The scope that a function has captured, with a frame opened on it. -/
private theorem stands_entered {r : Nat} {κ : List (Text × Entry)} (hr : M.AtRest r)
    (hκ : frameShown φ M.toHeap κ (M.scope r).inner) (hnext : SameAhead φ M.next next) :
    (M.turned r).pushed.Stands φ (Scope.push ⟨κ, []⟩) next := by
  -- The scope in use is the captured one with a frame on top.
  have hhere : (M.turned r).pushed.here = (M.scope r).push := M.scope_change r _
  -- Of all scopes at rest, only the captured one is at rest no longer.
  have hother : ∀ r', r' ≠ r → M.AtRest r' →
      (M.turned r).pushed.AtRest r' ∧ (M.turned r).pushed.scope r' = M.scope r' := fun r' hne hr' => by
    have hscope : (M.turned r).pushed.scope r' = M.scope r' := M.scope_change_of_ne _ hne
    exact ⟨⟨hr'.1, hr'.2.1, by rw [hscope]; exact hr'.2.2⟩, hscope⟩
  refine ⟨?_, hnext, hr.2.1⟩
  -- It shows what was captured, and below its frame there is nothing else.
  rw [hhere]
  refine ⟨rfl, (M.scope r).inner, (M.scope r).outer, rfl, frameShown_entered hκ hother, ?_⟩
  rw [hr.2.2]
  exact rfl

/-- A copy that is typed without a bound: its parameters, then its body. -/
private theorem enterFreely_bindArguments (κ : List (Text × Entry)) (next : Nat) (ps : List Param)
    (args : List Expr) (body : Block) (hlength : ps.length = args.length) :
    enterFreely ⟨κ, []⟩ next (bindArguments ps args) body
      = (body.annotateIn enterFreely (bodyScope κ (numberBinds next (bindArguments ps args)))
          (next + ps.length)).wrap fun b => (numberBinds next (bindArguments ps args), b) := by
  have hstep := (Copy.mk ⟨κ, []⟩ next (bindArguments ps args) body).under_enterFreely
  simp only [Copy.under, enterOnce, annotateAssigns_bindArguments _ _ _ _ _ hlength] at hstep
  exact hstep

/-- Typing the copy in the frame opened on the captured scope comes to the same. -/
private theorem shareCopy_agrees {enter : EnterShared} {w : Nat} (hE : EnterAgrees φ w enter)
    {ps : List Param}
    {body : Block} {r : Nat} {κ : List (Text × Entry)} {args args' : List Expr} (hr : M.AtRest r)
    (hκ : frameShown φ M.toHeap κ (M.scope r).inner) (hw : frameLevel κ + body.definitions ≤ w)
    (hnext : SameAhead φ M.next next) (hlength : args'.length = ps.length)
    (htys : args'.map Expr.ty? = args.map Expr.ty?) :
    Agrees (Shared.Moves φ)
      (fun x _ M' =>
        let t := enterFreely ⟨κ, []⟩ next (bindArguments ps args) body
        x.1 = numberBinds M.next (bindArguments ps args') ∧
          t.tree.1 = numberBinds next (bindArguments ps args) ∧
          x.2.renumber φ = t.tree.2.renumber φ ∧ SameAhead φ M'.next t.next)
      (M.turned r).pushed
      (do
        let binds ← shareAssigns enter (bindArguments ps args')
        let body ← body.share enter
        pure (binds, body))
      (enterFreely ⟨κ, []⟩ next (bindArguments ps args) body).result := by
  -- The frame is opened on the captured scope, and there are as many arguments as parameters.
  have hargs : ps.length = args.length := hlength.symm.trans (length_of_tys htys)
  have hopen : (M.turned r).pushed.Open := Shared.isOpen_pushed hr.2.1
  -- Parameters have no level, so the body needs no more levels than the function has.
  have hlevel : (bodyScope κ (numberBinds next (bindArguments ps args))).level + body.definitions ≤ w := by
    have hresult := congrArg Typed.result
      (annotateAssigns_bindArguments enterFreely (Scope.push ⟨κ, []⟩) next ps args hargs)
    have hbehind := annotateAssigns_level_behind hresult
    rw [Scope.level_push, Scope.level_single] at hbehind
    rw [bodyScope, hbehind]
    exact hw
  -- The parameters first, with the numbers that they have been given.
  have hbinds := (shareAssigns_bindArguments_agrees enter ps hlength htys hopen
    (stands_entered hr hκ hnext)).exactly (shareAssigns_bindArguments enter ps args' (M.turned r).pushed)
  rw [enterFreely_bindArguments κ next ps args body hargs]
  refine hbinds.bind_ok (Shared.Moves.trans hopen) rfl fun binds M₁ hM₁ hx => ?_
  obtain ⟨rfl, h₁⟩ := hx
  have hM₁' := hM₁.isOpen hopen
  have hbody := body.share_agrees hE hlevel hM₁' h₁
  -- Then the body, in the scope with the parameters.
  cases hresult : (body.annotateIn enterFreely (bodyScope κ (numberBinds next (bindArguments ps args)))
      (next + ps.length)).result with
  | error e => exact hbody.bind_error hresult hresult
  | ok _ =>
    refine hbody.bind_ok (Shared.Moves.trans hM₁') hresult fun body' M₂ _ hx => ?_
    change Agrees _ _ M₂ _ (body.annotateIn _ _ _).result
    rw [hresult]
    exact .pure (Shared.Keeps.refl M₂).toMoves ⟨rfl, rfl, hx.1, hx.2⟩

/-- A call on a captured scope leaves all scopes as they are. -/
private theorem keeps_turned {r : Nat} (hM : M.current < M.count) (hr : r < M.count)
    (h : (M.turned r).pushed.Moves φ M') : M.Keeps φ (M'.popped.turned M.current) := by
  have hkeeps : (M.turned r).Keeps φ M'.popped := h.popped hr
  have hscope : ∀ r', r' < M.count → M'.popped.scope r' = M.scope r' := fun r' hr' => hkeeps.scope_eq hr'
  refine ⟨⟨rfl, hkeeps.count, fun r' hr' _ => hscope r' hr', congrArg Scope.outer (hscope _ hM), ?_⟩,
    hscope _ hM⟩
  obtain ⟨new, hcalls, hnew⟩ := hkeeps.calls
  exact ⟨new, hcalls, fun x hx => (hnew x hx).kept (.of_scope (Nat.le_refl _) fun _ _ => rfl)⟩

/-- Noting a call changes nothing else. -/
private theorem Shared.Keeps.noted (h : M.Keeps φ M') {x : SharedCall} (hx : x.Sound φ M'.toHeap) :
    M.Keeps φ { M' with calls := x :: M'.calls } := by
  obtain ⟨new, hcalls, hnew⟩ := h.calls
  refine ⟨⟨h.current, h.count, h.scope, h.outer, x :: new, ?_, List.forall_mem_cons.2 ⟨hx, hnew⟩⟩, h.here⟩
  exact congrArg (x :: ·) hcalls

/-- Calls that may nest as many levels as they need come to what calls come to otherwise. -/
theorem enterShared_agrees (depth : Nat) : EnterAgrees φ depth (enterShared depth) := by
  -- By induction on the levels: a copy asks for copies of lower levels only.
  induction depth with
  | zero => exact fun _ _ _ _ _ _ _ _ _ _ _ hw => absurd hw (Nat.not_lt_zero _)
  | succ depth ih =>
    intro M next ps body r κ args args' hM hr hκ hw hnext hlength htys
    -- The copy comes to the same for the arguments of both.
    have hcopy := shareCopy_agrees ih hr hκ (Nat.le_of_lt_succ hw) hnext hlength htys
    -- The note is about the arguments and the numbers that the call itself has.
    have hsame := shareCopy_agrees ih hr hκ (Nat.le_of_lt_succ hw) (fun _ => rfl) hlength rfl
    have hkeeps := keeps_turned hM hr.2.1 hcopy.frame
    -- The scope in use before is the one in use behind the call, and nothing at rest has changed.
    refine ⟨hkeeps.noted ⟨hM, hlength, κ, hw, ?_, ?_, ?_, ?_, ?_⟩, hcopy.error, hcopy.ok⟩
    · exact ⟨r, rfl, hr, hκ⟩
    · exact Entry.Shown.kept hkeeps.keepsRest (.function ps body κ) ⟨r, rfl, hr, hκ⟩
    · exact hkeeps.scope_eq hr.2.1
    · exact fun r' hr' => hkeeps.scope_eq hr'
    -- The outcome of the note is that of the copy typed by itself.
    · cases hresult : (enterFreely ⟨κ, []⟩ M.next (bindArguments ps args') body).result with
      | error e =>
        simp only [CopyTyped, hresult]
        exact hsame.error e hresult
      | ok _ =>
        obtain ⟨x, hx, hbinds, -, hbody, -⟩ := hsame.ok _ hresult
        simp only [CopyTyped, hresult]
        exact ⟨x.2, hx.trans (by rw [← hbinds]), hbody⟩

end Copies

/-! ## Programs -/

section Programs

variable {M : Shared} {σ : Scope Entry} {next : Nat}

/-- Binding the host's variables comes to the same. -/
private theorem shareGlobals_agrees (gs : List Global) (hM : M.Open) (h : M.Stands φ σ next) :
    Agrees (Shared.Moves φ) (fun _ _ M' => M'.Stands φ (bindGlobals σ next gs).1 (bindGlobals σ next gs).2) M
      (shareGlobals gs) (.ok ()) := by
  induction gs generalizing σ M next with
  | nil => exact .pure (Shared.Keeps.refl M).toMoves h
  | cons g gs ih =>
    let b : Binding := { id := next, ty := g.ty, origin := .host }
    refine (shareValue_agrees hM h g.name b rfl).bind_ok (Shared.Moves.trans hM) rfl fun _ M₁ hM₁ h₁ => ?_
    exact ih (hM₁.isOpen hM) h₁.2

/-- Binding the host's operations comes to the same. -/
private theorem shareIntrinsics_agrees (ops : List Intrinsic) (hM : M.Open) (h : M.Stands φ σ next) :
    Agrees (Shared.Moves φ)
      (fun _ _ M' => M'.Stands φ (ops.foldl (fun sc op => sc.define op.name (.intrinsic op)) σ) next) M
      (shareIntrinsics ops) (.ok ()) := by
  induction ops generalizing σ M with
  | nil => exact .pure (Shared.Keeps.refl M).toMoves h
  | cons op ops ih =>
    have hdefine := define_agrees hM h op.name (e := .intrinsic op) rfl
    exact hdefine.bind_ok (Shared.Moves.trans hM) rfl fun _ M₁ hM₁ h₁ => ih (hM₁.isOpen hM) h₁

/-- Binding the functions that the host defines comes to the same. -/
private theorem shareHostFunctions_agrees (ss : List Stmt) (hM : M.Open) (h : M.Stands φ σ next) :
    Agrees (Shared.Moves φ) (fun _ _ M' => M'.Stands φ (ss.foldl bindHostFunction σ) next) M
      (shareHostFunctions ss) (.ok ()) := by
  induction ss generalizing σ M with
  | nil => exact .pure (Shared.Keeps.refl M).toMoves h
  | cons s ss ih =>
    cases s with
    | funcDef sp n ns ps b =>
      exact (shareFunction_agrees hM h n ps b).bind_ok (Shared.Moves.trans hM) rfl
        fun _ M₁ hM₁ h₁ => ih (hM₁.isOpen hM) h₁
    | _ => exact ih hM h

/-- The levels that programs are allowed are as good as no bound. -/
private theorem annotateIn_enterFreely (h : Host) (b : Block) :
    b.annotateIn (enterWithin (b.definitions + Host.achronal.length)) h.entryScope.1.push h.entryScope.2
      = b.annotateIn enterFreely h.entryScope.1.push h.entryScope.2 := by
  have hlevel : h.entryScope.1.push.level + b.definitions ≤ b.definitions + Host.achronal.length := by
    have := h.level_entryScope
    rw [Scope.level_push]
    omega
  have hasks := Block.annotateIn_asks enterFreely h.entryScope.2 b hlevel
  exact hasks.eq_of_agree fun q hq => q.under_enterWithin hq

/-- Typing a program on shared scopes comes to the same. -/
theorem Block.shareProgram_agrees (h : Host) (b : Block) :
    let t := b.annotateIn enterFreely h.entryScope.1.push h.entryScope.2
    (∀ e, t.result = .error e → (b.shareProgram h).1 = .error e) ∧
      (∀ v, t.result = .ok v → (b.shareProgram h).1 = .ok t.tree) ∧
      ∀ x ∈ (b.shareProgram h).2.calls, x.Sound id (b.shareProgram h).2.toHeap := by
  -- Nothing is shared at the start: one frame stands, and no call is noted.
  have hM : ({} : Shared).Open := ⟨Nat.zero_lt_one, .inl rfl⟩
  have h₀ : ({} : Shared).Stands id {} 0 := ⟨⟨rfl, rfl⟩, fun _ => rfl, Nat.zero_lt_one⟩
  -- The whole run agrees with typing in the entry scope, and nothing it finds is changed.
  have hagrees : Agrees (Shared.Moves id)
      (fun x _ _ => x = (b.annotateIn enterFreely h.entryScope.1.push h.entryScope.2).tree) {}
      (do
        shareGlobals h.globals
        shareIntrinsics Intrinsic.all
        shareHostFunctions Host.achronal
        Sharing.inFrame (b.share (enterShared (b.definitions + Host.achronal.length))))
      (b.annotateIn enterFreely h.entryScope.1.push h.entryScope.2).result := by
    -- Globals, built-in functions and those of the host are entered one after the other.
    refine (shareGlobals_agrees h.globals hM h₀).bind_ok (Shared.Moves.trans hM) rfl fun _ M₁ hM₁ h₁ => ?_
    have hM₁' := hM₁.isOpen hM
    refine (shareIntrinsics_agrees Intrinsic.all hM₁' h₁).bind_ok (Shared.Moves.trans hM₁') rfl
      fun _ M₂ hM₂ h₂ => ?_
    have hM₂' := hM₂.isOpen hM₁'
    refine (shareHostFunctions_agrees Host.achronal hM₂' h₂).bind_ok (Shared.Moves.trans hM₂') rfl
      fun _ M₃ hM₃ h₃ => ?_
    -- The depth that calls are given is enough for the entry scope and all definitions.
    have hlevel : h.entryScope.1.level + b.definitions ≤ b.definitions + Host.achronal.length := by
      have := h.level_entryScope
      omega
    -- The program itself is typed in a frame of its own.
    have hb := shareFramed_agrees (enterShared_agrees _) b hlevel (hM₃.isOpen hM₂') h₃
    exact hb.mono Shared.Keeps.toMoves fun _ hx => by
      rw [Block.renumber_id, Block.renumber_id] at hx
      exact hx.1
  refine ⟨hagrees.error, fun v hv => ?_, ?_⟩
  · obtain ⟨x, hx, rfl⟩ := hagrees.ok v hv
    exact hx
  -- All calls of the run are new, since none was noted at the start.
  · obtain ⟨new, hcalls, hnew⟩ := hagrees.frame.calls
    intro x hx
    change x ∈ ((b.shareProgram h).2).calls at hx
    refine hnew x ?_
    have hcalls : (b.shareProgram h).2.calls = new ++ [] := hcalls
    rwa [hcalls, List.append_nil] at hx

end Programs

/-! ## Calls -/

/-- What a typed assignment says about a parameter: its name, its binding without a number, and the type of
the argument. -/
def Assign.parameter (a : Assign) : Text × Option Binding × Option Ty :=
  (a.info.name, a.info.binding.map (Binding.renumber fun _ => 0), a.value.ty?)

/-- What came of two private copies is the same: the same error, or the same types for the parameters, the
same types throughout the bodies, and so the same type for the results.  Only the numbers of the bindings and
the arguments are those of the calls. -/
def SameOutcome : Except SemanticError (List Assign × Block) → Except SemanticError (List Assign × Block) → Prop
  | .ok (binds, body), .ok (binds', body') =>
    binds.map Assign.parameter = binds'.map Assign.parameter ∧
      body.renumber (fun _ => 0) = body'.renumber (fun _ => 0) ∧ body.returnTy = body'.returnTy
  | .error e, .error e' => e = e'
  | _, _ => False

/-- Parameters bound to arguments of the same types. -/
private theorem parameters_numberBinds (ps : List Param) {args args' : List Expr} (n n' : Nat)
    (htys : args'.map Expr.ty? = args.map Expr.ty?) :
    (numberBinds n' (bindArguments ps args')).map Assign.parameter
      = (numberBinds n (bindArguments ps args)).map Assign.parameter := by
  -- Parameters and arguments run out together, on either side.
  induction ps generalizing args args' n n' with
  | nil => rfl
  | cons p ps ih =>
    cases args with
    | nil =>
      cases args' with
      | nil => rfl
      | cons _ _ => exact nomatch htys
    | cons e es =>
      cases args' with
      | nil => exact nomatch htys
      | cons e' es' =>
        rw [List.map_cons, List.map_cons, List.cons.injEq] at htys
        -- The heads have the same type, and numbers are left out of what a parameter is.
        have htail := ih (n + 1) (n' + 1) htys.2
        simp only [bindArguments, List.zipWith_cons_cons, numberBinds, List.map_cons, Assign.parameter,
          Assign.info, Assign.value, Option.map_some, Binding.renumber, Binding.variable, htys.1] at htail ⊢
        rw [htail]

/-- A private copy on shared scopes has the types that it has otherwise. -/
private theorem Agrees.alike {F : Shared → Shared → Prop} {ps : List Param} {args args' : List Expr}
    {n n' : Nat} {M M' : Shared} {m m' : Sharing (List Assign × Block)}
    {t : Typed (List Assign × Block) Unit} (htys : args'.map Expr.ty? = args.map Expr.ty?)
    (h : Agrees F (fun x _ _ => x.1 = numberBinds n (bindArguments ps args) ∧
      x.2.renumber (fun _ => 0) = t.tree.2.renumber (fun _ => 0)) M m t.result)
    (h' : Agrees F (fun x _ _ => x.1 = numberBinds n' (bindArguments ps args') ∧
      x.2.renumber (fun _ => 0) = t.tree.2.renumber (fun _ => 0)) M' m' t.result) :
    SameOutcome (m M).1 (m' M').1 := by
  cases ht : t.result with
  | error e => rw [h.error e ht, h'.error e ht]; exact rfl
  | ok v =>
    -- Both have typed a private copy, and both copies are the same without numbers.
    obtain ⟨x, hx, hbinds, hbody⟩ := h.ok v ht
    obtain ⟨x', hx', hbinds', hbody'⟩ := h'.ok v ht
    have hsame := hbody.trans hbody'.symm
    rw [hx, hx']
    refine ⟨?_, hsame, ?_⟩
    · rw [hbinds, hbinds']
      exact (parameters_numberBinds ps n n' htys).symm
    · exact Block.returnTy_of_renumber hsame

/-- A call that is made once more comes to what a call of the function comes to otherwise. -/
private theorem SharedCall.again_agrees {x : SharedCall} {κ : List (Text × Entry)}
    (hinside : x.site.current < x.site.count) (hdepth : frameLevel κ + x.body.definitions < x.depth)
    (hsite : (Entry.function x.params x.body κ).Shown id x.site x.slot) (next : Nat)
    (hnext : SameAhead φ x.site.next next) {args args' : List Expr} (hlength : args'.length = x.params.length)
    (htys : args'.map Expr.ty? = args.map Expr.ty?) :
    Agrees (Shared.Keeps φ)
      (fun c _ _ => c.1 = numberBinds x.site.next (bindArguments x.params args') ∧ c.2.renumber φ =
        (enterFreely ⟨κ, []⟩ next (bindArguments x.params args) x.body).tree.2.renumber φ)
      { toHeap := x.site } (enterShared x.depth x.params x.body x.captured args')
      (enterFreely ⟨κ, []⟩ next (bindArguments x.params args) x.body).result := by
  -- What stands in the slot on the site is the entry that is typed in.
  obtain ⟨r, hr, hrest, hκ⟩ := Entry.Shown.renumber (φ := φ) (.function x.params x.body κ) hsite
  cases hr
  exact (enterShared_agrees x.depth { toHeap := x.site } next x.params x.body x.captured κ args args' hinside
    hrest hκ hdepth hnext hlength htys).mono id fun _ hc => ⟨hc.1, hc.2.2.1⟩

/-- A noted call, made once more with the same arguments, comes to what it came to. -/
private theorem SharedCall.Sound.outcome_eq {x : SharedCall} {M : Heap} (hx : x.Sound id M) :
    x.outcome = (x.again x.args).1 := by
  obtain ⟨hinside, hlength, κ, hdepth, hsite, -, -, -, hcopy⟩ := hx
  have hagain := SharedCall.again_agrees (φ := id) hinside hdepth hsite x.site.next (fun _ => rfl) hlength rfl
  -- Made once more, the call comes to what typing a copy comes to, and so did the noted one.
  rw [CopyTyped] at hcopy
  cases ht : (enterFreely ⟨κ, []⟩ x.site.next (bindArguments x.params x.args) x.body).result with
  | error e =>
    rw [ht] at hcopy
    exact hcopy.trans (hagain.error e ht).symm
  | ok v =>
    rw [ht] at hcopy
    obtain ⟨body, houtcome, hbody⟩ := hcopy
    -- Both bodies are the same, and so are the bindings of the parameters.
    obtain ⟨c, hc, hbinds, hbody'⟩ := hagain.ok v ht
    rw [Block.renumber_id, Block.renumber_id] at hbody hbody'
    exact houtcome.trans (Eq.trans (by rw [← hbinds, hbody, ← hbody']) hc.symm)

/-- Two calls of one function with arguments of the same types come to the same. -/
private theorem SharedCall.Sound.again_alike {x y : SharedCall} {M : Heap} (hx : x.Sound id M)
    (hy : y.Sound id M) (hslot : x.slot = y.slot) {args args' : List Expr}
    (hlength : args.length = x.params.length) (htys : args'.map Expr.ty? = args.map Expr.ty?) :
    SameOutcome (x.again args).1 (y.again args').1 := by
  -- Both calls found the function in the same slot, with the same place of its captured scope.
  obtain ⟨hinside, -, κ, hdepth, hsite, hM, -⟩ := hx
  obtain ⟨hinside', -, κ', hdepth', hsite', hM', -⟩ := hy
  obtain ⟨site, depth, params, body, captured, _, _, _⟩ := x
  obtain ⟨site', depth', params', body', captured', _, _, _⟩ := y
  cases hslot
  -- The function stands for one entry, since both calls have found it and nothing has changed it.
  cases Entry.Shown.unique (.function params body κ) (.function params body κ') hM hM'
  have hlength' : args'.length = params.length := (length_of_tys htys).trans hlength
  -- Without their numbers, all bindings are as ahead of one another as those from zero on.
  have hagain := SharedCall.again_agrees (φ := fun _ => 0) hinside hdepth hsite 0 (fun _ => rfl) hlength rfl
  have hagain' := SharedCall.again_agrees (φ := fun _ => 0) hinside' hdepth' hsite' 0 (fun _ => rfl) hlength'
    htys
  exact hagain.alike htys hagain'

/-- A call that is made once more leaves the captured scope as it is. -/
private theorem SharedCall.Sound.again_keeps {x : SharedCall} {M : Heap} (hx : x.Sound id M)
    {args : List Expr} (hlength : args.length = x.params.length) :
    (x.again args).2.scope x.captured = x.site.scope x.captured := by
  obtain ⟨hinside, -, κ, hdepth, hsite, -⟩ := hx
  have hagain := SharedCall.again_agrees (φ := id) hinside hdepth hsite x.site.next (fun _ => rfl) hlength rfl
  obtain ⟨r, hr, hrest, -⟩ := hsite
  cases hr
  exact hagain.frame.scope_eq hrest.2.1

/-- Calls are independent.  On shared scopes, typing comes to what typing comes to.  Each call leaves the
captured scope of its function with the bindings that it had, and so do all calls together.  Two calls of one
function with arguments of the same types come to the same, wherever they are and whatever was typed in
between: those that were made, and those that could have been made in their place. -/
theorem calls_independent (h : Host) (b : Block) :
    (b.shareProgram h).1 =
        (match b.annotate h with
        | (tree, none) => .ok tree
        | (_, some e) => .error e)
    ∧ (∀ x ∈ (b.shareProgram h).2.calls,
        x.outcome = (x.again x.args).1
        ∧ x.left.scope x.captured = x.site.scope x.captured
        ∧ (b.shareProgram h).2.scope x.captured = x.site.scope x.captured)
    ∧ ∀ x ∈ (b.shareProgram h).2.calls, ∀ y ∈ (b.shareProgram h).2.calls, x.slot = y.slot →
        (x.args.map Expr.ty? = y.args.map Expr.ty? → SameOutcome x.outcome y.outcome)
        ∧ ∀ args args' : List Expr, args.length = x.params.length →
          args.map Expr.ty? = args'.map Expr.ty? →
            SameOutcome (x.again args).1 (y.again args').1
            ∧ (x.again args).2.scope x.captured = x.site.scope x.captured := by
  obtain ⟨herror, hok, hcalls⟩ := b.shareProgram_agrees h
  refine ⟨?_, fun x hx => ?_, fun x hx y hy hslot => ⟨fun htys => ?_, fun args args' hlength htys => ?_⟩⟩
  -- Shared typing comes to typing that enters freely, which is what typing is.
  · rw [Block.annotate]
    dsimp only
    rw [annotateIn_enterFreely h b]
    cases hresult : (b.annotateIn enterFreely h.entryScope.1.push h.entryScope.2).result with
    | error e => exact herror e hresult
    | ok v => exact hok v hresult
  -- A noted call came to what it comes to again, and its captured scope kept its bindings.
  · have hsound := hcalls x hx
    refine ⟨hsound.outcome_eq, ?_⟩
    obtain ⟨-, -, κ, -, ⟨r, hr, hrest, -⟩, -, hscope, hleft, -⟩ := hsound
    cases hr
    exact ⟨hleft x.captured hrest.2.1, hscope⟩
  -- Two noted calls are made once more, and are alike then.
  · rw [(hcalls x hx).outcome_eq, (hcalls y hy).outcome_eq]
    exact (hcalls x hx).again_alike (hcalls y hy) hslot (hcalls x hx).2.1 htys.symm
  · exact ⟨(hcalls x hx).again_alike (hcalls y hy) hslot hlength htys.symm, (hcalls x hx).again_keeps hlength⟩

/-- A function that is called twice has one captured scope; it stands behind those of the host's functions. -/
example :
    let one : Expr := .const { span := {}, ty := some .int } (.int 1)
    let call : Stmt := .eval {} (.call { span := {} } "same" {} [one] .unresolved)
    let body : Block := .mk [] [.ret {} (.var { span := {} } "x" none)] {}
    let script : Block := .mk [] [.funcDef {} "same" {} [{ name := "x", span := {} }] body, call, call] {}
    (script.shareProgram ⟨[]⟩).2.calls.map (fun x => (x.captured, x.args.map Expr.ty?))
      = [(Host.achronal.length + 1, [some .int]), (Host.achronal.length + 1, [some .int])] := by
  decide +kernel

end AisScript
