import AisScript.Proofs.Showing
import AisScript.Proofs.TypingSound

/-!
# Typing on shared scopes does what typing does

Typing with scopes that are changed in place is compared with typing that hands scopes on.  Both stand at the
same place if the current scope shows what the other scope does and both have the same numbers ahead, as far
as a renumbering tells.  From there on they come to the same, and typing leaves scopes behind as it has found
them: an expression or a block leaves all of them unchanged, a statement changes only the innermost frame of
the current one.  New scopes stand behind the old ones.

* `Shared.Keeps`, `Shared.Moves`   what typing leaves unchanged
* `Agrees`                         computations that come to the same
* `EnterAgrees`                    calls come to the same
* `Expr.share_agrees`, `Block.share_agrees`   typing comes to the same
-/

namespace AisScript

variable {φ : Nat → Nat}

/-! ## What stays -/

/-- What comes of a private copy on shared scopes, where its parameters are numbered from `n` on: the same
error, or the parameters bound to the arguments and the body typed as it is otherwise. -/
def CopyTyped (φ : Nat → Nat) (n : Nat) (ps : List Param) (args : List Expr)
    (outcome : Except SemanticError (List Assign × Block)) (t : Typed (List Assign × Block) Unit) : Prop :=
  match t.result with
  | .error e => outcome = .error e
  | .ok () => ∃ body, outcome = .ok (numberBinds n (bindArguments ps args), body) ∧
      body.renumber φ = t.tree.2.renumber φ

/-- A noted call that left all scopes as they were, whose function still stands for what it stood for, on the
scope as it was, which could nest as many levels as it needs, and of which came what comes otherwise. -/
def SharedCall.Sound (φ : Nat → Nat) (M : Heap) (x : SharedCall) : Prop :=
  x.site.current < x.site.count ∧ x.args.length = x.params.length ∧
  ∃ κ, frameLevel κ + x.body.definitions < x.depth ∧
    (Entry.function x.params x.body κ).Shown φ x.site x.slot ∧
    (Entry.function x.params x.body κ).Shown φ M x.slot ∧ M.scope x.captured = x.site.scope x.captured ∧
    (∀ r, r < x.site.count → x.left.scope r = x.site.scope r) ∧
    CopyTyped φ x.site.next x.params x.args x.outcome
      (enterFreely ⟨κ, []⟩ x.site.next (bindArguments x.params x.args) x.body)

/-- A noted call stays sound as long as what is at rest stays as it is. -/
theorem SharedCall.Sound.kept {M M' : Heap} {x : SharedCall} (hx : x.Sound φ M) (h : M.KeepsRest M') :
    x.Sound φ M' := by
  obtain ⟨hinside, hlength, κ, hdepth, hsite, hM, hscope, hleft, hcopy⟩ := hx
  refine ⟨hinside, hlength, κ, hdepth, hsite, Entry.Shown.kept h _ hM, ?_, hleft, hcopy⟩
  obtain ⟨r, hr, hrest, -⟩ := hM
  cases hr
  rw [(h x.captured hrest).2, hscope]

namespace Shared

/-- Statements may be typed here: the current scope has been captured by no function, or has a frame of its
own for the call that is under way. -/
def Open (M : Shared) : Prop := M.current < M.count ∧ (M.current = 0 ∨ M.here.outer ≠ [])

/-- All scopes are left as they are, but for the innermost frame of the current one. -/
structure Moves (φ : Nat → Nat) (M M' : Shared) : Prop where
  current : M'.current = M.current
  count : M.count ≤ M'.count
  scope : ∀ r, r < M.count → r ≠ M.current → M'.scope r = M.scope r
  outer : (M'.scope M.current).outer = M.here.outer
  calls : ∃ new, M'.calls = new ++ M.calls ∧ ∀ x ∈ new, x.Sound φ M'.toHeap

/-- All scopes are left as they are. -/
structure Keeps (φ : Nat → Nat) (M M' : Shared) : Prop extends M.Moves φ M' where
  here : M'.scope M.current = M.here

variable {M M' M'' : Shared}

/-- Nothing is changed. -/
theorem Keeps.refl (M : Shared) : M.Keeps φ M :=
  ⟨⟨rfl, Nat.le_refl _, fun _ _ _ => rfl, rfl, [], rfl, List.forall_mem_nil _⟩, rfl⟩

/-- No scope is changed. -/
theorem Keeps.scope_eq (h : M.Keeps φ M') {r : Nat} (hr : r < M.count) : M'.scope r = M.scope r := by
  by_cases hc : r = M.current
  · rw [hc]; exact h.here
  · exact h.scope r hr hc

/-- What is at rest stays as it is. -/
theorem Keeps.keepsRest (h : M.Keeps φ M') : M.KeepsRest M'.toHeap :=
  .of_scope h.count fun _ hr => h.scope_eq hr.2.1

/-- The current scope is not at rest. -/
private theorem Open.not_atRest (h : M.Open) : ¬ M.AtRest M.current := by
  rintro ⟨hpos, -, houter⟩
  rcases h.2 with hzero | hne
  · omega
  · exact hne houter

/-- What is at rest stays as it is, since the current scope is not. -/
theorem Moves.keepsRest (h : M.Moves φ M') (hM : M.Open) : M.KeepsRest M'.toHeap := by
  refine .of_scope h.count fun r hr => h.scope r hr.2.1 ?_
  rintro rfl
  exact hM.not_atRest hr

/-- Statements may be typed behind. -/
theorem Moves.isOpen (h : M.Moves φ M') (hM : M.Open) : M'.Open := by
  refine ⟨h.current ▸ Nat.lt_of_lt_of_le hM.1 h.count, ?_⟩
  rw [Heap.here, h.current, h.outer]
  exact hM.2

private theorem calls_trans (h : ∃ new, M'.calls = new ++ M.calls ∧ ∀ x ∈ new, x.Sound φ M'.toHeap)
    (h' : ∃ new, M''.calls = new ++ M'.calls ∧ ∀ x ∈ new, x.Sound φ M''.toHeap)
    (hrest : M'.KeepsRest M''.toHeap) :
    ∃ new, M''.calls = new ++ M.calls ∧ ∀ x ∈ new, x.Sound φ M''.toHeap := by
  obtain ⟨new, hcalls, hnew⟩ := h
  obtain ⟨new', hcalls', hnew'⟩ := h'
  refine ⟨new' ++ new, by rw [hcalls', hcalls, List.append_assoc], fun x hx => ?_⟩
  rcases List.mem_append.mp hx with hx | hx
  · exact hnew' x hx
  · exact (hnew x hx).kept hrest

/-- One change after another. -/
theorem Moves.trans (hM : M.Open) (h : M.Moves φ M') (h' : M'.Moves φ M'') : M.Moves φ M'' := by
  have hM' := h.isOpen hM
  refine ⟨h'.current.trans h.current, Nat.le_trans h.count h'.count, fun r hr hne => ?_, ?_,
    calls_trans h.calls h'.calls (h'.keepsRest hM')⟩
  · rw [h'.scope r (Nat.lt_of_lt_of_le hr h.count) (h.current ▸ hne), h.scope r hr hne]
  · have houter := h'.outer
    rw [Heap.here, h.current] at houter
    rw [houter, h.outer]

/-- A change after nothing was changed. -/
private theorem Keeps.trans_moves (hM : M.Open) (h : M.Keeps φ M') (h' : M'.Moves φ M'') : M.Moves φ M'' :=
  h.toMoves.trans hM h'

/-- Nothing is changed, twice. -/
theorem Keeps.trans (h : M.Keeps φ M') (h' : M'.Keeps φ M'') : M.Keeps φ M'' := by
  have hhere : M''.scope M.current = M.here := by
    have hhere := h'.here
    rw [Heap.here, h.current] at hhere
    rw [hhere, h.here]
  refine ⟨⟨h'.current.trans h.current, Nat.le_trans h.count h'.count, fun r hr hne => ?_,
    congrArg Scope.outer hhere, calls_trans h.calls h'.calls h'.keepsRest⟩, hhere⟩
  rw [h'.scope_eq (Nat.lt_of_lt_of_le hr h.count), h.scope r hr hne]

end Shared

/-! ## Computations that come to the same -/

namespace Sharing

variable {α β : Type} {m : Sharing α} {M : Shared}

/-- A computation that fails in its first part. -/
private theorem bind_of_error (k : α → Sharing β) {e : SemanticError} (h : (m M).1 = .error e) :
    (m >>= k) M = (.error e, (m M).2) := by
  change Sharing.andThen m k M = _
  unfold Sharing.andThen
  generalize m M = p at h ⊢
  obtain ⟨x, M'⟩ := p
  cases h
  rfl

/-- A computation that goes on from its first part. -/
theorem bind_of_ok (k : α → Sharing β) {a : α} (h : (m M).1 = .ok a) : (m >>= k) M = k a (m M).2 := by
  change Sharing.andThen m k M = _
  unfold Sharing.andThen
  generalize m M = p at h ⊢
  obtain ⟨x, M'⟩ := p
  cases h
  rfl

end Sharing

/-- A computation on shared scopes comes to the same as another: it fails with the same error, or it succeeds
and the results are related.  What it leaves unchanged, it leaves unchanged in both cases. -/
structure Agrees {α β : Type} (F : Shared → Shared → Prop) (R : α → β → Shared → Prop) (M : Shared)
    (m : Sharing α) (r : Except SemanticError β) : Prop where
  frame : F M (m M).2
  error : ∀ e, r = .error e → (m M).1 = .error e
  ok : ∀ v, r = .ok v → ∃ a, (m M).1 = .ok a ∧ R a v (m M).2

namespace Agrees

variable {α β γ δ : Type} {F F' : Shared → Shared → Prop} {R : α → β → Shared → Prop}
  {Q : γ → δ → Shared → Prop} {M : Shared} {m : Sharing α} {r : Except SemanticError β} {k : α → Sharing γ}
  {r' : Except SemanticError δ}

/-- Both succeed. -/
theorem pure {a : α} {v : β} (hF : F M M) (h : R a v M) : Agrees F R M (pure a) (.ok v) :=
  ⟨hF, fun _ => nofun, fun _ hv => by cases hv; exact ⟨a, rfl, h⟩⟩

/-- Both fail. -/
theorem raise {e : SemanticError} (hF : F M M) : Agrees F R M (Sharing.raise e) (.error e) :=
  ⟨hF, fun _ he => by cases he; rfl, fun _ => nofun⟩

/-- Both fail in the middle. -/
theorem bind_error (h : Agrees F R M m r) {e : SemanticError} (hr : r = .error e) (hr' : r' = .error e) :
    Agrees F Q M (m >>= k) r' := by
  have hbind := Sharing.bind_of_error k (h.error e hr)
  subst hr'
  exact ⟨hbind ▸ h.frame, fun _ he => by cases he; rw [hbind], fun _ => nofun⟩

/-- Both go on from results that are related. -/
theorem bind_ok (hF : ∀ {M' M''}, F M M' → F' M' M'' → F' M M'') (h : Agrees F R M m r) {v : β}
    (hr : r = .ok v) (hk : ∀ a M', F M M' → R a v M' → Agrees F' Q M' (k a) r') :
    Agrees F' Q M (m >>= k) r' := by
  obtain ⟨a, hm, hR⟩ := h.ok v hr
  have hbind := Sharing.bind_of_ok k hm
  have h' := hk a (m M).2 h.frame hR
  exact ⟨hbind ▸ hF h.frame h'.frame, fun e he => hbind ▸ h'.error e he, fun v hv => hbind ▸ h'.ok v hv⟩

/-- What agrees also agrees on less. -/
theorem mono {R' : α → β → Shared → Prop} (h : Agrees F R M m r) (hF : ∀ {M'}, F M M' → F' M M')
    (hR : ∀ {a v M'}, F M M' → R a v M' → R' a v M') : Agrees F' R' M m r :=
  ⟨hF h.frame, h.error, fun v hv =>
    have ⟨a, hm, ha⟩ := h.ok v hv
    ⟨a, hm, hR h.frame ha⟩⟩

/-- What agrees agrees on the result that is there. -/
theorem exactly (h : Agrees F R M m r) {a : α} (hm : (m M).1 = .ok a) :
    Agrees F (fun x v M' => x = a ∧ R x v M') M m r := by
  refine ⟨h.frame, h.error, fun v hv => ?_⟩
  obtain ⟨a', ha', hR⟩ := h.ok v hv
  rw [hm] at ha'
  cases ha'
  exact ⟨a, hm, rfl, hR⟩

end Agrees

/-! ## Standing at the same place -/

/-- The same numbers lie ahead, as far as a renumbering tells. -/
def SameAhead (φ : Nat → Nat) (n n' : Nat) : Prop := ∀ k, φ (n + k) = φ (n' + k)

/-- The same numbers lie behind the next one. -/
theorem SameAhead.succ {n n' : Nat} (h : SameAhead φ n n') : SameAhead φ (n + 1) (n' + 1) := fun k => by
  rw [Nat.add_assoc, Nat.add_assoc]
  exact h (1 + k)

/-- The next number is the same. -/
theorem SameAhead.now {n n' : Nat} (h : SameAhead φ n n') : φ n = φ n' := h 0

/-- Typing on shared scopes stands where typing stands that hands a scope on. -/
structure Shared.Stands (φ : Nat → Nat) (M : Shared) (σ : Scope Entry) (next : Nat) : Prop where
  shown : σ.Shown φ M.toHeap M.here
  ahead : SameAhead φ M.next next
  inside : M.current < M.count

section Steps

variable {M M' : Shared} {σ : Scope Entry} {next next' : Nat}

/-- What is left as it is shows the same. -/
theorem Shared.Stands.kept (h : M.Stands φ σ next) (hM : M.Keeps φ M') (hnext : SameAhead φ M'.next next') :
    M'.Stands φ σ next' := by
  refine ⟨?_, hnext, hM.current ▸ Nat.lt_of_lt_of_le h.inside hM.count⟩
  rw [Heap.here, hM.current, hM.here]
  exact h.shown.kept hM.keepsRest

/-- Binding a name changes the innermost frame of the current scope. -/
theorem define_agrees (hM : M.Open) (h : M.Stands φ σ next) (n : Text) {e : Entry} {s : Slot}
    (he : e.Shown φ M.toHeap s) :
    Agrees (Shared.Moves φ) (fun _ _ M' => M'.Stands φ (σ.define n e) next) M (Sharing.define n s)
      (.ok ()) := by
  -- Only the current scope changes, and of it only the innermost frame.
  have hmoves : M.Moves φ { M with toHeap := M.change M.current (M.here.define n s) } :=
    ⟨rfl, Nat.le_refl _, fun _ _ hne => M.scope_change_of_ne _ hne,
      (congrArg Scope.outer (M.scope_change M.current _)).trans rfl, [], rfl, List.forall_mem_nil _⟩
  refine ⟨hmoves, fun _ => nofun, ?_⟩
  rintro _ ⟨⟩
  refine ⟨(), rfl, ?_, h.ahead, h.inside⟩
  -- All other scopes at rest stay as they are, so what they show stays.
  have hrest := hmoves.keepsRest hM
  have hhere : (Sharing.define n s M).2.here = M.here.define n s := M.scope_change M.current _
  rw [hhere]
  exact (h.shown.kept hrest).define n (Entry.Shown.kept hrest e he)

/-- Taking a number changes no scope. -/
private theorem number_agrees (h : M.Stands φ σ next) :
    Agrees (Shared.Keeps φ) (fun id _ M' => φ id = φ next ∧ M'.Stands φ σ (next + 1)) M Sharing.number
      (.ok ()) :=
  have hkeeps : M.Keeps φ { M with next := M.next + 1 } :=
    ⟨⟨rfl, Nat.le_refl _, fun _ _ _ => rfl, rfl, [], rfl, List.forall_mem_nil _⟩, rfl⟩
  ⟨hkeeps, fun _ => nofun, fun _ _ => ⟨M.next, rfl, h.ahead.now, h.kept hkeeps h.ahead.succ⟩⟩

/-- Looking a name up changes nothing. -/
private theorem find_agrees (h : M.Stands φ σ next) (n : Text) :
    Agrees (Shared.Keeps φ) (fun s _ M' => M' = M ∧ SameMeaning φ M.toHeap (σ.lookup n) s) M (Sharing.find n)
      (.ok ()) :=
  ⟨.refl M, fun _ => nofun, fun _ _ => ⟨_, rfl, rfl, h.shown.lookup n⟩⟩

/-- A snapshot stands behind all scopes, and at rest. -/
private theorem snapshot_agrees (hM : M.Open) (h : M.Stands φ σ next) :
    Agrees (Shared.Keeps φ) (fun r _ M' => M'.Stands φ σ next ∧ M'.AtRest r ∧
      frameShown φ M'.toHeap σ.snapshot.inner (M'.scope r).inner) M Sharing.snapshot (.ok ()) := by
  -- The new scope stands behind all others, so none of them changes.
  have hold : ∀ {r}, r < M.count → (M.change M.count M.here.snapshot).scope r = M.scope r :=
    fun hr => M.scope_change_of_ne _ (Nat.ne_of_lt hr)
  have hnew := M.scope_change M.count M.here.snapshot
  have hkeeps : M.Keeps φ
      { M with toHeap := { M.change M.count M.here.snapshot with count := M.count + 1 } } :=
    ⟨⟨rfl, Nat.le_succ _, fun _ hr _ => hold hr, congrArg Scope.outer (hold hM.1), [], rfl,
      List.forall_mem_nil _⟩, hold hM.1⟩
  refine ⟨hkeeps, fun _ => nofun, fun _ _ => ⟨M.count, rfl, h.kept hkeeps h.ahead, ?_, ?_⟩⟩
  -- The new scope has no frame below it, so it is at rest.
  · refine ⟨Nat.lt_of_le_of_lt (Nat.zero_le _) hM.1, Nat.lt_succ_self _, ?_⟩
    exact congrArg Scope.outer hnew
  -- It shows what the current scope shows from the inside out.
  · have hinner : ((Sharing.snapshot M).2.scope M.count).inner = M.here.snapshot.inner :=
      congrArg Scope.inner hnew
    rw [hinner]
    exact frameShown_kept hkeeps.keepsRest _ h.shown.snapshot

end Steps

/-! ## Frames -/

section Frames

variable {M M' : Shared} {σ : Scope Entry} {next : Nat}

/-- Statements may be typed in a frame that is opened. -/
theorem Shared.isOpen_pushed (hM : M.current < M.count) : M.pushed.Open := by
  have hhere : M.pushed.here = M.here.push := M.scope_change M.current _
  exact ⟨hM, .inr (hhere ▸ nofun)⟩

/-- Both open a frame. -/
theorem Shared.Stands.pushed (h : M.Stands φ σ next) (hM : M.Open) : M.pushed.Stands φ σ.push next := by
  have hhere : M.pushed.here = M.here.push := M.scope_change M.current _
  -- The frame is opened on a scope that is not at rest, so everything captured shows what it did.
  have hrest : M.KeepsRest M.pushed.toHeap := by
    refine .of_scope (Nat.le_refl _) fun r hr => M.scope_change_of_ne _ ?_
    rintro rfl
    exact hM.not_atRest hr
  refine ⟨?_, h.ahead, h.inside⟩
  rw [hhere]
  exact (h.shown.kept hrest).push

/-- A frame that was opened and is closed leaves all scopes as they are. -/
theorem Shared.Moves.popped (hM : M.current < M.count) (h : M.pushed.Moves φ M') : M.Keeps φ M'.popped := by
  have hne : ∀ {r}, r ≠ M'.current → M'.popped.scope r = M'.scope r := fun hr => M'.scope_change_of_ne _ hr
  have hcurrent : M'.current = M.current := h.current
  -- Whatever was bound in the frame, what was below it is what it was.
  have hhere : M'.popped.scope M.current = M.here := by
    have houter : (M'.scope M.current).outer = M.here.inner :: M.here.outer := by
      have hpushed : M.pushed.here = M.here.push := M.scope_change M.current _
      exact h.outer.trans (congrArg Scope.outer hpushed)
    have hpopped : M'.popped.scope M'.current = M'.here.popped := M'.scope_change M'.current _
    rw [← hcurrent, hpopped, Heap.here, hcurrent]
    simp only [Scope.popped, Scope.pop?, houter, Option.getD_some]
  refine ⟨⟨hcurrent, h.count, fun r hr hr' => ?_, congrArg Scope.outer hhere, ?_⟩, hhere⟩
  -- The other scopes were not changed inside, and neither by opening and closing the frame.
  · rw [hne (hcurrent ▸ hr'), h.scope r hr hr']
    exact M.scope_change_of_ne _ hr'
  -- The calls noted in between are kept: they point to scopes at rest, and the current one is open.
  · obtain ⟨new, hcalls, hnew⟩ := h.calls
    have hopen := h.isOpen (Shared.isOpen_pushed hM)
    refine ⟨new, hcalls, fun x hx => (hnew x hx).kept (.of_scope (Nat.le_refl _) fun r hr => hne ?_)⟩
    rintro rfl
    exact hopen.not_atRest hr

/-- Typing in a frame of its own. -/
theorem Agrees.inFrame {α β : Type} {m : Sharing α} {r : Except SemanticError β} {P : α → β → Nat → Prop}
    (hM : M.Open) (h : Agrees (Shared.Moves φ) (fun a v M' => P a v M'.next) M.pushed m r) :
    Agrees (Shared.Keeps φ) (fun a v M' => P a v M'.next) M (Sharing.inFrame m) r :=
  ⟨h.frame.popped hM.1, h.error, h.ok⟩

end Frames

/-! ## Calls -/

/-- Calls on shared scopes come to the same as calls of functions that keep what they have captured, if they
need no more than `w` levels.  The arguments may differ as long as they are of the same types. -/
def EnterAgrees (φ : Nat → Nat) (w : Nat) (enter : EnterShared) : Prop :=
  ∀ (M : Shared) (next : Nat) (ps : List Param) (body : Block) (r : Nat) (κ : List (Text × Entry))
    (args args' : List Expr), M.current < M.count → M.AtRest r → frameShown φ M.toHeap κ (M.scope r).inner →
    frameLevel κ + body.definitions < w → SameAhead φ M.next next → args'.length = ps.length →
    args'.map Expr.ty? = args.map Expr.ty? →
    Agrees (Shared.Keeps φ)
      (fun x _ M' =>
        let t := enterFreely ⟨κ, []⟩ next (bindArguments ps args) body
        x.1 = numberBinds M.next (bindArguments ps args') ∧
          t.tree.1 = numberBinds next (bindArguments ps args) ∧
          x.2.renumber φ = t.tree.2.renumber φ ∧ SameAhead φ M'.next t.next)
      M (enter ps body r args') (enterFreely ⟨κ, []⟩ next (bindArguments ps args) body).result

/-- Parameters bound to arguments that are the same but for numbers. -/
private theorem renumberAssigns_numberBinds {n n' : Nat} (h : SameAhead φ n n') (ps : List Param)
    {es es' : List Expr} (hes : renumberList φ es = renumberList φ es') :
    renumberAssigns φ (numberBinds n (bindArguments ps es))
      = renumberAssigns φ (numberBinds n' (bindArguments ps es')) := by
  -- Parameter by parameter; the numbers given to them are matched by `SameAhead`.
  induction ps generalizing es es' n n' with
  | nil => rfl
  | cons p ps ih =>
    -- Missing arguments are missing in both.
    cases es with
    | nil =>
      cases es' with
      | nil => rfl
      | cons _ _ => exact nomatch hes
    | cons e es =>
      cases es' with
      | nil => exact nomatch hes
      | cons e' es' =>
        rw [renumberList, renumberList, List.cons.injEq] at hes
        have hbind := ih h.succ hes.2
        -- The head's parameter has the next number in both, and the argument's place and type agree.
        simp only [bindArguments, List.zipWith_cons_cons, numberBinds, renumberAssigns, Assign.renumber,
          AssignInfo.renumber, Option.map_some, Binding.renumber, Binding.variable, h.now, hes.1,
          Expr.span_of_renumber hes.1, Expr.ty?_of_renumber hes.1] at hbind ⊢
        rw [hbind]

/-! ## Expressions -/

section Expressions

variable {enter : EnterShared} {w : Nat} {σ : Scope Entry}

/-- An expression on shared scopes is typed as it is typed otherwise. -/
abbrev ExprAgrees (φ : Nat → Nat) (M : Shared) (m : Sharing (Expr × Ty)) (t : Typed Expr Ty) : Prop :=
  Agrees (Shared.Keeps φ)
    (fun x v M' => x.1.renumber φ = t.tree.renumber φ ∧ x.2 = v ∧ SameAhead φ M'.next t.next) M m t.result

/-- A demand for a value comes to the same. -/
theorem ExprAgrees.valued {M : Shared} {m : Sharing (Expr × Ty)} {t : Typed Expr Ty} (h : ExprAgrees φ M m t) :
    ExprAgrees φ M (Sharing.valued m) t.asValue := by
  -- A value that is not void passes the demand as it is.
  have hvoid : ∀ {v}, t.result = .ok v → v ≠ .void → t.asValue.result = .ok v := fun hv hne => by
    simp only [Typed.asValue, hv]
    split
    · rename_i heq; cases heq; exact absurd rfl hne
    · exact hv
  cases ht : t.result with
  -- An expression of type void is described by the same words in both reports.
  | error e => exact h.bind_error ht (by simp only [Typed.asValue, ht])
  | ok v =>
    refine h.bind_ok Shared.Keeps.trans ht fun (e, _) M' _ hx => ?_
    obtain ⟨he, rfl, hnext⟩ := hx
    dsimp only at he ⊢
    split
    · rename_i hv
      subst hv
      simp only [Typed.asValue, ht, Expr.describe_of_renumber he, Expr.span_of_renumber he]
      exact .raise (.refl M')
    · rename_i hv
      rw [hvoid ht hv]
      refine .pure (.refl M') ⟨?_, rfl, ?_⟩
      · rw [Typed.tree_asValue]; exact he
      · rw [Typed.next_asValue]; exact hnext

/-- A demand for a value of an accepted type comes to the same. -/
theorem ExprAgrees.demanding {accepts : Ty → Prop} [DecidablePred accepts] {cause : Ty → SemanticCause}
    {M : Shared} {m : Sharing (Expr × Ty)} {t : Typed Expr Ty} (h : ExprAgrees φ M m t) :
    ExprAgrees φ M (Sharing.demanding accepts cause m) (t.demanding accepts cause) := by
  cases ht : t.asValue.result with
  -- Where no value is found, the type is not looked at.
  | error e =>
    have hdemanding : t.demanding accepts cause = t.asValue := by simp only [Typed.demanding, ht]
    rw [hdemanding]
    exact h.valued.bind_error ht ht
  | ok v =>
    -- With a value the verdict depends on its type alone.
    have hdemanding : (t.demanding accepts cause).result =
        if accepts v then .ok v else .error ⟨cause v, t.asValue.tree.span⟩ := by
      simp only [Typed.demanding, ht]
      split
      · exact ht
      · rfl
    rw [ExprAgrees, hdemanding]
    refine h.valued.bind_ok Shared.Keeps.trans ht fun x M' _ hx => ?_
    obtain ⟨e, v'⟩ := x
    obtain ⟨he, rfl, hnext⟩ := hx
    dsimp only at he hnext ⊢
    split
    · refine .pure (.refl M') ⟨?_, rfl, ?_⟩
      · rw [Typed.tree_demanding, ← Typed.tree_asValue]; exact he
      · rw [Typed.next_demanding, ← Typed.next_asValue]; exact hnext
    -- A report points to the same place in both.
    · rw [Expr.span_of_renumber he]
      exact .raise (.refl M')

/-- The tree of a typed expression in a larger one. -/
private theorem ExprAgrees.tree {α : Type} {M : Shared} {m : Sharing (Expr × Ty)} {t : Typed Expr Ty}
    (h : ExprAgrees φ M m t) {g : Expr → α} {P : α → Prop}
    (hP : ∀ e, e.renumber φ = t.tree.renumber φ → P (g e)) :
    Agrees (Shared.Keeps φ) (fun x _ M' => P x ∧ SameAhead φ M'.next t.next) M
      (m >>= fun (e, _) => pure (g e)) (t.result.map fun _ => ()) := by
  cases ht : t.result with
  | error e => exact h.bind_error ht rfl
  | ok v =>
    refine h.bind_ok Shared.Keeps.trans ht fun (e, _) M' _ hx => ?_
    obtain ⟨he, -, hnext⟩ := hx
    exact .pure (.refl M') ⟨hP e he, hnext⟩

/-- Blocks that are the same but for numbers give values of one type back. -/
theorem Block.returnTy_of_renumber {b b' : Block} (h : b.renumber φ = b'.renumber φ) :
    b.returnTy = b'.returnTy := by
  have hty : ∀ x : Block, x.returnTy =
      match x.returned?.map Expr.ty? with
      | some t => t.getD .invalid
      | none => .void := fun x => by
    rw [Block.returnTy]
    cases x.returned? <;> rfl
  rw [hty, hty, Block.returned_of_renumber h]

/-- What a call means comes to the same. -/
private theorem shareCall_agrees (hE : EnterAgrees φ w enter) (hw : σ.level ≤ w) {M : Shared} {next : Nat}
    (h : M.Stands φ σ next) (i : ExprInfo) (n : Text) (ns : Span) {args args' : List Expr} (target : Target)
    (hargs : renumberList φ args' = renumberList φ args) (types : List Ty) :
    ExprAgrees φ M (shareCall enter i n ns args' types)
      (callTyped enterFreely σ next i n ns args target types) := by
  unfold shareCall callTyped
  -- The name of the function is looked up first, and it stands for the same in both.
  refine (find_agrees h n).bind_ok Shared.Keeps.trans rfl fun s M' _ hs => ?_
  obtain ⟨rfl, hs⟩ := hs
  have hlength := length_of_renumberList hargs
  -- Either nothing has the name, or the same kind of entry.
  rcases hs.cases with ⟨hn, rfl⟩ | ⟨entry, s, hn, rfl, he⟩
  · rw [hn]
    exact .raise (.refl _)
  · rw [hn]
    cases entry with
    -- Values cannot be called; the report does not mention their numbers.
    | value _ => obtain ⟨_, rfl, _⟩ := he; exact .raise (.refl _)
    -- A constructor only compares the number of arguments with that of the members.
    | bitfield layout =>
      cases he
      dsimp only
      split
      · exact .pure (.refl _) ⟨by simp only [Expr.renumber, Target.renumber, hargs], rfl, h.ahead⟩
      · exact .raise (.refl _)
    | intrinsic op =>
      cases he
      dsimp only
      cases op.check types with
      | error _ => exact .raise (.refl _)
      | ok _ => exact .pure (.refl _) ⟨by simp only [Expr.renumber, Target.renumber, hargs], rfl, h.ahead⟩
    -- A function is entered with its own scope, of which the arguments are independent.
    | function ps body κ =>
      obtain ⟨r, rfl, hrest, hκ⟩ := he
      dsimp only
      rw [hlength]
      split
      · exact .raise (.refl _)
      · rename_i hps
        -- A visible function is not above its scope, so there are levels enough for the copy.
        have hlevel := Scope.level_le_of_lookup hn
        rw [Entry.level] at hlevel
        -- The body is the same for scopes that show the same and for types that agree.
        have henter := hE M' next ps body r κ args args' h.inside hrest hκ (by omega) h.ahead
          (hlength.trans (Decidable.not_not.mp hps)) (tys_of_renumberList hargs)
        generalize enterFreely ⟨κ, []⟩ next (bindArguments ps args) body = t at henter
        cases ht : t.result with
        | error e => exact henter.bind_error ht rfl
        | ok _ =>
          refine henter.bind_ok Shared.Keeps.trans ht fun (binds, body') M₁ _ hx => ?_
          obtain ⟨hbinds', hbinds, hbody, hnext⟩ := hx
          -- The parameters are numbered differently, but in step with the numbers ahead.
          have hbinds : renumberAssigns φ binds = renumberAssigns φ t.tree.1 := by
            rw [hbinds, ← renumberAssigns_numberBinds h.ahead ps hargs]
            exact congrArg _ hbinds'
          have hty : body'.returnTy = t.tree.2.returnTy := Block.returnTy_of_renumber hbody
          refine .pure (.refl M₁) ⟨?_, hty, hnext⟩
          simp only [Expr.renumber, Target.renumber, hargs, hbinds, hbody]
          exact congrArg (fun x : Ty => Expr.call { i with ty := some x } n ns _ _) hty

mutual

/-- Typing an expression comes to the same. -/
theorem Expr.share_agrees (hE : EnterAgrees φ w enter) (hw : σ.level ≤ w) : (e : Expr) → {M : Shared} →
    {next : Nat} → M.Stands φ σ next → ExprAgrees φ M (e.share enter) (e.annotate enterFreely σ next)
  | .const _ _, M, _, h => .pure (.refl M) ⟨rfl, rfl, h.ahead⟩
  | .var i n b, M, next, h => by
    simp only [Expr.share, Expr.annotate]
    refine (find_agrees h n).bind_ok Shared.Keeps.trans rfl fun s M' _ hs => ?_
    obtain ⟨rfl, hs⟩ := hs
    -- A variable is found or not in both.
    rcases hs.cases with ⟨hn, rfl⟩ | ⟨entry, s, hn, rfl, he⟩
    · rw [hn]
      exact .raise (.refl _)
    · rw [hn]
      -- Only values can be read, and their binding has the same type.
      cases entry with
      | value b₀ =>
        obtain ⟨b', rfl, hb⟩ := he
        exact .pure (.refl _) ⟨by simp only [Expr.renumber, Option.map_some, hb, Binding.ty_of_renumber hb],
          Binding.ty_of_renumber hb, h.ahead⟩
      | function _ _ _ => obtain ⟨_, rfl, _⟩ := he; exact .raise (.refl _)
      | bitfield _ => cases he; exact .raise (.refl _)
      | intrinsic _ => cases he; exact .raise (.refl _)
  | .binary i op l r, M, next, h => by
    -- Left, right, and the type of the result; each step
    -- goes on in the scopes that the one before it kept.
    have hl := (l.share_agrees hE hw h).valued
    simp only [Expr.share, Expr.annotate]
    cases hlr : (l.annotate enterFreely σ next).asValue.result with
    | error e => exact hl.bind_error hlr rfl
    | ok lt =>
      refine hl.bind_ok Shared.Keeps.trans hlr fun (l', _) M₁ hM₁ hx => ?_
      obtain ⟨hl', rfl, hnext⟩ := hx
      dsimp only at hl' hnext hlr ⊢
      have hr := (r.share_agrees hE hw (h.kept hM₁ hnext)).valued
      generalize (l.annotate enterFreely σ next).asValue = a at *
      cases hrr : (r.annotate enterFreely σ a.next).asValue.result with
      | error e => exact hr.bind_error hrr rfl
      | ok rt =>
        refine hr.bind_ok Shared.Keeps.trans hrr fun (r', _) M₂ _ hx => ?_
        obtain ⟨hr', rfl, hnext⟩ := hx
        dsimp only at hr' hnext hrr ⊢
        cases op.resultTy _ _ with
        | error cause => exact .raise (.refl M₂)
        | ok t => exact .pure (.refl M₂) ⟨by simp only [Expr.renumber, hl', hr'], rfl, hnext⟩
  | .unary i op x, M, next, h => by
    -- The operand, then the type of the result.
    have hx := (x.share_agrees hE hw h).valued
    simp only [Expr.share, Expr.annotate]
    cases hxr : (x.annotate enterFreely σ next).asValue.result with
    | error e => exact hx.bind_error hxr rfl
    | ok xt =>
      refine hx.bind_ok Shared.Keeps.trans hxr fun (x', _) M₁ _ hx => ?_
      obtain ⟨hx', rfl, hnext⟩ := hx
      dsimp only at hx' hnext hxr ⊢
      cases op.resultTy _ with
      | error cause => exact .raise (.refl M₁)
      | ok t => exact .pure (.refl M₁) ⟨by simp only [Expr.renumber, hx'], rfl, hnext⟩
  | .call i n ns args target, M, next, h => by
    -- The arguments are typed in the scope of the caller, then the call itself.
    have ha := shareArgs_agrees hE hw args h
    simp only [Expr.share, Expr.annotate]
    cases har : (annotateArgs enterFreely σ next args).result with
    | error e => exact ha.bind_error har rfl
    | ok types =>
      refine ha.bind_ok Shared.Keeps.trans har fun (args', _) M₁ hM₁ hx => ?_
      obtain ⟨hargs', rfl, hnext⟩ := hx
      exact shareCall_agrees hE hw (h.kept hM₁ hnext) i n ns target hargs' _
  | .member i access b n ns, M, next, h => by
    -- The base, then the type of the member.
    have hb := (b.share_agrees hE hw h).valued
    simp only [Expr.share, Expr.annotate]
    cases hbr : (b.annotate enterFreely σ next).asValue.result with
    | error e => exact hb.bind_error hbr rfl
    | ok bt =>
      refine hb.bind_ok Shared.Keeps.trans hbr fun (b', _) M₁ _ hx => ?_
      obtain ⟨hb', rfl, hnext⟩ := hx
      dsimp only at hb' hnext hbr ⊢
      cases memberTy access _ n ns i.span with
      | error e => exact .raise (.refl M₁)
      | ok t => exact .pure (.refl M₁) ⟨by simp only [Expr.renumber, hb'], rfl, hnext⟩
  | .query i k op u x c, M, next, h => by
    -- What is wrong with the words of a query is found before any part is typed.
    simp only [Expr.share, Expr.annotate]
    cases nestedBestMove? (.query i k op u x c) with
    | some part => exact .raise (.refl M)
    | none =>
      cases queryWordsFault? k op with
      | some cause => exact .raise (.refl M)
      | none =>
        dsimp only
        -- The unit first.
        have hu := shareUnit_agrees hE hw u h
        cases hur : (annotateUnit enterFreely σ next u).result with
        | error e => exact hu.bind_error hur rfl
        | ok _ =>
          refine hu.bind_ok Shared.Keeps.trans hur fun u' M₁ hM₁ hx => ?_
          obtain ⟨hu', hnext⟩ := hx
          have h₁ := h.kept hM₁ hnext
          generalize annotateUnit enterFreely σ next u = a at *
          -- Then the operand.
          have hx := shareOperand_agrees hE hw x h₁
          dsimp only
          cases hxr : (annotateOperand enterFreely σ a.next x).result with
          | error e => exact hx.bind_error hxr rfl
          | ok _ =>
            refine hx.bind_ok Shared.Keeps.trans hxr fun x' M₂ hM₂ hx => ?_
            obtain ⟨hx', hnext⟩ := hx
            have h₂ := h₁.kept hM₂ hnext
            generalize annotateOperand enterFreely σ a.next x = b at *
            -- And the condition last.
            have hc := shareOperand_agrees hE hw c h₂
            dsimp only
            cases hcr : (annotateOperand enterFreely σ b.next c).result with
            | error e => exact hc.bind_error hcr rfl
            | ok _ =>
              refine hc.bind_ok Shared.Keeps.trans hcr fun c' M₃ _ hx => ?_
              obtain ⟨hc', hnext⟩ := hx
              exact .pure (.refl M₃) ⟨by simp only [Expr.renumber, hu', hx', hc'], rfl, hnext⟩

/-- Typing arguments comes to the same. -/
private theorem shareArgs_agrees (hE : EnterAgrees φ w enter) (hw : σ.level ≤ w) :
    (es : List Expr) → {M : Shared} → {next : Nat} → M.Stands φ σ next → Agrees (Shared.Keeps φ)
      (fun x v M' => renumberList φ x.1 = renumberList φ (annotateArgs enterFreely σ next es).tree ∧ x.2 = v ∧
        SameAhead φ M'.next (annotateArgs enterFreely σ next es).next)
      M (shareArgs enter es) (annotateArgs enterFreely σ next es).result
  -- Without arguments nothing is typed.
  | [], M, _, h => .pure (.refl M) ⟨rfl, rfl, h.ahead⟩
  | e :: es, M, next, h => by
    have he := (e.share_agrees hE hw h).valued
    simp only [shareArgs, annotateArgs]
    cases her : (e.annotate enterFreely σ next).asValue.result with
    | error err => exact he.bind_error her rfl
    | ok t =>
      refine he.bind_ok Shared.Keeps.trans her fun (e', _) M₁ hM₁ hx => ?_
      obtain ⟨he', rfl, hnext⟩ := hx
      dsimp only at he' hnext her ⊢
      -- The others are typed behind the first, in the same scope.
      have hes := shareArgs_agrees hE hw es (h.kept hM₁ hnext)
      generalize (e.annotate enterFreely σ next).asValue = a at *
      cases hesr : (annotateArgs enterFreely σ a.next es).result with
      | error err => exact hes.bind_error hesr rfl
      | ok ts =>
        refine hes.bind_ok Shared.Keeps.trans hesr fun (es', _) M₂ _ hx => ?_
        obtain ⟨hes', rfl, hnext⟩ := hx
        exact .pure (.refl M₂) ⟨by simp only [renumberList, he', hes'], rfl, hnext⟩

/-- Typing the unit of a query comes to the same. -/
private theorem shareUnit_agrees (hE : EnterAgrees φ w enter) (hw : σ.level ≤ w) :
    (e : Option Expr) → {M : Shared} → {next : Nat} → M.Stands φ σ next → Agrees (Shared.Keeps φ)
      (fun x _ M' => renumberOption φ x = renumberOption φ (annotateUnit enterFreely σ next e).tree ∧
        SameAhead φ M'.next (annotateUnit enterFreely σ next e).next)
      M (shareUnit enter e) (annotateUnit enterFreely σ next e).result
  | none, M, _, h => .pure (.refl M) ⟨rfl, h.ahead⟩
  | some e, M, next, h => by
    have he : ExprAgrees φ M (Sharing.demanding (· = .object) .queryUnit _) _ :=
      (e.share_agrees hE hw h).demanding
    simp only [annotateUnit, Typed.asQueryUnit_eq]
    exact he.tree fun e' he' => by rw [renumberOption, renumberOption, he']

/-- Typing an operand of a query comes to the same. -/
private theorem shareOperand_agrees (hE : EnterAgrees φ w enter) (hw : σ.level ≤ w) :
    (e : Option Expr) → {M : Shared} → {next : Nat} → M.Stands φ σ next → Agrees (Shared.Keeps φ)
      (fun x _ M' => renumberOption φ x = renumberOption φ (annotateOperand enterFreely σ next e).tree ∧
        SameAhead φ M'.next (annotateOperand enterFreely σ next e).next)
      M (shareOperand enter e) (annotateOperand enterFreely σ next e).result
  | none, M, _, h => .pure (.refl M) ⟨rfl, h.ahead⟩
  | some e, M, next, h => by
    have he : ExprAgrees φ M (Sharing.demanding (·.isNumeric = true) .queryOperand _) _ :=
      (e.share_agrees hE hw h).demanding
    simp only [annotateOperand, Typed.asQueryOperand_eq]
    exact he.tree fun e' he' => by rw [renumberOption, renumberOption, he']

end

end Expressions

/-! ## Assignments and clauses -/

/-- What agrees on leaving all scopes as they are agrees on leaving the others as they are. -/
theorem Agrees.moves {α β : Type} {R : α → β → Shared → Prop} {M : Shared} {m : Sharing α}
    {r : Except SemanticError β} (h : Agrees (Shared.Keeps φ) R M m r) : Agrees (Shared.Moves φ) R M m r :=
  ⟨h.frame.toMoves, h.error, h.ok⟩

/-- A typed part of a program that leads to another scope. -/
abbrev LeadsAgrees {τ ρ : Type} (φ : Nat → Nat) (renumber : τ → ρ) (M : Shared) (m : Sharing τ)
    (t : Typed τ (Scope Entry)) : Prop :=
  Agrees (Shared.Moves φ) (fun x σ M' => renumber x = renumber t.tree ∧ M'.Stands φ σ t.next) M m t.result

/-- A typed part of a program that changes no scope. -/
abbrev StaysAgrees {τ ρ : Type} (φ : Nat → Nat) (renumber : τ → ρ) (M : Shared) (m : Sharing τ)
    (t : Typed τ Unit) : Prop :=
  Agrees (Shared.Keeps φ) (fun x _ M' => renumber x = renumber t.tree ∧ SameAhead φ M'.next t.next) M m t.result

section Assignments

variable {enter : EnterShared} {w : Nat} {σ : Scope Entry} {M : Shared} {next : Nat}

/-- Binding a value with the next number comes to the same. -/
theorem shareValue_agrees (hM : M.Open) (h : M.Stands φ σ next) (n : Text) (b : Binding) (hb : b.id = next) :
    Agrees (Shared.Moves φ)
      (fun b' _ M' => b'.renumber φ = b.renumber φ ∧ M'.Stands φ (σ.define n (.value b)) (next + 1))
      M (shareValue n b) (.ok ()) := by
  refine (number_agrees h).bind_ok (Shared.Keeps.trans_moves hM) rfl fun id M₁ hM₁ hid => ?_
  obtain ⟨hid, h₁⟩ := hid
  have hb' : ({ b with id := id } : Binding).renumber φ = b.renumber φ := by
    simp only [Binding.renumber, hid, hb]
  have hM₁' := hM₁.toMoves.isOpen hM
  refine (define_agrees hM₁' h₁ n (e := .value b) ⟨_, rfl, hb'⟩).bind_ok (Shared.Moves.trans hM₁') rfl
    fun _ M₂ _ h₂ => ?_
  exact .pure (Shared.Keeps.refl M₂).toMoves ⟨hb', h₂⟩

/-- What an assignment does with a value that is typed and may be stored. -/
private def storedTyped (σ : Scope Entry) (next : Nat) (i : AssignInfo) (v : Expr) (t : Ty) :
    Typed Assign (Scope Entry) :=
  if i.declares then
    let b := Binding.variable next t
    { tree := .mk { i with binding := some b } v, next := next + 1
      result := .ok (σ.define i.name (.value b)) }
  else match σ.lookup i.name with
    | none => .fail (.mk i v) next (.notDefined i.name) i.nameSpan
    | some (.value b) =>
      let tree := Assign.mk { i with binding := some b } v
      if !b.ty.assignable t then .fail tree next (.cannotAssign t i.name b.ty.render) i.span
      else if b.immutable then .fail tree next (.cannotReassign i.name) i.nameSpan
      else { tree, next, result := .ok σ }
    | some entry => .fail (.mk i v) next (.cannotAssign t i.name entry.word) i.span

/-- Storing a value comes to the same. -/
private theorem shareStored_agrees (hM : M.Open) (h : M.Stands φ σ next) (i : AssignInfo) {v v' : Expr}
    (hv : v'.renumber φ = v.renumber φ) (t : Ty) :
    LeadsAgrees φ (Assign.renumber φ) M (shareStored i v' t) (storedTyped σ next i v t) := by
  obtain ⟨s, n, ns, declares, binds, binding⟩ := i
  unfold shareStored storedTyped
  -- A declaration binds the name in the current scope.
  cases declares with
  | true =>
    refine (shareValue_agrees hM h n (.variable next t) rfl).bind_ok (Shared.Moves.trans hM) rfl
      fun b M₁ _ hb => ?_
    obtain ⟨hb, h₁⟩ := hb
    exact .pure (Shared.Keeps.refl M₁).toMoves
      ⟨by simp only [if_true, Assign.renumber, AssignInfo.renumber, Option.map_some, hb, hv], h₁⟩
  | false =>
    -- Without one the name has to be found.
    simp only [Bool.false_eq_true, if_false]
    refine (find_agrees h n).bind_ok (Shared.Keeps.trans_moves hM) rfl fun s M₁ _ hs => ?_
    obtain ⟨rfl, hs⟩ := hs
    have hkeeps := (Shared.Keeps.refl (φ := φ) M₁).toMoves
    rcases hs.cases with ⟨hn, rfl⟩ | ⟨entry, s, hn, rfl, he⟩
    · rw [hn]
      exact .raise hkeeps
    · rw [hn]
      cases entry with
      -- Of what is found only a value can be assigned to, of a type that admits it.
      | value b =>
        obtain ⟨b', rfl, hb⟩ := he
        simp only [Binding.ty_of_renumber hb, Binding.immutable_of_renumber hb]
        cases ha : b.ty.assignable t with
        | false => exact .raise hkeeps
        | true =>
          cases hi : b.immutable with
          | true => exact .raise hkeeps
          | false =>
            exact .pure hkeeps
              ⟨by simp only [Assign.renumber, AssignInfo.renumber, Option.map_some, hb, hv]; rfl, h⟩
      | function _ _ _ => obtain ⟨_, rfl, _⟩ := he; exact .raise hkeeps
      | bitfield _ => cases he; exact .raise hkeeps
      | intrinsic _ => cases he; exact .raise hkeeps

/-- Typing an assignment comes to the same. -/
theorem Assign.share_agrees (hE : EnterAgrees φ w enter) (hw : σ.level ≤ w) (a : Assign) (hM : M.Open)
    (h : M.Stands φ σ next) :
    LeadsAgrees φ (Assign.renumber φ) M (a.share enter) (a.annotate enterFreely σ next) := by
  obtain ⟨⟨s, n, ns, declares, binds, binding⟩, v⟩ := a
  simp only [Assign.share, Assign.annotate, Assign.info, Assign.value]
  -- A parameter is bound to its argument without being typed again.
  cases binds with
  | true =>
    refine (shareValue_agrees hM h n (.variable next _) rfl).bind_ok (Shared.Moves.trans hM) rfl
      fun b M₁ _ hb => ?_
    obtain ⟨hb, h₁⟩ := hb
    exact .pure (Shared.Keeps.refl M₁).toMoves
      ⟨by simp only [if_true, Assign.bindParam, Assign.renumber, AssignInfo.renumber, Option.map_some, hb], h₁⟩
  | false =>
    -- Otherwise the value is typed first, and then stored.
    have hv := (v.share_agrees hE hw h).valued
    simp only [Bool.false_eq_true, if_false, assignTyped]
    cases hvr : (v.annotate enterFreely σ next).asValue.result with
    | error e => exact hv.moves.bind_error hvr rfl
    | ok t =>
      refine hv.bind_ok (Shared.Keeps.trans_moves hM) hvr fun x M₁ hM₁ hx => ?_
      obtain ⟨v', t'⟩ := x
      obtain ⟨hv', rfl, hnext⟩ := hx
      have hstored := shareStored_agrees (hM₁.toMoves.isOpen hM) (h.kept hM₁ hnext)
        ⟨s, n, ns, declares, false, binding⟩ hv' t'
      have hspan := Expr.span_of_renumber hv'
      dsimp only at hspan hvr ⊢
      generalize (v.annotate enterFreely σ next).asValue = a at *
      -- An enumeration is no value to be stored.
      cases t' with
      | enum d => rw [← hspan]; exact .raise (Shared.Keeps.refl M₁).toMoves
      | _ => exact hstored

/-- Typing assignments comes to the same. -/
private theorem shareAssigns_agrees (hE : EnterAgrees φ w enter) (as : List Assign) (hw : σ.level ≤ w)
    (hM : M.Open) (h : M.Stands φ σ next) :
    LeadsAgrees φ (renumberAssigns φ) M (shareAssigns enter as) (annotateAssigns enterFreely σ next as) := by
  -- Each assignment is typed in the scope that the ones in front of it leave.
  induction as generalizing σ M next with
  | nil => exact .pure (Shared.Keeps.refl M).toMoves ⟨rfl, h⟩
  | cons a as ih =>
    have ha := a.share_agrees hE hw hM h
    simp only [shareAssigns, annotateAssigns]
    cases har : (a.annotate enterFreely σ next).result with
    | error e => exact ha.bind_error har rfl
    | ok τ =>
      refine ha.bind_ok (Shared.Moves.trans hM) har fun a' M₁ hM₁ hx => ?_
      obtain ⟨ha', h₁⟩ := hx
      have hM₁' := hM₁.isOpen hM
      -- An assignment declares no function, so the level stays.
      have has := ih (Nat.le_trans (Nat.le_of_eq (Assign.level_behind har)) hw) hM₁' h₁
      dsimp only
      generalize a.annotate enterFreely σ next = r at *
      cases hasr : (annotateAssigns enterFreely τ r.next as).result with
      | error e => exact has.bind_error hasr rfl
      | ok υ =>
        refine has.bind_ok (Shared.Moves.trans hM₁') hasr fun as' M₂ _ hx => ?_
        obtain ⟨has', h₂⟩ := hx
        exact .pure (Shared.Keeps.refl M₂).toMoves ⟨by simp only [renumberAssigns, ha', has'], h₂⟩

/-- Typing a clause comes to the same. -/
private theorem shareClause_agrees (hE : EnterAgrees φ w enter) (a : Option Assign) (hw : σ.level ≤ w)
    (hM : M.Open) (h : M.Stands φ σ next) :
    LeadsAgrees φ (renumberClause φ) M (shareClause enter a) (annotateClause enterFreely σ next a) := by
  cases a with
  | none => exact .pure (Shared.Keeps.refl M).toMoves ⟨rfl, h⟩
  | some a =>
    have ha := a.share_agrees hE hw hM h
    simp only [shareClause, annotateClause, Typed.wrap]
    cases har : (a.annotate enterFreely σ next).result with
    | error e => exact ha.bind_error har rfl
    | ok τ =>
      refine ha.bind_ok (Shared.Moves.trans hM) har fun a' M₁ _ hx => ?_
      exact .pure (Shared.Keeps.refl M₁).toMoves ⟨by simp only [renumberClause, hx.1], hx.2⟩

/-- Typing a condition comes to the same. -/
private theorem shareCondition_agrees (hE : EnterAgrees φ w enter) (c : Expr) (hw : σ.level ≤ w)
    (h : M.Stands φ σ next) :
    Agrees (Shared.Keeps φ)
      (fun x _ M' => x.renumber φ = (c.annotate enterFreely σ next).asCondition.tree.renumber φ ∧
        SameAhead φ M'.next (c.annotate enterFreely σ next).asCondition.next)
      M (shareCondition enter c) ((c.annotate enterFreely σ next).asCondition.result.map fun _ => ()) := by
  have hc : ExprAgrees φ M (Sharing.demanding (·.isNumeric = true) .conditionNotNumeric _) _ :=
    (c.share_agrees hE hw h).demanding
  exact hc.tree (g := fun e => e) (P := fun x => x.renumber φ = _) fun _ hc' => hc'

/-- Typing the condition of a loop header comes to the same. -/
private theorem shareTest_agrees (hE : EnterAgrees φ w enter) (c : Option Expr) (hw : σ.level ≤ w)
    (h : M.Stands φ σ next) :
    StaysAgrees φ (renumberOption φ) M (shareTest enter c) (annotateTest enterFreely σ next c) := by
  cases c with
  | none => exact .pure (.refl M) ⟨rfl, h.ahead⟩
  | some c =>
    have hc := shareCondition_agrees hE c hw h
    simp only [shareTest, annotateTest]
    cases hcr : (c.annotate enterFreely σ next).asCondition.result with
    | error e => exact hc.bind_error (congrArg _ hcr) rfl
    | ok t =>
      refine hc.bind_ok Shared.Keeps.trans (congrArg _ hcr) fun c' M₁ _ hx => ?_
      exact .pure (.refl M₁) ⟨by simp only [renumberOption, hx.1], hx.2⟩

/-- Typing an assignment to a member comes to the same. -/
private theorem shareMemberAssign_agrees (hE : EnterAgrees φ w enter) (s : Span) (t v : Expr)
    (hw : σ.level ≤ w) (hM : M.Open) (h : M.Stands φ σ next) :
    LeadsAgrees φ (Stmt.renumber φ) M (shareMemberAssign enter s t v)
      (annotateMemberAssign enterFreely σ next s t v) := by
  have hkeeps : ∀ {M : Shared}, M.Moves φ M := fun {M} => (Shared.Keeps.refl M).toMoves
  -- Only members behind a dot can be assigned to.
  cases t with
  | member i access b m ms =>
    cases access with
    | dotted =>
      -- The base is typed first.
      have hb := (b.share_agrees hE hw h).valued
      simp only [shareMemberAssign, annotateMemberAssign]
      cases hbr : (b.annotate enterFreely σ next).asValue.result with
      | error e => exact hb.moves.bind_error hbr rfl
      | ok bt =>
        refine hb.bind_ok (Shared.Keeps.trans_moves hM) hbr fun x M₁ hM₁ hx => ?_
        obtain ⟨b', bt'⟩ := x
        obtain ⟨hb', rfl, hnext⟩ := hx
        have hspan := Expr.span_of_renumber hb'
        have h₁ := h.kept hM₁ hnext
        have hM₁' := hM₁.toMoves.isOpen hM
        dsimp only at hb' hspan hbr ⊢
        generalize (b.annotate enterFreely σ next).asValue = a at *
        -- Only a bitfield has members to assign to.
        cases bt' with
        | bitfield layout =>
          dsimp only
          cases memberTy .dotted (.bitfield layout) m ms i.span with
          | error e => exact .raise hkeeps
          | ok mt =>
            -- Then the value, which has to be an integer.
            have hv := (v.share_agrees hE hw h₁).valued
            dsimp only
            cases hvr : (v.annotate enterFreely σ a.next).asValue.result with
            | error e => exact hv.moves.bind_error hvr rfl
            | ok vt =>
              refine hv.bind_ok (Shared.Keeps.trans_moves hM₁') hvr fun x M₂ hM₂ hx => ?_
              obtain ⟨v', vt'⟩ := x
              obtain ⟨hv', rfl, hnext⟩ := hx
              have h₂ := h₁.kept hM₂ hnext
              dsimp only at hv' hvr ⊢
              cases vt' with
              | int => exact .pure hkeeps ⟨by simp only [Stmt.renumber, Expr.renumber, hb', hv'], h₂⟩
              | _ => exact .raise hkeeps
        | _ => rw [← hspan]; exact .raise hkeeps
    | _ => exact .raise hkeeps
  | _ => exact .raise hkeeps

/-- Binding members comes to the same. -/
private theorem shareMembers_agrees (ms : List EnumMember) (hM : M.Open) (h : M.Stands φ σ next) :
    Agrees (Shared.Moves φ) (fun _ _ M' => M'.Stands φ (bindMembers σ next ms).1 (bindMembers σ next ms).2) M
      (shareMembers ms) (.ok ()) := by
  induction ms generalizing σ M next with
  | nil => exact .pure (Shared.Keeps.refl M).toMoves h
  | cons m ms ih =>
    let b : Binding := { id := next, ty := .int, immutable := true, origin := .member m.value }
    refine (shareValue_agrees hM h m.name b rfl).bind_ok (Shared.Moves.trans hM) rfl fun _ M₁ hM₁ h₁ => ?_
    exact ih (hM₁.isOpen hM) h₁.2

/-- Binding an enumeration comes to the same. -/
private theorem shareEnum_agrees (hM : M.Open) (h : M.Stands φ σ next) (d : Enumeration) :
    Agrees (Shared.Moves φ) (fun _ _ M' => M'.Stands φ (bindEnum σ next d).1 (bindEnum σ next d).2) M
      (shareEnum d) (.ok ()) := by
  let b : Binding := { id := next, ty := .enum d, immutable := true, origin := .enumeration }
  refine (shareValue_agrees hM h d.name b rfl).bind_ok (Shared.Moves.trans hM) rfl fun _ M₁ hM₁ h₁ => ?_
  exact shareMembers_agrees d.members (hM₁.isOpen hM) h₁.2

/-- Binding a function comes to the same. -/
theorem shareFunction_agrees (hM : M.Open) (h : M.Stands φ σ next) (n : Text) (ps : List Param) (b : Block) :
    Agrees (Shared.Moves φ) (fun _ _ M' => M'.Stands φ (bindFunction σ n ps b) next) M
      (shareFunction n ps b) (.ok ()) := by
  refine (snapshot_agrees hM h).bind_ok (Shared.Keeps.trans_moves hM) rfl fun r M₁ hM₁ hr => ?_
  obtain ⟨h₁, hrest, hκ⟩ := hr
  have hentry : (Entry.function ps b σ.snapshot.inner).Shown φ M₁.toHeap (.function ps b r) :=
    ⟨r, rfl, hrest, hκ⟩
  exact define_agrees (hM₁.toMoves.isOpen hM) h₁ n hentry

end Assignments

/-! ## Statements -/

section Statements

variable {enter : EnterShared} {w : Nat}

/-- What agrees without changing a scope agrees with leading to the scope that is there. -/
private theorem StaysAgrees.leads {τ ρ υ ζ : Type} {σ : Scope Entry} {M : Shared} {next : Nat}
    (h : M.Stands φ σ next) {r : τ → ρ} {q : υ → ζ} {m : Sharing τ} {t : Typed τ Unit} {f : τ → υ} {tree : υ}
    (hM : M.Open) (hm : StaysAgrees φ r M m t) (hq : ∀ x, r x = r t.tree → q (f x) = q tree) :
    LeadsAgrees φ q M (m >>= fun x => pure (f x))
      { tree, next := t.next, result := t.result.map fun _ => σ } := by
  cases ht : t.result with
  | error e => exact hm.moves.bind_error ht rfl
  | ok v =>
    refine hm.bind_ok (Shared.Keeps.trans_moves hM) ht fun x M₁ hM₁ hx => ?_
    exact .pure (Shared.Keeps.refl M₁).toMoves ⟨hq x hx.1, h.kept hM₁ hx.2⟩

/-- Typing the header and the body of a loop, in the frame of the header, comes to the same. -/
private theorem shareLoop_agrees (hE : EnterAgrees φ w enter) (s : Span) (i : Option Assign) (c : Option Expr)
    (st : Option Assign) (b : Block) {σ : Scope Entry} {M : Shared} {next : Nat}
    (hb : ∀ {τ : Scope Entry} {M : Shared} {next : Nat}, τ.level + b.definitions ≤ w → M.Open →
      M.Stands φ τ next → StaysAgrees φ (Block.renumber φ) M (Sharing.inFrame (b.share enter))
        (b.annotateIn enterFreely τ.push next))
    (hw : σ.level + b.definitions ≤ w) (hM : M.Open) (h : M.Stands φ σ.push next) :
    Agrees (Shared.Moves φ)
      (fun (x : Stmt) τ M' =>
        x.renumber φ = ((Stmt.forLoop s i c st b).annotate enterFreely σ next).tree.renumber φ ∧
        τ = σ ∧ SameAhead φ M'.next ((Stmt.forLoop s i c st b).annotate enterFreely σ next).next)
      M (do
        let i ← shareClause enter i
        let c ← shareTest enter c
        let st ← shareClause enter st
        let b ← Sharing.inFrame (b.share enter)
        pure (Stmt.forLoop s i c st b))
      ((Stmt.forLoop s i c st b).annotate enterFreely σ next).result := by
  -- The clauses declare no functions, so there are levels enough for the body.
  have hlevel : σ.push.level ≤ w := Nat.le_of_add_right_le hw
  -- The first clause, in the frame of the header.
  have hi := shareClause_agrees hE i hlevel hM h
  simp only [Stmt.annotate]
  cases hir : (annotateClause enterFreely σ.push next i).result with
  | error e => exact hi.bind_error hir rfl
  | ok τ =>
    refine hi.bind_ok (Shared.Moves.trans hM) hir fun i' M₁ hM₁ hx => ?_
    obtain ⟨hi', h₁⟩ := hx
    have hM₁' := hM₁.isOpen hM
    have hτ := annotateClause_level_behind hir
    dsimp only
    generalize annotateClause enterFreely σ.push next i = a at *
    -- The test, which binds nothing.
    have hc := shareTest_agrees hE c (Nat.le_trans (Nat.le_of_eq hτ) hlevel) h₁
    cases hcr : (annotateTest enterFreely τ a.next c).result with
    | error e => exact hc.moves.bind_error hcr rfl
    | ok _ =>
      refine hc.bind_ok (Shared.Keeps.trans_moves hM₁') hcr fun c' M₂ hM₂ hx => ?_
      obtain ⟨hc', hnext⟩ := hx
      have h₂ := h₁.kept hM₂ hnext
      have hM₂' := hM₂.toMoves.isOpen hM₁'
      dsimp only
      generalize annotateTest enterFreely τ a.next c = d at *
      -- The step, which may declare.
      have hst := shareClause_agrees hE st (Nat.le_trans (Nat.le_of_eq hτ) hlevel) hM₂' h₂
      cases hsr : (annotateClause enterFreely τ d.next st).result with
      | error e => exact hst.bind_error hsr rfl
      | ok υ =>
        refine hst.bind_ok (Shared.Moves.trans hM₂') hsr fun st' M₃ hM₃ hx => ?_
        obtain ⟨hst', h₃⟩ := hx
        have hM₃' := hM₃.isOpen hM₂'
        -- The header adds no definition to the level of the scope.
        have hυ : υ.level + b.definitions ≤ w := by
          rw [annotateClause_level_behind hsr, hτ]
          exact hw
        dsimp only
        generalize annotateClause enterFreely τ d.next st = p at *
        -- The body, in a frame of its own.
        have hb := hb hυ hM₃' h₃
        cases hbr : (b.annotateIn enterFreely υ.push p.next).result with
        | error e => exact hb.moves.bind_error hbr rfl
        | ok _ =>
          refine hb.bind_ok (Shared.Keeps.trans_moves hM₃') hbr fun b' M₄ _ hx => ?_
          exact .pure (Shared.Keeps.refl M₄).toMoves
            ⟨by simp only [Stmt.renumber, hi', hc', hst', hx.1], rfl, hx.2⟩

mutual

/-- Typing a statement comes to the same. -/
theorem Stmt.share_agrees (hE : EnterAgrees φ w enter) : (s : Stmt) → {σ : Scope Entry} → {M : Shared} →
    {next : Nat} → σ.level + s.definitions ≤ w → M.Open → M.Stands φ σ next →
    LeadsAgrees φ (Stmt.renumber φ) M (s.share enter) (s.annotate enterFreely σ next)
  -- A block opens a frame and closes it again.
  | .block b, _, _, _, hw, hM, h => by
    have hb := shareFramed_agrees hE b hw hM h
    exact hb.leads h hM fun _ hx => by rw [Stmt.renumber, hx, Stmt.renumber]
  -- A statement of its own may be of any type.
  | .eval s e, σ, M, next, hw, hM, h => by
    have he := e.share_agrees hE (Nat.le_of_add_right_le hw) h
    simp only [Stmt.share, Stmt.annotate]
    cases her : (e.annotate enterFreely σ next).result with
    | error err => exact he.moves.bind_error her rfl
    | ok t =>
      refine he.bind_ok (Shared.Keeps.trans_moves hM) her fun (e', _) M₁ hM₁ hx => ?_
      exact .pure (Shared.Keeps.refl M₁).toMoves ⟨by simp only [Stmt.renumber, hx.1], h.kept hM₁ hx.2.2⟩
  | .assign a, σ, _, next, hw, hM, h => by
    have ha := a.share_agrees hE (Nat.le_of_add_right_le hw) hM h
    simp only [Stmt.share, Stmt.annotate, Typed.wrap]
    cases har : (a.annotate enterFreely σ next).result with
    | error e => exact ha.bind_error har rfl
    | ok τ =>
      refine ha.bind_ok (Shared.Moves.trans hM) har fun a' M₁ _ hx => ?_
      exact .pure (Shared.Keeps.refl M₁).toMoves ⟨by simp only [Stmt.renumber, hx.1], hx.2⟩
  | .assignMember s t v, _, _, _, hw, hM, h =>
    shareMemberAssign_agrees hE s t v (Nat.le_of_add_right_le hw) hM h
  | .cond s c t f, σ, M, next, hw, hM, h => by
    -- Each branch has levels enough for the functions defined in it.
    have hlevel : σ.level ≤ w := Nat.le_of_add_right_le hw
    have hthen : σ.level + t.definitions ≤ w := by
      cases f <;> simp only [Stmt.definitions] at hw <;> omega
    have helse : ∀ b, f = some b → σ.level + b.definitions ≤ w := by
      rintro b rfl
      simp only [Stmt.definitions] at hw
      omega
    -- The condition first, then the branches one behind the other, each in a frame of its own.
    have hc := shareCondition_agrees hE c hlevel h
    simp only [Stmt.share, Stmt.annotate]
    cases hcr : (c.annotate enterFreely σ next).asCondition.result with
    | error e => exact hc.moves.bind_error (congrArg _ hcr) rfl
    | ok ct =>
      refine hc.bind_ok (Shared.Keeps.trans_moves hM) (congrArg _ hcr) fun c' M₁ hM₁ hx => ?_
      obtain ⟨hc', hnext⟩ := hx
      have h₁ := h.kept hM₁ hnext
      have hM₁' := hM₁.toMoves.isOpen hM
      dsimp only
      generalize (c.annotate enterFreely σ next).asCondition = a at *
      have ht := shareFramed_agrees hE t hthen hM₁' h₁
      cases htr : (t.annotateIn enterFreely σ.push a.next).result with
      | error e => exact ht.moves.bind_error htr rfl
      | ok _ =>
        refine ht.bind_ok (Shared.Keeps.trans_moves hM₁') htr fun t' M₂ hM₂ hx => ?_
        obtain ⟨ht', hnext⟩ := hx
        have h₂ := h₁.kept hM₂ hnext
        have hM₂' := hM₂.toMoves.isOpen hM₁'
        dsimp only
        generalize t.annotateIn enterFreely σ.push a.next = r at *
        -- What is changed behind the first branch is not seen by the second.
        have hf := shareElse_agrees hE f helse hM₂' h₂
        exact hf.leads (f := fun f => Stmt.cond s c' t' f) h₂ hM₂' fun _ hf' => by
          simp only [Stmt.renumber, hc', ht', hf']
  -- The condition first, then the body in a frame of its own.
  | .loop s c b, σ, M, next, hw, hM, h => by
    have hbody : σ.level + b.definitions ≤ w := hw
    have hc := shareCondition_agrees hE c (Nat.le_of_add_right_le hw) h
    simp only [Stmt.share, Stmt.annotate]
    cases hcr : (c.annotate enterFreely σ next).asCondition.result with
    | error e => exact hc.moves.bind_error (congrArg _ hcr) rfl
    | ok ct =>
      refine hc.bind_ok (Shared.Keeps.trans_moves hM) (congrArg _ hcr) fun c' M₁ hM₁ hx => ?_
      obtain ⟨hc', hnext⟩ := hx
      have h₁ := h.kept hM₁ hnext
      have hM₁' := hM₁.toMoves.isOpen hM
      dsimp only
      generalize (c.annotate enterFreely σ next).asCondition = a at *
      have hb := shareFramed_agrees hE b hbody hM₁' h₁
      exact hb.leads (f := fun b => Stmt.loop s c' b) h₁ hM₁' fun _ hb' => by
        simp only [Stmt.renumber, hc', hb']
  | .forLoop s i c st b, σ, M, next, hw, hM, h => by
    have hin := shareLoop_agrees hE s i c st b (shareFramed_agrees hE b) hw (Shared.isOpen_pushed hM.1)
      (h.pushed hM)
    -- The frame of the header is closed behind the loop.
    let t := (Stmt.forLoop s i c st b).annotate enterFreely σ next
    have hframed := hin.inFrame hM
      (P := fun (x : Stmt) τ n => x.renumber φ = t.tree.renumber φ ∧ τ = σ ∧ SameAhead φ n t.next)
    exact hframed.mono Shared.Keeps.toMoves fun hM' ⟨hx, hτ, hnext⟩ => ⟨hx, by rw [hτ]; exact h.kept hM' hnext⟩
  -- The value, which must be no enumeration.
  | .ret s v, σ, M, next, hw, hM, h => by
    have hv := (v.share_agrees hE (Nat.le_of_add_right_le hw) h).valued
    simp only [Stmt.share, Stmt.annotate]
    cases hvr : (v.annotate enterFreely σ next).asValue.result with
    | error e => exact hv.moves.bind_error hvr rfl
    | ok t =>
      refine hv.bind_ok (Shared.Keeps.trans_moves hM) hvr fun (v', t') M₁ hM₁ hx => ?_
      obtain ⟨hv', rfl, hnext⟩ := hx
      have hspan := Expr.span_of_renumber hv'
      have h₁ := h.kept hM₁ hnext
      dsimp only at hv' hspan hvr ⊢
      generalize (v.annotate enterFreely σ next).asValue = a at *
      cases t' with
      | enum d => rw [← hspan]; exact .raise (Shared.Keeps.refl M₁).toMoves
      | _ => exact .pure (Shared.Keeps.refl M₁).toMoves ⟨by simp only [Stmt.renumber, hv'], h₁⟩
  -- These bind nothing.
  | .leave _, _, M, _, _, _, h | .code _ _, _, M, _, _, _, h | .require _ _, _, M, _, _, _, h =>
    .pure (Shared.Keeps.refl M).toMoves ⟨rfl, h⟩
  -- Definitions bind names and have nothing typed in them yet.
  | .funcDef s n ns ps b, σ, M, next, hw, hM, h =>
    (shareFunction_agrees hM h n ps b).bind_ok (Shared.Moves.trans hM) rfl fun _ M₁ _ h₁ =>
      .pure (Shared.Keeps.refl M₁).toMoves ⟨rfl, h₁⟩
  | .bitfieldDef s d, σ, M, next, hw, hM, h => by
    have hdefine := define_agrees hM h d.name (e := .bitfield d) rfl
    exact hdefine.bind_ok (Shared.Moves.trans hM) rfl fun _ M₁ _ h₁ =>
      .pure (Shared.Keeps.refl M₁).toMoves ⟨rfl, h₁⟩
  | .enumDef s d, σ, M, next, hw, hM, h =>
    (shareEnum_agrees hM h d).bind_ok (Shared.Moves.trans hM) rfl fun _ M₁ _ h₁ =>
      .pure (Shared.Keeps.refl M₁).toMoves ⟨rfl, h₁⟩

/-- Typing statements comes to the same. -/
private theorem shareStmts_agrees (hE : EnterAgrees φ w enter) :
    (ss : List Stmt) → {σ : Scope Entry} → {M : Shared} →
    {next : Nat} → σ.level + stmtsDefinitions ss ≤ w → M.Open → M.Stands φ σ next →
    LeadsAgrees φ (renumberStmts φ) M (shareStmts enter ss) (annotateStmts enterFreely σ next ss)
  | [], _, M, _, _, _, h => .pure (Shared.Keeps.refl M).toMoves ⟨rfl, h⟩
  | s :: ss, σ, M, next, hw, hM, h => by
    rw [stmtsDefinitions] at hw
    -- The statement uses up its share of the levels.
    have hs := s.share_agrees hE (by omega) hM h
    simp only [shareStmts, annotateStmts]
    cases hsr : (s.annotate enterFreely σ next).result with
    | error e => exact hs.bind_error hsr rfl
    | ok τ =>
      refine hs.bind_ok (Shared.Moves.trans hM) hsr fun s' M₁ hM₁ hx => ?_
      obtain ⟨hs', h₁⟩ := hx
      have hM₁' := hM₁.isOpen hM
      -- A definition moves from those ahead into the scope, so the sum does not grow.
      have hτ := Stmt.level_behind hsr
      have hss := shareStmts_agrees hE ss (by omega) hM₁' h₁
      dsimp only
      generalize s.annotate enterFreely σ next = r at *
      cases hssr : (annotateStmts enterFreely τ r.next ss).result with
      | error e => exact hss.bind_error hssr rfl
      | ok υ =>
        refine hss.bind_ok (Shared.Moves.trans hM₁') hssr fun ss' M₂ _ hx => ?_
        exact .pure (Shared.Keeps.refl M₂).toMoves ⟨by simp only [renumberStmts, hs', hx.1], hx.2⟩

/-- Typing a block in an open frame comes to the same. -/
theorem Block.share_agrees (hE : EnterAgrees φ w enter) : (b : Block) → {σ : Scope Entry} → {M : Shared} →
    {next : Nat} → σ.level + b.definitions ≤ w → M.Open → M.Stands φ σ next →
    Agrees (Shared.Moves φ)
      (fun x _ M' => x.renumber φ = (b.annotateIn enterFreely σ next).tree.renumber φ ∧
        SameAhead φ M'.next (b.annotateIn enterFreely σ next).next)
      M (b.share enter) (b.annotateIn enterFreely σ next).result
  | .mk os ss sp, σ, M, next, hw, hM, h => by
    -- Overrides are bound in front of the statements.
    have hos := shareAssigns_agrees hE os (Nat.le_of_add_right_le hw) hM h
    simp only [Block.share, Block.annotateIn]
    cases hosr : (annotateAssigns enterFreely σ next os).result with
    | error e => exact hos.bind_error hosr rfl
    | ok τ =>
      refine hos.bind_ok (Shared.Moves.trans hM) hosr fun os' M₁ hM₁ hx => ?_
      obtain ⟨hos', h₁⟩ := hx
      have hM₁' := hM₁.isOpen hM
      have hss := shareStmts_agrees hE ss (by rw [annotateAssigns_level_behind hosr]; exact hw) hM₁' h₁
      dsimp only
      generalize annotateAssigns enterFreely σ next os = r at *
      cases hssr : (annotateStmts enterFreely τ r.next ss).result with
      | error e => exact hss.bind_error hssr rfl
      | ok υ =>
        refine hss.bind_ok (Shared.Moves.trans hM₁') hssr fun ss' M₂ _ hx => ?_
        exact .pure (Shared.Keeps.refl M₂).toMoves
          ⟨by simp only [Block.renumber, hos', hx.1], hx.2.ahead⟩

/-- Typing a block in a frame of its own comes to the same. -/
theorem shareFramed_agrees (hE : EnterAgrees φ w enter) (b : Block) {σ : Scope Entry} {M : Shared} {next : Nat}
    (hw : σ.level + b.definitions ≤ w) (hM : M.Open) (h : M.Stands φ σ next) :
    StaysAgrees φ (Block.renumber φ) M (Sharing.inFrame (b.share enter))
      (b.annotateIn enterFreely σ.push next) := by
  have hlevel : σ.push.level + b.definitions ≤ w := hw
  exact (b.share_agrees hE hlevel (Shared.isOpen_pushed hM.1) (h.pushed hM)).inFrame
    (P := fun (x : Block) (_ : Unit) n =>
      x.renumber φ = (b.annotateIn enterFreely σ.push next).tree.renumber φ ∧
        SameAhead φ n (b.annotateIn enterFreely σ.push next).next) hM

/-- Typing an else block that may be absent comes to the same. -/
private theorem shareElse_agrees (hE : EnterAgrees φ w enter) : (b : Option Block) → {σ : Scope Entry} →
    {M : Shared} → {next : Nat} → (∀ x, b = some x → σ.level + x.definitions ≤ w) → M.Open →
    M.Stands φ σ next →
    StaysAgrees φ (renumberElse φ) M (shareElse enter b) (annotateElse enterFreely σ next b)
  | none, _, M, _, _, _, h => .pure (.refl M) ⟨rfl, h.ahead⟩
  | some b, σ, M, next, hw, hM, h => by
    have hb := shareFramed_agrees hE b (hw b rfl) hM h
    simp only [shareElse, annotateElse, Typed.wrap]
    cases hbr : (b.annotateIn enterFreely σ.push next).result with
    | error e => exact hb.bind_error hbr rfl
    | ok _ =>
      refine hb.bind_ok Shared.Keeps.trans hbr fun b' M₁ _ hx => ?_
      exact .pure (.refl M₁) ⟨by simp only [renumberElse, hx.1], hx.2⟩

end

end Statements

end AisScript
