import AisScript.Proofs.Settled
import AisScript.Proofs.Calm

/-!
# Runs with their calls in front

The meaning of an expanded expression comes in two parts: what stands in front of it is run, and then
what is left of the expression is looked up in the values kept.  Looking up depends only on the variables
that the expression looks at outside of its calls, and on the temporaries made for its calls.

Two such runs one after the other may be sorted, both fronts first, as long as the second front leaves
alone what the first expression looks at.  The body of a call is a front of its own, whose value is kept
in a temporary.

* `Run.LooksUp`           values that a lookup depends on
* `Hoists`                a run as a front and a lookup
* `Hoists.both`           two runs with both fronts first
* `Hoists.placed`         a called body whose value is kept in a temporary
* `Replaces`              statements that do what a run does
-/

namespace AisScript

/-! ## Fronts -/

/-- Statements run for what they do. -/
def front (M : Machine) (p : List Stmt) : Run M Unit := do
  let _ ← runStmts M p
  pure ()

/-- Statements that can only be followed by the next one. -/
def Follows (M : Machine) (p : List Stmt) : Prop := ∀ s e s', runStmts M p s e s' → e = .next

section Fronts

variable {M : Machine} {p q ss : List Stmt}

/-- Statements in a row. -/
theorem runStmts_append (ss ts : List Stmt) :
    runStmts M (ss ++ ts) = (runStmts M ss).andThen (runStmts M ts) := by
  induction ss with
  | nil => rw [List.nil_append, runStmts, Run.andThen, pure_bind]
  | cons s ss ih => rw [List.cons_append, runStmts, ih, runStmts, Run.andThen_assoc]

/-- A single statement. -/
theorem runStmts_singleton (s : Stmt) : runStmts M [s] = s.run M := by
  rw [runStmts, runStmts, Run.andThen_next]

/-- No statements at all. -/
theorem Follows.nil : Follows M [] := fun _ _ _ h => h.1

theorem front_nil : front M [] = pure () := by rw [front, runStmts, pure_bind]

/-- What follows a front. -/
private theorem Follows.runStmts_eq (h : Follows M p) : runStmts M p = (do front M p; pure .next) := by
  rw [front, bind_assoc]
  simp only [pure_bind]
  exact Run.next_of h

theorem Follows.runStmts_append (h : Follows M p) (ss : List Stmt) :
    runStmts M (p ++ ss) = (do front M p; runStmts M ss) := by
  rw [AisScript.runStmts_append, h.runStmts_eq, Run.next_andThen]

private theorem Follows.front_append (h : Follows M p) (q : List Stmt) :
    front M (p ++ q) = (do front M p; front M q) := by
  rw [front, h.runStmts_append, bind_assoc]
  rfl

/-- Two fronts. -/
theorem Follows.append (hp : Follows M p) (hq : Follows M q) : Follows M (p ++ q) := by
  intro s e s' h
  rw [hp.runStmts_append] at h
  obtain ⟨_, s₁, _, h⟩ := h
  exact hq s₁ e s' h

/-- Statements whose run says itself that the next one follows. -/
theorem Follows.of_eq {Q : Run M Unit} (h : runStmts M p = (do Q; pure .next)) :
    Follows M p ∧ front M p = Q := by
  constructor
  · intro s e s' hrun
    rw [h] at hrun
    obtain ⟨_, _, _, he, _⟩ := hrun
    exact he
  · rw [front, h, bind_assoc]
    simp only [pure_bind]
    exact bind_pure Q

end Fronts

/-! ## Temporaries of statements -/

/-- The temporaries that statements change are numbered from `lo` up to `hi`. -/
structure TempsIn (M : Machine) (p : List Stmt) (lo hi : Nat) : Prop where
  le : lo ≤ hi
  spares : ∀ k, k < lo ∨ hi ≤ k → ∀ st ∈ p, Run.Fixes (st.run M) (.temp (tempName k))

namespace TempsIn

variable {M : Machine} {p q : List Stmt} {lo mid hi k : Nat}

/-- No statements at all. -/
theorem nil : TempsIn M [] lo lo := ⟨Nat.le_refl lo, nofun⟩

/-- Statements in a row. -/
theorem append (hp : TempsIn M p lo mid) (hq : TempsIn M q mid hi) : TempsIn M (p ++ q) lo hi := by
  have h₁ := hp.le
  have h₂ := hq.le
  refine ⟨Nat.le_trans h₁ h₂, fun k hk => List.forall_mem_append.2 ⟨?_, ?_⟩⟩
  · exact hp.spares k (by omega)
  · exact hq.spares k (by omega)

/-- A single statement. -/
theorem single {st : Stmt} (hle : lo ≤ hi)
    (h : ∀ k, k < lo ∨ hi ≤ k → Run.Fixes (st.run M) (.temp (tempName k))) : TempsIn M [st] lo hi :=
  ⟨hle, fun k hk _ hst => List.mem_singleton.1 hst ▸ h k hk⟩

/-- What each statement leaves alone, all leave alone. -/
theorem runStmts (h : TempsIn M p lo hi) (hk : k < lo ∨ hi ≤ k) :
    Run.Fixes (runStmts M p) (.temp (tempName k)) := by
  have hall := h.spares k hk
  clear h
  induction p with
  | nil => exact Run.Fixes.pure _
  | cons st p ih =>
    obtain ⟨hst, hp⟩ := List.forall_mem_cons.1 hall
    exact hst.andThen (ih hp)

/-- A front leaves alone what its statements leave alone. -/
theorem front (h : TempsIn M p lo hi) (hk : k < lo ∨ hi ≤ k) :
    Run.Fixes (front M p) (.temp (tempName k)) :=
  (h.runStmts hk).bind fun _ => Run.Fixes.pure ()

end TempsIn

/-! ## Lookups -/

/-- A run only looks something up, which depends on some variables and on the temporaries numbered from
`lo` up to `hi`. -/
def Run.LooksUp {M : Machine} {α : Type} (E : Run M α) (ids : List Nat) (lo hi : Nat) : Prop :=
  ∃ f, E = Run.reads f ∧ ∀ st st', (∀ id ∈ ids, st (.variable id) = st' (.variable id)) →
    (∀ k, lo ≤ k → k < hi → st (.temp (tempName k)) = st' (.temp (tempName k))) → f st = f st'

namespace Run.LooksUp

variable {M : Machine} {α β γ : Type} {E : Run M α} {F : Run M β} {ids ids' : List Nat} {lo mid hi : Nat}

/-- What is known needs no looking up. -/
theorem pure (a : α) : LooksUp (Pure.pure a : Run M α) ids lo hi :=
  ⟨fun _ => a, rfl, fun _ _ _ _ => rfl⟩

/-- More variables and temporaries. -/
theorem mono (h : LooksUp E ids lo hi) {lo' hi' : Nat} (hids : ids ⊆ ids') (hlo : lo' ≤ lo) (hhi : hi ≤ hi') :
    LooksUp E ids' lo' hi' := by
  obtain ⟨f, rfl, hf⟩ := h
  refine ⟨f, rfl, fun st st' hst htemp => hf st st' (fun id hid => hst id (hids hid)) fun k hk hk' => ?_⟩
  exact htemp k (by omega) (by omega)

/-- Something is made of what is found. -/
theorem map (h : LooksUp E ids lo hi) (m : α → β) : LooksUp (do let a ← E; Pure.pure (m a)) ids lo hi := by
  obtain ⟨f, rfl, hf⟩ := h
  refine ⟨fun st => m (f st), reads_pure f m, fun st st' hst htemp => ?_⟩
  simp only [hf st st' hst htemp]

/-- Two lookups and what is made of them. -/
theorem both (hE : LooksUp E ids lo mid) (hF : LooksUp F ids' mid hi) (hlo : lo ≤ mid) (hhi : mid ≤ hi)
    (m : α → β → γ) :
    LooksUp (do let a ← E; let b ← F; Pure.pure (m a b)) (ids ++ ids') lo hi := by
  obtain ⟨f, rfl, hf⟩ := hE.mono (List.subset_append_left ids ids') (Nat.le_refl lo) hhi
  obtain ⟨g, rfl, hg⟩ := hF.mono (List.subset_append_right ids ids') hlo (Nat.le_refl hi)
  refine ⟨fun st => m (f st) (g st), ?_, fun st st' hst htemp => ?_⟩
  · simp only [reads_pure]
    exact reads_reads f fun a st => m a (g st)
  · simp only [hf st st' hst htemp, hg st st' hst htemp]

/-- What is looked up may be looked up behind a run that leaves it alone. -/
theorem comm (h : LooksUp E ids lo hi) {Q : Run M Unit} (hids : ∀ id ∈ ids, Fixes Q (.variable id))
    (htemps : ∀ k, lo ≤ k → k < hi → Fixes Q (.temp (tempName k))) (F : α → Run M β) :
    (do let a ← E; Q; F a) = (do Q; let a ← E; F a) := by
  obtain ⟨f, rfl, hf⟩ := h
  refine reads_comm F fun s s' hQ => ?_
  exact hf _ _ (fun id hid => hids id hid s () s' hQ) fun k hlo hhi => htemps k hlo hhi s () s' hQ

/-- A lookup changes nothing. -/
theorem fixes (h : LooksUp E ids lo hi) (k : Key) : Fixes E k := by
  obtain ⟨f, rfl, _⟩ := h
  exact Fixes.reads f

end Run.LooksUp

/-! ## Hoisted runs -/

/-- A run does what a front does, and gives what a lookup behind the front gives.  The temporaries of
the front are numbered from `lo` up to `hi`. -/
structure Hoists {M : Machine} {α : Type} (E : Run M α) (ids : List Nat) (p : List Stmt) (E' : Run M α)
    (lo hi : Nat) : Prop where
  temps : TempsIn M p lo hi
  follows : Follows M p
  sim : Sim E (do front M p; E')
  value : E'.LooksUp ids lo hi

namespace Hoists

variable {M : Machine} {α β γ : Type} {E E' : Run M α} {F F' : Run M β} {ids ids' : List Nat} {p q : List Stmt}
  {lo mid hi : Nat}

/-- A lookup with nothing in front. -/
theorem of_looksUp (h : E.LooksUp ids lo lo) : Hoists E ids [] E lo lo := by
  refine ⟨TempsIn.nil, Follows.nil, ?_, h⟩
  rw [front_nil, pure_bind]
  obtain ⟨f, rfl, hf⟩ := h
  exact Sim.reads fun st st' hst => hf st st' (fun id _ => hst id) fun k hk hk' => by omega

/-- What a run leaves alone, its front leaves alone. -/
theorem fixes (h : Hoists E ids p E' lo hi) {id : Nat} (hE : Run.Fixes E (.variable id)) :
    Run.Fixes (front M p) (.variable id) := by
  obtain ⟨f, hf, _⟩ := h.value
  intro t _ t' hp
  -- The lookup behind the front always gives something, so the run can happen from the same state.
  have hrun : (do front M p; E') t (f t'.store) t' := by
    rw [hf]
    exact ⟨(), t', hp, rfl, rfl⟩
  obtain ⟨s', hE', hagrees⟩ := h.sim.back (.refl t) hrun
  rw [← hagrees.2 id]
  exact hE t _ s' hE'

/-- What comes behind a run comes behind its front and its lookup. -/
theorem sim_bind (h : Hoists E ids p E' lo hi) {K K' : α → Run M β} (hk : ∀ a, Sim (K a) (K' a)) :
    Sim (do let a ← E; K a) (do front M p; let a ← E'; K' a) := by
  have hsim := h.sim.bind hk
  rwa [bind_assoc] at hsim

/-- Something is made of the value. -/
theorem map (h : Hoists E ids p E' lo hi) (m : α → β) :
    Hoists (do let a ← E; pure (m a)) ids p (do let a ← E'; pure (m a)) lo hi :=
  ⟨h.temps, h.follows, h.sim_bind fun a => Sim.pure (m a), h.value.map m⟩

/-- Two runs with both fronts first. -/
theorem both (h : Hoists E ids p E' lo mid) (h' : Hoists F ids' q F' mid hi)
    (hfix : ∀ id ∈ ids, Run.Fixes F (.variable id)) (m : α → β → γ) :
    Hoists (do let a ← E; let b ← F; pure (m a b)) (ids ++ ids') (p ++ q)
      (do let a ← E'; let b ← F'; pure (m a b)) lo hi := by
  refine ⟨h.temps.append h'.temps, h.follows.append h'.follows, ?_,
    h.value.both h'.value h.temps.le h'.temps.le m⟩
  have hsim := h.sim_bind fun a => h'.sim_bind fun b => Sim.pure (m a b)
  -- The second front leaves alone what the first lookup depends on.
  have hcomm := h.value.comm (fun id hid => h'.fixes (hfix id hid))
    (fun k _ hk => h'.temps.front (.inl hk)) fun a => do let b ← F'; pure (m a b)
  rw [hcomm] at hsim
  rwa [h.follows.front_append, bind_assoc]

end Hoists

/-! ## Statements for runs -/

/-- Statements do what a run does.  Their temporaries are numbered from `lo` up to `hi`. -/
structure Replaces {M : Machine} (E : Run M (Ending M.Value)) (ss : List Stmt) (lo hi : Nat) : Prop where
  temps : TempsIn M ss lo hi
  sim : Sim E (runStmts M ss)

section Replaces

variable {M : Machine} {α : Type} {E F : Run M (Ending M.Value)} {p q : List Stmt} {lo mid hi : Nat}

/-- A single statement. -/
theorem Replaces.single {st : Stmt} (hle : lo ≤ hi) (hsim : Sim E (st.run M))
    (hfix : ∀ k, k < lo ∨ hi ≤ k → Run.Fixes (st.run M) (.temp (tempName k))) :
    Replaces E [st] lo hi := by
  refine ⟨TempsIn.single hle hfix, ?_⟩
  rwa [runStmts_singleton]

/-- Statements in a row. -/
theorem Replaces.append (hE : Replaces E p lo mid) (hF : Replaces F q mid hi) :
    Replaces (E.andThen F) (p ++ q) lo hi := by
  refine ⟨hE.temps.append hF.temps, ?_⟩
  rw [runStmts_append]
  exact hE.sim.andThen hF.sim

/-- A front and a statement that begins with a lookup. -/
theorem Hoists.stmt {A A' : Run M α} {ids : List Nat} (h : Hoists A ids p A' lo mid) (hle : mid ≤ hi)
    {st : Stmt} {K L : α → Run M (Ending M.Value)} (hst : st.run M = (do let a ← A'; L a))
    (hk : ∀ a, Sim (K a) (L a))
    (hfix : ∀ a k, k < mid ∨ hi ≤ k → Run.Fixes (L a) (.temp (tempName k))) :
    Replaces (do let a ← A; K a) (p ++ [st]) lo hi := by
  refine ⟨h.temps.append (TempsIn.single hle fun k hkk => ?_), ?_⟩
  · rw [hst]
    exact (h.value.fixes _).bind fun a => hfix a k hkk
  · rw [h.follows.runStmts_append, runStmts_singleton, hst]
    exact h.sim_bind hk

/-- A front whose lookup is dropped. -/
theorem Hoists.drop {A A' : Run M α} {ids : List Nat} (h : Hoists A ids p A' lo hi) :
    Replaces (do let _ ← A; pure .next) p lo hi := by
  refine ⟨h.temps, ?_⟩
  have hsim := h.sim_bind fun _ => Sim.pure (Ending.next : Ending M.Value)
  obtain ⟨f, rfl, _⟩ := h.value
  rw [Run.reads_pure f fun _ => Ending.next] at hsim
  rw [h.follows.runStmts_eq]
  exact hsim

end Replaces

/-! ## Called bodies -/

/-- A value kept in a temporary and looked up there. -/
theorem Sim.keep {M : Machine} {i : AssignInfo} (hi : i.binding = none) (v : M.Value) :
    Sim (Pure.pure v) (do M.assign i v; Run.reads fun st => st (.temp i.name)) where
  forth := by
    rintro s t a _ hst ⟨rfl, rfl⟩
    refine ⟨t.set (.temp i.name) a, ⟨(), _, rfl, ?_, ?_⟩, hst.setTemp _ _⟩
    · simp only [Machine.State.set, Machine.kept, keyOf, hi, if_true]
    · simp only [Machine.kept, keyOf, hi]
  back := by
    rintro s t _ _ hst ⟨_, _, rfl, rfl, rfl⟩
    refine ⟨s, ⟨?_, rfl⟩, ?_⟩
    · simp only [Machine.State.set, Machine.kept, keyOf, hi, if_true]
    · simp only [Machine.kept, keyOf, hi]
      exact hst.setTemp _ _

/-- An assignment of a temporary leaves all others alone. -/
private theorem fixes_assign_other {M : Machine} {i : AssignInfo} {n : Nat} (hi : i.binding = none)
    (hn : i.name = tempName n) {k : Nat} (hne : k ≠ n) (v : M.Value) :
    Run.Fixes (M.assign i v) (.temp (tempName k)) := by
  refine Run.Fixes.set (fun heq => hne ?_) _
  rw [hi, hn] at heq
  exact ofNat_inj (List.append_cancel_left (Key.temp.inj heq))

section Called

variable {M : Machine} {binds : List Assign} {ids : List Nat} {lo mid hi : Nat}

/-- Several expressions that are only looked up. -/
private theorem looksUp_runList {es : List Expr} (h : ∀ e ∈ es, (e.run M).LooksUp ids lo hi) :
    (runList M es).LooksUp ids lo hi := by
  induction es with
  | nil => exact Run.LooksUp.pure []
  | cons e es ih =>
    obtain ⟨he, hes⟩ := List.forall_mem_cons.1 h
    obtain ⟨f, hf, hfdep⟩ := he
    obtain ⟨g, hg, hgdep⟩ := ih hes
    rw [runList, hf, hg]
    refine ⟨fun st => f st :: g st, ?_, fun st st' hst htemp => ?_⟩
    · simp only [Run.reads_pure]
      exact Run.reads_reads f fun a st => a :: g st
    · simp only [hfdep st st' hst htemp, hgdep st st' hst htemp]

/-- Parameters are bound to expanded arguments one by one.  No argument looks at a parameter, so all of
them may be looked up first. -/
theorem runAssigns_bindExpanded {args : List Expr} (hlen : binds.length = args.length)
    (hargs : ∀ a ∈ args, (a.run M).LooksUp ids lo hi)
    (hbinds : ∀ b ∈ binds, ∃ c, b.info.binding = some c ∧ c.id ∉ ids) :
    runAssigns M (bindExpanded binds args) = (do let vs ← runList M args; M.bindAll binds vs) := by
  -- Parameters and arguments in step.
  induction binds generalizing args with
  | nil =>
    obtain rfl := List.length_eq_zero_iff.1 hlen.symm
    rw [runList, pure_bind]
    rfl
  | cons b binds ih =>
    cases args with
    | nil => exact nomatch hlen
    | cons a args =>
      obtain ⟨ha, hargs⟩ := List.forall_mem_cons.1 hargs
      obtain ⟨⟨c, hc, hnot⟩, hbinds⟩ := List.forall_mem_cons.1 hbinds
      have hrest := ih (Nat.succ.inj hlen) hargs hbinds
      -- Binding this parameter changes nothing that the arguments behind it look at.
      have hcomm (x : M.Value) := (looksUp_runList hargs).comm (Q := M.assign b.info x)
        (fun id hid => fixes_assign (by
          rintro hmem
          simp only [AssignInfo.changes, hc, Option.map_some, Option.toList_some, List.mem_singleton] at hmem
          exact hnot (hmem ▸ hid)) x)
        (fun k _ _ => fixes_assign_temp hc x (tempName k)) fun vs => M.bindAll binds vs
      -- The first assignment is put behind the evaluation of the other arguments.
      have hzip : bindExpanded (b :: binds) (a :: args) = .mk b.info a :: bindExpanded binds args := rfl
      rw [hzip, runAssigns, Assign.run, hrest, runList]
      simp only [bind_assoc, pure_bind, Machine.bindAll, hcomm]

/-- What a body gives on both sides. -/
theorem Sim.given (e : Ending M.Value) : Sim (M.given e) (M.given e) := by
  cases e with
  | next => exact Sim.pure _
  | leave => exact Sim.stuck
  | give v => exact Sim.pure v

/-- The temporaries of a body that assigns a new temporary instead of returning. -/
private theorem TempsIn.keepReturn {fr : List Stmt} {sp : Span} {value : Expr}
    (h : TempsIn M (fr ++ [.ret sp value]) lo hi) :
    TempsIn M (fr ++ [.assign (.make (tempName hi) value false sp)]) lo (hi + 1) := by
  have hle := h.le
  refine ⟨by omega, fun k hk => List.forall_mem_append.2 ?_⟩
  -- The statements in front are as before, and only the last one changes.
  obtain ⟨hfr, hret⟩ := List.forall_mem_append.1 (h.spares k (by omega))
  refine ⟨hfr, List.forall_mem_singleton.2 ?_⟩
  -- A return spares what its value spares.
  have hvalue : Run.Fixes (value.run M) (.temp (tempName k)) := by
    intro s x s' hx
    have hfix := hret (.ret sp value) (List.mem_singleton.2 rfl)
    rw [Stmt.run] at hfix
    exact hfix s (.give x) s' ⟨x, s', hx, rfl, rfl⟩
  -- The assignment reaches the new temporary and no other one.
  rw [Stmt.run, Assign.make, Assign.run]
  refine Run.Fixes.bind (hvalue.bind fun x => ?_) fun _ => Run.Fixes.pure _
  exact fixes_assign_other (n := hi) rfl rfl (by omega) x

/-- The body of a call with its value kept in a temporary. -/
theorem Hoists.placed {A A' : Run M (List M.Value)} {B : Run M (Ending M.Value)} {p fr : List Stmt}
    {body : Block} {zero value : Expr} {sp : Span} {z : M.Value} (hargs : Hoists A ids p A' lo mid)
    (call : Expr)
    (hover : runAssigns M body.overrides = (do let vs ← A'; M.bindAll binds vs))
    (hbinds : ∀ b ∈ binds, ∃ c, b.info.binding = some c) (hbody : Replaces B body.stmts mid hi)
    (hstmts : body.stmts = fr ++ [.ret sp value]) (hfr : Follows M fr) (hz : zero.run M = pure z) :
    Hoists (do let vs ← A; M.bindAll binds vs; let e ← B; M.given e) []
      (p ++ AisScript.placed call hi zero body fr sp value)
      (Run.reads fun st => st (.temp (tempName hi))) lo (hi + 1) := by
  generalize hq : AisScript.placed call hi zero body fr sp value = q
  have hle := hbody.temps.le
  -- The temporary is assigned twice: first its zero, then the value of the body.
  let first := (Assign.make (tempName hi) zero true call.span).info
  let last := (Assign.make (tempName hi) value false sp).info
  -- All that is put in front runs in a row.
  have hrun : runStmts M q = (do
      (do M.assign first z
          let vs ← A'
          M.bindAll binds vs
          front M fr
          let x ← value.run M
          M.assign last x)
      pure .next) := by
    rw [← hq]
    simp only [AisScript.placed, runStmts, Stmt.run, Assign.make, Assign.run, Block.run, hz, hover,
      hfr.runStmts_append, Run.next_andThen, Run.andThen_next, bind_assoc, pure_bind]
    rfl
  -- It is a front, as it ends without leaving or giving anything.
  obtain ⟨hfollows, hfront⟩ := Follows.of_eq hrun
  -- The temporary takes its first value before the arguments are looked up, which cannot tell.
  have hcomm := hargs.value.comm (Q := M.assign first z)
    (fun id _ => fixes_assign (by simp [first, Assign.make, Assign.info, AssignInfo.changes]) z)
    (fun k _ hk => fixes_assign_other (n := hi) rfl rfl (by omega) z) fun vs => do
      M.bindAll binds vs
      front M fr
      let x ← value.run M
      M.assign last x
      Run.reads fun st => st (.temp (tempName hi))
  -- The body gives the value that its last statement would return.
  have hgive : Sim (do let e ← B; M.given e) (do front M fr; value.run M) := by
    have hsim := hbody.sim.bind Sim.given
    rw [hstmts, hfr.runStmts_append, runStmts_singleton, Stmt.run] at hsim
    simp only [bind_assoc, pure_bind, Machine.given, bind_pure] at hsim
    exact hsim
  -- Temporaries, the front, the run, and the value.
  refine ⟨hargs.temps.append ⟨by omega, fun k hk => ?_⟩, hargs.follows.append hfollows, ?_, ?_⟩
  -- Outside the range of the call no temporary is touched.
  · rw [← hq]
    refine List.forall_mem_cons.2 ⟨?_, List.forall_mem_cons.2 ⟨?_, by simp⟩⟩
    · rw [Stmt.run, Assign.make, Assign.run, hz, pure_bind]
      exact (fixes_assign_other (n := hi) rfl rfl (by omega) z).bind fun _ => Run.Fixes.pure _
    · rw [Stmt.run, Block.run, hover]
      refine Run.Fixes.bind ?_ fun _ => (hstmts ▸ hbody.temps).keepReturn.runStmts hk
      exact (hargs.value.fixes _).bind fun vs => fixes_bindAll_temp hbinds vs _
  -- The run is rearranged so that the arguments come first.
  · rw [hargs.follows.front_append, hfront]
    simp only [bind_assoc]
    rw [← hcomm]
    refine hargs.sim_bind fun vs => ?_
    have hkeep := hgive.bind fun x => Sim.keep (i := last) rfl x
    -- Keeping a value in a temporary cannot be told from giving it.
    have hsim := (Sim.assignTemp (i := first) rfl z).bind fun _ => (Sim.bindAll binds vs).bind fun _ => hkeep
    simp only [bind_assoc, bind_pure, pure_bind] at hsim
    exact hsim
  -- The value of the call is what the temporary holds at the end.
  · refine ⟨_, rfl, fun st st' _ htemp => htemp hi ?_ (Nat.lt_succ_self hi)⟩
    have := hargs.temps.le
    omega

/-- The body of a call that gives nothing. -/
theorem Hoists.block {A A' : Run M (List M.Value)} {B : Run M (Ending M.Value)} {p : List Stmt}
    {body : Block} (hargs : Hoists A ids p A' lo mid)
    (hover : runAssigns M body.overrides = (do let vs ← A'; M.bindAll binds vs))
    (hbinds : ∀ b ∈ binds, ∃ c, b.info.binding = some c) (hbody : Replaces B body.stmts mid hi)
    (hfollows : Follows M body.stmts) :
    Replaces (do let vs ← A; M.bindAll binds vs; let e ← B; let _ ← M.given e; pure .next)
      (p ++ [.block body]) lo hi := by
  obtain ⟨os, ss, sp⟩ := body
  -- The block is one statement that runs in the values of the arguments.
  refine hargs.stmt hbody.temps.le (L := fun vs => do M.bindAll binds vs; runStmts M ss) ?_ (fun vs => ?_)
    fun vs k hk => ?_
  · have hover : runAssigns M os = _ := hover
    rw [Stmt.run, Block.run, hover, bind_assoc]
  -- Binding is the same on both sides, so the bodies are compared behind it.
  · refine (Sim.bindAll binds vs).bind fun _ => ?_
    -- The body can only end with its last statement, on both sides.
    have hnext : ∀ e, (∃ s s', B s e s') → e = .next := by
      rintro e ⟨s, s', hB⟩
      obtain ⟨t', ht', _⟩ := hbody.sim.forth (.refl s) hB
      exact hfollows _ _ _ ht'
    have hsim := hbody.sim.bind_of (F := fun e => do let _ ← M.given e; pure .next) (G := fun e => pure e)
      fun e he => by
        obtain rfl := hnext e he
        simp only [Machine.given, pure_bind]
        exact Sim.pure _
    rwa [bind_pure] at hsim
  -- Neither the parameters nor the body touch temporaries of others.
  · exact (fixes_bindAll_temp hbinds vs _).bind fun _ => hbody.temps.runStmts hk

end Called

end AisScript
