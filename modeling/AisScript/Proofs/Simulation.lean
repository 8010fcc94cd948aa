import AisScript.Proofs.Semantics
import AisScript.Proofs.MadeUp

/-!
# Simulation between runs

Expanded programs keep temporaries that the programs they come from do not know.  Two states agree if
the same was said and all variables have the same values, whatever the temporaries hold.  Two runs
simulate each other if from states that agree the same results are possible, again in states that
agree.  Simulation goes along the ways in which runs are built, and loops may be brought into the form
that expansion gives them: a test folded into the body, a step moved behind it.

* `Sim`                           runs that do the same, but for temporaries
* `Sim.bind`, `Sim.loop`          composition
* `Run.loop_guard`, `Run.loop_step`   loops with a folded test and a moved step
* `Run.Fixes`                     runs that leave a value alone
* `Run.reads_comm`                looking at values before or behind a run that leaves them alone
-/

namespace AisScript

/-! ## Agreement -/

namespace Machine.State

variable {M : Machine} {s t u : M.State}

/-- The same was said, and all variables have the same values. -/
def Agrees (s t : M.State) : Prop :=
  s.trace = t.trace ∧ ∀ id, s.store (.variable id) = t.store (.variable id)

/-- Every state agrees with itself. -/
theorem Agrees.refl (s : M.State) : s.Agrees s := ⟨rfl, fun _ => rfl⟩

/-- The same value in the same place keeps states in agreement. -/
theorem Agrees.set (h : s.Agrees t) (k : Key) (v : M.Value) : (s.set k v).Agrees (t.set k v) := by
  refine ⟨h.1, fun id => ?_⟩
  by_cases hk : Key.variable id = k
  · simp only [State.set, hk, if_true]
  · simp only [State.set, hk, if_false]
    exact h.2 id

/-- Temporaries do not matter. -/
theorem Agrees.setTemp (h : s.Agrees t) (n : Text) (v : M.Value) : s.Agrees (t.set (.temp n) v) := by
  refine ⟨h.1, fun id => ?_⟩
  have hne : Key.variable id ≠ .temp n := nofun
  simp only [State.set, hne, if_false]
  exact h.2 id

/-- Saying the same keeps states in agreement. -/
theorem Agrees.say (h : s.Agrees t) (op : Intrinsic) (vs : List M.Value) :
    (s.say op vs).Agrees (t.say op vs) := by
  refine ⟨?_, h.2⟩
  simp only [State.say, h.1]

end Machine.State

/-! ## Simulation -/

/-- Two runs do the same, but for temporaries. -/
structure Sim {M : Machine} {α : Type} (E R : Run M α) : Prop where
  forth : ∀ {s t : M.State} {a : α} {s' : M.State}, s.Agrees t → E s a s' → ∃ t', R t a t' ∧ s'.Agrees t'
  back : ∀ {s t : M.State} {a : α} {t' : M.State}, s.Agrees t → R t a t' → ∃ s', E s a s' ∧ s'.Agrees t'

namespace Sim

variable {M : Machine} {α β : Type}

/-- Nothing happens on both sides. -/
theorem pure (a : α) : Sim (pure a : Run M α) (Pure.pure a) where
  forth := by
    rintro s t _ _ h ⟨rfl, rfl⟩
    exact ⟨t, ⟨rfl, rfl⟩, h⟩
  back := by
    rintro s t _ _ h ⟨rfl, rfl⟩
    exact ⟨s, ⟨rfl, rfl⟩, h⟩

/-- Nothing can happen on both sides. -/
theorem stuck : Sim (Run.stuck : Run M α) Run.stuck := ⟨fun _ h => h.elim, fun _ h => h.elim⟩

/-- One thing after another, where only results count that are possible. -/
theorem bind_of {E R : Run M α} {F G : α → Run M β} (h : Sim E R)
    (hk : ∀ a, (∃ s s', E s a s') → Sim (F a) (G a)) : Sim (E >>= F) (R >>= G) where
  forth := by
    rintro s t b s' hst ⟨a, s₁, hE, hF⟩
    obtain ⟨t₁, hR, h₁⟩ := h.forth hst hE
    obtain ⟨t', hG, h'⟩ := (hk a ⟨s, s₁, hE⟩).forth h₁ hF
    exact ⟨t', ⟨a, t₁, hR, hG⟩, h'⟩
  back := by
    rintro s t b t' hst ⟨a, t₁, hR, hG⟩
    obtain ⟨s₁, hE, h₁⟩ := h.back hst hR
    obtain ⟨s', hF, h'⟩ := (hk a ⟨s, s₁, hE⟩).back h₁ hG
    exact ⟨s', ⟨a, s₁, hE, hF⟩, h'⟩

/-- One thing after another. -/
theorem bind {E R : Run M α} {F G : α → Run M β} (h : Sim E R) (hk : ∀ a, Sim (F a) (G a)) :
    Sim (E >>= F) (R >>= G) := h.bind_of fun a _ => hk a

/-- Looking at values that do not depend on temporaries. -/
theorem reads {f : (Key → M.Value) → α}
    (h : ∀ st st', (∀ id, st (.variable id) = st' (.variable id)) → f st = f st') :
    Sim (Run.reads f) (Run.reads f) where
  forth := by
    rintro s t _ _ hst ⟨rfl, rfl⟩
    exact ⟨t, ⟨h _ _ hst.2, rfl⟩, hst⟩
  back := by
    rintro s t _ _ hst ⟨rfl, rfl⟩
    exact ⟨s, ⟨(h _ _ hst.2).symm, rfl⟩, hst⟩

/-- Changing states in a way that keeps them in agreement. -/
theorem writes {f g : M.State → M.State} (h : ∀ s t : M.State, s.Agrees t → (f s).Agrees (g t)) :
    Sim (Run.writes f) (Run.writes g) where
  forth := by
    rintro s t _ _ hst rfl
    exact ⟨g t, rfl, h s t hst⟩
  back := by
    rintro s t _ _ hst rfl
    exact ⟨f s, rfl, h s t hst⟩

/-- An assignment on both sides. -/
theorem assign (i : AssignInfo) (v : M.Value) : Sim (M.assign i v) (M.assign i v) :=
  writes fun _ _ h => h.set _ _

/-- An assignment of a temporary on one side. -/
theorem assignTemp {i : AssignInfo} (hi : i.binding = none) (v : M.Value) :
    Sim (Pure.pure () : Run M Unit) (M.assign i v) where
  forth := by
    rintro s t _ _ hst ⟨_, rfl⟩
    refine ⟨_, rfl, ?_⟩
    simp only [keyOf, hi]
    exact hst.setTemp _ _
  back := by
    rintro s t _ _ hst rfl
    refine ⟨s, ⟨rfl, rfl⟩, ?_⟩
    simp only [keyOf, hi]
    exact hst.setTemp _ _

/-- Parameters on both sides. -/
theorem bindAll (bs : List Assign) (vs : List M.Value) : Sim (M.bindAll bs vs) (M.bindAll bs vs) := by
  induction bs generalizing vs with
  | nil => exact pure ()
  | cons b bs ih =>
    cases vs with
    | nil => exact pure ()
    | cons v vs => exact (assign b.info v).bind fun _ => ih vs

/-- An operation of the host on both sides. -/
theorem perform (op : Intrinsic) (vs : List M.Value) : Sim (M.perform op vs) (M.perform op vs) := by
  unfold Machine.perform
  split
  · exact (writes fun _ _ h => h.say op vs).bind fun _ => pure _
  · exact pure _

/-- An operator on both sides. -/
theorem connect (op : BinaryOp) (a : M.Value) {E R : Run M M.Value} (h : Sim E R) :
    Sim (M.connect op a E) (M.connect op a R) := by
  unfold Machine.connect
  split
  · exact pure _
  · exact h.bind fun _ => pure _

/-- A statement and what follows it on both sides. -/
theorem andThen {E R F G : Run M (Ending M.Value)} (h : Sim E R) (hk : Sim F G) :
    Sim (E.andThen F) (R.andThen G) := by
  refine h.bind fun e => ?_
  cases e with
  | next => exact hk
  | leave => exact pure _
  | give v => exact pure _

/-- A choice on both sides. -/
theorem ite {E R F G : Run M α} (b : Bool) (h : Sim E R) (hk : Sim F G) :
    Sim (if b then E else F) (if b then R else G) := by
  cases b with
  | true => exact h
  | false => exact hk

/-- Loops on both sides. -/
theorem loop {T T' : Run M Bool} {B B' : Run M (Ending M.Value)} {S S' : Run M Unit} (hT : Sim T T')
    (hB : Sim B B') (hS : Sim S S') : Sim (Run.loop T B S) (Run.loop T' B' S') where
  forth := by
    -- By induction on the turns of the loop, each simulated by one on the other side.
    intro s t e s' hst h
    induction h generalizing t with
    -- The test fails on both sides.
    | stop htest =>
      obtain ⟨t', ht, h'⟩ := hT.forth hst htest
      exact ⟨t', .stop ht, h'⟩
    | leave htest hbody =>
      obtain ⟨t₁, ht, h₁⟩ := hT.forth hst htest
      obtain ⟨t', hb, h'⟩ := hB.forth h₁ hbody
      exact ⟨t', .leave ht hb, h'⟩
    | give htest hbody =>
      obtain ⟨t₁, ht, h₁⟩ := hT.forth hst htest
      obtain ⟨t', hb, h'⟩ := hB.forth h₁ hbody
      exact ⟨t', .give ht hb, h'⟩
    -- One turn, and the other turns from related states.
    | turn htest hbody hstep _ ih =>
      obtain ⟨t₁, ht, h₁⟩ := hT.forth hst htest
      obtain ⟨t₂, hb, h₂⟩ := hB.forth h₁ hbody
      obtain ⟨t₃, hs, h₃⟩ := hS.forth h₂ hstep
      obtain ⟨t', hrest, h'⟩ := ih h₃
      exact ⟨t', .turn ht hb hs hrest, h'⟩
  -- The same, the other way around.
  back := by
    intro s t e t' hst h
    induction h generalizing s with
    | stop htest =>
      obtain ⟨s', ht, h'⟩ := hT.back hst htest
      exact ⟨s', .stop ht, h'⟩
    | leave htest hbody =>
      obtain ⟨s₁, ht, h₁⟩ := hT.back hst htest
      obtain ⟨s', hb, h'⟩ := hB.back h₁ hbody
      exact ⟨s', .leave ht hb, h'⟩
    | give htest hbody =>
      obtain ⟨s₁, ht, h₁⟩ := hT.back hst htest
      obtain ⟨s', hb, h'⟩ := hB.back h₁ hbody
      exact ⟨s', .give ht hb, h'⟩
    | turn htest hbody hstep _ ih =>
      obtain ⟨s₁, ht, h₁⟩ := hT.back hst htest
      obtain ⟨s₂, hb, h₂⟩ := hB.back h₁ hbody
      obtain ⟨s₃, hs, h₃⟩ := hS.back h₂ hstep
      obtain ⟨s', hrest, h'⟩ := ih h₃
      exact ⟨s', .turn ht hb hs hrest, h'⟩

end Sim

/-! ## Forms of loops -/

namespace Run

variable {M : Machine} {α β : Type}

/-- A run that can only end with the next statement. -/
theorem next_of {E : Run M (Ending M.Value)} (h : ∀ s e s', E s e s' → e = .next) :
    E = (do let _ ← E; pure .next) := by
  refine ext fun s e s' => ⟨fun hE => ?_, fun ⟨e₁, s₁, hE, he, hs⟩ => ?_⟩
  · exact ⟨e, s', hE, h s e s' hE, rfl⟩
  · obtain rfl := h s e₁ s₁ hE
    rw [he, hs]
    exact hE

/-- What follows something that cannot end otherwise. -/
theorem next_andThen (P : Run M Unit) (E : Run M (Ending M.Value)) :
    andThen (do P; pure .next) E = (do P; E) := by
  simp only [andThen, bind_assoc, pure_bind]

/-- Statements in a row. -/
theorem andThen_assoc (E F G : Run M (Ending M.Value)) :
    (E.andThen F).andThen G = E.andThen (F.andThen G) := by
  unfold andThen
  rw [bind_assoc]
  congr 1
  funext e
  cases e with
  | next => rfl
  | leave => rw [pure_bind]
  | give v => rw [pure_bind]

/-- Nothing follows. -/
theorem andThen_next (E : Run M (Ending M.Value)) : E.andThen (pure .next) = E := by
  refine ext fun s e s' => ⟨fun ⟨e₁, s₁, hE, he⟩ => ?_, fun hE => ⟨e, s', hE, ?_⟩⟩
  · cases e₁ <;> obtain ⟨rfl, rfl⟩ := he <;> exact hE
  · cases e <;> exact ⟨rfl, rfl⟩

/-- A test may be folded into the body of a loop, which is left when the test fails. -/
theorem loop_guard (T : Run M Bool) (B : Run M (Ending M.Value)) (S : Run M Unit) :
    loop T B S = loop (pure true) (do let b ← T; if b then B else pure .leave) S := by
  refine ext fun s e s' => ⟨fun h => ?_, fun h => ?_⟩
  -- Each turn of the loop is one of the other loop, which tests in its body.
  · induction h with
    | stop htest => exact .leave ⟨rfl, rfl⟩ ⟨false, _, htest, rfl, rfl⟩
    | leave htest hbody => exact .leave ⟨rfl, rfl⟩ ⟨true, _, htest, hbody⟩
    | give htest hbody => exact .give ⟨rfl, rfl⟩ ⟨true, _, htest, hbody⟩
    | turn htest hbody hstep _ ih => exact .turn ⟨rfl, rfl⟩ ⟨true, _, htest, hbody⟩ hstep ih
  -- The other loop is left when its body says so, and the test fails then.
  · induction h with
    | stop htest => exact nomatch htest.1
    -- The body was left, by the test or by what is behind it.
    | leave htest hbody =>
      obtain ⟨_, rfl⟩ := htest
      obtain ⟨b, s₁, hT, hbody⟩ := hbody
      cases b with
      | true => exact .leave hT hbody
      | false =>
        obtain ⟨_, rfl⟩ := hbody
        exact .stop hT
    -- Only what is behind the test gives a value or ends normally.
    | give htest hbody =>
      obtain ⟨_, rfl⟩ := htest
      obtain ⟨b, s₁, hT, hbody⟩ := hbody
      cases b with
      | true => exact .give hT hbody
      | false => exact nomatch hbody.1
    | turn htest hbody hstep _ ih =>
      obtain ⟨_, rfl⟩ := htest
      obtain ⟨b, s₁, hT, hbody⟩ := hbody
      cases b with
      | true => exact .turn hT hbody hstep ih
      | false => exact nomatch hbody.1

/-- A step may be moved behind the body of a loop. -/
theorem loop_step (T : Run M Bool) (B : Run M (Ending M.Value)) (S : Run M Unit) :
    loop T B S = loop T (B.andThen (do S; pure .next)) (pure ()) := by
  refine ext fun s e s' => ⟨fun h => ?_, fun h => ?_⟩
  -- The step behind the body is taken where the body ends normally.
  · induction h with
    | stop htest => exact .stop htest
    | leave htest hbody => exact .leave htest ⟨.leave, _, hbody, rfl, rfl⟩
    | give htest hbody => exact .give htest ⟨.give _, _, hbody, rfl, rfl⟩
    | turn htest hbody hstep _ ih =>
      exact .turn htest ⟨.next, _, hbody, (), _, hstep, rfl, rfl⟩ ⟨rfl, rfl⟩ ih
  -- Behind the body, the step has been taken or was skipped.
  · induction h with
    | stop htest => exact .stop htest
    | leave htest hbody =>
      obtain ⟨e₁, s₁, hB, hbody⟩ := hbody
      cases e₁ with
      -- The moved step ends normally, so the loop goes on behind it.
      | next =>
        obtain ⟨_, _, _, hbody, _⟩ := hbody
        exact nomatch hbody
      -- The body itself has left the loop.
      | leave =>
        obtain ⟨_, rfl⟩ := hbody
        exact .leave htest hB
      | give v => exact nomatch hbody.1
    | give htest hbody =>
      obtain ⟨e₁, s₁, hB, hbody⟩ := hbody
      cases e₁ with
      | next =>
        obtain ⟨_, _, _, hbody, _⟩ := hbody
        exact nomatch hbody
      | leave => exact nomatch hbody.1
      | give v =>
        obtain ⟨hv, rfl⟩ := hbody
        cases hv
        exact .give htest hB
    | turn htest hbody hstep _ ih =>
      obtain ⟨_, rfl⟩ := hstep
      obtain ⟨e₁, s₁, hB, hbody⟩ := hbody
      cases e₁ with
      -- The body has ended normally, so its step was taken.
      | next =>
        obtain ⟨_, _, hS, _, rfl⟩ := hbody
        exact .turn htest hB hS ih
      | leave => exact nomatch hbody.1
      | give v => exact nomatch hbody.1

/-! ## Values left alone -/

/-- A run leaves a value alone. -/
def Fixes (E : Run M α) (k : Key) : Prop :=
  ∀ s a s', E s a s' → s'.store k = s.store k

namespace Fixes

variable {k : Key} {E : Run M α} {F : α → Run M β}

/-- Nothing happens. -/
theorem pure (a : α) : Fixes (Pure.pure a : Run M α) k := by
  rintro s _ _ ⟨_, rfl⟩
  rfl

/-- Nothing can happen. -/
theorem stuck : Fixes (Run.stuck : Run M α) k := fun _ _ _ h => h.elim

/-- Looking at values. -/
theorem reads (f : (Key → M.Value) → α) : Fixes (Run.reads f) k := by
  rintro s _ _ ⟨_, rfl⟩
  rfl

/-- One thing after another. -/
theorem bind (hE : Fixes E k) (hF : ∀ a, Fixes (F a) k) : Fixes (E >>= F) k := by
  rintro s b s' ⟨a, s₁, h₁, h₂⟩
  exact (hF a s₁ b s' h₂).trans (hE s a s₁ h₁)

/-- Changing another value. -/
theorem set {k' : Key} (hne : k ≠ k') (f : M.State → M.Value) :
    Fixes (Run.writes fun s : M.State => s.set k' (f s)) k := by
  rintro s _ _ rfl
  simp only [Machine.State.set, hne, if_false]

/-- An operation of the host. -/
theorem perform (op : Intrinsic) (vs : List M.Value) : Fixes (M.perform op vs) k := by
  unfold Machine.perform
  split
  · refine bind ?_ fun _ => pure _
    rintro s _ _ rfl
    rfl
  · exact pure _

/-- An operator. -/
theorem connect (op : BinaryOp) (a : M.Value) {R : Run M M.Value} (h : Fixes R k) :
    Fixes (M.connect op a R) k := by
  unfold Machine.connect
  split
  · exact pure _
  · exact h.bind fun _ => pure _

/-- A statement and what follows it. -/
theorem andThen {E F : Run M (Ending M.Value)} (hE : Fixes E k) (hF : Fixes F k) :
    Fixes (E.andThen F) k := by
  refine hE.bind fun e => ?_
  cases e with
  | next => exact hF
  | leave => exact pure _
  | give v => exact pure _

/-- A loop. -/
theorem loop {T : Run M Bool} {B : Run M (Ending M.Value)} {S : Run M Unit} (hT : Fixes T k)
    (hB : Fixes B k) (hS : Fixes S k) : Fixes (Run.loop T B S) k := by
  intro s e s' h
  induction h with
  | stop htest => exact hT _ _ _ htest
  | leave htest hbody => exact (hB _ _ _ hbody).trans (hT _ _ _ htest)
  | give htest hbody => exact (hB _ _ _ hbody).trans (hT _ _ _ htest)
  | turn htest hbody hstep _ ih =>
    exact ih.trans ((hS _ _ _ hstep).trans ((hB _ _ _ hbody).trans (hT _ _ _ htest)))

end Fixes

/-! ## Looking at values -/

/-- Values that a run leaves alone may be looked at in front of it or behind it. -/
theorem reads_comm {f : (Key → M.Value) → α} {Q : Run M Unit} (F : α → Run M β)
    (h : ∀ s s', Q s () s' → f s'.store = f s.store) :
    (do let a ← reads f; Q; F a) = (do Q; let a ← reads f; F a) := by
  refine ext fun s b s' => ⟨?_, ?_⟩
  · rintro ⟨_, _, ⟨rfl, rfl⟩, ⟨⟩, s₂, hQ, hF⟩
    exact ⟨(), s₂, hQ, f s₂.store, s₂, ⟨rfl, rfl⟩, (h _ _ hQ) ▸ hF⟩
  · rintro ⟨⟨⟩, s₁, hQ, a, s₂, ⟨ha, hs⟩, hF⟩
    subst ha hs
    exact ⟨f s.store, s, ⟨rfl, rfl⟩, (), _, hQ, (h _ _ hQ) ▸ hF⟩

/-- Looking at values and computing. -/
theorem reads_pure (f : (Key → M.Value) → α) (g : α → β) :
    (do let a ← reads f; pure (g a)) = (reads (M := M) fun st => g (f st)) := by
  refine ext fun s b s' => ⟨?_, ?_⟩
  · rintro ⟨_, _, ⟨rfl, rfl⟩, rfl, rfl⟩
    exact ⟨rfl, rfl⟩
  · rintro ⟨rfl, rfl⟩
    exact ⟨_, _, ⟨rfl, rfl⟩, rfl, rfl⟩

/-- Looking at values twice. -/
theorem reads_reads {γ : Type} (f : (Key → M.Value) → α) (g : α → (Key → M.Value) → γ) :
    (do let a ← reads f; reads (g a)) = (reads (M := M) fun st => g (f st) st) := by
  refine ext fun s b s' => ⟨?_, ?_⟩
  · rintro ⟨_, _, ⟨rfl, rfl⟩, rfl, rfl⟩
    exact ⟨rfl, rfl⟩
  · rintro ⟨rfl, rfl⟩
    exact ⟨_, _, ⟨rfl, rfl⟩, rfl, rfl⟩

end Run

end AisScript
