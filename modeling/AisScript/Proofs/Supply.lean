import AisScript.Proofs.Traces

/-!
# Temporaries in order

Every temporary of an expanded tree is opened by its declaration, closed by its only assignment and read
behind that, and all its values and readings have one type.  Statements that stand behind others may read the
temporaries that those supply.

* `Timely`              temporaries are opened in front of their assignment and read behind it
* `Ordered`             acts with temporaries of their own, in order
* `Assembled.ordered`   expanded trees are ordered
-/

namespace AisScript

/-! ## Acts in order -/

/-- The temporary that an act declares, assigns or reads, and the type of its value there. -/
def Act.temp? : Act → Option (Text × Option Ty)
  | .assign a => if a.info.binding = none then some (a.info.name, a.value.ty?) else none
  | .read n t => some (n, t)

/-- An act that can come behind others with the given marks: it reads closed temporaries only, and does not
open one that is closed. -/
def Act.Timed (ms : List Mark) : Act → Prop
  | .read n _ => .closed n ∈ ms
  | .assign a => (∀ n, a.mark? = some (.opened n) → .closed n ∉ ms)
    ∧ ∀ n t, .read n t ∈ acts (exprNodes a.value) → .closed n ∈ ms

/-- Each act can come behind those in front of it and behind others with the given marks. -/
def Timely (ms : List Mark) : List Act → Prop
  | [] => True
  | a :: as => a.Timed ms ∧ Timely (ms ++ a.mark?.toList) as

/-- The marks of an act and of others behind it. -/
theorem marks_cons (a : Act) (as : List Act) : marks (a :: as) = a.mark?.toList ++ marks as := by
  cases h : a.mark? <;> simp [marks, h]

/-- Joined acts. -/
theorem timely_append {ms : List Mark} {as bs : List Act} :
    Timely ms (as ++ bs) ↔ Timely ms as ∧ Timely (ms ++ marks as) bs := by
  induction as generalizing ms with
  | nil => simp [Timely]
  | cons a as ih => simp [Timely, ih, marks_cons, and_assoc]

/-- Behind a closing assignment, a temporary has had a value. -/
private theorem temp_of_closed {as : List Act} {n : Text} (h : .closed n ∈ marks as) :
    ∃ x ∈ as, ∃ t, x.temp? = some (n, t) := by
  obtain ⟨x, hx, hmark⟩ := List.mem_filterMap.1 h
  cases x with
  | read m t => cases hmark
  | assign a =>
    refine ⟨.assign a, hx, a.value.ty?, ?_⟩
    simp only [Act.mark?, Assign.mark?] at hmark
    split at hmark <;> cases hmark
    rename_i hbinding
    simp [Act.temp?, hbinding]

/-- A temporary that can be read behind acts, with its type. -/
def Supplied (as : List Act) (n : Text) (t : Option Ty) : Prop :=
  .closed n ∈ marks as ∧ ∃ x ∈ as, x.temp? = some (n, t)

/-- An act that opens no temporary and uses only those that others supply. -/
def Act.SuppliedBy (as : List Act) : Act → Prop
  | .read n t => Supplied as n t
  | .assign a => (∀ n, a.mark? ≠ some (.opened n))
    ∧ (a.info.binding = none → ∃ x ∈ as, x.temp? = some (a.info.name, a.value.ty?))
    ∧ ∀ n t, .read n t ∈ acts (exprNodes a.value) → Supplied as n t

/-- More acts supply more temporaries. -/
theorem Supplied.mono {as bs : List Act} {n : Text} {t : Option Ty} (h : Supplied as n t)
    (hsub : as ⊆ bs) : Supplied bs n t := by
  obtain ⟨hclosed, x, hx, ht⟩ := h
  exact ⟨List.filterMap_subset _ hsub hclosed, x, hsub hx, ht⟩

/-- More acts supply more temporaries. -/
theorem Act.SuppliedBy.mono {as bs : List Act} {x : Act} (h : x.SuppliedBy as) (hsub : as ⊆ bs) :
    x.SuppliedBy bs := by
  cases x with
  | read n t => exact Supplied.mono h hsub
  | assign a =>
    obtain ⟨hopen, htemp, hreads⟩ := h
    refine ⟨hopen, fun hb => ?_, fun n t hn => (hreads n t hn).mono hsub⟩
    obtain ⟨x, hx, ht⟩ := htemp hb
    exact ⟨x, hsub hx, ht⟩

/-- A supplied act uses a temporary of those that supply it. -/
theorem Act.SuppliedBy.temp {as : List Act} {x : Act} (h : x.SuppliedBy as) {n : Text} {t : Option Ty}
    (ht : x.temp? = some (n, t)) : ∃ y ∈ as, y.temp? = some (n, t) := by
  cases x with
  | read m t' =>
    cases ht
    exact h.2
  | assign a =>
    simp only [Act.temp?] at ht
    split at ht
    · cases ht
      exact h.2.1 ‹_›
    · cases ht

/-- Supplied acts can come behind those that supply them. -/
private theorem timely_of_supplied {as bs : List Act} (h : ∀ b ∈ bs, b.SuppliedBy as) {ms : List Mark}
    (hms : marks as ⊆ ms) : Timely ms bs := by
  induction bs generalizing ms with
  | nil => trivial
  | cons b bs ih =>
    obtain ⟨hb, hbs⟩ := List.forall_mem_cons.1 h
    refine ⟨?_, ih hbs (List.subset_append_of_subset_left _ hms)⟩
    cases b with
    | read n t => exact hms hb.1
    | assign a => exact ⟨fun n hn => absurd hn (hb.1 n), fun n t hn => hms (hb.2.2 n t hn).1⟩

/-- Readings in order read what is closed in front of them. -/
theorem closed_of_timely {bs : List Act} (hreads : ∀ b ∈ bs, ∃ n t, b = .read n t) {ms : List Mark}
    (h : Timely ms bs) {n : Text} {t : Option Ty} (hn : .read n t ∈ bs) : .closed n ∈ ms := by
  induction bs generalizing ms with
  | nil => cases hn
  | cons b bs ih =>
    obtain ⟨⟨m, t', rfl⟩, hrest⟩ := List.forall_mem_cons.1 hreads
    obtain ⟨hb, hbs⟩ := h
    rcases List.mem_cons.1 hn with hn | hn
    · cases hn
      exact hb
    · simpa [Act.mark?] using ih hrest hbs hn

/-! ## Renaming -/

/-- A renaming changes no reading in the value of an assignment. -/
private theorem acts_value_rename (r : Renaming) (a : Assign) :
    acts (exprNodes (a.rename r).value) = acts (exprNodes a.value) := by
  rw [← acts_rename_value r a.value, ← acts_rename, ← exprNodes_rename]
  cases a
  rfl

/-- A renaming keeps temporaries. -/
theorem Act.temp?_rename (r : Renaming) (x : Act) : (x.rename r).temp? = x.temp? := by
  cases x with
  | assign a =>
    obtain ⟨⟨_, _, _, _, _, binding⟩, v⟩ := a
    cases binding <;> simp [Act.rename, Act.temp?, Assign.rename, Assign.info, Assign.value, Renaming.apply]
  | read n t => rfl

/-- A renaming keeps the order of temporaries. -/
private theorem timely_rename (r : Renaming) {ms : List Mark} {as : List Act} :
    Timely ms (as.map (Act.rename r)) ↔ Timely ms as := by
  induction as generalizing ms with
  | nil => rfl
  | cons a as ih =>
    have htimed : (a.rename r).Timed ms ↔ a.Timed ms := by
      cases a with
      | read n t => rfl
      | assign a =>
        have hmark : (a.rename r).mark? = a.mark? := (Act.assign a).mark?_rename r
        simp only [Act.rename, Act.Timed, hmark, acts_value_rename]
    simp only [List.map_cons, Timely, htimed, ih, Act.mark?_rename]

/-- A renaming keeps marks. -/
private theorem marks_rename (r : Renaming) (as : List Act) : marks (as.map (Act.rename r)) = marks as := by
  rw [marks, List.filterMap_map]
  exact congrArg (List.filterMap · as) (funext fun a => a.mark?_rename r)

/-- Renamed acts supply what they supplied. -/
theorem Supplied.rename {as : List Act} {n : Text} {t : Option Ty} (h : Supplied as n t) (r : Renaming) :
    Supplied (as.map (Act.rename r)) n t := by
  obtain ⟨hclosed, x, hx, ht⟩ := h
  refine ⟨by rwa [marks_rename], x.rename r, List.mem_map_of_mem hx, ?_⟩
  rw [Act.temp?_rename, ht]

/-- A renamed act uses what it used. -/
theorem Act.SuppliedBy.rename {as : List Act} {x : Act} (h : x.SuppliedBy as) (r : Renaming) :
    (x.rename r).SuppliedBy as := by
  -- A reading has no name that is renamed.
  cases x with
  | read n t => exact h
  -- An assignment keeps its mark, its temporary and what its value reads.
  | assign a =>
    obtain ⟨hopen, htemp, hreads⟩ := h
    have hmark : (a.rename r).mark? = a.mark? := (Act.assign a).mark?_rename r
    refine ⟨fun n => by rw [hmark]; exact hopen n, fun hb => ?_, fun n t hn => ?_⟩
    -- A temporary that is assigned is not renamed, as it has no binding.
    · obtain ⟨i, v⟩ := a
      have hb : i.binding = none := hb
      obtain ⟨x, hx, ht⟩ := htemp hb
      refine ⟨x, hx, ht.trans ?_⟩
      simp [Assign.rename, Assign.info, Assign.value, hb, Renaming.apply]
    · rw [acts_value_rename] at hn
      exact hreads n t hn

/-! ## Ordered acts -/

/-- Acts whose temporaries have numbers in `R`: they are in order behind all acts without those temporaries,
and each has one type. -/
structure Ordered (R : Nat → Prop) (as : List Act) : Prop where
  within : ∀ x ∈ as, ∀ n t, x.temp? = some (n, t) → ∃ k, R k ∧ n = tempName k
  coherent : ∀ x ∈ as, ∀ y ∈ as, ∀ n t t', x.temp? = some (n, t) → y.temp? = some (n, t') → t = t'
  timely : ∀ ms, (∀ k, R k → .closed (tempName k) ∉ ms) → Timely ms as

namespace Ordered

variable {R S : Nat → Prop} {as bs : List Act}

/-- No acts at all. -/
theorem nil : Ordered R [] := ⟨by simp, by simp, fun _ _ => trivial⟩

/-- More numbers. -/
theorem mono (h : Ordered R as) (hRS : ∀ k, R k → S k) : Ordered S as where
  within x hx n t ht := by
    obtain ⟨k, hk, hn⟩ := h.within x hx n t ht
    exact ⟨k, hRS k hk, hn⟩
  coherent := h.coherent
  timely ms hms := h.timely ms fun k hk => hms k (hRS k hk)

/-- Acts with other temporaries. -/
theorem append (ha : Ordered R as) (hb : Ordered S bs) (hRS : ∀ k, R k → ¬S k) :
    Ordered (fun k => R k ∨ S k) (as ++ bs) where
  -- Every temporary is in one of the two ranges.
  within x hx n t ht := by
    rcases List.mem_append.1 hx with hx | hx
    · obtain ⟨k, hk, hn⟩ := ha.within x hx n t ht
      exact ⟨k, .inl hk, hn⟩
    · obtain ⟨k, hk, hn⟩ := hb.within x hx n t ht
      exact ⟨k, .inr hk, hn⟩
  coherent x hx y hy n t t' hxt hyt := by
    -- The ranges do not meet, so no temporary is on both sides.
    have hapart : ∀ x ∈ as, ∀ y ∈ bs, ∀ s s', x.temp? = some (n, s) → y.temp? = some (n, s') → False := by
      intro x hx y hy s s' hs hs'
      obtain ⟨k, hk, rfl⟩ := ha.within x hx n s hs
      obtain ⟨j, hj, hkj⟩ := hb.within y hy _ s' hs'
      exact hRS k hk (tempName_number hkj ▸ hj)
    rcases List.mem_append.1 hx with hx | hx <;> rcases List.mem_append.1 hy with hy | hy
    · exact ha.coherent x hx y hy n t t' hxt hyt
    · exact (hapart x hx y hy t t' hxt hyt).elim
    · exact (hapart y hy x hx t' t hyt hxt).elim
    · exact hb.coherent x hx y hy n t t' hxt hyt
  -- A temporary of the second part is not closed in the first one.
  timely ms hms := by
    refine timely_append.2 ⟨ha.timely ms fun k hk => hms k (.inl hk), hb.timely _ fun k hk hmem => ?_⟩
    rcases List.mem_append.1 hmem with hmem | hmem
    · exact hms k (.inr hk) hmem
    · obtain ⟨x, hx, t, ht⟩ := temp_of_closed hmem
      obtain ⟨j, hj, hkj⟩ := ha.within x hx _ t ht
      exact hRS j hj (tempName_number hkj ▸ hk)

/-- Acts that use what is supplied in front of them. -/
theorem supplied (h : Ordered R as) (hbs : ∀ b ∈ bs, b.SuppliedBy as) : Ordered R (as ++ bs) := by
  have hback : ∀ x ∈ as ++ bs, ∀ n t, x.temp? = some (n, t) → ∃ y ∈ as, y.temp? = some (n, t) := by
    intro x hx n t ht
    rcases List.mem_append.1 hx with hx | hx
    · exact ⟨x, hx, ht⟩
    · exact (hbs x hx).temp ht
  refine ⟨fun x hx n t ht => ?_, fun x hx y hy n t t' hxt hyt => ?_, fun ms hms => ?_⟩
  · obtain ⟨y, hy, hyt⟩ := hback x hx n t ht
    exact h.within y hy n t hyt
  · obtain ⟨x', hx', hxt'⟩ := hback x hx n t hxt
    obtain ⟨y', hy', hyt'⟩ := hback y hy n t' hyt
    exact h.coherent x' hx' y' hy' n t t' hxt' hyt'
  · exact timely_append.2 ⟨h.timely ms hms, timely_of_supplied hbs (List.subset_append_right _ _)⟩

/-- The readings at the end use what is supplied in front of them. -/
theorem readings (h : Ordered R (as ++ bs)) (hreads : ∀ b ∈ bs, ∃ n t, b = .read n t) :
    ∀ b ∈ bs, b.SuppliedBy as := by
  intro b hb
  obtain ⟨n, t, rfl⟩ := hreads b hb
  have htimely := (timely_append.1 (h.timely [] fun _ _ => List.not_mem_nil)).2
  have hclosed : .closed n ∈ marks as := closed_of_timely hreads htimely hb
  obtain ⟨x, hx, t', ht'⟩ := temp_of_closed hclosed
  have heq : t' = t :=
    h.coherent x (List.mem_append_left _ hx) (.read n t) (List.mem_append_right _ hb) n t' t ht' rfl
  exact ⟨hclosed, x, hx, heq ▸ ht'⟩

/-- The acts in front. -/
theorem front (h : Ordered R (as ++ bs)) : Ordered R as where
  within x hx := h.within x (List.mem_append_left _ hx)
  coherent x hx y hy := h.coherent x (List.mem_append_left _ hx) y (List.mem_append_left _ hy)
  timely ms hms := (timely_append.1 (h.timely ms hms)).1

/-- A renaming keeps temporaries in order. -/
theorem rename (h : Ordered R as) (r : Renaming) : Ordered R (as.map (Act.rename r)) where
  within x hx n t ht := by
    obtain ⟨y, hy, rfl⟩ := List.mem_map.1 hx
    rw [Act.temp?_rename] at ht
    exact h.within y hy n t ht
  coherent x hx y hy n t t' hxt hyt := by
    obtain ⟨x', hx', rfl⟩ := List.mem_map.1 hx
    obtain ⟨y', hy', rfl⟩ := List.mem_map.1 hy
    rw [Act.temp?_rename] at hxt hyt
    exact h.coherent x' hx' y' hy' n t t' hxt hyt
  timely ms hms := (timely_rename r).2 (h.timely ms hms)

/-- The declaration of a temporary. -/
theorem opened (k : Nat) {zero : Expr} (sp : Span) (hzero : acts (exprNodes zero) = []) :
    Ordered (· = k) [.assign (.make (tempName k) zero true sp)] where
  -- The only temporary is the declared one.
  within x hx n t ht := by
    cases List.mem_singleton.1 hx
    cases ht
    exact ⟨k, rfl, rfl⟩
  coherent x hx y hy n t t' hxt hyt := by
    cases List.mem_singleton.1 hx
    cases List.mem_singleton.1 hy
    cases hxt
    cases hyt
    rfl
  -- It is neither closed before nor does its zero value read one.
  timely ms hms := by
    refine ⟨⟨fun n hn => ?_, fun n t hn => ?_⟩, trivial⟩
    · cases hn
      exact hms k rfl
    · have hnil : acts (exprNodes (Assign.make (tempName k) zero true sp).value) = [] := hzero
      rw [hnil] at hn
      cases hn

end Ordered

/-! ## Expanded trees are ordered -/

/-- What a list of statements supplies, its acts supply. -/
theorem Supplies.acts {p : List Stmt} {n : Text} {t : Option Ty} (h : Supplies p n t) :
    Supplied (acts (stmtsNodes p)) n t := by
  obtain ⟨⟨zero, sp, hz, ht⟩, b, v, sp', hb, hv⟩ := h
  have hmem : ∀ a : Assign, .stmt (.assign a) ∈ stmtsNodes p → .assign a ∈ AisScript.acts (stmtsNodes p) :=
    fun a ha => List.mem_filterMap.2 ⟨_, ha, rfl⟩
  have hopened := hmem _ (nodes_subset_stmtsNodes hz List.mem_cons_self)
  have hclosed : .assign (.make n v false sp') ∈ AisScript.acts (stmtsNodes p) := by
    refine hmem _ (nodes_subset_stmtsNodes hb (List.mem_cons_of_mem _ ?_))
    obtain ⟨os, ss, _⟩ := b
    exact List.mem_append_right _ (nodes_subset_stmtsNodes hv List.mem_cons_self)
  refine ⟨List.mem_filterMap.2 ⟨_, hclosed, rfl⟩, _, hopened, ?_⟩
  simp [Act.temp?, Assign.make, Assign.info, Assign.value, ht]

/-- What is left of expressions uses what stands in front of them. -/
private theorem Left.supplies {σ : Scope Entry} {p : List Stmt} {es : List Expr} (h : Left σ p es) :
    ∀ x ∈ AisScript.acts (es.map .expr), x.SuppliedBy (AisScript.acts (stmtsNodes p)) := by
  intro x hx
  obtain ⟨n, t, rfl, hn⟩ := h.acts x hx
  exact hn.acts

/-- So does the assignment of a variable. -/
theorem Left.assigns {σ : Scope Entry} {p : List Stmt} {i : AssignInfo} {v : Expr} (h : Left σ p v.nodes)
    {b : Binding} (hb : i.binding = some b) :
    ∀ x ∈ AisScript.acts (Assign.mk i v).nodes, x.SuppliedBy (AisScript.acts (stmtsNodes p)) := by
  have hvalue : ∀ x ∈ AisScript.acts (exprNodes v), x.SuppliedBy (AisScript.acts (stmtsNodes p)) := h.supplies
  intro x hx
  rw [acts_assign] at hx
  rcases List.mem_cons.1 hx with rfl | hx
  · refine ⟨fun n hn => ?_, fun hnone => absurd (hb.symm.trans hnone) (by simp), fun n t hn => hvalue _ hn⟩
    simp only [Assign.mark?, Assign.info, hb] at hn
    split at hn <;> simp_all
  · exact hvalue x hx

/-- The parameters of a call use what stands in front of its arguments. -/
theorem Left.overrides {σ : Scope Entry} {p : List Stmt} {args : List Expr}
    (h : Left σ p (nodesOfList args)) {binds : List Assign}
    (hbinds : ∀ a ∈ binds, ∃ b, a.info.binding = some b) :
    ∀ x ∈ AisScript.acts ((bindExpanded binds args).flatMap Assign.nodes),
      x.SuppliedBy (AisScript.acts (stmtsNodes p)) := by
  -- Parameters and arguments run out together.
  induction binds generalizing args with
  | nil => exact fun _ hx => by cases hx
  | cons a binds ih =>
    cases args with
    | nil => exact fun _ hx => by cases hx
    | cons e args =>
      obtain ⟨⟨b, hb⟩, hbinds⟩ := List.forall_mem_cons.1 hbinds
      -- What is known of all arguments is known of the first one and of the others.
      have hfirst : Left σ p e.nodes :=
        ⟨fun i n b hx => h.reached i n b (List.mem_append_left _ hx),
          fun i n hx => h.supplied i n (List.mem_append_left _ hx),
          fun x hx => h.worded x (List.mem_append_left _ hx)⟩
      have hrest : Left σ p (nodesOfList args) :=
        ⟨fun i n b hx => h.reached i n b (List.mem_append_right _ hx),
          fun i n hx => h.supplied i n (List.mem_append_right _ hx),
          fun x hx => h.worded x (List.mem_append_right _ hx)⟩
      intro x hx
      have hx : x ∈ AisScript.acts (Assign.mk a.info e).nodes
          ++ AisScript.acts ((bindExpanded binds args).flatMap Assign.nodes) := by
        rw [← acts_append]
        exact hx
      -- The parameter is bound, so it uses what its argument uses.
      rcases List.mem_append.1 hx with hx | hx
      · exact hfirst.assigns hb x hx
      · exact ih hrest hbinds x hx

/-- The numbers of the temporaries that are made between two states of the expansion. -/
def Expansion.Takes (c c' : Expansion) (k : Nat) : Prop := c.temps ≤ k ∧ k < c'.temps

/-- What stands for a call uses a temporary more than the body and what stands in front of its arguments. -/
private theorem ordered_called {os : List Assign} {ss q : List Stmt} {sp : Span} {b : Block} {e e' : Expr}
    {c c₁ c₂ c₃ c' : Expansion} {as : List Act} (fresh : freshened (.mk os ss sp) c₂ = .ok (b, c₃))
    (place : placeBody e b c₃ = .ok ((q, e'), c')) (kept : e'.ty? = e.ty?)
    (returns : ∀ s v, ss.getLast? = some (.ret s v) → v.ty? = e.ty?)
    (hle : c.temps ≤ c₁.temps) (hle' : c₁.temps ≤ c₂.temps) (has : Ordered (c.Takes c₁) as)
    (hos : ∀ x ∈ acts (os.flatMap Assign.nodes), x.SuppliedBy as)
    (hss : Ordered (c₁.Takes c₂) (acts (stmtsNodes ss))) :
    c₂.temps ≤ c'.temps ∧ Ordered (c.Takes c') (as ++ acts (stmtsNodes q)) := by
  -- The contested names are renamed, and temporaries are not among them.
  obtain ⟨_, hq⟩ := called_cases fresh place kept
  generalize freshNames c₂.renamed (contested (Block.mk os ss sp).nodes) = r at hq
  -- The parameters use what stands in front of the arguments, renamed or not.
  have hos' : ∀ x ∈ (acts (os.flatMap Assign.nodes)).map (Act.rename r), x.SuppliedBy as := by
    intro x hx
    obtain ⟨y, hy, rfl⟩ := List.mem_map.1 hx
    exact (hos y hy).rename r
  -- A value is returned and held in a new temporary, or the body stands as a block.
  rcases hq with ⟨front, s, v, zero, rfl, hzty, hzero, htemps, rfl⟩ | ⟨htemps, rfl⟩
  -- The zero value uses no temporary, and the returned value has its type.
  · have hnil := Left.acts_nil (hzero {})
    have hvty : (v.rename r).ty? = zero.ty? := by
      rw [Expr.ty?_rename, hzty, returns s v List.getLast?_concat]
    have hret : acts (stmtsNodes (front ++ [.ret s v])) = acts (stmtsNodes front) ++ acts (exprNodes v) := by
      simp [stmtsNodes_append, Stmt.nodes, acts_stmt]
    rw [hret] at hss
    -- First the temporary is declared, then the parameters are bound, and then the front is run.
    have hopened := Ordered.opened c₂.temps e.span hnil
    let opening : Act := .assign (.make (tempName c₂.temps) zero true e.span)
    let closing : Act := .assign (.make (tempName c₂.temps) (v.rename r) false s)
    let before : List Act := (as ++ [opening]) ++ (acts (os.flatMap Assign.nodes)).map (Act.rename r)
      ++ (acts (stmtsNodes front)).map (Act.rename r)
    -- All of it uses temporaries of three ranges, one behind the other.
    have hbefore : Ordered (fun k => (c.Takes c₁ k ∨ k = c₂.temps) ∨ c₁.Takes c₂ k) before := by
      refine ((has.append hopened fun k hk h => ?_).supplied fun x hx => ?_).append (hss.front.rename r) ?_
      · obtain ⟨_, hlt⟩ := hk
        omega
      · exact (hos' x hx).mono (List.subset_append_left _ _)
      · rintro k (⟨_, hlt⟩ | rfl) ⟨hge, hlt'⟩ <;> omega
    -- What the body returns uses what the body supplies.
    have hreturned : ∀ x ∈ acts (exprNodes v), x.SuppliedBy before := by
      intro x hx
      obtain ⟨n, t, rfl⟩ := acts_exprs v.nodes x hx
      have hsupplied : Supplied (acts (stmtsNodes front)) n t := hss.readings (acts_exprs v.nodes) _ hx
      exact (hsupplied.rename r).mono (List.subset_append_right _ _)
    -- The assignment closes the temporary that was declared, with a value of its type.
    have hclosing : closing.SuppliedBy before := by
      have hmark : ∀ n, closing.mark? ≠ some (.opened n) := by
        simp [closing, Act.mark?, Assign.mark?, Assign.make, Assign.info]
      refine ⟨hmark, fun _ => ⟨opening, ?_, ?_⟩, fun n t hn => hreturned (.read n t) ?_⟩
      · simp [before]
      · simp [opening, Act.temp?, Assign.make, Assign.info, Assign.value, hvty]
      -- The value reads what it read before it was renamed.
      · have hvalue : acts (exprNodes (v.rename r)) = acts (exprNodes v) := by
          rw [exprNodes_rename, acts_rename, acts_rename_value]
        rw [← hvalue]
        exact hn
    -- With the assignment at the end, all is in order.
    have hall := hbefore.supplied (List.forall_mem_cons.2 ⟨hclosing, hreturned⟩)
    refine ⟨by omega, ?_⟩
    rw [acts_placed os front s sp e.span v (tempName c₂.temps) r hnil]
    simp only [before, List.append_assoc, List.map_append, List.cons_append, List.nil_append] at hall ⊢
    -- The three ranges make up the whole one.
    refine hall.mono ?_
    rintro k ((⟨_, _⟩ | rfl) | ⟨_, _⟩) <;> exact ⟨by omega, by omega⟩
  -- Without a value, the parameters and the body are all there is.
  · have hall := (has.supplied hos').append (hss.rename r) fun k hk hk' => by
      obtain ⟨_, hlt⟩ := hk
      obtain ⟨hge, _⟩ := hk'
      omega
    refine ⟨Nat.le_of_eq htemps.symm, ?_⟩
    have hacts : acts (stmtsNodes [.block ((Block.mk os ss sp).rename r)])
        = (acts (os.flatMap Assign.nodes)).map (Act.rename r) ++ (acts (stmtsNodes ss)).map (Act.rename r) := by
      simp [Stmt.nodes, acts_stmt, Block.nodes_rename, acts_rename, Block.nodes]
    rw [hacts, ← List.append_assoc]
    refine hall.mono ?_
    rintro k (⟨_, _⟩ | ⟨_, _⟩) <;> exact ⟨by omega, by omega⟩

section Ordered

variable {D : Dialect} {P : Prop} {f : Bool} {σ τ : Scope Entry} {lo hi : Nat} {c c' : Expansion}
  {p : List Stmt}

/-- Expanded trees use new temporaries, in order. -/
theorem Assembled.ordered (h : Assembled D P f σ τ lo hi c c' p) :
    c.temps ≤ c'.temps ∧ Ordered (c.Takes c') (acts (stmtsNodes p)) := by
  -- By induction on how the tree was assembled.
  induction h with
  | nil => exact ⟨Nat.le_refl _, Ordered.nil⟩
  -- The temporaries of the second part come behind those of the first one.
  | append _ _ _ ih₁ ih₂ =>
    obtain ⟨hle, hp⟩ := ih₁
    obtain ⟨hle', hq⟩ := ih₂
    rw [stmtsNodes_append, acts_append]
    refine ⟨Nat.le_trans hle hle', (hp.append hq ?_).mono ?_⟩
    · rintro k ⟨_, _⟩ ⟨_, _⟩
      omega
    · rintro k (⟨_, _⟩ | ⟨_, _⟩) <;> exact ⟨by omega, by omega⟩
  | congr _ _ _ ih => exact ih
  | rescope => exact ⟨Nat.le_refl _, Ordered.nil⟩
  | enumeration => exact ⟨Nat.le_refl _, Ordered.nil⟩
  | block sp _ ih =>
    rw [stmtsNodes_singleton, Stmt.nodes, acts_stmt (by simp), acts_block]
    exact ih
  -- The statement uses what is supplied in front of it, and its blocks use later temporaries.
  | nest _ _ left holds ih₁ ih₂ =>
    obtain ⟨hle, hp⟩ := ih₁
    obtain ⟨hle', hbs⟩ := ih₂
    rw [stmtsNodes_append, stmtsNodes_singleton, acts_append, holds.acts_eq, ← List.append_assoc]
    refine ⟨Nat.le_trans hle hle', ((hp.supplied left.supplies).append hbs ?_).mono ?_⟩
    · rintro k ⟨_, _⟩ ⟨_, _⟩
      omega
    · rintro k (⟨_, _⟩ | ⟨_, _⟩) <;> exact ⟨by omega, by omega⟩
  -- The assignment uses what is supplied in front of it.
  | declare _ left _ binding _ _ _ _ ih | assign _ left _ binding _ _ _ _ _ ih =>
    rw [stmtsNodes_append, stmtsNodes_singleton, acts_append]
    exact ⟨ih.1, ih.2.supplied (left.assigns binding)⟩
  -- The first clause, the test, the body and the step, in the order of their temporaries.
  | forLoop sp span span' _ _ _ left _ _ _ htest hstep _ ihi ihq ihs _ ihst =>
    obtain ⟨hle, hinit⟩ := ihi
    obtain ⟨hle₁, hq⟩ := ihq
    obtain ⟨hle₂, hss⟩ := ihs
    obtain ⟨hle₃, hst⟩ := ihst
    -- The test stays in the header, or it has moved into the body.
    obtain ⟨hheader, ts, hinner, hts⟩ := acts_tested left htest
    have htested : ∀ t ∈ ts, t.SuppliedBy _ := fun t ht => by
      obtain ⟨n, ty, rfl, hn⟩ := hts t ht
      exact hn.acts
    have hbody := (hq.supplied htested).append hss (by rintro k ⟨_, _⟩ ⟨_, _⟩; omega)
    rw [← hinner] at hbody
    refine ⟨by omega, ?_⟩
    -- The step is walked in front of the body, or behind it if it has moved.
    rcases acts_loop sp span hheader (hstep.imp_right fun h => ⟨h.1, h.2.2⟩) with hdone | hdone
    · rw [hdone]
      refine (hinit.append (hst.append hbody ?_) ?_).mono ?_
      · rintro k ⟨_, _⟩ (⟨_, _⟩ | ⟨_, _⟩) <;> omega
      · rintro k ⟨_, _⟩ (⟨_, _⟩ | ⟨_, _⟩ | ⟨_, _⟩) <;> omega
      · rintro k (⟨_, _⟩ | ⟨_, _⟩ | ⟨_, _⟩ | ⟨_, _⟩) <;> exact ⟨by omega, by omega⟩
    · rw [hdone]
      refine (hinit.append (hbody.append hst ?_) ?_).mono ?_
      · rintro k (⟨_, _⟩ | ⟨_, _⟩) ⟨_, _⟩ <;> omega
      · rintro k ⟨_, _⟩ ((⟨_, _⟩ | ⟨_, _⟩) | ⟨_, _⟩) <;> omega
      · rintro k (⟨_, _⟩ | (⟨_, _⟩ | ⟨_, _⟩) | ⟨_, _⟩) <;> exact ⟨by omega, by omega⟩
  -- A call: its arguments first, then what stands for the body.
  | @call _ _ _ _ _ _ _ _ _ _ _ _ _ _ _ _ _ _ _ binds _ _ _ sp _ left _ _ _ _ bound _ _ fresh returns place
      kept ihp ihs =>
    obtain ⟨hle, hp⟩ := ihp
    obtain ⟨hle', hss⟩ := ihs
    rw [stmtsNodes_append, acts_append]
    -- The parameters have bindings of their own.
    have hbinds : ∀ a ∈ binds, ∃ b, a.info.binding = some b := by
      intro a ha
      rw [bound] at ha
      obtain ⟨_, _, hb⟩ := numberBinds_variable ha
      exact ⟨_, hb⟩
    obtain ⟨hle'', hall⟩ := ordered_called fresh place kept returns hle hle' hp (left.overrides hbinds) hss
    exact ⟨Nat.le_trans hle (Nat.le_trans hle' hle''), hall⟩

end Ordered

end AisScript
