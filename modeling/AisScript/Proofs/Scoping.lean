import AisScript.Proofs.Supply

/-!
# Variables of expanded trees by scope

In an expanded tree every variable is found by its name: what a reference to a variable means is the
innermost declaration of its name, or no declaration has its name and it is reached from around the tree.
Temporaries are declared around every use.  Members of enumerations are not looked at.

* `Site.Finds`         variables that are found by name
* `Brings`             the scope behind a piece, and what the piece declares
* `Scoped`             the invariant of the pieces of an expanded tree
* `Assembled.scoped`   expanded trees are scoped
-/

namespace AisScript

/-! ## Places -/

/-- Whether a binding is a variable, of the script or of the host. -/
def Binding.isVariable (b : Binding) : Bool :=
  match b.origin with
  | .host | .script => true
  | .member _ | .enumeration => false

/-- A binding that is neither a member of an enumeration nor an enumeration is a variable. -/
theorem Binding.isVariable_of_value? {b : Binding} (h : b.value? = none) (horigin : b.origin ≠ .enumeration) :
    b.isVariable = true := by
  unfold Binding.isVariable
  unfold Binding.value? at h
  split <;> simp_all

/-- The temporary that a node reads or assigns. -/
def Node.temp? : Node → Option Text
  | .expr (.var _ n none) => some n
  | .stmt (.assign a) => if a.info.declares = false ∧ a.info.binding = none then some a.info.name else none
  | _ => none

/-- A renaming keeps temporaries. -/
theorem Node.temp?_rename (r : Renaming) (x : Node) : (x.rename r).temp? = x.temp? := by
  cases x with
  | expr e =>
    cases e with
    | var i n b => cases b <;> rfl
    | _ => rfl
  | stmt s =>
    cases s with
    | assign a =>
      obtain ⟨⟨_, _, _, declares, _, binding⟩, v⟩ := a
      cases declares <;> cases binding <;> rfl
    | _ => rfl

/-- A variable that a node refers to is the innermost one of its name, or it is reached from outside and no
variable in scope has its name. -/
def Site.Finds (σ : Scope Entry) (lo : Nat) (s : Site) : Prop :=
  ∀ n b, s.node.refers? = some (n, b) → b.isVariable = true →
    (lo ≤ b.id ∧ s.env.variables.lookup n = some (.variable (some b)))
      ∨ b.id < lo ∧ Reaches σ n b ∧ n.isPlain = true ∧ s.env.variables.lookup n = none

/-- A temporary that a node uses is declared around it. -/
def Site.Stocked (s : Site) : Prop := ∀ n, s.node.temp? = some n → (n, .variable none) ∈ s.env

/-- Everything that a node uses has its declaration. -/
def Site.Settles (σ : Scope Entry) (lo : Nat) (s : Site) : Prop := s.Finds σ lo ∧ s.Stocked

/-- What is reached behind a piece is declared by the piece under its own binding, or was reached in front of
it and no variable of the piece has its name. -/
def Brings (σ τ : Scope Entry) (lo : Nat) (ε : Env) : Prop :=
  ∀ n b, Reaches τ n b → n.isPlain = true → b.isVariable = true →
    (lo ≤ b.id ∧ ε.variables.lookup n = some (.variable (some b)))
      ∨ b.id < lo ∧ Reaches σ n b ∧ ε.variables.lookup n = none

/-- Variables whose names are not shown, or made up. -/
def Unseen (σ : Scope Entry) (ε : Env) : Prop := ∀ n w, (n, .variable w) ∈ ε → n.isPlain = true → ¬σ.Shows n

/-- A plain name that is shown is none of them. -/
theorem Unseen.lookup {σ : Scope Entry} {ε : Env} (h : Unseen σ ε) {n : Text} (hn : n.isPlain = true)
    (hshows : σ.Shows n) : ε.variables.lookup n = none := by
  refine List.lookup_eq_none_iff.2 fun y hy => bne_iff_ne.2 ?_
  rintro rfl
  obtain ⟨m, v⟩ := y
  obtain ⟨hy, w, hw⟩ := Env.mem_variables.1 hy
  obtain rfl : v = .variable w := hw
  exact h m w hy hn hshows

/-- No variables at all. -/
theorem Unseen.nil {σ : Scope Entry} : Unseen σ [] := fun _ _ h => by cases h

/-- Variables in front of others. -/
theorem Unseen.append {σ : Scope Entry} {ε δ : Env} (h : Unseen σ ε) (h' : Unseen σ δ) : Unseen σ (ε ++ δ) :=
  fun n w hn => (List.mem_append.1 hn).elim (h n w) (h' n w)

section Places

variable {D : Dialect} {σ τ υ : Scope Entry} {lo mid : Nat} {ε δ : Env} {s : Site}

/-- Names that are not shown change nothing that is reached. -/
private theorem Unseen.brings (h : Unseen σ ε) (hσ : Sound D lo σ) : Brings σ σ lo ε := fun _ _ hr hn _ =>
  .inr ⟨(hσ.reached hr).1, hr, h.lookup hn (hσ.closed hr)⟩

/-- Only what is found in the scopes counts. -/
theorem Brings.congr (h : Brings σ τ lo ε) {σ' τ' : Scope Entry} (hσ : ∀ m, σ'.lookup m = σ.lookup m)
    (hτ : ∀ m, τ'.lookup m = τ.lookup m) : Brings σ' τ' lo ε := by
  intro n b hr hn hb
  rcases h n b (hr.congr fun m => (hτ m).symm) hn hb with hown | ⟨hlt, hr, hnone⟩
  · exact .inl hown
  · exact .inr ⟨hlt, hr.congr hσ, hnone⟩

/-- A piece behind another one. -/
theorem Brings.trans (h : Brings σ τ lo ε) (h' : Brings τ υ mid δ) (hle : lo ≤ mid) :
    Brings σ υ lo (δ ++ ε) := by
  intro n b hr hn hb
  rw [Env.variables_append, List.lookup_append]
  rcases h' n b hr hn hb with ⟨hid, hsome⟩ | ⟨_, hr, hnone⟩
  · exact .inl ⟨Nat.le_trans hle hid, by rw [hsome]; rfl⟩
  · rw [hnone, Option.none_or]
    exact h n b hr hn hb

/-- Declarations around a place stay around it. -/
theorem Site.Stocked.under (h : s.Stocked) (ε : Env) : (s.under ε).Stocked :=
  fun n hn => List.mem_append_left ε (h n hn)

/-- A place behind a piece. -/
theorem Site.Settles.under (h : s.Settles τ mid) (hc : Brings σ τ lo ε) (hle : lo ≤ mid) :
    (s.under ε).Settles σ lo := by
  refine ⟨fun n b hn hb => ?_, h.2.under ε⟩
  rw [Site.under, Env.variables_append, List.lookup_append]
  rcases h.1 n b hn hb with ⟨hid, hsome⟩ | ⟨_, hr, hplain, hnone⟩
  · exact .inl ⟨Nat.le_trans hle hid, by rw [hsome]; rfl⟩
  · rw [hnone, Option.none_or]
    rcases hc n b hr hplain hb with hown | ⟨hlt, hr, hnone⟩
    · exact .inl hown
    · exact .inr ⟨hlt, hr, hplain, hnone⟩

/-- A place behind declarations that its scope does not show. -/
theorem Site.Finds.beside (h : s.Finds σ lo) (hσ : Sound D lo σ) (hnew : Unseen σ ε) :
    (s.under ε).Finds σ lo := by
  intro n b hn hb
  rw [Site.under, Env.variables_append, List.lookup_append]
  rcases h n b hn hb with ⟨hid, hsome⟩ | ⟨hlt, hr, hplain, hnone⟩
  · exact .inl ⟨hid, by rw [hsome]; rfl⟩
  · rw [hnone, Option.none_or]
    exact .inr ⟨hlt, hr, hplain, hnew.lookup hplain (hσ.closed hr)⟩

/-- A place behind declarations that its scope does not show. -/
theorem Site.Settles.beside (h : s.Settles σ lo) (hσ : Sound D lo σ) (hnew : Unseen σ ε) :
    (s.under ε).Settles σ lo := ⟨h.1.beside hσ hnew, h.2.under ε⟩

/-- Numbers that no binding in scope has can be counted to the piece. -/
theorem Site.Finds.lower (h : s.Finds σ mid) (hσ : Sound D lo σ) (hle : lo ≤ mid) : s.Finds σ lo := by
  intro n b hn hb
  rcases h n b hn hb with ⟨hid, hsome⟩ | ⟨_, hr, hrest⟩
  · exact .inl ⟨Nat.le_trans hle hid, hsome⟩
  · exact .inr ⟨(hσ.reached hr).1, hr, hrest⟩

/-- Numbers that no binding in scope has can be counted to the piece. -/
theorem Site.Settles.lower (h : s.Settles σ mid) (hσ : Sound D lo σ) (hle : lo ≤ mid) : s.Settles σ lo :=
  ⟨h.1.lower hσ hle, h.2⟩

/-- Only what is found in the scope counts. -/
theorem Site.Settles.congr (h : s.Settles σ lo) (heq : ∀ m, τ.lookup m = σ.lookup m) : s.Settles τ lo := by
  refine ⟨fun n b hn hb => ?_, h.2⟩
  rcases h.1 n b hn hb with hown | ⟨hlt, hr, hrest⟩
  · exact .inl hown
  · exact .inr ⟨hlt, hr.congr heq, hrest⟩

/-- A node that uses no variable. -/
private theorem Site.settles_of_none (hrefers : s.node.refers? = none) (htemp : s.node.temp? = none) :
    s.Settles σ lo := by
  refine ⟨fun n b hn _ => ?_, fun n hn => ?_⟩
  · cases hrefers.symm.trans hn
  · cases htemp.symm.trans hn

end Places

/-! ## What is left of expressions -/

/-- A declaration shows behind the statements it is among. -/
theorem mem_stmtsBehind_of_assign {p : List Stmt} {a : Assign} (ha : .assign a ∈ p)
    (hd : a.info.declares = true) (ε : Env) :
    (a.info.name, .variable a.info.binding) ∈ stmtsBehind ε p := by
  obtain ⟨front, back, rfl⟩ := List.append_of_mem ha
  rw [stmtsBehind_append, stmtsBehind, stmtsBehind_eq_append]
  refine List.mem_append_right _ ?_
  rw [Stmt.behind, Assign.behind, if_pos hd]
  exact List.mem_cons_self

/-- A temporary that is supplied is declared behind its supply. -/
theorem Supplies.behind {p : List Stmt} {n : Text} {t : Option Ty} (h : Supplies p n t) (ε : Env) :
    (n, .variable none) ∈ stmtsBehind ε p := by
  obtain ⟨⟨zero, sp, hz, _⟩, _⟩ := h
  exact mem_stmtsBehind_of_assign hz rfl ε

/-- What is left of expressions finds its variables behind what supplies them. -/
theorem Left.settles {D : Dialect} {σ : Scope Entry} {lo : Nat} (hσ : Sound D lo σ) {p : List Stmt}
    {es : List Expr} (h : Left σ p es) {ε : Env} (hnew : Unseen σ ε)
    (hsupply : ∀ n t, Supplies p n t → (n, .variable none) ∈ ε) :
    ∀ s ∈ (es.map Node.expr).map (Site.mk ε), s.Settles σ lo := by
  intro s hs
  rw [List.map_map] at hs
  obtain ⟨e, he, rfl⟩ := List.mem_map.1 hs
  -- References that are left are to variables that are reached; temporaries are supplied.
  refine ⟨fun n b hn _ => ?_, fun n hn => ?_⟩
  · cases e with
    | var i m w =>
      cases w with
      | none => cases hn
      | some w =>
        cases hn
        obtain ⟨hr, hplain, _⟩ := h.reached i n b he
        -- No name that the scope shows is declared in front.
        exact .inr ⟨(hσ.reached hr).1, hr, hplain, hnew.lookup hplain (hσ.closed hr)⟩
    | _ => cases hn
  · cases e with
    | var i m w =>
      cases w with
      | none =>
        cases hn
        -- A temporary that is read is declared in front.
        exact hsupply n i.ty (h.supplied i n he)
      | some w => cases hn
    | _ => cases hn

/-- A statement that declares nothing uses no variable itself. -/
theorem Stmt.Holds.settles {s : Stmt} {es : List Expr} {bs : List Block} (h : s.Holds es bs)
    (σ : Scope Entry) (lo : Nat) (ε : Env) : Site.Settles σ lo ⟨ε, .stmt s⟩ := by
  cases h <;> exact Site.settles_of_none rfl rfl

/-- Its places are its own, those of its expressions and those of its blocks. -/
theorem Stmt.Holds.sites {s : Stmt} {es : List Expr} {bs : List Block} (h : s.Holds es bs) (ε : Env)
    {x : Site} (hx : x ∈ s.sites ε) : x = ⟨ε, .stmt s⟩ ∨ x ∈ (es.map Node.expr).map (Site.mk ε)
      ∨ x ∈ stmtsSites ε (bs.map .block) := by
  cases h <;> simp [Stmt.sites, exprSites, exprNodes, stmtsSites, Stmt.behind] at hx ⊢ <;> grind

/-- It declares nothing. -/
theorem Stmt.Holds.behind {s : Stmt} {es : List Expr} {bs : List Block} (h : s.Holds es bs) (ε : Env) :
    s.behind ε = ε := by
  cases h <;> rfl

/-! ## Pieces -/

/-- The variables that a piece declares: temporaries, and unless it stands in front of an expression, names
that its scope does not show. -/
def Introduces (f : Bool) (σ τ : Scope Entry) (c c' : Expansion) (ε : Env) : Prop :=
  ∀ n w, (n, .variable w) ∈ ε → (w = none ∧ ∃ k, c.Takes c' k ∧ n = tempName k)
    ∨ f = false ∧ w.isSome = true ∧ n.isPlain = true ∧ ¬σ.Shows n ∧ τ.Shows n

/-- A piece of an expanded tree whose variables are found by name. -/
structure Scoped (f : Bool) (σ τ : Scope Entry) (lo : Nat) (c c' : Expansion) (p : List Stmt) : Prop where
  shows : ∀ n, σ.Shows n → τ.Shows n
  settles : ∀ s ∈ stmtsSites [] p, s.Settles σ lo
  brings : Brings σ τ lo (stmtsBehind [] p)
  declares : Introduces f σ τ c c' (stmtsBehind [] p)

section Pieces

variable {D : Dialect} {f g : Bool} {σ τ υ : Scope Entry} {lo mid : Nat} {c c₁ c' : Expansion} {ε : Env}
  {p q : List Stmt}

/-- What a piece declares is not seen in front of it. -/
private theorem Introduces.unseen (h : Introduces f σ τ c c' ε) : Unseen σ ε := by
  intro n w hn hplain hshows
  rcases h n w hn with ⟨_, k, _, rfl⟩ | ⟨_, _, _, hnot, _⟩
  · rw [isPlain_tempName] at hplain
    cases hplain
  · exact hnot hshows

/-- What stands in front of an expression declares temporaries only, which no scope shows. -/
private theorem Introduces.unseen_front (h : Introduces true σ τ c c' ε) (υ : Scope Entry) : Unseen υ ε := by
  intro n w hn hplain _
  rcases h n w hn with ⟨_, k, _, rfl⟩ | ⟨hf, _⟩
  · rw [isPlain_tempName] at hplain
    cases hplain
  · cases hf

/-- More numbers are free in front of a piece. -/
theorem Introduces.mono (h : Introduces f σ τ c₁ c' ε) (hle : c.temps ≤ c₁.temps) : Introduces f σ τ c c' ε := by
  intro n w hn
  rcases h n w hn with ⟨hw, k, ⟨hge, hlt⟩, hk⟩ | hrest
  · exact .inl ⟨hw, k, ⟨Nat.le_trans hle hge, hlt⟩, hk⟩
  · exact .inr hrest

/-- Nothing at all. -/
theorem Scoped.nil (hσ : Sound D lo σ) : Scoped f σ σ lo c c [] where
  shows _ h := h
  settles _ hs := by cases hs
  brings := Unseen.nil.brings hσ
  declares _ _ hn := by cases hn

/-- A piece with statements behind it. -/
theorem Scoped.join (hp : Scoped f σ τ lo c c₁ p) (hshows : ∀ n, τ.Shows n → υ.Shows n)
    (hsites : ∀ s ∈ stmtsSites (stmtsBehind [] p) q, s.Settles σ lo)
    (hbrings : Brings τ υ mid (stmtsBehind [] q)) (hdeclares : Introduces g τ υ c₁ c' (stmtsBehind [] q))
    (hlo : lo ≤ mid) (hle : c.temps ≤ c₁.temps) (hle' : c₁.temps ≤ c'.temps) {k : Bool}
    (hk : k = true → f = true ∧ g = true) : Scoped k σ υ lo c c' (p ++ q) where
  -- What is shown in front of the second part is shown behind it.
  shows n h := hshows n (hp.shows n h)
  settles := by
    rw [stmtsSites_append]
    exact List.forall_mem_append.2 ⟨hp.settles, hsites⟩
  brings := by
    rw [stmtsBehind_append, stmtsBehind_eq_append]
    exact hp.brings.trans hbrings hlo
  declares := by
    rw [stmtsBehind_append, stmtsBehind_eq_append]
    -- A declaration of the second part would be one of the whole.
    have hkf : f = false ∨ g = false → k = false := by
      cases k <;> simp_all
    intro n w hn
    -- A declaration of the second part, or of the first one.
    rcases List.mem_append.1 hn with hn | hn
    · rcases hdeclares n w hn with ⟨hw, j, ⟨hge, hlt⟩, hj⟩ | ⟨hg, hw, hplain, hnot, hshow⟩
      · exact .inl ⟨hw, j, ⟨by omega, hlt⟩, hj⟩
      · exact .inr ⟨hkf (.inr hg), hw, hplain, fun h => hnot (hp.shows n h), hshow⟩
    · rcases hp.declares n w hn with ⟨hw, j, ⟨hge, hlt⟩, hj⟩ | ⟨hf, hw, hplain, hnot, hshow⟩
      · exact .inl ⟨hw, j, ⟨hge, by omega⟩, hj⟩
      · exact .inr ⟨hkf (.inl hf), hw, hplain, hnot, hshows n hshow⟩

/-- A piece behind another one. -/
theorem Scoped.append (hp : Scoped f σ τ lo c c₁ p) (hq : Scoped g τ υ mid c₁ c' q) (hlo : lo ≤ mid)
    (hle : c.temps ≤ c₁.temps) (hle' : c₁.temps ≤ c'.temps) {k : Bool} (hk : k = true → f = true ∧ g = true) :
    Scoped k σ υ lo c c' (p ++ q) := by
  refine hp.join hq.shows ?_ hq.brings hq.declares hlo hle hle' hk
  rw [stmtsSites_eq_under (stmtsBehind [] p)]
  exact List.forall_mem_map.2 fun s hs => (hq.settles s hs).under hp.brings hlo

/-- Only what is found in the scopes counts. -/
theorem Scoped.congr (h : Scoped f σ τ lo c c' p) {σ' τ' : Scope Entry}
    (hσ : ∀ m, σ'.lookup m = σ.lookup m) (hτ : ∀ m, τ'.lookup m = τ.lookup m) :
    Scoped f σ' τ' lo c c' p where
  shows n hn := by
    rw [Scope.Shows, hσ] at hn
    rw [Scope.Shows, hτ]
    exact h.shows n hn
  settles s hs := (h.settles s hs).congr hσ
  brings := h.brings.congr hσ hτ
  declares n w hn := by
    simp only [Scope.Shows, hσ, hτ]
    exact h.declares n w hn

/-- A block of its own. -/
theorem Scoped.block (hσ : Sound D lo σ) (h : Scoped f σ.push τ lo c c' p) (sp : Span) :
    Scoped g σ σ lo c c' [.block (.mk [] p sp)] where
  shows _ h := h
  settles := by
    rw [stmtsSites_singleton]
    refine List.forall_mem_cons.2 ⟨Site.settles_of_none rfl rfl, fun s hs => ?_⟩
    exact (h.settles s hs).congr fun m => (σ.lookup_push m).symm
  brings := Unseen.nil.brings hσ
  declares _ _ hn := by cases hn

/-- A statement behind what stands in front of its expressions. -/
theorem Scoped.nest (hσ : Sound D lo σ) (hp : Scoped true σ σ lo c c₁ p) {s : Stmt} {es : List Expr}
    {bs : List Block} (hbs : Scoped false σ σ mid c₁ c' (bs.map .block)) (left : Left σ p es)
    (holds : s.Holds es bs) (hlo : lo ≤ mid) (hle : c.temps ≤ c₁.temps) (hle' : c₁.temps ≤ c'.temps) :
    Scoped false σ σ lo c c' (p ++ [s]) := by
  have hnew := hp.declares.unseen_front σ
  have hbehind : stmtsBehind [] [s] = [] := holds.behind []
  have hsites : ∀ x ∈ stmtsSites (stmtsBehind [] p) [s], x.Settles σ lo := by
    rw [stmtsSites_singleton]
    intro x hx
    -- A place of the statement itself, of its expressions or of its blocks.
    rcases holds.sites _ hx with rfl | hx | hx
    · exact holds.settles σ lo _
    · exact left.settles hσ hnew (fun n t h => h.behind []) x hx
    · rw [stmtsSites_eq_under] at hx
      obtain ⟨y, hy, rfl⟩ := List.mem_map.1 hx
      exact ((hbs.settles y hy).lower hσ hlo).beside hσ hnew
  refine hp.join (fun _ h => h) hsites ?_ (g := false) ?_ (Nat.le_refl lo) hle hle' fun hk => by cases hk
  · rw [hbehind]
    exact Unseen.nil.brings hσ
  -- The blocks are closed again, so the statement declares nothing.
  · rw [hbehind]
    exact fun _ _ hn => by cases hn

/-- The value of an assignment, behind what stands in front of it. -/
private theorem assign_sites (hσ : Sound D lo σ) (hp : Scoped true σ σ lo c c' p) {i : AssignInfo} {v : Expr}
    (left : Left σ p v.nodes)
    (hself : Site.Settles σ lo ⟨stmtsBehind [] p, .stmt (.assign (.mk i v))⟩) :
    ∀ s ∈ stmtsSites (stmtsBehind [] p) [.assign (.mk i v)], s.Settles σ lo := by
  rw [stmtsSites_singleton]
  refine List.forall_mem_cons.2 ⟨hself, ?_⟩
  exact left.settles hσ (hp.declares.unseen_front σ) fun n t h => h.behind []

/-- A declaration behind what stands in front of its value. -/
theorem Scoped.declare (hσ : Sound D lo σ) (hp : Scoped true σ σ lo c c' p) {i : AssignInfo} {v : Expr}
    {t : Ty} (left : Left σ p v.nodes) (hlo : lo ≤ mid) (hle : c.temps ≤ c'.temps)
    (hd : i.declares = true) (hb : i.binding = some (.variable mid t)) (hplain : i.name.isPlain = true)
    (hnone : σ.lookup i.name = none) :
    Scoped false σ (σ.define i.name (.value (.variable mid t))) lo c c' (p ++ [.assign (.mk i v)]) := by
  -- The name is not shown, as it is not found.
  have hnot : ¬σ.Shows i.name := by
    rw [Scope.Shows, hnone]
    simp
  -- Behind the declaration, one variable is declared.
  have hbehind : stmtsBehind [] [.assign (.mk i v)] = [(i.name, .variable (some (.variable mid t)))] := by
    show (Assign.mk i v).behind [] = _
    rw [Assign.behind, Assign.info, if_pos hd, hb]
  -- The declaration refers to nothing and to no temporary.
  have hself : Site.Settles σ lo ⟨stmtsBehind [] p, .stmt (.assign (.mk i v))⟩ := by
    refine Site.settles_of_none (if_pos hd) ?_
    simp [Node.temp?, Assign.info, hd]
  have hbrings : Brings σ (σ.define i.name (.value (.variable mid t))) mid
      (stmtsBehind [] [.assign (.mk i v)]) := by
    rw [hbehind]
    intro n b hr _ _
    show _ ∨ _ ∧ _ ∧ List.lookup n [_] = none
    -- A variable was reached before, or it is the declared one.
    rcases hr.of_define with hr | ⟨rfl, hb⟩ | ⟨_, _, _, hb, _⟩
    · -- Everything that was reached is shown, so it has another name.
      have hne : n ≠ i.name := by
        rintro rfl
        exact hnot (hσ.closed hr)
      refine .inr ⟨Nat.lt_of_lt_of_le (hσ.reached hr).1 hlo, hr, ?_⟩
      simp [List.lookup_cons, beq_false_of_ne hne]
    · cases hb
      exact .inl ⟨Nat.le_refl mid, by simp [Env.variables, Binder.isVariable]⟩
    · cases hb
  refine hp.join (fun n h => h.define _ _) (assign_sites hσ hp left hself) hbrings (g := false) ?_ hlo
    hle (Nat.le_refl _) fun hk => by cases hk
  rw [hbehind]
  intro n w hn
  -- What is declared is the variable itself, whose name was new.
  cases List.mem_singleton.1 hn
  exact .inr ⟨rfl, rfl, hplain, hnot, σ.shows_define_self _ _⟩

/-- An assignment of a variable in scope behind what stands in front of its value. -/
theorem Scoped.assign (hσ : Sound D lo σ) (hp : Scoped true σ σ lo c c' p) {i : AssignInfo} {v : Expr}
    {b : Binding} (left : Left σ p v.nodes) (hle : c.temps ≤ c'.temps) (hd : i.declares = false)
    (hb : i.binding = some b) (hplain : i.name.isPlain = true) (hbound : σ.lookup i.name = some (.value b)) :
    Scoped false σ σ lo c c' (p ++ [.assign (.mk i v)]) := by
  have hneg : ¬i.declares = true := by
    rw [hd]
    simp
  -- An assignment of a variable in scope declares nothing.
  have hbehind : stmtsBehind [] [.assign (.mk i v)] = [] := if_neg hneg
  have hself : Site.Settles σ lo ⟨stmtsBehind [] p, .stmt (.assign (.mk i v))⟩ := by
    refine ⟨fun n d hn _ => ?_, fun n hn => ?_⟩
    -- It refers to its own variable.
    · have hrefers : (Node.stmt (.assign (.mk i v))).refers? = some (i.name, b) := by
        rw [Node.refers?, Assign.info, if_neg hneg, hb]
        rfl
      cases hrefers.symm.trans hn
      -- The variable is reached, and no name in front hides it.
      have hr : Reaches σ i.name b := .here hbound
      exact .inr ⟨(hσ.reached hr).1, hr, hplain, (hp.declares.unseen_front σ).lookup hplain (hσ.closed hr)⟩
    · simp [Node.temp?, Assign.info, hb] at hn
  refine hp.join (fun _ h => h) (assign_sites hσ hp left hself) ?_ (g := false) ?_ (Nat.le_refl lo) hle
    (Nat.le_refl _) fun hk => by cases hk
  · rw [hbehind]
    exact Unseen.nil.brings hσ
  · rw [hbehind]
    exact fun _ _ hn => by cases hn

end Pieces

/-! ## Enumerations -/

/-- Members of an enumeration are no variables. -/
theorem variables_membersBehind (ε : Env) (ms : List EnumMember) :
    (membersBehind ε ms).variables = ε.variables := by
  induction ms generalizing ε with
  | nil => rfl
  | cons m ms ih => exact ih _

/-- Everything that is shown is shown behind an enumeration. -/
theorem Scope.Shows.bindEnum {σ : Scope Entry} {n : Text} (h : σ.Shows n) (lo : Nat) (d : Enumeration) :
    (bindEnum σ lo d).1.Shows n := by
  have hmembers : ∀ (ms : List EnumMember) (τ : Scope Entry) (next : Nat), τ.Shows n →
      (bindMembers τ next ms).1.Shows n := by
    intro ms
    induction ms with
    | nil => exact fun _ _ h => h
    | cons m ms ih => exact fun τ next h => ih _ _ (h.define _ _)
  exact hmembers d.members _ _ (h.define _ _)

/-- Behind an enumeration, the variables that are reached are those that were reached in front of it. -/
private theorem scoped_enumeration {D : Dialect} {σ : Scope Entry} {lo : Nat} (hσ : Sound D lo σ)
    (c : Expansion)
    (sp : Span) (d : Enumeration) : Scoped false σ (bindEnum σ lo d).1 lo c c [.enumDef sp d] where
  shows n h := h.bindEnum lo d
  settles := by
    rw [stmtsSites_singleton]
    intro s hs
    cases List.mem_singleton.1 hs
    exact Site.settles_of_none rfl rfl
  brings n b hr hn hb := by
    -- A variable was reached in front, or it is of the enumeration, and those are none.
    rcases hr.of_bindEnum with hr | ⟨_, _, _, horigin⟩
    · refine .inr ⟨(hσ.reached hr).1, hr, ?_⟩
      show (membersBehind [] d.members).variables.lookup n = none
      rw [variables_membersBehind]
      rfl
    · rcases horigin with horigin | ⟨v, horigin⟩ <;> simp [Binding.isVariable, horigin] at hb
  declares n w hn := by
    -- Members are no variables.
    have hmem : (n, Binder.variable w) ∈ (membersBehind [] d.members).variables :=
      Env.mem_variables.2 ⟨hn, w, rfl⟩
    rw [variables_membersBehind] at hmem
    cases hmem

/-! ## Calls -/

/-- A node that declares a variable is an assignment. -/
theorem Node.assign_of_binds {x : Node} {n : Text} {w : Option Binding} (h : x.Binds (n, .variable w)) :
    ∃ a, x = .stmt (.assign a) ∧ a.info.declares = true ∧ n = a.info.name ∧ w = a.info.binding := by
  unfold Node.Binds at h
  split at h
  · obtain ⟨hd, hy⟩ := h
    cases hy
    exact ⟨_, rfl, hd, rfl, rfl⟩
  · obtain ⟨_, _, hy⟩ := h
    cases hy
  · exact h.elim

/-- Declarations that are counted have numbers and names of their own. -/
theorem Counted.numbered {x y : Counter} {xs : List Node} (h : Counted x y (acts xs)) :
    Numbered x.binding y.fresh xs := by
  have hact : ∀ a, Node.stmt (.assign a) ∈ xs → .assign a ∈ acts xs :=
    fun a ha => List.mem_filterMap.2 ⟨_, ha, rfl⟩
  -- A declaration has a mark of its own.
  have hown : ∀ a b, a.info.declares = true → a.info.binding = some b →
      (Act.assign a).mark? = some (.own b.id) := by
    intro a b hd hb
    simp [Act.mark?, Assign.mark?, hd, hb]
  refine ⟨fun z hz n w hb => ?_, fun z hz z' hz' n n' b b' hb hb' hid => ?_⟩
  -- A node that binds is a declaration, of a temporary or of a variable.
  · obtain ⟨a, rfl, hd, rfl, rfl⟩ := Node.assign_of_binds hb
    cases hbinding : a.info.binding with
    -- A temporary has its name from its number.
    | none =>
      have hmark : (Act.assign a).mark? = some (.opened a.info.name) := by
        simp [Act.mark?, Assign.mark?, hd, hbinding]
      obtain ⟨k, hk, _⟩ := h.within _ (List.mem_filterMap.2 ⟨_, hact a hz, hmark⟩)
      exact .inl ⟨rfl, k, hk⟩
    -- A variable has its number, and its name is known.
    | some b =>
      have hwithin := h.within _ (List.mem_filterMap.2 ⟨_, hact a hz, hown a b hd hbinding⟩)
      obtain ⟨_, hknown, _⟩ := (h.kept a (hact a hz) b hbinding).1 hd
      exact .inr ⟨b, rfl, hwithin.1, hknown⟩
  · obtain ⟨a, rfl, hd, rfl, hbinding⟩ := Node.assign_of_binds hb
    obtain ⟨a', rfl, hd', rfl, hbinding'⟩ := Node.assign_of_binds hb'
    -- Two declarations under the same number have the same mark, so they are one.
    have hmark' : (Act.assign a').mark? = some (.own b.id) := by
      rw [hid]
      exact hown a' b' hd' hbinding'.symm
    have heq := h.unique (hact a hz) (hact a' hz') (hown a b hd hbinding.symm) hmark'
    cases heq
    rfl

/-- A variable that a node refers to is the innermost one of its name, or it is reached from outside. -/
def Site.Seeks (σ : Scope Entry) (lo : Nat) (s : Site) : Prop :=
  ∀ n b, s.node.refers? = some (n, b) → b.isVariable = true →
    (lo ≤ b.id ∧ s.env.variables.lookup n = some (.variable (some b)))
      ∨ b.id < lo ∧ Reaches σ n b ∧ n.isPlain = true

section Calls

variable {D : Dialect} {σ υ : Scope Entry} {lo mid number : Nat} {δ : Env} {p : List Stmt}

/-- Behind a renaming of what is contested, a body finds what it sought. -/
private theorem Block.rename_finds {b : Block} (hb : Numbered lo number b.nodes)
    (h : ∀ s ∈ b.sites [], s.Seeks σ lo ∧ (s.under δ).Stocked) :
    ∀ s ∈ (b.rename (freshNames number (contested b.nodes))).sites [],
      s.Finds σ lo ∧ (s.under δ).Stocked := by
  intro s' hs'
  -- The places of the renamed body are the renamed places.
  have hsites := b.sites_rename (freshNames number (contested b.nodes)) []
  rw [Env.rename, List.map_nil] at hsites
  rw [hsites] at hs'
  obtain ⟨s, hs, rfl⟩ := List.mem_map.1 hs'
  obtain ⟨hseeks, hstocked⟩ := h s hs
  refine ⟨fun n c hn hc => ?_, fun n hn => ?_⟩
  · rw [Site.rename, Node.refers?_rename] at hn
    -- The reference was to a variable, which keeps its number.
    obtain ⟨⟨m, c⟩, hm, heq⟩ := Option.map_eq_some_iff.1 hn
    cases heq
    -- The variable is declared in the body, or it is one of outside.
    rcases hseeks m c hm hc with ⟨hle, hfound⟩ | ⟨hlt, hr, hplain⟩
    -- A declaration is renamed together with what refers to it.
    · exact .inl ⟨hle, Block.rename_keeps hb hs hfound⟩
    -- The renamed declarations free the names of outside.
    · obtain ⟨hkeeps, hnone⟩ := Block.rename_frees hb hs hm hlt hplain
      rw [hkeeps]
      exact .inr ⟨hlt, hr, hplain, hnone⟩
  · have hn : (s.node.rename (freshNames number (contested b.nodes))).temp? = some n := hn
    rw [Node.temp?_rename] at hn
    -- Temporaries keep their names.
    refine (List.mem_append.1 (hstocked n hn)).elim (fun hmem => ?_) (List.mem_append_right _)
    exact List.mem_append_left _ (List.mem_map.2 ⟨_, hmem, rfl⟩)

/-- The places of the parameters of a call: only their values refer to anything. -/
private theorem overrides_site {binds : List Assign} (hbinds : ∀ a ∈ binds, a.info.declares = true)
    {args : List Expr} {ε : Env} {s : Site} (hs : s ∈ assignsSites ε (bindExpanded binds args)) :
    (s.node.refers? = none ∧ s.node.temp? = none) ∨ ∃ x ∈ nodesOfList args, s.node = .expr x := by
  -- Parameters and arguments run out together.
  induction binds generalizing args ε with
  | nil => cases hs
  | cons b binds ih =>
    cases args with
    | nil => cases hs
    | cons e args =>
      obtain ⟨hd, hbinds⟩ := List.forall_mem_cons.1 hbinds
      rcases List.mem_append.1 hs with hs | hs
      -- A parameter that is bound declares, so it refers to nothing.
      · rcases List.mem_cons.1 hs with rfl | hs
        · refine .inl ⟨if_pos hd, if_neg fun h => ?_⟩
          have hnot : b.info.declares = false := h.1
          cases hd.symm.trans hnot
        -- Its argument refers to what it referred to.
        · obtain ⟨_, hnode, rfl⟩ := List.mem_map.1 hs
          obtain ⟨x, hx, rfl⟩ := List.mem_map.1 hnode
          exact .inr ⟨x, List.mem_append_left _ hx, rfl⟩
      · rcases ih hbinds hs with hbound | ⟨x, hx, heq⟩
        · exact .inl hbound
        · exact .inr ⟨x, List.mem_append_right _ hx, heq⟩

/-- Variables behind assignments. -/
private theorem variables_assignsBehind (ε : Env) (as : List Assign) :
    (assignsBehind ε as).variables = assignsBehind ε.variables as := by
  induction as generalizing ε with
  | nil => rfl
  | cons a as ih =>
    have ha : (a.behind ε).variables = a.behind ε.variables := by
      unfold Assign.behind
      split <;> simp [Env.variables, Binder.isVariable]
    rw [assignsBehind, ih, ha, assignsBehind]

/-- The body of a call, behind the parameters and in the scope of the call. -/
private theorem called_seeks (hσ : Sound D lo σ) (hlo : lo ≤ mid) {name : Text} {params : List Param}
    {template : Block} {captured : List (Text × Entry)}
    (hf : σ.lookup name = some (.function params template captured)) {args args' : List Expr}
    (hlen : params.length = args.length) (hlen' : args'.length = args.length)
    (left : Left σ p (nodesOfList args')) (hδ : ∀ n t, Supplies p n t → (n, .variable none) ∈ δ)
    {binds : List Assign} (hbound : binds = numberBinds mid (bindArguments params args)) {c c' : Expansion}
    {ss : List Stmt} (hss : Scoped false (bodyScope captured binds) υ (mid + params.length) c c' ss)
    (sp : Span) :
    ∀ s ∈ (Block.mk (bindExpanded binds args') ss sp).sites [], s.Seeks σ mid ∧ (s.under δ).Stocked := by
  have hbinds := numberBinds_declare mid params args
  have hinfo := map_info_bindExpanded ((length_numberBinds mid params args hlen).trans hlen'.symm)
  rw [← hbound] at hbinds hinfo
  -- The places of the parameters, and those of the body.
  refine List.forall_mem_append.2 ⟨fun s hs => ?_, ?_⟩
  · rcases overrides_site (fun a ha => (hbinds a ha).1) hs with ⟨hrefers, htemp⟩ | ⟨x, hx, heq⟩
    · obtain ⟨hfinds, hstocked⟩ : s.Settles σ mid := Site.settles_of_none hrefers htemp
      refine ⟨fun n b hn hb => ?_, hstocked.under δ⟩
      cases hrefers.symm.trans hn
    · refine ⟨fun n b hn _ => ?_, fun n hn => ?_⟩
      -- The argument reads a variable that is reached at the call.
      · rw [heq] at hn
        cases x with
        | var i m w =>
          cases w with
          | none => cases hn
          | some w =>
            cases hn
            obtain ⟨hr, hplain, _⟩ := left.reached i n b hx
            exact .inr ⟨Nat.lt_of_lt_of_le (hσ.reached hr).1 hlo, hr, hplain⟩
        | _ => cases hn
      -- The argument reads a temporary that is declared in front.
      · have hn : s.node.temp? = some n := hn
        rw [heq] at hn
        cases x with
        | var i m w =>
          cases w with
          | none =>
            cases hn
            exact List.mem_append_right _ (hδ n i.ty (left.supplied i n hx))
          | some w => cases hn
        | _ => cases hn
  · rw [stmtsSites_eq_under]
    refine List.forall_mem_map.2 fun s hs => ?_
    -- In its own scope, the body settles behind the parameters.
    obtain ⟨hfinds, hstocked⟩ := hss.settles s hs
    refine ⟨fun n b hn hb => ?_, (hstocked.under _).under δ⟩
    rw [Site.under, Env.variables_append, variables_assignsBehind, assignsBehind_congr hinfo, List.lookup_append]
    rcases hfinds n b hn hb with ⟨hid, hsome⟩ | ⟨_, hr, hplain, hnone⟩
    -- A variable of the body, which is found in front of all parameters.
    · exact .inl ⟨by omega, by rw [hsome]; rfl⟩
    · -- What the body was defined in view of is reached through the function.
      have hthrough : ∀ n b, Reaches ⟨captured, []⟩ n b → b.id < mid ∧ Reaches σ n b := fun n b hr =>
        ⟨Nat.lt_of_lt_of_le (hσ.reached (.through hf hr)).1 hlo, .through hf hr⟩
      rw [hnone, Option.none_or]
      refine (@extendAll_covers _ _ _ [] _ hbinds (fun m d hm => ?_) (fun g ps t κ hg m d hm => ?_) n b hr).imp_right
        fun h => ⟨h.1, h.2, hplain⟩
      · rw [Scope.lookup_push] at hm
        exact .inr (hthrough m d (.here hm))
      · rw [Scope.lookup_push] at hg
        exact hthrough m d (.through hg hm)

/-- Changing the return of a body to an assignment changes no place but its own. -/
private theorem mem_sites_returned {os : List Assign} {front : List Stmt} {s sp : Span} {v : Expr}
    {n : Text} {x : Site} (hx : x ∈ (Block.mk os (front ++ [.assign (.make n v false s)]) sp).sites []) :
    x ∈ (Block.mk os (front ++ [.ret s v]) sp).sites []
      ∨ x.node = .stmt (.assign (.make n v false s)) := by
  simp only [Block.sites, stmtsSites_append, stmtsSites_singleton, List.mem_append] at hx ⊢
  rcases hx with hx | hx | hx
  · exact .inl (.inl hx)
  · exact .inl (.inr (.inl hx))
  · rcases List.mem_cons.1 hx with rfl | hx
    · exact .inr rfl
    · exact .inl (.inr (.inr (List.mem_cons_of_mem _ hx)))

/-- What stands for a call, in the scope of the call and behind declarations that supply its arguments. -/
private theorem called_settles (hσ : Sound D lo σ) (hlo : lo ≤ mid) (hδ : Unseen σ δ) {os : List Assign}
    {ss q : List Stmt} {sp : Span} {b : Block} {e e' : Expr} {c c₁ c' : Expansion}
    (fresh : freshened (.mk os ss sp) c = .ok (b, c₁)) (place : placeBody e b c₁ = .ok ((q, e'), c'))
    (kept : e'.ty? = e.ty?) (hnum : Numbered mid c.renamed (Block.mk os ss sp).nodes)
    (hbody : ∀ s ∈ (Block.mk os ss sp).sites [], s.Seeks σ mid ∧ (s.under δ).Stocked) :
    (∀ s ∈ stmtsSites δ q, s.Settles σ lo) ∧ Introduces true σ σ c c' (stmtsBehind [] q) := by
  -- The contested names of the body are renamed, and its last statement may change.
  obtain ⟨_, hq⟩ := called_cases fresh place kept
  have hrenamed := Block.rename_finds hnum hbody
  generalize freshNames c.renamed (contested (Block.mk os ss sp).nodes) = r at hq hrenamed
  have hplaced : ∀ s ∈ ((Block.mk os ss sp).rename r).sites [], ∀ ε, Unseen σ ε →
      ((s.under ε).under δ).Settles σ lo := by
    intro s hs ε hε
    obtain ⟨hfinds, hstocked⟩ := hrenamed s hs
    -- What the body seeks outside is not hidden by what is declared around it.
    refine ⟨((hfinds.lower hσ hlo).beside hσ hε).beside hσ hδ, fun n hn => ?_⟩
    have hmem : _ ∈ s.env ++ δ := hstocked n hn
    show _ ∈ s.env ++ ε ++ δ
    -- A temporary is declared in the body or in front of the call.
    rcases List.mem_append.1 hmem with hmem | hmem
    · exact List.mem_append_left _ (List.mem_append_left _ hmem)
    · exact List.mem_append_right _ hmem
  rw [stmtsSites_eq_under]
  -- A value is returned, and held in a new temporary, or the body stands as a block.
  rcases hq with ⟨front, s, v, zero, rfl, _, hzero, htemps, rfl⟩ | ⟨htemps, rfl⟩
  · let opened : Text × Binder := (tempName c.temps, .variable none)
    have hopened : Unseen σ [opened] := by
      -- Temporaries have names that no scope shows.
      intro n w hn hplain
      have hy : (n, Binder.variable w) = (tempName c.temps, .variable none) := List.mem_singleton.1 hn
      cases hy
      rw [isPlain_tempName] at hplain
      cases hplain
    refine ⟨List.forall_mem_map.2 fun x hx => ?_, fun n w hn => ?_⟩
    · let placed : Block := .mk (os.map (·.rename r)) (renameStmts r front
        ++ [.assign (.make (tempName c.temps) (v.rename r) false s)]) sp
      have hsites : stmtsSites [] [.assign (.make (tempName c.temps) zero true e.span), .block placed]
          = (Assign.make (tempName c.temps) zero true e.span).sites []
            ++ ⟨[opened], .stmt (.block placed)⟩ :: placed.sites ([] ++ [opened]) := by
        rw [stmtsSites, stmtsSites_singleton]
        rfl
      rw [hsites, Block.sites_under] at hx
      -- A place of the declaration of the temporary.
      rcases List.mem_append.1 hx with hx | hx
      · rcases List.mem_cons.1 hx with rfl | hx
        · exact (Site.settles_of_none rfl rfl).beside hσ hδ
        -- The zero value reads nothing that has to be declared.
        · have hzero' := (hzero σ).settles hσ Unseen.nil (fun n t h => by cases h.acts.1) x hx
          exact hzero'.beside hσ hδ
      -- A place of the block around the body.
      · rcases List.mem_cons.1 hx with rfl | hx
        · exact (Site.settles_of_none rfl rfl).beside hσ hδ
        · obtain ⟨y, hy, rfl⟩ := List.mem_map.1 hx
          -- A place that the body had before, or the assignment of the returned value.
          rcases mem_sites_returned hy with hy | hy
          · refine hplaced y ?_ [opened] hopened
            rw [Block.rename, renameStmts_eq_map, List.map_append, ← renameStmts_eq_map]
            exact hy
          -- The assignment refers to the new temporary only, and it is declared in front.
          · refine ⟨fun n d hn _ => ?_, fun n hn => ?_⟩
            · rw [Site.under, Site.under, hy] at hn
              cases hn
            · rw [Site.under, Site.under, hy] at hn
              cases hn
              exact List.mem_append_left _ (List.mem_append_right _ List.mem_cons_self)
    -- The only declaration is that of the temporary, whose number is new.
    · cases List.mem_singleton.1 hn
      exact .inl ⟨rfl, c.temps, ⟨Nat.le_refl _, by omega⟩, rfl⟩
  -- The block declares nothing that is seen behind it.
  · refine ⟨List.forall_mem_map.2 fun x hx => ?_, fun _ _ hn => by cases hn⟩
    rw [stmtsSites_singleton] at hx
    rcases List.mem_cons.1 hx with rfl | hx
    · exact (Site.settles_of_none rfl rfl).beside hσ hδ
    -- The body has no temporary in front.
    · have hx' := hplaced x hx [] Unseen.nil
      rwa [show x.under [] = x by simp [Site.under]] at hx'

end Calls

/-! ## Loops -/

section Loops

variable {D : Dialect} {σ η η' υ : Scope Entry} {lo m₁ m₂ m₃ : Nat} {c c₁ c₂ c₃ c' : Expansion}
  {p q r ss inner last : List Stmt} {i st step : Option Assign} {x test : Option Expr} {sp span span' : Span}

/-- A guarded body. -/
private theorem guarded_settles (hη : Sound D lo η) {ε : Env} {e : Expr}
    (hsupply : ∀ n t, Supplies q n t → (n, .variable none) ∈ ε) (hε : Unseen η ε) (left : Left η q e.nodes)
    (hss : ∀ s ∈ stmtsSites ε ss, s.Settles η lo) :
    ∀ s ∈ (guarded sp e (.mk [] ss span)).sites ε, s.Settles η lo := by
  refine List.forall_mem_cons.2 ⟨Site.settles_of_none rfl rfl, List.forall_mem_append.2
    ⟨List.forall_mem_append.2 ⟨left.settles hη hε hsupply, hss⟩, ?_⟩⟩
  intro s hs
  cases List.mem_singleton.1 hs
  exact Site.settles_of_none rfl rfl

/-- The test of a loop in its header, and the body of a loop behind the declaration of its step, with the test
if that has moved there. -/
private theorem inner_settles (hη : Sound D m₁ η) (hη' : Sound D m₃ η') {δ : Env} (hδ : Brings η η' m₂ δ)
    (hnew : Unseen η δ) (hshows : ∀ n, η.Shows n → η'.Shows n) (hq : Scoped true η η m₁ c₁ c₂ q)
    (left : Left η q (nodesOfOption x)) (hss : Scoped false η'.push υ m₃ c₂ c₃ ss) (h₁₂ : m₁ ≤ m₂)
    (h₂₃ : m₂ ≤ m₃)
    (htest : test = x ∧ q = [] ∧ inner = ss
      ∨ test = none ∧ ∃ e, x = some e ∧ inner = q ++ [guarded sp e (.mk [] ss span')]) :
    (∀ s ∈ ((nodesOfOption test).map Node.expr).map (Site.mk []), s.Settles η m₁)
      ∧ (∀ s ∈ stmtsSites δ inner, s.Settles η m₁) ∧ Unseen η (stmtsBehind [] inner) := by
  have hbody : ∀ s ∈ stmtsSites [] ss, s.Settles η' m₃ := fun s hs =>
    (hss.settles s hs).congr fun m => (η'.lookup_push m).symm
  -- The test stays in the header, or it has moved into the body.
  rcases htest with ⟨rfl, rfl, rfl⟩ | ⟨rfl, e, rfl, rfl⟩
  · have hnone : ∀ n t, Supplies [] n t → (n, Binder.variable none) ∈ ([] : Env) :=
      fun n t h => by cases h.acts.1
    refine ⟨left.settles hη Unseen.nil hnone, ?_, fun n w hn hplain hshow => ?_⟩
    -- The body comes behind the step, which is typed in front of it.
    · rw [stmtsSites_eq_under]
      exact List.forall_mem_map.2 fun s hs => ((hbody s hs).under hδ h₂₃).lower hη h₁₂
    -- What the body declares is new in front of the step, too.
    · refine hss.declares.unseen n w hn hplain ?_
      rw [Scope.Shows, Scope.lookup_push]
      exact hshows n hshow
  · have htemps : Unseen η (stmtsBehind [] q) := hq.declares.unseen_front η
    refine ⟨(fun _ hs => by cases hs), ?_, ?_⟩
    -- What stands in front of the test comes first, then the test with the body.
    · rw [stmtsSites_append, stmtsSites_singleton, stmtsSites_eq_under δ q, stmtsBehind_eq_append δ q]
      refine List.forall_mem_append.2 ⟨List.forall_mem_map.2 fun s hs => (hq.settles s hs).beside hη hnew, ?_⟩
      refine guarded_settles hη (fun n t h => List.mem_append_left _ (h.behind [])) (htemps.append hnew) left ?_
      -- The body comes behind the temporaries of the test, which its scope does not show.
      rw [stmtsSites_eq_under]
      refine List.forall_mem_map.2 fun s hs => ?_
      have hbeside := (hbody s hs).beside hη' (hq.declares.unseen_front η')
      have hunder := (hbeside.under hδ h₂₃).lower hη h₁₂
      simpa [Site.under] using hunder
    · rw [stmtsBehind_append]
      exact htemps

/-- A loop behind what stands in front of it, from the places of its parts behind its first clause. -/
private theorem forLoop_join (hσ : Sound D lo σ) (hp : Scoped true σ.push σ.push lo c c₁ p)
    (hinit : Scoped false σ.push η lo c c₁ (p ++ i.toList.map .assign)) (hlo : lo ≤ m₁)
    (hle : c.temps ≤ c₁.temps) (hle' : c₁.temps ≤ c'.temps) {δ : Env}
    (hδ : ∀ ε, clauseBehind ε step = δ ++ ε)
    (htest : ∀ s ∈ ((nodesOfOption test).map Node.expr).map (Site.mk []), s.Settles η m₁)
    (hstep : ∀ s ∈ clauseSites [] step, s.Settles η m₁) (hbody : ∀ s ∈ stmtsSites δ ss, s.Settles η m₁) :
    Scoped false σ σ lo c c' (p ++ [.forLoop sp i test step (.mk [] ss span)]) := by
  have hpush : ∀ m, σ.lookup m = σ.push.lookup m := fun m => (σ.lookup_push m).symm
  have hp' : Scoped true σ σ lo c c₁ p := hp.congr hpush hpush
  -- The first clause stands behind what is in front of the loop.
  have hclause : clauseBehind (stmtsBehind [] p) i = stmtsBehind [] (p ++ i.toList.map .assign) := by
    rw [stmtsBehind_append]
    cases i <;> rfl
  -- What settles behind the first clause settles in the loop.
  have hunder : ∀ s : Site, s.Settles η m₁ →
      (s.under (stmtsBehind [] (p ++ i.toList.map .assign))).Settles σ lo :=
    fun s hs => (hs.under hinit.brings hlo).congr hpush
  have hdeclares : Introduces false σ σ c₁ c' [] := fun _ _ hn => by cases hn
  refine hp'.join (fun _ h => h) ?_ (Unseen.nil.brings hσ) hdeclares (Nat.le_refl lo) hle hle'
    fun hk => by cases hk
  rw [stmtsSites_singleton, Stmt.sites, hclause, hδ]
  -- The loop itself, its test, its first clause, its step and its body.
  refine List.forall_mem_cons.2 ⟨Site.settles_of_none rfl rfl, List.forall_mem_append.2
    ⟨List.forall_mem_append.2 ⟨List.forall_mem_append.2 ⟨fun s hs => ?_, fun s hs => ?_⟩, fun s hs => ?_⟩,
      fun s hs => ?_⟩⟩
  -- The test is placed behind the first clause.
  · obtain ⟨y, hy, rfl⟩ := List.mem_map.1 hs
    exact hunder ⟨[], y⟩ (htest _ (List.mem_map_of_mem hy))
  · -- The first clause is a statement behind those in front of the loop.
    refine (hinit.settles s ?_).congr hpush
    rw [stmtsSites_append]
    refine List.mem_append_right _ ?_
    cases i with
    | none => cases hs
    | some a => exact List.mem_append_left _ hs
  -- So is the step.
  · obtain ⟨y, hy, rfl⟩ := List.mem_map.1 hs
    exact hunder ⟨[], y⟩ (hstep _ (List.mem_map_of_mem hy))
  -- The body is placed behind the clauses.
  · have hs : s ∈ stmtsSites (δ ++ stmtsBehind [] (p ++ i.toList.map .assign)) ss := hs
    rw [stmtsSites_under] at hs
    obtain ⟨y, hy, rfl⟩ := List.mem_map.1 hs
    exact hunder y (hbody y hy)

/-- A loop behind what stands in front of it. -/
private theorem forLoop_scoped (hσ : Sound D lo σ) (hη : Sound D m₁ η) (hη' : Sound D m₃ η')
    (hp : Scoped true σ.push σ.push lo c c₁ p)
    (hinit : Scoped false σ.push η lo c c₁ (p ++ i.toList.map .assign)) (hq : Scoped true η η m₁ c₁ c₂ q)
    (left : Left η q (nodesOfOption x)) (hss : Scoped false η'.push υ m₃ c₂ c₃ ss)
    (hst : Scoped false η η' m₂ c₃ c' (r ++ st.toList.map .assign)) (hlo : lo ≤ m₁) (h₁₂ : m₁ ≤ m₂)
    (h₂₃ : m₂ ≤ m₃) (hle : c.temps ≤ c₁.temps) (hle' : c₁.temps ≤ c'.temps)
    (htest : test = x ∧ q = [] ∧ inner = ss
      ∨ test = none ∧ ∃ e, x = some e ∧ inner = q ++ [guarded sp e (.mk [] ss span')])
    (hstep : step = st ∧ r = [] ∧ last = []
      ∨ step = none ∧ η' = η ∧ last = r ++ st.toList.map .assign) :
    Scoped false σ σ lo c c' (p ++ [.forLoop sp i test step (.mk [] (inner ++ last) span)]) := by
  -- The step stays in the header, or it has moved behind the body.
  rcases hstep with ⟨rfl, rfl, rfl⟩ | ⟨rfl, rfl, rfl⟩
  -- In the header, the step declares what the body sees.
  · have hbehind : stmtsBehind [] (step.toList.map .assign) = clauseBehind [] step := by
      cases step <;> rfl
    rw [List.nil_append] at hst
    obtain ⟨htests, hinner, _⟩ := inner_settles hη hη' hst.brings hst.declares.unseen hst.shows hq left hss
      h₁₂ h₂₃ htest
    rw [List.append_nil]
    refine forLoop_join hσ hp hinit hlo hle hle' (fun ε => ?_) htests (fun s hs => ?_) hinner
    · rw [hbehind]
      exact clauseBehind_append [] ε step
    -- The step itself is placed behind the first clause.
    · refine (hst.settles s ?_).lower hη h₁₂
      cases step with
      | none => cases hs
      | some a => exact List.mem_append_left _ hs
  -- A step that has moved declares nothing, so the scopes are the same.
  · have hη₂ : Sound D m₂ η' := hη.mono h₁₂
    obtain ⟨htests, hinner, hnew⟩ := inner_settles hη hη' (Unseen.nil.brings hη₂) Unseen.nil (fun _ h => h) hq
      left hss h₁₂ h₂₃ htest
    have hδ : ∀ ε, clauseBehind ε none = [] ++ ε := fun _ => rfl
    refine forLoop_join hσ hp hinit hlo hle hle' hδ htests (fun _ hs => by cases hs) ?_
    rw [stmtsSites_append, stmtsSites_eq_under (stmtsBehind [] inner)]
    -- What is moved comes behind the body, and sees none of its names.
    refine List.forall_mem_append.2 ⟨hinner, List.forall_mem_map.2 fun s hs => ?_⟩
    exact ((hst.settles s hs).lower hη h₁₂).beside hη hnew

end Loops

/-! ## Expanded trees are scoped -/

/-- In an expanded tree, every variable is found by its name. -/
theorem Assembled.scoped {D : Dialect} {P : Prop} {f : Bool} {σ τ : Scope Entry} {lo hi : Nat}
    {c c' : Expansion} {p : List Stmt} (hD : D.Plain)
    (h : Assembled D P f σ τ lo hi c c' p) : Firm D lo σ → Scoped f σ τ lo c c' p := by
  induction h with
  | nil => exact fun hσ => Scoped.nil hσ.sound
  -- The first part leads to the scope of the second one.
  | append hf first second ih₁ ih₂ =>
    intro hσ
    obtain ⟨hτ, hp⟩ := first.counted hD hσ
    exact (ih₁ hσ).append (ih₂ hτ) hp.le.1 first.ordered.1 second.ordered.1 hf
  | congr hσ' hτ' _ ih => exact fun hσ => (ih (hσ.congr fun m => (hσ' m).symm)).congr hσ' hτ'
  | rescope hr hshows _ =>
    intro hσ
    -- Nothing is declared, and what is reached was reached before.
    refine ⟨hshows, (fun _ hs => by cases hs), fun n b hn _ _ => ?_, fun _ _ hn => by cases hn⟩
    have hreached := hr n b hn
    exact .inr ⟨(hσ.sound.reached hreached).1, hreached, rfl⟩
  | enumeration sp d _ => exact fun hσ => scoped_enumeration hσ.sound _ sp d
  | block sp _ ih => exact fun hσ => Scoped.block hσ.sound (ih hσ.push) sp
  | nest before inner left holds ih₁ ih₂ =>
    intro hσ
    obtain ⟨hσ₁, hp⟩ := before.counted hD hσ
    exact Scoped.nest hσ.sound (ih₁ hσ) (ih₂ hσ₁) left holds hp.le.1 before.ordered.1 inner.ordered.1
  -- The variable is numbered behind what stands in front of its value.
  | declare before left declares binding plain unbound _ _ ih =>
    intro hσ
    obtain ⟨_, hp⟩ := before.counted hD hσ
    exact Scoped.declare hσ.sound (ih hσ) left hp.le.1 before.ordered.1 declares binding plain unbound
  | assign before left declares binding plain bound _ _ _ ih =>
    exact fun hσ => Scoped.assign hσ.sound (ih hσ) left before.ordered.1 declares binding plain bound
  -- The four parts of the loop, each in the scope behind those in front of it.
  | forLoop sp span span' before init tested left body _ stepped htest hstep ihp ihi ihq ihs _ ihst =>
    intro hσ
    obtain ⟨hη, hinit⟩ := init.counted hD hσ.push
    obtain ⟨hη₂, hq⟩ := tested.counted hD hη
    obtain ⟨hη', hst⟩ := stepped.counted hD hη₂
    have hle := init.ordered.1
    have hle₁ := tested.ordered.1
    have hle₂ := body.ordered.1
    have hle₃ := stepped.ordered.1
    exact forLoop_scoped hσ.sound hη.sound hη'.sound (ihp hσ.push) (ihi hσ.push) (ihq hη) left (ihs hη'.push)
      (ihst hη₂) hinit.le.1 hq.le.1 hst.le.1 hle (by omega) htest hstep
  -- A call: its arguments come first, and then the body that is put in its place.
  | @call σ _ lo mid hi c c₁ c₂ _ c' p _ _ params _ _ captured args args' binds ss _ _ sp before left function
      count types proper bound _ body fresh _ place kept ihp ihs =>
    intro hσ
    obtain ⟨hσ₁, hp⟩ := before.counted hD hσ
    have hscoped := ihp hσ
    -- The scope of the body is firm behind the parameters.
    have hbody : Firm D (mid + params.length) (bodyScope captured binds) := by
      rw [bound]
      exact hσ.body function hp.le.1 proper
    -- There is one expanded argument for each argument.
    have hlen : args'.length = args.length := by
      simpa using congrArg List.length types
    have hδ : ∀ n t, Supplies p n t → (n, .variable none) ∈ stmtsBehind [] p := fun n t h => h.behind []
    -- What the body seeks is reached at the call.
    have hseeks := called_seeks hσ.sound hp.le.1 function count hlen left hδ bound (ihs hbody) sp
    have hparams : ∀ x ∈ params, x.name.isPlain = true :=
      fun x hx => hD x.name ((hσ.sound.template function).1 x hx)
    -- The declarations of the body are counted, so the contested ones can be renamed apart.
    have hcounted : Counted (c₁.counter mid) (c₂.counter hi)
        (acts (Block.mk (bindExpanded binds args') ss sp).nodes) :=
      counted_body hparams sp count types proper bound (body.counted hD hbody).2
    have hnum : Numbered mid c₂.renamed _ := hcounted.numbered
    obtain ⟨hsettles, hdeclares⟩ := called_settles hσ.sound hp.le.1 (hscoped.declares.unseen_front σ) fresh place
      kept hnum hseeks
    have hle₁ : c₁.temps ≤ c₂.temps := body.ordered.1
    have hle₂ : c₁.temps ≤ c'.temps := by
      obtain ⟨_, ⟨_, _, _, _, _, _, _, htemps, _⟩ | ⟨htemps, _⟩⟩ := called_cases fresh place kept <;> omega
    exact hscoped.join (fun _ h => h) hsettles
      ((hdeclares.unseen_front σ).brings hσ.sound) (hdeclares.mono hle₁) (Nat.le_refl lo) before.ordered.1 hle₂
      fun _ => ⟨rfl, rfl⟩

end AisScript
