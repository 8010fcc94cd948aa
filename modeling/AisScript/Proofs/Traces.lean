import AisScript.Proofs.Assembly

/-!
# What expanded trees do to variables

The assignments of an expanded tree and its readings of temporaries, in the order of the walk.  No two
declarations have one number, and every temporary is declared once and assigned once.

* `acts`                 what a list of nodes does to variables
* `Firm`                 scopes in which strings never change
* `Counted`              declarations with numbers and temporaries of their own
* `Assembled.counted`    expanded trees are counted
-/

namespace AisScript

/-! ## Acts -/

/-- What a node does to variables: it is an assignment, or it reads a temporary of a type. -/
inductive Act where
  | assign (a : Assign)
  | read (n : Text) (t : Option Ty)

/-- What a node does, if it does anything. -/
def Node.act? : Node → Option Act
  | .stmt (.assign a) => some (.assign a)
  | .expr (.var i n none) => some (.read n i.ty)
  | _ => none

/-- What nodes do, in order. -/
def acts (xs : List Node) : List Act := xs.filterMap Node.act?

@[simp] theorem acts_nil : acts [] = [] := rfl

@[simp] theorem acts_append (xs ys : List Node) : acts (xs ++ ys) = acts xs ++ acts ys :=
  List.filterMap_append

/-- A statement that is no assignment does nothing itself. -/
theorem acts_stmt {s : Stmt} (h : ∀ a, s ≠ .assign a) (xs : List Node) :
    acts (.stmt s :: xs) = acts xs := by
  cases s with
  | assign a => exact absurd rfl (h a)
  | _ => rfl

/-- What an assignment does. -/
theorem acts_assign (a : Assign) : acts a.nodes = .assign a :: acts (exprNodes a.value) := rfl

/-- What a statement does that declares nothing itself. -/
theorem Stmt.Holds.acts_eq {s : Stmt} {es : List Expr} {bs : List Block} (h : s.Holds es bs) :
    acts s.nodes = acts (es.map .expr) ++ acts (stmtsNodes (bs.map .block)) := by
  cases h <;> simp [Stmt.nodes, acts_stmt, stmtsNodes, exprNodes]

/-- What a loop does. -/
private theorem acts_forLoop (sp : Span) (i st : Option Assign) (x : Option Expr) (b : Block) :
    acts (Stmt.forLoop sp i x st b).nodes = acts ((nodesOfOption x).map .expr)
      ++ acts (clauseNodes i) ++ acts (clauseNodes st) ++ acts b.nodes := by
  simp [Stmt.nodes, acts_stmt]

/-- What a clause does as a statement. -/
private theorem acts_toList (a : Option Assign) :
    acts (stmtsNodes (a.toList.map .assign)) = acts (clauseNodes a) := by
  cases a <;> simp [stmtsNodes, Stmt.nodes, clauseNodes]

/-- What a block of statements does. -/
theorem acts_block (ss : List Stmt) (sp : Span) : acts (Block.mk [] ss sp).nodes = acts (stmtsNodes ss) := by
  simp [Block.nodes]

/-- An act with its variable renamed. -/
def Act.rename (r : Renaming) : Act → Act
  | .assign a => .assign (a.rename r)
  | .read n t => .read n t

/-- What a renamed node does. -/
private theorem Node.act?_rename (r : Renaming) (x : Node) :
    (x.rename r).act? = x.act?.map (Act.rename r) := by
  cases x with
  | expr e =>
    cases e with
    | var i n b => cases b <;> rfl
    | _ => rfl
  | stmt s => cases s <;> rfl

/-- What renamed nodes do. -/
theorem acts_rename (r : Renaming) (xs : List Node) :
    acts (xs.map (·.rename r)) = (acts xs).map (Act.rename r) := by
  simp only [acts, List.filterMap_map, List.map_filterMap]
  exact congrArg (List.filterMap · xs) (funext fun x => x.act?_rename r)

/-! ## Scopes in which strings never change -/

/-- A sound scope in which all strings are variables of the script that cannot be assigned. -/
structure Firm (D : Dialect) (lo : Nat) (σ : Scope Entry) : Prop where
  sound : Sound D lo σ
  fixed : ∀ n b, Reaches σ n b → b.ty = .string → b.immutable = true ∧ b.origin = .script

/-- Behind declarations, what is reached was declared there, or was reached in front of them. -/
theorem reaches_extendAll {σ : Scope Entry} {as : List Assign} {n : Text} {b : Binding}
    (h : Reaches (extendAll σ as) n b) : Reaches σ n b ∨ ∃ a ∈ as, a.info.binding = some b := by
  -- By induction on the declarations, the last of which is the outermost.
  induction as generalizing σ with
  | nil => exact .inl h
  | cons a as ih =>
    rcases ih h with hr | ⟨a', ha', hb⟩
    -- An assignment that declares binds its own variable, and any other one nothing.
    · unfold Assign.extend at hr
      split at hr
      · split at hr
        case h_1 c hc =>
          rcases hr.of_define with hr | ⟨_, heq⟩ | ⟨_, _, _, heq, _⟩
          · exact .inl hr
          · cases heq
            exact .inr ⟨a, List.mem_cons_self, hc⟩
          · cases heq
        case h_2 => exact .inl hr
      · exact .inl hr
    · exact .inr ⟨a', List.mem_cons_of_mem a ha', hb⟩

/-- The parameters of a call are declared as new variables of the arguments' types. -/
theorem numberBinds_variable {lo : Nat} {params : List Param} {args : List Expr} {a : Assign}
    (h : a ∈ numberBinds lo (bindArguments params args)) :
    ∃ k t, a.info.binding = some (.variable k t) := by
  induction params generalizing lo args with
  | nil => cases h
  | cons q params ih =>
    cases args with
    | nil => cases h
    | cons e args =>
      rcases List.mem_cons.1 h with rfl | h
      · exact ⟨lo, _, rfl⟩
      · exact ih h

namespace Firm

variable {D : Dialect} {lo mid : Nat} {σ τ : Scope Entry}

/-- A scope stays firm when more numbers are taken. -/
theorem mono (h : Firm D lo σ) (hle : lo ≤ mid) : Firm D mid σ := ⟨h.sound.mono hle, h.fixed⟩

/-- Only what is found in a scope counts. -/
theorem congr (h : Firm D lo σ) (heq : ∀ m, τ.lookup m = σ.lookup m) : Firm D lo τ where
  sound := h.sound.congr heq
  fixed n b hr := h.fixed n b (hr.congr fun m => (heq m).symm)

/-- An opened block is firm. -/
theorem push (h : Firm D lo σ) : Firm D lo σ.push := h.congr σ.lookup_push

/-- A new variable keeps a scope firm, as strings never change. -/
theorem declare (h : Firm D lo σ) (m : Text) {t : Ty} (ht : t.isProper = true) :
    Firm D (lo + 1) (σ.define m (.value (.variable lo t))) where
  sound := h.sound.defineValue (Nat.le_succ lo) (Nat.lt_succ_self lo) ht
  fixed n b hr hb := by
    rcases hr.of_define with hr | ⟨_, heq⟩ | ⟨_, _, _, heq, _⟩
    · exact h.fixed n b hr hb
    · cases heq
      have hstring : t = .string := hb
      simp [Binding.variable, hstring]
    · cases heq

/-- An enumeration keeps a scope firm. -/
theorem enumeration (h : Firm D lo σ) (d : Enumeration) :
    Firm D (lo + 1 + d.members.length) (bindEnum σ lo d).1 where
  sound := (bindEnum_sound h.sound d).2.1
  fixed n b hr hb := by
    rcases hr.of_bindEnum with hr | ⟨_, _, hne, _⟩
    · exact h.fixed n b hr hb
    · exact absurd hb hne

/-- The scope of a called body is firm. -/
theorem body (h : Firm D lo σ) {f : Text} {params : List Param} {template : Block}
    {captured : List (Text × Entry)} (hf : σ.lookup f = some (.function params template captured))
    (hle : lo ≤ mid) {args : List Expr} (hargs : ∀ e ∈ args, ∃ t, e.ty? = some t ∧ t.isProper = true) :
    Firm D (mid + params.length)
      (bodyScope captured (numberBinds mid (bindArguments params args))) where
  sound := (bodyScope_sound ((h.sound.inner hf).mono hle) params hargs).1
  fixed n b hr hb := by
    -- A string that was captured is fixed where the function was defined.
    rcases reaches_extendAll hr with hr | ⟨a, ha, heq⟩
    · have hcaptured : Reaches ⟨captured, []⟩ n b := hr.congr fun m => (Scope.lookup_push _ m).symm
      exact h.fixed n b (.through hf hcaptured) hb
    -- A parameter that holds a string is immutable.
    · obtain ⟨k, t, hvar⟩ := numberBinds_variable ha
      cases heq.symm.trans hvar
      have hstring : t = .string := hb
      simp [Binding.variable, hstring]

end Firm

/-! ## Marks -/

/-- What an assignment does that nothing else does: it declares a variable under a number, or it opens or
closes a temporary. -/
inductive Mark where
  | own (id : Nat)
  | opened (n : Text)
  | closed (n : Text)
deriving DecidableEq

/-- The mark of an assignment.  An assignment of a variable that is declared elsewhere has none. -/
def Assign.mark? (a : Assign) : Option Mark :=
  match a.info.declares, a.info.binding with
  | true, some b => some (.own b.id)
  | true, none => some (.opened a.info.name)
  | false, none => some (.closed a.info.name)
  | false, some _ => none

/-- The mark of an act. -/
def Act.mark? : Act → Option Mark
  | .assign a => a.mark?
  | .read _ _ => none

/-- The marks of acts, in order. -/
def marks (as : List Act) : List Mark := as.filterMap Act.mark?

@[simp] theorem marks_nil : marks [] = [] := rfl

@[simp] theorem marks_append (as bs : List Act) : marks (as ++ bs) = marks as ++ marks bs :=
  List.filterMap_append

/-- The next free numbers of a binding, a temporary and a fresh name. -/
structure Counter where
  binding : Nat
  temp : Nat
  fresh : Nat

/-- No number that is taken becomes free. -/
instance : LE Counter where
  le x y := x.binding ≤ y.binding ∧ x.temp ≤ y.temp ∧ x.fresh ≤ y.fresh

theorem Counter.le_refl (x : Counter) : x ≤ x := ⟨Nat.le_refl _, Nat.le_refl _, Nat.le_refl _⟩

theorem Counter.le_trans {x y z : Counter} (h : x ≤ y) (h' : y ≤ z) : x ≤ z := by
  obtain ⟨hb, ht, hf⟩ := h
  obtain ⟨hb', ht', hf'⟩ := h'
  exact ⟨Nat.le_trans hb hb', Nat.le_trans ht ht', Nat.le_trans hf hf'⟩

/-- The free numbers at a state of the expansion. -/
def Expansion.counter (c : Expansion) (lo : Nat) : Counter := ⟨lo, c.temps, c.renamed⟩

/-- A mark under a number that was free at `x` and is taken at `y`. -/
def Mark.Within (x y : Counter) : Mark → Prop
  | .own id => x.binding ≤ id ∧ id < y.binding
  | .opened n | .closed n => ∃ k, n = tempName k ∧ x.temp ≤ k ∧ k < y.temp

/-- An assignment as expansion leaves it while the fresh names below `k` are taken: a declaration has a value
of its variable's type, and no string is assigned to a variable that is declared elsewhere. -/
def Assign.Kept (k : Nat) (a : Assign) : Prop :=
  ∀ b, a.info.binding = some b →
    (a.info.declares = true → b.origin = .script ∧ KnownName k a.info.name ∧ a.value.ty? = some b.ty)
      ∧ (a.info.declares = false → b.ty ≠ .string ∧ ∃ t, a.value.ty? = some t ∧ t ≠ .string)

/-- A renaming keeps marks. -/
theorem Act.mark?_rename (r : Renaming) (x : Act) : (x.rename r).mark? = x.mark? := by
  cases x with
  | assign a =>
    obtain ⟨⟨_, _, _, declares, _, binding⟩, v⟩ := a
    cases declares <;> cases binding <;> rfl
  | read n t => rfl

/-- Marks under numbers that differ in kind or are taken at different times are different. -/
theorem Mark.Within.disjoint {x y x' y' : Counter} {m : Mark} (h : m.Within x y) (h' : m.Within x' y')
    (hb : y.binding ≤ x'.binding ∨ y'.binding ≤ x.binding) (ht : y.temp ≤ x'.temp) : False := by
  cases m with
  | own id =>
    obtain ⟨hle, hlt⟩ := h
    obtain ⟨hle', hlt'⟩ := h'
    omega
  | opened n | closed n =>
    obtain ⟨k, rfl, _, hlt⟩ := h
    obtain ⟨j, hj, hle, _⟩ := h'
    have heq := tempName_number hj
    omega

/-- More numbers are free in front and taken behind. -/
theorem Mark.Within.mono {x y x' y' : Counter} {m : Mark} (h : m.Within x y) (hx : x' ≤ x) (hy : y ≤ y') :
    m.Within x' y' := by
  obtain ⟨hb, ht, _⟩ := hx
  obtain ⟨hb', ht', _⟩ := hy
  cases m with
  | own id =>
    obtain ⟨hle, hlt⟩ := h
    exact ⟨by omega, by omega⟩
  | opened n | closed n =>
    obtain ⟨k, hk, hle, hlt⟩ := h
    exact ⟨k, hk, by omega, by omega⟩

/-- More fresh names are taken. -/
theorem Assign.Kept.mono {k k' : Nat} {a : Assign} (h : a.Kept k) (hle : k ≤ k') : a.Kept k' := by
  intro b hb
  obtain ⟨hdeclares, hassigns⟩ := h b hb
  refine ⟨fun hd => ?_, hassigns⟩
  obtain ⟨horigin, hname, hty⟩ := hdeclares hd
  exact ⟨horigin, hname.mono hle, hty⟩

/-! ## Counted acts -/

/-- Acts that take the numbers from `x` up to `y`: each mark is made once. -/
structure Counted (x y : Counter) (as : List Act) : Prop where
  le : x ≤ y
  within : ∀ m ∈ marks as, m.Within x y
  once : (marks as).Nodup
  kept : ∀ a, .assign a ∈ as → a.Kept y.fresh

namespace Counted

variable {x y z : Counter} {as bs : List Act}

/-- Acts that take different numbers. -/
private theorem join {x' y' z' : Counter} (ha : Counted x y as) (hb : Counted x' y' bs) (hz : z ≤ x)
    (hz' : z ≤ x') (hy : y ≤ z') (hy' : y' ≤ z') (ht : y.temp ≤ x'.temp)
    (hbind : y.binding ≤ x'.binding ∨ y'.binding ≤ x.binding) : Counted z z' (as ++ bs) where
  le := Counter.le_trans hz (Counter.le_trans ha.le hy)
  within m hm := by
    -- Every mark is of one of the two ranges.
    rw [marks_append, List.mem_append] at hm
    rcases hm with hm | hm
    · exact (ha.within m hm).mono hz hy
    · exact (hb.within m hm).mono hz' hy'
  once := by
    rw [marks_append]
    -- The ranges do not meet, so no mark is taken twice.
    refine List.nodup_append.2 ⟨ha.once, hb.once, ?_⟩
    rintro m hm _ hm' rfl
    exact (ha.within m hm).disjoint (hb.within m hm') hbind ht
  -- What is kept up to the own counter is kept up to the later one.
  kept a ha' := by
    rcases List.mem_append.1 ha' with ha' | ha'
    · exact (ha.kept a ha').mono hy.2.2
    · exact (hb.kept a ha').mono hy'.2.2

/-- Acts one behind the other. -/
theorem append (ha : Counted x y as) (hb : Counted y z bs) : Counted x z (as ++ bs) :=
  ha.join hb (Counter.le_refl x) ha.le hb.le (Counter.le_refl z) (Nat.le_refl _) (.inl (Nat.le_refl _))

/-- Acts whose bindings were numbered the other way round. -/
private theorem cross {lo mid hi t₁ t₂ t₃ k₁ k₂ k₃ : Nat} (ha : Counted ⟨mid, t₁, k₁⟩ ⟨hi, t₂, k₂⟩ as)
    (hb : Counted ⟨lo, t₂, k₂⟩ ⟨mid, t₃, k₃⟩ bs) : Counted ⟨lo, t₁, k₁⟩ ⟨hi, t₃, k₃⟩ (as ++ bs) := by
  have hle := ha.le
  have hle' := hb.le
  exact ha.join hb ⟨hle'.1, Nat.le_refl _, Nat.le_refl _⟩ ⟨Nat.le_refl _, hle.2⟩
    ⟨Nat.le_refl _, hle'.2⟩ ⟨hle.1, Nat.le_refl _, Nat.le_refl _⟩ (Nat.le_refl _) (.inr (Nat.le_refl _))

/-- The order of acts does not count. -/
theorem perm (h : Counted x y as) (hp : bs.Perm as) : Counted x y bs where
  le := h.le
  within m hm := h.within m ((hp.filterMap _).mem_iff.1 hm)
  once := (hp.filterMap _).nodup_iff.2 h.once
  kept a ha := h.kept a (hp.mem_iff.1 ha)

/-- No two acts have one mark. -/
theorem unique (h : Counted x y as) {a b : Act} {m : Mark} (ha : a ∈ as) (hb : b ∈ as)
    (hma : a.mark? = some m) (hmb : b.mark? = some m) : a = b := by
  have honce := h.once
  clear h
  -- By induction on the acts: the mark is that of the first one, or of one behind it.
  induction as with
  | nil => cases ha
  | cons x as ih =>
    -- No act behind the first one has its mark.
    have hnot : ∀ {z}, z ∈ as → z.mark? = some m → x.mark? ≠ some m := by
      intro z hz hmz hmx
      rw [marks, List.filterMap_cons_some hmx] at honce
      exact (List.nodup_cons.1 honce).1 (List.mem_filterMap.2 ⟨z, hz, hmz⟩)
    have hrest : (marks as).Nodup := honce.sublist ((List.sublist_cons_self x as).filterMap _)
    rcases List.mem_cons.1 ha with ha | ha <;> rcases List.mem_cons.1 hb with hb | hb
    · rw [ha, hb]
    · exact absurd (ha ▸ hma) (hnot hb hmb)
    · exact absurd (hb ▸ hmb) (hnot ha hma)
    · exact ih ha hb hrest

/-- Acts without marks. -/
theorem unmarked (hle : x ≤ y) (hnone : ∀ a ∈ as, a.mark? = none)
    (hkept : ∀ a, .assign a ∈ as → a.Kept y.fresh) : Counted x y as := by
  have hnil : marks as = [] := List.filterMap_eq_nil_iff.2 hnone
  exact ⟨hle, by simp [hnil], by simp [hnil], hkept⟩

/-- No acts at all. -/
theorem nil (hle : x ≤ y) : Counted x y [] := unmarked hle (by simp) (by simp)

/-- A single assignment under a new number. -/
theorem single {a : Assign} {m : Mark} (hm : a.mark? = some m) (hle : x ≤ y) (hw : m.Within x y)
    (hk : a.Kept y.fresh) : Counted x y [.assign a] := by
  have heq : marks [.assign a] = [m] := by
    simp [marks, Act.mark?, hm]
  refine ⟨hle, by simpa [heq] using hw, by simp [heq], fun a' ha' => ?_⟩
  cases List.mem_singleton.1 ha'
  exact hk

/-- Readings in front of which nothing is taken. -/
theorem readings (h : Counted x y as) (hbs : ∀ b ∈ bs, ∃ n t, b = .read n t) :
    Counted x y (as ++ bs) := by
  have hreads : Counted y y bs := by
    refine unmarked (Counter.le_refl y) (fun b hb => ?_) fun a ha => ?_
    · obtain ⟨n, t, rfl⟩ := hbs b hb
      rfl
    · obtain ⟨n, t, heq⟩ := hbs _ ha
      cases heq
  exact h.append hreads

/-- A renaming that takes the fresh names up to those of `z`. -/
theorem rename (h : Counted x y as) {r : Renaming} (hle : y ≤ z)
    (hr : ∀ b n, KnownName y.fresh n → KnownName z.fresh (r.apply b n)) :
    Counted x z (as.map (Act.rename r)) := by
  -- Renaming keeps all marks.
  have hmarks : marks (as.map (Act.rename r)) = marks as := by
    rw [marks, List.filterMap_map]
    exact congrArg (List.filterMap · as) (funext fun a => a.mark?_rename r)
  refine ⟨Counter.le_trans h.le hle, ?_, by rw [hmarks]; exact h.once, fun a ha => ?_⟩
  · rw [hmarks]
    intro m hm
    exact (h.within m hm).mono (Counter.le_refl x) hle
  -- A declaration keeps its origin and its type under its new name.
  · obtain ⟨b, hb, heq⟩ := List.mem_map.1 ha
    cases b with
    | read n t => cases heq
    | assign a' =>
      cases heq
      obtain ⟨i, v⟩ := a'
      intro b hb'
      obtain ⟨hdeclares, hassigns⟩ := h.kept _ hb b hb'
      simp only [Assign.rename, Assign.info, Assign.value, Expr.ty?_rename] at hdeclares hassigns ⊢
      refine ⟨fun hd => ?_, hassigns⟩
      obtain ⟨horigin, hname, hty⟩ := hdeclares hd
      exact ⟨horigin, hr _ _ hname, hty⟩

end Counted

/-! ## Calls -/

/-- Expressions only read. -/
theorem acts_exprs (es : List Expr) : ∀ x ∈ acts (es.map .expr), ∃ n t, x = .read n t := by
  intro x hx
  obtain ⟨y, hy, hact⟩ := List.mem_filterMap.1 hx
  obtain ⟨e, _, rfl⟩ := List.mem_map.1 hy
  cases e with
  | var i n b =>
    cases b with
    | none =>
      cases hact
      exact ⟨n, i.ty, rfl⟩
    | some b => cases hact
  | _ => cases hact

/-- What is left of expressions reads only temporaries from in front of it. -/
theorem Left.acts {σ : Scope Entry} {p : List Stmt} {es : List Expr} (h : Left σ p es) :
    ∀ x ∈ acts (es.map .expr), ∃ n t, x = .read n t ∧ Supplies p n t := by
  intro x hx
  obtain ⟨y, hy, hact⟩ := List.mem_filterMap.1 hx
  obtain ⟨e, he, rfl⟩ := List.mem_map.1 hy
  cases e with
  | var i n b =>
    cases b with
    | none =>
      cases hact
      exact ⟨n, i.ty, rfl, h.supplied i n he⟩
    | some b => cases hact
  | _ => cases hact

/-- Without anything in front of them, expressions read no temporary. -/
theorem Left.acts_nil {σ : Scope Entry} {es : List Expr} (h : Left σ [] es) :
    AisScript.acts (es.map .expr) = [] := by
  refine List.eq_nil_iff_forall_not_mem.2 fun x hx => ?_
  obtain ⟨_, _, _, ⟨_, _, hmem, _⟩, _⟩ := h.acts x hx
  cases hmem

/-- The declaration of a temporary opens it. -/
@[simp] theorem mark?_open (n : Text) (v : Expr) (sp : Span) :
    (Assign.make n v true sp).mark? = some (.opened n) := rfl

/-- The assignment of a temporary closes it. -/
@[simp] theorem mark?_close (n : Text) (v : Expr) (sp : Span) :
    (Assign.make n v false sp).mark? = some (.closed n) := rfl

/-- A temporary has no binding. -/
private theorem Assign.kept_make (k : Nat) (n : Text) (v : Expr) (declares : Bool) (sp : Span) :
    (Assign.make n v declares sp).Kept k := by
  intro b hb
  cases hb

/-- A renaming leaves alone what an expression does. -/
theorem acts_rename_value (r : Renaming) (v : Expr) :
    (acts (exprNodes v)).map (Act.rename r) = acts (exprNodes v) := by
  refine (List.map_congr_left fun x hx => ?_).trans (List.map_id _)
  obtain ⟨n, t, rfl⟩ := acts_exprs v.nodes x hx
  rfl

/-- What a body does that ends with a return. -/
theorem acts_returned (os : List Assign) (front : List Stmt) (s sp : Span) (v : Expr) :
    acts (Block.mk os (front ++ [.ret s v]) sp).nodes
      = acts (os.flatMap Assign.nodes) ++ acts (stmtsNodes front) ++ acts (exprNodes v) := by
  simp [Block.nodes, stmtsNodes_append, Stmt.nodes, acts_stmt]

/-- What such a body does behind the declaration of the temporary to which its return is changed. -/
theorem acts_placed (os : List Assign) (front : List Stmt) (s sp sp' : Span) (v : Expr) {zero : Expr}
    (n : Text) (r : Renaming) (hzero : acts (exprNodes zero) = []) :
    acts (stmtsNodes [.assign (.make n zero true sp'), .block (.mk (os.map (·.rename r))
        (renameStmts r front ++ [.assign (.make n (v.rename r) false s)]) sp)])
      = .assign (.make n zero true sp')
        :: ((acts (os.flatMap Assign.nodes) ++ acts (stmtsNodes front)).map (Act.rename r)
          ++ .assign (.make n (v.rename r) false s) :: acts (exprNodes v)) := by
  have hvalue : acts (exprNodes (v.rename r)) = acts (exprNodes v) := by
    rw [exprNodes_rename, acts_rename, acts_rename_value]
  simp [stmtsNodes, Stmt.nodes, acts_assign, acts_stmt, Block.nodes, stmtsNodes_append, hzero, hvalue,
    flatMap_nodes_rename, stmtsNodes_rename, acts_rename, Assign.make, Assign.value]

/-- A known name is known behind a freshening. -/
theorem KnownName.freshened {k : Nat} {n : Text} (h : KnownName k n) (cs : List (Nat × Text))
    (b : Option Binding) : KnownName (k + cs.length) ((freshNames k cs).apply b n) := by
  -- Names without bindings are not renamed.
  cases b with
  | none => exact h.mono (Nat.le_add_right _ _)
  | some b =>
    -- The binding keeps its name, or it has a fresh one.
    cases hb : (freshNames k cs).lookup b.id with
    | none =>
      have hkeeps : (freshNames k cs).apply (some b) n = n := by
        simp [Renaming.apply, hb]
      rw [hkeeps]
      exact h.mono (Nat.le_add_right _ _)
    | some fresh =>
      obtain ⟨j, m, hj, rfl⟩ := lookup_freshNames hb
      obtain ⟨hlt, _⟩ := List.getElem?_eq_some_iff.1 hj
      have hname : (freshNames k cs).apply (some b) n = freshName m (k + j) := by
        simp [Renaming.apply, hb]
      rw [hname]
      exact .inr ⟨m, k + j, rfl, by omega⟩

/-- The parameters of a call take one number each. -/
private theorem counted_overrides {params : List Param} (hp : ∀ p ∈ params, p.name.isPlain = true)
    {mid t k : Nat} {args args' : List Expr} (hlen : params.length = args.length)
    (htypes : args'.map Expr.ty? = args.map Expr.ty?)
    (hargs : ∀ a ∈ args, ∃ t, a.ty? = some t ∧ t.isProper = true) :
    Counted ⟨mid, t, k⟩ ⟨mid + params.length, t, k⟩
      (acts ((bindExpanded (numberBinds mid (bindArguments params args)) args').flatMap Assign.nodes)) := by
  -- Parameters and arguments run out together.
  induction params generalizing mid args args' with
  | nil => exact Counted.nil (Counter.le_refl _)
  | cons q params ih =>
    cases args with
    | nil => cases hlen
    | cons e args =>
      cases args' with
      | nil => cases htypes
      | cons e' args' =>
        obtain ⟨hplain, hp⟩ := List.forall_mem_cons.1 hp
        obtain ⟨⟨ty, hty, _⟩, hargs⟩ := List.forall_mem_cons.1 hargs
        obtain ⟨hty', htypes⟩ := List.cons.inj htypes
        -- The other parameters take the numbers behind this one.
        have hrest := @ih hp (mid + 1) args args' (Nat.succ.inj hlen) htypes hargs
        have hnext : mid + 1 + params.length = mid + (q :: params).length := by
          rw [List.length_cons]
          omega
        rw [hnext] at hrest
        let i : AssignInfo :=
          { span := e.span, name := q.name, nameSpan := q.span, declares := true, binds := true }
        -- The parameter takes one number, and has the type of its argument.
        have hfirst : Counted ⟨mid, t, k⟩ ⟨mid + 1, t, k⟩
            [.assign (.mk { i with binding := some (.variable mid (e.ty?.getD .invalid)) } e')] := by
          refine Counted.single (m := .own mid) rfl ⟨Nat.le_succ mid, Nat.le_refl t, Nat.le_refl k⟩
            ⟨Nat.le_refl mid, Nat.lt_succ_self mid⟩ fun b hb => ?_
          cases hb
          refine ⟨fun _ => ⟨rfl, .inl hplain, ?_⟩, fun hd => by cases hd⟩
          show e'.ty? = some (e.ty?.getD .invalid)
          rw [hty', hty, Option.getD_some]
        show Counted _ _ (acts ((Assign.mk { i with binding := some (.variable mid (e.ty?.getD .invalid)) } e'
          :: bindExpanded (numberBinds (mid + 1) (bindArguments params args)) args').flatMap Assign.nodes))
        rw [List.flatMap_cons, acts_append, acts_assign]
        exact (hfirst.readings (acts_exprs e'.nodes)).append hrest

/-- A called body takes numbers for its parameters and for its statements. -/
theorem counted_body {params : List Param} (hp : ∀ p ∈ params, p.name.isPlain = true) {mid hi : Nat}
    {args args' : List Expr} {binds : List Assign} {c c' : Expansion} {ss : List Stmt} (sp : Span)
    (hlen : params.length = args.length) (htypes : args'.map Expr.ty? = args.map Expr.ty?)
    (hargs : ∀ a ∈ args, ∃ t, a.ty? = some t ∧ t.isProper = true)
    (bound : binds = numberBinds mid (bindArguments params args))
    (hss : Counted (c.counter (mid + params.length)) (c'.counter hi) (acts (stmtsNodes ss))) :
    Counted (c.counter mid) (c'.counter hi) (acts (Block.mk (bindExpanded binds args') ss sp).nodes) := by
  have hbinds : Counted (c.counter mid) (c.counter (mid + params.length))
      (acts ((bindExpanded binds args').flatMap Assign.nodes)) := by
    rw [bound]
    exact counted_overrides hp hlen htypes hargs
  rw [Block.nodes, acts_append]
  exact hbinds.append hss

/-- What stands for a call takes numbers as the body does, and a temporary for what the body returns. -/
private theorem counted_called {os : List Assign} {ss q : List Stmt} {sp : Span} {b : Block} {e e' : Expr}
    {lo hi : Nat} {c c₁ c₂ c' : Expansion} (fresh : freshened (.mk os ss sp) c₁ = .ok (b, c₂))
    (place : placeBody e b c₂ = .ok ((q, e'), c')) (kept : e'.ty? = e.ty?)
    (hbody : Counted (c.counter lo) (c₁.counter hi) (acts (Block.mk os ss sp).nodes)) :
    Counted (c.counter lo) (c'.counter hi) (acts (stmtsNodes q)) := by
  -- The contested names are renamed apart, each to a fresh name.
  obtain ⟨hrenamed, hq⟩ := called_cases fresh place kept
  generalize hr : freshNames c₁.renamed (contested (Block.mk os ss sp).nodes) = r at hq
  have hnames (b : Option Binding) (n : Text) (hn : KnownName c₁.renamed n) :
      KnownName c'.renamed (r.apply b n) := by
    rw [hrenamed, ← hr]
    exact hn.freshened _ b
  -- Renamed, the body takes as many fresh names more.
  have hall : Counted (c.counter lo) ⟨hi, c₁.temps, c'.renamed⟩
      ((acts (Block.mk os ss sp).nodes).map (Act.rename r)) :=
    hbody.rename ⟨Nat.le_refl hi, Nat.le_refl _, by rw [hrenamed]; exact Nat.le_add_right _ _⟩ hnames
  rcases hq with ⟨front, s, v, zero, rfl, _, hzero, htemps, rfl⟩ | ⟨htemps, rfl⟩
  · -- The declaration and the assignment of the temporary are two more acts, around those of the body.
    have hq := acts_placed os front s sp e.span v (tempName c₁.temps) r (Left.acts_nil (hzero {}))
    -- Both are of the new temporary: one opens it, the other closes it.
    have hpair : Counted ⟨hi, c₁.temps, c'.renamed⟩ (c'.counter hi)
        [.assign (.make (tempName c₁.temps) zero true e.span),
          .assign (.make (tempName c₁.temps) (v.rename r) false s)] := by
      have hlt : c₁.temps < c'.temps := by omega
      refine ⟨⟨Nat.le_refl hi, Nat.le_of_lt hlt, Nat.le_refl _⟩, fun m hm => ?_, ?_, fun a ha => ?_⟩
      · simp [marks, Act.mark?] at hm
        rcases hm with rfl | rfl <;> exact ⟨c₁.temps, rfl, Nat.le_refl _, hlt⟩
      · simp [marks, Act.mark?]
      · simp at ha
        rcases ha with rfl | rfl <;> exact Assign.kept_make _ _ _ _ _
    rw [acts_returned, List.map_append, acts_rename_value] at hall
    -- The order of the acts does not matter to what they take.
    refine (hall.append hpair).perm ?_
    rw [hq]
    generalize (acts (os.flatMap Assign.nodes) ++ acts (stmtsNodes front)).map (Act.rename r) = as
    generalize acts (exprNodes v) = vs
    generalize Act.assign (.make (tempName c₁.temps) zero true e.span) = x
    generalize Act.assign (.make (tempName c₁.temps) (v.rename r) false s) = y
    have hback : ([x, y] ++ vs).Perm (vs ++ [x, y]) := List.perm_append_comm
    rw [List.append_assoc]
    exact List.perm_middle.symm.trans (hback.append_left _)
  -- Without a value, the body stands as a block.
  · have heq : acts (stmtsNodes [.block ((Block.mk os ss sp).rename r)])
        = (acts (Block.mk os ss sp).nodes).map (Act.rename r) := by
      rw [stmtsNodes_singleton, Stmt.nodes, acts_stmt (by simp), Block.nodes_rename, acts_rename]
    rw [heq]
    have hcounter : c'.counter hi = ⟨hi, c₁.temps, c'.renamed⟩ := by
      rw [Expansion.counter, htemps]
    rw [hcounter]
    exact hall

/-! ## Loops -/

/-- What a guarded body does. -/
private theorem acts_guarded (sp : Span) (e : Expr) (b : Block) :
    acts (guarded sp e b).nodes = acts (exprNodes e) ++ acts b.nodes := by
  simp [guarded, leaveBlock, Stmt.nodes, acts_stmt, Block.nodes, stmtsNodes]

/-- The test of a loop in its header does nothing.  What its body does begins with what stands in front of a
test that has moved there, and with the readings of that test. -/
theorem acts_tested {η : Scope Entry} {q ss inner : List Stmt} {x test : Option Expr} {sp span : Span}
    (left : Left η q (nodesOfOption x))
    (htest : test = x ∧ q = [] ∧ inner = ss
      ∨ test = none ∧ ∃ e, x = some e ∧ inner = q ++ [guarded sp e (.mk [] ss span)]) :
    acts ((nodesOfOption test).map .expr) = []
      ∧ ∃ ts, acts (stmtsNodes inner) = acts (stmtsNodes q) ++ ts ++ acts (stmtsNodes ss)
        ∧ ∀ t ∈ ts, ∃ n ty, t = .read n ty ∧ Supplies q n ty := by
  rcases htest with ⟨rfl, rfl, rfl⟩ | ⟨rfl, e, rfl, rfl⟩
  · exact ⟨left.acts_nil, [], rfl, by simp⟩
  · refine ⟨rfl, acts (exprNodes e), ?_, left.acts⟩
    rw [stmtsNodes_append, stmtsNodes_singleton, acts_append, acts_guarded, acts_block, List.append_assoc]

/-- What a loop does behind what stands in front of it: its step comes behind its first clause or behind its
body. -/
theorem acts_loop {p r inner last : List Stmt} {i st step : Option Assign} {test : Option Expr}
    (sp span : Span) (htest : acts ((nodesOfOption test).map .expr) = [])
    (hstep : step = st ∧ r = [] ∧ last = [] ∨ step = none ∧ last = r ++ st.toList.map .assign) :
    let done := acts (stmtsNodes (p ++ [.forLoop sp i test step (.mk [] (inner ++ last) span)]))
    let first := acts (stmtsNodes (p ++ i.toList.map .assign))
    let moved := acts (stmtsNodes (r ++ st.toList.map .assign))
    done = first ++ (moved ++ acts (stmtsNodes inner)) ∨ done = first ++ (acts (stmtsNodes inner) ++ moved) := by
  -- First the clause, then the step that stays, then the body and what has moved behind it.
  have hdone : acts (stmtsNodes (p ++ [.forLoop sp i test step (.mk [] (inner ++ last) span)]))
      = acts (stmtsNodes (p ++ i.toList.map .assign))
        ++ (acts (clauseNodes step) ++ (acts (stmtsNodes inner) ++ acts (stmtsNodes last))) := by
    simp [stmtsNodes_append, acts_forLoop, acts_block, acts_toList, htest]
  rcases hstep with ⟨rfl, rfl, rfl⟩ | ⟨rfl, rfl⟩
  -- The step stays, and it is walked in front of the body.
  · left
    rw [hdone]
    simp [acts_toList, stmtsNodes]
  -- The step has moved behind the body.
  · right
    rw [hdone]
    simp [clauseNodes]

/-! ## Expanded trees are counted -/

/-- Only a string can hold a string. -/
private theorem Ty.eq_string_of_assignable {t : Ty} (h : t.assignable .string = true) : t = .string := by
  cases t <;> first | rfl | cases h

section Counted

variable {D : Dialect} {P : Prop} {f : Bool} {σ τ : Scope Entry} {lo hi : Nat} {c c' : Expansion}
  {p : List Stmt}

/-- Expanded trees take new numbers for everything they declare, and their scopes stay firm. -/
theorem Assembled.counted (hD : D.Plain)
    (h : Assembled D P f σ τ lo hi c c' p) : Firm D lo σ →
      Firm D hi τ ∧ Counted (c.counter lo) (c'.counter hi) (acts (stmtsNodes p)) := by
  induction h with
  | nil hle => exact fun hσ => ⟨hσ.mono hle, Counted.nil ⟨hle, Nat.le_refl _, Nat.le_refl _⟩⟩
  -- The second part counts on where the first one ends.
  | append _ _ _ ih₁ ih₂ =>
    intro hσ
    obtain ⟨hτ, hp⟩ := ih₁ hσ
    obtain ⟨hυ, hq⟩ := ih₂ hτ
    rw [stmtsNodes_append, acts_append]
    exact ⟨hυ, hp.append hq⟩
  | congr hσ' hτ' _ ih =>
    intro hσ
    obtain ⟨hτ, hp⟩ := ih (hσ.congr fun m => (hσ' m).symm)
    exact ⟨hτ.congr hτ', hp⟩
  -- Nothing is declared, and what is reached was reached before.
  | rescope hr _ hsound =>
    exact fun hσ => ⟨⟨hsound hσ.sound, fun n b h => hσ.fixed n b (hr n b h)⟩,
      Counted.nil (Counter.le_refl _)⟩
  -- The names of an enumeration take numbers, but no act declares them.
  | @enumeration σ lo c sp d _ =>
    intro hσ
    refine ⟨hσ.enumeration d, Counted.nil ⟨?_, Nat.le_refl _, Nat.le_refl _⟩⟩
    show lo ≤ lo + 1 + d.members.length
    omega
  -- A block takes what its statements take.
  | block sp _ ih =>
    intro hσ
    obtain ⟨_, hss⟩ := ih hσ.push
    refine ⟨hσ.mono hss.le.1, ?_⟩
    rw [stmtsNodes_singleton, Stmt.nodes, acts_stmt (by simp), acts_block]
    exact hss
  -- The statement takes what its blocks take.
  | nest _ _ left holds ih₁ ih₂ =>
    intro hσ
    obtain ⟨hσ₁, hp⟩ := ih₁ hσ
    obtain ⟨hσ₂, hbs⟩ := ih₂ hσ₁
    refine ⟨hσ₂, ?_⟩
    rw [stmtsNodes_append, stmtsNodes_singleton, acts_append, holds.acts_eq, ← List.append_assoc]
    exact (hp.readings (acts_exprs _)).append hbs
  -- The declaration takes one number, under a plain name.
  | @declare _ _ mid _ _ _ _ _ _ _ _ declares binding plain _ ty proper ih =>
    intro hσ
    obtain ⟨hσ₁, hp⟩ := ih hσ
    refine ⟨hσ₁.declare _ proper, ?_⟩
    rw [stmtsNodes_append, stmtsNodes_singleton, acts_append, Stmt.nodes, acts_assign, ← List.singleton_append]
    refine hp.append (Counted.readings (Counted.single (m := .own mid) ?_ ?_ ?_ ?_) (acts_exprs _))
    · simp [Assign.mark?, Assign.info, declares, binding, Binding.variable]
    · exact ⟨Nat.le_succ _, Nat.le_refl _, Nat.le_refl _⟩
    · exact ⟨Nat.le_refl _, Nat.lt_succ_self _⟩
    · intro b hb
      cases binding.symm.trans hb
      exact ⟨fun _ => ⟨rfl, .inl plain, ty⟩, fun hd => by cases declares.symm.trans hd⟩
  -- The assignment takes no number.
  | @assign _ _ _ _ _ _ _ _ b t _ _ declares binding _ bound ty assignable mutable ih =>
    intro hσ
    obtain ⟨hσ₁, hp⟩ := ih hσ
    refine ⟨hσ₁, ?_⟩
    rw [stmtsNodes_append, stmtsNodes_singleton, acts_append, Stmt.nodes, acts_assign, ← List.singleton_append]
    refine hp.append (Counted.readings (Counted.unmarked (Counter.le_refl _) ?_ ?_) (acts_exprs _))
    · simp [Act.mark?, Assign.mark?, Assign.info, declares, binding]
    · intro a ha
      cases List.mem_singleton.1 ha
      intro b' hb'
      obtain rfl : b = b' := Option.some.inj (binding.symm.trans hb')
      refine ⟨fun hd => absurd (declares.symm.trans hd) (by simp), fun _ => ?_⟩
      -- A string is immutable, so it is never assigned again.
      have hne : b.ty ≠ .string := by
        intro hs
        have himmutable : b.immutable = true := (hσ.fixed _ b (.here bound) hs).1
        cases mutable.symm.trans himmutable
      refine ⟨hne, t, ty, ?_⟩
      rintro rfl
      exact hne (Ty.eq_string_of_assignable assignable)
  -- All parts of the loop count on in the order in which they are typed.
  | forLoop sp span span' _ _ _ left _ _ _ htest hstep _ ihi ihq ihs _ ihst =>
    intro hσ
    obtain ⟨hη, hinit⟩ := ihi hσ.push
    obtain ⟨hη₂, hq⟩ := ihq hη
    obtain ⟨hη', hst⟩ := ihst hη₂
    obtain ⟨hυ, hss⟩ := ihs hη'.push
    -- The numbers go up through clause, test, step and body.
    refine ⟨hσ.mono ?_, ?_⟩
    · have h₁ := hinit.le.1
      have h₂ := hq.le.1
      have h₃ := hst.le.1
      have h₄ := hss.le.1
      exact Nat.le_trans h₁ (Nat.le_trans h₂ (Nat.le_trans h₃ h₄))
    -- The body was expanded before the step, but numbered behind it.
    · obtain ⟨hheader, ts, hinner, hts⟩ := acts_tested left htest
      have hbody := (hq.readings fun t ht => ⟨_, _, (hts t ht).choose_spec.choose_spec.1⟩).append (hss.cross hst)
      rw [← List.append_assoc, ← hinner] at hbody
      rcases acts_loop sp span hheader (hstep.imp_right fun h => ⟨h.1, h.2.2⟩) with hdone | hdone
      · rw [hdone]
        exact (hinit.append hbody).perm (List.perm_append_comm.append_left _)
      · rw [hdone]
        exact hinit.append hbody
  -- A call: its arguments, and then the body in its place.
  | @call σ _ lo mid hi _ c₁ c₂ _ _ _ _ _ params _ _ captured args args' binds ss _ _ sp _ _ function count
      types proper bound _ _ fresh _ place kept ihp ihs =>
    intro hσ
    obtain ⟨_, hp⟩ := ihp hσ
    -- The body is typed behind its parameters, in the captured scope.
    have hbody : Firm D (mid + params.length) (bodyScope captured binds) := by
      rw [bound]
      exact hσ.body function hp.le.1 proper
    obtain ⟨_, hss⟩ := ihs hbody
    have hparams : ∀ x ∈ params, x.name.isPlain = true :=
      fun x hx => hD x.name ((hσ.sound.template function).1 x hx)
    -- Its parameters and its statements take numbers one behind the other.
    have hinner : Counted (c₁.counter mid) (c₂.counter hi)
        (acts (Block.mk (bindExpanded binds args') ss sp).nodes) :=
      counted_body hparams sp count types proper bound hss
    rw [stmtsNodes_append, acts_append]
    have hall := hp.append (counted_called fresh place kept hinner)
    exact ⟨hσ.mono hall.le.1, hall⟩

end Counted

end AisScript
