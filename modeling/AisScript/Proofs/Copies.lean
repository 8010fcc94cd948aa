import AisScript.Proofs.Unfolding

/-!
# Copies of code literals

What relates a piece of an expanded tree to the part of the unfolding it comes from, and how pieces are
put together: what stands in front of an expression, the body of a call, the clauses of a loop header and
the loop around them.

* `Env.Shown`       the variables of a function in front of a statement and of its expansion
* `Copies`          nodes of an expanded tree and the unfolding they come from
* `Leads`           what stands in front of an expanded expression
* `Expr.expand_left`   what is left of an expression in its own place
* `called_copies`, `placeBody_leads`   the body of a call, and what stands for the call
* `LoopParts`       an expanded loop
-/

namespace AisScript

/-! ## Variables in front of a statement -/

/-- The variables `ε` of a function in front of a statement, numbered from `base` up to `lo`, and the
bindings `ε'` in front of what the statement expands to.  All variables are found there as before, but
for those in `μ`, whose declarations have moved elsewhere. -/
structure Env.Shown (base lo : Nat) (μ : List Nat) (ε ε' : Env) : Prop where
  own : ∀ n b, ε.lookup n = some (.variable (some b)) → n.isPlain = true ∧ base ≤ b.id ∧ b.id < lo
  kept : ∀ n b, ε.lookup n = some (.variable (some b)) → b.id ∉ μ → ε'.lookup n = some (.variable (some b))
  lost : ∀ n b, b.id ∈ μ → (n, .variable (some b)) ∉ ε'
  known : ∀ n b, (n, .variable (some b)) ∈ ε' → b.id < lo
  moved : ∀ id ∈ μ, id < lo

namespace Env.Shown

variable {base lo hi : Nat} {μ : List Nat} {ε ε' : Env}

/-- No variables at all. -/
theorem nil : Env.Shown base lo [] [] [] where
  own _ _ h := nomatch h
  kept _ _ h := nomatch h
  lost _ _ h := nomatch h
  known _ _ h := nomatch h
  moved _ h := nomatch h

/-- More numbers are taken. -/
theorem mono (h : Env.Shown base lo μ ε ε') (hle : lo ≤ hi) : Env.Shown base hi μ ε ε' where
  own n b hn := by
    obtain ⟨hplain, hid⟩ := h.own n b hn
    exact ⟨hplain, by omega⟩
  kept := h.kept
  lost := h.lost
  known n b hn := Nat.lt_of_lt_of_le (h.known n b hn) hle
  moved id hid := Nat.lt_of_lt_of_le (h.moved id hid) hle

/-- Temporaries hide nothing. -/
theorem temps (h : Env.Shown base lo μ ε ε') {δ : Env} (hδ : Temps δ) :
    Env.Shown base lo μ ε (δ ++ ε') := by
  have hmem : ∀ n b, (n, Binder.variable (some b)) ∈ δ ++ ε' → (n, .variable (some b)) ∈ ε' := by
    intro n b hn
    rcases List.mem_append.1 hn with hn | hn
    · obtain ⟨k, heq⟩ := hδ _ hn
      exact nomatch (Prod.mk.inj heq).2
    · exact hn
  refine ⟨h.own, fun n b hn hid => ?_, fun n b hid hn => h.lost n b hid (hmem n b hn),
    fun n b hn => h.known n b (hmem n b hn), h.moved⟩
  rw [List.lookup_append, hδ.lookup (h.own n b hn).1, Option.none_or]
  exact h.kept n b hn hid

/-- A new variable on both sides. -/
theorem declare (h : Env.Shown base lo μ ε ε') {m : Text} {c : Binding} (hm : m.isPlain = true)
    (hbase : base ≤ lo) (hc : lo ≤ c.id) (hhi : c.id < hi) :
    Env.Shown base hi μ ((m, .variable (some c)) :: ε) ((m, .variable (some c)) :: ε') := by
  -- The new variable has a number between the bounds; all that was known before stays below it.
  refine ⟨fun n b hn => ?_, fun n b hn hid => ?_, fun n b hid hn => ?_, fun n b hn => ?_, fun id hid => ?_⟩
  -- It is plain and the body's own.
  · rw [List.lookup_cons] at hn
    split at hn
    case h_1 heq =>
      cases hn
      rw [eq_of_beq heq]
      exact ⟨hm, by omega⟩
    case h_2 =>
      have := h.own n b hn
      exact ⟨this.1, by omega⟩
  -- It is found under its name on both sides.
  · rw [List.lookup_cons] at hn ⊢
    split at hn
    case h_1 => exact hn
    case h_2 => exact h.kept n b hn hid
  -- What has moved has a lower number, so it is not found under the new one.
  · rcases List.mem_cons.1 hn with heq | hn
    · cases heq
      have := h.moved c.id hid
      omega
    · exact h.lost n b hid hn
  · rcases List.mem_cons.1 hn with heq | hn
    · cases heq
      exact hhi
    · have := h.known n b hn
      omega
  · have := h.moved id hid
    omega

/-- A variable whose declaration moves elsewhere. -/
private theorem move (h : Env.Shown base lo μ ε ε') {m : Text} {c : Binding} (hm : m.isPlain = true)
    (hbase : base ≤ lo) (hc : lo ≤ c.id) (hhi : c.id < hi) :
    Env.Shown base hi (c.id :: μ) ((m, .variable (some c)) :: ε) ε' := by
  -- The variable is in scope on one side only, so its number joins those that have moved.
  refine ⟨fun n b hn => ?_, fun n b hn hid => ?_, fun n b hid hn => ?_, fun n b hn => ?_, fun id hid => ?_⟩
  · rw [List.lookup_cons] at hn
    split at hn
    case h_1 heq =>
      cases hn
      rw [eq_of_beq heq]
      exact ⟨hm, by omega⟩
    case h_2 =>
      have := h.own n b hn
      exact ⟨this.1, by omega⟩
  -- What is kept was not moved, so it is another variable.
  · rw [List.lookup_cons] at hn
    rw [List.mem_cons, not_or] at hid
    split at hn
    case h_1 =>
      cases hn
      exact absurd rfl hid.1
    case h_2 => exact h.kept n b hn hid.2
  -- The number is new, so nothing on the other side has it.
  · rcases List.mem_cons.1 hid with heq | hid
    · have := h.known n b hn
      omega
    · exact h.lost n b hid hn
  · have := h.known n b hn
    omega
  · rcases List.mem_cons.1 hid with rfl | hid
    · exact hhi
    · have := h.moved id hid
      omega

/-- Members of an enumeration on both sides. -/
theorem members (h : Env.Shown base lo μ ε ε') (ms : List EnumMember) :
    Env.Shown base lo μ (membersBehind ε ms) (membersBehind ε' ms) := by
  -- Members are bound one after the other, and none of them is a variable.
  induction ms generalizing ε ε' with
  | nil => exact h
  | cons m ms ih =>
    refine ih ⟨fun n b hn => ?_, fun n b hn hid => ?_, fun n b hid hn => ?_, fun n b hn => ?_, h.moved⟩
    -- A member hides variables on both sides alike.
    · rw [List.lookup_cons] at hn
      split at hn
      case h_1 => exact nomatch hn
      case h_2 => exact h.own n b hn
    · rw [List.lookup_cons] at hn ⊢
      split at hn
      case h_1 => exact nomatch hn
      case h_2 => exact h.kept n b hn hid
    · rcases List.mem_cons.1 hn with heq | hn
      · exact nomatch (Prod.mk.inj heq).2
      · exact h.lost n b hid hn
    · rcases List.mem_cons.1 hn with heq | hn
      · exact nomatch (Prod.mk.inj heq).2
      · exact h.known n b hn

/-- A code literal in its own function. -/
theorem meets (h : Env.Shown base lo μ ε ε') (sp : Span) (t : Text) :
    Passage.Meets base lo { span := sp, text := t, env := ε, moved := μ } ⟨ε', .stmt (.code sp t)⟩ := by
  refine ⟨rfl, fun n b hn => ⟨(h.own n b hn).1, (h.own n b hn).2, fun hk => h.kept n b hn hk.1, fun hk => ?_⟩⟩
  refine h.lost n b ?_
  by_contra hid
  exact hk ⟨hid, fun _ hmem => nomatch hmem⟩

/-- Other numbers than those to come. -/
theorem outside (h : Env.Shown base lo μ ε ε') (hi : Nat) : ε'.Outside lo hi :=
  fun n b hn => .inl (h.known n b hn)

end Env.Shown

/-! ## Expanded trees and the unfolding they come from -/

/-- Nodes of an expanded tree, with the code literals among them, and the unfolding they come from.  The
variables of the function around them are numbered from `base` on. -/
structure Copies (σ τ : Scope Entry) (base lo hi : Nat) (u : Unfolding) (xs : List Node) (cs : List Site) :
    Prop where
  mirrors : ∃ R, Mirrors σ τ lo hi u.nodes xs R
  passages : List.Forall₂ (Passage.Meets base hi) u.passages cs

/-- Expanded statements behind bindings, and the unfolding they come from. -/
abbrev CopiesStmts (σ τ : Scope Entry) (base lo hi : Nat) (δ : Env) (u : Unfolding) (ss : List Stmt) : Prop :=
  Copies σ τ base lo hi u (stmtsNodes ss) (codes (stmtsSites δ ss))

namespace Copies

variable {D : Dialect} {σ τ υ : Scope Entry} {base lo mid hi : Nat} {δ : Env} {u v : Unfolding}
  {xs ys ws : List Node} {cs ds : List Site} {ss ts : List Stmt}

/-- Nothing at all. -/
theorem nil : Copies σ σ base lo lo {} [] [] := ⟨⟨_, Mirrors.nil⟩, .nil⟩

/-- Nodes that only read. -/
theorem only (base : Nat) (hσ : Sound D lo σ) (h : OnlyReads σ ws) (ha : Alike xs ws) :
    Copies σ σ base lo lo (.only ws) xs [] := ⟨⟨_, Mirrors.of_reads hσ h ha⟩, .nil⟩

/-- Trees one behind the other. -/
theorem append (h : Copies σ τ base lo mid u xs cs) (h' : Copies τ υ base mid hi v ys ds) (hlo : lo ≤ mid)
    (hhi : mid ≤ hi) : Copies σ υ base lo hi (u ++ v) (xs ++ ys) (cs ++ ds) := by
  obtain ⟨R, hm⟩ := h.mirrors
  obtain ⟨R', hm'⟩ := h'.mirrors
  refine ⟨⟨_, hm.append hm' hlo hhi⟩, ?_⟩
  exact List.rel_append (h.passages.imp fun _ _ hp => hp.mono (Nat.le_refl _) hhi) h'.passages

/-- Nodes that use and declare the same. -/
theorem congr (h : Copies σ τ base lo hi u xs cs) (hx : Alike ys xs) (hc : ds = cs) :
    Copies σ τ base lo hi u ys ds := by
  obtain ⟨R, hm⟩ := h.mirrors
  exact ⟨⟨R, hm.congr (Alike.refl _) hx⟩, hc ▸ h.passages⟩

/-- More numbers belong to the function around. -/
theorem mono (h : Copies σ τ base lo hi u xs cs) {first : Nat} (hle : first ≤ base) :
    Copies σ τ first lo hi u xs cs :=
  ⟨h.mirrors, h.passages.imp fun _ _ hp => hp.mono hle (Nat.le_refl _)⟩

/-- A tree with a frame of its own. -/
theorem inner (h : Copies σ.push τ base lo hi u xs cs) (hσ : Sound D lo σ) :
    Copies σ σ base lo hi u xs cs := by
  obtain ⟨R, hm⟩ := h.mirrors
  exact ⟨⟨R, (hm.scope (fun m => (σ.lookup_push m).symm) fun _ => rfl).close hσ⟩, h.passages⟩

/-- Statements behind bindings with other numbers. -/
theorem under (h : CopiesStmts σ τ base lo hi [] u ss) (hδ : δ.Outside base hi) :
    CopiesStmts σ τ base lo hi δ u ss := by
  refine ⟨h.mirrors, ?_⟩
  rw [stmtsSites_eq_under, codes_under]
  exact List.forall₂_map_right_iff.2 (h.passages.imp fun _ _ hp => hp.under hδ)

/-- Statements one behind the other. -/
theorem stmts (h : CopiesStmts σ τ base lo mid δ u ss)
    (h' : CopiesStmts τ υ base mid hi (stmtsBehind δ ss) v ts) (hlo : lo ≤ mid) (hhi : mid ≤ hi) :
    CopiesStmts σ υ base lo hi δ (u ++ v) (ss ++ ts) := by
  refine (h.append h' hlo hhi).congr ?_ ?_
  · rw [stmtsNodes_append]
    exact Alike.refl _
  · rw [stmtsSites_append, codes_append]

end Copies

/-- What stands in front of an expanded expression, and the unfolding it comes from. -/
structure Leads (σ : Scope Entry) (lo hi : Nat) (u : Unfolding) (p : List Stmt) : Prop where
  copies : CopiesStmts σ σ lo lo hi [] u p
  temps : Temps (stmtsBehind [] p)

namespace Leads

variable {D : Dialect} {σ τ : Scope Entry} {base lo mid hi : Nat} {μ : List Nat} {δ ε ε' : Env}
  {u v : Unfolding} {p q ss : List Stmt}

/-- Nothing in front. -/
theorem nil : Leads σ lo lo {} [] := ⟨Copies.nil, fun _ hy => nomatch hy⟩

/-- Temporaries have no numbers. -/
theorem known (h : Leads σ lo mid u p) {n : Text} {b : Binding}
    (hn : (n, Binder.variable (some b)) ∈ stmtsBehind δ p) : (n, .variable (some b)) ∈ δ := by
  rw [stmtsBehind_eq_append] at hn
  rcases List.mem_append.1 hn with hn | hn
  · obtain ⟨k, heq⟩ := h.temps _ hn
    exact nomatch (Prod.mk.inj heq).2
  · exact hn

/-- What stands in front of an expression, in the function around it. -/
theorem stmts (h : Leads σ lo hi u p) (hδ : δ.Outside lo hi) (hbase : base ≤ lo) :
    CopiesStmts σ σ base lo hi δ u p := (h.copies.under hδ).mono hbase

/-- What stands in front of two expressions. -/
theorem append (h : Leads σ lo mid u p) (h' : Leads σ mid hi v q) (hlo : lo ≤ mid) (hhi : mid ≤ hi) :
    Leads σ lo hi (u ++ v) (p ++ q) := by
  refine ⟨h.copies.stmts (h'.stmts (fun n b hn => nomatch h.known hn) hlo) hlo hhi, ?_⟩
  rw [stmtsBehind_append, stmtsBehind_eq_append]
  intro y hy
  exact (List.mem_append.1 hy).elim (h'.temps y) (h.temps y)

/-- Variables are found behind what stands in front of an expression. -/
theorem shown (h : Leads σ lo mid u p) {next : Nat} (hs : Env.Shown base next μ ε ε') :
    Env.Shown base next μ ε (stmtsBehind ε' p) := by
  rw [stmtsBehind_eq_append]
  exact hs.temps h.temps

/-- A statement that declares nothing, behind what stands in front of its expressions. -/
theorem stmt (h : Leads σ lo mid u p) (hs : Env.Shown base lo μ ε ε') (hbase : base ≤ lo) {st : Stmt}
    (hst : CopiesStmts σ σ base mid hi (stmtsBehind ε' p) v [st]) (hb : ∀ δ, st.behind δ = δ)
    (hlo : lo ≤ mid) (hhi : mid ≤ hi) :
    CopiesStmts σ σ base lo hi ε' (u ++ v) (p ++ [st])
      ∧ Env.Shown base hi μ ε (stmtsBehind ε' (p ++ [st])) := by
  refine ⟨(h.stmts (hs.outside mid) hbase).stmts hst hlo hhi, ?_⟩
  rw [stmtsBehind_append, stmtsBehind, stmtsBehind, hb]
  exact (h.shown hs).mono (Nat.le_trans hlo hhi)

end Leads

/-! ## What is left of expressions -/

mutual

/-- What is left of an expression only reads. -/
theorem Expr.left_reads {D : Dialect} (hD : D.Plain) {σ : Scope Entry} {lo hi : Nat} : (e : Expr) → e.Resolved D σ lo hi →
    OnlyReads σ e.left
  | .const i v, _ => by
    refine ⟨fun id => ?_, fun n id hu => ?_⟩ <;> simp_all [Expr.left, Uses, Declares, Node.use?, Node.declared?]
  | .var i n b, h => by
    obtain ⟨_, hn, d, hd, rfl, _⟩ := h
    -- A variable declares nothing and uses the binding that it was resolved to.
    refine ⟨fun id => ?_, fun m id hu => ?_⟩
    · simp [Expr.left, Declares, Node.declared?]
    · simp only [Expr.left, Uses, List.mem_singleton, exists_eq_left, Node.use?, Option.map_some,
        Option.some.injEq, Prod.mk.injEq] at hu
      obtain ⟨rfl, rfl⟩ := hu
      exact ⟨hD n hn, d, .here hd, rfl⟩
  | .binary i op l r, h => by
    obtain ⟨_, _, _, _, hl, _, hr, _⟩ := h
    exact (Expr.left_reads hD l hl).append (Expr.left_reads hD r hr)
  | .unary i op x, h => by
    obtain ⟨_, _, hx, _⟩ := h
    exact Expr.left_reads hD x hx
  | .member i a b n ns, h => by
    obtain ⟨_, _, hb, _⟩ := h
    exact Expr.left_reads hD b hb
  | .query i k op u x q, h => by
    obtain ⟨_, _, hu, hx, hq, _⟩ := h
    exact ((leftOption_reads hD u hu).append (leftOption_reads hD x hx)).append (leftOption_reads hD q hq)
  -- A call of a script function leaves a temporary, which reads nothing of the script.
  | .call i n ns args (.function binds body), _ => OnlyReads.nil
  -- Calls of the host leave what their arguments leave.
  | .call i n ns args .unresolved, h => by
    obtain ⟨_, _, _, hargs, _⟩ := h
    exact leftList_reads hD args hargs
  | .call i n ns args (.intrinsic op), h => by
    obtain ⟨_, _, _, hargs, _⟩ := h
    exact leftList_reads hD args hargs
  | .call i n ns args (.constructor layout), h => by
    obtain ⟨_, _, _, hargs, _⟩ := h
    exact leftList_reads hD args hargs
  termination_by structural e => e

/-- What is left of arguments only reads. -/
theorem leftList_reads {D : Dialect} (hD : D.Plain) {σ : Scope Entry} {lo hi : Nat} {types : List Ty} :
    (es : List Expr) → ResolvedArgs D σ lo hi types es → OnlyReads σ (leftList es)
  | [], _ => OnlyReads.nil
  | e :: es, ⟨_, _, _, _, he, _, _, hes⟩ => (Expr.left_reads hD e he).append (leftList_reads hD es hes)
  termination_by structural es => es

/-- What is left of an expression that may be absent only reads. -/
theorem leftOption_reads {D : Dialect} (hD : D.Plain) {σ : Scope Entry} {lo hi : Nat} : (e : Option Expr) →
    ResolvedOption D σ lo hi e → OnlyReads σ (leftOption e)
  | none, _ => OnlyReads.nil
  | some e, h => Expr.left_reads hD e h.1
  termination_by structural e => e

end

/-- The nodes of expressions one behind the other. -/
private theorem alike_exprs {es fs : List Expr} {xs ys : List Node} (hx : Alike (es.map Node.expr) xs)
    (hy : Alike (fs.map Node.expr) ys) : Alike ((es ++ fs).map Node.expr) (xs ++ ys) := by
  rw [List.map_append]
  exact hx.append hy

mutual

/-- A settled expression uses what is left of the expression it comes from. -/
theorem Expr.expand_left : (e : Expr) → ∀ {c p e' c'}, e.expand c = .ok ((p, e'), c') → e'.Settled →
    Alike (exprNodes e') e.left
  | .const i v, _, _, _, _, he, _ | .var i n b, _, _, _, _, he, _ => by
    cases he
    exact Alike.refl _
  | .binary i op l r, _, _, _, _, he, hs => by
    obtain ⟨p, l', c₁, hl', q, r', c₂, hr', ⟨⟩⟩ := Expr.expand_binary_ok.1 he
    -- The operands are settled, as the whole is.
    obtain ⟨hsl, hsr⟩ := List.forall_mem_append.1 (List.forall_mem_cons.1 hs).2
    exact (alike_exprs (Expr.expand_left l hl' hsl) (Expr.expand_left r hr' hsr)).cons rfl rfl
  | .unary i op x, _, _, _, _, he, hs => by
    obtain ⟨p, x', c₁, hx', ⟨⟩⟩ := Expr.expand_unary_ok.1 he
    exact (Expr.expand_left x hx' (List.forall_mem_cons.1 hs).2).cons rfl rfl
  | .member i a b n ns, _, _, _, _, he, hs => by
    obtain ⟨p, b', c₁, hb', ⟨⟩⟩ := Expr.expand_member_ok.1 he
    exact (Expr.expand_left b hb' (List.forall_mem_cons.1 hs).2).cons rfl rfl
  | .query i k op u x q, _, _, _, _, he, hs => by
    obtain ⟨pu, u', c₁, hu', px, x', c₂, hx', pq, q', c₃, hq', ⟨⟩⟩ := Expr.expand_query_ok.1 he
    -- And so are the parts of a query.
    obtain ⟨hsu, hsq⟩ := List.forall_mem_append.1 (List.forall_mem_cons.1 hs).2
    obtain ⟨hsu, hsx⟩ := List.forall_mem_append.1 hsu
    exact (alike_exprs (alike_exprs (expandOption_left u hu' hsu) (expandOption_left x hx' hsx))
      (expandOption_left q hq' hsq)).cons rfl rfl
  | .call i n ns args (.function binds body), _, _, _, _, he, hs => by
    obtain ⟨p, args', c₁, hargs', body', c₃, _, body'', c₄, _, q, e, c₅, hplace, ⟨⟩⟩ := Expr.expand_call_ok.1 he
    -- A call that stays is not settled, so a temporary has taken its place.
    rcases placeBody_cases hplace with ⟨_, _, _, _, _, _, _, _, rfl, _⟩ | ⟨_, rfl, _⟩
    · exact (Alike.refl []).cons rfl rfl
    · exact (hs _ List.mem_cons_self).2.elim
  | .call i n ns args .unresolved, _, _, _, _, he, hs
  | .call i n ns args (.intrinsic op), _, _, _, _, he, hs
  | .call i n ns args (.constructor layout), _, _, _, _, he, hs => by
    -- Calls of the host stay, and what is left of them is left of their arguments.
    obtain ⟨p, args', c₁, hargs', ⟨⟩⟩ := (Expr.expand_keptCall_ok rfl).1 he
    exact (expandList_left args hargs' (List.forall_mem_cons.1 hs).2).cons rfl rfl
  termination_by structural e => e

/-- Settled arguments use what is left of those they come from. -/
theorem expandList_left : (es : List Expr) → ∀ {c p es' c'}, expandList es c = .ok ((p, es'), c') →
    (∀ x ∈ nodesOfList es', x.IsSettled) → Alike ((nodesOfList es').map Node.expr) (leftList es)
  | [], _, _, _, _, h, _ => by
    cases h
    exact Alike.refl _
  | e :: es, _, _, _, _, h, hs => by
    obtain ⟨p, e', c₁, he', q, es', c₂, hes', ⟨⟩⟩ := expandList_cons_ok.1 h
    obtain ⟨hse, hses⟩ := List.forall_mem_append.1 hs
    exact alike_exprs (Expr.expand_left e he' hse) (expandList_left es hes' hses)
  termination_by structural es => es

/-- A settled expression that may be absent uses what is left of the one it comes from. -/
theorem expandOption_left : (e : Option Expr) → ∀ {c p e' c'}, expandOption e c = .ok ((p, e'), c') →
    (∀ x ∈ nodesOfOption e', x.IsSettled) → Alike ((nodesOfOption e').map Node.expr) (leftOption e)
  | none, _, _, _, _, h, _ => by
    cases h
    exact Alike.refl _
  | some e, _, _, _, _, h, hs => by
    obtain ⟨p, e', c₁, he', ⟨⟩⟩ := expandOption_some_ok.1 h
    exact Expr.expand_left e he' hs
  termination_by structural e => e

end

/-! ## Called bodies -/

/-- The parameters of a call: each declares its name under a number of its own. -/
private theorem numberBinds_own (lo : Nat) (params : List Param) (args : List Expr) :
    ∀ a ∈ numberBinds lo (bindArguments params args), a.info.declares = true
      ∧ (∃ p ∈ params, a.info.name = p.name)
      ∧ ∃ b, a.info.binding = some b ∧ lo ≤ b.id ∧ b.id < lo + params.length := by
  -- Parameter by parameter; each takes the next number.
  induction params generalizing lo args with
  | nil => exact fun _ ha => nomatch ha
  | cons p params ih =>
    cases args with
    | nil => exact fun _ ha => nomatch ha
    | cons e args =>
      rw [List.length_cons]
      -- The first one has the number itself, and the others have higher ones.
      refine List.forall_mem_cons.2 ⟨⟨rfl, ⟨p, List.mem_cons_self, rfl⟩, _, rfl, Nat.le_refl lo, ?_⟩,
        fun a ha => ?_⟩
      · change lo < lo + (params.length + 1)
        omega
      · obtain ⟨hd, ⟨q, hq, hn⟩, b, hb, hle, hlt⟩ := ih (lo + 1) args a ha
        exact ⟨hd, ⟨q, List.mem_cons_of_mem p hq, hn⟩, b, hb, by omega, by omega⟩

/-- Bound parameters use and declare what the parameters and the arguments do. -/
private theorem alike_overrides {binds : List Assign} {args : List Expr} (h : binds.length = args.length) :
    Alike ((bindExpanded binds args).flatMap Assign.nodes)
      (binds.map (fun a => .stmt (.assign a)) ++ (nodesOfList args).map Node.expr) := by
  -- Parameters and arguments in step.
  induction binds generalizing args with
  | nil =>
    cases args with
    | nil => exact Alike.refl _
    | cons e args => exact nomatch h
  | cons a binds ih =>
    cases args with
    | nil => exact nomatch h
    | cons e args =>
      have hrest := ih (Nat.succ.inj h)
      -- What a bound parameter uses and declares does not depend on its value.
      have huse : (Node.stmt (.assign (.mk a.info e))).use? = (Node.stmt (.assign a)).use? := rfl
      have hdecl : (Node.stmt (.assign (.mk a.info e))).declared? = (Node.stmt (.assign a)).declared? := rfl
      change Alike ((.stmt (.assign (.mk a.info e)) :: e.nodes.map Node.expr)
        ++ (bindExpanded binds args).flatMap Assign.nodes) ((.stmt (.assign a) :: _) ++ _)
      rw [nodesOfList, List.map_append]
      -- Names and declarations of the first pair and of the others, in another order.
      refine ⟨fun n id => ?_, fun id => ?_⟩
      · have hr := hrest.uses n id
        rw [uses_append] at hr
        rw [uses_append, uses_append, uses_append, uses_cons, uses_cons, huse, hr]
        exact ⟨by tauto, by tauto⟩
      · have hr := hrest.declares id
        rw [declares_append] at hr
        rw [declares_append, declares_append, declares_append, declares_cons, declares_cons, hdecl, hr]
        exact ⟨by tauto, by tauto⟩

section Called

variable {D : Dialect} {σ : Scope Entry} {lo : Nat} {name : Text} {params : List Param} {template : Block}
  {captured : List (Text × Entry)} {args args' : List Expr}

/-- The parameters of a call and what is left of its arguments, in the scope of the call, with the scope
of the body behind them. -/
private theorem boundNodes_mirrors (hD : D.Plain) (hσ : Sound D lo σ)
    (hf : σ.lookup name = some (.function params template captured))
    (hleft : OnlyReads σ (leftList args)) :
    let binds := numberBinds lo (bindArguments params args)
    Mirrors σ (bodyScope captured binds) lo (lo + params.length) (boundNodes binds args)
      (boundNodes binds args) fun _ => False := by
  intro binds
  -- Each parameter declares a plain name under a number of its own.
  have hown := numberBinds_own lo params args
  have hnode : ∀ x ∈ binds.map (fun a => Node.stmt (.assign a)), ∃ n b, x.use? = some (n, b) ∧
      x.declared? = some b ∧ n.isPlain = true ∧ lo ≤ b ∧ b < lo + params.length := by
    intro x hx
    obtain ⟨a, ha, rfl⟩ := List.mem_map.1 hx
    obtain ⟨hd, ⟨p, hp, hn⟩, b, hb, hle, hlt⟩ := hown a ha
    refine ⟨a.info.name, b.id, ?_, ?_, ?_, hle, hlt⟩
    · simp only [Node.use?, hb, Option.map_some]
    · simp only [Node.declared?, hd, hb, Option.map_some, if_true]
    · rw [hn]
      exact hD _ ((hσ.template hf).1 p hp)
  -- A use is that of a parameter, or that of a variable of the caller.
  have hplain : ∀ n id, Uses (boundNodes binds args) n id → n.isPlain = true ∧ id < lo + params.length
      ∧ (id < lo → ∃ b, Reaches σ n b ∧ b.id = id) := by
    intro n id hu
    rcases (uses_append _ _ _ _).1 hu with ⟨x, hx, hux⟩ | hu
    · obtain ⟨m, k, hm, _, hp, hle, hlt⟩ := hnode x hx
      cases hm.symm.trans hux
      exact ⟨hp, hlt, fun h => absurd h (Nat.not_lt.2 hle)⟩
    · obtain ⟨hp, b, hb, rfl⟩ := hleft.reached n id hu
      have := (hσ.reached hb).1
      exact ⟨hp, by omega, fun _ => ⟨b, hb, rfl⟩⟩
  refine ⟨fun n id hu _ => ⟨hu, fun h => h⟩, fun n id hu _ => hu, fun n id hu hn => ?_, fun _ => Iff.rfl,
    -- Neither side has anything that has moved.
    hplain, fun id hd => ?_, fun _ h => h.elim, fun n b hb => ⟨?_, fun h => h⟩⟩
  · rw [(hplain n id hu).1] at hn
    cases hn
  -- Arguments declare nothing, so all declarations are those of parameters.
  · rcases (declares_append _ _ _).1 hd with ⟨x, hx, hdx⟩ | hd
    · obtain ⟨m, k, _, hk, _, hle, hlt⟩ := hnode x hx
      cases hk.symm.trans hdx
      exact ⟨hle, hlt⟩
    · exact absurd hd (hleft.silent id)
  · -- What the body was defined in view of is reached through the function.
    have hthrough : ∀ m d, Reaches ⟨captured, []⟩ m d → d.id < lo ∧ Reaches σ m d := fun m d hr =>
      ⟨(hσ.reached (.through hf hr)).1, .through hf hr⟩
    have hcovers := extendAll_covers (σ := σ) (τ := Scope.push ⟨captured, []⟩) (ε := [])
      (numberBinds_declare lo params args) (fun m d hm => ?_) (fun f ps t κ hg m d hr => ?_) n b hb
    · exact hcovers.imp And.left And.right
    · rw [Scope.lookup_push] at hm
      exact .inr (hthrough m d (.here hm))
    · rw [Scope.lookup_push] at hg
      exact hthrough m d (.through hg hr)

/-- The variables of a call in front of its body. -/
theorem shown_params (hD : D.Plain) (hσ : Sound D lo σ)
    (hf : σ.lookup name = some (.function params template captured)) (args : List Expr) :
    let ε := assignsBehind [] (numberBinds lo (bindArguments params args))
    Env.Shown lo (lo + params.length) [] ε ε := by
  intro ε
  -- What the scope of the body has besides is bound by a parameter.
  have hε : ∀ n b, (n, Binder.variable (some b)) ∈ ε →
      n.isPlain = true ∧ lo ≤ b.id ∧ b.id < lo + params.length := by
    intro n b hn
    rcases mem_assignsBehind hn with hn | ⟨x, hx, hb⟩
    · exact nomatch hn
    obtain ⟨a, ha, hx⟩ := List.mem_flatMap.1 hx
    obtain ⟨_, ⟨p, hp, hname⟩, d, hd, hle, hlt⟩ := numberBinds_own lo params args a ha
    -- The parameter itself, not something inside an argument.
    rcases List.mem_cons.1 hx with rfl | hx
    · obtain ⟨rfl, hbind⟩ := Prod.mk.inj hb.2
      rw [hd] at hbind
      cases hbind
      rw [hname]
      exact ⟨hD _ ((hσ.template hf).1 p hp), hle, hlt⟩
    · obtain ⟨_, _, rfl⟩ := List.mem_map.1 hx
      exact hb.elim
  -- All of it is known on both sides, as they are the same.
  exact ⟨fun n b hn => hε n b (Env.mem_of_lookup hn), fun _ _ hn _ => hn, (fun _ _ h => nomatch h),
    fun n b hn => (hε n b hn).2.2, fun _ h => nomatch h⟩

/-- The body of a call with its parameters, in the scope of the call. -/
theorem called_copies (sp : Span) {τ : Scope Entry} {hi : Nat} {u : Unfolding} {ss : List Stmt}
    (hD : D.Plain) (hσ : Sound D lo σ) (hf : σ.lookup name = some (.function params template captured))
    (hlen : params.length = args.length) (hlen' : args'.length = args.length)
    (hleft : OnlyReads σ (leftList args)) (hargs : Alike ((nodesOfList args').map Node.expr) (leftList args))
    (hhi : lo + params.length ≤ hi) {binds : List Assign}
    (hbinds : binds = numberBinds lo (bindArguments params args))
    (hss : CopiesStmts (bodyScope captured binds) τ lo (lo + params.length) hi (assignsBehind [] binds) u ss) :
    (∃ R, Mirrors σ τ lo hi (boundNodes binds args ++ u.nodes) (Block.mk (bindExpanded binds args') ss sp).nodes R)
      ∧ List.Forall₂ (Passage.Meets lo hi) u.passages
          (codes ((Block.mk (bindExpanded binds args') ss sp).sites [])) := by
  subst hbinds
  -- There is an argument for every parameter.
  have hlength := (length_numberBinds lo params args hlen).trans hlen'.symm
  obtain ⟨R, hm⟩ := hss.mirrors
  constructor
  -- Bound parameters use and declare what the parameters and what is left of the arguments do.
  · have hover : Alike ((bindExpanded _ args').flatMap Assign.nodes) (boundNodes _ args) :=
      (alike_overrides hlength).trans ((Alike.refl _).append hargs)
    have hbound := (boundNodes_mirrors hD hσ hf hleft).congr (Alike.refl _) hover
    -- The numbers of the body stand behind those of the parameters.
    exact ⟨_, hbound.append hm (Nat.le_add_right _ _) hhi⟩
  -- Bound parameters hold no code literals, so those of the body are all there are.
  · rw [Block.sites, codes_append, codes_assigns, List.nil_append,
      assignsBehind_congr (map_info_bindExpanded hlength)]
    exact hss.passages

end Called

section Placed

variable {D : Dialect} {σ τ : Scope Entry} {lo hi : Nat} {ws : List Node} {ps : List Passage} {b : Block}
  {R : Nat → Prop}

/-- The code literals of a freshened body. -/
private theorem freshened_passages (hm : Mirrors σ τ lo hi ws b.nodes R)
    (hp : List.Forall₂ (Passage.Meets lo hi) ps (codes (b.sites []))) (number : Nat) :
    List.Forall₂ (Passage.Meets lo hi) (ps.map (·.within ws)) (codes ((b.freshen number).1.sites [])) := by
  rw [Block.codes_freshen, List.forall₂_map_left_iff, List.forall₂_map_right_iff]
  refine List.forall₂_iff_zip.2 ⟨hp.length_eq, fun {p s} hz => ?_⟩
  have hs : s ∈ b.sites [] := (List.mem_filter.1 (List.of_mem_zip hz).2).1
  exact (List.forall₂_zip hp hz).freshen hs hm number

/-- An expression that refers to nothing uses nothing. -/
private theorem alike_of_not_refers {es : List Expr} (h : ∀ x ∈ es, (Node.expr x).refers? = none) :
    Alike (es.map Node.expr) [] := by
  induction es with
  | nil => exact Alike.refl _
  | cons e es ih =>
    obtain ⟨he, hes⟩ := List.forall_mem_cons.1 h
    refine (ih hes).cons ?_ rfl
    cases e with
    | var i n b =>
      cases b with
      | none => rfl
      | some b => exact nomatch he
    | _ => rfl

/-- A return at the end of a body can become the assignment of a temporary. -/
private theorem placed_leads {call zero v : Expr} {t : Ty} {front : List Stmt} {sp : Span} (k : Nat)
    (hz : zeroOf t call.span = .ok zero) (hb : b.stmts = front ++ [.ret sp v])
    (hm : Mirrors σ σ lo hi ws b.nodes R)
    (hp : List.Forall₂ (Passage.Meets lo hi) ps (codes (b.sites []))) :
    Leads σ lo hi ⟨ws, ps⟩ (placed call k zero b front sp v) := by
  obtain ⟨os, ss, sp'⟩ := b
  obtain rfl : ss = front ++ [Stmt.ret sp v] := hb
  -- The temporary is none of the script's variables, so nothing is used or declared beyond the body.
  have hnodes : Alike (stmtsNodes (placed call k zero (.mk os (front ++ [.ret sp v]) sp') front sp v))
      (Block.mk os (front ++ [.ret sp v]) sp').nodes := by
    have hzero : Alike (exprNodes zero) [] := alike_of_not_refers (zeroOf_refers hz)
    have hassign : Alike (Stmt.assign (.make (tempName k) v false sp)).nodes (Stmt.ret sp v).nodes :=
      ((Alike.refl (exprNodes v)).cons rfl rfl).trans ((Alike.refl (exprNodes v)).cons rfl rfl).symm
    have hblock : Alike (Block.mk os (front ++ [.assign (.make (tempName k) v false sp)]) sp').nodes
        (Block.mk os (front ++ [.ret sp v]) sp').nodes := by
      simp only [Block.nodes, stmtsNodes_append, stmtsNodes_singleton]
      exact (Alike.refl _).append ((Alike.refl _).append hassign)
    rw [placed, stmtsNodes, stmtsNodes_singleton]
    exact (hzero.cons rfl rfl).append (hblock.cons rfl rfl)
  -- Neither is there another code literal.
  have hcodes : ∀ δ, codes ((Block.mk os (front ++ [.assign (.make (tempName k) v false sp)]) sp').sites δ)
      = codes ((Block.mk os (front ++ [.ret sp v]) sp').sites δ) := by
    intro δ
    simp [Block.sites, stmtsSites_append]
  refine ⟨⟨⟨R, hm.congr (Alike.refl _) hnodes⟩, ?_⟩, fun y hy => ⟨k, List.mem_singleton.1 hy⟩⟩
  -- The literals are those of the body, one declaration further in.
  have hsites : codes (stmtsSites [] (placed call k zero (.mk os (front ++ [.ret sp v]) sp') front sp v))
      = (codes ((Block.mk os (front ++ [.ret sp v]) sp').sites [])).map
          (·.under [(tempName k, .variable none)]) := by
    rw [← codes_under, ← Block.sites_under, ← hcodes]
    simp [placed, stmtsSites, Stmt.behind, Assign.behind, Assign.make, Assign.info, Block.overrides,
      Block.span]
  rw [hsites, List.forall₂_map_right_iff]
  exact hp.imp fun _ _ hp => hp.under fun n c hn => nomatch (Prod.mk.inj (List.mem_singleton.1 hn)).2

/-- What stands for a call, from its body. -/
theorem placeBody_leads (hσ : Sound D lo σ) {call e : Expr} {q : List Stmt} {c c' : Expansion}
    {number : Nat} (hm : Mirrors σ τ lo hi ws b.nodes R)
    (hp : List.Forall₂ (Passage.Meets lo hi) ps (codes (b.sites [])))
    (h : placeBody call (b.freshen number).1 c = .ok ((q, e), c')) :
    Leads σ lo hi ⟨ws, ps.map (·.within ws)⟩ q := by
  -- Freshening keeps the mirror, and what the passages see of it.
  have hm' := hm.freshen hσ number
  have hp' := freshened_passages hm hp number
  -- A body with a return is put behind a temporary, any other one is a block.
  rcases placeBody_cases h with ⟨front, sp, v, t, zero, hb, hz, rfl, _, _⟩ | ⟨rfl, _, _⟩
  · exact placed_leads c.temps hz hb hm' hp'
  · refine ⟨⟨⟨_, hm'.congr (Alike.refl _) ?_⟩, ?_⟩, fun _ hy => nomatch hy⟩
    · rw [stmtsNodes_singleton]
      exact (Alike.refl _).cons rfl rfl
    · rw [stmtsSites_singleton, Stmt.sites, codes_cons rfl]
      exact hp'

end Placed

/-! ## Clauses -/

/-- An expanded clause with what stands in front of it, and the unfolding both come from. -/
structure CopiesClause (σ τ : Scope Entry) (lo mid hi : Nat) (u : Unfolding) (ws : List Node) (p : List Stmt)
    (a a' : Option Assign) : Prop where
  leads : Leads σ lo mid u p
  mirrors : ∃ R, Mirrors σ τ mid hi ws (clauseNodes a') R
  info : a'.map Assign.info = a.map Assign.info
  unfolded : unfoldedClause a = u ++ .only ws
  low : lo ≤ mid
  high : mid ≤ hi

section Clauses

variable {D : Dialect} {σ : Scope Entry} {base lo mid hi : Nat} {μ : List Nat} {ε ε' : Env}

/-- The bindings behind clauses with the same variable. -/
theorem clauseBehind_congr {a a' : Option Assign} (h : a'.map Assign.info = a.map Assign.info) (δ : Env) :
    clauseBehind δ a' = clauseBehind δ a := by
  cases a with
  | none =>
    rw [Option.map_eq_none_iff.1 h]
  | some a =>
    obtain ⟨a', rfl, heq⟩ := Option.map_eq_some_iff.1 h
    rw [clauseBehind, clauseBehind, Assign.behind, Assign.behind, heq]

/-- What an assignment declares, if it does. -/
private theorem Assign.Resolved.declared (hD : D.Plain) {a : Assign} (h : a.Resolved D σ lo hi)
    (hd : a.info.declares = true) : ∃ b, a.info.binding = some b ∧ a.info.name.isPlain = true ∧ lo ≤ b.id
      ∧ b.id < hi := by
  obtain ⟨i, v⟩ := a
  obtain ⟨mid, t, _, hn, hv, _, _, hdeclares, _⟩ := h
  obtain ⟨_, hb, rfl⟩ := hdeclares hd
  exact ⟨_, hb, hD _ hn, hv.le, Nat.lt_succ_self mid⟩

/-- Variables behind a clause. -/
theorem ResolvedClause.shown (hD : D.Plain) {a : Option Assign} (h : ResolvedClause D σ lo hi a)
    (hs : Env.Shown base lo μ ε ε') (hbase : base ≤ lo) :
    Env.Shown base hi μ (clauseBehind ε a) (clauseBehind ε' a) := by
  have hle := h.le
  cases a with
  | none => exact hs.mono hle
  | some a =>
    -- A clause that declares binds the same variable on both sides.
    rw [clauseBehind, clauseBehind, Assign.behind, Assign.behind]
    split
    case isTrue hd =>
      obtain ⟨b, hb, hn, hlo, hhi⟩ := Assign.Resolved.declared hD h hd
      rw [hb]
      exact hs.declare hn hbase hlo hhi
    case isFalse => exact hs.mono hle

/-- The step of a loop, which stays in its header or moves behind the body. -/
theorem ResolvedClause.step (hD : D.Plain) {st : Option Assign} (h : ResolvedClause D σ mid hi st)
    (hs : Env.Shown base lo μ ε ε') (hbase : base ≤ lo) (hle : lo ≤ mid) :
    let δ := clauseBehind ε' (if stepCalls st then none else st)
    Env.Shown base hi (movedNumber st ++ μ) (clauseBehind ε st) δ ∧ δ.Outside lo mid := by
  intro δ
  -- The variables in front of the step are those behind the other clauses.
  have hs' := hs.mono hle
  have hhi := h.le
  cases st with
  | none => exact ⟨hs'.mono hhi, hs.outside mid⟩
  -- The step stays or moves behind the body.
  | some a =>
    cases hcalls : stepCalls (some a) with
    | true =>
      -- It has moved, so the header declares nothing of it.
      have hδ : δ = ε' := by simp [δ, hcalls, clauseBehind]
      rw [hδ]
      refine ⟨?_, hs.outside mid⟩
      simp only [movedNumber, hcalls, Bool.true_and, clauseBehind, Assign.behind]
      split
      case isTrue hd =>
        obtain ⟨b, hb, hn, hlo, hlt⟩ := Assign.Resolved.declared hD h hd
        rw [hb]
        exact hs'.move hn (Nat.le_trans hbase hle) hlo hlt
      case isFalse => exact hs'.mono hhi
    | false =>
      -- It stays, so its declaration is seen in the header.
      have hδ : δ = clauseBehind ε' (some a) := by simp [δ, hcalls]
      have hmoved : movedNumber (some a) = [] := by simp [movedNumber, hcalls]
      rw [hδ, hmoved]
      refine ⟨ResolvedClause.shown hD h hs' (Nat.le_trans hbase hle), fun n b hn => ?_⟩
      rw [clauseBehind, Assign.behind] at hn
      split at hn
      case isTrue hd =>
        rcases List.mem_cons.1 hn with heq | hn
        · obtain ⟨c, hc, _, hlo, _⟩ := Assign.Resolved.declared hD h hd
          rw [hc] at heq
          cases heq
          exact .inr hlo
        · exact .inl (hs.known n b hn)
      case isFalse => exact .inl (hs.known n b hn)

/-- An assignment with what is left of its value. -/
theorem Assign.Resolved.mirrors (hD : D.Plain) (hσ : Sound D lo σ) {i : AssignInfo} {v : Expr}
    (h : (Assign.mk i v).Resolved D σ lo hi) : ∃ mid, v.Resolved D σ lo mid ∧ mid ≤ hi ∧ ∀ v',
      Alike (exprNodes v') v.left → ∃ R, Mirrors σ ((Assign.mk i v).extend σ) mid hi
        (.stmt (.assign (.mk i v)) :: v.left) (Assign.mk i v').nodes R := by
  obtain ⟨mid, t, _, hn, hres, _, _, hdeclares, hassigns⟩ := h
  have hσ := hσ.mono hres.le
  -- What is left of the value only reads.
  have hleft := Expr.left_reads hD v hres
  have hplain := hD _ hn
  have huse : ∀ w, (Node.stmt (.assign (.mk i w))).use? = i.binding.map fun b => (i.name, b.id) := fun _ => rfl
  have hdecl : ∀ w, (Node.stmt (.assign (.mk i w))).declared?
      = if i.declares then i.binding.map (·.id) else none := fun _ => rfl
  -- Whatever the value, the assignment uses and declares the variable of its own.
  have hnodes : ∀ v', Alike (exprNodes v') v.left →
      Alike (Assign.mk i v').nodes (.stmt (.assign (.mk i v)) :: v.left) := by
    intro v' hv'
    refine ⟨fun n id => ?_, fun id => ?_⟩
    · rw [Assign.nodes, uses_cons, uses_cons, huse, huse, Assign.value, hv'.uses]
    · rw [Assign.nodes, declares_cons, declares_cons, hdecl, hdecl, Assign.value, hv'.declares]
  refine ⟨mid, hres, ?_⟩
  -- A declaration is a new variable, a plain assignment uses one that is in scope.
  cases hd : i.declares with
  | true =>
    obtain ⟨hnone, hb, rfl⟩ := hdeclares hd
    refine ⟨Nat.le_succ mid, fun v' hv' => ⟨fun _ => False, ?_⟩⟩
    have hextend : (Assign.mk i v).extend σ = σ.define i.name (.value (.variable mid t)) := by
      rw [Assign.extend, Assign.info, if_pos hd, hb]
    refine Mirrors.congr ?_ (Alike.refl _) (hnodes v' hv')
    -- A use is that of the new variable, or one of the value.
    have huses : ∀ n id, Uses (.stmt (.assign (.mk i v)) :: v.left) n id →
        (n = i.name ∧ id = mid) ∨ Uses v.left n id := by
      intro n id hu
      rw [uses_cons, huse, hb, Option.map_some] at hu
      refine hu.imp_left fun heq => ?_
      cases heq
      exact ⟨rfl, rfl⟩
    have hplain' : ∀ n id, Uses (.stmt (.assign (.mk i v)) :: v.left) n id → n.isPlain = true ∧ id < mid + 1
        ∧ (id < mid → ∃ b, Reaches σ n b ∧ b.id = id) := by
      intro n id hu
      rcases huses n id hu with ⟨rfl, rfl⟩ | hu
      · exact ⟨hplain, Nat.lt_succ_self id, fun h => absurd h (Nat.lt_irrefl id)⟩
      · obtain ⟨hp, b, hr, rfl⟩ := hleft.reached n id hu
        have := (hσ.reached hr).1
        exact ⟨hp, by omega, fun _ => ⟨b, hr, rfl⟩⟩
    -- Nothing has moved on either side.
    refine ⟨fun n id hu _ => ⟨hu, fun h => h⟩, fun n id hu _ => hu, fun n id hu hn => ?_, fun _ => Iff.rfl,
      hplain', fun id hdecl' => ?_, fun _ h => h.elim, fun n b hr => ⟨?_, fun h => h⟩⟩
    · rw [(hplain' n id hu).1] at hn
      cases hn
    · rw [declares_cons, hdecl, if_pos hd, hb, Option.map_some] at hdecl'
      rcases hdecl' with heq | hdecl'
      · cases heq
        exact ⟨Nat.le_refl mid, Nat.lt_succ_self mid⟩
      · exact absurd hdecl' (hleft.silent id)
    -- What is reached behind the declaration is the new variable or was reached before.
    · rw [hextend] at hr
      rcases hr.of_define with hr | ⟨_, heq⟩ | ⟨_, _, _, heq, _⟩
      · exact .inr hr
      · cases heq
        exact .inl (Nat.le_refl mid)
      · cases heq
  | false =>
    obtain ⟨rfl, b, hsome, hb, _⟩ := hassigns hd
    refine ⟨Nat.le_refl hi, fun v' hv' => ⟨fun _ => False, ?_⟩⟩
    have hextend : (Assign.mk i v).extend σ = σ := by
      rw [Assign.extend, Assign.info, hd]
      rfl
    rw [hextend]
    -- The assignment reads its variable like everything that is left of the value.
    have hhead : OnlyReads σ [.stmt (.assign (.mk i v))] := by
      refine ⟨fun id => ?_, fun n id hu => ?_⟩
      · rw [declares_cons, hdecl, hd]
        simp
      · rw [uses_cons, huse, hb, Option.map_some] at hu
        rcases hu with heq | hu
        · cases heq
          exact ⟨hplain, b, .here hsome, rfl⟩
        · simp at hu
    exact Mirrors.of_reads hσ (hhead.append hleft) (hnodes v' hv')

end Clauses

/-! ## Loops -/

section Loops

variable {σ η : Scope Entry} {lo mid hi : Nat} {δ : Env} {sp span span' : Span} {c c' : Option Expr}
  {st st' : Option Assign} {q r ss last : List Stmt}

/-- A guarded body uses and declares what its test and the body do. -/
theorem alike_guarded (sp : Span) (test : Expr) (b : Block) :
    Alike (guarded sp test b).nodes (exprNodes test ++ b.nodes) := by
  have hleave : Alike (leaveBlock sp).nodes [] := (Alike.refl []).cons rfl rfl
  have hparts := (Alike.refl (exprNodes test ++ b.nodes)).append hleave
  rw [List.append_nil] at hparts
  exact hparts.cons rfl rfl

/-- The code literals of a guarded body. -/
theorem codes_guarded (test : Expr) (b : Block) (ε : Env) :
    codes ((guarded sp test b).sites ε) = codes (b.sites ε) := by
  have hleave : codes ((leaveBlock sp).sites ε) = [] := rfl
  rw [guarded, codes_stmt_else, hleave, List.append_nil]

/-- A step that has moved, or is still in its header. -/
private theorem alike_movedStep (hr : stepCalls st = false → r = [] ∧ st' = st) :
    Alike (clauseNodes (if stepCalls st then none else st) ++ stmtsNodes (movedStep st r st'))
      (stmtsNodes r ++ clauseNodes st') := by
  -- What moves stands behind the step's own calls; what stays has none.
  cases hcalls : stepCalls st with
  | true =>
    rw [movedStep, hcalls, if_pos rfl, if_pos rfl, stmtsNodes_append]
    cases st' with
    | none => exact Alike.refl _
    | some a =>
      simp only [Option.toList_some, List.map_cons, List.map_nil, stmtsNodes_singleton]
      exact Alike.refl _
  | false =>
    obtain ⟨rfl, rfl⟩ := hr hcalls
    rw [movedStep, hcalls, if_neg Bool.false_ne_true, if_neg Bool.false_ne_true]
    exact Alike.comm _ _

/-- The code literals of a step that has moved. -/
private theorem codes_movedStep (hr : stepCalls st = false → r = [] ∧ st' = st) (δ : Env) :
    codes (stmtsSites δ (movedStep st r st')) = codes (stmtsSites δ r) := by
  cases hcalls : stepCalls st with
  | true =>
    rw [movedStep, hcalls, if_pos rfl, stmtsSites_append, codes_append]
    cases st' with
    | none => exact List.append_nil _
    | some a => simp
  | false =>
    obtain ⟨rfl, _⟩ := hr hcalls
    rw [movedStep, hcalls]
    rfl

/-- The body of a loop with what has moved there, together with the test that may be left in its header. -/
private theorem alike_foldedBody (hq : testCalls c = false → q = [] ∧ c' = c)
    (hc : testCalls c = true → c'.isSome = true) :
    Alike ((nodesOfOption (if testCalls c then none else c)).map Node.expr
        ++ (foldedBody sp c q c' span (.mk [] ss span') last).nodes)
      (stmtsNodes q ++ (nodesOfOption c').map Node.expr ++ stmtsNodes ss ++ stmtsNodes last) := by
  -- A test that moves becomes the guard of the body, one that stays leaves the body as it is.
  cases hcalls : testCalls c with
  | true =>
    obtain ⟨test, rfl⟩ := Option.isSome_iff_exists.1 (hc hcalls)
    simp only [foldedBody, hcalls, if_true, nodesOfOption, List.map_nil, List.nil_append, Block.nodes,
      List.flatMap_nil, stmtsNodes_append, stmtsNodes_singleton, List.append_assoc]
    have hguard := alike_guarded sp test (.mk [] ss span')
    rw [Block.nodes, List.flatMap_nil, List.nil_append, exprNodes] at hguard
    refine (Alike.refl _).append ?_
    rw [← List.append_assoc]
    exact hguard.append (Alike.refl _)
  | false =>
    obtain ⟨rfl, rfl⟩ := hq hcalls
    simp only [foldedBody, hcalls, Block.overrides, Block.stmts, Block.nodes, List.flatMap_nil,
      List.nil_append, stmtsNodes_append, stmtsNodes, List.append_assoc]
    exact Alike.refl _

/-- The code literals of the body of a loop with what has moved there. -/
private theorem codes_foldedBody (sp span span' : Span) (ss last : List Stmt)
    (hq : testCalls c = false → q = [] ∧ c' = c) (hc : testCalls c = true → c'.isSome = true) (δ : Env) :
    ∃ δ', (δ' = stmtsBehind δ q ∨ δ' = stmtsBehind δ ss)
      ∧ codes ((foldedBody sp c q c' span (.mk [] ss span') last).sites δ)
        = codes (stmtsSites δ q) ++ codes (stmtsSites (stmtsBehind δ q) ss) ++ codes (stmtsSites δ' last) := by
  -- The literals keep their order: those of the test, of the body, and of the step.
  cases hcalls : testCalls c with
  | true =>
    obtain ⟨test, rfl⟩ := Option.isSome_iff_exists.1 (hc hcalls)
    refine ⟨stmtsBehind δ q, .inl rfl, ?_⟩
    have hbehind : ∀ ε, (guarded sp test (.mk [] ss span')).behind ε = ε := fun _ => rfl
    simp [foldedBody, hcalls, Block.sites, assignsSites, assignsBehind, stmtsSites_append, stmtsSites,
      codes_guarded, hbehind]
  | false =>
    obtain ⟨rfl, rfl⟩ := hq hcalls
    refine ⟨stmtsBehind δ ss, .inr rfl, ?_⟩
    simp [foldedBody, hcalls, Block.overrides, Block.stmts, Block.sites, assignsSites, assignsBehind,
      stmtsSites_append, stmtsSites, stmtsBehind]

/-- The parts of a loop header and its body, in another order. -/
private theorem alike_header {I Q T R S B L test step body : List Node}
    (hbody : Alike (test ++ body) (Q ++ T ++ B ++ L)) (hstep : Alike (step ++ L) (R ++ S)) :
    Alike (test ++ I ++ step ++ body) (I ++ (Q ++ (T ++ (R ++ (S ++ B))))) := by
  refine ⟨fun n id => ?_, fun id => ?_⟩
  · have h₁ := hbody.uses n id
    have h₂ := hstep.uses n id
    simp only [uses_append] at h₁ h₂ ⊢
    grind
  · have h₁ := hbody.declares id
    have h₂ := hstep.declares id
    simp only [declares_append] at h₁ h₂ ⊢
    grind

variable {D : Dialect} {base m₁ k m₂ k' m₃ : Nat} {τ η' : Scope Entry} {μ : List Nat} {ε ε' : Env}
  {ui ux us ub : Unfolding} {wi wx wst : List Node} {i i' : Option Assign} {p : List Stmt}

/-- What expanding a loop does to its parts. -/
structure LoopParts (base lo k m₁ m₂ k' m₃ hi : Nat) (σ η η' τ : Scope Entry)
    (ε' : Env) (ui ux us ub : Unfolding) (wi wx wst : List Node) (i i' : Option Assign) (c c' : Option Expr)
    (st st' : Option Assign) (p q r ss : List Stmt) : Prop where
  init : CopiesClause σ.push η lo k m₁ ui wi p i i'
  test : Leads η m₁ m₂ ux q
  left : OnlyReads η wx
  settled : Alike ((nodesOfOption c').map Node.expr) wx
  step : CopiesClause η η' m₂ k' m₃ us wst r st st'
  body : CopiesStmts η'.push τ base m₃ hi
    (stmtsBehind (clauseBehind (clauseBehind (stmtsBehind ε' p) i') (if stepCalls st then none else st)) q) ub ss
  testStays : testCalls c = false → q = [] ∧ c' = c
  testMoves : testCalls c = true → c'.isSome = true
  stepStays : stepCalls st = false → r = [] ∧ st' = st
  le : lo ≤ m₁ ∧ m₁ ≤ m₂ ∧ m₂ ≤ m₃ ∧ m₃ ≤ hi

/-- The nodes of an expanded loop. -/
theorem LoopParts.mirrors (h : LoopParts base lo k m₁ m₂ k' m₃ hi σ η η' τ ε' ui ux us ub wi wx wst i i'
    c c' st st' p q r ss) (hσ : Sound D lo σ) (hη : Sound D m₁ η) (sp span span' : Span) :
    ∃ R, Mirrors σ σ lo hi (ui.nodes ++ (wi ++ (ux.nodes ++ (wx ++ (us.nodes ++ (wst ++ ub.nodes))))))
      (stmtsNodes (p ++ [.forLoop sp i' (if testCalls c then none else c) (if stepCalls st then none else st)
        (foldedBody sp c q c' span (.mk [] ss span') (movedStep st r st'))])) R := by
  -- Every part has its own range of numbers, and the ranges follow each other.
  obtain ⟨h₁, h₂, h₃, h₄⟩ := h.le
  have hk := h.init.high
  have hk' := h.step.low
  have hk'' := h.step.high
  -- Each part by itself.
  obtain ⟨_, hp⟩ := h.init.leads.copies.mirrors
  obtain ⟨_, hi⟩ := h.init.mirrors
  obtain ⟨_, hq⟩ := h.test.copies.mirrors
  have hx := Mirrors.of_reads (hη.mono h₂) h.left h.settled
  obtain ⟨_, hr⟩ := h.step.leads.copies.mirrors
  obtain ⟨_, hst⟩ := h.step.mirrors
  obtain ⟨_, hss⟩ := h.body.mirrors
  have hss := hss.scope (fun n => (η'.lookup_push n).symm) fun _ => rfl
  -- All of them in a row, in the order in which they were typed.
  have hall := hp.append (hi.append (hq.append (hx.append (hr.append (hst.append hss hk'' h₄) hk' (by omega))
    (Nat.le_refl m₂) (by omega)) h₂ (by omega)) hk (by omega)) h.init.low (by omega)
  -- The header closes its scope, so nothing of it is reached behind the loop.
  refine ⟨_, ((hall.scope (fun n => (σ.lookup_push n).symm) fun _ => rfl).close hσ).congr (Alike.refl _) ?_⟩
  rw [stmtsNodes_append, stmtsNodes_singleton]
  refine (Alike.refl _).append (Alike.cons ?_ rfl rfl)
  exact alike_header (alike_foldedBody h.testStays h.testMoves) (alike_movedStep h.stepStays)

/-- The code literals of an expanded loop. -/
theorem LoopParts.passages (h : LoopParts base lo k m₁ m₂ k' m₃ hi σ η η' τ ε' ui ux us ub wi wx wst i i'
    c c' st st' p q r ss) (hbase : base ≤ lo) (hε : Env.Shown base lo μ ε ε')
    (hknown : ∀ n b, (n, Binder.variable (some b)) ∈ clauseBehind (stmtsBehind ε' p) i' → b.id < m₁)
    (hout : Env.Outside m₁ m₂
      (clauseBehind (clauseBehind (stmtsBehind ε' p) i') (if stepCalls st then none else st))) :
    List.Forall₂ (Passage.Meets base hi) (ui.passages ++ (ux.passages ++ (ub.passages ++ us.passages)))
      (codes (stmtsSites ε' (p ++ [.forLoop sp i' (if testCalls c then none else c)
        (if stepCalls st then none else st)
        (foldedBody sp c q c' span (.mk [] ss span') (movedStep st r st'))]))) := by
  obtain ⟨h₁, h₂, h₃, h₄⟩ := h.le
  have hk := h.init.high
  have hk'' := h.step.high
  have hlow := h.step.low
  -- The literals of the whole are those of the parts, each seen from its own place.
  rw [stmtsSites_append, stmtsSites_singleton, codes_append, codes_stmt_forLoop]
  obtain ⟨δ, hδ, hcodes⟩ := codes_foldedBody sp span span' ss (movedStep st r st') h.testStays h.testMoves
    (clauseBehind (clauseBehind (stmtsBehind ε' p) i') (if stepCalls st then none else st))
  rw [hcodes, codes_movedStep h.stepStays, List.append_assoc]
  -- What holds within the range of a part holds within the range of the loop.
  have hmono : ∀ {m : Nat}, m ≤ hi → ∀ x s, Passage.Meets base m x s → Passage.Meets base hi x s :=
    fun hle _ _ hp => hp.mono (Nat.le_refl _) hle
  have hp := (h.init.leads.stmts (hε.outside k) hbase).passages.imp (hmono (by omega))
  have hq := (h.test.stmts hout (Nat.le_trans hbase h₁)).passages.imp (hmono (by omega))
  refine List.rel_append hp (List.rel_append hq (List.rel_append h.body.passages ?_))
  -- A step that stays has no calls and therefore no literals.
  cases hcalls : stepCalls st with
  | true =>
    -- The step is behind the body now, and may see its variables.
    rw [hcalls] at hδ
    refine (h.step.leads.stmts ?_ (by omega)).passages.imp (hmono (by omega))
    intro n b hn
    have hfront : (n, Binder.variable (some b)) ∈ clauseBehind (stmtsBehind ε' p) i' → b.id < m₂ :=
      fun hmem => Nat.lt_of_lt_of_le (hknown n b hmem) h₂
    -- The variable is one of the header, or one that the body declares.
    rcases hδ with rfl | rfl
    · exact .inl (hfront (h.test.known hn))
    · rcases mem_stmtsBehind hn with hn | ⟨x, hx, hb⟩
      · exact .inl (hfront hn)
      · obtain ⟨R, hm⟩ := h.body.mirrors
        have hdecl := (hm.declares b.id).1 ⟨x, hx, (Node.use?_of_binds hb).2⟩
        have := (hm.own b.id hdecl).1
        omega
  | false =>
    obtain ⟨rfl, _⟩ := h.stepStays hcalls
    have hnone : us.passages = [] := List.forall₂_nil_right_iff.1 h.step.leads.copies.passages
    rw [hnone]
    exact .nil

end Loops

end AisScript
