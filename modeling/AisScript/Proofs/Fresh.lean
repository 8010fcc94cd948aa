import AisScript.Proofs.Hygiene

/-!
# Names that expansion makes up

Expansion names its temporaries and the declarations it renames.  The names it makes up differ from
each other, and each of them begins with two underscores and ends with a digit.  A program that uses no
name of this form therefore keeps all its names apart from the ones made up for it: a declaration of
the expanded program has a name made up for it, or it is a variable of the source under its own name.

A script may use names of this form, though, and then a temporary can have the name of a variable.

* `Expansion.Fresh`       the names made up so far differ
* `Makes`                 what a step of the expansion makes up and declares
* `Block.expand_fresh`    names made up for a program
-/

namespace AisScript

/-! ## The names made up so far -/

/-- The names made up so far differ, and the counters are ahead of all of them. -/
structure Expansion.Fresh (c : Expansion) : Prop where
  nodup : c.made.Nodup
  temps : ∀ k, k < c.temps → tempName k ∈ c.made
  numbered : ∀ n ∈ c.made, (∃ k, k < c.temps ∧ n = tempName k) ∨ ∃ m k, k < c.renamed ∧ n = freshName m k

namespace Expansion.Fresh

variable {c : Expansion}

/-- The names of temporaries among those made up. -/
private theorem mem_temp (h : c.Fresh) (k : Nat) : tempName k ∈ c.made ↔ k < c.temps := by
  refine ⟨fun hmem => ?_, h.temps k⟩
  rcases h.numbered _ hmem with ⟨j, hj, heq⟩ | ⟨m, j, _, heq⟩
  · have hk : k = j := tempName_number heq
    omega
  · exact absurd heq.symm (freshName_ne_tempName m j k)

/-- Made-up names are numbered. -/
theorem isNumbered (h : c.Fresh) {n : Text} (hn : n ∈ c.made) : n.isNumbered = true := by
  rcases h.numbered n hn with ⟨k, _, rfl⟩ | ⟨m, k, _, rfl⟩
  · exact isNumbered_tempName k
  · exact isNumbered_freshName m k

/-- One more temporary. -/
theorem temp (h : c.Fresh) :
    Expansion.Fresh { c with temps := c.temps + 1, made := tempName c.temps :: c.made } := by
  -- The names of temporaries made so far have numbers below the counter.
  have hnew : tempName c.temps ∉ c.made := fun hmem => Nat.lt_irrefl _ ((h.mem_temp c.temps).1 hmem)
  refine ⟨List.nodup_cons.2 ⟨hnew, h.nodup⟩, fun k hk => ?_, fun n hn => ?_⟩
  · rcases Nat.lt_succ_iff_lt_or_eq.1 hk with hk | rfl
    · exact List.mem_cons_of_mem _ (h.temps k hk)
    · exact List.mem_cons_self
  · rcases List.mem_cons.1 hn with rfl | hn
    · exact .inl ⟨c.temps, Nat.lt_succ_self _, rfl⟩
    · rcases h.numbered n hn with ⟨k, hk, heq⟩ | hfresh
      · exact .inl ⟨k, Nat.lt_succ_of_lt hk, heq⟩
      · exact .inr hfresh

end Expansion.Fresh

/-- Fresh names are numbered in a row. -/
private theorem mem_freshNames {number : Nat} {cs : List (Nat × Text)} {n : Text}
    (h : n ∈ (freshNames number cs).map Prod.snd) :
    ∃ m k, number ≤ k ∧ k < number + cs.length ∧ n = freshName m k := by
  -- The first contested declaration gets the lowest number, and its name stands last.
  induction cs generalizing number with
  | nil => exact nomatch h
  | cons y cs ih =>
    obtain ⟨id, name⟩ := y
    rw [freshNames, List.map_append, List.mem_append] at h
    rw [List.length_cons]
    rcases h with h | h
    · obtain ⟨m, k, hle, hlt, rfl⟩ := ih h
      exact ⟨m, k, by omega, by omega, rfl⟩
    · obtain rfl : n = freshName name number := List.mem_singleton.1 h
      exact ⟨name, number, Nat.le_refl _, by omega, rfl⟩

/-- Fresh names differ. -/
private theorem nodup_freshNames (number : Nat) (cs : List (Nat × Text)) :
    ((freshNames number cs).map Prod.snd).Nodup := by
  induction cs generalizing number with
  | nil => exact List.nodup_nil
  | cons y cs ih =>
    obtain ⟨id, name⟩ := y
    rw [freshNames, List.map_append]
    have hone : [freshName name number].Nodup := List.nodup_cons.2 ⟨List.not_mem_nil, List.nodup_nil⟩
    -- The names of the others have higher numbers than that of the head.
    refine List.nodup_append.2 ⟨ih (number + 1), hone, fun n hn m hm => ?_⟩
    obtain rfl : m = freshName name number := List.mem_singleton.1 hm
    rintro rfl
    obtain ⟨_, k, hle, _, heq⟩ := mem_freshNames hn
    have hk : number = k := freshName_number heq
    omega

/-- A block that is freshened uses up as many numbers as it has contested bindings. -/
private theorem Block.freshen_number (b : Block) (number : Nat) :
    (b.freshen number).2 = number + (contested b.nodes).length := by
  simp only [Block.freshen]
  split
  · rename_i hempty
    rw [List.isEmpty_iff.1 hempty]
    rfl
  · rfl

/-- Fresh names behind those made up so far. -/
private theorem Expansion.Fresh.renames {c : Expansion} (h : c.Fresh) (b : Block) :
    Expansion.Fresh { c with
      renamed := (b.freshen c.renamed).2
      made := (freshNames c.renamed (contested b.nodes)).map Prod.snd ++ c.made } := by
  rw [Block.freshen_number]
  refine ⟨List.nodup_append.2 ⟨nodup_freshNames _ _, h.nodup, fun n hn m hm => ?_⟩,
    fun k hk => List.mem_append_right _ (h.temps k hk), fun n hn => ?_⟩
  -- Fresh names are numbered from the counter on, and it is ahead of all names made up before.
  · rintro rfl
    obtain ⟨name, k, hle, _, rfl⟩ := mem_freshNames hn
    rcases h.numbered _ hm with ⟨j, _, heq⟩ | ⟨name', j, hj, heq⟩
    · exact freshName_ne_tempName name k j heq
    · have hk : k = j := freshName_number heq
      omega
  · rcases List.mem_append.1 hn with hn | hn
    · obtain ⟨name, k, _, hlt, rfl⟩ := mem_freshNames hn
      exact .inr ⟨name, k, hlt, rfl⟩
    · rcases h.numbered n hn with htemp | ⟨name, k, hk, rfl⟩
      · exact .inl htemp
      · exact .inr ⟨name, k, Nat.lt_add_right _ hk, rfl⟩

/-! ## Steps of the expansion -/

/-- A declaration under a name that was made up, or of a variable of the script under its own name. -/
def Node.Known (D : Dialect) (made : List Text) (x : Node) : Prop :=
  ∀ n b, x.Binds (n, .variable b) → n ∈ made ∨ b.isSome = true ∧ D.name n

/-- What a step of the expansion that gives the nodes makes up: names that differ from all made up
before, under which it declares everything that has not its own name. -/
structure Makes (D : Dialect) (c c' : Expansion) (nodes : List Node) : Prop where
  grows : c.made ⊆ c'.made
  fresh : c.Fresh → c'.Fresh
  known : ∀ x ∈ nodes, x.Known D c'.made

namespace Makes

variable {D : Dialect} {c c₁ c₂ : Expansion} {xs ys : List Node}

/-- A step that makes up nothing. -/
theorem none (h : ∀ x ∈ xs, x.Known D c.made) : Makes D c c xs :=
  ⟨List.Subset.refl _, id, h⟩

/-- A step that gives nothing. -/
theorem nil : Makes D c c [] := none fun _ hx => nomatch hx

/-- Two steps in a row. -/
theorem append (hx : Makes D c c₁ xs) (hy : Makes D c₁ c₂ ys) : Makes D c c₂ (xs ++ ys) where
  grows := List.Subset.trans hx.grows hy.grows
  fresh h := hy.fresh (hx.fresh h)
  known := by
    refine List.forall_mem_append.2 ⟨fun x hmem n b hb => ?_, hy.known⟩
    exact (hx.known x hmem n b hb).imp_left fun h => hy.grows h

/-- Nodes among which nothing else is declared. -/
theorem of_binds (h : Makes D c c₁ xs) (hsub : ∀ x ∈ ys, ∀ y, x.Binds y → x ∈ xs) : Makes D c c₁ ys where
  grows := h.grows
  fresh := h.fresh
  known x hx n b hb := h.known x (hsub x hx _ hb) n b hb

/-- One more node, which declares nothing. -/
theorem cons (h : Makes D c c₁ xs) {x : Node} (hx : ∀ y, ¬x.Binds y) : Makes D c c₁ (x :: xs) := by
  refine h.of_binds fun y hy z hz => ?_
  rcases List.mem_cons.1 hy with rfl | hy
  · exact absurd hz (hx z)
  · exact hy

/-- More expressions, which declare nothing. -/
theorem exprs (h : Makes D c c₁ xs) (es : List Expr) : Makes D c c₁ (es.map Node.expr ++ xs) := by
  refine h.of_binds fun y hy z hz => ?_
  rcases List.mem_append.1 hy with hy | hy
  · obtain ⟨_, _, rfl⟩ := List.mem_map.1 hy
    exact hz.elim
  · exact hy

/-- A single statement. -/
theorem single {s : Stmt} (h : Makes D c c₁ s.nodes) : Makes D c c₁ (stmtsNodes [s]) := by
  rw [stmtsNodes_singleton]
  exact h

/-- A statement behind what stands in front of it. -/
theorem stmt {p : List Stmt} (hp : Makes D c c₁ (stmtsNodes p)) {s : Stmt} (hs : Makes D c₁ c₂ s.nodes) :
    Makes D c c₂ (stmtsNodes (p ++ [s])) := by
  rw [stmtsNodes_append, stmtsNodes_singleton]
  exact hp.append hs

end Makes

/-- No parameters. -/
private theorem no_overrides {D : Dialect} : ∀ x ∈ ([] : List Assign).flatMap Assign.nodes, x.Known D [] :=
  fun _ hx => nomatch hx

/-- An assignment under a name of the dialect. -/
private theorem Assign.known {D : Dialect} {made : List Text} {a : Assign} {b : Binding}
    (hb : a.info.binding = some b) (hn : D.name a.info.name) : ∀ x ∈ a.nodes, x.Known D made := by
  refine List.forall_mem_cons.2 ⟨fun n b' hbinds => ?_, fun x hx n b' hbinds => ?_⟩
  · obtain ⟨_, heq⟩ := hbinds
    cases heq
    rw [hb]
    exact .inr ⟨rfl, hn⟩
  · obtain ⟨_, _, rfl⟩ := List.mem_map.1 hx
    exact hbinds.elim

/-- The parameters of a call, bound to its arguments. -/
private theorem overrides_known {D : Dialect} {made : List Text} {params : List Param}
    (hp : ∀ p ∈ params, D.name p.name) (lo : Nat) (args args' : List Expr) :
    ∀ x ∈ (bindExpanded (numberBinds lo (bindArguments params args)) args').flatMap Assign.nodes,
      x.Known D made := by
  induction params generalizing lo args args' with
  | nil => exact fun _ hx => nomatch hx
  | cons p params ih =>
    obtain ⟨hname, hp⟩ := List.forall_mem_cons.1 hp
    cases args with
    | nil => exact fun _ hx => nomatch hx
    | cons e args =>
      cases args' with
      | nil => exact fun _ hx => nomatch hx
      | cons e' args' =>
        refine List.forall_mem_append.2 ⟨?_, ih hp (lo + 1) args args'⟩
        exact Assign.known rfl hname

/-- A renaming gives declarations names of its own or leaves them. -/
private theorem Node.Known.rename {D : Dialect} {made : List Text} {r : Renaming} {x : Node}
    (h : x.Known D made) : (x.rename r).Known D (r.map Prod.snd ++ made) := by
  intro n b hb
  obtain ⟨m, hm, hb⟩ := Node.binds_of_rename hb
  -- A renaming changes the name only; the binding stays.
  have hn : n = r.apply b m := congrArg Prod.fst hm
  have hkeeps : r.apply b m = m → n ∈ r.map Prod.snd ++ made ∨ b.isSome = true ∧ D.name n := by
    intro heq
    rw [hn, heq]
    exact (h m b hb).imp_left fun hmem => List.mem_append_right _ hmem
  cases b with
  | none => exact hkeeps rfl
  -- No renaming reaches what has no binding.
  | some b =>
    cases hr : r.lookup b.id with
    | none => exact hkeeps (by rw [Renaming.apply, hr, Option.getD_none])
    | some fresh =>
      obtain ⟨r₁, r₂, rfl, _⟩ := List.lookup_eq_some_iff.1 hr
      have hfresh : n = fresh := by rw [hn, Renaming.apply, hr, Option.getD_some]
      refine .inl (List.mem_append_left _ (List.mem_map.2 ⟨(b.id, fresh), ?_, hfresh.symm⟩))
      exact List.mem_append_right _ List.mem_cons_self

/-- Freshening the body of a call. -/
private theorem freshened_makes {D : Dialect} {b b' : Block} {c c' : Expansion}
    (hb : ∀ x ∈ b.nodes, x.Known D c.made) (h : freshened b c = .ok (b', c')) :
    Makes D c c' b'.nodes := by
  obtain ⟨rfl, rfl⟩ : b' = (b.freshen c.renamed).1 ∧ c' = { c with
      renamed := (b.freshen c.renamed).2
      made := (freshNames c.renamed (contested b.nodes)).map Prod.snd ++ c.made } := by
    cases h
    exact ⟨rfl, rfl⟩
  -- Either the body is left as it is, or its nodes are those of the body, renamed.
  refine ⟨List.subset_append_right _ _, fun hc => hc.renames b, fun x hx => ?_⟩
  simp only [Block.freshen] at hx
  split at hx
  · intro n d hbinds
    exact (hb x hx n d hbinds).imp_left fun hmem => List.mem_append_right _ hmem
  · rw [Block.nodes_rename] at hx
    obtain ⟨y, hy, rfl⟩ := List.mem_map.1 hx
    exact (hb y hy).rename

/-- Putting the body of a call to its place. -/
private theorem placeBody_makes {D : Dialect} {call e : Expr} {body : Block} {q : List Stmt}
    {c c' : Expansion} (hb : ∀ x ∈ body.nodes, x.Known D c.made)
    (h : placeBody call body c = .ok ((q, e), c')) : Makes D c c' (stmtsNodes q) := by
  -- With a return at its end a body makes up one temporary, without one nothing.
  rcases placeBody_cases h with ⟨front, sp, v, t, zero, hstmts, _, rfl, _, rfl⟩ | ⟨rfl, _, rfl⟩
  · refine ⟨List.subset_cons_self _ _, fun hc => hc.temp, fun x hx n d hbinds => ?_⟩
    obtain ⟨os, ss, sp'⟩ := body
    have hstmts : ss = front ++ [.ret sp v] := hstmts
    subst hstmts
    -- All but the temporary's declaration is one of the body's.
    have hown : x = .stmt (.assign (.make (tempName c.temps) zero true call.span))
        ∨ x ∈ (Block.mk os (front ++ [.ret sp v]) sp').nodes := by
      simp only [placed, stmtsNodes, Stmt.nodes, Assign.nodes, Block.nodes, Block.overrides, List.mem_append,
        List.mem_cons, stmtsNodes_append] at hx ⊢
      rcases hx with (rfl | hx) | ((rfl | hx | hx | ((rfl | hx) | hx)) | hx)
      · exact .inl rfl
      · obtain ⟨_, _, rfl⟩ := List.mem_map.1 hx
        exact hbinds.elim
      · exact hbinds.elim
      · exact .inr (.inl hx)
      · exact .inr (.inr (.inl hx))
      · cases hbinds.1
      · obtain ⟨_, _, rfl⟩ := List.mem_map.1 hx
        exact hbinds.elim
      · cases hx
      · cases hx
    rcases hown with rfl | hx
    · obtain ⟨_, heq⟩ := hbinds
      cases heq
      exact .inl List.mem_cons_self
    · exact (hb x hx n d hbinds).imp_left fun hmem => List.mem_cons_of_mem _ hmem
  · refine Makes.none ?_
    rw [stmtsNodes_singleton]
    exact List.forall_mem_cons.2 ⟨fun _ _ hbinds => hbinds.elim, hb⟩

mutual

/-- What expanding an expression makes up. -/
private theorem Expr.expand_makes {D : Dialect} {σ : Scope Entry} {lo hi : Nat} (hσ : Sound D lo σ) :
    (e : Expr) →
    e.Resolved D σ lo hi → ∀ {c p e' c'}, e.expand c = .ok ((p, e'), c') → Makes D c c' (stmtsNodes p)
  | .const i v, _, _, _, _, _, he | .var i n b, _, _, _, _, _, he => by
    cases he
    exact Makes.nil
  | .binary i op l r, h, _, _, _, _, he => by
    obtain ⟨mid, _, _, _, hl, _, hr, _⟩ := h
    obtain ⟨p, l', c₁, hl', q, r', c₂, hr', ⟨⟩⟩ := Expr.expand_binary_ok.1 he
    -- The right operand is expanded behind the left one, in the state that the left one leaves.
    rw [stmtsNodes_append]
    exact (Expr.expand_makes hσ l hl hl').append (Expr.expand_makes (hσ.mono hl.le) r hr hr')
  | .unary i op x, h, _, _, _, _, he => by
    obtain ⟨_, _, hx, _⟩ := h
    obtain ⟨p, x', c₁, hx', ⟨⟩⟩ := Expr.expand_unary_ok.1 he
    exact Expr.expand_makes hσ x hx hx'
  | .member i a b n ns, h, _, _, _, _, he => by
    obtain ⟨_, _, hb, _⟩ := h
    obtain ⟨p, b', c₁, hb', ⟨⟩⟩ := Expr.expand_member_ok.1 he
    exact Expr.expand_makes hσ b hb hb'
  | .query i k op u x q, h, _, _, _, _, he => by
    obtain ⟨m₁, m₂, hu, hx, hq, _⟩ := h
    obtain ⟨pu, u', c₁, hu', px, x', c₂, hx', pq, q', c₃, hq', ⟨⟩⟩ := Expr.expand_query_ok.1 he
    -- The three parts are expanded one behind the other.
    have hσ₁ := hσ.mono hu.le
    have hσ₂ := hσ₁.mono hx.le
    rw [stmtsNodes_append, stmtsNodes_append]
    exact ((expandOption_makes hσ u hu hu').append (expandOption_makes hσ₁ x hx hx')).append
      (expandOption_makes hσ₂ q hq hq')
  | .call i n ns args (.function binds body), h, _, _, _, _, he => by
    obtain ⟨mid, types, t, hargs, ⟨params, template, captured, hf, _, rfl, hbody, rfl⟩, _⟩ := h
    -- The arguments come first, then the note, the body, its fresh names, and the place.
    obtain ⟨p, args', c₁, hargs', body', c₃, hbody', body'', c₄, hfresh, q, e, c₅, hplace, ⟨⟩⟩ :=
      Expr.expand_call_ok.1 he
    -- The body was typed in the scope captured by the template, not in that of the call.
    obtain ⟨hs, _⟩ := bodyScope_sound ((hσ.inner hf).mono hargs.le) params hargs.proper
    have hnoted : Makes D c₁ { c₁ with expanded := n :: c₁.expanded } [] :=
      ⟨List.Subset.refl _, fun hc => ⟨hc.nodup, hc.temps, hc.numbered⟩, fun _ hx => nomatch hx⟩
    -- The body is expanded, freshened and put to its place; each step builds on what is known before.
    have hexpanded := Block.expandOver_makes hs body hbody (overrides_known (hσ.template hf).1 mid args args')
      hbody'
    have hfreshened := freshened_makes hexpanded.known hfresh
    have hplaced := placeBody_makes hfreshened.known hplace
    have hbefore := (hnoted.append hexpanded).append hfreshened
    have hq : Makes D c₁ _ (stmtsNodes q) :=
      ⟨List.Subset.trans hbefore.grows hplaced.grows, fun hc => hplaced.fresh (hbefore.fresh hc), hplaced.known⟩
    rw [stmtsNodes_append]
    exact (expandList_makes hσ args hargs hargs').append hq
  -- A typed program has no unresolved call.
  | .call i n ns args .unresolved, h, _, _, _, _, _ => by
    obtain ⟨_, _, _, _, h, _⟩ := h
    exact h.elim
  | .call i n ns args (.intrinsic op), h, _, _, _, _, he
  | .call i n ns args (.constructor op), h, _, _, _, _, he => by
    obtain ⟨mid, _, _, hargs, _, _⟩ := h
    obtain ⟨p, args', c₁, hargs', ⟨⟩⟩ := (Expr.expand_keptCall_ok rfl).1 he
    exact expandList_makes hσ args hargs hargs'
  termination_by structural e => e

/-- What expanding arguments makes up. -/
private theorem expandList_makes {D : Dialect} {σ : Scope Entry} {lo hi : Nat} {types : List Ty}
    (hσ : Sound D lo σ) : (es : List Expr) → ResolvedArgs D σ lo hi types es → ∀ {c p es' c'},
      expandList es c = .ok ((p, es'), c') → Makes D c c' (stmtsNodes p)
  | [], _, _, _, _, _, he => by
    cases he
    exact Makes.nil
  | e :: es, ⟨mid, _, _, _, he, _, _, hes⟩, _, _, _, _, h => by
    obtain ⟨p, e', c₁, he', q, es', c₂, hes', ⟨⟩⟩ := expandList_cons_ok.1 h
    rw [stmtsNodes_append]
    exact (Expr.expand_makes hσ e he he').append (expandList_makes (hσ.mono he.le) es hes hes')
  termination_by structural es => es

/-- What expanding an expression that may be absent makes up. -/
private theorem expandOption_makes {D : Dialect} {σ : Scope Entry} {lo hi : Nat} (hσ : Sound D lo σ) :
    (e : Option Expr) → ResolvedOption D σ lo hi e → ∀ {c p e' c'},
      expandOption e c = .ok ((p, e'), c') → Makes D c c' (stmtsNodes p)
  | none, _, _, _, _, _, he => by
    cases he
    exact Makes.nil
  | some e, ⟨h, _⟩, _, _, _, _, he => by
    obtain ⟨p, e', c₁, he', ⟨⟩⟩ := expandOption_some_ok.1 he
    exact Expr.expand_makes hσ e h he'
  termination_by structural e => e

/-- What expanding an assignment makes up and declares. -/
private theorem Assign.expand_makes {D : Dialect} {σ : Scope Entry} {lo hi : Nat} (hσ : Sound D lo σ) :
    (a : Assign) → a.Resolved D σ lo hi → ∀ {c p a' c'}, a.expand c = .ok ((p, a'), c') →
      Makes D c c' (stmtsNodes p) ∧ Makes D c' c' a'.nodes
  | .mk i v, h, _, _, _, _, ha => by
    obtain ⟨p, v', c₁, hv', ⟨⟩⟩ := Assign.expand_ok.1 ha
    -- The name that is assigned is of the dialect, and its
    -- binding is known, whether it is declared here or not.
    obtain ⟨mid, t, _, hname, hv, _, _, hdeclares, hassigns⟩ := h
    refine ⟨Expr.expand_makes hσ v hv hv', Makes.none ?_⟩
    cases hd : i.declares with
    | true =>
      obtain ⟨_, hb, _⟩ := hdeclares hd
      exact Assign.known hb hname
    | false =>
      obtain ⟨_, _, _, hb, _⟩ := hassigns hd
      exact Assign.known hb hname
  termination_by structural a => a

/-- What expanding a clause that may be absent makes up and declares. -/
private theorem expandClause_makes {D : Dialect} {σ : Scope Entry} {lo hi : Nat} (hσ : Sound D lo σ) :
    (a : Option Assign) → ResolvedClause D σ lo hi a → ∀ {c p a' c'},
      expandClause a c = .ok ((p, a'), c') → Makes D c c' (stmtsNodes p) ∧ Makes D c' c' (clauseNodes a')
  | none, _, _, _, _, _, ha => by
    cases ha
    exact ⟨Makes.nil, Makes.nil⟩
  | some a, h, _, _, _, _, ha => by
    obtain ⟨p, a', c₁, ha', ⟨⟩⟩ := expandClause_some_ok.1 ha
    exact Assign.expand_makes hσ a h ha'
  termination_by structural a => a

/-- What expanding a statement makes up and declares. -/
private theorem Stmt.expand_makes {D : Dialect} {σ : Scope Entry} {lo hi : Nat} {last : Bool}
    (hσ : Sound D lo σ) : (s : Stmt) → s.Resolved D σ lo hi last → ∀ {c ss c'}, s.expand c = .ok (ss, c') →
      Makes D c c' (stmtsNodes ss)
  | .block b, h, _, _, _, hs => by
    obtain ⟨b', c₁, hb', ⟨⟩⟩ := Stmt.expand_block_ok.1 hs
    exact Makes.single ((Block.expandOver_makes hσ.push b h no_overrides hb').cons fun _ hy => hy)
  | .eval sp e, h, _, _, _, hs => by
    obtain ⟨p, e', c₁, he', hs⟩ := Stmt.expand_eval_ok.1 hs
    -- A call of a script function that stands alone leaves nothing but what is put in front.
    have hp := Expr.expand_makes hσ e h he'
    split at hs <;> cases hs
    · exact hp
    · refine hp.stmt (Makes.cons ?_ fun _ hy => hy)
      rw [exprNodes, ← List.append_nil (e'.nodes.map Node.expr)]
      exact Makes.nil.exprs e'.nodes
  | .assign a, h, _, _, _, hs => by
    obtain ⟨p, a', c₁, ha', ⟨⟩⟩ := Stmt.expand_assign_ok.1 hs
    obtain ⟨hp, ha⟩ := Assign.expand_makes hσ a h ha'
    exact hp.stmt ha
  | .assignMember sp t v, h, _, _, _, hs => by
    obtain ⟨mid, _, _, ht, _, hv, _⟩ := h
    obtain ⟨p, t', c₁, ht', q, v', c₂, hv', ⟨⟩⟩ := Stmt.expand_assignMember_ok.1 hs
    have hp := Expr.expand_makes hσ t ht ht'
    have hq := Expr.expand_makes (hσ.mono ht.le) v hv hv'
    -- What is put in front of the target, of the value, and the statement itself.
    rw [List.append_assoc, stmtsNodes_append]
    refine hp.append (hq.stmt (Makes.cons ?_ fun _ hy => hy))
    rw [exprNodes, exprNodes, ← List.map_append, ← List.append_nil (List.map _ _)]
    exact Makes.nil.exprs _
  | .cond sp x t f, h, _, _, _, hs => by
    obtain ⟨m₁, m₂, _, hx, _, _, ht, hf⟩ := h
    obtain ⟨p, x', c₁, hx', t', c₂, ht', f', c₃, hf', ⟨⟩⟩ := Stmt.expand_cond_ok.1 hs
    have hσ₁ := hσ.mono hx.le
    have ht := Block.expandOver_makes hσ₁.push t ht no_overrides ht'
    refine (Expr.expand_makes hσ x hx hx').stmt ?_
    -- The branches of a condition have scopes of their own; the absent one adds nothing.
    cases f with
    | none =>
      cases hf'
      exact (ht.exprs x'.nodes).cons fun _ hy => hy
    | some f =>
      obtain ⟨f'', c₄, hf', ⟨⟩⟩ := expandElse_some_ok.1 hf'
      have hσ₂ : Sound D m₂ σ := hσ₁.mono (Block.Resolved.le t (by assumption))
      have hf := Block.expandOver_makes hσ₂.push f hf no_overrides hf'
      have hboth := (ht.append hf).exprs x'.nodes
      rw [← List.append_assoc] at hboth
      exact hboth.cons fun _ hy => hy
  | .loop sp x b, h, _, _, _, hs => by
    obtain ⟨mid, _, hx, _, _, hb⟩ := h
    obtain ⟨p, x', c₁, hx', b', c₂, hb', ⟨⟩⟩ := Stmt.expand_loop_ok.1 hs
    -- The condition's calls move into the body, as the first part of it.
    have hp := Expr.expand_makes hσ x hx hx'
    have hb := Block.expandOver_makes (hσ.mono hx.le).push b hb no_overrides hb'
    -- A loop, its condition and the guard bind nothing,
    -- so all that binds is in the old condition and body.
    refine Makes.single ((hp.append hb).of_binds fun y hy z hz => ?_)
    rcases List.mem_cons.1 hy with rfl | hy
    · exact hz.elim
    · rcases List.mem_cons.1 hy with rfl | hy
      · exact hz.elim
      · change y ∈ stmtsNodes (p ++ [guarded sp x' b']) at hy
        rw [stmtsNodes_append, stmtsNodes_singleton] at hy
        rcases List.mem_append.1 hy with hy | hy
        · exact List.mem_append_left _ hy
        · exact List.mem_append_right _ (binds_guarded hy hz)
  | .forLoop sp i x st b, h, _, _, _, hs => by
    obtain ⟨m₁, m₂, m₃, hi, hx, hst, _, hb⟩ := h
    obtain ⟨p, i', c₁, hi', q, x', c₂, hx', b', c₃, hb', r, st', c₄, hst', ⟨⟩⟩ := Stmt.expand_forLoop_ok.1 hs
    -- The header opens a scope, in which the condition, the
    -- body and the step are typed one behind the other.
    have hη := ResolvedClause.sound hσ.push hi
    have hη₂ := hη.mono hx.le
    have hη₃ := ResolvedClause.sound hη₂ hst
    obtain ⟨hp, hinit⟩ := expandClause_makes hσ.push i hi hi'
    have hq := expandOption_makes hη x hx hx'
    have hbody := Block.expandOver_makes hη₃.push b hb no_overrides hb'
    obtain ⟨hr, hstep⟩ := expandClause_makes hη₂ st hst hst'
    -- A step without calls stays in the header as it was; one with calls leaves it.
    have hkeep : ∀ y ∈ clauseNodes (if stepCalls st then none else st), y ∈ clauseNodes st' := by
      cases hcalls : stepCalls st with
      | true => exact fun _ hy => nomatch hy
      | false =>
        rw [expandClause_of_not_stepCalls hcalls] at hst'
        cases hst'
        exact fun _ hy => hy
    obtain ⟨os, ss, sp'⟩ := b'
    -- The bodies of loops have no overrides.
    obtain rfl : os = [] := by
      obtain ⟨os', ss', sp''⟩ := b
      obtain ⟨rfl, _⟩ := hb
      obtain ⟨_, _, _, ⟨⟩⟩ := Block.expandOver_ok.1 hb'
      rfl
    -- What binds in the new loop is of the first clause, of the step that stays, or of the folded body.
    refine hp.stmt ((hinit.append (hq.append (hbody.append (hr.append hstep)))).of_binds fun y hy z hz => ?_)
    simp only [List.mem_append]
    rcases List.mem_cons.1 hy with rfl | hy
    · exact hz.elim
    simp only [List.mem_append] at hy
    rcases hy with ((hy | hy) | hy) | hy
    · obtain ⟨_, _, rfl⟩ := List.mem_map.1 hy
      exact hz.elim
    · exact .inl hy
    · exact .inr (.inr (.inr (.inr (hkeep y hy))))
    -- A folded body holds what was put in front of the condition, the old body, and the step that moved.
    · rcases binds_foldedBody hy hz with hy | hy | hy
      · exact .inr (.inl hy)
      · exact .inr (.inr (.inl hy))
      · exact .inr (.inr (.inr (mem_movedStep hy)))
  | .ret sp v, h, _, _, _, hs => by
    obtain ⟨_, hv, _⟩ := h
    obtain ⟨p, v', c₁, hv', ⟨⟩⟩ := Stmt.expand_ret_ok.1 hs
    refine (Expr.expand_makes hσ v hv hv').stmt (Makes.cons ?_ fun _ hy => hy)
    rw [exprNodes, ← List.append_nil (v'.nodes.map Node.expr)]
    exact Makes.nil.exprs v'.nodes
  | .leave sp, _, _, _, _, hs | .code sp t, _, _, _, _, hs | .bitfieldDef sp d, _, _, _, _, hs => by
    cases hs
    exact Makes.single (Makes.nil.cons fun _ hy => hy)
  | .enumDef sp d, _, _, _, _, hs => by
    cases hs
    -- Members of an enumeration are bound to it and to no variable.
    refine Makes.single (Makes.none (List.forall_mem_singleton.2 fun n b hbinds => ?_))
    obtain ⟨_, _, heq⟩ := hbinds
    exact nomatch heq
  | .funcDef sp f ns ps b, _, _, _, _, hs => by
    cases hs
    exact Makes.nil
  | .require _ _, h, _, _, _, _ => h.elim
  termination_by structural s => s

/-- What expanding statements makes up and declares. -/
private theorem expandStmts_makes {D : Dialect} {σ : Scope Entry} {lo hi : Nat} {last : Bool}
    (hσ : Sound D lo σ) : (ss : List Stmt) → ResolvedStmts D σ lo hi last ss → ∀ {c ss' c'},
      expandStmts ss c = .ok (ss', c') → Makes D c c' (stmtsNodes ss')
  | [], _, _, _, _, h => by
    cases h
    exact Makes.nil
  | s :: ss, ⟨mid, hs, hss⟩, _, _, _, h => by
    obtain ⟨s', c₁, hs', ss', c₂, hss', ⟨⟩⟩ := expandStmts_cons_ok.1 h
    rw [stmtsNodes_append]
    exact (Stmt.expand_makes hσ s hs hs').append (expandStmts_makes (hs.sound hσ) ss hss hss')
  termination_by structural ss => ss

/-- What expanding a block makes up and declares. -/
private theorem Block.expandOver_makes {D : Dialect} {σ : Scope Entry} {lo hi : Nat} {last : Bool}
    (hσ : Sound D lo σ) : (b : Block) → b.Resolved D σ lo hi last → ∀ {binds : List Assign},
      (∀ x ∈ binds.flatMap Assign.nodes, x.Known D []) → ∀ {c b' c'},
        b.expandOver binds c = .ok (b', c') → Makes D c c' b'.nodes
  | .mk os ss sp, ⟨ho, hss⟩, binds, hbinds, _, _, _, h => by
    subst ho
    obtain ⟨ss', c₁, hss', ⟨⟩⟩ := Block.expandOver_ok.1 h
    -- A typed body has no overrides of its own.
    rw [List.append_nil]
    have hover : ∀ {c}, Makes D c c (binds.flatMap Assign.nodes) := fun {c} =>
      Makes.none fun x hx n b hb => (hbinds x hx n b hb).imp_left fun hmem => nomatch hmem
    exact hover.append (expandStmts_makes hσ ss hss hss')
  termination_by structural b => b

end

/-! ## Programs -/

/-- The identifiers that a node brings into a program. -/
def Node.identifiers : Node → List Text
  | .expr (.var _ n _) | .expr (.call _ n _ _ _) => [n]
  | .stmt (.assign a) => [a.info.name]
  | .stmt (.funcDef _ n _ ps _) => n :: ps.map (·.name)
  | .stmt (.enumDef _ d) => d.name :: d.members.map (·.name)
  | .stmt (.bitfieldDef _ d) => [d.name]
  | _ => []

/-- The identifiers of a program. -/
def Block.identifiers (b : Block) : List Text := b.nodes.flatMap Node.identifiers

/-- Programs whose variables have names from a list. -/
def Dialect.named (names : List Text) : Dialect := ⟨(· ∈ names), True, True, False⟩

/-- A program keeps to the names of its identifiers. -/
private theorem Block.within_named {b : Block} {names : List Text} (h : b.identifiers ⊆ names) :
    ∀ x ∈ b.nodes, x.Within (.named names) := by
  -- The identifiers of a node are those of the program, so each case names the ones that matter.
  intro x hx
  have hids : ∀ n ∈ x.identifiers, n ∈ names := fun n hn => h (List.mem_flatMap.2 ⟨x, hx, hn⟩)
  cases x with
  | expr e =>
    cases e with
    | var i n b => exact hids n List.mem_cons_self
    | _ => trivial
  | stmt s =>
    cases s with
    | assign a => exact hids _ List.mem_cons_self
    | funcDef sp f ns ps b =>
      exact fun p hp => hids p.name (List.mem_cons_of_mem f (List.mem_map_of_mem hp))
    | forLoop sp i c st b =>
      cases st with
      | none => trivial
      | some a => exact fun _ => trivial
    | enumDef sp d =>
      exact ⟨trivial, fun m hm => hids m.name (List.mem_cons_of_mem d.name (List.mem_map_of_mem hm))⟩
    | _ => trivial

/-- If the names from a list are plain, so are those of such programs and of the host's own functions. -/
theorem Dialect.named_plain {names : List Text} (h : ∀ n ∈ names, n.isPlain = true) :
    (Dialect.named (names ++ Host.achronalNames)).Plain := by
  intro n hn
  have hachronal : ∀ n ∈ Host.achronalNames, n.isPlain = true := by decide
  exact (List.mem_append.1 hn).elim (h n) (hachronal n)

/-- What an accepted program is typed to keeps to the program's identifiers and to the names in the host's own
functions. -/
theorem Block.annotate_named {h : Host} (hh : ∀ g ∈ h.globals, g.ty.isProper = true)
    {program declared typed : Block} (hp : program.Sourced) (hd : program.declare h = (declared, none))
    (ht : declared.annotate h = (typed, none)) :
    ∃ hi, typed.Resolved (.named (declared.identifiers ++ Host.achronalNames)) h.entryScope.1.push
      h.entryScope.2 hi false := by
  obtain ⟨_, hmarked⟩ := Block.declare_marked h hp
  rw [hd] at hmarked
  have hwithin := Block.within_named (List.subset_append_left declared.identifiers Host.achronalNames)
  exact Block.annotate_resolved (D := .named _) id (fun n hn => List.mem_append_right _ hn) hh
    (Block.Marked.within declared hmarked hwithin) ht

/-- Names made up for an accepted program.  They differ from each other, those of temporaries are the
first ones in a row, and none of them is an identifier of the program or a name of the host that is not
numbered itself.  Every variable declared by the expanded program has a name made up for it, or it is
a variable of the script or of an achronal function under its own name. -/
theorem Block.expand_fresh {h : Host} (hh : ∀ g ∈ h.globals, g.ty.isProper = true)
    {program declared typed : Block} (hp : program.Sourced)
    (hd : program.declare h = (declared, none)) (ht : declared.annotate h = (typed, none)) :
    ∃ x, typed.expand = .ok x ∧ x.made.Nodup ∧ (∀ k, tempName k ∈ x.made ↔ k < x.temps)
      ∧ (∀ n ∈ declared.identifiers ++ Host.achronalNames ++ h.names, n.isNumbered = false → n ∉ x.made)
      ∧ ∀ y ∈ x.program.nodes, ∀ n b, y.Binds (n, .variable b) →
          n ∈ x.made ∨ b.isSome = true ∧ n ∈ declared.identifiers ++ Host.achronalNames := by
  obtain ⟨hi, hres⟩ := Block.annotate_named hh hp hd ht
  obtain ⟨hσ, _⟩ := Host.entryScope_sound (D := .named (declared.identifiers ++ Host.achronalNames))
    -- The host's own functions keep to the dialect, so its scope is sound.
    (fun n hn => List.mem_append_right _ hn) hh
  obtain ⟨x, hx, _⟩ := Block.expand_settled hres
  refine ⟨x, hx, ?_⟩
  obtain ⟨b', c, hover, rfl⟩ := Block.expand_eq_ok.1 hx
  have hmakes := Block.expandOver_makes hσ.push typed hres no_overrides hover
  -- Nothing is made up in front of the program, so all names differ at its end.
  have hfresh := hmakes.fresh ⟨List.nodup_nil, (fun _ hk => by cases hk), fun _ hn => by cases hn⟩
  refine ⟨hfresh.nodup, hfresh.mem_temp, fun n _ hn hmem => ?_, hmakes.known⟩
  rw [hfresh.isNumbered hmem] at hn
  cases hn

/-- `x = 1 def f(x) return x end y = f(x) z = f(y)`: two temporaries, and a parameter that is renamed
because its argument has its name. -/
def twiceCalled : Block :=
  .mk [] [.assign (.make "x" (.literal (.int 1) {}) false {}),
    .funcDef {} "f" {} [⟨"x", {}⟩] (.mk [] [.ret {} (.name "x" {})] {}),
    .assign (.make "y" (.apply "f" {} [.name "x" {}] {}) false {}),
    .assign (.make "z" (.apply "f" {} [.name "y" {}] {}) false {})] {}

/-- The names made up for two calls. -/
theorem twiceCalled_fresh :
    let declared := (twiceCalled.declare .default).1
    ∃ x, (declared.annotate .default).1.expand = .ok x ∧ x.made.Nodup
      ∧ (∀ k, tempName k ∈ x.made ↔ k < x.temps)
      ∧ (∀ n ∈ declared.identifiers ++ Host.achronalNames ++ Host.default.names,
          n.isNumbered = false → n ∉ x.made)
      ∧ ∀ y ∈ x.program.nodes, ∀ n b, y.Binds (n, .variable b) →
          n ∈ x.made ∨ b.isSome = true ∧ n ∈ declared.identifiers ++ Host.achronalNames := by
  refine @Block.expand_fresh .default (by decide) twiceCalled _ _ ?_ (Block.declare_eq_of_none ?_)
    (Block.annotate_eq_of_none ?_)
  · simp [twiceCalled, Block.Sourced, Block.Marked, MarkedStmts, Stmt.Marked, Assign.Marked, Assign.make,
      Expr.Bare, Expr.literal, Expr.name, Expr.apply, Expr.nodes, nodesOfList, Expr.IsBare, Dialect.full,
      Literal.ty]
  · decide +kernel
  · decide +kernel

/-- `def f() return 1 end __retval0 = 5 y = f() z = __retval0`: a variable with the name of the first
temporary. -/
def namedLikeTemp : Block :=
  .mk [] [.funcDef {} "f" {} [] (.mk [] [.ret {} (.literal (.int 1) {})] {}),
    .assign (.make "__retval0" (.literal (.int 5) {}) false {}),
    .assign (.make "y" (.apply "f" {} [] {}) false {}),
    .assign (.make "z" (.name "__retval0" {}) false {})] {}

/-- The names in a program that do not find the declaration of their own binding. -/
def Block.strays (b : Block) : List Text :=
  (b.sites []).filterMap fun s => s.node.refers?.bind fun u =>
    if u.2.origin = .host ∨ s.env.lookup u.1 = some (.variable (some u.2)) then none else some u.1

/-- A script may use a name that is made up for it: typing accepts the program, the name of its temporary
is one of its identifiers, and the variable of that name is lost behind the temporary. -/
theorem namedLikeTemp_clashes :
    (match (namedLikeTemp.declare .default).1.annotate .default with
      | (typed, none) => match typed.expand with
        | .ok x => some (x.made, namedLikeTemp.identifiers.filter x.made.contains, x.program.strays)
        | .error _ => none
      | (_, some _) => none)
    = some ((["__retval0"] : List Text), (["__retval0", "__retval0"] : List Text),
      (["__retval0"] : List Text)) := by
  decide +kernel

end AisScript
