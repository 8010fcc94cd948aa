import AisScript.Substitute
import AisScript.Proofs.Settled
import AisScript.Proofs.Sites

/-!
# Substitution in settled trees

Both substitutions succeed on a settled tree and keep it settled.  What they put in place of a name is
settled itself and no bitfield, so that a member of a bitfield keeps its range.  Behind the second
substitution no string is assigned any more.

* `Constants.Good`                   constants that may be substituted
* `AssignRule.Settles`, `Stays`      rules that never fail, and the assignments they keep
* `Block.substituteEnums_settled`    the program without references to enumeration members
* `Block.substituteStrings_settled`  the program without string variables
-/

namespace AisScript

/-! ## Constants -/

/-- What a substitution puts in place of a name: an expression with nothing left to expand, and never
a bitfield. -/
def Expr.IsConstant (v : Expr) : Prop :=
  v.Settled ∧ ∃ t, v.ty? = some t ∧ t.isProper = true ∧ ∀ layout, t ≠ .bitfield layout

namespace Constants

/-- Every constant of every open frame is one that may be substituted. -/
def Good (cs : Constants) : Prop :=
  ∀ f ∈ cs.inner :: cs.outer, ∀ x ∈ f, ∀ v, x.2 = some v → v.IsConstant

/-- What a frame finds is in it. -/
private theorem mem_of_lookup {α : Type} {f : Frame α} {n : Text} {v : α} (h : f.lookup n = some v) :
    (n, v) ∈ f := by
  induction f with
  | nil => exact nomatch h
  | cons x f ih =>
    obtain ⟨m, w⟩ := x
    rw [List.lookup_cons] at h
    split at h
    case h_1 heq =>
      cases h
      rw [beq_iff_eq.1 heq]
      exact List.mem_cons_self
    case h_2 => exact List.mem_cons_of_mem _ (ih h)

/-- What frames find is in one of them. -/
private theorem mem_of_lookupIn {α : Type} {fs : List (Frame α)} {n : Text} {v : α}
    (h : Scope.lookupIn fs n = some v) : ∃ f ∈ fs, (n, v) ∈ f := by
  induction fs with
  | nil => exact nomatch h
  | cons f fs ih =>
    simp only [Scope.lookupIn] at h
    split at h
    case h_1 w hf =>
      cases h
      exact ⟨f, List.mem_cons_self, mem_of_lookup hf⟩
    case h_2 =>
      obtain ⟨g, hg, hv⟩ := ih h
      exact ⟨g, List.mem_cons_of_mem f hg, hv⟩

variable {cs : Constants}

/-- A constant that is found may be substituted. -/
theorem Good.lookup (h : cs.Good) {n : Text} {v : Expr} (hn : cs.lookup n = some (some v)) :
    v.IsConstant := by
  obtain ⟨f, hf, hv⟩ := mem_of_lookupIn hn
  exact h f hf _ hv v rfl

/-- No constants at all. -/
private theorem good_empty : Good {} := by
  intro f hf x hx
  rw [List.mem_singleton.1 hf] at hx
  exact nomatch hx

/-- An opened block has no constants of its own yet. -/
theorem Good.push (h : cs.Good) : Good cs.push := by
  intro f hf x hx
  rcases List.mem_cons.1 hf with rfl | hf
  · exact nomatch hx
  · exact h f hf x hx

/-- A new constant may be substituted, or only hides another one. -/
theorem Good.define (h : cs.Good) {n : Text} {w : Option Expr} (hw : ∀ v, w = some v → v.IsConstant) :
    Good (Scope.define cs n w) := by
  intro f hf x hx
  rcases List.mem_cons.1 hf with rfl | hf
  · rcases List.mem_cons.1 hx with rfl | hx
    · exact hw
    · exact h _ List.mem_cons_self x hx
  · exact h f (List.mem_cons_of_mem _ hf) x hx

/-- A closed block leaves the constants around it. -/
theorem Good.closed (h : cs.Good) : Good (Constants.closed cs) := by
  unfold Constants.closed Scope.pop?
  obtain ⟨inner, outer⟩ := cs
  cases outer with
  | nil => exact h
  | cons f fs => exact fun g hg => h g (List.mem_cons_of_mem inner hg)

/-- Changing a constant where it was made. -/
private theorem rebindIn_good {fs gs : List (Frame (Option Expr))} {n : Text} {w : Expr}
    (h : ∀ f ∈ fs, ∀ x ∈ f, ∀ v, x.2 = some v → v.IsConstant) (hw : w.IsConstant)
    (hr : Scope.rebindIn fs n (some w) = some gs) :
    ∀ f ∈ gs, ∀ x ∈ f, ∀ v, x.2 = some v → v.IsConstant := by
  -- By induction on the frames: the innermost one that has the name is changed.
  induction fs generalizing gs with
  | nil => exact nomatch hr
  | cons f fs ih =>
    simp only [Scope.rebindIn] at hr
    -- The frame has the name, and the others stay.
    split at hr
    · cases hr
      intro g hg x hx v hv
      rcases List.mem_cons.1 hg with rfl | hg
      · rcases List.mem_cons.1 hx with rfl | hx
        · cases hv
          exact hw
        · exact h f List.mem_cons_self x hx v hv
      · exact h g (List.mem_cons_of_mem f hg) x hx v hv
    -- The name is looked for further out.
    · obtain ⟨gs', hgs, rfl⟩ := Option.map_eq_some_iff.1 hr
      intro g hg
      rcases List.mem_cons.1 hg with rfl | hg
      · exact h g List.mem_cons_self
      · exact ih (fun f' hf' => h f' (List.mem_cons_of_mem f hf')) hgs g hg

/-- A changed constant may be substituted. -/
private theorem Good.rebind (h : cs.Good) {n : Text} {w : Expr} (hw : w.IsConstant) :
    Good ((Scope.rebind? cs n (some w)).getD (Scope.define cs n (some w))) := by
  have hdef : Good (Scope.define cs n (some w)) := h.define fun v hv => by cases hv; exact hw
  unfold Scope.rebind?
  split
  case h_1 f fs hr => exact rebindIn_good h hw hr
  case h_2 => exact hdef

/-- The members of an enumeration may be substituted. -/
theorem Good.bindMembers (h : cs.Good) (d : Enumeration) : Good (Constants.bindMembers cs d) := by
  have hconst : ∀ (m : EnumMember) v, some (Expr.literal (.int m.value) d.site) = some v →
      v.IsConstant := by
    intro m v hv
    cases hv
    exact ⟨List.forall_mem_cons.2 ⟨⟨rfl, trivial⟩, fun _ hx => by cases hx⟩, .int, rfl, rfl, by simp⟩
  unfold Constants.bindMembers
  generalize d.members = ms
  induction ms generalizing cs with
  | nil => exact h
  | cons m ms ih => exact ih (h.define (hconst m))

end Constants

/-! ## Expressions -/

/-- What the passes behind the expansion need of an expression does not depend on its place. -/
private theorem Expr.IsSettled.withSpan {v : Expr} (h : v.IsSettled) (s : Span) :
    (v.withSpan s).IsSettled := by
  cases v with
  | call i n ns args t => cases t <;> exact h
  | member i a b n ns => cases a <;> exact h
  | _ => exact h

/-- A settled expression at another place. -/
private theorem Expr.Settled.withSpan {v : Expr} (h : v.Settled) (s : Span) : (v.withSpan s).Settled := by
  have hhead : (v.withSpan s).IsSettled := Expr.IsSettled.withSpan (h v (by cases v <;> exact
    List.mem_cons_self)) s
  cases v <;> exact List.forall_mem_cons.2 ⟨hhead, (List.forall_mem_cons.1 h).2⟩

/-- Another place changes no type. -/
private theorem Expr.ty?_withSpan (v : Expr) (s : Span) : (v.withSpan s).ty? = v.ty? := by
  cases v <;> rfl

/-- A substituted expression keeps its type or has that of a constant. -/
private theorem Expr.ty?_substitute {cs : Constants} (hcs : cs.Good) (e : Expr) :
    (e.substitute cs).ty? = e.ty? ∨ ∃ t, (e.substitute cs).ty? = some t ∧ t.isProper = true
      ∧ ∀ layout, t ≠ .bitfield layout := by
  cases e with
  | var i n b =>
    simp only [Expr.substitute]
    split
    case h_1 v hv =>
      obtain ⟨_, t, ht, hp⟩ := hcs.lookup hv
      exact .inr ⟨t, (v.ty?_withSpan i.span).trans ht, hp⟩
    case h_2 => exact .inl rfl
  | _ => exact .inl rfl

/-- A value of a proper type still is one behind a substitution. -/
private theorem substitute_proper {cs : Constants} (hcs : cs.Good) {e : Expr} {t : Ty}
    (ht : e.ty? = some t) (hp : t.isProper = true) :
    ∃ t, (e.substitute cs).ty? = some t ∧ t.isProper = true := by
  rcases e.ty?_substitute hcs with h | ⟨t', h, hp', _⟩
  · exact ⟨t, h.trans ht, hp⟩
  · exact ⟨t', h, hp'⟩

/-- Substitution keeps the number of arguments. -/
private theorem length_substituteList (cs : Constants) (es : List Expr) :
    (substituteList cs es).length = es.length := by
  induction es with
  | nil => rfl
  | cons e es ih => rw [substituteList, List.length_cons, List.length_cons, ih]

mutual

/-- Substitution keeps an expression settled. -/
theorem Expr.Settled.substitute {cs : Constants} (hcs : cs.Good) : (e : Expr) → e.Settled →
    (e.substitute cs).Settled
  | .const _ _, h => h
  | .var i n b, h => by
    -- A variable that is a constant is replaced by it, and constants are settled.
    simp only [Expr.substitute]
    split
    case h_1 v hv => exact (hcs.lookup hv).1.withSpan i.span
    case h_2 => exact h
  | .binary _ _ l r, h => by
    simp only [Expr.Settled, Expr.substitute, Expr.nodes, List.forall_mem_cons,
      List.forall_mem_append] at h ⊢
    exact ⟨h.1, Expr.Settled.substitute hcs l h.2.1, Expr.Settled.substitute hcs r h.2.2⟩
  | .unary _ _ x, h => by
    simp only [Expr.Settled, Expr.substitute, Expr.nodes, List.forall_mem_cons] at h ⊢
    exact ⟨h.1, Expr.Settled.substitute hcs x h.2⟩
  | .call _ _ _ args t, h => by
    simp only [Expr.Settled, Expr.substitute, Expr.nodes, List.forall_mem_cons] at h ⊢
    -- A call keeps its target and the number of its arguments.
    refine ⟨⟨h.1.1, ?_⟩, settledList_substitute hcs args h.2⟩
    have hlen := h.1.2
    cases t <;> simp only [length_substituteList] at hlen ⊢ <;> exact hlen
  | .member _ a b _ _, h => by
    simp only [Expr.Settled, Expr.substitute, Expr.nodes, List.forall_mem_cons] at h ⊢
    refine ⟨⟨h.1.1, ?_⟩, Expr.Settled.substitute hcs b h.2⟩
    -- A constant of a bitfield's type would be its own base, and there is none.
    have hm := h.1.2
    cases a with
    | dotted =>
      intro layout hlayout
      -- The base keeps its type, or becomes a constant, which is no bitfield.
      rcases b.ty?_substitute hcs with hb | ⟨t, ht, _, hno⟩
      · exact hm layout (hb.symm.trans hlayout)
      · rw [ht] at hlayout
        exact absurd (Option.some.inj hlayout) (hno layout)
    | _ => trivial
  | .query _ _ _ u x c, h => by
    simp only [Expr.Settled, Expr.substitute, Expr.nodes, List.forall_mem_cons,
      List.forall_mem_append] at h ⊢
    exact ⟨h.1, ⟨settledOption_substitute hcs u h.2.1.1, settledOption_substitute hcs x h.2.1.2⟩,
      settledOption_substitute hcs c h.2.2⟩

/-- Substitution keeps expressions settled. -/
private theorem settledList_substitute {cs : Constants} (hcs : cs.Good) : (es : List Expr) →
    (∀ x ∈ nodesOfList es, x.IsSettled) → ∀ x ∈ nodesOfList (substituteList cs es), x.IsSettled
  | [], h => h
  | e :: es, h => by
    simp only [nodesOfList, substituteList, List.forall_mem_append] at h ⊢
    exact ⟨Expr.Settled.substitute hcs e h.1, settledList_substitute hcs es h.2⟩

/-- Substitution keeps an expression that may be absent settled. -/
private theorem settledOption_substitute {cs : Constants} (hcs : cs.Good) : (e : Option Expr) →
    (∀ x ∈ nodesOfOption e, x.IsSettled) → ∀ x ∈ nodesOfOption (substituteOption cs e), x.IsSettled
  | none, h => h
  | some e, h => Expr.Settled.substitute hcs e h

end

/-! ## Statements -/

/-- A rule for assignments that never fails on settled ones; those that stay satisfy `stays`. -/
def AssignRule.Settles (rule : AssignRule) (stays : Assign → Prop) : Prop :=
  ∀ cs a, Constants.Good cs → SettledNodes a.nodes →
    ∃ keep cs', rule cs a = .ok (keep, cs') ∧ Constants.Good cs' ∧ (keep = true → stays a)

/-- Settled nodes whose assignments satisfy `stays`. -/
def Stays (stays : Assign → Prop) (nodes : List Node) : Prop :=
  SettledNodes nodes ∧ ∀ a, Node.stmt (.assign a) ∈ nodes → stays a

namespace Stays

variable {stays : Assign → Prop} {xs ys : List Node}

/-- Nodes one behind the other. -/
theorem append (hx : Stays stays xs) (hy : Stays stays ys) : Stays stays (xs ++ ys) :=
  ⟨settled_append.2 ⟨hx.1, hy.1⟩, fun a ha => (List.mem_append.1 ha).elim (hx.2 a) (hy.2 a)⟩

/-- The first of two parts. -/
theorem left (h : Stays stays (xs ++ ys)) : Stays stays xs :=
  ⟨(settled_append.1 h.1).1, fun a ha => h.2 a (List.mem_append_left ys ha)⟩

/-- The second of two parts. -/
theorem right (h : Stays stays (xs ++ ys)) : Stays stays ys :=
  ⟨(settled_append.1 h.1).2, fun a ha => h.2 a (List.mem_append_right xs ha)⟩

/-- What is below a node. -/
theorem tail {x : Node} (h : Stays stays (x :: xs)) : Stays stays xs :=
  ⟨(settled_cons.1 h.1).2, fun a ha => h.2 a (List.mem_cons_of_mem x ha)⟩

/-- No nodes at all. -/
theorem nil : Stays stays [] := ⟨settled_nil, fun _ ha => nomatch ha⟩

/-- The nodes of a settled expression. -/
theorem expr {e : Expr} (h : e.Settled) : Stays stays (exprNodes e) := by
  refine ⟨settled_exprNodes.2 h, fun a ha => ?_⟩
  obtain ⟨_, _, heq⟩ := List.mem_map.1 ha
  exact nomatch heq

/-- The nodes of a settled test of a loop header. -/
theorem test {e : Option Expr} (h : ∀ x ∈ nodesOfOption e, x.IsSettled) :
    Stays stays ((nodesOfOption e).map Node.expr) := by
  cases e with
  | none => exact nil
  | some e => exact expr h

/-- A statement that is no assignment, and what is below it. -/
theorem stmt {s : Stmt} (hs : (Node.stmt s).IsSettled) (hne : ∀ a, s ≠ .assign a) (hx : Stays stays xs) :
    Stays stays (.stmt s :: xs) := by
  refine ⟨settled_cons.2 ⟨hs, hx.1⟩, fun a ha => ?_⟩
  rcases List.mem_cons.1 ha with heq | ha
  · exact absurd (Node.stmt.inj heq).symm (hne a)
  · exact hx.2 a ha

/-- An assignment that stays. -/
theorem assign {a : Assign} (h : SettledNodes a.nodes) (ha : stays a) : Stays stays a.nodes := by
  refine ⟨h, fun a' ha' => ?_⟩
  rcases List.mem_cons.1 ha' with heq | ha'
  · cases heq
    exact ha
  · obtain ⟨_, _, heq⟩ := List.mem_map.1 ha'
    exact nomatch heq

end Stays

/-- Substitution in an assignment. -/
private theorem Assign.substitute_settled {rule : AssignRule} {stays : Assign → Prop}
    (hrule : rule.Settles stays) {cs : Constants} (hcs : cs.Good) {a : Assign}
    (ha : SettledNodes a.nodes) : ∃ a' cs', a.substitute rule cs = .ok (a', cs')
      ∧ Constants.Good cs' ∧ Stays stays (clauseNodes a') := by
  -- The value is substituted first, and it has a proper type still.
  obtain ⟨i, v⟩ := a
  obtain ⟨⟨t, ht, hp⟩, hv⟩ := settled_cons.1 ha
  have hv' := Expr.Settled.substitute hcs v (settled_exprNodes.1 hv)
  obtain ⟨t', ht', hp'⟩ := substitute_proper hcs ht hp
  have ha' : SettledNodes (Assign.mk i (v.substitute cs)).nodes :=
    settled_cons.2 ⟨⟨t', ht', hp'⟩, settled_exprNodes.2 hv'⟩
  -- The rule for assignments keeps the assignment or leaves it out.
  obtain ⟨keep, cs', hr, hcs', hstay⟩ := hrule cs (.mk i (v.substitute cs)) hcs ha'
  refine ⟨if keep then some (.mk i (v.substitute cs)) else none, cs', ?_, hcs', ?_⟩
  · simp only [Assign.substitute, hr]
    rfl
  · cases keep with
    | true => exact Stays.assign ha' (hstay rfl)
    | false => exact Stays.nil

/-- Substitution in assignments. -/
private theorem substituteAssigns_settled {rule : AssignRule} {stays : Assign → Prop}
    (hrule : rule.Settles stays) {cs : Constants} (hcs : cs.Good) {as : List Assign}
    (has : SettledNodes (as.flatMap Assign.nodes)) : ∃ as' cs', substituteAssigns rule cs as = .ok (as', cs')
      ∧ Constants.Good cs' ∧ Stays stays (as'.flatMap Assign.nodes) := by
  -- By induction on the list, with the constants behind each assignment.
  induction as generalizing cs with
  | nil => exact ⟨[], cs, rfl, hcs, Stays.nil⟩
  | cons a as ih =>
    rw [List.flatMap_cons, settled_append] at has
    -- The first assignment, and the others behind it.
    obtain ⟨a', cs₁, ha, hcs₁, hstay⟩ := Assign.substitute_settled hrule hcs has.1
    obtain ⟨as', cs₂, has', hcs₂, hstays⟩ := ih hcs₁ has.2
    refine ⟨a'.toList ++ as', cs₂, ?_, hcs₂, ?_⟩
    · simp only [substituteAssigns, ha, has', bind, Except.bind, pure, Except.pure]
    · rw [List.flatMap_append]
      refine Stays.append ?_ hstays
      cases a' with
      | none => exact Stays.nil
      | some a' =>
        rw [Option.toList_some, List.flatMap_singleton]
        exact hstay

/-- Substitution in a clause. -/
private theorem substituteClause_settled {rule : AssignRule} {stays : Assign → Prop}
    (hrule : rule.Settles stays) {cs : Constants} (hcs : cs.Good) {a : Option Assign}
    (ha : SettledNodes (clauseNodes a)) : ∃ a' cs', substituteClause rule cs a = .ok (a', cs')
      ∧ Constants.Good cs' ∧ Stays stays (clauseNodes a') := by
  cases a with
  | none => exact ⟨none, cs, rfl, hcs, Stays.nil⟩
  | some a => exact Assign.substitute_settled hrule hcs ha

mutual

/-- Substitution in a settled statement gives settled statements. -/
private theorem Stmt.substitute_settled {rule : AssignRule} {stays : Assign → Prop}
    (hrule : rule.Settles stays) :
    (s : Stmt) → ∀ {cs : Constants}, cs.Good → SettledNodes s.nodes → ∃ ss cs',
      s.substitute rule cs = .ok (ss, cs') ∧ Constants.Good cs' ∧ Stays stays (stmtsNodes ss)
  | .block b, cs, hcs, h => by
    -- A block is substituted with the constants in front of it.
    obtain ⟨b', cs', hb, hcs', hstays⟩ := Block.substituteIn_settled hrule b hcs (settled_cons.1 h).2
    refine ⟨[.block b'], cs', ?_, hcs', ?_⟩
    · simp only [Stmt.substitute, hb, bind, Except.bind, pure, Except.pure]
    · rw [stmtsNodes_singleton]
      exact Stays.stmt trivial nofun hstays
  | .assign a, cs, hcs, h => by
    obtain ⟨a', cs', ha, hcs', hstays⟩ := Assign.substitute_settled hrule hcs h
    refine ⟨a'.toList.map .assign, cs', ?_, hcs', ?_⟩
    · simp only [Stmt.substitute, ha, bind, Except.bind, pure, Except.pure]
    · cases a' with
      | none => exact Stays.nil
      | some a' =>
        rw [Option.toList_some, List.map_singleton, stmtsNodes_singleton]
        exact hstays
  | .eval s e, cs, hcs, h => by
    -- Expressions are substituted where they stand.
    refine ⟨_, cs, rfl, hcs, ?_⟩
    rw [stmtsNodes_singleton]
    exact Stays.stmt trivial nofun
      (Stays.expr (Expr.Settled.substitute hcs e (settled_exprNodes.1 (settled_cons.1 h).2)))
  | .assignMember s t v, cs, hcs, h => by
    obtain ⟨ht, hv⟩ := settled_append.1 (settled_cons.1 h).2
    refine ⟨_, cs, rfl, hcs, ?_⟩
    rw [stmtsNodes_singleton]
    exact Stays.stmt trivial nofun
      ((Stays.expr (Expr.Settled.substitute hcs t (settled_exprNodes.1 ht))).append
        (Stays.expr (Expr.Settled.substitute hcs v (settled_exprNodes.1 hv))))
  | .cond s c t none, cs, hcs, h => by
    obtain ⟨hc, ht⟩ := settled_append.1 (settled_cons.1 h).2
    obtain ⟨t', cs', ht', hcs', hstays⟩ := Block.substituteIn_settled hrule t hcs ht
    refine ⟨[.cond s (c.substitute cs) t' none], cs', ?_, hcs', ?_⟩
    · simp only [Stmt.substitute, ht', substituteElse, bind, Except.bind, pure, Except.pure]
    · rw [stmtsNodes_singleton]
      exact Stays.stmt trivial nofun
        ((Stays.expr (Expr.Settled.substitute hcs c (settled_exprNodes.1 hc))).append hstays)
  -- The second branch starts with the constants that the first one leaves.
  | .cond s c t (some f), cs, hcs, h => by
    obtain ⟨hct, hf⟩ := settled_append.1 (settled_cons.1 h).2
    obtain ⟨hc, ht⟩ := settled_append.1 hct
    obtain ⟨t', cs₁, ht', hcs₁, hstays⟩ := Block.substituteIn_settled hrule t hcs ht
    obtain ⟨f', cs₂, hf', hcs₂, hstays'⟩ := Block.substituteIn_settled hrule f hcs₁ hf
    refine ⟨[.cond s (c.substitute cs) t' (some f')], cs₂, ?_, hcs₂, ?_⟩
    · simp only [Stmt.substitute, ht', substituteElse, hf', bind, Except.bind, pure, Except.pure]
    · rw [stmtsNodes_singleton]
      exact Stays.stmt trivial nofun
        (((Stays.expr (Expr.Settled.substitute hcs c (settled_exprNodes.1 hc))).append hstays).append
          hstays')
  | .loop s c b, cs, hcs, h => by
    obtain ⟨hc, hb⟩ := settled_append.1 (settled_cons.1 h).2
    obtain ⟨b', cs', hb', hcs', hstays⟩ := Block.substituteIn_settled hrule b hcs hb
    refine ⟨[.loop s (c.substitute cs) b'], cs', ?_, hcs', ?_⟩
    · simp only [Stmt.substitute, hb', bind, Except.bind, pure, Except.pure]
    · rw [stmtsNodes_singleton]
      exact Stays.stmt trivial nofun
        ((Stays.expr (Expr.Settled.substitute hcs c (settled_exprNodes.1 hc))).append hstays)
  | .forLoop s i c st b, cs, hcs, h => by
    obtain ⟨hics, hb⟩ := settled_append.1 (settled_cons.1 h).2
    obtain ⟨hci, hst⟩ := settled_append.1 hics
    obtain ⟨hc, hi⟩ := settled_append.1 hci
    -- The header opens a frame, which is closed behind the body.
    obtain ⟨i', cs₁, hi', hcs₁, hstays⟩ := substituteClause_settled hrule hcs.push hi
    obtain ⟨st', cs₂, hst', hcs₂, hstays'⟩ := substituteClause_settled hrule hcs₁ hst
    obtain ⟨b', cs₃, hb', hcs₃, hstays''⟩ := Block.substituteIn_settled hrule b hcs₂ hb
    refine ⟨[.forLoop s i' (substituteOption cs₁ c) st' b'], cs₃.closed, ?_, hcs₃.closed, ?_⟩
    · simp only [Stmt.substitute, hi', hst', hb', bind, Except.bind, pure, Except.pure]
    · rw [stmtsNodes_singleton]
      have hc' := settledOption_substitute hcs₁ c fun x hx => hc _ (List.mem_map_of_mem hx)
      exact Stays.stmt trivial nofun ((((Stays.test hc').append hstays).append hstays').append hstays'')
  -- Nothing is read in these statements.
  | .leave s, cs, hcs, _ | .code s t, cs, hcs, _ | .bitfieldDef s d, cs, hcs, _ =>
    ⟨_, cs, rfl, hcs, Stays.stmt trivial nofun Stays.nil⟩
  | .enumDef s d, cs, hcs, _ =>
    ⟨_, cs.bindMembers d, rfl, hcs.bindMembers d, Stays.stmt trivial nofun Stays.nil⟩
  -- Nothing of this kind is settled.
  | .ret _ _, _, _, h | .funcDef _ _ _ _ _, _, _, h | .require _ _, _, _, h => (settled_cons.1 h).1.elim

/-- Substitution in settled statements. -/
private theorem substituteStmts_settled {rule : AssignRule} {stays : Assign → Prop}
    (hrule : rule.Settles stays) :
    (ss : List Stmt) → ∀ {cs : Constants}, cs.Good → SettledNodes (stmtsNodes ss) → ∃ ss' cs',
      substituteStmts rule cs ss = .ok (ss', cs') ∧ Constants.Good cs' ∧ Stays stays (stmtsNodes ss')
  | [], cs, hcs, _ => ⟨[], cs, rfl, hcs, Stays.nil⟩
  | s :: ss, cs, hcs, h => by
    obtain ⟨hs, hss⟩ := settled_append.1 h
    obtain ⟨s', cs₁, hs', hcs₁, hstays⟩ := Stmt.substitute_settled hrule s hcs hs
    obtain ⟨ss', cs₂, hss', hcs₂, hstays'⟩ := substituteStmts_settled hrule ss hcs₁ hss
    refine ⟨s' ++ ss', cs₂, ?_, hcs₂, ?_⟩
    · simp only [substituteStmts, hs', hss', bind, Except.bind, pure, Except.pure]
    · rw [stmtsNodes_append]
      exact hstays.append hstays'

/-- Substitution in a settled block. -/
private theorem Block.substituteIn_settled {rule : AssignRule} {stays : Assign → Prop}
    (hrule : rule.Settles stays) :
    (b : Block) → ∀ {cs : Constants}, cs.Good → SettledNodes b.nodes → ∃ b' cs',
      b.substituteIn rule cs = .ok (b', cs') ∧ Constants.Good cs' ∧ Stays stays b'.nodes
  | .mk os ss sp, cs, hcs, h => by
    obtain ⟨ho, hss⟩ := settled_append.1 h
    obtain ⟨os', cs₁, ho', hcs₁, hstays⟩ := substituteAssigns_settled hrule hcs.push ho
    obtain ⟨ss', cs₂, hss', hcs₂, hstays'⟩ := substituteStmts_settled hrule ss hcs₁ hss
    refine ⟨.mk os' ss' sp, cs₂.closed, ?_, hcs₂.closed, hstays.append hstays'⟩
    simp only [Block.substituteIn, ho', hss', bind, Except.bind, pure, Except.pure]

end

/-! ## The two substitutions -/

/-- The rule for enumerations keeps every assignment. -/
private theorem keepAssign_settles : keepAssign.Settles fun _ => True := by
  intro cs a hcs _
  refine ⟨true, _, rfl, ?_, fun _ => trivial⟩
  split
  · exact hcs.define fun _ hv => nomatch hv
  · exact hcs

/-- An assignment of something else than a string. -/
def Assign.NoString (a : Assign) : Prop := a.value.ty? ≠ some .string

/-- The rule for strings keeps the assignments of everything else. -/
private theorem absorbString_settles : absorbString.Settles Assign.NoString := by
  intro cs a hcs ha
  -- A settled value has a known type.
  obtain ⟨⟨t, ht, _⟩, hv⟩ := settled_cons.1 ha
  have hknown : a.value.knownTy = .ok t := by rw [Expr.knownTy, ht]
  simp only [absorbString, hknown, bind, Except.bind]
  split
  -- A string is taken up as a constant and left out.
  case isTrue hstring =>
    refine ⟨false, _, rfl, ?_, fun h => by cases h⟩
    have hconst : a.value.IsConstant :=
      ⟨settled_exprNodes.1 hv, t, ht, by rw [hstring]; rfl, fun layout => by rw [hstring]; simp⟩
    -- A declaration makes a new constant, and an assignment changes one.
    split
    · exact hcs.define fun v hv => by cases hv; exact hconst
    · exact hcs.rebind hconst
  -- Every other assignment stays, and a name that it declares hides a constant.
  case isFalse hstring =>
    refine ⟨true, _, rfl, ?_, fun _ hs => hstring (Option.some.inj (ht.symm.trans hs))⟩
    split
    · exact hcs.define fun _ hv => by cases hv
    · exact hcs

/-- Enumeration members can be replaced in every settled program. -/
theorem Block.substituteEnums_settled {b : Block} (h : SettledNodes b.nodes) :
    ∃ b', b.substituteEnums = .ok b' ∧ SettledNodes b'.nodes := by
  obtain ⟨b', cs, hb, _, hstays⟩ := Block.substituteIn_settled keepAssign_settles b Constants.good_empty h
  refine ⟨b', ?_, hstays.1⟩
  simp only [Block.substituteEnums, hb, bind, Except.bind, pure, Except.pure]

/-- Strings can be replaced in every settled program; no assignment of a string is left. -/
theorem Block.substituteStrings_settled {b : Block} (h : SettledNodes b.nodes) :
    ∃ b', b.substituteStrings = .ok b' ∧ Stays Assign.NoString b'.nodes := by
  obtain ⟨b', cs, hb, _, hstays⟩ :=
    Block.substituteIn_settled absorbString_settles b Constants.good_empty h
  refine ⟨b', ?_, hstays⟩
  simp only [Block.substituteStrings, hb, bind, Except.bind, pure, Except.pure]

end AisScript
