import AisScript.Proofs.TempUse
import AisScript.Proofs.Known

/-!
# What is put in front

A step of the expansion gives statements that are put in front of something.  These are not closed yet: the
temporaries that they declare may still be read by what they are put in front of.  So a step is described by
its statements and by the temporaries that are left to read.  A temporary declared in the statements themselves
may be among these; one that is declared in a block of them may not.

* `Inlines`              calls that a step replaces, and temporaries that it counts
* `Prepends`             statements in front of something
* `Encloses`             blocks
* `Prepends.replaced`    a call
* `Prepends.folded`      the body of a loop
-/

namespace AisScript

/-! ## Steps -/

/-- A step of the expansion replaces calls: it takes note of the function of each, and makes up a temporary
for each that returns. -/
structure Inlines (c c' : Expansion) (calls : List (Text × Bool)) : Prop where
  told : c'.expanded = (calls.map Prod.fst).reverse ++ c.expanded
  temps : c'.temps = c.temps + calls.countP Prod.snd

namespace Inlines

variable {c c₁ c₂ : Expansion} {calls calls' : List (Text × Bool)}

/-- Nothing is replaced. -/
theorem refl (c : Expansion) : Inlines c c [] := ⟨rfl, rfl⟩

/-- Two steps in a row. -/
theorem trans (h : Inlines c c₁ calls) (h' : Inlines c₁ c₂ calls') : Inlines c c₂ (calls ++ calls') where
  told := by rw [h'.told, h.told, List.map_append, List.reverse_append, List.append_assoc]
  temps := by rw [h'.temps, h.temps, List.countP_append, Nat.add_assoc]

/-- A call is replaced, with those in its body. -/
theorem call {name : Text} {returns : Bool} (h : Inlines { c with expanded := name :: c.expanded } c₁ calls)
    (htold : c₂.expanded = c₁.expanded) (htemps : c₂.temps = c₁.temps + if returns then 1 else 0) :
    Inlines c c₂ ((name, returns) :: calls) where
  told := by
    rw [htold, h.told, List.map_cons, List.reverse_cons, List.append_assoc]
    rfl
  temps := by
    rw [htemps, h.temps, List.countP_cons, Nat.add_assoc]

/-- Temporaries are counted up. -/
theorem le (h : Inlines c c₁ calls) : c.temps ≤ c₁.temps := by
  rw [h.temps]
  exact Nat.le_add_right _ _

end Inlines

/-- The name is one of the temporaries that are made up between two states. -/
def Between (c c' : Expansion) (n : Text) : Prop := ∃ k, c.temps ≤ k ∧ k < c'.temps ∧ n = tempName k

namespace Between

variable {c c₁ c₂ : Expansion} {n : Text}

/-- No name is made up where none is counted. -/
private theorem irrefl (h : Between c c₁ n) (hle : c₁.temps ≤ c.temps) : False := by
  obtain ⟨k, hlo, hhi, _⟩ := h
  omega

/-- A name is made up once. -/
theorem disjoint (h : Between c c₁ n) (h' : Between c₁ c₂ n) : False := by
  obtain ⟨k, _, hlt, rfl⟩ := h
  obtain ⟨k', hle, _, heq⟩ := h'
  have := tempName_number heq
  omega

/-- More is made up behind. -/
theorem left (h : Between c c₁ n) (hle : c₁.temps ≤ c₂.temps) : Between c c₂ n := by
  obtain ⟨k, hlo, hhi, rfl⟩ := h
  exact ⟨k, hlo, by omega, rfl⟩

/-- More is made up in front. -/
theorem right (h : Between c₁ c₂ n) (hle : c.temps ≤ c₁.temps) : Between c c₂ n := by
  obtain ⟨k, hlo, hhi, rfl⟩ := h
  exact ⟨k, by omega, hhi, rfl⟩

/-- What is made up in two steps is made up in one of them. -/
theorem cases (h : Between c c₂ n) (c₁ : Expansion) : Between c c₁ n ∨ Between c₁ c₂ n := by
  obtain ⟨k, hlo, hhi, rfl⟩ := h
  by_cases hk : k < c₁.temps
  · exact .inl ⟨k, hlo, hk, rfl⟩
  · exact .inr ⟨k, by omega, hhi, rfl⟩

end Between

/-- What a step gives that puts statements in front of something: the step replaces calls, and the statements
read nothing but the temporaries `reads` of steps before and their own.  Its temporaries are used linearly,
and those that are declared in the statements themselves may be among the ones that are left to read. -/
structure Prepends (reads : List Text) (c c' : Expansion) (calls : List (Text × Bool)) (p : List Stmt)
    (left : List Text) : Prop extends Inlines c c' calls where
  own : ∀ u ∈ tempUses (stmtsNodes p), Between c c' u.name ∨ ∃ n ∈ reads, u = .read n
  leaves : ∀ n ∈ left, Between c c' n ∨ n ∈ reads
  linear : ∀ n, Between c c' n → Linear n (tempUses (stmtsNodes p)) [p]
    ∨ Linear n (tempUses (stmtsNodes p)) (nodeLists (stmtsNodes p)) ∧ n ∉ left

/-- What a step gives whose statements are all in blocks: uses of its own temporaries, linear in the lists of
these blocks. -/
structure Encloses (c c' : Expansion) (calls : List (Text × Bool)) (us : List TempUse)
    (lists : List (List Stmt)) : Prop extends Inlines c c' calls where
  own : ∀ u ∈ us, Between c c' u.name
  linear : ∀ n, Between c c' n → Linear n us lists

namespace Prepends

variable {reads left left' : List Text} {c c₁ c₂ : Expansion} {calls calls' : List (Text × Bool)}
  {p q : List Stmt}

/-- Nothing is put in front. -/
theorem nil : Prepends [] c c [] [] [] where
  toInlines := .refl c
  own _ hu := absurd hu List.not_mem_nil
  leaves _ hn := absurd hn List.not_mem_nil
  linear _ h := (h.irrefl (Nat.le_refl _)).elim

/-- What is left to read where nothing was read before is one of the step's own temporaries. -/
theorem between (h : Prepends [] c c₁ calls p left) {n : Text} (hn : n ∈ left) : Between c c₁ n :=
  (h.leaves n hn).resolve_right List.not_mem_nil

/-- So is what is used. -/
private theorem between_name (h : Prepends [] c c₁ calls p left) {u : TempUse}
    (hu : u ∈ tempUses (stmtsNodes p)) : Between c c₁ u.name :=
  (h.own u hu).resolve_right (by simp)

/-- Statements behind others, which read what these leave. -/
theorem trans (h : Prepends [] c c₁ calls p left) (h' : Prepends left c₁ c₂ calls' q left') :
    Prepends [] c c₂ (calls ++ calls') (p ++ q) left' where
  toInlines := h.toInlines.trans h'.toInlines
  own u hu := by
    -- Uses in either part are of temporaries in between, or of those that were left.
    rw [stmtsNodes_append, tempUses_append, List.mem_append] at hu
    refine .inl ?_
    rcases hu with hu | hu
    · exact (h.between_name hu).left h'.le
    -- A use in the second part is its own, or it reads what the first part left.
    · rcases h'.own u hu with hown | ⟨n, hn, rfl⟩
      · exact hown.right h.le
      · exact (h.between hn).left h'.le
  leaves n hn := by
    refine .inl ?_
    -- What is left is of the second part, or it was left by the first one.
    rcases h'.leaves n hn with hown | hread
    · exact hown.right h.le
    · exact (h.between hread).left h'.le
  linear n hn := by
    -- The temporary belongs to one of the two parts.
    rcases hn.cases c₁ with hn | hn
    · -- A temporary of the statements in front is at most read by those behind, and only if it is left.
      have hreads : ∀ u ∈ tempUses (stmtsNodes q), u.name = n → n ∈ left ∧ u = .read n := by
        intro u hu heq
        rcases h'.own u hu with hown | ⟨m, hm, rfl⟩
        · exact (hn.disjoint (heq ▸ hown)).elim
        · obtain rfl : m = n := heq
          exact ⟨hm, rfl⟩
      -- In the first part it is still open, or it is closed and not left.
      rcases h.linear n hn with hopen | ⟨hclosed, hnot⟩
      · exact .inl (hopen.append fun u hu heq => (hreads u hu heq).2)
      · refine .inr ⟨?_, fun hleft => ?_⟩
        · simp only [stmtsNodes_append, tempUses_append, nodeLists_append]
          exact (hclosed.before fun u hu heq => hnot (hreads u hu heq).1).mono
            (List.subset_append_left _ _)
        · rcases h'.leaves n hleft with hown | hread
          · exact hn.disjoint hown
          · exact hnot hread
    · -- A temporary of the statements behind is none of those in front.
      have hother : ∀ u ∈ tempUses (stmtsNodes p), u.name ≠ n :=
        fun u hu heq => (h.between_name hu).disjoint (heq ▸ hn)
      -- In the second part it is open or closed as before.
      rcases h'.linear n hn with hopen | ⟨hclosed, hnot⟩
      · exact .inl (hopen.prepend hother)
      · refine .inr ⟨?_, hnot⟩
        simp only [stmtsNodes_append, tempUses_append, nodeLists_append]
        exact (hclosed.behind hother).mono (List.subset_append_right _ _)

/-- What was left before is left still. -/
theorem keep (h : Prepends [] c₁ c₂ calls q left') (hleft : ∀ n ∈ left, Between c c₁ n) :
    Prepends left c₁ c₂ calls q (left ++ left') where
  toInlines := h.toInlines
  own u hu := .inl (h.between_name hu)
  leaves n hn := (List.mem_append.1 hn).elim .inr fun hn => .inl (h.between hn)
  linear n hn := by
    refine (h.linear n hn).imp_right fun hclosed => ⟨hclosed.1, fun hmem => ?_⟩
    rcases List.mem_append.1 hmem with hmem | hmem
    · exact (hleft n hmem).disjoint hn
    · exact hclosed.2 hmem

/-- Two steps of which both leave something. -/
theorem append (h : Prepends [] c c₁ calls p left) (h' : Prepends [] c₁ c₂ calls' q left') :
    Prepends [] c c₂ (calls ++ calls') (p ++ q) (left ++ left') :=
  h.trans (h'.keep fun _ hn => h.between hn)

end Prepends

namespace Encloses

variable {c c₁ c₂ : Expansion} {calls calls' : List (Text × Bool)} {us vs : List TempUse}
  {ls ms : List (List Stmt)}

/-- No blocks. -/
theorem nil : Encloses c c [] [] ls where
  toInlines := .refl c
  own _ hu := absurd hu List.not_mem_nil
  linear _ h := (h.irrefl (Nat.le_refl _)).elim

/-- Blocks behind others. -/
theorem append (h : Encloses c c₁ calls us ls) (h' : Encloses c₁ c₂ calls' vs ms) :
    Encloses c c₂ (calls ++ calls') (us ++ vs) (ls ++ ms) where
  toInlines := h.toInlines.trans h'.toInlines
  own u hu := (List.mem_append.1 hu).elim (fun hu => (h.own u hu).left h'.le)
    fun hu => (h'.own u hu).right h.le
  linear n hn := by
    rcases hn.cases c₁ with hn | hn
    · refine ((h.linear n hn).before fun u hu heq => ?_).mono (List.subset_append_left _ _)
      exact hn.disjoint (heq ▸ h'.own u hu)
    · refine ((h'.linear n hn).behind fun u hu heq => ?_).mono (List.subset_append_right _ _)
      exact (heq ▸ h.own u hu).disjoint hn

end Encloses

/-- The statements of a block. -/
theorem Prepends.enclose {c c' : Expansion} {calls : List (Text × Bool)} {p : List Stmt} {left : List Text}
    (h : Prepends [] c c' calls p left) :
    Encloses c c' calls (tempUses (stmtsNodes p)) (p :: nodeLists (stmtsNodes p)) where
  toInlines := h.toInlines
  own _ hu := h.between_name hu
  linear n hn := by
    rcases h.linear n hn with hopen | ⟨hclosed, _⟩
    · exact hopen.mono (List.cons_subset_cons _ (List.nil_subset _))
    · exact hclosed.mono (List.subset_cons_self _ _)

/-- A statement with blocks that reads what was left before, and leaves some of it. -/
theorem Encloses.stmt {c c₁ c₂ : Expansion} {calls calls' : List (Text × Bool)} {us : List TempUse}
    {ls : List (List Stmt)} {p : List Stmt} {left left' : List Text} {s : Stmt}
    (h : Encloses c₁ c₂ calls' us ls) (hp : Prepends [] c c₁ calls p left)
    (hs : (tempUses s.nodes).Perm (left.map .read ++ us)) (hlists : ls ⊆ nodeLists s.nodes)
    (hleft : left' ⊆ left) : Prepends [] c c₂ (calls ++ calls') (p ++ [s]) left' := by
  refine hp.trans ⟨h.toInlines, fun u hu => ?_, fun n hn => .inr (hleft hn), fun n hn => .inr ⟨?_, ?_⟩⟩
  -- The uses of the statement are reads of what was left and those of its blocks.
  · rw [stmtsNodes_singleton] at hu
    rcases List.mem_append.1 (hs.mem_iff.1 hu) with hu | hu
    · obtain ⟨n, hn, rfl⟩ := List.mem_map.1 hu
      exact .inr ⟨n, hn, rfl⟩
    · exact .inl (h.own u hu)
  · rw [stmtsNodes_singleton]
    -- A temporary of the blocks is none of those that the statement reads.
    refine (((h.linear n hn).behind fun u hu heq => ?_).perm hs).mono hlists
    obtain ⟨m, hm, rfl⟩ := List.mem_map.1 hu
    exact (hp.between hm).disjoint (heq ▸ hn)
  -- What was left before is none of theirs.
  · exact fun hmem => (hp.between (hleft hmem)).disjoint hn

/-! ## Calls that are replaced -/

/-- A block ends with a return. -/
private theorem Block.returned?_isSome {b : Block} :
    b.returned?.isSome = true ↔ ∃ sp v, b.stmts.getLast? = some (.ret sp v) := by
  unfold Block.returned?
  split
  case h_1 sp v hlast => exact ⟨fun _ => ⟨sp, v, hlast⟩, fun _ => rfl⟩
  case h_2 hnot =>
    refine ⟨fun h => absurd h Bool.false_ne_true, ?_⟩
    rintro ⟨sp, v, hlast⟩
    exact absurd hlast (hnot sp v)

/-- Expanded statements end with a return if those they come from do. -/
theorem EndsAs.returned? {b : Block} {os : List Assign} {ss : List Stmt} {span : Span} (h : EndsAs b.stmts ss) :
    (Block.mk os ss span).returned?.isSome = b.returned?.isSome := by
  -- Both end with a return if their last statement is one.
  rw [Bool.eq_iff_iff, Block.returned?_isSome, Block.returned?_isSome]
  unfold EndsAs at h
  split at h
  -- The body returns, and so does what it expands to.
  case h_1 sp v hlast =>
    obtain ⟨front, v', hstmts, _⟩ := h
    rw [Block.stmts, hstmts, List.getLast?_concat]
    exact ⟨fun _ => ⟨sp, v, hlast⟩, fun _ => ⟨sp, v', rfl⟩⟩
  case h_2 hnot =>
    -- A return is not settled.
    constructor
    all_goals rintro ⟨sp, v, hlast⟩
    case mpr => exact absurd hlast (hnot sp v)
    have hmem : Node.stmt (.ret sp v) ∈ stmtsNodes ss :=
      nodes_subset_stmtsNodes (List.mem_of_getLast? hlast) List.mem_cons_self
    exact (h _ hmem).elim

/-- A renaming keeps the return at the end. -/
theorem Block.returned?_rename (r : Renaming) (b : Block) :
    (b.rename r).returned?.isSome = b.returned?.isSome := by
  obtain ⟨os, ss, span⟩ := b
  have hlast : (renameStmts r ss).getLast? = ss.getLast?.map (·.rename r) := by
    rw [renameStmts_eq_map, List.getLast?_map]
  simp only [Block.rename, Block.returned?, Block.stmts, hlast]
  cases ss.getLast? with
  | none => rfl
  | some s => cases s <;> rfl

/-- A body that is put to its place as it is does not end with a return. -/
private theorem placeBody_not_returned {call : Expr} {body : Block} {c : Expansion}
    (h : placeBody call body c = .ok (([.block body], call), c)) : body.returned?.isSome = false := by
  refine Bool.eq_false_iff.2 fun hret => ?_
  obtain ⟨sp, v, hlast⟩ := Block.returned?_isSome.1 hret
  -- With a return at its end two statements would stand for the call.
  obtain ⟨_, _, _, _, _, _, hplaced, _⟩ := placeBody_returned hlast h
  exact nomatch congrArg List.length hplaced

/-- What a value begins with reads nothing. -/
private theorem zeroOf_temps {t : Ty} {span : Span} {zero : Expr} (h : zeroOf t span = .ok zero) :
    zero.temps = [] := by
  cases t <;> cases h <;> rfl

/-- Statements whose last one changes from a return of a value to its assignment to another temporary. -/
theorem Hoisted.assign {n m : Text} {front rest : List Stmt} {sp sp' : Span} {v : Expr}
    (h : Hoisted n rest (front ++ [.ret sp v])) :
    ∃ rest', rest = rest' ++ [.ret sp v]
      ∧ Hoisted n (rest' ++ [.assign (.make m v false sp')]) (front ++ [.assign (.make m v false sp')]) := by
  generalize hss : front ++ [.ret sp v] = ss at h
  -- Look at the declaration and the block that stand where the value is held.
  obtain ⟨front', zero, value, overrides, inner, span, valueSpan, blockSpan⟩ := h
  rcases List.eq_nil_or_concat rest with rfl | ⟨rest', last, rfl⟩
  · -- The block that assigns the temporary is no return.
    have hlast := congrArg List.getLast? hss
    rw [List.getLast?_concat, List.append_cons, List.getLast?_concat] at hlast
    cases hlast
  -- The return comes last, so it can be changed without touching them.
  · rw [List.concat_eq_append] at hss ⊢
    rw [← List.cons_append, ← List.cons_append, ← List.append_assoc] at hss
    obtain ⟨rfl, hlast⟩ := List.append_inj' hss rfl
    cases hlast
    refine ⟨rest', rfl, ?_⟩
    rw [List.append_assoc]
    exact .intro front' zero value overrides inner span valueSpan blockSpan

/-- One use of another temporary is new then. -/
private theorem tempUses_assign (m : Text) (front : List Stmt) (sp sp' : Span) (v : Expr) :
    (tempUses (stmtsNodes (front ++ [.assign (.make m v false sp')]))).Perm
      (.assigned m :: tempUses (stmtsNodes (front ++ [.ret sp v]))) := by
  simp only [stmtsNodes_append, stmtsNodes_singleton, tempUses_append, tempUses_made, tempUses_ret]
  exact List.perm_middle

/-- So a temporary that is used linearly in a body that returns stays so when the returned value is assigned
to another one. -/
theorem Linear.assign {n m : Text} {front : List Stmt} {sp : Span} (sp' : Span) {v : Expr} (hne : m ≠ n)
    (h : Linear n (tempUses (stmtsNodes (front ++ [.ret sp v])))
      ((front ++ [.ret sp v]) :: nodeLists (stmtsNodes (front ++ [.ret sp v])))) :
    Linear n (tempUses (stmtsNodes (front ++ [.assign (.make m v false sp')])))
      ((front ++ [.assign (.make m v false sp')])
        :: nodeLists (stmtsNodes (front ++ [.assign (.make m v false sp')]))) := by
  -- All uses of the temporary are counted as before.
  have hother : ∀ u : TempUse, u.name = n →
      (tempUses (stmtsNodes (front ++ [.assign (.make m v false sp')]))).count u
        = (tempUses (stmtsNodes (front ++ [.ret sp v]))).count u := by
    intro u hu
    rw [(tempUses_assign m front sp sp' v).count_eq, List.count_cons_of_ne]
    rintro rfl
    exact hne hu
  -- The lists of statements in blocks are the same, as neither statement has a block.
  have hlists : nodeLists (stmtsNodes (front ++ [.assign (.make m v false sp')]))
      = nodeLists (stmtsNodes (front ++ [.ret sp v])) := by
    simp only [stmtsNodes_append, stmtsNodes_singleton, nodeLists_append]
    rfl
  obtain ⟨ss, hss, rest, hhoists, hreads⟩ := h.placed
  refine ⟨(hother _ rfl).trans h.declared, (hother _ rfl).trans h.assigned, ?_⟩
  rw [hother _ rfl, hlists]
  -- The temporary is held in the statements themselves, or in one of the blocks.
  rcases List.mem_cons.1 hss with rfl | hss
  · obtain ⟨rest', rfl, hchanged⟩ := hhoists.assign
    -- In these, the last statement changes.
    refine ⟨_, List.mem_cons_self, _, hchanged, hreads.trans ?_⟩
    have hnew : TempUse.assigned m ≠ .read n := TempUse.noConfusion
    simp only [stmtsNodes_append, stmtsNodes_singleton, tempUses_append, tempUses_made, tempUses_ret,
      List.count_append, Bool.false_eq_true, if_false, List.count_cons_of_ne hnew]
  · exact ⟨ss, List.mem_cons_of_mem _ hss, rest, hhoists, hreads⟩

/-- The nodes of a block: those of its overrides and those of its statements. -/
private theorem tempUses_block {left : List Text} {b : Block}
    (h : tempUses (b.overrides.flatMap Assign.nodes) = left.map .read) :
    tempUses (Stmt.block b).nodes = left.map .read ++ tempUses (stmtsNodes b.stmts) := by
  obtain ⟨os, ss, sp⟩ := b
  have h : tempUses (os.flatMap Assign.nodes) = left.map .read := h
  rw [Stmt.nodes, tempUses_cons, Block.nodes, tempUses_append, h]
  rfl

/-- The lists of statements in a block. -/
private theorem nodeLists_block (b : Block) :
    b.stmts :: nodeLists (stmtsNodes b.stmts) ⊆ nodeLists (Stmt.block b).nodes := by
  obtain ⟨os, ss, sp⟩ := b
  rw [Stmt.nodes, Block.nodes, nodeLists_cons, nodeLists_append]
  exact List.cons_subset_cons _ (List.subset_append_right _ _)

/-- A step that renames, and does not matter otherwise. -/
theorem Encloses.rename {c c₁ c₂ : Expansion} {calls : List (Text × Bool)} {ss : List Stmt}
    (h : Encloses c c₁ calls (tempUses (stmtsNodes ss)) (ss :: nodeLists (stmtsNodes ss))) (r : Renaming)
    (htold : c₂.expanded = c₁.expanded) (htemps : c₂.temps = c₁.temps) :
    Encloses c c₂ calls (tempUses (stmtsNodes (renameStmts r ss)))
      (renameStmts r ss :: nodeLists (stmtsNodes (renameStmts r ss))) := by
  have hbetween : ∀ n, Between c c₂ n ↔ Between c c₁ n := fun n => by rw [Between, Between, htemps]
  refine ⟨⟨htold.trans h.told, htemps.trans h.temps⟩, fun u hu => ?_, fun n hn => ?_⟩
  · rw [stmtsNodes_rename, tempUses_rename] at hu
    exact (hbetween _).2 (h.own u hu)
  · rw [stmtsNodes_rename, tempUses_rename, nodeLists_rename]
    exact (h.linear n ((hbetween n).1 hn)).rename r

/-- Freshening the body of a call renames it, and counts no temporaries. -/
theorem freshened_eq {b b' : Block} {c c' : Expansion} (h : freshened b c = .ok (b', c')) :
    ∃ r, b' = b.rename r ∧ c'.expanded = c.expanded ∧ c'.temps = c.temps := by
  simp only [freshened, Block.freshen_eq] at h
  cases h
  exact ⟨_, rfl, rfl, rfl⟩

/-- The parameters of a call, bound to its arguments, read what these read. -/
theorem tempUses_overrides {binds : List Assign} {args : List Expr} (hlen : binds.length = args.length)
    (hbinds : ∀ a ∈ binds, a.info.binding.isSome = true) :
    tempUses ((bindExpanded binds args).flatMap Assign.nodes)
      = ((nodesOfList args).filterMap Expr.temp?).map .read := by
  -- Parameters and arguments run out together.
  induction binds generalizing args with
  | nil =>
    obtain rfl := List.length_eq_zero_iff.1 hlen.symm
    rfl
  | cons b binds ih =>
    cases args with
    | nil => cases hlen
    | cons e args =>
      obtain ⟨hb, hbinds⟩ := List.forall_mem_cons.1 hbinds
      -- The parameter reads what its argument reads.
      have hzip : bindExpanded (b :: binds) (e :: args) = .mk b.info e :: bindExpanded binds args := rfl
      have hone : tempUses (Assign.mk b.info e).nodes = e.temps.map .read := tempUses_bound hb
      rw [hzip, List.flatMap_cons, tempUses_append, hone, ih (Nat.succ.inj hlen) hbinds, nodesOfList,
        List.filterMap_append, List.map_append]
      rfl

section Call

variable {c c₁ c₂ : Expansion} {calls calls' : List (Text × Bool)} {p : List Stmt} {left : List Text}
  {name : Text} {body : Block} (hp : Prepends [] c c₁ calls p left)
  (hb : Encloses { c₁ with expanded := name :: c₁.expanded } c₂ calls' (tempUses (stmtsNodes body.stmts))
    (body.stmts :: nodeLists (stmtsNodes body.stmts)))
  (hover : tempUses (body.overrides.flatMap Assign.nodes) = left.map .read)

include hp hb hover

/-- A body that does not return is put to its place as it is. -/
theorem Prepends.called :
    Prepends [] c c₂ (calls ++ (name, false) :: calls') (p ++ [.block body]) left := by
  have hnoted : Encloses c₁ c₂ ((name, false) :: calls') (tempUses (stmtsNodes body.stmts))
      (body.stmts :: nodeLists (stmtsNodes body.stmts)) :=
    ⟨hb.toInlines.call rfl rfl, hb.own, hb.linear⟩
  exact hnoted.stmt hp (List.Perm.of_eq (tempUses_block hover)) (nodeLists_block body) (List.Subset.refl _)

/-- A body that returns assigns a new temporary, which is left to read. -/
theorem Prepends.returned {call zero v : Expr} {front : List Stmt} {sp : Span}
    (hret : body.stmts = front ++ [.ret sp v]) (hzero : zero.temps = []) {made : List Text} :
    Prepends [] c { c₂ with temps := c₂.temps + 1, made := made } (calls ++ (name, true) :: calls')
      (p ++ placed call c₂.temps zero body front sp v) [tempName c₂.temps] := by
  rw [hret] at hb
  -- The new temporary is the last one that was taken.
  have hlt : Between c₁ { c₂ with temps := c₂.temps + 1, made := made } (tempName c₂.temps) :=
    ⟨c₂.temps, hb.le, Nat.lt_succ_self _, rfl⟩
  -- No temporary of the body is the new one.
  have hother : ∀ n, Between c₁ c₂ n → tempName c₂.temps ≠ n := by
    rintro n ⟨k, _, hk, rfl⟩ heq
    have := tempName_number heq
    omega
  -- The uses of the changed body: one assignment more, and the reads of the value.
  have hperm := tempUses_assign (tempName c₂.temps) front sp sp v
  -- The new temporary is declared, then the parameters are bound, then the body runs.
  have huses : tempUses (stmtsNodes (placed call c₂.temps zero body front sp v))
      = .declared (tempName c₂.temps) :: (left.map .read
        ++ tempUses (stmtsNodes (front ++ [.assign (.make (tempName c₂.temps) v false sp)]))) := by
    rw [placed, stmtsNodes, stmtsNodes_singleton, tempUses_append, tempUses_made, hzero]
    exact congrArg (List.cons _) (tempUses_block hover)
  refine hp.trans ⟨hb.toInlines.call rfl rfl, fun u hu => ?_, fun n hn => ?_, fun n hn => ?_⟩
  -- Each use is of the new temporary, of one that was left, or of the body.
  · rw [huses] at hu
    rcases List.mem_cons.1 hu with rfl | hu
    · exact .inl hlt
    rcases List.mem_append.1 hu with hu | hu
    · obtain ⟨n, hn, rfl⟩ := List.mem_map.1 hu
      exact .inr ⟨n, hn, rfl⟩
    · rcases List.mem_cons.1 (hperm.mem_iff.1 hu) with rfl | hu
      · exact .inl hlt
      · exact .inl ((hb.own u hu).left (Nat.le_succ _))
  -- The new temporary is left.
  · rw [List.mem_singleton.1 hn]
    exact .inl hlt
  · rw [huses]
    rcases hn.cases c₂ with hn | ⟨k, hlo, hhi, rfl⟩
    · -- A temporary of the body is not the new one, nor one of those that the arguments read.
      refine .inr ⟨?_, fun hmem => hother n hn (List.mem_singleton.1 hmem).symm⟩
      have hbody := (hb.linear n hn).assign sp (hother n hn)
      have hreads : ∀ u ∈ TempUse.declared (tempName c₂.temps) :: left.map .read, u.name ≠ n := by
        refine List.forall_mem_cons.2 ⟨hother n hn, fun u hu => ?_⟩
        obtain ⟨m, hm, rfl⟩ := List.mem_map.1 hu
        exact fun heq => (hp.between hm).disjoint (heq ▸ hn)
      refine (hbody.behind hreads).mono ?_
      rw [placed, stmtsNodes, stmtsNodes_singleton, nodeLists_append]
      exact List.Subset.trans (nodeLists_block (.mk body.overrides
        (front ++ [.assign (.make (tempName c₂.temps) v false sp)]) body.span)) (List.subset_append_right _ _)
    · -- The new one is declared and assigned, and nothing else yet.
      obtain rfl : k = c₂.temps := by
        have : k < c₂.temps + 1 := hhi
        omega
      refine .inl ?_
      -- Nothing else uses the new temporary.
      have hnone : ∀ u ∈ left.map TempUse.read ++ tempUses (stmtsNodes (front ++ [.ret sp v])),
          u.name ≠ tempName c₂.temps := by
        refine List.forall_mem_append.2 ⟨fun u hu heq => ?_, fun u hu => (hother _ (hb.own u hu)).symm⟩
        obtain ⟨m, hm, rfl⟩ := List.mem_map.1 hu
        exact (hp.between hm).disjoint (heq ▸ hlt)
      exact .new ((hperm.append_left _).trans List.perm_middle |>.cons _) hnone (List.mem_singleton_self _)
        (.intro [] zero v body.overrides front call.span sp body.span)

end Call

/-- A call, with its body put to its place in one of the two ways. -/
theorem Prepends.replaced {c c₁ c₂ c₃ : Expansion} {calls calls' : List (Text × Bool)} {p q : List Stmt}
    {left : List Text} {name : Text} {body : Block} {call e : Expr} (hp : Prepends [] c c₁ calls p left)
    (hb : Encloses { c₁ with expanded := name :: c₁.expanded } c₂ calls' (tempUses (stmtsNodes body.stmts))
      (body.stmts :: nodeLists (stmtsNodes body.stmts)))
    (hover : tempUses (body.overrides.flatMap Assign.nodes) = left.map .read) (hcall : call.temps = left)
    (h : placeBody call body c₂ = .ok ((q, e), c₃)) :
    Prepends [] c c₃ (calls ++ (name, body.returned?.isSome) :: calls') (p ++ q) e.temps := by
  -- The body returns a value, or it does not.
  rcases placeBody_cases h with ⟨front, sp, v, t, zero, hret, hzero, rfl, rfl, rfl⟩ | ⟨rfl, rfl, rfl⟩
  · have hreturns : body.returned?.isSome = true :=
      Block.returned?_isSome.2 ⟨sp, v, by rw [hret, List.getLast?_concat]⟩
    rw [hreturns]
    exact hp.returned hb hover hret (zeroOf_temps hzero)
  -- Without a value, nothing more is left than what the call reads.
  · rw [placeBody_not_returned h, hcall]
    exact hp.called hb hover

/-! ## Statements -/

/-- Less is left to read. -/
theorem Prepends.forget {reads left : List Text} {c c' : Expansion} {calls : List (Text × Bool)} {p : List Stmt}
    (h : Prepends reads c c' calls p left) : Prepends reads c c' calls p [] where
  toInlines := h.toInlines
  own := h.own
  leaves _ hn := absurd hn List.not_mem_nil
  linear n hn := (h.linear n hn).imp_right fun hclosed => ⟨hclosed.1, List.not_mem_nil⟩

/-- A step that does not count has replaced nothing, and leaves nothing. -/
theorem Prepends.eq_nil {c : Expansion} {calls : List (Text × Bool)} {p : List Stmt} {left : List Text}
    (h : Prepends [] c c calls p left) : calls = [] ∧ left = [] := by
  refine ⟨?_, List.eq_nil_iff_forall_not_mem.2 fun n hn => (h.between hn).irrefl (Nat.le_refl _)⟩
  have hnil : (calls.map Prod.fst).reverse = [] := List.self_eq_append_left.1 h.told
  exact List.map_eq_nil_iff.1 (List.reverse_eq_nil_iff.1 hnil)

section Statements

variable {c c₁ c₂ c₃ : Expansion} {calls calls' calls'' : List (Text × Bool)} {p : List Stmt}
  {left : List Text}

/-- A statement without blocks reads what is left. -/
theorem Prepends.plain (hp : Prepends [] c c₁ calls p left) {s : Stmt}
    (hs : tempUses s.nodes = left.map .read) : Prepends [] c c₁ calls (p ++ [s]) [] := by
  have hnone : Encloses c₁ c₁ [] [] [] := .nil
  have hstmt := hnone.stmt hp (s := s) (by rw [hs, List.append_nil]) (List.nil_subset _) (List.nil_subset _)
  rwa [List.append_nil] at hstmt

/-- The statements of a block without overrides. -/
theorem Prepends.block {b : Block} (hb : Prepends [] c c₁ calls b.stmts left) (hover : b.overrides = []) :
    Encloses c c₁ calls (tempUses b.nodes) b.lists := by
  obtain ⟨os, ss, sp⟩ := b
  obtain rfl : os = [] := hover
  exact hb.enclose

/-- A conditional behind its test. -/
theorem Prepends.cond (sp : Span) {x : Expr} {t : Block} {f : Option Block}
    (hp : Prepends [] c c₁ calls p x.temps) (ht : Encloses c₁ c₂ calls' (tempUses t.nodes) t.lists)
    (hf : Encloses c₂ c₃ calls'' (tempUses ((f.map Block.nodes).getD [])) ((f.map Block.lists).getD [])) :
    Prepends [] c c₃ (calls ++ (calls' ++ calls'')) (p ++ [.cond sp x t f]) [] := by
  -- What is read behind the test is of the blocks alone.
  refine (ht.append hf).stmt hp (List.Perm.of_eq ?_) ?_ (List.nil_subset _)
  · cases f with
    | none => simp [Stmt.nodes, tempUses_cons, Node.tempUse?]
    | some f => simp [Stmt.nodes, tempUses_cons, Node.tempUse?]
  -- The lists of the statement are those of its branches.
  · intro ss hss
    cases f with
    | none =>
      simp only [Option.map_none, Option.getD_none, List.append_nil, Block.lists, List.mem_cons] at hss
      simp only [Stmt.nodes, nodeLists_cons, nodeLists_append, Node.lists, List.mem_append, List.mem_singleton]
      exact hss.imp_right .inr
    | some f =>
      simp only [Option.map_some, Option.getD_some, Block.lists, List.mem_append, List.mem_cons] at hss
      simp only [Stmt.nodes, nodeLists_cons, nodeLists_append, Node.lists, List.mem_append, List.mem_cons,
        List.not_mem_nil, or_false]
      rcases hss with (hss | hss) | (hss | hss)
      · exact .inl (.inl hss)
      · exact .inr (.inl (.inr hss))
      · exact .inl (.inr hss)
      · exact .inr (.inr hss)

/-- A guarded body behind its test. -/
theorem Prepends.guard (sp : Span) {x : Expr} {b : Block} (hp : Prepends [] c c₁ calls p x.temps)
    (hb : Encloses c₁ c₂ calls' (tempUses b.nodes) b.lists) :
    Prepends [] c c₂ (calls ++ calls') (p ++ [guarded sp x b]) [] := by
  have hcond := hp.cond sp (f := some (leaveBlock sp)) hb Encloses.nil
  rwa [List.append_nil] at hcond

/-- The body of a loop, with its test and its step where these have moved there. -/
theorem Prepends.folded (sp span : Span) {x x' : Option Expr} {q last : List Stmt} {b : Block}
    {calls₁ calls₂ calls₃ : List (Text × Bool)} (hx : expandOption x c = .ok ((q, x'), c₁))
    (hq : Prepends [] c c₁ calls₁ q ((nodesOfOption x').filterMap Expr.temp?))
    (hb : Prepends [] c₁ c₂ calls₂ b.stmts []) (hover : b.overrides = [])
    (hlast : Prepends [] c₂ c₃ calls₃ last []) :
    Encloses c c₃ (calls₁ ++ calls₂ ++ calls₃) (tempUses (foldedBody sp x q x' span b last).nodes)
      (foldedBody sp x q x' span b last).lists := by
  -- The test moves if a function is called in it.
  cases hcalls : testCalls x with
  | true =>
    cases x with
    | none => cases hcalls
    | some e =>
      obtain ⟨_, e', _, _, ⟨⟩⟩ := expandOption_some_ok.1 hx
      have hfolded : foldedBody sp (some e) q (some e') span b last
          = .mk [] (q ++ [guarded sp e' b] ++ last) span := by
        unfold foldedBody
        rw [hcalls]
      rw [hfolded]
      -- What stands in front of the test, the test around the body, and what is moved behind it.
      have hguarded := (Prepends.guard sp (x := e') hq (hb.block hover)).append hlast
      exact hguarded.block (b := .mk [] _ span) rfl
  | false =>
    -- The test stays where it is.
    rw [expandOption_of_not_testCalls hcalls] at hx
    cases hx
    obtain ⟨rfl, _⟩ := hq.eq_nil
    have hfolded : foldedBody sp x [] x span b last = .mk b.overrides (b.stmts ++ last) b.span := by
      unfold foldedBody
      rw [hcalls]
    rw [hfolded]
    exact (hb.append hlast).block (b := .mk b.overrides _ b.span) hover

/-- The step of a loop where it has moved behind the body. -/
theorem Prepends.moved {st st' : Option Assign} {r : List Stmt} (hst : expandClause st c = .ok ((r, st'), c₁))
    (hr : Prepends [] c c₁ calls r left) (hreads : tempUses (clauseNodes st') = left.map .read) :
    Prepends [] c c₁ calls (movedStep st r st') []
      ∧ tempUses (clauseNodes (if stepCalls st then none else st)) = [] := by
  -- The step moves if a function is called in it.
  cases hcalls : stepCalls st with
  | true =>
    cases st with
    | none => cases hcalls
    | some a =>
      obtain ⟨_, a', _, _, ⟨⟩⟩ := expandClause_some_ok.1 hst
      rw [movedStep, if_pos hcalls]
      -- The moved step is a statement behind what stands in front of it.
      exact ⟨hr.plain hreads, rfl⟩
  | false =>
    -- The step stays where it is, and reads nothing.
    rw [expandClause_of_not_stepCalls hcalls] at hst
    cases hst
    obtain ⟨rfl, rfl⟩ := hr.eq_nil
    rw [movedStep, if_neg (by rw [hcalls]; exact Bool.false_ne_true)]
    exact ⟨.nil, hreads⟩

/-- The test of a loop where it stays reads nothing. -/
theorem Prepends.stayingTest {x x' : Option Expr} {q : List Stmt} (hx : expandOption x c = .ok ((q, x'), c₁))
    (hq : Prepends [] c c₁ calls q ((nodesOfOption x').filterMap Expr.temp?)) :
    tempUses ((nodesOfOption (if testCalls x then none else x)).map .expr) = [] := by
  cases hcalls : testCalls x with
  | true => rfl
  | false =>
    rw [expandOption_of_not_testCalls hcalls] at hx
    cases hx
    rw [if_neg Bool.false_ne_true, tempUses_exprs, hq.eq_nil.2, List.map_nil]

end Statements

end AisScript
