import AisScript.Proofs.Settled

/-!
# Uses of temporaries

The names that expansion makes up for temporaries stand on nodes without a binding; every name of the script
itself has one.  A temporary is used linearly if it is declared once and assigned once, by the last statement
of the block right behind its declaration, and read only behind that block, in the list of statements in
which it is declared.

* `Node.tempUse?`, `tempUses`   what nodes do with the names of temporaries
* `Block.lists`              the lists of statements of a program
* `Linear`                   temporaries that are used linearly
-/

namespace AisScript

/-! ## Uses -/

/-- What is done with the name of a temporary. -/
inductive TempUse where
  | declared (name : Text)
  | assigned (name : Text)
  | read (name : Text)
deriving DecidableEq, Repr

/-- The name of the temporary. -/
def TempUse.name : TempUse → Text
  | .declared n | .assigned n | .read n => n

/-- The name of a temporary that an expression reads. -/
def Expr.temp? : Expr → Option Text
  | .var _ n none => some n
  | _ => none

/-- What a node does with the name of a temporary. -/
def Node.tempUse? : Node → Option TempUse
  | .stmt (.assign a) =>
    if a.info.binding.isSome then none
    else if a.info.declares then some (.declared a.info.name) else some (.assigned a.info.name)
  | .expr e => e.temp?.map .read
  | _ => none

/-- What nodes do with the names of temporaries, in order. -/
def tempUses (xs : List Node) : List TempUse := xs.filterMap Node.tempUse?

/-- The names of the temporaries that are read in an expression. -/
def Expr.temps (e : Expr) : List Text := e.nodes.filterMap Expr.temp?

@[simp] theorem tempUses_nil : tempUses [] = [] := rfl

@[simp] theorem tempUses_append (xs ys : List Node) : tempUses (xs ++ ys) = tempUses xs ++ tempUses ys :=
  List.filterMap_append

/-- One node in front. -/
theorem tempUses_cons (x : Node) (xs : List Node) : tempUses (x :: xs) = x.tempUse?.toList ++ tempUses xs := by
  rw [tempUses, List.filterMap_cons]
  cases x.tempUse? <;> rfl

/-- What the nodes of expressions do: they read. -/
theorem tempUses_exprs (es : List Expr) :
    tempUses (es.map Node.expr) = (es.filterMap Expr.temp?).map .read := by
  rw [tempUses, List.filterMap_map, List.map_filterMap]
  rfl

/-- An expression reads its temporaries. -/
@[simp] theorem tempUses_exprNodes (e : Expr) : tempUses (exprNodes e) = e.temps.map .read :=
  tempUses_exprs e.nodes

/-- An assignment that expansion made declares or assigns. -/
@[simp] theorem tempUses_made (n : Text) (v : Expr) (declares : Bool) (span : Span) :
    tempUses (Stmt.assign (.make n v declares span)).nodes
      = (if declares then .declared n else .assigned n) :: v.temps.map .read := by
  rw [Stmt.nodes, Assign.nodes, tempUses_cons]
  cases declares <;> exact congrArg (List.cons _) (tempUses_exprNodes v)

/-- An assignment of the script reads what its value reads. -/
theorem tempUses_bound {a : Assign} (h : a.info.binding.isSome = true) :
    tempUses a.nodes = a.value.temps.map .read := by
  rw [Assign.nodes, tempUses_cons, Node.tempUse?, if_pos h]
  exact tempUses_exprNodes a.value

/-- A return reads what its value reads. -/
@[simp] theorem tempUses_ret (span : Span) (v : Expr) :
    tempUses (Stmt.ret span v).nodes = v.temps.map .read := by
  rw [Stmt.nodes, tempUses_cons]
  exact tempUses_exprNodes v

/-! ## Lists of statements -/

/-- The lists of statements in the blocks of a node. -/
def Node.lists : Node → List (List Stmt)
  | .stmt (.block b) => [b.stmts]
  | .stmt (.cond _ _ t none) => [t.stmts]
  | .stmt (.cond _ _ t (some f)) => [t.stmts, f.stmts]
  | .stmt (.loop _ _ b) | .stmt (.forLoop _ _ _ _ b) | .stmt (.funcDef _ _ _ _ b) => [b.stmts]
  | _ => []

/-- The lists of statements in nodes. -/
def nodeLists (xs : List Node) : List (List Stmt) := xs.flatMap Node.lists

theorem nodeLists_cons (x : Node) (xs : List Node) : nodeLists (x :: xs) = x.lists ++ nodeLists xs :=
  List.flatMap_cons

/-- The lists of statements of a program. -/
def Block.lists (b : Block) : List (List Stmt) := b.stmts :: nodeLists b.nodes

@[simp] theorem nodeLists_append (xs ys : List Node) : nodeLists (xs ++ ys) = nodeLists xs ++ nodeLists ys :=
  List.flatMap_append

/-- The lists of a block are among those of a statement that ends with it. -/
theorem Block.lists_subset {b : Block} {s : Stmt} {xs : List Node} (h : Node.lists (.stmt s) = [b.stmts]) :
    b.lists ⊆ nodeLists (.stmt s :: (xs ++ b.nodes)) := by
  rw [nodeLists_cons, h, nodeLists_append]
  exact List.cons_subset_cons _ (List.subset_append_right _ _)

/-! ## Renaming -/

/-- An assignment that expansion made keeps its name. -/
private theorem Assign.rename_make (r : Renaming) (n : Text) (v : Expr) (declares : Bool) (span : Span) :
    (Assign.make n v declares span).rename r = .make n (v.rename r) declares span := rfl

/-- A renaming knows nothing of temporaries. -/
@[simp] theorem Expr.temp?_rename (r : Renaming) (e : Expr) : (e.rename r).temp? = e.temp? := by
  cases e with
  | var i n b => cases b <;> rfl
  | _ => rfl

@[simp] theorem Node.tempUse?_rename (r : Renaming) (x : Node) : (x.rename r).tempUse? = x.tempUse? := by
  cases x with
  | expr e => exact congrArg (Option.map TempUse.read) (e.temp?_rename r)
  | stmt s =>
    cases s with
    | assign a =>
      obtain ⟨⟨_, _, _, _, _, b⟩, _⟩ := a
      cases b <;> rfl
    | _ => rfl

@[simp] theorem tempUses_rename (r : Renaming) (xs : List Node) :
    tempUses (xs.map (·.rename r)) = tempUses xs := by
  rw [tempUses, List.filterMap_map]
  exact congrArg (List.filterMap · xs) (funext fun x => x.tempUse?_rename r)

/-- The lists of a renamed node. -/
private theorem Node.lists_rename (r : Renaming) (x : Node) :
    (x.rename r).lists = x.lists.map (renameStmts r) := by
  have hstmts : ∀ b : Block, (b.rename r).stmts = renameStmts r b.stmts := by
    rintro ⟨overrides, stmts, span⟩
    rfl
  cases x with
  | expr e => rfl
  | stmt s =>
    cases s with
    | cond sp c t f => cases f <;> simp [Node.rename, Stmt.rename, renameElse, Node.lists, hstmts]
    | _ => simp [Node.rename, Stmt.rename, Node.lists, hstmts]

/-- The lists of renamed nodes. -/
theorem nodeLists_rename (r : Renaming) (xs : List Node) :
    nodeLists (xs.map (·.rename r)) = (nodeLists xs).map (renameStmts r) := by
  rw [nodeLists, List.flatMap_map, nodeLists, List.map_flatMap]
  exact congrArg (List.flatMap · xs) (funext fun x => x.lists_rename r)

/-! ## Linear use -/

/-- Statements among which a temporary is declared and then assigned by the last statement of the block right
behind, with the statements `rest` behind that block. -/
inductive Hoisted (n : Text) (rest : List Stmt) : List Stmt → Prop where
  | intro (front : List Stmt) (zero value : Expr) (overrides : List Assign) (inner : List Stmt)
      (span valueSpan blockSpan : Span) :
      Hoisted n rest (front ++ .assign (.make n zero true span)
        :: .block (.mk overrides (inner ++ [.assign (.make n value false valueSpan)]) blockSpan) :: rest)

/-- More statements in front. -/
theorem Hoisted.prepend {n : Text} {rest ss : List Stmt} (h : Hoisted n rest ss) (ts : List Stmt) :
    Hoisted n rest (ts ++ ss) := by
  obtain ⟨front, zero, value, overrides, inner, span, valueSpan, blockSpan⟩ := h
  rw [← List.append_assoc]
  exact .intro (ts ++ front) zero value overrides inner span valueSpan blockSpan

/-- More statements behind. -/
theorem Hoisted.append {n : Text} {rest ss : List Stmt} (h : Hoisted n rest ss) (ts : List Stmt) :
    Hoisted n (rest ++ ts) (ss ++ ts) := by
  obtain ⟨front, zero, value, overrides, inner, span, valueSpan, blockSpan⟩ := h
  rw [List.append_assoc]
  exact .intro front zero value overrides inner span valueSpan blockSpan

/-- A renaming keeps the names of temporaries. -/
theorem Hoisted.rename {n : Text} {rest ss : List Stmt} (h : Hoisted n rest ss) (r : Renaming) :
    Hoisted n (renameStmts r rest) (renameStmts r ss) := by
  obtain ⟨front, zero, value, overrides, inner, span, valueSpan, blockSpan⟩ := h
  have hpart : Hoisted n (renameStmts r rest) _ := .intro (renameStmts r front) (zero.rename r)
    (value.rename r) (overrides.map (·.rename r)) (renameStmts r inner) span valueSpan blockSpan
  simpa only [renameStmts_eq_map, List.map_append, List.map_cons, List.map_nil, Stmt.rename, Block.rename,
    Assign.rename_make] using hpart

/-- A temporary that is used linearly: among all uses, one declares and one assigns it; the declaration
stands in one of the lists of statements, right behind it the block that ends with the assignment, and it is
read only in what is left of that list. -/
structure Linear (n : Text) (us : List TempUse) (lists : List (List Stmt)) : Prop where
  declared : us.count (.declared n) = 1
  assigned : us.count (.assigned n) = 1
  placed : ∃ ss ∈ lists, ∃ rest, Hoisted n rest ss
    ∧ us.count (.read n) = (tempUses (stmtsNodes rest)).count (.read n)

/-- Uses of other temporaries do not count. -/
private theorem count_of_names_ne {n : Text} {us : List TempUse} (h : ∀ u ∈ us, u.name ≠ n) {u : TempUse}
    (hu : u.name = n) : us.count u = 0 :=
  List.count_eq_zero.2 fun hmem => h u hmem hu

namespace Linear

variable {n : Text} {us vs : List TempUse} {ls ms : List (List Stmt)} {p q : List Stmt}

/-- More lists of statements. -/
theorem mono (h : Linear n us ls) (hsub : ls ⊆ ms) : Linear n us ms := by
  obtain ⟨ss, hss, hplaced⟩ := h.placed
  exact ⟨h.declared, h.assigned, ss, hsub hss, hplaced⟩

/-- The order of uses does not matter. -/
theorem perm (h : Linear n us ls) (hperm : vs.Perm us) : Linear n vs ls := by
  refine ⟨(hperm.count_eq _).trans h.declared, (hperm.count_eq _).trans h.assigned, ?_⟩
  rw [hperm.count_eq]
  exact h.placed

/-- A new temporary is declared and assigned, and not read yet. -/
theorem new {ss : List Stmt} (hus : us.Perm (.declared n :: .assigned n :: vs)) (hvs : ∀ u ∈ vs, u.name ≠ n)
    (hss : ss ∈ ls) (h : Hoisted n [] ss) : Linear n us ls := by
  have hcount : ∀ u : TempUse, u.name = n →
      us.count u = [TempUse.declared n, .assigned n].count u := by
    intro u hu
    rw [hus.count_eq, List.count_cons, List.count_cons, count_of_names_ne hvs hu, List.count_cons,
      List.count_singleton, Nat.zero_add]
  refine ⟨(hcount _ rfl).trans ?_, (hcount _ rfl).trans ?_, ss, hss, [], h, (hcount _ rfl).trans ?_⟩
  all_goals simp [stmtsNodes]

/-- Uses of other temporaries in front. -/
theorem behind (h : Linear n vs ls) (hus : ∀ u ∈ us, u.name ≠ n) : Linear n (us ++ vs) ls := by
  have hcount : ∀ u : TempUse, u.name = n → (us ++ vs).count u = vs.count u := by
    intro u hu
    rw [List.count_append, count_of_names_ne hus hu, Nat.zero_add]
  refine ⟨(hcount _ rfl).trans h.declared, (hcount _ rfl).trans h.assigned, ?_⟩
  rw [hcount _ rfl]
  exact h.placed

/-- Uses of other temporaries behind. -/
theorem before (h : Linear n us ls) (hvs : ∀ u ∈ vs, u.name ≠ n) : Linear n (us ++ vs) ls :=
  (h.behind hvs).perm List.perm_append_comm

/-- A renaming keeps linear use. -/
theorem rename (h : Linear n us ls) (r : Renaming) : Linear n us (ls.map (renameStmts r)) := by
  obtain ⟨ss, hss, rest, hhoists, hreads⟩ := h.placed
  refine ⟨h.declared, h.assigned, _, List.mem_map_of_mem hss, _, hhoists.rename r, ?_⟩
  rw [hreads, stmtsNodes_rename, tempUses_rename]

/-- Statements in front that have nothing to do with the temporary. -/
theorem prepend (h : Linear n (tempUses (stmtsNodes q)) [q])
    (hp : ∀ u ∈ tempUses (stmtsNodes p), u.name ≠ n) :
    Linear n (tempUses (stmtsNodes (p ++ q))) [p ++ q] := by
  have hbehind := h.behind hp
  rw [← tempUses_append, ← stmtsNodes_append] at hbehind
  obtain ⟨_, hq, rest, hhoists, hreads⟩ := hbehind.placed
  obtain rfl := List.mem_singleton.1 hq
  exact ⟨hbehind.declared, hbehind.assigned, _, List.mem_singleton_self _, rest, hhoists.prepend p, hreads⟩

/-- Statements behind that only read the temporary. -/
theorem append (h : Linear n (tempUses (stmtsNodes p)) [p])
    (hq : ∀ u ∈ tempUses (stmtsNodes q), u.name = n → u = .read n) :
    Linear n (tempUses (stmtsNodes (p ++ q))) [p ++ q] := by
  have hnone : ∀ u : TempUse, u.name = n → u ≠ .read n → (tempUses (stmtsNodes q)).count u = 0 :=
    fun u hu hne => List.count_eq_zero.2 fun hmem => hne (hq u hmem hu)
  obtain ⟨_, hp, rest, hhoists, hreads⟩ := h.placed
  obtain rfl := List.mem_singleton.1 hp
  simp only [stmtsNodes_append, tempUses_append]
  refine ⟨?_, ?_, _, List.mem_singleton_self _, rest ++ q, hhoists.append q, ?_⟩
  · rw [List.count_append, h.declared, hnone (.declared n) rfl TempUse.noConfusion]
  · rw [List.count_append, h.assigned, hnone (.assigned n) rfl TempUse.noConfusion]
  · rw [stmtsNodes_append, tempUses_append, List.count_append, List.count_append, hreads]

end Linear

end AisScript
