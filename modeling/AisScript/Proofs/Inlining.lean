import AisScript.Proofs.Absorbing
import AisScript.Proofs.Fresh
import AisScript.Proofs.Hygiene
import AisScript.Proofs.Pipeline

/-!
# Inlined strings

Strings have no storage, so every reference to a string variable becomes the literal that the variable
stands for, and the assignments of strings go.  This works out in every accepted program without made-up
names whose loops stay in order, that is, in which no step that declares a variable calls a function: such
a step moves behind the body, where the variable may have been met before.

* `WordlessNodes`          trees without string variables and assignments of strings
* `Assembled.legible`      the names of an expanded program can be read
* `Block.lower_strings`    string variables become the texts they stand for
-/

namespace AisScript

/-! ## Names and their types -/

/-- What is bound to a name, if it is no member of an enumeration. -/
private theorem Env.lookup_eq_variables {ε : Env} {n : Text} (h : (ε.lookup n).bind Binder.value? = none) :
    ε.lookup n = ε.variables.lookup n := by
  -- Members of enumerations are passed over, and the name is none of them.
  induction ε with
  | nil => rfl
  | cons y ε ih =>
    obtain ⟨m, w⟩ := y
    rw [List.lookup_cons] at h ⊢
    cases w with
    | «variable» b =>
      have hcons : Env.variables ((m, .variable b) :: ε) = (m, .variable b) :: Env.variables ε := rfl
      rw [hcons, List.lookup_cons]
      -- The variable has the name, or it is looked for further on.
      split
      · rfl
      · split at h
        · simp_all
        · exact ih h
    | member v =>
      have hcons : Env.variables ((m, .member v) :: ε) = Env.variables ε := rfl
      -- A member that has the name would be its value.
      split at h
      · cases h
      · rw [hcons]
        exact ih h

/-- The type of a temporary among acts. -/
def tempTy (as : List Act) (n : Text) : Option Ty := ((as.filterMap Act.temp?).lookup n).join

/-- Where every temporary has one type, an act that uses one has its type. -/
private theorem Ordered.tempTy_eq {R : Nat → Prop} {as : List Act} (h : Ordered R as) {x : Act}
    (hx : x ∈ as) {n : Text} {t : Option Ty} (ht : x.temp? = some (n, t)) : tempTy as n = t := by
  have hmem : (n, t) ∈ as.filterMap Act.temp? := List.mem_filterMap.2 ⟨x, hx, ht⟩
  have hsome : ((as.filterMap Act.temp?).lookup n).isSome = true := by
    rw [Option.isSome_iff_ne_none]
    intro hnone
    exact absurd (List.lookup_eq_none_iff.1 hnone _ hmem) (by simp)
  obtain ⟨t', ht'⟩ := Option.isSome_iff_exists.1 hsome
  obtain ⟨_, _, heq, _⟩ := List.lookup_eq_some_iff.1 ht'
  obtain ⟨y, hy, hyt⟩ := List.mem_filterMap.1 (heq ▸ List.mem_append_right _ List.mem_cons_self)
  rw [tempTy, ht', Option.join_some]
  exact h.coherent y hy x hx n t' t hyt ht

/-! ## Nothing is left of strings -/

/-- No reference to a string variable and no assignment of a string. -/
def Node.Wordless : Node → Prop
  | .expr (.var i _ _) => i.ty ≠ some .string
  | .stmt (.assign a) => a.value.ty? ≠ some .string
  | _ => True

/-- Nodes without strings, apart from literals. -/
def WordlessNodes (xs : List Node) : Prop := ∀ x ∈ xs, x.Wordless

/-- No nodes at all. -/
@[simp] theorem wordless_nil : WordlessNodes [] := fun _ hx => absurd hx List.not_mem_nil

/-- A node in front of others. -/
@[simp] theorem wordless_cons {x : Node} {xs : List Node} :
    WordlessNodes (x :: xs) ↔ x.Wordless ∧ WordlessNodes xs := List.forall_mem_cons

/-- Nodes one behind the other. -/
@[simp] theorem wordless_append {xs ys : List Node} :
    WordlessNodes (xs ++ ys) ↔ WordlessNodes xs ∧ WordlessNodes ys := List.forall_mem_append

section Wordless

variable (w : Text → Option Binding → Text)

mutual

/-- Read as texts, no reference to a string variable is left of an expression. -/
private theorem Expr.wordless_replace (ε : Env) :
    (e : Expr) → WordlessNodes (exprNodes (e.replace (byWord w) ε))
  -- Constants are no references.
  | .const i v => by simp [exprNodes, Expr.replace, Expr.nodes, Node.Wordless]
  | .var i n b => by
    -- References to strings are replaced by texts, all others by what their names are bound to.
    by_cases hs : i.ty = some .string
    · simp [exprNodes, Expr.replace, byWord, hs, Expr.literal, Expr.nodes, Node.Wordless]
    · simp only [exprNodes, Expr.replace, byWord, if_neg hs, byBinding, valueOr]
      cases b.bind Binding.value? with
      | none => simpa [Expr.nodes, Node.Wordless] using hs
      | some v => simp [Expr.literal, Expr.nodes, Node.Wordless]
  | .binary i op l r => by
    have hl := Expr.wordless_replace ε l
    have hr := Expr.wordless_replace ε r
    simp_all [exprNodes, Expr.replace, Expr.nodes, Node.Wordless]
  | .unary i op x => by
    have hx := Expr.wordless_replace ε x
    simp_all [exprNodes, Expr.replace, Expr.nodes, Node.Wordless]
  | .call i n ns args t => by
    have hargs := wordless_replaceList ε args
    simp_all [exprNodes, Expr.replace, Expr.nodes, Node.Wordless]
  | .member i a b n ns => by
    have hb := Expr.wordless_replace ε b
    simp_all [exprNodes, Expr.replace, Expr.nodes, Node.Wordless]
  | .query i k op u x c => by
    have hu := wordless_replaceOption ε u
    have hx := wordless_replaceOption ε x
    have hc := wordless_replaceOption ε c
    simp_all [exprNodes, Expr.replace, Expr.nodes, Node.Wordless]

/-- Nor is one left of several expressions. -/
private theorem wordless_replaceList (ε : Env) : (es : List Expr) →
    WordlessNodes ((nodesOfList (replaceList (byWord w) ε es)).map .expr)
  | [] => wordless_nil
  | e :: es => by
    have he := Expr.wordless_replace ε e
    have hes := wordless_replaceList ε es
    simp_all [exprNodes, replaceList, nodesOfList]

/-- Nor of one that may be absent. -/
private theorem wordless_replaceOption (ε : Env) : (e : Option Expr) →
    WordlessNodes ((nodesOfOption (replaceOption (byWord w) ε e)).map .expr)
  | none => wordless_nil
  | some e => Expr.wordless_replace ε e

end

/-- An assignment that stays is none of a string. -/
private theorem Assign.wordless_replace (ε : Env) (a : Assign) {a' : Assign}
    (h : (some (a.replace (byWord w) ε)).filter Assign.stores = some a') : WordlessNodes a'.nodes := by
  obtain ⟨i, v⟩ := a
  obtain ⟨heq, hstores⟩ := Option.filter_eq_some_iff.1 h
  cases heq
  have hv := v.wordless_replace w ε
  simp only [Assign.stores, bne_iff_ne] at hstores
  exact wordless_cons.2 ⟨hstores, hv⟩

/-- Nor is a clause that stays. -/
private theorem clause_wordless (ε : Env) (a : Option Assign) :
    WordlessNodes (clauseNodes ((a.map (·.replace (byWord w) ε)).filter Assign.stores)) := by
  cases a with
  | none => exact wordless_nil
  | some a =>
    cases hstays : (some (a.replace (byWord w) ε)).filter Assign.stores with
    | none => simp [hstays, clauseNodes]
    | some a' =>
      rw [Option.map_some, hstays]
      exact a.wordless_replace w ε hstays

/-- Nor are the parameters of a call that stay. -/
private theorem assigns_wordless (ε : Env) (as : List Assign) :
    WordlessNodes (((replaceAssigns (byWord w) ε as).filter Assign.stores).flatMap Assign.nodes) := by
  induction as generalizing ε with
  | nil => exact wordless_nil
  | cons a as ih =>
    simp only [replaceAssigns, List.filter_cons]
    split
    case isTrue hstores =>
      exact wordless_append.2 ⟨a.wordless_replace w ε (Option.filter_eq_some_iff.2 ⟨rfl, hstores⟩), ih _⟩
    case isFalse => exact ih _

mutual

/-- Without the assignments of strings and read as texts, nothing is left of strings in a statement. -/
private theorem Stmt.wordless (ε : Env) :
    (s : Stmt) → WordlessNodes (stmtsNodes (s.replace (byWord w) ε).withoutStrings)
  -- What is in the block is free of strings already, by the induction.
  | .block b => by
    have hb := Block.wordless ε b
    simp_all [Stmt.replace, Stmt.withoutStrings, Stmt.nodes, Node.Wordless]
  | .assign a => by
    simp only [Stmt.replace, Stmt.withoutStrings]
    -- An assignment of a string is left out, and one that stays assigns none.
    cases hstays : (some (a.replace (byWord w) ε)).filter Assign.stores with
    | none => exact wordless_nil
    | some a' => simpa [stmtsNodes, Stmt.nodes] using a.wordless_replace w ε hstays
  | .eval sp e | .ret sp e => by
    have he := e.wordless_replace w ε
    simp_all [Stmt.replace, Stmt.withoutStrings, Stmt.nodes, Node.Wordless]
  | .assignMember sp t v => by
    have ht := t.wordless_replace w ε
    have hv := v.wordless_replace w ε
    simp_all [Stmt.replace, Stmt.withoutStrings, Stmt.nodes, Node.Wordless]
  | .cond sp c t none => by
    have hc := c.wordless_replace w ε
    have ht := Block.wordless ε t
    simp_all [Stmt.replace, replaceElse, Stmt.withoutStrings, elseWithoutStrings, Stmt.nodes, Node.Wordless]
  | .cond sp c t (some f) => by
    have hc := c.wordless_replace w ε
    have ht := Block.wordless ε t
    have hf := Block.wordless ε f
    simp_all [Stmt.replace, replaceElse, Stmt.withoutStrings, elseWithoutStrings, Stmt.nodes, Node.Wordless]
  | .loop sp c b => by
    have hc := c.wordless_replace w ε
    have hb := Block.wordless ε b
    simp_all [Stmt.replace, Stmt.withoutStrings, Stmt.nodes, Node.Wordless]
  | .forLoop sp i c st b => by
    -- Each clause is read behind the clauses in front of it.
    have hi := clause_wordless w ε i
    have hc := wordless_replaceOption w (clauseBehind ε i) c
    have hst := clause_wordless w (clauseBehind ε i) st
    have hb := Block.wordless (clauseBehind (clauseBehind ε i) st) b
    simp_all [Stmt.replace, Stmt.withoutStrings, Stmt.nodes, Node.Wordless]
  | .funcDef sp n ns ps b => by
    have hb := Block.wordless ε b
    simp_all [Stmt.replace, Stmt.withoutStrings, Stmt.nodes, Node.Wordless]
  | .leave _ | .code .. | .bitfieldDef .. | .enumDef .. | .require .. => by
    simp [Stmt.replace, Stmt.withoutStrings, Stmt.nodes, Node.Wordless]

/-- Nothing is left of strings in statements. -/
private theorem stmts_wordless (ε : Env) : (ss : List Stmt) →
    WordlessNodes (stmtsNodes (stmtsWithoutStrings (replaceStmts (byWord w) ε ss)))
  | [] => wordless_nil
  | s :: ss => by
    rw [replaceStmts, stmtsWithoutStrings, stmtsNodes_append]
    exact wordless_append.2 ⟨Stmt.wordless ε s, stmts_wordless _ ss⟩

/-- Nothing is left of strings in a block. -/
private theorem Block.wordless (ε : Env) :
    (b : Block) → WordlessNodes (b.replace (byWord w) ε).withoutStrings.nodes
  | .mk os ss _ => wordless_append.2 ⟨assigns_wordless w ε os, stmts_wordless _ ss⟩

end

end Wordless

/-! ## Places of expanded programs -/

/-- An assignment among the nodes of a tree is one of its acts. -/
theorem mem_acts_assign {xs : List Node} {a : Assign} (h : .stmt (.assign a) ∈ xs) : .assign a ∈ acts xs :=
  List.mem_filterMap.2 ⟨_, h, rfl⟩

/-- So is a temporary that is read. -/
private theorem mem_acts_read {xs : List Node} {i : ExprInfo} {n : Text} (h : .expr (.var i n none) ∈ xs) :
    .read n i.ty ∈ acts xs :=
  List.mem_filterMap.2 ⟨_, h, rfl⟩

section Places

variable {b : Block} {x y : Counter} {s : Site} {n : Text} {k : Nat}

/-- A temporary that is declared around a place is found there under its name, as nothing else is named like
a temporary. -/
private theorem lookup_temp
    (hb : Counted x y (acts b.nodes)) (hclear : ClearNodes b.nodes) (hs : s ∈ b.sites [])
    (hmem : (tempName k, .variable none) ∈ s.env) : s.env.lookup (tempName k) = some (.variable none) := by
  -- Something is bound to the name, since the temporary is.
  have hsome : (s.env.lookup (tempName k)).isSome = true := by
    rw [Option.isSome_iff_ne_none]
    intro hnone
    exact absurd (List.lookup_eq_none_iff.1 hnone _ hmem) (by simp)
  obtain ⟨w, hw⟩ := Option.isSome_iff_exists.1 hsome
  obtain ⟨z, hz, hbinds⟩ := Block.binds_of_mem_env hs (Env.mem_of_lookup hw)
  rw [hw]
  cases w with
  -- Members of enumerations have plain names, and a temporary has none.
  | member v =>
    have hplain : (tempName k).isPlain = true := by
      unfold Node.Binds at hbinds
      split at hbinds
      · cases (Prod.mk.inj hbinds.2).2
      · obtain ⟨m, hm, heq⟩ := hbinds
        have hplain : m.name.isPlain = true := hclear _ hz m hm
        rw [(Prod.mk.inj heq).1, hplain]
      · exact hbinds.elim
    rw [isPlain_tempName] at hplain
    cases hplain
  -- A variable with a binding was named by the program, so its name is known to it.
  | «variable» w =>
    cases w with
    | none => rfl
    | some w =>
      obtain ⟨a, rfl, hd, hname, hbinding⟩ := Node.assign_of_binds hbinds
      obtain ⟨_, hknown, _⟩ := (hb.kept a (mem_acts_assign hz) w hbinding.symm).1 hd
      exact absurd hname.symm (hknown.ne_tempName k)

end Places

/-- The places of an expanded program in which no reference is misread can be read. -/
theorem Assembled.legible {D : Dialect} (hD : D.Plain) {P : Prop} {σ τ : Scope Entry} {lo hi : Nat}
    {c : Expansion} {ss : List Stmt} (sp : Span) (h : Assembled D P false σ τ lo hi {} c ss) (hσ : Firm D lo σ)
    (hhost : ∀ n b, Reaches σ n b → b.origin = .host) (hsettled : SettledNodes (Block.mk [] ss sp).nodes)
    (hread : ∀ s ∈ (Block.mk [] ss sp).sites [], ¬s.Misread) :
    Legible (Block.mk [] ss sp).nodes (tempTy (acts (Block.mk [] ss sp).nodes)) []
      ((Block.mk [] ss sp).sites []) := by
  generalize hb : Block.mk [] ss sp = b at hsettled hread ⊢
  have hnodes : b.nodes = stmtsNodes ss := by rw [← hb]; rfl
  have hsites : b.sites [] = stmtsSites [] ss := by rw [← hb]; rfl
  -- What being assembled says of the nodes: counted bindings, temporaries in order, clear names.
  obtain ⟨_, hcounted⟩ := h.counted hD hσ
  obtain ⟨_, hordered⟩ := h.ordered
  have hclear := h.clear hD hσ
  have hsettles := (h.scoped hD hσ).settles
  rw [← hnodes] at hcounted hordered hclear
  rw [← hsites] at hsettles
  have hmem : ∀ s ∈ b.sites [], s.node ∈ b.nodes := fun s hs => by
    rw [← b.map_node_sites []]
    exact List.mem_map_of_mem hs
  have hacts : siteActs (b.sites []) = acts b.nodes := by rw [siteActs, b.map_node_sites]
  -- Where a temporary is used, its declaration has been passed.
  have hstocked : ∀ s ∈ b.sites [], ∀ n t, s.node.temp? = some n → (∃ x ∈ acts b.nodes, x.temp? = some (n, t)) →
      s.env.lookup n = some (.variable none) := by
    intro s hs n t hn hact
    obtain ⟨x, hx, ht⟩ := hact
    obtain ⟨k, _, rfl⟩ := hordered.within x hx n t ht
    exact lookup_temp hcounted hclear hs ((hsettles s hs).2 _ hn)
  -- Each site is legible for itself, temporaries are timely, and bindings are declared once.
  refine ⟨hmem, fun s hs => ?_, fun s hs => hsettled _ (hmem s hs), ?_, ?_⟩
  · obtain ⟨ε, node⟩ := s
    have hnode := hmem _ hs
    refine ⟨?_, ?_, ?_, ?_, ?_⟩
    · rintro e rfl
      exact hclear _ hnode
    -- The reference is not misread, so its name has no value of an enumeration here.
    · rintro i n w rfl hvalue
      have hname : (ε.lookup n).bind Binder.value? = none := by
        rw [← hvalue]
        exact Classical.byContradiction fun hne => hread _ hs ⟨i, n, w, rfl, hne⟩
      cases w with
      -- A reference to a temporary.
      | none =>
        have hact := mem_acts_read hnode
        refine .inl ⟨hstocked _ hs n i.ty rfl ⟨_, hact, rfl⟩, ?_⟩
        exact (hordered.tempTy_eq hact rfl).symm
      | some w =>
        obtain ⟨hty, horigin, hscript⟩ := (hclear _ hnode).2 i n w rfl
        have hvar : w.isVariable = true := Binding.isVariable_of_value? hvalue horigin
        have hlookup := Env.lookup_eq_variables hname
        -- A reference to a variable is settled, or it is one of the host, and those are no strings.
        rcases (hsettles _ hs).1 n w rfl hvar with ⟨_, hfound⟩ | ⟨_, hr, _, hnone⟩
        · exact .inl ⟨hlookup.trans hfound, hty⟩
        · refine .inr ⟨hlookup.trans hnone, fun hstring => ?_⟩
          have hhere := hscript (Option.some.inj (hty.symm.trans hstring))
          cases (hhost n w hr).symm.trans hhere
    -- A declaration has the type of its temporary or of its binding.
    · rintro a rfl hd
      have hact := mem_acts_assign hnode
      cases hbinding : a.info.binding with
      | none => exact (hordered.tempTy_eq hact (by simp [Act.temp?, hbinding])).symm
      | some w => exact ((hcounted.kept a hact w hbinding).1 hd).2.2
    -- An assignment that is marked assigns a temporary that stands declared.
    · rintro a n rfl hmark
      have hact := mem_acts_assign hnode
      have hclosed : a.info.declares = false ∧ a.info.binding = none ∧ n = a.info.name := by
        unfold Assign.mark? at hmark
        split at hmark <;> simp_all
      obtain ⟨hd, hbinding, rfl⟩ := hclosed
      have htemp : (Act.assign a).temp? = some (a.info.name, a.value.ty?) := by simp [Act.temp?, hbinding]
      refine ⟨hstocked _ hs _ _ ?_ ⟨_, hact, htemp⟩, (hordered.tempTy_eq hact htemp).symm⟩
      simp [Node.temp?, hd, hbinding]
    -- A variable that is kept is no string.
    · rintro a w rfl hd hbinding hstring
      obtain ⟨_, t, ht, hne⟩ := (hcounted.kept a (mem_acts_assign hnode) w hbinding).2 hd
      exact hne (Option.some.inj (ht.symm.trans hstring))
  · rw [hacts]
    exact hordered.timely [] fun _ _ => List.not_mem_nil
  · rw [hacts]
    exact hcounted.once

/-! ## Programs -/

/-- Where the host declares no string, no string is reached from around a program. -/
private theorem Host.entryScope_firm {D : Dialect} (hN : ∀ n ∈ Host.achronalNames, D.name n) {h : Host}
    (hh : ∀ g ∈ h.globals, g.ty.isProper = true) (hstrings : ∀ g ∈ h.globals, g.ty ≠ .string) :
    Firm D h.entryScope.2 h.entryScope.1 where
  sound := (Host.entryScope_sound hN hh).1
  fixed n b hr hb := by
    obtain ⟨_, g, hg, _, hty⟩ := h.global_of_reaches hr
    exact absurd (hty.symm.trans hb) (hstrings g hg)

/-- A program reaches what the host has. -/
theorem Host.reaches_push {h : Host} {n : Text} {b : Binding} (hr : Reaches h.entryScope.1.push n b) :
    b.origin = .host ∧ h.has n = true := by
  obtain ⟨horigin, g, hg, hname, _⟩ := h.global_of_reaches (hr.congr fun m => (Scope.lookup_push _ m).symm)
  exact ⟨horigin, List.any_eq_true.2 ⟨g, hg, beq_iff_eq.2 hname⟩⟩

/-- Expanded programs are assembled from their pieces: in an accepted program without made-up names, without
enumerations in the place of values and without loops whose step declares a variable and calls a function, for a
host without string variables. -/
theorem Block.expand_assembled {h : Host} (hh : ∀ g ∈ h.globals, g.ty.isProper = true)
    (hstrings : ∀ g ∈ h.globals, g.ty ≠ .string) {P : Prop} {program declared typed : Block}
    (hp : program.Sourced) (hd : program.declare h = (declared, none)) (ht : declared.annotate h = (typed, none))
    (hplain : ∀ n ∈ declared.identifiers, n.isPlain = true) (hfits : ∀ y ∈ typed.deep, y.Fits P) {x : Expanded}
    (hx : typed.expand = .ok x) :
    ∃ (D : Dialect) (ss : List Stmt) (τ : Scope Entry) (hi : Nat) (c : Expansion), D.Plain
      ∧ Firm D h.entryScope.2 h.entryScope.1.push ∧ x.program = .mk [] ss typed.span
      ∧ SettledNodes x.program.nodes ∧ Assembled D P false h.entryScope.1.push τ h.entryScope.2 hi {} c ss := by
  -- The names in use are plain in the dialect of the program and the host.
  have hD := Dialect.named_plain hplain
  obtain ⟨hi, hres⟩ := Block.annotate_named hh hp hd ht
  have hσ := (Host.entryScope_firm (D := .named (declared.identifiers ++ Host.achronalNames))
    -- Typing resolves the program in the scope of the host, which is firm.
    (fun n hn => List.mem_append_right _ hn) hh hstrings).push
  obtain ⟨x', hx', hsettled⟩ := Block.expand_settled hres
  cases hx.symm.trans hx'
  -- Expansion settles what was resolved, and puts pieces together.
  obtain ⟨b', c, hover, rfl⟩ := Block.expand_eq_ok.1 hx
  obtain ⟨ss, τ, hout, hassembled⟩ := Block.expandOver_assembled hD hσ.sound typed hres hfits hover
  exact ⟨_, ss, τ, hi, c, hD, hσ, hout, hsettled, hassembled⟩

/-- In an expanded program in which no reference is misread, strings are read as the texts `w` that their
variables stand for. -/
theorem Assembled.inlined {D : Dialect} (hD : D.Plain) {P : Prop} {σ τ : Scope Entry}
    {lo hi : Nat} {c : Expansion} {ss : List Stmt} (sp : Span) (h : Assembled D P false σ τ lo hi {} c ss)
    (hσ : Firm D lo σ) (hhost : ∀ n b, Reaches σ n b → b.origin = .host)
    (hsettled : SettledNodes (Block.mk [] ss sp).nodes)
    (hread : ∀ s ∈ (Block.mk [] ss sp).sites [], ¬s.Misread) :
    ∃ w, (Block.mk [] ss sp |>.replace byBinding []).substituteStrings
        = .ok ((Block.mk [] ss sp).replace (byWord w) []).withoutStrings
      ∧ ∀ i n b, .expr (.var i n b) ∈ (Block.mk [] ss sp).nodes → i.ty = some .string →
          Spells (Block.mk [] ss sp).nodes n b (w n b) := by
  have hlegible := h.legible hD sp hσ hhost hsettled hread
  obtain ⟨_, hcounted⟩ := h.counted hD hσ
  generalize hb : Block.mk [] ss sp = b at hlegible ⊢
  have hnodes : b.nodes = stmtsNodes ss := by rw [← hb]; rfl
  rw [← hnodes] at hcounted
  -- For each reference, choose the text that its variable stands for, if there is one.
  classical
  let w : Text → Option Binding → Text := fun n d => if ht : ∃ t, Spells b.nodes n d t then ht.choose else []
  have hw : ∀ n d t, Spells b.nodes n d t → w n d = t := by
    intro n d t ht
    have hsome : ∃ t, Spells b.nodes n d t := ⟨t, ht⟩
    have hchosen : w n d = hsome.choose := dif_pos hsome
    rw [hchosen]
    exact hsome.choose_spec.unique hcounted ht
  -- The pass spells all references the same way, by the invariant on constants.
  obtain ⟨hspelled, cs, hresult, _⟩ := Block.absorbs hw b Constants.Spell.empty hlegible
  refine ⟨w, ?_, fun i n d hmem hty => ?_⟩
  · rw [Block.substituteStrings]
    simp only [List.flatten_cons, List.flatten_nil, List.append_nil] at hresult
    rw [hresult]
    rfl
  -- Each reference stands at some site, and what it was spelled as there is its text.
  · rw [← b.map_node_sites []] at hmem
    obtain ⟨s, hs, hnode⟩ := List.mem_map.1 hmem
    obtain ⟨t, ht⟩ := hspelled s hs i n d hnode hty
    rw [hw n d t ht]
    exact ht

/-- Strings are inlined completely and correctly.  In an accepted program without made-up names, without
enumerations in the place of values and without loops whose step declares a variable and calls a function,
for a host without string variables: if no reference of the expanded program is misread, it is lowered to a
tree without string variables and without assignments of strings.  It is the expanded program with every
string variable read as a text, and this text is what the variable stands for. -/
theorem Block.lower_strings {h : Host} (hh : ∀ g ∈ h.globals, g.ty.isProper = true)
    (hstrings : ∀ g ∈ h.globals, g.ty ≠ .string) {program declared typed : Block} (hp : program.Sourced)
    (hd : program.declare h = (declared, none)) (ht : declared.annotate h = (typed, none))
    (hplain : ∀ n ∈ declared.identifiers, n.isPlain = true) (hsteady : ∀ y ∈ typed.deep, y.Steady)
    (hvalued : ∀ y ∈ typed.deep, y.Valued) :
    ∃ x, typed.expand = .ok x ∧ ((∀ s ∈ x.program.sites [], ¬s.Misread) →
      ∃ w lowered, typed.lower = .ok lowered ∧ lowered = (x.program.replace (byWord w) []).withoutStrings
        ∧ WordlessNodes lowered.nodes
        ∧ ∀ i n b, .expr (.var i n b) ∈ x.program.nodes → i.ty = some .string →
            Spells x.program.nodes n b (w n b)) := by
  -- Enumerations are substituted correctly, so the second pass reads the expanded program.
  obtain ⟨x, enums, hx, henums, hagrees⟩ := Block.substituteEnums_agrees_iff hh hp ⟨declared, hd, ht⟩
  refine ⟨x, hx, fun hread => ?_⟩
  have heq := hagrees.2 hread
  have hlower : typed.lower = enums.substituteStrings := by
    simp only [Block.lower, hx, henums, bind, Except.bind]
  -- No loop needs to fold its step here, so the condition on it is empty.
  have hfits : ∀ y ∈ typed.deep, y.Fits False := fun y hy => ⟨hsteady y hy, hvalued y hy, False.elim⟩
  obtain ⟨D, ss, _, _, _, hD, hσ, hout, hsettled, hassembled⟩ :=
    Block.expand_assembled hh hstrings hp hd ht hplain hfits hx
  rw [hout] at hread hsettled heq ⊢
  obtain ⟨w, hresult, hspells⟩ :=
    hassembled.inlined hD typed.span hσ (fun n b hr => (h.reaches_push hr).1) hsettled hread
  rw [← heq] at hresult
  exact ⟨w, _, hlower.trans hresult, rfl, Block.wordless w [] _, hspells⟩

/-- Whether a loop is steady can be computed. -/
instance : DecidablePred Node.Steady
  | .stmt (.forLoop _ _ _ (some a) _) =>
    inferInstanceAs (Decidable (a.value.hasScriptCall = true → a.info.declares = false))
  | .stmt (.forLoop _ _ _ none _) | .stmt (.block _) | .stmt (.assign _) | .stmt (.eval ..)
  | .stmt (.assignMember ..) | .stmt (.cond ..) | .stmt (.loop ..) | .stmt (.ret ..) | .stmt (.funcDef ..)
  | .stmt (.leave _) | .stmt (.code ..) | .stmt (.bitfieldDef ..) | .stmt (.enumDef ..)
  | .stmt (.require ..) | .expr _ => inferInstanceAs (Decidable True)

/-- Whether a reference is to a value can be computed. -/
instance : DecidablePred Node.Valued
  | .expr (.var _ _ (some b)) => inferInstanceAs (Decidable (b.origin ≠ .enumeration))
  | .expr (.var _ _ none) | .expr (.const ..) | .expr (.binary ..) | .expr (.unary ..) | .expr (.call ..)
  | .expr (.member ..) | .expr (.query ..) | .stmt _ => inferInstanceAs (Decidable True)

/-- `x = "a" def f(s) return s end y = f(x) say(y)`: a string that is passed to a function and returned. -/
def passedOn : Block :=
  .mk [] [.assign (.make "x" (.literal (.string "a") {}) false {}),
    .funcDef {} "f" {} [⟨"s", {}⟩] (.mk [] [.ret {} (.name "s" {})] {}),
    .assign (.make "y" (.apply "f" {} [.name "x" {}] {}) false {}),
    .eval {} (.apply "say" {} [.name "y" {}] {})] {}

/-- No reference to it is misread, so it is said as it is. -/
theorem passedOn_inlined :
    let typed := ((passedOn.declare .default).1.annotate .default).1
    ∃ x, typed.expand = .ok x ∧ (∀ s ∈ x.program.sites [], ¬s.Misread)
      ∧ ∃ w lowered, typed.lower = .ok lowered ∧ lowered = (x.program.replace (byWord w) []).withoutStrings
        ∧ WordlessNodes lowered.nodes
        ∧ ∀ i n b, .expr (.var i n b) ∈ x.program.nodes → i.ty = some .string →
            Spells x.program.nodes n b (w n b) := by
  intro typed
  -- No reference is misread, by evaluation.
  have hread : (typed.expand.map fun x => decide (∀ s ∈ x.program.sites [], ¬s.Misread)) = .ok true := by
    decide +kernel
  obtain ⟨x, hx, hlowered⟩ := @Block.lower_strings .default (by decide) (by decide) passedOn _ typed (by
      simp [passedOn, Block.Sourced, Block.Marked, MarkedStmts, Stmt.Marked, Assign.Marked, Assign.make,
        Expr.Bare, Expr.literal, Expr.name, Expr.apply, Expr.nodes, nodesOfList, Expr.IsBare, Dialect.full,
        Literal.ty])
    (Block.declare_eq_of_none (by decide +kernel)) (Block.annotate_eq_of_none (by decide +kernel))
    (by decide +kernel) (by decide +kernel) (by decide +kernel)
  rw [hx] at hread
  have hnone := of_decide_eq_true (Except.ok.inj hread)
  exact ⟨x, hx, hnone, hlowered hnone⟩

end AisScript
