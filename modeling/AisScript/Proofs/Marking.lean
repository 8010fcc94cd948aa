import AisScript.Declare
import AisScript.Tree.Walk
import AisScript.Proofs.Scope

/-!
# Marked trees

What the passes behind the parser may rely on.  A tree is *marked* against the names that are seen
around it when every assignment that declares uses a name not seen so far, every literal knows its
type, nothing is bound yet, and returns only end the bodies of functions.  Where every name is seen
nothing can declare, so marked against all names is what a tree is before its declarations are
looked for.

A `Dialect` limits what a tree may hold; statements about part of the language are made by naming
the dialect.

* `Stmt.Marked`, `Block.Marked`   the predicate, over the names seen
* `Block.Sourced`                 trees before their declarations are marked
* `Block.declare_marked`          the declaration pass never fails on them and marks them
* `Block.Marked.within`           a marked tree whose nodes keep to a dialect is marked in it
-/

namespace AisScript

/-! ## The predicates -/

/-- What a tree may hold. -/
structure Dialect where
  /-- The names that variables and members of enumerations may have. -/
  name : Text → Prop
  /-- Whether enumerations may be defined. -/
  enums : Prop
  /-- Whether the step of a loop may declare its variable. -/
  steps : Prop
  /-- Whether requires may be left. -/
  requires : Prop

/-- Everything the parser can build. -/
def Dialect.source : Dialect := ⟨fun _ => True, True, True, True⟩

/-- Everything that is left when requires are resolved. -/
def Dialect.full : Dialect := ⟨fun _ => True, True, True, False⟩

/-- What is known of a single expression in a tree that is not typed: a literal has its type, and no
call is resolved. -/
def Expr.IsBare (D : Dialect) : Expr → Prop
  | .const i v => i.ty = some v.ty
  | .var _ n _ => D.name n
  | .call _ _ _ _ t => t = .unresolved
  | _ => True

/-- An expression in a tree that is not typed. -/
def Expr.Bare (D : Dialect) (e : Expr) : Prop := ∀ x ∈ e.nodes, x.IsBare D

/-- An expression that may be absent. -/
def BareOption (D : Dialect) (e : Option Expr) : Prop := ∀ x ∈ nodesOfOption e, x.IsBare D

/-- Whether an expression is a dotted member of a name, the only thing but a name that can be assigned
to. -/
def Expr.isNamedMember : Expr → Bool
  | .member _ .dotted (.var _ _ _) _ _ => true
  | _ => false

/-- What an assignment to a member assigns to. -/
theorem Expr.eq_of_isNamedMember {e : Expr} (h : e.isNamedMember = true) :
    ∃ i vi n b m ms, e = .member i .dotted (.var vi n b) m ms := by
  unfold Expr.isNamedMember at h
  split at h
  · exact ⟨_, _, _, _, _, _, rfl⟩
  · exact nomatch h

/-- The names seen behind an assignment. -/
def Assign.seenBehind (seen : Text → Prop) (a : Assign) (n : Text) : Prop :=
  seen n ∨ (a.info.declares = true ∧ n = a.info.name)

/-- The names seen behind a clause that may be absent. -/
def clauseSeenBehind (seen : Text → Prop) : Option Assign → Text → Prop
  | none => seen
  | some a => a.seenBehind seen

/-- The names seen behind a statement. -/
def Stmt.seenBehind (seen : Text → Prop) : Stmt → Text → Prop
  | .assign a => a.seenBehind seen
  | .funcDef _ f _ _ _ => fun n => seen n ∨ n = f
  | .bitfieldDef _ d => fun n => seen n ∨ n = d.name
  | .enumDef _ d => fun n => seen n ∨ n = d.name ∨ ∃ m ∈ d.members, n = m.name
  | _ => seen

/-- The names seen in the body of a function. -/
def seenInBody (seen : Text → Prop) (params : List Param) (n : Text) : Prop :=
  seen n ∨ ∃ p ∈ params, n = p.name

/-- An assignment that binds no parameter and declares only names not seen yet. -/
def Assign.Marked (D : Dialect) (seen : Text → Prop) : Assign → Prop
  | .mk i v =>
    i.binds = false ∧ D.name i.name ∧ (i.declares = true → ¬ seen i.name) ∧ v.Bare D

/-- A clause that may be absent. -/
def MarkedClause (D : Dialect) (seen : Text → Prop) : Option Assign → Prop
  | none => True
  | some a => a.Marked D seen

mutual

/-- A statement marked against the names seen in front of it.  Only the last statement of a function's
body may be a return. -/
def Stmt.Marked (D : Dialect) (seen : Text → Prop) (last : Bool) : Stmt → Prop
  | .block b => b.Marked D seen false
  | .eval _ e => e.Bare D
  | .assign a => a.Marked D seen
  | .assignMember _ t v => t.isNamedMember = true ∧ t.Bare D ∧ v.Bare D
  | .cond _ c t f => c.Bare D ∧ t.Marked D seen false ∧ MarkedElse D seen f
  | .loop _ c b => c.Bare D ∧ b.Marked D seen false
  | .forLoop _ i c st b =>
    MarkedClause D seen i ∧ BareOption D c ∧ MarkedClause D (clauseSeenBehind seen i) st
      ∧ (∀ a, st = some a → a.info.declares = true → D.steps)
      ∧ b.Marked D (clauseSeenBehind (clauseSeenBehind seen i) st) false
  | .ret _ v => last = true ∧ v.Bare D
  | .leave _ | .code _ _ | .bitfieldDef _ _ => True
  | .enumDef _ d => D.enums ∧ ∀ m ∈ d.members, D.name m.name
  | .funcDef _ f _ ps b =>
    (∀ p ∈ ps, D.name p.name) ∧ b.Marked D (seenInBody (fun n => seen n ∨ n = f) ps) true
  | .require _ _ => D.requires

/-- Statements marked in order. -/
def MarkedStmts (D : Dialect) (seen : Text → Prop) (last : Bool) : List Stmt → Prop
  | [] => True
  | s :: ss => s.Marked D seen (last && ss.isEmpty) ∧ MarkedStmts D (s.seenBehind seen) last ss

/-- A block marked against the names seen around it; it has no overrides. -/
def Block.Marked (D : Dialect) (seen : Text → Prop) (last : Bool) : Block → Prop
  | .mk os ss _ => os = [] ∧ MarkedStmts D seen last ss

/-- An else block that may be absent. -/
def MarkedElse (D : Dialect) (seen : Text → Prop) : Option Block → Prop
  | none => True
  | some b => b.Marked D seen false

end

/-- A tree before its declarations are marked: against all names, nothing can declare. -/
def Block.Sourced (b : Block) : Prop := b.Marked .full (fun _ => True) false

/-! ## Fewer names seen -/

/-- Seeing fewer names keeps what is seen behind an assignment in the same order. -/
theorem clauseSeenBehind_mono {seen seen' : Text → Prop} (h : ∀ n, seen' n → seen n)
    (a : Option Assign) (n : Text) (hn : clauseSeenBehind seen' a n) : clauseSeenBehind seen a n := by
  cases a with
  | none => exact h n hn
  | some a => exact hn.imp_left (h n)

/-- Seeing fewer names keeps what is seen behind a statement in the same order. -/
private theorem Stmt.seenBehind_mono {seen seen' : Text → Prop} (h : ∀ n, seen' n → seen n) (s : Stmt)
    (n : Text) (hn : s.seenBehind seen' n) : s.seenBehind seen n := by
  cases s with
  | assign a => exact hn.imp_left (h n)
  | funcDef _ f _ _ _ => exact hn.imp_left (h n)
  | bitfieldDef _ d => exact hn.imp_left (h n)
  | enumDef _ d => exact hn.imp_left (h n)
  | _ => exact h n hn

/-- Where all names are seen, they are seen behind a clause. -/
theorem clauseSeenBehind_all (a : Option Assign) (n : Text) :
    clauseSeenBehind (fun _ => True) a n := by
  cases a with
  | none => trivial
  | some a => exact .inl trivial

/-- Where all names are seen, they are seen behind a loop header. -/
theorem headerSeenBehind_all (i st : Option Assign) (n : Text) :
    clauseSeenBehind (clauseSeenBehind (fun _ => True) i) st n :=
  clauseSeenBehind_mono (fun m _ => clauseSeenBehind_all i m) st n (clauseSeenBehind_all st n)

/-- Where all names are seen, they are seen behind a statement. -/
theorem Stmt.seenBehind_all (s : Stmt) (n : Text) : s.seenBehind (fun _ => True) n := by
  cases s with
  | assign a => exact .inl trivial
  | funcDef _ f _ _ _ => exact .inl trivial
  | bitfieldDef _ d => exact .inl trivial
  | enumDef _ d => exact .inl trivial
  | _ => trivial

/-- An assignment stays marked when fewer names are seen. -/
private theorem Assign.Marked.mono {D : Dialect} {seen seen' : Text → Prop} (h : ∀ n, seen' n → seen n)
    {a : Assign} (ha : a.Marked D seen) : a.Marked D seen' := by
  obtain ⟨i, v⟩ := a
  obtain ⟨hb, hn, hd, hv⟩ := ha
  exact ⟨hb, hn, fun hdec hs => hd hdec (h _ hs), hv⟩

/-- A clause stays marked when fewer names are seen. -/
theorem MarkedClause.mono {D : Dialect} {seen seen' : Text → Prop} (h : ∀ n, seen' n → seen n)
    {a : Option Assign} (ha : MarkedClause D seen a) : MarkedClause D seen' a := by
  cases a with
  | none => trivial
  | some a => exact Assign.Marked.mono h ha

mutual

/-- A statement stays marked when fewer names are seen. -/
private theorem Stmt.Marked.mono {D : Dialect} {seen seen' : Text → Prop} {last : Bool}
    (h : ∀ n, seen' n → seen n) : (s : Stmt) → s.Marked D seen last → s.Marked D seen' last
  | .block b, hs => Block.Marked.mono h b hs
  | .eval _ _, hs => hs
  | .assign _, hs => Assign.Marked.mono h hs
  | .assignMember _ _ _, hs => hs
  -- Branches and bodies see what is seen around them.
  | .cond _ _ t f, ⟨hc, ht, hf⟩ => ⟨hc, Block.Marked.mono h t ht, MarkedElse.mono h f hf⟩
  | .loop _ _ b, ⟨hc, hb⟩ => ⟨hc, Block.Marked.mono h b hb⟩
  | .forLoop _ i _ st b, ⟨hi, hc, hst, hd, hb⟩ =>
    -- What is seen behind the clauses grows with what is seen in front of them.
    have hi' := clauseSeenBehind_mono h i
    ⟨MarkedClause.mono h hi, hc, MarkedClause.mono hi' hst, hd,
      Block.Marked.mono (clauseSeenBehind_mono hi' st) b hb⟩
  | .ret _ _, hs => hs
  | .leave _, hs | .code _ _, hs | .bitfieldDef _ _, hs | .enumDef _ _, hs | .require _ _, hs => hs
  | .funcDef _ _ _ _ b, ⟨hp, hb⟩ =>
    -- The parameters and the function itself are seen in any case.
    ⟨hp, Block.Marked.mono (fun n hn => hn.imp_left (Or.imp_left (h n))) b hb⟩

/-- Statements stay marked when fewer names are seen. -/
theorem MarkedStmts.mono {D : Dialect} {seen seen' : Text → Prop} {last : Bool}
    (h : ∀ n, seen' n → seen n) : (ss : List Stmt) → MarkedStmts D seen last ss →
      MarkedStmts D seen' last ss
  | [], _ => trivial
  | s :: ss, ⟨hs, hss⟩ =>
    ⟨Stmt.Marked.mono h s hs, MarkedStmts.mono (Stmt.seenBehind_mono h s) ss hss⟩

/-- A block stays marked when fewer names are seen. -/
theorem Block.Marked.mono {D : Dialect} {seen seen' : Text → Prop} {last : Bool}
    (h : ∀ n, seen' n → seen n) : (b : Block) → b.Marked D seen last → b.Marked D seen' last
  | .mk _ ss _, ⟨ho, hss⟩ => ⟨ho, MarkedStmts.mono h ss hss⟩

/-- An else block stays marked when fewer names are seen. -/
private theorem MarkedElse.mono {D : Dialect} {seen seen' : Text → Prop}
    (h : ∀ n, seen' n → seen n) : (b : Option Block) → MarkedElse D seen b → MarkedElse D seen' b
  | none, _ => trivial
  | some b, hb => Block.Marked.mono h b hb

end

/-- What may stand anywhere may stand last. -/
theorem Stmt.Marked.allow {D : Dialect} {seen : Text → Prop} {last : Bool} {s : Stmt}
    (h : s.Marked D seen false) : s.Marked D seen last := by
  cases s with
  | ret _ _ => exact nomatch h.1
  | _ => exact h

/-! ## The declaration pass -/

/-- The names a scope shows. -/
def Scope.Shows {α : Type} (s : Scope α) (n : Text) : Prop := (s.lookup n).isSome = true

/-- An opened block shows the same names. -/
@[simp] theorem Scope.shows_push {α : Type} (s : Scope α) : s.push.Shows = s.Shows := by
  funext n
  simp only [Shows, lookup_push]

/-- A shown name stays shown behind a definition. -/
theorem Scope.Shows.define {α : Type} {s : Scope α} {n : Text} (h : s.Shows n) (m : Text) (v : α) :
    (s.define m v).Shows n :=
  s.isSome_lookup_define v h

/-- A defined name is shown. -/
theorem Scope.shows_define_self {α : Type} (s : Scope α) (n : Text) (v : α) :
    (s.define n v).Shows n := by
  simp only [Shows, lookup_define_self, Option.isSome_some]

/-- Defining the names of a list shows them, and hides nothing that was shown. -/
theorem shows_foldl_define {α : Type} (name : α → Text) (xs : List α) (s : Scope Unit) (n : Text)
    (h : s.Shows n ∨ ∃ x ∈ xs, n = name x) :
    (xs.foldl (fun sc x => sc.define (name x) ()) s).Shows n := by
  induction xs generalizing s with
  | nil => exact h.resolve_right (fun ⟨_, hx, _⟩ => nomatch hx)
  | cons x xs ih =>
    refine ih (s.define (name x) ()) ?_
    rcases h with h | ⟨y, hy, rfl⟩
    · exact .inl (h.define _ _)
    · rcases List.mem_cons.1 hy with rfl | hy
      · exact .inl (s.shows_define_self _ _)
      · exact .inr ⟨y, hy, rfl⟩

/-- Marking an assignment: it declares exactly when its name is not shown. -/
private theorem Assign.declare_marked {names : Scope Unit} {a : Assign}
    (h : a.Marked .full (fun _ => True)) :
    (a.declare names).1.Marked .full names.Shows
      ∧ ∀ n, (a.declare names).1.seenBehind names.Shows n → (a.declare names).2.Shows n := by
  obtain ⟨i, v⟩ := a
  obtain ⟨hb, hn, hd, hv⟩ := h
  -- In a program as it was parsed, nothing declares.
  have hfalse : i.declares = false := by
    cases hi : i.declares with
    | false => rfl
    | true => exact absurd trivial (hd hi)
  simp only [Assign.declare, hfalse, Bool.false_or]
  -- Is the name shown?
  split
  -- It is not, so the assignment declares it and shows it from now on.
  case isTrue hnone =>
    refine ⟨⟨hb, hn, fun _ hs => ?_, hv⟩, fun n hs => ?_⟩
    · rw [Scope.Shows, Option.isSome_iff_ne_none] at hs
      exact hs (Option.isNone_iff_eq_none.1 hnone)
    · rcases hs with hs | ⟨_, rfl⟩
      · exact hs.define _ _
      · exact names.shows_define_self _ _
  -- It is, so nothing is declared.
  case isFalse hsome =>
    refine ⟨⟨hb, hn, fun hdec => ?_, hv⟩, fun n hs => ?_⟩
    · rw [hfalse] at hdec
      exact nomatch hdec
    · rcases hs with hs | ⟨hdec, _⟩
      · exact hs
      · simp only [Assign.info, hfalse] at hdec
        exact nomatch hdec

/-- Marking a clause that may be absent. -/
private theorem declareClause_marked (names : Scope Unit) {a : Option Assign}
    (h : MarkedClause .full (fun _ => True) a) :
    MarkedClause .full names.Shows (declareClause names a).1
      ∧ ∀ n, clauseSeenBehind names.Shows (declareClause names a).1 n →
          (declareClause names a).2.Shows n := by
  cases a with
  | none => exact ⟨trivial, fun _ hn => hn⟩
  | some a => exact Assign.declare_marked h

/-- Marking keeps the number of statements. -/
private theorem declareStmts_isEmpty (names : Scope Unit) (ss : List Stmt) :
    (declareStmts names ss).tree.isEmpty = ss.isEmpty := by
  cases ss with
  | nil => rfl
  | cons s ss =>
    simp only [declareStmts]
    split <;> rfl

mutual

/-- Marking a statement: no fault, a statement marked against the names shown in front of it, and
behind it every name it shows. -/
theorem Stmt.declare_marked {last : Bool} (names : Scope Unit) : (s : Stmt) →
    s.Marked .full (fun _ => True) last →
      (s.declare names).fault = none ∧ (s.declare names).tree.Marked .full names.Shows last
        ∧ ∀ n, (s.declare names).tree.seenBehind names.Shows n → (s.declare names).names.Shows n
  | .block b, h => by
    -- A block is declared in a frame of its own.
    obtain ⟨hf, hb⟩ := Block.declareIn_marked names.push b h
    rw [Scope.shows_push] at hb
    exact ⟨hf, hb, fun _ hn => hn⟩
  | .eval _ _, h => ⟨rfl, h, fun _ hn => hn⟩
  | .assign _, h => ⟨rfl, Assign.declare_marked h⟩
  | .assignMember _ _ _, h => ⟨rfl, h, fun _ hn => hn⟩
  | .cond _ c t f, ⟨hc, ht, hf⟩ => by
    -- Each branch is declared against the names in front of the statement.
    obtain ⟨hft, ht⟩ := Block.declareIn_marked names.push t ht
    obtain ⟨hff, hf⟩ := declareOption_marked names f hf
    rw [Scope.shows_push] at ht
    simp only [Stmt.declare, hft]
    exact ⟨hff, ⟨hc, ht, hf⟩, fun _ hn => hn⟩
  | .loop _ c b, ⟨hc, hb⟩ => by
    obtain ⟨hf, hb⟩ := Block.declareIn_marked names.push b hb
    rw [Scope.shows_push] at hb
    exact ⟨hf, ⟨hc, hb⟩, fun _ hn => hn⟩
  | .forLoop _ i c st b, ⟨hi, hc, hst, _, hb⟩ => by
    -- The clauses share a frame of their own, and the body is marked behind both of them.
    -- The names that a clause shows are seen behind it.
    obtain ⟨hi, hin⟩ := declareClause_marked names.push hi
    rw [Scope.shows_push] at hi hin
    obtain ⟨hst, hstn⟩ := declareClause_marked (declareClause names.push i).2
      (MarkedClause.mono (fun n _ => clauseSeenBehind_all i n) hst)
    obtain ⟨hf, hb⟩ := Block.declareIn_marked
      (declareClause (declareClause names.push i).2 st).2.push b
      (Block.Marked.mono (fun n _ => headerSeenBehind_all i st n) b hb)
    rw [Scope.shows_push] at hb
    -- What the body sees is shown behind the clauses.
    have hshown : ∀ n, clauseSeenBehind (clauseSeenBehind names.Shows (declareClause names.push i).1)
        (declareClause (declareClause names.push i).2 st).1 n →
          (declareClause (declareClause names.push i).2 st).2.Shows n :=
      fun n hn => hstn n (clauseSeenBehind_mono hin _ n hn)
    exact ⟨hf, ⟨hi, hc, MarkedClause.mono hin hst, fun _ _ _ => trivial,
      Block.Marked.mono hshown _ hb⟩, fun _ hn => hn⟩
  | .ret _ _, h => ⟨rfl, h, fun _ hn => hn⟩
  | .leave _, h | .code _ _, h => ⟨rfl, h, fun _ hn => hn⟩
  | .bitfieldDef _ d, h => by
    -- The name of the type is shown from now on.
    refine ⟨rfl, h, fun n hn => ?_⟩
    rcases hn with hn | rfl
    · exact hn.define _ _
    · exact names.shows_define_self _ _
  | .enumDef _ d, h => by
    -- The members are shown behind the name of their enumeration.
    refine ⟨rfl, h, fun n hn => shows_foldl_define EnumMember.name d.members _ n ?_⟩
    rcases hn with hn | rfl | hn
    · exact .inl (hn.define _ _)
    · exact .inl (names.shows_define_self _ _)
    · exact .inr hn
  | .funcDef _ f _ ps b, ⟨hp, hb⟩ => by
    -- The body sees the function, its parameters and what is shown around it.
    obtain ⟨hf, hb⟩ := Block.declareIn_marked
      (ps.foldl (fun sc p => sc.define p.name ()) (names.define f ()).push) b
      (Block.Marked.mono (fun _ _ => .inl (.inl trivial)) b hb)
    refine ⟨hf, ⟨hp, Block.Marked.mono (fun n hn => ?_) _ hb⟩, fun n hn => ?_⟩
    · refine shows_foldl_define Param.name ps _ n (hn.imp_left fun hn => ?_)
      rw [Scope.shows_push]
      rcases hn with hn | rfl
      · exact hn.define _ _
      · exact names.shows_define_self _ _
    -- Behind the definition, its name is shown.
    · rcases hn with hn | rfl
      · exact hn.define _ _
      · exact names.shows_define_self _ _
  | .require _ _, h => h.elim

/-- Marking statements in order. -/
private theorem declareStmts_marked {last : Bool} (names : Scope Unit) : (ss : List Stmt) →
    MarkedStmts .full (fun _ => True) last ss →
      (declareStmts names ss).fault = none
        ∧ MarkedStmts .full names.Shows last (declareStmts names ss).tree
  | [], _ => ⟨rfl, trivial⟩
  | s :: ss, ⟨hs, hss⟩ => by
    obtain ⟨hf, hs, hn⟩ := Stmt.declare_marked names s hs
    obtain ⟨hfs, hss⟩ := declareStmts_marked (s.declare names).names ss
      (MarkedStmts.mono (fun n _ => s.seenBehind_all n) ss hss)
    simp only [declareStmts, hf]
    refine ⟨hfs, ?_, MarkedStmts.mono hn _ hss⟩
    rw [declareStmts_isEmpty]
    exact hs

/-- Marking a block in an open frame. -/
theorem Block.declareIn_marked {last : Bool} (names : Scope Unit) : (b : Block) →
    b.Marked .full (fun _ => True) last →
      (b.declareIn names).fault = none ∧ (b.declareIn names).tree.Marked .full names.Shows last
  | .mk os ss _, ⟨ho, hss⟩ => by
    obtain ⟨hf, hss⟩ := declareStmts_marked names ss hss
    subst ho
    exact ⟨hf, rfl, hss⟩

/-- Marking an else block that may be absent. -/
private theorem declareOption_marked (names : Scope Unit) : (b : Option Block) →
    MarkedElse .full (fun _ => True) b →
      (declareOption names b).fault = none ∧ MarkedElse .full names.Shows (declareOption names b).tree
  | none, _ => ⟨rfl, trivial⟩
  | some b, h => by
    obtain ⟨hf, hb⟩ := Block.declareIn_marked names.push b h
    rw [Scope.shows_push] at hb
    exact ⟨hf, hb⟩

end

/-- The declaration pass never fails on a tree without requires, and it marks the tree against the
names that the host takes. -/
theorem Block.declare_marked {b : Block} (h : Host) (hb : b.Sourced) :
    (b.declare h).2 = none ∧ (b.declare h).1.Marked .full h.nameScope.Shows false := by
  obtain ⟨hf, hb⟩ := Block.declareIn_marked h.nameScope.push b hb
  rw [Scope.shows_push] at hb
  exact ⟨hf, hb⟩

/-- Declarations without a fault give their tree alone. -/
theorem Block.declare_eq_of_none {h : Host} {b : Block} (hnone : (b.declare h).2 = none) :
    b.declare h = ((b.declare h).1, none) :=
  Prod.ext rfl hnone

/-! ## Dialects -/

/-- Whether a node keeps to a dialect. -/
def Node.Within (D : Dialect) : Node → Prop
  | .expr (.var _ n _) => D.name n
  | .stmt (.assign a) => D.name a.info.name
  | .stmt (.funcDef _ _ _ ps _) => ∀ p ∈ ps, D.name p.name
  | .stmt (.enumDef _ d) => D.enums ∧ ∀ m ∈ d.members, D.name m.name
  | .stmt (.forLoop _ _ _ (some a) _) => a.info.declares = true → D.steps
  | _ => True

/-- An expression whose nodes keep to a dialect is bare in it. -/
private theorem Expr.Bare.within {D : Dialect} {e : Expr} (h : e.Bare .full)
    (hw : ∀ x ∈ exprNodes e, x.Within D) : e.Bare D := by
  intro x hx
  have hb := h x hx
  have hn := hw (.expr x) (List.mem_map_of_mem hx)
  cases x with
  | var i n b => exact hn
  | _ => exact hb

/-- An assignment whose nodes keep to a dialect is marked in it. -/
private theorem Assign.Marked.within {D : Dialect} {seen : Text → Prop} {a : Assign}
    (h : a.Marked .full seen) (hw : ∀ x ∈ a.nodes, x.Within D) : a.Marked D seen := by
  obtain ⟨i, v⟩ := a
  obtain ⟨hb, _, hd, hv⟩ := h
  obtain ⟨hn, hw⟩ := List.forall_mem_cons.1 hw
  exact ⟨hb, hn, hd, hv.within hw⟩

/-- A clause whose nodes keep to a dialect is marked in it. -/
private theorem MarkedClause.within {D : Dialect} {seen : Text → Prop} {a : Option Assign}
    (h : MarkedClause .full seen a) (hw : ∀ x ∈ clauseNodes a, x.Within D) : MarkedClause D seen a := by
  cases a with
  | none => trivial
  | some a => exact Assign.Marked.within h hw

mutual

/-- A statement whose nodes keep to a dialect is marked in it. -/
private theorem Stmt.Marked.within {D : Dialect} {seen : Text → Prop} {last : Bool} : (s : Stmt) →
    s.Marked .full seen last → (∀ x ∈ s.nodes, x.Within D) → s.Marked D seen last
  | .block b, h, hw => by
    -- The nodes of the statement are those of its parts.
    simp only [Stmt.nodes, List.forall_mem_cons] at hw
    exact Block.Marked.within b h hw.2
  | .eval _ _, h, hw => by
    simp only [Stmt.nodes, List.forall_mem_cons] at hw
    exact Expr.Bare.within h hw.2
  | .assign _, h, hw => Assign.Marked.within h hw
  | .assignMember _ _ _, ⟨hm, ht, hv⟩, hw => by
    simp only [Stmt.nodes, List.forall_mem_cons, List.forall_mem_append] at hw
    exact ⟨hm, ht.within hw.2.1, hv.within hw.2.2⟩
  | .cond _ _ t none, ⟨hc, ht, hf⟩, hw => by
    simp only [Stmt.nodes, List.forall_mem_cons, List.forall_mem_append] at hw
    exact ⟨hc.within hw.2.1, Block.Marked.within t ht hw.2.2, trivial⟩
  | .cond _ _ t (some f), ⟨hc, ht, hf⟩, hw => by
    simp only [Stmt.nodes, List.forall_mem_cons, List.forall_mem_append] at hw
    exact ⟨hc.within hw.2.1.1, Block.Marked.within t ht hw.2.1.2, Block.Marked.within f hf hw.2.2⟩
  | .loop _ _ b, ⟨hc, hb⟩, hw => by
    simp only [Stmt.nodes, List.forall_mem_cons, List.forall_mem_append] at hw
    exact ⟨hc.within hw.2.1, Block.Marked.within b hb hw.2.2⟩
  | .forLoop _ _ c st b, ⟨hi, hc, hst, _, hb⟩, hw => by
    simp only [Stmt.nodes, List.forall_mem_cons, List.forall_mem_append] at hw
    obtain ⟨hw, ⟨⟨hwc, hwi⟩, hwst⟩, hwb⟩ := hw
    refine ⟨hi.within hwi, ?_, hst.within hwst, ?_, Block.Marked.within b hb hwb⟩
    -- The test may be absent.
    · cases c with
      | none => exact fun _ hx => nomatch hx
      | some c => exact Expr.Bare.within hc hwc
    -- A loop whose step declares is kept out of the dialect by its own node.
    · rintro a rfl hd
      exact hw hd
  | .ret _ _, ⟨hl, hv⟩, hw => by
    simp only [Stmt.nodes, List.forall_mem_cons] at hw
    exact ⟨hl, hv.within hw.2⟩
  | .leave _, h, _ | .code _ _, h, _ | .bitfieldDef _ _, h, _ => h
  -- The definition is a node of its own.
  | .enumDef _ _, _, hw => hw _ (List.mem_singleton.2 rfl)
  | .funcDef _ _ _ _ b, ⟨_, hb⟩, hw => by
    simp only [Stmt.nodes, List.forall_mem_cons] at hw
    -- The nodes of a function are those of its body, and its own node.
    exact ⟨hw.1, Block.Marked.within b hb hw.2⟩
  | .require _ _, h, _ => h.elim

/-- Statements whose nodes keep to a dialect are marked in it. -/
private theorem MarkedStmts.within {D : Dialect} {seen : Text → Prop} {last : Bool} :
    (ss : List Stmt) → MarkedStmts .full seen last ss → (∀ x ∈ stmtsNodes ss, x.Within D) →
      MarkedStmts D seen last ss
  | [], _, _ => trivial
  | s :: ss, ⟨hs, hss⟩, hw => by
    simp only [stmtsNodes, List.forall_mem_append] at hw
    exact ⟨Stmt.Marked.within s hs hw.1, MarkedStmts.within ss hss hw.2⟩

/-- A marked block whose nodes keep to a dialect is marked in it. -/
theorem Block.Marked.within {D : Dialect} {seen : Text → Prop} {last : Bool} : (b : Block) →
    b.Marked .full seen last → (∀ x ∈ b.nodes, x.Within D) → b.Marked D seen last
  | .mk _ ss _, ⟨ho, hss⟩, hw => by
    simp only [Block.nodes, List.forall_mem_append] at hw
    exact ⟨ho, MarkedStmts.within ss hss hw.2⟩

end

end AisScript
