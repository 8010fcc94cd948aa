import AisScript.Proofs.Outcomes

/-!
# What the two passes see

The declaration pass and typing keep scopes of their own.  The first walks the body of a function once,
where the function is defined; the second walks it for every call, in a snapshot of the scope in which
the function was defined and behind the bindings of the call's arguments.  Both are described as walks
over the same places of a program, with a state that each of them keeps on its way.  A third walk only
collects which names are bound in front of a place, and which functions are being defined around it.

* `Walker`                        how a pass moves through statements
* `Walker.Walks`, `Walker.Meets`    what it comes to, at which place and in which state
* `declaring`, `typing`         the two passes
* `binding`                     the names bound in front of a place
* `Seen.Declares`, `Seen.Types` what a state of either pass shows
* `binding_of_typing`, `declaring_of_binding`   the walks keep in step
-/

namespace AisScript

/-! ## Walks -/

/-- A part of a statement that has statements or an assignment of its own. -/
inductive Spot where
  /-- An assignment as a statement. -/
  | whole
  | init
  | step
  | body
  | orElse
deriving DecidableEq, Repr

/-- How to get from a statement to the next place. -/
inductive Turn where
  | behind
  | into (spot : Spot)
deriving DecidableEq, Repr

/-- A place in a program: the turns that lead to it, the last one first. -/
abbrev Route := List Turn

/-- How a pass moves through statements, with a state of type `σ`. -/
structure Walker (σ : Type) where
  /-- From a statement to what stands behind it. -/
  behind : σ → Stmt → σ → Prop
  /-- From a statement into a block of it. -/
  enters : σ → Stmt → Spot → Block → σ → Prop
  /-- From a statement to an assignment of it. -/
  assigns : σ → Stmt → Spot → Assign → σ → Prop

namespace Walker

variable {σ : Type} {P : Walker σ}

/-- A pass that begins in front of some statements comes to the place in front of others, in some
state.  Blocks of programs have no overrides, so a block is entered in front of its statements. -/
inductive Walks (P : Walker σ) (ss₀ : List Stmt) (x₀ : σ) : Route → List Stmt → σ → Prop where
  | start : Walks P ss₀ x₀ [] ss₀ x₀
  | behind {π : Route} {s : Stmt} {ss : List Stmt} {x y : σ} (hwalk : Walks P ss₀ x₀ π (s :: ss) x)
      (hstep : P.behind x s y) : Walks P ss₀ x₀ (.behind :: π) ss y
  | into {π : Route} {s : Stmt} {ss : List Stmt} {p : Spot} {b : Block} {x y : σ}
      (hwalk : Walks P ss₀ x₀ π (s :: ss) x) (hstep : P.enters x s p b y) :
      Walks P ss₀ x₀ (.into p :: π) b.stmts y

/-- A pass comes to an assignment in some state. -/
inductive Meets (P : Walker σ) (ss₀ : List Stmt) (x₀ : σ) : Route → Assign → σ → Prop where
  | intro {π : Route} {s : Stmt} {ss : List Stmt} {p : Spot} {a : Assign} {x y : σ}
      (hwalk : Walks P ss₀ x₀ π (s :: ss) x) (hstep : P.assigns x s p a y) :
      Meets P ss₀ x₀ (.into p :: π) a y

/-- A pass of which every step leads to one state only. -/
structure Deterministic (P : Walker σ) : Prop where
  behind : ∀ {x s y z}, P.behind x s y → P.behind x s z → y = z
  enters : ∀ {x s p b c y z}, P.enters x s p b y → P.enters x s p c z → b = c ∧ y = z
  assigns : ∀ {x s p a c y z}, P.assigns x s p a y → P.assigns x s p c z → a = c ∧ y = z

/-- A deterministic pass comes to a place in one way only. -/
theorem Walks.unique (hP : P.Deterministic) {ss₀ ss ts : List Stmt} {x₀ x y : σ} {π : Route}
    (h : P.Walks ss₀ x₀ π ss x) (h' : P.Walks ss₀ x₀ π ts y) : ss = ts ∧ x = y := by
  -- The induction is on the first walk; the second must end in the same step.
  induction h generalizing ts y with
  | start =>
    cases h'
    exact ⟨rfl, rfl⟩
  -- Both came to one list of statements, so they stand behind the same statement.
  | behind _ hstep ih =>
    cases h' with
    | behind hwalk' hstep' =>
      obtain ⟨hss, rfl⟩ := ih hwalk'
      cases hss
      exact ⟨rfl, hP.behind hstep hstep'⟩
  -- Both came to one list of statements, so they enter the same block.
  | into _ hstep ih =>
    cases h' with
    | into hwalk' hstep' =>
      obtain ⟨hss, rfl⟩ := ih hwalk'
      cases hss
      obtain ⟨rfl, hy⟩ := hP.enters hstep hstep'
      exact ⟨rfl, hy⟩

/-- A deterministic pass meets one assignment at a place, in one state. -/
theorem Meets.unique (hP : P.Deterministic) {ss₀ : List Stmt} {x₀ x y : σ} {π : Route} {a c : Assign}
    (h : P.Meets ss₀ x₀ π a x) (h' : P.Meets ss₀ x₀ π c y) : a = c ∧ x = y := by
  cases h with
  | intro hwalk hstep =>
    cases h' with
    | intro hwalk' hstep' =>
      obtain ⟨hss, rfl⟩ := hwalk.unique hP hwalk'
      cases hss
      exact hP.assigns hstep hstep'

end Walker

/-! ## The declaration pass -/

/-- The names with which the declaration pass walks a block of a statement. -/
inductive DeclaringEnters (names : Scope Unit) : Stmt → Spot → Block → Scope Unit → Prop where
  | block {b : Block} : DeclaringEnters names (.block b) .body b names.push
  | thenBlock {s : Span} {c : Expr} {t : Block} {f : Option Block} :
      DeclaringEnters names (.cond s c t f) .body t names.push
  | elseBlock {s : Span} {c : Expr} {t f : Block} (hthen : (t.declareIn names.push).fault = none) :
      DeclaringEnters names (.cond s c t (some f)) .orElse f names.push
  | loop {s : Span} {c : Expr} {b : Block} : DeclaringEnters names (.loop s c b) .body b names.push
  | forLoop {s : Span} {i : Option Assign} {c : Option Expr} {st : Option Assign} {b : Block} :
      DeclaringEnters names (.forLoop s i c st b) .body b
        (declareClause (declareClause names.push i).2 st).2.push
  | funcDef {s ns : Span} {f : Text} {ps : List Param} {b : Block} :
      DeclaringEnters names (.funcDef s f ns ps b) .body b
        (ps.foldl (fun sc p => sc.define p.name ()) (names.define f ()).push)

/-- The names with which the declaration pass marks an assignment of a statement. -/
inductive DeclaringAssigns (names : Scope Unit) : Stmt → Spot → Assign → Scope Unit → Prop where
  | whole {a : Assign} : DeclaringAssigns names (.assign a) .whole a names
  | init {s : Span} {a : Assign} {c : Option Expr} {st : Option Assign} {b : Block} :
      DeclaringAssigns names (.forLoop s (some a) c st b) .init a names.push
  | step {s : Span} {i : Option Assign} {c : Option Expr} {a : Assign} {b : Block} :
      DeclaringAssigns names (.forLoop s i c (some a) b) .step a (declareClause names.push i).2

/-- The declaration pass. -/
def declaring : Walker (Scope Unit) where
  behind names s names' := (s.declare names).fault = none ∧ (s.declare names).names = names'
  enters := DeclaringEnters
  assigns := DeclaringAssigns

/-- The declaration pass has no choice. -/
theorem declaring_deterministic : declaring.Deterministic where
  behind h h' := h.2.symm.trans h'.2
  enters h h' := by cases h <;> cases h' <;> exact ⟨rfl, rfl⟩
  assigns h h' := by cases h <;> cases h' <;> exact ⟨rfl, rfl⟩

/-! ## Typing -/

/-- The scopes in which typing walks a block of a statement.  The body of a function is walked in the
copies that calls ask for, whatever their arguments are and however deep they are nested. -/
inductive TypingEnters (scope : Scope Entry) : Stmt → Spot → Block → Scope Entry → Prop where
  | block {b : Block} : TypingEnters scope (.block b) .body b scope.push
  | thenBlock {s : Span} {c : Expr} {t : Block} {f : Option Block} :
      TypingEnters scope (.cond s c t f) .body t scope.push
  | elseBlock {s : Span} {c : Expr} {t f : Block} :
      TypingEnters scope (.cond s c t (some f)) .orElse f scope.push
  | loop {s : Span} {c : Expr} {b : Block} : TypingEnters scope (.loop s c b) .body b scope.push
  | forLoop {s : Span} {i : Option Assign} {c : Option Expr} {st : Option Assign} {b : Block}
      {header header' : Scope Entry} (depth next next' : Nat)
      (hinit : (annotateClause (enterWithin depth) scope.push next i).result = .ok header)
      (hstep : (annotateClause (enterWithin depth) header next' st).result = .ok header') :
      TypingEnters scope (.forLoop s i c st b) .body b header'.push
  | copy {s ns : Span} {f : Text} {ps : List Param} {b : Block} {inside : Scope Entry}
      (depth next : Nat) (args : List Expr) (hlen : args.length = ps.length)
      (hbinds : (annotateAssigns (enterWithin depth) (Scope.push ⟨scope.snapshot.inner, []⟩) next
        (bindArguments ps args)).result = .ok inside) :
      TypingEnters scope (.funcDef s f ns ps b) .body b inside

/-- The scopes in which typing comes to an assignment of a statement. -/
inductive TypingAssigns (scope : Scope Entry) : Stmt → Spot → Assign → Scope Entry → Prop where
  | whole {a : Assign} : TypingAssigns scope (.assign a) .whole a scope
  | init {s : Span} {a : Assign} {c : Option Expr} {st : Option Assign} {b : Block} :
      TypingAssigns scope (.forLoop s (some a) c st b) .init a scope.push
  | step {s : Span} {i : Option Assign} {c : Option Expr} {a : Assign} {b : Block}
      {header : Scope Entry} (depth next : Nat)
      (hinit : (annotateClause (enterWithin depth) scope.push next i).result = .ok header) :
      TypingAssigns scope (.forLoop s i c (some a) b) .step a header

/-- Typing, as far as it succeeds. -/
def typing : Walker (Scope Entry) where
  behind scope s scope' := ∃ depth next, (s.annotate (enterWithin depth) scope next).result = .ok scope'
  enters := TypingEnters
  assigns := TypingAssigns

/-! ## Names bound in front -/

/-- The names bound in front of a place, and the functions around it that are being defined. -/
structure Seen where
  bound : Text → Prop
  own : List Text

/-- What is bound in front of a block of a statement.  In the body of a function these are the names
bound in front of the function and its parameters; its own name is not among them. -/
inductive BindingEnters (x : Seen) : Stmt → Spot → Block → Seen → Prop where
  | block {b : Block} : BindingEnters x (.block b) .body b x
  | thenBlock {s : Span} {c : Expr} {t : Block} {f : Option Block} :
      BindingEnters x (.cond s c t f) .body t x
  | elseBlock {s : Span} {c : Expr} {t f : Block} :
      BindingEnters x (.cond s c t (some f)) .orElse f x
  | loop {s : Span} {c : Expr} {b : Block} : BindingEnters x (.loop s c b) .body b x
  | forLoop {s : Span} {i : Option Assign} {c : Option Expr} {st : Option Assign} {b : Block} :
      BindingEnters x (.forLoop s i c st b) .body b
        { x with bound := clauseSeenBehind (clauseSeenBehind x.bound i) st }
  | funcDef {s ns : Span} {f : Text} {ps : List Param} {b : Block} :
      BindingEnters x (.funcDef s f ns ps b) .body b ⟨seenInBody x.bound ps, f :: x.own⟩

/-- What is bound in front of an assignment of a statement. -/
inductive BindingAssigns (x : Seen) : Stmt → Spot → Assign → Seen → Prop where
  | whole {a : Assign} : BindingAssigns x (.assign a) .whole a x
  | init {s : Span} {a : Assign} {c : Option Expr} {st : Option Assign} {b : Block} :
      BindingAssigns x (.forLoop s (some a) c st b) .init a x
  | step {s : Span} {i : Option Assign} {c : Option Expr} {a : Assign} {b : Block} :
      BindingAssigns x (.forLoop s i c (some a) b) .step a
        { x with bound := clauseSeenBehind x.bound i }

/-- The walk that collects what is bound in front of the places of a program with its declarations
marked. -/
def binding : Walker Seen where
  behind x s y := y = { x with bound := s.seenBehind x.bound }
  enters := BindingEnters
  assigns := BindingAssigns

/-- What is bound in front of a place depends on the place only. -/
theorem binding_deterministic : binding.Deterministic where
  behind h h' := h.trans h'.symm
  enters h h' := by cases h <;> cases h' <;> exact ⟨rfl, rfl⟩
  assigns h h' := by cases h <;> cases h' <;> exact ⟨rfl, rfl⟩

/-! ## What the scopes show -/

/-- A definition shows its name besides what was shown. -/
@[simp] theorem Scope.shows_define {α : Type} (s : Scope α) (m n : Text) (v : α) :
    (s.define m v).Shows n ↔ s.Shows n ∨ n = m := by
  simp only [Shows, lookup_define]
  by_cases h : n = m <;> simp [h]

/-- A single frame shows what it was taken from. -/
@[simp] theorem Scope.shows_snapshot {α : Type} (s : Scope α) :
    Scope.Shows (⟨s.snapshot.inner, []⟩ : Scope α) = s.Shows := by
  funext n
  simp only [Shows, lookup_single, lookup_snapshot]

/-- Defining the names of a list shows them besides what was shown. -/
theorem Scope.shows_foldl_define_iff {α β : Type} (name : β → Text) (value : β → α) (xs : List β)
    (s : Scope α) (n : Text) :
    (xs.foldl (fun sc x => sc.define (name x) (value x)) s).Shows n ↔ s.Shows n ∨ ∃ x ∈ xs, n = name x := by
  induction xs generalizing s with
  | nil => simp
  | cons x xs ih => simp only [List.foldl_cons, ih, shows_define, List.mem_cons, exists_eq_or_imp, or_assoc]

namespace Seen

/-- The declaration pass shows what is bound and the functions that are being defined. -/
def Declares (x : Seen) (names : Scope Unit) : Prop := ∀ n, names.Shows n ↔ x.bound n ∨ n ∈ x.own

/-- Typing shows what is bound. -/
def Types (x : Seen) (scope : Scope Entry) : Prop := ∀ n, scope.Shows n ↔ x.bound n

/-! ### The declaration pass keeps in step -/

section Declaring

variable {x : Seen} {names : Scope Unit}

/-- Opening a block shows nothing else. -/
theorem Declares.push (h : x.Declares names) : x.Declares names.push := by
  intro n
  rw [Scope.shows_push]
  exact h n

/-- An assignment is marked as declaring exactly when it binds a name that was not shown. -/
theorem Declares.assign (h : x.Declares names) (a : Assign) :
    Seen.Declares { x with bound := (a.declare names).1.seenBehind x.bound } (a.declare names).2 := by
  obtain ⟨i, v⟩ := a
  intro n
  simp only [Assign.declare]
  split
  · simp only [Scope.shows_define, h n, Assign.seenBehind, Assign.info, true_and, or_right_comm]
  · rename_i hnot
    have hfalse : i.declares = false := by simp_all
    simp only [h n, Assign.seenBehind, Assign.info, hfalse, Bool.false_eq_true, false_and, or_false]

/-- A clause of a loop header. -/
theorem Declares.clause (h : x.Declares names) (a : Option Assign) :
    Seen.Declares { x with bound := clauseSeenBehind x.bound (declareClause names a).1 }
      (declareClause names a).2 := by
  cases a with
  | none => exact h
  | some a => exact h.assign a

/-- A definition that is no assignment. -/
theorem Declares.define (h : x.Declares names) (m : Text) :
    Seen.Declares { x with bound := fun n => x.bound n ∨ n = m } (names.define m ()) := by
  intro n
  simp only [Scope.shows_define, h n, or_right_comm]

/-- Behind a statement the pass shows what the statement binds besides what it showed. -/
theorem Declares.stmt (h : x.Declares names) (s : Stmt) (hfault : (s.declare names).fault = none) :
    Seen.Declares { x with bound := (s.declare names).tree.seenBehind x.bound }
      (s.declare names).names := by
  -- Only assignments and definitions show something new.
  cases s with
  | assign a => exact h.assign a
  | funcDef _ f _ _ _ => exact h.define f
  | bitfieldDef _ d => exact h.define d.name
  -- An enumeration shows its own name and the names of its members.
  | enumDef _ d =>
    intro n
    simp only [Stmt.declare, Stmt.seenBehind, Scope.shows_foldl_define_iff EnumMember.name,
      Scope.shows_define, h n]
    grind
  -- The branches of a condition have scopes of their own.
  | cond _ c t f =>
    simp only [Stmt.declare] at hfault ⊢
    split <;> exact h
  -- A reference is refused by this pass.
  | require _ _ => cases hfault
  | _ => exact h

end Declaring

/-! ### Typing keeps in step -/

section Typing

variable {x : Seen} {enter : EnterBody} {scope scope' : Scope Entry} {next : Nat}

/-- Opening a block shows nothing else. -/
theorem Types.push (h : x.Types scope) : x.Types scope.push := by
  intro n
  rw [Scope.shows_push]
  exact h n

/-- An assignment that binds no parameter shows its name behind it if it declares. -/
theorem Types.assign (h : x.Types scope) {a : Assign} (hbinds : a.info.binds = false)
    (ha : (a.annotate enter scope next).result = .ok scope') :
    Seen.Types { x with bound := a.seenBehind x.bound } scope' := by
  -- An accepted assignment extends the scope if it declares or binds a parameter.
  have hleads := Assign.leads_of_annotate ha
  unfold Assign.Leads at hleads
  intro n
  split at hleads
  -- It binds no parameter, so it declares.
  · rename_i hdeclares
    rw [hbinds, Bool.false_or] at hdeclares
    obtain ⟨b, rfl⟩ := hleads
    simp only [Scope.shows_define, h n, Assign.seenBehind, hdeclares, true_and]
  -- Nothing is added.
  · rename_i hnot
    have hdeclares : a.info.declares = false := by simp_all
    rw [hleads, h n]
    simp only [Assign.seenBehind, hdeclares, Bool.false_eq_true, false_and, or_false]

/-- A clause of a loop header. -/
theorem Types.clause (h : x.Types scope) {a : Option Assign}
    (hbinds : ∀ c, a = some c → c.info.binds = false)
    (ha : (annotateClause enter scope next a).result = .ok scope') :
    Seen.Types { x with bound := clauseSeenBehind x.bound a } scope' := by
  cases a with
  | none =>
    cases ha
    exact h
  | some a => exact h.assign (hbinds a rfl) ha

/-- Members of an enumeration are shown besides what was shown. -/
private theorem shows_bindMembers (scope : Scope Entry) (next : Nat) (ms : List EnumMember) (n : Text) :
    (bindMembers scope next ms).1.Shows n ↔ scope.Shows n ∨ ∃ m ∈ ms, n = m.name := by
  induction ms generalizing scope next with
  | nil => simp [bindMembers]
  | cons m ms ih =>
    rw [bindMembers, ih, Scope.shows_define]
    simp only [List.mem_cons, exists_eq_or_imp, or_assoc]

/-- Behind a statement that binds no parameter typing shows what the statement binds besides what it
showed. -/
theorem Types.stmt (h : x.Types scope) {s : Stmt}
    (hbinds : ∀ a, s = .assign a → a.info.binds = false)
    (hs : (s.annotate enter scope next).result = .ok scope') :
    Seen.Types { x with bound := s.seenBehind x.bound } scope' := by
  have hleads := Stmt.leads_of_annotate hs
  -- What each statement does to the scope is read off `Leads`.
  cases s with
  | assign a => exact h.assign (hbinds a rfl) hs
  | funcDef _ f _ ps b =>
    intro n
    rw [hleads, bindFunction, Scope.shows_define, h n]
    rfl
  | bitfieldDef _ d =>
    intro n
    rw [hleads, Scope.shows_define, h n]
    rfl
  -- The type and its members are bound one behind the other.
  | enumDef _ d =>
    obtain ⟨_, rfl⟩ := hleads
    intro n
    rw [bindEnum, shows_bindMembers, Scope.shows_define, h n, or_assoc]
    rfl
  -- All other statements leave the scope as it is.
  | _ =>
    cases hleads
    exact h

/-- In the copy of a function the parameters are shown besides what was shown in front of the
function. -/
theorem Types.copy (h : x.Types scope) {ps : List Param} {args : List Expr}
    (hlen : args.length = ps.length)
    (hbinds : (annotateAssigns enter scope next (bindArguments ps args)).result = .ok scope') :
    ∀ n, scope'.Shows n ↔ seenInBody x.bound ps n := by
  intro n
  unfold seenInBody
  rw [← h n]
  clear h
  -- The induction is on the parameters; each is bound to its argument.
  induction ps generalizing args scope next with
  | nil =>
    cases args with
    | nil =>
      cases hbinds
      simp
    | cons e es => exact nomatch hlen
  | cons p ps ih =>
    cases args with
    | nil => exact nomatch hlen
    | cons e es =>
      rw [ih (Nat.succ.inj hlen) hbinds, Scope.shows_define]
      simp only [List.mem_cons, exists_eq_or_imp, or_assoc]

end Typing

end Seen

/-! ## The walks keep in step -/

/-- Statements in which no assignment binds a parameter: what a program is behind its declarations. -/
def Unbound (ss : List Stmt) : Prop := ∃ seen last, MarkedStmts .full seen last ss

/-- Statements of a program before its declarations are marked. -/
def Unmarked (ss : List Stmt) : Prop := ∃ last, MarkedStmts .full (fun _ => True) last ss

namespace Unbound

variable {s : Stmt} {ss : List Stmt}

/-- What follows a statement. -/
theorem tail (h : Unbound (s :: ss)) : Unbound ss := by
  obtain ⟨seen, last, _, hss⟩ := h
  exact ⟨_, last, hss⟩

/-- The blocks of a statement; they have no overrides. -/
theorem enters {x y : Seen} {p : Spot} {b : Block} (h : Unbound (s :: ss))
    (hb : BindingEnters x s p b y) : Unbound b.stmts ∧ b.overrides = [] := by
  obtain ⟨seen, last, hs, _⟩ := h
  -- A marked block has no overrides, and its statements are marked.
  have hblock : ∀ {seen last} {b : Block}, b.Marked .full seen last →
      Unbound b.stmts ∧ b.overrides = [] := by
    intro seen last b hmarked
    obtain ⟨os, ts, sp⟩ := b
    exact ⟨⟨seen, last, hmarked.2⟩, hmarked.1⟩
  -- Each of the blocks is marked as a part of the statement.
  cases hb with
  | block => exact hblock hs
  | thenBlock => exact hblock hs.2.1
  | elseBlock => exact hblock hs.2.2
  | loop => exact hblock hs.2
  | forLoop => exact hblock hs.2.2.2.2
  | funcDef => exact hblock hs.2

/-- A statement that is an assignment binds no parameter. -/
theorem assign (h : Unbound (s :: ss)) (a : Assign) (hs : s = .assign a) : a.info.binds = false := by
  obtain ⟨seen, last, hmarked, _⟩ := h
  subst hs
  obtain ⟨i, v⟩ := a
  exact hmarked.1

/-- The clauses of a loop header bind no parameters. -/
private theorem clauses {sp : Span} {i : Option Assign} {c : Option Expr} {st : Option Assign} {b : Block}
    (h : Unbound (.forLoop sp i c st b :: ss)) :
    (∀ a, i = some a → a.info.binds = false) ∧ ∀ a, st = some a → a.info.binds = false := by
  obtain ⟨seen, last, ⟨hi, _, hst, _⟩, _⟩ := h
  refine ⟨?_, ?_⟩
  · rintro ⟨i, v⟩ rfl
    exact hi.1
  · rintro ⟨i, v⟩ rfl
    exact hst.1

end Unbound

/-- Into the blocks that typing enters the walk that collects names goes too, and typing shows there what
is bound there. -/
theorem binding_enters {s : Stmt} {ss : List Stmt} {x : Seen} {scope scope' : Scope Entry} {p : Spot}
    {b : Block} (hss : Unbound (s :: ss)) (hx : x.Types scope) (h : TypingEnters scope s p b scope') :
    ∃ y, BindingEnters x s p b y ∧ y.Types scope' := by
  cases h with
  -- Blocks other than the body of a function are entered with the scope of the statement.
  | block => exact ⟨x, .block, hx.push⟩
  | thenBlock => exact ⟨x, .thenBlock, hx.push⟩
  | elseBlock => exact ⟨x, .elseBlock, hx.push⟩
  | loop => exact ⟨x, .loop, hx.push⟩
  -- The body of a loop sees what its clauses declare.
  | forLoop depth next next' hi hst =>
    have hheader := (hx.push.clause hss.clauses.1 hi).clause hss.clauses.2 hst
    exact ⟨_, .forLoop, hheader.push⟩
  -- The copy is typed in what its definition captured, which shows what was bound there.
  | copy depth next args hlen hbinds =>
    have hcaptured : x.Types (Scope.push ⟨scope.snapshot.inner, []⟩) := by
      intro n
      rw [Scope.shows_push, Scope.shows_snapshot]
      exact hx n
    exact ⟨_, .funcDef, hcaptured.copy hlen hbinds⟩

/-- Where typing comes to, the walk that collects names comes to, and typing shows the names bound. -/
theorem binding_of_typing {ss₀ ss : List Stmt} {x₀ : Seen} {scope₀ scope : Scope Entry} {π : Route}
    (hss₀ : Unbound ss₀) (h₀ : x₀.Types scope₀) (h : typing.Walks ss₀ scope₀ π ss scope) :
    ∃ x, binding.Walks ss₀ x₀ π ss x ∧ x.Types scope ∧ Unbound ss := by
  induction h with
  | start => exact ⟨x₀, .start, h₀, hss₀⟩
  | behind _ hstep ih =>
    obtain ⟨x, hwalk, hx, hss⟩ := ih
    obtain ⟨depth, next, hs⟩ := hstep
    exact ⟨_, .behind hwalk rfl, hx.stmt hss.assign hs, hss.tail⟩
  | into _ hstep ih =>
    obtain ⟨x, hwalk, hx, hss⟩ := ih
    obtain ⟨y, hy, htypes⟩ := binding_enters hss hx hstep
    exact ⟨y, .into hwalk hy, htypes, (hss.enters hy).1⟩

namespace Unmarked

variable {s : Stmt} {ss : List Stmt}

/-- What follows a statement. -/
theorem tail (h : Unmarked (s :: ss)) : Unmarked ss := by
  obtain ⟨last, _, hss⟩ := h
  exact ⟨last, MarkedStmts.mono (fun n _ => s.seenBehind_all n) ss hss⟩

/-- Marking a statement does not fail, and the statements behind it are marked in turn. -/
private theorem declare_cons (h : Unmarked (s :: ss)) (names : Scope Unit) :
    (s.declare names).fault = none ∧ (declareStmts names (s :: ss)).tree
      = (s.declare names).tree :: (declareStmts (s.declare names).names ss).tree := by
  obtain ⟨last, hs, _⟩ := h
  have hfault := (Stmt.declare_marked names s hs).1
  refine ⟨hfault, ?_⟩
  simp only [declareStmts, hfault]

/-- A block is marked statement by statement. -/
private theorem of_block {last : Bool} {b : Block}
    (h : b.Marked .full (fun _ => True) last) (names : Scope Unit) :
    (b.declareIn names).tree.stmts = (declareStmts names b.stmts).tree ∧ Unmarked b.stmts := by
  obtain ⟨os, ts, sp⟩ := b
  obtain ⟨rfl, hts⟩ := h
  exact ⟨rfl, last, hts⟩

end Unmarked

/-- Into the blocks of a marked statement the declaration pass goes too, and what it shows there is what
is bound there and the functions around. -/
private theorem declaring_enters {s : Stmt} {ss : List Stmt} {x y : Seen} {names : Scope Unit} {p : Spot}
    {b' : Block} (hs : Unmarked (s :: ss)) (hx : x.Declares names)
    (h : BindingEnters x (s.declare names).tree p b' y) :
    ∃ b names', DeclaringEnters names s p b names'
      ∧ b'.stmts = (declareStmts names' b.stmts).tree ∧ y.Declares names' ∧ Unmarked b.stmts := by
  obtain ⟨last, hs, _⟩ := hs
  -- Every block is entered as it is marked; what differs is the scope.
  have hinto : ∀ {b : Block} {last : Bool} {names' : Scope Unit}, b.Marked .full (fun _ => True) last →
      DeclaringEnters names s p b names' → y.Declares names' →
        ∃ c names'', DeclaringEnters names s p c names''
          ∧ (b.declareIn names').tree.stmts = (declareStmts names'' c.stmts).tree
          ∧ y.Declares names'' ∧ Unmarked c.stmts := by
    -- A marked block is declared without a fault, statement by statement.
    intro b last names' hb henters hy
    obtain ⟨hstmts, hrest⟩ := Unmarked.of_block hb names'
    exact ⟨b, names', henters, hstmts, hy, hrest⟩
  -- A statement has only the blocks of its own form.
  cases s with
  | block b =>
    cases h with
    | block => exact hinto hs .block hx.push
  | cond sp c t f =>
    obtain ⟨_, ht, hf⟩ := hs
    -- The second branch is entered only if the first has no fault.
    have hfault := (Block.declareIn_marked names.push t ht).1
    cases f with
    | none =>
      simp only [Stmt.declare, hfault, declareOption] at h
      cases h with
      | thenBlock => exact hinto ht .thenBlock hx.push
    | some f =>
      simp only [Stmt.declare, hfault, declareOption] at h
      cases h with
      | thenBlock => exact hinto ht .thenBlock hx.push
      | elseBlock => exact hinto hf (.elseBlock hfault) hx.push
  | loop sp c b =>
    cases h with
    | loop => exact hinto hs.2 .loop hx.push
  | forLoop sp i c st b =>
    cases h with
    | forLoop =>
      -- In the body everything may have been seen, so marks in front of it do not matter.
      have hb : b.Marked .full (fun _ => True) false :=
        Block.Marked.mono (fun n _ => headerSeenBehind_all i st n) b hs.2.2.2.2
      exact hinto hb .forLoop ((hx.push.clause i).clause st).push
  | funcDef sp f ns ps b =>
    cases h with
    | funcDef =>
      have hb : b.Marked .full (fun _ => True) true :=
        Block.Marked.mono (fun _ _ => .inl (.inl trivial)) b hs.2
      refine hinto hb .funcDef ?_
      intro n
      -- In a function its own name and its parameters are shown besides.
      simp only [Scope.shows_foldl_define_iff Param.name, Scope.shows_push, Scope.shows_define, hx n,
        seenInBody, List.mem_cons]
      grind
  | _ => cases h

/-- Where the walk that collects names comes to behind the declarations, the declaration pass came to in
front of them, and it showed the names bound and the functions around. -/
theorem declaring_of_binding {ss₀ ss' : List Stmt} {x₀ x : Seen} {names₀ : Scope Unit} {π : Route}
    (hss₀ : Unmarked ss₀) (h₀ : x₀.Declares names₀)
    (h : binding.Walks (declareStmts names₀ ss₀).tree x₀ π ss' x) :
    ∃ ss names, declaring.Walks ss₀ names₀ π ss names ∧ ss' = (declareStmts names ss).tree
      ∧ x.Declares names ∧ Unmarked ss := by
  -- A walk that is not over stands in front of a statement that was marked.
  have hfirst : ∀ {names : Scope Unit} {s' : Stmt} {ts' ss : List Stmt}, Unmarked ss →
      s' :: ts' = (declareStmts names ss).tree → ∃ s ts, ss = s :: ts ∧ s' = (s.declare names).tree
        ∧ ts' = (declareStmts (s.declare names).names ts).tree ∧ (s.declare names).fault = none := by
    intro names s' ts' ss hss heq
    cases ss with
    | nil => exact nomatch heq
    | cons s ts =>
      obtain ⟨hfault, hcons⟩ := hss.declare_cons names
      rw [hcons] at heq
      obtain ⟨rfl, rfl⟩ := List.cons.inj heq
      exact ⟨s, ts, rfl, rfl, rfl, hfault⟩
  -- The induction is on the walk; the declaration pass takes the same step.
  induction h with
  | start => exact ⟨ss₀, names₀, .start, rfl, h₀, hss₀⟩
  -- Behind a statement: it was marked without a fault, so the pass goes on behind it.
  | behind _ hstep ih =>
    obtain ⟨ss, names, hwalk, heq, hx, hss⟩ := ih
    obtain ⟨s, ts, rfl, rfl, rfl, hfault⟩ := hfirst hss heq
    subst hstep
    exact ⟨ts, _, .behind hwalk ⟨hfault, rfl⟩, rfl, hx.stmt s hfault, hss.tail⟩
  -- Into a block: the pass enters the block that it was made from.
  | into _ hstep ih =>
    obtain ⟨ss, names, hwalk, heq, hx, hss⟩ := ih
    obtain ⟨s, ts, rfl, rfl, _, _⟩ := hfirst hss heq
    obtain ⟨b, names', henters, hstmts, hy, hb⟩ := declaring_enters hss hx hstep
    exact ⟨b.stmts, names', .into hwalk henters, hstmts, hy, hb⟩

/-! ## Assignments -/

/-- Where typing meets an assignment, so does the walk that collects names, and typing shows the names
bound. -/
theorem binding_meets_of_typing {ss₀ : List Stmt} {x₀ : Seen} {scope₀ scope : Scope Entry} {π : Route}
    {a : Assign} (hss₀ : Unbound ss₀) (h₀ : x₀.Types scope₀) (h : typing.Meets ss₀ scope₀ π a scope) :
    ∃ x, binding.Meets ss₀ x₀ π a x ∧ x.Types scope := by
  obtain ⟨hwalk, hstep⟩ := h
  obtain ⟨x, hwalk', hx, hss⟩ := binding_of_typing hss₀ h₀ hwalk
  cases hstep with
  | whole => exact ⟨x, .intro hwalk' .whole, hx⟩
  | init => exact ⟨x, .intro hwalk' .init, hx.push⟩
  | step depth next hinit => exact ⟨_, .intro hwalk' .step, hx.push.clause hss.clauses.1 hinit⟩

/-- An assignment that is in a marked statement was marked in the statement, with names that show what
is bound and the functions around. -/
private theorem declaring_assigns {s : Stmt} {ss : List Stmt} {x y : Seen} {names : Scope Unit} {p : Spot}
    {a' : Assign} (hs : Unmarked (s :: ss)) (hx : x.Declares names)
    (h : BindingAssigns x (s.declare names).tree p a' y) :
    ∃ a names', DeclaringAssigns names s p a names' ∧ a' = (a.declare names').1 ∧ y.Declares names'
      ∧ a.info.declares = false := by
  obtain ⟨last, hs, _⟩ := hs
  -- A tree of the source has no declarations marked where every name may have been seen.
  have hplain : ∀ {seen : Text → Prop} {a : Assign}, (∀ n, seen n) → a.Marked .full seen →
      a.info.declares = false := by
    intro seen a hseen ha
    obtain ⟨i, v⟩ := a
    exact Bool.eq_false_iff.2 fun hdeclares => ha.2.2.1 hdeclares (hseen _)
  -- Assignments are found in statements of two forms.
  cases s with
  | assign a =>
    cases h with
    | whole => exact ⟨a, names, .whole, rfl, hx, hplain (fun _ => trivial) hs⟩
  | forLoop sp i c st b =>
    obtain ⟨hi, _, hst, _⟩ := hs
    -- Which clauses there are decides which assignments the header has.
    cases i with
    | none =>
      cases st with
      | none => cases h
      | some st =>
        cases h with
        | step => exact ⟨st, _, .step, rfl, hx.push, hplain (fun _ => trivial) hst⟩
    | some i =>
      cases st with
      | none =>
        cases h with
        | init => exact ⟨i, _, .init, rfl, hx.push, hplain (fun _ => trivial) hi⟩
      | some st =>
        cases h with
        | init => exact ⟨i, _, .init, rfl, hx.push, hplain (fun _ => trivial) hi⟩
        -- The step is marked in the scope behind the first clause.
        | step =>
          exact ⟨st, _, .step, rfl, hx.push.clause (some i), hplain (clauseSeenBehind_all (some i)) hst⟩
  -- The branches are blocks, and they hold their assignments themselves.
  | cond sp c t f =>
    simp only [Stmt.declare] at h
    split at h <;> cases h
  | _ => cases h

/-- An assignment of a program with its declarations marked was marked where the declaration pass met
it, which showed the names bound and the functions around. -/
theorem declaring_meets_of_binding {ss₀ : List Stmt} {x₀ x : Seen} {names₀ : Scope Unit} {π : Route}
    {a' : Assign} (hss₀ : Unmarked ss₀) (h₀ : x₀.Declares names₀)
    (h : binding.Meets (declareStmts names₀ ss₀).tree x₀ π a' x) :
    ∃ a names, declaring.Meets ss₀ names₀ π a names ∧ a' = (a.declare names).1
      ∧ x.Declares names ∧ a.info.declares = false := by
  obtain ⟨hwalk, hstep⟩ := h
  -- The walks come to one place, and the assignment there is the one that was marked.
  obtain ⟨ss, names, hdeclaring, heq, hx, hss⟩ := declaring_of_binding hss₀ h₀ hwalk
  cases ss with
  | nil => exact nomatch heq
  | cons s ts =>
    rw [(hss.declare_cons names).2] at heq
    obtain ⟨rfl, _⟩ := List.cons.inj heq
    obtain ⟨a, names', hassigns, ha, hy, hplain⟩ := declaring_assigns hss hx hstep
    exact ⟨a, names', .intro hdeclaring hassigns, ha, hy, hplain⟩

/-- Marking keeps the name, and an assignment is marked as declaring exactly where its name is not
shown. -/
theorem Assign.declares_declare {a : Assign} (h : a.info.declares = false) (names : Scope Unit) :
    (a.declare names).1.info.name = a.info.name
      ∧ ((a.declare names).1.info.declares = true ↔ ¬ names.Shows a.info.name) := by
  obtain ⟨i, v⟩ := a
  have hfalse : i.declares = false := h
  simp only [Assign.declare, hfalse, Bool.false_or, Assign.info, Scope.Shows]
  cases names.lookup i.name <;> simp [hfalse]

end AisScript
