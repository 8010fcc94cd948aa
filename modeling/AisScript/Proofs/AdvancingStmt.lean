import AisScript.Proofs.AdvancingExpr

/-!
# Advancing through statements

The guarded statement parsers do what the parsers do, at any number of steps that is enough for the lexemes
ahead.  Every turn of the loop that reads a block consumes a lexeme: a statement that was read has a place
behind the one consumed last, a return begins with its keyword, and behind an error the token at which the
statement began is skipped.

* `Parser.StmtsAlike`        all statement parsers at one number of steps
* `Parser.stmtsAlike`        every number of steps
* `parse_guarded`            whole files
-/

namespace AisScript.Parser

variable {g : Guard} {file length few n : Nat} {as ls : List Lexeme} {l : Lexeme} {last : Span}

/-- Results that are assignments. -/
abbrev LeavesAssign (file lo : Nat) : Assign → List Lexeme → Span → Prop := Leaves file lo fun a => [.stmt (.assign a)]

/-- Results that are statements. -/
abbrev LeavesStmt (file lo : Nat) : Stmt → List Lexeme → Span → Prop := Leaves file lo fun s => [.stmt s]

/-! ## Statements without blocks -/

/-- The value of an assignment behind its name. -/
private theorem assignRest_alike {name : Token} {lo : Nat} (h : Room file length few n (l :: ls) last)
    (hkind : l.token.kind ≠ .eof) (hname : name.span.Fills file lo last.stop) :
    Alike True (l :: ls) last (g.assignRest n name) (assignRest n name) (LeavesAssign file lo) := by
  refine .advance hkind (((exprsAlike g file length n).binary 1 ((h.next hkind).less (by omega))).bind
    fun value bs last₁ hc hvalue => .pure ?_)
  exact .valued rfl rfl hname (hvalue.widen (Nat.le_of_lt (h.fills hkind).lt) (Nat.le_refl _))

/-- An assignment. -/
private theorem assignment_alike (h : Room file length few n as last) :
    Alike True as last (g.assignment n) (assignment n) (LeavesAssign file last.stop) := by
  obtain ⟨l, ls, rfl⟩ := h.exists_cons
  refine .expectName fun hkind => ?_
  obtain ⟨m, ms, rfl⟩ := (h.next hkind).exists_cons
  exact .atKind (by simp) (fun hm => assignRest_alike (h.next hkind) hm (h.fills hkind)) fun _ => .reject

/-- The step of a loop. -/
private theorem forStep_alike (h : Room file length few n as last) :
    Alike True as last (g.forStep n) (forStep n) (Leaves file last.stop clauseHeld) := by
  obtain ⟨l, ls, rfl⟩ := h.exists_cons
  refine .atKind (by simp) (fun hkind => ?_) fun _ => .pure .nil
  obtain ⟨m, ms, rfl⟩ := (h.next hkind).exists_cons
  refine .advance hkind (.atKind (by simp) (fun hm => ?_) fun _ => .report .failure)
  exact (assignRest_alike (h.next hkind) hm (h.fills hkind)).bind fun a _ _ _ ha => .pure ha

/-- A statement that begins with a name. -/
private theorem namedStmt_alike
    (h : Room file length (few + 1) n (l :: ls) last) (hkind : l.token.kind ≠ .eof) :
    Alike True (l :: ls) last (g.namedStmt n) (namedStmt n) (LeavesStmt file last.stop) := by
  have hnext := h.next hkind
  have hname := h.fills hkind
  obtain ⟨m, ms, rfl⟩ := hnext.exists_cons
  -- The word behind the name decides.
  refine .advance hkind (.peekKind ?_)
  split <;> try simp only [*]
  -- An assignment.
  · have hm : m.token.kind ≠ .eof := by simp [*]
    exact (assignRest_alike hnext hm hname).bind fun a _ _ _ ha => .pure ha
  -- A call, which is a statement of its own.
  · have hm : m.token.kind ≠ .eof := by simp [*]
    refine ((exprsAlike g file length n).callRest _ last.stop (hnext.less (by omega)) hm hname).bind
      fun call bs last₁ _ hcall => .pure ?_
    exact .node hcall.expr hcall (List.forall_mem_singleton.2 ⟨Nat.le_refl _, Nat.le_refl _⟩)
  -- An assignment to a member: the dot, the name of the member and `=`.
  · have hm : m.token.kind ≠ .eof := by simp [*]
    have hdot := hnext.next hm
    obtain ⟨x, xs, rfl⟩ := hdot.exists_cons
    refine .advance hm (.expectName fun hxKind => ?_)
    have hfield := hdot.next hxKind
    obtain ⟨y, ys, rfl⟩ := hfield.exists_cons
    refine .expectSymbol fun hyKind => ?_
    refine ((exprsAlike g file length n).binary 1 ((hfield.next hyKind).less (by omega))).bind
      fun value bs last₁ _ hvalue => .pure ?_
    -- The member lies between the name and the value.
    have hmember := (hdot.fills hxKind).widen (Nat.le_of_lt (hnext.fills hm).lt) (Nat.le_refl _)
    exact .assignMember _ _ hname hmember (hvalue.widen (Nat.le_of_lt (hfield.fills hyKind).lt) (Nat.le_refl _))
  -- Nothing else begins with a name.
  · exact .report .failure

/-- The members of a bitfield. -/
private theorem bitfieldMembers_alike {done : List BitfieldMember} (h : Room file length 1 n as last) :
    Alike True as last (g.bitfieldMembers n done) (bitfieldMembers n done) fun _ _ _ => True := by
  induction n generalizing as last done with
  -- On the number of steps; each member takes three tokens.
  | zero => exact h.absurd
  | succ n ih =>
    obtain ⟨l, ls, rfl⟩ := h.exists_cons
    unfold Guard.bitfieldMembers bitfieldMembers
    refine .atKind (by simp) (fun hkind => ?_) fun _ => .pure trivial
    have hname := h.next hkind
    obtain ⟨m, ms, rfl⟩ := hname.exists_cons
    refine .advance hkind (.expectSymbol fun hm => ?_)
    have hcolon := hname.next hm
    obtain ⟨w, ws, rfl⟩ := hcolon.exists_cons
    refine .expect (by simp) fun hw => ?_
    -- Whatever is reported about a member, the loop goes on behind it.
    have hrest : ∀ done, Alike True ws w.token.span (g.bitfieldMembers n done) (bitfieldMembers n done)
        fun _ _ _ => True := fun done => ih ((hcolon.next hw).less (by omega))
    -- A width may be no number, not positive, or that of a name used before.
    cases intValue? w.token.text with
    | none => exact .report (hrest done)
    | some v =>
      refine .ite (fun _ => .report (hrest done)) fun _ => ?_
      exact .ite (fun _ => .report (hrest done)) fun _ => hrest _

/-- The definition of a bitfield. -/
private theorem bitfieldDef_alike (h : Room file length few n (l :: ls) last) (hkind : l.token.kind ≠ .eof) :
    Alike True (l :: ls) last (g.bitfieldDef n) (bitfieldDef n) (LeavesStmt file last.stop) := by
  have hmark := h.next hkind
  obtain ⟨m, ms, rfl⟩ := hmark.exists_cons
  unfold Guard.bitfieldDef bitfieldDef
  -- The name, the members, and `end`.
  refine .advance hkind (.expectName fun hmKind => ?_)
  have hname := hmark.next hmKind
  refine (bitfieldMembers_alike (hname.less (by omega))).bind fun members bs last₁ hc _ => ?_
  have hroom := hname.after hc
  have hle := hname.stop_le hc
  have hlt := (hmark.fills hmKind).lt
  obtain ⟨e, es, rfl⟩ := hroom.exists_cons
  dsimp only
  -- An empty definition is reported, and the place is that of all its tokens.
  refine .complain_if (.expectEnd fun he => .lastSpan (.pure ?_))
  exact .leaf ((h.fills hkind).cover (hroom.fills he) (by omega)) rfl

/-- The value of a member of an enumeration. -/
private theorem enumValue_alike (h : Room file length few n (l :: ls) last) (hkind : l.token.kind ≠ .eof) :
    Alike True (l :: ls) last g.enumValue enumValue fun _ _ _ => True := by
  have hnext := h.next hkind
  obtain ⟨m, ms, rfl⟩ := hnext.exists_cons
  unfold Guard.enumValue enumValue
  refine .advance hkind (.still (.atKind _) ?_)
  dsimp only
  -- With a minus sign the number stands behind it.
  by_cases hm : m.token.kind = .symbol .minus
  · have hsign : m.token.kind ≠ .eof := by simp [hm]
    obtain ⟨d, ds, rfl⟩ := (hnext.next hsign).exists_cons
    rw [beq_iff_eq.2 hm]
    refine .advance hsign (.expect (by simp) fun _ => ?_)
    cases intValue? d.token.text with
    | none => exact .report .failure
    | some v => exact .pure trivial
  · rw [beq_eq_false_iff_ne.2 hm]
    refine .expect (by simp) fun _ => ?_
    cases intValue? m.token.text with
    | none => exact .report .failure
    | some v => exact .pure trivial

/-- The members of an enumeration. -/
private theorem enumMembers_alike {done : List (EnumSpec × Span)} (h : Room file length 1 n as last) :
    Alike True as last (g.enumMembers n done) (enumMembers n done) fun _ _ _ => True := by
  induction n generalizing as last done with
  | zero => exact h.absurd
  | succ n ih =>
    obtain ⟨l, ls, rfl⟩ := h.exists_cons
    unfold Guard.enumMembers enumMembers
    refine .atKind (by simp) (fun hkind => ?_) fun _ => .pure trivial
    have hname := h.next hkind
    obtain ⟨m, ms, rfl⟩ := hname.exists_cons
    refine .advance hkind (.atKind (by simp) (fun hm => ?_) fun _ => ih (hname.less (by omega)))
    exact (enumValue_alike hname hm).bind fun v bs last₁ hc _ => ih ((hname.after hc).less (by omega))

/-- The definition of an enumeration. -/
private theorem enumDef_alike (h : Room file length few n (l :: ls) last) (hkind : l.token.kind ≠ .eof) :
    Alike True (l :: ls) last (g.enumDef n) (enumDef n) (LeavesStmt file last.stop) := by
  have hmark := h.next hkind
  obtain ⟨m, ms, rfl⟩ := hmark.exists_cons
  unfold Guard.enumDef enumDef
  -- The name, the members, and `end`.
  refine .advance hkind (.expectName fun hmKind => ?_)
  have hname := hmark.next hmKind
  refine (enumMembers_alike (hname.less (by omega))).bind fun members bs last₁ hc _ => ?_
  have hroom := hname.after hc
  have hle := hname.stop_le hc
  have hlt := (hmark.fills hmKind).lt
  obtain ⟨e, es, rfl⟩ := hroom.exists_cons
  dsimp only
  refine .complain_if (.expectEnd fun he => .lastSpan ?_)
  -- The values are checked by the same function in both.
  generalize Enumeration.build m.token.text m.token.span (members.map (·.1)) = built
  obtain ⟨d, _ | fault⟩ := built
  · exact .pure (.leaf ((h.fills hkind).cover (hroom.fills he) (by omega)) rfl)
  · exact .report .failure

/-- A require. -/
private theorem requireStmt_alike (h : Room file length few n (l :: ls) last) (hkind : l.token.kind ≠ .eof) :
    Alike True (l :: ls) last g.requireStmt requireStmt (LeavesStmt file last.stop) := by
  have hmark := h.next hkind
  obtain ⟨m, ms, rfl⟩ := hmark.exists_cons
  refine .advance hkind (.expect (by simp) fun hm => .pure ?_)
  exact .leaf ((h.fills hkind).cover (hmark.fills hm) (Nat.le_refl _)) rfl

/-- The parameters of a function. -/
private theorem params_alike {done : List Param} (h : Room file length 1 n as last) :
    Alike True as last (g.params n done) (params n done) fun _ _ _ => True := by
  induction n generalizing as last done with
  | zero => exact h.absurd
  | succ n ih =>
    obtain ⟨l, ls, rfl⟩ := h.exists_cons
    unfold Guard.params params
    refine .atKind (by simp) (fun _ => .pure trivial) fun _ => .expectName fun hk => ?_
    have hname := h.next hk
    obtain ⟨m, ms, rfl⟩ := hname.exists_cons
    refine .atKind (by simp) (fun hcomma => ?_) fun _ => .pure trivial
    exact .advance hcomma (ih ((hname.next hcomma).less (by omega)))

/-- A return, which consumes its keyword also if it fails. -/
private theorem returnStmt_alike {may : Prop} {ofFunction : Bool}
    (h : Room file length 1 (n + 1) (l :: ls) last) (hkind : l.token.kind ≠ .eof) :
    Alike may (l :: ls) last (attempt (g.returnStmt (n + 1) ofFunction)) (attempt (Parser.returnStmt (n + 1) ofFunction))
      fun r bs last' => bs.length < (l :: ls).length ∧ ∀ s, r = some s → LeavesStmt file last.stop s bs last' := by
  have hnext := h.next hkind
  unfold Guard.returnStmt Parser.returnStmt
  refine .attempt_advance hkind ?_
  -- The value is attempted, so that its failure can be skipped past.
  refine ((exprsAlike g file length n).binary 1 (hnext.less (by omega))).attempt.bind fun r bs last₁ hc hr => ?_
  cases r with
  -- Without a value: what follows is skipped up to the next statement.
  | none => exact (Alike.resync h hkind (.step hkind hc)).bind fun _ _ _ _ _ => .failure
  | some value =>
    have hroom := hnext.after hc
    obtain ⟨m, ms, rfl⟩ := hroom.exists_cons
    -- A return that is not the last statement of a function is reported in both.
    refine .still (.atKind _) (.ite (fun _ => .pure ?_) fun _ => .report .failure)
    exact .valued rfl rfl (h.fills hkind) (hr value rfl)

/-! ## Statements with blocks -/

/-- The lexeme ahead closes a block that ends at one of the given keywords. -/
def AtClose (ends : List Keyword) (as : List Lexeme) : Prop := ∃ l ls, as = l :: ls ∧ closes ends l.token.kind = true

/-- All statement parsers at a number of steps.  A constant says how many steps a parser needs in front of the next
token.  Blocks never fail; a return that fails has consumed its keyword; and a conditional reaches to its end. -/
structure StmtsAlike (g : Guard) (file length n : Nat) : Prop where
  stmts : ∀ {may as last} ofFunction ends done lo, Room file length 3 n as last → lo ≤ last.stop →
    Laid file lo last.stop (done.reverse.map .stmt) →
    Alike may as last (g.stmts n ofFunction ends done) (stmts n ofFunction ends done) fun ss bs last' =>
      Leaves file lo (fun ss => ss.map .stmt) ss bs last' ∧ AtClose ends bs
  block : ∀ {may as last} ofFunction ends, Room file length 4 n as last →
    Alike may as last (g.block n ofFunction ends) (block n ofFunction ends) fun b bs last' =>
      Leaves file last.stop Block.held b bs last' ∧ AtClose ends bs
  returnStmt : ∀ {may l ls last} ofFunction, Room file length 1 n (l :: ls) last → l.token.kind ≠ .eof →
    Alike may (l :: ls) last (attempt (g.returnStmt n ofFunction)) (attempt (returnStmt n ofFunction)) fun r bs last' =>
      bs.length < (l :: ls).length ∧ ∀ s, r = some s → LeavesStmt file last.stop s bs last'
  stmt : ∀ {as last}, Room file length 2 n as last →
    Alike True as last (g.stmt n) (stmt n) (LeavesStmt file last.stop)
  condRest : ∀ {as last} mark lo, Room file length 7 n as last → mark.span.Fills file lo last.stop →
    Alike True as last (g.condRest n mark) (condRest n mark) fun s bs last' =>
      LeavesStmt file lo s bs last' ∧ last'.Fills file last.stop last'.stop
  elseRest : ∀ {as last} mark, Room file length 1 n as last →
    Alike True as last (g.elseRest n mark) (elseRest n mark) fun f bs last' =>
      Leaves file last.stop (fun f => f.toList.flatMap Block.held) f bs last' ∧ last'.Fills file last.stop last'.stop
  loop : ∀ {l ls last}, Room file length 1 n (l :: ls) last → l.token.kind ≠ .eof →
    Alike True (l :: ls) last (g.loop n) (loop n) (LeavesStmt file last.stop)
  forLoop : ∀ {l ls last}, Room file length 1 n (l :: ls) last → l.token.kind ≠ .eof →
    Alike True (l :: ls) last (g.forLoop n) (forLoop n) (LeavesStmt file last.stop)
  funcDef : ∀ {l ls last}, Room file length 1 n (l :: ls) last → l.token.kind ≠ .eof →
    Alike True (l :: ls) last (g.funcDef n) (funcDef n) (LeavesStmt file last.stop)

namespace StmtsAlike

section Steps

variable (ih : StmtsAlike g file length n)

include ih

/-- One turn of the loop that reads a block, and the turns behind it. -/
private theorem stmts_succ {may : Prop} {ofFunction : Bool} {ends : List Keyword} {done : List Stmt}
    {lo : Nat} (h : Room file length 3 (n + 1) as last) (hlo : lo ≤ last.stop)
    (hdone : Laid file lo last.stop (done.reverse.map .stmt)) :
    Alike may as last (g.stmts (n + 1) ofFunction ends done) (Parser.stmts (n + 1) ofFunction ends done)
      fun ss bs last' => Leaves file lo (fun ss => ss.map .stmt) ss bs last' ∧ AtClose ends bs := by
  obtain ⟨l, ls, rfl⟩ := h.exists_cons
  -- The turns behind one that has read a statement, and behind one that has not.
  have hmore : ∀ {bs last'} s, Consumes (l :: ls) last bs last' → bs.length < (l :: ls).length →
      LeavesStmt file last.stop s bs last' → Alike may bs last'
        (do g.turned (l :: ls).length; g.stmts n ofFunction ends (s :: done))
        (Parser.stmts n ofFunction ends (s :: done)) fun ss bs last' =>
          Leaves file lo (fun ss => ss.map .stmt) ss bs last' ∧ AtClose ends bs := by
    intro bs last' s hc hlt hs
    have hle := h.stop_le hc
    refine .turned hlt (ih.stmts _ _ _ lo ((h.shorter hc hlt).less (by omega)) (by omega) ?_)
    rw [List.reverse_cons, List.map_append]
    exact hdone.append hs hlo hle
  have hskipped : ∀ {bs last'}, Consumes (l :: ls) last bs last' → bs.length < (l :: ls).length → Alike may bs last'
      (do g.turned (l :: ls).length; g.stmts n ofFunction ends done)
      (Parser.stmts n ofFunction ends done) fun ss bs last' =>
        Leaves file lo (fun ss => ss.map .stmt) ss bs last' ∧ AtClose ends bs := by
    intro bs last' hc hlt
    have hle := h.stop_le hc
    exact .turned hlt (ih.stmts _ _ _ lo ((h.shorter hc hlt).less (by omega)) (by omega)
      (hdone.widen (Nat.le_refl _) hle))
  unfold Guard.stmts Parser.stmts
  -- A word that closes the block ends the loop.
  refine .peek (.ite (fun hclose => .pure ⟨hdone, l, ls, rfl, hclose⟩) fun hopen => .left ?_)
  -- The end mark always closes, so there is a token to consume.
  have hkind : l.token.kind ≠ .eof := fun hk => hopen (by rw [hk]; rfl)
  refine .ite (fun _ => ?_) fun _ => ?_
  -- A return, which has consumed at least its keyword when it is given up.
  · refine (ih.returnStmt ofFunction (h.less (by omega)) hkind).bind fun r bs last₁ hc hr => ?_
    cases r with
    | none => exact hskipped hc hr.1
    | some s => exact hmore s hc hr.1 (hr.2 s rfl)
  -- Any other statement: if it is given up, the parser skips past the error.
  · refine (ih.stmt (h.less (by omega))).attempt.bind fun r bs last₁ hc hr => ?_
    cases r with
    | none => exact (Alike.resync h hkind hc).bind fun _ cs last₂ hc₂ hlt => hskipped (hc.trans hc₂) hlt
    | some s => exact hmore s hc (Room.length_lt hc (Laid.lt (hr s rfl))) (hr s rfl)

/-- A block. -/
private theorem block_succ {may : Prop} {ofFunction : Bool} {ends : List Keyword}
    (h : Room file length 4 (n + 1) as last) :
    Alike may as last (g.block (n + 1) ofFunction ends) (Parser.block (n + 1) ofFunction ends)
      fun b bs last' => Leaves file last.stop Block.held b bs last' ∧ AtClose ends bs := by
  obtain ⟨l, ls, rfl⟩ := h.exists_cons
  unfold Guard.block Parser.block
  refine .peek ((ih.stmts _ _ _ _ (h.less (by omega)) (Nat.le_refl _) .nil).bind fun body bs last₁ _ hbody => ?_)
  exact .lastSpan (.pure hbody)

/-- A statement, by the token at which it begins. -/
private theorem stmt_succ (h : Room file length 2 (n + 1) as last) :
    Alike True as last (g.stmt (n + 1)) (Parser.stmt (n + 1)) (LeavesStmt file last.stop) := by
  obtain ⟨l, ls, rfl⟩ := h.exists_cons
  have hroom : Room file length 1 n (l :: ls) last := h.less (by omega)
  unfold Guard.stmt Parser.stmt
  -- The word ahead decides which statement it is.
  refine .peek ?_
  split <;> try simp only [*]
  · exact namedStmt_alike hroom (by simp [*])
  -- A conditional, whose mark is `if`.
  · have hkind : l.token.kind ≠ .eof := by simp [*]
    refine .advance hkind ((ih.condRest _ last.stop ((h.next hkind).less (by omega)) (h.fills hkind)).weaken ?_)
    exact fun _ _ _ _ hs => hs.1
  · exact ih.loop hroom (by simp [*])
  · exact ih.forLoop hroom (by simp [*])
  · exact ih.funcDef hroom (by simp [*])
  · exact bitfieldDef_alike hroom (by simp [*])
  · exact enumDef_alike hroom (by simp [*])
  · exact requireStmt_alike hroom (by simp [*])
  -- These two consist of their keyword or their text alone.
  · have hkind : l.token.kind ≠ .eof := by simp [*]
    exact .advance hkind (.pure (.leaf (h.fills hkind) rfl))
  · have hkind : l.token.kind ≠ .eof := by simp [*]
    exact .advance hkind (.pure (.leaf (h.fills hkind) rfl))
  · exact .failure
  · exact .report .failure

/-- Everything behind `if` or `elif`. -/
private theorem condRest_succ {mark : Token} {lo : Nat} (h : Room file length 7 (n + 1) as last)
    (hmark : mark.span.Fills file lo last.stop) :
    Alike True as last (g.condRest (n + 1) mark) (Parser.condRest (n + 1) mark) fun s bs last' =>
      LeavesStmt file lo s bs last' ∧ last'.Fills file last.stop last'.stop := by
  unfold Guard.condRest Parser.condRest
  -- Test, block and else part lie one behind the other.
  refine ((exprsAlike g file length n).binary 1 (h.less (by omega))).bind fun test bs last₁ hc₁ htest => ?_
  have hroom₁ := h.after hc₁
  have hle₁ := h.stop_le hc₁
  refine (ih.block _ _ (hroom₁.less (by omega))).bind fun body cs last₂ hc₂ hbody => ?_
  have hroom₂ := hroom₁.after hc₂
  have hle₂ := hroom₁.stop_le hc₂
  refine (ih.elseRest mark (hroom₂.less (by omega))).bind fun other ds last₃ hc₃ hother => .lastSpan (.pure ?_)
  have hle₃ := hroom₂.stop_le hc₃
  -- The end of the else part is the end of the whole.
  have hend := hother.2.widen (Nat.le_trans hle₁ hle₂) (Nat.le_refl _)
  refine ⟨.marked rfl hmark hend rfl ?_, hend⟩
  exact Laid.append htest (hbody.1.append hother.1 hle₂ hle₃) hle₁ (Nat.le_trans hle₂ hle₃)

/-- The rest of a conditional behind its first block. -/
private theorem elseRest_succ {mark : Token} (h : Room file length 1 (n + 1) as last) :
    Alike True as last (g.elseRest (n + 1) mark) (Parser.elseRest (n + 1) mark) fun f bs last' =>
      Leaves file last.stop (fun f => f.toList.flatMap Block.held) f bs last'
        ∧ last'.Fills file last.stop last'.stop := by
  obtain ⟨l, ls, rfl⟩ := h.exists_cons
  unfold Guard.elseRest Parser.elseRest
  -- An `elif` begins another conditional, `else` a block, and otherwise `end` is ahead.
  refine .atKind (by simp) (fun hkind => ?_) fun _ => .atKind (by simp) (fun hkind => ?_) fun _ => .expectEnd fun hkind => ?_
  · refine .advance hkind ((ih.condRest _ last.stop ((h.next hkind).less (by omega)) (h.fills hkind)).bind
      fun nested bs last₁ _ hnested => .pure ⟨hnested.1, ?_⟩)
    exact hnested.2.widen (Nat.le_of_lt (h.fills hkind).lt) (Nat.le_refl _)
  -- The block of `else` ends at `end`.
  · have hnext := h.next hkind
    have hlt := (h.fills hkind).lt
    refine .advance hkind ((ih.block _ _ (hnext.less (by omega))).bind fun body bs last₁ hc hbody => ?_)
    have hroom := hnext.after hc
    have hle := hnext.stop_le hc
    obtain ⟨e, es, rfl⟩ := hroom.exists_cons
    refine .expectEnd fun he => .pure ?_
    have hend := hroom.fills he
    refine ⟨?_, hend.widen (by omega) (Nat.le_refl _)⟩
    rw [Leaves, Option.toList_some, List.flatMap_singleton]
    exact hbody.1.widen (Nat.le_of_lt hlt) (Nat.le_of_lt hend.lt)
  · exact .pure ⟨.nil, h.fills hkind⟩

/-- A loop with a condition. -/
private theorem loop_succ (h : Room file length 1 (n + 1) (l :: ls) last) (hkind : l.token.kind ≠ .eof) :
    Alike True (l :: ls) last (g.loop (n + 1)) (Parser.loop (n + 1)) (LeavesStmt file last.stop) := by
  have hnext := h.next hkind
  unfold Guard.loop Parser.loop
  -- Test and body lie between the mark and `end`.
  refine .advance hkind (((exprsAlike g file length n).binary 1 (hnext.less (by omega))).bind
    fun test bs last₁ hc₁ htest => ?_)
  have hroom₁ := hnext.after hc₁
  have hle₁ := hnext.stop_le hc₁
  refine (ih.block _ _ (hroom₁.less (by omega))).bind fun body cs last₂ hc₂ hbody => ?_
  have hroom₂ := hroom₁.after hc₂
  have hle₂ := hroom₁.stop_le hc₂
  obtain ⟨e, es, rfl⟩ := hroom₂.exists_cons
  refine .expectEnd fun he => .lastSpan (.pure ?_)
  have hend := hroom₂.fills he
  refine .marked rfl (h.fills hkind) (hend.widen (Nat.le_trans hle₁ hle₂) (Nat.le_refl _)) rfl ?_
  exact (Laid.append htest hbody.1 hle₁ hle₂).widen (Nat.le_refl _) (Nat.le_of_lt hend.lt)

/-- A loop with a header of three clauses. -/
private theorem forLoop_succ (h : Room file length 1 (n + 1) (l :: ls) last) (hkind : l.token.kind ≠ .eof) :
    Alike True (l :: ls) last (g.forLoop (n + 1)) (Parser.forLoop (n + 1)) (LeavesStmt file last.stop) := by
  have hroom₀ : Room file length 12 n ls l.token.span := (h.next hkind).less (by omega)
  obtain ⟨i, is, rfl⟩ := hroom₀.exists_cons
  unfold Guard.forLoop Parser.forLoop
  refine .advance hkind ?_
  dsimp only
  -- The first clause, and the semicolon behind it.
  refine .optional (Leaves file l.token.span.stop clauseHeld) .nil (assignment_alike hroom₀)
    fun init bs last₁ hc₁ hinit => ?_
  have hroom₁ := hroom₀.after hc₁
  have hle₁ := hroom₀.stop_le hc₁
  obtain ⟨s, ss, rfl⟩ := hroom₁.exists_cons
  refine .expectSymbol fun hsKind => ?_
  have hroom₂ := hroom₁.next hsKind
  have hlt₂ := (hroom₁.fills hsKind).lt
  obtain ⟨c, cs, rfl⟩ := hroom₂.exists_cons
  -- The test, and the semicolon behind it.
  refine .optional (Leaves file s.token.span.stop fun c => c.toList.map .expr) .nil
    ((exprsAlike g file length n).binary 1 (hroom₂.less (by omega))) fun test ds last₃ hc₃ htest => ?_
  have hroom₃ := hroom₂.after hc₃
  have hle₃ := hroom₂.stop_le hc₃
  obtain ⟨t, ts, rfl⟩ := hroom₃.exists_cons
  refine .expectSymbol fun htKind => ?_
  have hroom₄ := hroom₃.next htKind
  have hlt₄ := (hroom₃.fills htKind).lt
  -- The last clause, the block and its end.
  refine (forStep_alike hroom₄).bind fun step es last₅ hc₅ hstep => ?_
  have hroom₅ := hroom₄.after hc₅
  have hle₅ := hroom₄.stop_le hc₅
  refine (ih.block _ _ (hroom₅.less (by omega))).bind fun body fs last₆ hc₆ hbody => ?_
  have hroom₆ := hroom₅.after hc₆
  have hle₆ := hroom₅.stop_le hc₆
  obtain ⟨e, es, rfl⟩ := hroom₆.exists_cons
  refine .expectEnd fun he => .lastSpan (.pure ?_)
  have hend := hroom₆.fills he
  refine .marked rfl (h.fills hkind) (hend.widen (by omega) (Nat.le_refl _)) rfl ?_
  -- The three clauses and the body, one behind the other.
  have hfirst := hinit.append (Laid.widen htest (Nat.le_of_lt hlt₂) (Nat.le_refl _)) hle₁ (by omega)
  have hheader := hfirst.append (Laid.widen hstep (Nat.le_of_lt hlt₄) (Nat.le_refl _)) (by omega) (by omega)
  exact (hheader.append hbody.1 (by omega) hle₆).widen (Nat.le_refl _) (Nat.le_of_lt hend.lt)

/-- The definition of a function. -/
private theorem funcDef_succ (h : Room file length 1 (n + 1) (l :: ls) last) (hkind : l.token.kind ≠ .eof) :
    Alike True (l :: ls) last (g.funcDef (n + 1)) (Parser.funcDef (n + 1)) (LeavesStmt file last.stop) := by
  have hmark := h.next hkind
  obtain ⟨m, ms, rfl⟩ := hmark.exists_cons
  unfold Guard.funcDef Parser.funcDef
  -- The name and the opening parenthesis.
  refine .advance hkind (.expectName fun hmKind => ?_)
  have hname := hmark.next hmKind
  have hlt₁ := (hmark.fills hmKind).lt
  obtain ⟨o, os, rfl⟩ := hname.exists_cons
  refine .expectSymbol fun hoKind => ?_
  have hopen := hname.next hoKind
  have hlt₂ := (hname.fills hoKind).lt
  -- The parameters and the closing parenthesis.
  refine (params_alike (hopen.less (by omega))).bind fun ps bs last₁ hc₁ _ => ?_
  have hroom₁ := hopen.after hc₁
  have hle₁ := hopen.stop_le hc₁
  obtain ⟨p, ps, rfl⟩ := hroom₁.exists_cons
  refine .expectSymbol fun hpKind => ?_
  have hclose := hroom₁.next hpKind
  have hlt₃ := (hroom₁.fills hpKind).lt
  -- The body and its `end`; only the body holds nodes.
  refine (ih.block _ _ (hclose.less (by omega))).bind fun body cs last₂ hc₂ hbody => ?_
  have hroom₂ := hclose.after hc₂
  have hle₂ := hclose.stop_le hc₂
  obtain ⟨e, es, rfl⟩ := hroom₂.exists_cons
  refine .expectEnd fun he => .lastSpan (.pure ?_)
  have hend := hroom₂.fills he
  refine .marked rfl (h.fills hkind) (hend.widen (by omega) (Nat.le_refl _)) rfl ?_
  exact hbody.1.widen (by omega) (Nat.le_of_lt hend.lt)

end Steps

end StmtsAlike

/-- Every number of steps that is enough. -/
theorem stmtsAlike (g : Guard) (file length n : Nat) : StmtsAlike g file length n := by
  induction n with
  -- Without steps there is no room.
  | zero =>
    constructor
    · exact fun _ _ _ _ h _ _ => h.absurd
    · exact fun _ _ h => h.absurd
    · exact fun _ h _ => h.absurd
    · exact fun h => h.absurd
    · exact fun _ _ h _ => h.absurd
    · exact fun _ h => h.absurd
    · exact fun h _ => h.absurd
    · exact fun h _ => h.absurd
    · exact fun h _ => h.absurd
  | succ n ih =>
    exact ⟨fun _ _ _ _ h hlo hdone => ih.stmts_succ h hlo hdone, fun _ _ h => ih.block_succ h,
      fun _ h hkind => returnStmt_alike h hkind, fun h => ih.stmt_succ h, fun _ _ h hmark => ih.condRest_succ h hmark,
      fun _ h => ih.elseRest_succ h, fun h hkind => ih.loop_succ h hkind, fun h hkind => ih.forLoop_succ h hkind,
      fun h hkind => ih.funcDef_succ h hkind⟩

end AisScript.Parser
