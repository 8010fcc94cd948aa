import AisScript.Proofs.Accepting
import AisScript.Proofs.ReadingStmt

/-!
# Accepting programs

The parser accepts exactly the words that the grammar derives, with one exception: a name behind the
second semicolon of a loop header is always read as that of the step.  A header without a step must not
stand in front of a body that begins with a call or an assignment to a member.  In front of an assignment
it may: that is read as the step, and the words are those of another tree.

* `StatementTaken`      what is shown of the words of a statement
* `Statement.taken`     statements are accepted
* `parse_clean_iff`     which files are parsed without reports
-/

namespace AisScript.Grammar

open AisScript.Parser

/-! ## Words between statements -/

/-- The kinds of words that begin a statement other than a return. -/
def opensStmt : Token.Kind → Bool
  | .ident | .code | .keyword .ifKw | .keyword .whileKw | .keyword .forKw | .keyword .breakKw
  | .keyword .requireKw | .keyword .bitfieldKw | .keyword .enumKw | .keyword .defKw => true
  | _ => false

/-- The kinds of words that stand behind a statement. -/
def borders (k : Token.Kind) : Bool :=
  opensStmt k || k == .eof || k == .keyword .returnKw || k == .keyword .endKw || k == .keyword .elseKw
    || k == .keyword .elifKw

/-- No expression goes on behind a statement. -/
private theorem settled_of_borders {rest : List Word} (h : borders (headKind rest) = true) :
    Settled rest := by
  -- The words that border on a statement are keywords, names
  -- and the end; none of them goes on with an operand.
  have hkind : ∀ k, borders k = true →
      accessOf? k = none ∧ k ≠ .symbol .lParen ∧ k ≠ .symbol .starStar ∧ infixOf? k = none := by
    intro k hk
    cases k with
    | keyword w =>
      refine ⟨rfl, nofun, nofun, ?_⟩
      cases w <;> first | rfl | exact nomatch hk
    | symbol s => exact nomatch hk
    | int => exact nomatch hk
    | float => exact nomatch hk
    | string => exact nomatch hk
    | invalid => exact nomatch hk
    | _ => exact ⟨rfl, nofun, nofun, rfl⟩
  obtain ⟨haccess, hparen, hpower, hoperator⟩ := hkind _ h
  exact ⟨⟨haccess, hparen, hpower⟩, hoperator⟩

/-- A statement begins like one. -/
theorem Statement.opens {s : Stmt} {ws : List Word} (h : Statement s ws) (rest : List Word) :
    opensStmt (headKind (ws ++ rest)) = true := by
  cases h with
  | assign ha => cases ha; rfl
  | _ => rfl

/-- Behind a statement stand others, or what stands behind all of them. -/
private theorem Statements.border {ofFunction : Bool} {ss : List Stmt} {ws rest : List Word}
    (h : Statements ofFunction ss ws) (hrest : borders (headKind rest) = true) :
    borders (headKind (ws ++ rest)) = true := by
  cases h with
  | none => exact hrest
  | ret => rfl
  | more hs _ =>
    rw [List.append_assoc, borders, hs.opens]
    rfl

/-- The keywords that blocks end at. -/
def Ends (ends : List Keyword) : Prop := ∀ k ∈ ends, k = .elifKw ∨ k = .elseKw ∨ k = .endKw

/-- What closes a block stands behind statements. -/
private theorem Ends.borders {ends : List Keyword} (h : Ends ends) {k : Token.Kind}
    (hk : closes ends k = true) : borders k = true := by
  unfold closes at hk
  split at hk
  · rfl
  · rcases h _ (List.contains_iff_mem.1 hk) with rfl | rfl | rfl <;> rfl
  · exact nomatch hk

/-- No statement closes a block. -/
private theorem Ends.not_closes {ends : List Keyword} (h : Ends ends) {k : Token.Kind}
    (hk : opensStmt k = true ∨ k = .keyword .returnKw) : ¬closes ends k = true := by
  intro hclosed
  unfold closes at hclosed
  split at hclosed
  · rcases hk with hk | hk <;> exact nomatch hk
  · rcases h _ (List.contains_iff_mem.1 hclosed) with rfl | rfl | rfl <;>
      rcases hk with hk | hk <;> exact nomatch hk
  · exact nomatch hclosed

/-! ## Statements without blocks -/

section Parts

variable {n : Nat} {ws rest : List Word}

/-- The value of an assignment is read. -/
private theorem accepts_assignRest {v : Expr} (hv : Expression v ws) (name : Token)
    (hfuel : 12 * (.symbol .assign :: (ws ++ rest)).length + 1 ≤ n) (hrest : Settled rest) :
    Accepts (.symbol .assign :: (ws ++ rest)) (assignRest n name) rest := by
  rw [List.length_cons] at hfuel
  unfold assignRest
  exact Takes.advanceSymbol.bind fun _ _ => (hv.taken (by omega) hrest).bind fun _ _ => Takes.pure trivial

/-- An assignment is read. -/
private theorem accepts_assignment {a : Assign} (ha : Assignment a ws)
    (hfuel : 12 * (ws ++ rest).length + 1 ≤ n)
    (hrest : Settled rest) : Accepts (ws ++ rest) (assignment n) rest := by
  cases ha with
  | mk hv =>
    simp only [List.cons_append, List.length_cons] at hfuel ⊢
    unfold assignment
    refine Takes.expectName.bind fun name _ => Takes.atSymbol.bind fun b hb => ?_
    rw [if_pos (hb.2 rfl)]
    exact accepts_assignRest hv name (by rw [List.length_cons]; omega) hrest

/-- The step of a loop header is read. -/
private theorem accepts_forStep {a : Assign} (ha : Assignment a ws) (hfuel : 12 * (ws ++ rest).length + 1 ≤ n)
    (hrest : Settled rest) : Accepts (ws ++ rest) (forStep n) rest := by
  cases ha with
  | mk hv =>
    simp only [List.cons_append, List.length_cons] at hfuel ⊢
    unfold forStep
    refine (Takes.atKind .ident).bind fun b hb => ?_
    rw [if_pos (hb.2 rfl)]
    refine Takes.advanceName.bind fun name _ => Takes.atSymbol.bind fun b' hb' => ?_
    rw [if_pos (hb'.2 rfl)]
    refine Takes.bind (accepts_assignRest hv name (by rw [List.length_cons]; omega) hrest) fun a _ => ?_
    exact Takes.pure trivial

/-- There is no step in front of anything but a name. -/
private theorem accepts_forStep_none (h : headKind ws ≠ .ident) : Accepts ws (forStep n) ws := by
  unfold forStep
  refine (Takes.atKind .ident).bind fun b hb => ?_
  rw [if_neg (mt hb.1 h)]
  exact Takes.pure trivial

/-- A statement that begins with a name is read. -/
private theorem accepts_namedStmt {s : Stmt} (h : Statement s ws) (hname : headKind (ws ++ rest) = .ident)
    (hfuel : 12 * (ws ++ rest).length + 1 ≤ n) (hrest : Settled rest) :
    Accepts (ws ++ rest) (namedStmt n) rest := by
  unfold namedStmt
  -- Three kinds of statements begin with a name; the word behind it tells which one it is.
  cases h with
  | assign ha =>
    cases ha with
    | mk hv =>
      simp only [List.cons_append, List.length_cons] at hfuel ⊢
      refine Takes.advanceName.bind fun name _ => Takes.peekKind.bind fun k hk => ?_
      have hk : k = .symbol .assign := hk
      subst hk
      refine Takes.bind (accepts_assignRest hv name (by rw [List.length_cons]; omega) hrest) fun a _ => ?_
      exact Takes.pure trivial
  | call hargs =>
    simp only [List.cons_append, List.append_assoc, List.nil_append, List.length_cons] at hfuel ⊢
    refine Takes.advanceName.bind fun name _ => Takes.peekKind.bind fun k hk => ?_
    have hk : k = .symbol .lParen := hk
    -- The parenthesis makes it a call.
    subst hk
    refine Takes.bind (hargs.taken.callRest name (by rw [List.length_cons]; omega)) fun e _ => ?_
    exact Takes.pure trivial
  | assignMember hv =>
    simp only [List.cons_append, List.length_cons] at hfuel ⊢
    refine Takes.advanceName.bind fun name _ => Takes.peekKind.bind fun k hk => ?_
    have hk : k = .symbol .dot := hk
    -- The dot makes it an assignment to a member.
    subst hk
    refine Takes.advanceSymbol.bind fun _ _ => Takes.expectName.bind fun m _ =>
      Takes.expectSymbol.bind fun _ _ => (hv.taken (by omega) hrest).bind fun v _ => ?_
    exact Takes.pure trivial
  -- The other statements begin with a keyword.
  | _ => exact nomatch hname

/-- The members of a bitfield are read, with distinct names. -/
theorem Fields.taken {ms : List BitfieldMember} (h : Fields ms ws) :
    ∀ {n : Nat} {done : List BitfieldMember},
    12 * (ws ++ .keyword .endKw :: rest).length + 1 ≤ n →
    (∀ m ∈ ms, ∀ d ∈ done, d.name ≠ m.name) → (ms.map BitfieldMember.name).Nodup →
    Takes (ws ++ .keyword .endKw :: rest) (bitfieldMembers n done) (fun r => r = done.reverse ++ ms)
      (.keyword .endKw :: rest) := by
  -- Induction over the members; `done` holds those that are read, in reverse.
  induction h with
  | none =>
    intro n done hfuel _ _
    obtain ⟨n, rfl⟩ := exists_step hfuel
    unfold bitfieldMembers
    refine (Takes.atKind .ident).bind fun b hb => ?_
    -- `end` is ahead, so the members are complete.
    rw [if_neg (mt hb.1 fun heq => by cases heq)]
    exact Takes.pure (List.append_nil _).symm
  | @more m t v ms ws hv hpos hms ih =>
    intro n done hfuel hnew hdistinct
    simp only [List.cons_append, List.length_cons] at hfuel ⊢
    obtain ⟨n, rfl⟩ := exists_step hfuel
    unfold bitfieldMembers
    refine (Takes.atKind .ident).bind fun b hb => ?_
    -- A name is ahead, so there is another member.
    rw [if_pos (hb.2 rfl)]
    refine Takes.advanceName.bind fun name hname => Takes.expectSymbol.bind fun _ _ =>
      (Takes.expect (w := .int t) (by simp)).bind fun width hwidth => ?_
    have hname : name.text = m := by
      rw [Token.word_ident (kind_of_word hname)] at hname
      exact Word.name.inj hname
    have hwidth : width.text = t := by
      rw [Token.word_int (kind_of_word hwidth)] at hwidth
      exact Word.int.inj hwidth
    -- No earlier member has its name.
    have hfresh : ¬(done.any fun d => d.name == m) = true := by
      intro hany
      obtain ⟨d, hd, heq⟩ := List.any_eq_true.1 hany
      exact hnew _ List.mem_cons_self d hd (beq_iff_eq.1 heq)
    rw [hname, hwidth, hv]
    dsimp only
    -- The width is positive and the name is new, so nothing is reported.
    rw [if_neg (Int64.not_le.2 hpos), if_neg hfresh]
    obtain ⟨hnot, hdistinct⟩ := List.nodup_cons.1 hdistinct
    refine (ih (by omega) ?_ hdistinct).weaken fun r hr => ?_
    · -- The members ahead differ from this one and from those in front of it.
      intro m' hm' d hd
      rcases List.mem_cons.1 hd with rfl | hd
      · exact fun heq => hnot (List.mem_map.2 ⟨m', hm', heq.symm⟩)
      · exact hnew m' (List.mem_cons_of_mem _ hm') d hd
    · rw [hr, reverse_cons_append]

/-- A given value of a member of an enumeration is read. -/
theorem Value.taken {v : Int64} (h : Value v ws) :
    Takes (.symbol .assign :: (ws ++ rest)) enumValue (fun r => r = v) rest := by
  unfold enumValue
  refine Takes.advanceSymbol.bind fun _ _ => Takes.atSymbol.bind fun b hb => ?_
  cases h with
  | @positive t v hv =>
    -- No minus sign is ahead.
    rw [if_neg (mt hb.1 nofun)]
    refine (Takes.expect (w := .int t) nofun).bind fun tok htok => ?_
    rw [Token.word_int (kind_of_word htok)] at htok
    rw [Word.int.inj htok, hv]
    exact Takes.pure (if_neg (mt hb.1 nofun))
  | @negative t v hv =>
    -- The minus sign is consumed, and the value is the negated one.
    rw [if_pos (hb.2 rfl)]
    refine Takes.advanceSymbol.bind fun _ _ => (Takes.expect (w := .int t) nofun).bind fun tok htok => ?_
    rw [Token.word_int (kind_of_word htok)] at htok
    rw [Word.int.inj htok, hv]
    exact Takes.pure (if_pos (hb.2 rfl))

/-- A member without a value is not followed by one. -/
private theorem Members.head_ne {counter : Int64} {ms : List EnumMember} (h : Members counter ms ws) :
    headKind (ws ++ .keyword .endKw :: rest) ≠ .symbol .assign := by
  cases h <;> exact nofun

/-- The members of an enumeration are read, with values in order. -/
theorem Members.taken {counter : Int64} {ms : List EnumMember} (h : Members counter ms ws) :
    ∀ {n : Nat} {done : List (EnumSpec × Span)}, 12 * (ws ++ .keyword .endKw :: rest).length + 1 ≤ n →
    Takes (ws ++ .keyword .endKw :: rest) (enumMembers n done) (fun r => ∃ tail, r = done.reverse ++ tail
      ∧ Enumeration.valuesFrom counter (tail.map (·.1)) = (ms, Option.none)) (.keyword .endKw :: rest) := by
  -- Induction over the members; the counter is the value
  -- that the next one has without a value of its own.
  induction h with
  | none =>
    intro n done hfuel
    obtain ⟨n, rfl⟩ := exists_step hfuel
    unfold enumMembers
    refine (Takes.atKind .ident).bind fun b hb => ?_
    -- `end` is ahead, so the members are complete.
    rw [if_neg (mt hb.1 fun heq => by cases heq)]
    exact Takes.pure ⟨[], (List.append_nil _).symm, rfl⟩
  | @next counter m ms ws hms ih =>
    intro n done hfuel
    simp only [List.cons_append, List.length_cons] at hfuel ⊢
    obtain ⟨n, rfl⟩ := exists_step hfuel
    unfold enumMembers
    refine (Takes.atKind .ident).bind fun b hb => ?_
    rw [if_pos (hb.2 rfl)]
    refine Takes.advanceName.bind fun name hname => Takes.atSymbol.bind fun b' hb' => ?_
    rw [Token.word_ident (kind_of_word hname)] at hname
    -- No `=` is ahead: members begin with names.
    rw [if_neg (mt hb'.1 (hms.head_ne)), Word.name.inj hname]
    refine (ih (by omega)).weaken fun r hread => ?_
    obtain ⟨tail, hr, hvalues⟩ := hread
    refine ⟨(⟨m, .none⟩, name.span) :: tail, ?_, ?_⟩
    · rw [hr, reverse_cons_append]
    · simp only [List.map_cons, Enumeration.valuesFrom, hvalues]
  | @given counter v m ms vs ws hv hlt hms ih =>
    intro n done hfuel
    simp only [List.cons_append, List.append_assoc, List.length_cons] at hfuel ⊢
    obtain ⟨n, rfl⟩ := exists_step hfuel
    unfold enumMembers
    refine (Takes.atKind .ident).bind fun b hb => ?_
    rw [if_pos (hb.2 rfl)]
    refine Takes.advanceName.bind fun name hname => Takes.atSymbol.bind fun b' hb' => ?_
    rw [Token.word_ident (kind_of_word hname)] at hname
    -- A value is given behind `=`, and it is not below the counter.
    rw [if_pos (hb'.2 rfl), Word.name.inj hname]
    refine hv.taken.bind fun v' hv' => ?_
    rw [hv']
    rw [List.length_append] at hfuel
    refine (ih (by omega)).weaken fun r hread => ?_
    obtain ⟨tail, hr, hvalues⟩ := hread
    refine ⟨(⟨m, some v⟩, name.span) :: tail, ?_, ?_⟩
    -- The given value is admitted and the members behind it are numbered from there on.
    · rw [hr, reverse_cons_append]
    · simp only [List.map_cons, Enumeration.valuesFrom, if_neg (Int64.not_le.2 hlt), hvalues]

/-- The parameters of a function are read. -/
theorem Parameters.taken {ps : List Param} (h : Parameters ps ws) : ∀ {n : Nat} {done : List Param},
    12 * (ws ++ .symbol .rParen :: rest).length + 1 ≤ n →
    Accepts (ws ++ .symbol .rParen :: rest) (params n done) (.symbol .rParen :: rest) := by
  -- Induction over the parameters; `done` holds those that are read.
  induction h with
  | none =>
    intro n done hfuel
    obtain ⟨n, rfl⟩ := exists_step hfuel
    unfold params
    refine Takes.atSymbol.bind fun b hb => ?_
    -- The parenthesis closes the list at once.
    rw [if_pos (hb.2 rfl)]
    exact Takes.pure trivial
  | last =>
    intro n done hfuel
    obtain ⟨n, rfl⟩ := exists_step hfuel
    unfold params
    refine Takes.atSymbol.bind fun b hb => ?_
    rw [if_neg (mt hb.1 fun heq => by cases heq)]
    refine Takes.expectName.bind fun p _ => Takes.atSymbol.bind fun b' hb' => ?_
    -- No comma follows the last parameter.
    rw [if_neg (mt hb'.1 fun heq => by cases heq)]
    exact Takes.pure trivial
  | more _ ih =>
    intro n done hfuel
    simp only [List.cons_append, List.length_cons] at hfuel ⊢
    obtain ⟨n, rfl⟩ := exists_step hfuel
    unfold params
    refine Takes.atSymbol.bind fun b hb => ?_
    rw [if_neg (mt hb.1 fun heq => by cases heq)]
    refine Takes.expectName.bind fun p _ => Takes.atSymbol.bind fun b' hb' => ?_
    -- A comma follows, so there is another one.
    rw [if_pos (hb'.2 rfl)]
    exact Takes.advanceSymbol.bind fun _ _ => ih (by omega)

end Parts

/-! ## What is shown of the words of a statement -/

/-- The words of a statement are read as one, up to where it borders on what follows. -/
def StatementTaken (ws : List Word) : Prop :=
  ∀ n rest, 12 * (ws ++ rest).length + 2 ≤ n → borders (headKind rest) = true →
    Accepts (ws ++ rest) (stmt n) rest

/-- A function's own block ends at `end`. -/
def StmtsTaken (ofFunction : Bool) (ws : List Word) : Prop :=
  ∀ n rest ends done, 12 * (ws ++ rest).length + 3 ≤ n → Ends ends → closes ends (headKind rest) = true →
    (ofFunction = true → headKind rest = .keyword .endKw) →
    Accepts (ws ++ rest) (stmts n ofFunction ends done) rest

/-- The words of a block are read up to a word that closes it. -/
def BlockTaken (ofFunction : Bool) (ws : List Word) : Prop :=
  ∀ n rest ends, 12 * (ws ++ rest).length + 4 ≤ n → Ends ends → closes ends (headKind rest) = true →
    (ofFunction = true → headKind rest = .keyword .endKw) →
    Accepts (ws ++ rest) (block n ofFunction ends) rest

/-- What stands behind the second semicolon of a loop header is read as a step, if there is one, and a
block. -/
def BodyTaken (ws : List Word) : Prop :=
  ∀ n rest, 12 * (ws ++ .keyword .endKw :: rest).length + 4 ≤ n → ∃ vs,
    Accepts (ws ++ .keyword .endKw :: rest) (forStep n) vs
      ∧ Accepts vs (block n false [.endKw]) (.keyword .endKw :: rest)

/-- The words of an else part are read to their end, whatever follows. -/
def ElseTaken (ws : List Word) : Prop :=
  ∀ n rest mark, 12 * (ws ++ rest).length + 1 ≤ n → Accepts (ws ++ rest) (elseRest n mark) rest

/-- Statements as a block of their own and, where they may be one, as the body of a loop that has no
step. -/
structure StatementsTaken (ofFunction : Bool) (ss : List Stmt) (ws : List Word) : Prop where
  stmts : StmtsTaken ofFunction ws
  body : ofFunction = false → ∀ sp, (Block.mk [] ss sp).opensWithName = false → BodyTaken ws

/-- A block that may be the body of a loop without a step. -/
structure BlocksTaken (ofFunction : Bool) (b : Block) (ws : List Word) : Prop where
  block : BlockTaken ofFunction ws
  body : ofFunction = false → b.opensWithName = false → BodyTaken ws

/-- Statements are a block. -/
theorem StmtsTaken.block {ofFunction : Bool} {ws : List Word} (h : StmtsTaken ofFunction ws) :
    BlockTaken ofFunction ws := by
  intro n rest ends hfuel hends hclosed hfunction
  obtain ⟨n, rfl⟩ := exists_step hfuel
  unfold Parser.block
  exact Takes.peekHead.bind fun first _ => (h n rest ends [] (by omega) hends hclosed hfunction).bind
    fun body _ => Takes.lastSpan.bind fun last _ => Takes.pure trivial

private theorem ends_end : Ends [.endKw] := fun _ hk => .inr (.inr (List.mem_singleton.1 hk))

/-! ## The cases of statements -/

section Cases

variable {ws us cs ts fs is bs : List Word}

theorem StatementsTaken.none {ofFunction : Bool} : StatementsTaken ofFunction [] [] := by
  have hstmts : StmtsTaken ofFunction [] := by
    intro n rest ends done hfuel hends hclosed _
    obtain ⟨n, rfl⟩ := exists_step hfuel
    unfold Parser.stmts
    refine Takes.peekHead.bind fun t ht => ?_
    rw [ht, if_pos (by exact hclosed)]
    exact Takes.pure trivial
  refine ⟨hstmts, ?_⟩
  rintro rfl sp _ n rest hfuel
  exact ⟨_, accepts_forStep_none (fun heq => by cases heq), hstmts.block n _ _ hfuel ends_end rfl (by simp)⟩

theorem StatementsTaken.ret {sp : Span} {v : Expr} (hv : Expression v ws) :
    StatementsTaken true [.ret sp v] (.keyword .returnKw :: ws) := by
  refine ⟨?_, nofun⟩
  intro n rest ends done hfuel hends hclosed hfunction
  rw [List.cons_append] at hfuel ⊢
  obtain ⟨n, rfl⟩ := exists_step hfuel
  rw [List.length_cons] at hfuel
  have hsteps : 12 * (ws ++ rest).length + 13 ≤ n := by omega
  have hsettled := settled_of_borders (hends.borders hclosed)
  -- In front of `end` the return is the last statement.
  have hreturn : Accepts (.keyword .returnKw :: (ws ++ rest)) (returnStmt n true) rest := by
    obtain ⟨n, rfl⟩ := exists_step hsteps
    unfold Parser.returnStmt
    refine Takes.advanceKeyword.bind fun mark _ => (Takes.attempt (hv.taken (by omega) hsettled)).bind
      fun r hr => ?_
    obtain ⟨value, rfl, _⟩ := hr
    refine Takes.atKeyword.bind fun closed hc => ?_
    rw [hc.2 (hfunction rfl)]
    exact Takes.pure trivial
  unfold Parser.stmts
  refine Takes.peekHead.bind fun t ht => ?_
  have ht : t.kind = .keyword .returnKw := ht
  -- A return does not close the block, and the function admits one.
  rw [ht, if_neg (hends.not_closes (.inr rfl)), if_pos rfl]
  refine (Takes.attempt hreturn).bind fun r hr => ?_
  obtain ⟨s, rfl, _⟩ := hr
  -- Nothing stands behind the return, so the block ends with it.
  have hlast : StatementsTaken true [] [] := .none
  refine hlast.stmts n rest ends _ ?_ hends hclosed hfunction
  rw [List.length_append] at hsteps
  rw [List.nil_append]
  omega

theorem StatementsTaken.more {ofFunction : Bool} {s : Stmt} {ss : List Stmt} (hs : Statement s ws)
    (hss : Statements ofFunction ss us) (h : StatementTaken ws) (hmore : StatementsTaken ofFunction ss us) :
    StatementsTaken ofFunction (s :: ss) (ws ++ us) := by
  have hstmts : StmtsTaken ofFunction (ws ++ us) := by
    intro n rest ends done hfuel hends hclosed hfunction
    rw [List.append_assoc] at hfuel ⊢
    obtain ⟨n, rfl⟩ := exists_step hfuel
    -- The word ahead opens a statement, so it neither closes the block nor begins a return.
    have hopens := hs.opens (us ++ rest)
    have hborder := hss.border (hends.borders hclosed)
    have hpos := List.length_pos_iff.2 hs.ne_nil
    unfold Parser.stmts
    refine Takes.peekHead.bind fun t ht => ?_
    have hreturn : headKind (ws ++ (us ++ rest)) ≠ .keyword .returnKw := fun hk => by
      rw [hk] at hopens
      cases hopens
    rw [ht, if_neg (hends.not_closes (.inl hopens)), if_neg hreturn]
    -- The statement is read up to where the others begin.
    refine (Takes.attempt (h n (us ++ rest) (by omega) hborder)).bind fun r hr => ?_
    obtain ⟨s, rfl, _⟩ := hr
    refine hmore.stmts n rest ends _ ?_ hends hclosed hfunction
    rw [List.length_append] at hfuel
    omega
  -- What is read behind a loop header is decided by the first statement.
  refine ⟨hstmts, ?_⟩
  rintro rfl sp hname n rest hfuel
  -- As a block of its own the body ends at `end`.
  have hblock := hstmts.block n (.keyword .endKw :: rest) [.endKw] hfuel ends_end rfl (by simp)
  have hrest : borders (headKind (us ++ .keyword .endKw :: rest)) = true := hss.border rfl
  rw [List.append_assoc] at hfuel hblock ⊢
  cases hs with
  | assign ha =>
    -- An assignment is taken for the step, and the block is what stands behind it.
    refine ⟨_, accepts_forStep ha (by omega) (settled_of_borders hrest), ?_⟩
    refine hmore.stmts.block n _ _ ?_ ends_end rfl (by simp)
    rw [List.length_append] at hfuel
    omega
  -- These begin with a name that would be taken for the variable of a step.
  | call => cases hname
  | assignMember => cases hname
  | _ => exact ⟨_, accepts_forStep_none (fun heq => by cases heq), hblock⟩

theorem ElseTaken.none : ElseTaken [.keyword .endKw] := by
  intro n rest mark hfuel
  obtain ⟨n, rfl⟩ := exists_step hfuel
  unfold Parser.elseRest
  refine Takes.atKeyword.bind fun b hb => ?_
  rw [if_neg (mt hb.1 fun heq => by cases heq)]
  refine Takes.atKeyword.bind fun b' hb' => ?_
  rw [if_neg (mt hb'.1 fun heq => by cases heq)]
  exact Takes.expectEnd.bind fun _ _ => Takes.pure trivial

theorem ElseTaken.some (h : BlockTaken false ws) :
    ElseTaken (.keyword .elseKw :: (ws ++ [.keyword .endKw])) := by
  intro n rest mark hfuel
  simp only [List.cons_append, List.append_assoc, List.nil_append, List.length_cons] at hfuel ⊢
  obtain ⟨n, rfl⟩ := exists_step hfuel
  unfold Parser.elseRest
  refine Takes.atKeyword.bind fun b hb => ?_
  rw [if_neg (mt hb.1 fun heq => by cases heq)]
  refine Takes.atKeyword.bind fun b' hb' => ?_
  rw [if_pos (hb'.2 rfl)]
  refine Takes.advanceKeyword.bind fun _ _ =>
    Takes.bind (h n (.keyword .endKw :: rest) [.endKw] (by omega) ends_end rfl (by simp)) fun body _ => ?_
  exact Takes.expectEnd.bind fun _ _ => Takes.pure trivial

/-- The rest of a conditional behind its first block begins with a word that closes the block. -/
theorem Else.closes {f : Option Block} (h : Else f fs) (rest : List Word) :
    closes [.elifKw, .elseKw, .endKw] (headKind (fs ++ rest)) = true := by
  cases h <;> rfl

/-- What is in front of a block is an expression. -/
private theorem Body.border {ofFunction : Bool} {b : Block} (h : Body ofFunction b bs) {rest : List Word}
    (hrest : borders (headKind rest) = true) : borders (headKind (bs ++ rest)) = true := by
  cases h with
  | mk hss => exact hss.border hrest

/-- The rest of a conditional is read. -/
private theorem accepts_condRest {c : Expr} {t : Block} {f : Option Block} (hc : Expression c cs)
    (ht : Body false t ts) (hf : Else f fs) (htaken : BlockTaken false ts) (hftaken : ElseTaken fs)
    {n : Nat} {rest : List Word} (mark : Token) (hfuel : 12 * (cs ++ (ts ++ (fs ++ rest))).length + 7 ≤ n) :
    Accepts (cs ++ (ts ++ (fs ++ rest))) (condRest n mark) rest := by
  obtain ⟨n, rfl⟩ := exists_step hfuel
  -- A conditional's block may end with each of these words.
  have hends : Ends [.elifKw, .elseKw, .endKw] := by
    intro k hk
    simpa only [List.mem_cons, List.not_mem_nil, or_false] using hk
  have hclosed := hf.closes rest
  -- The block begins with a word that does not go on with the test, even if it is empty.
  have hborder := ht.border (hends.borders hclosed)
  have hcs := hc.ne_nil
  have hpos := List.length_pos_iff.2 hcs
  simp only [List.length_append] at hfuel
  unfold Parser.condRest
  -- Test, block and else part are read one behind the other, each with fuel enough.
  refine Takes.bind (hc.taken ?_ (settled_of_borders hborder)) fun test _ =>
    Takes.bind (htaken n (fs ++ rest) _ ?_ hends hclosed (by simp)) fun thenBlock _ =>
    Takes.bind (hftaken n rest mark ?_) fun elseBlock _ =>
    Takes.lastSpan.bind fun last _ => Takes.pure trivial
  all_goals
    simp only [List.length_append]
    omega

theorem ElseTaken.elif {c : Expr} {t : Block} {f : Option Block} (hc : Expression c cs)
    (ht : Body false t ts) (hf : Else f fs) (htaken : BlockTaken false ts) (hftaken : ElseTaken fs) :
    ElseTaken (.keyword .elifKw :: (cs ++ (ts ++ fs))) := by
  intro n rest mark hfuel
  simp only [List.cons_append, List.append_assoc, List.length_cons] at hfuel ⊢
  obtain ⟨n, rfl⟩ := exists_step hfuel
  unfold Parser.elseRest
  refine Takes.atKeyword.bind fun b hb => ?_
  rw [if_pos (hb.2 rfl)]
  refine Takes.advanceKeyword.bind fun inner _ =>
    Takes.bind (accepts_condRest hc ht hf htaken hftaken inner (by omega)) fun nested _ => ?_
  exact Takes.pure trivial

theorem StatementTaken.named {s : Stmt} (h : Statement s ws)
    (hname : ∀ rest, headKind (ws ++ rest) = .ident) : StatementTaken ws := by
  intro n rest hfuel hrest
  obtain ⟨n, rfl⟩ := exists_step hfuel
  unfold Parser.stmt
  refine Takes.peekHead.bind fun t ht => ?_
  simp only [ht.trans (hname rest)]
  exact accepts_namedStmt h (hname rest) (by omega) (settled_of_borders hrest)

theorem StatementTaken.leave : StatementTaken [.keyword .breakKw] := by
  intro n rest hfuel _
  obtain ⟨n, rfl⟩ := exists_step hfuel
  unfold Parser.stmt
  refine Takes.peekHead.bind fun t ht => ?_
  have ht : t.kind = .keyword .breakKw := ht
  simp only [ht]
  exact Takes.advanceKeyword.bind fun _ _ => Takes.pure trivial

theorem StatementTaken.code {x : Text} : StatementTaken [.code x] := by
  intro n rest hfuel _
  obtain ⟨n, rfl⟩ := exists_step hfuel
  unfold Parser.stmt
  refine Takes.peekHead.bind fun t ht => ?_
  have ht : t.kind = .code := ht
  simp only [ht]
  refine (Takes.advance (w := .code x) (by simp)).bind fun _ _ => ?_
  exact Takes.pure trivial

theorem StatementTaken.require {x : Text} : StatementTaken [.keyword .requireKw, .string x] := by
  intro n rest hfuel _
  obtain ⟨n, rfl⟩ := exists_step hfuel
  unfold Parser.stmt
  refine Takes.peekHead.bind fun t ht => ?_
  have ht : t.kind = .keyword .requireKw := ht
  simp only [ht]
  unfold requireStmt
  refine Takes.advanceKeyword.bind fun mark _ => (Takes.expect (w := .string x) (by simp)).bind fun path _ => ?_
  exact Takes.pure trivial

theorem StatementTaken.bitfieldDef {m : Text} {ms : List BitfieldMember} (hms : Fields ms ws)
    (hsome : ms ≠ []) (hdistinct : (ms.map BitfieldMember.name).Nodup) :
    StatementTaken (.keyword .bitfieldKw :: .name m :: (ws ++ [.keyword .endKw])) := by
  intro n rest hfuel _
  simp only [List.cons_append, List.append_assoc, List.nil_append, List.length_cons] at hfuel ⊢
  obtain ⟨n, rfl⟩ := exists_step hfuel
  unfold Parser.stmt
  refine Takes.peekHead.bind fun t ht => ?_
  have ht : t.kind = .keyword .bitfieldKw := ht
  simp only [ht]
  unfold Parser.bitfieldDef
  refine Takes.advanceKeyword.bind fun mark _ => Takes.expectName.bind fun name _ =>
    (hms.taken (by omega) (fun _ _ _ hd => absurd hd List.not_mem_nil) hdistinct).bind
      fun r hr => ?_
  -- There are members, so the definition is not reported as empty.
  have hne : ¬r.isEmpty = true := by
    rw [hr]
    exact fun h => hsome (List.isEmpty_iff.1 h)
  dsimp only
  rw [if_neg hne]
  exact Takes.expectEnd.bind fun _ _ => Takes.lastSpan.bind fun last _ => Takes.pure trivial

theorem StatementTaken.enumDef {m : Text} {ms : List EnumMember} (hms : Members (-1) ms ws)
    (hsome : ms ≠ []) : StatementTaken (.keyword .enumKw :: .name m :: (ws ++ [.keyword .endKw])) := by
  intro n rest hfuel _
  simp only [List.cons_append, List.append_assoc, List.nil_append, List.length_cons] at hfuel ⊢
  obtain ⟨n, rfl⟩ := exists_step hfuel
  unfold Parser.stmt
  refine Takes.peekHead.bind fun t ht => ?_
  have ht : t.kind = .keyword .enumKw := ht
  simp only [ht]
  unfold Parser.enumDef
  refine Takes.advanceKeyword.bind fun mark _ => Takes.expectName.bind fun name _ =>
    (hms.taken (by omega)).bind fun r hread => ?_
  obtain ⟨tail, hr, hvalues⟩ := hread
  -- The members read have the values of the grammar, so there is one for each of those.
  have hne : ¬r.isEmpty = true := by
    intro h
    rw [List.isEmpty_iff.1 h] at hr
    have htail : tail = [] := hr.symm
    rw [htail] at hvalues
    exact hsome (Prod.mk.inj hvalues).1.symm
  have hr : r = tail := hr
  dsimp only
  rw [if_neg hne]
  refine Takes.expectEnd.bind fun _ _ => Takes.lastSpan.bind fun last _ => ?_
  rw [hr, Enumeration.build, hvalues]
  -- The values are in order, so none of them is reported.
  exact Takes.pure trivial

theorem StatementTaken.funcDef {m : Text} {ps : List Param} (hps : Parameters ps us)
    (hb : BlockTaken true bs) : StatementTaken (.keyword .defKw :: .name m :: .symbol .lParen
      :: (us ++ .symbol .rParen :: (bs ++ [.keyword .endKw]))) := by
  intro n rest hfuel _
  simp only [List.cons_append, List.append_assoc, List.nil_append, List.length_cons, List.length_append]
    at hfuel ⊢
  obtain ⟨n, rfl⟩ := exists_step hfuel
  unfold Parser.stmt
  refine Takes.peekHead.bind fun t ht => ?_
  have ht : t.kind = .keyword .defKw := ht
  simp only [ht]
  -- One step of the fuel for the statement, and one for the definition.
  have hsteps : 1 ≤ n := by omega
  obtain ⟨n, rfl⟩ := exists_step hsteps
  unfold Parser.funcDef
  -- The parameters end at the closing parenthesis and the body at `end`.
  refine Takes.advanceKeyword.bind fun mark _ => Takes.expectName.bind fun name _ =>
    Takes.expectSymbol.bind fun _ _ => Takes.bind (hps.taken ?_) fun ps' _ =>
    Takes.expectSymbol.bind fun _ _ => Takes.bind
      (hb n (.keyword .endKw :: rest) [.endKw] ?_ ends_end rfl fun _ => rfl) fun body _ =>
    Takes.expectEnd.bind fun _ _ => Takes.lastSpan.bind fun last _ => Takes.pure trivial
  all_goals
    simp only [List.length_append, List.length_cons]
    omega

theorem StatementTaken.cond {c : Expr} {t : Block} {f : Option Block} (hc : Expression c cs)
    (ht : Body false t ts) (hf : Else f fs) (htaken : BlockTaken false ts) (hftaken : ElseTaken fs) :
    StatementTaken (.keyword .ifKw :: (cs ++ (ts ++ fs))) := by
  intro n rest hfuel _
  simp only [List.cons_append, List.append_assoc, List.length_cons] at hfuel ⊢
  obtain ⟨n, rfl⟩ := exists_step hfuel
  unfold Parser.stmt
  refine Takes.peekHead.bind fun tok htok => ?_
  have htok : tok.kind = .keyword .ifKw := htok
  simp only [htok]
  exact Takes.advanceKeyword.bind fun mark _ =>
    accepts_condRest hc ht hf htaken hftaken mark (by omega)

theorem StatementTaken.loop {c : Expr} {b : Block} (hc : Expression c cs) (hb : Body false b bs)
    (hbtaken : BlockTaken false bs) :
    StatementTaken (.keyword .whileKw :: (cs ++ (bs ++ [.keyword .endKw]))) := by
  intro n rest hfuel _
  simp only [List.cons_append, List.append_assoc, List.nil_append, List.length_cons, List.length_append]
    at hfuel ⊢
  obtain ⟨n, rfl⟩ := exists_step hfuel
  unfold Parser.stmt
  refine Takes.peekHead.bind fun tok htok => ?_
  have htok : tok.kind = .keyword .whileKw := htok
  simp only [htok]
  have hsteps : 1 ≤ n := by omega
  obtain ⟨n, rfl⟩ := exists_step hsteps
  -- The body begins with a word that the condition does not go on with.
  have hborder : borders (headKind (bs ++ .keyword .endKw :: rest)) = true := hb.border rfl
  unfold Parser.loop
  refine Takes.advanceKeyword.bind fun mark _ =>
    Takes.bind (hc.taken ?_ (settled_of_borders hborder)) fun test _ =>
    Takes.bind (hbtaken n (.keyword .endKw :: rest) [.endKw] ?_ ends_end rfl (by simp)) fun body _ =>
    Takes.expectEnd.bind fun _ _ => Takes.lastSpan.bind fun last _ => Takes.pure trivial
  all_goals
    simp only [List.length_append, List.length_cons]
    omega

/-- What stands behind the second semicolon of a loop header is read. -/
theorem BlocksTaken.step {b : Block} {st : Option Assign} (h : BlocksTaken false b bs)
    (hb : Body false b bs) (hst : Clause st us) (hclear : st = none → b.opensWithName = false)
    {n : Nat} {rest : List Word}
    (hfuel : 12 * (us ++ (bs ++ .keyword .endKw :: rest)).length + 4 ≤ n) : ∃ vs,
      Accepts (us ++ (bs ++ .keyword .endKw :: rest)) (forStep n) vs
        ∧ Accepts vs (Parser.block n false [.endKw]) (.keyword .endKw :: rest) := by
  -- Without a step the body must not be taken for one; with a step the block stands behind it.
  cases hst with
  | none => exact h.body rfl (hclear rfl) n rest hfuel
  | some ha =>
    have hborder : borders (headKind (bs ++ .keyword .endKw :: rest)) = true := hb.border rfl
    refine ⟨_, accepts_forStep ha (by omega) (settled_of_borders hborder), ?_⟩
    refine h.block n _ _ ?_ ends_end rfl nofun
    rw [List.length_append] at hfuel
    omega

/-- A loop is read behind the first clause of its header. -/
private theorem accepts_forRest {b : Block} {c : Option Expr} {st : Option Assign}
    (h : BlocksTaken false b bs) (hb : Body false b bs) (hc : Test c cs) (hst : Clause st us)
    (hclear : st = none → b.opensWithName = false)
    {n : Nat} {rest : List Word} (mark : Token) (init : Option Assign)
    (hfuel : 12 * (.symbol .semicolon :: (cs ++ .symbol .semicolon
      :: (us ++ (bs ++ .keyword .endKw :: rest)))).length + 1 ≤ n) :
    Accepts (.symbol .semicolon :: (cs ++ .symbol .semicolon :: (us ++ (bs ++ .keyword .endKw :: rest))))
      (forRest n mark init) rest := by
  simp only [List.length_cons, List.length_append] at hfuel
  -- What stands behind the test is the same for each test.
  have hbody : ∀ test, Accepts (.symbol .semicolon :: (us ++ (bs ++ .keyword .endKw :: rest)))
      (forBody n mark init test) rest := by
    intro test
    have hsteps : 12 * (us ++ (bs ++ .keyword .endKw :: rest)).length + 4 ≤ n := by
      simp only [List.length_cons, List.length_append]
      omega
    -- Whether or not the step is one of the header, the block behind it ends at `end`.
    obtain ⟨vs, hstep, hblock⟩ := h.step hb hst hclear hsteps
    unfold forBody
    exact Takes.expectSymbol.bind fun _ _ => hstep.bind fun step _ => hblock.bind fun body _ =>
      Takes.expectEnd.bind fun _ _ => Takes.lastSpan.bind fun last _ => Takes.pure trivial
  unfold forRest
  refine Takes.expectSymbol.bind fun _ _ => Takes.atSymbol.bind fun b hsemicolon => ?_
  dsimp only
  cases hc with
  | none =>
    have hnone : Accepts (.symbol .semicolon :: (us ++ (bs ++ .keyword .endKw :: rest)))
        (Pure.pure (Option.none : Option Expr))
        (.symbol .semicolon :: (us ++ (bs ++ .keyword .endKw :: rest))) := Takes.pure trivial
    -- The semicolon is ahead, so there is no test.
    rw [if_pos (hsemicolon.2 rfl)]
    exact hnone.bind fun test _ => hbody test
  | some he =>
    -- A test does not begin with a semicolon, so it is not taken for none.
    have hopens : opensExpr (headKind (cs ++ .symbol .semicolon :: (us ++ (bs ++ .keyword .endKw :: rest))))
        = true := by
      obtain ⟨loose, hj⟩ := he
      exact hj.opens _
    rw [if_neg (by intro h; rw [hsemicolon.1 h] at hopens; exact nomatch hopens)]
    have hread : Accepts (cs ++ .symbol .semicolon :: (us ++ (bs ++ .keyword .endKw :: rest)))
        (Option.some <$> expr n) (.symbol .semicolon :: (us ++ (bs ++ .keyword .endKw :: rest))) := by
      refine Takes.map (he.taken ?_ ⟨⟨rfl, nofun, nofun⟩, rfl⟩) fun _ _ => trivial
      simp only [List.length_cons, List.length_append]
      omega
    exact hread.bind fun test _ => hbody test

theorem StatementTaken.forLoop {b : Block} {i st : Option Assign} {c : Option Expr} (hi : Clause i is)
    (hc : Test c cs) (hst : Clause st us) (hb : Body false b bs) (h : BlocksTaken false b bs)
    (hclear : st = none → b.opensWithName = false) :
    StatementTaken (.keyword .forKw :: (is ++ .symbol .semicolon
      :: (cs ++ .symbol .semicolon :: (us ++ (bs ++ [.keyword .endKw]))))) := by
  intro n rest hfuel _
  simp only [List.cons_append, List.append_assoc, List.nil_append, List.length_cons, List.length_append]
    at hfuel ⊢
  obtain ⟨n, rfl⟩ := exists_step hfuel
  unfold Parser.stmt
  refine Takes.peekHead.bind fun tok htok => ?_
  have htok : tok.kind = .keyword .forKw := htok
  simp only [htok]
  have hsteps : 1 ≤ n := by omega
  obtain ⟨n, rfl⟩ := exists_step hsteps
  -- What stands behind the first clause is the same for each clause.
  have hrest : ∀ mark init, Accepts (.symbol .semicolon :: (cs ++ .symbol .semicolon
      :: (us ++ (bs ++ .keyword .endKw :: rest)))) (forRest n mark init) rest := by
    intro mark init
    refine accepts_forRest h hb hc hst hclear mark init ?_
    simp only [List.length_cons, List.length_append]
    omega
  unfold Parser.forLoop
  refine Takes.advanceKeyword.bind fun mark _ => Takes.atSymbol.bind fun b hsemicolon => ?_
  dsimp only
  cases hi with
  | none =>
    have hnone : Accepts (.symbol .semicolon :: (cs ++ .symbol .semicolon
        :: (us ++ (bs ++ .keyword .endKw :: rest)))) (Pure.pure (Option.none : Option Assign))
        (.symbol .semicolon :: (cs ++ .symbol .semicolon :: (us ++ (bs ++ .keyword .endKw :: rest)))) :=
      Takes.pure trivial
    -- The semicolon is ahead, so there is no first clause.
    rw [if_pos (hsemicolon.2 rfl)]
    exact hnone.bind fun init _ => hrest mark init
  | some ha =>
    -- An assignment begins with a name.
    have hne : ¬b = true := by
      intro h
      cases ha with
      | mk _ => cases hsemicolon.1 h
    rw [if_neg hne]
    have hread : Accepts (is ++ .symbol .semicolon :: (cs ++ .symbol .semicolon
        :: (us ++ (bs ++ .keyword .endKw :: rest)))) (Option.some <$> assignment n)
        (.symbol .semicolon :: (cs ++ .symbol .semicolon :: (us ++ (bs ++ .keyword .endKw :: rest)))) := by
      refine Takes.map (accepts_assignment ha ?_ (.of_closer (by decide) _)) fun _ _ => trivial
      simp only [List.length_cons, List.length_append]
      omega
    exact hread.bind fun init _ => hrest mark init

end Cases

/-! ## Statements -/

mutual

/-- The words of a statement are read. -/
theorem Statement.taken {s : Stmt} {ws : List Word} : Statement s ws → s.StepsClear → StatementTaken ws
  -- Statements that begin with a name are read by one function, all others by one each.
  | h@(.assign ha), _ => .named h fun _ => by cases ha; rfl
  | h@(.call _), _ => .named h fun _ => rfl
  | h@(.assignMember _), _ => .named h fun _ => rfl
  | .cond hc ht hf, h =>
    .cond hc ht hf (ht.taken h.1).block (hf.taken h.2)
  | .loop hc hb, h => .loop hc hb (hb.taken h).block
  | .forLoop hi hc hst hb, h => .forLoop hi hc hst hb (hb.taken h.2) h.1
  | .leave, _ => .leave
  | .code, _ => .code
  | .require, _ => .require
  | .bitfieldDef hms hsome hdistinct, _ => .bitfieldDef hms hsome hdistinct
  | .enumDef hms hsome, _ => .enumDef hms hsome
  | .funcDef hps hb, h => .funcDef hps (hb.taken h).block

/-- The words of statements are read. -/
theorem Statements.taken {ofFunction : Bool} {ss : List Stmt} {ws : List Word} :
    Statements ofFunction ss ws → StepsClearStmts ss → StatementsTaken ofFunction ss ws
  | .none, _ => .none
  | .ret hv, _ => .ret hv
  | .more hs hss, h => .more hs hss (hs.taken h.1) (hss.taken h.2)

/-- The words of a block are read. -/
theorem Body.taken {ofFunction : Bool} {b : Block} {ws : List Word} :
    Body ofFunction b ws → b.StepsClear → BlocksTaken ofFunction b ws
  | .mk hss, h => ⟨(hss.taken h).stmts.block, fun hf => (hss.taken h).body hf _⟩

/-- The words of the rest of a conditional are read. -/
theorem Else.taken {f : Option Block} {ws : List Word} : Else f ws → StepsClearElse f → ElseTaken ws
  | .none, _ => .none
  | .some hb, h => .some (hb.taken h).block
  | .elif hc ht hf, h => .elif hc ht hf (ht.taken h.1.1).block (hf.taken h.1.2)

end

/-- The words of a program are read. -/
private theorem accepts_program {b : Block} {ws : List Word} (hb : b.Renders ws) (hclear : b.StepsClear)
    {n : Nat}
    (hfuel : 12 * (ws ++ [Word.eof]).length + 4 ≤ n) : Accepts (ws ++ [Word.eof]) (program n) [.eof] := by
  unfold program
  refine Takes.peekHead.bind fun first _ => Takes.bind
    ((hb.taken hclear).block n [Word.eof] [] hfuel (fun _ h => nomatch h) rfl nofun) fun body _ =>
    Takes.peekHead.bind fun last _ => Takes.pure trivial

end AisScript.Grammar

namespace AisScript

open AisScript.Parser

/-- Where the lexemes of a file begin, nothing has to be reported if the lexer reports nothing. -/
private theorem told_start (file maxErrors : Nat) {contents : Text}
    (hsilent : ∀ l ∈ lexemes file contents, l.reports = []) :
    ({ ahead := lexemes file contents, last := { file := file }, maxErrors } : ParseState).told = [] :=
  List.flatMap_eq_nil_iff.2 hsilent

/-- The words of a program in which no name is mistaken for the step of a loop are parsed without
reports. -/
private theorem parse_accepts {file maxErrors : Nat} {contents : Text} {b : Block} {ws : List Word}
    (hb : b.Renders ws) (hclear : b.StepsClear)
    (hwords : (lexemes file contents).map (fun l => l.token.word) = ws ++ [.eof])
    (hsilent : ∀ l ∈ lexemes file contents, l.reports = []) :
    (parse file maxErrors contents).errors = 0 ∧ (parse file maxErrors contents).reports = [] := by
  have hfuel : 12 * (ws ++ [Word.eof]).length + 4 ≤ stepsFor (lexemes file contents).length := by
    rw [← hwords, List.length_map, stepsFor]
    omega
  obtain ⟨program, s, hrun, hquiet, _⟩ := Grammar.accepts_program hb hclear hfuel
    { ahead := lexemes file contents, last := { file := file }, maxErrors } hwords
  have htold : s.told = [] := hquiet.told.trans (told_start file maxErrors hsilent)
  rw [parse, parseLexemes, hrun]
  exact ⟨hquiet.errors, (List.append_eq_nil_iff.1 htold).1⟩

/-- Which texts are parsed without reports: those that are written with the words of a program in which
no name behind a loop header is mistaken for the step that the header lacks. -/
theorem parse_clean_iff {file maxErrors : Nat} {contents : Text} {ws : List Word}
    (hwords : (lexemes file contents).map (fun l => l.token.word) = ws ++ [.eof])
    (hsilent : ∀ l ∈ lexemes file contents, l.reports = []) :
    (parse file maxErrors contents).reports = [] ↔ ∃ b : Block, b.Renders ws ∧ b.StepsClear := by
  constructor
  · -- The words that were read are all words there are.
    intro hclean
    obtain ⟨us, hus, hrenders, hclear⟩ := parse_reads file maxErrors contents hclean
    obtain rfl := List.append_cancel_right (hwords.symm.trans hus)
    exact ⟨_, hrenders, hclear⟩
  · rintro ⟨b, hb, hclear⟩
    exact (parse_accepts hb hclear hwords hsilent).2

/-! ## Loops without a step -/

/-- A loop without clauses, and its words. -/
def steplessLoop (body : List Stmt) : Block := .mk [] [.forLoop {} none none none (.mk [] body {})] {}

/-- The words of a loop without clauses around those of its body. -/
def steplessWords (body : List Word) : List Word :=
  .keyword .forKw :: .symbol .semicolon :: .symbol .semicolon :: (body ++ [.keyword .endKw])

/-- The grammar derives loops without clauses. -/
private theorem steplessLoop_renders {ss : List Stmt} {ws : List Word} (h : Grammar.Statements false ss ws) :
    (steplessLoop ss).Renders (steplessWords ws) := by
  have hloop : Grammar.Statement (.forLoop {} none none none (.mk [] ss {})) (steplessWords ws) :=
    .forLoop .none .none .none (.mk h)
  have hall : Grammar.Statements false [.forLoop {} none none none (.mk [] ss {})]
      (steplessWords ws ++ []) := .more hloop .none
  rw [List.append_nil] at hall
  exact .mk hall

/-- A loop whose body does not begin with a name. -/
def steplessBreak : Text := "for ; ; break end"

/-- A loop whose body begins with a call. -/
def steplessCall : Text := "for ; ; say(1) end"

-- Lexing is no structural recursion, so its tokens are computed by one.
private theorem lexemes_steplessBreak : lexemes 0 steplessBreak =
    [⟨⟨.keyword .forKw, ⟨0, 0, 3⟩, "for"⟩, []⟩,
      ⟨⟨.symbol .semicolon, ⟨0, 4, 5⟩, ";"⟩, []⟩,
      ⟨⟨.symbol .semicolon, ⟨0, 6, 7⟩, ";"⟩, []⟩,
      ⟨⟨.keyword .breakKw, ⟨0, 8, 13⟩, "break"⟩, []⟩,
      ⟨⟨.keyword .endKw, ⟨0, 14, 17⟩, "end"⟩, []⟩,
      .endMark ⟨0, 17⟩] := by
  rw [lexemes_eq_within]
  decide +kernel

private theorem lexemes_steplessCall : lexemes 0 steplessCall =
    [⟨⟨.keyword .forKw, ⟨0, 0, 3⟩, "for"⟩, []⟩,
      ⟨⟨.symbol .semicolon, ⟨0, 4, 5⟩, ";"⟩, []⟩,
      ⟨⟨.symbol .semicolon, ⟨0, 6, 7⟩, ";"⟩, []⟩,
      ⟨⟨.ident, ⟨0, 8, 11⟩, "say"⟩, []⟩,
      ⟨⟨.symbol .lParen, ⟨0, 11, 12⟩, "("⟩, []⟩,
      ⟨⟨.int, ⟨0, 12, 13⟩, "1"⟩, []⟩,
      ⟨⟨.symbol .rParen, ⟨0, 13, 14⟩, ")"⟩, []⟩,
      ⟨⟨.keyword .endKw, ⟨0, 15, 18⟩, "end"⟩, []⟩,
      .endMark ⟨0, 18⟩] := by
  rw [lexemes_eq_within]
  decide +kernel

/-- The first loop is parsed without reports. -/
theorem steplessBreak_clean :
    (lexemes 0 steplessBreak).map (fun l => l.token.word) = steplessWords [.keyword .breakKw] ++ [.eof]
      ∧ (∀ l ∈ lexemes 0 steplessBreak, l.reports = []) ∧ (parse 0 0 steplessBreak).reports = [] := by
  have hwords : (lexemes 0 steplessBreak).map (fun l => l.token.word)
      = steplessWords [.keyword .breakKw] ++ [.eof] := by
    rw [lexemes_steplessBreak]
    rfl
  have hsilent : ∀ l ∈ lexemes 0 steplessBreak, l.reports = [] := by
    rw [lexemes_steplessBreak]
    decide
  have hbody : Grammar.Statements false [.leave {}] ([.keyword .breakKw] ++ []) := .more .leave .none
  refine ⟨hwords, hsilent, (parse_clean_iff hwords hsilent).2 ⟨_, steplessLoop_renders hbody, ?_⟩⟩
  exact ⟨⟨fun _ => rfl, trivial, trivial⟩, trivial⟩

/-- The other is derived by the grammar as well, but the name of the call is taken for a step. -/
theorem steplessCall_refused : ∃ (b : Block) (ws : List Word), b.Renders ws
    ∧ (lexemes 0 steplessCall).map (fun l => l.token.word) = ws ++ [.eof]
    ∧ (∀ l ∈ lexemes 0 steplessCall, l.reports = []) ∧ (parse 0 0 steplessCall).reports ≠ [] := by
  -- The words of `for ; ; say(1) end` are those of a loop without clauses around a call.
  have hone : Parser.intValue? "1" = some 1 := by decide
  have hargs : Grammar.Arguments [.const { span := {} } (.int 1)] [.int "1"] :=
    .last (.operand (.accessed (.primary (.int hone))))
  have hbody : Grammar.Statements false
      [.eval {} (.call { span := {} } "say" {} [.const { span := {} } (.int 1)] .unresolved)]
      ((.name "say" :: .symbol .lParen :: ([.int "1"] ++ [.symbol .rParen])) ++ []) :=
    .more (.call hargs) .none
  -- The grammar derives the loop, and the lexer has nothing to report.
  refine ⟨_, _, steplessLoop_renders hbody, ?_, ?_, ?_⟩
  · rw [lexemes_steplessCall]
    rfl
  · rw [lexemes_steplessCall]
    decide
  -- The parser reports twice: `say` is taken for the variable of a step, and no `=` follows.
  · have hcount : (parse 0 0 steplessCall).reports.length = 2 := by
      rw [parse, lexemes_steplessCall]
      decide +kernel
    intro hnil
    rw [hnil] at hcount
    cases hcount

end AisScript
