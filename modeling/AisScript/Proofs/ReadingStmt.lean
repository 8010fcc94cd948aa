import AisScript.Proofs.ReadingExpr

/-!
# Reading programs

A program that is parsed without reports is written with exactly the words that were read: none is
dropped, none is added.  The functions of the parser that read statements consume words of the
grammar's nonterminal they are for; a block ends only in front of a word that closes it, which for a
whole program is the end of the text.

* `stmtsRead`       what the statement parsers consume
* `parse_renders`   whole files
-/

namespace AisScript.Parser

open Grammar

/-! ## Statements without blocks -/

section Parts

variable {n : Nat} {pre : List Word → Prop}

/-- The value of an assignment. -/
private theorem reads_assignRest (name : Token) (hfits : Fits 1 n pre)
    (hopen : ∀ ws, pre ws → headKind ws = .symbol .assign) :
    Reads pre (assignRest n name) (Behind pre fun a us _ => Assignment a (.name name.text :: us)) := by
  unfold assignRest
  refine (Reads.advanceSymbol hopen).bind fun _ => (reads_expr ?_).bind fun value => Reads.pure ?_
  · exact hfits.next.weaken (by decide)
  · rintro ws ⟨us, hpre, hv⟩
    exact ⟨_, hpre, .mk hv⟩

/-- An assignment. -/
private theorem reads_assignment (hfits : Fits 1 n pre) :
    Reads pre (assignment n) (Behind pre fun a us _ => Assignment a us) := by
  unfold assignment
  refine Reads.expectName.bind fun name => Reads.atSymbol.bind fun b => ?_
  split
  case isTrue hb =>
    refine (reads_assignRest name ?_ fun ws h => h.2.1 hb).behind ?_
    · exact hfits.next.when.weaken (by decide)
    · rintro a rest ⟨us, ⟨hpre, _⟩, ha⟩
      exact ⟨_, hpre, ha⟩
  case isFalse => exact Reads.reject

/-- The step of a loop header. -/
private theorem reads_forStep (hfits : Fits 1 n pre) :
    Reads pre (forStep n) (Behind pre fun a us rest =>
      Clause a us ∧ (a = none → headKind rest ≠ .ident)) := by
  unfold forStep
  -- Only a name can begin a step.
  refine (Reads.atKind _).bind fun b => ?_
  split
  case isTrue hb =>
    refine (Reads.advanceName fun ws h => h.2.1 hb).bind fun name => Reads.atSymbol.bind fun b' => ?_
    split
    -- The step is an assignment to the name that was consumed.
    case isTrue hb' =>
      refine (reads_assignRest name ?_ fun ws h => h.2.1 hb').bind fun a => Reads.pure ?_
      · exact hfits.next.when.when.weaken (by decide)
      · rintro rest ⟨us, ⟨⟨hpre, _⟩, _⟩, ha⟩
        exact ⟨_, hpre, .some ha, nofun⟩
    -- A name without `=` is reported, even if it begins the body.
    case isFalse => exact Reads.report.stop fun _ => Reads.failure fun _ h => h
  -- No name is ahead, so there is no step.
  case isFalse hb => exact Reads.pure fun ws h => ⟨[], h.1, .none, fun _ hk => hb (h.2.2 hk)⟩

/-- A statement that begins with a name. -/
private theorem reads_namedStmt (hfits : Fits 1 n pre) (hopen : ∀ ws, pre ws → headKind ws = .ident) :
    Reads pre (namedStmt n) (Behind pre fun s us _ => Statement s us ∧ s.StepsClear) := by
  unfold namedStmt
  refine (Reads.advanceName hopen).bind fun name => Reads.peekKind.bind fun k => ?_
  split
  -- An assignment.
  case h_1 =>
    refine (reads_assignRest name ?_ fun ws h => h.2.2.symm).bind fun a => Reads.pure ?_
    · exact hfits.next.when.weaken (by decide)
    · rintro rest ⟨us, ⟨hpre, _⟩, ha⟩
      exact ⟨_, hpre, .assign ha, trivial⟩
  -- A call.
  case h_2 =>
    refine ((exprsRead n).callRest name ?_ fun ws h => h.2.2.symm).bind fun call => Reads.pure ?_
    · exact hfits.next.when.weaken (by decide)
    · rintro rest ⟨us, ⟨hpre, _⟩, i, args, ws, rfl, hargs, rfl⟩
      exact ⟨_, hpre, .call hargs, trivial⟩
  -- An assignment to a member.
  case h_3 =>
    refine (Reads.advanceSymbol fun ws h => h.2.2.symm).bind fun _ => Reads.expectName.bind fun m =>
      Reads.expectSymbol.bind fun _ => (reads_expr ?_).bind fun value => Reads.pure ?_
    · exact hfits.next.next.next.next.when.weaken (by decide)
    · rintro rest ⟨us, ⟨hpre, _⟩, hv⟩
      exact ⟨_, hpre, .assignMember hv, trivial⟩
  -- A name alone is no statement.
  case h_4 => exact Reads.report.stop fun _ => Reads.failure fun _ h => h

/-- What follows a report only has to be a step that reads at all. -/
theorem Reads.later {α : Type} {p : Parser α} {post : α → List Word → List Word → Prop}
    {post' : α → List Word → Prop} (h : Reads (fun _ => False) p (Behind (fun _ => False) post)) :
    Reads (fun _ => False) p post' :=
  h.behind fun _ _ ⟨_, hf, _⟩ => hf.elim

/-- The members of a bitfield, distinct ones. -/
private theorem reads_bitfieldMembers (n : Nat) : ∀ {pre : List Word → Prop} (done : List BitfieldMember),
    Fits 1 n pre → Reads pre (bitfieldMembers n done) (Behind pre fun ms us _ =>
      ∃ tail, ms = done.reverse ++ tail ∧ Fields tail us
        ∧ ((done.map BitfieldMember.name).Nodup → (ms.map BitfieldMember.name).Nodup)) := by
  -- By induction on the steps, with the members that were read so far.
  induction n with
  | zero => exact fun _ h => Reads.failure h.not_zero
  | succ n ih =>
    intro pre done hfits
    unfold bitfieldMembers
    refine (Reads.atKind _).bind fun b => ?_
    split
    case isTrue hb =>
      -- A member: a name, a colon and a width.
      refine (Reads.advanceName fun ws h => h.2.1 hb).bind fun m => Reads.expectSymbol.bind fun _ =>
        (Reads.expect (k := .int) nofun).bind fun width => ?_
      split
      case h_1 v hv =>
        split
        -- A width that is not positive and a name that was there are reported.
        case isTrue => exact Reads.report.stop fun _ => (ih done fun _ h => h.elim).later
        case isFalse hpos =>
          split
          case isTrue => exact Reads.report.stop fun _ => (ih done fun _ h => h.elim).later
          case isFalse hnew =>
            refine (ih _ ?_).behind ?_
            · exact hfits.step.next.next.next.when.when.weaken (by decide)
            · rintro ms rest ⟨us, ⟨⟨hpre, _⟩, hw⟩, tail, rfl, htail, hdistinct⟩
              rw [Token.word_int hw] at hpre
              have hlt : 0 < v := Int64.not_le.1 hpos
              refine ⟨_, hpre, _, ?_, .more hv hlt htail, fun hdone => hdistinct ?_⟩
              · exact reverse_cons_append ..
              · -- The check against the members so far is what keeps them distinct.
                rw [List.map_cons, List.nodup_cons]
                refine ⟨fun hmem => hnew ?_, hdone⟩
                obtain ⟨m', hm', heq⟩ := List.mem_map.1 hmem
                exact List.any_eq_true.2 ⟨m', hm', beq_iff_eq.2 heq⟩
      -- A width that does not fit is reported.
      case h_2 => exact Reads.report.stop fun _ => (ih done fun _ h => h.elim).later
    case isFalse =>
      -- Nothing more is a member.
      refine Reads.pure fun ws h => ⟨[], h.1, [], (List.append_nil _).symm, .none, fun hdone => ?_⟩
      exact ((List.reverse_perm done).map _).nodup_iff.2 hdone

/-- The definition of a bitfield. -/
private theorem reads_bitfieldDef (hfits : Fits 1 n pre)
    (hopen : ∀ ws, pre ws → headKind ws = .keyword .bitfieldKw) :
    Reads pre (bitfieldDef n) (Behind pre fun s us _ => Statement s us ∧ s.StepsClear) := by
  unfold bitfieldDef
  refine (Reads.advanceKeyword hopen).bind fun mark => Reads.expectName.bind fun name =>
    (reads_bitfieldMembers n [] ?_).bind fun ms => ?_
  · exact hfits.next.next.weaken (by decide)
  -- What stands behind the check that there are members.
  have hgo : Reads (fun ws => Behind (fun us => pre (.keyword .bitfieldKw :: .name name.text :: us))
        (fun ms us _ => ∃ tail, ms = [].reverse ++ tail ∧ Fields tail us
          ∧ ((([] : List BitfieldMember).map BitfieldMember.name).Nodup →
            (ms.map BitfieldMember.name).Nodup)) ms ws ∧ ms ≠ [])
      (do
        expectEnd "bitfield" mark.span
        let last ← lastSpan
        pure (.bitfieldDef (mark.span.cover last) { name := name.text, members := ms, site := name.span }))
      (Behind pre fun s us _ => Statement s us ∧ s.StepsClear) := by
    refine Reads.expectEnd.bind fun _ => Reads.lastSpan.bind fun last => Reads.pure ?_
    rintro ws ⟨⟨us, hpre, tail, rfl, htail, hdistinct⟩, hsome⟩
    refine ⟨_, ?_, .bitfieldDef htail hsome (hdistinct List.nodup_nil), trivial⟩
    simpa only [List.cons_append, List.append_assoc, List.nil_append] using hpre
  -- A bitfield without members is reported.
  dsimp only
  split
  case isTrue => exact Reads.complain.stop fun _ => hgo.front fun _ h => h.elim
  case isFalse hsome => exact hgo.front fun ws h => ⟨h, fun heq => hsome (heq ▸ rfl)⟩

/-- What stands behind the sign of a given value, which is written with `ls` and changes the value by
`sign`. -/
private theorem reads_digits (ls : List Word) (sign : Int64 → Int64)
    (hvalue : ∀ v t, intValue? t = some v → Value (sign v) (ls ++ [.int t])) :
    Reads (fun ws => pre (.symbol .assign :: (ls ++ ws))) (do
      let t ← Parser.expect .int .expectNumber "expected integer value for enum member"
      match intValue? t.text with
      | some v => pure (sign v)
      | none =>
        report .expectNumber t.span "integer literal out of range"
        failure) (Behind (fun us => pre (.symbol .assign :: us)) fun v us _ => Value v us) := by
  refine (Reads.expect (k := .int) (by simp)).bind fun t => ?_
  split
  -- The digits, with what is written in front of them.
  case h_1 v hv =>
    refine Reads.pure ?_
    rintro ws ⟨hpre, ht⟩
    rw [Token.word_int ht] at hpre
    refine ⟨_, ?_, hvalue v _ hv⟩
    rwa [List.append_assoc]
  -- A number that does not fit is reported.
  case h_2 => exact Reads.report.stop fun _ => Reads.failure fun _ h => h

/-- A given value of a member. -/
private theorem reads_enumValue (hopen : ∀ ws, pre ws → headKind ws = .symbol .assign) :
    Reads pre enumValue (Behind (fun us => pre (.symbol .assign :: us)) fun v us _ => Value v us) := by
  unfold enumValue
  refine (Reads.advanceSymbol hopen).bind fun _ => Reads.atSymbol.bind fun negative => ?_
  dsimp only
  split
  -- A minus sign in front of the digits.
  case isTrue hn =>
    refine (Reads.advanceSymbol fun ws h => h.2.1 hn).bind fun _ =>
      (reads_digits [.symbol .minus] (fun v => -v) fun v t hv => .negative hv).front ?_
    rintro ws ⟨hpre, _⟩
    exact hpre
  -- The digits alone.
  case isFalse hn =>
    refine (reads_digits [] (fun v => v) fun v t hv => .positive hv).front ?_
    rintro ws ⟨hpre, _⟩
    exact hpre

/-- Members of an enumeration as written. -/
inductive Specified : List EnumSpec → List Word → Prop where
  | none : Specified [] []
  | next {m : Text} {specs : List EnumSpec} {ws : List Word} (h : Specified specs ws) :
      Specified (⟨m, .none⟩ :: specs) (.name m :: ws)
  | given {m : Text} {v : Int64} {specs : List EnumSpec} {vs ws : List Word} (hv : Value v vs)
      (h : Specified specs ws) : Specified (⟨m, some v⟩ :: specs) (.name m :: .symbol .assign :: (vs ++ ws))

/-- The members of an enumeration with their places. -/
private theorem reads_enumMembers (n : Nat) : ∀ {pre : List Word → Prop} (done : List (EnumSpec × Span)),
    Fits 1 n pre → Reads pre (enumMembers n done) (Behind pre fun ms us _ =>
      ∃ tail, ms = done.reverse ++ tail ∧ Specified (tail.map (·.1)) us) := by
  -- By induction on the steps, with the members that were read so far.
  induction n with
  | zero => exact fun _ h => Reads.failure h.not_zero
  | succ n ih =>
    intro pre done hfits
    unfold enumMembers
    refine (Reads.atKind _).bind fun b => ?_
    split
    case isTrue hb =>
      refine (Reads.advanceName fun ws h => h.2.1 hb).bind fun m => Reads.atSymbol.bind fun b' => ?_
      split
      -- A member with a given value.
      case isTrue hb' =>
        refine (reads_enumValue fun ws h => h.2.1 hb').bind fun v => (ih _ ?_).behind ?_
        · exact hfits.step.next.next.when.when.behind.weaken (by decide)
        · rintro ms rest ⟨us, ⟨vs, ⟨⟨hpre, _⟩, _⟩, hv⟩, tail, rfl, htail⟩
          refine ⟨.name m.text :: .symbol .assign :: (vs ++ us), ?_,
            (⟨m.text, some v⟩, m.span) :: tail, ?_, ?_⟩
          · simpa only [List.cons_append, List.append_assoc] using hpre
          · exact reverse_cons_append ..
          · exact .given hv htail
      -- A member that counts on from the one in front of it.
      case isFalse =>
        refine (ih _ ?_).behind ?_
        · exact hfits.step.next.when.when.weaken (by decide)
        · rintro ms rest ⟨us, ⟨⟨hpre, _⟩, _⟩, tail, rfl, htail⟩
          refine ⟨_, hpre, (⟨m.text, none⟩, m.span) :: tail, ?_, .next htail⟩
          exact reverse_cons_append ..
    -- Nothing more is a member.
    case isFalse =>
      exact Reads.pure fun ws h => ⟨[], h.1, [], (List.append_nil _).symm, .none⟩

/-- Each member is written with some word. -/
theorem Specified.eq_nil {specs : List EnumSpec} (h : Specified specs []) : specs = [] := by
  cases h
  rfl

/-- Members in order have the values of the grammar. -/
theorem Specified.members {specs : List EnumSpec} {ws : List Word} (h : Specified specs ws) :
    ∀ {counter : Int64} {ms : List EnumMember}, Enumeration.valuesFrom counter specs = (ms, .none) →
      Members counter ms ws := by
  -- By induction on the words, with the counter that each member leaves.
  induction h with
  | none =>
    intro counter ms hms
    cases hms
    exact .none
  -- The member has the value of the counter, and the next one counts on.
  | next _ ih =>
    intro counter ms hms
    simp only [Enumeration.valuesFrom] at hms
    generalize hrest : Enumeration.valuesFrom _ _ = r at hms
    obtain ⟨ms', e⟩ := r
    cases hms
    exact .next (ih hrest)
  -- A given value has to be above the counter.
  | given hv _ ih =>
    intro counter ms hms
    simp only [Enumeration.valuesFrom] at hms
    split at hms
    case isTrue => exact nomatch hms
    case isFalse hlt =>
      generalize hrest : Enumeration.valuesFrom _ _ = r at hms
      obtain ⟨ms', e⟩ := r
      cases hms
      exact .given hv (Int64.not_le.1 hlt) (ih hrest)

/-- What stands behind the members of an enumeration, of which there are some. -/
private theorem reads_enumBuilt (mark name : Token) (ms : List (EnumSpec × Span)) :
    Reads (fun ws => Behind (fun us => pre (.keyword .enumKw :: .name name.text :: us))
        (fun ms us _ => ∃ tail, ms = [].reverse ++ tail ∧ Specified (tail.map (·.1)) us) ms ws ∧ ms ≠ [])
      (do
        expectEnd "enum" mark.span
        let last ← lastSpan
        match Enumeration.build name.text name.span (ms.map (·.1)) with
        | (e, none) => pure (.enumDef (mark.span.cover last) e)
        | (e, some fault) =>
          let span := match ms[e.members.length]? with
            | some (_, s) => s
            | none => name.span
          report .enumOrder span fault.message
          failure)
      (Behind pre fun s us _ => Statement s us ∧ s.StepsClear) := by
  refine Reads.expectEnd.bind fun _ => Reads.lastSpan.bind fun last => ?_
  split
  case h_1 e he =>
    -- No member is out of order, so the values are those the members were written with.
    refine Reads.pure ?_
    rintro ws ⟨⟨us, hpre, tail, rfl, htail⟩, hsome⟩
    unfold Enumeration.build at he
    generalize hvalues : Enumeration.valuesFrom _ _ = r at he
    obtain ⟨vs, fault⟩ := r
    cases he
    have hmembers := htail.members hvalues
    refine ⟨_, ?_, .enumDef hmembers ?_, trivial⟩
    · simpa only [List.cons_append, List.append_assoc, List.nil_append] using hpre
    · rintro rfl
      -- Without members there are no words, so nothing was specified.
      cases hmembers
      exact hsome (List.map_eq_nil_iff.1 htail.eq_nil)
  -- A member out of order is reported.
  case h_2 => exact Reads.report.stop fun _ => Reads.failure fun _ h => h

/-- The definition of an enumeration. -/
private theorem reads_enumDef (hfits : Fits 1 n pre) (hopen : ∀ ws, pre ws → headKind ws = .keyword .enumKw) :
    Reads pre (enumDef n) (Behind pre fun s us _ => Statement s us ∧ s.StepsClear) := by
  unfold enumDef
  refine (Reads.advanceKeyword hopen).bind fun mark => Reads.expectName.bind fun name =>
    (reads_enumMembers n [] ?_).bind fun ms => ?_
  · exact hfits.next.next.weaken (by decide)
  dsimp only
  split
  case isTrue => exact Reads.complain.stop fun _ => (reads_enumBuilt mark name ms).front fun _ h => h.elim
  case isFalse hsome => exact (reads_enumBuilt mark name ms).front fun ws h => ⟨h, fun heq => hsome (heq ▸ rfl)⟩

/-- A require. -/
private theorem reads_requireStmt (hopen : ∀ ws, pre ws → headKind ws = .keyword .requireKw) :
    Reads pre requireStmt (Behind pre fun s us _ => Statement s us ∧ s.StepsClear) := by
  unfold requireStmt
  refine (Reads.advanceKeyword hopen).bind fun mark => (Reads.expect (k := .string) nofun).bind fun path =>
    Reads.pure ?_
  rintro ws ⟨hpre, hpath⟩
  rw [Token.word_string hpath] at hpre
  exact ⟨_, hpre, .require, trivial⟩

/-- The parameters of a function. -/
private theorem reads_params (n : Nat) : ∀ {pre : List Word → Prop} (done : List Param), Fits 1 n pre →
    Reads pre (params n done) (Behind pre fun ps us _ =>
      ∃ tail, ps = done.reverse ++ tail ∧ Parameters tail us) := by
  -- By induction on the steps, with the parameters that were read so far.
  induction n with
  | zero => exact fun _ h => Reads.failure h.not_zero
  | succ n ih =>
    intro pre done hfits
    unfold params
    refine Reads.atSymbol.bind fun b => ?_
    split
    -- The list ends, be it behind a comma.
    case isTrue => exact Reads.pure fun ws h => ⟨[], h.1, [], (List.append_nil _).symm, .none⟩
    case isFalse =>
      refine Reads.expectName.bind fun p => Reads.atSymbol.bind fun b' => ?_
      have hreverse : ∀ tail, (⟨p.text, p.span⟩ :: done).reverse ++ tail
          = done.reverse ++ ⟨p.text, p.span⟩ :: tail := by
        intro tail
        exact reverse_cons_append ..
      split
      -- A comma, and the parameters behind it.
      case isTrue hb' =>
        refine (Reads.advanceSymbol fun ws h => h.2.1 hb').bind fun _ => (ih _ ?_).behind ?_
        · exact hfits.step.next.next.when.when.weaken (by decide)
        · rintro ps rest ⟨us, ⟨⟨hpre, _⟩, _⟩, tail, rfl, htail⟩
          exact ⟨_, hpre, ⟨p.text, p.span⟩ :: tail, hreverse tail, .more htail⟩
      -- The last parameter.
      case isFalse =>
        refine Reads.pure ?_
        rintro ws ⟨⟨hpre, _⟩, _⟩
        exact ⟨_, hpre, [⟨p.text, p.span⟩], List.reverse_cons, .last⟩

end Parts

/-! ## Statements with blocks -/

/-- What all statement parsers consume at a number of steps. -/
structure StmtsRead (n : Nat) : Prop where
  stmts : ∀ {pre} ofFunction ends done, Fits 3 n pre → (ofFunction = true → ends.contains .endKw = true) →
    Reads pre (stmts n ofFunction ends done) (Behind pre fun ss us rest =>
      ∃ tail, ss = done.reverse ++ tail ∧ (Statements ofFunction tail us ∧ StepsClearStmts tail)
        ∧ closes ends (headKind rest) = true ∧ (closes ends (headKind (us ++ rest)) = true → tail = []))
  block : ∀ {pre} ofFunction ends, Fits 4 n pre → (ofFunction = true → ends.contains .endKw = true) →
    Reads pre (block n ofFunction ends)
      (Behind pre fun b us rest => (Body ofFunction b us ∧ b.StepsClear)
        ∧ closes ends (headKind rest) = true)
  returnStmt : ∀ {pre} ofFunction, Fits 1 n pre → (∀ ws, pre ws → headKind ws = .keyword .returnKw) →
    Reads pre (returnStmt n ofFunction) (Behind pre fun s us rest => ∃ sp v vs, s = .ret sp v
      ∧ us = .keyword .returnKw :: vs ∧ Expression v vs ∧ ofFunction = true
      ∧ headKind rest = .keyword .endKw)
  stmt : ∀ {pre}, Fits 2 n pre → Reads pre (stmt n) (Behind pre fun s us _ => Statement s us ∧ s.StepsClear)
  condRest : ∀ {pre} mark, Fits 7 n pre → Reads pre (condRest n mark)
    (Behind pre fun s us _ => Statement s (.keyword .ifKw :: us) ∧ s.StepsClear
      ∧ ∀ sp, Else (some (.mk [] [s] sp)) (.keyword .elifKw :: us))
  elseRest : ∀ {pre} mark, Fits 1 n pre → Reads pre (elseRest n mark)
    (Behind pre fun b us _ => Else b us ∧ StepsClearElse b)
  loop : ∀ {pre}, Fits 1 n pre → (∀ ws, pre ws → headKind ws = .keyword .whileKw) →
    Reads pre (loop n) (Behind pre fun s us _ => Statement s us ∧ s.StepsClear)
  forLoop : ∀ {pre}, Fits 1 n pre → (∀ ws, pre ws → headKind ws = .keyword .forKw) →
    Reads pre (forLoop n) (Behind pre fun s us _ => Statement s us ∧ s.StepsClear)
  funcDef : ∀ {pre}, Fits 1 n pre → (∀ ws, pre ws → headKind ws = .keyword .defKw) →
    Reads pre (funcDef n) (Behind pre fun s us _ => Statement s us ∧ s.StepsClear)

section Blocks

variable {n : Nat} {pre : List Word → Prop}

/-- One more statement, or the end of the block. -/
theorem StmtsRead.stmts_succ (ih : StmtsRead n) (ofFunction : Bool) (ends : List Keyword) (done : List Stmt)
    (hfits : Fits 3 (n + 1) pre) (hends : ofFunction = true → ends.contains .endKw = true) :
    Reads pre (Parser.stmts (n + 1) ofFunction ends done) (Behind pre fun ss us rest =>
      ∃ tail, ss = done.reverse ++ tail ∧ (Statements ofFunction tail us ∧ StepsClearStmts tail)
        ∧ closes ends (headKind rest) = true
        ∧ (closes ends (headKind (us ++ rest)) = true → tail = [])) := by
  unfold Parser.stmts
  refine Reads.peek.bind fun t => ?_
  split
  case isTrue hclosed =>
    -- The block ends in front of this word.
    refine Reads.pure ?_
    rintro ws ⟨hpre, _, us, rfl⟩
    refine ⟨[], hpre, [], (List.append_nil _).symm, ⟨.none, trivial⟩, ?_, fun _ => rfl⟩
    rw [headKind, t.kind_word]
    exact hclosed
  case isFalse hopen =>
    -- The first of the words that are read does not close the block.
    have hhead : ∀ {us vs : List Word}, us = t.word :: vs → ¬closes ends (headKind us) = true := by
      rintro us vs rfl
      rw [headKind, t.kind_word]
      exact hopen
    split
    -- A return.
    case isTrue hreturn =>
      refine (ih.returnStmt ofFunction ?_ ?_).attempt.bind fun r => ?_
      · exact hfits.step.when.weaken (by decide)
      · rintro ws ⟨_, _, us, rfl⟩
        exact t.kind_word.trans hreturn
      cases r with
      | some s =>
        -- The steps are enough for what is behind the return.
        refine (ih.stmts ofFunction ends (s :: done) ?_ hends).behind ?_
        · rintro ws ⟨us, ⟨hpre, _⟩, sp, v, vs, rfl, rfl, _⟩
          have hsteps := hfits.step _ hpre
          rw [List.length_append, List.length_cons] at hsteps
          omega
        · rintro ss rest ⟨vs, ⟨us, ⟨hpre, _, ws, hws⟩, sp, v, us', rfl, rfl, hv, rfl, hend⟩, tail, rfl,
            ⟨htail, _⟩, hclosed, hnil⟩
          -- In front of `end` no statement is read, so the return is the last.
          have htail' : tail = [] := by
            apply hnil
            rw [hend]
            exact hends rfl
          subst htail'
          cases htail
          refine ⟨_, hpre, [.ret sp v], ?_, ⟨.ret hv, trivial, trivial⟩, hclosed,
            fun h => absurd h (hhead hws)⟩
          rw [List.append_nil, List.reverse_cons]
      -- An attempt that fails has reported why.
      | none => exact (ih.stmts ofFunction ends done (fun _ h => h.elim) hends).later
    -- Any other statement.
    case isFalse =>
      refine (ih.stmt ?_).attempt.bind fun r => ?_
      · exact hfits.step.when
      cases r with
      | some s =>
        -- A statement has words, so fewer are left for the others.
        refine (ih.stmts ofFunction ends (s :: done) ?_ hends).behind ?_
        · rintro ws ⟨us, ⟨hpre, _⟩, hs, _⟩
          have hsteps := hfits.step _ hpre
          have hpos := List.length_pos_iff.2 hs.ne_nil
          rw [List.length_append] at hsteps
          omega
        · rintro ss rest ⟨vs, ⟨us, ⟨hpre, _, ws, hws⟩, hstmt, hsteps⟩, tail, rfl, ⟨htail, hclear⟩,
            hclosed, _⟩
          -- The words of the statement, and those of the others.
          refine ⟨us ++ vs, ?_, s :: tail, ?_, ⟨.more hstmt htail, hsteps, hclear⟩, hclosed, ?_⟩
          · rwa [List.append_assoc]
          · exact reverse_cons_append ..
          · rw [List.append_assoc]
            exact fun h => absurd h (hhead hws)
      -- A statement that fails has reported why.
      | none =>
        refine Reads.resync.stop fun _ => ?_
        exact (ih.stmts ofFunction ends done (fun _ h => h.elim) hends).later

/-- A block. -/
theorem StmtsRead.block_succ (ih : StmtsRead n) (ofFunction : Bool) (ends : List Keyword)
    (hfits : Fits 4 (n + 1) pre) (hends : ofFunction = true → ends.contains .endKw = true) :
    Reads pre (Parser.block (n + 1) ofFunction ends)
      (Behind pre fun b us rest => (Body ofFunction b us ∧ b.StepsClear)
        ∧ closes ends (headKind rest) = true) := by
  unfold Parser.block
  refine Reads.peek.bind fun first => (ih.stmts ofFunction ends [] ?_ hends).bind fun body =>
    Reads.lastSpan.bind fun last => Reads.pure ?_
  · exact hfits.step.when
  · rintro ws ⟨us, ⟨hpre, _⟩, tail, rfl, ⟨htail, hclear⟩, hclosed, _⟩
    exact ⟨us, hpre, ⟨.mk htail, hclear⟩, hclosed⟩

/-- A return. -/
private theorem StmtsRead.returnStmt_succ (ofFunction : Bool) (hfits : Fits 1 (n + 1) pre)
    (hopen : ∀ ws, pre ws → headKind ws = .keyword .returnKw) :
    Reads pre (Parser.returnStmt (n + 1) ofFunction) (Behind pre fun s us rest => ∃ sp v vs, s = .ret sp v
      ∧ us = .keyword .returnKw :: vs ∧ Expression v vs ∧ ofFunction = true
      ∧ headKind rest = .keyword .endKw) := by
  unfold Parser.returnStmt
  -- The word and the value behind it.
  refine (Reads.advanceKeyword hopen).bind fun mark => (reads_expr ?_).attempt.bind fun r => ?_
  · exact hfits.step.next.weaken (by decide)
  cases r with
  | none => exact Reads.resync.stop fun _ => Reads.failure fun _ h => h
  | some v =>
    refine Reads.atKeyword.bind fun closed => ?_
    split
    -- Both conditions hold: the return is in a function, and the end is ahead.
    case isTrue h =>
      obtain ⟨rfl, rfl⟩ := Bool.and_eq_true_iff.1 h
      refine Reads.pure ?_
      rintro ws ⟨⟨vs, hpre, hvalue⟩, hend⟩
      exact ⟨_, hpre, _, v, vs, rfl, rfl, hvalue, rfl, hend.1 rfl⟩
    -- A return anywhere else is reported.
    case isFalse => exact Reads.report.stop fun _ => Reads.failure fun _ h => h

/-- The rest of a conditional behind its test. -/
theorem StmtsRead.condRest_succ (ih : StmtsRead n) (mark : Token) (hfits : Fits 7 (n + 1) pre) :
    Reads pre (Parser.condRest (n + 1) mark) (Behind pre fun s us _ =>
      Statement s (.keyword .ifKw :: us) ∧ s.StepsClear ∧ ∀ sp, Else (some (.mk [] [s] sp)) (.keyword .elifKw :: us)) := by
  unfold Parser.condRest
  refine (reads_expr ?_).bind fun test => (ih.block false _ ?_ (by simp)).bind fun thenBlock =>
    (ih.elseRest mark ?_).bind fun elseBlock => Reads.lastSpan.bind fun last => Reads.pure ?_
  · exact hfits.step
  · exact hfits.step.behind.weaken (by decide)
  · exact hfits.step.behind.behind.weaken (by decide)
  · rintro ws ⟨fs, ⟨ts, ⟨cs, hpre, hc⟩, ⟨ht, htclear⟩, _⟩, hf, hfclear⟩
    refine ⟨cs ++ (ts ++ fs), ?_, .cond hc ht hf, ⟨htclear, hfclear⟩, fun sp => .elif hc ht hf⟩
    simpa only [List.append_assoc] using hpre

/-- The rest of a conditional behind its first block. -/
theorem StmtsRead.elseRest_succ (ih : StmtsRead n) (mark : Token) (hfits : Fits 1 (n + 1) pre) :
    Reads pre (Parser.elseRest (n + 1) mark) (Behind pre fun b us _ => Else b us ∧ StepsClearElse b) := by
  unfold Parser.elseRest
  refine Reads.atKeyword.bind fun b => ?_
  split
  -- One more condition, which is a block of its own in the tree.
  case isTrue hb =>
    refine (Reads.advanceKeyword fun ws h => h.2.1 hb).bind fun inner =>
      (ih.condRest inner ?_).bind fun nested => Reads.pure ?_
    · exact hfits.step.next.when.weaken (by decide)
    · rintro ws ⟨us, ⟨hpre, _⟩, _, hclear, helse⟩
      exact ⟨_, hpre, helse _, hclear, trivial⟩
  case isFalse =>
    refine Reads.atKeyword.bind fun b' => ?_
    split
    -- The last branch.
    case isTrue hb' =>
      refine (Reads.advanceKeyword fun ws h => h.2.1 hb').bind fun _ =>
        (ih.block false _ ?_ (by simp)).bind fun body => Reads.expectEnd.bind fun _ => Reads.pure ?_
      · exact hfits.step.next.when.when.weaken (by decide)
      · rintro ws ⟨us, ⟨⟨hpre, _⟩, _⟩, ⟨hb, hclear⟩, _⟩
        refine ⟨_, ?_, .some hb, hclear⟩
        simpa only [List.cons_append, List.append_assoc, List.nil_append] using hpre
    -- No branch, but the end.
    case isFalse =>
      refine Reads.expectEnd.bind fun _ => Reads.pure ?_
      rintro ws ⟨⟨hpre, _⟩, _⟩
      exact ⟨_, hpre, .none, trivial⟩

/-- A loop with a condition. -/
theorem StmtsRead.loop_succ (ih : StmtsRead n) (hfits : Fits 1 (n + 1) pre)
    (hopen : ∀ ws, pre ws → headKind ws = .keyword .whileKw) :
    Reads pre (Parser.loop (n + 1)) (Behind pre fun s us _ => Statement s us ∧ s.StepsClear) := by
  unfold Parser.loop
  refine (Reads.advanceKeyword hopen).bind fun mark => (reads_expr ?_).bind fun test =>
    (ih.block false _ ?_ (by simp)).bind fun body => Reads.expectEnd.bind fun _ =>
    Reads.lastSpan.bind fun last => Reads.pure ?_
  · exact hfits.step.next.weaken (by decide)
  · exact hfits.step.next.behind.weaken (by decide)
  · rintro ws ⟨bs, ⟨cs, hpre, hc⟩, ⟨hb, hclear⟩, _⟩
    refine ⟨_, ?_, .loop hc hb, hclear⟩
    simpa only [List.cons_append, List.append_assoc, List.nil_append] using hpre

/-- A loop behind the test of its header. -/
theorem StmtsRead.forBody (ih : StmtsRead n) (mark : Token) (init : Option Assign) (test : Option Expr)
    (hfits : Fits 1 n pre) : Reads pre (forBody n mark init test) (Behind pre fun s us _ =>
      ∃ sp st b ss bs, s = .forLoop sp init test st b ∧ Clause st ss ∧ Body false b bs ∧ s.StepsClear
        ∧ us = .symbol .semicolon :: (ss ++ (bs ++ [.keyword .endKw]))) := by
  unfold Parser.forBody
  -- The semicolon, the step, the body and the end.
  refine Reads.expectSymbol.bind fun _ => (reads_forStep ?_).bind fun step =>
    (ih.block false _ ?_ nofun).bind fun body => Reads.expectEnd.bind fun _ =>
    Reads.lastSpan.bind fun last => Reads.pure ?_
  · exact hfits.next.weaken (by decide)
  · exact hfits.next.behind.weaken (by decide)
  -- All the words of the rest, in order.
  · rintro ws ⟨bs, ⟨ss, hpre, hst, hname⟩, ⟨hb, hclear⟩, _⟩
    refine ⟨_, ?_, _, _, _, ss, bs, rfl, hst, hb, ⟨fun h => ?_, hclear⟩, rfl⟩
    -- If there is no step, then the body does not begin with a name.
    case refine_2 => exact hb.opensWithName_eq_false (hname h)
    simpa only [List.cons_append, List.append_assoc, List.nil_append] using hpre

/-- A loop behind the first clause of its header. -/
theorem StmtsRead.forRest (ih : StmtsRead n) (mark : Token) (init : Option Assign)
    (hfits : Fits 1 n pre) : Reads pre (forRest n mark init) (Behind pre fun s us _ =>
      (∀ is, Clause init is → Statement s (.keyword .forKw :: (is ++ us))) ∧ s.StepsClear) := by
  -- The test is known by now, whether there is one or not.
  have hbody : ∀ test, Reads
      (Behind (fun us => pre (.symbol .semicolon :: us)) (fun c us _ => Test c us) test)
      (Parser.forBody n mark init test) (Behind pre fun s us _ =>
        (∀ is, Clause init is → Statement s (.keyword .forKw :: (is ++ us))) ∧ s.StepsClear) := by
    intro test
    refine (ih.forBody mark init test ?_).behind ?_
    · exact hfits.next.behind.weaken (by decide)
    · rintro s rest ⟨us, ⟨cs, hpre, hc⟩, sp, st, b, ss, bs, rfl, hst, hb, hclear, rfl⟩
      refine ⟨.symbol .semicolon :: (cs ++ .symbol .semicolon :: (ss ++ (bs ++ [.keyword .endKw]))), ?_,
        fun is hi => .forLoop hi hc hst hb, hclear⟩
      simpa only [List.cons_append, List.append_assoc] using hpre
  unfold Parser.forRest
  refine Reads.expectSymbol.bind fun _ => Reads.atSymbol.bind fun b => ?_
  dsimp only
  split
  -- No test: the next semicolon is ahead.
  case isTrue =>
    refine Reads.bind (Reads.pure ?_) hbody
    rintro ws ⟨hpre, _⟩
    exact ⟨[], hpre, .none⟩
  -- A test.
  case isFalse =>
    refine Reads.bind ((reads_expr ?_).map ?_) hbody
    · exact hfits.next.when.weaken (by decide)
    · rintro e ws ⟨us, ⟨hpre, _⟩, he⟩
      exact ⟨us, hpre, .some he⟩

/-- A loop with a header. -/
theorem StmtsRead.forLoop_succ (ih : StmtsRead n) (hfits : Fits 1 (n + 1) pre)
    (hopen : ∀ ws, pre ws → headKind ws = .keyword .forKw) :
    Reads pre (Parser.forLoop (n + 1)) (Behind pre fun s us _ => Statement s us ∧ s.StepsClear) := by
  unfold Parser.forLoop
  refine (Reads.advanceKeyword hopen).bind fun mark => Reads.atSymbol.bind fun b => ?_
  -- So is the first clause.
  have hrest : ∀ init, Reads
      (Behind (fun us => pre (.keyword .forKw :: us)) (fun a us _ => Clause a us) init)
      (Parser.forRest n mark init) (Behind pre fun s us _ => Statement s us ∧ s.StepsClear) := by
    intro init
    refine (ih.forRest mark init ?_).behind ?_
    · exact hfits.step.next.behind.weaken (by decide)
    · rintro s rest ⟨us, ⟨is, hpre, hi⟩, hs, hclear⟩
      refine ⟨_, ?_, hs is hi, hclear⟩
      rwa [List.cons_append, List.append_assoc]
  dsimp only
  split
  -- No first clause: the semicolon is ahead.
  case isTrue =>
    refine Reads.bind (Reads.pure ?_) hrest
    rintro ws ⟨hpre, _⟩
    exact ⟨[], hpre, .none⟩
  -- A first clause.
  case isFalse =>
    refine Reads.bind ((reads_assignment ?_).map ?_) hrest
    · exact hfits.step.next.when.weaken (by decide)
    · rintro a ws ⟨us, ⟨hpre, _⟩, ha⟩
      exact ⟨us, hpre, .some ha⟩

/-- The definition of a function. -/
theorem StmtsRead.funcDef_succ (ih : StmtsRead n) (hfits : Fits 1 (n + 1) pre)
    (hopen : ∀ ws, pre ws → headKind ws = .keyword .defKw) :
    Reads pre (Parser.funcDef (n + 1)) (Behind pre fun s us _ => Statement s us ∧ s.StepsClear) := by
  unfold Parser.funcDef
  refine (Reads.advanceKeyword hopen).bind fun mark => Reads.expectName.bind fun name =>
    Reads.expectSymbol.bind fun _ => (reads_params n [] ?_).bind fun ps =>
    Reads.expectSymbol.bind fun _ => (ih.block true _ ?_ fun _ => rfl).bind fun body =>
    Reads.expectEnd.bind fun _ => Reads.lastSpan.bind fun last => Reads.pure ?_
  · exact hfits.step.next.next.next.weaken (by decide)
  · exact hfits.step.next.next.next.behind.next.weaken (by decide)
  · rintro ws ⟨bs, ⟨us, hpre, tail, rfl, hps⟩, ⟨hb, hclear⟩, _⟩
    refine ⟨_, ?_, .funcDef hps hb, hclear⟩
    simpa only [List.cons_append, List.append_assoc, List.nil_append] using hpre

/-- A statement. -/
theorem StmtsRead.stmt_succ (ih : StmtsRead n) (hfits : Fits 2 (n + 1) pre) :
    Reads pre (Parser.stmt (n + 1)) (Behind pre fun s us _ => Statement s us ∧ s.StepsClear) := by
  unfold Parser.stmt
  refine Reads.peek.bind fun t => ?_
  -- Looking at a word uses up no words.
  have hfits' : Fits 1 n fun ws => pre ws ∧ t.kind ≠ .invalid ∧ ∃ us, ws = t.word :: us := by
    exact hfits.step.when
  have hhead : ∀ ws, (pre ws ∧ t.kind ≠ .invalid ∧ ∃ us, ws = t.word :: us) → headKind ws = t.kind := by
    rintro ws ⟨_, _, us, rfl⟩
    exact t.kind_word
  -- What is known of the word that was looked at is not needed any more.
  have hpost : ∀ s ws, Behind (fun ws => pre ws ∧ t.kind ≠ .invalid ∧ ∃ us, ws = t.word :: us)
      (fun s us _ => Statement s us ∧ s.StepsClear) s ws →
      Behind pre (fun s us _ => Statement s us ∧ s.StepsClear) s ws := by
    rintro s ws ⟨us, ⟨hpre, _⟩, hs⟩
    exact ⟨us, hpre, hs⟩
  split
  -- A name begins an assignment or a call.
  case h_1 hk => exact (reads_namedStmt hfits' fun ws h => (hhead ws h).trans hk).behind hpost
  -- A condition is read behind its first word.
  case h_2 hk =>
    refine (Reads.advanceSeen (hk ▸ nofun)).bind fun mark => (ih.condRest mark ?_).behind ?_
    · exact hfits.step.next.weaken (by decide)
    · rintro s rest ⟨us, hpre, hs, hclear, _⟩
      rw [Token.word_keyword hk] at hpre
      exact ⟨_, hpre, hs, hclear⟩
  -- The other statements begin with the words of their kinds.
  case h_3 hk => exact (ih.loop hfits' fun ws h => (hhead ws h).trans hk).behind hpost
  case h_4 hk => exact (ih.forLoop hfits' fun ws h => (hhead ws h).trans hk).behind hpost
  case h_5 hk => exact (ih.funcDef hfits' fun ws h => (hhead ws h).trans hk).behind hpost
  case h_6 hk => exact (reads_bitfieldDef hfits' fun ws h => (hhead ws h).trans hk).behind hpost
  case h_7 hk => exact (reads_enumDef hfits' fun ws h => (hhead ws h).trans hk).behind hpost
  case h_8 hk => exact (reads_requireStmt fun ws h => (hhead ws h).trans hk).behind hpost
  -- A code literal is one word.
  case h_9 hk =>
    refine (Reads.advanceSeen (hk ▸ nofun)).bind fun _ => Reads.pure fun ws hpre => ?_
    rw [Token.word_code hk] at hpre
    exact ⟨_, hpre, .code, trivial⟩
  -- So is a break.
  case h_10 hk =>
    refine (Reads.advanceSeen (hk ▸ nofun)).bind fun _ => Reads.pure fun ws hpre => ?_
    rw [Token.word_keyword hk] at hpre
    exact ⟨_, hpre, .leave, trivial⟩
  case h_11 hk =>
    -- An invalid token is reported by the lexer.
    exact Reads.failure fun ws h => h.2.1 hk
  -- Anything else is reported.
  case h_12 => exact Reads.report.stop fun _ => Reads.failure fun _ h => h

end Blocks

/-- Every number of steps reads statements. -/
theorem stmtsRead (n : Nat) : StmtsRead n := by
  induction n with
  | zero =>
    exact ⟨fun _ _ _ h _ => Reads.failure h.not_zero, fun _ _ h _ => Reads.failure h.not_zero,
      fun _ h _ => Reads.failure h.not_zero, fun h => Reads.failure h.not_zero,
      fun _ h => Reads.failure h.not_zero, fun _ h => Reads.failure h.not_zero,
      fun h _ => Reads.failure h.not_zero, fun h _ => Reads.failure h.not_zero,
      fun h _ => Reads.failure h.not_zero⟩
  | succ n ih =>
    exact ⟨ih.stmts_succ, ih.block_succ, StmtsRead.returnStmt_succ, ih.stmt_succ, ih.condRest_succ,
      ih.elseRest_succ, ih.loop_succ, ih.forLoop_succ, ih.funcDef_succ⟩

/-! ## Whole files -/

/-- At top level only the end of the text closes the block. -/
private theorem reads_program {n : Nat} {pre : List Word → Prop} (hfits : Fits 4 n pre) :
    Reads pre (program n)
      (Behind pre fun b us rest => b.Renders us ∧ b.StepsClear ∧ headKind rest = .eof) := by
  unfold program
  -- The statements are read as a block that nothing but the end closes.
  refine Reads.peek.bind fun first => ((stmtsRead n).block false [] ?_ nofun).bind fun body =>
    Reads.peek.bind fun last => Reads.pure ?_
  · rintro ws ⟨hpre, _⟩
    exact hfits _ hpre
  · rintro ws ⟨⟨us, ⟨hpre, _⟩, ⟨hbody, hclear⟩, hclosed⟩, _⟩
    -- The block is the program, and its steps are clear.
    refine ⟨us, hpre, ?_, ?_, ?_⟩
    · cases hbody with
      | mk hss => exact .mk hss
    · cases hbody with
      | mk hss => exact hclear
    -- A closing keyword is none that closes the program.
    · unfold closes at hclosed
      split at hclosed
      · assumption
      · exact nomatch hclosed
      · exact nomatch hclosed

end AisScript.Parser

namespace AisScript

open AisScript.Parser

/-- Where the lexemes of a file begin, nothing was reported. -/
private theorem ready_start (file maxErrors : Nat) (contents : Text) :
    ({ ahead := lexemes file contents, last := { file := file }, maxErrors } : ParseState).Ready := by
  obtain ⟨ls, last, hls, hlast, hnone, hall⟩ := lexemesFrom_eq_concat ⟨file, 0⟩ contents
  -- The lexer reports its invalid tokens, and only the last one is an end mark.
  refine ⟨rfl, rfl, nofun, fun l hl hinvalid => ?_, ls.map fun l => l.token.word, ?_, ?_⟩
  · change l ∈ lexemesFrom ⟨file, 0⟩ contents at hl
    rw [hls] at hl
    rcases List.mem_append.1 hl with hl | hl
    · exact (hall l hl).2 hinvalid
    · rw [List.mem_singleton.1 hl, hlast] at hinvalid
      exact nomatch hinvalid
  -- The last word is the end mark.
  · have hword : last.token.word = .eof := by rw [Token.word, hlast]
    change (lexemesFrom ⟨file, 0⟩ contents).map (fun l => l.token.word) = _
    rw [hls, List.map_append, List.map_singleton, hword]
  -- No other token is one.
  · intro hmem
    obtain ⟨l, hl, heof⟩ := List.mem_map.1 hmem
    exact (hall l hl).1 (l.token.kind_word.symm.trans (congrArg Word.kind heof))

/-- What a parse without reports returns. -/
theorem parse_reads (file maxErrors : Nat) (contents : Text)
    (hclean : (parse file maxErrors contents).reports = []) :
    ∃ ws, (lexemes file contents).map (fun l => l.token.word) = ws ++ [.eof]
      ∧ (parse file maxErrors contents).program.Renders ws
      ∧ (parse file maxErrors contents).program.StepsClear := by
  have hready := ready_start file maxErrors contents
  generalize hstart : ({ ahead := lexemes file contents, last := { file := file }, maxErrors } : ParseState)
    = start at hready
  -- The words ahead are those of all lexemes.
  have hwords : start.words = (lexemes file contents).map fun l => l.token.word := by
    subst hstart
    rfl
  -- The steps that are given are enough for these words.
  have hfits : Fits 4 (stepsFor (lexemes file contents).length) fun us => us = start.words := by
    rintro us rfl
    have hlen := congrArg List.length hwords
    rw [List.length_map] at hlen
    rw [hlen, stepsFor]
    omega
  unfold parse parseLexemes at hclean ⊢
  dsimp only at hclean ⊢
  rw [hstart] at hclean ⊢
  have hreads := (reads_program hfits).reads start hready rfl
  generalize Parser.program (stepsFor (lexemes file contents).length) = p at hclean hreads ⊢
  -- Reports come in reverse, so there are none either way.
  have hreports : (p.run start).2.reports = [] := by
    cases hrun : p.run start with
    | mk r s =>
      rw [hrun] at hclean
      cases r <;> exact List.reverse_eq_nil_iff.1 hclean
  -- What is left behind the program is the end mark alone.
  obtain ⟨b, hb, hready', us, hall, hrenders, hclear, heof⟩ := hreads hreports
  cases hrun : p.run start with
  | mk r s =>
    rw [hrun] at hb hready' hall heof
    cases hb
    rw [hready'.words_eq heof] at hall
    exact ⟨us, hwords.symm.trans hall.symm, hrenders, hclear⟩

/-- A file that is parsed without reports is written with exactly the words of the program that is
returned: none of them is dropped or made up. -/
theorem parse_renders (file maxErrors : Nat) (contents : Text)
    (hclean : (parse file maxErrors contents).reports = []) :
    ∃ ws, (lexemes file contents).map (fun l => l.token.word) = ws ++ [.eof]
      ∧ (parse file maxErrors contents).program.Renders ws := by
  obtain ⟨ws, hws, hrenders, _⟩ := parse_reads file maxErrors contents hclean
  exact ⟨ws, hws, hrenders⟩

/-! ## What a tree does not say -/

/-- An enumeration whose member has no value. -/
def countedEnum : Text := "enum E a     end"

/-- The same enumeration with the value that is counted. -/
def givenEnum : Text := "enum E a = 0 end"

/-- The tree of both. -/
def enumTree : Block :=
  .mk [] [.enumDef ⟨0, 0, 16⟩ { name := "E", members := [⟨"a", 0⟩], site := ⟨0, 5, 6⟩ }] ⟨0, 0, 16⟩

-- Lexing is no structural recursion, so its tokens are computed by one.
private theorem lexemes_givenEnum : lexemes 0 givenEnum =
    [⟨⟨.keyword .enumKw, ⟨0, 0, 4⟩, "enum"⟩, []⟩, ⟨⟨.ident, ⟨0, 5, 6⟩, "E"⟩, []⟩,
      ⟨⟨.ident, ⟨0, 7, 8⟩, "a"⟩, []⟩, ⟨⟨.symbol .assign, ⟨0, 9, 10⟩, "="⟩, []⟩,
      ⟨⟨.int, ⟨0, 11, 12⟩, "0"⟩, []⟩, ⟨⟨.keyword .endKw, ⟨0, 13, 16⟩, "end"⟩, []⟩, .endMark ⟨0, 16⟩] := by
  rw [lexemes_eq_within]
  decide +kernel

private theorem lexemes_countedEnum : lexemes 0 countedEnum =
    [⟨⟨.keyword .enumKw, ⟨0, 0, 4⟩, "enum"⟩, []⟩, ⟨⟨.ident, ⟨0, 5, 6⟩, "E"⟩, []⟩,
      ⟨⟨.ident, ⟨0, 7, 8⟩, "a"⟩, []⟩, ⟨⟨.keyword .endKw, ⟨0, 13, 16⟩, "end"⟩, []⟩, .endMark ⟨0, 16⟩] := by
  rw [lexemes_eq_within]
  decide +kernel

private theorem parse_givenEnum : parse 0 0 givenEnum = ⟨enumTree, 0, []⟩ := by
  rw [parse, lexemes_givenEnum]
  rfl

private theorem parse_countedEnum : parse 0 0 countedEnum = ⟨enumTree, 0, []⟩ := by
  rw [parse, lexemes_countedEnum]
  rfl

/-- The text with the value is written with the words of its tree. -/
theorem givenEnum_renders : (parse 0 0 givenEnum).reports = []
    ∧ ∃ ws, (lexemes 0 givenEnum).map (fun l => l.token.word) = ws ++ [.eof]
      ∧ (parse 0 0 givenEnum).program.Renders ws := by
  have hclean : (parse 0 0 givenEnum).reports = [] := by rw [parse_givenEnum]
  exact ⟨hclean, parse_renders 0 0 givenEnum hclean⟩

/-- Words that are neither parentheses, commas, minus signs and numbers nor the keywords of
conditionals and `end`. -/
def Word.isFixed : Word → Bool
  | .int _ | .float _ => false
  | .symbol s => s ≠ .lParen && s ≠ .rParen && s ≠ .comma && s ≠ .minus
  | .keyword k => k ≠ .ifKw && k ≠ .elifKw && k ≠ .elseKw && k ≠ .endKw
  | _ => true

/-- Whether a value was given cannot be told from the tree: no way to write trees gives back all the
other words, however it treats parentheses, commas, signs, numbers and conditionals. -/
theorem given_values_not_rendered : ¬∃ render : Block → List Word, ∀ contents : Text,
    (parse 0 0 contents).reports = [] →
      ((lexemes 0 contents).map fun l => l.token.word).filter Word.isFixed
        = (render (parse 0 0 contents).program).filter Word.isFixed := by
  rintro ⟨render, hrender⟩
  have hgiven := hrender givenEnum (by rw [parse_givenEnum])
  have hcounted := hrender countedEnum (by rw [parse_countedEnum])
  -- Both texts have the same tree, but only one of them has a `=`.
  rw [parse_givenEnum, lexemes_givenEnum] at hgiven
  rw [parse_countedEnum, lexemes_countedEnum] at hcounted
  exact absurd (hgiven.trans hcounted.symm) (by decide)

end AisScript
