import AisScript.Proofs.Reading

/-!
# Reading expressions

Each function of the parser that reads expressions consumes words of the grammar's nonterminal it is for,
and as long as there are steps enough for the words ahead it cannot fail without a report.  Operators are
read from left to right; what was read in front of one is joined tightly enough to be its left operand.

* `Fits`        enough steps for the words ahead
* `Behind`      words consumed in front of the words ahead
* `Leads`       a left operand in front of the next operator
* `exprsRead`   what the expression parsers consume
-/

namespace AisScript.Parser

open Grammar

/-! ## Words consumed -/

/-- There are steps enough for the words ahead: each word takes twelve at most, and the function that
is run takes `c` more. -/
def Fits (c n : Nat) (pre : List Word → Prop) : Prop := ∀ ws, pre ws → 12 * ws.length + c ≤ n

/-- No steps are never enough. -/
theorem Fits.not_zero {c : Nat} {pre : List Word → Prop} (h : Fits (c + 1) 0 pre) (ws : List Word) :
    ¬pre ws := by
  intro hpre
  have := h ws hpre
  omega

/-- Words were consumed in front of the words ahead. -/
def Behind {α : Type} (pre : List Word → Prop) (post : α → List Word → List Word → Prop) (a : α)
    (rest : List Word) : Prop :=
  ∃ us, pre (us ++ rest) ∧ post a us rest

section Fits

variable {c n : Nat} {pre : List Word → Prop}

/-- A function is called. -/
theorem Fits.step (h : Fits (c + 1) (n + 1) pre) : Fits c n pre :=
  fun ws hpre => Nat.le_of_succ_le_succ (h ws hpre)

theorem Fits.weaken {c' : Nat} (h : Fits c n pre) (hle : c' ≤ c) : Fits c' n pre :=
  fun ws hpre => Nat.le_trans (Nat.add_le_add_left hle _) (h ws hpre)

/-- A word is consumed. -/
theorem Fits.next {w : Word} (h : Fits c n pre) : Fits (c + 12) n fun ws => pre (w :: ws) := by
  intro ws hpre
  have hsteps := h _ hpre
  rw [List.length_cons] at hsteps
  omega

/-- More is known of the words ahead. -/
theorem Fits.when {p : List Word → Prop} (h : Fits c n pre) : Fits c n fun ws => pre ws ∧ p ws :=
  fun ws hws => h ws hws.1

/-- Words are consumed. -/
theorem Fits.behind {α : Type} {post : α → List Word → List Word → Prop} {a : α} (h : Fits c n pre) :
    Fits c n (Behind pre post a) := by
  rintro ws ⟨us, hpre, _⟩
  have hsteps := h _ hpre
  rw [List.length_append] at hsteps
  omega

end Fits

/-- The next word is no operator that may go on behind operands joined at a rank. -/
def Halts (least : Nat) (loose : Bool) (ws : List Word) : Prop :=
  ∀ op rank, infixOf? (headKind ws) = some (op, rank) → rank < least ∧ (loose = true → rank < comparison)

/-- The next word, if it is an operator, may have operands joined at a rank on its left. -/
def Follows (most : Nat) (loose : Bool) (ws : List Word) : Prop :=
  ∀ op rank, infixOf? (headKind ws) = some (op, rank) →
    leftRank rank ≤ most ∧ (loose = true → rank < comparison)

/-- What was read in front of the next operator: operands joined tightly enough for it. -/
def Leads (least : Nat) (left : Expr) (ls ws : List Word) : Prop :=
  ∃ most loose, least ≤ most ∧ (∀ m ≤ most, Joined m loose left ls) ∧ Follows most loose ws

/-- No operator has a rank above ten. -/
private theorem rank_le {k : Token.Kind} {op : BinaryOp} {rank : Nat} (h : infixOf? k = some (op, rank)) :
    1 ≤ rank ∧ rank ≤ 10 := by
  unfold infixOf? at h
  split at h
  · cases h; omega
  · cases h; omega
  · split at h <;> cases h <;> simp [comparison]
  · exact nomatch h

/-- The only left operands that must bind tighter than the operator are those of comparisons. -/
private theorem leftRank_le {rank : Nat} (h : rank ≤ 10) : leftRank rank ≤ 10 := by
  unfold leftRank comparison
  split <;> omega

/-! ## Expressions -/

/-- What all expression parsers consume at a number of steps. -/
structure ExprsRead (n : Nat) : Prop where
  binary : ∀ {pre} least, Fits 6 n pre → Reads pre (binary n least)
    (Behind pre fun e us rest => ∃ loose, Joined least loose e us ∧ Halts least loose rest)
  binaryRest : ∀ (pre : List Word → Prop) least left, Reads
    (fun ws => 12 * ws.length + 1 ≤ n ∧ ∃ ls, pre (ls ++ ws) ∧ Leads least left ls ws)
    (binaryRest n least left)
    (Behind pre fun e us rest => ∃ loose, Joined least loose e us ∧ Halts least loose rest)
  negation : ∀ {pre}, Fits 5 n pre → Reads pre (negation n)
    (Behind pre fun e us rest => ∀ least, Leads least e us rest)
  unary : ∀ {pre}, Fits 4 n pre → Reads pre (unary n) (Behind pre fun e us _ => Signed e us)
  power : ∀ {pre}, Fits 3 n pre → Reads pre (power n) (Behind pre fun e us _ => Signed e us)
  members : ∀ (pre : List Word → Prop) base, Reads
    (fun ws => 12 * ws.length + 1 ≤ n ∧ ∃ ls, pre (ls ++ ws) ∧ Accessed base ls)
    (members n base) (Behind pre fun e us _ => Accessed e us)
  primary : ∀ {pre}, Fits 2 n pre → Reads pre (primary n) (Behind pre fun e us _ => Primary e us)
  callRest : ∀ {pre} callee, Fits 1 n pre → (∀ ws, pre ws → headKind ws = .symbol .lParen) →
    Reads pre (callRest n callee) (Behind pre fun e us _ => ∃ i args ws,
      e = .call i callee.text callee.span args .unresolved ∧ Arguments args ws
        ∧ us = .symbol .lParen :: (ws ++ [.symbol .rParen]))
  arguments : ∀ {pre} done, Fits 7 n pre → Reads pre (arguments n done)
    (Behind pre fun es us _ => ∃ tail, es = done.reverse ++ tail ∧ Arguments tail us)
  query : ∀ {pre}, Fits 1 n pre → (∀ ws, pre ws → headKind ws = .keyword .queryKw) →
    Reads pre (query n) (Behind pre fun e us _ => Primary e us)
  bracketed : ∀ {pre}, Fits 1 n pre → Reads pre (bracketed n)
    (Behind pre fun e us _ => Bracketed e us)

/-- The next operator has a rank that its left operand allows. -/
theorem Leads.next {least rank : Nat} {op : BinaryOp} {w : Word} {loose : Bool} {left right : Expr}
    {ls rs rest : List Word} (h : Leads least left ls (w :: (rs ++ rest)))
    (hop : infixOf? w.kind = some (op, rank)) (hrank : least ≤ rank) (hr : Joined (rank + 1) loose right rs)
    (hhalts : Halts (rank + 1) loose rest)
    (hchain : rank = comparison → isComparison (headKind rest) = false) :
    Leads least (.infixOp op left right) (ls ++ w :: rs) rest := by
  obtain ⟨most, loose', _, hl, hfollows⟩ := h
  -- All operands on the left are of a rank that the operator allows.
  obtain ⟨hmost, hloose⟩ := hfollows op rank hop
  -- Behind an open `not` only `and` and `or` go on, so comparisons and tighter have closed operands.
  have hleft : comparison ≤ rank → loose' = false := by
    intro hle
    cases loose' with
    | false => rfl
    | true => exact absurd (hloose rfl) (Nat.not_lt.2 hle)
  refine ⟨rank, loose, hrank, fun m hm => ?_, fun op' rank' hop' => ⟨?_, (hhalts op' rank' hop').2⟩⟩
  -- With its two operands, the operator makes an expression of its rank.
  · exact .operator hop hm (hl _ hmost) hleft hr
  · -- The operator behind the right operand binds no tighter; only a comparison asks for more.
    have hlt := (hhalts op' rank' hop').1
    unfold leftRank
    split
    case isTrue hc =>
      have hne : rank ≠ comparison := by
        intro heq
        have hno := hchain heq
        rw [isComparison, hop'] at hno
        exact absurd hc (of_decide_eq_false hno)
      omega
    case isFalse => omega

/-- The operators behind a left operand. -/
theorem ExprsRead.binaryRest_succ {n : Nat} (ih : ExprsRead n) (pre : List Word → Prop) (least : Nat)
    (left : Expr) : Reads
    (fun ws => 12 * ws.length + 1 ≤ n + 1 ∧ ∃ ls, pre (ls ++ ws) ∧ Leads least left ls ws)
    (Parser.binaryRest (n + 1) least left)
    (Behind pre fun e us rest => ∃ loose, Joined least loose e us ∧ Halts least loose rest) := by
  unfold Parser.binaryRest
  refine Reads.peekKind.bind fun k => ?_
  split
  case h_1 hop =>
    -- No operator is ahead: the left operand is all.
    refine Reads.pure ?_
    rintro ws ⟨⟨_, ls, hpre, most, loose, hmost, hjoined, _⟩, _, rfl⟩
    refine ⟨ls, hpre, loose, hjoined least hmost, fun op rank hop' => ?_⟩
    rw [hop] at hop'
    exact nomatch hop'
  case h_2 op rank hop =>
    split
    case isTrue hlt =>
      -- The operator ahead is too loose and is left to a caller.
      refine Reads.pure ?_
      rintro ws ⟨⟨_, ls, hpre, most, loose, hmost, hjoined, hfollows⟩, _, rfl⟩
      refine ⟨ls, hpre, loose, hjoined least hmost, fun op' rank' hop' => ?_⟩
      obtain ⟨rfl, rfl⟩ := Prod.mk.inj (Option.some.inj (hop.symm.trans hop'))
      exact ⟨hlt, (hfollows op rank hop).2⟩
    case isFalse hge =>
      -- The operator is consumed, and its right operand is read with a higher rank.
      refine (Reads.advance ?_).bind fun t => (ih.binary (rank + 1) ?_).bind fun right => ?_
      · rintro ws ⟨_, _, rfl⟩ heof
        rw [heof] at hop
        exact nomatch hop
      · rintro ws ⟨⟨hfuel, _⟩, _⟩
        rw [List.length_cons] at hfuel
        omega
      · -- What is known once the chain check is passed.
        have hgo : Reads (fun ws => Behind (fun us => (12 * (t.word :: us).length + 1 ≤ n + 1 ∧
            ∃ ls, pre (ls ++ t.word :: us) ∧ Leads least left ls (t.word :: us))
              ∧ k ≠ .invalid ∧ k = headKind (t.word :: us))
            (fun e us rest => ∃ loose, Joined (rank + 1) loose e us ∧ Halts (rank + 1) loose rest) right ws
            ∧ (rank = comparison → isComparison (headKind ws) = false))
            (Parser.binaryRest n least (.infixOp op left right))
            (Behind pre fun e us rest => ∃ loose, Joined least loose e us ∧ Halts least loose rest) := by
          refine (ih.binaryRest pre least _).front ?_
          rintro ws ⟨⟨rs, ⟨⟨hfuel, ls, hpre, hleads⟩, _, hk⟩, loose, hr, hhalts⟩, hchain⟩
          rw [List.length_cons, List.length_append] at hfuel
          refine ⟨by omega, ls ++ t.word :: rs, ?_, ?_⟩
          · rwa [List.append_assoc, List.cons_append]
          · exact hleads.next (by rw [hk] at hop; exact hop) (Nat.not_lt.1 hge) hr hhalts hchain
        dsimp only
        split
        case isTrue hcmp =>
          refine Reads.peekKind.bind fun k' => ?_
          split
          case isTrue =>
            -- Comparisons in a row are reported.
            exact Reads.complain.stop fun _ => (Reads.failure fun _ h => h).stop fun _ =>
              hgo.front fun _ h => h.elim
          case isFalse hno =>
            refine hgo.front ?_
            rintro ws ⟨hpre, _, rfl⟩
            exact ⟨hpre, fun _ => Bool.eq_false_iff.2 hno⟩
        -- No comparison, so nothing more is asked of what is ahead.
        case isFalse hcmp => exact hgo.front fun ws hpre => ⟨hpre, fun h => absurd h hcmp⟩

/-- An operand, with or without `not` in front. -/
theorem ExprsRead.negation_succ {n : Nat} (ih : ExprsRead n) {pre : List Word → Prop}
    (hfits : Fits 5 (n + 1) pre) : Reads pre (Parser.negation (n + 1))
    (Behind pre fun e us rest => ∀ least, Leads least e us rest) := by
  unfold Parser.negation
  refine Reads.atKeyword.bind fun b => ?_
  split
  case isTrue hb =>
    refine (Reads.advanceKeyword fun ws h => h.2.1 hb).bind fun mark =>
      (ih.binary comparison ?_).bind fun x => Reads.pure ?_
    -- One step and the word `not` less.
    · exact hfits.step.next.when.weaken (by decide)
    · -- What is behind `not` is joined at any rank, but stays open for looser operators only.
      rintro ws ⟨us, ⟨hpre, _⟩, loose, hx, hhalts⟩
      refine ⟨_, hpre, fun least => ⟨max least 10, true, Nat.le_max_left .., fun m _ => .not hx, ?_⟩⟩
      intro op rank hop
      exact ⟨Nat.le_trans (leftRank_le (rank_le hop).2) (Nat.le_max_right ..),
        fun _ => (hhalts op rank hop).1⟩
  case isFalse =>
    refine (ih.unary ?_).behind ?_
    · exact hfits.step.when
    · -- An operand without `not` may stand to the left of every operator.
      rintro e rest ⟨us, ⟨hpre, _⟩, he⟩
      refine ⟨us, hpre, fun least => ⟨max least 10, false, Nat.le_max_left .., fun m _ => .operand he, ?_⟩⟩
      intro op rank hop
      exact ⟨Nat.le_trans (leftRank_le (rank_le hop).2) (Nat.le_max_right ..), by simp⟩

/-- The prefixes. -/
theorem ExprsRead.unary_succ {n : Nat} (ih : ExprsRead n) {pre : List Word → Prop}
    (hfits : Fits 4 (n + 1) pre) :
    Reads pre (Parser.unary (n + 1)) (Behind pre fun e us _ => Signed e us) := by
  unfold Parser.unary
  refine Reads.peekKind.bind fun k => ?_
  split
  case h_1 op hop =>
    -- Only symbols are prefixes.
    obtain ⟨s, rfl⟩ : ∃ s, k = .symbol s := by
      unfold prefixOf? at hop
      split at hop
      · exact ⟨_, rfl⟩
      · exact ⟨_, rfl⟩
      · exact nomatch hop
    -- The sign is consumed, and its operand is read.
    refine (Reads.advanceSymbol fun ws h => h.2.2.symm).bind fun mark =>
      (ih.unary ?_).bind fun x => Reads.pure ?_
    · exact hfits.step.next.when.weaken (by decide)
    · rintro ws ⟨us, ⟨hpre, _⟩, hx⟩
      exact ⟨_, hpre, .sign hop hx⟩
  -- Without a sign, it is a power.
  case h_2 =>
    refine (ih.power ?_).behind ?_
    · exact hfits.step.when
    · rintro e rest ⟨us, ⟨hpre, _⟩, he⟩
      exact ⟨us, hpre, he⟩

/-- Powers. -/
theorem ExprsRead.power_succ {n : Nat} (ih : ExprsRead n) {pre : List Word → Prop}
    (hfits : Fits 3 (n + 1) pre) :
    Reads pre (Parser.power (n + 1)) (Behind pre fun e us _ => Signed e us) := by
  unfold Parser.power
  refine (ih.primary ?_).bind fun head => ((ih.members pre head).front ?_).bind fun base => ?_
  · exact hfits.step
  -- Behind the primary expression, there are steps enough for its members.
  · intro ws hread
    have hsteps : 12 * ws.length + 1 ≤ n := hfits.step.behind.weaken (by decide) ws hread
    obtain ⟨us, hpre, he⟩ := hread
    exact ⟨hsteps, us, hpre, .primary he⟩
  refine Reads.atSymbol.bind fun b => ?_
  split
  -- The operand behind the power may have a sign.
  case isTrue hb =>
    refine (Reads.advanceSymbol fun ws h => h.2.1 hb).bind fun mark =>
      (ih.unary ?_).bind fun x => Reads.pure ?_
    · exact hfits.step.behind.next.when.weaken (by decide)
    · rintro ws ⟨xs, ⟨⟨us, hpre, hbase⟩, _⟩, hx⟩
      refine ⟨us ++ .symbol .starStar :: xs, ?_, .power hbase hx⟩
      rwa [List.append_assoc, List.cons_append]
  case isFalse =>
    refine Reads.pure ?_
    rintro ws ⟨⟨us, hpre, hbase⟩, _⟩
    exact ⟨us, hpre, .accessed hbase⟩

/-- Member accesses. -/
theorem ExprsRead.members_succ {n : Nat} (ih : ExprsRead n) (pre : List Word → Prop) (base : Expr) : Reads
    (fun ws => 12 * ws.length + 1 ≤ n + 1 ∧ ∃ ls, pre (ls ++ ws) ∧ Accessed base ls)
    (Parser.members (n + 1) base) (Behind pre fun e us _ => Accessed e us) := by
  unfold Parser.members
  refine Reads.peekKind.bind fun k => ?_
  split
  -- No member is ahead.
  case h_1 =>
    refine Reads.pure ?_
    rintro ws ⟨⟨_, ls, hpre, hbase⟩, _⟩
    exact ⟨ls, hpre, hbase⟩
  case h_2 a ha =>
    -- Only symbols are accesses.
    obtain ⟨s, rfl⟩ : ∃ s, k = .symbol s := by
      unfold accessOf? at ha
      split at ha
      · exact ⟨_, rfl⟩
      · exact ⟨_, rfl⟩
      · exact ⟨_, rfl⟩
      · exact nomatch ha
    refine (Reads.advanceSymbol fun ws h => h.2.2.symm).bind fun mark => Reads.expectName.bind fun m =>
      (ih.members pre _).front ?_
    -- One more access: its two words are joined to those in front.
    rintro ws ⟨⟨hfuel, ls, hpre, hbase⟩, _⟩
    rw [List.length_cons, List.length_cons] at hfuel
    refine ⟨by omega, ls ++ [Word.symbol s, Word.name m.text], ?_, .member hbase ha⟩
    rwa [List.append_assoc]

/-- The arguments of a call. -/
theorem ExprsRead.callRest_succ {n : Nat} (ih : ExprsRead n) {pre : List Word → Prop} (callee : Token)
    (hfits : Fits 1 (n + 1) pre) (hopen : ∀ ws, pre ws → headKind ws = .symbol .lParen) :
    Reads pre (Parser.callRest (n + 1) callee) (Behind pre fun e us _ => ∃ i args ws,
      e = .call i callee.text callee.span args .unresolved ∧ Arguments args ws
        ∧ us = .symbol .lParen :: (ws ++ [.symbol .rParen])) := by
  unfold Parser.callRest
  refine (Reads.advanceSymbol hopen).bind fun _ => (ih.arguments [] ?_).bind fun args =>
    Reads.expectSymbol.bind fun closing => Reads.pure ?_
  · exact hfits.step.next.weaken (by decide)
  · rintro ws ⟨us, hpre, tail, rfl, hargs⟩
    refine ⟨_, ?_, _, _, us, rfl, hargs, rfl⟩
    rwa [List.cons_append, List.append_assoc]

/-- One more argument, or the end. -/
theorem ExprsRead.arguments_succ {n : Nat} (ih : ExprsRead n) {pre : List Word → Prop} (done : List Expr)
    (hfits : Fits 7 (n + 1) pre) : Reads pre (Parser.arguments (n + 1) done)
    (Behind pre fun es us _ => ∃ tail, es = done.reverse ++ tail ∧ Arguments tail us) := by
  unfold Parser.arguments
  refine Reads.peekKind.bind fun k => ?_
  split
  case isTrue =>
    -- The list ends, be it behind a comma.
    refine Reads.pure ?_
    rintro ws ⟨hpre, _⟩
    exact ⟨[], hpre, [], (List.append_nil _).symm, .none⟩
  case isFalse =>
    refine (ih.binary 1 ?_).bind fun arg => Reads.atSymbol.bind fun b => ?_
    · exact hfits.step.when
    split
    -- A comma, and the arguments behind it.
    case isTrue hb =>
      refine (Reads.advanceSymbol fun ws h => h.2.1 hb).bind fun _ => (ih.arguments _ ?_).behind ?_
      · exact hfits.step.when.behind.next.when.weaken (by decide)
      · rintro es rest ⟨vs, ⟨⟨us, ⟨hpre, _⟩, loose, harg, _⟩, _⟩, tail, rfl, htail⟩
        refine ⟨us ++ .symbol .comma :: vs, ?_, arg :: tail, ?_, .more harg htail⟩
        · rwa [List.append_assoc, List.cons_append]
        · exact reverse_cons_append ..
    case isFalse =>
      refine Reads.atSymbol.bind fun b => ?_
      split
      -- The last argument, in front of the closing parenthesis.
      case isTrue =>
        refine Reads.pure ?_
        rintro ws ⟨⟨⟨us, ⟨hpre, _⟩, loose, harg, _⟩, _⟩, _⟩
        exact ⟨us, hpre, [arg], List.reverse_cons, .last harg⟩
      case isFalse => exact Reads.reject

/-- An expression in brackets that may be absent. -/
theorem ExprsRead.bracketed_succ {n : Nat} (ih : ExprsRead n) {pre : List Word → Prop}
    (hfits : Fits 1 (n + 1) pre) :
    Reads pre (Parser.bracketed (n + 1)) (Behind pre fun e us _ => Bracketed e us) := by
  unfold Parser.bracketed
  refine Reads.expectSymbol.bind fun _ => Reads.atSymbol.bind fun b => ?_
  split
  -- The brackets are empty.
  case isTrue hb =>
    refine (Reads.advanceSymbol fun ws h => h.2.1 hb).bind fun _ => Reads.pure ?_
    rintro ws ⟨hpre, _⟩
    exact ⟨_, hpre, .none⟩
  case isFalse =>
    -- An expression with its two brackets.
    refine (ih.binary 1 ?_).bind fun inner => Reads.expectSymbol.bind fun _ => Reads.pure ?_
    · exact hfits.step.next.when.weaken (by decide)
    · rintro ws ⟨us, ⟨hpre, _⟩, loose, he, _⟩
      refine ⟨_, ?_, .some he⟩
      rwa [List.cons_append, List.append_assoc]

/-- A query. -/
theorem ExprsRead.query_succ {n : Nat} (ih : ExprsRead n) {pre : List Word → Prop}
    (hfits : Fits 1 (n + 1) pre) (hopen : ∀ ws, pre ws → headKind ws = .keyword .queryKw) :
    Reads pre (Parser.query (n + 1)) (Behind pre fun e us _ => Primary e us) := by
  unfold Parser.query
  refine (Reads.advanceKeyword hopen).bind fun mark => Reads.expectName.bind fun kind =>
    (ih.bracketed ?_).bind fun unit => Reads.expectName.bind fun op =>
    (ih.bracketed ?_).bind fun operand => (Reads.expect (k := .keyword .whereKw) (by simp)).bind fun w =>
    (ih.bracketed ?_).bind fun condition => Reads.lastSpan.bind fun last => Reads.pure ?_
  -- For each of the brackets, steps enough are left.
  · exact hfits.step.next.next.weaken (by decide)
  · exact hfits.step.next.next.behind.next.weaken (by decide)
  · exact hfits.step.next.next.behind.next.behind.next.when.weaken (by decide)
  -- All the words of the query, in order.
  · rintro ws ⟨cs, ⟨⟨xs, ⟨us, hpre, hu⟩, hx⟩, hw⟩, hc⟩
    refine ⟨_, ?_, .query hu hx hc⟩
    rw [Token.word_keyword hw] at hpre
    simpa only [List.cons_append, List.append_assoc] using hpre

/-- A primary expression. -/
theorem ExprsRead.primary_succ {n : Nat} (ih : ExprsRead n) {pre : List Word → Prop}
    (hfits : Fits 2 (n + 1) pre) :
    Reads pre (Parser.primary (n + 1)) (Behind pre fun e us _ => Primary e us) := by
  unfold Parser.primary
  refine Reads.peek.bind fun t => ?_
  split
  -- A number.
  case h_1 hk =>
    refine (Reads.advanceSeen (hk ▸ (by simp))).bind fun _ => ?_
    split
    case h_1 v hv =>
      refine Reads.pure fun ws hpre => ?_
      rw [Token.word_int hk] at hpre
      exact ⟨_, hpre, .int hv⟩
    -- A number that does not fit is reported.
    case h_2 => exact Reads.report.stop fun _ => Reads.failure fun _ h => h
  -- A fraction; one that cannot be read is reported.
  case h_2 hk =>
    refine (Reads.advanceSeen (hk ▸ (by simp))).bind fun _ => ?_
    split
    case h_1 v hv =>
      refine Reads.pure fun ws hpre => ?_
      rw [Token.word_float hk] at hpre
      exact ⟨_, hpre, .float hv⟩
    case h_2 => exact Reads.report.stop fun _ => Reads.failure fun _ h => h
  -- A text.
  case h_3 hk =>
    refine (Reads.advanceSeen (hk ▸ (by simp))).bind fun _ => Reads.pure fun ws hpre => ?_
    rw [Token.word_string hk] at hpre
    exact ⟨_, hpre, .string⟩
  case h_4 hk =>
    refine (Reads.advanceSeen (hk ▸ (by simp))).bind fun _ => Reads.atSymbol.bind fun b => ?_
    rw [Token.word_ident hk]
    split
    -- A call, whose arguments are in parentheses.
    case isTrue hb =>
      refine (ih.callRest t ?_ fun ws h => h.2.1 hb).behind ?_
      · exact hfits.step.next.when.weaken (by decide)
      · rintro e rest ⟨us, ⟨hpre, _⟩, i, args, ws, rfl, hargs, rfl⟩
        exact ⟨_, hpre, .call hargs⟩
    -- A name alone.
    case isFalse =>
      refine Reads.pure ?_
      rintro ws ⟨hpre, _⟩
      exact ⟨_, hpre, .name⟩
  case h_5 hk =>
    -- Parentheses leave nothing in the tree.
    refine (Reads.advanceSeen (hk ▸ (by simp))).bind fun _ => (ih.binary 1 ?_).bind fun inner =>
      Reads.expectSymbol.bind fun _ => Reads.pure ?_
    · exact hfits.step.next.weaken (by decide)
    · rintro ws ⟨us, hpre, loose, he, _⟩
      rw [Token.word_symbol hk] at hpre
      refine ⟨_, ?_, .parens he⟩
      rwa [List.cons_append, List.append_assoc]
  -- A query.
  case h_6 hk =>
    refine (ih.query ?_ ?_).behind ?_
    · exact hfits.step.when
    · rintro ws ⟨_, _, us, rfl⟩
      exact t.kind_word.trans hk
    · rintro e rest ⟨us, ⟨hpre, _⟩, he⟩
      exact ⟨us, hpre, he⟩
  case h_7 hk =>
    -- An invalid token is reported by the lexer.
    have hnone : ∀ ws, ¬(pre ws ∧ t.kind ≠ .invalid ∧ ∃ us, ws = t.word :: us) := fun _ h => h.2.1 hk
    exact ((Reads.advance fun ws h => absurd h (hnone ws)).behind fun _ ws h => hnone _ h).stop
      fun _ => Reads.failure fun _ h => h
  -- Anything else is rejected.
  case h_8 => exact Reads.reject

/-- An operand and the operators behind it. -/
private theorem ExprsRead.binary_succ {n : Nat} (ih : ExprsRead n) {pre : List Word → Prop} (least : Nat)
    (hfits : Fits 6 (n + 1) pre) : Reads pre (Parser.binary (n + 1) least)
    (Behind pre fun e us rest => ∃ loose, Joined least loose e us ∧ Halts least loose rest) := by
  unfold Parser.binary
  refine (ih.negation ?_).bind fun left => (ih.binaryRest pre least left).front ?_
  · exact hfits.step
  · intro ws hread
    have hsteps : 12 * ws.length + 1 ≤ n := hfits.step.behind.weaken (by decide) ws hread
    obtain ⟨us, hpre, hleads⟩ := hread
    exact ⟨hsteps, us, hpre, hleads least⟩

/-- Every number of steps reads expressions. -/
theorem exprsRead (n : Nat) : ExprsRead n := by
  induction n with
  | zero =>
    -- The steps are never used up, as `pre` leaves some for every word.
    refine ⟨fun _ h => ?_, fun _ _ _ => ?_, fun h => ?_, fun h => ?_, fun h => ?_, fun _ _ => ?_,
      fun h => ?_, fun _ h _ => ?_, fun _ h => ?_, fun h _ => ?_, fun h => ?_⟩
    all_goals first
      | exact Reads.failure h.not_zero
      | exact Reads.failure fun ws hws => absurd hws.1 (by omega)
  | succ n ih =>
    exact ⟨ih.binary_succ, ih.binaryRest_succ, ih.negation_succ, ih.unary_succ, ih.power_succ,
      ih.members_succ, ih.primary_succ, ih.callRest_succ, ih.arguments_succ, ih.query_succ,
      ih.bracketed_succ⟩

/-- An expression is read. -/
theorem reads_expr {n : Nat} {pre : List Word → Prop} (hfits : Fits 6 n pre) :
    Reads pre (expr n) (Behind pre fun e us _ => Expression e us) :=
  ((exprsRead n).binary 1 hfits).behind fun _ _ ⟨us, hpre, loose, he, _⟩ => ⟨us, hpre, loose, he⟩

end AisScript.Parser
