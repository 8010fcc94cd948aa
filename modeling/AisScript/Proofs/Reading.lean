import AisScript.Proofs.Grammar
import AisScript.Proofs.ParserShape
import AisScript.Proofs.Lexing

/-!
# Reading without reports

A run of the parser in which nothing is reported is determined by the words ahead.  `Reads pre p post`
says what such runs of `p` do, from the words ahead in front of it to its result and the words behind:
started where `pre` holds they succeed, and `post` holds behind them.  Reports are never taken back, so a
run without reports has only parts without reports; this is the other half of `Reads`, and it makes the
rule for two steps in a row go through.

* `ParseState.Ready`   states in which nothing was reported
* `Reads`              what runs without reports do
* `Reads.bind`         two steps in a row
* `Reads.peek`, `Reads.advance`, `Reads.expect`   the steps that all others are made of
-/

namespace AisScript

/-! ## States -/

namespace ParseState

/-- The words that are not consumed yet. -/
def words (s : ParseState) : List Word := s.ahead.map fun l => l.token.word

/-- Nothing was reported yet, tokens ahead that are invalid will be, and the last word is the only end
mark. -/
structure Ready (s : ParseState) : Prop where
  errors : s.errors = 0
  reports : s.reports = []
  seen : s.seen = true → ∀ l ls, s.ahead = l :: ls → l.reports = []
  honest : ∀ l ∈ s.ahead, l.token.kind = .invalid → l.reports ≠ []
  ends : ∃ ws, s.words = ws ++ [.eof] ∧ .eof ∉ ws

/-- There is always a word ahead. -/
private theorem Ready.ahead_eq {s : ParseState} (h : s.Ready) : ∃ l ls, s.ahead = l :: ls := by
  obtain ⟨ws, hws, _⟩ := h.ends
  cases hs : s.ahead with
  | nil =>
    -- The end mark is among the words that are not consumed.
    rw [words, hs] at hws
    exact absurd hws.symm (List.append_ne_nil_of_right_ne_nil _ nofun)
  | cons l ls => exact ⟨l, ls, rfl⟩

end ParseState

/-- Words that end with the only end mark are over in front of it. -/
theorem ParseState.Ready.words_eq {s : ParseState} (h : s.Ready) (heof : headKind s.words = .eof) :
    s.words = [.eof] := by
  obtain ⟨ws, hws, hnot⟩ := h.ends
  cases ws with
  | nil => exact hws
  | cons w ws =>
    rw [hws] at heof
    have hw : w = .eof := by
      cases w with
      | eof => rfl
      | _ => exact nomatch heof
    exact absurd (hw ▸ List.mem_cons_self) hnot

namespace Parser

open ParseState

variable {α β : Type}

/-! ## Runs without reports -/

/-- What runs of a step without reports do: nothing was reported in front of them either, and where the
words ahead satisfy `pre`, they succeed with a result and words that satisfy `post`. -/
structure Reads (pre : List Word → Prop) (p : Parser α) (post : α → List Word → Prop) : Prop where
  steady : ∀ s, (p.run s).2.reports = [] → s.reports = []
  reads : ∀ s, s.Ready → pre s.words → (p.run s).2.reports = [] →
    ∃ a, (p.run s).1 = some a ∧ (p.run s).2.Ready ∧ post a (p.run s).2.words

namespace Reads

variable {pre pre' : List Word → Prop} {p : Parser α} {f : α → Parser β}
  {post post' : α → List Word → Prop}

/-- Two steps in a row. -/
theorem bind {mid : α → List Word → Prop} {post : β → List Word → Prop} (hp : Reads pre p mid)
    (hf : ∀ a, Reads (mid a) (f a) post) : Reads pre (p >>= f) post := by
  refine ⟨fun s hclean => ?_, fun s hs hpre hclean => ?_⟩
  -- Steadiness: a clean end has a clean start.
  · rw [run_bind] at hclean
    have hsteady := hp.steady s
    cases hr : p.run s with
    | mk r s₁ =>
      rw [hr] at hclean hsteady
      cases r with
      | none => exact hsteady hclean
      -- The second step is steady, so it started without reports, and then so did the first.
      | some a => exact hsteady ((hf a).steady s₁ hclean)
  -- Reading: a clean run has the words that both steps read.
  · have hreads := hp.reads s hs hpre
    rw [run_bind] at hclean ⊢
    cases hr : p.run s with
    | mk r s₁ =>
      rw [hr] at hclean hreads
      cases r with
      | none =>
        -- A run that stops at the first step has no reports but those of the first step.
        obtain ⟨_, hnone, _⟩ := hreads hclean
        exact nomatch hnone
      | some a =>
        -- Nothing was reported behind the first step, because nothing was behind the second.
        obtain ⟨a', ha', hs₁, hmid⟩ := hreads ((hf a).steady s₁ hclean)
        cases ha'
        exact (hf a).reads s₁ hs₁ hmid hclean

/-- Behind a step that reports or fails nothing is reached. -/
theorem stop {post : β → List Word → Prop} (hp : Reads pre p fun _ _ => False)
    (hf : ∀ a, Reads (fun _ => False) (f a) post) : Reads pre (p >>= f) post :=
  hp.bind hf

/-- More in front. -/
theorem front (h : Reads pre p post) (hpre : ∀ ws, pre' ws → pre ws) : Reads pre' p post :=
  ⟨h.steady, fun s hs hs' hclean => h.reads s hs (hpre _ hs') hclean⟩

/-- Less behind. -/
theorem behind (h : Reads pre p post) (hpost : ∀ a ws, post a ws → post' a ws) : Reads pre p post' := by
  refine ⟨h.steady, fun s hs hs' hclean => ?_⟩
  obtain ⟨a, ha, hready, hws⟩ := h.reads s hs hs' hclean
  exact ⟨a, ha, hready, hpost a _ hws⟩

/-- A step that does nothing. -/
theorem pure {a : α} (h : ∀ ws, pre ws → post a ws) : Reads pre (Pure.pure a) post :=
  ⟨fun _ hs => hs, fun s hs hpre _ => ⟨a, rfl, hs, h s.words hpre⟩⟩

/-- A step that fails without a report must not be reached. -/
theorem failure (h : ∀ ws, ¬pre ws) : Reads pre (Alternative.failure : Parser α) post :=
  ⟨fun _ hs => hs, fun s _ hpre _ => absurd hpre (h s.words)⟩

/-- What holds behind an attempt of a step that must succeed. -/
def Succeeds (post : α → List Word → Prop) : Option α → List Word → Prop
  | some a, ws => post a ws
  | none, _ => False

/-- An attempt of a step. -/
theorem attempt (h : Reads pre p post) : Reads pre (Parser.attempt p) (Succeeds post) := by
  refine ⟨h.steady, fun s hs hpre hclean => ?_⟩
  obtain ⟨a, ha, hready, hpost⟩ := h.reads s hs hpre hclean
  refine ⟨some a, ?_, hready, hpost⟩
  change some (p.run s).1 = _
  rw [ha]

/-- A result that is changed. -/
theorem map {g : α → β} {post' : β → List Word → Prop} (h : Reads pre p post)
    (hg : ∀ a ws, post a ws → post' (g a) ws) : Reads pre (g <$> p) post' := by
  rw [map_eq_pure_bind]
  exact h.bind fun a => Reads.pure (hg a)

end Reads

/-- What was read so far is kept in reverse. -/
theorem reverse_cons_append (a : α) (done tail : List α) :
    (a :: done).reverse ++ tail = done.reverse ++ a :: tail := by
  rw [List.reverse_cons, List.append_assoc, List.singleton_append]

/-! ## The steps all others are made of -/

namespace Reads

variable {pre : List Word → Prop} {post : α → List Word → Prop}

/-- The word ahead is looked at; no invalid one goes without a report. -/
theorem peek : Reads pre Parser.peek fun t ws =>
    pre ws ∧ t.kind ≠ .invalid ∧ ∃ us, ws = t.word :: us := by
  refine ⟨fun s hclean => ?_, fun s hs hpre hclean => ?_⟩
  · -- Looking at a token adds what the lexer had to say about it, once.
    obtain ⟨ahead, seen, last, errors, maxErrors, reports⟩ := s
    cases ahead with
    | nil => exact hclean
    | cons l ls =>
      cases seen with
      | true => exact hclean
      | false => exact (List.append_eq_nil_iff.1 hclean).2
  · obtain ⟨l, ls, hahead⟩ := hs.ahead_eq
    obtain ⟨herrors, hreports, hseen, hhonest, hends⟩ := hs
    obtain ⟨ahead, seen, last, errors, maxErrors, reports⟩ := s
    cases hahead
    -- What the lexer had to say is reported now, or was when the token was looked at first.
    have hquiet : l.reports = [] := by
      cases seen with
      | true => exact hseen rfl l ls rfl
      | false => exact List.reverse_eq_nil_iff.1 (List.append_eq_nil_iff.1 hclean).1
    have hvalid : l.token.kind ≠ .invalid := fun hk => hhonest l List.mem_cons_self hk hquiet
    refine ⟨l.token, ?_, ⟨?_, hclean, ?_, ?_, ?_⟩, ?_, hvalid, ls.map fun l => l.token.word, ?_⟩
    all_goals cases seen
    all_goals first
      | rfl
      | exact herrors
      | exact hhonest
      | exact hends
      | exact hpre
      | exact fun _ l' ls' heq => by cases heq; exact hquiet

/-- The kind of the word ahead is looked at. -/
theorem peekKind : Reads pre Parser.peekKind fun k ws => pre ws ∧ k ≠ .invalid ∧ k = headKind ws := by
  refine peek.bind fun t => Reads.pure ?_
  rintro ws ⟨hpre, hvalid, us, rfl⟩
  exact ⟨hpre, hvalid, t.kind_word.symm⟩

/-- Whether the word ahead has a kind. -/
theorem atKind (k : Token.Kind) :
    Reads pre (Parser.atKind k) fun b ws => pre ws ∧ (b = true ↔ headKind ws = k) := by
  refine peekKind.bind fun k' => Reads.pure ?_
  rintro ws ⟨hpre, _, rfl⟩
  exact ⟨hpre, beq_iff_eq⟩

/-- The word ahead is consumed. -/
theorem advance (h : ∀ ws, pre ws → headKind ws ≠ .eof) :
    Reads pre Parser.advance fun t ws => pre (t.word :: ws) := by
  have hsteps : Reads (fun ws => pre ws ∧ headKind ws ≠ .eof) Parser.advance
      fun t ws => pre (t.word :: ws) := by
    refine peek.bind fun t => ?_
    split
    case isTrue heof =>
      -- The end mark is never consumed, so what holds of the words ahead excludes it.
      refine Reads.pure ?_
      rintro ws ⟨⟨_, hne⟩, _, us, rfl⟩
      have hhead : headKind (t.word :: us) = .eof := t.kind_word.trans heof
      exact absurd hhead hne
    case isFalse hmore =>
      -- Only the token ahead changes: one lexeme is dropped and none of the rest was looked at.
      refine ⟨fun s hclean => hclean, ?_⟩
      rintro s hs ⟨⟨hpre, _⟩, _, us, hws⟩ hclean
      obtain ⟨l, ls, hahead⟩ := hs.ahead_eq
      obtain ⟨herrors, hreports, hseen, hhonest, hends⟩ := hs
      obtain ⟨ahead, seen, last, errors, maxErrors, reports⟩ := s
      cases hahead
      obtain ⟨hword, rfl⟩ := List.cons.inj hws
      have hword : l.token.word = t.word := hword
      have hne : t.word ≠ .eof := by
        intro heq
        have hkind : t.word.kind = .eof := by rw [heq]; rfl
        exact hmore (t.kind_word.symm.trans hkind)
      refine ⟨t, rfl, ⟨herrors, hreports, (fun h => nomatch h), ?_, ?_⟩, ?_⟩
      · exact fun l' hl' => hhonest l' (List.mem_cons_of_mem l hl')
      · -- The end mark is still the last word, since the word that goes is another.
        obtain ⟨ws, hends, hmem⟩ := hends
        cases ws with
        | nil =>
          have hhead := (List.cons.inj hends).1
          exact absurd (hword.symm.trans hhead) hne
        | cons w ws =>
          obtain ⟨_, htail⟩ := List.cons.inj hends
          exact ⟨ws, htail, fun hm => hmem (List.mem_cons_of_mem w hm)⟩
      · simp only [ParseState.words, List.map_cons, hword] at hpre
        exact hpre
  exact hsteps.front fun ws hpre => ⟨hpre, h ws hpre⟩

/-- The token that was looked at is the one that is consumed. -/
theorem advanceSeen {t : Token} (hne : t.kind ≠ .eof) :
    Reads (fun ws => pre ws ∧ t.kind ≠ .invalid ∧ ∃ us, ws = t.word :: us) Parser.advance
      fun _ ws => pre (t.word :: ws) := by
  refine (advance ?_).behind ?_
  · rintro ws ⟨_, _, us, rfl⟩ heof
    exact hne (t.kind_word.symm.trans heof)
  · rintro t' ws ⟨hpre, _, us, hws⟩
    rwa [(List.cons.inj hws).1] at hpre

/-- The place of the last token says nothing. -/
theorem lastSpan : Reads pre Parser.lastSpan fun _ ws => pre ws :=
  ⟨fun _ hclean => hclean, fun s hs hpre _ => ⟨s.last, rfl, hs, hpre⟩⟩

/-- A report is a report. -/
theorem report {code : Code} {span : Span} {message : Text} {notes : List Note}
    {post : Unit → List Word → Prop} : Reads pre (Parser.report code span message notes) post := by
  refine ⟨fun s hclean => ?_, fun s hs _ hclean => ?_⟩
  · -- With a limit on errors a report may be left out, but none that stands is taken back.
    have hstate : ((Parser.report code span message notes).run s).2.reports
        = if s.maxErrors ≠ 0 ∧ s.maxErrors ≤ s.errors then s.reports
          else { code, span, message, notes } :: s.reports := by
      change (if s.maxErrors ≠ 0 ∧ s.maxErrors ≤ s.errors then _ else _ : ParseState).reports = _
      split <;> rfl
    rw [hstate] at hclean
    split at hclean
    · exact hclean
    · exact nomatch hclean
  · -- The first error is within every limit.
    have hlimit : ¬(s.maxErrors ≠ 0 ∧ s.maxErrors ≤ s.errors) := by
      rw [hs.errors]
      omega
    have hstate : ((Parser.report code span message notes).run s).2.reports
        = { code, span, message, notes } :: s.reports := by
      change (if s.maxErrors ≠ 0 ∧ s.maxErrors ≤ s.errors then _ else _ : ParseState).reports = _
      rw [if_neg hlimit]
    rw [hstate] at hclean
    exact nomatch hclean

/-- Where a problem with the word ahead is says nothing. -/
theorem problemSpan : Reads pre Parser.problemSpan fun _ ws => pre ws := by
  refine peek.bind fun t => lastSpan.bind fun last => ?_
  split <;> exact Reads.pure fun _ h => h.1

/-- A complaint is a report. -/
theorem complain {code : Code} {message : Text} {post : Unit → List Word → Prop} :
    Reads pre (Parser.complain code message) post :=
  problemSpan.bind fun _ => report

/-- Behind a report nothing is reached, so a step has only to be steady there. -/
theorem reject {code : Code} {message : Text} : Reads pre (Parser.reject code message : Parser α) post :=
  complain.stop fun _ => Reads.failure fun _ h => h

/-- A token of a kind is consumed. -/
theorem expect {k : Token.Kind} {code : Code} {message : Text} (hk : k ≠ .eof) :
    Reads pre (Parser.expect k code message) fun t ws => pre (t.word :: ws) ∧ t.kind = k := by
  refine (atKind k).bind fun b => ?_
  split
  case isTrue hb =>
    have hhead : ∀ ws, (pre ws ∧ (b = true ↔ headKind ws = k)) → headKind ws = k := fun ws h => h.2.1 hb
    refine (advance fun ws h => hhead ws h ▸ hk).behind fun t ws h => ⟨h.1, ?_⟩
    exact t.kind_word.symm.trans (hhead _ h)
  case isFalse => exact reject

/-- A name is consumed. -/
theorem expectName {message : Text} :
    Reads pre (Parser.expectName message) fun t ws => pre (.name t.text :: ws) := by
  refine (expect (k := .ident) nofun).behind fun t ws h => ?_
  rw [← Token.word_ident h.2]
  exact h.1

/-- A symbol is consumed. -/
theorem expectSymbol {s : Symbol} {code : Code} {message : Text} :
    Reads pre (Parser.expectSymbol s code message) fun _ ws => pre (.symbol s :: ws) := by
  refine (expect (k := .symbol s) nofun).behind fun t ws h => ?_
  rw [← Token.word_symbol h.2]
  exact h.1

/-- Whether a keyword is ahead. -/
theorem atKeyword {k : Keyword} :
    Reads pre (Parser.atKeyword k) fun b ws => pre ws ∧ (b = true ↔ headKind ws = .keyword k) :=
  atKind _

/-- Whether a symbol is ahead. -/
theorem atSymbol {s : Symbol} :
    Reads pre (Parser.atSymbol s) fun b ws => pre ws ∧ (b = true ↔ headKind ws = .symbol s) :=
  atKind _

/-- A keyword that is known to be ahead is consumed. -/
theorem advanceKeyword {k : Keyword} (h : ∀ ws, pre ws → headKind ws = .keyword k) :
    Reads pre Parser.advance fun _ ws => pre (.keyword k :: ws) := by
  refine (advance fun ws hws => h ws hws ▸ nofun).behind fun t ws hws => ?_
  have hkind : t.kind = .keyword k := t.kind_word.symm.trans (h _ hws)
  rwa [Token.word_keyword hkind] at hws

/-- A symbol that is known to be ahead is consumed. -/
theorem advanceSymbol {s : Symbol} (h : ∀ ws, pre ws → headKind ws = .symbol s) :
    Reads pre Parser.advance fun _ ws => pre (.symbol s :: ws) := by
  refine (advance fun ws hws => h ws hws ▸ nofun).behind fun t ws hws => ?_
  have hkind : t.kind = .symbol s := t.kind_word.symm.trans (h _ hws)
  rwa [Token.word_symbol hkind] at hws

/-- A name that is known to be ahead is consumed. -/
theorem advanceName (h : ∀ ws, pre ws → headKind ws = .ident) :
    Reads pre Parser.advance fun t ws => pre (.name t.text :: ws) := by
  refine (advance fun ws hws => h ws hws ▸ nofun).behind fun t ws hws => ?_
  have hkind : t.kind = .ident := t.kind_word.symm.trans (h _ hws)
  rwa [Token.word_ident hkind] at hws

/-- The `end` of a construct is consumed. -/
theorem expectEnd {what : Text} {opened : Span} :
    Reads pre (Parser.expectEnd what opened) fun _ ws => pre (.keyword .endKw :: ws) := by
  refine atKeyword.bind fun b => ?_
  split
  case isTrue hb =>
    exact (advanceKeyword fun ws h => h.2.1 hb).bind fun _ => Reads.pure fun ws h => h.1
  case isFalse =>
    exact problemSpan.bind fun _ => report.stop fun _ => Reads.failure fun _ h => h

/-- The state is looked at. -/
theorem get : Reads pre (MonadState.get : Parser ParseState) fun _ ws => pre ws :=
  ⟨fun _ hclean => hclean, fun s hs hpre _ => ⟨s, rfl, hs, hpre⟩⟩

/-- Tokens are skipped only behind a report. -/
theorem skip {n : Nat} {post : Unit → List Word → Prop} :
    Reads (fun _ => False) (Parser.resync.skip n) post := by
  induction n with
  | zero => exact Reads.pure fun _ h => h.elim
  | succ n ih =>
    unfold Parser.resync.skip
    refine (peek.behind fun _ _ h => h.1).stop fun t => ?_
    split
    case h_5 =>
      split
      · exact Reads.pure fun _ h => h.elim
      · exact (advance fun _ h => h.elim).stop fun _ => ih
    all_goals exact Reads.pure fun _ h => h.elim

/-- So reading goes on at another place only behind one. -/
theorem resync {from_ : Span} {post : Unit → List Word → Prop} :
    Reads (fun _ => False) (Parser.resync from_) post := by
  have hskip : Reads (fun _ => False) (do
      let s ← MonadState.get
      Parser.resync.skip s.ahead.length) post := get.stop fun _ => skip
  unfold Parser.resync
  refine (peek.behind fun _ _ h => h.1).stop fun t => ?_
  dsimp only
  split
  · exact (advance fun _ h => h.elim).stop fun _ => hskip
  · exact hskip

end Reads

end Parser

end AisScript
