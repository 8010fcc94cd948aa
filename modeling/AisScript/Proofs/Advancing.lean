import AisScript.Proofs.Guarding
import AisScript.Proofs.Nesting
import AisScript.Proofs.ParserShape
import AisScript.Proofs.Tiling

/-!
# Advancing through a file

The lexemes of a file are *lined up*: each stands behind the one in front of it, and only the last is the end
mark.  From any of them the parser *consumes* some, and never the last.  As long as it has enough steps, the
guarded parser does what the parser does: the guard is never asked.

* `Lined`                lexemes behind an offset of a file, up to the end mark
* `Consumes`             what is consumed between two states
* `Parser.Room`          where the parser stands, with enough steps for what is ahead
* `Parser.Alike`         a guarded step that does what the step does
* `Parser.Alike.bind`    two such steps in a row
* `Parser.Alike.resync`  skipping past an error
-/

namespace AisScript

/-! ## Lexemes in a row -/

/-- Lexemes behind an offset of a file, one behind the other; the last of them, and no other, is the end
mark. -/
inductive Lined (file length : Nat) : Nat → List Lexeme → Prop where
  | last {lo : Nat} {l : Lexeme} (hkind : l.token.kind = .eof) : Lined file length lo [l]
  | cons {lo : Nat} {l : Lexeme} {ls : List Lexeme} (hkind : l.token.kind ≠ .eof)
      (hspan : l.token.span.Fills file lo length) (hrest : Lined file length l.token.span.stop ls) :
      Lined file length lo (l :: ls)

/-- Lexemes in order, with an end mark behind them. -/
theorem Lined.concat {file length lo : Nat} {l : Lexeme} (hend : l.token.kind = .eof) (ls : List Lexeme)
    (hkinds : ∀ x ∈ ls, x.token.kind ≠ .eof) (hspans : ∀ x ∈ ls, x.token.span.Fills file lo length)
    (hordered : ls.Pairwise fun x y => x.token.span.stop ≤ y.token.span.start) :
    Lined file length lo (ls ++ [l]) := by
  induction ls generalizing lo with
  | nil => exact .last hend
  | cons x ls ih =>
    obtain ⟨hkind, hkinds⟩ := List.forall_mem_cons.1 hkinds
    obtain ⟨hspan, hspans⟩ := List.forall_mem_cons.1 hspans
    obtain ⟨hbefore, hordered⟩ := List.pairwise_cons.1 hordered
    exact .cons hkind hspan (ih hkinds (fun y hy => ⟨(hspans y hy).file, hbefore y hy, (hspans y hy).pos,
      (hspans y hy).stop⟩) hordered)

/-- The lexemes of a file. -/
theorem lined_lexemes (file : Nat) (contents : Text) : Lined file contents.length 0 (lexemes file contents) := by
  obtain ⟨ls, hls, htiles⟩ := Tiling.lexemesFrom file contents (Nat.zero_le _)
  rw [List.drop_zero] at hls
  rw [lexemes, hls]
  refine .concat rfl ls htiles.kinds (fun l hl => ?_) htiles.ordered
  obtain ⟨hfile, hstart, hpos, hstop⟩ := htiles.spans l hl
  exact ⟨hfile, hstart, hpos, hstop⟩

/-- What is consumed from lexemes ahead and a place last consumed: some lexemes, none of which is the end
mark. -/
inductive Consumes : List Lexeme → Span → List Lexeme → Span → Prop where
  | refl {as : List Lexeme} {last : Span} : Consumes as last as last
  | step {l : Lexeme} {ls rest : List Lexeme} {last last' : Span} (hkind : l.token.kind ≠ .eof)
      (hrest : Consumes ls l.token.span rest last') : Consumes (l :: ls) last rest last'

namespace Consumes

variable {as bs cs : List Lexeme} {last last' last'' : Span}

/-- Consuming more. -/
theorem trans (h : Consumes as last bs last') (h' : Consumes bs last' cs last'') : Consumes as last cs last'' := by
  induction h with
  | refl => exact h'
  | step hkind _ ih => exact .step hkind (ih h')

/-- What was consumed stood in front of what is left. -/
theorem exists_append (h : Consumes as last bs last') : ∃ ls, as = ls ++ bs ∧ ∀ l ∈ ls, l.token.kind ≠ .eof := by
  induction h with
  | refl => exact ⟨[], rfl, nofun⟩
  | step hkind _ ih =>
    obtain ⟨ls, rfl, hls⟩ := ih
    exact ⟨_ :: ls, rfl, List.forall_mem_cons.2 ⟨hkind, hls⟩⟩

/-- No more is left than there was. -/
theorem length_le (h : Consumes as last bs last') : bs.length ≤ as.length := by
  obtain ⟨ls, rfl, _⟩ := h.exists_append
  exact List.length_append ▸ Nat.le_add_left ..

/-- Either nothing was consumed, or less is left. -/
private theorem eq_or_lt (h : Consumes as last bs last') :
    (bs = as ∧ last' = last) ∨ bs.length < as.length := by
  cases h with
  | refl => exact .inl ⟨rfl, rfl⟩
  | step hkind hrest => exact .inr (Nat.lt_succ_of_le hrest.length_le)

end Consumes

namespace Parser

/-! ## Enough steps -/

/-- Where the parser stands in a file: the lexemes ahead are lined up behind the last consumed one, and the
number of steps is enough for them, and for a few more steps in front of the next one. -/
structure Room (file length few steps : Nat) (as : List Lexeme) (last : Span) : Prop where
  place : last.file = file
  within : last.stop ≤ length
  lined : Lined file length last.stop as
  steps : 12 * as.length + few ≤ steps

namespace Room

variable {file length few few' steps steps' : Nat} {as bs ls : List Lexeme} {l : Lexeme} {last last' : Span}

/-- There is a lexeme ahead. -/
theorem exists_cons (h : Room file length few steps as last) : ∃ l ls, as = l :: ls := by
  cases h.lined with
  | last => exact ⟨_, [], rfl⟩
  | cons => exact ⟨_, _, rfl⟩

/-- Fewer steps for less. -/
theorem less (h : Room file length few steps as last) (hle : few' + steps ≤ few + steps') :
    Room file length few' steps' as last :=
  ⟨h.place, h.within, h.lined, by have hsteps := h.steps; omega⟩

/-- Where the next token stands. -/
theorem fills (h : Room file length few steps (l :: ls) last) (hkind : l.token.kind ≠ .eof) :
    l.token.span.Fills file last.stop l.token.span.stop := by
  cases h.lined with
  | last hend => exact absurd hend hkind
  | cons _ hspan _ => exact ⟨hspan.file, hspan.start, hspan.pos, Nat.le_refl _⟩

/-- Behind the next token there is room for more steps. -/
theorem next (h : Room file length few steps (l :: ls) last) (hkind : l.token.kind ≠ .eof) :
    Room file length (few + 12) steps ls l.token.span := by
  cases h.lined with
  | last hend => exact absurd hend hkind
  | cons _ hspan hrest =>
    have hsteps := h.steps
    rw [List.length_cons] at hsteps
    exact ⟨hspan.file, hspan.stop, hrest, by omega⟩

/-- Behind what is consumed there is as much room, and it lies behind where the parser stood. -/
private theorem consumes (h : Room file length few steps as last) (hc : Consumes as last bs last') :
    Room file length few steps bs last' ∧ last.stop ≤ last'.stop := by
  induction hc with
  | refl => exact ⟨h, Nat.le_refl _⟩
  | step hkind _ ih =>
    obtain ⟨hroom, hle⟩ := ih ((h.next hkind).less (by omega))
    have horder := (h.fills hkind).order
    exact ⟨hroom, by omega⟩

/-- Behind what is consumed there is as much room. -/
theorem after (h : Room file length few steps as last) (hc : Consumes as last bs last') :
    Room file length few steps bs last' := (h.consumes hc).1

/-- Consuming goes on in the file. -/
theorem stop_le (h : Room file length few steps as last) (hc : Consumes as last bs last') :
    last.stop ≤ last'.stop := (h.consumes hc).2

/-- Behind one lexeme at least there is room for more steps. -/
theorem shorter (h : Room file length few steps as last) (hc : Consumes as last bs last')
    (hlt : bs.length < as.length) : Room file length (few + 12) steps bs last' := by
  have hroom := h.after hc
  have hsteps := h.steps
  exact ⟨hroom.place, hroom.within, hroom.lined, by omega⟩

/-- If the parser has come further in the file, it has consumed a lexeme. -/
theorem length_lt (hc : Consumes as last bs last') (hlt : last.stop < last'.stop) : bs.length < as.length := by
  rcases hc.eq_or_lt with ⟨_, rfl⟩ | hlt'
  · exact absurd hlt (Nat.lt_irrefl _)
  · exact hlt'

end Room

/-! ## Guarded steps -/

variable {α β : Type}

/-- Where the lexemes `as` are ahead and `last` was consumed last, the guarded step `q` does what the step `p`
does, which consumes some of the lexemes.  If it succeeds, then with a result, lexemes ahead and a place last
consumed that satisfy `post`; it fails only if it `may`. -/
def Alike (may : Prop) (as : List Lexeme) (last : Span) (q p : Parser α) (post : α → List Lexeme → Span → Prop) :
    Prop :=
  ∀ s, s.ahead = as → s.last = last → q.run s = p.run s ∧ Consumes as last (p.run s).2.ahead (p.run s).2.last
    ∧ ((p.run s).1 = none → may) ∧ ∀ a, (p.run s).1 = some a → post a (p.run s).2.ahead (p.run s).2.last

/-- A step that succeeds with a known result and consumes nothing. -/
def Still (as : List Lexeme) (last : Span) (p : Parser α) (a : α) : Prop :=
  ∀ s, s.ahead = as → s.last = last → ∃ s', p.run s = (some a, s') ∧ s'.ahead = as ∧ s'.last = last

namespace Still

variable {as ls : List Lexeme} {l : Lexeme} {last : Span} {p : Parser α} {f : α → Parser β} {a : α} {b : β}

/-- Two steps in a row. -/
theorem bind (hp : Still as last p a) (hf : Still as last (f a) b) : Still as last (p >>= f) b := by
  intro s hs hlast
  obtain ⟨s₁, hrun, hs₁, hlast₁⟩ := hp s hs hlast
  obtain ⟨s₂, hrun', hs₂⟩ := hf s₁ hs₁ hlast₁
  exact ⟨s₂, by rw [run_bind, hrun]; exact hrun', hs₂⟩

/-- A step that does nothing. -/
theorem pure : Still as last (Pure.pure a) a := fun s hs hlast => ⟨s, rfl, hs, hlast⟩

/-- Looking at the next token. -/
theorem peek : Still (l :: ls) last Parser.peek l.token := by
  intro s hs hlast
  obtain ⟨ahead, seen, place, errors, maxErrors, reports⟩ := s
  cases hs
  cases seen with
  | true => exact ⟨_, rfl, rfl, hlast⟩
  | false => exact ⟨_, rfl, rfl, hlast⟩

/-- Looking at the kind of the next token. -/
theorem peekKind : Still (l :: ls) last Parser.peekKind l.token.kind := peek.bind pure

/-- Whether the next token has a kind. -/
theorem atKind (k : Token.Kind) : Still (l :: ls) last (Parser.atKind k) (l.token.kind == k) := peekKind.bind pure

/-- Looking at the last consumed place. -/
theorem lastSpan : Still as last Parser.lastSpan last := by
  rintro s hs rfl
  exact ⟨s, rfl, hs, rfl⟩

/-- Counting the lexemes ahead. -/
theorem left : Still as last Guard.left as.length := by
  rintro s rfl hlast
  exact ⟨s, rfl, rfl, hlast⟩

/-- Reporting an error. -/
theorem report {code : Code} {span : Span} {message : Text} {notes : List Note} :
    Still as last (Parser.report code span message notes) () := by
  intro s hs hlast
  by_cases hfull : s.maxErrors ≠ 0 ∧ s.maxErrors ≤ s.errors
  · refine ⟨{ s with errors := s.errors + 1 }, ?_, hs, hlast⟩
    change (some (), if s.maxErrors ≠ 0 ∧ s.maxErrors ≤ s.errors then _ else _) = _
    rw [if_pos hfull]
  · refine ⟨{ s with errors := s.errors + 1, reports := { code, span, message, notes } :: s.reports }, ?_, hs, hlast⟩
    change (some (), if s.maxErrors ≠ 0 ∧ s.maxErrors ≤ s.errors then _ else _) = _
    rw [if_neg hfull]

/-- Finding out where to report a problem with the next token. -/
theorem problemSpan : ∃ span, Still (l :: ls) last Parser.problemSpan span := by
  refine ⟨if l.token.kind = .eof ∧ 0 < last.stop then .point last.file last.stop else l.token.span,
    peek.bind (lastSpan.bind ?_)⟩
  split
  · exact pure
  · exact pure

/-- Reporting a problem with the next token. -/
theorem complain (code : Code) (message : Text) : Still (l :: ls) last (Parser.complain code message) () :=
  problemSpan.elim fun _ hspan => hspan.bind report

end Still

namespace Alike

variable {may : Prop} {as bs ls : List Lexeme} {l : Lexeme} {last last' : Span} {q p : Parser α} {f' f : α → Parser β}
  {post : α → List Lexeme → Span → Prop} {post' : β → List Lexeme → Span → Prop}

/-- Two steps in a row. -/
theorem bind (hp : Alike may as last q p post)
    (hf : ∀ a bs last', Consumes as last bs last' → post a bs last' → Alike may bs last' (f' a) (f a) post') :
    Alike may as last (q >>= f') (p >>= f) post' := by
  intro s hs hlast
  obtain ⟨hsame, hconsumes, hmay, hpost⟩ := hp s hs hlast
  -- The first step leaves the same state in both, so the second begins with it.
  rw [run_bind, run_bind, hsame]
  cases hr : p.run s with
  | mk r s₁ =>
    rw [hr] at hconsumes hmay hpost
    -- A failure of the first step is one of both.
    cases r with
    | none => exact ⟨rfl, hconsumes, fun _ => hmay rfl, nofun⟩
    | some a =>
      obtain ⟨hsame', hconsumes', hrest⟩ := hf a _ _ hconsumes (hpost a rfl) s₁ rfl rfl
      exact ⟨hsame', hconsumes.trans hconsumes', hrest⟩

/-- A step that does nothing. -/
theorem pure {a : α} (h : post a as last) : Alike may as last (Pure.pure a) (Pure.pure a) post := by
  rintro s rfl rfl
  exact ⟨rfl, .refl, nofun, fun _ ha => Option.some.inj ha ▸ h⟩

/-- Failing. -/
theorem failure : Alike True as last (Alternative.failure : Parser α) Alternative.failure post := by
  rintro s rfl rfl
  exact ⟨rfl, .refl, fun _ => trivial, nofun⟩

/-- Nothing goes on from a failure. -/
theorem failure_bind : Alike True as last (Alternative.failure >>= f') (Alternative.failure >>= f) post' := by
  have hfailure : Alike True as last (Alternative.failure : Parser α) Alternative.failure fun _ _ _ => False := failure
  exact hfailure.bind fun _ _ _ _ h => h.elim

/-- Going on from a value. -/
theorem pure_bind {a : α} (h : Alike may as last (f' a) (f a) post') :
    Alike may as last (Pure.pure a >>= f') (Pure.pure a >>= f) post' := h

/-- Less is known. -/
theorem weaken {post₁ : α → List Lexeme → Span → Prop} (h : Alike may as last q p post)
    (hpost : ∀ a bs last', Consumes as last bs last' → post a bs last' → post₁ a bs last') :
    Alike may as last q p post₁ := by
  intro s hs hlast
  obtain ⟨hsame, hconsumes, hmay, ha⟩ := h s hs hlast
  exact ⟨hsame, hconsumes, hmay, fun a hr => hpost a _ _ hconsumes (ha a hr)⟩

/-- A result that is changed. -/
theorem map {k : α → β} (h : Alike may as last q p post) (hk : ∀ a bs last', post a bs last' → post' (k a) bs last') :
    Alike may as last (k <$> q) (k <$> p) post' := by
  rw [map_eq_pure_bind, map_eq_pure_bind]
  exact h.bind fun a bs last' _ ha => pure (hk a bs last' ha)

/-- An attempt, which does not fail itself. -/
theorem attempt (h : Alike True as last q p post) : Alike may as last (Parser.attempt q) (Parser.attempt p)
    fun r bs last' => ∀ a, r = some a → post a bs last' := by
  intro s hs hlast
  obtain ⟨hsame, hconsumes, _, hpost⟩ := h s hs hlast
  refine ⟨?_, hconsumes, nofun, fun r hr a ha => hpost a ((Option.some.inj hr).trans ha)⟩
  change (some (q.run s).1, (q.run s).2) = (some (p.run s).1, (p.run s).2)
  rw [hsame]

/-- A choice. -/
theorem ite {c : Prop} [Decidable c] {q' p' : Parser α} (hthen : c → Alike may as last q p post)
    (helse : ¬ c → Alike may as last q' p' post) : Alike may as last (if c then q else q') (if c then p else p') post := by
  split
  · exact hthen ‹_›
  · exact helse ‹_›

/-- A step behind one that consumes nothing. -/
theorem still {a : α} (hp : Still as last p a) (h : Alike may as last (f' a) (f a) post') :
    Alike may as last (p >>= f') (p >>= f) post' := by
  intro s hs hlast
  obtain ⟨s', hrun, hs', hlast'⟩ := hp s hs hlast
  rw [run_bind, run_bind, hrun]
  exact h s' hs' hlast'

/-- A guarded step that looks at the number of lexemes ahead first. -/
theorem left {q' : Nat → Parser α} (h : Alike may as last (q' as.length) p post) :
    Alike may as last (Guard.left >>= q') p post := by
  rintro s rfl hlast
  exact h s rfl hlast

/-- Looking at the next token. -/
theorem peek {f' f : Token → Parser β} (h : Alike may (l :: ls) last (f' l.token) (f l.token) post') :
    Alike may (l :: ls) last (Parser.peek >>= f') (Parser.peek >>= f) post' := still .peek h

/-- Looking at the kind of the next token. -/
theorem peekKind {f' f : Token.Kind → Parser β} (h : Alike may (l :: ls) last (f' l.token.kind) (f l.token.kind) post') :
    Alike may (l :: ls) last (Parser.peekKind >>= f') (Parser.peekKind >>= f) post' := still .peekKind h

/-- Looking at the last consumed place. -/
theorem lastSpan {f' f : Span → Parser β} (h : Alike may as last (f' last) (f last) post') :
    Alike may as last (Parser.lastSpan >>= f') (Parser.lastSpan >>= f) post' := still .lastSpan h

/-- Going on behind a report. -/
theorem report {code : Code} {span : Span} {message : Text} {notes : List Note} {f' f : Unit → Parser β}
    (h : Alike may as last (f' ()) (f ()) post') :
    Alike may as last (Parser.report code span message notes >>= f') (Parser.report code span message notes >>= f)
      post' := still .report h

/-- Going on behind a problem with the next token. -/
theorem complain {code : Code} {message : Text} {f' f : Unit → Parser β} (h : Alike may (l :: ls) last (f' ()) (f ()) post') :
    Alike may (l :: ls) last (Parser.complain code message >>= f') (Parser.complain code message >>= f) post' :=
  still (.complain _ _) h

/-- Going on behind a problem with the next token that is reported under a condition. -/
theorem complain_if {c : Prop} [Decidable c] {code : Code} {message : Text} (h : Alike may (l :: ls) last q p post) :
    Alike may (l :: ls) last (if c then do Parser.complain code message; q else q)
      (if c then do Parser.complain code message; p else p) post := ite (fun _ => complain h) fun _ => h

/-- Rejecting the next token. -/
theorem reject {code : Code} {message : Text} :
    Alike True (l :: ls) last (Parser.reject code message : Parser α) (Parser.reject code message) post := complain failure

/-- A choice by the next token.  The kinds that are asked for are never the end mark. -/
theorem atKind {k : Token.Kind} {q' p' : Parser α} (hk : k ≠ .eof)
    (hthen : l.token.kind ≠ .eof → Alike may (l :: ls) last q p post)
    (helse : l.token.kind ≠ k → Alike may (l :: ls) last q' p' post) :
    Alike may (l :: ls) last (do if ← Parser.atKind k then q else q') (do if ← Parser.atKind k then p else p') post :=
  still (.atKind k) (ite (fun h => hthen (beq_iff_eq.1 h ▸ hk)) fun h => helse fun heq => h (beq_iff_eq.2 heq))

/-- Going on behind a step that is left out in front of a token. -/
theorem optional {k : Token.Kind} {q p : Parser α} {f' f : Option α → Parser β}
    (post : Option α → List Lexeme → Span → Prop) (hnone : post none (l :: ls) last)
    (hsome : Alike may (l :: ls) last q p fun a => post (some a))
    (hf : ∀ x bs last', Consumes (l :: ls) last bs last' → post x bs last' → Alike may bs last' (f' x) (f x) post') :
    Alike may (l :: ls) last (do if ← Parser.atKind k then (Pure.pure none >>= f') else (some <$> q >>= f'))
      (do if ← Parser.atKind k then (Pure.pure none >>= f) else (some <$> p >>= f)) post' :=
  still (.atKind k) (ite (fun _ => hf none _ _ .refl hnone) fun _ => (hsome.map fun _ _ _ ha => ha).bind hf)

variable {g : Guard}

/-- Consuming the next token, with a guard and without. -/
private theorem run_advance (hkind : l.token.kind ≠ .eof) {s : ParseState} (hs : s.ahead = l :: ls) :
    ∃ s', g.advance.run s = (some l.token, s') ∧ Parser.advance.run s = (some l.token, s') ∧ s'.ahead = ls
      ∧ s'.last = l.token.span := by
  obtain ⟨s₁, hrun, hs₁, _⟩ := Still.peek s hs rfl
  refine ⟨{ s₁ with ahead := s₁.ahead.tail, seen := false, last := l.token.span }, ?_, ?_, congrArg List.tail hs₁, rfl⟩
  · rw [Guard.advance, run_bind, hrun]
    dsimp only
    rw [if_neg hkind]
    rfl
  · rw [Parser.advance, run_bind, hrun]
    dsimp only
    rw [if_neg hkind]
    rfl

/-- The next token is consumed. -/
private theorem advance_next (hkind : l.token.kind ≠ .eof) : Alike may (l :: ls) last g.advance Parser.advance
    fun t bs last' => t = l.token ∧ bs = ls ∧ last' = l.token.span := by
  intro s hs hlast
  obtain ⟨s', hrun, hrun', hs', hlast'⟩ := run_advance hkind hs
  rw [hrun, hrun', hs', hlast']
  exact ⟨rfl, .step hkind .refl, nofun, fun t ht => ⟨(Option.some.inj ht).symm, rfl, rfl⟩⟩

/-- Going on behind the next token. -/
theorem advance {f' f : Token → Parser β} (hkind : l.token.kind ≠ .eof)
    (h : Alike may ls l.token.span (f' l.token) (f l.token) post') :
    Alike may (l :: ls) last (g.advance >>= f') (Parser.advance >>= f) post' := by
  refine (advance_next hkind).bind fun t bs last' _ ht => ?_
  obtain ⟨rfl, rfl, rfl⟩ := ht
  exact h

/-- An attempt that begins with the next token consumes it, also if it fails. -/
theorem attempt_advance {f' f : Token → Parser β} (hkind : l.token.kind ≠ .eof)
    (h : Alike True ls l.token.span (f' l.token) (f l.token) post') :
    Alike may (l :: ls) last (Parser.attempt (g.advance >>= f')) (Parser.attempt (Parser.advance >>= f))
      fun r bs last' => bs.length < (l :: ls).length ∧ ∀ b, r = some b → post' b bs last' := by
  intro s hs hlast
  -- The token is consumed in front of all that may fail.
  obtain ⟨s', hrun, hrun', hs', hlast'⟩ := run_advance hkind hs
  -- The attempt swallows the failure of what follows, but not the tokens it has consumed.
  have hattempt : Alike True ls l.token.span (Parser.attempt (f' l.token)) (Parser.attempt (f l.token))
      fun r bs last' => ∀ b, r = some b → post' b bs last' := h.attempt
  obtain ⟨hsame, hconsumes, _, hpost⟩ := hattempt s' hs' hlast'
  -- An attempt at two steps, of which the first succeeds, is an attempt at the second.
  have hbind : ∀ {p : Parser Token} (k : Token → Parser β), p.run s = (some l.token, s') →
      (Parser.attempt (p >>= k)).run s = (Parser.attempt (k l.token)).run s' := by
    intro p k hp
    change (some ((p >>= k).run s).1, ((p >>= k).run s).2) = _
    rw [run_bind, hp]
    rfl
  rw [hbind f' hrun, hbind f hrun']
  exact ⟨hsame, .step hkind hconsumes, nofun, fun r hr => ⟨Nat.lt_succ_of_le hconsumes.length_le, hpost r hr⟩⟩

/-- Going on behind a token of the given kind. -/
theorem expect {k : Token.Kind} {code : Code} {message : Text} {f' f : Token → Parser β} (hk : k ≠ .eof)
    (h : l.token.kind ≠ .eof → Alike True ls l.token.span (f' l.token) (f l.token) post') :
    Alike True (l :: ls) last (g.expect k code message >>= f') (Parser.expect k code message >>= f) post' := by
  have hstep : Alike True (l :: ls) last (g.expect k code message) (Parser.expect k code message)
      fun t bs last' => l.token.kind ≠ .eof ∧ t = l.token ∧ bs = ls ∧ last' = l.token.span :=
    atKind hk (fun hkind => (advance_next hkind).weaken fun _ _ _ _ ht => ⟨hkind, ht⟩) fun _ => reject
  refine hstep.bind fun t bs last' _ ht => ?_
  obtain ⟨hkind, rfl, rfl, rfl⟩ := ht
  exact h hkind

/-- Going on behind a name. -/
theorem expectName {message : Text} {f' f : Token → Parser β}
    (h : l.token.kind ≠ .eof → Alike True ls l.token.span (f' l.token) (f l.token) post') :
    Alike True (l :: ls) last (g.expectName message >>= f') (Parser.expectName message >>= f) post' :=
  expect (by simp) h

/-- Going on behind a symbol. -/
theorem expectSymbol {x : Symbol} {code : Code} {message : Text} {f' f : Token → Parser β}
    (h : l.token.kind ≠ .eof → Alike True ls l.token.span (f' l.token) (f l.token) post') :
    Alike True (l :: ls) last (g.expectSymbol x code message >>= f') (Parser.expectSymbol x code message >>= f) post' :=
  expect (by simp) h

/-- Going on behind the end of a construct. -/
theorem expectEnd {what : Text} {opened : Span} {f' f : Unit → Parser β}
    (h : l.token.kind ≠ .eof → Alike True ls l.token.span (f' ()) (f ()) post') :
    Alike True (l :: ls) last (g.expectEnd what opened >>= f') (Parser.expectEnd what opened >>= f) post' := by
  have hstep : Alike True (l :: ls) last (g.expectEnd what opened) (Parser.expectEnd what opened)
      fun _ bs last' => l.token.kind ≠ .eof ∧ bs = ls ∧ last' = l.token.span := by
    refine atKind (by simp) (fun hkind => ?_) fun _ => Still.problemSpan.elim fun _ hspan => still hspan (report failure)
    exact advance hkind (pure ⟨hkind, rfl, rfl⟩)
  refine hstep.bind fun _ bs last' _ hend => ?_
  obtain ⟨hkind, rfl, rfl⟩ := hend
  exact h hkind

/-- The end of a turn that has consumed something. -/
theorem turned {before : Nat} {q p : Parser α} (hlt : as.length < before) (h : Alike may as last q p post) :
    Alike may as last (g.turned before >>= fun _ => q) p post := by
  rintro s rfl hlast
  have hrun : (g.turned before).run s = (some (), s) := by
    change (if s.ahead.length < before then (Pure.pure () : Parser Unit) else g.stuck).run s = _
    rw [if_pos hlt]
    rfl
  rw [run_bind, hrun]
  exact h s rfl hlast

/-! ## Skipping past an error -/

variable {file length few steps : Nat}

/-- Skipping tokens up to the end mark at most. -/
private theorem skip {n : Nat} (h : Room file length few steps as last) (hn : as.length ≤ n) :
    Alike may as last (Guard.resync.skip g n) (Parser.resync.skip n) fun _ _ _ => True := by
  -- Induction over the tokens that may be skipped; the end mark is always among those ahead.
  induction n generalizing as last with
  | zero =>
    obtain ⟨l, ls, rfl⟩ := h.exists_cons
    exact absurd hn (Nat.not_succ_le_zero _)
  | succ n ih =>
    obtain ⟨l, ls, rfl⟩ := h.exists_cons
    unfold Guard.resync.skip Parser.resync.skip
    refine peek ?_
    split <;> try simp only [*]
    -- Three keywords and the end mark stop the skipping.
    · exact pure trivial
    · exact pure trivial
    · exact pure trivial
    · exact pure trivial
    · refine ite (fun _ => pure trivial) fun _ => ?_
      have hkind : l.token.kind ≠ .eof := ‹_›
      exact advance hkind (ih ((h.next hkind).less (by omega)) (Nat.le_of_succ_le_succ hn))

/-- Skipping as many tokens as are ahead at most. -/
private theorem skipAhead (h : Room file length few steps as last) : Alike may as last
    (do let s ← get; Guard.resync.skip g s.ahead.length) (do let s ← get; Parser.resync.skip s.ahead.length)
    fun _ _ _ => True := by
  rintro s rfl hlast
  exact skip h (Nat.le_refl _) s rfl hlast

/-- Skipping past an error in a statement: at least the token at which the statement began is behind. -/
theorem resync (h : Room file length few steps (l :: ls) last) (hkind : l.token.kind ≠ .eof)
    (hc : Consumes (l :: ls) last bs last') : Alike may bs last' (g.resync l.token.span)
      (Parser.resync l.token.span) fun _ cs _ => cs.length < (l :: ls).length := by
  -- What is skipped only comes on top of what is consumed already.
  have hskip : ∀ {cs : List Lexeme} {place : Span}, Room file length few steps cs place →
      cs.length < (l :: ls).length → Alike may cs place (do let s ← get; Guard.resync.skip g s.ahead.length)
        (do let s ← get; Parser.resync.skip s.ahead.length) fun _ ds _ => ds.length < (l :: ls).length :=
    fun hroom hlt => (skipAhead hroom).weaken fun _ _ _ hc _ => Nat.lt_of_le_of_lt hc.length_le hlt
  unfold Guard.resync Parser.resync
  rcases hc.eq_or_lt with ⟨rfl, rfl⟩ | hlt
  · -- Nothing was consumed: this is still the token at which the statement began.
    refine peek ?_
    dsimp only
    rw [if_pos ⟨rfl, hkind⟩, if_pos ⟨rfl, hkind⟩]
    exact advance hkind (hskip ((h.next hkind).less (by omega)) (Nat.lt_succ_self _))
  · have hroom := h.after hc
    obtain ⟨l', ls', rfl⟩ := hroom.exists_cons
    -- Something was consumed, so the token ahead is another one unless its span is the same.
    refine peek (ite (fun hsame => ?_) fun _ => hskip hroom hlt)
    exact advance hsame.2 (hskip ((hroom.next hsame.2).less (by omega)) (Nat.lt_of_succ_lt hlt))

end Alike

end Parser

end AisScript
