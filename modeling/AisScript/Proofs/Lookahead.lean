import AisScript.Proofs.Tiling

/-!
# Looking ahead changes nothing

A scanner can be asked for the next token, for a look at it, or for everything that is left, in any order
and also behind the end mark.  Whatever is asked, the tokens handed out are those of the text from its
beginning on, with the end mark repeated behind them, and each report is made once, when its token is
scanned.  The invariant counts: after `n` tokens were handed out, `n` tokens were scanned, or `n + 1` and
the last of them is held back.

* `Scanner.Call`, `Scanner.answers`   calls of a scanner and what they answer
* `handedOut`, `scannedBy`            tokens given away for good, and the number of tokens scanned
* `Scanner.Stands`                    the invariant, kept by every call (`Scanner.Stands.answer`)
* `Scanner.answers_transparent`       what any sequence of calls gives
-/

namespace AisScript

/-! ## Calls -/

/-- What a scanner can be asked for: the next token, a look at it, or all that is left. -/
inductive Scanner.Call where
  | next
  | peek
  | drain
deriving DecidableEq, Repr

/-- Whether a call hands out what it answers, and does not only show it. -/
def Scanner.Call.HandsOut (c : Scanner.Call) : Prop := c ≠ .peek

instance (c : Scanner.Call) : Decidable c.HandsOut := inferInstanceAs (Decidable (c ≠ .peek))

/-- A call and the lexemes it answered, with the reports made on the way. -/
abbrev Scanner.Answer := Scanner.Call × List Lexeme

namespace Scanner

/-- What a scanner answers to a call, and the scanner behind it. -/
def answer (s : Scanner) : Call → List Lexeme × Scanner
  | .next => ([s.next.1], s.next.2)
  | .peek => ([s.peek.1], s.peek.2)
  | .drain => s.drain

/-- What a scanner answers to calls, one behind the other. -/
def answers (s : Scanner) : List Call → List Answer
  | [] => []
  | c :: cs => (c, (s.answer c).1) :: (s.answer c).2.answers cs

end Scanner

/-- The tokens that were handed out. -/
def handedOut (as : List Scanner.Answer) : List Token :=
  as.flatMap fun a => if a.1.HandsOut then a.2.map (·.token) else []

/-- All reports made, in order. -/
def reported (as : List Scanner.Answer) : List Diagnostic :=
  as.flatMap fun a => a.2.flatMap (·.reports)

/-- The number of tokens scanned: those handed out, and one more if the last call only showed one. -/
def scannedBy (as : List Scanner.Answer) : Nat :=
  (handedOut as).length + if as.getLast?.map Prod.fst = some .peek then 1 else 0

/-! ## Tokens of a text, without an end -/

section Endless

variable {α : Type} (xs : List α) (last : α)

/-- The first `n` elements of a list whose last one is repeated for ever. -/
def firsts (n : Nat) : List α := (xs ++ List.replicate n last).take n

/-- The element at an index of a list whose last one is repeated for ever. -/
def nth (n : Nat) : α := (xs[n]?).getD last

@[simp] theorem firsts_zero : firsts xs last 0 = [] := by simp [firsts]

/-- One element more. -/
private theorem firsts_succ (n : Nat) : firsts xs last (n + 1) = firsts xs last n ++ [nth xs last n] := by
  unfold firsts nth
  by_cases h : n < xs.length
  · rw [List.take_append_of_le_length (by omega), List.take_append_of_le_length (by omega),
      List.take_succ_eq_append_getElem h, List.getElem?_eq_getElem h, Option.getD_some]
  · have hn : xs.length ≤ n := Nat.le_of_not_lt h
    obtain ⟨k, rfl⟩ := Nat.exists_eq_add_of_le hn
    rw [List.getElem?_eq_none hn, Option.getD_none, Nat.add_assoc, List.take_length_add_append,
      List.take_length_add_append, List.append_assoc]
    simp [List.take_replicate, List.replicate_succ']

/-- As many elements as were asked for. -/
@[simp] theorem length_firsts (n : Nat) : (firsts xs last n).length = n := by
  rw [firsts, List.length_take, List.length_append, List.length_replicate]
  omega

/-- What is left of the list gives the elements up to the first repetition. -/
private theorem firsts_append_drop (n : Nat) :
    firsts xs last n ++ (xs.drop n ++ [last]) = firsts xs last (max n xs.length + 1) := by
  unfold firsts
  by_cases h : n ≤ xs.length
  · rw [List.take_append_of_le_length h, ← List.append_assoc, List.take_append_drop, Nat.max_eq_right h,
      List.take_length_add_append]
    rfl
  · have hn : xs.length ≤ n := Nat.le_of_not_le h
    obtain ⟨k, rfl⟩ := Nat.exists_eq_add_of_le hn
    rw [List.drop_eq_nil_of_le hn, Nat.max_eq_left hn, Nat.add_assoc, List.take_length_add_append,
      List.take_length_add_append, List.append_assoc]
    simp [List.take_replicate, List.replicate_succ']

/-- The elements are those of the list, followed by its last one only. -/
private theorem firsts_begins (n : Nat) : firsts xs last n <+: xs ++ [last] ++ List.replicate n last := by
  rw [firsts, List.append_assoc, List.singleton_append, ← List.replicate_succ, List.replicate_succ',
    ← List.append_assoc]
  exact (List.take_prefix _ _).trans (List.prefix_append _ _)

end Endless

/-! ## The invariant -/

/-- The number of tokens that a scanner has scanned and holds back: none or one. -/
def Scanner.held (s : Scanner) : Nat := s.ahead.toList.length

/-- A scanner of a text with the lexemes `ls` and the end mark `last` behind them, after it has handed out
`n` tokens. -/
structure Scanner.Stands (ls : List Lexeme) (last : Lexeme) (s : Scanner) (n : Nat) : Prop where
  rest : lexemesFrom s.place s.rest = ls.drop (n + s.held) ++ [last]
  ahead : ∀ tok ∈ s.ahead, tok = (nth ls last n).token
  place : last = .endMark { s.place with offset := last.token.span.stop }
  kinds : ∀ l ∈ ls, l.token.kind ≠ .eof

namespace Scanner

variable {ls : List Lexeme} {last : Lexeme} {s : Scanner} {n : Nat}

/-- Every call is answered. -/
private theorem map_fst_answers (s : Scanner) (cs : List Call) : (s.answers cs).map Prod.fst = cs := by
  induction cs generalizing s with
  | nil => rfl
  | cons c cs ih => rw [Scanner.answers, List.map_cons, ih]

/-- Nothing is scanned behind the end mark but the end mark. -/
private theorem lexemesFrom_nil (p : Place) : lexemesFrom p [] = [.endMark p] := by
  have hgap : gapLength false [] = 0 := by rw [gapLength]
  have hdrop : ([] : Text).drop (gapLength false []) = [] := List.drop_nil
  rw [(lexemesFrom_of_nil p hdrop).1, scanNext, hgap]
  rfl

/-- Scanning gives the first lexeme of what is left, and leaves the others.  The end mark stays. -/
private theorem scanNext_stands {p : Place} {t : Text} {k : Nat} (h : lexemesFrom p t = ls.drop k ++ [last])
    (hlast : last.token.kind = .eof) :
    (scanNext p t).1 = nth ls last k
      ∧ lexemesFrom (scanNext p t).2.1 (scanNext p t).2.2 = ls.drop (k + 1) ++ [last]
      ∧ (scanNext p t).2.1.file = p.file := by
  -- Is anything left behind the gap?
  cases hdrop : t.drop (gapLength false t) with
  | nil =>
    obtain ⟨hone, -, -⟩ := lexemesFrom_of_nil p hdrop
    rw [h] at hone
    -- Only one lexeme is left, so none of the text is.
    have hempty : ls.drop k = [] := by
      have hlen := congrArg List.length hone
      rw [List.length_append, List.length_singleton, List.length_singleton] at hlen
      exact List.length_eq_zero_iff.1 (by omega)
    have hk : ls.length ≤ k := List.drop_eq_nil_iff.1 hempty
    rw [hempty, List.nil_append] at hone
    have hscan : (scanNext p t).1 = last := (List.cons.inj hone).1.symm
    refine ⟨?_, ?_, ?_⟩
    · rw [hscan, nth, List.getElem?_eq_none hk, Option.getD_none]
    · rw [List.drop_eq_nil_of_le (by omega), List.nil_append, ← hscan]
      simp only [scanNext, hdrop]
      exact lexemesFrom_nil _
    · simp only [scanNext, hdrop]
  | cons b rest =>
    -- A token was scanned, so one of the text is left.
    obtain ⟨hstep, ⟨_, hs, hkind, -⟩, -⟩ := lexemesFrom_of_cons p hdrop
    rw [h] at hstep
    have hlt : k < ls.length := by
      -- The end mark has another kind than a scanned token.
      refine Nat.lt_of_not_le fun hge => ?_
      rw [List.drop_eq_nil_of_le hge, List.nil_append] at hstep
      rw [← (List.cons.inj hstep).1, hlast] at hkind
      exact hs.kind_ne hkind.symm
    rw [List.drop_eq_getElem_cons hlt, List.cons_append] at hstep
    obtain ⟨hhead, htail⟩ := List.cons.inj hstep
    refine ⟨?_, htail.symm, ?_⟩
    · rw [nth, List.getElem?_eq_getElem hlt, Option.getD_some, hhead]
    · simp only [scanNext, hdrop]

/-- The scanner at the beginning of a text. -/
private theorem start_stands (file : Nat) (contents : Text) :
    ∃ ls last, (start file contents).drain.1 = ls ++ [last] ∧ (start file contents).Stands ls last 0 := by
  obtain ⟨ls, hls, htiles⟩ := Tiling.lexemesFrom file contents (Nat.zero_le _)
  rw [List.drop_zero] at hls
  exact ⟨ls, _, hls, hls, nofun, rfl, htiles.kinds⟩

namespace Stands

/-- The last lexeme is the end mark. -/
private theorem last_kind (h : s.Stands ls last n) : last.token.kind = .eof := by
  rw [h.place]
  rfl

/-- The end mark reports nothing. -/
private theorem last_reports (h : s.Stands ls last n) : last.reports = [] := by
  rw [h.place]
  rfl

/-- At most one token is held back. -/
private theorem held_le (_ : s.Stands ls last n) : s.held ≤ 1 := by
  unfold held
  cases s.ahead <;> simp

/-- Handing out one token, which is scanned now or was before. -/
theorem next (h : s.Stands ls last n) :
    s.next.1.token = (nth ls last n).token
      ∧ s.next.1.reports = (if s.held = 0 then (nth ls last n).reports else [])
      ∧ s.next.2.Stands ls last (n + 1) ∧ s.next.2.held = 0 := by
  obtain ⟨place, rest, ahead⟩ := s
  -- The next token was held back, or it is scanned now.
  cases ahead with
  | none =>
    obtain ⟨hscan, hrest, hfile⟩ := scanNext_stands h.rest h.last_kind
    refine ⟨?_, ?_, ⟨hrest, fun t ht => absurd ht (Option.not_mem_none t), ?_, h.kinds⟩, rfl⟩
    · exact congrArg Lexeme.token hscan
    · exact congrArg Lexeme.reports hscan
    · rw [h.place]
      simp only [Scanner.next, hfile]
      rfl
  | some tok =>
    -- Its reports were made when it was scanned.
    refine ⟨h.ahead tok rfl, rfl, ⟨?_, fun t ht => absurd ht (Option.not_mem_none t), h.place, h.kinds⟩, rfl⟩
    exact h.rest

/-- Handing out everything up to the end mark. -/
theorem drain (h : s.Stands ls last n) :
    s.drain.1.map (·.token) = (ls.drop n ++ [last]).map (·.token)
      ∧ s.drain.1.flatMap (·.reports) = (ls.drop (n + s.held)).flatMap (·.reports)
      ∧ s.drain.2.Stands ls last (max n ls.length + 1) ∧ s.drain.2.held = 0 := by
  -- Behind all of it, only the end mark is left.
  have hnone : ls.drop (max n ls.length + 1) = [] := List.drop_eq_nil_of_le (by omega)
  have hend : ∀ p : Place, last = .endMark p → (Scanner.mk p [] none).Stands ls last (max n ls.length + 1) := by
    intro p hp
    refine ⟨?_, fun t ht => absurd ht (Option.not_mem_none t), by rw [hp]; rfl, h.kinds⟩
    rw [lexemesFrom_nil, ← hp, Scanner.held]
    simp [hnone]
  obtain ⟨place, rest, ahead⟩ := s
  have hrest : lexemesFrom place rest = ls.drop (n + ahead.toList.length) ++ [last] := h.rest
  cases ahead with
  | none =>
    -- Nothing was held back, so all is scanned now.
    simp only [Scanner.drain, hrest, List.getLast?_concat]
    refine ⟨rfl, ?_, hend _ h.place, rfl⟩
    rw [List.flatMap_append, List.flatMap_singleton, h.last_reports, List.append_nil]
    rfl
  | some tok =>
    have htok : tok = (nth ls last n).token := h.ahead tok rfl
    by_cases hn : n < ls.length
    · -- a token of the text was held back, and the others follow it
      have hkind : tok.kind ≠ .eof := by
        rw [htok, nth, List.getElem?_eq_getElem hn, Option.getD_some]
        exact h.kinds _ (List.getElem_mem hn)
      simp only [Scanner.drain, hrest, List.getLast?_concat, if_neg hkind]
      refine ⟨?_, ?_, hend _ h.place, rfl⟩
      · rw [htok, nth, List.getElem?_eq_getElem hn, Option.getD_some, List.drop_eq_getElem_cons hn]
        rfl
      · rw [List.flatMap_cons, List.nil_append, List.flatMap_append, List.flatMap_singleton,
          h.last_reports, List.append_nil]
        rfl
    · -- the end mark was held back
      have hlast : nth ls last n = last := by
        rw [nth, List.getElem?_eq_none (Nat.le_of_not_lt hn), Option.getD_none]
      have hkind : tok.kind = .eof := by rw [htok, hlast, h.last_kind]
      have hn' : ls.drop n = [] := List.drop_eq_nil_of_le (Nat.le_of_not_lt hn)
      have hn'' : ls.drop (n + 1) = [] := List.drop_eq_nil_of_le (by omega)
      have hmax : max n ls.length = n := Nat.max_eq_left (Nat.le_of_not_lt hn)
      simp only [Scanner.drain, if_pos hkind]
      refine ⟨?_, ?_, ⟨?_, fun t ht => absurd ht (Option.not_mem_none t), h.place, h.kinds⟩, rfl⟩
      · rw [hn', htok, hlast]
        rfl
      · rw [Scanner.held, Option.toList_some, List.length_singleton, hn'']
        rfl
      · rw [hmax]
        exact hrest

/-- A look at the next token scans what handing it out would scan, and keeps it. -/
theorem peek (h : s.Stands ls last n) :
    s.peek.1 = s.next.1 ∧ s.peek.2.Stands ls last n ∧ s.peek.2.held = 1 := by
  obtain ⟨htoken, -, hnext, hheld⟩ := h.next
  refine ⟨rfl, ⟨?_, ?_, hnext.place, h.kinds⟩, rfl⟩
  · have hrest := hnext.rest
    rw [hheld] at hrest
    exact hrest
  · intro tok htok
    rw [← htoken]
    exact (Option.some.inj htok).symm

/-- The reports of the next token are made when it is scanned, and not again. -/
private theorem reports_next (h : s.Stands ls last n) :
    (ls.take (n + s.held)).flatMap (·.reports) ++ s.next.1.reports = (ls.take (n + 1)).flatMap (·.reports) := by
  rw [h.next.2.1]
  rcases Nat.le_one_iff_eq_zero_or_eq_one.1 h.held_le with hheld | hheld
  · rw [if_pos hheld, hheld, Nat.add_zero, List.take_add_one, List.flatMap_append, nth]
    cases ls[n]? with
    | none => simp [h.last_reports]
    | some l => simp
  · rw [hheld, if_neg Nat.one_ne_zero, List.append_nil]

/-- What a call answers: the tokens that follow those handed out, and the reports that follow those made.
Its first token is the same for every call. -/
theorem answer (h : s.Stands ls last n) (c : Call) :
    ∃ m, (s.answer c).2.Stands ls last m
      ∧ (firsts ls last n).map (·.token) ++ (if c.HandsOut then (s.answer c).1.map (·.token) else [])
        = (firsts ls last m).map (·.token)
      ∧ (ls.take (n + s.held)).flatMap (·.reports) ++ (s.answer c).1.flatMap (·.reports)
        = (ls.take (m + (s.answer c).2.held)).flatMap (·.reports)
      ∧ (s.answer c).2.held = (if c = .peek then 1 else 0)
      ∧ (s.answer c).1.head?.map (·.token) = some (nth ls last n).token := by
  -- Every call hands out the next token first, or shows it.
  obtain ⟨htoken, -, hnext, hheld⟩ := h.next
  cases c with
  -- One more token is handed out.
  | next =>
    refine ⟨n + 1, hnext, ?_, ?_, hheld, congrArg some htoken⟩
    · rw [firsts_succ, List.map_append]
      exact congrArg _ (congrArg (fun x => [x]) htoken)
    · rw [Scanner.answer, List.flatMap_singleton, h.reports_next, hheld]
  | peek =>
    -- A look hands out nothing, and holds the token back.
    obtain ⟨hsame, hpeek, hone⟩ := h.peek
    refine ⟨n, hpeek, ?_, ?_, hone, ?_⟩
    · exact List.append_nil _
    · rw [Scanner.answer, List.flatMap_singleton, hsame, h.reports_next, hone]
    · rw [Scanner.answer, hsame]
      exact congrArg some htoken
  | drain =>
    -- All that is left is handed out, with the end mark behind it.
    obtain ⟨htokens, hreports, hdrain, hzero⟩ := h.drain
    refine ⟨_, hdrain, ?_, ?_, hzero, ?_⟩
    · rw [if_pos nofun, Scanner.answer, htokens, ← List.map_append, firsts_append_drop]
    · rw [Scanner.answer, hreports, ← List.flatMap_append, List.take_append_drop, hzero,
        List.take_of_length_le (by omega)]
    · rw [Scanner.answer, ← List.head?_map, htokens, nth]
      -- The first token of a drain is the next one, or the end mark if none is left.
      by_cases hn : n < ls.length
      · rw [List.drop_eq_getElem_cons hn, List.getElem?_eq_getElem hn]
        rfl
      · rw [List.drop_eq_nil_of_le (Nat.le_of_not_lt hn), List.getElem?_eq_none (Nat.le_of_not_lt hn)]
        rfl

/-- After some of the answers to a sequence of calls the scanner stands behind what was handed out, and the
other answers are its own. -/
theorem answers (h : s.Stands ls last n) : ∀ (front rest : List Answer) (cs : List Call),
    s.answers cs = front ++ rest →
      ∃ s' m, Scanner.Stands ls last s' m ∧ rest = s'.answers (rest.map Prod.fst)
        ∧ (firsts ls last n).map (·.token) ++ handedOut front = (firsts ls last m).map (·.token)
        ∧ (ls.take (n + s.held)).flatMap (·.reports) ++ reported front
          = (ls.take (m + s'.held)).flatMap (·.reports)
        ∧ s'.held = (front.getLast?.map fun a => if a.1 = .peek then 1 else 0).getD s.held := by
  intro front
  -- By induction on the answers that lie behind.
  induction front generalizing s n with
  | nil =>
    intro rest cs hcs
    refine ⟨s, n, h, ?_, List.append_nil _, List.append_nil _, rfl⟩
    rw [← List.nil_append rest, ← hcs, map_fst_answers]
  | cons a front ih =>
    intro rest cs hcs
    cases cs with
    | nil => exact nomatch hcs
    | cons c cs =>
      obtain ⟨rfl, hbehind⟩ := List.cons.inj hcs
      -- One call, and the others from where it leaves the scanner.
      obtain ⟨k, hstands, htokens, hreports, hheld, -⟩ := h.answer c
      obtain ⟨s', m, hs', hrest, htokens', hreports', hheld'⟩ := ih hstands rest cs hbehind
      refine ⟨s', m, hs', hrest, ?_, ?_, ?_⟩
      · rw [← htokens', ← htokens, List.append_assoc]
        rfl
      · rw [← hreports', ← hreports, List.append_assoc]
        rfl
      -- The last call decides what is held back.
      · rw [hheld', hheld, List.getLast?_cons]
        cases front.getLast? <;> rfl

end Stands

/-- Calls that only look hand out nothing. -/
private theorem handedOut_of_peeks {as : List Answer} (h : ∀ a ∈ as, a.1 = .peek) : handedOut as = [] := by
  rw [handedOut, List.flatMap_eq_nil_iff]
  intro a ha
  exact if_neg (not_not_intro (h a ha))

/-- Looking ahead changes nothing.  Whatever a scanner at the beginning of a text was asked for, in any
order: the tokens handed out are those that a scanner without lookahead hands out, from the first one on,
followed only by the end mark; a look shows the token that the next call hands out first, whatever call that
is and however often the scanner was asked to look in between; and the reports made are those of the tokens
scanned so far, each made once and in order. -/
theorem answers_transparent (file : Nat) (contents : Text) (calls : List Call) :
    ∃ ls last, (start file contents).drain.1 = ls ++ [last]
      ∧ last.token.kind = .eof ∧ (∀ l ∈ ls, l.token.kind ≠ .eof)
      ∧ (let given := (start file contents).answers calls
        handedOut given <+: (ls ++ [last]).map (·.token)
            ++ List.replicate (handedOut given).length last.token
          ∧ reported given = ((ls ++ [last]).take (scannedBy given)).flatMap (·.reports)
          ∧ ∀ front shown between c out rest,
            given = front ++ (.peek, shown) :: (between ++ (c, out) :: rest) →
            (∀ a ∈ between, a.1 = .peek) →
              ∃ token, shown.map (·.token) = [token] ∧ out.head?.map (·.token) = some token) := by
  obtain ⟨ls, last, hdrain, hstart⟩ := start_stands file contents
  refine ⟨ls, last, hdrain, hstart.last_kind, hstart.kinds, ?_⟩
  intro given
  -- All calls together, from the beginning on.
  obtain ⟨s', m, hs', -, htokens, hreports, hheld⟩ :=
    hstart.answers given [] calls (List.append_nil _).symm
  rw [firsts_zero, List.map_nil, List.nil_append] at htokens
  have hcount : (handedOut given).length = m := by rw [htokens, List.length_map, length_firsts]
  refine ⟨?_, ?_, ?_⟩
  -- The tokens handed out are the first ones, with end marks behind the last.
  · rw [hcount, htokens, ← List.map_replicate, ← List.map_append]
    exact (firsts_begins ls last m).map _
  -- Whether a token is held back depends on the last call.
  · have hheld' : s'.held = if given.getLast?.map Prod.fst = some .peek then 1 else 0 := by
      rw [hheld]
      cases given.getLast? with
      | none => rfl
      | some a => simp
    -- The end mark has no reports.
    have htake : ((ls ++ [last]).take (scannedBy given)).flatMap (·.reports)
        = (ls.take (scannedBy given)).flatMap (·.reports) := by
      rw [List.take_append, List.flatMap_append]
      cases scannedBy given - ls.length with
      | zero => simp
      | succ k => simp [hstart.last_reports]
    rw [htake, scannedBy, hcount, ← hheld', ← hreports]
    rfl
  · intro front shown between c out rest hgiven hpeeks
    -- The scanner at the look, and the scanner at the call that hands out next.
    obtain ⟨s₁, n₁, hs₁, hrest₁, htokens₁, -⟩ := hstart.answers front _ calls hgiven
    obtain ⟨s₂, n₂, hs₂, hrest₂, htokens₂, -⟩ := hstart.answers (front ++ (.peek, shown) :: between)
      ((c, out) :: rest) calls (by rw [List.append_assoc]; exact hgiven)
    -- Nothing is handed out in between, so both scanners stand at the same token.
    have hn : n₂ = n₁ := by
      have hnothing : handedOut ((.peek, shown) :: between) = [] :=
        handedOut_of_peeks (List.forall_mem_cons.2 ⟨rfl, hpeeks⟩)
      have hsame : handedOut (front ++ (.peek, shown) :: between) = handedOut front := by
        rw [handedOut, List.flatMap_append, ← handedOut, ← handedOut, hnothing, List.append_nil]
      have hlength := congrArg List.length (htokens₂.symm.trans ((congrArg _ hsame).trans htokens₁))
      simpa using hlength
    subst hn
    -- Both show the token at that place first.
    have hshown : shown = (s₁.answer .peek).1 := congrArg Prod.snd (List.cons.inj hrest₁).1
    have hout₂ : out = (s₂.answer c).1 := congrArg Prod.snd (List.cons.inj hrest₂).1
    obtain ⟨_, -, -, -, -, hfirst₁⟩ := hs₁.answer .peek
    obtain ⟨_, -, -, -, -, hfirst₂⟩ := hs₂.answer c
    refine ⟨_, ?_, hout₂ ▸ hfirst₂⟩
    rw [hshown]
    exact congrArg (fun t => [t]) (Option.some.inj hfirst₁)

/-- Looking twice, and asking on behind the end. -/
example : (handedOut ((start 0 "( )").answers [.peek, .peek, .next, .next, .peek, .next, .next])).map (·.kind)
    = [.symbol .lParen, .symbol .rParen, .eof, .eof] := by cbv

end Scanner

end AisScript
