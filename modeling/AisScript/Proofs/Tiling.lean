import AisScript.Proofs.Lexing

/-!
# Tokens tile their source

The spans of the tokens lie in the source one behind the other, and what they leave out carries no
meaning: it is blank or part of a comment.  A scanner that hands out one token after the other comes to
the end mark after finitely many steps, and every token it could not make sense of has an error at
exactly the bytes of that token.

* `gapLength_spaced`        the bytes in front of a token are blanks and comments
* `Scanned.Fits`            a token ends inside the text, and an invalid one is reported where it stands
* `Tiling`                  tokens that tile a text from an offset on
* `Scanner.Drains`          handing out tokens one by one up to the end mark
* `drain_tiles`             every text is tiled by the tokens that are handed out
-/

namespace AisScript

open Text (byte isDigit)

/-! ## What stands between tokens -/

/-- The bytes from `j` up to `stop` are a comment: they begin with `#`, hold no newline, and a newline or
the end of the text follows them. -/
structure IsComment (contents : Text) (j stop : Nat) : Prop where
  opens : contents[j]? = some (byte '#')
  before : j < stop
  oneLine : ∀ k, j ≤ k → k < stop → contents[k]? ≠ some 0x0A
  closes : stop = contents.length ∨ contents[stop]? = some 0x0A

/-- Comments are found where they stand in a longer text. -/
private theorem IsComment.of_drop {contents : Text} {o j stop : Nat} (ho : o ≤ contents.length)
    (h : IsComment (contents.drop o) j stop) : IsComment contents (o + j) (o + stop) where
  opens := by rw [← List.getElem?_drop]; exact h.opens
  before := by have := h.before; omega
  oneLine := by
    intro k hj hk
    -- A place in the comment is one behind the offset.
    obtain ⟨i, rfl⟩ := Nat.exists_eq_add_of_le (show o ≤ k by omega)
    rw [← List.getElem?_drop]
    exact h.oneLine i (by omega) (by omega)
  closes := by
    -- The comment ends with the text, or with a line.
    rcases h.closes with hend | hline
    · rw [List.length_drop] at hend
      exact .inl (by omega)
    · exact .inr (by rw [← List.getElem?_drop]; exact hline)

/-- A byte that is blank, or that lies in a comment between two offsets. -/
def SpacedAt (contents : Text) (lo hi i : Nat) : Prop :=
  (∃ b, contents[i]? = some b ∧ isBlank b = true)
    ∨ ∃ j stop, lo ≤ j ∧ j ≤ i ∧ i < stop ∧ stop ≤ hi ∧ IsComment contents j stop

/-- A comment goes on up to its line's end, and the gap goes on behind it. -/
private theorem gapLength_comment (t : Text) :
    ∃ k, k ≤ t.length ∧ (∀ i, i < k → t[i]? ≠ some 0x0A) ∧ (k = t.length ∨ t[k]? = some 0x0A)
      ∧ gapLength true t = k + gapLength false (t.drop k) := by
  -- By induction on the bytes of the comment.
  induction t with
  | nil => exact ⟨0, Nat.le_refl 0, (by simp), .inl rfl, by simp [gapLength]⟩
  | cons b t ih =>
    -- The line ends here, or the comment goes on.
    by_cases hb : b = 0x0A
    · subst hb
      exact ⟨0, Nat.zero_le _, (by simp), .inr rfl, by rw [gapLength]; simp⟩
    · obtain ⟨k, hk, hline, hend, hgap⟩ := ih
      -- No byte of it is a newline.
      have hone : ∀ i, i < k + 1 → (b :: t)[i]? ≠ some 0x0A := by
        intro i hi
        cases i with
        | zero => simpa using hb
        | succ i => simpa using hline i (by omega)
      -- It ends where the comment behind its first byte ends.
      have hstop : k + 1 = (b :: t).length ∨ (b :: t)[k + 1]? = some 0x0A := by
        simpa using hend
      have hlen : gapLength true (b :: t) = k + 1 + gapLength false ((b :: t).drop (k + 1)) := by
        rw [gapLength, if_neg hb, hgap, List.drop_succ_cons]
        omega
      exact ⟨k + 1, Nat.succ_le_succ hk, hone, hstop, hlen⟩

/-- A mark and what follows it up to the end of its line. -/
private theorem IsComment.of_mark {t : Text} {k : Nat} (hline : ∀ i, i < k → t[i]? ≠ some 0x0A)
    (hend : k = t.length ∨ t[k]? = some 0x0A) : IsComment (byte '#' :: t) 0 (k + 1) where
  opens := rfl
  before := Nat.succ_pos k
  oneLine := by
    intro m _ hm
    cases m with
    | zero => simp [byte]
    | succ m => simpa using hline m (by omega)
  closes := by simpa using hend

/-- A byte further on is spaced if it is spaced in the text from there on. -/
private theorem SpacedAt.of_drop {contents : Text} {o hi i : Nat} (ho : o ≤ contents.length)
    (h : SpacedAt (contents.drop o) 0 hi i) : SpacedAt contents o (o + hi) (o + i) := by
  rcases h with ⟨b, hb, hblank⟩ | ⟨j, stop, _, hj, hi, hstop, hcomment⟩
  · rw [List.getElem?_drop] at hb
    exact .inl ⟨b, hb, hblank⟩
  · exact .inr ⟨o + j, o + stop, by omega, by omega, by omega, by omega, hcomment.of_drop ho⟩

/-- The comment may begin further in front. -/
theorem SpacedAt.mono {contents : Text} {lo lo' hi i : Nat} (hle : lo' ≤ lo)
    (h : SpacedAt contents lo hi i) : SpacedAt contents lo' hi i := by
  rcases h with hblank | ⟨j, stop, hlo, hj, hi, hstop, hcomment⟩
  · exact .inl hblank
  · exact .inr ⟨j, stop, by omega, hj, hi, hstop, hcomment⟩

/-- The bytes in front of a token are blanks and comments, and they end inside the text. -/
theorem gapLength_spaced (t : Text) :
    gapLength false t ≤ t.length ∧ ∀ i, i < gapLength false t → SpacedAt t 0 (gapLength false t) i := by
  -- A comment skips many bytes at once, so the induction is on the length.
  induction hn : t.length using Nat.strongRecOn generalizing t with
  | ind n ih =>
    cases t with
    | nil =>
      rw [gapLength]
      exact ⟨Nat.zero_le _, by simp⟩
    | cons b t =>
      rw [List.length_cons] at hn
      rw [gapLength]
      -- A blank is passed over alone.
      by_cases hblank : isBlank b = true
      · rw [if_pos hblank]
        obtain ⟨hle, hall⟩ := ih t.length (by omega) t rfl
        refine ⟨by omega, ?_⟩
        intro i hi
        cases i with
        | zero => exact .inl ⟨b, rfl, hblank⟩
        | succ i =>
          -- Places behind it are places in the rest.
          have hrest : SpacedAt ((b :: t).drop 1) 0 (gapLength false t) i := hall i (by omega)
          have hhere := (hrest.of_drop (by simp)).mono (Nat.zero_le 1)
          rwa [Nat.add_comm 1, Nat.add_comm 1] at hhere
      · rw [if_neg hblank]
        -- A comment is passed over as a whole.
        by_cases hb : b = byte '#'
        · rw [if_pos hb]
          obtain ⟨k, hk, hline, hend, hgap⟩ := gapLength_comment t
          have hdrop : (t.drop k).length < n := by rw [List.length_drop]; omega
          obtain ⟨hle, hall⟩ := ih _ hdrop (t.drop k) rfl
          rw [List.length_drop] at hle
          rw [hgap]
          refine ⟨by omega, ?_⟩
          intro i hi
          by_cases hin : i < k + 1
          · -- inside the comment that begins here
            have hcomment : IsComment (b :: t) 0 (k + 1) := hb ▸ IsComment.of_mark hline hend
            exact .inr ⟨0, k + 1, Nat.le_refl 0, Nat.zero_le i, hin, by omega, hcomment⟩
          · -- behind it
            obtain ⟨m, rfl⟩ := Nat.exists_eq_add_of_le (show k + 1 ≤ i by omega)
            have hrest : SpacedAt ((b :: t).drop (k + 1)) 0 (gapLength false (t.drop k)) m :=
              hall m (by omega)
            have hhere := (hrest.of_drop (by simp; omega)).mono (Nat.zero_le (k + 1))
            rwa [Nat.add_right_comm k 1] at hhere
        -- Any other byte begins a token.
        · rw [if_neg hb]
          exact ⟨Nat.zero_le _, by simp⟩

/-! ## Single tokens -/

/-- A character does not go beyond the text. -/
private theorem glyphAt_fits (b : UInt8) (t : Text) : (Text.glyphAt b t).2 ≤ t.length := by
  unfold Text.glyphAt
  grind

/-- A name does not go beyond the text. -/
private theorem nameLength_le (t : Text) : nameLength t ≤ t.length := by
  -- A glyph takes several bytes at once, so the induction is on the length.
  induction hn : t.length using Nat.strongRecOn generalizing t with
  | ind n ih =>
    cases t with
    | nil =>
      rw [nameLength]
      exact Nat.zero_le n
    | cons b t =>
      rw [List.length_cons] at hn
      rw [nameLength]
      -- An ASCII byte goes on with the name if it is of a name.
      split
      · split
        · have := ih t.length (by omega) t rfl
          omega
        · exact Nat.zero_le n
      -- A glyph goes on with the name if it is a letter, and it fits into the text.
      · have hfits := glyphAt_fits b t
        dsimp only
        split
        · have hrest := ih (t.drop (Text.glyphAt b t).2).length (by rw [List.length_drop]; omega) _ rfl
          rw [List.length_drop] at hrest
          omega
        · exact Nat.zero_le n

/-- The body of a string literal does not go beyond the text. -/
private theorem StringBody.size_read_le (quote : UInt8) (file o : Nat) (t : Text) :
    (StringBody.read quote file o t).size ≤ t.length := by
  fun_induction StringBody.read quote file o t <;>
    simp only [StringBody.push, StringBody.reject, List.length_cons, List.length_nil] at * <;> omega

/-- A scanned token ends inside the text behind its first byte, and an invalid one has an error at
exactly its bytes. -/
structure Scanned.Fits (s : Scanned) (p : Place) (t : Text) : Prop where
  inside : s.extra ≤ t.length
  reported : s.kind = .invalid →
    ∃ d ∈ s.reports, d.severity = .error ∧ d.span = p.span (1 + s.extra)

namespace Scanned.Fits

/-- A malformed token. -/
theorem bad (p : Place) (code : Code) {extra : Nat} {t : Text} (h : extra ≤ t.length) (message : Text) :
    (Scanned.bad p code extra message).Fits p t :=
  ⟨h, fun _ => ⟨_, List.mem_singleton_self _, rfl, rfl⟩⟩

/-- A token that is not malformed. -/
private theorem valid {s : Scanned} (p : Place) {t : Text} (h : s.extra ≤ t.length)
    (hkind : s.kind ≠ .invalid) : s.Fits p t := ⟨h, fun hinvalid => absurd hinvalid hkind⟩

/-- A name or keyword. -/
theorem name (p : Place) (b : UInt8) (t : Text) : (scanName p b t).Fits p t := by
  have hglyph := glyphAt_fits b t
  have hname := nameLength_le (t.drop (Text.glyphAt b t).2)
  rw [List.length_drop] at hname
  unfold scanName
  dsimp only
  split
  · exact bad p _ hglyph _
  · have hextra : (Text.glyphAt b t).2 + nameLength (t.drop (Text.glyphAt b t).2) ≤ t.length := by omega
    split <;> exact valid p hextra nofun

/-- The end of a number. -/
theorem finishNumber (p : Place) (kind : Token.Kind) (hkind : kind ≠ .invalid) {extra : Nat} {t : Text}
    (h : extra ≤ t.length) : (finishNumber p kind extra t).Fits p t := by
  have hglued : ((t.drop extra).takeWhile isNameByte).length ≤ (t.drop extra).length :=
    (List.takeWhile_prefix _).length_le
  rw [List.length_drop] at hglued
  unfold AisScript.finishNumber
  split
  · exact valid p h hkind
  · exact bad p _ (by omega) _

/-- The exponent of a number. -/
theorem exponent (p : Place) (kind : Token.Kind) (hkind : kind ≠ .invalid) {extra : Nat} {t : Text}
    (h : extra ≤ t.length) : (scanExponent p kind extra t).Fits p t := by
  unfold scanExponent
  split
  -- There is a byte that may be the letter of an exponent.
  · rename_i e rest hrest
    have hlen := congrArg List.length hrest
    rw [List.length_drop, List.length_cons] at hlen
    split
    · extract_lets sign
      -- The digits fit into what is behind the sign.
      have hdigits : ((rest.drop sign).takeWhile isDigit).length ≤ (rest.drop sign).length :=
        (List.takeWhile_prefix _).length_le
      rw [List.length_drop] at hdigits
      split
      · exact bad p _ (by omega) _
      · rename_i digits hne
        -- A digit behind the sign: the sign was there.
        have hpos : 0 < ((rest.drop sign).takeWhile isDigit).length := List.length_pos_iff.2 hne
        exact finishNumber p .float nofun (by omega)
    -- It is not the letter, or there is no byte, so the number ends here.
    · exact finishNumber p kind hkind h
  · exact finishNumber p kind hkind h

/-- A number. -/
theorem number (p : Place) (b : UInt8) (t : Text) : (scanNumber p b t).Fits p t := by
  -- The digits in front fit into the text.
  have hwhole : (t.takeWhile isDigit).length ≤ t.length := (List.takeWhile_prefix _).length_le
  unfold scanNumber
  extract_lets isHex whole
  split
  -- A mark of hexadecimal digits, and the digits behind it.
  · rename_i hhex
    have hpos : 1 ≤ t.length := by
      cases t with
      | nil => exact nomatch hhex
      | cons x t => simp
    have hdigits : ((t.drop 1).takeWhile isHexDigit).length ≤ (t.drop 1).length :=
      (List.takeWhile_prefix _).length_le
    rw [List.length_drop] at hdigits
    split
    · exact bad p _ hpos _
    · exact finishNumber p .int nofun (by omega)
  -- Digits in front, perhaps with a fraction and an exponent behind them.
  · split
    · rename_i point d rest hrest
      have hlen := congrArg List.length hrest
      rw [List.length_drop, List.length_cons, List.length_cons] at hlen
      have hdigits : (rest.takeWhile isDigit).length ≤ rest.length := (List.takeWhile_prefix _).length_le
      -- A digit behind the point makes it a fraction.
      split
      · exact exponent p .float nofun (by omega)
      · exact exponent p .int nofun hwhole
    · exact exponent p .int nofun hwhole

/-- A string literal: besides the reports of its escapes, the one about the whole literal. -/
theorem string (p : Place) (quote : UInt8) (t : Text) : (scanString p quote t).Fits p t := by
  have hsize := StringBody.size_read_le quote p.file (p.offset + 1) t
  unfold scanString
  dsimp only
  split
  · exact valid p hsize nofun
  · exact ⟨hsize, fun _ => ⟨_, List.mem_append_right _ (List.mem_singleton_self _), rfl, rfl⟩⟩
  · exact ⟨hsize, fun _ => ⟨_, List.mem_append_right _ (List.mem_singleton_self _), rfl, rfl⟩⟩

/-- A code literal. -/
theorem code (p : Place) (t : Text) : (scanCode p t).Fits p t := by
  have hbody : (t.takeWhile (· ≠ codeMark)).length ≤ t.length := (List.takeWhile_prefix _).length_le
  unfold scanCode
  dsimp only
  split
  · rename_i hlt
    exact valid p hlt nofun
  · exact bad p _ hbody _

/-- An operator or punctuation mark. -/
theorem symbol (p : Place) (b : UInt8) (t : Text) : (scanSymbol p b t).Fits p t := by
  unfold scanSymbol
  cases t with
  -- Only one byte is left.
  | nil =>
    dsimp only
    split
    · exact valid p (Nat.le_refl 0) nofun
    · exact bad p _ (Nat.le_refl 0) _
  | cons c t =>
    dsimp only
    -- Two bytes make a symbol, or the first one does, or none.
    split
    · exact valid p (by simp) nofun
    · split
      · exact valid p (Nat.zero_le _) nofun
      · exact bad p _ (Nat.zero_le _) _

/-- Whatever begins with a given byte. -/
theorem head (p : Place) (b : UInt8) (t : Text) : (scanHead p b t).Fits p t := by
  unfold scanHead
  split
  · exact name p b t
  · split
    · exact number p b t
    · split
      · exact string p b t
      · split
        · exact code p t
        · exact symbol p b t

end Scanned.Fits

/-! ## Whole texts -/

/-- Whether a span holds the byte at an offset. -/
def Span.Holds (s : Span) (i : Nat) : Prop := s.start ≤ i ∧ i < s.stop

/-- No token holds the byte at an offset. -/
def Uncovered (ls : List Lexeme) (i : Nat) : Prop := ∀ l ∈ ls, ¬ l.token.span.Holds i

/-- Tokens that tile a file's contents from an offset on. -/
structure Tiling (file : Nat) (contents : Text) (o : Nat) (ls : List Lexeme) : Prop where
  /-- No token is an end mark. -/
  kinds : ∀ l ∈ ls, l.token.kind ≠ .eof
  /-- Every token holds at least one byte, and all its bytes are in the file. -/
  spans : ∀ l ∈ ls, l.token.span.file = file ∧ o ≤ l.token.span.start
    ∧ l.token.span.start < l.token.span.stop ∧ l.token.span.stop ≤ contents.length
  /-- A token begins where those in front of it have ended. -/
  ordered : ls.Pairwise fun l l' => l.token.span.stop ≤ l'.token.span.start
  /-- A byte of no token is blank or part of a comment, no byte of which is one of a token. -/
  rest : ∀ i, o ≤ i → i < contents.length → Uncovered ls i →
    (∃ b, contents[i]? = some b ∧ isBlank b = true)
      ∨ ∃ j stop, o ≤ j ∧ j ≤ i ∧ i < stop ∧ IsComment contents j stop
        ∧ ∀ k, j ≤ k → k < stop → Uncovered ls k
  /-- A token that could not be made sense of is reported. -/
  reported : ∀ l ∈ ls, l.token.kind = .invalid →
    ∃ d ∈ l.reports, d.severity = .error ∧ d.span = l.token.span

namespace Tiling

variable {file : Nat} {contents : Text} {o : Nat}

/-- No tokens, if the rest of the text is one gap. -/
theorem nil (hle : o ≤ contents.length)
    (hgap : o + gapLength false (contents.drop o) = contents.length) : Tiling file contents o [] where
  kinds := nofun
  spans := nofun
  ordered := .nil
  rest := by
    intro i hoi hi _
    obtain ⟨m, rfl⟩ := Nat.exists_eq_add_of_le hoi
    have hspaced := ((gapLength_spaced (contents.drop o)).2 m (by omega)).of_drop hle
    rcases hspaced with hblank | ⟨j, stop, hlo, hj, hm, _, hcomment⟩
    · exact .inl hblank
    · exact .inr ⟨j, stop, hlo, hj, hm, hcomment, fun _ _ _ => nofun⟩
  reported := nofun

/-- A token behind a gap, and what tiles the text behind it. -/
theorem cons {l : Lexeme} {ls : List Lexeme} {p : Place} {extra : Nat} (hle : o ≤ contents.length)
    (hp : p = ⟨file, o + gapLength false (contents.drop o)⟩) (hspan : l.token.span = p.span (1 + extra))
    (hkind : l.token.kind ≠ .eof)
    (hreported : l.token.kind = .invalid →
      ∃ d ∈ l.reports, d.severity = .error ∧ d.span = l.token.span)
    (hin : p.offset + 1 + extra ≤ contents.length)
    (hrest : Tiling file contents (p.offset + 1 + extra) ls) : Tiling file contents o (l :: ls) := by
  subst hp
  -- The token stands right behind the gap.
  have hfile : l.token.span.file = file := by rw [hspan]; rfl
  have hstart : l.token.span.start = o + gapLength false (contents.drop o) := by rw [hspan]; rfl
  have hstop : l.token.span.stop = o + gapLength false (contents.drop o) + (1 + extra) := by
    rw [hspan]; rfl
  dsimp only at hin hrest
  refine ⟨?_, ?_, ?_, ?_, ?_⟩
  -- No token is the end mark.
  · intro l' hl'
    rcases List.mem_cons.1 hl' with rfl | hl'
    · exact hkind
    · exact hrest.kinds l' hl'
  -- Every token stands in the contents, and the others behind this one.
  · intro l' hl'
    rcases List.mem_cons.1 hl' with rfl | hl'
    · exact ⟨hfile, by omega, by omega, by omega⟩
    · obtain ⟨hf, ho, hlt, hend⟩ := hrest.spans l' hl'
      exact ⟨hf, by omega, hlt, hend⟩
  -- The others begin behind this token.
  · apply List.Pairwise.cons _ hrest.ordered
    intro l' hl'
    have := (hrest.spans l' hl').2.1
    omega
  · intro i hoi hi huncovered
    by_cases hgap : i < o + gapLength false (contents.drop o)
    · -- in the gap: a comment of the gap ends in front of this token and of all others
      obtain ⟨m, rfl⟩ := Nat.exists_eq_add_of_le hoi
      have hspaced := ((gapLength_spaced (contents.drop o)).2 m (by omega)).of_drop hle
      rcases hspaced with hblank | ⟨j, stop, hlo, hj, hm, hlimit, hcomment⟩
      · exact .inl hblank
      · refine .inr ⟨j, stop, hlo, hj, hm, hcomment, ?_⟩
        intro k _ hk l' hl' hholds
        have hfrom := hholds.1
        rcases List.mem_cons.1 hl' with rfl | hl'
        · omega
        · have := (hrest.spans l' hl').2.1
          omega
    · -- behind the gap, and so behind this token
      have hbehind : o + gapLength false (contents.drop o) + 1 + extra ≤ i := by
        have hnot := huncovered l (List.mem_cons_self ..)
        by_cases hlt : i < o + gapLength false (contents.drop o) + (1 + extra)
        · exact absurd ⟨by omega, by omega⟩ hnot
        · omega
      have htail : Uncovered ls i := fun l' hl' => huncovered l' (List.mem_cons_of_mem _ hl')
      -- What is found behind this token is found by the rest.
      rcases hrest.rest i hbehind hi htail with hblank | ⟨j, stop, hlo, hj, hm, hcomment, hall⟩
      · exact .inl hblank
      · refine .inr ⟨j, stop, by omega, hj, hm, hcomment, ?_⟩
        intro k hjk hk l' hl' hholds
        have hto := hholds.2
        rcases List.mem_cons.1 hl' with rfl | hl'
        · omega
        · exact hall k hjk hk l' hl' hholds
  -- Invalid tokens are reported.
  · intro l' hl'
    rcases List.mem_cons.1 hl' with rfl | hl'
    · exact hreported
    · exact hrest.reported l' hl'

/-- What is lexed from an offset on tiles the contents from there on, and the end mark behind it is
empty and stands at their end. -/
theorem lexemesFrom (file : Nat) (contents : Text) {o : Nat} (hle : o ≤ contents.length) :
    ∃ ls, AisScript.lexemesFrom ⟨file, o⟩ (contents.drop o) = ls ++ [.endMark ⟨file, contents.length⟩]
      ∧ Tiling file contents o ls := by
  -- By strong induction on what is left.
  induction hn : contents.length - o using Nat.strongRecOn generalizing o with
  | ind n ih =>
    have hgap := (gapLength_spaced (contents.drop o)).1
    rw [List.length_drop] at hgap
    cases hdrop : (contents.drop o).drop (gapLength false (contents.drop o)) with
    -- Nothing is left behind the gap, which ends with the contents.
    | nil =>
      have hlen := congrArg List.length hdrop
      rw [List.length_drop, List.length_drop, List.length_nil] at hlen
      have hend : o + gapLength false (contents.drop o) = contents.length := by omega
      refine ⟨[], ?_, nil hle hend⟩
      rw [(lexemesFrom_of_nil ⟨file, o⟩ hdrop).1]
      simp only [scanNext, hdrop, hend, List.nil_append]
    -- A token is scanned, and the rest is tiled by what is scanned behind it.
    | cons b rest =>
      have hlen := congrArg List.length hdrop
      rw [List.length_drop, List.length_drop, List.length_cons] at hlen
      let p : Place := ⟨file, o + gapLength false (contents.drop o)⟩
      let s := scanHead p b rest
      have hfits : s.Fits p rest := Scanned.Fits.head p b rest
      have hhonest : s.Honest := Scanned.Honest.head p b rest
      -- The token ends inside the contents.
      have hin : p.offset + 1 + s.extra ≤ contents.length := by
        have := hfits.inside
        dsimp only [p] at *
        omega
      have hbehind : contents.drop (p.offset + 1 + s.extra) = rest.drop s.extra := by
        rw [← List.drop_drop, ← List.drop_drop, ← List.drop_drop, hdrop]
        rfl
      obtain ⟨ls, hls, htiles⟩ := ih (contents.length - (p.offset + 1 + s.extra)) (by
        dsimp only [p]; omega) hin rfl
      -- The first lexeme is the token, and the others begin where it ends.
      have hstep : AisScript.lexemesFrom ⟨file, o⟩ (contents.drop o)
          = .ofScanned p b rest s
            :: AisScript.lexemesFrom ⟨file, p.offset + 1 + s.extra⟩ (rest.drop s.extra) := by
        rw [(lexemesFrom_of_cons ⟨file, o⟩ hdrop).1]
        simp only [scanNext, hdrop]
        rfl
      rw [hbehind] at hls
      refine ⟨.ofScanned p b rest s :: ls, by rw [hstep, hls]; rfl, ?_⟩
      exact cons hle rfl rfl hhonest.kind_ne hfits.reported hin htiles

end Tiling

/-! ## Handing out tokens one by one -/

/-- Handing out one token after the other: what comes up to and including the first end mark, and the
scanner that is left. -/
inductive Scanner.Drains : Scanner → List Lexeme → Scanner → Prop where
  | last {s s' : Scanner} {l : Lexeme} (hnext : s.next = (l, s')) (hkind : l.token.kind = .eof) :
      Drains s [l] s'
  | more {s s' s'' : Scanner} {l : Lexeme} {ls : List Lexeme} (hnext : s.next = (l, s'))
      (hkind : l.token.kind ≠ .eof) (hrest : Drains s' ls s'') : Drains s (l :: ls) s''

namespace Scanner

/-- What is left after everything was handed out, when the last token is known. -/
private theorem drain_of_concat {file o : Nat} {t : Text} (ls : List Lexeme) {last : Lexeme}
    (h : lexemesFrom ⟨file, o⟩ t = ls ++ [last]) :
    drain { place := ⟨file, o⟩, rest := t }
      = (ls ++ [last], { place := ⟨file, last.token.span.stop⟩, rest := [] }) := by
  simp only [drain, h, List.getLast?_concat]

/-- A scanner that has not looked ahead hands out the tokens of what is left one by one. -/
private theorem drains_drain (file o : Nat) (t : Text) :
    Drains { place := ⟨file, o⟩, rest := t } (drain { place := ⟨file, o⟩, rest := t }).1
      (drain { place := ⟨file, o⟩, rest := t }).2 := by
  -- By strong induction on what is left.
  induction hn : t.length using Nat.strongRecOn generalizing o t with
  | ind n ih =>
    cases hdrop : t.drop (gapLength false t) with
    -- Only the end mark is handed out.
    | nil =>
      obtain ⟨hone, hkind, _⟩ := lexemesFrom_of_nil ⟨file, o⟩ hdrop
      rw [drain_of_concat [] hone]
      apply Drains.last _ hkind
      simp only [next, scanNext, hdrop]
      rfl
    -- The first token is handed out, and the scanner goes on behind it.
    | cons b rest =>
      obtain ⟨hstep, ⟨s, hs, hkind, _⟩, hlt⟩ := lexemesFrom_of_cons ⟨file, o⟩ hdrop
      obtain ⟨ls, last, hrest, _⟩ := lexemesFrom_eq_concat (scanNext ⟨file, o⟩ t).2.1
        (scanNext ⟨file, o⟩ t).2.2
      have hfile : (scanNext ⟨file, o⟩ t).2.1 = ⟨file, (scanNext ⟨file, o⟩ t).2.1.offset⟩ := by
        simp only [scanNext, hdrop]
      have hcontinue := ih _ (hn ▸ hlt) (scanNext ⟨file, o⟩ t).2.1.offset _ rfl
      rw [hfile] at hrest
      rw [drain_of_concat ls hrest, ← hfile] at hcontinue
      rw [drain_of_concat (_ :: ls) (by rw [hstep, hfile, hrest]; rfl)]
      exact .more rfl (hkind ▸ hs.kind_ne) hcontinue

/-- Every text is tiled by the tokens that are handed out one by one: they come to an end with one end
mark, which is empty and stands behind the last byte; the others are not empty, lie in order and apart
from each other in the text, leave out nothing but blanks and comments, and each that is invalid has an
error at exactly its bytes. -/
theorem drain_tiles (file : Nat) (contents : Text) :
    ∃ ls last s', (start file contents).Drains (ls ++ [last]) s'
      ∧ (start file contents).drain = (ls ++ [last], s')
      ∧ last.token.kind = .eof ∧ last.token.span = .point file contents.length
      ∧ Tiling file contents 0 ls := by
  obtain ⟨ls, hls, htiles⟩ := Tiling.lexemesFrom file contents (Nat.zero_le _)
  have hdrain := drain_of_concat _ hls
  have hdrains := drains_drain file 0 contents
  rw [List.drop_zero] at hdrain
  rw [hdrain] at hdrains
  exact ⟨ls, _, _, hdrains, hdrain, rfl, rfl, htiles⟩

end Scanner

end AisScript
