import AisScript.Token.Lexer

/-!
# What lexing gives

Every token but the last is one that was scanned from at least one byte; the last is the end mark, and
no scanned token is one.  A scanned token that is invalid comes with a report, so a text that is read
without reports has none.

* `lexemesFrom_of_cons`, `lexemesFrom_of_nil`   one step of lexing
* `lexemes_eq_within`                           lexing that computes
* `Scanned.Honest`                              invalid tokens are reported
* `lexemesFrom_eq_concat`                       the tokens of a text
-/

namespace AisScript

/-! ## One step -/

/-- No scanned token is the end mark, and one that is invalid is reported. -/
structure Scanned.Honest (s : Scanned) : Prop where
  kind_ne : s.kind ≠ .eof
  reported : s.kind = .invalid → s.reports ≠ []

namespace Scanned.Honest

/-- A malformed token. -/
theorem bad (p : Place) (code : Code) (extra : Nat) (message : Text) :
    (Scanned.bad p code extra message).Honest := ⟨nofun, nofun⟩

/-- A name or keyword. -/
theorem name (p : Place) (b : UInt8) (t : Text) : (scanName p b t).Honest := by
  unfold scanName
  dsimp only
  split
  · exact bad ..
  · split <;> exact ⟨nofun, nofun⟩

/-- The end of a number. -/
theorem finishNumber (p : Place) (kind : Token.Kind) (heof : kind ≠ .eof) (hvalid : kind ≠ .invalid)
    (extra : Nat) (t : Text) : (finishNumber p kind extra t).Honest := by
  unfold AisScript.finishNumber
  split
  · exact ⟨heof, fun h => absurd h hvalid⟩
  · exact bad ..

/-- The exponent of a number. -/
theorem exponent (p : Place) (kind : Token.Kind) (heof : kind ≠ .eof) (hvalid : kind ≠ .invalid)
    (extra : Nat) (t : Text) : (scanExponent p kind extra t).Honest := by
  unfold scanExponent
  split
  · split
    · dsimp only
      split
      · exact bad ..
      · exact finishNumber p .float nofun nofun _ _
    · exact finishNumber p kind heof hvalid _ _
  · exact finishNumber p kind heof hvalid _ _

/-- A number. -/
theorem number (p : Place) (b : UInt8) (t : Text) : (scanNumber p b t).Honest := by
  unfold scanNumber
  extract_lets isHex whole
  split
  · split
    · exact bad ..
    · exact finishNumber p .int nofun nofun _ _
  · split
    · split
      · exact exponent p .float nofun nofun _ _
      · exact exponent p .int nofun nofun _ _
    · exact exponent p .int nofun nofun _ _

/-- A string literal. -/
theorem string (p : Place) (quote : UInt8) (t : Text) : (scanString p quote t).Honest := by
  unfold scanString
  dsimp only
  split
  · exact ⟨nofun, nofun⟩
  · exact ⟨nofun, fun _ => by simp⟩
  · exact ⟨nofun, fun _ => by simp⟩

/-- A code literal. -/
theorem code (p : Place) (t : Text) : (scanCode p t).Honest := by
  unfold scanCode
  dsimp only
  split
  · exact ⟨nofun, nofun⟩
  · exact bad ..

/-- An operator or punctuation mark. -/
theorem symbol (p : Place) (b : UInt8) (t : Text) : (scanSymbol p b t).Honest := by
  unfold scanSymbol
  dsimp only
  split
  · exact ⟨nofun, nofun⟩
  · split
    · exact ⟨nofun, nofun⟩
    · exact bad ..

/-- Whatever begins with a given byte. -/
theorem head (p : Place) (b : UInt8) (t : Text) : (scanHead p b t).Honest := by
  unfold scanHead
  split
  · exact name p b t
  · split
    · exact number p b t
    · split
      · exact string p b t
      · split
        · exact code p t
        · exact symbol p b t

end Scanned.Honest

/-- A token is scanned if there is a byte behind the gap, and what is left is lexed behind it. -/
theorem lexemesFrom_of_cons (p : Place) {t rest : Text} {b : UInt8}
    (h : t.drop (gapLength false t) = b :: rest) :
    lexemesFrom p t = (scanNext p t).1 :: lexemesFrom (scanNext p t).2.1 (scanNext p t).2.2
      ∧ (∃ s : Scanned, s.Honest ∧ (scanNext p t).1.token.kind = s.kind ∧ (scanNext p t).1.reports = s.reports)
      ∧ (scanNext p t).2.2.length < t.length := by
  -- A byte behind the gap is in the text, so the rest is shorter.
  have hlen := congrArg List.length h
  rw [List.length_drop, List.length_cons] at hlen
  refine ⟨?_, ⟨_, Scanned.Honest.head { p with offset := p.offset + gapLength false t } b rest, ?_, ?_⟩, ?_⟩
  -- The first token is the one that is scanned here.
  · rw [lexemesFrom]
    split
    · rename_i hnil
      cases h.symm.trans hnil
    · rename_i hcons
      obtain ⟨rfl, rfl⟩ := List.cons.inj (h.symm.trans hcons)
      simp only [scanNext, h]
  · simp only [scanNext, h]
    rfl
  · simp only [scanNext, h]
    rfl
  · simp only [scanNext, h, List.length_drop]
    omega

/-- The end mark is alone. -/
theorem lexemesFrom_of_nil (p : Place) {t : Text} (h : t.drop (gapLength false t) = []) :
    lexemesFrom p t = [(scanNext p t).1] ∧ (scanNext p t).1.token.kind = .eof
      ∧ (scanNext p t).1.reports = [] := by
  refine ⟨?_, ?_, ?_⟩
  · rw [lexemesFrom]
    split
    · simp only [scanNext, h]
    · rename_i hcons
      cases h.symm.trans hcons
  · simp only [scanNext, h]
    rfl
  · simp only [scanNext, h]
    rfl

/-! ## Known texts -/

/-- The length of a gap.  A comment ends at a newline, which is a blank itself, so this recursion takes a byte at
every step; it is structural and computes. -/
def gapCount : (inComment : Bool) → Text → Nat
  | _, [] => 0
  | true, b :: t => gapCount (b != 0x0A) t + 1
  | false, b :: t =>
    if isBlank b then gapCount false t + 1
    else if b = Text.byte '#' then gapCount true t + 1
    else 0

/-- It is the length of the gap. -/
private theorem gapLength_eq_gapCount (t : Text) (inComment : Bool) : gapLength inComment t = gapCount inComment t := by
  induction t generalizing inComment with
  | nil => cases inComment <;> rw [gapLength, gapCount]
  | cons b t ih =>
    cases inComment with
    | false => rw [gapLength, gapCount, ih, ih]
    | true =>
      rw [gapLength, gapCount]
      split
      case isTrue hb =>
        -- The newline ends the comment and is counted as a blank.
        subst hb
        rw [gapLength, if_pos (by decide), ih]
        rfl
      case isFalse hb => rw [ih, bne_iff_ne.2 hb]

/-- The first tokens of a text, up to the end mark.  This recursion is structural, so it computes. -/
def lexemesWithin : Nat → Place → Text → List Lexeme
  | 0, _, _ => []
  | steps + 1, p, t =>
    let gap := gapCount false t
    let start : Place := { p with offset := p.offset + gap }
    match t.drop gap with
    | [] => [.endMark start]
    | b :: rest =>
      let s := scanHead start b rest
      .ofScanned start b rest s ::
        lexemesWithin steps { start with offset := start.offset + 1 + s.extra } (rest.drop s.extra)

/-- More steps than bytes give all tokens. -/
private theorem lexemesFrom_eq_within {steps : Nat} (p : Place) {t : Text} (h : t.length < steps) :
    lexemesFrom p t = lexemesWithin steps p t := by
  -- By induction on the steps: either the end mark comes, or the rest is shorter.
  induction steps generalizing p t with
  | zero => exact absurd h (Nat.not_lt_zero _)
  | succ steps ih =>
    rw [lexemesWithin, ← gapLength_eq_gapCount]
    cases hdrop : t.drop (gapLength false t) with
    -- At the end, the only token is the end mark.
    | nil => rw [(lexemesFrom_of_nil p hdrop).1, scanNext, hdrop]
    | cons b rest =>
      -- A token in front, and fewer bytes behind it.
      obtain ⟨heq, -, hlt⟩ := lexemesFrom_of_cons p hdrop
      have hbehind : (scanNext p t).2.2.length < steps := by omega
      rw [heq, ih _ hbehind, scanNext, hdrop]

/-- The tokens of a file, computed. -/
theorem lexemes_eq_within (file : Nat) (contents : Text) :
    lexemes file contents = lexemesWithin (contents.length + 1) ⟨file, 0⟩ contents :=
  lexemesFrom_eq_within ⟨file, 0⟩ (Nat.lt_succ_self _)

/-! ## Whole texts -/

/-- A token that is no end mark, and that is reported if it is invalid. -/
def Lexeme.Honest (l : Lexeme) : Prop := l.token.kind ≠ .eof ∧ (l.token.kind = .invalid → l.reports ≠ [])

/-- The lexemes of a text: tokens that are reported where they are invalid, and the end mark. -/
theorem lexemesFrom_eq_concat (p : Place) (t : Text) :
    ∃ ls last, lexemesFrom p t = ls ++ [last] ∧ last.token.kind = .eof ∧ last.reports = []
      ∧ ∀ l ∈ ls, l.Honest := by
  -- By strong induction on the length of the text.
  induction hn : t.length using Nat.strongRecOn generalizing p t with
  | ind n ih =>
    cases hdrop : t.drop (gapLength false t) with
    -- Behind the last gap, there is only the end mark.
    | nil =>
      obtain ⟨heq, hkind, hreports⟩ := lexemesFrom_of_nil p hdrop
      exact ⟨[], _, heq, hkind, hreports, nofun⟩
    | cons b rest =>
      -- One token, and the tokens of a shorter rest.
      obtain ⟨heq, ⟨s, hs, hkind, hreports⟩, hlt⟩ := lexemesFrom_of_cons p hdrop
      obtain ⟨ls, last, hrest, hlast, hnone, hall⟩ := ih _ (hn ▸ hlt) (scanNext p t).2.1 _ rfl
      refine ⟨(scanNext p t).1 :: ls, last, by rw [heq, hrest]; rfl, hlast, hnone, ?_⟩
      -- The token is reported if it is invalid, and it is no end mark.
      intro l hl
      rcases List.mem_cons.1 hl with rfl | hl
      · refine ⟨hkind ▸ hs.kind_ne, ?_⟩
        rw [hkind, hreports]
        exact hs.reported
      · exact hall l hl

end AisScript
