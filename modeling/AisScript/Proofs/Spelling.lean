import AisScript.Proofs.Lexing

/-!
# Writing words

Lexing undoes writing.  A word is written by its spelling: a name, a number, a keyword or a symbol as it
is, a string between two quotation marks with some of its bytes as escapes, and code between two marks.
Words stand apart by blanks and by comments that end with their line.  Whatever escapes, quotation marks
and gaps are chosen, lexing gives back the kinds and the contents of the words and reports nothing.

A scanner stops where its word ends because the byte behind it, if there is one, is a blank or begins a
comment: all of these lie below every byte that could go on with a word.

* `Gap`                       blanks and comments
* `Escaped`                   the ways to write the contents of a string
* `Spelled`, `SpelledOut`     the ways to write a word, and words one behind the other
* `Spelled.scanHead_append`   one word is read to its end
* `lexemes_written`           words that are written are read
-/

namespace AisScript

open Text (byte isDigit)

/-! ## Ways of writing -/

/-- Blanks and comments, each comment up to the end of its line. -/
inductive Gap : Text → Prop where
  | nil : Gap []
  | blank {b : UInt8} {g : Text} (hb : isBlank b = true) (hg : Gap g) : Gap (b :: g)
  | comment {c g : Text} (hc : 0x0A ∉ c) (hg : Gap g) : Gap (byte '#' :: (c ++ 0x0A :: g))

/-- The letters of one-character escapes, with the bytes they stand for. -/
def letterEscapes : List (UInt8 × UInt8) :=
  [(byte 'n', 0x0A), (byte 't', 0x09), (byte 'r', 0x0D), (byte '0', 0x00), (0x5C, 0x5C), (0x22, 0x22),
    (0x27, 0x27)]

/-- The hexadecimal digits in order, with small and with capital letters. -/
def hexDigits : List Text := ["0123456789abcdef", "0123456789ABCDEF"]

/-- A hexadecimal digit of a given value. -/
def IsHexDigitOf (n : Nat) (c : UInt8) : Prop := ∃ digits ∈ hexDigits, digits[n]? = some c

/-- The ways to write one byte between two quotation marks. -/
inductive EscapedByte (quote : UInt8) : UInt8 → Text → Prop where
  | plain {b : UInt8} (hquote : b ≠ quote) (hline : b ≠ 0x0A) (hslash : b ≠ 0x5C) : EscapedByte quote b [b]
  | letter {b c : UInt8} (hc : (c, b) ∈ letterEscapes) : EscapedByte quote b [0x5C, c]
  | hex {b hi lo : UInt8} (hhi : IsHexDigitOf (b.toNat / 16) hi) (hlo : IsHexDigitOf (b.toNat % 16) lo) :
      EscapedByte quote b [0x5C, byte 'x', hi, lo]

/-- The ways to write bytes between two quotation marks. -/
inductive Escaped (quote : UInt8) : Text → Text → Prop where
  | nil : Escaped quote [] []
  | cons {b : UInt8} {bs w body : Text} (hb : EscapedByte quote b w) (hbs : Escaped quote bs body) :
      Escaped quote (b :: bs) (w ++ body)

/-- One decimal digit or more. -/
def IsNumeral (t : Text) : Prop := t ≠ [] ∧ ∀ b ∈ t, isDigit b = true

/-- An exponent: its letter, perhaps a sign, and digits. -/
inductive IsExponent : Text → Prop where
  | mk {e : UInt8} {sign digits : Text} (he : e = byte 'e' ∨ e = byte 'E')
      (hsign : sign = [] ∨ sign = [byte '+'] ∨ sign = [byte '-']) (hdigits : IsNumeral digits) :
      IsExponent (e :: (sign ++ digits))

/-- A number with a fraction, an exponent or both. -/
inductive IsFloat : Text → Prop where
  | fraction {whole digits : Text} (hwhole : IsNumeral whole) (hdigits : IsNumeral digits) :
      IsFloat (whole ++ byte '.' :: digits)
  | both {whole digits exponent : Text} (hwhole : IsNumeral whole) (hdigits : IsNumeral digits)
      (hexponent : IsExponent exponent) : IsFloat (whole ++ byte '.' :: (digits ++ exponent))
  | exponent {whole exponent : Text} (hwhole : IsNumeral whole) (hexponent : IsExponent exponent) :
      IsFloat (whole ++ exponent)

/-- The kind of a word, its contents, and a way to write it. -/
inductive Spelled : Token.Kind → Text → Text → Prop where
  | ident {b : UInt8} {t : Text} (hb : isNameStart b = true) (ht : ∀ c ∈ t, isNameByte c = true)
      (hfree : ∀ k : Keyword, k.spelling ≠ b :: t) : Spelled .ident (b :: t) (b :: t)
  | keyword (k : Keyword) : Spelled (.keyword k) k.spelling k.spelling
  | symbol (s : Symbol) : Spelled (.symbol s) s.spelling s.spelling
  | decimal {t : Text} (ht : IsNumeral t) : Spelled .int t t
  | hexadecimal {x : UInt8} {t : Text} (hx : x = byte 'x' ∨ x = byte 'X') (hne : t ≠ [])
      (ht : ∀ b ∈ t, isHexDigit b = true) : Spelled .int (byte '0' :: x :: t) (byte '0' :: x :: t)
  | float {t : Text} (ht : IsFloat t) : Spelled .float t t
  /-- The contents are already in composed canonical form. -/
  | string {quote : UInt8} {bytes body : Text} (hquote : quote = 0x22 ∨ quote = 0x27)
      (hbody : Escaped quote bytes body) (hcomposed : Text.compose bytes = bytes) :
      Spelled .string bytes (quote :: (body ++ [quote]))
  | code {t : Text} (ht : codeMark ∉ t) : Spelled .code t (codeMark :: (t ++ [codeMark]))

/-- Words written one behind the other, with a gap between any two of them. -/
inductive SpelledOut : List (Token.Kind × Text) → Text → Prop where
  | nil : SpelledOut [] []
  | single {k : Token.Kind} {x s : Text} (hs : Spelled k x s) : SpelledOut [(k, x)] s
  | cons {k : Token.Kind} {x s g t : Text} {w : Token.Kind × Text} {ws : List (Token.Kind × Text)}
      (hs : Spelled k x s) (hg : Gap g) (hne : g ≠ []) (ht : SpelledOut (w :: ws) t) :
      SpelledOut ((k, x) :: w :: ws) (s ++ (g ++ t))

/-! ## Gaps -/

/-- A comment is passed over up to the newline that ends it. -/
private theorem gapLength_line {c : Text} (hc : 0x0A ∉ c) (t : Text) :
    gapLength true (c ++ 0x0A :: t) = c.length + gapLength false (0x0A :: t) := by
  induction c with
  | nil =>
    rw [List.nil_append, gapLength, if_pos rfl, List.length_nil, Nat.zero_add]
  | cons b c ih =>
    obtain ⟨hb, hc⟩ := not_or.1 (mt List.mem_cons.2 hc)
    rw [List.cons_append, gapLength, if_neg (Ne.symm hb), ih hc, List.length_cons]
    omega

/-- A gap is passed over, and so is what else there is to pass over behind it. -/
private theorem Gap.gapLength_append {g : Text} (hg : Gap g) (t : Text) :
    gapLength false (g ++ t) = g.length + gapLength false t := by
  -- By induction on the gap, with one blank or one comment in front.
  induction hg with
  | nil => simp
  | blank hb _ ih =>
    rw [List.cons_append, gapLength, if_pos hb, ih, List.length_cons]
    omega
  | @comment c g hc _ ih =>
    have hmark : ¬isBlank (byte '#') = true := by decide
    -- The comment is passed over up to its line end, which is a blank.
    have hline : gapLength false (0x0A :: (g ++ t)) = gapLength false (g ++ t) + 1 := by
      rw [gapLength, if_pos (by decide)]
    rw [List.cons_append, List.append_assoc, List.cons_append, gapLength, if_neg hmark, if_pos rfl,
      gapLength_line hc, hline, ih]
    simp only [List.length_cons, List.length_append]
    omega

/-- What does not go on with a word: nothing, or a byte below all bytes that could. -/
def Parted (t : Text) : Prop := ∀ b ∈ t.head?, b.toNat ≤ 0x23

/-- Blanks lie below the mark of a comment. -/
private theorem toNat_le_of_isBlank {b : UInt8} (h : isBlank b = true) : b.toNat ≤ 0x23 := by
  simp only [isBlank, Bool.or_eq_true, Bool.and_eq_true, beq_iff_eq, decide_eq_true_eq,
    UInt8.le_iff_toNat_le] at h
  rcases h with rfl | ⟨_, h⟩
  · decide
  · exact Nat.le_trans h (by decide)

/-- A gap parts a word from whatever comes behind the gap. -/
theorem Gap.parted {g : Text} (hg : Gap g) (hne : g ≠ []) (t : Text) : Parted (g ++ t) := by
  cases hg with
  | nil => exact absurd rfl hne
  | blank hb _ =>
    rintro _ ⟨⟩
    exact toNat_le_of_isBlank hb
  | comment _ _ =>
    rintro _ ⟨⟩
    decide

/-! ## Numbers -/

/-- The bytes of names and numbers lie above what parts words. -/
private theorem le_toNat_of_isNameByte {b : UInt8} (h : isNameByte b = true) : 0x30 ≤ b.toNat := by
  simp only [isNameByte, isNameStart, isDigit, Bool.or_eq_true, Bool.and_eq_true, beq_iff_eq,
    decide_eq_true_eq, UInt8.le_iff_toNat_le] at h
  rcases h with ((rfl | ⟨h, _⟩) | ⟨h, _⟩) | ⟨h, _⟩
  · decide
  all_goals exact Nat.le_trans (by decide) h

/-- Names made of such bytes are ASCII. -/
private theorem lt_of_isNameByte {b : UInt8} (h : isNameByte b = true) : b < 0x80 := by
  simp only [isNameByte, isNameStart, isDigit, Bool.or_eq_true, Bool.and_eq_true, beq_iff_eq,
    decide_eq_true_eq, UInt8.le_iff_toNat_le] at h
  refine UInt8.lt_iff_toNat_lt.2 ?_
  rcases h with ((rfl | ⟨_, h⟩) | ⟨_, h⟩) | ⟨_, h⟩
  · decide
  all_goals exact Nat.lt_of_le_of_lt h (by decide)

/-- The decimal digits lie side by side. -/
private theorem toNat_of_isDigit {b : UInt8} (h : isDigit b = true) : 0x30 ≤ b.toNat ∧ b.toNat ≤ 0x39 := by
  simpa only [isDigit, Bool.and_eq_true, decide_eq_true_eq, UInt8.le_iff_toNat_le, UInt8.reduceToNat] using h

/-- A digit may stand in a name. -/
private theorem isNameByte_of_isDigit {b : UInt8} (h : isDigit b = true) : isNameByte b = true := by
  rw [isNameByte, h, Bool.or_true]

/-- A hexadecimal digit may stand in a name. -/
private theorem isNameByte_of_isHexDigit {b : UInt8} (h : isHexDigit b = true) : isNameByte b = true := by
  simp only [isNameByte, isNameStart, isHexDigit, Bool.or_eq_true, Bool.and_eq_true, decide_eq_true_eq,
    UInt8.le_iff_toNat_le] at h ⊢
  rcases h with (h | ⟨hlo, hhi⟩) | ⟨hlo, hhi⟩
  · exact .inr h
  · exact .inl (.inr ⟨hlo, Nat.le_trans hhi (by decide)⟩)
  · exact .inl (.inl (.inr ⟨hlo, Nat.le_trans hhi (by decide)⟩))

/-- Bytes of a kind that end where the first byte behind them is of another kind. -/
theorem takeWhile_append_stop {α : Type} {q : α → Bool} {t rest : List α} (ht : ∀ b ∈ t, q b = true)
    (hrest : ∀ b ∈ rest.head?, q b = false) : (t ++ rest).takeWhile q = t := by
  rw [List.takeWhile_append_of_pos ht]
  cases rest with
  | nil => simp
  | cons b rest => simp [hrest b rfl]

/-- No byte of a name or a number parts words. -/
private theorem Parted.not_nameByte {t : Text} (h : Parted t) : ∀ b ∈ t.head?, isNameByte b = false := by
  intro b hb
  have hlow := h b hb
  refine Bool.eq_false_iff.2 fun hname => ?_
  have hhigh := le_toNat_of_isNameByte hname
  omega

/-- No digit does. -/
private theorem Parted.not_digit {t : Text} (h : Parted t) : ∀ b ∈ t.head?, isDigit b = false := by
  intro b hb
  refine Bool.eq_false_iff.2 fun hdigit => ?_
  exact nomatch (h.not_nameByte b hb).symm.trans (isNameByte_of_isDigit hdigit)

/-- A number ends where words are parted. -/
private theorem finishNumber_append (p : Place) (kind : Token.Kind) (t : Text) {rest : Text}
    (h : Parted rest) :
    finishNumber p kind t.length (t ++ rest) = { kind, extra := t.length } := by
  have hnone : rest.takeWhile isNameByte = [] := takeWhile_append_stop (t := []) nofun h.not_nameByte
  simp only [finishNumber, List.drop_left, hnone]

/-- A number without an exponent ends there. -/
private theorem scanExponent_absent (p : Place) (kind : Token.Kind) (t : Text) {rest : Text}
    (h : Parted rest) :
    scanExponent p kind t.length (t ++ rest) = { kind, extra := t.length } := by
  unfold scanExponent
  rw [List.drop_left]
  cases rest with
  -- Nothing is left, or the next byte begins no name and so no exponent.
  | nil => exact finishNumber_append p kind t h
  | cons e rest =>
    have hname := h.not_nameByte e rfl
    have hletter : ¬(e = byte 'e' ∨ e = byte 'E') := by
      rintro (rfl | rfl) <;> exact absurd hname (by decide)
    dsimp only
    rw [if_neg (by simpa using hletter)]
    exact finishNumber_append p kind t h

/-- A number with an exponent ends behind it. -/
private theorem scanExponent_present (p : Place) (kind : Token.Kind) (t : Text) {x rest : Text}
    (hx : IsExponent x) (h : Parted rest) :
    scanExponent p kind t.length (t ++ (x ++ rest)) = { kind := .float, extra := (t ++ x).length } := by
  obtain ⟨he, hsign, hne, hdigits⟩ := hx
  rename_i e sign digits
  -- All digits of the exponent are taken, and no more.
  have htake : (digits ++ rest).takeWhile isDigit = digits := takeWhile_append_stop hdigits h.not_digit
  have hlen : t.length + 1 + sign.length + digits.length = (t ++ e :: (sign ++ digits)).length := by
    simp only [List.length_append, List.length_cons]
    omega
  have hdrop : (t ++ (e :: (sign ++ digits) ++ rest)).drop t.length = e :: (sign ++ (digits ++ rest)) := by
    rw [List.drop_left, List.cons_append, List.append_assoc]
  unfold scanExponent
  split
  case h_2 hnil => exact nomatch hnil.symm.trans hdrop
  -- The letter is there, and so its sign and its digits are read.
  case h_1 _ _ hcons =>
    obtain ⟨rfl, rfl⟩ := List.cons.inj (hdrop.symm.trans hcons)
    rw [if_pos (by simpa using he)]
    extract_lets k
    -- The sign, if there is one, is no digit, and a digit is no sign.
    have hk : k = sign.length := by
      rcases hsign with rfl | rfl | rfl
      · obtain ⟨d, ds, rfl⟩ := List.exists_cons_of_ne_nil hne
        have hd := hdigits d List.mem_cons_self
        have hno : ¬(d = byte '+' ∨ d = byte '-') := by
          rintro (rfl | rfl) <;> exact absurd hd (by decide)
        simpa [k] using hno
      · rfl
      · rfl
    rw [hk, List.drop_left, htake]
    split
    -- There is at least one digit.
    case h_1 => exact absurd rfl hne
    case h_2 =>
      rw [hlen, ← finishNumber_append p .float (t ++ e :: (sign ++ digits)) h]
      simp only [List.append_assoc, List.cons_append]

/-- What does not go on with the digits in front of it, nor makes them hexadecimal or a fraction. -/
def EndsDigits (t : Text) : Prop :=
  ∀ b ∈ t.head?, isDigit b = false ∧ b ≠ byte 'x' ∧ b ≠ byte 'X' ∧ b ≠ byte '.'

/-- Words are parted behind digits. -/
private theorem Parted.endsDigits {t : Text} (h : Parted t) : EndsDigits t := by
  intro b hb
  have hlow := h b hb
  refine ⟨h.not_digit b hb, ?_, ?_, ?_⟩ <;> rintro rfl <;> exact absurd hlow (by decide)

/-- Digits end in front of an exponent. -/
private theorem IsExponent.endsDigits {x : Text} (hx : IsExponent x) (rest : Text) :
    EndsDigits (x ++ rest) := by
  obtain ⟨he, _, _⟩ := hx
  rintro _ ⟨⟩
  rcases he with rfl | rfl <;> decide

/-- Digits are read as far as they go. -/
private theorem scanNumber_whole (p : Place) {b : UInt8} {t rest : Text} (ht : ∀ c ∈ t, isDigit c = true)
    (hrest : EndsDigits rest) : scanNumber p b (t ++ rest) = scanExponent p .int t.length (t ++ rest) := by
  -- All digits are taken, and no more.
  have htake : (t ++ rest).takeWhile isDigit = t := takeWhile_append_stop ht fun c hc => (hrest c hc).1
  -- The next byte is no mark of a hexadecimal number.
  have hx : ∀ x ∈ (t ++ rest).head?, ¬(x = byte 'x' ∨ x = byte 'X') := by
    intro x hx
    cases t with
    | nil => exact not_or.2 ⟨(hrest x hx).2.1, (hrest x hx).2.2.1⟩
    | cons c t =>
      have hdigit : isDigit x = true := by
        cases hx
        exact ht x List.mem_cons_self
      rintro (rfl | rfl) <;> exact absurd hdigit (by decide)
  unfold scanNumber
  extract_lets isHex whole
  -- So the number is decimal.
  have hhex : isHex = false := by
    cases hcases : t ++ rest with
    | nil => simp only [isHex, hcases]
    | cons x _ =>
      have := hx x (by rw [hcases]; rfl)
      simp [isHex, hcases, not_or.1 this]
  have hwhole : whole = t.length := congrArg List.length htake
  rw [hhex, if_neg Bool.false_ne_true, hwhole, List.drop_left]
  -- No fraction begins behind the digits.
  split
  · rename_i point d rest
    rw [if_neg]
    simp [(hrest point rfl).2.2.2]
  · rfl

/-- Digits with a fraction are read as far as the fraction goes. -/
private theorem scanNumber_fraction (p : Place) {b : UInt8} {t ds rest : Text}
    (ht : ∀ c ∈ t, isDigit c = true) (hds : IsNumeral ds) (hrest : ∀ c ∈ rest.head?, isDigit c = false) :
    scanNumber p b (t ++ byte '.' :: (ds ++ rest))
      = scanExponent p .float (t ++ byte '.' :: ds).length (t ++ byte '.' :: (ds ++ rest)) := by
  obtain ⟨hne, hds⟩ := hds
  obtain ⟨d, ds, rfl⟩ := List.exists_cons_of_ne_nil hne
  -- The point ends the first digits, and the digits behind it are taken up to the rest.
  have htake : (t ++ byte '.' :: (d :: ds ++ rest)).takeWhile isDigit = t :=
    takeWhile_append_stop ht (by rintro _ ⟨⟩; decide)
  have hrun : (ds ++ rest).takeWhile isDigit = ds :=
    takeWhile_append_stop (fun c hc => hds c (List.mem_cons_of_mem d hc)) hrest
  unfold scanNumber
  extract_lets isHex whole
  -- The next byte is a digit or the point, and no mark of a hexadecimal number.
  have hhex : isHex = false := by
    cases t with
    | nil => simp [isHex, byte]
    | cons c t =>
      have hdigit := ht c List.mem_cons_self
      have hx : ¬(c = byte 'x' ∨ c = byte 'X') := by
        rintro (rfl | rfl) <;> exact absurd hdigit (by decide)
      simp [isHex, not_or.1 hx]
  have hwhole : whole = t.length := congrArg List.length htake
  rw [hhex, if_neg Bool.false_ne_true, hwhole, List.drop_left]
  dsimp only [List.cons_append]
  -- Behind the point stands a digit, so there is a fraction.
  rw [if_pos (by simp [hds d List.mem_cons_self]), hrun]
  congr 1
  simp only [List.length_append, List.length_cons]
  omega

/-- Hexadecimal digits are read as far as they go. -/
private theorem scanNumber_hex (p : Place) {x : UInt8} {ds rest : Text} (hx : x = byte 'x' ∨ x = byte 'X')
    (hne : ds ≠ []) (hds : ∀ b ∈ ds, isHexDigit b = true) (h : Parted rest) :
    scanNumber p (byte '0') (x :: (ds ++ rest)) = { kind := .int, extra := (x :: ds).length } := by
  -- No digit follows behind those that are taken.
  have htake : (ds ++ rest).takeWhile isHexDigit = ds := by
    refine takeWhile_append_stop hds fun b hb => Bool.eq_false_iff.2 fun hdigit => ?_
    exact nomatch (h.not_nameByte b hb).symm.trans (isNameByte_of_isHexDigit hdigit)
  unfold scanNumber
  extract_lets isHex whole
  -- The mark is there, so the number is hexadecimal.
  have hhex : isHex = true := by simpa [isHex] using hx
  rw [hhex, if_pos rfl, List.drop_succ_cons, List.drop_zero, htake]
  split
  case h_1 => exact absurd rfl hne
  case h_2 =>
    rw [← finishNumber_append p .int (x :: ds) h, List.length_cons, Nat.add_comm]
    rfl

/-- The first digit of a numeral, and the others. -/
theorem IsNumeral.exists_cons {t : Text} (h : IsNumeral t) :
    ∃ b ds, t = b :: ds ∧ isDigit b = true ∧ ∀ c ∈ ds, isDigit c = true := by
  obtain ⟨b, ds, rfl⟩ := List.exists_cons_of_ne_nil h.1
  obtain ⟨hb, hds⟩ := List.forall_mem_cons.1 h.2
  exact ⟨b, ds, rfl, hb, hds⟩

/-- A number with a fraction or an exponent is read to its end. -/
private theorem IsFloat.scanNumber_append {w : Text} (hw : IsFloat w) (p : Place) {rest : Text}
    (h : Parted rest) :
    ∃ b t, w = b :: t ∧ isDigit b = true
      ∧ scanNumber p b (t ++ rest) = { kind := .float, extra := t.length } := by
  cases hw with
  -- A fraction alone.
  | @fraction whole digits hwhole hdigits =>
    obtain ⟨b, ds, rfl, hb, hds⟩ := hwhole.exists_cons
    refine ⟨b, ds ++ byte '.' :: digits, rfl, hb, ?_⟩
    have hscan := scanNumber_fraction p (b := b) hds hdigits h.not_digit
    rw [List.append_assoc, List.cons_append, hscan]
    rw [← scanExponent_absent p .float (ds ++ byte '.' :: digits) h, List.append_assoc, List.cons_append]
  -- A fraction with an exponent behind it.
  | @both whole digits x hwhole hdigits hx =>
    obtain ⟨b, ds, rfl, hb, hds⟩ := hwhole.exists_cons
    refine ⟨b, ds ++ byte '.' :: (digits ++ x), rfl, hb, ?_⟩
    have hscan := scanNumber_fraction p (b := b) hds hdigits fun c hc => (hx.endsDigits rest c hc).1
    have hexponent := scanExponent_present p .float (ds ++ byte '.' :: digits) hx h
    simp only [List.append_assoc, List.cons_append] at hscan hexponent ⊢
    rw [hscan, hexponent]
  -- An exponent alone.
  | @exponent whole x hwhole hx =>
    obtain ⟨b, ds, rfl, hb, hds⟩ := hwhole.exists_cons
    refine ⟨b, ds ++ x, rfl, hb, ?_⟩
    rw [List.append_assoc, scanNumber_whole p hds (hx.endsDigits rest), scanExponent_present p .int ds hx h]

/-! ## Strings and code -/

/-- A letter behind a backslash is read as what it stands for. -/
private theorem simpleEscape_of_letter {b c : UInt8} (h : (c, b) ∈ letterEscapes) :
    c ≠ byte 'x' ∧ simpleEscape c = some b := by
  simp only [letterEscapes, List.mem_cons, Prod.mk.injEq, List.not_mem_nil, or_false] at h
  rcases h with ⟨rfl, rfl⟩ | ⟨rfl, rfl⟩ | ⟨rfl, rfl⟩ | ⟨rfl, rfl⟩ | ⟨rfl, rfl⟩ | ⟨rfl, rfl⟩ | ⟨rfl, rfl⟩
  all_goals exact ⟨by decide, by decide⟩

/-- A hexadecimal digit is read as its value. -/
theorem IsHexDigitOf.hexValue {n : Nat} {c : UInt8} (h : IsHexDigitOf n c) :
    isHexDigit c = true ∧ AisScript.hexValue c = UInt8.ofNat n := by
  obtain ⟨digits, hdigits, hc⟩ := h
  have hall : ∀ ds ∈ hexDigits, ds.length = 16
      ∧ ∀ m < 16, ∀ d ∈ ds[m]?, isHexDigit d = true ∧ AisScript.hexValue d = UInt8.ofNat m := by
    decide +kernel
  obtain ⟨hlen, hvalue⟩ := hall digits hdigits
  have hlt : n < 16 := by
    obtain ⟨hlt, _⟩ := List.getElem?_eq_some_iff.1 hc
    omega
  exact hvalue n hlt c hc

/-- A byte is made of two hexadecimal digits. -/
private theorem ofNat_digits (b : UInt8) :
    UInt8.ofNat (b.toNat / 16) * 16 + UInt8.ofNat (b.toNat % 16) = b := by
  apply UInt8.toNat_inj.1
  have := b.toNat_lt
  simp only [UInt8.toNat_add, UInt8.toNat_mul, UInt8.toNat_ofNat', UInt8.reduceToNat]
  omega

namespace StringBody

variable {quote : UInt8}

/-- One byte is read, however it is written. -/
private theorem read_escapedByte (hquote : quote = 0x22 ∨ quote = 0x27) {b : UInt8} {w : Text}
    (h : EscapedByte quote b w) (file o : Nat) (t : Text) :
    read quote file o (w ++ t) = push b w.length (read quote file (o + w.length) t) := by
  have hslash : ¬(0x5C = quote) := by rcases hquote with rfl | rfl <;> decide
  have hline : ¬((0x5C : UInt8) = 0x0A) := by decide
  -- Each way of writing a byte is read in one step.
  cases h with
  | plain hb hbl hbs =>
    rw [List.singleton_append, read.eq_def]
    dsimp only
    rw [if_neg hb, if_neg hbl, if_neg hbs]
    rfl
  | letter hc =>
    obtain ⟨hx, hescape⟩ := simpleEscape_of_letter hc
    rw [List.cons_append, List.singleton_append, read.eq_def]
    dsimp only
    rw [if_neg hslash, if_neg hline, if_pos rfl, if_neg hx, hescape]
    rfl
  -- Two hexadecimal digits, which give the two halves of the byte.
  | hex hhi hlo =>
    obtain ⟨hhi, hhiValue⟩ := hhi.hexValue
    obtain ⟨hlo, hloValue⟩ := hlo.hexValue
    rw [read.eq_def]
    dsimp only [List.cons_append, List.nil_append]
    rw [if_neg hslash, if_neg hline, if_pos rfl, if_pos rfl, if_pos hhi, if_pos hlo, hhiValue, hloValue, ofNat_digits]
    rfl

/-- The contents of a string are read up to its closing quotation mark. -/
private theorem read_escaped (hquote : quote = 0x22 ∨ quote = 0x27) {bytes body : Text}
    (h : Escaped quote bytes body) (file o : Nat) (rest : Text) :
    read quote file o (body ++ quote :: rest) = { bytes, size := body.length + 1, ending := .closed } := by
  induction h generalizing o with
  | nil =>
    rw [List.nil_append, read.eq_def]
    dsimp only
    rw [if_pos rfl]
    rfl
  | cons hb _ ih =>
    rw [List.append_assoc, read_escapedByte hquote hb, ih, push, List.length_append]
    simp only [Nat.add_assoc]

end StringBody

/-- A string is read to its end. -/
private theorem scanString_append (p : Place) {quote : UInt8} (hquote : quote = 0x22 ∨ quote = 0x27)
    {bytes body : Text} (h : Escaped quote bytes body) (hcomposed : Text.compose bytes = bytes) (rest : Text) :
    scanString p quote (body ++ [quote] ++ rest)
      = { kind := .string, extra := (body ++ [quote]).length, contents := some bytes } := by
  have hread := StringBody.read_escaped hquote h p.file (p.offset + 1) rest
  rw [List.append_assoc, List.singleton_append]
  simp only [scanString, hread, hcomposed, List.length_append, List.length_singleton]

/-- Code is read to its end. -/
private theorem scanCode_append (p : Place) {t : Text} (ht : codeMark ∉ t) (rest : Text) :
    scanCode p (t ++ [codeMark] ++ rest)
      = { kind := .code, extra := (t ++ [codeMark]).length, contents := some t } := by
  have htake : (t ++ codeMark :: rest).takeWhile (· ≠ codeMark) = t :=
    takeWhile_append_stop (fun b hb => decide_eq_true fun heq => ht (heq ▸ hb)) (by rintro _ ⟨⟩; simp)
  have hlt : t.length < (t ++ codeMark :: rest).length := by simp
  rw [List.append_assoc, List.singleton_append]
  rw [scanCode, htake, if_pos hlt, List.length_append, List.length_singleton]

/-! ## Names, keywords and symbols -/

/-- The bytes of a name are read as far as they go. -/
private theorem nameLength_append {t rest : Text} (ht : ∀ c ∈ t, isNameByte c = true) (h : Parted rest) :
    nameLength (t ++ rest) = t.length := by
  -- By induction on the bytes that are left of the name.
  induction t with
  | nil =>
    -- Behind the name, there is nothing or a byte of no name.
    cases rest with
    | nil => rw [List.nil_append, nameLength]; rfl
    | cons b rest =>
      have hascii : b < 0x80 := UInt8.lt_iff_toNat_lt.2 (Nat.lt_of_le_of_lt (h b rfl) (by decide))
      rw [List.nil_append, nameLength, if_pos hascii, h.not_nameByte b rfl]
      rfl
  -- One more byte of the name.
  | cons c t ih =>
    obtain ⟨hc, ht⟩ := List.forall_mem_cons.1 ht
    rw [List.cons_append, nameLength, if_pos (lt_of_isNameByte hc), if_pos hc, ih ht, List.length_cons,
      Nat.add_comm]

/-- A name or keyword is read to its end, and it is left as it is. -/
private theorem scanName_append (p : Place) {b : UInt8} {t rest : Text} (hb : isNameStart b = true)
    (ht : ∀ c ∈ t, isNameByte c = true) (h : Parted rest) :
    scanName p b (t ++ rest)
      = { kind := match Keyword.ofSpelling? (b :: t) with
            | some k => .keyword k
            | none => .ident
          extra := t.length, contents := some (b :: t) } := by
  -- The first byte is ASCII, and it is a character of its own.
  have hbyte : isNameByte b = true := by rw [isNameByte, hb, Bool.true_or]
  have hascii := lt_of_isNameByte hbyte
  have hglyph : Text.glyphAt b (t ++ rest) = (.char b.toNat, 0) := by
    rw [Text.glyphAt.eq_def]
    exact if_pos (UInt8.lt_iff_toNat_lt.1 hascii)
  have hlow : (0x80 ≤ b && !Text.isLetter (Text.Glyph.char b.toNat).code) = false := by
    rw [decide_eq_false (UInt8.not_le.2 hascii), Bool.false_and]
  -- ASCII letters are composed already.
  have hname : Text.compose (b :: t) = b :: t := by
    refine if_pos (List.all_eq_true.2 fun c hc => decide_eq_true ?_)
    rcases List.mem_cons.1 hc with rfl | hc
    · exact hascii
    · exact lt_of_isNameByte (ht c hc)
  rw [scanName, hglyph]
  dsimp only
  rw [if_neg (ne_true_of_eq_false hlow), List.drop_zero, nameLength_append ht h, Nat.zero_add,
    List.take_left, hname]
  -- The text is a keyword, or it is none.
  cases Keyword.ofSpelling? (b :: t) <;> rfl

/-- A keyword is found by its spelling. -/
private theorem Keyword.ofSpelling?_spelling (k : Keyword) : ofSpelling? k.spelling = some k := by
  cases k <;> decide

/-- A keyword is written like a name. -/
private theorem Keyword.spelling_eq (k : Keyword) :
    ∃ b t, k.spelling = b :: t ∧ isNameStart b = true ∧ ∀ c ∈ t, isNameByte c = true := by
  cases k <;> exact ⟨_, _, rfl, rfl, List.all_eq_true.1 rfl⟩

/-- A symbol is found by its spelling. -/
private theorem Symbol.ofSpelling?_spelling (s : Symbol) : ofSpelling? s.spelling = some s := by
  cases s <;> decide

/-- A symbol has one byte or two: the first begins no gap and no other word, and the second parts no words. -/
private theorem Symbol.spelling_eq (s : Symbol) :
    ∃ b t, s.spelling = b :: t ∧ t.length ≤ 1 ∧ (∀ c ∈ t, 0x24 ≤ c.toNat)
      ∧ isBlank b = false ∧ b ≠ byte '#' ∧ (isNameStart b || 0x80 ≤ b) = false ∧ isDigit b = false
      ∧ b ≠ 0x22 ∧ b ≠ 0x27 ∧ b ≠ codeMark := by
  cases s <;> exact ⟨_, _, rfl, by decide +kernel⟩

/-- A symbol is read to its end: no longer one goes on into a gap. -/
private theorem scanSymbol_append (p : Place) {s : Symbol} {b : UInt8} {t rest : Text}
    (hs : s.spelling = b :: t)
    (h : Parted rest) : scanSymbol p b (t ++ rest) = { kind := .symbol s, extra := t.length } := by
  have hfound := s.ofSpelling?_spelling
  obtain ⟨b', t', heq, hlen, _⟩ := s.spelling_eq
  obtain ⟨rfl, rfl⟩ := List.cons.inj (hs.symm.trans heq)
  rw [hs] at hfound
  unfold scanSymbol
  -- The symbol has two bytes, or it has one and none is made longer by what follows.
  cases t with
  | cons c t =>
    obtain rfl : t = [] := List.length_eq_zero_iff.1 (by simpa using hlen)
    simp only [List.singleton_append, hfound, List.length_singleton]
  | nil =>
    rw [List.nil_append]
    have hone : ∀ c ∈ rest.head?, Symbol.ofSpelling? [b, c] = none := by
      -- The second byte of a symbol is no byte that can stand behind a word.
      intro c hc
      refine List.find?_eq_none.2 fun s' _ hs' => ?_
      obtain ⟨_, _, heq', _, hhigh, _⟩ := s'.spelling_eq
      obtain ⟨rfl, rfl⟩ := List.cons.inj (heq'.symm.trans (beq_iff_eq.1 hs'))
      have hlow := h c hc
      have hbound := hhigh c List.mem_cons_self
      omega
    cases rest with
    | nil => simp only [hfound, List.length_nil]
    | cons c rest => simp only [hone c rfl, hfound, List.length_nil]

/-! ## Words -/

/-- All of a word of `1 + n` bytes was read: its kind is `k`, its contents are `x`, and nothing was
reported.  `w` are the bytes themselves. -/
structure Scanned.ReadAs (s : Scanned) (k : Token.Kind) (x w : Text) (n : Nat) : Prop where
  kind : s.kind = k
  extra : s.extra = n
  contents : s.contents.getD w = x
  reports : s.reports = []

/-- A word does not begin with a byte of a gap. -/
def BeginsWord (b : UInt8) : Prop := isBlank b = false ∧ b ≠ byte '#'

/-- Bytes of names and numbers begin words. -/
private theorem beginsWord_of_isNameByte {b : UInt8} (h : isNameByte b = true) : BeginsWord b := by
  have hhigh := le_toNat_of_isNameByte h
  refine ⟨Bool.eq_false_iff.2 fun hblank => ?_, ?_⟩
  · have hlow := toNat_le_of_isBlank hblank
    omega
  · rintro rfl
    exact absurd hhigh (by decide)

/-- What begins like a name is scanned as one. -/
private theorem scanHead_name (p : Place) {b : UInt8} (hb : isNameStart b = true) (t : Text) :
    scanHead p b t = scanName p b t := by
  rw [scanHead, hb, Bool.true_or, if_pos rfl]

/-- What begins with a digit is scanned as a number. -/
private theorem scanHead_number (p : Place) {b : UInt8} (hb : isDigit b = true) (t : Text) :
    scanHead p b t = scanNumber p b t := by
  obtain ⟨hlo, hhi⟩ := toNat_of_isDigit hb
  have hname : (isNameStart b || 0x80 ≤ b) = false := by
    simp only [isNameStart, Bool.or_eq_false_iff, Bool.and_eq_false_iff, decide_eq_false_iff_not,
      beq_eq_false_iff_ne, UInt8.le_iff_toNat_le, UInt8.reduceToNat]
    refine ⟨⟨⟨?_, .inl (by omega)⟩, .inl (by omega)⟩, by omega⟩
    rintro rfl
    exact absurd hhi (by decide)
  rw [scanHead, if_neg (ne_true_of_eq_false hname), if_pos hb]

/-- A word is read to its end, whatever is parted from it behind. -/
theorem Spelled.scanHead_append {k : Token.Kind} {x w : Text} (hw : Spelled k x w) (p : Place) {rest : Text}
    (h : Parted rest) : ∃ b t, w = b :: t ∧ BeginsWord b
      ∧ (scanHead p b (t ++ rest)).ReadAs k x (b :: t) t.length := by
  cases hw with
  -- A name is no keyword.
  | @ident b t hb ht hfree =>
    have hnone : Keyword.ofSpelling? (b :: t) = none := by
      refine List.find?_eq_none.2 fun k _ hk => hfree k (beq_iff_eq.1 hk)
    refine ⟨b, t, rfl, beginsWord_of_isNameByte (by rw [isNameByte, hb, Bool.true_or]), ?_⟩
    rw [scanHead_name p hb, scanName_append p hb ht h, hnone]
    exact ⟨rfl, rfl, rfl, rfl⟩
  -- A keyword is spelled like a name.
  | keyword k =>
    obtain ⟨b, t, heq, hb, ht⟩ := k.spelling_eq
    have hfound := k.ofSpelling?_spelling
    rw [heq] at hfound ⊢
    refine ⟨b, t, rfl, beginsWord_of_isNameByte (by rw [isNameByte, hb, Bool.true_or]), ?_⟩
    rw [scanHead_name p hb, scanName_append p hb ht h, hfound]
    exact ⟨rfl, rfl, rfl, rfl⟩
  -- A symbol begins neither a name nor a number nor a literal.
  | symbol s =>
    obtain ⟨b, t, heq, _, _, hblank, hmark, hname, hdigit, hdouble, hsingle, hcode⟩ := s.spelling_eq
    refine ⟨b, t, heq, ⟨hblank, hmark⟩, ?_⟩
    rw [scanHead, if_neg (ne_true_of_eq_false hname), if_neg (ne_true_of_eq_false hdigit),
      if_neg (by simp [hdouble, hsingle]), if_neg hcode, scanSymbol_append p heq h]
    exact ⟨rfl, rfl, heq.symm, rfl⟩
  -- A decimal number.
  | decimal ht =>
    obtain ⟨b, t, rfl, hb, ht⟩ := ht.exists_cons
    refine ⟨b, t, rfl, beginsWord_of_isNameByte (isNameByte_of_isDigit hb), ?_⟩
    rw [scanHead_number p hb, scanNumber_whole p ht h.endsDigits, scanExponent_absent p .int t h]
    exact ⟨rfl, rfl, rfl, rfl⟩
  -- A hexadecimal number begins with a digit, too.
  | @hexadecimal c ds hx hne hds =>
    have hzero : isDigit (byte '0') = true := by decide
    refine ⟨byte '0', c :: ds, rfl, beginsWord_of_isNameByte (isNameByte_of_isDigit hzero), ?_⟩
    rw [scanHead_number p hzero, List.cons_append, scanNumber_hex p hx hne hds h]
    exact ⟨rfl, rfl, rfl, rfl⟩
  -- A number with a fraction or an exponent.
  | float ht =>
    obtain ⟨b, t, rfl, hb, hscan⟩ := ht.scanNumber_append p h
    refine ⟨b, t, rfl, beginsWord_of_isNameByte (isNameByte_of_isDigit hb), ?_⟩
    rw [scanHead_number p hb, hscan]
    exact ⟨rfl, rfl, rfl, rfl⟩
  -- A literal begins with its quotation mark.
  | @string quote bytes body hquote hbody hcomposed =>
    refine ⟨quote, body ++ [quote], rfl, ?_, ?_⟩
    · rcases hquote with rfl | rfl <;> exact ⟨by decide, by decide⟩
    · have hhead : scanHead p quote (body ++ [quote] ++ rest) = scanString p quote (body ++ [quote] ++ rest) := by
        rcases hquote with rfl | rfl <;> rfl
      rw [hhead, scanString_append p hquote hbody hcomposed]
      exact ⟨rfl, rfl, rfl, rfl⟩
  -- A code literal begins and ends with its mark.
  | code ht =>
    refine ⟨codeMark, x ++ [codeMark], rfl, ⟨by decide, by decide⟩, ?_⟩
    have hhead : scanHead p codeMark (x ++ [codeMark] ++ rest) = scanCode p (x ++ [codeMark] ++ rest) := rfl
    rw [hhead, scanCode_append p ht]
    exact ⟨rfl, rfl, rfl, rfl⟩

/-! ## Words one behind the other -/

/-- A gap and a gap behind it. -/
theorem Gap.append {g t : Text} (hg : Gap g) (ht : Gap t) : Gap (g ++ t) := by
  induction hg with
  | nil => exact ht
  | blank hb _ ih => exact .blank hb ih
  | comment hc _ ih =>
    rw [List.cons_append, List.append_assoc, List.cons_append]
    exact .comment hc ih

/-- In front of a word there is nothing to pass over. -/
private theorem BeginsWord.gapLength_cons {b : UInt8} (h : BeginsWord b) (t : Text) :
    gapLength false (b :: t) = 0 := by
  rw [gapLength, h.1, if_neg Bool.false_ne_true, if_neg h.2]

/-- Tokens with given kinds and contents in front of the end mark, and nothing that was reported. -/
structure ReadWords (ls : List Lexeme) (ws : List (Token.Kind × Text)) : Prop where
  contents : ls.map (fun l => (l.token.kind, l.token.text)) = ws ++ [(.eof, [])]
  silent : ∀ l ∈ ls, l.reports = []

/-- There are no words in a gap. -/
private theorem Gap.readWords {g : Text} (hg : Gap g) (p : Place) : ReadWords (lexemesFrom p g) [] := by
  have hlen : gapLength false g = g.length := by
    have happend := hg.gapLength_append []
    rwa [List.append_nil, gapLength] at happend
  have hend : g.drop (gapLength false g) = [] := by rw [hlen, List.drop_length]
  rw [(lexemesFrom_of_nil p hend).1, scanNext, hend]
  exact ⟨rfl, by simp [Lexeme.endMark]⟩

/-- A word behind a gap, with the words behind it. -/
private theorem Spelled.readWords {k : Token.Kind} {x w g rest : Text} {ws : List (Token.Kind × Text)}
    (hw : Spelled k x w) (hg : Gap g) (h : Parted rest) (hrest : ∀ p, ReadWords (lexemesFrom p rest) ws)
    (p : Place) : ReadWords (lexemesFrom p (g ++ (w ++ rest))) ((k, x) :: ws) := by
  obtain ⟨b, t, rfl, hb, hscan⟩ := hw.scanHead_append { p with offset := p.offset + g.length } h
  -- The gap ends where the word begins.
  have hgap : gapLength false (g ++ (b :: t ++ rest)) = g.length := by
    rw [hg.gapLength_append, List.cons_append, hb.gapLength_cons, Nat.add_zero]
  have hdrop : (g ++ (b :: t ++ rest)).drop (gapLength false (g ++ (b :: t ++ rest))) = b :: (t ++ rest) := by
    rw [hgap, List.drop_left, List.cons_append]
  -- So the first lexeme is read from the word, and the others from behind it.
  have hstep := (lexemesFrom_of_cons p hdrop).1
  simp only [scanNext, hdrop] at hstep
  rw [hgap, hscan.extra, List.drop_left] at hstep
  rw [hstep]
  have hbehind := hrest ⟨p.file, p.offset + g.length + 1 + t.length⟩
  refine ⟨?_, ?_⟩
  · rw [List.map_cons, hbehind.contents, List.cons_append]
    simp only [Lexeme.ofScanned, hscan.kind, hscan.extra, List.take_left, hscan.contents]
  -- Neither the word nor the rest is reported.
  · intro l hl
    rcases List.mem_cons.1 hl with rfl | hl
    · exact hscan.reports
    · exact hbehind.silent l hl

/-- A gap at the end parts the word in front of it, and so does the end. -/
private theorem Gap.parted_end {g : Text} (hg : Gap g) : Parted g := by
  by_cases hne : g = []
  · rw [hne]
    exact nofun
  · rw [← List.append_nil g]
    exact hg.parted hne []

/-- Written words are read, wherever the text begins. -/
private theorem SpelledOut.readWords
    {ws : List (Token.Kind × Text)} {t : Text} (ht : SpelledOut ws t) {lead trail : Text}
    (hlead : Gap lead) (htrail : Gap trail) (p : Place) :
    ReadWords (lexemesFrom p (lead ++ (t ++ trail))) ws := by
  induction ht generalizing lead p with
  | nil => exact (hlead.append htrail).readWords p
  | single hs => exact hs.readWords hlead htrail.parted_end htrail.readWords p
  | cons hs hg hne _ ih =>
    rw [List.append_assoc, List.append_assoc]
    exact hs.readWords hlead (hg.parted hne _) (fun p => ih hg p) p

/-- Written words are read: lexing gives back their kinds and contents, in order and with the end mark
behind them, and reports nothing.  There may be gaps in front of the words and behind them too. -/
theorem lexemes_written (file : Nat) {ws : List (Token.Kind × Text)} {lead t trail : Text} (hlead : Gap lead)
    (ht : SpelledOut ws t) (htrail : Gap trail) :
    (lexemes file (lead ++ (t ++ trail))).map (fun l => (l.token.kind, l.token.text)) = ws ++ [(.eof, [])]
      ∧ ∀ l ∈ lexemes file (lead ++ (t ++ trail)), l.reports = [] := by
  obtain ⟨hcontents, hsilent⟩ := ht.readWords hlead htrail ⟨file, 0⟩
  exact ⟨hcontents, hsilent⟩

/-- `if r <= 0x1F` with a comment behind it, a float, and a string with a quotation mark of its own, the
mark of a comment and a byte given by its number. -/
def comparedWords : List (Token.Kind × Text) :=
  [(.keyword .ifKw, "if"), (.ident, "r"), (.symbol .ltEq, "<="), (.int, "0x1F"), (.float, "1.5e-3"),
    (.string, [0x27, byte '#', 0x01]), (.code, "go\n")]

/-- The words with their gaps: blanks, and a comment. -/
def comparedText : Text :=
  "if" ++ (" " ++ ("r" ++ ("\t" ++ ("<=" ++ (" " ++ ("0x1F" ++ (" # <= 1\n" ++ ("1.5e-3" ++ ("\n"
    ++ ("'\\'#\\x01'" ++ (" " ++ "`go\n`")))))))))))

/-- The text writes the words. -/
private theorem comparedText_written : SpelledOut comparedWords comparedText := by
  have hblank : ∀ b : UInt8, isBlank b = true → Gap [b] := fun b hb => .blank hb .nil
  have hcomment : Gap (" # <= 1\n" : Text) := .blank (by decide) (.comment (c := " <= 1") (by decide) .nil)
  -- The string literal: an escaped quotation mark, a byte of its own and one by its digits.
  have hbytes : Escaped 0x27 [0x27, byte '#', 0x01] ("\\'" ++ ("#" ++ ("\\x01" ++ ([] : Text)))) :=
    .cons (.letter (by decide)) (.cons (.plain (by decide) (by decide) (by decide))
      (.cons (.hex ⟨_, List.mem_cons_self, by decide⟩ ⟨_, List.mem_cons_self, by decide⟩) .nil))
  have hstring : Spelled .string [0x27, byte '#', 0x01] "'\\'#\\x01'" := .string (.inr rfl) hbytes (by decide)
  have hnumeral : ∀ b : UInt8, isDigit b = true → IsNumeral [b] := by
    exact fun b hb => ⟨nofun, List.forall_mem_singleton.2 hb⟩
  have hexponent : IsExponent (byte 'e' :: ([byte '-'] ++ ("3" : Text))) :=
    .mk (.inl rfl) (.inr (.inr rfl)) (hnumeral 0x33 rfl)
  -- The fraction has a signed exponent.
  have hfloat : IsFloat ("1" ++ byte '.' :: ("5" ++ ("e-3" : Text))) :=
    .both (hnumeral 0x31 rfl) (hnumeral 0x35 rfl) hexponent
  -- The words one by one, each with the gap in front of it.
  refine .cons (.keyword .ifKw) (hblank 0x20 rfl) nofun ?_
  refine .cons (.ident (by decide) nofun fun k => by cases k <;> decide) (hblank 0x09 rfl) nofun ?_
  refine .cons (.symbol .ltEq) (hblank 0x20 rfl) nofun ?_
  refine .cons (.hexadecimal (.inl rfl) nofun (by decide +kernel)) hcomment nofun ?_
  refine .cons (.float hfloat) (hblank 0x0A rfl) nofun ?_
  refine .cons hstring (hblank 0x20 rfl) nofun ?_
  exact .single (.code (by decide))

/-- The words are read from the text. -/
theorem comparedText_read :
    Gap [] ∧ SpelledOut comparedWords comparedText
      ∧ (lexemes 0 comparedText).map (fun l => (l.token.kind, l.token.text)) = comparedWords ++ [(.eof, [])]
      ∧ ∀ l ∈ lexemes 0 comparedText, l.reports = [] := by
  have hread := lexemes_written 0 .nil comparedText_written .nil
  rw [List.nil_append, List.append_nil] at hread
  exact ⟨.nil, comparedText_written, hread⟩

end AisScript
