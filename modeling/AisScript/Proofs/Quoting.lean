import AisScript.Generate
import AisScript.Proofs.Spelling

/-!
# String literals of the generated language

A literal is read by the rules of C: a backslash begins an escape, which is a letter or a run of up to three
octal digits that takes all it can, and the first quotation mark outside of an escape closes the literal.  Each
byte is written in a way that is read back on its own, whatever stands behind it: octal escapes have all of
their three digits, and so none of them takes a digit of the text.

* `readLiteral?`            reading a literal at the head of a text
* `StringByte`              the ways in which a byte is written
* `readBody?_append`        a written text is read to its end
* `stringLiteral_survives`  literals are printable, closed where they end, and read back
-/

namespace AisScript

open Text (byte)

/-! ## Reading literals -/

/-- The letters of escapes, with the bytes they stand for. -/
def cEscapes : List (UInt8 × UInt8) :=
  [(byte 'n', 0x0A), (byte 't', 0x09), (byte 'r', 0x0D), (0x5C, 0x5C), (0x22, 0x22)]

/-- An octal digit. -/
def isOctalDigit (b : UInt8) : Bool := 0x30 ≤ b && b ≤ 0x37

/-- The value of octal digits. -/
def octalValue (ds : Text) : Nat := ds.foldl (fun n d => 8 * n + (d.toNat - 0x30)) 0

/-- Reads an escape behind its backslash: the byte it stands for and the number of bytes read.  Octal digits
are taken as far as they go, up to three, and have to stand for a byte. -/
def readEscape? (t : Text) : Option (UInt8 × Nat) :=
  match (t.take 3).takeWhile isOctalDigit with
  | [] => match t with
    | [] => none
    | c :: _ => (cEscapes.lookup c).map (·, 1)
  | ds => if octalValue ds < 256 then some ((octalValue ds).toUInt8, ds.length) else none

/-- Reads a literal behind its opening quotation mark: the text it stands for, and what is left behind the
closing mark.  A literal is closed in its own line. -/
def readBody? : Text → Option (Text × Text)
  | [] => none
  | b :: t =>
    if b = 0x22 then some ([], t)
    else if b = 0x0A then none
    else if b = 0x5C then
      match readEscape? t with
      | none => none
      | some (c, n) => (readBody? (t.drop n)).map fun (s, rest) => (c :: s, rest)
    else (readBody? t).map fun (s, rest) => (b :: s, rest)
termination_by t => t.length
decreasing_by all_goals simp only [List.length_drop, List.length_cons]; omega

/-- Reads a literal at the head of a text: what it stands for, and what is left. -/
def readLiteral? : Text → Option (Text × Text)
  | [] => none
  | b :: t => if b = 0x22 then readBody? t else none

/-- What a text stands for that is a literal and nothing else. -/
def decodeLiteral? (t : Text) : Option Text :=
  match readLiteral? t with
  | some (s, []) => some s
  | _ => none

/-- The places of the quotation marks of a text that begins at `offset`, other than those that a backslash
escapes.  A backslash that is escaped itself escapes nothing. -/
def bareQuotes : (escaped : Bool) → (offset : Nat) → Text → List Nat
  | _, _, [] => []
  | true, o, _ :: t => bareQuotes false (o + 1) t
  | false, o, b :: t =>
    if b = 0x22 then o :: bareQuotes false (o + 1) t else bareQuotes (b == 0x5C) (o + 1) t

/-- Outside of an escape every other byte is passed over. -/
private theorem bareQuotes_cons {b : UInt8} (hquote : b ≠ 0x22) (hslash : b ≠ 0x5C) (o : Nat) (t : Text) :
    bareQuotes false o (b :: t) = bareQuotes false (o + 1) t := by
  rw [bareQuotes, if_neg hquote, beq_false_of_ne hslash]

/-- A visible ASCII character, or the blank. -/
def isPrintableAscii (b : UInt8) : Bool := 0x20 ≤ b && b < 0x7F

/-! ## Written bytes -/

/-- The ways in which a byte is written between quotation marks. -/
inductive StringByte : UInt8 → Text → Prop where
  | plain {b : UInt8} (hascii : isPrintableAscii b = true) (hquote : b ≠ 0x22) (hslash : b ≠ 0x5C) :
      StringByte b [b]
  | letter {b c : UInt8} (hc : (c, b) ∈ cEscapes) : StringByte b [0x5C, c]
  | octal {b x y z : UInt8} (hdigits : ∀ d ∈ [x, y, z], isOctalDigit d = true)
      (hvalue : octalValue [x, y, z] = b.toNat) : StringByte b [0x5C, x, y, z]

/-- Three octal digits are enough for a byte. -/
private theorem padded_octal (b : UInt8) : ∃ x y z, Text.padded 3 8 b.toNat = [x, y, z]
    ∧ (∀ d ∈ [x, y, z], isOctalDigit d = true) ∧ octalValue [x, y, z] = b.toNat := by
  have hall : ∀ n < 256, (Text.padded 3 8 n).length = 3 ∧ (Text.padded 3 8 n).all isOctalDigit = true
      ∧ octalValue (Text.padded 3 8 n) = n := by
    decide +kernel
  obtain ⟨hlen, hdigits, hvalue⟩ := hall b.toNat b.toNat_lt
  match ht : Text.padded 3 8 b.toNat, hlen with
  | [x, y, z], _ =>
    rw [ht] at hdigits hvalue
    exact ⟨x, y, z, rfl, List.all_eq_true.1 hdigits, hvalue⟩

/-- Each byte is written in one of these ways. -/
private theorem stringByte_written (b : UInt8) : StringByte b (stringByte b) := by
  unfold stringByte
  -- Five letters are written behind a backslash.
  split
  case isTrue h => exact h ▸ .letter (by decide)
  split
  case isTrue h => exact h ▸ .letter (by decide)
  split
  case isTrue h => exact h ▸ .letter (by decide)
  split
  case isTrue h => exact h ▸ .letter (by decide)
  split
  case isTrue h => exact h ▸ .letter (by decide)
  rename_i hquote hslash _ _ _
  split
  -- Other bytes that cannot be printed are written by three octal digits.
  case isTrue =>
    obtain ⟨x, y, z, hpadded, hdigits, hvalue⟩ := padded_octal b
    rw [hpadded]
    exact .octal hdigits hvalue
  -- All others stand for themselves.
  case isFalse h =>
    rw [Bool.or_eq_true, decide_eq_true_eq, decide_eq_true_eq, not_or, UInt8.not_lt, UInt8.not_le] at h
    exact .plain (by rw [isPrintableAscii, decide_eq_true h.1, decide_eq_true h.2]; rfl) hquote hslash

namespace StringByte

variable {b : UInt8} {w : Text}

/-- Octal digits are printable, and neither quotation marks nor backslashes. -/
private theorem of_isOctalDigit {d : UInt8} (h : isOctalDigit d = true) :
    isPrintableAscii d = true ∧ d ≠ 0x22 ∧ d ≠ 0x5C := by
  simp only [isOctalDigit, Bool.and_eq_true, decide_eq_true_eq, UInt8.le_iff_toNat_le,
    UInt8.reduceToNat] at h
  refine ⟨?_, ?_, ?_⟩
  · simp only [isPrintableAscii, Bool.and_eq_true, decide_eq_true_eq, UInt8.le_iff_toNat_le,
      UInt8.lt_iff_toNat_lt, UInt8.reduceToNat]
    omega
  all_goals
    rintro rfl
    exact absurd h (by decide)

/-- A written byte is printable. -/
private theorem isPrintableAscii (h : StringByte b w) : ∀ c ∈ w, AisScript.isPrintableAscii c = true := by
  cases h with
  | plain hascii => exact List.forall_mem_singleton.2 hascii
  | letter hc =>
    have hall : cEscapes.all (fun x => AisScript.isPrintableAscii x.1) = true := by decide
    exact List.forall_mem_cons.2 ⟨by decide, List.forall_mem_singleton.2 (List.all_eq_true.1 hall _ hc)⟩
  | octal hdigits =>
    exact List.forall_mem_cons.2 ⟨by decide, fun d hd => (of_isOctalDigit (hdigits d hd)).1⟩

/-- The quotation marks of a written byte are escaped, and it escapes nothing behind it. -/
private theorem bareQuotes_append (h : StringByte b w) (o : Nat) (t : Text) :
    bareQuotes false o (w ++ t) = bareQuotes false (o + w.length) t := by
  cases h with
  -- A plain byte is no quotation mark and no backslash.
  | plain _ hquote hslash =>
    exact bareQuotes_cons hquote hslash o t
  | letter hc => rfl
  | @octal x y z hdigits =>
    -- Behind the first digit, the other two are ordinary bytes.
    obtain ⟨_, hy, hz, _⟩ : isOctalDigit x = true ∧ isOctalDigit y = true ∧ isOctalDigit z = true ∧ True := by
      simpa using hdigits
    obtain ⟨_, hyquote, hyslash⟩ := of_isOctalDigit hy
    obtain ⟨_, hzquote, hzslash⟩ := of_isOctalDigit hz
    calc bareQuotes false o ([0x5C, x, y, z] ++ t)
        = bareQuotes false (o + 2) (y :: z :: t) := rfl
      _ = bareQuotes false (o + 4) t := by
        rw [bareQuotes_cons hyquote hyslash, bareQuotes_cons hzquote hzslash]

/-- A written byte is read back, whatever stands behind it. -/
private theorem readBody?_append (h : StringByte b w) (t : Text) :
    readBody? (w ++ t) = (readBody? t).map fun (s, rest) => (b :: s, rest) := by
  cases h with
  -- A plain byte stands for itself.
  | plain hascii hquote hslash =>
    have hline : b ≠ 0x0A := by
      rintro rfl
      exact absurd hascii (by decide)
    rw [List.singleton_append, readBody?, if_neg hquote, if_neg hline, if_neg hslash]
  | @letter c hc =>
    -- Every letter is found in the table, and none is a digit.
    have hall : cEscapes.all (fun x => !isOctalDigit x.1 && cEscapes.lookup x.1 == some x.2) = true := by decide
    have hfound := List.all_eq_true.1 hall _ hc
    simp only [Bool.and_eq_true, Bool.not_eq_true', beq_iff_eq] at hfound
    obtain ⟨hdigit, hlookup⟩ := hfound
    -- So the escape is the letter alone.
    have hescape : readEscape? (c :: t) = some (b, 1) := by
      simp [readEscape?, hdigit, hlookup]
    rw [List.cons_append, List.singleton_append, readBody?, if_neg (by decide), if_neg (by decide),
      if_pos rfl, hescape]
    rfl
  | @octal x y z hdigits hvalue =>
    -- All three digits are taken, so none behind them is.
    have hescape : readEscape? (x :: y :: z :: t) = some (b, 3) := by
      have htake : ([x, y, z] ++ []).takeWhile isOctalDigit = [x, y, z] := takeWhile_append_stop hdigits nofun
      have htake : ((x :: y :: z :: t).take 3).takeWhile isOctalDigit = [x, y, z] := htake
      have hlt := b.toNat_lt
      rw [readEscape?, htake]
      simp only [hvalue, if_pos hlt, Nat.toUInt8, UInt8.ofNat_toNat, List.length_cons, List.length_nil]
    rw [List.cons_append, readBody?, if_neg (by decide), if_neg (by decide), if_pos rfl,
      List.cons_append, List.cons_append, List.cons_append, List.nil_append, hescape]
    rfl

end StringByte

/-! ## Written texts -/

/-- The quotation marks of a written text are escaped. -/
private theorem bareQuotes_append (s : Text) (o : Nat) (t : Text) :
    bareQuotes false o (s.flatMap stringByte ++ t) = bareQuotes false (o + (s.flatMap stringByte).length) t := by
  induction s generalizing o with
  | nil => rfl
  | cons b s ih =>
    rw [List.flatMap_cons, List.append_assoc, (stringByte_written b).bareQuotes_append, ih, List.length_append,
      Nat.add_assoc]

/-- A written text is read up to its closing quotation mark. -/
private theorem readBody?_append (s t : Text) :
    readBody? (s.flatMap stringByte ++ 0x22 :: t) = some (s, t) := by
  induction s with
  | nil => rw [List.flatMap_nil, List.nil_append, readBody?, if_pos rfl]
  | cons b s ih =>
    rw [List.flatMap_cons, List.append_assoc, (stringByte_written b).readBody?_append, ih]
    rfl

/-- A literal is read up to its end, whatever stands behind it. -/
theorem readLiteral?_append (s t : Text) : readLiteral? (stringLiteral s ++ t) = some (s, t) := by
  rw [stringLiteral, List.append_assoc, List.append_assoc, List.singleton_append, List.singleton_append,
    readLiteral?, if_pos rfl, readBody?_append]

/-- What a literal keeps of the text it is written for. -/
structure Survives (s : Text) : Prop where
  printable : ∀ b ∈ stringLiteral s, isPrintableAscii b = true
  /-- The first byte and the last one are the only quotation marks that are not escaped. -/
  closed : bareQuotes false 0 (stringLiteral s) = [0, (stringLiteral s).length - 1]
  decoded : decodeLiteral? (stringLiteral s) = some s

private theorem survives (s : Text) : Survives s where
  printable := by
    -- All bytes are those of the quotation marks and of written bytes.
    have hquote : ∀ b ∈ ([0x22] : Text), isPrintableAscii b = true := List.forall_mem_singleton.2 (by decide)
    have hbody : ∀ b ∈ s.flatMap stringByte, isPrintableAscii b = true := by
      intro b hb
      obtain ⟨c, _, hb⟩ := List.mem_flatMap.1 hb
      exact (stringByte_written c).isPrintableAscii b hb
    exact List.forall_mem_append.2 ⟨List.forall_mem_append.2 ⟨hquote, hbody⟩, hquote⟩
  closed := by
    -- Only the first and the last byte are bare quotation marks.
    have hlen : (stringLiteral s).length - 1 = 0 + 1 + (s.flatMap stringByte).length := by
      rw [stringLiteral, List.length_append, List.length_append, List.length_singleton]
      omega
    rw [hlen, stringLiteral, List.append_assoc, List.singleton_append, bareQuotes, if_pos rfl,
      bareQuotes_append]
    rfl
  decoded := by
    -- Reading the literal gives the text and nothing behind it.
    have hread := readLiteral?_append s []
    rw [List.append_nil] at hread
    rw [decodeLiteral?, hread]

/-- A literal of the generated language is printable ASCII, its only quotation marks that are not escaped are
the first and the last byte, and reading it gives back the text, whatever bytes that has.  So no two texts are
written alike. -/
theorem stringLiteral_survives : (∀ s, Survives s) ∧ Function.Injective stringLiteral := by
  refine ⟨survives, fun s t heq => ?_⟩
  have hs := (survives s).decoded
  rw [heq, (survives t).decoded] at hs
  exact (Option.some.inj hs).symm

/-- A digit behind an octal escape, and a backslash at the end. -/
example : stringLiteral [0x01, 0x37, 0x5C] = "\"\\0017\\\\\"" := by decide

end AisScript
