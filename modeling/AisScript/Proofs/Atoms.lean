import AisScript.Proofs.Quoting
import AisScript.Proofs.MadeUp
import Mathlib.Data.Set.Function

/-!
# Names and literals of the generated language

A name goes on with letters, digits and underscores, and with every byte of a character beyond ASCII.  A number
has digits, perhaps with a point among them, and perhaps a minus sign in front; floats always have the point.  Each
of them is read to its end if a text stands behind it that stops it: two texts that begin with a name or a literal
and are equal have the same name or literal, and the same rest.

* `isName`                                    names, byte by byte
* `isName_of_spelled`                         the spelling of an identifier is one
* `opening?`, `Stopping`                      what a byte begins, and what ends a name or a number
* `IsNumber`, `IsSigned`, `floatLiteral_eq`   how numbers are written
* `name_unique`, `Literal.unique`             names and literals are read to their end
-/

namespace AisScript

open Text (isDigit)

/-! ## Runs of bytes -/

/-- Two runs of bytes of a kind are equal if each is followed by another kind and they begin a text alike. -/
private theorem run_unique {q : UInt8 → Bool} {w w' r r' : Text} (hw : ∀ b ∈ w, q b = true)
    (hw' : ∀ b ∈ w', q b = true) (hr : ∀ b ∈ r.head?, q b = false) (hr' : ∀ b ∈ r'.head?, q b = false)
    (h : w ++ r = w' ++ r') : w = w' ∧ r = r' := by
  have heq : w = w' := by
    rw [← takeWhile_append_stop hw hr, h, takeWhile_append_stop hw' hr']
  exact ⟨heq, List.append_cancel_left (heq ▸ h)⟩

/-! ## Bytes that begin, go on and stop -/

/-- A byte that begins a name; those of characters beyond ASCII count. -/
def beginsName (b : UInt8) : Bool := isNameStart b || 0x80 ≤ b

/-- A byte that goes on with a name. -/
def continuesName (b : UInt8) : Bool := isNameByte b || 0x80 ≤ b

/-- A name, byte by byte. -/
def isName : Text → Bool
  | [] => false
  | b :: t => beginsName b && t.all continuesName

/-- A text behind which a name or a number ends, and which is no range of bits.  A point may follow a number
unless a digit stands behind it. -/
def Stopping : Text → Prop
  | [] => True
  | b :: t => continuesName b = false ∧ b ≠ 0x5B ∧ (b = 0x2E → ∀ c ∈ t.head?, isDigit c = false)

/-- The kinds of bytes that begin the text of a sketch. -/
inductive Opening where
  | name | number | quote | parenthesis
deriving DecidableEq, Repr

/-- What a byte begins, if any. -/
def opening? (b : UInt8) : Option Opening :=
  if beginsName b then some .name
  else if isDigit b || b = 0x2D then some .number
  else if b = 0x22 then some .quote
  else if b = 0x28 then some .parenthesis
  else none

/-- What holds of the numbers below 256 holds of bytes. -/
private theorem forall_byte {p : UInt8 → Prop} (h : ∀ n < 256, p (UInt8.ofNat n)) (b : UInt8) : p b := by
  rw [← UInt8.ofNat_toNat (x := b)]
  exact h b.toNat b.toNat_lt

/-- A digit goes on with a name, and begins a number. -/
theorem opens_of_isDigit {b : UInt8} : isDigit b = true → continuesName b = true ∧ opening? b = some .number :=
  forall_byte (p := fun b => isDigit b = true → continuesName b = true ∧ opening? b = some .number)
    (by decide +kernel) b

/-- A byte that begins a name goes on with it, too. -/
private theorem continuesName_of_beginsName {b : UInt8} : beginsName b = true → continuesName b = true :=
  forall_byte (p := fun b => beginsName b = true → continuesName b = true) (by decide +kernel) b

namespace Stopping

variable {r : Text}

/-- No name goes on. -/
theorem not_continuesName (h : Stopping r) : ∀ b ∈ r.head?, continuesName b = false := by
  cases r with
  | nil => exact nofun
  | cons b t =>
    rintro _ ⟨⟩
    exact h.1

/-- No number goes on. -/
private theorem not_isDigit (h : Stopping r) : ∀ b ∈ r.head?, isDigit b = false := by
  intro b hb
  refine Bool.eq_false_iff.2 fun hdigit => ?_
  exact absurd (opens_of_isDigit hdigit).1 (ne_true_of_eq_false (h.not_continuesName b hb))

/-- No fraction follows. -/
private theorem not_fraction (h : Stopping r) {ds t : Text} (hds : IsNumeral ds) : r ≠ 0x2E :: (ds ++ t) := by
  rintro rfl
  obtain ⟨d, ds', rfl⟩ := List.exists_cons_of_ne_nil hds.1
  exact absurd (hds.2 d List.mem_cons_self) (ne_true_of_eq_false (h.2.2 rfl d rfl))

end Stopping

/-! ## Names -/

/-- A name goes on from its first byte to its last. -/
private theorem continuesName_of_isName {n : Text} (h : isName n = true) :
    ∀ b ∈ n, continuesName b = true := by
  cases n with
  | nil => exact nofun
  | cons b t =>
    obtain ⟨hb, ht⟩ := Bool.and_eq_true_iff.1 h
    exact List.forall_mem_cons.2 ⟨continuesName_of_beginsName hb, List.all_eq_true.1 ht⟩

/-- A name begins with a byte that begins one. -/
theorem opening_of_isName {n : Text} (h : isName n = true) : ∃ b t, n = b :: t ∧ opening? b = some .name := by
  cases n with
  | nil => exact nomatch h
  | cons b t => exact ⟨b, t, rfl, if_pos (Bool.and_eq_true_iff.1 h).1⟩

/-- A byte that does not go on with a name ends it. -/
theorem ends_name {b : UInt8} (hb : continuesName b = false) (t : Text) :
    ∀ c ∈ (b :: t).head?, continuesName c = false := by
  rintro _ ⟨⟩
  exact hb

/-- The spelling of an identifier is a name. -/
theorem isName_of_spelled {x w : Text} (h : Spelled .ident x w) : isName w = true := by
  cases h with
  | ident hb ht hfree =>
    refine Bool.and_eq_true_iff.2 ⟨Bool.or_eq_true_iff.2 (.inl hb), List.all_eq_true.2 fun c hc => ?_⟩
    exact Bool.or_eq_true_iff.2 (.inl (ht c hc))

/-- Names are read to their end. -/
theorem name_unique {n n' r r' : Text} (hn : isName n = true) (hn' : isName n' = true)
    (hr : ∀ b ∈ r.head?, continuesName b = false) (hr' : ∀ b ∈ r'.head?, continuesName b = false)
    (h : n ++ r = n' ++ r') : n = n' ∧ r = r' :=
  run_unique (continuesName_of_isName hn) (continuesName_of_isName hn') hr hr' h

/-! ## Numbers -/

/-- A number without a sign. -/
inductive IsNumber : Text → Prop where
  | whole {ds : Text} (hds : IsNumeral ds) : IsNumber ds
  | fraction {ds fs : Text} (hds : IsNumeral ds) (hfs : IsNumeral fs) : IsNumber (ds ++ 0x2E :: fs)

namespace IsNumber

variable {w w' r r' : Text}

/-- A number begins with a digit. -/
theorem exists_cons (h : IsNumber w) : ∃ b t, w = b :: t ∧ isDigit b = true := by
  cases h with
  | whole hds =>
    obtain ⟨b, t, rfl⟩ := List.exists_cons_of_ne_nil hds.1
    exact ⟨b, t, rfl, hds.2 b List.mem_cons_self⟩
  | @fraction ds fs hds hfs =>
    obtain ⟨b, t, rfl⟩ := List.exists_cons_of_ne_nil hds.1
    exact ⟨b, t ++ 0x2E :: fs, rfl, hds.2 b List.mem_cons_self⟩

/-- Numbers are read to their end. -/
theorem unique (h : IsNumber w) (h' : IsNumber w') (hr : Stopping r) (hr' : Stopping r') (heq : w ++ r = w' ++ r') :
    w = w' ∧ r = r' := by
  -- A point is no digit, so the digits in front of it are all there are.
  have hpoint : ∀ t : Text, ∀ b ∈ (0x2E :: t : Text).head?, isDigit b = false := by
    rintro t _ ⟨⟩
    decide
  -- Both are whole, both have a fraction, or the point of one would have to stand behind the other.
  cases h with
  | whole hds =>
    cases h' with
    | whole hds' => exact run_unique hds.2 hds'.2 hr.not_isDigit hr'.not_isDigit heq
    | fraction hds' hfs' =>
      rw [List.append_assoc, List.cons_append] at heq
      exact absurd (run_unique hds.2 hds'.2 hr.not_isDigit (hpoint _) heq).2 (hr.not_fraction hfs')
  | fraction hds hfs =>
    rw [List.append_assoc, List.cons_append] at heq
    cases h' with
    | whole hds' =>
      exact absurd (run_unique hds.2 hds'.2 (hpoint _) hr'.not_isDigit heq).2.symm (hr'.not_fraction hfs)
    | fraction hds' hfs' =>
      rw [List.append_assoc, List.cons_append] at heq
      -- The digits in front agree, and then those behind the point.
      obtain ⟨rfl, htail⟩ := run_unique hds.2 hds'.2 (hpoint _) (hpoint _) heq
      obtain ⟨rfl, rfl⟩ := run_unique hfs.2 hfs'.2 hr.not_isDigit hr'.not_isDigit (List.cons.inj htail).2
      exact ⟨rfl, rfl⟩

end IsNumber

/-- A number that may have a minus sign. -/
inductive IsSigned : Text → Prop where
  | plus {w : Text} (hw : IsNumber w) : IsSigned w
  | minus {w : Text} (hw : IsNumber w) : IsSigned (0x2D :: w)

namespace IsSigned

variable {w w' r r' : Text}

/-- A signed number begins as numbers do. -/
theorem opening (h : IsSigned w) : ∃ b t, w = b :: t ∧ opening? b = some .number := by
  cases h with
  | plus hw =>
    obtain ⟨b, t, rfl, hb⟩ := hw.exists_cons
    exact ⟨b, t, rfl, (opens_of_isDigit hb).2⟩
  | minus => exact ⟨_, _, rfl, by decide⟩

/-- Signed numbers are read to their end. -/
theorem unique (h : IsSigned w) (h' : IsSigned w') (hr : Stopping r) (hr' : Stopping r') (heq : w ++ r = w' ++ r') :
    w = w' ∧ r = r' := by
  -- A number does not begin with a minus sign.
  have hsign : ∀ {w v s t : Text}, IsNumber w → w ++ s ≠ 0x2D :: (v ++ t) := by
    intro w v s t hw heq
    obtain ⟨b, u, rfl, hb⟩ := hw.exists_cons
    rw [(List.cons.inj heq).1] at hb
    exact absurd hb (by decide)
  -- Both have the sign or neither has it.
  cases h with
  | plus hw =>
    cases h' with
    | plus hw' => exact hw.unique hw' hr hr' heq
    | minus hw' => exact absurd heq (hsign hw)
  | minus hw =>
    cases h' with
    | plus hw' => exact absurd heq.symm (hsign hw')
    | minus hw' =>
      obtain ⟨rfl, rfl⟩ := hw.unique hw' hr hr' (List.cons.inj heq).2
      exact ⟨rfl, rfl⟩

end IsSigned

/-- The numeral of a natural number. -/
private theorem isNumeral_ofNat (n : Nat) : IsNumeral (Text.ofNat n) :=
  ⟨fun h => Nat.toDigits_ne_nil (List.map_eq_nil_iff.1 h), fun _ hb => isDigit_of_mem_ofNat hb⟩

/-- Numerals in front of a byte that is no digit are read to their end. -/
theorem numeral_unique {m m' : Nat} {b : UInt8} {t t' : Text} (hb : isDigit b = false)
    (h : Text.ofNat m ++ b :: t = Text.ofNat m' ++ b :: t') : m = m' ∧ t = t' := by
  have hend : ∀ t : Text, ∀ c ∈ (b :: t).head?, isDigit c = false := by
    rintro t _ ⟨⟩
    exact hb
  obtain ⟨hm, ht⟩ := run_unique (isNumeral_ofNat m).2 (isNumeral_ofNat m').2 (hend t) (hend t') h
  exact ⟨ofNat_inj hm, (List.cons.inj ht).2⟩

/-- An integer is written as a signed number. -/
private theorem isSigned_ofInt (z : Int) : IsSigned (Text.ofInt z) := by
  cases z with
  | ofNat n => exact .plus (.whole (isNumeral_ofNat n))
  | negSucc n => exact .minus (.whole (isNumeral_ofNat (n + 1)))

/-- No two integers are written alike. -/
private theorem ofInt_injective : Function.Injective Text.ofInt := by
  -- Numerals consist of digits, and the minus sign is none.
  have hsign : ∀ m n, Text.ofNat m ≠ 0x2D :: Text.ofNat n := by
    intro m n heq
    have hdigit : isDigit 0x2D = true := isDigit_of_mem_ofNat (k := m) (heq ▸ List.mem_cons_self)
    exact absurd hdigit (by decide)
  intro y z h
  -- The sign tells the negative ones apart, and the numeral tells the rest.
  cases y with
  | ofNat m =>
    cases z with
    | ofNat n => exact congrArg Int.ofNat (ofNat_inj h)
    | negSucc n => exact absurd h (hsign m (n + 1))
  | negSucc m =>
    cases z with
    | ofNat n => exact absurd h.symm (hsign n (m + 1))
    | negSucc n => exact congrArg Int.negSucc (Nat.succ_inj.1 (ofNat_inj (List.cons.inj h).2))

/-- The shortest digits of a float are digits. -/
private theorem isDigit_of_mem_shortest {d : Double} {b : UInt8} (h : b ∈ d.shortest.1) :
    isDigit b = true := by
  unfold Double.shortest at h
  split at h
  · exact nomatch h
  · have h := List.mem_reverse.1 ((List.dropWhile_sublist _).mem (List.mem_reverse.1 h))
    exact isDigit_of_mem_ofNat h

/-- Digits around a decimal point make a number. -/
private theorem isNumber_placed {digits : Text} (h : ∀ b ∈ digits, isDigit b = true) (point : Int) :
    IsNumber (Double.placed digits point) := by
  -- Zeros that pad a numeral are digits as well.
  have hzeros : ∀ n, ∀ b ∈ List.replicate n (0x30 : UInt8), isDigit b = true := by
    intro n b hb
    rw [List.eq_of_mem_replicate hb]
    decide
  have hzero : IsNumeral [0x30] := ⟨nofun, List.forall_mem_singleton.2 (by decide)⟩
  unfold Double.placed
  -- The point stands in front of all digits, or among or behind them.
  split
  case isTrue =>
    cases digits with
    | nil => exact .whole hzero
    | cons b t =>
      have hfraction : IsNumeral (List.replicate (-point).toNat 0x30 ++ b :: t) :=
        ⟨List.append_ne_nil_of_right_ne_nil _ (List.cons_ne_nil b t), List.forall_mem_append.2 ⟨hzeros _, h⟩⟩
      exact .fraction hzero hfraction
  case isFalse hpos =>
    have hwhole : IsNumeral (digits.take point.toNat ++ List.replicate (point.toNat - digits.length) 0x30) := by
      refine ⟨List.ne_nil_of_length_pos ?_, List.forall_mem_append.2
        ⟨fun b hb => h b (List.mem_of_mem_take hb), hzeros _⟩⟩
      rw [List.length_append, List.length_take, List.length_replicate]
      omega
    -- Without digits behind the point there is no fraction.
    cases hrest : digits.drop point.toNat with
    | nil =>
      simp only [hrest, List.isEmpty_nil, if_true]
      exact .whole hwhole
    | cons b t =>
      simp only [hrest, List.isEmpty_cons, Bool.false_eq_true, if_false, List.append_assoc _ ("." : Text)]
      exact .fraction hwhole ⟨nofun, fun c hc => h c (List.mem_of_mem_drop (hrest ▸ hc))⟩

/-- A float is written with digits on both sides of a point. -/
theorem floatLiteral_eq (d : Double) : ∃ ds fs, IsNumeral ds ∧ IsNumeral fs ∧ floatLiteral d = ds ++ 0x2E :: fs := by
  have hnumber : IsNumber d.positional :=
    isNumber_placed (fun _ hb => isDigit_of_mem_shortest hb) d.shortest.2
  rw [floatLiteral]
  generalize d.positional = t at hnumber
  cases hnumber with
  | whole hds =>
    have hpoint : (0x2E : UInt8) ∉ t := fun hmem => absurd (hds.2 _ hmem) (by decide)
    have hzero : IsNumeral [0x30] := ⟨nofun, List.forall_mem_singleton.2 (by decide)⟩
    exact ⟨t, [0x30], hds, hzero, if_neg fun h => hpoint (List.contains_iff_mem.1 h)⟩
  | @fraction ds fs hds hfs =>
    exact ⟨ds, fs, hds, hfs, if_pos (List.contains_iff_mem.2 (List.mem_append_right ds List.mem_cons_self))⟩

/-! ## Literals -/

variable {F : Set Double}

/-- The kind of byte that begins a literal. -/
def Literal.opening : Literal → Opening
  | .string _ => .quote
  | _ => .number

/-- A literal other than a string is written as a signed number. -/
theorem Literal.isSigned {v : Literal} (h : v.opening = .number) : IsSigned v.generate := by
  cases v with
  | int z => exact isSigned_ofInt z.toInt
  | float d =>
    obtain ⟨ds, fs, hds, hfs, heq⟩ := floatLiteral_eq d
    rw [Literal.generate, heq]
    exact .plus (.fraction hds hfs)
  | string t => exact nomatch h

/-- A literal begins with a byte of its kind. -/
theorem Literal.opening_generate (v : Literal) : ∃ b t, v.generate = b :: t ∧ opening? b = some v.opening := by
  cases v with
  | string t => exact ⟨0x22, _, rfl, show opening? 0x22 = some .quote by decide⟩
  | int z => exact (Literal.isSigned (v := .int z) rfl).opening
  | float d => exact (Literal.isSigned (v := .float d) rfl).opening

/-- No integer is written as a float is. -/
private theorem ofInt_ne_floatLiteral (z : Int) (d : Double) : Text.ofInt z ≠ floatLiteral d := by
  obtain ⟨ds, fs, _, _, heq⟩ := floatLiteral_eq d
  have hpoint : (0x2E : UInt8) ∈ floatLiteral d := heq ▸ List.mem_append_right ds List.mem_cons_self
  have hdigits : ∀ n, (0x2E : UInt8) ∉ Text.ofNat n := fun n hmem => absurd (isDigit_of_mem_ofNat hmem) (by decide)
  intro h
  rw [← h] at hpoint
  cases z with
  | ofNat n => exact hdigits n hpoint
  | negSucc n => exact (List.mem_cons.1 hpoint).elim (by decide) (hdigits (n + 1))

/-- Literals other than strings that are written alike are equal, if floats are written apart. -/
private theorem Literal.generate_inj (hF : Set.InjOn floatLiteral F) {v v' : Literal}
    (h : v.opening = .number)
    (h' : v'.opening = .number) (hv : ∀ d, v = .float d → d ∈ F) (hv' : ∀ d, v' = .float d → d ∈ F)
    (heq : v.generate = v'.generate) : v = v' := by
  -- Integers never read like floats; integers are told apart by their numerals and floats by assumption.
  cases v with
  | string t => exact nomatch h
  | int z =>
    cases v' with
    | string t => exact nomatch h'
    | int z' => exact congrArg Literal.int (Int64.toInt_inj.1 (ofInt_injective heq))
    | float d' => exact absurd heq (ofInt_ne_floatLiteral _ d')
  | float d =>
    cases v' with
    | string t => exact nomatch h'
    | int z' => exact absurd heq.symm (ofInt_ne_floatLiteral _ d)
    | float d' => exact congrArg Literal.float (hF (hv d rfl) (hv' d' rfl) heq)

/-- Literals are read to their end. -/
theorem Literal.unique (hF : Set.InjOn floatLiteral F) {v v' : Literal} {r r' : Text}
    (hopening : v.opening = v'.opening) (hv : ∀ d, v = .float d → d ∈ F) (hv' : ∀ d, v' = .float d → d ∈ F)
    (hr : Stopping r) (hr' : Stopping r') (h : v.generate ++ r = v'.generate ++ r') : v = v' ∧ r = r' := by
  -- Numbers are read to their end and then compared; strings are read up to their closing quote.
  by_cases hnumber : v.opening = .number
  · have hnumber' := hopening.symm.trans hnumber
    obtain ⟨heq, hrest⟩ := (Literal.isSigned hnumber).unique (Literal.isSigned hnumber') hr hr' h
    exact ⟨Literal.generate_inj hF hnumber hnumber' hv hv' heq, hrest⟩
  · cases v with
    | string t =>
      cases v' with
      | string t' =>
        have hread := readLiteral?_append t r
        rw [show stringLiteral t ++ r = stringLiteral t' ++ r' from h, readLiteral?_append] at hread
        cases hread
        exact ⟨rfl, rfl⟩
      | _ => exact nomatch hopening
    | _ => exact absurd rfl hnumber

end AisScript
