import AisScript.Expand
import AisScript.Host

/-!
# Made-up names

Expansion makes up two kinds of names: those of temporaries and the fresh names of contested bindings.
Both begin with two underscores and end with a number.  A plain name does not have this form, so no made-up
name is plain; made-up names with different numbers or of different kinds differ.

* `Text.isNumbered`, `Text.isPlain`         the form of made-up names, and all other names
* `isPlain_freshName`, `isPlain_tempName`   made-up names are not plain
* `freshName_number`, `tempName_number`     made-up names with different numbers differ
* `freshName_ne_tempName`                   no fresh name is the name of a temporary
-/

namespace AisScript

open Text (isDigit)

/-- The name of a temporary. -/
def tempName (number : Nat) : Text := tempStem ++ Text.ofNat number

/-- A name that begins with two underscores and ends with a digit. -/
def Text.isNumbered (n : Text) : Bool :=
  (Text.ofString "__").isPrefixOf n && n.getLast?.any Text.isDigit

/-- A name that expansion cannot make up. -/
def Text.isPlain (n : Text) : Bool := !n.isNumbered

/-! ## Numerals -/

/-- A digit as a byte. -/
private theorem isDigit_byte {c : Char} (h : c.isDigit = true) : isDigit (Text.byte c) = true := by
  simp only [Char.isDigit, Bool.and_eq_true, decide_eq_true_eq] at h
  obtain ⟨h₁, h₂⟩ := h
  have h₁ : 48 ≤ c.toNat := h₁
  have h₂ : c.toNat ≤ 57 := h₂
  simp only [isDigit, Text.byte, Bool.and_eq_true, decide_eq_true_eq, UInt8.le_iff_toNat_le,
    Nat.toUInt8, UInt8.toNat_ofNat']
  have h₃ : c.toNat % 2 ^ 8 = c.toNat := Nat.mod_eq_of_lt (by omega)
  rw [h₃]
  exact ⟨h₁, h₂⟩

/-- A numeral consists of digits. -/
theorem isDigit_of_mem_ofNat {k : Nat} {b : UInt8} (h : b ∈ Text.ofNat k) : isDigit b = true := by
  obtain ⟨c, hc, rfl⟩ := List.mem_map.1 h
  exact isDigit_byte (Nat.isDigit_of_mem_toDigits (by decide) (by decide) hc)

/-- Different numbers have different numerals. -/
theorem ofNat_inj {j k : Nat} (h : Text.ofNat j = Text.ofNat k) : j = k := by
  -- A digit can be read back off its byte.
  have hchar : ∀ n, ∀ c ∈ Nat.toDigits 10 n, Char.ofNat (Text.byte c).toNat = c := by
    intro n c hc
    have hd := Nat.isDigit_of_mem_toDigits (by decide) (by decide) hc
    simp only [Char.isDigit, Bool.and_eq_true, decide_eq_true_eq] at hd
    have hle : c.toNat ≤ 57 := hd.2
    have hmod : c.toNat % 2 ^ 8 = c.toNat := Nat.mod_eq_of_lt (by omega)
    simp only [Text.byte, Nat.toUInt8, UInt8.toNat_ofNat', hmod, Char.ofNat_toNat]
  -- So the digits can be read back off the numeral.
  have hback : ∀ n, (Text.ofNat n).map (fun b => Char.ofNat b.toNat) = Nat.toDigits 10 n := by
    intro n
    rw [Text.ofNat, List.map_map]
    exact (List.map_congr_left (hchar n)).trans (List.map_id' _)
  -- Equal numerals have equal digits, and the digits give the number.
  have hdigits : Nat.toDigits 10 j = Nat.toDigits 10 k := by rw [← hback, ← hback, h]
  rw [← @Nat.ofDigitChars_ten_toDigits j, ← @Nat.ofDigitChars_ten_toDigits k, hdigits]

/-- The byte of an underscore. -/
private def underscore : UInt8 := 0x5F

/-- A numeral has no underscore. -/
private theorem underscore_not_mem_ofNat (k : Nat) : underscore ∉ Text.ofNat k :=
  fun h => nomatch isDigit_of_mem_ofNat h

/-! ## Plain names -/

/-- Two underscores, anything and a number. -/
private theorem isNumbered_append (n : Text) (k : Nat) :
    Text.isNumbered (Text.ofString "__" ++ n ++ Text.ofNat k) = true := by
  have hne : Text.ofNat k ≠ [] := fun h => Nat.toDigits_ne_nil (List.map_eq_nil_iff.1 h)
  have hstem : (Text.ofString "__").isPrefixOf (Text.ofString "__" ++ n ++ Text.ofNat k) = true := by
    rw [List.isPrefixOf_iff_prefix, List.append_assoc]
    exact List.prefix_append _ _
  have hlast : (Text.ofString "__" ++ n ++ Text.ofNat k).getLast? = some ((Text.ofNat k).getLast hne) := by
    rw [List.getLast?_append, List.getLast?_eq_some_getLast hne]
    rfl
  rw [Text.isNumbered, hstem, hlast]
  exact isDigit_of_mem_ofNat (List.getLast_mem hne)

/-- The name of a temporary is numbered. -/
theorem isNumbered_tempName (k : Nat) : Text.isNumbered (tempName k) = true :=
  isNumbered_append (Text.ofString "retval") k

/-- A fresh name is numbered. -/
theorem isNumbered_freshName (name : Text) (k : Nat) : Text.isNumbered (freshName name k) = true := by
  rw [freshName, List.append_assoc (Text.ofString "__")]
  exact isNumbered_append (name ++ Text.ofString "_") k

/-- A fresh name is not plain. -/
@[simp] theorem isPlain_freshName (name : Text) (k : Nat) : Text.isPlain (freshName name k) = false := by
  rw [Text.isPlain, isNumbered_freshName]
  rfl

/-- The name of a temporary is not plain. -/
@[simp] theorem isPlain_tempName (k : Nat) : Text.isPlain (tempName k) = false := by
  rw [Text.isPlain, isNumbered_tempName]
  rfl

/-! ## Names of different kinds -/

/-- What stands behind the last underscore of a text. -/
private theorem behind_underscore {xs ys ds es : Text} (hd : underscore ∉ ds) (he : underscore ∉ es)
    (h : xs ++ [underscore] ++ ds = ys ++ [underscore] ++ es) : ds = es := by
  -- The longer of the two rests would hold the other text's last underscore.
  have hshort : ∀ {xs ys as ds es : Text}, underscore ∉ ds → ys ++ [underscore] = xs ++ [underscore] ++ as →
      ds = as ++ es → ds = es := by
    intro xs ys as ds es hd hys hds
    -- What is left between the two underscores is empty, or it ends in the second one.
    cases hlast : as.getLast? with
    | none =>
      rw [List.getLast?_eq_none_iff.1 hlast] at hds
      exact hds
    | some b =>
      -- The last byte in between is the last underscore of the other text.
      have hb : (ys ++ [underscore]).getLast? = some b := by
        rw [hys, List.getLast?_append, hlast]
        rfl
      rw [List.getLast?_concat] at hb
      cases hb
      exact absurd (hds ▸ List.mem_append_left es (List.mem_of_getLast? hlast)) hd
  -- Either text can be the longer one.
  rcases List.append_eq_append_iff.1 h with ⟨as, hys, hds⟩ | ⟨as, hxs, hes⟩
  · exact hshort hd hys hds
  · exact (hshort he hxs hes).symm

/-- Fresh names with different numbers differ. -/
theorem freshName_number {m n : Text} {j k : Nat} (h : freshName m j = freshName n k) : j = k :=
  ofNat_inj (behind_underscore (underscore_not_mem_ofNat j) (underscore_not_mem_ofNat k) h)

/-- Temporaries with different numbers have different names. -/
theorem tempName_number {j k : Nat} (h : tempName j = tempName k) : j = k :=
  ofNat_inj (List.append_cancel_left h)

/-- No fresh name is the name of a temporary. -/
theorem freshName_ne_tempName (n : Text) (j k : Nat) : freshName n j ≠ tempName k := by
  intro h
  have hstem : tempName k = Text.ofString "__" ++ (Text.ofString "retval" ++ Text.ofNat k) := rfl
  rw [hstem, freshName, List.append_assoc, List.append_assoc] at h
  have h := List.append_cancel_left h
  have hmem : underscore ∈ n ++ (Text.ofString "_" ++ Text.ofNat j) :=
    List.mem_append_right _ (List.mem_append_left _ (by decide))
  rw [h] at hmem
  rcases List.mem_append.1 hmem with hmem | hmem
  · revert hmem
    decide
  · exact underscore_not_mem_ofNat k hmem

end AisScript
