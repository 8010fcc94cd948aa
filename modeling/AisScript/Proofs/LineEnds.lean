import AisScript.Source.File

/-!
# Folded line ends

Folding drops each carriage return directly in front of a newline and keeps every other byte where it stands
among the others.  It looks at the text as it was, so of several carriage returns in front of a newline it drops
the last one only: then the folded text has a long line end again, and folding it once more goes on.

* `Source.keptBytes`                  what is left, place by place
* `Source.hasLongEnds_foldLineEnds`   when the folded text has long line ends
* `Source.foldLineEnds_lawful`        what folding keeps and tells, and when it is complete
-/

namespace AisScript.Source

variable {t : Text} {b : UInt8} {i : Nat}

/-! ## What is dropped -/

/-- A carriage return directly in front of a newline. -/
def LongEnd (t : Text) (i : Nat) : Prop := t[i]? = some 0x0D ∧ t[i + 1]? = some 0x0A

instance (t : Text) (i : Nat) : Decidable (LongEnd t i) := inferInstanceAs (Decidable (_ ∧ _))

/-- The bytes of a text that are no carriage returns directly in front of a newline, in order. -/
def keptBytes (t : Text) : Text := (t.zipIdx.filter fun x => ¬LongEnd t x.2).map Prod.fst

private theorem longEnd_zero : LongEnd (b :: t) 0 ↔ b = 0x0D ∧ t.head? = some 0x0A := by
  rw [LongEnd, List.getElem?_cons_zero, List.getElem?_cons_succ, Option.some_inj, List.head?_eq_getElem?]

/-- A text begins with a long line end, or it does not. -/
private theorem longEnd_zero_iff (t : Text) : LongEnd t 0 ↔ [0x0D, 0x0A] <+: t := by
  cases t with
  | nil => exact iff_of_false (fun h => nomatch h.1) fun h => nomatch List.prefix_nil.1 h
  | cons b t =>
    rw [longEnd_zero, List.cons_prefix_cons, eq_comm, List.singleton_prefix_iff_head?_eq_some]

private theorem longEnd_succ : LongEnd (b :: t) (i + 1) ↔ LongEnd t i := by
  rw [LongEnd, List.getElem?_cons_succ, List.getElem?_cons_succ, LongEnd]

/-- Folding, one byte at a time. -/
private theorem foldLineEnds_cons (b : UInt8) (t : Text) :
    foldLineEnds (b :: t) = if LongEnd (b :: t) 0 then foldLineEnds t else b :: foldLineEnds t := by
  simp only [foldLineEnds, longEnd_zero]

private theorem foldLineEnds_of_longEnd (h : LongEnd (b :: t) 0) :
    foldLineEnds (b :: t) = foldLineEnds t := by
  rw [foldLineEnds_cons, if_pos h]

private theorem foldLineEnds_of_not (h : ¬LongEnd (b :: t) 0) :
    foldLineEnds (b :: t) = b :: foldLineEnds t := by
  rw [foldLineEnds_cons, if_neg h]

/-- The bytes that are kept, one byte at a time. -/
private theorem keptBytes_cons (b : UInt8) (t : Text) :
    keptBytes (b :: t) = if LongEnd (b :: t) 0 then keptBytes t else b :: keptBytes t := by
  have htail : ((t.zipIdx 1).filter fun x => ¬LongEnd (b :: t) x.2).map Prod.fst = keptBytes t := by
    rw [List.zipIdx_succ, List.filter_map, List.map_map]
    refine congrArg (List.map Prod.fst) (List.filter_congr fun x _ => ?_)
    exact decide_eq_decide.2 (not_congr longEnd_succ)
  rw [keptBytes, List.zipIdx_cons, List.filter_cons, Nat.zero_add]
  by_cases h : LongEnd (b :: t) 0
  · rw [if_neg (by simpa using h), if_pos h, htail]
  · rw [if_pos (by simpa using h), if_neg h, List.map_cons, htail]

/-- Folding keeps all other bytes. -/
private theorem foldLineEnds_eq_keptBytes (t : Text) : foldLineEnds t = keptBytes t := by
  induction t with
  | nil => rfl
  | cons b t ih => rw [foldLineEnds_cons, keptBytes_cons, ih]

/-- Nothing but carriage returns is dropped. -/
private theorem filter_foldLineEnds (t : Text) :
    (foldLineEnds t).filter (· ≠ 0x0D) = t.filter (· ≠ 0x0D) := by
  induction t with
  | nil => rfl
  | cons b t ih =>
    rw [foldLineEnds_cons]
    split
    case isTrue h =>
      rw [(longEnd_zero.1 h).1, List.filter_cons_of_neg (by decide), ih]
    case isFalse => rw [List.filter_cons, List.filter_cons, ih]

private theorem count_newline_foldLineEnds (t : Text) : (foldLineEnds t).count 0x0A = t.count 0x0A := by
  have hcount : ∀ s : Text, s.count 0x0A = (s.filter (· ≠ 0x0D)).count 0x0A := fun s =>
    (List.count_filter (by decide)).symm
  rw [hcount, filter_foldLineEnds, ← hcount]

private theorem length_foldLineEnds_le (t : Text) : (foldLineEnds t).length ≤ t.length := by
  induction t with
  | nil => exact Nat.le_refl _
  | cons b t ih =>
    rw [foldLineEnds_cons]
    split
    · exact Nat.le_succ_of_le ih
    · exact Nat.succ_le_succ ih

/-! ## Long line ends -/

private theorem hasLongEnds_cons (b : UInt8) (t : Text) :
    hasLongEnds (b :: t) = true ↔ LongEnd (b :: t) 0 ∨ hasLongEnds t = true := by
  rw [hasLongEnds, Bool.or_eq_true, Bool.and_eq_true, beq_iff_eq, beq_iff_eq, longEnd_zero]

private theorem hasLongEnds_iff (t : Text) : hasLongEnds t = true ↔ ∃ i, LongEnd t i := by
  induction t with
  | nil => exact iff_of_false Bool.false_ne_true fun ⟨_, h, _⟩ => nomatch h
  | cons b t ih =>
    rw [hasLongEnds_cons, ih]
    constructor
    · rintro (h | ⟨i, h⟩)
      · exact ⟨0, h⟩
      · exact ⟨i + 1, longEnd_succ.2 h⟩
    · rintro ⟨i, h⟩
      cases i with
      | zero => exact .inl h
      | succ i => exact .inr ⟨i, longEnd_succ.1 h⟩

/-- A text is changed exactly if it has a long line end. -/
private theorem foldLineEnds_eq_iff (t : Text) : foldLineEnds t = t ↔ hasLongEnds t = false := by
  induction t with
  | nil => exact iff_of_true rfl rfl
  | cons b t ih =>
    by_cases h : LongEnd (b :: t) 0
    · -- What is left is shorter than before.
      have hlen := length_foldLineEnds_le t
      refine iff_of_false (fun heq => ?_) (Bool.not_eq_false _ ▸ (hasLongEnds_cons b t).2 (.inl h))
      rw [foldLineEnds_of_longEnd h] at heq
      rw [heq, List.length_cons] at hlen
      omega
    · rw [foldLineEnds_of_not h, List.cons_inj_right, ih, ← Bool.not_eq_true, ← Bool.not_eq_true,
        hasLongEnds_cons, or_iff_right h]

/-- Two carriage returns and a newline. -/
def doubleReturn : Text := [0x0D, 0x0D, 0x0A]

/-- The folded text begins with a newline if the text does, or if it begins with a long line end. -/
private theorem head?_foldLineEnds (t : Text) :
    (foldLineEnds t).head? = some 0x0A ↔ t.head? = some 0x0A ∨ LongEnd t 0 := by
  cases t with
  | nil => simp [foldLineEnds, LongEnd]
  | cons b t =>
    by_cases h : LongEnd (b :: t) 0
    · obtain ⟨_, hnewline⟩ := longEnd_zero.1 h
      obtain ⟨rest, rfl⟩ := List.head?_eq_some_iff.1 hnewline
      have hkept : ¬LongEnd (0x0A :: rest) 0 := fun h => absurd (longEnd_zero.1 h).1 (by decide)
      rw [foldLineEnds_of_longEnd h, foldLineEnds_of_not hkept]
      exact iff_of_true rfl (.inr h)
    · rw [foldLineEnds_of_not h, List.head?_cons, List.head?_cons, or_iff_left h]

/-- The folded text has a long line end exactly where two carriage returns stood in front of a newline. -/
theorem hasLongEnds_foldLineEnds (t : Text) : hasLongEnds (foldLineEnds t) = true ↔ doubleReturn <:+: t := by
  -- By induction on the text: an infix starts at the first byte or behind it.
  induction t with
  | nil => exact iff_of_false Bool.false_ne_true fun h => nomatch List.infix_nil.1 h
  | cons b t ih =>
    rw [List.infix_cons_iff, ← ih]
    by_cases h : LongEnd (b :: t) 0
    · -- The byte behind the carriage return is the newline and no other carriage return.
      rw [foldLineEnds_of_longEnd h, or_iff_right]
      rintro ⟨rest, heq⟩
      obtain ⟨_, hnewline⟩ := longEnd_zero.1 h
      rw [← (List.cons.inj heq).2] at hnewline
      exact nomatch hnewline
    -- A byte that is kept starts a long end in the folded text if it did so before.
    · rw [foldLineEnds_of_not h, hasLongEnds_cons, longEnd_zero, head?_foldLineEnds]
      rw [longEnd_zero] at h
      refine or_congr_left ?_
      rw [doubleReturn, List.cons_prefix_cons, ← longEnd_zero_iff, eq_comm (a := b)]
      exact and_congr_right fun hb => or_iff_right fun hnewline => h ⟨hb.symm, hnewline⟩

/-- A second folding changes nothing exactly if there are no two carriage returns in front of a newline. -/
private theorem foldLineEnds_idem_iff (t : Text) :
    foldLineEnds (foldLineEnds t) = foldLineEnds t ↔ ¬doubleReturn <:+: t := by
  rw [foldLineEnds_eq_iff, ← Bool.not_eq_true, hasLongEnds_foldLineEnds]

/-- What folding keeps of a text and tells about it. -/
structure Folds (t : Text) : Prop where
  /-- What is left are the bytes that are no carriage returns directly in front of a newline. -/
  kept : foldLineEnds t = keptBytes t
  newlines : (foldLineEnds t).count 0x0A = t.count 0x0A
  others : (foldLineEnds t).filter (· ≠ 0x0D) = t.filter (· ≠ 0x0D)
  changed : hasLongEnds t = true ↔ foldLineEnds t ≠ t
  complete : (∃ i, LongEnd (foldLineEnds t) i) ↔ doubleReturn <:+: t
  repeatable : foldLineEnds (foldLineEnds t) = foldLineEnds t ↔ ¬doubleReturn <:+: t

private theorem folds (t : Text) : Folds t where
  kept := foldLineEnds_eq_keptBytes t
  newlines := count_newline_foldLineEnds t
  others := filter_foldLineEnds t
  changed := by rw [ne_eq, foldLineEnds_eq_iff, Bool.not_eq_false]
  complete := by rw [← hasLongEnds_iff, hasLongEnds_foldLineEnds]
  repeatable := foldLineEnds_idem_iff t

/-! ## Files that are read again -/

/-- The byte order mark. -/
def orderMark : Text := [0xEF, 0xBB, 0xBF]

/-- Without its mark a text is shorter, and a text without a mark stays as it is. -/
private theorem dropMark_cases (t : Text) :
    (orderMark <+: t ∧ (dropMark t).length < t.length) ∨ (¬orderMark <+: t ∧ dropMark t = t) := by
  unfold dropMark
  split
  case h_1 rest =>
    refine .inl ⟨⟨rest, rfl⟩, ?_⟩
    simp only [List.length_cons]
    omega
  case h_2 hno =>
    refine .inr ⟨?_, rfl⟩
    rintro ⟨rest, rfl⟩
    exact hno rest rfl

/-- A text that was folded is read back as it is if it has no long line ends left and no mark in front. -/
private theorem fold_dropMark_eq_iff (t : Text) :
    foldLineEnds (dropMark (foldLineEnds t)) = foldLineEnds t
      ↔ ¬doubleReturn <:+: t ∧ ¬orderMark <+: foldLineEnds t := by
  rcases dropMark_cases (foldLineEnds t) with ⟨hmark, hlt⟩ | ⟨hno, heq⟩
  · refine iff_of_false (fun heq => ?_) fun h => h.2 hmark
    have hle := length_foldLineEnds_le (dropMark (foldLineEnds t))
    rw [heq] at hle
    omega
  · rw [heq, foldLineEnds_idem_iff, and_iff_left hno]

/-- What becomes of a file that is read, written as it was read, and read again. -/
structure Rereads (path bytes : Text) : Prop where
  told : (SourceFile.ofDisk path bytes).flags.folded = true
    ↔ (SourceFile.ofDisk path bytes).content ≠ dropMark bytes
  disk : (SourceFile.ofDisk path (SourceFile.ofDisk path bytes).content).content
      = (SourceFile.ofDisk path bytes).content
    ↔ ¬doubleReturn <:+: dropMark bytes ∧ ¬orderMark <+: (SourceFile.ofDisk path bytes).content
  memory : (SourceFile.inMemory path (SourceFile.inMemory path bytes).content).content
      = (SourceFile.inMemory path bytes).content ↔ ¬doubleReturn <:+: bytes
  diskHash : ¬doubleReturn <:+: dropMark bytes → ¬orderMark <+: (SourceFile.ofDisk path bytes).content →
    (SourceFile.ofDisk path (SourceFile.ofDisk path bytes).content).hash = (SourceFile.ofDisk path bytes).hash
  memoryHash : ¬doubleReturn <:+: bytes →
    (SourceFile.inMemory path (SourceFile.inMemory path bytes).content).hash
      = (SourceFile.inMemory path bytes).hash

private theorem rereads (path bytes : Text) : Rereads path bytes where
  told := (folds (dropMark bytes)).changed
  disk := fold_dropMark_eq_iff (dropMark bytes)
  memory := foldLineEnds_idem_iff bytes
  diskHash hreturn hmark := congrArg Text.sha256 ((fold_dropMark_eq_iff (dropMark bytes)).2 ⟨hreturn, hmark⟩)
  memoryHash hreturn := congrArg Text.sha256 ((foldLineEnds_idem_iff bytes).2 hreturn)

/-- Folding drops the carriage returns directly in front of a newline and nothing else, and tells whether there
were any.  It is complete, and a file stays the same when it is read again, exactly if no two carriage returns
stood in front of a newline and no second mark stood behind the first. -/
theorem foldLineEnds_lawful (path bytes : Text) : Folds bytes ∧ Rereads path bytes :=
  ⟨folds bytes, rereads path bytes⟩

/-- Of two carriage returns in front of a newline one is left, and goes when the file is read again. -/
theorem doubleReturn_left :
    LongEnd (foldLineEnds doubleReturn) 0 ∧ foldLineEnds (foldLineEnds doubleReturn) ≠ foldLineEnds doubleReturn
      ∧ (SourceFile.inMemory "a" (SourceFile.inMemory "a" doubleReturn).content).content
        ≠ (SourceFile.inMemory "a" doubleReturn).content := by
  decide

end AisScript.Source
