import AisScript.Source.File

/-!
# Positions

An offset is turned into a line and a column by a search among the newlines of its file, and a line is cut
out between two neighbouring newlines.  Both go by the same stretches: the line with `k` newlines in front of
it reaches from its start to its stop, and each offset up to the end of the file lies within exactly one of
these stretches.

* `Source.splits_bisect`                   where the search ends
* `SourceFile.starts`, `SourceFile.stops`  the stretch of a line
* `SourceFile.Within`                      offsets in the stretch of a line
* `SourceFile.position_of_within`          positions in terms of stretches
-/

namespace AisScript

namespace Source

variable {t : Text} {xs : List Nat} {x k i j low high : Nat}

/-! ## The search -/

/-- The numbers of a list in front of place `k` are below `x`, and no other one is. -/
structure Splits (xs : List Nat) (x k : Nat) : Prop where
  le : k ≤ xs.length
  below : ∀ i, i < k → xs.getD i 0 < x
  above : ∀ i, k ≤ i → i < xs.length → x ≤ xs.getD i 0

/-- There is only one such place. -/
theorem Splits.unique {k' : Nat} (h : Splits xs x k) (h' : Splits xs x k') : k = k' := by
  have hle : ∀ {k k'}, Splits xs x k → Splits xs x k' → k ≤ k' := fun {k k'} h h' =>
    Nat.le_of_not_lt fun hlt =>
      Nat.not_lt.2 (h'.above k' (Nat.le_refl k') (Nat.lt_of_lt_of_le hlt h.le)) (h.below k' hlt)
  exact Nat.le_antisymm (hle h h') (hle h' h)

/-- Numbers further back in an ascending list are greater. -/
private theorem getD_lt_getD (hxs : xs.Pairwise (· < ·)) (hij : i < j) (hj : j < xs.length) :
    xs.getD i 0 < xs.getD j 0 := by
  rw [← List.getElem_eq_getD (h := Nat.lt_trans hij hj), ← List.getElem_eq_getD (h := hj)]
  exact List.pairwise_iff_getElem.1 hxs i j _ hj hij

private theorem getD_le_getD (hxs : xs.Pairwise (· < ·)) (hij : i ≤ j) (hj : j < xs.length) :
    xs.getD i 0 ≤ xs.getD j 0 := by
  rcases Nat.lt_or_eq_of_le hij with hij | rfl
  · exact Nat.le_of_lt (getD_lt_getD hxs hij hj)
  · exact Nat.le_refl _

/-- Halving the stretch in which the place lies comes to the place. -/
theorem splits_bisect (hxs : xs.Pairwise (· < ·)) (hle : low ≤ high) (hhigh : high ≤ xs.length)
    (hbelow : ∀ i, i < low → xs.getD i 0 < x) (habove : ∀ i, high ≤ i → i < xs.length → x ≤ xs.getD i 0) :
    Splits xs x (bisect xs x low high) := by
  fun_induction bisect xs x low high with
  | case1 low high hlt middle hless ih =>
    -- All numbers up to the middle are below `x`.
    refine ih (by omega) hhigh (fun i hi => ?_) habove
    exact Nat.lt_of_le_of_lt (getD_le_getD hxs (Nat.le_of_lt_succ hi) (by omega)) hless
  | case2 low high hlt middle hless ih =>
    -- None from the middle on is.
    refine ih (by omega) (by omega) hbelow fun i hi hlen => ?_
    exact Nat.le_trans (Nat.le_of_not_lt hless) (getD_le_getD hxs hi hlen)
  -- Nothing is left between the bounds.
  | case3 low high hlt =>
    obtain rfl : low = high := by omega
    exact ⟨hhigh, hbelow, habove⟩

/-! ## Newlines -/

/-- The newlines of a text are where its newline bytes are. -/
private theorem mem_newlines {o : Nat} : x ∈ newlines o t ↔ o ≤ x ∧ t[x - o]? = some 0x0A := by
  -- By induction on the text, with one more byte in front of the others.
  induction t generalizing o with
  | nil => simp [newlines]
  | cons b t ih =>
    -- The first byte is a newline, or all of them are behind it.
    have hcons : x ∈ newlines o (b :: t) ↔ (x = o ∧ b = 0x0A) ∨ x ∈ newlines (o + 1) t := by
      rw [newlines]
      split <;> simp_all
    rw [hcons, ih]
    constructor
    -- In the text behind, all places are one less.
    · rintro (⟨rfl, rfl⟩ | ⟨hle, hget⟩)
      · exact ⟨Nat.le_refl x, by rw [Nat.sub_self]; rfl⟩
      · refine ⟨by omega, ?_⟩
        rwa [show x - o = x - (o + 1) + 1 by omega, List.getElem?_cons_succ]
    · rintro ⟨hle, hget⟩
      rcases Nat.lt_or_eq_of_le hle with hlt | rfl
      · rw [show x - o = x - (o + 1) + 1 by omega, List.getElem?_cons_succ] at hget
        exact .inr ⟨hlt, hget⟩
      · rw [Nat.sub_self, List.getElem?_cons_zero] at hget
        exact .inl ⟨rfl, Option.some.inj hget⟩

private theorem pairwise_newlines (o : Nat) (t : Text) : (newlines o t).Pairwise (· < ·) := by
  induction t generalizing o with
  | nil => exact .nil
  | cons b t ih =>
    rw [newlines]
    split
    · exact .cons (fun y hy => (mem_newlines.1 hy).1) (ih (o + 1))
    · exact ih (o + 1)

private theorem length_newlines (o : Nat) (t : Text) : (newlines o t).length = t.count 0x0A := by
  induction t generalizing o with
  | nil => rfl
  | cons b t ih =>
    rw [newlines, List.count_cons, ← ih (o + 1)]
    split <;> simp_all

/-- The newlines of the beginning of a text. -/
private theorem newlines_take (o n : Nat) (t : Text) :
    newlines o (t.take n) = (newlines o t).filter (· < o + n) := by
  -- By induction on the text, with fewer bytes to take.
  induction t generalizing o n with
  | nil => rw [List.take_nil]; rfl
  | cons b t ih =>
    cases n with
    -- Nothing is taken, and no newline is in front of the text.
    | zero =>
      rw [List.take_zero, newlines, eq_comm, List.filter_eq_nil_iff]
      intro y hy
      have hle := (mem_newlines.1 hy).1
      simpa using hle
    | succ n =>
      rw [List.take_succ_cons, newlines, newlines, ih, show o + 1 + n = o + (n + 1) by omega]
      -- A newline that is taken comes in front of the offset.
      split
      · rw [List.filter_cons_of_pos (by simp)]
      · rfl

/-- The number of newlines in front of an offset is its place among them. -/
private theorem count_take {offset : Nat} (h : Splits (newlines 0 t) offset k) :
    (t.take offset).count 0x0A = k := by
  rw [← length_newlines 0, newlines_take, Nat.zero_add]
  generalize newlines 0 t = xs at h
  calc (xs.filter (· < offset)).length
      = ((xs.take k ++ xs.drop k).filter (· < offset)).length := by rw [List.take_append_drop]
    _ = (xs.take k).length := by
      rw [List.filter_append, List.filter_eq_self.2 ?front, List.filter_eq_nil_iff.2 ?back, List.append_nil]
      -- The newlines up to that place are in front of the offset.
      case front =>
        intro y hy
        obtain ⟨i, hi, rfl⟩ := List.getElem_of_mem hy
        rw [List.length_take] at hi
        have := h.below i (by omega)
        rw [← List.getElem_eq_getD (h := by omega)] at this
        simpa using this
      -- The others are not.
      case back =>
        intro y hy
        obtain ⟨i, hi, rfl⟩ := List.getElem_of_mem hy
        rw [List.length_drop] at hi
        have := h.above (k + i) (by omega) (by omega)
        rw [← List.getElem_eq_getD (h := by omega)] at this
        simpa using this
    _ = k := by rw [List.length_take, Nat.min_eq_left h.le]

end Source

namespace SourceFile

open Source

variable {f : SourceFile} {k i offset : Nat}

/-! ## Stretches -/

/-- Where the line behind `k` newlines starts. -/
def starts (f : SourceFile) (k : Nat) : Nat := if k = 0 then 0 else f.newlines.getD (k - 1) 0 + 1

/-- Where it stops: at the next newline or the end of the file. -/
def stops (f : SourceFile) (k : Nat) : Nat := f.newlines.getD k f.content.length

private theorem mem_newlines : i ∈ f.newlines ↔ f.content[i]? = some 0x0A := by
  rw [newlines, Source.mem_newlines, Nat.sub_zero]
  exact and_iff_right (Nat.zero_le i)

private theorem pairwise_newlines (f : SourceFile) :
    f.newlines.Pairwise (· < ·) := Source.pairwise_newlines 0 f.content

private theorem starts_succ (hk : k < f.newlines.length) : f.starts (k + 1) = f.stops k + 1 := by
  rw [starts, if_neg (Nat.succ_ne_zero k), Nat.add_sub_cancel, stops, ← List.getElem_eq_getD (h := hk),
    ← List.getElem_eq_getD (h := hk)]

private theorem stops_eq_getElem (hk : k < f.newlines.length) : f.stops k = f.newlines[k] :=
  (List.getElem_eq_getD (h := hk) _).symm

private theorem stops_length (f : SourceFile) : f.stops f.newlines.length = f.content.length := by
  rw [stops, List.getD_eq_getElem?_getD, List.getElem?_eq_none (Nat.le_refl _), Option.getD_none]

/-- Every line but the last one stops at a newline. -/
private theorem getElem?_stops (hk : k < f.newlines.length) : f.content[f.stops k]? = some 0x0A := by
  rw [stops_eq_getElem hk]
  exact mem_newlines.1 (List.getElem_mem hk)

private theorem stops_le (hk : k ≤ f.newlines.length) : f.stops k ≤ f.content.length := by
  rcases Nat.lt_or_eq_of_le hk with hlt | rfl
  · exact Nat.le_of_lt (List.getElem?_eq_some_iff.1 (getElem?_stops hlt)).1
  · exact Nat.le_of_eq f.stops_length

/-- A line starts at the beginning of the file or behind a newline. -/
private theorem behind_starts (hk : k ≤ f.newlines.length) :
    f.starts k = 0 ∨ f.content[f.starts k - 1]? = some 0x0A := by
  cases k with
  | zero => exact .inl rfl
  | succ k => exact .inr (by rw [starts_succ hk, Nat.add_sub_cancel]; exact getElem?_stops hk)

private theorem starts_le_stops (hk : k ≤ f.newlines.length) : f.starts k ≤ f.stops k := by
  cases k with
  | zero => exact Nat.zero_le _
  | succ k =>
    rw [starts_succ hk]
    rcases Nat.lt_or_eq_of_le hk with hlt | heq
    · rw [stops_eq_getElem hk, stops_eq_getElem hlt]
      exact List.pairwise_iff_getElem.1 f.pairwise_newlines k (k + 1) _ _ (Nat.lt_succ_self k)
    · rw [heq, stops_length]
      exact (List.getElem?_eq_some_iff.1 (getElem?_stops hk)).1

/-- An offset in the stretch of the line behind `k` newlines; the newline at its end belongs to the line. -/
structure Within (f : SourceFile) (k offset : Nat) : Prop where
  le : k ≤ f.newlines.length
  starts_le : f.starts k ≤ offset
  le_stops : offset ≤ f.stops k

/-- Offsets lie in the stretch where the search for them ends. -/
private theorem within_iff : f.Within k offset ↔ Splits f.newlines offset k ∧ offset ≤ f.content.length := by
  constructor
  · intro h
    refine ⟨⟨h.le, fun i hi => ?_, fun i hi hlen => ?_⟩, Nat.le_trans h.le_stops (stops_le h.le)⟩
    -- Newlines in front of the line lie before its start, and the others not before its stop.
    · obtain ⟨k, rfl⟩ := Nat.exists_eq_add_one_of_ne_zero (Nat.ne_of_gt (Nat.zero_lt_of_lt hi))
      have hlast := getD_le_getD f.pairwise_newlines (Nat.le_of_lt_succ hi) h.le
      have hstart := h.starts_le
      rw [starts, if_neg (Nat.succ_ne_zero k), Nat.add_sub_cancel] at hstart
      omega
    · have hk : k < f.newlines.length := Nat.lt_of_le_of_lt hi hlen
      refine Nat.le_trans h.le_stops ?_
      rw [stops_eq_getElem hk, List.getElem_eq_getD 0]
      exact getD_le_getD f.pairwise_newlines hi hlen
  · rintro ⟨h, hle⟩
    refine ⟨h.le, ?_, ?_⟩
    · cases k with
      | zero => exact Nat.zero_le _
      | succ k => exact h.below k (Nat.lt_succ_self k)
    -- The stop of the last line is the end of the text.
    · rcases Nat.lt_or_eq_of_le h.le with hlt | heq
      · rw [stops_eq_getElem hlt, List.getElem_eq_getD 0]
        exact h.above k (Nat.le_refl k) hlt
      · rwa [heq, stops_length]

/-- The search among all newlines. -/
private theorem splits_search (f : SourceFile) (offset : Nat) :
    Splits f.newlines offset (bisect f.newlines offset 0 f.newlines.length) :=
  splits_bisect f.pairwise_newlines (Nat.zero_le _) (Nat.le_refl _) nofun fun _ hi hlen =>
    absurd hlen (Nat.not_lt.2 hi)

/-- Each offset up to the end of the file lies in the stretch of a line. -/
private theorem exists_within (h : offset ≤ f.content.length) : ∃ k, f.Within k offset :=
  ⟨_, within_iff.2 ⟨f.splits_search offset, h⟩⟩

/-- The position of an offset in a file. -/
def position (f : SourceFile) (offset : Nat) : Position := Source.position f.newlines offset

/-- It counts newlines and the bytes behind the last of them, in 32-bit words. -/
theorem position_of_within (h : f.Within k offset) :
    f.position offset = ⟨k + 1, (offset - f.starts k + 1) % offsetCount⟩ := by
  rw [position, Source.position, (f.splits_search offset).unique (within_iff.1 h).1]
  rfl

end SourceFile

/-! ## Exact positions -/

namespace Source

variable {t : Text} {offset start : Nat}

/-- Where the line of an offset begins: at the beginning of the text or behind a newline, with no newline
from there up to the offset. -/
structure Begins (t : Text) (offset start : Nat) : Prop where
  le : start ≤ offset
  behind : start = 0 ∨ t[start - 1]? = some 0x0A
  unbroken : ∀ i, start ≤ i → i < offset → t[i]? ≠ some 0x0A

/-- A line begins at one place only. -/
theorem Begins.unique {start' : Nat} (h : Begins t offset start) (h' : Begins t offset start') :
    start = start' := by
  have hle : ∀ {start start'}, Begins t offset start → Begins t offset start' → start' ≤ start := by
    intro start start' h h'
    refine Nat.le_of_not_lt fun hlt => ?_
    have hle := h'.le
    exact h.unbroken (start' - 1) (by omega) (by omega) (h'.behind.resolve_left (by omega))
  exact Nat.le_antisymm (hle h' h) (hle h h')

/-- The exact position of an offset: the line is one more than the newlines in front of the offset, and the
column one more than the bytes between it and the beginning of the line. -/
structure Located (t : Text) (offset : Nat) (p : Position) : Prop where
  line : p.line = (t.take offset).count 0x0A + 1
  column : ∃ start, Begins t offset start ∧ p.column = offset - start + 1

/-- The exact line and column of an offset are 32-bit words. -/
structure InWords (t : Text) (offset : Nat) : Prop where
  line : (t.take offset).count 0x0A + 1 < offsetCount
  column : ∀ start, Begins t offset start → offset - start + 1 < offsetCount

/-- Those of all offsets but the largest word are. -/
private theorem inWords_of_lt (t : Text) (h : offset + 1 < offsetCount) : InWords t offset where
  line := by
    have hcount : (t.take offset).count 0x0A ≤ offset :=
      Nat.le_trans List.count_le_length (List.length_take_le offset t)
    omega
  column start _ := by omega

/-- A position in front of another one: in an earlier line, or in the same line and an earlier column. -/
def Position.Before (p q : Position) : Prop := p.line < q.line ∨ p.line = q.line ∧ p.column < q.column

end Source

namespace SourceFile

open Source

variable {f : SourceFile} {k i offset : Nat}

theorem Within.count (h : f.Within k offset) : (f.content.take offset).count 0x0A = k :=
  count_take (within_iff.1 h).1

/-- There is no newline within a line. -/
private theorem Within.ne_newline (h : f.Within k offset) (hlt : offset < f.stops k) :
    f.content[offset]? ≠ some 0x0A := by
  intro hget
  obtain ⟨j, hj, hoffset⟩ := List.getElem_of_mem (mem_newlines.2 hget)
  have hsplits := (within_iff.1 h).1
  rcases Nat.lt_or_ge j k with hjk | hkj
  · have hbelow := hsplits.below j hjk
    rw [← List.getElem_eq_getD (h := hj), hoffset] at hbelow
    exact Nat.lt_irrefl _ hbelow
  · have hk : k < f.newlines.length := Nat.lt_of_le_of_lt hkj hj
    have hle := getD_le_getD f.pairwise_newlines hkj hj
    rw [← List.getElem_eq_getD (h := hk), ← List.getElem_eq_getD (h := hj), hoffset, ← stops_eq_getElem hk] at hle
    exact Nat.not_lt.2 hle hlt

theorem Within.begins (h : f.Within k offset) : Begins f.content offset (f.starts k) where
  le := h.starts_le
  behind := behind_starts h.le
  unbroken i hi hlt :=
    have hwithin : f.Within k i := ⟨h.le, hi, Nat.le_trans (Nat.le_of_lt hlt) h.le_stops⟩
    hwithin.ne_newline (Nat.lt_of_lt_of_le hlt h.le_stops)

/-- Line and column of an offset are words exactly if those that its stretch gives are. -/
private theorem Within.inWords_iff (h : f.Within k offset) :
    InWords f.content offset ↔ k + 1 < offsetCount ∧ offset - f.starts k + 1 < offsetCount := by
  constructor
  · exact fun hwords => ⟨h.count ▸ hwords.line, hwords.column _ h.begins⟩
  · rintro ⟨hline, hcolumn⟩
    exact ⟨by rwa [h.count], fun start hstart => by rwa [hstart.unique h.begins]⟩

/-- The position is exact then. -/
private theorem Within.position_eq (h : f.Within k offset) (hwords : InWords f.content offset) :
    f.position offset = ⟨k + 1, offset - f.starts k + 1⟩ := by
  rw [position_of_within h, Nat.mod_eq_of_lt (h.inWords_iff.1 hwords).2]

private theorem Within.located (h : f.Within k offset) :
    Located f.content offset ⟨k + 1, offset - f.starts k + 1⟩ where
  line := by rw [h.count]
  column := ⟨_, h.begins, rfl⟩

/-! ## Lines -/

/-- A line that exists is its stretch. -/
private theorem line_succ (hk : k ≤ f.newlines.length) :
    f.line (k + 1) = f.content.extract (f.starts k) (f.stops k) := by
  have hexists : ¬(k + 1 = 0 ∨ f.newlines.length + 1 < k + 1) := by omega
  rw [line, if_neg hexists]
  have hstart : (if k + 1 = 1 then 0 else f.newlines.getD (k + 1 - 2) 0 + 1) = f.starts k := by
    cases k <;> rfl
  rw [hstart]
  rfl

private theorem length_line (hk : k ≤ f.newlines.length) :
    (f.line (k + 1)).length = f.stops k - f.starts k := by
  have hle := stops_le hk
  rw [line_succ hk, List.extract_eq_take_drop, List.length_take, List.length_drop]
  omega

/-- The byte at an offset stands in its line, unless it is the newline at the end. -/
private theorem Within.getElem?_line (h : f.Within k offset) : (f.line (k + 1))[offset - f.starts k]?
    = if f.content[offset]? = some 0x0A then none else f.content[offset]? := by
  have hstart := h.starts_le
  rw [line_succ h.le, List.extract_eq_take_drop]
  rcases Nat.lt_or_eq_of_le h.le_stops with hlt | heq
  · rw [if_neg (h.ne_newline hlt), List.getElem?_take_of_lt (by omega), List.getElem?_drop,
      Nat.add_sub_cancel' hstart]
  · rw [List.getElem?_eq_none (by rw [List.length_take]; omega)]
    -- The offset is that of a newline or the end of the file.
    rcases Nat.lt_or_eq_of_le h.le with hlt | hlast
    · rw [heq, if_pos (getElem?_stops hlt)]
    · rw [heq, hlast, stops_length, List.getElem?_eq_none (Nat.le_refl _)]
      rfl

/-- A file from a line on is that line, a newline and the file from the next line on. -/
private theorem drop_starts (hk : k < f.newlines.length) :
    f.content.drop (f.starts k) = f.line (k + 1) ++ [0x0A] ++ f.content.drop (f.starts (k + 1)) := by
  have hle := starts_le_stops (Nat.le_of_lt hk)
  obtain ⟨hlt, hget⟩ := List.getElem?_eq_some_iff.1 (getElem?_stops hk)
  calc f.content.drop (f.starts k)
      = (f.content.drop (f.starts k)).take (f.stops k - f.starts k)
          ++ f.content.drop (f.starts k + (f.stops k - f.starts k)) := by
        rw [← List.drop_drop, List.take_append_drop]
    _ = f.line (k + 1) ++ f.content.drop (f.stops k) := by
        rw [line_succ (Nat.le_of_lt hk), List.extract_eq_take_drop, Nat.add_sub_cancel' hle]
    _ = f.line (k + 1) ++ [0x0A] ++ f.content.drop (f.starts (k + 1)) := by
        rw [List.drop_eq_getElem_cons hlt, hget, starts_succ hk, List.append_assoc]
        rfl

/-- The lines from one on, with newlines between them, are the file from there on. -/
private theorem join_lines_from (m : Nat) (hk : k + m = f.newlines.length) :
    Text.join [0x0A] ((List.range' k (m + 1)).map fun i => f.line (i + 1)) = f.content.drop (f.starts k) := by
  induction m generalizing k with
  | zero =>
    obtain rfl : k = f.newlines.length := hk
    change f.line (f.newlines.length + 1) = _
    rw [line_succ (Nat.le_refl _), stops_length, List.extract_eq_take_drop, List.take_of_length_le]
    exact Nat.le_of_eq List.length_drop
  | succ m ih =>
    have hrest := ih (k := k + 1) (by omega)
    rw [drop_starts (by omega), ← hrest]
    rfl

/-- The lines of a file with newlines between them are the file. -/
private theorem join_lines (f : SourceFile) :
    Text.join [0x0A] ((List.range (f.content.count 0x0A + 1)).map fun i => f.line (i + 1)) = f.content := by
  have hlength : f.newlines.length = f.content.count 0x0A := length_newlines 0 f.content
  rw [← hlength, List.range_eq_range', join_lines_from _ (Nat.zero_add _)]
  rfl

/-! ## Back to offsets -/

/-- The number of bytes in front of the line behind `k` others, with their newlines. -/
def lengthBefore (f : SourceFile) : Nat → Nat
  | 0 => 0
  | k + 1 => f.lengthBefore k + (f.line (k + 1)).length + 1

/-- The offset of a position. -/
def offsetOf (f : SourceFile) (p : Position) : Nat := f.lengthBefore (p.line - 1) + (p.column - 1)

private theorem lengthBefore_eq (hk : k ≤ f.newlines.length) : f.lengthBefore k = f.starts k := by
  induction k with
  | zero => rfl
  | succ k ih =>
    have hle := starts_le_stops (Nat.le_of_lt hk)
    rw [lengthBefore, ih (Nat.le_of_lt hk), length_line (Nat.le_of_lt hk), starts_succ hk]
    omega

/-! ## The whole file -/

/-- What is asked of positions and lines of a file. -/
structure Resolves (f : SourceFile) : Prop where
  /-- The ends of a span are resolved one by one. -/
  resolved : ∀ (fs : FileSet) id start stop, fs.get? id = some f →
    fs.resolve? ⟨id, start, stop⟩ = some (f.position start, f.position stop)
  /-- Positions are exact as far as lines and columns are 32-bit words, -/
  exact : ∀ offset ≤ f.content.length, InWords f.content offset →
    Located f.content offset (f.position offset)
  /-- which they are for all offsets but the largest word, -/
  words : ∀ offset, offset + 1 < offsetCount → InWords f.content offset
  /-- and where only the column is none, the position is wrong. -/
  wrapped : ∀ offset ≤ f.content.length, (f.content.take offset).count 0x0A + 1 < offsetCount →
    ¬InWords f.content offset → ¬Located f.content offset (f.position offset)
  /-- A later offset has a later position. -/
  increasing : ∀ offset offset', offset < offset' → offset' ≤ f.content.length →
    InWords f.content offset → InWords f.content offset' → (f.position offset).Before (f.position offset')
  /-- An offset is found again from its position. -/
  inverse : ∀ offset ≤ f.content.length, InWords f.content offset → f.offsetOf (f.position offset) = offset
  /-- Every place in a line, the one behind its last byte included, is the position of an offset. -/
  onto : ∀ p : Position, 1 ≤ p.line → p.line ≤ f.content.count 0x0A + 1 →
    1 ≤ p.column → p.column ≤ (f.line p.line).length + 1 →
      f.offsetOf p ≤ f.content.length ∧ (InWords f.content (f.offsetOf p) → f.position (f.offsetOf p) = p)
  /-- The line of an offset holds its byte in front of its column, unless that is the newline or the end. -/
  byte : ∀ offset ≤ f.content.length, InWords f.content offset →
    (f.line (f.position offset).line)[(f.position offset).column - 1]?
      = if f.content[offset]? = some 0x0A then none else f.content[offset]?
  /-- The lines with newlines between them are the file. -/
  joined : Text.join [0x0A] ((List.range (f.content.count 0x0A + 1)).map fun i => f.line (i + 1)) = f.content

/-- Of two offsets in one file the later one is in the stretch of a later line, or further back in that of
the same line. -/
theorem Within.before {j offset' : Nat} (h : f.Within j offset) (h' : f.Within k offset') (hlt : offset < offset') :
    j < k ∨ j = k ∧ offset - f.starts j < offset' - f.starts k := by
  rcases Nat.lt_trichotomy j k with hjk | rfl | hkj
  · exact .inl hjk
  · have hstart := h.starts_le
    exact .inr ⟨rfl, by omega⟩
  · -- The earlier offset would lie behind the newline that ends the line of the later one.
    have hk : k < f.newlines.length := Nat.lt_of_lt_of_le hkj h.le
    have hbelow := (within_iff.1 h).1.below k hkj
    rw [← List.getElem_eq_getD (h := hk), ← stops_eq_getElem hk] at hbelow
    have hstop := h'.le_stops
    omega

/-- The place at a distance from the start of a line. -/
private theorem within_of_line {c : Nat} (hk : k ≤ f.newlines.length) (hc : c ≤ (f.line (k + 1)).length) :
    f.Within k (f.starts k + c) := by
  have hle := starts_le_stops hk
  rw [length_line hk] at hc
  exact ⟨hk, Nat.le_add_right _ _, by omega⟩

/-- Resolution of positions is exact, and wrong only where a column is no 32-bit word. -/
theorem resolves (f : SourceFile) : f.Resolves where
  resolved fs id start stop h := by
    rw [FileSet.resolve?, h]
    rfl
  exact offset hle hwords := by
    -- Every offset lies in a line, and its position is the line and the way from its start.
    obtain ⟨k, h⟩ := exists_within hle
    rw [h.position_eq hwords]
    exact h.located
  words offset h := inWords_of_lt f.content h
  wrapped offset hle hline hwords := by
    obtain ⟨k, h⟩ := exists_within hle
    rw [h.count] at hline
    -- The line is a word, so it is the column that is none.
    have hcolumn : ¬offset - f.starts k + 1 < offsetCount := fun hcolumn => hwords (h.inWords_iff.2 ⟨hline, hcolumn⟩)
    rintro ⟨_, start, hstart, heq⟩
    -- Columns are counted as words, so this one would be less than their number.
    rw [position_of_within h, hstart.unique h.begins] at heq
    have hmod := Nat.mod_lt (offset - f.starts k + 1) (show 0 < offsetCount by decide)
    exact hcolumn (heq ▸ hmod)
  increasing offset offset' hlt hle hwords hwords' := by
    obtain ⟨j, h⟩ := exists_within (Nat.le_trans (Nat.le_of_lt hlt) hle)
    obtain ⟨k, h'⟩ := exists_within hle
    rw [h.position_eq hwords, h'.position_eq hwords']
    -- A later offset is on a later line, or further along the same one.
    exact (h.before h' hlt).imp Nat.succ_lt_succ fun ⟨heq, hcolumn⟩ =>
      ⟨congrArg (· + 1) heq, Nat.succ_lt_succ hcolumn⟩
  inverse offset hle hwords := by
    obtain ⟨k, h⟩ := exists_within hle
    -- The offset is at the start of its line and the column.
    have hstart := h.starts_le
    rw [h.position_eq hwords, offsetOf, Nat.add_sub_cancel, Nat.add_sub_cancel, lengthBefore_eq h.le]
    omega
  onto := by
    rintro ⟨line, column⟩ hline hlast hcolumn hlength
    -- Lines and columns are counted from one.
    obtain ⟨k, rfl⟩ := Nat.exists_eq_add_of_le' hline
    obtain ⟨c, rfl⟩ := Nat.exists_eq_add_of_le' hcolumn
    have hk : k ≤ f.newlines.length := by
      rw [newlines, length_newlines]
      exact Nat.le_of_succ_le_succ hlast
    -- The position is on a line and not beyond its end.
    have h := within_of_line hk (Nat.le_of_succ_le_succ hlength)
    have hoffset : f.offsetOf ⟨k + 1, c + 1⟩ = f.starts k + c := by
      rw [offsetOf, Nat.add_sub_cancel, Nat.add_sub_cancel, lengthBefore_eq hk]
    rw [hoffset]
    -- So it is the position of its offset, if that is in words.
    refine ⟨(within_iff.1 h).2, fun hwords => ?_⟩
    rw [h.position_eq hwords, Nat.add_sub_cancel_left]
  byte offset hle hwords := by
    obtain ⟨k, h⟩ := exists_within hle
    rw [h.position_eq hwords]
    exact h.getElem?_line
  joined := f.join_lines

/-- A file with as many bytes as the largest word counts, in a single line. -/
def longLine : SourceFile where
  path := "a"
  content := List.replicate 0xFFFFFFFF 0x61

/-- The column behind its last byte is no word, and the position there is wrong. -/
theorem longLine_wraps : longLine.content.length < offsetCount
    ∧ ¬Located longLine.content longLine.content.length (longLine.position longLine.content.length) := by
  have hlength : longLine.content.length = 0xFFFFFFFF := List.length_replicate
  -- No byte of the line is a newline.
  have hnewline : ∀ i : Nat, longLine.content[i]? ≠ some 0x0A := by
    intro i hget
    have hmem : (0x0A : UInt8) ∈ List.replicate 0xFFFFFFFF 0x61 := List.mem_of_getElem? hget
    exact absurd (List.eq_of_mem_replicate hmem) (by decide)
  have hnone : longLine.newlines = [] :=
    List.eq_nil_iff_forall_not_mem.2 fun i hi => hnewline i (mem_newlines.1 hi)
  -- So all of the file is one line.
  have h : longLine.Within 0 longLine.content.length := by
    refine ⟨Nat.zero_le _, Nat.zero_le _, Nat.le_of_eq ?_⟩
    rw [← stops_length, hnone, List.length_nil]
  refine ⟨by rw [hlength]; decide, ?_⟩
  -- The column of the end would be the length and one more, which is no word.
  rintro ⟨_, start, hstart, hcolumn⟩
  rw [position_of_within h, hstart.unique h.begins, starts, if_pos rfl, hlength] at hcolumn
  exact absurd hcolumn (by decide)

end SourceFile

end AisScript
