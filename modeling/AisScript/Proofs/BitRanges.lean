import AisScript.Ty.Bitfield

/-!
# Ranges of bits

The members of a bitfield lie one behind the other.  Their offsets are counted in 64-bit integers, whose
sums wrap around, and every range is checked before it is added.  As long as the ranges end within the
integers of the target the count is exact.  The first one that does not is reported, for the width as for
every name that is not found in front of it, so no wrapped offset is ever used.

* `Bitfield.bits`           the exact number of bits of some members
* `Bitfield.Fits`           members that all end within the integers of the target
* `Bitfield.limitsFrom_append`, `Bitfield.widthFrom_append`   going past members that fit
* `Bitfield.limits_eq_ok_iff`   which names have a range, and which one
* `Bitfield.tiled`          ranges are exact, and those of all members tile the width
-/

namespace AisScript

namespace Bitfield

variable {bitfield name : Text} {front rest ms : List BitfieldMember} {m : BitfieldMember}

/-! ## Exact sums -/

/-- The number of bits of some members together. -/
def bits : List BitfieldMember → Nat
  | [] => 0
  | m :: ms => m.length + bits ms

private theorem bits_append (ms ns : List BitfieldMember) : bits (ms ++ ns) = bits ms + bits ns := by
  induction ms with
  | nil => rw [List.nil_append, bits, Nat.zero_add]
  | cons m ms ih => rw [List.cons_append, bits, ih, bits, Nat.add_assoc]

/-- One member more. -/
private theorem bits_concat (ms : List BitfieldMember) (m : BitfieldMember) :
    bits (ms ++ [m]) = bits ms + m.length := by
  rw [bits_append, bits, bits, Nat.add_zero]

private theorem bits_mono (h : front <+: ms) : bits front ≤ bits ms := by
  obtain ⟨rest, rfl⟩ := h
  rw [bits_append]
  exact Nat.le_add_right _ _

/-- Every one of some members that are laid out from bit zero on ends within the integers of the target. -/
def Fits (ms : List BitfieldMember) : Prop := ∀ front, front <+: ms → bits front ≤ lastBit

/-- It is enough that the last one does. -/
private theorem fits_iff : Fits ms ↔ bits ms ≤ lastBit :=
  ⟨fun h => h ms (List.prefix_refl ms), fun h _ hfront => Nat.le_trans (bits_mono hfront) h⟩

theorem Fits.mono (h : Fits ms) (hfront : front <+: ms) : Fits front :=
  fun p hp => h p (hp.trans hfront)

private theorem fits_concat_iff : Fits (front ++ [m]) ↔ bits front + m.length ≤ lastBit := by
  rw [fits_iff, bits_concat]

/-- The members up to one of them. -/
private theorem isPrefix_of_split (hsplit : ms = front ++ m :: rest) : front ++ [m] <+: ms :=
  ⟨rest, by rw [hsplit, List.append_assoc]; rfl⟩

private theorem mem_of_split (hsplit : ms = front ++ m :: rest) : m ∈ ms := by
  rw [hsplit]
  exact List.mem_append_right _ List.mem_cons_self

/-- Each bit of some members lies within one of them. -/
private theorem exists_of_lt_bits {bit : Nat} (h : bit < bits ms) :
    ∃ front m rest, ms = front ++ m :: rest ∧ bits front ≤ bit ∧ bit < bits front + m.length := by
  induction ms generalizing bit with
  | nil => exact absurd h (Nat.not_lt_zero bit)
  | cons m ms ih =>
    rw [bits] at h
    by_cases hm : bit < m.length
    · exact ⟨[], m, ms, rfl, Nat.zero_le bit, by rwa [bits, Nat.zero_add]⟩
    · have hbehind : bit - m.length < bits ms := by omega
      obtain ⟨front, n, rest, rfl, hle, hlt⟩ := ih hbehind
      refine ⟨m :: front, n, rest, rfl, ?_, ?_⟩ <;> rw [bits] <;> omega

/-- Of members that do not all fit there is a first one that does not. -/
private theorem exists_first_over (h : ¬Fits ms) :
    ∃ front m rest, ms = front ++ m :: rest ∧ Fits front ∧ ¬Fits (front ++ [m]) := by
  rw [fits_iff, Nat.not_le] at h
  obtain ⟨front, m, rest, hms, hle, hlt⟩ := exists_of_lt_bits h
  refine ⟨front, m, rest, hms, fits_iff.2 hle, ?_⟩
  rw [fits_concat_iff]
  omega

/-! ## Counting with machine integers -/

/-- The check for the end of a range is exact at the boundary. -/
private theorem extent?_ofNat {start : Nat} (h : start ≤ lastBit) (length : Nat) :
    extent? (Int64.ofNat start) length
      = if start + length ≤ lastBit then some (Int64.ofNat length) else none := by
  have hlast : lastBit = 9223372036854775807 := rfl
  unfold extent?
  -- A length beyond all bits never fits.
  split
  case isTrue hlong => rw [if_neg (by omega)]
  case isFalse hshort =>
    -- The difference that is compared with does not wrap, as the length is in range.
    have hsub : (Int64.maxValue - Int64.ofNat length).toInt = 9223372036854775807 - length := by
      rw [Int64.toInt_sub, Int64.toInt_maxValue, Int64.toInt_ofNat_of_lt (by omega)]
      exact Int.bmod_eq_of_le (by omega) (by omega)
    have hstart : (Int64.ofNat start).toInt = start := Int64.toInt_ofNat_of_lt (by omega)
    -- Both directions of the comparison are then about natural numbers.
    split
    case isTrue hover =>
      rw [Int64.lt_iff_toInt_lt, hsub, hstart] at hover
      rw [if_neg (by omega)]
    case isFalse hends =>
      rw [Int64.lt_iff_toInt_lt, hsub, hstart] at hends
      rw [if_pos (by omega)]

/-- An offset is read back as the number that it counts. -/
private theorem toNat_ofNat {start : Nat} (h : start ≤ lastBit) :
    (Int64.ofNat start).toUInt64.toNat = start := by
  have hlast : lastBit = 9223372036854775807 := rfl
  rw [Int64.toUInt64_ofNat', UInt64.toNat_ofNat_of_lt']
  exact Nat.lt_of_le_of_lt h (by decide)

/-- The search for a name goes past members of other names that fit, and counts them exactly. -/
theorem limitsFrom_append {start : Nat} (hfits : start + bits front ≤ lastBit)
    (hnames : ∀ p ∈ front, p.name ≠ name) (ms : List BitfieldMember) :
    limitsFrom bitfield name (Int64.ofNat start) (front ++ ms)
      = limitsFrom bitfield name (Int64.ofNat (start + bits front)) ms := by
  induction front generalizing start with
  | nil => rfl
  | cons m front ih =>
    obtain ⟨hm, hfront⟩ := List.forall_mem_cons.1 hnames
    rw [bits] at hfits ⊢
    -- The member passes the check, so the sum behind it does not wrap.
    rw [List.cons_append, limitsFrom, extent?_ofNat (by omega), if_pos (by omega)]
    dsimp only
    rw [if_neg hm, ← Int64.ofNat_add, ih (by omega) hfront, Nat.add_assoc]

/-- The count of all bits goes past members that fit just so. -/
theorem widthFrom_append {start : Nat} (hfits : start + bits front ≤ lastBit) (ms : List BitfieldMember) :
    widthFrom bitfield (Int64.ofNat start) (front ++ ms)
      = widthFrom bitfield (Int64.ofNat (start + bits front)) ms := by
  induction front generalizing start with
  | nil => rfl
  | cons m front ih =>
    rw [bits] at hfits ⊢
    rw [List.cons_append, widthFrom, extent?_ofNat (by omega), if_pos (by omega)]
    dsimp only
    rw [← Int64.ofNat_add, ih (by omega), Nat.add_assoc]

/-! ## Members -/

variable {b : Bitfield}

/-- The search comes to the first member that is left when those in front of it fit and have other names. -/
private theorem limits_append (hsplit : b.members = front ++ ms) (hfits : Fits front)
    (hnames : ∀ p ∈ front, p.name ≠ name) :
    b.limits name = limitsFrom b.name name (Int64.ofNat (bits front)) ms := by
  have hzero : (0 : Int64) = Int64.ofNat 0 := rfl
  rw [limits, hsplit, hzero, limitsFrom_append (by rw [Nat.zero_add]; exact fits_iff.1 hfits) hnames,
    Nat.zero_add]

/-- So does the count of all bits, whatever the names. -/
private theorem width_append (hsplit : b.members = front ++ ms) (hfits : Fits front) :
    b.width = widthFrom b.name (Int64.ofNat (bits front)) ms := by
  have hzero : (0 : Int64) = Int64.ofNat 0 := rfl
  rw [width, hsplit, hzero, widthFrom_append (by rw [Nat.zero_add]; exact fits_iff.1 hfits), Nat.zero_add]

/-- The first member of a name has the range behind all members in front of it, if they fit with it. -/
private theorem limits_found (hsplit : b.members = front ++ m :: rest) (hfits : Fits (front ++ [m]))
    (hnames : ∀ p ∈ front, p.name ≠ m.name) : b.limits m.name = .ok (bits front, m.length) := by
  have hend := fits_concat_iff.1 hfits
  rw [limits_append hsplit (fits_iff.2 (by omega)) hnames, limitsFrom, extent?_ofNat (by omega),
    if_pos hend]
  dsimp only
  rw [if_pos rfl, toNat_ofNat (by omega)]

/-- The first member that does not fit is reported instead of a name that is not in front of it. -/
private theorem limits_tooWide (hsplit : b.members = front ++ m :: rest) (hfits : Fits front)
    (hover : ¬Fits (front ++ [m])) (hnames : ∀ p ∈ front, p.name ≠ name) :
    b.limits name = .error (.tooWide b.name m.name) := by
  rw [limits_append hsplit hfits hnames, limitsFrom, extent?_ofNat (fits_iff.1 hfits),
    if_neg (mt fits_concat_iff.2 hover)]

/-- A name that no member has is missing if all of them fit. -/
private theorem limits_missing (hfits : Fits b.members) (hnames : ∀ p ∈ b.members, p.name ≠ name) :
    b.limits name = .error (.missing b.name name) := by
  rw [limits_append (List.append_nil _).symm hfits hnames, limitsFrom]

/-- The number of all bits, if all members fit. -/
private theorem width_of_fits (hfits : Fits b.members) : b.width = .ok (bits b.members) := by
  rw [width_append (List.append_nil _).symm hfits, widthFrom, toNat_ofNat (fits_iff.1 hfits)]

/-- The first member that does not fit is reported instead of the width. -/
private theorem width_tooWide (hsplit : b.members = front ++ m :: rest) (hfits : Fits front)
    (hover : ¬Fits (front ++ [m])) : b.width = .error (.tooWide b.name m.name) := by
  rw [width_append hsplit hfits, widthFrom, extent?_ofNat (fits_iff.1 hfits),
    if_neg (mt fits_concat_iff.2 hover)]

/-- There is a width exactly if all members fit. -/
private theorem width_eq_ok_iff {w : Nat} : b.width = .ok w ↔ Fits b.members ∧ w = bits b.members := by
  constructor
  · intro h
    by_cases hfits : Fits b.members
    · rw [width_of_fits hfits] at h
      exact ⟨hfits, (Except.ok.inj h).symm⟩
    · obtain ⟨front, m, rest, hsplit, hfront, hover⟩ := exists_first_over hfits
      rw [width_tooWide hsplit hfront hover] at h
      exact nomatch h
  · rintro ⟨hfits, rfl⟩
    exact width_of_fits hfits

/-- A range that is found belongs to the first member of the name, which fits with all those in front of
it. -/
private theorem limitsFrom_eq_ok {start : Nat} {range : Nat × Nat} (hstart : start ≤ lastBit)
    (h : limitsFrom bitfield name (Int64.ofNat start) ms = .ok range) :
    ∃ front m rest, ms = front ++ m :: rest ∧ start + bits front + m.length ≤ lastBit ∧ m.name = name
      ∧ (∀ p ∈ front, p.name ≠ name) ∧ range = (start + bits front, m.length) := by
  -- Member by member; the search fails at the first one that does not fit.
  induction ms generalizing start with
  | nil => exact nomatch h
  | cons m ms ih =>
    rw [limitsFrom, extent?_ofNat hstart] at h
    split at h
    case h_1 => exact nomatch h
    case h_2 n hn =>
      obtain ⟨hend, hn⟩ := Option.ite_none_right_eq_some.1 hn
      obtain rfl := Option.some.inj hn
      split at h
      -- This is the member that is looked for, so the range is its own.
      case isTrue hm =>
        rw [toNat_ofNat hstart] at h
        exact ⟨[], m, ms, rfl, hend, hm, nofun, (Except.ok.inj h).symm⟩
      -- The search goes on at its end, with the other members.
      case isFalse hm =>
        rw [← Int64.ofNat_add] at h
        obtain ⟨front, p, rest, rfl, hfits, hp, hnames, rfl⟩ := ih hend h
        refine ⟨m :: front, p, rest, rfl, ?_, hp, List.forall_mem_cons.2 ⟨hm, hnames⟩, ?_⟩ <;>
          rw [bits, ← Nat.add_assoc]
        exact hfits

/-- A name has a range exactly if the first member of that name fits with all those in front of it, and
that is the range behind them. -/
theorem limits_eq_ok_iff {range : Nat × Nat} : b.limits name = .ok range ↔
    ∃ front m rest, b.members = front ++ m :: rest ∧ Fits (front ++ [m]) ∧ m.name = name
      ∧ (∀ p ∈ front, p.name ≠ name) ∧ range = (bits front, m.length) := by
  constructor
  · intro h
    have hzero : (0 : Int64) = Int64.ofNat 0 := rfl
    rw [limits, hzero] at h
    obtain ⟨front, m, rest, hsplit, hfits, hm, hnames, hrange⟩ := limitsFrom_eq_ok (Nat.zero_le _) h
    rw [Nat.zero_add] at hfits hrange
    exact ⟨front, m, rest, hsplit, fits_concat_iff.2 hfits, hm, hnames, hrange⟩
  · rintro ⟨front, m, rest, hsplit, hfits, rfl, hnames, rfl⟩
    exact limits_found hsplit hfits hnames

/-- Ranges of different names lie apart from each other. -/
private theorem limits_apart {name' : Text} {range range' : Nat × Nat} (hne : name ≠ name')
    (h : b.limits name = .ok range) (h' : b.limits name' = .ok range') :
    range.1 + range.2 ≤ range'.1 ∨ range'.1 + range'.2 ≤ range.1 := by
  -- Of two members one is in front of the other, and so is its whole range.
  have hahead : ∀ {front front' : List BitfieldMember} {m m' : BitfieldMember}, m.name ≠ m'.name →
      front ++ [m] <+: front' ++ [m'] → bits front + m.length ≤ bits front' := by
    intro front front' m m' hnames hprefix
    rcases List.prefix_concat_iff.1 hprefix with heq | hprefix
    · exact absurd (congrArg BitfieldMember.name (List.cons.inj (List.append_inj' heq rfl).2).1) hnames
    · have hle := bits_mono hprefix
      rwa [bits_concat] at hle
  -- Each range belongs to a split of the members.
  obtain ⟨front, m, rest, hsplit, _, rfl, _, rfl⟩ := limits_eq_ok_iff.1 h
  obtain ⟨front', m', rest', hsplit', _, rfl, _, rfl⟩ := limits_eq_ok_iff.1 h'
  exact (List.prefix_or_prefix_of_prefix (isPrefix_of_split hsplit) (isPrefix_of_split hsplit')).imp (hahead hne)
    (hahead hne.symm)

/-! ## The whole bitfield -/

/-- What is asked of the ranges of a bitfield. -/
structure Tiled (b : Bitfield) : Prop where
  /-- A member that ends within the integers of the target, as all those in front of it do, has exactly the
  range behind them. -/
  found : ∀ front m rest, b.members = front ++ m :: rest → Fits (front ++ [m]) →
    b.limits m.name = .ok (bits front, m.length)
  /-- The first member that does not is the error for every name that is not found in front of it, and for
  the width. -/
  tooWide : ∀ front m rest, b.members = front ++ m :: rest → Fits front → ¬Fits (front ++ [m]) →
    (∀ name, (∀ p ∈ front, p.name ≠ name) → b.limits name = .error (.tooWide b.name m.name))
      ∧ b.width = .error (.tooWide b.name m.name)
  /-- If all members do, every other name is missing. -/
  missing : Fits b.members → ∀ name, (∀ m ∈ b.members, m.name ≠ name) →
    b.limits name = .error (.missing b.name name)
  /-- Ranges of different names have no bit in common. -/
  disjoint : ∀ name name' range range', name ≠ name' → b.limits name = .ok range →
    b.limits name' = .ok range' → range.1 + range.2 ≤ range'.1 ∨ range'.1 + range'.2 ≤ range.1
  /-- The first range begins at bit zero. -/
  first : ∀ m rest range, b.members = m :: rest → b.limits m.name = .ok range → range.1 = 0
  /-- Every other one begins where the range of the member in front of it ends. -/
  contiguous : ∀ front m m' rest range', b.members = front ++ m :: m' :: rest →
    b.limits m'.name = .ok range' →
      ∃ range, b.limits m.name = .ok range ∧ range.1 + range.2 = range'.1
  /-- There is a width exactly if every member has a range. -/
  width_iff : (∃ w, b.width = .ok w) ↔ ∀ m ∈ b.members, ∃ range, b.limits m.name = .ok range
  /-- The bits below the width are those of the members. -/
  covers : ∀ w, b.width = .ok w → ∀ bit, bit < w ↔
    ∃ m ∈ b.members, ∃ range, b.limits m.name = .ok range ∧ range.1 ≤ bit ∧ bit < range.1 + range.2

section Nodup

variable (hnames : (b.members.map (·.name)).Nodup)

include hnames

/-- Of members with different names none has the name of one behind it. -/
private theorem name_ne_of_nodup (hsplit : b.members = front ++ m :: rest) :
    ∀ p ∈ front, p.name ≠ m.name := by
  intro p hp
  rw [hsplit, List.map_append, List.nodup_append] at hnames
  exact hnames.2.2 _ (List.mem_map_of_mem hp) _ (List.mem_map_of_mem List.mem_cons_self)

/-- A member has a range exactly if it fits with those in front of it, and it is the one behind them. -/
private theorem limits_member_iff {range : Nat × Nat} (hsplit : b.members = front ++ m :: rest) :
    b.limits m.name = .ok range ↔ Fits (front ++ [m]) ∧ range = (bits front, m.length) := by
  have hother := name_ne_of_nodup hnames hsplit
  constructor
  · intro h
    -- The member has a range, so it fits with all those in front of it.
    have hfits : Fits (front ++ [m]) := by
      -- Otherwise the first one that does not fit is reported: it is the member or in front of it.
      refine Classical.byContradiction fun hover => ?_
      obtain ⟨front', m', rest', heq, hfits', hover'⟩ := exists_first_over hover
      have hfront : front' <+: front := by
        rcases List.prefix_concat_iff.1 ⟨m' :: rest', heq.symm⟩ with hall | hfront
        · rw [hall] at hfits'
          exact absurd hfits' hover
        · exact hfront
      have hsplit' : b.members = front' ++ m' :: (rest' ++ rest) := by
        rw [hsplit, ← List.singleton_append, ← List.append_assoc, heq, List.append_assoc, List.cons_append]
      rw [limits_tooWide hsplit' hfits' hover' fun p hp => hother p (hfront.subset hp)] at h
      exact nomatch h
    refine ⟨hfits, ?_⟩
    rw [limits_found hsplit hfits hother] at h
    exact (Except.ok.inj h).symm
  -- If they fit, the search reaches the member and finds no earlier one of its name.
  · rintro ⟨hfits, rfl⟩
    exact limits_found hsplit hfits hother

/-- Neighbours touch. -/
private theorem limits_contiguous {m' : BitfieldMember} {range' : Nat × Nat}
    (hsplit : b.members = front ++ m :: m' :: rest) (h : b.limits m'.name = .ok range') :
    ∃ range, b.limits m.name = .ok range ∧ range.1 + range.2 = range'.1 := by
  have hsplit' : b.members = (front ++ [m]) ++ m' :: rest := by rw [hsplit, List.append_assoc]; rfl
  obtain ⟨hfits, rfl⟩ := (limits_member_iff hnames hsplit').1 h
  have hm := hfits.mono (List.prefix_append (front ++ [m]) [m'])
  exact ⟨_, (limits_member_iff hnames hsplit).2 ⟨hm, rfl⟩, (bits_concat front m).symm⟩

/-- All members have a range exactly if they all fit. -/
private theorem limits_all_iff :
    (∀ m ∈ b.members, ∃ range, b.limits m.name = .ok range) ↔ Fits b.members := by
  constructor
  · refine fun h => Classical.byContradiction fun hover => ?_
    obtain ⟨front, m, rest, hsplit, _, hover'⟩ := exists_first_over hover
    obtain ⟨range, hrange⟩ := h m (mem_of_split hsplit)
    exact hover' ((limits_member_iff hnames hsplit).1 hrange).1
  · intro hfits m hm
    obtain ⟨front, rest, hsplit⟩ := List.append_of_mem hm
    exact ⟨_, (limits_member_iff hnames hsplit).2 ⟨hfits.mono (isPrefix_of_split hsplit), rfl⟩⟩

/-- If all members fit, their ranges hold the bits from zero to the sum of their lengths. -/
private theorem lt_bits_iff (hfits : Fits b.members) {bit : Nat} : bit < bits b.members ↔
    ∃ m ∈ b.members, ∃ range, b.limits m.name = .ok range ∧ range.1 ≤ bit ∧ bit < range.1 + range.2 := by
  constructor
  -- The member that holds the bit is the one behind which the sum passes it.
  · intro h
    obtain ⟨front, m, rest, hsplit, hle, hlt⟩ := exists_of_lt_bits h
    have hm := mem_of_split hsplit
    obtain ⟨range, hrange⟩ := (limits_all_iff hnames).2 hfits m hm
    obtain ⟨_, rfl⟩ := (limits_member_iff hnames hsplit).1 hrange
    exact ⟨m, hm, _, hrange, hle, hlt⟩
  · rintro ⟨m, hm, range, hrange, _, hlt⟩
    obtain ⟨front, rest, hsplit⟩ := List.append_of_mem hm
    obtain ⟨_, rfl⟩ := (limits_member_iff hnames hsplit).1 hrange
    -- The member ends no later than all members together.
    have hle := bits_mono (isPrefix_of_split hsplit)
    rw [bits_concat] at hle
    exact Nat.lt_of_lt_of_le hlt hle

/-- The layout of a bitfield is exact and never wraps, for lengths of any size. -/
theorem tiled : b.Tiled where
  found _ _ _ hsplit hfits := limits_found hsplit hfits (name_ne_of_nodup hnames hsplit)
  tooWide _ _ _ hsplit hfits hover :=
    ⟨fun _ hother => limits_tooWide hsplit hfits hover hother, width_tooWide hsplit hfits hover⟩
  missing hfits _ hother := limits_missing hfits hother
  disjoint _ _ _ _ hne h h' := limits_apart hne h h'
  -- The first member begins where the search does.
  first m rest range hsplit h := by
    have hfront : b.members = [] ++ m :: rest := hsplit
    obtain ⟨_, rfl⟩ := (limits_member_iff hnames hfront).1 h
    rfl
  contiguous _ _ _ _ _ hsplit h := limits_contiguous hnames hsplit h
  -- The width is found if and only if all members fit.
  width_iff := by
    rw [limits_all_iff hnames]
    exact ⟨fun ⟨_, hw⟩ => (width_eq_ok_iff.1 hw).1, fun hfits => ⟨_, width_of_fits hfits⟩⟩
  covers w hw bit := by
    obtain ⟨hfits, rfl⟩ := width_eq_ok_iff.1 hw
    exact lt_bits_iff hnames hfits

end Nodup

/-- Members up to the last bit, an empty one behind it, and one that is too wide. -/
def brim : Bitfield where
  name := "A"
  members := [⟨"low", 1⟩, ⟨"rest", 9223372036854775806⟩, ⟨"none", 0⟩, ⟨"over", 1⟩]

theorem brim_tiled : (brim.members.map (·.name)).Nodup ∧ brim.Tiled
    ∧ brim.limits "rest" = .ok (1, 9223372036854775806) ∧ brim.limits "none" = .ok (9223372036854775807, 0)
    ∧ brim.limits "over" = .error (.tooWide "A" "over") ∧ brim.width = .error (.tooWide "A" "over") :=
  have hnames : (brim.members.map (·.name)).Nodup := by decide
  ⟨hnames, tiled hnames, rfl, rfl, rfl, rfl⟩

end Bitfield

end AisScript
