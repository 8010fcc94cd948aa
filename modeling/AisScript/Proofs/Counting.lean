import AisScript.Ty.Enumeration

/-!
# Values of enumerations

The rule for the values of an enumeration speaks of exact numbers: a member without a value is one more
than its predecessor, the first one is zero, a given value exceeds the running counter, and no member goes
beyond the largest 64-bit integer.  The counter itself is a 64-bit integer that wraps around.  The two
come apart in a single case: a member without a value behind the largest integer breaks the rule, but is
taken for the smallest one.

* `EnumSpec.Offends`            a member that breaks the rule, by the exact counter in front of it
* `Enumeration.Follows`         members with the values that the rule gives them
* `Enumeration.Lawful`          what the rule asks of a definition, accepted or not
* `Enumeration.build_lawful_iff`   definitions are lawful unless counting leaves the integers
-/

namespace AisScript

/-! ## The rule -/

namespace EnumSpec

/-- The exact value of a member behind `counter`. -/
def next (counter : Int) (s : EnumSpec) : Int :=
  match s.value with
  | none => counter + 1
  | some v => v.toInt

/-- A member breaks the rule: its given value does not exceed the counter, or counting on exceeds the
largest 64-bit integer. -/
def Offends (counter : Int) (s : EnumSpec) : Prop :=
  match s.value with
  | none => Int64.maxValue.toInt < counter + 1
  | some v => v.toInt ≤ counter

instance (counter : Int) (s : EnumSpec) : Decidable (s.Offends counter) := by
  unfold Offends
  split <;> infer_instance

/-- A member that keeps the rule exceeds the counter. -/
private theorem lt_next {counter : Int} {s : EnumSpec} (h : ¬s.Offends counter) :
    counter < s.next counter := by
  unfold Offends at h
  unfold next
  split at h <;> omega

end EnumSpec

namespace Enumeration

/-- The running counter behind some members, an exact number. -/
def counterBehind (counter : Int) (specs : List EnumSpec) : Int := specs.foldl EnumSpec.next counter

/-- No member breaks the rule. -/
def Ordered (counter : Int) (specs : List EnumSpec) : Prop :=
  ∀ kept s rest, specs = kept ++ s :: rest → ¬s.Offends (counterBehind counter kept)

/-- The first member that breaks the rule, with the members in front of it. -/
structure Breaks (counter : Int) (specs kept : List EnumSpec) (s : EnumSpec) : Prop where
  split : ∃ rest, specs = kept ++ s :: rest
  ordered : Ordered counter kept
  offends : s.Offends (counterBehind counter kept)

/-- Members with the values that the rule gives them: given values are kept, the first member is zero if
it has none, and every other one without a value is its predecessor plus one. -/
structure Follows (specs : List EnumSpec) (members : List EnumMember) : Prop where
  names : members.map (·.name) = specs.map (·.name)
  increasing : members.Pairwise (·.value < ·.value)
  given : ∀ (i : Nat) (s : EnumSpec) (v : Int64), specs[i]? = some s → s.value = some v →
    members[i]? = some ⟨s.name, v⟩
  leading : ∀ s, specs.head? = some s → s.value = none → members.head? = some ⟨s.name, 0⟩
  counted : ∀ (i : Nat) (s : EnumSpec) (m : EnumMember), specs[i + 1]? = some s → s.value = none →
    members[i]? = some m → ∃ m', members[i + 1]? = some m' ∧ m'.value.toInt = m.value.toInt + 1

/-- What the rule asks of the definition that is built from some members: there is an error exactly if a
member breaks the rule, all members have the values that the rule gives them, and on an error exactly
those in front of the offending one are kept. -/
structure Lawful (specs : List EnumSpec) (built : Enumeration × Option OrderError) : Prop where
  succeeds_iff : built.2 = none ↔ Ordered (-1) specs
  follows : built.2 = none → Follows specs built.1.members
  stops : ∀ e, built.2 = some e →
    ∃ kept s, Breaks (-1) specs kept s ∧ Follows kept built.1.members ∧ e.member = s.name

/-- The first member that breaks the rule has no value: counting on from the largest 64-bit integer. -/
def Overruns (counter : Int) (specs : List EnumSpec) : Prop :=
  ∃ kept s, Breaks counter specs kept s ∧ s.value = none

/-- There is only one first member that breaks the rule. -/
theorem Breaks.unique {counter : Int} {specs kept kept' : List EnumSpec} {s s' : EnumSpec}
    (h : Breaks counter specs kept s) (h' : Breaks counter specs kept' s') : kept = kept' ∧ s = s' := by
  -- An offending member cannot stand among those in front of another first one.
  have hshort : ∀ {k k' : List EnumSpec} {t t' : EnumSpec} {r r' as : List EnumSpec},
      t.Offends (counterBehind counter k) → Ordered counter k' → k' = k ++ as → t :: r = as ++ t' :: r' →
        -- One list of kept members is the beginning of the other.
        k = k' ∧ t = t' := by
    intro k k' t t' r r' as ht hk' hk heq
    cases as with
    | nil =>
      rw [List.append_nil] at hk
      exact ⟨hk.symm, (List.cons.inj heq).1⟩
    | cons a as =>
      obtain ⟨rfl, _⟩ := List.cons.inj heq
      exact absurd ht (hk' k t as hk)
  -- Both splits are of the same list, so one of them is not longer than the other.
  obtain ⟨rest, hsplit⟩ := h.split
  obtain ⟨rest', hsplit'⟩ := h'.split
  rcases List.append_eq_append_iff.1 (hsplit.symm.trans hsplit') with ⟨as, hk, heq⟩ | ⟨as, hk, heq⟩
  · exact hshort h.offends h'.ordered hk heq
  · obtain ⟨hkept, hs⟩ := hshort h'.offends h.ordered hk heq
    exact ⟨hkept.symm, hs.symm⟩

/-! ## Counting members -/

/-- Members counted from a counter on, none of which breaks the rule. -/
inductive Counted : Int → List EnumSpec → List EnumMember → Prop
  | nil {counter : Int} : Counted counter [] []
  | cons {counter : Int} {s : EnumSpec} {specs : List EnumSpec} {v : Int64} {members : List EnumMember}
      (keeps : ¬s.Offends counter) (value : v.toInt = s.next counter) (rest : Counted v.toInt specs members) :
      Counted counter (s :: specs) (⟨s.name, v⟩ :: members)

namespace Counted

variable {counter : Int} {specs : List EnumSpec} {members : List EnumMember}

/-- Every member is counted under its name. -/
theorem names (h : Counted counter specs members) : members.map (·.name) = specs.map (·.name) := by
  induction h with
  | nil => rfl
  | cons _ _ _ ih => rw [List.map_cons, List.map_cons, ih]

/-- All values exceed the counter. -/
theorem above (h : Counted counter specs members) : ∀ m ∈ members, counter < m.value.toInt := by
  induction h with
  | nil => exact nofun
  | @cons counter s _ v _ keeps value _ ih =>
    have hlt : counter < v.toInt := value ▸ EnumSpec.lt_next keeps
    exact List.forall_mem_cons.2 ⟨hlt, fun m hm => Int.lt_trans hlt (ih m hm)⟩

/-- The values increase. -/
theorem increasing (h : Counted counter specs members) : members.Pairwise (·.value < ·.value) := by
  induction h with
  | nil => exact .nil
  | cons _ _ rest ih => exact .cons (fun m hm => Int64.lt_iff_toInt_lt.2 (rest.above m hm)) ih

/-- Given values are kept. -/
theorem given (h : Counted counter specs members) :
    ∀ (i : Nat) (s : EnumSpec) (v : Int64), specs[i]? = some s → s.value = some v →
      members[i]? = some ⟨s.name, v⟩ := by
  -- Along the counted members; the head has its given value.
  induction h with
  | nil => exact fun i s v hs => nomatch hs
  | @cons _ t _ w _ _ value _ ih =>
    intro i s v hs hv
    cases i with
    | succ i => exact ih i s v hs hv
    | zero =>
      obtain rfl : t = s := Option.some.inj hs
      rw [EnumSpec.next, hv] at value
      rw [Int64.toInt_inj.1 value]
      rfl

/-- The first member is one more than the counter if it has no value. -/
theorem first (h : Counted counter specs members) (s : EnumSpec) (hs : specs.head? = some s)
    (hv : s.value = none) : ∃ v, members.head? = some ⟨s.name, v⟩ ∧ v.toInt = counter + 1 := by
  cases h with
  | nil => exact nomatch hs
  | @cons _ t _ w _ _ value _ =>
    obtain rfl : t = s := Option.some.inj hs
    rw [EnumSpec.next, hv] at value
    exact ⟨w, rfl, value⟩

/-- Every other member without a value is its predecessor plus one. -/
theorem counted (h : Counted counter specs members) :
    ∀ (i : Nat) (s : EnumSpec) (m : EnumMember), specs[i + 1]? = some s → s.value = none →
      members[i]? = some m → ∃ m', members[i + 1]? = some m' ∧ m'.value.toInt = m.value.toInt + 1 := by
  -- Along the counted members; behind the head the next one has no value of its own.
  induction h with
  | nil => exact fun i s m hs => nomatch hs
  | @cons _ _ specs _ members _ _ rest ih =>
    intro i s m hs hv hm
    cases i with
    | succ i => exact ih i s m hs hv hm
    | zero =>
      -- The rest begins with the member, so its value is the counter behind the head.
      obtain rfl := Option.some.inj hm
      have hhead : specs.head? = some s := by rwa [List.head?_eq_getElem?]
      obtain ⟨v, hfirst, hnext⟩ := rest.first s hhead hv
      exact ⟨⟨s.name, v⟩, by rwa [List.head?_eq_getElem?] at hfirst, hnext⟩

/-- Members counted from the start have the values that the rule gives them. -/
theorem follows (h : Counted (-1) specs members) : Follows specs members where
  names := h.names
  increasing := h.increasing
  given := h.given
  leading s hs hv := by
    obtain ⟨v, hfirst, hvalue⟩ := h.first s hs hv
    rw [hfirst, Int64.toInt_inj.1 (hvalue.trans (by decide : (-1 + 1 : Int) = (0 : Int64).toInt))]
  counted := h.counted

/-- None of the members that are counted breaks the rule. -/
theorem ordered (h : Counted counter specs members) : Ordered counter specs := by
  -- Along the counted members.
  induction h with
  | nil =>
    intro kept s rest heq
    cases kept <;> exact nomatch heq
  | @cons counter t _ v _ keeps value _ ih =>
    intro kept s rest heq
    cases kept with
    | nil =>
      obtain ⟨rfl, _⟩ := List.cons.inj heq
      -- The other members follow the counter behind the head.
      exact keeps
    | cons k kept =>
      rw [List.cons_append] at heq
      obtain ⟨rfl, htail⟩ := List.cons.inj heq
      have hrest := ih kept s rest htail
      rwa [value] at hrest

end Counted

/-! ## Counting with machine integers -/

/-- As long as the counter is below the largest integer, the next one is one more. -/
private theorem toInt_next {c : Int64} (h : ¬Int64.maxValue.toInt < c.toInt + 1) :
    (c + 1).toInt = c.toInt + 1 := by
  have hlow := c.le_toInt
  rw [Int64.toInt_maxValue] at h
  rw [Int64.toInt_add, show (1 : Int64).toInt = 1 from rfl, Int.bmod_eq_of_le] <;> omega

/-- How the values of members are counted. -/
inductive Outcome (counter : Int) (specs : List EnumSpec) : List EnumMember × Option OrderError → Prop
  /-- All of them keep the rule. -/
  | counted {members : List EnumMember} (all : Counted counter specs members) :
      Outcome counter specs (members, none)
  /-- One of them has a value that does not exceed the counter. -/
  | stopped (kept : List EnumSpec) {rest : List EnumSpec} {s : EnumSpec} {members : List EnumMember} {e : OrderError}
      (split : specs = kept ++ s :: rest) (offends : s.Offends (counterBehind counter kept))
      (given : s.value ≠ none) (front : Counted counter kept members) (blames : e.member = s.name) :
      Outcome counter specs (members, some e)
  /-- One of them is counted on from the largest integer, and is among the members all the same. -/
  | wrapped (kept : List EnumSpec) {rest : List EnumSpec} {s : EnumSpec} {members : List EnumMember}
      {built : List EnumMember × Option OrderError} (split : specs = kept ++ s :: rest)
      (offends : s.Offends (counterBehind counter kept)) (counts : s.value = none)
      (front : Counted counter kept members) (longer : kept.length < built.1.length) :
      Outcome counter specs built

/-- One more member in front that keeps the rule. -/
theorem Outcome.cons {counter : Int} {s : EnumSpec} {v : Int64} {specs : List EnumSpec}
    {built : List EnumMember × Option OrderError} (keeps : ¬s.Offends counter)
    (value : v.toInt = s.next counter) (h : Outcome v.toInt specs built) :
    Outcome counter (s :: specs) (⟨s.name, v⟩ :: built.1, built.2) := by
  -- The member joins those that are kept, and whatever happens behind it happens one place further.
  cases h with
  | counted all => exact .counted (.cons keeps value all)
  | @stopped kept rest t _ _ split offends given front blames =>
    rw [value] at offends
    exact .stopped (s :: kept) (by rw [split, List.cons_append]) offends given
      (.cons keeps value front) blames
  | @wrapped kept rest t _ _ split offends counts front longer =>
    rw [value] at offends
    exact .wrapped (s :: kept) (by rw [split, List.cons_append]) offends counts
      (.cons keeps value front) (Nat.succ_lt_succ longer)

/-- Counting members one by one comes to one of these outcomes. -/
private theorem valuesFrom_outcome (c : Int64) (specs : List EnumSpec) :
    Outcome c.toInt specs (valuesFrom c specs) := by
  -- Member by member, with the counter of the one before.
  induction specs generalizing c with
  | nil => exact .counted .nil
  | cons s specs ih =>
    -- Without a value the member follows the counter, which may wrap.
    cases hs : s.value with
    | none =>
      have hstep : valuesFrom c (s :: specs)
          = (⟨s.name, c + 1⟩ :: (valuesFrom (c + 1) specs).1, (valuesFrom (c + 1) specs).2) := by
        rw [valuesFrom, hs]
      rw [hstep]
      -- It breaks the rule only behind the largest integer, and is kept all the same.
      by_cases hoff : s.Offends c.toInt
      · exact .wrapped [] rfl hoff hs .nil (Nat.succ_pos _)
      · have hvalue : (c + 1).toInt = s.next c.toInt := by
          rw [EnumSpec.Offends, hs] at hoff
          rw [EnumSpec.next, hs]
          exact toInt_next hoff
        exact (ih (c + 1)).cons hoff hvalue
    | some v =>
      -- A given value has to be above the counter; otherwise it is reported.
      rw [valuesFrom, hs]
      dsimp only
      have hoff : s.Offends c.toInt ↔ v ≤ c := by rw [EnumSpec.Offends, hs, Int64.le_iff_toInt_le]
      split
      case isTrue hle => exact .stopped [] rfl (hoff.2 hle) (by rw [hs]; nofun) .nil rfl
      case isFalse hgt => exact (ih v).cons ((not_congr hoff).2 hgt) (by rw [EnumSpec.next, hs])

/-- A definition is lawful unless counting leaves the 64-bit integers: if no member breaks the rule the
values are those that the rule gives, and if the first one to break it has a value of its own the
definition ends in front of it with an error.  Behind the largest integer a member without a value ought
to be refused and is not. -/
theorem build_lawful_iff (name : Text) (site : Span) (specs : List EnumSpec) :
    Lawful specs (build name site specs) ↔ ¬Overruns (-1) specs := by
  have hbuilt : build name site specs
      = (⟨name, (valuesFrom (-1) specs).1, site⟩, (valuesFrom (-1) specs).2) := rfl
  -- Counting begins below zero.
  have hstart : ((-1 : Int64)).toInt = -1 := rfl
  have houtcome := valuesFrom_outcome (-1) specs
  rw [hbuilt]
  rw [hstart] at houtcome
  generalize valuesFrom (-1) specs = built at houtcome
  cases houtcome with
  | counted all =>
    -- All members are counted, so none breaks the rule.
    refine iff_of_true ⟨⟨fun _ => all.ordered, fun _ => rfl⟩, fun _ => all.follows, nofun⟩ ?_
    rintro ⟨kept, s, ⟨⟨rest, hsplit⟩, _, hoff⟩, _⟩
    exact all.ordered kept s rest hsplit hoff
  | @stopped kept rest s _ e split offends given front blames =>
    have hbreaks : Breaks (-1) specs kept s := ⟨⟨rest, split⟩, front.ordered, offends⟩
    -- An error is reported at the first member that breaks the rule, which has a value of its own.
    refine iff_of_true ⟨⟨nofun, fun h => absurd offends (h kept s rest split)⟩, nofun, fun e' he => ?_⟩ ?_
    · obtain rfl := Option.some.inj he
      exact ⟨kept, s, hbreaks, front.follows, blames⟩
    · rintro ⟨kept', s', hbreaks', hnone⟩
      obtain ⟨_, rfl⟩ := hbreaks.unique hbreaks'
      exact given hnone
  | @wrapped kept rest s _ _ split offends counts front longer =>
    have hbreaks : Breaks (-1) specs kept s := ⟨⟨rest, split⟩, front.ordered, offends⟩
    -- The counter has wrapped at a member without a value.
    refine iff_of_false (fun h => ?_) (not_not_intro ⟨kept, s, hbreaks, counts⟩)
    -- Either nothing is reported, or more members are kept than stand in front of the offending one.
    cases hr : built.2 with
    | none => exact h.succeeds_iff.1 hr kept s rest split offends
    | some e =>
      obtain ⟨kept', s', hbreaks', hfollows, _⟩ := h.stops e hr
      obtain ⟨rfl, _⟩ := hbreaks.unique hbreaks'
      have hlen := congrArg List.length hfollows.names
      rw [List.length_map, List.length_map] at hlen
      exact absurd hlen (Nat.ne_of_gt longer)

/-- A member with the largest value, and one that counts on from it. -/
def pastLargest : List EnumSpec := [⟨"a", some Int64.maxValue⟩, ⟨"b", none⟩]

/-- The second member should be refused.  It becomes the smallest integer, and nothing is reported. -/
theorem pastLargest_unlawful : ¬Lawful pastLargest (build "E" {} pastLargest) := by
  intro h
  have hnone : (build "E" {} pastLargest).2 = none := by decide
  exact h.succeeds_iff.1 hnone [⟨"a", some Int64.maxValue⟩] ⟨"b", none⟩ [] rfl (by decide)

end Enumeration

end AisScript
