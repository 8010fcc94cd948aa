import AisScript.Proofs.Pipeline

/-!
# Histories of bags

Several bags are made, filled, merged into each other or into themselves, and sorted, in any order.  A bag
may turn diagnostics away, and its capacity grows only when another bag is merged in.  Still it has errors
exactly if a halting diagnostic was ever offered to it, directly or to a bag that was merged in later, and
what it keeps never exceeds a capacity that only grows, up to the ceiling.

* `BagStep`, `BagStep.run`     histories, the latest step first
* `BagStep.Offered`            diagnostics offered to a bag in a history
* `Bag.hasErrors_merge`        a merge brings in the errors of the other bag
* `BagStep.run_accounts`       errors are never forgotten, and capacities are kept
-/

namespace AisScript

/-! ## One bag -/

namespace Bag

variable {b other : Bag} {d : Diagnostic} {ds : List Diagnostic}

/-- What is kept fits into a capacity below the ceiling. -/
structure Bounded (b : Bag) : Prop where
  fits : b.items.length ≤ b.capacity
  capacity_le : b.capacity ≤ ceiling

theorem Bounded.new (limit : Int) : (Bag.new limit).Bounded where
  fits := Nat.zero_le _
  capacity_le := by
    dsimp only [Bag.new]
    split
    · omega
    · exact Nat.le_refl _

private theorem hasErrors_new (limit : Int) : (Bag.new limit).hasErrors = false := rfl

@[simp] theorem capacity_add (b : Bag) (d : Diagnostic) : (b.add d).capacity = b.capacity := by
  unfold add
  split <;> rfl

theorem Bounded.add (h : b.Bounded) (d : Diagnostic) : (b.add d).Bounded := by
  refine ⟨?_, by rw [capacity_add]; exact h.capacity_le⟩
  rw [capacity_add]
  unfold Bag.add
  split
  case isTrue hroom =>
    rw [List.length_append]
    exact of_decide_eq_true hroom
  case isFalse => exact h.fits

@[simp] theorem capacity_addAll (b : Bag) (ds : List Diagnostic) : (b.addAll ds).capacity = b.capacity := by
  induction ds generalizing b with
  | nil => rfl
  | cons d ds ih => exact (ih (b.add d)).trans (capacity_add b d)

theorem Bounded.addAll (h : b.Bounded) (ds : List Diagnostic) : (b.addAll ds).Bounded := by
  induction ds generalizing b with
  | nil => exact h
  | cons d ds ih => exact ih (h.add d)

/-- Several diagnostics make an error exactly if one of them halts. -/
theorem hasErrors_addAll (b : Bag) (ds : List Diagnostic) :
    (b.addAll ds).hasErrors = (b.hasErrors || ds.any (·.severity.halts)) := by
  induction ds generalizing b with
  | nil => exact (Bool.or_false _).symm
  | cons d ds ih =>
    have hstep : b.addAll (d :: ds) = (b.add d).addAll ds := rfl
    rw [hstep, ih, hasErrors_add, Bool.or_assoc, List.any_cons]

/-- A bag whose capacity makes room for what another one holds, as far as the ceiling allows. -/
def grownFor (b other : Bag) : Bag :=
  if b.capacity < b.items.length + other.items.length then
    { b with capacity := min (b.items.length + other.items.length) ceiling }
  else b

private theorem merge_eq (b other : Bag) : b.merge other =
    { (b.grownFor other).addAll other.items with
      overflowed := ((b.grownFor other).addAll other.items).overflowed || other.overflowed } := rfl

private theorem hasErrors_grownFor (b other : Bag) : (b.grownFor other).hasErrors = b.hasErrors := by
  unfold grownFor
  split <;> rfl

/-- Room is made, and none is lost. -/
private theorem Bounded.grownFor (h : b.Bounded) (other : Bag) :
    (b.grownFor other).Bounded ∧ b.capacity ≤ (b.grownFor other).capacity := by
  have hfits := h.fits
  have hceiling := h.capacity_le
  unfold Bag.grownFor
  split
  case isTrue hmore =>
    refine ⟨⟨Nat.le_min.2 ⟨Nat.le_add_right _ _, Nat.le_trans hfits hceiling⟩, Nat.min_le_right _ _⟩, ?_⟩
    exact Nat.le_min.2 ⟨Nat.le_of_lt hmore, hceiling⟩
  case isFalse => exact ⟨h, Nat.le_refl _⟩

/-- A merge brings in the errors of the other bag, also those that it remembers without keeping them. -/
theorem hasErrors_merge (b other : Bag) : (b.merge other).hasErrors = (b.hasErrors || other.hasErrors) := by
  have hfilled := hasErrors_addAll (b.grownFor other) other.items
  rw [hasErrors_grownFor] at hfilled
  calc (b.merge other).hasErrors
      = (((b.grownFor other).addAll other.items).hasErrors || other.overflowed) := by
        rw [merge_eq]
        simp only [hasErrors]
        rw [Bool.or_assoc, Bool.or_comm other.overflowed, ← Bool.or_assoc]
    _ = (b.hasErrors || other.hasErrors) := by
        rw [hfilled, hasErrors, hasErrors, Bool.or_assoc, Bool.or_comm (other.items.any _)]

theorem Bounded.merge (h : b.Bounded) (other : Bag) :
    (b.merge other).Bounded ∧ b.capacity ≤ (b.merge other).capacity := by
  obtain ⟨hgrown, hle⟩ := h.grownFor other
  have hfilled := hgrown.addAll other.items
  rw [merge_eq]
  exact ⟨⟨hfilled.fits, hfilled.capacity_le⟩, Nat.le_trans hle (Nat.le_of_eq (capacity_addAll _ _).symm)⟩

/-- Sorting keeps all diagnostics. -/
private theorem hasErrors_sort (b : Bag) : b.sort.hasErrors = b.hasErrors := by
  rw [hasErrors, hasErrors, sort, (List.mergeSort_perm b.items _).any_eq]

theorem Bounded.sort (h : b.Bounded) : b.sort.Bounded where
  fits := by
    rw [Bag.sort, List.length_mergeSort]
    exact h.fits
  capacity_le := h.capacity_le

/-- What a bag shows of the diagnostics that were offered to it: whether one of them halts, and no more of
them than it has room for. -/
structure Accounts (b : Bag) (offered : Diagnostic → Prop) : Prop extends b.Bounded where
  errors : b.hasErrors = true ↔ ∃ d, offered d ∧ d.severity.halts = true

namespace Accounts

variable {offered offered' : Diagnostic → Prop}

/-- The same diagnostics, described otherwise. -/
theorem congr (h : b.Accounts offered) (hiff : ∀ d, offered' d ↔ offered d) : b.Accounts offered' :=
  ⟨h.toBounded, h.errors.trans (exists_congr fun d => and_congr_left' (hiff d).symm)⟩

theorem new (limit : Int) (hnone : ∀ d, ¬offered d) : (Bag.new limit).Accounts offered :=
  ⟨.new limit, iff_of_false (by rw [hasErrors_new]; exact Bool.false_ne_true) fun ⟨d, hd, _⟩ => hnone d hd⟩

theorem add (h : b.Accounts offered) (d : Diagnostic) : (b.add d).Accounts fun e => offered e ∨ e = d := by
  refine ⟨h.toBounded.add d, ?_⟩
  rw [hasErrors_add, Bool.or_eq_true, h.errors]
  constructor
  · rintro (⟨e, he, hhalts⟩ | hhalts)
    · exact ⟨e, .inl he, hhalts⟩
    · exact ⟨d, .inr rfl, hhalts⟩
  · rintro ⟨e, he | rfl, hhalts⟩
    · exact .inl ⟨e, he, hhalts⟩
    · exact .inr hhalts

theorem merge (h : b.Accounts offered) (h' : other.Accounts offered') :
    (b.merge other).Accounts fun e => offered e ∨ offered' e := by
  refine ⟨(h.toBounded.merge other).1, ?_⟩
  rw [hasErrors_merge, Bool.or_eq_true, h.errors, h'.errors, ← exists_or]
  exact exists_congr fun e => or_and_right.symm

theorem sort (h : b.Accounts offered) : b.sort.Accounts offered :=
  ⟨h.toBounded.sort, by rw [hasErrors_sort]; exact h.errors⟩

end Accounts

end Bag

/-! ## Many bags -/

/-- One step in the life of several bags, which are numbered in the order in which they are made. -/
inductive BagStep where
  /-- A bag is made. -/
  | new (limit : Int)
  /-- A bag is offered a diagnostic. -/
  | add (bag : Nat) (d : Diagnostic)
  /-- Everything another bag holds is offered to a bag; that may be the same bag. -/
  | merge (bag other : Nat)
  | sort (bag : Nat)
deriving DecidableEq, Repr

namespace BagStep

variable {i : Nat} {b : Bag} {d : Diagnostic} {history : List BagStep}

/-- The bags after a step.  Nothing happens to a bag that does not exist, and merging in such a bag changes
nothing. -/
def apply (bags : List Bag) : BagStep → List Bag
  | .new limit => bags ++ [Bag.new limit]
  | .add i d => bags.modify i (·.add d)
  | .merge i j =>
    match bags[j]? with
    | some other => bags.modify i (·.merge other)
    | none => bags
  | .sort i => bags.modify i Bag.sort

/-- The bags after a history, whose latest step comes first. -/
def run : List BagStep → List Bag
  | [] => []
  | s :: earlier => s.apply (run earlier)

/-- In a history a bag was offered a diagnostic: directly, or the bag was merged with one that had been
offered it by then. -/
def Offered : List BagStep → Nat → Diagnostic → Prop
  | [], _, _ => False
  | s :: earlier, i, d => Offered earlier i d ∨ i < (run earlier).length ∧ match s with
    | .add j e => j = i ∧ e = d
    | .merge j k => j = i ∧ Offered earlier k d
    | .new _ | .sort _ => False

/-- No bag is lost. -/
private theorem length_le_apply (s : BagStep) (bags : List Bag) : bags.length ≤ (s.apply bags).length := by
  cases s with
  | new limit => rw [apply, List.length_append]; exact Nat.le_add_right _ _
  | add j e => exact Nat.le_of_eq (List.length_modify _ _ _).symm
  | merge j k =>
    rw [apply]
    split
    · exact Nat.le_of_eq (List.length_modify _ _ _).symm
    · exact Nat.le_refl _
  | sort j => exact Nat.le_of_eq (List.length_modify _ _ _).symm

/-- Only bags that exist are offered anything. -/
private theorem Offered.lt_length (h : Offered history i d) : i < (run history).length := by
  induction history with
  | nil => exact h.elim
  | cons s earlier ih => exact Nat.lt_of_lt_of_le (h.elim ih And.left) (length_le_apply s (run earlier))

/-- How bag `i` comes about in a step. -/
inductive Made (bags : List Bag) (i : Nat) : BagStep → Bag → Prop
  | new {limit : Int} (fresh : bags.length ≤ i) : Made bags i (.new limit) (Bag.new limit)
  | add {a : Bag} {d : Diagnostic} (had : bags[i]? = some a) : Made bags i (.add i d) (a.add d)
  | merge {j : Nat} {a other : Bag} (had : bags[i]? = some a) (hadOther : bags[j]? = some other) :
      Made bags i (.merge i j) (a.merge other)
  | sort {a : Bag} (had : bags[i]? = some a) : Made bags i (.sort i) a.sort
  /-- The step concerns another bag, or merges in one that does not exist. -/
  | same {s : BagStep} {a : Bag} (had : bags[i]? = some a) (add : ∀ d, s ≠ .add i d)
      (merge : ∀ j, s = .merge i j → bags[j]? = none) : Made bags i s a

/-- A bag that is changed in place. -/
private theorem modify_cases {bags : List Bag} {f : Bag → Bag} {j : Nat}
    (hb : (bags.modify j f)[i]? = some b) :
    (j ≠ i ∧ bags[i]? = some b) ∨ (j = i ∧ ∃ a, bags[i]? = some a ∧ b = f a) := by
  by_cases hj : j = i
  · rw [hj, List.getElem?_modify_eq] at hb
    obtain ⟨a, ha, rfl⟩ := Option.map_eq_some_iff.1 hb
    exact .inr ⟨hj, a, ha, rfl⟩
  · rw [List.getElem?_modify_ne _ _ hj] at hb
    exact .inl ⟨hj, hb⟩

/-- There is no other way. -/
theorem made {s : BagStep} {bags : List Bag} (hb : (s.apply bags)[i]? = some b) : Made bags i s b := by
  -- One case for each kind of step.
  cases s with
  | new limit =>
    rw [apply] at hb
    -- A new bag stands at the end, and the others stay.
    by_cases hi : i < bags.length
    · rw [List.getElem?_append_left hi] at hb
      exact .same hb nofun nofun
    · rw [List.getElem?_append_right (Nat.le_of_not_lt hi)] at hb
      obtain rfl := List.mem_singleton.1 (List.mem_of_getElem? hb)
      exact .new (Nat.le_of_not_lt hi)
  -- Only the bag that is asked changes.
  | add j e =>
    rcases modify_cases hb with ⟨hj, hb⟩ | ⟨rfl, a, ha, rfl⟩
    · exact .same hb (fun d heq => hj (BagStep.add.inj heq).1) nofun
    · exact .add ha
  | merge j k =>
    rw [apply] at hb
    -- Merging an unknown bag changes nothing.
    split at hb
    case h_1 other hother =>
      rcases modify_cases hb with ⟨hj, hb⟩ | ⟨rfl, a, ha, rfl⟩
      · exact .same hb nofun fun k' heq => absurd (BagStep.merge.inj heq).1 hj
      · exact .merge ha hother
    case h_2 hnone =>
      exact .same hb nofun fun k' heq => (BagStep.merge.inj heq).2 ▸ hnone
  | sort j =>
    rcases modify_cases hb with ⟨hj, hb⟩ | ⟨rfl, a, ha, rfl⟩
    · exact .same hb nofun nofun
    · exact .sort ha

/-- A bag accounts for all that it was ever offered. -/
theorem run_accounts (hb : (run history)[i]? = some b) : b.Accounts (Offered history i) := by
  -- Step by step; each bag comes from the one before it in a way that `made` lists.
  induction history generalizing i b with
  | nil => exact nomatch hb
  | cons s earlier ih =>
    cases made hb with
    | new fresh =>
      -- A fresh bag was never offered anything, as there was no such place before.
      refine .new _ fun d hd => ?_
      exact Nat.not_lt.2 fresh (hd.elim Offered.lt_length And.left)
    | @add a d had =>
      -- What was offered is the new report, or was offered before.
      refine ((ih had).add d).congr fun e => or_congr_right ?_
      exact ⟨fun h => h.2.2.symm, fun h => ⟨(List.getElem?_eq_some_iff.1 had).1, rfl, h.symm⟩⟩
    | @merge j a other had hadOther =>
      -- What was offered to the other bag counts from now on.
      refine ((ih had).merge (ih hadOther)).congr fun e => or_congr_right ?_
      exact ⟨fun h => h.2.2, fun h => ⟨(List.getElem?_eq_some_iff.1 had).1, rfl, h⟩⟩
    | sort had => exact (ih had).sort.congr fun e => or_iff_left fun h => h.2
    -- Nothing is offered, so the account stays as it was.
    | same had hadd hmerge =>
      refine (ih had).congr fun e => or_iff_left fun ⟨_, h⟩ => ?_
      cases s with
      | new | sort => exact h
      | add j d => exact hadd d (by rw [h.1])
      | merge j k =>
        obtain ⟨rfl, hk⟩ := h
        exact Nat.not_lt.2 (List.getElem?_eq_none_iff.1 (hmerge k rfl)) hk.lt_length

/-- No step makes a bag smaller. -/
private theorem capacity_le_apply (hb : (run history)[i]? = some b) (s : BagStep) :
    ∃ b', (run (s :: history))[i]? = some b' ∧ b.capacity ≤ b'.capacity := by
  have hi : i < (run history).length := (List.getElem?_eq_some_iff.1 hb).1
  have hi' : i < (run (s :: history)).length := Nat.lt_of_lt_of_le hi (length_le_apply s _)
  have hb' := List.getElem?_eq_getElem hi'
  refine ⟨_, hb', ?_⟩
  -- There is one bag in the place before the step and one behind it.
  generalize (run (s :: history))[i] = b' at hb'
  have hsame : ∀ {a}, (run history)[i]? = some a → a = b := fun ha => Option.some.inj (ha.symm.trans hb)
  -- Each way in which the new one is made keeps the capacity or adds to it.
  cases made hb' with
  | new fresh => exact absurd hi (Nat.not_lt.2 fresh)
  | add had => exact Nat.le_of_eq (by rw [hsame had, Bag.capacity_add])
  | merge had =>
    obtain rfl := hsame had
    exact ((run_accounts hb).toBounded.merge _).2
  | sort had => exact Nat.le_of_eq (congrArg Bag.capacity (hsame had)).symm
  | same had => exact Nat.le_of_eq (congrArg Bag.capacity (hsame had).symm)

/-- No history does. -/
private theorem capacity_le_run (hb : (run history)[i]? = some b) (later : List BagStep) :
    ∃ b', (run (later ++ history))[i]? = some b' ∧ b.capacity ≤ b'.capacity := by
  induction later with
  | nil => exact ⟨b, hb, Nat.le_refl _⟩
  | cons s later ih =>
    obtain ⟨b', hb', hle⟩ := ih
    obtain ⟨b'', hb'', hle'⟩ := capacity_le_apply hb' s
    exact ⟨b'', hb'', Nat.le_trans hle hle'⟩

/-- A bag never forgets an error: after every history it has errors exactly if a halting diagnostic was
offered to it or to a bag that was merged into it by then.  It keeps no more diagnostics than it has room
for, and its capacity never shrinks and never exceeds the ceiling. -/
theorem errors_remembered (hb : (run history)[i]? = some b) :
    (b.hasErrors = true ↔ ∃ d, Offered history i d ∧ d.severity.halts = true)
      ∧ b.items.length ≤ b.capacity ∧ b.capacity ≤ Bag.ceiling
      ∧ ∀ later, ∃ b', (run (later ++ history))[i]? = some b' ∧ b.capacity ≤ b'.capacity :=
  have haccounts := run_accounts hb
  ⟨haccounts.errors, haccounts.fits, haccounts.capacity_le, capacity_le_run hb⟩

/-- A bag with room for one diagnostic is offered a warning and an error, which it drops.  It is merged into
a second bag, and that one into itself. -/
def relay : List BagStep :=
  [.merge 1 1, .merge 1 0, .add 0 { code := .unexpectedToken, span := {}, message := "b" },
    .add 0 { severity := .warning, code := .badNumber, span := {}, message := "a" }, .new 2, .new 1]

/-- The second bag holds the warning twice, and knows of the error. -/
def relayed : Bag where
  items := List.replicate 2 { severity := .warning, code := .badNumber, span := {}, message := "a" }
  capacity := 2
  overflowed := true

theorem relay_remembered : (run relay)[1]? = some relayed
    ∧ (relayed.hasErrors = true ↔ ∃ d, Offered relay 1 d ∧ d.severity.halts = true)
    ∧ relayed.items.length ≤ relayed.capacity ∧ relayed.capacity ≤ Bag.ceiling
    ∧ ∀ later, ∃ b', (run (later ++ relay))[1]? = some b' ∧ relayed.capacity ≤ b'.capacity :=
  have hb : (run relay)[1]? = some relayed := by decide
  ⟨hb, errors_remembered hb⟩

end BagStep

end AisScript
