import AisScript.Proofs.Histories

/-!
# Repeated reports

A reporter passes on the first report of each code, message and position, and drops the later ones.  What a
report is taken for does not depend on its severity, so a repeat may be graver than the report that was
passed on.  The reports kept are those of the direct list without later repeats, but the verdict is that of
the first reports alone.

* `Diagnostic.novel`            the reports that repeat no earlier one
* `Reporter.Sifted`            a reporter that was told some reports
* `Reporter.sifts`              what is dropped, and when the verdict changes
* `Reporter.graverRepeat_dropped`   an error behind a warning that reads the same
-/

namespace AisScript

namespace Diagnostic

variable {d k : Diagnostic} {ds front : List Diagnostic}

/-! ## First reports -/

/-- A report has the same code, message and position as one of some others. -/
def Repeats (d : Diagnostic) (earlier : List Diagnostic) : Prop := ∃ e ∈ earlier, e.key = d.key

instance (d : Diagnostic) (earlier : List Diagnostic) : Decidable (d.Repeats earlier) := by
  unfold Repeats
  infer_instance

/-- The reports that do not repeat an earlier one. -/
def novel (ds : List Diagnostic) : List Diagnostic :=
  (ds.zipIdx.filter fun (d, i) => !decide (d.Repeats (ds.take i))).map (·.1)

/-- Only later repeats are left out. -/
private theorem novel_sublist (ds : List Diagnostic) : (novel ds).Sublist ds := by
  have h := (List.filter_sublist (p := fun (d, i) => !decide (d.Repeats (ds.take i))) (l := ds.zipIdx)).map (·.1)
  rwa [List.zipIdx_map_fst] at h

/-- One report more. -/
private theorem novel_concat (ds : List Diagnostic) (d : Diagnostic) :
    novel (ds ++ [d]) = novel ds ++ if d.Repeats ds then [] else [d] := by
  unfold novel
  rw [List.zipIdx_append, List.filter_append, List.map_append, List.zipIdx_singleton, Nat.zero_add]
  -- Each report is kept or removed as before, by those in front of it.
  congr 1
  -- The reports in front of an earlier one do not include the last one.
  · refine congrArg _ (List.filter_congr fun (e, i) hp => ?_)
    have hlt : i < ds.length := List.snd_lt_of_mem_zipIdx hp
    dsimp only
    rw [List.take_append_of_le_length (Nat.le_of_lt hlt)]
  -- The last report is kept if it repeats none.
  · have htake : (ds ++ [d]).take ds.length = ds := List.take_left
    by_cases hd : d.Repeats ds
    · rw [if_pos hd, List.filter_cons_of_neg, List.filter_nil, List.map_nil]
      simpa [htake] using hd
    · rw [if_neg hd, List.filter_cons_of_pos, List.filter_nil, List.map_cons, List.map_nil]
      simpa [htake] using hd

/-- The reports kept are those with no report of their code, message and position in front of them. -/
private theorem mem_novel_iff : k ∈ novel ds ↔ ∃ front rest, ds = front ++ k :: rest ∧ ¬k.Repeats front := by
  unfold novel
  rw [List.mem_map]
  constructor
  -- The report stands at its place, and none in front of it is like it.
  · rintro ⟨⟨d, i⟩, hd, rfl⟩
    obtain ⟨hmem, hfirst⟩ := List.mem_filter.1 hd
    obtain ⟨hi, hget⟩ := List.getElem?_eq_some_iff.1 (List.mk_mem_zipIdx_iff_getElem?.1 hmem)
    refine ⟨ds.take i, ds.drop (i + 1), ?_, by simpa using hfirst⟩
    rw [← hget, List.getElem_cons_drop, List.take_append_drop]
  -- Behind the reports in front of it stands the report itself.
  · rintro ⟨front, rest, rfl, hfirst⟩
    refine ⟨(k, front.length), List.mem_filter.2 ⟨?_, ?_⟩, rfl⟩
    · rw [List.mk_mem_zipIdx_iff_getElem?, List.getElem?_append_right (Nat.le_refl _), Nat.sub_self]
      rfl
    · simpa using hfirst

/-- Every report has the code, message and position of a first one, which stands no later. -/
private theorem exists_first (h : d ∈ ds) :
    ∃ front k rest, ds = front ++ k :: rest ∧ ¬k.Repeats front ∧ k.key = d.key := by
  have hsome : (ds.find? fun e => e.key = d.key).isSome := List.find?_isSome.2 ⟨d, h, by simp⟩
  obtain ⟨k, hk⟩ := Option.isSome_iff_exists.1 hsome
  obtain ⟨hkey, front, rest, hsplit, hfront⟩ := List.find?_eq_some_iff_append.1 hk
  have hkey : k.key = d.key := of_decide_eq_true hkey
  refine ⟨front, k, rest, hsplit, ?_, hkey⟩
  rintro ⟨e, he, heq⟩
  have hne := hfront e he
  rw [decide_eq_true (heq.trans hkey)] at hne
  exact nomatch hne

/-- Two first reports of the same code, message and position are one report. -/
private theorem eq_of_mem_novel {k' : Diagnostic} (hk : k ∈ novel ds) (hk' : k' ∈ novel ds)
    (hkey : k.key = k'.key) : k = k' := by
  -- A first report does not stand in front of another one like it.
  have hone : ∀ {front rest front' rest' as : List Diagnostic} {k k' : Diagnostic}, k.key = k'.key →
      ¬k'.Repeats front' → front' = front ++ as → k :: rest = as ++ k' :: rest' → k = k' := by
    intro front rest front' rest' as k k' hkey hfirst hfront heq
    cases as with
    | nil => exact (List.cons.inj heq).1
    | cons a as =>
      obtain ⟨rfl, _⟩ := List.cons.inj heq
      exact absurd ⟨k, by rw [hfront]; exact List.mem_append_right _ List.mem_cons_self, hkey⟩ hfirst
  -- Both stand somewhere, and one of them stands in front.
  obtain ⟨front, rest, hsplit, hfirst⟩ := mem_novel_iff.1 hk
  obtain ⟨front', rest', hsplit', hfirst'⟩ := mem_novel_iff.1 hk'
  rcases List.append_eq_append_iff.1 (hsplit.symm.trans hsplit') with ⟨as, hfront, heq⟩ | ⟨as, hfront, heq⟩
  · exact hone hkey hfirst' hfront heq
  · exact (hone hkey.symm hfirst hfront heq).symm

/-- No report is graver than the first one of its code, message and position. -/
def Milder (ds : List Diagnostic) : Prop :=
  ∀ front k rest, ds = front ++ k :: rest → ¬k.Repeats front →
    ∀ d ∈ rest, d.key = k.key → d.severity.rank ≤ k.severity.rank

/-- Only then has every report one beside it that is kept and at least as grave. -/
private theorem milder_iff : Milder ds ↔
    ∀ d ∈ ds, ∃ k ∈ novel ds, k.key = d.key ∧ d.severity.rank ≤ k.severity.rank := by
  constructor
  -- The first report of its kind is kept.
  · intro h d hd
    obtain ⟨front, k, rest, hsplit, hfirst, hkey⟩ := exists_first hd
    refine ⟨k, mem_novel_iff.2 ⟨front, rest, hsplit, hfirst⟩, hkey, ?_⟩
    rw [hsplit] at hd
    -- None like it stands in front.
    rcases List.mem_append.1 hd with hfront | hd
    · exact absurd ⟨d, hfront, hkey.symm⟩ hfirst
    -- It is the report itself, or one that stands behind.
    · rcases List.mem_cons.1 hd with rfl | hrest
      · exact Nat.le_refl _
      · exact h front k rest hsplit hfirst d hrest hkey.symm
  -- Some kept report is as grave, and it is the first one of its kind.
  · intro h front k rest hsplit hfirst d hd hkey
    have hmem : d ∈ ds := by rw [hsplit]; exact List.mem_append_right _ (List.mem_cons_of_mem _ hd)
    obtain ⟨k', hk', hkey', hle⟩ := h d hmem
    have hk : k ∈ novel ds := mem_novel_iff.2 ⟨front, rest, hsplit, hfirst⟩
    rwa [eq_of_mem_novel hk hk' (hkey.symm.trans hkey'.symm)]

end Diagnostic

/-! ## Reporters -/

/-- With room for all of them, diagnostics are kept as they come. -/
private theorem Bag.items_addAll (b : Bag) (ds : List Diagnostic)
    (hroom : b.items.length + ds.length ≤ b.capacity) : (b.addAll ds).items = b.items ++ ds := by
  induction ds generalizing b with
  | nil => exact (List.append_nil _).symm
  | cons d ds ih =>
    rw [List.length_cons] at hroom
    have hfree : b.hasRoom = true := decide_eq_true (by omega)
    have hadd : (b.add d).items = b.items ++ [d] := by rw [Bag.add, if_pos hfree]
    have hstep : b.addAll (d :: ds) = (b.add d).addAll ds := rfl
    rw [hstep, ih (b.add d) (by rw [hadd, capacity_add, List.length_append, List.length_singleton]; omega),
      hadd, List.append_assoc]
    rfl

namespace Reporter

open Diagnostic

variable {b : Bag} {told ds : List Diagnostic} {r : Reporter}

/-- A reporter in front of a bag that was told some reports: the first ones went into the bag, and it knows
what all of them say. -/
structure Sifted (b : Bag) (told : List Diagnostic) (r : Reporter) : Prop where
  bag : r.bag = b.addAll (novel told)
  seen : ∀ d : Diagnostic, d.key ∈ r.seen ↔ d.Repeats told

theorem Sifted.start (b : Bag) : Sifted b [] { bag := b } where
  bag := rfl
  seen _ := iff_of_false nofun fun ⟨_, he, _⟩ => nomatch he

/-- One report more. -/
theorem Sifted.report (h : Sifted b told r) (d : Diagnostic) : Sifted b (told ++ [d]) (r.report d) := by
  -- A report repeats the last one, or one of the others.
  have hconcat : ∀ e : Diagnostic, e.Repeats (told ++ [d]) ↔ e.Repeats told ∨ d.key = e.key := by
    intro e
    simp [Repeats, or_and_right, exists_or]
  unfold Reporter.report
  split
  -- The report was seen, so it is dropped.
  case isTrue hseen =>
    have hrepeats := (h.seen d).1 (List.contains_iff_mem.1 hseen)
    refine ⟨by rw [novel_concat, if_pos hrepeats, List.append_nil]; exact h.bag, fun e => ?_⟩
    rw [hconcat, h.seen]
    -- A report that repeats the last one repeats the one that was like it.
    refine ⟨.inl, fun he => he.elim id fun hkey => ?_⟩
    obtain ⟨f, hf, hfd⟩ := hrepeats
    exact ⟨f, hf, hfd.trans hkey⟩
  -- It was not, so it is kept and remembered.
  case isFalse hnew =>
    have hfirst : ¬d.Repeats told := fun hd => hnew (List.contains_iff_mem.2 ((h.seen d).2 hd))
    refine ⟨?_, fun e => ?_⟩
    · dsimp only
      rw [novel_concat, if_neg hfirst, h.bag, Bag.addAll, Bag.addAll, List.foldl_append]
      rfl
    · rw [hconcat, List.mem_cons, h.seen, or_comm, eq_comm]

/-- Several reports more. -/
theorem Sifted.reportAll (h : Sifted b told r) (ds : List Diagnostic) :
    Sifted b (told ++ ds) (r.reportAll ds) := by
  induction ds generalizing told r with
  | nil => rwa [List.append_nil]
  | cons d ds ih =>
    have hstep := ih (h.report d)
    rwa [List.append_assoc] at hstep

/-- Only the first reports come through. -/
private theorem bag_reportAll (b : Bag) (ds : List Diagnostic) :
    (reportAll { bag := b } ds).bag = b.addAll (novel ds) := ((Sifted.start b).reportAll ds).bag

/-- What becomes of reports that are made through a reporter in front of a bag, beside those that are offered
to the bag itself. -/
structure Sifts (b : Bag) (ds : List Diagnostic) : Prop where
  /-- A bag with room for all reports holds them directly as they come, and through the reporter the first
  ones of them. -/
  items : b.items.length + ds.length ≤ b.capacity → (b.addAll ds).items = b.items ++ ds
    ∧ (reportAll { bag := b } ds).bag.items = b.items ++ novel ds
  sublist : (novel ds).Sublist ds
  /-- No report is removed but for one of the same code, message and position in front of it. -/
  kept : ∀ front d rest, ds = front ++ d :: rest → ¬d.Repeats front → d ∈ novel ds
  /-- One of those is kept. -/
  removed : ∀ front d rest, ds = front ++ d :: rest → d.Repeats front →
    ∃ k ∈ novel ds, k ∈ front ∧ k.key = d.key
  /-- It is at least as grave if no report is graver than the first one of its code, message and position, and
  only then. -/
  milder : Milder ds ↔ ∀ d ∈ ds, ∃ k ∈ novel ds, k.key = d.key ∧ d.severity.rank ≤ k.severity.rank
  /-- An error that comes through is also one directly. -/
  fewer : (reportAll { bag := b } ds).bag.hasErrors = true → (b.addAll ds).hasErrors = true
  /-- The verdicts are the same exactly if the bag had errors before, or one of the first reports halts in case
  any report does. -/
  verdict_iff : (reportAll { bag := b } ds).bag.hasErrors = (b.addAll ds).hasErrors ↔
    b.hasErrors = true ∨ ((∃ d ∈ ds, d.severity.halts = true) → ∃ k ∈ novel ds, k.severity.halts = true)
  /-- So they are if no report is graver than the first one. -/
  verdict : Milder ds → (reportAll { bag := b } ds).bag.hasErrors = (b.addAll ds).hasErrors

/-- The verdict on reports is that on the first ones of them. -/
private theorem hasErrors_reportAll_iff :
    (reportAll { bag := b } ds).bag.hasErrors = (b.addAll ds).hasErrors ↔
    b.hasErrors = true ∨ ((∃ d ∈ ds, d.severity.halts = true) → ∃ k ∈ novel ds, k.severity.halts = true) := by
  have hsub : (∃ k ∈ novel ds, k.severity.halts = true) → ∃ d ∈ ds, d.severity.halts = true :=
    fun ⟨k, hk, hhalts⟩ => ⟨k, (novel_sublist ds).subset hk, hhalts⟩
  rw [bag_reportAll, Bag.hasErrors_addAll, Bag.hasErrors_addAll]
  cases b.hasErrors with
  | true => simp
  | false =>
    rw [Bool.false_or, Bool.false_or, Bool.eq_iff_iff, List.any_eq_true, List.any_eq_true]
    simp only [Bool.false_eq_true, false_or]
    exact ⟨fun h => h.2, fun h => ⟨hsub, h⟩⟩

/-- Deduplication removes nothing but later repeats, and changes the verdict exactly if it removes the only
errors among the reports. -/
theorem sifts (b : Bag) (ds : List Diagnostic) : Sifts b ds where
  -- With room for all, there is room for those that are kept.
  items hroom := by
    have hle := (novel_sublist ds).length_le
    rw [bag_reportAll]
    exact ⟨b.items_addAll ds hroom, b.items_addAll (novel ds) (by omega)⟩
  sublist := novel_sublist ds
  kept front d rest hsplit hfirst := mem_novel_iff.2 ⟨front, rest, hsplit, hfirst⟩
  -- In front of a removed report, the first one like it is kept.
  removed front d rest hsplit := by
    rintro ⟨e, he, hkey⟩
    obtain ⟨front', k, rest', hfront, hfirst, hkey'⟩ := exists_first he
    refine ⟨k, mem_novel_iff.2 ⟨front', rest' ++ d :: rest, ?_, hfirst⟩, ?_, hkey'.trans hkey⟩
    · rw [hsplit, hfront, List.append_assoc, List.cons_append]
    · rw [hfront]
      exact List.mem_append_right _ List.mem_cons_self
  milder := milder_iff
  -- The reports that are kept are among all of them.
  fewer h := by
    rw [bag_reportAll, Bag.hasErrors_addAll, Bool.or_eq_true, List.any_eq_true] at h
    rw [Bag.hasErrors_addAll, Bool.or_eq_true, List.any_eq_true]
    exact h.imp id fun ⟨k, hk, hhalts⟩ => ⟨k, (novel_sublist ds).subset hk, hhalts⟩
  verdict_iff := hasErrors_reportAll_iff
  -- If no repeat is graver, then the first report is an error if any is.
  verdict h := by
    refine hasErrors_reportAll_iff.2 (.inr fun ⟨d, hd, hhalts⟩ => ?_)
    obtain ⟨k, hk, _, hle⟩ := milder_iff.1 h d hd
    exact ⟨k, hk, decide_eq_true (Nat.le_trans (of_decide_eq_true hhalts) hle)⟩

/-- A warning, and an error that reads the same. -/
def graverRepeat : List Diagnostic :=
  [{ severity := .warning, code := .unexpectedToken, span := ⟨0, 3, 4⟩, message := "m" },
    { severity := .error, code := .unexpectedToken, span := ⟨0, 3, 4⟩, message := "m" }]

/-- Through a reporter the error is dropped without a trace, and nothing as grave is kept. -/
theorem graverRepeat_dropped :
    (reportAll { bag := .new 10 } graverRepeat).bag.hasErrors ≠ ((Bag.new 10).addAll graverRepeat).hasErrors
      ∧ ∃ d ∈ graverRepeat, ∀ k ∈ (reportAll { bag := .new 10 } graverRepeat).bag.items,
        ¬d.severity.rank ≤ k.severity.rank := by
  decide

end Reporter

end AisScript
