import AisScript.Unit
import AisScript.Proofs.ParserShape
import AisScript.Proofs.Generated

/-!
# The passes of a unit

What a script and its required files are read into always has the shape that the passes rely on, so of
all faults only those of the last pass are left.  The condition for them is exact: compilation ends
with an outcome unless the unit is accepted and a place of its lowered program stops generation, and
the outcome has a text exactly when it has no error.

* `Block.lower`              the program that code is generated from
* `Block.lower_ok`           every accepted program can be lowered
* `Stops`                    units whose lowered program has a place that stops generation
* `compileSource_ok_iff`     a script in memory is compiled exactly unless it is such a unit
-/

namespace AisScript

/-! ## Diagnostics -/

/-- Offering a diagnostic makes an error of a bag exactly if the diagnostic is one. -/
theorem Bag.hasErrors_add (b : Bag) (d : Diagnostic) :
    (b.add d).hasErrors = (b.hasErrors || d.severity.halts) := by
  unfold Bag.add
  split
  · simp only [Bag.hasErrors, List.any_append, List.any_cons, List.any_nil, Bool.or_false, Bool.or_assoc]
  · simp only [Bag.hasErrors]
    rw [Bool.or_assoc, Bool.or_assoc, Bool.or_comm d.severity.halts]

/-- Timings are no error. -/
theorem Outcome.failed_withTimings (o : Outcome) (wanted : Bool) :
    (o.withTimings wanted).failed = o.failed := by
  unfold Outcome.withTimings
  split
  · rw [Outcome.failed, Bag.hasErrors_add]
    exact Bool.or_false _
  · rfl

/-- Timings do not change the text. -/
theorem Outcome.output_withTimings (o : Outcome) (wanted : Bool) :
    (o.withTimings wanted).output = o.output := by
  unfold Outcome.withTimings
  split <;> rfl

/-- A text exactly where there is no error. -/
def Outcome.Decided (o : Outcome) : Prop := o.output.isSome = true ↔ o.failed = false

/-- Timings do not matter for it. -/
theorem Outcome.Decided.withTimings {o : Outcome} (h : o.Decided) (wanted : Bool) :
    (o.withTimings wanted).Decided := by
  unfold Outcome.Decided
  rw [o.output_withTimings, o.failed_withTimings]
  exact h

/-! ## Hosts -/

/-- Every variable of a host that was given further variables is a standard one or one of those. -/
private theorem Host.mem_globals_withGlobals {extra : List Global} {g : Global}
    (hg : g ∈ (Host.default.withGlobals extra).globals) : g ∈ Host.default.globals ∨ g ∈ extra := by
  -- By induction on the variables that are added, each of which is dropped or comes last.
  have hfold : ∀ (gs : List Global) (h : Host), g ∈ (gs.foldl Host.add h).globals →
      g ∈ h.globals ∨ g ∈ gs := by
    intro gs
    induction gs with
    | nil => exact fun _ h => .inl h
    | cons g' gs ih =>
      intro h hmem
      rcases ih _ hmem with hmem | hmem
      · unfold Host.add at hmem
        split at hmem
        · exact .inl hmem
        · rcases List.mem_append.1 hmem with hmem | hmem
          · exact .inl hmem
          · exact .inr (List.mem_cons.2 (.inl (List.mem_singleton.1 hmem)))
      · exact .inr (List.mem_cons_of_mem g' hmem)
  -- They are added in sorted order.
  rcases hfold _ _ hg with hg | hg
  · exact .inl hg
  · exact .inr (List.mem_mergeSort.1 hg)

/-- The variables of such a host have proper types if the further ones have. -/
private theorem Host.withGlobals_proper {extra : List Global} (h : ∀ g ∈ extra, g.ty.isProper = true) :
    ∀ g ∈ (Host.default.withGlobals extra).globals, g.ty.isProper = true := by
  have hdefault : ∀ g ∈ Host.default.globals, g.ty.isProper = true := by decide
  exact fun g hg => (Host.mem_globals_withGlobals hg).elim (hdefault g) (h g)

/-! ## Lowering -/

/-- The program that code is generated from: calls are expanded, and members of enumerations and strings
are replaced. -/
def Block.lower (b : Block) : Except Fault Block := do
  let x ← b.expand
  let program ← x.program.substituteEnums
  program.substituteStrings

/-- A program that declarations and typing accept, with what they make of it. -/
def Block.Accepted (h : Host) (program typed : Block) : Prop :=
  ∃ declared, program.declare h = (declared, none) ∧ declared.annotate h = (typed, none)

/-- A program without a fault and without an error is accepted. -/
theorem Block.accepted_of_none {h : Host} {program : Block} (hd : (program.declare h).2 = none)
    (ht : ((program.declare h).1.annotate h).2 = none) :
    program.Accepted h ((program.declare h).1.annotate h).1 :=
  ⟨_, Block.declare_eq_of_none hd, Block.annotate_eq_of_none ht⟩

/-- What an accepted program is typed to is resolved. -/
theorem Block.Accepted.resolved {h : Host} (hh : ∀ g ∈ h.globals, g.ty.isProper = true)
    {program typed : Block} (hp : program.Sourced) (ha : program.Accepted h typed) :
    ∃ hi, typed.Resolved .full h.entryScope.1.push h.entryScope.2 hi false := by
  obtain ⟨declared, hd, ht⟩ := ha
  obtain ⟨_, hmarked⟩ := Block.declare_marked h hp
  rw [hd] at hmarked
  exact Block.annotate_resolved id (fun _ _ => trivial) hh hmarked ht

/-- Every accepted program can be lowered: all calls are expanded and all constants replaced. -/
theorem Block.lower_ok {h : Host} (hh : ∀ g ∈ h.globals, g.ty.isProper = true) {program typed : Block}
    (hp : program.Sourced) (ha : program.Accepted h typed) :
    ∃ x enums lowered, typed.expand = .ok x ∧ x.program.substituteEnums = .ok enums
      ∧ enums.substituteStrings = .ok lowered ∧ Stays Assign.NoString lowered.nodes := by
  obtain ⟨hi, hr⟩ := ha.resolved hh hp
  obtain ⟨x, hx, hxs⟩ := Block.expand_settled hr
  obtain ⟨enums, he, hes⟩ := Block.substituteEnums_settled hxs
  obtain ⟨lowered, hl, hls⟩ := Block.substituteStrings_settled hes
  exact ⟨x, enums, lowered, hx, he, hl, hls⟩

/-! ## Units -/

/-- A script and everything it requires as one program, with what was found out on the way. -/
def readUnit (disk : Disk) (opts : Options) (file : SourceFile) : Block × Requires :=
  let (id, files) := ({} : FileSet).add file
  let parsed := parse id opts.limit file.content
  let reporter : Reporter := Reporter.reportAll { bag := Bag.new opts.limit } parsed.reports
  parsed.program.resolve disk opts.limit files reporter file

/-- What a unit is read into has the shape that the passes rely on. -/
private theorem readUnit_sourced (disk : Disk) (opts : Options) (file : SourceFile) :
    (readUnit disk opts file).1.Sourced :=
  Block.resolve_sourced disk opts.limit _ _ file (parse_marked _ opts.limit file.content)

/-- A program whose lowered form has a place that stops generation. -/
def Block.Stops (h : Host) (program : Block) : Prop :=
  ∃ typed lowered, program.Accepted h typed ∧ typed.lower = .ok lowered
    ∧ ∃ s ∈ lowered.sites [], s.Blocked h

/-- A unit that is read without errors into a program whose lowered form has a place that stops
generation. -/
def Stops (disk : Disk) (opts : Options) (file : SourceFile) : Prop :=
  (readUnit disk opts file).2.reporter.bag.hasErrors = false
    ∧ (readUnit disk opts file).1.Stops opts.host

/-- The passes from typing on end in a decided outcome exactly unless generation is stopped. -/
private theorem Outcome.proceed_ok_iff {o : Outcome} {opts : Options} {program : Block}
    (hgoal : opts.goal = .emit) (hh : ∀ g ∈ opts.host.globals, g.ty.isProper = true)
    (hp : program.Sourced) (hout : o.output = none) (hok : o.failed = false) :
    (∃ o', o.proceed opts program = .ok o' ∧ o'.Decided) ↔ ¬program.Stops opts.host := by
  -- Declarations are marked without a fault.
  obtain ⟨hnone, _⟩ := Block.declare_marked opts.host hp
  generalize hd : program.declare opts.host = d at hnone
  obtain ⟨declared, fault⟩ := d
  cases hnone
  -- Is the program typed without an error?
  cases ht : declared.annotate opts.host with
  | mk typed error =>
    cases error with
    -- With an error, nothing is generated and the error is reported.
    | some e =>
      have hproceed : ∃ o', o.proceed opts program = .ok o' ∧ o'.output = o.output
          ∧ o'.bag = o.bag.add e.diagnostic := by
        simp only [Outcome.proceed, hd, ht]
        exact ⟨_, rfl, rfl, rfl⟩
      obtain ⟨o', ho', hout', hbag⟩ := hproceed
      refine ⟨fun _ hstop => ?_, fun _ => ⟨o', ho', ?_⟩⟩
      · -- A program with an error is not accepted.
        obtain ⟨_, _, ⟨declared', hd', ht'⟩, _⟩ := hstop
        cases hd.symm.trans hd'
        cases ht.symm.trans ht'
      -- The report makes the outcome a failure without a text.
      · have hfailed : o'.failed = true := by
          rw [Outcome.failed, hbag, Bag.hasErrors_add]
          exact Bool.or_true _
        rw [Outcome.Decided, hout', hout, hfailed]
        exact ⟨(fun h => by cases h), (fun h => by cases h)⟩
    | none =>
      -- An accepted program is lowered, and what is left is settled.
      have ha : program.Accepted opts.host typed := ⟨declared, hd, ht⟩
      obtain ⟨x, enums, lowered, hx, he, hl, hstays⟩ := Block.lower_ok hh hp ha
      have hlower : typed.lower = .ok lowered := by
        simp only [Block.lower, hx, he, bind, Except.bind]
        exact hl
      -- A text is generated exactly if no place blocks it.
      have hstops : program.Stops opts.host ↔ ¬∃ t, lowered.generate opts.host = .ok t := by
        rw [Block.generate_ok_iff hstays]
        constructor
        -- A place that stops generation is one that blocks it.
        · rintro ⟨typed', lowered', ⟨declared', hd', ht'⟩, hl', s, hs, hb⟩ hfree
          cases hd.symm.trans hd'
          cases ht.symm.trans ht'
          cases hlower.symm.trans hl'
          exact hfree s hs hb
        -- If something blocks it, it is at some place.
        · intro hblocked
          refine ⟨typed, lowered, ha, hlower, Classical.byContradiction fun hno => hblocked ?_⟩
          exact fun s hs hb => hno ⟨s, hs, hb⟩
      rw [hstops, Classical.not_not]
      have hgoal' : (opts.goal = .analyze) = False := by simp [hgoal]
      cases hg : lowered.generate opts.host with
      -- Generation is stopped, so there is no outcome.
      | error f =>
        refine ⟨fun hends => ?_, fun htext => by cases htext.choose_spec⟩
        obtain ⟨o', ho', _⟩ := hends
        simp only [Outcome.proceed, hd, ht, hgoal', if_false, hx, he, hl, hg, bind, Except.bind] at ho'
        cases ho'
      -- There is a text, and no error was added.
      | ok t =>
        have hproceed : ∃ o', o.proceed opts program = .ok o' ∧ o'.output = some t ∧ o'.bag = o.bag := by
          simp only [Outcome.proceed, hd, ht, hgoal', if_false, hx, he, hl, hg, bind, Except.bind]
          exact ⟨_, rfl, rfl, rfl⟩
        obtain ⟨o', ho', hout', hbag⟩ := hproceed
        refine ⟨fun _ => ⟨t, rfl⟩, fun _ => ⟨o', ho', ?_⟩⟩
        rw [Outcome.Decided, hout', Outcome.failed, hbag]
        exact ⟨fun _ => hok, fun _ => rfl⟩

/-- The outcome of a unit that was only read. -/
def readOutcome (disk : Disk) (opts : Options) (file : SourceFile) : Outcome :=
  let (program, reqs) := readUnit disk opts file
  { path := file.path, files := reqs.files, program := some program, bag := reqs.reporter.bag
    passes := [{ phase := .parse }, { phase := .require, counts := [("files", reqs.loaded.length)] }] }

/-- Without a cache, a unit that was read without errors goes through all passes. -/
theorem compile_eq (disk : Disk) {opts : Options} (file : SourceFile) (hgoal : opts.goal = .emit)
    (hcache : opts.cache = none) :
    compile disk opts file =
      if (readOutcome disk opts file).failed then
        .ok ((readOutcome disk opts file).withTimings opts.timings, disk)
      else do
        let o ← (readOutcome disk opts file).proceed opts (readUnit disk opts file).1
        return (o.withTimings opts.timings, disk) := by
  have hparse : decide (Goal.emit = .parse) = false := rfl
  unfold compile
  simp only [hgoal, hparse, Bool.or_false, if_true, hcache]
  rfl

/-- A script in memory is compiled for every host with further variables and every disk: the passes end,
and there is a text exactly when there is no error, unless the script is accepted and a place of its
lowered program stops generation. -/
theorem compileSource_ok_iff (disk : Disk) (opts : Options) (name content : Text) (extra : List Global)
    (hextra : ∀ g ∈ extra, g.ty.isProper = true) :
    let opts := { opts with goal := .emit, cache := none, host := Host.default.withGlobals extra }
    (∃ o, compileSource disk opts name content = .ok (o, disk)
        ∧ (o.output.isSome = true ↔ o.failed = false))
      ↔ ¬Stops disk opts (.inMemory name content) := by
  -- Nothing is kept in a cache, so the file is compiled.
  intro opts
  have hproper : ∀ g ∈ opts.host.globals, g.ty.isProper = true := Host.withGlobals_proper hextra
  generalize hfile : SourceFile.inMemory name content = file
  -- What is read of the unit is as it was parsed.
  have hsourced := readUnit_sourced disk opts file
  have hcompile : compile disk opts file = _ := compile_eq disk file rfl rfl
  rw [compileSource, hfile, hcompile]
  cases hfailed : (readOutcome disk opts file).failed with
  | true =>
    -- A unit with errors in its files ends before the first pass that could stop.
    rw [if_pos rfl]
    refine ⟨fun _ hstop => ?_, fun _ => ⟨_, rfl, ?_⟩⟩
    · cases hfailed.symm.trans hstop.1
    · rw [Outcome.output_withTimings, Outcome.failed_withTimings, hfailed]
      exact ⟨(fun h => by cases h), (fun h => by cases h)⟩
  | false =>
    rw [if_neg Bool.false_ne_true]
    have hiff := Outcome.proceed_ok_iff (o := readOutcome disk opts file) rfl hproper hsourced rfl hfailed
    -- Without errors in its files, the unit is stopped where its program is.
    have hstops : Stops disk opts file ↔ (readUnit disk opts file).1.Stops opts.host :=
      ⟨fun h => h.2, fun h => ⟨hfailed, h⟩⟩
    rw [hstops, ← hiff]
    cases (readOutcome disk opts file).proceed opts (readUnit disk opts file).1 with
    -- The passes are stopped, so there is no outcome on either side.
    | error f =>
      constructor
      all_goals rintro ⟨_, h, _⟩; cases h
    | ok o =>
      -- Timings change neither the text nor the errors.
      constructor
      · rintro ⟨_, ho, hd⟩
        cases ho
        rw [Outcome.output_withTimings, Outcome.failed_withTimings] at hd
        exact ⟨o, rfl, hd⟩
      · rintro ⟨_, ho, hd⟩
        cases ho
        exact ⟨_, rfl, hd.withTimings opts.timings⟩

/-- A script with a variable of the host that is no standard one. -/
theorem compileSource_ok_iff_gravity :
    let opts : Options := { host := Host.default.withGlobals [⟨"gravity", .float⟩] }
    (∃ o, compileSource ⟨[], []⟩ opts "fall" "speed = 2 * gravity" = .ok (o, ⟨[], []⟩)
        ∧ (o.output.isSome = true ↔ o.failed = false))
      ↔ ¬Stops ⟨[], []⟩ opts (.inMemory "fall" "speed = 2 * gravity") :=
  compileSource_ok_iff ⟨[], []⟩ {} "fall" "speed = 2 * gravity" [⟨"gravity", .float⟩] (by decide)

/-- An enumeration with one member. -/
def letters : Enumeration := { name := "E", members := [⟨"a", 0⟩] }

/-- `enum E a end def f(x) return 1 end y = f(E)`: a parameter that is bound to an enumeration. -/
def enumArgument : Block :=
  .mk [] [.enumDef {} letters,
    .funcDef {} "f" {} [⟨"x", {}⟩] (.mk [] [.ret {} (.literal (.int 1) {})] {}),
    .assign (.make "y" (.apply "f" {} [.name "E" {}] {}) false {})] {}

/-- The passes accept a parameter that is bound to an enumeration, and then cannot declare it. -/
theorem enumArgument_faults :
    (match Outcome.proceed { path := [], files := {}, bag := Bag.new 0 } {} enumArgument with
      | .error f => some f
      | .ok _ => none) = some (.undeclarable "x" (.enum letters)) := by
  decide +kernel

end AisScript
