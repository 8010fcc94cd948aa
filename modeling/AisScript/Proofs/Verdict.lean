import AisScript.Proofs.Limits
import AisScript.Proofs.Splicing

/-!
# The verdict on a unit

The limit on diagnostics reaches the parser of every file and the bag of the unit.  Whatever is dropped
on the way, an error is left behind or remembered.  So two compilations of a unit under different limits
read it into the same program, agree on whether it has errors, and come to the same outcome apart from
the diagnostics that they keep.

* `FileSet.Holds`         spans inside a file of a set
* `Reporter.Told`         reporters that know of every error they were told
* `Requires.InStep`       states of two resolutions under two limits
* `readUnit_paired`       what units are read into
* `compile_limit`         the limit changes nothing but the diagnostics kept
-/

namespace AisScript

/-! ## File sets -/

/-- A span inside a file of the set. -/
def FileSet.Holds (fs : FileSet) (s : Span) : Prop :=
  ∃ f, fs.get? s.file = some f ∧ s.start ≤ s.stop ∧ s.stop ≤ f.content.length

/-- A larger set holds what a smaller one does. -/
theorem FileSet.Holds.grow {fs fs' : FileSet} (hgrow : fs.files <+: fs'.files) (s : Span) (h : fs.Holds s) :
    fs'.Holds s := by
  obtain ⟨f, hget, hspan⟩ := h
  obtain ⟨new, hnew⟩ := hgrow
  refine ⟨f, ?_, hspan⟩
  rw [FileSet.get?, ← hnew]
  exact List.getElem?_append_left (List.getElem?_eq_some_iff.1 hget).1 |>.trans hget

/-- A set holds the spans inside the file that was added last. -/
private theorem FileSet.holds_add (fs : FileSet) (f : SourceFile) (s : Span)
    (h : s.Between fs.files.length 0 f.content.length) : (fs.add f).2.Holds s := by
  obtain ⟨hfile, _, hspan⟩ := h
  refine ⟨f, ?_, hspan⟩
  rw [hfile]
  exact List.getElem?_concat_length

/-! ## Reporters -/

/-- A bag holds what it held before and perhaps the diagnostic it is offered. -/
theorem Bag.mem_add {b : Bag} {d e : Diagnostic} (h : e ∈ (b.add d).items) : e ∈ b.items ∨ e = d := by
  unfold Bag.add at h
  split at h
  · exact (List.mem_append.1 h).imp id List.mem_singleton.1
  · exact .inl h

/-- A reporter that was told errors in place, and whose bag knows of an error if it was told any. -/
structure Reporter.Told (P : Span → Prop) (r : Reporter) : Prop where
  items : ∀ d ∈ r.bag.items, d.Erring P
  known : r.seen ≠ [] → r.bag.hasErrors = true

namespace Reporter.Told

variable {P Q : Span → Prop} {r : Reporter} {d : Diagnostic} {ds : List Diagnostic}

/-- Another property of places that follows. -/
theorem imp (h : r.Told P) (hPQ : ∀ s, P s → Q s) : r.Told Q :=
  ⟨fun _ hd => (h.items _ hd).imp hPQ, h.known⟩

/-- A reporter that was told nothing. -/
theorem new (limit : Int) : Reporter.Told P { bag := Bag.new limit } :=
  ⟨nofun, fun h => absurd rfl h⟩

/-- An error is known even if it is dropped, be it as a repetition or for want of room. -/
theorem report (h : r.Told P) (hd : d.Erring P) :
    (r.report d).Told P ∧ (r.report d).bag.hasErrors = true := by
  unfold Reporter.report
  split
  · rename_i hseen
    exact ⟨h, h.known fun hnil => by rw [hnil] at hseen; exact nomatch hseen⟩
  · have hknown : (r.bag.add d).hasErrors = true := by
      rw [Bag.hasErrors_add, hd.severity]
      exact Bool.or_true _
    refine ⟨⟨fun e he => ?_, fun _ => hknown⟩, hknown⟩
    rcases Bag.mem_add he with he | rfl
    · exact h.items e he
    · exact hd

/-- Errors in order: there is one then if there was one before or is one among them. -/
theorem reportAll (h : r.Told P) (hds : ∀ d ∈ ds, d.Erring P) :
    (r.reportAll ds).Told P ∧ (r.reportAll ds).bag.hasErrors = (r.bag.hasErrors || !ds.isEmpty) := by
  induction ds generalizing r with
  | nil => exact ⟨h, (Bool.or_false _).symm⟩
  | cons d ds ih =>
    obtain ⟨hd, hds⟩ := List.forall_mem_cons.1 hds
    obtain ⟨hr, herrors⟩ := h.report hd
    obtain ⟨htold, hlast⟩ := ih hr hds
    refine ⟨htold, hlast.trans ?_⟩
    rw [herrors, Bool.true_or]
    exact (Bool.or_true _).symm

end Reporter.Told

/-- Two reporters that were told errors in place and agree on whether there was one. -/
structure Reporter.Alike (P : Span → Prop) (r r' : Reporter) : Prop where
  left : r.Told P
  right : r'.Told P
  verdict : r'.bag.hasErrors = r.bag.hasErrors

namespace Reporter.Alike

variable {P Q : Span → Prop} {r r' : Reporter}

/-- Another property of places that follows. -/
theorem imp (h : r.Alike P r') (hPQ : ∀ s, P s → Q s) : r.Alike Q r' :=
  ⟨h.left.imp hPQ, h.right.imp hPQ, h.verdict⟩

/-- Both are told an error. -/
theorem report (h : r.Alike P r') {d : Diagnostic} (hd : d.Erring P) : (r.report d).Alike P (r'.report d) := by
  obtain ⟨hleft, hknown⟩ := h.left.report hd
  obtain ⟨hright, hknown'⟩ := h.right.report hd
  exact ⟨hleft, hright, hknown'.trans hknown.symm⟩

/-- Either is told about the same file in a way of its own. -/
theorem reportAll (h : r.Alike P r') {ds ds' : List Diagnostic} (hds : AisScript.Told P ds ds') :
    (r.reportAll ds).Alike P (r'.reportAll ds') := by
  obtain ⟨hleft, hknown⟩ := h.left.reportAll hds.left
  obtain ⟨hright, hknown'⟩ := h.right.reportAll hds.right
  have hempty : ds'.isEmpty = ds.isEmpty := by
    rw [Bool.eq_iff_iff, List.isEmpty_iff, List.isEmpty_iff]
    exact hds.alike.symm
  exact ⟨hleft, hright, by rw [hknown, hknown', h.verdict, hempty]⟩

end Reporter.Alike

/-! ## Resolving under two limits -/

/-- States of two resolutions of one unit: only the reporters may differ, and they agree on whether there
was an error. -/
structure Requires.InStep (r r' : Requires) : Prop where
  files : r'.files = r.files
  included : r'.included = r.included
  loaded : r'.loaded = r.loaded
  reporters : r.reporter.Alike r.files.Holds r'.reporter

/-- What two resolutions come to from states in step: the same, placed in the files read so far, and
states in step. -/
structure Paired {α : Type} (placed : (Span → Prop) → α → Prop) (r : Requires) (x x' : α × Requires) :
    Prop where
  same : x'.1 = x.1
  placed : placed x.2.files.Holds x.1
  grows : r.files.files <+: x.2.files.files
  inStep : x.2.InStep x'.2

/-- Results that are in step for files added later. -/
theorem Paired.behind {α : Type} {placed : (Span → Prop) → α → Prop} {r₀ r : Requires}
    {x x' : α × Requires} (hgrows : r₀.files.files <+: r.files.files) (h : Paired placed r x x') :
    Paired placed r₀ x x' :=
  ⟨h.same, h.placed, hgrows.trans h.grows, h.inStep⟩

/-- Two ways to include files that keep resolutions in step. -/
def Include.Pairs (step step' : Include) : Prop :=
  ∀ r r' span path dir, r.InStep r' → r.files.Holds span →
    Paired PlacedStmts r (step r span path dir) (step' r' span path dir)

/-- Placed statements one behind the other. -/
theorem PlacedStmts.append {P : Span → Prop} {ss ts : List Stmt} (hs : PlacedStmts P ss)
    (ht : PlacedStmts P ts) : PlacedStmts P (ss ++ ts) :=
  placedStmts_iff.2 (List.forall_mem_append.2 ⟨placedStmts_iff.1 hs, placedStmts_iff.1 ht⟩)

section Trees

variable {step step' : Include} {dir : Text}

/-- A statement that holds no require. -/
private theorem Paired.plain {r r' : Requires} (h : r.InStep r') {s : Stmt} (hs : s.Placed r.files.Holds) :
    Paired PlacedStmts r ([s], r) ([s], r') :=
  ⟨rfl, ⟨hs, trivial⟩, List.prefix_refl _, h⟩

mutual

/-- The requires of a statement under two limits. -/
private theorem Stmt.requires_paired (hstep : step.Pairs step') {r r' : Requires} (h : r.InStep r') :
    (s : Stmt) →
    s.Placed r.files.Holds → Paired PlacedStmts r (s.requires step dir r) (s.requires step' dir r')
  -- Only a reference goes to the files; what it does is assumed of `step`.
  | .require _ _, hs => hstep _ _ _ _ _ h hs
  -- Other statements hand on what their blocks require.
  | .block b, hb => by
    obtain ⟨hsame, hplaced, hgrows, hlast⟩ := Block.requires_paired hstep h b hb
    exact ⟨congrArg (fun b => [Stmt.block b]) hsame, ⟨hplaced, trivial⟩, hgrows, hlast⟩
  | .cond s c t f, ⟨hs, hc, ht, hf⟩ => by
    -- The other branch is read after the first, with the files read by then.
    obtain ⟨hsame, hthen, hgrows, hmid⟩ := Block.requires_paired hstep h t ht
    obtain ⟨hsame', helse, hgrows', hlast⟩ :=
      requiresOption_paired hstep hmid f (PlacedElse.imp (FileSet.Holds.grow hgrows) f hf)
    -- Spans that were held before are held when more files are there.
    have hgrow := FileSet.Holds.grow (hgrows.trans hgrows')
    refine ⟨?_, ⟨⟨hgrow _ hs, fun x hx => (hc x hx).imp hgrow, ?_, helse⟩, trivial⟩,
      hgrows.trans hgrows', hlast⟩
    · simp only [Stmt.requires, hsame, hsame']
    · exact Block.Placed.imp (FileSet.Holds.grow hgrows') _ hthen
  | .loop s c b, ⟨hs, hc, hb⟩ => by
    obtain ⟨hsame, hbody, hgrows, hlast⟩ := Block.requires_paired hstep h b hb
    have hgrow := FileSet.Holds.grow hgrows
    exact ⟨congrArg (fun b => [Stmt.loop s c b]) hsame,
      ⟨⟨hgrow _ hs, fun x hx => (hc x hx).imp hgrow, hbody⟩, trivial⟩, hgrows, hlast⟩
  | .forLoop s i c st b, ⟨hs, hi, hc, hst, hb⟩ => by
    obtain ⟨hsame, hbody, hgrows, hlast⟩ := Block.requires_paired hstep h b hb
    have hgrow := FileSet.Holds.grow hgrows
    exact ⟨congrArg (fun b => [Stmt.forLoop s i c st b]) hsame, ⟨⟨hgrow _ hs, hi.imp hgrow,
      fun x hx => (hc x hx).imp hgrow, hst.imp hgrow, hbody⟩, trivial⟩, hgrows, hlast⟩
  | .funcDef s n ns ps b, ⟨hs, hns, hb⟩ => by
    obtain ⟨hsame, hbody, hgrows, hlast⟩ := Block.requires_paired hstep h b hb
    have hgrow := FileSet.Holds.grow hgrows
    exact ⟨congrArg (fun b => [Stmt.funcDef s n ns ps b]) hsame,
      ⟨⟨hgrow _ hs, hgrow _ hns, hbody⟩, trivial⟩, hgrows, hlast⟩
  -- Statements without blocks require nothing.
  | .eval _ _, hs | .assign _, hs | .assignMember _ _ _, hs | .ret _ _, hs | .leave _, hs | .code _ _, hs
  | .bitfieldDef _ _, hs | .enumDef _ _, hs => Paired.plain h hs

/-- The requires of statements under two limits. -/
private theorem requiresStmts_paired (hstep : step.Pairs step') {r r' : Requires} (h : r.InStep r') :
    (ss : List Stmt) → PlacedStmts r.files.Holds ss →
      Paired PlacedStmts r (requiresStmts step dir r ss) (requiresStmts step' dir r' ss)
  | [], _ => ⟨rfl, trivial, List.prefix_refl _, h⟩
  | s :: ss, ⟨hs, hss⟩ => by
    obtain ⟨hsame, hplaced, hgrows, hmid⟩ := Stmt.requires_paired hstep h s hs
    obtain ⟨hsame', hplaced', hgrows', hlast⟩ :=
      requiresStmts_paired hstep hmid ss (PlacedStmts.imp (FileSet.Holds.grow hgrows) ss hss)
    refine ⟨?_, ?_, hgrows.trans hgrows', hlast⟩
    · simp only [requiresStmts, hsame, hsame']
    · exact (PlacedStmts.imp (FileSet.Holds.grow hgrows') _ hplaced).append hplaced'

/-- The requires of a block under two limits. -/
private theorem Block.requires_paired (hstep : step.Pairs step') {r r' : Requires} (h : r.InStep r') :
    (b : Block) →
    b.Placed r.files.Holds → Paired Block.Placed r (b.requires step dir r) (b.requires step' dir r')
  | .mk os ss sp, ⟨hos, hss, hsp⟩ => by
    obtain ⟨hsame, hplaced, hgrows, hlast⟩ := requiresStmts_paired hstep h ss hss
    have hgrow := FileSet.Holds.grow hgrows
    exact ⟨congrArg (Block.mk os · sp) hsame, ⟨fun a ha => (hos a ha).imp hgrow, hplaced, hgrow _ hsp⟩,
      hgrows, hlast⟩

/-- The requires of an else block under two limits. -/
private theorem requiresOption_paired (hstep : step.Pairs step') {r r' : Requires} (h : r.InStep r') :
    (b : Option Block) → PlacedElse r.files.Holds b →
      Paired PlacedElse r (requiresOption step dir r b) (requiresOption step' dir r' b)
  | none, _ => ⟨rfl, trivial, List.prefix_refl _, h⟩
  | some b, hb => by
    obtain ⟨hsame, hplaced, hgrows, hlast⟩ := Block.requires_paired hstep h b hb
    exact ⟨congrArg some hsame, hplaced, hgrows, hlast⟩

end

end Trees

/-- The statements of a placed program. -/
theorem Block.Placed.stmts {P : Span → Prop} {b : Block} (h : b.Placed P) : PlacedStmts P b.stmts := by
  cases b
  exact h.2.1

/-- A file that is added to the set, parsed under two limits: its program and the reports, the stray
statements included, are placed in the larger set. -/
private theorem parse_pairs_add (fs : FileSet) (f : SourceFile) (max max' : Nat) {span : Span}
    (hspan : fs.Holds span) {r r' : Reporter} (hr : r.Alike fs.Holds r') :
    let parsed := parse fs.files.length max f.content
    let stray := (parsed.program.stmts.filter (!·.isDefinition)).map (requireTopLevel span)
    parsed.program.Placed (fs.add f).2.Holds
      ∧ ((r.reportAll parsed.reports).reportAll stray).Alike (fs.add f).2.Holds
        ((r'.reportAll (parse fs.files.length max' f.content).reports).reportAll stray) := by
  intro parsed stray
  -- The parse of the added file: one program, with reports that are alike.
  obtain ⟨-, hplaced, hreports⟩ := parse_pairs fs.files.length max max' f.content
  have hin := FileSet.holds_add fs f
  have hgrow : ∀ s, fs.Holds s → (fs.add f).2.Holds s := FileSet.Holds.grow (List.prefix_append _ _)
  have hprogram : parsed.program.Placed (fs.add f).2.Holds := Block.Placed.imp hin _ hplaced
  -- A stray statement is reported at its own span and at the place that requires the file.
  have hstray : ∀ d ∈ stray, d.Erring (fs.add f).2.Holds := by
    intro d hd
    obtain ⟨s, hs, rfl⟩ := List.mem_map.1 hd
    have hs := placedStmts_iff.1 hprogram.stmts s (List.mem_filter.1 hs).1
    exact ⟨rfl, hs.span, List.forall_mem_singleton.2 (hgrow _ hspan)⟩
  -- Both lists of reports hold in the larger set.
  have hown : Told (fs.add f).2.Holds parsed.reports (parse fs.files.length max' f.content).reports :=
    ⟨fun d hd => (hreports.left d hd).imp hin, fun d hd => (hreports.right d hd).imp hin, hreports.alike⟩
  exact ⟨hprogram, ((hr.imp hgrow).reportAll hown).reportAll ⟨hstray, hstray, Iff.rfl⟩⟩

/-- Including a file under two limits. -/
private theorem includeWithin_pairs (disk : Disk) (max max' fuel : Nat) :
    (includeWithin disk max fuel).Pairs (includeWithin disk max' fuel) := by
  -- The induction is on the nesting that is left.
  induction fuel with
  -- At the bound nothing is read.
  | zero => exact fun _ _ _ _ _ h _ => ⟨rfl, trivial, List.prefix_refl _, h⟩
  | succ fuel ih =>
    intro r r' span path dir h hspan
    obtain ⟨_, reporter, _, _⟩ := r
    -- Everything but the reporters is equal on both sides.
    obtain ⟨files, reporter', included, loaded⟩ := r'
    obtain ⟨rfl, rfl, rfl, hr⟩ := h
    simp only [includeWithin]
    split
    -- The file was included before.
    · exact ⟨rfl, trivial, List.prefix_refl _, rfl, rfl, rfl, hr⟩
    · split
      -- The disk has no such file: both sides report the same.
      · exact ⟨rfl, trivial, List.prefix_refl _, rfl, rfl, rfl, hr.report ⟨rfl, hspan, List.forall_mem_nil _⟩⟩
      -- The file is added, parsed, and its own references are followed.
      · rename_i f _
        obtain ⟨hprogram, hr'⟩ := parse_pairs_add files f max max' hspan hr
        have hsame := (parse_pairs files.files.length max max' f.content).1
        rw [show (parse (files.add f).1 max' f.content).program = _ from hsame]
        refine Paired.behind (List.prefix_append _ _) (requiresStmts_paired ih ?_ _ hprogram.stmts)
        exact ⟨rfl, rfl, rfl, hr'⟩

/-! ## Units -/

/-- The state of a unit of which the first file was added. -/
def Requires.first (file : SourceFile) : Requires := { files := ⟨[file]⟩, reporter := { bag := Bag.new 0 } }

/-- A unit is read into the same program under any two limits, placed in its files, and there is an error
under both or under none. -/
theorem readUnit_paired (disk : Disk) (opts opts' : Options) (file : SourceFile) :
    Paired Block.Placed (.first file) (readUnit disk opts file) (readUnit disk opts' file) := by
  obtain ⟨hsame, hplaced, hreports⟩ := parse_pairs 0 opts.limit opts'.limit file.content
  have hin := FileSet.holds_add {} file
  have hown : Told (FileSet.add {} file).2.Holds (parse 0 opts.limit file.content).reports
      (parse 0 opts'.limit file.content).reports :=
    ⟨fun d hd => (hreports.left d hd).imp hin, fun d hd => (hreports.right d hd).imp hin, hreports.alike⟩
  -- Both bags are empty at first, whatever their limits.
  have hstart : Reporter.Alike (FileSet.add {} file).2.Holds { bag := Bag.new opts.limit }
      { bag := Bag.new opts'.limit } := ⟨.new _, .new _, rfl⟩
  simp only [readUnit, Block.resolve]
  -- The program is one under both limits, so the same references are followed.
  rw [show (parse (FileSet.add {} file).1 opts'.limit file.content).program = _ from hsame]
  have hgrows : (Requires.first file).files.files <+: (FileSet.add {} file).2.files := List.prefix_refl _
  refine Paired.behind hgrows (Block.requires_paired (includeWithin_pairs disk _ _ _) ?_ _
    (Block.Placed.imp hin _ hplaced))
  exact ⟨rfl, rfl, rfl, hstart.reportAll hown⟩

/-! ## Outcomes -/

/-- An outcome apart from the diagnostics it keeps: whether it failed, and everything else. -/
def Outcome.apart (o : Outcome) : Bool × Outcome := (o.failed, { o with bag := Bag.new 0 })

/-- Outcomes that are the same apart from their diagnostics differ in their bags only. -/
private theorem Outcome.apart_eq_iff {o o' : Outcome} :
    o'.apart = o.apart ↔ ∃ b : Bag, o' = { o with bag := b } ∧ b.hasErrors = o.bag.hasErrors := by
  constructor
  · intro h
    obtain ⟨hfailed, hrest⟩ := Prod.mk.inj h
    refine ⟨o'.bag, ?_, hfailed⟩
    have hbag := congrArg (fun x : Outcome => { x with bag := o'.bag }) hrest
    exact hbag
  · rintro ⟨b, rfl, hb⟩
    exact Prod.ext hb rfl

/-- Timings are added to both. -/
private theorem Outcome.apart_withTimings {o o' : Outcome} (h : o'.apart = o.apart) (wanted : Bool) :
    (o'.withTimings wanted).apart = (o.withTimings wanted).apart := by
  obtain ⟨b, rfl, hb⟩ := apart_eq_iff.1 h
  cases wanted with
  | false => exact h
  | true =>
    refine Prod.ext ?_ rfl
    change (b.add _).hasErrors = (o.bag.add _).hasErrors
    rw [Bag.hasErrors_add, Bag.hasErrors_add, hb]
    rfl

/-- The passes from typing on do not look at the diagnostics that were kept. -/
private theorem Outcome.apart_proceed {o o' : Outcome} (h : o'.apart = o.apart) (opts : Options) (max : Int)
    (program : Block) :
    (o'.proceed { opts with maxDiagnostics := max } program).map Outcome.apart
      = (o.proceed opts program).map Outcome.apart := by
  -- The two outcomes differ in their bags only, and these agree on whether there are errors.
  obtain ⟨b, rfl, hb⟩ := apart_eq_iff.1 h
  generalize hd : program.declare opts.host = d
  obtain ⟨declared, fault⟩ := d
  cases fault with
  -- A fault of the declaration pass ends both.
  | some f => simp only [Outcome.proceed, hd, Except.map]
  | none =>
    generalize ht : declared.annotate opts.host = t
    obtain ⟨typed, error⟩ := t
    -- An error of typing is added on both sides.
    cases error with
    | some e =>
      have hadd : (b.add e.diagnostic).hasErrors = (o.bag.add e.diagnostic).hasErrors := by
        rw [Bag.hasErrors_add, Bag.hasErrors_add, hb]
      simp only [Outcome.proceed, hd, ht, Except.map, Outcome.apart, Outcome.failed, hadd]
    -- Typing accepts; an analysis ends here.
    | none =>
      by_cases hanalyze : opts.goal = .analyze
      · simp only [Outcome.proceed, hd, ht, hanalyze, if_true, Except.map, Outcome.apart, Outcome.failed, hb]
      · simp only [Outcome.proceed, hd, ht, hanalyze, if_false, bind, Except.bind]
        -- No further pass reports anything.
        cases typed.expand with
        | error f => rfl
        | ok x =>
          dsimp only
          cases x.program.substituteEnums with
          | error f => rfl
          | ok enums =>
            dsimp only
            cases enums.substituteStrings with
            | error f => rfl
            | ok lowered =>
              dsimp only
              cases lowered.generate opts.host with
              | error f => rfl
              | ok text => simp only [Except.map, Outcome.apart, Outcome.failed, hb]

/-- What a unit is read into, apart from the diagnostics kept, is the same under any two limits. -/
private theorem readOutcome_apart (disk : Disk) (opts opts' : Options) (file : SourceFile) :
    (readOutcome disk opts' file).apart = (readOutcome disk opts file).apart := by
  obtain ⟨hsame, _, _, hstep⟩ := readUnit_paired disk opts opts' file
  refine Prod.ext hstep.reporters.verdict ?_
  simp only [Outcome.apart, readOutcome, hsame, hstep.files, hstep.loaded]

/-- Without a cache, a unit that was read goes through the passes its goal asks for unless it has errors. -/
private theorem compile_uncached (disk : Disk) (opts : Options) (file : SourceFile) :
    compile disk { opts with cache := none } file =
      if (readOutcome disk opts file).failed || opts.goal = .parse then
        .ok ((readOutcome disk opts file).withTimings opts.timings, disk)
      else do
        let o ← (readOutcome disk opts file).proceed opts (readUnit disk opts file).1
        return (o.withTimings opts.timings, disk) := by
  unfold compile
  simp only [ite_self]
  rfl

/-- The limit on diagnostics changes nothing but the diagnostics kept: every file, with any disk, host and
goal, is compiled to the same verdict and to the same outcome under any two limits, or stopped by the same
fault. -/
theorem compile_limit (disk : Disk) (opts : Options) (file : SourceFile) (max max' : Int) :
    let run (max : Int) := compile disk { opts with cache := none, maxDiagnostics := max } file
    (run max').map (fun (o, disk) => (o.failed, { o with bag := Bag.new 0 }, disk))
      = (run max).map fun (o, disk) => (o.failed, { o with bag := Bag.new 0 }, disk) := by
  intro run
  -- Reading under the two limits gives outcomes that differ in their bags only.
  have hread := readOutcome_apart disk { opts with maxDiagnostics := max } { opts with maxDiagnostics := max' } file
  have hprogram := (readUnit_paired disk { opts with maxDiagnostics := max }
    { opts with maxDiagnostics := max' } file).same
  -- Without a cache a run reads, and goes on if there was no error.
  have hrun : ∀ m, run m = _ := fun m => compile_uncached disk { opts with maxDiagnostics := m } file
  rw [hrun, hrun, (Prod.mk.inj hread).1]
  split
  -- Reading has failed under both.
  · have htimed := Outcome.apart_withTimings hread opts.timings
    exact congrArg (fun x : Bool × Outcome => Except.ok (x.1, x.2, disk)) htimed
  -- Otherwise the later passes take the same program on both sides.
  · have hproceed := Outcome.apart_proceed hread { opts with maxDiagnostics := max } max'
      (readUnit disk { opts with maxDiagnostics := max } file).1
    rw [hprogram]
    generalize (readOutcome disk { opts with maxDiagnostics := max } file).proceed
      { opts with maxDiagnostics := max } _ = x at hproceed ⊢
    generalize (readOutcome disk { opts with maxDiagnostics := max' } file).proceed
      { opts with maxDiagnostics := max' } _ = x' at hproceed ⊢
    -- The two runs end alike: both in one fault, or both in outcomes that agree.
    cases x with
    | error f =>
      cases x' with
      | error f' => exact congrArg Except.error (Except.error.inj hproceed)
      | ok o' => exact nomatch hproceed
    | ok o =>
      cases x' with
      | error f' => exact nomatch hproceed
      | ok o' =>
        have htimed := Outcome.apart_withTimings (Except.ok.inj hproceed) opts.timings
        exact congrArg (fun x : Bool × Outcome => Except.ok (x.1, x.2, disk)) htimed

end AisScript
