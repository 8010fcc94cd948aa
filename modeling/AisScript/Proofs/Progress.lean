import AisScript.Build
import AisScript.Proofs.Outputs
import AisScript.Proofs.Places
import AisScript.Proofs.Resolvable
import Mathlib.Data.List.Forall2
import Mathlib.Data.List.Infix

/-!
# What a build tells of its files

The passes over the units of a build are seen in any order that keeps those of one unit in order.  Of each
file is told that it waits, then the stages it goes through, and, when all units are compiled, how it ended.

An entry of the cache that has no text counts as found, so nothing is told of the end of its file.

* `Outcome.Ran`             what every outcome has gone through
* `Build.Interleaves`       merges of lists
* `Observer.told_foldl`     what is told of one file on the way
* `Concurrent.told`         what is told of each file of a build
* `run_concurrent`          building one file after the other is one of these builds
-/

namespace AisScript

/-! ## What outcomes have gone through -/

/-- An outcome that has gone through the first passes, and ended with an error, with a text, or with an
entry of the cache. -/
structure Outcome.Ran (o : Outcome) : Prop where
  passes : o.passes.map Pass.phase <+: [.parse, .require, .analyze, .inline, .emit]
  ended : o.failed = true ∨ o.output.isSome = true ∨ o.cached = true

namespace Outcome

variable {o o' : Outcome} {opts : Options} {program : Block}

/-- Timings change nothing about it. -/
theorem Ran.withTimings (h : o.Ran) (wanted : Bool) : (o.withTimings wanted).Ran := by
  have hrest : (o.withTimings wanted).passes = o.passes ∧ (o.withTimings wanted).cached = o.cached := by
    unfold Outcome.withTimings
    split <;> exact ⟨rfl, rfl⟩
  refine ⟨hrest.1 ▸ h.passes, ?_⟩
  rw [failed_withTimings, output_withTimings, hrest.2]
  exact h.ended

/-- Nor do they change the path. -/
private theorem path_withTimings (o : Outcome) (wanted : Bool) : (o.withTimings wanted).path = o.path := by
  unfold Outcome.withTimings
  split <;> rfl

/-- A unit that goes on from typing gets an error or a text. -/
private theorem ran_of_proceed (hgoal : opts.goal = .emit)
    (hpasses : o.passes.map Pass.phase = [.parse, .require])
    (h : o.proceed opts program = .ok o') : o'.Ran ∧ o'.path = o.path := by
  unfold Outcome.proceed at h
  split at h
  -- Declaring finds no fault, since otherwise there is no outcome.
  · exact nomatch h
  · dsimp only at h
    split at h
    -- An error of typing ends the run behind that pass.
    · cases h
      refine ⟨⟨?_, .inl ?_⟩, rfl⟩
      · rw [List.map_append, hpasses]
        exact ⟨[.inline, .emit], rfl⟩
      · rw [failed, Bag.hasErrors_add]
        exact Bool.or_true _
    -- Every further pass comes to something, and the last one to the text.
    · rw [if_neg (by simp [hgoal])] at h
      obtain ⟨x, _, h⟩ := ok_of_bind h
      obtain ⟨enums, _, h⟩ := ok_of_bind h
      obtain ⟨lowered, _, h⟩ := ok_of_bind h
      obtain ⟨text, _, h⟩ := ok_of_bind h
      cases h
      refine ⟨⟨?_, .inr (.inl rfl)⟩, rfl⟩
      rw [List.map_append, List.map_append, hpasses]
      exact List.prefix_refl _

end Outcome

/-- Compiling a file to its text runs the passes up to an end. -/
private theorem ran_of_compile {disk disk' : Disk} {opts : Options} {file : SourceFile} {o : Outcome}
    (hgoal : opts.goal = .emit) (h : compile disk opts file = .ok (o, disk')) :
    o.Ran ∧ o.path = file.path := by
  -- What is read has run two passes.
  have hread : (readOutcome disk opts file).passes.map Pass.phase = [.parse, .require] := rfl
  have hbegin : (readOutcome disk opts file).passes.map Pass.phase
      <+: [.parse, .require, .analyze, .inline, .emit] := ⟨[.analyze, .inline, .emit], rfl⟩
  rw [compile_eq_read, hgoal] at h
  -- Errors in the files end the run there.
  split at h
  · rename_i hfailed
    cases h
    have hran : (readOutcome disk opts file).Ran := ⟨hbegin, .inl (by simpa using hfailed)⟩
    exact ⟨hran.withTimings _, Outcome.path_withTimings _ _⟩
  · split at h
    -- Without a cache, the other passes are run.
    · obtain ⟨o', hproceed, h⟩ := ok_of_bind h
      cases h
      obtain ⟨hran, hpath⟩ := Outcome.ran_of_proceed hgoal hread hproceed
      exact ⟨hran.withTimings _, (Outcome.path_withTimings _ _).trans hpath⟩
    · dsimp only at h
      split at h
      -- An entry of the cache ends the run, too.
      · cases h
        refine ⟨Outcome.Ran.withTimings ?_ _, Outcome.path_withTimings _ _⟩
        exact ⟨hbegin, .inr (.inr rfl)⟩
      -- A new outcome is kept in the cache.
      · obtain ⟨o', hproceed, h⟩ := ok_of_bind h
        cases h
        obtain ⟨hran, hpath⟩ := Outcome.ran_of_proceed hgoal hread hproceed
        exact ⟨hran.withTimings _, (Outcome.path_withTimings _ _).trans hpath⟩

/-- A unit that is read without errors and has an entry in the cache takes everything from there. -/
private theorem compile_of_found {disk : Disk} {opts : Options} {file : SourceFile} {cache : Cache}
    {e : Cache.Entry} (hgoal : opts.goal = .emit) (hcache : opts.cache = some cache)
    (hok : (readOutcome disk opts file).failed = false)
    (hfound : cache.get? disk (Cache.key opts.version opts.host file.hash
      ((readUnit disk opts file).2.loaded.filterMap fun n =>
        ((readUnit disk opts file).2.files.get? n).map SourceFile.hash)) = some e) :
    compile disk opts file = .ok ({ readOutcome disk opts file with
      output := e.output, temps := e.temps, cached := true, program := none }.withTimings opts.timings, disk) := by
  rw [compile_eq_read, hok, hgoal, hcache]
  simp [hfound]

namespace Build

/-! ## Orders of passes -/

/-- Merges of lists: every one keeps its order. -/
inductive Interleaves {α : Type} : List (List α) → List α → Prop
  | nil {ls : List (List α)} : (∀ l ∈ ls, l = []) → Interleaves ls []
  | cons {ls : List (List α)} {m l : List α} {a : α} (i : Nat) :
    ls[i]? = some (a :: l) → Interleaves (ls.set i l) m → Interleaves ls (a :: m)

namespace Interleaves

variable {α : Type} {ls : List (List α)} {m : List α}

/-- What is in a merge is in one of the lists. -/
private theorem exists_mem (h : Interleaves ls m) {a : α} (ha : a ∈ m) : ∃ l ∈ ls, a ∈ l := by
  induction h with
  | nil => exact nomatch ha
  | @cons ls m l b i hi _ ih =>
    have hmem : b :: l ∈ ls := List.mem_of_getElem? hi
    rcases List.mem_cons.1 ha with rfl | ha
    · exact ⟨_, hmem, List.mem_cons_self⟩
    · obtain ⟨l', hl', ha'⟩ := ih ha
      rcases List.mem_or_eq_of_mem_set hl' with hl' | rfl
      · exact ⟨l', hl', ha'⟩
      · exact ⟨_, hmem, List.mem_cons_of_mem _ ha'⟩

/-- A list with marked members among lists without any is found again in a merge. -/
private theorem filter_eq (h : Interleaves ls m) {q : α → Bool} {j : Nat} {l : List α} (hj : ls[j]? = some l)
    (hl : ∀ a ∈ l, q a = true) (hls : ∀ k l', k ≠ j → ls[k]? = some l' → ∀ a ∈ l', q a = false) :
    m.filter q = l := by
  -- By induction on the merge: its next element comes from one of the lists.
  induction h generalizing l with
  | nil hnil => rw [hnil l (List.mem_of_getElem? hj), List.filter_nil]
  | @cons ls m l' b i hi _ ih =>
    have hlength : i < ls.length := (List.getElem?_eq_some_iff.1 hi).1
    -- Is it taken from the marked list?
    by_cases hij : i = j
    -- The element is marked, and so are those that are left of its list.
    · subst hij
      cases hi.symm.trans hj
      rw [List.filter_cons_of_pos (hl b List.mem_cons_self)]
      refine congrArg (b :: ·)
        (ih (List.getElem?_set_self hlength) (fun a ha => hl a (List.mem_cons_of_mem _ ha)) ?_)
      intro k l'' hk hl''
      rw [List.getElem?_set_ne (Ne.symm hk)] at hl''
      exact hls k l'' hk hl''
    -- It is not, so the element is passed over and the marked list is the same.
    · have hb := hls i _ hij hi
      rw [List.filter_cons_of_neg (by simp [hb b List.mem_cons_self])]
      refine ih ((List.getElem?_set_ne hij).trans hj) hl ?_
      intro k l'' hk hl''
      -- Of the list that it was taken from, less is left, and the others stay.
      by_cases hik : i = k
      · subst hik
        rw [List.getElem?_set_self hlength] at hl''
        cases hl''
        exact fun a ha => hb a (List.mem_cons_of_mem _ ha)
      · rw [List.getElem?_set_ne hik] at hl''
        exact hls k l'' hk hl''

/-- One list behind the other is a merge, with used-up lists in front. -/
private theorem replicate_append_flatten (k : Nat) (ls : List (List α)) :
    Interleaves (List.replicate k [] ++ ls) ls.flatten := by
  -- By induction on the lists, and for each of them on its elements.
  induction ls generalizing k with
  | nil => exact .nil fun l hl => List.eq_of_mem_replicate (List.append_nil _ ▸ hl)
  | cons l ls ih =>
    induction l with
    -- An empty list is one more of those that are used up.
    | nil =>
      have hnext : List.replicate k ([] : List α) ++ [] :: ls = List.replicate (k + 1) [] ++ ls := by
        rw [List.replicate_succ', List.append_assoc]
        rfl
      rw [hnext]
      exact ih (k + 1)
    -- The first element of the first list that has any.
    | cons a l ihl =>
      have hset : (List.replicate k [] ++ (a :: l) :: ls).set k l = List.replicate k [] ++ l :: ls := by
        rw [List.set_append_right _ _ (by simp)]
        simp
      exact .cons k (by simp) (hset ▸ ihl)

/-- One list behind the other is a merge. -/
theorem flatMap {β : Type} (f : β → List α) (bs : List β) : Interleaves (bs.map f) (bs.flatMap f) :=
  List.flatMap_def ▸ replicate_append_flatten 0 (bs.map f)

end Interleaves

/-! ## What is told on the way -/

/-- The stages that are told of when passes over one unit begin, with the stage it has reached. -/
def stagesOf : Option Stage → List PhaseEvent → List Stage
  | _, [] => []
  | last, e :: es =>
    if e.begins then
      (if last = some (stageOf e.phase) then [] else [stageOf e.phase]) ++ stagesOf (some (stageOf e.phase)) es
    else stagesOf last es

/-- The event of a file that waits. -/
def queued (file : Text) : Event := { file, stage := .parse, status := .queued }

/-- The event of a file that comes to a stage. -/
def working (file : Text) (stage : Stage) : Event := { file, stage, status := .working }

namespace Observer

variable {o : Observer} {e : PhaseEvent} {es : List PhaseEvent} {file path : Text}

/-- The names of the files stay. -/
private theorem names_see (o : Observer) (e : PhaseEvent) : (o.see e).names = o.names := by
  unfold see
  dsimp only
  split <;> rfl

/-- The stage that a unit has reached behind a pass. -/
private theorem reached_see (o : Observer) (e : PhaseEvent) (path : Text) : (o.see e).reached.lookup path =
    if e.begins && e.path = path then some (stageOf e.phase) else o.reached.lookup path := by
  unfold see
  cases hbegins : e.begins with
  | false => rfl
  | true =>
    simp only [if_true, Bool.true_and, decide_eq_true_eq, List.lookup_cons]
    by_cases hpath : e.path = path
    · simp [hpath]
    · have hne : (path == e.path) = false := beq_false_of_ne (Ne.symm hpath)
      simp only [hne, if_neg hpath]
      exact lookup_filter_ne (Ne.symm hpath) o.reached

/-- What is told of a pass. -/
private theorem events_see (o : Observer) (e : PhaseEvent) : (o.see e).events =
    o.events ++ (stagesOf (o.reached.lookup e.path) [e]).map (working (o.nameOf e.path)) := by
  unfold see
  cases hbegins : e.begins with
  | false => simp [stagesOf, hbegins]
  | true =>
    simp only [if_true, stagesOf, hbegins, List.append_nil]
    split <;> simp [working]

/-- The events of one file are those of the passes over its unit. -/
theorem told_foldl (h : ∀ e ∈ es, o.nameOf e.path = file ↔ e.path = path) :
    (es.foldl see o).events.filter (·.file = file) = o.events.filter (·.file = file)
      ++ (stagesOf (o.reached.lookup path) (es.filter (·.path = path))).map (working file) := by
  -- By induction on the passes, each of which may tell of its file.
  induction es generalizing o with
  | nil => simp [stagesOf]
  | cons e es ih =>
    have hnameOf : ∀ p, (o.see e).nameOf p = o.nameOf p := fun p => by rw [nameOf, nameOf, names_see]
    rw [List.foldl_cons, ih fun e' he' => by rw [hnameOf]; exact h e' (List.mem_cons_of_mem _ he'),
      events_see, List.filter_append, List.append_assoc, reached_see]
    refine congrArg (o.events.filter (·.file = file) ++ ·) ?_
    have hname := h e List.mem_cons_self
    -- Is the pass over the unit?
    by_cases hpath : e.path = path
    -- It is, so what it tells is of the file.
    · have hall : ((stagesOf (o.reached.lookup path) [e]).map (working file)).filter (·.file = file)
          = (stagesOf (o.reached.lookup path) [e]).map (working file) := by
        rw [List.filter_eq_self]
        intro a ha
        obtain ⟨stage, _, rfl⟩ := List.mem_map.1 ha
        exact decide_eq_true rfl
      have hkeep : (e :: es).filter (·.path = path) = e :: es.filter (·.path = path) :=
        List.filter_cons_of_pos (decide_eq_true hpath)
      rw [hkeep, hname.2 hpath, hpath, hall, ← List.map_append]
      -- A pass tells of its stage when it begins, and only then.
      cases hbegins : e.begins <;> simp [stagesOf, hbegins]
    -- It is not, so what it tells is of another file.
    · have hnone : ((stagesOf (o.reached.lookup e.path) [e]).map (working (o.nameOf e.path))).filter
          (·.file = file) = [] := by
        rw [List.filter_eq_nil_iff]
        intro a ha
        obtain ⟨stage, _, rfl⟩ := List.mem_map.1 ha
        exact fun hfile => hpath (hname.1 (of_decide_eq_true hfile))
      have hdrop : (e :: es).filter (·.path = path) = es.filter (·.path = path) :=
        List.filter_cons_of_neg (by simpa using hpath)
      rw [hdrop, hnone]
      simp [hpath]

/-- The name of a unit at a path is the one its file is called by. -/
private theorem nameOf_start {req : Request} {cwd f : Text} (hcwd : Path.isAbsolute cwd = true)
    (hf : f ∈ req.files) : (start req cwd).nameOf (Path.clean f) = displayName cwd req.base f := by
  -- The path is found among those of the files.
  have hlookup : ∀ ps : List Text, Path.clean f ∈ ps →
      (ps.map fun p => (p, displayName cwd req.base p)).lookup (Path.clean f)
        = some (displayName cwd req.base f) := by
    intro ps hps
    -- By induction on the paths: the first one that is equal has the name.
    induction ps with
    | nil => exact nomatch hps
    | cons p ps ih =>
      rw [List.map_cons, List.lookup_cons]
      by_cases hp : Path.clean f = p
      · rw [← hp, beq_self_eq_true, displayName_clean hcwd]
      · rw [beq_false_of_ne hp]
        exact ih ((List.mem_cons.1 hps).resolve_left hp)
  -- Names are listed beside the paths that they stand for.
  have hnames : (start req cwd).names
      = (req.files.reverse.map Path.clean).map fun p => (p, displayName cwd req.base p) := by
    simp [start, Request.names, List.zip_map', List.map_reverse, displayName_clean hcwd]
  rw [nameOf, hnames, hlookup _ (List.mem_map_of_mem (List.mem_reverse.2 hf))]
  rfl

end Observer

/-! ## What is told at the end -/

/-- The event of a file with errors. -/
def failedAt (file : Text) (stage : Stage) : Event :=
  { file, stage, status := .error, error := some unitFailed }

/-- The event of a file whose text was written. -/
def written (file : Text) (cached : Bool) : Event :=
  { file, stage := .write, status := if cached then .cached else .done }

/-- The events at the end of a unit that can be written. -/
def endOf (file : Text) (stage : Stage) (o : Outcome) : List Event :=
  if o.failed then [failedAt file stage]
  else if o.output.isSome then [working file .write, written file o.cached]
  else []

/-- The events at the end of units that can be written, one behind the other. -/
def ends (stage : Text → Stage) (units : List (Text × Outcome)) : List Event :=
  units.flatMap fun u => endOf u.1 (stage u.2.path) u.2

/-- A unit ends as it is told, unless it cannot be written. -/
private theorem deliver_cases (req : Request) (disk : Disk) (r : Result) (file : Text) (stage : Stage)
    (o : Outcome) : let r' := (deliver req disk r file stage o).1
    (r'.events = r.events ++ endOf file stage o ∧ r'.failed = r.failed + (if o.failed then 1 else 0)
        ∧ r'.error = r.error)
      ∨ ∃ path text e, writeOutput disk path text = .error e ∧ r'.error = some e := by
  unfold deliver endOf
  -- A failed unit, one without a text, one that is printed, or one that is written.
  cases hfailed : o.failed with
  | true => exact .inl ⟨rfl, rfl, rfl⟩
  | false =>
    cases houtput : o.output with
    | none => exact .inl ⟨(List.append_nil _).symm, rfl, rfl⟩
    | some text =>
      cases req.prints with
      | true => exact .inl ⟨List.append_assoc _ _ _, rfl, rfl⟩
      | false =>
        simp only [Bool.false_eq_true, if_false]
        -- The text is written, or the build ends with an error.
        cases hwrite : writeOutput disk (outputPath disk.cwd o.path req.outDir req.base) text with
        | ok disk' => exact .inl ⟨List.append_assoc _ _ _, rfl, rfl⟩
        | error e => exact .inr ⟨_, _, e, hwrite, rfl⟩

/-- Units that failed are counted by no write. -/
private theorem writeOutput_error {disk : Disk} {path text : Text} {e : BuildError}
    (h : writeOutput disk path text = .error e) (failed total : Nat) : e ≠ .unitsFailed failed total := by
  unfold writeOutput at h
  split at h
  · cases h
    nofun
  · split at h
    · cases h
      nofun
    · exact nomatch h

/-- All units end as it is told, unless one cannot be written. -/
private theorem deliverAll_cases (req : Request) (observer : Observer) (disk : Disk) {r : Result}
    (hr : r.error = none) (units : List (Text × Outcome)) :
    let r' := (deliverAll req observer disk r units).1
    (r'.events = r.events ++ ends observer.stage units
        ∧ r'.failed = r.failed + units.countP (·.2.failed) ∧ r'.error = none)
      ∨ ∃ e, r'.error = some e ∧ ∀ failed total, e ≠ .unitsFailed failed total := by
  -- By induction on the units, as long as all are written.
  induction units generalizing disk r with
  | nil => exact .inl ⟨(List.append_nil _).symm, rfl, hr⟩
  | cons unit units ih =>
    obtain ⟨file, o⟩ := unit
    have hdeliver := deliver_cases req disk r file (observer.stage o.path) o
    unfold deliverAll
    dsimp only at hdeliver ⊢
    rcases hdeliver with ⟨hevents, hfailed, herror⟩ | ⟨path, text, e, hwrite, herror⟩
    -- The unit ended as it is told, and so do the others.
    · rw [herror, hr]
      simp only [Option.isSome_none, Bool.false_eq_true, if_false]
      refine (ih _ (herror.trans hr)).imp_left fun ⟨hevents', hfailed', herror'⟩ => ⟨?_, ?_, herror'⟩
      · rw [hevents', hevents, List.append_assoc]
        rfl
      · rw [hfailed', hfailed, List.countP_cons, Nat.add_assoc, Nat.add_comm (if o.failed then 1 else 0)]
    -- It cannot be written, so the build has an error that is none of counting.
    · rw [herror]
      simp only [Option.isSome_some, if_true]
      exact .inr ⟨e, herror, writeOutput_error hwrite⟩

/-! ## Builds -/

/-- What can come of a file: an outcome of compiling it, on the disk as it then is, or the outcome of a file
that cannot be read. -/
def Comes (opts : Options) (file : Text) (o : Outcome) : Prop :=
  (∃ disk disk', compileFile disk opts file = .ok (o, disk'))
    ∨ ∃ disk e, Disk.load disk file = .error e ∧ o = unreadable opts file e

/-- A build that compiles its files at the same time, with the passes over them in the order they are seen in. -/
structure Concurrent (req : Request) (outcomes : List Outcome) (passes : List PhaseEvent) : Prop where
  units : List.Forall₂ (Comes req.options) req.files outcomes
  passes : Interleaves (outcomes.map phaseEvents) passes

/-- What is known when all units of a build are compiled. -/
def observed (req : Request) (cwd : Text) (passes : List PhaseEvent) : Observer :=
  passes.foldl Observer.see (Observer.start req cwd)

/-- What a build comes to that found such outcomes. -/
def concluded (req : Request) (disk : Disk) (outcomes : List Outcome) (passes : List PhaseEvent) : Result :=
  (finish req disk (observed req disk.cwd passes) outcomes).1

/-- What is told of a file until all units are compiled, and behind that.  Nothing is told of the end of a
unit that has neither an error nor a text, and only an entry of the cache can have led to that. -/
structure Told (file : Text) (o : Outcome) (before after : List Event) : Prop where
  before : ∃ stages : List Stage, stages <+: [.parse, .analyze, .inline, .emit]
    ∧ before.filter (·.file = file) = queued file :: stages.map (working file)
  after :
    (o.failed = true ∧ ∃ stage, after.filter (·.file = file) = [failedAt file stage])
    ∨ (o.failed = false ∧ o.output.isSome = true
      ∧ after.filter (·.file = file) = [working file .write, written file o.cached])
    ∨ (o.failed = false ∧ o.output = none ∧ o.cached = true ∧ after.filter (·.file = file) = [])

/-- Every outcome has run the passes of its own file up to an end. -/
private theorem Comes.ran {opts : Options} {file : Text} {o : Outcome} (hgoal : opts.goal = .emit)
    (h : Comes opts file o) : o.Ran ∧ ∀ e ∈ phaseEvents o, e.path = Path.clean file := by
  -- The file was compiled, or it could not be read.
  rcases h with ⟨disk, disk', h⟩ | ⟨disk, e, _, rfl⟩
  · unfold compileFile at h
    split at h
    · exact nomatch h
    · rename_i f hload
      -- A loaded file has its path cleaned.
      have hpath : f.path = Path.clean file := by
        obtain ⟨bytes, _, hf⟩ := ok_of_bind hload
        cases hf
        rfl
      split at h
      · cases h
        obtain ⟨hran, hsame⟩ := ran_of_compile hgoal ‹_›
        -- All passes are over the file that was compiled.
        refine ⟨hran, fun e he => ?_⟩
        obtain ⟨p, _, he⟩ := List.mem_flatMap.1 he
        rw [← hpath, ← hsame]
        rcases List.mem_cons.1 he with rfl | he
        · rfl
        · rw [List.mem_singleton.1 he]
      · exact nomatch h
  -- Without its file, no pass was run and an error was reported.
  · refine ⟨⟨List.nil_prefix, .inl ?_⟩, nofun⟩
    rw [Outcome.failed, unreadable, Bag.hasErrors_add]
    exact Bool.or_true _

/-- The stages of an outcome are the first ones. -/
private theorem stagesOf_phaseEvents {o : Outcome} (h : o.Ran) :
    stagesOf none (phaseEvents o) <+: [.parse, .analyze, .inline, .emit] := by
  have hphases : phaseEvents o
      = (o.passes.map Pass.phase).flatMap fun p => [⟨o.path, p, true⟩, ⟨o.path, p, false⟩] := by
    rw [phaseEvents, List.flatMap_map]
  have hpasses := (List.mem_inits _ _).2 h.passes
  rw [hphases]
  generalize o.passes.map Pass.phase = ps at hpasses ⊢
  have hcases : ps = [] ∨ ps = [.parse] ∨ ps = [.parse, .require] ∨ ps = [.parse, .require, .analyze]
      ∨ ps = [.parse, .require, .analyze, .inline] ∨ ps = [.parse, .require, .analyze, .inline, .emit] := by
    simpa using hpasses
  rcases hcases with rfl | rfl | rfl | rfl | rfl | rfl <;> exact ⟨_, rfl⟩

/-- Of files with different names, one is told of once that it waits. -/
private theorem filter_queued {names : List Text} (hnames : names.Nodup) {file : Text} (h : file ∈ names) :
    (names.map queued).filter (·.file = file) = [queued file] := by
  rw [List.filter_map]
  change (names.filter (· = file)).map queued = _
  rw [List.filter_eq, List.count_eq_one_of_mem hnames h]
  rfl

/-- On the way nothing goes wrong. -/
private theorem status_foldl {o : Observer} {es : List PhaseEvent} (h : ∀ e ∈ o.events, e.status ≠ .error) :
    ∀ e ∈ (es.foldl Observer.see o).events, e.status ≠ .error := by
  induction es generalizing o with
  | nil => exact h
  | cons e es ih =>
    refine ih fun a ha => ?_
    rw [Observer.events_see] at ha
    rcases List.mem_append.1 ha with ha | ha
    · exact h a ha
    · obtain ⟨stage, _, rfl⟩ := List.mem_map.1 ha
      nofun

/-- All events at the end of a unit belong to its file. -/
private theorem file_of_mem_endOf {file : Text} {stage : Stage} {o : Outcome} {e : Event}
    (h : e ∈ endOf file stage o) : e.file = file := by
  unfold endOf at h
  split at h
  · rw [List.mem_singleton.1 h]
    rfl
  · split at h
    · rcases List.mem_cons.1 h with rfl | h
      · rfl
      · rw [List.mem_singleton.1 h]
        rfl
    · exact nomatch h

/-- A unit ends with an error, or with a text, or with an entry of the cache that has none. -/
private theorem endOf_cases {o : Outcome} (h : o.Ran) (file : Text) (stage : Stage) :
    (o.failed = true ∧ ∃ stage', endOf file stage o = [failedAt file stage'])
      ∨ (o.failed = false ∧ o.output.isSome = true
        ∧ endOf file stage o = [working file .write, written file o.cached])
      ∨ (o.failed = false ∧ o.output = none ∧ o.cached = true ∧ endOf file stage o = []) := by
  have hended := h.ended
  unfold endOf
  -- Failed, with a text, or neither of the two.
  cases hfailed : o.failed with
  | true => exact .inl ⟨rfl, stage, rfl⟩
  | false =>
    cases houtput : o.output with
    | some text => exact .inr (.inl ⟨rfl, rfl, rfl⟩)
    -- A unit that has run, has not failed and has no text comes from the cache.
    | none =>
      have hcached : o.cached = true := by simpa [hfailed, houtput] using hended
      exact .inr (.inr ⟨rfl, rfl, hcached, rfl⟩)

/-- A unit that failed has one event that says so, and no other unit has. -/
private theorem countP_endOf (file : Text) (stage : Stage) (o : Outcome) :
    (endOf file stage o).countP (·.status = .error) = if o.failed then 1 else 0 := by
  unfold endOf
  cases o.failed with
  | true => rfl
  | false =>
    cases o.output.isSome with
    | true => cases o.cached <;> rfl
    | false => rfl

section Ends

variable {stage : Text → Stage} {units : List (Text × Outcome)}

/-- Units that failed are told of one by one. -/
private theorem countP_ends : (ends stage units).countP (·.status = .error) = units.countP (·.2.failed) := by
  induction units with
  | nil => rfl
  | cons unit units ih =>
    rw [ends, List.flatMap_cons, ← ends, List.countP_append, ih, countP_endOf, List.countP_cons, Nat.add_comm]

/-- Of files with different names, each is told of its own end. -/
private theorem filter_ends
    (hnames : (units.map Prod.fst).Nodup) {file : Text} {o : Outcome} (h : (file, o) ∈ units) :
    (ends stage units).filter (·.file = file) = endOf file (stage o.path) o := by
  -- By induction on the units, whose names are different.
  induction units with
  | nil => exact nomatch h
  | cons unit units ih =>
    obtain ⟨hf, hrest⟩ := List.nodup_cons.1 hnames
    rw [ends, List.flatMap_cons, List.filter_append, ← ends]
    -- The unit comes first, or among the others.
    rcases List.mem_cons.1 h with rfl | h
    · have hkeep : (endOf file (stage o.path) o).filter (·.file = file) = endOf file (stage o.path) o :=
        List.filter_eq_self.2 fun e he => decide_eq_true (file_of_mem_endOf he)
      -- The others are called by other names.
      have hdrop : (ends stage units).filter (·.file = file) = [] := by
        rw [List.filter_eq_nil_iff]
        rintro e he hfile
        obtain ⟨unit, hunit, he⟩ := List.mem_flatMap.1 he
        have hsame := (file_of_mem_endOf he).symm.trans (of_decide_eq_true hfile)
        exact hf (List.mem_map.2 ⟨unit, hunit, hsame⟩)
      rw [hkeep, hdrop, List.append_nil]
    -- The first unit is called by another name.
    · have hne : unit.1 ≠ file := fun hsame => hf (List.mem_map.2 ⟨_, h, hsame.symm⟩)
      have hdrop : (endOf unit.1 (stage unit.2.path) unit.2).filter (·.file = file) = [] := by
        rw [List.filter_eq_nil_iff]
        exact fun e he hfile => hne ((file_of_mem_endOf he).symm.trans (of_decide_eq_true hfile))
      rw [hdrop, ih hrest h, List.nil_append]

end Ends

/-- Two files of a request are known apart by their paths as well. -/
private theorem clean_ne {req : Request} {cwd : Text} (hcwd : Path.isAbsolute cwd = true)
    (hnames : (req.names cwd).Nodup) {i j : Nat} {f g : Text} (hi : req.files[i]? = some f)
    (hj : req.files[j]? = some g) (hne : i ≠ j) : Path.clean f ≠ Path.clean g := by
  intro heq
  have hname : displayName cwd req.base f = displayName cwd req.base g := by
    rw [← displayName_clean hcwd, heq, displayName_clean hcwd]
  have hlength : i < (req.names cwd).length := by
    rw [Request.names, List.length_map]
    exact (List.getElem?_eq_some_iff.1 hi).1
  refine hne ((List.getElem?_inj hlength hnames).1 ?_)
  rw [Request.names, List.getElem?_map, List.getElem?_map, hi, hj, Option.map_some, Option.map_some, hname]

/-- Units that failed make an error of a build without one. -/
private theorem finish_eq (req : Request) (disk : Disk) (observer : Observer) (outcomes : List Outcome) :
    (finish req disk observer outcomes).1 =
      let r := (deliverAll req observer disk
        { compiled := outcomes, timings := observer.timings, events := observer.events }
        ((req.names disk.cwd).zip outcomes)).1
      if r.error.isNone && 0 < r.failed then
        { r with error := some (.unitsFailed r.failed outcomes.length) }
      else r := by
  unfold finish
  dsimp only
  split <;> rfl

/-- What a build comes to all of whose texts can be written. -/
private theorem concluded_of_written {req : Request} {disk : Disk} {outcomes : List Outcome}
    {passes : List PhaseEvent} (hwrites : ∀ e, (concluded req disk outcomes passes).error = some e →
      ∃ failed total, e = .unitsFailed failed total) :
    let observer := observed req disk.cwd passes
    let units := (req.names disk.cwd).zip outcomes
    let r := concluded req disk outcomes passes
    r.events = observer.events ++ ends observer.stage units
      ∧ r.failed = units.countP (·.2.failed)
      ∧ r.error = if 0 < r.failed then some (.unitsFailed r.failed outcomes.length) else none := by
  intro observer units r
  -- The build is finished by its deliveries and the error that counts failures.
  have hr : r = _ := finish_eq req disk observer outcomes
  have hwrites : ∀ e, r.error = some e → ∃ failed total, e = .unitsFailed failed total := hwrites
  let r₀ : Result := { compiled := outcomes, timings := observer.timings, events := observer.events }
  have hstart : r₀.error = none := rfl
  have hdeliver := deliverAll_cases req observer disk hstart units
  generalize (deliverAll req observer disk r₀ units).1 = r' at hr hdeliver
  rcases hdeliver with ⟨hevents, hfailed, herror⟩ | ⟨e, herror, hne⟩
  -- All units ended as it is told.
  · rw [Nat.zero_add] at hfailed
    -- Has any of them failed?
    by_cases hsome : 0 < r'.failed
    · have hr : r = { r' with error := some (.unitsFailed r'.failed outcomes.length) } := by
        simpa [herror, hsome] using hr
      rw [hr, if_pos hsome]
      exact ⟨hevents, hfailed, rfl⟩
    · have hr : r = r' := by
        simpa [hsome] using hr
      rw [hr, if_neg hsome]
      exact ⟨hevents, hfailed, herror⟩
  -- A unit that cannot be written was excluded.
  · have hr : r = r' := by
      simpa [herror] using hr
    obtain ⟨failed, total, heq⟩ := hwrites e (hr ▸ herror)
    exact absurd heq (hne failed total)

namespace Concurrent

variable {req : Request} {cwd : Text} {outcomes : List Outcome} {passes : List PhaseEvent}

/-- What comes of the file at a position. -/
private theorem comes (h : Concurrent req outcomes passes) {i : Nat} {o : Outcome}
    (ho : outcomes[i]? = some o) : ∃ f, req.files[i]? = some f ∧ Comes req.options f o := by
  obtain ⟨hlength, hcomes⟩ := List.forall₂_iff_get.1 h.units
  obtain ⟨hi, rfl⟩ := List.getElem?_eq_some_iff.1 ho
  exact ⟨_, List.getElem?_eq_getElem (hlength ▸ hi), hcomes i (hlength ▸ hi) hi⟩

/-- The passes over one unit, out of all that are seen. -/
private theorem filter_passes (h : Concurrent req outcomes passes) (hgoal : req.options.goal = .emit)
    (hcwd : Path.isAbsolute cwd = true) (hnames : (req.names cwd).Nodup) {i : Nat} {f : Text} {o : Outcome}
    (hf : req.files[i]? = some f) (ho : outcomes[i]? = some o) :
    passes.filter (·.path = Path.clean f) = phaseEvents o := by
  -- The passes over a unit have its path.
  have hpaths : ∀ {k : Nat} {g : Text} {u : Outcome}, req.files[k]? = some g → outcomes[k]? = some u →
      ∀ e ∈ phaseEvents u, e.path = Path.clean g := by
    intro k g u hg hu
    obtain ⟨g', hg', hcomes⟩ := h.comes hu
    cases hg.symm.trans hg'
    exact (hcomes.ran hgoal).2
  refine h.passes.filter_eq (by rw [List.getElem?_map, ho]; rfl)
    (fun e he => decide_eq_true (hpaths hf ho e he)) ?_
  -- The passes of other units have other paths, since the names are different.
  intro k l hk hl e he
  rw [List.getElem?_map, Option.map_eq_some_iff] at hl
  obtain ⟨u, hu, rfl⟩ := hl
  obtain ⟨g, hg, _⟩ := h.comes hu
  exact decide_eq_false fun heq => clean_ne hcwd hnames hg hf hk ((hpaths hg hu e he).symm.trans heq)

/-- What is told of a file until all units are compiled. -/
private theorem told_before (h : Concurrent req outcomes passes) (hgoal : req.options.goal = .emit)
    (hcwd : Path.isAbsolute cwd = true) (hnames : (req.names cwd).Nodup) {i : Nat} {f : Text} {o : Outcome}
    (hf : req.files[i]? = some f) (ho : outcomes[i]? = some o) :
    (observed req cwd passes).events.filter (·.file = displayName cwd req.base f)
      = queued (displayName cwd req.base f)
        :: (stagesOf none (phaseEvents o)).map (working (displayName cwd req.base f)) := by
  have hmem : f ∈ req.files := List.mem_of_getElem? hf
  -- Among the passes, those with the name of the file are those with its path.
  have hone : ∀ e ∈ passes, (Observer.start req cwd).nameOf e.path = displayName cwd req.base f
      ↔ e.path = Path.clean f := by
    intro e he
    -- Each pass is one of some unit.
    obtain ⟨l, hl, he⟩ := h.passes.exists_mem he
    obtain ⟨u, hu, rfl⟩ := List.mem_map.1 hl
    obtain ⟨k, hk⟩ := List.mem_iff_getElem?.1 hu
    obtain ⟨g, hg, hcomes⟩ := h.comes hk
    rw [(hcomes.ran hgoal).2 e he, Observer.nameOf_start hcwd (List.mem_of_getElem? hg)]
    constructor
    -- Different names belong to different files.
    · exact fun hname => congrArg Path.clean (List.inj_on_of_nodup_map hnames (List.mem_of_getElem? hg) hmem hname)
    · intro hclean
      rw [← displayName_clean hcwd, hclean, displayName_clean hcwd]
  -- So what is told of the file is what the passes over its unit tell.
  rw [observed, Observer.told_foldl hone, h.filter_passes hgoal hcwd hnames hf ho]
  change (((req.names cwd).map queued).filter _) ++ _ = _
  rw [filter_queued hnames (List.mem_map_of_mem hmem)]
  rfl

/-- The progress of a build is a protocol: for each of its files, called by different names, it is told that
it waits, then the stages that are reached, and behind all that how its unit ended, by one event for an error
or by two for a text that was written.  Units that failed are counted, and the build ends with an error
exactly if there is one.  Only where an entry of the cache has no text, nothing is told of the end. -/
theorem told {disk : Disk} (h : Concurrent req outcomes passes) (hgoal : req.options.goal = .emit)
    (hcwd : Path.isAbsolute disk.cwd = true) (hnames : (req.names disk.cwd).Nodup)
    (hwrites : ∀ e, (concluded req disk outcomes passes).error = some e →
      ∃ failed total, e = .unitsFailed failed total) :
    let before := (observed req disk.cwd passes).events
    let r := concluded req disk outcomes passes
    (∃ after, r.events = before ++ after ∧ List.Forall₂
        (fun f o => Told (displayName disk.cwd req.base f) o before after) req.files outcomes)
      ∧ r.failed = r.events.countP (·.status = .error)
      ∧ r.error = if 0 < r.failed then some (.unitsFailed r.failed outcomes.length) else none := by
  intro before r
  obtain ⟨hlength, hcomes⟩ := List.forall₂_iff_get.1 h.units
  obtain ⟨hevents, hfailed, herror⟩ := concluded_of_written hwrites
  have hfirst : ((req.names disk.cwd).zip outcomes).map Prod.fst = req.names disk.cwd :=
    List.map_fst_zip (by rw [Request.names, List.length_map, hlength])
  -- Before and behind the last compilation, for each file.
  refine ⟨⟨_, hevents, List.forall₂_iff_get.2 ⟨hlength, fun i hi ho => ⟨?_, ?_⟩⟩⟩, ?_, herror⟩
  · have hran := ((hcomes i hi ho).ran hgoal).1
    exact ⟨_, stagesOf_phaseEvents hran, h.told_before hgoal hcwd hnames (List.getElem?_eq_getElem hi)
      (List.getElem?_eq_getElem ho)⟩
  -- What is told behind it is the end of the unit.
  · have hran := ((hcomes i hi ho).ran hgoal).1
    have hunit : (displayName disk.cwd req.base (req.files.get ⟨i, hi⟩), outcomes.get ⟨i, ho⟩)
        ∈ (req.names disk.cwd).zip outcomes := by
      refine List.mem_iff_getElem.2 ⟨i, ?_, by simp [Request.names]⟩
      rw [List.length_zip, Request.names, List.length_map]
      exact Nat.lt_min.2 ⟨hi, ho⟩
    -- Names are different, so the end of no other unit is told of the file.
    have hnodup : (((req.names disk.cwd).zip outcomes).map Prod.fst).Nodup := hfirst.symm ▸ hnames
    rw [filter_ends hnodup hunit]
    exact endOf_cases hran _ _
  -- Before the ends, no error is told.
  · have hbefore : before.countP (·.status = .error) = 0 := by
      rw [List.countP_eq_zero]
      intro e he
      refine of_decide_eq_true.mt (status_foldl ?_ e he)
      intro a ha
      obtain ⟨file, _, rfl⟩ := List.mem_map.1 ha
      nofun
    rw [hevents, List.countP_append, hbefore, Nat.zero_add, countP_ends, hfailed]

end Concurrent

/-! ## One file after the other -/

/-- Compiling a file leaves the working directory. -/
private theorem cwd_of_compile {disk disk' : Disk} {opts : Options} {file : SourceFile} {o : Outcome}
    (h : compile disk opts file = .ok (o, disk')) : disk'.cwd = disk.cwd := by
  rw [compile_eq_read] at h
  -- Keeping an entry changes the disk, but not where it is worked in.
  split at h
  · cases h
    rfl
  · split at h
    · obtain ⟨_, _, h⟩ := ok_of_bind h
      cases h
      rfl
    · dsimp only at h
      split at h
      · cases h
        rfl
      · obtain ⟨_, _, h⟩ := ok_of_bind h
        cases h
        -- The cache writes files and folders.
        split
        · rfl
        · exact (Cache.file_of_put _ _ _ _).1

/-- So does compiling a file of the disk. -/
private theorem cwd_of_compileFile {disk disk' : Disk} {opts : Options} {file : Text} {o : Outcome}
    (h : compileFile disk opts file = .ok (o, disk')) : disk'.cwd = disk.cwd := by
  unfold compileFile at h
  split at h
  · exact nomatch h
  · split at h
    · cases h
      exact cwd_of_compile ‹_›
    · exact nomatch h

/-- A file that cannot be loaded is one that cannot be read from the disk. -/
private theorem load_of_compileFile {disk : Disk} {opts : Options} {file path : Text} {e : DiskError}
    (h : compileFile disk opts file = .error (.load path e)) : disk.load file = .error e ∧ path = file := by
  unfold compileFile at h
  split at h
  · cases h
    exact ⟨‹_›, rfl⟩
  · split at h <;> exact nomatch h

/-- What comes of files that are compiled one after the other. -/
private theorem comes_of_compileFiles {opts : Options} {files : List Text} {disk after : Disk}
    {outcomes : List Outcome} (h : compileFiles disk opts files = .ok (outcomes, after)) :
    List.Forall₂ (Comes opts) files outcomes ∧ after.cwd = disk.cwd := by
  -- By induction on the files, with the disk that each one leaves.
  induction files generalizing disk outcomes with
  | nil =>
    cases h
    exact ⟨.nil, rfl⟩
  | cons file files ih =>
    unfold compileFiles at h
    split at h
    -- The file was compiled.
    · rename_i r hfile
      obtain ⟨_, hr, h⟩ := ok_of_bind h
      cases hr
      obtain ⟨⟨os, disk'⟩, hfiles, h⟩ := ok_of_bind h
      cases h
      obtain ⟨hrest, hcwd⟩ := ih hfiles
      exact ⟨.cons (.inl ⟨disk, r.2, hfile⟩) hrest, hcwd.trans (cwd_of_compileFile hfile)⟩
    -- The file could not be read, so the disk is as it was.
    · rename_i path e hfile
      obtain ⟨_, hr, h⟩ := ok_of_bind h
      cases hr
      obtain ⟨⟨os, disk'⟩, hfiles, h⟩ := ok_of_bind h
      cases h
      obtain ⟨hrest, hcwd⟩ := ih hfiles
      obtain ⟨hload, rfl⟩ := load_of_compileFile hfile
      exact ⟨.cons (.inr ⟨disk, e, hload, rfl⟩) hrest, hcwd⟩
    · exact nomatch h

/-- Building the files of a request one after the other is one of the builds that compile them at the same
time. -/
theorem run_concurrent {req : Request} {disk disk' : Disk} {r : Result} (h : run disk req = .ok (r, disk')) :
    ∃ after outcomes passes, after.cwd = disk.cwd ∧ Concurrent req outcomes passes
      ∧ r = concluded req after outcomes passes := by
  obtain ⟨⟨outcomes, after⟩, hfiles, h⟩ := ok_of_bind h
  obtain ⟨hcomes, hcwd⟩ := comes_of_compileFiles hfiles
  refine ⟨after, outcomes, outcomes.flatMap phaseEvents, hcwd, ⟨hcomes, .flatMap _ _⟩, ?_⟩
  rw [concluded, observed, hcwd]
  exact (congrArg Prod.fst (Except.ok.inj h)).symm

/-! ## A file with nothing in it -/

/-- A file with nothing in it. -/
def blankFile : SourceFile := .ofDisk "a.redux" []

/-- A disk with that file. -/
def blankDisk : Disk := { cwd := "/", entries := [([], .folder), (["a.redux"], .file [])] }

/-- The empty program. -/
def blankTree : Block := .mk [] [] ⟨0, 0, 0⟩

/-- What comes of it. -/
def blankOutcome : Outcome :=
  { path := "a.redux", files := ⟨[blankFile]⟩, program := some blankTree
    output := some "\x7b\n\x7d\n", bag := Bag.new 100
    passes := [{ phase := .parse }, { phase := .require, counts := [("files", 0)] }, { phase := .analyze },
      { phase := .inline, counts := [("calls", 0), ("temps", 0)] }, { phase := .emit, counts := [("bytes", 4)] }] }

private theorem readUnit_blankFile (disk : Disk) (opts : Options) (hlimit : opts.limit = 100) :
    readUnit disk opts blankFile = (blankTree, { files := ⟨[blankFile]⟩, reporter := { bag := Bag.new 100 }
                                                 included := [Path.absolute disk.cwd "a.redux"] }) := by
  -- An empty file has no lexemes but the end mark.
  have hlexemes : lexemes 0 [] = [.endMark ⟨0, 0⟩] := by
    rw [lexemes_eq_within]
    cbv
  have hadd : ({} : FileSet).add blankFile = (0, ⟨[blankFile]⟩) := rfl
  have hcontent : blankFile.content = [] := by decide
  -- And so it has no statements.
  have hparse : parse 0 100 [] = ⟨blankTree, 0, []⟩ := by
    rw [parse, hlexemes]
    rfl
  rw [readUnit, hlimit, hadd, hcontent]
  dsimp only
  rw [hparse]
  rfl

/-- The outcome of reading it. -/
def blankRead : Outcome :=
  { path := "a.redux", files := ⟨[blankFile]⟩, program := some blankTree, bag := Bag.new 100
    passes := [{ phase := .parse }, { phase := .require, counts := [("files", 0)] }] }

private theorem readOutcome_blankFile (disk : Disk) (opts : Options) (hlimit : opts.limit = 100) :
    readOutcome disk opts blankFile = blankRead := by
  rw [readOutcome, readUnit_blankFile disk opts hlimit]
  rfl

private theorem compileFile_blankFile :
    compileFile blankDisk {} "a.redux" = .ok (blankOutcome, blankDisk) := by
  have hload : blankDisk.load "a.redux" = .ok blankFile := by decide
  have hproceed : blankRead.proceed {} blankTree = .ok blankOutcome := by
    rfl
  rw [compileFile, hload]
  dsimp only
  rw [compile_eq_read, readOutcome_blankFile _ _ rfl, readUnit_blankFile _ _ rfl]
  dsimp only
  rw [hproceed]
  rfl

/-- A request for that file and one that does not exist. -/
def blankRequest : Request := { files := ["a.redux", "b.redux"], prints := true }

/-- What comes of the two files. -/
def blankOutcomes : List Outcome :=
  [blankOutcome, unreadable {} "b.redux" { action := "open", path := "b.redux", cause := .notFound }]

/-- One of the files is told to be written, the other one to have failed. -/
theorem told_blankRequest :
    let passes := blankOutcomes.flatMap phaseEvents
    let before := (observed blankRequest "/" passes).events
    let r := concluded blankRequest blankDisk blankOutcomes passes
    (∃ after, r.events = before ++ after ∧ List.Forall₂
        (fun f o => Told (displayName "/" [] f) o before after) blankRequest.files blankOutcomes)
      ∧ r.failed = r.events.countP (·.status = .error)
      ∧ r.error = if 0 < r.failed then some (.unitsFailed r.failed 2) else none := by
  intro passes before r
  -- The first file is compiled, and the second one is not found.
  have hfirst : Comes {} "a.redux" blankOutcome := .inl ⟨_, _, compileFile_blankFile⟩
  have hsecond : Comes {} "b.redux"
      (unreadable {} "b.redux" { action := "open", path := "b.redux", cause := .notFound }) :=
    .inr ⟨blankDisk, _, by decide, rfl⟩
  have hbuild : Concurrent blankRequest blankOutcomes passes :=
    ⟨.cons hfirst (.cons hsecond .nil), .flatMap _ _⟩
  -- One of two units failed, by evaluation.
  have herror : r.error = some (.unitsFailed 1 2) := by decide +kernel
  have hcwd : Path.isAbsolute blankDisk.cwd = true := rfl
  exact Concurrent.told hbuild rfl hcwd (by decide +kernel)
    fun e he => ⟨1, 2, Option.some.inj (he.symm.trans herror)⟩

/-- A folder for a cache. -/
def blankCache : Cache := ⟨"/cache"⟩

/-- The disk on which the cache has an entry for the file that gives nothing but the version of its form. -/
def heldDisk : Disk :=
  let key := Cache.key {} Host.default blankFile.hash []
  { cwd := "/"
    entries := [([], .folder), (["a.redux"], .file []), (["cache"], .folder), (["cache", "units"], .folder),
      (["cache", "units", Cache.nameOf key],
        .file ([0x81] ++ Packed.ofText "Schema" ++ [0x01]))] }

/-- A request for the file with that cache. -/
def heldRequest : Request := { files := ["a.redux"], options := { cache := some blankCache } }

/-- Nothing is told of the end of a file for which the cache has an entry without a text. -/
theorem heldRequest_untold : ∃ outcomes passes, Concurrent heldRequest outcomes passes
    ∧ (heldRequest.names heldDisk.cwd).Nodup
    ∧ (concluded heldRequest heldDisk outcomes passes).error = none
    ∧ (concluded heldRequest heldDisk outcomes passes).events = [queued "a.redux", working "a.redux" .parse] := by
  -- The file is there, and its entry in the cache has no text.
  have hload : heldDisk.load "a.redux" = .ok blankFile := by decide
  have hget : blankCache.get? heldDisk (Cache.key {} Host.default blankFile.hash [])
      = some { form := 1 } := by decide +kernel
  -- So compiling it takes the entry.
  have hcompile : compileFile heldDisk heldRequest.options "a.redux"
      = .ok ({ blankRead with cached := true, program := none }, heldDisk) := by
    have hok : (readOutcome heldDisk heldRequest.options blankFile).failed = false := by
      rw [readOutcome_blankFile _ _ rfl]
      rfl
    have hcache : heldRequest.options.cache = some blankCache := rfl
    have hfound : compile heldDisk heldRequest.options blankFile = _ :=
      compile_of_found rfl hcache hok (by rw [readUnit_blankFile _ _ rfl]; exact hget)
    rw [compileFile, hload]
    dsimp only
    rw [hfound, readOutcome_blankFile _ _ rfl]
    rfl
  -- The build has one unit, whose outcome is the entry.
  let held : Outcome := { blankRead with cached := true, program := none }
  have hbuild : Concurrent heldRequest [held] (phaseEvents held) :=
    ⟨.cons (.inl ⟨_, _, hcompile⟩) .nil, List.append_nil (phaseEvents held) ▸ .flatMap phaseEvents [held]⟩
  exact ⟨[held], _, hbuild, by decide +kernel, by decide +kernel, by decide +kernel⟩

end Build

end AisScript
