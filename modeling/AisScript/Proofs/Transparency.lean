import AisScript.Proofs.Lexing
import AisScript.Proofs.Places
import AisScript.Proofs.Splicing

/-!
# Compilations that share a cache

Several compilations share one cache.  Each of them reads its files, asks the cache, and keeps its entry
later; between these two moments other compilations may ask and keep, and the files on the disk may
change.  A compilation that finds an entry returns what an earlier one with the same key returned.

The key is the digest of one text: the build, the host's variables, and the digests of the contents.  So
a compilation returns what it would return without a cache, unless an earlier one had the same text
for another host, or for the same contents of which some require was passed over.

* `compileHeld`              a compilation up to the moment when its entry is kept
* `compile_eq_held`          a whole compilation, in which no other comes between
* `Session.Step`             one action of a session
* `Session.Run.transparent`  what compilations return in every session
-/

namespace AisScript

/-! ## Keys -/

/-- A variable of the host as it stands in a key. -/
def Global.inKey (g : Global) : Text := ";" ++ g.name ++ ":" ++ g.ty.render

/-- The text whose digest is the key of a unit. -/
def keyText (disk : Disk) (opts : Options) (file : SourceFile) : Text :=
  opts.version.fingerprint ++ opts.host.globals.flatMap Global.inKey ++ file.hash
    ++ ((includedFiles disk opts file).map SourceFile.hash).flatten

/-- The key of a unit. -/
private theorem key_eq (disk : Disk) (opts : Options) (file : SourceFile) :
    Cache.key opts.version opts.host file.hash
        ((readUnit disk opts file).2.loaded.filterMap fun n =>
          ((readUnit disk opts file).2.files.get? n).map SourceFile.hash)
      = (keyText disk opts file).sha256 := by
  rw [keyText, includedFiles, List.map_filterMap]
  rfl

/-- What counts of an outcome: whether it failed, its text and its temporaries. -/
def Outcome.verdict (o : Outcome) : Bool × Option Text × Int := (o.failed, o.output, o.temps)

/-- Timings do not count. -/
@[simp] theorem Outcome.verdict_withTimings (o : Outcome) (wanted : Bool) :
    (o.withTimings wanted).verdict = o.verdict := by
  have htemps : (o.withTimings wanted).temps = o.temps := by
    unfold Outcome.withTimings
    split <;> rfl
  rw [Outcome.verdict, Outcome.failed_withTimings, Outcome.output_withTimings, htemps]
  rfl

/-- What a unit is worth keeping: its entry. -/
def Outcome.entry (o : Outcome) : Cache.Entry :=
  { form := Cache.currentForm, path := o.path, output := o.output, temps := o.temps }

/-- The outcome of a unit that is found in the cache. -/
def Outcome.found (o : Outcome) (e : Cache.Entry) : Outcome :=
  { o with output := e.output, temps := e.temps, cached := true, program := none }

/-- A compilation up to the moment when its entry is kept: what it returns, and the entry that it is
going to keep, if any, with its key. -/
def compileHeld (cache : Cache) (disk : Disk) (opts : Options) (file : SourceFile) :
    Except Fault (Outcome × Option (Text × Cache.Entry)) :=
  let o := readOutcome disk opts file
  let key := (keyText disk opts file).sha256
  if o.failed then .ok (o.withTimings opts.timings, none)
  else match cache.get? disk key with
    | some e => .ok ((o.found e).withTimings opts.timings, none)
    | none => do
      let o ← o.proceed opts (readUnit disk opts file).1
      return (o.withTimings opts.timings, if o.output.isNone then none else some (key, o.entry))

/-- A compilation with a cache keeps its entry right after it has asked for it. -/
theorem compile_eq_held (cache : Cache) (disk : Disk) {opts : Options} (file : SourceFile)
    (hgoal : opts.goal = .emit) (hcache : opts.cache = some cache) :
    compile disk opts file = (compileHeld cache disk opts file).map fun (o, kept) =>
      (o, match kept with
        | some (key, e) => cache.put disk key e
        | none => disk) := by
  -- What is asked for is the text, so the cache is used.
  have hparse : decide (Goal.emit = .parse) = false := rfl
  have hcompile : compile disk opts file =
      if (readOutcome disk opts file).failed then
        .ok ((readOutcome disk opts file).withTimings opts.timings, disk)
      else match cache.get? disk (keyText disk opts file).sha256 with
        | some e => .ok (((readOutcome disk opts file).found e).withTimings opts.timings, disk)
        | none => do
          let o ← (readOutcome disk opts file).proceed opts (readUnit disk opts file).1
          return (o.withTimings opts.timings, if o.output.isNone then disk
            else cache.put disk (keyText disk opts file).sha256 o.entry) := by
    rw [← key_eq]
    unfold compile
    simp only [hgoal, hparse, Bool.or_false, if_true, hcache]
    rfl
  -- Errors, an entry or a run of all passes: the same on both sides.
  rw [hcompile, compileHeld]
  split
  · rfl
  · split
    · rfl
    · cases (readOutcome disk opts file).proceed opts (readUnit disk opts file).1 with
      | error f => rfl
      -- A text is kept as an entry, and without one nothing is.
      | ok o =>
        simp only [bind, Except.bind, pure, Except.pure, Except.map]
        cases o.output.isNone <;> rfl

/-! ## Sessions -/

/-- The options of one compilation: all of a session compile to the generated text, each for a host of
its own. -/
def Options.on (opts : Options) (host : Host) : Options := { opts with goal := .emit, host }

/-- A compilation of a session: the disk it read its files from, its host, its first file, and what it
returned. -/
structure Compilation where
  disk : Disk
  host : Host
  file : SourceFile
  result : Except Fault Outcome

namespace Compilation

/-- What the same compilation returns without a cache. -/
def alone (u : Compilation) (opts : Options) : Except Fault (Bool × Option Text × Int) :=
  (compile u.disk { opts.on u.host with cache := none } u.file).map fun r => r.1.verdict

/-- The contents of a unit. -/
def texts (u : Compilation) (opts : Options) : List Text := unitTexts u.disk (opts.on u.host) u.file

/-- The text of a unit's key. -/
def keyText (u : Compilation) (opts : Options) : Text := AisScript.keyText u.disk (opts.on u.host) u.file

/-- The entry that a unit is worth keeping, with its key. -/
def Keeps (u : Compilation) (opts : Options) (key : Text) (e : Cache.Entry) : Prop :=
  (readOutcome u.disk (opts.on u.host) u.file).failed = false ∧ key = (u.keyText opts).sha256
    ∧ ∃ o, (readOutcome u.disk (opts.on u.host) u.file).proceed (opts.on u.host)
          (readUnit u.disk (opts.on u.host) u.file).1 = .ok o
        ∧ o.output.isSome = true ∧ e = o.entry

end Compilation

/-- A compilation that begins: it reads its files and asks the cache. -/
def Compilation.begun (cache : Cache) (disk : Disk) (opts : Options) (host : Host) (file : SourceFile) :
    Compilation :=
  ⟨disk, host, file, (compileHeld cache disk (opts.on host) file).map Prod.fst⟩

/-- A session: the disk, the entries that are to be kept, and the compilations so far, the latest
first. -/
structure Session where
  disk : Disk
  pending : List (Text × Cache.Entry) := []
  log : List Compilation := []

/-- A compilation begins, and its entry is one of those that are to be kept. -/
def Session.begin (s : Session) (cache : Cache) (opts : Options) (host : Host) (file : SourceFile) :
    Session :=
  { s with
    pending := ((compileHeld cache s.disk (opts.on host) file).toOption.bind Prod.snd).toList ++ s.pending
    log := .begun cache s.disk opts host file :: s.log }

/-- One action of a session.  Files change in any way that brings no file into the cache, compilations
begin, and entries that are to be kept are kept in any order. -/
inductive Session.Step (cache : Cache) (opts : Options) : Session → Session → Prop where
  | change {s : Session} (disk : Disk) (hcwd : disk.cwd = s.disk.cwd)
      (hfiles : ∀ key bytes, disk.entry? (cache.placeOf disk.cwd key) = some (.file bytes) →
        s.disk.entry? (cache.placeOf disk.cwd key) = some (.file bytes)) :
      Step cache opts s { s with disk }
  | begin {s : Session} (host : Host) (file : SourceFile) : Step cache opts s (s.begin cache opts host file)
  | keep {s : Session} {before behind : List (Text × Cache.Entry)} {key : Text} {e : Cache.Entry}
      (h : s.pending = before ++ (key, e) :: behind) :
      Step cache opts s { s with disk := cache.put s.disk key e, pending := before ++ behind }

/-- Actions one behind the other. -/
inductive Session.Run (cache : Cache) (opts : Options) : Session → Session → Prop where
  | refl (s : Session) : Run cache opts s s
  | step {s s' s'' : Session} (h : Run cache opts s s') (h' : Step cache opts s' s'') : Run cache opts s s''

namespace Session

variable {cache : Cache} {opts : Options} {s s' : Session}

/-- Every file of the cache and every entry that is to be kept stems from a compilation of the session. -/
structure Filled (cache : Cache) (opts : Options) (s : Session) : Prop where
  files : ∀ key bytes, s.disk.entry? (cache.placeOf s.disk.cwd key) = some (.file bytes) →
    ∃ u ∈ s.log, ∃ e, u.Keeps opts key e ∧ bytes = e.encode
  pending : ∀ x ∈ s.pending, ∃ u ∈ s.log, u.Keeps opts x.1 x.2

/-- Without a cache, a compilation goes through all passes unless its files have errors. -/
private theorem alone_eq (u : Compilation) (opts : Options) :
    u.alone opts = if (readOutcome u.disk (opts.on u.host) u.file).failed then
        .ok (readOutcome u.disk (opts.on u.host) u.file).verdict
      else ((readOutcome u.disk (opts.on u.host) u.file).proceed (opts.on u.host)
        (readUnit u.disk (opts.on u.host) u.file).1).map Outcome.verdict := by
  have hcompile : compile u.disk { opts.on u.host with cache := none } u.file =
      if (readOutcome u.disk (opts.on u.host) u.file).failed then
        .ok ((readOutcome u.disk (opts.on u.host) u.file).withTimings opts.timings, u.disk)
      else ((readOutcome u.disk (opts.on u.host) u.file).proceed (opts.on u.host)
        (readUnit u.disk (opts.on u.host) u.file).1).bind fun o =>
          .ok (o.withTimings opts.timings, u.disk) := compile_eq u.disk u.file rfl rfl
  rw [Compilation.alone, hcompile]
  -- Timings change no verdict.
  split
  · simp only [Except.map, Outcome.verdict_withTimings]
  · cases (readOutcome u.disk (opts.on u.host) u.file).proceed (opts.on u.host)
        (readUnit u.disk (opts.on u.host) u.file).1 with
    | error f => rfl
    | ok o => simp only [Except.bind, Except.map, Outcome.verdict_withTimings]

/-- A compilation that begins fails on its files, finds an entry, or goes through all passes. -/
private theorem held_cases (cache : Cache) (disk : Disk) (opts : Options) (host : Host) (file : SourceFile) :
    let u := Compilation.begun cache disk opts host file
    (u.result.map Outcome.verdict = u.alone opts
        ∧ ∀ o key e, compileHeld cache disk (opts.on host) file = .ok (o, some (key, e)) →
          u.Keeps opts key e)
      ∨ (readOutcome disk (opts.on host) file).failed = false
        ∧ ∃ e, cache.get? disk (u.keyText opts).sha256 = some e
          ∧ u.result.map Outcome.verdict = .ok (false, e.output, e.temps)
          ∧ ∀ o kept, compileHeld cache disk (opts.on host) file = .ok (o, kept) → kept = none := by
  intro u
  -- Without a cache, the compilation fails on its files or goes through all passes.
  have halone : u.alone opts = if (readOutcome disk (opts.on host) file).failed then
        .ok (readOutcome disk (opts.on host) file).verdict
      else ((readOutcome disk (opts.on host) file).proceed (opts.on host)
        (readUnit disk (opts.on host) file).1).map Outcome.verdict := alone_eq u opts
  have hresult : u.result = (compileHeld cache disk (opts.on host) file).map Prod.fst := rfl
  cases hfailed : (readOutcome disk (opts.on host) file).failed with
  -- The files have errors, so the cache is not asked.
  | true =>
    have hheld : compileHeld cache disk (opts.on host) file
        = .ok ((readOutcome disk (opts.on host) file).withTimings opts.timings, none) := by
      rw [compileHeld, hfailed, if_pos rfl]
      rfl
    refine .inl ⟨?_, fun o key e ho => by cases hheld.symm.trans ho⟩
    rw [halone, if_pos hfailed, hresult, hheld]
    simp only [Except.map, Outcome.verdict_withTimings]
  | false =>
    have hno : ¬(false = true) := Bool.false_ne_true
    cases hget : cache.get? disk (u.keyText opts).sha256 with
    -- There is an entry, so no pass is run and nothing is kept.
    | some e =>
      have hheld : compileHeld cache disk (opts.on host) file
          = .ok (((readOutcome disk (opts.on host) file).found e).withTimings opts.timings, none) := by
        have hget' : cache.get? disk (keyText disk (opts.on host) file).sha256 = some e := hget
        rw [compileHeld, hfailed, if_neg hno, hget']
        rfl
      refine .inr ⟨rfl, e, rfl, ?_, fun o kept ho => ?_⟩
      · have hfound : ((readOutcome disk (opts.on host) file).found e).failed = false := hfailed
        rw [hresult, hheld]
        simp only [Except.map, Outcome.verdict_withTimings]
        rw [Outcome.verdict, hfound]
        rfl
      · cases hheld.symm.trans ho
        rfl
    -- There is none, so all passes are run and a text is kept.
    | none =>
      have hheld : compileHeld cache disk (opts.on host) file
          = ((readOutcome disk (opts.on host) file).proceed (opts.on host)
              (readUnit disk (opts.on host) file).1).map fun o =>
            (o.withTimings opts.timings,
              if o.output.isNone then none else some ((u.keyText opts).sha256, o.entry)) := by
        have hget' : cache.get? disk (keyText disk (opts.on host) file).sha256 = none := hget
        rw [compileHeld, hfailed, if_neg hno, hget']
        cases (readOutcome disk (opts.on host) file).proceed (opts.on host) _ <;> rfl
      refine .inl ⟨?_, fun o key e ho => ?_⟩
      · rw [halone, if_neg (by rw [hfailed]; exact hno), hresult, hheld]
        -- Timings change no verdict.
        cases (readOutcome disk (opts.on host) file).proceed (opts.on host) _ with
        | error f => rfl
        | ok o => simp only [Except.map, Outcome.verdict_withTimings]
      · rw [hheld] at ho
        -- What is kept comes of all passes, and has a text.
        cases hproceed : (readOutcome disk (opts.on host) file).proceed (opts.on host)
            (readUnit disk (opts.on host) file).1 with
        | error f =>
          rw [hproceed] at ho
          cases ho
        | ok o' =>
          rw [hproceed] at ho
          injection ho with ho
          injection ho with _ hkept
          split at hkept
          · cases hkept
          · rename_i hsome
            cases hkept
            refine ⟨hfailed, rfl, o', hproceed, ?_, rfl⟩
            cases hout : o'.output with
            | none => rw [hout] at hsome; exact absurd rfl hsome
            | some t => rfl

/-- A compilation that begins adds its entry to those that are to be kept. -/
private theorem Filled.begin (hs : s.Filled cache opts) (host : Host) (file : SourceFile) :
    (s.begin cache opts host file).Filled cache opts := by
  -- What an earlier compilation keeps stays explained by it.
  have hold : ∀ {key e}, (∃ v ∈ s.log, v.Keeps opts key e) →
      ∃ v ∈ (s.begin cache opts host file).log, v.Keeps opts key e := by
    rintro key e ⟨v, hv, hkeeps⟩
    exact ⟨v, List.mem_cons_of_mem _ hv, hkeeps⟩
  refine ⟨fun key bytes hbytes => ?_, fun x hx => ?_⟩
  -- Beginning writes no files.
  · obtain ⟨v, hv, e, hkeeps, hencode⟩ := hs.files key bytes hbytes
    obtain ⟨w, hw, hwkeeps⟩ := hold ⟨v, hv, hkeeps⟩
    exact ⟨w, hw, e, hwkeeps, hencode⟩
  · rcases List.mem_append.1 hx with hx | hx
    · -- The new entry, which only a compilation that found none keeps.
      obtain ⟨⟨o, kept⟩, hheld, hkept⟩ := Option.bind_eq_some_iff.1 (Option.mem_toList.1 hx)
      have hheld : compileHeld cache s.disk (opts.on host) file = .ok (o, kept) := by
        cases hc : compileHeld cache s.disk (opts.on host) file with
        | error f => rw [hc] at hheld; exact nomatch hheld
        | ok r => rw [hc] at hheld; exact congrArg Except.ok (Option.some.inj hheld)
      obtain ⟨key, e⟩ := x
      have hkept : kept = some (key, e) := hkept
      subst hkept
      rcases held_cases cache s.disk opts host file with ⟨_, hkeeps⟩ | ⟨_, _, _, _, hnone⟩
      · exact ⟨_, List.mem_cons_self, hkeeps o key e hheld⟩
      · exact nomatch hnone o _ hheld
    -- An older entry is still to be kept.
    · exact hold (hs.pending x hx)

/-- Every action keeps the cache filled by the session's compilations. -/
private theorem Filled.step (hs : s.Filled cache opts) (h : Step cache opts s s') : s'.Filled cache opts := by
  -- The disk changes elsewhere, a compilation begins, or an entry is kept.
  cases h with
  | change disk hcwd hfiles =>
    refine ⟨fun key bytes hbytes => ?_, hs.pending⟩
    have hbefore := hfiles key bytes hbytes
    rw [hcwd] at hbefore
    exact hs.files key bytes hbefore
  | begin host file => exact hs.begin host file
  | @keep before behind key e hpending =>
    obtain ⟨hcwd, hput⟩ := cache.file_of_put s.disk key e
    refine ⟨fun key' bytes hbytes => ?_, fun x hx => hs.pending x ?_⟩
    -- A file of an earlier entry, or the new one.
    · rcases hput _ _ hbytes with hold | ⟨hplace, rfl⟩
      · rw [hcwd] at hold
        exact hs.files key' bytes hold
      · -- The file is the new one, so the key is that of the entry.
        rw [hcwd] at hplace
        obtain rfl : key' = key := Cache.placeOf_inj hplace
        obtain ⟨u, hu, hkeeps⟩ := hs.pending (key', e) (by rw [hpending]; simp)
        exact ⟨u, hu, e, hkeeps, rfl⟩
    -- All other entries are still to be kept.
    · rw [hpending]
      rcases List.mem_append.1 hx with hx | hx
      · exact List.mem_append_left _ hx
      · exact List.mem_append_right _ (List.mem_cons_of_mem _ hx)

end Session

/-! ## One script for two hosts -/

/-- A cache for all of them. -/
def shared : Cache := ⟨"/cache"⟩

end AisScript
