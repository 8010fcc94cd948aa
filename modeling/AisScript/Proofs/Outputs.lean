import AisScript.Build.Output
import AisScript.Proofs.Cleaning
import Mathlib.Data.List.Nodup

/-!
# Where outputs stand

The output of a source below the base directory keeps its path from there, below the output directory;
every other output stands directly in the output directory, under the name of its source.  So no output
leaves the output directory, and two outputs meet only if a source from elsewhere is one of them.

A folder of the base directory whose name begins with two dots is taken for a way out of it, so that the
sources in it count as sources from elsewhere.

* `Path.Below`                       paths below a directory
* `Path.rel?_of_below`               how to get to them
* `Build.outputPath_eq`              where an output stands
* `Build.outputPath_nodup_iff`       when no two outputs meet
-/

namespace AisScript

/-! ## Paths and their names -/

namespace Text

/-- A part behind others. -/
private theorem join_concat (sep : Text) {ts : List Text} (hne : ts ≠ []) (t : Text) :
    join sep (ts ++ [t]) = join sep ts ++ sep ++ t := by
  induction ts with
  | nil => exact absurd rfl hne
  | cons u us ih =>
    cases us with
    | nil => rfl
    | cons v vs =>
      have hjoin : join sep (u :: v :: vs ++ [t]) = u ++ sep ++ join sep (v :: vs ++ [t]) := rfl
      rw [hjoin, ih nofun]
      simp [join]

/-- A text that ends with another one. -/
private theorem endsWith_iff {s t : Text} : s.endsWith t = true ↔ t <:+ s := by
  rw [endsWith, List.isPrefixOf_iff_prefix, List.reverse_prefix]

end Text

namespace Path

variable {p q dir : Text} {cs ds : List Text}

/-- Components that are names: they say something and do not lead up. -/
def Names (cs : List Text) : Prop := ∀ c ∈ cs, Proper c ∧ c ≠ up

/-- Names are resolved to themselves. -/
private theorem cleanComponents_ofComponents (h : Names cs) (rooted : Bool) :
    cleanComponents (ofComponents rooted cs) = cs := by
  rw [cleanComponents, components_ofComponents fun c hc => (h c hc).1]
  exact resolve_append _ [] [] fun c hc => (h c hc).2

/-- The components of a cleaned path from the root are names. -/
private theorem names_cleanComponents (h : isAbsolute p = true) : Names (cleanComponents p) := by
  refine fun c hc => ⟨proper_of_mem_cleanComponents hc, ?_⟩
  rintro rfl
  rw [cleanComponents_rooted h] at hc
  exact Disk.up_not_mem_walk List.not_mem_nil _ hc

/-- One path below another by their components. -/
private theorem join_eq (hdir : dir ≠ []) (p : Text) :
    join dir p = ofComponents (isAbsolute dir) (resolve (isAbsolute dir) [] (components dir ++ components p)) := by
  obtain ⟨b, bs, rfl⟩ := List.exists_cons_of_ne_nil hdir
  cases p with
  | nil =>
    have hjoin : join (b :: bs) [] = clean (b :: bs) := rfl
    have hnone : components [] = [] := by decide
    rw [hjoin, hnone, List.append_nil]
    rfl
  | cons c p =>
    have hjoin : join (b :: bs) (c :: p) = clean ((b :: bs) ++ slash :: c :: p) := by simp [join]
    rw [hjoin, clean, cleanComponents, components_append]
    rfl

/-- Cleaning a path changes nothing about where it leads from the working directory. -/
private theorem absolute_clean {cwd : Text} (hcwd : isAbsolute cwd = true) (p : Text) :
    absolute cwd (clean p) = absolute cwd p := by
  rw [absolute_eq hcwd, absolute_eq hcwd, Disk.aim_clean]

/-- A cleaned path from the root is known from its components. -/
private theorem eq_of_cleanComponents (hp : isAbsolute p = true) (hq : isAbsolute q = true)
    (hcp : clean p = p) (hcq : clean q = q) (h : cleanComponents p = cleanComponents q) : p = q := by
  rw [← hcp, ← hcq, clean, clean, hp, hq, h]

/-- A path from the root is a directory, a separator and a name. -/
private theorem ofComponents_concat (cs : List Text) :
    ∃ dir, ∀ c, ofComponents true (cs ++ [c]) = dir ++ slash :: c := by
  cases cs with
  | nil => exact ⟨[], fun c => rfl⟩
  | cons d ds =>
    refine ⟨slash :: Text.join [slash] (d :: ds), fun c => ?_⟩
    change slash :: Text.join [slash] (d :: ds ++ [c]) = _
    rw [Text.join_concat _ (List.cons_ne_nil d ds)]
    simp

/-- The last component of a path with a name at its end. -/
private theorem base_append (dir : Text) {c : Text} (h : Proper c) : base (dir ++ slash :: c) = c := by
  obtain ⟨hslash, hne, _⟩ := h
  -- The last byte is one of the name, so no separator is trimmed.
  have hreverse : (dir ++ slash :: c).reverse = c.reverse ++ slash :: dir.reverse := by simp
  have htrimmed : ((dir ++ slash :: c).reverse.dropWhile (· = slash)).reverse = dir ++ slash :: c := by
    rw [hreverse]
    cases hc : c.reverse with
    | nil => exact absurd (List.reverse_eq_nil_iff.1 hc) hne
    -- The name is not empty, so it has a last byte, which is no separator.
    | cons b bs =>
      have hb : b ≠ slash := by
        rintro rfl
        exact hslash (List.mem_reverse.1 (hc ▸ List.mem_cons_self))
      rw [List.cons_append, List.dropWhile_cons_of_neg (by simpa using hb), ← List.cons_append, ← hc,
        ← hreverse, List.reverse_reverse]
  -- The name reaches back to the last separator.
  have hlast : (splitLast (dir ++ slash :: c)).2 = c := by
    have hall : ∀ b ∈ c.reverse, (decide (b ≠ slash)) = true := by
      intro b hb
      refine decide_eq_true ?_
      rintro rfl
      exact hslash (List.mem_reverse.1 hb)
    simp only [splitLast]
    rw [hreverse, List.takeWhile_append_of_pos hall, List.takeWhile_cons_of_neg (by simp),
      List.append_nil, List.reverse_reverse]
  -- The path is not empty.
  have hsome : (dir ++ slash :: c).isEmpty = false := by
    cases dir <;> rfl
  simp only [base, hsome, htrimmed, hlast, Bool.false_eq_true, if_false]

/-! ## Paths below a directory -/

/-- A path below a directory, with the names that lead there from the directory. -/
structure Below (dir p : Text) (cs : List Text) : Prop where
  rooted : isAbsolute p = isAbsolute dir
  some : cs ≠ []
  down : ∀ c ∈ cs, c ≠ up
  names : cleanComponents p = cleanComponents dir ++ cs

/-- The names to a path below a directory. -/
theorem Below.proper (h : Below dir p cs) : Names cs := by
  refine fun c hc => ⟨proper_of_mem_cleanComponents (p := p) ?_, h.down c hc⟩
  rw [h.names]
  exact List.mem_append_right _ hc

/-- There is one way down to a path. -/
theorem Below.unique (h : Below dir p cs) (h' : Below dir p ds) : cs = ds :=
  List.append_cancel_left (h.names.symm.trans h'.names)

instance : Decidable (Below dir p cs) :=
  decidable_of_iff (isAbsolute p = isAbsolute dir ∧ cs ≠ [] ∧ (∀ c ∈ cs, c ≠ up)
      ∧ cleanComponents p = cleanComponents dir ++ cs)
    ⟨fun ⟨hr, hs, hd, hn⟩ => ⟨hr, hs, hd, hn⟩, fun h => ⟨h.rooted, h.some, h.down, h.names⟩⟩

/-- Names behind the components of a path are the way down from there. -/
private theorem below_ofComponents (hne : cs ≠ []) (h : Names cs) :
    Below dir (ofComponents (isAbsolute dir) (cleanComponents dir ++ cs)) cs := by
  have hproper : ∀ c ∈ cleanComponents dir ++ cs, Proper c := fun c hc =>
    (List.mem_append.1 hc).elim proper_of_mem_cleanComponents fun hc => (h c hc).1
  have hclean : resolve (isAbsolute dir) [] (cleanComponents dir) = cleanComponents dir := by
    have heq := cleanComponents_clean dir
    rwa [cleanComponents, isAbsolute_clean, components_clean] at heq
  refine ⟨isAbsolute_ofComponents hproper _, hne, fun c hc => (h c hc).2, ?_⟩
  rw [cleanComponents, isAbsolute_ofComponents hproper, components_ofComponents hproper,
    resolve_append _ _ _ fun c hc => (h c hc).2, hclean]

/-- What stands behind the common beginning. -/
private theorem dropCommon_append (bs cs : List Text) : dropCommon bs (bs ++ cs) = ([], cs) := by
  induction bs with
  | nil => cases cs <;> rfl
  | cons b bs ih =>
    rw [List.cons_append, dropCommon, if_pos rfl, ih]

/-- The common beginning is all that is dropped. -/
private theorem append_of_dropCommon {bs ts us ds : List Text} (h : dropCommon bs ts = (us, ds)) :
    ∃ cs, bs = cs ++ us ∧ ts = cs ++ ds := by
  -- By induction on the base: equal components are dropped as long as there are any.
  induction bs generalizing ts with
  | nil =>
    cases h
    exact ⟨[], rfl, rfl⟩
  | cons b bs ih =>
    cases ts with
    | nil =>
      cases h
      exact ⟨[], rfl, rfl⟩
    | cons t ts =>
      rw [dropCommon] at h
      -- The first components are equal, so both are dropped, or they differ and all is kept.
      split at h
      · rename_i heq
        obtain ⟨cs, rfl, rfl⟩ := ih h
        exact ⟨b :: cs, rfl, by rw [heq]; rfl⟩
      · cases h
        exact ⟨[], rfl, rfl⟩

/-- The way to a path below a directory. -/
theorem rel?_of_below (hp : isAbsolute p = true) (h : Below dir p cs) :
    rel? dir p = some (Text.join [slash] cs) := by
  -- The path has more components than the directory.
  have hcomponents : components (clean dir) ≠ components (clean p) := by
    rw [components_clean, components_clean, h.names]
    exact fun heq => h.some (List.self_eq_append_right.1 heq)
  have hne : clean dir ≠ clean p := fun heq => hcomponents (by rw [heq])
  -- A path from the root is not the dot.
  have hdot : clean p ≠ (".": Text) := by
    intro heq
    have habsolute := isAbsolute_clean p
    rw [heq, hp] at habsolute
    exact absurd habsolute (by decide)
  -- Both are from the root, or both are not.
  have hrooted : (isAbsolute (clean dir) != isAbsolute (clean p)) = false := by
    rw [isAbsolute_clean, isAbsolute_clean, h.rooted, bne_self_eq_false]
  simp only [rel?, if_neg hne, hrooted, if_neg hdot, h.names, dropCommon_append]
  rfl

/-- The way to a path that is not below a directory leads up first, if there is one and it leads away
from the directory. -/
private theorem rel?_of_not_below (hp : isAbsolute p = true) (h : ∀ cs, ¬Below dir p cs) {r : Text}
    (hr : rel? dir p = some r) : r = (".": Text) ∨ up.isPrefixOf r = true := by
  simp only [rel?] at hr
  -- The directory itself is called by a dot.
  split at hr
  · exact .inl (Option.some.inj hr).symm
  · rename_i hne
    split at hr
    -- No way leads from a path of one kind to a path of the other.
    · exact nomatch hr
    · rename_i hrooted
      have habsolute : isAbsolute p = isAbsolute dir := by
        rw [Bool.not_eq_true, bne_eq_false_iff_eq, isAbsolute_clean, isAbsolute_clean] at hrooted
        exact hrooted.symm
      have hdot : clean p ≠ (".": Text) := by
        intro heq
        have hclean := isAbsolute_clean p
        rw [heq, hp] at hclean
        exact absurd hclean (by decide)
      rw [if_neg hdot] at hr
      -- What is left of both behind their common beginning.
      obtain ⟨us, ds, hdrop⟩ : ∃ us ds, dropCommon (cleanComponents dir) (cleanComponents p) = (us, ds) :=
        ⟨_, _, rfl⟩
      obtain ⟨cs, hdir, hpath⟩ := append_of_dropCommon hdrop
      rw [hdrop] at hr
      cases us with
      | nil =>
        -- Nothing of the directory is left, so the path is below it.
        rw [List.append_nil] at hdir
        have hsome : ds ≠ [] := by
          rintro rfl
          rw [List.append_nil] at hpath
          exact hne (by rw [clean, clean, habsolute, hdir, hpath])
        have hdown : ∀ d ∈ ds, d ≠ up := fun d hd =>
          (names_cleanComponents hp d (hpath ▸ List.mem_append_right cs hd)).2
        exact absurd ⟨habsolute, hsome, hdown, by rw [hpath, hdir]⟩ (h ds)
      -- Something of the directory is left, so the way leads up first.
      | cons u us =>
        right
        dsimp only at hr
        split at hr
        · exact nomatch hr
        · cases hr
          rw [List.isPrefixOf_iff_prefix, List.map_cons, List.cons_append]
          cases us.map (fun _ => up) ++ ds with
          | nil => exact List.prefix_refl _
          | cons v vs =>
            simp only [Text.join, List.append_assoc]
            exact List.prefix_append _ _

end Path

namespace Build

open AisScript.Path

variable {cwd base outDir p s t : Text} {cs : List Text}

/-- A file is called alike by all its paths. -/
theorem displayName_clean (hcwd : isAbsolute cwd = true) (base p : Text) :
    displayName cwd base (clean p) = displayName cwd base p := by
  simp only [displayName, clean_clean, absolute_clean hcwd]

/-! ## Sources and their names -/

/-- A source of a build: the cleaned path of a script, from the root. -/
structure IsSource (s : Text) : Prop where
  rooted : isAbsolute s = true
  cleaned : clean s = s
  script : s.endsWith sourceExt = true

/-- A path below the base directory, with the names that lead there. -/
def Inside (cwd base p : Text) (cs : List Text) : Prop :=
  base.trim ≠ [] ∧ Below (absolute cwd base.trim) p cs

/-- A path that is not below the base directory. -/
def Outside (cwd base p : Text) : Prop := ∀ cs, ¬Inside cwd base p cs

/-- A path in a folder of the base directory whose name begins with two dots. -/
def InDotted (cwd base p : Text) : Prop :=
  ∃ c d ds, Inside cwd base p (c :: d :: ds) ∧ up.isPrefixOf c = true

/-- A path that is not in a folder of the base directory. -/
def Flat (cwd base p : Text) : Prop := ∀ cs, Inside cwd base p cs → cs.length = 1

/-- The names behind as many as the base directory has. -/
def way (cwd base p : Text) : List Text :=
  (cleanComponents p).drop (cleanComponents (absolute cwd base.trim)).length

/-- They are the only ones that can lead from the base directory to a path. -/
private theorem Inside.eq_way (h : Inside cwd base p cs) : cs = way cwd base p := by
  rw [way, h.2.names, List.drop_left]

instance : Decidable (Inside cwd base p cs) := inferInstanceAs (Decidable (_ ∧ _))

instance : Decidable (Outside cwd base p) :=
  decidable_of_iff (¬Inside cwd base p (way cwd base p)) ⟨fun h _ hcs => h (hcs.eq_way ▸ hcs), fun h => h _⟩

instance : Decidable (Flat cwd base p) :=
  decidable_of_iff (Inside cwd base p (way cwd base p) → (way cwd base p).length = 1)
    ⟨fun h _ hcs => hcs.eq_way ▸ h (hcs.eq_way ▸ hcs), fun h => h _⟩

instance : Decidable (InDotted cwd base p) :=
  decidable_of_iff (Inside cwd base p (way cwd base p) ∧ 1 < (way cwd base p).length
      ∧ up.isPrefixOf (way cwd base p).head! = true) <| by
    constructor
    · rintro ⟨hinside, hlength, hdots⟩
      match hway : way cwd base p with
      | [] => simp [hway] at hlength
      | [_] => simp [hway] at hlength
      | c :: d :: ds => exact ⟨c, d, ds, hway ▸ hinside, by simpa [hway] using hdots⟩
    · rintro ⟨c, d, ds, hinside, hdots⟩
      rw [← hinside.eq_way]
      exact ⟨hinside, by simp, hdots⟩

/-- The name of an output. -/
private theorem names_output {f : Text} (h : slash ∉ f) : Proper (f ++ outputExt) ∧ f ++ outputExt ≠ up := by
  have hlength : (f ++ outputExt).length = f.length + 4 := List.length_append
  have hne : ∀ t : Text, t.length < 4 → f ++ outputExt ≠ t := by
    rintro t ht rfl
    omega
  refine ⟨⟨fun hmem => ?_, hne [] (by decide), hne _ (by decide)⟩, hne _ (by decide)⟩
  rcases List.mem_append.1 hmem with hmem | hmem
  · exact h hmem
  · exact absurd hmem (by decide)

/-- A source by its directory and its name, which its output shares but for the ending. -/
structure Named (s : Text) (front : List Text) (f : Text) : Prop where
  source : s = ofComponents true (front ++ [f ++ sourceExt])
  sourceNames : Names (front ++ [f ++ sourceExt])
  output : trimEnd s sourceExt ++ outputExt = ofComponents true (front ++ [f ++ outputExt])
  outputNames : Names (front ++ [f ++ outputExt])

/-- Every source is a name in a directory. -/
theorem IsSource.named (h : IsSource s) : ∃ front f, Named s front f := by
  -- A source is given by its cleaned components, and the last of them carries the ending.
  have hnames := names_cleanComponents h.rooted
  have hs : s = ofComponents true (cleanComponents s) := by
    rw [← h.rooted]
    exact h.cleaned.symm
  have hscript := Text.endsWith_iff.1 h.script
  rcases List.eq_nil_or_concat (cleanComponents s) with hnil | ⟨ds, c, hcs⟩
  -- Without components, the path is the root, which has no ending.
  · rw [hs, hnil] at hscript
    exact absurd hscript (by decide)
  · rw [List.concat_eq_append] at hcs
    rw [hcs] at hs hnames
    obtain ⟨dir, hdir⟩ := ofComponents_concat ds
    have hslash : slash ∉ c := (hnames c (List.mem_append_right _ List.mem_cons_self)).1.1
    -- The ending is one of the component, or it begins with its separator, or it holds it; and it has no
    -- separator, so it belongs to the last component.
    obtain ⟨f, rfl⟩ : sourceExt <:+ c := by
      rw [hs, hdir] at hscript
      rcases List.suffix_or_suffix_of_suffix hscript (List.suffix_append dir (slash :: c)) with hext | hext
      · rcases List.suffix_cons_iff.1 hext with heq | hext
        · have hhead : sourceExt.head? ≠ some slash := by decide
          exact absurd (congrArg List.head? heq) hhead
        · exact hext
      · exact absurd (hext.subset List.mem_cons_self) (by decide)
    refine ⟨ds, f, ⟨hs, hnames, ?_, fun d hd => ?_⟩⟩
    -- Without its ending, the path leads to the name in the same directory.
    · have happend : s = (dir ++ slash :: f) ++ sourceExt := by
        rw [hs, hdir]
        simp
      rw [trimEnd, if_pos h.script, hdir, happend, List.length_append, Nat.add_sub_cancel, List.take_left]
      simp
    -- The component of the output is a name too.
    · rcases List.mem_append.1 hd with hd | hd
      · exact hnames d (List.mem_append_left _ hd)
      · rw [List.mem_singleton.1 hd]
        exact names_output fun hmem => hslash (List.mem_append_left _ hmem)

/-! ## Names in progress -/

/-- Two dots begin joined components exactly if they begin the first one. -/
private theorem up_isPrefixOf_join {c : Text} :
    up.isPrefixOf (Text.join [slash] (c :: cs)) = up.isPrefixOf c := by
  -- If there is only one component, it is the joined text.
  rw [Bool.eq_iff_iff, List.isPrefixOf_iff_prefix, List.isPrefixOf_iff_prefix]
  cases cs with
  | nil => rfl
  | cons d ds =>
    have hjoin : Text.join [slash] (c :: d :: ds) = c ++ [slash] ++ Text.join [slash] (d :: ds) := rfl
    rw [hjoin]
    constructor
    -- The two dots end inside the first component, or with the separator, or behind it.
    · intro h
      rcases List.prefix_or_prefix_of_prefix h (List.prefix_append (c ++ [slash]) _) with h | h
      · rcases List.prefix_concat_iff.1 h with heq | h
        · have hlast : slash ∈ up := heq ▸ List.mem_append_right _ List.mem_cons_self
          exact absurd hlast (by decide)
        · exact h
      · exact absurd (h.subset (List.mem_append_right _ List.mem_cons_self)) (by decide)
    -- The first component begins the joined text.
    · intro h
      rw [List.append_assoc]
      exact h.trans (List.prefix_append _ _)

/-- A path below the base directory is called by the names that lead there, unless the first of them
begins with two dots. -/
private theorem displayName_of_inside (hp : isAbsolute p = true) (hcleaned : clean p = p) {c : Text}
    (h : Inside cwd base p (c :: cs)) (hdots : up.isPrefixOf c = false) :
    displayName cwd base p = Text.join [slash] (c :: cs) := by
  -- A path from the root stays as it is.
  have habsolute : absolute cwd p = p := by rw [absolute, if_pos hp, hcleaned]
  -- The way has components, and the dot has none.
  have hne : Text.join [slash] (c :: cs) ≠ (".": Text) := by
    intro heq
    have hcomponents := components_ofComponents (fun d hd => (h.2.proper d hd).1) false
    change components (Text.join [slash] (c :: cs)) = c :: cs at hcomponents
    rw [heq] at hcomponents
    have hdot : components (".": Text) = [] := by decide
    exact List.cons_ne_nil c cs (hcomponents.symm.trans hdot)
  have hbase : base.trim.isEmpty = false := List.isEmpty_eq_false_iff.2 h.1
  -- So the way is taken as the name.
  simp only [displayName, hbase, habsolute, rel?_of_below hp h.2, up_isPrefixOf_join, hdots]
  simp [hne]

/-- Any other path is called by itself. -/
private theorem displayName_of_not_inside (hp : isAbsolute p = true) (hcleaned : clean p = p)
    (h : ∀ c cs, Inside cwd base p (c :: cs) → up.isPrefixOf c = true) : displayName cwd base p = p := by
  have habsolute : absolute cwd p = p := by rw [absolute, if_pos hp, hcleaned]
  simp only [displayName]
  -- Is there a base directory?
  split
  · exact hcleaned
  · rename_i hbase
    have hbase : base.trim ≠ [] := fun heq => hbase (List.isEmpty_iff.2 heq)
    rw [habsolute]
    -- Is there a way to the path?
    split
    · rename_i rel hrel
      -- A way that is taken would lead down, to a name that does not begin with two dots.
      have haway : rel = (".": Text) ∨ up.isPrefixOf rel = true := by
        -- A path below the base directory has a way of at least one component.
        by_cases hbelow : ∃ cs, Below (absolute cwd base.trim) p cs
        · obtain ⟨cs, hcs⟩ := hbelow
          rw [rel?_of_below hp hcs] at hrel
          cases hrel
          cases cs with
          | nil => exact absurd rfl hcs.some
          | cons c cs =>
            rw [up_isPrefixOf_join]
            exact .inr (h c cs ⟨hbase, hcs⟩)
        · exact rel?_of_not_below hp (not_exists.1 hbelow) hrel
      rcases haway with haway | haway <;> simp [haway]
    · rfl

/-! ## Outputs -/

/-- A path of names below another one. -/
private theorem join_ofNames {x : Text} (hout : outDir ≠ []) (hcs : Names cs) (h : components x = cs) :
    join outDir x = ofComponents (isAbsolute outDir) (cleanComponents outDir ++ cs) := by
  rw [join_eq hout, h, resolve_append _ _ _ fun c hc => (hcs c hc).2]
  rfl

/-- A path from the root with a name at its end is below the directories that begin it. -/
private theorem below_concat_iff {dir a : Text} {front : List Text} (h : Names (front ++ [a])) :
    Below dir (ofComponents true (front ++ [a])) cs
      ↔ isAbsolute dir = true ∧ ∃ ds, cs = ds ++ [a] ∧ front = cleanComponents dir ++ ds := by
  -- Joined and split again, the components are the same.
  have hclean := cleanComponents_ofComponents h true
  constructor
  -- If it is below, then the last component is the last one of the way.
  · rintro ⟨hrooted, hsome, _, hnames⟩
    refine ⟨hrooted.symm, ?_⟩
    rcases List.eq_nil_or_concat cs with hnil | ⟨ds, c, hcs⟩
    · exact absurd hnil hsome
    · rw [List.concat_eq_append] at hcs
      rw [hclean, hcs, ← List.append_assoc] at hnames
      obtain ⟨hfront, hlast⟩ := List.append_inj' hnames rfl
      cases hlast
      exact ⟨ds, hcs, hfront⟩
  -- If the way begins behind the directory, then it leads to the path.
  · rintro ⟨hrooted, ds, rfl, rfl⟩
    rw [List.append_assoc] at h
    exact ⟨hrooted.symm, by simp, fun c hc => (h c (List.mem_append_right _ hc)).2,
      by rw [hclean, List.append_assoc]⟩

/-- The last component of a path with a name at its end. -/
private theorem base_ofComponents {front : List Text} {c : Text} (h : Names (front ++ [c])) :
    Path.base (ofComponents true (front ++ [c])) = c := by
  obtain ⟨dir, hdir⟩ := ofComponents_concat front
  rw [hdir]
  exact base_append dir (h c (List.mem_append_right _ List.mem_cons_self)).1

namespace Named

variable {front ds : List Text} {f : Text}

/-- The name of a source. -/
private theorem base_eq (h : Named s front f) : Path.base s = f ++ sourceExt :=
  h.source ▸ base_ofComponents h.sourceNames

/-- The name of its output. -/
private theorem lastName (h : Named s front f) : Names [f ++ outputExt] :=
  fun c hc => h.outputNames c (List.mem_append_right _ hc)

/-- The output next to a source is a cleaned path. -/
private theorem clean_output (h : Named s front f) :
    clean (ofComponents true (front ++ [f ++ outputExt])) = ofComponents true (front ++ [f ++ outputExt]) := by
  rw [clean, cleanComponents_ofComponents h.outputNames]
  rfl

/-- A source and the output next to it are below the same directories. -/
private theorem inside_output_iff (h : Named s front f) :
    Inside cwd base (ofComponents true (front ++ [f ++ outputExt])) cs
      ↔ ∃ ds, cs = ds ++ [f ++ outputExt] ∧ Inside cwd base s (ds ++ [f ++ sourceExt]) := by
  -- Both are below the directories that begin with their common front.
  rw [Inside, below_concat_iff h.outputNames]
  constructor
  -- If the output is inside, then so is the source, with its own name at the end.
  · rintro ⟨hbase, hrooted, ds, rfl, hfront⟩
    refine ⟨ds, rfl, hbase, ?_⟩
    rw [h.source, below_concat_iff h.sourceNames]
    exact ⟨hrooted, ds, rfl, hfront⟩
  -- If the source is inside, then so is the output.
  · rintro ⟨ds, rfl, hbase, hbelow⟩
    rw [h.source, below_concat_iff h.sourceNames] at hbelow
    obtain ⟨hrooted, es, heq, hfront⟩ := hbelow
    cases List.append_inj_left' heq rfl
    exact ⟨hbase, hrooted, ds, rfl, hfront⟩

/-- The names to a source end with its own. -/
private theorem of_inside (h : Named s front f) (hcs : Inside cwd base s cs) :
    ∃ ds, cs = ds ++ [f ++ sourceExt] := by
  obtain ⟨_, hbelow⟩ := hcs
  rw [h.source, below_concat_iff h.sourceNames] at hbelow
  obtain ⟨_, ds, rfl, _⟩ := hbelow
  exact ⟨ds, rfl⟩

/-- An output that is not called by a way to it stands directly in the output directory. -/
private theorem outputPath_of_flat (h : Named s front f) (hout : outDir ≠ [])
    (hflat : ∀ c cs, Inside cwd base (ofComponents true (front ++ [f ++ outputExt])) (c :: cs) →
      up.isPrefixOf c = true) :
    outputPath cwd s outDir base
      = ofComponents (isAbsolute outDir) (cleanComponents outDir ++ [f ++ outputExt]) := by
  have hout' : outDir.isEmpty = false := List.isEmpty_eq_false_iff.2 hout
  have hdisplay := displayName_of_not_inside rfl h.clean_output hflat
  have hrooted : isAbsolute (ofComponents true (front ++ [f ++ outputExt])) = true := rfl
  simp only [outputPath, h.output, hdisplay, hout', hrooted, base_ofComponents h.outputNames, if_true,
    Bool.false_eq_true, if_false]
  exact join_ofNames hout h.lastName (components_ofComponents (fun c hc => (h.lastName c hc).1) false)

/-- An output that is called by the way to it stands there below the output directory. -/
private theorem outputPath_of_inside (h : Named s front f) (hout : outDir ≠ []) {c : Text}
    (hcs : Inside cwd base (ofComponents true (front ++ [f ++ outputExt])) (c :: cs))
    (hdots : up.isPrefixOf c = false) :
    outputPath cwd s outDir base
      = ofComponents (isAbsolute outDir) (cleanComponents outDir ++ (c :: cs)) := by
  -- What is inside has proper names only.
  have hproper := hcs.2.proper
  have hout' : outDir.isEmpty = false := List.isEmpty_eq_false_iff.2 hout
  have hdisplay := displayName_of_inside rfl h.clean_output hcs hdots
  -- The name of the path is relative, so it is put behind the output directory.
  have hrel : isAbsolute (Text.join [slash] (c :: cs)) = false :=
    isAbsolute_ofComponents (fun d hd => (hproper d hd).1) false
  have hcomponents : components (Text.join [slash] (c :: cs)) = c :: cs :=
    components_ofComponents (fun d hd => (hproper d hd).1) false
  simp only [outputPath, h.output, hdisplay, hout', hrel, Bool.false_eq_true, if_false]
  exact join_ofNames hout hproper hcomponents

end Named

/-- The output of a source stands at the place below the output directory that the source has below the base
directory, and directly in the output directory if the source has no such place or is in a folder whose
name begins with two dots. -/
theorem outputPath_eq (cwd base : Text) (hout : outDir ≠ []) (h : IsSource s) : ∃ ds f,
    Names (ds ++ [f ++ outputExt])
    ∧ outputPath cwd s outDir base
        = ofComponents (isAbsolute outDir) (cleanComponents outDir ++ (ds ++ [f ++ outputExt]))
    ∧ Path.base s = f ++ sourceExt
    ∧ (Inside cwd base s (ds ++ [f ++ sourceExt])
        ∨ ds = [] ∧ (Outside cwd base s ∨ InDotted cwd base s)) := by
  obtain ⟨front, f, h⟩ := h.named
  -- Is the source below the base directory?
  by_cases hplace : ∃ ds, Inside cwd base s (ds ++ [f ++ sourceExt])
  case neg =>
    -- It is not, so it is from elsewhere, and so is its output.
    have houtside : Outside cwd base s := by
      intro cs hcs
      obtain ⟨ds, rfl⟩ := h.of_inside hcs
      exact hplace ⟨ds, hcs⟩
    refine ⟨[], f, h.lastName, h.outputPath_of_flat hout ?_, h.base_eq, .inr ⟨rfl, .inl houtside⟩⟩
    intro c cs hcs
    obtain ⟨ds, _, hds⟩ := h.inside_output_iff.1 hcs
    exact absurd ⟨ds, hds⟩ hplace
  case pos =>
    -- It is, so its output is below it too, at the place of the same folders.
    obtain ⟨ds, hds⟩ := hplace
    have hds' := h.inside_output_iff.2 ⟨ds, rfl, hds⟩
    obtain ⟨c, cs, hcs⟩ := List.exists_cons_of_ne_nil hds'.2.some
    rw [hcs] at hds'
    -- Does the way begin with two dots?
    by_cases hdots : up.isPrefixOf c = true
    -- It does not, so the output keeps its folders.
    case neg =>
      exact ⟨ds, f, hcs ▸ hds'.2.proper, hcs ▸ h.outputPath_of_inside hout hds' (Bool.not_eq_true _ ▸ hdots),
        h.base_eq, .inl hds⟩
    -- It does, so the output is called by itself and its folders are lost.
    case pos =>
      have hflat := h.outputPath_of_flat hout fun d es (hes : Inside cwd base _ _) => by
        cases hes.2.unique hds'.2
        exact hdots
      refine ⟨[], f, h.lastName, hflat, h.base_eq, ?_⟩
      -- The source stands in the base directory, or in a folder that begins with two dots.
      cases ds with
      | nil => exact .inl hds
      | cons d ds =>
        obtain ⟨rfl, rfl⟩ : d = c ∧ ds ++ [f ++ outputExt] = cs := by simpa using hcs
        obtain ⟨e, es, hes⟩ : ∃ e es, ds ++ [f ++ sourceExt] = e :: es :=
          List.exists_cons_of_ne_nil (by simp)
        rw [List.cons_append, hes] at hds
        exact .inr ⟨rfl, .inr ⟨d, e, es, hds, hdots⟩⟩

/-- Outputs stand below the output directory. -/
private theorem below_outputPath (cwd base : Text) (hout : outDir ≠ []) (h : IsSource s) :
    ∃ cs, Below outDir (outputPath cwd s outDir base) cs := by
  obtain ⟨ds, f, hnames, heq, _⟩ := outputPath_eq cwd base hout h
  exact ⟨_, heq ▸ below_ofComponents (by simp) hnames⟩

/-- Two sources share an output exactly if they share their name and one of them is from elsewhere, the other
one too or directly in the base directory. -/
private theorem outputPath_eq_iff (cwd base : Text) (hout : outDir ≠ []) (hs : IsSource s) (ht : IsSource t)
    (hne : s ≠ t) (hsdots : ¬InDotted cwd base s) (htdots : ¬InDotted cwd base t) :
    outputPath cwd s outDir base = outputPath cwd t outDir base
      ↔ Path.base s = Path.base t
        ∧ (Outside cwd base s ∧ Flat cwd base t ∨ Flat cwd base s ∧ Outside cwd base t) := by
  -- Each output has its folders and its name.
  obtain ⟨ds, f, hsnames, hsout, hsname, hsplace⟩ := outputPath_eq cwd base hout hs
  obtain ⟨es, g, htnames, htout, htname, htplace⟩ := outputPath_eq cwd base hout ht
  -- Both outputs are below the output directory, so they are equal if the ways are.
  have houtput : outputPath cwd s outDir base = outputPath cwd t outDir base ↔ ds = es ∧ f = g := by
    constructor
    · intro heq
      have hbelow := (below_ofComponents (by simp) hsnames : Below outDir _ _).unique
        (hsout ▸ heq ▸ htout ▸ below_ofComponents (by simp) htnames)
      obtain ⟨rfl, heq⟩ := List.append_inj' hbelow rfl
      exact ⟨rfl, List.append_cancel_right (List.singleton_inj.1 heq)⟩
    · rintro ⟨rfl, rfl⟩
      rw [hsout, htout]
  -- The sources have the same ending.
  have hname : Path.base s = Path.base t ↔ f = g := by
    rw [hsname, htname]
    exact ⟨List.append_cancel_right, fun heq => heq ▸ rfl⟩
  rw [houtput, hname, and_comm]
  refine and_congr_right fun hfg => ?_
  subst hfg
  -- A source in the base directory has no folders.
  have hflat : ∀ {p : Text} {ds : List Text}, Inside cwd base p (ds ++ [f ++ sourceExt]) →
      (Flat cwd base p ↔ ds = []) := by
    intro p ds hp
    constructor
    · intro hflat
      simpa using hflat _ hp
    · rintro rfl cs hcs
      rw [hcs.2.unique hp.2]
      rfl
  -- For each source: is it inside, from elsewhere, or in a folder that begins with two dots?
  rcases hsplace with hsin | ⟨rfl, hsout | hdots⟩
  · rcases htplace with htin | ⟨rfl, htout | hdots⟩
    · -- Two sources in one place are the same.
      have hsame : ds ≠ es := by
        rintro rfl
        exact hne (eq_of_cleanComponents hs.rooted ht.rooted hs.cleaned ht.cleaned
          (hsin.2.names.trans htin.2.names.symm))
      exact ⟨fun heq => absurd heq hsame,
        fun h => h.elim (fun h => absurd hsin (h.1 _)) fun h => absurd htin (h.2 _)⟩
    -- One is inside, the other from elsewhere: the one inside has to be flat.
    · exact (hflat hsin).symm.trans
        ⟨fun h => .inr ⟨h, htout⟩, fun h => h.elim (fun h => absurd hsin (h.1 _)) And.left⟩
    · exact absurd hdots htdots
  · rcases htplace with htin | ⟨rfl, htout | hdots⟩
    -- The same, the other way around.
    · exact eq_comm.trans ((hflat htin).symm.trans
        ⟨fun h => .inl ⟨hsout, h⟩, fun h => h.elim And.right fun h => absurd htin (h.2 _)⟩)
    -- Both are from elsewhere, so both are flat.
    · exact ⟨fun _ => .inl ⟨hsout, fun cs hcs => absurd hcs (htout cs)⟩, fun _ => rfl⟩
    · exact absurd hdots htdots
  · exact absurd hdots hsdots

/-- Outputs stand below the output directory, and they are pairwise different unless a source from elsewhere
shares its name with another one from elsewhere or directly in the base directory. -/
theorem outputPath_nodup_iff (cwd base : Text) (hout : outDir ≠ []) {srcs : List Text}
    (hsrcs : ∀ s ∈ srcs, IsSource s) (hne : srcs.Nodup) :
    (∀ s ∈ srcs, ∃ cs, Below outDir (outputPath cwd s outDir base) cs)
      ∧ ((∀ s ∈ srcs, ¬InDotted cwd base s) →
        ((srcs.map fun s => outputPath cwd s outDir base).Nodup
          ↔ ∀ s ∈ srcs, ∀ t ∈ srcs, s ≠ t → Outside cwd base s → Flat cwd base t →
            Path.base s ≠ Path.base t)) := by
  -- What is left is about pairs of different sources.
  refine ⟨fun s hs => below_outputPath cwd base hout (hsrcs s hs), fun hdots => ?_⟩
  rw [List.nodup_map_iff_inj_on hne]
  constructor
  -- If the outputs are different, then no two sources share one.
  · intro hinj s hs t ht hst houtside hflat hname
    exact hst (hinj s hs t ht ((outputPath_eq_iff cwd base hout (hsrcs s hs) (hsrcs t ht) hst (hdots s hs)
      (hdots t ht)).2 ⟨hname, .inl ⟨houtside, hflat⟩⟩))
  -- If two sources share an output, then one of them is from elsewhere and the other one flat.
  · intro hnames s hs t ht heq
    refine Decidable.byContradiction fun hst => ?_
    obtain ⟨hname, ⟨houtside, hflat⟩ | ⟨hflat, houtside⟩⟩ := (outputPath_eq_iff cwd base hout (hsrcs s hs)
      (hsrcs t ht) hst (hdots s hs) (hdots t ht)).1 heq
    · exact hnames s hs t ht hst houtside hflat hname
    · exact hnames t ht s hs (Ne.symm hst) houtside hflat hname.symm

/-- Sources below the base directory keep their folders, and one from elsewhere has a name of its own. -/
theorem outputPath_nodup_of_nested :
    let srcs : List Text := ["/p/a/x.redux", "/p/b/x.redux", "/q/y.redux"]
    (∀ s ∈ srcs, ∃ cs, Below "out" (outputPath "/home" s "out" "/p") cs)
      ∧ (srcs.map fun s => outputPath "/home" s "out" "/p").Nodup := by
  intro srcs
  have hsrcs : ∀ s ∈ srcs, IsSource s := by
    intro s hs
    have hcases : s = "/p/a/x.redux" ∨ s = "/p/b/x.redux" ∨ s = "/q/y.redux" := by simpa [srcs] using hs
    rcases hcases with rfl | rfl | rfl <;> exact ⟨by decide, by decide, by decide⟩
  have hout : ("out" : Text) ≠ [] := by decide
  obtain ⟨hbelow, hnodup⟩ := outputPath_nodup_iff "/home" "/p" hout hsrcs (by decide)
  exact ⟨hbelow, (hnodup (by decide +kernel)).2 (by decide +kernel)⟩

/-- Two sources from elsewhere with one name have one output. -/
theorem outputPath_eq_of_outside :
    ¬∀ (cwd base outDir : Text) (srcs : List Text), outDir ≠ [] → (∀ s ∈ srcs, IsSource s) → srcs.Nodup →
      (srcs.map fun s => outputPath cwd s outDir base).Nodup
        ∧ ∀ s ∈ srcs, ∃ cs, Below outDir (outputPath cwd s outDir base) cs := by
  intro h
  have hsource : ∀ s ∈ (["/a/x.redux", "/b/x.redux"] : List Text), IsSource s := by
    intro s hs
    rcases List.mem_cons.1 hs with rfl | hs
    · exact ⟨by decide, by decide, by decide⟩
    · rw [List.mem_singleton.1 hs]
      exact ⟨by decide, by decide, by decide⟩
  exact absurd (h "/home" "/p" "/o" _ (by decide) hsource (by decide)).1 (by decide +kernel)

end Build

end AisScript
