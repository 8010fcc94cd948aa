import AisScript.Disk

/-!
# Cleaned paths

A cleaned path has components that say something, leads up only in front, and leads to a place that depends
on the working directory alone, never on what the disk holds.

* `Path.components_clean`   the components of a cleaned path
* `Path.clean_clean`        cleaning a path leaves nothing to clean
* `Disk.walk`               where components lead when nothing stands in the way
* `Path.absolute_eq`        the absolute path of a path spells the place it leads to
-/

namespace AisScript

/-! ## Cutting and gluing -/

namespace Text

/-- Cutting gives at least one part. -/
private theorem split_ne_nil (sep : UInt8) (t : Text) : split sep t ≠ [] := by
  cases t with
  | nil => simp [split]
  | cons b t =>
    simp only [split]
    split
    · simp
    · split <;> simp

/-- Cutting at a separator between two texts. -/
private theorem split_append (sep : UInt8) (s t : Text) :
    split sep (s ++ sep :: t) = split sep s ++ split sep t := by
  induction s with
  | nil => simp [split]
  | cons b s ih =>
    simp only [List.cons_append, split, ih]
    by_cases hb : b = sep
    · simp [hb]
    · simp only [hb, if_false]
      cases hs : split sep s with
      | nil => exact absurd hs (split_ne_nil sep s)
      | cons p ps => simp

/-- A text without the separator stays whole. -/
private theorem split_of_not_mem {sep : UInt8} {t : Text} (h : sep ∉ t) : split sep t = [t] := by
  induction t with
  | nil => rfl
  | cons b t ih =>
    rw [List.mem_cons, not_or] at h
    have hb : b ≠ sep := fun heq => h.1 heq.symm
    simp only [split, hb, if_false, ih h.2]

/-- No part holds the separator. -/
private theorem not_mem_of_mem_split {sep : UInt8} {t p : Text} (h : p ∈ split sep t) : sep ∉ p := by
  -- Byte by byte: a separator opens a new part, any other byte joins the first one.
  induction t generalizing p with
  | nil =>
    simp only [split, List.mem_singleton] at h
    simp [h]
  | cons b t ih =>
    simp only [split] at h
    by_cases hb : b = sep
    · simp only [hb, if_true, List.mem_cons] at h
      rcases h with rfl | h
      · simp
      · exact ih h
    · simp only [hb, if_false] at h
      cases hs : split sep t with
      | nil => exact absurd hs (split_ne_nil sep t)
      | cons q qs =>
        simp only [hs, List.mem_cons] at h
        -- The byte joins the first part; it is no separator, and neither is any other byte there.
        rcases h with rfl | h
        · have hq : sep ∉ q := ih (by rw [hs]; exact List.mem_cons_self)
          simp only [List.mem_cons, not_or]
          exact ⟨fun heq => hb heq.symm, hq⟩
        -- The other parts are those of the rest.
        · exact ih (by rw [hs]; exact List.mem_cons_of_mem q h)

/-- Cutting undoes gluing. -/
private theorem split_join {sep : UInt8} {ts : List Text} (hne : ts ≠ []) (h : ∀ t ∈ ts, sep ∉ t) :
    split sep (join [sep] ts) = ts := by
  induction ts with
  | nil => exact absurd rfl hne
  | cons t ts ih =>
    have ht : sep ∉ t := h t List.mem_cons_self
    cases ts with
    | nil => exact split_of_not_mem ht
    | cons u us =>
      have hjoin : join [sep] (t :: u :: us) = t ++ sep :: join [sep] (u :: us) := by
        simp [join]
      rw [hjoin, split_append, split_of_not_mem ht, ih nofun fun v hv => h v (List.mem_cons_of_mem t hv)]
      rfl

end Text

/-! ## Cleaned paths -/

namespace Path

/-- A component that says something. -/
def Proper (c : Text) : Prop := slash ∉ c ∧ c ≠ [] ∧ c ≠ (".": Text)

/-- The components of a path say something. -/
private theorem proper_of_mem_components {p c : Text} (h : c ∈ components p) : Proper c := by
  obtain ⟨hmem, hkeep⟩ := List.mem_filter.1 h
  simp only [Bool.and_eq_true, Bool.not_eq_true', List.isEmpty_eq_false_iff, bne_iff_ne] at hkeep
  exact ⟨Text.not_mem_of_mem_split hmem, hkeep.1, hkeep.2⟩

/-- Components that say something are all kept. -/
private theorem filter_proper {cs : List Text} (h : ∀ c ∈ cs, Proper c) :
    cs.filter (fun c => !c.isEmpty && c != (".": Text)) = cs := by
  refine List.filter_eq_self.2 fun c hc => ?_
  obtain ⟨_, hne, hdot⟩ := h c hc
  simp only [Bool.and_eq_true, Bool.not_eq_true', List.isEmpty_eq_false_iff, bne_iff_ne]
  exact ⟨hne, hdot⟩

/-- The components of two paths with a separator between them. -/
theorem components_append (p q : Text) : components (p ++ slash :: q) = components p ++ components q := by
  rw [components, Text.split_append, List.filter_append]
  rfl

/-- The components of a path that was put together from them. -/
theorem components_ofComponents {cs : List Text} (h : ∀ c ∈ cs, Proper c) (rooted : Bool) :
    components (ofComponents rooted cs) = cs := by
  -- What is joined by separators is split at them, and proper components are not dropped.
  have hjoin : cs ≠ [] → components (Text.join [slash] cs) = cs := by
    intro hne
    rw [components, Text.split_join hne fun c hc => (h c hc).1]
    exact filter_proper h
  cases rooted with
  | true =>
    -- A rooted path has an empty part in front, which is dropped.
    have hroot : ofComponents true cs = [] ++ slash :: Text.join [slash] cs := rfl
    rw [hroot, components_append]
    cases cs with
    | nil => rfl
    | cons c cs =>
      rw [hjoin nofun]
      rfl
  | false =>
    cases cs with
    | nil => decide
    | cons c cs => exact hjoin nofun

/-- Resolving brings in nothing but components that lead up. -/
private theorem mem_resolve {rooted : Bool} {done cs : List Text} {c : Text}
    (h : c ∈ resolve rooted done cs) : c ∈ done ∨ c ∈ cs ∨ c = up := by
  -- Along the components, with those that are done in reverse.
  induction cs generalizing done with
  | nil => exact .inl (List.mem_reverse.1 h)
  | cons d cs ih =>
    unfold resolve at h
    -- A component that leads up is dropped, stays, or takes another one with it.
    by_cases hd : d = up
    · rw [if_pos hd] at h
      cases done with
      | nil =>
        -- At the root there is nothing to leave; elsewhere the component stays.
        cases rooted with
        | true => exact (ih h).imp_right fun h => h.imp_left (List.mem_cons_of_mem d)
        | false =>
          rcases ih h with h | h | h
          · exact .inr (.inr (List.mem_singleton.1 h))
          · exact .inr (.inl (List.mem_cons_of_mem d h))
          · exact .inr (.inr h)
      | cons e es =>
        simp only at h
        -- The last component led up itself and stays, or it is left.
        split at h
        · rcases ih h with h | h | h
          · rcases List.mem_cons.1 h with h | h
            · exact .inr (.inr h)
            · exact .inl h
          · exact .inr (.inl (List.mem_cons_of_mem d h))
          · exact .inr (.inr h)
        · rcases ih h with h | h | h
          · exact .inl (List.mem_cons_of_mem e h)
          · exact .inr (.inl (List.mem_cons_of_mem d h))
          · exact .inr (.inr h)
    -- A name is added to those that are done.
    · rw [if_neg hd] at h
      rcases ih h with h | h | h
      · rcases List.mem_cons.1 h with rfl | h
        · exact .inr (.inl List.mem_cons_self)
        · exact .inl h
      · exact .inr (.inl (List.mem_cons_of_mem d h))
      · exact .inr (.inr h)

/-- The components of a cleaned path say something. -/
theorem proper_of_mem_cleanComponents {p c : Text} (h : c ∈ cleanComponents p) : Proper c := by
  rcases mem_resolve h with h | h | rfl
  · cases h
  · exact proper_of_mem_components h
  · exact ⟨by decide, by decide, by decide⟩

/-- The components of a cleaned path. -/
theorem components_clean (p : Text) : components (clean p) = cleanComponents p :=
  components_ofComponents (fun _ => proper_of_mem_cleanComponents) _

/-- A path that was put together from components begins at the root if it was rooted there. -/
theorem isAbsolute_ofComponents {cs : List Text} (h : ∀ c ∈ cs, Proper c) (rooted : Bool) :
    isAbsolute (ofComponents rooted cs) = rooted := by
  cases rooted with
  | true => rfl
  | false =>
    cases cs with
    | nil => rfl
    | cons c cs =>
      -- The first byte belongs to a component, which has no separator.
      obtain ⟨hslash, hne, _⟩ := h c List.mem_cons_self
      cases c with
      | nil => exact absurd rfl hne
      | cons b c =>
        have hb : b ≠ slash := fun heq => hslash (by rw [heq]; exact List.mem_cons_self)
        have hhead : isAbsolute (ofComponents false ((b :: c) :: cs)) = (b == slash) := by
          cases cs <;> rfl
        rw [hhead]
        exact beq_false_of_ne hb

/-- A cleaned path begins at the root exactly if the path does. -/
theorem isAbsolute_clean (p : Text) : isAbsolute (clean p) = isAbsolute p :=
  isAbsolute_ofComponents (fun _ => proper_of_mem_cleanComponents) _

/-- Components that do not lead up are resolved to themselves. -/
theorem resolve_append (rooted : Bool) (done cs : List Text) {ds : List Text} (h : ∀ d ∈ ds, d ≠ up) :
    resolve rooted done (cs ++ ds) = resolve rooted done cs ++ ds := by
  -- Along the components in front; those behind do not lead up.
  induction cs generalizing done with
  | nil =>
    induction ds generalizing done with
    | nil => simp [resolve]
    | cons d ds ih =>
      have hd : d ≠ up := h d List.mem_cons_self
      have hds := ih (fun e he => h e (List.mem_cons_of_mem d he)) (d :: done)
      simp only [List.nil_append] at hds ⊢
      -- A name is put to those that are done.
      unfold resolve
      rw [if_neg hd, hds]
      simp [resolve]
  | cons c cs ih =>
    -- Each branch goes on with the same components behind.
    simp only [List.cons_append, resolve]
    split
    · split
      · split <;> exact ih _
      · split <;> exact ih _
    · exact ih _

end Path

/-! ## Where paths lead -/

namespace Disk

/-- Where components lead from a place when everything passed through is a folder. -/
def walk : (place : List Text) → List Text → List Text
  | place, [] => place
  | place, c :: cs => if c = Path.up then walk place.dropLast cs else walk (place ++ [c]) cs

/-- Components one behind the other. -/
theorem walk_append (place cs ds : List Text) : walk place (cs ++ ds) = walk (walk place cs) ds := by
  induction cs generalizing place with
  | nil => rfl
  | cons c cs ih =>
    simp only [List.cons_append, walk]
    split <;> exact ih _

/-- Following components leads where walking leads, if it leads anywhere. -/
private theorem walk_of_follow {d : Disk} {place cs q : List Text} (h : d.follow place cs = .ok q) :
    q = walk place cs := by
  -- Both take one component after the other.
  induction cs generalizing place with
  | nil =>
    cases h
    rfl
  | cons c cs ih =>
    -- The place has to exist and to be a directory.
    rw [follow] at h
    split at h
    · exact nomatch h
    · exact nomatch h
    · rw [walk]
      -- Up leads to the directory around, in both.
      split at h
      · rename_i hup
        rw [if_pos hup]
        exact ih h
      · rename_i hup
        rw [if_neg hup]
        split at h
        · exact nomatch h
        · exact ih h

/-- The place of a path, if it leads anywhere. -/
theorem walk_of_locate {d : Disk} {p : Text} {q : List Text} (h : d.locate p = .ok q) :
    q = walk (if Path.isAbsolute p then [] else Path.cleanComponents d.cwd) (Path.components p) := by
  unfold locate at h
  split at h
  · exact nomatch h
  · split at h
    · exact nomatch h
    · split at h
      · exact nomatch h
      · exact walk_of_follow h

end Disk

/-! ## Places of absolute paths -/

namespace Disk

/-- Where a path leads from a working directory, if nothing stands in the way. -/
def aim (cwd p : Text) : List Text :=
  walk (if Path.isAbsolute p then [] else Path.cleanComponents cwd) (Path.components p)

/-- One step up. -/
private theorem walk_up (place cs : List Text) : walk place (Path.up :: cs) = walk place.dropLast cs := by
  rw [walk, if_pos rfl]

/-- One step down. -/
private theorem walk_name (place : List Text) {c : Text} (h : c ≠ Path.up) (cs : List Text) :
    walk place (c :: cs) = walk (place ++ [c]) cs := by
  rw [walk, if_neg h]

/-- Walking down. -/
private theorem walk_names (place : List Text) {cs : List Text} (h : Path.up ∉ cs) :
    walk place cs = place ++ cs := by
  induction cs generalizing place with
  | nil => exact (List.append_nil place).symm
  | cons c cs ih =>
    rw [List.mem_cons, not_or] at h
    rw [walk_name place (fun heq => h.1 heq.symm), ih _ h.2, List.append_assoc]
    rfl

/-- Walking never ends at a component that leads up. -/
theorem up_not_mem_walk {place : List Text} (h : Path.up ∉ place) (cs : List Text) :
    Path.up ∉ walk place cs := by
  induction cs generalizing place with
  | nil => exact h
  | cons c cs ih =>
    rw [walk]
    split
    · exact ih fun hmem => h (List.dropLast_subset place hmem)
    · rename_i hc
      refine ih fun hmem => ?_
      rcases List.mem_append.1 hmem with hmem | hmem
      · exact h hmem
      · exact hc (List.mem_singleton.1 hmem).symm

/-- At the root, resolving components is walking. -/
private theorem resolve_rooted (done cs : List Text) (h : Path.up ∉ done) :
    Path.resolve true done cs = walk done.reverse cs := by
  -- What is done holds no component that leads up, so each one takes the last name with it.
  induction cs generalizing done with
  | nil => rfl
  | cons c cs ih =>
    unfold Path.resolve walk
    split
    · cases done with
      | nil => exact ih [] h
      | cons d ds =>
        rw [List.mem_cons, not_or] at h
        simp only [if_neg (fun heq : d = Path.up => h.1 heq.symm)]
        -- The name that is left is the last one of the place.
        rw [ih ds h.2, List.reverse_cons, List.dropLast_concat]
    · rename_i hc
      -- A name is added on both sides.
      have hnew : Path.up ∉ c :: done := by
        rw [List.mem_cons, not_or]
        exact ⟨fun heq => hc heq.symm, h⟩
      rw [ih _ hnew, List.reverse_cons]

/-- Elsewhere, walking does not mind whether components were resolved. -/
private theorem walk_resolve (place done cs : List Text) :
    walk place (Path.resolve false done cs) = walk (walk place done.reverse) cs := by
  -- Resolving and walking take the same components.
  induction cs generalizing done with
  | nil => rfl
  | cons c cs ih =>
    unfold Path.resolve
    split
    · rename_i hc
      subst hc
      -- With nothing done, up stays and is walked later.
      cases done with
      | nil =>
        simp only [Bool.false_eq_true, if_false]
        rw [ih, List.reverse_singleton, walk_up, walk_up]
        rfl
      | cons d ds =>
        simp only
        -- Up behind another up stays, and up behind a name takes it along.
        split
        · rw [ih, List.reverse_cons, walk_append, walk_up, walk_up]
          rfl
        · rename_i hd
          rw [ih, List.reverse_cons, walk_append, walk_name _ hd, walk_up]
          simp [walk]
    · rename_i hc
      -- A name is added, and walked at once.
      rw [ih, List.reverse_cons, walk_append, walk_name _ hc, walk_name _ hc]
      rfl

/-- Cleaning a path does not change where it leads. -/
theorem aim_clean (cwd p : Text) : aim cwd (Path.clean p) = aim cwd p := by
  rw [aim, aim, Path.isAbsolute_clean, Path.components_clean]
  split
  · rename_i habsolute
    rw [Path.cleanComponents, habsolute, resolve_rooted [] _ (by simp), List.reverse_nil,
      walk_names [] (up_not_mem_walk List.not_mem_nil _), List.nil_append]
  · rename_i habsolute
    rw [Bool.not_eq_true] at habsolute
    have hclean : Path.cleanComponents p = Path.resolve false [] (Path.components p) := by
      rw [Path.cleanComponents, habsolute]
    rw [hclean, walk_resolve]
    rfl

/-- The place of a path, if it leads anywhere, is where it aims. -/
theorem aim_of_locate {d : Disk} {p : Text} {q : List Text} (h : d.locate p = .ok q) : q = aim d.cwd p :=
  walk_of_locate h

end Disk

namespace Path

/-- The components of an absolute path when it is cleaned. -/
theorem cleanComponents_rooted {p : Text} (h : isAbsolute p = true) :
    cleanComponents p = Disk.walk [] (components p) := by
  rw [cleanComponents, h, Disk.resolve_rooted [] _ (by simp)]
  rfl

/-- Below an absolute working directory the absolute path of a path spells the place it leads to. -/
theorem absolute_eq {cwd : Text} (hcwd : isAbsolute cwd = true) (p : Text) :
    absolute cwd p = ofComponents true (Disk.aim cwd p) := by
  rw [absolute, Disk.aim]
  -- An absolute path is cleaned, and any other one is joined to the working directory first.
  split
  · rename_i habsolute
    rw [clean, cleanComponents_rooted habsolute, habsolute]
  · obtain ⟨b, cwd, rfl⟩ : ∃ b t, cwd = b :: t := by
      cases cwd with
      | nil => cases hcwd
      | cons b t => exact ⟨b, t, rfl⟩
    -- The empty path is the working directory itself.
    cases p with
    | nil =>
      have hnone : join (b :: cwd) [] = clean (b :: cwd) := rfl
      have hcomponents : components [] = [] := rfl
      rw [hnone, clean, hcwd, hcomponents]
      rfl
    | cons c p =>
      have hjoin : join (b :: cwd) (c :: p) = clean ((b :: cwd) ++ slash :: (c :: p)) := by
        change clean ((b :: cwd) ++ [slash] ++ _) = _
        rw [List.append_assoc]
        rfl
      -- What is joined to an absolute path is absolute.
      have hrooted : isAbsolute ((b :: cwd) ++ slash :: (c :: p)) = true := hcwd
      rw [hjoin, clean, cleanComponents_rooted hrooted, hrooted, components_append, Disk.walk_append,
        cleanComponents_rooted hcwd]

/-- Components that only lead up stay. -/
private theorem resolve_ups (k l : Nat) :
    resolve false (List.replicate k up) (List.replicate l up) = List.replicate (k + l) up := by
  induction l generalizing k with
  | zero => rw [List.replicate_zero, resolve, List.reverse_replicate, Nat.add_zero]
  | succ l ih =>
    rw [List.replicate_succ]
    unfold resolve
    rw [if_pos rfl]
    -- Nothing is done at first, and later only what leads up.
    cases k with
    | zero =>
      simp only [List.replicate_zero, Bool.false_eq_true, if_false]
      rw [← List.replicate_one, ih, Nat.zero_add, Nat.add_comm]
    | succ k =>
      simp only [List.replicate_succ, if_true]
      rw [← List.replicate_succ, ← List.replicate_succ, ih]
      congr 1
      omega

/-- Resolved components lead up first and then down. -/
private theorem resolve_shape (rooted : Bool) (done cs : List Text)
    (h : ∃ k names, done = names ++ List.replicate k up ∧ up ∉ names ∧ (rooted = true → k = 0)) :
    ∃ k names, resolve rooted done cs = List.replicate k up ++ names ∧ up ∉ names
      ∧ (rooted = true → k = 0) := by
  -- The names are always in front of those that lead up, in reverse.
  induction cs generalizing done with
  | nil =>
    obtain ⟨k, names, rfl, hnames, hk⟩ := h
    refine ⟨k, names.reverse, ?_, fun hmem => hnames (List.mem_reverse.1 hmem), hk⟩
    rw [resolve, List.reverse_append, List.reverse_replicate]
  | cons c cs ih =>
    obtain ⟨k, names, rfl, hnames, hk⟩ := h
    unfold resolve
    -- A component that leads up takes the last name with it, or joins the others.
    split
    · cases names with
      | nil =>
        cases k with
        | zero =>
          cases rooted with
          | true => exact ih [] ⟨0, [], rfl, by simp, fun _ => rfl⟩
          | false => exact ih [up] ⟨1, [], rfl, by simp, by simp⟩
        -- Below other components that lead up it is one more of them; at the root there are none.
        | succ k =>
          have hrooted : rooted = false := by
            cases rooted with
            | true => cases hk rfl
            | false => rfl
          rw [List.nil_append, List.replicate_succ]
          simp only [if_true]
          exact ih _ ⟨k + 2, [], rfl, (by simp), fun heq => by cases hrooted.symm.trans heq⟩
      | cons d ds =>
        rw [List.mem_cons, not_or] at hnames
        -- The last name goes.
        simp only [List.cons_append, if_neg (fun heq : d = up => hnames.1 heq.symm)]
        exact ih _ ⟨k, ds, rfl, hnames.2, hk⟩
    · rename_i hc
      -- A name is one more of the names.
      refine ih _ ⟨k, c :: names, rfl, ?_, hk⟩
      rw [List.mem_cons, not_or]
      exact ⟨fun heq => hc heq.symm, hnames⟩

/-- Cleaning leaves nothing to clean. -/
theorem cleanComponents_clean (p : Text) : cleanComponents (clean p) = cleanComponents p := by
  rw [cleanComponents, components_clean, isAbsolute_clean]
  obtain ⟨k, names, heq, hnames, hk⟩ := resolve_shape (isAbsolute p) [] (components p)
    ⟨0, [], rfl, by simp, fun _ => rfl⟩
  have hdown : ∀ d ∈ names, d ≠ up := fun d hd heq => hnames (heq ▸ hd)
  rw [cleanComponents, heq, resolve_append _ _ _ hdown]
  cases hrooted : isAbsolute p with
  | true => rw [hk hrooted]; rfl
  | false =>
    have hups := resolve_ups 0 k
    rw [Nat.zero_add] at hups
    exact congrArg (· ++ names) hups

/-- A cleaned path is clean. -/
theorem clean_clean (p : Text) : clean (clean p) = clean p := by
  rw [clean, cleanComponents_clean, isAbsolute_clean]
  rfl

end Path

end AisScript
