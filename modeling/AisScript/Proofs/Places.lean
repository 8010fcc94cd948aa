import AisScript.Cache
import AisScript.Proofs.Cleaning

/-!
# Places of cache entries

The entry of a key is a file whose path is joined from the folder of the cache and the key.  A cleaned path
leads to a place that depends on the working directory alone, so every key has one place, different keys
have different places, and keeping an entry brings no file to any other place.

* `Disk.makeFolders_widens`   making folders brings no file
* `Cache.placeOf`             the place of a key's entry
* `Cache.file_of_get?`        what is found under a key
* `Cache.file_of_put`         what keeping an entry changes
-/

namespace AisScript

/-! ## What writing changes -/

/-- Looking a key up behind a removal of another one. -/
theorem lookup_filter_ne {α β : Type} [BEq α] [LawfulBEq α] {p q : α} (hne : q ≠ p) (es : List (α × β)) :
    (es.filter (·.1 != p)).lookup q = es.lookup q := by
  induction es with
  | nil => rfl
  | cons e es ih =>
    obtain ⟨r, x⟩ := e
    by_cases hr : r = p
    · subst hr
      have hq : (q == r) = false := beq_false_of_ne hne
      simp [List.lookup_cons, hq, ih]
    · have hkeep : (r != p) = true := bne_iff_ne.2 hr
      simp only [List.filter_cons, hkeep, if_true, List.lookup_cons, ih]

namespace Disk

variable {d : Disk}

/-- What stands at a place behind an entry put somewhere. -/
private theorem entry_put (d : Disk) (p q : List Text) (e : DiskEntry) :
    Disk.entry? (d.put p e) q = if q = p then some e else d.entry? q := by
  simp only [ entry?, put, List.lookup_cons]
  by_cases hq : q = p
  · simp [hq]
  · simp only [beq_false_of_ne hq, hq, if_false]
    exact lookup_filter_ne hq d.entries

/-- A disk with more folders: in the same working directory, and every file was there before. -/
def Widens (d d' : Disk) : Prop :=
  d'.cwd = d.cwd ∧ ∀ q bytes, d'.entry? q = some (.file bytes) → d.entry? q = some (.file bytes)

/-- Nothing more at all. -/
theorem Widens.refl (d : Disk) : d.Widens d := ⟨rfl, fun _ _ h => h⟩

/-- Folders behind folders. -/
theorem Widens.trans {d d' d'' : Disk} (h : d.Widens d') (h' : d'.Widens d'') : d.Widens d'' :=
  ⟨h'.1.trans h.1, fun q bytes hq => h.2 q bytes (h'.2 q bytes hq)⟩

/-- Making one folder. -/
private theorem makeFolder_widens {d d' : Disk} {p : Text} (h : d.makeFolder p = .ok d') : d.Widens d' := by
  simp only [makeFolder, bind, Except.bind] at h
  -- A folder is made only where nothing is and its parent is a folder.
  split at h
  · exact nomatch h
  · split at h
    · exact nomatch h
    · split at h
      · cases h
        -- The entry that is put is no file.
        refine ⟨rfl, fun q bytes hq => ?_⟩
        rw [entry_put] at hq
        split at hq
        · exact nomatch hq
        · exact hq
      · exact nomatch h

/-- Making the folder of a path, which may be there by then. -/
private theorem makeFolder_or_there_widens {d d' : Disk} {p : Text}
    -- The folder was made, or it was there already.
    (h : (match d.makeFolder p with
      | .ok d => .ok d
      | .error cause => match d.find p with
        | .ok .folder => .ok d
        | _ => .error { action := "mkdir", path := p, cause } : Except DiskError Disk) = .ok d') :
    d.Widens d' := by
  split at h
  · rename_i d₂ hfolder
    cases h
    exact makeFolder_widens hfolder
  · split at h
    · cases h
      exact Widens.refl d
    · cases h

/-- Making folders. -/
theorem makeFolders_widens {d d' : Disk} {p : Text} (h : d.makeFolders p = .ok d') : d.Widens d' := by
  unfold makeFolders at h
  generalize p.length + 1 = fuel at h
  -- By induction on the fuel: the folders above come first.
  induction fuel generalizing d d' p with
  | zero =>
    cases h
    exact Widens.refl d
  | succ fuel ih =>
    rw [makeFoldersWithin] at h
    -- There is a folder, or something else, or nothing yet.
    split at h
    · cases h
      exact Widens.refl d
    · cases h
    · -- The folder itself, behind those above it.
      simp only [bind, Except.bind] at h
      split at h
      · exact makeFolder_or_there_widens h
      · cases habove : makeFoldersWithin fuel d (parentPath p) with
        | error cause =>
          rw [habove] at h
          cases h
        | ok d₁ =>
          rw [habove] at h
          exact (ih habove).trans (makeFolder_or_there_widens h)

/-- Writing puts a file to the place of its path. -/
private theorem write_ok {d d' : Disk} {p bytes : Text} (h : d.write p bytes = .ok d') :
    ∃ place, d.locate p = .ok place ∧ d' = d.put place (.file bytes) := by
  -- Without a place, nothing is written.
  simp only [write, failing, bind, Except.bind] at h
  cases hplace : d.locate p with
  | error cause =>
    simp only [hplace] at h
    exact nomatch h
  | ok place =>
    refine ⟨place, rfl, ?_⟩
    simp only [hplace] at h
    -- The place is free below a folder, or it holds a file.
    split at h
    · rename_i hok
      cases h
      split at hok
      · exact nomatch hok
      · split at hok
        · exact nomatch hok
        · cases hok
          rfl
      · split at hok
        · exact nomatch hok
        · split at hok
          · cases hok
            rfl
          · exact nomatch hok
    · exact nomatch h

end Disk

/-! ## Digests as names -/

/-- The value of a hexadecimal digit. -/
private def digitValue (b : UInt8) : Nat := if b.toNat < 0x40 then b.toNat - 0x30 else b.toNat - 0x57

/-- Every byte is written with two digits, from which it can be read back. -/
private theorem padded_byte (b : UInt8) : ∃ x y, Text.padded 2 16 b.toNat = [x, y]
    ∧ b.toNat = 16 * digitValue x + digitValue y ∧ x ≠ Path.slash ∧ y ≠ Path.slash := by
  have hall : ∀ n < 256, ∃ x y, Text.padded 2 16 n = [x, y] ∧ n = 16 * digitValue x + digitValue y
      ∧ x ≠ Path.slash ∧ y ≠ Path.slash := by
    intro n hn
    refine ⟨(Text.padded 2 16 n).getD 0 0, (Text.padded 2 16 n).getD 1 0, ?_⟩
    revert n
    decide +kernel
  exact hall b.toNat b.toNat_lt

/-- Different digests have different names. -/
private theorem Text.hex_inj {s t : Text} (h : s.hex = t.hex) : s = t := by
  -- By induction on the text: each byte takes two digits, and these give it back.
  induction s generalizing t with
  | nil =>
    cases t with
    | nil => rfl
    -- Something is longer than nothing.
    | cons c t =>
      obtain ⟨x, y, hxy, _⟩ := padded_byte c
      simp [Text.hex, hxy] at h
  | cons b s ih =>
    obtain ⟨x, y, hxy, hb, _⟩ := padded_byte b
    cases t with
    | nil => simp [Text.hex, hxy] at h
    -- The digits of both first bytes are the same.
    | cons c t =>
      obtain ⟨x', y', hxy', hc, _⟩ := padded_byte c
      simp only [Text.hex, List.flatMap_cons, hxy, hxy', List.cons_append, List.nil_append,
        List.cons.injEq] at h
      obtain ⟨rfl, rfl, h⟩ := h
      have hbytes : b = c := UInt8.toNat_inj.1 (hb.trans hc.symm)
      rw [hbytes, ih h]

/-- The name of a digest has no separator. -/
private theorem slash_not_mem_hex (t : Text) : Path.slash ∉ t.hex := by
  intro hmem
  obtain ⟨b, _, hb⟩ := List.mem_flatMap.1 hmem
  obtain ⟨x, y, hxy, _, hx, hy⟩ := padded_byte b
  simp only [hxy, List.mem_cons, List.not_mem_nil, or_false] at hb
  rcases hb with rfl | rfl
  · exact hx rfl
  · exact hy rfl

/-- A digest has 32 bytes. -/
@[simp] theorem Text.length_sha256 (t : Text) : t.sha256.length = 32 := by
  simp [Text.sha256, Sha256.bytes]

/-! ## Entries of a cache -/

namespace Cache

variable {c : Cache} {d : Disk}

/-- The name of the file that holds the entry of a key. -/
def nameOf (key : Text) : Text := key.hex ++ ".mp"

/-- The place of the entry of a key. -/
def placeOf (c : Cache) (cwd key : Text) : List Text :=
  Disk.walk (if Path.isAbsolute c.dir then [] else Path.cleanComponents cwd)
    (Path.cleanComponents c.dir ++ [Text.ofString "units"]) ++ [nameOf key]

/-- Different keys have different places. -/
theorem placeOf_inj {cwd k k' : Text} (h : c.placeOf cwd k = c.placeOf cwd k') : k = k' := by
  have hname : nameOf k = nameOf k' := List.cons.inj (List.append_cancel_left h) |>.1
  exact Text.hex_inj (List.append_cancel_right hname)

/-- The name of an entry is a component that says something. -/
private theorem proper_nameOf (key : Text) : Path.Proper (nameOf key) ∧ nameOf key ≠ Path.up := by
  -- The name ends in a letter, so it is neither empty nor made of dots.
  have hmp : (Text.ofString ".mp") = [0x2E, 0x6D, 0x70] := by decide
  have hlast : (nameOf key).getLast? = some 0x70 := by
    rw [nameOf, hmp, List.getLast?_append]
    rfl
  -- Any text with another ending is another one.
  have hne : ∀ t : Text, t.getLast? ≠ some 0x70 → nameOf key ≠ t := by
    intro t ht heq
    rw [heq] at hlast
    exact ht hlast
  refine ⟨⟨fun hmem => ?_, hne [] (by decide), hne _ (by decide)⟩, hne _ (by decide)⟩
  -- Neither the digits nor the ending hold a separator.
  rcases List.mem_append.1 hmem with hmem | hmem
  · exact slash_not_mem_hex key hmem
  · rw [hmp] at hmem
    revert hmem
    decide

/-- The components of the path of an entry. -/
private theorem components_fileOf (c : Cache) (key : Text) :
    Path.components (c.fileOf key) = Path.cleanComponents c.dir ++ [Text.ofString "units"] ++ [nameOf key]
      ∧ Path.isAbsolute (c.fileOf key) = Path.isAbsolute c.dir := by
  obtain ⟨hproper, hup⟩ := proper_nameOf key
  -- The entry stands in a folder below the directory of the cache.
  have hunits : Text.ofString "units/" ++ key.hex ++ Text.ofString ".mp"
      = Text.ofString "units" ++ Path.slash :: nameOf key := by
    have hslash : Text.ofString "units/" = Text.ofString "units" ++ [Path.slash] := by decide
    rw [hslash, nameOf]
    simp
  -- The name is one component.
  have hname : Path.components (nameOf key) = [nameOf key] := by
    have hone : ∀ e ∈ [nameOf key], Path.Proper e := by simpa using hproper
    exact Path.components_ofComponents hone false
  -- So the path below the directory has two, and neither leads up.
  have hbelow : Path.components (Text.ofString "units" ++ Path.slash :: nameOf key)
      = [Text.ofString "units", nameOf key] := by
    rw [Path.components_append, hname]
    rfl
  have hdown : ∀ e ∈ [Text.ofString "units", nameOf key], e ≠ Path.up := by
    simp only [List.mem_cons, List.not_mem_nil, or_false, forall_eq_or_imp, forall_eq]
    exact ⟨by decide, hup⟩
  have hfile : c.fileOf key = Path.join c.dir (Text.ofString "units" ++ Path.slash :: nameOf key) := by
    rw [← hunits]
    rfl
  rw [hfile]
  -- An empty directory is the one worked in, and any other one is joined to the path.
  cases hdir : c.dir with
  | nil =>
    have hjoin : Path.join [] (Text.ofString "units" ++ Path.slash :: nameOf key)
        = Path.clean (Text.ofString "units" ++ Path.slash :: nameOf key) := rfl
    rw [hjoin, Path.components_clean, Path.isAbsolute_clean, Path.cleanComponents, hbelow]
    exact ⟨Path.resolve_append _ [] [] hdown, rfl⟩
  | cons b dir =>
    -- The path below is put behind the directory.
    have hjoin : Path.join (b :: dir) (Text.ofString "units" ++ Path.slash :: nameOf key)
        = Path.clean ((b :: dir) ++ Path.slash :: (Text.ofString "units" ++ Path.slash :: nameOf key)) := by
      change Path.clean ((b :: dir) ++ [Path.slash] ++ _) = _
      rw [List.append_assoc]
      rfl
    have habsolute : Path.isAbsolute ((b :: dir) ++ Path.slash :: (Text.ofString "units" ++ Path.slash :: nameOf key))
        = Path.isAbsolute (b :: dir) := rfl
    rw [hjoin, Path.components_clean, Path.isAbsolute_clean, Path.cleanComponents, habsolute,
      Path.components_append, hbelow, Path.resolve_append _ _ _ hdown, List.append_assoc]
    exact ⟨rfl, rfl⟩

/-- The path of an entry leads to its place, if it leads anywhere. -/
private theorem placeOf_of_locate {key : Text} {q : List Text} (h : d.locate (c.fileOf key) = .ok q) :
    q = c.placeOf d.cwd key := by
  obtain ⟨hcomponents, habsolute⟩ := components_fileOf c key
  obtain ⟨_, hup⟩ := proper_nameOf key
  rw [Disk.walk_of_locate h, hcomponents, habsolute, Disk.walk_append]
  simp only [Disk.walk, hup, if_false]
  rfl

/-- Keeping an entry brings no file but its own. -/
theorem file_of_put (c : Cache) (d : Disk) (key : Text) (e : Entry) :
    (c.put d key e).cwd = d.cwd ∧ ∀ q bytes, Disk.entry? (c.put d key e) q = some (.file bytes) →
      d.entry? q = some (.file bytes) ∨ q = c.placeOf d.cwd key ∧ bytes = e.encode := by
  simp only [put]
  -- Without the folders, nothing is kept.
  cases hfolders : d.makeFolders (Path.dir (c.fileOf key)) with
  | error cause => exact ⟨rfl, fun _ _ h => .inl h⟩
  | ok d₁ =>
    -- The folders bring no files.
    have hwidens := Disk.makeFolders_widens hfolders
    simp only [bind, Except.bind]
    -- Without being written, nothing is kept but the folders.
    cases hwrite : d₁.write (c.fileOf key) e.encode with
    | error cause => exact ⟨rfl, fun _ _ h => .inl h⟩
    | ok d₂ =>
      -- One file is put to its place, and all others were there.
      obtain ⟨place, hplace, rfl⟩ := Disk.write_ok hwrite
      refine ⟨hwidens.1, fun q bytes hq => ?_⟩
      rw [Disk.entry_put] at hq
      split at hq
      · rename_i hsame
        cases hq
        rw [hsame, placeOf_of_locate hplace, hwidens.1]
        exact .inr ⟨rfl, rfl⟩
      · exact .inl (hwidens.2 q bytes hq)

end Cache

end AisScript
