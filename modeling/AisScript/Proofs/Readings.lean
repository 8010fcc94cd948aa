import AisScript.Parser
import AisScript.Proofs.Lexing
import AisScript.Proofs.Members

/-!
# Readings of a member of an enumeration

The value behind the name of a member is read in three ways: from the list of members, from the entry that
typing leaves in the scope, and from the constants by which references are replaced.  The list is searched
from its beginning, but both scopes are filled in order, so that a later member hides an earlier one of its
name.  Names may be repeated, and then the readings come apart.

* `Enumeration.lastValue?`   the value of the last member of a name
* `Enumeration.ReadAs`       all three readings give a value
* `Enumeration.readAs_iff`   they do if the first and the last member of the name have it
* `Site.sees_of_mem_stmtsSites`   a member is seen behind its definition
-/

namespace AisScript

namespace Enumeration

/-! ## First and last members -/

/-- The value of the last member with a given name. -/
def lastValue? (ms : List EnumMember) (n : Text) : Option Int64 :=
  (ms.reverse.find? (·.name == n)).map (·.value)

/-- A member counts if none behind it has its name. -/
private theorem lastValue?_cons (m : EnumMember) (ms : List EnumMember) (n : Text) :
    lastValue? (m :: ms) n = (lastValue? ms n).or (if n = m.name then some m.value else none) := by
  have hone : ([m].find? (·.name == n)).map (·.value) = if n = m.name then some m.value else none := by
    rw [List.find?_singleton]
    by_cases h : n = m.name
    · rw [if_pos h, if_pos (beq_iff_eq.2 h.symm), Option.map_some]
    · rw [if_neg h, if_neg (fun heq => h (beq_iff_eq.1 heq).symm), Option.map_none]
  rw [lastValue?, List.reverse_cons, List.find?_append, Option.map_or, hone, lastValue?]

/-- With different names, a member is the only one of its name. -/
private theorem find?_of_nodup {ms : List EnumMember} (h : (ms.map (·.name)).Nodup) {m : EnumMember}
    (hm : m ∈ ms) : (ms.find? (·.name == m.name)).map (·.value) = some m.value := by
  induction ms with
  | nil => exact nomatch hm
  | cons x xs ih =>
    obtain ⟨hx, hxs⟩ := List.nodup_cons.1 h
    rw [List.find?_cons]
    rcases List.mem_cons.1 hm with rfl | hm
    · simp only [beq_self_eq_true, Option.map_some]
    · have hne : x.name ≠ m.name := fun heq => hx (List.mem_map.2 ⟨m, hm, heq.symm⟩)
      rw [beq_false_of_ne hne]
      exact ih hxs hm

/-! ## What is in scope behind a definition -/

/-- Typing binds a name to the last member of that name. -/
private theorem lookup_bindMembers (scope : Scope Entry) (next : Nat) (ms : List EnumMember) (n : Text)
    {v : Int64} (h : lastValue? ms n = some v) :
    ∃ b, (bindMembers scope next ms).1.lookup n = some (.value b) ∧ b.value? = some v := by
  -- Names that no later member has keep what they are bound to.
  have hkeep : ∀ (ms : List EnumMember) (scope : Scope Entry) (next : Nat), lastValue? ms n = none →
      (bindMembers scope next ms).1.lookup n = scope.lookup n := by
    intro ms
    induction ms with
    | nil => exact fun _ _ _ => rfl
    | cons m ms ih =>
      intro scope next hnone
      rw [lastValue?_cons, Option.or_eq_none_iff] at hnone
      have hne : n ≠ m.name := fun heq => by simp [heq] at hnone
      rw [bindMembers, ih _ _ hnone.1, Scope.lookup_define_of_ne _ _ hne]
  -- By induction on the members: is the name met again further on?
  induction ms generalizing scope next with
  | nil => exact nomatch h
  | cons m ms ih =>
    rw [bindMembers]
    rw [lastValue?_cons] at h
    -- The member that is found may be one of the later ones.
    cases hlast : lastValue? ms n with
    | some w =>
      rw [hlast, Option.some_or] at h
      obtain rfl := Option.some.inj h
      exact ih _ _ hlast
    -- It is the first one, and no later one has its name.
    | none =>
      rw [hlast, Option.none_or] at h
      split at h
      case isTrue heq =>
        obtain rfl := Option.some.inj h
        rw [hkeep ms _ _ hlast, heq, Scope.lookup_define_self]
        exact ⟨_, rfl, rfl⟩
      case isFalse => exact nomatch h

/-- In a tree, a name stands for the last member of that name. -/
private theorem lookup_membersBehind (ε : Env) (ms : List EnumMember) (n : Text) :
    (membersBehind ε ms).lookup n = ((lastValue? ms n).map Binder.member).or (ε.lookup n) := by
  induction ms generalizing ε with
  | nil => rfl
  | cons m ms ih =>
    rw [membersBehind, ih, lastValue?_cons, Option.map_or, Option.or_assoc, List.lookup_cons]
    by_cases h : n = m.name
    · rw [if_pos h, h, beq_self_eq_true]
      rfl
    · rw [if_neg h, beq_false_of_ne h]
      rfl

end Enumeration

/-! ## The three readings -/

/-- A place in the scope of the definition of an enumeration, at which no later declaration hides a name. -/
def Site.Sees (s : Site) (d : Enumeration) (n : Text) : Prop :=
  ∃ later earlier, s.env = later ++ membersBehind earlier d.members ∧ List.lookup n later = none

/-- Behind a definition its members are seen, as long as nothing is declared in between. -/
theorem Site.sees_of_mem_stmtsSites {earlier : Env} {d : Enumeration} {span : Span} {ss : List Stmt} {s : Site}
    (hs : s ∈ stmtsSites earlier (.enumDef span d :: ss)) :
    s.node = .stmt (.enumDef span d) ∨ ∃ later, s.env = later ++ membersBehind earlier d.members
      ∧ ∀ n, List.lookup n later = none → s.Sees d n := by
  rcases List.mem_append.1 hs with hs | hs
  · rw [List.mem_singleton.1 hs]
    exact .inl rfl
  · have hunder := stmtsSites_under [] (membersBehind earlier d.members) ss
    rw [List.nil_append] at hunder
    obtain ⟨t, _, rfl⟩ := List.mem_map.1 (hunder ▸ hs)
    exact .inr ⟨t.env, rfl, fun n hn => ⟨t.env, earlier, rfl, hn⟩⟩

namespace Enumeration

/-- All readings of a name give the same value: it is found in the list of members; the entry that typing
leaves behind the definition has it; and every reference in the scope of the definition is replaced by it,
in any program that is ready for the replacement. -/
structure ReadAs (d : Enumeration) (n : Text) (v : Int64) : Prop where
  listed : d.value? n = some v
  typed : ∀ enter scope next span, ∃ behind b,
    (Stmt.annotate enter scope next (.enumDef span d)).result = .ok behind
      ∧ behind.lookup n = some (.value b) ∧ b.value? = some v
  replaced : ∀ program : Block, SettledNodes program.nodes →
    program.substituteEnums = .ok (program.replace byName [])
      ∧ ∀ s ∈ program.sites [], s.Sees d n → ∀ i b, s.node = .expr (.var i n b) →
        byName s.env i n b = .literal (.int v) i.span

/-- The entry that typing leaves behind a definition has the value of the last member of a name. -/
private theorem typed_last (d : Enumeration) {n : Text} {v : Int64} (h : lastValue? d.members n = some v)
    (enter : EnterBody) (scope : Scope Entry) (next : Nat) (span : Span) : ∃ behind b,
      (Stmt.annotate enter scope next (.enumDef span d)).result = .ok behind
        ∧ behind.lookup n = some (.value b) ∧ b.value? = some v := by
  obtain ⟨b, hb, hv⟩ := lookup_bindMembers (scope.define d.name (.value
    { id := next, ty := .enum d, immutable := true, origin := .enumeration })) (next + 1) d.members n h
  exact ⟨_, b, rfl, hb, hv⟩

/-- A reference in the scope of a definition is replaced by the value of the last member of its name. -/
private theorem byName_last {d : Enumeration} {n : Text} {v : Int64} (h : lastValue? d.members n = some v)
    {s : Site} (hs : s.Sees d n) (i : ExprInfo) (b : Option Binding) :
    byName s.env i n b = .literal (.int v) i.span := by
  obtain ⟨later, earlier, henv, hlater⟩ := hs
  have hlast : (lastValue? d.members n).map Binder.member = some (.member v) := congrArg (Option.map Binder.member) h
  have hlookup : s.env.lookup n = some (.member v) := by
    rw [henv, List.lookup_append, hlater, Option.none_or, lookup_membersBehind, hlast, Option.some_or]
  rw [byName, hlookup]
  rfl

/-- If all readings give a value, it is that of the last member: typing reads no other. -/
theorem ReadAs.last {d : Enumeration} {n : Text} {v : Int64} (h : d.ReadAs n v) :
    lastValue? d.members n = some v := by
  cases hlast : lastValue? d.members n with
  | none =>
    -- A name that is found from the beginning is found from the end.
    rw [lastValue?, Option.map_eq_none_iff, List.find?_eq_none] at hlast
    obtain ⟨m, hm, _⟩ := Option.map_eq_some_iff.1 h.listed
    have hname := List.find?_some hm
    exact absurd hname (hlast m (List.mem_reverse.2 (List.mem_of_find?_eq_some hm)))
  -- A typing of the enumeration binds the name to a member with that value.
  | some w =>
    let enter : EnterBody := fun _ next binds body => .fail (binds, body) next .tooDeep body.span
    obtain ⟨behind, b, hbehind, hb, hv⟩ := h.typed enter {} 0 {}
    obtain ⟨behind', b', hbehind', hb', hw⟩ := d.typed_last hlast enter {} 0 {}
    obtain rfl := Except.ok.inj (hbehind.symm.trans hbehind')
    obtain rfl := Entry.value.inj (Option.some.inj (hb.symm.trans hb'))
    rw [← hv, hw]

/-- A value that the first and the last member of a name have is read in all three ways. -/
private theorem readAs_of_first_last {d : Enumeration} {n : Text} {v : Int64} (hfirst : d.value? n = some v)
    (hlast : lastValue? d.members n = some v) : d.ReadAs n v where
  listed := hfirst
  typed := d.typed_last hlast
  replaced _ hp := ⟨Block.substituteEnums_eq hp, fun _ _ hs i b _ => byName_last hlast hs i b⟩

/-- All readings of a name agree exactly if its first and its last member have the same value, and so for
every member of an enumeration without repeated names.  Typing and the replacement of references always
agree: both take the last member. -/
theorem readAs_iff (d : Enumeration) :
    (∀ n v, d.ReadAs n v ↔ d.value? n = some v ∧ lastValue? d.members n = some v)
      ∧ ((d.members.map (·.name)).Nodup → ∀ m ∈ d.members, d.ReadAs m.name m.value) := by
  refine ⟨fun n v => ⟨fun h => ⟨h.listed, h.last⟩, fun h => readAs_of_first_last h.1 h.2⟩, fun hnames m hm => ?_⟩
  have hreversed : (d.members.reverse.map (·.name)).Nodup := by
    rw [List.map_reverse]
    exact List.pairwise_reverse.2 (hnames.imp Ne.symm)
  exact readAs_of_first_last (find?_of_nodup hnames hm) (find?_of_nodup hreversed (List.mem_reverse.2 hm))

/-- A second member of another name is read as one by all of them. -/
theorem readAs_second : (Enumeration.mk "E" [⟨"a", 0⟩, ⟨"b", 1⟩] {}).ReadAs "b" 1 :=
  (readAs_iff (Enumeration.mk "E" [⟨"a", 0⟩, ⟨"b", 1⟩] {})).2 (by decide) ⟨"b", 1⟩ (by decide)

/-! ## Repeated names -/

/-- An enumeration with two members of one name. -/
def twiceNamed : Text := "enum E a a end"

/-- What is parsed from it. -/
def twice : Enumeration := { name := "E", members := [⟨"a", 0⟩, ⟨"a", 1⟩], site := ⟨0, 5, 6⟩ }

-- Lexing is no structural recursion, so its tokens are computed by one.
private theorem lexemes_twiceNamed : lexemes 0 twiceNamed =
    [⟨⟨.keyword .enumKw, ⟨0, 0, 4⟩, "enum"⟩, []⟩, ⟨⟨.ident, ⟨0, 5, 6⟩, "E"⟩, []⟩,
      ⟨⟨.ident, ⟨0, 7, 8⟩, "a"⟩, []⟩, ⟨⟨.ident, ⟨0, 9, 10⟩, "a"⟩, []⟩,
      ⟨⟨.keyword .endKw, ⟨0, 11, 14⟩, "end"⟩, []⟩, .endMark ⟨0, 14⟩] := by
  rw [lexemes_eq_within]
  decide +kernel

/-- Nothing is reported about a repeated name, and then the list has another value for it than the two
scopes. -/
theorem twiceNamed_unlike : (parse 0 0 twiceNamed).reports = []
    ∧ (parse 0 0 twiceNamed).program.stmts = [.enumDef ⟨0, 0, 14⟩ twice] ∧ ¬∃ v, twice.ReadAs "a" v := by
  have hparse : parse 0 0 twiceNamed = ⟨.mk [] [.enumDef ⟨0, 0, 14⟩ twice] ⟨0, 0, 14⟩, 0, []⟩ := by
    rw [parse, lexemes_twiceNamed]
    rfl
  rw [hparse]
  refine ⟨rfl, rfl, ?_⟩
  rintro ⟨v, h⟩
  have hfirst : twice.value? "a" = some 0 := rfl
  have hlast : lastValue? twice.members "a" = some 1 := rfl
  have hzero : (0 : Int64) = v := Option.some.inj (hfirst.symm.trans h.listed)
  have hone : (1 : Int64) = v := Option.some.inj (hlast.symm.trans h.last)
  exact absurd (hzero.trans hone.symm) (by decide)

end Enumeration

end AisScript
