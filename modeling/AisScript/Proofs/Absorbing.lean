import Mathlib.Data.List.Forall2
import AisScript.Proofs.Words

/-!
# Strings by name

The substitution of strings walks over the tree with the constants of the open frames.  A declaration of a
string becomes a constant, and the assignment that closes a temporary changes the constant in the frame that
declares the temporary.  In a tree whose names can be read, every string variable is met behind the
assignment that gives it its value, so what the substitution finds under its name is the text it stands for.

* `Site.Legible`, `Legible`        what can be relied on at every place
* `Constants.Spell`                constants that hold the texts of the variables in scope
* `Block.absorbs`                  substitution reads strings as the texts they stand for
-/

namespace AisScript

/-! ## Places whose names can be read -/

/-- The type of a variable, with the types of temporaries given. -/
def typeOf (T : Text → Option Ty) (n : Text) : Option Binding → Option Ty
  | some b => some b.ty
  | none => T n

/-- A place at which names can be read: a variable is found under its name, or it is a variable of the host
and no string, and all assignments of a variable have values of its type. -/
structure Site.Legible (T : Text → Option Ty) (s : Site) : Prop where
  clear : ∀ e, s.node = .expr e → e.IsClear
  found : ∀ i n b, s.node = .expr (.var i n b) → b.bind Binding.value? = none →
    (s.env.lookup n = some (.variable b) ∧ i.ty = typeOf T n b)
      ∨ (s.env.lookup n = none ∧ i.ty ≠ some .string)
  declared : ∀ a, s.node = .stmt (.assign a) → a.info.declares = true →
    a.value.ty? = typeOf T a.info.name a.info.binding
  closed : ∀ a n, s.node = .stmt (.assign a) → a.mark? = some (.closed n) →
    s.env.lookup n = some (.variable none) ∧ a.value.ty? = T n
  assigned : ∀ a b, s.node = .stmt (.assign a) → a.info.declares = false → a.info.binding = some b →
    a.value.ty? ≠ some .string

/-- What nodes at places do, in order. -/
def siteActs (ss : List Site) : List Act := acts (ss.map Site.node)

@[simp] theorem siteActs_append (ss ts : List Site) : siteActs (ss ++ ts) = siteActs ss ++ siteActs ts := by
  simp [siteActs]

/-- What nodes at one place do. -/
@[simp] theorem siteActs_map (ε : Env) (xs : List Node) : siteActs (xs.map (Site.mk ε)) = acts xs := by
  rw [siteActs, List.map_map]
  exact congrArg acts (List.map_id xs)

/-- Places of the tree `xs` whose names can be read behind the marks `ms`. -/
structure Legible (xs : List Node) (T : Text → Option Ty) (ms : List Mark) (ss : List Site) : Prop where
  known : ∀ s ∈ ss, s.node ∈ xs
  places : ∀ s ∈ ss, s.Legible T
  settled : ∀ s ∈ ss, s.node.IsSettled
  timely : Timely ms (siteActs ss)
  once : (ms ++ marks (siteActs ss)).Nodup

namespace Legible

variable {xs : List Node} {T : Text → Option Ty} {ms : List Mark} {ss ts : List Site}

/-- Places one behind the other. -/
theorem append (h : Legible xs T ms (ss ++ ts)) :
    Legible xs T ms ss ∧ Legible xs T (ms ++ marks (siteActs ss)) ts := by
  obtain ⟨hk, hk'⟩ := List.forall_mem_append.1 h.known
  obtain ⟨hp, hp'⟩ := List.forall_mem_append.1 h.places
  obtain ⟨hs, hs'⟩ := List.forall_mem_append.1 h.settled
  have htimely := h.timely
  have honce := h.once
  rw [siteActs_append] at htimely honce
  obtain ⟨ht, ht'⟩ := timely_append.1 htimely
  rw [marks_append, ← List.append_assoc] at honce
  exact ⟨⟨hk, hp, hs, ht, (List.nodup_append.1 honce).1⟩, ⟨hk', hp', hs', ht', honce⟩⟩

/-- A statement that is no assignment, and the places behind it. -/
theorem stmt {ε : Env} {s : Stmt} (h : Legible xs T ms (⟨ε, .stmt s⟩ :: ss)) (hs : ∀ a, s ≠ .assign a) :
    Legible xs T ms ss := by
  have hacts : siteActs (⟨ε, .stmt s⟩ :: ss) = siteActs ss := acts_stmt hs _
  have htimely := h.timely
  have honce := h.once
  rw [hacts] at htimely honce
  exact ⟨(List.forall_mem_cons.1 h.known).2, (List.forall_mem_cons.1 h.places).2,
    (List.forall_mem_cons.1 h.settled).2, htimely, honce⟩

end Legible

/-- Expressions make no marks. -/
private theorem marks_exprs (es : List Expr) : marks (acts (es.map .expr)) = [] := by
  refine List.filterMap_eq_nil_iff.2 fun x hx => ?_
  obtain ⟨n, t, rfl⟩ := acts_exprs es x hx
  rfl

/-! ## Constants that hold the texts of variables -/

section Spell

variable (xs : List Node) (T : Text → Option Ty)

/-- What a frame of constants has for a variable in scope: a string variable has a constant, which is its
text unless the variable is a temporary that is still open. -/
def Stands (ms : List Mark) (n : Text) (b : Option Binding) (v : Option (Option Expr)) : Prop :=
  if typeOf T n b = some .string then
    ∃ e, v = some (some e)
      ∧ ((b = none → .closed n ∈ ms) → ∃ t sp, e = .literal (.string t) sp ∧ Spells xs n b t)
  else v = some none

/-- What there is for a name that is bound or not: a member of an enumeration may have any constant. -/
def Provides (ms : List Mark) (n : Text) (w : Option Binder) (v : Option (Option Expr)) : Prop :=
  match w with
  | some (.variable b) => Stands xs T ms n b v
  | some (.member _) => True
  | none => v = none

/-- A frame of constants for a frame of the tree. -/
def FrameSpells (ms : List Mark) (f : Frame (Option Expr)) (γ : Env) : Prop :=
  ∀ n, Provides xs T ms n (γ.lookup n) (f.lookup n)

/-- No temporary is declared in two frames. -/
def Apart (γs : List Env) : Prop :=
  γs.Pairwise fun γ γ' => ∀ n, (n, Binder.variable none) ∈ γ → (n, Binder.variable none) ∉ γ'

/-- Constants for what is declared in the current frame `δ` and in the frames `δs` around it, behind the
marks `ms`. -/
structure Constants.Spell (ms : List Mark) (cs : Constants) (δ : Env) (δs : List Env) : Prop where
  frames : List.Forall₂ (FrameSpells xs T ms) (cs.inner :: cs.outer) (δ :: δs)
  opened : ∀ n, (n, .variable none) ∈ (δ :: δs).flatten → .opened n ∈ ms
  apart : Apart (δ :: δs)

end Spell

section Frames

variable {xs : List Node} {T : Text → Option Ty} {ms : List Mark} {f : Frame (Option Expr)} {γ : Env}
  {fs : List (Frame (Option Expr))} {γs : List Env}

/-- Another mark changes only what stands for a temporary that it closes. -/
theorem Stands.mono {n : Text} {b : Option Binding} {v : Option (Option Expr)} (h : Stands xs T ms n b v)
    {m : Mark} (hm : b = none → T n = some .string → m ≠ .closed n) : Stands xs T (ms ++ [m]) n b v := by
  unfold Stands at h ⊢
  -- Only a variable of type string stands for a text;
  -- anything else stands for nothing, whatever the marks are.
  split at h
  case isTrue hty =>
    obtain ⟨e, he, hspells⟩ := h
    rw [if_pos hty]
    refine ⟨e, he, fun hclosed => hspells fun hb => ?_⟩
    -- The name was closed already, unless the new mark closes it, which is excluded.
    rcases List.mem_append.1 (hclosed hb) with hmem | hmem
    · exact hmem
    · subst hb
      exact absurd (List.mem_singleton.1 hmem).symm (hm rfl hty)
  case isFalse hty =>
    rw [if_neg hty]
    exact h

/-- Another mark changes only what there is for a temporary that it closes. -/
theorem Provides.mono {n : Text} {w : Option Binder} {v : Option (Option Expr)} (h : Provides xs T ms n w v)
    {m : Mark} (hm : w = some (.variable none) → T n = some .string → m ≠ .closed n) :
    Provides xs T (ms ++ [m]) n w v := by
  match w, h with
  | none, h => exact h
  | some (.member _), _ => trivial
  | some (.variable b), h => exact Stands.mono h fun hb => hm (by rw [hb])

/-- Another mark changes only what a frame has for a temporary that it closes. -/
theorem FrameSpells.mono (h : FrameSpells xs T ms f γ) {m : Mark}
    (hm : ∀ n, m = .closed n → T n = some .string → (n, .variable none) ∉ γ) :
    FrameSpells xs T (ms ++ [m]) f γ :=
  fun n => (h n).mono fun hγ ht heq => hm n heq ht (Env.mem_of_lookup hγ)

/-- Another mark changes only what frames have for a temporary that it closes. -/
private theorem frames_mono (h : List.Forall₂ (FrameSpells xs T ms) fs γs) {m : Mark}
    (hm : ∀ n, m = .closed n → T n = some .string → ∀ γ ∈ γs, (n, .variable none) ∉ γ) :
    List.Forall₂ (FrameSpells xs T (ms ++ [m])) fs γs := by
  induction h with
  | nil => exact .nil
  | @cons f γ fs γs hf _ ih =>
    refine .cons (hf.mono fun n hn ht => hm n hn ht _ List.mem_cons_self) (ih fun n hn ht γ' hγ' => ?_)
    exact hm n hn ht γ' (List.mem_cons_of_mem _ hγ')

/-- What there is for a name in the first frame that binds it. -/
private theorem frames_lookup (h : List.Forall₂ (FrameSpells xs T ms) fs γs) (n : Text) :
    Provides xs T ms n (γs.flatten.lookup n) (Scope.lookupIn fs n) := by
  -- Frame by frame, from the inside out; the search stops at the first frame that binds the name.
  induction h with
  | nil => rfl
  | @cons f γ fs γs hf _ ih =>
    have hframe := hf n
    rw [List.flatten_cons, List.lookup_append, Scope.lookupIn]
    cases hγ : γ.lookup n with
    | none =>
      rw [hγ] at hframe
      have hnone : f.lookup n = none := hframe
      rw [hnone, Option.none_or]
      exact ih
    | some w =>
      rw [hγ] at hframe
      rw [Option.some_or]
      cases w with
      | member v => trivial
      -- A constant is found, with or without a text.
      | «variable» b =>
        have hsome : ∃ v, f.lookup n = some v := by
          have hstands : Stands xs T ms n b (f.lookup n) := hframe
          unfold Stands at hstands
          split at hstands
          · obtain ⟨e, he, _⟩ := hstands
            exact ⟨_, he⟩
          · exact ⟨_, hstands⟩
        obtain ⟨v, hv⟩ := hsome
        rw [hv] at hframe ⊢
        exact hframe

/-- A new constant for a name. -/
theorem FrameSpells.define (h : FrameSpells xs T ms f γ) {n : Text} {w : Binder} {v : Option Expr}
    (hw : Provides xs T ms n (some w) (some v)) : FrameSpells xs T ms ((n, v) :: f) ((n, w) :: γ) := by
  intro m
  rw [List.lookup_cons, List.lookup_cons]
  by_cases heq : m = n
  · rw [heq, beq_self_eq_true]
    exact hw
  · rw [beq_false_of_ne heq]
    exact h m

/-- A constant is changed in the frame that declares its temporary. -/
private theorem frames_close (h : List.Forall₂ (FrameSpells xs T ms) fs γs) (apart : Apart γs) {n : Text}
    (hn : γs.flatten.lookup n = some (.variable none)) {e : Expr} (hT : T n = some .string)
    (he : Stands xs T (ms ++ [.closed n]) n none (some (some e))) :
    ∃ gs, Scope.rebindIn fs n (some e) = some gs
      ∧ List.Forall₂ (FrameSpells xs T (ms ++ [.closed n])) gs γs := by
  -- The constant is looked for in the same frame as the binding.
  induction h with
  | nil => cases hn
  | @cons f γ fs γs hf hfs ih =>
    obtain ⟨hapart, hrest⟩ := List.pairwise_cons.1 apart
    have hframe := hf n
    rw [List.flatten_cons, List.lookup_append] at hn
    cases hγ : γ.lookup n with
    | none =>
      rw [hγ] at hframe hn
      have hnone : f.lookup n = none := hframe
      obtain ⟨gs, hgs, hspells⟩ := ih hrest hn
      -- The frame stays as it is; it does not bind the name, so its constants keep their meaning.
      refine ⟨f :: gs, ?_, .cons (hf.mono fun m hm _ hmem => ?_) hspells⟩
      · rw [Scope.rebindIn, hnone, if_neg (by simp), hgs, Option.map_some]
      · cases hm
        exact absurd (List.lookup_eq_none_iff.1 hγ _ hmem) (by simp)
    | some w =>
      rw [hγ] at hframe hn
      -- The temporary is declared in this frame.
      cases Option.some.inj hn
      have hhere : (n, Binder.variable none) ∈ γ := Env.mem_of_lookup hγ
      have hsome : (f.lookup n).isSome = true := by
        have hstands : Stands xs T ms n none (f.lookup n) := hframe
        simp only [Stands, typeOf, if_pos hT] at hstands
        obtain ⟨_, heq, _⟩ := hstands
        rw [heq]
        rfl
      refine ⟨((n, some e) :: f) :: fs, by rw [Scope.rebindIn, if_pos hsome], .cons (fun m => ?_) ?_⟩
      -- The new constant hides the one that was there for the name; the other names are as before.
      · rw [List.lookup_cons]
        by_cases heq : m = n
        · rw [heq, hγ, beq_self_eq_true]
          exact he
        · rw [beq_false_of_ne heq]
          exact (hf m).mono fun _ _ h => heq (Mark.closed.inj h).symm
      · -- The frames further out declare other temporaries.
        refine frames_mono hfs fun m hm _ γ' hγ' => ?_
        cases hm
        exact hapart γ' hγ' n hhere

end Frames

namespace Constants.Spell

variable {xs : List Node} {T : Text → Option Ty} {ms : List Mark} {cs : Constants} {γ δ : Env} {δs : List Env}

/-- Nothing is declared in front of a program. -/
theorem empty : Spell xs T [] {} [] [] where
  frames := .cons (fun _ => rfl) .nil
  opened _ hn := by cases hn
  apart := List.pairwise_singleton _ _

/-- An opened block declares nothing yet. -/
theorem push (h : cs.Spell xs T ms δ δs) : Spell xs T ms (Scope.push cs) [] (δ :: δs) where
  frames := .cons (fun _ => rfl) h.frames
  opened := h.opened
  apart := List.pairwise_cons.2 ⟨fun _ _ _ hn => absurd hn List.not_mem_nil, h.apart⟩

/-- A closed block leaves the constants of the frames around it. -/
theorem closed (h : cs.Spell xs T ms γ (δ :: δs)) : Spell xs T ms (Constants.closed cs) δ δs := by
  obtain ⟨inner, outer⟩ := cs
  obtain ⟨hframes, hopened, hapart⟩ := h
  cases hframes with
  | cons _ houter =>
    cases houter with
    | cons hf hfs =>
      exact ⟨.cons hf hfs, fun n hn => hopened n (List.mem_append_right γ hn), (List.pairwise_cons.1 hapart).2⟩

/-- The assignment that closes a temporary of another type than string changes nothing. -/
theorem other (h : cs.Spell xs T ms δ δs) {m : Mark} (hm : ∀ n, m = .closed n → T n ≠ some .string) :
    cs.Spell xs T (ms ++ [m]) δ δs where
  frames := frames_mono h.frames fun n heq ht => absurd ht (hm n heq)
  opened n hn := List.mem_append_left _ (h.opened n hn)
  apart := h.apart

/-- A declaration makes a constant of a string, and hides constants otherwise. -/
theorem declare (h : cs.Spell xs T ms δ δs) {m : Mark} (hnew : m ∉ ms) (hm : ∀ n, m ≠ .closed n) {n : Text}
    {b : Option Binding} (hb : b = none → m = .opened n) {v : Option Expr}
    (hv : Stands xs T (ms ++ [m]) n b (some v)) :
    Spell xs T (ms ++ [m]) (Scope.define cs n v) ((n, .variable b) :: δ) δs := by
  -- A temporary that is declared has been opened: by this mark, or before.
  have hopened : ∀ k, (k, Binder.variable none) ∈ (n, .variable b) :: (δ :: δs).flatten →
      .opened k ∈ ms ++ [m] := by
    intro k hk
    rcases List.mem_cons.1 hk with heq | hk
    · cases heq
      rw [hb rfl]
      exact List.mem_append_right _ List.mem_cons_self
    · exact List.mem_append_left _ (h.opened k hk)
  have hframes := frames_mono h.frames (m := m) fun k hk => absurd hk (hm k)
  obtain ⟨hapart, hrest⟩ := List.pairwise_cons.1 h.apart
  cases hframes with
  | cons hf hfs =>
    refine ⟨.cons (hf.define hv) hfs, hopened, List.pairwise_cons.2 ⟨fun γ hγ k hk hmem => ?_, hrest⟩⟩
    rcases List.mem_cons.1 hk with heq | hk
    · -- The temporary is opened here, so no frame has declared it before.
      cases heq
      have hmark : m = .opened n := hb rfl
      refine hnew (hmark ▸ h.opened n ?_)
      exact List.mem_append_right δ (List.mem_flatten_of_mem hγ hmem)
    · exact hapart γ hγ k hk hmem

/-- The members of an enumeration declare no variable. -/
theorem members (h : cs.Spell xs T ms δ δs) (d : Enumeration) :
    Spell xs T ms (Constants.bindMembers cs d) (membersBehind δ d.members) δs := by
  unfold Constants.bindMembers
  generalize d.members = es
  -- Members are bound one after the other, and none of them is a temporary.
  induction es generalizing cs δ with
  | nil => exact h
  | cons e es ih =>
    refine ih ?_
    have hsame : ∀ n, (n, Binder.variable none) ∈ (e.name, Binder.member e.value) :: δ →
        (n, Binder.variable none) ∈ δ := fun n hn => by simpa using hn
    obtain ⟨hframes, hopened, hapart⟩ := h
    obtain ⟨hapart, hrest⟩ := List.pairwise_cons.1 hapart
    cases hframes with
    | cons hf hfs =>
      refine ⟨.cons (hf.define (w := .member e.value) trivial) hfs, fun n hn => hopened n ?_,
        List.pairwise_cons.2 ⟨fun γ hγ n hn => hapart γ hγ n (hsame n hn), hrest⟩⟩
      rcases List.mem_append.1 hn with hn | hn
      · exact List.mem_append_left _ (hsame n hn)
      · exact List.mem_append_right _ hn

/-- The assignment that closes a temporary changes the constant in the frame that declares it. -/
theorem close (h : cs.Spell xs T ms δ δs) {n t : Text}
    (hn : (δ :: δs).flatten.lookup n = some (.variable none)) (hT : T n = some .string)
    (ht : Spells xs n none t) (sp : Span) :
    ∃ cs' : Constants, Scope.rebind? cs n (some (.literal (.string t) sp)) = some cs'
      ∧ cs'.Spell xs T (ms ++ [.closed n]) δ δs := by
  have hstands : Stands xs T (ms ++ [.closed n]) n none (some (some (.literal (.string t) sp))) := by
    simp only [Stands, typeOf, if_pos hT]
    exact ⟨_, rfl, fun _ => ⟨t, sp, rfl, ht⟩⟩
  obtain ⟨gs, hgs, hspells⟩ := frames_close h.frames h.apart hn hT hstands
  cases hspells with
  | @cons g _ gs _ hg hrest =>
    refine ⟨⟨g, gs⟩, by simp only [Scope.rebind?, hgs], .cons hg hrest, fun k hk => ?_, h.apart⟩
    exact List.mem_append_left _ (h.opened k hk)

/-- What is found under the name of a variable is the text it stands for, if it is a string. -/
theorem reads (h : cs.Spell xs T ms δ δs) {w : Text → Option Binding → Text}
    (hw : ∀ n b t, Spells xs n b t → w n b = t) {i : ExprInfo} {n : Text} {b : Option Binding}
    (hs : Site.Legible T ⟨(δ :: δs).flatten, .expr (.var i n b)⟩) (hread : b = none → .closed n ∈ ms)
    (ε : Env) : (byBinding ε i n b).substitute cs = byWord w ε i n b
      ∧ (i.ty = some .string → ∃ t, Spells xs n b t) := by
  -- What the constants have for the name agrees with what the bindings have.
  have hanswers : Provides xs T ms n ((δ :: δs).flatten.lookup n) (cs.lookup n) := frames_lookup h.frames n
  cases hvalue : b.bind Binding.value? with
  | some v =>
    -- A member has the type of its enumeration and is no string.
    have hty : i.ty ≠ some .string := by
      cases b with
      | none => cases hvalue
      | some c =>
        have hmember : c.value? = some v := hvalue
        obtain ⟨hty, _, hscript⟩ := (hs.clear _ rfl).2 i n c rfl
        rw [hty]
        intro hstring
        simp [Binding.value?, hscript (Option.some.inj hstring)] at hmember
    refine ⟨?_, fun hstring => absurd hstring hty⟩
    simp only [byWord, if_neg hty, byBinding, hvalue, valueOr]
    rfl
  | none =>
    -- Without a constant text the variable is kept.
    have hkept : i.ty ≠ some .string → (∀ v, cs.lookup n ≠ some (some v)) →
        (byBinding ε i n b).substitute cs = byWord w ε i n b := by
      intro hty hlookup
      simp only [byWord, if_neg hty, byBinding, hvalue, valueOr]
      rw [Expr.substitute]
      split
      · exact absurd ‹_› (hlookup _)
      · rfl
    -- Either the binding is in scope, or nothing of the name is and the variable is the host's.
    rcases hs.found i n b rfl hvalue with ⟨hfound, hty⟩ | ⟨hnone, hty⟩
    · have hfound : (δ :: δs).flatten.lookup n = some (.variable b) := hfound
      rw [hfound] at hanswers
      have hstands : Stands xs T ms n b (cs.lookup n) := hanswers
      unfold Stands at hstands
      rw [← hty] at hstands
      split at hstands
      -- A string stands for the text of its constant, and the word for it is the same.
      case isTrue hstring =>
        obtain ⟨e, he, hspells⟩ := hstands
        obtain ⟨t, sp, rfl, ht⟩ := hspells hread
        refine ⟨?_, fun _ => ⟨t, ht⟩⟩
        simp only [byWord, if_pos hstring, byBinding, hvalue, valueOr, Expr.substitute, he, hw n b t ht]
        rfl
      case isFalse hstring =>
        refine ⟨hkept hstring fun v hv => ?_, fun hs => absurd hs hstring⟩
        cases hstands.symm.trans hv
    -- Host variables are no strings and have no constant.
    · have hnone : (δ :: δs).flatten.lookup n = none := hnone
      rw [hnone] at hanswers
      refine ⟨hkept hty fun v hv => ?_, fun hs => absurd hs hty⟩
      cases (show cs.lookup n = none from hanswers).symm.trans hv

end Constants.Spell

/-! ## Expressions -/

mutual

/-- What is substituted in a reading is another reading if it is so at every variable. -/
private theorem Expr.substitute_replace {cs : Constants} {r r' : Reading} {ε : Env} : (e : Expr) →
    (∀ i n b, .var i n b ∈ e.nodes → (r ε i n b).substitute cs = r' ε i n b) →
      (e.replace r ε).substitute cs = e.replace r' ε
  | .const _ _, _ => rfl
  | .var i n b, h => h i n b List.mem_cons_self
  | .binary _ _ x y, h => by
    simp only [Expr.replace, Expr.substitute]
    rw [Expr.substitute_replace x fun i n b hx => h i n b (List.mem_cons_of_mem _ (List.mem_append_left _ hx)),
      Expr.substitute_replace y fun i n b hy => h i n b (List.mem_cons_of_mem _ (List.mem_append_right _ hy))]
  | .unary _ _ x, h => by
    simp only [Expr.replace, Expr.substitute]
    rw [Expr.substitute_replace x fun i n b hx => h i n b (List.mem_cons_of_mem _ hx)]
  | .call _ _ _ args _, h => by
    simp only [Expr.replace, Expr.substitute]
    rw [substituteList_replace args fun i n b hx => h i n b (List.mem_cons_of_mem _ hx)]
  | .member _ _ b _ _, h => by
    simp only [Expr.replace, Expr.substitute]
    rw [Expr.substitute_replace b fun i n b hx => h i n b (List.mem_cons_of_mem _ hx)]
  | .query _ _ _ u x c, h => by
    have h' : ∀ i n b, .var i n b ∈ nodesOfOption u ++ nodesOfOption x ++ nodesOfOption c →
        (r ε i n b).substitute cs = r' ε i n b := fun i n b hx => h i n b (List.mem_cons_of_mem _ hx)
    simp only [Expr.replace, Expr.substitute]
    rw [substituteOption_replace u fun i n b hx => h' i n b (List.mem_append_left _ (List.mem_append_left _ hx)),
      substituteOption_replace x fun i n b hx => h' i n b (List.mem_append_left _ (List.mem_append_right _ hx)),
      substituteOption_replace c fun i n b hx => h' i n b (List.mem_append_right _ hx)]

/-- What is substituted in readings of several expressions. -/
private theorem substituteList_replace {cs : Constants} {r r' : Reading} {ε : Env} : (es : List Expr) →
    (∀ i n b, .var i n b ∈ nodesOfList es → (r ε i n b).substitute cs = r' ε i n b) →
      substituteList cs (replaceList r ε es) = replaceList r' ε es
  | [], _ => rfl
  | e :: es, h => by
    simp only [replaceList, substituteList]
    rw [Expr.substitute_replace e fun i n b hx => h i n b (List.mem_append_left _ hx),
      substituteList_replace es fun i n b hx => h i n b (List.mem_append_right _ hx)]

/-- What is substituted in the reading of an expression that may be absent. -/
private theorem substituteOption_replace {cs : Constants} {r r' : Reading} {ε : Env} : (e : Option Expr) →
    (∀ i n b, .var i n b ∈ nodesOfOption e → (r ε i n b).substitute cs = r' ε i n b) →
      substituteOption cs (replaceOption r ε e) = replaceOption r' ε e
  | none, _ => rfl
  | some e, h => by
    simp only [replaceOption, substituteOption]
    rw [Expr.substitute_replace e h]

end

/-- A reference to a string variable that stands for a text. -/
def Node.Spelled (xs : List Node) (x : Node) : Prop :=
  ∀ i n b, x = .expr (.var i n b) → i.ty = some .string → ∃ t, Spells xs n b t

/-- A statement is no reference. -/
private theorem Node.spelled_stmt {xs : List Node} (s : Stmt) :
    Node.Spelled xs (.stmt s) := fun _ _ _ h => by cases h

section Walk

variable {xs : List Node} {T : Text → Option Ty} {w : Text → Option Binding → Text} {ms : List Mark}
  {cs : Constants} {δ : Env} {δs : List Env}

/-- The variables of expressions are met behind the assignments that give them their values. -/
theorem Constants.Spell.exprs (h : cs.Spell xs T ms δ δs) (hw : ∀ n b t, Spells xs n b t → w n b = t)
    {es : List Expr} (hplaces : ∀ e ∈ es, Site.Legible T ⟨(δ :: δs).flatten, .expr e⟩)
    (hreads : ∀ n t, .read n t ∈ acts (es.map .expr) → .closed n ∈ ms) :
    (∀ ε i n b, .var i n b ∈ es → (byBinding ε i n b).substitute cs = byWord w ε i n b)
      ∧ ∀ e ∈ es, Node.Spelled xs (.expr e) := by
  have hread : ∀ i n b, .var i n b ∈ es → b = none → .closed n ∈ ms := by
    intro i n b hx hb
    subst hb
    exact hreads n i.ty (List.mem_filterMap.2 ⟨_, List.mem_map_of_mem hx, rfl⟩)
  refine ⟨fun ε i n b hx => (h.reads hw (hplaces _ hx) (hread i n b hx) ε).1, ?_⟩
  rintro e he i n b heq hty
  cases heq
  exact (h.reads hw (hplaces _ he) (hread i n b he) []).2 hty

/-- What is read at places that are legible is closed. -/
theorem Legible.closed {es : List Expr} {ε : Env} (h : Legible xs T ms ((es.map .expr).map (Site.mk ε))) :
    ∀ n t, .read n t ∈ acts (es.map .expr) → .closed n ∈ ms := by
  have htimely := h.timely
  rw [siteActs_map] at htimely
  exact fun n t hn => closed_of_timely (acts_exprs es) htimely hn

/-- What is legible behind expressions, which make no marks. -/
theorem Legible.behind {es : List Expr} {ε : Env} {ss : List Site}
    (h : Legible xs T ms ((es.map .expr).map (Site.mk ε) ++ ss)) :
    Legible xs T ms ((es.map .expr).map (Site.mk ε)) ∧ Legible xs T ms ss := by
  obtain ⟨hes, hss⟩ := h.append
  rw [siteActs_map, marks_exprs, List.append_nil] at hss
  exact ⟨hes, hss⟩

/-- What is legible at the places of expressions. -/
theorem Legible.exprs {es : List Expr} {ε : Env} (h : Legible xs T ms ((es.map .expr).map (Site.mk ε))) :
    ∀ e ∈ es, Site.Legible T ⟨ε, .expr e⟩ :=
  fun _ he => h.places _ (List.mem_map_of_mem (List.mem_map_of_mem he))

/-- The value of a string assignment is a literal behind the substitution, and the text of what the
assignment gives a value. -/
theorem Assign.word (hw : ∀ n b t, Spells xs n b t → w n b = t) {i : AssignInfo} {v : Expr}
    (hmem : .stmt (.assign (.mk i v)) ∈ xs) (hv : v.IsWorded) (hspelled : Node.Spelled xs (.expr v))
    (hty : v.ty? = some .string) (ε : Env) :
    ∃ t sp, v.replace (byWord w) ε = .literal (.string t) sp
      ∧ ∀ n b, (Assign.mk i v).Gives n b → Spells xs n b t := by
  -- Behind the substitution a string is a literal, so its source was one or was a variable.
  cases v with
  | const j l =>
    obtain ⟨t, rfl⟩ := hv hty
    obtain ⟨sp, ty⟩ := j
    obtain rfl : ty = some .string := hty
    exact ⟨t, sp, rfl, fun n b hg => .literal hmem hg rfl⟩
  | var j m d =>
    obtain ⟨t, ht⟩ := hspelled j m d rfl hty
    refine ⟨t, j.span, ?_, fun n b hg => .through hmem hg rfl ht⟩
    have hstring : j.ty = some .string := hty
    simp only [Expr.replace, byWord, if_pos hstring, hw m d t ht]
  | _ => exact absurd hty hv

/-- The mark of a declaration. -/
private theorem Assign.mark?_declares {a : Assign} (hd : a.info.declares = true) : ∃ m, a.mark? = some m
    ∧ (∀ n, m ≠ .closed n) ∧ (a.info.binding = none → m = .opened a.info.name) := by
  cases hb : a.info.binding with
  | none => exact ⟨.opened a.info.name, by simp [Assign.mark?, hd, hb], by simp, fun _ => rfl⟩
  | some b => exact ⟨.own b.id, by simp [Assign.mark?, hd, hb], by simp, fun h => by cases h⟩

/-- The rule for strings at an assignment whose value `v` the substitution has been through. -/
theorem Constants.Spell.rule (h : cs.Spell xs T ms δ δs) {i : AssignInfo} {v : Expr} {u : Ty}
    (hknown : v.knownTy = .ok u) (hnew : ∀ m, (Assign.mk i v).mark? = some m → m ∉ ms)
    (hopens : ∀ n, (Assign.mk i v).mark? = some (.opened n) → .closed n ∉ ms)
    (hdeclared : i.declares = true → (typeOf T i.name i.binding = some .string ↔ u = .string))
    (hclosed : ∀ n, (Assign.mk i v).mark? = some (.closed n) →
      (δ :: δs).flatten.lookup n = some (.variable none) ∧ (T n = some .string ↔ u = .string))
    (hassigned : ∀ b, i.declares = false → i.binding = some b → u ≠ .string)
    (hword : u = .string → ∃ t sp, v = .literal (.string t) sp
      ∧ ∀ n b, (Assign.mk i v).Gives n b → Spells xs n b t) :
    ∃ cs', absorbString cs (.mk i v) = .ok (decide (u ≠ .string), cs')
      ∧ cs'.Spell xs T (ms ++ (Assign.mk i v).mark?.toList) ((Assign.mk i v).behind δ) δs := by
  simp only [absorbString, Assign.value, hknown, Assign.info, bind, Except.bind]
  -- Strings are absorbed: declared ones as new constants, temporaries as changed ones.
  by_cases hu : u = .string
  · obtain ⟨t, sp, rfl, hspells⟩ := hword hu
    rw [if_pos hu]
    rcases Bool.eq_false_or_eq_true i.declares with hd | hd
    · obtain ⟨m, hm, hopen, htemp⟩ := Assign.mark?_declares (a := .mk i (.literal (.string t) sp)) hd
      have hbehind : (Assign.mk i (.literal (.string t) sp)).behind δ = (i.name, .variable i.binding) :: δ :=
        if_pos hd
      -- A new constant in the innermost frame.
      refine ⟨_, by simp [hu, hd, pure, Except.pure]; rfl, ?_⟩
      rw [hm, hbehind]
      refine h.declare (n := i.name) (b := i.binding) (hnew m hm) hopen htemp ?_
      unfold Stands
      rw [if_pos ((hdeclared hd).2 hu)]
      refine ⟨_, rfl, fun hgives => ⟨t, sp, rfl, hspells _ _ ?_⟩⟩
      cases hb : i.binding with
      | some b => exact ⟨hd, hb⟩
      | none =>
        -- What is only opened here is not closed.
        rcases List.mem_append.1 (hgives hb) with hmem | hmem
        · exact absurd hmem (hopens i.name (hm.trans (congrArg some (htemp hb))))
        · exact absurd (List.mem_singleton.1 hmem).symm (hopen _)
    -- No declaration, so the assignment closes a temporary, or it is none of a string.
    · cases hb : i.binding with
      | some b => exact absurd hu (hassigned b hd hb)
      | none =>
        have hm : (Assign.mk i (.literal (.string t) sp)).mark? = some (.closed i.name) := by
          simp [Assign.mark?, Assign.info, hd, hb]
        have hbehind : (Assign.mk i (.literal (.string t) sp)).behind δ = δ := if_neg (by
          rw [Assign.info, hd]
          exact Bool.false_ne_true)
        -- The constant of the temporary is changed where it was declared.
        obtain ⟨hfound, hT⟩ := hclosed i.name hm
        obtain ⟨cs', hcs', hspell⟩ := h.close hfound (hT.2 hu) (hspells i.name none hm) sp
        refine ⟨cs', by simp [hu, hd, hcs', pure, Except.pure], ?_⟩
        rw [hm, hbehind]
        exact hspell
  -- Other values are kept, and a declaration hides a constant of the same name.
  · rw [if_neg hu]
    rcases Bool.eq_false_or_eq_true i.declares with hd | hd
    · obtain ⟨m, hm, hopen, htemp⟩ := Assign.mark?_declares (a := .mk i v) hd
      have hbehind : (Assign.mk i v).behind δ = (i.name, .variable i.binding) :: δ := if_pos hd
      refine ⟨_, by simp [hu, hd, pure, Except.pure]; rfl, ?_⟩
      rw [hm, hbehind]
      refine h.declare (n := i.name) (b := i.binding) (hnew m hm) hopen htemp ?_
      unfold Stands
      rw [if_neg fun ht => hu ((hdeclared hd).1 ht)]
    -- A plain assignment leaves the constants alone.
    · have hbehind : (Assign.mk i v).behind δ = δ := if_neg (by
        rw [Assign.info, hd]
        exact Bool.false_ne_true)
      refine ⟨cs, by simp [hu, hd, pure, Except.pure], ?_⟩
      rw [hbehind]
      cases hm : (Assign.mk i v).mark? with
      | none => simpa using h
      | some m =>
        refine h.other fun n hn => ?_
        subst hn
        exact fun ht => hu ((hclosed n hm).2.1 ht)

/-- A step of the substitution of strings: it gives `x`, the constants behind it are those of the frames, and
all string variables that it meets stand for texts. -/
def Absorbs {α : Type} (xs : List Node) (T : Text → Option Ty) (ms : List Mark) (ss : List Site) (δ : Env)
    (δs : List Env) (r : Except Fault (α × Constants)) (x : α) : Prop :=
  (∀ s ∈ ss, s.node.Spelled xs)
    ∧ ∃ cs' : Constants, r = .ok (x, cs') ∧ cs'.Spell xs T (ms ++ marks (siteActs ss)) δ δs

namespace Absorbs

variable {α β : Type} {ss ts : List Site} {γ : Env} {γs : List Env} {r : Except Fault (α × Constants)} {x : α}

/-- Nothing is left to do. -/
theorem pure (h : cs.Spell xs T ms δ δs) (x : α) : Absorbs xs T ms [] δ δs (Pure.pure (x, cs)) x :=
  ⟨List.forall_mem_nil _, cs, rfl, by simpa [siteActs] using h⟩

/-- A step behind another one. -/
theorem bind (h : Absorbs xs T ms ss δ δs r x) {k : α × Constants → Except Fault (β × Constants)} {y : β}
    (hk : ∀ cs' : Constants, cs'.Spell xs T (ms ++ marks (siteActs ss)) δ δs →
      Absorbs xs T (ms ++ marks (siteActs ss)) ts γ γs (k (x, cs')) y) :
    Absorbs xs T ms (ss ++ ts) γ γs (r >>= k) y := by
  obtain ⟨hss, cs', rfl, hcs'⟩ := h
  obtain ⟨hts, cs'', hy, hcs''⟩ := hk cs' hcs'
  refine ⟨List.forall_mem_append.2 ⟨hss, hts⟩, cs'', hy, ?_⟩
  rw [siteActs_append, marks_append, ← List.append_assoc]
  exact hcs''

/-- A step of which something else is made. -/
theorem map (h : Absorbs xs T ms ss δ δs r x) {k : α × Constants → Except Fault (β × Constants)} {y : β}
    (hk : ∀ cs' : Constants, cs'.Spell xs T (ms ++ marks (siteActs ss)) δ δs →
      ∃ cs'' : Constants, k (x, cs') = .ok (y, cs'') ∧ cs''.Spell xs T (ms ++ marks (siteActs ss)) γ γs) :
    Absorbs xs T ms ss γ γs (r >>= k) y := by
  obtain ⟨hss, cs', rfl, hcs'⟩ := h
  obtain ⟨cs'', hy, hcs''⟩ := hk cs' hcs'
  exact ⟨hss, cs'', hy, hcs''⟩

/-- A statement that is no assignment is not met by itself. -/
theorem stmt (h : Absorbs xs T ms ss δ δs r x) {ε : Env} {s : Stmt} (hs : ∀ a, s ≠ .assign a) :
    Absorbs xs T ms (⟨ε, .stmt s⟩ :: ss) δ δs r x := by
  obtain ⟨hss, cs', hr, hcs'⟩ := h
  refine ⟨List.forall_mem_cons.2 ⟨Node.spelled_stmt s, hss⟩, cs', hr, ?_⟩
  have hacts : siteActs (⟨ε, .stmt s⟩ :: ss) = siteActs ss := acts_stmt hs _
  rw [hacts]
  exact hcs'

/-- Expressions that are met in front of a step. -/
theorem behind (h : Absorbs xs T ms ss δ δs r x) {es : List Expr} (hes : ∀ e ∈ es, Node.Spelled xs (.expr e))
    (ε : Env) : Absorbs xs T ms ((es.map .expr).map (Site.mk ε) ++ ss) δ δs r x := by
  obtain ⟨hss, cs', hr, hcs'⟩ := h
  refine ⟨List.forall_mem_append.2 ⟨?_, hss⟩, cs', hr, ?_⟩
  · exact List.forall_mem_map.2 (List.forall_mem_map.2 hes)
  · rw [siteActs_append, siteActs_map, marks_append, marks_exprs, List.nil_append]
    exact hcs'

end Absorbs

/-- Substitution in an assignment: those of strings go. -/
theorem Assign.absorbs (h : cs.Spell xs T ms δ δs) (hw : ∀ n b t, Spells xs n b t → w n b = t) (a : Assign)
    (ha : Legible xs T ms (a.sites (δ :: δs).flatten)) :
    Absorbs xs T ms (a.sites (δ :: δs).flatten) (a.behind δ) δs
      ((a.replace byBinding (δ :: δs).flatten).substitute absorbString cs)
      ((some (a.replace (byWord w) (δ :: δs).flatten)).filter Assign.stores) := by
  obtain ⟨i, v⟩ := a
  generalize hε : (δ :: δs).flatten = ε at ha ⊢
  have hsites : (Assign.mk i v).sites ε = ⟨ε, .stmt (.assign (.mk i v))⟩ :: (exprNodes v).map (Site.mk ε) := rfl
  -- The only action of an assignment that counts is its own; the value does nothing.
  have hmarks : marks (siteActs ((Assign.mk i v).sites ε)) = (Assign.mk i v).mark?.toList := by
    have hacts : siteActs ((Assign.mk i v).sites ε) = .assign (.mk i v) :: acts (exprNodes v) := by
      rw [Assign.sites, siteActs_map, acts_assign]
      rfl
    rw [hacts, marks_cons, exprNodes, marks_exprs, List.append_nil]
    rfl
  have htimely := ha.timely
  have honce := ha.once
  rw [hmarks] at honce
  rw [Assign.sites, siteActs_map, acts_assign] at htimely
  have hself : Site.Legible T ⟨ε, .stmt (.assign (.mk i v))⟩ := ha.places _ List.mem_cons_self
  have hplaces : ∀ e ∈ v.nodes, Site.Legible T ⟨(δ :: δs).flatten, .expr e⟩ := fun e he => by
    rw [hε]
    exact ha.places _ (List.mem_cons_of_mem _ (List.mem_map_of_mem (List.mem_map_of_mem he)))
  -- All variables of the value are read as words, so the value is substituted as a whole.
  obtain ⟨hvars, hspelled⟩ := h.exprs hw hplaces htimely.1.2
  have hhead : v ∈ v.nodes := by cases v <;> exact List.mem_cons_self
  have hworded : v.IsWorded := ((hplaces v hhead).clear v rfl).1
  have hmem : Node.stmt (.assign (.mk i v)) ∈ xs := ha.known _ List.mem_cons_self
  have hv : (v.replace byBinding ε).substitute cs = v.replace (byWord w) ε :=
    Expr.substitute_replace v (hvars ε)
  -- The type before and after substitution is the same, up to strings that became literals.
  obtain ⟨t, ht, _⟩ : ∃ t, v.ty? = some t ∧ t.isProper = true := ha.settled _ List.mem_cons_self
  obtain ⟨hstring, hsome⟩ := v.ty?_byWord w ε
  obtain ⟨u, hu⟩ := Option.isSome_iff_exists.1 (hsome (by rw [ht]; rfl))
  have hknown : (v.replace (byWord w) ε).knownTy = .ok u := by rw [Expr.knownTy, hu]
  refine ⟨List.forall_mem_cons.2 ⟨Node.spelled_stmt _, ?_⟩, ?_⟩
  · exact List.forall_mem_map.2 (List.forall_mem_map.2 hspelled)
  -- The assignment is kept if and only if its value is no string.
  have hstored : (Assign.mk i (v.replace (byWord w) ε)).stores = decide (u ≠ .string) := by
    rw [Bool.eq_iff_iff]
    simp [Assign.stores, Assign.value, hu]
  have hvu : v.ty? = some .string ↔ u = .string := by
    rw [← hstring, hu, Option.some.injEq]
  have hgiven : ∀ T' : Option Ty, v.ty? = T' → (T' = some .string ↔ u = .string) := fun T' heq => by
    rw [← heq, hvu]
  -- The mark is a new one, as no action happens twice.
  have hnew : ∀ m, (Assign.mk i v).mark? = some m → m ∉ ms := by
    intro m hm hmem
    rw [hm] at honce
    exact (List.nodup_append.1 honce).2.2 m hmem m List.mem_cons_self rfl
  have hclosed : ∀ n, (Assign.mk i v).mark? = some (.closed n) →
      (δ :: δs).flatten.lookup n = some (.variable none) ∧ (T n = some .string ↔ u = .string) := by
    intro n hm
    obtain ⟨hfound, hT⟩ := hself.closed _ n rfl hm
    exact ⟨by rw [hε]; exact hfound, hgiven _ hT⟩
  -- The rule applies with what is known of the place.
  obtain ⟨cs', hrule, hspell⟩ := h.rule (i := i) hknown hnew htimely.1.1
    (fun hd => hgiven _ (hself.declared _ rfl hd)) hclosed
    (fun b hd hb hu => hself.assigned _ b rfl hd hb (hvu.2 hu))
    (fun hu => Assign.word hw hmem hworded (hspelled v hhead) (hvu.2 hu) ε)
  refine ⟨cs', ?_, ?_⟩
  · simp only [Assign.replace, Assign.substitute, hv, hrule, bind, Except.bind, Option.filter, hstored]
    rfl
  · rw [hmarks]
    exact hspell

/-- Substitution in a clause that may be absent. -/
private theorem clause_absorbs (h : cs.Spell xs T ms δ δs) (hw : ∀ n b t, Spells xs n b t → w n b = t)
    (a : Option Assign) (ha : Legible xs T ms (clauseSites (δ :: δs).flatten a)) :
    Absorbs xs T ms (clauseSites (δ :: δs).flatten a) (clauseBehind δ a) δs
      (substituteClause absorbString cs (a.map (·.replace byBinding (δ :: δs).flatten)))
      ((a.map (·.replace (byWord w) (δ :: δs).flatten)).filter Assign.stores) := by
  cases a with
  | none => exact .pure h none
  | some a => exact a.absorbs h hw ha

/-- A list behind an element that may be filtered out. -/
private theorem filter_cons_eq {α : Type} (f : α → Bool) (a : α) (as : List α) :
    (a :: as).filter f = ((some a).filter f).toList ++ as.filter f := by
  cases h : f a <;> simp [h, Option.filter]

/-- Substitution in assignments in order. -/
private theorem assigns_absorb (h : cs.Spell xs T ms δ δs) (hw : ∀ n b t, Spells xs n b t → w n b = t)
    (as : List Assign) (has : Legible xs T ms (assignsSites (δ :: δs).flatten as)) :
    Absorbs xs T ms (assignsSites (δ :: δs).flatten as) (assignsBehind δ as) δs
      (substituteAssigns absorbString cs (replaceAssigns byBinding (δ :: δs).flatten as))
      ((replaceAssigns (byWord w) (δ :: δs).flatten as).filter Assign.stores) := by
  induction as generalizing cs ms δ with
  | nil => exact .pure h []
  | cons a as ih =>
    obtain ⟨ha, has⟩ := Legible.append has
    have hbehind : a.behind (δ :: δs).flatten = (a.behind δ :: δs).flatten := a.behind_append δ δs.flatten
    rw [hbehind] at has
    simp only [replaceAssigns, filter_cons_eq, substituteAssigns, assignsSites, assignsBehind, hbehind]
    refine (a.absorbs h hw ha).bind fun cs₁ h₁ => (ih h₁ has).map fun cs₂ h₂ => ⟨cs₂, rfl, h₂⟩

mutual

/-- Substitution in a statement. -/
theorem Stmt.absorbs (hw : ∀ n b t, Spells xs n b t → w n b = t) : (s : Stmt) →
    ∀ {ms : List Mark} {cs : Constants} {δ : Env} {δs : List Env}, cs.Spell xs T ms δ δs →
      Legible xs T ms (s.sites (δ :: δs).flatten) →
        Absorbs xs T ms (s.sites (δ :: δs).flatten) (s.behind δ) δs
          ((s.replace byBinding (δ :: δs).flatten).substitute absorbString cs)
          (s.replace (byWord w) (δ :: δs).flatten).withoutStrings
  | .block b, _, _, _, _, h, hs => by
    refine Absorbs.stmt ?_ (by simp)
    exact (Block.absorbs hw b h (hs.stmt (by simp))).map fun cs' h' => ⟨cs', rfl, h'⟩
  | .assign a, _, _, _, _, h, hs => (a.absorbs h hw hs).map fun cs' h' => ⟨cs', rfl, h'⟩
  | .eval s e, _, _, δ, δs, h, hs => by
    have hs := hs.stmt (by simp)
    -- The expression stands at the place of the statement and acts on nothing.
    obtain ⟨hvars, hspelled⟩ := h.exprs hw hs.exprs hs.closed
    have hstep := (Absorbs.pure h [Stmt.eval s (e.replace (byWord w) (δ :: δs).flatten)]).behind hspelled
      (δ :: δs).flatten
    simp only [Stmt.replace, Stmt.substitute, Expr.substitute_replace e (hvars _)]
    rw [List.append_nil] at hstep
    exact hstep.stmt (by simp)
  | .assignMember s t v, _, _, δ, δs, h, hs => by
    have hs := hs.stmt (by simp)
    -- Target and value stand at the same place.
    have hsites : exprSites (δ :: δs).flatten t ++ exprSites (δ :: δs).flatten v
        = ((t.nodes ++ v.nodes).map Node.expr).map (Site.mk (δ :: δs).flatten) := by
      simp [exprSites, exprNodes]
    rw [hsites] at hs
    obtain ⟨hvars, hspelled⟩ := h.exprs hw hs.exprs hs.closed
    have hstep := (Absorbs.pure h [Stmt.assignMember s (t.replace (byWord w) (δ :: δs).flatten)
      (v.replace (byWord w) (δ :: δs).flatten)]).behind hspelled (δ :: δs).flatten
    simp only [Stmt.replace, Stmt.substitute, Stmt.sites, hsites,
      Expr.substitute_replace t fun i n b hx => hvars _ i n b (List.mem_append_left _ hx),
      Expr.substitute_replace v fun i n b hx => hvars _ i n b (List.mem_append_right _ hx)]
    rw [List.append_nil] at hstep
    exact hstep.stmt (by simp)
  | .cond s c t none, _, _, δ, δs, h, hs => by
    -- The test first, then the branch or both of them, each in a scope of its own.
    obtain ⟨hc, ht⟩ := Legible.behind (hs.stmt (by simp))
    obtain ⟨hvars, hspelled⟩ := h.exprs hw hc.exprs hc.closed
    simp only [Stmt.replace, replaceElse, Stmt.substitute, Expr.substitute_replace c (hvars _)]
    refine Absorbs.stmt (Absorbs.behind ?_ hspelled _) (by simp)
    exact (Block.absorbs hw t h ht).map fun cs₁ h₁ => ⟨cs₁, rfl, h₁⟩
  | .cond s c t (some f), _, _, δ, δs, h, hs => by
    obtain ⟨hct, hf⟩ := Legible.append (hs.stmt (by simp))
    obtain ⟨hc, ht⟩ := hct.behind
    obtain ⟨hvars, hspelled⟩ := h.exprs hw hc.exprs hc.closed
    simp only [Stmt.replace, replaceElse, Stmt.substitute, Expr.substitute_replace c (hvars _)]
    -- The second branch meets the marks of the first.
    refine Absorbs.stmt (((Block.absorbs hw t h ht).behind hspelled _).bind fun cs₁ h₁ => ?_) (by simp)
    obtain ⟨hspelled', cs₂, hf₂, h₂⟩ := Block.absorbs hw f h₁ hf
    refine ⟨hspelled', cs₂, ?_, h₂⟩
    simp only [substituteElse, hf₂]
    rfl
  | .loop s c b, _, _, δ, δs, h, hs => by
    obtain ⟨hc, hb⟩ := Legible.behind (hs.stmt (by simp))
    obtain ⟨hvars, hspelled⟩ := h.exprs hw hc.exprs hc.closed
    simp only [Stmt.replace, Stmt.substitute, Expr.substitute_replace c (hvars _)]
    refine Absorbs.stmt (Absorbs.behind ?_ hspelled _) (by simp)
    exact (Block.absorbs hw b h hb).map fun cs₁ h₁ => ⟨cs₁, rfl, h₁⟩
  | .forLoop s i c st b, ms, cs, δ, δs, h, hs => by
    -- Test, first clause, step and body are legible one behind the other, in the scopes of the header.
    have hfirst : clauseBehind (δ :: δs).flatten i = (clauseBehind [] i :: δ :: δs).flatten :=
      clauseBehind_append [] (δ :: δs).flatten i
    have hsecond : clauseBehind (clauseBehind [] i :: δ :: δs).flatten st
        = (clauseBehind (clauseBehind [] i) st :: δ :: δs).flatten :=
      clauseBehind_append (clauseBehind [] i) (δ :: δs).flatten st
    have hs := hs.stmt (by simp)
    rw [hfirst, hsecond, List.append_assoc, List.append_assoc] at hs
    obtain ⟨htest, hs⟩ := Legible.behind hs
    obtain ⟨hi, hs⟩ := Legible.append hs
    obtain ⟨hst, hb⟩ := Legible.append hs
    have hclause := clause_absorbs h.push hw i hi
    -- The test is read behind the first clause.
    have hvars : ∀ cs₁ : Constants, cs₁.Spell xs T (ms ++ marks (siteActs (clauseSites (δ :: δs).flatten i)))
        (clauseBehind [] i) (δ :: δs) → _ := fun cs₁ h₁ =>
      h₁.exprs hw htest.exprs fun n t hn => List.mem_append_left _ (htest.closed n t hn)
    obtain ⟨_, cs₁, _, h₁⟩ := id hclause
    refine Absorbs.stmt ?_ (by simp)
    rw [hfirst, hsecond, List.append_assoc, List.append_assoc]
    refine Absorbs.behind ?_ (hvars cs₁ h₁).2 _
    simp only [Stmt.replace, Stmt.substitute, hfirst, hsecond]
    refine hclause.bind fun cs₁ h₁ => ?_
    simp only [substituteOption_replace c ((hvars cs₁ h₁).1 _)]
    -- The step is substituted behind the first clause, and the body in a frame on top of both.
    exact (clause_absorbs h₁ hw st hst).bind fun cs₂ h₂ =>
      (Block.absorbs hw b h₂ hb).map fun cs₃ h₃ => ⟨cs₃.closed, rfl, h₃.closed⟩
  | .leave _, _, _, _, _, h, _ | .code _ _, _, _, _, _, h, _ | .bitfieldDef _ _, _, _, _, _, h, _ =>
    (Absorbs.pure h _).stmt (by simp)
  -- An enumeration binds its members and stores nothing.
  | .enumDef s d, _, _, _, _, h, _ =>
    (Absorbs.pure (h.members d) [Stmt.enumDef s d]).stmt (by simp)
  -- An expanded program holds no returns, definitions or requires.
  | .ret s v, _, _, _, _, _, hs => (hs.settled _ List.mem_cons_self).elim
  | .funcDef s n ns ps b, _, _, _, _, _, hs => (hs.settled _ List.mem_cons_self).elim
  | .require s p, _, _, _, _, _, hs => (hs.settled _ List.mem_cons_self).elim

/-- Substitution in statements in order. -/
private theorem stmts_absorb (hw : ∀ n b t, Spells xs n b t → w n b = t) : (ss : List Stmt) →
    ∀ {ms : List Mark} {cs : Constants} {δ : Env} {δs : List Env}, cs.Spell xs T ms δ δs →
      Legible xs T ms (stmtsSites (δ :: δs).flatten ss) →
        Absorbs xs T ms (stmtsSites (δ :: δs).flatten ss) (stmtsBehind δ ss) δs
          (substituteStmts absorbString cs (replaceStmts byBinding (δ :: δs).flatten ss))
          (stmtsWithoutStrings (replaceStmts (byWord w) (δ :: δs).flatten ss))
  | [], _, _, _, _, h, _ => .pure h []
  | s :: ss, _, _, δ, δs, h, hs => by
    obtain ⟨hs, hss⟩ := Legible.append hs
    -- What is declared by a statement is seen by the ones behind it.
    have hbehind : s.behind (δ :: δs).flatten = (s.behind δ :: δs).flatten := s.behind_append δ δs.flatten
    rw [hbehind] at hss
    simp only [replaceStmts, stmtsWithoutStrings, substituteStmts, stmtsSites, stmtsBehind, hbehind]
    exact (Stmt.absorbs hw s h hs).bind fun cs₁ h₁ =>
      (stmts_absorb hw ss h₁ hss).map fun cs₂ h₂ => ⟨cs₂, rfl, h₂⟩

/-- Substitution in a block. -/
theorem Block.absorbs (hw : ∀ n b t, Spells xs n b t → w n b = t) : (b : Block) →
    ∀ {ms : List Mark} {cs : Constants} {δ : Env} {δs : List Env}, cs.Spell xs T ms δ δs →
      Legible xs T ms (b.sites (δ :: δs).flatten) →
        Absorbs xs T ms (b.sites (δ :: δs).flatten) δ δs
          ((b.replace byBinding (δ :: δs).flatten).substituteIn absorbString cs)
          (b.replace (byWord w) (δ :: δs).flatten).withoutStrings
  | .mk os ss sp, _, _, δ, δs, h, hs => by
    obtain ⟨hos, hss⟩ := Legible.append hs
    -- Overrides open the frame of the block, and the statements go on with it.
    have hbehind : assignsBehind (δ :: δs).flatten os = (assignsBehind [] os :: δ :: δs).flatten :=
      assignsBehind_append [] (δ :: δs).flatten os
    rw [hbehind] at hss
    simp only [Block.replace, Block.withoutStrings, Block.substituteIn, Block.sites, hbehind]
    exact (assigns_absorb h.push hw os hos).bind fun cs₁ h₁ =>
      (stmts_absorb hw ss h₁ hss).map fun cs₂ h₂ => ⟨cs₂.closed, rfl, h₂.closed⟩

end

end Walk

end AisScript
