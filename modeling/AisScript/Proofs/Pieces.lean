import AisScript.Proofs.Settled
import AisScript.Proofs.Freshening

/-!
# Pieces of expanded trees

Expansion builds a tree from pieces: what stands in front of an expression, what stands for a
statement, the clauses of loop headers and the bodies of calls.  Each piece is looked at on its own.
Its own bindings are numbered from `lo` up to `hi`, and their uses find their declarations inside the
piece; every other use is reached from the scope around the piece and passes through it.  Pieces are
joined along the scopes they were typed in.

* `Carries`                the scope behind a piece, and what the piece declares
* `Site.Reads.under`       a piece behind another one
* `Front`, `Inner`         the invariant of what stands in front of an expression and for a statement
* `called_meets`           the body of a call, at the place of the call
* `placeBody_front`        what stands for a call
-/

namespace AisScript

/-- Programs without enumerations, made-up names and loop steps that declare. -/
def Dialect.plain : Dialect := ⟨fun n => n.isPlain = true, False, False, False⟩

/-- A dialect in which all names are plain. -/
def Dialect.Plain (D : Dialect) : Prop := ∀ n, D.name n → n.isPlain = true

/-! ## Scopes behind pieces -/

/-- Everything that typing can bind behind a statement keeps its scope sound. -/
theorem Assign.Resolved.sound {D : Dialect} {σ : Scope Entry} {lo hi : Nat} (hσ : Sound D lo σ)
    {a : Assign} (h : a.Resolved D σ lo hi) : Sound D hi (a.extend σ) := by
  have hle := h.le
  obtain ⟨i, v⟩ := a
  obtain ⟨mid, t, _, _, _, _, hval, hd, hn⟩ := h
  -- Only an assignment that declares adds an entry, with the number that it took.
  unfold Assign.extend
  cases hi : (Assign.mk i v).info.declares with
  | true =>
    obtain ⟨_, hb, rfl⟩ := hd hi
    have hb : (Assign.mk i v).info.binding = _ := hb
    rw [if_pos rfl, hb]
    exact hσ.defineValue hle (Nat.lt_succ_self mid) (Ty.isProper_of_isValue hval)
  | false =>
    -- Nothing is declared, so the scope stays as it is.
    rw [if_neg Bool.false_ne_true]
    exact hσ.mono hle

/-- A clause keeps its scope sound. -/
theorem ResolvedClause.sound {D : Dialect} {σ : Scope Entry} {lo hi : Nat} (hσ : Sound D lo σ)
    {a : Option Assign} (h : ResolvedClause D σ lo hi a) : Sound D hi (extendClause σ a) := by
  cases a with
  | none =>
    obtain rfl : hi = lo := h
    exact hσ
  | some a => exact Assign.Resolved.sound hσ h

/-- A statement keeps its scope sound. -/
theorem Stmt.Resolved.sound {D : Dialect} {σ : Scope Entry} {lo hi : Nat} {last : Bool}
    (hσ : Sound D lo σ) {s : Stmt} (h : s.Resolved D σ lo hi last) : Sound D hi (s.extend σ lo) := by
  have hle := h.le
  -- One case per statement that changes its scope.
  cases s with
  | assign a => exact Assign.Resolved.sound hσ h
  | funcDef sp n ns ps b =>
    obtain ⟨rfl, hp, hb⟩ := h
    exact hσ.bindFunction hp hb
  | bitfieldDef sp d => exact (hσ.mono hle).defineBitfield d.name d
  | enumDef sp d =>
    obtain ⟨_, rfl⟩ := h
    obtain ⟨_, hs, _⟩ := bindEnum_sound hσ d
    exact hs
  | _ => exact hσ.mono hle

/-- Behind an enumeration, what is reached is one of its names, or was reached in front of it. -/
theorem Reaches.of_bindEnum {σ : Scope Entry} {lo : Nat} {d : Enumeration} {n : Text} {b : Binding}
    (h : Reaches (bindEnum σ lo d).1 n b) : Reaches σ n b
      ∨ lo ≤ b.id ∧ b.immutable = true ∧ b.ty ≠ .string
        ∧ (b.origin = .enumeration ∨ ∃ v, b.origin = .member v) := by
  -- The names of an enumeration are numbered from `lo` on, and none of them is a string.
  let Named (c : Binding) : Prop :=
    lo ≤ c.id ∧ c.immutable = true ∧ c.ty ≠ .string ∧ (c.origin = .enumeration ∨ ∃ v, c.origin = .member v)
  -- By induction on the members, which are bound in order.
  have hmembers : ∀ (ms : List EnumMember) (τ : Scope Entry) (next : Nat), lo ≤ next →
      (∀ m c, Reaches τ m c → Reaches σ m c ∨ Named c) →
        ∀ m c, Reaches (bindMembers τ next ms).1 m c → Reaches σ m c ∨ Named c := by
    intro ms
    induction ms with
    | nil => exact fun _ _ _ hτ => hτ
    -- The member itself, or a name in front of it.
    | cons x ms ih =>
      intro τ next hle hτ
      refine ih _ _ (by omega) fun m c hr => ?_
      rcases hr.of_define with hr | ⟨_, hc⟩ | ⟨_, _, _, hc, _⟩
      · exact hτ m c hr
      · cases hc
        exact .inr ⟨hle, rfl, nofun, .inr ⟨x.value, rfl⟩⟩
      · exact nomatch hc
  refine hmembers d.members _ _ (Nat.le_succ lo) (fun m c hr => ?_) n b h
  -- The name of the enumeration, or a name in front of it.
  rcases hr.of_define with hr | ⟨_, hc⟩ | ⟨_, _, _, hc, _⟩
  · exact .inl hr
  · cases hc
    exact .inr ⟨Nat.le_refl lo, rfl, nofun, .inl rfl⟩
  · exact nomatch hc

/-- What is reached behind a piece is declared by the piece under its own binding, or was reached in
front of it and nothing the piece declares has its name. -/
def Carries (σ τ : Scope Entry) (lo : Nat) (ε : Env) : Prop :=
  ∀ n b, Reaches τ n b → n.isPlain = true →
    (lo ≤ b.id ∧ ε.lookup n = some (.variable (some b)))
      ∨ b.id < lo ∧ Reaches σ n b ∧ ε.lookup n = none

/-- Declarations of temporaries only. -/
def Temps (ε : Env) : Prop := ∀ y ∈ ε, ∃ k, y = (tempName k, .variable none)

/-- Declarations of temporaries and of names that are not shown. -/
def New (σ : Scope Entry) (ε : Env) : Prop :=
  ∀ y ∈ ε, (∃ k, y = (tempName k, .variable none)) ∨ ¬σ.Shows y.1

/-- Temporaries have no plain names. -/
theorem Temps.lookup {ε : Env} (h : Temps ε) {n : Text} (hn : n.isPlain = true) :
    ε.lookup n = none := by
  refine List.lookup_eq_none_iff.2 fun y hy => bne_iff_ne.2 ?_
  rintro rfl
  obtain ⟨k, rfl⟩ := h y hy
  rw [isPlain_tempName] at hn
  cases hn

/-- A plain name that is shown is not declared anew. -/
theorem New.lookup {σ : Scope Entry} {ε : Env} (h : New σ ε) {n : Text} (hn : n.isPlain = true)
    (hshows : σ.Shows n) : ε.lookup n = none := by
  refine List.lookup_eq_none_iff.2 fun y hy => bne_iff_ne.2 ?_
  rintro rfl
  rcases h y hy with ⟨k, rfl⟩ | hnot
  · rw [isPlain_tempName] at hn
    cases hn
  · exact hnot hshows

/-- Temporaries are nothing new. -/
theorem Temps.new {ε : Env} (h : Temps ε) (σ : Scope Entry) : New σ ε := fun y hy => .inl (h y hy)

section Scopes

variable {D : Dialect} {σ τ υ : Scope Entry} {lo mid : Nat} {ε δ : Env}

/-- Temporaries change no scope. -/
theorem Temps.carries (h : Temps ε) (hσ : Sound D lo σ) : Carries σ σ lo ε := fun _ _ hr hn =>
  .inr ⟨(hσ.reached hr).1, hr, h.lookup hn⟩

/-- Names that are not shown change nothing that is reached. -/
theorem New.carries (h : New σ ε) (hσ : Sound D lo σ) : Carries σ σ lo ε := fun _ _ hr hn =>
  .inr ⟨(hσ.reached hr).1, hr, h.lookup hn (hσ.closed hr)⟩

/-- Only what is found in the scopes counts. -/
theorem Carries.congr (h : Carries σ τ lo ε) {σ' τ' : Scope Entry}
    (hσ : ∀ m, σ'.lookup m = σ.lookup m) (hτ : ∀ m, τ'.lookup m = τ.lookup m) : Carries σ' τ' lo ε := by
  intro n b hr hn
  rcases h n b (hr.congr fun m => (hτ m).symm) hn with hown | ⟨hlt, hr, hnone⟩
  · exact .inl hown
  · exact .inr ⟨hlt, hr.congr hσ, hnone⟩

/-- A piece behind another one. -/
theorem Carries.trans (h : Carries σ τ lo ε) (h' : Carries τ υ mid δ) (hle : lo ≤ mid) :
    Carries σ υ lo (δ ++ ε) := by
  intro n b hr hn
  rw [List.lookup_append]
  rcases h' n b hr hn with ⟨hid, hsome⟩ | ⟨_, hr, hnone⟩
  · exact .inl ⟨Nat.le_trans hle hid, by rw [hsome]; rfl⟩
  · rw [hnone, Option.none_or]
    exact h n b hr hn

end Scopes

/-! ## Places behind pieces -/

section Places

variable {D : Dialect} {σ τ : Scope Entry} {lo mid : Nat} {ε : Env} {s : Site}

/-- A place behind a piece. -/
theorem Site.Reads.under (h : s.Reads τ mid) (hc : Carries σ τ lo ε) (hle : lo ≤ mid) :
    (s.under ε).Reads σ lo := by
  intro n b hn
  rw [Site.under, List.lookup_append]
  rcases h n b hn with ⟨hid, hsome⟩ | ⟨_, hr, hplain, hnone⟩
  · exact .inl ⟨Nat.le_trans hle hid, by rw [hsome]; rfl⟩
  · rw [hnone, Option.none_or]
    rcases hc n b hr hplain with hown | ⟨hlt, hr, hnone⟩
    · exact .inl hown
    · exact .inr ⟨hlt, hr, hplain, hnone⟩

/-- A place behind declarations that its scope does not show. -/
theorem Site.Reads.beside (h : s.Reads σ lo) (hσ : Sound D lo σ) (hnew : New σ ε) :
    (s.under ε).Reads σ lo := by
  intro n b hn
  rw [Site.under, List.lookup_append]
  rcases h n b hn with ⟨hid, hsome⟩ | ⟨hlt, hr, hplain, hnone⟩
  · exact .inl ⟨hid, by rw [hsome]; rfl⟩
  · rw [hnone, Option.none_or]
    exact .inr ⟨hlt, hr, hplain, hnew.lookup hplain (hσ.closed hr)⟩

/-- Numbers that no binding in scope has can be counted to the piece. -/
theorem Site.Reads.lower (h : s.Reads σ mid) (hσ : Sound D lo σ) (hle : lo ≤ mid) : s.Reads σ lo := by
  intro n b hn
  rcases h n b hn with ⟨hid, hsome⟩ | ⟨_, hr, hrest⟩
  · exact .inl ⟨Nat.le_trans hle hid, hsome⟩
  · exact .inr ⟨(hσ.reached hr).1, hr, hrest⟩

/-- Only what is found in the scope counts. -/
theorem Site.Reads.congr (h : s.Reads σ lo) (heq : ∀ m, τ.lookup m = σ.lookup m) : s.Reads τ lo := by
  intro n b hn
  rcases h n b hn with hown | ⟨hlt, hr, hrest⟩
  · exact .inl hown
  · exact .inr ⟨hlt, hr.congr heq, hrest⟩

end Places

/-! ## Tidy parts -/

namespace Tidy

variable {lo mid hi k k' : Nat} {xs ys : List Node}

/-- Nodes that bind no more than others. -/
theorem of_binds (h : Tidy lo hi k xs) (hsub : ∀ x ∈ ys, ∀ y, x.Binds y → x ∈ xs) :
    Tidy lo hi k ys where
  binds x hx y hy := h.binds x (hsub x hx y hy) y hy
  coherent x hx x' hx' n n' b b' hb hb' :=
    h.coherent x (hsub x hx _ hb) x' (hsub x' hx' _ hb') n n' b b' hb hb'

/-- Nodes that bind nothing. -/
private theorem of_not_binds (h : ∀ x ∈ xs, ∀ y, ¬x.Binds y) : Tidy lo hi k xs where
  binds x hx y hy := absurd hy (h x hx y)
  coherent x hx _ _ _ _ _ _ hb := absurd hb (h x hx _)

/-- No nodes at all. -/
theorem nil : Tidy lo hi k [] := of_not_binds fun _ hx => nomatch hx

/-- Expressions bind nothing. -/
theorem exprs (es : List Expr) : Tidy lo hi k (es.map Node.expr) := by
  refine of_not_binds fun x hx y hy => ?_
  obtain ⟨e, _, rfl⟩ := List.mem_map.1 hx
  exact hy

/-- A node that binds nothing, and others. -/
theorem cons (h : Tidy lo hi k xs) {x : Node} (hx : ∀ y, ¬x.Binds y) : Tidy lo hi k (x :: xs) :=
  h.of_binds fun z hz y hy => by
    rcases List.mem_cons.1 hz with rfl | hz
    · exact absurd hy (hx y)
    · exact hz

/-- More numbers and names are taken. -/
theorem mono (h : Tidy lo hi k xs) {lo' hi' : Nat} (hlo : lo' ≤ lo) (hhi : hi ≤ hi') (hk : k ≤ k') :
    Tidy lo' hi' k' xs where
  binds x hx y hy := by
    refine (h.binds x hx y hy).imp_right fun ⟨n, b, hy, h₁, h₂, h₃, h₄⟩ => ?_
    exact ⟨n, b, hy, Nat.le_trans hlo h₁, Nat.lt_of_lt_of_le h₂ hhi, h₃, h₄.mono hk⟩
  coherent := h.coherent

/-- Nodes that bind under different numbers. -/
theorem append (hx : Tidy lo mid k xs) (hy : Tidy mid hi k ys) (hlo : lo ≤ mid) (hhi : mid ≤ hi) :
    Tidy lo hi k (xs ++ ys) := by
  -- A node that binds a variable has its number in the range of its nodes.
  have hnum : ∀ {l h : Nat} {zs : List Node}, Tidy l h k zs → ∀ z ∈ zs, ∀ n b,
      z.Binds (n, .variable (some b)) → l ≤ b.id ∧ b.id < h := by
    intro l h zs ht z hz n b hb
    rcases ht.binds z hz _ hb with ⟨_, heq⟩ | ⟨_, _, heq, hl, hh, _⟩
    · exact nomatch heq
    · cases heq
      exact ⟨hl, hh⟩
  refine ⟨fun z hz y hzy => ?_, fun z hz z' hz' n n' b b' hb hb' hid => ?_⟩
  -- Each node binds as it does among its own.
  · rcases List.mem_append.1 hz with hz | hz
    · exact (hx.mono (Nat.le_refl _) hhi (Nat.le_refl _)).binds z hz y hzy
    · exact (hy.mono hlo (Nat.le_refl _) (Nat.le_refl _)).binds z hz y hzy
  -- Two nodes with the same number are among the same nodes, since the ranges do not meet.
  · rcases List.mem_append.1 hz with hz | hz <;> rcases List.mem_append.1 hz' with hz' | hz'
    · exact hx.coherent z hz z' hz' n n' b b' hb hb' hid
    · have h₁ := hnum hx z hz n b hb
      have h₂ := hnum hy z' hz' n' b' hb'
      omega
    · have h₁ := hnum hy z hz n b hb
      have h₂ := hnum hx z' hz' n' b' hb'
      omega
    · exact hy.coherent z hz z' hz' n n' b b' hb hb' hid

end Tidy

/-! ## Pieces -/

/-- Everything an expression refers to is reached. -/
def Expr.Reached (σ : Scope Entry) (e : Expr) : Prop :=
  ∀ x ∈ e.nodes, ∀ n b, (Node.expr x).refers? = some (n, b) → Reaches σ n b ∧ n.isPlain = true

/-- The places of expressions that refer only to what is reached. -/
theorem reads_of_reached {D : Dialect} {σ : Scope Entry} {lo : Nat} (hσ : Sound D lo σ) {es : List Expr}
    (h : ∀ x ∈ es, ∀ n b, (Node.expr x).refers? = some (n, b) → Reaches σ n b ∧ n.isPlain = true) :
    ∀ s ∈ (es.map Node.expr).map (Site.mk []), s.Reads σ lo := by
  intro s hs n b hn
  rw [List.map_map] at hs
  obtain ⟨x, hx, rfl⟩ := List.mem_map.1 hs
  obtain ⟨hr, hplain⟩ := h x hx n b hn
  exact .inr ⟨(hσ.reached hr).1, hr, hplain, rfl⟩

/-- The places of an expression that refers only to what is reached. -/
theorem Expr.Reached.reads {D : Dialect} {σ : Scope Entry} {lo : Nat} (hσ : Sound D lo σ) {e : Expr}
    (h : e.Reached σ) : ∀ s ∈ exprSites [] e, s.Reads σ lo := reads_of_reached hσ h

/-- What stands in front of an expanded expression: blocks and temporaries.  The bindings declared in it
are numbered from `lo` up to `hi`, its fresh names from `k` up to `k'`. -/
structure Front (σ : Scope Entry) (lo hi k k' : Nat) (p : List Stmt) : Prop where
  grows : k ≤ k'
  tidy : Tidy lo hi k' (stmtsNodes p)
  reads : ∀ s ∈ stmtsSites [] p, s.Reads σ lo
  temps : Temps (stmtsBehind [] p)

/-- What stands for a statement or for several: it declares only names that were not shown. -/
structure Inner (σ : Scope Entry) (lo hi k k' : Nat) (ss : List Stmt) : Prop where
  grows : k ≤ k'
  tidy : Tidy lo hi k' (stmtsNodes ss)
  reads : ∀ s ∈ stmtsSites [] ss, s.Reads σ lo
  new : New σ (stmtsBehind [] ss)

/-- Statements behind declarations. -/
theorem stmtsSites_eq_under (δ : Env) (ss : List Stmt) :
    stmtsSites δ ss = (stmtsSites [] ss).map (·.under δ) := stmtsSites_under [] δ ss

/-- Declarations behind declarations. -/
theorem stmtsBehind_eq_append (δ : Env) (ss : List Stmt) :
    stmtsBehind δ ss = stmtsBehind [] ss ++ δ := stmtsBehind_under [] δ ss

section Pieces

variable {D : Dialect} {σ τ : Scope Entry} {lo mid hi k k' k'' : Nat} {p q : List Stmt}

/-- Nothing in front. -/
theorem Front.nil : Front σ lo hi k k [] :=
  ⟨Nat.le_refl k, Tidy.nil, nofun, nofun⟩

/-- What stands in front of an expression is a piece. -/
theorem Front.inner (h : Front σ lo hi k k' p) : Inner σ lo hi k k' p :=
  ⟨h.grows, h.tidy, h.reads, h.temps.new σ⟩

/-- A piece behind another one, typed in the scope behind it. -/
theorem Inner.append (hp : Inner σ lo mid k k' p) (hc : Carries σ τ lo (stmtsBehind [] p))
    (hshows : ∀ n, σ.Shows n → τ.Shows n) (hq : Inner τ mid hi k' k'' q) (hlo : lo ≤ mid)
    (hhi : mid ≤ hi) : Inner σ lo hi k k'' (p ++ q) where
  grows := Nat.le_trans hp.grows hq.grows
  tidy := by
    rw [stmtsNodes_append]
    -- The nodes of both, under numbers that do not meet.
    exact (hp.tidy.mono (Nat.le_refl _) (Nat.le_refl _) hq.grows).append hq.tidy hlo hhi
  reads := by
    -- What is behind the first piece is read under the names that it declares.
    rw [stmtsSites_append, stmtsSites_eq_under (stmtsBehind [] p)]
    refine List.forall_mem_append.2 ⟨hp.reads, List.forall_mem_map.2 fun s hs => ?_⟩
    exact (hq.reads s hs).under hc hlo
  new := by
    -- New names are new in front of either piece.
    rw [stmtsBehind_append, stmtsBehind_eq_append]
    intro y hy
    rcases List.mem_append.1 hy with hy | hy
    · exact (hq.new y hy).imp_right fun hnot hshow => hnot (hshows _ hshow)
    · exact hp.new y hy

/-- A piece behind what stands in front of an expression. -/
theorem Front.then (hσ : Sound D lo σ) (hp : Front σ lo mid k k' p) (hq : Inner σ mid hi k' k'' q)
    (hlo : lo ≤ mid) (hhi : mid ≤ hi) : Inner σ lo hi k k'' (p ++ q) :=
  hp.inner.append (hp.temps.carries hσ) (fun _ h => h) hq hlo hhi

/-- What stands in front of two expressions. -/
theorem Front.append (hσ : Sound D lo σ) (hp : Front σ lo mid k k' p) (hq : Front σ mid hi k' k'' q)
    (hlo : lo ≤ mid) (hhi : mid ≤ hi) : Front σ lo hi k k'' (p ++ q) := by
  have h := hp.then hσ hq.inner hlo hhi
  refine ⟨h.grows, h.tidy, h.reads, ?_⟩
  rw [stmtsBehind_append, stmtsBehind_eq_append]
  intro y hy
  exact (List.mem_append.1 hy).elim (hq.temps y) (hp.temps y)

/-- Only what is found in the scope counts. -/
theorem Inner.congr (h : Inner σ lo hi k k' p) (heq : ∀ m, τ.lookup m = σ.lookup m) :
    Inner τ lo hi k k' p where
  grows := h.grows
  tidy := h.tidy
  reads s hs := (h.reads s hs).congr heq
  new y hy := (h.new y hy).imp_right fun hnot => by
    rw [Scope.Shows, heq]
    exact hnot

/-- Only what is found in the scope counts. -/
theorem Front.congr (h : Front σ lo hi k k' p) (heq : ∀ m, τ.lookup m = σ.lookup m) :
    Front τ lo hi k k' p where
  grows := h.grows
  tidy := h.tidy
  reads s hs := (h.reads s hs).congr heq
  temps := h.temps

/-- A single statement that declares nothing. -/
theorem Inner.single {st : Stmt} (ht : Tidy lo hi k st.nodes) (hr : ∀ s ∈ st.sites [], s.Reads σ lo)
    (hb : st.behind [] = []) : Inner σ lo hi k k [st] where
  grows := Nat.le_refl k
  tidy := by rwa [stmtsNodes_singleton]
  reads := by rwa [stmtsSites_singleton]
  new := by
    rw [stmtsBehind, stmtsBehind, hb]
    exact fun _ hy => by cases hy

/-- A statement that declares nothing, behind what stands in front of its expressions. -/
theorem Front.stmt (hσ : Sound D lo σ) (hp : Front σ lo mid k k' p) {st : Stmt} (hk : k' ≤ k'')
    (ht : Tidy mid hi k'' st.nodes) (hr : ∀ s ∈ st.sites [], s.Reads σ mid) (hb : st.behind [] = [])
    (hlo : lo ≤ mid) (hhi : mid ≤ hi) :
    Inner σ lo hi k k'' (p ++ [st]) ∧ Carries σ σ lo (stmtsBehind [] (p ++ [st])) := by
  have hst : Inner σ mid hi k' k'' [st] := ⟨hk, (Inner.single ht hr hb).tidy, (Inner.single ht hr hb).reads,
    (Inner.single ht hr hb).new⟩
  have h := hp.then hσ hst hlo hhi
  exact ⟨h, h.new.carries hσ⟩

end Pieces

/-- Statements that read what they should and declare only names that were not shown. -/
def Quiet (σ : Scope Entry) (lo : Nat) (ss : List Stmt) : Prop :=
  (∀ s ∈ stmtsSites [] ss, s.Reads σ lo) ∧ New σ (stmtsBehind [] ss)

/-- No statements at all. -/
theorem Quiet.nil {σ : Scope Entry} {lo : Nat} : Quiet σ lo [] := ⟨nofun, nofun⟩

/-- Statements in the same scope, one behind the other. -/
theorem Quiet.append {D : Dialect} {σ : Scope Entry} {lo : Nat} {p q : List Stmt}
    (hσ : Sound D lo σ) (hp : Quiet σ lo p) (hq : Quiet σ lo q) : Quiet σ lo (p ++ q) := by
  refine ⟨?_, ?_⟩
  · rw [stmtsSites_append, stmtsSites_eq_under (stmtsBehind [] p)]
    refine List.forall_mem_append.2 ⟨hp.1, List.forall_mem_map.2 fun s hs => ?_⟩
    exact (hq.1 s hs).beside hσ hp.2
  · rw [stmtsBehind_append, stmtsBehind_eq_append]
    exact fun y hy => (List.mem_append.1 hy).elim (hq.2 y) (hp.2 y)

/-- A piece without its numbers. -/
theorem Inner.quiet {D : Dialect} {σ : Scope Entry} {lo mid hi k k' : Nat} {p : List Stmt}
    (h : Inner σ mid hi k k' p) (hσ : Sound D lo σ) (hle : lo ≤ mid) : Quiet σ lo p :=
  ⟨fun s hs => (h.reads s hs).lower hσ hle, h.new⟩

/-! ## Called bodies -/

/-- The bindings behind assignments do not depend on the values. -/
theorem assignsBehind_congr {as bs : List Assign} (h : as.map Assign.info = bs.map Assign.info)
    (ε : Env) : assignsBehind ε as = assignsBehind ε bs := by
  induction as generalizing bs ε with
  | nil => rw [List.map_eq_nil_iff.1 h.symm]
  | cons a as ih =>
    obtain ⟨b, bs, rfl, ha, has⟩ := List.map_eq_cons_iff.1 h.symm
    have hb : a.behind ε = b.behind ε := by rw [Assign.behind, Assign.behind, ha]
    rw [assignsBehind, assignsBehind, hb, ih has.symm]

/-- The parameters bound to expanded arguments are those of the call. -/
theorem map_info_bindExpanded {binds : List Assign} {args : List Expr}
    (h : binds.length = args.length) :
    (bindExpanded binds args).map Assign.info = binds.map Assign.info := by
  induction binds generalizing args with
  | nil => rfl
  | cons b binds ih =>
    cases args with
    | nil => exact nomatch h
    | cons e args =>
      have hlen : binds.length = args.length := Nat.succ.inj h
      exact congrArg (b.info :: ·) (ih hlen)

/-- Behind parameters, what is reached is one of them, or was reached in front of the call. -/
theorem extendAll_covers {σ τ : Scope Entry} {lo : Nat} {ε : Env} {as : List Assign}
    (has : ∀ a ∈ as, a.info.declares = true ∧ ∃ b, a.info.binding = some b ∧ lo ≤ b.id)
    (hvalue : ∀ n b, τ.lookup n = some (.value b) →
      (lo ≤ b.id ∧ ε.lookup n = some (.variable (some b))) ∨ b.id < lo ∧ Reaches σ n b)
    (hfunction : ∀ f ps t κ, τ.lookup f = some (.function ps t κ) → ∀ n b, Reaches ⟨κ, []⟩ n b →
      b.id < lo ∧ Reaches σ n b) :
    ∀ n b, Reaches (extendAll τ as) n b →
      (lo ≤ b.id ∧ (assignsBehind ε as).lookup n = some (.variable (some b)))
        ∨ b.id < lo ∧ Reaches σ n b := by
  -- By induction on the parameters, each of which hides what stood under its name.
  induction as generalizing τ ε with
  -- Behind all parameters, what is found is visible, or it is visible from a function.
  | nil =>
    intro n b hr
    cases hr with
    | here hn => exact hvalue n b hn
    | through hf hr => exact .inr (hfunction _ _ _ _ hf n b hr)
  | cons a as ih =>
    -- The parameter is defined in the scope and in the environment alike.
    obtain ⟨⟨hd, c, hc, hle⟩, has⟩ := List.forall_mem_cons.1 has
    have hτ : a.extend τ = τ.define a.info.name (.value c) := by
      rw [Assign.extend, if_pos hd, hc]
    have hε : a.behind ε = (a.info.name, .variable (some c)) :: ε := by
      rw [Assign.behind, if_pos hd, hc]
    rw [extendAll, assignsBehind, hτ, hε]
    -- Its own name, or another one.
    refine ih has (fun n b hn => ?_) (fun f ps t κ hf => ?_)
    · rw [Scope.lookup_define] at hn
      split at hn
      case isTrue heq =>
        cases hn
        rw [heq, List.lookup_cons, beq_self_eq_true]
        exact .inl ⟨hle, rfl⟩
      case isFalse hne =>
        rw [List.lookup_cons, beq_false_of_ne hne]
        exact hvalue n b hn
    -- A parameter is no function.
    · rw [Scope.lookup_define] at hf
      split at hf
      · cases hf
      · exact hfunction f ps t κ hf

/-- The parameters of a call: each declares its name under a number of its own. -/
theorem numberBinds_declare (lo : Nat) (params : List Param) (args : List Expr) :
    ∀ a ∈ numberBinds lo (bindArguments params args),
      a.info.declares = true ∧ ∃ b, a.info.binding = some b ∧ lo ≤ b.id := by
  induction params generalizing lo args with
  | nil => exact fun _ ha => nomatch ha
  | cons p params ih =>
    cases args with
    | nil => exact fun _ ha => nomatch ha
    | cons e args =>
      refine List.forall_mem_cons.2 ⟨⟨rfl, _, rfl, Nat.le_refl lo⟩, fun a ha => ?_⟩
      obtain ⟨hd, b, hb, hle⟩ := ih (lo + 1) args a ha
      exact ⟨hd, b, hb, Nat.le_of_succ_le hle⟩

/-- As many parameters as arguments are bound. -/
theorem length_numberBinds (lo : Nat) (params : List Param) (args : List Expr)
    (h : params.length = args.length) :
    (numberBinds lo (bindArguments params args)).length = args.length := by
  induction params generalizing lo args with
  | nil =>
    cases args with
    | nil => rfl
    | cons e args => exact nomatch h
  | cons p params ih =>
    cases args with
    | nil => exact nomatch h
    | cons e args => exact congrArg (· + 1) (ih (lo + 1) args (Nat.succ.inj h))

/-- A bound parameter is tidy. -/
theorem tidy_override {lo k : Nat} {i : AssignInfo} {t : Ty} (v : Expr)
    (hplain : i.name.isPlain = true) (hb : i.binding = some (.variable lo t)) :
    Tidy lo (lo + 1) k (Assign.mk i v).nodes := by
  -- The parameter itself is all that is bound.
  have hbinds : ∀ x ∈ (Assign.mk i v).nodes, ∀ y, x.Binds y →
      y = (i.name, .variable (some (.variable lo t))) := by
    intro x hx y hy
    rcases List.mem_cons.1 hx with rfl | hx
    · obtain ⟨_, rfl⟩ := hy
      exact congrArg (fun b => (i.name, Binder.variable b)) hb
    · obtain ⟨_, _, rfl⟩ := List.mem_map.1 hx
      exact hy.elim
  -- One binding, under one number.
  refine ⟨fun x hx y hy => ?_, fun x hx x' hx' n n' b b' hn hn' _ => ?_⟩
  · exact .inr ⟨i.name, _, hbinds x hx y hy, Nat.le_refl lo, Nat.lt_succ_self lo, rfl, .inl hplain⟩
  · cases hbinds x hx _ hn
    cases hbinds x' hx' _ hn'
    exact ⟨rfl, rfl⟩

/-- Bound parameters are tidy. -/
private theorem tidy_overrides {lo k : Nat} {params : List Param}
    (hp : ∀ p ∈ params, p.name.isPlain = true) (args args' : List Expr) :
    Tidy lo (lo + params.length) k
      ((bindExpanded (numberBinds lo (bindArguments params args)) args').flatMap Assign.nodes) := by
  -- By induction on the parameters, numbered one by one.
  induction params generalizing lo args args' with
  | nil => exact Tidy.nil
  | cons p params ih =>
    obtain ⟨hplain, hp⟩ := List.forall_mem_cons.1 hp
    cases args with
    | nil => exact Tidy.nil
    | cons e args =>
      cases args' with
      | nil => exact Tidy.nil
      | cons e' args' =>
        rw [List.length_cons, Nat.add_comm params.length, ← Nat.add_assoc]
        refine (tidy_override e' hplain rfl).append (@ih (lo + 1) hp args args') (Nat.le_succ lo)
          (Nat.le_add_right _ _)

/-- Bound parameters refer to what their arguments refer to. -/
private theorem overrides_meet {D : Dialect} {σ : Scope Entry} {lo mid : Nat} (hσ : Sound D lo σ)
    (hle : lo ≤ mid) {args : List Expr} (hargs : ∀ e ∈ args, e.Reached σ) {binds : List Assign}
    (hbinds : ∀ a ∈ binds, a.info.declares = true) (ε : Env) :
    ∀ s ∈ assignsSites ε (bindExpanded binds args), s.Meets σ mid := by
  -- Parameters and arguments run out together.
  induction binds generalizing args ε with
  | nil => exact fun _ hs => by cases hs
  | cons b binds ih =>
    cases args with
    | nil => exact fun _ hs => by cases hs
    | cons e args =>
      -- The parameter declares, so it refers to nothing; its argument does.
      obtain ⟨hd, hbinds⟩ := List.forall_mem_cons.1 hbinds
      obtain ⟨he, hargs⟩ := List.forall_mem_cons.1 hargs
      refine List.forall_mem_append.2 ⟨List.forall_mem_cons.2 ⟨fun n c hn => ?_, fun s hs n c hn => ?_⟩,
        ih hargs hbinds _⟩
      -- A node that declares is no reference.
      · have hnone : (Node.stmt (.assign (.mk b.info e))).refers? = none := by
          rw [Node.refers?]
          exact if_pos hd
        cases hnone.symm.trans hn
      -- What the argument reads was visible in front of the call.
      · obtain ⟨_, hnode, rfl⟩ := List.mem_map.1 hs
        obtain ⟨x, hx, rfl⟩ := List.mem_map.1 hnode
        obtain ⟨hr, hplain⟩ := he x hx n c hn
        exact .inr ⟨Nat.lt_of_lt_of_le (hσ.reached hr).1 hle, hr, hplain⟩

/-- A place of a called body, behind the parameters. -/
private theorem Site.Reads.meets {σ τ : Scope Entry} {lo mid : Nat} {ε : Env} {s : Site}
    (h : s.Reads τ mid) (hle : lo ≤ mid)
    (hcovers : ∀ n b, Reaches τ n b →
      (lo ≤ b.id ∧ ε.lookup n = some (.variable (some b))) ∨ b.id < lo ∧ Reaches σ n b) :
    (s.under ε).Meets σ lo := by
  intro n b hn
  rw [Site.under, List.lookup_append]
  rcases h n b hn with ⟨hid, hsome⟩ | ⟨_, hr, hplain, hnone⟩
  · exact .inl ⟨Nat.le_trans hle hid, by rw [hsome]; rfl⟩
  · rw [hnone, Option.none_or]
    exact (hcovers n b hr).imp_right fun ⟨hlt, hr⟩ => ⟨hlt, hr, hplain⟩

/-- The private body of a call in the scope of the call: its own uses find their declarations, and
everything else is reached from the call. -/
theorem called_meets {D : Dialect} {σ : Scope Entry} {lo mid hi k k' : Nat} (sp : Span)
    (hD : D = .plain)
    (hσ : Sound D lo σ) (hlo : lo ≤ mid) {name : Text} {params : List Param} {template : Block}
    {captured : List (Text × Entry)} (hf : σ.lookup name = some (.function params template captured))
    {args args' : List Expr} (hlen : params.length = args.length) (hlen' : args'.length = args.length)
    (hargs : ∀ e ∈ args', e.Reached σ) {ss : List Stmt} (hhi : mid + params.length ≤ hi)
    (hss : Inner (bodyScope captured (numberBinds mid (bindArguments params args))) (mid + params.length)
      hi k k' ss) :
    Tidy mid hi k' (Block.mk (bindExpanded (numberBinds mid (bindArguments params args)) args') ss sp).nodes
      ∧ ∀ s ∈ (Block.mk (bindExpanded (numberBinds mid (bindArguments params args)) args') ss sp).sites [],
          s.Meets σ mid := by
  -- Parameters declare, and the arguments that are bound do not change what is declared.
  have hbinds := numberBinds_declare mid params args
  have hinfo := map_info_bindExpanded ((length_numberBinds mid params args hlen).trans hlen'.symm)
  refine ⟨?_, List.forall_mem_append.2 ⟨?_, ?_⟩⟩
  -- Parameters and body bind under numbers that follow each other.
  · subst hD
    exact (tidy_overrides (hσ.template hf).1 args args').append hss.tidy (Nat.le_add_right _ _) hhi
  · exact overrides_meet hσ hlo hargs (fun a ha => (hbinds a ha).1) []
  -- The body is read behind its parameters.
  · rw [stmtsSites_eq_under]
    refine List.forall_mem_map.2 fun s hs => (hss.reads s hs).meets (Nat.le_add_right _ _) ?_
    rw [assignsBehind_congr hinfo]
    -- What the body was defined in view of is reached through the function.
    have hthrough : ∀ n b, Reaches ⟨captured, []⟩ n b → b.id < mid ∧ Reaches σ n b := fun n b hr =>
      ⟨Nat.lt_of_lt_of_le (hσ.reached (.through hf hr)).1 hlo, .through hf hr⟩
    -- A variable of the captured scope, or one that is reached from a function in it.
    refine extendAll_covers hbinds (fun n b hn => ?_) (fun f ps t κ hg n b hr => ?_)
    · rw [Scope.lookup_push] at hn
      exact .inr (hthrough n b (.here hn))
    · rw [Scope.lookup_push] at hg
      exact hthrough n b (.through hg hr)

/-- What a temporary begins with refers to nothing. -/
theorem zeroOf_refers {t : Ty} {sp : Span} {zero : Expr} (h : zeroOf t sp = .ok zero) :
    ∀ x ∈ zero.nodes, (Node.expr x).refers? = none := by
  cases t with
  | object =>
    cases h
    exact List.forall_mem_cons.2 ⟨rfl, List.forall_mem_cons.2 ⟨rfl, fun _ hx => by cases hx⟩⟩
  | int | float | string | bitfield _ =>
    cases h
    exact List.forall_mem_cons.2 ⟨rfl, fun _ hx => by cases hx⟩
  | _ => cases h

/-- A node that refers to nothing reads what it should. -/
theorem Site.reads_of_none {σ : Scope Entry} {lo : Nat} {s : Site} (h : s.node.refers? = none) :
    s.Reads σ lo := fun _ _ hn => nomatch h.symm.trans hn

/-- A block as the only statement. -/
private theorem front_block {σ : Scope Entry} {lo hi k : Nat} {b : Block} (ht : Tidy lo hi k b.nodes)
    (hr : ∀ s ∈ b.sites [], s.Reads σ lo) : Front σ lo hi k k [.block b] where
  grows := Nat.le_refl k
  tidy := by
    rw [stmtsNodes_singleton]
    exact ht.cons fun _ hy => hy
  reads := by
    rw [stmtsSites_singleton]
    exact List.forall_mem_cons.2 ⟨Site.reads_of_none rfl, hr⟩
  temps := fun _ hy => nomatch hy

/-- The declaration of a temporary as the only statement. -/
private theorem front_temp {σ : Scope Entry} {lo k : Nat} (j : Nat) {zero : Expr} (sp : Span)
    (hz : ∀ x ∈ zero.nodes, (Node.expr x).refers? = none) :
    Front σ lo lo k k [.assign (.make (tempName j) zero true sp)] where
  grows := Nat.le_refl k
  tidy := by
    -- The temporary is all that is declared, and it has no number.
    have hbinds : ∀ x ∈ (Assign.make (tempName j) zero true sp).nodes, ∀ y, x.Binds y →
        y = (tempName j, .variable none) := by
      intro x hx y hy
      rcases List.mem_cons.1 hx with rfl | hx
      · exact hy.2
      · obtain ⟨_, _, rfl⟩ := List.mem_map.1 hx
        exact hy.elim
    rw [stmtsNodes_singleton]
    exact ⟨fun x hx y hy => .inl ⟨j, hbinds x hx y hy⟩,
      fun x hx _ _ _ _ _ _ hb => nomatch hbinds x hx _ hb⟩
  reads := by
    rw [stmtsSites_singleton]
    -- Neither the declaration nor the zero value refers to a variable.
    refine List.forall_mem_cons.2 ⟨Site.reads_of_none rfl, fun s hs => ?_⟩
    obtain ⟨_, hnode, rfl⟩ := List.mem_map.1 hs
    obtain ⟨x, hx, rfl⟩ := List.mem_map.1 hnode
    exact Site.reads_of_none (hz x hx)
  temps := fun y hy => by
    cases List.mem_singleton.1 hy
    exact ⟨j, rfl⟩

/-- A return at the end of a body can become the assignment of a temporary. -/
private theorem assigned_reads {σ : Scope Entry} {lo hi k : Nat} {b : Block} {front : List Stmt}
    {sp : Span} {v : Expr} (hb : b.stmts = front ++ [.ret sp v]) (ht : Tidy lo hi k b.nodes)
    (hr : ∀ s ∈ b.sites [], s.Reads σ lo) (temp : Text) :
    let b' := Block.mk b.overrides (front ++ [.assign (.make temp v false sp)]) b.span
    Tidy lo hi k b'.nodes ∧ ∀ s ∈ b'.sites [], s.Reads σ lo := by
  obtain ⟨os, ss, _⟩ := b
  subst hb
  -- Both lists of nodes are those of the front and of one statement.
  have hret := stmtsNodes_append front [.ret sp v]
  have hassign := stmtsNodes_append front [.assign (.make temp v false sp)]
  rw [stmtsNodes_singleton] at hret hassign
  -- The assignment binds no more than the return did.
  refine ⟨ht.of_binds fun x hx y hy => ?_, fun s hs => ?_⟩
  · simp only [Block.nodes, hassign, hret, List.mem_append] at hx ⊢
    rcases hx with hx | hx | hx
    · exact .inl hx
    · exact .inr (.inl hx)
    -- An assignment that does not declare binds nothing.
    · rcases List.mem_cons.1 hx with rfl | hx
      · cases hy.1
      · exact .inr (.inr (List.mem_cons_of_mem _ hx))
  -- The value is read where it was read before.
  · simp only [Block.sites, stmtsSites_append, stmtsSites_singleton, List.mem_append] at hs hr
    rcases hs with hs | hs | hs
    · exact hr s (.inl hs)
    · exact hr s (.inr (.inl hs))
    · rcases List.mem_cons.1 hs with rfl | hs
      -- The assignment itself is no reference.
      · exact Site.reads_of_none rfl
      · exact hr s (.inr (.inr (List.mem_cons_of_mem _ hs)))

/-- What stands for a call, from its freshened body. -/
theorem placeBody_front {D : Dialect} {σ : Scope Entry} {lo hi : Nat} (hσ : Sound D lo σ)
    (hle : lo ≤ hi) {call e : Expr} {b : Block} {q : List Stmt} {c c' : Expansion}
    (ht : Tidy lo hi c.renamed b.nodes) (hr : ∀ s ∈ b.sites [], s.Reads σ lo)
    (hcall : call.Reached σ) (h : placeBody call b c = .ok ((q, e), c')) :
    Front σ lo hi c.renamed c'.renamed q ∧ e.Reached σ := by
  rcases placeBody_cases h with ⟨front, sp, v, t, zero, hb, hz, rfl, rfl, rfl⟩ | ⟨rfl, rfl, rfl⟩
  · obtain ⟨ht', hr'⟩ := assigned_reads hb ht hr (tempName c.temps)
    refine ⟨(front_temp c.temps call.span (zeroOf_refers hz)).append hσ (front_block ht' hr')
      (Nat.le_refl lo) hle, fun x hx n d hn => ?_⟩
    rw [List.mem_singleton.1 hx] at hn
    exact nomatch hn
  · exact ⟨front_block ht hr, hcall⟩

end AisScript
