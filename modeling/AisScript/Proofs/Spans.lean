import AisScript.Proofs.Tiling
import AisScript.Tree.Walk

/-!
# Spans inside a file

A span lies inside a file if it ends behind its start and not beyond the contents.  Lexing a file gives
only tokens and reports whose spans do, and a tree is *placed* if all spans that errors about it can
mention have some property, such as this one.

* `Span.Between`        spans in a stretch of a file
* `Diagnostic.Erring`   errors whose spans have a property
* `lexemes_between`     lexemes and their reports lie inside the file
* `Block.Placed`        trees whose spans have a property
-/

namespace AisScript

open Text (byte isDigit)

/-! ## Spans -/

/-- A span between two offsets of a file. -/
def Span.Between (file lo hi : Nat) (s : Span) : Prop :=
  s.file = file ∧ lo ≤ s.start ∧ s.start ≤ s.stop ∧ s.stop ≤ hi

namespace Span.Between

variable {file lo hi lo' hi' : Nat} {s t : Span}

/-- A wider stretch. -/
theorem widen (h : s.Between file lo hi) (hlo : lo' ≤ lo) (hhi : hi ≤ hi') : s.Between file lo' hi' :=
  ⟨h.1, Nat.le_trans hlo h.2.1, h.2.2.1, Nat.le_trans h.2.2.2 hhi⟩

/-- The span that covers two. -/
theorem cover (hs : s.Between file lo hi) (ht : t.Between file lo hi) : (s.cover t).Between file lo hi := by
  obtain ⟨hfile, hlo, hle, hhi⟩ := hs
  obtain ⟨hfile', hlo', hle', hhi'⟩ := ht
  unfold Span.cover
  rw [if_pos (hfile.trans hfile'.symm)]
  have hbetween : min s.start t.start ≤ max s.stop t.stop :=
    Nat.le_trans (Nat.min_le_left _ _) (Nat.le_trans hle (Nat.le_max_left _ _))
  exact ⟨hfile, Nat.le_min.2 ⟨hlo, hlo'⟩, hbetween, Nat.max_le.2 ⟨hhi, hhi'⟩⟩

/-- The empty span behind another. -/
theorem behind (h : s.Between file lo hi) : (Span.point s.file s.stop).Between file lo hi :=
  ⟨h.1, Nat.le_trans h.2.1 h.2.2.1, Nat.le_refl _, h.2.2.2⟩

end Span.Between

/-- An error whose spans, and those of its notes, have a property. -/
structure Diagnostic.Erring (P : Span → Prop) (d : Diagnostic) : Prop where
  severity : d.severity = .error
  span : P d.span
  notes : ∀ n ∈ d.notes, P n.span

/-- Another property that follows. -/
theorem Diagnostic.Erring.imp {P Q : Span → Prop} {d : Diagnostic} (h : d.Erring P) (hPQ : ∀ s, P s → Q s) :
    d.Erring Q :=
  ⟨h.severity, hPQ _ h.span, fun n hn => hPQ _ (h.notes n hn)⟩

/-! ## Lexing -/

/-- Reports that stay inside the token they are about. -/
def Scanned.Contained (s : Scanned) (p : Place) : Prop :=
  ∀ d ∈ s.reports, d.Erring (Span.Between p.file p.offset (p.offset + (1 + s.extra)))

namespace Scanned.Contained

/-- The span of some bytes from a place on. -/
private theorem between_span (p : Place) {n hi : Nat} (h : p.offset + n ≤ hi) :
    (p.span n).Between p.file p.offset hi :=
  ⟨rfl, Nat.le_refl _, Nat.le_add_right _ _, h⟩

/-- A malformed token. -/
theorem bad (p : Place) (code : Code) (extra : Nat) (message : Text) :
    (Scanned.bad p code extra message).Contained p := by
  intro d hd
  rw [List.mem_singleton.1 hd]
  exact ⟨rfl, between_span p (Nat.le_refl _), nofun⟩

/-- A name or keyword. -/
theorem name (p : Place) (b : UInt8) (t : Text) : (scanName p b t).Contained p := by
  unfold scanName
  dsimp only
  split
  · exact bad _ _ _ _
  · split <;> exact nofun

/-- The end of a number. -/
theorem finishNumber (p : Place) (kind : Token.Kind) (extra : Nat) (t : Text) :
    (finishNumber p kind extra t).Contained p := by
  unfold AisScript.finishNumber
  split
  · exact nofun
  · exact bad _ _ _ _

/-- The exponent of a number. -/
theorem exponent (p : Place) (kind : Token.Kind) (extra : Nat) (t : Text) :
    (scanExponent p kind extra t).Contained p := by
  unfold scanExponent
  split
  · split
    · dsimp only
      split
      · exact bad _ _ _ _
      · exact finishNumber _ _ _ _
    · exact finishNumber _ _ _ _
  · exact finishNumber _ _ _ _

/-- A number. -/
theorem number (p : Place) (b : UInt8) (t : Text) : (scanNumber p b t).Contained p := by
  unfold scanNumber
  extract_lets isHex whole
  split
  · split
    · exact bad _ _ _ _
    · exact finishNumber _ _ _ _
  · split
    · split
      · exact exponent _ _ _ _
      · exact exponent _ _ _ _
    · exact exponent _ _ _ _

/-- Reports about bytes further on, with one more byte in front. -/
private theorem push {file o size : Nat} {rest : StringBody} (b : UInt8)
    (h : ∀ d ∈ rest.reports, d.Erring (Span.Between file (o + size) (o + size + rest.size))) :
    ∀ d ∈ (StringBody.push b size rest).reports,
      d.Erring (Span.Between file o (o + (StringBody.push b size rest).size)) := by
  intro d hd
  refine (h d hd).imp fun s hs => hs.widen (Nat.le_add_right _ _) ?_
  simp only [StringBody.push]
  omega

/-- Reports about bytes further on, with a malformed escape in front. -/
private theorem reject {file o size : Nat} {rest : StringBody} (message : Text)
    (h : ∀ d ∈ rest.reports, d.Erring (Span.Between file (o + size) (o + size + rest.size))) :
    ∀ d ∈ (StringBody.reject ⟨file, o⟩ size message rest).reports,
      d.Erring (Span.Between file o (o + (StringBody.reject ⟨file, o⟩ size message rest).size)) := by
  intro d hd
  simp only [StringBody.reject] at hd ⊢
  rcases List.mem_cons.1 hd with rfl | hd
  · exact ⟨rfl, between_span ⟨file, o⟩ (by dsimp only; omega), by simp⟩
  · exact (h d hd).imp fun s hs => hs.widen (Nat.le_add_right _ _) (by omega)

/-- The body of a string literal: every report is about bytes of the body. -/
theorem body (quote : UInt8) (file o : Nat) (t : Text) :
    ∀ d ∈ (StringBody.read quote file o t).reports,
      d.Erring (Span.Between file o (o + (StringBody.read quote file o t).size)) := by
  have hnone : ∀ (ending : StringEnd) (P : Span → Prop),
      ∀ d ∈ (⟨[], 0, [], ending⟩ : StringBody).reports, d.Erring P := fun _ _ _ hd => nomatch hd
  fun_induction StringBody.read quote file o t
  all_goals first
    | exact fun _ hd => absurd hd List.not_mem_nil
    | exact push _ ‹_›
    | exact reject _ ‹_›
    | exact reject _ (hnone _ _)

/-- A string literal: what is wrong with its escapes, and with the whole. -/
theorem string (p : Place) (quote : UInt8) (t : Text) : (scanString p quote t).Contained p := by
  -- What is wrong inside lies behind the opening quotation mark.
  have hbody : ∀ d ∈ (StringBody.read quote p.file (p.offset + 1) t).reports,
      d.Erring (Span.Between p.file p.offset
        (p.offset + (1 + (StringBody.read quote p.file (p.offset + 1) t).size))) := fun d hd =>
    (body quote p.file (p.offset + 1) t d hd).imp fun s hs => hs.widen (Nat.le_add_right _ _) (by omega)
  -- What is wrong with the whole covers the literal.
  have hwhole : ∀ message : Text, ({ code := .unterminatedString, span := p.span (1 + (StringBody.read quote
      p.file (p.offset + 1) t).size), message } : Diagnostic).Erring (Span.Between p.file p.offset
        (p.offset + (1 + (StringBody.read quote p.file (p.offset + 1) t).size))) := fun _ =>
    ⟨rfl, between_span p (Nat.le_refl _), nofun⟩
  unfold scanString
  dsimp only
  -- The literal is closed, or it ends with the line, or with the file.
  split
  · exact hbody
  · exact List.forall_mem_append.2 ⟨hbody, List.forall_mem_singleton.2 (hwhole _)⟩
  · exact List.forall_mem_append.2 ⟨hbody, List.forall_mem_singleton.2 (hwhole _)⟩

/-- A code literal. -/
theorem code (p : Place) (t : Text) : (scanCode p t).Contained p := by
  unfold scanCode
  dsimp only
  split
  · exact nofun
  · exact bad _ _ _ _

/-- An operator or punctuation mark. -/
theorem symbol (p : Place) (b : UInt8) (t : Text) : (scanSymbol p b t).Contained p := by
  unfold scanSymbol
  dsimp only
  split
  · exact nofun
  · split
    · exact nofun
    · exact bad _ _ _ _

/-- Whatever begins with a given byte. -/
theorem head (p : Place) (b : UInt8) (t : Text) : (scanHead p b t).Contained p := by
  unfold scanHead
  split
  · exact name p b t
  · split
    · exact number p b t
    · split
      · exact string p b t
      · split
        · exact code p t
        · exact symbol p b t

end Scanned.Contained

/-- A lexeme whose span, and those of its reports, have a property. -/
structure Lexeme.Placed (P : Span → Prop) (l : Lexeme) : Prop where
  token : P l.token.span
  reports : ∀ d ∈ l.reports, d.Erring P

/-- What is lexed from a place on lies behind it, and not beyond the end of the text. -/
private theorem lexemesFrom_between (p : Place) (t : Text) :
    ∀ l ∈ lexemesFrom p t, l.Placed (Span.Between p.file p.offset (p.offset + t.length)) := by
  -- By strong induction on the length: a token makes the text shorter.
  induction hn : t.length using Nat.strongRecOn generalizing p t with
  | ind n ih =>
    -- A gap is no longer than the text.
    have hgap := (gapLength_spaced t).1
    rw [lexemesFrom]
    split
    -- Only the end mark is left, right behind the gap.
    · refine List.forall_mem_singleton.2 ⟨⟨rfl, ?_, Nat.le_add_right _ _, ?_⟩, nofun⟩
      · exact Nat.le_add_right _ _
      · change p.offset + gapLength false t + 0 ≤ p.offset + n
        omega
    -- A token of at least one byte, which fits into what is left.
    · rename_i b rest hdrop
      have hlen := congrArg List.length hdrop
      rw [List.length_drop, List.length_cons] at hlen
      have hfits := (Scanned.Fits.head { p with offset := p.offset + gapLength false t } b rest).inside
      refine List.forall_mem_cons.2 ⟨⟨⟨rfl, ?_, Nat.le_add_right _ _, ?_⟩, fun d hd => ?_⟩, fun l hl => ?_⟩
      · exact Nat.le_add_right _ _
      · change p.offset + gapLength false t + (1 + (scanHead _ b rest).extra) ≤ p.offset + n
        omega
      -- The reports of the token lie inside it.
      · refine (Scanned.Contained.head _ b rest d hd).imp fun s hs => hs.widen (Nat.le_add_right _ _) ?_
        dsimp only
        omega
      · -- What follows lies behind this token.
        have hrest := ih (rest.drop (scanHead { p with offset := p.offset + gapLength false t } b rest).extra).length
          (by rw [List.length_drop]; omega) _ _ rfl l hl
        rw [List.length_drop] at hrest
        have hwiden : ∀ s : Span, s.Between p.file
            (p.offset + gapLength false t + 1
              + (scanHead { p with offset := p.offset + gapLength false t } b rest).extra)
            (p.offset + gapLength false t + 1
              + (scanHead { p with offset := p.offset + gapLength false t } b rest).extra
              + (rest.length - (scanHead { p with offset := p.offset + gapLength false t } b rest).extra)) →
            s.Between p.file p.offset (p.offset + n) := fun s hs => hs.widen (by omega) (by omega)
        exact ⟨hwiden _ hrest.token, fun d hd => (hrest.reports d hd).imp hwiden⟩

/-- The lexemes of a file and their reports lie inside its contents. -/
theorem lexemes_between (file : Nat) (contents : Text) :
    ∀ l ∈ lexemes file contents, l.Placed (Span.Between file 0 contents.length) := by
  have h := lexemesFrom_between ⟨file, 0⟩ contents
  rwa [Nat.zero_add] at h

/-! ## Trees -/

/-- The spans by which an expression itself is mentioned have a property. -/
def Expr.PlacedHere (P : Span → Prop) : Expr → Prop
  | .call i _ ns _ _ => P i.span ∧ P ns
  | .member i _ _ _ ns => P i.span ∧ P ns
  | .const i _ | .var i _ _ | .binary i _ _ _ | .unary i _ _ | .query i _ _ _ _ _ => P i.span

/-- All spans of an expression have a property. -/
def Expr.Placed (P : Span → Prop) (e : Expr) : Prop := ∀ x ∈ e.nodes, x.PlacedHere P

/-- All spans of an expression that may be absent have a property. -/
def PlacedOption (P : Span → Prop) (e : Option Expr) : Prop := ∀ x ∈ nodesOfOption e, x.PlacedHere P

/-- All spans of an assignment have a property. -/
def Assign.Placed (P : Span → Prop) (a : Assign) : Prop :=
  P a.info.span ∧ P a.info.nameSpan ∧ a.value.Placed P

/-- All spans of a clause that may be absent have a property. -/
def PlacedClause (P : Span → Prop) : Option Assign → Prop
  | none => True
  | some a => a.Placed P

mutual

/-- All spans of a statement have a property. -/
def Stmt.Placed (P : Span → Prop) : Stmt → Prop
  | .block b => b.Placed P
  | .eval s e => P s ∧ e.Placed P
  | .assign a => a.Placed P
  | .assignMember s t v => P s ∧ t.Placed P ∧ v.Placed P
  | .cond s c t f => P s ∧ c.Placed P ∧ t.Placed P ∧ PlacedElse P f
  | .loop s c b => P s ∧ c.Placed P ∧ b.Placed P
  | .forLoop s i c st b => P s ∧ PlacedClause P i ∧ PlacedOption P c ∧ PlacedClause P st ∧ b.Placed P
  | .ret s v => P s ∧ v.Placed P
  | .funcDef s _ ns _ b => P s ∧ P ns ∧ b.Placed P
  | .leave s | .code s _ | .bitfieldDef s _ | .enumDef s _ | .require s _ => P s

/-- All spans of statements have a property. -/
def PlacedStmts (P : Span → Prop) : List Stmt → Prop
  | [] => True
  | s :: ss => s.Placed P ∧ PlacedStmts P ss

/-- All spans of a block have a property. -/
def Block.Placed (P : Span → Prop) : Block → Prop
  | .mk os ss sp => (∀ a ∈ os, a.Placed P) ∧ PlacedStmts P ss ∧ P sp

/-- All spans of an else block that may be absent have a property. -/
def PlacedElse (P : Span → Prop) : Option Block → Prop
  | none => True
  | some b => b.Placed P

end

section Trees

variable {P : Span → Prop}

/-- An expression is mentioned by its own span. -/
theorem Expr.PlacedHere.span {e : Expr} (h : e.PlacedHere P) : P e.span := by
  cases e with
  | call | member => exact h.1
  | _ => exact h

/-- An expression stands first among its parts. -/
theorem Expr.Placed.here {e : Expr} (h : e.Placed P) : e.PlacedHere P := by
  refine h e ?_
  cases e <;> exact List.mem_cons_self

/-- The span of a placed expression. -/
theorem Expr.Placed.span {e : Expr} (h : e.Placed P) : P e.span := h.here.span

/-- Placed statements are placed one by one. -/
theorem placedStmts_iff {ss : List Stmt} : PlacedStmts P ss ↔ ∀ s ∈ ss, s.Placed P := by
  induction ss with
  | nil => exact ⟨fun _ => nofun, fun _ => trivial⟩
  | cons s ss ih => rw [PlacedStmts, ih, List.forall_mem_cons]

/-- The span of a placed statement. -/
theorem Stmt.Placed.span {s : Stmt} (h : s.Placed P) : P s.span := by
  cases s with
  | block b =>
    obtain ⟨os, ss, sp⟩ := b
    exact h.2.2
  | leave | code | bitfieldDef | enumDef | require => exact h
  | _ => exact h.1

/-- An expression has another property that follows. -/
theorem Expr.PlacedHere.imp {Q : Span → Prop} (hPQ : ∀ s, P s → Q s) {e : Expr} (h : e.PlacedHere P) :
    e.PlacedHere Q := by
  cases e with
  | call | member => exact ⟨hPQ _ h.1, hPQ _ h.2⟩
  | _ => exact hPQ _ h

/-- An assignment has another property that follows. -/
theorem Assign.Placed.imp {Q : Span → Prop} (hPQ : ∀ s, P s → Q s) {a : Assign} (h : a.Placed P) :
    a.Placed Q :=
  ⟨hPQ _ h.1, hPQ _ h.2.1, fun x hx => (h.2.2 x hx).imp hPQ⟩

/-- A clause has another property that follows. -/
theorem PlacedClause.imp {Q : Span → Prop} (hPQ : ∀ s, P s → Q s) {a : Option Assign}
    (h : PlacedClause P a) : PlacedClause Q a := by
  cases a with
  | none => trivial
  | some a => exact Assign.Placed.imp hPQ h

mutual

/-- A statement has another property that follows. -/
theorem Stmt.Placed.imp {Q : Span → Prop} (hPQ : ∀ s, P s → Q s) : (s : Stmt) → s.Placed P → s.Placed Q
  -- The property is carried to every span that the statement holds.
  | .block b, h => Block.Placed.imp hPQ b h
  | .eval _ _, ⟨hs, he⟩ => ⟨hPQ _ hs, fun x hx => (he x hx).imp hPQ⟩
  | .assign a, h => @Assign.Placed.imp P Q hPQ a h
  | .assignMember _ _ _, ⟨hs, ht, hv⟩ =>
    ⟨hPQ _ hs, fun x hx => (ht x hx).imp hPQ, fun x hx => (hv x hx).imp hPQ⟩
  | .cond _ _ t f, ⟨hs, hc, ht, hf⟩ =>
    ⟨hPQ _ hs, fun x hx => (hc x hx).imp hPQ, Block.Placed.imp hPQ t ht, PlacedElse.imp hPQ f hf⟩
  | .loop _ _ b, ⟨hs, hc, hb⟩ => ⟨hPQ _ hs, fun x hx => (hc x hx).imp hPQ, Block.Placed.imp hPQ b hb⟩
  | .forLoop _ _ _ _ b, ⟨hs, hi, hc, hst, hb⟩ =>
    ⟨hPQ _ hs, hi.imp hPQ, fun x hx => (hc x hx).imp hPQ, hst.imp hPQ, Block.Placed.imp hPQ b hb⟩
  | .ret _ _, ⟨hs, hv⟩ => ⟨hPQ _ hs, fun x hx => (hv x hx).imp hPQ⟩
  | .funcDef _ _ _ _ b, ⟨hs, hns, hb⟩ => ⟨hPQ _ hs, hPQ _ hns, Block.Placed.imp hPQ b hb⟩
  | .leave _, h | .code _ _, h | .bitfieldDef _ _, h | .enumDef _ _, h | .require _ _, h => hPQ _ h

/-- Statements have another property that follows. -/
theorem PlacedStmts.imp {Q : Span → Prop} (hPQ : ∀ s, P s → Q s) :
    (ss : List Stmt) → PlacedStmts P ss → PlacedStmts Q ss
  | [], _ => trivial
  | s :: ss, ⟨hs, hss⟩ => ⟨Stmt.Placed.imp hPQ s hs, PlacedStmts.imp hPQ ss hss⟩

/-- A block has another property that follows. -/
theorem Block.Placed.imp {Q : Span → Prop} (hPQ : ∀ s, P s → Q s) : (b : Block) → b.Placed P → b.Placed Q
  | .mk _ ss _, ⟨hos, hss, hsp⟩ =>
    ⟨fun a ha => (hos a ha).imp hPQ, PlacedStmts.imp hPQ ss hss, hPQ _ hsp⟩

/-- An else block has another property that follows. -/
theorem PlacedElse.imp {Q : Span → Prop} (hPQ : ∀ s, P s → Q s) :
    (b : Option Block) → PlacedElse P b → PlacedElse Q b
  | none, _ => trivial
  | some b, h => Block.Placed.imp hPQ b h

end

end Trees

end AisScript
