import AisScript.Proofs.AdvancingStmt

/-!
# Reading any file

Whatever a file holds, the parser comes to its end.  It never runs out of steps, never consumes the end mark,
and every turn of the loop that reads a block consumes something: a guard in these places is never asked.  At
the end only the end mark is ahead.  The places in the tree nest, also if there are errors.

* `Parser.program_alike`   a block at top level, with a guard and without
* `parse_guarded`          a whole file is read, whatever the guard
* `parse_nests`            the places in its tree nest
-/

namespace AisScript

namespace Parser

variable {g : Guard} {file length n : Nat} {as : List Lexeme} {last : Span}

/-- At top level a block is closed by the end mark only. -/
private theorem AtClose.eq_end {few : Nat} (h : AtClose [] as) (hroom : Room file length few n as last) :
    ∃ l, as = [l] ∧ l.token.kind = .eof := by
  obtain ⟨l, ls, rfl, hclose⟩ := h
  have hkind : l.token.kind = .eof := by
    cases hk : l.token.kind <;> first | rfl | simp [hk, closes] at hclose
  cases hroom.lined with
  | last => exact ⟨l, rfl, hkind⟩
  | cons hne => exact absurd hkind hne

/-- A block at top level is read up to the end mark, whatever the guard, and never fails.  Its statements nest. -/
theorem program_alike (h : Room file length 4 n as last) :
    Alike False as last (g.program n) (program n) fun b bs last' =>
      Laid file last.stop last'.stop b.held ∧ last'.stop ≤ length ∧ ∃ l, bs = [l] ∧ l.token.kind = .eof := by
  obtain ⟨l, ls, rfl⟩ := h.exists_cons
  refine .peek (((stmtsAlike g file length n).block false [] h).bind fun body bs last₁ hc hbody => ?_)
  have hroom := h.after hc
  obtain ⟨e, rfl, hkind⟩ := hbody.2.eq_end hroom
  refine .peek (.pure ⟨?_, hroom.within, e, rfl, hkind⟩)
  obtain ⟨os, ss, sp⟩ := body
  exact hbody.1

end Parser

/-! ## Files -/

/-- The parser's state in front of a file. -/
def ParseState.start (file maxErrors : Nat) (contents : Text) : ParseState :=
  { ahead := lexemes file contents, last := { file }, maxErrors }

/-- There are enough steps in front of a file. -/
private theorem room_start (file : Nat) (contents : Text) :
    Parser.Room file contents.length 4 (Parser.stepsFor (lexemes file contents).length) (lexemes file contents)
      { file } :=
  ⟨rfl, Nat.zero_le _, lined_lexemes file contents, by
    rw [Parser.stepsFor]
    omega⟩

/-- What the parser does with a file, with a guard and without. -/
private theorem run_start (g : Parser.Guard) (file maxErrors : Nat) (contents : Text) :
    ∃ b s, parse file maxErrors contents = ⟨b, s.errors, s.reports.reverse⟩
      ∧ (Parser.program (Parser.stepsFor (lexemes file contents).length)).run (.start file maxErrors contents)
        = (some b, s)
      ∧ (g.program (Parser.stepsFor (lexemes file contents).length)).run (.start file maxErrors contents) = (some b, s)
      ∧ Consumes (lexemes file contents) { file } s.ahead s.last
      ∧ Laid file 0 s.last.stop b.held ∧ s.last.stop ≤ contents.length
      ∧ ∃ l, s.ahead = [l] ∧ l.token.kind = .eof := by
  -- The guarded parser does the same, since it starts with room for all lexemes.
  obtain ⟨hsame, hconsumes, hmay, hpost⟩ := Parser.program_alike (g := g) (room_start file contents)
    (.start file maxErrors contents) rfl rfl
  rw [hsame]
  -- The parser never gives up on a whole program.
  cases hrun : (Parser.program (Parser.stepsFor (lexemes file contents).length)).run
      (.start file maxErrors contents) with
  | mk r s =>
    rw [hrun] at hconsumes hmay hpost
    cases r with
    | none => exact (hmay rfl).elim
    -- What it returns is the program, and its reports come in reverse.
    | some b =>
      refine ⟨b, s, ?_, rfl, rfl, hconsumes, hpost b rfl⟩
      unfold ParseState.start at hrun
      simp only [parse, parseLexemes, hrun]

/-- The parser comes to the end of any file, and no guard can tell: with the steps it has, it never runs out of
them, it never consumes the end mark, and every turn of the loop that reads a block consumes something, since
otherwise the guard would have decided how to go on.  All lexemes in front of the end mark are consumed, and
none of them is an end mark itself. -/
theorem parse_guarded (g : Parser.Guard) (file maxErrors : Nat) (contents : Text) :
    ∃ read last s, lexemes file contents = read ++ [last] ∧ (∀ l ∈ read, l.token.kind ≠ .eof)
      ∧ last.token.kind = .eof ∧ s.ahead = [last]
      ∧ (Parser.program (Parser.stepsFor (lexemes file contents).length)).run (.start file maxErrors contents)
        = (some (parse file maxErrors contents).program, s)
      ∧ (g.program (Parser.stepsFor (lexemes file contents).length)).run (.start file maxErrors contents)
        = (some (parse file maxErrors contents).program, s)
      ∧ parse file maxErrors contents = ⟨(parse file maxErrors contents).program, s.errors, s.reports.reverse⟩ := by
  obtain ⟨b, s, hparse, hrun, hguarded, hconsumes, _, _, last, hahead, hkind⟩ := run_start g file maxErrors contents
  obtain ⟨read, hread, hkinds⟩ := hconsumes.exists_append
  rw [hparse]
  exact ⟨read, last, s, hahead ▸ hread, hkinds, hkind, hahead, hrun, hguarded, rfl⟩

/-- The places in the tree of any file nest: every statement and every expression stands in the file, with at
least one byte, and holds its parts, which stand one behind the other; so do the statements at top level. -/
theorem parse_nests (file maxErrors : Nat) (contents : Text) :
    (∀ n ∈ (parse file maxErrors contents).program.nodes, n.Nests file 0 contents.length)
      ∧ (parse file maxErrors contents).program.held.Pairwise fun p q => p.span.stop ≤ q.span.start := by
  obtain ⟨b, s, hparse, _, _, _, hlaid, hle, _⟩ :=
    run_start ⟨fun _ => failure, Parser.peek, pure ()⟩ file maxErrors contents
  rw [hparse]
  refine ⟨fun n hn => ?_, hlaid.apart⟩
  rw [Block.nodes_eq, List.mem_flatMap] at hn
  obtain ⟨p, hp, hn⟩ := hn
  exact (hlaid.nests p hp n hn).widen (Nat.le_refl _) hle

end AisScript
