import AisScript.Proofs.Sketch

/-!
# Generated expressions are unambiguous

Two finished expressions are written alike exactly if they have the same sketch.  Texts of sketches are read
from the left: whatever stops a name and a number may stand behind the text, and two such texts with different
sketches never begin the same way.

The first byte of a text tells literals, names and parentheses apart.  Inside of parentheses stands an operand
with a joint behind it, a lead, or a query.  A joint that begins with another one goes on with a byte that begins
no operand, but for `<_>`, whose underscore may be a name behind `<` until `>` is read.  A lead that is a word and
the word of a query may be read as variables, but of all joints only ` atan2 ` begins with a blank.

* `Sketch.opening`                      the kind of byte that begins a sketch
* `Sketch.Reads`, `Sketch.reads`        a sketch is told from every other one
* `Line.text_inj`                       so is a line
* `Expr.Finished.generate_unambiguous`  expressions that are written alike
-/

namespace AisScript

variable {F : Set Double}

/-! ## How sketches begin -/

/-- The kind of byte that begins the text of a sketch. -/
def Sketch.opening : Sketch → Opening
  | .literal v => v.opening
  | .name _ | .bits _ _ _ => .name
  | .joined _ _ _ | .led _ _ | .query _ _ _ _ _ => .parenthesis

namespace Sketch

/-- Operands around a joint, with a text behind them. -/
private theorem text_joined (j : Joint) (l x : Sketch) (r : Text) :
    (joined j l x).text ++ r = 0x28 :: (l.text ++ (j.sign ++ (x.text ++ 0x29 :: r))) := by
  simp only [text, List.append_assoc]
  rfl

/-- An operand behind a lead, with a text behind it. -/
private theorem text_led (p : Lead) (x : Sketch) (r : Text) :
    (led p x).text ++ r = 0x28 :: (p.sign ++ (x.text ++ 0x29 :: r)) := by
  simp only [text, List.append_assoc]
  rfl

/-- A range of bits, with a text behind it. -/
private theorem text_bits (n : Text) (offset length : Nat) (r : Text) : (bits n offset length).text ++ r
    = n ++ 0x5B :: (Text.ofNat offset ++ 0x2C :: 0x20 :: (Text.ofNat length ++ 0x5D :: r)) := by
  simp only [text, List.append_assoc]
  rfl

/-- A query, with a text behind it. -/
private theorem text_query (k op : Text) (u x c : Option Sketch) (r : Text) : (query k op u x c).text ++ r
    = 0x28 :: (("QUERY" : Text) ++ 0x20 :: (k ++ 0x20 :: 0x5B :: (optionText u ++ 0x5D :: 0x20 :: (op ++ 0x20 :: 0x5B
      :: (optionText x ++ 0x5D :: ((" WHERE [" : Text) ++ (optionText c ++ 0x5D :: 0x29 :: r))))))) := by
  simp only [text, List.append_assoc]
  rfl

variable {o o' l x : Sketch} {r r' s : Text}

/-- A sound sketch begins with a byte of its kind. -/
private theorem Sound.opening_text (h : o.Sound F) :
    ∃ b t, o.text = b :: t ∧ opening? b = some o.opening := by
  have hparen : opening? 0x28 = some .parenthesis := by decide
  cases o with
  | literal v => exact v.opening_generate
  | name n => exact opening_of_isName h
  | bits n offset length =>
    obtain ⟨b, t, rfl, hb⟩ := opening_of_isName (n := n) h
    exact ⟨b, _, List.append_nil _ ▸ text_bits (b :: t) offset length [], hb⟩
  | joined j l x => exact ⟨_, _, List.append_nil _ ▸ text_joined j l x [], hparen⟩
  | led p x => exact ⟨_, _, List.append_nil _ ▸ text_led p x [], hparen⟩
  | query k op u x c => exact ⟨_, _, List.append_nil _ ▸ text_query k op u x c [], hparen⟩

/-- The first byte of a text that a sketch begins tells its kind. -/
private theorem Sound.opening_of_cons (h : o.Sound F) {b : UInt8} (heq : o.text ++ r = b :: s) :
    opening? b = some o.opening := by
  obtain ⟨c, t, htext, hc⟩ := h.opening_text
  rw [htext, List.cons_append] at heq
  rw [← (List.cons.inj heq).1, hc]

/-- Sketches that begin a text are of one kind. -/
private theorem Sound.opening_eq (h : o.Sound F) (h' : o'.Sound F) (heq : o.text ++ r = o'.text ++ r') :
    o.opening = o'.opening := by
  obtain ⟨b, t, htext, hb⟩ := h'.opening_text
  rw [htext] at heq
  exact Option.some.inj ((h.opening_of_cons heq).symm.trans hb)

/-- No sketch begins with a byte that begins none. -/
private theorem Sound.ne_cons (h : o.Sound F) {b : UInt8} (hb : opening? b = none) : o.text ++ r ≠ b :: s :=
  fun heq => nomatch hb.symm.trans (h.opening_of_cons heq)

/-- What begins as numbers do is one. -/
theorem Sound.isSigned (h : o.Sound F) {b : UInt8} (hb : opening? b = some .number) (heq : o.text ++ r = b :: s) :
    IsSigned o.text := by
  have hopening : o.opening = .number := Option.some.inj ((h.opening_of_cons heq).symm.trans hb)
  cases o with
  | literal v => exact Literal.isSigned hopening
  | _ => exact nomatch hopening

/-- A sketch that begins as a name does, in front of no bracket, is that name. -/
private theorem Sound.eq_name (h : o.Sound F) {n : Text} (hn : isName n = true)
    (hr : ∀ b ∈ r.head?, continuesName b = false) {b : UInt8} (hb : continuesName b = false) (hbracket : b ≠ 0x5B)
    (heq : o.text ++ r = n ++ b :: s) : o = .name n ∧ r = b :: s := by
  have hname : (name n).Sound F := hn
  -- Both open as a name does, so only names and ranges of bits are left.
  have hopening : o.opening = .name := h.opening_eq hname heq
  cases o with
  | name m =>
    obtain ⟨rfl, hrest⟩ := name_unique h hn hr (ends_name hb _) heq
    exact ⟨rfl, hrest⟩
  | bits m offset length =>
    -- Behind the name in a range of bits stands a bracket.
    rw [text_bits] at heq
    have hrest := (name_unique h hn (ends_name (by decide) _) (ends_name hb _) heq).2
    exact absurd (List.cons.inj hrest).1.symm hbracket
  | literal v => cases v <;> exact nomatch hopening
  | _ => exact nomatch hopening

end Sketch

/-! ## Joints and leads -/

/-- A joint begins with a byte that goes on with no operand and closes none; a point is the whole sign of an
access, and only one joint begins with a blank. -/
private theorem Joint.sign_eq {j : Joint} (hj : j ∈ Joint.all) :
    ∃ b t, j.sign = b :: t ∧ continuesName b = false
    ∧ b ≠ 0x5B ∧ b ≠ 0x29 ∧ (b = 0x2E → j = .access .dotted) ∧ (b = 0x20 → j.sign = " atan2 ") := by
  have hall : ∀ j ∈ Joint.all, ∃ b ∈ j.sign.head?, continuesName b = false ∧ b ≠ 0x5B ∧ b ≠ 0x29
      ∧ (b = 0x2E → j = .access .dotted) ∧ (b = 0x20 → j.sign = " atan2 ") := by
    decide
  obtain ⟨b, hb, hrest⟩ := hall j hj
  obtain ⟨t, ht⟩ := List.head?_eq_some_iff.1 hb
  exact ⟨b, t, ht, hrest⟩

/-- A joint that begins another one goes on there with a byte that begins no operand, or with `_>`. -/
private theorem Joint.eq_of_prefix {j j' : Joint} (hj : j ∈ Joint.all) (hj' : j' ∈ Joint.all) {t : Text}
    (h : j'.sign = j.sign ++ t) :
    j = j' ∨ (∃ b ∈ t.head?, opening? b = none) ∨ t = "_>" := by
  have hall : ∀ j ∈ Joint.all, ∀ j' ∈ Joint.all, j.sign <+: j'.sign →
      j = j' ∨ (∃ b ∈ (j'.sign.drop j.sign.length).head?, opening? b = none)
        ∨ j'.sign.drop j.sign.length = "_>" := by
    decide
  have hrest : j'.sign.drop j.sign.length = t := by rw [h, List.drop_left]
  have heq := hall j hj j' hj' ⟨t, h.symm⟩
  rwa [hrest] at heq

/-- A lead is a sign that begins no operand, a minus sign, or a word with a blank; and it is not the word of a
query. -/
private theorem Lead.sign_eq {p : Lead} (hp : p ∈ Lead.all) : (∃ b t, p.sign = b :: t ∧ opening? b = none)
    ∨ p.sign = [0x2D] ∨ ∃ w, isName w = true ∧ w ≠ "QUERY" ∧ p.sign = w ++ [0x20] := by
  have hall : ∀ p ∈ Lead.all, (∃ b ∈ p.sign.head?, opening? b = none) ∨ p.sign = [0x2D]
      ∨ isName p.sign.dropLast = true ∧ p.sign.dropLast ≠ "QUERY" ∧ p.sign = p.sign.dropLast ++ [0x20] := by
    decide
  rcases hall p hp with ⟨b, hb, hnone⟩ | hminus | hword
  · obtain ⟨t, ht⟩ := List.head?_eq_some_iff.1 hb
    exact .inl ⟨b, t, ht, hnone⟩
  · exact .inr (.inl hminus)
  · exact .inr (.inr ⟨_, hword⟩)

/-- No lead begins another one. -/
theorem Lead.unique {p p' : Lead} (hp : p ∈ Lead.all) (hp' : p' ∈ Lead.all) {s s' : Text}
    (h : p.sign ++ s = p'.sign ++ s') : p = p' ∧ s = s' := by
  have hall : ∀ p ∈ Lead.all, ∀ p' ∈ Lead.all, p.sign <+: p'.sign → p = p' := by
    decide +kernel
  have heq : p = p' := by
    rcases List.append_eq_append_iff.1 h with ⟨t, ht, _⟩ | ⟨t, ht, _⟩
    · exact hall p hp p' hp' ⟨t, ht.symm⟩
    · exact (hall p' hp' p hp ⟨t, ht.symm⟩).symm
  subst heq
  exact ⟨rfl, List.append_cancel_left h⟩

/-! ## What stands in parentheses -/

namespace Sketch

variable {j j' : Joint} {p : Lead} {o o' l x x' : Sketch} {r r' : Text}

/-- A closing parenthesis stops what stands in front of it. -/
private theorem stopping_close (r : Text) : Stopping (0x29 :: r) := ⟨by decide, by decide, nofun⟩

/-- A closing bracket stops what stands in front of it. -/
private theorem stopping_bracket (r : Text) : Stopping (0x5D :: r) := ⟨by decide, by decide, nofun⟩

/-- A joint stops the operand in front of it. -/
private theorem Sound.stopping_sign (h : (joined j l x).Sound F) (r : Text) :
    Stopping (j.sign ++ (x.text ++ r)) := by
  obtain ⟨hj, _, hx, haccess⟩ := h
  obtain ⟨b, t, hsign, hcontinues, hbracket, _, hpoint, _⟩ := Joint.sign_eq hj
  rw [hsign]
  refine ⟨hcontinues, hbracket, fun hb => ?_⟩
  -- Behind a point stands a name, which begins with no digit.
  obtain rfl := hpoint hb
  obtain ⟨n, rfl⟩ := haccess .dotted rfl
  obtain ⟨c, u, hn, hc⟩ := opening_of_isName (n := n) hx
  obtain rfl : t = [] := (List.cons.inj hsign).2.symm
  rw [text, hn]
  rintro _ ⟨⟩
  refine Bool.eq_false_iff.2 fun hdigit => ?_
  rw [(opens_of_isDigit hdigit).2] at hc
  exact nomatch hc

/-- A joint in front of an operand begins no other joint. -/
private theorem Sound.joint_eq_of_prefix (hj : j ∈ Joint.all) (hj' : j' ∈ Joint.all) (hx : x.Sound F)
    {s t : Text} (hsign : j'.sign = j.sign ++ t) (h : x.text ++ 0x29 :: r = t ++ s) : j = j' := by
  rcases Joint.eq_of_prefix hj hj' hsign with heq | ⟨b, hb, hnone⟩ | rfl
  · exact heq
  · obtain ⟨u, rfl⟩ := List.head?_eq_some_iff.1 hb
    exact absurd h (hx.ne_cons hnone)
  · -- A variable `_` behind `<` is closed.
    have hclose := (hx.eq_name (n := "_") (b := 0x3E) (s := s) (by decide) (stopping_close r).not_continuesName
      (by decide) (by decide) h).2
    exact nomatch (List.cons.inj hclose).1

/-- Joints in front of operands are told apart. -/
private theorem Sound.joint_eq (hj : j ∈ Joint.all) (hj' : j' ∈ Joint.all) (hx : x.Sound F) (hx' : x'.Sound F)
    (h : j.sign ++ (x.text ++ 0x29 :: r) = j'.sign ++ (x'.text ++ 0x29 :: r')) : j = j' := by
  rcases List.append_eq_append_iff.1 h with ⟨t, hsign, heq⟩ | ⟨t, hsign, heq⟩
  · exact Sound.joint_eq_of_prefix hj hj' hx hsign heq
  · exact (Sound.joint_eq_of_prefix hj' hj hx' hsign heq).symm

/-- An operand is no word with a blank behind it, unless it is a variable in front of the one joint that begins
with a blank. -/
private theorem Sound.eq_atan2 (h : (joined j l x).Sound F) {w s : Text} (hw : isName w = true)
    (heq : l.text ++ (j.sign ++ (x.text ++ 0x29 :: r)) = w ++ 0x20 :: s) :
    ("atan2" : Text) ++ 0x20 :: (x.text ++ 0x29 :: r) = s := by
  have hrest := (h.2.1.eq_name hw (h.stopping_sign _).not_continuesName (by decide) (by decide) heq).2
  obtain ⟨b, t, hsign, _, _, _, _, hblank⟩ := Joint.sign_eq h.1
  have hb : b = 0x20 := by
    rw [hsign, List.cons_append] at hrest
    exact (List.cons.inj hrest).1
  rw [hblank hb] at hrest
  exact (List.cons.inj hrest).2

/-- A negative number in front of a joint is not a number behind a minus sign. -/
private theorem Sound.ne_minus (h : (joined j l x).Sound F) (hx' : x'.Sound F) :
    l.text ++ (j.sign ++ (x.text ++ 0x29 :: r)) ≠ 0x2D :: (x'.text ++ 0x29 :: r') := by
  intro heq
  -- In front of the joint stands an operand that is signed, so its text is a number.
  have hsigned := h.2.1.isSigned (by decide) heq
  generalize l.text = t at hsigned heq
  cases hsigned with
  | plus hw =>
    obtain ⟨b, t, rfl, hb⟩ := hw.exists_cons
    rw [(List.cons.inj heq).1] at hb
    exact absurd hb (by decide)
  | minus hw =>
    replace heq := (List.cons.inj heq).2
    -- Both sides go on with a number, which a joint follows on the one and a parenthesis on the other.
    have hsigned' : IsSigned x'.text := by
      obtain ⟨b, t, rfl, hb⟩ := hw.exists_cons
      exact hx'.isSigned (opens_of_isDigit hb).2 heq.symm
    have hrest := ((IsSigned.plus hw).unique hsigned' (h.stopping_sign _) (stopping_close _) heq).2
    obtain ⟨b, t, hsign, _, _, hclose, _⟩ := Joint.sign_eq h.1
    rw [hsign] at hrest
    exact hclose (List.cons.inj hrest).1

/-- Operands around a joint are not written as an operand behind a lead. -/
private theorem Sound.joined_ne_led (h : (joined j l x).Sound F) (h' : (led p x').Sound F) :
    (joined j l x).text ++ r ≠ (led p x').text ++ r' := by
  obtain ⟨hp, hx'⟩ := h'
  intro heq
  rw [text_joined, text_led] at heq
  replace heq := (List.cons.inj heq).2
  -- The sign of a lead is a byte that opens no operand, a minus, or a word.
  rcases Lead.sign_eq hp with ⟨b, t, hsign, hb⟩ | hminus | ⟨w, hw, _, hword⟩
  · rw [hsign] at heq
    -- No operand begins with such a byte.
    exact h.2.1.ne_cons hb heq
  · rw [hminus] at heq
    exact h.ne_minus hx' heq
  · rw [hword, List.append_assoc] at heq
    -- With `atan2` in front the operand would be its name, behind which no parenthesis stands.
    have hatan := (h.eq_atan2 hw heq).symm
    have hclose := (hx'.eq_name (by decide) (stopping_close _).not_continuesName (by decide) (by decide) hatan).2
    exact nomatch (List.cons.inj hclose).1

/-- Operands around a joint are not written as a query. -/
private theorem Sound.joined_ne_query (h : (joined j l x).Sound F) {k op : Text} {u v c : Option Sketch}
    (h' : (query k op u v c).Sound F) : (joined j l x).text ++ r ≠ (query k op u v c).text ++ r' := by
  intro heq
  rw [text_joined, text_query] at heq
  have hatan := h.eq_atan2 (w := "QUERY") (by decide) (List.cons.inj heq).2
  have hbracket := (name_unique (n := "atan2") (by decide) h'.1 (ends_name (by decide) _)
    (ends_name (by decide) _) hatan).2
  exact h.2.2.1.ne_cons (by decide) (List.cons.inj hbracket).2

/-- An operand behind a lead is not written as a query. -/
private theorem Sound.led_ne_query (h : (led p x).Sound F) {k op : Text} {u v c : Option Sketch} :
    (led p x).text ++ r ≠ (query k op u v c).text ++ r' := by
  intro heq
  rw [text_led, text_query] at heq
  replace heq := (List.cons.inj heq).2
  rcases Lead.sign_eq h.1 with ⟨b, t, hsign, hb⟩ | hminus | ⟨w, hw, hquery, hword⟩
  · rw [hsign] at heq
    rw [(List.cons.inj heq).1] at hb
    exact nomatch hb
  · rw [hminus] at heq
    exact nomatch (List.cons.inj heq).1
  · rw [hword, List.append_assoc] at heq
    exact hquery (name_unique hw (by decide) (ends_name (by decide) _) (ends_name (by decide) _) heq).1

/-! ## Reading sketches -/

/-- A sketch that is told from every sound sketch that begins the same text, wherever both are stopped. -/
def Reads (F : Set Double) (o : Sketch) : Prop :=
  ∀ {o' : Sketch} {r r' : Text}, o'.Sound F → Stopping r → Stopping r' → o.text ++ r = o'.text ++ r' → o = o' ∧ r = r'

/-- The same for a sketch that may be absent, in front of a closing bracket. -/
def ReadsOption (F : Set Double) (o : Option Sketch) : Prop :=
  ∀ {o' : Option Sketch} {r r' : Text}, SoundOption F o' →
    optionText o ++ 0x5D :: r = optionText o' ++ 0x5D :: r' → o = o' ∧ r = r'

/-- Literals. -/
private theorem reads_literal (hF : Set.InjOn floatLiteral F) {v : Literal} (h : (literal v).Sound F) :
    (literal v).Reads F := by
  intro o' r r' h' hr hr' heq
  have hopening := h.opening_eq h' heq
  cases o' with
  | literal v' =>
    obtain ⟨rfl, hrest⟩ := Literal.unique hF hopening h h' hr hr' heq
    exact ⟨rfl, hrest⟩
  | _ => cases v <;> exact nomatch hopening

/-- A name that is stopped is no range of bits. -/
private theorem name_ne_bits {n m : Text} (hn : isName n = true) (hm : isName m = true) {offset length : Nat}
    (hr : Stopping r) : n ++ r ≠ (bits m offset length).text ++ r' := by
  intro heq
  rw [text_bits] at heq
  obtain rfl := (name_unique hn hm hr.not_continuesName (ends_name (by decide) _) heq).2
  exact hr.2.1 rfl

/-- Names. -/
private theorem reads_name {n : Text} (h : (name n).Sound F) : (name n).Reads F := by
  intro o' r r' h' hr hr' heq
  have hopening := h.opening_eq h' heq
  cases o' with
  | name n' =>
    obtain ⟨rfl, hrest⟩ := name_unique h h' hr.not_continuesName hr'.not_continuesName heq
    exact ⟨rfl, hrest⟩
  | bits m offset length => exact absurd heq (name_ne_bits h h' hr)
  | literal v => cases v <;> exact nomatch hopening
  | _ => exact nomatch hopening

/-- Ranges of bits. -/
private theorem reads_bits {n : Text} {offset length : Nat} (h : (bits n offset length).Sound F) :
    (bits n offset length).Reads F := by
  intro o' r r' h' hr hr' heq
  have hopening := h.opening_eq h' heq
  -- Of the sketches that open as a name does, only a range of bits has a bracket behind it.
  cases o' with
  | name n' => exact absurd heq.symm (name_ne_bits h' h hr')
  | bits n' offset' length' =>
    rw [text_bits, text_bits] at heq
    -- The name, the offset and the length end where a byte stands that they cannot hold.
    obtain ⟨rfl, hrange⟩ := name_unique h h' (ends_name (by decide) _) (ends_name (by decide) _) heq
    obtain ⟨rfl, htail⟩ := numeral_unique (by decide) (List.cons.inj hrange).2
    obtain ⟨rfl, hrest⟩ := numeral_unique (by decide) (List.cons.inj htail).2
    exact ⟨rfl, hrest⟩
  | literal v => cases v <;> exact nomatch hopening
  | _ => exact nomatch hopening

/-- Operands around a joint, from both operands. -/
private theorem reads_joined (h : (joined j l x).Sound F) (hl : l.Reads F) (hx : x.Reads F) :
    (joined j l x).Reads F := by
  intro o' r r' h' hr hr' heq
  have hopening := h.opening_eq h' heq
  -- Only sketches in parentheses are left, and of these only another joint fits.
  cases o' with
  | joined j' l' x' =>
    rw [text_joined, text_joined] at heq
    -- The left operand, the joint and the right operand are told apart in that order.
    obtain ⟨rfl, htail⟩ := hl h'.2.1 (h.stopping_sign _) (h'.stopping_sign _) (List.cons.inj heq).2
    obtain rfl := Sound.joint_eq h.1 h'.1 h.2.2.1 h'.2.2.1 htail
    obtain ⟨rfl, hrest⟩ := hx h'.2.2.1 (stopping_close _) (stopping_close _) (List.append_cancel_left htail)
    exact ⟨rfl, (List.cons.inj hrest).2⟩
  | led p x' => exact absurd heq (h.joined_ne_led h')
  | query k op u v c => exact absurd heq (h.joined_ne_query h')
  | literal v => cases v <;> exact nomatch hopening
  | _ => exact nomatch hopening

/-- An operand behind a lead, from the operand. -/
private theorem reads_led (h : (led p x).Sound F) (hx : x.Reads F) : (led p x).Reads F := by
  intro o' r r' h' hr hr' heq
  have hopening := h.opening_eq h' heq
  cases o' with
  | joined j l x' => exact absurd heq.symm (h'.joined_ne_led h)
  | led p' x' =>
    rw [text_led, text_led] at heq
    obtain ⟨rfl, htail⟩ := Lead.unique h.1 h'.1 (List.cons.inj heq).2
    obtain ⟨rfl, hrest⟩ := hx h'.2 (stopping_close _) (stopping_close _) htail
    exact ⟨rfl, (List.cons.inj hrest).2⟩
  | query k op u v c => exact absurd heq h.led_ne_query
  | literal v => cases v <;> exact nomatch hopening
  | _ => exact nomatch hopening

/-- A query, from its parts. -/
private theorem reads_query {k op : Text} {u v c : Option Sketch} (h : (query k op u v c).Sound F)
    (hu : ReadsOption F u) (hv : ReadsOption F v) (hc : ReadsOption F c) : (query k op u v c).Reads F := by
  intro o' r r' h' hr hr' heq
  -- Only the queries are left, for neither joints nor leads are written so.
  have hopening := h.opening_eq h' heq
  cases o' with
  | joined j l x => exact absurd heq.symm (h'.joined_ne_query h)
  | led p x => exact absurd heq.symm h'.led_ne_query
  | query k' op' u' v' c' =>
    obtain ⟨hk, hop, _⟩ := h
    obtain ⟨hk', hop', hu', hv', hc'⟩ := h'
    rw [text_query, text_query] at heq
    -- The five parts are told apart one by one, each by what stands behind it.
    replace heq := (List.cons.inj (List.append_cancel_left (List.cons.inj heq).2)).2
    obtain ⟨rfl, hunit⟩ := name_unique hk hk' (ends_name (by decide) _) (ends_name (by decide) _) heq
    obtain ⟨rfl, hword⟩ := hu hu' (List.cons.inj (List.cons.inj hunit).2).2
    obtain ⟨rfl, hoperand⟩ := name_unique hop hop' (ends_name (by decide) _) (ends_name (by decide) _)
      (List.cons.inj hword).2
    obtain ⟨rfl, hwhere⟩ := hv hv' (List.cons.inj (List.cons.inj hoperand).2).2
    obtain ⟨rfl, hrest⟩ := hc hc' (List.append_cancel_left hwhere)
    exact ⟨rfl, (List.cons.inj hrest).2⟩
  | literal v => cases v <;> exact nomatch hopening
  | _ => exact nomatch hopening

/-- No sketch at all. -/
private theorem readsOption_none : ReadsOption F none := by
  intro o' r r' h' heq
  cases o' with
  | none => exact ⟨rfl, (List.cons.inj heq).2⟩
  | some o' => exact absurd heq.symm (Sound.ne_cons (o := o') h' (by decide))

/-- A sketch in brackets. -/
private theorem readsOption_some (h : o.Sound F) (ho : o.Reads F) : ReadsOption F (some o) := by
  intro o' r r' h' heq
  cases o' with
  | none => exact absurd heq (h.ne_cons (by decide))
  | some o' =>
    obtain ⟨rfl, hrest⟩ := ho h' (stopping_bracket _) (stopping_bracket _) heq
    exact ⟨rfl, (List.cons.inj hrest).2⟩

mutual

/-- Sound sketches are told apart by their texts. -/
theorem reads (hF : Set.InjOn floatLiteral F) : (o : Sketch) → o.Sound F → o.Reads F
  | .literal _, h => reads_literal hF h
  | .name _, h => reads_name h
  | .joined _ l x, h => reads_joined h (reads hF l h.2.1) (reads hF x h.2.2.1)
  | .led _ x, h => reads_led h (reads hF x h.2)
  | .bits _ _ _, h => reads_bits h
  | .query _ _ u v c, h =>
    reads_query h (readsOption hF u h.2.2.1) (readsOption hF v h.2.2.2.1) (readsOption hF c h.2.2.2.2)

/-- Sound sketches that may be absent are told apart by their texts. -/
private theorem readsOption (hF : Set.InjOn floatLiteral F) :
    (o : Option Sketch) → SoundOption F o → ReadsOption F o
  | none, _ => readsOption_none
  | some o, h => readsOption_some h (reads hF o h)

end

end Sketch

/-! ## Reading lines -/

/-- Joined texts are the first one, and the others with the separator in front of each. -/
private theorem join_cons (sep t : Text) (ts : List Text) :
    Text.join sep (t :: ts) = t ++ ts.flatMap (sep ++ ·) := by
  induction ts generalizing t with
  | nil => rw [Text.join, List.flatMap_nil, List.append_nil]
  | cons u us ih => rw [Text.join, ih, List.flatMap_cons, List.append_assoc, List.append_assoc]

/-- What is said behind the first value. -/
private def saidNext (os : List Sketch) : Text := os.flatMap fun o => 0x2C :: 0x20 :: o.text

/-- A comma stops the value in front of it. -/
private theorem stopping_saidNext (os : List Sketch) : Stopping (saidNext os) := by
  cases os with
  | nil => trivial
  | cons o os => exact ⟨by decide, by decide, nofun⟩

/-- Values behind commas are told apart. -/
private theorem saidNext_inj (hF : Set.InjOn floatLiteral F) {os os' : List Sketch} (h : ∀ o ∈ os, o.Sound F)
    (h' : ∀ o ∈ os', o.Sound F) (heq : saidNext os = saidNext os') : os = os' := by
  -- The induction is on the values on the left; the value in front is read off first.
  induction os generalizing os' with
  | nil =>
    cases os' with
    | nil => rfl
    | cons o' os' => exact nomatch heq
  | cons o os ih =>
    cases os' with
    | nil => exact nomatch heq
    | cons o' os' =>
      obtain ⟨ho, hos⟩ := List.forall_mem_cons.1 h
      obtain ⟨ho', hos'⟩ := List.forall_mem_cons.1 h'
      obtain ⟨rfl, hrest⟩ := Sketch.reads hF o ho ho' (stopping_saidNext os) (stopping_saidNext os')
        (List.cons.inj (List.cons.inj heq).2).2
      rw [ih hos hos' hrest]

/-- What is said is told apart from what else is said. -/
private theorem said_inj (hF : Set.InjOn floatLiteral F) {os os' : List Sketch} (h : ∀ o ∈ os, o.Sound F)
    (h' : ∀ o ∈ os', o.Sound F)
    (heq : Text.join ", " (os.map Sketch.text) = Text.join ", " (os'.map Sketch.text)) : os = os' := by
  -- The first value stands before no comma; behind it the others stand as above.
  have hjoin : ∀ o os, Text.join ", " ((o :: os).map Sketch.text) = o.text ++ saidNext os := by
    intro o os
    rw [List.map_cons, join_cons, List.flatMap_map]
    rfl
  -- An operand is written with at least one byte.
  have hne : ∀ {o : Sketch} {os : List Sketch}, o.Sound F → o.text ++ saidNext os ≠ [] := by
    intro o os ho hnil
    obtain ⟨b, t, htext, _⟩ := ho.opening_text
    exact nomatch htext.symm.trans (List.append_eq_nil_iff.1 hnil).1
  cases os with
  | nil =>
    cases os' with
    | nil => rfl
    | cons o' os' => exact absurd (heq.trans (hjoin o' os')).symm (hne (h' o' List.mem_cons_self))
  | cons o os =>
    cases os' with
    | nil => exact absurd ((hjoin o os).symm.trans heq) (hne (h o List.mem_cons_self))
    | cons o' os' =>
      rw [hjoin, hjoin] at heq
      obtain ⟨ho, hos⟩ := List.forall_mem_cons.1 h
      obtain ⟨ho', hos'⟩ := List.forall_mem_cons.1 h'
      obtain ⟨rfl, hrest⟩ := Sketch.reads hF o ho ho' (stopping_saidNext os) (stopping_saidNext os') heq
      rw [saidNext_inj hF hos hos' hrest]

/-- No value is written as what is said. -/
private theorem Sketch.Sound.ne_say {o : Sketch} (h : o.Sound F) (args : List Sketch) :
    o.text ≠ (Line.say args).text := by
  intro heq
  have hsay := (h.eq_name (n := "say") (r := []) (b := 0x20) (by decide) nofun (by decide) (by decide)
    ((List.append_nil _).trans heq)).2
  exact nomatch hsay

/-- Sound lines with one text are equal. -/
theorem Line.text_inj (hF : Set.InjOn floatLiteral F) {l l' : Line} (h : l.Sound F) (h' : l'.Sound F)
    (heq : l.text = l'.text) : l = l' := by
  -- A line that computes and a line that speaks begin differently.
  cases l with
  | value o =>
    cases l' with
    | value o' =>
      have hread : o.text ++ [] = o'.text ++ [] := by
        rw [List.append_nil, List.append_nil]
        exact heq
      have hend : Stopping [] := trivial
      rw [(Sketch.reads hF o h h' hend hend hread).1]
    | say args' => exact absurd heq (Sketch.Sound.ne_say (o := o) h args')
  | say args =>
    cases l' with
    | value o' => exact absurd heq.symm (Sketch.Sound.ne_say (o := o') h' args)
    | say args' => rw [said_inj hF h h' (List.append_cancel_left heq)]

/-- A finished expression always has a line and is written by it, and two of them are written alike exactly if
they agree in their lines: in shape, operators, operations of the host, names, literals, and the ranges of members
of bitfields.  Of the float literals in them, `F`, no two may be written alike. -/
theorem Expr.Finished.generate_unambiguous (hF : Set.InjOn floatLiteral F) {e e' : Expr} (he : e.Finished F)
    (he' : e'.Finished F) : (∃ l, e.line? = some l ∧ e.generate = .ok l.text)
      ∧ (e.generate = e'.generate ↔ e.line? = e'.line?) := by
  obtain ⟨l, hl⟩ := he.lined
  obtain ⟨l', hl'⟩ := he'.lined
  refine ⟨⟨l, hl.found, hl.written⟩, ?_⟩
  rw [hl.written, hl'.written, hl.found, hl'.found, Except.ok.injEq, Option.some.injEq]
  exact ⟨Line.text_inj hF hl.sound hl'.sound, congrArg Line.text⟩

/-- `say(f.member - -5, 0.0)` for a variable that holds a bitfield. -/
def saidRange (layout : Bitfield) (member : Text) : Expr :=
  let base : Expr := .var { span := {}, ty := some (.bitfield layout) } "f" none
  let range : Expr := .member { span := {}, ty := some .int } .dotted base member {}
  let difference : Expr := .binary { span := {}, ty := some .int } .sub range (.literal (.int (-5)) {})
  .call { span := {}, ty := some .void } "say" {} [difference, .literal (.float .zero) {}] (.intrinsic .say)

/-- It is finished if the bitfield has the member. -/
private theorem saidRange_finished {layout : Bitfield} {member : Text} (hname : isName member = true)
    {range : Nat × Nat}
    (hlimits : layout.limits member = .ok range) : (saidRange layout member).Finished {Double.zero} := by
  -- The limits of the member give it the type of an integer.
  have hmember : memberTy .dotted (.bitfield layout) member {} {} = .ok .int := by
    rw [memberTy, hlimits]
  simp only [Expr.Finished, saidRange, Expr.nodes, nodesOfList, Expr.literal, List.cons_append, List.nil_append,
    List.append_nil, List.forall_mem_cons]
  -- The names and the constants that may occur in the parts, one fact for each kind.
  have hnameless : ∀ n ∈ ([] : List Text), isName n = true := List.forall_mem_nil _
  have hvariable : ∀ n ∈ ([("f" : Text)]), isName n = true := List.forall_mem_singleton.2 (by decide)
  have hother : ∀ d ∈ (none : Option Double), d ∈ ({Double.zero} : Set Double) := by
    intro d hd
    cases hd
  have hzero : ∀ d ∈ some Double.zero, d ∈ ({Double.zero} : Set Double) := by
    intro d hd
    cases hd
    exact rfl
  -- The call of the intrinsic, its argument, the member
  -- and the literals are checked in the order of nodes.
  exact ⟨⟨⟨.say, [.int, .float], .void, rfl, rfl, rfl, rfl⟩, hnameless, hother⟩,
    ⟨⟨.int, .int, .int, rfl, rfl, rfl, rfl⟩, hnameless, hother⟩,
    ⟨⟨_, _, rfl, hmember, rfl⟩, List.forall_mem_singleton.2 hname, hother⟩,
    ⟨rfl, hvariable, hother⟩, ⟨rfl, hnameless, hother⟩, ⟨rfl, hnameless, hzero⟩, List.forall_mem_nil _⟩

/-- A bitfield of two halves, by the names of the halves. -/
def halves (low high : Text) : Bitfield := { name := "halves", members := [⟨low, 4⟩, ⟨high, 4⟩] }

/-- Members of two bitfields that are the same bits: the expressions have one line and one text. -/
theorem saidRange_alike : Set.InjOn floatLiteral {Double.zero}
    ∧ (saidRange (halves "lo" "hi") "hi").Finished {Double.zero}
    ∧ (saidRange (halves "a" "b") "b").Finished {Double.zero}
    ∧ (saidRange (halves "lo" "hi") "hi").line?
      = some (.say [.joined (.operator .sub) (.bits "f" 4 4) (.literal (.int (-5))), .literal (.float .zero)])
    ∧ (saidRange (halves "lo" "hi") "hi").generate = .ok "say (f[4, 4]--5), 0.0"
    ∧ (saidRange (halves "lo" "hi") "hi").generate = (saidRange (halves "a" "b") "b").generate := by
  have hF : Set.InjOn floatLiteral {Double.zero} := Set.injOn_singleton floatLiteral Double.zero
  have he : (saidRange (halves "lo" "hi") "hi").Finished {Double.zero} := saidRange_finished (by decide) rfl
  have he' : (saidRange (halves "a" "b") "b").Finished {Double.zero} := saidRange_finished (by decide) rfl
  exact ⟨hF, he, he', rfl, rfl, (Expr.Finished.generate_unambiguous hF he he').2.2 rfl⟩

end AisScript
