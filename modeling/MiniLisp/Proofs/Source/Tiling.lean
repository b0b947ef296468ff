import MiniLisp.Proofs.Source.LongestMatch

/-!
# Tokens tile the text

Cutting a text loses no character and invents none. `Tiling cs p ts q` says that the tokens
`ts` stand one behind the other from offset `p` to offset `q` of the text `cs`, with nothing
but blanks between them. One token prolongs a tiling (`Cursor.tiling_next`), so the tokens of
a whole text are one (`Cursor.tokens_tiling`): up to the end, or up to the place of the error.
`Cursor.tokens_cover` reads this off in offsets, as a `Covering`.
-/

namespace MiniLisp

/-- From offset `p` up to, but not including, offset `q` the text is blank. -/
def BlankBetween (cs : List Char) (p q : Nat) : Prop :=
  ∀ i c, p ≤ i → i < q → cs[i]? = some c → Text.isBlank c = true

/-- Tokens that stand one behind the other between two offsets, only blanks around them. -/
inductive Tiling (cs : List Char) : Nat → List Token → Nat → Prop where
  | gap {p q : Nat} (hle : p ≤ q) (hblank : BlankBetween cs p q) : Tiling cs p [] q
  | token {p s q : Nat} {t : Token} {ts : List Token} (hle : p ≤ s)
      (hblank : BlankBetween cs p s) (hfits : Lexeme.Fits t.kind t.raw)
      (hextent : t.extent = Span.covering s t.raw.length) (hraw : t.raw <+: cs.drop s)
      (htail : Tiling cs (s + t.raw.length) ts q) : Tiling cs p (t :: ts) q

/-- The offset lies in the token's extent. -/
def Token.Covers (t : Token) (i : Nat) : Prop := t.extent.start ≤ i ∧ i < t.extent.stop

namespace Tiling

variable {cs : List Char} {p q : Nat} {ts : List Token}

theorem le (h : Tiling cs p ts q) : p ≤ q := by
  induction h with
  | gap hle _ => exact hle
  | token hle _ hfits _ _ _ ih => omega

/-- Every token of a tiling lies between its two ends and has a character. -/
theorem inside (h : Tiling cs p ts q) :
    ∀ t ∈ ts, (p : Int) ≤ t.extent.start ∧ t.extent.start < t.extent.stop ∧
      t.extent.stop ≤ q := by
  induction h with
  | gap => intro t ht; cases ht
  | @token p s q t ts hle _ hfits hextent _ htail ih =>
    have hpos := hfits.length_pos
    have hend := htail.le
    intro u hu
    rcases List.mem_cons.mp hu with rfl | hu
    · rw [hextent, Span.covering_start, Span.covering_stop]
      omega
    · obtain ⟨hstart, hne, hstop⟩ := ih u hu
      omega

theorem kind_ne_eof (h : Tiling cs p ts q) : ∀ t ∈ ts, t.kind ≠ .eof := by
  induction h with
  | gap => intro t ht; cases ht
  | token _ _ hfits _ _ _ ih =>
    intro u hu
    rcases List.mem_cons.mp hu with rfl | hu
    · exact hfits.kind_ne_eof
    · exact ih u hu

/-- The tokens of a tiling follow each other. -/
theorem pairwise (h : Tiling cs p ts q) :
    ts.Pairwise fun t u => t.extent.start < u.extent.start ∧ t.extent.stop ≤ u.extent.start := by
  induction h with
  | gap => exact List.Pairwise.nil
  | @token p s q t ts hle _ hfits hextent _ htail ih =>
    refine List.Pairwise.cons (fun u hu => ?_) ih
    have hpos := hfits.length_pos
    obtain ⟨hstart, _, _⟩ := htail.inside u hu
    rw [hextent, Span.covering_start, Span.covering_stop]
    omega

/-- A character that no token of a tiling covers is blank. -/
theorem blank_of_uncovered (h : Tiling cs p ts q) {i : Nat} {c : Char} (hp : p ≤ i) (hq : i < q)
    (hc : cs[i]? = some c) (hi : ∀ t ∈ ts, ¬ t.Covers i) : Text.isBlank c = true := by
  induction h with
  | gap _ hblank => exact hblank i c hp hq hc
  | @token p s q t ts hle hblank _ hextent _ _ ih =>
    by_cases hs : i < s
    · exact hblank i c hp hs hc
    · refine ih ?_ hq fun u hu => hi u (List.mem_cons_of_mem t hu)
      by_contra hlt
      refine hi t List.mem_cons_self ?_
      rw [Token.Covers, hextent, Span.covering_start, Span.covering_stop]
      omega

end Tiling

/-- What a token holds is what the text has at its span. -/
theorem Token.slice_span {cs : List Char} {t : Token} {s : Nat}
    (hextent : t.extent = Span.covering s t.raw.length) (hraw : t.raw <+: cs.drop s) :
    t.span.slice cs = t.content := by
  obtain ⟨kind, ⟨start, stop, hle⟩, content⟩ := t
  obtain ⟨rest, hrest⟩ := hraw
  have hlen := congrArg List.length hrest
  rw [List.length_append, List.length_drop] at hlen
  by_cases hkind : kind = .string
  · simp only [Token.extent, Token.raw, hkind, if_true, Span.covering, Span.mk.injEq,
      List.cons_append, List.length_cons, List.length_append, List.length_nil] at hextent hlen
    obtain rfl : start = ((s + 1 : Nat) : Int) := by omega
    obtain rfl : stop = ((s + 1 + content.length : Nat) : Int) := by omega
    have hdrop : cs.drop (s + 1) = content ++ '"' :: rest := by
      rw [← List.drop_drop, ← hrest]
      simp [Token.raw, hkind]
    rw [Span.slice, Text.slice_natCast _ _ _ (by omega), List.drop_take, hdrop]
    simp
  · simp only [Token.extent, Token.raw, hkind, if_false, Span.covering, Span.mk.injEq] at hextent
    obtain ⟨rfl, rfl⟩ := hextent
    simp only [Token.raw, hkind, if_false] at hrest hlen
    show Text.slice cs s (s + content.length) = content
    rw [show (s : Int) + content.length = ((s + content.length : Nat) : Int) by omega]
    by_cases hs : s ≤ cs.length
    · rw [Text.slice_natCast _ _ _ (by omega), List.drop_take, ← hrest]
      simp
    · obtain rfl : content = [] := List.length_eq_zero_iff.mp (by omega)
      simp [Text.slice]

theorem Tiling.slice_span {cs : List Char} {p q : Nat} {ts : List Token} (h : Tiling cs p ts q) :
    ∀ t ∈ ts, t.span.slice cs = t.content := by
  induction h with
  | gap => intro t ht; cases ht
  | token _ _ _ hextent hraw _ ih =>
    intro u hu
    rcases List.mem_cons.mp hu with rfl | hu
    · exact Token.slice_span hextent hraw
    · exact ih u hu

theorem Token.slice_atEnd (cs : List Char) : (Token.atEnd cs.length).span.slice cs = [] := by
  show Text.slice cs cs.length (cs.length + (0 : Nat)) = []
  rw [show (cs.length : Int) + (0 : Nat) = (cs.length : Nat) by omega,
    Text.slice_natCast _ _ _ le_rfl, List.take_length, List.drop_length]

/-- Tokens that cover a text up to an offset. Each lies in the text and holds what the text has
at its span, and every one but the end has a character; they follow each other; and what none
of them covers is blank. -/
structure Covering (cs : List Char) (ts : List Token) (stop : Nat) : Prop where
  inside : ∀ t ∈ ts, 0 ≤ t.extent.start ∧ t.extent.stop ≤ cs.length ∧
    t.span.slice cs = t.content ∧ (t.kind ≠ .eof → t.extent.start < t.extent.stop)
  ordered : ts.Pairwise fun t u =>
    t.extent.start < u.extent.start ∧ t.extent.stop ≤ u.extent.start
  blank : ∀ i c, i < stop → cs[i]? = some c → (∀ t ∈ ts, ¬ t.Covers i) → Text.isBlank c = true

/-- A tiling covers the text. -/
theorem Tiling.covering {cs : List Char} {ts : List Token} {q : Nat} (h : Tiling cs 0 ts q)
    (hq : q ≤ cs.length) : Covering cs ts q := by
  refine ⟨?_, h.pairwise, ?_⟩
  · intro t ht
    obtain ⟨hstart, hne, hstop⟩ := h.inside t ht
    exact ⟨hstart, by omega, h.slice_span t ht, fun _ => hne⟩
  · intro i c hi hc huncovered
    exact h.blank_of_uncovered (Nat.zero_le i) hi hc huncovered

/-- So does one of the whole text with the token that marks its end. -/
theorem Tiling.covering_atEnd {cs : List Char} {front : List Token}
    (h : Tiling cs 0 front cs.length) :
    Covering cs (front ++ [Token.atEnd cs.length]) cs.length := by
  obtain ⟨hinside, hordered, hblank⟩ := h.covering le_rfl
  refine ⟨?_, List.pairwise_append.mpr ⟨hordered, List.pairwise_singleton _ _, ?_⟩, ?_⟩
  · intro t ht
    rcases List.mem_append.mp ht with ht | ht
    · exact hinside t ht
    · obtain rfl := List.mem_singleton.mp ht
      refine ⟨Int.natCast_nonneg _, ?_, Token.slice_atEnd cs, fun hne => absurd rfl hne⟩
      show (cs.length : Int) + (0 : Nat) ≤ cs.length
      omega
  · intro t ht u hu
    obtain rfl := List.mem_singleton.mp hu
    obtain ⟨_, hne, hstop⟩ := h.inside t ht
    show t.extent.start < (cs.length : Int) ∧ t.extent.stop ≤ (cs.length : Int)
    omega
  · intro i c hi hc huncovered
    exact hblank i c hi hc fun t ht => huncovered t (List.mem_append_left _ ht)

namespace Cursor

variable {cs : List Char} {c d : Cursor}

theorem pos_le_skipWhile (c : Cursor) (p : Char → Bool) : c.pos ≤ (c.skipWhile p).pos :=
  Nat.le_add_right _ _

/-- A cursor passes over nothing but blanks before a token. -/
theorem Within.blankBetween (h : c.Within cs) :
    BlankBetween cs c.pos (c.skipWhile Text.isBlank).pos := by
  intro i ch hp hq hch
  have hrun : i - c.pos < (c.rest.takeWhile Text.isBlank).length := by
    rw [skipWhile, pos_skip] at hq
    omega
  have hrest : c.rest[i - c.pos]? = some ch := by
    rw [h.rest_eq, List.getElem?_drop, show c.pos + (i - c.pos) = i by omega, hch]
  obtain ⟨tail, htail⟩ := List.takeWhile_prefix Text.isBlank (l := c.rest)
  rw [← htail, List.getElem?_append_left hrun] at hrest
  exact List.mem_takeWhile_imp (List.mem_of_getElem? hrest)

/-- One token prolongs a tiling. -/
theorem Within.tiling_next {t : Token} {ts : List Token} {q : Nat} (h : c.Within cs)
    (hnext : c.next = (.ok t, d)) (ht : t.kind ≠ .eof) (htail : Tiling cs d.pos ts q) :
    d.Within cs ∧ Tiling cs c.pos (t :: ts) q := by
  have hskip : (c.skipWhile Text.isBlank).Within cs := h.skip _
  obtain ⟨l, hl, rfl, rfl⟩ := (next_eq_token_iff ht).mp hnext
  obtain ⟨hfits, hprefix⟩ := Lexeme.first?_sound hl
  refine ⟨hskip.skip _, ?_⟩
  refine .token (pos_le_skipWhile c _) h.blankBetween ?_ ?_ ?_ ?_
  · rw [Lexeme.token_kind, Lexeme.token_raw hfits]
    exact hfits
  · rw [Lexeme.token_raw hfits, Lexeme.token_extent hfits]
  · rw [Lexeme.token_raw hfits, ← hskip.rest_eq]
    exact hprefix
  · rw [Lexeme.token_raw hfits]
    rw [pos_skip, Nat.min_eq_left hprefix.length_le] at htail
    exact htail

/-- A quote at which no token begins has no other quote behind it. -/
theorem quote_notMem_of_first?_none {cs : List Char} (h : Lexeme.first? ('"' :: cs) = none) :
    '"' ∉ cs := by
  rw [Lexeme.first?_quotes, Lexeme.string?] at h
  split at h
  · cases h
  · rename_i hmem
    simpa using hmem

/-- The tokens of a text tile it: up to its end, which the last token marks, or up to the
character where the first token that cannot be cut would begin. -/
theorem Cuts.tiling {ts : List Token} {e : Option SyntaxError} (h : Cuts c ts e)
    (hc : c.Within cs) :
    (e = none ∧ ∃ front, ts = front ++ [Token.atEnd cs.length] ∧
      Tiling cs c.pos front cs.length) ∨
    ∃ p ch tail, e = some (misfit p ch tail.length) ∧ cs.drop p = ch :: tail ∧
      Lexeme.first? (ch :: tail) = none ∧ Tiling cs c.pos ts p := by
  -- on the run: each token prolongs the tiling of those behind it to the front
  induction h with
  | @atEnd c d t h ht =>
    have hskip : (c.skipWhile Text.isBlank).Within cs := hc.skip _
    obtain ⟨hrest, rfl, _⟩ := (next_eq_atEnd_iff ht).mp h
    have hlen := hskip.length_rest
    have hle := hskip.pos_le
    rw [hrest, List.length_nil] at hlen
    have hp : (c.skipWhile Text.isBlank).pos = cs.length := by omega
    refine .inl ⟨rfl, [], by rw [hp]; rfl, .gap hc.pos_le ?_⟩
    rw [← hp]
    exact hc.blankBetween
  | @token c d t ts e h ht htail ih =>
    obtain ⟨hd, _⟩ := hc.tiling_next h ht (.gap le_rfl fun i _ hp hq => absurd hq (by omega))
    rcases ih hd with ⟨he, front, rfl, htiling⟩ | ⟨p, ch, tail, he, hdrop, hnone, htiling⟩
    · exact .inl ⟨he, t :: front, rfl, (hc.tiling_next h ht htiling).2⟩
    · exact .inr ⟨p, ch, tail, he, hdrop, hnone, (hc.tiling_next h ht htiling).2⟩
  | @error c d e h =>
    have hskip : (c.skipWhile Text.isBlank).Within cs := hc.skip _
    obtain ⟨ch, tail, hrest, hnone, rfl⟩ := next_eq_error_iff.mp (by rw [h])
    refine .inr ⟨_, ch, tail, rfl, by rw [← hskip.rest_eq, hrest], hnone, ?_⟩
    exact .gap (pos_le_skipWhile c _) hc.blankBetween

theorem tokens_tiling (cs : List Char) :
    ((ofText cs).tokens.2 = none ∧ ∃ front,
      (ofText cs).tokens.1 = front ++ [Token.atEnd cs.length] ∧ Tiling cs 0 front cs.length) ∨
    ∃ p ch tail, (ofText cs).tokens.2 = some (misfit p ch tail.length) ∧
      cs.drop p = ch :: tail ∧ Lexeme.first? (ch :: tail) = none ∧
      Tiling cs 0 (ofText cs).tokens.1 p :=
  (tokens_cuts (ofText cs)).tiling (within_ofText cs)

/-- A quote at which no token begins starts a string that nothing closes; any other character
is wrong by itself. -/
theorem misfit_of_first?_none {p : Nat} {ch : Char} {tail : List Char}
    (hdrop : cs.drop p = ch :: tail) (hnone : Lexeme.first? (ch :: tail) = none) :
    if ch = '"' then
      '"' ∉ cs.drop (p + 1) ∧
        misfit p ch tail.length = ⟨.unterminatedString, some (Span.covering p (cs.length - p))⟩
    else misfit p ch tail.length = ⟨.unexpectedCharacter ch, some (Span.covering p 1)⟩ := by
  have hlen := congrArg List.length hdrop
  rw [List.length_drop, List.length_cons] at hlen
  unfold misfit
  split
  · rename_i hquote
    subst hquote
    refine ⟨?_, by rw [hlen]⟩
    rw [← List.drop_drop, hdrop]
    exact quote_notMem_of_first?_none hnone
  · rfl

/-- Nothing of a text is lost between its tokens and nothing is cut twice: that holds up to the
end of the text, where a token without characters stands, or up to the character at which the
error starts, which begins no token or is the quote of a string that nothing closes. -/
theorem tokens_cover (cs : List Char) :
    match (ofText cs).tokens with
    | (ts, none) =>
      Covering cs ts cs.length ∧ ∃ front, ts = front ++ [⟨.eof, Span.covering cs.length 0, []⟩] ∧
        ∀ t ∈ front, t.kind ≠ .eof
    | (ts, some e) =>
      ∃ p c, cs[p]? = some c ∧ Covering cs ts p ∧
        (∀ t ∈ ts, t.kind ≠ .eof ∧ t.extent.stop ≤ p) ∧
        if c = '"' then
          '"' ∉ cs.drop (p + 1) ∧ e = ⟨.unterminatedString, some (Span.covering p (cs.length - p))⟩
        else e = ⟨.unexpectedCharacter c, some (Span.covering p 1)⟩ := by
  have htiling := tokens_tiling cs
  generalize (ofText cs).tokens = row at htiling
  obtain ⟨ts, e⟩ := row
  rcases htiling with ⟨rfl, front, rfl, htiling⟩ | ⟨p, c, tail, rfl, hdrop, hnone, htiling⟩
  · exact ⟨htiling.covering_atEnd, front, rfl, htiling.kind_ne_eof⟩
  · have hp : cs[p]? = some c := by
      rw [← List.head?_drop, hdrop, List.head?_cons]
    have hlt : p < cs.length := (List.getElem?_eq_some_iff.mp hp).1
    refine ⟨p, c, hp, htiling.covering hlt.le, ?_, misfit_of_first?_none hdrop hnone⟩
    intro t ht
    exact ⟨htiling.kind_ne_eof t ht, (htiling.inside t ht).2.2⟩

end Cursor

end MiniLisp
