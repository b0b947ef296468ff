import MiniLisp.Proofs.Document.Definitions
import MiniLisp.Proofs.Document.Problems
import MiniLisp.Proofs.Source.Concatenation

/-!
# Documents that grow

A text that is typed on keeps its index. What is on a new line behind a text changes none of the
text's tokens, whatever it closes or leaves open (`Cursor.front_append`): the cutter goes from left
to right and a newline ends every token, save for a string that nothing has closed, which was no
token before. The names are collected from these tokens in their order, and their positions do not
depend on what follows (`definitions_eq_front`).
-/

namespace MiniLisp

/-! ## Tokens that stay -/

/-- The longest lexeme at the head of a text is so, too, where the text ends earlier behind it. -/
theorem Lexeme.first?_of_append {l : Lexeme} {kept lost : List Char}
    (h : first? (l.raw ++ (kept ++ lost)) = some l) : first? (l.raw ++ kept) = some l := by
  obtain ⟨⟨hfits, _⟩, hmax⟩ := first?_eq_some_iff.mp h
  refine first?_eq_some_iff.mpr ⟨⟨hfits, List.prefix_append _ _⟩, fun k r hr hraw => ?_⟩
  rw [← List.append_assoc] at hmax
  exact hmax k r hr (hraw.trans (List.prefix_append _ _))

namespace Cursor

/-- The tokens behind a cursor without the one that marks the end of the text. -/
def front (c : Cursor) : List Token := c.tokens.1.filter fun t => t.kind ≠ .eof

theorem Cuts.front_eq {c : Cursor} {ts : List Token} {e : Option SyntaxError} (h : Cuts c ts e) :
    c.front = ts.filter fun t => t.kind ≠ .eof := by
  rw [front, h.tokens_eq]

/-- The tokens behind a cursor are there as well if a text follows that breaks off the last. -/
theorem front_append (c : Cursor) {rest : List Char} (hrest : Lexeme.Breaks rest) :
    c.front <+: (⟨c.pos, c.rest ++ rest⟩ : Cursor).front := by
  -- on the run: each token is cut as before
  have hcuts := c.tokens_cuts
  generalize c.tokens.1 = ts at hcuts
  generalize c.tokens.2 = e at hcuts
  induction hcuts with
  | @atEnd c d t h ht =>
    have hnil : c.front = [] := by
      rw [(Cuts.atEnd h ht).front_eq]
      simp [ht]
    rw [hnil]
    exact List.nil_prefix
  | @token c d t ts e h ht htail ih =>
    have hfront : c.front = t :: d.front := by
      rw [(Cuts.token h ht htail).front_eq, htail.front_eq]
      exact List.filter_cons_of_pos (by simpa using ht)
    have happend : (⟨c.pos, c.rest ++ rest⟩ : Cursor).front =
        t :: (⟨d.pos, d.rest ++ rest⟩ : Cursor).front := by
      rw [front, tokens_append_of_next h ht hrest]
      exact List.filter_cons_of_pos (by simpa using ht)
    rw [hfront, happend]
    exact (List.prefix_cons_inj t).mpr ih
  | @error c d e h =>
    rw [(Cuts.error h).front_eq]
    exact List.nil_prefix

/-- Where cutting stops short there is a character that begins no token. The text up to there is cut
into the same tokens, without an error. -/
theorem Cuts.stop {c : Cursor} {ts : List Token} {e : SyntaxError} (h : Cuts c ts (some e)) :
    ∃ kept lost : List Char, c.rest = kept ++ lost ∧ lost ≠ [] ∧
      e.span.map Span.start = some ((c.pos + kept.length : Nat) : Int) ∧
      (⟨c.pos, kept⟩ : Cursor).tokens = (ts ++ [Token.atEnd (c.pos + kept.length)], none) := by
  generalize hstop : some e = stop at h
  induction h with
  | atEnd => cases hstop
  | @token c d t ts stop h ht htail ih =>
    obtain ⟨kept, lost, hrest, hlost, hplace, htokens⟩ := ih hstop
    obtain ⟨w, l, hw, hsplit, hfirst, rfl, hpos⟩ := next_token_split h ht
    rw [hrest] at hsplit hfirst
    have hlength : c.pos + (w ++ (l.raw ++ kept)).length = d.pos + kept.length := by
      rw [hpos, List.length_append, List.length_append]
      omega
    refine ⟨w ++ (l.raw ++ kept), lost, by rw [hsplit]; simp, hlost, ?_, ?_⟩
    · rw [hlength, hplace]
    · have hhalts := (Lexeme.first?_sound hfirst).1.halts_isBlank kept
      rw [tokens_blanks hw, tokens_lexeme (Lexeme.first?_of_append hfirst) hhalts, ← hpos, htokens,
        hlength, List.cons_append]
  | @error c d e' h =>
    cases hstop
    obtain ⟨ch, tail, hrest, _, rfl⟩ := next_eq_error_iff.mp (by rw [h])
    have hblank : ∀ b ∈ c.rest.takeWhile Text.isBlank, Text.isBlank b = true :=
      fun b hb => List.mem_takeWhile_imp hb
    have hsplit := c.takeWhile_append_skipWhile Text.isBlank
    rw [hrest] at hsplit
    refine ⟨c.rest.takeWhile Text.isBlank, ch :: tail, hsplit.symm, List.cons_ne_nil _ _, ?_, ?_⟩
    · rw [c.pos_skipWhile]
      unfold misfit
      split <;> rfl
    · have htokens := tokens_blanks hblank c.pos []
      rw [List.append_nil, tokens_nil] at htokens
      exact htokens

/-- A text that cannot be cut to its end has the tokens of what is before the place of the error. -/
theorem front_take_of_error {cs : List Char} {e : SyntaxError}
    (h : (ofText cs).tokens.2 = some e) : ∃ offset : Nat, offset < cs.length ∧
      e.span.map Span.start = some (offset : Int) ∧
      (ofText (cs.take offset)).front = (ofText cs).front := by
  have hcuts := (ofText cs).tokens_cuts
  rw [h] at hcuts
  obtain ⟨kept, lost, hrest, hlost, hplace, htokens⟩ := hcuts.stop
  obtain rfl : cs = kept ++ lost := hrest
  have hpos := List.length_pos_iff.mpr hlost
  rw [ofText, Nat.zero_add] at hplace
  refine ⟨kept.length, by rw [List.length_append]; omega, hplace, ?_⟩
  change (ofText kept).tokens = _ at htokens
  rw [List.take_left, front, htokens, List.filter_append, front]
  simp [Token.atEnd]

/-- The tokens of a text begin in the text. -/
theorem span_inside {cs : List Char} {t : Token} (ht : t ∈ (ofText cs).tokens.1) :
    t.span.Inside cs.length :=
  (List.forall₂_same.mp (tokens_inside cs).tokens t ht).place

end Cursor

/-! ## Names that stay -/

namespace Table

variable {α : Type}

theorem put_of_notMem {name : String} {entries : List (String × α)}
    (h : name ∉ entries.map Prod.fst) (value : α) :
    put name value entries = entries ++ [(name, value)] := by
  induction entries with
  | nil => rfl
  | cons entry rest ih =>
    obtain ⟨n, v⟩ := entry
    rw [List.map_cons, List.mem_cons, not_or] at h
    rw [put, if_neg fun heq => h.1 heq.symm, ih h.2, List.cons_append]

/-- A name that is not there yet comes last. -/
theorem prefix_insert {t : Table α} {name : String} (h : t.contains name = false) (value : α) :
    t.entries <+: (t.insert name value).entries := by
  have hnew : name ∉ t.entries.map Prod.fst := by
    intro hmem
    rw [contains_iff.mpr hmem] at h
    cases h
  change t.entries <+: put name value t.entries
  rw [put_of_notMem hnew]
  exact List.prefix_append _ _

end Table

namespace Document

/-- Names are added behind those that are there. -/
theorem prefix_collect (starts : List Nat) (ts : List Token) (found : Table Position) :
    found.entries <+: (collect starts ts found).entries := by
  fun_induction collect starts ts found with
  | case1 a b c rest found name found' ih =>
    refine List.IsPrefix.trans ?_ ih
    unfold found'
    split
    · rename_i hnew
      rw [Bool.and_eq_true, Bool.not_eq_true'] at hnew
      exact Table.prefix_insert hnew.2 _
    · exact List.prefix_rfl
  | case2 => exact List.prefix_rfl

/-- What is collected from the front of a row is collected from the row, before the rest. -/
theorem collect_append (starts : List Nat) (ts us : List Token) (found : Table Position) :
    (collect starts ts found).entries <+: (collect starts (ts ++ us) found).entries := by
  fun_induction collect starts ts found with
  | case1 a b c rest found name found' ih =>
    rw [List.cons_append, List.cons_append, List.cons_append, collect]
    exact ih
  | case2 => exact prefix_collect starts _ _

/-- A token that is no name sets none at the end of a row. -/
theorem collect_append_singleton {t : Token} (ht : t.kind ≠ .name) (starts : List Nat)
    (ts : List Token) (found : Table Position) :
    collect starts (ts ++ [t]) found = collect starts ts found := by
  fun_induction collect starts ts found with
  | case1 a b c rest found name found' ih =>
    rw [List.cons_append, List.cons_append, List.cons_append, collect]
    exact ih
  | case2 ts found hshort =>
    rcases ts with _ | ⟨a, _ | ⟨b, _ | ⟨c, rest⟩⟩⟩
    · rfl
    · rfl
    · -- the three tokens that now are one behind the other
      have hnot : setsName a b t = false := by simp [setsName, ht]
      rw [List.cons_append, List.cons_append, List.nil_append, collect, hnot]
      rfl
    · exact absurd rfl (hshort a b c rest)

/-- Names are where their tokens begin. -/
theorem collect_congr {starts starts' : List Nat} {ts : List Token}
    (h : ∀ t ∈ ts, positionIn starts t.span.start = positionIn starts' t.span.start)
    (found : Table Position) : collect starts ts found = collect starts' ts found := by
  fun_induction collect starts ts found with
  | case1 a b c rest found name found' ih =>
    rw [ih fun t ht => h t (List.mem_cons_of_mem a ht), collect, ← h c (by simp)]
  | case2 ts found hshort =>
    rw [collect]
    exact hshort

/-- The names of a text are those that its tokens set, at their positions in any text that goes on
from it. -/
theorem definitions_eq_front {cs ds : List Char} (h : cs <+: ds) :
    definitions cs = collect (lineStarts ds) (Cursor.ofText cs).front Table.empty := by
  have hfront : definitions cs = collect (lineStarts cs) (Cursor.ofText cs).front Table.empty := by
    rw [definitions, Cursor.front]
    rcases Cursor.tokens_tiling cs with ⟨_, ts, hrow, htiling⟩ | ⟨p, c, tail, _, _, _, htiling⟩
    · have hkept : ts.filter (fun t => t.kind ≠ .eof) = ts :=
        List.filter_eq_self.mpr fun t ht => by simpa using htiling.kind_ne_eof t ht
      have hname : (Token.atEnd cs.length).kind ≠ .name := by simp [Token.atEnd]
      rw [hrow, List.filter_append, hkept, collect_append_singleton hname]
      simp [Token.atEnd]
    · rw [List.filter_eq_self.mpr fun t ht => by simpa using htiling.kind_ne_eof t ht]
  rw [hfront]
  refine collect_congr (fun t ht => ?_) _
  obtain ⟨offset, hoffset, hle⟩ := (Cursor.span_inside (List.mem_of_mem_filter ht)).exists_start
  have hsame := positionOf_of_prefix h hle
  rw [positionOf, positionOf] at hsame
  rw [hoffset, hsame]

/-- Text on a new line behind a text adds names to the text's index and leaves those that are in it
where they are, in their order, whether the text can be read or not. And a text that cannot be cut
to its end has the names of what is before the place of the error. -/
theorem definitions_append_line (cs ds : List Char) :
    (definitions cs).entries <+: (definitions (cs ++ '\n' :: ds)).entries ∧
    ∀ e, (Cursor.ofText cs).tokens.2 = some e → ∃ offset : Nat, offset < cs.length ∧
      e.span.map Span.start = some (offset : Int) ∧
      definitions (cs.take offset) = definitions cs := by
  constructor
  · have hbreaks : Lexeme.Breaks ('\n' :: ds) := Lexeme.breaks_cons (by decide) (by decide) ds
    obtain ⟨more, hmore⟩ := (Cursor.ofText cs).front_append hbreaks
    rw [definitions_eq_front (List.prefix_append cs ('\n' :: ds)),
      definitions_eq_front (List.prefix_refl (cs ++ '\n' :: ds))]
    change _ <+: (collect _ (⟨(Cursor.ofText cs).pos, (Cursor.ofText cs).rest ++ '\n' :: ds⟩ :
      Cursor).front _).entries
    rw [← hmore]
    exact collect_append _ _ _ _
  · intro e he
    obtain ⟨offset, hlt, hplace, hfront⟩ := Cursor.front_take_of_error he
    refine ⟨offset, hlt, hplace, ?_⟩
    rw [definitions_eq_front (List.take_prefix offset cs), hfront,
      definitions_eq_front (List.prefix_refl cs)]

/-- A string that the next line closes. Before, it was no token and the text was cut short. -/
theorem definitions_append_line_string : ∃ cs ds e, cs = "(set a 1)\n(set b \"x".toList ∧
    ds = "\")(set a 2)(set c b)".toList ∧ (Cursor.ofText cs).tokens.2 = some e ∧
    e.cause = .unterminatedString ∧
    (definitions cs).entries = [("a", ⟨0, 5⟩), ("b", ⟨1, 5⟩)] ∧
    (definitions (cs ++ '\n' :: ds)).entries =
      [("a", ⟨0, 5⟩), ("b", ⟨1, 5⟩), ("c", ⟨2, 16⟩)] ∧
    (definitions cs).entries <+: (definitions (cs ++ '\n' :: ds)).entries ∧
    ∃ offset : Nat, offset < cs.length ∧ e.span.map Span.start = some (offset : Int) ∧
      definitions (cs.take offset) = definitions cs := by
  have herror : (Cursor.ofText "(set a 1)\n(set b \"x".toList).tokens.2 =
      some ⟨.unterminatedString, some (Span.covering 17 2)⟩ := by decide +kernel
  obtain ⟨hkept, hstop⟩ := definitions_append_line "(set a 1)\n(set b \"x".toList
    "\")(set a 2)(set c b)".toList
  exact ⟨_, _, _, rfl, rfl, herror, rfl, by decide +kernel, by decide +kernel, hkept,
    hstop _ herror⟩

end Document

end MiniLisp
