import MiniLisp.Proofs.Document.Definitions
import MiniLisp.Proofs.Document.Positions
import MiniLisp.Proofs.Document.Rows
import MiniLisp.Proofs.Document.WordRuns
import MiniLisp.Proofs.Source.Layout

/-!
# The word at a definition

The index says where a name is set, and `wordAt` what word is at a place. Name characters are word
characters, and no word character stands on either side of a name that is set, so the word at such
a place is the name (`CutsInto.standsAlone`, `wordAt_of_standsAlone`). The two count rows in two
ways: `wordAt_of_index` has the word where the index puts the name, if no stray break is before it,
and else as many rows further down as there are stray breaks.
-/

namespace MiniLisp

open MiniLisp.Text

/-! ## Word characters -/

theorem isWordChar_of_isNameChar {c : Char} (h : isNameChar c = true) : isWordChar c = true := by
  have hall : ∀ n < 128, isNameChar (Char.ofNat n) = true → isWordChar (Char.ofNat n) = true := by
    decide +kernel
  have hlow : c.toNat < 128 := (visible_of_isNameChar h).2.trans_lt (by decide)
  rw [← Char.ofNat_toNat c] at h ⊢
  exact hall _ hlow h

/-- The code points of the blanks. -/
def blankPoints : List Nat :=
  [9, 10, 11, 12, 13, 28, 29, 30, 31, 32, 0x85, 0xA0, 0x1680, 0x2000, 0x2001, 0x2002, 0x2003,
    0x2004, 0x2005, 0x2006, 0x2007, 0x2008, 0x2009, 0x200A, 0x2028, 0x2029, 0x202F, 0x205F, 0x3000]

theorem toNat_mem_blankPoints {c : Char} (h : isBlank c = true) : c.toNat ∈ blankPoints := by
  simp only [isBlank, Bool.or_eq_true, Bool.and_eq_true, decide_eq_true_eq, beq_iff_eq] at h
  simp only [blankPoints, List.mem_cons, List.not_mem_nil, or_false]
  omega

theorem not_isWordChar_of_isBlank {c : Char} (h : isBlank c = true) : isWordChar c = false := by
  have hall : ∀ n ∈ blankPoints, (wordBounds.takeWhile (· ≤ n)).length % 2 = 0 := by
    decide +kernel
  rw [isWordChar, hall _ (toNat_mem_blankPoints h)]
  rfl

theorem isBlank_of_isRowBreak {c : Char} (h : isRowBreak c = true) : isBlank c = true := by
  simp only [isRowBreak, Bool.or_eq_true, Bool.and_eq_true, decide_eq_true_eq, beq_iff_eq] at h
  simp only [isBlank, Bool.or_eq_true, Bool.and_eq_true, decide_eq_true_eq, beq_iff_eq]
  omega

/-- A token that does not begin like a name or a number does not begin like a word either. -/
theorem not_isWordChar_of_fits {kind : TokenKind} {c : Char} {cs : List Char}
    (h : Lexeme.Fits kind (c :: cs)) (hc : isNameChar c = false) : isWordChar c = false := by
  cases h with
  | name hstart hrest =>
    rw [(Lexeme.Fits.name hstart hrest).isNameChar c List.mem_cons_self] at hc
    cases hc
  | unsigned h =>
    obtain ⟨d, ds, heq, hd⟩ := h.head
    cases heq
    rw [isNameChar_of_isDigit hd] at hc
    cases hc
  | signed hsign _ => rcases hsign with rfl | rfl <;> decide +kernel
  | string _ => decide +kernel
  | openParen => decide +kernel
  | closeParen => decide +kernel
  | quote => decide +kernel
  | operator h =>
    simp only [List.mem_cons, List.not_mem_nil, or_false] at h
    rcases h with rfl | rfl | rfl | rfl | rfl | rfl | rfl <;> decide +kernel

/-! ## Around a name -/

/-- At the offset the text reads the word, with no word character right before it or behind it. -/
structure StandsAlone (cs word : List Char) (offset : Nat) : Prop where
  reads : word <+: cs.drop offset
  before : Halts isWordChar (cs.take offset).reverse
  behind : Halts isWordChar (cs.drop (offset + word.length))

/-- What is between tokens is not a part of a word. -/
theorem BlankBetween.not_isWordChar {cs : List Char} {p q i : Nat} (h : BlankBetween cs p q)
    (hp : p ≤ i) (hq : i < q) {c : Char} (hc : cs[i]? = some c) : isWordChar c = false :=
  not_isWordChar_of_isBlank (h i c hp hq hc)

theorem BlankBetween.halts_reverse {cs : List Char} {p q : Nat} (h : BlankBetween cs p q)
    (hlt : p < q) (hq : q ≤ cs.length) : Halts isWordChar (cs.take q).reverse := by
  intro c hc
  have hlast : cs[q - 1]? = some c := by
    rwa [List.head?_reverse, List.getLast?_eq_getElem?, List.length_take, Nat.min_eq_left hq,
      List.getElem?_take_of_lt (by omega)] at hc
  exact h.not_isWordChar (by omega) (by omega) hlast

namespace Tiling

variable {cs : List Char} {p q : Nat} {ts : List Token}

theorem drop (h : Tiling cs p ts q) (i : Nat) : ∃ m, Tiling cs m (ts.drop i) q := by
  induction i generalizing p ts with
  | zero => exact ⟨p, h⟩
  | succ i ih =>
    cases h with
    | gap hle hblank => exact ⟨p, .gap hle hblank⟩
    | token _ _ _ _ _ htail => exact ih htail

/-- Where a tiling begins no word goes on, unless a name or a number does. -/
theorem halts_isWordChar (h : Tiling cs p ts q) (hq : q = cs.length)
    (hp : Halts isNameChar (cs.drop p)) : Halts isWordChar (cs.drop p) := by
  intro c hc
  have hget : cs[p]? = some c := by rwa [List.head?_drop] at hc
  have hlt : p < cs.length := (List.getElem?_eq_some_iff.mp hget).1
  cases h with
  | gap _ hblank => exact hblank.not_isWordChar le_rfl (hq ▸ hlt) hget
  | @token _ s _ t ts hle hblank hfits _ hraw _ =>
    rcases Nat.lt_or_eq_of_le hle with hlt | rfl
    · exact hblank.not_isWordChar le_rfl hlt hget
    · obtain ⟨d, ds, heq⟩ := List.exists_cons_of_length_pos hfits.length_pos
      obtain ⟨tail, htail⟩ := hraw
      have hd : d = c := by
        rw [← htail, heq] at hc
        exact Option.some.inj hc
      rw [heq, hd] at hfits
      exact not_isWordChar_of_fits hfits (hp c hc)

/-- A name at the head of a tiling has blanks before it and a tiling behind it. -/
theorem of_name {t : Token} (h : Tiling cs p (t :: ts) q) {x : String}
    (hx : t.terminal? = some (.name x)) {offset : Nat} (hstart : t.span.start = offset) :
    p ≤ offset ∧ BlankBetween cs p offset ∧ Tiling cs (offset + x.length) ts q := by
  obtain ⟨hkind, hcontent⟩ := Token.terminal?_name_iff.mp hx
  cases h with
  | @token _ s _ _ _ hle hblank _ hextent _ htail =>
    obtain rfl : s = offset := by
      simp only [Token.extent, hkind, reduceCtorEq, if_false] at hextent
      exact Int.ofNat_inj.mp (by rw [← hstart, hextent, Span.covering_start])
    have hraw : t.raw.length = x.length := by
      simp [Token.raw, hkind, hcontent, String.length_toList]
    exact ⟨hle, hblank, hraw ▸ htail⟩

end Tiling

/-- A name right behind another stands alone. -/
theorem CutsInto.standsAlone {cs : List Char} {ts : List Token} (h : CutsInto cs ts) {i : Nat}
    {s t : Token} {y x : String} (hs : ts[i]? = some s) (hy : s.terminal? = some (.name y))
    (ht : ts[i + 1]? = some t) (hx : t.terminal? = some (.name x)) :
    ∃ offset : Nat, t.span.start = offset ∧ StandsAt cs x offset ∧
      StandsAlone cs x.toList offset := by
  obtain ⟨a, ha, hyat⟩ := h.standsAt (List.mem_of_getElem? hs) hy
  obtain ⟨b, hb, hxat⟩ := h.standsAt (List.mem_of_getElem? ht) hx
  obtain ⟨hslt, hsget⟩ := List.getElem?_eq_some_iff.mp hs
  obtain ⟨htlt, htget⟩ := List.getElem?_eq_some_iff.mp ht
  obtain ⟨m, hrow⟩ := h.tiling.drop i
  rw [List.drop_eq_getElem_cons hslt, List.drop_eq_getElem_cons htlt, hsget, htget] at hrow
  obtain ⟨_, _, hrow⟩ := hrow.of_name hy ha
  obtain ⟨hle, hblank, hrow⟩ := hrow.of_name hx hb
  refine ⟨b, hb, hxat, hxat.reads, ?_, ?_⟩
  · -- without a blank between them the two would be one name
    have hlt : a + y.length < b := by
      refine Nat.lt_of_le_of_ne hle fun heq => ?_
      have hfits := t.fits_name (h.fits t (List.mem_of_getElem? ht)) hx
      obtain ⟨c, rest, hc⟩ := List.exists_cons_of_length_pos hfits.length_pos
      have hhead : c ∈ (cs.drop b).head? := by
        obtain ⟨tail, htail⟩ := hxat.reads
        rw [← htail, hc]
        rfl
      have hname := hfits.isNameChar c (hc ▸ List.mem_cons_self)
      rw [hyat.ends c (heq ▸ hhead)] at hname
      cases hname
    have hend := hrow.le
    exact hblank.halts_reverse hlt (by omega)
  · rw [String.length_toList]
    exact hrow.halts_isWordChar rfl hxat.ends

/-! ## The word at a place -/

namespace Document

section Word

variable {word : List Char} (hne : word ≠ []) (hword : ∀ c ∈ word, isWordChar c = true)
include hne hword

/-- A word in a row is the word at its first column. -/
theorem wordInRow_append {before behind : List Char} (hbefore : Halts isWordChar before.reverse)
    (hbehind : Halts isWordChar behind) :
    wordInRow (before ++ (word ++ behind)) before.length = .ok (some word) := by
  have hlength := List.length_pos_of_ne_nil hne
  rw [(wordRun_append hword hbefore hbehind).wordInRow_eq le_rfl (Nat.le_add_right _ _),
    if_neg (by omega), ← List.append_assoc, ← List.length_append, List.take_left, List.drop_left]

/-- A word that stands alone is the word at the row and column where it begins. -/
theorem wordAt_of_standsAlone {cs : List Char} {offset : Nat} (h : StandsAlone cs word offset)
    (hrow : ∀ c ∈ word, isRowBreak c = false) :
    wordAt cs (rowsBefore (cs.take offset)) (rowOpen [] (cs.take offset)).length =
      .ok (some word) := by
  obtain ⟨rest, hrest⟩ := h.reads
  have hbehind : Halts isWordChar rest := by
    have htail := h.behind
    rwa [← List.drop_drop, ← hrest, List.drop_left] at htail
  have hopen : Halts isWordChar (rowOpen [] (cs.take offset)).reverse.reverse := by
    have hprefix := rowOpen_prefix [] (cs.take offset)
    rw [List.append_nil] at hprefix
    rw [List.reverse_reverse]
    exact h.before.of_prefix hprefix
  have hget : (splitRows cs)[rowsBefore (cs.take offset)]? =
      some ((rowOpen [] (cs.take offset)).reverse ++
        (word ++ rest.takeWhile fun c => !isRowBreak c)) := by
    have hsplit : cs = cs.take offset ++ (word ++ rest) := by
      rw [hrest, List.take_append_drop]
    obtain ⟨c, tail, rfl⟩ := List.exists_cons_of_ne_nil hne
    have hrows := splitRows_append (hrow c List.mem_cons_self) (cs.take offset) (tail ++ rest)
    rwa [← List.cons_append, ← hsplit, List.takeWhile_append_of_pos (by simpa using hrow)] at hrows
  have hword := wordInRow_append hne hword hopen
    (hbehind.of_prefix (List.takeWhile_prefix fun c => !isRowBreak c))
  rw [List.length_reverse] at hword
  rw [wordAt_natCast hget, Nat.min_eq_left (by simp), hword]

/-- The position of the offset is there, but for stray breaks before it. -/
theorem wordAt_positionOf {cs : List Char} {offset : Nat} (h : StandsAlone cs word offset)
    (hrow : ∀ c ∈ word, isRowBreak c = false) :
    wordAt cs ((positionOf cs offset).line + strayBreaks (cs.take offset))
        (rowOpen [] (cs.take offset)).length = .ok (some word) ∧
      (strayBreaks (cs.take offset) = 0 →
        wordAt cs (positionOf cs offset).line (positionOf cs offset).column = .ok (some word)) := by
  have hword := wordAt_of_standsAlone hne hword h hrow
  have hle : offset ≤ cs.length := by
    have hreads := h.reads.length_le
    have hpos := List.length_pos_of_ne_nil hne
    rw [List.length_drop] at hreads
    omega
  rw [rowsBefore_eq, Int.natCast_add] at hword
  rw [positionOf_eq hle]
  refine ⟨hword, fun hstray => ?_⟩
  rwa [hstray, rowOpen_eq List.not_mem_nil hstray, List.append_nil, Int.natCast_zero,
    Int.add_zero] at hword

end Word

/-- In a text that is read, the word at the place where a name is set first is the name: as many
rows down as the index says and as there are stray breaks before it. Where there are none, the
index has the column as well. -/
theorem wordAt_of_index [Host] {cs : List Char} {nodes : List Node} {idx : Index} {x : String}
    {p : Position} (h : parse cs = .ok nodes) (hidx : index cs = .ok idx)
    (hx : idx.symbols.get? x = some p) :
    ∃ offset : Nat, StandsAt cs x offset ∧ p = positionOf cs offset ∧
      wordAt cs (p.line + strayBreaks (cs.take offset)) (rowOpen [] (cs.take offset)).length =
        .ok (some x.toList) ∧
      (strayBreaks (cs.take offset) = 0 → wordAt cs p.line p.column = .ok (some x.toList)) := by
  rw [index_of_ok h] at hidx
  cases hidx
  obtain ⟨ts, hcuts, hspells⟩ := spells_of_parse h
  obtain ⟨j, s, t, _, hs, hset, ht, hname, rfl⟩ := get?_definitions hcuts hspells hx
  obtain ⟨offset, hstart, hstands, halone⟩ := hcuts.standsAlone hs hset ht hname
  have hfits := t.fits_name (hcuts.fits t (List.mem_of_getElem? ht)) hname
  have hrow : ∀ c ∈ x.toList, isRowBreak c = false := by
    intro c hc
    have hvisible := isBlank_of_isNameChar (hfits.isNameChar c hc)
    by_contra hbreak
    rw [isBlank_of_isRowBreak (by simpa using hbreak)] at hvisible
    cases hvisible
  rw [hstart]
  exact ⟨offset, hstands, rfl, wordAt_positionOf (List.ne_nil_of_length_pos hfits.length_pos)
    (fun c hc => isWordChar_of_isNameChar (hfits.isNameChar c hc)) halone hrow⟩

/-- A name behind a string that holds a line separator, on the second line and the third row. -/
theorem wordAt_of_index_separator : ∃ cs nodes idx x p,
    cs = "(f \"\u2028\")\r\n (set b 1)".toList ∧
    nodes = [.expr [.name "f", .str "\u2028"], .expr [.name "set", .name "b", .int 1]] ∧
    x = "b" ∧ p = ⟨1, 6⟩ ∧ parse cs = .ok nodes ∧ index cs = .ok idx ∧
    idx.symbols.get? x = some p ∧
    ∃ offset : Nat, StandsAt cs x offset ∧ p = positionOf cs offset ∧
      wordAt cs (p.line + strayBreaks (cs.take offset)) (rowOpen [] (cs.take offset)).length =
        .ok (some x.toList) ∧
      (strayBreaks (cs.take offset) = 0 → wordAt cs p.line p.column = .ok (some x.toList)) := by
  have hparse : parse "(f \"\u2028\")\r\n (set b 1)".toList =
      .ok [.expr [.name "f", .str "\u2028"], .expr [.name "set", .name "b", .int 1]] := by cbv
  have hplace : (definitions "(f \"\u2028\")\r\n (set b 1)".toList).get? "b" = some ⟨1, 6⟩ := by
    decide +kernel
  exact ⟨_, _, _, _, _, rfl, rfl, rfl, rfl, hparse, index_of_ok hparse, hplace,
    wordAt_of_index hparse (index_of_ok hparse) hplace⟩

/-- Behind a form feed the index has a name on a row that is empty, and there is no word. -/
theorem wordAt_behind_formFeed : ∃ cs nodes idx,
    cs = "\x0c(set x 1)".toList ∧ nodes = [.expr [.name "set", .name "x", .int 1]] ∧
    parse cs = .ok nodes ∧ index cs = .ok idx ∧ idx.symbols.get? "x" = some ⟨0, 6⟩ ∧
    wordAt cs 0 6 = .ok none := by
  have hparse : parse "\x0c(set x 1)".toList = .ok [.expr [.name "set", .name "x", .int 1]] := by
    cbv
  have hplace : (definitions "\x0c(set x 1)".toList).get? "x" = some ⟨0, 6⟩ := by
    decide +kernel
  exact ⟨_, _, _, rfl, rfl, hparse, index_of_ok hparse, hplace, by decide +kernel⟩

end Document

end MiniLisp
