import MiniLisp.Proofs.Source.Levels
import MiniLisp.Proofs.Source.Written

/-!
# Layout does not matter

A text that is cut into tokens may be written anew with any blanks between them, also where it
has none: the tokens come out with the same kinds and contents, and the text is read as before
(`parse_layOut`). Only where the host's stack is all but full can it make a difference that blanks
take some of it (`parse_layOut_deep`).
-/

namespace MiniLisp

/-! ## Gaps -/

/-- What may stand between tokens: blanks, one at least. -/
structure IsGap (w : List Char) : Prop where
  ne_nil : w ≠ []
  blank : ∀ c ∈ w, Text.isBlank c = true

theorem isGap_iff {w : List Char} : IsGap w ↔ w.isEmpty = false ∧ w.all Text.isBlank = true := by
  rw [List.isEmpty_eq_false_iff, List.all_eq_true]
  constructor
  · intro h
    exact ⟨h.ne_nil, h.blank⟩
  · intro h
    exact ⟨h.1, h.2⟩

instance (w : List Char) : Decidable (IsGap w) := decidable_of_iff _ isGap_iff.symm

/-- A gap before the first of some tokens, and another behind each of them. -/
theorem isGap_of_mem {g h w : List Char} {ts : List Token} (hg : IsGap g) (hh : IsGap h)
    (hw : w ∈ g :: ts.map fun _ => h) : IsGap w := by
  rw [List.mem_cons, List.mem_map] at hw
  rcases hw with rfl | ⟨_, _, rfl⟩
  · exact hg
  · exact hh

/-- Every lexeme ends before a gap. -/
theorem IsGap.breaks {w : List Char} (h : IsGap w) (rest : List Char) :
    Lexeme.Breaks (w ++ rest) := by
  obtain ⟨b, w', rfl⟩ := List.exists_cons_of_ne_nil h.ne_nil
  have hb := h.blank b List.mem_cons_self
  apply Lexeme.breaks_cons
  · by_contra hname
    rw [Bool.not_eq_false] at hname
    rw [isBlank_of_isNameChar hname] at hb
    cases hb
  · intro hpoint
    subst hpoint
    exact absurd hb (by decide)

/-- Blanks before a text are not seen. -/
theorem Cursor.tokens_blanks {w : List Char} (hw : ∀ c ∈ w, Text.isBlank c = true) (pos : Nat)
    (rest : List Char) :
    (⟨pos, w ++ rest⟩ : Cursor).tokens = (⟨pos + w.length, rest⟩ : Cursor).tokens := by
  induction w generalizing pos with
  | nil => rfl
  | cons b w ih =>
    rw [List.cons_append, tokens_blank (hw b List.mem_cons_self),
      ih (fun c hc => hw c (List.mem_cons_of_mem b hc)), List.length_cons,
      show pos + 1 + w.length = pos + (w.length + 1) by omega]

/-! ## Tokens set apart -/

/-- The tokens of a text in order, with `gap` before the first and one of `gaps` behind each. -/
def layOut (gap : List Char) (gaps : List (List Char)) (ts : List Token) : List Char :=
  gap ++ (List.zipWith (fun t g => t.raw ++ g) ts gaps).flatten

theorem layOut_cons (gap g : List Char) (gaps : List (List Char)) (t : Token) (ts : List Token) :
    layOut gap (g :: gaps) (t :: ts) = gap ++ (t.raw ++ layOut g gaps ts) := by
  simp [layOut]

/-- A token that is cut again from its own characters is the same but for its place. -/
theorem Token.alike_token (t : Token) (pos : Nat) :
    t.Alike (fun _ _ => True) ((⟨t.kind, t.raw⟩ : Lexeme).token pos) := by
  refine ⟨(Lexeme.token_kind ⟨t.kind, t.raw⟩ pos).symm, ?_, trivial⟩
  unfold Lexeme.token
  by_cases hkind : t.kind = .string <;> simp [hkind, Token.raw]

/-- Tokens that are set apart by gaps are cut as they are. -/
theorem tokens_layOut {ts : List Token} (hfits : ∀ t ∈ ts, Lexeme.Fits t.kind t.raw) :
    ∀ {gap : List Char} {gaps : List (List Char)}, gaps.length = ts.length →
      (∀ g ∈ gap :: gaps, IsGap g) → ∀ pos, ∃ us, List.Forall₂ (Token.Alike fun _ _ => True) ts us ∧
        (⟨pos, layOut gap gaps ts⟩ : Cursor).tokens =
          (us ++ [Token.atEnd (pos + (layOut gap gaps ts).length)], none) := by
  induction ts with
  | nil =>
    intro gap gaps _ hgaps pos
    refine ⟨[], .nil, ?_⟩
    have htext : layOut gap gaps [] = gap ++ [] := by simp [layOut]
    rw [htext, Cursor.tokens_blanks (hgaps gap List.mem_cons_self).blank, Cursor.tokens_nil,
      List.append_nil]
    rfl
  | cons t ts ih =>
    intro gap gaps hlength hgaps pos
    cases gaps with
    | nil => cases hlength
    | cons g gaps =>
      have hbehind : ∀ g' ∈ g :: gaps, IsGap g' := fun g' hg => hgaps g' (List.mem_cons_of_mem _ hg)
      have ht : Lexeme.Fits t.kind t.raw := hfits t List.mem_cons_self
      have hbreaks : Lexeme.Breaks (layOut g gaps ts) :=
        (hbehind g List.mem_cons_self).breaks _
      obtain ⟨us, halike, htokens⟩ := ih (fun u hu => hfits u (List.mem_cons_of_mem t hu))
        (by simpa using hlength) hbehind (pos + gap.length + t.raw.length)
      refine ⟨_ :: us, .cons (t.alike_token (pos + gap.length)) halike, ?_⟩
      rw [layOut_cons, Cursor.tokens_blanks (hgaps gap List.mem_cons_self).blank,
        Cursor.tokens_lexeme (Lexeme.first?_append ht hbreaks) (ht.halts_isBlank _), htokens]
      simp only [List.length_append, List.cons_append, Nat.add_assoc]

theorem Tiling.fits {cs : List Char} {p q : Nat} {ts : List Token} (h : Tiling cs p ts q) :
    ∀ t ∈ ts, Lexeme.Fits t.kind t.raw := by
  induction h with
  | gap => intro t ht; cases ht
  | token _ _ hfits _ _ _ ih =>
    intro u hu
    rcases List.mem_cons.mp hu with rfl | hu
    · exact hfits
    · exact ih u hu

/-- The tokens that a text is cut into are of the token grammar. -/
theorem CutsInto.fits {cs : List Char} {ts : List Token} (h : CutsInto cs ts) :
    ∀ t ∈ ts, Lexeme.Fits t.kind t.raw :=
  h.tiling.fits

/-! ## Reading -/

/-- The failure without its place. -/
def ReadFailure.unplaced : ReadFailure → ReadFailure
  | .malformed e => .malformed ⟨e.cause, none⟩
  | .fault f => .fault f

theorem ResultsAlike.unplaced {S : Span → Span → Prop} {α : Type} {r q : Except ReadFailure α}
    (h : ResultsAlike S r q) :
    r.mapError ReadFailure.unplaced = q.mapError ReadFailure.unplaced := by
  cases h with
  | ok => rfl
  | error hf =>
    cases hf with
    | malformed he => simp only [Except.mapError, ReadFailure.unplaced, he.cause]
    | fault => rfl

theorem map_eq_of_alike {S : Span → Span → Prop} {ts us : List Token}
    (h : List.Forall₂ (Token.Alike S) ts us) :
    us.map (fun t => (t.kind, t.content)) = ts.map fun t => (t.kind, t.content) := by
  induction h with
  | nil => rfl
  | cons hhead _ ih => simp only [List.map_cons, ih, hhead.kind, hhead.content]

section Parse

variable {cs : List Char} {ts : List Token} {gap : List Char} {gaps : List (List Char)}

/-- A text that is cut into tokens, and one that has these set apart, are alike. -/
theorem rowsAlike_layOut (hcuts : CutsInto cs ts) (hlength : gaps.length = ts.length)
    (hgaps : ∀ g ∈ gap :: gaps, IsGap g) :
    ∃ us, List.Forall₂ (Token.Alike fun _ _ => True) ts us ∧ CutsInto (layOut gap gaps ts) us ∧
      RowsAlike (fun _ _ => True) (Cursor.ofText cs).tokens
        (Cursor.ofText (layOut gap gaps ts)).tokens := by
  obtain ⟨us, halike, htokens⟩ := tokens_layOut hcuts.fits hlength hgaps 0
  rw [Nat.zero_add] at htokens
  refine ⟨us, halike, htokens, ?_⟩
  rw [hcuts]
  change (Cursor.ofText (layOut gap gaps ts)).tokens = _ at htokens
  rw [htokens]
  exact ⟨List.rel_append halike (.cons ⟨rfl, rfl, trivial⟩ .nil), .none⟩

/-- How many levels a text needs does not depend on its layout. -/
theorem readsWithin_congr {levels : Nat} {S : Span → Span → Prop} {ds : List Char}
    (h : RowsAlike S (Cursor.ofText cs).tokens (Cursor.ofText ds).tokens) :
    ReadsWithin levels ds ↔ ReadsWithin levels cs := by
  have halike := readLevels_alike levels h
  unfold ReadsWithin
  generalize readLevels levels cs = r at halike ⊢
  generalize readLevels levels ds = q at halike ⊢
  cases halike with
  | ok => exact iff_of_true nofun nofun
  | error hf =>
    cases hf with
    | malformed => exact iff_of_true nofun nofun
    | fault => exact Iff.rfl

variable [Host]

/-- Layout does not matter. If a text is cut into tokens, then so is any text that has these
tokens in order with gaps before, between and behind them: into tokens of the same kinds with the
same contents. And it is read as the first text is: as the same nodes, or with an error of the
same cause, or the same fault. It takes no more than that the host's stack holds both texts or
neither, since blanks take some of it too; and it holds both where the first is nested no deeper
than a hundred levels. -/
theorem parse_layOut (hcuts : CutsInto cs ts) (hlength : gaps.length = ts.length)
    (hgaps : ∀ g ∈ gap :: gaps, IsGap g) :
    (∃ us, CutsInto (layOut gap gaps ts) us ∧
      us.map (fun t => (t.kind, t.content)) = ts.map fun t => (t.kind, t.content)) ∧
    ((Fits cs ↔ Fits (layOut gap gaps ts)) →
      (parse (layOut gap gaps ts)).mapError ReadFailure.unplaced =
        (parse cs).mapError ReadFailure.unplaced) ∧
    (ReadsWithin 202 cs → Fits cs ∧ Fits (layOut gap gaps ts)) := by
  obtain ⟨us, halike, htokens, hrows⟩ := rowsAlike_layOut hcuts hlength hgaps
  refine ⟨⟨us, htokens, map_eq_of_alike halike⟩, ?_, ?_⟩
  · intro hsame
    by_cases hcs : Fits cs
    -- both are read with the levels of the one that has more, or both are nested too deeply
    · obtain ⟨levels, hle, hle'⟩ : ∃ levels, Host.levels cs ≤ levels ∧
          Host.levels (layOut gap gaps ts) ≤ levels :=
        ⟨max (Host.levels cs) (Host.levels (layOut gap gaps ts)), by omega, by omega⟩
      rw [hcs.parse_eq hle, (hsame.mp hcs).parse_eq hle']
      exact (readLevels_alike levels hrows).ofText.unplaced.symm
    · rw [parse_of_not_fits hcs, parse_of_not_fits (mt hsame.mpr hcs)]
  · intro hcs
    exact ⟨hcs.fits, ((readsWithin_congr hrows).mpr hcs).fits⟩

end Parse

/-- Tokens that touch each other: a signed number behind a name, a name behind digits, a name
behind a string and a point, and a quote that cannot stand where it does. -/
theorem parse_layOut_touching :
    ∃ cs ts gap gaps, cs = "(x-5 12abc\"a b\"y 1.x 'z)''z".toList ∧
      ts = (Cursor.ofText cs).tokens.1.dropLast ∧ gap = ['\n'] ∧
      gaps = ts.map (fun _ => [' ', '\t']) ∧ CutsInto cs ts ∧ gaps.length = ts.length ∧
      (∀ g ∈ gap :: gaps, IsGap g) ∧ ReadsWithin 202 cs ∧
      (∃ us, CutsInto (layOut gap gaps ts) us ∧
        us.map (fun t => (t.kind, t.content)) = ts.map fun t => (t.kind, t.content)) ∧
      (parse (layOut gap gaps ts)).mapError ReadFailure.unplaced =
        (parse cs).mapError ReadFailure.unplaced := by
  obtain ⟨ts, hts⟩ : ∃ ts, ts =
      (Cursor.ofText "(x-5 12abc\"a b\"y 1.x 'z)''z".toList).tokens.1.dropLast := ⟨_, rfl⟩
  have hcuts : CutsInto "(x-5 12abc\"a b\"y 1.x 'z)''z".toList ts := by
    rw [hts]
    unfold CutsInto
    decide +kernel
  have hlength : (ts.map fun _ => [' ', '\t']).length = ts.length := List.length_map _
  have hgaps : ∀ g ∈ ['\n'] :: ts.map (fun _ => [' ', '\t']), IsGap g :=
    fun g hg => isGap_of_mem (by decide) (by decide) hg
  have hwithin : ReadsWithin 202 "(x-5 12abc\"a b\"y 1.x 'z)''z".toList :=
    readsWithin_of_length_lt (by decide)
  obtain ⟨htokens, hparse, hfits⟩ := parse_layOut hcuts hlength hgaps
  obtain ⟨hcs, hlaid⟩ := hfits hwithin
  exact ⟨_, ts, _, _, rfl, hts, rfl, rfl, hcuts, hlength, hgaps, hwithin, htokens,
    hparse (iff_of_true hcs hlaid)⟩

/-- As many lists inside one another as the standard host reads are not read any more when blanks
are put between their parentheses. -/
theorem parse_layOut_deep :
    ∃ cs ts gap gaps, cs = parens 494 ∧ ts = (Cursor.ofText cs).tokens.1.dropLast ∧ gap = [' '] ∧
      gaps = ts.map (fun _ => [' ']) ∧ CutsInto cs ts ∧ gaps.length = ts.length ∧
      (∀ g ∈ gap :: gaps, IsGap g) ∧ parse cs = .ok [Node.nested 493] ∧
      parse (layOut gap gaps ts) = .error (.malformed ⟨.nestedTooDeeply, none⟩) := by
  obtain ⟨ts, hts⟩ : ∃ ts, ts = (Cursor.ofText (parens 494)).tokens.1.dropLast := ⟨_, rfl⟩
  have hcuts : CutsInto (parens 494) ts := by
    rw [hts]
    unfold CutsInto
    decide +kernel
  have hlength : (ts.map fun _ => [' ']).length = ts.length := List.length_map _
  have hgaps : ∀ g ∈ [' '] :: ts.map fun _ => [' '], IsGap g :=
    fun g hg => isGap_of_mem (by decide) (by decide) hg
  have hlevels : Host.levels (parens 494) = 494 := by decide +kernel
  have hlevels' : Host.levels (layOut [' '] (ts.map fun _ => [' ']) ts) = 493 := by
    rw [hts]
    decide +kernel
  -- the text with blanks needs as many levels as the one without, and has one less
  have hfits : ¬ Fits (layOut [' '] (ts.map fun _ => [' ']) ts) := by
    obtain ⟨_, _, _, hrows⟩ := rowsAlike_layOut hcuts hlength hgaps
    rw [Fits, hlevels', readsWithin_congr hrows, readsWithin_parens_iff]
    exact Nat.lt_irrefl 493
  refine ⟨_, ts, _, _, rfl, hts, rfl, rfl, hcuts, hlength, hgaps, ?_, parse_of_not_fits hfits⟩
  rw [parse_eq_ok_iff, hlevels]
  exact readLevels_parens 493

end MiniLisp
