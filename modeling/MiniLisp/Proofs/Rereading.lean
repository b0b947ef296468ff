import Mathlib.Data.List.Induction
import MiniLisp.Proofs.RoundTrip
import MiniLisp.Proofs.Source.Forms
import MiniLisp.Proofs.Source.Layout

/-!
# What is read can be written, and mostly read again

The symbols of a text that is read are those of tokens, so its nodes have a text of their own
(`Node.rereads_sourceWithin`). That text lexes to the same symbols as long as their floats are
finite. A literal that is too great for a float is read as infinity, and the text of infinity is no
literal: it stops the cutter. `Node.parse_sourceAll_iff` puts the two together.
-/

namespace MiniLisp

/-! ## Symbols of tokens -/

/-- Digits stand for a number that has no more digits. -/
theorem Decimal.ofDigits_lt {ds : List Char} (hds : ∀ c ∈ ds, c.isDigit = true) :
    Decimal.ofDigits ds < 10 ^ ds.length := by
  induction ds using List.reverseRecOn with
  | nil => decide
  | append_singleton ds d ih =>
    have hd : d.toNat - 48 < 10 := by
      have hdigit := hds d (by simp)
      simp only [Char.isDigit, Bool.and_eq_true, decide_eq_true_eq, ge_iff_le,
        UInt32.le_iff_toNat_le] at hdigit
      have hnine : '9'.val.toNat = 57 := rfl
      have hval : d.toNat = d.val.toNat := rfl
      omega
    have hfront := ih fun c hc => hds c (List.mem_append_left _ hc)
    rw [Decimal.ofDigits, List.foldl_append, List.length_append, List.length_singleton, pow_succ]
    rw [Decimal.ofDigits] at hfront
    simp only [List.foldl_cons, List.foldl_nil]
    omega

/-- Behind its sign an integer has digits and nothing else. -/
theorem Lexeme.Fits.int_inv {raw : List Char} (h : Lexeme.Fits .int raw) :
    Decimal.unsigned raw ≠ [] ∧ ∀ c ∈ Decimal.unsigned raw, c.isDigit = true := by
  cases h with
  | unsigned h =>
    cases h with
    | int hne hds =>
      obtain ⟨d, ds, rfl⟩ := List.exists_cons_of_ne_nil hne
      rw [Decimal.unsigned_digits (hds d List.mem_cons_self)]
      exact ⟨hne, hds⟩
  | signed hsign h =>
    cases h with
    | int hne hds =>
      rcases hsign with rfl | rfl
      · exact ⟨hne, hds⟩
      · exact ⟨hne, hds⟩

namespace Terminal

/-- The symbol is that of a token in the token grammar. -/
def Read (x : Terminal) : Prop :=
  ∃ t : Token, Lexeme.Fits t.kind t.raw ∧ t.terminal? = some x

/-- The symbol is no float, or a finite one. -/
def Finite : Terminal → Prop
  | .float x => x.isFinite = true
  | _ => True

/-- An integer that is read can be written. -/
theorem Read.int {n : Int} (h : (Terminal.int n).Read) :
    (Nat.toDigits 10 n.natAbs).length ≤ Decimal.digitLimit := by
  obtain ⟨t, hfits, ht⟩ := h
  unfold Token.terminal? at ht
  split at ht <;> try simp at ht
  rename_i hkind
  rw [Token.raw, hkind, if_neg (by simp)] at hfits
  obtain ⟨hne, hds⟩ := hfits.int_inv
  unfold Decimal.readInt? at ht
  split at ht
  · rename_i hle
    have hvalue : n.natAbs = Decimal.ofDigits (Decimal.unsigned t.content) := by
      rw [← Option.some.inj ht]
      split <;> simp
    refine le_trans ((Nat.length_toDigits_le_iff (by decide) ?_).mpr ?_) hle
    · exact List.length_pos_of_ne_nil hne
    · rw [hvalue]
      exact Decimal.ofDigits_lt hds
  · cases ht

theorem Read.name {x : String} (h : (Terminal.name x).Read) : Lexeme.Fits .name x.toList := by
  obtain ⟨t, hfits, ht⟩ := h
  exact t.fits_name hfits ht

theorem Read.str {s : String} (h : (Terminal.str s).Read) : '"' ∉ s.toList := by
  obtain ⟨t, hfits, ht⟩ := h
  unfold Token.terminal? at ht
  split at ht <;> try simp at ht
  rename_i hkind
  rw [Token.raw, hkind, if_pos rfl] at hfits
  obtain ⟨cs, hcs, hraw⟩ := hfits.string_inv
  have hcontent : t.content = cs := by
    rw [List.cons_append, List.cons_append, List.cons.injEq] at hraw
    exact List.append_cancel_right hraw.2
  rwa [← ht, String.toList_ofList, hcontent]

theorem not_read_foreign (text : String) : ¬ (Terminal.foreign text).Read := by
  rintro ⟨t, _, ht⟩
  exact t.terminal?_ne_foreign text ht

end Terminal

/-- The symbols of the nodes that a text is read as are those of its tokens. -/
theorem Spells.read {cs : List Char} {ts : List Token} {nodes : List Node} (h : Spells ts nodes)
    (hcuts : CutsInto cs ts) : ∀ x ∈ Node.terminalsEach nodes, x.Read := by
  intro x hx
  obtain ⟨t, ht, hterminal⟩ := h.exists_token hx
  exact ⟨t, hcuts.fits t ht, hterminal⟩

/-! ## Texts that stop the cutter -/

/-- Wherever the text stands, with something behind it that breaks lexemes off, the cutter comes to
a place where no token begins. -/
def Unlexable (cs : List Char) : Prop :=
  ∀ pos rest, Lexeme.Breaks rest → (⟨pos, cs ++ rest⟩ : Cursor).tokens.2 ≠ none

theorem Unlexable.append {as bs : List Char} (h : Unlexable as) (hbreaks : Lexeme.Breaks bs) :
    Unlexable (as ++ bs) := by
  intro pos rest hrest
  rw [List.append_assoc]
  exact h pos (bs ++ rest) (hbreaks.append hrest)

theorem Lexes.append_unlexable {as bs : List Char} {xs : List Terminal} (ha : Lexes as xs)
    (hb : Unlexable bs) (hbreaks : Lexeme.Breaks bs) : Unlexable (as ++ bs) := by
  intro pos rest hrest
  obtain ⟨ts, _, has⟩ := ha pos (bs ++ rest) (hbreaks.append hrest)
  rw [List.append_assoc, has]
  exact hb (pos + as.length) rest hrest

theorem Unlexable.blank {cs : List Char} (h : Unlexable cs) {b : Char}
    (hb : Text.isBlank b = true) : Unlexable (b :: cs) := by
  intro pos rest hrest
  rw [List.cons_append, Cursor.tokens_blank hb]
  exact h (pos + 1) rest hrest

/-- A lexeme before a text that stops the cutter helps nothing. -/
theorem Unlexable.lexeme {cs : List Char} (h : Unlexable cs) (kind : TokenKind) (raw : List Char)
    (hfirst : ∀ rest, Lexeme.first? (raw ++ (cs ++ rest)) = some ⟨kind, raw⟩) :
    Unlexable (raw ++ cs) := by
  intro pos rest hrest
  have hfits := (Lexeme.first?_sound (hfirst rest)).1
  rw [List.append_assoc, Cursor.tokens_lexeme (hfirst rest) (hfits.halts_isBlank _)]
  exact h (pos + raw.length) rest hrest

/-- No token begins with a point. -/
theorem unlexable_point (cs : List Char) : Unlexable ('.' :: cs) := by
  intro pos rest _
  have hskip : (⟨pos, '.' :: cs ++ rest⟩ : Cursor).skipWhile Text.isBlank =
      ⟨pos, '.' :: cs ++ rest⟩ := Cursor.skipWhile_of_halts (halts_cons (by decide) _)
  have hnext : (⟨pos, '.' :: cs ++ rest⟩ : Cursor).next.1 = .error _ :=
    Cursor.next_eq_error_iff.mpr ⟨'.', cs ++ rest, by rw [hskip]; rfl, rfl, rfl⟩
  rw [(Cursor.Cuts.error (Prod.ext hnext rfl)).tokens_eq]
  exact Option.some_ne_none _

theorem unlexable_name_point {c : Char} {cs : List Char} (hc : isNameStart c = true)
    (hcs : ∀ d ∈ cs, isNameChar d = true) (tail : List Char) :
    Unlexable (c :: cs ++ '.' :: tail) := by
  refine (unlexable_point tail).lexeme .name (c :: cs) fun rest => ?_
  rw [List.cons_append, Lexeme.first?_nameStart hc, List.cons_append,
    takeWhile_append_halts hcs (halts_cons (by decide) _)]

theorem Unlexable.minus {c : Char} {cs : List Char} (h : Unlexable (c :: cs))
    (hc : isDigit c = false) : Unlexable ('-' :: c :: cs) :=
  h.lexeme .operator ['-'] fun _ => Lexeme.first?_sign_alone (by decide) (halts_cons hc _)

theorem Unlexable.not_parse [Host] {cs : List Char} (h : Unlexable cs) (nodes : List Node) :
    parse cs ≠ .ok nodes := by
  intro hparse
  obtain ⟨ts, hcuts, _⟩ := spells_of_parse hparse
  have hunlexed := h 0 [] Lexeme.breaks_nil
  rw [List.append_nil] at hunlexed
  exact hunlexed (congrArg Prod.snd hcuts)

/-- The text of a float that is not finite stops the cutter behind a word for it. -/
theorem unlexable_float {x : Float} (hx : ¬ x.isFinite = true) :
    Unlexable (sourceFloats.write x).toList := by
  have hfinite : ¬ x.toModel.unpack.isFinite = true := hx
  have hinfinity : Unlexable sourceFloats.infinity.toList := by
    have hletters : ['n', 'f', 'i', 'n', 'i', 't', 'y'].all isNameChar = true := by decide
    exact unlexable_name_point (show isNameStart 'I' = true by decide)
      (List.all_eq_true.mp hletters) ['0']
  have hundefined : Unlexable sourceFloats.notANumber.toList := by
    have hletters : ['a', 'N'].all isNameChar = true := by decide
    exact unlexable_name_point (show isNameStart 'N' = true by decide)
      (List.all_eq_true.mp hletters) ['0']
  rw [Decimal.FloatLayout.write]
  cases hu : x.toModel.unpack with
  | zero s => exact absurd rfl (hu ▸ hfinite)
  | finite s m e hm => exact absurd rfl (hu ▸ hfinite)
  | notANumber =>
    rw [String.toList_ofList]
    exact hundefined
  | infinity s =>
    rw [String.toList_ofList]
    cases s with
    | positive => exact hinfinity
    | negative => exact hinfinity.minus (show isDigit 'I' = false by decide)

/-! ## Texts that are read again, or not at all -/

/-- The text lexes to the symbols if these are finite, and else stops the cutter. -/
structure Rereads (cs : List Char) (xs : List Terminal) : Prop where
  lexes : (∀ x ∈ xs, x.Finite) → Lexes cs xs
  unlexable : ¬ (∀ x ∈ xs, x.Finite) → Unlexable cs

theorem Lexes.rereads {cs : List Char} {x : Terminal} (h : Lexes cs [x]) (hx : x.Finite) :
    Rereads cs [x] :=
  ⟨fun _ => h, fun hnot => absurd (List.forall_mem_singleton.mpr hx) hnot⟩

theorem rereads_nil : Rereads [] [] :=
  ⟨fun _ => lexes_nil, fun hnot => absurd (List.forall_mem_nil _) hnot⟩

theorem rereads_float (x : Float) : Rereads (sourceFloats.write x).toList [.float x] :=
  ⟨fun h => lexes_float (h (.float x) List.mem_cons_self),
    fun hnot => unlexable_float fun hx => hnot (by simpa [Terminal.Finite] using hx)⟩

theorem Rereads.quoted {cs : List Char} {xs : List Terminal} (h : Rereads cs xs) :
    Rereads ('\'' :: cs) (.quote :: xs) := by
  have hfinite : (∀ x ∈ Terminal.quote :: xs, x.Finite) ↔ ∀ x ∈ xs, x.Finite := by
    simp [Terminal.Finite]
  refine ⟨fun hxs => (h.lexes (hfinite.mp hxs)).quoted, fun hnot => ?_⟩
  exact (h.unlexable fun hxs => hnot (hfinite.mpr hxs)).lexeme .quote ['\''] fun _ => rfl

theorem Rereads.parens {cs : List Char} {xs : List Terminal} (h : Rereads cs xs) :
    Rereads ('(' :: (cs ++ [')'])) (.openParen :: (xs ++ [.closeParen])) := by
  have hfinite : (∀ x ∈ Terminal.openParen :: (xs ++ [.closeParen]), x.Finite) ↔
      ∀ x ∈ xs, x.Finite := by
    simp [Terminal.Finite, or_imp, forall_and]
  refine ⟨fun hxs => (h.lexes (hfinite.mp hxs)).parens, fun hnot => ?_⟩
  have hclosed : Unlexable (cs ++ [')']) := (h.unlexable fun hxs => hnot (hfinite.mpr hxs)).append
    (Lexeme.breaks_cons (by decide) (by decide) [])
  exact hclosed.lexeme .openParen ['('] fun _ => rfl

/-- What stands behind the first of several texts that are joined by spaces. -/
theorem exists_tail_joined (text : String) (texts : List String) :
    ∃ tail, (" ".intercalate (text :: texts)).toList = text.toList ++ tail ∧ Lexeme.Breaks tail ∧
      (Unlexable (" ".intercalate texts).toList → Unlexable tail) := by
  cases texts with
  | nil => exact ⟨[], by simp, Lexeme.breaks_nil, id⟩
  | cons t ts =>
    refine ⟨' ' :: (" ".intercalate (t :: ts)).toList, ?_, ?_, fun h => h.blank (by decide)⟩
    · rw [String.intercalate_cons_cons, String.toList_append, String.toList_append,
        List.append_assoc]
      rfl
    · exact Lexeme.breaks_cons (by decide) (by decide) _

/-- Texts that are joined by spaces are read again if each is. -/
theorem Rereads.joined {text : String} {texts : List String} {xs ys : List Terminal}
    (h : Rereads text.toList xs) (hs : Rereads (" ".intercalate texts).toList ys) :
    Rereads (" ".intercalate (text :: texts)).toList (xs ++ ys) := by
  refine ⟨fun hfinite => ?_, fun hnot => ?_⟩
  · obtain ⟨hxs, hys⟩ := List.forall_mem_append.mp hfinite
    exact (h.lexes hxs).joined (hs.lexes hys)
  · obtain ⟨tail, htail, hbreaks, hunlexed⟩ := exists_tail_joined text texts
    rw [htail]
    by_cases hxs : ∀ x ∈ xs, x.Finite
    · have hys : ¬ ∀ y ∈ ys, y.Finite := fun hys => hnot (List.forall_mem_append.mpr ⟨hxs, hys⟩)
      exact (h.lexes hxs).append_unlexable (hunlexed (hs.unlexable hys)) hbreaks
    · exact (h.unlexable hxs).append hbreaks

namespace Node

section Host

variable [Host]

mutual

/-- A node whose symbols are those of tokens has a text that is read as these again, unless a float
is in the way. -/
theorem rereads_sourceWithin : ∀ (node : Node) (room : Nat), Host.RoomFor (node.depth + 1) room →
    (∀ x ∈ node.terminals, x.Read) →
    ∃ text, node.sourceWithin room = .ok text ∧ Rereads text.toList node.terminals
  | .int n, room, hroom, hread => by
    obtain ⟨text, htext, hlexes⟩ := lexes_int (hread _ List.mem_cons_self).int
    exact ⟨text, by simp only [sourceWithin, hroom.inside, htext], hlexes.rereads trivial⟩
  | .float x, room, hroom, _ => ⟨_, by rw [sourceWithin, hroom.inside], rereads_float x⟩
  | .name x, room, hroom, hread =>
    ⟨x, by rw [sourceWithin, hroom.inside],
      (lexes_name (hread _ List.mem_cons_self).name).rereads trivial⟩
  | .str s, room, hroom, hread =>
    ⟨_, by rw [sourceWithin, hroom.inside],
      (lexes_str (hread _ List.mem_cons_self).str).rereads trivial⟩
  | .operator op, room, hroom, _ =>
    ⟨_, by rw [sourceWithin, hroom.inside], (lexes_operator op).rereads trivial⟩
  | .symbol x, room, hroom, hread => by
    refine ⟨_, by rw [sourceWithin, hroom.inside], ?_⟩
    have hname := (hread (.name x) (List.mem_cons_of_mem _ List.mem_cons_self)).name
    rw [String.toList_append]
    exact ((lexes_name hname).rereads trivial).quoted
  | .expr items, room, hroom, hread => by
    have hitems : ∀ x ∈ terminalsEach items, x.Read := fun x hx =>
      hread x (List.mem_cons_of_mem _ (List.mem_append_left _ hx))
    obtain ⟨texts, htexts, hagain⟩ :=
      rereads_sourceEachWithin items _ (hroom.left (.source .expr)) hitems
    refine ⟨_, by simp only [sourceWithin, hroom.inside, kind, htexts]; rfl, ?_⟩
    rw [String.toList_append, String.toList_append]
    exact hagain.parens
  | .list items, room, hroom, hread => by
    have hitems : ∀ x ∈ terminalsEach items, x.Read := fun x hx =>
      hread x (List.mem_cons_of_mem _ (List.mem_cons_of_mem _ (List.mem_append_left _ hx)))
    obtain ⟨texts, htexts, hagain⟩ :=
      rereads_sourceEachWithin items _ (hroom.left (.source .list)) hitems
    refine ⟨_, by simp only [sourceWithin, hroom.inside, kind, htexts]; rfl, ?_⟩
    rw [String.toList_append, String.toList_append]
    exact hagain.parens.quoted
  | .foreign text, _, _, hread =>
    absurd (hread _ List.mem_cons_self) (Terminal.not_read_foreign text)

/-- The same of several nodes, with spaces between their texts. -/
theorem rereads_sourceEachWithin : ∀ (nodes : List Node) (room : Nat),
    Host.RoomFor (depthEach nodes + 1) room → (∀ x ∈ terminalsEach nodes, x.Read) →
    ∃ texts, sourceEachWithin room nodes = .ok texts ∧
      Rereads (" ".intercalate texts).toList (terminalsEach nodes)
  | [], room, _, _ => ⟨[], by rw [sourceEachWithin], rereads_nil⟩
  | node :: nodes, room, hroom, hread => by
    rw [depthEach] at hroom
    rw [terminalsEach, List.forall_mem_append] at hread
    obtain ⟨text, htext, hagain⟩ := rereads_sourceWithin node room
      (hroom.mono (Nat.add_le_add_right (Nat.le_max_left ..) 1)) hread.1
    obtain ⟨texts, htexts, hagain'⟩ := rereads_sourceEachWithin nodes room
      (hroom.mono (Nat.add_le_add_right (Nat.le_max_right ..) 1)) hread.2
    refine ⟨text :: texts, ?_, hagain.joined hagain'⟩
    rw [sourceEachWithin, htext, htexts]
    rfl

end

/-- What is read can be written: the nodes of a text that is nested at most a hundred levels deep
have texts, and these, one space between any two, are read again just when every float is finite.
What they are read as are the same nodes, which are written as before. -/
theorem parse_sourceAll_iff {cs : List Char} {nodes : List Node} (h : parse cs = .ok nodes)
    (hdepth : depthEach nodes ≤ 100) :
    ∃ text, sourceAll nodes = .ok text ∧
      ((∃ again, parse text.toList = .ok again) ↔ ∀ x ∈ terminalsEach nodes, x.Finite) ∧
      ∀ again, parse text.toList = .ok again → again = nodes ∧ sourceAll again = .ok text := by
  obtain ⟨ts, hcuts, hspells⟩ := spells_of_parse h
  obtain ⟨texts, htexts, hagain⟩ :=
    rereads_sourceEachWithin nodes Host.stack (Host.roomFor_stack (by omega)) (hspells.read hcuts)
  have htext : sourceAll nodes = .ok (" ".intercalate texts) := by
    rw [sourceAll, mapM_source, htexts]
    rfl
  have hback : (∀ x ∈ terminalsEach nodes, x.Finite) →
      parse (" ".intercalate texts).toList = .ok nodes := by
    intro hfinite
    obtain ⟨us, hus, hcut⟩ := (hagain.lexes hfinite).cutsInto
    exact parse_of_spells hcut hus hdepth
  have hfinite : ∀ again, parse (" ".intercalate texts).toList = .ok again →
      ∀ x ∈ terminalsEach nodes, x.Finite := by
    intro again hparse
    by_contra hnot
    exact (hagain.unlexable hnot).not_parse again hparse
  refine ⟨_, htext, ⟨?_, fun hxs => ⟨_, hback hxs⟩⟩, ?_⟩
  · rintro ⟨again, hparse⟩
    exact hfinite again hparse
  · intro again hparse
    have hsame : again = nodes := by
      have heq := hback (hfinite again hparse)
      rw [hparse] at heq
      exact Except.ok.inj heq
    exact ⟨hsame, hsame ▸ htext⟩

/-- A literal of a float is a form. -/
theorem parse_float {cs : List Char} (h : Lexeme.Fits .float cs) :
    parse cs = .ok [.float (Decimal.readFloat cs)] := by
  have hlexes : Lexes cs [.float (Decimal.readFloat cs)] :=
    lexes_of_fits h fun pos => by simp [Lexeme.token, Token.terminal?]
  obtain ⟨ts, hspells, hcuts⟩ := hlexes.cutsInto
  exact parse_of_spells hcuts hspells (Nat.zero_le 100)

end Host

/-- Integers with leading zeros and a plus sign, beside a string and a quoted name. -/
theorem parse_sourceAll_iff_signs : ∃ cs nodes, cs = "(f 007 +1 \"a(\") 'x".toList ∧
    nodes = [.expr [.name "f", .int 7, .int 1, .str "a("], .symbol "x"] ∧
    parse cs = .ok nodes ∧ depthEach nodes ≤ 100 ∧
    ∃ text, sourceAll nodes = .ok text ∧
      ((∃ again, parse text.toList = .ok again) ↔ ∀ x ∈ terminalsEach nodes, x.Finite) ∧
      ∀ again, parse text.toList = .ok again → again = nodes ∧ sourceAll again = .ok text := by
  have hparse : parse "(f 007 +1 \"a(\") 'x".toList =
      .ok [.expr [.name "f", .int 7, .int 1, .str "a("], .symbol "x"] := by cbv
  have hdepth : depthEach [.expr [.name "f", .int 7, .int 1, .str "a("], .symbol "x"] ≤ 100 := by
    decide
  exact ⟨_, _, rfl, rfl, hparse, hdepth, parse_sourceAll_iff hparse hdepth⟩

/-- A one with 309 zeros and a point is read as infinity, and nothing is read from the text of
that. -/
theorem sourceAll_infinity : ∃ cs nodes text,
    cs = '1' :: List.replicate 309 '0' ++ ['.'] ∧ parse cs = .ok nodes ∧
    depthEach nodes ≤ 100 ∧ sourceAll nodes = .ok text ∧
    ∀ again, parse text.toList ≠ .ok again := by
  have hfits : Lexeme.Fits .float ('1' :: List.replicate 309 '0' ++ ['.']) := by
    refine .unsigned (.float (List.cons_ne_nil _ _) ?_ (List.forall_mem_nil _))
    exact List.forall_mem_cons.mpr ⟨by decide, Decimal.isDigit_replicate_zero 309⟩
  have hinfinite : ¬ (Decimal.readFloat ('1' :: List.replicate 309 '0' ++ ['.'])).isFinite =
      true := by decide +kernel
  exact ⟨_, _, _, rfl, parse_float hfits, Nat.zero_le 100, rfl,
    (unlexable_float hinfinite).not_parse⟩

end Node

end MiniLisp
