import MiniLisp.Proofs.Decimal.FloatRoundTrip
import MiniLisp.Proofs.Source.Reading
import MiniLisp.Proofs.Source.Written

/-!
# Programs are read as they were written

The text of a node lexes to the symbols that the grammar writes it with: each literal is one
lexeme with the literal's contents, parentheses and quotes stand for themselves, and the spaces
between the items of a list are not seen (`Node.lexes_sourceWithin`). So the text of a whole
program spells its nodes and is read as these (`Node.parse_sourceAll`).
-/

namespace MiniLisp

/-! ## Literals -/

/-- An integer is written as its digits, with a minus sign before them if it is negative. -/
theorem toList_toString_int (n : Int) :
    (toString n).toList = Nat.toDigits 10 n.natAbs ∧ 0 ≤ n ∨
      (toString n).toList = '-' :: Nat.toDigits 10 n.natAbs ∧ n < 0 := by
  rw [Int.toString_eq_repr, Int.repr_eq_if]
  split
  · rename_i hpos
    left
    rw [Nat.toList_repr, show n.toNat = n.natAbs by omega]
    exact ⟨rfl, hpos⟩
  · rename_i hneg
    right
    rw [String.toList_append, Nat.toList_repr, show (-n).toNat = n.natAbs by omega]
    exact ⟨rfl, by omega⟩

/-- The digits of a number are read as it, with either sign. -/
theorem readInt?_toDigits {n : Nat} (hn : (Nat.toDigits 10 n).length ≤ Decimal.digitLimit) :
    Decimal.readInt? (Nat.toDigits 10 n) = some (n : Int) ∧
      Decimal.readInt? ('-' :: Nat.toDigits 10 n) = some (-n : Int) := by
  have hvalue : Decimal.ofDigits (Nat.toDigits 10 n) = n := by
    rw [Decimal.ofDigits_eq, Nat.ofDigitChars_ten_toDigits]
  have hds := Decimal.isDigit_toDigits n
  obtain ⟨d, ds, hcons⟩ := List.exists_cons_of_ne_nil (Nat.toDigits_ne_nil (n := n) (b := 10))
  rw [hcons] at hn hvalue hds ⊢
  have hd : d.isDigit = true := hds d List.mem_cons_self
  have hunsigned : Decimal.unsigned ('-' :: d :: ds) = d :: ds := rfl
  have hminus : Decimal.hasMinus ('-' :: d :: ds) = true := rfl
  constructor
  · rw [Decimal.readInt?, Decimal.unsigned_digits hd, Decimal.hasMinus_digits hd, if_pos hn, hvalue]
    rfl
  · rw [Decimal.readInt?, hunsigned, hminus, if_pos hn, hvalue]
    rfl

/-- The text of an integer of no more digits than can be read lexes to it. -/
theorem lexes_int {n : Int} (hn : (Nat.toDigits 10 n.natAbs).length ≤ Decimal.digitLimit) :
    ∃ text, integerText n = .ok text ∧ Lexes text.toList [.int n] := by
  have hwrite : Decimal.writeInt? n = some (toString n) := by
    -- the power is not to be computed
    obtain ⟨limit, hlimit⟩ : ∃ limit, Decimal.digitLimit = limit := ⟨_, rfl⟩
    have hpos : 0 < limit := hlimit ▸ by decide
    rw [hlimit] at hn
    rw [Decimal.writeInt?, hlimit, Nat.pow_eq,
      if_pos ((Nat.length_toDigits_le_iff (by decide) hpos).mp hn)]
  have htext : integerText n = .ok (toString n) := by
    unfold integerText
    rw [hwrite]
  refine ⟨toString n, htext, ?_⟩
  have hfits : Lexeme.Unsigned .int (Nat.toDigits 10 n.natAbs) :=
    .int Nat.toDigits_ne_nil (Decimal.isDigit_toDigits _)
  obtain ⟨hplus, hminus⟩ := readInt?_toDigits hn
  rcases toList_toString_int n with ⟨htext, hpos⟩ | ⟨htext, hneg⟩
  · rw [htext]
    refine lexes_of_fits (.unsigned hfits) fun pos => ?_
    simp [Lexeme.token, Token.terminal?, hplus, abs_of_nonneg hpos]
  · rw [htext]
    refine lexes_of_fits (.signed (.inr rfl) hfits) fun pos => ?_
    simp [Lexeme.token, Token.terminal?, hminus, abs_of_neg hneg]

theorem lexes_float {x : Float} (hx : x.isFinite = true) :
    Lexes (sourceFloats.write x).toList [.float x] := by
  obtain ⟨hfits, hread⟩ := Decimal.write_spec hx
  refine lexes_of_fits hfits fun pos => ?_
  simp [Lexeme.token, Token.terminal?, hread]

theorem lexes_name {x : String} (hx : Lexeme.Fits .name x.toList) : Lexes x.toList [.name x] :=
  lexes_of_fits hx fun _ => by simp [Lexeme.token, Token.terminal?]

theorem lexes_str {s : String} (hs : '"' ∉ s.toList) :
    Lexes ("\"" ++ s ++ "\"").toList [.str s] := by
  rw [String.toList_append, String.toList_append]
  refine lexes_of_fits (.string hs) fun pos => ?_
  simp [Lexeme.token, Token.terminal?]

theorem lexes_operator (op : Operator) : Lexes op.symbol.toList [.operator op] := by
  rw [Operator.symbol, String.toList_ofList]
  refine lexes_of_fits (.operator ?_) fun pos => ?_
  · rcases op with op | op <;> cases op <;> decide
  · simp [Lexeme.token, Token.terminal?, Operator.ofText?]

/-- One more text may stand before texts that are joined by spaces. -/
theorem Lexes.joined {text : String} {texts : List String} {xs ys : List Terminal}
    (h : Lexes text.toList xs) (hs : Lexes (" ".intercalate texts).toList ys) :
    Lexes (" ".intercalate (text :: texts)).toList (xs ++ ys) := by
  cases texts with
  | nil =>
    have hlexes := h.append hs Lexeme.breaks_nil
    rwa [String.intercalate_nil, String.toList_empty, List.append_nil] at hlexes
  | cons t ts =>
    have hblank : Text.isBlank ' ' = true := by decide
    rw [String.intercalate_cons_cons, String.toList_append, String.toList_append,
      List.append_assoc]
    exact h.append (hs.blank hblank) (Lexeme.breaks_cons (by decide) (by decide) _)

namespace Node

/-! ## Nodes that have a text -/

mutual

/-- The nodes whose texts are read as them: integers of at most 4300 digits, finite floats,
names and symbols that are names of the language, and strings without a quote. -/
def Plain : Node → Prop
  | .int n => (Nat.toDigits 10 n.natAbs).length ≤ 4300
  | .float x => x.isFinite = true
  | .name x | .symbol x => Lexeme.Fits .name x.toList
  | .str s => '"' ∉ s.toList
  | .operator _ => True
  | .expr items | .list items => PlainEach items
  | .foreign _ => False

/-- The same of several nodes. -/
def PlainEach : List Node → Prop
  | [] => True
  | node :: nodes => Plain node ∧ PlainEach nodes

end

section Host

variable [Host]

mutual

/-- The text of a node lexes to the node's symbols. -/
theorem lexes_sourceWithin : ∀ (node : Node) (room : Nat), Host.RoomFor (node.depth + 1) room →
    node.Plain → ∃ text, node.sourceWithin room = .ok text ∧ Lexes text.toList node.terminals
  | .int n, room, hroom, hplain => by
    obtain ⟨text, htext, hlexes⟩ := lexes_int hplain
    exact ⟨text, by simp only [sourceWithin, hroom.inside, htext], hlexes⟩
  | .float x, room, hroom, hplain =>
    ⟨_, by rw [sourceWithin, hroom.inside], lexes_float hplain⟩
  | .name x, room, hroom, hplain => ⟨x, by rw [sourceWithin, hroom.inside], lexes_name hplain⟩
  | .str s, room, hroom, hplain => ⟨_, by rw [sourceWithin, hroom.inside], lexes_str hplain⟩
  | .operator op, room, hroom, _ => ⟨_, by rw [sourceWithin, hroom.inside], lexes_operator op⟩
  | .symbol x, room, hroom, hplain => by
    refine ⟨_, by rw [sourceWithin, hroom.inside], ?_⟩
    rw [String.toList_append]
    exact (lexes_name hplain).quoted
  | .expr items, room, hroom, hplain => by
    obtain ⟨texts, htexts, hlexes⟩ :=
      lexes_sourceEachWithin items _ (hroom.left (.source .expr)) hplain
    refine ⟨_, by simp only [sourceWithin, hroom.inside, kind, htexts]; rfl, ?_⟩
    rw [String.toList_append, String.toList_append]
    exact hlexes.parens
  | .list items, room, hroom, hplain => by
    obtain ⟨texts, htexts, hlexes⟩ :=
      lexes_sourceEachWithin items _ (hroom.left (.source .list)) hplain
    refine ⟨_, by simp only [sourceWithin, hroom.inside, kind, htexts]; rfl, ?_⟩
    rw [String.toList_append, String.toList_append]
    exact hlexes.parens.quoted

/-- The texts of several nodes, joined by spaces, lex to the nodes' symbols. -/
theorem lexes_sourceEachWithin : ∀ (nodes : List Node) (room : Nat),
    Host.RoomFor (depthEach nodes + 1) room → PlainEach nodes →
    ∃ texts, sourceEachWithin room nodes = .ok texts ∧
      Lexes (" ".intercalate texts).toList (terminalsEach nodes)
  | [], room, _, _ => ⟨[], by rw [sourceEachWithin], lexes_nil⟩
  | node :: nodes, room, hroom, ⟨hnode, hnodes⟩ => by
    rw [depthEach] at hroom
    obtain ⟨text, htext, hlexes⟩ := lexes_sourceWithin node room
      (hroom.mono (Nat.add_le_add_right (Nat.le_max_left ..) 1)) hnode
    obtain ⟨texts, htexts, hlexes'⟩ := lexes_sourceEachWithin nodes room
      (hroom.mono (Nat.add_le_add_right (Nat.le_max_right ..) 1)) hnodes
    refine ⟨text :: texts, ?_, hlexes.joined hlexes'⟩
    rw [sourceEachWithin, htext, htexts]
    rfl

end

theorem mapM_source (nodes : List Node) :
    nodes.mapM source = sourceEachWithin Host.stack nodes := by
  induction nodes with
  | nil => rfl
  | cons node nodes ih =>
    rw [List.mapM_cons, ih, sourceEachWithin]
    rfl

/-- What is written is read again: the texts of nodes that are nested at most a hundred levels
deep, one space between any two, are read as these nodes. -/
theorem parse_sourceAll (nodes : List Node) (hplain : PlainEach nodes)
    (hdepth : depthEach nodes ≤ 100) :
    ∃ text, sourceAll nodes = .ok text ∧ parse text.toList = .ok nodes := by
  obtain ⟨texts, htexts, hlexes⟩ :=
    lexes_sourceEachWithin nodes Host.stack (Host.roomFor_stack (by omega)) hplain
  obtain ⟨ts, hspells, hcuts⟩ := hlexes.cutsInto
  refine ⟨" ".intercalate texts, ?_, parse_of_spells hcuts hspells hdepth⟩
  rw [sourceAll, mapM_source, htexts]
  rfl

end Host

/-- A quoted list with a sign beside numbers, and a string with a parenthesis in it. -/
theorem parse_sourceAll_quoted :
    ∃ nodes : List Node,
      nodes = [.list [.expr [.operator (.arithmetic .minus), .int (-5), .float (-0.5)],
        .symbol "x_1"], .str "a(b\n", .name "f"] ∧
      PlainEach nodes ∧ depthEach nodes = 2 ∧
      ∃ text, sourceAll nodes = .ok text ∧ parse text.toList = .ok nodes := by
  refine ⟨_, rfl, ?_⟩
  have hplain : PlainEach [.list [.expr [.operator (.arithmetic .minus), .int (-5),
      .float (-0.5)], .symbol "x_1"], .str "a(b\n", .name "f"] := by
    have hint : Plain (.int (-5)) := by
      show (Nat.toDigits 10 5).length ≤ 4300
      decide
    have hfloat : Plain (.float (-0.5)) := by
      show Float.isFinite (-0.5) = true
      decide +kernel
    have hsymbol : Plain (.symbol "x_1") := by
      show Lexeme.Fits .name "x_1".toList
      rw [show "x_1".toList = ['x', '_', '1'] from rfl]
      exact .name (.inl rfl) (List.forall_mem_cons.mpr ⟨.inr rfl, List.forall_mem_singleton.mpr
        (.inl rfl)⟩)
    have hname : Plain (.name "f") := by
      show Lexeme.Fits .name "f".toList
      rw [show "f".toList = ['f'] from rfl]
      exact .name (.inl rfl) (List.forall_mem_nil _)
    have hstr : Plain (.str "a(b\n") := by
      show '"' ∉ "a(b\n".toList
      decide
    exact ⟨⟨⟨trivial, hint, hfloat, trivial⟩, hsymbol, trivial⟩, hstr, hname, trivial⟩
  exact ⟨hplain, rfl, parse_sourceAll _ hplain (by decide)⟩

end Node

end MiniLisp
