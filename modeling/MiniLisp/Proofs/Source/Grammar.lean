import Mathlib.Tactic.Common
import MiniLisp.Proofs.Source.Tiling
import MiniLisp.Source.Parser

/-!
# The grammar of forms

What a form looks like as a row of tokens, apart from how it is read. `Node.terminals` writes a
node as the symbols of the grammar, `Token.terminal?` says which symbol a token is, and
`Spells ts nodes` that a row of tokens is the nodes written one after the other.

`Terminal.build` reads a whole row of symbols with a stack and nothing else: no cursor, no
token ahead, no limit on nesting. `Terminal.build_eq_some_iff` says that it undoes the writing,
so a row of tokens spells at most one list of nodes (`Spells.unique`). `readLexed` cuts a whole
text first and then builds its forms.
-/

namespace MiniLisp

/-- A symbol of the grammar of forms: punctuation, or a literal with its contents. -/
inductive Terminal where
  | int (value : Int)
  | float (value : Float)
  | name (name : String)
  | str (value : String)
  | operator (op : Operator)
  | openParen
  | closeParen
  | quote
  /-- What no token stands for. -/
  | foreign (text : String)

/-- The symbol that a token is, if its contents can be read. -/
def Token.terminal? (t : Token) : Option Terminal :=
  match t.kind with
  | .int => (Decimal.readInt? t.content).map .int
  | .float => some (.float (Decimal.readFloat t.content))
  | .name => some (.name (String.ofList t.content))
  | .string => some (.str (String.ofList t.content))
  | .operator => (Operator.ofText? t.content).map .operator
  | .openParen => some .openParen
  | .closeParen => some .closeParen
  | .quote => some .quote
  | .eof => none

namespace Node

mutual

/-- The symbols that a node is written with. -/
def terminals : Node → List Terminal
  | .int n => [.int n]
  | .float x => [.float x]
  | .name x => [.name x]
  | .str s => [.str s]
  | .symbol x => [.quote, .name x]
  | .operator op => [.operator op]
  | .expr items => .openParen :: (terminalsEach items ++ [.closeParen])
  | .list items => .quote :: .openParen :: (terminalsEach items ++ [.closeParen])
  | .foreign text => [.foreign text]

/-- The symbols of several nodes, one node behind the other. -/
def terminalsEach : List Node → List Terminal
  | [] => []
  | node :: nodes => terminals node ++ terminalsEach nodes

end

theorem terminalsEach_append (as bs : List Node) :
    terminalsEach (as ++ bs) = terminalsEach as ++ terminalsEach bs := by
  induction as with
  | nil => rfl
  | cons a as ih => simp only [List.cons_append, terminalsEach, ih, List.append_assoc]

theorem terminalsEach_singleton (node : Node) : terminalsEach [node] = terminals node := by
  simp [terminalsEach]

end Node

/-! ## Reading a row of symbols -/

namespace Terminal

/-- A list that is still open: whether a quote stands before it, and the nodes before that,
the last one first. -/
structure Frame where
  quoted : Bool
  before : List Node

/-- The node that a frame becomes when its list is closed. -/
def Frame.node (f : Frame) (items : List Node) : Node :=
  if f.quoted then .list items else .expr items

/-- The node of a symbol that is one by itself. -/
def literal? : Terminal → Option Node
  | .int n => some (.int n)
  | .float x => some (.float x)
  | .name x => some (.name x)
  | .str s => some (.str s)
  | .operator op => some (.operator op)
  | .foreign text => some (.foreign text)
  | .openParen | .closeParen | .quote => none

/-- Reads symbols with a stack of open lists. `done` are the nodes read in the innermost one,
the last one first, and `quoted` says whether a quote was the last symbol. -/
def build : List Frame → List Node → Bool → List Terminal → Option (List Node)
  | [], done, false, [] => some done.reverse
  | stack, done, quoted, .openParen :: xs => build (⟨quoted, done⟩ :: stack) [] false xs
  | f :: stack, done, false, .closeParen :: xs =>
    build stack (f.node done.reverse :: f.before) false xs
  | stack, done, false, .quote :: xs => build stack done true xs
  | stack, done, true, .name x :: xs => build stack (.symbol x :: done) false xs
  | stack, done, false, x :: xs =>
    match x.literal? with
    | some node => build stack (node :: done) false xs
    | none => none
  | _, _, _, _ => none

/-- The symbols that a stack has behind it. -/
def written : List Frame → List Terminal
  | [] => []
  | f :: stack =>
    written stack ++ Node.terminalsEach f.before.reverse ++ (if f.quoted then [.quote] else [])
      ++ [.openParen]

theorem terminals_of_literal? {x : Terminal} {node : Node} (h : x.literal? = some node) :
    node.terminals = [x] := by
  cases x <;> cases h <;> rfl

theorem terminals_frame_node (f : Frame) (items : List Node) :
    (f.node items).terminals =
      (if f.quoted then [.quote] else []) ++ .openParen :: (Node.terminalsEach items ++
        [.closeParen]) := by
  unfold Frame.node
  split <;> rfl

/-- Whatever is built is written with the symbols it was built from. -/
theorem build_sound {stack : List Frame} {done : List Node} {quoted : Bool} {xs : List Terminal}
    {nodes : List Node} (h : build stack done quoted xs = some nodes) :
    written stack ++ Node.terminalsEach done.reverse ++ (if quoted then [.quote] else []) ++ xs
      = Node.terminalsEach nodes := by
  -- no step changes what the open lists and the symbols that are left write together
  fun_induction build stack done quoted xs with
  | case1 done =>
    cases h
    simp [written]
  | case2 stack done quoted xs ih =>
    rw [← ih h]
    simp [written, Node.terminalsEach]
  | case3 f stack done xs ih =>
    rw [← ih h]
    simp [written, Node.terminalsEach_append, Node.terminalsEach, terminals_frame_node]
  | case4 stack done xs ih =>
    rw [← ih h]
    simp
  | case5 stack done x xs ih =>
    rw [← ih h]
    simp [Node.terminalsEach_append, Node.terminalsEach, Node.terminals]
  | case6 stack done x xs _ _ _ node hx ih =>
    rw [← ih h]
    simp [Node.terminalsEach_append, Node.terminalsEach, terminals_of_literal? hx]
  | case7 => cases h
  | case8 => cases h

mutual

/-- The symbols of a node are built into that node, whatever stands around them. -/
theorem build_terminals (stack : List Frame) (done : List Node) (xs : List Terminal) :
    ∀ node : Node,
      build stack done false (node.terminals ++ xs) = build stack (node :: done) false xs
  | .int _ | .float _ | .name _ | .str _ | .operator _ | .foreign _ => by
    simp [Node.terminals, build, literal?]
  | .symbol _ => by
    simp [Node.terminals, build]
  | .expr items => by
    -- the items are built on a frame of their own, which the parenthesis closes
    have ih := build_terminalsEach (⟨false, done⟩ :: stack) [] (.closeParen :: xs) items
    simp only [Node.terminals, List.cons_append, List.append_assoc, List.nil_append, build, ih,
      List.append_nil, List.reverse_reverse, Frame.node, Bool.false_eq_true, if_false]
  | .list items => by
    have ih := build_terminalsEach (⟨true, done⟩ :: stack) [] (.closeParen :: xs) items
    simp only [Node.terminals, List.cons_append, List.append_assoc, List.nil_append, build, ih,
      List.append_nil, List.reverse_reverse, Frame.node, if_true]

theorem build_terminalsEach (stack : List Frame) (done : List Node) (xs : List Terminal) :
    ∀ nodes : List Node, build stack done false (Node.terminalsEach nodes ++ xs) =
      build stack (nodes.reverse ++ done) false xs
  | [] => rfl
  | node :: nodes => by
    rw [Node.terminalsEach, List.append_assoc, build_terminals stack done _ node,
      build_terminalsEach stack (node :: done) xs nodes, List.reverse_cons, List.append_assoc]
    rfl

end

/-- Building undoes writing, and nothing else can be built. -/
theorem build_eq_some_iff {xs : List Terminal} {nodes : List Node} :
    build [] [] false xs = some nodes ↔ xs = Node.terminalsEach nodes := by
  constructor
  · intro h
    simpa [written, Node.terminalsEach] using build_sound h
  · rintro rfl
    have h := build_terminalsEach [] [] [] nodes
    simpa [build] using h

end Terminal

/-! ## Rows of tokens -/

/-- The tokens are the nodes, written one after the other. -/
def Spells (ts : List Token) (nodes : List Node) : Prop :=
  ts.map Token.terminal? = (Node.terminalsEach nodes).map some

/-- Cuts a whole text into tokens and only then builds its forms. -/
def readLexed (cs : List Char) : Option (List Node) :=
  match (Cursor.ofText cs).tokens with
  | (ts, none) => (ts.dropLast.mapM Token.terminal?).bind (Terminal.build [] [] false)
  | (_, some _) => none

theorem mapM_terminal?_eq_some_iff {ts : List Token} {xs : List Terminal} :
    ts.mapM Token.terminal? = some xs ↔ ts.map Token.terminal? = xs.map some := by
  induction ts generalizing xs with
  | nil => cases xs <;> simp
  | cons t ts ih =>
    cases xs with
    | nil => simp [List.mapM_cons, Option.bind_eq_some_iff]
    | cons x xs => simp [List.mapM_cons, Option.bind_eq_some_iff, ih]

/-- Building a row of tokens gives the nodes that it spells. -/
theorem spells_iff {ts : List Token} {nodes : List Node} :
    Spells ts nodes ↔
      (ts.mapM Token.terminal?).bind (Terminal.build [] [] false) = some nodes := by
  simp only [Option.bind_eq_some_iff, Terminal.build_eq_some_iff, mapM_terminal?_eq_some_iff]
  constructor
  · intro h
    exact ⟨_, h, rfl⟩
  · rintro ⟨_, h, rfl⟩
    exact h

/-- A row of tokens spells one list of nodes at most. -/
theorem Spells.unique {ts : List Token} {as bs : List Node} (ha : Spells ts as)
    (hb : Spells ts bs) : as = bs := by
  rw [spells_iff] at ha hb
  exact Option.some.inj (ha.symm.trans hb)

/-- Every symbol of the nodes is that of a token. -/
theorem Spells.exists_token {ts : List Token} {nodes : List Node} (h : Spells ts nodes)
    {x : Terminal} (hx : x ∈ Node.terminalsEach nodes) : ∃ t ∈ ts, t.terminal? = some x := by
  refine List.mem_map.mp ?_
  rw [h]
  exact List.mem_map_of_mem hx

/-! ### Spellings by kind of node -/

theorem Token.terminal?_openParen_iff {t : Token} :
    t.terminal? = some .openParen ↔ t.kind = .openParen := by
  unfold Token.terminal?
  split <;> simp_all

theorem Token.terminal?_closeParen_iff {t : Token} :
    t.terminal? = some .closeParen ↔ t.kind = .closeParen := by
  unfold Token.terminal?
  split <;> simp_all

theorem Token.terminal?_quote_iff {t : Token} :
    t.terminal? = some .quote ↔ t.kind = .quote := by
  unfold Token.terminal?
  split <;> simp_all

theorem Token.terminal?_name_iff {t : Token} {x : String} :
    t.terminal? = some (.name x) ↔ t.kind = .name ∧ t.content = x.toList := by
  unfold Token.terminal?
  split <;> simp_all [← String.toList_inj]

theorem Token.fits_name {t : Token} {x : String} (hfits : Lexeme.Fits t.kind t.raw)
    (hx : t.terminal? = some (.name x)) : Lexeme.Fits .name x.toList := by
  obtain ⟨hkind, hcontent⟩ := Token.terminal?_name_iff.mp hx
  rwa [Token.raw, hkind, if_neg (by simp), hcontent] at hfits

theorem Token.kind_of_terminal? {t : Token} {x : Terminal} (h : t.terminal? = some x) :
    t.kind ≠ .eof := by
  intro hkind
  simp [Token.terminal?, hkind] at h

theorem spells_nil : Spells [] [] := rfl

theorem Spells.append {ts us : List Token} {as bs : List Node} (ha : Spells ts as)
    (hb : Spells us bs) : Spells (ts ++ us) (as ++ bs) := by
  rw [Spells, List.map_append, ha, hb, Node.terminalsEach_append, List.map_append]

theorem Spells.eq_nil {ts : List Token} (h : Spells ts []) : ts = [] := by
  simpa [Spells, Node.terminalsEach] using h

theorem spells_singleton_iff {ts : List Token} {node : Node} :
    Spells ts [node] ↔ ts.map Token.terminal? = node.terminals.map some := by
  rw [Spells, Node.terminalsEach_singleton]

theorem Spells.cons_inv {ts : List Token} {node : Node} {nodes : List Node}
    (h : Spells ts (node :: nodes)) :
    ∃ us vs, ts = us ++ vs ∧ Spells us [node] ∧ Spells vs nodes := by
  rw [Spells, Node.terminalsEach, List.map_append] at h
  obtain ⟨us, vs, hts, hus, hvs⟩ := List.map_eq_append_iff.mp h
  exact ⟨us, vs, hts, spells_singleton_iff.mpr hus, hvs⟩

/-- The tokens between two parentheses. -/
theorem map_terminal?_parens_iff {ts : List Token} {items : List Node} :
    ts.map Token.terminal? =
        (Terminal.openParen :: (Node.terminalsEach items ++ [.closeParen])).map some ↔
      ∃ o inner c, ts = o :: (inner ++ [c]) ∧ o.kind = .openParen ∧ c.kind = .closeParen ∧
        Spells inner items := by
  constructor
  · intro h
    rw [List.map_cons, List.map_append, List.map_cons, List.map_nil] at h
    obtain ⟨o, tail, rfl, ho, htail⟩ := List.map_eq_cons_iff.mp h
    obtain ⟨inner, last, rfl, hinner, hlast⟩ := List.map_eq_append_iff.mp htail
    obtain ⟨c, rfl, hc⟩ := List.map_eq_singleton_iff.mp hlast
    exact ⟨o, inner, c, rfl, Token.terminal?_openParen_iff.mp ho,
      Token.terminal?_closeParen_iff.mp hc, hinner⟩
  · rintro ⟨o, inner, c, rfl, ho, hc, hinner⟩
    have hmap : inner.map Token.terminal? = (Node.terminalsEach items).map some := hinner
    simp [Token.terminal?_openParen_iff.mpr ho, Token.terminal?_closeParen_iff.mpr hc, hmap]

theorem spells_expr_iff {ts : List Token} {items : List Node} :
    Spells ts [.expr items] ↔ ∃ o inner c, ts = o :: (inner ++ [c]) ∧ o.kind = .openParen ∧
      c.kind = .closeParen ∧ Spells inner items := by
  rw [spells_singleton_iff, Node.terminals, map_terminal?_parens_iff]

/-- A quoted node is a quote and the node. -/
theorem spells_quoted_iff {ts : List Token} {quoted : Node} (node : Node)
    (h : quoted.terminals = .quote :: node.terminals) :
    Spells ts [quoted] ↔ ∃ q us, ts = q :: us ∧ q.kind = .quote ∧ Spells us [node] := by
  rw [spells_singleton_iff, h, List.map_cons, List.map_eq_cons_iff]
  constructor
  · rintro ⟨q, us, rfl, hq, hus⟩
    exact ⟨q, us, rfl, Token.terminal?_quote_iff.mp hq, spells_singleton_iff.mpr hus⟩
  · rintro ⟨q, us, rfl, hq, hus⟩
    exact ⟨q, us, rfl, Token.terminal?_quote_iff.mpr hq, spells_singleton_iff.mp hus⟩

/-- A row that spells a node has a first token, and it is neither a closing parenthesis nor
the end. -/
theorem Spells.head {ts : List Token} {node : Node} (h : Spells ts [node]) :
    ∃ t us, ts = t :: us ∧ t.kind ≠ .closeParen ∧ t.kind ≠ .eof := by
  rw [spells_singleton_iff] at h
  have hhead : ∀ x xs, node.terminals = x :: xs → x ≠ .closeParen →
      ∃ t us, ts = t :: us ∧ t.kind ≠ .closeParen ∧ t.kind ≠ .eof := by
    intro x xs hx hne
    rw [hx, List.map_cons, List.map_eq_cons_iff] at h
    obtain ⟨t, us, rfl, ht, _⟩ := h
    refine ⟨t, us, rfl, fun hkind => hne ?_, Token.kind_of_terminal? ht⟩
    exact Option.some.inj (ht.symm.trans (Token.terminal?_closeParen_iff.mpr hkind))
  cases node <;> exact hhead _ _ rfl (by simp)

/-! ## Nesting -/

/-- The most parentheses that are open at once, when `level` are open before the tokens. -/
def nesting : Nat → List Token → Nat
  | level, [] => level
  | level, t :: ts =>
    match t.kind with
    | .openParen => nesting (level + 1) ts
    | .closeParen => max level (nesting (level - 1) ts)
    | _ => nesting level ts

theorem nesting_other {t : Token} (ho : t.kind ≠ .openParen) (hc : t.kind ≠ .closeParen)
    (level : Nat) (ts : List Token) : nesting level (t :: ts) = nesting level ts := by
  rw [nesting]
  split
  · exact absurd ‹_› ho
  · exact absurd ‹_› hc
  · rfl

theorem nesting_openParen {t : Token} (h : t.kind = .openParen) (level : Nat)
    (ts : List Token) : nesting level (t :: ts) = nesting (level + 1) ts := by
  rw [nesting, h]

theorem nesting_closeParen {t : Token} (h : t.kind = .closeParen) (level : Nat)
    (ts : List Token) : nesting level (t :: ts) = max level (nesting (level - 1) ts) := by
  rw [nesting, h]

theorem le_nesting (level : Nat) (ts : List Token) : level ≤ nesting level ts := by
  induction ts generalizing level with
  | nil => exact le_rfl
  | cons t ts ih =>
    by_cases ho : t.kind = .openParen
    · rw [nesting_openParen ho]
      have := ih (level + 1)
      omega
    by_cases hc : t.kind = .closeParen
    · rw [nesting_closeParen hc]
      exact Nat.le_max_left _ _
    · rw [nesting_other ho hc]
      exact ih level

/-- A token that is a literal by itself opens nothing. -/
theorem nesting_literal {ts : List Token} {x : Terminal} (h : ts.map Token.terminal? = [some x])
    (ho : x ≠ .openParen) (hc : x ≠ .closeParen) (level : Nat) (rest : List Token) :
    nesting level (ts ++ rest) = max (level + 0) (nesting level rest) := by
  obtain ⟨t, rfl, ht⟩ := List.map_eq_singleton_iff.mp h
  have hto : t.kind ≠ .openParen := fun hkind =>
    ho (Option.some.inj (ht.symm.trans (Token.terminal?_openParen_iff.mpr hkind)))
  have htc : t.kind ≠ .closeParen := fun hkind =>
    hc (Option.some.inj (ht.symm.trans (Token.terminal?_closeParen_iff.mpr hkind)))
  have hle := le_nesting level rest
  rw [List.singleton_append, nesting_other hto htc]
  omega

theorem nesting_quote {q : Token} (h : q.kind = .quote) (level : Nat) (ts : List Token) :
    nesting level (q :: ts) = nesting level ts :=
  nesting_other (by rw [h]; decide) (by rw [h]; decide) level ts

mutual

/-- The tokens of a node open as many parentheses at once as the node is deep. -/
theorem Spells.nesting_node {ts : List Token} :
    ∀ {node : Node}, Spells ts [node] → ∀ (level : Nat) (rest : List Token),
      nesting level (ts ++ rest) = max (level + node.depth) (nesting level rest)
  | .int _, h | .float _, h | .name _, h | .str _, h | .operator _, h | .foreign _, h => by
    intro level rest
    exact nesting_literal (spells_singleton_iff.mp h) (by simp) (by simp) level rest
  | .symbol x, h => by
    intro level rest
    obtain ⟨q, us, rfl, hq, hus⟩ := (spells_quoted_iff (.name x) rfl).mp h
    rw [List.cons_append, nesting_quote hq]
    exact nesting_literal (spells_singleton_iff.mp hus) (by simp) (by simp) level rest
  | .expr items, h => by
    intro level rest
    exact Spells.nesting_parens (spells_singleton_iff.mp h) level rest
  | .list items, h => by
    intro level rest
    obtain ⟨q, us, rfl, hq, hus⟩ := (spells_quoted_iff (.expr items) rfl).mp h
    rw [List.cons_append, nesting_quote hq]
    exact Spells.nesting_parens (spells_singleton_iff.mp hus) level rest

theorem Spells.nesting_parens {ts : List Token} {items : List Node} (h : ts.map Token.terminal? =
      (Terminal.openParen :: (Node.terminalsEach items ++ [.closeParen])).map some)
    (level : Nat) (rest : List Token) :
    nesting level (ts ++ rest) =
      max (level + (Node.depthEach items + 1)) (nesting level rest) := by
  obtain ⟨o, inner, c, rfl, ho, hc, hinner⟩ := map_terminal?_parens_iff.mp h
  rw [List.cons_append, List.append_assoc, List.singleton_append, nesting_openParen ho,
    Spells.nesting_nodes hinner, nesting_closeParen hc]
  simp only [Nat.add_sub_cancel]
  omega

theorem Spells.nesting_nodes {ts : List Token} :
    ∀ {nodes : List Node}, Spells ts nodes → ∀ (level : Nat) (rest : List Token),
      nesting level (ts ++ rest) = max (level + Node.depthEach nodes) (nesting level rest)
  | [], h => by
    intro level rest
    have hle := le_nesting level rest
    rw [h.eq_nil, List.nil_append, Node.depthEach]
    omega
  | node :: nodes, h => by
    intro level rest
    obtain ⟨us, vs, rfl, hus, hvs⟩ := h.cons_inv
    rw [List.append_assoc, Spells.nesting_node hus, Spells.nesting_nodes hvs, Node.depthEach]
    omega

end

/-- Nodes are no deeper than their tokens are nested. -/
theorem Spells.depthEach_le {ts : List Token} {nodes : List Node} (h : Spells ts nodes)
    (rest : List Token) : Node.depthEach nodes ≤ nesting 0 (ts ++ rest) := by
  rw [h.nesting_nodes]
  omega

end MiniLisp
