import Mathlib.Data.List.Basic
import Mathlib.Tactic.Common
import MiniLisp.Document.Index
import MiniLisp.Proofs.Source.Reading

/-!
# The definitions of a document

The index of a document looks at three tokens at a time and knows nothing of nesting. For a text
that is read it finds what the tree has: `Node.definitions` lists the names that the parenthesised
forms of a node set, each form before those in it, and `Terminal.windows_terminals` says that the
window passes over the symbols of a node in just this order. `index_of_parse` is what follows for
the index of a text, with the place where each name stands.
-/

namespace MiniLisp

/-! ## Definitions of a tree -/

namespace Node

/-- The name that the items of a parenthesised form set, if they begin with `set` and a name,
with the place of that name's token when the first item's token is at `start`. -/
def definitionOf (start : Nat) : List Node → List (String × Nat)
  | .name f :: .name x :: _ => if f = SpecialForm.set.name then [(x, start + 1)] else []
  | _ => []

mutual

/-- The names that the parenthesised forms in a node set, quoted ones included, in the order in
which the forms begin. Each has the place of its token in the row that the node is written with,
of which the first token is at `start`. -/
def definitions (start : Nat) : Node → List (String × Nat)
  | .expr items => definitionOf (start + 1) items ++ definitionsEach (start + 1) items
  | .list items => definitionOf (start + 2) items ++ definitionsEach (start + 2) items
  | _ => []

/-- The names that are set in several nodes, one node behind the other. -/
def definitionsEach (start : Nat) : List Node → List (String × Nat)
  | [] => []
  | node :: nodes =>
    definitions start node ++ definitionsEach (start + node.terminals.length) nodes

end

end Node

/-! ## Three tokens at a time -/

namespace Terminal

/-- The name that three tokens set, of which these are the symbols. -/
def setName? : Option Terminal → Option Terminal → Option Terminal → Option String
  | some .openParen, some (.name f), some (.name x) =>
    if f = SpecialForm.set.name then some x else none
  | _, _, _ => none

/-- The names that any three tokens in a row set, with the places of their tokens; the first
token is at `start`. -/
def windows (start : Nat) : List (Option Terminal) → List (String × Nat)
  | a :: b :: c :: rest =>
    ((setName? a b c).map fun x => (x, start + 2)).toList ++ windows (start + 1) (b :: c :: rest)
  | _ => []

/-- Nothing is set by three tokens unless these are an opening parenthesis and two names. -/
theorem windows_of_none {start : Nat} {a b : Option Terminal} {row : List (Option Terminal)}
    (h : ∀ c ∈ row.head?, setName? a b c = none) :
    windows start (a :: b :: row) = windows (start + 1) (b :: row) := by
  cases row with
  | nil => rfl
  | cons c rest => rw [windows, h c rfl, Option.map_none, Option.toList_none, List.nil_append]

theorem windows_cons {start : Nat} {a : Option Terminal} (ha : a ≠ some .openParen)
    (row : List (Option Terminal)) : windows start (a :: row) = windows (start + 1) row := by
  cases row with
  | nil => rfl
  | cons b row =>
    refine windows_of_none fun c _ => ?_
    unfold setName?
    split
    · exact absurd rfl ha
    · rfl

/-- Three tokens from an opening parenthesis on set what the items behind it do. -/
theorem windows_openParen (start : Nat) (items : List Node) (rest : List (Option Terminal)) :
    windows start (some .openParen ::
        ((Node.terminalsEach items).map some ++ some .closeParen :: rest)) =
      Node.definitionOf (start + 1) items ++
        windows (start + 1) ((Node.terminalsEach items).map some ++ some .closeParen :: rest) := by
  cases items with
  | nil => exact windows_of_none fun c _ => rfl
  | cons item others =>
    cases item with
    | name f =>
      -- the third token is the first of the second item, or closes the list
      cases others with
      | nil => exact windows_of_none fun c hc => by cases hc; rfl
      | cons second others =>
        cases second with
        | name x =>
          simp only [Node.terminalsEach, Node.terminals, List.map_cons, List.cons_append,
            List.nil_append, windows, setName?, Node.definitionOf]
          split <;> rfl
        | _ => exact windows_of_none fun c hc => by cases hc; rfl
    | _ => exact windows_of_none fun c _ => rfl

mutual

/-- The three tokens at a time find in the symbols of a node, whatever stands behind them, what
the node defines. -/
theorem windows_terminals (rest : List (Option Terminal)) : ∀ (node : Node) (start : Nat),
    windows start (node.terminals.map some ++ rest) =
      node.definitions start ++ windows (start + node.terminals.length) rest
  | .int _, _ | .float _, _ | .name _, _ | .str _, _ | .operator _, _ | .foreign _, _ =>
    windows_cons (by simp) rest
  | .symbol x, start => by
    show windows start (some .quote :: some (.name x) :: rest) = windows (start + 2) rest
    rw [windows_cons (by simp), windows_cons (by simp)]
  | .expr items, start => windows_parens rest items start
  | .list items, start => by
    show windows start (some .quote :: ((Terminal.openParen ::
      (Node.terminalsEach items ++ [.closeParen])).map some ++ rest)) = _
    have hlength : (Node.list items).terminals.length = 1 + (Terminal.openParen ::
        (Node.terminalsEach items ++ [.closeParen])).length := Nat.add_comm _ 1
    rw [windows_cons (by simp), windows_parens rest items (start + 1), hlength, ← Nat.add_assoc]
    rfl

theorem windows_parens (rest : List (Option Terminal)) : ∀ (items : List Node) (start : Nat),
    windows start ((Terminal.openParen ::
        (Node.terminalsEach items ++ [.closeParen])).map some ++ rest) =
      (Node.definitionOf (start + 1) items ++ Node.definitionsEach (start + 1) items) ++
        windows (start + (Terminal.openParen ::
          (Node.terminalsEach items ++ [.closeParen])).length) rest
  | items, start => by
    have hitems := windows_terminalsEach (some .closeParen :: rest) items (start + 1)
    rw [windows_cons (by simp)] at hitems
    simp only [List.map_cons, List.map_append, List.map_nil, List.cons_append, List.append_assoc,
      List.nil_append, windows_openParen, hitems, List.length_cons, List.length_append,
      List.length_nil]
    congr 3
    omega

theorem windows_terminalsEach (rest : List (Option Terminal)) :
    ∀ (nodes : List Node) (start : Nat),
      windows start ((Node.terminalsEach nodes).map some ++ rest) =
        Node.definitionsEach start nodes ++
          windows (start + (Node.terminalsEach nodes).length) rest
  | [], _ => rfl
  | node :: nodes, start => by
    rw [Node.terminalsEach, List.map_append, List.append_assoc, windows_terminals _ node,
      windows_terminalsEach rest nodes, Node.definitionsEach, List.length_append, List.append_assoc,
      Nat.add_assoc]

end

theorem setName?_eq_some_iff {a b c : Option Terminal} {x : String} :
    setName? a b c = some x ↔
      a = some .openParen ∧ b = some (.name SpecialForm.set.name) ∧ c = some (.name x) := by
  unfold setName?
  constructor
  · intro h
    split at h
    · split at h
      · rename_i hf
        cases h
        exact ⟨rfl, by rw [hf], rfl⟩
      · cases h
    · cases h
  · rintro ⟨rfl, rfl, rfl⟩
    rfl

/-- A name that is set has its token where it is said to be, behind that of the name which binds. -/
theorem getElem?_of_mem_windows {x : String} {i : Nat} :
    ∀ {row : List (Option Terminal)} {start : Nat}, (x, i) ∈ windows start row →
      ∃ j, i = start + (j + 1) ∧ row[j]? = some (some (.name SpecialForm.set.name)) ∧
        row[j + 1]? = some (some (.name x))
  | a :: b :: c :: rest, start, h => by
    rw [windows, List.mem_append] at h
    rcases h with h | h
    · obtain ⟨y, hy, heq⟩ := Option.map_eq_some_iff.mp (Option.mem_toList.mp h)
      cases heq
      obtain ⟨_, hb, hc⟩ := setName?_eq_some_iff.mp hy
      exact ⟨1, rfl, congrArg some hb, congrArg some hc⟩
    · obtain ⟨j, hj, hset, hname⟩ := getElem?_of_mem_windows h
      exact ⟨j + 1, by omega, hset, hname⟩
  | [], _, h | [_], _, h | [_, _], _, h => nomatch h

end Terminal

/-- Three tokens at a time find in the row of a tree what the tree defines, with or without the
token that marks the end of the text. -/
theorem Spells.windows_eq {ts : List Token} {nodes : List Node} (h : Spells ts nodes) :
    ∀ rest : List (Option Terminal), rest.length ≤ 1 →
      Terminal.windows 0 (ts.map Token.terminal? ++ rest) = Node.definitionsEach 0 nodes
  | [], _ | [_], _ => by
    rw [h, Terminal.windows_terminalsEach]
    exact List.append_nil _

/-- A name that the tree defines has its token where the tree says, behind that of the name which
binds. -/
theorem Spells.getElem?_of_mem {ts : List Token} {nodes : List Node} (h : Spells ts nodes)
    {x : String} {i : Nat} (hx : (x, i) ∈ Node.definitionsEach 0 nodes) :
    ∃ j s t, i = j + 1 ∧ ts[j]? = some s ∧ s.terminal? = some (.name SpecialForm.set.name) ∧
      ts[j + 1]? = some t ∧ t.terminal? = some (.name x) := by
  rw [← h.windows_eq [] (Nat.zero_le 1), List.append_nil] at hx
  obtain ⟨j, hj, hset, hname⟩ := Terminal.getElem?_of_mem_windows hx
  rw [List.getElem?_map, Option.map_eq_some_iff] at hset hname
  obtain ⟨s, hs, hset⟩ := hset
  obtain ⟨t, ht, hname⟩ := hname
  exact ⟨j, s, t, by omega, hs, hset, ht, hname⟩

/-! ## The first of each name -/

namespace Table

variable {α ι : Type}

/-- The table with a value put in under a name that has none yet. -/
def insertNew (t : Table α) (name : String) (value : α) : Table α :=
  if t.contains name then t else t.insert name value

theorem contains_iff {t : Table α} {name : String} : t.contains name = true ↔ name ∈ t.names := by
  rw [contains, get?, List.lookup_isSome_iff, names, List.mem_map]
  refine exists_congr fun entry => and_congr_right fun _ => ?_
  rw [beq_iff_eq, eq_comm]

theorem names_insertNew (t : Table α) (name : String) (value : α) :
    (t.insertNew name value).names = if name ∈ t.names then t.names else t.names ++ [name] := by
  unfold insertNew
  by_cases h : t.contains name = true
  · rw [if_pos h, if_pos (contains_iff.mp h)]
  · rw [if_neg h, if_neg fun hm => h (contains_iff.mpr hm)]
    exact (fst_put name value t.entries).trans (if_neg fun hm => h (contains_iff.mpr hm))

theorem get?_insertNew (t : Table α) (name other : String) (value : α) :
    (t.insertNew name value).get? other =
      (t.get? other).or (if other = name then some value else none) := by
  unfold insertNew
  by_cases ho : other = name
  · subst ho
    cases h : t.get? other <;> simp [contains, h]
  · split <;> simp [get?_insert, ho]

/-- Of values that are put in one after the other the first of each name stays. -/
theorem get?_foldl_insertNew (value : ι → α) (sites : List (String × ι)) (name : String)
    (t : Table α) :
    (sites.foldl (fun t site => t.insertNew site.1 (value site.2)) t).get? name =
      (t.get? name).or ((sites.lookup name).map value) := by
  induction sites generalizing t with
  | nil => simp
  | cons site sites ih =>
    obtain ⟨x, i⟩ := site
    rw [List.foldl_cons, ih, get?_insertNew, lookup_cons]
    cases t.get? name <;> by_cases h : name = x <;> simp [h]

theorem eraseDups_of_nodup {names : List String} (h : names.Nodup) : names.eraseDups = names := by
  induction names with
  | nil => rfl
  | cons name names ih =>
    obtain ⟨hname, hnames⟩ := List.nodup_cons.mp h
    have hkeep : names.filter (fun other => !other == name) = names :=
      List.filter_eq_self.mpr fun other ho => by
        simpa using fun heq : other = name => hname (heq ▸ ho)
    rw [List.eraseDups_cons, hkeep, ih hnames]

/-- The names stand in the order in which they first come. -/
theorem names_foldl_insertNew (value : ι → α) (sites : List (String × ι)) (t : Table α) :
    (sites.foldl (fun t site => t.insertNew site.1 (value site.2)) t).names =
      (t.names ++ sites.map Prod.fst).eraseDups := by
  induction sites generalizing t with
  | nil =>
    rw [List.foldl_nil, List.map_nil, List.append_nil]
    exact (eraseDups_of_nodup t.nodup).symm
  | cons site sites ih =>
    obtain ⟨x, i⟩ := site
    rw [List.foldl_cons, ih, names_insertNew]
    split
    · rename_i hx
      simp [List.eraseDups_append, List.removeAll, hx]
    · rw [List.append_assoc]
      rfl

end Table

namespace Document

/-! ## The index -/

/-- Where the token at a place of a row begins, as a position. -/
def placeIn (starts : List Nat) (row : List Token) (i : Nat) : Position :=
  positionIn starts ((row[i]?).elim 0 (·.span.start))

/-- Three tokens set a name where their symbols do. -/
theorem setName?_terminal? (a b c : Token) :
    Terminal.setName? a.terminal? b.terminal? c.terminal? =
      if setsName a b c then some (String.ofList c.content) else none := by
  have hset : setsName a b c = true ↔ a.terminal? = some .openParen ∧
      b.terminal? = some (.name SpecialForm.set.name) ∧ c.kind = .name := by
    rw [Token.terminal?_openParen_iff, Token.terminal?_name_iff]
    simp only [setsName, Bool.and_eq_true, beq_iff_eq, and_assoc]
  ext x
  rw [Terminal.setName?_eq_some_iff, Token.terminal?_name_iff (t := c)]
  split
  · rename_i h
    obtain ⟨ha, hb, hc⟩ := hset.mp h
    simp [ha, hb, hc, ← String.toList_inj]
  · rename_i h
    constructor
    · rintro ⟨ha, hb, hc, _⟩
      exact absurd (hset.mpr ⟨ha, hb, hc⟩) h
    · intro hx
      cases hx

/-- Collecting is putting in the names that three tokens at a time set. -/
theorem collect_eq (starts : List Nat) (row : List Token) : ∀ (ts : List Token) (k : Nat)
    (found : Table Position), row.drop k = ts → collect starts ts found =
      (Terminal.windows k (ts.map Token.terminal?)).foldl
        (fun found site => found.insertNew site.1 (placeIn starts row site.2)) found
  | a :: b :: c :: rest, k, found, h => by
    have hplace : placeIn starts row (k + 2) = positionIn starts c.span.start := by
      rw [placeIn, ← List.getElem?_drop, h]
      rfl
    have htail : row.drop (k + 1) = b :: c :: rest := by
      rw [← List.drop_drop, h]
      rfl
    rw [collect, List.map_cons, List.map_cons, List.map_cons, Terminal.windows,
      setName?_terminal?, List.foldl_append, collect_eq starts row _ (k + 1) _ htail]
    by_cases hset : setsName a b c = true
    · cases hfound : found.contains (String.ofList c.content) <;>
        simp [hset, hfound, Table.insertNew, hplace]
    · simp [hset]
  | [], _, _, _ | [_], _, _, _ | [_, _], _, _, _ => rfl

end Document

/-! ## Where names stand -/

namespace Cursor

/-- Every token that is cut from a text is a longest match where it stands. -/
theorem Cuts.longest {cs : List Char} {c : Cursor} {ts : List Token} {e : Option SyntaxError}
    (h : Cuts c ts e) (hc : c.Within cs) : ∀ t ∈ ts, t.kind ≠ .eof →
      ∃ p, Lexeme.Longest (cs.drop p) t.kind t.raw ∧ t.extent = Span.covering p t.raw.length := by
  induction h with
  | atEnd _ ht =>
    intro u hu hkind
    rw [List.mem_singleton.mp hu] at hkind
    exact absurd ht hkind
  | @token c d t ts e h ht _ ih =>
    have hskip : (c.skipWhile Text.isBlank).Within cs := hc.skip _
    intro u hu hkind
    rcases List.mem_cons.mp hu with rfl | hu
    · obtain ⟨hlongest, hextent, _⟩ := (next_token_iff_longest hskip.eq ht d).mp h
      exact ⟨_, hlongest, hextent⟩
    · obtain ⟨l, _, _, rfl⟩ := (next_eq_token_iff ht).mp h
      exact ih (hskip.skip _) u hu hkind
  | error => intro u hu; cases hu

end Cursor

/-- At the offset the text reads the name, which is all on one line and does not go on. -/
structure StandsAt (cs : List Char) (x : String) (offset : Nat) : Prop where
  reads : x.toList <+: cs.drop offset
  one_line : '\n' ∉ x.toList
  ends : Halts isNameChar (cs.drop (offset + x.length))

/-- The token of a name begins where the name stands. -/
theorem CutsInto.standsAt {cs : List Char} {ts : List Token} (h : CutsInto cs ts) {t : Token}
    {x : String} (ht : t ∈ ts) (hx : t.terminal? = some (.name x)) :
    ∃ offset : Nat, t.span.start = offset ∧ StandsAt cs x offset := by
  obtain ⟨hkind, hcontent⟩ := Token.terminal?_name_iff.mp hx
  have hmem : t ∈ (Cursor.ofText cs).tokens.1 := by
    rw [h]
    exact List.mem_append_left _ ht
  obtain ⟨p, hlongest, hextent⟩ := (Cursor.tokens_cuts _).longest (Cursor.within_ofText cs) t hmem
    (by simp [hkind])
  have hraw : t.raw = x.toList := by simp [Token.raw, hkind, hcontent]
  rw [hkind, hraw] at hlongest
  refine ⟨p, ?_, hlongest.1.2, ?_, ?_⟩
  · have hspan : t.extent = t.span := if_neg (by simp [hkind])
    rw [← hspan, hextent, Span.covering_start]
  · intro hbreak
    exact absurd (hlongest.1.1.isNameChar _ hbreak) (by decide)
  · have hends := hlongest.halts_isNameChar
    rwa [List.drop_drop, String.length_toList] at hends

namespace Document

/-- An offset lies on a line that begins there or before, as many columns behind its start as
the position says. -/
theorem positionIn_lineStarts (cs : List Char) (offset : Nat) :
    ∃ line start : Nat, (lineStarts cs)[line]? = some start ∧
      positionIn (lineStarts cs) offset = ⟨line, (offset : Int) - start⟩ := by
  obtain ⟨begun, hbegun⟩ : ∃ begun, begun =
    (lineStarts cs).countP fun (start : Nat) => decide ((start : Int) ≤ offset) := ⟨_, rfl⟩
  have hle : begun ≤ (lineStarts cs).length := hbegun ▸ List.countP_le_length
  -- the first line begins at the start of the text
  have hpos : 0 < begun := by
    rw [hbegun, List.countP_pos_iff]
    exact ⟨0, List.mem_cons_self, by simp⟩
  have hget : (lineStarts cs)[begun - 1]? = some (lineStarts cs)[begun - 1] :=
    List.getElem?_eq_getElem (by omega)
  refine ⟨begun - 1, _, hget, ?_⟩
  unfold positionIn
  simp only [← hbegun, if_neg (Nat.pos_iff_ne_zero.mp hpos), List.getD_eq_getElem?_getD, hget,
    Option.getD_some, Position.mk.injEq, and_true]
  omega

theorem index_of_ok [Host] {cs : List Char} {nodes : List Node} (h : parse cs = .ok nodes) :
    index cs = .ok ⟨definitions cs, none⟩ := by
  rw [index, h]

section Definitions

variable {cs : List Char} {ts : List Token} {nodes : List Node} (hcuts : CutsInto cs ts)
  (hspells : Spells ts nodes)
include hcuts hspells

/-- The definitions of a text are those of its tree, the first of each name. -/
theorem definitions_eq : definitions cs = (Node.definitionsEach 0 nodes).foldl
    (fun found site => found.insertNew site.1
      (placeIn (lineStarts cs) (ts ++ [Token.atEnd cs.length]) site.2)) Table.empty := by
  rw [definitions, hcuts, collect_eq _ _ _ 0 _ List.drop_zero, List.map_append,
    hspells.windows_eq _ le_rfl]

theorem names_definitions :
    (definitions cs).names = ((Node.definitionsEach 0 nodes).map Prod.fst).eraseDups := by
  rw [definitions_eq hcuts hspells, Table.names_foldl_insertNew]
  rfl

/-- A name is where its token begins in the first form that sets it. -/
theorem get?_definitions {x : String} {p : Position} (h : (definitions cs).get? x = some p) :
    ∃ j s t, (Node.definitionsEach 0 nodes).lookup x = some (j + 1) ∧ ts[j]? = some s ∧
      s.terminal? = some (.name SpecialForm.set.name) ∧ ts[j + 1]? = some t ∧
        t.terminal? = some (.name x) ∧ p = positionOf cs t.span.start := by
  rw [definitions_eq hcuts hspells, Table.get?_foldl_insertNew, Table.get?_empty, Option.none_or,
    Option.map_eq_some_iff] at h
  obtain ⟨i, hi, rfl⟩ := h
  obtain ⟨before, after, hsites, _⟩ := List.lookup_eq_some_iff.mp hi
  obtain ⟨j, s, t, rfl, hs, hset, ht, hname⟩ :=
    hspells.getElem?_of_mem (x := x) (i := i) (by simp [hsites])
  refine ⟨j, s, t, hi, hs, hset, ht, hname, ?_⟩
  rw [placeIn, List.getElem?_append_left (List.getElem?_eq_some_iff.mp ht).1, ht, Option.elim_some,
    positionOf]

end Definitions

/-- The index of a text that is read lists the names that the parenthesised forms of its tree
set, each where it comes first, and the position of a name is that of its token in the first of
these forms: so many columns behind the start of the line, and there the text reads the name. -/
theorem index_of_parse [Host] {cs : List Char} {nodes : List Node} (h : parse cs = .ok nodes) :
    ∃ ts found, CutsInto cs ts ∧ Spells ts nodes ∧ index cs = .ok ⟨found, none⟩ ∧
      found.names = ((Node.definitionsEach 0 nodes).map Prod.fst).eraseDups ∧
      ∀ x p, found.get? x = some p → ∃ (i line start offset : Nat) (t : Token),
        (Node.definitionsEach 0 nodes).lookup x = some i ∧ ts[i]? = some t ∧
          t.terminal? = some (.name x) ∧ t.span.start = offset ∧ p.line = line ∧
            (lineStarts cs)[line]? = some start ∧ start + p.column = offset ∧
              StandsAt cs x offset := by
  obtain ⟨ts, hcuts, hspells⟩ := spells_of_parse h
  refine ⟨ts, definitions cs, hcuts, hspells, index_of_ok h, names_definitions hcuts hspells, ?_⟩
  intro x p hp
  obtain ⟨j, _, t, hi, _, _, ht, hname, rfl⟩ := get?_definitions hcuts hspells hp
  obtain ⟨offset, hstart, hstands⟩ := hcuts.standsAt (List.mem_of_getElem? ht) hname
  obtain ⟨line, start, hline, hposition⟩ := positionIn_lineStarts cs offset
  rw [positionOf, hstart, hposition]
  refine ⟨j + 1, line, start, offset, t, hi, ht, hname, hstart, rfl, hline, ?_, hstands⟩
  dsimp only
  omega

/-- A name that is set in a quoted list in which one set before is set again, over three lines. -/
theorem index_of_parse_quoted :
    ∃ cs nodes, cs = "(set a\n '(set b\n(set a 1)))".toList ∧
      nodes = [.expr [.name "set", .name "a", .list [.name "set", .name "b",
        .expr [.name "set", .name "a", .int 1]]]] ∧
      parse cs = .ok nodes ∧
      ∃ ts found, CutsInto cs ts ∧ Spells ts nodes ∧ index cs = .ok ⟨found, none⟩ ∧
        found.names = ["a", "b"] ∧
        ∀ x p, found.get? x = some p → ∃ (i line start offset : Nat) (t : Token),
          [("a", 2), ("b", 6), ("a", 9)].lookup x = some i ∧ ts[i]? = some t ∧
            t.terminal? = some (.name x) ∧ t.span.start = offset ∧ p.line = line ∧
              (lineStarts cs)[line]? = some start ∧ start + p.column = offset ∧
                StandsAt cs x offset := by
  refine ⟨_, _, rfl, rfl, ?_⟩
  have hparse : parse "(set a\n '(set b\n(set a 1)))".toList =
      .ok [.expr [.name "set", .name "a", .list [.name "set", .name "b",
        .expr [.name "set", .name "a", .int 1]]]] := by cbv
  exact ⟨hparse, index_of_parse hparse⟩

end Document

end MiniLisp
