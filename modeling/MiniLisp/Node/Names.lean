import MiniLisp.Node

/-!
# The names of a form

Which names a form mentions, and which of them it assigns. What stands in a quoted list is data
and does not count.
-/

namespace MiniLisp.Node

mutual

/-- The forms that occur in a form outside quoted lists, the form itself first. -/
def unquoted : Node → List Node
  | .expr items => .expr items :: unquotedEach items
  | node => [node]

/-- The forms that occur in several forms outside quoted lists. -/
def unquotedEach : List Node → List Node
  | [] => []
  | node :: nodes => unquoted node ++ unquotedEach nodes

end

/-- What holds of every form that is no expression, and of an expression if it holds of the items,
holds of every form. -/
theorem induction_unquoted {motive : Node → Prop}
    (expr : ∀ items, (∀ item ∈ items, motive item) → motive (.expr items))
    (other : ∀ node, (∀ items, node ≠ .expr items) → motive node) : ∀ node, motive node
  | .expr items => expr items fun item _ => induction_unquoted expr other item
  | .int _ | .float _ | .name _ | .str _ | .symbol _ | .operator _ | .list _ | .foreign _ =>
    other _ (by simp)

/-- The name occurs in the form, outside quoted lists. -/
def Mentions (node : Node) (x : String) : Prop := .name x ∈ node.unquoted

/-- The name stands second of three items in an expression that occurs in the form, outside
quoted lists. -/
def Assigns (node : Node) (x : String) : Prop :=
  ∃ head source, .expr [head, .name x, source] ∈ node.unquoted

theorem mem_unquotedEach {m : Node} {nodes : List Node} :
    m ∈ unquotedEach nodes ↔ ∃ node ∈ nodes, m ∈ node.unquoted := by
  induction nodes with
  | nil => simp [unquotedEach]
  | cons node nodes ih => simp [unquotedEach, ih]

theorem mem_unquoted_self (node : Node) : node ∈ node.unquoted := by
  cases node <;> simp [unquoted]

/-- What occurs in an item occurs in the expression. -/
theorem mem_unquoted_of_item {m item : Node} {items : List Node} (hitem : item ∈ items)
    (hm : m ∈ item.unquoted) : m ∈ (Node.expr items).unquoted :=
  List.mem_cons_of_mem _ (mem_unquotedEach.mpr ⟨item, hitem, hm⟩)

theorem Mentions.of_item {item : Node} {items : List Node} {x : String} (h : item.Mentions x)
    (hitem : item ∈ items) : (Node.expr items).Mentions x :=
  mem_unquoted_of_item hitem h

theorem Assigns.of_item {item : Node} {items : List Node} {x : String} (h : item.Assigns x)
    (hitem : item ∈ items) : (Node.expr items).Assigns x := by
  obtain ⟨head, source, h⟩ := h
  exact ⟨head, source, mem_unquoted_of_item hitem h⟩

mutual

/-- An item of an expression that occurs in a form occurs there too. -/
theorem mem_unquoted_item {item : Node} {items : List Node} (hitem : item ∈ items) :
    ∀ node : Node, .expr items ∈ node.unquoted → item ∈ node.unquoted
  | .expr others, h => by
    rcases List.mem_cons.mp h with heq | h
    · cases heq
      exact mem_unquoted_of_item hitem (mem_unquoted_self item)
    · exact List.mem_cons_of_mem _ (mem_unquotedEach_item hitem others h)
  | .int _, h | .float _, h | .name _, h | .str _, h | .symbol _, h | .operator _, h
  | .list _, h | .foreign _, h => by
    simp [unquoted] at h

theorem mem_unquotedEach_item {item : Node} {items : List Node} (hitem : item ∈ items) :
    ∀ nodes : List Node, .expr items ∈ unquotedEach nodes → item ∈ unquotedEach nodes
  | [], h => nomatch h
  | node :: nodes, h => by
    rcases List.mem_append.mp h with h | h
    · exact List.mem_append_left _ (mem_unquoted_item hitem node h)
    · exact List.mem_append_right _ (mem_unquotedEach_item hitem nodes h)

end

/-- A form mentions what it assigns. -/
theorem Assigns.mentions {node : Node} {x : String} (h : node.Assigns x) : node.Mentions x := by
  obtain ⟨head, source, h⟩ := h
  exact mem_unquoted_item (by simp) node h

end MiniLisp.Node
