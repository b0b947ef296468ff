import MiniLisp.Proofs.Source.Reading

/-!
# Forms of the language

A node may have something in it that is no form. `Node.IsForm` says that it has not, and
`areForms_of_parse` that no text is read as such a node.
-/

namespace MiniLisp

namespace Node

mutual

/-- The node and everything in it, quoted or not, are forms of the language. -/
def IsForm : Node → Prop
  | .expr items | .list items => AreForms items
  | .foreign _ => False
  | _ => True

/-- The same of several nodes. -/
def AreForms : List Node → Prop
  | [] => True
  | node :: nodes => IsForm node ∧ AreForms nodes

end

theorem areForms_iff {nodes : List Node} : AreForms nodes ↔ ∀ node ∈ nodes, node.IsForm := by
  induction nodes with
  | nil => simp [AreForms]
  | cons node nodes ih => simp [AreForms, ih]

mutual

theorem isForm_of_terminals : ∀ node : Node, (∀ text, .foreign text ∉ node.terminals) →
    node.IsForm
  | .expr items, h => by
    rw [IsForm]
    refine areForms_of_terminals items fun text hmem => h text ?_
    exact List.mem_cons_of_mem _ (List.mem_append_left _ hmem)
  | .list items, h => by
    rw [IsForm]
    refine areForms_of_terminals items fun text hmem => h text ?_
    exact List.mem_cons_of_mem _ (List.mem_cons_of_mem _ (List.mem_append_left _ hmem))
  | .foreign text, h => absurd List.mem_cons_self (h text)
  | .int _, _ | .float _, _ | .name _, _ | .str _, _ | .symbol _, _ | .operator _, _ => by
    simp [IsForm]

theorem areForms_of_terminals : ∀ nodes : List Node,
    (∀ text, .foreign text ∉ terminalsEach nodes) → AreForms nodes
  | [], _ => by simp [AreForms]
  | node :: nodes, h => by
    rw [AreForms]
    constructor
    · exact isForm_of_terminals node fun text hmem => h text (List.mem_append_left _ hmem)
    · exact areForms_of_terminals nodes fun text hmem => h text (List.mem_append_right _ hmem)

end

end Node

theorem Token.terminal?_ne_foreign (t : Token) (text : String) :
    t.terminal? ≠ some (.foreign text) := by
  unfold Token.terminal?
  split <;> simp

/-- What is read from a text are forms. -/
theorem areForms_of_parse [Host] {cs : List Char} {nodes : List Node} (h : parse cs = .ok nodes) :
    Node.AreForms nodes := by
  obtain ⟨ts, _, hspells⟩ := spells_of_parse h
  refine Node.areForms_of_terminals nodes fun text hmem => ?_
  obtain ⟨t, _, ht⟩ := hspells.exists_token hmem
  exact t.terminal?_ne_foreign text ht

end MiniLisp
