import MiniLisp.Proofs.Document.Definitions
import MiniLisp.Proofs.Evaluation.Contract

/-!
# What the index of a document covers

An editor's index comes from the tokens of a text, without running it. As long as the special form
that binds names is reached by its own name only, and this name stands at the head of forms, no
other name can come to be bound to it: then whatever a run of the text binds is in the index
(`index_covers_run`). The invariant of the run is `Covered`.
-/

namespace MiniLisp

/-- What is found in a table was put in, or was there before. -/
theorem Table.get?_insertMany {α : Type} {x : String} {v : α} {entries : List (String × α)}
    {t : Table α} (h : (t.insertMany entries).get? x = some v) :
    (x, v) ∈ entries ∨ t.get? x = some v := by
  induction entries generalizing t with
  | nil => exact .inr h
  | cons entry entries ih =>
    rcases ih h with hmem | hget
    · exact .inl (List.mem_cons_of_mem entry hmem)
    · rw [get?_insert] at hget
      split at hget
      · rename_i hx
        rw [hx, ← Option.some.inj hget]
        exact .inl List.mem_cons_self
      · exact .inr hget

namespace Node

/-- Outside quoted lists the name of the form that binds names occurs only at the head of a
form. -/
def SetsAtHeadOnly (node : Node) : Prop :=
  node ≠ .name SpecialForm.set.name ∧
    ∀ items, .expr items ∈ node.unquoted → .name SpecialForm.set.name ∉ items.tail

/-- Outside quoted lists some form consists of `set`, the name, and what the name is set to. -/
def Sets (node : Node) (x : String) : Prop :=
  ∃ source, .expr [.name SpecialForm.set.name, .name x, source] ∈ node.unquoted

theorem Sets.of_item {item : Node} {items : List Node} {x : String} (h : item.Sets x)
    (hitem : item ∈ items) : (Node.expr items).Sets x := by
  obtain ⟨source, h⟩ := h
  exact ⟨source, mem_unquoted_of_item hitem h⟩

theorem SetsAtHeadOnly.of_item {item : Node} {items : List Node}
    (h : (Node.expr items).SetsAtHeadOnly) (hitem : item ∈ items)
    (hne : item ≠ .name SpecialForm.set.name) : item.SetsAtHeadOnly :=
  ⟨hne, fun others hothers => h.2 others (mem_unquoted_of_item hitem hothers)⟩

mutual

/-- A name that a form sets is among the definitions. -/
theorem mem_definitions {x : String} {source : Node} : ∀ (node : Node) (start : Nat),
    .expr [.name SpecialForm.set.name, .name x, source] ∈ node.unquoted →
      x ∈ (node.definitions start).map Prod.fst
  | .expr items, start, h => by
    rw [definitions, List.map_append, List.mem_append]
    rcases List.mem_cons.mp h with heq | h
    · cases heq
      exact .inl List.mem_cons_self
    · exact .inr (mem_definitionsEach items (start + 1) h)
  | .int _, _, h | .float _, _, h | .name _, _, h | .str _, _, h | .symbol _, _, h
  | .operator _, _, h | .list _, _, h | .foreign _, _, h => by
    simp [unquoted] at h

theorem mem_definitionsEach {x : String} {source : Node} : ∀ (nodes : List Node) (start : Nat),
    .expr [.name SpecialForm.set.name, .name x, source] ∈ unquotedEach nodes →
      x ∈ (definitionsEach start nodes).map Prod.fst
  | [], _, h => nomatch h
  | node :: nodes, start, h => by
    rw [definitionsEach, List.map_append, List.mem_append]
    rcases List.mem_append.mp h with h | h
    · exact .inl (mem_definitions node start h)
    · exact .inr (mem_definitionsEach nodes _ h)

end

theorem Sets.mem_definitionsEach {node : Node} {nodes : List Node} {x : String} (h : node.Sets x)
    (hnode : node ∈ nodes) (start : Nat) : x ∈ (definitionsEach start nodes).map Prod.fst := by
  obtain ⟨source, h⟩ := h
  exact Node.mem_definitionsEach nodes start (mem_unquotedEach.mpr ⟨node, hnode, h⟩)

end Node

open MiniLisp.Action

/-! ## The invariant of a run -/

/-- Only names that are `defined` have other bindings than at first, and only its own name is
bound to the special form that binds names. -/
structure Covered (defined : String → Prop) (s : State) : Prop where
  others : ∀ x, ¬ defined x → s.env.get? x = Environment.initial.get? x
  special : ∀ x, x ≠ SpecialForm.set.name → s.env.get? x ≠ some (.special .set)

section Covered

variable {defined : String → Prop}

theorem covered_initial (console : Console) : Covered defined ⟨Environment.initial, console⟩ := by
  refine ⟨fun _ _ => rfl, ?_⟩
  intro x hx h
  rcases Table.get?_insertMany h with hmem | hempty
  · simp [Environment.natives, SpecialForm.all, hx] at hmem
  · cases hempty

/-- The invariant is one of the environment. -/
theorem contract_covered :
    Contract (Covered defined) (fun _ => Covered defined) (· ≠ .special .set) where
  data := by
    rintro v hv rfl
    exact hv
  write _ _ hs := ⟨hs.others, hs.special⟩
  log _ _ _ _ hs := ⟨hs.others, hs.special⟩
  read _ hs := ⟨hs.others, hs.special⟩
  error _ _ hs _ := hs
  interrupted _ hs _ := hs
  outOfRounds _ hs := hs
  tooDeep _ hs := hs

theorem Covered.define {s : State} {x : String} {v : Value} (h : Covered defined s)
    (hx : defined x) (hv : v ≠ .special .set) :
    Covered defined { s with env := s.env.define x v } := by
  constructor
  · intro y hy
    have hne : y ≠ x := fun heq => hy (heq ▸ hx)
    rw [← h.others y hy]
    exact (Table.get?_insert s.env x y v).trans (if_neg hne)
  · intro y hy
    rw [Environment.define, Table.get?_insert]
    split
    · exact fun heq => hv (Option.some.inj heq)
    · exact h.special y hy

/-- Evaluation keeps the invariant, and its values are other than the form that binds names, if
the form is never an argument and what it sets is defined. -/
theorem gives_evaluate_covered [Host] (rounds room : Nat) (node : Node)
    (hset : node.SetsAtHeadOnly) (hdefined : ∀ x, node.Sets x → defined x) :
    Gives (Covered defined) (fun _ => Covered defined) (· ≠ .special .set)
      (evaluate rounds room node) := by
  refine contract_covered.evaluation
    (fun node => node.SetsAtHeadOnly ∧ ∀ x, node.Sets x → defined x) ?_
    (fun _ _ _ _ _ _ _ hs => hs) ?_ node ⟨hset, hdefined⟩ room
  · rintro x ⟨⟨hx, _⟩, _⟩
    refine .lookup ?_ fun s hs _ => hs
    rintro s v hs hv rfl
    exact hs.special x (fun heq => hx (heq ▸ rfl)) hv
  · rintro room head tail ⟨hset, hdefined⟩ ih
    have htail : ∀ node ∈ tail, ∀ left, Gives (Covered defined) (fun _ => Covered defined)
        (· ≠ .special .set) (evaluate rounds left node) := by
      intro node hnode
      have hitem : node ∈ head :: tail := List.mem_cons_of_mem head hnode
      have hne : node ≠ .name SpecialForm.set.name :=
        fun heq => hset.2 _ (Node.mem_unquoted_self _) (heq ▸ hnode)
      exact ih node hitem
        ⟨hset.of_item hitem hne, fun x hx => hdefined x (hx.of_item hitem)⟩
    -- the head alone may be the form that binds names, and is then its name
    by_cases hhead : head = .name SpecialForm.set.name
    · subst hhead
      refine contract_covered.form (fun _ => True) ?_ htail ?_ fun _ _ _ s _ hs _ => hs
      · rw [evaluate]
        exact .inside (fun _ => .lookup (fun _ _ _ _ => trivial) fun s hs _ => hs)
          fun s hs => hs
      · rintro - x source rfl v s hv hs
        exact hs.define (hdefined x ⟨source, Node.mem_unquoted_self _⟩) hv
    · have hitem : head ∈ head :: tail := List.mem_cons_self
      exact contract_covered.form (· ≠ .special .set)
        (ih head hitem
          ⟨hset.of_item hitem hhead, fun x hx => hdefined x (hx.of_item hitem)⟩ room) htail
        (fun hne => absurd rfl hne) fun _ _ _ s _ hs _ => hs

end Covered

/-! ## The run of a document -/

namespace Document

/-- In a text whose forms name the form that binds names only where they call it, the index has
every name that is bound by running the text, to the end or up to the first halt, and every name
whose binding this has changed. -/
theorem index_covers_run [Host] {cs : List Char} {nodes : List Node} (h : parse cs = .ok nodes)
    (hset : ∀ node ∈ nodes, node.SetsAtHeadOnly) (rounds : Nat) (console : Console) :
    ∃ idx, index cs = .ok idx ∧ ∀ x,
      (runText rounds cs ⟨Environment.initial, console⟩).state.env.get? x ≠
        Environment.initial.get? x → idx.symbols.contains x = true := by
  obtain ⟨ts, hcuts, hspells⟩ := spells_of_parse h
  refine ⟨_, index_of_ok h, ?_⟩
  intro x hx
  rw [Table.contains_iff, names_definitions hcuts hspells, List.mem_eraseDups]
  by_contra hundefined
  apply hx
  have hforms : ∀ node ∈ nodes, Gives (Covered (· ≠ x)) (fun _ => Covered (· ≠ x)) (fun _ => True)
      (evalForm rounds node) := by
    intro node hnode
    have hdefined : ∀ y, node.Sets y → y ≠ x :=
      fun y hy heq => hundefined (heq ▸ hy.mem_definitionsEach hnode 0)
    have hevaluate := gives_evaluate_covered rounds Host.stack node (hset node hnode) hdefined
    exact (hevaluate.mono fun _ _ => trivial).evalForm fun _ _ hs => hs
  have hrun := evalForms_keeps hforms _ (covered_initial console)
  rw [runText, h]
  exact hrun.others x (fun hne => hne rfl)

/-- A name that is set within a form that halts, beside one that is set as data only. -/
theorem index_covers_run_halted :
    ∃ cs nodes, cs = "(if true (block (set a 1) (c)) '(set d 2))".toList ∧
      parse cs = .ok nodes ∧ (∀ node ∈ nodes, node.SetsAtHeadOnly) ∧
      ∀ rounds console, ∃ idx, index cs = .ok idx ∧ ∀ x,
        (runText rounds cs ⟨Environment.initial, console⟩).state.env.get? x ≠
          Environment.initial.get? x → idx.symbols.contains x = true := by
  have hparse : parse "(if true (block (set a 1) (c)) '(set d 2))".toList =
      .ok [.expr [.name "if", .name "true", .expr [.name "block",
        .expr [.name "set", .name "a", .int 1], .expr [.name "c"]],
        .list [.name "set", .name "d", .int 2]]] := by cbv
  have hset : ∀ node ∈ [Node.expr [.name "if", .name "true", .expr [.name "block",
      .expr [.name "set", .name "a", .int 1], .expr [.name "c"]],
      .list [.name "set", .name "d", .int 2]]], node.SetsAtHeadOnly := by
    simp [Node.SetsAtHeadOnly, Node.unquoted, Node.unquotedEach, SpecialForm.name]
  exact ⟨_, _, rfl, hparse, hset, index_covers_run hparse hset⟩

end Document

end MiniLisp
