import MiniLisp.Proofs.Evaluation.Elsewhere
import MiniLisp.Proofs.Evaluation.Outcome

/-!
# Forms in the other order

Two forms that give their values one after the other, and print and read nothing, do so in the
other order as well if neither mentions a name that the other assigns (`ends_commute`).
-/

namespace MiniLisp

/-- Texts that were written one after the other and changed nothing are empty. -/
theorem append_eq_self {out text text' : String} (h : out ++ text ++ text' = out) :
    text = "" ∧ text' = "" := by
  have hlist := congrArg String.toList h
  rw [String.append_assoc, String.toList_append, List.append_right_eq_self,
    String.toList_append, List.append_eq_nil_iff] at hlist
  exact ⟨String.toList_eq_nil_iff.mp hlist.1, String.toList_eq_nil_iff.mp hlist.2⟩

/-- Neither form mentions a name that the other assigns. -/
structure Independent (a b : Node) : Prop where
  left : ∀ x, a.Assigns x → ¬ b.Mentions x
  right : ∀ x, b.Assigns x → ¬ a.Mentions x

section Host

variable [Host]

/-- A form leaves the names alone that it does not assign. -/
theorem Ends.keeps {node : Node} {s t : State} {v : Value} (h : Ends node s (.ok v t)) {x : String}
    (hx : ¬ node.Assigns x) : t.env.get? x = s.env.get? x := by
  obtain ⟨rounds, hrun, _⟩ := h
  have hkeeps := (respects_keepsOthers node.Assigns rounds).evaluation node
    (fun _ _ => trivial) (fun _ hy => hy) Host.stack Host.stack rfl s x hx
  rwa [Action.after, evalForm_ok_iff.mp hrun] at hkeeps

/-- Evaluated after an independent form, a form finds every name that it mentions as it was. -/
theorem Ends.sameOn {a b : Node} (hab : ∀ x, a.Assigns x → ¬ b.Mentions x) {s t : State}
    {v : Value} (h : Ends a s (.ok v t)) : SameOn b.Mentions t.env s.env :=
  fun x hx => h.keeps fun hassigns => hab x hassigns hx

/-- Two independent forms of which the second is evaluated where the first has been, with neither
printing or reading anything, can be evaluated in the other order from the same environment and
with any console: each has its value again, nothing is printed or read, and every name is bound
to the same in the end. -/
theorem ends_commute {a b : Node} (hindependent : Independent a b) {s t u : State} {v w : Value}
    (ha : Ends a s (.ok v t)) (hb : Ends b t (.ok w u))
    (hinput : u.console.input = s.console.input) (hout : u.console.out = s.console.out)
    (c : Console) :
    ∃ t' u', Ends b ⟨s.env, c⟩ (.ok w t') ∧ Ends a t' (.ok v u') ∧
      (∀ x, u'.env.get? x = u.env.get? x) ∧
      u'.console.input = c.input ∧ u'.console.out = c.out := by
  have hmid : t.console.input = s.console.input :=
    ha.follows.input.eq_of_length_le (hinput ▸ hb.follows.input.length_le)
  -- the second form, where the first has not been evaluated
  obtain ⟨t', hb', hstep⟩ := hb.elsewhere (t := ⟨s.env, c⟩) (tracks_sameOn _ _)
    (ha.sameOn hindependent.left) (hinput.trans hmid.symm)
  -- the first form, where the second has been evaluated
  have hsame : SameOn a.Mentions s.env t'.env :=
    fun x hx => (hb'.sameOn hindependent.right x hx).symm
  obtain ⟨u', ha', hstep'⟩ := ha.elsewhere (tracks_sameOn _ _) hsame hmid
  refine ⟨t', u', hb', ha', ?_, hstep'.input.trans hstep.input, ?_⟩
  · intro x
    by_cases hx : a.Assigns x
    · have hother : ¬ b.Assigns x := fun h => hindependent.left x hx h.mentions
      calc u'.env.get? x = t.env.get? x := (hstep'.env x hx.mentions).symm
        _ = u.env.get? x := (hb.keeps hother).symm
    · by_cases hx' : b.Assigns x
      · calc u'.env.get? x = t'.env.get? x := ha'.keeps hx
          _ = u.env.get? x := (hstep.env x hx'.mentions).symm
      · calc u'.env.get? x = t'.env.get? x := ha'.keeps hx
          _ = s.env.get? x := hb'.keeps hx'
          _ = t.env.get? x := (ha.keeps hx).symm
          _ = u.env.get? x := (hb.keeps hx').symm
  · obtain ⟨text, htu, ht'⟩ := hstep.out
    obtain ⟨text', hst, hu'⟩ := hstep'.out
    rw [htu, hst] at hout
    obtain ⟨rfl, rfl⟩ := append_eq_self hout
    rw [hu', ht', String.append_empty, String.append_empty]

end Host

/-! ### A loop and an assignment of another name -/

/-- Counts `i` up once. -/
def countOnce : Node :=
  .expr [.name "while", .name "go",
    .expr [.name "set", .name "i", .expr [.operator (.arithmetic .plus), .name "i", .int 1]],
    .expr [.name "set", .name "go", .name "false"]]

/-- Triples `j`. -/
def triple : Node :=
  .expr [.name "set", .name "j", .expr [.operator (.arithmetic .star), .name "j", .int 3]]

/-- The state in which the names of the two forms have these values. -/
def counting (go : Bool) (i j : Int) : State where
  env := Environment.initial.insertMany [("go", .bool go), ("i", .int i), ("j", .int j)]
  console := .ofInput "" .closed 30

theorem ends_countOnce (i j : Int) :
    Ends countOnce (counting true i j) (.ok (.bool false) (counting false (i + 1) j)) := by
  refine ⟨2, ?_, trivial⟩
  rw [evalForm_ok_iff, countOnce]
  rfl

theorem ends_triple (go : Bool) (i j : Int) :
    Ends triple (counting go i j) (.ok (.int (j * 3)) (counting go i (j * 3))) := by
  refine ⟨0, ?_, trivial⟩
  rw [evalForm_ok_iff, triple]
  rfl

theorem independent_countOnce_triple : Independent countOnce triple where
  left x h := by
    obtain ⟨head, source, h⟩ := h
    have hx : x = "i" ∨ x = "go" := by
      simp only [countOnce, Node.unquoted, Node.unquotedEach, List.mem_cons, List.mem_append] at h
      aesop
    rcases hx with rfl | rfl <;> simp [triple, Node.Mentions, Node.unquoted, Node.unquotedEach]
  right x h := by
    obtain ⟨head, source, h⟩ := h
    have hx : x = "j" := by
      simp only [triple, Node.unquoted, Node.unquotedEach, List.mem_cons, List.mem_append] at h
      aesop
    rw [hx]
    simp [countOnce, Node.Mentions, Node.unquoted, Node.unquotedEach]

theorem ends_commute_loop : Independent countOnce triple ∧
    Ends countOnce (counting true 1 5) (.ok (.bool false) (counting false 2 5)) ∧
    Ends triple (counting false 2 5) (.ok (.int 15) (counting false 2 15)) ∧
    ∃ t' u', Ends triple (counting true 1 5) (.ok (.int 15) t') ∧
      Ends countOnce t' (.ok (.bool false) u') ∧
      (∀ x, u'.env.get? x = (counting false 2 15).env.get? x) ∧
      u'.console.input = [] ∧ u'.console.out = "" :=
  ⟨independent_countOnce_triple, ends_countOnce 1 5, ends_triple false 2 5,
    ends_commute independent_countOnce_triple (ends_countOnce 1 5) (ends_triple false 2 5) rfl rfl
      (.ofInput "" .closed 30)⟩

end MiniLisp
