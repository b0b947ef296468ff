import MiniLisp.Proofs.Evaluation.Ending

/-!
# Loops unrolled

A loop does what a straight line of tests and forms does: so many rounds, each a test that holds
and then all of the loop's forms, the condition among them once more, and a last test that does not
hold. `loopForm_unrolled` says that the loop comes to a result just if one of these lines does,
whether the result is a value or a halt somewhere on the line.
-/

namespace MiniLisp

open MiniLisp.Action

/-! ## Straight lines -/

/-- What stands on a straight line: a form as a test that has to have the answer, or a form that is
evaluated for its value. -/
inductive Instruction where
  | test (node : Node) (answer : Bool)
  | run (node : Node)

/-- One round of a loop: the test holds, and then the condition and the body are evaluated. -/
def loopRound (test : Node) (body : List Node) : List Instruction :=
  .test test true :: (test :: body).map .run

/-- So many rounds of a loop, and a last test that does not hold. -/
def unrolled (test : Node) (body : List Node) (rounds : Nat) : List Instruction :=
  (List.replicate rounds (loopRound test body)).flatten ++ [.test test false]

theorem unrolled_succ (test : Node) (body : List Node) (rounds : Nat) :
    unrolled test body (rounds + 1) =
      .test test true :: ((test :: body).map .run ++ unrolled test body rounds) := by
  simp [unrolled, loopRound, List.replicate_succ]

/-! ## Forms and tests -/

theorem conditionOf_of_ne_bool {form : SpecialForm} {v : Value} (hv : v.kind ≠ .bool) :
    conditionOf form v = fail (.conditionKind form v.kind) := by
  cases v with
  | bool b => exact absurd rfl hv
  | _ => rfl

section Host

variable [Host]

/-- From the state the form, which is evaluated in a call that is made with `room` frames free,
comes to the result. -/
def EndsIn (call : Call) (room : Nat) (node : Node) :
    State → EStateM.Result Halt State Value → Prop :=
  Comes fun rounds => Action.inside call room fun room => evaluate rounds room node

/-- What comes of the form as the test of a loop: a value that is no truth value is an error. -/
inductive Tests (room : Nat) (node : Node) (s : State) :
    EStateM.Result Halt State Bool → Prop where
  | bool {b : Bool} {t : State} (h : EndsIn .condition room node s (.ok (.bool b) t)) :
      Tests room node s (.ok b t)
  | other {v : Value} {t : State} (h : EndsIn .condition room node s (.ok v t))
      (hv : v.kind ≠ .bool) : Tests room node s (.error (.error (.conditionKind .loop v.kind)) t)
  | halts {halt : Halt} {t : State} (h : EndsIn .condition room node s (.error halt t)) :
      Tests room node s (.error halt t)

/-- The computation that a loop tests. -/
def condition (room : Nat) (node : Node) (rounds : Nat) : Action Bool :=
  testWithin .loop room fun room => evaluate rounds room node

theorem settles_inside {α : Type} {run : Nat → Nat → Action α} (call : Call) (room : Nat)
    (h : ∀ room, Settles fun rounds => run rounds room) :
    Settles fun rounds => Action.inside call room (run rounds) := by
  intro n m hle
  refine (Extends.sequential _).inside_of_eq call rfl ?_
  rintro left _ rfl
  exact h left n m hle

/-- A call that halts is not tested. -/
theorem condition_eq (room : Nat) (node : Node) (rounds : Nat) :
    condition room node rounds =
      (Action.inside .condition room fun room => evaluate rounds room node) >>=
        conditionOf .loop := by
  unfold condition testWithin Action.inside
  rcases Host.inside_cases .condition room (throw (.fault .nestedTooDeeply))
    (fun room => evaluate rounds room node) with ⟨left, hleft, heq⟩ | ⟨hfull, heq⟩
  · obtain rfl : left = room - Host.frames .condition := by omega
    rw [heq, Host.inside_of_le (by omega)]
  · rw [heq, Host.inside_of_lt hfull]
    rfl

theorem settles_condition (room : Nat) (node : Node) : Settles (condition room node) := by
  intro n m hle
  rw [condition_eq, condition_eq]
  exact (settles_inside .condition room (fun room => settles_evaluate room node) n m hle).bind
    fun v => .refl _

theorem comes_condition {room : Nat} {node : Node} {s : State}
    {r : EStateM.Result Halt State Bool} :
    Comes (condition room node) s r ↔ Tests room node s r := by
  rw [show condition room node = _ from funext fun rounds => condition_eq room node rounds]
  refine (comes_bind (settles_inside .condition room fun room => settles_evaluate room node)
    fun v => settles_const (conditionOf .loop v)).trans ⟨?_, ?_⟩
  · rintro (h | @⟨v, t, _, h, hnext⟩)
    · exact .halts h
    · obtain ⟨hr, _⟩ := comes_const.mp hnext
      by_cases hv : v.kind = .bool
      · cases v <;> cases hv
        subst hr
        exact .bool h
      · rw [conditionOf_of_ne_bool hv] at hr
        subst hr
        exact .other h hv
  · rintro (h | ⟨h, hv⟩ | h)
    · exact .goes h (comes_const.mpr ⟨rfl, trivial⟩)
    · exact .goes h (comes_const.mpr ⟨by rw [conditionOf_of_ne_bool hv]; rfl, nofun⟩)
    · exact .halts h

/-! ## What a line comes to -/

/-- The line comes from the state to the result: to the value of the last form that was evaluated,
or `last` if there was none, when every test has its answer and nothing halts; or to the first
halt, when the tests before it have their answers. Forms are evaluated where those of a block are,
one call below the line. -/
inductive LineEnds (room : Nat) : List Instruction → Value → State →
    EStateM.Result Halt State Value → Prop where
  | nil (last : Value) (s : State) : LineEnds room [] last s (.ok last s)
  | test {node : Node} {answer : Bool} {line : List Instruction} {last : Value} {s t : State}
      {r : EStateM.Result Halt State Value} (h : Tests room node s (.ok answer t))
      (hline : LineEnds room line last t r) : LineEnds room (.test node answer :: line) last s r
  | testHalts {node : Node} {answer : Bool} {line : List Instruction} {last : Value} {s t : State}
      {halt : Halt} (h : Tests room node s (.error halt t)) :
      LineEnds room (.test node answer :: line) last s (.error halt t)
  | run {node : Node} {line : List Instruction} {last v : Value} {s t : State}
      {r : EStateM.Result Halt State Value} (h : EndsIn (.special .block) room node s (.ok v t))
      (hline : LineEnds room line v t r) : LineEnds room (.run node :: line) last s r
  | runHalts {node : Node} {line : List Instruction} {last : Value} {s t : State} {halt : Halt}
      (h : EndsIn (.special .block) room node s (.error halt t)) :
      LineEnds room (.run node :: line) last s (.error halt t)

section Lines

variable {room : Nat} {last : Value} {s : State} {r : EStateM.Result Halt State Value}

theorem lineEnds_nil_iff : LineEnds room [] last s r ↔ r = .ok last s := by
  constructor
  · rintro ⟨⟩
    rfl
  · rintro rfl
    exact .nil last s

theorem lineEnds_test_iff {node : Node} {answer : Bool} {line : List Instruction} :
    LineEnds room (.test node answer :: line) last s r ↔
      Chains (Tests room node s) (fun b t r => b = answer ∧ LineEnds room line last t r) r := by
  constructor
  · rintro (_ | ⟨h, hline⟩ | h)
    · exact .goes h ⟨rfl, hline⟩
    · exact .halts h
  · rintro (h | ⟨h, rfl, hline⟩)
    · exact .testHalts h
    · exact .test h hline

theorem lineEnds_run_iff {node : Node} {line : List Instruction} :
    LineEnds room (.run node :: line) last s r ↔
      Chains (EndsIn (.special .block) room node s) (LineEnds room line) r := by
  constructor
  · rintro (_ | _ | _ | ⟨h, hline⟩ | h)
    · exact .goes h hline
    · exact .halts h
  · rintro (h | ⟨h, hline⟩)
    · exact .runHalts h
    · exact .run h hline

/-- Of two lines the second begins where the first has ended. -/
theorem lineEnds_append_iff {front back : List Instruction} :
    LineEnds room (front ++ back) last s r ↔
      Chains (LineEnds room front last s) (LineEnds room back) r := by
  induction front generalizing last s r with
  | nil =>
    constructor
    · exact .goes (.nil last s)
    · rintro (h | ⟨h, hback⟩)
      · cases h
      · cases h
        exact hback
  | cons instruction front ih =>
    rw [List.cons_append]
    cases instruction with
    | test node answer =>
      rw [lineEnds_test_iff, chains_congr (fun _ => lineEnds_test_iff) fun _ _ _ => .rfl,
        chains_assoc]
      refine chains_congr (fun _ => .rfl) fun b t q => ?_
      rw [chains_and_iff, ih]
    | run node =>
      rw [lineEnds_run_iff, chains_congr (fun _ => lineEnds_run_iff) fun _ _ _ => .rfl,
        chains_assoc]
      exact chains_congr (fun _ => .rfl) fun _ _ _ => ih

end Lines

/-! ## Loops -/

/-- The forms of a loop's round, in a block. -/
def roundForms (room : Nat) (nodes : List Node) (rounds : Nat) : Action Value :=
  Action.inside (.special .block) room fun room => evaluateBlock rounds room .null nodes

/-- A loop of which `last` is the value of the round before. -/
def loopFrom (room : Nat) (test : Node) (body : List Node) (last : Value) (rounds : Nat) :
    Action Value :=
  whileTrue (condition room test rounds) (roundForms room (test :: body) rounds) rounds last

/-- What `while` does with its arguments, of which the first is the test. -/
def loopForm (rounds room : Nat) : List Node → Action Value
  | [] => fail (.argumentCount .loop 0)
  | test :: body => loopFrom room test body .null rounds

/-- Whatever the head is that is found to be `while`: after a line in the log, this is done with the
arguments, in a call of its own. -/
theorem evaluateForm_of_loop {rounds room : Nat} {head : Node} {s t : State}
    (h : evaluate rounds room head s = .ok (.special .loop) t) (tail : List Node) :
    evaluateForm rounds room (head :: tail) s =
      (logSpecialForm .loop tail.length >>= fun _ =>
        Action.inside (.special .loop) room fun room => loopForm rounds room tail) t := by
  unfold evaluateForm
  rw [bind_of_ok h]
  cases tail <;> rfl

section Loops

variable {room : Nat} {test : Node} {body : List Node} {last : Value} {s : State}
  {r : EStateM.Result Halt State Value}

theorem settles_block (room : Nat) (nodes : List Node) (last : Value) :
    Settles fun rounds => evaluateBlock rounds room last nodes := by
  induction nodes generalizing last with
  | nil => simpa only [evaluateBlock] using settles_const (pure last)
  | cons node nodes ih =>
    simp only [evaluateBlock]
    exact (settles_evaluate room node).bind ih

theorem settles_roundForms (room : Nat) (nodes : List Node) : Settles (roundForms room nodes) :=
  settles_inside (.special .block) room fun room => settles_block room nodes .null

/-- The forms of a block that is called are a line. -/
theorem comes_block {nodes : List Node} (hroom : Host.frames (.special .block) ≤ room) :
    Comes (fun rounds =>
        evaluateBlock rounds (room - Host.frames (.special .block)) last nodes) s r ↔
      LineEnds room (nodes.map .run) last s r := by
  induction nodes generalizing last s r with
  | nil =>
    simp only [evaluateBlock, List.map_nil, lineEnds_nil_iff, comes_const]
    constructor
    · rintro ⟨rfl, _⟩
      rfl
    · rintro rfl
      exact ⟨rfl, trivial⟩
  | cons node nodes ih =>
    simp only [evaluateBlock, List.map_cons, lineEnds_run_iff, EndsIn, Action.inside,
      Host.inside_of_le hroom]
    exact (comes_bind (settles_evaluate _ node) (settles_block _ nodes)).trans
      (chains_congr (fun _ => .rfl) fun _ _ _ => ih)

/-- The forms of a round are a line, also where their block cannot be called. -/
theorem comes_roundForms :
    Comes (roundForms room (test :: body)) s r ↔
      LineEnds room ((test :: body).map .run) last s r := by
  by_cases hroom : Host.frames (.special .block) ≤ room
  · -- there is a form, so what stands before it does not count
    rw [← comes_block hroom]
    unfold roundForms Action.inside
    simp only [Host.inside_of_le hroom, evaluateBlock]
  · have hfull : ∀ run : Nat → Action Value, Action.inside (.special .block) room run =
        throw (.fault .nestedTooDeeply) := fun run => Host.inside_of_lt (Nat.not_le.mp hroom)
    rw [List.map_cons, lineEnds_run_iff]
    unfold EndsIn roundForms
    simp only [hfull]
    constructor
    · rintro ⟨rounds, rfl, hfinished⟩
      exact .halts ⟨rounds, rfl, hfinished⟩
    · rintro (h | ⟨⟨_, ⟨⟩, _⟩, _⟩)
      exact h

theorem settles_loopFrom (room : Nat) (test : Node) (body : List Node) (last : Value) :
    Settles (loopFrom room test body last) := fun n m hle =>
  .whileTrue hle (settles_condition room test n m hle)
    (settles_roundForms room (test :: body) n m hle) last

/-- What a loop does when its test is answered. -/
def loopNext (room : Nat) (test : Node) (body : List Node) (last : Value) (rounds : Nat) :
    Bool → Action Value
  | true => roundForms room (test :: body) rounds >>= fun v =>
      loopFrom room test body v rounds
  | false => pure last

theorem settles_loopNext (room : Nat) (test : Node) (body : List Node) (last : Value) :
    ∀ again, Settles fun rounds => loopNext room test body last rounds again
  | true => (settles_roundForms room (test :: body)).bind (settles_loopFrom room test body)
  | false => settles_const (pure last)

/-- The round of a loop that goes on is the line of its forms, and the loop is what follows. -/
theorem comes_loopNext_true : Comes (fun rounds => loopNext room test body last rounds true) s r ↔
    Chains (LineEnds room ((test :: body).map .run) last s)
      (fun v => Comes (loopFrom room test body v)) r := by
  have hbind : Comes (fun rounds => loopNext room test body last rounds true) s r ↔ _ :=
    comes_bind (settles_roundForms room (test :: body)) (settles_loopFrom room test body)
  exact hbind.trans (chains_congr (fun _ => comes_roundForms) fun _ _ _ => .rfl)

/-- A loop comes to what its test, and what it does next, come to. -/
theorem comes_loopFrom (h : Chains (Tests room test s)
    (fun again => Comes fun rounds => loopNext room test body last rounds again) r) :
    Comes (loopFrom room test body last) s r := by
  obtain ⟨n, hn, hr⟩ := (comes_bind (settles_condition room test)
    (settles_loopNext room test body last)).mpr
      ((chains_congr (fun _ => comes_condition) fun _ _ _ => .rfl).mpr h)
  -- with `n` rounds for what is next, the whole is a loop with one round more
  have hunfold : whileTrue (condition room test n) (roundForms room (test :: body) n)
      (n + 1) last = condition room test n >>= loopNext room test body last n := by
    rw [whileTrue]
    exact congrArg _ (funext fun again => by cases again <;> rfl)
  have hloop : whileTrue (condition room test n) (roundForms room (test :: body) n)
      (n + 1) last s = r := by
    rw [hunfold]
    exact hn
  have hmore := Extends.whileTrue (Nat.le_refl (n + 1))
    (settles_condition room test n (n + 1) (Nat.le_succ n))
    (settles_roundForms room (test :: body) n (n + 1) (Nat.le_succ n)) last
  exact ⟨n + 1, (hmore.eq_of_finished (hloop ▸ hr)).trans hloop, hr⟩

theorem comes_of_lineEnds {k : Nat} (h : LineEnds room (unrolled test body k) last s r) :
    Comes (loopFrom room test body last) s r := by
  induction k generalizing last s r with
  | zero =>
    apply comes_loopFrom
    rcases lineEnds_test_iff.mp h with htest | ⟨htest, rfl, hline⟩
    · exact .halts htest
    · cases hline
      exact .goes htest (comes_const.mpr ⟨rfl, trivial⟩)
  | succ k ih =>
    apply comes_loopFrom
    rw [unrolled_succ, lineEnds_test_iff] at h
    rcases h with htest | ⟨htest, rfl, hline⟩
    · exact .halts htest
    · refine .goes htest (comes_loopNext_true.mpr ?_)
      rcases lineEnds_append_iff.mp hline with hround | ⟨hround, hrest⟩
      · exact .halts hround
      · exact .goes hround (ih hrest)

theorem lineEnds_of_whileTrue {rounds n : Nat}
    (h : whileTrue (condition room test rounds) (roundForms room (test :: body) rounds)
      n last s = r) (hr : Finished r) : ∃ k, LineEnds room (unrolled test body k) last s r := by
  induction n generalizing last s with
  | zero =>
    subst h
    exact absurd rfl hr
  | succ n ih =>
    rw [whileTrue] at h
    cases htest : condition room test rounds s with
    | error halt t =>
      rw [bind_of_error htest] at h
      subst h
      exact ⟨0, .testHalts (comes_condition.mp ⟨rounds, htest, hr⟩)⟩
    | ok again t =>
      rw [bind_of_ok htest] at h
      have hanswer : Tests room test s (.ok again t) :=
        comes_condition.mp ⟨rounds, htest, trivial⟩
      cases again with
      | false =>
        subst h
        exact ⟨0, .test hanswer (.nil last t)⟩
      | true =>
        change (roundForms room (test :: body) rounds >>= whileTrue _ _ n) t = r at h
        have hround : ∀ q, roundForms room (test :: body) rounds t = q → Finished q →
            LineEnds room ((test :: body).map .run) last t q :=
          fun q hq hfinished => comes_roundForms.mp ⟨rounds, hq, hfinished⟩
        cases hblock : roundForms room (test :: body) rounds t with
        | error halt u =>
          rw [bind_of_error hblock] at h
          subst h
          refine ⟨1, ?_⟩
          rw [unrolled_succ]
          exact .test hanswer (lineEnds_append_iff.mpr (.halts (hround _ hblock hr)))
        | ok v u =>
          rw [bind_of_ok hblock] at h
          obtain ⟨k, hrest⟩ := ih h
          refine ⟨k + 1, ?_⟩
          rw [unrolled_succ]
          exact .test hanswer (lineEnds_append_iff.mpr (.goes (hround _ hblock trivial) hrest))

end Loops

/-- A loop is its unrolling. From every state it comes to what, for some number of rounds, their
line with a last test comes to, and to nothing else: to the value of the last form of the last
round, or of none, in the state after the last test, or to the halt of a form or test on the line,
in the state in which that has halted. This is what a form does of which the head is found to be
`while`. -/
theorem loopForm_unrolled (room : Nat) (test : Node) (body : List Node) :
    (∀ s r, Comes (fun rounds => loopForm rounds room (test :: body)) s r ↔
        ∃ k, LineEnds room (unrolled test body k) .null s r) ∧
      ∀ rounds head s t, evaluate rounds room head s = .ok (.special .loop) t →
        evaluateForm rounds room (head :: test :: body) s =
          (logSpecialForm .loop (body.length + 1) >>= fun _ =>
            Action.inside (.special .loop) room fun room =>
              loopForm rounds room (test :: body)) t := by
  refine ⟨fun s r => ⟨?_, ?_⟩, fun rounds head s t h => evaluateForm_of_loop h (test :: body)⟩
  · rintro ⟨rounds, h, hr⟩
    exact lineEnds_of_whileTrue h hr
  · rintro ⟨k, h⟩
    exact comes_of_lineEnds h

end Host

/-! ### A condition that changes what it tests -/

/-- Shows `again`, and sees to it that it is false from then on. -/
def takeTurn : Node :=
  .expr [.name "block", .expr [.name "print", .name "again"],
    .expr [.name "set", .name "go", .name "again"],
    .expr [.name "set", .name "again", .name "false"], .name "go"]

/-- The state in which the two names have these values, and so much has been printed. -/
def turns (go again : Bool) (out : String) : State where
  env := Environment.initial.insertMany [("go", .bool go), ("again", .bool again)]
  console := { Console.ofInput "" .closed 30 with out }

theorem endsIn_takeTurn (call : Call) (hcall : call = .condition ∨ call = .special .block)
    (go again : Bool) (out : String) :
    EndsIn call 100 takeTurn (turns go again out)
      (.ok (.bool again) (turns again false (out ++ if again then "true" else "false"))) := by
  refine ⟨0, ?_, trivial⟩
  rcases hcall with rfl | rfl <;> cases again <;> rfl

/-- The condition is evaluated three times in a loop that goes through one round without a body:
as the test that holds, in the round, and as the test that does not hold. -/
theorem loopForm_unrolled_once :
    Comes (fun rounds => loopForm rounds 100 [takeTurn]) (turns false true "")
        (.ok (.bool false) (turns false false "truefalsefalse")) ∧
      evaluate 1 100 (.name "while") (turns false true "") =
        .ok (.special .loop) (turns false true "") ∧
      evaluateForm 1 100 [.name "while", takeTurn] (turns false true "") =
        (logSpecialForm .loop 1 >>= fun _ => Action.inside (.special .loop) 100 fun room =>
          loopForm 1 room [takeTurn]) (turns false true "") := by
  have hhead : evaluate 1 100 (.name "while") (turns false true "") =
      .ok (.special .loop) (turns false true "") := rfl
  obtain ⟨hcomes, hform⟩ := loopForm_unrolled 100 takeTurn []
  refine ⟨(hcomes _ _).mpr ⟨1, ?_⟩, hhead, hform 1 _ _ _ hhead⟩
  exact .test (.bool (endsIn_takeTurn .condition (.inl rfl) false true "")) <|
    .run (endsIn_takeTurn (.special .block) (.inr rfl) true false "true") <|
    .test (.bool (endsIn_takeTurn .condition (.inl rfl) false false "truefalse")) (.nil _ _)

end MiniLisp
