import Mathlib.Tactic.Common
import MiniLisp.Value.Relation
import MiniLisp.Value.Text

/-!
# Where values have no text, no comparison and no result

Operations on values have errors of the language, which say what is wrong with the operands, and
faults. There are two of these: the stack is full before a value is walked to its innermost part,
or an integer with more digits than are written has to be written. The second has two causes, the
text of a value (`displayAllWithin_failsOnly`) and the message of a repetition
(`applyOperatorWithin_failsOnly`).
-/

namespace MiniLisp

/-! ## Computations that fail -/

/-- Where the computation fails, it does so for a reason of which `P` holds. -/
def FailsOnly {ε α : Type} (r : Except ε α) (P : ε → Prop) : Prop := ∀ e, r = .error e → P e

section FailsOnly

variable {ε α β : Type} {P : ε → Prop}

theorem FailsOnly.ok (a : α) : FailsOnly (.ok a) P := fun _ h => nomatch h

theorem FailsOnly.error {e : ε} (h : P e) : FailsOnly (.error e : Except ε α) P := by
  rintro _ ⟨⟩
  exact h

theorem FailsOnly.bind {r : Except ε α} {f : α → Except ε β} (hr : FailsOnly r P)
    (hf : ∀ a, r = .ok a → FailsOnly (f a) P) : FailsOnly (r >>= f) P := by
  cases r with
  | ok a => exact hf a rfl
  | error e => exact .error (hr e rfl)

theorem FailsOnly.map {r : Except ε α} (hr : FailsOnly r P) (f : α → β) :
    FailsOnly (f <$> r) P := by
  cases r with
  | ok a => exact .ok (f a)
  | error e => exact .error (hr e rfl)

theorem FailsOnly.mono {Q : ε → Prop} {r : Except ε α} (hr : FailsOnly r P)
    (h : ∀ e, P e → Q e) : FailsOnly r Q := fun e he => h e (hr e he)

theorem FailsOnly.mapError {δ : Type} {Q : δ → Prop} {r : Except ε α} (hr : FailsOnly r P)
    {f : ε → δ} (hf : ∀ e, P e → Q (f e)) : FailsOnly (r.mapError f) Q := by
  cases r with
  | ok a => exact .ok a
  | error e => exact .error (hf e (hr e rfl))

/-- What is done with every item fails where it fails with one. -/
theorem FailsOnly.mapM {f : α → Except ε β} {xs : List α} (h : ∀ x ∈ xs, FailsOnly (f x) P) :
    FailsOnly (xs.mapM f) P := by
  induction xs with
  | nil => exact .ok []
  | cons x xs ih =>
    rw [List.mapM_cons]
    apply (h x List.mem_cons_self).bind
    intro y _
    apply (ih fun z hz => h z (List.mem_cons_of_mem x hz)).bind
    exact fun ys _ => .ok (y :: ys)

/-- What is folded fails where one of the steps does. -/
theorem FailsOnly.foldlM {f : β → α → Except ε β} (h : ∀ b x, FailsOnly (f b x) P) (xs : List α)
    (b : β) : FailsOnly (xs.foldlM f b) P := by
  induction xs generalizing b with
  | nil => exact .ok b
  | cons x xs ih =>
    rw [List.foldlM_cons]
    exact (h b x).bind fun c _ => ih c

/-- A call fails where the stack is full for it, or where what is done in it does. -/
theorem FailsOnly.inside [Host] {call : Call} {room : Nat} {full : ε} {run : Nat → Except ε α}
    (hfull : room < Host.frames call → P full)
    (hrun : ∀ left, left + Host.frames call = room → FailsOnly (run left) P) :
    FailsOnly (Host.inside call room (.error full) run) P := by
  rcases Host.inside_cases call room (.error full) run with ⟨left, hleft, heq⟩ | ⟨hlt, heq⟩
  · rw [heq]
    exact hrun left hleft
  · rw [heq]
    exact .error (hfull hlt)

end FailsOnly

/-- If the halt is a fault, `P` holds of it. -/
def Halt.IfFault (P : Fault → Prop) : Halt → Prop
  | .fault f => P f
  | _ => True

theorem FailsOnly.monoFault {α : Type} {P Q : Fault → Prop} {r : Except Halt α}
    (hr : FailsOnly r (Halt.IfFault P)) (h : ∀ f, P f → Q f) : FailsOnly r (Halt.IfFault Q) := by
  refine hr.mono fun halt hhalt => ?_
  cases halt with
  | fault f => exact h f hhalt
  | error e => exact trivial
  | outOfRounds => exact trivial

/-! ## Texts -/

/-- The integer has more digits than are written. -/
@[irreducible] def LongInt (n : Int) : Prop := Nat.pow 10 Decimal.digitLimit ≤ n.natAbs

theorem writeInt?_eq_none_iff {n : Int} : Decimal.writeInt? n = none ↔ LongInt n := by
  unfold Decimal.writeInt? LongInt
  split <;> simp_all

theorem integerText_of_longInt {n : Int} (h : LongInt n) :
    integerText n = .error .numberTooLong := by
  have hnone : Decimal.writeInt? n = none := writeInt?_eq_none_iff.mpr h
  unfold integerText
  rw [hnone]

theorem integerText_failsOnly (n : Int) :
    FailsOnly (integerText n) fun f => f = .numberTooLong ∧ LongInt n := by
  unfold integerText
  cases h : Decimal.writeInt? n with
  | some text => exact .ok text
  | none => exact .error ⟨rfl, writeInt?_eq_none_iff.mp h⟩

namespace Value

/-- The value is an integer with more digits than are written, or has one in it. -/
inductive HoldsLong : Value → Prop where
  | int {n : Int} (h : LongInt n) : HoldsLong (.int n)
  | item {v : Value} {items : List Value} (hv : v ∈ items) (h : HoldsLong v) :
      HoldsLong (.list items)

section Host

variable [Host]

mutual

/-- How many frames the text of a value takes on the stack, the innermost values' included. -/
def textFrames (style : Style) : Value → Nat
  | .list items => Host.frames (.text style .list) + textFramesEach style items
  | v => Host.frames (.text style v.kind)

/-- The most frames that one of several values takes. -/
def textFramesEach (style : Style) : List Value → Nat
  | [] => 0
  | v :: vs => max (textFrames style v) (textFramesEach style vs)

end

/-- Why a value has no text with so many frames free. -/
inductive Unwritable (style : Style) (room : Nat) (v : Value) : Fault → Prop where
  | long (h : v.HoldsLong) : Unwritable style room v .numberTooLong
  | deep (h : room < v.textFrames style) : Unwritable style room v .nestedTooDeeply

theorem textFrames_le_textFramesEach {style : Style} {v : Value} {items : List Value}
    (hv : v ∈ items) : v.textFrames style ≤ textFramesEach style items := by
  induction items with
  | nil => cases hv
  | cons item items ih =>
    rw [textFramesEach]
    rcases List.mem_cons.mp hv with rfl | hv
    · exact Nat.le_max_left _ _
    · exact Nat.le_trans (ih hv) (Nat.le_max_right _ _)

/-- A list has no text if an item has none in the list's call. -/
theorem Unwritable.of_item {style : Style} {room left : Nat} {v : Value} {items : List Value}
    {f : Fault} (h : Unwritable style left v f) (hv : v ∈ items)
    (hleft : left + Host.frames (.text style .list) = room) :
    Unwritable style room (.list items) f := by
  cases h with
  | long h => exact .long (.item hv h)
  | deep h =>
    have hitem : v.textFrames style ≤ textFramesEach style items := textFrames_le_textFramesEach hv
    refine .deep ?_
    rw [textFrames]
    omega

theorem textEachWithin_failsOnly {style : Style} {room : Nat} {items : List Value}
    (h : ∀ v ∈ items, FailsOnly (v.textWithin style room) (Unwritable style room v)) :
    FailsOnly (textEachWithin style room items) fun f =>
      ∃ v ∈ items, Unwritable style room v f := by
  induction items with
  | nil =>
    rw [textEachWithin]
    exact .ok []
  | cons item items ih =>
    rw [textEachWithin]
    apply FailsOnly.bind
    · exact (h item List.mem_cons_self).mono fun f hf => ⟨item, List.mem_cons_self, hf⟩
    intro text _
    refine FailsOnly.bind ?_ fun texts _ => .ok _
    refine (ih fun v hv => h v (List.mem_cons_of_mem item hv)).mono ?_
    rintro f ⟨v, hv, hf⟩
    exact ⟨v, List.mem_cons_of_mem item hv, hf⟩

theorem textWithin_failsOnly (style : Style) (v : Value) : ∀ room,
    FailsOnly (v.textWithin style room) (Unwritable style room v) := by
  induction v using induction_items with
  | list items ih =>
    intro room
    rw [textWithin]
    refine .inside (fun hlt => .deep (Nat.lt_of_lt_of_le hlt (Nat.le_add_right _ _))) ?_
    intro left hleft
    refine FailsOnly.bind ?_ fun texts _ => .ok _
    refine (textEachWithin_failsOnly fun v hv => ih v hv left).mono ?_
    rintro f ⟨v, hv, h⟩
    exact h.of_item hv hleft
  | other v hv =>
    intro room
    rw [textWithin]
    refine .inside (fun hlt => .deep ?_) fun left _ => ?_
    · cases v with
      | list items => exact absurd rfl (hv items)
      | _ => exact hlt
    · cases v with
      | list items => exact absurd rfl (hv items)
      | int n =>
        refine (integerText_failsOnly n).mono ?_
        rintro _ ⟨rfl, hlong⟩
        exact .long (.int hlong)
      | _ => exact .ok _

/-- Values that are printed together have no text where one has none. -/
theorem displayAllWithin_failsOnly (room : Nat) (vs : List Value) :
    FailsOnly (displayAllWithin room vs) fun f => ∃ v ∈ vs, Unwritable .display room v f :=
  (textEachWithin_failsOnly fun v _ => textWithin_failsOnly .display v room).bind
    fun _ _ => .ok _

/-- An integer with more digits than are written cannot be printed, whatever is printed
behind it. -/
theorem displayAllWithin_long {n : Int} (h : LongInt n) {room : Nat}
    (hroom : Host.frames (.text .display .int) ≤ room) (vs : List Value) :
    displayAllWithin room (.int n :: vs) = .error .numberTooLong := by
  have htext : textWithin .display room (.int n) = .error .numberTooLong := by
    rw [textWithin, kind, Host.inside_of_le hroom]
    exact integerText_of_longInt h
  rw [displayAllWithin, textEachWithin, htext]
  rfl

/-! ## Comparisons -/

theorem equalEachWithin_failsOnly {room : Nat} {as : List Value}
    (h : ∀ a ∈ as, ∀ b, FailsOnly (equalWithin room a b) (· = .nestedTooDeeply)) :
    ∀ bs, FailsOnly (equalEachWithin room as bs) (· = .nestedTooDeeply) := by
  induction as with
  | nil =>
    intro bs
    simp only [equalEachWithin]
    exact .ok true
  | cons a as ih =>
    intro bs
    cases bs with
    | nil =>
      simp only [equalEachWithin]
      exact .ok true
    | cons b bs =>
      rw [equalEachWithin]
      apply (h a List.mem_cons_self b).bind
      intro same _
      cases same with
      | true => exact ih (fun a' ha' => h a' (List.mem_cons_of_mem a ha')) bs
      | false => exact .ok false

theorem equalWithin_failsOnly (a : Value) : ∀ b room,
    FailsOnly (equalWithin room a b) (· = .nestedTooDeeply) := by
  induction a using induction_items with
  | list as ih =>
    intro b room
    unfold equalWithin
    refine .inside (fun _ => rfl) fun left _ => ?_
    cases b with
    | list bs =>
      simp only
      split
      · exact equalEachWithin_failsOnly (fun a ha b => ih a ha b left) bs
      · exact .ok _
    | _ => exact .ok _
  | other a ha =>
    intro b room
    unfold equalWithin
    refine .inside (fun _ => rfl) fun left _ => ?_
    split
    · exact .ok _
    · exact absurd rfl (ha _)
    · exact .ok _

theorem relatedWithin?_failsOnly {room : Nat} {op : RelationalOp} {left right : Value}
    {r : Except Fault Bool} (h : relatedWithin? room op left right = some r) :
    FailsOnly r (· = .nestedTooDeeply) := by
  unfold relatedWithin? at h
  split at h
  · cases h
    exact equalWithin_failsOnly _ _ room
  · cases h
    exact equalWithin_failsOnly _ _ room
  · obtain ⟨b, _, rfl⟩ := Option.map_eq_some_iff.mp h
    exact .ok b

/-- The one fault of a comparison is that the stack is full. -/
theorem compareWithin_failsOnly (room : Nat) (op : RelationalOp) (left right : Value) :
    FailsOnly (compareWithin room op left right) (Halt.IfFault (· = .nestedTooDeeply)) := by
  unfold compareWithin
  split
  · rename_i r h
    exact (relatedWithin?_failsOnly h).mapError fun f hf => hf
  · split
    · rename_i r h
      exact (relatedWithin?_failsOnly h).mapError fun f hf => hf
    · exact .error trivial

end Host

/-! ## Arithmetic -/

/-- The value is a text or a list. -/
def IsSequence : Value → Prop
  | .str _ | .list _ => True
  | _ => False

/-- A text or list stands beside the count that it is to be repeated, and the count has more
digits than are written. -/
inductive RepeatsLong : Value → Value → Prop where
  | before {v : Value} {n : Int} (hv : v.IsSequence) (hn : LongInt n) : RepeatsLong v (.int n)
  | behind {v : Value} {n : Int} (hv : v.IsSequence) (hn : LongInt n) : RepeatsLong (.int n) v

theorem numeric?_failsOnly {op : ArithmeticOp} {left right : Value} {r : Except Halt Value}
    (h : numeric? op left right = some r) : FailsOnly r (Halt.IfFault fun _ => False) := by
  unfold numeric? at h
  split at h
  · rename_i a b _ _
    cases h
    have happly : FailsOnly (a.apply op b) fun _ => True := fun _ _ => trivial
    exact happly.mapError fun _ _ => trivial
  · cases h

theorem repetitions_failsOnly [Host] (v : Value) (size : Nat) (count : Int) :
    FailsOnly (repetitions v size count)
      (Halt.IfFault fun f => f = .numberTooLong ∧ LongInt count) := by
  unfold repetitions
  split
  · split
    · exact .error trivial
    · rename_i hnone
      exact .error ⟨rfl, writeInt?_eq_none_iff.mp (by simpa using hnone)⟩
  · exact .ok _

section Host

variable [Host]

theorem repeat?_failsOnly {left right : Value} {r : Except Halt Value}
    (h : repeat? left right = some r) :
    FailsOnly r (Halt.IfFault fun f =>
      f = .numberTooLong ∧ left.IsSequence ∧ ∃ n, right = .int n ∧ LongInt n) := by
  have hcount : ∀ {v size n} {f : Nat → Value}, left.IsSequence → right = .int n →
      FailsOnly ((repetitions v size n).map f) (Halt.IfFault fun f =>
        f = .numberTooLong ∧ left.IsSequence ∧ ∃ n, right = .int n ∧ LongInt n) :=
    fun hleft hright => ((repetitions_failsOnly _ _ _).map _).monoFault fun _ hf =>
      ⟨hf.1, hleft, _, hright, hf.2⟩
  unfold repeat? at h
  split at h
  · cases h
    exact hcount trivial rfl
  · cases h
    exact hcount trivial rfl
  · cases h

/-- The one fault of arithmetic comes from a repetition. -/
theorem compute_failsOnly (op : ArithmeticOp) (left right : Value) :
    FailsOnly (compute op left right) (Halt.IfFault fun f =>
      f = .numberTooLong ∧ op = .star ∧ RepeatsLong left right) := by
  have hnumeric : ∀ {r}, numeric? op left right = some r → FailsOnly r (Halt.IfFault fun f =>
      f = .numberTooLong ∧ op = .star ∧ RepeatsLong left right) :=
    fun h => (numeric?_failsOnly h).monoFault fun _ hf => hf.elim
  have hbefore : ∀ {r}, op = .star → repeat? left right = some r →
      FailsOnly r (Halt.IfFault fun f =>
        f = .numberTooLong ∧ op = .star ∧ RepeatsLong left right) := by
    intro r hop h
    refine (repeat?_failsOnly h).monoFault ?_
    rintro _ ⟨rfl, hv, n, rfl, hn⟩
    exact ⟨rfl, hop, .before hv hn⟩
  have hbehind : ∀ {r}, op = .star → repeat? right left = some r →
      FailsOnly r (Halt.IfFault fun f =>
        f = .numberTooLong ∧ op = .star ∧ RepeatsLong left right) := by
    intro r hop h
    refine (repeat?_failsOnly h).monoFault ?_
    rintro _ ⟨rfl, hv, n, rfl, hn⟩
    exact ⟨rfl, hop, .behind hv hn⟩
  unfold compute
  split
  · rename_i r h
    unfold primary? at h
    split at h
    · cases h
      exact .ok _
    · cases h
      exact .ok _
    · exact hbefore rfl h
    · exact hbefore rfl h
    · split at h
      · exact hnumeric h
      · cases h
  · split
    · rename_i r h
      unfold reflected? at h
      split at h
      · exact hbehind rfl h
      · exact hbehind rfl h
      · exact hnumeric h
      · exact hnumeric h
      · exact hnumeric h
      · cases h
    · exact .error trivial

/-! ## Operators -/

/-- From left to right a text or list is repeated, or repeats what was computed before it, as often
as an integer with more digits than are written says. -/
def RepeatsLongIn (first : Value) (others : List Value) : Prop :=
  ∃ front acc x back, others = front ++ x :: back ∧
    front.foldlM (compute .star) first = .ok acc ∧ RepeatsLong acc x

theorem foldlM_compute_failsOnly (op : ArithmeticOp) (others : List Value) (first : Value) :
    FailsOnly (others.foldlM (compute op) first) (Halt.IfFault fun f =>
      f = .numberTooLong ∧ op = .star ∧ RepeatsLongIn first others) := by
  induction others generalizing first with
  | nil => exact .ok first
  | cons other others ih =>
    rw [List.foldlM_cons]
    apply FailsOnly.bind
    · refine (compute_failsOnly op first other).monoFault ?_
      rintro f ⟨rfl, rfl, hlong⟩
      exact ⟨rfl, rfl, [], first, other, others, rfl, rfl, hlong⟩
    · intro w hw
      refine (ih w).monoFault ?_
      rintro f ⟨rfl, rfl, front, acc, x, back, rfl, hfront, hlong⟩
      refine ⟨rfl, rfl, other :: front, acc, x, back, rfl, ?_, hlong⟩
      rw [List.foldlM_cons, hw]
      exact hfront

/-- Why an operator has a fault. -/
inductive OperatorFaults : Operator → List Value → Fault → Prop where
  | deep {op : Operator} {args : List Value} : OperatorFaults op args .nestedTooDeeply
  | long {first : Value} {others : List Value} (h : RepeatsLongIn first others) :
      OperatorFaults (.arithmetic .star) (first :: others) .numberTooLong

/-- Of the faults, an operator has the full stack, and arithmetic the long count. -/
theorem applyOperatorWithin_failsOnly (room : Nat) (op : Operator) (args : List Value) :
    FailsOnly (applyOperatorWithin room op args) (Halt.IfFault (OperatorFaults op args)) := by
  unfold applyOperatorWithin
  refine .inside (fun _ => .deep) fun left _ => ?_
  split
  · rename_i relation _
    refine FailsOnly.map (FailsOnly.bind (FailsOnly.mapM ?_) fun results _ => .ok _) _
    intro pair _
    refine (compareWithin_failsOnly left relation pair.1 pair.2).monoFault ?_
    rintro f rfl
    exact .deep
  · exact .error trivial
  · refine (foldlM_compute_failsOnly _ _ _).monoFault ?_
    rintro f ⟨rfl, rfl, hlong⟩
    exact .long hlong

end Host

end Value

end MiniLisp
