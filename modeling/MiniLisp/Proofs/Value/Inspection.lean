import MiniLisp.Proofs.Value.BareTexts
import MiniLisp.Proofs.Value.Literals

/-!
# Results tell themselves apart

The text with which a result is shown stands on one line, and for one value only
(`inspect_tells_apart`). Literals end at their closing quote, lists at their closing bracket, and
the other texts, which have none of these marks, where a comma or a bracket follows. So the text of
an item is cut from what is behind it in one way (`tellsApart`), whatever marks its literals have.
-/

namespace MiniLisp

namespace Value

/-! ## Values that programs have -/

mutual

/-- The symbols in the value are names of the language, and the native functions are those that an
environment begins with. -/
def Ordinary : Value → Prop
  | .symbol x => Lexeme.Fits .name x.toList
  | .native fn => fn ∈ Environment.natives
  | .list items => OrdinaryEach items
  | _ => True

/-- The same of several values. -/
def OrdinaryEach : List Value → Prop
  | [] => True
  | item :: items => Ordinary item ∧ OrdinaryEach items

end

/-! ## Items of a list -/

/-- The inside of a list with its closing bracket, and what follows. -/
def listed (texts : List String) (rest : List Char) : List Char :=
  (", ".intercalate texts).toList ++ ']' :: rest

theorem listed_append (texts : List String) (rest rest' : List Char) :
    listed texts rest ++ rest' = listed texts (rest ++ rest') := by
  rw [listed, listed, List.append_assoc]
  rfl

/-- What follows an item of a list: a bracket, or a comma before the next item. -/
def behindItem : List String → List Char → List Char
  | [], rest => ']' :: rest
  | text :: texts, rest => ',' :: ' ' :: listed (text :: texts) rest

theorem listed_cons (text : String) (texts : List String) (rest : List Char) :
    listed (text :: texts) rest = text.toList ++ behindItem texts rest := by
  cases texts with
  | nil => rw [listed, String.intercalate_singleton, behindItem]
  | cons other texts =>
    rw [listed, String.intercalate_cons_cons, String.toList_append, String.toList_append,
      List.append_assoc, List.append_assoc]
    rfl

theorem halts_behindItem (texts : List String) (rest : List Char) :
    Halts isBareChar (behindItem texts rest) := by
  cases texts with
  | nil => exact halts_cons (by decide) _
  | cons text texts => exact halts_cons (by decide) _

theorem listed_eq_of_behindItem {texts texts' : List String} {rest rest' : List Char}
    (h : behindItem texts rest = behindItem texts' rest') :
    listed texts rest = listed texts' rest' := by
  cases texts with
  | nil =>
    cases texts' with
    | nil => exact h
    | cons => cases h
  | cons text texts =>
    cases texts' with
    | nil => cases h
    | cons => exact (List.cons.inj (List.cons.inj h).2).2

/-! ## How texts are made -/

/-- How the text of a value is made. -/
inductive HasText : Value → List Char → Prop where
  | bare {k : TextClass} {v : Value} {cs : List Char} (h : BareText k v cs) : HasText v cs
  | str (s : String) : HasText (.str s) (Text.literal s.toList)
  | list {items : List Value} {texts : List String}
      (h : List.Forall₂ (fun v text => HasText v text.toList) items texts) :
      HasText (.list items) ('[' :: listed texts [])

/-- Values and their texts, in order. -/
abbrev HasTexts : List Value → List String → Prop :=
  List.Forall₂ fun v text => HasText v text.toList

theorem eq_toString_of_integerText {n : Int} {text : String} (h : integerText n = .ok text) :
    text = toString n := by
  unfold integerText Decimal.writeInt? at h
  split at h
  · rename_i hwrite
    split at hwrite
    · cases hwrite
      cases h
      rfl
    · cases hwrite
  · cases h

/-- The texts of a list's items are made so if each is. -/
theorem hasTexts_of_textEachWithin [Host] {room : Nat} {items : List Value} {texts : List String}
    (h : textEachWithin .inspect room items = .ok texts)
    (hitems : ∀ v ∈ items, ∀ text, v.textWithin .inspect room = .ok text →
      HasText v text.toList) : HasTexts items texts := by
  induction items generalizing texts with
  | nil =>
    rw [textEachWithin] at h
    cases h
    exact .nil
  | cons item items ih =>
    rw [textEachWithin] at h
    cases hitem : item.textWithin .inspect room with
    | error f =>
      rw [hitem] at h
      cases h
    | ok text =>
      cases heach : textEachWithin .inspect room items with
      | error f =>
        rw [hitem, heach] at h
        cases h
      | ok others =>
        rw [hitem, heach] at h
        cases h
        exact .cons (hitems item List.mem_cons_self text hitem)
          (ih heach fun v hv => hitems v (List.mem_cons_of_mem item hv))

theorem ordinaryEach_iff {items : List Value} : OrdinaryEach items ↔ ∀ v ∈ items, v.Ordinary := by
  induction items with
  | nil => simp [OrdinaryEach]
  | cons item items ih => simp [OrdinaryEach, ih]

/-- The text with which a value is shown is made so. -/
theorem hasText_of_textWithin [Host] (v : Value) : ∀ (room : Nat) (text : String), v.Ordinary →
    v.textWithin .inspect room = .ok text → HasText v text.toList := by
  induction v using induction_items with
  | list items ih =>
    intro room text hv h
    rw [textWithin] at h
    have h := Host.of_inside_eq h nofun
    cases htexts : textEachWithin .inspect (room - Host.frames (.text .inspect .list)) items with
    | error f =>
      simp only [kind, htexts] at h
      cases h
    | ok texts =>
      simp only [kind, htexts] at h
      cases h
      rw [String.toList_append, String.toList_append]
      refine .list (hasTexts_of_textEachWithin htexts fun v hmem text htext => ?_)
      exact ih v hmem _ text (ordinaryEach_iff.mp hv v hmem) htext
  | other v hlist =>
    intro room text hv h
    rw [textWithin] at h
    have h := Host.of_inside_eq h nofun
    cases v with
    | list items => exact absurd rfl (hlist items)
    | int n =>
      rw [eq_toString_of_integerText h]
      exact .bare (.int n)
    | float x =>
      cases h
      exact .bare (.float x)
    | str s =>
      cases h
      exact String.toList_ofList ▸ .str s
    | symbol x =>
      cases h
      rw [String.toList_append]
      exact .bare (.symbol hv)
    | bool b =>
      cases h
      exact .bare (.constant (by cases b <;> simp [constants]))
    | native fn =>
      cases h
      exact .bare (.constant (native_mem_constants hv))
    | special form =>
      cases h
      exact .bare (.constant (special_mem_constants form))
    | operator op =>
      cases h
      exact .bare (.constant (operator_mem_constants op))
    | null =>
      cases h
      exact .bare (.constant (by simp [constants]))

/-! ## Where a text ends -/

theorem Bare.append_ne {cs : List Char} (h : Bare cs) {c : Char} (hc : isBareChar c = false)
    (rest ds : List Char) : cs ++ rest ≠ c :: ds := by
  obtain ⟨d, es, rfl⟩ := List.exists_cons_of_ne_nil h.1
  intro heq
  obtain rfl : d = c := (List.cons.inj heq).1
  rw [h.2 d List.mem_cons_self] at hc
  cases hc

/-- No text begins with the bracket that ends a list. -/
theorem HasText.append_ne {v : Value} {cs : List Char} (h : HasText v cs) (rest ds : List Char) :
    cs ++ rest ≠ ']' :: ds := by
  cases h with
  | bare h => exact h.bare.append_ne (by decide) rest ds
  | str s => exact fun heq => absurd (List.cons.inj heq).1 (by decide)
  | list h => exact fun heq => absurd (List.cons.inj heq).1 (by decide)

/-- The text of the value shows where it ends and which value it stands for, in front of a bracket,
of a comma or of nothing. -/
def TellsApart (v : Value) (cs : List Char) : Prop :=
  ∀ w ds rest rest', HasText w ds → Halts isBareChar rest → Halts isBareChar rest' →
    cs ++ rest = ds ++ rest' → v = w ∧ rest = rest'

mutual

theorem HasText.tellsApart : ∀ {v : Value} {cs : List Char}, HasText v cs → TellsApart v cs
  | _, _, .bare hv => by
    intro w ds rest rest' hw hrest hrest' heq
    cases hw with
    | bare hw =>
      obtain ⟨rfl, hsame⟩ := append_inj_of_halts hv.bare.2 hw.bare.2 hrest hrest' heq
      exact ⟨hv.unique hw, hsame⟩
    | str t => exact absurd heq (hv.bare.append_ne (by decide) _ _)
    | list => exact absurd heq (hv.bare.append_ne (by decide) _ _)
  | _, _, .str s => by
    intro w ds rest rest' hw hrest hrest' heq
    cases hw with
    | bare hw => exact absurd heq.symm (hw.bare.append_ne (by decide) _ _)
    | str t =>
      obtain ⟨hsame, hrest⟩ := Text.literal_append_inj heq
      rw [String.toList_inj.mp hsame]
      exact ⟨rfl, hrest⟩
    | list => exact absurd (List.cons.inj heq).1 (by decide)
  | _, _, .list htexts => by
    intro w ds rest rest' hw hrest hrest' heq
    cases hw with
    | bare hw => exact absurd heq.symm (hw.bare.append_ne (by decide) _ _)
    | str t => exact absurd (List.cons.inj heq).1 (by decide)
    | list htexts' =>
      have htail : listed _ [] ++ rest = listed _ [] ++ rest' := (List.cons.inj heq).2
      rw [listed_append, listed_append] at htail
      obtain ⟨rfl, hsame⟩ := listed_inj htexts htexts' htail
      exact ⟨rfl, hsame⟩

/-- The items of a list are cut one by one. -/
theorem listed_inj : ∀ {vs ws : List Value} {texts texts' : List String} {rest rest' : List Char},
    List.Forall₂ (fun v text => HasText v text.toList) vs texts → HasTexts ws texts' →
      listed texts rest = listed texts' rest' → vs = ws ∧ rest = rest'
  | _, _, _, _, _, _, .nil, .nil, heq => ⟨rfl, (List.cons.inj heq).2⟩
  | _, _, _, _, _, _, .nil, .cons hw _, heq => by
    rw [listed_cons] at heq
    exact absurd heq.symm (hw.append_ne _ _)
  | _, _, _, _, _, _, .cons hv _, .nil, heq => by
    rw [listed_cons] at heq
    exact absurd heq (hv.append_ne _ _)
  | _, _, _, _, _, _, .cons hv hvs, .cons hw hws, heq => by
    rw [listed_cons, listed_cons] at heq
    obtain ⟨rfl, hbehind⟩ :=
      hv.tellsApart _ _ _ _ hw (halts_behindItem _ _) (halts_behindItem _ _) heq
    obtain ⟨rfl, hrest⟩ := listed_inj hvs hws (listed_eq_of_behindItem hbehind)
    exact ⟨rfl, hrest⟩

end

/-! ## Characters -/

theorem listed_printed {texts : List String} {rest : List Char}
    (h : ∀ text ∈ texts, ∀ c ∈ text.toList, 0x20 ≤ c.toNat) (hrest : ∀ c ∈ rest, 0x20 ≤ c.toNat) :
    ∀ c ∈ listed texts rest, 0x20 ≤ c.toNat := by
  have hclosed : ∀ c ∈ ']' :: rest, 0x20 ≤ c.toNat := List.forall_mem_cons.mpr ⟨by simp, hrest⟩
  induction texts with
  | nil => exact hclosed
  | cons text texts ih =>
    obtain ⟨htext, hothers⟩ := List.forall_mem_cons.mp h
    rw [listed_cons]
    refine List.forall_mem_append.mpr ⟨htext, ?_⟩
    cases texts with
    | nil => exact hclosed
    | cons other texts =>
      exact List.forall_mem_cons.mpr
        ⟨by simp, List.forall_mem_cons.mpr ⟨by simp, ih hothers⟩⟩

mutual

/-- Control characters occur in literals alone, where they are escaped. -/
theorem HasText.printed : ∀ {v : Value} {cs : List Char}, HasText v cs →
    ∀ c ∈ cs, 0x20 ≤ c.toNat
  | _, _, .bare h => by
    intro c hc
    have hbare := h.bare.2 c hc
    simp only [isBareChar, Bool.and_eq_true, decide_eq_true_eq] at hbare
    exact hbare.1
  | _, _, .str s => Text.literal_printed s.toList
  | _, _, .list h =>
    List.forall_mem_cons.mpr ⟨by simp, listed_printed (texts_printed h) (List.forall_mem_nil _)⟩

theorem texts_printed : ∀ {items : List Value} {texts : List String},
    List.Forall₂ (fun v text => HasText v text.toList) items texts →
      ∀ text ∈ texts, ∀ c ∈ text.toList, 0x20 ≤ c.toNat
  | _, _, .nil => List.forall_mem_nil _
  | _, _, .cons h hs => List.forall_mem_cons.mpr ⟨h.printed, texts_printed hs⟩

end

/-- The text with which a value is shown has no character below the space, so it is on one line.
Values with the same text are the same. -/
theorem inspect_tells_apart [Host] {v w : Value} (hv : v.Ordinary) (hw : w.Ordinary) :
    (∀ text, v.inspect = .ok text → ∀ c ∈ text.toList, 0x20 ≤ c.toNat) ∧
      ∀ text, v.inspect = .ok text → w.inspect = .ok text → v = w := by
  constructor
  · intro text htext
    exact (hasText_of_textWithin v _ text hv htext).printed
  · intro text htext htext'
    have hshows := hasText_of_textWithin v _ text hv htext
    have hshows' := hasText_of_textWithin w _ text hw htext'
    exact (hshows.tellsApart _ _ [] [] hshows' (halts_nil _) (halts_nil _) rfl).1

/-- A literal that looks like the end of a list, an operator that the text of a function begins
with, and a float. -/
def marks (x : Float) : Value :=
  .list [.str "],\n\"", .operator (.relational .less), .native .print, .symbol "x", .float x]

theorem inspect_marks {x : Float} (hx : valueFloats.write x = "nan") :
    (marks x).inspect = .ok "[\"],\\n\\\"\", <, <function print>, 'x, nan]" := by
  rw [marks, inspect]
  simp only [textWithin, textEachWithin, hx]
  rfl

/-- A float that is undefined is the same whatever it comes from. -/
theorem inspect_tells_apart_marks : ∃ v w : Value,
    v = marks (0.0 / 0.0) ∧ w = marks (1.0 / 0.0 - 1.0 / 0.0) ∧ v.Ordinary ∧ w.Ordinary ∧
    (∃ text, v.inspect = .ok text ∧ w.inspect = .ok text ∧ ∀ c ∈ text.toList, 0x20 ≤ c.toNat) ∧
    v = w := by
  have hordinary : ∀ x, (marks x).Ordinary := by
    have hname : Lexeme.Fits .name "x".toList := by
      rw [show "x".toList = ['x'] from rfl]
      exact .name (.inl rfl) (List.forall_mem_nil _)
    have hnative : Ordinary (.native .print) := by simp [Ordinary, Environment.natives]
    exact fun x => ⟨trivial, trivial, hnative, hname, trivial, trivial⟩
  have htext := inspect_marks (x := 0.0 / 0.0) (by decide +kernel)
  have htext' := inspect_marks (x := 1.0 / 0.0 - 1.0 / 0.0) (by decide +kernel)
  obtain ⟨hprinted, hsame⟩ :=
    inspect_tells_apart (hordinary (0.0 / 0.0)) (hordinary (1.0 / 0.0 - 1.0 / 0.0))
  exact ⟨_, _, rfl, rfl, hordinary _, hordinary _, ⟨_, htext, htext', hprinted _ htext⟩,
    hsame _ htext htext'⟩

end Value

end MiniLisp
