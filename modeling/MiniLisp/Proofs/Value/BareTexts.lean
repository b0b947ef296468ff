import MiniLisp.Environment
import MiniLisp.Proofs.Decimal.FloatNotation
import MiniLisp.Proofs.RoundTrip

/-!
# Texts without quotes and brackets

Values that are neither texts nor lists are shown without double quotes, brackets and commas. Their
texts are of four classes: symbols have an apostrophe in front, integers are digits behind a sign,
floats are other texts that begin as numbers do, and the rest are written in one way each. The class
can be read off the text (`BareText.class_eq`), and within a class the text shows the value
(`BareText.unique`).
-/

namespace MiniLisp

namespace Value

/-! ## Classes of texts -/

/-- The character is printed, and begins or ends no literal and no list. -/
def isBareChar (c : Char) : Bool := 0x20 ≤ c.toNat && c ∉ ['"', '[', ',', ']']

/-- Every operator, once. -/
def operators : List Operator :=
  [.arithmetic .plus, .arithmetic .minus, .arithmetic .star, .arithmetic .slash,
    .relational .equal, .relational .greater, .relational .less]

/-- The values that are written in one way each, with what they are written as. -/
def constants : List (Value × String) :=
  [(.bool true, "true"), (.bool false, "false"), (.null, "null")] ++
    Environment.natives.map (fun fn => (.native fn, "<function " ++ fn.name ++ ">")) ++
    SpecialForm.all.map (fun form => (.special form, "<special form " ++ form.name ++ ">")) ++
    operators.map fun op => (.operator op, op.symbol)

/-- What a text without quotes and brackets stands for. -/
inductive TextClass where
  | symbol | int | float | constant
deriving DecidableEq

/-- Whether a text without a sign is that of a number. -/
def isNumberText (cs : List Char) : Bool :=
  cs.head?.any Char.isDigit || cs == ['i', 'n', 'f'] || cs == ['n', 'a', 'n']

/-- Symbols have an apostrophe in front, numbers begin with a digit or are one of two words, and
integers are digits only. -/
def textClass (cs : List Char) : TextClass :=
  if cs.head? = some '\'' then .symbol
  else if isNumberText (Decimal.unsigned cs) then
    if (Decimal.unsigned cs).all Char.isDigit then .int else .float
  else .constant

/-- The texts of values that are neither texts nor lists, by their classes. -/
inductive BareText : TextClass → Value → List Char → Prop where
  | symbol {x : String} (hx : Lexeme.Fits .name x.toList) :
      BareText .symbol (.symbol x) ('\'' :: x.toList)
  | int (n : Int) : BareText .int (.int n) (toString n).toList
  | float (x : Float) : BareText .float (.float x) (valueFloats.write x).toList
  | constant {v : Value} {text : String} (h : (v, text) ∈ constants) :
      BareText .constant v text.toList

theorem native_mem_constants {fn : Native} (h : fn ∈ Environment.natives) :
    (.native fn, "<function " ++ fn.name ++ ">") ∈ constants :=
  List.mem_append_left _ (List.mem_append_left _
    (List.mem_append_right _ (List.mem_map_of_mem h)))

theorem special_mem_constants (form : SpecialForm) :
    (.special form, "<special form " ++ form.name ++ ">") ∈ constants := by
  have hall : form ∈ SpecialForm.all := by cases form <;> decide
  exact List.mem_append_left _ (List.mem_append_right _ (List.mem_map_of_mem hall))

theorem operator_mem_constants (op : Operator) : (.operator op, op.symbol) ∈ constants := by
  refine List.mem_append_right _ (List.mem_map_of_mem ?_)
  rcases op with op | op <;> cases op <;> decide

theorem constants_spec : ∀ p ∈ constants, p.2.toList ≠ [] ∧
    p.2.toList.all isBareChar = true ∧ textClass p.2.toList = .constant := by
  decide +kernel

theorem constants_nodup : (constants.map Prod.snd).Nodup := by decide +kernel

/-! ## Characters and classes -/

/-- The characters of names are printed, and are no marks. -/
theorem isBareChar_of_word {c : Char} (h : c.isAlphanum = true ∨ c = '_') :
    isBareChar c = true := by
  by_contra hnot
  simp only [isBareChar, Bool.and_eq_true, decide_eq_true_eq, not_and_or, not_not,
    Nat.not_le] at hnot
  rcases hnot with hcontrol | hmark
  · have hnone : ∀ n : Fin 0x20, ¬ ((Char.ofNat n).isAlphanum = true ∨ Char.ofNat n = '_') := by
      decide +kernel
    exact hnone ⟨c.toNat, hcontrol⟩ (by rwa [Char.ofNat_toNat])
  · simp only [List.mem_cons, List.not_mem_nil, or_false] at hmark
    rcases hmark with rfl | rfl | rfl | rfl <;> revert h <;> decide

theorem isBareChar_of_isDigit {c : Char} (h : c.isDigit = true) : isBareChar c = true :=
  isBareChar_of_word (.inl (by rw [Char.isAlphanum, h, Bool.or_true]))

theorem isBareChar_of_floatChar {c : Char} (h : Decimal.FloatChar c) : isBareChar c = true := by
  rcases h with h | h
  · exact isBareChar_of_isDigit h
  · have hmarks : ['.', 'e', '+', '-'].all isBareChar = true := by decide +kernel
    exact List.all_eq_true.mp hmarks c h

/-- The class of a number is seen of its text without the sign. -/
theorem textClass_of_number {cs ds : List Char} (hhead : cs.head? ≠ some '\'')
    (hunsigned : Decimal.unsigned cs = ds) (hnumber : isNumberText ds = true) :
    textClass cs = if ds.all Char.isDigit then .int else .float := by
  unfold textClass
  rw [if_neg hhead, hunsigned, if_pos hnumber]

/-- What begins with a digit is a number, with a minus sign in front or without one. -/
theorem textClass_digit {d : Char} (hd : d.isDigit = true) (ds : List Char) :
    textClass (d :: ds) = (if (d :: ds).all Char.isDigit then .int else .float) ∧
      textClass ('-' :: d :: ds) = if (d :: ds).all Char.isDigit then .int else .float := by
  have hnumber : isNumberText (d :: ds) = true := by simp [isNumberText, hd]
  have hhead : (d :: ds).head? ≠ some '\'' := by
    rintro ⟨⟩
    cases hd
  exact ⟨textClass_of_number hhead (Decimal.unsigned_digits hd ds) hnumber,
    textClass_of_number (by simp) rfl hnumber⟩

theorem textClass_int (n : Int) : textClass (toString n).toList = .int := by
  have hdigits := Decimal.isDigit_toDigits n.natAbs
  obtain ⟨d, ds, hds⟩ := List.exists_cons_of_ne_nil
    (Nat.toDigits_ne_nil (n := n.natAbs) (b := 10))
  rw [hds] at hdigits
  obtain ⟨hplus, hminus⟩ := textClass_digit (hdigits d List.mem_cons_self) ds
  rw [if_pos (List.all_eq_true.mpr hdigits)] at hplus hminus
  rcases toList_toString_int n with ⟨htext, _⟩ | ⟨htext, _⟩
  · rw [htext, hds, hplus]
  · rw [htext, hds, hminus]

theorem textClass_floatText {cs : List Char} (h : Decimal.FloatText cs) :
    textClass cs = .float ∧ textClass ('-' :: cs) = .float := by
  cases h with
  | notANumber => decide
  | infinity => decide
  | finite h =>
    obtain @⟨d, ds, hd, _, hmark⟩ := h
    obtain ⟨c, hc, hmark⟩ := hmark
    have hnot : ¬ (d :: ds).all Char.isDigit = true := by
      intro hall
      rw [List.all_eq_true.mp hall c (List.mem_cons_of_mem d hc)] at hmark
      cases hmark
    have hclasses := textClass_digit hd ds
    rwa [if_neg hnot] at hclasses

theorem textClass_float (x : Float) : textClass (valueFloats.write x).toList = .float := by
  obtain ⟨hplus, hminus⟩ := textClass_floatText (Decimal.floatText_magnitude x)
  rw [Decimal.toList_write]
  split
  · exact hminus
  · exact hplus

/-! ## One text, one value -/

section BareText

variable {k k' : TextClass} {v w : Value} {cs : List Char}

theorem BareText.class_eq (h : BareText k v cs) : textClass cs = k := by
  cases h with
  | symbol => exact if_pos rfl
  | int n => exact textClass_int n
  | float x => exact textClass_float x
  | constant hv => exact (constants_spec _ hv).2.2

theorem BareText.unique (h : BareText k v cs) (h' : BareText k' w cs) : v = w := by
  obtain rfl : k = k' := h.class_eq.symm.trans h'.class_eq
  generalize hcs : cs = ds at h'
  cases h with
  | symbol =>
    cases h' with
    | symbol => rw [String.toList_inj.mp (List.cons.inj hcs).2]
  | int m =>
    cases h' with
    | int n => rw [Int.repr_injective (String.toList_inj.mp hcs)]
  | float x =>
    cases h' with
    | float y => rw [Decimal.write_injective (String.toList_inj.mp hcs)]
  | constant hv =>
    cases h' with
    | constant hw =>
      have hsame := List.inj_on_of_nodup_map constants_nodup hv hw (String.toList_inj.mp hcs)
      exact congrArg Prod.fst hsame

/-- There are characters, and all of them stand in such texts. -/
def Bare (cs : List Char) : Prop := cs ≠ [] ∧ ∀ c ∈ cs, isBareChar c = true

theorem bare_cons {c : Char} (hc : isBareChar c = true) (hcs : ∀ d ∈ cs, isBareChar d = true) :
    Bare (c :: cs) :=
  ⟨by simp, List.forall_mem_cons.mpr ⟨hc, hcs⟩⟩

theorem Bare.minus (h : Bare cs) : Bare ('-' :: cs) := bare_cons (by decide) h.2

theorem bare_toDigits (n : Nat) : Bare (Nat.toDigits 10 n) :=
  ⟨Nat.toDigits_ne_nil, fun c hc => isBareChar_of_isDigit (Decimal.isDigit_toDigits n c hc)⟩

theorem bare_of_floatText (h : Decimal.FloatText cs) : Bare cs := by
  cases h with
  | notANumber => exact ⟨by simp, List.all_eq_true.mp (by decide)⟩
  | infinity => exact ⟨by simp, List.all_eq_true.mp (by decide)⟩
  | finite h =>
    obtain ⟨hd, hds, _⟩ := h
    exact bare_cons (isBareChar_of_isDigit hd) fun c hc => isBareChar_of_floatChar (hds c hc)

theorem BareText.bare (h : BareText k v cs) : Bare cs := by
  cases h with
  | symbol hx =>
    exact bare_cons (by decide) fun c hc =>
      isBareChar_of_word (Lexeme.isNameChar_iff.mp (hx.isNameChar c hc))
  | int n =>
    rcases toList_toString_int n with ⟨htext, _⟩ | ⟨htext, _⟩
    · exact htext ▸ bare_toDigits _
    · exact htext ▸ (bare_toDigits _).minus
  | float x =>
    have hbare := bare_of_floatText (Decimal.floatText_magnitude x)
    rw [Decimal.toList_write]
    split
    · exact hbare.minus
    · exact hbare
  | constant hv =>
    obtain ⟨hne, hchars, _⟩ := constants_spec _ hv
    exact ⟨hne, List.all_eq_true.mp hchars⟩

end BareText

end Value

end MiniLisp
