import MiniLisp.Proofs.Decimal.FloatRoundTrip
import MiniLisp.Value.Text

/-!
# The texts of floats tell them apart

A layout writes the same digits and the same power of ten, with an exponent or without one. Which
of the two it is can be seen, and both notations show the digits and the power, so the text of a
value that is a float stands for that float alone (`write_injective`).
-/

namespace MiniLisp.Decimal

open Float.Model Float.Model.UnpackedFloat

/-! ## Digits and a power of ten -/

/-- Every layout writes a finite float with the same digits and the same power of ten. -/
theorem exists_digits {x : Float} (hx : x.isFinite = true) :
    ∃ ds power, ds ≠ [] ∧ (∀ c ∈ ds, c.isDigit = true) ∧
      ∀ layout : FloatLayout, layout.positional 0 = true →
        layout.magnitude x.toModel.unpack =
          if layout.positional power then positional ds power else withExponent ds power := by
  have hfinite : x.toModel.unpack.isFinite = true := hx
  cases hu : x.toModel.unpack with
  | infinity s => simp [hu, UnpackedFloat.isFinite] at hfinite
  | notANumber => simp [hu, UnpackedFloat.isFinite] at hfinite
  | zero s =>
    refine ⟨['0'], 0, by simp, isDigit_replicate_zero 1, fun layout hlayout => ?_⟩
    rw [if_pos hlayout]
    rfl
  | finite s m e hm =>
    obtain ⟨hb, hmax⟩ := canonical_of_unpack hu
    obtain ⟨hne, hds, _⟩ := spread_spec (Binary.shortest_digits_pos hb hmax)
    exact ⟨_, _, hne, hds, fun _ _ => rfl⟩

/-! ## The notation with an exponent -/

section Exponent

variable {ds ds' : List Char} {power power' : Int}

/-- The digits with a point behind the first of several. -/
def mantissa (ds : List Char) : List Char :=
  ds.take 1 ++ if ds.length ≤ 1 then [] else '.' :: ds.drop 1

/-- The digits of an exponent, of which there are two at least. -/
def exponentDigits (power : Int) : List Char :=
  List.replicate (2 - (Nat.toDigits 10 power.natAbs).length) '0' ++ Nat.toDigits 10 power.natAbs

theorem withExponent_eq (ds : List Char) (power : Int) :
    withExponent ds power =
      mantissa ds ++ 'e' :: (if power < 0 then '-' else '+') :: exponentDigits power := by
  simp [withExponent, mantissa, exponentDigits]

theorem mem_mantissa (hds : ∀ c ∈ ds, c.isDigit = true) :
    ∀ c ∈ mantissa ds, c.isDigit = true ∨ c = '.' := by
  intro c hc
  unfold mantissa at hc
  rcases List.mem_append.mp hc with hc | hc
  · exact .inl (hds c (List.mem_of_mem_take hc))
  · split at hc
    · cases hc
    · rcases List.mem_cons.mp hc with rfl | hc
      · exact .inr rfl
      · exact .inl (hds c (List.mem_of_mem_drop hc))

theorem isDigit_exponentDigits (power : Int) : ∀ c ∈ exponentDigits power, c.isDigit = true :=
  List.forall_mem_append.mpr ⟨isDigit_replicate_zero _, isDigit_toDigits _⟩

/-- Without its point, a mantissa is the digits that it was made of. -/
theorem filter_mantissa (hds : ∀ c ∈ ds, c.isDigit = true) :
    (mantissa ds).filter (· ≠ '.') = ds := by
  have hkept : ∀ c ∈ ds, decide (c ≠ '.') = true := by
    intro c hc
    refine decide_eq_true fun h => ?_
    have hdigit := hds c hc
    rw [h] at hdigit
    cases hdigit
  have htake : (ds.take 1).filter (· ≠ '.') = ds.take 1 :=
    List.filter_eq_self.mpr fun c hc => hkept c (List.mem_of_mem_take hc)
  have hdrop : (ds.drop 1).filter (· ≠ '.') = ds.drop 1 :=
    List.filter_eq_self.mpr fun c hc => hkept c (List.mem_of_mem_drop hc)
  unfold mantissa
  split
  · rename_i hshort
    rw [List.append_nil, htake, List.take_of_length_le hshort]
  · rw [List.filter_append, htake, List.filter_cons_of_neg (by simp), hdrop,
      List.take_append_drop]

theorem ofDigits_exponentDigits (power : Int) : ofDigits (exponentDigits power) = power.natAbs := by
  rw [exponentDigits, ofDigits_zeros_append, ofDigits_eq, Nat.ofDigitChars_ten_toDigits]

/-- A text with an exponent shows the digits and the power that it was made of. -/
theorem withExponent_inj (hds : ∀ c ∈ ds, c.isDigit = true) (hds' : ∀ c ∈ ds', c.isDigit = true)
    (h : withExponent ds power = withExponent ds' power') : ds = ds' ∧ power = power' := by
  have hrun : ∀ {ds : List Char}, (∀ c ∈ ds, c.isDigit = true) →
      ∀ c ∈ mantissa ds, decide (c ≠ 'e') = true := by
    intro ds hds c hc
    refine decide_eq_true fun he => ?_
    rcases mem_mantissa hds c hc with hdigit | hpoint
    · rw [he] at hdigit
      cases hdigit
    · exact absurd (he.symm.trans hpoint) (by decide)
  have hhalts : ∀ cs, Halts (fun c => decide (c ≠ 'e')) ('e' :: cs) := halts_cons (by decide)
  rw [withExponent_eq, withExponent_eq] at h
  obtain ⟨hfront, hback⟩ := append_inj_of_halts (hrun hds) (hrun hds') (hhalts _) (hhalts _) h
  have hdigits : ds = ds' := by
    rw [← filter_mantissa hds, ← filter_mantissa hds', hfront]
  obtain ⟨hsign, hexponent⟩ := List.cons.inj (List.cons.inj hback).2
  have hmagnitude : power.natAbs = power'.natAbs := by
    rw [← ofDigits_exponentDigits power, ← ofDigits_exponentDigits power', hexponent]
  refine ⟨hdigits, ?_⟩
  by_cases hneg : power < 0
  · by_cases hneg' : power' < 0
    · omega
    · rw [if_pos hneg, if_neg hneg'] at hsign
      exact absurd hsign (by decide)
  · by_cases hneg' : power' < 0
    · rw [if_neg hneg, if_pos hneg'] at hsign
      exact absurd hsign (by decide)
    · omega

end Exponent

/-! ## The characters of a text -/

/-- The character stands in the texts of finite floats. -/
def FloatChar (c : Char) : Prop := c.isDigit = true ∨ c ∈ ['.', 'e', '+', '-']

/-- A digit, and digits with marks among them behind it. -/
inductive FiniteText : List Char → Prop where
  | cons {d : Char} {cs : List Char} (hd : d.isDigit = true) (hcs : ∀ c ∈ cs, FloatChar c)
      (hmark : ∃ c ∈ cs, c.isDigit = false) : FiniteText (d :: cs)

/-- The texts of floats without their signs. -/
inductive FloatText : List Char → Prop where
  | notANumber : FloatText ['n', 'a', 'n']
  | infinity : FloatText ['i', 'n', 'f']
  | finite {cs : List Char} (h : FiniteText cs) : FloatText cs

theorem finiteText_of_mark {front back : List Char} {mark : Char}
    (hhead : ∃ d ds, front = d :: ds ∧ d.isDigit = true) (hfront : ∀ c ∈ front, FloatChar c)
    (hmark : mark ∈ ['.', 'e']) (hback : ∀ c ∈ back, FloatChar c) :
    FiniteText (front ++ mark :: back) := by
  obtain ⟨d, ds, rfl, hd⟩ := hhead
  have hsign : FloatChar mark ∧ mark.isDigit = false := by
    simp only [List.mem_cons, List.not_mem_nil, or_false] at hmark
    rcases hmark with rfl | rfl <;> exact ⟨.inr (by decide), by decide⟩
  refine .cons hd ?_ ⟨mark, by simp, hsign.2⟩
  refine List.forall_mem_append.mpr ⟨fun c hc => hfront c (List.mem_cons_of_mem d hc), ?_⟩
  exact List.forall_mem_cons.mpr ⟨hsign.1, hback⟩

section Digits

variable {ds : List Char}

theorem finiteText_positional (hne : ds ≠ []) (hds : ∀ c ∈ ds, c.isDigit = true) (power : Int) :
    FiniteText (positional ds power) := by
  obtain ⟨whole, fraction, htext, ⟨hwhole, hdigits⟩, ⟨_, hfraction⟩, _⟩ :=
    positional_spec hne hds power
  rw [htext]
  obtain ⟨d, rest, rfl⟩ := List.exists_cons_of_ne_nil hwhole
  exact finiteText_of_mark ⟨d, rest, rfl, hdigits d List.mem_cons_self⟩
    (fun c hc => .inl (hdigits c hc)) (by decide) fun c hc => .inl (hfraction c hc)

theorem finiteText_withExponent (hne : ds ≠ []) (hds : ∀ c ∈ ds, c.isDigit = true) (power : Int) :
    FiniteText (withExponent ds power) := by
  rw [withExponent_eq]
  refine finiteText_of_mark ?_ ?_ (by decide) (List.forall_mem_cons.mpr ⟨?_, ?_⟩)
  · obtain ⟨d, rest, rfl⟩ := List.exists_cons_of_ne_nil hne
    exact ⟨d, _, rfl, hds d List.mem_cons_self⟩
  · intro c hc
    rcases mem_mantissa hds c hc with hdigit | rfl
    · exact .inl hdigit
    · exact .inr (by decide)
  · split <;> exact .inr (by decide)
  · exact fun c hc => .inl (isDigit_exponentDigits power c hc)

/-- A text without an exponent is none with one. -/
theorem positional_ne_withExponent {ds' : List Char} (hne : ds ≠ [])
    (hds : ∀ c ∈ ds, c.isDigit = true) (power power' : Int) :
    positional ds power ≠ withExponent ds' power' := by
  intro h
  obtain ⟨whole, fraction, htext, ⟨_, hwhole⟩, ⟨_, hfraction⟩, _⟩ := positional_spec hne hds power
  have hmem : 'e' ∈ whole ++ '.' :: fraction := by
    rw [← htext, h, withExponent_eq]
    simp
  rcases List.mem_append.mp hmem with hmem | hmem
  · exact absurd (hwhole 'e' hmem) (by decide)
  · rcases List.mem_cons.mp hmem with heq | hmem
    · exact absurd heq (by decide)
    · exact absurd (hfraction 'e' hmem) (by decide)

end Digits

theorem finiteText_magnitude {x : Float} (hx : x.isFinite = true) :
    FiniteText (valueFloats.magnitude x.toModel.unpack) := by
  obtain ⟨ds, power, hne, hds, htext⟩ := exists_digits hx
  rw [htext valueFloats rfl]
  split
  · exact finiteText_positional hne hds power
  · exact finiteText_withExponent hne hds power

/-- A float that is not finite is infinite or undefined. -/
theorem magnitude_of_not_isFinite {x : Float} (hx : ¬ x.isFinite = true) :
    x.toModel.unpack = .notANumber ∧
        valueFloats.magnitude x.toModel.unpack = ['n', 'a', 'n'] ∨
      ∃ s, x.toModel.unpack = .infinity s ∧
        valueFloats.magnitude x.toModel.unpack = ['i', 'n', 'f'] := by
  have hnot : ¬ x.toModel.unpack.isFinite = true := hx
  cases hu : x.toModel.unpack with
  | notANumber => exact .inl ⟨rfl, rfl⟩
  | infinity s => exact .inr ⟨s, rfl, rfl⟩
  | zero s => exact absurd (by rw [hu]; rfl) hnot
  | finite s m e hm => exact absurd (by rw [hu]; rfl) hnot

theorem floatText_magnitude (x : Float) : FloatText (valueFloats.magnitude x.toModel.unpack) := by
  by_cases hx : x.isFinite = true
  · exact .finite (finiteText_magnitude hx)
  · rcases magnitude_of_not_isFinite hx with ⟨_, htext⟩ | ⟨_, _, htext⟩
    · exact htext ▸ .notANumber
    · exact htext ▸ .infinity

theorem FloatText.ne_minus {cs : List Char} (h : FloatText cs) : ∀ ds, cs ≠ '-' :: ds := by
  intro ds heq
  cases h with
  | notANumber => cases heq
  | infinity => cases heq
  | finite h =>
    obtain ⟨hd⟩ := h
    cases heq
    cases hd

/-! ## The float of a text -/

theorem toList_write (layout : FloatLayout) (x : Float) :
    (layout.write x).toList = if FloatLayout.hasMinus x.toModel.unpack then
      '-' :: layout.magnitude x.toModel.unpack else layout.magnitude x.toModel.unpack :=
  String.toList_ofList

/-- The text shows whether there is a minus sign, and what follows it. -/
theorem magnitude_eq_of_write {x y : Float} (h : valueFloats.write x = valueFloats.write y) :
    FloatLayout.hasMinus x.toModel.unpack = FloatLayout.hasMinus y.toModel.unpack ∧
      valueFloats.magnitude x.toModel.unpack = valueFloats.magnitude y.toModel.unpack := by
  have htext := congrArg String.toList h
  rw [toList_write, toList_write] at htext
  have hx := (floatText_magnitude x).ne_minus
  have hy := (floatText_magnitude y).ne_minus
  cases hminus : FloatLayout.hasMinus x.toModel.unpack <;>
    cases hminus' : FloatLayout.hasMinus y.toModel.unpack <;>
    rw [hminus, hminus'] at htext
  · exact ⟨rfl, htext⟩
  · exact absurd htext (hx _)
  · exact absurd htext.symm (hy _)
  · exact ⟨rfl, (List.cons.inj htext).2⟩

/-- Finite floats that are shown alike are written alike in a program. -/
theorem source_magnitude_eq {x y : Float} (hx : x.isFinite = true) (hy : y.isFinite = true)
    (h : valueFloats.magnitude x.toModel.unpack = valueFloats.magnitude y.toModel.unpack) :
    sourceFloats.magnitude x.toModel.unpack = sourceFloats.magnitude y.toModel.unpack := by
  obtain ⟨ds, power, hne, hds, htext⟩ := exists_digits hx
  obtain ⟨ds', power', hne', hds', htext'⟩ := exists_digits hy
  rw [htext sourceFloats rfl, htext' sourceFloats rfl]
  rw [htext valueFloats rfl, htext' valueFloats rfl] at h
  show positional ds power = positional ds' power'
  split at h <;> split at h
  · exact h
  · exact absurd h (positional_ne_withExponent hne hds power power')
  · exact absurd h.symm (positional_ne_withExponent hne' hds' power' power)
  · obtain ⟨rfl, rfl⟩ := withExponent_inj hds hds' h
    rfl

theorem eq_of_unpack_eq {x y : Float} (h : x.toModel.unpack = y.toModel.unpack) : x = y := by
  have hpack := congrArg Float.Model.pack h
  rw [pack_unpack, pack_unpack] at hpack
  exact congrArg Float.ofModel hpack

theorem isFinite_of_magnitude_eq {x y : Float} (hy : y.isFinite = true)
    (h : valueFloats.magnitude x.toModel.unpack = valueFloats.magnitude y.toModel.unpack) :
    x.isFinite = true := by
  have htext := h ▸ finiteText_magnitude hy
  by_contra hx
  rcases magnitude_of_not_isFinite hx with ⟨_, hletters⟩ | ⟨_, _, hletters⟩
  · rw [hletters] at htext
    obtain ⟨hd⟩ := htext
    cases hd
  · rw [hletters] at htext
    obtain ⟨hd⟩ := htext
    cases hd

/-- Floats with the same text are the same; all that are undefined are one float. -/
theorem write_injective {x y : Float} (h : valueFloats.write x = valueFloats.write y) : x = y := by
  obtain ⟨hminus, hmagnitude⟩ := magnitude_eq_of_write h
  by_cases hx : x.isFinite = true
  · have hy : y.isFinite = true := isFinite_of_magnitude_eq hx hmagnitude.symm
    have hsource : sourceFloats.write x = sourceFloats.write y := by
      rw [FloatLayout.write, FloatLayout.write, hminus, source_magnitude_eq hx hy hmagnitude]
    rw [← (write_spec hx).2, hsource, (write_spec hy).2]
  · have hy : ¬ y.isFinite = true := fun hy => hx (isFinite_of_magnitude_eq hy hmagnitude)
    apply eq_of_unpack_eq
    rcases magnitude_of_not_isFinite hx with ⟨hu, htext⟩ | ⟨s, hu, htext⟩ <;>
      rcases magnitude_of_not_isFinite hy with ⟨hu', htext'⟩ | ⟨s', hu', htext'⟩
    · rw [hu, hu']
    · exact absurd (htext.symm.trans (hmagnitude.trans htext')) (by decide)
    · exact absurd (htext.symm.trans (hmagnitude.trans htext')) (by decide)
    · rw [hu, hu'] at hminus ⊢
      cases s <;> cases s' <;> first | rfl | cases hminus

end MiniLisp.Decimal
