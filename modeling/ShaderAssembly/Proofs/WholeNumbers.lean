import Mathlib.Algebra.Ring.Nat
import Mathlib.Data.Nat.Log
import ShaderAssembly.Property

/-!
# Whole numbers

A number that is written with digits alone is read as the 64-bit value nearest to it. Up to 53 bits
that value is the number itself, and beyond them it is no number that a property could hold. So
rounding never makes an integer out of one that is too large, and never another one out of one that
fits.
-/

namespace ShaderAssembly

/-- A magnitude with a sign. -/
def signed (negative : Bool) (magnitude : Nat) : Int :=
  if negative then -(magnitude : Int) else magnitude

theorem natAbs_signed (negative : Bool) (magnitude : Nat) :
    (signed negative magnitude).natAbs = magnitude := by
  cases negative <;> simp [signed]

/-! ### Whole values -/

namespace BinaryValue

/-- Without places behind the point a value is whole. -/
theorem toInt?_finite (negative : Bool) (significand places : Nat) :
    (finite negative significand places).toInt? =
      some (signed negative (significand * 2 ^ places)) := by
  simp [toInt?, signed]

/-- A value whose places behind the point are all zero is whole. -/
theorem toInt?_finite_neg (negative : Bool) (whole places : Nat) :
    (finite negative (whole * 2 ^ places) (-(places : Int))).toInt? =
      some (signed negative whole) := by
  have hpos : 0 < 2 ^ places := Nat.two_pow_pos places
  cases places with
  | zero => simpa using toInt?_finite negative whole 0
  | succ places =>
    have hneg : ¬ (0 : Int) ≤ -((places + 1 : Nat) : Int) := by omega
    have hplaces : (-(-((places + 1 : Nat) : Int))).toNat = places + 1 := by omega
    simp only [toInt?, if_neg hneg, hplaces]
    simp [signed, Nat.mul_div_cancel _ hpos]

end BinaryValue

/-! ### Rounding -/

theorem roundHalfEven_one (n : Nat) : roundHalfEven n 1 = n := by
  simp [roundHalfEven, Nat.mod_one]

/-- Rounding goes down at most to the whole part. -/
theorem le_roundHalfEven (numerator denominator : Nat) :
    numerator / denominator ≤ roundHalfEven numerator denominator := by
  unfold roundHalfEven
  dsimp only
  split
  · exact le_rfl
  · split
    · exact Nat.le_succ _
    · exact Nat.le_add_right _ _

theorem scaledRatio_natCast (numerator denominator places : Nat) :
    scaledRatio numerator denominator places = (numerator, denominator * 2 ^ places) := by
  simp [scaledRatio]

theorem scaledRatio_neg (numerator denominator places : Nat) :
    scaledRatio numerator denominator (-(places : Int)) =
      (numerator * 2 ^ places, denominator) := by
  cases places with
  | zero => simpa using scaledRatio_natCast numerator denominator 0
  | succ places =>
    have hneg : ¬ (0 : Int) ≤ -((places + 1 : Nat) : Int) := by omega
    have hplaces : (-(-((places + 1 : Nat) : Int))).toNat = places + 1 := by omega
    simp only [scaledRatio, if_neg hneg, hplaces]
    rfl

theorem floorLog2_one {n : Nat} (h : n ≠ 0) : floorLog2 n 1 = n.log2 := by
  have hone : Nat.log2 1 = 0 := by decide
  have hle : 2 ^ n.log2 ≤ n := Nat.log2_self_le h
  simp [floorLog2, hone, scaledRatio_natCast, hle]

namespace BinaryFormat

/-- Zero is whole. -/
theorem toInt?_zero (format : BinaryFormat) (negative : Bool) :
    (format.zero negative).toInt? = some (signed negative 0) := by
  simp [zero, BinaryValue.toInt?, signed]

/-- A whole number of at most 53 bits is a 64-bit value. -/
theorem toInt?_nearest {n : Nat} (negative : Bool) (h : n < 2 ^ 53) :
    (binary64.nearest negative n 1).toInt? = some (signed negative n) := by
  rcases Nat.eq_zero_or_pos n with rfl | hpos
  · exact toInt?_zero binary64 negative
  -- The exponent is that of the last of 53 bits, so nothing is rounded off.
  have hlog : n.log2 ≤ 52 := Nat.le_of_lt_succ ((Nat.log2_lt hpos.ne').mpr h)
  obtain ⟨places, hplaces⟩ := Nat.exists_eq_add_of_le hlog
  have hfits : n * 2 ^ places < 2 ^ 53 := by
    have hbits : n < 2 ^ (n.log2 + 1) := Nat.lt_log2_self
    calc n * 2 ^ places < 2 ^ (n.log2 + 1) * 2 ^ places :=
          Nat.mul_lt_mul_of_pos_right hbits (Nat.two_pow_pos places)
      _ = 2 ^ 53 := by rw [← Nat.pow_add, show n.log2 + 1 + places = 53 by omega]
  have hexponent : max (-1074 : Int) ((n.log2 : Int) - (53 - 1 : Nat)) = -(places : Int) := by
    omega
  have hgreatest : ¬ (971 : Int) < -(places : Int) := by omega
  have hcarried : ¬ n * 2 ^ places = Nat.pow 2 53 := Nat.ne_of_lt hfits
  have hvalue : binary64.nearest negative n 1 = .finite negative (n * 2 ^ places) (-places) := by
    simp only [nearest, binary64, if_neg hpos.ne', floorLog2_one hpos.ne', hexponent,
      scaledRatio_neg, roundHalfEven_one, if_neg hcarried, if_neg hgreatest]
  rw [hvalue, BinaryValue.toInt?_finite_neg]

/-- A whole number of more than 53 bits is rounded to a value that is not small. -/
theorem le_natAbs_of_toInt?_nearest {n : Nat} {negative : Bool} (h : 2 ^ 53 ≤ n) {whole : Int}
    (hwhole : (binary64.nearest negative n 1).toInt? = some whole) : 2 ^ 52 ≤ whole.natAbs := by
  have hpos : n ≠ 0 := by omega
  have hlog : 53 ≤ n.log2 := (Nat.le_log2 hpos).mpr h
  obtain ⟨places, hplaces⟩ := Nat.exists_eq_add_of_le (show 52 ≤ n.log2 by omega)
  have hexponent : max (-1074 : Int) ((n.log2 : Int) - (53 - 1 : Nat)) = (places : Int) := by
    omega
  have hrounded : 2 ^ 52 ≤ roundHalfEven n (2 ^ places) := by
    refine le_trans ?_ (le_roundHalfEven n (2 ^ places))
    rw [Nat.le_div_iff_mul_le (Nat.two_pow_pos places), ← Nat.pow_add, ← hplaces]
    exact Nat.log2_self_le hpos
  have hsmall : ∀ significand shift : Nat, 2 ^ 52 ≤ significand →
      (BinaryValue.finite negative significand shift).toInt? = some whole →
        2 ^ 52 ≤ whole.natAbs := by
    intro significand shift hsignificand hfinite
    rw [BinaryValue.toInt?_finite] at hfinite
    obtain rfl := Option.some.inj hfinite
    rw [natAbs_signed]
    exact hsignificand.trans (Nat.le_mul_of_pos_right _ (Nat.two_pow_pos shift))
  simp only [nearest, binary64, if_neg hpos, floorLog2_one hpos, hexponent, scaledRatio_natCast,
    Nat.one_mul] at hwhole
  by_cases hcarried : roundHalfEven n (2 ^ places) = Nat.pow 2 53
  · rw [if_pos hcarried, if_pos hcarried] at hwhole
    split at hwhole
    · cases hwhole
    · have hhalf : roundHalfEven n (2 ^ places) / 2 = 2 ^ 52 := congrArg (· / 2) hcarried
      exact hsmall _ (places + 1) hhalf.ge hwhole
  · rw [if_neg hcarried, if_neg hcarried] at hwhole
    split at hwhole
    · cases hwhole
    · exact hsmall _ places hrounded hwhole

end BinaryFormat

/-! ### Digits -/

/-- The 64-bit value of digits is whole and theirs, if they are not too many. -/
theorem Decimal.toBinary64_whole (negative : Bool) (n : Nat) :
    (toBinary64 ⟨negative, n, 0⟩).toInt? =
      (BinaryFormat.binary64.nearest negative n 1).toInt? := by
  unfold toBinary64
  dsimp only
  by_cases hzero : n = 0
  · rw [if_pos hzero, BinaryFormat.nearest, if_pos hzero]
  · simp [hzero]

theorem isDigits_iff {text : List Char} :
    Text.isDigits text = true ↔ text ≠ [] ∧ ∀ c ∈ text, c.isDigit = true := by
  simp [Text.isDigits]

/-- Digits are read as a number. -/
theorem Decimal.readUnsigned?_of_isDigits (negative : Bool) {digits : List Char}
    (h : Text.isDigits digits = true) :
    readUnsigned? negative digits = some ⟨negative, Text.digitsValue digits, 0⟩ := by
  obtain ⟨hsome, hall⟩ := isDigits_iff.mp h
  have htake : digits.takeWhile Char.isDigit = digits := by
    simpa using @List.takeWhile_append_of_pos _ Char.isDigit digits [] hall
  have hdrop : digits.dropWhile Char.isDigit = [] := by
    simpa using @List.dropWhile_append_of_pos _ Char.isDigit digits [] hall
  simp [readUnsigned?, htake, hdrop, hsome, readExponent?]

/-- A number is digits if it has neither a point nor the mark of an exponent. -/
theorem Decimal.isDigits_of_readUnsigned? {negative : Bool} {text : List Char} {decimal : Decimal}
    (h : readUnsigned? negative text = some decimal)
    (hmarks : ∀ c ∈ text, Number.marksFloat c = false) : Text.isDigits text = true := by
  have hsplit : text.takeWhile Char.isDigit ++ text.dropWhile Char.isDigit = text :=
    List.takeWhile_append_dropWhile
  have hdigits : ∀ c ∈ text.takeWhile Char.isDigit, c.isDigit = true :=
    fun c hc => List.all_eq_true.mp List.all_takeWhile c hc
  cases hrest : text.dropWhile Char.isDigit with
  | nil =>
    rw [hrest, List.append_nil] at hsplit
    rw [hsplit] at hdigits
    refine isDigits_iff.mpr ⟨?_, hdigits⟩
    rintro rfl
    cases h
  | cons c rest =>
    -- What stops the digits is none of the marks that could go on with the number.
    have hmark := hmarks c (by rw [← hsplit, hrest]; simp)
    simp only [Number.marksFloat, Bool.or_eq_false_iff, beq_eq_false_iff_ne] at hmark
    have hexponent : readExponent? (c :: rest) = none := by simp [readExponent?, hmark]
    rw [readUnsigned?, hrest] at h
    simp [hmark, hexponent] at h

/-- A digit has no case. -/
theorem toLower_of_isDigit {c : Char} (h : c.isDigit = true) : c.toLower = c := by
  have hnine : '9'.val.toNat = 57 := rfl
  have ha : 'A'.val.toNat = 65 := rfl
  unfold Char.toLower
  refine dif_neg fun hupper => ?_
  simp only [Char.isDigit, Bool.and_eq_true, decide_eq_true_eq, UInt32.le_iff_toNat_le,
    ge_iff_le] at h hupper
  omega

/-- A digit starts none of the words that are read as numbers. -/
theorem toLower_ne_of_isDigit {c : Char} (h : c.isDigit = true) :
    c.toLower ≠ 'i' ∧ c.toLower ≠ 'n' := by
  rw [toLower_of_isDigit h]
  constructor <;> rintro rfl <;> exact absurd h (by decide)

/-- What does not start like one of the words is read as a decimal number. -/
theorem readBinary64?_of_unsigned {text rest : List Char} {first : Char} {negative : Bool}
    (hsign : Decimal.takeSign text = (negative, first :: rest))
    (hfirst : first.toLower ≠ 'i' ∧ first.toLower ≠ 'n') :
    readBinary64? text =
      (Decimal.readUnsigned? negative (first :: rest)).map Decimal.toBinary64 := by
  have hword : ∀ {c : Char} {word : List Char}, first.toLower ≠ c →
      String.ofList ((first :: rest).map Char.toLower) ≠ String.ofList (c :: word) :=
    fun hc heq => hc (List.cons.inj (String.ofList_injective heq)).1
  unfold readBinary64?
  rw [hsign]
  dsimp only
  rw [if_neg, if_neg]
  · exact hword hfirst.2
  · exact not_or.mpr ⟨hword hfirst.1, hword hfirst.1⟩

/-- Digits are read as the value nearest to them. -/
theorem readBinary64?_of_isDigits {text digits : List Char} {negative : Bool}
    (hsign : Decimal.takeSign text = (negative, digits)) (h : Text.isDigits digits = true) :
    readBinary64? text = some (Decimal.toBinary64 ⟨negative, Text.digitsValue digits, 0⟩) := by
  obtain ⟨hsome, hall⟩ := isDigits_iff.mp h
  obtain ⟨first, rest, rfl⟩ := List.exists_cons_of_ne_nil hsome
  have hletter := toLower_ne_of_isDigit (hall first List.mem_cons_self)
  rw [readBinary64?_of_unsigned hsign hletter, Decimal.readUnsigned?_of_isDigits negative h]
  rfl

/-- A text is its sign and what follows it. -/
theorem Decimal.exists_sign {text unsigned : List Char} {negative : Bool}
    (h : takeSign text = (negative, unsigned)) :
    ∃ sign, text = sign ++ unsigned ∧ ∀ c ∈ sign, c = '-' ∨ c = '+' := by
  unfold takeSign at h
  split at h <;> cases h
  · exact ⟨['-'], rfl, by simp⟩
  · exact ⟨['+'], rfl, by simp⟩
  · exact ⟨[], rfl, nofun⟩

namespace Value

/-- A number is an integer that a property can hold if it is whole and within the bounds. -/
theorem integer?_eq_some_iff {number : Number} {n : Int} : integer? number = some n ↔
    number.value.toInt? = some n ∧ leastInt ≤ n ∧ n ≤ greatestInt := by
  unfold integer?
  cases number.value.toInt? with
  | none => simp
  | some whole =>
    dsimp only
    rw [Option.ite_none_right_eq_some, Option.some_inj]
    constructor
    · rintro ⟨hrange, rfl⟩
      exact ⟨rfl, hrange⟩
    · rintro ⟨rfl, hrange⟩
      exact ⟨hrange, rfl⟩

/-- The value nearest to an integer is one that a property can hold only if the integer is. -/
theorem toInt?_nearest_iff {negative : Bool} {magnitude : Nat} {n : Int}
    (hrange : leastInt ≤ n ∧ n ≤ greatestInt) :
    (BinaryFormat.binary64.nearest negative magnitude 1).toInt? = some n ↔
      n = signed negative magnitude := by
  have hsize := natAbs_signed negative magnitude
  unfold leastInt greatestInt at hrange
  by_cases hfits : magnitude < 2 ^ 53
  · rw [BinaryFormat.toInt?_nearest negative hfits, Option.some_inj, eq_comm]
  · constructor
    · intro hnearest
      have hlarge := BinaryFormat.le_natAbs_of_toInt?_nearest (by omega) hnearest
      omega
    · rintro rfl
      omega

end Value

namespace Number

/-- Whether a text writes an integer: digits, possibly with a sign. -/
inductive WritesInteger (text : String) : Int → Prop
  | digits {negative : Bool} {digits : List Char}
      (hsign : Decimal.takeSign text.toList = (negative, digits))
      (hdigits : Text.isDigits digits = true) :
      WritesInteger text (signed negative (Text.digitsValue digits))

/-- What is written before the suffixes of a number is read as a decimal text. -/
theorem parse?_append {digits suffix : List Char} (hdigits : ∀ c ∈ digits, isSuffix c = false)
    (hsuffix : ∀ c ∈ suffix, isSuffix c = true) :
    parse? (String.ofList (digits ++ suffix)) =
      (readBinary64? digits).map fun value => ⟨value, suffix ≠ [] || digits.any marksFloat⟩ := by
  have hdrop : digits.reverse.dropWhile isSuffix = digits.reverse := by
    cases hreverse : digits.reverse with
    | nil => rfl
    | cons last before =>
      have hlast := hdigits last (by rw [← List.mem_reverse, hreverse]; simp)
      rw [List.dropWhile_cons, hlast]
      rfl
  have htrim : ((digits ++ suffix).reverse.dropWhile isSuffix).reverse = digits := by
    rw [List.reverse_append, List.dropWhile_append_of_pos (by simpa using hsuffix), hdrop,
      List.reverse_reverse]
  simp only [parse?, String.toList_ofList, htrim, List.length_append]
  simp

/-- A text without suffixes and marks of floats is read as a number that is not written as a
float. -/
theorem parse?_of_plain {text : String}
    (h : ∀ c ∈ text.toList, isSuffix c = false ∧ marksFloat c = false) :
    parse? text = (readBinary64? text.toList).map fun value => ⟨value, false⟩ := by
  have hmarks : text.toList.any marksFloat = false :=
    List.any_eq_false.mpr fun c hc => by simp [(h c hc).2]
  have hparse := @parse?_append text.toList [] (fun c hc => (h c hc).1) nofun
  rw [List.append_nil, String.ofList_toList, hmarks] at hparse
  simpa using hparse

/-- A number that is not written as a float has no suffixes and no marks of floats. -/
theorem plain_of_parse? {text : String} {number : Number} (h : parse? text = some number)
    (hfloat : number.isFloat = false) :
    readBinary64? text.toList = some number.value ∧ ∀ c ∈ text.toList, marksFloat c = false := by
  obtain ⟨value, hvalue, rfl⟩ := Option.map_eq_some_iff.mp h
  simp only [Bool.or_eq_false_iff, decide_eq_false_iff_not, not_not] at hfloat
  obtain ⟨hlength, hmarks⟩ := hfloat
  have hsame : (text.toList.reverse.dropWhile isSuffix).reverse = text.toList := by
    have hprefix := List.reverse_prefix.mpr
      (List.dropWhile_suffix isSuffix (l := text.toList.reverse))
    rw [List.reverse_reverse] at hprefix
    exact hprefix.eq_of_length hlength
  rw [hsame] at hvalue hmarks
  exact ⟨hvalue, fun c hc => by simpa using List.any_eq_false.mp hmarks c hc⟩

/-- A digit is neither a suffix nor a mark of floats. -/
theorem plain_of_isDigit {c : Char} (h : c.isDigit = true) :
    isSuffix c = false ∧ marksFloat c = false := by
  simp only [isSuffix, marksFloat, Bool.or_eq_false_iff, beq_eq_false_iff_ne]
  refine ⟨⟨?_, ?_⟩, ⟨?_, ?_⟩, ?_⟩ <;> rintro rfl <;> exact absurd h (by decide)

/-- An integer is read as a number that is not written as a float. If a property can hold it, the
number is the integer, and else a property cannot hold the number either. -/
theorem WritesInteger.exists_parse? {text : String} {n : Int} (h : WritesInteger text n) :
    ∃ number, parse? text = some number ∧ number.isFloat = false ∧
      ∀ m, Value.integer? number = some m ↔
        m = n ∧ Value.leastInt ≤ m ∧ m ≤ Value.greatestInt := by
  obtain @⟨negative, digits, hsign, hdigits⟩ := h
  obtain ⟨sign, htext, hsigns⟩ := Decimal.exists_sign hsign
  have hplain : ∀ c ∈ text.toList, isSuffix c = false ∧ marksFloat c = false := by
    intro c hc
    rw [htext] at hc
    rcases List.mem_append.mp hc with hc | hc
    · rcases hsigns c hc with rfl | rfl <;> decide
    · exact plain_of_isDigit ((isDigits_iff.mp hdigits).2 c hc)
  refine ⟨⟨Decimal.toBinary64 ⟨negative, Text.digitsValue digits, 0⟩, false⟩, ?_, rfl, fun m => ?_⟩
  · rw [parse?_of_plain hplain, readBinary64?_of_isDigits hsign hdigits]
    rfl
  · rw [Value.integer?_eq_some_iff]
    refine and_congr_left fun hrange => ?_
    rw [Decimal.toBinary64_whole, Value.toInt?_nearest_iff hrange]

/-- A number that is not written as a float and that a property can hold is written as an
integer. -/
theorem exists_writesInteger {text : String} {number : Number} (h : parse? text = some number)
    (hfloat : number.isFloat = false) {n : Int} (hvalue : number.value.toInt? = some n) :
    ∃ written, WritesInteger text written := by
  obtain ⟨hread, hmarks⟩ := plain_of_parse? h hfloat
  obtain ⟨⟨negative, unsigned⟩, hsign⟩ : ∃ parts, Decimal.takeSign text.toList = parts := ⟨_, rfl⟩
  obtain ⟨sign, htext, -⟩ := Decimal.exists_sign hsign
  unfold readBinary64? at hread
  rw [hsign] at hread
  dsimp only at hread
  split at hread
  · rw [← Option.some.inj hread] at hvalue
    cases hvalue
  · split at hread
    · rw [← Option.some.inj hread] at hvalue
      cases hvalue
    · obtain ⟨decimal, hdecimal, -⟩ := Option.map_eq_some_iff.mp hread
      refine ⟨_, .digits hsign (Decimal.isDigits_of_readUnsigned? hdecimal fun c hc => ?_)⟩
      exact hmarks c (htext ▸ List.mem_append_right _ hc)

/-- The numbers that are not written as floats and that a property can hold are those that are
written as integers within the bounds. -/
theorem integer?_iff_writesInteger {text : String} {number : Number}
    (h : parse? text = some number) (n : Int) :
    number.isFloat = false ∧ Value.integer? number = some n ↔
      WritesInteger text n ∧ Value.leastInt ≤ n ∧ n ≤ Value.greatestInt := by
  constructor
  · rintro ⟨hfloat, hn⟩
    obtain ⟨written, hwritten⟩ :=
      exists_writesInteger h hfloat (Value.integer?_eq_some_iff.mp hn).1
    obtain ⟨other, hother, -, hholds⟩ := hwritten.exists_parse?
    obtain rfl := Option.some.inj (h.symm.trans hother)
    obtain ⟨rfl, hrange⟩ := (hholds n).mp hn
    exact ⟨hwritten, hrange⟩
  · rintro ⟨hwritten, hrange⟩
    obtain ⟨other, hother, hfloat, hholds⟩ := hwritten.exists_parse?
    obtain rfl := Option.some.inj (h.symm.trans hother)
    exact ⟨hfloat, (hholds n).mpr ⟨rfl, hrange⟩⟩

end Number

end ShaderAssembly
