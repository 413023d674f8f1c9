import Mathlib.Data.Nat.Digits.Defs
import ShaderAssembly.Proofs.ScannedNumbers
import ShaderAssembly.Proofs.TypedProperties

/-!
# Integer defaults

A default that is written as a sign and digits denotes an integer, however many digits there are. On
its way to the value of a property it is a 64-bit value, which may be another number. That makes no
difference: if the integer has 32 bits the property has it exactly, and otherwise the default is
refused, whether the type is written or implied.
-/

namespace ShaderAssembly

/-- The integer that digits behind a sign denote; the last digit counts the ones. -/
def integerOf (sign digits : List Char) : Int :=
  signed (sign = ['-'])
    (Nat.ofDigits 10 (digits.reverse.map fun digit => digit.toNat - '0'.toNat))

/-- Reading digits from the first to the last gives the number that they denote. -/
theorem digitsValue_eq_ofDigits (digits : List Char) :
    Text.digitsValue digits =
      Nat.ofDigits 10 (digits.reverse.map fun digit => digit.toNat - '0'.toNat) := by
  induction digits using List.reverseRecOn with
  | nil => rfl
  | append_singleton digits latest ih =>
    rw [Text.digitsValue_append_singleton, ih, List.reverse_append, List.reverse_singleton,
      List.singleton_append, List.map_cons, Nat.ofDigits_cons, Nat.add_comm]

/-- A sign and digits write the integer that they denote. -/
theorem writesInteger_integerOf {sign digits : List Char} (hsign : IsSign sign)
    (hdigits : IsDigits digits) (hsome : digits ≠ []) :
    Number.WritesInteger (String.ofList (sign ++ digits)) (integerOf sign digits) := by
  rw [integerOf, ← digitsValue_eq_ofDigits]
  refine .digits ?_ (isDigits_iff.mpr ⟨hsome, hdigits⟩)
  rw [String.toList_ofList, Decimal.takeSign_append hsign hdigits.ne_sign]

namespace PropertyDeclaration

/-- What a declaration comes to whose default denotes an integer: a property that has the integer
if it is within the bounds, and the error that it does not fit if not. -/
def integerOutcome (declaration : PropertyDeclaration) (n : Int) : Except Error Property :=
  if Value.leastInt ≤ n ∧ n ≤ Value.greatestInt then
    .ok ⟨declaration.name, declaration.label, .int, some (.int n), declaration.attributes,
      declaration.position⟩
  else .error (.typeMismatch declaration.name .int "an integer" declaration.position)

/-- A default that denotes an integer is resolved as that integer, through whatever value its number
has. -/
theorem resolve_eq_integerOutcome {declaration : PropertyDeclaration} {number : Number} {n : Int}
    (hdefault : declaration.default? = some (.number number)) (hfloat : number.isFloat = false)
    (hholds : ∀ m, Value.integer? number = some m ↔
      m = n ∧ Value.leastInt ≤ m ∧ m ≤ Value.greatestInt)
    (htype : declaration.type? = some .int ∨ declaration.type? = none) :
    declaration.resolve = declaration.integerOutcome n := by
  have hhas : declaration.HasType .int :=
    htype.elim .written fun hnone => .implied hnone hdefault (.int hfloat)
  have hwrites : ∀ value, Literal.Writes .int (.number number) value →
      (Value.leastInt ≤ n ∧ n ≤ Value.greatestInt) ∧ value = .int n := by
    intro value hvalue
    cases hvalue with
    | int _ hwhole hrange =>
      obtain ⟨rfl, -⟩ := (hholds _).mp (Value.integer?_eq_some_iff.mpr ⟨hwhole, hrange⟩)
      exact ⟨hrange, rfl⟩
  unfold integerOutcome
  split
  · rename_i hrange
    have hwhole := (Value.integer?_eq_some_iff.mp ((hholds n).mpr ⟨rfl, hrange⟩)).1
    exact resolve_eq_ok_iff.mpr
      ⟨rfl, rfl, hhas, hdefault ▸ .written (.int hfloat hwhole hrange), rfl, rfl⟩
  · rename_i hrange
    have hshape : (Literal.number number).shape = "an integer" := by simp [Literal.shape, hfloat]
    rw [← hshape]
    exact Resolves.eq_resolve
      (.mismatch ⟨fun value hvalue => hrange (hwrites value hvalue).1, hhas, hdefault⟩)

/-- A default that is a sign and digits is a number, and a property of integers that has it comes to
the integer that they denote, be its type written or implied. -/
theorem resolve_of_sign_digits {sign digits : List Char} (hsign : IsSign sign)
    (hdigits : IsDigits digits) (hsome : digits ≠ []) :
    ∃ number, Number.parse? (String.ofList (sign ++ digits)) = some number ∧
      ∀ declaration : PropertyDeclaration, declaration.default? = some (.number number) →
        declaration.type? = some .int ∨ declaration.type? = none →
          declaration.resolve = declaration.integerOutcome (integerOf sign digits) := by
  obtain ⟨number, hnumber, hfloat, hholds⟩ :=
    (writesInteger_integerOf hsign hdigits hsome).exists_parse?
  exact ⟨number, hnumber, fun _ hdefault htype =>
    resolve_eq_integerOutcome hdefault hfloat hholds htype⟩

/-- The least integer is kept, also with zeros in front of it. An integer that is no 64-bit value is
refused. -/
theorem resolve_of_least_and_large_integer :
    (∃ number, Number.parse? "-002147483648" = some number ∧
      resolve ⟨"depth", "depth", none, some (.number number), [], ⟨⟨"/a.glsl"⟩, 1, 1⟩⟩ =
        .ok ⟨"depth", "depth", .int, some (.int (-2147483648)), [], ⟨⟨"/a.glsl"⟩, 1, 1⟩⟩) ∧
      ∃ number, Number.parse? "9007199254740993" = some number ∧
        resolve ⟨"depth", "depth", some .int, some (.number number), [], ⟨⟨"/a.glsl"⟩, 1, 1⟩⟩ =
          .error (.typeMismatch "depth" .int "an integer" ⟨⟨"/a.glsl"⟩, 1, 1⟩) := by
  obtain ⟨least, hleast, hkept⟩ :=
    @resolve_of_sign_digits ['-'] "002147483648".toList (by decide) (by decide) (by decide)
  obtain ⟨large, hlarge, hrefused⟩ :=
    @resolve_of_sign_digits [] "9007199254740993".toList (by decide) (by decide) (by decide)
  exact ⟨⟨least, hleast, hkept _ rfl (.inr rfl)⟩, large, hlarge, hrefused _ rfl (.inl rfl)⟩

end PropertyDeclaration

end ShaderAssembly
