/-
# Decimal numbers

A decimal is a whole number divided by a power of ten.  It is written with the
digits it needs and no more.

| value | written |
| --- | --- |
| whole, no places | `-3` |
| at least a ten-thousandth | `-2.5`, `0.0001` |
| smaller | `-2.5e-07`, `1e-05` |

The exponent has two digits or more.  A decimal with places keeps one of them
even if its value is whole: `2.0`.
-/

namespace Highlight

/-- A decimal number: `mantissa` divided by ten, `places` times. -/
structure Decimal where
  mantissa : Int
  places : Nat := 0
  deriving DecidableEq, Repr

namespace Decimal

/-- A decimal without the zeros at its end, of which one place may remain. -/
def trim (mantissa : Int) : (places : Nat) → Decimal
  | 0 => ⟨mantissa, 0⟩
  | 1 => ⟨mantissa, 1⟩
  | places + 2 =>
    if mantissa % 10 = 0 then trim (mantissa / 10) (places + 1) else ⟨mantissa, places + 2⟩

/-- Trimming drops zeros only: the value stays the same. -/
theorem mantissa_trim (mantissa : Int) (places : Nat) :
    (trim mantissa places).mantissa * Int.pow 10 places =
      mantissa * Int.pow 10 (trim mantissa places).places := by
  fun_induction trim mantissa places with
  | case1 | case2 => rfl
  | case3 mantissa places h ih =>
    have hpow : Int.pow 10 (places + 2) = Int.pow 10 (places + 1) * 10 := Int.pow_succ 10 _
    calc (trim (mantissa / 10) (places + 1)).mantissa * Int.pow 10 (places + 2)
        = mantissa / 10 * Int.pow 10 (trim (mantissa / 10) (places + 1)).places * 10 := by
          rw [hpow, ← Int.mul_assoc, ih]
      _ = mantissa / 10 * 10 * Int.pow 10 (trim (mantissa / 10) (places + 1)).places := by
          rw [Int.mul_right_comm]
      _ = mantissa * Int.pow 10 (trim (mantissa / 10) (places + 1)).places := by
          rw [show mantissa / 10 * 10 = mantissa by omega]
  | case4 => rfl

/-- Digits with a point before the last `places` of them. -/
def positional (digits : List Char) (places : Nat) : String :=
  let padded := List.replicate (places + 1 - digits.length) '0' ++ digits
  let whole := padded.length - places
  String.ofList (padded.take whole) ++ "." ++ String.ofList (padded.drop whole)

/-- Digits with a point after the first, and how many places it has to move
to the left. -/
def scientific (digits : List Char) (exponent : Nat) : String :=
  let point := if digits.length ≤ 1 then "" else "."
  let written := Nat.toDigits 10 exponent
  let padded := List.replicate (2 - written.length) '0' ++ written
  String.ofList (digits.take 1) ++ point ++ String.ofList (digits.drop 1) ++ "e-" ++
    String.ofList padded

/-- The written form of a decimal. -/
def printed (d : Decimal) : String :=
  if d.places = 0 then toString d.mantissa
  else
    let t := trim d.mantissa d.places
    let digits := Nat.toDigits 10 t.mantissa.natAbs
    let sign := if d.mantissa < 0 then "-" else ""
    sign ++
      if t.places ≤ digits.length + 3 then positional digits t.places
      else scientific digits (t.places + 1 - digits.length)

end Decimal
end Highlight
