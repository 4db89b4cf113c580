/-
  Floating-point numbers, as far as the programs use them.

  A number may be infinite or not a number; otherwise it has a rational value,
  by which it is compared.  Rounding and printing are those of the platform:
  all that is known is that a number prints as a number and, if it has a value,
  is read back from what it prints to.
-/
import Mathlib.Data.Rat.Defs
import HomeLab.Lib.Codec

namespace HomeLab

class Float64 (F : Type) where
  /-- The value, unless the number is infinite or not a number. -/
  value : F → Option ℚ
  /-- `float64(a) / float64(b) * 100` -/
  percentage : ℕ → ℕ → F
  codec : Codec F
  number : ∀ x, ∃ lit, codec.toJson x = .num lit
  good : ∀ {x}, (value x).isSome → codec.Good x

namespace Float64

variable {F : Type} [Float64 F]

/-- A number from 0 to the bound, neither infinite nor undefined. -/
def within (bound : ℚ) (x : F) : Bool := (value x).any fun v => 0 ≤ v && v ≤ bound

/-- The value of a number that has one. -/
def toRat (x : F) : ℚ := (value x).getD 0

theorem solid : (codec (F := F)).Solid := by
  intro x
  obtain ⟨lit, hlit⟩ := number x
  rw [hlit]
  rfl

theorem good_of_within {bound : ℚ} {x : F} (h : within bound x = true) :
    (codec (F := F)).Good x := by
  refine good ?_
  cases hv : value x with
  | none => rw [within, hv] at h; cases h
  | some v => rfl

end Float64

/-- Whole numbers as floating-point numbers, rounding down. -/
instance wholeFloats : Float64 ℕ where
  value n := if n < 2 ^ 64 then some n else none
  percentage a b := a * 100 / b
  codec := .natural
  number n := ⟨decimal n, rfl⟩
  good {x} h := by
    by_contra hx
    have hx' : ¬ x < 2 ^ 64 := hx
    rw [if_neg hx'] at h
    cases h

end HomeLab
