import EpochSeal.Word

/-!
Voting power grows with a power of the stake: the whole tokens of the balance, raised to a rational
exponent and rounded down.
-/
namespace EpochSeal

/-- The exponent that turns a stake into voting power, as a fraction. -/
structure Exponent where
  numerator : UInt64
  denominator : UInt64
  deriving DecidableEq, Repr

/-- The fraction in double precision; a zero denominator gives infinity or no number. -/
def Exponent.value (e : Exponent) : Float := e.numerator.toFloat / e.denominator.toFloat

namespace VotingPower

def oneToken : Word := BitVec.ofNat 256 (10 ^ 18)

def wholeTokens (balance : Word) : UInt64 :=
  UInt64.ofNat (min (balance / oneToken).toNat (2 ^ 64 - 1))

/-- The power of a balance: zero for a zero balance, else the truncated power, at most what 64 bits
hold. -/
def ofBalance (balance : Word) (exponent : Exponent) : UInt64 :=
  if balance = 0 then 0
  else (Float.pow (wholeTokens balance).toFloat exponent.value).toUInt64

end VotingPower

end EpochSeal
