import EpochSeal.Header
import EpochSeal.Round.Error

/-!
The rules that a header must keep towards its parent and the clock, in the order in which they are
checked.
-/
namespace EpochSeal

namespace Header

/-- Checks a header against its parent. `now` is the local time in seconds, which the timestamp may
run ahead of by at most `drift`. -/
def checkAgainst (h parent : Header) (drift now : UInt64) : Except HeaderError Unit :=
  if h.extraData.length < Extension.vanityLength then .error (.extraTooShort h.extraData.length)
  else if h.parentDigest ≠ parent.digest then .error (.parentDigest parent.digest h.parentDigest)
  else if h.number ≠ parent.number + 1 then .error .number
  else if saturatingAdd now drift < h.timestamp then .error (.fromTheFuture h.timestamp drift)
  else if h.nonce ≠ FixedBytes.zero 8 then .error .nonce
  else if h.gasLimit < h.gasUsed then .error (.gasLimit h.gasUsed h.gasLimit)
  else if h.timestamp < parent.timestamp then .error .olderThanParent
  else if h.mixDigest ≠ consensusMix then .error .mixDigest
  else if h.difficulty = 0 then .error .difficulty
  else if h.digest ≠ h.computeDigest then .error .digest
  else .ok ()

end Header

end EpochSeal
