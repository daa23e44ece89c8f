/-
  Result codes (`include/redis_errors.h`, `src/redis_errors.cpp`): the codes the modelled commands
  set, with the texts a client reads.
-/
import Mathlib

namespace EloqKV

/-- The `RD_*` codes. -/
inductive RdCode where
  | ok
  | nil
  | wrongType
  | digitalInvalid
  | syntaxError
  | numberGreaterZero
  | wrongPass
  | selectOutOfRange
  | noSuchKey
  | indexOutOfRange
  | countGreaterZero
  | execAbortForPrevError
  | valueOutOfRange
  | objectTooBig
  | clusterIsShuttingDown
  | selectForbiddenInNs
  | limit
  | withscoreByLex
  | minMaxNotFloat
  | minMaxNotString
  deriving DecidableEq, Repr

/-- `redis_get_error_messages`. -/
def RdCode.message : RdCode → String
  | .ok => "OK"
  | .nil => "nil"
  | .wrongType => "WRONGTYPE Operation against a key holding the wrong kind of value"
  | .digitalInvalid => "ERR value is not an integer or out of range"
  | .syntaxError => "ERR syntax error"
  | .numberGreaterZero => "ERR numkeys should be greater than 0"
  | .wrongPass => "WRONGPASS invalid username-password pair or user is disabled."
  | .selectOutOfRange => "DB index is out of range"
  | .noSuchKey => "ERR no such key"
  | .indexOutOfRange => "ERR index out of range"
  | .countGreaterZero => "ERR count should be greater than 0"
  | .execAbortForPrevError => "EXECABORT Transaction discarded because of previous errors."
  | .valueOutOfRange => "ERR value is out of range"
  | .objectTooBig => "ERR max object size limit of 256 MB exceeded"
  | .clusterIsShuttingDown => "ERR cluster is shutting down"
  | .selectForbiddenInNs => "ERR SELECT is not allowed in custom namespace"
  | .limit => "syntax error, LIMIT is only supported in combination with either BYSCORE or BYLEX"
  | .withscoreByLex => "syntax error, WITHSCORES not supported in combination with BYLEX"
  | .minMaxNotFloat => "min or max is not a float"
  | .minMaxNotString => "min or max not valid string range item"

end EloqKV
