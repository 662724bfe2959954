import Mathlib.Algebra.Group.Nat.Defs
import Mathlib.Tactic.Common

/-!
# Shared definitions of the SRx suite

The result codes, AS path types and address families of `shared/srx_defs.h` and the status
codes of `srx/srxcryptoapi.h` that the modelled modules exchange.
-/

namespace SrxSuite

/-- `SRxValidationResultVal`. -/
inductive SrxResult
  | valid | notFound | invalid | undefined | doNotUse | unknown | unverifiable
  deriving DecidableEq, Repr

/-- The value of a result, the byte that is stored and sent. -/
def SrxResult.code : SrxResult → UInt8
  | .valid => 0
  | .notFound => 1
  | .invalid => 2
  | .undefined => 3
  | .doNotUse => 4
  | .unknown => 5
  | .unverifiable => 6

/-- `AS_TYPE`: the segment type of an AS path. It comes from a byte of the request; `other` is a byte
without a name. -/
inductive AsType
  | asSet | asSequence | asConfedSequence | asConfedSet
  | other (code : UInt8) (unnamed : code = 0 ∨ 4 < code)
  deriving DecidableEq, Repr

/-- `AS_REL_TYPE`: what the neighbour is to the router that asks; `unknown` is every other value. -/
inductive AsRelType
  | unknown | customer | provider | sibling | lateral
  deriving DecidableEq, Repr

/-- `AS_REL_DIR`: the direction an AS path is verified in. -/
inductive AsRelDir
  | unknownStream | upStream | downStream
  deriving DecidableEq, Repr

/-- `ASPA_ValidationResult`, the values one database lookup can return. -/
inductive AspaResult
  | valid | invalid | undefined | unknown
  deriving DecidableEq, Repr

/-- The bit code of a lookup result, as it is collected with `|=`. -/
def AspaResult.code : AspaResult → UInt16
  | .valid => 0
  | .invalid => 1
  | .undefined => 2
  | .unknown => 4

/-- `ASPA_RESULT_UNVERIFIABLE`. -/
def aspaUnverifiable : UInt16 := 8

/-- `ASPA_RESULT_NIBBLE_ZERO`, the start value of the collected result. -/
def aspaNibbleZero : UInt16 := 16

/-- `AFI_IP`. -/
def afiIP : UInt16 := 1

/-- `AFI_IP6`. -/
def afiIP6 : UInt16 := 2

/-! Lengths that fit a length field of 16 bits. -/

theorem zero_fits16 : 0 < 2 ^ 16 := by decide

theorem one_fits16 : 1 < 2 ^ 16 := by decide

theorem two_fits16 : 2 < 2 ^ 16 := by decide

/-- `sca_status_t`: bit coded, errors in the upper and information in the lower half. -/
abbrev Status := UInt32

namespace Status

def ok : Status := 0x00000000
def infoSignature : Status := 0x00000001
def infoKeyNotFound : Status := 0x00000002
def infoUser1 : Status := 0x00001000
def errNoData : Status := 0x00010000
def errNoPrefix : Status := 0x00020000
def errInvalidKey : Status := 0x00040000
def errKeyIo : Status := 0x00080000
def errUser1 : Status := 0x10000000

/-- No bit of `API_STATUS_ERROR_MASK` is set. -/
def noError (status : Status) : Bool := status &&& 0xFFFF0000 == 0

end Status

end SrxSuite
