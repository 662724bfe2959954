import Mathlib.Data.Multiset.AddSub
import SrxSuite.Server.Identity

/-!
# The cache of the RTR cache server

The model of the cache in `tools/rpkirtr_svr.c`: the list of its entries, how entries are appended,
withdrawn and dropped, and the answers to the queries of a router. An entry is appended with a serial
of its own. A withdrawal gives it a new serial and moves it to the end of the list, where it stays
until it expires.

The texts the entries are read from are left out: what is appended are the objects read.
-/

namespace SrxSuite.Tools

open Server Bytes

/-! ## Entries -/

/-- `ValCacheEntry`. The family of the address is `isV6`. -/
structure ValCacheEntry where
  serial : UInt32
  prevSerial : UInt32
  expires : Int
  isKey : Bool
  isASPA : Bool
  flags : UInt8
  prefixLength : UInt8
  prefixMaxLength : UInt8
  asNumber : UInt32
  address : IPAddress
  ski : Option Bytes
  pPubKeyData : Option Bytes
  providerCount : UInt16
  providerAS : List UInt32
  deriving DecidableEq, Repr

/-- `PREFIX_FLAG_ANNOUNCEMENT`. -/
def flagAnnouncement : UInt8 := 0x01

/-- An object that is read from a line or a file. -/
inductive CacheObject
  | roa (ipPrefix : IPPrefix) (maxLen : UInt8) (oas : UInt32)
  | routerKey (asn : UInt32) (ski keyData : Bytes)
  | aspa (afi : UInt8) (customerAS : UInt32) (providerAS : List UInt32)
  deriving DecidableEq, Repr

/-- The entry after `memset`. -/
def blankEntry (serial : UInt32) : ValCacheEntry :=
  ⟨serial, serial, 0, false, false, 0, 0, 0, 0, .v4 0, none, none, 0, []⟩

/-- The entry that `readPrefixData`, `readRouterKeyData` or `readASPAData` appends. -/
def newEntry (serial : UInt32) : CacheObject → ValCacheEntry
  | .roa ipPrefix maxLen oas =>
    { blankEntry serial with
      flags := flagAnnouncement
      prefixLength := ipPrefix.length
      prefixMaxLength := maxLen
      address := ipPrefix.ip
      asNumber := htonl oas }
  | .routerKey asn ski keyData =>
    { blankEntry serial with
      flags := flagAnnouncement
      isKey := true
      asNumber := htonl asn
      ski := some ski
      pPubKeyData := some keyData }
  | .aspa afi customerAS providerAS =>
    { blankEntry serial with
      flags := flagAnnouncement ||| afi <<< 1
      isASPA := true
      asNumber := htonl customerAS
      providerCount := UInt16.ofNat providerAS.length
      providerAS := providerAS.map htonl }

/-! ## The cache -/

/-- `cache`. -/
structure RtrCache where
  entries : List ValCacheEntry
  maxSerial : UInt32
  minPSExpired : UInt32
  maxSExpired : UInt32
  deriving DecidableEq, Repr

/-- The cache at the start of the server. -/
def initialCache : RtrCache := ⟨[], 0, 0xFFFFFFFF, 0⟩

/-- The entries of a list of objects, with one serial after the other. -/
def numbered : (serial : UInt32) → List CacheObject → List ValCacheEntry
  | _, [] => []
  | serial, object :: rest => newEntry serial object :: numbered (serial + 1) rest

/-- `appendPrefixData`, `appendRouterKeyData` and `appendASPAData`, when they succeed. -/
def appendObjects (cache : RtrCache) (objects : List CacheObject) : RtrCache :=
  { cache with
    entries := cache.entries ++ numbered (cache.maxSerial + 1) objects
    maxSerial := cache.maxSerial + UInt32.ofNat objects.length }

/-- `CACHE_EXPIRATION_INTERVAL`. -/
def cacheExpirationInterval : Int := 3600

/-- The entry is announced: it was not withdrawn since it was appended. -/
def ValCacheEntry.Live (entry : ValCacheEntry) : Prop := entry.serial = entry.prevSerial

instance (entry : ValCacheEntry) : Decidable entry.Live := inferInstanceAs (Decidable (_ = _))

/-- The entry after its withdrawal. -/
def ValCacheEntry.withdrawn (entry : ValCacheEntry) (serial : UInt32) (tsExp : Int) : ValCacheEntry :=
  { entry with flags := entry.flags &&& ~~~flagAnnouncement, serial := serial, expires := tsExp }

/-- A withdrawal: the entry gets the next serial and goes to the end. -/
def withdrawEntry (cache : RtrCache) (currIndex : Nat) (currEntry : ValCacheEntry) (tsExp : Int) :
    RtrCache :=
  { cache with
    entries := cache.entries.eraseIdx currIndex ++ [currEntry.withdrawn (cache.maxSerial + 1) tsExp]
    maxSerial := cache.maxSerial + 1 }

/-- The loop of `processEntryRemoval`: the entry behind `prevNode` is withdrawn, or it is the next
`prevNode` when it is withdrawn already. `none` is the use of a NULL pointer. -/
def removalLoop (startIndex : Nat) (tsExp : Int) :
    (turns : Nat) → (prevNode : Option Nat) → RtrCache → Option RtrCache
  | 0, _, cache => some cache
  | turns + 1, prevNode, cache => do
    let currIndex := match prevNode with
      | none => startIndex - 1
      | some prev => prev + 1
    let currEntry ← cache.entries[currIndex]?
    if currEntry.Live then
      removalLoop startIndex tsExp turns prevNode (withdrawEntry cache currIndex currEntry tsExp)
    else removalLoop startIndex tsExp turns (some currIndex) cache

/-- The indexes are within the bounds of the list. -/
def WithinBounds (cache : RtrCache) (startIndex endIndex : Int) : Prop :=
  (1 ≤ startIndex ∧ startIndex ≤ cache.entries.length) ∧
    startIndex ≤ endIndex ∧ endIndex ≤ cache.entries.length

instance (cache : RtrCache) (startIndex endIndex : Int) :
    Decidable (WithinBounds cache startIndex endIndex) :=
  inferInstanceAs (Decidable ((_ ∧ _) ∧ _ ∧ _))

/-- `processEntryRemoval` with the indexes that were read. -/
def processEntryRemoval (cache : RtrCache) (startIndex endIndex now : Int) : Option RtrCache :=
  if WithinBounds cache startIndex endIndex then
    removalLoop startIndex.toNat (now + cacheExpirationInterval) (endIndex - startIndex + 1).toNat
      (if startIndex = 1 then none else some (startIndex.toNat - 2)) cache
  else some cache

/-- The entry is to be dropped. -/
def ValCacheEntry.Expired (entry : ValCacheEntry) (now : Int) : Prop :=
  0 < entry.expires ∧ entry.expires ≤ now

instance (entry : ValCacheEntry) (now : Int) : Decidable (entry.Expired now) :=
  inferInstanceAs (Decidable (_ ∧ _))

/-- The loop of `deleteExpiredEntriesFromCache`: the entries that are left, `minPSExpired` and
`maxSExpired`. -/
def expiryLoop (now : Int) :
    List ValCacheEntry → (minPS maxS : UInt32) → List ValCacheEntry × UInt32 × UInt32
  | [], minPS, maxS => ([], minPS, maxS)
  | cEntry :: next, minPS, maxS =>
    if cEntry.Expired now then
      expiryLoop now next (if minPS ≤ cEntry.prevSerial then minPS else cEntry.prevSerial)
        (if cEntry.serial ≤ maxS then maxS else cEntry.serial)
    else
      let (entries, minPS, maxS) := expiryLoop now next minPS maxS
      (cEntry :: entries, minPS, maxS)

/-- `deleteExpiredEntriesFromCache` -/
def deleteExpiredEntriesFromCache (cache : RtrCache) (now : Int) : RtrCache :=
  let (entries, minPS, maxS) := expiryLoop now cache.entries cache.minPSExpired cache.maxSExpired
  { cache with entries := entries, minPSExpired := minPS, maxSExpired := maxS }

/-! ## Answers -/

/-- What a PDU says about an object. -/
inductive PduContent
  | ipv4Prefix (prefixLen maxLen : UInt8) (addr asNumber : UInt32)
  | ipv6Prefix (prefixLen maxLen : UInt8) (addr : Vector UInt8 16) (asNumber : UInt32)
  | routerKey (ski keyInfo : Bytes) (asNumber : UInt32)
  | aspa (customerAsn : UInt32) (providers : List UInt32)
  deriving DecidableEq, Repr

/-- A PDU with its flags. -/
structure ObjectPdu where
  version : UInt8
  flags : UInt8
  content : PduContent
  deriving DecidableEq, Repr

/-- What is sent to a router: nothing, as its session is dropped, a Cache Reset, or PDUs in front of
the serial of End of Data. -/
inductive CacheAnswer
  | dropSession
  | cacheReset
  | objects (pdus : List ObjectPdu) (serial : UInt32)
  deriving DecidableEq, Repr

/-- `checkSerial` -/
def checkSerial (cacheMin cacheMax clientSerial : UInt32) : Bool :=
  if cacheMin < cacheMax then cacheMin ≤ clientSerial && clientSerial ≤ cacheMax
  else !(clientSerial < cacheMin) && cacheMax < clientSerial

/-- The PDU of an entry for a version of the protocol. -/
def entryPdu (version : UInt8) (cEntry : ValCacheEntry) : Option ObjectPdu :=
  match cEntry.isKey && cEntry.prefixLength == 0 && cEntry.prefixMaxLength == 0, cEntry.ski,
      cEntry.pPubKeyData with
  | true, some ski, some keyData =>
    if version ≠ 0 then some ⟨version, cEntry.flags, .routerKey ski keyData cEntry.asNumber⟩ else none
  | _, _, _ =>
    if cEntry.isASPA then
      if 1 < version then
        some ⟨version, cEntry.flags,
          .aspa cEntry.asNumber (cEntry.providerAS.take cEntry.providerCount.toNat)⟩
      else none
    else
      match cEntry.address with
      | .v4 addr =>
        some ⟨version, cEntry.flags,
          .ipv4Prefix cEntry.prefixLength cEntry.prefixMaxLength addr cEntry.asNumber⟩
      | .v6 addr =>
        some ⟨version, cEntry.flags,
          .ipv6Prefix cEntry.prefixLength cEntry.prefixMaxLength addr cEntry.asNumber⟩

/-- One turn of the loop that sends the entries. -/
def sentPdu (clientSerial : UInt32) (isReset : Bool) (version : UInt8) (cEntry : ValCacheEntry) :
    Option ObjectPdu :=
  -- a fresh set has announcements only
  if isReset ∧ cEntry.flags &&& flagAnnouncement = 0 then none
  -- never announced to the client
  else if cEntry.serial ≠ cEntry.prevSerial ∧ clientSerial < cEntry.prevSerial then none
  else entryPdu version cEntry

/-- The entries from the first one on that the client has not seen. -/
def fromSerial (clientSerial : UInt32) (isReset : Bool) (entries : List ValCacheEntry) :
    List ValCacheEntry :=
  entries.dropWhile fun cEntry => !(isReset || clientSerial < cEntry.serial)

/-- `sendCacheObjects`, when everything can be sent. -/
def sendCacheObjects (cache : RtrCache) (sessionID : UInt16) (clientSerial : UInt32)
    (clientSessionID : UInt16) (isReset : Bool) (version : UInt8) : CacheAnswer :=
  if !isReset ∧ clientSessionID ≠ sessionID then .dropSession
  else if !isReset ∧ checkSerial cache.minPSExpired cache.maxSExpired clientSerial then .cacheReset
  else
    .objects ((fromSerial clientSerial isReset cache.entries).filterMap
      (sentPdu clientSerial isReset version)) cache.maxSerial

/-! ## Runs -/

/-- A change of the cache; a removal and an expiry come with the time. -/
inductive CacheOp
  | append (objects : List CacheObject)
  | remove (startIndex endIndex now : Int)
  | expire (now : Int)
  deriving DecidableEq, Repr

/-- The cache after a change. -/
def changeCache (cache : RtrCache) : CacheOp → Option RtrCache
  | .append objects => some (appendObjects cache objects)
  | .remove startIndex endIndex now => processEntryRemoval cache startIndex endIndex now
  | .expire now => some (deleteExpiredEntriesFromCache cache now)

/-- One step of a run, as long as the cache is defined. -/
def cacheStep (cache : Option RtrCache) (op : CacheOp) : Option RtrCache :=
  cache.bind fun cache => changeCache cache op

/-- How many serials a change takes. -/
def serialsOf (cache : RtrCache) : CacheOp → Nat
  | .append objects => objects.length
  | .remove startIndex endIndex _ =>
    if WithinBounds cache startIndex endIndex then
      ((cache.entries.drop (startIndex.toNat - 1)).take (endIndex - startIndex + 1).toNat).countP
        fun cEntry => decide cEntry.Live
    else 0
  | .expire _ => 0

/-- The serial does not wrap around. -/
def NoWrap (cache : Option RtrCache) (op : CacheOp) : Prop :=
  ∀ c ∈ cache, c.maxSerial.toNat + serialsOf c op < 2 ^ 32

instance (cache : Option RtrCache) (op : CacheOp) : Decidable (NoWrap cache op) :=
  inferInstanceAs (Decidable (∀ c ∈ cache, _))

/-! ## The records of a router -/

/-- An object without the announcement flag. -/
abbrev RtrRecord := UInt8 × PduContent

def ObjectPdu.record (pdu : ObjectPdu) : RtrRecord := (pdu.flags &&& ~~~flagAnnouncement, pdu.content)

/-- An announcement adds a record, a withdrawal removes one. -/
def applyPdu (records : Multiset RtrRecord) (pdu : ObjectPdu) : Multiset RtrRecord :=
  if pdu.flags &&& flagAnnouncement ≠ 0 then pdu.record ::ₘ records else records.erase pdu.record

/-- The records of a router after an answer that is no Cache Reset. -/
def applyAnswer (records : Multiset RtrRecord) : CacheAnswer → Multiset RtrRecord
  | .objects pdus _ => pdus.foldl applyPdu records
  | _ => records

/-- The records of the answer to a Reset Query. -/
def resetRecords (cache : RtrCache) (sessionID : UInt16) (version : UInt8) : Multiset RtrRecord :=
  applyAnswer 0 (sendCacheObjects cache sessionID 0 sessionID true version)

/-- The records after a Serial Query of the same session, and after a Reset Query when the answer is a
Cache Reset. -/
def resync (cache : RtrCache) (sessionID : UInt16) (version : UInt8) (serial : UInt32)
    (records : Multiset RtrRecord) : Multiset RtrRecord :=
  match sendCacheObjects cache sessionID serial sessionID false version with
  | .cacheReset => resetRecords cache sessionID version
  | answer => applyAnswer records answer

end SrxSuite.Tools
