import SrxSuite.Lib.Runs
import SrxSuite.Server.Clients

/-!
# The proxy map

The model of the proxy map of `server/server_connection_handler.c`. A proxy is known by its proxy
identifier, the server gives it a client identifier, and the map has an entry for each client. An
entry that is not active is free, configured, or waits for a proxy that crashed. `noMappings` counts
the entries that are in use.

Result: the map is right in every state of a run if and only if every step meets `Harmless`
(`mapRight_iff`). A proxy that says goodbye is enough for a step that does not: the entry is free
again and is still counted (`goodbye_counted`).
-/

namespace SrxSuite.Server

open Runs

/-! ## The code -/

/-- The proxy map with the update cache (`clients`), the sockets of the entries (`none` is NULL) and
the number of mappings. -/
structure ProxyHandler where
  clients : ClientState
  socket : UInt8 → Option Nat
  noMappings : UInt8

/-- `SRX_PROTOCOL_VER`. -/
def srxProtocolVer : UInt16 := 3

namespace ProxyHandler

/-- The proxy identifier of an entry. -/
def proxyID (self : ProxyHandler) (clientID : UInt8) : UInt32 :=
  (self.clients.proxyMap clientID).proxyID

def isActive (self : ProxyHandler) (clientID : UInt8) : Bool :=
  (self.clients.proxyMap clientID).isActive

/-- The indices of the loops: the first element must not be used. -/
def clientIDs : List UInt8 := (List.range' 1 255).map UInt8.ofNat

/-- The loop of `findClientID` over the indices and the number of mappings that are left. -/
def findClientLoop (self : ProxyHandler) (proxyID : UInt32) : List UInt8 → Nat → UInt8
  | [], _ => 0
  | _ :: _, 0 => 0
  | index :: rest, noMappings + 1 =>
    if self.proxyID index > 0 then
      if self.proxyID index = proxyID then index
      else self.findClientLoop proxyID rest noMappings
    else self.findClientLoop proxyID rest (noMappings + 1)

/-- `findClientID`. -/
def findClientID (self : ProxyHandler) (proxyID : UInt32) : UInt8 :=
  if proxyID = 0 then 0 else self.findClientLoop proxyID clientIDs self.noMappings.toNat

/-- `createClientID`. -/
def createClientID (self : ProxyHandler) : UInt8 :=
  (clientIDs.find? fun index => self.proxyID index == 0).getD 0

/-- The first part of `addMapping`: the mapping can be added. -/
def canMap (self : ProxyHandler) (proxyID : UInt32) (clientID : UInt8) (cSocket : Option Nat) : Bool :=
  let registeredClientID := self.findClientID proxyID
  if registeredClientID = 0 then self.proxyID clientID == 0 && !self.isActive clientID
  else if registeredClientID = clientID then
    !self.isActive clientID || self.socket clientID == cSocket
  else false

/-- `addMapping`. -/
def addMapping (self : ProxyHandler) (proxyID : UInt32) (clientID : UInt8) (cSocket : Option Nat)
    (activate : Bool) : ProxyHandler × Bool :=
  if self.canMap proxyID clientID cSocket then
    let isNew := self.proxyID clientID = 0
    ({ clients := self.clients.writeMapping clientID fun mapping =>
        { mapping with
          proxyID := if isNew then proxyID else mapping.proxyID
          isActive := activate
          crashed := 0
          preDefined := if activate then mapping.preDefined else true }
       socket := Function.update self.socket clientID cSocket
       noMappings := if isNew then self.noMappings + 1 else self.noMappings }, true)
  else (self, false)

/-- One turn of `configureProxyMap`. -/
def configureTurn (self : ProxyHandler) (proxyID : UInt32) (clientID : UInt8) : ProxyHandler :=
  if proxyID > 0 then (self.addMapping proxyID clientID none false).1 else self

/-- `configureProxyMap`: the mappings are an array over the clients. -/
def configureProxyMap (self : ProxyHandler) (mappings : UInt8 → UInt32) : ProxyHandler :=
  ((List.range 256).map UInt8.ofNat).foldl
    (fun self clientID => self.configureTurn (mappings clientID) clientID) self

/-- `_processHandshake`, with the result of the handshake. -/
def processHandshake (self : ProxyHandler) (version : UInt16) (proxyID : UInt32) (client : Nat) :
    ProxyHandler × Bool :=
  if version ≠ srxProtocolVer then (self, false)
  else
    let clientID := self.findClientID proxyID
    let clientID := if clientID = 0 then self.createClientID else clientID
    if clientID > 0 then self.addMapping proxyID clientID (some client) true else (self, false)

/-- `setActivationFlag`. -/
def setActivationFlag (self : ProxyHandler) (clientID : UInt8) (value : Bool) : ProxyHandler :=
  { self with clients := self.clients.setActivationFlag clientID value }

/-- `deactivateConnectionMapping`. -/
def deactivateConnectionMapping (self : ProxyHandler) (clientID : UInt8) (crashed : Bool)
    (keepWindow : UInt16) (now : Nat) : ProxyHandler :=
  { self with
    clients := self.clients.deactivateConnectionMapping clientID crashed keepWindow now
    socket := Function.update self.socket clientID none }

end ProxyHandler

/-! ## Runs -/

/-- What happens to the map: a proxy says hello, a client identifier is assigned by the
configuration, an entry is activated or not, a connection ends. -/
inductive ProxyOp
  | handshake (version : UInt16) (proxyID : UInt32) (client : Nat)
  | assign (proxyID : UInt32) (clientID : UInt8)
  | setActive (clientID : UInt8) (value : Bool)
  | deactivate (clientID : UInt8) (crashed : Bool) (keepWindow : UInt16) (now : Nat)

namespace ProxyHandler

def step (self : ProxyHandler) : ProxyOp → ProxyHandler
  | .handshake version proxyID client => (self.processHandshake version proxyID client).1
  | .assign proxyID clientID => self.configureTurn proxyID clientID
  | .setActive clientID value => self.setActivationFlag clientID value
  | .deactivate clientID crashed keepWindow now =>
    self.deactivateConnectionMapping clientID crashed keepWindow now

/-- The server before the first proxy. -/
def initial (minNumberOfClients : UInt8) (minPos : 0 < minNumberOfClients) (keepWindow : UInt16) :
    ProxyHandler :=
  ⟨initClientState minNumberOfClients minPos keepWindow, fun _ => none, 0⟩

/-- The number of entries in use. -/
def used (self : ProxyHandler) : Nat :=
  ((List.range 256).map UInt8.ofNat).countP fun clientID => self.proxyID clientID != 0

/-- The map is right: proxy identifiers are distinct, active entries have one, and `noMappings` is the
number of entries in use. -/
structure MapRight (s : ProxyHandler) : Prop where
  distinct : ∀ a b, s.proxyID a ≠ 0 → s.proxyID a = s.proxyID b → a = b
  active : ∀ a, s.isActive a = true → s.proxyID a ≠ 0
  counted : s.noMappings.toNat = s.used

/-- A proxy gets an entry of its own: it has no mapping yet, is not mapped to the entry zero, and the
number of mappings is not the largest. -/
def Mappable (self : ProxyHandler) (proxyID : UInt32) : Prop :=
  (∃ clientID, clientID ≠ 0 ∧ self.proxyID clientID = proxyID) ∨
    self.proxyID 0 ≠ proxyID ∧ self.noMappings ≠ 255

/-- The condition: a proxy that says hello while an entry is free has an identifier other than zero
and can be mapped; what the configuration maps to a free entry can be mapped; and an entry in use is
not freed, since it is configured or its proxy crashed. -/
def Harmless (self : ProxyHandler) : ProxyOp → Prop
  | .handshake version proxyID _ => version = srxProtocolVer →
      (∃ clientID, clientID ≠ 0 ∧ self.proxyID clientID = 0) → proxyID ≠ 0 ∧ self.Mappable proxyID
  | .assign proxyID clientID => proxyID ≠ 0 → self.proxyID clientID = 0 → self.Mappable proxyID
  | .setActive _ _ => True
  | .deactivate clientID crashed _ now => self.proxyID clientID = 0 ∨
      (self.clients.proxyMap clientID).preDefined = true ∨ crashed = true ∧ now ≠ 0

end ProxyHandler

namespace ProxyMapLemmas

open ProxyHandler

variable {s s' : ProxyHandler} {p : UInt32} {c d : UInt8}

/-! ## All clients -/

theorem mem_all (a : UInt8) : a ∈ (List.range 256).map UInt8.ofNat :=
  List.mem_map.mpr ⟨a.toNat, List.mem_range.mpr a.toNat_lt, UInt8.ofNat_toNat⟩

theorem nodup_all : ((List.range 256).map UInt8.ofNat).Nodup := by
  refine List.Nodup.map_on (fun a ha b hb heq => ?_) List.nodup_range
  have := congrArg UInt8.toNat heq
  rwa [UInt8.toNat_ofNat_of_lt' (List.mem_range.mp ha),
    UInt8.toNat_ofNat_of_lt' (List.mem_range.mp hb)] at this

theorem mem_clientIDs : c ∈ clientIDs ↔ c ≠ 0 := by
  unfold clientIDs
  rw [List.mem_map]
  constructor
  · rintro ⟨n, hn, rfl⟩ hzero
    obtain ⟨hlow, hhigh⟩ := List.mem_range'_1.mp hn
    have := congrArg UInt8.toNat hzero
    rw [UInt8.toNat_ofNat_of_lt' (by omega)] at this
    exact absurd this (Nat.ne_of_gt hlow)
  · intro hc
    have hpos : c.toNat ≠ 0 := fun h => hc (UInt8.toNat_inj.mp h)
    have := c.toNat_lt
    exact ⟨c.toNat, List.mem_range'_1.mpr ⟨by omega, by omega⟩, UInt8.ofNat_toNat⟩

theorem clientIDs_sublist : clientIDs.Sublist ((List.range 256).map UInt8.ofNat) := by
  refine List.Sublist.map _ ?_
  rw [List.range_eq_range']
  exact List.sublist_cons_self 0 (List.range' 1 255)

/-- The number of entries in use after a change of one entry. -/
theorem used_change (h : ∀ d, d ≠ c → s'.proxyID d = s.proxyID d) :
    s'.used + (s.proxyID c != 0).toNat = s.used + (s'.proxyID c != 0).toNat := by
  obtain ⟨pre, post, hsplit⟩ := List.append_of_mem (mem_all c)
  have hnodup := nodup_all
  rw [hsplit, List.nodup_append, List.nodup_cons] at hnodup
  obtain ⟨-, ⟨hpost, -⟩, hpre⟩ := hnodup
  have hsame {l : List UInt8} (hl : c ∉ l) :
      (l.countP fun d => s'.proxyID d != 0) = l.countP fun d => s.proxyID d != 0 :=
    List.countP_congr fun d hd => by rw [h d fun heq => hl (heq ▸ hd)]
  unfold used
  rw [hsplit, List.countP_append, List.countP_append, List.countP_cons, List.countP_cons,
    hsame hpost, hsame fun hc => hpre c hc c List.mem_cons_self rfl]
  cases (s.proxyID c != 0) with
  | false =>
    cases (s'.proxyID c != 0) with
    | false => rfl
    | true => rfl
  | true =>
    cases (s'.proxyID c != 0) with
    | false =>
      simp only [if_true, Bool.toNat_true, Bool.toNat_false, Bool.false_eq_true, if_false]
      omega
    | true => rfl

/-! ## Searching the map -/

theorem findClientLoop_eq (hp : p ≠ 0) {l : List UInt8} {n : Nat}
    (hn : (l.countP fun d => s.proxyID d != 0) ≤ n) :
    s.findClientLoop p l n = (l.find? fun d => s.proxyID d == p).getD 0 := by
  induction l generalizing n with
  | nil => rfl
  | cons index rest ih =>
    rw [List.countP_cons] at hn
    by_cases hzero : s.proxyID index = 0
    · have hne : ¬ (s.proxyID index == p) = true := fun h => hp ((eq_of_beq h).symm.trans hzero)
      rw [hzero, if_neg (by decide), Nat.add_zero] at hn
      rw [List.find?_cons_of_neg (p := fun d => s.proxyID d == p) hne, ← ih hn]
      cases n with
      | zero =>
        -- no mapping is left, the rest of the list has none
        cases rest with
        | nil => rfl
        | cons next rest => rfl
      | succ n => rw [findClientLoop, hzero, if_neg (by decide)]
    · have hused : (s.proxyID index != 0) = true := bne_iff_ne.mpr hzero
      rw [if_pos hused] at hn
      cases n with
      | zero => omega
      | succ n =>
        rw [findClientLoop, if_pos (UInt32.pos_iff_ne_zero.mpr hzero)]
        by_cases heq : s.proxyID index = p
        · rw [if_pos heq, List.find?_cons_of_pos (p := fun d => s.proxyID d == p)
            (beq_iff_eq.mpr heq)]
          rfl
        · rw [if_neg heq, List.find?_cons_of_neg (p := fun d => s.proxyID d == p)
            (fun h => heq (eq_of_beq h)), ih (Nat.le_of_succ_le_succ hn)]

/-- What `findClientID` finds. -/
theorem findClientID_spec (h : s.MapRight) (p : UInt32) :
    (s.findClientID p = 0 ∧ (p ≠ 0 → ∀ d, d ≠ 0 → s.proxyID d ≠ p)) ∨
      (s.findClientID p ≠ 0 ∧ s.proxyID (s.findClientID p) = p ∧ p ≠ 0) := by
  unfold findClientID
  by_cases hp : p = 0
  · rw [if_pos hp]
    exact .inl ⟨rfl, fun hne => absurd hp hne⟩
  · have hn : (clientIDs.countP fun d => s.proxyID d != 0) ≤ s.noMappings.toNat := by
      rw [h.counted]
      exact clientIDs_sublist.countP_le
    rw [if_neg hp, findClientLoop_eq hp hn]
    cases hfind : clientIDs.find? fun d => s.proxyID d == p with
    | none =>
      refine .inl ⟨rfl, fun _ d hd heq => ?_⟩
      exact List.find?_eq_none.mp hfind d (mem_clientIDs.mpr hd) (beq_iff_eq.mpr heq)
    | some d =>
      have hd : d ≠ 0 := mem_clientIDs.mp (List.mem_of_find?_eq_some hfind)
      have hid : (s.proxyID d == p) = true := List.find?_some (p := fun d => s.proxyID d == p) hfind
      exact .inr ⟨hd, eq_of_beq hid, hp⟩

/-- What `createClientID` makes. -/
theorem createClientID_spec (s : ProxyHandler) :
    (s.createClientID = 0 ∧ ∀ d, d ≠ 0 → s.proxyID d ≠ 0) ∨
      (s.createClientID ≠ 0 ∧ s.proxyID s.createClientID = 0) := by
  unfold createClientID
  cases hfind : clientIDs.find? fun d => s.proxyID d == 0 with
  | none =>
    refine .inl ⟨rfl, fun d hd heq => ?_⟩
    exact List.find?_eq_none.mp hfind d (mem_clientIDs.mpr hd) (beq_iff_eq.mpr heq)
  | some d =>
    have hid : (s.proxyID d == 0) = true := List.find?_some (p := fun d => s.proxyID d == 0) hfind
    exact .inr ⟨mem_clientIDs.mp (List.mem_of_find?_eq_some hfind), eq_of_beq hid⟩

/-! ## Steps -/

/-- The identifiers and the number stay the same. -/
theorem mapRight_same (h : s.MapRight) (hids : ∀ d, s'.proxyID d = s.proxyID d)
    (hnumber : s'.noMappings = s.noMappings)
    (hactive : ∀ d, s'.isActive d = true → s.proxyID d ≠ 0) : s'.MapRight where
  distinct := by
    intro a b ha heq
    rw [hids] at ha heq
    rw [hids] at heq
    exact h.distinct a b ha heq
  active := by
    intro a ha
    rw [hids]
    exact hactive a ha
  counted := by
    have hused : s'.used = s.used := by
      unfold used
      simp only [hids]
    rw [hnumber, hused]
    exact h.counted

/-- A free entry is taken. -/
theorem mapRight_take (h : s.MapRight) (hfree : s.proxyID c = 0)
    (hids : ∀ d, s'.proxyID d = if d = c then p else s.proxyID d)
    (hnumber : s'.noMappings = s.noMappings + 1)
    (hactive : ∀ d, d ≠ c → s'.isActive d = s.isActive d) :
    s'.MapRight ↔ p ≠ 0 ∧ (∀ d, s.proxyID d ≠ p) ∧ s.noMappings ≠ 255 := by
  have hc : s'.proxyID c = p := by rw [hids, if_pos rfl]
  have hother (d : UInt8) (hd : d ≠ c) : s'.proxyID d = s.proxyID d := by rw [hids, if_neg hd]
  have hused := used_change hother
  rw [hfree, hc, bne_self_eq_false, Bool.toNat_false, Nat.add_zero] at hused
  have hlt := s.noMappings.toNat_lt
  have hplus : (s.noMappings + 1).toNat = (s.noMappings.toNat + 1) % 256 := UInt8.toNat_add _ _
  constructor
  · intro h'
    have hcounted := h'.counted
    rw [hnumber, hplus, hused, ← h.counted] at hcounted
    have hp : p ≠ 0 := by
      rintro rfl
      rw [bne_self_eq_false, Bool.toNat_false] at hcounted
      omega
    rw [bne_iff_ne.mpr hp, Bool.toNat_true] at hcounted
    refine ⟨hp, fun d hd => ?_, fun hmax => ?_⟩
    · have hne : d ≠ c := by
        rintro rfl
        exact hp (hd.symm.trans hfree)
      exact hne (h'.distinct d c (by rw [hother d hne, hd]; exact hp)
        (by rw [hother d hne, hd, hc]))
    · rw [hmax] at hcounted
      cases hcounted
  · rintro ⟨hp, hnew, hmax⟩
    refine ⟨fun a b ha heq => ?_, fun a ha => ?_, ?_⟩
    · by_cases hac : a = c
      · by_cases hbc : b = c
        · rw [hac, hbc]
        · rw [hac, hc, hother b hbc] at heq
          exact absurd heq.symm (hnew b)
      · by_cases hbc : b = c
        · rw [hbc, hc, hother a hac] at heq
          exact absurd heq (hnew a)
        · rw [hother a hac] at ha heq
          rw [hother b hbc] at heq
          exact h.distinct a b ha heq
    · by_cases hac : a = c
      · rw [hac, hc]
        exact hp
      · rw [hother a hac]
        exact h.active a (hactive a hac ▸ ha)
    · have hsmall : s.noMappings.toNat ≠ 255 := fun heq => hmax (UInt8.toNat_inj.mp heq)
      rw [hnumber, hplus, hused, bne_iff_ne.mpr hp, Bool.toNat_true, ← h.counted]
      omega

theorem proxyID_writeMapping (clients : ClientState) (f : ProxyClientMapping → ProxyClientMapping) :
    ((clients.writeMapping c f).proxyMap d) =
      if d = c then f (clients.proxyMap c) else clients.proxyMap d := by
  unfold ClientState.writeMapping
  by_cases hd : d = c
  · subst hd
    rw [if_pos rfl]
    exact Function.update_self _ _ _
  · rw [if_neg hd]
    exact Function.update_of_ne hd _ _

/-- What `addMapping` does when the mapping can be added. -/
theorem addMapping_map {cSocket : Option Nat} (activate : Bool)
    (hmap : s.canMap p c cSocket = true) :
    (∀ d, (s.addMapping p c cSocket activate).1.proxyID d =
        if d = c then if s.proxyID c = 0 then p else s.proxyID c else s.proxyID d) ∧
      (∀ d, (s.addMapping p c cSocket activate).1.isActive d =
        if d = c then activate else s.isActive d) ∧
      (s.addMapping p c cSocket activate).1.noMappings =
        if s.proxyID c = 0 then s.noMappings + 1 else s.noMappings := by
  unfold addMapping
  rw [if_pos hmap]
  refine ⟨fun d => ?_, fun d => ?_, rfl⟩
  · unfold proxyID
    dsimp only
    rw [proxyID_writeMapping]
    split
    · rfl
    · rfl
  · unfold isActive
    dsimp only
    rw [proxyID_writeMapping]
    split
    · rfl
    · rfl

/-- `addMapping` breaks the map only when it takes a free entry. -/
theorem addMapping_right (h : s.MapRight) (cSocket : Option Nat) (activate : Bool) :
    (s.addMapping p c cSocket activate).1.MapRight ↔
      (s.findClientID p = 0 → s.proxyID c = 0 →
        p ≠ 0 ∧ (∀ d, s.proxyID d ≠ p) ∧ s.noMappings ≠ 255) := by
  by_cases hmap : s.canMap p c cSocket = true
  · obtain ⟨hids, hactive, hnumber⟩ := addMapping_map activate hmap
    unfold canMap at hmap
    dsimp only at hmap
    rcases findClientID_spec h p with ⟨hzero, -⟩ | ⟨hne, hfound, hp⟩
    · rw [if_pos hzero, Bool.and_eq_true, beq_iff_eq] at hmap
      rw [if_pos hmap.1] at hnumber
      have htake := mapRight_take (p := p) h hmap.1 (fun d => by rw [hids, if_pos hmap.1]) hnumber
        fun d hd => by rw [hactive, if_neg hd]
      exact htake.trans ⟨fun hr _ _ => hr, fun hr => hr hzero hmap.1⟩
    · -- the entry of the proxy is found: it is in use
      rw [if_neg hne] at hmap
      split at hmap
      · next heq =>
        rw [heq] at hfound
        have hused : s.proxyID c ≠ 0 := hfound ▸ hp
        rw [if_neg hused] at hnumber
        refine ⟨fun _ hzero => absurd hzero hne, fun _ => mapRight_same h (fun d => ?_) hnumber
          fun d hd => ?_⟩
        · rw [hids, if_neg hused]
          split
          · next hdc => rw [hdc]
          · rfl
        · rw [hactive] at hd
          split at hd
          · next hdc =>
            rw [hdc]
            exact hused
          · exact h.active d hd
      · cases hmap
  · have hsame : (s.addMapping p c cSocket activate).1 = s := by
      unfold addMapping
      rw [if_neg hmap]
    rw [hsame]
    refine ⟨fun _ hzero hfree => absurd ?_ hmap, fun _ => h⟩
    have hidle : s.isActive c = false := Bool.eq_false_iff.mpr fun hact => h.active c hact hfree
    unfold canMap
    dsimp only
    rw [if_pos hzero, hfree, hidle]
    rfl

theorem mappable_iff (hzero : ∀ d, d ≠ 0 → s.proxyID d ≠ p) :
    s.Mappable p ↔ (∀ d, s.proxyID d ≠ p) ∧ s.noMappings ≠ 255 := by
  constructor
  · rintro (⟨d, hd, heq⟩ | ⟨hfirst, hmax⟩)
    · exact absurd heq (hzero d hd)
    · refine ⟨fun d => ?_, hmax⟩
      by_cases hd : d = 0
      · rw [hd]
        exact hfirst
      · exact hzero d hd
  · rintro ⟨hnew, hmax⟩
    exact .inr ⟨hnew 0, hmax⟩

theorem handshake_right (h : s.MapRight) (version : UInt16) (client : Nat) :
    (s.processHandshake version p client).1.MapRight ↔ s.Harmless (.handshake version p client) := by
  unfold processHandshake Harmless
  by_cases hversion : version = srxProtocolVer
  · rw [if_neg (not_not.mpr hversion)]
    dsimp only
    rcases findClientID_spec h p with ⟨hzero, hnone⟩ | ⟨hne, hfound, hp⟩
    · rw [if_pos hzero]
      rcases createClientID_spec s with ⟨hfull, hused⟩ | ⟨hclient, hfree⟩
      · rw [hfull, if_neg (by decide)]
        exact ⟨fun _ _ ⟨d, hd, hfree⟩ => absurd hfree (hused d hd), fun _ => h⟩
      · rw [if_pos (UInt8.pos_iff_ne_zero.mpr hclient), addMapping_right h]
        constructor
        · intro hr _ _
          obtain ⟨hp, hnew⟩ := hr hzero hfree
          exact ⟨hp, (mappable_iff (hnone hp)).mpr hnew⟩
        · intro hr _ _
          obtain ⟨hp, hmap⟩ := hr hversion ⟨_, hclient, hfree⟩
          exact ⟨hp, (mappable_iff (hnone hp)).mp hmap⟩
    · rw [if_neg hne, if_pos (UInt8.pos_iff_ne_zero.mpr hne), addMapping_right h]
      exact ⟨fun _ _ _ => ⟨hp, .inl ⟨_, hne, hfound⟩⟩, fun _ hzero => absurd hzero hne⟩
  · rw [if_pos hversion]
    exact ⟨fun _ heq => absurd heq hversion, fun _ => h⟩

theorem assign_right (h : s.MapRight) :
    (s.configureTurn p c).MapRight ↔ s.Harmless (.assign p c) := by
  unfold configureTurn Harmless
  by_cases hp : p = 0
  · rw [if_neg (by rw [hp]; decide)]
    exact ⟨fun _ hne => absurd hp hne, fun _ => h⟩
  · rw [if_pos (UInt32.pos_iff_ne_zero.mpr hp), addMapping_right h]
    rcases findClientID_spec h p with ⟨hzero, hnone⟩ | ⟨hne, hfound, -⟩
    · have hiff := mappable_iff (hnone hp)
      exact ⟨fun hr _ hfree => hiff.mpr (hr hzero hfree).2,
        fun hr _ hfree => ⟨hp, hiff.mp (hr hp hfree)⟩⟩
    · exact ⟨fun _ _ _ => .inl ⟨_, hne, hfound⟩, fun _ hzero => absurd hzero hne⟩

theorem setActive_right (h : s.MapRight) (value : Bool) : (s.setActivationFlag c value).MapRight := by
  have hclients : (s.clients.setActivationFlag c value) = s.clients ∨
      s.proxyID c ≠ 0 ∧ s.clients.setActivationFlag c value =
        s.clients.writeMapping c fun mapping => { mapping with isActive := value } := by
    unfold ClientState.setActivationFlag
    split
    · next hset => exact .inr ⟨UInt32.pos_iff_ne_zero.mp hset.2, rfl⟩
    · exact .inl rfl
  have hset : (s.setActivationFlag c value).clients = s.clients.setActivationFlag c value := rfl
  refine mapRight_same h (fun d => ?_) rfl fun d hd => ?_
  · unfold proxyID
    rw [hset]
    rcases hclients with heq | ⟨-, heq⟩
    · rw [heq]
    · rw [heq, proxyID_writeMapping]
      split
      · next hdc => rw [hdc]
      · rfl
  · unfold isActive at hd
    rw [hset] at hd
    rcases hclients with heq | ⟨hused, heq⟩
    · rw [heq] at hd
      exact h.active d hd
    · rw [heq, proxyID_writeMapping] at hd
      split at hd
      · next hdc =>
        rw [hdc]
        exact hused
      · exact h.active d hd

theorem unregister_map (clients : ClientState) (keepTime : UInt32) :
    ∃ count, ∀ d, (clients.unregister c keepTime).proxyMap d =
      if d = c then { clients.proxyMap c with updateCount := count } else clients.proxyMap d := by
  refine ⟨(unregisterClientID clients.updateCache c (clients.proxyMap c).updateCount keepTime).2.1,
    fun d => ?_⟩
  unfold ClientState.unregister
  dsimp only
  exact proxyID_writeMapping _ _

/-- `_delMapping` of an entry that is not active: only the identifier of an entry that is not
configured and whose proxy did not crash is gone. -/
theorem delMapping_map {clients : ClientState} (hidle : (clients.proxyMap c).isActive = false)
    (keepWindow : UInt16) :
    ((clients.delMapping c keepWindow).proxyMap d).proxyID =
        (if d = c ∧ (clients.proxyMap c).preDefined = false ∧ (clients.proxyMap c).crashed = 0 then 0
        else (clients.proxyMap d).proxyID) ∧
      ((clients.delMapping c keepWindow).proxyMap d).isActive = (clients.proxyMap d).isActive := by
  -- the entries before the identifier is written
  obtain ⟨count, hcount⟩ : ∃ count, ∀ d,
      (if (clients.proxyMap c).updateCount > 0 then clients.unregister c keepWindow.toUInt32
        else clients).proxyMap d =
      if d = c then { clients.proxyMap c with updateCount := count } else clients.proxyMap d := by
    split
    · exact unregister_map clients keepWindow.toUInt32
    · refine ⟨(clients.proxyMap c).updateCount, fun d => ?_⟩
      split
      · next hdc => rw [hdc]
      · rfl
  unfold ClientState.delMapping
  rw [hidle, Bool.not_false, if_pos rfl]
  dsimp only
  generalize (if (clients.proxyMap c).updateCount > 0 then clients.unregister c keepWindow.toUInt32
    else clients) = mid at hcount ⊢
  have hkeep : (mid.proxyMap d).proxyID = (clients.proxyMap d).proxyID ∧
      (mid.proxyMap d).isActive = (clients.proxyMap d).isActive := by
    rw [hcount]
    split
    · next hdc =>
      rw [hdc]
      exact ⟨rfl, rfl⟩
    · exact ⟨rfl, rfl⟩
  have hgone : (!(mid.proxyMap c).preDefined && (mid.proxyMap c).crashed == 0) = true ↔
      (clients.proxyMap c).preDefined = false ∧ (clients.proxyMap c).crashed = 0 := by
    rw [hcount, if_pos rfl, Bool.and_eq_true, Bool.not_eq_true', beq_iff_eq]
  by_cases hdel : (clients.proxyMap c).preDefined = false ∧ (clients.proxyMap c).crashed = 0
  · rw [if_pos (hgone.mpr hdel), proxyID_writeMapping]
    by_cases hdc : d = c
    · subst hdc
      rw [if_pos rfl, if_pos ⟨rfl, hdel⟩]
      exact ⟨rfl, hkeep.2⟩
    · rw [if_neg hdc, if_neg fun h => hdc h.1]
      exact hkeep
  · rw [if_neg fun h => hdel (hgone.mp h), if_neg fun h => hdel h.2]
    exact hkeep

theorem deactivate_map (crashed : Bool) (keepWindow : UInt16) (now : Nat) :
    (∀ d, (s.deactivateConnectionMapping c crashed keepWindow now).proxyID d =
        if d = c ∧ ¬ ((s.clients.proxyMap c).preDefined = true ∨ crashed = true ∧ now ≠ 0) then 0
        else s.proxyID d) ∧
      ∀ d, (s.deactivateConnectionMapping c crashed keepWindow now).isActive d =
        if d = c then false else s.isActive d := by
  have hcrashed : (if crashed then now else 0) = 0 ↔ ¬ (crashed = true ∧ now ≠ 0) := by
    cases crashed with
    | false => exact ⟨fun _ h => Bool.noConfusion h.1, fun _ => rfl⟩
    | true => exact ⟨fun h hne => hne.2 h, fun h => not_not.mp fun hne => h ⟨rfl, hne⟩⟩
  unfold ProxyHandler.deactivateConnectionMapping proxyID isActive
  dsimp only
  unfold ClientState.deactivateConnectionMapping
  dsimp only
  generalize (if keepWindow < s.clients.updateCache.defaultKeepWindow then _ else keepWindow) = window
  generalize hclients : (s.clients.writeMapping c fun mapping =>
    { mapping with isActive := false, crashed := if crashed then now else 0 }) = clients
  have hmap (d : UInt8) : clients.proxyMap d = if d = c then { s.clients.proxyMap c with
      isActive := false, crashed := if crashed then now else 0 } else s.clients.proxyMap d := by
    rw [← hclients, proxyID_writeMapping]
  have hidle : (clients.proxyMap c).isActive = false := by rw [hmap, if_pos rfl]
  have hlast (d : UInt8) : ∀ m : ProxyClientMapping, m = (if d = c then
      { (clients.delMapping c window).proxyMap c with updateCount := 0 }
      else (clients.delMapping c window).proxyMap d) →
        m.proxyID = ((clients.delMapping c window).proxyMap d).proxyID ∧
        m.isActive = ((clients.delMapping c window).proxyMap d).isActive := by
    rintro m rfl
    split
    · next hdc =>
      rw [hdc]
      exact ⟨rfl, rfl⟩
    · exact ⟨rfl, rfl⟩
  refine ⟨fun d => ?_, fun d => ?_⟩
  · rw [(hlast d _ (proxyID_writeMapping _ _)).1, (delMapping_map hidle window).1, hmap c, if_pos rfl]
    dsimp only
    simp only [hcrashed, not_or, Bool.not_eq_true]
    rw [hmap d]
    split
    · rfl
    · split
      · next hdc => rw [hdc]
      · rfl
  · rw [(hlast d _ (proxyID_writeMapping _ _)).2, (delMapping_map hidle window).2, hmap d]
    split
    · rfl
    · rfl

theorem deactivate_right (h : s.MapRight) (crashed : Bool) (keepWindow : UInt16) (now : Nat) :
    (s.deactivateConnectionMapping c crashed keepWindow now).MapRight ↔
      s.Harmless (.deactivate c crashed keepWindow now) := by
  obtain ⟨hids, hactive⟩ := @deactivate_map s c crashed keepWindow now
  constructor
  · intro h'
    refine Classical.or_iff_not_imp_left.mpr fun hused => ?_
    by_contra hgone
    -- the entry is free and still counted
    have hc : (s.deactivateConnectionMapping c crashed keepWindow now).proxyID c = 0 := by
      rw [hids, if_pos ⟨rfl, hgone⟩]
    have hcount := @used_change s (s.deactivateConnectionMapping c crashed keepWindow now) c
      fun d hd => by rw [hids, if_neg fun h => hd h.1]
    have hcounted : s.noMappings.toNat =
        (s.deactivateConnectionMapping c crashed keepWindow now).used := h'.counted
    rw [hc, bne_iff_ne.mpr hused, bne_self_eq_false, Bool.toNat_true, Bool.toNat_false, ← hcounted,
      h.counted] at hcount
    exact absurd hcount (Nat.succ_ne_self _)
  · intro hop
    refine mapRight_same h (fun d => ?_) rfl fun d hd => ?_
    · rw [hids]
      split
      · next hgone =>
        rw [hgone.1]
        rcases hop with hfree | hkeep
        · exact hfree.symm
        · exact absurd hkeep hgone.2
      · rfl
    · rw [hactive] at hd
      split at hd
      · cases hd
      · exact h.active d hd

theorem mapRight_step (h : s.MapRight) (op : ProxyOp) : (s.step op).MapRight ↔ s.Harmless op := by
  cases op with
  | handshake version p client => exact handshake_right h version client
  | assign p c => exact assign_right h
  | setActive c value => exact ⟨fun _ => trivial, fun _ => setActive_right h value⟩
  | deactivate c crashed keepWindow now => exact deactivate_right h crashed keepWindow now

end ProxyMapLemmas

/-! ## Result -/

namespace ProxyHandler

open ProxyMapLemmas

theorem mapRight_initial {m : UInt8} (minPos : 0 < m) (keepWindow : UInt16) :
    (initial m minPos keepWindow).MapRight where
  distinct := fun _ _ h => absurd rfl h
  active := fun _ h => nomatch h
  counted := by
    refine (List.countP_eq_zero.mpr fun c _ => ?_).symm
    exact fun h => nomatch h

/-- The map is right in every state of a run if and only if every step meets the condition. -/
theorem mapRight_iff (minNumberOfClients : UInt8) (minPos : 0 < minNumberOfClients)
    (keepWindow : UInt16) (ops : List ProxyOp) :
    Always step MapRight (initial minNumberOfClients minPos keepWindow) ops ↔
      EachStep step Harmless (initial minNumberOfClients minPos keepWindow) ops :=
  always_iff_eachStep (fun _ op h hop => (mapRight_step h op).mpr hop) (fun _ h => h)
    (fun _ op h hop h' => hop ((mapRight_step h op).mp h')) (mapRight_initial minPos keepWindow)

/-- A proxy says hello and crashes. -/
theorem mapRight_crash :
    EachStep step Harmless (initial 1 (by decide) 0) [.handshake 3 7 0, .deactivate 1 true 0 5] ∧
      Always step MapRight (initial 1 (by decide) 0) [.handshake 3 7 0, .deactivate 1 true 0 5] := by
  have hsteps : EachStep step Harmless (initial 1 (by decide) 0)
      [.handshake 3 7 0, .deactivate 1 true 0 5] :=
    eachStep_cons.mpr ⟨fun _ _ => ⟨by decide, .inr ⟨by decide, by decide⟩⟩,
      eachStep_cons.mpr ⟨.inr (.inr ⟨rfl, by decide⟩), eachStep_nil⟩⟩
  exact ⟨hsteps, (mapRight_iff 1 (by decide) 0 _).mpr hsteps⟩

/-- The configuration of the map, turn by turn. -/
def configuration (mappings : UInt8 → UInt32) : List ProxyOp :=
  ((List.range 256).map UInt8.ofNat).map fun clientID => .assign (mappings clientID) clientID

theorem configureProxyMap_eq (s : ProxyHandler) (mappings : UInt8 → UInt32) :
    s.configureProxyMap mappings = (configuration mappings).foldl step s := by
  unfold configureProxyMap configuration
  generalize (List.range 256).map UInt8.ofNat = clientIDs
  rw [List.foldl_map]
  rfl

/-- A server starts with the configuration, and goes on with a map that is right. -/
theorem mapRight_configured (minNumberOfClients : UInt8) (minPos : 0 < minNumberOfClients)
    (keepWindow : UInt16) (mappings : UInt8 → UInt32)
    (hconfig : EachStep step Harmless (initial minNumberOfClients minPos keepWindow) (configuration mappings))
    {ops : List ProxyOp} (hops : EachStep step Harmless
      ((initial minNumberOfClients minPos keepWindow).configureProxyMap mappings) ops) :
    Always step MapRight ((initial minNumberOfClients minPos keepWindow).configureProxyMap mappings) ops := by
  have hstep : ∀ (s : ProxyHandler) (op : ProxyOp), s.MapRight → s.Harmless op → (s.step op).MapRight :=
    fun _ op h hop => (mapRight_step h op).mpr hop
  rw [configureProxyMap_eq] at hops ⊢
  exact always_of_eachStep hstep (always_of_eachStep hstep (mapRight_initial minPos keepWindow) hconfig _ []
    (List.append_nil _).symm) hops

/-- A proxy says hello and goodbye: its entry is free and still counted. -/
theorem goodbye_counted :
    ¬ Always step MapRight (initial 1 (by decide) 0)
      [.handshake 3 7 0, .deactivate 1 false 0 0] := by
  intro h
  have hhello := h [.handshake 3 7 0] [.deactivate 1 false 0 0] rfl
  have hgoodbye := h [.handshake 3 7 0, .deactivate 1 false 0 0] [] rfl
  rcases (mapRight_step hhello (.deactivate 1 false 0 0)).mp hgoodbye with
    hfree | hconfigured | ⟨hcrashed, -⟩
  · exact absurd hfree (by decide +kernel)
  · exact absurd hconfigured (by decide +kernel)
  · cases hcrashed

end ProxyHandler

end SrxSuite.Server
