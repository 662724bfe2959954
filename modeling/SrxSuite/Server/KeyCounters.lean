import SrxSuite.Server.PathParsing
import SrxSuite.Server.SkiUndo

/-!
# The key counters of the SKI cache

`KeyHistory` runs the functions of the SKI cache in any order, beside the numbers of registrations and
removals of every key.

Results:
1. `counters_right`: as long as every call is `Counted`, the counter of a key is the number of its
   registrations less that of its removals, and the key can be unregistered if and only if this is not
   zero.
2. `counter_lost`: of two keys that share AS number, SKI and algorithm, one removal takes both, when no
   update needs them.
-/

namespace SrxSuite.Server

open Crypto Bytes Runs SkiNoticesLemmas

/-- `canUnregister` of `ski_unregisterKey`: the cache has the key. -/
def SkiTree.canUnregister (cache : SkiTree) (key : SkiKey) : Bool :=
  (cache.getData key).any (0 < ·.counter)

/-- A call of the SKI cache. The attribute is memory, well-formed or not. -/
inductive SkiCall
  | registerUpdate (updateID : UInt32) (bgpsec : Bytes)
  | unregisterUpdate (updateID : UInt32) (bgpsec : Bytes)
  | registerKey (key : SkiKey)
  | unregisterKey (key : SkiKey)

/-- The cache after a call. -/
def SkiTree.call (cache : SkiTree) : SkiCall → Option SkiTree
  | .registerUpdate updateID bgpsec => skiRegisterUpdate cache updateID bgpsec
  | .unregisterUpdate updateID bgpsec => skiUnregisterUpdate cache updateID bgpsec
  | .registerKey key => (registerKeyTree cache key).map Prod.fst
  | .unregisterKey key => (unregisterKeyTree cache key).map Prod.fst

/-- The SKI cache, `none` after something that is not defined in C, and what was done with each key. -/
structure KeyHistory where
  cache : Option SkiTree
  registrations : SkiKey → Nat
  removals : SkiKey → Nat

namespace KeyHistory

/-- After `ski_createCache`. -/
def initial : KeyHistory := ⟨some SortedMap.empty, fun _ => 0, fun _ => 0⟩

def step (s : KeyHistory) (op : SkiCall) : KeyHistory where
  cache := s.cache.bind fun cache => cache.call op
  registrations := match op with
    | .registerKey key => Function.update s.registrations key (s.registrations key + 1)
    | _ => s.registrations
  removals := match op with
    | .unregisterKey key => Function.update s.removals key (s.removals key + 1)
    | _ => s.removals

/-- The counters say what was done: for every key that was not removed more often than it was
registered, the counter is the difference, and the key is there if and only if it is not zero. -/
def Right (s : KeyHistory) : Prop :=
  ∃ cache, s.cache = some cache ∧ ∀ key, s.removals key ≤ s.registrations key →
    (dataOf cache key).counter.toNat = s.registrations key - s.removals key ∧
      (cache.canUnregister key = true ↔ s.removals key < s.registrations key)

/-- The condition. The attribute of an update has one signature block, or the parser refuses it inside
of it. An update that is registered brings no algorithm in front of the first one of an AS; with the
identifier zero it meets no other. A key that is registered is so fewer than 255 times, and its
algorithm is not a new first one of its AS. A key that is unregistered is there, and it is there once
only, or updates need it. -/
def Counted (s : KeyHistory) (op : SkiCall) : Prop :=
  ∀ cache, s.cache = some cache →
    match op with
    | .registerUpdate updateID bgpsec => RefusedInside bgpsec ∨
        ∃ attr : BgpsecPath, attr.blocks.length = 1 ∧ bgpsec = attr.encode ∧
          InsertsInOrder cache attr ∧ ZeroAlone cache updateID attr
    | .unregisterUpdate _ bgpsec => RefusedInside bgpsec ∨ OneBlock bgpsec
    | .registerKey key => ¬ cache.BeforeFirst key.asn key.algoID ∧
        s.registrations key < s.removals key + 255
    | .unregisterKey key => s.removals key < s.registrations key ∧
        (s.registrations key = s.removals key + 1 ∨ (dataOf cache key).cacheUID.items ≠ [])

end KeyHistory

namespace KeyCountersLemmas

open SkiCacheLemmas SkiUndoLemmas PathParsingLemmas

variable {cache cache' : SkiTree} {key : SkiKey} {keys : List SkiKey} {updateID : UInt32}
  {bgpsec : Bytes}

/-! ## Calls for updates leave the counters alone -/

/-- The counters are those of `cache`. -/
def SameCounters (cache cache' : SkiTree) : Prop :=
  ∀ key, (dataOf cache' key).counter = (dataOf cache key).counter

theorem sameCounters_set {l : UidList}
    (h : DataSet cache cache' key { dataOf cache key with cacheUID := l }) :
    SameCounters cache cache' := by
  intro key'
  rw [h key']
  split
  · next heq => rw [heq]
  · rfl

/-- A loop whose turns leave the counters alone does. -/
theorem sameCounters_fold {turn : SkiTree → SkiKey → Option SkiTree}
    (hturn : ∀ cache key cache', turn cache key = some cache' → SameCounters cache cache')
    (h : keys.foldlM turn cache = some cache') : SameCounters cache cache' := by
  induction keys generalizing cache with
  | nil =>
    obtain rfl := Option.some.inj h
    exact fun _ => rfl
  | cons key keys ih =>
    rw [List.foldlM_cons] at h
    obtain ⟨cache₁, hfirst, hrest⟩ := Option.bind_eq_some_iff.mp h
    exact fun key' => (ih hrest key').trans (hturn cache key cache₁ hfirst key')

theorem sameCounters_register (h : skiRegisterUpdate cache updateID bgpsec = some cache') :
    SameCounters cache cache' := by
  unfold skiRegisterUpdate at h
  obtain ⟨parsed, -, h⟩ := Option.bind_eq_some_iff.mp h
  cases parsed with
  | none =>
    obtain rfl := Option.some.inj h
    exact fun _ => rfl
  | some info =>
    obtain ⟨keys, -, h⟩ := Option.bind_eq_some_iff.mp h
    exact sameCounters_fold (fun _ _ _ hturn => sameCounters_set (registerTurn_dataSet hturn)) h

theorem sameCounters_unregister (h : skiUnregisterUpdate cache updateID bgpsec = some cache') :
    SameCounters cache cache' := by
  unfold skiUnregisterUpdate at h
  obtain ⟨parsed, -, h⟩ := Option.bind_eq_some_iff.mp h
  cases parsed with
  | none =>
    obtain rfl := Option.some.inj h
    exact fun _ => rfl
  | some info =>
    obtain ⟨keys, -, h⟩ := Option.bind_eq_some_iff.mp h
    refine sameCounters_fold (fun cache key cache' hturn => ?_) h
    obtain ⟨cache₁, hcache₁, hset⟩ := unregisterTurn_spec updateID cache key
    obtain rfl := Option.some.inj (hcache₁.symm.trans hturn)
    exact sameCounters_set hset

/-- Nothing is done for an attribute that is refused. -/
theorem skiUpdate_refused (h : RefusedInside bgpsec) :
    skiRegisterUpdate cache updateID bgpsec = some cache ∧
      skiUnregisterUpdate cache updateID bgpsec = some cache := by
  unfold skiRegisterUpdate skiUnregisterUpdate
  rw [(parse_refused_iff bgpsec).mpr h]
  exact ⟨rfl, rfl⟩

theorem unregisterFold_isSome (updateID : UInt32) (cache : SkiTree) (keys : List SkiKey) :
    (keys.foldlM (unregisterTurn updateID) cache).isSome := by
  induction keys generalizing cache with
  | nil => rfl
  | cons key keys ih =>
    obtain ⟨cache₁, hcache₁, -⟩ := unregisterTurn_spec updateID cache key
    rw [List.foldlM_cons, hcache₁]
    exact ih cache₁

/-- Unregistering an update of one signature block comes back, whether it is registered or not. -/
theorem skiUnregister_oneBlock (h : OneBlock bgpsec) :
    (skiUnregisterUpdate cache updateID bgpsec).isSome := by
  obtain ⟨attr, hone, rfl⟩ := h
  rw [(@skiRegisterUpdate_encode cache updateID attr hone).2.1]
  exact unregisterFold_isSome updateID cache _

/-! ## Keys -/

theorem canUnregister_iff : cache.canUnregister key = true ↔ 0 < (dataOf cache key).counter.toNat := by
  unfold SkiTree.canUnregister dataOf
  cases cache.getData key with
  | none => exact iff_of_false Bool.false_ne_true (Nat.lt_irrefl 0)
  | some cData => exact decide_eq_true_iff.trans UInt8.lt_iff_toNat_lt

/-- The counters are those of `cache`, but for one key. -/
def CounterSet (cache cache' : SkiTree) (key : SkiKey) (counter : UInt8) : Prop :=
  ∀ key', (dataOf cache' key').counter = if key' = key then counter else (dataOf cache key').counter

theorem counterSet_of_dataSet {cData : SkiData} (h : DataSet cache cache' key cData) :
    CounterSet cache cache' key cData.counter := by
  intro key'
  rw [h key']
  split
  · rfl
  · rfl

theorem registerKeyTree_counter (h : ¬ cache.BeforeFirst key.asn key.algoID) :
    ∃ cache', (registerKeyTree cache key).map Prod.fst = some cache' ∧
      CounterSet cache cache' key ((dataOf cache key).counter + 1) := by
  obtain ⟨cache', hcache', hregister⟩ := registerKeyTree_spec h
  refine ⟨cache', ?_, counterSet_of_dataSet (dataSet_setData hcache')⟩
  rw [hregister]
  rfl

/-- The counter goes down by one when the key is there once, or updates need it. -/
theorem unregisterKeyTree_counter (hpos : 0 < (dataOf cache key).counter.toNat)
    (h : (dataOf cache key).counter.toNat = 1 ∨ (dataOf cache key).cacheUID.items ≠ []) :
    ∃ cache', (unregisterKeyTree cache key).map Prod.fst = some cache' ∧
      CounterSet cache cache' key ((dataOf cache key).counter - 1) := by
  obtain ⟨hnone, -⟩ | ⟨cData, hdata, hcase⟩ := unregisterKeyTree_cases cache key
  · rw [dataOf_none hnone] at hpos
    exact absurd hpos (Nat.lt_irrefl 0)
  rw [dataOf_eq hdata] at hpos h ⊢
  obtain ⟨hzero, -⟩ | ⟨-, hempty, hremoved⟩ | ⟨-, -, cache', hcache', hset⟩ := hcase
  · rw [hzero] at hpos
    exact absurd hpos (Nat.lt_irrefl 0)
  · have hone : cData.counter = 1 := UInt8.toNat_inj.mp (h.resolve_right fun hne => hne hempty)
    rw [hremoved, hone]
    exact ⟨_, rfl, counterSet_of_dataSet (dataSet_removeData cache key)⟩
  · rw [hset]
    exact ⟨cache', rfl, counterSet_of_dataSet (dataSet_setData hcache')⟩

/-! ## Runs -/

variable {s : KeyHistory} {op : SkiCall}

open KeyHistory

/-- The invariant: no key was removed more often than it was registered, and every counter is the
difference. -/
def Balanced (s : KeyHistory) : Prop :=
  ∃ cache, s.cache = some cache ∧ ∀ key, s.removals key ≤ s.registrations key ∧
    (dataOf cache key).counter.toNat = s.registrations key - s.removals key

theorem Balanced.right (h : Balanced s) : s.Right := by
  obtain ⟨cache, hcache, hkeys⟩ := h
  refine ⟨cache, hcache, fun key _ => ⟨(hkeys key).2, ?_⟩⟩
  rw [canUnregister_iff, (hkeys key).2, Nat.sub_pos_iff_lt]

theorem balanced_initial : Balanced initial :=
  ⟨SortedMap.empty, rfl, fun _ => ⟨Nat.le_refl 0, rfl⟩⟩

theorem balanced_step (h : Balanced s) (hop : s.Counted op) : Balanced (s.step op) := by
  obtain ⟨cache, hcache, hkeys⟩ := h
  have hfits := hop cache hcache
  cases op with
  | registerUpdate updateID bgpsec =>
    have hsome : (skiRegisterUpdate cache updateID bgpsec).isSome := by
      obtain hrefused | ⟨attr, hone, rfl, hfile⟩ := hfits
      · rw [(skiUpdate_refused hrefused).1]
        rfl
      · exact (registerUpdate_isSome hone).mpr hfile
    obtain ⟨cache', hcall⟩ := Option.isSome_iff_exists.mp hsome
    refine ⟨cache', (congrArg (Option.bind · _) hcache).trans hcall, fun key => ?_⟩
    rw [sameCounters_register hcall key]
    exact hkeys key
  | unregisterUpdate updateID bgpsec =>
    have hsome : (skiUnregisterUpdate cache updateID bgpsec).isSome := by
      obtain hrefused | hone := hfits
      · rw [(skiUpdate_refused hrefused).2]
        rfl
      · exact skiUnregister_oneBlock hone
    obtain ⟨cache', hcall⟩ := Option.isSome_iff_exists.mp hsome
    refine ⟨cache', (congrArg (Option.bind · _) hcache).trans hcall, fun key => ?_⟩
    rw [sameCounters_unregister hcall key]
    exact hkeys key
  | registerKey key =>
    obtain ⟨horder, hroom⟩ := hfits
    obtain ⟨cache', hcall, hset⟩ := registerKeyTree_counter horder
    refine ⟨cache', (congrArg (Option.bind · _) hcache).trans hcall, fun key' => ?_⟩
    obtain ⟨hle, hcounter⟩ := hkeys key'
    show s.removals key' ≤ Function.update s.registrations key (s.registrations key + 1) key' ∧ _ =
      Function.update s.registrations key (s.registrations key + 1) key' - s.removals key'
    rw [hset key']
    by_cases heq : key' = key
    · subst heq
      rw [if_pos rfl, Function.update_self, UInt8.toNat_add, hcounter]
      refine ⟨Nat.le_succ_of_le hle, ?_⟩
      rw [show (1 : UInt8).toNat = 1 from rfl, Nat.mod_eq_of_lt (by omega)]
      omega
    · rw [if_neg heq, Function.update_of_ne heq]
      exact ⟨hle, hcounter⟩
  | unregisterKey key =>
    obtain ⟨hlt, hone⟩ := hfits
    obtain ⟨-, hcounter⟩ := hkeys key
    obtain ⟨cache', hcall, hset⟩ := @unregisterKeyTree_counter cache key
      (by rw [hcounter]; omega) (hone.imp_left fun h => by rw [hcounter]; omega)
    refine ⟨cache', (congrArg (Option.bind · _) hcache).trans hcall, fun key' => ?_⟩
    obtain ⟨hle, hcounter'⟩ := hkeys key'
    show Function.update s.removals key (s.removals key + 1) key' ≤ s.registrations key' ∧ _ =
      s.registrations key' - Function.update s.removals key (s.removals key + 1) key'
    rw [hset key']
    by_cases heq : key' = key
    · subst heq
      have hle : (1 : UInt8) ≤ (dataOf cache key').counter := by
        rw [UInt8.le_iff_toNat_le, hcounter]
        exact Nat.sub_pos_of_lt hlt
      rw [if_pos rfl, Function.update_self, UInt8.toNat_sub_of_le _ _ hle, hcounter]
      exact ⟨hlt, Nat.sub_sub ..⟩
    · rw [if_neg heq, Function.update_of_ne heq]
      exact ⟨hle, hcounter'⟩

end KeyCountersLemmas

/-! ## Results -/

namespace KeyHistory

open KeyCountersLemmas

/-- In a run of counted calls the counters are right in every state. -/
theorem counters_right (ops : List SkiCall) (h : EachStep step Counted initial ops) :
    Always step Right initial ops := by
  have hbalanced := always_of_eachStep (fun _ _ => balanced_step) balanced_initial h
  exact fun before after heq => (hbalanced before after heq).right

/-- A key of AS 65001. -/
def sharedKey : SkiKey := ⟨65001, List.replicate 20 7, 1⟩

/-- The algorithms of the AS of the key after the first calls of a run. -/
theorem first_of_run (ops : List SkiCall) {cache : SkiTree}
    (hcache : (ops.foldl step initial).cache = some cache)
    (h : (ops.foldl step initial).cache.map (fun cache => (cache.algos 65001).first) = some (some 1)) :
    (cache.algos 65001).first = some 1 := by
  rw [hcache] at h
  exact Option.some.inj h

/-- The key comes twice and goes once while an update needs it, and goes again without the update. -/
def sharedRun : List SkiCall :=
  [.registerKey sharedKey, .registerUpdate 3 SkiSystem.oneBlock.encode, .registerKey sharedKey,
    .unregisterKey sharedKey, .unregisterUpdate 3 SkiSystem.oneBlock.encode, .unregisterKey sharedKey]

theorem counters_right_shared :
    EachStep step Counted initial sharedRun ∧ Always step Right initial sharedRun := by
  have hcounted : EachStep step Counted initial sharedRun := by
    refine eachStep_cons.mpr ⟨fun cache hcache => ⟨?_, by decide⟩,
      eachStep_cons.mpr ⟨fun cache hcache => .inr ⟨SkiSystem.oneBlock, rfl, rfl, ?_, fun hzero => ?_⟩,
        eachStep_cons.mpr ⟨fun cache hcache => ⟨?_, by decide +kernel⟩,
          eachStep_cons.mpr ⟨fun cache hcache => ⟨by decide +kernel, .inr ?_⟩,
            eachStep_cons.mpr ⟨fun cache hcache => .inr ⟨SkiSystem.oneBlock, rfl, rfl⟩,
              eachStep_cons.mpr ⟨fun cache hcache => ⟨by decide +kernel, .inl (by decide +kernel)⟩,
                eachStep_nil⟩⟩⟩⟩⟩⟩
    · obtain rfl := Option.some.inj hcache
      rintro ⟨first, hfirst, -⟩
      cases hfirst
    · have hone := first_of_run [.registerKey sharedKey] hcache (by decide +kernel)
      intro seg hseg block hblock first hfirst
      obtain rfl := List.mem_singleton.mp hseg
      obtain rfl := List.mem_singleton.mp hblock
      rw [hone] at hfirst
      obtain rfl := Option.some.inj hfirst
      exact UInt8.le_refl _
    · cases hzero
    · have hone := first_of_run (sharedRun.take 2) hcache (by decide +kernel)
      rintro ⟨first, hfirst, hlt⟩
      rw [show sharedKey.asn = 65001 from rfl, hone] at hfirst
      obtain rfl := Option.some.inj hfirst
      exact absurd hlt (UInt8.lt_irrefl _)
    · have hneeded : ((sharedRun.take 3).foldl step initial).cache.map
          (fun cache => (dataOf cache sharedKey).cacheUID.items.length) = some 1 := by
        decide +kernel
      rw [show ((sharedRun.take 3).foldl step initial).cache = some cache from hcache] at hneeded
      exact fun hempty => by simp [hempty] at hneeded
  exact ⟨hcounted, counters_right _ hcounted⟩

/-- Two keys with one SKI come and one goes: the cache has none. -/
theorem counter_lost : ¬ Always step Right initial
    [.registerKey sharedKey, .registerKey sharedKey, .unregisterKey sharedKey] := by
  intro h
  obtain ⟨cache, hcache, hkeys⟩ := h _ [] (List.append_nil _).symm
  obtain ⟨hcounter, -⟩ := hkeys sharedKey (by decide +kernel)
  have hlost : ([.registerKey sharedKey, .registerKey sharedKey, .unregisterKey sharedKey].foldl step
      initial).cache.map (fun cache => (dataOf cache sharedKey).counter.toNat) = some 0 := by
    decide +kernel
  rw [hcache] at hlost
  rw [show (dataOf cache sharedKey).counter.toNat = 0 from Option.some.inj hlost] at hcounter
  exact absurd hcounter (by decide +kernel)

end KeyHistory

end SrxSuite.Server
