import Mathlib.Algebra.Group.Int.Defs
import Mathlib.Algebra.Group.Nat.Defs
import Mathlib.Data.Int.Basic
import Mathlib.Data.List.Nodup
import SrxSuite.Lib.Runs

/-!
# Timers over one alarm

The model of `util/timer.c`. All timers share the alarm of the system, which is set for the earliest one.
The identifier of a timer is its position in the list at the time it is set up, and a call looks it up by
the position. The alarm is set to the difference of two readings of the clock; a difference of 0 disarms
it and a negative one is refused.

The timer that `setupTimer` allocates is known by its address, and `issued` keeps the identifiers that
were returned. A callback is called at the end of the signal handler, so that what it calls are the next
operations of the run.

`timers_keep_firing` says when the alarm stays set and every identifier stands for its timer.
-/

namespace SrxSuite.Util

open Runs

/-! ## The code -/

/-- `Timer` -/
structure Timer where
  address : Nat
  id : Int
  active : Bool
  future : Int
  interval : Int
  callback : Nat
  deriving DecidableEq, Repr

/-- A timer that fires once is disabled, any other one gets its next time. -/
def Timer.expire (t : Timer) : Timer :=
  if t.interval = -1 then { t with active := false } else { t with future := t.future + t.interval }

/-- The static variables, and the delay the alarm is set to. -/
structure Timers where
  initialized : Bool
  timerList : List Timer
  activeId : Int
  alarm : Option Int
  fresh : Nat
  issued : List (Int × Nat)
  called : List (Nat × Int)
  deriving DecidableEq, Repr

namespace Timers

/-- The start of the process. -/
def start : Timers := ⟨false, [], 0, none, 0, [], []⟩

/-- `getFromSList` for the list of the timers. An index below 0 gives the root. -/
def getFromSList (timerList : List Timer) (index : Int) : Option Timer :=
  if index ≥ timerList.length then none else timerList[index.toNat]?

/-- A change through the pointer to a timer. -/
def modify (s : Timers) (t : Timer) (f : Timer → Timer) : Timers :=
  { s with timerList := s.timerList.map fun u => if u.address = t.address then f u else u }

/-- `setTimer`. The seconds are an `int`; `setitimer` fails for a negative number. -/
def setTimer (s : Timers) (sec : Int) : Timers :=
  let sec := sec.bmod (2 ^ 32)
  if sec < 0 then s else { s with alarm := if sec = 0 then none else some sec }

/-- `clearAlarm` -/
def clearAlarm (s : Timers) : Timers := { s with alarm := none }

/-- The loop of `selectTimer`. -/
def selectLoop : List Timer → (min : Int) → (tsel : Option Timer) → Option Timer
  | [], _, tsel => tsel
  | tcurr :: rest, min, tsel =>
    if tcurr.active = false then selectLoop rest min tsel
    else if tcurr.future < min ∨ min = 0 then selectLoop rest tcurr.future (some tcurr)
    else selectLoop rest min tsel

/-- `selectTimer` -/
def selectTimer (s : Timers) (now : Nat) : Timers :=
  match selectLoop s.timerList 0 none with
  | some tsel => { s with activeId := tsel.id }.setTimer (tsel.future - now)
  | none => { s with activeId := -1 }

/-- `alarmSignal`. There is no result when it reads through a NULL pointer. -/
def alarmSignal (s : Timers) (isAlarm : Bool) (now : Nat) : Option Timers :=
  if s.activeId > -1 then do
    let t ← getFromSList s.timerList s.activeId
    if isAlarm then
      let s := (s.modify t Timer.expire).selectTimer now
      some { s with called := s.called ++ [(t.callback, t.id)] }
    else some (s.setTimer (t.future - now))
  else some s

/-- `setupTimer`. `memory` says whether the timer can be allocated; without a result the size of the list
leaves its type. What `malloc` leaves in `future` and `interval` is not read before they are set. -/
def setupTimer (s : Timers) (callback : Nat) (memory : Bool) : Option (Timers × Int) :=
  let s := if s.initialized then s else
    { s with timerList := [], initialized := true, activeId := -1 }
  if memory then
    if s.timerList.length + 1 < 2 ^ 31 then
      let id : Int := s.timerList.length
      some ({ s with
        timerList := s.timerList ++ [⟨s.fresh, id, false, 0, 0, callback⟩]
        fresh := s.fresh + 1
        issued := (id, s.fresh) :: s.issued }, id)
    else none
  else some (s, -1)

/-- `startTimer` -/
def startTimer (s : Timers) (id future interval : Int) (now : Nat) : Timers :=
  let s := if s.activeId = id then s.clearAlarm else s
  match getFromSList s.timerList id with
  | none => s
  | some t =>
    (s.modify t fun t => { t with future := future, interval := interval, active := true }).selectTimer now

/-- `startIntervalTimer`. The clock is read once more in `selectTimer`. -/
def startIntervalTimer (s : Timers) (id sec : Int) (oneShot : Bool) (now later : Nat) : Timers :=
  s.startTimer id (now + sec) (if oneShot then -1 else sec) later

/-- `startAbsoluteTimer` -/
def startAbsoluteTimer (s : Timers) (id future : Int) (now later : Nat) : Timers :=
  if future > now then s.startTimer id future (-1) later else s

/-- `stopTimer` -/
def stopTimer (s : Timers) (id : Int) (now : Nat) : Option Timers :=
  if s.activeId = id then do
    let s := s.clearAlarm
    let t ← getFromSList s.timerList id
    some ((s.modify t fun t => { t with active := false }).selectTimer now)
  else
    match getFromSList s.timerList id with
    | none => some s
    | some t => some (s.modify t fun t => { t with active := false })

/-- `deleteTimer` -/
def deleteTimer (s : Timers) (id : Int) (now : Nat) : Option Timers :=
  match getFromSList s.timerList id with
  | none => some s
  | some t => do
    let s ← s.stopTimer id now
    some { s with timerList := s.timerList.eraseP (·.address = t.address) }

end Timers

/-! ## Runs -/

/-- A call, or the signal of the alarm, with what is read of the clock. -/
inductive TimerOp
  | setupTimer (callback : Nat) (memory : Bool)
  | startIntervalTimer (id sec : Int) (oneShot : Bool) (now later : Nat)
  | startAbsoluteTimer (id future : Int) (now later : Nat)
  | stopTimer (id : Int) (now : Nat)
  | deleteTimer (id : Int) (now : Nat)
  | alarm (now : Nat)
  deriving DecidableEq, Repr

/-- The state after an operation. The signal comes when the alarm has run down; before the first call of
`setupTimer` there is no handler for it. -/
def Timers.change (s : Timers) : TimerOp → Option Timers
  | .setupTimer callback memory => (s.setupTimer callback memory).map Prod.fst
  | .startIntervalTimer id sec oneShot now later => some (s.startIntervalTimer id sec oneShot now later)
  | .startAbsoluteTimer id future now later => some (s.startAbsoluteTimer id future now later)
  | .stopTimer id now => s.stopTimer id now
  | .deleteTimer id now => s.deleteTimer id now
  | .alarm now => if s.initialized then s.clearAlarm.alarmSignal true now else some s

/-- One step of a run, as long as the state is defined. -/
def timerStep (state : Option Timers) (op : TimerOp) : Option Timers :=
  state.bind fun s => s.change op

/-! ## What should hold -/

/-- The timer is active, and none that is active expires earlier. -/
def Earliest (timerList : List Timer) (t : Timer) : Prop :=
  t ∈ timerList ∧ t.active = true ∧ ∀ u ∈ timerList, u.active = true → t.future ≤ u.future

/-- The alarm is set to a positive delay, and the active identifier is that of an earliest timer. -/
def Armed (s : Timers) : Prop :=
  (∃ delay, s.alarm = some delay ∧ 0 < delay) ∧ ∃ t, Earliest s.timerList t ∧ t.id = s.activeId

/-- A call with an identifier gets the timer for which `setupTimer` returned it. -/
def ActsOnOwn (s : Timers) : Prop :=
  ∀ id, 0 ≤ id → ∀ t, Timers.getFromSList s.timerList id = some t ↔
    t ∈ s.timerList ∧ s.issued.lookup id = some t.address

/-- The timers keep firing, and stay distinct. -/
def TimersRight (state : Option Timers) : Prop :=
  ∃ s, state = some s ∧ ((∃ t ∈ s.timerList, t.active = true) → Armed s) ∧
    (s.timerList.map (·.id)).Nodup ∧ ActsOnOwn s

/-! ## The condition -/

/-- When the active timers other than the one with the identifier expire. -/
def dueTimes (s : Timers) (id : Int) : List Int :=
  (s.timerList.filter fun t => t.active && t.id ≠ id).map (·.future)

/-- All times lie ahead, the first one of them less than 2^31 seconds. -/
def Ahead (now : Nat) (times : List Int) : Prop :=
  (∀ time ∈ times, now < time) ∧ (times = [] ∨ ∃ time ∈ times, time < now + 2 ^ 31)

instance (now : Nat) (times : List Int) : Decidable (Ahead now times) :=
  inferInstanceAs (Decidable (_ ∧ (_ ∨ _)))

/-- The condition on an operation: identifiers are not negative, only the last timer is deleted, and
where the alarm is set, all timers that are active then expire in the future. -/
def TimerOpOk (s : Timers) : TimerOp → Prop
  | .setupTimer _ memory => memory = true → s.timerList.length + 1 < 2 ^ 31
  | .startIntervalTimer id sec _ now later =>
    0 ≤ id ∧ (id < s.timerList.length → Ahead later ((now + sec) :: dueTimes s id))
  | .startAbsoluteTimer id future now later =>
    now < future → 0 ≤ id ∧ (id < s.timerList.length → Ahead later (future :: dueTimes s id))
  | .stopTimer id now => 0 ≤ id ∧ (s.activeId = id → s.initialized = true ∧ Ahead now (dueTimes s id))
  | .deleteTimer id now =>
    0 ≤ id ∧ (id < s.timerList.length →
      id + 1 = s.timerList.length ∧ (s.activeId = id → Ahead now (dueTimes s id)))
  | .alarm now =>
    ∀ t ∈ Timers.getFromSList s.timerList s.activeId, -1 < s.activeId →
      Ahead now ((if t.interval = -1 then [] else [t.future + t.interval]) ++ dueTimes s s.activeId)

instance (s : Timers) : (op : TimerOp) → Decidable (TimerOpOk s op)
  | .setupTimer _ _ => inferInstanceAs (Decidable (_ → _))
  | .startIntervalTimer _ _ _ _ _ => inferInstanceAs (Decidable (_ ∧ (_ → _)))
  | .startAbsoluteTimer _ _ _ _ => inferInstanceAs (Decidable (_ → _ ∧ (_ → _)))
  | .stopTimer _ _ => inferInstanceAs (Decidable (_ ∧ (_ → _ ∧ _)))
  | .deleteTimer _ _ => inferInstanceAs (Decidable (_ ∧ (_ → _ ∧ (_ → _))))
  | .alarm _ => inferInstanceAs (Decidable (∀ _ ∈ _, _ → _))

/-- The condition on a step of a run. -/
def TimerStepOk (state : Option Timers) (op : TimerOp) : Prop := ∀ s ∈ state, TimerOpOk s op

instance (state : Option Timers) (op : TimerOp) : Decidable (TimerStepOk state op) :=
  inferInstanceAs (Decidable (∀ s ∈ state, _))

namespace TimerLemmas

variable {s : Timers} {t u : Timer} {id : Int} {now : Nat}

/-! ## Identifiers -/

/-- The address and the identifier of each timer. -/
def keys (s : Timers) : List (Nat × Int) := s.timerList.map fun t => (t.address, t.id)

/-- The identifiers are the positions, and every timer was the last one that was returned its own. -/
structure Kept (keys : List (Nat × Int)) (fresh : Nat) (issued : List (Int × Nat)) : Prop where
  ids : keys.map Prod.snd = (List.range keys.length).map Int.ofNat
  addresses : (keys.map Prod.fst).Nodup
  below : ∀ key ∈ keys, key.1 < fresh
  own : ∀ key ∈ keys, issued.lookup key.2 = some key.1
  returned : ∀ id address, issued.lookup id = some address →
    address < fresh ∧ ∀ key ∈ keys, key.1 = address → key.2 = id

abbrev KeptIn (s : Timers) : Prop := Kept (keys s) s.fresh s.issued

theorem mem_keys (h : t ∈ s.timerList) : (t.address, t.id) ∈ keys s :=
  List.mem_map_of_mem h

theorem eq_of_address (hkept : KeptIn s) (ht : t ∈ s.timerList) (hu : u ∈ s.timerList)
    (h : t.address = u.address) : t = u := by
  have hnodup := hkept.addresses
  unfold keys at hnodup
  rw [List.map_map] at hnodup
  exact List.inj_on_of_nodup_map hnodup ht hu h

theorem eq_of_id (hkept : KeptIn s) (ht : t ∈ s.timerList) (hu : u ∈ s.timerList)
    (h : t.id = u.id) : t = u := by
  have howner := (hkept.own _ (mem_keys ht)).symm.trans
    ((congrArg (fun id => s.issued.lookup id) h).trans (hkept.own _ (mem_keys hu)))
  exact eq_of_address hkept ht hu (Option.some.inj howner)

theorem id_of_getElem? (hkept : KeptIn s) {i : Nat} (h : s.timerList[i]? = some t) : t.id = i := by
  have hids := congrArg (fun l => l[i]?) hkept.ids
  unfold keys at hids
  rw [List.length_map] at hids
  obtain ⟨hlt, -⟩ := List.getElem?_eq_some_iff.mp h
  rw [List.getElem?_map, List.getElem?_map, h, List.getElem?_map, List.getElem?_range hlt] at hids
  exact Option.some.inj hids

/-- A lookup by the position finds the timer with the identifier. -/
theorem getFromSList_iff (hkept : KeptIn s) (hid : 0 ≤ id) :
    Timers.getFromSList s.timerList id = some t ↔ t ∈ s.timerList ∧ t.id = id := by
  obtain ⟨i, rfl⟩ := Int.eq_ofNat_of_zero_le hid
  have hget : Timers.getFromSList s.timerList i = s.timerList[i]? := by
    unfold Timers.getFromSList
    split
    · next hge => exact (List.getElem?_eq_none (Int.ofNat_le.mp hge)).symm
    · rfl
  rw [hget]
  constructor
  · exact fun h => ⟨List.mem_of_getElem? h, id_of_getElem? hkept h⟩
  · rintro ⟨hmem, hid⟩
    obtain ⟨j, hj⟩ := List.mem_iff_getElem?.mp hmem
    have hji := (id_of_getElem? hkept hj).symm.trans hid
    rwa [Int.ofNat_inj.mp hji] at hj

theorem id_nonneg (hkept : KeptIn s) (ht : t ∈ s.timerList) : 0 ≤ t.id ∧ t.id < s.timerList.length := by
  obtain ⟨i, hi⟩ := List.mem_iff_getElem?.mp ht
  obtain ⟨hlt, -⟩ := List.getElem?_eq_some_iff.mp hi
  rw [id_of_getElem? hkept hi]
  exact ⟨Int.natCast_nonneg i, Int.ofNat_lt.mpr hlt⟩

theorem actsOnOwn (hkept : KeptIn s) : ActsOnOwn s := by
  intro id hid t
  rw [getFromSList_iff hkept hid]
  refine and_congr_right fun ht => ⟨?_, fun hissued => ?_⟩
  · rintro rfl
    exact hkept.own _ (mem_keys ht)
  · exact (hkept.returned id t.address hissued).2 _ (mem_keys ht) rfl

theorem nodup_ids (hkept : KeptIn s) : (s.timerList.map (·.id)).Nodup := by
  have hids := hkept.ids
  unfold keys at hids
  rw [List.map_map] at hids
  exact hids ▸ List.nodup_range.map fun _ _ h => Int.ofNat_inj.mp h

/-! ## Changing a timer -/

variable {f : Timer → Timer}

theorem keys_modify (s : Timers) (t : Timer) (hf : ∀ u, ((f u).address, (f u).id) = (u.address, u.id)) :
    keys (s.modify t f) = keys s := by
  unfold keys Timers.modify
  dsimp only
  rw [List.map_map]
  refine List.map_congr_left fun u _ => ?_
  rcases eq_or_ne u.address t.address with heq | hne
  · exact (congrArg (fun v : Timer => (v.address, v.id)) (if_pos heq)).trans (hf u)
  · exact congrArg (fun v : Timer => (v.address, v.id)) (if_neg hne)

theorem mem_modify (hkept : KeptIn s) (ht : t ∈ s.timerList) :
    u ∈ (s.modify t f).timerList ↔ u = f t ∨ u ∈ s.timerList ∧ u.id ≠ t.id := by
  show u ∈ s.timerList.map _ ↔ _
  rw [List.mem_map]
  constructor
  · rintro ⟨v, hv, rfl⟩
    split
    · next hsame => exact .inl (congrArg f (eq_of_address hkept hv ht hsame))
    · next hother =>
      exact .inr ⟨hv, fun hid => hother (congrArg Timer.address (eq_of_id hkept hv ht hid))⟩
  · rintro (rfl | ⟨hu, hid⟩)
    · exact ⟨t, ht, if_pos rfl⟩
    · exact ⟨u, hu, if_neg fun hsame => hid (congrArg Timer.id (eq_of_address hkept hu ht hsame))⟩

/-! ## Selecting -/

/-- The loop with a timer that is selected already. -/
theorem selectLoop_some {l : List Timer} (hpos : ∀ u ∈ l, u.active = true → 0 < u.future)
    (ht : 0 < t.future) :
    ∃ r, Timers.selectLoop l t.future (some t) = some r ∧ (r = t ∨ r ∈ l ∧ r.active = true) ∧
      r.future ≤ t.future ∧ ∀ u ∈ l, u.active = true → r.future ≤ u.future := by
  induction l generalizing t with
  | nil => exact ⟨t, rfl, .inl rfl, Int.le_refl _, fun _ h => nomatch h⟩
  | cons tcurr rest ih =>
    obtain ⟨hcurr, hrest⟩ := List.forall_mem_cons.mp hpos
    unfold Timers.selectLoop
    cases hactive : tcurr.active with
    | false =>
      rw [if_pos rfl]
      obtain ⟨r, hr, hmem, hle, hall⟩ := ih hrest ht
      refine ⟨r, hr, hmem.imp_right (And.imp_left (List.mem_cons_of_mem _)), hle,
        List.forall_mem_cons.mpr ⟨fun h => ?_, hall⟩⟩
      rw [hactive] at h
      cases h
    | true =>
      rw [if_neg (Bool.noConfusion ·)]
      rcases Decidable.em (tcurr.future < t.future) with hlt | hge
      · rw [if_pos (.inl hlt)]
        obtain ⟨r, hr, hmem, hle, hall⟩ := ih hrest (hcurr hactive)
        refine ⟨r, hr, .inr ?_, Int.le_trans hle (Int.le_of_lt hlt),
          List.forall_mem_cons.mpr ⟨fun _ => hle, hall⟩⟩
        rcases hmem with rfl | ⟨hmem, hr⟩
        · exact ⟨List.mem_cons_self, hactive⟩
        · exact ⟨List.mem_cons_of_mem _ hmem, hr⟩
      · rw [if_neg (not_or_intro hge (Int.ne_of_gt ht))]
        obtain ⟨r, hr, hmem, hle, hall⟩ := ih hrest ht
        exact ⟨r, hr, hmem.imp_right (And.imp_left (List.mem_cons_of_mem _)), hle,
          List.forall_mem_cons.mpr ⟨fun _ => Int.le_trans hle (Int.not_lt.mp hge), hall⟩⟩

/-- Where all active timers expire after the time 0, the loop finds an earliest one. -/
theorem selectLoop_spec {l : List Timer} (hpos : ∀ u ∈ l, u.active = true → 0 < u.future) :
    (Timers.selectLoop l 0 none = none ∧ ∀ u ∈ l, u.active = false) ∨
      ∃ r, Timers.selectLoop l 0 none = some r ∧ Earliest l r := by
  induction l with
  | nil => exact .inl ⟨rfl, fun _ h => nomatch h⟩
  | cons tcurr rest ih =>
    obtain ⟨hcurr, hrest⟩ := List.forall_mem_cons.mp hpos
    unfold Timers.selectLoop
    cases hactive : tcurr.active with
    | false =>
      rw [if_pos rfl]
      rcases ih hrest with ⟨hnone, hall⟩ | ⟨r, hr, hmem, hactive', hall⟩
      · exact .inl ⟨hnone, List.forall_mem_cons.mpr ⟨hactive, hall⟩⟩
      · refine .inr ⟨r, hr, List.mem_cons_of_mem _ hmem, hactive',
          List.forall_mem_cons.mpr ⟨fun h => ?_, hall⟩⟩
        rw [hactive] at h
        cases h
    | true =>
      rw [if_neg (Bool.noConfusion ·), if_pos (.inr rfl)]
      obtain ⟨r, hr, hmem, hle, hall⟩ := selectLoop_some hrest (hcurr hactive)
      refine .inr ⟨r, hr, ?_, ?_, List.forall_mem_cons.mpr ⟨fun _ => hle, hall⟩⟩
      · rcases hmem with rfl | ⟨hmem, -⟩
        · exact List.mem_cons_self
        · exact List.mem_cons_of_mem _ hmem
      · rcases hmem with rfl | ⟨-, hr⟩
        · exact hactive
        · exact hr

theorem setTimer_pos (s : Timers) {sec : Int} (hpos : 0 < sec) (hlt : sec < 2 ^ 31) :
    s.setTimer sec = { s with alarm := some sec } := by
  have hbmod : sec.bmod (2 ^ 32) = sec := by
    rw [Int.bmod_def]
    omega
  unfold Timers.setTimer
  rw [hbmod]
  dsimp only
  rw [if_neg (Int.not_lt.mpr (Int.le_of_lt hpos)), if_neg (Int.ne_of_gt hpos)]

/-- No timer is active, or the alarm is set for an earliest one. -/
def Selected (s : Timers) : Prop :=
  (s.activeId = -1 ∧ ∀ t ∈ s.timerList, t.active = false) ∨ Armed s

/-- `selectTimer`, where the times of the active timers lie ahead. -/
theorem selected_selectTimer {times : List Int} (hahead : Ahead now times)
    (htimes : ∀ time, time ∈ times ↔ ∃ t ∈ s.timerList, t.active = true ∧ t.future = time) :
    Selected (s.selectTimer now) := by
  have hlater (t : Timer) (ht : t ∈ s.timerList) (hactive : t.active = true) : (now : Int) < t.future :=
    hahead.1 _ ((htimes _).mpr ⟨t, ht, hactive, rfl⟩)
  unfold Timers.selectTimer
  rcases @selectLoop_spec s.timerList
    fun t ht hactive => Int.lt_of_le_of_lt (Int.natCast_nonneg now) (hlater t ht hactive) with
    ⟨hnone, hall⟩ | ⟨r, hr, hmem, hactive, hearliest⟩
  · rw [hnone]
    exact .inl ⟨rfl, hall⟩
  · rw [hr]
    have hpos := hlater r hmem hactive
    have hnear : r.future < now + 2 ^ 31 := by
      rcases hahead.2 with hnil | ⟨time, htime, hlt⟩
      · have hin := (htimes r.future).mpr ⟨r, hmem, hactive, rfl⟩
        rw [hnil] at hin
        cases hin
      · obtain ⟨u, hu, huactive, rfl⟩ := (htimes time).mp htime
        exact Int.lt_of_le_of_lt (hearliest u hu huactive) hlt
    dsimp only
    rw [setTimer_pos _ (Int.sub_pos.mpr hpos) (by omega)]
    exact .inr ⟨⟨_, rfl, Int.sub_pos.mpr hpos⟩, r, ⟨hmem, hactive, hearliest⟩, rfl⟩

/-- The same after the change of a timer. -/
theorem selected_modify (hkept : KeptIn s) (ht : t ∈ s.timerList)
    (hahead : Ahead now ((if (f t).active then [(f t).future] else []) ++ dueTimes s t.id)) :
    Selected ((s.modify t f).selectTimer now) := by
  refine selected_selectTimer hahead fun time => ?_
  rw [List.mem_append]
  constructor
  · rintro (hown | hother)
    · split at hown
      · next hactive =>
        obtain rfl := List.mem_singleton.mp hown
        exact ⟨f t, (mem_modify hkept ht).mpr (.inl rfl), hactive, rfl⟩
      · cases hown
    · obtain ⟨u, hu, rfl⟩ := List.mem_map.mp hother
      obtain ⟨hmem, hprop⟩ := List.mem_filter.mp hu
      obtain ⟨hactive, hne⟩ := Bool.and_eq_true_iff.mp hprop
      exact ⟨u, (mem_modify hkept ht).mpr (.inr ⟨hmem, of_decide_eq_true hne⟩), hactive, rfl⟩
  · rintro ⟨u, hu, hactive, rfl⟩
    rcases (mem_modify hkept ht).mp hu with rfl | ⟨hmem, hne⟩
    · left
      rw [if_pos hactive]
      exact List.mem_singleton_self _
    · refine .inr (List.mem_map.mpr ⟨u, List.mem_filter.mpr ⟨hmem, ?_⟩, rfl⟩)
      exact Bool.and_eq_true_iff.mpr ⟨hactive, decide_eq_true hne⟩

/-! ## The operations -/

/-- The invariant. -/
structure Inv (s : Timers) : Prop where
  kept : KeptIn s
  selected : (s.initialized = false ∧ s.timerList = [] ∧ s.activeId = 0) ∨
    (s.initialized = true ∧ Selected s)

/-- The timers are the same, and have the same identifiers. -/
structure SameTimers (s s' : Timers) : Prop where
  keys : keys s' = keys s
  fresh : s'.fresh = s.fresh
  issued : s'.issued = s.issued
  initialized : s'.initialized = s.initialized

theorem SameTimers.kept {s' : Timers} (h : SameTimers s s') (hkept : KeptIn s) : KeptIn s' := by
  unfold KeptIn
  rw [h.keys, h.fresh, h.issued]
  exact hkept

theorem sameTimers_setTimer (s : Timers) (sec : Int) : SameTimers s (s.setTimer sec) := by
  unfold Timers.setTimer
  dsimp only
  split
  · exact ⟨rfl, rfl, rfl, rfl⟩
  · exact ⟨rfl, rfl, rfl, rfl⟩

theorem sameTimers_selectTimer (s : Timers) (now : Nat) : SameTimers s (s.selectTimer now) := by
  unfold Timers.selectTimer
  split
  · next tsel hsel =>
    obtain ⟨hkeys, hfresh, hissued, hinit⟩ :=
      sameTimers_setTimer { s with activeId := tsel.id } (tsel.future - now)
    exact ⟨hkeys, hfresh, hissued, hinit⟩
  · exact ⟨rfl, rfl, rfl, rfl⟩

/-- A change of a timer that leaves its identifier, with a new selection. -/
theorem sameTimers_modify (s : Timers) (t : Timer) (now : Nat)
    (hf : ∀ u, ((f u).address, (f u).id) = (u.address, u.id)) :
    SameTimers s ((s.modify t f).selectTimer now) := by
  obtain ⟨hkeys, hfresh, hissued, hinit⟩ := sameTimers_selectTimer (s.modify t f) now
  exact ⟨hkeys.trans (keys_modify s t hf), hfresh, hissued, hinit⟩

/-- A call with the active identifier finds its timer. -/
theorem exists_active (hkept : KeptIn s) (hselected : Selected s) (hid : -1 < s.activeId) :
    ∃ t, Timers.getFromSList s.timerList s.activeId = some t ∧ t ∈ s.timerList ∧
      t.id = s.activeId ∧ t.active = true := by
  rcases hselected with ⟨hnone, -⟩ | ⟨-, t, ⟨hmem, hactive, -⟩, ht⟩
  · omega
  · exact ⟨t, (getFromSList_iff hkept (by omega)).mpr ⟨hmem, ht⟩, hmem, ht, hactive⟩

theorem initialized_of_mem (hinv : Inv s) (ht : t ∈ s.timerList) :
    s.initialized = true ∧ Selected s := by
  rcases hinv.selected with ⟨-, hnil, -⟩ | hselected
  · rw [hnil] at ht
    cases ht
  · exact hselected

/-- Setting the alarm for a timer that was changed keeps the invariant. -/
theorem inv_modify (hinv : Inv s) (ht : t ∈ s.timerList)
    (hf : ∀ u, ((f u).address, (f u).id) = (u.address, u.id))
    (hahead : Ahead now ((if (f t).active then [(f t).future] else []) ++ dueTimes s t.id)) :
    Inv ((s.clearAlarm.modify t f).selectTimer now) ∧ Inv ((s.modify t f).selectTimer now) := by
  have hinit := (initialized_of_mem hinv ht).1
  have hcleared : KeptIn s.clearAlarm := hinv.kept
  refine ⟨⟨(sameTimers_modify s.clearAlarm t now hf).kept hcleared, .inr ⟨?_, ?_⟩⟩,
    (sameTimers_modify s t now hf).kept hinv.kept, .inr ⟨?_, ?_⟩⟩
  · exact (sameTimers_modify s.clearAlarm t now hf).initialized.trans hinit
  · exact selected_modify hcleared ht hahead
  · exact (sameTimers_modify s t now hf).initialized.trans hinit
  · exact selected_modify hinv.kept ht hahead

theorem inv_startTimer (hinv : Inv s) {future interval : Int} (hid : 0 ≤ id)
    (hahead : id < s.timerList.length → Ahead now (future :: dueTimes s id)) :
    Inv (s.startTimer id future interval now) := by
  unfold Timers.startTimer
  cases hget : Timers.getFromSList s.timerList id with
  | none =>
    rcases eq_or_ne s.activeId id with hactive | hother
    · rw [if_pos hactive]
      show Inv (match Timers.getFromSList s.timerList id with | none => _ | some t => _)
      rw [hget]
      refine ⟨hinv.kept, ?_⟩
      rcases hinv.selected with hnew | ⟨-, hselected⟩
      · exact .inl hnew
      · obtain ⟨t, ht, -⟩ := exists_active hinv.kept hselected (by omega)
        rw [hactive, hget] at ht
        cases ht
    · rw [if_neg hother]
      dsimp only
      rw [hget]
      exact hinv
  | some t =>
    obtain ⟨hmem, rfl⟩ := (getFromSList_iff hinv.kept hid).mp hget
    have hboth := @inv_modify s t now
      (fun t => { t with future := future, interval := interval, active := true }) hinv hmem
      (fun _ => rfl) (hahead (id_nonneg hinv.kept hmem).2)
    rcases eq_or_ne s.activeId t.id with hactive | hother
    · rw [if_pos hactive]
      show Inv (match Timers.getFromSList s.timerList t.id with | none => _ | some t => _)
      rw [hget]
      exact hboth.1
    · rw [if_neg hother]
      dsimp only
      rw [hget]
      exact hboth.2

/-- A timer that is not the active one is stopped. -/
theorem selected_stop (hkept : KeptIn s) (hselected : Selected s) (ht : t ∈ s.timerList)
    (hne : s.activeId ≠ t.id) : Selected (s.modify t fun t => { t with active := false }) := by
  rcases hselected with ⟨hnone, hall⟩ | ⟨halarm, sel, ⟨hmem, hactive, hearliest⟩, hsel⟩
  · refine .inl ⟨hnone, fun u hu => ?_⟩
    rcases (mem_modify hkept ht).mp hu with rfl | ⟨hu, -⟩
    · rfl
    · exact hall u hu
  · refine .inr ⟨halarm, sel, ⟨(mem_modify hkept ht).mpr (.inr ⟨hmem, ?_⟩), hactive, ?_⟩, hsel⟩
    · exact fun heq => hne (hsel.symm.trans heq)
    · intro u hu huactive
      rcases (mem_modify hkept ht).mp hu with rfl | ⟨hu, -⟩
      · cases huactive
      · exact hearliest u hu huactive

theorem timerList_selectTimer (s : Timers) (now : Nat) : (s.selectTimer now).timerList = s.timerList := by
  unfold Timers.selectTimer Timers.setTimer
  split
  · dsimp only
    split
    · rfl
    · rfl
  · rfl

theorem inactive_of_mem (hkept : KeptIn s) (ht : t ∈ s.timerList)
    (hu : u ∈ (s.modify t fun t => { t with active := false }).timerList) (h : u.id = t.id) :
    u.active = false := by
  rcases (mem_modify hkept ht).mp hu with rfl | ⟨-, hne⟩
  · rfl
  · exact absurd h hne

/-- `stopTimer` returns; the timer is not active any more. -/
theorem inv_stopTimer (hinv : Inv s) (hid : 0 ≤ id)
    (hahead : s.activeId = id → s.initialized = true ∧ Ahead now (dueTimes s id)) :
    ∃ s', s.stopTimer id now = some s' ∧ Inv s' ∧ SameTimers s s' ∧
      ∀ u ∈ s'.timerList, u.id = id → u.active = false := by
  unfold Timers.stopTimer
  rcases eq_or_ne s.activeId id with rfl | hother
  · rw [if_pos rfl]
    obtain ⟨hinit, hahead⟩ := hahead rfl
    rcases hinv.selected with ⟨hnew, -⟩ | ⟨-, hselected⟩
    · rw [hnew] at hinit
      cases hinit
    · obtain ⟨t, hget, hmem, ht, -⟩ := exists_active hinv.kept hselected (by omega)
      rw [← ht] at hahead
      refine ⟨(s.clearAlarm.modify t fun t => { t with active := false }).selectTimer now, ?_, ?_,
        ?_, ?_⟩
      · show (Timers.getFromSList s.timerList s.activeId).bind _ = _
        rw [hget]
        rfl
      · exact (@inv_modify s t now (fun t => { t with active := false }) hinv hmem (fun _ => rfl) hahead).1
      · have hsame : SameTimers s.clearAlarm
            ((s.clearAlarm.modify t fun t => { t with active := false }).selectTimer now) :=
          sameTimers_modify _ t now fun _ => rfl
        exact ⟨hsame.keys, hsame.fresh, hsame.issued, hsame.initialized⟩
      · rw [timerList_selectTimer, ← ht]
        exact fun u hu heq => inactive_of_mem hinv.kept hmem hu heq
  · rw [if_neg hother]
    cases hget : Timers.getFromSList s.timerList id with
    | none =>
      refine ⟨s, rfl, hinv, ⟨rfl, rfl, rfl, rfl⟩, ?_⟩
      rintro u hu rfl
      rw [(getFromSList_iff hinv.kept hid).mpr ⟨hu, rfl⟩] at hget
      cases hget
    | some t =>
      obtain ⟨hmem, rfl⟩ := (getFromSList_iff hinv.kept hid).mp hget
      obtain ⟨hinit, hselected⟩ := initialized_of_mem hinv hmem
      have hkeys := keys_modify s t (f := fun t => { t with active := false }) fun _ => rfl
      refine ⟨_, rfl, ⟨?_, .inr ⟨hinit, selected_stop hinv.kept hselected hmem hother⟩⟩,
        ⟨hkeys, rfl, rfl, rfl⟩, ?_⟩
      · exact SameTimers.kept ⟨hkeys, rfl, rfl, rfl⟩ hinv.kept
      · exact fun u hu heq => inactive_of_mem hinv.kept hmem hu heq

/-! ## The list gets longer and shorter -/

/-- `setupTimer`, where the list was initialized. -/
theorem Kept.append {ks : List (Nat × Int)} {fresh : Nat} {issued : List (Int × Nat)}
    (h : Kept ks fresh issued) :
    Kept (ks ++ [(fresh, (ks.length : Int))]) (fresh + 1) (((ks.length : Int), fresh) :: issued) := by
  have hids (key : Nat × Int) (hkey : key ∈ ks) : key.2 ≠ ks.length := by
    have hmem := List.mem_map_of_mem (f := Prod.snd) hkey
    rw [h.ids] at hmem
    obtain ⟨i, hi, heq⟩ := List.mem_map.mp hmem
    rw [← heq]
    exact fun hlast => Nat.ne_of_lt (List.mem_range.mp hi) (Int.ofNat_inj.mp hlast)
  refine ⟨?_, ?_, ?_, ?_, ?_⟩
  · rw [List.map_append, h.ids, List.length_append, List.length_singleton, List.range_succ,
      List.map_append]
    rfl
  · rw [List.map_append]
    refine List.nodup_append.mpr ⟨h.addresses, List.nodup_singleton _, fun a ha b hb => ?_⟩
    obtain ⟨key, hkey, rfl⟩ := List.mem_map.mp ha
    obtain rfl := List.mem_singleton.mp hb
    exact Nat.ne_of_lt (h.below key hkey)
  · intro key hkey
    rcases List.mem_append.mp hkey with hold | hnew
    · exact Nat.lt_succ_of_lt (h.below key hold)
    · obtain rfl := List.mem_singleton.mp hnew
      exact Nat.lt_succ_self fresh
  · intro key hkey
    rcases List.mem_append.mp hkey with hold | hnew
    · rw [List.lookup_cons, beq_false_of_ne (hids key hold)]
      exact h.own key hold
    · obtain rfl := List.mem_singleton.mp hnew
      exact List.lookup_cons_self
  · intro id address hlookup
    rcases eq_or_ne id ks.length with rfl | hne
    · rw [List.lookup_cons_self] at hlookup
      obtain rfl := Option.some.inj hlookup
      refine ⟨Nat.lt_succ_self fresh, fun key hkey haddress => ?_⟩
      rcases List.mem_append.mp hkey with hold | hnew
      · exact absurd haddress (Nat.ne_of_lt (h.below key hold))
      · obtain rfl := List.mem_singleton.mp hnew
        rfl
    · rw [List.lookup_cons, beq_false_of_ne hne] at hlookup
      obtain ⟨hlt, hown⟩ := h.returned id address hlookup
      refine ⟨Nat.lt_succ_of_lt hlt, fun key hkey haddress => ?_⟩
      rcases List.mem_append.mp hkey with hold | hnew
      · exact hown key hold haddress
      · obtain rfl := List.mem_singleton.mp hnew
        exact absurd haddress (Nat.ne_of_gt hlt)

/-- The last timer is deleted. -/
theorem Kept.dropLast {ks : List (Nat × Int)} {key : Nat × Int} {fresh : Nat}
    {issued : List (Int × Nat)} (h : Kept (ks ++ [key]) fresh issued) : Kept ks fresh issued := by
  have hsub {k : Nat × Int} (hk : k ∈ ks) : k ∈ ks ++ [key] := List.mem_append_left _ hk
  refine ⟨?_, ?_, fun k hk => h.below k (hsub hk), fun k hk => h.own k (hsub hk), ?_⟩
  · have hids := h.ids
    rw [List.map_append, List.length_append, List.length_singleton, List.range_succ,
      List.map_append] at hids
    exact (List.append_inj_left' hids rfl)
  · have haddresses := h.addresses
    rw [List.map_append] at haddresses
    exact (List.nodup_append.mp haddresses).1
  · intro id address hlookup
    obtain ⟨hlt, hown⟩ := h.returned id address hlookup
    exact ⟨hlt, fun k hk => hown k (hsub hk)⟩

theorem inv_setupTimer (hinv : Inv s) (callback : Nat) {memory : Bool}
    (hfits : memory = true → s.timerList.length + 1 < 2 ^ 31) :
    ∃ s' id, s.setupTimer callback memory = some (s', id) ∧ Inv s' := by
  unfold Timers.setupTimer
  -- the first call initializes the list
  obtain ⟨r, hr, hinit, hlist, hkept, hselected⟩ : ∃ r, (if s.initialized then s else
      { s with timerList := [], initialized := true, activeId := -1 }) = r ∧ r.initialized = true ∧
        r.timerList = s.timerList ∧ KeptIn r ∧ Selected r := by
    rcases hinv.selected with ⟨hnew, hnil, -⟩ | ⟨hinit, hselected⟩
    · refine ⟨_, if_neg (by rw [hnew]; exact Bool.false_ne_true), rfl, hnil.symm, ?_, .inl ⟨rfl, ?_⟩⟩
      · have hkept := hinv.kept
        unfold KeptIn keys at hkept ⊢
        rwa [hnil] at hkept
      · exact fun _ h => nomatch h
    · exact ⟨s, if_pos hinit, hinit, rfl, hinv.kept, hselected⟩
  rw [hr]
  dsimp only
  cases memory with
  | false => exact ⟨r, -1, rfl, hkept, .inr ⟨hinit, hselected⟩⟩
  | true =>
    rw [if_pos rfl, hlist, if_pos (hfits rfl)]
    refine ⟨_, _, rfl, ?_, .inr ⟨hinit, ?_⟩⟩
    · have happend := hkept.append
      unfold keys at happend
      rw [List.length_map, hlist] at happend
      unfold KeptIn keys
      rw [List.map_append]
      exact happend
    · rw [← hlist]
      rcases hselected with ⟨hnone, hall⟩ | ⟨halarm, sel, ⟨hmem, hactive, hearliest⟩, hsel⟩
      · refine .inl ⟨hnone, fun u hu => ?_⟩
        rcases List.mem_append.mp hu with hold | hnew
        · exact hall u hold
        · rw [List.mem_singleton.mp hnew]
      · refine .inr ⟨halarm, sel, ⟨List.mem_append_left _ hmem, hactive, fun u hu huactive => ?_⟩, hsel⟩
        rcases List.mem_append.mp hu with hold | hnew
        · exact hearliest u hold huactive
        · rw [List.mem_singleton.mp hnew] at huactive
          cases huactive

/-- The last timer has the last identifier, and is erased by its address. -/
theorem erase_last (hkept : KeptIn s) {before : List Timer} {u : Timer} (hlist : s.timerList = before ++ [u]) :
    u.id = before.length ∧ s.timerList.eraseP (fun v => v.address = u.address) = before := by
  constructor
  · have hat : s.timerList[before.length]? = some u := by
      rw [hlist, List.getElem?_append_right (Nat.le_refl _), Nat.sub_self]
      rfl
    exact id_of_getElem? hkept hat
  · rw [hlist, List.eraseP_append_right]
    · refine (congrArg (before ++ ·) ?_).trans (List.append_nil before)
      exact List.eraseP_cons_of_pos (decide_eq_true rfl)
    · intro v hv hsame
      have hnodup := hkept.addresses
      unfold keys at hnodup
      rw [hlist, List.map_append, List.map_append] at hnodup
      refine (List.nodup_append.mp hnodup).2.2 v.address ?_ u.address ?_ (of_decide_eq_true hsame)
      · exact List.mem_map_of_mem (List.mem_map_of_mem hv)
      · exact List.mem_singleton_self _

theorem inv_deleteTimer (hinv : Inv s) (hid : 0 ≤ id)
    (hok : id < s.timerList.length →
      id + 1 = s.timerList.length ∧ (s.activeId = id → Ahead now (dueTimes s id))) :
    ∃ s', s.deleteTimer id now = some s' ∧ Inv s' := by
  unfold Timers.deleteTimer
  cases hget : Timers.getFromSList s.timerList id with
  | none => exact ⟨s, rfl, hinv⟩
  | some t =>
    obtain ⟨hmem, rfl⟩ := (getFromSList_iff hinv.kept hid).mp hget
    obtain ⟨hlast, hahead⟩ := hok (id_nonneg hinv.kept hmem).2
    have hinit := (initialized_of_mem hinv hmem).1
    obtain ⟨s', hstop, hinv', hsame, hinactive⟩ :=
      inv_stopTimer hinv hid fun hactive => ⟨hinit, hahead hactive⟩
    have hlen : s'.timerList.length = s.timerList.length := by
      have hkeys := congrArg List.length hsame.keys
      unfold keys at hkeys
      rwa [List.length_map, List.length_map] at hkeys
    -- the timer is the last one
    obtain ⟨before, u, hlist⟩ : ∃ before u, s'.timerList = before ++ [u] := by
      refine ⟨s'.timerList.dropLast, s'.timerList.getLast ?_, (List.dropLast_append_getLast _).symm⟩
      rw [← List.length_pos_iff, hlen]
      exact List.length_pos_of_mem hmem
    have hu : u ∈ s'.timerList := by
      rw [hlist]
      exact List.mem_append_right _ (List.mem_singleton_self u)
    obtain ⟨hid_u, herase⟩ := erase_last hinv'.kept hlist
    have huid : u.id = t.id := by
      rw [hlist, List.length_append, List.length_singleton] at hlen
      omega
    have haddress : u.address = t.address := by
      have hkey : (u.address, u.id) ∈ keys s := hsame.keys ▸ mem_keys hu
      obtain ⟨v, hv, hveq⟩ := List.mem_map.mp hkey
      obtain ⟨hva, hvid⟩ := Prod.mk.inj hveq
      rw [← hva, eq_of_id hinv.kept hv hmem (hvid.trans huid)]
    rw [haddress] at herase
    refine ⟨_, by rw [hstop]; rfl, ?_⟩
    rw [herase]
    have hselected' := (initialized_of_mem hinv' hu).2
    have hsub {v : Timer} (hv : v ∈ before) : v ∈ s'.timerList := by
      rw [hlist]
      exact List.mem_append_left _ hv
    refine ⟨?_, .inr ⟨hsame.initialized.trans hinit, ?_⟩⟩
    · have hkept := hinv'.kept
      unfold KeptIn keys at hkept
      rw [hlist, List.map_append] at hkept
      exact hkept.dropLast
    · rcases hselected' with ⟨hnone, hall⟩ | ⟨halarm, sel, ⟨hsmem, hactive, hearliest⟩, hsel⟩
      · exact .inl ⟨hnone, fun v hv => hall v (hsub hv)⟩
      · refine .inr ⟨halarm, sel, ⟨?_, hactive, fun v hv => hearliest v (hsub hv)⟩, hsel⟩
        rw [hlist] at hsmem
        rcases List.mem_append.mp hsmem with hin | hlast
        · exact hin
        · rw [List.mem_singleton.mp hlast, hinactive u hu huid] at hactive
          cases hactive

theorem expire_key (t : Timer) : (t.expire.address, t.expire.id) = (t.address, t.id) := by
  unfold Timer.expire
  split
  · rfl
  · rfl

theorem expire_times (h : t.active = true) :
    (if t.expire.active then [t.expire.future] else []) =
      if t.interval = -1 then [] else [t.future + t.interval] := by
  unfold Timer.expire
  rcases eq_or_ne t.interval (-1) with honce | hagain
  · rw [if_pos honce, if_pos honce]
    rfl
  · rw [if_neg hagain, if_neg hagain]
    exact if_pos h

theorem alarmSignal_eq (hid : -1 < s.activeId)
    (hget : Timers.getFromSList s.timerList s.activeId = some t) :
    s.clearAlarm.alarmSignal true now =
      some { (s.clearAlarm.modify t Timer.expire).selectTimer now with
        called := ((s.clearAlarm.modify t Timer.expire).selectTimer now).called ++
          [(t.callback, t.id)] } := by
  unfold Timers.alarmSignal
  refine (if_pos hid).trans ?_
  show (Timers.getFromSList s.timerList s.activeId).bind _ = _
  rw [hget]
  rfl

theorem inv_alarm (hinv : Inv s) (hinit : s.initialized = true)
    (hahead : ∀ t ∈ Timers.getFromSList s.timerList s.activeId, -1 < s.activeId →
      Ahead now ((if t.interval = -1 then [] else [t.future + t.interval]) ++ dueTimes s s.activeId)) :
    ∃ s', s.clearAlarm.alarmSignal true now = some s' ∧ Inv s' := by
  rcases hinv.selected with ⟨hnew, -⟩ | ⟨-, hselected⟩
  · rw [hnew] at hinit
    cases hinit
  · rcases Decidable.em (-1 < s.activeId) with hid | hnone
    · obtain ⟨t, hget, hmem, ht, hactive⟩ := exists_active hinv.kept hselected hid
      have hahead := hahead t hget hid
      rw [← ht, ← expire_times hactive] at hahead
      have hinv' := (@inv_modify s t now Timer.expire hinv hmem expire_key hahead).1
      exact ⟨_, alarmSignal_eq hid hget, hinv'.kept, hinv'.selected⟩
    · refine ⟨s.clearAlarm, if_neg hnone, hinv.kept, .inr ⟨hinit, ?_⟩⟩
      rcases hselected with hno | ⟨-, t, ⟨hmem, -⟩, ht⟩
      · exact .inl hno
      · have hnonneg := (id_nonneg hinv.kept hmem).1
        omega

/-! ## Runs -/

/-- The invariant of a run. -/
def Running (state : Option Timers) : Prop := ∃ s, state = some s ∧ Inv s

theorem running_start : Running (some Timers.start) := by
  refine ⟨_, rfl, ⟨rfl, List.nodup_nil, ?_, ?_, ?_⟩, .inl ⟨rfl, rfl, rfl⟩⟩
  · exact fun _ h => nomatch h
  · exact fun _ h => nomatch h
  · exact fun _ _ h => nomatch h

theorem running_step (state : Option Timers) (op : TimerOp) (h : Running state)
    (hok : TimerStepOk state op) : Running (timerStep state op) := by
  obtain ⟨s, rfl, hinv⟩ := h
  have hok := hok s rfl
  cases op with
  | setupTimer callback memory =>
    obtain ⟨s', id, hs', hinv'⟩ := inv_setupTimer hinv callback hok
    refine ⟨s', ?_, hinv'⟩
    show (s.setupTimer callback memory).map Prod.fst = some s'
    rw [hs']
    rfl
  | startIntervalTimer id sec oneShot now later => exact ⟨_, rfl, inv_startTimer hinv hok.1 hok.2⟩
  | startAbsoluteTimer id future now later =>
    refine ⟨_, rfl, ?_⟩
    unfold Timers.startAbsoluteTimer
    split
    · next hlater => exact inv_startTimer hinv (hok hlater).1 (hok hlater).2
    · exact hinv
  | stopTimer id now =>
    obtain ⟨s', hs', hinv', -⟩ := inv_stopTimer hinv hok.1 hok.2
    exact ⟨s', hs', hinv'⟩
  | deleteTimer id now => exact inv_deleteTimer hinv hok.1 hok.2
  | alarm now =>
    show ∃ s', (if s.initialized then s.clearAlarm.alarmSignal true now else some s) = some s' ∧ Inv s'
    rcases Bool.eq_false_or_eq_true s.initialized with hinit | hnew
    · rw [if_pos hinit]
      exact inv_alarm hinv hinit hok
    · rw [if_neg (by rw [hnew]; exact Bool.false_ne_true)]
      exact ⟨s, rfl, hinv⟩

theorem timersRight_of_running {state : Option Timers} (h : Running state) : TimersRight state := by
  obtain ⟨s, rfl, hinv⟩ := h
  refine ⟨s, rfl, ?_, nodup_ids hinv.kept, actsOnOwn hinv.kept⟩
  rintro ⟨t, ht, hactive⟩
  rcases (initialized_of_mem hinv ht).2 with ⟨-, hall⟩ | harmed
  · rw [hall t ht] at hactive
    cases hactive
  · exact harmed

end TimerLemmas

open TimerLemmas

/-- In every run of which the steps meet the condition, the alarm stays set for an earliest timer as long
as there is an active one, and every identifier stands for its timer. -/
theorem timers_keep_firing (ops : List TimerOp)
    (h : EachStep timerStep TimerStepOk (some Timers.start) ops) :
    Always timerStep TimersRight (some Timers.start) ops := fun before after heq =>
  timersRight_of_running (always_of_eachStep running_step running_start h before after heq)

theorem timers_keep_firing_two :
    Always timerStep TimersRight (some Timers.start)
      [.setupTimer 7 true, .setupTimer 8 true, .startIntervalTimer 0 10 false 100 100,
        .startAbsoluteTimer 1 105 101 101, .alarm 106, .stopTimer 0 107, .deleteTimer 1 107] := by
  refine timers_keep_firing _ ?_
  refine eachStep_cons.mpr ⟨by decide, eachStep_cons.mpr ⟨by decide, eachStep_cons.mpr ⟨by decide,
    eachStep_cons.mpr ⟨by decide, eachStep_cons.mpr ⟨by decide, eachStep_cons.mpr ⟨by decide,
      eachStep_cons.mpr ⟨by decide, eachStep_nil⟩⟩⟩⟩⟩⟩⟩

/-- Two timers of five seconds. -/
def sameSecond : List TimerOp :=
  [.setupTimer 7 true, .setupTimer 8 true, .startIntervalTimer 0 5 false 100 100,
    .startIntervalTimer 1 5 false 100 100, .alarm 105]

/-- The first timer is deleted, and the identifier of the second one is used. -/
def deletedFirst : List TimerOp :=
  [.setupTimer 7 true, .setupTimer 8 true, .deleteTimer 0 100]

/-- With two timers in the same second no alarm is set after the first one has fired. When a timer in the
front is deleted, its identifier stands for the next one. -/
theorem timers_stop_firing :
    ¬ Always timerStep TimersRight (some Timers.start) sameSecond ∧
      (sameSecond.foldl timerStep (some Timers.start)).map
        (fun s => (s.alarm, s.timerList.map (·.active))) = some (none, [true, true]) ∧
      ¬ Always timerStep TimersRight (some Timers.start) deletedFirst ∧
      (deletedFirst.foldl timerStep (some Timers.start)).bind
        (fun s => (Timers.getFromSList s.timerList 0).map (·.id)) = some 1 := by
  refine ⟨fun h => ?_, by decide, fun h => ?_, by decide⟩
  · obtain ⟨s, hs, harmed, -⟩ := h sameSecond [] (List.append_nil _).symm
    have hnone : ∀ r ∈ sameSecond.foldl timerStep (some Timers.start),
        r.alarm = none ∧ ∃ t ∈ r.timerList, t.active = true := by decide
    obtain ⟨halarm, hactive⟩ := hnone s hs
    obtain ⟨⟨delay, hdelay, -⟩, -⟩ := harmed hactive
    rw [halarm] at hdelay
    cases hdelay
  · obtain ⟨s, hs, -, -, hown⟩ := h deletedFirst [] (List.append_nil _).symm
    have hwrong : ∀ r ∈ deletedFirst.foldl timerStep (some Timers.start),
        ∀ t ∈ Timers.getFromSList r.timerList 0, r.issued.lookup 0 ≠ some t.address := by decide
    have hsome : ∀ r ∈ deletedFirst.foldl timerStep (some Timers.start),
        (Timers.getFromSList r.timerList 0).isSome = true := by decide
    obtain ⟨t, ht⟩ := Option.isSome_iff_exists.mp (hsome s hs)
    exact hwrong s hs t ht ((hown 0 (Int.le_refl 0) t).mp ht).2

end SrxSuite.Util
