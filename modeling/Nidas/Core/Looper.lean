import Mathlib.Data.List.Nodup
import Mathlib.Data.Nat.GCD.Basic
import Mathlib.Tactic.Ring
import Nidas.Lib.KeyOrder
import Nidas.Lib.KeyedList

/-!
# The looper

A `Looper` notifies its clients periodically.  It wakes up at every multiple of `_sleepMsec`
milliseconds since midnight, which is the greatest common divisor of all periods and offsets.  The
number of the wakeup, modulo a divisor, tells which clients are to be notified.

## Strategy

The divisor of a client is its period and the remainder is its offset, both in units of
`_sleepMsec`.  So at the time `t` the client is notified when `t % period = offset`
(`mem_wake_iff`).  That is what is wanted of it, `t % period = offset % period`, when the offset is
less than the period; when it is not, there is no such time and the client is never notified.

The periods that `addClient` is called with are at most a day, so that no `unsigned int` overflows.
-/

namespace Nidas.Core

open Lib

variable {κ : Type*} [LinearOrder κ]

/-- `MSECS_PER_DAY` -/
def msecsPerDay : ℕ := 86400000

/-- What ends a call: an `InvalidParameterException`, or a failed assertion. -/
inductive LooperFault where
  | invalidParameter
  | assertion
  deriving DecidableEq, Repr

/-- The members of a `Looper`. -/
structure Looper (κ : Type*) where
  clients : List κ := []
  clientPeriods : List (κ × ℕ) := []
  clientOffsets : List (κ × ℕ) := []
  clientDivs : List (κ × ℕ) := []
  clientMods : List (κ × ℕ) := []
  sleepMsec : ℕ := 0

namespace Looper

/-- `Looper::gcd` -/
def gcd (a b : ℕ) : ℕ := if b = 0 then a else gcd b (a % b)
termination_by b
decreasing_by exact Nat.mod_lt a (Nat.pos_of_ne_zero ‹_›)

/-- The first loop of `setupClientMaps`, over the periods. -/
def gcdOfPeriods : List ℕ → ℕ → ℕ
  | [], sleepval => sleepval
  | per :: rest, sleepval => gcdOfPeriods rest (if sleepval = 0 then per else gcd sleepval per)

/-- The second loop of `setupClientMaps`, over the offsets. -/
def gcdOfOffsets : List ℕ → ℕ → ℕ
  | [], sleepval => sleepval
  | off :: rest, sleepval => gcdOfOffsets rest (if off ≠ 0 then gcd sleepval off else sleepval)

/-- The value of a key, or zero; the entry that `operator[]` makes for a key that is not there is
that of `touch`. -/
def valueOf (clnt : κ) (entries : List (κ × ℕ)) : ℕ := (lookupKey clnt entries).getD 0

def touch (clnt : κ) (entries : List (κ × ℕ)) : List (κ × ℕ) :=
  if (lookupKey clnt entries).isSome then entries else insertKey clnt 0 entries

/-- The third loop of `setupClientMaps`. -/
def setupClients (sleepval : ℕ) : List (κ × ℕ) → Looper κ → Except LooperFault (Looper κ)
  | [], looper => .ok looper
  | (clnt, per) :: rest, looper =>
      let offsets := touch clnt looper.clientOffsets
      let offset := valueOf clnt offsets
      if per % sleepval ≠ 0 then .error .assertion
      else if offset % sleepval ≠ 0 then .error .assertion
      else
        setupClients sleepval rest
          { looper with
            clientOffsets := offsets
            clientDivs := insertKey clnt (per / sleepval) looper.clientDivs
            clientMods := insertKey clnt (offset / sleepval) looper.clientMods
            -- the fastest clients are called first
            clients := insertUpper (valueOf · looper.clientPeriods) clnt looper.clients }

/-- `Looper::setupClientMaps` -/
def setupClientMaps (looper : Looper κ) : Except LooperFault (Looper κ) :=
  let sleepval := gcdOfOffsets (looper.clientOffsets.map Prod.snd)
    (gcdOfPeriods (looper.clientPeriods.map Prod.snd) 0)
  let looper := { looper with clientDivs := [], clientMods := [], clients := [] }
  if sleepval = 0 then .ok looper
  else
    match setupClients sleepval looper.clientPeriods looper with
    | .error fault => .error fault
    | .ok looper =>
        if looper.clients.length ≠ looper.clientPeriods.length then .error .assertion
        else if looper.clients.length ≠ looper.clientOffsets.length then .error .assertion
        else .ok { looper with sleepMsec := sleepval }

/-- The period, rounded to 10 milliseconds. -/
def roundPeriod (msecPeriod : ℕ) : ℕ := msecPeriod + 5 - (msecPeriod + 5) % 10

/-- `Looper::addClient` -/
def addClient (looper : Looper κ) (clnt : κ) (msecPeriod msecOffset : ℕ) :
    Except LooperFault (Looper κ) :=
  if msecPeriod < 5 then .error .invalidParameter
  else
    setupClientMaps
      { looper with
        clientPeriods := insertKey clnt (roundPeriod msecPeriod) looper.clientPeriods
        clientOffsets := insertKey clnt msecOffset looper.clientOffsets }

/-- `Looper::removeClient` -/
def removeClient (looper : Looper κ) (clnt : κ) : Except LooperFault (Looper κ) :=
  setupClientMaps
    { looper with
      clientPeriods := eraseKey clnt looper.clientPeriods
      clientOffsets := eraseKey clnt looper.clientOffsets }

/-- One turn of the loop in `Looper::run`, at a time in milliseconds since midnight: the clients
that are notified. -/
def wake (looper : Looper κ) (tnow : ℕ) : List κ :=
  let cntr := (tnow + looper.sleepMsec / 2) / looper.sleepMsec
  looper.clients.filter fun clnt =>
    let cdiv := valueOf clnt looper.clientDivs
    let cmod := valueOf clnt looper.clientMods
    cdiv > 0 ∧ cntr % cdiv = cmod

/-- The times of a day at which `run` wakes up: the multiples of `_sleepMsec`. -/
def wakeups (looper : Looper κ) : List ℕ :=
  (List.range msecsPerDay).filter fun t => looper.sleepMsec ∣ t

/-- The times of a day at which a client is notified, with a time for every notification. -/
def notifications (looper : Looper κ) (clnt : κ) : List ℕ :=
  looper.wakeups.flatMap fun t => ((looper.wake t).filter (· = clnt)).map fun _ => t

end Looper

/-! ## Calls -/

/-- What is called of a looper. -/
inductive LooperCall (κ : Type*) where
  | addClient (clnt : κ) (msecPeriod msecOffset : ℕ)
  | removeClient (clnt : κ)
  deriving DecidableEq, Repr

/-- The periods and offsets that are asked for: from 5 milliseconds up to a day, and below a day. -/
def LooperCall.Sound : LooperCall κ → Prop
  | .addClient _ msecPeriod msecOffset =>
      5 ≤ msecPeriod ∧ msecPeriod ≤ msecsPerDay ∧ msecOffset < msecsPerDay
  | .removeClient _ => True

/-- One call. -/
def Looper.call (looper : Looper κ) : LooperCall κ → Except LooperFault (Looper κ)
  | .addClient clnt msecPeriod msecOffset => looper.addClient clnt msecPeriod msecOffset
  | .removeClient clnt => looper.removeClient clnt

/-- One call after the other. -/
def Looper.callAll : Looper κ → List (LooperCall κ) → Except LooperFault (Looper κ)
  | looper, [] => .ok looper
  | looper, action :: rest =>
      match looper.call action with
      | .error fault => .error fault
      | .ok looper => looper.callAll rest

/-- What a call makes of the period and the offset that a client has been added with. -/
def LooperCall.schedule (clnt : κ) (schedule : Option (ℕ × ℕ)) :
    LooperCall κ → Option (ℕ × ℕ)
  | .addClient other msecPeriod msecOffset =>
      if other = clnt then some (msecPeriod, msecOffset) else schedule
  | .removeClient other => if other = clnt then none else schedule

/-- The period and the offset that a client has been added with, after some calls. -/
def registered (clnt : κ) (calls : List (LooperCall κ)) : Option (ℕ × ℕ) :=
  calls.foldl (LooperCall.schedule clnt) none

namespace Looper

/-! ## The divisor -/

theorem gcd_eq (a b : ℕ) : gcd a b = Nat.gcd a b := by
  induction a, b using gcd.induct with
  | case1 a => simp [gcd]
  | case2 a b hzero ih =>
      rw [gcd, if_neg hzero, ih, Nat.gcd_comm, ← Nat.gcd_rec, Nat.gcd_comm]

theorem gcdOfPeriods_dvd (periods : List ℕ) (sleepval : ℕ) :
    gcdOfPeriods periods sleepval ∣ sleepval ∧
      ∀ per ∈ periods, gcdOfPeriods periods sleepval ∣ per := by
  induction periods generalizing sleepval with
  | nil => simp [gcdOfPeriods]
  | cons per rest ih =>
      unfold gcdOfPeriods
      obtain ⟨hdvd, hrest⟩ := ih (if sleepval = 0 then per else gcd sleepval per)
      have hboth : (if sleepval = 0 then per else gcd sleepval per) ∣ sleepval ∧
          (if sleepval = 0 then per else gcd sleepval per) ∣ per := by
        split
        · next hzero => simp [hzero]
        · rw [gcd_eq]
          exact ⟨Nat.gcd_dvd_left _ _, Nat.gcd_dvd_right _ _⟩
      exact ⟨hdvd.trans hboth.1, List.forall_mem_cons.mpr ⟨hdvd.trans hboth.2, hrest⟩⟩

theorem gcdOfOffsets_dvd (offsets : List ℕ) (sleepval : ℕ) :
    gcdOfOffsets offsets sleepval ∣ sleepval ∧
      ∀ off ∈ offsets, gcdOfOffsets offsets sleepval ∣ off := by
  induction offsets generalizing sleepval with
  | nil => simp [gcdOfOffsets]
  | cons off rest ih =>
      unfold gcdOfOffsets
      obtain ⟨hdvd, hrest⟩ := ih (if off ≠ 0 then gcd sleepval off else sleepval)
      have hboth : (if off ≠ 0 then gcd sleepval off else sleepval) ∣ sleepval ∧
          (if off ≠ 0 then gcd sleepval off else sleepval) ∣ off := by
        split
        · rw [gcd_eq]
          exact ⟨Nat.gcd_dvd_left _ _, Nat.gcd_dvd_right _ _⟩
        · next hzero =>
            rw [not_not.mp hzero]
            exact ⟨dvd_rfl, dvd_zero _⟩
      exact ⟨hdvd.trans hboth.1, List.forall_mem_cons.mpr ⟨hdvd.trans hboth.2, hrest⟩⟩

theorem gcdOfPeriods_pos {periods : List ℕ} (hpos : ∀ per ∈ periods, 0 < per) {sleepval : ℕ}
    (hsome : 0 < sleepval ∨ periods ≠ []) : 0 < gcdOfPeriods periods sleepval := by
  obtain ⟨hdvd, hall⟩ := gcdOfPeriods_dvd periods sleepval
  rcases hsome with hsleep | hne
  · exact Nat.pos_of_dvd_of_pos hdvd hsleep
  · obtain ⟨per, hper⟩ := List.exists_mem_of_ne_nil _ hne
    exact Nat.pos_of_dvd_of_pos (hall per hper) (hpos per hper)

/-! ## The maps -/

theorem touch_of_lookup {clnt : κ} {entries : List (κ × ℕ)} {value : ℕ}
    (hlookup : lookupKey clnt entries = some value) : touch clnt entries = entries := by
  unfold touch
  rw [hlookup, Option.isSome_some, if_pos rfl]

theorem valueOf_of_lookup {clnt : κ} {entries : List (κ × ℕ)} {value : ℕ}
    (hlookup : lookupKey clnt entries = some value) : valueOf clnt entries = value := by
  unfold valueOf
  rw [hlookup, Option.getD_some]

/-- What the third loop of `setupClientMaps` has done for some of the periods. -/
structure SetUp (sleepval : ℕ) (periods : List (κ × ℕ)) (looper after : Looper κ) : Prop where
  clientPeriods : after.clientPeriods = looper.clientPeriods
  clientOffsets : after.clientOffsets = looper.clientOffsets
  clients : after.clients.Perm (periods.map Prod.fst ++ looper.clients)
  done : ∀ clnt per off, (clnt, per) ∈ periods →
    lookupKey clnt looper.clientOffsets = some off →
      lookupKey clnt after.clientDivs = some (per / sleepval) ∧
        lookupKey clnt after.clientMods = some (off / sleepval)
  others : ∀ clnt, clnt ∉ periods.map Prod.fst →
    lookupKey clnt after.clientDivs = lookupKey clnt looper.clientDivs ∧
      lookupKey clnt after.clientMods = lookupKey clnt looper.clientMods

/-- No assertion of the loop fails when the periods and the offsets are multiples. -/
theorem exists_setupClients {sleepval : ℕ} {periods : List (κ × ℕ)} (looper : Looper κ)
    (hnodup : (periods.map Prod.fst).Nodup)
    (hdvd : ∀ clnt per, (clnt, per) ∈ periods → sleepval ∣ per ∧
      ∃ off, lookupKey clnt looper.clientOffsets = some off ∧ sleepval ∣ off) :
    ∃ after, setupClients sleepval periods looper = .ok after ∧
      SetUp sleepval periods looper after := by
  induction periods generalizing looper with
  | nil => exact ⟨looper, rfl, ⟨rfl, rfl, .refl _, by simp, by simp⟩⟩
  | cons entry rest ih =>
      obtain ⟨clnt, per⟩ := entry
      rw [List.map_cons, List.nodup_cons] at hnodup
      obtain ⟨hper, off, hlookup, hoff⟩ := hdvd clnt per List.mem_cons_self
      unfold setupClients
      dsimp only
      rw [touch_of_lookup hlookup, valueOf_of_lookup hlookup,
        if_neg (not_not.mpr (Nat.mod_eq_zero_of_dvd hper)),
        if_neg (not_not.mpr (Nat.mod_eq_zero_of_dvd hoff))]
      obtain ⟨after, hafter, hset⟩ := ih
        { looper with
          clientDivs := insertKey clnt (per / sleepval) looper.clientDivs
          clientMods := insertKey clnt (off / sleepval) looper.clientMods
          clients := insertUpper (valueOf · looper.clientPeriods) clnt looper.clients }
        hnodup.2 fun other otherPer hmem => hdvd other otherPer (List.mem_cons_of_mem _ hmem)
      refine ⟨after, hafter, hset.clientPeriods, hset.clientOffsets, ?_, ?_, ?_⟩
      · calc
          List.Perm after.clients (rest.map Prod.fst ++
              insertUpper (valueOf · looper.clientPeriods) clnt looper.clients) := hset.clients
          List.Perm _ (rest.map Prod.fst ++ clnt :: looper.clients) :=
            (insertUpper_perm clnt looper.clients).append_left _
          List.Perm _ (clnt :: (rest.map Prod.fst ++ looper.clients)) := List.perm_middle
      · intro other otherPer otherOff hmem hother
        rcases List.mem_cons.mp hmem with heq | hrest
        · -- the client of this turn: the later turns leave its entries alone
          cases heq
          obtain ⟨hdiv, hmod⟩ := hset.others clnt hnodup.1
          rw [hdiv, hmod, lookupKey_insertKey_self, lookupKey_insertKey_self]
          rw [hlookup] at hother
          cases hother
          exact ⟨rfl, rfl⟩
        · exact hset.done other otherPer otherOff hrest hother
      · intro other hother
        rw [List.map_cons, List.mem_cons, not_or] at hother
        obtain ⟨hdiv, hmod⟩ := hset.others other hother.2
        rw [hdiv, hmod, lookupKey_insertKey_of_ne hother.1, lookupKey_insertKey_of_ne hother.1]
        exact ⟨rfl, rfl⟩

/-- The invariant of a looper: a period and an offset for the same clients, and the schedule of
every client in units of `_sleepMsec`. -/
structure Inv (looper : Looper κ) : Prop where
  inOrder : KeysInOrder looper.clientPeriods
  keys : looper.clientPeriods.map Prod.fst = looper.clientOffsets.map Prod.fst
  pos : ∀ clnt per, lookupKey clnt looper.clientPeriods = some per → 0 < per
  clients : looper.clients.Perm (looper.clientPeriods.map Prod.fst)
  sleep_pos : looper.clientPeriods ≠ [] → 0 < looper.sleepMsec
  scheduled : ∀ clnt per off, lookupKey clnt looper.clientPeriods = some per →
    lookupKey clnt looper.clientOffsets = some off →
      looper.sleepMsec ∣ per ∧ looper.sleepMsec ∣ off ∧
        lookupKey clnt looper.clientDivs = some (per / looper.sleepMsec) ∧
        lookupKey clnt looper.clientMods = some (off / looper.sleepMsec)

/-- The divisor of all periods and offsets. -/
def sleepOf (looper : Looper κ) : ℕ :=
  gcdOfOffsets (looper.clientOffsets.map Prod.snd)
    (gcdOfPeriods (looper.clientPeriods.map Prod.snd) 0)

omit [LinearOrder κ] in
theorem sleepOf_dvd_period {looper : Looper κ} {clnt : κ} {per : ℕ}
    (hmem : (clnt, per) ∈ looper.clientPeriods) : looper.sleepOf ∣ per :=
  (gcdOfOffsets_dvd _ _).1.trans ((gcdOfPeriods_dvd _ _).2 per (List.mem_map_of_mem hmem))

omit [LinearOrder κ] in
theorem sleepOf_dvd_offset {looper : Looper κ} {clnt : κ} {off : ℕ}
    (hmem : (clnt, off) ∈ looper.clientOffsets) : looper.sleepOf ∣ off :=
  (gcdOfOffsets_dvd _ _).2 off (List.mem_map_of_mem hmem)

theorem sleepOf_eq_zero_iff {looper : Looper κ} (hinOrder : KeysInOrder looper.clientPeriods)
    (hkeys : looper.clientPeriods.map Prod.fst = looper.clientOffsets.map Prod.fst)
    (hpos : ∀ clnt per, lookupKey clnt looper.clientPeriods = some per → 0 < per) :
    looper.sleepOf = 0 ↔ looper.clientPeriods = [] := by
  constructor
  · intro hzero
    by_contra hne
    have hall : ∀ per ∈ looper.clientPeriods.map Prod.snd, 0 < per := by
      intro per hmem
      obtain ⟨⟨clnt, _⟩, hentry, rfl⟩ := List.mem_map.mp hmem
      exact hpos clnt _ (lookupKey_of_mem hinOrder hentry)
    have hperiods : 0 < gcdOfPeriods (looper.clientPeriods.map Prod.snd) 0 :=
      gcdOfPeriods_pos hall (.inr (by simpa using hne))
    have hsleep : 0 < looper.sleepOf := Nat.pos_of_dvd_of_pos (gcdOfOffsets_dvd _ _).1 hperiods
    omega
  · intro hnil
    have hoffsets : looper.clientOffsets = [] := by
      rw [hnil] at hkeys
      simpa using hkeys.symm
    unfold sleepOf
    rw [hnil, hoffsets]
    rfl

/-- The assertions hold, and the invariant is established. -/
theorem exists_setupClientMaps (looper : Looper κ) (hinOrder : KeysInOrder looper.clientPeriods)
    (hkeys : looper.clientPeriods.map Prod.fst = looper.clientOffsets.map Prod.fst)
    (hpos : ∀ clnt per, lookupKey clnt looper.clientPeriods = some per → 0 < per) :
    ∃ after, setupClientMaps looper = .ok after ∧ after.Inv ∧
      after.clientPeriods = looper.clientPeriods ∧ after.clientOffsets = looper.clientOffsets := by
  unfold setupClientMaps
  dsimp only
  rw [← sleepOf]
  by_cases hzero : looper.sleepOf = 0
  · rw [if_pos hzero]
    have hnil := (sleepOf_eq_zero_iff hinOrder hkeys hpos).mp hzero
    refine ⟨_, rfl, ⟨hinOrder, hkeys, hpos, ?_, fun hne => absurd hnil hne, ?_⟩, rfl, rfl⟩
    · rw [hnil]
      exact .refl _
    · intro clnt per off hper
      dsimp only at hper
      rw [hnil] at hper
      cases hper
  · rw [if_neg hzero]
    have hoffset : ∀ clnt per, (clnt, per) ∈ looper.clientPeriods → looper.sleepOf ∣ per ∧
        ∃ off, lookupKey clnt looper.clientOffsets = some off ∧ looper.sleepOf ∣ off := by
      intro clnt per hmem
      refine ⟨sleepOf_dvd_period hmem, ?_⟩
      have hkey : clnt ∈ looper.clientOffsets.map Prod.fst := by
        rw [← hkeys]
        exact List.mem_map_of_mem hmem
      obtain ⟨off, hoff⟩ := exists_lookupKey_iff.mpr hkey
      exact ⟨off, hoff, sleepOf_dvd_offset (mem_of_lookupKey hoff)⟩
    obtain ⟨after, hafter, hset⟩ := exists_setupClients
      { looper with clientDivs := [], clientMods := [], clients := [] } hinOrder.nodup hoffset
    have hclients : after.clients.Perm (looper.clientPeriods.map Prod.fst) := by
      simpa using hset.clients
    have hlength : after.clients.length = looper.clientPeriods.length := by
      simpa using hclients.length_eq
    have hlength' : after.clients.length = looper.clientOffsets.length := by
      have hsame := congrArg List.length hkeys
      simp only [List.length_map] at hsame
      omega
    have hperiods : after.clientPeriods = looper.clientPeriods := hset.clientPeriods
    have hoffsets : after.clientOffsets = looper.clientOffsets := hset.clientOffsets
    rw [hafter]
    dsimp only
    rw [hperiods, hoffsets, if_neg (not_not.mpr hlength), if_neg (not_not.mpr hlength')]
    refine ⟨_, rfl, ⟨hinOrder, hkeys, hpos, hclients, fun _ => Nat.pos_of_ne_zero hzero, ?_⟩,
      rfl, rfl⟩
    intro clnt per off hper hoff
    obtain ⟨hdiv, hmod⟩ := hset.done clnt per off (mem_of_lookupKey hper) hoff
    exact ⟨sleepOf_dvd_period (mem_of_lookupKey hper),
      sleepOf_dvd_offset (mem_of_lookupKey hoff), hdiv, hmod⟩

/-! ## Any calls -/

theorem roundPeriod_pos {msecPeriod : ℕ} (hle : 5 ≤ msecPeriod) : 0 < roundPeriod msecPeriod := by
  unfold roundPeriod
  omega

/-- The clients are those of a schedule, with its periods and offsets. -/
structure Follows (schedule : κ → Option (ℕ × ℕ)) (looper : Looper κ) : Prop where
  inv : looper.Inv
  period : ∀ clnt,
    lookupKey clnt looper.clientPeriods = (schedule clnt).map fun asked => roundPeriod asked.1
  offset : ∀ clnt,
    lookupKey clnt looper.clientOffsets = (schedule clnt).map fun asked => asked.2

theorem follows_empty : Follows (fun _ => none) ({} : Looper κ) where
  inv := ⟨List.Pairwise.nil, rfl, by simp, .refl _, by simp, by simp⟩
  period _ := rfl
  offset _ := rfl

/-- One call. -/
theorem Follows.call {schedule : κ → Option (ℕ × ℕ)} {looper : Looper κ}
    (hfollows : looper.Follows schedule) {action : LooperCall κ} (hsound : action.Sound) :
    ∃ after, looper.call action = .ok after ∧
      after.Follows fun clnt => action.schedule clnt (schedule clnt) := by
  have hinv := hfollows.inv
  cases action with
  | addClient added msecPeriod msecOffset =>
      have hpos : ∀ clnt per, lookupKey clnt
          (insertKey added (roundPeriod msecPeriod) looper.clientPeriods) = some per →
            0 < per := by
        intro clnt per hlookup
        by_cases hclnt : clnt = added
        · subst hclnt
          rw [lookupKey_insertKey_self] at hlookup
          cases hlookup
          exact roundPeriod_pos hsound.1
        · rw [lookupKey_insertKey_of_ne hclnt] at hlookup
          exact hinv.pos clnt per hlookup
      obtain ⟨after, hafter, hinv', hperiods, hoffsets⟩ := exists_setupClientMaps
        { looper with
          clientPeriods := insertKey added (roundPeriod msecPeriod) looper.clientPeriods
          clientOffsets := insertKey added msecOffset looper.clientOffsets }
        hinv.inOrder.insertKey (map_fst_insertKey hinv.keys) hpos
      have hcall : looper.call (.addClient added msecPeriod msecOffset) = .ok after := by
        unfold Looper.call addClient
        dsimp only
        rw [if_neg (not_lt.mpr hsound.1), hafter]
      refine ⟨after, hcall, hinv', fun clnt => ?_, fun clnt => ?_⟩
      · rw [hperiods, LooperCall.schedule]
        by_cases hclnt : added = clnt
        · subst hclnt
          rw [lookupKey_insertKey_self, if_pos rfl, Option.map_some]
        · rw [lookupKey_insertKey_of_ne (Ne.symm hclnt), if_neg hclnt, hfollows.period]
      · rw [hoffsets, LooperCall.schedule]
        by_cases hclnt : added = clnt
        · subst hclnt
          rw [lookupKey_insertKey_self, if_pos rfl, Option.map_some]
        · rw [lookupKey_insertKey_of_ne (Ne.symm hclnt), if_neg hclnt, hfollows.offset]
  | removeClient removed =>
      have hpos : ∀ clnt per, lookupKey clnt (eraseKey removed looper.clientPeriods) = some per →
          0 < per := by
        intro clnt per hlookup
        by_cases hclnt : clnt = removed
        · subst hclnt
          rw [lookupKey_eraseKey_self] at hlookup
          cases hlookup
        · rw [lookupKey_eraseKey_of_ne hclnt] at hlookup
          exact hinv.pos clnt per hlookup
      have hkeys : (eraseKey removed looper.clientPeriods).map Prod.fst =
          (eraseKey removed looper.clientOffsets).map Prod.fst := by
        rw [map_fst_eraseKey, map_fst_eraseKey, hinv.keys]
      obtain ⟨after, hafter, hinv', hperiods, hoffsets⟩ := exists_setupClientMaps
        { looper with
          clientPeriods := eraseKey removed looper.clientPeriods
          clientOffsets := eraseKey removed looper.clientOffsets }
        hinv.inOrder.eraseKey hkeys hpos
      refine ⟨after, hafter, hinv', fun clnt => ?_, fun clnt => ?_⟩
      · rw [hperiods, LooperCall.schedule]
        by_cases hclnt : removed = clnt
        · subst hclnt
          rw [lookupKey_eraseKey_self, if_pos rfl, Option.map_none]
        · rw [lookupKey_eraseKey_of_ne (Ne.symm hclnt), if_neg hclnt, hfollows.period]
      · rw [hoffsets, LooperCall.schedule]
        by_cases hclnt : removed = clnt
        · subst hclnt
          rw [lookupKey_eraseKey_self, if_pos rfl, Option.map_none]
        · rw [lookupKey_eraseKey_of_ne (Ne.symm hclnt), if_neg hclnt, hfollows.offset]

/-- Any calls: the assertions of `setupClientMaps` hold in each of them. -/
theorem Follows.callAll {calls : List (LooperCall κ)} {schedule : κ → Option (ℕ × ℕ)}
    {looper : Looper κ} (hfollows : looper.Follows schedule)
    (hsound : ∀ action ∈ calls, action.Sound) :
    ∃ after, looper.callAll calls = .ok after ∧
      after.Follows fun clnt => calls.foldl (LooperCall.schedule clnt) (schedule clnt) := by
  induction calls generalizing looper schedule with
  | nil => exact ⟨looper, rfl, hfollows⟩
  | cons action rest ih =>
      obtain ⟨haction, hrest⟩ := List.forall_mem_cons.mp hsound
      obtain ⟨next, hnext, hfollows'⟩ := hfollows.call haction
      unfold Looper.callAll
      rw [hnext]
      exact ih hfollows' hrest

/-! ## The schedule of a client -/

section

variable {looper : Looper κ} (hinv : looper.Inv) {clnt : κ} {per off : ℕ}
  (hper : lookupKey clnt looper.clientPeriods = some per)
  (hoff : lookupKey clnt looper.clientOffsets = some off)

include hinv hper hoff

/-- **When a client is notified**: the offset is not reduced by the period. -/
theorem mem_wake_iff {t : ℕ} (ht : looper.sleepMsec ∣ t) :
    clnt ∈ looper.wake t ↔ t % per = off := by
  obtain ⟨⟨div, hdiv⟩, ⟨mod, hmod⟩, hdivs, hmods⟩ := hinv.scheduled clnt per off hper hoff
  obtain ⟨cntr, rfl⟩ := ht
  have hne : looper.clientPeriods ≠ [] := by
    intro hnil
    rw [hnil] at hper
    cases hper
  have hsleep := hinv.sleep_pos hne
  have hpos := hinv.pos clnt per hper
  have hmem : clnt ∈ looper.clients := by
    rw [hinv.clients.mem_iff]
    exact exists_lookupKey_iff.mp ⟨per, hper⟩
  -- the number of the wakeup
  have hcntr : (looper.sleepMsec * cntr + looper.sleepMsec / 2) / looper.sleepMsec = cntr := by
    rw [Nat.mul_add_div hsleep, Nat.div_eq_of_lt (Nat.div_lt_self hsleep (by decide)), Nat.add_zero]
  have hdiv' : per / looper.sleepMsec = div := by
    rw [hdiv, Nat.mul_div_cancel_left div hsleep]
  have hmod' : off / looper.sleepMsec = mod := by
    rw [hmod, Nat.mul_div_cancel_left mod hsleep]
  have hdivPos : 0 < div := by
    apply Nat.pos_of_ne_zero
    rintro rfl
    rw [hdiv] at hpos
    omega
  unfold wake
  dsimp only
  rw [List.mem_filter, hcntr, valueOf_of_lookup hdivs, valueOf_of_lookup hmods, hdiv', hmod',
    hdiv, hmod, Nat.mul_mod_mul_left, Nat.mul_right_inj hsleep.ne']
  simp [hmem, hdivPos]

/-- A client is notified once in a wakeup. -/
theorem filter_wake {t : ℕ} (ht : looper.sleepMsec ∣ t) :
    (looper.wake t).filter (· = clnt) = if t % per = off then [clnt] else [] := by
  have hnodup : (looper.wake t).Nodup := by
    unfold wake
    apply List.Nodup.filter
    rw [hinv.clients.nodup_iff]
    exact hinv.inOrder.nodup
  rw [List.filter_eq, hnodup.count, ← if_congr (mem_wake_iff hinv hper hoff ht) rfl rfl]
  split <;> rfl

/-- The times of the notifications. -/
theorem notifications_eq :
    looper.notifications clnt =
      (List.range msecsPerDay).filter fun t => looper.sleepMsec ∣ t ∧ t % per = off := by
  unfold notifications wakeups
  induction List.range msecsPerDay with
  | nil => rfl
  | cons t rest ih =>
      by_cases ht : looper.sleepMsec ∣ t
      · rw [List.filter_cons_of_pos (by simpa using ht), List.flatMap_cons, ih,
          filter_wake hinv hper hoff ht]
        by_cases hoffset : t % per = off
        · rw [if_pos hoffset, List.filter_cons_of_pos (by simp [ht, hoffset])]
          rfl
        · rw [if_neg hoffset, List.filter_cons_of_neg (by simp [hoffset])]
          rfl
      · rw [List.filter_cons_of_neg (by simpa using ht),
          List.filter_cons_of_neg (by simp [ht]), ih]

/-- **The times that are wanted**: the offset modulo the period, if it is less than the period. -/
theorem notifications_eq_iff (hday : per ≤ msecsPerDay) :
    looper.notifications clnt =
        (List.range msecsPerDay).filter (fun t => t % per = off % per) ↔ off < per := by
  have hpos := hinv.pos clnt per hper
  obtain ⟨hdvdPer, hdvdOff, -, -⟩ := hinv.scheduled clnt per off hper hoff
  rw [notifications_eq hinv hper hoff]
  constructor
  · intro heq
    -- the first of the times that are wanted
    have hmem : off % per ∈ (List.range msecsPerDay).filter (fun t => t % per = off % per) := by
      rw [List.mem_filter, List.mem_range]
      have := Nat.mod_lt off hpos
      exact ⟨by omega, by simp⟩
    rw [← heq, List.mem_filter] at hmem
    have hsame : off % per % per = off := (of_decide_eq_true hmem.2).2
    rw [← hsame]
    exact Nat.mod_lt _ hpos
  · intro hlt
    apply List.filter_congr
    intro t _
    rw [Nat.mod_eq_of_lt hlt, decide_eq_decide, and_iff_right_iff_imp]
    intro hmod
    rw [← Nat.div_add_mod t per, hmod]
    exact Nat.dvd_add (hdvdPer.mul_right _) hdvdOff

end

theorem roundPeriod_le {msecPeriod : ℕ} (hle : msecPeriod ≤ msecsPerDay) :
    roundPeriod msecPeriod ≤ msecsPerDay := by
  unfold roundPeriod
  unfold msecsPerDay at hle ⊢
  omega

/-- A client is registered with a period that has been asked for. -/
theorem le_of_registered {clnt : κ} {calls : List (LooperCall κ)}
    (hsound : ∀ action ∈ calls, action.Sound) {schedule : Option (ℕ × ℕ)}
    (hschedule : ∀ asked, schedule = some asked → asked.1 ≤ msecsPerDay) {asked : ℕ × ℕ}
    (hasked : calls.foldl (LooperCall.schedule clnt) schedule = some asked) :
    asked.1 ≤ msecsPerDay := by
  induction calls generalizing schedule with
  | nil => exact hschedule asked hasked
  | cons action rest ih =>
      obtain ⟨haction, hrest⟩ := List.forall_mem_cons.mp hsound
      refine ih hrest ?_ hasked
      intro other hother
      cases action with
      | addClient added period offset =>
          rw [LooperCall.schedule] at hother
          split at hother
          · cases hother
            exact haction.2.1
          · exact hschedule other hother
      | removeClient removed =>
          rw [LooperCall.schedule] at hother
          split at hother
          · cases hother
          · exact hschedule other hother

/-- A prompt of 10 Hz, 20 milliseconds after each tenth of a second, and a client every second. -/
def promptCalls : List (LooperCall ℕ) :=
  [.addClient 1 100 20, .addClient 2 1000 0, .addClient 3 250 0, .removeClient 3]

theorem sound_promptCalls : ∀ action ∈ promptCalls, action.Sound := by
  simp [promptCalls, LooperCall.Sound, msecsPerDay]

end Looper

end Nidas.Core
