import Nidas.Dynld.SyncInit

/-!
# Samples stay in their records

The slots of a sample are counted with a number of microseconds that is rounded, so that they need not
cover a second: three slots of a third of a second end one microsecond before it.  A sample at that
time has a slot behind the last one, and an assertion of `receive` fails.  The same
happens to a sample of a high rate that is ahead by more than a second, which a low rate of another
sample allows.

These are the only two ways to get out of a record: no call of `receive` fails in any run if and only if
the slots of each sample cover a second and half an interval of the slowest sample.
-/

namespace Nidas.Dynld

open Lib

variable {α : Type*}

/-! ## The skip modulus -/

/-- An interval that fits into an `int` belongs to a rate that is not too small. -/
theorem lt_rate_of_usecsPerSlot_lt {rate : ℚ} (hrate : 0 < rate)
    (hlt : usecsPerSlot rate < intLimit) : 1 / 4096 < rate := by
  have husecs : usecsPerSample rate < 2 ^ (31 : ℤ) := by
    by_contra hge
    have hle : intLimit ≤ usecsPerSlot rate := by
      apply le_rint
      have hcast : ((intLimit : ℤ) : ℚ) = 2 ^ (31 : ℤ) := by norm_num [intLimit]
      rw [hcast]
      exact not_lt.mp hge
    omega
  have hquotient : 1000000 / rate < 2 ^ (31 : ℤ) := by
    by_contra hge
    have hle := two_pow_le_roundTo (show 1 ≤ 24 by decide) (not_lt.mp hge)
    exact absurd husecs (not_lt.mpr hle)
  rw [div_lt_iff₀ hrate] at hquotient
  norm_num at hquotient
  linarith

/-- What a rate lacks of its slots is less than one by what a `float` can tell. -/
theorem slots_sub_rate_le {rate : ℚ} (hrate : 0 < rate) (hfloat : ∃ q, 0 < q ∧ rate = roundFloat q)
    (hlt : usecsPerSlot rate < intLimit) : slotsPerSecond rate - rate ≤ 1 - 2 ^ (-(23 : ℕ) : ℤ) := by
  have hceil' : (slotsPerSecond rate : ℚ) < rate + 1 := Int.ceil_lt_add_one rate
  by_cases hone : 1 < rate
  · obtain ⟨q, hq, hround⟩ := hfloat
    have hround' : rate = roundTo 24 q := hround
    rw [hround'] at hone
    obtain ⟨n, hn⟩ := exists_roundTo_eq (by decide) hq hone
    rw [← hround'] at hn hone
    norm_num at hn
    -- the difference is a multiple of the last digit
    have hint : slotsPerSecond rate * 8388608 - n < 8388608 := by
      have hcast : ((slotsPerSecond rate * 8388608 - n : ℤ) : ℚ) < 8388608 := by
        push_cast
        linarith
      exact_mod_cast hcast
    have hint' : ((slotsPerSecond rate * 8388608 - n : ℤ) : ℚ) ≤ 8388607 := by
      exact_mod_cast Int.le_of_lt_add_one hint
    push_cast at hint'
    norm_num
    linarith
  · have hlarge := lt_rate_of_usecsPerSlot_lt hrate hlt
    have hslots : slotsPerSecond rate = 1 := by
      refine Int.ceil_eq_iff.mpr ⟨?_, ?_⟩
      · norm_num
        exact hrate
      · exact_mod_cast not_lt.mp hone
    rw [hslots]
    norm_num
    linarith

/-- The remainder of `skipModCount` is defined. -/
theorem skipModulus_pos {rate : ℚ} (hrate : 0 < rate) (hfloat : ∃ q, 0 < q ∧ rate = roundFloat q)
    (hlt : usecsPerSlot rate < intLimit) : 0 < skipModulus rate := by
  have hsub := slots_sub_rate_le hrate hfloat hlt
  have hceil : rate ≤ slotsPerSecond rate := Int.le_ceil rate
  have hrest : roundFloat (slotsPerSecond rate - rate) ≤ 1 - 2 ^ (-(23 : ℕ) : ℤ) := by
    obtain hzero | hpos := (sub_nonneg.mpr hceil).eq_or_lt
    · have hround : roundFloat 0 = 0 := by decide +kernel
      rw [← hzero, hround]
      norm_num
    · exact roundTo_le_one_sub (by decide) hpos hsub
  have hnonneg : 0 ≤ roundFloat (slotsPerSecond rate - rate) := roundTo_nonneg (by linarith)
  have hpos : (2 : ℚ) ^ (-23 : ℤ) ≤ 1 - roundFloat (slotsPerSecond rate - rate) := by
    norm_num at hrest ⊢
    linarith
  have hdivisor : 0 < roundFloat (1 - roundFloat (slotsPerSecond rate - rate)) :=
    lt_of_lt_of_le (by norm_num) (two_pow_le_roundTo (by decide) hpos)
  have hle : roundFloat (1 - roundFloat (slotsPerSecond rate - rate)) ≤ 1 := by
    have hpow := roundTo_le_two_pow (show 1 ≤ 24 by decide)
      (lt_of_lt_of_le (by norm_num) hpos)
      (show 1 - roundFloat (slotsPerSecond rate - rate) ≤ 2 ^ (0 : ℤ) by
        rw [zpow_zero]
        linarith)
    rwa [zpow_zero] at hpow
  have hquotient : (2 : ℚ) ^ (0 : ℤ) ≤
      1 / roundFloat (1 - roundFloat (slotsPerSecond rate - rate)) := by
    rw [zpow_zero, le_div_iff₀ hdivisor]
    linarith
  have hmod := two_pow_le_roundTo (show 1 ≤ 53 by decide) hquotient
  rw [zpow_zero] at hmod
  have hfloor : 1 ≤ skipModulus rate := Int.le_floor.mpr (by exact_mod_cast hmod)
  omega

/-! ## No call fails -/

/-- The slots of each sample cover a second, and half an interval of every sample. -/
def SlotsFit (vars : List TaggedVariable) : Prop :=
  ∀ id first rest, variablesOf id vars = first :: rest →
    1000000 ≤ slotsPerSecond first.floatRate * usecsPerSlot first.floatRate ∧
      ∀ var ∈ vars, 0 < var.floatRate → halfUsecsPerSample var.floatRate ≤
        slotsPerSecond first.floatRate * usecsPerSlot first.floatRate

/-- The invariant of a run: every sample is in a slot of a record that is there. -/
structure Ready (source : SyncSource α) : Prop where
  inv : source.window.Inv
  laidOut : ∀ sinfo ∈ source.infos, sinfo.LaidOut source.window.recSize
  fits : ∀ sinfo ∈ source.infos, sinfo.Fits source.halfMaxUsecsPerSample
  islot : ∀ sinfo ∈ source.infos, sinfo.islot < sinfo.nSlots
  irec : ∀ sinfo ∈ source.infos,
    sinfo.irec = source.window.current ∨ source.window.Allocated sinfo.irec

theorem floatRate_pos_of_variablesOf {id : ℕ} {vars rest : List TaggedVariable}
    {first : TaggedVariable} (hvars : variablesOf id vars = first :: rest) :
    first ∈ vars ∧ first.id = id ∧ 0 < first.floatRate := by
  have hmem : first ∈ variablesOf id vars := by
    rw [hvars]
    exact List.mem_cons_self
  simpa [variablesOf] using hmem

theorem Initial.dtUsec_pos {vars : List TaggedVariable} {recSize : ℕ} {sinfo : SyncInfo}
    (hinitial : Initial vars recSize sinfo) : 0 < sinfo.dtUsec := by
  obtain ⟨first, rest, hvars, hrate⟩ := hinitial.exists_first
  obtain ⟨-, -, hpos⟩ := floatRate_pos_of_variablesOf hvars
  have husecs : 0 ≤ usecsPerSample sinfo.rate := by
    refine roundTo_nonneg (div_nonneg (by norm_num) ?_)
    rw [hrate]
    exact hpos.le
  have hnonneg : 0 ≤ sinfo.dtUsec := by
    rw [hinitial.dtUsec]
    exact le_rint (by exact_mod_cast husecs)
  have := hinitial.dtUsec_ne
  omega

theorem Initial.fits {vars : List TaggedVariable} {recSize : ℕ} {sinfo : SyncInfo}
    (hinitial : Initial vars recSize sinfo) (hfit : SlotsFit vars) {infos : List SyncInfo} {half : ℤ}
    (hbuilt : Built vars infos half) : sinfo.Fits half := by
  obtain ⟨first, rest, hvars, hrate⟩ := hinitial.exists_first
  obtain ⟨-, -, hpos⟩ := floatRate_pos_of_variablesOf hvars
  obtain ⟨hsecond, hhalf⟩ := hfit _ first rest hvars
  have hlt : usecsPerSlot sinfo.rate < intLimit := by
    rw [← hinitial.dtUsec]
    exact hinitial.dtUsec_lt
  rw [← hrate, ← hinitial.nSlots, ← hinitial.dtUsec] at hsecond hhalf
  refine ⟨hinitial.dtUsec_pos, ?_, hsecond, hbuilt.half_le _ ?_ hhalf⟩
  · rw [hinitial.skipMod]
    refine (skipModulus_pos ?_ ⟨first.rate, ?_, hrate⟩ hlt).ne'
    · rw [hrate]
      exact hpos
    · exact pos_of_roundTo_pos hpos
  · unfold intLimit
    omega

theorem ready_init {vars : List TaggedVariable} {source : SyncSource α}
    (hinit : SyncSource.init vars = .ok source) (hfit : SlotsFit vars) : Ready source := by
  obtain ⟨⟨infos, hbuilt, -⟩, hinitial, hcurrent, hrecords, -, -⟩ := init_spec hinit
  refine ⟨⟨?_, ?_, ?_⟩, fun sinfo hmem => (hinitial sinfo hmem).laidOut,
    fun sinfo hmem => (hinitial sinfo hmem).fits hfit hbuilt, fun sinfo hmem => ?_,
    fun sinfo hmem => .inl ?_⟩
  · simp [hrecords]
  · simp [hrecords]
  · simp [hrecords]
  · have hpos := ((hinitial sinfo hmem).fits hfit hbuilt).nSlots_pos
    rw [(hinitial sinfo hmem).islot]
    omega
  · rw [(hinitial sinfo hmem).irec, hcurrent]

namespace Ready

variable {source : SyncSource α} (hready : Ready source)

include hready

theorem withCurrent (timetag : ℤ) : Ready (source.withCurrent timetag) where
  inv := hready.inv.allocateRecord_current
  laidOut sinfo hmem := by
    unfold SyncSource.withCurrent
    rw [SyncWindow.allocateRecord_recSize]
    exact hready.laidOut sinfo hmem
  fits := hready.fits
  islot := hready.islot
  irec sinfo hmem := by
    right
    obtain hirec | hallocated := hready.irec sinfo hmem
    · rw [hirec]
      exact SyncWindow.allocated_allocateRecord
    · exact hallocated.allocateRecord

theorem advanceRecord (tt : ℤ) : Ready (source.advanceRecord tt) where
  inv := SyncSource.advanceRecord_inv hready.inv
  laidOut sinfo hmem := by
    rw [SyncSource.advanceRecord_infos] at hmem
    obtain ⟨old, hold, rfl⟩ := List.mem_map.mp hmem
    rw [SyncSource.advanceRecord_recSize]
    exact (hready.laidOut old hold).of_fixed SyncSource.advanceInfo_fixed
  fits sinfo hmem := by
    rw [SyncSource.advanceRecord_infos] at hmem
    obtain ⟨old, hold, rfl⟩ := List.mem_map.mp hmem
    rw [SyncSource.advanceRecord_halfMaxUsecsPerSample]
    exact (hready.fits old hold).of_fixed SyncSource.advanceInfo_fixed
  islot sinfo hmem := by
    rw [SyncSource.advanceRecord_infos] at hmem
    obtain ⟨old, hold, rfl⟩ := List.mem_map.mp hmem
    have hpos := (hready.fits old hold).nSlots_pos
    have hislot := hready.islot old hold
    unfold SyncSource.advanceInfo
    split
    · dsimp only
      omega
    · exact hislot
  irec sinfo hmem := by
    rw [SyncSource.advanceRecord_infos] at hmem
    obtain ⟨old, hold, rfl⟩ := List.mem_map.mp hmem
    left
    rw [SyncSource.advanceInfo_irec, SyncSource.advanceRecord_current]

theorem shipped {tt : ℤ} {last : SyncSource α} (hshipped : SyncSource.Shipped tt source last)
    (hcur : source.window.Allocated source.window.current) :
    Ready last ∧ last.window.Allocated last.window.current := by
  induction hshipped with
  | refl source => exact ⟨hready, hcur⟩
  | step htrigger hrest ih =>
      exact ih (hready.advanceRecord tt) SyncSource.advanceRecord_allocated

/-- What has been changed of one sample. -/
theorem put {state : SlotState α} (hinv : state.window.Inv)
    (hcurrent : state.window.current = source.window.current)
    (hrecSize : state.window.recSize = source.window.recSize)
    (hkept : ∀ irec, source.window.Allocated irec → state.window.Allocated irec)
    (hlaid : state.sinfo.LaidOut source.window.recSize)
    (hfits : state.sinfo.Fits source.halfMaxUsecsPerSample) (hwithin : state.sinfo.Within)
    (hallocated : state.window.Allocated state.sinfo.irec) : Ready (source.put state) := by
  have hmem : ∀ sinfo ∈ (source.put state).infos, sinfo = state.sinfo ∨ sinfo ∈ source.infos := by
    intro sinfo hmem
    obtain ⟨old, hold, rfl⟩ := List.mem_map.mp hmem
    split
    · exact .inl rfl
    · exact .inr hold
  refine ⟨hinv, fun sinfo hsinfo => ?_, fun sinfo hsinfo => ?_, fun sinfo hsinfo => ?_,
    fun sinfo hsinfo => ?_⟩
  · change sinfo.LaidOut state.window.recSize
    rw [hrecSize]
    obtain rfl | hold := hmem sinfo hsinfo
    · exact hlaid
    · exact hready.laidOut sinfo hold
  · obtain rfl | hold := hmem sinfo hsinfo
    · exact hfits
    · exact hready.fits sinfo hold
  · obtain rfl | hold := hmem sinfo hsinfo
    · exact hwithin.2
    · exact hready.islot sinfo hold
  · change sinfo.irec = state.window.current ∨ state.window.Allocated sinfo.irec
    obtain rfl | hold := hmem sinfo hsinfo
    · exact .inr hallocated
    · rw [hcurrent]
      exact (hready.irec sinfo hold).imp_right (hkept sinfo.irec)

theorem place {samp : SyncSample α} {sinfo : SyncInfo} (hmem : sinfo ∈ source.infos)
    (hcur : source.window.Allocated source.window.current)
    (htt : samp.timeTag < source.triggerTime) :
    ∃ r, SyncSource.place samp sinfo source = .ok r ∧ Ready r.2 := by
  have hallocated : source.window.Allocated sinfo.irec := by
    obtain hirec | hallocated := hready.irec sinfo hmem
    · rw [hirec]
      exact hcur
    · exact hallocated
  have hfits := hready.fits sinfo hmem
  have hlaid := hready.laidOut sinfo hmem
  obtain ⟨r, hplace, hplaced⟩ | ⟨fault, -, -, hnot⟩ :=
    (SyncSource.place_outcome hready.inv hcur hallocated hlaid (fun _ : True => hfits)
      (fun _ => hready.islot sinfo hmem) htt).cases
  · refine ⟨r, hplace, ?_⟩
    cases hplaced with
    | discarded hkept =>
        exact hready.put (hkept.1.inv hready.inv hcur) hkept.1.current hkept.1.recSize
          (fun irec => hkept.1.allocated_of) (hlaid.of_fixed hkept.1.fixed)
          (hfits.of_fixed hkept.1.fixed) (hkept.2 trivial) hkept.1.allocated
    | stored hkept hstored =>
        exact hready.put (hstored.inv (hkept.1.inv hready.inv hcur))
          (hstored.current.trans hkept.1.current) (hstored.recSize.trans hkept.1.recSize)
          (fun irec hirec => hstored.allocated_iff.mpr (hkept.1.allocated_of hirec))
          (hlaid.of_fixed hkept.1.fixed) (hfits.of_fixed hkept.1.fixed) (hkept.2 trivial)
          (hstored.allocated_iff.mpr hkept.1.allocated)
  · exact absurd trivial hnot

/-- One sample. -/
theorem receive (samp : SyncSample α) :
    ∃ r, source.receive samp = .ok r ∧ Ready r.2 := by
  unfold SyncSource.receive
  split
  · exact ⟨_, rfl, hready⟩
  · have hready' := hready.withCurrent samp.timeTag
    dsimp only
    split
    · exact ⟨_, rfl, hready'⟩
    · obtain ⟨hlast, hcur⟩ := hready'.shipped (SyncSource.shipped_shipRecords 3)
        SyncSource.allocated_withCurrent
      split
      · exact ⟨_, rfl, hlast⟩
      · next sinfo hfind =>
          exact hlast.place (List.mem_of_find?_eq_some hfind) hcur
            SyncSource.shipRecords_lt_triggerTime

/-- Any number of samples. -/
theorem receiveAll (samples : List (SyncSample α)) :
    ∃ after, source.receiveAll samples = .ok after ∧ Ready after := by
  induction samples generalizing source with
  | nil => exact ⟨source, rfl, hready⟩
  | cons samp rest ih =>
      obtain ⟨⟨accepted, next⟩, hreceive, hnext⟩ := hready.receive samp
      unfold SyncSource.receiveAll
      rw [hreceive]
      exact ih hnext

end Ready

/-! ## The slot behind the last one -/

theorem computeSlotIndex_eq_slotOf {tt : ℤ} {state : SlotState α}
    (hallocated : state.window.Allocated state.sinfo.irec)
    (hstays : tt < state.window.syncTime state.sinfo.irec + 1000000 ∨
      state.sinfo.irec ≠ state.window.current) :
    computeSlotIndex tt state = slotOf tt state := by
  obtain ⟨record, hrecord⟩ := hallocated.exists_record
  have htime := SyncWindow.syncTime_of_records hrecord
  unfold computeSlotIndex
  rw [hrecord]
  dsimp only
  obtain hnear | hsecond := hstays
  · rw [if_neg (by omega)]
    rfl
  · -- there is no record behind the second one
    have hnext : nextRecord state = .ok (false, state) := by
      unfold nextRecord
      dsimp only
      rw [hrecord]
      dsimp only
      rw [if_pos hsecond]
    by_cases hlater : tt ≥ record.timeTag + 1000000
    · rw [if_pos hlater, hnext]
      rfl
    · rw [if_neg hlater]
      rfl

/-- The time tag is that of the slot behind the last one of the record, and `computeSlotIndex` does
not leave the record. -/
structure Overrun (tt : ℤ) (state : SlotState α) : Prop where
  allocated : state.window.Allocated state.sinfo.irec
  dtUsec_pos : 0 < state.sinfo.dtUsec
  nSlots_nonneg : 0 ≤ state.sinfo.nSlots
  time : tt - state.window.syncTime state.sinfo.irec = state.sinfo.nSlots * state.sinfo.dtUsec
  stays : tt < state.window.syncTime state.sinfo.irec + 1000000 ∨
    state.sinfo.irec ≠ state.window.current

namespace Overrun

variable {tt : ℤ} {state : SlotState α} (hover : Overrun tt state)

include hover

theorem exists_slotOf : ∃ next, slotOf tt state = .ok next ∧ Overrun tt next ∧
    next.sinfo.islot = next.sinfo.nSlots := by
  have hislot : max ((tt - state.window.syncTime state.sinfo.irec).tdiv state.sinfo.dtUsec) 0 =
      state.sinfo.nSlots := by
    rw [hover.time, Int.mul_tdiv_cancel _ hover.dtUsec_pos.ne', max_eq_left hover.nSlots_nonneg]
  unfold slotOf
  rw [if_neg hover.dtUsec_pos.ne']
  exact ⟨_, rfl, ⟨hover.allocated, hover.dtUsec_pos, hover.nSlots_nonneg, hover.time, hover.stays⟩,
    hislot⟩

theorem exists_computeSlotIndex : ∃ next, computeSlotIndex tt state = .ok next ∧ Overrun tt next ∧
    next.sinfo.islot = next.sinfo.nSlots := by
  rw [computeSlotIndex_eq_slotOf hover.allocated hover.stays]
  exact hover.exists_slotOf

/-- `checkTime` leaves the sample in the slot behind the last one. -/
theorem exists_checkTime (hislot : state.sinfo.islot = state.sinfo.nSlots) :
    ∃ next, checkTime tt state = .ok (true, next) ∧
      next.sinfo.islot = next.sinfo.nSlots := by
  have hover' : Overrun tt { state with sinfo := state.sinfo.restartMinDiff } :=
    ⟨hover.allocated, hover.dtUsec_pos, hover.nSlots_nonneg, hover.time, hover.stays⟩
  have hdiff : slotDiff tt { state with sinfo := state.sinfo.restartMinDiff } = 0 := by
    have htime := hover.time
    change tt - (state.window.syncTime state.sinfo.irec +
      state.sinfo.islot * state.sinfo.dtUsec) = 0
    rw [hislot]
    omega
  obtain ⟨record, hrecord⟩ := hover'.allocated.exists_record
  unfold checkTime
  dsimp only at hrecord ⊢
  rw [hrecord]
  dsimp only
  rw [hdiff, if_neg (lt_irrefl 0)]
  split
  · obtain ⟨next, hcompute, -, hnext⟩ := hover'.exists_computeSlotIndex
    rw [hcompute]
    exact ⟨next, rfl, hnext⟩
  · unfold lateTime
    dsimp only
    have hdt : 0 < state.sinfo.restartMinDiff.dtUsec := hover.dtUsec_pos
    rw [if_neg (by omega)]
    exact ⟨_, rfl, hislot⟩

end Overrun

/-- A sample in the slot behind the last one fails an assertion. -/
theorem storeSample_of_overrun {samp : SyncSample α} {state : SlotState α}
    (hislot : state.sinfo.islot = state.sinfo.nSlots) :
    storeSample samp state = .error .assertion := by
  unfold storeSample
  dsimp only
  rw [if_neg]
  rintro ⟨-, hlt, -⟩
  omega

/-- The sample has no slot yet, and its time tag is that of the slot behind the last one. -/
theorem place_of_overrun {samp : SyncSample α} {sinfo : SyncInfo} {source : SyncSource α}
    (hislot : sinfo.islot < 0) {state : SlotState α}
    (hcompute : computeSlotIndex samp.timeTag ⟨sinfo, source.window⟩ = slotOf samp.timeTag state)
    (hover : Overrun samp.timeTag state) :
    SyncSource.place samp sinfo source = .error .assertion := by
  obtain ⟨next, hslot, hnext, hislot'⟩ := hover.exists_slotOf
  obtain ⟨last, hcheck, hlast⟩ := hnext.exists_checkTime hislot'
  unfold SyncSource.place SyncSource.nextSlot
  dsimp only
  rw [if_pos hislot, hcompute, hslot]
  dsimp only
  rw [hcheck]
  dsimp only
  rw [storeSample_of_overrun hlast]

/-! ## Runs that fail -/

namespace SyncSource

variable {source : SyncSource α} {samp : SyncSample α} {sinfo : SyncInfo}

theorem receive_eq_place
    (hfind : (source.infos.find? fun sinfo => sinfo.id = samp.id) = some sinfo)
    (hge : (source.withCurrent samp.timeTag).window.syncTime source.window.current ≤ samp.timeTag)
    (hlt : samp.timeTag < (source.withCurrent samp.timeTag).triggerTime) :
    source.receive samp = place samp sinfo (source.withCurrent samp.timeTag) := by
  have hship : shipRecords 3 samp.timeTag (source.withCurrent samp.timeTag) =
      source.withCurrent samp.timeTag := shipRecords_of_lt (by omega) 2
  have hfind' : ((source.withCurrent samp.timeTag).infos.find? fun sinfo => sinfo.id = samp.id) =
      some sinfo := hfind
  unfold receive
  rw [hfind]
  dsimp only
  rw [withCurrent_current, if_neg (by omega), hship, hfind']

theorem receive_of_early
    (hfind : (source.infos.find? fun sinfo => sinfo.id = samp.id) = some sinfo)
    (hearly : samp.timeTag <
      (source.withCurrent samp.timeTag).window.syncTime source.window.current) :
    source.receive samp = .ok (false, source.withCurrent samp.timeTag) := by
  unfold receive
  rw [hfind]
  dsimp only
  rw [withCurrent_current, if_pos hearly]

end SyncSource

section

variable {vars : List TaggedVariable} {source : SyncSource α}
  (hinit : SyncSource.init vars = .ok source)

include hinit

theorem init_inv : source.window.Inv := by
  obtain ⟨-, -, -, hrecords, -, -⟩ := init_spec hinit
  refine ⟨?_, ?_, ?_⟩ <;> simp [hrecords]

/-- The `SyncInfo` of a sampled variable. -/
theorem exists_info_of_init {var : TaggedVariable} (hmem : var ∈ vars) (hpos : 0 < var.floatRate) :
    ∃ sinfo, (source.infos.find? fun sinfo => sinfo.id = var.id) = some sinfo ∧
      sinfo ∈ source.infos ∧ sinfo.id = var.id := by
  obtain ⟨⟨infos, hbuilt, hids⟩, -⟩ := init_spec hinit
  obtain ⟨built, hbuiltMem, hid⟩ := hbuilt.covers var hmem hpos
  have hex : var.id ∈ source.infos.map SyncInfo.id := by
    rw [hids, ← hid]
    exact List.mem_map_of_mem hbuiltMem
  obtain ⟨sinfo, hsinfo, hsid⟩ := List.mem_map.mp hex
  have hsome : (source.infos.find? fun sinfo => sinfo.id = var.id).isSome := by
    rw [List.find?_isSome]
    exact ⟨sinfo, hsinfo, by simpa using hsid⟩
  obtain ⟨found, hfound⟩ := Option.isSome_iff_exists.mp hsome
  exact ⟨found, hfound, List.mem_of_find?_eq_some hfound, by simpa using List.find?_some hfound⟩

/-- The first record of a run. -/
theorem syncTime_withCurrent_of_init (timetag : ℤ) :
    (source.withCurrent timetag).window.syncTime source.window.current =
      timetag - timetag.tmod 1000000 := by
  obtain ⟨-, -, -, hrecords, -, -⟩ := init_spec hinit
  have hrecord : (source.withCurrent timetag).window.records source.window.current =
      some (source.window.newRecord timetag) := by
    have hnone : source.window.records source.window.current = none := by rw [hrecords]
    unfold SyncSource.withCurrent
    rw [SyncWindow.allocateRecord_of_none hnone]
    simp
  rw [SyncWindow.syncTime_of_records hrecord]
  rfl

/-- The sample of an id, before its first slot. -/
theorem overrun_of_init {sinfo : SyncInfo} (hmem : sinfo ∈ source.infos) :
    0 < sinfo.dtUsec ∧ 0 < sinfo.nSlots ∧ sinfo.islot < 0 ∧
      sinfo.irec = source.window.current := by
  obtain ⟨-, hinitial, hcurrent, -⟩ := init_spec hinit
  have hinfo := hinitial sinfo hmem
  obtain ⟨first, rest, hvars, hrate⟩ := hinfo.exists_first
  obtain ⟨-, -, hpos⟩ := floatRate_pos_of_variablesOf hvars
  refine ⟨hinfo.dtUsec_pos, ?_, ?_, ?_⟩
  · rw [hinfo.nSlots, hrate]
    exact Int.ceil_pos.mpr hpos
  · rw [hinfo.islot]
    omega
  · rw [hinfo.irec, hcurrent]

/-- A sample behind the last slot of a second. -/
theorem not_receive_of_second {sinfo : SyncInfo}
    (hfind : (source.infos.find? fun other => other.id = sinfo.id) = some sinfo)
    (hlt : sinfo.nSlots * sinfo.dtUsec < 1000000) :
    source.receive { id := sinfo.id, timeTag := sinfo.nSlots * sinfo.dtUsec, data := [] } =
      .error .assertion := by
  obtain ⟨hdt, hslots, hislot, hirec⟩ := overrun_of_init hinit (List.mem_of_find?_eq_some hfind)
  have hnonneg : 0 ≤ sinfo.nSlots * sinfo.dtUsec := mul_nonneg hslots.le hdt.le
  have hsync : (source.withCurrent (sinfo.nSlots * sinfo.dtUsec)).window.syncTime
      source.window.current = 0 := by
    rw [syncTime_withCurrent_of_init hinit, Int.tmod_eq_of_lt hnonneg hlt, sub_self]
  have hover : Overrun (sinfo.nSlots * sinfo.dtUsec)
      ⟨sinfo, (source.withCurrent (sinfo.nSlots * sinfo.dtUsec)).window⟩ := by
    refine ⟨?_, hdt, hslots.le, ?_, .inl ?_⟩
    · dsimp only
      rw [hirec]
      exact SyncWindow.allocated_allocateRecord
    · rw [hirec, hsync, sub_zero]
    · rw [hirec, hsync, zero_add]
      exact hlt
  rw [SyncSource.receive_eq_place hfind (le_of_eq_of_le hsync hnonneg)]
  · exact place_of_overrun hislot (computeSlotIndex_eq_slotOf hover.allocated hover.stays) hover
  · unfold SyncSource.triggerTime
    rw [SyncSource.withCurrent_current, hsync]
    dsimp only
    omega

/-- A sample behind the last slot of the second record, which half an interval of a slower sample
keeps from being shipped. -/
theorem not_receiveAll_of_half {sinfo : SyncInfo}
    (hfind : (source.infos.find? fun other => other.id = sinfo.id) = some sinfo)
    (hlt : sinfo.nSlots * sinfo.dtUsec < source.halfMaxUsecsPerSample) :
    source.receiveAll
        [{ id := sinfo.id, timeTag := -1, data := [] },
          { id := sinfo.id, timeTag := 1000000 + sinfo.nSlots * sinfo.dtUsec, data := [] }] =
      .error .assertion := by
  obtain ⟨hdt, hslots, hislot, hirec⟩ := overrun_of_init hinit (List.mem_of_find?_eq_some hfind)
  have hnonneg : 0 ≤ sinfo.nSlots * sinfo.dtUsec := mul_nonneg hslots.le hdt.le
  have hsync : (source.withCurrent (-1)).window.syncTime source.window.current = 0 := by
    rw [syncTime_withCurrent_of_init hinit]
    decide
  have hcur : (source.withCurrent (-1)).window.Allocated source.window.current :=
    SyncWindow.allocated_allocateRecord
  have hinv : (source.withCurrent (-1)).window.Inv := (init_inv hinit).allocateRecord_current
  have hfirst : source.receive { id := sinfo.id, timeTag := -1, data := [] } =
      .ok (false, source.withCurrent (-1)) := by
    refine SyncSource.receive_of_early hfind ?_
    dsimp only
    rw [hsync]
    decide
  -- the record is there when the second sample comes
  have hsame : (source.withCurrent (-1)).withCurrent (1000000 + sinfo.nSlots * sinfo.dtUsec) =
      source.withCurrent (-1) := SyncSource.withCurrent_of_allocated SyncSource.allocated_withCurrent
  have hreached : Reached ⟨sinfo, (source.withCurrent (-1)).window⟩
      ⟨sinfo, (source.withCurrent (-1)).window⟩ := by
    refine ⟨rfl, .inl rfl, ?_⟩
    dsimp only
    rw [hirec]
    exact hcur
  have hover : Overrun (1000000 + sinfo.nSlots * sinfo.dtUsec)
      ⟨{ sinfo with irec := !(source.withCurrent (-1)).window.current },
        (source.withCurrent (-1)).window.extended⟩ := by
    have hsecond : (source.withCurrent (-1)).window.extended.syncTime
        (!(source.withCurrent (-1)).window.current) = 1000000 := by
      rw [hinv.syncTime_extended SyncSource.allocated_withCurrent,
        SyncSource.withCurrent_current, hsync, zero_add]
    refine ⟨SyncWindow.allocated_allocateRecord, hdt, hslots.le, ?_, .inr ?_⟩
    · dsimp only
      rw [hsecond]
      omega
    · simp [SyncWindow.extended]
  have hplace : SyncSource.place
      { id := sinfo.id, timeTag := 1000000 + sinfo.nSlots * sinfo.dtUsec, data := [] } sinfo
      (source.withCurrent (-1)) = .error .assertion := by
    refine place_of_overrun hislot ?_ hover
    obtain ⟨record, hrecord⟩ := hreached.allocated.exists_record
    have htime : record.timeTag = 0 := by
      rw [← SyncWindow.syncTime_of_records hrecord]
      dsimp only
      rw [hirec, hsync]
    obtain ⟨-, hnext⟩ | ⟨hother, -⟩ :=
      nextRecord_cases hinv SyncSource.allocated_withCurrent hreached
    · unfold computeSlotIndex
      rw [hrecord]
      dsimp only
      rw [if_pos (by omega), hnext]
      rfl
    · dsimp only at hother
      rw [hirec, SyncSource.withCurrent_current] at hother
      simp at hother
  unfold SyncSource.receiveAll
  rw [hfirst]
  dsimp only
  unfold SyncSource.receiveAll
  rw [SyncSource.receive_eq_place hfind, hsame, hplace]
  · dsimp only
    rw [hsame, SyncSource.withCurrent_current, hsync]
    omega
  · dsimp only
    rw [hsame]
    unfold SyncSource.triggerTime
    rw [SyncSource.withCurrent_current, hsync]
    have hhalf : (source.withCurrent (-1)).halfMaxUsecsPerSample =
        source.halfMaxUsecsPerSample := rfl
    omega

/-- **Exactly when no call of `receive` fails.**  Whatever the samples are, every store goes to one of
the slots of the sample in a record that is there, and the records are one second apart, if and only
if the slots of each sample cover a second and half an interval of every sample. -/
theorem receiveAll_ok_iff_slotsFit :
    (∀ samples, ∃ after, source.receiveAll samples = .ok after) ↔ SlotsFit vars := by
  constructor
  · intro hok id first rest hvars
    obtain ⟨hmem, hid, hpos⟩ := floatRate_pos_of_variablesOf hvars
    obtain ⟨⟨infos, hbuilt, -⟩, hinitial, -⟩ := init_spec hinit
    obtain ⟨sinfo, hfind, hsinfo, hsid⟩ := exists_info_of_init hinit hmem hpos
    have hinfo := hinitial sinfo hsinfo
    rw [← hsid] at hfind
    -- the sample has the rate of the first variable
    have hrate : sinfo.rate = first.floatRate := by
      obtain ⟨first', rest', hvars', hrate⟩ := hinfo.exists_first
      rw [hsid, hid, hvars] at hvars'
      rw [hrate, (List.cons.inj hvars').1]
    rw [← hrate, ← hinfo.nSlots, ← hinfo.dtUsec]
    constructor
    · by_contra hlt
      obtain ⟨after, hafter⟩ := hok
        [{ id := sinfo.id, timeTag := sinfo.nSlots * sinfo.dtUsec, data := [] }]
      unfold SyncSource.receiveAll at hafter
      rw [not_receive_of_second hinit hfind (not_le.mp hlt)] at hafter
      cases hafter
    · intro var hvar hvarPos
      by_contra hlt
      obtain ⟨after, hafter⟩ := hok
        [{ id := sinfo.id, timeTag := -1, data := [] },
          { id := sinfo.id, timeTag := 1000000 + sinfo.nSlots * sinfo.dtUsec, data := [] }]
      rw [not_receiveAll_of_half hinit hfind
        (lt_of_lt_of_le (not_le.mp hlt) (hbuilt.le_half var hvar hvarPos))] at hafter
      cases hafter
  · intro hfit samples
    obtain ⟨after, hafter, -⟩ := (ready_init hinit hfit).receiveAll samples
    exact ⟨after, hafter⟩

end

/-- Ten samples a second, with intervals of 100000 microseconds. -/
def tenHertz : TaggedVariable := { id := 1, rate := 10, length := 1, position := 0 }

theorem slotsFit_tenHertz : SlotsFit [tenHertz] := by
  intro id first rest hvars
  obtain ⟨hmem, -, -⟩ := floatRate_pos_of_variablesOf hvars
  obtain rfl := List.mem_singleton.mp hmem
  refine ⟨by decide +kernel, fun var hvar _ => ?_⟩
  obtain rfl := List.mem_singleton.mp hvar
  decide +kernel

theorem receiveAll_ok_tenHertz :
    ∃ source : SyncSource ℕ, SyncSource.init [tenHertz] = .ok source ∧
      ∀ samples, ∃ after, source.receiveAll samples = .ok after := by
  have hok : (SyncSource.init [tenHertz] : Except SyncFault (SyncSource ℕ)).isOk := by
    decide +kernel
  cases hinit : (SyncSource.init [tenHertz] : Except SyncFault (SyncSource ℕ)) with
  | error fault =>
      rw [hinit] at hok
      cases hok
  | ok source =>
      exact ⟨source, rfl, (receiveAll_ok_iff_slotsFit hinit).mpr slotsFit_tenHertz⟩

/-- Three samples a second, with intervals of 333333 microseconds. -/
def threeHertz : TaggedVariable := { id := 1, rate := 3, length := 1, position := 0 }

/-- A sample in the last microsecond of a second has the fourth of three slots. -/
theorem not_receiveAll_threeHertz :
    ∃ source : SyncSource ℕ, SyncSource.init [threeHertz] = .ok source ∧
      source.receiveAll [{ id := 1, timeTag := 999999, data := [5] }] = .error .assertion := by
  have hrun : (match (SyncSource.init [threeHertz] : Except SyncFault (SyncSource ℕ)) with
      | .error _ => none
      | .ok source =>
          match source.receiveAll [{ id := 1, timeTag := 999999, data := [5] }] with
          | .error fault => some fault
          | .ok _ => none) = some SyncFault.assertion := by
    decide +kernel
  cases hinit : (SyncSource.init [threeHertz] : Except SyncFault (SyncSource ℕ)) with
  | error fault =>
      rw [hinit] at hrun
      cases hrun
  | ok source =>
      refine ⟨source, rfl, ?_⟩
      rw [hinit] at hrun
      dsimp only at hrun
      cases hreceive : source.receiveAll [{ id := 1, timeTag := 999999, data := [5] }] with
      | error fault =>
          rw [hreceive] at hrun
          exact congrArg Except.error (Option.some.inj hrun)
      | ok after =>
          rw [hreceive] at hrun
          cases hrun

end Nidas.Dynld
