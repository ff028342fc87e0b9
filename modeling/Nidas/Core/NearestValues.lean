import Nidas.Core.NearestResampler

/-!
# The values that are nearest to a master

Every output of a `NearestResampler` should have, for each other variable, the value that is nearest
to the master among those that were received since the start or the last flush.

## Strategy

From the first value of the master on, the candidates of a variable follow the values that were
received since the start or the last flush (`Sound`).  The count of values since the last master is
not reset at the first one, and the times of earlier candidates are not reset by a flush, so this
holds only if no value of the variable is received before that of the master, and if the first one
is nearer to the master than the time that is left over (`Prepared`).
-/

namespace Nidas.Core

open Lib

namespace NearestResampler

/-! ## One event -/

section Step

variable {resampler : NearestResampler} {tt : ℤ} {val : Option ℚ}

theorem received_concat (k : ℕ) (before : List ResamplerEvent) (event : ResamplerEvent) :
    received k (before ++ [event]) = hear k (received k before) event := by
  unfold received
  rw [List.foldl_append]
  rfl

theorem lastTime_concat_value (before : List ResamplerEvent) (tt : ℤ) (index : ℕ)
    (val : Option ℚ) : lastTime (before ++ [.value tt index val]) = tt := by
  unfold lastTime
  rw [List.foldl_append]
  rfl

theorem lastTime_concat_flush (before : List ResamplerEvent) :
    lastTime (before ++ [.flush]) = lastTime before := by
  unfold lastTime
  rw [List.foldl_append]
  rfl

theorem data_getElem? {window : ℤ × ℤ} {k : ℕ} (hk : k < resampler.ndataValues) :
    (resampler.output window).data[k]? = some (resampler.outValue window k) := by
  unfold output
  dsimp only
  rw [List.getElem?_append_left (by simpa using hk), List.getElem?_map,
    List.getElem?_range hk]
  rfl

/-- The value that is sent is the nearest if the candidates are. -/
theorem nearestValue_outValue {window : ℤ × ℤ} {k : ℕ} {items : List (ℤ × Option ℚ)}
    (hk : k ≠ resampler.master)
    (hfollows : (resampler.slots k).Follows (resampler.slots resampler.master).prevTT items) :
    NearestValue items (resampler.output window).timeTag window (resampler.outValue window k) := by
  unfold outValue
  rw [if_neg hk]
  rcases hfollows.chosen with ⟨hnone, hdata⟩ | hnearest
  · refine Or.inl ⟨hnone, ?_⟩
    dsimp only
    rw [hdata, ite_self]
  · refine Or.inr ⟨_, hnearest, ?_⟩
    dsimp only
    by_cases hwindow : (resampler.slots k).chosen.1 > window.2 ∨
        (resampler.slots k).chosen.1 < window.1
    · rw [if_pos hwindow, if_neg (by omega)]
    · rw [if_neg hwindow, if_pos (by omega)]

/-- The members between two events.  Only other variables than the master are of interest. -/
structure Sound (start : NearestResampler) (before : List ResamplerEvent)
    (resampler : NearestResampler) : Prop where
  master : resampler.master = start.master
  ndataValues : resampler.ndataValues = start.ndataValues
  times : ∀ k, 0 ≤ (resampler.slots k).prevTT ∧ (resampler.slots k).prevTT ≤ lastTime before
  late : ∀ k, ∀ item ∈ received k before, item.1 ≤ lastTime before
  waiting : resampler.nmaster = 0 → ∀ k < start.ndataValues, k ≠ start.master →
    (resampler.slots k).samplesSince = 0 →
      received k before = [] ∧ (resampler.slots k).prevData = none
  follows : resampler.nmaster ≠ 0 → ∀ k < start.ndataValues, k ≠ start.master →
    (resampler.slots k).Follows (resampler.slots start.master).prevTT (received k before)

variable {start : NearestResampler} {before : List ResamplerEvent} {index : ℕ}

/-- What is received does not get ahead of the last time. -/
theorem late_concat_value (hlate : ∀ k, ∀ item ∈ received k before, item.1 ≤ lastTime before)
    (hordered : Ordered before (.value tt index val)) (k : ℕ) :
    ∀ item ∈ received k (before ++ [.value tt index val]),
      item.1 ≤ lastTime (before ++ [.value tt index val]) := by
  intro item hmem
  rw [lastTime_concat_value]
  rw [received_concat] at hmem
  by_cases hindex : index = k
  · rw [hear, if_pos hindex] at hmem
    rcases List.mem_append.mp hmem with hold | hnew
    · exact (hlate k item hold).trans hordered.2
    · rw [List.mem_singleton.mp hnew]
  · rw [hear, if_neg hindex] at hmem
    exact (hlate k item hmem).trans hordered.2

/-- The times after a value: they are the same or that of the value. -/
theorem times_concat_value {slots next : ℕ → ResamplerSlot}
    (htimes : ∀ k, 0 ≤ (slots k).prevTT ∧ (slots k).prevTT ≤ lastTime before)
    (hordered : Ordered before (.value tt index val))
    (hnext : ∀ k, (next k).prevTT = (slots k).prevTT ∨ (next k).prevTT = tt) (k : ℕ) :
    0 ≤ (next k).prevTT ∧ (next k).prevTT ≤ lastTime (before ++ [.value tt index val]) := by
  have hold := htimes k
  obtain ⟨hpos, hle⟩ := hordered
  rw [lastTime_concat_value]
  rcases hnext k with hsame | hnew
  · omega
  · omega

/-- A value of the master is none of another variable. -/
theorem received_concat_of_ne {k : ℕ} (hne : index ≠ k) :
    received k (before ++ [.value tt index val]) = received k before := by
  rw [received_concat, hear, if_neg hne]

/-- The first value of the master: there are no values of other variables yet. -/
theorem Sound.first (hsound : Sound start before resampler)
    (hordered : Ordered before (.value tt resampler.master val)) (hfirst : resampler.nmaster = 0)
    (hprepared : ∀ k < start.ndataValues, k ≠ start.master →
      (resampler.slots k).samplesSince = 0) :
    Sound start (before ++ [.value tt resampler.master val])
        (resampler.receiveMaster tt val).1 ∧
      (resampler.receiveMaster tt val).2 = [] := by
  have hnext : resampler.receiveMaster tt val =
      ({ resampler with
          nmaster := 1
          slots := Function.update resampler.slots resampler.master
            (advanceMaster (resampler.slots resampler.master) tt val) }, []) := if_pos hfirst
  rw [hnext]
  refine ⟨⟨hsound.master, hsound.ndataValues, ?_, late_concat_value hsound.late hordered,
    fun h => absurd h one_ne_zero, ?_⟩, rfl⟩
  · apply times_concat_value hsound.times hordered
    intro k
    dsimp only
    by_cases hk : k = resampler.master
    · rw [hk, Function.update_self]
      exact Or.inr rfl
    · rw [Function.update_of_ne hk]
      exact Or.inl rfl
  · intro _ k hk hother
    have hne : k ≠ resampler.master := by
      rw [hsound.master]
      exact hother
    have hsince := hprepared k hk hother
    dsimp only
    rw [Function.update_of_ne hne, received_concat_of_ne hne.symm]
    exact ⟨fun _ => Or.inl (hsound.waiting hfirst k hk hother hsince), fun h => absurd hsince h⟩

/-- A later value of the master: an output is sent, and the candidates are those for the new
value. -/
theorem Sound.next (hsound : Sound start before resampler)
    (hordered : Ordered before (.value tt resampler.master val)) (hlater : resampler.nmaster ≠ 0) :
    Sound start (before ++ [.value tt resampler.master val])
        (resampler.receiveMaster tt val).1 ∧
      (resampler.receiveMaster tt val).2 = [resampler.output (resampler.window tt)] := by
  have htime := (hsound.times resampler.master).2.trans hordered.2
  have hnext : resampler.receiveMaster tt val =
      ({ resampler with
          nmaster := 2
          slots := fun k =>
            if k = resampler.master then
              advanceMaster (resampler.slots resampler.master) tt val
            else (resampler.slots k).restart },
        [resampler.output (resampler.window tt)]) := by
    unfold receiveMaster
    dsimp only
    rw [if_neg hlater, if_neg (not_lt.mpr htime)]
  rw [hnext]
  refine ⟨⟨hsound.master, hsound.ndataValues, ?_, late_concat_value hsound.late hordered,
    fun h => absurd h two_ne_zero, ?_⟩, rfl⟩
  · apply times_concat_value hsound.times hordered
    intro k
    dsimp only
    split
    · exact Or.inr rfl
    · exact Or.inl rfl
  · intro _ k hk hother
    have hne : k ≠ resampler.master := by
      rw [hsound.master]
      exact hother
    dsimp only
    rw [if_neg hne, if_pos hsound.master.symm, received_concat_of_ne hne.symm]
    apply (hsound.follows hlater k hk hother).restart
    intro item hmem
    exact (hsound.late k item hmem).trans hordered.2

/-- A value of another variable. -/
theorem Sound.other (hsound : Sound start before resampler)
    (hordered : Ordered before (.value tt index val)) (hother : index ≠ start.master)
    (hprepared : resampler.nmaster ≠ 0 → received index before = [] →
      (resampler.slots start.master).prevTT > (tt + (resampler.slots index).prevTT).tdiv 2) :
    Sound start (before ++ [.value tt index val]) (resampler.receiveOther tt index val) := by
  have hmaster := hsound.master
  have hprev := (hsound.times index).2.trans hordered.2
  have htime := (hsound.times start.master).2.trans hordered.2
  have hnext : resampler.receiveOther tt index val =
      { resampler with
        slots := Function.update resampler.slots index
          ((resampler.slots index).take (resampler.slots start.master).prevTT tt val) } := by
    unfold receiveOther
    dsimp only
    rw [hmaster, if_neg (not_lt.mpr hprev), if_neg (not_lt.mpr htime)]
  have hsame : ∀ k ≠ index, received k (before ++ [.value tt index val]) = received k before :=
    fun k hk => received_concat_of_ne hk.symm
  rw [hnext]
  refine ⟨hmaster, hsound.ndataValues, ?_, late_concat_value hsound.late hordered, ?_, ?_⟩
  · apply times_concat_value hsound.times hordered
    intro k
    dsimp only
    by_cases hk : k = index
    · rw [hk, Function.update_self]
      exact Or.inr rfl
    · rw [Function.update_of_ne hk]
      exact Or.inl rfl
  · intro hwaiting k hk hne
    dsimp only
    by_cases hindex : k = index
    · -- the value is counted
      rw [hindex, Function.update_self]
      intro hzero
      exfalso
      unfold ResamplerSlot.take at hzero
      dsimp only at hzero
      split at hzero
      · split at hzero
        · exact absurd hzero (Nat.succ_ne_zero _)
        · exact absurd hzero (Nat.succ_ne_zero _)
      · next hnot => exact hnot hzero
    · rw [Function.update_of_ne hindex, hsame k hindex]
      exact hsound.waiting hwaiting k hk hne
  · intro hfollowing k hk hne
    dsimp only
    rw [Function.update_of_ne hother.symm]
    by_cases hindex : k = index
    · subst hindex
      rw [Function.update_self, received_concat, hear, if_pos rfl]
      apply (hsound.follows hfollowing k hk hne).take htime
      · intro item hmem
        exact (hsound.late k item hmem).trans hordered.2
      · have := (hsound.times k).1
        have := hordered.1
        omega
      · exact hprepared hfollowing
    · rw [Function.update_of_ne hindex, hsame k hindex]
      exact hsound.follows hfollowing k hk hne

/-- A flush. -/
theorem Sound.flush (hsound : Sound start before resampler)
    (hprepared : resampler.nmaster = 1 →
      ∀ k < start.ndataValues, k ≠ start.master → received k before = []) :
    Sound start (before ++ [.flush]) resampler.flush.1 ∧
      (resampler.flush.2 = [] ∨
        resampler.nmaster ≠ 0 ∧ resampler.flush.2 = [resampler.output resampler.flushWindow]) := by
  have hnone : ∀ k, received k (before ++ [.flush]) = [] := by
    intro k
    rw [received_concat]
    rfl
  have hlate : ∀ k, ∀ item ∈ received k (before ++ [.flush]),
      item.1 ≤ lastTime (before ++ [.flush]) := by
    intro k item hmem
    rw [hnone] at hmem
    cases hmem
  by_cases hfew : resampler.nmaster < 2
  · have hnext : resampler.flush = (resampler, []) := if_pos hfew
    rw [hnext]
    refine ⟨⟨hsound.master, hsound.ndataValues, ?_, hlate, ?_, ?_⟩, Or.inl rfl⟩
    · rw [lastTime_concat_flush]
      exact hsound.times
    · intro hwaiting k hk hne hsince
      exact ⟨hnone k, (hsound.waiting hwaiting k hk hne hsince).2⟩
    · intro hfollowing k hk hne
      have hone : resampler.nmaster = 1 := by
        have : resampler.nmaster ≠ 0 := hfollowing
        omega
      have hfollows := hsound.follows hfollowing k hk hne
      rw [hprepared hone k hk hne] at hfollows
      rw [hnone]
      exact hfollows
  · have hnext : resampler.flush =
        ({ resampler with
            nmaster := 0
            slots := fun k =>
              if k = resampler.master then { resampler.slots k with prevData := none }
              else { resampler.slots k with samplesSince := 0, prevData := none } },
          [resampler.output resampler.flushWindow]) := if_neg hfew
    rw [hnext]
    refine ⟨⟨hsound.master, hsound.ndataValues, ?_, hlate, ?_, fun h => absurd rfl h⟩,
      Or.inr ⟨by omega, rfl⟩⟩
    · intro k
      rw [lastTime_concat_flush]
      dsimp only
      split
      · exact hsound.times k
      · exact hsound.times k
    · intro _ k _ hne _
      have hother : k ≠ resampler.master := by
        rw [hsound.master]
        exact hne
      dsimp only
      rw [if_neg hother]
      exact ⟨hnone k, rfl⟩

end Step

/-! ## Runs -/

/-- A resampler before the first sample. -/
structure Fresh (start : NearestResampler) : Prop where
  nmaster : start.nmaster = 0
  slots : start.slots = fun _ => {}

section Run

variable {start : NearestResampler} {before events : List ResamplerEvent}

/-- The outputs of a state that is sound. -/
theorem Sound.sendsNearest {resampler : NearestResampler} (hsound : Sound start before resampler)
    (hfollowing : resampler.nmaster ≠ 0) (window : ℤ × ℤ) {k : ℕ} (hk : k < start.ndataValues)
    (hne : k ≠ start.master) :
    ∃ val, (resampler.output window).data[k]? = some val ∧
      NearestValue (received k before) (resampler.output window).timeTag window val := by
  have hvalues : k < resampler.ndataValues := by
    rw [hsound.ndataValues]
    exact hk
  have hother : k ≠ resampler.master := by
    rw [hsound.master]
    exact hne
  refine ⟨_, data_getElem? hvalues, nearestValue_outValue hother ?_⟩
  rw [hsound.master]
  exact hsound.follows hfollowing k hk hne

/-- **One event.** -/
theorem Sound.step {event : ResamplerEvent}
    (hsound : Sound start before (afterCalls step start before))
    (hordered : Ordered before event) (hprepared : Prepared start before event) :
    Sound start (before ++ [event]) (afterCalls NearestResampler.step start (before ++ [event])) ∧
      SendsNearest start before event := by
  unfold SendsNearest
  rw [afterCalls_concat]
  cases event with
  | flush =>
      obtain ⟨hnext, houts⟩ := hsound.flush hprepared
      refine ⟨hnext, ?_⟩
      intro out hout k hk hne
      change out ∈ (afterCalls NearestResampler.step start before).flush.2 at hout
      rcases houts with hnone | ⟨hfollowing, hone⟩
      · rw [hnone] at hout
        cases hout
      · rw [hone, List.mem_singleton] at hout
        rw [hout]
        exact hsound.sendsNearest hfollowing _ hk hne
  | value tt index val =>
      by_cases hindex : index = start.master
      · have hmaster : index = (afterCalls NearestResampler.step start before).master := by
          rw [hsound.master]
          exact hindex
        have hstep : (afterCalls NearestResampler.step start before).step (.value tt index val) =
            (afterCalls NearestResampler.step start before).receiveMaster tt val := if_pos hmaster
        rw [hstep]
        rw [Prepared, if_pos hindex] at hprepared
        rw [hmaster] at hordered ⊢
        by_cases hfirst : (afterCalls NearestResampler.step start before).nmaster = 0
        · obtain ⟨hnext, hnone⟩ := hsound.first hordered hfirst (hprepared hfirst)
          refine ⟨hnext, ?_⟩
          rw [hnone]
          intro out hout
          cases hout
        · obtain ⟨hnext, hone⟩ := hsound.next hordered hfirst
          refine ⟨hnext, ?_⟩
          rw [hone]
          intro out hout k hk hne
          rw [List.mem_singleton] at hout
          rw [hout]
          exact hsound.sendsNearest hfirst _ hk hne
      · have hother : index ≠ (afterCalls NearestResampler.step start before).master := by
          rw [hsound.master]
          exact hindex
        have hstep : (afterCalls NearestResampler.step start before).step (.value tt index val) =
            ((afterCalls NearestResampler.step start before).receiveOther tt index val, []) :=
          if_neg hother
        rw [hstep]
        rw [Prepared, if_neg hindex] at hprepared
        refine ⟨hsound.other hordered hindex hprepared, ?_⟩
        intro out hout
        cases hout

theorem Fresh.sound (hfresh : start.Fresh) : Sound start [] start := by
  refine ⟨rfl, rfl, ?_, ?_, ?_, fun h => absurd hfresh.nmaster h⟩
  · intro k
    rw [hfresh.slots]
    exact ⟨le_refl _, le_refl _⟩
  · intro k item hmem
    cases hmem
  · intro _ k _ _ _
    rw [hfresh.slots]
    exact ⟨rfl, rfl⟩

/-- The outputs of a run in which every event is prepared. -/
theorem atEvery_sendsNearest (hfresh : start.Fresh) (hordered : AtEvery Ordered events)
    (hprepared : AtEvery (Prepared start) events) : AtEvery (SendsNearest start) events := by
  have hsound : ∀ before, before <+: events →
      Sound start before (afterCalls step start before) := by
    intro before hbefore
    have hboth : AtEvery (fun before event => Ordered before event ∧ Prepared start before event)
        events := fun before event h => ⟨hordered before event h, hprepared before event h⟩
    refine hboth.invariant (fun before => Sound start before (afterCalls step start before))
      hfresh.sound ?_ hbefore
    intro before event hsound hallowed
    exact (hsound.step hallowed.1 hallowed.2).1
  intro before event hbefore
  have hearlier : before <+: events := (List.prefix_append before [event]).trans hbefore
  exact ((hsound before hearlier).step (hordered before event hbefore)
    (hprepared before event hbefore)).2

end Run

/-! ## Calls -/

/-- The samples come in the order of their times. -/
def InOrder (calls : List ResamplerCall) : Prop :=
  calls.Pairwise fun first second => ∀ samp other, first = .receive samp →
    second = .receive other → samp.timeTag ≤ other.timeTag

section Calls

variable {start : NearestResampler} {calls : List ResamplerCall}

theorem step_inputs (resampler : NearestResampler) (event : ResamplerEvent) :
    (resampler.step event).1.inputs = resampler.inputs := by
  cases event with
  | flush =>
      unfold step flush
      dsimp only
      split
      · rfl
      · rfl
  | value tt index val =>
      unfold step
      dsimp only
      split
      · unfold receiveMaster
        dsimp only
        split
        · rfl
        · split
          · rfl
          · rfl
      · rfl

theorem afterCalls_inputs (resampler : NearestResampler) (events : List ResamplerEvent) :
    (afterCalls step resampler events).inputs = resampler.inputs := by
  induction events generalizing resampler with
  | nil => rfl
  | cons event events ih => rw [afterCalls, ih, step_inputs]

theorem events_congr {resampler other : NearestResampler}
    (hinputs : other.inputs = resampler.inputs) : other.events = resampler.events := by
  funext calling
  unfold events
  rw [hinputs]

/-- The outputs of the calls are those of their events. -/
theorem flatten_answers_call (start : NearestResampler) (calls : List ResamplerCall) :
    (answers call start calls).flatten =
      (answers step start (calls.flatMap start.events)).flatten := by
  induction calls generalizing start with
  | nil => rfl
  | cons calling calls ih =>
      have hevents : (start.call calling).1.events = start.events :=
        events_congr (afterCalls_inputs start _)
      rw [answers, List.flatten_cons, ih, List.flatMap_cons, answers_append, List.flatten_append,
        hevents]
      rfl

/-- An event that is a value belongs to a sample with its time. -/
theorem exists_receive_of_mem_events {calling : ResamplerCall} {tt : ℤ} {index : ℕ}
    {val : Option ℚ} (hmem : .value tt index val ∈ start.events calling) :
    ∃ samp, calling = .receive samp ∧ samp.timeTag = tt := by
  cases calling with
  | flush => simp [events] at hmem
  | receive samp =>
      refine ⟨samp, rfl, ?_⟩
      simp only [events] at hmem
      split at hmem
      · cases hmem
      · split at hmem
        · cases hmem
        · obtain ⟨value, -, heq⟩ := List.mem_map.mp hmem
          cases heq
          rfl

theorem lastTime_le {before : List ResamplerEvent} {bound : ℤ} (hbound : 0 ≤ bound)
    (hall : ∀ tt index val, .value tt index val ∈ before → tt ≤ bound) :
    lastTime before ≤ bound := by
  induction before using List.reverseRecOn with
  | nil => exact hbound
  | append_singleton before event ih =>
      cases event with
      | flush =>
          rw [lastTime_concat_flush]
          apply ih
          intro tt index val hmem
          exact hall tt index val (List.mem_append_left _ hmem)
      | value tt index val =>
          rw [lastTime_concat_value]
          exact hall tt index val (List.mem_append_right _ List.mem_cons_self)

/-- The events are in order if the samples are. -/
theorem atEvery_ordered (hpos : ∀ samp, .receive samp ∈ calls → 0 < samp.timeTag)
    (hordered : InOrder calls) : AtEvery Ordered (calls.flatMap start.events) := by
  have hpairs : (calls.flatMap start.events).Pairwise fun first second =>
      ∀ tt index val later index' val', first = .value tt index val →
        second = .value later index' val' → tt ≤ later := by
    rw [List.pairwise_flatMap]
    refine ⟨?_, hordered.imp ?_⟩
    · -- the values of a sample have the same time
      intro calling _
      rw [List.pairwise_iff_forall_sublist]
      rintro first second hsub tt index val later index' val' rfl rfl
      obtain ⟨samp, hsamp, rfl⟩ := exists_receive_of_mem_events
        (hsub.subset (List.mem_cons_self))
      obtain ⟨other, hother, rfl⟩ := exists_receive_of_mem_events
        (hsub.subset (List.mem_cons_of_mem _ List.mem_cons_self))
      rw [hsamp] at hother
      cases hother
      exact le_refl _
    · rintro first second hle event hevent event' hevent' tt index val later index' val' rfl rfl
      obtain ⟨samp, hsamp, rfl⟩ := exists_receive_of_mem_events hevent
      obtain ⟨other, hother, rfl⟩ := exists_receive_of_mem_events hevent'
      exact hle samp other hsamp hother
  intro before event hbefore
  cases event with
  | flush => trivial
  | value tt index val =>
      have hmem : .value tt index val ∈ calls.flatMap start.events :=
        hbefore.subset (List.mem_append_right _ List.mem_cons_self)
      obtain ⟨calling, hcalling, hevent⟩ := List.mem_flatMap.mp hmem
      obtain ⟨samp, rfl, rfl⟩ := exists_receive_of_mem_events hevent
      have hpositive := hpos samp hcalling
      refine ⟨hpositive, lastTime_le hpositive.le ?_⟩
      intro earlier index' val' hearlier
      have hpart := hpairs.sublist hbefore.sublist
      rw [List.pairwise_append] at hpart
      exact hpart.2.2 _ hearlier _ List.mem_cons_self _ _ _ _ _ _ rfl rfl

end Calls

/-- **The outputs have the values that are nearest to the master, in every run in which each event
is prepared.** -/
theorem outputs_nearest (start : NearestResampler) (calls : List ResamplerCall)
    (hfresh : start.Fresh) (hpos : ∀ samp, .receive samp ∈ calls → 0 < samp.timeTag)
    (hordered : InOrder calls)
    (hprepared : AtEvery (Prepared start) (calls.flatMap start.events)) :
    (answers call start calls).flatten =
        (answers step start (calls.flatMap start.events)).flatten ∧
      AtEvery (SendsNearest start) (calls.flatMap start.events) :=
  ⟨flatten_answers_call start calls,
    atEvery_sendsNearest hfresh (atEvery_ordered hpos hordered) hprepared⟩

/-- A master in samples with id 1, and another variable in samples with id 2. -/
def masterAndOther : NearestResampler where
  ndataValues := 2
  inputs id :=
    if id = 1 then some [⟨0, 0, 1⟩] else if id = 2 then some [⟨0, 1, 1⟩] else none

theorem fresh_masterAndOther : masterAndOther.Fresh := ⟨rfl, rfl⟩

/-- The other variable starts after the master. -/
def masterFirst : List ResamplerCall :=
  [.receive ⟨1000000, 1, .float, [some 5]⟩, .receive ⟨1100000, 2, .float, [some 1]⟩,
    .receive ⟨2000000, 1, .float, [some 6]⟩, .flush]

/-- The other variable starts before the master. -/
def otherFirst : List ResamplerCall :=
  [.receive ⟨900000, 2, .float, [some 1]⟩, .receive ⟨1000000, 1, .float, [some 5]⟩,
    .receive ⟨1100000, 2, .float, [some 2]⟩, .receive ⟨2000000, 1, .float, [some 6]⟩]

theorem outputs_nearest_masterFirst :
    (answers call masterAndOther masterFirst).flatten =
        [⟨1000000, [some 5, some 1, some 2]⟩, ⟨2000000, [some 6, some 1, some 2]⟩] ∧
      AtEvery (SendsNearest masterAndOther) (masterFirst.flatMap masterAndOther.events) := by
  constructor
  · decide +kernel
  · refine (outputs_nearest masterAndOther masterFirst fresh_masterAndOther ?_ ?_
      (by decide +kernel)).2
    · simp [masterFirst]
    · simp [InOrder, masterFirst]

/-- Values of the other variable on both sides of the first master, and NaN in the output. -/
theorem outputs_otherFirst_not_nearest :
    (answers call masterAndOther otherFirst).flatten = [⟨1000000, [some 5, none, some 1]⟩] ∧
      ¬ AtEvery (SendsNearest masterAndOther) (otherFirst.flatMap masterAndOther.events) := by
  constructor
  · decide +kernel
  · intro hall
    have hlast := hall
      [.value 900000 1 (some 1), .value 1000000 0 (some 5), .value 1100000 1 (some 2)]
      (.value 2000000 0 (some 6)) ⟨[], rfl⟩
    have hout : ((afterCalls step masterAndOther
        [.value 900000 1 (some 1), .value 1000000 0 (some 5), .value 1100000 1 (some 2)]).step
          (.value 2000000 0 (some 6))).2 = [⟨1000000, [some 5, none, some 1]⟩] := by
      decide +kernel
    have hitems : received 1
        [.value 900000 1 (some 1), .value 1000000 0 (some 5), .value 1100000 1 (some 2)] =
          [(900000, some 1), (1100000, some 2)] := by
      decide +kernel
    have hwindow : (afterCalls step masterAndOther
        [.value 900000 1 (some 1), .value 1000000 0 (some 5), .value 1100000 1 (some 2)]).windowAt
          (.value 2000000 0 (some 6)) = (100000, 1900000) := by
      decide +kernel
    obtain ⟨val, hval, hnearest⟩ := hlast _ (by rw [hout]; exact List.mem_cons_self) 1
      (by decide) (by decide)
    have hnone : val = none := by simpa using hval.symm
    rw [hitems, hwindow, hnone] at hnearest
    rcases hnearest with ⟨hnil, -⟩ | ⟨item, hitem, heq⟩
    · cases hnil
    · have hmem : item = (900000, some 1) ∨ item = (1100000, some 2) := by simpa using hitem.1
      rcases hmem with rfl | rfl
      · simp at heq
      · simp at heq

end NearestResampler

end Nidas.Core
