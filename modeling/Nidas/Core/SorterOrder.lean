import Nidas.Core.SorterAccounting

/-!
# The sorter sorts

A sample is received when it comes into the set.  Let at most `lateSampleCacheSize` of the received
samples have anomalous time tags, and let every other one come no more than the sorter length behind the
latest other one before it.  Of the `lateSampleCacheSize + 1` latest samples in the set one is not
anomalous, so what the loop takes out is more than the sorter length behind
a sample that has been received.  All that is still to come is later (`Ahead`), whatever the loop does
with the aged samples in the meantime.
-/

namespace Nidas.Core.SampleSorter

open Lib

variable {config : SorterConfig} {sorter next : SampleSorter} {action : SorterAction}

/-! ## The lists of a step -/

/-- The samples that have been taken out of the set, in the order of their distribution. -/
def taken (sorter : SampleSorter) : List SamplePtr := sorter.distributed ++ sorter.point.aged

/-- What a step does with the samples that have been received, with those in the set and with those
taken out of it, when there is no flush. -/
inductive ListMove (config : SorterConfig) (sorter next : SampleSorter) : Prop where
  | same (hreceived : next.received = sorter.received) (htaken : next.taken = sorter.taken)
      (hsamples : next.samples = sorter.samples)
  | insert (s : SamplePtr) (hreceived : next.received = sorter.received ++ [s])
      (htaken : next.taken = sorter.taken)
      (hsamples : next.samples = insertUpper SamplePtr.getTimeTag s sorter.samples)
  | aged (late : SamplePtr)
      (hlate : fromEnd config.lateSampleCacheSize sorter.samples = some late)
      (hreceived : next.received = sorter.received)
      (htaken : next.taken = sorter.taken ++
        below SamplePtr.getTimeTag (late.timeTag - config.sorterLengthUsec) sorter.samples)
      (hsamples : next.samples =
        notBelow SamplePtr.getTimeTag (late.timeTag - config.sorterLengthUsec) sorter.samples)
  | clear (hreceived : next.received = sorter.received) (htaken : next.taken = sorter.taken)
      (hsamples : next.samples = [])

theorem Move.listMove (hmove : Move config sorter action next) (hflush : sorter.doFlush = false) :
    ListMove config sorter next := by
  cases hmove with
  | @insert _ _ _ _ s => exact .insert s rfl (by simp [taken]) rfl
  | loopEnd hpoint => exact .clear rfl (by simp [taken, hpoint]) rfl
  | loopEmpty hpoint =>
      exact .same rfl (by simp [taken, hpoint, (afterEmpty_aged sorter.doFlush).1]) rfl
  | loopFlush _ hdoFlush =>
      rw [hflush] at hdoFlush
      cases hdoFlush
  | @loopAged _ late hpoint _ hlate => exact .aged late hlate rfl (by simp [taken, hpoint]) rfl
  | destroy => exact .clear rfl rfl rfl
  | _ => exact .same rfl (by simp_all [taken]) rfl

/-! ## Time tags -/

variable {anomalous : SamplePtr → Bool}

/-- The samples that are not anomalous. -/
def regular (anomalous : SamplePtr → Bool) (list : List SamplePtr) : List SamplePtr :=
  list.filter fun s => !anomalous s

@[simp] theorem regular_append (front back : List SamplePtr) :
    regular anomalous (front ++ back) = regular anomalous front ++ regular anomalous back :=
  List.filter_append ..

@[simp] theorem mem_regular {s : SamplePtr} {list : List SamplePtr} :
    s ∈ regular anomalous list ↔ s ∈ list ∧ anomalous s = false := by
  simp [regular]

/-- At most `lateSampleCacheSize` samples are anomalous, and every other one has a time tag of at least
the latest other one before it, less the sorter length. -/
structure Timely (config : SorterConfig) (anomalous : SamplePtr → Bool)
    (received : List SamplePtr) : Prop where
  few : received.countP anomalous ≤ config.lateSampleCacheSize
  timely : (regular anomalous received).Pairwise fun (earlier s : SamplePtr) =>
    earlier.timeTag - (config.sorterLengthUsec : ℤ) ≤ s.timeTag

theorem Timely.of_append {front back : List SamplePtr}
    (h : Timely config anomalous (front ++ back)) : Timely config anomalous front := by
  refine ⟨?_, ?_⟩
  · have hfew := h.few
    rw [List.countP_append] at hfew
    omega
  · have htimely := h.timely
    rw [regular_append] at htimely
    exact (List.pairwise_append.mp htimely).1

/-- A sample has been received that is more than the sorter length later. -/
def Behind (config : SorterConfig) (anomalous : SamplePtr → Bool) (received : List SamplePtr)
    (s : SamplePtr) : Prop :=
  ∃ latest ∈ regular anomalous received, s.timeTag < latest.timeTag - config.sorterLengthUsec

/-- What has been taken out is in order, is not later than what is in the set, and is behind. -/
structure Ahead (config : SorterConfig) (anomalous : SamplePtr → Bool)
    (received taken samples : List SamplePtr) : Prop where
  inOrder : InOrder SamplePtr.getTimeTag (regular anomalous taken)
  le_samples : ∀ first ∈ regular anomalous taken, ∀ second ∈ regular anomalous samples,
    first.timeTag ≤ second.timeTag
  behind : ∀ s ∈ regular anomalous taken, Behind config anomalous received s

variable {received before samples : List SamplePtr}

/-- A new sample that is not anomalous is later than all that has been taken out. -/
theorem Ahead.insert (h : Ahead config anomalous received before samples) {s : SamplePtr}
    (htimely : Timely config anomalous (received ++ [s])) :
    Ahead config anomalous (received ++ [s]) before
      (insertUpper SamplePtr.getTimeTag s samples) where
  inOrder := h.inOrder
  le_samples := by
    intro first hfirst second hsecond
    rw [mem_regular, (insertUpper_perm s samples).mem_iff, List.mem_cons] at hsecond
    obtain ⟨rfl | hold, hregular⟩ := hsecond
    · obtain ⟨latest, hlatest, hbehind⟩ := h.behind first hfirst
      have hpair := htimely.timely
      rw [regular_append, List.pairwise_append] at hpair
      have hle := hpair.2.2 latest hlatest second
        (mem_regular.mpr ⟨List.mem_singleton_self second, hregular⟩)
      omega
    · exact h.le_samples first hfirst second (mem_regular.mpr ⟨hold, hregular⟩)
  behind := by
    intro old hold
    obtain ⟨latest, hlatest, hbehind⟩ := h.behind old hold
    exact ⟨latest, by simp_all, hbehind⟩

/-- Aged samples are taken out. -/
theorem Ahead.aged (h : Ahead config anomalous received before samples)
    (hsorted : InOrder SamplePtr.getTimeTag samples) (hreceived : ∀ s ∈ samples, s ∈ received)
    (hfew : samples.countP anomalous ≤ config.lateSampleCacheSize) {late : SamplePtr}
    (hlate : fromEnd config.lateSampleCacheSize samples = some late) :
    let tt := late.timeTag - config.sorterLengthUsec
    Ahead config anomalous received (before ++ below SamplePtr.getTimeTag tt samples)
      (notBelow SamplePtr.getTimeTag tt samples) := by
  intro tt
  have hbelow : ∀ s ∈ regular anomalous (below SamplePtr.getTimeTag tt samples),
      s.getTimeTag < tt :=
    fun s hs => key_lt_of_mem_below (mem_regular.mp hs).1
  have hsubset : ∀ s ∈ regular anomalous (below SamplePtr.getTimeTag tt samples),
      s ∈ regular anomalous samples := by
    intro s hs
    rw [mem_regular] at hs ⊢
    exact ⟨(List.takeWhile_sublist _).subset hs.1, hs.2⟩
  refine ⟨?_, ?_, ?_⟩
  · rw [regular_append]
    apply List.pairwise_append.mpr
    refine ⟨h.inOrder, (hsorted.below tt).sublist List.filter_sublist, ?_⟩
    intro first hfirst second hsecond
    exact h.le_samples first hfirst second (hsubset second hsecond)
  · intro first hfirst second hsecond
    rw [mem_regular] at hsecond
    rw [regular_append, List.mem_append] at hfirst
    rcases hfirst with hold | hnew
    · apply h.le_samples first hold
      exact mem_regular.mpr ⟨(List.dropWhile_sublist _).subset hsecond.1, hsecond.2⟩
    · exact (hbelow first hnew).le.trans (hsorted.le_key_of_mem_notBelow hsecond.1)
  · intro s hs
    rw [regular_append, List.mem_append] at hs
    rcases hs with hold | hnew
    · exact h.behind s hold
    · -- one of the latest samples in the set is not anomalous
      obtain ⟨latest, hmem, hregular, hle⟩ := hsorted.exists_not_of_countP_le hfew hlate
      refine ⟨latest, mem_regular.mpr ⟨hreceived latest hmem, hregular⟩, ?_⟩
      have hlt := hbelow s hnew
      simp only [SamplePtr.getTimeTag, tt] at hle hlt
      omega

theorem Ahead.clear (h : Ahead config anomalous received before samples) :
    Ahead config anomalous received before [] :=
  ⟨h.inOrder, fun _ _ _ hnil => by simp at hnil, h.behind⟩

/-! ## Runs -/

/-- The set is in order, and as long as the samples come in time, so is what has been taken out. -/
structure Sorted (config : SorterConfig) (anomalous : SamplePtr → Bool) (sorter : SampleSorter) :
    Prop where
  accounted : Accounted sorter
  unflushed : Unflushed sorter
  inOrder : InOrder SamplePtr.getTimeTag sorter.samples
  ahead : Timely config anomalous sorter.received →
    Ahead config anomalous sorter.received sorter.taken sorter.samples

theorem Sorted.move (h : Sorted config anomalous sorter) (hmove : Move config sorter action next)
    (hallowed : noFlush sorter action = true) : Sorted config anomalous next := by
  refine ⟨h.accounted.move hmove, h.unflushed.move hmove hallowed, ?_, ?_⟩
  · cases hmove.listMove h.unflushed.doFlush with
    | same _ _ hsamples => exact hsamples ▸ h.inOrder
    | insert s _ _ hsamples => exact hsamples ▸ h.inOrder.insertUpper s
    | aged late _ _ _ hsamples => exact hsamples ▸ h.inOrder.notBelow _
    | clear _ _ hsamples => exact hsamples ▸ List.Pairwise.nil
  · intro htimely
    cases hmove.listMove h.unflushed.doFlush with
    | same hreceived htaken hsamples =>
        rw [hreceived] at htimely ⊢
        rw [htaken, hsamples]
        exact h.ahead htimely
    | insert s hreceived htaken hsamples =>
        rw [hreceived] at htimely ⊢
        rw [htaken, hsamples]
        exact (h.ahead htimely.of_append).insert htimely
    | aged late hlate hreceived htaken hsamples =>
        rw [hreceived] at htimely ⊢
        rw [htaken, hsamples]
        have hmem : ∀ s ∈ sorter.samples, s ∈ sorter.received := by
          intro s hs
          rw [h.accounted.samples_perm.mem_iff]
          simp [hs]
        have hcount := h.accounted.samples_perm.countP_eq anomalous
        simp only [List.countP_append] at hcount
        have hfew := htimely.few
        exact (h.ahead htimely).aged h.inOrder hmem (by omega) hlate
    | clear hreceived htaken hsamples =>
        rw [hreceived] at htimely ⊢
        rw [htaken, hsamples]
        exact (h.ahead htimely).clear

theorem sorted_started (heapMax : ℕ) : Sorted config anomalous (started heapMax) where
  accounted := accounted_started heapMax
  unflushed := ⟨rfl, rfl⟩
  inOrder := List.Pairwise.nil
  ahead := fun _ =>
    ⟨List.Pairwise.nil, fun _ hs => absurd hs List.not_mem_nil,
      fun _ hs => absurd hs List.not_mem_nil⟩

/-- **The sorter sorts**: when at most `lateSampleCacheSize` of the received samples are anomalous, and
every other one has a time tag of at least that of each other one before it less the sorter
length, then those that are not anomalous are distributed in the order of their time tags. -/
theorem distributed_inOrder {heapMax : ℕ}
    (h : Reaches (restrict noFlush (step config)) (started heapMax) sorter)
    (hfew : sorter.received.countP anomalous ≤ config.lateSampleCacheSize)
    (htimely : (sorter.received.filter fun s => !anomalous s).Pairwise fun (earlier s : SamplePtr) =>
      earlier.timeTag - (config.sorterLengthUsec : ℤ) ≤ s.timeTag) :
    (sorter.distributed.filter fun s => !anomalous s).Pairwise fun first second =>
      first.timeTag ≤ second.timeTag := by
  have hsorted : Sorted config anomalous sorter := by
    apply h.invariant (sorted_started heapMax)
    intro before action after hbefore hstep
    obtain ⟨hallowed, hstep⟩ := restrict_eq_some.mp hstep
    exact hbefore.move (step_move hstep) hallowed
  have htaken := (hsorted.ahead ⟨hfew, htimely⟩).inOrder
  rw [taken, regular_append] at htaken
  exact (List.pairwise_append.mp htaken).1

/-- Four samples that are not in order come in, and one of the year 2001 among them. -/
def lateRun : List SorterAction :=
  ([0, 100000, 1000000000000000, 50000, 400000].flatMap fun timeTag =>
    [.receive (oneByte timeTag 0) 0, .call 0 0, .call 0 0]) ++ [.run 0, .run 0, .run 0, .run 0]

theorem distributed_inOrder_lateRun :
    ∃ sorter, runSteps (restrict noFlush (step { lateSampleCacheSize := 1 })) (started 1000) lateRun =
        some sorter ∧
      sorter.distributed = [oneByte 0 0, oneByte 50000 0, oneByte 100000 0] ∧
      (sorter.distributed.filter fun s => !decide (s.timeTag > 1000000)).Pairwise
        fun first second => first.timeTag ≤ second.timeTag := by
  have hrun : runSteps (restrict noFlush (step { lateSampleCacheSize := 1 })) (started 1000) lateRun =
      some { (started 1000) with
        samples := [oneByte 400000 0, oneByte 1000000000000000 0], heapSize := 85, flushed := false,
        point := .distributing [] 51,
        received := [oneByte 0 0, oneByte 100000 0, oneByte 1000000000000000 0, oneByte 50000 0,
          oneByte 400000 0],
        distributed := [oneByte 0 0, oneByte 50000 0, oneByte 100000 0] } := by
    decide +kernel
  refine ⟨_, hrun, rfl, ?_⟩
  exact distributed_inOrder ⟨lateRun, hrun⟩ (by decide) (by decide)

end Nidas.Core.SampleSorter
