import Nidas.Apps.MergeFilling

/-!
# The windows of a merge

With a positive read-ahead interval, the state between two windows is described by the time `P` up
to which samples have been written (`Between`).  All inputs have been read one interval behind `P`,
so that no sample in front of `P` is still to come: the times of an input do not go back by more
than the interval.  So each window appends to what has been written (`Between.window`), and the
duplicates of a sample meet in the sorter.  The windows come to an end since an input that is not at
its end has a sample one interval behind `P` (`exists_runs`).
-/

namespace Nidas.Apps.NidsMerge

open Core Lib

/-- A sample of an input that the matcher selects. -/
def Selected (opts : Options) (sources : List Source) (x : Sample) : Prop :=
  Pending opts (sources.map Source.opened) x

/-- A selected sample of the time range. -/
structure InRange (opts : Options) (sources : List Source) (x : Sample) : Prop where
  selected : Selected opts sources x
  fromStart : FromStart opts.startTime x
  beforeEnd : beforeEnd opts x = true

/-- What has been written when the run is over: the samples of the time range, one of each key, in
the order of the keys. -/
structure Merged (opts : Options) (sources : List Source) (written : List Sample) : Prop where
  keysGoUp : KeysGoUp sortKey written
  inRange : ∀ x ∈ written, InRange opts sources x
  covers : ∀ x, InRange opts sources x → HasKey written x

/-- What holds between two windows, when all samples in front of `P` have been read, and those from
`s` on have been written. -/
structure BetweenAt (opts : Options) (sources : List Source) (bound s P : ℤ)
    (inputs : List InputInfo) (sorter written : List Sample) : Prop where
  start_le : s ≤ P
  start_iff : ∀ x, Selected opts sources x → (s ≤ x.timeTag ↔ FromStart opts.startTime x)
  inputOk : ∀ input ∈ inputs, InputOk opts bound input
  reached : ∀ input ∈ inputs,
    input.eof = true ∨ isBefore input.lastTime (some (P + opts.readAheadUsecs)) = false
  sorterUp : KeysGoUp sortKey sorter
  writtenUp : KeysGoUp sortKey written
  sorterFrom : ∀ x ∈ sorter, P ≤ x.timeTag
  writtenBefore : ∀ x ∈ written, x.timeTag < P
  sorterSelected : ∀ x ∈ sorter, Selected opts sources x ∧ s ≤ x.timeTag
  writtenInRange : ∀ x ∈ written, InRange opts sources x
  pending : ∀ x, Pending opts inputs x → Selected opts sources x
  covers : ∀ x, Selected opts sources x → s ≤ x.timeTag →
    Pending opts inputs x ∨ HasKey sorter x ∨ HasKey written x ∨
      (x.timeTag < P ∧ beforeEnd opts x = false)

/-- What holds before a window that is not the first one. -/
structure Between (opts : Options) (sources : List Source) (bound : ℤ) (merging : Merging) :
    Prop where
  isFirst : merging.isFirst = false
  exists_at : ∃ s P, merging.startTime = some s ∧
    merging.tcur = some (P + opts.readAheadUsecs) ∧
    BetweenAt opts sources bound s P merging.inputs merging.sorter merging.written

section Times

variable {opts : Options} {x y : Sample} {sorter : List Sample} {time : ℤ}

theorem beforeEnd_iff : beforeEnd opts x = true ↔ ∀ e ∈ opts.endTime, x.timeTag < e := by
  unfold beforeEnd
  cases opts.endTime with
  | none => simp
  | some e => simp

theorem beforeEnd_congr (htime : x.timeTag = y.timeTag) : beforeEnd opts x = beforeEnd opts y := by
  unfold beforeEnd
  rw [htime]

theorem sortKey_lt_of_timeTag_lt (htime : x.timeTag < y.timeTag) : sortKey x < sortKey y :=
  Prod.Lex.toLex_lt_toLex.mpr (.inl htime)

/-- The sorter is split at a time. -/
theorem splitSorter_eq : splitSorter (some time) sorter =
    (below Sample.timeTag time sorter, notBelow Sample.timeTag time sorter) := by
  unfold splitSorter below notBelow
  simp only [fullLess_dummySample]

theorem inOrder_of_keysGoUp (hsorter : KeysGoUp sortKey sorter) :
    InOrder Sample.timeTag sorter := by
  apply hsorter.imp
  intro first second hlt
  by_contra hgt
  exact absurd hlt (sortKey_lt_of_timeTag_lt (not_le.mp hgt)).not_gt

/-- A key in the sorter stays, or is flushed. -/
theorem HasKey.split (hx : HasKey sorter x) :
    HasKey (flushSorter opts (some time) sorter).2 x ∨
      (x.timeTag < time ∧
        (HasKey (flushSorter opts (some time) sorter).1 x ∨ beforeEnd opts x = false)) := by
  obtain ⟨other, hmem, hkey⟩ := hx
  have htime := timeTag_of_sortKey hkey
  unfold flushSorter
  rw [splitSorter_eq]
  have hparts : below Sample.timeTag time sorter ++ notBelow Sample.timeTag time sorter = sorter :=
    below_append_notBelow time sorter
  rw [← hparts] at hmem
  rcases List.mem_append.mp hmem with hbelow | hnot
  · right
    refine ⟨htime ▸ key_lt_of_mem_below hbelow, ?_⟩
    cases hend : beforeEnd opts x with
    | false => exact .inr rfl
    | true =>
        rw [← beforeEnd_congr htime] at hend
        exact .inl ⟨other, List.mem_filter.mpr ⟨hbelow, hend⟩, hkey⟩
  · exact .inl ⟨other, hnot, hkey⟩

end Times

section Windows

variable {opts : Options} {sources : List Source} {bound s P : ℤ} {inputs : List InputInfo}
  {sorter written : List Sample} {merging : Merging}

theorem BetweenAt.between (h : BetweenAt opts sources bound s P inputs sorter written) :
    Between opts sources bound
      ⟨inputs, sorter, some s, some (P + opts.readAheadUsecs), false, written⟩ :=
  ⟨rfl, s, P, rfl, rfl, h⟩

/-- Nothing in front of `P` is still to come. -/
theorem BetweenAt.pendingFrom (h : BetweenAt opts sources bound s P inputs sorter written)
    {x : Sample} (hx : Pending opts inputs x) : P ≤ x.timeTag := by
  obtain ⟨input, hinput, hmem, -⟩ := hx
  rcases h.reached input hinput with heof | hreached
  · rw [(h.inputOk input hinput).ended heof] at hmem
    cases hmem
  · obtain ⟨time, htime, fill, hfill, hle⟩ := isBefore_eq_false_iff.mp hreached
    cases hfill
    have hlast := (h.inputOk input hinput).last time htime x hmem
    omega

/-- **One window**: the inputs are filled, and the samples in front of the next time are written. -/
theorem BetweenAt.step (hpos : 0 < opts.readAheadUsecs)
    (h : BetweenAt opts sources bound s P inputs sorter written)
    {filled : List InputInfo × Option ℤ × List Sample}
    (hfilled : FillsAll opts (some s) inputs
      (some (P + opts.readAheadUsecs + opts.readAheadUsecs)) sorter filled) :
    BetweenAt opts sources bound s (P + opts.readAheadUsecs) filled.1
      (flushSorter opts (some (P + opts.readAheadUsecs)) filled.2.2).2
      (written ++ (flushSorter opts (some (P + opts.readAheadUsecs)) filled.2.2).1) := by
  have hle : P ≤ P + opts.readAheadUsecs := by omega
  have hup : KeysGoUp sortKey filled.2.2 := hfilled.keysGoUp h.sorterUp
  have hfrom : ∀ x ∈ filled.2.2, P ≤ x.timeTag :=
    hfilled.sorter_of h.sorterFrom fun x hx _ => h.pendingFrom hx
  have hselected : ∀ x ∈ filled.2.2, Selected opts sources x ∧ s ≤ x.timeTag :=
    hfilled.sorter_of h.sorterSelected fun x hx hstart => ⟨h.pending x hx, hstart s rfl⟩
  have hflush : flushSorter opts (some (P + opts.readAheadUsecs)) filled.2.2 =
      ((below Sample.timeTag (P + opts.readAheadUsecs) filled.2.2).filter (beforeEnd opts),
        notBelow Sample.timeTag (P + opts.readAheadUsecs) filled.2.2) := by
    unfold flushSorter
    rw [splitSorter_eq]
  have hbelow : ∀ x ∈ below Sample.timeTag (P + opts.readAheadUsecs) filled.2.2, x ∈ filled.2.2 :=
    fun x hx => (List.takeWhile_sublist _).subset hx
  constructor
  case start_le => exact h.start_le.trans hle
  case start_iff => exact h.start_iff
  case inputOk => exact hfilled.inputOk h.inputOk
  case reached =>
    have hreached := hfilled.reached
    rw [hfilled.filltime_of_some (by simp)] at hreached
    exact hreached
  case sorterUp =>
    rw [hflush]
    exact hup.sublist (List.dropWhile_sublist _)
  case writtenUp =>
    rw [hflush]
    apply List.pairwise_append.mpr
    refine ⟨h.writtenUp, hup.sublist (List.filter_sublist.trans (List.takeWhile_sublist _)), ?_⟩
    intro first hfirst second hsecond
    apply sortKey_lt_of_timeTag_lt
    have hbefore := h.writtenBefore first hfirst
    have hafter := hfrom second (hbelow second (List.mem_filter.mp hsecond).1)
    omega
  case sorterFrom =>
    rw [hflush]
    exact fun x hx => (inOrder_of_keysGoUp hup).le_key_of_mem_notBelow hx
  case writtenBefore =>
    rw [hflush]
    intro x hx
    rcases List.mem_append.mp hx with hold | hnew
    · exact (h.writtenBefore x hold).trans_le hle
    · exact key_lt_of_mem_below (List.mem_filter.mp hnew).1
  case sorterSelected =>
    rw [hflush]
    exact fun x hx => hselected x ((List.dropWhile_sublist _).subset hx)
  case writtenInRange =>
    rw [hflush]
    intro x hx
    rcases List.mem_append.mp hx with hold | hnew
    · exact h.writtenInRange x hold
    · obtain ⟨hmem, hend⟩ := List.mem_filter.mp hnew
      obtain ⟨hsel, hstart⟩ := hselected x (hbelow x hmem)
      exact ⟨hsel, (h.start_iff x hsel).mp hstart, hend⟩
  case pending => exact fun x hx => h.pending x (hfilled.pending hx)
  case covers =>
    intro x hx hstart
    -- whatever has the key of `x` in the sorter stays there or is flushed
    have hsplit : HasKey filled.2.2 x →
        HasKey (flushSorter opts (some (P + opts.readAheadUsecs)) filled.2.2).2 x ∨
          HasKey (written ++ (flushSorter opts (some (P + opts.readAheadUsecs)) filled.2.2).1) x ∨
            (x.timeTag < P + opts.readAheadUsecs ∧ beforeEnd opts x = false) := by
      intro hkey
      rcases hkey.split with hstays | ⟨hlt, hflushed | hclipped⟩
      · exact .inl hstays
      · exact .inr (.inl (hflushed.mono (List.subset_append_right _ _)))
      · exact .inr (.inr ⟨hlt, hclipped⟩)
    rcases h.covers x hx hstart with hpending | hkey | hwritten | ⟨hlt, hclipped⟩
    · rcases hfilled.covers hpending (fun time htime => by cases htime; exact hstart) with
        hstill | hkey
      · exact .inl hstill
      · exact .inr (hsplit hkey)
    · exact .inr (hsplit (hkey.mono hfilled.subset))
    · exact .inr (.inr (.inl (hwritten.mono (List.subset_append_left _ _))))
    · exact .inr (.inr (.inr ⟨hlt.trans_le hle, hclipped⟩))

theorem Between.window (hpos : 0 < opts.readAheadUsecs)
    (h : Between opts sources bound merging) {next : Merging}
    (hnext : NidsMerge.window opts merging = .inl next) :
    Between opts sources bound next ∧
      next.tcur = merging.tcur.map (· + opts.readAheadUsecs) ∧ goesOn opts merging = true := by
  obtain ⟨s, P, hstart, htcur, hat⟩ := h.exists_at
  unfold NidsMerge.window at hnext
  split at hnext
  · next hgoes =>
      rw [hstart, htcur, h.isFirst] at hnext
      simp only [reduceCtorEq, false_and, if_false, Option.map_some] at hnext
      have heq := Sum.inl.inj hnext
      have hall := fillsAll opts (some s) merging.inputs
        (some (P + opts.readAheadUsecs + opts.readAheadUsecs)) merging.sorter
      refine ⟨?_, ?_, hgoes⟩
      · rw [← heq]
        exact (hat.step hpos hall).between
      · rw [← heq, htcur]
        rfl
  · cases hnext

/-- Some input goes on, so that not all samples are one interval in front of `P`. -/
theorem BetweenAt.le_bound (h : BetweenAt opts sources bound s P inputs sorter written)
    (hopen : inputs.any (fun input => !input.eof) = true) : P + opts.readAheadUsecs ≤ bound := by
  obtain ⟨input, hinput, heof⟩ := List.any_eq_true.mp hopen
  rcases h.reached input hinput with hended | hreached
  · rw [hended] at heof
    cases heof
  · obtain ⟨time, htime, fill, hfill, hle⟩ := isBefore_eq_false_iff.mp hreached
    cases hfill
    exact hle.trans ((h.inputOk input hinput).last_le time htime)

/-- The loop ends when `P` has come to the end of the time range, or all inputs to theirs. -/
theorem BetweenAt.merged (h : BetweenAt opts sources bound s P inputs sorter written)
    (hdone : ∀ x, Pending opts inputs x → beforeEnd opts x = false) :
    Merged opts sources (written ++ (flushSorter opts none sorter).1) := by
  have hflush : (flushSorter opts none sorter).1 = sorter.filter (beforeEnd opts) := rfl
  rw [hflush]
  constructor
  case keysGoUp =>
    apply List.pairwise_append.mpr
    refine ⟨h.writtenUp, h.sorterUp.sublist List.filter_sublist, ?_⟩
    intro first hfirst second hsecond
    apply sortKey_lt_of_timeTag_lt
    have hbefore := h.writtenBefore first hfirst
    have hafter := h.sorterFrom second (List.mem_filter.mp hsecond).1
    omega
  case inRange =>
    intro x hx
    rcases List.mem_append.mp hx with hold | hnew
    · exact h.writtenInRange x hold
    · obtain ⟨hmem, hend⟩ := List.mem_filter.mp hnew
      obtain ⟨hselected, hstart⟩ := h.sorterSelected x hmem
      exact ⟨hselected, (h.start_iff x hselected).mp hstart, hend⟩
  case covers =>
    intro x hx
    have hstart := (h.start_iff x hx.selected).mpr hx.fromStart
    rcases h.covers x hx.selected hstart with hpending | ⟨other, hmem, hkey⟩ | hwritten | hclipped
    · exact absurd hx.beforeEnd (by rw [hdone x hpending]; exact Bool.false_ne_true)
    · have hend : beforeEnd opts other = true :=
        (beforeEnd_congr (timeTag_of_sortKey hkey)).trans hx.beforeEnd
      exact ⟨other, List.mem_append_right _ (List.mem_filter.mpr ⟨hmem, hend⟩), hkey⟩
    · exact hwritten.mono (List.subset_append_left _ _)
    · exact absurd hx.beforeEnd (by rw [hclipped.2]; exact Bool.false_ne_true)

theorem Between.leave (h : Between opts sources bound merging) {result : List Sample}
    (hleave : NidsMerge.window opts merging = .inr result) : Merged opts sources result := by
  obtain ⟨s, P, hstart, htcur, hat⟩ := h.exists_at
  unfold NidsMerge.window at hleave
  split at hleave
  · cases hleave
  · next hstops =>
      cases hleave
      apply hat.merged
      intro x hx
      obtain ⟨input, hinput, hmem, hselects⟩ := hx
      have hP := hat.pendingFrom ⟨input, hinput, hmem, hselects⟩
      have hopen : merging.inputs.any (fun input => !input.eof) = true := by
        apply List.any_eq_true.mpr ⟨input, hinput, _⟩
        rw [Bool.not_eq_true']
        by_contra heof
        rw [(hat.inputOk input hinput).ended (Bool.not_eq_false _ ▸ heof)] at hmem
        cases hmem
      unfold goesOn at hstops
      rw [hopen, htcur, Bool.true_and] at hstops
      unfold beforeEnd
      cases hend : opts.endTime with
      | none => rw [hend] at hstops; exact absurd rfl hstops
      | some time =>
          rw [hend] at hstops
          simp only [decide_eq_true_eq] at hstops
          simp only [Option.all_some, decide_eq_false_iff_not]
          omega

end Windows

section FirstWindow

variable {opts : Options} {sources : List Source} {bound : ℤ}

/-- **The assumption on the inputs**: the times of each do not go back by more than the read-ahead
interval. -/
def SteadySources (opts : Options) (sources : List Source) : Prop :=
  ∀ source ∈ sources, ∀ samples ∈ source.samples, Steady opts.readAheadUsecs samples

/-- No sample is behind this time. -/
def Bounded (bound : ℤ) (sources : List Source) : Prop :=
  ∀ source ∈ sources, ∀ samples ∈ source.samples, ∀ x ∈ samples, x.timeTag ≤ bound

theorem inputOk_opened (hsteady : SteadySources opts sources) (hbound : Bounded bound sources) :
    ∀ input ∈ sources.map Source.opened, InputOk opts bound input := by
  intro input hinput
  obtain ⟨source, hsource, rfl⟩ := List.mem_map.mp hinput
  unfold Source.opened
  cases hsamples : source.samples with
  | none =>
      exact ⟨List.Pairwise.nil, fun _ h => (by cases h), fun _ h => (by cases h),
        fun _ h => (by cases h), fun _ => rfl⟩
  | some samples =>
      exact ⟨hsteady source hsource samples hsamples, fun _ h => (by cases h),
        fun _ h => (by cases h), hbound source hsource samples hsamples, fun h => by cases h⟩

/-- Without an input that is not at its end nothing is still to come. -/
theorem not_pending_of_ended {inputs : List InputInfo}
    (hinputs : ∀ input ∈ inputs, InputOk opts bound input)
    (hended : ∀ input ∈ inputs, input.eof = true) (x : Sample) : ¬Pending opts inputs x := by
  rintro ⟨input, hinput, hmem, -⟩
  rw [(hinputs input hinput).ended (hended input hinput)] at hmem
  cases hmem

theorem ended_of_not_any {inputs : List InputInfo}
    (hany : inputs.any (fun input => !input.eof) = false) :
    ∀ input ∈ inputs, input.eof = true := by
  intro input hinput
  have hnot := List.any_eq_false.mp hany input hinput
  cases heof : input.eof with
  | true => rfl
  | false => exact absurd (by rw [heof]; rfl) hnot

/-- The first window with a start time. -/
theorem between_of_start (hsteady : SteadySources opts sources)
    (hbound : Bounded bound sources) {s : ℤ} (hstart : opts.startTime = some s)
    {filled : List InputInfo × Option ℤ × List Sample}
    (hfilled : FillsAll opts (some s) (sources.map Source.opened)
      (some (s + opts.readAheadUsecs)) [] filled) :
    BetweenAt opts sources bound s s filled.1 filled.2.2 [] := by
  have hselected : ∀ x ∈ filled.2.2, Selected opts sources x ∧ s ≤ x.timeTag :=
    hfilled.sorter_of (fun x hx => by cases hx) fun x hx hfrom => ⟨hx, hfrom s rfl⟩
  constructor
  case start_le => exact le_rfl
  case start_iff =>
    intro x _
    unfold FromStart
    rw [hstart]
    simp
  case inputOk => exact hfilled.inputOk (inputOk_opened hsteady hbound)
  case reached =>
    have hreached := hfilled.reached
    rw [hfilled.filltime_of_some (by simp)] at hreached
    exact hreached
  case sorterUp => exact hfilled.keysGoUp List.Pairwise.nil
  case writtenUp => exact List.Pairwise.nil
  case sorterFrom => exact fun x hx => (hselected x hx).2
  case writtenBefore => exact fun x hx => by cases hx
  case sorterSelected => exact hselected
  case writtenInRange => exact fun x hx => by cases hx
  case pending => exact fun x hx => hfilled.pending hx
  case covers =>
    intro x hx hle
    rcases hfilled.covers hx (fun time htime => by cases htime; exact hle) with hpending | hkey
    · exact .inl hpending
    · exact .inr (.inl hkey)

/-- The first window without a start time: it becomes the first time that has been read. -/
theorem between_of_none (hsteady : SteadySources opts sources) (hbound : Bounded bound sources)
    (hstart : opts.startTime = none) {filled : List InputInfo × Option ℤ × List Sample}
    (hfilled : FillsAll opts none (sources.map Source.opened) none [] filled) {f : ℤ}
    (hf : filled.2.1 = some f) :
    BetweenAt opts sources bound (f - opts.readAheadUsecs) (f - opts.readAheadUsecs) filled.1
      filled.2.2 [] := by
  have hinputs := hfilled.inputOk (inputOk_opened hsteady hbound)
  have hreached := hfilled.reached
  rw [hf] at hreached
  have hfrom : ∀ x, FromStart none x := fun x time htime => by cases htime
  -- all selected samples are behind the new start, whether they have been read or not
  have hall : ∀ x, Selected opts sources x → f - opts.readAheadUsecs ≤ x.timeTag := by
    intro x hx
    rcases hfilled.filltime_le rfl hx with ⟨input, hinput, hmem, hselects⟩ | hle
    · rcases hreached input hinput with heof | hbefore
      · rw [(hinputs input hinput).ended heof] at hmem
        cases hmem
      · obtain ⟨time, htime, fill, hfill, hle⟩ := isBefore_eq_false_iff.mp hbefore
        cases hfill
        have hlast := (hinputs input hinput).last time htime x hmem
        omega
    · obtain ⟨fill, hfill, hle⟩ := hle _ rfl
      rw [hf] at hfill
      cases hfill
      omega
  have hselected : ∀ x ∈ filled.2.2, Selected opts sources x :=
    hfilled.sorter_of (fun x hx => by cases hx) fun x hx _ => hx
  constructor
  case start_le => exact le_rfl
  case start_iff =>
    intro x hx
    rw [hstart]
    exact iff_of_true (hall x hx) (hfrom x)
  case inputOk => exact hinputs
  case reached =>
    rw [Int.sub_add_cancel]
    exact hreached
  case sorterUp => exact hfilled.keysGoUp List.Pairwise.nil
  case writtenUp => exact List.Pairwise.nil
  case sorterFrom => exact fun x hx => hall x (hselected x hx)
  case writtenBefore => exact fun x hx => by cases hx
  case sorterSelected => exact fun x hx => ⟨hselected x hx, hall x (hselected x hx)⟩
  case writtenInRange => exact fun x hx => by cases hx
  case pending => exact fun x hx => hfilled.pending hx
  case covers =>
    intro x hx _
    rcases hfilled.covers hx (hfrom x) with hpending | hkey
    · exact .inl hpending
    · exact .inr (.inl hkey)

theorem exists_bound (sources : List Source) : ∃ bound, Bounded bound sources := by
  have hlist : ∀ samples : List Sample, ∃ bound, ∀ x ∈ samples, x.timeTag ≤ bound := by
    intro samples
    induction samples with
    | nil => exact ⟨0, fun x hx => by cases hx⟩
    | cons first rest ih =>
        obtain ⟨bound, hbound⟩ := ih
        refine ⟨max first.timeTag bound, ?_⟩
        intro x hx
        rcases List.mem_cons.mp hx with rfl | hrest
        · exact le_max_left _ _
        · exact (hbound x hrest).trans (le_max_right _ _)
  obtain ⟨bound, hbound⟩ := hlist (sources.flatMap fun source => source.samples.getD [])
  refine ⟨bound, ?_⟩
  intro source hsource samples hsamples x hx
  apply hbound x
  apply List.mem_flatMap.mpr ⟨source, hsource, _⟩
  rw [Option.mem_def.mp hsamples]
  exact hx

/-- With nothing in the time range nothing is to be written. -/
theorem merged_nil (hnone : ∀ x, ¬InRange opts sources x) : Merged opts sources [] :=
  ⟨List.Pairwise.nil, fun _ hx => (by cases hx), fun x hx => absurd hx (hnone x)⟩

/-- Between two windows the loop comes to an end. -/
theorem exists_ends_of_between (hpos : 0 < opts.readAheadUsecs) {merging : Merging}
    (h : Between opts sources bound merging) :
    ∃ written, Ends (window opts) merging written ∧ Merged opts sources written := by
  obtain ⟨written, hends⟩ := ends_of_measure
    (fun merging : Merging => (bound + 1 - merging.tcur.getD 0).toNat)
    (fun state next hstate hnext => by
      obtain ⟨hbetween, htcur, hgoes⟩ := hstate.window hpos hnext
      obtain ⟨s, P, -, hP, hat⟩ := hstate.exists_at
      have hle := hat.le_bound (Bool.and_eq_true_iff.mp hgoes).1
      refine ⟨hbetween, ?_⟩
      rw [htcur, hP]
      simp only [Option.map_some, Option.getD_some]
      omega) merging h
  exact ⟨written, hends, hends.invariant h
    (fun state next hstate hnext => (hstate.window hpos hnext).1)
    fun state result hstate hleave => hstate.leave hleave⟩

/-- The loop is not entered when all inputs are empty, or the start is behind the end. -/
theorem of_not_goesOn_initial (hstops : goesOn opts (opts.initial sources) = false) :
    (∀ input ∈ sources.map Source.opened, input.eof = true) ∨
      ∃ s e, opts.startTime = some s ∧ opts.endTime = some e ∧ e + opts.readAheadUsecs ≤ s := by
  rcases Bool.and_eq_false_iff.mp hstops with hany | htime
  · exact .inl (ended_of_not_any hany)
  · right
    unfold Options.initial at htime
    cases hend : opts.endTime with
    | none => simp [hend] at htime
    | some e =>
        cases hstart : opts.startTime with
        | none => simp [hend, hstart] at htime
        | some s => exact ⟨s, e, rfl, rfl, by simpa [hend, hstart] using htime⟩

theorem window_initial_of_not_goesOn (hstops : goesOn opts (opts.initial sources) = false) :
    window opts (opts.initial sources) = .inr [] := by
  unfold window
  rw [hstops]
  rfl

theorem window_initial_of_start {s : ℤ} (hstart : opts.startTime = some s)
    (hgoes : goesOn opts (opts.initial sources) = true) :
    window opts (opts.initial sources) =
      (let filled := fillInputs opts (some s) (sources.map Source.opened)
        (some (s + opts.readAheadUsecs)) []
      .inl ⟨filled.1, filled.2.2, some s, some (s + opts.readAheadUsecs), false, []⟩) := by
  unfold window
  rw [hgoes]
  simp [Options.initial, hstart]

/-- Without a start time, the first window finds it out if anything is read. -/
theorem window_initial_of_none (hstart : opts.startTime = none)
    (hgoes : goesOn opts (opts.initial sources) = true) :
    window opts (opts.initial sources) =
      (let filled := fillInputs opts none (sources.map Source.opened) none []
      .inl ⟨filled.1, filled.2.2, filled.2.1.map (· - opts.readAheadUsecs), filled.2.1, false,
        []⟩) := by
  unfold window
  rw [hgoes]
  simp only [Options.initial, hstart]
  cases hfill : (fillInputs opts none (sources.map Source.opened) none []).2.1 with
  | none => simp [hfill]
  | some f => simp [hfill]

/-- The loop is left without a sample. -/
theorem ends_nil {merging : Merging} (hstops : goesOn opts merging = false)
    (hwritten : merging.written = []) (hsorter : merging.sorter.filter (beforeEnd opts) = []) :
    Ends (window opts) merging [] := by
  apply Ends.leave
  have hflush : (flushSorter opts none merging.sorter).1 = [] := hsorter
  unfold window
  rw [hstops, hwritten, hflush]
  rfl

theorem goesOn_of_ended {merging : Merging}
    (hended : ∀ input ∈ merging.inputs, input.eof = true) : goesOn opts merging = false := by
  have hany : merging.inputs.any (fun input => !input.eof) = false := by
    apply List.any_eq_false.mpr
    intro input hinput
    simp [hended input hinput]
  unfold goesOn
  rw [hany]
  rfl

/-- When the first window reads nothing, the loop is left without a sample. -/
theorem ends_of_unread {filled : List InputInfo × Option ℤ × List Sample}
    (hopened : ∀ input ∈ sources.map Source.opened, InputOk opts bound input)
    (hfilled : FillsAll opts none (sources.map Source.opened) none [] filled)
    (hunread : filled.2.1 = none) :
    (∀ x, ¬Selected opts sources x) ∧
      Ends (window opts) ⟨filled.1, filled.2.2, none, none, false, []⟩ [] := by
  have hended : ∀ input ∈ filled.1, input.eof = true := by
    intro input hinput
    rcases hfilled.reached input hinput with heof | hbefore
    · exact heof
    · rw [hunread] at hbefore
      obtain ⟨-, -, fill, hfill, -⟩ := isBefore_eq_false_iff.mp hbefore
      cases hfill
  have hnone : ∀ x, ¬Selected opts sources x := by
    intro x hx
    rcases hfilled.filltime_le rfl hx with hpending | hle
    · exact not_pending_of_ended (hfilled.inputOk hopened) hended x hpending
    · obtain ⟨fill, hfill, -⟩ := hle _ rfl
      rw [hunread] at hfill
      cases hfill
  have hsorter : filled.2.2 = [] := by
    apply List.eq_nil_iff_forall_not_mem.mpr
    exact hfilled.sorter_of (fun x hx => by cases hx) fun x hx _ => absurd hx (hnone x)
  exact ⟨hnone, ends_nil (goesOn_of_ended hended) rfl (by simp [hsorter])⟩

/-- **With a positive read-ahead interval the merge comes to an end**, and has written the samples
of the time range in order. -/
theorem exists_runs (hpos : 0 < opts.readAheadUsecs) (hsteady : SteadySources opts sources) :
    ∃ written, Runs opts sources written ∧ Merged opts sources written := by
  obtain ⟨bound, hbound⟩ := exists_bound sources
  have hopened := inputOk_opened hsteady hbound
  cases hgoes : goesOn opts (opts.initial sources) with
  | false =>
      refine ⟨[], .leave (window_initial_of_not_goesOn hgoes), merged_nil ?_⟩
      intro x hx
      rcases of_not_goesOn_initial hgoes with hended | ⟨s, e, hstart, hend, hle⟩
      · exact not_pending_of_ended hopened hended x hx.selected
      · have hfrom := hx.fromStart s hstart
        have hbefore := beforeEnd_iff.mp hx.beforeEnd e hend
        omega
  | true =>
      cases hstart : opts.startTime with
      | some s =>
          have hat := between_of_start hsteady hbound hstart
            (fillsAll opts (some s) (sources.map Source.opened) (some (s + opts.readAheadUsecs)) [])
          obtain ⟨written, hends, hmerged⟩ := exists_ends_of_between hpos hat.between
          exact ⟨written, hends.goOn (window_initial_of_start hstart hgoes), hmerged⟩
      | none =>
          have hfilled := fillsAll opts none (sources.map Source.opened) none []
          have hwindow := window_initial_of_none hstart hgoes
          dsimp only at hwindow
          cases hf : (fillInputs opts none (sources.map Source.opened) none []).2.1 with
          | none =>
              rw [hf] at hwindow
              obtain ⟨hnone, hends⟩ := ends_of_unread hopened hfilled hf
              exact ⟨[], hends.goOn hwindow, merged_nil fun x hx => hnone x hx.selected⟩
          | some f =>
              rw [hf] at hwindow
              have hat := between_of_none hsteady hbound hstart hfilled hf
              have hbetween := hat.between
              rw [Int.sub_add_cancel] at hbetween
              obtain ⟨written, hends, hmerged⟩ := exists_ends_of_between hpos hbetween
              exact ⟨written, hends.goOn hwindow, hmerged⟩

end FirstWindow

end Nidas.Apps.NidsMerge
