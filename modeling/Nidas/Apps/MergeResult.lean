import Mathlib.Data.List.Nodup
import Nidas.Apps.MergeWindows

/-!
# What a merge has written

With a positive read-ahead interval a merge writes one sample of each key (`Merged`), and so each
sample of the time range, unless two of them have the same key: the comparator counts the data
values and then compares as many bytes (`SameToComparator`).  Without a positive interval the
windows do not go forward: the merge writes nothing at all, and it comes to an end only if it has
read all inputs before the first window is over.
-/

namespace Nidas.Apps.NidsMerge

open Core Lib

/-- The comparator does not tell two samples from each other: as many bytes are compared as there
are data values, and the type is not. -/
def SameToComparator (x y : Sample) : Prop :=
  x.timeTag = y.timeTag ∧ x.id = y.id ∧ x.dataLength = y.dataLength ∧
    x.data.take x.dataLength = y.data.take y.dataLength

/-- The samples of the time range are told from each other. -/
def AllTold (opts : Options) (sources : List Source) : Prop :=
  ∀ x y, InRange opts sources x → InRange opts sources y → SameToComparator x y → x = y

/-- Nothing is in the time range, and a merge from a start time does not enter its loop, or reads
all inputs to their ends in the first window. -/
def NothingToMerge (opts : Options) (sources : List Source) : Prop :=
  (∀ x, ¬InRange opts sources x) ∧
    ∀ s ∈ opts.startTime, (∃ e ∈ opts.endTime, e + opts.readAheadUsecs ≤ s) ∨
      ∀ x, Selected opts sources x → x.timeTag < s + opts.readAheadUsecs

/-- **What a merge is for**: it comes to an end, its samples are in the order of time, and each
sample of the time range is written once. -/
def MergesAll (opts : Options) (sources : List Source) : Prop :=
  ∃ written, Runs opts sources written ∧
    written.Pairwise (fun earlier later => earlier.timeTag ≤ later.timeTag) ∧
      ∀ x, InRange opts sources x → written.count x = 1

variable {opts : Options} {sources : List Source} {written : List Sample} {x y : Sample}

theorem sortKey_eq_iff : sortKey x = sortKey y ↔ SameToComparator x y := by
  have hbytes : Function.Injective UInt8.toNat := fun _ _ => UInt8.toNat.inj
  unfold sortKey SameToComparator
  simp only [EmbeddingLike.apply_eq_iff_eq, Prod.mk.injEq, (hbytes.list_map).eq_iff]

/-! ## A positive read-ahead interval -/

theorem Merged.pairwise_timeTag (h : Merged opts sources written) :
    written.Pairwise fun earlier later => earlier.timeTag ≤ later.timeTag :=
  inOrder_of_keysGoUp h.keysGoUp

theorem Merged.count_eq_one_iff (h : Merged opts sources written) :
    written.count x = 1 ↔ x ∈ written := by
  constructor
  · intro hcount
    exact List.count_pos_iff.mp (by omega)
  · intro hmem
    exact List.count_eq_one_of_mem h.keysGoUp.nodup hmem

/-- One of the samples with the same key is written. -/
theorem Merged.all_iff_allTold (h : Merged opts sources written) :
    (∀ x, InRange opts sources x → written.count x = 1) ↔ AllTold opts sources := by
  constructor
  · intro hall x y hx hy hsame
    have hmem := h.count_eq_one_iff.mp (hall x hx)
    have hother := h.count_eq_one_iff.mp (hall y hy)
    exact h.keysGoUp.eq_of_key hmem hother (sortKey_eq_iff.mpr hsame)
  · intro htold x hx
    obtain ⟨other, hmem, hkey⟩ := h.covers x hx
    have heq := htold other x (h.inRange other hmem) hx (sortKey_eq_iff.mp hkey)
    exact h.count_eq_one_iff.mpr (heq ▸ hmem)

theorem mergesAll_iff_of_pos (hpos : 0 < opts.readAheadUsecs)
    (hsteady : SteadySources opts sources) : MergesAll opts sources ↔ AllTold opts sources := by
  obtain ⟨written, hruns, hmerged⟩ := exists_runs hpos hsteady
  constructor
  · rintro ⟨other, hother, -, hall⟩
    rw [← hruns.unique hother] at hall
    exact hmerged.all_iff_allTold.mp hall
  · intro htold
    exact ⟨written, hruns, hmerged.pairwise_timeTag, hmerged.all_iff_allTold.mpr htold⟩

/-! ## Windows that do not go forward -/

/-- The inputs that have been read up to the fill time stay as they are. -/
theorem fillInputs_of_reached {startTime : Option ℤ} {inputs : List InputInfo}
    {filltime : Option ℤ} {sorter : List Sample}
    (hreached : ∀ input ∈ inputs, input.eof = true ∨ isBefore input.lastTime filltime = false) :
    fillInputs opts startTime inputs filltime sorter = (inputs, filltime, sorter) := by
  induction inputs with
  | nil => rfl
  | cons input inputs ih =>
      have hrest := ih fun other hother => hreached other (List.mem_cons_of_mem _ hother)
      unfold fillInputs
      split
      · rw [hrest]
      · next heof =>
          have hbefore := (hreached input List.mem_cons_self).resolve_left heof
          have hfilling : fillInput opts startTime input.name input.unread input.lastTime filltime
              sorter = ⟨input.unread, input.lastTime, false, filltime, sorter⟩ := by
            cases input.unread with
            | nil => rw [fillInput, hbefore]
            | cons samp unread => rw [fillInput, hbefore]; rfl
          simp only [hfilling, hrest]
          rw [← Bool.eq_false_iff.mpr heof]

/-- A merge that has come to a window in front of which nothing is missing. -/
structure Stuck (opts : Options) (merging : Merging) : Prop where
  isOpen : merging.inputs.any (fun input => !input.eof) = true
  started : merging.startTime ≠ none
  exists_time : ∃ time, merging.tcur = some time ∧
    (∀ e ∈ opts.endTime, time < e + opts.readAheadUsecs) ∧
    ∀ input ∈ merging.inputs, input.eof = true ∨ isBefore input.lastTime (some time) = false

theorem Stuck.window (hle : opts.readAheadUsecs ≤ 0) {merging : Merging}
    (h : Stuck opts merging) : ∃ next, window opts merging = .inl next ∧ Stuck opts next := by
  obtain ⟨time, htcur, hend, hreached⟩ := h.exists_time
  have hgoes : goesOn opts merging = true := by
    unfold goesOn
    rw [h.isOpen, htcur, Bool.true_and]
    cases hendTime : opts.endTime with
    | none => rfl
    | some e => exact decide_eq_true (hend e hendTime)
  have hlower : ∀ input ∈ merging.inputs, input.eof = true ∨
      isBefore input.lastTime (some (time + opts.readAheadUsecs)) = false := by
    intro input hinput
    refine (hreached input hinput).imp_right fun hbefore => isBefore_eq_false_mono hbefore ?_
    rintro other ⟨⟩
    exact ⟨_, rfl, by omega⟩
  have hfill : fillInputs opts merging.startTime merging.inputs
      (some (time + opts.readAheadUsecs)) merging.sorter =
        (merging.inputs, some (time + opts.readAheadUsecs), merging.sorter) :=
    fillInputs_of_reached hlower
  unfold NidsMerge.window
  rw [hgoes]
  simp only [if_true, h.started, if_false, htcur, Option.map_some, hfill, false_and]
  refine ⟨_, rfl, h.isOpen, h.started, time + opts.readAheadUsecs, rfl, ?_, hlower⟩
  intro e he
  have hlt := hend e he
  omega

theorem Stuck.not_ends (hle : opts.readAheadUsecs ≤ 0) {merging : Merging}
    (h : Stuck opts merging) : ¬Ends (NidsMerge.window opts) merging written :=
  not_ends_of_closed (fun _ hstuck => hstuck.window hle) h written

theorem lastTime_opened {P : ℤ → Prop} (sources : List Source) :
    ∀ input ∈ sources.map Source.opened, ∀ time ∈ input.lastTime, P time := by
  intro input hinput time htime
  obtain ⟨source, -, rfl⟩ := List.mem_map.mp hinput
  cases htime

theorem lt_of_goesOn_initial {s : ℤ} (hstart : opts.startTime = some s)
    (hgoes : goesOn opts (opts.initial sources) = true) :
    ∀ e ∈ opts.endTime, s < e + opts.readAheadUsecs := by
  intro e he
  have htime := (Bool.and_eq_true_iff.mp hgoes).2
  simpa [Options.initial, hstart, Option.mem_def.mp he] using htime

/-- A merge from a start time: it ends after the first window, or never. -/
theorem runs_of_start (hle : opts.readAheadUsecs ≤ 0) (hsteady : SteadySources opts sources)
    {s : ℤ} (hstart : opts.startTime = some s) (hgoes : goesOn opts (opts.initial sources) = true) :
    ((∀ x, Selected opts sources x → x.timeTag < s + opts.readAheadUsecs) ∧
        Runs opts sources []) ∨
      ((∃ x, Selected opts sources x ∧ s + opts.readAheadUsecs ≤ x.timeTag) ∧
        ∀ written, ¬Runs opts sources written) := by
  obtain ⟨bound, hbound⟩ := exists_bound sources
  have hopened := inputOk_opened hsteady hbound
  have hfilled := fillsAll opts (some s) (sources.map Source.opened)
    (some (s + opts.readAheadUsecs)) []
  have hwindow := window_initial_of_start hstart hgoes
  have hreached := hfilled.reached
  rw [hfilled.filltime_of_some (by simp)] at hreached
  dsimp only at hwindow
  generalize fillInputs opts (some s) (sources.map Source.opened)
    (some (s + opts.readAheadUsecs)) [] = filled at hfilled hwindow hreached
  by_cases hall : ∀ x, Selected opts sources x → x.timeTag < s + opts.readAheadUsecs
  · left
    have hlast := hfilled.lastTime_of (P := fun time => time < s + opts.readAheadUsecs)
      (lastTime_opened _) hall
    have hended : ∀ input ∈ filled.1, input.eof = true := by
      intro input hinput
      refine (hreached input hinput).resolve_right fun hbefore => ?_
      obtain ⟨time, htime, fill, hfill, hge⟩ := isBefore_eq_false_iff.mp hbefore
      cases hfill
      exact absurd (hlast input hinput time htime) (not_lt.mpr hge)
    have hsorter : filled.2.2 = [] := by
      apply List.eq_nil_iff_forall_not_mem.mpr
      refine hfilled.sorter_of (fun x hx => by cases hx) fun x hx hfrom => ?_
      have hbefore := hall x hx
      have hbehind := hfrom s rfl
      omega
    refine ⟨hall, Ends.goOn hwindow ?_⟩
    exact ends_nil (goesOn_of_ended hended) rfl (by simp [hsorter])
  · right
    push Not at hall
    refine ⟨hall, fun written hruns => ?_⟩
    obtain ⟨x, hx, hge⟩ := hall
    refine Stuck.not_ends hle ⟨?_, by simp, _, rfl, ?_, hreached⟩ (hruns.tail hwindow)
    · by_contra hany
      obtain ⟨fill, rfl, hbefore⟩ := hfilled.isBefore_of_ended
        (P := fun filltime => filltime = some (s + opts.readAheadUsecs))
        (ended_of_not_any (Bool.not_eq_true _ ▸ hany))
        (fun input hinput => (hopened input hinput).ended)
        rfl (fun filltime samp hfilltime => (if_neg (by simp)).trans hfilltime) hx
      have hlt : x.timeTag < s + opts.readAheadUsecs := by
        simpa [adjusted, isBefore] using hbefore
      omega
    · intro e he
      have hlt := lt_of_goesOn_initial hstart hgoes e he
      omega

/-- Without a start time, the first window ends at the first sample of each input. -/
theorem not_ended_of_none (hle : opts.readAheadUsecs ≤ 0) {inputs : List InputInfo}
    {filltime : Option ℤ} {sorter : List Sample} {filled : List InputInfo × Option ℤ × List Sample}
    (hfilled : FillsAll opts none inputs filltime sorter filled)
    (hinputs : ∀ input ∈ inputs, input.eof = true → input.unread = [])
    (hx : Pending opts inputs x) : filled.1.any (fun input => !input.eof) = true := by
  by_contra hany
  obtain ⟨fill, -, hbefore⟩ := hfilled.isBefore_of_ended (P := fun _ => True)
    (ended_of_not_any (Bool.not_eq_true _ ▸ hany)) hinputs trivial (fun _ _ _ => trivial) hx
  have hadjusted : LeTop (adjusted opts none fill x) (some (x.timeTag + opts.readAheadUsecs)) :=
    adjusted_le rfl
  obtain ⟨time, htime, hlow⟩ := hadjusted _ rfl
  have hreached : isBefore (some x.timeTag) (adjusted opts none fill x) = false :=
    isBefore_eq_false_iff.mpr ⟨x.timeTag, rfl, time, htime, by omega⟩
  rw [hreached] at hbefore
  cases hbefore

/-- A merge without a start time: it writes nothing, or never comes to an end. -/
theorem runs_of_none (hle : opts.readAheadUsecs ≤ 0) (hsteady : SteadySources opts sources)
    (hstart : opts.startTime = none) (hgoes : goesOn opts (opts.initial sources) = true) :
    ((∀ x, ¬InRange opts sources x) ∧ Runs opts sources []) ∨
      ((∃ x, InRange opts sources x) ∧ ∀ written, ¬Runs opts sources written) := by
  obtain ⟨bound, hbound⟩ := exists_bound sources
  have hopened := inputOk_opened hsteady hbound
  have hfilled := fillsAll opts none (sources.map Source.opened) none []
  have hwindow := window_initial_of_none hstart hgoes
  dsimp only at hwindow
  generalize fillInputs opts none (sources.map Source.opened) none [] = filled
    at hfilled hwindow
  cases hf : filled.2.1 with
  | none =>
      rw [hf] at hwindow
      obtain ⟨hnone, hends⟩ := ends_of_unread hopened hfilled hf
      exact .inl ⟨fun x hx => hnone x hx.selected, hends.goOn hwindow⟩
  | some f =>
      rw [hf] at hwindow
      have hat := between_of_none hsteady hbound hstart hfilled hf
      have hfrom : ∀ x, FromStart opts.startTime x := by
        intro x time htime
        rw [hstart] at htime
        cases htime
      have hall : ∀ x, Selected opts sources x → f - opts.readAheadUsecs ≤ x.timeTag :=
        fun x hx => (hat.start_iff x hx).mpr (hfrom x)
      -- the first time is that of a sample
      obtain ⟨first, hfirst, htime⟩ : ∃ first, Selected opts sources first ∧
          f - opts.readAheadUsecs = first.timeTag := by
        have hold := hfilled.filltime_of
          (P := fun filltime => ∀ f ∈ filltime, ∃ first, Selected opts sources first ∧
            f - opts.readAheadUsecs = first.timeTag) (fun f hf => by cases hf)
          (by
            rintro x hx _ ⟨⟩
            exact ⟨x, hx, by omega⟩)
        exact hold f hf
      by_cases hend : ∀ e ∈ opts.endTime, f < e + opts.readAheadUsecs
      · right
        have hbefore : beforeEnd opts first = true := by
          apply beforeEnd_iff.mpr
          intro e he
          have hlt := hend e he
          omega
        refine ⟨⟨first, hfirst, hfrom first, hbefore⟩, fun written hruns => ?_⟩
        have hopen := not_ended_of_none hle hfilled
          (fun input hinput => (hopened input hinput).ended) hfirst
        refine Stuck.not_ends hle ⟨hopen, by simp, f, rfl, hend, ?_⟩ (hruns.tail hwindow)
        rw [← hf]
        exact hfilled.reached
      · left
        push Not at hend
        obtain ⟨e, he, hge⟩ := hend
        have hbehind : ∀ x, Selected opts sources x → ¬beforeEnd opts x = true := by
          intro x hx hbefore
          have hlow := hall x hx
          have hlt := beforeEnd_iff.mp hbefore e he
          omega
        refine ⟨fun x hx => hbehind x hx.selected hx.beforeEnd,
          Ends.goOn hwindow (ends_nil ?_ rfl ?_)⟩
        · unfold goesOn
          rw [Option.mem_def.mp he]
          simp [hge]
        · apply List.filter_eq_nil_iff.mpr
          exact fun x hx => hbehind x (hat.sorterSelected x hx).1

theorem mergesAll_iff_of_nonpos (hle : opts.readAheadUsecs ≤ 0)
    (hsteady : SteadySources opts sources) :
    MergesAll opts sources ↔ NothingToMerge opts sources := by
  obtain ⟨bound, hbound⟩ := exists_bound sources
  have hopened := inputOk_opened hsteady hbound
  -- a run that ends with nothing merges all if there is nothing
  have hnil : Runs opts sources [] → (MergesAll opts sources ↔ ∀ x, ¬InRange opts sources x) := by
    intro hruns
    constructor
    · rintro ⟨written, hother, -, hall⟩ x hx
      have hcount := hall x hx
      rw [← hruns.unique hother] at hcount
      cases hcount
    · exact fun hnone => ⟨[], hruns, List.Pairwise.nil, fun x hx => absurd hx (hnone x)⟩
  have hnever : (∀ written, ¬Runs opts sources written) → ¬MergesAll opts sources := by
    rintro hnot ⟨written, hruns, -⟩
    exact hnot written hruns
  cases hgoes : goesOn opts (opts.initial sources) with
  | false =>
      rw [hnil (.leave (window_initial_of_not_goesOn hgoes))]
      refine ⟨fun hnone => ⟨hnone, fun s hs => ?_⟩, fun h => h.1⟩
      rcases of_not_goesOn_initial hgoes with hended | ⟨start, e, hstart, hend, hle⟩
      · exact .inr fun x hx => absurd hx (not_pending_of_ended hopened hended x)
      · cases (hstart.symm.trans hs)
        exact .inl ⟨e, hend, hle⟩
  | true =>
      cases hstart : opts.startTime with
      | some s =>
          have hlt := lt_of_goesOn_initial hstart hgoes
          rcases runs_of_start hle hsteady hstart hgoes with ⟨hall, hruns⟩ | ⟨⟨x, hx, hge⟩, hnot⟩
          · rw [hnil hruns]
            refine ⟨fun hnone => ⟨hnone, fun start hs => ?_⟩, fun h => h.1⟩
            cases (hstart.symm.trans hs)
            exact .inr hall
          · refine iff_of_false (hnever hnot) fun h => ?_
            rcases h.2 s hstart with ⟨e, he, hbehind⟩ | hall
            · exact absurd (hlt e he) (not_lt.mpr hbehind)
            · exact absurd (hall x hx) (not_lt.mpr hge)
      | none =>
          rcases runs_of_none hle hsteady hstart hgoes with ⟨hnone, hruns⟩ | ⟨⟨x, hx⟩, hnot⟩
          · rw [hnil hruns]
            refine ⟨fun hnone => ⟨hnone, fun start hs => ?_⟩, fun h => h.1⟩
            cases (hstart.symm.trans hs)
          · exact iff_of_false (hnever hnot) fun h => h.1 x hx

/-! ## The result -/

/-- **When a merge does what it is for.**  The inputs are in order up to the read-ahead interval. -/
theorem mergesAll_iff (opts : Options) (sources : List Source)
    (hsteady : SteadySources opts sources) :
    MergesAll opts sources ↔
      (0 < opts.readAheadUsecs ∧ AllTold opts sources) ∨
        (opts.readAheadUsecs ≤ 0 ∧ NothingToMerge opts sources) := by
  rcases lt_or_ge 0 opts.readAheadUsecs with hpos | hle
  · rw [mergesAll_iff_of_pos hpos hsteady]
    simp [hpos, hpos.not_ge]
  · rw [mergesAll_iff_of_nonpos hle hsteady]
    simp [hle, hle.not_gt]

/-- The default options. -/
def defaultOptions : Options := ⟨30 * usecsPerSec, none, none, fun _ _ => true⟩

/-- A sample of one value of four bytes. -/
def floatSample (bytes : List UInt8) : Sample := ⟨1000000, .float, 5, bytes⟩

/-- 1.0 and 1.1 of one sensor, in an archive whose other copy has the first of them. -/
def twoArchives : List Source :=
  [⟨['a'], some [floatSample [0, 0, 128, 63], floatSample [205, 204, 140, 63]]⟩,
    ⟨['b'], some [floatSample [0, 0, 128, 63]]⟩]

theorem mergesAll_twoArchives : MergesAll defaultOptions twoArchives := by
  refine (mergesAll_iff defaultOptions twoArchives ?_).mpr (.inl ⟨by decide, ?_⟩)
  · simp [SteadySources, twoArchives, Steady, defaultOptions, usecsPerSec, floatSample]
  · have hselected : ∀ x, InRange defaultOptions twoArchives x →
        x = floatSample [0, 0, 128, 63] ∨ x = floatSample [205, 204, 140, 63] := by
      rintro x ⟨⟨input, hinput, hmem, -⟩, -, -⟩
      simp only [twoArchives, Source.opened, List.map_cons, List.map_nil, Option.getD_some,
        List.mem_cons, List.not_mem_nil, or_false] at hinput
      rcases hinput with rfl | rfl
      · simpa using hmem
      · exact .inl (List.mem_singleton.mp hmem)
    intro x y hx hy hsame
    rcases hselected x hx with rfl | rfl
    · rcases hselected y hy with rfl | rfl
      · rfl
      · exact absurd hsame.2.2.2 (by decide)
    · rcases hselected y hy with rfl | rfl
      · exact absurd hsame.2.2.2 (by decide)
      · rfl

/-- 1.0 and 2.0 of one sensor: their first bytes are the same. -/
def oneAndTwo : List Source :=
  [⟨['a'], some [floatSample [0, 0, 128, 63], floatSample [0, 0, 0, 64]]⟩]

/-- **The second sample is lost**: only the first byte of four is compared. -/
theorem not_mergesAll_oneAndTwo :
    SteadySources defaultOptions oneAndTwo ∧
      InRange defaultOptions oneAndTwo (floatSample [0, 0, 0, 64]) ∧
      Runs defaultOptions oneAndTwo [floatSample [0, 0, 128, 63]] ∧
      ¬MergesAll defaultOptions oneAndTwo := by
  have hrange : InRange defaultOptions oneAndTwo (floatSample [0, 0, 0, 64]) := by
    refine ⟨⟨_, List.mem_singleton_self _, ?_, rfl⟩, fun _ h => (by cases h), rfl⟩
    exact List.mem_cons_of_mem _ (List.mem_singleton_self _)
  have hruns : Runs defaultOptions oneAndTwo [floatSample [0, 0, 128, 63]] :=
    ⟨2, by decide +kernel⟩
  refine ⟨?_, hrange, hruns, ?_⟩
  · simp [SteadySources, oneAndTwo, Steady, defaultOptions, usecsPerSec, floatSample]
  · rintro ⟨written, hother, -, hall⟩
    have hcount := hall _ hrange
    rw [← hruns.unique hother] at hcount
    exact absurd hcount (by decide)

end Nidas.Apps.NidsMerge
