import Nidas.Apps.NidsMerge

/-!
# Filling the sorter

What is left of the inputs, what is in the sorter, and what becomes of the fill time, when the
inputs have been filled.  A sample that the matcher selects is either still to be read (`Pending`)
or has its key in the sorter (`HasKey`), unless it is in front of the start time.  With a start time
the fill time stays as it is; without one it goes down to the first time that is read, plus the
read-ahead interval.
-/

namespace Nidas.Apps.NidsMerge

open Core Lib

variable {opts : Options} {startTime : Option ℤ} {name : List Char} {unread : List Sample}
  {lastTime filltime : Option ℤ} {sorter : List Sample} {inputs : List InputInfo} {x : Sample}

/-! ## What is said of inputs -/

/-- Each time is at least the latest one before it, minus the read-ahead interval. -/
def Steady (readAhead : ℤ) (samples : List Sample) : Prop :=
  samples.Pairwise fun earlier later => earlier.timeTag - readAhead ≤ later.timeTag

/-- A sample that is selected is still to be read. -/
def Pending (opts : Options) (inputs : List InputInfo) (x : Sample) : Prop :=
  ∃ input ∈ inputs, x ∈ input.unread ∧ opts.selects input.name x = true

/-- There is a sample that the comparator does not tell from this one. -/
def HasKey (samples : List Sample) (x : Sample) : Prop :=
  ∃ other ∈ samples, sortKey other = sortKey x

/-- A sample is not in front of the start time. -/
def FromStart (startTime : Option ℤ) (x : Sample) : Prop := ∀ start ∈ startTime, start ≤ x.timeTag

/-- Bounds of the times that are still to come, by the last one and by all samples. -/
structure InputOk (opts : Options) (bound : ℤ) (input : InputInfo) : Prop where
  steady : Steady opts.readAheadUsecs input.unread
  last : ∀ time ∈ input.lastTime, ∀ x ∈ input.unread, time - opts.readAheadUsecs ≤ x.timeTag
  last_le : ∀ time ∈ input.lastTime, time ≤ bound
  le : ∀ x ∈ input.unread, x.timeTag ≤ bound
  ended : input.eof = true → input.unread = []

theorem HasKey.mono {others : List Sample} (hx : HasKey sorter x) (hsub : sorter ⊆ others) :
    HasKey others x := by
  obtain ⟨other, hmem, hkey⟩ := hx
  exact ⟨other, hsub hmem, hkey⟩

theorem timeTag_of_sortKey {y : Sample} (hkey : sortKey x = sortKey y) : x.timeTag = y.timeTag :=
  congrArg (fun key => (ofLex key).1) hkey

/-! ## Fill times -/

/-- A fill time is not above another one, where `none` is above all. -/
def LeTop (first second : Option ℤ) : Prop := ∀ time ∈ second, ∃ other ∈ first, other ≤ time

theorem LeTop.refl (time : Option ℤ) : LeTop time time :=
  fun other hother => ⟨other, hother, le_rfl⟩

theorem LeTop.trans {first second third : Option ℤ} (h : LeTop first second)
    (h' : LeTop second third) : LeTop first third := by
  intro time htime
  obtain ⟨other, hother, hle⟩ := h' time htime
  obtain ⟨another, hanother, hle'⟩ := h other hother
  exact ⟨another, hanother, hle'.trans hle⟩

theorem isBefore_eq_false_iff :
    isBefore lastTime filltime = false ↔ ∃ time ∈ lastTime, ∃ fill ∈ filltime, fill ≤ time := by
  cases lastTime with
  | none => simp [isBefore]
  | some time =>
      cases filltime with
      | none => simp [isBefore]
      | some fill => simp [isBefore]

theorem isBefore_eq_false_mono {other : Option ℤ} (h : isBefore lastTime filltime = false)
    (hle : LeTop other filltime) : isBefore lastTime other = false := by
  obtain ⟨time, htime, fill, hfill, hge⟩ := isBefore_eq_false_iff.mp h
  obtain ⟨lower, hlower, hlow⟩ := hle fill hfill
  exact isBefore_eq_false_iff.mpr ⟨time, htime, lower, hlower, hlow.trans hge⟩

/-- The fill time when a sample has been read. -/
def adjusted (opts : Options) (startTime : Option ℤ) (filltime : Option ℤ) (x : Sample) :
    Option ℤ :=
  if startTime = none ∧ isBefore (some (x.timeTag + opts.readAheadUsecs)) filltime then
    some (x.timeTag + opts.readAheadUsecs)
  else filltime

theorem leTop_adjusted : LeTop (adjusted opts startTime filltime x) filltime := by
  unfold adjusted
  split
  · next h =>
      intro time htime
      cases htime
      exact ⟨_, rfl, (of_decide_eq_true h.2).le⟩
  · exact LeTop.refl filltime

theorem adjusted_le (hstart : startTime = none) :
    LeTop (adjusted opts startTime filltime x) (some (x.timeTag + opts.readAheadUsecs)) := by
  unfold adjusted
  split
  · exact LeTop.refl _
  · next h =>
      have hnot : isBefore (some (x.timeTag + opts.readAheadUsecs)) filltime = false :=
        Bool.eq_false_iff.mpr fun hbefore => h ⟨hstart, hbefore⟩
      obtain ⟨time, htime, fill, hfill, hge⟩ := isBefore_eq_false_iff.mp hnot
      intro other hother
      cases htime
      cases hother
      exact ⟨fill, hfill, hge⟩

/-! ## One input -/

/-- The steps of the loop that fills an input, by what it does with the next sample. -/
inductive Fills (opts : Options) (startTime : Option ℤ) (name : List Char) :
    List Sample → Option ℤ → Option ℤ → List Sample → Filling → Prop
  | atEnd (lastTime filltime : Option ℤ) (sorter : List Sample) :
      Fills opts startTime name [] lastTime filltime sorter
        ⟨[], lastTime, isBefore lastTime filltime, filltime, sorter⟩
  | filled (unread : List Sample) (lastTime filltime : Option ℤ) (sorter : List Sample)
      (hfilled : isBefore lastTime filltime = false) :
      Fills opts startTime name unread lastTime filltime sorter
        ⟨unread, lastTime, false, filltime, sorter⟩
  | excluded {samp : Sample} {unread : List Sample} {lastTime filltime : Option ℤ}
      {sorter : List Sample} {r : Filling} (hbefore : isBefore lastTime filltime = true)
      (hselects : opts.selects name samp = false)
      (hrest : Fills opts startTime name unread lastTime filltime sorter r) :
      Fills opts startTime name (samp :: unread) lastTime filltime sorter r
  | dropped {samp : Sample} {unread : List Sample} {lastTime filltime : Option ℤ}
      {sorter : List Sample} {r : Filling} (hbefore : isBefore lastTime filltime = true)
      (hselects : opts.selects name samp = true) (hfrom : ¬FromStart startTime samp)
      (hrest : Fills opts startTime name unread (some samp.timeTag)
        (adjusted opts startTime filltime samp) sorter r) :
      Fills opts startTime name (samp :: unread) lastTime filltime sorter r
  | inserted {samp : Sample} {unread : List Sample} {lastTime filltime : Option ℤ}
      {sorter : List Sample} {r : Filling} (hbefore : isBefore lastTime filltime = true)
      (hselects : opts.selects name samp = true) (hfrom : FromStart startTime samp)
      (hrest : Fills opts startTime name unread (some samp.timeTag)
        (adjusted opts startTime filltime samp) (insertUnique fullLess samp sorter) r) :
      Fills opts startTime name (samp :: unread) lastTime filltime sorter r

theorem fills (opts : Options) (startTime : Option ℤ) (name : List Char) (unread : List Sample) :
    ∀ (lastTime filltime : Option ℤ) (sorter : List Sample),
      Fills opts startTime name unread lastTime filltime sorter
        (fillInput opts startTime name unread lastTime filltime sorter) := by
  induction unread with
  | nil => intro lastTime filltime sorter; exact .atEnd lastTime filltime sorter
  | cons samp unread ih =>
      intro lastTime filltime sorter
      unfold fillInput
      split
      · next hbefore =>
          split
          · next hselects =>
              dsimp only
              split
              · next hdrop =>
                  apply Fills.dropped hbefore hselects _ (ih _ _ _)
                  intro hfrom
                  obtain ⟨start, hstart, hlt⟩ := hdrop
                  exact absurd (hfrom start hstart) (not_le.mpr hlt)
              · next hkeep =>
                  apply Fills.inserted hbefore hselects _ (ih _ _ _)
                  intro start hstart
                  by_contra hlt
                  exact hkeep ⟨start, hstart, not_le.mp hlt⟩
          · next hselects =>
              exact .excluded hbefore (Bool.eq_false_iff.mpr hselects) (ih _ _ _)
      · next hfilled => exact .filled _ _ _ _ (Bool.eq_false_iff.mpr hfilled)

namespace Fills

variable {r : Filling}

theorem suffix (h : Fills opts startTime name unread lastTime filltime sorter r) :
    r.unread <:+ unread := by
  induction h with
  | atEnd => exact List.suffix_refl _
  | filled => exact List.suffix_refl _
  | excluded _ _ _ ih => exact ih.trans (List.suffix_cons _ _)
  | dropped _ _ _ _ ih => exact ih.trans (List.suffix_cons _ _)
  | inserted _ _ _ _ ih => exact ih.trans (List.suffix_cons _ _)

theorem ended (h : Fills opts startTime name unread lastTime filltime sorter r)
    (heof : r.eof = true) : r.unread = [] := by
  induction h with
  | atEnd => rfl
  | filled => cases heof
  | excluded _ _ _ ih => exact ih heof
  | dropped _ _ _ _ ih => exact ih heof
  | inserted _ _ _ _ ih => exact ih heof

/-- An input that is not at its end has been read up to the fill time. -/
theorem reached (h : Fills opts startTime name unread lastTime filltime sorter r)
    (heof : r.eof = false) : isBefore r.lastTime r.filltime = false := by
  induction h with
  | atEnd => exact heof
  | filled _ _ _ _ hfilled => exact hfilled
  | excluded _ _ _ ih => exact ih heof
  | dropped _ _ _ _ ih => exact ih heof
  | inserted _ _ _ _ ih => exact ih heof

/-- The last time is the old one, or that of a selected sample. -/
theorem lastTime_of {P : ℤ → Prop}
    (h : Fills opts startTime name unread lastTime filltime sorter r)
    (hlast : ∀ time ∈ lastTime, P time)
    (hunread : ∀ x ∈ unread, opts.selects name x = true → P x.timeTag) :
    ∀ time ∈ r.lastTime, P time := by
  induction h with
  | atEnd => exact hlast
  | filled => exact hlast
  | excluded _ _ _ ih => exact ih hlast fun x hx => hunread x (List.mem_cons_of_mem _ hx)
  | @dropped samp _ _ _ _ _ _ hselects _ _ ih =>
      apply ih _ fun x hx => hunread x (List.mem_cons_of_mem _ hx)
      rintro time ⟨⟩
      exact hunread samp List.mem_cons_self hselects
  | @inserted samp _ _ _ _ _ _ hselects _ _ ih =>
      apply ih _ fun x hx => hunread x (List.mem_cons_of_mem _ hx)
      rintro time ⟨⟩
      exact hunread samp List.mem_cons_self hselects

/-- The times to come are bounded by the last time. -/
theorem last (h : Fills opts startTime name unread lastTime filltime sorter r)
    (hsteady : Steady opts.readAheadUsecs unread)
    (hlast : ∀ time ∈ lastTime, ∀ x ∈ unread, time - opts.readAheadUsecs ≤ x.timeTag) :
    ∀ time ∈ r.lastTime, ∀ x ∈ r.unread, time - opts.readAheadUsecs ≤ x.timeTag := by
  induction h with
  | atEnd => exact hlast
  | filled => exact hlast
  | excluded _ _ _ ih =>
      exact ih (List.pairwise_cons.mp hsteady).2 fun time htime x hx =>
        hlast time htime x (List.mem_cons_of_mem _ hx)
  | dropped _ _ _ _ ih =>
      apply ih (List.pairwise_cons.mp hsteady).2
      rintro time ⟨⟩
      exact (List.pairwise_cons.mp hsteady).1
  | inserted _ _ _ _ ih =>
      apply ih (List.pairwise_cons.mp hsteady).2
      rintro time ⟨⟩
      exact (List.pairwise_cons.mp hsteady).1

theorem keysGoUp (h : Fills opts startTime name unread lastTime filltime sorter r)
    (hsorter : KeysGoUp sortKey sorter) : KeysGoUp sortKey r.sorter := by
  induction h with
  | atEnd => exact hsorter
  | filled => exact hsorter
  | excluded _ _ _ ih => exact ih hsorter
  | dropped _ _ _ _ ih => exact ih hsorter
  | inserted _ _ _ _ ih => exact ih (hsorter.insertUnique fullLess_iff)

/-- What is in the sorter was there, or has been read. -/
theorem sorter_of {P : Sample → Prop}
    (h : Fills opts startTime name unread lastTime filltime sorter r)
    (hsorter : ∀ x ∈ sorter, P x)
    (hunread : ∀ x ∈ unread, opts.selects name x = true → FromStart startTime x → P x) :
    ∀ x ∈ r.sorter, P x := by
  induction h with
  | atEnd => exact hsorter
  | filled => exact hsorter
  | excluded _ _ _ ih => exact ih hsorter fun x hx => hunread x (List.mem_cons_of_mem _ hx)
  | dropped _ _ _ _ ih => exact ih hsorter fun x hx => hunread x (List.mem_cons_of_mem _ hx)
  | @inserted samp _ _ _ _ _ _ hselects hfrom _ ih =>
      apply ih _ fun x hx => hunread x (List.mem_cons_of_mem _ hx)
      intro x hx
      rcases mem_of_mem_insertUnique hx with rfl | hmem
      · exact hunread x List.mem_cons_self hselects hfrom
      · exact hsorter x hmem

theorem subset (h : Fills opts startTime name unread lastTime filltime sorter r) :
    sorter ⊆ r.sorter := by
  induction h with
  | atEnd => exact List.Subset.refl _
  | filled => exact List.Subset.refl _
  | excluded _ _ _ ih => exact ih
  | dropped _ _ _ _ ih => exact ih
  | inserted _ _ _ _ ih => exact fun x hx => ih (mem_insertUnique_of_mem hx)

/-- A selected sample is still to be read, or in front of the start, or its key is in the sorter. -/
theorem covers (h : Fills opts startTime name unread lastTime filltime sorter r)
    (hx : x ∈ unread) (hselects : opts.selects name x = true) (hfrom : FromStart startTime x) :
    x ∈ r.unread ∨ HasKey r.sorter x := by
  induction h with
  | atEnd => cases hx
  | filled => exact .inl hx
  | excluded _ hexcluded _ ih =>
      rcases List.mem_cons.mp hx with rfl | hrest
      · rw [hselects] at hexcluded
        cases hexcluded
      · exact ih hrest
  | dropped _ _ hnot _ ih =>
      rcases List.mem_cons.mp hx with rfl | hrest
      · exact absurd hfrom hnot
      · exact ih hrest
  | inserted _ _ _ hfills ih =>
      rcases List.mem_cons.mp hx with rfl | hrest
      · exact .inr (HasKey.mono (exists_key_insertUnique fullLess_iff) hfills.subset)
      · exact ih hrest

theorem filltime_of_some (h : Fills opts startTime name unread lastTime filltime sorter r)
    (hstart : startTime ≠ none) : r.filltime = filltime := by
  have hadjusted : ∀ filltime samp, adjusted opts startTime filltime samp = filltime :=
    fun _ _ => if_neg fun h => hstart h.1
  induction h with
  | atEnd => rfl
  | filled => rfl
  | excluded _ _ _ ih => exact ih
  | dropped _ _ _ _ ih => exact ih.trans (hadjusted _ _)
  | inserted _ _ _ _ ih => exact ih.trans (hadjusted _ _)

theorem leTop (h : Fills opts startTime name unread lastTime filltime sorter r) :
    LeTop r.filltime filltime := by
  induction h with
  | atEnd => exact LeTop.refl _
  | filled => exact LeTop.refl _
  | excluded _ _ _ ih => exact ih
  | dropped _ _ _ _ ih => exact ih.trans leTop_adjusted
  | inserted _ _ _ _ ih => exact ih.trans leTop_adjusted

/-- Without a start time, the fill time is not above that of any sample that has been read. -/
theorem filltime_le (h : Fills opts startTime name unread lastTime filltime sorter r)
    (hstart : startTime = none) (hx : x ∈ unread) (hselects : opts.selects name x = true) :
    x ∈ r.unread ∨ LeTop r.filltime (some (x.timeTag + opts.readAheadUsecs)) := by
  induction h with
  | atEnd => cases hx
  | filled => exact .inl hx
  | excluded _ hexcluded _ ih =>
      rcases List.mem_cons.mp hx with rfl | hrest
      · rw [hselects] at hexcluded
        cases hexcluded
      · exact ih hrest
  | dropped _ _ _ hfills ih =>
      rcases List.mem_cons.mp hx with rfl | hrest
      · exact .inr (hfills.leTop.trans (adjusted_le hstart))
      · exact ih hrest
  | inserted _ _ _ hfills ih =>
      rcases List.mem_cons.mp hx with rfl | hrest
      · exact .inr (hfills.leTop.trans (adjusted_le hstart))
      · exact ih hrest

/-- The fill time is the old one, or that of a sample. -/
theorem filltime_of {P : Option ℤ → Prop}
    (h : Fills opts startTime name unread lastTime filltime sorter r) (hfilltime : P filltime)
    (hunread : ∀ x ∈ unread, opts.selects name x = true →
      P (some (x.timeTag + opts.readAheadUsecs))) : P r.filltime := by
  have hadjusted : ∀ filltime samp, P filltime → P (some (samp.timeTag + opts.readAheadUsecs)) →
      P (adjusted opts startTime filltime samp) := by
    intro filltime samp hold hsamp
    unfold adjusted
    split
    · exact hsamp
    · exact hold
  induction h with
  | atEnd => exact hfilltime
  | filled => exact hfilltime
  | excluded _ _ _ ih => exact ih hfilltime fun x hx => hunread x (List.mem_cons_of_mem _ hx)
  | @dropped samp _ _ _ _ _ _ hselects _ _ ih =>
      exact ih (hadjusted _ _ hfilltime (hunread samp List.mem_cons_self hselects))
        fun x hx => hunread x (List.mem_cons_of_mem _ hx)
  | @inserted samp _ _ _ _ _ _ hselects _ _ ih =>
      exact ih (hadjusted _ _ hfilltime (hunread samp List.mem_cons_self hselects))
        fun x hx => hunread x (List.mem_cons_of_mem _ hx)

/-- What no sample changes holds of the fill time afterwards. -/
theorem filltime_keeps {P : Option ℤ → Prop}
    (h : Fills opts startTime name unread lastTime filltime sorter r) (hfilltime : P filltime)
    (hkeeps : ∀ filltime samp, P filltime → P (adjusted opts startTime filltime samp)) :
    P r.filltime := by
  induction h with
  | atEnd => exact hfilltime
  | filled => exact hfilltime
  | excluded _ _ _ ih => exact ih hfilltime
  | dropped _ _ _ _ ih => exact ih (hkeeps _ _ hfilltime)
  | inserted _ _ _ _ ih => exact ih (hkeeps _ _ hfilltime)

/-- When an input has been read to its end, the fill time was above each of its samples. -/
theorem isBefore_of_ended {P : Option ℤ → Prop}
    (h : Fills opts startTime name unread lastTime filltime sorter r) (heof : r.eof = true)
    (hfilltime : P filltime)
    (hkeeps : ∀ filltime samp, P filltime → P (adjusted opts startTime filltime samp))
    (hx : x ∈ unread) (hselects : opts.selects name x = true) :
    ∃ filltime, P filltime ∧
      isBefore (some x.timeTag) (adjusted opts startTime filltime x) = true := by
  have hnext : ∀ {unread time filltime sorter r},
      Fills opts startTime name unread (some time) filltime sorter r → r.eof = true →
        isBefore (some time) filltime = true := by
    intro unread time filltime sorter r hfills hended
    cases hfills with
    | atEnd => exact hended
    | filled => cases hended
    | excluded hbefore => exact hbefore
    | dropped hbefore => exact hbefore
    | inserted hbefore => exact hbefore
  induction h with
  | atEnd => cases hx
  | filled => cases heof
  | excluded _ hexcluded _ ih =>
      rcases List.mem_cons.mp hx with rfl | hrest
      · rw [hselects] at hexcluded
        cases hexcluded
      · exact ih heof hfilltime hrest
  | dropped _ _ _ hfills ih =>
      rcases List.mem_cons.mp hx with rfl | hrest
      · exact ⟨_, hfilltime, hnext hfills heof⟩
      · exact ih heof (hkeeps _ _ hfilltime) hrest
  | inserted _ _ _ hfills ih =>
      rcases List.mem_cons.mp hx with rfl | hrest
      · exact ⟨_, hfilltime, hnext hfills heof⟩
      · exact ih heof (hkeeps _ _ hfilltime) hrest

end Fills

/-! ## All inputs -/

/-- The inputs are filled one after the other, but for those at their ends. -/
inductive FillsAll (opts : Options) (startTime : Option ℤ) :
    List InputInfo → Option ℤ → List Sample → List InputInfo × Option ℤ × List Sample → Prop
  | nil (filltime : Option ℤ) (sorter : List Sample) :
      FillsAll opts startTime [] filltime sorter ([], filltime, sorter)
  | skipped {input : InputInfo} {inputs : List InputInfo} {filltime : Option ℤ}
      {sorter : List Sample} {r : List InputInfo × Option ℤ × List Sample} (heof : input.eof = true)
      (hrest : FillsAll opts startTime inputs filltime sorter r) :
      FillsAll opts startTime (input :: inputs) filltime sorter (input :: r.1, r.2)
  | filled {input : InputInfo} {inputs : List InputInfo} {filltime : Option ℤ}
      {sorter : List Sample} {filling : Filling} {r : List InputInfo × Option ℤ × List Sample}
      (heof : input.eof = false)
      (hfills : Fills opts startTime input.name input.unread input.lastTime filltime sorter filling)
      (hrest : FillsAll opts startTime inputs filling.filltime filling.sorter r) :
      FillsAll opts startTime (input :: inputs) filltime sorter
        (⟨input.name, filling.unread, filling.lastTime, filling.eof⟩ :: r.1, r.2)

theorem fillsAll (opts : Options) (startTime : Option ℤ) (inputs : List InputInfo) :
    ∀ (filltime : Option ℤ) (sorter : List Sample),
      FillsAll opts startTime inputs filltime sorter
        (fillInputs opts startTime inputs filltime sorter) := by
  induction inputs with
  | nil => intro filltime sorter; exact .nil filltime sorter
  | cons input inputs ih =>
      intro filltime sorter
      unfold fillInputs
      split
      · next heof => exact .skipped heof (ih _ _)
      · next heof =>
          exact .filled (Bool.eq_false_iff.mpr heof) (fills opts startTime _ _ _ _ _) (ih _ _)

theorem pending_cons_iff {input : InputInfo} : Pending opts (input :: inputs) x ↔
    (x ∈ input.unread ∧ opts.selects input.name x = true) ∨ Pending opts inputs x := by
  simp [Pending]

namespace FillsAll

variable {r : List InputInfo × Option ℤ × List Sample}

theorem pending (h : FillsAll opts startTime inputs filltime sorter r) (hx : Pending opts r.1 x) :
    Pending opts inputs x := by
  induction h with
  | nil => exact hx
  | skipped _ _ ih => exact pending_cons_iff.mpr ((pending_cons_iff.mp hx).imp_right ih)
  | filled _ hfills _ ih =>
      apply pending_cons_iff.mpr
      rcases pending_cons_iff.mp hx with ⟨hmem, hselects⟩ | hrest
      · exact .inl ⟨hfills.suffix.subset hmem, hselects⟩
      · exact .inr (ih hrest)

theorem inputOk {bound : ℤ} (h : FillsAll opts startTime inputs filltime sorter r)
    (hinputs : ∀ input ∈ inputs, InputOk opts bound input) :
    ∀ input ∈ r.1, InputOk opts bound input := by
  induction h with
  | nil => exact hinputs
  | skipped _ _ ih =>
      intro input hinput
      rcases List.mem_cons.mp hinput with rfl | hrest
      · exact hinputs input List.mem_cons_self
      · exact ih (fun other hother => hinputs other (List.mem_cons_of_mem _ hother)) input hrest
  | @filled old _ _ _ _ _ _ hfills _ ih =>
      intro input hinput
      rcases List.mem_cons.mp hinput with rfl | hrest
      · have hold := hinputs old List.mem_cons_self
        constructor
        · exact hold.steady.sublist hfills.suffix.sublist
        · exact hfills.last hold.steady hold.last
        · exact hfills.lastTime_of hold.last_le fun x hx _ => hold.le x hx
        · exact fun x hx => hold.le x (hfills.suffix.subset hx)
        · exact hfills.ended
      · exact ih (fun other hother => hinputs other (List.mem_cons_of_mem _ hother)) input hrest

theorem leTop (h : FillsAll opts startTime inputs filltime sorter r) : LeTop r.2.1 filltime := by
  induction h with
  | nil => exact LeTop.refl _
  | skipped _ _ ih => exact ih
  | filled _ hfills _ ih => exact ih.trans hfills.leTop

/-- All inputs are at their ends, or have been read up to the fill time. -/
theorem reached (h : FillsAll opts startTime inputs filltime sorter r) :
    ∀ input ∈ r.1, input.eof = true ∨ isBefore input.lastTime r.2.1 = false := by
  induction h with
  | nil => intro input hinput; cases hinput
  | skipped heof _ ih =>
      intro input hinput
      rcases List.mem_cons.mp hinput with rfl | hrest
      · exact .inl heof
      · exact ih input hrest
  | @filled _ _ _ _ filling _ _ hfills hall ih =>
      intro input hinput
      rcases List.mem_cons.mp hinput with rfl | hrest
      · dsimp only
        cases heof : filling.eof with
        | true => exact .inl rfl
        | false => exact .inr (isBefore_eq_false_mono (hfills.reached heof) hall.leTop)
      · exact ih input hrest

theorem keysGoUp (h : FillsAll opts startTime inputs filltime sorter r)
    (hsorter : KeysGoUp sortKey sorter) : KeysGoUp sortKey r.2.2 := by
  induction h with
  | nil => exact hsorter
  | skipped _ _ ih => exact ih hsorter
  | filled _ hfills _ ih => exact ih (hfills.keysGoUp hsorter)

theorem sorter_of {P : Sample → Prop} (h : FillsAll opts startTime inputs filltime sorter r)
    (hsorter : ∀ x ∈ sorter, P x)
    (hpending : ∀ x, Pending opts inputs x → FromStart startTime x → P x) :
    ∀ x ∈ r.2.2, P x := by
  induction h with
  | nil => exact hsorter
  | skipped _ _ ih => exact ih hsorter fun x hx => hpending x (pending_cons_iff.mpr (.inr hx))
  | filled _ hfills _ ih =>
      apply ih _ fun x hx => hpending x (pending_cons_iff.mpr (.inr hx))
      exact hfills.sorter_of hsorter fun x hx hselects =>
        hpending x (pending_cons_iff.mpr (.inl ⟨hx, hselects⟩))

theorem subset (h : FillsAll opts startTime inputs filltime sorter r) : sorter ⊆ r.2.2 := by
  induction h with
  | nil => exact List.Subset.refl _
  | skipped _ _ ih => exact ih
  | filled _ hfills _ ih => exact fun x hx => ih (hfills.subset hx)

/-- What was to be read still is, or its key is in the sorter. -/
theorem covers (h : FillsAll opts startTime inputs filltime sorter r)
    (hx : Pending opts inputs x) (hfrom : FromStart startTime x) :
    Pending opts r.1 x ∨ HasKey r.2.2 x := by
  induction h with
  | nil => exact .inl hx
  | skipped _ _ ih =>
      rcases pending_cons_iff.mp hx with hfirst | hrest
      · exact .inl (pending_cons_iff.mpr (.inl hfirst))
      · exact (ih hrest).imp_left fun hpending => pending_cons_iff.mpr (.inr hpending)
  | filled _ hfills hall ih =>
      rcases pending_cons_iff.mp hx with ⟨hmem, hselects⟩ | hrest
      · rcases hfills.covers hmem hselects hfrom with hunread | hkey
        · exact .inl (pending_cons_iff.mpr (.inl ⟨hunread, hselects⟩))
        · exact .inr (hkey.mono hall.subset)
      · exact (ih hrest).imp_left fun hpending => pending_cons_iff.mpr (.inr hpending)

theorem filltime_of_some (h : FillsAll opts startTime inputs filltime sorter r)
    (hstart : startTime ≠ none) : r.2.1 = filltime := by
  induction h with
  | nil => rfl
  | skipped _ _ ih => exact ih
  | filled _ hfills _ ih => exact ih.trans (hfills.filltime_of_some hstart)

theorem filltime_le (h : FillsAll opts startTime inputs filltime sorter r)
    (hstart : startTime = none) (hx : Pending opts inputs x) :
    Pending opts r.1 x ∨ LeTop r.2.1 (some (x.timeTag + opts.readAheadUsecs)) := by
  induction h with
  | nil => exact .inl hx
  | skipped _ _ ih =>
      rcases pending_cons_iff.mp hx with hfirst | hrest
      · exact .inl (pending_cons_iff.mpr (.inl hfirst))
      · exact (ih hrest).imp_left fun hpending => pending_cons_iff.mpr (.inr hpending)
  | filled _ hfills hall ih =>
      rcases pending_cons_iff.mp hx with ⟨hmem, hselects⟩ | hrest
      · rcases hfills.filltime_le hstart hmem hselects with hunread | hle
        · exact .inl (pending_cons_iff.mpr (.inl ⟨hunread, hselects⟩))
        · exact .inr (hall.leTop.trans hle)
      · exact (ih hrest).imp_left fun hpending => pending_cons_iff.mpr (.inr hpending)

theorem filltime_of {P : Option ℤ → Prop} (h : FillsAll opts startTime inputs filltime sorter r)
    (hfilltime : P filltime)
    (hpending : ∀ x, Pending opts inputs x → P (some (x.timeTag + opts.readAheadUsecs))) :
    P r.2.1 := by
  induction h with
  | nil => exact hfilltime
  | skipped _ _ ih => exact ih hfilltime fun x hx => hpending x (pending_cons_iff.mpr (.inr hx))
  | filled _ hfills _ ih =>
      apply ih _ fun x hx => hpending x (pending_cons_iff.mpr (.inr hx))
      exact hfills.filltime_of hfilltime fun x hx hselects =>
        hpending x (pending_cons_iff.mpr (.inl ⟨hx, hselects⟩))

/-- The last times are the old ones, or those of selected samples. -/
theorem lastTime_of {P : ℤ → Prop} (h : FillsAll opts startTime inputs filltime sorter r)
    (hlast : ∀ input ∈ inputs, ∀ time ∈ input.lastTime, P time)
    (hpending : ∀ x, Pending opts inputs x → P x.timeTag) :
    ∀ input ∈ r.1, ∀ time ∈ input.lastTime, P time := by
  induction h with
  | nil => exact hlast
  | @skipped old _ _ _ _ _ _ ih =>
      intro input hinput
      rcases List.mem_cons.mp hinput with rfl | hrest
      · exact hlast _ List.mem_cons_self
      · exact ih (fun other hother => hlast other (List.mem_cons_of_mem _ hother))
          (fun x hx => hpending x (pending_cons_iff.mpr (.inr hx))) input hrest
  | @filled old _ _ _ _ _ _ hfills _ ih =>
      intro input hinput
      rcases List.mem_cons.mp hinput with rfl | hrest
      · exact hfills.lastTime_of (hlast old List.mem_cons_self) fun x hx hselects =>
          hpending x (pending_cons_iff.mpr (.inl ⟨hx, hselects⟩))
      · exact ih (fun other hother => hlast other (List.mem_cons_of_mem _ hother))
          (fun x hx => hpending x (pending_cons_iff.mpr (.inr hx))) input hrest

/-- When all inputs have been read to their ends, the fill time was above each sample. -/
theorem isBefore_of_ended {P : Option ℤ → Prop}
    (h : FillsAll opts startTime inputs filltime sorter r)
    (hended : ∀ input ∈ r.1, input.eof = true)
    (hinputs : ∀ input ∈ inputs, input.eof = true → input.unread = []) (hfilltime : P filltime)
    (hkeeps : ∀ filltime samp, P filltime → P (adjusted opts startTime filltime samp))
    (hx : Pending opts inputs x) :
    ∃ filltime, P filltime ∧
      isBefore (some x.timeTag) (adjusted opts startTime filltime x) = true := by
  induction h with
  | nil =>
      obtain ⟨input, hinput, -⟩ := hx
      cases hinput
  | skipped heof _ ih =>
      rcases pending_cons_iff.mp hx with ⟨hmem, -⟩ | hrest
      · rw [hinputs _ List.mem_cons_self heof] at hmem
        cases hmem
      · exact ih (fun input hinput => hended input (List.mem_cons_of_mem _ hinput))
          (fun input hinput => hinputs input (List.mem_cons_of_mem _ hinput)) hfilltime hrest
  | filled _ hfills _ ih =>
      rcases pending_cons_iff.mp hx with ⟨hmem, hselects⟩ | hrest
      · exact hfills.isBefore_of_ended (hended _ List.mem_cons_self) hfilltime hkeeps hmem hselects
      · exact ih (fun input hinput => hended input (List.mem_cons_of_mem _ hinput))
          (fun input hinput => hinputs input (List.mem_cons_of_mem _ hinput))
          (hfills.filltime_keeps hfilltime hkeeps) hrest

end FillsAll

end Nidas.Apps.NidsMerge
