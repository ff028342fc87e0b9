import Nidas.Lib.Separator
import Nidas.Core.SampleScanner

/-!
# Framing by a separator at the end of the message

`nextSampleSepEOM` is the matcher of `Lib/Separator.lean` with the fallback
`eomFallback`, whatever the buffers are (`scanBuffer_eom`).  The fallback knows
two kinds of overlap: a run of the first character, and a doubled first half.
`SeparatorSafe` says that the separator has no overlap of another kind, and it
is exactly what makes the scanner cut at every occurrence
(`nextSampleSepEOM_cuts_iff`).
-/

namespace Nidas.Core

open Lib

/-! ## The fallback -/

/-- Every overlap of the separator with itself that a mismatch could fall back
to is of one of the two kinds that the scanner looks for: the matched part is a
run of one character, or it is a doubled sequence and the overlap is no longer
than that sequence.  An overlap that would only show in a message of the maximum
size is left out. -/
def SeparatorSafe (separator : List UInt8) : Prop :=
  ∀ k j, 0 < j → j < k → k < separator.length → separator.take j <:+ separator.take k →
    separator[j]? ≠ separator[k]? →
    separator.length + (k - j) < maxMessageStreamSampleSize →
    (∀ i < k, separator[i]? = separator[0]?) ∨
      (k % 2 = 0 ∧ separator.take (k / 2) = (separator.drop (k / 2)).take (k / 2) ∧
        j ≤ k / 2 ∧ separator[k / 2]? = separator[j]?)

variable {separator : List UInt8}

/-- The comparison of the separator with itself shifted by one finds the runs of
one character. -/
theorem take_eq_take_drop_one_iff {k : ℕ} :
    separator.take (k - 1) = (separator.drop 1).take (k - 1) ↔
      ∀ i < k, separator[i]? = separator[0]? := by
  constructor
  · intro heq i
    induction i with
    | zero => intro _; rfl
    | succ i ih =>
        intro hi
        have hget := congrArg (fun bytes => bytes[i]?) heq
        simp only [List.getElem?_take, List.getElem?_drop, if_pos (show i < k - 1 by omega)]
          at hget
        rw [← ih (by omega), hget, Nat.add_comm 1 i]
  · intro hrun
    apply List.ext_getElem?
    intro i
    simp only [List.getElem?_take, List.getElem?_drop]
    split
    · rw [hrun i (by omega), hrun (1 + i) (by omega)]
    · rfl

theorem take_half_suffix {k : ℕ} (heven : k % 2 = 0)
    (hdouble : separator.take (k / 2) = (separator.drop (k / 2)).take (k / 2)) :
    separator.take (k / 2) <:+ separator.take k := by
  have hsplit : separator.take k =
      separator.take (k / 2) ++ (separator.drop (k / 2)).take (k / 2) := by
    rw [← List.take_add]
    congr 1
    omega
  rw [hsplit, ← hdouble]
  exact List.suffix_append _ _

/-- The scanner never counts characters that are not there. -/
theorem eomFallback_sound : FallSound separator (eomFallback separator) := by
  intro k c hk _
  simp only [eomFallback]
  split_ifs with hpos hrun hdouble hfirst
  · -- a run of the first character, continued
    obtain ⟨hlong, hsame, hlast⟩ := hrun
    refine ⟨le_refl k, ?_⟩
    have hpred : k - 1 + 1 = k := by omega
    rw [← hpred, take_succ_suffix_concat_iff (by omega)]
    refine ⟨?_, hlast⟩
    have hcons : separator.take (k - 1 + 1) =
        separator.take 1 ++ (separator.drop 1).take (k - 1) := by
      rw [← List.take_add, Nat.add_comm]
    rw [hcons, ← hsame]
    exact List.suffix_append _ _
  · -- a doubled sequence
    obtain ⟨heven, hhalf, hnext⟩ := hdouble
    exact ⟨by omega, (take_succ_suffix_concat_iff (by omega)).mpr
      ⟨take_half_suffix heven hhalf, hnext⟩⟩
  · have hzero : 0 < separator.length := by omega
    exact ⟨by omega, (take_succ_suffix_concat_iff hzero).mpr ⟨by simp, hfirst⟩⟩
  · exact ⟨by omega, by simp⟩
  · exact ⟨le_refl k, by simp [show k = 0 by omega]⟩

/-- The fallback keeps every overlap exactly when the separator is safe. -/
theorem eomFallback_complete_iff :
    FallComplete maxMessageStreamSampleSize separator (eomFallback separator) ↔
      SeparatorSafe separator := by
  constructor
  · intro hcomplete k j hj hjk hk hborder hdiffer hbound
    have hget : separator[j]? = some separator[j] := List.getElem?_eq_getElem (by omega)
    have hle := hcomplete k j separator[j] hjk hk hborder hget
      (by rw [← hget]; exact hdiffer.symm) hbound
    simp only [eomFallback] at hle
    split_ifs at hle with hpos hrun hdouble
    · exact Or.inl (take_eq_take_drop_one_iff.mp hrun.2.1)
    · exact Or.inr ⟨hdouble.1, hdouble.2.1, by omega, by rw [hdouble.2.2, hget]⟩
    all_goals omega
  · intro hsafe k j c hjk hk hborder hget hmiss hbound
    simp only [eomFallback]
    rw [if_pos (by omega)]
    rcases Nat.eq_zero_or_pos j with rfl | hj
    · -- the mismatching character starts the separator
      rw [if_pos hget]
      split_ifs <;> omega
    rcases hsafe k j hj hjk hk hborder (by rw [hget]; exact hmiss.symm) hbound with
      hall | ⟨heven, hhalf, hle, hnext⟩
    · have hlast : separator[k - 1]? = some c := by
        rw [hall (k - 1) (by omega), ← hall j hjk, hget]
      rw [if_pos ⟨by omega, take_eq_take_drop_one_iff.mpr hall, hlast⟩]
      omega
    · rw [if_pos (show _ ∧ _ ∧ _ from ⟨heven, hhalf, by rw [hnext, hget]⟩)]
      split_ifs <;> omega

/-! ## The scanner is the matcher -/

variable {env : ScanEnv} {params : MessageParameters}

/-- The matcher that the scanner runs. -/
abbrev eomMatcher (separator : List UInt8) : Collector (List UInt8 × ℕ) UInt8 :=
  matcher separator (eomFallback separator)

/-- The sample under construction holds what the matcher has collected, and the
counters agree. -/
def EomRelated (params : MessageParameters) (state : ScanState)
    (matching : List UInt8 × ℕ) : Prop :=
  matching.2 < params.separator.length ∧
    match state.osamp with
    | none => matching = ([], 0)
    | some osamp => matching = (osamp.data, state.separatorCnt)

/-- What a call of `nextSampleSepEOM` on `bytes` did, in terms of the matcher:
either there was no complete message, or the first one was handed on and the
rest of the buffer is still there. -/
inductive EomCall (params : MessageParameters) (matching : List UInt8 × ℕ)
    (bytes : List UInt8) : Option Sample × ScanState → Prop where
  | empty {after : ScanState} (hbytes : after.bytes = [])
      (hout : ((eomMatcher params.separator).run matching bytes).2 = [])
      (hrelated : EomRelated params after ((eomMatcher params.separator).run matching bytes).1) :
      EomCall params matching bytes (none, after)
  | sample {result : Sample} {after : ScanState} {piece : List UInt8}
      (hdata : result.data = params.terminate piece) (hosamp : after.osamp = none)
      (hshorter : after.bytes.length < bytes.length)
      (hbelow : PiecesBelow maxMessageStreamSampleSize (eomMatcher params.separator)
        ([], 0) after.bytes)
      (hrun : (eomMatcher params.separator).run matching bytes =
        (((eomMatcher params.separator).run ([], 0) after.bytes).1,
          piece :: ((eomMatcher params.separator).run ([], 0) after.bytes).2)) :
      EomCall params matching bytes (some result, after)

/-- A call that only moved on in the buffer. -/
theorem EomCall.cons {matching next : List UInt8 × ℕ} {c : UInt8} {rest : List UInt8}
    {outcome : Option Sample × ScanState}
    (hstep : (eomMatcher params.separator).step matching c = (next, []))
    (hcall : EomCall params next rest outcome) : EomCall params matching (c :: rest) outcome := by
  have hrun : (eomMatcher params.separator).run matching (c :: rest) =
      (eomMatcher params.separator).run next rest := by
    rw [Transducer.run_cons, hstep]
    rfl
  cases hcall with
  | empty hbytes hout hrelated => exact .empty hbytes (hrun ▸ hout) (hrun ▸ hrelated)
  | sample hdata hosamp hshorter hbelow hfirst =>
      exact .sample hdata hosamp (hshorter.trans (Nat.lt_succ_self _)) hbelow (hrun ▸ hfirst)

theorem eomLoop_spec :
    ∀ (bytes : List UInt8) (osamp : OutSample) (state : ScanState) (matching : List UInt8 × ℕ),
      matching = (osamp.data, state.separatorCnt) → matching.2 < params.separator.length →
      PiecesBelow maxMessageStreamSampleSize (eomMatcher params.separator) matching bytes →
      EomCall params matching bytes (eomLoop env params bytes osamp state) := by
  intro bytes
  induction bytes with
  | nil =>
      rintro osamp state _ rfl hcnt _
      exact .empty rfl rfl ⟨hcnt, rfl⟩
  | cons c rest ih =>
      rintro osamp state _ rfl hcnt hbelow
      have hlength : osamp.data.length + 1 < maxMessageStreamSampleSize := hbelow.succ_length_lt
      have hnterm := nterm_le_one params
      have hle : osamp.data.length + (1 + params.nterm) ≤ maxMessageStreamSampleSize := by omega
      obtain ⟨alloc, calls, hroom⟩ :=
        @checkRoom_of_le env params _ _ { state with bytes := c :: rest } hle
      have hnext := hbelow.of_cons
      rw [eomLoop, hroom]
      dsimp only
      by_cases hmatch : params.separator[state.separatorCnt]? = some c
      · rw [if_pos hmatch]
        by_cases hlast : state.separatorCnt + 1 = params.separator.length
        · -- the separator is complete
          have hstep := @matcher_step_of_last _ _ _ (eomFallback params.separator) osamp.data _ _
            hmatch hlast
          rw [if_pos hlast]
          rw [hstep] at hnext
          refine .sample rfl ?_ ?_ ?_ ?_
          · simp [shipSample, handOn]
          · simp [shipSample, handOn]
          · simpa [shipSample, handOn] using hnext
          · rw [Transducer.run_cons, hstep]
            simp [shipSample, handOn]
        · have hstep := @matcher_step_of_match _ _ _ (eomFallback params.separator) osamp.data _ _
            hmatch hlast
          rw [if_neg hlast]
          rw [hstep] at hnext
          have hcnt' : state.separatorCnt + 1 < params.separator.length := by
            dsimp only at hcnt
            omega
          exact .cons hstep (ih _ _ _ rfl hcnt' hnext)
      · have hstep := @matcher_step_of_miss _ _ _ (eomFallback params.separator) osamp.data _ _
          hmatch
        have hfall := (eomFallback_sound _ _ hcnt hmatch).1
        rw [if_neg hmatch]
        rw [hstep] at hnext
        exact .cons hstep (ih _ _ _ rfl (hfall.trans_lt hcnt) hnext)

/-- One call of `nextSampleSepEOM` for messages of any length. -/
theorem nextSampleSepEOM_spec (hlen : params.messageLength = 0) {state : ScanState}
    {matching : List UInt8 × ℕ} (hrelated : EomRelated params state matching)
    (hbelow : PiecesBelow maxMessageStreamSampleSize (eomMatcher params.separator) matching
      state.bytes) :
    EomCall params matching state.bytes (nextSampleSepEOM env params state) := by
  have hbody : ∀ (osamp : OutSample) (state : ScanState),
      eomBody env params osamp state = eomLoop env params state.bytes osamp state := by
    intro osamp state
    simp [eomBody, hlen]
  obtain ⟨hcnt, hmatching⟩ := hrelated
  unfold nextSampleSepEOM
  cases hosamp : state.osamp with
  | some osamp =>
      simp only [hosamp] at hmatching
      subst hmatching
      dsimp only
      rw [hbody]
      exact eomLoop_spec _ _ _ _ rfl hcnt hbelow
  | none =>
      simp only [hosamp] at hmatching
      subst hmatching
      dsimp only
      split
      · rename_i hbytes
        refine .empty hbytes (by rw [hbytes]; rfl) ?_
        rw [hbytes]
        exact ⟨hcnt, by simp [hosamp]⟩
      · obtain ⟨hbytes, hzero, hdata, _⟩ := openSample_spec env state
        rw [hbody, hbytes]
        exact eomLoop_spec _ _ _ _ (by rw [hdata, hzero]) hcnt hbelow

/-- Calling `nextSampleSepEOM` until it returns null hands on the matcher's
pieces, with any number of calls beyond the bytes in the buffer. -/
theorem drain_eom_spec (hlen : params.messageLength = 0) :
    ∀ (fuel : ℕ) (state : ScanState) (matching : List UInt8 × ℕ),
      EomRelated params state matching →
      PiecesBelow maxMessageStreamSampleSize (eomMatcher params.separator) matching state.bytes →
      state.bytes.length < fuel →
      (drain (nextSampleSepEOM env params) fuel state).2.map Sample.data =
          ((eomMatcher params.separator).run matching state.bytes).2.map params.terminate ∧
        EomRelated params (drain (nextSampleSepEOM env params) fuel state).1
          ((eomMatcher params.separator).run matching state.bytes).1 ∧
        (drain (nextSampleSepEOM env params) fuel state).1.bytes = [] := by
  intro fuel
  induction fuel with
  | zero => intro state matching _ _ hfuel; omega
  | succ fuel ih =>
      intro state matching hrelated hbelow hfuel
      have hcall := @nextSampleSepEOM_spec env params hlen state matching hrelated hbelow
      rw [drain]
      cases hnext : nextSampleSepEOM env params state with
      | mk outcome after =>
          rw [hnext] at hcall
          cases hcall with
          | empty hbytes hout hafter => exact ⟨by rw [hout]; rfl, hafter, hbytes⟩
          | sample hdata hosamp hshorter hrest hrun =>
              have hstart : EomRelated params after ([], 0) :=
                ⟨(Nat.zero_le _).trans_lt hrelated.1, by simp [hosamp]⟩
              obtain ⟨houts, hafter, hbytes⟩ := ih after ([], 0) hstart hrest (by omega)
              rw [hrun]
              refine ⟨?_, hafter, hbytes⟩
              dsimp only
              rw [List.map_cons, List.map_cons, houts, hdata]

/-! ## Any sequence of buffers -/

/-- The scanner follows the matcher over the bytes that are still to come. -/
def EomFollows (params : MessageParameters) (future : List UInt8) (state : ScanState)
    (matching : List UInt8 × ℕ) : Prop :=
  EomRelated params state matching ∧ state.bytes = [] ∧
    PiecesBelow maxMessageStreamSampleSize (eomMatcher params.separator) matching future

theorem scanBuffer_eom (hlen : params.messageLength = 0) {bufsize : ℕ} {future : List UInt8}
    {state : ScanState} {matching : List UInt8 × ℕ} {sensor : SensorRead}
    (hfollows : EomFollows params (sensor.bytes ++ future) state matching)
    (hfits : sensor.bytes.length ≤ bufsize) :
    (scanBuffer env (nextSampleSepEOM env params) bufsize state sensor).2.map Sample.data =
        ((eomMatcher params.separator).run matching sensor.bytes).2.map params.terminate ∧
      EomFollows params future
        (scanBuffer env (nextSampleSepEOM env params) bufsize state sensor).1
        ((eomMatcher params.separator).run matching sensor.bytes).1 := by
  obtain ⟨hrelated, hempty, hbelow⟩ := hfollows
  have hbytes : (readBuffer env bufsize sensor state).bytes = sensor.bytes := by
    simp [readBuffer, hempty, List.take_of_length_le hfits]
  have hload : EomRelated params (readBuffer env bufsize sensor state) matching := hrelated
  have hdrain := @drain_eom_spec env params hlen
    (2 * (readBuffer env bufsize sensor state).bytes.length + 2) _ _ hload
    (hbytes ▸ hbelow.of_append_left) (by omega)
  rw [hbytes] at hdrain
  obtain ⟨houts, hafter, hdone⟩ := hdrain
  simp only [scanBuffer, hbytes]
  exact ⟨houts, hafter, hdone, hbelow.of_append⟩

/-- The scanner simulates the matcher. -/
def eomSimulation (env : ScanEnv) (hlen : params.messageLength = 0) (bufsize : ℕ) :
    BlockSimulation ((eomMatcher params.separator).mapOut params.terminate) SensorRead.bytes
      (scanBufferData env (nextSampleSepEOM env params) bufsize) where
  related := EomFollows params
  ok _ _ sensor := sensor.bytes.length ≤ bufsize
  fine _ := True
  fine_of_read _ _ _ := trivial
  read_spec future state matching sensor hfollows hfits _ := by
    rw [Transducer.run_mapOut]
    exact scanBuffer_eom hlen hfollows hfits

/-- Over any sequence of buffers the scanner hands on the pieces of the matcher. -/
theorem scanBuffers_eom (hlen : params.messageLength = 0) (hseparator : params.separator ≠ [])
    {bufsize : ℕ} {reads : List SensorRead} (hfits : ∀ sensor ∈ reads, sensor.bytes.length ≤ bufsize)
    (hbelow : PiecesBelow maxMessageStreamSampleSize (eomMatcher params.separator) ([], 0)
      (reads.flatMap SensorRead.bytes)) :
    (scanBuffers env params (nextSampleSepEOM env params) bufsize reads).2.map Sample.data =
      ((eomMatcher params.separator).run ([], 0)
        (reads.flatMap SensorRead.bytes)).2.map params.terminate := by
  have hstart : EomFollows params (reads.flatMap SensorRead.bytes ++ []) (ScanState.start params)
      ([], 0) :=
    ⟨⟨List.length_pos_iff.mpr hseparator, rfl⟩, rfl, by rwa [List.append_nil]⟩
  have hall := (eomSimulation env hlen bufsize).readBlocks_eq_run [] reads _ _ hstart
    (admissible_of_forall fun sensor hsensor _ _ => hfits sensor hsensor) trivial
  have houts := hall.1
  rw [readBlocks_scanBufferData, Transducer.run_mapOut] at houts
  exact houts

/-! ## When every separator in the stream is found -/

theorem terminate_injective (params : MessageParameters) : Function.Injective params.terminate := by
  intro first second heq
  unfold MessageParameters.terminate at heq
  split at heq
  · exact List.append_cancel_right heq
  · exact heq

/-- The law of end-of-message framing: over any buffers, the samples are the
pieces of the stream cut just after each occurrence of the separator, as long as
no piece reaches the maximum size. -/
def CutsAtSeparators (params : MessageParameters) : Prop :=
  ∀ (env : ScanEnv) (bufsize : ℕ) (reads : List SensorRead),
    (∀ sensor ∈ reads, sensor.bytes.length ≤ bufsize) →
    PiecesBelow maxMessageStreamSampleSize (cutter params.separator) []
      (reads.flatMap SensorRead.bytes) →
    (scanBuffers env params (nextSampleSepEOM env params) bufsize reads).2.map Sample.data =
      ((cutter params.separator).run [] (reads.flatMap SensorRead.bytes)).2.map params.terminate

theorem cutsAtSeparators_of_safe (hlen : params.messageLength = 0)
    (hseparator : params.separator ≠ []) (hsafe : SeparatorSafe params.separator) :
    CutsAtSeparators params := by
  intro env bufsize reads hfits hbelow
  obtain ⟨houts, hpiece⟩ := matcher_eq_cutter hseparator eomFallback_sound
    (eomFallback_complete_iff.mpr hsafe) _ [] 0 (tracks_nil hseparator) hbelow
  have hlast : (eomMatcher params.separator).collected
      ((eomMatcher params.separator).run ([], 0) (reads.flatMap SensorRead.bytes)).1 =
        ((cutter params.separator).run [] (reads.flatMap SensorRead.bytes)).1 := hpiece
  rw [scanBuffers_eom hlen hseparator hfits, houts]
  exact ⟨fun made hmade => hbelow.1 made (houts ▸ hmade), by rw [hlast]; exact hbelow.2⟩

theorem safe_of_cutsAtSeparators (hlen : params.messageLength = 0)
    (hseparator : params.separator ≠ []) (hcuts : CutsAtSeparators params) :
    SeparatorSafe params.separator := by
  rw [← eomFallback_complete_iff]
  intro k j c hjk hk hborder hget hmiss hbound
  by_contra hfall
  refine matcher_ne_cutter eomFallback_sound hk hborder hget hmiss (by omega) ?_
  -- the stream that shows the overlap, in one buffer
  have hlength := length_overlapStream hjk hk
  have hscan := hcuts ⟨0, 0, exactPool⟩ (overlapStream params.separator k j).length
    [⟨overlapStream params.separator k j, 0⟩] (by simp)
    (piecesBelow_of_length (by simpa [cutter, hlength] using hbound))
  rw [scanBuffers_eom hlen hseparator (by simp)
    (piecesBelow_of_length (by simpa [eomMatcher, matcher, hlength] using hbound))] at hscan
  simpa using (terminate_injective params).list_map hscan

/-- **End-of-message framing finds every separator exactly when the separator has
no overlap that the fallback does not know.**  The parameters are any that
`setMessageParameters` accepts for messages without a fixed length, with null
termination on or off. -/
theorem nextSampleSepEOM_cuts_iff {sepexp : List UInt8} {nullTerminate value : Bool}
    (hparams : setMessageParameters 0 sepexp true nullTerminate = .ok params) :
    CutsAtSeparators (params.setNullTerminate value) ↔ SeparatorSafe params.separator := by
  obtain ⟨hlen, hempty, _⟩ := setMessageParameters_ok hparams
  have hseparator : params.separator ≠ [] := fun hnil => hempty hnil rfl
  constructor
  · intro hcuts
    exact @safe_of_cutsAtSeparators (params.setNullTerminate value) hlen hseparator hcuts
  · intro hsafe
    exact @cutsAtSeparators_of_safe (params.setNullTerminate value) hlen hseparator hsafe

/-- Messages that end with CR NL are all found. -/
theorem nextSampleSepEOM_cuts_crlf :
    setMessageParameters 0 [13, 10] true false = .ok (acceptedParameters 0 [13, 10] true false) ∧
      CutsAtSeparators ((acceptedParameters 0 [13, 10] true false).setNullTerminate false) := by
  have hparams : setMessageParameters 0 [13, 10] true false =
      .ok (acceptedParameters 0 [13, 10] true false) := by decide +kernel
  refine ⟨hparams, (nextSampleSepEOM_cuts_iff hparams).mpr ?_⟩
  intro k j hj hjk hk
  have hlength : (acceptedParameters 0 [13, 10] true false).separator.length = 2 := rfl
  omega

/-- The separator `abac` in the bytes `ababac`: after `aba` the character `b` is
neither a run nor a doubled sequence, so the count falls to zero and the only
separator in the stream is missed. -/
theorem nextSampleSepEOM_misses_abac :
    setMessageParameters 0 [97, 98, 97, 99] true false =
        .ok (acceptedParameters 0 [97, 98, 97, 99] true false) ∧
      (scanBuffers ⟨0, 0, exactPool⟩ (acceptedParameters 0 [97, 98, 97, 99] true false)
        (nextSampleSepEOM ⟨0, 0, exactPool⟩ (acceptedParameters 0 [97, 98, 97, 99] true false)) 6
        [⟨[97, 98, 97, 98, 97, 99], 0⟩]).2.map Sample.data = [] ∧
      ((cutter [97, 98, 97, 99]).run [] [97, 98, 97, 98, 97, (99 : UInt8)]).2 =
        [[97, 98, 97, 98, 97, 99]] ∧
      ¬ CutsAtSeparators (acceptedParameters 0 [97, 98, 97, 99] true false) := by
  have hparams : setMessageParameters 0 [97, 98, 97, 99] true false =
      .ok (acceptedParameters 0 [97, 98, 97, 99] true false) := by decide +kernel
  have hscan : (scanBuffers ⟨0, 0, exactPool⟩ (acceptedParameters 0 [97, 98, 97, 99] true false)
      (nextSampleSepEOM ⟨0, 0, exactPool⟩ (acceptedParameters 0 [97, 98, 97, 99] true false)) 6
      [⟨[97, 98, 97, 98, 97, 99], 0⟩]).2.map Sample.data = [] := by decide +kernel
  have hcut : ((cutter [97, 98, 97, 99]).run [] [97, 98, 97, 98, 97, (99 : UInt8)]).2 =
      [[97, 98, 97, 98, 97, 99]] := by decide +kernel
  refine ⟨hparams, hscan, hcut, fun hcuts => ?_⟩
  have hlaw := hcuts ⟨0, 0, exactPool⟩ 6 [⟨[97, 98, 97, 98, 97, 99], 0⟩] (by decide)
    (piecesBelow_of_length (by decide))
  rw [hscan] at hlaw
  have hlength := congrArg List.length hlaw
  revert hlength
  decide +kernel

end Nidas.Core
