import Nidas.Core.DriverSampleScanner

/-!
# Draining the buffer of the driver sample scanner

`readSamples` stops at the first null.  A sample whose time tag is rejected also
gives a null, so the samples behind it stay in the buffer until the next read.
`Drained` says how a buffer is left: either all complete samples have been taken, or
a complete one is left behind a rejected one.  Over all reads this gives the exact
condition: after each rejected sample the buffer ends before the next one does.
-/

namespace Nidas.Core

open Lib

namespace DriverScanState

variable {env : DriverEnv} {state : DriverScanState}

/-- The stream stands in the first of the samples, or at the end. -/
def Standing (env : DriverEnv) : List DsmSample → ℕ → DriverScanState → Prop
  | [], count, state => count = 0 ∧ Fresh state
  | sample :: _, count, state => Partly env sample count state

theorem Fresh.standing (hfresh : Fresh state) (samples : List DsmSample) :
    Standing env samples 0 state := by
  cases samples with
  | nil => exact ⟨rfl, hfresh⟩
  | cons sample rest => exact hfresh.partly sample

/-- Where the stream stands does not depend on the buffer. -/
theorem Standing.load {back : List DsmSample} {count : ℕ} (hstanding : Standing env back count state)
    (bytes : List UInt8) : Standing env back count { state with bytes := bytes } := by
  cases back with
  | nil => exact ⟨hstanding.1, hstanding.2.osamp, hstanding.2.header, hstanding.2.toRead⟩
  | cons sample rest =>
      have hpartly : Partly env sample count state := hstanding
      cases hpartly with
      | header hlt hosamp hheader htoRead => exact .header hlt hosamp hheader htoRead
      | data hge hlt hosamp hheader htoRead => exact .data hge hlt hosamp hheader htoRead

/-- The clock rejects the time tag. -/
def Rejected (env : DriverEnv) (call : ℕ) (sample : DsmSample) : Prop :=
  env.addSampleDate call (env.timeTag sample) = none

theorem addDate_of_rejected {call : ℕ} {sample : DsmSample} (hrejected : Rejected env call sample) :
    env.addDate call sample = none := by
  rw [DriverEnv.addDate, hrejected, Option.map_none]

/-- How a buffer of `len` bytes is left; `back` are the samples from the current one
on, of which `count` bytes have been read before. -/
inductive Drained (env : DriverEnv) (call : ℕ) (back : List DsmSample) (count len : ℕ) :
    DriverScanState × List Sample → Prop where
  | all {front rest : List DsmSample} {count' : ℕ} {after : DriverScanState}
      (hback : back = front ++ rest) (hstanding : Standing env rest count' after)
      (hcalls : after.clockCalls = call + front.length)
      (hlength : (encodeAll front).length + (count' + after.bytes.length) = count + len)
      (hunread : ∃ later, after.bytes ++ later = (encodeAll rest).drop count')
      (hpart : ∀ next ∈ rest.head?, count' + after.bytes.length < next.encode.length)
      (hkept : ∀ before sample next behind, front = before ++ sample :: next :: behind →
        ¬ Rejected env (call + before.length) sample) :
      Drained env call back count len (after, env.accepted call front)
  | early {before behind : List DsmSample} {sample next : DsmSample}
      {outcome : DriverScanState × List Sample} (hback : back = before ++ sample :: next :: behind)
      (hrejected : Rejected env (call + before.length) sample)
      (hle : (encodeAll (before ++ [sample, next])).length ≤ count + len)
      (hholds : HoldsSample outcome.1) : Drained env call back count len outcome

/-- What a sample that was handed on adds to the rest. -/
theorem Drained.cons {call count len : ℕ} {sample : DsmSample} {samp : Sample}
    {back : List DsmSample} {outcome : DriverScanState × List Sample}
    (hsamp : env.addDate call sample = some samp) (hle : sample.encode.length ≤ count + len)
    (hdrained : Drained env (call + 1) back 0 (count + len - sample.encode.length) outcome) :
    Drained env call (sample :: back) count len (outcome.1, samp :: outcome.2) := by
  have haccepted : ¬ Rejected env call sample := by
    intro hrejected
    rw [addDate_of_rejected hrejected] at hsamp
    cases hsamp
  cases hdrained with
  | @all front rest count' after hback hstanding hcalls hlength hunread hpart hkept =>
      have hfirst : env.accepted call (sample :: front) =
          samp :: env.accepted (call + 1) front := by
        rw [DriverEnv.accepted, hsamp]
        rfl
      dsimp only
      rw [← hfirst]
      refine .all (by rw [hback]; rfl) hstanding (by rw [hcalls, List.length_cons]; omega) ?_ hunread
        hpart ?_
      · rw [encodeAll_cons, List.length_append]
        omega
      · intro before other next behind hsplit
        cases before with
        | nil =>
            cases hsplit
            exact haccepted
        | cons first before =>
            cases hsplit
            have hother := hkept before other next behind rfl
            rwa [Nat.add_assoc, Nat.add_comm 1] at hother
  | @early before behind other next _ hback hrejected hlast hholds =>
      refine .early (by rw [hback]; exact (List.cons_append ..).symm) ?_ ?_ hholds
      · rwa [List.length_cons, Nat.add_comm before.length, ← Nat.add_assoc]
      · rw [List.cons_append, encodeAll_cons, List.length_append]
        omega

/-- What is left behind the first sample. -/
theorem unread_behind {bytes later back : List UInt8} {sample : DsmSample} {count : ℕ}
    (hcount : count < sample.encode.length) (hle : sample.encode.length ≤ count + bytes.length)
    (hagrees : bytes ++ later = (sample.encode ++ back).drop count) :
    bytes.drop (sample.encode.length - count) ++ later = back := by
  have hdrop := congrArg (List.drop (sample.encode.length - count)) hagrees
  rwa [List.drop_append_of_le_length (by omega), List.drop_drop,
    Nat.add_sub_cancel' (Nat.le_of_lt hcount), List.drop_left' rfl] at hdrop

/-- **How the calls up to a null leave the buffer.** -/
theorem drain_drained :
    ∀ (back : List DsmSample) (fuel count : ℕ) (state : DriverScanState),
      Standing env back count state → state.bytes.length < fuel →
      (∃ later, state.bytes ++ later = (encodeAll back).drop count) →
      Drained env state.clockCalls back count state.bytes.length (drain env fuel state) := by
  intro back
  induction back with
  | nil =>
      rintro fuel count state ⟨rfl, hfresh⟩ hfuel ⟨later, hagrees⟩
      obtain ⟨fuel, rfl⟩ := Nat.exists_eq_succ_of_ne_zero (Nat.ne_of_gt (Nat.zero_lt_of_lt hfuel))
      have hbytes : state.bytes = [] := (List.append_eq_nil_iff.mp hagrees).1
      have hcall : nextSample env state = (none, state) := by
        obtain ⟨bytes, header, osamp, toRead, bad, calls⟩ := state
        obtain ⟨rfl, rfl, rfl⟩ := hfresh
        dsimp only at hbytes
        subst hbytes
        rfl
      rw [drain, hcall]
      exact @Drained.all env _ _ _ _ [] [] 0 state rfl ⟨rfl, hfresh⟩ rfl (by rw [hbytes]; rfl)
        ⟨later, hagrees⟩ (by simp) (fun before _ _ _ hsplit => by cases before <;> cases hsplit)
  | cons sample back ih =>
      rintro fuel count state hpartly hfuel ⟨later, hagrees⟩
      obtain ⟨fuel, rfl⟩ := Nat.exists_eq_succ_of_ne_zero (Nat.ne_of_gt (Nat.zero_lt_of_lt hfuel))
      have hpartly : Partly env sample count state := hpartly
      have hcount := hpartly.count_lt
      rw [encodeAll_cons] at hagrees
      have hcall := nextSample_called hpartly ⟨later, by
        rw [hagrees, List.drop_append_of_le_length (Nat.le_of_lt hcount)]⟩
      rw [drain]
      generalize nextSample env state = outcome at hcall ⊢
      cases hcall with
      | @more after hlt hafter hnil hcalls =>
          -- the buffer ends in this sample
          refine @Drained.all env _ _ _ _ [] (sample :: back) (count + state.bytes.length) after rfl
            hafter hcalls ?_ ?_ ?_ (fun before _ _ _ hsplit => by cases before <;> cases hsplit)
          · rw [hnil]
            exact Nat.zero_add _
          · rw [hnil, encodeAll_cons]
            refine ⟨later, ?_⟩
            have hdrop := congrArg (List.drop state.bytes.length) hagrees
            rwa [List.drop_left' rfl, List.drop_drop] at hdrop
          · intro next hnext
            cases hnext
            rw [hnil]
            exact hlt
      | @done after hle hfresh hbytes hcalls =>
          have hbehind := unread_behind hcount hle hagrees
          rw [← hbytes] at hbehind
          have hlength := congrArg List.length hbytes
          rw [List.length_drop] at hlength
          cases hdate : env.addDate state.clockCalls sample with
          | some samp =>
              have hrest := ih fuel 0 after (hfresh.standing back) (by omega)
                ⟨later, by rw [hbehind]; rfl⟩
              rw [hcalls, show after.bytes.length =
                count + state.bytes.length - sample.encode.length by omega] at hrest
              exact .cons hdate hle hrest
          | none =>
              -- the call ends without a sample, whatever is in the buffer
              have hrejected : Rejected env state.clockCalls sample := Option.map_eq_none_iff.mp hdate
              have hpart : (∀ next ∈ back.head?, after.bytes.length < next.encode.length) ∨
                  ∃ next behind, back = next :: behind ∧
                    next.encode.length ≤ after.bytes.length := by
                cases back with
                | nil => exact Or.inl (by simp)
                | cons next behind =>
                    rcases Nat.lt_or_ge after.bytes.length next.encode.length with hlt | hge
                    · left
                      intro other hother
                      cases hother
                      exact hlt
                    · exact Or.inr ⟨next, behind, rfl, hge⟩
              rcases hpart with hpart | ⟨next, behind, rfl, hge⟩
              · have hone : env.accepted state.clockCalls [sample] = [] := by
                  rw [DriverEnv.accepted, hdate]
                  rfl
                dsimp only
                rw [← hone]
                refine @Drained.all env _ _ _ _ [sample] back 0 after rfl (hfresh.standing back) hcalls
                  ?_ ⟨later, by rw [hbehind]; rfl⟩ (by simpa using hpart) ?_
                · rw [encodeAll_cons, List.length_append, Nat.zero_add, hlength]
                  show sample.encode.length + 0 + _ = _
                  omega
                · intro before other next behind hsplit
                  rcases before with _ | ⟨_, _ | _⟩ <;> cases hsplit
              · refine @Drained.early env _ _ _ _ [] behind sample next _ rfl hrejected ?_ ?_
                · rw [List.nil_append, encodeAll_cons, encodeAll_cons, List.length_append,
                    List.length_append]
                  show sample.encode.length + (next.encode.length + 0) ≤ _
                  omega
                · refine ⟨next, after.bytes.drop next.encode.length, ?_⟩
                  have hnext : after.bytes.take next.encode.length = next.encode := by
                    have htake := congrArg (List.take next.encode.length) hbehind
                    rwa [List.take_append_of_le_length hge, encodeAll_cons, List.take_left' rfl]
                      at htake
                  dsimp only
                  rw [pending, hfresh.osamp]
                  dsimp only
                  rw [hfresh.header, List.nil_append]
                  conv_lhs => rw [← List.take_append_drop next.encode.length after.bytes, hnext]

/-! ## All reads -/

/-- A sample that has not been read completely is not held. -/
theorem Standing.not_holdsSample {back : List DsmSample} {count : ℕ}
    (hstanding : Standing env back count state)
    (hunread : ∃ later, state.bytes ++ later = (encodeAll back).drop count)
    (hpart : ∀ next ∈ back.head?, count + state.bytes.length < next.encode.length) :
    ¬ HoldsSample state := by
  rintro ⟨sample, more, hheld⟩
  obtain ⟨later, hagrees⟩ := hunread
  have hlength := sample.length_encode
  have hheldLength := congrArg List.length hheld
  rw [List.length_append, List.length_append] at hheldLength
  cases back with
  | nil =>
      obtain ⟨rfl, hfresh⟩ := hstanding
      have hbytes : state.bytes = [] := (List.append_eq_nil_iff.mp hagrees).1
      rw [pending, hfresh.osamp] at hheldLength
      dsimp only at hheldLength
      rw [hfresh.header, hbytes] at hheldLength
      simp only [List.length_nil, sizeofDsmSampleHeader] at hheldLength hlength
      omega
  | cons next rest =>
      have hpartly : Partly env next count state := hstanding
      have hlt : count + state.bytes.length < next.encode.length := hpart next rfl
      have hnext := next.length_encode
      -- what is held is the beginning of this sample
      have hpending : state.pending = next.encode.take count := by
        cases hpartly with
        | header hshort hosamp hheader _ =>
            rw [pending, hosamp]
            dsimp only
            rw [hheader, DsmSample.encode, List.take_append_of_le_length (by
              rw [DsmSample.length_header]; exact Nat.le_of_lt hshort)]
        | data hge _ hosamp hheader _ =>
            have hwhole : next.header.take count = next.header :=
              List.take_of_length_le (by rw [DsmSample.length_header]; exact hge)
            rw [pending, hosamp]
            dsimp only
            rw [hheader, DsmSample.encode, List.take_append, hwhole, DsmSample.length_header]
      have hall : state.pending ++ state.bytes = next.encode.take (count + state.bytes.length) := by
        rw [encodeAll_cons, List.drop_append_of_le_length (by omega)] at hagrees
        have htake := congrArg (List.take state.bytes.length) hagrees
        rw [List.take_left' rfl, List.take_append_of_le_length (by
          rw [List.length_drop]; omega)] at htake
        rw [hpending, List.take_add, ← htake]
      -- so the two headers are the same, and the lengths with them
      rw [hall] at hheld
      have hsize := congrArg List.length hheld
      rw [List.length_append, List.length_take] at hsize
      have hheader : sample.header = next.header := by
        have htake := congrArg (List.take sizeofDsmSampleHeader) hheld
        rw [List.take_take, DsmSample.encode, DsmSample.encode, List.append_assoc,
          List.take_left' sample.length_header, Nat.min_eq_left (by omega),
          List.take_left' next.length_header] at htake
        exact htake.symm
      have hdata : sample.data.length = next.data.length := by
        rw [← sample.ofLeBytes_header, hheader, next.ofLeBytes_header]
      omega

theorem accepted_append (call : ℕ) (front back : List DsmSample) :
    env.accepted call (front ++ back) =
      env.accepted call front ++ env.accepted (call + front.length) back := by
  induction front generalizing call with
  | nil => rfl
  | cons sample front ih =>
      rw [List.cons_append, DriverEnv.accepted, DriverEnv.accepted, ih, List.append_assoc,
        List.length_cons, Nat.add_comm front.length, ← Nat.add_assoc]

theorem encodeAll_append (front back : List DsmSample) :
    encodeAll (front ++ back) = encodeAll front ++ encodeAll back := List.flatMap_append

/-- After each rejected sample that is followed by another one, some read ends in the
next sample; `offset` bytes have been read before. -/
def RejectedLast (env : DriverEnv) (call : ℕ) (samples : List DsmSample) (offset : ℕ)
    (reads : List (List UInt8)) : Prop :=
  ∀ before sample next behind, samples = before ++ sample :: next :: behind →
    Rejected env (call + before.length) sample →
    ∃ count, (encodeAll (before ++ [sample])).length ≤ offset + (reads.take count).flatten.length ∧
      offset + (reads.take count).flatten.length < (encodeAll (before ++ [sample, next])).length

/-- The samples are handed on that the clock accepts, and no read leaves a complete
sample in the buffer. -/
def Drains (env : DriverEnv) (bufsize call : ℕ) (samples : List DsmSample) (state : DriverScanState)
    (reads : List (List UInt8)) : Prop :=
  (readBlocks (readSamples env bufsize) state reads).2 = env.accepted call samples ∧
    ∀ count, ¬ HoldsSample (readBlocks (readSamples env bufsize) state (reads.take count)).1

/-- The first of the samples is not longer than where a later one ends. -/
theorem head_le_encodeAll {samples before : List DsmSample} {sample : DsmSample} {offset : ℕ}
    {behind : List DsmSample} (hsplit : samples = before ++ sample :: behind)
    (hpart : ∀ next ∈ samples.head?, offset < next.encode.length) :
    offset < (encodeAll (before ++ [sample])).length := by
  rw [hsplit] at hpart
  cases before with
  | nil =>
      have hfirst := hpart sample rfl
      rw [List.nil_append, encodeAll_cons, List.length_append]
      omega
  | cons first before =>
      have hfirst := hpart first rfl
      rw [List.cons_append, encodeAll_cons, List.length_append]
      omega

/-- Behind a read that has left nothing the condition is about the rest. -/
theorem rejectedLast_cons {call offset offset' : ℕ} {front rest : List DsmSample}
    {data : List UInt8} {reads : List (List UInt8)}
    (hpart : ∀ next ∈ (front ++ rest).head?, offset < next.encode.length)
    (hlength : (encodeAll front).length + offset' = offset + data.length)
    (hrest : ∀ next ∈ rest.head?, offset' < next.encode.length)
    (hkept : ∀ before sample next behind, front = before ++ sample :: next :: behind →
      ¬ Rejected env (call + before.length) sample) :
    RejectedLast env call (front ++ rest) offset (data :: reads) ↔
      RejectedLast env (call + front.length) rest offset' reads := by
  have hcount : ∀ count, ((data :: reads).take (count + 1)).flatten.length =
      data.length + (reads.take count).flatten.length := by
    intro count
    rw [List.take_succ_cons, List.flatten_cons, List.length_append]
  have hfront : ∀ samples, (encodeAll (front ++ samples)).length =
      (encodeAll front).length + (encodeAll samples).length := by
    intro samples
    rw [encodeAll_append, List.length_append]
  constructor
  · intro hlast before sample next behind hsplit hrejected
    obtain ⟨count, hge, hlt⟩ := hlast (front ++ before) sample next behind
      (by rw [hsplit, List.append_assoc]) (by
        rwa [List.length_append, ← Nat.add_assoc])
    have hoffset := @head_le_encodeAll (front ++ rest) (front ++ before) sample offset
      (next :: behind) (by rw [hsplit, List.append_assoc]) hpart
    rw [List.append_assoc, hfront] at hge hlt hoffset
    cases count with
    | zero =>
        simp only [List.take_zero, List.flatten_nil, List.length_nil] at hge
        omega
    | succ count =>
        rw [hcount] at hge hlt
        exact ⟨count, by omega, by omega⟩
  · intro hlast before sample next behind hsplit hrejected
    rcases List.append_eq_append_iff.mp hsplit with ⟨others, rfl, hothers⟩ | ⟨others, rfl, hothers⟩
    · -- both samples are in the rest
      rw [List.length_append, ← Nat.add_assoc] at hrejected
      obtain ⟨count, hge, hlt⟩ := hlast others sample next behind hothers hrejected
      refine ⟨count + 1, ?_, ?_⟩
      · rw [hcount, List.append_assoc, hfront]
        omega
      · rw [hcount, List.append_assoc, hfront]
        omega
    · cases others with
      | nil =>
          rw [List.nil_append] at hothers
          rw [List.append_nil] at hlast hkept hfront hlength
          obtain ⟨count, hge, hlt⟩ := hlast [] sample next behind hothers.symm hrejected
          refine ⟨count + 1, ?_, ?_⟩
          · rw [hcount, hfront]
            rw [List.nil_append] at hge
            omega
          · rw [hcount, hfront]
            rw [List.nil_append] at hlt
            omega
      | cons first others =>
          obtain ⟨rfl, hmore⟩ := List.cons.inj hothers
          cases others with
          | nil =>
              -- the read ends between the two
              have hnext := hrest next (by rw [← show next :: behind = rest from hmore]; rfl)
              refine ⟨1, ?_, ?_⟩
              · rw [hcount]
                omega
              · rw [hcount, show before ++ [sample, next] = (before ++ [sample]) ++ [next] by simp,
                  hfront, encodeAll_cons, List.length_append]
                simp only [List.take_zero, List.flatten_nil, List.length_nil]
                omega
          | cons second others =>
              obtain ⟨rfl, _⟩ := List.cons.inj hmore
              exact absurd hrejected (hkept before sample next others rfl)

theorem run_drains_iff {bufsize : ℕ} :
    ∀ (reads : List (List UInt8)) (back : List DsmSample) (count : ℕ) (state : DriverScanState),
      Standing env back count state →
      (∀ next ∈ back.head?, count + state.bytes.length < next.encode.length) →
      state.bytes ++ reads.flatten = (encodeAll back).drop count → Fits env bufsize state reads →
      (Drains env bufsize state.clockCalls back state reads ↔
        RejectedLast env state.clockCalls back (count + state.bytes.length) reads) := by
  intro reads
  induction reads with
  | nil =>
      intro back count state hstanding hpart hagrees _
      have hnot := hstanding.not_holdsSample ⟨_, hagrees⟩ hpart
      cases back with
      | nil =>
          constructor
          · intro _ before sample next behind hsplit
            cases before <;> cases hsplit
          · refine fun _ => ⟨rfl, fun count => ?_⟩
            rw [List.take_nil]
            exact hnot
      | cons next rest =>
          exfalso
          have hlt := hpart next rfl
          have hlength := congrArg List.length hagrees
          rw [List.flatten_nil, List.append_nil, List.length_drop, encodeAll_cons,
            List.length_append] at hlength
          omega
  | cons data reads ih =>
      intro back count state hstanding hpart hagrees hfits
      obtain ⟨hdata, hfits⟩ := hfits
      have hload : readBuffer bufsize data state = { state with bytes := state.bytes ++ data } := by
        rw [readBuffer, List.take_of_length_le hdata]
      have hdrained := @drain_drained env back ((state.bytes ++ data).length + 1) count
        { state with bytes := state.bytes ++ data } (hstanding.load _)
        (Nat.lt_succ_self _) ⟨reads.flatten, by rw [List.append_assoc]; exact hagrees⟩
      have hread : readSamples env bufsize state data =
          drain env ((state.bytes ++ data).length + 1)
            { state with bytes := state.bytes ++ data } := by
        rw [readSamples, hload]
      have hnot := hstanding.not_holdsSample ⟨_, hagrees⟩ hpart
      rw [← hread] at hdrained
      dsimp only at hdrained
      rw [List.length_append] at hdrained
      have hrun : ∀ count, (readBlocks (readSamples env bufsize) state
          ((data :: reads).take (count + 1))).1 =
            (readBlocks (readSamples env bufsize) (readSamples env bufsize state data).1
              (reads.take count)).1 := fun _ => rfl
      generalize hresult : readSamples env bufsize state data = result at hdrained hfits hrun
      cases hdrained with
      | @all front rest count' after hback hstanding' hcalls hlength hunread hpart' hkept =>
          have hagrees' : after.bytes ++ reads.flatten = (encodeAll rest).drop count' := by
            obtain ⟨later, hlater⟩ := hunread
            have hfront : (encodeAll rest).drop count' =
                (encodeAll back).drop ((encodeAll front).length + count') := by
              rw [hback, encodeAll_append, ← List.drop_drop, List.drop_left' rfl]
            have hbehind : later = reads.flatten := by
              calc later = ((encodeAll rest).drop count').drop after.bytes.length := by
                    rw [← hlater, List.drop_left' rfl]
                _ = ((encodeAll back).drop count).drop (state.bytes.length + data.length) := by
                    rw [hfront, List.drop_drop, List.drop_drop, ← hlength, Nat.add_assoc]
                _ = reads.flatten := by
                    rw [← hagrees, List.flatten_cons, ← List.append_assoc,
                      List.drop_left' List.length_append]
            rw [← hbehind]
            exact hlater
          have hiff := ih rest count' after hstanding' hpart' hagrees' hfits
          rw [hcalls] at hiff
          subst hback
          rw [rejectedLast_cons hpart (by omega) hpart' hkept, ← hiff]
          rw [Drains, Drains, readBlocks_cons, hresult, accepted_append]
          dsimp only
          refine and_congr (List.append_right_inj _) ⟨fun hall count => ?_, fun hall count => ?_⟩
          · have hone := hall (count + 1)
            rwa [hrun] at hone
          · cases count with
            | zero => exact hnot
            | succ count =>
                rw [hrun]
                exact hall count
      | @early before behind sample next _ hback hrejected hle hholds =>
          refine ⟨fun hdrains => ?_, fun hlast => ?_⟩
          · have hone := hdrains.2 1
            rw [hrun] at hone
            exact absurd hholds hone
          · exfalso
            obtain ⟨count', hge, hlt⟩ := hlast before sample next behind hback hrejected
            have hoffset := head_le_encodeAll hback hpart
            cases count' with
            | zero =>
                simp only [List.take_zero, List.flatten_nil, List.length_nil] at hge
                omega
            | succ count' =>
                rw [List.take_succ_cons, List.flatten_cons, List.length_append] at hlt
                omega

/-- **The buffer is drained exactly if after each rejected sample a read ends in the
next one.** -/
theorem readSamples_drains_iff {bufsize : ℕ} {samples : List DsmSample}
    {reads : List (List UInt8)} (hbytes : reads.flatten = encodeAll samples)
    (hfits : Fits env bufsize {} reads) :
    Drains env bufsize 0 samples {} reads ↔ RejectedLast env 0 samples 0 reads := by
  have hfresh : Fresh {} := ⟨rfl, rfl, rfl⟩
  refine run_drains_iff reads samples 0 {} (hfresh.standing samples) ?_ hbytes hfits
  intro next _
  rw [next.length_encode]
  exact Nat.lt_of_lt_of_le (by decide) (Nat.le_add_right _ _)

/-- Two samples, of which the clock rejects the first one. -/
def twoSamples : List DsmSample :=
  [⟨5, [65], by decide, by decide, by decide⟩, ⟨6, [66, 67], by decide, by decide, by decide⟩]

/-- A clock that rejects its first call. -/
def lateClock : DriverEnv := ⟨1, 1000, fun call timeTag => if call = 0 then none else some timeTag⟩

/-- A read that ends with the first sample, and one with the second. -/
def twoReads : List (List UInt8) := [(encodeAll twoSamples).take 9, (encodeAll twoSamples).drop 9]

theorem readSamples_drains_twoReads :
    twoReads.flatten = encodeAll twoSamples ∧ Fits lateClock 8192 {} twoReads ∧
      Drains lateClock 8192 0 twoSamples {} twoReads := by
  have hfits : Fits lateClock 8192 {} twoReads := ⟨by decide, by decide, trivial⟩
  refine ⟨by decide, hfits, (readSamples_drains_iff (by decide) hfits).mpr ?_⟩
  rintro before sample next behind hsplit -
  refine ⟨1, ?_⟩
  have hlength := congrArg List.length hsplit
  cases before with
  | nil =>
      cases hsplit
      exact ⟨by decide, by decide⟩
  | cons first before =>
      simp only [twoSamples, List.length_cons, List.length_append] at hlength
      simp only [List.length_nil] at hlength
      omega

/-- In one read the second sample stays in the buffer, and nothing is handed on. -/
theorem readSamples_leaves_twoSamples :
    [encodeAll twoSamples].flatten = encodeAll twoSamples ∧
      Fits lateClock 8192 {} [encodeAll twoSamples] ∧
      ¬ Drains lateClock 8192 0 twoSamples {} [encodeAll twoSamples] := by
  refine ⟨by decide, ⟨by decide, trivial⟩, fun hdrains => ?_⟩
  have hnone : (readBlocks (readSamples lateClock 8192) {} [encodeAll twoSamples]).2 = [] := by decide
  have hsome : lateClock.accepted 0 twoSamples ≠ [] := by decide
  exact hsome (hdrains.1.symm.trans hnone)

end DriverScanState

end Nidas.Core
