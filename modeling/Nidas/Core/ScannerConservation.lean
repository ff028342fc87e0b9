import Mathlib.Data.List.Infix
import Nidas.Core.ScannerBOM
import Nidas.Core.ScannerCalls

/-!
# Bytes that the scanner takes and gives back

With null termination off, the samples that are returned, the sample under construction
and the part of a separator that has been matched should together be the bytes that were
read.  `nextSampleSepEOM` puts every character into the sample at once, and nothing can
get lost.  `nextSampleSepBOM` keeps the characters of a partial match out of the sample and
gives them back from the separator.  Each turn of its loop keeps the books
(`bomRule_bytes`).

The one place where characters get lost is the next call after a sample has overflowed:
with `_osamp` null, the method resets `_separatorCnt`, and with it forgets a partial match
(`Forgets`).  A sample overflows inside a match only when the match has just been shortened,
so that characters were put into the sample, but not given up as a whole.  That happens for
separators that begin with a repetition.
-/

namespace Nidas.Core

variable {env : ScanEnv} {params : MessageParameters}

/-! ## The books -/

/-- The characters of a partial match, which are not in the sample. -/
def heldSeparator (params : MessageParameters) (state : ScanState) : List UInt8 :=
  if params.nextSampleFunc = .sepBOM ∧ state.separatorCnt < params.separator.length then
    params.separator.take state.separatorCnt
  else []

/-- The data of the sample under construction. -/
def heldData (state : ScanState) : List UInt8 :=
  match state.osamp with
  | none => []
  | some osamp => osamp.data

/-- The data of a sample, if one was returned. -/
def resultData : Option Sample → List UInt8
  | none => []
  | some result => result.data

/-- The bytes that the calls read from the sensor. -/
def readBytes (env : ScanEnv) (params : MessageParameters) (memory : ℕ → UInt8) (bufsize : ℕ) :
    List ScanCall → ScanState → List UInt8
  | [], _ => []
  | call :: calls, state =>
      (match call with
        | .readBuffer sensor => sensor.bytes.take (bufsize - state.bytes.length)
        | .nextSample => []) ++
      readBytes env params memory bufsize calls (scanCall env params memory bufsize call state).2

/-- After the calls: the data of all samples returned, the bytes in the sample under
construction, the matched part of a separator and the buffer. -/
def accounted (env : ScanEnv) (params : MessageParameters) (memory : ℕ → UInt8) (bufsize : ℕ)
    (calls : List ScanCall) (state : ScanState) : List UInt8 :=
  let run := scanCalls env params memory bufsize calls state
  run.1.flatMap Sample.data ++ heldData run.2 ++ heldSeparator params run.2 ++ run.2.bytes

/-- The same before the calls, and the bytes that they read. -/
def supplied (env : ScanEnv) (params : MessageParameters) (memory : ℕ → UInt8) (bufsize : ℕ)
    (calls : List ScanCall) (state : ScanState) : List UInt8 :=
  heldData state ++ heldSeparator params state ++ state.bytes ++
    readBytes env params memory bufsize calls state

/-- The bytes returned and held after the calls are those that were read. -/
def Conserves (env : ScanEnv) (params : MessageParameters) (memory : ℕ → UInt8) (bufsize : ℕ)
    (calls : List ScanCall) (state : ScanState) : Prop :=
  accounted env params memory bufsize calls state = supplied env params memory bufsize calls state

/-- A call that begins without a sample forgets a partial match. -/
def Forgets (params : MessageParameters) (state : ScanState) : Prop :=
  params.nextSampleFunc = .sepBOM ∧ state.osamp = none ∧ state.bytes ≠ [] ∧
    0 < state.separatorCnt ∧ state.separatorCnt < params.separator.length

/-- No call of `nextSample` forgets a partial match. -/
def Remembers (env : ScanEnv) (params : MessageParameters) (memory : ℕ → UInt8) (bufsize : ℕ)
    (calls : List ScanCall) (state : ScanState) : Prop :=
  ∀ before, before ++ [.nextSample] <+: calls →
    ¬Forgets params (scanCalls env params memory bufsize before state).2

/-! ## Separator at the end -/

theorem terminate_of_off (hnull : params.nullTerminate = false) (data : List UInt8) :
    params.terminate data = data := by
  simp [MessageParameters.terminate, hnull]

theorem checkRoom_full_data (hnull : params.nullTerminate = false) {nc : ℕ} {osamp : OutSample}
    {state after : ScanState} {result : Sample}
    (h : checkRoom env params nc osamp state = .full result after) :
    result.data = osamp.data ∧ after.osamp = none ∧ after.bytes = state.bytes ∧
      after.separatorCnt = state.separatorCnt := by
  obtain ⟨-, rfl, rfl⟩ := checkRoom_full h
  exact ⟨by simp [hnull], rfl, rfl, rfl⟩

/-- A message is complete: its data are those of the sample. -/
theorem shipSample_bytes (hnull : params.nullTerminate = false) (osamp : OutSample)
    (state : ScanState) :
    (shipSample env params osamp state).1.data = osamp.data ∧
      (shipSample env params osamp state).2.osamp = state.osamp ∧
      (shipSample env params osamp state).2.bytes = state.bytes := by
  refine ⟨terminate_of_off hnull _, ?_, ?_⟩
  · exact adjustSampleLengthAlloc_osamp _ _
  · exact adjustSampleLengthAlloc_bytes _ _

/-- In `nextSampleSepEOM` the sample and the buffer are all there is. -/
theorem eomRule_bytes (hnull : params.nullTerminate = false) (total : List UInt8) :
    EomRule env params (fun osamp state => osamp.data ++ state.bytes = total)
      (fun result after => resultData result ++ heldData after ++ after.bytes = total) where
  pause := by
    intro osamp state h hbytes
    rw [hbytes] at h
    exact h
  full := by
    intro nc osamp state after result h hfull
    obtain ⟨hdata, hosamp, hbytes, -⟩ := checkRoom_full_data hnull hfull
    simp [resultData, heldData, hdata, hosamp, hbytes, h]
  room := by
    intro nc osamp osamp' state state' h hroom
    obtain ⟨-, ⟨_, rfl⟩, _, rfl⟩ := checkRoom_room hroom
    exact h
  copy := by
    intro nc osamp state h _ _
    simpa using h
  char := by
    intro c rest osamp state cnt h hbytes _
    rw [hbytes] at h
    simpa using h
  ship := by
    intro c rest osamp state cnt h hbytes _
    rw [hbytes] at h
    generalize hship : shipSample env params _ _ = shipped
    obtain ⟨hdata, hosamp, hrest⟩ := @shipSample_bytes env params hnull
      { osamp with data := osamp.data ++ [c] }
      { state with
        bytes := rest
        buftail := state.buftail + 1
        separatorCnt := cnt
        osamp := none }
    rw [hship] at hdata hosamp hrest
    simp [resultData, heldData, hdata, hosamp, hrest, h]

/-! ## Separator at the beginning -/

theorem heldSeparator_of_lt (hfunc : params.nextSampleFunc = .sepBOM) {state : ScanState}
    (hcnt : state.separatorCnt < params.separator.length) :
    heldSeparator params state = params.separator.take state.separatorCnt :=
  if_pos ⟨hfunc, hcnt⟩

theorem heldSeparator_of_le {state : ScanState}
    (hcnt : params.separator.length ≤ state.separatorCnt) : heldSeparator params state = [] :=
  if_neg fun h => absurd h.2 (not_lt.mpr hcnt)

theorem take_succ_of_getElem? {separator : List UInt8} {cnt : ℕ} {c : UInt8}
    (h : separator[cnt]? = some c) : separator.take (cnt + 1) = separator.take cnt ++ [c] := by
  rw [List.take_add_one, h]
  rfl

/-- What is given up of a partial match and what is kept of it are the whole match: the
code copies the part that is given up from the beginning of the separator, and keeps the
match at its beginning too. -/
theorem take_bomGiveUp (separator : List UInt8) (cnt : ℕ) :
    separator.take (bomGiveUp separator cnt) ++ separator.take (cnt - bomGiveUp separator cnt) =
      separator.take cnt := by
  unfold bomGiveUp
  dsimp only
  split_ifs with hchar hsequence
  · obtain ⟨hgt, hrepeat⟩ := hchar
    rw [hrepeat, ← List.take_add, Nat.add_sub_cancel' hgt.le]
  · obtain ⟨heven, hrepeat⟩ := hsequence
    have hhalf : cnt - cnt / 2 = cnt / 2 := by omega
    have hsum : cnt / 2 + cnt / 2 = cnt := by omega
    rw [hhalf]
    nth_rewrite 2 [hrepeat]
    rw [← List.take_add, hsum]
  · rw [Nat.sub_self, List.take_zero, List.append_nil]

/-- Behind a separator: it is in the sample. -/
def CopyBytes (params : MessageParameters) (total : List UInt8) (osamp : OutSample)
    (state : ScanState) : Prop :=
  state.separatorCnt = params.separator.length ∧ osamp.data ++ state.bytes = total

/-- In the search for a separator: what has been matched is between the sample and the
buffer. -/
def SearchBytes (params : MessageParameters) (total : List UInt8) (osamp : OutSample)
    (state : ScanState) : Prop :=
  state.separatorCnt < params.separator.length ∧
    osamp.data ++ params.separator.take state.separatorCnt ++ state.bytes = total

/-- Where `nextSampleSepBOM` returns. -/
def BomBytes (params : MessageParameters) (total : List UInt8) (result : Option Sample)
    (after : ScanState) : Prop :=
  after.separatorCnt ≤ params.separator.length ∧
    resultData result ++ heldData after ++ heldSeparator params after ++ after.bytes = total

theorem bomFound_bytes (hnull : params.nullTerminate = false) {osamp osamp' : OutSample}
    {state state' : ScanState} {result : Option Sample}
    (h : bomFound env params osamp state = (result, osamp', state')) :
    resultData result = osamp.data ∧ osamp'.data = params.separator ∧
      state'.bytes = state.bytes ∧ state'.separatorCnt = state.separatorCnt := by
  obtain ⟨_, _, _, hfound, hdata, hbytes, hcnt, -, hresult⟩ :=
    @bomFound_spec env params osamp state
  rw [hfound] at h
  cases h
  refine ⟨?_, hdata, hbytes, hcnt⟩
  obtain ⟨hnone, rfl⟩ | ⟨-, sample, rfl, hsample⟩ := hresult
  · exact hnone.symm
  · exact hsample.trans (terminate_of_off hnull _)

/-- Every turn of `nextSampleSepBOM` keeps the books. -/
theorem bomRule_bytes (hnull : params.nullTerminate = false)
    (hfunc : params.nextSampleFunc = .sepBOM) (hseparator : params.separator ≠ [])
    (total : List UInt8) :
    BomRule env params (CopyBytes params total) (SearchBytes params total)
      (BomBytes params total) where
  pause := by
    rintro osamp state ⟨hcnt, h⟩
    refine ⟨hcnt.le, ?_⟩
    rw [@heldSeparator_of_lt params hfunc { state with osamp := some osamp } hcnt]
    exact h
  full := by
    rintro osamp state after result ⟨hcnt, h⟩ hfull
    obtain ⟨hdata, hosamp, hbytes, hafter⟩ := checkRoom_full_data hnull hfull
    refine ⟨hafter ▸ hcnt.le, ?_⟩
    rw [heldSeparator_of_lt hfunc (hafter ▸ hcnt)]
    simp [resultData, heldData, hdata, hosamp, hbytes, hafter, ← h]
  room := by
    rintro osamp osamp' state state' ⟨hcnt, h⟩ hroom
    obtain ⟨-, ⟨_, rfl⟩, _, rfl⟩ := checkRoom_room hroom
    exact ⟨hcnt, h⟩
  copyPause := by
    rintro osamp state ⟨hcnt, h⟩
    refine ⟨hcnt.le, ?_⟩
    rw [@heldSeparator_of_le params { state with osamp := some osamp } hcnt.ge, List.append_nil]
    exact h
  copyFull := by
    rintro nc osamp state after result ⟨hcnt, h⟩ hfull
    obtain ⟨hdata, hosamp, hbytes, hafter⟩ := checkRoom_full_data hnull hfull
    refine ⟨(hafter.trans hcnt).le, ?_⟩
    rw [heldSeparator_of_le (hafter.trans hcnt).ge]
    simp [resultData, heldData, hdata, hosamp, hbytes, ← h]
  copyRoom := by
    rintro nc osamp osamp' state state' ⟨hcnt, h⟩ hle hroom
    obtain ⟨-, ⟨_, rfl⟩, _, rfl⟩ := checkRoom_room hroom
    refine ⟨hcnt, ?_⟩
    simpa using h
  search := by
    rintro osamp state ⟨hcnt, h⟩
    refine ⟨List.length_pos_iff.mpr hseparator, ?_⟩
    simpa using h
  char := by
    rintro c rest osamp state bomtt ⟨hcnt, h⟩ hbytes _ hmatch hlast
    refine ⟨lt_of_le_of_ne hcnt hlast, ?_⟩
    dsimp only
    rw [take_succ_of_getElem? hmatch, ← h, hbytes]
    simp
  found := by
    rintro c rest osamp osamp' state state' result bomtt ⟨hcnt, h⟩ hbytes hmatch hlast hfound
    obtain ⟨hresult, hdata, hrest, hafter⟩ := bomFound_bytes hnull hfound
    have hwhole : params.separator = params.separator.take state.separatorCnt ++ [c] := by
      rw [← take_succ_of_getElem? hmatch, hlast, List.take_length]
    refine ⟨(hafter.trans hlast).le, ?_⟩
    rw [@heldSeparator_of_le params { state' with osamp := some osamp' } (hafter.trans hlast).ge]
    rw [hresult, hrest, ← h, hbytes]
    simp only [heldData, hdata, List.append_nil]
    nth_rewrite 1 [hwhole]
    simp
  first := by
    rintro c rest osamp osamp' state state' bomtt ⟨hcnt, h⟩ hbytes hmatch hlast hfound
    obtain ⟨hresult, hdata, hrest, hafter⟩ := bomFound_bytes hnull hfound
    have hwhole : params.separator = params.separator.take state.separatorCnt ++ [c] := by
      rw [← take_succ_of_getElem? hmatch, hlast, List.take_length]
    refine ⟨hafter.trans hlast, ?_⟩
    rw [hdata, hrest, ← h, hbytes, ← hresult]
    nth_rewrite 1 [hwhole]
    simp [resultData]
  giveUp := by
    rintro osamp state ⟨hcnt, h⟩ -
    refine ⟨lt_of_le_of_lt (Nat.sub_le _ _) hcnt, ?_⟩
    dsimp only
    rw [List.append_assoc osamp.data, take_bomGiveUp]
    exact h
  data := by
    rintro c rest osamp state ⟨hcnt, h⟩ hbytes hzero
    have hcnt0 : state.separatorCnt = 0 := Nat.eq_zero_of_not_pos hzero
    refine ⟨hcnt, ?_⟩
    rw [hcnt0, hbytes] at h
    simpa [hcnt0] using h

/-! ## One call -/

/-- The two methods that look for a separator. -/
structure SeparatorFraming (params : MessageParameters) : Prop where
  nullTerminate : params.nullTerminate = false
  separator : params.separator ≠ []
  func : params.nextSampleFunc = .sepEOM ∨ params.nextSampleFunc = .sepBOM

/-- The match counter stays within the separator. -/
def CountInside (params : MessageParameters) (state : ScanState) : Prop :=
  params.nextSampleFunc = .sepBOM → state.separatorCnt ≤ params.separator.length

/-- What a call accounts for: a partial match that it forgets is missing. -/
def carried (params : MessageParameters) (state : ScanState) : List UInt8 :=
  if state.osamp = none ∧ state.bytes ≠ [] then state.bytes
  else heldData state ++ heldSeparator params state ++ state.bytes

theorem carried_of_not_forgets {state : ScanState}
    (h : ¬Forgets params state) :
    carried params state = heldData state ++ heldSeparator params state ++ state.bytes := by
  unfold carried
  split_ifs with hopen
  · obtain ⟨hosamp, hbytes⟩ := hopen
    have hheld : heldSeparator params state = [] := by
      unfold heldSeparator
      split_ifs with hpartial
      · obtain ⟨hfunc, hcnt⟩ := hpartial
        have hzero : state.separatorCnt = 0 := by
          by_contra hpos
          exact h ⟨hfunc, hosamp, hbytes, Nat.pos_of_ne_zero hpos, hcnt⟩
        rw [hzero, List.take_zero]
      · rfl
    simp [heldData, hosamp, hheld]
  · rfl

theorem length_carried_of_forgets {state : ScanState} (h : Forgets params state) :
    (carried params state).length <
      (heldData state ++ heldSeparator params state ++ state.bytes).length := by
  obtain ⟨hfunc, hosamp, hbytes, hpos, hcnt⟩ := h
  have hcarried : carried params state = state.bytes := if_pos ⟨hosamp, hbytes⟩
  rw [hcarried, heldSeparator_of_lt hfunc hcnt]
  simp only [List.length_append, List.length_take]
  omega

/-- One call of `nextSample` accounts for all that it carries. -/
theorem nextSample_bytes (hframing : SeparatorFraming params) (memory : ℕ → UInt8)
    {state : ScanState} (hcount : CountInside params state) :
    CountInside params (nextSample env params memory state).2 ∧
      resultData (nextSample env params memory state).1 ++
          heldData (nextSample env params memory state).2 ++
          heldSeparator params (nextSample env params memory state).2 ++
          (nextSample env params memory state).2.bytes = carried params state := by
  obtain ⟨hnull, hseparator, hfunc | hfunc⟩ := hframing
  · have hheld : ∀ state, heldSeparator params state = [] := by
      intro state
      simp [heldSeparator, hfunc]
    have hcall : nextSample env params memory state = nextSampleSepEOM env params state := by
      simp only [nextSample, hfunc]
    refine ⟨fun hbom => absurd (hfunc.symm.trans hbom) (by decide), ?_⟩
    rw [hheld, hcall, List.append_nil]
    apply (eomRule_bytes hnull (carried params state)).call
    · intro hosamp
      obtain ⟨hbytes, -, hdata, -⟩ := openSample_spec env state
      rw [hbytes, hdata]
      unfold carried
      split_ifs <;> simp [heldData, hosamp, hheld]
    · intro osamp hosamp
      simp [carried, heldData, hosamp, hheld]
    · intro hosamp
      unfold carried
      split_ifs <;> simp [resultData, heldData, hosamp, hheld]
  · have hcall : nextSample env params memory state = nextSampleSepBOM env params state := by
      simp only [nextSample, hfunc]
    have hbom : BomBytes params (carried params state) (nextSampleSepBOM env params state).1
        (nextSampleSepBOM env params state).2 := by
      apply (bomRule_bytes hnull hfunc hseparator (carried params state)).call
      · exact fun _ hempty => absurd hempty hseparator
      · intro hosamp hne
        obtain ⟨hbytes, hcnt, hdata, -⟩ := openSample_spec env state
        refine ⟨hcnt ▸ List.length_pos_iff.mpr hseparator, ?_⟩
        simp [carried, hbytes, hcnt, hdata, hosamp, hne]
      · intro osamp hosamp hcnt
        refine ⟨hcnt, ?_⟩
        simp [carried, heldData, hosamp, heldSeparator_of_le hcnt.ge]
      · intro osamp hosamp hcnt
        have hlt := lt_of_le_of_ne (hcount hfunc) hcnt
        refine ⟨hlt, ?_⟩
        simp [carried, heldData, hosamp, heldSeparator_of_lt hfunc hlt]
      · intro hosamp hbytes
        refine ⟨hcount hfunc, ?_⟩
        simp [carried, resultData, hbytes]
    rw [hcall]
    exact ⟨fun _ => hbom.1, hbom.2⟩

/-! ## Any sequence of calls -/

variable {memory : ℕ → UInt8} {bufsize : ℕ}

theorem prefixed_cons_iff {call : ScanCall} {before calls : List ScanCall} :
    before ++ [.nextSample] <+: call :: calls ↔
      before = [] ∧ call = .nextSample ∨
        ∃ later, before = call :: later ∧ later ++ [.nextSample] <+: calls := by
  cases before with
  | nil => simp [eq_comm]
  | cons first later =>
    simp only [List.cons_append, List.cons_prefix_cons, reduceCtorEq, false_and, false_or,
      List.cons.injEq]
    constructor
    · rintro ⟨rfl, h⟩
      exact ⟨later, ⟨rfl, rfl⟩, h⟩
    · rintro ⟨_, ⟨rfl, rfl⟩, h⟩
      exact ⟨rfl, h⟩

theorem remembers_cons_iff {call : ScanCall} {calls : List ScanCall} {state : ScanState} :
    Remembers env params memory bufsize (call :: calls) state ↔
      (call = .nextSample → ¬Forgets params state) ∧
        Remembers env params memory bufsize calls
          (scanCall env params memory bufsize call state).2 := by
  constructor
  · intro h
    refine ⟨fun hcall => h [] (prefixed_cons_iff.mpr (.inl ⟨rfl, hcall⟩)), ?_⟩
    intro before hbefore
    exact h (call :: before) (prefixed_cons_iff.mpr (.inr ⟨before, rfl, hbefore⟩))
  · rintro ⟨hfirst, hlater⟩ before hbefore
    rcases prefixed_cons_iff.mp hbefore with ⟨rfl, hcall⟩ | ⟨later, rfl, hrest⟩
    · exact hfirst hcall
    · exact hlater later hrest

theorem accounted_cons (call : ScanCall) (calls : List ScanCall) (state : ScanState) :
    accounted env params memory bufsize (call :: calls) state =
      resultData (scanCall env params memory bufsize call state).1 ++
        accounted env params memory bufsize calls
          (scanCall env params memory bufsize call state).2 := by
  unfold accounted
  rw [scanCalls_cons]
  generalize scanCall env params memory bufsize call state = answer
  obtain ⟨_ | result, after⟩ := answer <;> simp [resultData]

theorem supplied_readBuffer (sensor : SensorRead) (calls : List ScanCall) (state : ScanState) :
    supplied env params memory bufsize (.readBuffer sensor :: calls) state =
      supplied env params memory bufsize calls
        (scanCall env params memory bufsize (.readBuffer sensor) state).2 := by
  have hbytes : (scanCall env params memory bufsize (.readBuffer sensor) state).2.bytes =
      state.bytes ++ sensor.bytes.take (bufsize - state.bytes.length) := rfl
  unfold supplied
  rw [hbytes]
  simp only [readBytes, List.append_assoc]
  rfl

theorem supplied_nextSample (calls : List ScanCall) (state : ScanState) :
    supplied env params memory bufsize (.nextSample :: calls) state =
      (heldData state ++ heldSeparator params state ++ state.bytes) ++
        readBytes env params memory bufsize calls (nextSample env params memory state).2 := rfl

/-- Nothing is added to what was supplied, and nothing is missing if and only if no call
has forgotten a partial match. -/
theorem accounted_spec (hframing : SeparatorFraming params) (calls : List ScanCall)
    {state : ScanState} (hcount : CountInside params state) :
    (accounted env params memory bufsize calls state).length ≤
        (supplied env params memory bufsize calls state).length ∧
      (Conserves env params memory bufsize calls state ↔
        Remembers env params memory bufsize calls state) := by
  unfold Conserves
  induction calls generalizing state with
  | nil =>
    have hnil : accounted env params memory bufsize [] state =
        supplied env params memory bufsize [] state := by
      simp [accounted, supplied, scanCalls, readBytes]
    refine ⟨hnil ▸ le_rfl, iff_of_true hnil fun before hbefore => ?_⟩
    simp at hbefore
  | cons call calls ih =>
    rw [accounted_cons, remembers_cons_iff]
    cases call with
    | readBuffer sensor =>
      obtain ⟨hle, hiff⟩ :=
        @ih (scanCall env params memory bufsize (.readBuffer sensor) state).2 hcount
      rw [supplied_readBuffer]
      refine ⟨hle, hiff.trans ⟨fun h => ⟨fun hcall => ?_, h⟩, fun h => h.2⟩⟩
      cases hcall
    | nextSample =>
      obtain ⟨hafter, hbytes⟩ := @nextSample_bytes env params hframing memory state hcount
      obtain ⟨hle, hiff⟩ := ih hafter
      -- what the call returns and leaves, followed by what is read later
      have hsum : resultData (nextSample env params memory state).1 ++
          supplied env params memory bufsize calls (nextSample env params memory state).2 =
          carried params state ++
            readBytes env params memory bufsize calls (nextSample env params memory state).2 := by
        rw [← hbytes]
        simp only [supplied, List.append_assoc]
      have hlength := congrArg List.length hsum
      rw [supplied_nextSample]
      unfold scanCall
      simp only [List.length_append] at hlength hle
      by_cases hforget : Forgets params state
      · have hlost := length_carried_of_forgets hforget
        simp only [List.length_append] at hlost
        refine ⟨by simp only [List.length_append]; omega, iff_of_false (fun heq => ?_)
          (fun h => h.1 rfl hforget)⟩
        have := congrArg List.length heq
        simp only [List.length_append] at this
        omega
      · rw [carried_of_not_forgets hforget] at hsum hlength
        simp only [List.length_append] at hlength
        refine ⟨by simp only [List.length_append]; omega, ?_⟩
        rw [← hsum, List.append_cancel_left_eq, hiff]
        exact ⟨fun h => ⟨fun _ => hforget, h⟩, fun h => h.2⟩

/-! ## Separators without a repetition -/

/-- Whenever a part of the separator has been matched and the next character does not
continue it, all of the match is given up: no part of the separator is a repeated
character or a sequence and the same again. -/
def NoRepetition (separator : List UInt8) : Prop :=
  ∀ cnt, 0 < cnt → cnt < separator.length → bomGiveUp separator cnt = cnt

/-- In a partial match there is room for the rest of the separator. -/
def RoomForMatch (params : MessageParameters) (osamp : OutSample) (state : ScanState) : Prop :=
  0 < state.separatorCnt →
    osamp.data.length + (params.separator.length + params.nterm) ≤ osamp.alloc

/-- A partial match is always that of a sample which has room for it. -/
def MatchHeld (params : MessageParameters) (state : ScanState) : Prop :=
  state.separatorCnt ≤ params.separator.length ∧
    (0 < state.separatorCnt → state.separatorCnt < params.separator.length →
      ∃ osamp, state.osamp = some osamp ∧ RoomForMatch params osamp state)

theorem MatchHeld.of_whole {state : ScanState}
    (hcnt : state.separatorCnt = params.separator.length) : MatchHeld params state :=
  ⟨hcnt.le, fun _ hlt => absurd hcnt hlt.ne⟩

theorem bomRule_matchHeld (hrepeat : NoRepetition params.separator)
    (hseparator : params.separator ≠ []) :
    BomRule env params (fun _ state => state.separatorCnt = params.separator.length)
      (fun osamp state => state.separatorCnt < params.separator.length ∧
        RoomForMatch params osamp state)
      (fun _ after => MatchHeld params after) where
  pause := by
    rintro osamp state ⟨hcnt, hroom⟩
    exact ⟨hcnt.le, fun _ _ => ⟨osamp, rfl, hroom⟩⟩
  full := by
    rintro osamp state after result ⟨hcnt, hroom⟩ hfull
    obtain ⟨-, -, hafter⟩ := checkRoom_full hfull
    have hsame : after.separatorCnt = state.separatorCnt := hafter ▸ rfl
    refine ⟨hsame ▸ hcnt.le, fun hpos _ => ?_⟩
    -- a sample with a partial match does not overflow
    rw [checkRoom_of_fits state (hroom (hsame ▸ hpos))] at hfull
    cases hfull
  room := by
    rintro osamp osamp' state state' ⟨hcnt, -⟩ hroom
    obtain ⟨hspace, ⟨_, rfl⟩, _, rfl⟩ := checkRoom_room hroom
    exact ⟨hcnt, fun _ => hspace⟩
  copyPause h := .of_whole h
  copyFull := by
    intro nc osamp state after result hcnt hfull
    obtain ⟨-, -, rfl⟩ := checkRoom_full hfull
    exact .of_whole hcnt
  copyRoom := by
    intro nc osamp osamp' state state' hcnt _ hroom
    obtain ⟨-, ⟨_, rfl⟩, _, rfl⟩ := checkRoom_room hroom
    exact hcnt
  search := by
    intro osamp state _
    exact ⟨List.length_pos_iff.mpr hseparator, fun hpos => absurd hpos (lt_irrefl 0)⟩
  char := by
    rintro c rest osamp state bomtt ⟨hcnt, -⟩ _ hspace _ hlast
    exact ⟨lt_of_le_of_ne hcnt hlast, fun _ => hspace⟩
  found := by
    intro c rest osamp osamp' state state' result bomtt _ _ _ hlast hfound
    exact .of_whole ((bomFound_separatorCnt hfound).trans hlast)
  first := by
    intro c rest osamp osamp' state state' bomtt _ _ _ hlast hfound
    exact (bomFound_separatorCnt hfound).trans hlast
  giveUp := by
    rintro osamp state ⟨hcnt, -⟩ hpos
    rw [hrepeat state.separatorCnt hpos hcnt, Nat.sub_self]
    exact ⟨lt_trans hpos hcnt, fun hzero => absurd hzero (lt_irrefl 0)⟩
  data := by
    rintro c rest osamp state ⟨hcnt, -⟩ _ hzero
    exact ⟨hcnt, fun hpos => absurd hpos hzero⟩

theorem nextSampleSepBOM_matchHeld (hrepeat : NoRepetition params.separator)
    (hseparator : params.separator ≠ []) {state : ScanState} (h : MatchHeld params state) :
    MatchHeld params (nextSampleSepBOM env params state).2 := by
  have hpos : 0 < params.separator.length := List.length_pos_iff.mpr hseparator
  apply (bomRule_matchHeld hrepeat hseparator).call
  · exact fun _ hempty => absurd hempty hseparator
  · intro _ _
    have hcnt := (openSample_spec env state).2.1
    exact ⟨hcnt ▸ hpos, fun hstart => absurd hstart (by rw [hcnt]; exact lt_irrefl 0)⟩
  · exact fun _ _ hcnt => hcnt
  · intro osamp hosamp hcnt
    have hlt := lt_of_le_of_ne h.1 hcnt
    refine ⟨hlt, fun hstart => ?_⟩
    obtain ⟨other, hother, hroom⟩ := h.2 hstart hlt
    rw [hosamp] at hother
    cases hother
    exact hroom hstart
  · exact fun _ _ => h

/-- With such a separator no partial match is ever forgotten. -/
theorem remembers_of_noRepetition (hfunc : params.nextSampleFunc = .sepBOM)
    (hrepeat : NoRepetition params.separator) (hseparator : params.separator ≠ [])
    (calls : List ScanCall) {state : ScanState} (h : MatchHeld params state) :
    Remembers env params memory bufsize calls state := by
  induction calls generalizing state with
  | nil =>
    intro before hbefore
    simp at hbefore
  | cons call calls ih =>
    rw [remembers_cons_iff]
    constructor
    · rintro - ⟨-, hosamp, -, hpos, hlt⟩
      obtain ⟨osamp, hsome, -⟩ := h.2 hpos hlt
      rw [hosamp] at hsome
      cases hsome
    · cases call with
      | readBuffer sensor => exact ih h
      | nextSample =>
        have hcall : (scanCall env params memory bufsize .nextSample state).2 =
            (nextSampleSepBOM env params state).2 := by
          simp only [scanCall, nextSample, hfunc]
        rw [hcall]
        exact ih (nextSampleSepBOM_matchHeld hrepeat hseparator h)

/-! ## Separators with a repetition

A sample that is filled up to the length where the separator just fits overflows when a
partial match is given up in part. -/

/-- Characters that do not begin a separator go into the sample. -/
theorem bomLoop_filler {filler : UInt8} (hfiller : params.separator[0]? ≠ some filler)
    (fuel n : ℕ) {rest : List UInt8} {osamp : OutSample} {state : ScanState}
    (hbytes : state.bytes = List.replicate n filler ++ rest) (hcnt : state.separatorCnt = 0)
    (hspace : osamp.data.length + n + (params.separator.length + params.nterm) ≤ osamp.alloc) :
    ∃ after, after.bytes = rest ∧ after.separatorCnt = 0 ∧
      bomLoop env params (fuel + n) osamp state =
        bomLoop env params fuel { osamp with data := osamp.data ++ List.replicate n filler }
          after := by
  induction n generalizing osamp state with
  | zero => exact ⟨state, hbytes, hcnt, by rw [List.replicate_zero, List.append_nil]; rfl⟩
  | succ n ih =>
    have hturn : bomLoop env params (fuel + n + 1) osamp state =
        bomLoop env params (fuel + n) { osamp with data := osamp.data ++ [filler] }
          { state with
            bytes := List.replicate n filler ++ rest
            buftail := state.buftail + 1 } := by
      rw [bomLoop, hbytes, List.replicate_succ, List.cons_append]
      dsimp only
      rw [checkRoom_of_fits state (by omega)]
      dsimp only
      rw [hcnt, if_neg hfiller, if_neg (lt_irrefl 0)]
    obtain ⟨after, hafter, hzero, heq⟩ := @ih { osamp with data := osamp.data ++ [filler] }
      { state with bytes := List.replicate n filler ++ rest, buftail := state.buftail + 1 }
      rfl hcnt (by simp only [List.length_append, List.length_singleton]; omega)
    refine ⟨after, hafter, hzero, hturn.trans (heq.trans ?_)⟩
    rw [List.append_assoc, List.replicate_succ]
    rfl

/-- Characters of the separator are matched. -/
theorem bomLoop_matching (fuel n : ℕ) {rest : List UInt8} {osamp : OutSample} {state : ScanState}
    (hbytes : state.bytes = (params.separator.drop state.separatorCnt).take n ++ rest)
    (hcnt : state.separatorCnt + n < params.separator.length)
    (hspace : osamp.data.length + (params.separator.length + params.nterm) ≤ osamp.alloc) :
    ∃ after, after.bytes = rest ∧ after.separatorCnt = state.separatorCnt + n ∧
      bomLoop env params (fuel + n) osamp state = bomLoop env params fuel osamp after := by
  induction n generalizing state with
  | zero => exact ⟨state, hbytes, rfl, rfl⟩
  | succ n ih =>
    have hlt : state.separatorCnt < params.separator.length := by omega
    rw [List.drop_eq_getElem_cons hlt, List.take_succ_cons, List.cons_append] at hbytes
    generalize hc : params.separator[state.separatorCnt] = c at hbytes
    have hmatch : params.separator[state.separatorCnt]? = some c := by
      rw [List.getElem?_eq_getElem hlt, hc]
    have hmore : state.separatorCnt + 1 ≠ params.separator.length := by omega
    obtain ⟨bomtt, hturn⟩ : ∃ bomtt, bomLoop env params (fuel + n + 1) osamp state =
        bomLoop env params (fuel + n) osamp
          { state with
            bomtt := bomtt
            bytes := (params.separator.drop (state.separatorCnt + 1)).take n ++ rest
            buftail := state.buftail + 1
            separatorCnt := state.separatorCnt + 1 } := by
      refine ⟨if state.separatorCnt = 0 then state.tfirstchar + state.buftail * env.usecsPerByte
        else state.bomtt, ?_⟩
      rw [bomLoop, hbytes]
      dsimp only
      rw [checkRoom_of_fits state hspace]
      dsimp only
      rw [if_pos hmatch, if_neg hmore]
    obtain ⟨after, hafter, hsum, heq⟩ := @ih
      { state with
        bomtt := bomtt
        bytes := (params.separator.drop (state.separatorCnt + 1)).take n ++ rest
        buftail := state.buftail + 1
        separatorCnt := state.separatorCnt + 1 } rfl (by dsimp only; omega)
    refine ⟨after, hafter, ?_, hturn.trans heq⟩
    rw [hsum]
    dsimp only
    omega

/-- A match that is given up in part, in a sample that has no room then: the sample
overflows and the rest of the match stays behind. -/
theorem bomLoop_overflow (fuel : ℕ) {c : UInt8} {rest : List UInt8} {osamp : OutSample}
    {state : ScanState} (hbytes : state.bytes = c :: rest)
    (hmiss : params.separator[state.separatorCnt]? ≠ some c) (hpos : 0 < state.separatorCnt)
    (hlt : state.separatorCnt < params.separator.length)
    (hspace : osamp.data.length + (params.separator.length + params.nterm) = osamp.alloc)
    (hmax : maxMessageStreamSampleSize ≤ osamp.alloc) :
    (bomLoop env params (fuel + 2) osamp state).2.osamp = none ∧
      (bomLoop env params (fuel + 2) osamp state).2.bytes = c :: rest ∧
      (bomLoop env params (fuel + 2) osamp state).2.separatorCnt =
        state.separatorCnt - bomGiveUp params.separator state.separatorCnt := by
  have hgive := @bomGiveUp_bounds params.separator state.separatorCnt hpos
  generalize hosamp' : ({ osamp with
      data := osamp.data ++
        params.separator.take (bomGiveUp params.separator state.separatorCnt) } : OutSample) =
    osamp'
  generalize hstate' : ({ state with
      separatorCnt := state.separatorCnt - bomGiveUp params.separator state.separatorCnt } :
      ScanState) = state'
  have hlength : osamp'.data.length =
      osamp.data.length + bomGiveUp params.separator state.separatorCnt := by
    rw [← hosamp', List.length_append, List.length_take, min_eq_left (by omega)]
  have halloc : osamp'.alloc = osamp.alloc := by rw [← hosamp']
  have hturn : bomLoop env params (fuel + 2) osamp state =
      bomLoop env params (fuel + 1) osamp' state' := by
    rw [bomLoop, hbytes]
    dsimp only
    rw [checkRoom_of_fits state hspace.le]
    dsimp only
    rw [if_neg hmiss, if_pos hpos, hosamp', hstate']
  have hbytes' : state'.bytes = c :: rest := by rw [← hstate', ← hbytes]
  have hcnt' : state'.separatorCnt =
      state.separatorCnt - bomGiveUp params.separator state.separatorCnt := by rw [← hstate']
  rw [hturn, bomLoop, hbytes']
  dsimp only
  rw [checkRoom, if_pos (by omega), requestBiggerSample, if_pos (by omega)]
  exact ⟨rfl, hbytes', hcnt'⟩

/-- A pool whose samples have at least `size` bytes. -/
def roomyPool (size : ℕ) : SamplePool := ⟨fun _ len => max len size, fun _ _ => le_max_left _ _⟩

/-- One buffer that fills a sample, begins a separator and does not go on with it. -/
def repeatedBuffer (separator : List UInt8) (n cnt : ℕ) (filler c : UInt8) : List UInt8 :=
  List.replicate n filler ++ (separator.take cnt ++ [c])

/-- The call that fills the sample, and what it leaves. -/
theorem nextSampleSepBOM_repeatedBuffer {n cnt : ℕ} {filler c : UInt8} {state : ScanState}
    (hpool : env.pool = roomyPool (n + params.separator.length)) (hnterm : params.nterm = 0)
    (hpos : 0 < cnt) (hlt : cnt < params.separator.length)
    (hfiller : params.separator[0]? ≠ some filler) (hmiss : params.separator[cnt]? ≠ some c)
    (hmax : maxMessageStreamSampleSize ≤ n + params.separator.length)
    (hosamp : state.osamp = none)
    (hbytes : state.bytes = repeatedBuffer params.separator n cnt filler c)
    (halloc : state.sampleLengthAlloc ≤ n) :
    (nextSampleSepBOM env params state).2.osamp = none ∧
      (nextSampleSepBOM env params state).2.bytes = [c] ∧
      (nextSampleSepBOM env params state).2.separatorCnt =
        cnt - bomGiveUp params.separator cnt := by
  obtain ⟨hopened, hzero, hdata, -⟩ := openSample_spec env state
  have hsize : (openSample env state).1.alloc = n + params.separator.length := by
    have hrequest : (correctTimeTag (state.tfirstchar + state.buftail * env.usecsPerByte)
        state).2.sampleLengthAlloc = state.sampleLengthAlloc := by
      unfold correctTimeTag
      split_ifs <;> rfl
    unfold openSample getCharSample
    rw [hpool]
    dsimp only [roomyPool]
    rw [hrequest]
    exact max_eq_right (by omega)
  have hne : state.bytes ≠ [] := by simp [hbytes, repeatedBuffer]
  have hcall : nextSampleSepBOM env params state =
      bomLoop env params (2 * state.bytes.length + params.separator.length + 1)
        (openSample env state).1 (openSample env state).2 := by
    unfold nextSampleSepBOM
    rw [hosamp]
    dsimp only
    rw [if_neg hne, bomBody, hzero, if_neg (by omega), hopened]
  rw [hcall]
  generalize openSample env state = opened at *
  obtain ⟨osamp, state'⟩ := opened
  dsimp only at *
  rw [hbytes] at hopened
  have hfuel : 2 * state.bytes.length + params.separator.length + 1 =
      (n + cnt + params.separator.length + 1) + 2 + cnt + n := by
    have hlength : state.bytes.length = n + (cnt + 1) := by
      simp [hbytes, repeatedBuffer, min_eq_left hlt.le]
    omega
  rw [hfuel]
  obtain ⟨filled, hfilled, hfilledCnt, hfilledEq⟩ := @bomLoop_filler env params filler hfiller
    (n + cnt + params.separator.length + 1 + 2 + cnt) n _ osamp state' hopened hzero
    (by rw [hdata, hsize, hnterm]; simp)
  obtain ⟨matched, hmatched, hmatchedCnt, hmatchedEq⟩ := @bomLoop_matching env params
    (n + cnt + params.separator.length + 1 + 2) cnt [c]
    { osamp with data := osamp.data ++ List.replicate n filler } filled
    (by rw [hfilled, hfilledCnt, List.drop_zero]) (by omega)
    (by simp [hdata, hsize, hnterm])
  rw [hfilledCnt, Nat.zero_add] at hmatchedCnt
  rw [hfilledEq, hmatchedEq, ← hmatchedCnt]
  apply bomLoop_overflow _ hmatched
  · rwa [hmatchedCnt]
  · omega
  · omega
  · simp [hdata, hsize, hnterm]
  · rwa [hsize]

/-- When that buffer is read, the call after the overflow forgets a partial match. -/
theorem not_remembers_repeatedBuffer (hframing : SeparatorFraming params)
    (hfunc : params.nextSampleFunc = .sepBOM) (memory : ℕ → UInt8) {n cnt : ℕ} {filler c : UInt8}
    (hpool : env.pool = roomyPool (n + params.separator.length))
    (hpos : 0 < cnt) (hlt : cnt < params.separator.length)
    (hgive : bomGiveUp params.separator cnt ≠ cnt)
    (hfiller : params.separator[0]? ≠ some filler) (hmiss : params.separator[cnt]? ≠ some c)
    (hmax : maxMessageStreamSampleSize ≤ n + params.separator.length)
    (halloc : params.sampleLengthAlloc ≤ n) {time : ℤ}
    (hbufsize : (repeatedBuffer params.separator n cnt filler c).length ≤ bufsize) :
    ¬Remembers env params memory bufsize
      [.readBuffer ⟨repeatedBuffer params.separator n cnt filler c, time⟩, .nextSample, .nextSample]
      (ScanState.start params) := by
  generalize hstream : repeatedBuffer params.separator n cnt filler c = stream at *
  intro h
  refine h [.readBuffer ⟨stream, time⟩, .nextSample] (List.prefix_refl _) ?_
  have hread : (readBuffer env bufsize ⟨stream, time⟩ (ScanState.start params)).bytes = stream := by
    simp [readBuffer, ScanState.start, List.take_of_length_le hbufsize]
  have hstate : (scanCalls env params memory bufsize
      [.readBuffer ⟨stream, time⟩, .nextSample] (ScanState.start params)).2 =
      (nextSampleSepBOM env params
        (readBuffer env bufsize ⟨stream, time⟩ (ScanState.start params))).2 := by
    simp only [scanCalls, scanCall, nextSample, hfunc]
  obtain ⟨hosamp, hbytes, hcnt⟩ := @nextSampleSepBOM_repeatedBuffer env params n cnt filler c
    (readBuffer env bufsize ⟨stream, time⟩ (ScanState.start params)) hpool
    (by simp [MessageParameters.nterm, hframing.nullTerminate]) hpos hlt hfiller hmiss hmax rfl
    (hread.trans hstream.symm) halloc
  have hbounds := @bomGiveUp_bounds params.separator cnt hpos
  rw [hstate]
  refine ⟨hfunc, hosamp, by simp [hbytes], ?_, ?_⟩ <;> rw [hcnt] <;> omega

/-- With a separator that begins with a repetition, some run forgets a partial match. -/
theorem not_remembers_of_repetition (hframing : SeparatorFraming params)
    (hfunc : params.nextSampleFunc = .sepBOM) (memory : ℕ → UInt8)
    (hrepeat : ¬NoRepetition params.separator) :
    ∃ env bufsize calls,
      ¬Remembers env params memory bufsize calls (ScanState.start params) := by
  obtain ⟨cnt, hpos, hlt, hgive⟩ : ∃ cnt, 0 < cnt ∧ cnt < params.separator.length ∧
      bomGiveUp params.separator cnt ≠ cnt := by
    unfold NoRepetition at hrepeat
    push Not at hrepeat
    exact hrepeat
  have hfirst : 0 < params.separator.length := by omega
  have hfiller : params.separator[0]? ≠ some (params.separator[0] + 1) := by
    rw [List.getElem?_eq_getElem hfirst]
    simp
  have hmiss : params.separator[cnt]? ≠ some (params.separator[cnt] + 1) := by
    rw [List.getElem?_eq_getElem hlt]
    simp
  exact ⟨⟨0, 0, roomyPool (maxMessageStreamSampleSize + params.sampleLengthAlloc +
      params.separator.length)⟩, _, _,
    @not_remembers_repeatedBuffer _ _ _ hframing hfunc memory
      (maxMessageStreamSampleSize + params.sampleLengthAlloc) cnt _ _ rfl hpos hlt hgive hfiller
      hmiss (by omega) (by omega) 0 le_rfl⟩

/-! ## When nothing is lost -/

/-- **When the scanner conserves bytes.**  With null termination off, the samples returned,
the sample under construction, the partial match and the buffer are together the bytes
that were read, if and only if no call with bytes in the buffer began without a sample in a
partial match.  It never does when the separator is at the end of the message or has no
repetition, and for every other separator there is a run where it does. -/
theorem nextSample_conserves_iff {len : UInt32} {sepexp : List UInt8} {eom nullTerminate : Bool}
    (hparams : setMessageParameters len sepexp eom nullTerminate = .ok params)
    (hseparator : params.separator ≠ []) (memory : ℕ → UInt8) :
    (∀ env bufsize calls,
      Conserves env (params.setNullTerminate false) memory bufsize calls
          (ScanState.start (params.setNullTerminate false)) ↔
        Remembers env (params.setNullTerminate false) memory bufsize calls
          (ScanState.start (params.setNullTerminate false))) ∧
      ((∀ env bufsize calls,
        Conserves env (params.setNullTerminate false) memory bufsize calls
          (ScanState.start (params.setNullTerminate false))) ↔
        eom = true ∨ NoRepetition params.separator) := by
  have hfunc := (setMessageParameters_derived hparams).1
  rw [if_neg hseparator] at hfunc
  have hframing : SeparatorFraming (params.setNullTerminate false) := by
    refine ⟨rfl, hseparator, ?_⟩
    cases eom with
    | true => exact .inl hfunc
    | false => exact .inr hfunc
  have hexact : ∀ env bufsize calls,
      Conserves env (params.setNullTerminate false) memory bufsize calls
          (ScanState.start (params.setNullTerminate false)) ↔
        Remembers env (params.setNullTerminate false) memory bufsize calls
          (ScanState.start (params.setNullTerminate false)) :=
    fun env bufsize calls => (accounted_spec hframing calls (fun _ => Nat.zero_le _)).2
  refine ⟨hexact, ⟨fun h => ?_, fun h env bufsize calls => ?_⟩⟩
  · by_contra hnot
    obtain ⟨heom, hrepeat⟩ := not_or.mp hnot
    rw [Bool.not_eq_true] at heom
    subst heom
    obtain ⟨env, bufsize, calls, hforgets⟩ :=
      not_remembers_of_repetition hframing hfunc memory hrepeat
    exact hforgets ((hexact env bufsize calls).mp (h env bufsize calls))
  · rw [hexact]
    rcases eom with _ | _
    · obtain heom | hrepeat := h
      · cases heom
      · have hstart : MatchHeld (params.setNullTerminate false)
            (ScanState.start (params.setNullTerminate false)) :=
          ⟨Nat.zero_le _, fun hpos => absurd hpos (lt_irrefl 0)⟩
        exact @remembers_of_noRepetition _ (params.setNullTerminate false) _ _ hfunc hrepeat
          hseparator calls _ hstart
    · -- the other method keeps no partial match
      intro before _ hforgets
      exact absurd (hfunc.symm.trans hforgets.1) (by decide)

/-- A separator of two different characters. -/
theorem nextSample_conserves_iff_xy :
    setMessageParameters 0 [120, 121] false false =
        .ok (acceptedParameters 0 [120, 121] false false) ∧
      ∀ env bufsize calls,
        Conserves env ((acceptedParameters 0 [120, 121] false false).setNullTerminate false)
          (fun _ => 0) bufsize calls
          (ScanState.start
            ((acceptedParameters 0 [120, 121] false false).setNullTerminate false)) := by
  have hparams : setMessageParameters 0 [120, 121] false false =
      .ok (acceptedParameters 0 [120, 121] false false) := by decide
  have hrepeat : NoRepetition (acceptedParameters 0 [120, 121] false false).separator := by
    intro cnt hpos hlt
    change cnt < 2 at hlt
    obtain rfl : cnt = 1 := by omega
    decide
  exact ⟨hparams, (nextSample_conserves_iff hparams (by decide) (fun _ => 0)).2.mpr (.inr hrepeat)⟩

/-- With the separator xxz, and a sample that is full but for the separator when xxx
arrives, the second x is lost. -/
theorem scanCalls_loses_repetition :
    setMessageParameters 0 [120, 120, 122] false false =
        .ok (acceptedParameters 0 [120, 120, 122] false false) ∧
      ¬Conserves ⟨1, 0, roomyPool 8192⟩ (acceptedParameters 0 [120, 120, 122] false false)
        (fun _ => 0) 16384
        [.readBuffer ⟨List.replicate 8189 97 ++ [120, 120, 120], 0⟩, .nextSample, .nextSample]
        (ScanState.start (acceptedParameters 0 [120, 120, 122] false false)) := by
  have hframing : SeparatorFraming (acceptedParameters 0 [120, 120, 122] false false) :=
    ⟨by decide, by decide, by decide⟩
  refine ⟨by decide, fun h => ?_⟩
  have hremembers := (accounted_spec hframing _ (fun _ => Nat.zero_le _)).2.mp h
  revert hremembers
  apply @not_remembers_repeatedBuffer _ (acceptedParameters 0 [120, 120, 122] false false) _
    hframing (by decide) _ 8189 2 97 120 rfl
  · decide
  · decide
  · decide
  · decide
  · decide
  · decide
  · decide
  · rw [repeatedBuffer, List.length_append, List.length_replicate]
    decide

end Nidas.Core
