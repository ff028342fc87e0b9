import Nidas.Lib.Transducer
import Nidas.Core.Sample

/-!
# The message stream scanner

`MessageStreamScanner` (`SampleScanner.cc`) breaks the bytes of a serial sensor
into samples by looking for a separator at the beginning (BOM) or at the end
(EOM) of each message.  The bytes arrive in buffers: `readBuffer` loads one, and
the user then calls `nextSample` until it returns null.

The members that `setMessageParameters` writes once are `MessageParameters`; the
members that change while scanning are `ScanState`.  The buffer is kept as the
bytes between `_buftail` and `_bufhead`, with `_buftail` itself, which the time
tags are computed from.  `_outSampDataPtr[0 .. _outSampRead)` is the `data` of
the sample under construction, so `_outSampRead` is its length.

Two things come from outside and are parameters in `ScanEnv`: the system clock
read by `readBuffer` is part of each read, and the sample pool decides how many
bytes are allocated for a request, at least as many as asked for.  Log messages
are left out.
-/

namespace Nidas.Core

/-- `MAX_MESSAGE_STREAM_SAMPLE_SIZE` -/
def maxMessageStreamSampleSize : ℕ := 8192

/-! ## Parameters -/

/-- Which method `_nextSampleFunc` points to. -/
inductive NextSampleFunc where
  | sepEOM
  | sepBOM
  | byLength
  deriving DecidableEq, Repr

/-- The members written by `setMessageParameters`. -/
structure MessageParameters where
  separator : List UInt8
  messageLength : ℤ
  separatorAtEOM : Bool
  nextSampleFunc : NextSampleFunc
  nullTerminate : Bool
  sampleLengthAlloc : ℕ
  deriving DecidableEq, Repr

namespace MessageParameters

/-- Extra space for the null terminator. -/
def nterm (params : MessageParameters) : ℕ :=
  if params.nullTerminate then 1 else 0

/-- `setNullTerminate` -/
def setNullTerminate (params : MessageParameters) (value : Bool) : MessageParameters :=
  { params with nullTerminate := value }

/-- The bytes of a finished message as they are sent on. -/
def terminate (params : MessageParameters) (data : List UInt8) : List UInt8 :=
  if params.nullTerminate then data ++ [0] else data

end MessageParameters

/-- The members after the parameters have been accepted.  A separator that ends
with CR or NL turns null termination on. -/
def acceptedParameters (len : UInt32) (separator : List UInt8) (eom nullTerminate : Bool) :
    MessageParameters :=
  let nullTerminate :=
    if separator.getLast? = some 13 ∨ separator.getLast? = some 10 then true else nullTerminate
  { separator
    messageLength := len.toInt32.toInt
    separatorAtEOM := eom
    nextSampleFunc := if separator = [] then .byLength else if eom then .sepEOM else .sepBOM
    nullTerminate
    sampleLengthAlloc :=
      if len = 0 then 16
      else (len.toNat + separator.length + (if nullTerminate then 1 else 0)) % 2 ^ 32 }

/-- `MessageStreamScanner::setMessageParameters`, with `sepexp` the separator
after `replaceBackslashSequences` and `nullTerminate` the value that
`setNullTerminate` left.  `slen` is an `int` and the sum is unsigned. -/
def setMessageParameters (len : UInt32) (sepexp : List UInt8) (eom nullTerminate : Bool) :
    Except String MessageParameters :=
  let slen : ℤ := (UInt32.ofNat sepexp.length).toInt32.toInt
  if (len + UInt32.ofNat sepexp.length).toNat > maxMessageStreamSampleSize then
    .error (s!"message length={len.toNat} plus separator length={slen} exceed " ++
      s!"maximum value={maxMessageStreamSampleSize}")
  else if slen = 0 ∧ len = 0 then
    .error "no message separator and message length equals 0"
  else if slen < 0 then
    -- new char[_separatorLen]
    .error "std::bad_array_new_length"
  else .ok (acceptedParameters len (sepexp.take slen.toNat) eom nullTerminate)

/-! ## State -/

/-- How many bytes `getSample<char>` allocates, call by call. -/
structure SamplePool where
  allocLength : ℕ → ℕ → ℕ
  le_allocLength : ∀ call len, len ≤ allocLength call len

/-- A pool that allocates what is asked for. -/
def exactPool : SamplePool := ⟨fun _ len => len, fun _ _ => Nat.le_refl _⟩

/-- The surroundings of a scanner: the sensor, its byte rate, and the pool. -/
structure ScanEnv where
  sensorId : ℕ
  usecsPerByte : ℤ
  pool : SamplePool

/-- The sample under construction, `_osamp`. -/
structure OutSample where
  timeTag : ℤ
  data : List UInt8
  alloc : ℕ
  deriving DecidableEq, Repr

/-- The members that change while scanning. -/
structure ScanState where
  bytes : List UInt8 := []
  buftail : ℕ := 0
  osamp : Option OutSample := none
  separatorCnt : ℕ := 0
  tfirstchar : ℤ := longLongMin
  lastBufferTime : ℤ := longLongMin
  lastSampleTime : ℤ := longLongMin
  bomtt : ℤ := longLongMin
  sampleOverflows : ℕ := 0
  sampleLengthAlloc : ℕ
  nsmallSamples : ℕ := 0
  stepBackwards : Bool := false
  stepBackTimeTag : ℕ := 0
  nonIncrTimeTag : ℕ := 0
  nbytes : ℕ := 0
  sampleLengths : List ℕ := []
  poolCalls : ℕ := 0
  deriving DecidableEq, Repr

/-- A scanner whose parameters have just been set. -/
def ScanState.start (params : MessageParameters) : ScanState :=
  { sampleLengthAlloc := params.sampleLengthAlloc }

variable (env : ScanEnv) (params : MessageParameters)

/-- A time tag that does not increase is moved ahead, unless the clock stepped
back. -/
def correctTimeTag (ttag : ℤ) (state : ScanState) : ℤ × ScanState :=
  if ttag ≤ state.lastSampleTime then
    if state.stepBackwards then
      (ttag, { state with stepBackTimeTag := state.stepBackTimeTag + 1, lastSampleTime := ttag })
    else
      (state.lastSampleTime + 1,
        { state with
          nonIncrTimeTag := state.nonIncrTimeTag + 1
          lastSampleTime := state.lastSampleTime + 1 })
  else
    (ttag, { state with lastSampleTime := ttag })

/-- `getSample<char>(len)` -/
def getCharSample (len : ℕ) (timeTag : ℤ) (data : List UInt8) (state : ScanState) :
    OutSample × ScanState :=
  (⟨timeTag, data, env.pool.allocLength state.poolCalls len⟩,
    { state with poolCalls := state.poolCalls + 1 })

/-- The block `if (!_osamp)`, reached with bytes in the buffer. -/
def openSample (state : ScanState) : OutSample × ScanState :=
  let (ttag, state) := correctTimeTag (state.tfirstchar + state.buftail * env.usecsPerByte) state
  getCharSample env state.sampleLengthAlloc ttag [] { state with separatorCnt := 0 }

/-- Hand on a sample: `setDataLength` and `addSampleToStats`. -/
def handOn (osamp : OutSample) (data : List UInt8) (state : ScanState) : Sample × ScanState :=
  (⟨osamp.timeTag, .char, env.sensorId, data⟩,
    { state with sampleLengths := data.length :: state.sampleLengths })

/-- Whether there is room in the sample, or it was handed on because it has
reached the maximum size. -/
inductive Room where
  | full (result : Sample) (state : ScanState)
  | room (osamp : OutSample) (state : ScanState)

/-- `MessageStreamScanner::requestBiggerSample`.  A null terminator overwrites
the last byte; with no byte in the sample that store is outside of it. -/
def requestBiggerSample (nc : ℕ) (osamp : OutSample) (state : ScanState) : Room :=
  let read := osamp.data.length
  if read + nc > maxMessageStreamSampleSize then
    let data := if params.nullTerminate ∧ osamp.data ≠ [] then osamp.data.dropLast ++ [0]
      else osamp.data
    let (result, state) := handOn env osamp data
      { state with sampleOverflows := state.sampleOverflows + 1, osamp := none }
    .full result state
  else
    let newlen := min (max (read + read / 2) (read + nc)) maxMessageStreamSampleSize
    let (osamp, state) := getCharSample env newlen osamp.timeTag osamp.data state
    .room osamp state

/-- The test for space in front of each copy. -/
def checkRoom (nc : ℕ) (osamp : OutSample) (state : ScanState) : Room :=
  if osamp.data.length + nc > osamp.alloc then requestBiggerSample env params nc osamp state
  else .room osamp state

/-- Adjust the size of the next sample to request, from the length of the last
one. -/
def adjustSampleLengthAlloc (read : ℕ) (state : ScanState) : ScanState :=
  if read > state.sampleLengthAlloc then
    { state with
      sampleLengthAlloc := min (read + 16) maxMessageStreamSampleSize
      nsmallSamples := 0 }
  else if state.sampleLengthAlloc > 64 ∧ read < state.sampleLengthAlloc - 64 then
    if state.nsmallSamples + 1 > 100 then
      { state with sampleLengthAlloc := state.sampleLengthAlloc - 64, nsmallSamples := 0 }
    else { state with nsmallSamples := state.nsmallSamples + 1 }
  else { state with nsmallSamples := 0 }

/-- A complete message: append the terminator, hand the sample on. -/
def shipSample (osamp : OutSample) (state : ScanState) : Sample × ScanState :=
  let data := params.terminate osamp.data
  let (result, state) := handOn env osamp data state
  (result, adjustSampleLengthAlloc data.length state)

/-! ## Reading a buffer -/

/-- What one call of `readBuffer` finds: the bytes that the sensor returns and
the system time. -/
structure SensorRead where
  bytes : List UInt8
  time : ℤ
  deriving DecidableEq, Repr

/-- `MessageStreamScanner::readBuffer` with a buffer of `bufsize` bytes.  The
sensor is asked for what fits behind the bytes still in the buffer. -/
def readBuffer (bufsize : ℕ) (sensor : SensorRead) (state : ScanState) : ScanState :=
  let len := bufsize - state.bytes.length
  let data := sensor.bytes.take len
  { state with
    bytes := state.bytes ++ data
    buftail := 0
    nbytes := state.nbytes + data.length
    tfirstchar := sensor.time - data.length * env.usecsPerByte
    stepBackwards := decide (sensor.time < state.lastBufferTime)
    lastBufferTime := sensor.time }

/-! ## Separator at the end of the message -/

/-- Where the scan for the EOM separator goes on after `c` failed to match
`_separator[_separatorCnt]`. -/
def eomFallback (separator : List UInt8) (separatorCnt : ℕ) (c : UInt8) : ℕ :=
  if separatorCnt > 0 then
    -- initial character repeated
    if separatorCnt > 1 ∧
        separator.take (separatorCnt - 1) = (separator.drop 1).take (separatorCnt - 1) ∧
        separator[separatorCnt - 1]? = some c then
      separatorCnt
    else
      -- possible repeated sequence
      let nrep := separatorCnt / 2
      if separatorCnt % 2 = 0 ∧ separator.take nrep = (separator.drop nrep).take nrep ∧
          separator[nrep]? = some c then
        nrep + 1
      -- start scan over
      else if separator[0]? = some c then 1
      else 0
  else separatorCnt

/-- The loop through the buffer, character by character. -/
def eomLoop : List UInt8 → OutSample → ScanState → Option Sample × ScanState
  | [], osamp, state => (none, { state with bytes := [], osamp := some osamp })
  | c :: rest, osamp, state =>
      match checkRoom env params (1 + params.nterm) osamp { state with bytes := c :: rest } with
      | .full result state => (some result, state)
      | .room osamp state =>
          let osamp := { osamp with data := osamp.data ++ [c] }
          let state := { state with bytes := rest, buftail := state.buftail + 1 }
          if params.separator[state.separatorCnt]? = some c then
            let state := { state with separatorCnt := state.separatorCnt + 1 }
            if state.separatorCnt = params.separator.length then
              let (result, state) := shipSample env params osamp { state with osamp := none }
              (some result, state)
            else eomLoop rest osamp state
          else
            eomLoop rest osamp
              { state with
                separatorCnt := eomFallback params.separator state.separatorCnt c }

/-- `MessageStreamScanner::nextSampleSepEOM` from the point where `_osamp` is
set: copy up to `getMessageLength()` characters, then look for the separator. -/
def eomBody (osamp : OutSample) (state : ScanState) : Option Sample × ScanState :=
  let nc := min state.bytes.length (params.messageLength - osamp.data.length).toNat
  if nc > 0 then
    match checkRoom env params nc osamp state with
    | .full result state => (some result, state)
    | .room osamp state =>
        eomLoop env params (state.bytes.drop nc)
          { osamp with data := osamp.data ++ state.bytes.take nc }
          { state with bytes := state.bytes.drop nc, buftail := state.buftail + nc }
  else eomLoop env params state.bytes osamp state

/-- `MessageStreamScanner::nextSampleSepEOM` -/
def nextSampleSepEOM (state : ScanState) : Option Sample × ScanState :=
  match state.osamp with
  | none =>
      if state.bytes = [] then (none, state)
      else
        let (osamp, state) := openSample env state
        eomBody env params osamp state
  | some osamp => eomBody env params osamp state

/-! ## Separator at the beginning of the message -/

/-- How many characters of a partial match are given up and become data when the
next character does not continue it. -/
def bomGiveUp (separator : List UInt8) (separatorCnt : ℕ) : ℕ :=
  if separatorCnt > 1 ∧
      separator.take (separatorCnt - 1) = (separator.drop 1).take (separatorCnt - 1) then
    -- initial repeated character
    1
  else
    let nrep := separatorCnt / 2
    if separatorCnt % 2 = 0 ∧ separator.take nrep = (separator.drop nrep).take nrep then
      -- initial repeated sequence
      nrep
    else separatorCnt

/-- Either the method returns, or it goes on with the sample. -/
inductive Flow where
  | ret (result : Option Sample) (state : ScanState)
  | go (osamp : OutSample) (state : ScanState)

/-- The BOM separator has been scanned: copy up to `getMessageLength()`
characters, or whatever is available in the buffer. -/
def bomCopy (osamp : OutSample) (state : ScanState) : Flow :=
  let nc := (params.messageLength - (osamp.data.length - state.separatorCnt : ℤ)).toNat
  let nc := min state.bytes.length nc
  if nc > 0 then
    match checkRoom env params nc osamp state with
    | .full result state => .ret (some result) state
    | .room osamp state =>
        let osamp := { osamp with data := osamp.data ++ state.bytes.take nc }
        let state := { state with bytes := state.bytes.drop nc, buftail := state.buftail + nc }
        if state.bytes = [] then .ret none { state with osamp := some osamp }
        else .go osamp { state with separatorCnt := 0 }
  else .go osamp { state with separatorCnt := 0 }

/-- The separator is complete: the sample before it, if there is one, is ready;
the separator becomes the beginning of the next sample. -/
def bomFound (osamp : OutSample) (state : ScanState) : Option Sample × OutSample × ScanState :=
  let (result, osamp, state) :=
    if osamp.data ≠ [] then
      let (result, state) := shipSample env params osamp state
      let (osamp, state) := getCharSample env state.sampleLengthAlloc 0 [] state
      (some result, osamp, state)
    else (none, osamp, state)
  let (ttag, state) := correctTimeTag state.bomtt state
  (result, { osamp with timeTag := ttag, data := params.separator },
    { state with bomtt := ttag })

/-- The scan for the separator at the beginning of the next message.  Every turn
of the loop uses a character or shortens the partial match, so `2 * bytes +
separatorCnt` turns are enough. -/
def bomLoop : ℕ → OutSample → ScanState → Option Sample × ScanState
  | 0, osamp, state => (none, { state with osamp := some osamp })
  | fuel + 1, osamp, state =>
      match state.bytes with
      | [] => (none, { state with osamp := some osamp })
      | c :: rest =>
          match checkRoom env params (params.separator.length + params.nterm) osamp state with
          | .full result state => (some result, state)
          | .room osamp state =>
              if params.separator[state.separatorCnt]? = some c then
                let state :=
                  { state with
                    bomtt := if state.separatorCnt = 0
                      then state.tfirstchar + state.buftail * env.usecsPerByte else state.bomtt
                    bytes := rest
                    buftail := state.buftail + 1
                    separatorCnt := state.separatorCnt + 1 }
                if state.separatorCnt = params.separator.length then
                  match bomFound env params osamp state with
                  | (some result, osamp, state) =>
                      (some result, { state with osamp := some osamp })
                  | (none, osamp, state) =>
                      -- the recursive call of nextSampleSepBOM
                      match bomCopy env params osamp state with
                      | .ret result state => (result, state)
                      | .go osamp state => bomLoop fuel osamp state
                else bomLoop fuel osamp state
              else if state.separatorCnt > 0 then
                let ngive := bomGiveUp params.separator state.separatorCnt
                bomLoop fuel
                  { osamp with data := osamp.data ++ params.separator.take ngive }
                  { state with separatorCnt := state.separatorCnt - ngive }
              else
                bomLoop fuel { osamp with data := osamp.data ++ [c] }
                  { state with bytes := rest, buftail := state.buftail + 1 }

/-- `MessageStreamScanner::nextSampleSepBOM` from the point where `_osamp` is
set. -/
def bomBody (osamp : OutSample) (state : ScanState) : Option Sample × ScanState :=
  let fuel := 2 * state.bytes.length + params.separator.length + 1
  if state.separatorCnt = params.separator.length then
    match bomCopy env params osamp state with
    | .ret result state => (result, state)
    | .go osamp state => bomLoop env params fuel osamp state
  else bomLoop env params fuel osamp state

/-- `MessageStreamScanner::nextSampleSepBOM` -/
def nextSampleSepBOM (state : ScanState) : Option Sample × ScanState :=
  match state.osamp with
  | none =>
      if state.bytes = [] then (none, state)
      else
        let (osamp, state) := openSample env state
        bomBody env params osamp state
  | some osamp => bomBody env params osamp state

/-! ## Draining the buffer -/

/-- Call `next` until it returns null. -/
def drain (next : ScanState → Option Sample × ScanState) :
    ℕ → ScanState → ScanState × List Sample
  | 0, state => (state, [])
  | fuel + 1, state =>
      match next state with
      | (none, state) => (state, [])
      | (some result, state) =>
          let after := drain next fuel state
          (after.1, result :: after.2)

/-- Load a buffer with `readBuffer`, then call `next` until it returns null.
Each sample but one uses up at least one byte. -/
def scanBuffer (next : ScanState → Option Sample × ScanState) (bufsize : ℕ)
    (state : ScanState) (sensor : SensorRead) : ScanState × List Sample :=
  let state := readBuffer env bufsize sensor state
  drain next (2 * state.bytes.length + 2) state

/-- A new scanner that is given one buffer after the other. -/
def scanBuffers (next : ScanState → Option Sample × ScanState) (bufsize : ℕ)
    (reads : List SensorRead) : ScanState × List Sample :=
  Lib.readBlocks (scanBuffer env next bufsize) (ScanState.start params) reads

/-- The bytes of the samples handed on from one buffer. -/
def scanBufferData (next : ScanState → Option Sample × ScanState) (bufsize : ℕ)
    (state : ScanState) (sensor : SensorRead) : ScanState × List (List UInt8) :=
  ((scanBuffer env next bufsize state sensor).1,
    (scanBuffer env next bufsize state sensor).2.map Sample.data)

theorem readBlocks_scanBufferData (next : ScanState → Option Sample × ScanState) (bufsize : ℕ)
    (reads : List SensorRead) :
    Lib.readBlocks (scanBufferData env next bufsize) (ScanState.start params) reads =
      ((scanBuffers env params next bufsize reads).1,
        (scanBuffers env params next bufsize reads).2.map Sample.data) :=
  Lib.readBlocks_map (scanBuffer env next bufsize) Sample.data (ScanState.start params) reads

/-! ## What the parts do to the data

The proofs about framing follow the bytes of the buffer, the data of the sample
under construction, the separator counter and the overflow counter.  The lemmas
below say what each part does to them; the rest of the state does not matter
there. -/

variable {env params}

/-- An `unsigned int` read as an `int`. -/
theorem toInt_toInt32 (value : UInt32) :
    value.toInt32.toInt =
      if value.toNat < 2 ^ 31 then (value.toNat : ℤ) else (value.toNat : ℤ) - 2 ^ 32 := by
  show value.toBitVec.toInt = _
  rw [BitVec.toInt_eq_toNat_cond]
  simp only [UInt32.toNat_toBitVec]
  split_ifs <;> omega

theorem nterm_le_one (params : MessageParameters) : params.nterm ≤ 1 := by
  unfold MessageParameters.nterm
  split <;> omega

/-- What `setMessageParameters` accepts: the separator fits an `int`, and with
the message length it fits a sample, in 32 bit arithmetic. -/
theorem setMessageParameters_ok {len : UInt32} {sepexp : List UInt8} {eom nullTerminate : Bool}
    (hparams : setMessageParameters len sepexp eom nullTerminate = .ok params) :
    params.messageLength = len.toInt32.toInt ∧
      (params.separator = [] → len ≠ 0) ∧
      params.separator.length < 2 ^ 31 ∧
      (len.toNat + params.separator.length) % 2 ^ 32 ≤ maxMessageStreamSampleSize := by
  simp only [setMessageParameters] at hparams
  split_ifs at hparams with hmax hnone hneg
  cases hparams
  have hslen := toInt_toInt32 (UInt32.ofNat sepexp.length)
  have hmod : (UInt32.ofNat sepexp.length).toNat = sepexp.length % 2 ^ 32 := UInt32.toNat_ofNat'
  rw [hmod] at hslen
  have hle : sepexp.length % 2 ^ 32 ≤ sepexp.length := Nat.mod_le _ _
  have hlength : (sepexp.take (UInt32.ofNat sepexp.length).toInt32.toInt.toNat).length =
      sepexp.length % 2 ^ 32 := by
    rw [List.length_take, hslen]
    split_ifs at hslen ⊢ <;> omega
  refine ⟨rfl, fun hempty hlen => hnone ⟨?_, hlen⟩, ?_, ?_⟩
  · have hzero := hlength.symm.trans (congrArg List.length hempty)
    rw [hslen, hzero]
    rfl
  · refine Nat.lt_of_le_of_lt (Nat.le_of_eq hlength) ?_
    split_ifs at hslen <;> omega
  · rw [UInt32.toNat_add, hmod, ← hlength] at hmax
    exact Nat.not_lt.mp hmax

/-- The members that `setMessageParameters` derives from the others. -/
theorem setMessageParameters_derived {len : UInt32} {sepexp : List UInt8}
    {eom nullTerminate : Bool}
    (hparams : setMessageParameters len sepexp eom nullTerminate = .ok params) :
    params.nextSampleFunc =
        (if params.separator = [] then .byLength else if eom then .sepEOM else .sepBOM) ∧
      params.sampleLengthAlloc =
        if len = 0 then 16
        else (len.toNat + params.separator.length + params.nterm) % 2 ^ 32 := by
  simp only [setMessageParameters] at hparams
  split_ifs at hparams
  cases hparams
  exact ⟨rfl, rfl⟩

/-- The test for space changes nothing but the allocation, or the sample is
handed on and counted as an overflow. -/
theorem checkRoom_cases (nc : ℕ) (osamp : OutSample) (state : ScanState) :
    (∃ alloc calls, checkRoom env params nc osamp state =
        .room { osamp with alloc := alloc } { state with poolCalls := calls }) ∨
      (∃ result after, checkRoom env params nc osamp state = .full result after ∧
        after.sampleOverflows = state.sampleOverflows + 1 ∧
        maxMessageStreamSampleSize < osamp.data.length + nc) := by
  by_cases halloc : osamp.data.length + nc > osamp.alloc
  · by_cases hmax : osamp.data.length + nc > maxMessageStreamSampleSize
    · exact Or.inr ⟨_, _, by rw [checkRoom, if_pos halloc, requestBiggerSample, if_pos hmax],
        rfl, hmax⟩
    · exact Or.inl ⟨_, _, by
        rw [checkRoom, if_pos halloc, requestBiggerSample, if_neg hmax]
        rfl⟩
  · exact Or.inl ⟨osamp.alloc, state.poolCalls, by rw [checkRoom, if_neg halloc]⟩

theorem checkRoom_of_le {nc : ℕ} {osamp : OutSample} (state : ScanState)
    (hle : osamp.data.length + nc ≤ maxMessageStreamSampleSize) :
    ∃ alloc calls, checkRoom env params nc osamp state =
      .room { osamp with alloc := alloc } { state with poolCalls := calls } := by
  rcases @checkRoom_cases env params nc osamp state with hroom | ⟨_, _, _, _, hlt⟩
  · exact hroom
  · omega

/-- A time tag is corrected without a look at the bytes. -/
theorem correctTimeTag_spec (ttag : ℤ) (state : ScanState) :
    (correctTimeTag ttag state).2.bytes = state.bytes ∧
      (correctTimeTag ttag state).2.separatorCnt = state.separatorCnt ∧
      (correctTimeTag ttag state).2.sampleOverflows = state.sampleOverflows := by
  unfold correctTimeTag
  split_ifs <;> exact ⟨rfl, rfl, rfl⟩

/-- A new sample is empty and the scan for a separator starts. -/
theorem openSample_spec (env : ScanEnv) (state : ScanState) :
    (openSample env state).2.bytes = state.bytes ∧
      (openSample env state).2.separatorCnt = 0 ∧ (openSample env state).1.data = [] ∧
      (openSample env state).2.sampleOverflows = state.sampleOverflows := by
  obtain ⟨hbytes, _, hover⟩ :=
    correctTimeTag_spec (state.tfirstchar + state.buftail * env.usecsPerByte) state
  exact ⟨hbytes, rfl, rfl, hover⟩

@[simp] theorem shipSample_data (osamp : OutSample) (state : ScanState) :
    (shipSample env params osamp state).1.data = params.terminate osamp.data := rfl

@[simp] theorem adjustSampleLengthAlloc_bytes (read : ℕ) (state : ScanState) :
    (adjustSampleLengthAlloc read state).bytes = state.bytes := by
  unfold adjustSampleLengthAlloc
  split_ifs <;> rfl

@[simp] theorem adjustSampleLengthAlloc_separatorCnt (read : ℕ) (state : ScanState) :
    (adjustSampleLengthAlloc read state).separatorCnt = state.separatorCnt := by
  unfold adjustSampleLengthAlloc
  split_ifs <;> rfl

@[simp] theorem adjustSampleLengthAlloc_sampleOverflows (read : ℕ) (state : ScanState) :
    (adjustSampleLengthAlloc read state).sampleOverflows = state.sampleOverflows := by
  unfold adjustSampleLengthAlloc
  split_ifs <;> rfl

@[simp] theorem adjustSampleLengthAlloc_osamp (read : ℕ) (state : ScanState) :
    (adjustSampleLengthAlloc read state).osamp = state.osamp := by
  unfold adjustSampleLengthAlloc
  split_ifs <;> rfl

/-- The sample before the separator is handed on, if there is one, and the next
one starts with the separator. -/
theorem bomFound_spec (osamp : OutSample) (state : ScanState) :
    ∃ result next after, bomFound env params osamp state = (result, next, after) ∧
      next.data = params.separator ∧ after.bytes = state.bytes ∧
      after.separatorCnt = state.separatorCnt ∧ after.sampleOverflows = state.sampleOverflows ∧
      (osamp.data = [] ∧ result = none ∨
        osamp.data ≠ [] ∧ ∃ sample, result = some sample ∧
          sample.data = params.terminate osamp.data) := by
  unfold bomFound
  by_cases hdata : osamp.data = []
  · rw [if_neg (not_not.mpr hdata)]
    obtain ⟨hbytes, hcnt, hover⟩ := correctTimeTag_spec state.bomtt state
    exact ⟨_, _, _, rfl, rfl, hbytes, hcnt, hover, Or.inl ⟨hdata, rfl⟩⟩
  · rw [if_pos hdata]
    obtain ⟨hbytes, hcnt, hover⟩ := correctTimeTag_spec
      (getCharSample env (shipSample env params osamp state).2.sampleLengthAlloc 0 []
        (shipSample env params osamp state).2).2.bomtt
      (getCharSample env (shipSample env params osamp state).2.sampleLengthAlloc 0 []
        (shipSample env params osamp state).2).2
    refine ⟨_, _, _, rfl, rfl, hbytes.trans ?_, hcnt.trans ?_, hover.trans ?_,
      Or.inr ⟨hdata, _, rfl, rfl⟩⟩
    all_goals simp [getCharSample, shipSample, handOn]

end Nidas.Core
