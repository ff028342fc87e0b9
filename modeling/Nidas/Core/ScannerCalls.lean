import Mathlib.Order.Nat
import Nidas.Core.SampleScanner

/-!
# Calls of the message stream scanner

The user of a `MessageStreamScanner` calls `readBuffer` and `nextSample` in some order.
`nextSample` is one of three methods, chosen by `setMessageParameters`; the one for
messages of a fixed length, with no separator, is added here.

A method is a loop over the characters of the buffer.  What is proved about every call
follows a property of the sample under construction from turn to turn, to the point where
the method returns.  `EomRule` and `BomRule` list the turns that there are, once: a property
that each of them keeps holds where the method returns.
-/

namespace Nidas.Core

variable (env : ScanEnv) (params : MessageParameters)

/-! ## Messages of a fixed length -/

/-- While there are no characters in the sample, each call sets its time tag. -/
def byLengthTag (osamp : OutSample) (state : ScanState) : OutSample × ScanState :=
  if osamp.data = [] then
    let (ttag, state) := correctTimeTag (state.tfirstchar + state.buftail * env.usecsPerByte) state
    ({ osamp with timeTag := ttag }, state)
  else (osamp, state)

/-- The sample is handed on when it has `getMessageLength()` characters.  Its data length
is left as `getSample` has set it; behind the characters of the message are then the
bytes that `memory` had. -/
def byLengthShip (memory : ℕ → UInt8) (osamp : OutSample) (state : ScanState) :
    Option Sample × ScanState :=
  if (osamp.data.length : ℤ) = params.messageLength then
    let unwritten := (List.range (state.sampleLengthAlloc - osamp.data.length)).map memory
    (some ⟨osamp.timeTag, .char, env.sensorId, osamp.data ++ unwritten⟩,
      { state with
        osamp := none
        sampleLengths := osamp.data.length :: state.sampleLengths })
  else (none, { state with osamp := some osamp })

/-- `MessageStreamScanner::nextSampleByLength` from the point where `_osamp` is set. -/
def byLengthBody (memory : ℕ → UInt8) (osamp : OutSample) (state : ScanState) :
    Option Sample × ScanState :=
  let (osamp, state) := byLengthTag env osamp state
  let nc := min state.bytes.length (params.messageLength - osamp.data.length).toNat
  if nc > 0 then
    match checkRoom env params nc osamp state with
    | .full result state => (some result, state)
    | .room osamp state =>
        byLengthShip env params memory { osamp with data := osamp.data ++ state.bytes.take nc }
          { state with bytes := state.bytes.drop nc, buftail := state.buftail + nc }
  else byLengthShip env params memory osamp state

/-- `MessageStreamScanner::nextSampleByLength` -/
def nextSampleByLength (memory : ℕ → UInt8) (state : ScanState) : Option Sample × ScanState :=
  match state.osamp with
  | none =>
      let (osamp, state) := getCharSample env state.sampleLengthAlloc 0 []
        { state with separatorCnt := 0 }
      byLengthBody env params memory osamp state
  | some osamp => byLengthBody env params memory osamp state

/-! ## The calls of the user -/

/-- `MessageStreamScanner::nextSample` -/
def nextSample (memory : ℕ → UInt8) (state : ScanState) : Option Sample × ScanState :=
  match params.nextSampleFunc with
  | .sepEOM => nextSampleSepEOM env params state
  | .sepBOM => nextSampleSepBOM env params state
  | .byLength => nextSampleByLength env params memory state

/-- A call of the user. -/
inductive ScanCall where
  | readBuffer (sensor : SensorRead)
  | nextSample
  deriving DecidableEq, Repr

/-- One call, and the sample that it returns. -/
def scanCall (memory : ℕ → UInt8) (bufsize : ℕ) (call : ScanCall) (state : ScanState) :
    Option Sample × ScanState :=
  match call with
  | .readBuffer sensor => (none, readBuffer env bufsize sensor state)
  | .nextSample => nextSample env params memory state

/-- The calls one after the other, and the samples that they return. -/
def scanCalls (memory : ℕ → UInt8) (bufsize : ℕ) :
    List ScanCall → ScanState → List Sample × ScanState
  | [], state => ([], state)
  | call :: calls, state =>
      let (result, state) := scanCall env params memory bufsize call state
      let (results, state) := scanCalls memory bufsize calls state
      (result.toList ++ results, state)

theorem scanCalls_cons (memory : ℕ → UInt8) (bufsize : ℕ) (call : ScanCall)
    (calls : List ScanCall) (state : ScanState) :
    scanCalls env params memory bufsize (call :: calls) state =
      ((scanCall env params memory bufsize call state).1.toList ++
          (scanCalls env params memory bufsize calls
            (scanCall env params memory bufsize call state).2).1,
        (scanCalls env params memory bufsize calls
          (scanCall env params memory bufsize call state).2).2) := rfl

/-! ## The test for space -/

variable {env params}

theorem requestBiggerSample_full {nc : ℕ} {osamp : OutSample} {state after : ScanState}
    {result : Sample} (h : requestBiggerSample env params nc osamp state = .full result after) :
    maxMessageStreamSampleSize < osamp.data.length + nc ∧
      result = ⟨osamp.timeTag, .char, env.sensorId,
        if params.nullTerminate ∧ osamp.data ≠ [] then osamp.data.dropLast ++ [0]
        else osamp.data⟩ ∧
      after = { state with
        sampleOverflows := state.sampleOverflows + 1
        osamp := none
        sampleLengths := result.data.length :: state.sampleLengths } := by
  unfold requestBiggerSample handOn at h
  dsimp only at h
  by_cases hmax : osamp.data.length + nc > maxMessageStreamSampleSize
  · rw [if_pos hmax] at h
    cases h
    exact ⟨hmax, rfl, rfl⟩
  · rw [if_neg hmax] at h
    cases h

/-- The sample has no room left and is handed on. -/
theorem checkRoom_full {nc : ℕ} {osamp : OutSample} {state after : ScanState} {result : Sample}
    (h : checkRoom env params nc osamp state = .full result after) :
    maxMessageStreamSampleSize < osamp.data.length + nc ∧
      result = ⟨osamp.timeTag, .char, env.sensorId,
        if params.nullTerminate ∧ osamp.data ≠ [] then osamp.data.dropLast ++ [0]
        else osamp.data⟩ ∧
      after = { state with
        sampleOverflows := state.sampleOverflows + 1
        osamp := none
        sampleLengths := result.data.length :: state.sampleLengths } := by
  unfold checkRoom at h
  split_ifs at h with halloc
  exact requestBiggerSample_full h

/-- There is room for `nc` characters, perhaps in a new sample with the same data. -/
theorem checkRoom_room {nc : ℕ} {osamp osamp' : OutSample} {state state' : ScanState}
    (h : checkRoom env params nc osamp state = .room osamp' state') :
    osamp.data.length + nc ≤ osamp'.alloc ∧
      (∃ alloc, osamp' = { osamp with alloc := alloc }) ∧
      ∃ calls, state' = { state with poolCalls := calls } := by
  unfold checkRoom at h
  split_ifs at h with halloc
  · unfold requestBiggerSample getCharSample at h
    dsimp only at h
    by_cases hmax : osamp.data.length + nc > maxMessageStreamSampleSize
    · rw [if_pos hmax] at h
      cases h
    · rw [if_neg hmax] at h
      cases h
      refine ⟨le_trans ?_ (env.pool.le_allocLength _ _), ⟨_, rfl⟩, ⟨_, rfl⟩⟩
      exact le_min (le_max_right _ _) (not_lt.mp hmax)
  · cases h
    exact ⟨not_lt.mp halloc, ⟨_, rfl⟩, ⟨_, rfl⟩⟩

theorem checkRoom_of_fits {nc : ℕ} {osamp : OutSample} (state : ScanState)
    (h : osamp.data.length + nc ≤ osamp.alloc) :
    checkRoom env params nc osamp state = .room osamp state := by
  unfold checkRoom
  rw [if_neg (not_lt.mpr h)]

theorem bomFound_separatorCnt {osamp osamp' : OutSample} {state state' : ScanState}
    {result : Option Sample} (h : bomFound env params osamp state = (result, osamp', state')) :
    state'.separatorCnt = state.separatorCnt := by
  obtain ⟨_, _, _, hfound, -, -, hcnt, -⟩ := @bomFound_spec env params osamp state
  rw [hfound] at h
  cases h
  exact hcnt

/-! ## What holds in every turn -/

variable (env params)

/-- A property `Inv` of the sample under construction that the turns of
`nextSampleSepEOM` keep, and that gives `Post` where the method returns. -/
structure EomRule (Inv : OutSample → ScanState → Prop) (Post : Option Sample → ScanState → Prop) :
    Prop where
  pause : ∀ {osamp : OutSample} {state : ScanState},
    Inv osamp state → state.bytes = [] →
      Post none { state with bytes := [], osamp := some osamp }
  full : ∀ {nc : ℕ} {osamp : OutSample} {state after : ScanState} {result : Sample},
    Inv osamp state → checkRoom env params nc osamp state = .full result after →
      Post (some result) after
  room : ∀ {nc : ℕ} {osamp osamp' : OutSample} {state state' : ScanState},
    Inv osamp state → checkRoom env params nc osamp state = .room osamp' state' → Inv osamp' state'
  copy : ∀ {nc : ℕ} {osamp : OutSample} {state : ScanState}, Inv osamp state →
    nc ≤ state.bytes.length → osamp.data.length + nc ≤ osamp.alloc →
      Inv { osamp with data := osamp.data ++ state.bytes.take nc }
        { state with bytes := state.bytes.drop nc, buftail := state.buftail + nc }
  char : ∀ {c : UInt8} {rest : List UInt8} {osamp : OutSample} {state : ScanState} (cnt : ℕ),
    Inv osamp state → state.bytes = c :: rest →
      osamp.data.length + (1 + params.nterm) ≤ osamp.alloc →
      Inv { osamp with data := osamp.data ++ [c] }
        { state with bytes := rest, buftail := state.buftail + 1, separatorCnt := cnt }
  ship : ∀ {c : UInt8} {rest : List UInt8} {osamp : OutSample} {state : ScanState} (cnt : ℕ),
    Inv osamp state → state.bytes = c :: rest →
      osamp.data.length + (1 + params.nterm) ≤ osamp.alloc →
      Post (some (shipSample env params { osamp with data := osamp.data ++ [c] }
          { state with
            bytes := rest
            buftail := state.buftail + 1
            separatorCnt := cnt
            osamp := none }).1)
        (shipSample env params { osamp with data := osamp.data ++ [c] }
          { state with
            bytes := rest
            buftail := state.buftail + 1
            separatorCnt := cnt
            osamp := none }).2

/-- Properties of the sample under construction that the turns of `nextSampleSepBOM` keep:
`Copy` behind a complete separator, where the fixed part is copied, and `Inv` in the search
for the next one.  They give `Post` where the method returns. -/
structure BomRule (Copy Inv : OutSample → ScanState → Prop)
    (Post : Option Sample → ScanState → Prop) : Prop where
  pause : ∀ {osamp : OutSample} {state : ScanState},
    Inv osamp state → Post none { state with osamp := some osamp }
  full : ∀ {osamp : OutSample} {state after : ScanState} {result : Sample},
    Inv osamp state →
      checkRoom env params (params.separator.length + params.nterm) osamp state =
        .full result after →
      Post (some result) after
  room : ∀ {osamp osamp' : OutSample} {state state' : ScanState},
    Inv osamp state →
      checkRoom env params (params.separator.length + params.nterm) osamp state =
        .room osamp' state' →
      Inv osamp' state'
  copyPause : ∀ {osamp : OutSample} {state : ScanState},
    Copy osamp state → Post none { state with osamp := some osamp }
  copyFull : ∀ {nc : ℕ} {osamp : OutSample} {state after : ScanState} {result : Sample},
    Copy osamp state → checkRoom env params nc osamp state = .full result after →
      Post (some result) after
  copyRoom : ∀ {nc : ℕ} {osamp osamp' : OutSample} {state state' : ScanState},
    Copy osamp state → nc ≤ state.bytes.length →
      checkRoom env params nc osamp state = .room osamp' state' →
      Copy { osamp' with data := osamp'.data ++ state'.bytes.take nc }
        { state' with bytes := state'.bytes.drop nc, buftail := state'.buftail + nc }
  search : ∀ {osamp : OutSample} {state : ScanState},
    Copy osamp state → Inv osamp { state with separatorCnt := 0 }
  char : ∀ {c : UInt8} {rest : List UInt8} {osamp : OutSample} {state : ScanState} (bomtt : ℤ),
    Inv osamp state → state.bytes = c :: rest →
      osamp.data.length + (params.separator.length + params.nterm) ≤ osamp.alloc →
      params.separator[state.separatorCnt]? = some c →
      state.separatorCnt + 1 ≠ params.separator.length →
      Inv osamp
        { state with
          bomtt := bomtt
          bytes := rest
          buftail := state.buftail + 1
          separatorCnt := state.separatorCnt + 1 }
  found : ∀ {c : UInt8} {rest : List UInt8} {osamp osamp' : OutSample} {state state' : ScanState}
      {result : Sample} (bomtt : ℤ),
    Inv osamp state → state.bytes = c :: rest →
      params.separator[state.separatorCnt]? = some c →
      state.separatorCnt + 1 = params.separator.length →
      bomFound env params osamp
        { state with
          bomtt := bomtt
          bytes := rest
          buftail := state.buftail + 1
          separatorCnt := state.separatorCnt + 1 } = (some result, osamp', state') →
      Post (some result) { state' with osamp := some osamp' }
  first : ∀ {c : UInt8} {rest : List UInt8} {osamp osamp' : OutSample} {state state' : ScanState}
      (bomtt : ℤ),
    Inv osamp state → state.bytes = c :: rest →
      params.separator[state.separatorCnt]? = some c →
      state.separatorCnt + 1 = params.separator.length →
      bomFound env params osamp
        { state with
          bomtt := bomtt
          bytes := rest
          buftail := state.buftail + 1
          separatorCnt := state.separatorCnt + 1 } = (none, osamp', state') →
      Copy osamp' state'
  giveUp : ∀ {osamp : OutSample} {state : ScanState},
    Inv osamp state → state.separatorCnt > 0 →
      Inv { osamp with
            data := osamp.data ++
              params.separator.take (bomGiveUp params.separator state.separatorCnt) }
        { state with
          separatorCnt :=
            state.separatorCnt - bomGiveUp params.separator state.separatorCnt }
  data : ∀ {c : UInt8} {rest : List UInt8} {osamp : OutSample} {state : ScanState},
    Inv osamp state → state.bytes = c :: rest → ¬state.separatorCnt > 0 →
      Inv { osamp with data := osamp.data ++ [c] }
        { state with bytes := rest, buftail := state.buftail + 1 }

variable {env params} {Copy Inv : OutSample → ScanState → Prop}
  {Post : Option Sample → ScanState → Prop}

theorem EomRule.loop (rule : EomRule env params Inv Post) (bytes : List UInt8)
    {osamp : OutSample} {state : ScanState} (hbytes : state.bytes = bytes)
    (h : Inv osamp state) :
    Post (eomLoop env params bytes osamp state).1 (eomLoop env params bytes osamp state).2 := by
  -- the recursion is on the bytes that are left in the buffer
  induction bytes generalizing osamp state with
  | nil => exact rule.pause h hbytes
  | cons c rest ih =>
    have hstate : { state with bytes := c :: rest } = state := by rw [← hbytes]
    unfold eomLoop
    rw [hstate]
    cases hroom : checkRoom env params (1 + params.nterm) osamp state with
    | full result after => exact rule.full h hroom
    | room osamp' state' =>
      have hnext := rule.room h hroom
      obtain ⟨hspace, ⟨alloc, rfl⟩, calls, rfl⟩ := checkRoom_room hroom
      dsimp only
      split_ifs with hmatch hlast
      · exact rule.ship _ hnext hbytes hspace
      · exact ih rfl (rule.char _ hnext hbytes hspace)
      · exact ih rfl (rule.char _ hnext hbytes hspace)

theorem EomRule.body (rule : EomRule env params Inv Post) {osamp : OutSample} {state : ScanState}
    (h : Inv osamp state) :
    Post (eomBody env params osamp state).1 (eomBody env params osamp state).2 := by
  unfold eomBody
  dsimp only
  split_ifs with hnc
  · generalize hn : min state.bytes.length (params.messageLength - osamp.data.length).toNat = nc
    cases hroom : checkRoom env params nc osamp state with
    | full result after => exact rule.full h hroom
    | room osamp' state' =>
      have hnext := rule.room h hroom
      obtain ⟨hspace, ⟨alloc, rfl⟩, calls, rfl⟩ := checkRoom_room hroom
      have hle : nc ≤ state.bytes.length := hn ▸ min_le_left _ _
      exact rule.loop _ rfl (rule.copy hnext hle hspace)
  · exact rule.loop _ rfl h

/-- The copy behind a separator, and what follows it. -/
theorem BomRule.afterCopy (rule : BomRule env params Copy Inv Post) {osamp : OutSample}
    {state : ScanState} (h : Copy osamp state) :
    match bomCopy env params osamp state with
    | .ret result after => Post result after
    | .go osamp' state' => Inv osamp' state' := by
  unfold bomCopy
  dsimp only
  generalize hn : min state.bytes.length
    (params.messageLength - (osamp.data.length - state.separatorCnt : ℤ)).toNat = nc
  split_ifs with hnc
  · cases hroom : checkRoom env params nc osamp state with
    | full result after => exact rule.copyFull h hroom
    | room osamp' state' =>
      have hcopied := rule.copyRoom h (hn ▸ min_le_left _ _) hroom
      dsimp only
      split_ifs with hempty
      · exact rule.copyPause hcopied
      · exact rule.search hcopied
  · exact rule.search h

theorem BomRule.loop (rule : BomRule env params Copy Inv Post) (fuel : ℕ) {osamp : OutSample}
    {state : ScanState} (h : Inv osamp state) :
    Post (bomLoop env params fuel osamp state).1 (bomLoop env params fuel osamp state).2 := by
  induction fuel generalizing osamp state with
  | zero => exact rule.pause h
  | succ fuel ih =>
    unfold bomLoop
    split
    next hbytes => exact rule.pause h
    next c rest hbytes =>
      cases hroom : checkRoom env params (params.separator.length + params.nterm) osamp state with
      | full result after => exact rule.full h hroom
      | room osamp' state' =>
        have hnext := rule.room h hroom
        obtain ⟨hspace, ⟨alloc, rfl⟩, calls, rfl⟩ := checkRoom_room hroom
        dsimp only
        by_cases hmatch : params.separator[state.separatorCnt]? = some c
        · rw [if_pos hmatch]
          by_cases hlast : state.separatorCnt + 1 = params.separator.length
          · rw [if_pos hlast]
            generalize hfound : bomFound env params _ _ = triple
            obtain ⟨_ | result, found, after⟩ := triple
            · -- no sample before the separator: the method calls itself
              have hcopy := rule.afterCopy (rule.first _ hnext hbytes hmatch hlast hfound)
              dsimp only
              generalize bomCopy env params found after = flow at hcopy ⊢
              cases flow with
              | ret result after => exact hcopy
              | go osamp state => exact ih hcopy
            · exact rule.found _ hnext hbytes hmatch hlast hfound
          · rw [if_neg hlast]
            exact ih (rule.char _ hnext hbytes hspace hmatch hlast)
        · rw [if_neg hmatch]
          by_cases hcnt : state.separatorCnt > 0
          · rw [if_pos hcnt]
            exact ih (rule.giveUp hnext hcnt)
          · rw [if_neg hcnt]
            exact ih (rule.data hnext hbytes hcnt)

theorem BomRule.body (rule : BomRule env params Copy Inv Post) {osamp : OutSample}
    {state : ScanState} (hcopy : state.separatorCnt = params.separator.length → Copy osamp state)
    (hsearch : state.separatorCnt ≠ params.separator.length → Inv osamp state) :
    Post (bomBody env params osamp state).1 (bomBody env params osamp state).2 := by
  unfold bomBody
  dsimp only
  split_ifs with hcnt
  · have hafter := rule.afterCopy (hcopy hcnt)
    generalize bomCopy env params osamp state = flow at hafter ⊢
    cases flow with
    | ret result after => exact hafter
    | go osamp state => exact rule.loop _ hafter
  · exact rule.loop _ (hsearch hcnt)

/-- One call of `nextSampleSepEOM`, from a state with or without a sample. -/
theorem EomRule.call (rule : EomRule env params Inv Post) {state : ScanState}
    (hopen : state.osamp = none → Inv (openSample env state).1 (openSample env state).2)
    (hsome : ∀ osamp, state.osamp = some osamp → Inv osamp state)
    (hnone : state.osamp = none → Post none state) :
    Post (nextSampleSepEOM env params state).1 (nextSampleSepEOM env params state).2 := by
  unfold nextSampleSepEOM
  cases hosamp : state.osamp with
  | none =>
    dsimp only
    split_ifs with hbytes
    · exact hnone hosamp
    · exact rule.body (hopen hosamp)
  | some osamp => exact rule.body (hsome osamp hosamp)

/-- One call of `nextSampleSepBOM`, from a state with or without a sample. -/
theorem BomRule.call (rule : BomRule env params Copy Inv Post) {state : ScanState}
    (hempty : state.osamp = none → params.separator = [] →
      Copy (openSample env state).1 (openSample env state).2)
    (hopen : state.osamp = none → state.bytes ≠ [] →
      Inv (openSample env state).1 (openSample env state).2)
    (hcopy : ∀ osamp, state.osamp = some osamp →
      state.separatorCnt = params.separator.length → Copy osamp state)
    (hsearch : ∀ osamp, state.osamp = some osamp →
      state.separatorCnt ≠ params.separator.length → Inv osamp state)
    (hnone : state.osamp = none → state.bytes = [] → Post none state) :
    Post (nextSampleSepBOM env params state).1 (nextSampleSepBOM env params state).2 := by
  unfold nextSampleSepBOM
  cases hosamp : state.osamp with
  | none =>
    dsimp only
    split_ifs with hbytes
    · exact hnone hosamp hbytes
    · refine rule.body (fun hcnt => ?_) (fun _ => hopen hosamp hbytes)
      rw [(openSample_spec env state).2.1] at hcnt
      exact hempty hosamp (List.eq_nil_of_length_eq_zero hcnt.symm)
  | some osamp => exact rule.body (hcopy osamp hosamp) (hsearch osamp hosamp)

end Nidas.Core
