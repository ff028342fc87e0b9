import Mathlib.Order.Nat
import Nidas.Core.ScannerBOM
import Nidas.Core.ScannerCalls

/-!
# Stores into the sample under construction

Every byte that the scanner stores goes into the memory that `getSample` has allocated for
`_osamp`.  The functions below list these stores, call by call, along the same branches as
the methods themselves: where each one starts, how many bytes it has and how many were
allocated.  A store in front of the first byte is one at index -1.

The methods test for space in front of each store, with two exceptions, both in
`nextSampleSepBOM`.  When a separator is complete behind other data, the separator is copied
into a new sample, whose length is the adjusted `_sampleLengthAlloc`, with no test that it is
as long as the separator.  And when an empty sample overflows, because there is never room
for the separator and the null terminator, the terminator is stored in front of its data.
Everything else stays inside (`accesses_inside_iff`).
-/

namespace Nidas.Core

variable (env : ScanEnv) (params : MessageParameters)

/-! ## The stores of each part -/

/-- What is done to the memory of a sample of `alloc` bytes. -/
inductive Access where
  | store (start : ℤ) (length alloc : ℕ)
  | setDataLength (length alloc : ℕ)
  deriving DecidableEq, Repr

/-- A store is within the memory of its sample; a data length does not exceed it. -/
def Access.Inside : Access → Prop
  | .store start length alloc => 0 ≤ start ∧ start + length ≤ alloc
  | .setDataLength length alloc => length ≤ alloc

instance : DecidablePred Access.Inside
  | .store start length alloc => inferInstanceAs (Decidable (0 ≤ start ∧ start + length ≤ alloc))
  | .setDataLength length alloc => inferInstanceAs (Decidable (length ≤ alloc))

/-- `requestBiggerSample`: the null terminator over the last byte and the data length, or
the copy into the new sample. -/
def requestBiggerAccesses (nc : ℕ) (osamp : OutSample) (state : ScanState) : List Access :=
  let read := osamp.data.length
  match requestBiggerSample env params nc osamp state with
  | .full _ _ =>
      (if params.nullTerminate then [.store (read - 1) 1 osamp.alloc] else []) ++
        [.setDataLength read osamp.alloc]
  | .room bigger _ => [.store 0 read bigger.alloc]

/-- The test for space. -/
def checkRoomAccesses (nc : ℕ) (osamp : OutSample) (state : ScanState) : List Access :=
  if osamp.data.length + nc > osamp.alloc then requestBiggerAccesses env params nc osamp state
  else []

/-- The terminator and the data length of a complete message. -/
def shipAccesses (osamp : OutSample) : List Access :=
  (if params.nullTerminate then [.store osamp.data.length 1 osamp.alloc] else []) ++
    [.setDataLength (params.terminate osamp.data).length osamp.alloc]

/-- The loop of `nextSampleSepEOM`. -/
def eomLoopAccesses : List UInt8 → OutSample → ScanState → List Access
  | [], _, _ => []
  | c :: rest, osamp, state =>
      checkRoomAccesses env params (1 + params.nterm) osamp { state with bytes := c :: rest } ++
      match checkRoom env params (1 + params.nterm) osamp { state with bytes := c :: rest } with
      | .full _ _ => []
      | .room osamp state =>
          .store osamp.data.length 1 osamp.alloc ::
          (let osamp := { osamp with data := osamp.data ++ [c] }
          let state := { state with bytes := rest, buftail := state.buftail + 1 }
          if params.separator[state.separatorCnt]? = some c then
            let state := { state with separatorCnt := state.separatorCnt + 1 }
            if state.separatorCnt = params.separator.length then shipAccesses params osamp
            else eomLoopAccesses rest osamp state
          else
            eomLoopAccesses rest osamp
              { state with
                separatorCnt := eomFallback params.separator state.separatorCnt c })

/-- A copy of `nc` characters from the buffer. -/
def copyAccesses (nc : ℕ) (osamp : OutSample) (state : ScanState) : List Access :=
  checkRoomAccesses env params nc osamp state ++
    match checkRoom env params nc osamp state with
    | .full _ _ => []
    | .room osamp _ => [.store osamp.data.length nc osamp.alloc]

/-- `nextSampleSepEOM` from the point where `_osamp` is set. -/
def eomBodyAccesses (osamp : OutSample) (state : ScanState) : List Access :=
  let nc := min state.bytes.length (params.messageLength - osamp.data.length).toNat
  if nc > 0 then
    copyAccesses env params nc osamp state ++
    match checkRoom env params nc osamp state with
    | .full _ _ => []
    | .room osamp state =>
        eomLoopAccesses env params (state.bytes.drop nc)
          { osamp with data := osamp.data ++ state.bytes.take nc }
          { state with bytes := state.bytes.drop nc, buftail := state.buftail + nc }
  else eomLoopAccesses env params state.bytes osamp state

/-- The copying section of `nextSampleSepBOM`. -/
def bomCopyAccesses (osamp : OutSample) (state : ScanState) : List Access :=
  let nc := (params.messageLength - (osamp.data.length - state.separatorCnt : ℤ)).toNat
  let nc := min state.bytes.length nc
  if nc > 0 then copyAccesses env params nc osamp state else []

/-- The separator is complete: the message in front of it is ready, and the separator is
copied to the beginning of the next sample. -/
def bomFoundAccesses (osamp : OutSample) (state : ScanState) : List Access :=
  (if osamp.data ≠ [] then shipAccesses params osamp else []) ++
    [.store 0 state.separatorCnt (bomFound env params osamp state).2.1.alloc]

/-- A character that matched, as `nextSampleSepBOM` takes it from the buffer. -/
def bomMatched (rest : List UInt8) (state : ScanState) : ScanState :=
  { state with
    bomtt := if state.separatorCnt = 0
      then state.tfirstchar + state.buftail * env.usecsPerByte else state.bomtt
    bytes := rest
    buftail := state.buftail + 1
    separatorCnt := state.separatorCnt + 1 }

/-- One turn of the loop of `nextSampleSepBOM`, with the character `c` at `_buftail`. -/
def bomTurn (c : UInt8) (rest : List UInt8) (osamp : OutSample) (state : ScanState) : Flow :=
  match checkRoom env params (params.separator.length + params.nterm) osamp state with
  | .full result state => .ret (some result) state
  | .room osamp state =>
      if params.separator[state.separatorCnt]? = some c then
        let state := bomMatched env rest state
        if state.separatorCnt = params.separator.length then
          match bomFound env params osamp state with
          | (some result, osamp, state) => .ret (some result) { state with osamp := some osamp }
          | (none, osamp, state) => bomCopy env params osamp state
        else .go osamp state
      else if state.separatorCnt > 0 then
        let ngive := bomGiveUp params.separator state.separatorCnt
        .go { osamp with data := osamp.data ++ params.separator.take ngive }
          { state with separatorCnt := state.separatorCnt - ngive }
      else
        .go { osamp with data := osamp.data ++ [c] }
          { state with bytes := rest, buftail := state.buftail + 1 }

/-- The stores of that turn, with the copying section of the recursive call. -/
def bomTurnAccesses (c : UInt8) (rest : List UInt8) (osamp : OutSample) (state : ScanState) :
    List Access :=
  checkRoomAccesses env params (params.separator.length + params.nterm) osamp state ++
  match checkRoom env params (params.separator.length + params.nterm) osamp state with
  | .full _ _ => []
  | .room osamp state =>
      if params.separator[state.separatorCnt]? = some c then
        let state := bomMatched env rest state
        if state.separatorCnt = params.separator.length then
          bomFoundAccesses env params osamp state ++
          match bomFound env params osamp state with
          | (some _, _, _) => []
          | (none, osamp, state) => bomCopyAccesses env params osamp state
        else []
      else if state.separatorCnt > 0 then
        [.store osamp.data.length (bomGiveUp params.separator state.separatorCnt) osamp.alloc]
      else [.store osamp.data.length 1 osamp.alloc]

/-- What the turns of the loop begin with: the character at `_buftail`, the rest of the
buffer, the sample and the other members. -/
structure BomTurn where
  c : UInt8
  rest : List UInt8
  osamp : OutSample
  state : ScanState
  deriving DecidableEq, Repr

/-- The stores of a turn. -/
def BomTurn.accesses (turn : BomTurn) : List Access :=
  bomTurnAccesses env params turn.c turn.rest turn.osamp turn.state

/-- The turns of the loop of `nextSampleSepBOM`. -/
def bomLoopTurns : ℕ → OutSample → ScanState → List BomTurn
  | 0, _, _ => []
  | fuel + 1, osamp, state =>
      match state.bytes with
      | [] => []
      | c :: rest =>
          ⟨c, rest, osamp, state⟩ ::
          match bomTurn env params c rest osamp state with
          | .ret _ _ => []
          | .go osamp state => bomLoopTurns fuel osamp state

/-- The turns of `nextSampleSepBOM` from the point where `_osamp` is set. -/
def bomBodyTurns (osamp : OutSample) (state : ScanState) : List BomTurn :=
  let fuel := 2 * state.bytes.length + params.separator.length + 1
  if state.separatorCnt = params.separator.length then
    match bomCopy env params osamp state with
    | .ret _ _ => []
    | .go osamp state => bomLoopTurns env params fuel osamp state
  else bomLoopTurns env params fuel osamp state

/-- `nextSampleSepBOM` from the point where `_osamp` is set. -/
def bomBodyAccesses (osamp : OutSample) (state : ScanState) : List Access :=
  (if state.separatorCnt = params.separator.length then bomCopyAccesses env params osamp state
    else []) ++
  (bomBodyTurns env params osamp state).flatMap (BomTurn.accesses env params)

/-- The data length of a message of fixed length is the one that `getSample` was asked for. -/
def byLengthShipAccesses (osamp : OutSample) (state : ScanState) : List Access :=
  if (osamp.data.length : ℤ) = params.messageLength then
    [.setDataLength state.sampleLengthAlloc osamp.alloc]
  else []

/-- `nextSampleByLength` from the point where `_osamp` is set. -/
def byLengthBodyAccesses (osamp : OutSample) (state : ScanState) : List Access :=
  let (osamp, state) := byLengthTag env osamp state
  let nc := min state.bytes.length (params.messageLength - osamp.data.length).toNat
  if nc > 0 then
    copyAccesses env params nc osamp state ++
    match checkRoom env params nc osamp state with
    | .full _ _ => []
    | .room osamp state =>
        byLengthShipAccesses params { osamp with data := osamp.data ++ state.bytes.take nc } state
  else byLengthShipAccesses params osamp state

/-! ## The stores of a run -/

/-- The stores of a call of `nextSampleSepEOM`. -/
def nextSampleSepEOMAccesses (state : ScanState) : List Access :=
  match state.osamp with
  | none =>
      if state.bytes = [] then []
      else eomBodyAccesses env params (openSample env state).1 (openSample env state).2
  | some osamp => eomBodyAccesses env params osamp state

/-- The stores of a call of `nextSampleSepBOM`. -/
def nextSampleSepBOMAccesses (state : ScanState) : List Access :=
  match state.osamp with
  | none =>
      if state.bytes = [] then []
      else bomBodyAccesses env params (openSample env state).1 (openSample env state).2
  | some osamp => bomBodyAccesses env params osamp state

/-- The turns of the loop in a call of `nextSampleSepBOM`. -/
def nextSampleSepBOMTurns (state : ScanState) : List BomTurn :=
  match state.osamp with
  | none =>
      if state.bytes = [] then []
      else bomBodyTurns env params (openSample env state).1 (openSample env state).2
  | some osamp => bomBodyTurns env params osamp state

/-- The stores of a call of `nextSampleByLength`. -/
def nextSampleByLengthAccesses (state : ScanState) : List Access :=
  match state.osamp with
  | none =>
      let (osamp, state) := getCharSample env state.sampleLengthAlloc 0 []
        { state with separatorCnt := 0 }
      byLengthBodyAccesses env params osamp state
  | some osamp => byLengthBodyAccesses env params osamp state

/-- The stores of one call. -/
def nextSampleAccesses (state : ScanState) : List Access :=
  match params.nextSampleFunc with
  | .sepEOM => nextSampleSepEOMAccesses env params state
  | .sepBOM => nextSampleSepBOMAccesses env params state
  | .byLength => nextSampleByLengthAccesses env params state

/-- The turns of the loop in `nextSampleSepBOM` that one call makes. -/
def nextSampleTurns (state : ScanState) : List BomTurn :=
  match params.nextSampleFunc with
  | .sepBOM => nextSampleSepBOMTurns env params state
  | .sepEOM | .byLength => []

/-- The stores of all calls. -/
def runAccesses (memory : ℕ → UInt8) (bufsize : ℕ) : List ScanCall → ScanState → List Access
  | [], _ => []
  | call :: calls, state =>
      (match call with
        | .readBuffer _ => []
        | .nextSample => nextSampleAccesses env params state) ++
      runAccesses memory bufsize calls (scanCall env params memory bufsize call state).2

/-- The turns of the loop in `nextSampleSepBOM` that all calls make. -/
def runTurns (memory : ℕ → UInt8) (bufsize : ℕ) : List ScanCall → ScanState → List BomTurn
  | [], _ => []
  | call :: calls, state =>
      (match call with
        | .readBuffer _ => []
        | .nextSample => nextSampleTurns env params state) ++
      runTurns memory bufsize calls (scanCall env params memory bufsize call state).2

/-- There is no room for the separator in the sample, and no bigger one. -/
def BomTurn.Overflows (turn : BomTurn) : Prop :=
  turn.osamp.alloc < turn.osamp.data.length + (params.separator.length + params.nterm) ∧
    maxMessageStreamSampleSize <
      turn.osamp.data.length + (params.separator.length + params.nterm)

/-- The character completes the separator. -/
def BomTurn.Completes (turn : BomTurn) : Prop :=
  params.separator[turn.state.separatorCnt]? = some turn.c ∧
    turn.state.separatorCnt + 1 = params.separator.length

/-- A null terminated sample that overflows is not empty, and where the separator is complete
behind other data, the next sample will be as long as the separator. -/
def BomTurn.Fits (turn : BomTurn) : Prop :=
  (turn.Overflows params → params.nullTerminate = true → turn.osamp.data ≠ []) ∧
    (¬turn.Overflows params → turn.Completes params → turn.osamp.data ≠ [] →
      params.separator.length ≤
        (adjustSampleLengthAlloc (params.terminate turn.osamp.data).length
          turn.state).sampleLengthAlloc)

instance (turn : BomTurn) : Decidable (turn.Overflows params) :=
  inferInstanceAs (Decidable (_ ∧ _))

instance (turn : BomTurn) : Decidable (turn.Completes params) :=
  inferInstanceAs (Decidable (_ ∧ _))

instance (turn : BomTurn) : Decidable (turn.Fits params) :=
  inferInstanceAs (Decidable (_ ∧ _))

/-! ## The test for space -/

variable {env params}

theorem Access.inside_store {start length alloc : ℕ} (h : start + length ≤ alloc) :
    (Access.store start length alloc).Inside := by
  unfold Access.Inside
  omega

theorem forall_mem_singleton_inside {access : Access} (h : access.Inside) :
    ∀ a ∈ [access], a.Inside := by
  intro a ha
  rw [List.mem_singleton.mp ha]
  exact h

theorem forall_mem_nil_inside : ∀ a ∈ ([] : List Access), a.Inside := by
  intro a ha
  cases ha

theorem checkRoomAccesses_of_room {nc : ℕ} {osamp osamp' : OutSample} {state state' : ScanState}
    (h : checkRoom env params nc osamp state = .room osamp' state') :
    ∀ access ∈ checkRoomAccesses env params nc osamp state, access.Inside := by
  obtain ⟨hspace, -, -⟩ := checkRoom_room h
  unfold checkRoom at h
  unfold checkRoomAccesses
  split_ifs at h ⊢ with halloc
  · unfold requestBiggerAccesses
    dsimp only
    rw [h]
    apply forall_mem_singleton_inside
    apply @Access.inside_store 0
    omega
  · exact forall_mem_nil_inside

/-- A sample that overflows: the terminator goes over the last byte, if there is one. -/
theorem checkRoomAccesses_of_full {nc : ℕ} {osamp : OutSample} {state after : ScanState}
    {result : Sample} (hfits : osamp.data.length ≤ osamp.alloc)
    (h : checkRoom env params nc osamp state = .full result after) :
    (∀ access ∈ checkRoomAccesses env params nc osamp state, access.Inside) ↔
      (params.nullTerminate = true → osamp.data ≠ []) := by
  unfold checkRoom at h
  unfold checkRoomAccesses
  split_ifs at h ⊢ with halloc
  unfold requestBiggerAccesses
  dsimp only
  rw [h]
  cases params.nullTerminate with
  | false => simp [Access.Inside, hfits]
  | true =>
    simp only [↓reduceIte, List.cons_append, List.nil_append, List.mem_cons, List.not_mem_nil,
      or_false, forall_eq_or_imp, forall_eq, forall_const, Access.Inside]
    rw [ne_eq, ← List.length_eq_zero_iff]
    omega

/-- The copy of characters from the buffer. -/
theorem copyAccesses_inside {nc : ℕ} {osamp : OutSample} {state : ScanState}
    (hfits : osamp.data.length ≤ osamp.alloc)
    (hfull : ∀ result after, checkRoom env params nc osamp state = .full result after →
      params.nullTerminate = true → osamp.data ≠ []) :
    ∀ access ∈ copyAccesses env params nc osamp state, access.Inside := by
  unfold copyAccesses
  rw [List.forall_mem_append]
  cases hroom : checkRoom env params nc osamp state with
  | full result after =>
    exact ⟨(checkRoomAccesses_of_full hfits hroom).mpr (hfull result after hroom),
      forall_mem_nil_inside⟩
  | room osamp' state' =>
    refine ⟨checkRoomAccesses_of_room hroom, ?_⟩
    obtain ⟨hspace, ⟨_, rfl⟩, -⟩ := checkRoom_room hroom
    exact forall_mem_singleton_inside (Access.inside_store hspace)

theorem shipAccesses_inside {osamp : OutSample}
    (hspace : osamp.data.length + params.nterm ≤ osamp.alloc) :
    ∀ access ∈ shipAccesses params osamp, access.Inside := by
  unfold shipAccesses MessageParameters.terminate
  unfold MessageParameters.nterm at hspace
  cases hnull : params.nullTerminate with
  | false =>
    rw [hnull] at hspace
    exact forall_mem_singleton_inside hspace
  | true =>
    rw [hnull] at hspace
    rw [List.forall_mem_append]
    refine ⟨forall_mem_singleton_inside (Access.inside_store hspace), ?_⟩
    apply forall_mem_singleton_inside
    unfold Access.Inside
    rw [if_pos rfl, List.length_append]
    exact hspace

/-! ## Separator at the end of the message -/

/-- The bytes of the sample under construction lie in its memory. -/
def SampleFits (state : ScanState) : Prop :=
  ∀ osamp, state.osamp = some osamp → osamp.data.length ≤ osamp.alloc

theorem SampleFits.of_none {state : ScanState} (h : state.osamp = none) : SampleFits state := by
  intro osamp hosamp
  rw [h] at hosamp
  cases hosamp

theorem SampleFits.of_some {state : ScanState} {osamp : OutSample} (hosamp : state.osamp = some osamp)
    (h : osamp.data.length ≤ osamp.alloc) : SampleFits state := by
  intro other hother
  rw [hosamp] at hother
  cases hother
  exact h

theorem sampleFits_of_full {nc : ℕ} {osamp : OutSample} {state after : ScanState}
    {result : Sample} (h : checkRoom env params nc osamp state = .full result after) :
    SampleFits after := by
  obtain ⟨-, -, rfl⟩ := checkRoom_full h
  exact .of_none rfl

theorem eomRule_fits :
    EomRule env params (fun osamp _ => osamp.data.length ≤ osamp.alloc)
      (fun _ after => SampleFits after) where
  pause h _ := .of_some rfl h
  full _ hfull := sampleFits_of_full hfull
  room := by
    intro nc osamp osamp' state state' h hroom
    obtain ⟨hspace, ⟨_, rfl⟩, -⟩ := checkRoom_room hroom
    exact le_trans (Nat.le_add_right _ _) hspace
  copy := by
    intro nc osamp state h hle hspace
    rw [List.length_append, List.length_take, min_eq_left hle]
    exact hspace
  char := by
    intro c rest osamp state cnt h hbytes hspace
    dsimp only
    rw [List.length_append, List.length_singleton]
    omega
  ship := by
    intro c rest osamp state cnt h hbytes hspace
    apply SampleFits.of_none
    exact adjustSampleLengthAlloc_osamp _ _

theorem eomLoopAccesses_inside (bytes : List UInt8) {osamp : OutSample} {state : ScanState}
    (hfits : osamp.data.length ≤ osamp.alloc) :
    ∀ access ∈ eomLoopAccesses env params bytes osamp state, access.Inside := by
  induction bytes generalizing osamp state with
  | nil => exact forall_mem_nil_inside
  | cons c rest ih =>
    have hnterm := nterm_le_one params
    unfold eomLoopAccesses
    rw [List.forall_mem_append]
    cases hroom : checkRoom env params (1 + params.nterm) osamp
        { state with bytes := c :: rest } with
    | full result after =>
      refine ⟨(checkRoomAccesses_of_full hfits hroom).mpr fun _ hempty => ?_,
        forall_mem_nil_inside⟩
      -- one character and a terminator fit into any sample
      have hmax := (checkRoom_full hroom).1
      rw [hempty, maxMessageStreamSampleSize] at hmax
      simp only [List.length_nil] at hmax
      omega
    | room osamp' state' =>
      refine ⟨checkRoomAccesses_of_room hroom, ?_⟩
      obtain ⟨hspace, ⟨alloc, rfl⟩, calls, rfl⟩ := checkRoom_room hroom
      dsimp only at hspace ⊢
      have hlength : (osamp.data ++ [c]).length + params.nterm ≤ alloc := by
        rw [List.length_append, List.length_singleton]
        omega
      rw [List.forall_mem_cons]
      refine ⟨Access.inside_store (by omega), ?_⟩
      split_ifs
      · exact shipAccesses_inside hlength
      · exact ih (le_trans (Nat.le_add_right _ _) hlength)
      · exact ih (le_trans (Nat.le_add_right _ _) hlength)

/-- The message length that `setMessageParameters` accepts fits a sample. -/
theorem messageLength_le {len : UInt32} {sepexp : List UInt8} {eom nullTerminate : Bool}
    (hparams : setMessageParameters len sepexp eom nullTerminate = .ok params) :
    params.messageLength ≤ maxMessageStreamSampleSize := by
  obtain ⟨hlen, -, hslen, hmax⟩ := setMessageParameters_ok hparams
  rw [hlen, toInt_toInt32]
  have hlt := len.toNat_lt
  unfold maxMessageStreamSampleSize at hmax ⊢
  split_ifs <;> omega

/-- No more than the message length is copied. -/
theorem checkRoom_copy_ne_full (hlen : params.messageLength ≤ maxMessageStreamSampleSize)
    {nc : ℕ} {osamp : OutSample} {state : ScanState}
    (hnc : nc = min state.bytes.length (params.messageLength - osamp.data.length).toNat)
    (hpos : nc > 0) (result : Sample) (after : ScanState) :
    checkRoom env params nc osamp state ≠ .full result after := by
  intro hfull
  have hmax := (checkRoom_full hfull).1
  omega

theorem eomBodyAccesses_inside (hlen : params.messageLength ≤ maxMessageStreamSampleSize)
    {osamp : OutSample} {state : ScanState} (hfits : osamp.data.length ≤ osamp.alloc) :
    ∀ access ∈ eomBodyAccesses env params osamp state, access.Inside := by
  unfold eomBodyAccesses
  dsimp only
  generalize hnc : min state.bytes.length (params.messageLength - osamp.data.length).toNat = nc
  split_ifs with hpos
  · have hnever := @checkRoom_copy_ne_full env params hlen nc osamp state hnc.symm hpos
    rw [List.forall_mem_append]
    refine ⟨copyAccesses_inside hfits fun result after hfull => absurd hfull (hnever _ _), ?_⟩
    cases hroom : checkRoom env params nc osamp state with
    | full result after => exact forall_mem_nil_inside
    | room osamp' state' =>
      obtain ⟨hspace, ⟨_, rfl⟩, _, rfl⟩ := checkRoom_room hroom
      apply eomLoopAccesses_inside
      rw [List.length_append, List.length_take]
      dsimp only at hspace ⊢
      omega
  · exact eomLoopAccesses_inside _ hfits

/-! ## Messages of a fixed length -/

theorem byLengthTag_spec (osamp : OutSample) (state : ScanState) :
    (byLengthTag env osamp state).1.data = osamp.data ∧
      (byLengthTag env osamp state).1.alloc = osamp.alloc ∧
      (byLengthTag env osamp state).2.sampleLengthAlloc = state.sampleLengthAlloc := by
  unfold byLengthTag correctTimeTag
  dsimp only
  split_ifs <;> exact ⟨rfl, rfl, rfl⟩

/-- A message of fixed length fits the samples that are asked for. -/
structure FixedFits (params : MessageParameters) (state : ScanState) : Prop where
  messageLength_le : params.messageLength ≤ state.sampleLengthAlloc
  fits : SampleFits state
  asked_le : ∀ osamp, state.osamp = some osamp → state.sampleLengthAlloc ≤ osamp.alloc

theorem FixedFits.byLengthShip {memory : ℕ → UInt8} {osamp : OutSample} {state : ScanState}
    (hlen : params.messageLength ≤ state.sampleLengthAlloc)
    (hfits : osamp.data.length ≤ osamp.alloc) (hasked : state.sampleLengthAlloc ≤ osamp.alloc) :
    FixedFits params (byLengthShip env params memory osamp state).2 := by
  unfold Nidas.Core.byLengthShip
  split_ifs with hlength
  · refine ⟨hlen, .of_none rfl, fun other hother => ?_⟩
    cases hother
  · refine ⟨hlen, .of_some rfl hfits, fun other hother => ?_⟩
    cases hother
    exact hasked

theorem byLengthShipAccesses_inside {osamp : OutSample} {state : ScanState}
    (hasked : state.sampleLengthAlloc ≤ osamp.alloc) :
    ∀ access ∈ byLengthShipAccesses params osamp state, access.Inside := by
  unfold byLengthShipAccesses
  split_ifs
  · exact forall_mem_singleton_inside hasked
  · exact forall_mem_nil_inside

/-- In messages of a fixed length the test for space always passes. -/
theorem byLengthBody_inside (memory : ℕ → UInt8) {osamp : OutSample} {state : ScanState}
    (hlen : params.messageLength ≤ state.sampleLengthAlloc)
    (hfits : osamp.data.length ≤ osamp.alloc) (hasked : state.sampleLengthAlloc ≤ osamp.alloc) :
    (∀ access ∈ byLengthBodyAccesses env params osamp state, access.Inside) ∧
      FixedFits params (byLengthBody env params memory osamp state).2 := by
  obtain ⟨hdata, halloc, hsame⟩ := @byLengthTag_spec env osamp state
  unfold byLengthBodyAccesses byLengthBody
  generalize byLengthTag env osamp state = tagged at *
  obtain ⟨tagged, after⟩ := tagged
  dsimp only at *
  rw [← hsame] at hlen hasked
  rw [← hdata, ← halloc] at hfits
  rw [← halloc] at hasked
  generalize hnc : min after.bytes.length (params.messageLength - tagged.data.length).toNat = nc
  split_ifs with hpos
  · have hspace : tagged.data.length + nc ≤ tagged.alloc := by omega
    have hcopied : (tagged.data ++ after.bytes.take nc).length ≤ tagged.alloc := by
      rw [List.length_append, List.length_take]
      omega
    rw [List.forall_mem_append, checkRoom_of_fits after hspace]
    refine ⟨⟨copyAccesses_inside hfits fun result later hfull => ?_, ?_⟩, ?_⟩
    · rw [checkRoom_of_fits after hspace] at hfull
      cases hfull
    · exact byLengthShipAccesses_inside hasked
    · exact FixedFits.byLengthShip hlen hcopied hasked
  · exact ⟨byLengthShipAccesses_inside hasked, FixedFits.byLengthShip hlen hfits hasked⟩

/-! ## Separator at the beginning of the message -/

/-- The sample under construction lies in its memory, and behind a separator it is not
empty. -/
structure BomFits (params : MessageParameters) (state : ScanState) : Prop where
  count_le : state.separatorCnt ≤ params.separator.length
  fits : SampleFits state
  whole : state.separatorCnt = params.separator.length →
    ∀ osamp, state.osamp = some osamp → osamp.data ≠ []

/-- The loop of `nextSampleSepBOM`, turn by turn. -/
theorem bomLoop_turn (fuel : ℕ) {c : UInt8} {rest : List UInt8} (osamp : OutSample)
    {state : ScanState} (hbytes : state.bytes = c :: rest) :
    bomLoop env params (fuel + 1) osamp state =
      match bomTurn env params c rest osamp state with
      | .ret result after => (result, after)
      | .go osamp state => bomLoop env params fuel osamp state := by
  rw [bomLoop, hbytes]
  unfold bomTurn
  dsimp only
  cases checkRoom env params (params.separator.length + params.nterm) osamp state with
  | full result after => rfl
  | room osamp' state' =>
    dsimp only
    by_cases hmatch : params.separator[state'.separatorCnt]? = some c
    · rw [if_pos hmatch, if_pos hmatch]
      by_cases hlast : (bomMatched env rest state').separatorCnt = params.separator.length
      · rw [if_pos hlast, if_pos (show state'.separatorCnt + 1 = _ from hlast)]
        unfold bomMatched
        generalize bomFound env params _ _ = triple
        obtain ⟨_ | result, found, after⟩ := triple <;> rfl
      · rw [if_neg hlast, if_neg (show ¬state'.separatorCnt + 1 = _ from hlast)]
        rfl
    · rw [if_neg hmatch, if_neg hmatch]
      by_cases hcnt : state'.separatorCnt > 0
      · rw [if_pos hcnt, if_pos hcnt]
      · rw [if_neg hcnt, if_neg hcnt]

/-- The copying section stays inside, whatever the message length. -/
theorem bomCopy_inside (hseparator : params.separator ≠ []) {osamp : OutSample}
    {state : ScanState} (hfits : osamp.data.length ≤ osamp.alloc) (hdata : osamp.data ≠ [])
    (hcnt : state.separatorCnt = params.separator.length) :
    (∀ access ∈ bomCopyAccesses env params osamp state, access.Inside) ∧
      match bomCopy env params osamp state with
      | .ret _ after => BomFits params after
      | .go osamp' state' => osamp'.data.length ≤ osamp'.alloc ∧
          state'.separatorCnt < params.separator.length := by
  have hpositive : 0 < params.separator.length := List.length_pos_iff.mpr hseparator
  unfold bomCopyAccesses bomCopy
  dsimp only
  generalize hnc : min state.bytes.length
    (params.messageLength - (osamp.data.length - state.separatorCnt : ℤ)).toNat = nc
  split_ifs with hpos
  · refine ⟨copyAccesses_inside hfits fun _ _ _ _ => hdata, ?_⟩
    cases hroom : checkRoom env params nc osamp state with
    | full result after =>
      obtain ⟨-, -, rfl⟩ := checkRoom_full hroom
      refine ⟨hcnt.le, .of_none rfl, fun _ other hother => ?_⟩
      cases hother
    | room osamp' state' =>
      obtain ⟨hspace, ⟨alloc, rfl⟩, calls, rfl⟩ := checkRoom_room hroom
      have hcopied : (osamp.data ++ state.bytes.take nc).length ≤ alloc := by
        rw [List.length_append, List.length_take]
        dsimp only at hspace
        omega
      dsimp only
      split_ifs with hempty
      · refine ⟨hcnt.le, .of_some rfl hcopied, fun _ other hother => ?_⟩
        cases hother
        exact List.append_ne_nil_of_left_ne_nil hdata _
      · exact ⟨hcopied, hpositive⟩
  · exact ⟨forall_mem_nil_inside, hfits, hpositive⟩

/-- The adjusted length depends on the old one and the count of small samples. -/
theorem adjustSampleLengthAlloc_congr (read : ℕ) {state other : ScanState}
    (halloc : state.sampleLengthAlloc = other.sampleLengthAlloc)
    (hsmall : state.nsmallSamples = other.nsmallSamples) :
    (adjustSampleLengthAlloc read state).sampleLengthAlloc =
      (adjustSampleLengthAlloc read other).sampleLengthAlloc := by
  unfold adjustSampleLengthAlloc
  rw [halloc, hsmall]
  split_ifs <;> rfl

/-- The separator goes into the sample that has room for it, or, behind other data, into a
new one of the adjusted length. -/
theorem bomFound_alloc (hpool : env.pool = exactPool) (osamp : OutSample) (state : ScanState) :
    (bomFound env params osamp state).2.1.alloc =
      if osamp.data ≠ [] then
        (adjustSampleLengthAlloc (params.terminate osamp.data).length state).sampleLengthAlloc
      else osamp.alloc := by
  unfold bomFound shipSample handOn getCharSample
  dsimp only
  split_ifs
  · rw [hpool]
    exact adjustSampleLengthAlloc_congr _ rfl rfl
  · rfl

/-- The separator is complete. -/
theorem bomFound_inside (hpool : env.pool = exactPool) (hseparator : params.separator ≠ [])
    {osamp : OutSample} {state : ScanState}
    (hspace : osamp.data.length + (params.separator.length + params.nterm) ≤ osamp.alloc)
    (hcnt : state.separatorCnt = params.separator.length) {result : Option Sample}
    {osamp' : OutSample} {state' : ScanState}
    (hfound : bomFound env params osamp state = (result, osamp', state')) :
    ((∀ access ∈ bomFoundAccesses env params osamp state, access.Inside) ↔
        (osamp.data ≠ [] → params.separator.length ≤
          (adjustSampleLengthAlloc (params.terminate osamp.data).length
            state).sampleLengthAlloc)) ∧
      ((osamp.data ≠ [] → params.separator.length ≤
          (adjustSampleLengthAlloc (params.terminate osamp.data).length
            state).sampleLengthAlloc) →
        osamp'.data.length ≤ osamp'.alloc) ∧
      osamp'.data ≠ [] ∧ state'.separatorCnt = params.separator.length ∧
      (result = none → osamp.data = []) := by
  have halloc := @bomFound_alloc env params hpool osamp state
  obtain ⟨_, _, _, hspec, hdata, -, hsame, -, hresult⟩ := @bomFound_spec env params osamp state
  rw [hspec] at hfound
  cases hfound
  have hnone : result = none → osamp.data = [] := by
    rintro rfl
    obtain ⟨hempty, -⟩ | ⟨-, _, hsome, -⟩ := hresult
    · exact hempty
    · cases hsome
  rw [hspec] at halloc
  dsimp only at halloc
  have hship := @shipAccesses_inside params osamp (by omega)
  refine ⟨?_, ?_, hdata ▸ hseparator, hsame.trans hcnt, hnone⟩
  · unfold bomFoundAccesses
    rw [List.forall_mem_append, List.forall_mem_singleton, hspec, hcnt]
    dsimp only [Access.Inside]
    rw [halloc]
    split_ifs with hempty
    · refine ⟨fun h _ => by omega, fun h => ⟨hship, by have := h hempty; omega⟩⟩
    · refine ⟨fun _ hne => absurd hne hempty, fun _ => ⟨forall_mem_nil_inside, by omega⟩⟩
  · intro hlong
    rw [hdata, halloc]
    split_ifs with hempty
    · exact hlong hempty
    · omega

/-- The whole turn: its stores are inside if and only if the turn fits, and then what is
stored next finds the sample in order. -/
theorem bomTurn_inside (hpool : env.pool = exactPool) (hseparator : params.separator ≠ [])
    {c : UInt8} {rest : List UInt8} {osamp : OutSample} {state : ScanState}
    (hfits : osamp.data.length ≤ osamp.alloc)
    (hcnt : state.separatorCnt < params.separator.length) :
    ((∀ access ∈ bomTurnAccesses env params c rest osamp state, access.Inside) ↔
        BomTurn.Fits params ⟨c, rest, osamp, state⟩) ∧
      (BomTurn.Fits params ⟨c, rest, osamp, state⟩ →
        match bomTurn env params c rest osamp state with
        | .ret _ after => BomFits params after
        | .go osamp' state' => osamp'.data.length ≤ osamp'.alloc ∧
            state'.separatorCnt < params.separator.length) := by
  unfold bomTurnAccesses bomTurn BomTurn.Fits
  rw [List.forall_mem_append]
  cases hroom : checkRoom env params (params.separator.length + params.nterm) osamp state with
  | full result after =>
    have hover : BomTurn.Overflows params ⟨c, rest, osamp, state⟩ := by
      refine ⟨?_, (checkRoom_full hroom).1⟩
      by_contra hle
      rw [checkRoom_of_fits state (not_lt.mp hle)] at hroom
      cases hroom
    constructor
    · rw [checkRoomAccesses_of_full hfits hroom]
      constructor
      · exact fun h => ⟨fun _ => h.1, fun hnot => absurd hover hnot⟩
      · exact fun h => ⟨h.1 hover, forall_mem_nil_inside⟩
    · intro _
      obtain ⟨-, -, rfl⟩ := checkRoom_full hroom
      refine ⟨hcnt.le, .of_none rfl, fun _ other hother => ?_⟩
      cases hother
  | room osamp' state' =>
    have hover : ¬BomTurn.Overflows params ⟨c, rest, osamp, state⟩ := by
      rintro ⟨halloc, hmax⟩
      unfold checkRoom requestBiggerSample at hroom
      rw [if_pos halloc, if_pos hmax] at hroom
      cases hroom
    have hbefore := checkRoomAccesses_of_room hroom
    obtain ⟨hspace, ⟨alloc, rfl⟩, calls, rfl⟩ := checkRoom_room hroom
    -- when the separator is not complete, the turn fits
    have hfit_of : (¬BomTurn.Completes params ⟨c, rest, osamp, state⟩) →
        BomTurn.Fits params ⟨c, rest, osamp, state⟩ := fun hnot =>
      ⟨fun h => absurd h hover, fun _ h => absurd h hnot⟩
    dsimp only at hspace ⊢
    by_cases hmatch : params.separator[state.separatorCnt]? = some c
    · rw [if_pos hmatch, if_pos hmatch]
      by_cases hlast : state.separatorCnt + 1 = params.separator.length
      · have hmatched : (bomMatched env rest { state with poolCalls := calls }).separatorCnt =
            params.separator.length := hlast
        rw [if_pos hmatched, if_pos hmatched]
        generalize hfound : bomFound env params _ _ = triple
        obtain ⟨result, found, after⟩ := triple
        obtain ⟨hiff, hlong, hne, hafter, hnone⟩ :=
          bomFound_inside hpool hseparator hspace hmatched hfound
        have hadjust := @adjustSampleLengthAlloc_congr (params.terminate osamp.data).length
          (bomMatched env rest { state with poolCalls := calls }) state rfl rfl
        dsimp only at hiff hlong hnone
        rw [hadjust] at hiff hlong
        have hfit : BomTurn.Fits params ⟨c, rest, osamp, state⟩ ↔
            (osamp.data ≠ [] → params.separator.length ≤ (adjustSampleLengthAlloc
              (params.terminate osamp.data).length state).sampleLengthAlloc) :=
          ⟨fun h => h.2 hover ⟨hmatch, hlast⟩, fun h => ⟨fun hover' => absurd hover' hover,
            fun _ _ => h⟩⟩
        change (_ ↔ BomTurn.Fits params ⟨c, rest, osamp, state⟩) ∧
          (BomTurn.Fits params ⟨c, rest, osamp, state⟩ → _)
        rw [hfit, List.forall_mem_append, hiff]
        cases result with
        | some result =>
          refine ⟨⟨fun h => h.2.1, fun h => ⟨hbefore, h, forall_mem_nil_inside⟩⟩, fun h => ?_⟩
          refine ⟨hafter.le, .of_some rfl (hlong h), fun _ other hother => ?_⟩
          cases hother
          exact hne
        | none =>
          have hempty : osamp.data ≠ [] → params.separator.length ≤ (adjustSampleLengthAlloc
              (params.terminate osamp.data).length state).sampleLengthAlloc :=
            fun hdata => absurd (hnone rfl) hdata
          obtain ⟨hcopy, hnext⟩ :=
            @bomCopy_inside env params hseparator found after (hlong hempty) hne hafter
          exact ⟨⟨fun h => h.2.1, fun h => ⟨hbefore, h, hcopy⟩⟩, fun _ => hnext⟩
      · have hmatched : ¬(bomMatched env rest { state with poolCalls := calls }).separatorCnt =
            params.separator.length := hlast
        rw [if_neg hmatched, if_neg hmatched]
        refine ⟨iff_of_true ⟨hbefore, forall_mem_nil_inside⟩ (hfit_of fun h => hlast h.2),
          fun _ => ⟨?_, lt_of_le_of_ne hcnt hlast⟩⟩
        dsimp only
        omega
    · rw [if_neg hmatch, if_neg hmatch]
      have hfit := hfit_of fun h => hmatch h.1
      by_cases hpos : state.separatorCnt > 0
      · rw [if_pos hpos, if_pos hpos]
        have hgive := @bomGiveUp_bounds params.separator state.separatorCnt hpos
        refine ⟨iff_of_true ⟨hbefore, forall_mem_singleton_inside (Access.inside_store ?_)⟩ hfit,
          fun _ => ⟨?_, ?_⟩⟩
        · omega
        · rw [List.length_append, List.length_take]
          dsimp only
          omega
        · exact lt_of_le_of_lt (Nat.sub_le _ _) hcnt
      · rw [if_neg hpos, if_neg hpos]
        refine ⟨iff_of_true ⟨hbefore, forall_mem_singleton_inside (Access.inside_store ?_)⟩ hfit,
          fun _ => ⟨?_, hcnt⟩⟩
        · omega
        · rw [List.length_append, List.length_singleton]
          dsimp only
          omega

theorem BomFits.pause {osamp : OutSample} {state : ScanState}
    (hfits : osamp.data.length ≤ osamp.alloc)
    (hcnt : state.separatorCnt < params.separator.length) :
    BomFits params { state with osamp := some osamp } :=
  ⟨hcnt.le, .of_some rfl hfits, fun hwhole => absurd hwhole hcnt.ne⟩

/-- The stores of the loop are inside if and only if all its turns fit. -/
theorem bomLoop_inside (hpool : env.pool = exactPool) (hseparator : params.separator ≠ [])
    (fuel : ℕ) {osamp : OutSample} {state : ScanState}
    (hfits : osamp.data.length ≤ osamp.alloc)
    (hcnt : state.separatorCnt < params.separator.length) :
    ((∀ access ∈ (bomLoopTurns env params fuel osamp state).flatMap (BomTurn.accesses env params),
        access.Inside) ↔
        ∀ turn ∈ bomLoopTurns env params fuel osamp state, turn.Fits params) ∧
      ((∀ turn ∈ bomLoopTurns env params fuel osamp state, turn.Fits params) →
        BomFits params (bomLoop env params fuel osamp state).2) := by
  induction fuel generalizing osamp state with
  | zero => exact ⟨by simp [bomLoopTurns], fun _ => .pause hfits hcnt⟩
  | succ fuel ih =>
    cases hbytes : state.bytes with
    | nil =>
      have hturns : bomLoopTurns env params (fuel + 1) osamp state = [] := by
        simp [bomLoopTurns, hbytes]
      have hloop : (bomLoop env params (fuel + 1) osamp state).2 =
          { state with osamp := some osamp } := by
        rw [bomLoop_of_nil hbytes]
      rw [hturns, hloop]
      exact ⟨by simp, fun _ => .pause hfits hcnt⟩
    | cons c rest =>
      obtain ⟨hiff, hnext⟩ := @bomTurn_inside env params hpool hseparator c rest osamp state
        hfits hcnt
      rw [bomLoop_turn fuel osamp hbytes]
      unfold bomLoopTurns
      rw [hbytes]
      dsimp only
      rw [List.flatMap_cons, List.forall_mem_append, List.forall_mem_cons]
      change (((∀ access ∈ bomTurnAccesses env params c rest osamp state, access.Inside) ∧ _) ↔ _) ∧
        _
      rw [hiff]
      generalize bomTurn env params c rest osamp state = flow at hnext ⊢
      cases flow with
      | ret result after =>
        refine ⟨?_, fun h => hnext h.1⟩
        simp
      | go osamp' state' =>
        -- the later turns begin in order only when this one fits
        refine ⟨and_congr_right fun hfit => ?_, fun h => ?_⟩
        · exact (ih (hnext hfit).1 (hnext hfit).2).1
        · exact (ih (hnext h.1).1 (hnext h.1).2).2 h.2

theorem bomBody_inside (hpool : env.pool = exactPool) (hseparator : params.separator ≠ [])
    {osamp : OutSample} {state : ScanState} (hfits : osamp.data.length ≤ osamp.alloc)
    (hcnt : state.separatorCnt ≤ params.separator.length)
    (hwhole : state.separatorCnt = params.separator.length → osamp.data ≠ []) :
    ((∀ access ∈ bomBodyAccesses env params osamp state, access.Inside) ↔
        ∀ turn ∈ bomBodyTurns env params osamp state, turn.Fits params) ∧
      ((∀ turn ∈ bomBodyTurns env params osamp state, turn.Fits params) →
        BomFits params (bomBody env params osamp state).2) := by
  unfold bomBodyAccesses bomBodyTurns bomBody
  rw [List.forall_mem_append]
  dsimp only
  split_ifs with hlast
  · obtain ⟨hcopy, hnext⟩ :=
      @bomCopy_inside env params hseparator osamp state hfits (hwhole hlast) hlast
    generalize bomCopy env params osamp state = flow at hnext ⊢
    cases flow with
    | ret result after =>
      refine ⟨?_, fun _ => hnext⟩
      simpa using hcopy
    | go osamp' state' =>
      obtain ⟨hiff, hafter⟩ := bomLoop_inside hpool hseparator _ hnext.1 hnext.2
      exact ⟨⟨fun h => hiff.mp h.2, fun h => ⟨hcopy, hiff.mpr h⟩⟩, hafter⟩
  · obtain ⟨hiff, hafter⟩ :=
      bomLoop_inside hpool hseparator _ hfits (lt_of_le_of_ne hcnt hlast)
    exact ⟨⟨fun h => hiff.mp h.2, fun h => ⟨forall_mem_nil_inside, hiff.mpr h⟩⟩, hafter⟩

/-! ## Any sequence of calls -/

/-- What holds of the sample under construction between two calls, for each method. -/
def ScanFits (params : MessageParameters) (state : ScanState) : Prop :=
  match params.nextSampleFunc with
  | .sepEOM => SampleFits state
  | .sepBOM => BomFits params state
  | .byLength => FixedFits params state

theorem openSample_fits (state : ScanState) :
    (openSample env state).1.data.length ≤ (openSample env state).1.alloc := by
  rw [(openSample_spec env state).2.2.1]
  exact Nat.zero_le _

theorem nextSampleSepEOM_inside (hlen : params.messageLength ≤ maxMessageStreamSampleSize)
    {state : ScanState} (h : SampleFits state) :
    (∀ access ∈ nextSampleSepEOMAccesses env params state, access.Inside) ∧
      SampleFits (nextSampleSepEOM env params state).2 := by
  refine ⟨?_, eomRule_fits.call (fun _ => openSample_fits state) h (fun _ => h)⟩
  unfold nextSampleSepEOMAccesses
  split
  next hosamp =>
    split_ifs
    · exact forall_mem_nil_inside
    · exact eomBodyAccesses_inside hlen (openSample_fits state)
  next osamp hosamp => exact eomBodyAccesses_inside hlen (h osamp hosamp)

theorem nextSampleByLength_inside (memory : ℕ → UInt8) {state : ScanState}
    (h : FixedFits params state) :
    (∀ access ∈ nextSampleByLengthAccesses env params state, access.Inside) ∧
      FixedFits params (nextSampleByLength env params memory state).2 := by
  have hopened := @byLengthBody_inside env params memory
    (getCharSample env state.sampleLengthAlloc 0 [] { state with separatorCnt := 0 }).1
    (getCharSample env state.sampleLengthAlloc 0 [] { state with separatorCnt := 0 }).2
    h.messageLength_le (Nat.zero_le _) (env.pool.le_allocLength _ _)
  have hgiven : ∀ osamp, state.osamp = some osamp → _ := fun osamp hosamp =>
    @byLengthBody_inside env params memory osamp state h.messageLength_le (h.fits osamp hosamp)
      (h.asked_le osamp hosamp)
  unfold nextSampleByLengthAccesses nextSampleByLength
  constructor
  · split
    next => exact hopened.1
    next osamp hosamp => exact (hgiven osamp hosamp).1
  · split
    next => exact hopened.2
    next osamp hosamp => exact (hgiven osamp hosamp).2

theorem nextSampleSepBOM_inside (hpool : env.pool = exactPool)
    (hseparator : params.separator ≠ []) {state : ScanState} (h : BomFits params state) :
    ((∀ access ∈ nextSampleSepBOMAccesses env params state, access.Inside) ↔
        ∀ turn ∈ nextSampleSepBOMTurns env params state, turn.Fits params) ∧
      ((∀ turn ∈ nextSampleSepBOMTurns env params state, turn.Fits params) →
        BomFits params (nextSampleSepBOM env params state).2) := by
  unfold nextSampleSepBOMAccesses nextSampleSepBOMTurns nextSampleSepBOM
  cases hosamp : state.osamp with
  | none =>
    dsimp only
    split_ifs
    · exact ⟨by simp, fun _ => h⟩
    · have hzero := (openSample_spec env state).2.1
      have hpos := List.length_pos_iff.mpr hseparator
      refine bomBody_inside hpool hseparator (openSample_fits state) ?_ fun hwhole => ?_
      · omega
      · omega
  | some osamp =>
    exact bomBody_inside hpool hseparator (h.fits osamp hosamp) h.count_le
      (fun hwhole => h.whole hwhole osamp hosamp)

/-- One call: its stores are inside if and only if the turns of its loop fit. -/
theorem nextSample_inside (hpool : env.pool = exactPool)
    (hseparator : params.nextSampleFunc = .sepBOM → params.separator ≠ [])
    (hlen : params.messageLength ≤ maxMessageStreamSampleSize) (memory : ℕ → UInt8)
    {state : ScanState} (h : ScanFits params state) :
    ((∀ access ∈ nextSampleAccesses env params state, access.Inside) ↔
        ∀ turn ∈ nextSampleTurns env params state, turn.Fits params) ∧
      ((∀ turn ∈ nextSampleTurns env params state, turn.Fits params) →
        ScanFits params (nextSample env params memory state).2) := by
  unfold ScanFits nextSampleAccesses nextSampleTurns nextSample at *
  cases hfunc : params.nextSampleFunc with
  | sepEOM =>
    rw [hfunc] at h
    obtain ⟨hinside, hafter⟩ := @nextSampleSepEOM_inside env params hlen state h
    exact ⟨iff_of_true hinside (by simp), fun _ => hafter⟩
  | sepBOM =>
    rw [hfunc] at h
    exact nextSampleSepBOM_inside hpool (hseparator hfunc) h
  | byLength =>
    rw [hfunc] at h
    obtain ⟨hinside, hafter⟩ := @nextSampleByLength_inside env params memory state h
    exact ⟨iff_of_true hinside (by simp), fun _ => hafter⟩

theorem ScanFits.readBuffer {state : ScanState} (h : ScanFits params state) (bufsize : ℕ)
    (sensor : SensorRead) : ScanFits params (readBuffer env bufsize sensor state) := by
  unfold ScanFits at h ⊢
  cases hfunc : params.nextSampleFunc with
  | sepEOM =>
    rw [hfunc] at h
    exact h
  | sepBOM =>
    rw [hfunc] at h
    exact ⟨h.count_le, h.fits, h.whole⟩
  | byLength =>
    rw [hfunc] at h
    exact ⟨h.messageLength_le, h.fits, h.asked_le⟩

/-- Any run, from a state in order. -/
theorem runAccesses_inside_iff (hpool : env.pool = exactPool)
    (hseparator : params.nextSampleFunc = .sepBOM → params.separator ≠ [])
    (hlen : params.messageLength ≤ maxMessageStreamSampleSize) (memory : ℕ → UInt8)
    (bufsize : ℕ) (calls : List ScanCall) {state : ScanState} (h : ScanFits params state) :
    (∀ access ∈ runAccesses env params memory bufsize calls state, access.Inside) ↔
      ∀ turn ∈ runTurns env params memory bufsize calls state, turn.Fits params := by
  induction calls generalizing state with
  | nil => simp [runAccesses, runTurns]
  | cons call calls ih =>
    unfold runAccesses runTurns
    rw [List.forall_mem_append, List.forall_mem_append]
    cases call with
    | readBuffer sensor =>
      have hread := ih (@ScanFits.readBuffer env params state h bufsize sensor)
      simpa [scanCall] using hread
    | nextSample =>
      obtain ⟨hiff, hafter⟩ := @nextSample_inside env params hpool hseparator hlen memory state h
      dsimp only
      rw [hiff]
      exact and_congr_right fun hfit => ih (hafter hfit)

/-- The samples asked for have room for a message of fixed length. -/
theorem messageLength_le_sampleLengthAlloc {len : UInt32} {sepexp : List UInt8}
    {eom nullTerminate : Bool}
    (hparams : setMessageParameters len sepexp eom nullTerminate = .ok params)
    (hseparator : params.separator = []) :
    params.messageLength ≤ params.sampleLengthAlloc := by
  obtain ⟨hlen, hnonzero, -, hmax⟩ := setMessageParameters_ok hparams
  have halloc := (setMessageParameters_derived hparams).2
  have hnterm := nterm_le_one params
  rw [if_neg (hnonzero hseparator)] at halloc
  rw [hlen, toInt_toInt32, halloc]
  rw [hseparator, List.length_nil] at hmax ⊢
  have hlt := len.toNat_lt
  unfold maxMessageStreamSampleSize at hmax
  split_ifs <;> omega

theorem scanFits_start {len : UInt32} {sepexp : List UInt8} {eom nullTerminate : Bool}
    (hparams : setMessageParameters len sepexp eom nullTerminate = .ok params) (value : Bool) :
    ScanFits (params.setNullTerminate value)
      (ScanState.start (params.setNullTerminate value)) := by
  have hfunc := (setMessageParameters_derived hparams).1
  unfold ScanFits
  change match params.nextSampleFunc with
    | .sepEOM => _
    | .sepBOM => _
    | .byLength => _
  by_cases hseparator : params.separator = []
  · rw [if_pos hseparator] at hfunc
    rw [hfunc]
    have hle := messageLength_le_sampleLengthAlloc hparams hseparator
    refine ⟨hle, .of_none rfl, fun osamp hosamp => ?_⟩
    cases hosamp
  · rw [if_neg hseparator] at hfunc
    cases eom with
    | true =>
      rw [hfunc]
      exact .of_none rfl
    | false =>
      rw [hfunc]
      refine ⟨Nat.zero_le _, .of_none rfl, fun _ osamp hosamp => ?_⟩
      cases hosamp

/-- **When the scanner writes inside its sample.**  For all parameters that are accepted, all
bytes and all calls, with samples of exactly the length that was asked for: every store is
inside, and no data length exceeds the memory, if and only if every turn of the loop in
`nextSampleSepBOM` fits.  The other methods have no such turns. -/
theorem accesses_inside_iff {len : UInt32} {sepexp : List UInt8} {eom nullTerminate : Bool}
    (hparams : setMessageParameters len sepexp eom nullTerminate = .ok params) (value : Bool)
    (sensorId : ℕ) (usecsPerByte : ℤ) (memory : ℕ → UInt8) (bufsize : ℕ)
    (calls : List ScanCall) :
    (∀ access ∈ runAccesses ⟨sensorId, usecsPerByte, exactPool⟩ (params.setNullTerminate value)
        memory bufsize calls (ScanState.start (params.setNullTerminate value)), access.Inside) ↔
      ∀ turn ∈ runTurns ⟨sensorId, usecsPerByte, exactPool⟩ (params.setNullTerminate value)
        memory bufsize calls (ScanState.start (params.setNullTerminate value)),
        turn.Fits (params.setNullTerminate value) := by
  have hlen := messageLength_le hparams
  refine @runAccesses_inside_iff ⟨sensorId, usecsPerByte, exactPool⟩
    (params.setNullTerminate value) rfl ?_ hlen memory bufsize calls _
    (scanFits_start hparams value)
  intro hbom hempty
  have hfunc := (setMessageParameters_derived hparams).1
  rw [if_pos (show params.separator = [] from hempty)] at hfunc
  exact absurd (hfunc.symm.trans hbom) (by decide)

/-- Two messages with a short separator. -/
theorem accesses_inside_iff_short :
    setMessageParameters 0 [120, 121] false true =
        .ok (acceptedParameters 0 [120, 121] false true) ∧
      ∀ access ∈ runAccesses ⟨1, 0, exactPool⟩
        ((acceptedParameters 0 [120, 121] false true).setNullTerminate true) (fun _ => 0) 64
        [.readBuffer ⟨[97, 120, 121, 98, 120, 121], 0⟩, .nextSample, .nextSample, .nextSample]
        (ScanState.start ((acceptedParameters 0 [120, 121] false true).setNullTerminate true)),
        access.Inside := by
  have hparams : setMessageParameters 0 [120, 121] false true =
      .ok (acceptedParameters 0 [120, 121] false true) := by decide
  exact ⟨hparams, (accesses_inside_iff hparams true 1 0 (fun _ => 0) 64 _).mpr (by decide)⟩

/-- A separator of 20 characters behind one other character: it is copied into a sample of
16 bytes. -/
theorem accesses_outside_longSeparator :
    setMessageParameters 0 (List.replicate 20 120) false false =
        .ok (acceptedParameters 0 (List.replicate 20 120) false false) ∧
      Access.store 0 20 16 ∈ runAccesses ⟨1, 0, exactPool⟩
        (acceptedParameters 0 (List.replicate 20 120) false false) (fun _ => 0) 64
        [.readBuffer ⟨97 :: List.replicate 20 120, 0⟩, .nextSample]
        (ScanState.start (acceptedParameters 0 (List.replicate 20 120) false false)) ∧
      ¬(Access.store 0 20 16).Inside := by
  refine ⟨by decide, by decide, by decide⟩

end Nidas.Core
