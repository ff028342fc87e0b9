import Mathlib.Order.Nat
import Nidas.Core.SampleScanner

/-!
# Framing by a separator at the beginning of the message

The stream of a beginning-of-message sensor can be read one character at a time,
with no buffers (`bomFramer`): after a separator a number of characters is taken
as they are, then the search for the next separator starts.  `nextSampleSepBOM`
keeps the same three things in `_osamp`, `_separatorCnt` and the message length
(`BomRelated`), and a buffer that it reads does to them what the framer does
(`scanBuffer_bom`), with one exception.  When the buffer is empty, and
characters of the fixed part are outstanding, the section that copies them sets
`_separatorCnt` to zero, although its comment says that it will be re-entered.
So the scanner forgets where it is when a buffer ends just after a separator, or
when an empty buffer is read inside of the fixed part (`BomCutOk`).
-/

namespace Nidas.Core

open Lib

/-! ## The framer -/

/-- The message so far, how much of a separator follows it, and how many
characters are still to be taken unseen. -/
structure Framing where
  out : List UInt8
  cnt : ℕ
  left : ℕ
  deriving DecidableEq, Repr

/-- Nothing has been read. -/
def Framing.start : Framing := ⟨[], 0, 0⟩

/-- The separator has just been read. -/
def Framing.found (separator : List UInt8) (len : ℕ) : Framing := ⟨separator, 0, len⟩

/-- What the search for the separator does with one character: a partial match is
given up until the character continues it. -/
def bomSearch (separator : List UInt8) (len : ℕ) :
    ℕ → List UInt8 → ℕ → UInt8 → Framing × List (List UInt8)
  | 0, out, _, c => (⟨out ++ [c], 0, 0⟩, [])
  | fuel + 1, out, cnt, c =>
      if separator[cnt]? = some c then
        if cnt + 1 = separator.length then
          (.found separator len, if out ≠ [] then [out] else [])
        else (⟨out, cnt + 1, 0⟩, [])
      else if cnt > 0 then
        bomSearch separator len fuel (out ++ separator.take (bomGiveUp separator cnt))
          (cnt - bomGiveUp separator cnt) c
      else (⟨out ++ [c], 0, 0⟩, [])

/-- Beginning-of-message framing of a stream, character by character. -/
def bomFramer (separator : List UInt8) (len : ℕ) : Transducer Framing UInt8 (List UInt8) where
  step state c :=
    if state.left > 0 then (⟨state.out ++ [c], state.cnt, state.left - 1⟩, [])
    else bomSearch separator len (state.cnt + 1) state.out state.cnt c

variable {separator : List UInt8} {len : ℕ}

/-- A partial match that is given up gets shorter, so the search comes to an
end. -/
theorem bomGiveUp_bounds {cnt : ℕ} (hcnt : 0 < cnt) :
    0 < bomGiveUp separator cnt ∧ bomGiveUp separator cnt ≤ cnt := by
  unfold bomGiveUp
  dsimp only
  split_ifs <;> omega

/-- Any two amounts of fuel that exceed the partial match give the same. -/
theorem bomSearch_fuel (c : UInt8) :
    ∀ (fuel other cnt : ℕ) (out : List UInt8), cnt < fuel → cnt < other →
      bomSearch separator len fuel out cnt c = bomSearch separator len other out cnt c := by
  intro fuel
  induction fuel with
  | zero => intro other cnt out hfuel _; omega
  | succ fuel ih =>
      intro other cnt out hfuel hother
      obtain ⟨other, rfl⟩ : ∃ less, other = less + 1 := ⟨other - 1, by omega⟩
      rw [bomSearch, bomSearch]
      split_ifs with hmatch hlast hout hpos
      · rfl
      · rfl
      · rfl
      · obtain ⟨hgive, hle⟩ := @bomGiveUp_bounds separator cnt hpos
        exact ih _ _ _ (by omega) (by omega)
      · rfl

theorem bomFramer_step_of_last {out : List UInt8} {cnt : ℕ} {c : UInt8}
    (hmatch : separator[cnt]? = some c) (hlast : cnt + 1 = separator.length) :
    (bomFramer separator len).step ⟨out, cnt, 0⟩ c =
      (.found separator len, if out ≠ [] then [out] else []) := by
  simp only [bomFramer, bomSearch, hmatch, hlast, if_true]
  rfl

theorem bomFramer_step_of_match {out : List UInt8} {cnt : ℕ} {c : UInt8}
    (hmatch : separator[cnt]? = some c) (hlast : cnt + 1 ≠ separator.length) :
    (bomFramer separator len).step ⟨out, cnt, 0⟩ c = (⟨out, cnt + 1, 0⟩, []) := by
  simp only [bomFramer, bomSearch, hmatch, hlast, if_true, if_false]
  rfl

theorem bomFramer_step_of_miss {out : List UInt8} {c : UInt8} (hmatch : separator[0]? ≠ some c) :
    (bomFramer separator len).step ⟨out, 0, 0⟩ c = (⟨out ++ [c], 0, 0⟩, []) := by
  simp [bomFramer, bomSearch, hmatch]

/-- Giving up a part of a match first does not change what a character does. -/
theorem bomFramer_run_giveUp {out : List UInt8} {cnt : ℕ} {c : UInt8} {rest : List UInt8}
    (hmatch : separator[cnt]? ≠ some c) (hcnt : 0 < cnt) :
    (bomFramer separator len).run ⟨out, cnt, 0⟩ (c :: rest) =
      (bomFramer separator len).run
        ⟨out ++ separator.take (bomGiveUp separator cnt), cnt - bomGiveUp separator cnt, 0⟩
        (c :: rest) := by
  obtain ⟨hgive, hle⟩ := @bomGiveUp_bounds separator cnt hcnt
  have hstep : (bomFramer separator len).step ⟨out, cnt, 0⟩ c =
      (bomFramer separator len).step
        ⟨out ++ separator.take (bomGiveUp separator cnt), cnt - bomGiveUp separator cnt, 0⟩
        c := by
    simp only [bomFramer, Nat.lt_irrefl, gt_iff_lt, if_false]
    rw [bomSearch, if_neg hmatch, if_pos hcnt]
    exact bomSearch_fuel c _ _ _ _ (by omega) (by omega)
  rw [Transducer.run_cons, Transducer.run_cons, hstep]

/-- The fixed part is taken as it is. -/
theorem bomFramer_run_copy :
    ∀ (bytes : List UInt8) (state : Framing), bytes.length ≤ state.left →
      (bomFramer separator len).run state bytes =
        (⟨state.out ++ bytes, state.cnt, state.left - bytes.length⟩, []) := by
  intro bytes
  induction bytes with
  | nil => intro state _; simp
  | cons c rest ih =>
      intro state hle
      rw [List.length_cons] at hle
      have hstep : (bomFramer separator len).step state c =
          (⟨state.out ++ [c], state.cnt, state.left - 1⟩, []) := if_pos (by omega)
      rw [Transducer.run_cons, hstep, ih _ (by dsimp only; omega)]
      simp only [List.append_assoc, List.singleton_append, List.nil_append, List.length_cons]
      congr 2
      omega

/-! ## The scanner follows the framer -/

variable {env : ScanEnv} {params : MessageParameters}

/-- The characters of the fixed part that are still to be copied into a sample of
`read` bytes. -/
def bomLeft (params : MessageParameters) (read : ℕ) : ℕ :=
  (params.messageLength - (read - params.separator.length : ℤ)).toNat

/-- The framer of a scanner. -/
abbrev scannerFramer (params : MessageParameters) : Transducer Framing UInt8 (List UInt8) :=
  bomFramer params.separator params.messageLength.toNat

/-- A scanner that is searching has a partial match; one that is not has
`_separatorCnt == _separatorLen`, and the fixed part is outstanding. -/
inductive BomRelated (params : MessageParameters) (state : ScanState) : Framing → Prop where
  | idle (hosamp : state.osamp = none) : BomRelated params state .start
  | searching {osamp : OutSample} (hosamp : state.osamp = some osamp)
      (hcnt : state.separatorCnt < params.separator.length) :
      BomRelated params state ⟨osamp.data, state.separatorCnt, 0⟩
  | copying {osamp : OutSample} (hosamp : state.osamp = some osamp)
      (hcnt : state.separatorCnt = params.separator.length)
      (hread : params.separator.length ≤ osamp.data.length) :
      BomRelated params state ⟨osamp.data, 0, bomLeft params osamp.data.length⟩

/-- How the scanner stands after a buffer of `bytes` has been used up, with
`framing` the state of the framer: it knows where it is if nothing of a fixed
part is outstanding or if it has just copied a character of it, and otherwise it
has started to search. -/
structure BomSettled (params : MessageParameters) (bytes : List UInt8) (after : ScanState)
    (framing : Framing) : Prop where
  bytes_eq_nil : after.bytes = []
  kept : framing.left = 0 ∨ bytes ≠ [] ∧ framing.left < params.messageLength.toNat →
    BomRelated params after framing
  lost : 0 < framing.left → bytes = [] ∨ params.messageLength.toNat ≤ framing.left →
    after.separatorCnt = 0

/-- What a call of `nextSampleSepBOM` on `bytes` did, in terms of the framer.  The
overflow count was `overflows` before the call. -/
inductive BomCall (params : MessageParameters) (overflows : ℕ) (framing : Framing)
    (bytes : List UInt8) : Option Sample × ScanState → Prop where
  | overflow {outcome : Option Sample × ScanState}
      (hover : overflows < outcome.2.sampleOverflows) : BomCall params overflows framing bytes outcome
  | empty {after : ScanState} (hover : after.sampleOverflows = overflows)
      (hout : ((scannerFramer params).run framing bytes).2 = [])
      (hsettled : BomSettled params bytes after ((scannerFramer params).run framing bytes).1) :
      BomCall params overflows framing bytes (none, after)
  | sample {result : Sample} {after : ScanState} {piece : List UInt8}
      (hover : after.sampleOverflows = overflows) (hdata : result.data = params.terminate piece)
      (hshorter : after.bytes.length < bytes.length)
      (hrelated : BomRelated params after (.found params.separator params.messageLength.toNat))
      (hrun : (scannerFramer params).run framing bytes =
        (((scannerFramer params).run (.found params.separator params.messageLength.toNat)
            after.bytes).1,
          piece :: ((scannerFramer params).run
            (.found params.separator params.messageLength.toNat) after.bytes).2)) :
      BomCall params overflows framing bytes (some result, after)

/-- A call may be looked at from a later point in the buffer, as long as that is
not the end of a buffer that leaves a part of the fixed part outstanding. -/
theorem BomCall.of_run_eq {overflows : ℕ} {framing next : Framing} {bytes rest : List UInt8}
    {outcome : Option Sample × ScanState}
    (hrun : (scannerFramer params).run framing bytes = (scannerFramer params).run next rest)
    (hle : rest.length ≤ bytes.length)
    (hend : rest = [] → next.left = 0 ∨ params.messageLength.toNat ≤ next.left)
    (hcall : BomCall params overflows next rest outcome) :
    BomCall params overflows framing bytes outcome := by
  have hnil : bytes = [] → rest = [] := by
    rintro rfl
    exact List.length_eq_zero_iff.mp (Nat.le_zero.mp hle)
  cases hcall with
  | overflow hover => exact .overflow hover
  | empty hover hout hsettled =>
      refine .empty hover (hrun ▸ hout) ?_
      rw [hrun]
      refine ⟨hsettled.bytes_eq_nil, fun hkept => hsettled.kept ?_, fun hpos hlost =>
        hsettled.lost hpos (hlost.imp_left hnil)⟩
      rcases hkept with hzero | ⟨hne, hlt⟩
      · exact Or.inl hzero
      · by_cases hrest : rest = []
        · left
          rw [hrest] at hlt ⊢
          exact (hend hrest).resolve_right (Nat.not_le.mpr hlt)
        · exact Or.inr ⟨hrest, hlt⟩
  | sample hover hdata hshorter hrelated hfirst =>
      exact .sample hover hdata (Nat.lt_of_lt_of_le hshorter hle) hrelated (hrun.trans hfirst)

theorem BomCall.cons {overflows : ℕ} {framing next : Framing} {c : UInt8} {rest : List UInt8}
    {outcome : Option Sample × ScanState}
    (hstep : (scannerFramer params).step framing c = (next, []))
    (hnext : next.left = 0 ∨ params.messageLength.toNat ≤ next.left)
    (hcall : BomCall params overflows next rest outcome) :
    BomCall params overflows framing (c :: rest) outcome := by
  refine .of_run_eq ?_ (Nat.le_succ _) (fun _ => hnext) hcall
  rw [Transducer.run_cons, hstep]
  rfl

/-- The scan starts in an empty buffer. -/
theorem BomCall.of_nil {out : List UInt8} {osamp : OutSample} {state : ScanState}
    (hdata : osamp.data = out) (hbytes : state.bytes = [])
    (hcnt : state.separatorCnt < params.separator.length) :
    BomCall params state.sampleOverflows ⟨out, state.separatorCnt, 0⟩ []
      (none, { state with osamp := some osamp }) := by
  subst hdata
  exact .empty rfl rfl ⟨hbytes, fun _ => .searching rfl hcnt, fun hpos => absurd hpos (by simp)⟩

/-- The copying section with characters in the buffer: it has taken all of them,
or the fixed part is complete and the search starts. -/
theorem bomCopy_spec {osamp : OutSample} {state : ScanState}
    (hcnt : state.separatorCnt = params.separator.length)
    (hread : params.separator.length ≤ osamp.data.length) (hbytes : state.bytes ≠ []) :
    (∃ outcome : Option Sample × ScanState,
        bomCopy env params osamp state = .ret outcome.1 outcome.2 ∧
        BomCall params state.sampleOverflows ⟨osamp.data, 0, bomLeft params osamp.data.length⟩
          state.bytes outcome) ∨
      (∃ next after, bomCopy env params osamp state = .go next after ∧
        after.sampleOverflows = state.sampleOverflows ∧ after.separatorCnt = 0 ∧
        after.bytes.length ≤ state.bytes.length ∧
        (scannerFramer params).run ⟨osamp.data, 0, bomLeft params osamp.data.length⟩ state.bytes =
          (scannerFramer params).run ⟨next.data, 0, 0⟩ after.bytes) := by
  have hleft : (params.messageLength - (osamp.data.length - state.separatorCnt : ℤ)).toNat =
      bomLeft params osamp.data.length := by rw [hcnt, bomLeft]
  have hpositive : 0 < state.bytes.length := List.length_pos_iff.mpr hbytes
  simp only [bomCopy, hleft]
  by_cases hnc : min state.bytes.length (bomLeft params osamp.data.length) > 0
  · rw [if_pos hnc]
    rcases @checkRoom_cases env params (min state.bytes.length (bomLeft params osamp.data.length))
      osamp state with ⟨alloc, calls, hroom⟩ | ⟨result, after, hfull, hover, _⟩
    · rw [hroom]
      dsimp only
      by_cases hdrop : state.bytes.drop (min state.bytes.length
          (bomLeft params osamp.data.length)) = []
      · -- the buffer ends inside of the fixed part, or with it
        left
        rw [if_pos hdrop]
        have hle : state.bytes.length ≤ bomLeft params osamp.data.length := by
          have := List.drop_eq_nil_iff.mp hdrop
          omega
        have htake : state.bytes.take (min state.bytes.length
            (bomLeft params osamp.data.length)) = state.bytes :=
          List.take_of_length_le (by omega)
        have hrun := @bomFramer_run_copy params.separator params.messageLength.toNat state.bytes
          ⟨osamp.data, 0, bomLeft params osamp.data.length⟩ hle
        have hrest : bomLeft params (osamp.data ++ state.bytes).length =
            bomLeft params osamp.data.length - state.bytes.length := by
          simp only [bomLeft, List.length_append]
          omega
        refine ⟨(none, _), rfl, .empty rfl (by rw [hrun]) ?_⟩
        rw [hrun, htake]
        refine ⟨hdrop, fun _ => ?_, fun hpos hlost => ?_⟩
        · rw [← hrest]
          refine @BomRelated.copying params _ { osamp with
            data := osamp.data ++ state.bytes, alloc := alloc } rfl hcnt ?_
          rw [List.length_append]
          omega
        · exfalso
          rcases hlost with hnil | hlarge
          · exact hbytes hnil
          · simp only [bomLeft] at hlarge
            omega
      · -- the fixed part is complete
        right
        rw [if_neg hdrop]
        have hlt : bomLeft params osamp.data.length < state.bytes.length := by
          rw [List.drop_eq_nil_iff] at hdrop
          omega
        have hmin : min state.bytes.length (bomLeft params osamp.data.length) =
            bomLeft params osamp.data.length := by omega
        refine ⟨_, _, rfl, rfl, rfl, by simp, ?_⟩
        dsimp only
        rw [hmin]
        conv_lhs => rw [← List.take_append_drop (bomLeft params osamp.data.length) state.bytes]
        have hcopy := @bomFramer_run_copy params.separator params.messageLength.toNat
          (state.bytes.take (bomLeft params osamp.data.length))
          ⟨osamp.data, 0, bomLeft params osamp.data.length⟩ (by
            rw [List.length_take]
            dsimp only
            omega)
        rw [Transducer.run_append, hcopy]
        simp [Nat.min_eq_left (Nat.le_of_lt hlt)]
    · exact Or.inl ⟨(some result, after), by rw [hfull], .overflow (by dsimp only; omega)⟩
  · right
    rw [if_neg hnc]
    have hzero : bomLeft params osamp.data.length = 0 := by omega
    exact ⟨_, _, rfl, rfl, rfl, Nat.le_refl _, by rw [hzero]⟩

/-- With an empty buffer the copying section starts the search, whatever is
outstanding. -/
theorem bomCopy_of_nil {osamp : OutSample} {state : ScanState} (hbytes : state.bytes = []) :
    bomCopy env params osamp state = .go osamp { state with separatorCnt := 0 } := by
  simp [bomCopy, hbytes]

/-- The copying section and then a scan `search` of the rest of the buffer. -/
theorem bomCopy_then {search : OutSample → ScanState → Option Sample × ScanState}
    {osamp : OutSample} {state : ScanState}
    (hcnt : state.separatorCnt = params.separator.length)
    (hread : params.separator.length ≤ osamp.data.length)
    (hseparator : 0 < params.separator.length)
    (hnil : ∀ (next : OutSample) (after : ScanState), after.bytes = [] →
      search next after = (none, { after with osamp := some next }))
    (hsearch : ∀ (next : OutSample) (after : ScanState), after.separatorCnt = 0 →
      after.bytes.length ≤ state.bytes.length →
      BomCall params after.sampleOverflows ⟨next.data, 0, 0⟩ after.bytes (search next after)) :
    BomCall params state.sampleOverflows ⟨osamp.data, 0, bomLeft params osamp.data.length⟩
      state.bytes
      (match bomCopy env params osamp state with
        | .ret result state => (result, state)
        | .go osamp state => search osamp state) := by
  by_cases hbytes : state.bytes = []
  · rw [bomCopy_of_nil hbytes]
    dsimp only
    rw [hnil osamp { state with separatorCnt := 0 } hbytes, hbytes]
    refine .empty rfl rfl ⟨rfl, fun hkept => ?_, fun _ _ => rfl⟩
    have hzero := hkept.resolve_right fun hne => hne.1 rfl
    simp only [Transducer.run_nil] at hzero ⊢
    rw [hzero]
    exact @BomRelated.searching params _ osamp rfl hseparator
  · rcases @bomCopy_spec env params osamp state hcnt hread hbytes with
      ⟨outcome, hret, hcall⟩ | ⟨next, after, hgo, hover, hzero, hle, hrun⟩
    · rw [hret]
      exact hcall
    · rw [hgo, ← hover]
      exact .of_run_eq hrun hle (fun _ => Or.inl rfl) (hsearch next after hzero hle)

theorem bomLoop_of_nil {fuel : ℕ} {osamp : OutSample} {state : ScanState}
    (hbytes : state.bytes = []) :
    bomLoop env params fuel osamp state = (none, { state with osamp := some osamp }) := by
  cases fuel with
  | zero => rfl
  | succ fuel => rw [bomLoop, hbytes]

@[simp] theorem bomLeft_separator : bomLeft params params.separator.length =
    params.messageLength.toNat := by
  simp [bomLeft]

/-- The last character of the separator, and what follows it in the buffer if no
sample is handed on. -/
theorem bomFound_then {fuel : ℕ} {osamp : OutSample} {state : ScanState} {c : UInt8}
    {out rest : List UInt8} {cnt overflows : ℕ}
    (hmatch : params.separator[cnt]? = some c) (hlast : cnt + 1 = params.separator.length)
    (hcnt : state.separatorCnt = params.separator.length)
    (hdata : osamp.data = out) (hbytes : state.bytes = rest)
    (hover : state.sampleOverflows = overflows)
    (hsearch : ∀ (next : OutSample) (after : ScanState), after.separatorCnt = 0 →
      after.bytes.length ≤ rest.length →
      BomCall params after.sampleOverflows ⟨next.data, 0, 0⟩ after.bytes
        (bomLoop env params fuel next after)) :
    BomCall params overflows ⟨out, cnt, 0⟩ (c :: rest)
      (match bomFound env params osamp state with
        | (some result, osamp, state) => (some result, { state with osamp := some osamp })
        | (none, osamp, state) =>
            match bomCopy env params osamp state with
            | .ret result state => (result, state)
            | .go osamp state => bomLoop env params fuel osamp state) := by
  have hstep := @bomFramer_step_of_last _ params.messageLength.toNat out _ _ hmatch hlast
  obtain ⟨result, next, after, hfound, hnext, hsame, hafter, hcount, hresult⟩ :=
    @bomFound_spec env params osamp state
  rw [hbytes] at hsame
  rw [hover] at hcount
  rw [hfound]
  rcases hresult with ⟨hempty, rfl⟩ | ⟨hne, sample, rfl, hsample⟩
  · -- no previous sample: go on behind the separator
    rw [← hdata, if_neg (not_not.mpr hempty)] at hstep
    have hcopy := @bomCopy_then env params (bomLoop env params fuel) next after
      (hafter.trans hcnt) (Nat.le_of_eq (by rw [hnext])) (by omega)
      (fun _ _ hnil => bomLoop_of_nil hnil) (by rw [hsame]; exact hsearch)
    rw [hnext, bomLeft_separator, hsame, hcount] at hcopy
    rw [← hdata]
    exact .cons hstep (Or.inr (Nat.le_refl _)) hcopy
  · rw [if_pos (hdata ▸ hne)] at hstep
    refine .sample hcount (hsample.trans (by rw [hdata])) ?_ ?_ ?_
    · dsimp only
      rw [hsame, List.length_cons]
      omega
    · have hrelated := @BomRelated.copying params { after with osamp := some next } next rfl
        (hafter.trans hcnt) (Nat.le_of_eq (by rw [hnext]))
      rw [hnext, bomLeft_separator] at hrelated
      exact hrelated
    · dsimp only
      rw [Transducer.run_cons, hstep, hsame]
      rfl

/-- The scan for the separator, by induction on the number of turns of the
loop. -/
theorem bomLoop_spec :
    ∀ (fuel : ℕ) (osamp : OutSample) (state : ScanState) (bytes : List UInt8) (framing : Framing)
      (overflows : ℕ), state.bytes = bytes → framing = ⟨osamp.data, state.separatorCnt, 0⟩ →
      state.sampleOverflows = overflows → state.separatorCnt < params.separator.length →
      2 * bytes.length + state.separatorCnt < fuel →
      BomCall params overflows framing bytes (bomLoop env params fuel osamp state) := by
  intro fuel
  induction fuel with
  | zero => intro _ _ _ _ _ _ _ _ _ hfuel; omega
  | succ fuel ih =>
      rintro osamp state bytes _ _ hbytes rfl rfl hcnt hfuel
      cases bytes with
      | nil =>
          rw [bomLoop_of_nil hbytes]
          exact .of_nil rfl hbytes hcnt
      | cons c rest =>
          rw [List.length_cons] at hfuel
          rw [bomLoop, hbytes]
          dsimp only
          rcases @checkRoom_cases env params (params.separator.length + params.nterm) osamp state
            with ⟨alloc, calls, hroom⟩ | ⟨result, after, hfull, hover, _⟩
          · rw [hroom]
            dsimp only
            by_cases hmatch : params.separator[state.separatorCnt]? = some c
            · rw [if_pos hmatch]
              by_cases hlast : state.separatorCnt + 1 = params.separator.length
              · rw [if_pos hlast]
                refine bomFound_then hmatch hlast hlast rfl rfl rfl ?_
                intro next after hzero hle
                exact ih _ _ _ _ _ rfl (by rw [hzero]) rfl (by omega) (by omega)
              · rw [if_neg hlast]
                refine .cons (bomFramer_step_of_match hmatch hlast) (Or.inl rfl) ?_
                refine ih _ _ _ _ _ rfl rfl rfl ?_ ?_ <;> dsimp only <;> omega
            · rw [if_neg hmatch]
              by_cases hpos : state.separatorCnt > 0
              · -- the character is not used: a part of the match is given up
                obtain ⟨hgive, hle⟩ := @bomGiveUp_bounds params.separator _ hpos
                rw [if_pos hpos]
                refine .of_run_eq (bomFramer_run_giveUp hmatch hpos) (Nat.le_refl _)
                  (fun hnil => by cases hnil) ?_
                refine ih _ _ _ _ _ hbytes rfl rfl ?_ ?_
                · dsimp only
                  omega
                · dsimp only [List.length_cons]
                  omega
              · rw [if_neg hpos]
                have hzero : state.separatorCnt = 0 := by omega
                have hstep : (scannerFramer params).step ⟨osamp.data, state.separatorCnt, 0⟩ c =
                    (⟨osamp.data ++ [c], state.separatorCnt, 0⟩, []) := by
                  rw [hzero] at hmatch ⊢
                  exact bomFramer_step_of_miss hmatch
                refine .cons hstep (Or.inl rfl) ?_
                refine ih _ _ _ _ _ rfl rfl rfl hcnt ?_
                dsimp only
                omega
          · rw [hfull]
            exact .overflow (by dsimp only; omega)

/-- One call of `nextSampleSepBOM`. -/
theorem nextSampleSepBOM_spec (hseparator : params.separator ≠ []) {state : ScanState}
    {framing : Framing} (hrelated : BomRelated params state framing) :
    BomCall params state.sampleOverflows framing state.bytes
      (nextSampleSepBOM env params state) := by
  have hpositive : 0 < params.separator.length := List.length_pos_iff.mpr hseparator
  unfold nextSampleSepBOM
  cases hrelated with
  | idle hosamp =>
      rw [hosamp]
      dsimp only
      split
      · rename_i hbytes
        rw [hbytes]
        exact .empty rfl rfl ⟨hbytes, fun _ => .idle hosamp,
          fun hpos => absurd hpos (Nat.lt_irrefl 0)⟩
      · obtain ⟨hbytes, hzero, hdata, hover⟩ := openSample_spec env state
        rw [bomBody, if_neg (by omega)]
        refine bomLoop_spec _ _ _ _ _ _ hbytes ?_ hover (by omega) ?_
        · rw [hdata, hzero]
          rfl
        · rw [hbytes]
          omega
  | searching hosamp hcnt =>
      rw [hosamp]
      dsimp only
      rw [bomBody, if_neg (by omega)]
      exact bomLoop_spec _ _ _ _ _ _ rfl rfl rfl hcnt (by omega)
  | copying hosamp hcnt hread =>
      rw [hosamp]
      dsimp only
      rw [bomBody, if_pos hcnt]
      refine bomCopy_then hcnt hread hpositive (fun _ _ hnil => bomLoop_of_nil hnil) ?_
      intro next after hzero hle
      exact bomLoop_spec _ _ _ _ _ _ rfl (by rw [hzero]) rfl (by omega) (by omega)

/-! ## Overflows are counted up -/

/-- The state in either case. -/
def Flow.state : Flow → ScanState
  | .ret _ state => state
  | .go _ state => state

theorem bomCopy_overflows_le (osamp : OutSample) (state : ScanState) :
    state.sampleOverflows ≤ (bomCopy env params osamp state).state.sampleOverflows := by
  simp only [bomCopy]
  split_ifs with hnc
  · rcases @checkRoom_cases env params (min state.bytes.length
      (params.messageLength - (osamp.data.length - state.separatorCnt : ℤ)).toNat) osamp state with
      ⟨alloc, calls, hroom⟩ | ⟨result, after, hfull, hover, _⟩
    · rw [hroom]
      dsimp only
      split_ifs <;> exact Nat.le_refl _
    · rw [hfull]
      show state.sampleOverflows ≤ after.sampleOverflows
      omega
  · exact Nat.le_refl _

theorem bomLoop_overflows_le :
    ∀ (fuel : ℕ) (osamp : OutSample) (state : ScanState) (overflows : ℕ),
      overflows ≤ state.sampleOverflows →
      overflows ≤ (bomLoop env params fuel osamp state).2.sampleOverflows := by
  intro fuel
  induction fuel with
  | zero => intro osamp state overflows hle; exact hle
  | succ fuel ih =>
      intro osamp state overflows hle
      rw [bomLoop]
      cases hbytes : state.bytes with
      | nil => exact hle
      | cons c rest =>
          dsimp only
          rcases @checkRoom_cases env params (params.separator.length + params.nterm) osamp state
            with ⟨alloc, calls, hroom⟩ | ⟨result, after, hfull, hover, _⟩
          · rw [hroom]
            dsimp only
            by_cases hmatch : params.separator[state.separatorCnt]? = some c
            · rw [if_pos hmatch]
              by_cases hlast : state.separatorCnt + 1 = params.separator.length
              · rw [if_pos hlast]
                obtain ⟨result, next, after, hfound, _, _, _, hsame, _⟩ := @bomFound_spec env params
                  { osamp with alloc := alloc }
                  { state with
                    bomtt := if state.separatorCnt = 0
                      then state.tfirstchar + state.buftail * env.usecsPerByte else state.bomtt
                    bytes := rest
                    buftail := state.buftail + 1
                    separatorCnt := state.separatorCnt + 1
                    poolCalls := calls }
                rw [hfound]
                have hafter : overflows ≤ after.sampleOverflows := hsame ▸ hle
                cases result with
                | some result => exact hafter
                | none =>
                    have hcopy := @bomCopy_overflows_le env params next after
                    dsimp only
                    cases hflow : bomCopy env params next after with
                    | ret result last =>
                        rw [hflow] at hcopy
                        exact hafter.trans hcopy
                    | go last final =>
                        rw [hflow] at hcopy
                        exact ih _ _ _ (hafter.trans hcopy)
              · rw [if_neg hlast]
                exact ih _ _ _ hle
            · rw [if_neg hmatch]
              split_ifs <;> exact ih _ _ _ hle
          · rw [hfull]
            dsimp only
            omega

theorem nextSampleSepBOM_overflows_le (state : ScanState) :
    state.sampleOverflows ≤ (nextSampleSepBOM env params state).2.sampleOverflows := by
  have hbody : ∀ (osamp : OutSample) (state : ScanState) (overflows : ℕ),
      overflows ≤ state.sampleOverflows →
      overflows ≤ (bomBody env params osamp state).2.sampleOverflows := by
    intro osamp state overflows hle
    unfold bomBody
    dsimp only
    split_ifs with hcnt
    · have hcopy := @bomCopy_overflows_le env params osamp state
      cases hflow : bomCopy env params osamp state with
      | ret result after =>
          rw [hflow] at hcopy
          exact hle.trans hcopy
      | go next after =>
          rw [hflow] at hcopy
          exact bomLoop_overflows_le _ _ _ _ (hle.trans hcopy)
    · exact bomLoop_overflows_le _ _ _ _ hle
  unfold nextSampleSepBOM
  cases state.osamp with
  | none =>
      dsimp only
      split_ifs with hbytes
      · exact Nat.le_refl _
      · exact hbody _ _ _ (Nat.le_of_eq (openSample_spec env state).2.2.2.symm)
  | some osamp => exact hbody _ _ _ (Nat.le_refl _)

theorem drain_overflows_le {next : ScanState → Option Sample × ScanState}
    (hnext : ∀ state, state.sampleOverflows ≤ (next state).2.sampleOverflows) :
    ∀ (fuel : ℕ) (state : ScanState),
      state.sampleOverflows ≤ (drain next fuel state).1.sampleOverflows := by
  intro fuel
  induction fuel with
  | zero => intro state; exact Nat.le_refl _
  | succ fuel ih =>
      intro state
      have hle := hnext state
      rw [drain]
      cases hcall : next state with
      | mk outcome after =>
          rw [hcall] at hle
          cases outcome with
          | none => exact hle
          | some result => exact hle.trans (ih after)

/-! ## Any sequence of buffers -/

/-- Calling `nextSampleSepBOM` until it returns null hands on what the framer
emits, unless a sample reaches the maximum size. -/
theorem drain_bom_spec (hseparator : params.separator ≠ []) :
    ∀ (fuel : ℕ) (state : ScanState) (framing : Framing),
      BomRelated params state framing → state.bytes.length < fuel →
      (drain (nextSampleSepBOM env params) fuel state).1.sampleOverflows =
        state.sampleOverflows →
      (drain (nextSampleSepBOM env params) fuel state).2.map Sample.data =
          ((scannerFramer params).run framing state.bytes).2.map params.terminate ∧
        BomSettled params state.bytes (drain (nextSampleSepBOM env params) fuel state).1
          ((scannerFramer params).run framing state.bytes).1 := by
  intro fuel
  induction fuel with
  | zero => intro state framing _ hfuel; omega
  | succ fuel ih =>
      intro state framing hrelated hfuel hover
      have hcall := @nextSampleSepBOM_spec env params hseparator state framing hrelated
      have hmono := @drain_overflows_le (nextSampleSepBOM env params) nextSampleSepBOM_overflows_le
      rw [drain] at hover ⊢
      cases hnext : nextSampleSepBOM env params state with
      | mk outcome after =>
          rw [hnext] at hcall hover
          cases hcall with
          | overflow hmore =>
              exfalso
              cases outcome with
              | none => exact absurd hover (Nat.ne_of_gt hmore)
              | some result =>
                  have hle := hmono fuel after
                  dsimp only at hover hmore
                  omega
          | empty _ hout hsettled => exact ⟨by rw [hout]; rfl, hsettled⟩
          | sample hsame hdata hshorter hafter hrun =>
              dsimp only at hover
              obtain ⟨houts, hsettled⟩ := ih after _ hafter (by omega) (by rw [hover, hsame])
              rw [hrun]
              refine ⟨?_, hsettled.bytes_eq_nil, fun hkept => ?_, fun hpos hlost => ?_⟩
              · dsimp only
                rw [List.map_cons, List.map_cons, houts, hdata]
              · apply hsettled.kept
                rcases hkept with hzero | ⟨_, hlt⟩
                · exact Or.inl hzero
                · refine Or.inr ⟨fun hnil => ?_, hlt⟩
                  rw [hnil] at hlt
                  exact absurd hlt (Nat.lt_irrefl _)
              · refine hsettled.lost hpos (Or.inr (hlost.resolve_left fun hnil => ?_))
                rw [hnil] at hshorter
                exact absurd hshorter (Nat.not_lt_zero _)

/-- Where a buffer may end: at the end of the stream, with nothing of a fixed part
outstanding, or with a character of the fixed part. -/
def BomCutOk (separator : List UInt8) (len : ℕ) (future : List UInt8) (framing : Framing)
    (sensor : SensorRead) : Prop :=
  future = [] ∨ ((bomFramer separator len).run framing sensor.bytes).1.left = 0 ∨
    sensor.bytes ≠ [] ∧ ((bomFramer separator len).run framing sensor.bytes).1.left < len

/-- All buffers of a stream end so. -/
def BomCutsOk (separator : List UInt8) (len : ℕ) (reads : List SensorRead) : Prop :=
  Admissible (bomFramer separator len) SensorRead.bytes (BomCutOk separator len) [] .start reads

/-- Whenever bytes of a fixed part of `len` characters are still to come, the
scanner stands in its copying section, with just these characters to copy. -/
def FixedPartKept (env : ScanEnv) (params : MessageParameters) (len bufsize : ℕ)
    (reads : List SensorRead) : Prop :=
  ∀ front back, reads = front ++ back → back.flatMap SensorRead.bytes ≠ [] →
    0 < ((bomFramer params.separator len).run .start (front.flatMap SensorRead.bytes)).1.left →
    ∃ osamp, (scanBuffers env params (nextSampleSepBOM env params) bufsize front).1.osamp =
        some osamp ∧
      (scanBuffers env params (nextSampleSepBOM env params) bufsize front).1.separatorCnt =
        params.separator.length ∧
      bomLeft params osamp.data.length =
        ((bomFramer params.separator len).run .start (front.flatMap SensorRead.bytes)).1.left

/-- The scanner follows the framer, as long as there is something to come. -/
def BomFollows (params : MessageParameters) (future : List UInt8) (state : ScanState)
    (framing : Framing) : Prop :=
  state.bytes = [] ∧ (future ≠ [] → BomRelated params state framing)

theorem nextSampleSepBOM_of_nil {state : ScanState} (hbytes : state.bytes = []) :
    ∃ after, nextSampleSepBOM env params state = (none, after) ∧ after.bytes = [] := by
  unfold nextSampleSepBOM
  cases state.osamp with
  | none =>
      dsimp only
      rw [if_pos hbytes]
      exact ⟨state, rfl, hbytes⟩
  | some osamp =>
      simp only [bomBody]
      split_ifs
      · rw [bomCopy_of_nil hbytes]
        dsimp only
        rw [bomLoop_of_nil (by exact hbytes)]
        exact ⟨_, rfl, hbytes⟩
      · rw [bomLoop_of_nil hbytes]
        exact ⟨_, rfl, hbytes⟩

theorem scanBuffer_overflows_le (bufsize : ℕ) (state : ScanState) (sensor : SensorRead) :
    state.sampleOverflows ≤
      (scanBuffer env (nextSampleSepBOM env params) bufsize state sensor).1.sampleOverflows :=
  drain_overflows_le nextSampleSepBOM_overflows_le _ (readBuffer env bufsize sensor state)

theorem scanBuffer_bom (hseparator : params.separator ≠ []) {bufsize : ℕ} {state : ScanState}
    {framing : Framing} {sensor : SensorRead} (hempty : state.bytes = [])
    (hrelated : BomRelated params state framing) (hfits : sensor.bytes.length ≤ bufsize)
    (hover : (scanBuffer env (nextSampleSepBOM env params) bufsize state sensor).1.sampleOverflows =
      state.sampleOverflows) :
    (scanBuffer env (nextSampleSepBOM env params) bufsize state sensor).2.map Sample.data =
        ((scannerFramer params).run framing sensor.bytes).2.map params.terminate ∧
      BomSettled params sensor.bytes
        (scanBuffer env (nextSampleSepBOM env params) bufsize state sensor).1
        ((scannerFramer params).run framing sensor.bytes).1 := by
  have hbytes : (readBuffer env bufsize sensor state).bytes = sensor.bytes := by
    simp [readBuffer, hempty, List.take_of_length_le hfits]
  have hload : BomRelated params (readBuffer env bufsize sensor state) framing := by
    cases hrelated with
    | idle hosamp => exact .idle hosamp
    | searching hosamp hcnt =>
        exact @BomRelated.searching params (readBuffer env bufsize sensor state) _ hosamp hcnt
    | copying hosamp hcnt hread => exact .copying hosamp hcnt hread
  have hdrain := @drain_bom_spec env params hseparator
    (2 * (readBuffer env bufsize sensor state).bytes.length + 2) _ _ hload (by omega) hover
  rw [hbytes] at hdrain
  simpa only [scanBuffer, hbytes] using hdrain

/-- The scanner simulates the framer over buffers that end well. -/
def bomSimulation (env : ScanEnv) (hseparator : params.separator ≠ []) (bufsize : ℕ) :
    BlockSimulation ((scannerFramer params).mapOut params.terminate) SensorRead.bytes
      (scanBufferData env (nextSampleSepBOM env params) bufsize) where
  related := BomFollows params
  ok future framing sensor := sensor.bytes.length ≤ bufsize ∧
    BomCutOk params.separator params.messageLength.toNat future framing sensor
  fine state := state.sampleOverflows = 0
  fine_of_read state sensor hzero :=
    Nat.le_zero.mp ((scanBuffer_overflows_le bufsize state sensor).trans (Nat.le_of_eq hzero))
  read_spec future state framing sensor hfollows hok hzero := by
    obtain ⟨hempty, hrelated⟩ := hfollows
    obtain ⟨hfits, hcut⟩ := hok
    rw [Transducer.run_mapOut]
    by_cases hnil : sensor.bytes ++ future = []
    · -- nothing is left to read
      obtain ⟨hbytes, rfl⟩ := List.append_eq_nil_iff.mp hnil
      have hload : (readBuffer env bufsize sensor state).bytes = [] := by
        simp [readBuffer, hempty, hbytes]
      obtain ⟨after, hnext, hdone⟩ := @nextSampleSepBOM_of_nil env params _ hload
      have hscan : scanBuffer env (nextSampleSepBOM env params) bufsize state sensor =
          (after, []) := by
        rw [scanBuffer, drain, hnext]
      rw [scanBufferData, hscan, hbytes]
      exact ⟨rfl, hdone, fun hne => absurd rfl hne⟩
    · have hover : state.sampleOverflows = 0 :=
        Nat.le_zero.mp ((scanBuffer_overflows_le bufsize state sensor).trans (Nat.le_of_eq hzero))
      obtain ⟨houts, hsettled⟩ := scanBuffer_bom hseparator hempty (hrelated hnil) hfits
        (hzero.trans hover.symm)
      exact ⟨houts, hsettled.bytes_eq_nil, fun hfuture =>
        hsettled.kept (hcut.resolve_left hfuture)⟩

/-- Over buffers that end well, the scanner hands on what the framer emits, and
follows it to the end. -/
theorem scanBuffers_bom (hseparator : params.separator ≠ []) {bufsize : ℕ} {later : List UInt8}
    {reads : List SensorRead} (hfits : ∀ sensor ∈ reads, sensor.bytes.length ≤ bufsize)
    (hcuts : Admissible (scannerFramer params) SensorRead.bytes
      (BomCutOk params.separator params.messageLength.toNat) later .start reads)
    (hover : (scanBuffers env params (nextSampleSepBOM env params) bufsize reads).1.sampleOverflows =
      0) :
    (scanBuffers env params (nextSampleSepBOM env params) bufsize reads).2.map Sample.data =
        ((scannerFramer params).run .start
          (reads.flatMap SensorRead.bytes)).2.map params.terminate ∧
      BomFollows params later (scanBuffers env params (nextSampleSepBOM env params) bufsize reads).1
        ((scannerFramer params).run .start (reads.flatMap SensorRead.bytes)).1 := by
  have hok : Admissible ((scannerFramer params).mapOut params.terminate) SensorRead.bytes
      (bomSimulation env hseparator bufsize).ok later .start reads := by
    rw [admissible_mapOut]
    exact admissible_and (admissible_of_forall fun sensor hsensor _ _ => hfits sensor hsensor) hcuts
  have hall := (bomSimulation env hseparator bufsize).readBlocks_eq_run later reads
    (ScanState.start params) .start ⟨rfl, fun _ => .idle rfl⟩ hok
    (by rw [readBlocks_scanBufferData]; exact hover)
  rw [readBlocks_scanBufferData, Transducer.run_mapOut] at hall
  exact hall

theorem scanBuffers_overflows_of_append (hseparator : params.separator ≠ []) {bufsize : ℕ}
    {front back : List SensorRead}
    (hover : (scanBuffers env params (nextSampleSepBOM env params) bufsize
      (front ++ back)).1.sampleOverflows = 0) :
    (scanBuffers env params (nextSampleSepBOM env params) bufsize front).1.sampleOverflows = 0 := by
  have hfine := @BlockSimulation.fine_of_readBlocks _ _ _ _ _ _ _ _
    (bomSimulation env hseparator bufsize) back
    (scanBuffers env params (nextSampleSepBOM env params) bufsize front).1
  apply hfine
  have hsplit := readBlocks_append (scanBufferData env (nextSampleSepBOM env params) bufsize)
    (ScanState.start params) front back
  rw [readBlocks_scanBufferData, readBlocks_scanBufferData] at hsplit
  have hend : (scanBuffers env params (nextSampleSepBOM env params) bufsize (front ++ back)).1 =
      (readBlocks (scanBufferData env (nextSampleSepBOM env params) bufsize)
        (scanBuffers env params (nextSampleSepBOM env params) bufsize front).1 back).1 :=
    congrArg Prod.fst hsplit
  exact (congrArg ScanState.sampleOverflows hend).symm.trans hover

/-- A buffer that ends badly leaves the scanner searching in the fixed part. -/
theorem cutsOk_of_fixedPartKept (hseparator : params.separator ≠ []) {bufsize : ℕ}
    {reads : List SensorRead} (hfits : ∀ sensor ∈ reads, sensor.bytes.length ≤ bufsize)
    (hover : (scanBuffers env params (nextSampleSepBOM env params) bufsize reads).1.sampleOverflows =
      0)
    (hkept : FixedPartKept env params params.messageLength.toNat bufsize reads) :
    BomCutsOk params.separator params.messageLength.toNat reads := by
  by_contra hcuts
  obtain ⟨front, sensor, back, rfl, hfront, hbad⟩ := exists_first_not_ok hcuts
  simp only [BomCutOk, not_or, not_and_or, not_not, Nat.not_lt, List.append_nil] at hbad
  obtain ⟨hfuture, hleft, hend⟩ := hbad
  have hjoin : front ++ sensor :: back = (front ++ [sensor]) ++ back := by simp
  rw [hjoin] at hover
  have hnext := scanBuffers_overflows_of_append hseparator hover
  have hbefore := scanBuffers_overflows_of_append hseparator hnext
  obtain ⟨_, hempty, hrelated⟩ := scanBuffers_bom hseparator
    (fun other hother => hfits other (List.mem_append_left _ hother)) hfront hbefore
  have hlast : (scanBuffers env params (nextSampleSepBOM env params) bufsize
      (front ++ [sensor])).1 = (scanBuffer env (nextSampleSepBOM env params) bufsize
        (scanBuffers env params (nextSampleSepBOM env params) bufsize front).1 sensor).1 := by
    rw [scanBuffers, readBlocks_append]
    rfl
  rw [hlast] at hnext
  have hsettled := (scanBuffer_bom hseparator hempty (hrelated (by simp [hfuture]))
    (hfits sensor (by simp)) (hnext.trans hbefore.symm)).2
  have hlost := hsettled.lost (Nat.pos_of_ne_zero hleft) hend
  obtain ⟨osamp, _, hcnt, _⟩ := hkept (front ++ [sensor]) back hjoin hfuture (by
    rw [List.flatMap_append, Transducer.run_append]
    simpa using Nat.pos_of_ne_zero hleft)
  rw [hlast, hlost] at hcnt
  exact hseparator (List.length_eq_zero_iff.mp hcnt.symm)

theorem fixedPartKept_of_cutsOk (hseparator : params.separator ≠ []) {bufsize : ℕ}
    {reads : List SensorRead} (hfits : ∀ sensor ∈ reads, sensor.bytes.length ≤ bufsize)
    (hover : (scanBuffers env params (nextSampleSepBOM env params) bufsize reads).1.sampleOverflows =
      0)
    (hcuts : BomCutsOk params.separator params.messageLength.toNat reads) :
    FixedPartKept env params params.messageLength.toNat bufsize reads := by
  rintro front back rfl hfuture hleft
  obtain ⟨_, _, hrelated⟩ := scanBuffers_bom hseparator
    (fun other hother => hfits other (List.mem_append_left _ hother))
    (admissible_append.mp hcuts).1 (scanBuffers_overflows_of_append hseparator hover)
  have hstands := hrelated (by simpa using hfuture)
  generalize ((bomFramer params.separator params.messageLength.toNat).run .start
    (front.flatMap SensorRead.bytes)).1 = framing at hleft hstands
  cases hstands with
  | idle _ => exact absurd hleft (Nat.lt_irrefl 0)
  | searching _ _ => exact absurd hleft (Nat.lt_irrefl 0)
  | copying hosamp hcnt _ => exact ⟨_, hosamp, hcnt, rfl⟩

/-- The parameters of a beginning-of-message scanner.  A message length so large
that its sum with the length of the separator wraps around is accepted too, but
is negative as an `int`. -/
theorem messageLength_of_no_wrap {len : UInt32} {sepexp : List UInt8} {eom nullTerminate : Bool}
    (hparams : setMessageParameters len sepexp eom nullTerminate = .ok params)
    (hwrap : len.toNat + params.separator.length < 2 ^ 32) :
    params.messageLength.toNat = len.toNat := by
  obtain ⟨hlen, _, _, hmax⟩ := setMessageParameters_ok hparams
  rw [Nat.mod_eq_of_lt hwrap] at hmax
  have hsmall : maxMessageStreamSampleSize < 2 ^ 31 := by decide
  rw [hlen, toInt_toInt32, if_pos (by omega), Int.toNat_natCast]

theorem separator_ne_nil_of_sepBOM {len : UInt32} {sepexp : List UInt8} {eom nullTerminate : Bool}
    (hparams : setMessageParameters len sepexp eom nullTerminate = .ok params)
    (hfunc : params.nextSampleFunc = .sepBOM) : params.separator ≠ [] := by
  simp only [setMessageParameters] at hparams
  split_ifs at hparams
  cases hparams
  rintro hnil
  simp only [acceptedParameters] at hfunc hnil
  rw [if_pos hnil] at hfunc
  cases hfunc

/-- **Beginning-of-message framing does not depend on the buffers exactly when
every buffer ends well.**  For every separator and every message length that
`setMessageParameters` accepts without wrapping around, every stream and every
cutting of it into buffers, as long as no sample reaches the maximum size: the
samples are those of the whole stream in one buffer and no character of a fixed
part is searched, if and only if no buffer that is followed by more characters
ends just behind a separator and none is empty inside of a fixed part. -/
theorem nextSampleSepBOM_framing_iff {len : UInt32} {sepexp : List UInt8}
    {nullTerminate : Bool}
    (hparams : setMessageParameters len sepexp false nullTerminate = .ok params)
    (hfunc : params.nextSampleFunc = .sepBOM)
    (hwrap : len.toNat + params.separator.length < 2 ^ 32)
    {whole : ScanEnv} {bufsize wholeSize : ℕ} {reads : List SensorRead} {time : ℤ}
    (hfits : ∀ sensor ∈ reads, sensor.bytes.length ≤ bufsize)
    (hwhole : (reads.flatMap SensorRead.bytes).length ≤ wholeSize)
    (hover : (scanBuffers env params (nextSampleSepBOM env params) bufsize reads).1.sampleOverflows =
      0)
    (hoverWhole : (scanBuffers whole params (nextSampleSepBOM whole params) wholeSize
      [⟨reads.flatMap SensorRead.bytes, time⟩]).1.sampleOverflows = 0) :
    ((scanBuffers env params (nextSampleSepBOM env params) bufsize reads).2.map Sample.data =
          (scanBuffers whole params (nextSampleSepBOM whole params) wholeSize
            [⟨reads.flatMap SensorRead.bytes, time⟩]).2.map Sample.data ∧
        FixedPartKept env params len.toNat bufsize reads) ↔
      BomCutsOk params.separator len.toNat reads := by
  have hseparator := separator_ne_nil_of_sepBOM hparams hfunc
  rw [← messageLength_of_no_wrap hparams hwrap]
  constructor
  · rintro ⟨_, hkept⟩
    exact cutsOk_of_fixedPartKept hseparator hfits hover hkept
  · intro hcuts
    refine ⟨?_, fixedPartKept_of_cutsOk hseparator hfits hover hcuts⟩
    have hone : BomCutsOk params.separator params.messageLength.toNat
        [⟨reads.flatMap SensorRead.bytes, time⟩] := ⟨Or.inl rfl, trivial⟩
    rw [(scanBuffers_bom hseparator hfits hcuts hover).1,
      (scanBuffers_bom hseparator (by simpa using hwhole) hone hoverWhole).1]
    simp

/-- A buffer that ends inside of the fixed part: `Ax`, then `yAz`. -/
theorem nextSampleSepBOM_framing_inside :
    (scanBuffers ⟨0, 0, exactPool⟩ (acceptedParameters 2 [65] false false)
          (nextSampleSepBOM ⟨0, 0, exactPool⟩ (acceptedParameters 2 [65] false false)) 3
          [⟨[65, 120], 0⟩, ⟨[121, 65, 122], 1⟩]).2.map Sample.data =
        (scanBuffers ⟨0, 0, exactPool⟩ (acceptedParameters 2 [65] false false)
          (nextSampleSepBOM ⟨0, 0, exactPool⟩ (acceptedParameters 2 [65] false false)) 5
          [⟨[65, 120, 121, 65, 122], 0⟩]).2.map Sample.data ∧
      FixedPartKept ⟨0, 0, exactPool⟩ (acceptedParameters 2 [65] false false) 2 3
        [⟨[65, 120], 0⟩, ⟨[121, 65, 122], 1⟩] := by
  have hparams : setMessageParameters 2 [65] false false =
      .ok (acceptedParameters 2 [65] false false) := by decide +kernel
  refine (nextSampleSepBOM_framing_iff hparams (by decide +kernel) (by decide +kernel)
    (by decide +kernel) (by decide +kernel) (by decide +kernel) (by decide +kernel)).mpr ?_
  exact ⟨Or.inr (Or.inr ⟨by decide, by decide +kernel⟩), Or.inl rfl, trivial⟩

/-- The separator `A` with two characters after it, and the stream `AxAAy`.  In one
buffer the message is `AxA`; with a buffer that ends after the first `A` the
second `A` is taken for a separator. -/
theorem nextSampleSepBOM_depends_on_buffers :
    setMessageParameters 2 [65] false false = .ok (acceptedParameters 2 [65] false false) ∧
      (scanBuffers ⟨0, 0, exactPool⟩ (acceptedParameters 2 [65] false false)
          (nextSampleSepBOM ⟨0, 0, exactPool⟩ (acceptedParameters 2 [65] false false)) 5
          [⟨[65], 0⟩, ⟨[120, 65, 65, 121], 1⟩]).2.map Sample.data = [[65, 120]] ∧
      (scanBuffers ⟨0, 0, exactPool⟩ (acceptedParameters 2 [65] false false)
          (nextSampleSepBOM ⟨0, 0, exactPool⟩ (acceptedParameters 2 [65] false false)) 5
          [⟨[65, 120, 65, 65, 121], 0⟩]).2.map Sample.data = [[65, 120, 65]] ∧
      (scanBuffers ⟨0, 0, exactPool⟩ (acceptedParameters 2 [65] false false)
          (nextSampleSepBOM ⟨0, 0, exactPool⟩ (acceptedParameters 2 [65] false false)) 5
          [⟨[65], 0⟩, ⟨[120, 65, 65, 121], 1⟩]).1.sampleOverflows = 0 ∧
      (scanBuffers ⟨0, 0, exactPool⟩ (acceptedParameters 2 [65] false false)
          (nextSampleSepBOM ⟨0, 0, exactPool⟩ (acceptedParameters 2 [65] false false)) 5
          [⟨[65, 120, 65, 65, 121], 0⟩]).1.sampleOverflows = 0 := by
  refine ⟨?_, ?_, ?_, ?_, ?_⟩ <;> decide +kernel

end Nidas.Core
