import Mathlib.Data.List.Infix
import Nidas.Lib.Transducer

/-!
# Cutting a stream after a pattern

A `Collector` is a machine that collects the symbols it reads into a piece, and
now and then emits the piece and starts a new one.

`cutter pattern` is the specification: it cuts as soon as the piece ends with
`pattern`.  The search starts over in the next piece, so the cuts are made just
after the leftmost, non-overlapping occurrences.

`matcher pattern fall` is how a program does it with a counter: the counter says
how much of the pattern the stream currently ends with, and `fall` says where
the counter goes when the next symbol does not continue the match.  The file
answers which functions `fall` are right.

* `FallSound`: the new counter is a true overlap, no longer than the old one.
* `FallComplete`: no overlap that the symbol continues is forgotten.

A sound matcher agrees with the cutter on all streams if and only if it is
complete (`matcher_eq_cutter`, `matcher_ne_cutter`).  Both carry a bound on the
length of the pieces, because an overlap of `j` symbols met at counter `k` can
only show in a piece of at least `pattern.length + (k - j)` symbols.
-/

namespace Nidas.Lib

variable {σ α : Type*}

/-! ## Collectors -/

/-- A machine that collects symbols and emits what it has collected. -/
structure Collector (σ α : Type*) extends Transducer σ α (List α) where
  start : σ
  collected : σ → List α
  collected_start : collected start = []
  step_cases : ∀ state symbol, step state symbol = (start, [collected state ++ [symbol]]) ∨
    (step state symbol).2 = [] ∧ collected (step state symbol).1 = collected state ++ [symbol]

variable {machine : Collector σ α} {bound : ℕ}

/-- Every piece that the machine makes of `stream` is shorter than `bound`, and
so is what it holds at the end. -/
def PiecesBelow (bound : ℕ) (machine : Collector σ α) (state : σ) (stream : List α) : Prop :=
  (∀ made ∈ (machine.run state stream).2, made.length < bound) ∧
    (machine.collected (machine.run state stream).1).length < bound

/-- Pieces are made of what is there. -/
theorem length_le_of_run (state : σ) (stream : List α) :
    (∀ made ∈ (machine.run state stream).2,
        made.length ≤ (machine.collected state).length + stream.length) ∧
      (machine.collected (machine.run state stream).1).length ≤
        (machine.collected state).length + stream.length := by
  induction stream generalizing state with
  | nil => simp
  | cons symbol rest ih =>
      rw [Transducer.run_cons, List.length_cons]
      rcases machine.step_cases state symbol with hstep | ⟨hout, hcollected⟩
      · obtain ⟨hpieces, hlast⟩ := ih machine.start
        rw [hstep]
        rw [machine.collected_start, List.length_nil] at hpieces hlast
        refine ⟨fun made hmade => ?_, hlast.trans (by omega)⟩
        rcases List.mem_append.mp hmade with hmade | hmade
        · simp only [List.mem_singleton] at hmade
          simp [hmade]
        · exact (hpieces made hmade).trans (by omega)
      · obtain ⟨hpieces, hlast⟩ := ih (machine.step state symbol).1
        rw [hcollected, List.length_append, List.length_singleton] at hpieces hlast
        rw [hout, List.nil_append]
        exact ⟨fun made hmade => (hpieces made hmade).trans (by omega),
          hlast.trans (by omega)⟩

theorem piecesBelow_of_length {state : σ} {stream : List α}
    (hlength : (machine.collected state).length + stream.length < bound) :
    PiecesBelow bound machine state stream :=
  ⟨fun made hmade => ((length_le_of_run state stream).1 made hmade).trans_lt hlength,
    (length_le_of_run state stream).2.trans_lt hlength⟩

theorem PiecesBelow.of_cons {state : σ} {symbol : α} {rest : List α}
    (hbelow : PiecesBelow bound machine state (symbol :: rest)) :
    PiecesBelow bound machine (machine.step state symbol).1 rest :=
  ⟨fun made hmade => hbelow.1 made (List.mem_append_right _ hmade), hbelow.2⟩

/-- What is collected is part of the next piece, so it obeys the bound too. -/
theorem PiecesBelow.length_lt {state : σ} {stream : List α}
    (hbelow : PiecesBelow bound machine state stream) :
    (machine.collected state).length < bound := by
  induction stream generalizing state with
  | nil => exact hbelow.2
  | cons symbol rest ih =>
      rcases machine.step_cases state symbol with hstep | ⟨_, hcollected⟩
      · have hpiece := hbelow.1 (machine.collected state ++ [symbol]) (by
          rw [Transducer.run_cons, hstep]
          simp)
        rw [List.length_append] at hpiece
        omega
      · have hpiece := ih hbelow.of_cons
        rw [hcollected, List.length_append] at hpiece
        omega

theorem PiecesBelow.succ_length_lt {state : σ} {symbol : α} {rest : List α}
    (hbelow : PiecesBelow bound machine state (symbol :: rest)) :
    (machine.collected state).length + 1 < bound := by
  rcases machine.step_cases state symbol with hstep | ⟨_, hcollected⟩
  · have hpiece := hbelow.1 (machine.collected state ++ [symbol]) (by
      rw [Transducer.run_cons, hstep]
      simp)
    rwa [List.length_append, List.length_singleton] at hpiece
  · have hpiece := hbelow.of_cons.length_lt
    rwa [hcollected, List.length_append, List.length_singleton] at hpiece

theorem PiecesBelow.of_append {state : σ} {front back : List α}
    (hbelow : PiecesBelow bound machine state (front ++ back)) :
    PiecesBelow bound machine (machine.run state front).1 back := by
  induction front generalizing state with
  | nil => exact hbelow
  | cons symbol rest ih => exact ih hbelow.of_cons

theorem PiecesBelow.of_append_left {state : σ} {front back : List α}
    (hbelow : PiecesBelow bound machine state (front ++ back)) :
    PiecesBelow bound machine state front := by
  refine ⟨fun made hmade => hbelow.1 made ?_, hbelow.of_append.length_lt⟩
  rw [Transducer.run_append]
  exact List.mem_append_left _ hmade

/-! ## The cutter and the matcher -/

variable [DecidableEq α]

/-- The specification: cut when the current piece ends with `pattern`. -/
def cutter (pattern : List α) : Collector (List α) α where
  step piece symbol :=
    if pattern <:+ piece ++ [symbol] then ([], [piece ++ [symbol]])
    else (piece ++ [symbol], [])
  start := []
  collected piece := piece
  collected_start := rfl
  step_cases piece symbol := by
    by_cases hsuffix : pattern <:+ piece ++ [symbol] <;> simp [hsuffix]

/-- A matcher with a counter.  `fall k symbol` is the counter after `symbol`
fails to continue a match of length `k`. -/
def matcher (pattern : List α) (fall : ℕ → α → ℕ) : Collector (List α × ℕ) α where
  step state symbol :=
    let piece := state.1 ++ [symbol]
    if pattern[state.2]? = some symbol then
      if state.2 + 1 = pattern.length then (([], 0), [piece]) else ((piece, state.2 + 1), [])
    else ((piece, fall state.2 symbol), [])
  start := ([], 0)
  collected state := state.1
  collected_start := rfl
  step_cases state symbol := by
    by_cases hsymbol : pattern[state.2]? = some symbol
    · by_cases hk : state.2 + 1 = pattern.length <;> simp [hsymbol, hk]
    · simp [hsymbol]

/-- The counter never claims an overlap that is not there. -/
def FallSound (pattern : List α) (fall : ℕ → α → ℕ) : Prop :=
  ∀ k symbol, k < pattern.length → pattern[k]? ≠ some symbol →
    fall k symbol ≤ k ∧ pattern.take (fall k symbol) <:+ pattern.take k ++ [symbol]

/-- The counter never forgets an overlap that the symbol continues, as far as
pieces shorter than `bound` can tell. -/
def FallComplete (bound : ℕ) (pattern : List α) (fall : ℕ → α → ℕ) : Prop :=
  ∀ k j symbol, j < k → k < pattern.length → pattern.take j <:+ pattern.take k →
    pattern[j]? = some symbol → pattern[k]? ≠ some symbol →
    pattern.length + (k - j) < bound → j + 1 ≤ fall k symbol

variable {pattern : List α} {fall : ℕ → α → ℕ}

theorem cutter_step_of_suffix {piece : List α} {symbol : α}
    (hsuffix : pattern <:+ piece ++ [symbol]) :
    (cutter pattern).step piece symbol = ([], [piece ++ [symbol]]) :=
  if_pos hsuffix

theorem cutter_step_of_not_suffix {piece : List α} {symbol : α}
    (hsuffix : ¬ pattern <:+ piece ++ [symbol]) :
    (cutter pattern).step piece symbol = (piece ++ [symbol], []) :=
  if_neg hsuffix

theorem matcher_step_of_last {piece : List α} {k : ℕ} {symbol : α}
    (hsymbol : pattern[k]? = some symbol) (hk : k + 1 = pattern.length) :
    (matcher pattern fall).step (piece, k) symbol = (([], 0), [piece ++ [symbol]]) := by
  simp [matcher, hsymbol, hk]

theorem matcher_step_of_match {piece : List α} {k : ℕ} {symbol : α}
    (hsymbol : pattern[k]? = some symbol) (hk : k + 1 ≠ pattern.length) :
    (matcher pattern fall).step (piece, k) symbol = ((piece ++ [symbol], k + 1), []) := by
  simp [matcher, hsymbol, hk]

theorem matcher_step_of_miss {piece : List α} {k : ℕ} {symbol : α}
    (hsymbol : pattern[k]? ≠ some symbol) :
    (matcher pattern fall).step (piece, k) symbol =
      ((piece ++ [symbol], fall k symbol), []) := by
  simp [matcher, hsymbol]

/-- A cutter that made no cut has collected everything, and what it has does not
end with the pattern. -/
theorem not_suffix_of_no_cut {piece stream : List α}
    (hout : ((cutter pattern).run piece stream).2 = []) (hne : stream ≠ []) :
    ¬ pattern <:+ piece ++ stream := by
  induction stream generalizing piece with
  | nil => exact absurd rfl hne
  | cons symbol rest ih =>
      by_cases hsuffix : pattern <:+ piece ++ [symbol]
      · rw [Transducer.run_cons, cutter_step_of_suffix hsuffix] at hout
        simp at hout
      · rw [Transducer.run_cons, cutter_step_of_not_suffix hsuffix] at hout
        cases rest with
        | nil => exact hsuffix
        | cons next more =>
            have hrest : ¬ pattern <:+ (piece ++ [symbol]) ++ next :: more :=
              ih (by simpa using hout) (by simp)
            simpa using hrest

/-! ## Overlaps -/

omit [DecidableEq α] in
/-- One more symbol of the pattern is an overlap exactly when the shorter one is
and the symbol continues it. -/
theorem take_succ_suffix_concat_iff {piece : List α} {symbol : α} {j : ℕ}
    (hj : j < pattern.length) :
    pattern.take (j + 1) <:+ piece ++ [symbol] ↔
      pattern.take j <:+ piece ∧ pattern[j]? = some symbol := by
  rw [List.take_succ_eq_append_getElem hj, List.getElem?_eq_getElem hj]
  constructor
  · rintro ⟨front, hfront⟩
    rw [← List.append_assoc] at hfront
    obtain ⟨hinit, hlast⟩ := List.append_inj' hfront rfl
    exact ⟨⟨front, hinit⟩, by simpa using hlast⟩
  · rintro ⟨⟨front, rfl⟩, hlast⟩
    refine ⟨front, ?_⟩
    rw [Option.some.injEq] at hlast
    rw [hlast, List.append_assoc]

/-- What the counter `k` knows about the collected piece: it is a true overlap,
and no longer one could still matter below the bound. -/
structure Tracks (bound : ℕ) (pattern piece : List α) (k : ℕ) : Prop where
  lt_length : k < pattern.length
  suffix : pattern.take k <:+ piece
  longest : ∀ j < pattern.length, pattern.take j <:+ piece →
    piece.length - j + pattern.length < bound → j ≤ k

omit [DecidableEq α] in
theorem tracks_nil (hpattern : pattern ≠ []) : Tracks bound pattern [] 0 := by
  refine ⟨List.length_pos_iff.mpr hpattern, by simp, fun j hj hsuffix _ => ?_⟩
  have hlength := hsuffix.length_le
  simp only [List.length_take, List.length_nil] at hlength
  omega

omit [DecidableEq α] in
theorem Tracks.le_length {piece : List α} {k : ℕ} (htracks : Tracks bound pattern piece k) :
    k ≤ piece.length := by
  have hlength := htracks.suffix.length_le
  rw [List.length_take] at hlength
  have := htracks.lt_length
  omega

omit [DecidableEq α] in
/-- The piece ends with the pattern exactly when the counter was one short of it
and the symbol continued the match. -/
theorem Tracks.suffix_concat_iff {piece : List α} {k : ℕ} {symbol : α}
    (htracks : Tracks bound pattern piece k) (hbound : piece.length + 1 < bound) :
    pattern <:+ piece ++ [symbol] ↔
      pattern[k]? = some symbol ∧ k + 1 = pattern.length := by
  have hlt := htracks.lt_length
  have hlast : pattern.length - 1 < pattern.length := by omega
  have hfull : pattern.take (pattern.length - 1 + 1) = pattern :=
    List.take_of_length_le (by omega)
  constructor
  · intro hsuffix
    have hpattern := hsuffix.length_le
    simp only [List.length_append, List.length_singleton] at hpattern
    rw [← hfull, take_succ_suffix_concat_iff hlast] at hsuffix
    have hle := htracks.longest _ hlast hsuffix.1 (by omega)
    have hk : pattern.length - 1 = k := by omega
    exact ⟨hk ▸ hsuffix.2, by omega⟩
  · rintro ⟨hsymbol, hk⟩
    have hstep := (take_succ_suffix_concat_iff hlt).mpr ⟨htracks.suffix, hsymbol⟩
    rwa [hk, List.take_length] at hstep

omit [DecidableEq α] in
/-- A longer overlap of the extended piece comes from an overlap of the piece. -/
theorem Tracks.of_suffix_concat {piece : List α} {k j : ℕ} {symbol : α}
    (htracks : Tracks bound pattern piece k) (hj : j + 1 < pattern.length)
    (hsuffix : pattern.take (j + 1) <:+ piece ++ [symbol])
    (hbound : (piece ++ [symbol]).length - (j + 1) + pattern.length < bound) :
    j ≤ k ∧ pattern.take j <:+ pattern.take k ∧ pattern[j]? = some symbol := by
  obtain ⟨hoverlap, hsymbol⟩ := (take_succ_suffix_concat_iff (by omega)).mp hsuffix
  simp only [List.length_append, List.length_singleton] at hbound
  have hle : j ≤ k := htracks.longest j (by omega) hoverlap (by omega)
  refine ⟨hle, List.suffix_of_suffix_length_le hoverlap htracks.suffix ?_, hsymbol⟩
  simp only [List.length_take]
  have := htracks.lt_length
  omega

omit [DecidableEq α] in
/-- The counter goes up with the match. -/
theorem Tracks.concat_of_match {piece : List α} {k : ℕ} {symbol : α}
    (htracks : Tracks bound pattern piece k) (hsymbol : pattern[k]? = some symbol)
    (hk : k + 1 ≠ pattern.length) : Tracks bound pattern (piece ++ [symbol]) (k + 1) := by
  have hlt := htracks.lt_length
  refine ⟨by omega, (take_succ_suffix_concat_iff hlt).mpr ⟨htracks.suffix, hsymbol⟩, ?_⟩
  intro j hj hsuffix hbound
  cases j with
  | zero => exact Nat.zero_le _
  | succ j => exact Nat.succ_le_succ (htracks.of_suffix_concat hj hsuffix hbound).1

omit [DecidableEq α] in
/-- A sound and complete `fall` keeps the counter right. -/
theorem Tracks.concat_of_fall {piece : List α} {k : ℕ} {symbol : α}
    (hsound : FallSound pattern fall) (hcomplete : FallComplete bound pattern fall)
    (htracks : Tracks bound pattern piece k) (hsymbol : pattern[k]? ≠ some symbol) :
    Tracks bound pattern (piece ++ [symbol]) (fall k symbol) := by
  have hlt := htracks.lt_length
  obtain ⟨hle, hsuffix⟩ := hsound k symbol hlt hsymbol
  refine ⟨by omega, hsuffix.trans (List.suffix_concat_iff.mpr (Or.inr ?_)), ?_⟩
  · exact ⟨_, rfl, htracks.suffix⟩
  · intro j hj hoverlap hbound
    cases j with
    | zero => exact Nat.zero_le _
    | succ j =>
        obtain ⟨hjk, hborder, hcontinues⟩ := htracks.of_suffix_concat hj hoverlap hbound
        have hne : j ≠ k := fun heq => hsymbol (heq ▸ hcontinues)
        have hlength := htracks.le_length
        simp only [List.length_append, List.length_singleton] at hbound
        exact hcomplete k j symbol (by omega) hlt hborder hcontinues hsymbol (by omega)

/-! ## When the matcher is right -/

/-- A sound and complete matcher makes the cutter's cuts, and holds what the
cutter holds. -/
theorem matcher_eq_cutter (hpattern : pattern ≠ []) (hsound : FallSound pattern fall)
    (hcomplete : FallComplete bound pattern fall) :
    ∀ (stream piece : List α) (k : ℕ), Tracks bound pattern piece k →
      PiecesBelow bound (cutter pattern) piece stream →
      ((matcher pattern fall).run (piece, k) stream).2 =
          ((cutter pattern).run piece stream).2 ∧
        ((matcher pattern fall).run (piece, k) stream).1.1 =
          ((cutter pattern).run piece stream).1 := by
  intro stream
  induction stream with
  | nil => intro piece k _ _; exact ⟨rfl, rfl⟩
  | cons symbol rest ih =>
      intro piece k htracks hbelow
      have hpiece : piece.length + 1 < bound := hbelow.succ_length_lt
      have hrest := hbelow.of_cons
      rw [Transducer.run_cons, Transducer.run_cons]
      by_cases hsuffix : pattern <:+ piece ++ [symbol]
      · obtain ⟨hsymbol, hk⟩ := (htracks.suffix_concat_iff hpiece).mp hsuffix
        rw [cutter_step_of_suffix hsuffix] at hrest ⊢
        rw [matcher_step_of_last hsymbol hk]
        obtain ⟨hout, hlast⟩ := ih [] 0 (tracks_nil hpattern) hrest
        exact ⟨by rw [hout], hlast⟩
      · rw [cutter_step_of_not_suffix hsuffix] at hrest ⊢
        by_cases hsymbol : pattern[k]? = some symbol
        · have hk : k + 1 ≠ pattern.length := fun hk =>
            hsuffix ((htracks.suffix_concat_iff hpiece).mpr ⟨hsymbol, hk⟩)
          rw [matcher_step_of_match hsymbol hk]
          exact ih _ _ (htracks.concat_of_match hsymbol hk) hrest
        · rw [matcher_step_of_miss hsymbol]
          exact ih _ _ (htracks.concat_of_fall hsound hcomplete hsymbol) hrest

/-- The counter gains at most one with each symbol, so a stream that is too short
to fill it makes no cut. -/
theorem matcher_no_cut_of_short (hsound : FallSound pattern fall) :
    ∀ (stream piece : List α) (k : ℕ), k + stream.length < pattern.length →
      ((matcher pattern fall).run (piece, k) stream).2 = [] := by
  intro stream
  induction stream with
  | nil => intro piece k _; rfl
  | cons symbol rest ih =>
      intro piece k hshort
      rw [List.length_cons] at hshort
      rw [Transducer.run_cons]
      by_cases hsymbol : pattern[k]? = some symbol
      · rw [matcher_step_of_match hsymbol (by omega), ih _ _ (by omega)]
        rfl
      · have hle := (hsound k symbol (by omega) hsymbol).1
        rw [matcher_step_of_miss hsymbol, ih _ _ (by omega)]
        rfl

/-- Reading a proper prefix of the pattern from the start fills the counter to
its length. -/
theorem matcher_run_take {k : ℕ} (hk : k < pattern.length) :
    (matcher pattern fall).run ([], 0) (pattern.take k) = ((pattern.take k, k), []) := by
  induction k with
  | zero => rfl
  | succ k ih =>
      rw [List.take_succ_eq_append_getElem (by omega), Transducer.run_append, ih (by omega),
        Transducer.run_cons,
        matcher_step_of_match (List.getElem?_eq_getElem (by omega)) (by omega)]
      rfl

/-- The stream that shows a forgotten overlap: `k` symbols of the pattern, then
the pattern itself from the overlap on. -/
def overlapStream (pattern : List α) (k j : ℕ) : List α :=
  pattern.take k ++ pattern.drop j

omit [DecidableEq α] in
theorem length_overlapStream {k j : ℕ} (hjk : j < k) (hk : k < pattern.length) :
    (overlapStream pattern k j).length = pattern.length + (k - j) := by
  simp only [overlapStream, List.length_append, List.length_take, List.length_drop]
  omega

/-- A forgotten overlap loses an occurrence. -/
theorem matcher_ne_cutter (hsound : FallSound pattern fall) {k j : ℕ} {symbol : α}
    (hk : k < pattern.length) (hborder : pattern.take j <:+ pattern.take k)
    (hj : pattern[j]? = some symbol) (hmiss : pattern[k]? ≠ some symbol)
    (hfall : fall k symbol ≤ j) :
    ((matcher pattern fall).run ([], 0) (overlapStream pattern k j)).2 ≠
      ((cutter pattern).run [] (overlapStream pattern k j)).2 := by
  obtain ⟨hlt, hsymbol⟩ := List.getElem?_eq_some_iff.mp hj
  have hdrop : pattern.drop j = symbol :: pattern.drop (j + 1) := by
    rw [List.drop_eq_getElem_cons hlt, hsymbol]
  have hmatcher : ((matcher pattern fall).run ([], 0) (overlapStream pattern k j)).2 = [] := by
    have hshort := matcher_no_cut_of_short hsound (pattern.drop (j + 1))
      (pattern.take k ++ [symbol]) (fall k symbol) (by rw [List.length_drop]; omega)
    rw [overlapStream, Transducer.run_append, matcher_run_take hk, hdrop, Transducer.run_cons,
      matcher_step_of_miss hmiss, hshort]
    rfl
  rw [hmatcher]
  intro hcutter
  refine not_suffix_of_no_cut hcutter.symm (by simp [overlapStream, hdrop]) ?_
  obtain ⟨front, hfront⟩ := hborder
  refine ⟨front, ?_⟩
  rw [List.nil_append, overlapStream, ← hfront, List.append_assoc, List.take_append_drop]

end Nidas.Lib
