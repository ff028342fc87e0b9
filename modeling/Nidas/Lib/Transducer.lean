import Mathlib.Data.List.Basic

/-!
# Machines that read symbols and emit symbols

A `Transducer` reads one symbol at a time and emits a list of symbols at each
step.  `run` feeds it a whole list.  The point of the file is the comparison of
such a machine with a reader that is handed its input in pieces: a *block
reader* is any function that takes a state and a block, consumes the block and
returns what it produced.  A `BlockSimulation` says that the reader simulates a
transducer on every single block; over any list of blocks it then produces what
the transducer emits on their concatenation (`readBlocks_eq_run`).  Nothing about where the
blocks were cut is left in the conclusion.

The simulation relation may look at the symbols that are still to come (its
first argument).  A reader is then allowed to lose track of the machine once
nothing is left to read.
-/

namespace Nidas.Lib

variable {σ α β : Type*}

/-- A deterministic machine with states `σ`, input symbols `α` and any number of
output symbols `β` for each input symbol. -/
structure Transducer (σ α β : Type*) where
  step : σ → α → σ × List β

namespace Transducer

variable (machine : Transducer σ α β)

/-- The state reached, and everything emitted, after reading a list. -/
def run : σ → List α → σ × List β
  | state, [] => (state, [])
  | state, symbol :: rest =>
      let first := machine.step state symbol
      let after := run first.1 rest
      (after.1, first.2 ++ after.2)

@[simp] theorem run_nil (state : σ) : machine.run state [] = (state, []) := rfl

theorem run_cons (state : σ) (symbol : α) (rest : List α) :
    machine.run state (symbol :: rest) =
      ((machine.run (machine.step state symbol).1 rest).1,
        (machine.step state symbol).2 ++ (machine.run (machine.step state symbol).1 rest).2) :=
  rfl

theorem run_append (state : σ) (front back : List α) :
    machine.run state (front ++ back) =
      ((machine.run (machine.run state front).1 back).1,
        (machine.run state front).2 ++ (machine.run (machine.run state front).1 back).2) := by
  induction front generalizing state with
  | nil => rfl
  | cons symbol rest ih =>
      rw [List.cons_append, run_cons, run_cons, ih]
      simp only [List.append_assoc]

/-- The same machine with a function applied to everything it emits. -/
def mapOut {δ : Type*} (convert : β → δ) : Transducer σ α δ where
  step state symbol := ((machine.step state symbol).1, (machine.step state symbol).2.map convert)

theorem run_mapOut {δ : Type*} (convert : β → δ) (state : σ) (stream : List α) :
    (machine.mapOut convert).run state stream =
      ((machine.run state stream).1, (machine.run state stream).2.map convert) := by
  induction stream generalizing state with
  | nil => rfl
  | cons symbol rest ih =>
      rw [run_cons, run_cons, ih]
      simp only [mapOut, List.map_append]

end Transducer

/-! ## Block readers -/

variable {τ γ : Type*}

/-- Hand a reader one block after the other. -/
def readBlocks (read : τ → γ → τ × List β) : τ → List γ → τ × List β
  | state, [] => (state, [])
  | state, block :: rest =>
      let first := read state block
      let after := readBlocks read first.1 rest
      (after.1, first.2 ++ after.2)

@[simp] theorem readBlocks_nil (read : τ → γ → τ × List β) (state : τ) :
    readBlocks read state [] = (state, []) := rfl

theorem readBlocks_cons (read : τ → γ → τ × List β) (state : τ) (block : γ) (rest : List γ) :
    readBlocks read state (block :: rest) =
      ((readBlocks read (read state block).1 rest).1,
        (read state block).2 ++ (readBlocks read (read state block).1 rest).2) :=
  rfl

theorem readBlocks_append (read : τ → γ → τ × List β) (state : τ) (front back : List γ) :
    readBlocks read state (front ++ back) =
      ((readBlocks read (readBlocks read state front).1 back).1,
        (readBlocks read state front).2 ++
          (readBlocks read (readBlocks read state front).1 back).2) := by
  induction front generalizing state with
  | nil => rfl
  | cons block rest ih =>
      rw [List.cons_append, readBlocks_cons, readBlocks_cons, ih]
      simp only [List.append_assoc]

/-- Converting what a reader produces, block by block or at the end. -/
theorem readBlocks_map {δ : Type*} (read : τ → γ → τ × List β) (convert : β → δ) (state : τ)
    (blocks : List γ) :
    readBlocks (fun reader block => ((read reader block).1, (read reader block).2.map convert))
        state blocks =
      ((readBlocks read state blocks).1, (readBlocks read state blocks).2.map convert) := by
  induction blocks generalizing state with
  | nil => rfl
  | cons block rest ih =>
      rw [readBlocks_cons, readBlocks_cons, ih]
      simp only [List.map_append]

variable (machine : Transducer σ α β) (symbols : γ → List α)

/-- Every block of the list satisfies `ok` in the state in which the machine
meets it.  `ok` may also look at the symbols that follow the block; `later` is
what follows the list. -/
def Admissible (ok : List α → σ → γ → Prop) (later : List α) : σ → List γ → Prop
  | _, [] => True
  | state, block :: rest =>
      ok (rest.flatMap symbols ++ later) state block ∧
        Admissible ok later (machine.run state (symbols block)).1 rest

variable {machine symbols}

theorem admissible_of_forall {ok : List α → σ → γ → Prop} {later : List α} {state : σ}
    {blocks : List γ} (hok : ∀ block ∈ blocks, ∀ future state, ok future state block) :
    Admissible machine symbols ok later state blocks := by
  induction blocks generalizing state with
  | nil => trivial
  | cons block rest ih =>
      exact ⟨hok block (List.mem_cons_self ..) _ _,
        ih fun other hother => hok other (List.mem_cons_of_mem _ hother)⟩

theorem admissible_and {ok also : List α → σ → γ → Prop} {later : List α} {state : σ}
    {blocks : List γ} (hok : Admissible machine symbols ok later state blocks)
    (halso : Admissible machine symbols also later state blocks) :
    Admissible machine symbols
      (fun future state block => ok future state block ∧ also future state block) later state
      blocks := by
  induction blocks generalizing state with
  | nil => trivial
  | cons block rest ih => exact ⟨⟨hok.1, halso.1⟩, ih hok.2 halso.2⟩

theorem admissible_append {ok : List α → σ → γ → Prop} {later : List α} {state : σ}
    {front back : List γ} :
    Admissible machine symbols ok later state (front ++ back) ↔
      Admissible machine symbols ok (back.flatMap symbols ++ later) state front ∧
        Admissible machine symbols ok later (machine.run state (front.flatMap symbols)).1 back := by
  induction front generalizing state with
  | nil => simp [Admissible]
  | cons block rest ih =>
      simp only [List.cons_append, Admissible, ih, List.flatMap_cons, List.flatMap_append,
        Transducer.run_append, List.append_assoc, and_assoc]

/-- What a machine emits does not matter for where its blocks are met. -/
theorem admissible_mapOut {δ : Type*} {convert : β → δ} {ok : List α → σ → γ → Prop}
    {later : List α} {state : σ} {blocks : List γ} :
    Admissible (machine.mapOut convert) symbols ok later state blocks ↔
      Admissible machine symbols ok later state blocks := by
  induction blocks generalizing state with
  | nil => exact Iff.rfl
  | cons block rest ih => simp only [Admissible, Transducer.run_mapOut, ih]

/-- A list that is not admissible has a first block that is not. -/
theorem exists_first_not_ok {ok : List α → σ → γ → Prop} {later : List α} {state : σ}
    {blocks : List γ} (hnot : ¬ Admissible machine symbols ok later state blocks) :
    ∃ front block back, blocks = front ++ block :: back ∧
      Admissible machine symbols ok ((block :: back).flatMap symbols ++ later) state front ∧
      ¬ ok (back.flatMap symbols ++ later)
        (machine.run state (front.flatMap symbols)).1 block := by
  induction blocks generalizing state with
  | nil => exact absurd trivial hnot
  | cons block rest ih =>
      by_cases hok : ok (rest.flatMap symbols ++ later) state block
      · obtain ⟨front, first, back, rfl, hfront, hfirst⟩ := ih fun hrest => hnot ⟨hok, hrest⟩
        refine ⟨block :: front, first, back, rfl, ⟨?_, hfront⟩, ?_⟩
        · simpa using hok
        · rwa [List.flatMap_cons, Transducer.run_append]
      · exact ⟨[], block, rest, rfl, trivial, hok⟩

variable (machine symbols)

/-- A block reader that simulates a machine on single blocks.  `fine` is a
property of the reader that reading can only destroy; a reader that is fine at
the end was fine all along. -/
structure BlockSimulation (read : τ → γ → τ × List β) where
  related : List α → τ → σ → Prop
  ok : List α → σ → γ → Prop
  fine : τ → Prop
  fine_of_read : ∀ reader block, fine (read reader block).1 → fine reader
  read_spec : ∀ future reader state block, related (symbols block ++ future) reader state →
    ok future state block → fine (read reader block).1 →
    (read reader block).2 = (machine.run state (symbols block)).2 ∧
      related future (read reader block).1 (machine.run state (symbols block)).1

namespace BlockSimulation

variable {machine symbols} {read : τ → γ → τ × List β}
  (simulation : BlockSimulation machine symbols read)

theorem fine_of_readBlocks {blocks : List γ} {reader : τ}
    (hfine : simulation.fine (readBlocks read reader blocks).1) : simulation.fine reader := by
  induction blocks generalizing reader with
  | nil => exact hfine
  | cons block rest ih => exact simulation.fine_of_read reader block (ih hfine)

/-- **Simulation on single blocks is enough.**  Over a list of blocks the reader
produces what the machine emits on the concatenation of their symbols. -/
theorem readBlocks_eq_run (later : List α) :
    ∀ (blocks : List γ) (reader : τ) (state : σ),
      simulation.related (blocks.flatMap symbols ++ later) reader state →
      Admissible machine symbols simulation.ok later state blocks →
      simulation.fine (readBlocks read reader blocks).1 →
      (readBlocks read reader blocks).2 = (machine.run state (blocks.flatMap symbols)).2 ∧
        simulation.related later (readBlocks read reader blocks).1
          (machine.run state (blocks.flatMap symbols)).1 := by
  intro blocks
  induction blocks with
  | nil => intro reader state hrelated _ _; exact ⟨rfl, hrelated⟩
  | cons block rest ih =>
      rintro reader state hrelated ⟨hok, hadmissible⟩ hfine
      rw [List.flatMap_cons, List.append_assoc] at hrelated
      rw [readBlocks_cons] at hfine ⊢
      obtain ⟨hout, hnext⟩ := simulation.read_spec _ reader state block hrelated hok
        (simulation.fine_of_readBlocks hfine)
      obtain ⟨houts, hend⟩ := ih _ _ hnext hadmissible hfine
      rw [List.flatMap_cons, Transducer.run_append]
      exact ⟨by rw [hout, houts], hend⟩

end BlockSimulation

end Nidas.Lib
