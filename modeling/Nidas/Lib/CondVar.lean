import Mathlib.Algebra.BigOperators.Group.List.Basic

/-!
# Condition variables

Threads are a list of thread states, and a thread is known by its place in it.  A condition
variable is given by the thread states that wait on it and by what waking does to such a state.
A signal wakes one of the waiting threads, whichever the scheduler chooses, and is lost when
there is none; a broadcast wakes all of them.
-/

namespace Nidas.Lib

variable {τ : Type*}

/-- What a thread does at its place in the list: it goes on as `next`, or it is gone. -/
def proceed (threads : List τ) (place : ℕ) : Option τ → List τ
  | some next => threads.set place next
  | none => threads.eraseIdx place

/-- Wake the thread at the place that the scheduler chooses; `none` when it does not wait
although another one does. -/
def signal (waits : τ → Bool) (wake : τ → τ) (choice : ℕ) (threads : List τ) : Option (List τ) :=
  if threads.any waits then
    match threads[choice]? with
    | some thread => if waits thread then some (threads.set choice (wake thread)) else none
    | none => none
  else some threads

/-- Wake all waiting threads. -/
def broadcast (waits : τ → Bool) (wake : τ → τ) (threads : List τ) : List τ :=
  threads.map fun thread => if waits thread then wake thread else thread

/-- A thread in the list, with those before and behind it. -/
theorem exists_split_at {threads : List τ} {place : ℕ} {thread : τ}
    (h : threads[place]? = some thread) :
    ∃ before after, threads = before ++ thread :: after ∧
      (∀ next, proceed threads place (some next) = before ++ next :: after) ∧
      proceed threads place none = before ++ after := by
  induction threads generalizing place with
  | nil => cases h
  | cons first rest ih =>
      cases place with
      | zero =>
          cases h
          exact ⟨[], rest, rfl, fun next => rfl, rfl⟩
      | succ place =>
          obtain ⟨before, after, hsplit, hset, herase⟩ := ih h
          refine ⟨first :: before, after, by rw [hsplit]; rfl, ?_, congrArg (first :: ·) herase⟩
          intro next
          exact congrArg (first :: ·) (hset next)

variable {waits : τ → Bool} {wake : τ → τ} {choice : ℕ} {threads after : List τ}

/-- A signal is lost, or it wakes one thread. -/
theorem signal_cases (h : signal waits wake choice threads = some after) :
    (threads.countP waits = 0 ∧ after = threads) ∨
      ∃ front thread back, threads = front ++ thread :: back ∧ waits thread = true ∧
        after = front ++ wake thread :: back := by
  unfold signal at h
  split at h
  · split at h
    · next thread hthread =>
        split at h
        · next hwaits =>
            obtain ⟨front, back, hsplit, hset, -⟩ := exists_split_at hthread
            cases h
            exact .inr ⟨front, thread, back, hsplit, hwaits, hset (wake thread)⟩
        · cases h
    · cases h
  · next hnone =>
      cases h
      refine .inl ⟨?_, rfl⟩
      rw [List.countP_eq_zero]
      intro thread hthread hwaits
      exact hnone (List.any_eq_true.mpr ⟨thread, hthread, hwaits⟩)

/-- A thread that does not wait is where it was. -/
theorem getElem?_of_signal (h : signal waits wake choice threads = some after) {place : ℕ}
    {thread : τ} (hplace : threads[place]? = some thread) (hwaits : waits thread = false) :
    after[place]? = some thread := by
  unfold signal at h
  split at h
  · split at h
    · next woken hwoken =>
        split at h
        · next hwokenWaits =>
            cases h
            rw [List.getElem?_set_ne, hplace]
            rintro rfl
            rw [hplace] at hwoken
            cases hwoken
            rw [hwaits] at hwokenWaits
            cases hwokenWaits
        · cases h
    · cases h
  · cases h
    exact hplace

/-- What waking does not change is not changed by a signal. -/
theorem map_of_signal {β : Type*} {view : τ → β}
    (hwake : ∀ thread, waits thread = true → view (wake thread) = view thread)
    (h : signal waits wake choice threads = some after) : after.map view = threads.map view := by
  rcases signal_cases h with ⟨-, rfl⟩ | ⟨front, thread, back, rfl, hwaits, rfl⟩
  · rfl
  · simp [hwake thread hwaits]

theorem map_broadcast {β : Type*} {view : τ → β}
    (hwake : ∀ thread, waits thread = true → view (wake thread) = view thread)
    (threads : List τ) : (broadcast waits wake threads).map view = threads.map view := by
  unfold broadcast
  rw [List.map_map]
  apply List.map_congr_left
  intro thread _
  simp only [Function.comp_apply]
  split
  · next hwaits => exact hwake thread hwaits
  · rfl

theorem all_of_map_eq {kind : τ → Bool} (h : after.map kind = threads.map kind) :
    after.all kind = threads.all kind := by
  have hid (list : List τ) : list.all kind = (list.map kind).all id := by simp [Function.comp_def]
  rw [hid, hid, h]

theorem any_of_map_eq {kind : τ → Bool} (h : after.map kind = threads.map kind) :
    after.any kind = threads.any kind := by
  have hid (list : List τ) : list.any kind = (list.map kind).any id := by simp [Function.comp_def]
  rw [hid, hid, h]

theorem countP_of_map_eq {kind : τ → Bool} (h : after.map kind = threads.map kind) :
    after.countP kind = threads.countP kind := by
  have hid (list : List τ) : list.countP kind = (list.map kind).countP id := by
    rw [List.countP_map]
    rfl
  rw [hid, hid, h]

/-- A signal leaves one thread less waiting. -/
theorem countP_of_signal (hwake : ∀ thread, waits (wake thread) = false)
    (h : signal waits wake choice threads = some after) :
    after.countP waits = threads.countP waits - 1 := by
  rcases signal_cases h with ⟨hzero, rfl⟩ | ⟨front, thread, back, rfl, hwaits, rfl⟩
  · omega
  · rw [List.countP_append, List.countP_append, List.countP_cons_of_pos hwaits,
      List.countP_cons_of_neg (by rw [hwake]; exact Bool.false_ne_true)]
    omega

/-- After a signal no thread waits that did not wait before. -/
theorem any_waits_of_signal (hwake : ∀ thread, waits (wake thread) = false)
    (h : signal waits wake choice threads = some after) (hany : after.any waits = true) :
    threads.any waits = true := by
  have hcount := countP_of_signal hwake h
  have hpos : 0 < after.countP waits := List.countP_pos_iff.mpr (List.any_eq_true.mp hany)
  exact List.any_eq_true.mpr (List.countP_pos_iff.mp (by omega))

/-- After a broadcast no thread waits. -/
theorem any_waits_broadcast (hwake : ∀ thread, waits (wake thread) = false) (threads : List τ) :
    (broadcast waits wake threads).any waits = false := by
  rw [List.any_eq_false]
  intro thread hthread hwaits
  obtain ⟨other, -, rfl⟩ := List.mem_map.mp hthread
  split at hwaits
  · rw [hwake] at hwaits
    cases hwaits
  · contradiction

end Nidas.Lib
