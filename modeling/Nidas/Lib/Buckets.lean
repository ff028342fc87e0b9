import Mathlib.Algebra.Order.Ring.Int
import Mathlib.Algebra.Ring.Divisibility.Basic
import Mathlib.Data.Int.Init
import Mathlib.Data.List.Pairwise
import Mathlib.Order.Basic

/-!
# Buckets of items

A stream of items with times is cut into periods, and the items of each period are put into a bucket
with the end of the period as its key.  If every item that contributes something is in the bucket of
its own key, then a bucket has the contributions of the items with its key.
-/

namespace Nidas.Lib

/-! ## Periods -/

/-- The end of the period of a time; the period starts at a multiple of its length. -/
def periodEnd (period time : ℤ) : ℤ := time - time % period + period

section Period

variable {period time : ℤ}

theorem periodEnd_sub_le (hperiod : 0 < period) (time : ℤ) :
    periodEnd period time - period ≤ time := by
  have := Int.emod_nonneg time hperiod.ne'
  unfold periodEnd
  omega

theorem lt_periodEnd (hperiod : 0 < period) (time : ℤ) : time < periodEnd period time := by
  have := Int.emod_lt_of_pos time hperiod
  unfold periodEnd
  omega

theorem dvd_periodEnd : period ∣ periodEnd period time := by
  apply dvd_add _ (dvd_refl _)
  exact Int.dvd_self_sub_emod

/-- Multiples that are less than a period apart are the same. -/
theorem eq_of_dvd_of_lt {first second : ℤ} (hfirst : period ∣ first) (hsecond : period ∣ second)
    (hlt : first < second + period) (hgt : second < first + period) : first = second := by
  obtain ⟨m, rfl⟩ := hfirst
  obtain ⟨n, rfl⟩ := hsecond
  have hperiod : 0 < period := by omega
  have hm : m < n + 1 := by
    apply lt_of_mul_lt_mul_left _ hperiod.le
    rw [mul_add, mul_one]
    exact hlt
  have hn : n < m + 1 := by
    apply lt_of_mul_lt_mul_left _ hperiod.le
    rw [mul_add, mul_one]
    exact hgt
  rw [show m = n by omega]

theorem periodEnd_mono (hperiod : 0 < period) {time later : ℤ} (h : time ≤ later) :
    periodEnd period time ≤ periodEnd period later := by
  by_contra hnot
  have hstart := periodEnd_sub_le hperiod time
  have hend := lt_periodEnd hperiod later
  have hsame := eq_of_dvd_of_lt (@dvd_periodEnd period time) (@dvd_periodEnd period later)
    (by omega) (by omega)
  omega

theorem eq_periodEnd_iff (hperiod : 0 < period) {key : ℤ} (hkey : period ∣ key) (time : ℤ) :
    key = periodEnd period time ↔ key - period ≤ time ∧ time < key := by
  constructor
  · rintro rfl
    exact ⟨periodEnd_sub_le hperiod time, lt_periodEnd hperiod time⟩
  · rintro ⟨hle, hlt⟩
    have := periodEnd_sub_le hperiod time
    have := lt_periodEnd hperiod time
    exact eq_of_dvd_of_lt hkey dvd_periodEnd (by omega) (by omega)

end Period

/-! ## Buckets -/

variable {ι κ γ : Type*}

/-- All items, in the order of the buckets. -/
def contents (buckets : List (κ × List ι)) : List ι := buckets.flatMap Prod.snd

variable {buckets : List (κ × List ι)}

theorem contents_append (first rest : List (κ × List ι)) :
    contents (first ++ rest) = contents first ++ contents rest :=
  List.flatMap_append

theorem contents_cons (bucket : κ × List ι) (rest : List (κ × List ι)) :
    contents (bucket :: rest) = bucket.2 ++ contents rest :=
  List.flatMap_cons

theorem mem_contents {item : ι} :
    item ∈ contents buckets ↔ ∃ bucket ∈ buckets, item ∈ bucket.2 :=
  List.mem_flatMap

/-- The first item without a property, if there is one. -/
theorem forall_or_exists_first (p : ι → Prop) (items : List ι) :
    (∀ item ∈ items, p item) ∨
      ∃ first item rest, items = first ++ item :: rest ∧ (∀ other ∈ first, p other) ∧
        ¬ p item := by
  induction items with
  | nil => simp
  | cons item rest ih =>
      by_cases hp : p item
      · rcases ih with hall | ⟨first, other, rest', rfl, hfirst, hother⟩
        · exact Or.inl (List.forall_mem_cons.mpr ⟨hp, hall⟩)
        · exact Or.inr ⟨item :: first, other, rest', rfl,
            List.forall_mem_cons.mpr ⟨hp, hfirst⟩, hother⟩
      · exact Or.inr ⟨[], item, rest, rfl, by simp, hp⟩

/-- What the items with a key contribute. -/
def contributed [DecidableEq κ] (key : ι → κ) (contribution : ι → List γ) (k : κ)
    (items : List ι) : List γ :=
  (items.filter (fun item => key item = k)).flatMap contribution

/-- The items of a bucket that contribute something have its key. -/
def Proper (key : ι → κ) (contribution : ι → List γ) (bucket : κ × List ι) : Prop :=
  ∀ item ∈ bucket.2, contribution item ≠ [] → key item = bucket.1

section Buckets

variable [LinearOrder κ] {key : ι → κ} {contribution : ι → List γ}

theorem contributed_append (k : κ) (first rest : List ι) :
    contributed key contribution k (first ++ rest) =
      contributed key contribution k first ++ contributed key contribution k rest := by
  unfold contributed
  rw [List.filter_append, List.flatMap_append]

theorem contributed_eq_nil {k : κ} {items : List ι}
    (hother : ∀ item ∈ items, contribution item ≠ [] → key item ≠ k) :
    contributed key contribution k items = [] := by
  unfold contributed
  rw [List.flatMap_eq_nil_iff]
  intro item hmem
  obtain ⟨hitem, hkey⟩ := List.mem_filter.mp hmem
  by_contra hne
  exact hother item hitem hne (by simpa using hkey)

theorem contributed_eq_flatMap {k : κ} {items : List ι}
    (hsame : ∀ item ∈ items, contribution item ≠ [] → key item = k) :
    contributed key contribution k items = items.flatMap contribution := by
  induction items with
  | nil => rfl
  | cons item items ih =>
      have hrest := ih fun other hother => hsame other (List.mem_cons_of_mem _ hother)
      unfold contributed at hrest ⊢
      by_cases hkey : key item = k
      · rw [List.filter_cons_of_pos (by simpa using hkey), List.flatMap_cons, List.flatMap_cons,
          hrest]
      · have hnone : contribution item = [] := by
          by_contra hne
          exact hkey (hsame item List.mem_cons_self hne)
        rw [List.filter_cons_of_neg (by simpa using hkey), List.flatMap_cons, hnone,
          List.nil_append, hrest]

theorem contributed_filter {k : κ} {items : List ι} {p : ι → Bool}
    (hnone : ∀ item ∈ items, p item = false → contribution item = []) :
    contributed key contribution k (items.filter p) = contributed key contribution k items := by
  induction items with
  | nil => rfl
  | cons item items ih =>
      have hrest := ih fun other hother => hnone other (List.mem_cons_of_mem _ hother)
      cases hp : p item with
      | true =>
          rw [List.filter_cons_of_pos hp, ← List.singleton_append, contributed_append, hrest,
            ← contributed_append, List.singleton_append]
      | false =>
          have hitem : contributed key contribution k [item] = [] := by
            apply contributed_eq_nil
            intro other hother hne
            rw [List.mem_singleton] at hother
            rw [hother] at hne
            exact absurd (hnone item List.mem_cons_self hp) hne
          rw [List.filter_cons_of_neg (by simp [hp]), hrest, ← List.singleton_append,
            contributed_append, hitem, List.nil_append]

/-- **A proper bucket among proper buckets has what the items with its key contribute.** -/
theorem contributed_of_mem (hkeys : (buckets.map Prod.fst).Pairwise (· < ·))
    (hproper : ∀ bucket ∈ buckets, Proper key contribution bucket) {bucket : κ × List ι}
    (hmem : bucket ∈ buckets) :
    contributed key contribution bucket.1 (contents buckets) =
      bucket.2.flatMap contribution := by
  obtain ⟨first, rest, rfl⟩ := List.append_of_mem hmem
  rw [List.map_append, List.map_cons, List.pairwise_append, List.pairwise_cons] at hkeys
  obtain ⟨-, ⟨hafter, -⟩, hbefore⟩ := hkeys
  have hfirst : contributed key contribution bucket.1 (contents first) = [] := by
    apply contributed_eq_nil
    intro item hitem hne
    obtain ⟨other, hother, hin⟩ := mem_contents.mp hitem
    rw [hproper other (List.mem_append_left _ hother) item hin hne]
    exact (hbefore other.1 (List.mem_map_of_mem hother) bucket.1 List.mem_cons_self).ne
  have hrest : contributed key contribution bucket.1 (contents rest) = [] := by
    apply contributed_eq_nil
    intro item hitem hne
    obtain ⟨other, hother, hin⟩ := mem_contents.mp hitem
    rw [hproper other (List.mem_append_right _ (List.mem_cons_of_mem _ hother)) item hin hne]
    exact (hafter other.1 (List.mem_map_of_mem hother)).ne'
  rw [contents_append, contents_cons, contributed_append, contributed_append, hfirst, hrest,
    contributed_eq_flatMap (hproper bucket (List.mem_append_right _ List.mem_cons_self)),
    List.nil_append, List.append_nil]

end Buckets

end Nidas.Lib
