import Mathlib.Order.Bounds.Defs
import Maxwell.Timer

/-! The ticks of a timer. Each is the time of its reading, or the tick after the last one if the clock has not gone past
    that. So after a burst of readings the ticks run ahead of the clock by one for each reading, until it has caught up:
    a tick is the greatest of what the readings up to its own were due to bring it to. -/

namespace Maxwell

/-- No bits are lost in a number of nanoseconds. -/
theorem toNat_ticksOfNanoseconds (ns : UInt64) : (ticksOfNanoseconds ns).toNat = ns.toNat * 12 / 625 := by
  have hlt := ns.toNat_lt
  have hsame : ns.toNat * ticksPerSecond / 1000000000 = ns.toNat * 12 / 625 := by
    simp only [ticksPerSecond]
    omega
  rw [ticksOfNanoseconds, hsame, UInt64.toNat_ofNat_of_lt' (by rw [UInt64.size]; omega)]

namespace Timer

/-! ### One tick after another -/

/-- A timer after a number of ticks. -/
def after : (ticks : Nat) → Timer → Timer
  | 0, timer => timer
  | ticks + 1, timer => after ticks timer.tick.2

/-- The next ticks of a timer. -/
def ticks : (count : Nat) → Timer → List UInt64
  | 0, _ => []
  | count + 1, timer => timer.tick.1 :: ticks count timer.tick.2

variable {timer : Timer}

theorem after_add (m n : Nat) : after (m + n) timer = after n (after m timer) := by
  induction m generalizing timer with
  | zero => rw [Nat.zero_add, after]
  | succ m ih => rw [Nat.succ_add, after, ih, after]

theorem length_ticks (count : Nat) : (ticks count timer).length = count := by
  induction count generalizing timer with
  | zero => rfl
  | succ count ih => rw [ticks, List.length_cons, ih]

theorem ticks_add (m n : Nat) : ticks (m + n) timer = ticks m timer ++ ticks n (after m timer) := by
  induction m generalizing timer with
  | zero => rw [Nat.zero_add, ticks, after, List.nil_append]
  | succ m ih => rw [Nat.succ_add, ticks, ih, ticks, after, List.cons_append]

theorem ticks_eq_map (count : Nat) : ticks count timer = (List.range count).map fun n => (after n timer).tick.1 := by
  induction count with
  | zero => rfl
  | succ count ih => rw [ticks_add, ih, List.range_succ, List.map_append, List.map_singleton]; rfl

/-! ### The ticks of a clock -/

variable {readings : Nat → UInt64}

/-- The tick of each reading of a clock. -/
def tickAt (readings : Nat → UInt64) (n : Nat) : UInt64 := (after n { readings }).tick.1

/-- What reading `i` alone brings tick `n` to: its own time, and one more for each reading after it. -/
def due (readings : Nat → UInt64) (n i : Nat) : Nat := (readings i).toNat * 12 / 625 + (n - i)

theorem after_new (readings : Nat → UInt64) (n : Nat) :
    (after n { readings }).readings = readings ∧ (after n { readings }).taken = n ∧
      (after (n + 1) { readings }).last = some (tickAt readings n) := by
  induction n with
  | zero => exact ⟨rfl, rfl, rfl⟩
  | succ n ih =>
    obtain ⟨hreadings, htaken, -⟩ := ih
    rw [after_add n 1, after_add (n + 1) 1, after_add n 1]
    exact ⟨hreadings, congrArg (· + 1) htaken, by rw [tickAt, after_add n 1]; rfl⟩

theorem tickAt_zero : tickAt readings 0 = ticksOfNanoseconds (readings 0) := rfl

theorem tickAt_succ (n : Nat) :
    tickAt readings (n + 1) = max (ticksOfNanoseconds (readings (n + 1))) (tickAt readings n + 1) := by
  obtain ⟨hreadings, htaken, -⟩ := after_new readings (n + 1)
  have hlast := (after_new readings n).2.2
  rw [tickAt, tick, hreadings, htaken, hlast]

theorem toNat_max (a b : UInt64) : (max a b).toNat = max a.toNat b.toNat := by
  rw [show max a b = if a ≤ b then b else a from rfl, Nat.max_def]
  simp only [UInt64.le_iff_toNat_le]
  split <;> rfl

theorem due_self (n : Nat) : due readings n n = (readings n).toNat * 12 / 625 := by
  rw [due, Nat.sub_self, Nat.add_zero]

theorem due_succ {n i : Nat} (hi : i ≤ n) : due readings (n + 1) i = due readings n i + 1 := by
  rw [due, due, Nat.succ_sub hi, Nat.add_assoc]

/-- A tick is the greatest of what the readings so far bring it to, as long as that fits. -/
theorem isGreatest_tickAt {n : Nat} (hfits : ∀ i ≤ n, due readings n i < UInt64.size) :
    IsGreatest {tick | ∃ i ≤ n, due readings n i = tick} (tickAt readings n).toNat := by
  induction n with
  | zero =>
    rw [tickAt_zero, toNat_ticksOfNanoseconds, ← due_self]
    refine ⟨⟨0, Nat.le_refl 0, rfl⟩, ?_⟩
    rintro _ ⟨i, hi, rfl⟩
    exact Nat.le_of_eq (congrArg (due readings 0) (Nat.le_zero.mp hi))
  | succ n ih =>
    have hbefore : ∀ i ≤ n, due readings n i < UInt64.size := fun i hi => by
      have := hfits i (Nat.le_succ_of_le hi)
      rw [due_succ hi] at this
      omega
    obtain ⟨⟨i, hi, hlast⟩, hgreatest⟩ := ih hbefore
    have hnext : (tickAt readings n + 1).toNat = due readings (n + 1) i := by
      have hlt := hfits i (Nat.le_succ_of_le hi)
      rw [due_succ hi, hlast] at hlt ⊢
      rw [UInt64.toNat_add]
      exact Nat.mod_eq_of_lt hlt
    have htick : (tickAt readings (n + 1)).toNat = max (due readings (n + 1) (n + 1)) (due readings (n + 1) i) := by
      rw [tickAt_succ, toNat_max, toNat_ticksOfNanoseconds, hnext, due_self]
    rw [htick]
    constructor
    · rcases Nat.le_total (due readings (n + 1) (n + 1)) (due readings (n + 1) i) with hle | hle
      · exact ⟨i, Nat.le_succ_of_le hi, (Nat.max_eq_right hle).symm⟩
      · exact ⟨n + 1, Nat.le_refl _, (Nat.max_eq_left hle).symm⟩
    · rintro _ ⟨j, hj, rfl⟩
      rcases Nat.le_or_eq_of_le_succ hj with hj | rfl
      · refine Nat.le_trans ?_ (Nat.le_max_right _ _)
        rw [due_succ hi, due_succ hj, hlast]
        exact Nat.succ_le_succ (hgreatest ⟨j, hj, rfl⟩)
      · exact Nat.le_max_left _ _

/-- Later ticks are greater. -/
theorem tickAt_lt_tickAt {m n : Nat} (hmn : m < n) (hfits : ∀ i ≤ n, due readings n i < UInt64.size) :
    tickAt readings m < tickAt readings n := by
  have hdue : ∀ i ≤ m, due readings m i < due readings n i := fun i hi => by
    simp only [due]
    omega
  obtain ⟨i, hi, hm⟩ := (isGreatest_tickAt fun i hi =>
    Nat.lt_trans (hdue i hi) (hfits i (Nat.le_trans hi (Nat.le_of_lt hmn)))).1
  have hin : i ≤ n := Nat.le_trans hi (Nat.le_of_lt hmn)
  rw [UInt64.lt_iff_toNat_lt, ← hm]
  exact Nat.lt_of_lt_of_le (hdue i hi) ((isGreatest_tickAt hfits).2 ⟨i, hin, rfl⟩)

end Timer

end Maxwell
