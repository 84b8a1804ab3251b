import Maxwell.Syncpoint

/-! Thresholds of syncpoints. A counter wraps, so a threshold is reached or not by the distance from it to the counter,
    taken around the turn: as long as the counter is less than half a turn past the threshold, and no longer. A
    threshold ahead of the counter by half a turn or less is thus reached by the increment that brings the counter
    there, wherever it wraps on its way. -/

namespace Maxwell.Syncpoints

/-! ### Increments -/

theorem increment_of_le {id : Nat} (h : syncpointCount ≤ id) (s : Syncpoints) : s.increment id = s :=
  dif_neg (Nat.not_lt.mpr h)

theorem value_new (id : Nat) : ({} : Syncpoints).value id = 0 := by
  simp [value]

theorem value_foldl_increment (ids : List Nat) (s : Syncpoints) {id : Nat} (hid : id < syncpointCount) :
    (ids.foldl increment s).value id = s.value id + .ofNat (ids.count id) := by
  induction ids generalizing s with
  | nil => simp
  | cons other ids ih =>
    rw [List.foldl_cons, ih, value_increment, List.count_cons]
    by_cases hother : other = id
    · subst hother
      rw [if_pos ⟨rfl, hid⟩, beq_self_eq_true, if_pos rfl, Nat.add_comm, UInt32.ofNat_add, UInt32.add_assoc]
      rfl
    · rw [if_neg (fun h => hother h.1), if_neg (by simpa using hother), Nat.add_zero]

/-! ### Thresholds -/

/-- The distance from a threshold `k` ahead of a counter to what the counter is after `j` increments, around the
    turn. -/
theorem toNat_sub_threshold (v : Word) {k : Nat} (hk : k ≤ 0x80000000) (j : Nat) :
    (v + .ofNat j - .ofNat (v.toNat + k)).toNat = (j + (0x100000000 - k)) % 0x100000000 := by
  have hv := v.toNat_lt
  rw [UInt32.toNat_sub, UInt32.toNat_add, UInt32.toNat_ofNat', UInt32.toNat_ofNat']
  omega

/-- A threshold at most half a turn ahead is passed at first by the `k`-th increment, and from then on in the first half
    of each turn. -/
theorem passed_iff (v : Word) {k : Nat} (hpos : 1 ≤ k) (hhalf : k ≤ 0x80000000) (j : Nat) :
    passed (v + .ofNat j) (.ofNat (v.toNat + k)) = true ↔
      ∃ turns, k + turns * 0x100000000 ≤ j ∧ j < k + turns * 0x100000000 + 0x80000000 := by
  rw [passed, toNat_sub_threshold v hhalf, decide_eq_true_iff]
  constructor
  · intro h
    exact ⟨(j - k) / 0x100000000, by omega, by omega⟩
  · rintro ⟨turns, hfrom, hto⟩
    omega

/-! ### Waits -/

theorem waitFrom_eq_true_iff {id : Nat} {threshold : Word} {expired now : Syncpoints} {changes : List Syncpoints} :
    waitFrom id threshold expired now changes = true ↔
      ∃ s ∈ now :: changes ++ [expired], passed (s.value id) threshold = true := by
  induction changes generalizing now with
  | nil => simp [waitFrom]
  | cons next changes ih =>
    simp only [waitFrom, Bool.or_eq_true, ih, List.cons_append, List.mem_cons, exists_eq_or_imp]

/-- A wait succeeds if the threshold is passed by what it finds at one of its looks. -/
theorem wait_eq_true_iff {id : Nat} {threshold : Word} {now expired : Syncpoints} {changes : List Syncpoints} :
    wait id threshold now changes expired = true ↔
      id < syncpointCount ∧ ∃ s ∈ now :: changes ++ [expired], passed (s.value id) threshold = true := by
  rw [wait, Bool.and_eq_true, decide_eq_true_iff, waitFrom_eq_true_iff]

theorem reached_iff {id : Nat} (hid : id < syncpointCount) (s : Syncpoints) (threshold : Word) :
    s.reached id threshold = true ↔ passed (s.value id) threshold = true := by
  rw [reached, wait_eq_true_iff]
  simp [hid]

/-- To a wait without time, a threshold that is ahead of a counter by no more than half a turn is not reached before as
    many increments of its syncpoint, and then is for half a turn, whatever other syncpoints are counted up and wherever
    the counter wraps. Over all, it is reached in the first half of each turn that begins with it. -/
theorem reached_foldl_increment {id : Nat} (hid : id < syncpointCount) {k : Nat} (hpos : 1 ≤ k)
    (hhalf : k ≤ 0x80000000) (s : Syncpoints) (ids : List Nat) :
    let threshold : Word := .ofNat ((s.value id).toNat + k)
    let reached := (ids.foldl increment s).reached id threshold
    (ids.count id < k → reached = false) ∧
    (k ≤ ids.count id → ids.count id < k + 0x80000000 → reached = true) ∧
    (reached = true ↔ ∃ turns, k + turns * 0x100000000 ≤ ids.count id ∧
      ids.count id < k + turns * 0x100000000 + 0x80000000) := by
  intro threshold reached
  have hreached : reached = true ↔ ∃ turns, k + turns * 0x100000000 ≤ ids.count id ∧
      ids.count id < k + turns * 0x100000000 + 0x80000000 := by
    rw [reached_iff hid, value_foldl_increment ids s hid]
    exact passed_iff (s.value id) hpos hhalf (ids.count id)
  refine ⟨fun hbefore => ?_, fun hfrom hto => ?_, hreached⟩
  · rw [← Bool.not_eq_true, hreached]
    rintro ⟨turns, hfrom, -⟩
    omega
  · exact hreached.mpr ⟨0, by omega, by omega⟩

/-- A threshold that is reached past the wrap of the counter, by the third of its increments. -/
theorem reached_foldl_increment_wrapped :
    let s : Syncpoints := ⟨(Vector.replicate syncpointCount 7).set 5 0xFFFFFFFE⟩
    5 < syncpointCount ∧ 1 ≤ 3 ∧ 3 ≤ 0x80000000 ∧ (s.value 5).toNat + 3 = 0x100000001 ∧
    ([5, 6, 5, 191].foldl increment s).reached 5 1 = false ∧
    ([5, 6, 5, 191, 5, 192].foldl increment s).reached 5 1 = true := by
  intro s
  have hvalue : (s.value 5).toNat + 3 = 0x100000001 := rfl
  have hthreshold : UInt32.ofNat ((s.value 5).toNat + 3) = 1 := by rw [hvalue]; rfl
  have h (ids : List Nat) := reached_foldl_increment (show 5 < syncpointCount by decide) (show 1 ≤ 3 by decide)
    (by decide) s ids
  simp only [hthreshold] at h
  exact ⟨by decide, by decide, by decide, hvalue, (h _).1 (by decide), (h _).2.1 (by decide) (by decide)⟩

end Maxwell.Syncpoints
