import Mathlib.Data.List.Basic
import Mathlib.Data.List.Induction
import Maxwell.Memory.Ram
import Maxwell.Proofs.Threed.Timeline
import Maxwell.Proofs.Threed.Write

/-! Macro calls sorted into batches: each batch is a stretch of consecutive calls whose arguments make up one
    invocation. Every macro call belongs to one batch, in order, and a batch is run at its final call if that
    is marked as the last, and else at the next call, before anything else that call does. -/

namespace Maxwell.Threed

/-! ### Batches -/

/-- An invocation with the index of the call that began it. -/
structure Batch where
  first : Nat
  invocation : Invocation

/-- The index past the final call of a batch. -/
def Batch.stop (b : Batch) : Nat := b.first + b.invocation.arguments.size

/-- The indices of the calls of a batch. -/
def Batch.calls (b : Batch) : List Nat := List.range' b.first b.invocation.arguments.size

def slotNumber (method : Nat) : Nat := (method - 0xE00) / 2 % 128

/-- The arguments of a batch are those of consecutive macro calls of its slot. All but the first call are to an
    odd method, and none but the final one is marked as the last. -/
structure Batch.CollectedFrom (b : Batch) (requests : List Request) : Prop where
  nonempty : 0 < b.invocation.arguments.size
  call : ∀ i (hi : i < b.invocation.arguments.size), ∃ r, requests[b.first + i]? = some r ∧
    0xE00 ≤ r.method ∧ slotNumber r.method = b.invocation.slot.val ∧ r.argument = b.invocation.arguments[i] ∧
    (0 < i → r.method % 2 = 1) ∧ (i + 1 < b.invocation.arguments.size → r.last = false)

/-- A batch is run at its final call if that is marked. Else it is run at the next call, which is to a register,
    to an even method or to another slot, and first of all that this call does. -/
def Batch.RunAt (b : Batch) (requests : List Request) (index : Nat) : Prop :=
  ∃ final, requests[b.stop - 1]? = some final ∧
    if final.last = true then index = b.stop - 1
    else index = b.stop ∧
      (timeline requests).find? (fun e => e.1 = index) = some (index, .invoke b.invocation) ∧
      ∃ next, requests[index]? = some next ∧
        (next.method < 0xE00 ∨ next.method % 2 = 0 ∨ slotNumber next.method ≠ b.invocation.slot.val)

/-- A batch that may still grow: it ends at the latest call, which is not marked. -/
def Batch.Open (b : Batch) (requests : List Request) : Prop :=
  b.CollectedFrom requests ∧ b.stop = requests.length ∧
    ∃ final, requests[b.stop - 1]? = some final ∧ final.last = false

theorem getElem?_snoc {requests : List Request} {i : Nat} {q : Request} (h : requests[i]? = some q) (r : Request) :
    (requests ++ [r])[i]? = some q := by
  obtain ⟨hi, -⟩ := List.getElem?_eq_some_iff.mp h
  rw [List.getElem?_append_left hi, h]

theorem Batch.CollectedFrom.snoc {b : Batch} {requests : List Request} (h : b.CollectedFrom requests) (r : Request) :
    b.CollectedFrom (requests ++ [r]) := by
  refine ⟨h.nonempty, fun i hi => ?_⟩
  obtain ⟨q, hq, hcall⟩ := h.call i hi
  exact ⟨q, getElem?_snoc hq r, hcall⟩

theorem Batch.RunAt.snoc {b : Batch} {requests : List Request} {index : Nat} (h : b.RunAt requests index)
    (r : Request) : b.RunAt (requests ++ [r]) index := by
  obtain ⟨final, hfinal, hrun⟩ := h
  refine ⟨final, getElem?_snoc hfinal r, ?_⟩
  split at hrun
  · next hlast => rwa [if_pos hlast]
  · next hlast =>
    obtain ⟨hindex, hfirst, next, hnext, hother⟩ := hrun
    rw [if_neg hlast]
    refine ⟨hindex, ?_, next, getElem?_snoc hnext r, hother⟩
    rw [timeline_snoc, List.find?_append, hfirst, Option.some_or]

/-! ### What a call does to batches

    The batch that may grow takes the part of what is pending: a call either interrupts it or adds to it, and
    what it then collects is run, or may grow further. -/

theorem continues_iff {r : Request} {invocation : Invocation} :
    r.continues invocation = true ↔
      0xE00 ≤ r.method ∧ r.method % 2 = 1 ∧ slotNumber r.method = invocation.slot.val := by
  have hslot : invocation.slot = slotOf r.method ↔ slotNumber r.method = invocation.slot.val := by
    rw [Fin.ext_iff]
    exact eq_comm
  simp only [Request.continues, isParameter, registerCount, Bool.and_eq_true, decide_eq_true_eq, beq_iff_eq, hslot]
  omega

namespace Request

def interruptedBatch? (r : Request) (current : Option Batch) : Option Batch :=
  current.filter fun b => !r.continues b.invocation

def collectedBatch (r : Request) (index : Nat) (current : Option Batch) : Batch :=
  match current.filter fun b => r.continues b.invocation with
  | some b => ⟨b.first, { b.invocation with arguments := b.invocation.arguments.push r.argument }⟩
  | none => ⟨index, ⟨slotOf r.method, #[r.argument]⟩⟩

def doneBatches (r : Request) (index : Nat) (current : Option Batch) : List (Nat × Batch) :=
  (r.interruptedBatch? current).toList.map (index, ·) ++
    if 0xE00 ≤ r.method ∧ r.last = true then [(index, r.collectedBatch index current)] else []

def currentBatch (r : Request) (index : Nat) (current : Option Batch) : Option Batch :=
  if r.method < 0xE00 ∨ r.last = true then none else some (r.collectedBatch index current)

theorem map_interruptedBatch? (r : Request) (current : Option Batch) :
    (r.interruptedBatch? current).map Batch.invocation = r.interrupted? (current.map Batch.invocation) := by
  cases current with
  | none => rfl
  | some b => cases h : r.continues b.invocation <;> simp [interruptedBatch?, interrupted?, Option.filter, h]

theorem invocation_collectedBatch (r : Request) (index : Nat) (current : Option Batch) :
    (r.collectedBatch index current).invocation = r.collected (current.map Batch.invocation) := by
  cases current with
  | none => rfl
  | some b => cases h : r.continues b.invocation <;> simp [collectedBatch, collected, Option.filter, h]

end Request

section
variable {requests : List Request} {r : Request} {current : Option Batch}

/-- A batch that a call interrupts is run at that call, first of all. -/
theorem runAt_of_interrupted {b : Batch} (hpending : pendingFrom none requests = current.map Batch.invocation)
    (hopen : ∀ b ∈ current, b.Open requests) (hb : r.interruptedBatch? current = some b) :
    b.RunAt (requests ++ [r]) requests.length := by
  obtain ⟨rfl, hcontinues⟩ := Option.filter_eq_some_iff.mp hb
  obtain ⟨-, hstop, final, hfinal, hlast⟩ := hopen b rfl
  refine ⟨final, getElem?_snoc hfinal r, ?_⟩
  rw [if_neg (by simp [hlast])]
  refine ⟨hstop.symm, ?_, r, List.getElem?_concat_length, ?_⟩
  · have hbefore : (timeline requests).find? (fun e => e.1 = requests.length) = none := by
      rw [List.find?_eq_none]
      intro e he
      have := index_of_mem_timelineFrom he
      simp only [decide_eq_true_eq]
      omega
    have hinterrupted : r.interrupted? (pendingFrom none requests) = some b.invocation := by
      rw [hpending, ← Request.map_interruptedBatch?, hb]
      rfl
    rw [timeline_snoc, List.find?_append, hbefore, Option.none_or, Request.acts, hinterrupted]
    simp
  · have hnot : ¬(r.continues b.invocation = true) := by simpa using hcontinues
    rw [continues_iff] at hnot
    omega

theorem collectedBatch_collectedFrom (hr : 0xE00 ≤ r.method) (hopen : ∀ b ∈ current, b.Open requests) :
    (r.collectedBatch requests.length current).CollectedFrom (requests ++ [r]) ∧
    (r.collectedBatch requests.length current).stop = requests.length + 1 := by
  unfold Request.collectedBatch
  cases hb : current.filter fun b => r.continues b.invocation with
  | none =>
    refine ⟨⟨Nat.one_pos, fun i hi => ?_⟩, rfl⟩
    have hi : i = 0 := Nat.lt_one_iff.mp hi
    subst hi
    exact ⟨r, List.getElem?_concat_length, hr, rfl, rfl, nofun, nofun⟩
  | some b =>
    obtain ⟨rfl, hcontinues⟩ := Option.filter_eq_some_iff.mp hb
    obtain ⟨hcollected, hstop, final, hfinal, hlast⟩ := hopen b rfl
    obtain ⟨-, hodd, hslot⟩ := continues_iff.mp hcontinues
    unfold Batch.stop at hstop hfinal
    refine ⟨⟨by simp, fun i hi => ?_⟩, ?_⟩
    · simp only [Array.size_push] at hi ⊢
      by_cases hnew : i = b.invocation.arguments.size
      · subst hnew
        refine ⟨r, ?_, hr, hslot, by simp, fun _ => hodd, fun h => absurd h (Nat.lt_irrefl _)⟩
        rw [hstop]
        exact List.getElem?_concat_length
      · have hi : i < b.invocation.arguments.size := by omega
        obtain ⟨q, hq, hmethod, hqslot, hargument, hqodd, hqlast⟩ := hcollected.call i hi
        refine ⟨q, getElem?_snoc hq r, hmethod, hqslot, ?_, hqodd, fun _ => ?_⟩
        · rw [hargument, Array.getElem_push_lt]
        · -- The call before the new one was the final one so far.
          by_cases hbefore : i + 1 < b.invocation.arguments.size
          · exact hqlast hbefore
          · rw [show b.first + b.invocation.arguments.size - 1 = b.first + i by omega, hq] at hfinal
            cases hfinal
            exact hlast
    · show b.first + (b.invocation.arguments.push r.argument).size = _
      rw [Array.size_push]
      omega

theorem doneBatches_spec (hpending : pendingFrom none requests = current.map Batch.invocation)
    (hopen : ∀ b ∈ current, b.Open requests) :
    ∀ e ∈ r.doneBatches requests.length current,
      e.2.CollectedFrom (requests ++ [r]) ∧ e.2.RunAt (requests ++ [r]) e.1 := by
  intro e he
  rcases List.mem_append.mp he with he | he
  · obtain ⟨b, hb, rfl⟩ := List.mem_map.mp he
    have hb := Option.mem_toList.mp hb
    have hcurrent : b ∈ current := (Option.filter_eq_some_iff.mp hb).1
    exact ⟨(hopen b hcurrent).1.snoc r, runAt_of_interrupted hpending hopen hb⟩
  · split at he
    · next hlast =>
      cases List.mem_singleton.mp he
      obtain ⟨hcollected, hstop⟩ := collectedBatch_collectedFrom hlast.1 hopen
      refine ⟨hcollected, r, ?_, ?_⟩
      · rw [hstop]
        exact List.getElem?_concat_length
      · rw [if_pos hlast.2, hstop]
        rfl
    · cases he

theorem currentBatch_open (hopen : ∀ b ∈ current, b.Open requests) :
    ∀ b ∈ r.currentBatch requests.length current, b.Open (requests ++ [r]) := by
  intro b hb
  unfold Request.currentBatch at hb
  split at hb
  · cases hb
  · next hgrows =>
    rw [not_or, Nat.not_lt, Bool.not_eq_true] at hgrows
    obtain ⟨hcollected, hstop⟩ := collectedBatch_collectedFrom hgrows.1 hopen
    rw [← Option.mem_some_iff.mp hb]
    refine ⟨hcollected, ?_, r, ?_, hgrows.2⟩
    · rw [hstop, List.length_append, List.length_singleton]
    · rw [hstop]
      exact List.getElem?_concat_length

/-- What was in batches stays in batches, and a macro call is added at the end. -/
theorem calls_snoc (hopen : ∀ b ∈ current, b.Open requests) :
    ((r.doneBatches requests.length current).map Prod.snd ++
        (r.currentBatch requests.length current).toList).flatMap Batch.calls =
      current.toList.flatMap Batch.calls ++ if 0xE00 ≤ r.method then [requests.length] else [] := by
  -- A macro call extends the batch that may grow, or interrupts it and begins another.
  have hcollected : 0xE00 ≤ r.method →
      (r.interruptedBatch? current).toList.flatMap Batch.calls ++ (r.collectedBatch requests.length current).calls =
        current.toList.flatMap Batch.calls ++ [requests.length] := by
    intro hr
    cases current with
    | none => rfl
    | some b =>
      have hstop : b.first + b.invocation.arguments.size = requests.length := (hopen b rfl).2.1
      cases hc : r.continues b.invocation with
      | false => simp [Request.interruptedBatch?, Request.collectedBatch, Option.filter, hc, Batch.calls]
      | true =>
        simp [Request.interruptedBatch?, Request.collectedBatch, Option.filter, hc, Batch.calls, List.range'_concat,
          hstop]
  -- A call to a register interrupts whatever may grow.
  have hregister : r.method < 0xE00 → r.interruptedBatch? current = current := by
    intro hr
    cases current with
    | none => rfl
    | some b =>
      have hnot : ¬(r.continues b.invocation = true) := by
        rw [continues_iff]
        omega
      simp [Request.interruptedBatch?, Option.filter, hnot]
  unfold Request.doneBatches Request.currentBatch
  by_cases hr : 0xE00 ≤ r.method
  · rw [if_pos hr, ← hcollected hr]
    cases hl : r.last <;> simp [hr, Function.comp_def, Nat.not_lt.mpr hr]
  · have hlt : r.method < 0xE00 := Nat.lt_of_not_le hr
    simp [hr, hlt, hregister hlt, Function.comp_def]

end

/-! ### Runs of calls -/

/-- The invocations that acts run, with their indices. -/
def runs (acts : List (Nat × Act)) : List (Nat × Invocation) :=
  acts.filterMap fun
    | (index, .invoke invocation) => some (index, invocation)
    | (_, .write ..) => none

/-- The macro calls of a history in batches: those that were run, each with the index of the call that ran it,
    and the one that may still grow. -/
structure Batched (requests : List Request) (done : List (Nat × Batch)) (current : Option Batch) : Prop where
  run : runs (timeline requests) = done.map fun e => (e.1, e.2.invocation)
  pending : pendingFrom none requests = current.map Batch.invocation
  collected : ∀ e ∈ done, e.2.CollectedFrom requests
  runAt : ∀ e ∈ done, e.2.RunAt requests e.1
  growing : ∀ b ∈ current, b.Open requests
  /-- Every macro call is in one batch, and the batches are in the order of their calls. -/
  calls : (done.map Prod.snd ++ current.toList).flatMap Batch.calls =
    (List.range requests.length).filter fun i => requests[i]?.any fun r => 0xE00 ≤ r.method

theorem runs_append (acts acts' : List (Nat × Act)) : runs (acts ++ acts') = runs acts ++ runs acts' :=
  List.filterMap_append

theorem runs_acts (r : Request) (index : Nat) (pending : Option Invocation) :
    runs ((r.acts pending).map (index, ·)) =
      (r.interrupted? pending).toList.map (index, ·) ++
        if 0xE00 ≤ r.method ∧ r.last = true then [(index, r.collected pending)] else [] := by
  rw [Request.acts, List.map_append, runs_append]
  congr 1
  · cases r.interrupted? pending <;> rfl
  · unfold Request.ownActs registerCount
    by_cases hr : r.method < 0xE00
    · rw [if_pos hr, if_neg (by omega)]
      rfl
    · cases hl : r.last with
      | true => simp [hr, Nat.not_lt.mp hr, runs]
      | false => simp [hr, runs]

theorem filter_range_snoc (requests : List Request) (r : Request) :
    (List.range (requests ++ [r]).length).filter (fun i => (requests ++ [r])[i]?.any fun q => 0xE00 ≤ q.method) =
      (List.range requests.length).filter (fun i => requests[i]?.any fun q => 0xE00 ≤ q.method) ++
        if 0xE00 ≤ r.method then [requests.length] else [] := by
  have hbefore : ∀ i ∈ List.range requests.length, ((requests ++ [r])[i]?.any fun q => 0xE00 ≤ q.method) =
      requests[i]?.any fun q => 0xE00 ≤ q.method := by
    intro i hi
    rw [List.getElem?_append_left (List.mem_range.mp hi)]
  rw [List.length_append, List.length_singleton, List.range_succ, List.filter_append, List.filter_congr hbefore]
  congr 1
  by_cases hr : 0xE00 ≤ r.method <;> simp [hr]

theorem Batched.snoc {requests : List Request} {done : List (Nat × Batch)} {current : Option Batch}
    (h : Batched requests done current) (r : Request) :
    Batched (requests ++ [r]) (done ++ r.doneBatches requests.length current)
      (r.currentBatch requests.length current) where
  run := by
    rw [timeline_snoc, runs_append, h.run, runs_acts, h.pending, ← Request.map_interruptedBatch?,
      ← Request.invocation_collectedBatch r requests.length current, List.map_append, Request.doneBatches,
      List.map_append]
    congr 2
    · cases r.interruptedBatch? current <;> rfl
    · split <;> rfl
  pending := by
    rw [pendingFrom_snoc, h.pending, Request.pendingAfter, ← Request.invocation_collectedBatch r requests.length,
      Request.currentBatch]
    unfold registerCount
    split <;> rfl
  collected e he := by
    rcases List.mem_append.mp he with he | he
    · exact (h.collected e he).snoc r
    · exact (doneBatches_spec h.pending h.growing e he).1
  runAt e he := by
    rcases List.mem_append.mp he with he | he
    · exact (h.runAt e he).snoc r
    · exact (doneBatches_spec h.pending h.growing e he).2
  growing := currentBatch_open h.growing
  calls := by
    rw [filter_range_snoc, ← h.calls, List.map_append, List.append_assoc, List.flatMap_append, calls_snoc h.growing,
      List.flatMap_append, List.append_assoc]

theorem exists_batched (requests : List Request) : ∃ done current, Batched requests done current := by
  induction requests using List.reverseRecOn with
  | nil => exact ⟨[], none, rfl, rfl, nofun, nofun, nofun, rfl⟩
  | append_singleton requests r ih =>
    obtain ⟨done, current, h⟩ := ih
    exact ⟨_, _, h.snoc r⟩

/-! ### Arguments -/

theorem Batch.CollectedFrom.arguments_eq {b : Batch} {requests : List Request} (h : b.CollectedFrom requests) :
    b.invocation.arguments.toList = b.calls.filterMap fun i => requests[i]?.map Request.argument := by
  have hcalls : b.calls.map (fun i => requests[i]?.map Request.argument) =
      b.invocation.arguments.toList.map some := by
    refine List.ext_getElem (by simp [Batch.calls]) fun i hi _ => ?_
    have hi : i < b.invocation.arguments.size := by simpa [Batch.calls] using hi
    obtain ⟨r, hr, -, -, hargument, -⟩ := h.call i hi
    simp [Batch.calls, hr, hargument]
  have hsome := congrArg (List.filterMap id) hcalls
  rw [List.filterMap_map, List.filterMap_map] at hsome
  exact (hsome.trans List.filterMap_some).symm

theorem filterMap_argument (requests : List Request) :
    ((List.range requests.length).filter fun i => requests[i]?.any fun r => 0xE00 ≤ r.method).filterMap
        (fun i => requests[i]?.map Request.argument) =
      (requests.filter fun r => 0xE00 ≤ r.method).map Request.argument := by
  induction requests using List.reverseRecOn with
  | nil => rfl
  | append_singleton requests r ih =>
    have hbefore : ∀ i ∈ (List.range requests.length).filter fun i => requests[i]?.any fun r => 0xE00 ≤ r.method,
        (requests ++ [r])[i]?.map Request.argument = requests[i]?.map Request.argument := by
      intro i hi
      rw [List.getElem?_append_left (List.mem_range.mp (List.mem_filter.mp hi).1)]
    rw [filter_range_snoc, List.filterMap_append, List.filterMap_congr hbefore, ih, List.filter_append, List.map_append]
    congr 1
    by_cases hr : 0xE00 ≤ r.method <;> simp [hr]

/-- The arguments of macro calls, in order, are those of the invocations that were run and of the pending one. -/
theorem Batched.arguments {requests : List Request} {done : List (Nat × Batch)} {current : Option Batch}
    (h : Batched requests done current) :
    ((runs (timeline requests)).map Prod.snd ++ (pendingFrom none requests).toList).flatMap
        (fun i => i.arguments.toList) =
      (requests.filter fun r => 0xE00 ≤ r.method).map Request.argument := by
  have hcollected : ∀ b ∈ done.map Prod.snd ++ current.toList, b.CollectedFrom requests := by
    intro b hb
    rcases List.mem_append.mp hb with hb | hb
    · obtain ⟨e, he, rfl⟩ := List.mem_map.mp hb
      exact h.collected e he
    · exact (h.growing b (Option.mem_toList.mp hb)).1
  have hinvocations : (runs (timeline requests)).map Prod.snd ++ (pendingFrom none requests).toList =
      (done.map Prod.snd ++ current.toList).map Batch.invocation := by
    rw [h.run, h.pending, List.map_append]
    cases current <;> simp
  calc ((runs (timeline requests)).map Prod.snd ++ (pendingFrom none requests).toList).flatMap
        (fun i => i.arguments.toList)
      = (done.map Prod.snd ++ current.toList).flatMap fun b => b.invocation.arguments.toList := by
        rw [hinvocations, List.flatMap_map]
    _ = (done.map Prod.snd ++ current.toList).flatMap fun b =>
          b.calls.filterMap fun i => requests[i]?.map Request.argument :=
        List.flatMap_congr fun b hb => (hcollected b hb).arguments_eq
    _ = ((done.map Prod.snd ++ current.toList).flatMap Batch.calls).filterMap
          fun i => requests[i]?.map Request.argument := List.filterMap_flatMap.symm
    _ = (requests.filter fun r => 0xE00 ≤ r.method).map Request.argument := by
        rw [h.calls, filterMap_argument]

/-! ### Runs from power-up -/

section
variable {η : Type} [Host η]

/-- In a run of calls from power-up, no argument of a macro call is lost, doubled, moved or given to another
    slot. After each of the calls, the engine is as the acts at the indices so far leave it. The invocations
    among these acts, and the one that is pending in the end, have the arguments of the macro calls, in order,
    and they are sorted into batches. -/
theorem batched_makeAll {requests : List Request} {stepLimit : Nat} {readings : Nat → UInt64} {host : η}
    {t : Threed × η} (hok : makeAll requests (Threed.new stepLimit readings, host) = .ok () t) :
    (∀ k, ∃ interpreter core host', makeAll (requests.take k) (Threed.new stepLimit readings, host) =
        .ok () (⟨core, pendingFrom none (requests.take k), interpreter⟩, host') ∧
      (((timeline requests).filter fun e => e.1 < k).map Prod.snd).forM Act.perform
        (({ stepLimit } : Mme.Interpreter), ((Threed.new stepLimit readings).core, host)) =
        .ok () (interpreter, (core, host'))) ∧
    t.1.pending = pendingFrom none requests ∧
    ((runs (timeline requests)).map Prod.snd ++ t.1.pending.toList).flatMap (fun i => i.arguments.toList) =
      (requests.filter fun r => 0xE00 ≤ r.method).map Request.argument ∧
    ∃ done current, Batched requests done current := by
  have hpending : t.1.pending = pendingFrom none requests := by
    obtain ⟨interpreter, core, host', hend, -⟩ := makeAll_take_new hok requests.length
    rw [List.take_length, hok] at hend
    cases hend
    rfl
  obtain ⟨done, current, hbatched⟩ := exists_batched requests
  refine ⟨makeAll_take_new hok, hpending, ?_, done, current, hbatched⟩
  rw [hpending]
  exact hbatched.arguments

end

/-- Three macros that were never uploaded: one is interrupted by a register, one is marked, and one gives way to
    another slot, which is left pending. -/
theorem batched_makeAll_three :
    let requests : List Request := [⟨0xE00, 1, false⟩, ⟨0xE01, 2, false⟩, ⟨0x40, 0, true⟩, ⟨0xE03, 3, true⟩,
      ⟨0xF05, 4, false⟩, ⟨0xE07, 5, false⟩]
    let start := (Threed.new 0x10000 fun _ => 0, (⟨⟨⟩, Ram.zeros 0, {}⟩ : Board NullSink Ram))
    ∃ t, makeAll requests start = .ok () t ∧ t.1.pending = some ⟨3, #[5]⟩ ∧
      ∃ done current, Batched requests done current := by
  intro requests start
  have hacts : (timelineFrom 0 none requests).map Prod.snd =
      [.invoke ⟨0, #[1, 2]⟩, .write 0x40 0, .invoke ⟨1, #[3]⟩, .invoke ⟨2, #[4]⟩] := by
    decide
  have hcode : start.1.core.store.words = Mme.Store.empty.words := rfl
  let core := { start.1.core with live := start.1.core.live.write 0x40 0 }
  have hwrite : (Act.write 0x40 0).effect 0x10000 (start.1.core, start.2) = .ok () (core, start.2) := rfl
  have hcode' : core.store.words = Mme.Store.empty.words := rfl
  have heffects : ((timelineFrom 0 none requests).map Prod.snd).forM (Act.effect 0x10000) (start.1.core, start.2) =
      .ok () (core, start.2) := by
    simp only [hacts, forM_cons_apply, forM_nil_apply, effect_unprogrammed hcode, hwrite, effect_unprogrammed hcode']
  obtain ⟨t, ht⟩ : ∃ t, makeAll requests start = .ok () t := by
    have hrun := makeAll_eq requests 0 start.1.core none { stepLimit := 0x10000 } start.2
    obtain ⟨machine, hperform⟩ := exists_forM_perform ((timelineFrom 0 none requests).map Prod.snd) 0x10000 .new
      (start.1.core, start.2)
    rw [hperform, heffects] at hrun
    exact ⟨_, hrun⟩
  obtain ⟨-, hpending, -, hbatched⟩ := batched_makeAll ht
  exact ⟨t, ht, hpending.trans (by decide), hbatched⟩

end Maxwell.Threed
