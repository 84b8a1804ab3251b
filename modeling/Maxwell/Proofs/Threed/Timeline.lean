import Maxwell.Proofs.Threed.Act

/-! The timeline of a run of calls: its acts in order, each at the index of its call. It is known from the
    calls alone, and making the calls is performing it on the core. -/

namespace Maxwell.Threed

def pendingFrom (pending : Option Invocation) (requests : List Request) : Option Invocation :=
  requests.foldl (fun pending r => r.pendingAfter pending) pending

/-- The acts of calls, with the index of their call. The first call has index `start`. -/
def timelineFrom (start : Nat) (pending : Option Invocation) : List Request → List (Nat × Act)
  | [] => []
  | r :: requests => (r.acts pending).map (start, ·) ++ timelineFrom (start + 1) (r.pendingAfter pending) requests

/-- The timeline of calls to an engine with nothing pending. -/
def timeline (requests : List Request) : List (Nat × Act) := timelineFrom 0 none requests

theorem pendingFrom_snoc (pending : Option Invocation) (requests : List Request) (r : Request) :
    pendingFrom pending (requests ++ [r]) = r.pendingAfter (pendingFrom pending requests) := by
  rw [pendingFrom, List.foldl_append]
  rfl

theorem timelineFrom_snoc (start : Nat) (pending : Option Invocation) (requests : List Request) (r : Request) :
    timelineFrom start pending (requests ++ [r]) = timelineFrom start pending requests ++
      (r.acts (pendingFrom pending requests)).map (start + requests.length, ·) := by
  induction requests generalizing start pending with
  | nil => simp [timelineFrom, pendingFrom]
  | cons q requests ih =>
    rw [List.cons_append, timelineFrom, timelineFrom, ih, List.append_assoc, List.length_cons,
      show start + 1 + requests.length = start + (requests.length + 1) by omega]
    rfl

theorem timeline_snoc (requests : List Request) (r : Request) :
    timeline (requests ++ [r]) =
      timeline requests ++ (r.acts (pendingFrom none requests)).map (requests.length, ·) := by
  rw [timeline, timelineFrom_snoc, Nat.zero_add, timeline]

theorem index_of_mem_timelineFrom {start : Nat} {pending : Option Invocation} {requests : List Request}
    {e : Nat × Act} (he : e ∈ timelineFrom start pending requests) :
    start ≤ e.1 ∧ e.1 < start + requests.length := by
  induction requests generalizing start pending with
  | nil => cases he
  | cons r requests ih =>
    rw [List.length_cons]
    rcases List.mem_append.mp he with he | he
    · obtain ⟨_, _, rfl⟩ := List.mem_map.mp he
      exact ⟨Nat.le_refl _, by omega⟩
    · have := ih he
      omega

/-- The acts of the first calls are those at indices before theirs. -/
theorem filter_timelineFrom (start : Nat) (pending : Option Invocation) (requests : List Request) (k : Nat) :
    (timelineFrom start pending requests).filter (fun e => e.1 < start + k) =
      timelineFrom start pending (requests.take k) := by
  induction requests generalizing start pending k with
  | nil => rw [List.take_nil]; rfl
  | cons r requests ih =>
    cases k with
    | zero =>
      rw [List.take_zero, timelineFrom, List.filter_eq_nil_iff]
      intro e he
      have := index_of_mem_timelineFrom he
      simp only [decide_eq_true_eq]
      omega
    | succ k =>
      have hown : ((r.acts pending).map (start, ·)).filter (fun e => e.1 < start + (k + 1)) =
          (r.acts pending).map (start, ·) := by
        rw [List.filter_eq_self]
        intro e he
        obtain ⟨_, _, rfl⟩ := List.mem_map.mp he
        exact decide_eq_true (by omega)
      have hrest := ih (start + 1) (r.pendingAfter pending) k
      rw [show start + 1 + k = start + (k + 1) by omega] at hrest
      rw [timelineFrom, List.filter_append, hown, hrest]
      rfl

theorem filter_timeline (requests : List Request) (k : Nat) :
    (timeline requests).filter (fun e => e.1 < k) = timeline (requests.take k) := by
  have h := filter_timelineFrom 0 none requests k
  rwa [Nat.zero_add] at h

section
variable {η : Type} [Host η]

/-- Making calls is performing their acts. A call that fails leaves nothing pending. -/
theorem makeAll_eq (requests : List Request) (start : Nat) (core : Core) (pending : Option Invocation)
    (interpreter : Mme.Interpreter) (host : η) :
    makeAll requests (⟨core, pending, interpreter⟩, host) =
      match ((timelineFrom start pending requests).map Prod.snd).forM Act.perform (interpreter, (core, host)) with
      | .ok _ (interpreter, core, host) => .ok () (⟨core, pendingFrom pending requests, interpreter⟩, host)
      | .error fault s => .error fault (idleAfter s) := by
  -- The engine may have an invocation pending, as each call but the first may find one.
  induction requests generalizing start core pending interpreter host with
  | nil => rfl
  | cons r requests ih =>
    have hown : ((r.acts pending).map (start, ·)).map Prod.snd = r.acts pending := by
      simp [Function.comp_def]
    rw [makeAll, forM_cons_apply, make_eq, timelineFrom, List.map_append, forM_append_apply, hown]
    cases (r.acts pending).forM Act.perform (interpreter, (core, host)) with
    | error fault s => rfl
    | ok _ s => exact ih (start + 1) s.2.1 (r.pendingAfter pending) s.1 s.2.2

/-- The first calls of a run that succeeds succeed too. -/
theorem makeAll_take {requests : List Request} {s t : Threed × η} (h : makeAll requests s = .ok () t) (k : Nat) :
    ∃ u, makeAll (requests.take k) s = .ok () u := by
  rw [← List.take_append_drop k requests, makeAll, forM_append_apply] at h
  cases hk : makeAll (requests.take k) s with
  | ok _ u => exact ⟨u, rfl⟩
  | error fault u =>
    rw [makeAll] at hk
    simp [hk] at h

/-- After its first calls, a run from power-up has performed the acts at their indices and no others, and what
    is pending is what these calls leave pending. -/
theorem makeAll_take_new {requests : List Request} {stepLimit : Nat} {readings : Nat → UInt64} {host : η}
    {t : Threed × η} (h : makeAll requests (Threed.new stepLimit readings, host) = .ok () t) (k : Nat) :
    ∃ interpreter core host', makeAll (requests.take k) (Threed.new stepLimit readings, host) =
        .ok () (⟨core, pendingFrom none (requests.take k), interpreter⟩, host') ∧
      (((timeline requests).filter fun e => e.1 < k).map Prod.snd).forM Act.perform
        (({ stepLimit } : Mme.Interpreter), ((Threed.new stepLimit readings).core, host)) =
        .ok () (interpreter, (core, host')) := by
  obtain ⟨u, hu⟩ := makeAll_take h k
  have heq := makeAll_eq (requests.take k) 0 (Threed.new stepLimit readings).core none { stepLimit } host
  rw [filter_timeline, timeline]
  rw [show (Threed.new stepLimit readings, host) = (⟨(Threed.new stepLimit readings).core, none, { stepLimit }⟩, host)
    from rfl, heq] at hu ⊢
  cases hacts : ((timelineFrom 0 none (requests.take k)).map Prod.snd).forM Act.perform
      (({ stepLimit } : Mme.Interpreter), ((Threed.new stepLimit readings).core, host)) with
  | error fault s => simp [hacts] at hu
  | ok _ s => exact ⟨s.1, s.2.1, s.2.2, rfl, rfl⟩

end

end Maxwell.Threed
