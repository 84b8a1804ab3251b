import Maxwell.Proofs.Threed.Transport

/-! The writes of a run. Whatever calls and macros do to the engine and to its host they do by writes to registers,
    one after the other, so a run of calls, of which some may fail, is a chain of writes: each finds the core and the
    host that the one before it left. What a run does can be told from its writes, and what becomes of a part of the
    host from the requests on record. -/

namespace Maxwell.Threed

section
variable {η : Type} [Host η]

/-! ### Writes of calls -/

/-- What an act writes to registers: a macro, what it sends to methods below those of macros. -/
def Act.sends (stepLimit : Nat) (s : Core × η) : Act → List (Nat × Word)
  | .write method argument => [(method, argument)]
  | .invoke invocation => (invocation.sends stepLimit s).filter fun send => send.1 < registerCount

/-- Writes with what they find, up to the first that fails. -/
def writesFrom : List (Nat × Word) → Core × η → List (WriteAt η)
  | [], _ => []
  | send :: sends, s => ⟨s.1, s.2, send.1, send.2⟩ ::
    match write send.1 send.2 s with
    | .ok _ t => writesFrom sends t
    | .error _ _ => []

/-- The writes of acts, up to the first act that fails. -/
def writesOfActs (stepLimit : Nat) : List Act → Core × η → List (WriteAt η)
  | [], _ => []
  | act :: acts, s => writesFrom (act.sends stepLimit s) s ++
    match act.effect stepLimit s with
    | .ok _ t => writesOfActs stepLimit acts t
    | .error _ _ => []

def Request.writes (r : Request) (s : Threed × η) : List (WriteAt η) :=
  writesOfActs s.1.stepLimit (r.acts s.1.pending) (coreOf s)

/-- The writes of a run of calls, in order. After a call that fails, the run goes on with the next. -/
def writesOf : List Request → Threed × η → List (WriteAt η)
  | [], _ => []
  | r :: requests, s => r.writes s ++ writesOf requests (stateOf (r.make s))

theorem writesOf_append (requests more : List Request) (s : Threed × η) :
    writesOf (requests ++ more) s = writesOf requests s ++ writesOf more (stateAfter requests s) := by
  induction requests generalizing s with
  | nil => rfl
  | cons r requests ih =>
    rw [List.cons_append, writesOf, writesOf, ih, List.append_assoc]
    rfl

/-- The writes of calls to an idle engine, of which the first goes to a register. -/
theorem writesOf_cons_idle {r : Request} (hr : r.method < registerCount) (requests : List Request)
    (interpreter : Mme.Interpreter) (s : Core × η) :
    writesOf (r :: requests) (idle interpreter s) = ⟨s.1, s.2, r.method, r.argument⟩ ::
      writesOf requests (idle interpreter (stateOf (write r.method r.argument s))) := by
  have hacts : r.acts none = [.write r.method r.argument] := by
    simp [Request.acts, Request.interrupted?, Request.ownActs, hr]
  have hwrites : r.writes (idle interpreter s) = [⟨s.1, s.2, r.method, r.argument⟩] := by
    show writesOfActs interpreter.stepLimit (r.acts none) s = _
    rw [hacts, writesOfActs, Act.sends, writesFrom]
    cases write r.method r.argument s <;> cases Act.effect interpreter.stepLimit (.write r.method r.argument) s <;> rfl
  rw [writesOf, hwrites, make_idle hr, stateOf_through]
  rfl

/-! ### Chains -/

/-- Writes that each find what the one before left. -/
inductive Chain : Core × η → List (WriteAt η) → Core × η → Prop
  | nil (s : Core × η) : Chain s [] s
  | cons (w : WriteAt η) {writes : List (WriteAt η)} {t : Core × η} (hmethod : w.method < registerCount)
    (hrest : Chain (stateOf w.outcome) writes t) : Chain (w.core, w.host) (w :: writes) t

theorem Chain.append {s t u : Core × η} {writes more : List (WriteAt η)} (h : Chain s writes t)
    (hmore : Chain t more u) : Chain s (writes ++ more) u := by
  induction h with
  | nil => exact hmore
  | cons w hmethod _ ih => exact .cons w hmethod (ih hmore)

/-- The writes before one of a chain lead to what it finds. -/
theorem Chain.before {s t : Core × η} {before after : List (WriteAt η)} {w : WriteAt η}
    (h : Chain s (before ++ w :: after) t) : Chain s before (w.core, w.host) := by
  induction before generalizing s with
  | nil =>
    cases h
    exact .nil _
  | cons v before ih =>
    cases h with
    | cons _ hmethod hrest => exact .cons v hmethod (ih hrest)

theorem chain_writesFrom {sends : List (Nat × Word)} (hsends : ∀ send ∈ sends, send.1 < registerCount)
    (s : Core × η) : Chain s (writesFrom sends s) (stateOf (sends.forM (fun send => write send.1 send.2) s)) := by
  induction sends generalizing s with
  | nil => exact .nil s
  | cons send sends ih =>
    rw [writesFrom, forM_cons_apply]
    refine .cons ⟨s.1, s.2, send.1, send.2⟩ (hsends send List.mem_cons_self) ?_
    show Chain (stateOf (write send.1 send.2 s)) _ _
    cases write send.1 send.2 s with
    | ok _ t => exact ih (fun send hsend => hsends send (List.mem_cons_of_mem _ hsend)) t
    | error fault t => exact .nil t

/-- An act is the writes that it makes. -/
theorem Act.effect_eq (act : Act) (stepLimit : Nat) (s : Core × η) :
    act.effect stepLimit s = (act.sends stepLimit s).forM (fun send => Threed.write send.1 send.2) s := by
  cases act with
  | write method argument => exact (forM_singleton_apply _ _ s).symm
  | invoke invocation =>
    have hdrop : ∀ send : Nat × Word, decide (send.1 < registerCount) = false →
        ∀ t : Core × η, Mme.makeSend send t = .ok () t :=
      fun send hsend => makeSend_of_le (Nat.not_lt.mp (of_decide_eq_false hsend)) send.2
    show settled (invocation.run stepLimit s) = _
    rw [← forM_sends_run, ← forM_filter_apply hdrop]
    exact forM_congr_apply (fun send hsend =>
      makeSend_of_lt (of_decide_eq_true (List.mem_filter.mp hsend).2) send.2) s

theorem chain_effect {act : Act} (hact : act.InFile) (stepLimit : Nat) (s : Core × η) :
    Chain s (writesFrom (act.sends stepLimit s) s) (stateOf (act.effect stepLimit s)) := by
  rw [act.effect_eq]
  refine chain_writesFrom (fun send hsend => ?_) s
  cases act with
  | write method argument =>
    cases List.mem_singleton.mp hsend
    exact hact
  | invoke invocation => exact of_decide_eq_true (List.mem_filter.mp hsend).2

theorem chain_writesOfActs (stepLimit : Nat) {acts : List Act} (hacts : ∀ act ∈ acts, act.InFile) (s : Core × η) :
    Chain s (writesOfActs stepLimit acts s) (stateOf (acts.forM (Act.effect stepLimit) s)) := by
  induction acts generalizing s with
  | nil => exact .nil s
  | cons act acts ih =>
    have hfirst := chain_effect (hacts act List.mem_cons_self) stepLimit s
    rw [writesOfActs, forM_cons_apply]
    refine hfirst.append ?_
    cases act.effect stepLimit s with
    | ok _ t => exact ih (fun act hact => hacts act (List.mem_cons_of_mem _ hact)) t
    | error fault t => exact .nil t

theorem coreOf_make (r : Request) (s : Threed × η) :
    coreOf (stateOf (r.make s)) = stateOf ((r.acts s.1.pending).forM (Act.effect s.1.stepLimit) (coreOf s)) := by
  rw [← through_make, stateOf_through]

/-- A run is the chain of its writes. -/
theorem chain_writesOf (requests : List Request) (s : Threed × η) :
    Chain (coreOf s) (writesOf requests s) (coreOf (stateAfter requests s)) := by
  induction requests generalizing s with
  | nil => exact .nil _
  | cons r requests ih =>
    refine Chain.append ?_ (ih (stateOf (r.make s)))
    rw [coreOf_make]
    exact chain_writesOfActs s.1.stepLimit (fun act hact => inFile_of_mem_acts hact) (coreOf s)

/-! ### Requests on record -/

/-- What is told of the requests on record, in the order in which they were made. -/
def toldOf {α : Type} (tell : HostEvent → Option α) (events : List HostEvent) : List α :=
  events.reverse.filterMap tell

theorem toldOf_cons {α : Type} (tell : HostEvent → Option α) (e : HostEvent) (events : List HostEvent) :
    toldOf tell (e :: events) = toldOf tell events ++ (tell e).toList := by
  rw [toldOf, List.reverse_cons, List.filterMap_append, toldOf]
  cases h : tell e <;> simp [h]

/-- What each write of a chain adds is what the chain adds. -/
theorem Chain.toldOf {α : Type} {tell : HostEvent → Option α} {made? : WriteAt (Traced η) → Option α}
    (hwrite : ∀ w : WriteAt (Traced η), w.method < registerCount →
      toldOf tell (stateOf w.outcome).2.events = toldOf tell w.host.events ++ (made? w).toList)
    {s t : Core × Traced η} {writes : List (WriteAt (Traced η))} (h : Chain s writes t) :
    Threed.toldOf tell t.2.events = Threed.toldOf tell s.2.events ++ writes.filterMap made? := by
  induction h with
  | nil => simp
  | cons w hmethod _ ih =>
    rw [ih, hwrite w hmethod, List.append_assoc]
    cases hmade : made? w <;> simp [hmade]

/-- Whether a part of the host changes by what is told of requests, and by nothing else. -/
structure Accounts {α β : Type} (tell : HostEvent → Option α) (change : β → α → β) (part : η → β) : Prop where
  notify : ∀ live span fault? host,
    part (stateOf (Sink.notify live span host)) = (tell (.notify live span fault?)).toList.foldl change (part host)
  flush : ∀ fault? host, part (stateOf (Sink.flush host)) = (tell (.flush fault?)).toList.foldl change (part host)
  clear : ∀ live request fault? host,
    part (stateOf (Sink.clear live request host)) = (tell (.clear live request fault?)).toList.foldl change (part host)
  store : ∀ address bytes fault? host, part (stateOf (GuestMemory.store address bytes host)) =
    (tell (.store address bytes fault?)).toList.foldl change (part host)
  increment : ∀ id host, part (Host.increment id host) = (tell (.increment id)).toList.foldl change (part host)

section
variable {α β : Type} {tell : HostEvent → Option α} {change : β → α → β} {part : η → β}

/-- Whether the requests on record tell what became of a part. -/
def Accounted (tell : HostEvent → Option α) (change : β → α → β) (part : η → β) (initial : β) (s : Traced η) : Prop :=
  part s.host = (Threed.toldOf tell s.events).foldl change initial

omit [Host η] in
theorem Accounted.record {ε : Type} {event : Option ε → HostEvent} {act : EStateM ε η Unit} {initial : β}
    {s : Traced η} (hact : ∀ fault?, part (stateOf (act s.host)) =
      (tell (event fault?)).toList.foldl change (part s.host))
    (h : Accounted tell change part initial s) :
    Accounted tell change part initial (stateOf (Traced.record event act s)) := by
  obtain ⟨fault?, hrecord⟩ := Traced.exists_stateOf_record event act s
  rw [hrecord, Accounted, toldOf_cons, List.foldl_append, ← h]
  exact hact fault?

theorem Accounts.hostLaw (haccounts : Accounts tell change part) (initial : β) :
    HostLaw fun (s : Traced η) r =>
      Accounted tell change part initial s → Accounted tell change part initial (stateOf r) where
  toSequential := sequential_keeps (Accounted tell change part initial)
  notify live span s h := by
    rw [stateOf_caused]
    exact Accounted.record (fun fault? => haccounts.notify live span fault? s.host) h
  flush s h := by
    rw [stateOf_caused]
    exact Accounted.record (fun fault? => haccounts.flush fault? s.host) h
  clear live request s h := by
    rw [stateOf_caused]
    exact Accounted.record (fun fault? => haccounts.clear live request fault? s.host) h
  memory address bytes s h := by
    rw [stateOf_caused]
    exact Accounted.record (fun fault? => haccounts.store address bytes fault? s.host) h
  increment id s h := by
    rw [stateOf, Accounted, show (Host.increment id s).events = .increment id :: s.events from rfl, toldOf_cons,
      List.foldl_append, ← h]
    exact haccounts.increment id s.host

theorem Accounts.outcome (haccounts : Accounts tell change part) {initial : β} {w : WriteAt (Traced η)}
    (h : Accounted tell change part initial w.host) : Accounted tell change part initial (stateOf w.outcome).2 := by
  have hwrite := (haccounts.hostLaw initial).writeLaw.write w.method w.argument (w.core, w.host)
  rw [stateOf_through] at hwrite
  exact hwrite h

/-- A part that is accounted for at the start of a chain is accounted for at its end. -/
theorem Accounts.chain (haccounts : Accounts tell change part) {initial : β} {s t : Core × Traced η}
    {writes : List (WriteAt (Traced η))} (h : Chain s writes t) (hs : Accounted tell change part initial s.2) :
    Accounted tell change part initial t.2 := by
  induction h with
  | nil => exact hs
  | cons w _ _ ih => exact ih (haccounts.outcome hs)

end

end

end Maxwell.Threed
