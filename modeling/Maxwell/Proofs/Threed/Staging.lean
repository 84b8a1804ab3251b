import Maxwell.Memory.Ram
import Maxwell.Proofs.Register.Writes
import Maxwell.Proofs.Threed.Copies
import Maxwell.Proofs.Threed.Transport

/-! Writes that are staged first and replayed afterwards. Staging fills the shadow copy and touches nothing else, and a
    replay brings each register the word that was staged last, so in the end the live registers are as if the writes
    had been made at once. In between they need not be: a replay brings the last word already at the first write. -/

namespace Maxwell.Threed

/-! ### Runs in one mode -/

section
variable {η : Type} [Host η] {writes : List (Nat × Word)}

theorem write_filtered {w : Nat × Word} (hw : ¬IsControl w.1) {s : Core × η}
    (hmode : s.1.live.shadowMode = .trackWithFilter) :
    write w.1 w.2 s = .ok () ({ s.1 with shadow := s.1.shadow.write w.1 w.2 }, s.2) := by
  have hnone : Control.ofMethod? w.1 = none := by simpa [isControl_iff] using hw
  rw [write_route hnone, route_apply, hmode]

/-- Staging asks nothing of the host, and cannot fail. -/
theorem forM_write_filtered (hrouted : ∀ w ∈ writes, ¬IsControl w.1) {s : Core × η}
    (hmode : s.1.live.shadowMode = .trackWithFilter) :
    writes.forM (fun w => write w.1 w.2) s = .ok () ({ s.1 with shadow := s.1.shadow.writeAll writes }, s.2) := by
  induction writes generalizing s with
  | nil => rfl
  | cons w writes ih =>
    rw [forM_cons_apply, write_filtered (hrouted w List.mem_cons_self) hmode]
    exact ih (fun w hw => hrouted w (List.mem_cons_of_mem _ hw)) hmode

/-- What a write brings to the live copy, if it lands there untracked. -/
def brought (core : Core) (w : Nat × Word) : Nat × Word := (w.1, (RegisterCall.on core w.1 w.2).landed)

theorem write_untracked {w : Nat × Word} (hw : ¬IsControl w.1) {s t : Core × η}
    (hmode : s.1.live.shadowMode = .passthrough ∨ s.1.live.shadowMode = .replay) (h : write w.1 w.2 s = .ok () t) :
    t.1.live = s.1.live.land (brought s.1 w) ∧ t.1.shadow = s.1.shadow := by
  obtain ⟨hlive, hshadow⟩ := write_ok h
  rw [hlive, hshadow]
  rcases hmode with hmode | hmode <;>
    simp [RegisterCall.liveAfter, RegisterCall.shadowAfter, RegisterCall.on, RegisterFile.land, brought,
      RegisterCall.landed, hw, hmode, ShadowMode.writesShadow]

theorem shadowMode_land {w : Nat × Word} (hw : ¬IsControl w.1) (live : RegisterFile) :
    (live.land w).shadowMode = live.shadowMode := by
  have hother : w.1 ≠ 0x49 := by
    unfold IsControl at hw
    omega
  have hread : (live.land w).read 0x49 = live.read 0x49 := by
    unfold RegisterFile.land
    grind [RegisterFile.read_write]
  exact congrArg ShadowMode.ofWord hread

theorem forM_write_untracked (hrouted : ∀ w ∈ writes, ¬IsControl w.1) {s t : Core × η}
    (h : writes.forM (fun w => write w.1 w.2) s = .ok () t)
    (hmode : s.1.live.shadowMode = .passthrough ∨ s.1.live.shadowMode = .replay) :
    t.1.live = s.1.live.landAll (writes.map (brought s.1)) := by
  induction writes generalizing s with
  | nil =>
    cases h
    rfl
  | cons w writes ih =>
    have hw : ¬IsControl w.1 := hrouted w List.mem_cons_self
    rw [forM_cons_apply] at h
    cases hwrite : write w.1 w.2 s with
    | error fault u => simp [hwrite] at h
    | ok _ u =>
      simp only [hwrite] at h
      obtain ⟨hlive, hshadow⟩ := write_untracked hw hmode hwrite
      have hkept : u.1.live.shadowMode = s.1.live.shadowMode := by
        rw [hlive]
        exact shadowMode_land (show ¬IsControl (brought s.1 w).1 from hw) s.1.live
      have hbrought : brought u.1 = brought s.1 := by
        funext v
        simp [brought, RegisterCall.on, RegisterCall.landed, hkept, hshadow]
      rw [ih (fun w hw => hrouted w (List.mem_cons_of_mem _ hw)) h (hkept ▸ hmode), hlive, hbrought]
      rfl

/-! ### Staging and replaying -/

theorem write_shadowMode (value : Word) (s : Core × η) :
    write 0x49 value s = .ok () ({ s.1 with live := s.1.live.write 0x49 value }, s.2) := rfl

omit [Host η] in
theorem shadowMode_write (live : RegisterFile) (mode : ShadowMode) :
    (live.write 0x49 mode.toWord).shadowMode = mode := by
  show ShadowMode.ofWord ((live.write 0x49 mode.toWord).read 0x49) = mode
  rw [RegisterFile.read_write, if_pos (by decide), ShadowMode.ofWord_toWord]

omit [Host η] in
theorem forall_mem_zip (p : Nat → Prop) (h : ∀ w ∈ writes, p w.1) (arguments : List Word) :
    ∀ w ∈ (writes.map Prod.fst).zip arguments, p w.1 := by
  intro w hw
  obtain ⟨v, hv, hmethod⟩ := List.mem_map.mp (List.of_mem_zip hw).1
  exact hmethod ▸ h v hv

/-- In replay the arguments of writes do not count. -/
theorem map_brought_replay {core : Core} (hmode : core.live.shadowMode = .replay) {arguments : List Word}
    (hlength : arguments.length = writes.length) :
    ((writes.map Prod.fst).zip arguments).map (brought core) = core.shadow.replay writes := by
  have hbrought : brought core = (fun method => (method, core.shadow.read method)) ∘ Prod.fst := by
    funext w
    simp [brought, RegisterCall.landed, RegisterCall.on, hmode]
  rw [hbrought, ← List.map_map, List.map_fst_zip (by simp [hlength]), List.map_map]
  rfl

theorem map_brought_passthrough {core : Core} (hmode : core.live.shadowMode = .passthrough) :
    writes.map (brought core) = writes := by
  have hbrought : brought core = id := by
    funext w
    simp [brought, RegisterCall.landed, RegisterCall.on, hmode]
  rw [hbrought, List.map_id]

theorem forM_write_stage (hrouted : ∀ w ∈ writes, ¬IsControl w.1) (core : Core) (host : η) :
    ((0x49, 1) :: writes).forM (fun w => write w.1 w.2) (core, host) = .ok ()
      ({ core with live := core.live.write 0x49 1, shadow := core.shadow.writeAll writes }, host) := by
  rw [forM_cons_apply, write_shadowMode]
  exact forM_write_filtered hrouted (shadowMode_write core.live .trackWithFilter)

theorem live_forM_replay {arguments : List Word} (hrouted : ∀ w ∈ writes, ¬IsControl w.1)
    (hlength : arguments.length = writes.length) {core : Core} {host : η} {t : Core × η}
    (h : ((0x49, 1) :: writes ++ (0x49, 3) :: (writes.map Prod.fst).zip arguments).forM (fun w => write w.1 w.2)
      (core, host) = .ok () t) :
    t.1.live = ((core.live.write 0x49 1).write 0x49 3).landAll ((core.shadow.writeAll writes).replay writes) := by
  let core' : Core :=
    { core with live := (core.live.write 0x49 1).write 0x49 3, shadow := core.shadow.writeAll writes }
  have hmode : core'.live.shadowMode = .replay := shadowMode_write _ .replay
  rw [forM_append_apply, forM_write_stage hrouted] at h
  dsimp only at h
  rw [forM_cons_apply, write_shadowMode] at h
  have hlive := forM_write_untracked (s := (core', host)) (forall_mem_zip (¬IsControl ·) hrouted arguments) h
    (Or.inr hmode)
  rwa [map_brought_replay hmode hlength] at hlive

theorem live_forM_direct (hrouted : ∀ w ∈ writes, ¬IsControl w.1) {core : Core} {host : η} {t : Core × η}
    (h : ((0x49, 2) :: writes).forM (fun w => write w.1 w.2) (core, host) = .ok () t) :
    t.1.live = (core.live.write 0x49 2).landAll writes := by
  let core' : Core := { core with live := core.live.write 0x49 2 }
  have hmode : core'.live.shadowMode = .passthrough := shadowMode_write _ .passthrough
  rw [forM_cons_apply, write_shadowMode] at h
  have hlive := forM_write_untracked (s := (core', host)) hrouted h (Or.inl hmode)
  rwa [map_brought_passthrough hmode] at hlive

/-- Staging writes leaves all live registers but the shadow mode alone and asks nothing of the host. Replaying them
    afterwards, with any arguments, leaves the live registers that the writes leave when they are made at once, again
    all but the shadow mode, if none of the calls fails. -/
theorem live_stage_replay {arguments : List Word} (hfile : ∀ w ∈ writes, w.1 < registerCount)
    (hrouted : ∀ w ∈ writes, ¬IsControl w.1) (hlength : arguments.length = writes.length)
    {s : Threed × Traced η} (hpending : s.1.pending = none) (flags flags' : Nat → Bool) :
    (∃ staged : Threed, makeAll (marked flags ((0x49, 1) :: writes)) s = .ok () (staged, s.2) ∧
      ∀ o ≠ 0x49, staged.core.live.read o = s.1.core.live.read o) ∧
    ∀ t u, makeAll (marked flags ((0x49, 1) :: writes ++ (0x49, 3) :: (writes.map Prod.fst).zip arguments)) s =
        .ok () t →
      makeAll (marked flags' ((0x49, 2) :: writes)) s = .ok () u →
      ∀ o ≠ 0x49, t.1.core.live.read o = u.1.core.live.read o := by
  obtain ⟨⟨core, pending, interpreter⟩, host⟩ := s
  cases hpending
  have hother : ∀ (live : RegisterFile) (value : Word), ∀ o ≠ 0x49, (live.write 0x49 value).read o = live.read o := by
    intro live value o ho
    rw [RegisterFile.read_write, if_neg (fun h => ho h.1.symm)]
  have hwith : ∀ value : Word, ∀ w ∈ (0x49, value) :: writes, w.1 < registerCount := fun _ =>
    List.forall_mem_cons.mpr ⟨(by decide : 0x49 < registerCount), hfile⟩
  have hagain : ∀ w ∈ (0x49, 3) :: (writes.map Prod.fst).zip arguments, w.1 < registerCount :=
    List.forall_mem_cons.mpr ⟨(by decide : 0x49 < registerCount), forall_mem_zip (· < registerCount) hfile arguments⟩
  constructor
  · have hstage := makeAll_marked (hwith 1) flags interpreter (core, host)
    rw [forM_write_stage hrouted] at hstage
    exact ⟨_, hstage, hother core.live 1⟩
  · intro t u hreplay hdirect o ho
    obtain ⟨t', ht, rfl⟩ := exists_of_makeAll_marked (s := (core, host))
      (List.forall_mem_append.mpr ⟨hwith 1, hagain⟩) hreplay
    obtain ⟨u', hu, rfl⟩ := exists_of_makeAll_marked (s := (core, host)) (hwith 2) hdirect
    show t'.1.live.read o = u'.1.live.read o
    rw [live_forM_replay hrouted hlength ht, live_forM_direct hrouted hu]
    refine RegisterFile.read_landAll_replay hfile core.shadow (Or.inr ?_)
    rw [hother _ _ o ho, hother _ _ o ho, hother _ _ o ho]

end

theorem makeAll_recorded_nullSink {μ : Type} [GuestMemory μ] {requests : List Request}
    (interpreter : Mme.Interpreter) (s : Core × Traced (Board NullSink μ))
    (hregister : ∀ r ∈ requests, r.method < registerCount ∧ r.method ≠ 0x6C3) :
    ∃ t, makeAll requests (idle interpreter s) = .ok () t := by
  obtain ⟨t, ht⟩ := makeAll_nullSink hregister interpreter (s.1, s.2.host)
  have hforget := Traced.hostMap.makeAll requests (idle interpreter s)
  cases hrecorded : makeAll requests (idle interpreter s) with
  | ok _ u => exact ⟨u, rfl⟩
  | error fault u =>
    rw [hrecorded] at hforget
    exact absurd (ht.symm.trans hforget) (by simp)

/-- A register that is staged twice, the fourth firmware call and the register of its result, a clear and a
    syncpoint. -/
theorem live_stage_replay_firmware :
    let writes : List (Nat × Word) := [(0x680, 7), (0x8C4, 5), (0xD00, 4), (0x680, 9), (0x674, 1), (0xB2, 0x100001)]
    let arguments : List Word := [0, 1, 2, 3, 4, 5]
    let start := (Threed.new 0 fun _ => 0, (⟨⟨⟨⟩, Ram.zeros 0, {}⟩, []⟩ : Traced (Board NullSink Ram)))
    ∃ t u, makeAll (marked (fun _ => true) ((0x49, 1) :: writes ++ (0x49, 3) :: (writes.map Prod.fst).zip arguments))
        start = .ok () t ∧
      makeAll (marked (fun _ => false) ((0x49, 2) :: writes)) start = .ok () u ∧
      ∀ o ≠ 0x49, t.1.core.live.read o = u.1.core.live.read o := by
  intro writes arguments start
  obtain ⟨t, ht⟩ : ∃ t, makeAll (marked (fun _ => true)
      ((0x49, 1) :: writes ++ (0x49, 3) :: (writes.map Prod.fst).zip arguments)) start = .ok () t :=
    makeAll_recorded_nullSink { stepLimit := 0 } (start.1.core, start.2) (by decide)
  obtain ⟨u, hu⟩ : ∃ u, makeAll (marked (fun _ => false) ((0x49, 2) :: writes)) start = .ok () u :=
    makeAll_recorded_nullSink { stepLimit := 0 } (start.1.core, start.2) (by decide)
  have hfile : ∀ w ∈ writes, w.1 < registerCount := by decide
  have hrouted : ∀ w ∈ writes, ¬IsControl w.1 := by decide
  have hlength : arguments.length = writes.length := rfl
  obtain ⟨-, hlive⟩ := live_stage_replay hfile hrouted hlength (show start.1.pending = none from rfl)
    (fun _ => true) fun _ => false
  exact ⟨t, u, ht, hu, hlive t u ht hu⟩

end Maxwell.Threed
