import Maxwell.Memory.Ram
import Maxwell.Proofs.Mme.Upload
import Maxwell.Proofs.Register.Writes
import Maxwell.Proofs.Threed.Sealed
import Maxwell.Proofs.Threed.Transport

/-! Macros that are uploaded, bound and called. The calls that install a macro change the store and the four registers
    they are made to, in every shadow mode, and nothing outside the engine. The calls that give it its arguments then
    are one run of its code from where it was put, which nothing that the interpreter ran before has a part in. -/

namespace Maxwell.Threed

/-! ### Installing -/

/-- The writes that put code into the store from `offset` on and bind a slot to it. -/
def installation (offset : Word) (program : List Word) (slot : Word) : List (Nat × Word) :=
  (0x45, offset) :: (program.map (0x46, ·) ++ [(0x47, slot), (0x48, offset)])

/-- The store after an installation. -/
def installedStore (store : Mme.Store) (offset : Word) (program : List Word) (slot : Word) : Mme.Store :=
  (((store.setCursor offset).uploadAll program).setStartCursor slot).bindNext offset

/-- Code is in its place and its slot is bound, and no other code, slot or register is touched, but for the four
    registers that the code and the slot were given to. -/
structure Installed (offset : Word) (program : List Word) (slot : Word) (before after : Core) : Prop where
  code : ∀ i (hi : i < program.length), after.store.code (offset.toNat + i) = program[i]
  otherCode : ∀ x, (∀ i < program.length, (offset.toNat + i) % 0x2000 ≠ x % 0x2000) →
    after.store.code x = before.store.code x
  entry : ∀ x, x % 128 = slot.toNat % 128 → after.store.entry x = offset
  otherEntry : ∀ x, x % 128 ≠ slot.toNat % 128 → after.store.entry x = before.store.entry x
  live : ∀ o, ¬(0x45 ≤ o ∧ o ≤ 0x48) → after.live.read o = before.live.read o
  shadow : after.shadow = before.shadow
  timer : after.timer = before.timer

section
variable {offset slot : Word} {program : List Word}

theorem code_installedStore (s : Mme.Store) (offset : Word) (program : List Word) (slot : Word) (x : Nat) :
    (installedStore s offset program slot).code x = ((s.setCursor offset).uploadAll program).code x := rfl

theorem entry_installedStore (s : Mme.Store) (offset : Word) (program : List Word) (slot : Word) (x : Nat) :
    (installedStore s offset program slot).entry x = if slot.toNat % 128 = x % 128 then offset else s.entry x := by
  have hentries : ((s.setCursor offset).uploadAll program).entries = s.entries := Mme.Store.entries_uploadAll _ program
  simp only [installedStore, Mme.Store.entry, Mme.Store.bindNext, Mme.Store.setStartCursor, hentries, Fin.getElem_fin,
    Vector.getElem_set]
  rfl

theorem installed (hprogram : program.length ≤ 0x2000) (core : Core) (live : RegisterFile)
    (hlive : ∀ o, ¬(0x45 ≤ o ∧ o ≤ 0x48) → live.read o = core.live.read o) :
    Installed offset program slot core { core with live, store := installedStore core.store offset program slot } where
  code i hi := by
    have hplace : (offset.toNat + i) % 0x2000 = ((core.store.setCursor offset).cursor.val + i) % 0x2000 := by
      show _ = (offset.toNat % 0x2000 + i) % 0x2000
      omega
    dsimp only
    rw [code_installedStore, Mme.Store.code_congr hplace]
    refine Mme.Store.code_uploadAll hi fun j hj hij => ?_
    omega
  otherCode x hx := by
    dsimp only
    rw [code_installedStore]
    refine Mme.Store.code_uploadAll_of_ne fun i hi => ?_
    have hother := hx i hi
    show (offset.toNat % 0x2000 + i) % 0x2000 ≠ x % 0x2000
    omega
  entry x hx := by
    dsimp only
    rw [entry_installedStore, if_pos hx.symm]
  otherEntry x hx := by
    dsimp only
    rw [entry_installedStore, if_neg (fun h => hx h.symm)]
  live := hlive
  shadow := rfl
  timer := rfl

end

section
variable {η : Type} [Host η]

/-- A core after an upload of code. -/
def Core.uploaded (core : Core) (program : List Word) : Core :=
  { core with live := core.live.writeAll (program.map (0x46, ·)), store := core.store.uploadAll program }

theorem Core.uploaded_nil (core : Core) : core.uploaded [] = core := by
  simp only [uploaded, List.map_nil, RegisterFile.writeAll, Mme.Store.uploadAll, List.foldl_nil]

theorem Core.uploaded_append (core : Core) (program rest : List Word) :
    core.uploaded (program ++ rest) = (core.uploaded program).uploaded rest := by
  simp only [uploaded, List.map_append, RegisterFile.writeAll, Mme.Store.uploadAll, List.foldl_append]

theorem forM_write_upload (program : List Word) (core : Core) (host : η) :
    (program.map (0x46, ·)).forM (fun w => write w.1 w.2) (core, host) = .ok () (core.uploaded program, host) := by
  induction program generalizing core with
  | nil =>
    rw [core.uploaded_nil]
    rfl
  | cons word program ih =>
    have hwrite : write 0x46 word (core, host) = .ok () (core.uploaded [word], host) := rfl
    rw [List.map_cons, forM_cons_apply, hwrite]
    exact (ih _).trans (by rw [← Core.uploaded_append, List.singleton_append])

/-- Installing asks nothing of the host, and cannot fail. -/
theorem forM_write_installation (offset : Word) (program : List Word) (slot : Word) (core : Core) (host : η) :
    (installation offset program slot).forM (fun w => write w.1 w.2) (core, host) =
      .ok () ({ core with
        live := core.live.writeAll (installation offset program slot),
        store := installedStore core.store offset program slot }, host) := by
  have hpointer : write 0x45 offset (core, host) = .ok ()
      ({ core with live := core.live.write 0x45 offset, store := core.store.setCursor offset }, host) := rfl
  rw [installation, forM_cons_apply, hpointer]
  dsimp only
  rw [forM_append_apply, forM_write_upload]
  simp only [Core.uploaded, RegisterFile.writeAll, List.foldl_cons, List.foldl_append]
  rfl

/-! ### Calling -/

/-- The methods of the arguments of a macro: the even one for the first, and the odd one for the others. -/
def argumentMethod (number i : Nat) : Nat := if i = 0 then 0xE00 + 2 * number else 0xE01 + 2 * number

theorem argumentMethod_cases (number i : Nat) :
    argumentMethod number i = 0xE00 + 2 * number ∨ argumentMethod number i = 0xE01 + 2 * number := by
  unfold argumentMethod
  split
  · exact .inl rfl
  · exact .inr rfl

/-- The calls that give a bound macro its arguments run it as a new interpreter does, whatever ran on the one of the
    engine before. -/
theorem makeAll_argumentCalls {number : Nat} {arguments : List Word} (harguments : arguments ≠ []) {core : Core}
    {entry : Word} (hentry : core.store.entry (Mme.Slot.ofNat number) = entry) (interpreter : Mme.Interpreter)
    (host : η) :
    makeAll (sealedCalls (argumentMethod number) arguments) (idle interpreter (core, host)) =
      through idleAfter (settled (Mme.execute entry arguments
        (({ stepLimit := interpreter.stepLimit } : Mme.Interpreter), (core, host)))) := by
  have hmethod : ∀ i, registerCount ≤ argumentMethod number i := by
    intro i
    have hcases := argumentMethod_cases number i
    unfold registerCount
    omega
  rw [makeAll_sealedCalls hmethod (fun i => slotOf_eq_ofNat (argumentMethod_cases number i))
    (fun _ => isParameter_odd number) harguments, invoke, hentry, Mme.execute_eq_new]

/-- The calls that upload a program and bind a slot to it, made to an engine with nothing pending whatever ran on it
    before, succeed, ask nothing of the host, and install the program. They leave the interpreter as the latest run left
    it. Giving arguments to the slot, under any number that it goes by, then has the effect of one run of the program on
    these arguments, on a new interpreter with the step limit of the engine. -/
theorem makeAll_install {program : List Word} (hprogram : program.length ≤ 0x2000) (offset slot : Word)
    {s : Threed × Traced η} (hpending : s.1.pending = none) (flags : Nat → Bool) :
    ∃ core, makeAll (marked flags (installation offset program slot)) s = .ok () (idle s.1.interpreter (core, s.2)) ∧
      Installed offset program slot s.1.core core ∧
      ∀ number arguments, number % 128 = slot.toNat % 128 → arguments ≠ [] →
        makeAll (sealedCalls (argumentMethod number) arguments) (idle s.1.interpreter (core, s.2)) =
          through idleAfter (settled (Mme.execute offset arguments
            (({ stepLimit := s.1.stepLimit } : Mme.Interpreter), (core, s.2)))) := by
  obtain ⟨⟨core, pending, interpreter⟩, host⟩ := s
  cases hpending
  have hmethods : ∀ w ∈ installation offset program slot, 0x45 ≤ w.1 ∧ w.1 ≤ 0x48 := by
    intro w hw
    simp only [installation, List.mem_cons, List.mem_append, List.mem_map, List.not_mem_nil, or_false] at hw
    rcases hw with rfl | ⟨_, -, rfl⟩ | rfl | rfl <;> simp
  have hfile : ∀ w ∈ installation offset program slot, w.1 < registerCount := by
    intro w hw
    have hlast := (hmethods w hw).2
    unfold registerCount
    omega
  have hinstalled : Installed offset program slot core
      { core with
        live := core.live.writeAll (installation offset program slot),
        store := installedStore core.store offset program slot } := by
    refine installed hprogram core _ fun o ho => RegisterFile.read_writeAll_of_ne (fun w hw hmethod => ho ?_) core.live
    exact hmethod ▸ hmethods w hw
  refine ⟨_, ?_, hinstalled, fun number arguments hnumber harguments => ?_⟩
  · have hmake := makeAll_marked hfile flags interpreter (core, host)
    rwa [forM_write_installation] at hmake
  · refine makeAll_argumentCalls harguments (hinstalled.entry _ ?_) interpreter host
    show number % 128 % 128 = slot.toNat % 128
    omega

end

/-- A program that sends its two arguments to the registers 0x680 and 0x681. It is put across the end of code memory,
    and its slot is called under another number, on an engine whose interpreter was stopped before a delay slot, with
    another macro's registers, carry, method address and arguments still in it. -/
theorem makeAll_install_across :
    let program : List Word := [0x05A00221, 0x00000B41, 0x00000301, 0x00001CC1, 0x00000011]
    let leftover : Mme.Machine :=
      ⟨9, .branchSlot 4, #v[0, 1, 2, 3, 4, 5, 6, 7], true, ⟨0x45, 3⟩, [0xDEAD, 0xBEEF]⟩
    let new := Threed.new 100 fun _ => 0
    let start := ({ new with interpreter := { new.interpreter with machine := leftover } },
      (⟨⟨⟨⟩, Ram.zeros 0, {}⟩, []⟩ : Traced (Board NullSink Ram)))
    program.length ≤ 0x2000 ∧ start.1.pending = none ∧
    ∃ core, makeAll (marked (fun _ => true) (installation 0x1FFE program 5)) start =
        .ok () (idle ⟨100, leftover⟩ (core, start.2)) ∧
      Installed 0x1FFE program 5 start.1.core core ∧ 133 % 128 = (5 : Word).toNat % 128 ∧
      makeAll (sealedCalls (argumentMethod 133) [7, 9]) (idle ⟨100, leftover⟩ (core, start.2)) =
        through idleAfter
          (settled (Mme.execute 0x1FFE [7, 9] (({ stepLimit := 100 } : Mme.Interpreter), (core, start.2)))) := by
  intro program leftover new start
  obtain ⟨core, hmake, hinstalled, hcalls⟩ := makeAll_install (show program.length ≤ 0x2000 by decide) 0x1FFE 5
    (show start.1.pending = none from rfl) fun _ => true
  exact ⟨by decide, rfl, core, hmake, hinstalled, by decide, hcalls 133 [7, 9] (by decide) (by decide)⟩

end Maxwell.Threed
