import Maxwell.Proofs.Threed.Timeline

/-! Calls of one packet: the final one is marked, and no other. Whatever they are made to, nothing is pending after them
    if nothing was before. If all of them belong to one macro, they run it once, with their arguments. -/

namespace Maxwell.Threed

/-- Calls with the words of a list, word `i` to `method i`, of which the final one is marked. -/
def sealedCalls (method : Nat → Nat) (words : List Word) : List Request :=
  words.mapIdx fun i word => ⟨method i, word, i + 1 == words.length⟩

theorem sealedCalls_singleton (method : Nat → Nat) (word : Word) :
    sealedCalls method [word] = [⟨method 0, word, true⟩] := rfl

theorem sealedCalls_cons_cons (method : Nat → Nat) (word next : Word) (words : List Word) :
    sealedCalls method (word :: next :: words) =
      ⟨method 0, word, false⟩ :: sealedCalls (fun i => method (i + 1)) (next :: words) := by
  simp [sealedCalls]

/-! ### What is pending -/

theorem pendingFrom_sealedCalls (method : Nat → Nat) {pending : Option Invocation} {words : List Word}
    (h : words = [] → pending = none) : pendingFrom pending (sealedCalls method words) = none := by
  induction words generalizing method pending with
  | nil => exact h rfl
  | cons word words ih =>
    cases words with
    | nil =>
      rw [sealedCalls_singleton]
      simp [pendingFrom, Request.pendingAfter]
    | cons next words =>
      rw [sealedCalls_cons_cons, pendingFrom, List.foldl_cons]
      exact ih _ fun h => absurd h (List.cons_ne_nil next words)

/-! ### Macros -/

/-- The two methods of a macro. -/
theorem slotOf_eq_ofNat {method number : Nat} (h : method = 0xE00 + 2 * number ∨ method = 0xE01 + 2 * number) :
    slotOf method = .ofNat number := by
  have hnumber : (method - registerCount) / 2 = number := by
    unfold registerCount
    omega
  rw [slotOf, hnumber]

theorem isParameter_odd (number : Nat) : isParameter (0xE01 + 2 * number) = true := by
  unfold isParameter registerCount
  rw [beq_iff_eq]
  omega

/-- A macro call that interrupts nothing collects its argument, and runs what is collected if it is marked. -/
theorem timelineFrom_cons_collected {r : Request} (hr : registerCount ≤ r.method) {pending : Option Invocation}
    (hpending : r.interrupted? pending = none) (start : Nat) (requests : List Request) :
    timelineFrom start pending (r :: requests) =
      if r.last then (start, .invoke (r.collected pending)) :: timelineFrom (start + 1) none requests
      else timelineFrom (start + 1) (some (r.collected pending)) requests := by
  have hlt : ¬r.method < registerCount := Nat.not_lt.mpr hr
  cases hlast : r.last <;>
    simp [timelineFrom, Request.acts, hpending, Request.ownActs, Request.pendingAfter, hlt, hlast]

variable {slot : Mme.Slot} {words : List Word}

/-- Calls that add to an invocation, the final one of which runs it. -/
theorem timelineFrom_sealedCalls_continued {method : Nat → Nat} (hmethod : ∀ i, registerCount ≤ method i)
    (hslot : ∀ i, slotOf (method i) = slot) (hparameter : ∀ i, isParameter (method i) = true) (hwords : words ≠ [])
    (start : Nat) (earlier : List Word) :
    timelineFrom start (some ⟨slot, earlier.toArray⟩) (sealedCalls method words) =
      [(start + (words.length - 1), .invoke ⟨slot, (earlier ++ words).toArray⟩)] := by
  induction words generalizing method start earlier with
  | nil => exact absurd rfl hwords
  | cons word words ih =>
    have hcontinues : ∀ last, Request.continues ⟨method 0, word, last⟩ ⟨slot, earlier.toArray⟩ = true := by
      intro last
      simp [Request.continues, hmethod 0, hparameter 0, hslot 0]
    have hinterrupted : ∀ last, Request.interrupted? ⟨method 0, word, last⟩ (some ⟨slot, earlier.toArray⟩) = none := by
      intro last
      simp [Request.interrupted?, Option.filter, hcontinues]
    have hcollected : ∀ last, Request.collected ⟨method 0, word, last⟩ (some ⟨slot, earlier.toArray⟩) =
        ⟨slot, (earlier ++ [word]).toArray⟩ := by
      intro last
      simp [Request.collected, Option.filter, hcontinues]
    cases words with
    | nil =>
      rw [sealedCalls_singleton, timelineFrom_cons_collected (hmethod 0) (hinterrupted true), hcollected, if_pos rfl]
      rfl
    | cons next words =>
      rw [sealedCalls_cons_cons, timelineFrom_cons_collected (hmethod 0) (hinterrupted false), hcollected,
        if_neg Bool.false_ne_true, ih (fun i => hmethod (i + 1)) (fun i => hslot (i + 1))
          (fun i => hparameter (i + 1)) (List.cons_ne_nil next words), List.append_assoc, List.singleton_append]
      simp only [List.length_cons]
      congr 2
      omega

/-- Calls of one macro, all but the first of them to its odd method, run it once, with all their arguments. -/
theorem timelineFrom_sealedCalls {method : Nat → Nat} (hmethod : ∀ i, registerCount ≤ method i)
    (hslot : ∀ i, slotOf (method i) = slot) (hparameter : ∀ i, isParameter (method (i + 1)) = true)
    (hwords : words ≠ []) (start : Nat) :
    timelineFrom start none (sealedCalls method words) =
      [(start + (words.length - 1), .invoke ⟨slot, words.toArray⟩)] := by
  cases words with
  | nil => exact absurd rfl hwords
  | cons word words =>
    have hcollected : ∀ last, Request.collected ⟨method 0, word, last⟩ none = ⟨slot, [word].toArray⟩ := by
      intro last
      simp [Request.collected, hslot 0]
    cases words with
    | nil =>
      rw [sealedCalls_singleton, timelineFrom_cons_collected (hmethod 0) rfl, hcollected, if_pos rfl]
      rfl
    | cons next words =>
      rw [sealedCalls_cons_cons, timelineFrom_cons_collected (hmethod 0) rfl, hcollected, if_neg Bool.false_ne_true,
        timelineFrom_sealedCalls_continued (fun i => hmethod (i + 1)) (fun i => hslot (i + 1)) hparameter
          (List.cons_ne_nil next words), List.singleton_append]
      simp only [List.length_cons]
      congr 2
      omega

/-! ### On the engine -/

section
variable {η : Type} [Host η]

theorem pending_makeAll {requests : List Request} {s : Threed × η}
    (h : pendingFrom s.1.pending requests = none) : (stateOf (makeAll requests s)).1.pending = none := by
  obtain ⟨⟨core, pending, interpreter⟩, host⟩ := s
  rw [makeAll_eq requests 0]
  cases ((timelineFrom 0 pending requests).map Prod.snd).forM Act.perform (interpreter, (core, host)) with
  | ok _ t => exact h
  | error fault t => rfl

theorem makeAll_sealedCalls {method : Nat → Nat} (hmethod : ∀ i, registerCount ≤ method i)
    (hslot : ∀ i, slotOf (method i) = slot) (hparameter : ∀ i, isParameter (method (i + 1)) = true)
    (hwords : words ≠ []) (interpreter : Mme.Interpreter) (s : Core × η) :
    makeAll (sealedCalls method words) (idle interpreter s) =
      through idleAfter (settled (invoke ⟨slot, words.toArray⟩ (interpreter, s))) := by
  obtain ⟨core, host⟩ := s
  have htimeline := timelineFrom_sealedCalls hmethod hslot hparameter hwords 0
  have hpending : pendingFrom none (sealedCalls method words) = none := pendingFrom_sealedCalls method fun _ => rfl
  have hperform : Act.perform (.invoke ⟨slot, words.toArray⟩) (interpreter, (core, host)) =
      settled (invoke ⟨slot, words.toArray⟩ (interpreter, (core, host))) := rfl
  rw [idle, makeAll_eq _ 0, htimeline, hpending, List.map_singleton, forM_singleton_apply, hperform]
  cases invoke ⟨slot, words.toArray⟩ (interpreter, (core, host)) <;> rfl

end

end Maxwell.Threed
