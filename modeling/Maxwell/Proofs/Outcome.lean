/-! Outcomes of work that can fail: a value or a fault, each with the state it left behind. What follows a
    fault is not done, so a list of operations ends at the first of them that fails. -/

namespace Maxwell

variable {ε σ τ υ ω α β : Type}

/-! ### One operation after another -/

theorem bind_apply (x : EStateM ε σ α) (f : α → EStateM ε σ β) (s : σ) :
    (x >>= f) s = match x s with
      | .ok a s => f a s
      | .error fault s => .error fault s := rfl

theorem bind_ok {x : EStateM ε σ α} {a : α} {s t : σ} (h : x s = .ok a t) (f : α → EStateM ε σ β) :
    (x >>= f) s = f a t := by
  rw [bind_apply, h]

theorem bind_eq_ok {x : EStateM ε σ α} {f : α → EStateM ε σ β} {b : β} {s u : σ} :
    (x >>= f) s = .ok b u ↔ ∃ a t, x s = .ok a t ∧ f a t = .ok b u := by
  rw [bind_apply]
  cases x s with
  | ok a t =>
    constructor
    · exact fun h => ⟨a, t, rfl, h⟩
    · rintro ⟨_, _, h, hf⟩
      cases h
      exact hf
  | error fault t => simp

theorem forM_nil_apply (f : α → EStateM ε σ Unit) (s : σ) : ([] : List α).forM f s = .ok () s := rfl

theorem forM_cons_apply (f : α → EStateM ε σ Unit) (a : α) (l : List α) (s : σ) :
    (a :: l).forM f s = match f a s with
      | .ok _ s => l.forM f s
      | .error fault s => .error fault s := by
  show (f a >>= fun _ => l.forM f) s = _
  rw [bind_apply]
  cases f a s <;> rfl

theorem forM_append_apply (f : α → EStateM ε σ Unit) (l₁ l₂ : List α) (s : σ) :
    (l₁ ++ l₂).forM f s = match l₁.forM f s with
      | .ok _ s => l₂.forM f s
      | .error fault s => .error fault s := by
  induction l₁ generalizing s with
  | nil => rfl
  | cons a l₁ ih =>
    rw [List.cons_append, forM_cons_apply, forM_cons_apply]
    cases f a s with
    | ok _ t => exact ih t
    | error fault t => rfl

theorem forM_cons_eq_ok {f : α → EStateM ε σ Unit} {a : α} {l : List α} {s u : σ} :
    (a :: l).forM f s = .ok () u ↔ ∃ t, f a s = .ok () t ∧ l.forM f t = .ok () u := by
  rw [forM_cons_apply]
  cases f a s <;> simp

theorem forM_append_eq_ok {f : α → EStateM ε σ Unit} {l₁ l₂ : List α} {s u : σ} :
    (l₁ ++ l₂).forM f s = .ok () u ↔ ∃ t, l₁.forM f s = .ok () t ∧ l₂.forM f t = .ok () u := by
  rw [forM_append_apply]
  cases l₁.forM f s <;> simp

theorem forM_append_ok {f : α → EStateM ε σ Unit} {l₁ : List α} {s t : σ} (h : l₁.forM f s = .ok () t)
    (l₂ : List α) : (l₁ ++ l₂).forM f s = l₂.forM f t := by
  rw [forM_append_apply, h]

/-- A list of operations fails at the first that does. -/
theorem forM_eq_error {f : α → EStateM ε σ Unit} {l : List α} {s t : σ} {fault : ε} :
    l.forM f s = .error fault t ↔ ∃ before a after u, l = before ++ a :: after ∧ before.forM f s = .ok () u ∧
      f a u = .error fault t := by
  constructor
  · intro h
    induction l generalizing s with
    | nil => cases h
    | cons a l ih =>
      rw [forM_cons_apply] at h
      cases ha : f a s with
      | error _ u =>
        rw [ha] at h
        cases h
        exact ⟨[], a, l, s, rfl, rfl, ha⟩
      | ok _ u =>
        rw [ha] at h
        obtain ⟨before, b, after, v, rfl, hbefore, hb⟩ := ih h
        refine ⟨a :: before, b, after, v, rfl, ?_, hb⟩
        rw [forM_cons_apply, ha]
        exact hbefore
  · rintro ⟨before, a, after, u, rfl, hbefore, ha⟩
    rw [forM_append_ok hbefore, forM_cons_apply, ha]

theorem forM_singleton_apply (f : α → EStateM ε σ Unit) (a : α) (s : σ) : [a].forM f s = f a s := by
  rw [forM_cons_apply]
  cases f a s <;> rfl

theorem forM_congr_apply {f g : α → EStateM ε σ Unit} {l : List α} (h : ∀ a ∈ l, ∀ s, f a s = g a s) (s : σ) :
    l.forM f s = l.forM g s := by
  induction l generalizing s with
  | nil => rfl
  | cons a l ih =>
    rw [forM_cons_apply, forM_cons_apply, h a List.mem_cons_self s]
    cases g a s with
    | ok _ t => exact ih (fun b hb => h b (List.mem_cons_of_mem _ hb)) t
    | error fault t => rfl

/-- Operations that do nothing can be left out. -/
theorem forM_filter_apply {f : α → EStateM ε σ Unit} {p : α → Bool} (h : ∀ a, p a = false → ∀ s, f a s = .ok () s)
    (l : List α) (s : σ) : (l.filter p).forM f s = l.forM f s := by
  induction l generalizing s with
  | nil => rfl
  | cons a l ih =>
    cases ha : p a with
    | true =>
      rw [List.filter_cons_of_pos ha, forM_cons_apply, forM_cons_apply]
      cases f a s with
      | ok _ t => exact ih t
      | error fault t => rfl
    | false => rw [List.filter_cons_of_neg (by simp [ha]), forM_cons_apply, h a ha, ih]

/-! ### The state of an outcome -/

/-- An outcome with its state seen through `f`. -/
def through (f : σ → τ) : EStateM.Result ε σ α → EStateM.Result ε τ α
  | .ok a s => .ok a (f s)
  | .error fault s => .error fault (f s)

def settled : EStateM.Result ε σ α → EStateM.Result ε σ Unit
  | .ok _ s => .ok () s
  | .error fault s => .error fault s

def stateOf : EStateM.Result ε σ α → σ
  | .ok _ s => s
  | .error _ s => s

@[simp] theorem through_ok (f : σ → τ) (a : α) (s : σ) :
    through f (.ok a s : EStateM.Result ε σ α) = .ok a (f s) := rfl

@[simp] theorem through_error (f : σ → τ) (fault : ε) (s : σ) :
    through f (.error fault s : EStateM.Result ε σ α) = .error fault (f s) := rfl

@[simp] theorem stateOf_through (f : σ → τ) (r : EStateM.Result ε σ α) : stateOf (through f r) = f (stateOf r) := by
  cases r <;> rfl

theorem through_through (f : σ → τ) (g : τ → υ) (r : EStateM.Result ε σ α) :
    through g (through f r) = through (g ∘ f) r := by
  cases r <;> rfl

theorem through_eq_ok {f : σ → τ} {r : EStateM.Result ε σ α} {a : α} {t : τ} :
    through f r = .ok a t ↔ ∃ s, r = .ok a s ∧ f s = t := by
  cases r <;> simp [and_assoc]

theorem through_eq_error {f : σ → τ} {r : EStateM.Result ε σ α} {fault : ε} {t : τ} :
    through f r = .error fault t ↔ ∃ s, r = .error fault s ∧ f s = t := by
  cases r <;> simp [and_assoc]

theorem exists_through_eq_error {f : σ → τ} {r : EStateM.Result ε σ α} {fault : ε} :
    (∃ t, through f r = .error fault t) ↔ ∃ s, r = .error fault s := by
  cases r <;> simp

/-! ### Laws of outcomes

    A law relates the state in which work begins to the outcome in which it ends. If it holds of no work at
    all and of one piece of work after another, it holds of a list of operations as soon as it holds of each. -/

structure Sequential (R : σ → EStateM.Result ε σ Unit → Prop) : Prop where
  done : ∀ s, R s (.ok () s)
  next : ∀ {s t r}, R s (.ok () t) → R t r → R s r

namespace Sequential
variable {R : σ → EStateM.Result ε σ Unit → Prop} (hR : Sequential R)
include hR

theorem bind {x : EStateM ε σ Unit} {f : Unit → EStateM ε σ Unit} {s : σ} (hx : R s (x s))
    (hf : ∀ t, R t (f () t)) : R s ((x >>= f) s) := by
  rw [bind_apply]
  cases h : x s with
  | ok _ t =>
    rw [h] at hx
    exact hR.next hx (hf t)
  | error fault t => rwa [h] at hx

theorem forM {f : α → EStateM ε σ Unit} {l : List α} (hf : ∀ a ∈ l, ∀ s, R s (f a s)) (s : σ) :
    R s (l.forM f s) := by
  induction l generalizing s with
  | nil => exact hR.done s
  | cons a l ih =>
    have ha : R s (f a s) := hf a List.mem_cons_self s
    rw [forM_cons_apply]
    cases h : f a s with
    | ok _ t =>
      rw [h] at ha
      exact hR.next ha (ih (fun b hb => hf b (List.mem_cons_of_mem _ hb)) t)
    | error fault t => rwa [h] at ha

end Sequential

/-- Keeping a property of states is a law, whether the work fails or not. -/
theorem sequential_keeps (P : σ → Prop) :
    Sequential fun s (r : EStateM.Result ε σ Unit) => P s → P (stateOf r) where
  done _ := id
  next h₁ h₂ h := h₂ (h₁ h)

/-- So is a relation of states that leads from each state to itself and from one step on to the next. -/
theorem sequential_leads {Q : σ → σ → Prop} (hrefl : ∀ s, Q s s) (htrans : ∀ {s t u}, Q s t → Q t u → Q s u) :
    Sequential fun s (r : EStateM.Result ε σ Unit) => Q s (stateOf r) where
  done := hrefl
  next := htrans

/-! ### Work seen through a map -/

/-- Work on two kinds of state that is the same work, seen through a map from one to the other. -/
def Commutes (f : σ → τ) (x : EStateM ε σ α) (y : EStateM ε τ α) : Prop := ∀ s, y (f s) = through f (x s)

namespace Commutes
variable {f : σ → τ}

theorem pure (a : α) : Commutes f (Pure.pure a : EStateM ε σ α) (Pure.pure a) := fun _ => rfl

theorem bind {x : EStateM ε σ α} {y : EStateM ε τ α} {k : α → EStateM ε σ β} {l : α → EStateM ε τ β}
    (hx : Commutes f x y) (hk : ∀ a, Commutes f (k a) (l a)) : Commutes f (x >>= k) (y >>= l) := by
  intro s
  rw [bind_apply, bind_apply, hx s]
  cases x s with
  | ok a t => exact hk a t
  | error fault t => rfl

theorem forM {x : β → EStateM ε σ Unit} {y : β → EStateM ε τ Unit} (h : ∀ b, Commutes f (x b) (y b)) (l : List β) :
    Commutes f (l.forM x) (l.forM y) := by
  induction l with
  | nil => exact fun _ => rfl
  | cons b l ih => exact (h b).bind fun _ => ih

end Commutes

/-! ### Two runs side by side -/

/-- Two outcomes of one kind, with the same value or the same fault, that leave related states. -/
inductive Paired (R : σ → τ → Prop) : EStateM.Result ε σ α → EStateM.Result ε τ α → Prop
  | ok (a : α) {s : σ} {t : τ} (h : R s t) : Paired R (.ok a s) (.ok a t)
  | error (fault : ε) {s : σ} {t : τ} (h : R s t) : Paired R (.error fault s) (.error fault t)

namespace Paired
variable {R : σ → τ → Prop}

theorem stateOf {r : EStateM.Result ε σ α} {r' : EStateM.Result ε τ α} (h : Paired R r r') :
    R (Maxwell.stateOf r) (Maxwell.stateOf r') := by
  cases h <;> assumption

theorem settled {r : EStateM.Result ε σ α} {r' : EStateM.Result ε τ α} (h : Paired R r r') :
    Paired R (Maxwell.settled r) (Maxwell.settled r') := by
  cases h with
  | ok a h => exact .ok () h
  | error fault h => exact .error fault h

theorem bind {x : EStateM ε σ α} {y : EStateM ε τ α} {f : α → EStateM ε σ β} {g : α → EStateM ε τ β} {s : σ} {t : τ}
    (hx : Paired R (x s) (y t)) (hf : ∀ a s t, R s t → Paired R (f a s) (g a t)) :
    Paired R ((x >>= f) s) ((y >>= g) t) := by
  rw [bind_apply, bind_apply]
  generalize x s = r, y t = r' at hx
  cases hx with
  | ok a h => exact hf a _ _ h
  | error fault h => exact .error fault h

theorem forM {f : α → EStateM ε σ Unit} {g : α → EStateM ε τ Unit} (hf : ∀ a s t, R s t → Paired R (f a s) (g a t))
    (l : List α) {s : σ} {t : τ} (hst : R s t) : Paired R (l.forM f s) (l.forM g t) := by
  induction l generalizing s t with
  | nil => exact .ok () hst
  | cons a l ih => exact bind (hf a s t hst) fun _ _ _ h => ih h

theorem map {Q : υ → ω → Prop} {f : σ → υ} {g : τ → ω} (hR : ∀ s t, R s t → Q (f s) (g t))
    {r : EStateM.Result ε σ α} {r' : EStateM.Result ε τ α} (h : Paired R r r') :
    Paired Q (Maxwell.through f r) (Maxwell.through g r') := by
  cases h with
  | ok a h => exact .ok a (hR _ _ h)
  | error fault h => exact .error fault (hR _ _ h)

theorem of_eq {r r' : EStateM.Result ε σ α} (h : r = r') : Paired Eq r r' := by
  rw [h]
  cases r' with
  | ok a s => exact .ok a rfl
  | error fault s => exact .error fault rfl

theorem eq {r r' : EStateM.Result ε σ α} (h : Paired Eq r r') : r = r' := by
  cases h with
  | ok a h => rw [h]
  | error fault h => rw [h]

/-- An outcome beside itself with its state seen through a map. -/
theorem through {f : σ → τ} {r : EStateM.Result ε σ α} (h : R (Maxwell.stateOf r) (f (Maxwell.stateOf r))) :
    Paired R r (Maxwell.through f r) := by
  cases r with
  | ok a s => exact .ok a h
  | error fault s => exact .error fault h

end Paired

/-- Whether each operation of a list is allowed in the state in which it is done, up to the first that fails. -/
def Along (allowed : α → σ → Prop) (f : α → EStateM ε σ Unit) : List α → σ → Prop
  | [], _ => True
  | a :: l, s => allowed a s ∧ ∀ t, f a s = .ok () t → Along allowed f l t

namespace Along
variable {allowed : α → σ → Prop} {f : α → EStateM ε σ Unit}

theorem of_forall (h : ∀ a s, allowed a s) (l : List α) (s : σ) : Along allowed f l s := by
  induction l generalizing s with
  | nil => trivial
  | cons a l ih => exact ⟨h a s, fun t _ => ih t⟩

theorem of_append {l₁ l₂ : List α} {s : σ} (h : Along allowed f (l₁ ++ l₂) s) :
    Along allowed f l₁ s ∧ ∀ t, l₁.forM f s = .ok () t → Along allowed f l₂ t := by
  induction l₁ generalizing s with
  | nil =>
    refine ⟨trivial, fun t ht => ?_⟩
    cases ht
    exact h
  | cons a l₁ ih =>
    refine ⟨⟨h.1, fun t ht => (ih (h.2 t ht)).1⟩, fun t ht => ?_⟩
    rw [forM_cons_apply] at ht
    cases ha : f a s with
    | ok _ u =>
      rw [ha] at ht
      exact (ih (h.2 u ha)).2 t ht
    | error fault u =>
      rw [ha] at ht
      cases ht

/-- If operations that are allowed keep two states related, so does a list of them. -/
theorem paired {R : σ → σ → Prop} (hf : ∀ a s t, R s t → allowed a s → Paired R (f a s) (f a t)) {l : List α}
    {s t : σ} (hst : R s t) (h : Along allowed f l s) : Paired R (l.forM f s) (l.forM f t) := by
  induction l generalizing s t with
  | nil => exact .ok () hst
  | cons a l ih =>
    have hpaired := hf a s t hst h.1
    have hrest := h.2
    rw [forM_cons_apply, forM_cons_apply]
    generalize f a s = r, f a t = r' at hpaired hrest
    cases hpaired with
    | ok _ hst => exact ih hst (hrest _ rfl)
    | error fault hst => exact .error fault hst

end Along

end Maxwell
