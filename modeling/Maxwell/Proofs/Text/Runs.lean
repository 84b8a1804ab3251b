import Mathlib.Data.List.TakeWhile
import Maxwell.Text.Blank

/-! Runs of characters. A text falls apart in one way only into a run of characters of a kind and what does not begin
    with one. Trimming takes away just the runs of blanks at its ends. -/

namespace Maxwell

variable {α : Type} {p : α → Bool} {xs ys xs' ys' : List α}

theorem takeWhile_append_run (hxs : ∀ x ∈ xs, p x = true) (hys : ∀ y ∈ ys.head?, p y = false) :
    (xs ++ ys).takeWhile p = xs := by
  rw [List.takeWhile_append_of_pos hxs]
  cases ys with
  | nil => rw [List.takeWhile_nil, List.append_nil]
  | cons y ys => rw [List.takeWhile_cons_of_neg (Bool.not_eq_true _ ▸ hys y rfl), List.append_nil]

theorem dropWhile_append_run (hxs : ∀ x ∈ xs, p x = true) (hys : ∀ y ∈ ys.head?, p y = false) :
    (xs ++ ys).dropWhile p = ys := by
  rw [List.dropWhile_append_of_pos hxs]
  cases ys with
  | nil => rfl
  | cons y ys => exact List.dropWhile_cons_of_neg (Bool.not_eq_true _ ▸ hys y rfl)

/-- Where a run of a kind ends, a text can be taken apart. -/
theorem append_inj_of_run (hxs : ∀ x ∈ xs, p x = true) (hys : ∀ y ∈ ys.head?, p y = false)
    (hxs' : ∀ x ∈ xs', p x = true) (hys' : ∀ y ∈ ys'.head?, p y = false) (h : xs ++ ys = xs' ++ ys') :
    xs = xs' ∧ ys = ys' := by
  constructor
  · rw [← takeWhile_append_run hxs hys, h, takeWhile_append_run hxs' hys']
  · rw [← dropWhile_append_run hxs hys, h, dropWhile_append_run hxs' hys']

theorem head?_dropWhile {x : α} (hx : x ∈ (xs.dropWhile p).head?) : p x = false := by
  have h := List.head?_dropWhile_not p xs
  rwa [hx] at h

namespace Blank

variable {cs body : List Char}

/-- `body` is what is left of `cs` without the blanks around it. -/
structure Trimmed (cs body : List Char) : Prop where
  around : ∃ before after,
    (∀ c ∈ before, isBlank c = true) ∧ (∀ c ∈ after, isBlank c = true) ∧ cs = before ++ body ++ after
  head : ∀ c ∈ body.head?, isBlank c = false
  last : ∀ c ∈ body.getLast?, isBlank c = false

theorem exists_trimEnd_append (cs : List Char) :
    ∃ after, (∀ c ∈ after, isBlank c = true) ∧ trimEnd cs ++ after = cs := by
  refine ⟨(cs.reverse.takeWhile isBlank).reverse, fun c hc => List.mem_takeWhile_imp (List.mem_reverse.mp hc), ?_⟩
  rw [trimEnd, ← List.reverse_append, List.takeWhile_append_dropWhile, List.reverse_reverse]

theorem trimmed_trim (cs : List Char) : Trimmed cs (trim cs) := by
  obtain ⟨after, hafter, hend⟩ := exists_trimEnd_append (cs.dropWhile isBlank)
  have hbefore : ∀ c ∈ cs.takeWhile isBlank, isBlank c = true := fun c hc => List.mem_takeWhile_imp hc
  refine ⟨⟨cs.takeWhile isBlank, after, hbefore, hafter, ?_⟩, fun c hc => ?_, fun c hc => ?_⟩
  · rw [trim, List.append_assoc, hend, List.takeWhile_append_dropWhile]
  · -- What is left begins as the text does after the blanks at its start.
    have hfirst : c ∈ (cs.dropWhile isBlank).head? := by
      rw [← hend, List.head?_append, ← trim, hc]
      rfl
    exact head?_dropWhile hfirst
  · rw [trim, trimEnd, List.getLast?_reverse] at hc
    exact head?_dropWhile hc

theorem trimEnd_append_run {after : List Char} (hlast : ∀ c ∈ body.getLast?, isBlank c = false)
    (hafter : ∀ c ∈ after, isBlank c = true) : trimEnd (body ++ after) = body := by
  rw [trimEnd, List.reverse_append, dropWhile_append_run, List.reverse_reverse]
  · exact fun c hc => hafter c (List.mem_reverse.mp hc)
  · rwa [List.head?_reverse]

theorem trim_eq_iff : trim cs = body ↔ Trimmed cs body := by
  constructor
  · rintro rfl
    exact trimmed_trim cs
  · rintro ⟨⟨before, after, hbefore, hafter, rfl⟩, hhead, hlast⟩
    cases body with
    | nil =>
      have hblank : ∀ c ∈ before ++ after, isBlank c = true := List.forall_mem_append.mpr ⟨hbefore, hafter⟩
      rw [List.append_nil, trim, List.dropWhile_eq_nil_iff.mpr hblank]
      rfl
    | cons first rest =>
      rw [trim, List.append_assoc, dropWhile_append_run hbefore (by exact hhead), trimEnd_append_run hlast hafter]

end Blank

end Maxwell
