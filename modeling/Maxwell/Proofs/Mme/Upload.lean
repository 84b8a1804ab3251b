import Maxwell.Mme.Store

/-! Words that are stored one after the other. Each goes to the place after the one before, around the end of its table,
    and stays there until the upload comes round to its place again. The two tables of a store are filled in this way,
    each at its own cursor. -/

namespace Maxwell.Mme

/-! ### Places in a circle -/

/-- Of words that go to the places from `start` on, around the end of a table, the last that goes to place `x`. -/
def lastAt? (size start : Nat) (words : List Word) (x : Nat) : Option Word :=
  ((words.zipIdx start).filter fun w => w.2 % size == x % size).getLast?.map Prod.fst

section
variable {size start x : Nat}

theorem lastAt?_append (first second : List Word) :
    lastAt? size start (first ++ second) x =
      (lastAt? size (start + first.length) second x).or (lastAt? size start first x) := by
  simp only [lastAt?, List.zipIdx_append, List.filter_append, List.getLast?_append]
  cases List.getLast? _ <;> rfl

theorem lastAt?_singleton (word : Word) :
    lastAt? size start [word] x = if start % size = x % size then some word else none := by
  by_cases h : start % size = x % size <;> simp [lastAt?, h]

theorem lastAt?_cons (word : Word) (words : List Word) :
    lastAt? size start (word :: words) x =
      (lastAt? size (start + 1) words x).or (if start % size = x % size then some word else none) := by
  rw [← List.singleton_append, lastAt?_append, lastAt?_singleton]
  rfl

theorem lastAt?_congr {start' : Nat} (h : start % size = start' % size) (words : List Word) :
    lastAt? size start words x = lastAt? size start' words x := by
  induction words generalizing start start' with
  | nil => rfl
  | cons word words ih =>
    have hnext : (start + 1) % size = (start' + 1) % size := by
      rw [Nat.add_mod, h, ← Nat.add_mod]
    rw [lastAt?_cons, lastAt?_cons, ih hnext, h]

theorem lastAt?_eq_none {words : List Word} (h : ∀ i < words.length, (start + i) % size ≠ x % size) :
    lastAt? size start words x = none := by
  induction words generalizing start with
  | nil => rfl
  | cons word words ih =>
    have hrest : ∀ i < words.length, (start + 1 + i) % size ≠ x % size := by
      intro i hi
      rw [Nat.add_assoc, Nat.add_comm 1 i]
      exact h (i + 1) (Nat.succ_lt_succ hi)
    have hfirst : start % size ≠ x % size := h 0 (Nat.succ_pos _)
    rw [lastAt?_cons, ih hrest, if_neg hfirst]
    rfl

/-- A word is found in its place, if no later one goes there. -/
theorem lastAt?_eq_some {words : List Word} {i : Nat} (hi : i < words.length)
    (hlater : ∀ j < words.length, i < j → (start + j) % size ≠ (start + i) % size) :
    lastAt? size start words (start + i) = some words[i] := by
  have hrest : ∀ j < (words.drop (i + 1)).length, (start + i + 1 + j) % size ≠ (start + i) % size := by
    intro j hj
    rw [List.length_drop] at hj
    rw [Nat.add_assoc, Nat.add_assoc]
    exact hlater (i + (1 + j)) (by omega) (by omega)
  calc lastAt? size start words (start + i)
    _ = lastAt? size start (words.take i ++ words[i] :: words.drop (i + 1)) (start + i) := by
      rw [← List.drop_eq_getElem_cons hi, List.take_append_drop]
    _ = some words[i] := by
      rw [lastAt?_append, List.length_take_of_le (Nat.le_of_lt hi), lastAt?_cons, lastAt?_eq_none hrest, if_pos rfl]
      rfl

end

/-- What no store changes is not changed by several of them. -/
theorem foldl_keeps {σ α : Type} (store : σ → Word → σ) (part : σ → α) (h : ∀ s word, part (store s word) = part s)
    (words : List Word) (s : σ) : part (words.foldl store s) = part s := by
  induction words generalizing s with
  | nil => rfl
  | cons word words ih => exact (ih (store s word)).trans (h s word)

/-- A table of `size` places that is filled by `store`, at a cursor that wraps. -/
structure Circular {σ : Type} (size : Nat) (store : σ → Word → σ) (cursor : σ → Nat) (read : σ → Nat → Word) :
    Prop where
  cursor_store : ∀ s word, cursor (store s word) = (cursor s + 1) % size
  read_store : ∀ s word x, read (store s word) x = if cursor s % size = x % size then word else read s x

namespace Circular
variable {σ : Type} {size : Nat} {store : σ → Word → σ} {cursor : σ → Nat} {read : σ → Nat → Word}
  (h : Circular size store cursor read)
include h

theorem read_foldl (words : List Word) (s : σ) (x : Nat) :
    read (words.foldl store s) x = (lastAt? size (cursor s) words x).getD (read s x) := by
  induction words generalizing s with
  | nil => rfl
  | cons word words ih =>
    have hnext : (cursor s + 1) % size % size = (cursor s + 1) % size := Nat.mod_mod _ _
    rw [List.foldl_cons, ih, h.cursor_store, h.read_store, lastAt?_congr hnext, lastAt?_cons]
    cases lastAt? size (cursor s + 1) words x with
    | some later => rfl
    | none => split <;> rfl

theorem cursor_foldl (words : List Word) (s : σ) :
    cursor (words.foldl store s) % size = (cursor s + words.length) % size := by
  induction words generalizing s with
  | nil => rfl
  | cons word words ih =>
    rw [List.foldl_cons, ih, h.cursor_store, Nat.mod_add_mod, List.length_cons, Nat.add_right_comm, Nat.add_assoc]

end Circular

/-! ### Uploads -/

namespace Store

/-- The store after an upload of several words. -/
def uploadAll (s : Store) (words : List Word) : Store := words.foldl upload s

/-- The store after several slots got their entry points. -/
def bindAll (s : Store) (offsets : List Word) : Store := offsets.foldl bindNext s

section
variable {s : Store} {words : List Word}

theorem code_congr {x y : Nat} (h : x % 0x2000 = y % 0x2000) : s.code x = s.code y := by
  have hoffset : CodeOffset.ofNat x = .ofNat y := Fin.ext h
  exact congrArg s.words.get hoffset

theorem cursor_upload (s : Store) (word : Word) : (s.upload word).cursor.val = (s.cursor.val + 1) % 0x2000 := rfl

theorem code_upload (s : Store) (word : Word) (x : Nat) :
    (s.upload word).code x = if s.cursor.val = x % 0x2000 then word else s.code x := by
  simp only [code, upload, Fin.getElem_fin, Vector.getElem_set]
  rfl

theorem entry_bindNext (s : Store) (offset : Word) (x : Nat) :
    (s.bindNext offset).entry x = if s.startCursor.val = x % 128 then offset else s.entry x := by
  simp only [entry, bindNext, Fin.getElem_fin, Vector.getElem_set]
  rfl

theorem circular_upload : Circular codeSize upload (fun s => s.cursor.val) code where
  cursor_store := cursor_upload
  read_store s word x := by
    rw [code_upload, Nat.mod_eq_of_lt s.cursor.isLt]

theorem circular_bindNext : Circular slotCount bindNext (fun s => s.startCursor.val) entry where
  cursor_store _ _ := rfl
  read_store s offset x := by
    rw [entry_bindNext, Nat.mod_eq_of_lt s.startCursor.isLt]

theorem entries_uploadAll (s : Store) (words : List Word) : (s.uploadAll words).entries = s.entries :=
  foldl_keeps upload entries (fun _ _ => rfl) words s

theorem startCursor_uploadAll (s : Store) (words : List Word) : (s.uploadAll words).startCursor = s.startCursor :=
  foldl_keeps upload startCursor (fun _ _ => rfl) words s

theorem words_bindAll (s : Store) (offsets : List Word) : (s.bindAll offsets).words = s.words :=
  foldl_keeps bindNext words (fun _ _ => rfl) offsets s

theorem cursor_bindAll (s : Store) (offsets : List Word) : (s.bindAll offsets).cursor = s.cursor :=
  foldl_keeps bindNext cursor (fun _ _ => rfl) offsets s

theorem code_uploadAll_of_ne {x : Nat} (h : ∀ i < words.length, (s.cursor.val + i) % 0x2000 ≠ x % 0x2000) :
    (s.uploadAll words).code x = s.code x := by
  rw [uploadAll, circular_upload.read_foldl, lastAt?_eq_none h]
  rfl

/-- A word is found in its place, if no later one went there. -/
theorem code_uploadAll {i : Nat} (hi : i < words.length)
    (hlater : ∀ j < words.length, i < j → (s.cursor.val + j) % 0x2000 ≠ (s.cursor.val + i) % 0x2000) :
    (s.uploadAll words).code (s.cursor.val + i) = words[i] := by
  rw [uploadAll, circular_upload.read_foldl, lastAt?_eq_some hi hlater]
  rfl

end

end Store

/-! ### Arrays and their bounds -/

/-- What is done to a store. -/
inductive StoreCall
  | setCursor (pointer : Word)
  | upload (word : Word)
  | setStartCursor (pointer : Word)
  | bindNext (offset : Word)
  | bind (slot offset : Word)

def StoreCall.make (s : Store) : StoreCall → Store
  | .setCursor pointer => s.setCursor pointer
  | .upload word => s.upload word
  | .setStartCursor pointer => s.setStartCursor pointer
  | .bindNext offset => s.bindNext offset
  | .bind slot offset => s.bind slot.toNat offset

/-- A store as arrays at numbers that nothing bounds. -/
structure Tables where
  words : Array Word
  entries : Array Word
  cursor : Nat
  startCursor : Nat

namespace Tables

def ofStore (s : Store) : Tables := ⟨s.words.toArray, s.entries.toArray, s.cursor.val, s.startCursor.val⟩

/-- Fails if the index is out of range. -/
def setAt? (table : Array Word) (index : Nat) (word : Word) : Option (Array Word) :=
  if index < table.size then some (table.setIfInBounds index word) else none

def upload? (t : Tables) (word : Word) : Option Tables := do
  return { t with words := ← setAt? t.words t.cursor word, cursor := (t.cursor + 1) % codeSize }

def bind? (t : Tables) (slot : Nat) (offset : Word) : Option Tables := do
  return { t with entries := ← setAt? t.entries (slot % slotCount) offset }

def bindNext? (t : Tables) (offset : Word) : Option Tables := do
  let bound ← t.bind? t.startCursor offset
  return { bound with startCursor := (t.startCursor + 1) % slotCount }

def make? (t : Tables) : StoreCall → Option Tables
  | .setCursor pointer => some { t with cursor := pointer.toNat % codeSize }
  | .upload word => t.upload? word
  | .setStartCursor pointer => some { t with startCursor := pointer.toNat % slotCount }
  | .bindNext offset => t.bindNext? offset
  | .bind slot offset => t.bind? slot.toNat offset

def codeAt? (t : Tables) (offset : Nat) : Option Word := t.words[offset % codeSize]?

def entryAt? (t : Tables) (slot : Nat) : Option Word := t.entries[slot % slotCount]?

theorem setAt?_toArray {n : Nat} (table : Vector Word n) (index : Fin n) (word : Word) :
    setAt? table.toArray index.val word = some (table.set index word).toArray := by
  simp [setAt?, Array.setIfInBounds]

theorem bind?_ofStore (s : Store) (slot : Nat) (offset : Word) :
    (ofStore s).bind? slot offset = some (ofStore (s.bind slot offset)) := by
  have hset : setAt? (ofStore s).entries (slot % slotCount) offset = some (ofStore (s.bind slot offset)).entries :=
    setAt?_toArray s.entries (Slot.ofNat slot) offset
  rw [bind?, hset]
  rfl

theorem upload?_ofStore (s : Store) (word : Word) :
    (ofStore s).upload? word = some (ofStore (s.upload word)) := by
  have hset : setAt? (ofStore s).words (ofStore s).cursor word = some (ofStore (s.upload word)).words :=
    setAt?_toArray s.words s.cursor word
  rw [upload?, hset]
  rfl

theorem bindNext?_ofStore (s : Store) (offset : Word) :
    (ofStore s).bindNext? offset = some (ofStore (s.bindNext offset)) := by
  have hbind : (ofStore s).bind? (ofStore s).startCursor offset = some (ofStore (s.bind s.startCursor.val offset)) :=
    bind?_ofStore s s.startCursor.val offset
  have hcursor : Slot.ofNat s.startCursor.val = s.startCursor := Fin.ofNat_val_eq_self _
  rw [bindNext?, hbind]
  simp only [Store.bind, hcursor]
  rfl

theorem make?_ofStore (s : Store) (call : StoreCall) : (ofStore s).make? call = some (ofStore (call.make s)) := by
  cases call with
  | setCursor pointer => rfl
  | upload word => exact upload?_ofStore s word
  | setStartCursor pointer => rfl
  | bindNext offset => exact bindNext?_ofStore s offset
  | bind slot offset => exact bind?_ofStore s slot.toNat offset

theorem foldlM_make?_ofStore (s : Store) (calls : List StoreCall) :
    calls.foldlM make? (ofStore s) = some (ofStore (calls.foldl StoreCall.make s)) := by
  induction calls generalizing s with
  | nil => rfl
  | cons call calls ih =>
    rw [List.foldlM_cons, make?_ofStore]
    exact ih _

theorem getElem?_toArray {n : Nat} (table : Vector Word n) (index : Fin n) :
    table.toArray[index.val]? = some table[index] := by
  simp

theorem codeAt?_ofStore (s : Store) (offset : Nat) : (ofStore s).codeAt? offset = some (s.code offset) :=
  getElem?_toArray s.words (CodeOffset.ofNat offset)

theorem entryAt?_ofStore (s : Store) (slot : Nat) : (ofStore s).entryAt? slot = some (s.entry slot) :=
  getElem?_toArray s.entries (Slot.ofNat slot)

end Tables

/-! ### The law -/

namespace Store

/-- What an upload from `pointer` on makes of a store. -/
structure Uploaded (pointer : Word) (words : List Word) (before after : Store) : Prop where
  code : ∀ x, after.code x = (lastAt? 0x2000 pointer.toNat words x).getD (before.code x)
  cursor : after.cursor.val = (pointer.toNat + words.length) % 0x2000
  entries : after.entries = before.entries
  startCursor : after.startCursor = before.startCursor

/-- What the entry points of the slots from `start` on make of a store. -/
structure Bound (start : Word) (offsets : List Word) (before after : Store) : Prop where
  entry : ∀ x, after.entry x = (lastAt? 128 start.toNat offsets x).getD (before.entry x)
  startCursor : after.startCursor.val = (start.toNat + offsets.length) % 128
  words : after.words = before.words
  cursor : after.cursor = before.cursor

theorem uploaded (s : Store) (pointer : Word) (words : List Word) :
    Uploaded pointer words s ((s.setCursor pointer).uploadAll words) where
  code x := by
    have hstart : (s.setCursor pointer).cursor.val % codeSize = pointer.toNat % codeSize := Nat.mod_mod _ _
    rw [uploadAll, circular_upload.read_foldl, lastAt?_congr hstart]
    rfl
  cursor := by
    rw [← Nat.mod_eq_of_lt (Fin.isLt _), uploadAll, circular_upload.cursor_foldl]
    exact Nat.mod_add_mod _ _ _
  entries := entries_uploadAll _ words
  startCursor := startCursor_uploadAll _ words

theorem bound (s : Store) (start : Word) (offsets : List Word) :
    Bound start offsets s ((s.setStartCursor start).bindAll offsets) where
  entry x := by
    have hstart : (s.setStartCursor start).startCursor.val % slotCount = start.toNat % slotCount := Nat.mod_mod _ _
    rw [bindAll, circular_bindNext.read_foldl, lastAt?_congr hstart]
    rfl
  startCursor := by
    rw [← Nat.mod_eq_of_lt (Fin.isLt _), bindAll, circular_bindNext.cursor_foldl]
    exact Nat.mod_add_mod _ _ _
  words := words_bindAll _ offsets
  cursor := cursor_bindAll _ offsets

/-- Words that are uploaded one after the other, however many, fill code memory in a circle, and entry points fill the
    slots in the same way. Neither touches what the other fills, and no call asks an array for a place that it does
    not have. -/
theorem circular_law (s : Store) :
    (∀ pointer words, Uploaded pointer words s ((s.setCursor pointer).uploadAll words)) ∧
    (∀ start offsets, Bound start offsets s ((s.setStartCursor start).bindAll offsets)) ∧
    (∀ calls : List StoreCall,
      calls.foldlM Tables.make? (.ofStore s) = some (.ofStore (calls.foldl StoreCall.make s))) ∧
    ∀ x, (Tables.ofStore s).codeAt? x = some (s.code x) ∧ (Tables.ofStore s).entryAt? x = some (s.entry x) :=
  ⟨uploaded s, bound s, Tables.foldlM_make?_ofStore s, fun x => ⟨Tables.codeAt?_ofStore s x, Tables.entryAt?_ofStore s x⟩⟩

end Store

end Maxwell.Mme
