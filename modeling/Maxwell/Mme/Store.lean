import Maxwell.Word

/-! The macro store: code memory and the table of entry points, each filled through a cursor that
    advances with every word and wraps at the end. -/

namespace Maxwell.Mme

/-- The number of words of code memory. -/
abbrev codeSize : Nat := 0x2000

/-- The number of macro slots. -/
abbrev slotCount : Nat := 128

/-- A place in code memory. -/
abbrev CodeOffset := Fin codeSize

/-- The number of a macro. -/
abbrev Slot := Fin slotCount

/-- The place in code memory that a number names. -/
def CodeOffset.ofNat (n : Nat) : CodeOffset := Fin.ofNat codeSize n

/-- The slot that a number names. -/
def Slot.ofNat (n : Nat) : Slot := Fin.ofNat slotCount n

/-- The macros a guest has uploaded. -/
structure Store where
  words : Vector Word codeSize := Vector.replicate codeSize 0
  entries : Vector Word slotCount := Vector.replicate slotCount 0
  /-- Where the next word of code goes. -/
  cursor : CodeOffset := 0
  /-- The slot that is bound next. -/
  startCursor : Slot := 0

namespace Store

/-- The store after power-up: all code is zero, and every slot starts at its first word. -/
def empty : Store := {}

/-- The word of code at an offset, which wraps. -/
def code (s : Store) (offset : Nat) : Word := s.words[CodeOffset.ofNat offset]

/-- The entry point of a slot, as the guest gave it. -/
def entry (s : Store) (slot : Nat) : Word := s.entries[Slot.ofNat slot]

def setCursor (s : Store) (pointer : Word) : Store := { s with cursor := .ofNat pointer.toNat }

/-- Stores a word of code at the cursor. -/
def upload (s : Store) (word : Word) : Store :=
  { s with words := s.words.set s.cursor word, cursor := s.cursor + 1 }

def setStartCursor (s : Store) (pointer : Word) : Store := { s with startCursor := .ofNat pointer.toNat }

/-- Gives a slot an entry point. -/
def bind (s : Store) (slot : Nat) (offset : Word) : Store :=
  { s with entries := s.entries.set (Slot.ofNat slot) offset }

/-- Gives the slot at the cursor an entry point. -/
def bindNext (s : Store) (offset : Word) : Store :=
  { s with entries := s.entries.set s.startCursor offset, startCursor := s.startCursor + 1 }

end Store

end Maxwell.Mme
