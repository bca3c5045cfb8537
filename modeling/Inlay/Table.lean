/-!
Finite tables in order of first insertion. A table is known through `find?`: one equation says
what inserting does to it, one what erasing does.
-/

namespace Inlay

/-- A finite map from keys to values. -/
structure Table (κ α : Type) where
  entries : List (κ × α)

namespace Table

variable {κ α : Type}

def empty : Table κ α := ⟨[]⟩

instance : EmptyCollection (Table κ α) := ⟨empty⟩

def size (t : Table κ α) : Nat := t.entries.length

variable [DecidableEq κ]

def lookup (k : κ) : List (κ × α) → Option α
  | [] => none
  | e :: es => if e.1 = k then some e.2 else lookup k es

/-- Entries with the value at a key set, in place or at the end. -/
def put (k : κ) (v : α) : List (κ × α) → List (κ × α)
  | [] => [(k, v)]
  | e :: es => if e.1 = k then (k, v) :: es else e :: put k v es

def remove (k : κ) : List (κ × α) → List (κ × α)
  | [] => []
  | e :: es => if e.1 = k then remove k es else e :: remove k es

def find? (t : Table κ α) (k : κ) : Option α := lookup k t.entries

def insert (t : Table κ α) (k : κ) (v : α) : Table κ α := ⟨put k v t.entries⟩

def erase (t : Table κ α) (k : κ) : Table κ α := ⟨remove k t.entries⟩

@[simp] theorem find?_empty (k : κ) : (∅ : Table κ α).find? k = none := rfl

theorem lookup_put (k j : κ) (v : α) (es : List (κ × α)) :
    lookup j (put k v es) = if j = k then some v else lookup j es := by
  induction es with
  | nil =>
    by_cases h : k = j
    · simp [put, lookup, h]
    · simp [put, lookup, h, Ne.symm h]
  | cons e es ih =>
    by_cases he : e.1 = k
    · by_cases h : k = j
      · simp [put, lookup, he, h]
      · simp [put, lookup, he, h, Ne.symm h]
    · by_cases h : e.1 = j
      · subst h
        simp [put, lookup, he]
      · simp [put, lookup, he, h, ih]

@[simp] theorem find?_insert (t : Table κ α) (k j : κ) (v : α) :
    (t.insert k v).find? j = if j = k then some v else t.find? j :=
  lookup_put k j v t.entries

theorem lookup_remove (k j : κ) (es : List (κ × α)) :
    lookup j (remove k es) = if j = k then none else lookup j es := by
  induction es with
  | nil => simp [remove, lookup]
  | cons e es ih =>
    by_cases he : e.1 = k
    · by_cases h : j = k
      · subst h
        simpa [remove, he] using ih
      · simp [remove, lookup, he, h, ih, Ne.symm h]
    · by_cases h : e.1 = j
      · subst h
        simp [remove, lookup, he]
      · simp [remove, lookup, he, h, ih]

@[simp] theorem find?_erase (t : Table κ α) (k j : κ) :
    (t.erase k).find? j = if j = k then none else t.find? j :=
  lookup_remove k j t.entries

end Table

end Inlay
