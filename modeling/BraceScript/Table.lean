/-! # Tables — names and what they stand for, in order of first entry

    A table remembers the order in which its names were first entered; entering a name again
    changes what it stands for and keeps its place. -/

namespace BraceScript

/-- Names with what they stand for, oldest first. -/
abbrev Table (α : Type) := List (String × α)

namespace Table

variable {α : Type}

/-- What a name stands for. -/
def get? : Table α → String → Option α
  | [], _ => none
  | (key, value) :: rest, name => if key = name then some value else get? rest name

/-- Enters a name, in its old place if it has one and at the end otherwise. -/
def insert : Table α → String → α → Table α
  | [], name, value => [(name, value)]
  | (key, old) :: rest, name, value =>
      if key = name then (key, value) :: rest else (key, old) :: insert rest name value

/-- What the names stand for, oldest first. -/
def values (t : Table α) : List α := t.map Prod.snd

@[simp] theorem get?_nil (name : String) : get? ([] : Table α) name = none := rfl

/-- A name stands for what was entered last. -/
@[simp] theorem get?_insert_self (t : Table α) (name : String) (value : α) :
    (t.insert name value).get? name = some value := by
  induction t with
  | nil => simp [insert, get?]
  | cons entry rest ih =>
      obtain ⟨key, old⟩ := entry
      by_cases h : key = name
      · simp [insert, get?, h]
      · simp [insert, get?, h, ih]

/-- Entering one name leaves the others alone. -/
theorem get?_insert_of_ne (t : Table α) {name other : String} (value : α) (h : name ≠ other) :
    (t.insert name value).get? other = t.get? other := by
  induction t with
  | nil => simp [insert, get?, h]
  | cons entry rest ih =>
      obtain ⟨key, old⟩ := entry
      by_cases hk : key = name
      · subst hk
        simp [insert, get?, h]
      · by_cases ho : key = other
        · subst ho
          simp [insert, get?, hk]
        · simp [insert, get?, hk, ho, ih]

/-- What a name stands for after an entry: what was entered, or what it stood for. -/
theorem get?_insert {t : Table α} {name key : String} {value found : α}
    (h : (t.insert name value).get? key = some found) :
    (key = name ∧ found = value) ∨ t.get? key = some found := by
  by_cases hname : name = key
  · subst hname
    rw [get?_insert_self] at h
    exact .inl ⟨rfl, (Option.some.inj h).symm⟩
  · rw [get?_insert_of_ne t value hname] at h
    exact .inr h

/-- A name that stands for something still does after an entry. -/
theorem isSome_get?_insert {t : Table α} {key : String} (name : String) (value : α)
    (h : (t.get? key).isSome) : ((t.insert name value).get? key).isSome := by
  by_cases hname : name = key
  · subst hname
    rw [get?_insert_self]
    rfl
  · rwa [get?_insert_of_ne t value hname]

end Table

end BraceScript
