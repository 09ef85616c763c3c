/-! Entries by name, in ascending order of the names, one entry a name. -/
namespace EntityQuery

abbrev Dictionary (α : Type) := List (String × α)

namespace Dictionary
variable {α : Type}

def get? (key : String) : Dictionary α → Option α
  | [] => none
  | (k, v) :: rest => if k = key then some v else get? key rest

/-- Adds an entry in its place or replaces the one of the same name. -/
def insert (key : String) (value : α) : Dictionary α → Dictionary α
  | [] => [(key, value)]
  | (k, v) :: rest =>
    if key < k then (key, value) :: (k, v) :: rest
    else if key = k then (key, value) :: rest
    else (k, v) :: insert key value rest

def extend (d more : Dictionary α) : Dictionary α :=
  more.foldl (fun d (k, v) => insert k v d) d

def ofList (entries : List (String × α)) : Dictionary α := extend [] entries

theorem get?_insert_self (key : String) (value : α) (d : Dictionary α) :
    get? key (insert key value d) = some value := by
  induction d with
  | nil => simp [insert, get?]
  | cons e rest ih =>
    obtain ⟨k, v⟩ := e
    simp only [insert]
    split
    · simp [get?]
    · split
      · simp [get?]
      · rename_i h
        simp [get?, Ne.symm h, ih]

theorem get?_insert_of_ne {key other : String} (h : other ≠ key) (value : α) (d : Dictionary α) :
    get? other (insert key value d) = get? other d := by
  induction d with
  | nil => simp [insert, get?, h.symm]
  | cons e rest ih =>
    obtain ⟨k, v⟩ := e
    simp only [insert]
    split
    · simp [get?, h.symm]
    · split
      · rename_i hk
        subst hk
        simp [get?, h.symm]
      · simp [get?, ih]

end Dictionary

end EntityQuery
