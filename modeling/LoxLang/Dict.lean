import LoxLang.Text

namespace LoxLang

abbrev Dict (α : Type) := List (Text × α)

namespace Dict

variable {α : Type}

def get? (d : Dict α) (name : Text) : Option α := d.lookup name

def has (d : Dict α) (name : Text) : Bool := (d.get? name).isSome

def set (name : Text) (v : α) : Dict α → Dict α
  | [] => [(name, v)]
  | (n, w) :: rest => if n = name then (n, v) :: rest else (n, w) :: set name v rest

def names (d : Dict α) : List Text := Text.sort (d.map Prod.fst)

/-- The entries in byte order of their names. -/
def sorted (d : Dict α) : Dict α := d.mergeSort fun a b => Text.before a.1 b.1

def ofList (l : List (Text × α)) : Dict α := l.foldl (fun d (n, v) => d.set n v) []

@[simp] theorem get?_nil (name : Text) : get? ([] : Dict α) name = none := rfl

@[simp] theorem get?_set_self (d : Dict α) (name : Text) (v : α) :
    (d.set name v).get? name = some v := by
  induction d with
  | nil => simp [set, get?]
  | cons e rest ih =>
    obtain ⟨n, w⟩ := e
    by_cases h : n = name
    · simp [set, get?, h]
    · have hb : (name == n) = false := by simpa using fun e => h e.symm
      simpa [set, get?, h, hb, List.lookup_cons] using ih

theorem get?_set_of_ne (d : Dict α) {name other : Text} (v : α) (h : other ≠ name) :
    (d.set name v).get? other = d.get? other := by
  have hb : (other == name) = false := beq_false_of_ne h
  induction d with
  | nil => simp [set, get?, List.lookup_cons, hb]
  | cons e rest ih =>
    obtain ⟨n, w⟩ := e
    by_cases hn : n = name
    · subst hn
      simp [set, get?, List.lookup_cons, hb]
    · simp only [set, if_neg hn, get?, List.lookup_cons] at ih ⊢
      split
      · rfl
      · exact ih

end Dict

end LoxLang
