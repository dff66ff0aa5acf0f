/-!
# Macro tables

A macro table gives at most one replacement text to each name. Defining a
name again replaces its text.
-/

set_option autoImplicit false

namespace SkeletonWeave

structure Macros where
  entries : List (String × String)
  deriving Repr, Inhabited

namespace Macros

def empty : Macros := ⟨[]⟩

def get? (m : Macros) (name : String) : Option String :=
  m.entries.lookup name

def contains (m : Macros) (name : String) : Bool :=
  (m.get? name).isSome

def erase (m : Macros) (name : String) : Macros :=
  ⟨m.entries.filter (·.1 ≠ name)⟩

def insert (m : Macros) (name value : String) : Macros :=
  ⟨(name, value) :: (m.erase name).entries⟩

def ofList (entries : List (String × String)) : Macros :=
  entries.foldl (fun m entry => m.insert entry.1 entry.2) empty

@[simp] theorem get?_insert_self (m : Macros) (name value : String) :
    (m.insert name value).get? name = some value := by
  simp [insert, get?]

theorem get?_erase_self (m : Macros) (name : String) : (m.erase name).get? name = none := by
  simp only [erase, get?, List.lookup_eq_none_iff, List.mem_filter, decide_eq_true_eq,
    bne_iff_ne]
  rintro entry ⟨_, hName⟩
  exact hName.symm

end Macros

end SkeletonWeave
