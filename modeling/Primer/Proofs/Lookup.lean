/-!
# Looking names up

Scopes, static and dynamic, are lists of pairs of a name and something; the first pair with a name
counts. These are the laws of `List.lookup` for such lists.
-/

namespace Primer

namespace Lookup

variable {α β : Type}

theorem lookup_cons (name k : String) (a : α) (rest : List (String × α)) :
    ((k, a) :: rest).lookup name = if name = k then some a else rest.lookup name := by
  rw [List.lookup_cons]
  by_cases h : name = k
  · simp [h]
  · simp only [beq_eq_false_iff_ne.mpr h, if_neg h]

theorem lookup_map (f : α → β) (name : String) (l : List (String × α)) :
    (l.map fun b => (b.1, f b.2)).lookup name = (l.lookup name).map f := by
  induction l with
  | nil => rfl
  | cons b rest ih =>
    rw [List.map_cons, lookup_cons, ih, lookup_cons]
    split <;> rfl

theorem mem_of_lookup {name : String} {a : α} {l : List (String × α)}
    (h : l.lookup name = some a) : (name, a) ∈ l := by
  obtain ⟨l₁, l₂, rfl, -⟩ := List.lookup_eq_some_iff.mp h
  exact List.mem_append_right _ List.mem_cons_self

end Lookup

end Primer
