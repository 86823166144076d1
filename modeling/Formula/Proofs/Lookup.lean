import Mathlib.Data.List.Nodup

/-!
# Lookups in lists of pairs

Bindings and tables are lists of names with what stands under them, and they are known by what a
lookup finds. A lookup finds what stands first under a name (`lookup_cons`). Where each name stands
once, it finds whatever stands under the name (`lookup_eq_some_iff`), so the order of the pairs does
not count (`lookup_eq_of_perm`).
-/

namespace Formula

variable {κ β : Type} [BEq κ] [LawfulBEq κ] {entries more : List (κ × β)} {name : κ} {value : β}

/-- A lookup stops at the first pair with the name. -/
theorem lookup_cons [DecidableEq κ] (entry : κ × β) (entries : List (κ × β)) (name : κ) :
    (entry :: entries).lookup name =
      if entry.1 = name then some entry.2 else entries.lookup name := by
  rw [List.lookup_cons]
  by_cases h : entry.1 = name
  · rw [if_pos h, beq_iff_eq.2 h.symm]
  · rw [if_neg h, beq_eq_false_iff_ne.2 (Ne.symm h)]

/-- What a lookup finds stands in the list. -/
theorem mem_of_lookup (h : entries.lookup name = some value) : (name, value) ∈ entries := by
  obtain ⟨before, after, rfl, -⟩ := List.lookup_eq_some_iff.1 h
  exact List.mem_append_right before List.mem_cons_self

/-- Under a name that a lookup does not find nothing stands. -/
theorem not_mem_of_lookup_eq_none (h : entries.lookup name = none) (value : β) :
    (name, value) ∉ entries :=
  fun hmem => bne_iff_ne.1 (List.lookup_eq_none_iff.1 h _ hmem) rfl

omit [LawfulBEq κ] in
/-- A function of what stands under the names is applied to what a lookup finds. -/
theorem lookup_map {γ : Type} (f : β → γ) (entries : List (κ × β)) (name : κ) :
    (entries.map fun entry => (entry.1, f entry.2)).lookup name = (entries.lookup name).map f := by
  induction entries with
  | nil => rfl
  | cons entry entries ih =>
    rw [List.map_cons, List.lookup_cons, List.lookup_cons, ih]
    split <;> rfl

/-- Where no name stands twice, what stands under a name is what a lookup finds. -/
theorem lookup_eq_some_iff (h : (entries.map (·.1)).Nodup) :
    entries.lookup name = some value ↔ (name, value) ∈ entries := by
  refine ⟨mem_of_lookup, fun hmem => ?_⟩
  cases hfound : entries.lookup name with
  | none => exact absurd hmem (not_mem_of_lookup_eq_none hfound value)
  | some other =>
    have hsame := List.inj_on_of_nodup_map h (mem_of_lookup hfound) hmem rfl
    exact congrArg some (congrArg Prod.snd hsame)

/-- Where no name stands twice, the order of the pairs does not count. -/
theorem lookup_eq_of_perm (h : (entries.map (·.1)).Nodup) (hperm : more.Perm entries) :
    more.lookup name = entries.lookup name := by
  have hmore : (more.map (·.1)).Nodup := (hperm.map Prod.fst).nodup_iff.2 h
  refine Option.ext fun value => ?_
  rw [lookup_eq_some_iff h, lookup_eq_some_iff hmore, hperm.mem_iff]

end Formula
