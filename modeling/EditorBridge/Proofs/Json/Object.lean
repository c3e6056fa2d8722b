import EditorBridge.Proofs.Json.RoundTrip

/-!
# Objects as maps

A field that is put into an object is found under its name, and what the object has under other
names stays (`lookup_insertField`). So fields of new names do not change what is found under the
old ones (`lookup_foldl_insertField`), and an object that could be read back from what is written
of it still can when fields are put into it (`IsPlain.extend`).
-/

namespace EditorBridge.Json

theorem lookup_cons_eq_ite (field : String × Json) (fields : List (String × Json))
    (name : String) :
    (field :: fields).lookup name =
      if name = field.1 then some field.2 else fields.lookup name := by
  obtain ⟨key, value⟩ := field
  by_cases h : name = key
  · rw [if_pos h, List.lookup_cons, beq_iff_eq.mpr h]
  · rw [if_neg h, List.lookup_cons, beq_false_of_ne h]

/-! ## One field -/

theorem lookup_insertField (new : String) (value : Json) (fields : List (String × Json))
    (name : String) :
    (insertField new value fields).lookup name =
      if name = new then some value else fields.lookup name := by
  induction fields with
  | nil => exact lookup_cons_eq_ite _ _ _
  | cons field fields ih =>
    unfold insertField
    split
    next hlt =>
      rw [lookup_cons_eq_ite, lookup_cons_eq_ite, ih]
      by_cases hnew : name = new
      · subst hnew
        rw [if_pos rfl, if_pos rfl, if_neg (String.ne_of_lt hlt).symm]
      · rw [if_neg hnew, if_neg hnew]
    next =>
      split
      next heq =>
        rw [lookup_cons_eq_ite, lookup_cons_eq_ite, heq]
        by_cases hnew : name = new <;> simp [hnew]
      next => exact lookup_cons_eq_ite _ _ _

theorem mem_insertField {new : String} {value : Json} {fields : List (String × Json)}
    {field : String × Json} (h : field ∈ insertField new value fields) :
    field = (new, value) ∨ field ∈ fields := by
  induction fields with
  | nil => exact Or.inl (List.mem_singleton.mp h)
  | cons first fields ih =>
    unfold insertField at h
    split at h
    · rcases List.mem_cons.mp h with rfl | h
      · exact Or.inr List.mem_cons_self
      · exact (ih h).imp id (List.mem_cons_of_mem _)
    · split at h
      · exact (List.mem_cons.mp h).imp id (List.mem_cons_of_mem _)
      · exact List.mem_cons.mp h

/-- The fields stay in the order of their names, each name once. -/
theorem pairwise_insertField {fields : List (String × Json)}
    (h : fields.Pairwise fun a b => a.1 < b.1) (new : String) (value : Json) :
    (insertField new value fields).Pairwise fun a b => a.1 < b.1 := by
  induction fields with
  | nil => exact List.pairwise_singleton _ _
  | cons first fields ih =>
    obtain ⟨hfirst, hfields⟩ := List.pairwise_cons.mp h
    unfold insertField
    split
    next hlt =>
      refine List.pairwise_cons.mpr ⟨fun field hmem => ?_, ih hfields⟩
      rcases mem_insertField hmem with rfl | hmem
      · exact hlt
      · exact hfirst field hmem
    next hle =>
      split
      next heq => exact List.pairwise_cons.mpr ⟨heq ▸ hfirst, hfields⟩
      next hne =>
        have hlt : new < first.1 := Std.lt_of_le_of_ne (String.not_lt.mp hle) (Ne.symm hne)
        refine List.pairwise_cons.mpr ⟨fun field hmem => ?_, h⟩
        rcases List.mem_cons.mp hmem with rfl | hmem
        · exact hlt
        · exact String.lt_trans hlt (hfirst field hmem)

/-! ## Several fields -/

/-- Puts fields into an object, one after another. -/
def extend (v : Json) (more : List (String × Json)) : Json :=
  match v with
  | .object fields =>
    .object (more.foldl (fun fields field => insertField field.1 field.2 fields) fields)
  | v => v

theorem lookup_foldl_insertField {more : List (String × Json)} {name : String}
    (h : ∀ field ∈ more, field.1 ≠ name) (fields : List (String × Json)) :
    (more.foldl (fun fields field => insertField field.1 field.2 fields) fields).lookup name =
      fields.lookup name := by
  induction more generalizing fields with
  | nil => rfl
  | cons field more ih =>
    obtain ⟨hfield, hmore⟩ := List.forall_mem_cons.mp h
    rw [List.foldl_cons, ih hmore, lookup_insertField, if_neg hfield.symm]

theorem IsPlain.extend {depth : Nat} {v : Json} (hv : IsPlain (depth + 1) v)
    {more : List (String × Json)} (hmore : ∀ field ∈ more, IsPlain depth field.2) :
    IsPlain (depth + 1) (v.extend more) := by
  cases hv with
  | @object _ fields hsorted hplain =>
    change IsPlain (depth + 1) (.object _)
    induction more generalizing fields with
    | nil => exact .object hsorted hplain
    | cons field more ih =>
      obtain ⟨hfield, hmore⟩ := List.forall_mem_cons.mp hmore
      refine ih hmore (pairwise_insertField hsorted _ _) fun added hadded => ?_
      rcases mem_insertField hadded with rfl | hadded
      · exact hfield
      · exact hplain added hadded
  | null => exact .null _
  | bool => exact .bool _ _
  | number _ hword => exact .number _ hword
  | string => exact .string _ _
  | array hitems => exact .array hitems

end EditorBridge.Json
