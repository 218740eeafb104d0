import Mathlib.Data.List.Induction
import Mathlib.Data.List.Nodup
import AgentSurface.Catalog.Basic

/-!
# Catalog — calls that register entries

A call registers its entry or is refused, and which of both depends on the name alone.  So a catalog
that was built by calls has the names that can be type names in the order of their first calls
(`typeNames_registered`), and under each of them the entry of its last call (`get?_registered`).
-/

namespace AgentSurface.Catalog

variable {entries : List Entry} {e : Entry} {name : String}

/-- The catalog behind a call; an entry that is refused changes nothing. -/
def afterCall (c : Catalog) (e : Entry) : Catalog :=
  match c.register e with
  | .ok (_, next) => next
  | .error _ => c

/-- The catalog that the calls make of an empty one. -/
def registered (calls : List Entry) : Catalog := calls.foldl afterCall {}

/-- The last call to register acts on what the calls before it have made. -/
theorem registered_concat (calls : List Entry) (e : Entry) :
    registered (calls ++ [e]) = (registered calls).afterCall e := by
  simp [registered]

/-! ### One call -/

/-- An entry with a proper type name is put in. -/
theorem afterCall_of_isTypeName (h : isTypeName e.typeName = true) (c : Catalog) :
    c.afterCall e = ⟨put c.entries e⟩ := by
  rw [afterCall, register, if_pos h]

/-- An entry with an improper type name is refused, and the catalog stays as it was. -/
theorem afterCall_of_not_isTypeName (h : ¬ isTypeName e.typeName = true) (c : Catalog) :
    c.afterCall e = c := by
  rw [afterCall, register, if_neg h]

/-- A new name goes last. -/
theorem map_typeName_put (entries : List Entry) (e : Entry) :
    (put entries e).map (·.typeName) =
      if e.typeName ∈ entries.map (·.typeName) then entries.map (·.typeName)
      else entries.map (·.typeName) ++ [e.typeName] := by
  induction entries with
  | nil => rfl
  | cons first rest ih =>
    by_cases h : first.typeName = e.typeName
    · simp [put, h]
    · simp only [put, h, beq_iff_eq, if_false, List.map_cons, ih, List.mem_cons, Ne.symm h,
        false_or]
      split <;> rfl

/-- Under the entry's own name stands the entry just put in, under any other name what stood there.
-/
theorem find?_put (entries : List Entry) (e : Entry) (name : String) :
    (put entries e).find? (·.typeName == name) =
      if e.typeName = name then some e else entries.find? (·.typeName == name) := by
  induction entries with
  | nil => simp [put, List.find?_singleton]
  | cons first rest ih =>
    by_cases h : first.typeName = e.typeName
    · by_cases hname : e.typeName = name
      · simp [put, h, hname]
      · simp [put, h, hname]
    · by_cases hname : first.typeName = name
      · subst hname
        simp [put, h, Ne.symm h]
      · simp [put, h, hname, ih]

/-! ### All calls -/

theorem eraseDups_concat (names : List String) (name : String) :
    (names ++ [name]).eraseDups =
      if name ∈ names.eraseDups then names.eraseDups else names.eraseDups ++ [name] := by
  rw [List.eraseDups_append, List.removeAll]
  split
  · next h =>
    rw [List.filter_cons_of_neg (by simpa using h)]
    exact List.append_nil _
  · next h =>
    rw [List.filter_cons_of_pos (by simpa using h)]
    rfl

/-- The names stand in the order of their first calls. -/
theorem typeNames_registered (calls : List Entry) :
    (registered calls).typeNames =
      ((calls.map (·.typeName)).filter fun name => isTypeName name).eraseDups := by
  induction calls using List.reverseRecOn with
  | nil => rfl
  | append_singleton calls e ih =>
    rw [registered_concat, List.map_append, List.filter_append, List.map_singleton]
    by_cases h : isTypeName e.typeName = true
    · rw [List.filter_cons_of_pos h, List.filter_nil, eraseDups_concat, ← ih,
        afterCall_of_isTypeName h]
      exact map_typeName_put _ e
    · rw [List.filter_cons_of_neg h, List.filter_nil, List.append_nil, ← ih,
        afterCall_of_not_isTypeName h]

/-- Under a name stands the entry of its last call. -/
theorem get?_registered (calls : List Entry) (name : String) :
    (registered calls).get? name =
      if isTypeName name then calls.reverse.find? (·.typeName == name) else none := by
  induction calls using List.reverseRecOn with
  | nil => simp [registered, get?]
  | append_singleton calls e ih =>
    rw [registered_concat, List.reverse_append, List.reverse_singleton, List.singleton_append,
      List.find?_cons]
    by_cases h : isTypeName e.typeName = true
    · rw [afterCall_of_isTypeName h, get?, find?_put]
      by_cases hname : e.typeName = name
      · subst hname
        simp [h]
      · rw [if_neg hname, beq_false_of_ne hname]
        exact ih
    · rw [afterCall_of_not_isTypeName h, ih]
      by_cases hname : e.typeName = name
      · subst hname
        simp [h]
      · rw [beq_false_of_ne hname]

/-- No type name is listed twice, however often it was registered. -/
theorem nodup_typeNames_registered (calls : List Entry) : (registered calls).typeNames.Nodup := by
  induction calls using List.reverseRecOn with
  | nil => exact List.nodup_nil
  | append_singleton calls e ih =>
    rw [registered_concat]
    by_cases h : isTypeName e.typeName = true
    · rw [afterCall_of_isTypeName h, typeNames, map_typeName_put]
      split
      · exact ih
      · next hnew => exact ih.append (List.nodup_singleton _) (List.disjoint_singleton.2 hnew)
    · rwa [afterCall_of_not_isTypeName h]

/-- Each entry is found under its name. -/
theorem get?_of_mem {c : Catalog} (hnodup : c.typeNames.Nodup) (he : e ∈ c.entries) :
    c.get? e.typeName = some e := by
  rw [get?, List.find?_eq_some_iff_append]
  obtain ⟨before, behind, hentries⟩ := List.append_of_mem he
  refine ⟨beq_self_eq_true _, before, behind, hentries, fun first hfirst => ?_⟩
  rw [typeNames, hentries, List.map_append, List.map_cons] at hnodup
  have hne := (List.nodup_append.1 hnodup).2.2 first.typeName (List.mem_map_of_mem hfirst)
    e.typeName List.mem_cons_self
  simpa using hne

/-- Whatever is registered has a proper type name. -/
theorem isTypeName_of_mem {calls : List Entry} (he : e ∈ (registered calls).entries) :
    isTypeName e.typeName = true := by
  have hmem : e.typeName ∈ (registered calls).typeNames := List.mem_map_of_mem he
  rw [typeNames_registered, List.mem_eraseDups] at hmem
  exact (List.mem_filter.1 hmem).2

/-- Each entry is that of the last call with its name. -/
theorem find?_reverse_of_mem {calls : List Entry} (he : e ∈ (registered calls).entries) :
    calls.reverse.find? (·.typeName == e.typeName) = some e := by
  have hget := get?_of_mem (nodup_typeNames_registered calls) he
  rwa [get?_registered, if_pos (isTypeName_of_mem he)] at hget

end AgentSurface.Catalog
