import AgentSurface.Proofs.Keyed
import AgentSurface.Session.Folder

/-!
# Session — files of a directory

When an operation on the items of a directory succeeds, and what it makes of them; and the names of
the files that snapshots are kept in.

* `Items.read_eq_ok_iff`, `Items.write_eq_ok_iff`, `Items.move_eq_ok_iff`, `Items.remove_eq_ok_iff`:
  the operations, each by what it needs and does.
* `fileName_injective`, `draftName_injective`, `fileName_ne_draftName`: no two identifiers share a
  file, and no file is a draft.
-/

namespace AgentSurface.Session

/-! ### Operations that succeed -/

namespace Directory

variable {items next : Items} {name source target text : String}

/-- A name that can be a file is looked up among the items. -/
theorem Items.lookUp_of_isName (h : isName name = true) :
    items.lookUp name = .ok (items.find? name) := by
  rw [lookUp, if_pos h]

/-- No file has a name with a separator, or one that leads out of the directory. -/
theorem Items.lookUp_of_not_isName (h : ¬ isName name = true) :
    items.lookUp name = .error .refused := by
  rw [lookUp, if_neg h]

/-- What can be read are the texts of the files in the directory. -/
theorem Items.read_eq_ok_iff :
    items.read name = .ok text ↔ isName name = true ∧ items.find? name = some (.file text) := by
  unfold read
  by_cases hname : isName name = true
  · rw [lookUp_of_isName hname]
    rcases items.find? name with _ | _ | _ <;> simp [hname, bind, Except.bind]
  · simp [lookUp_of_not_isName hname, hname, bind, Except.bind]

/-- A file is absent only under a name that could be one; a folder is no absent file. -/
theorem Items.read_eq_absent_iff :
    items.read name = .error .absent ↔ isName name = true ∧ items.find? name = none := by
  unfold read
  by_cases hname : isName name = true
  · rw [lookUp_of_isName hname]
    rcases items.find? name with _ | _ | _ <;> simp [hname, bind, Except.bind]
  · simp [lookUp_of_not_isName hname, hname, bind, Except.bind]

/-- A file can be written in the place of a file or of nothing, and then holds the text. -/
theorem Items.write_eq_ok_iff :
    items.write name text = .ok next ↔
      isName name = true ∧ items.find? name ≠ some .folder ∧ next = items.put name (.file text) := by
  unfold write
  by_cases hname : isName name = true
  · rw [lookUp_of_isName hname]
    rcases items.find? name with _ | _ | _ <;> simp [hname, bind, Except.bind, eq_comm]
  · simp [lookUp_of_not_isName hname, hname, bind, Except.bind]

/-- An item is moved in the place of another one, which is gone then, but never over a folder. -/
theorem Items.move_eq_ok_iff :
    items.move source target = .ok next ↔
      isName source = true ∧ isName target = true ∧ items.find? target ≠ some .folder ∧
        ∃ item, items.find? source = some item ∧ next = (items.erase source).put target item := by
  unfold move
  by_cases hsource : isName source = true
  · by_cases htarget : isName target = true
    · rw [lookUp_of_isName hsource, lookUp_of_isName htarget]
      rcases items.find? source with _ | _ <;> rcases items.find? target with _ | _ | _ <;>
        simp [hsource, htarget, bind, Except.bind, eq_comm]
    · simp [lookUp_of_isName hsource, lookUp_of_not_isName htarget, htarget, bind, Except.bind]
  · simp [lookUp_of_not_isName hsource, hsource, bind, Except.bind]

/-- Only files are removed, and nothing else changes. -/
theorem Items.remove_eq_ok_iff :
    items.remove name = .ok next ↔
      isName name = true ∧ (∃ text, items.find? name = some (.file text)) ∧
        next = items.erase name := by
  unfold remove
  by_cases hname : isName name = true
  · rw [lookUp_of_isName hname]
    rcases items.find? name with _ | _ | _ <;> simp [hname, bind, Except.bind, eq_comm]
  · simp [lookUp_of_not_isName hname, hname, bind, Except.bind]

/-- What is not there is not removed, and is told apart from what may not be removed. -/
theorem Items.remove_eq_absent_iff :
    items.remove name = .error .absent ↔ isName name = true ∧ items.find? name = none := by
  unfold remove
  by_cases hname : isName name = true
  · rw [lookUp_of_isName hname]
    rcases items.find? name with _ | _ | _ <;> simp [hname, bind, Except.bind]
  · simp [lookUp_of_not_isName hname, hname, bind, Except.bind]

/-- A file that was written can be taken away. -/
theorem Items.remove_of_write (h : items.write name text = .ok next) :
    next.remove name = .ok (next.erase name) := by
  obtain ⟨hname, -, rfl⟩ := write_eq_ok_iff.1 h
  exact remove_eq_ok_iff.2 ⟨hname, ⟨text, (find?_put ..).trans (if_pos rfl)⟩, rfl⟩

/-- Where names are distinct, what is found under a name is what bears it. -/
theorem Items.find?_eq_some_iff (h : (items.map (·.1)).Nodup) {item : Item} :
    items.find? name = some item ↔ (name, item) ∈ items :=
  Keyed.lookUp_eq_some_iff h

/-- A name that no item has can be erased without effect. -/
theorem Items.erase_of_find?_none (h : items.find? name = none) : items.erase name = items := by
  refine List.filter_eq_self.2 fun entry hentry => ?_
  simpa using List.find?_eq_none.1 (Option.map_eq_none_iff.1 h) entry hentry

/-- What is put under a new name can be taken away again. -/
theorem Items.erase_put (h : items.find? name = none) (item : Item) :
    (items.put name item).erase name = items := by
  have hkept := erase_of_find?_none h
  rw [put, hkept, erase, List.filter_cons_of_neg (by simp)]
  exact hkept

/-- Erasing brings no new names. -/
theorem Items.mem_names_of_erase {other : String} (h : other ∈ (items.erase name).map (·.1)) :
    other ∈ items.map (·.1) :=
  (List.filter_sublist.map _).subset h

/-- Putting brings no other new name than its own. -/
theorem Items.mem_names_of_put {item : Item} {other : String}
    (h : other ∈ (items.put name item).map (·.1)) : other = name ∨ other ∈ items.map (·.1) :=
  (List.mem_cons.1 h).imp_right mem_names_of_erase

theorem Items.mem_names_of_find? {item : Item} (h : items.find? name = some item) :
    name ∈ items.map (·.1) := by
  obtain ⟨entry, hentry, rfl⟩ := Option.map_eq_some_iff.1 h
  have hname : entry.1 = name := by simpa using List.find?_some hentry
  exact hname ▸ List.mem_map_of_mem (List.mem_of_find?_eq_some hentry)

end Directory

/-! ### Names -/

/-- Sessions with different identifiers have different files. -/
theorem fileName_injective : Function.Injective Folder.fileName :=
  fun _ _ => (String.append_left_inj _).1

/-- Sessions with different identifiers have different drafts. -/
theorem draftName_injective : Function.Injective Folder.draftName :=
  fun _ _ => (String.append_left_inj _).1

/-- The file of a session is never the draft of one, so listings can tell them apart. -/
theorem fileName_ne_draftName (id other : String) : Folder.fileName id ≠ Folder.draftName other := by
  intro h
  have hlast := congrArg (fun name => name.toList.getLast?) h
  simp [Folder.fileName, Folder.draftName] at hlast

/-- A file has the ending of its format, if there is anything before that ending. -/
theorem extension?_fileName {id : String} (h : id ≠ "") :
    Directory.extension? (Folder.fileName id) = some "json" := by
  obtain ⟨c, cs, hcs⟩ : ∃ c cs, id.toList.reverse = c :: cs :=
    List.exists_cons_of_ne_nil (by simpa using h)
  have hreversed : (Folder.fileName id).toList.reverse =
      'n' :: 'o' :: 's' :: 'j' :: '.' :: c :: cs := by
    simp [Folder.fileName, hcs]
  rw [Directory.extension?, hreversed]
  rfl

end AgentSurface.Session
