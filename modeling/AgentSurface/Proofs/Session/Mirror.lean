import AgentSurface.Proofs.Json.Writing
import AgentSurface.Proofs.Session.Calls
import AgentSurface.Proofs.Session.Files
import AgentSurface.Proofs.Session.Listing
import AgentSurface.Proofs.Session.Wire

/-!
# Session — a directory that mirrors a store in memory

A directory holds what a store in memory holds if there is a file for each snapshot, and nothing else,
in whatever order (`Mirrors`).  Then both stores answer a request alike, and mirror each other again
after it.

* `Mirrors.on`: one request, of the two stores.
* `Mirrors.reordered`: the order of the directory does not matter.
-/

namespace AgentSurface.Session

open Directory (Items)

variable {f : Folder} {m : Memory} {s : Snapshot} {id : String}

/-! ### Requests of a store -/

/-- What a store answers. -/
inductive Reply where
  | saved (id : String)
  | found (snapshot : Option Snapshot)
  | listed (snapshots : List Snapshot)
  | deleted (existed : Bool)

namespace Request

/-- Make a request of a store: the reply, and the store after it. -/
def on {σ : Type} [Store σ] (store : σ) : Request → Except StoreFault Reply × σ
  | save s => ((Store.save store s).1.map .saved, (Store.save store s).2)
  | get id => ((Store.get store id).map .found, store)
  | list filter => ((Store.list store filter).map .listed, store)
  | delete id => ((Store.delete store id).1.map .deleted, (Store.delete store id).2)

/-- The identifier of the request, if it has one, can name a file: it has letters, digits, `-` and
`_` only, and is not empty. -/
def isSafe (r : Request) : Bool := r.id?.all Folder.isSafe

end Request

/-! ### What is kept in files -/

/-- A snapshot that can be kept in files: its wire form can hold it, its files have names that are not
too long, and what its file says is read as it was written. -/
structure Snapshot.Fileable (s : Snapshot) : Prop where
  name : Directory.isName (Folder.draftName s.id) = true
  surface : s.surface.Proper
  times : ∀ t ∈ s.times, Timely t
  read : Json.read (Folder.encode s).toList = .ok s.toJson

/-- The file of a snapshot without fractional numbers is read as it was written, unless the snapshot
is nested deeper than the reader goes. -/
theorem Snapshot.read_encode (h : s.toJson.Writable) (hdepth : s.toJson.nesting ≤ Json.maxDepth) :
    Json.read (Folder.encode s).toList = .ok s.toJson := by
  rw [Folder.encode, Json.pretty, String.toList_ofList]
  exact (Json.written_prettyAt 0 _ h).read_eq hdepth

/-- The names of files that the request needs are not too long, and what it saves can be kept. -/
def Request.Fits : Request → Prop
  | save s => s.Fileable
  | get id | delete id => Directory.isName (Folder.fileName id) = true
  | list _ => True

/-- A snapshot that can be filed is read back from its file as it was. -/
theorem Snapshot.Fileable.decode?_encode (h : s.Fileable) :
    Folder.decode? (Folder.encode s) = some s := by
  rw [Folder.decode?, h.read]
  exact Snapshot.ofJson?_toJson h.surface h.times

/-- The name of a file is shorter than that of the draft. -/
theorem isName_fileName (h : Directory.isName (Folder.draftName id) = true) :
    Directory.isName (Folder.fileName id) = true := by
  have hsizes : (".json" : String).utf8ByteSize = 5 ∧ (".json.tmp" : String).utf8ByteSize = 9 := by
    decide
  simp only [Directory.isName, Folder.draftName, Folder.fileName, String.utf8ByteSize_append,
    decide_eq_true_eq] at h ⊢
  omega

/-- A snapshot in its file. -/
def filed (s : Snapshot) : String × Directory.Item := (Folder.fileName s.id, .file (Folder.encode s))

/-- The snapshot that an item of a directory holds, if it is the file of one. -/
def readFiled (entry : String × Directory.Item) : Option Snapshot :=
  match Directory.extension? entry.1, entry.2 with
  | some "json", .file text => Folder.decode? text
  | _, _ => none

/-- What stands in a directory, up to the order; a directory that is missing holds nothing. -/
inductive Holds (files : Items) : Directory → Prop where
  | missing (h : files = []) : Holds files .missing
  | holding {items : Items} (h : items.Perm files) : Holds files (.holding items)

theorem Holds.create {files : Items} {d : Directory} (h : Holds files d) :
    ∃ items, d.create = .ok items ∧ items.Perm files := by
  cases h with
  | missing hfiles => exact ⟨[], rfl, .of_eq hfiles.symm⟩
  | holding hitems => exact ⟨_, rfl, hitems⟩

/-- A directory holds what a store in memory holds. -/
structure Mirrors (f : Folder) (m : Memory) : Prop where
  holds : Holds (m.snapshots.map filed) f.content
  ids : (m.snapshots.map Snapshot.id).Nodup
  safe : ∀ s ∈ m.snapshots, Folder.isSafe s.id = true
  fileable : ∀ s ∈ m.snapshots, s.Fileable

/-! ### Stores in memory -/

namespace Memory

/-- Up to order, putting in a snapshot replaces the one of its id. -/
theorem perm_putInto {snapshots : List Snapshot} (h : (snapshots.map Snapshot.id).Nodup) :
    (putInto s snapshots).Perm (s :: snapshots.filter (·.id != s.id)) := by
  induction snapshots with
  | nil => exact .refl _
  | cons old rest ih =>
    obtain ⟨hnew, hrest⟩ := List.nodup_cons.1 h
    rw [putInto]
    by_cases hid : old.id = s.id
    · have hkept : rest.filter (·.id != s.id) = rest := by
        refine List.filter_eq_self.2 fun x hx => ?_
        have hne : x.id ≠ s.id := fun heq => hnew (hid ▸ heq ▸ List.mem_map_of_mem hx)
        simpa using hne
      rw [if_pos hid, List.filter_cons_of_neg (by simpa using hid), hkept]
    · rw [if_neg hid, List.filter_cons_of_pos (by simpa using hid)]
      exact ((ih hrest).cons old).trans (.swap _ _ _)

/-- Each id is still kept once after a snapshot is put in. -/
theorem nodup_put (h : (m.snapshots.map Snapshot.id).Nodup) (s : Snapshot) :
    ((m.put s).snapshots.map Snapshot.id).Nodup := by
  refine ((perm_putInto h).map Snapshot.id).nodup_iff.2 (List.nodup_cons.2 ⟨?_, ?_⟩)
  · simp
  · exact h.sublist (List.filter_sublist.map _)

end Memory

theorem Memory.drop_of_none (h : m.get? id = none) : m.drop id = m := by
  refine congrArg Memory.mk (List.filter_eq_self.2 fun s hs => ?_)
  simpa using List.find?_eq_none.1 h s hs

/-! ### Files of snapshots -/

section

variable {items : Items} (hitems : items.Perm (m.snapshots.map filed))

include hitems

/-- No draft is among them. -/
theorem find?_draftName (id : String) : items.find? (Folder.draftName id) = none := by
  refine Option.eq_none_iff_forall_not_mem.2 fun item hitem => ?_
  have hmem := Items.mem_names_of_find? hitem
  rw [(hitems.map _).mem_iff, List.map_map] at hmem
  obtain ⟨s, -, hs⟩ := List.mem_map.1 hmem
  exact fileName_ne_draftName s.id id hs

/-- Without the file of an identifier they are the files of a store without its snapshot. -/
theorem perm_erase (id : String) :
    (items.erase (Folder.fileName id)).Perm ((m.drop id).snapshots.map filed) := by
  have hfiles : (m.snapshots.map filed).filter (·.1 != Folder.fileName id) =
      (m.drop id).snapshots.map filed := by
    rw [List.filter_map, Memory.drop]
    refine congrArg (List.map filed) (List.filter_congr fun s _ => ?_)
    simp [filed, fileName_injective.eq_iff, bne]
  exact (hitems.filter _).trans (.of_eq hfiles)

end

/-! ### Looking at a directory -/

namespace Mirrors

theorem nodup_names (h : Mirrors f m) : ((m.snapshots.map filed).map Prod.fst).Nodup := by
  have hnames : (m.snapshots.map filed).map Prod.fst =
      (m.snapshots.map Snapshot.id).map Folder.fileName := by
    simp only [List.map_map]
    rfl
  rw [hnames]
  exact h.ids.map fileName_injective

/-- Under the name of a file stands what the store in memory has under the identifier. -/
theorem find?_fileName (h : Mirrors f m) {items : Items} (hitems : items.Perm (m.snapshots.map filed))
    (id : String) : items.find? (Folder.fileName id) =
      (m.get? id).map fun s => .file (Folder.encode s) := by
  refine Option.ext fun item => ?_
  rw [Items.find?_eq_some_iff ((hitems.map _).nodup_iff.2 h.nodup_names), hitems.mem_iff,
    List.mem_map, Option.map_eq_some_iff]
  refine exists_congr fun s => ?_
  rw [Memory.get?, Keyed.find?_eq_some_iff h.ids, and_assoc, filed, Prod.mk.injEq,
    fileName_injective.eq_iff]

/-- A folder that mirrors the memory reads what the memory holds. -/
theorem get_eq (h : Mirrors f m) (hsafe : Folder.isSafe id = true)
    (hname : Directory.isName (Folder.fileName id) = true) : f.get id = .ok (m.get? id) := by
  rw [Folder.get, if_pos hsafe]
  obtain ⟨path, content⟩ := f
  cases h.holds with
  | missing hfiles =>
    rw [Memory.get?, List.map_eq_nil_iff.1 hfiles]
    rfl
  | @holding items hitems =>
    have hfound := h.find?_fileName hitems id
    cases hm : m.get? id with
    | none =>
      have hread : items.read (Folder.fileName id) = .error .absent :=
        Items.read_eq_absent_iff.2 ⟨hname, by rw [hfound, hm]; rfl⟩
      simp only [Directory.items, Except.bind, hread]
    | some s =>
      have hread : items.read (Folder.fileName id) = .ok (Folder.encode s) :=
        Items.read_eq_ok_iff.2 ⟨hname, by rw [hfound, hm]; rfl⟩
      have hdecode := (h.fileable s (List.mem_of_find?_eq_some hm)).decode?_encode
      simp only [Directory.items, Except.bind, hread, hdecode]

/-- A folder that mirrors the memory lists what the memory lists. -/
theorem list_eq (h : Mirrors f m) (filter : Filter) :
    f.list filter = .ok (filter.apply m.snapshots) := by
  obtain ⟨path, content⟩ := f
  cases h.holds with
  | missing hfiles =>
    rw [List.map_eq_nil_iff.1 hfiles]
    cases hlimit : filter.limit <;> simp [Folder.list, Directory.items, Filter.apply, hlimit]
  | @holding items hitems =>
    have hread : ∀ s ∈ m.snapshots, readFiled (filed s) = some s := fun s hs => by
      have hne : s.id ≠ "" := fun heq => by simpa [heq, Folder.isSafe] using h.safe s hs
      simp only [readFiled, filed, extension?_fileName hne, (h.fileable s hs).decode?_encode]
    have hsnapshots : (m.snapshots.map filed).filterMap readFiled = m.snapshots := by
      rw [List.filterMap_map]
      exact (List.filterMap_congr hread).trans List.filterMap_some
    have hperm : m.snapshots.Perm (Folder.snapshots items) :=
      (List.Perm.of_eq hsnapshots.symm).trans (hitems.symm.filterMap _)
    exact congrArg Except.ok (filter.apply_perm hperm h.ids).symm

/-! ### Changing a directory -/

theorem drop (h : Mirrors f m) {content : Directory}
    (hcontent : Holds ((m.drop id).snapshots.map filed) content) :
    Mirrors { f with content } (m.drop id) where
  holds := hcontent
  ids := h.ids.sublist (List.filter_sublist.map _)
  safe s hs := h.safe s (List.mem_filter.1 hs).1
  fileable s hs := h.fileable s (List.mem_filter.1 hs).1

theorem put (h : Mirrors f m) (hsafe : Folder.isSafe s.id = true) (hs : s.Fileable)
    {content : Directory} (hcontent : Holds ((m.put s).snapshots.map filed) content) :
    Mirrors { f with content } (m.put s) where
  holds := hcontent
  ids := Memory.nodup_put h.ids s
  safe x hx := (Memory.mem_putInto hx).elim (fun heq => heq ▸ hsafe) (h.safe x)
  fileable x hx := (Memory.mem_putInto hx).elim (fun heq => heq ▸ hs) (h.fileable x)

/-- A delete answers alike in both and leaves them mirrors. -/
theorem delete_eq (h : Mirrors f m) (hsafe : Folder.isSafe id = true)
    (hname : Directory.isName (Folder.fileName id) = true) :
    (f.delete id).1 = .ok (m.get? id).isSome ∧ Mirrors (f.delete id).2 (m.drop id) := by
  rw [Folder.delete, if_pos hsafe]
  obtain ⟨path, content⟩ := f
  cases h.holds with
  | missing hfiles =>
    have hm : m.get? id = none := by
      rw [Memory.get?, List.map_eq_nil_iff.1 hfiles]
      rfl
    rw [hm, Memory.drop_of_none hm]
    exact ⟨rfl, h⟩
  | @holding items hitems =>
    have hfound := h.find?_fileName hitems id
    cases hm : m.get? id with
    | none =>
      have hremove : items.remove (Folder.fileName id) = .error .absent :=
        Items.remove_eq_absent_iff.2 ⟨hname, by rw [hfound, hm]; rfl⟩
      simp only [Directory.items, Except.bind, hremove, Memory.drop_of_none hm]
      exact ⟨rfl, h⟩
    | some s =>
      have hremove : items.remove (Folder.fileName id) = .ok (items.erase (Folder.fileName id)) :=
        Items.remove_eq_ok_iff.2 ⟨hname, ⟨_, by rw [hfound, hm]; rfl⟩, rfl⟩
      simp only [Directory.items, Except.bind, hremove]
      exact ⟨rfl, h.drop (.holding (perm_erase hitems id))⟩

/-- A save puts the file of the snapshot in the place of the one before, and leaves no draft. -/
theorem write_eq (h : Mirrors f m) {items : Items} (hitems : items.Perm (m.snapshots.map filed))
    (hs : s.Fileable) :
    f.write s items = (.ok s.id, filed s :: items.erase (Folder.fileName s.id)) := by
  have hdraft := find?_draftName hitems s.id
  have hfile := h.find?_fileName hitems s.id
  have hwrite : items.write (Folder.draftName s.id) (Folder.encode s) =
      .ok (items.put (Folder.draftName s.id) (.file (Folder.encode s))) :=
    Items.write_eq_ok_iff.2 ⟨hs.name, by simp [hdraft], rfl⟩
  have hmove : (items.put (Folder.draftName s.id) (.file (Folder.encode s))).move
      (Folder.draftName s.id) (Folder.fileName s.id) =
      .ok (items.put (Folder.fileName s.id) (.file (Folder.encode s))) := by
    refine Items.move_eq_ok_iff.2
      ⟨hs.name, isName_fileName hs.name, ?_, _, ?_, by rw [Items.erase_put hdraft]⟩
    · rw [Items.find?_put, if_neg (fileName_ne_draftName _ _).symm, hfile]
      cases m.get? s.id <;> simp
    · rw [Items.find?_put, if_pos rfl]
  rw [Folder.write, hwrite]
  dsimp only
  rw [hmove]
  rfl

/-- A save answers alike in both and leaves them mirrors. -/
theorem save_eq (h : Mirrors f m) (hsafe : Folder.isSafe s.id = true) (hs : s.Fileable) :
    (f.save s).1 = .ok s.id ∧ Mirrors (f.save s).2 (m.put s) := by
  obtain ⟨items, hcreate, hitems⟩ := h.holds.create
  have hperm : (filed s :: items.erase (Folder.fileName s.id)).Perm
      ((m.put s).snapshots.map filed) :=
    ((perm_erase hitems s.id).cons (filed s)).trans
      ((Memory.perm_putInto h.ids).map filed).symm
  rw [Folder.save, if_pos hsafe, hcreate]
  dsimp only
  rw [h.write_eq hitems hs]
  exact ⟨rfl, h.put hsafe hs (.holding hperm)⟩

/-! ### Requests -/

theorem reordered (h : Mirrors f m) {d : Directory} (hd : Holds (m.snapshots.map filed) d) :
    Mirrors { f with content := d } m :=
  ⟨hd, h.ids, h.safe, h.fileable⟩

/-- **Stores that mirror each other answer alike, and mirror each other after the answer.** -/
theorem on (h : Mirrors f m) {r : Request} (hsafe : r.isSafe = true) (hfits : r.Fits) :
    (r.on f).1 = (r.on m).1 ∧ Mirrors (r.on f).2 (r.on m).2 := by
  cases r with
  | save s =>
    obtain ⟨hanswer, hnext⟩ := h.save_eq hsafe hfits
    exact ⟨congrArg (Except.map Reply.saved) hanswer, hnext⟩
  | get id => exact ⟨congrArg (Except.map Reply.found) (h.get_eq hsafe hfits), h⟩
  | list filter => exact ⟨congrArg (Except.map Reply.listed) (h.list_eq filter), h⟩
  | delete id =>
    obtain ⟨hanswer, hnext⟩ := h.delete_eq hsafe hfits
    exact ⟨congrArg (Except.map Reply.deleted) hanswer, hnext⟩

end Mirrors
end AgentSurface.Session
