import AgentSurface.Proofs.Session.Files

/-!
# Session — what a call does with the files

A call of the store in a directory is a script: operations of the file system, one after the other,
where what comes next depends on how the last one went.

* `Folder.save_eq`, `Folder.get_eq`, `Folder.list_eq`, `Folder.delete_eq`: each call is the run of
  its script.
* `Script.touched_of_files`: a run touches only files that the script names.
* `Script.touched_of_made_nil`: a script that makes no file touches only files that are there.
* `Folder.touched_save`, `Folder.touched_get`, `Folder.touched_delete`, `Folder.touched_list`: the
  files that each call touches.
-/

namespace AgentSurface.Session

open Directory (Obstacle Items)

/-! ### Operations and scripts -/

namespace Directory

/-- The names of what stands in a directory; none if there is no directory. -/
def entries (d : Directory) : List String :=
  match d.items with
  | .ok items => items.map (·.1)
  | .error _ => []

/-- Every name can be one, and none stands twice. -/
structure Items.Proper (items : Items) : Prop where
  names : ∀ entry ∈ items, isName entry.1 = true
  nodup : (items.map (·.1)).Nodup

/-- An operation of the file system, by what it gives. -/
inductive Operation : Type → Type where
  | create : Operation Unit
  /-- The names in the directory. -/
  | names : Operation (List String)
  | read (name : String) : Operation String
  | write (name text : String) : Operation Unit
  | move (source target : String) : Operation Unit
  | remove (name : String) : Operation Unit

/-- Change what stands in a directory, if it can be changed so. -/
def change (d : Directory) (operation : Items → Except Obstacle Items) :
    Except Obstacle Unit × Directory :=
  match d.items.bind operation with
  | .ok items => (.ok (), .holding items)
  | .error obstacle => (.error obstacle, d)

namespace Operation

variable {β : Type}

/-- Carry an operation out: what it gives, and the directory after it. -/
def on (d : Directory) : Operation β → Except Obstacle β × Directory
  | create =>
    match d.create with
    | .ok items => (.ok (), .holding items)
    | .error obstacle => (.error obstacle, d)
  | names => (d.items.map fun items => items.map (·.1), d)
  | read name => (d.items.bind (·.read name), d)
  | write name text => d.change (·.write name text)
  | move source target => d.change (·.move source target)
  | remove name => d.change (·.remove name)

/-- The files that an operation is about. -/
def files : Operation β → List String
  | create | names => []
  | read name | write name _ | remove name => [name]
  | move source target => [source, target]

/-- The files that an operation puts into the directory. -/
def made : Operation β → List String
  | create | names | read _ | remove _ => []
  | write name _ => [name]
  | move _ target => [target]

end Operation

/-- A change either is refused and leaves the directory alone, or is made of what stands there. -/
theorem change_cases (d : Directory) (operation : Items → Except Obstacle Items) :
    (∃ obstacle, d.change operation = (.error obstacle, d)) ∨
      ∃ items next, d.items = .ok items ∧ operation items = .ok next ∧
        d.change operation = (.ok (), .holding next) := by
  unfold change
  cases hitems : d.items with
  | error obstacle => exact .inl ⟨obstacle, rfl⟩
  | ok items =>
    cases hnext : operation items with
    | error obstacle => exact .inl ⟨obstacle, by simp [Except.bind, hnext]⟩
    | ok next => exact .inr ⟨items, next, rfl, hnext, by simp [Except.bind, hnext]⟩

theorem entries_of_items {d : Directory} {items : Items} (h : d.items = .ok items) :
    d.entries = items.map (·.1) := by
  rw [entries, h]

/-- An operation that is carried out needs files that are there or that it makes, and it leaves
nothing else there. -/
theorem Operation.on_cases {β : Type} (operation : Operation β) (d : Directory) :
    (∃ obstacle, operation.on d = (.error obstacle, d)) ∨
      (∀ name ∈ operation.files, name ∈ d.entries ∨ name ∈ operation.made) ∧
      ∀ name ∈ (operation.on d).2.entries, name ∈ d.entries ∨ name ∈ operation.made := by
  cases operation with
  | create =>
    cases d with
    | missing => exact .inr ⟨List.forall_mem_nil _, List.forall_mem_nil _⟩
    | blocked => exact .inl ⟨_, rfl⟩
    | holding items => exact .inr ⟨List.forall_mem_nil _, fun _ => .inl⟩
  | names => exact .inr ⟨List.forall_mem_nil _, fun _ => .inl⟩
  | read name =>
    cases hitems : d.items with
    | error obstacle => exact .inl ⟨obstacle, by rw [on, hitems]; rfl⟩
    | ok items =>
      cases hread : items.read name with
      | error obstacle => exact .inl ⟨obstacle, by simp [on, hitems, Except.bind, hread]⟩
      | ok text =>
        refine .inr ⟨List.forall_mem_singleton.2 (.inl ?_), fun _ => .inl⟩
        rw [entries_of_items hitems]
        exact Items.mem_names_of_find? (Items.read_eq_ok_iff.1 hread).2
  | write name text =>
    refine (d.change_cases (·.write name text)).imp id ?_
    rintro ⟨items, next, hitems, hnext, hchange⟩
    obtain ⟨-, -, rfl⟩ := Items.write_eq_ok_iff.1 hnext
    refine ⟨fun _ => .inr, fun other hother => ?_⟩
    rw [on, hchange] at hother
    rw [entries_of_items hitems]
    exact (Items.mem_names_of_put hother).symm.imp_right List.mem_singleton.2
  | move source target =>
    refine (d.change_cases (·.move source target)).imp id ?_
    rintro ⟨items, next, hitems, hnext, hchange⟩
    obtain ⟨-, -, -, item, hitem, rfl⟩ := Items.move_eq_ok_iff.1 hnext
    rw [entries_of_items hitems, on, hchange]
    refine ⟨List.forall_mem_cons.2 ⟨.inl (Items.mem_names_of_find? hitem), fun _ => .inr⟩,
      fun other hother => ?_⟩
    exact (Items.mem_names_of_put hother).symm.imp Items.mem_names_of_erase List.mem_singleton.2
  | remove name =>
    refine (d.change_cases (·.remove name)).imp id ?_
    rintro ⟨items, next, hitems, hnext, hchange⟩
    obtain ⟨-, ⟨text, hfound⟩, rfl⟩ := Items.remove_eq_ok_iff.1 hnext
    rw [entries_of_items hitems, on, hchange]
    exact ⟨List.forall_mem_singleton.2 (.inl (Items.mem_names_of_find? hfound)),
      fun other hother => .inl (Items.mem_names_of_erase hother)⟩

end Directory

open Directory (Operation)

/-- Operations, one after the other, and an answer in the end. -/
inductive Script (α : Type) : Type 1 where
  | done (answer : α)
  | act {β : Type} (operation : Operation β) (next : Except Obstacle β → Script α)

namespace Script

variable {α : Type} {allowed : String → Prop} {script : Script α}

/-- Run a script: its answer, and the directory after it. -/
def run (d : Directory) : Script α → α × Directory
  | done answer => (answer, d)
  | act operation next => run (operation.on d).2 (next (operation.on d).1)

/-- The files of the operations that a run carries out. -/
def touched (d : Directory) : Script α → List String
  | done _ => []
  | act operation next =>
    (if (operation.on d).1.isOk then operation.files else []) ++
      touched (operation.on d).2 (next (operation.on d).1)

/-- The script with another answer. -/
def map {γ : Type} (g : α → γ) : Script α → Script γ
  | done answer => done (g answer)
  | act operation next => act operation fun result => (next result).map g

theorem run_map {γ : Type} (g : α → γ) (script : Script α) (d : Directory) :
    (script.map g).run d = (g (script.run d).1, (script.run d).2) := by
  induction script generalizing d with
  | done answer => rfl
  | act operation next ih => exact ih _ _

theorem touched_map {γ : Type} (g : α → γ) (script : Script α) (d : Directory) :
    (script.map g).touched d = script.touched d := by
  induction script generalizing d with
  | done answer => rfl
  | act operation next ih => exact congrArg _ (ih _ _)

/-- However its operations go, the script has no others than these. -/
def All (allowed : ∀ β : Type, Operation β → Prop) : Script α → Prop
  | done _ => True
  | act operation next => allowed _ operation ∧ ∀ result, (next result).All allowed

/-- **A run touches no file that its script does not name.** -/
theorem touched_of_files (h : script.All fun _ operation => ∀ name ∈ operation.files, allowed name)
    (d : Directory) : ∀ name ∈ script.touched d, allowed name := by
  induction script generalizing d with
  | done answer => exact List.forall_mem_nil _
  | act operation next ih =>
    obtain ⟨hfiles, hnext⟩ := h
    refine List.forall_mem_append.2 ⟨?_, ih _ (hnext _) _⟩
    split
    · exact hfiles
    · exact List.forall_mem_nil _

/-- **A script that makes no file touches only files that are there.** -/
theorem touched_of_made_nil (h : script.All fun _ operation => operation.made = [])
    (d : Directory) : ∀ name ∈ script.touched d, name ∈ d.entries := by
  induction script generalizing d with
  | done answer => exact List.forall_mem_nil _
  | act operation next ih =>
    obtain ⟨hmade, hnext⟩ := h
    rw [touched]
    rcases operation.on_cases d with ⟨obstacle, hobstacle⟩ | ⟨hfiles, hentries⟩
    · rw [hobstacle]
      exact ih _ (hnext _) d
    rw [hmade] at hfiles hentries
    refine List.forall_mem_append.2 ⟨?_, fun name hname => ?_⟩
    · split
      · exact fun name hname => (hfiles name hname).resolve_right List.not_mem_nil
      · exact List.forall_mem_nil _
    · exact (hentries name (ih _ (hnext _) _ name hname)).resolve_right List.not_mem_nil

end Script

namespace Folder

variable {f : Folder} {s : Snapshot} {id : String} {filter : Filter}

/-! ### The scripts of the calls -/

/-- The calls to the file system that a save makes. -/
def saveScript (f : Folder) (s : Snapshot) : Script (Except StoreFault String) :=
  if isSafe s.id then
    .act .create fun
      | .error _ => .done (.error (.notCreated f.path))
      | .ok () => .act (.write (draftName s.id) (encode s)) fun
        | .error _ => .done (.error (.notWritten (f.pathOf (draftName s.id))))
        | .ok () => .act (.move (draftName s.id) (fileName s.id)) fun
          | .ok () => .done (.ok s.id)
          | .error _ => .act (.remove (draftName s.id)) fun _ =>
            .done (.error (.notMoved (f.pathOf (fileName s.id))))
  else .done (.error (.invalidId s.id))

/-- The calls to the file system that a read makes. -/
def getScript (f : Folder) (id : String) : Script (Except StoreFault (Option Snapshot)) :=
  if isSafe id then
    .act (.read (fileName id)) fun
      | .error .absent => .done (.ok none)
      | .error .refused => .done (.error (.notRead (f.pathOf (fileName id))))
      | .ok text =>
        match decode? text with
        | some s => .done (.ok (some s))
        | none => .done (.error (.notParsed (f.pathOf (fileName id))))
  else .done (.error (.invalidId id))

/-- Read files one after the other, and go on with the snapshots that they hold. -/
def readEach {α : Type} : List String → (List Snapshot → Script α) → Script α
  | [], next => next []
  | name :: rest, next => .act (.read name) fun result =>
    readEach rest fun snapshots => next ((result.toOption.bind decode?).toList ++ snapshots)

/-- The calls to the file system that a listing makes. -/
def listScript (f : Folder) (filter : Filter) : Script (Except StoreFault (List Snapshot)) :=
  .act .names fun
    | .error .absent => .done (.ok [])
    | .error .refused => .done (.error (.notRead f.path))
    | .ok names =>
      readEach (names.filter fun name => Directory.extension? name == some "json") fun snapshots =>
        .done (.ok (filter.apply snapshots))

/-- The calls to the file system that a delete makes. -/
def deleteScript (f : Folder) (id : String) : Script (Except StoreFault Bool) :=
  if isSafe id then
    .act (.remove (fileName id)) fun
      | .ok () => .done (.ok true)
      | .error .absent => .done (.ok false)
      | .error .refused => .done (.error (.notDeleted (f.pathOf (fileName id))))
  else .done (.error (.invalidId id))

/-! ### The calls are their scripts -/

/-- Saving is running the script of a save. -/
theorem save_eq (f : Folder) (s : Snapshot) :
    f.save s = (((f.saveScript s).run f.content).1,
      { f with content := ((f.saveScript s).run f.content).2 }) := by
  unfold save saveScript
  split
  · simp only [Script.run, Operation.on]
    cases f.content.create with
    | error obstacle => rfl
    | ok items =>
      simp only [write, Script.run, Operation.on, Directory.change, Directory.items, Except.bind]
      cases hwrite : items.write (draftName s.id) (encode s) with
      | error obstacle => rfl
      | ok drafted =>
        simp only [Script.run, Operation.on, Directory.change, Directory.items, Except.bind]
        cases drafted.move (draftName s.id) (fileName s.id) with
        | ok moved => rfl
        | error obstacle =>
          -- The draft that cannot be moved was written, so it can be taken away.
          simp only [Script.run, Operation.on, Directory.change, Directory.items, Except.bind,
            Items.remove_of_write hwrite]
  · rfl

/-- Reading is running the script of a read, which leaves the directory as it was. -/
theorem get_eq (f : Folder) (id : String) :
    (f.getScript id).run f.content = (f.get id, f.content) := by
  unfold get getScript
  split
  · simp only [Script.run, Operation.on]
    cases f.content.items.bind (·.read (fileName id)) with
    | error obstacle => cases obstacle <;> rfl
    | ok text =>
      dsimp only
      cases decode? text <;> rfl
  · rfl

/-- Deleting is running the script of a delete. -/
theorem delete_eq (f : Folder) (id : String) :
    f.delete id = (((f.deleteScript id).run f.content).1,
      { f with content := ((f.deleteScript id).run f.content).2 }) := by
  unfold delete deleteScript
  split
  · simp only [Script.run, Operation.on, Directory.change]
    cases f.content.items.bind (·.remove (fileName id)) with
    | error obstacle => cases obstacle <;> rfl
    | ok items => rfl
  · rfl

/-! ### Listings -/

theorem run_readEach {α : Type} (names : List String) (next : List Snapshot → Script α)
    (d : Directory) :
    (readEach names next).run d =
      (next (names.filterMap fun name =>
        (d.items.bind (·.read name)).toOption.bind decode?)).run d := by
  induction names generalizing next with
  | nil => rfl
  | cons name rest ih =>
    show (readEach rest fun snapshots =>
      next (((d.items.bind (·.read name)).toOption.bind decode?).toList ++ snapshots)).run d = _
    rw [ih, List.filterMap_cons]
    cases (d.items.bind (·.read name)).toOption.bind decode? <;> rfl

/-- Reading the files with the ending of a snapshot gives what is listed. -/
theorem filterMap_read {items : Items} (h : items.Proper) :
    ((items.map (·.1)).filter fun name => Directory.extension? name == some "json").filterMap
      (fun name => (items.read name).toOption.bind decode?) = snapshots items := by
  rw [List.filter_map, List.filterMap_map, List.filterMap_filter, snapshots]
  refine List.filterMap_congr fun entry hentry => ?_
  obtain ⟨name, item⟩ := entry
  have hfound : items.find? name = some item := (Items.find?_eq_some_iff h.nodup).2 hentry
  have hlookUp : items.lookUp name = .ok (items.find? name) :=
    Items.lookUp_of_isName (h.names _ hentry)
  by_cases hjson : Directory.extension? name = some "json" <;>
    cases item <;> simp [Items.read, hlookUp, hfound, hjson, bind, Except.bind, Except.toOption]

/-- Listing is running the script of a listing, where the directory's names are proper. -/
theorem list_eq (h : ∀ items, f.content = .holding items → items.Proper) :
    (f.listScript filter).run f.content = (f.list filter, f.content) := by
  rw [listScript, list, Script.run]
  cases hcontent : f.content with
  | missing => rfl
  | blocked => rfl
  | holding items =>
    dsimp only [Operation.on, Directory.items, Except.map]
    rw [run_readEach]
    dsimp only [Directory.items, Except.bind]
    rw [filterMap_read (h items hcontent)]
    rfl

/-! ### The operations of the calls -/

section

variable {allowed : ∀ β : Type, Operation β → Prop}

theorem all_saveScript (h : isSafe s.id = true → allowed _ .create ∧
      allowed _ (.write (draftName s.id) (encode s)) ∧
      allowed _ (.move (draftName s.id) (fileName s.id)) ∧ allowed _ (.remove (draftName s.id))) :
    (f.saveScript s).All allowed := by
  unfold saveScript
  split
  · next hsafe =>
    obtain ⟨hcreate, hwrite, hmove, hremove⟩ := h hsafe
    refine ⟨hcreate, ?_⟩
    rintro (_ | _)
    · trivial
    refine ⟨hwrite, ?_⟩
    rintro (_ | _)
    · trivial
    refine ⟨hmove, ?_⟩
    rintro (_ | _)
    · exact ⟨hremove, fun _ => trivial⟩
    · trivial
  · trivial

theorem all_getScript (h : isSafe id = true → allowed _ (.read (fileName id))) :
    (f.getScript id).All allowed := by
  unfold getScript
  split
  · next hsafe =>
    refine ⟨h hsafe, ?_⟩
    rintro (⟨_ | _⟩ | text)
    · trivial
    · trivial
    · dsimp only
      split <;> trivial
  · trivial

theorem all_deleteScript (h : isSafe id = true → allowed _ (.remove (fileName id))) :
    (f.deleteScript id).All allowed := by
  unfold deleteScript
  split
  · next hsafe =>
    refine ⟨h hsafe, ?_⟩
    rintro (⟨_ | _⟩ | _) <;> trivial
  · trivial

theorem all_readEach {α : Type} {names : List String} {next : List Snapshot → Script α}
    (h : ∀ name, allowed _ (.read name)) (hnext : ∀ snapshots, (next snapshots).All allowed) :
    (readEach names next).All allowed := by
  induction names generalizing next with
  | nil => exact hnext []
  | cons name rest ih => exact ⟨h name, fun _ => ih fun _ => hnext _⟩

theorem all_listScript (hnames : allowed _ .names) (h : ∀ name, allowed _ (.read name)) :
    (f.listScript filter).All allowed := by
  refine ⟨hnames, ?_⟩
  rintro (⟨_ | _⟩ | names)
  · trivial
  · trivial
  · exact all_readEach h fun _ => trivial

end

/-! ### The files of the calls -/

/-- The file and the draft of an identifier that can name files. -/
def Owns (id name : String) : Prop := isSafe id = true ∧ (name = fileName id ∨ name = draftName id)

/-- A save touches only the files that belong to its id. -/
theorem touched_save (d : Directory) :
    ∀ name ∈ (f.saveScript s).touched d, Owns s.id name := by
  refine Script.touched_of_files (all_saveScript fun hsafe => ?_) d
  have hfile : Owns s.id (fileName s.id) := ⟨hsafe, .inl rfl⟩
  have hdraft : Owns s.id (draftName s.id) := ⟨hsafe, .inr rfl⟩
  exact ⟨List.forall_mem_nil _, List.forall_mem_singleton.2 hdraft,
    List.forall_mem_cons.2 ⟨hdraft, List.forall_mem_singleton.2 hfile⟩,
    List.forall_mem_singleton.2 hdraft⟩

/-- A read touches only the file of its id, and only if it exists. -/
theorem touched_get (d : Directory) :
    ∀ name ∈ (f.getScript id).touched d, Owns id name ∧ name ∈ d.entries := by
  refine fun name hname =>
    ⟨?_, Script.touched_of_made_nil (all_getScript fun _ => rfl) d name hname⟩
  refine Script.touched_of_files (all_getScript fun hsafe => ?_) d name hname
  exact List.forall_mem_singleton.2 ⟨hsafe, .inl rfl⟩

/-- A delete touches only the file of its id, and only if it exists. -/
theorem touched_delete (d : Directory) :
    ∀ name ∈ (f.deleteScript id).touched d, Owns id name ∧ name ∈ d.entries := by
  refine fun name hname =>
    ⟨?_, Script.touched_of_made_nil (all_deleteScript fun _ => rfl) d name hname⟩
  refine Script.touched_of_files (all_deleteScript fun hsafe => ?_) d name hname
  exact List.forall_mem_singleton.2 ⟨hsafe, .inl rfl⟩

/-- A listing touches only files that exist. -/
theorem touched_list (d : Directory) :
    ∀ name ∈ (f.listScript filter).touched d, name ∈ d.entries :=
  Script.touched_of_made_nil (all_listScript rfl fun _ => rfl) d

end Folder
end AgentSurface.Session
