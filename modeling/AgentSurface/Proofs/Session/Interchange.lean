import AgentSurface.Proofs.Session.Footprint
import AgentSurface.Proofs.Session.Mirror

/-!
# Session — the store in a directory is as good as the store in memory

A `Turn` is a request together with an order in which the directory is read while it is answered.  In
a history of turns that begins with a directory that is missing or empty, the directory mirrors at
each turn the store in memory that was given the same requests.

* `Mirrors.on_eq_run`: what a request does is what its script does, so the files that it touches are
  those of the operations of the script.
* `stores_interchangeable`: the answers of the two stores, and the files that are there and that are
  touched.
-/

namespace AgentSurface.Session

open Directory (Items)

/-! ### Histories -/

/-- A request, and an order of the directory. -/
structure Turn where
  request : Request
  order : Items → Items
  perm : ∀ items, (order items).Perm items

/-- The directory in another order. -/
def Directory.reordered (order : Items → Items) : Directory → Directory
  | .holding items => .holding (order items)
  | d => d

namespace Folder

/-- The folder with its directory read in another order. -/
def reordered (f : Folder) (order : Items → Items) : Folder :=
  { f with content := f.content.reordered order }

/-- The script of a request. -/
def script (f : Folder) : Request → Script (Except StoreFault Reply)
  | .save s => (f.saveScript s).map (Except.map .saved)
  | .get id => (f.getScript id).map (Except.map .found)
  | .list filter => (f.listScript filter).map (Except.map .listed)
  | .delete id => (f.deleteScript id).map (Except.map .deleted)

/-- The files that are touched while a request is answered. -/
def touched (f : Folder) (r : Request) : List String := (f.script r).touched f.content

end Folder

/-- Take a turn: the reply, and the directory after it. -/
def Turn.on (t : Turn) (f : Folder) : Except StoreFault Reply × Folder :=
  t.request.on (f.reordered t.order)

namespace Folder

/-- The requests of a history, each with its reply. -/
def replies (f : Folder) : List Turn → List (Request × Except StoreFault Reply)
  | [] => []
  | t :: rest => (t.request, (t.on f).1) :: (t.on f).2.replies rest

/-- The directory behind a history. -/
def after (f : Folder) (turns : List Turn) : Folder := turns.foldl (fun f t => (t.on f).2) f

/-- The paths of the files that are touched in a history. -/
def paths (f : Folder) : List Turn → List String
  | [] => []
  | t :: rest => ((f.reordered t.order).touched t.request).map f.pathOf ++ (t.on f).2.paths rest

/-- The path is that of the file of the identifier, or of its draft. -/
def Keeps (f : Folder) (id path : String) : Prop :=
  path = f.pathOf (fileName id) ∨ path = f.pathOf (draftName id)

end Folder

/-- The requests of a history of a store in memory, each with its reply. -/
def Memory.replies (m : Memory) : List Request → List (Request × Except StoreFault Reply)
  | [] => []
  | r :: rest => (r, (r.on m).1) :: (r.on m).2.replies rest

/-- A snapshot was saved under the identifier. -/
def Saved (turns : List Turn) (id : String) : Prop :=
  Folder.isSafe id = true ∧ ∃ t ∈ turns, ∃ s, t.request = .save s ∧ s.id = id

variable {f : Folder} {m : Memory} {r : Request} {t : Turn} {turns : List Turn} {id : String}

/-! ### Scripts of requests -/

/-- A request does what its script does. -/
theorem Request.on_eq_run (hproper : ∀ items, f.content = .holding items → items.Proper)
    (r : Request) : r.on f = (((f.script r).run f.content).1,
      { f with content := ((f.script r).run f.content).2 }) := by
  cases r with
  | save s =>
    rw [Folder.script, Script.run_map]
    exact congrArg (fun result => (result.1.map Reply.saved, result.2)) (Folder.save_eq f s)
  | get id =>
    rw [Folder.script, Script.run_map, Folder.get_eq]
    rfl
  | list filter =>
    rw [Folder.script, Script.run_map, Folder.list_eq hproper]
    rfl
  | delete id =>
    rw [Folder.script, Script.run_map]
    exact congrArg (fun result => (result.1.map Reply.deleted, result.2)) (Folder.delete_eq f id)

/-! ### Requests that are refused -/

/-- **A request about an identifier that cannot name a file is refused.**  Nothing is changed or
touched. -/
theorem on_of_not_isSafe (hid : r.id? = some id) (h : Folder.isSafe id = false) (f : Folder) :
    r.on f = (.error (.invalidId id), f) ∧ f.touched r = [] := by
  have hnot : ¬ Folder.isSafe id = true := by simp [h]
  cases r with
  | list filter => cases hid
  | save s =>
    cases hid
    simp [Request.on, Store.save, Folder.save, Folder.touched, Folder.script, Folder.saveScript, hnot,
      Except.map, Script.map, Script.touched]
  | get id =>
    cases hid
    simp [Request.on, Store.get, Folder.get, Folder.touched, Folder.script, Folder.getScript, hnot,
      Except.map, Script.map, Script.touched]
  | delete id =>
    cases hid
    simp [Request.on, Store.delete, Folder.delete, Folder.touched, Folder.script, Folder.deleteScript,
      hnot, Except.map, Script.map, Script.touched]

/-- A request that is not safe names an id that is not. -/
theorem Request.exists_id_of_not_isSafe (h : ¬ r.isSafe = true) :
    ∃ id, r.id? = some id ∧ Folder.isSafe id = false := by
  cases hid : r.id? with
  | none => simp [isSafe, hid] at h
  | some id => exact ⟨id, rfl, by simpa [isSafe, hid] using h⟩

/-! ### One turn -/

/-- The store in memory behind a request, if it gets only those that a directory does not refuse. -/
def Request.next (r : Request) (m : Memory) : Memory := if r.isSafe then (r.on m).2 else m

/-- What is stored after a request was stored before, or was just saved under a safe id. -/
theorem Request.mem_next {s : Snapshot} (h : s ∈ (r.next m).snapshots) :
    s ∈ m.snapshots ∨ r = .save s ∧ Folder.isSafe s.id = true := by
  unfold next at h
  split at h
  · next hsafe =>
    cases r with
    | save x =>
      rcases Memory.mem_putInto h with rfl | h
      · exact .inr ⟨rfl, by simpa [isSafe, id?] using hsafe⟩
      · exact .inl h
    | get id => exact .inl h
    | list filter => exact .inl h
    | delete id => exact .inl (List.mem_filter.1 h).1
  · exact .inl h

/-- No request moves the folder. -/
theorem path_on (r : Request) (f : Folder) : (r.on f).2.path = f.path := by
  cases r with
  | save s =>
    show (f.save s).2.path = f.path
    rw [Folder.save_eq]
  | get id => rfl
  | list filter => rfl
  | delete id =>
    show (f.delete id).2.path = f.path
    rw [Folder.delete_eq]

namespace Mirrors

/-- The order in which a directory is read does not matter to what it mirrors. -/
theorem reordered_turn (h : Mirrors f m) (t : Turn) : Mirrors (f.reordered t.order) m := by
  refine h.reordered ?_
  obtain ⟨path, content⟩ := f
  cases h.holds with
  | missing hfiles => exact .missing hfiles
  | holding hitems => exact .holding ((t.perm _).trans hitems)

/-- To a safe request that fits, the folder answers as the memory does. -/
theorem reply_eq (h : Mirrors f m) (hsafe : t.request.isSafe = true) (hfits : t.request.Fits) :
    (t.on f).1 = (t.request.on m).1 :=
  ((h.reordered_turn t).on hsafe hfits).1

/-- Folder and memory stay mirrors of one another through any request. -/
theorem turn (h : Mirrors f m) (hfits : t.request.isSafe = true → t.request.Fits) :
    Mirrors (t.on f).2 (t.request.next m) := by
  have hturn := h.reordered_turn t
  by_cases hsafe : t.request.isSafe = true
  · rw [Request.next, if_pos hsafe]
    exact (hturn.on hsafe (hfits hsafe)).2
  · obtain ⟨id, hid, hnot⟩ := Request.exists_id_of_not_isSafe hsafe
    rw [Request.next, if_neg hsafe, Turn.on, (on_of_not_isSafe hid hnot _).1]
    exact hturn

theorem entries (h : Mirrors f m) :
    ∀ name ∈ f.content.entries, ∃ s ∈ m.snapshots, name = Folder.fileName s.id := by
  obtain ⟨path, content⟩ := f
  cases h.holds with
  | missing hfiles => exact List.forall_mem_nil _
  | @holding items hitems =>
    intro name hname
    rw [Directory.entries_of_items rfl, (hitems.map _).mem_iff, List.map_map] at hname
    obtain ⟨s, hs, rfl⟩ := List.mem_map.1 hname
    exact ⟨s, hs, rfl⟩

theorem proper (h : Mirrors f m) : ∀ items, f.content = .holding items → items.Proper := by
  intro items hitems
  have hholds := h.holds
  rw [hitems] at hholds
  cases hholds with
  | holding hperm =>
    refine ⟨fun entry hentry => ?_, (hperm.map _).nodup_iff.2 h.nodup_names⟩
    obtain ⟨s, hs, rfl⟩ := List.mem_map.1 (hperm.mem_iff.1 hentry)
    exact isName_fileName (h.fileable s hs).name

/-- In a history every request does what its script does. -/
theorem on_eq_run (h : Mirrors f m) (r : Request) : r.on f = (((f.script r).run f.content).1,
    { f with content := ((f.script r).run f.content).2 }) :=
  Request.on_eq_run h.proper r

/-- A request touches the files of its own identifier if it saves, and else files that are there. -/
theorem touched (h : Mirrors f m) (r : Request) :
    ∀ name ∈ f.touched r, ∃ id, Folder.Owns id name ∧
      ((∃ s ∈ m.snapshots, s.id = id) ∨ ∃ s, r = .save s ∧ s.id = id) := by
  have hthere : ∀ name ∈ f.content.entries, ∃ id, Folder.Owns id name ∧
      ((∃ s ∈ m.snapshots, s.id = id) ∨ ∃ s, r = .save s ∧ s.id = id) := fun name hname => by
    obtain ⟨s, hs, rfl⟩ := h.entries name hname
    exact ⟨s.id, ⟨h.safe s hs, .inl rfl⟩, .inl ⟨s, hs, rfl⟩⟩
  intro name hname
  cases r <;> rw [Folder.touched, Folder.script, Script.touched_map] at hname
  case save s => exact ⟨s.id, Folder.touched_save _ name hname, .inr ⟨s, rfl, rfl⟩⟩
  case get id => exact hthere name (Folder.touched_get _ name hname).2
  case list filter => exact hthere name (Folder.touched_list _ name hname)
  case delete id => exact hthere name (Folder.touched_delete _ name hname).2

end Mirrors

/-! ### Whole histories -/

/-- The identifier is that of a snapshot that the store has, or that is saved in the history. -/
def Known (m : Memory) (turns : List Turn) (id : String) : Prop :=
  (∃ s ∈ m.snapshots, s.id = id) ∨ Saved turns id

theorem Known.of_rest (h : Known (t.request.next m) turns id) : Known m (t :: turns) id := by
  rcases h with ⟨s, hs, rfl⟩ | ⟨hsafe, u, hu, hsaves⟩
  · rcases Request.mem_next hs with hs | ⟨hrequest, hsafe⟩
    · exact .inl ⟨s, hs, rfl⟩
    · exact .inr ⟨hsafe, t, .head _, s, hrequest, rfl⟩
  · exact .inr ⟨hsafe, u, .tail _ hu, hsaves⟩

theorem saved_of_known (h : Known {} turns id) : Saved turns id :=
  h.resolve_left fun ⟨_, hs, _⟩ => List.not_mem_nil hs

/-- To the safe requests of any history, the folder answers as the memory does to these alone. -/
theorem replies_eq (h : Mirrors f m)
    (hfits : ∀ t ∈ turns, t.request.isSafe = true → t.request.Fits) :
    (f.replies turns).filter (fun entry => entry.1.isSafe) =
      m.replies ((turns.map Turn.request).filter Request.isSafe) := by
  induction turns generalizing f m with
  | nil => rfl
  | cons t rest ih =>
    obtain ⟨ht, hrest⟩ := List.forall_mem_cons.1 hfits
    have hnext := ih (h.turn ht) hrest
    by_cases hsafe : t.request.isSafe = true
    · rw [Request.next, if_pos hsafe] at hnext
      simp only [Folder.replies, List.map_cons, List.filter_cons, hsafe, if_true, hnext,
        h.reply_eq hsafe (ht hsafe), Memory.replies]
    · rw [Request.next, if_neg hsafe] at hnext
      simp only [Folder.replies, List.map_cons, List.filter_cons, hsafe, Bool.false_eq_true, if_false,
        hnext]

theorem known_of_mem_entries (h : Mirrors f m)
    (hfits : ∀ t ∈ turns, t.request.isSafe = true → t.request.Fits) :
    ∀ name ∈ (f.after turns).content.entries,
      ∃ id, Known m turns id ∧ name = Folder.fileName id := by
  induction turns generalizing f m with
  | nil =>
    intro name hname
    obtain ⟨s, hs, rfl⟩ := h.entries name hname
    exact ⟨s.id, .inl ⟨s, hs, rfl⟩, rfl⟩
  | cons t rest ih =>
    obtain ⟨ht, hrest⟩ := List.forall_mem_cons.1 hfits
    intro name hname
    obtain ⟨id, hid, rfl⟩ := ih (h.turn ht) hrest name hname
    exact ⟨id, hid.of_rest, rfl⟩

theorem known_of_mem_paths (h : Mirrors f m)
    (hfits : ∀ t ∈ turns, t.request.isSafe = true → t.request.Fits) :
    ∀ path ∈ f.paths turns, ∃ id, Known m turns id ∧ f.Keeps id path := by
  induction turns generalizing f m with
  | nil => exact List.forall_mem_nil _
  | cons t rest ih =>
    obtain ⟨ht, hrest⟩ := List.forall_mem_cons.1 hfits
    refine List.forall_mem_append.2 ⟨List.forall_mem_map.2 fun name hname => ?_, fun path hpath => ?_⟩
    · obtain ⟨id, ⟨hsafe, howns⟩, hid⟩ := (h.reordered_turn t).touched t.request name hname
      have hkeeps : f.Keeps id (f.pathOf name) :=
        howns.imp (fun h => congrArg f.pathOf h) fun h => congrArg f.pathOf h
      refine ⟨id, hid.imp_right ?_, hkeeps⟩
      rintro ⟨s, hrequest, rfl⟩
      exact ⟨hsafe, t, .head _, s, hrequest, rfl⟩
    · obtain ⟨id, hid, hkeeps⟩ := ih (h.turn ht) hrest path hpath
      have hsame : (t.on f).2.path = f.path := path_on _ _
      refine ⟨id, hid.of_rest, ?_⟩
      simpa only [Folder.Keeps, Folder.pathOf, hsame] using hkeeps

/-- No two identifiers keep to the same path. -/
theorem Folder.Keeps.unique {other path : String} (h : f.Keeps id path)
    (hother : f.Keeps other path) : id = other := by
  have hpath : Function.Injective f.pathOf := fun _ _ => (String.append_right_inj _).1
  rcases h with rfl | rfl <;> rcases hother with h | h
  · exact fileName_injective (hpath h)
  · exact absurd (hpath h) (fileName_ne_draftName _ _)
  · exact absurd (hpath h).symm (fileName_ne_draftName _ _)
  · exact draftName_injective (hpath h)

/-- **A store in a directory and a store in memory are interchangeable.**

Take a directory that is missing or empty, and any history of requests, with any order of the
directory at each of them.  Suppose of the requests whose identifier can name a file that the file
system takes the names, and that what is saved is read as it was written.  Then these requests get
the replies that a store in memory gives to them alone.  The others are refused, by every directory,
and nothing is touched.  All files are in the end those of snapshots that were saved, so no draft is
left; all paths that were touched are those of their files and drafts; and no two identifiers share
one. -/
theorem stores_interchangeable (f : Folder) (turns : List Turn)
    (hstart : f.content = .missing ∨ f.content = .holding [])
    (hfits : ∀ t ∈ turns, t.request.isSafe = true → t.request.Fits) :
    (f.replies turns).filter (fun entry => entry.1.isSafe) =
      Memory.replies {} ((turns.map Turn.request).filter Request.isSafe) ∧
    (∀ (r : Request) id, r.id? = some id → Folder.isSafe id = false →
      ∀ g : Folder, r.on g = (.error (.invalidId id), g) ∧ g.touched r = []) ∧
    (∀ name ∈ (f.after turns).content.entries,
      (∃ id, Saved turns id ∧ name = Folder.fileName id) ∧ ∀ id, name ≠ Folder.draftName id) ∧
    (∀ path ∈ f.paths turns, ∃ id, Saved turns id ∧ f.Keeps id path) ∧
    ∀ id other path, f.Keeps id path → f.Keeps other path → id = other := by
  have hmirrors : Mirrors f {} := by
    refine ⟨?_, List.nodup_nil, List.forall_mem_nil _, List.forall_mem_nil _⟩
    rcases hstart with hstart | hstart <;> rw [hstart]
    · exact .missing rfl
    · exact .holding (.refl _)
  refine ⟨replies_eq hmirrors hfits, fun r id hid hnot => on_of_not_isSafe hid hnot,
    fun name hname => ?_, fun path hpath => ?_, fun id other path => Folder.Keeps.unique⟩
  · obtain ⟨id, hid, rfl⟩ := known_of_mem_entries hmirrors hfits name hname
    exact ⟨⟨id, saved_of_known hid, rfl⟩, fileName_ne_draftName id⟩
  · obtain ⟨id, hid, hkeeps⟩ := known_of_mem_paths hmirrors hfits path hpath
    exact ⟨id, saved_of_known hid, hkeeps⟩

/-- Two snapshots with a title, a message and a surface, changed at the same time, in a directory that
is read backwards; a request about another directory is among those of the history. -/
theorem stores_interchangeable_backwards :
    let time (seconds : Int) : Timestamp := ⟨seconds, 0⟩
    let surface : Surface :=
      { entries := [("c", ⟨"c", "Card", .object [("title", .null)], .object [], true, 0⟩)]
        nextSeq := 1 }
    let snapshot (id : String) : Snapshot :=
      { id, title := some "Trip", messages := [⟨"m", .user, "Hi", time 1⟩], surface
        createdAt := time 1, updatedAt := time 2 }
    let requests : List Request := [.save (snapshot "b"), .save (snapshot "a"), .get "../a",
      .list { limit := some 1 }, .delete "b", .get "b"]
    let turns : List Turn := requests.map fun r => ⟨r, List.reverse, List.reverse_perm⟩
    let f : Folder := { path := "store" }
    (∀ t ∈ turns, t.request.isSafe = true → t.request.Fits) ∧
      (f.replies turns).filter (fun entry => entry.1.isSafe) =
        Memory.replies {} (requests.filter Request.isSafe) := by
  intro time surface snapshot requests turns f
  have hsurface : surface.Proper := by
    refine ⟨by decide, ?_, by decide, by decide⟩
    simp [surface, Surface.toList, Json.DistinctKeys, Json.DistinctKeysFields, Json.Fields.keys]
  have hfileable : ∀ id, Directory.isName (Folder.draftName id) = true →
      (snapshot id).Fileable := fun id hname => by
    refine ⟨hname, hsurface, by simp [snapshot, Snapshot.times]; decide, Snapshot.read_encode ?_ ?_⟩
    · simp [snapshot, surface, Snapshot.toJson, Message.toJson, Surface.toJson,
        Surface.Entry.toJson, Timestamp.toJson, Surface.numberJson, Json.ofNat, Json.Number.ofInt?,
        Json.maybe, Json.orNull, Json.Writable, Json.WritableItems, Json.WritableMembers,
        Text.wordLimit]
    · simp [snapshot, surface, Snapshot.toJson, Message.toJson, Surface.toJson,
        Surface.Entry.toJson, Timestamp.toJson, Surface.numberJson, Json.ofNat, Json.Number.ofInt?,
        Json.maybe, Json.orNull, Json.nesting, Json.nestingItems, Json.nestingMembers,
        Text.wordLimit, Json.maxDepth]
  have hname : Directory.isName (Folder.fileName "b") = true := by decide
  have hfits : ∀ t ∈ turns, t.request.isSafe = true → t.request.Fits := by
    refine List.forall_mem_map.2 ?_
    simp only [requests, List.forall_mem_cons]
    exact ⟨fun _ => hfileable "b" (by decide), fun _ => hfileable "a" (by decide),
      fun h => absurd h (by decide), fun _ => trivial, fun _ => hname, fun _ => hname,
      List.forall_mem_nil _⟩
  obtain ⟨hreplies, -⟩ := stores_interchangeable f turns (.inl rfl) hfits
  refine ⟨hfits, ?_⟩
  rw [hreplies, List.map_map]
  rfl

end AgentSurface.Session
