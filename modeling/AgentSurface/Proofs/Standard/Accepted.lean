import AgentSurface.Proofs.Catalog.Checking
import AgentSurface.Proofs.Standard.Readers
import AgentSurface.Proofs.Update.Entries

/-!
# Standard — what is accepted is read, but for the width of numbers

A component type has a validator, which goes by a schema, and a reader.  The host checks data and
options with the one and takes them apart with the other, so what the one accepts the other should
take.  It does, for data and options of every type, with one kind of member left out: the schema of
a year and of a count does not say how wide the number may be, and the one of a year not how it is
to be written.

* `reads_iff_dataFits`: accepted data, type by type.
* `accepts_of_merge`: options that are accepted over the defaults are accepted alone.
* `reads_iff_optionsFit`: accepted options, given or resolved, type by type.
* `reads_iff_fits`: both, for every entry of the standard catalog.
-/

namespace AgentSurface.Standard

open Catalog.Entry (givenFields)
open Schema (Accepts Document)

/-! ### Readers by type -/

/-- The reader of the type takes these data. -/
def readsData (typeName : String) (data : Json) : Bool :=
  match typeName with
  | "Timeline" => (Timeline.Data.ofJson? data).isSome
  | "DataTable" => (DataTable.Data.ofJson? data).isSome
  | "StatCard" => (StatCard.Data.ofJson? data).isSome
  | "Callout" => (Callout.Data.ofJson? data).isSome
  | "LinkPreview" => (LinkPreview.Data.ofJson? data).isSome
  | "OptionList" => (OptionList.Data.ofJson? data).isSome
  | _ => false

/-- The reader of the type takes these options. -/
def readsOptions (typeName : String) (options : Json) : Bool :=
  match typeName with
  | "DataTable" => (DataTable.Options.ofJson? options).isSome
  | "Callout" => (Callout.Options.ofJson? options).isSome
  | "OptionList" => (OptionList.Options.ofJson? options).isSome
  | _ => false

/-- What the reader asks of data beyond the schema. -/
def DataFits (typeName : String) (data : Json) : Prop :=
  match typeName with
  | "Timeline" => Timeline.YearsFit data
  | _ => True

/-- What the reader asks of options beyond the schema. -/
def OptionsFit (typeName : String) (options : Json) : Prop :=
  match typeName with
  | "DataTable" => CountFits "pageSize" options
  | "OptionList" => CountFits "maxSelections" options
  | _ => True

/-! ### What the validators accept -/

/-- A standard component accepts what its schema accepts. -/
theorem check_iff_accepts {schema : Json} {d : Document} (hd : Document.ofJson? schema = some d)
    {v : Json} {target : Schema.Target} :
    (validator schema).check v target = .ok [] ↔ Accepts d d.definitions.length d.root v := by
  have hvalidator : Schema.Validator.ofSchema? schema = some (validator schema) := by
    simp [validator, Schema.Validator.ofSchema?, hd]
  exact Schema.Validator.check_eq_nil_iff hvalidator hd

/-! ### Data -/

theorem reads_iff_dataFits {e : Catalog.Entry} (he : e ∈ catalog.entries) {data : Json}
    (hdistinct : data.DistinctKeys) (h : e.validateData data = .ok []) :
    readsData e.typeName data = true ↔ DataFits e.typeName data := by
  simp only [catalog, List.mem_cons, List.not_mem_nil, or_false] at he
  obtain rfl | rfl | rfl | rfl | rfl | rfl := he
  · exact Timeline.readsIf_data data hdistinct ((check_iff_accepts Timeline.ofJson?_schema).1 h)
  · exact DataTable.readsIf_data data hdistinct ((check_iff_accepts DataTable.ofJson?_schema).1 h)
  · exact StatCard.readsIf_data data hdistinct ((check_iff_accepts StatCard.ofJson?_schema).1 h)
  · exact Callout.readsIf_data data hdistinct ((check_iff_accepts Callout.ofJson?_schema).1 h)
  · exact LinkPreview.readsIf_data data hdistinct ((check_iff_accepts LinkPreview.ofJson?_schema).1 h)
  · exact OptionList.readsIf_data data hdistinct ((check_iff_accepts OptionList.ofJson?_schema).1 h)

/-! ### Options -/

/-- Options over defaults that no schema requires are accepted only if they are without them. -/
theorem accepts_of_merge {d : Document} {n : Nat} {schemas : List (String × Schema)}
    {defaults given : Json.Fields} (hgiven : given.keys.Nodup)
    (h : Accepts d n (Parsed.record schemas []) (.object (defaults.merge given))) :
    Accepts d n (Parsed.record schemas []) (.object given) := by
  rw [accepts_record] at h ⊢
  exact ⟨fun p hp member hmember =>
    h.1 p hp member (Json.Fields.get?_merge_of_get? hgiven hmember), List.forall_mem_nil _⟩

theorem reads_iff_of_merge {α : Type} {read : Json → Option α} {fits : Json → Prop} {d : Document}
    {n : Nat} {schemas : List (String × Schema)} {defaults given : Json.Fields}
    (hread : ReadsIf d n (Parsed.record schemas []) read fits)
    (hdefaults : (Json.object defaults).DistinctKeys) (hgiven : (Json.object given).DistinctKeys)
    (h : Accepts d n (Parsed.record schemas []) (.object (defaults.merge given))) :
    ∀ options ∈ [.object (defaults.merge given), .object given],
      ((read options).isSome = true ↔ fits options) := by
  have hkeys : given.keys.Nodup := by
    rw [Json.DistinctKeys] at hgiven
    exact hgiven.1
  simp only [List.forall_mem_cons, List.not_mem_nil, false_imp_iff, implies_true, and_true]
  exact ⟨hread _ (hdefaults.merge hgiven) h, hread _ hgiven (accepts_of_merge hkeys h)⟩

theorem distinctKeys_defaultOptions {e : Catalog.Entry} (he : e ∈ catalog.entries) :
    (Json.object e.defaultOptions).DistinctKeys := by
  simp only [catalog, List.mem_cons, List.not_mem_nil, or_false] at he
  obtain rfl | rfl | rfl | rfl | rfl | rfl := he <;>
    simp [timeline, dataTable, statCard, callout, linkPreview, optionList, DataTable.defaultOptions,
      Callout.defaultOptions, OptionList.defaultOptions, Json.DistinctKeys, Json.DistinctKeysFields,
      Json.Fields.keys]

theorem reads_iff_optionsFit {e : Catalog.Entry} (he : e ∈ catalog.entries) {given : Option Json}
    {merged : Json} (hgiven : (Json.object (givenFields given)).DistinctKeys)
    (hoptions : e.options.isSome = true) (h : e.resolveOptions given = .ok (.ok merged)) :
    ∀ options ∈ [merged, .object (givenFields given)],
      (readsOptions e.typeName options = true ↔ OptionsFit e.typeName options) := by
  obtain ⟨options, hvalidator⟩ := Option.isSome_iff_exists.1 hoptions
  have hcheck := Catalog.Entry.check_of_resolveOptions h hvalidator
  obtain rfl : merged = .object (e.defaultOptions.merge (givenFields given)) := by
    obtain heq | ⟨errors, -, heq⟩ := Catalog.Entry.resolveOptions_eq_ok h <;> cases heq
    rfl
  have hdefaults := distinctKeys_defaultOptions he
  simp only [catalog, List.mem_cons, List.not_mem_nil, or_false] at he
  obtain rfl | rfl | rfl | rfl | rfl | rfl := he <;> cases hvalidator
  · exact reads_iff_of_merge DataTable.readsIf_options hdefaults hgiven
      ((check_iff_accepts DataTable.ofJson?_optionsSchema).1 hcheck)
  · exact reads_iff_of_merge Callout.readsIf_options hdefaults hgiven
      ((check_iff_accepts Callout.ofJson?_optionsSchema).1 hcheck)
  · exact reads_iff_of_merge OptionList.readsIf_options hdefaults hgiven
      ((check_iff_accepts OptionList.ofJson?_optionsSchema).1 hcheck)

/-! ### Both -/

/-- **What a standard component accepts is read, but for the width of its numbers.**  Data for which
no error is given are read by the reader of the type; those of a timeline are so exactly if their
years are whole numbers of 32 bits, as they are written.  The same goes for accepted options, those
that were given as well as those laid over the defaults: the ones of a table and of a list of
choices are read exactly if the count among them is one of 32 bits. -/
theorem reads_iff_fits {e : Catalog.Entry} (he : e ∈ catalog.entries) :
    (∀ data : Json, data.DistinctKeys → e.validateData data = .ok [] →
      (readsData e.typeName data = true ↔ DataFits e.typeName data)) ∧
    ∀ (given : Option Json) (merged : Json), (Json.object (givenFields given)).DistinctKeys →
      e.options.isSome = true → e.resolveOptions given = .ok (.ok merged) →
      ∀ options ∈ [merged, .object (givenFields given)],
        (readsOptions e.typeName options = true ↔ OptionsFit e.typeName options) :=
  ⟨fun _ => reads_iff_dataFits he, fun _ _ => reads_iff_optionsFit he⟩

/-- The schema of a timeline does not say how wide the year of an event may be. -/
theorem timeline_takes_year (year : Json.Whole) :
    timeline.validateData (.object [("events", .array [.object
      [("start_date", .object [("year", .number (.whole year))])]])]) = .ok [] := by
  refine (check_iff_accepts Timeline.ofJson?_schema).2 ?_
  have hevent : ∀ v, Accepts Timeline.parsed 5 (Parsed.ref "TimelineEvent") v ↔
      Accepts Timeline.parsed 4 Timeline.eventSchema v := fun _ => accepts_ref rfl
  have hdate : ∀ v, Accepts Timeline.parsed 5 (Parsed.ref "TimelineDate") v ↔
      Accepts Timeline.parsed 4 Timeline.dateSchema v := fun _ => accepts_ref rfl
  have hlength : Timeline.parsed.definitions.length = 5 := rfl
  have hroot : Timeline.parsed.root =
      Parsed.record
        [("title", Parsed.nullableRef "TimelineSlide"),
          ("events", Parsed.listOf (Parsed.ref "TimelineEvent"))] ["events"] := rfl
  rw [hroot]
  simp [accepts_record, accepts_listOf, hlength, hevent, hdate, Timeline.eventSchema,
    Timeline.dateSchema, Json.Fields.get?, Json.Fields.has, Json.isOf, Json.isWrittenAs,
    Json.Number.isIntegral]

/-- The schema of its options does not say how large the pages of a table may be. -/
theorem dataTable_takes_pageSize (size : Json.Whole) (h : 0 ≤ size.val) :
    dataTable.resolveOptions (some (.object [("pageSize", .number (.whole size))])) =
      .ok (.ok (.object [("sortable", .bool false), ("pageSize", .number (.whole size))])) := by
  have hcheck : (validator DataTable.optionsSchema).check
      (.object [("sortable", .bool false), ("pageSize", .number (.whole size))]) .options =
        .ok [] := by
    refine (check_iff_accepts DataTable.ofJson?_optionsSchema).2 ?_
    have hroot : DataTable.parsedOptions.root =
        Parsed.record [("sortable", Parsed.typed .boolean), ("pageSize", Parsed.count)] [] := rfl
    rw [hroot]
    simp [accepts_record, Parsed.count, Json.Fields.get?, Json.isOf, Json.isOneOf,
      Json.isWrittenAs, less_whole, h]
  have hmerge : dataTable.mergeOptions (some (.object [("pageSize", .number (.whole size))])) =
      .ok [("sortable", .bool false), ("pageSize", .number (.whole size))] := rfl
  rw [Catalog.Entry.resolveOptions, hmerge]
  simp only [dataTable, hcheck]
  rfl

/-- An event of the year 2020, and pages of 20 rows. -/
theorem reads_iff_fits_plain :
    let data : Json := .object [("events", .array [.object
      [("start_date", .object [("year", .number (.whole { val := 2020 }))])]])]
    let given : Json.Fields := [("pageSize", .number (.whole { val := 20 }))]
    let merged : Json := .object (("sortable", .bool false) :: given)
    timeline ∈ catalog.entries ∧ data.DistinctKeys ∧ timeline.validateData data = .ok [] ∧
      readsData "Timeline" data = true ∧
      dataTable ∈ catalog.entries ∧ (Json.object given).DistinctKeys ∧
      dataTable.resolveOptions (some (.object given)) = .ok (.ok merged) ∧
      readsOptions "DataTable" merged = true := by
  intro data given merged
  have htimeline : timeline ∈ catalog.entries := .head _
  have htable : dataTable ∈ catalog.entries := .tail _ (.head _)
  have hdata : data.DistinctKeys := by
    simp [data, Json.DistinctKeys, Json.DistinctKeysFields, Json.DistinctKeysItems,
      Json.Fields.keys]
  have hgiven : (Json.object given).DistinctKeys := by
    simp [given, Json.DistinctKeys, Json.DistinctKeysFields, Json.Fields.keys]
  have hvalid : timeline.validateData data = .ok [] := timeline_takes_year _
  have hresolved : dataTable.resolveOptions (some (.object given)) = .ok (.ok merged) :=
    dataTable_takes_pageSize _ (by decide)
  have hyears : Timeline.YearsFit data := by
    simp [data, Timeline.YearsFit, Timeline.EventFits, Timeline.DateFits, WholeBetween, Json.get?,
      Json.fields?, Json.Fields.get?, Json.int?, Json.number?, Json.Number.toInt?]
  have hcount : CountFits "pageSize" merged := by
    simp [merged, given, CountFits, Json.get?, Json.fields?, Json.Fields.get?, Json.int?,
      Json.number?, Json.Number.toInt?]
  exact ⟨htimeline, hdata, hvalid, ((reads_iff_fits htimeline).1 data hdata hvalid).2 hyears,
    htable, hgiven, hresolved,
    ((reads_iff_fits htable).2 (some (.object given)) merged hgiven rfl hresolved merged
      (.head _)).2 hcount⟩

/-- An event of the year 3000000000 and pages of 4294967296 rows are accepted and not read. -/
theorem wide_numbers_not_read :
    let data : Json := .object [("events", .array [.object
      [("start_date", .object [("year", .number (.whole { val := 3000000000 }))])]])]
    let given : Json.Fields := [("pageSize", .number (.whole { val := 4294967296 }))]
    let merged : Json := .object (("sortable", .bool false) :: given)
    timeline ∈ catalog.entries ∧ data.DistinctKeys ∧ timeline.validateData data = .ok [] ∧
      readsData "Timeline" data = false ∧
      dataTable ∈ catalog.entries ∧ (Json.object given).DistinctKeys ∧
      dataTable.resolveOptions (some (.object given)) = .ok (.ok merged) ∧
      readsOptions "DataTable" (.object given) = false ∧
      readsOptions "DataTable" merged = false := by
  intro data given merged
  have hdata : data.DistinctKeys := by
    simp [data, Json.DistinctKeys, Json.DistinctKeysFields, Json.DistinctKeysItems,
      Json.Fields.keys]
  have hgiven : (Json.object given).DistinctKeys := by
    simp [given, Json.DistinctKeys, Json.DistinctKeysFields, Json.Fields.keys]
  have htimeline : timeline ∈ catalog.entries := .head _
  have htable : dataTable ∈ catalog.entries := .tail _ (.head _)
  have hvalid : timeline.validateData data = .ok [] := timeline_takes_year _
  have hresolved : dataTable.resolveOptions (some (.object given)) = .ok (.ok merged) :=
    dataTable_takes_pageSize _ (by decide)
  have hoptions : ∀ options ∈ [merged, .object given],
      (readsOptions "DataTable" options = true ↔ CountFits "pageSize" options) :=
    @reads_iff_optionsFit _ htable (some (.object given)) _ hgiven rfl hresolved
  have hyear : ¬ Timeline.YearsFit data := by
    simp [data, Timeline.YearsFit, Timeline.EventFits, Timeline.DateFits, WholeBetween, Json.get?,
      Json.fields?, Json.Fields.get?, Json.int?, Json.number?, Json.Number.toInt?]
  have hsize : ∀ options ∈ [merged, .object given], ¬ CountFits "pageSize" options := by
    simp [merged, given, CountFits, Json.get?, Json.fields?, Json.Fields.get?, Json.int?,
      Json.number?, Json.Number.toInt?]
  have hunread : ∀ options ∈ [merged, .object given], readsOptions "DataTable" options = false :=
    fun options hmem => Bool.eq_false_iff.2 (mt (hoptions options hmem).1 (hsize options hmem))
  exact ⟨htimeline, hdata, hvalid,
    Bool.eq_false_iff.2 (mt (reads_iff_dataFits htimeline hdata hvalid).1 hyear),
    htable, hgiven, hresolved, hunread _ (.tail _ (.head _)), hunread _ (.head _)⟩

end AgentSurface.Standard
