import AgentSurface.Proofs.Standard.Forms
import AgentSurface.Standard.Catalog

/-!
# Standard — what the readers take of accepted data

For each component type the schemas of its data and of its options stand here as they are parsed
(`ofJson?_schema`), beside the readers of the same data (`readsIf_data`) and options
(`readsIf_options`).  What a schema defines by name is compared once (`reads_event` and its like),
for all places that refer to it.

* `Timeline.readsIf_data`: a timeline is read exactly if its years are whole numbers of 32 bits.
* `DataTable.readsIf_options`, `OptionList.readsIf_options`: options with a count are read exactly
  if the count is one of 32 bits.
* All other data and options that are accepted are read.
-/

namespace AgentSurface.Standard

open Schema (Document)

/-- A condition that does not look at what is there asks only whether something is there. -/
@[simp] theorem any_const {α : Type} (x : Option α) (c : Bool) :
    (x.any fun _ => c) = (x.isSome && c) := by
  cases x <;> simp

/-- Members are looked up in an object as they are in the list of them. -/
theorem get?_object {fields : Json.Fields} {key : String} :
    (Json.object fields).get? key = fields.get? key := rfl

/-- A whole number under this key is at most the greatest of 32 bits without sign. -/
def CountFits (key : String) (options : Json) : Prop :=
  ∀ count, options.get? key = some count → ∀ k, count.int? = some k → k ≤ 4294967295

/-! ### Timelines -/

namespace Timeline

/-- A headline and a text, either of which may be missing or null. -/
def captionSchema : Schema :=
  Parsed.record
    [("headline", Parsed.nullable .string), ("text", Parsed.nullable .string)] []

/-- An address, and a caption that may be missing or null. -/
def mediaSchema : Schema :=
  Parsed.record [("url", Parsed.typed .string), ("caption", Parsed.nullable .string)] ["url"]

/-- A caption, with media that may be missing or null. -/
def slideSchema : Schema :=
  Parsed.record
    [("text", Parsed.ref "TimelineText"), ("media", Parsed.nullableRef "TimelineMedia")] ["text"]

/-- A year, with a month and a day in one byte each.  Nothing is said of how wide a year may be. -/
def dateSchema : Schema :=
  Parsed.record
    [("year", Parsed.typed .integer), ("month", Parsed.byte), ("day", Parsed.byte)] ["year"]

/-- The day on which an event begins is required, all else may be missing or null. -/
def eventSchema : Schema :=
  Parsed.record
    [("start_date", Parsed.ref "TimelineDate"), ("end_date", Parsed.nullableRef "TimelineDate"),
      ("text", Parsed.nullableRef "TimelineText"), ("media", Parsed.nullableRef "TimelineMedia"),
      ("group", Parsed.nullable .string)]
    ["start_date"]

/-- The schema of the data of a timeline, as it is parsed. -/
def parsed : Document where
  root :=
    Parsed.record
      [("title", Parsed.nullableRef "TimelineSlide"),
        ("events", Parsed.listOf (Parsed.ref "TimelineEvent"))]
      ["events"]
  definitions :=
    [("TimelineSlide", slideSchema), ("TimelineText", captionSchema),
      ("TimelineMedia", mediaSchema), ("TimelineEvent", eventSchema), ("TimelineDate", dateSchema)]

/-- The document that goes out is parsed as these schemas. -/
theorem ofJson?_schema : Document.ofJson? schema = some parsed := rfl

/-- The year is a whole number of 32 bits, as it is written. -/
def DateFits (date : Json) : Prop :=
  ∀ year, date.get? "year" = some year → WholeBetween (-2147483648) 2147483647 year

/-- No date has no year that could be too wide. -/
theorem dateFits_null : DateFits .null := nofun

/-- The years of both dates of an event fit. -/
def EventFits (event : Json) : Prop :=
  ∀ key ∈ ["start_date", "end_date"], ∀ date, event.get? key = some date → DateFits date

/-- The years of all events are whole numbers of 32 bits, as they are written. -/
def YearsFit (data : Json) : Prop :=
  ∀ events, data.get? "events" = some (.array events) → ∀ event ∈ events, EventFits event

/-- A caption that is accepted is read. -/
theorem reads_caption : ReadsDefinition parsed "TimelineText" Caption.ofJson? fun _ => True := by
  refine ⟨captionSchema, rfl, fun _ => readsIf_record fun fields m => ?_⟩
  simp [Caption.ofJson?, m.of?, Option.isSome_bind, m.isSome_field? readsIfPresent_string]

/-- Media that are accepted are read. -/
theorem reads_media : ReadsDefinition parsed "TimelineMedia" Media.ofJson? fun _ => True := by
  refine ⟨mediaSchema, rfl, fun _ => readsIf_record fun fields m => ?_⟩
  simp [Media.ofJson?, m.of?, Option.isSome_bind, m.isSome_field readsIf_string,
    m.isSome_field? readsIfPresent_string]

/-- A slide that is accepted is read. -/
theorem reads_slide : ReadsDefinition parsed "TimelineSlide" Slide.ofJson? fun _ => True := by
  refine ⟨slideSchema, rfl, fun _ => readsIf_record fun fields m => ?_⟩
  simp [Slide.ofJson?, m.of?, Option.isSome_bind, m.isSome_field (readsIf_ref reads_caption),
    m.isSome_field? (readsIfPresent_nullableRef trivial reads_media)]

/-- A date that is accepted is read exactly if its year fits. -/
theorem reads_date : ReadsDefinition parsed "TimelineDate" Date.ofJson? DateFits := by
  refine ⟨dateSchema, rfl, fun _ => readsIf_record fun fields m => ?_⟩
  have hbyte : ReadsIfPresent parsed 5 Parsed.byte byte? fun _ => True := readsIfPresent_byte
  simp [Date.ofJson?, m.of?, Option.isSome_bind, m.isSome_field readsIf_int,
    m.isSome_field? hbyte, DateFits, get?_object]

/-- An event that is accepted is read exactly if the years of its dates fit. -/
theorem reads_event : ReadsDefinition parsed "TimelineEvent" Event.ofJson? EventFits := by
  refine ⟨eventSchema, rfl, fun _ => readsIf_record fun fields m => ?_⟩
  simp [Event.ofJson?, m.of?, Option.isSome_bind, m.isSome_field (readsIf_ref reads_date),
    m.isSome_field? (readsIfPresent_nullableRef dateFits_null reads_date),
    m.isSome_field? (readsIfPresent_nullableRef trivial reads_caption),
    m.isSome_field? (readsIfPresent_nullableRef trivial reads_media),
    m.isSome_field? readsIfPresent_string, EventFits, get?_object]

/-- **A timeline that is accepted is read exactly if its years fit.**  Five references may be
followed, one for each definition. -/
theorem readsIf_data : ReadsIf parsed 5 parsed.root Data.ofJson? YearsFit := by
  refine readsIf_record fun fields m => ?_
  have hread : (Data.ofJson? (.object fields)).isSome = true ↔
      ∀ list, Json.Fields.get? fields "events" = some list →
        ∀ events, list = Json.array events → ∀ event ∈ events, EventFits event := by
    simp [Data.ofJson?, m.of?, Option.isSome_bind,
      m.isSome_field? (readsIfPresent_nullableRef trivial reads_slide),
      m.isSome_field (readsIf_listOf (readsIf_ref reads_event))]
  rw [hread, YearsFit, get?_object]
  exact ⟨fun h events hevents => h _ hevents _ rfl,
    fun h list hlist events hevents => h events (hevents ▸ hlist)⟩

end Timeline

/-! ### Tables -/

namespace DataTable

/-- A column has a key and a label; how it is aligned may be missing or null. -/
def columnSchema : Schema :=
  Parsed.record
    [("key", Parsed.typed .string), ("label", Parsed.typed .string),
      ("align", Parsed.nullableRef "ColumnAlign")]
    ["key", "label"]

/-- The schema of the data of a table, as it is parsed. -/
def parsed : Document where
  root :=
    Parsed.record
      [("columns", Parsed.listOf (Parsed.ref "DataTableColumn")),
        ("rows", Parsed.listOf (Parsed.typed .object)), ("caption", Parsed.nullable .string)]
      ["columns", "rows"]
  definitions :=
    [("DataTableColumn", columnSchema), ("ColumnAlign", Parsed.choice ["left", "center", "right"])]

/-- The document that goes out is parsed as these schemas. -/
theorem ofJson?_schema : Document.ofJson? schema = some parsed := rfl

/-- The schema of the options of a table, as it is parsed: the size of a page has no upper bound. -/
def parsedOptions : Document where
  root := Parsed.record [("sortable", Parsed.typed .boolean), ("pageSize", Parsed.count)] []
  definitions := []

theorem ofJson?_optionsSchema : Document.ofJson? optionsSchema = some parsedOptions := rfl

/-- An alignment that is accepted is one of the three names that are read. -/
theorem reads_align :
    ReadsDefinition parsed "ColumnAlign" (Json.choice? Align.names) fun _ => True :=
  ⟨_, rfl, fun _ => readsIf_choice Align.names⟩

/-- A column that is accepted is read. -/
theorem reads_column :
    ReadsDefinition parsed "DataTableColumn" Column.ofJson? fun _ => True := by
  refine ⟨columnSchema, rfl, fun _ => readsIf_record fun fields m => ?_⟩
  simp [Column.ofJson?, m.of?, Option.isSome_bind, m.isSome_field readsIf_string,
    m.isSome_field? (readsIfPresent_nullableRef trivial reads_align)]

/-- **A table that is accepted is read.** -/
theorem readsIf_data : ReadsIf parsed 2 parsed.root Data.ofJson? fun _ => True := by
  refine readsIf_record fun fields m => ?_
  simp [Data.ofJson?, m.of?, Option.isSome_bind,
    m.isSome_field (readsIf_listOf (readsIf_ref reads_column)),
    m.isSome_field (readsIf_listOf readsIf_anyFields), m.isSome_field? readsIfPresent_string]

/-- **Options of a table that are accepted are read exactly if the size of a page fits.** -/
theorem readsIf_options :
    ReadsIf parsedOptions 0 parsedOptions.root Options.ofJson? (CountFits "pageSize") := by
  refine readsIf_record fun fields m => ?_
  simp [Options.ofJson?, m.of?, Option.isSome_bind, m.isSome_fieldD readsIf_bool,
    m.isSome_field? readsIfPresent_count, CountFits, get?_object]

end DataTable

/-! ### Metrics -/

namespace StatCard

/-- A figure or a text. -/
def valueSchema : Schema := .all [.anyOf [Parsed.typed .number, Parsed.typed .string]]

/-- The schema of the data of a metric, as it is parsed. -/
def parsed : Document where
  root :=
    Parsed.record
      [("label", Parsed.typed .string), ("value", Parsed.ref "StatValue"),
        ("unit", Parsed.nullable .string), ("delta", Parsed.nullable .number),
        ("trend", Parsed.nullableRef "Trend")]
      ["label", "value"]
  definitions := [("StatValue", valueSchema), ("Trend", Parsed.choice ["up", "down", "flat"])]

theorem ofJson?_schema : Document.ofJson? schema = some parsed := rfl

/-- A value that is accepted is read: no number is too wide to be a figure. -/
theorem reads_value : ReadsDefinition parsed "StatValue" Value.ofJson? fun _ => True := by
  refine ⟨valueSchema, rfl, fun n v _ haccepted => ?_⟩
  cases v <;> simp_all [valueSchema, Json.isOf, Json.isWrittenAs, Value.ofJson?]

/-- A trend that is accepted is one of the three names that are read. -/
theorem reads_trend : ReadsDefinition parsed "Trend" (Json.choice? Trend.names) fun _ => True :=
  ⟨_, rfl, fun _ => readsIf_choice Trend.names⟩

/-- **A metric that is accepted is read.** -/
theorem readsIf_data : ReadsIf parsed 2 parsed.root Data.ofJson? fun _ => True := by
  refine readsIf_record fun fields m => ?_
  simp [Data.ofJson?, m.of?, Option.isSome_bind, m.isSome_field readsIf_string,
    m.isSome_field (readsIf_ref reads_value), m.isSome_field? readsIfPresent_string,
    m.isSome_field? readsIfPresent_real,
    m.isSome_field? (readsIfPresent_nullableRef trivial reads_trend)]

end StatCard

/-! ### Notes -/

namespace Callout

/-- The schema of the data of a note, as it is parsed. -/
def parsed : Document where
  root :=
    Parsed.record [("title", Parsed.nullable .string), ("body", Parsed.typed .string)] ["body"]
  definitions := []

theorem ofJson?_schema : Document.ofJson? schema = some parsed := rfl

/-- The schema of the options of a note, as it is parsed. -/
def parsedOptions : Document where
  root := Parsed.record [("tone", Parsed.choice ["info", "success", "warning", "danger"])] []
  definitions := []

theorem ofJson?_optionsSchema : Document.ofJson? optionsSchema = some parsedOptions := rfl

/-- **A note that is accepted is read.** -/
theorem readsIf_data : ReadsIf parsed 0 parsed.root Data.ofJson? fun _ => True := by
  refine readsIf_record fun fields m => ?_
  simp [Data.ofJson?, m.of?, Option.isSome_bind, m.isSome_field readsIf_string,
    m.isSome_field? readsIfPresent_string]

/-- **Options of a note that are accepted are read.** -/
theorem readsIf_options :
    ReadsIf parsedOptions 0 parsedOptions.root Options.ofJson? fun _ => True := by
  refine readsIf_record fun fields m => ?_
  have htone : ReadsIf parsedOptions 0 (Parsed.choice ["info", "success", "warning", "danger"])
      (Json.choice? Tone.names) fun _ => True := readsIf_choice Tone.names
  simp [Options.ofJson?, m.of?, Option.isSome_bind, m.isSome_fieldD htone]

end Callout

/-! ### Links -/

namespace LinkPreview

/-- The schema of the data of a link, as it is parsed. -/
def parsed : Document where
  root :=
    Parsed.record
      [("url", Parsed.typed .string), ("title", Parsed.nullable .string),
        ("description", Parsed.nullable .string), ("image", Parsed.nullable .string)]
      ["url"]
  definitions := []

theorem ofJson?_schema : Document.ofJson? schema = some parsed := rfl

/-- **A link that is accepted is read.** -/
theorem readsIf_data : ReadsIf parsed 0 parsed.root Data.ofJson? fun _ => True := by
  refine readsIf_record fun fields m => ?_
  simp [Data.ofJson?, m.of?, Option.isSome_bind, m.isSome_field readsIf_string,
    m.isSome_field? readsIfPresent_string]

end LinkPreview

/-! ### Choices -/

namespace OptionList

/-- A choice has an identifier and a label; a description may be missing or null. -/
def itemSchema : Schema :=
  Parsed.record
    [("id", Parsed.typed .string), ("label", Parsed.typed .string),
      ("description", Parsed.nullable .string)]
    ["id", "label"]

/-- The schema of the data of a list of choices, as it is parsed. -/
def parsed : Document where
  root :=
    Parsed.record
      [("prompt", Parsed.nullable .string), ("options", Parsed.listOf (Parsed.ref "OptionItem"))]
      ["options"]
  definitions := [("OptionItem", itemSchema)]

theorem ofJson?_schema : Document.ofJson? schema = some parsed := rfl

/-- The schema of the options of a list of choices, as it is parsed: how many may be picked has no
upper bound. -/
def parsedOptions : Document where
  root :=
    Parsed.record
      [("selection", Parsed.choice ["single", "multiple"]), ("maxSelections", Parsed.count)] []
  definitions := []

theorem ofJson?_optionsSchema : Document.ofJson? optionsSchema = some parsedOptions := rfl

/-- A choice that is accepted is read. -/
theorem reads_item : ReadsDefinition parsed "OptionItem" Item.ofJson? fun _ => True := by
  refine ⟨itemSchema, rfl, fun _ => readsIf_record fun fields m => ?_⟩
  simp [Item.ofJson?, m.of?, Option.isSome_bind, m.isSome_field readsIf_string,
    m.isSome_field? readsIfPresent_string]

/-- **A list of choices that is accepted is read.** -/
theorem readsIf_data : ReadsIf parsed 1 parsed.root Data.ofJson? fun _ => True := by
  refine readsIf_record fun fields m => ?_
  simp [Data.ofJson?, m.of?, Option.isSome_bind, m.isSome_field? readsIfPresent_string,
    m.isSome_field (readsIf_listOf (readsIf_ref reads_item))]

/-- **Options of a list of choices that are accepted are read exactly if the number of picks fits.**
-/
theorem readsIf_options :
    ReadsIf parsedOptions 0 parsedOptions.root Options.ofJson? (CountFits "maxSelections") := by
  refine readsIf_record fun fields m => ?_
  have hselection : ReadsIf parsedOptions 0 (Parsed.choice ["single", "multiple"])
      (Json.choice? Selection.names) fun _ => True := readsIf_choice Selection.names
  simp [Options.ofJson?, m.of?, Option.isSome_bind, m.isSome_fieldD hselection,
    m.isSome_field? readsIfPresent_count, CountFits, get?_object]

end OptionList

end AgentSurface.Standard
