import AgentSurface.Json.Record
import AgentSurface.Standard.Form

/-!
# Standard — timelines

Dated events in order, with a slide that may introduce them.
-/

namespace AgentSurface.Standard.Timeline

/-- A day, a month or a year, by how much of it is given. -/
structure Date where
  /-- A whole number of 32 bits. -/
  year : Int
  /-- At most 255, as the day. -/
  month : Option Int := none
  day : Option Int := none
deriving DecidableEq, Repr

/-- A headline over a text. -/
structure Caption where
  headline : Option String := none
  text : Option String := none
deriving DecidableEq, Repr

/-- What is shown beside an event or a slide. -/
structure Media where
  url : String
  caption : Option String := none
deriving DecidableEq, Repr

/-- What introduces the events. -/
structure Slide where
  text : Caption
  media : Option Media := none
deriving DecidableEq, Repr

/-- Something that happened on a day or up to another one. -/
structure Event where
  startDate : Date
  endDate : Option Date := none
  text : Option Caption := none
  media : Option Media := none
  group : Option String := none
deriving DecidableEq, Repr

/-- The events, in the order in which they are shown. -/
structure Data where
  title : Option Slide := none
  events : List Event
deriving DecidableEq, Repr

/-! ### Reading -/

/-- A number of a month or a day. -/
def byte? (v : Json) : Option Int := Json.intBetween? 0 255 v

/-- Read a date.  A year beyond 32 bits is none. -/
def Date.ofJson? (v : Json) : Option Date := do
  let r ← Json.Record.of? ["year", "month", "day"] v
  let year ← r.field "year" (Json.intBetween? (-2147483648) 2147483647)
  let month ← r.field? "month" byte?
  let day ← r.field? "day" byte?
  return { year, month, day }

def Caption.ofJson? (v : Json) : Option Caption := do
  let r ← Json.Record.of? ["headline", "text"] v
  let headline ← r.field? "headline" Json.string?
  let text ← r.field? "text" Json.string?
  return { headline, text }

def Media.ofJson? (v : Json) : Option Media := do
  let r ← Json.Record.of? ["url", "caption"] v
  let url ← r.field "url" Json.string?
  let caption ← r.field? "caption" Json.string?
  return { url, caption }

def Slide.ofJson? (v : Json) : Option Slide := do
  let r ← Json.Record.of? ["text", "media"] v
  let text ← r.field "text" Caption.ofJson?
  let media ← r.field? "media" Media.ofJson?
  return { text, media }

/-- Read an event; its members have names with underscores. -/
def Event.ofJson? (v : Json) : Option Event := do
  let r ← Json.Record.of? ["start_date", "end_date", "text", "media", "group"] v
  let startDate ← r.field "start_date" Date.ofJson?
  let endDate ← r.field? "end_date" Date.ofJson?
  let text ← r.field? "text" Caption.ofJson?
  let media ← r.field? "media" Media.ofJson?
  let group ← r.field? "group" Json.string?
  return { startDate, endDate, text, media, group }

/-- Read the data of a timeline. -/
def Data.ofJson? (v : Json) : Option Data := do
  let r ← Json.Record.of? ["title", "events"] v
  let title ← r.field? "title" Slide.ofJson?
  let events ← r.field "events" (Json.list? Event.ofJson?)
  return { title, events }

/-! ### Writing -/

/-- A whole number within 64 bits. -/
def ofInt (n : Int) : Json := Json.orNull ((Json.Number.ofInt? n).map .number)

def Date.toJson (d : Date) : Json :=
  .object ([("year", ofInt d.year)] ++ Json.maybe "month" ofInt d.month ++
    Json.maybe "day" ofInt d.day)

def Caption.toJson (t : Caption) : Json :=
  .object (Json.maybe "headline" .string t.headline ++ Json.maybe "text" .string t.text)

def Media.toJson (m : Media) : Json :=
  .object ([("url", .string m.url)] ++ Json.maybe "caption" .string m.caption)

def Slide.toJson (s : Slide) : Json :=
  .object ([("text", s.text.toJson)] ++ Json.maybe "media" Media.toJson s.media)

def Event.toJson (e : Event) : Json :=
  .object ([("start_date", e.startDate.toJson)] ++ Json.maybe "end_date" Date.toJson e.endDate ++
    Json.maybe "text" Caption.toJson e.text ++ Json.maybe "media" Media.toJson e.media ++
    Json.maybe "group" .string e.group)

def Data.toJson (d : Data) : Json :=
  .object (Json.maybe "title" Slide.toJson d.title ++
    [("events", .array (d.events.map Event.toJson))])

/-! ### Schema and example -/

open Form

/-- A member for a month or a day. -/
def byteForm : Json :=
  withBack [("format", .string "uint8"), ("minimum", Json.ofNat 0), ("maximum", Json.ofNat 255)]
    (nullable "integer")

/-- What the schema of the data refers to by name. -/
def definitions : Json.Fields :=
  [("TimelineSlide", described "标题页"
      (record [("text", ref "TimelineText"), ("media", nullableRef "TimelineMedia")] ["text"])),
    ("TimelineText", described "时间线文本"
      (record [("headline", nullable "string"), ("text", nullable "string")] [])),
    ("TimelineMedia", described "时间线媒体"
      (record [("url", typed "string"), ("caption", nullable "string")] ["url"])),
    ("TimelineEvent", described "时间线事件"
      (record
        [("start_date", ref "TimelineDate"), ("end_date", nullableRef "TimelineDate"),
          ("text", nullableRef "TimelineText"), ("media", nullableRef "TimelineMedia"),
          ("group", nullable "string")]
        ["start_date"])),
    ("TimelineDate", described "时间线日期"
      (record
        [("year", withBack [("format", .string "int32")] (typed "integer")), ("month", byteForm),
          ("day", byteForm)]
        ["year"]))]

/-- The schema of the data, as hosts and models are shown it. -/
def schema : Json :=
  document "TimelineData" "时间线数据"
    (record
      [("title", described "标题页" (nullableRef "TimelineSlide")),
        ("events", described "事件列表" (listOf (ref "TimelineEvent")))]
      ["events"])
    definitions

/-- A slide and one event of a year. -/
def exampleData : Json :=
  Data.toJson
    { title := some { text := { headline := some "Project history" } }
      events := [{ startDate := { year := 2020 }, text := some { headline := some "Founded" } }] }

end AgentSurface.Standard.Timeline
