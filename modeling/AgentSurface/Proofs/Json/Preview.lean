import AgentSurface.Proofs.Json.Places
import AgentSurface.Proofs.Json.Repair

/-!
# Json — the preview of a text is faithful

A comma outside strings ends a part of the text that can be read once its open brackets are closed.
So a text that contains such a comma has a preview: if nothing else can be read, the text before the
last of these commas can.  All that is read for a preview begins as the text does, up to that comma.

* `exists_shows`: all that is read for a preview approximates the whole value, and is read from the
  text up to its last comma at least.
* `preview_faithful`: a preview approximates the value of every text that completes the text, and it
  keeps what is complete before each comma outside strings.
-/

namespace AgentSurface.Json

variable {text q p t : List Char} {s : State} {v w : Json}

/-! ### What is read for a preview -/

/-- The value is read from a text that begins as this one does up to its last comma, and it shows
nothing that the whole value does not have. -/
structure Shows (text : List Char) (v w : Json) : Prop where
  approximates : Approximates w v
  source : ∃ whole, State.initial.gives? whole = some w ∧ ∀ q, CommaBehind q text → q <+: whole

/-- Before a comma outside strings the containers can be closed. -/
theorem exists_closed (hfeed : Text.feed State.step .initial text = .ok s) (hv : s.MayBecome v)
    (hq : CommaBehind q text) :
    ∃ before a, Text.feed State.step .initial q = .ok before ∧ before.MayBecome v ∧
      before.nesting.inString = false ∧ before.closed? = some a := by
  obtain ⟨⟨rest, rfl⟩, hout⟩ := hq
  rw [List.append_assoc] at hfeed
  obtain ⟨before, hbefore, hrest⟩ := Text.exists_feed_of_append hfeed
  have hvbefore := State.mayBecome_of_feed hrest hv
  rw [nesting_scan_of_feed hbefore hvbefore] at hout
  obtain ⟨next, hstep, -⟩ := Text.feed_cons_eq_ok_iff.1 hrest
  obtain ⟨⟨a, ha⟩, -⟩ := (Move.of_step hstep).around_comma (sound_of_feed hbefore) hout
  exact ⟨before, a, hbefore, hvbefore, hout, ha⟩

theorem shows_whole (hfeed : Text.feed State.step .initial text = .ok s) (hv : s.MayBecome v)
    (hw : State.initial.gives? text = some w) : Shows text v w := by
  obtain ⟨s', hfeed', hfinish⟩ := State.gives?_eq_some_iff.1 hw
  cases hfeed.symm.trans hfeed'
  exact ⟨State.closed_approximates (State.closed?_of_finish hfinish) hv, text, hw,
    fun q hq => (List.prefix_append q [',']).trans hq.1⟩

theorem shows_repair (hfeed : Text.feed State.step .initial text = .ok s) (hv : s.MayBecome v)
    (htrim : Text.trimEnd text = text)
    (hw : State.initial.gives? (repair text s.nesting) = some w) : Shows text v w := by
  refine ⟨repair_approximates hfeed hv htrim hw, _, hw, fun q hq => ?_⟩
  refine List.IsPrefix.trans ?_ (dropLast_isPrefix_repair htrim s.nesting)
  obtain ⟨rest, rfl⟩ := hq.1
  rw [List.append_assoc, List.dropLast_append_of_ne_nil (by simp)]
  exact List.prefix_append _ _

/-- The last comma gives a preview if nothing else does. -/
theorem cuts_show (hfeed : Text.feed State.step .initial text = .ok s) (hv : s.MayBecome v) :
    ((∀ q, ¬ CommaBehind q text) ∧
        (scan text).cuts.findSome? (fun cut => closeAndParse (text.take cut.length) cut.nesting) =
          none) ∨
      ∃ w, Shows text v w ∧
        (scan text).cuts.findSome? (fun cut => closeAndParse (text.take cut.length) cut.nesting) =
          some w.settled := by
  obtain ⟨hcuts, hnone⟩ | ⟨last, cuts, hcuts, hlast, hall⟩ := cuts_scan text
  · exact .inl ⟨hnone, by rw [hcuts]; rfl⟩
  · obtain ⟨before, a, hbefore, hvbefore, hout, ha⟩ := exists_closed hfeed hv hlast
    have hread := gives?_repair hbefore hvbefore hout ha
    have htake : text.take last.length = last :=
      (List.prefix_iff_eq_take.1 ((List.prefix_append last [',']).trans hlast.1)).symm
    refine .inr ⟨a, ⟨State.closed_approximates ha hvbefore, last ++ before.nesting.closers, ?_,
      fun q hq => (hall q hq).trans (List.prefix_append _ _)⟩, ?_⟩
    · rw [gives?_append_closers hbefore hout, ha]
    · rw [hcuts, List.findSome?_cons, htake, closeAndParse, parse?_eq,
        nesting_scan_of_feed hbefore hvbefore, hread]
      rfl

theorem exists_of_parse? (h : parse? text = some w) :
    ∃ w', w = w'.settled ∧ State.initial.gives? text = some w' := by
  rw [parse?_eq] at h
  obtain ⟨w', hw', heq⟩ := Option.map_eq_some_iff.1 h
  exact ⟨w', heq.symm, hw'⟩

/-- **All that a preview shows is read from the text up to its last comma at least.** -/
theorem exists_shows (hfeed : Text.feed State.step .initial (Text.trim p) = .ok s)
    (hv : s.MayBecome v) (hw : preview p = some w) :
    ∃ w', w = w'.settled ∧ Shows (Text.trim p) v w' := by
  have htrim : Text.trimEnd (Text.trim p) = Text.trim p :=
    Text.dropEndWhile_of_last (Text.getLast?_dropEndWhile _ _)
  -- The whole text is read first, then its repair, and then the text before its last comma.
  unfold preview at hw
  dsimp only at hw
  split at hw
  · cases hw
  split at hw
  · next w'' hwhole =>
    cases hw
    obtain ⟨w', rfl, hw'⟩ := exists_of_parse? hwhole
    exact ⟨w', rfl, shows_whole hfeed hv hw'⟩
  split at hw
  · next w'' hrepair =>
    cases hw
    rw [closeAndParse, nesting_scan_of_feed hfeed hv] at hrepair
    obtain ⟨w', rfl, hw'⟩ := exists_of_parse? hrepair
    exact ⟨w', rfl, shows_repair hfeed hv htrim hw'⟩
  · obtain ⟨-, hnone⟩ | ⟨w', hshows, hcuts⟩ := cuts_show hfeed hv
    · rw [hnone] at hw
      cases hw
    · rw [hcuts] at hw
      exact ⟨w', (Option.some.inj hw).symm, hshows⟩

/-- A text with a comma outside strings has a preview. -/
theorem exists_preview (hfeed : Text.feed State.step .initial (Text.trim p) = .ok s)
    (hv : s.MayBecome v) (hq : CommaBehind q (Text.trim p)) : ∃ w, preview p = some w := by
  unfold preview
  dsimp only
  split
  · next hempty =>
    have hnil := hq.1
    rw [List.isEmpty_iff.1 hempty] at hnil
    simpa using List.prefix_nil.1 hnil
  split
  · exact ⟨_, rfl⟩
  split
  · exact ⟨_, rfl⟩
  · obtain ⟨hnone, -⟩ | ⟨w, -, hw⟩ := cuts_show hfeed hv
    · exact absurd hq (hnone q)
    · exact ⟨_, hw⟩

/-! ### The ends of the text -/

/-- Blanks before a value are passed over. -/
theorem feed_trimStart (hfeed : Text.feed State.step .initial p = .ok s) :
    Text.feed State.step .initial (Text.trimStart p) = .ok s := by
  rw [← List.takeWhile_append_dropWhile (p := Text.isBlank) (l := p)] at hfeed
  obtain ⟨before, hbefore, hrest⟩ := Text.exists_feed_of_append hfeed
  rw [State.blanks_before hbefore fun c hc => List.mem_takeWhile_imp hc] at hrest
  exact hrest

theorem exists_feed_trim (hfeed : Text.feed State.step .initial p = .ok s) (hv : s.MayBecome v) :
    ∃ s', Text.feed State.step .initial (Text.trim p) = .ok s' ∧ s'.MayBecome v := by
  obtain ⟨rest, hrest⟩ := Text.dropEndWhile_isPrefix Text.isBlank (Text.trimStart p)
  have hstart := feed_trimStart hfeed
  rw [← hrest] at hstart
  obtain ⟨s', hs', hlast⟩ := Text.exists_feed_of_append hstart
  exact ⟨s', hs', State.mayBecome_of_feed hlast hv⟩

/-- A comma stays behind what stands before it. -/
theorem trimStart_comma_isPrefix_trim (q rest : List Char) :
    Text.trimStart q ++ [','] <+: Text.trim (q ++ ',' :: rest) := by
  have hstart : Text.trimStart (q ++ ',' :: rest) = Text.trimStart q ++ [','] ++ rest := by
    rw [Text.trimStart, List.dropWhile_append]
    split
    · next hempty => rw [Text.trimStart, List.isEmpty_iff.1 hempty]; rfl
    · simp [Text.trimStart]
  have hlast : Text.dropEndWhile Text.isBlank (Text.trimStart q ++ [',']) =
      Text.trimStart q ++ [','] :=
    Text.dropEndWhile_of_last (by simp [Text.isBlank])
  have hbegin := Text.dropEndWhile_prefix_append Text.isBlank (Text.trimStart q ++ [',']) rest
  rwa [hlast, ← hstart] at hbegin

/-! ### The preview -/

theorem Shows.settled {w' : Json} (hkeys : DistinctKeys v) (h : Shows text v w') :
    w'.settled = w' :=
  (h.approximates.distinctKeys _ _ hkeys).settled _

/-- A preview shows nothing that the whole value does not have. -/
theorem preview_approximates (hfeed : Text.feed State.step .initial p = .ok s)
    (hv : s.MayBecome v) (hkeys : DistinctKeys v) (hw : preview p = some w) :
    Approximates w v := by
  obtain ⟨last, hlast, hvlast⟩ := exists_feed_trim hfeed hv
  obtain ⟨w', rfl, hshows⟩ := exists_shows hlast hvlast hw
  rw [hshows.settled hkeys]
  exact hshows.approximates

/-- Before a comma outside strings the brackets that are open give a value. -/
theorem exists_head {rest : List Char}
    (hfeed : Text.feed State.step .initial (q ++ ',' :: rest) = .ok s) (hv : s.MayBecome v)
    (hkeys : DistinctKeys v) (hout : Outside q) :
    ∃ before closers head, Text.feed State.step .initial q = .ok before ∧
      before.MayBecome v ∧ before.closed? = some head ∧ LeavesOpen q closers ∧
      parse? (q ++ closers) = some head := by
  obtain ⟨closers, hclosers⟩ := hout.exists_nesting
  have hcomma : CommaBehind q (q ++ ',' :: rest) := ⟨⟨rest, by simp⟩, by rw [hclosers]⟩
  obtain ⟨before, head, hbefore, hvbefore, hout, hhead⟩ := exists_closed hfeed hv hcomma
  refine ⟨before, closers, head, hbefore, hvbefore, hhead,
    (leavesOpen_iff hbefore hvbefore).2 hclosers, ?_⟩
  have hread := gives?_append_closers hbefore hout
  rw [← nesting_scan_of_feed hbefore hvbefore, hclosers, hhead] at hread
  have happrox : Approximates head v := State.closed_approximates hhead hvbefore
  rw [parse?_eq, hread, Option.map_some, (happrox.distinctKeys _ _ hkeys).settled]

/-- What is read before a comma outside strings is in the preview. -/
theorem exists_preview_of_comma {rest : List Char} {before : State} {head : Json}
    (hfeed : Text.feed State.step .initial (q ++ ',' :: rest) = .ok s) (hv : s.MayBecome v)
    (hkeys : DistinctKeys v) (hout : Outside q)
    (hbefore : Text.feed State.step .initial q = .ok before) (hvbefore : before.MayBecome v)
    (hhead : before.closed? = some head) :
    ∃ w, preview (q ++ ',' :: rest) = some w ∧ Approximates head w := by
  obtain ⟨last, hlast, hvlast⟩ := exists_feed_trim hfeed hv
  have hstart := feed_trimStart hbefore
  have hcomma : CommaBehind (Text.trimStart q) (Text.trim (q ++ ',' :: rest)) := by
    obtain ⟨closers, hclosers⟩ := hout.exists_nesting
    refine ⟨trimStart_comma_isPrefix_trim q rest, ?_⟩
    rw [nesting_scan_of_feed hstart hvbefore, ← nesting_scan_of_feed hbefore hvbefore, hclosers]
  obtain ⟨w, hw⟩ := exists_preview hlast hvlast hcomma
  obtain ⟨w', rfl, hshows⟩ := exists_shows hlast hvlast hw
  obtain ⟨whole, hwhole, hbegin⟩ := hshows.source
  -- What is shown is read from a text that has all of `q` in it, and goes on from there.
  obtain ⟨more, rfl⟩ := hbegin _ hcomma
  rw [State.gives?_append hstart] at hwhole
  refine ⟨w'.settled, hw, ?_⟩
  rw [hshows.settled hkeys]
  exact State.closed_approximates hhead (State.mayBecome_of_gives hwhole)

/-- **The preview of a text that breaks off is faithful.**

Let `p` begin a text whose value is `v`, without a key twice in an object.  What the preview of `p`
shows approximates `v`.  If `p` has a comma outside strings, the preview shows something, and the
value of the text before the comma, with the brackets closed that are open there, approximates what
is shown. -/
theorem preview_faithful (ht : read t = .ok v) (hkeys : DistinctKeys v) (hp : p <+: t) :
    parse? t = some v ∧
      (∀ w, preview p = some w → Approximates w v) ∧
      ∀ q rest, p = q ++ ',' :: rest → Outside q →
        ∃ w closers head, preview p = some w ∧ LeavesOpen q closers ∧
          parse? (q ++ closers) = some head ∧ Approximates head w := by
  have hread := read_eq_ok_iff.1 ht
  obtain ⟨behind, rfl⟩ := hp
  obtain ⟨s', hfeed', hfinish⟩ := State.gives?_eq_some_iff.1 hread
  obtain ⟨s, hfeed, hbehind⟩ := Text.exists_feed_of_append hfeed'
  have hv := State.mayBecome_of_feed hbehind (State.mayBecome_of_finish hfinish)
  refine ⟨?_, fun w hw => preview_approximates hfeed hv hkeys hw, ?_⟩
  · rw [parse?_eq, hread, Option.map_some, hkeys.settled]
  · rintro q rest rfl hout
    obtain ⟨before, closers, head, hbefore, hvbefore, hhead, hopen, hparse⟩ :=
      exists_head hfeed hv hkeys hout
    obtain ⟨w, hw, happrox⟩ :=
      exists_preview_of_comma hfeed hv hkeys hout hbefore hvbefore hhead
    exact ⟨w, closers, head, hw, hopen, hparse, happrox⟩

/-- A text that breaks off in an escape, behind a comma that stands in the same string. -/
theorem preview_faithful_in_escape :
    let q := "\x7b\"a\":[1".toList
    let p := q ++ ',' :: "\",\\u00".toList
    let t := p ++ "41\"]\x7d".toList
    let one : Json := .number (.whole { val := 1 })
    let v : Json := .object [("a", .array [one, .string ",A"])]
    read t = .ok v ∧ DistinctKeys v ∧ p <+: t ∧ Outside q ∧
      parse? t = some v ∧
        (∀ w, preview p = some w → Approximates w v) ∧
        ∃ w closers head, preview p = some w ∧ LeavesOpen q closers ∧
          parse? (q ++ closers) = some head ∧ Approximates head w := by
  intro q p t one v
  have ht : read t = .ok v := rfl
  have hkeys : DistinctKeys v := by
    simp [v, one, DistinctKeys, DistinctKeysItems, DistinctKeysFields, Fields.keys]
  have hp : p <+: t := List.prefix_append _ _
  have hkey : Body ['a'] := .char (by decide) (by decide) .nil
  have hout : Outside q :=
    ((((Outside.nil.char (c := '{') (by decide)).string hkey).char (c := ':') (by decide)).char
      (c := '[') (by decide)).char (c := '1') (by decide)
  obtain ⟨hvalue, happrox, hcomma⟩ := preview_faithful ht hkeys hp
  exact ⟨ht, hkeys, hp, hout, hvalue, happrox, hcomma q _ rfl hout⟩

end AgentSurface.Json
