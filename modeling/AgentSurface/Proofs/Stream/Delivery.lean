import Mathlib.Data.List.Chain
import AgentSurface.Proofs.Stream.Calls
import AgentSurface.Proofs.Text.Utf8

/-!
# Stream — how a text is delivered makes no difference

A text can reach a reader in pieces, as the whole text so far again and again, or as its bytes cut
anywhere.  `Delivers` lists these ways, and `leads_of_delivers` says that each of them leads where
feeding the text character by character leads, with no call refused.

* `delivery_invariant`: behind the end of the text, the reader is the one that took the text in a
  single piece.
-/

namespace AgentSurface.Stream

/-- The calls deliver the text. -/
inductive Delivers (text : String) : List Call → Prop where
  | pieces (pieces : List String) (h : String.join pieces = text) :
    Delivers text (pieces.map .push)
  /-- Every text begins with the one before, and may be the same again. -/
  | texts (fulls : List String) (h : fulls.IsChain fun a b => a.toList <+: b.toList)
    (hlast : fulls.getLast?.getD "" = text) : Delivers text (fulls.map .sync)
  /-- A cut may fall inside a character. -/
  | bytes (chunks : List (List UInt8)) (h : chunks.flatten = text.toUTF8.data.toList) :
    Delivers text (chunks.map .pushBytes)

namespace Reader

variable {r : Reader}

theorem leads_pieces (hr : r.phase = .streaming) (pieces : List String)
    (hroom : r.buffer.utf8ByteSize + (String.join pieces).utf8ByteSize ≤ r.options.maxBytes) :
    r.Leads (pieces.map .push) (r.feedAll (String.join pieces).toList) := by
  induction pieces generalizing r with
  | nil => exact .nil r
  | cons piece rest ih =>
    rw [String.join_cons, String.utf8ByteSize_append] at hroom
    obtain ⟨blocks, hpush⟩ := push_eq hr piece (by omega)
    refine .cons hpush ?_
    rw [String.join_cons, String.toList_append, feedAll_append]
    refine ih (by simpa using hr) ?_
    rw [buffer_feedAll, String.ofList_toList, String.utf8ByteSize_append, options_feedAll]
    omega

/-- Each text so far is fed from where the one before ended. -/
theorem leads_texts (hr : r.phase = .streaming) (fulls : List String)
    (hchain : (r.buffer :: fulls).IsChain fun a b => a.toList <+: b.toList)
    (hroom : (fulls.getLast?.getD r.buffer).utf8ByteSize ≤ r.options.maxBytes) :
    ∃ rest, fulls.getLast?.getD r.buffer = r.buffer ++ rest ∧
      r.Leads (fulls.map .sync) (r.feedAll rest.toList) := by
  induction fulls generalizing r with
  | nil => exact ⟨"", by simp, .nil r⟩
  | cons full fulls ih =>
    obtain ⟨hfirst, hchain⟩ := List.isChain_cons_cons.1 hchain
    obtain ⟨piece, rfl⟩ := exists_append_of_prefix hfirst
    have hbuffer : (r.feedAll piece.toList).buffer = r.buffer ++ piece := by
      rw [buffer_feedAll, String.ofList_toList]
    rw [List.getLast?_cons, Option.getD_some, ← hbuffer] at hroom ⊢
    obtain ⟨rest, hlast, hleads⟩ := ih (r := r.feedAll piece.toList) (by simpa using hr)
      (by rwa [hbuffer]) (by simpa using hroom)
    rw [hlast, String.utf8ByteSize_append, hbuffer, String.utf8ByteSize_append] at hroom
    obtain ⟨blocks, hpush⟩ := push_eq hr piece (by omega)
    refine ⟨piece ++ rest, ?_, .cons ((sync_eq (by simp [hr]) hbuffer).trans hpush) ?_⟩
    · rw [hlast, hbuffer, String.append_assoc]
    · rwa [String.toList_append, feedAll_append]

/-- Pieces of bytes are the text that they settle together. -/
theorem leads_chunks (hr : r.phase = .streaming) (chunks : List (List UInt8)) {text : String}
    {d : Text.Utf8.Decoder} (hdecode : r.decoder.decode chunks.flatten = (text, d))
    (hroom : r.buffer.utf8ByteSize + text.utf8ByteSize ≤ r.options.maxBytes) :
    r.Leads (chunks.map .pushBytes) ((r.feedAll text.toList).holding d) := by
  induction chunks generalizing r text with
  | nil =>
    obtain ⟨rfl, rfl⟩ := Prod.mk.inj hdecode
    exact .nil r
  | cons chunk rest ih =>
    obtain ⟨piece, held, hpiece⟩ : ∃ piece held, r.decoder.decode chunk = (piece, held) :=
      ⟨_, _, rfl⟩
    obtain ⟨more, last, hmore⟩ : ∃ more last, held.decode rest.flatten = (more, last) :=
      ⟨_, _, rfl⟩
    rw [List.flatten_cons, Text.Utf8.Decoder.decode_append, hpiece, hmore] at hdecode
    obtain ⟨rfl, rfl⟩ : piece ++ more = text ∧ last = d := Prod.mk.inj hdecode
    rw [String.utf8ByteSize_append] at hroom
    -- The reader that holds back the other bytes is fed the text that this piece settles.
    obtain ⟨blocks, hpush⟩ := push_eq (r := r.holding held) hr piece
      (by rw [buffer_holding, options_holding]; omega)
    have hbytes : r.pushBytes chunk = (.ok blocks, (r.feedAll piece.toList).holding held) := by
      rw [pushBytes_eq (by simp [hr]), hpiece, hpush, feedAll_holding]
    refine .cons hbytes ?_
    have hrest := ih (r := (r.feedAll piece.toList).holding held) (by simpa using hr) hmore (by
      rw [buffer_holding, buffer_feedAll, String.ofList_toList, String.utf8ByteSize_append,
        options_holding, options_feedAll]
      omega)
    rwa [feedAll_holding, holding_holding, ← feedAll_append, ← String.toList_append] at hrest

/-- A delivery is not refused, and leads where feeding the text leads. -/
theorem leads_of_delivers {options : Options} {text : String} {calls : List Call}
    (h : Delivers text calls) (hroom : text.utf8ByteSize ≤ options.maxBytes) :
    (new options).Leads calls ((new options).feedAll text.toList) := by
  have hstart : (new options).phase = .streaming := rfl
  cases h with
  | pieces pieces h =>
    subst h
    exact leads_pieces hstart pieces (by simpa using hroom)
  | texts fulls h hlast =>
    have hchain : ((new options).buffer :: fulls).IsChain fun a b => a.toList <+: b.toList := by
      cases fulls with
      | nil => exact .singleton _
      | cons full fulls => exact .cons_cons (by simp) h
    obtain ⟨rest, hrest, hleads⟩ := leads_texts hstart fulls hchain
      (by rw [buffer_new, hlast]; exact hroom)
    rw [buffer_new, hlast, String.empty_append] at hrest
    rwa [hrest]
  | bytes chunks h =>
    have hdecode : (new options).decoder.decode chunks.flatten = (text, ⟨[]⟩) := by
      rw [h]; exact Text.Utf8.Decoder.decode_encode text
    have hleads := leads_chunks hstart chunks hdecode (by simpa using hroom)
    rwa [← feedAll_holding] at hleads

/-- A text in a single piece, and its end. -/
theorem leads_text {options : Options} {text : String}
    (hroom : text.utf8ByteSize ≤ options.maxBytes) :
    (new options).Leads [.push text, .finish] ((new options).feedAll text.toList).close := by
  have hone : Delivers text [.push text] := .pieces [text] (by simp)
  exact (leads_of_delivers hone hroom).append (leads_finish (by simp) (by simp [new]))

end Reader

open Reader

/-- **How a text is delivered makes no difference.**  However a text for which there is room is
delivered, no call is refused, and behind the end of the text the reader is the one that took the
text in a single piece: with the same blocks and the same text received, and finished. -/
theorem delivery_invariant {options : Options} {text : String} {calls : List Call}
    (h : Delivers text calls) (hroom : text.utf8ByteSize ≤ options.maxBytes) :
    ∃ last : Reader, (new options).Leads (calls ++ [.finish]) last ∧
      (new options).Leads [.push text, .finish] last ∧
      last.buffer = text ∧ last.phase = .finished := by
  have hfinish := leads_finish (r := (new options).feedAll text.toList) (by simp) (by simp [new])
  refine ⟨_, (leads_of_delivers h hroom).append hfinish, leads_text hroom, ?_, rfl⟩
  rw [buffer_close, buffer_feedAll]
  simp

/-- The first cut is inside a letter, the second inside a marker. -/
theorem delivery_cut_inside_marker :
    ∃ last : Reader,
      (new {}).Leads ([[0xC3], [0xA9, 0x0A, 0x60, 0x60], [0x60, 0x6A, 0x73, 0x78, 0x0A]].map
        Call.pushBytes ++ [.finish]) last ∧
      (new {}).Leads [.push "é\n\x60\x60\x60jsx\n", .finish] last ∧
      last.buffer = "é\n\x60\x60\x60jsx\n" ∧ last.phase = .finished :=
  delivery_invariant (.bytes [[0xC3], [0xA9, 0x0A, 0x60, 0x60], [0x60, 0x6A, 0x73, 0x78, 0x0A]]
    (by decide)) (by decide)

end AgentSurface.Stream
