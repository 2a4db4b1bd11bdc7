import TreeRender.Proofs.Encoding.Decoding
import TreeRender.Proofs.Encoding.References
import TreeRender.Proofs.Renderer.Streaming

/-!
# Encoded streams

A stream encodes each chunk on its own, wherever it was cut. Hexadecimal digits and numeric
references stand for one byte or character each, so the chunks join to the encoding of the whole.
Base 64 goes by groups of bytes, so there each chunk has to be decoded on its own.
-/

namespace TreeRender

open Markup MarkupStream

variable {F σ : Type}

namespace Encoding

variable {e : Encoding}

private theorem encode_empty (e : Encoding) : e.encode "" = "" := by
  cases e with
  | utf8 => rfl
  | ascii => rfl
  | base64 => rw [encode, bytes_empty]; rfl
  | hex => rw [encode, bytes_empty]; rfl

theorem encode_eq_empty {s : String} : e.encode s = "" ↔ s = "" := by
  refine ⟨fun h => ?_, fun h => h ▸ e.encode_empty⟩
  have eq_empty (hdecoded : some (bytes s) = some []) : s = "" := by
    rw [bytes_eq, Option.some.injEq] at hdecoded
    exact String.toByteArray_inj.1 (ByteArray.ext (Array.toList_inj.1 hdecoded))
  cases e with
  | utf8 => exact h
  | ascii =>
    rw [encode, String.ofList_eq_empty_iff, List.flatMap_eq_nil_iff] at h
    rw [← String.toList_eq_nil_iff, List.eq_nil_iff_forall_not_mem]
    intro c hc
    have hnil := h c hc
    unfold asciiChar at hnil
    split at hnil <;> cases hnil
  | base64 => exact eq_empty ((ofBase64?_encode s).symm.trans (congrArg ofBase64? h))
  | hex => exact eq_empty ((ofHex?_encode s).symm.trans (congrArg ofHex? h))

private theorem encode_append (h : e ≠ .base64) (s t : String) :
    e.encode (s ++ t) = e.encode s ++ e.encode t := by
  cases e with
  | utf8 => rfl
  | ascii =>
    simp only [encode]
    rw [String.toList_append, List.flatMap_append, String.ofList_append]
  | base64 => exact absurd rfl h
  | hex =>
    simp only [encode]
    rw [bytes_append, List.flatMap_append, String.ofList_append]

private theorem join_map_encode (h : e ≠ .base64) (texts : List String) :
    String.join (texts.map e.encode) = e.encode (String.join texts) := by
  induction texts with
  | nil => exact e.encode_empty.symm
  | cons s rest ih =>
    rw [List.map_cons, String.join_cons, String.join_cons, encode_append h, ih]

private theorem mapM_ofBase64? (texts : List String) :
    (texts.map (encode .base64)).mapM ofBase64? = some (texts.map bytes) := by
  induction texts with
  | nil => rfl
  | cons s rest ih =>
    rw [List.map_cons, List.mapM_cons, ofBase64?_encode, ih]
    rfl

/-- Parts in base 64 do not join to the whole in base 64. -/
example : encode .base64 "a" ++ encode .base64 "b" ≠ encode .base64 ("a" ++ "b") := by
  decide +kernel

end Encoding

namespace MarkupRenderer

variable {config : Config} {r : MarkupRenderer F}

private theorem Sound.drain_chunks (h : r.Sound config) (hdry : config.enableHydration = false)
    (hfallback : config.minify = true → '<' ∉ config.errorFallback.toList)
    (program : Program F σ) (node : Node F) {world world' : World σ}
    (hstate : world.state = world'.state) {html : String}
    (hrender : (r.render program node world).value.result = .ok html) :
    ∃ items last texts, Drains (MarkupStream.new r program node world').next.value items last ∧
      items = chunkItems config texts ∧ String.join texts = html := by
  obtain ⟨items, last, hdrains, hends⟩ := h.drains hfallback program node world'
  rw [h.streamed_eq_walked hdry] at hends
  obtain ⟨texts, htexts⟩ := hends.chunked rfl (by rw [← h.configured]; rfl)
  have hwalked : (r.walked program node world').1.map
      (fun html => if config.minify then Markup.minify html else html) = .ok html := by
    rw [← (h.walked_same program node hstate).1, ← hrender, value_render, h.configured]
    rfl
  rw [hwalked] at htexts
  exact ⟨items, last, texts, hdrains, htexts⟩

/-- Encoded streams can be decoded chunk by chunk. In ASCII and in hexadecimal digits, the chunks
join to the encoding of what a render gives; in base 64, the bytes of the chunks are its bytes.
Decoding undoes encoding, in ASCII if there was no reference to a character before. -/
theorem encoded_drain_decodes (hr : r.Reachable config) (hdry : config.enableHydration = false)
    (hfallback : config.minify = true → '<' ∉ config.errorFallback.toList)
    (program : Program F σ) (node : Node F) (world world' : World σ)
    (hstate : world.state = world'.state) {html : String}
    (hrender : (r.render program node world).value.result = .ok html) :
    (∃ last chunks,
      Drains (MarkupStream.new r program node world').next.value (chunks.map .ok) last ∧
      (config.encoding ≠ .base64 → String.join chunks = config.encoding.encode html) ∧
      (config.encoding = .base64 → ∃ parts, chunks.mapM Encoding.ofBase64? = some parts ∧
        parts.flatten = Encoding.bytes html)) ∧
    ∀ s : String,
      Encoding.ofHex? (Encoding.encode .hex s) = some (Encoding.bytes s) ∧
      Encoding.ofBase64? (Encoding.encode .base64 s) = some (Encoding.bytes s) ∧
      (∀ c ∈ (Encoding.encode .ascii s).toList, c.toNat < 128) ∧
      ((∀ c ∈ s.toList, c.toNat < 128) → Encoding.encode .ascii s = s) ∧
      (¬Encoding.HasReference s.toList →
        Encoding.dereference (Encoding.encode .ascii s) = s) := by
  refine ⟨?_, fun s => ⟨Encoding.ofHex?_encode s, Encoding.ofBase64?_encode s,
    Encoding.toNat_encode_ascii_lt s, Encoding.encode_ascii_eq_self, Encoding.dereference_encode⟩⟩
  obtain ⟨items, last, texts, hdrains, rfl, rfl⟩ :=
    hr.sound.drain_chunks hdry hfallback program node hstate hrender
  have hchunks : chunkItems config texts = (texts.map config.encoding.encode).map .ok :=
    (List.map_map ..).symm
  rw [hchunks] at hdrains
  refine ⟨last, texts.map config.encoding.encode, hdrains, ?_, fun hbase => ?_⟩
  · exact fun hbase => Encoding.join_map_encode hbase texts
  · rw [hbase]
    refine ⟨texts.map Encoding.bytes, Encoding.mapM_ofBase64? texts, ?_⟩
    rw [Encoding.bytes_join, List.flatMap_def]

theorem encoded_drain_decodes_base64 :
    ∃ (last : MarkupStream String Nat) (chunks : List String),
      Drains (MarkupStream.new (fresh { encoding := .base64, chunkSize := 1 }) Program.counting
        (.element ((Element.new "p").child (.component (.producer "tick"))))
        { state := 7, clock := { reading := id } }).next.value (chunks.map .ok) last ∧
      ∃ parts : List (List UInt8), chunks.mapM Encoding.ofBase64? = some parts ∧
        parts.flatten = Encoding.bytes "<p>7</p>" := by
  have hr : (fresh { encoding := .base64, chunkSize := 1 } : MarkupRenderer String).Reachable
      { encoding := .base64, chunkSize := 1 } := .new rfl
  have hrender : ((fresh { encoding := .base64, chunkSize := 1 }).render Program.counting
      (.element ((Element.new "p").child (.component (.producer "tick"))))
      { state := 7, clock := { reading := id } }).value.result = .ok "<p>7</p>" := rfl
  obtain ⟨⟨last, chunks, hdrains, -, hbase⟩, -⟩ := encoded_drain_decodes hr rfl
    (fun h => nomatch h) Program.counting _ _ { state := 7, clock := { reading := id } } rfl hrender
  exact ⟨last, chunks, hdrains, hbase rfl⟩

end MarkupRenderer

end TreeRender
