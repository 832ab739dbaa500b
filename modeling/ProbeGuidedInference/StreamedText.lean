import ProbeGuidedInference.Conservation
import ProbeGuidedInference.Lib.Utf8
import ProbeGuidedInference.Server
import ProbeGuidedInference.Streaming

/- The text of a stream. `/stream` decodes every token on its own; `/generate` returns the
   text of `_finish`, which decodes the whole sequence. A byte-level token need not be a
   whole number of characters: where one ends inside a character, each part of that
   character is decoded to replacement characters, and the two texts differ. -/
namespace PGI
open Utf8

variable {Col : Type}

/-- A byte-level tokenizer: each id stands for a byte string, and ids are decoded as UTF-8,
    with replacement, of all their bytes. -/
def Tokenizer.ByteLevel (tokenizer : Tokenizer) (bytesOf : Nat → List UInt8) : Prop :=
  ∀ ids, tokenizer.decode ids = String.ofList (decodeLossy (ids.flatMap bytesOf))

/-- No token ends inside a unit of the bytes of the sequence. -/
def TokensAligned (bytesOf : Nat → List UInt8) (ids : List Nat) : Prop :=
  cutter.Aligned (ids.map bytesOf)

def StreamEvent.tokenText : StreamEvent → Option String
  | .token text => some text
  | _ => none

/-- The `token` texts of a stream, put together. -/
def streamedText (events : List StreamEvent) : String :=
  String.join (events.filterMap StreamEvent.tokenText)

section Text
variable {tokenizer : Tokenizer} {bytesOf : Nat → List UInt8}

theorem generatorLoop_texts (startTime now : ℚ) (rest : List (Option Nat)) :
    ∀ (ids : List Nat) (sent : Bool),
    (generatorLoop tokenizer startTime now sent (ids.map some ++ none :: rest)).filterMap
      StreamEvent.tokenText = ids.map fun id => tokenizer.decode [id] := by
  intro ids
  induction ids with
  | nil => exact fun _ => rfl
  | cons id ids ih =>
    intro sent
    cases sent with
    | true => exact congrArg (tokenizer.decode [id] :: ·) (ih true)
    -- the event before the first token carries no text
    | false => exact congrArg (tokenizer.decode [id] :: ·) (ih true)

theorem streamedText_eq (startTime now : ℚ) (ids : List Nat) (rest : List (Option Nat)) :
    streamedText (tokenGenerator tokenizer startTime now (ids.map some ++ none :: rest)) =
      String.join (ids.map fun id => tokenizer.decode [id]) :=
  congrArg String.join (generatorLoop_texts startTime now rest ids false)

/-- A byte-level stream has the characters of the tokens, each decoded on its own. -/
theorem streamedText_toList (hbytes : tokenizer.ByteLevel bytesOf) (startTime now : ℚ)
    (ids : List Nat) (rest : List (Option Nat)) :
    (streamedText (tokenGenerator tokenizer startTime now (ids.map some ++ none :: rest))).toList =
      (ids.map bytesOf).flatMap decodeLossy := by
  rw [streamedText_eq, String.toList_join, List.flatMap_map, List.flatMap_map]
  congr 1
  funext id
  rw [hbytes [id], String.toList_ofList, List.flatMap_singleton]

/-- A stream is the text of the whole sequence exactly if no token ends inside a unit. -/
theorem streamedText_eq_iff (hbytes : tokenizer.ByteLevel bytesOf) (startTime now : ℚ)
    (ids : List Nat) (rest : List (Option Nat)) :
    streamedText (tokenGenerator tokenizer startTime now (ids.map some ++ none :: rest)) =
      tokenizer.decode ids ↔ TokensAligned bytesOf ids := by
  rw [← String.toList_inj, streamedText_toList hbytes, hbytes ids, String.toList_ofList,
    List.flatMap_def (f := bytesOf)]
  exact decodeLossy_flatMap_iff _

/-- In a sequence whose bytes are well-formed text, that is: every token is. -/
theorem tokensAligned_iff {ids : List Nat} {cs : List Char}
    (htext : ids.flatMap bytesOf = cs.flatMap String.utf8EncodeChar) :
    TokensAligned bytesOf ids ↔
      ∀ id ∈ ids, ∃ ds : List Char, bytesOf id = ds.flatMap String.utf8EncodeChar := by
  refine ⟨?_, ?_⟩
  · intro h id hid
    have hunits : (ids.map bytesOf).flatMap cutter.units = cs.map String.utf8EncodeChar := by
      rw [Segments.flatMap_units_eq h, ← List.flatMap_def, htext, units_encode]
    have hsub : ∀ u ∈ cutter.units (bytesOf id), ∃ c, String.utf8EncodeChar c = u := by
      intro u hu
      have hmem : u ∈ (ids.map bytesOf).flatMap cutter.units :=
        List.mem_flatMap.mpr ⟨bytesOf id, List.mem_map_of_mem hid, hu⟩
      rw [hunits] at hmem
      obtain ⟨c, -, hc⟩ := List.mem_map.mp hmem
      exact ⟨c, hc⟩
    refine ⟨(cutter.units (bytesOf id)).map charOf, ?_⟩
    calc bytesOf id = (cutter.units (bytesOf id)).flatten := (Segments.units_flatten _).symm
      _ = ((cutter.units (bytesOf id)).map (String.utf8EncodeChar ∘ charOf)).flatten := by
          congr 1
          refine (List.map_id _).symm.trans (List.map_congr_left ?_)
          intro u hu
          obtain ⟨c, rfl⟩ := hsub u hu
          show String.utf8EncodeChar c = String.utf8EncodeChar (charOf (String.utf8EncodeChar c))
          rw [charOf_encode]
      _ = _ := by rw [List.flatMap_def, List.map_map]
  · intro h
    choose! charsOf hchars using h
    have hmap : ids.map bytesOf = (ids.map charsOf).map (·.flatMap String.utf8EncodeChar) := by
      rw [List.map_map]
      exact List.map_congr_left hchars
    rw [TokensAligned, hmap]
    exact aligned_encode _

end Text

section Runs
variable {cfg : Config Col} {bytesOf : Nat → List UInt8}

/-- **The stream and the returned text.** Of a byte-level sequence put on a token queue
    before `None`, the streamed texts are together the text of the whole sequence if and
    only if no token ends inside a unit of its bytes; and the text of the whole is what
    `_finish` gives to `/generate` for these tokens. -/
theorem streamed_text_iff (hbytes : cfg.tokenizer.ByteLevel bytesOf) (startTime now : ℚ)
    (ids : List Nat) (rest : List (Option Nat)) :
    (streamedText (tokenGenerator cfg.tokenizer startTime now (ids.map some ++ none :: rest)) =
      cfg.tokenizer.decode ids ↔ TokensAligned bytesOf ids) ∧
    ∀ (req : GenerationRequest) (time start finish : ℚ), req.generatedIds = ids →
      req.result = .pending →
      (generateResponse (req.completed cfg time) start finish).map GenerateResponse.text =
        some (cfg.tokenizer.decode ids) := by
  refine ⟨streamedText_eq_iff hbytes startTime now ids rest, ?_⟩
  intro req time start finish hids hpending
  have hresult : (req.completed cfg time).result = .resolved (cfg.tokenizer.decode ids) := by
    rw [GenerationRequest.completed_result, hpending, hids]
    rfl
  rw [generateResponse, hresult]
  rfl

/-- In a run: a request that is finished, was never preempted and not cancelled has been
    streamed the text it is answered with exactly if no token ends inside a unit. -/
theorem finished_stream_text_iff [Zero Col] {firstId rid : Nat} {events : List Event}
    {s : Batcher Col} (hrun : runEvents cfg firstId events = .ok s)
    (hbytes : cfg.tokenizer.ByteLevel bytesOf) (hfin : rid ∈ s.finished)
    (hstream : (s.requests rid).stream = true) (hwhole : (s.view rid).everPreempted = false)
    (hanswered : (s.requests rid).result ≠ .cancelled) (startTime now start finish : ℚ) :
    ∃ queue, (s.requests rid).tokenQueue = some queue ∧
      ((generateResponse (s.requests rid) start finish).map GenerateResponse.text =
          some (streamedText (tokenGenerator cfg.tokenizer startTime now queue)) ↔
        TokensAligned bytesOf (s.requests rid).generatedIds) := by
  have hs := runEvents_inv hrun
  have hlife := hs.life rid (hs.mem_submitted.mpr (.inr (.inr hfin)))
  have hloc : (s.view rid).loc = .finished := hs.loc_finished hfin
  have hqueue : (s.requests rid).tokenQueue =
      some ((s.requests rid).generatedIds.map some ++ endMark (s.view rid).loc) :=
    (hlife.faithful_iff hstream).mpr hwhole
  have hresult : (s.requests rid).result =
      .resolved (cfg.tokenizer.decode (s.requests rid).generatedIds) :=
    (hlife.answered.done hloc).resolve_right hanswered
  rw [hloc, endMark, if_pos rfl] at hqueue
  refine ⟨_, hqueue, ?_⟩
  rw [generateResponse, hresult, ← streamedText_eq_iff hbytes startTime now _ []]
  refine ⟨?_, ?_⟩
  · intro h
    exact (Option.some.inj h).symm
  · intro h
    rw [h]
    rfl

end Runs

/-- The 256 tokens of a single byte. -/
def singleBytes (id : Nat) : List UInt8 := [UInt8.ofNat id]

def byteTokenizer : Tokenizer where
  eosTokenId := 256
  decode ids := String.ofList (decodeLossy (ids.flatMap singleBytes))

theorem byteTokenizer_byteLevel : byteTokenizer.ByteLevel singleBytes := fun _ => rfl

/-- The three bytes of U+20AC in three tokens: three replacement characters are streamed. -/
theorem euroSign_garbled :
    byteTokenizer.ByteLevel singleBytes ∧
    byteTokenizer.decode [0xE2, 0x82, 0xAC] = "\u20ac" ∧
    streamedText (tokenGenerator byteTokenizer 0 1 ([0xE2, 0x82, 0xAC].map some ++ [none])) ≠
      byteTokenizer.decode [0xE2, 0x82, 0xAC] := by
  refine ⟨byteTokenizer_byteLevel, by decide, ?_⟩
  decide

def byteConfig : Config TokenColumn := { divergentConfig .baseline with tokenizer := byteTokenizer }

/-- The request whose tokens these are, before `_finish`. -/
def euroRequest : GenerationRequest where
  maxTokens := 3
  promptIds := [1]
  generatedIds := [0xE2, 0x82, 0xAC]

theorem streamed_text_iff_euroSign :
    (streamedText (tokenGenerator byteTokenizer 0 1 ([0xE2, 0x82, 0xAC].map some ++ [none])) =
      byteTokenizer.decode [0xE2, 0x82, 0xAC] ↔ TokensAligned singleBytes [0xE2, 0x82, 0xAC]) ∧
    (generateResponse (euroRequest.completed byteConfig 0) 0 1).map GenerateResponse.text =
      some (byteTokenizer.decode [0xE2, 0x82, 0xAC]) := by
  have hbytes : byteConfig.tokenizer.ByteLevel singleBytes := byteTokenizer_byteLevel
  obtain ⟨hstream, hreturned⟩ := streamed_text_iff hbytes 0 1 [0xE2, 0x82, 0xAC] []
  exact ⟨hstream, hreturned euroRequest 0 0 1 rfl rfl⟩

end PGI
