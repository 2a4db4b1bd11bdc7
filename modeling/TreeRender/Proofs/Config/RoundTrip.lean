import Mathlib.Data.List.Nodup
import TreeRender.Config.Json
import TreeRender.Proofs.Json.ReadBack
import TreeRender.Proofs.Json.Yields

/-!
# Configurations in their text

A configuration is read back from its text as it was, except for its time to live, of which whole
milliseconds are written, as far as 64 bits hold them. Whatever is read from a text has whole
milliseconds already, so writing it and reading it again changes nothing.
-/

namespace TreeRender

open Json Json.Reader

private theorem Encoding.ofName?_name (e : Encoding) : ofName? e.name = some e := by
  cases e <;> decide

namespace Json.Reader

private theorem takes_encodingNamed (e : Encoding) (rest : List Char) :
    Takes (encodingNamed e.name) rest e rest := by
  unfold encodingNamed
  rw [e.ofName?_name]
  exact Takes.pure e rest

private theorem reads_encoding (e : Encoding) : Reads encoding (chars (.string e.name)) e := by
  intro rest _
  apply (Takes.peekToken? (d := '"') (by decide) _).bind
  dsimp only
  rw [if_pos rfl]
  exact (takes_string e.name rest).bind (takes_encodingNamed e rest)

end Json.Reader

namespace Config

structure FitsWords (c : Config) : Prop where
  cacheSize : c.cacheSize < UInt64.size
  cacheComplexityLimit : c.cacheComplexityLimit < UInt64.size
  maxDepth : c.maxDepth < UInt64.size
  chunkSize : c.chunkSize < UInt64.size
  bufferSize : c.bufferSize < UInt64.size
  yieldThreshold : c.yieldThreshold < UInt64.size

/-- The time to live, if there is any, is a number of milliseconds that 64 bits hold. -/
def HasWholeTtl (c : Config) : Prop :=
  ∀ ttl, c.cacheTtl = some ttl → ∃ n < UInt64.size, ttl = n * millisecond

/-- The configuration with the time to live that its text tells. -/
def asWritten (c : Config) : Config :=
  { c with cacheTtl := (c.cacheTtl.map writtenTtl).map (· * millisecond) }

private theorem writtenTtl_lt (ttl : Nat) : writtenTtl ttl < UInt64.size :=
  Nat.lt_of_le_of_lt (Nat.min_le_right _ _) (by decide)

private theorem writtenTtl_mul {n : Nat} (hn : n < UInt64.size) : writtenTtl (n * millisecond) = n
    := by
  unfold writtenTtl
  rw [Nat.mul_div_cancel n (by decide)]
  exact Nat.min_eq_left (Nat.le_sub_one_of_lt hn)

private theorem asWritten_eq_self_iff {c : Config} : c.asWritten = c ↔ c.HasWholeTtl := by
  constructor
  · intro h ttl httl
    have hmap : c.asWritten.cacheTtl = c.cacheTtl := congrArg cacheTtl h
    unfold asWritten at hmap
    rw [httl] at hmap
    exact ⟨writtenTtl ttl, writtenTtl_lt ttl, (Option.some.inj hmap).symm⟩
  · intro h
    have hmap : (c.cacheTtl.map writtenTtl).map (· * millisecond) = c.cacheTtl := by
      cases hc : c.cacheTtl with
      | none => rfl
      | some ttl =>
        obtain ⟨n, hn, rfl⟩ := h ttl hc
        rw [Option.map_some, writtenTtl_mul hn, Option.map_some]
    unfold asWritten
    rw [hmap]

/-- What each option of `c` sets when it is read, in the order in which options are written. -/
def restoring (c : Config) : List (Config → Config) :=
  [fun d => { d with enableCache := c.enableCache }, fun d => { d with cacheSize := c.cacheSize },
    fun d => { d with cacheTtl := c.asWritten.cacheTtl },
    fun d => { d with cacheComplexityLimit := c.cacheComplexityLimit },
    fun d => { d with minify := c.minify }, fun d => { d with maxDepth := c.maxDepth },
    fun d => { d with chunkSize := c.chunkSize }, fun d => { d with bufferSize := c.bufferSize },
    fun d => { d with yieldThreshold := c.yieldThreshold },
    fun d => { d with encoding := c.encoding },
    fun d => { d with enableHydration := c.enableHydration },
    fun d => { d with defaultNamespace := c.defaultNamespace },
    fun d => { d with throwOnError := c.throwOnError },
    fun d => { d with errorFallback := c.errorFallback },
    fun d => { d with enableMonitoring := c.enableMonitoring }]

private theorem foldl_restoring (c d : Config) :
    (restoring c).foldl (fun d restore => restore d) d = c.asWritten := rfl

/-- The option is read from its text in `c`, whatever it is read into. -/
def Field.Restores (c : Config) (field : Field) (restore : Config → Config) : Prop :=
  ∀ d, Reads (field.read d) (chars (field.write c)) (restore d)

private theorem reads_ttl (ttl : Option Nat) :
    Reads (optional natural) (chars (optionalJson (naturalJson ∘ writtenTtl) ttl))
      (ttl.map writtenTtl) := by
  cases ttl with
  | none => exact reads_optional_none natural
  | some ttl => exact reads_optional_natural (writtenTtl_lt ttl)

private theorem reads_namespace (name : Option String) :
    Reads (optional string) (chars (optionalJson .string name)) name := by
  cases name with
  | none => exact reads_optional_none string
  | some name => exact reads_optional_string name

private theorem forall₂_restores {c : Config} (hc : c.FitsWords) :
    List.Forall₂ (Field.Restores c) fields (restoring c) := by
  refine .cons (fun _ => (reads_bool c.enableCache).map _) ?_
  refine .cons (fun _ => (reads_natural hc.cacheSize).map _) ?_
  refine .cons (fun _ => (reads_ttl c.cacheTtl).map _) ?_
  refine .cons (fun _ => (reads_natural hc.cacheComplexityLimit).map _) ?_
  refine .cons (fun _ => (reads_bool c.minify).map _) ?_
  refine .cons (fun _ => (reads_natural hc.maxDepth).map _) ?_
  refine .cons (fun _ => (reads_natural hc.chunkSize).map _) ?_
  refine .cons (fun _ => (reads_natural hc.bufferSize).map _) ?_
  refine .cons (fun _ => (reads_natural hc.yieldThreshold).map _) ?_
  refine .cons (fun _ => (reads_encoding c.encoding).map _) ?_
  refine .cons (fun _ => (reads_bool c.enableHydration).map _) ?_
  refine .cons (fun _ => (reads_namespace c.defaultNamespace).map _) ?_
  refine .cons (fun _ => (reads_bool c.throwOnError).map _) ?_
  refine .cons (fun _ => (reads_string c.errorFallback).map _) ?_
  refine .cons (fun _ => (reads_bool c.enableMonitoring).map _) ?_
  exact .nil

private theorem nodup_keys_fields : (fields.map Field.key).Nodup := by decide

private theorem find?_key {field : Field} (h : field ∈ fields) :
    fields.find? (·.key = field.key) = some field := by
  cases hfound : fields.find? (·.key = field.key) with
  | none => exact absurd (List.find?_eq_none.1 hfound field h) (by simp)
  | some other =>
    have hkey := List.find?_some hfound
    have hmem := List.mem_of_find?_eq_some hfound
    rw [List.inj_on_of_nodup_map nodup_keys_fields hmem h (of_decide_eq_true hkey)]

private theorem reads_member {c d : Config} {field : Field} {restore : Config → Config}
    (hfield : field ∈ fields) (h : field.Restores c restore) {keys : List String}
    (hkey : field.key ∉ keys) :
    Reads (readMember field.key (keys, d)) (':' :: chars (field.write c))
      (field.key :: keys, restore d) := by
  intro rest hrest
  unfold readMember
  rw [find?_key hfield]
  dsimp only
  rw [List.contains_eq_mem, decide_eq_false hkey, if_neg Bool.false_ne_true]
  apply (takes_colon _).bind
  exact (h d rest hrest).bind (Takes.pure _ rest)

private theorem gathers_members {c : Config} {part : List Field} {restores : List (Config → Config)}
    (h : List.Forall₂ (Field.Restores c) part restores) (hfields : ∀ field ∈ part, field ∈ fields)
    (hnodup : (part.map Field.key).Nodup) {keys : List String}
    (hkeys : ∀ field ∈ part, field.key ∉ keys) (d : Config) :
    ∃ read, Gathers readMember (part.map fun field => (field.key, field.write c)) (keys, d)
      (read, restores.foldl (fun d restore => restore d) d) := by
  induction h generalizing keys d with
  | nil => exact ⟨keys, .nil _⟩
  | @cons field restore part restores hfield _ ih =>
    rw [List.map_cons, List.nodup_cons] at hnodup
    have hnew : ∀ other ∈ part, other.key ∉ field.key :: keys := by
      intro other hother hmem
      rcases List.mem_cons.1 hmem with heq | hmem
      · exact hnodup.1 (heq ▸ List.mem_map_of_mem hother)
      · exact hkeys other (List.mem_cons_of_mem _ hother) hmem
    obtain ⟨read, hread⟩ := ih (fun other hother => hfields other (List.mem_cons_of_mem _ hother))
      hnodup.2 hnew (restore d)
    have hmember := reads_member (d := d) (hfields field List.mem_cons_self) hfield
      (hkeys field List.mem_cons_self)
    exact ⟨read, .cons hmember hread⟩

private theorem takes_reader {c : Config} (hc : c.FitsWords) :
    Takes reader (chars c.toJson) c.asWritten [] := by
  obtain ⟨read, hmembers⟩ := gathers_members (forall₂_restores hc) (fun _ h => h) nodup_keys_fields
    (fun _ _ => List.not_mem_nil) {}
  obtain ⟨text, htext⟩ : ∃ text, chars c.toJson = '\x7b' :: text := ⟨_, rfl⟩
  have htaken := hmembers.takes_membersRest htext []
  rw [List.append_nil, foldl_restoring] at htaken
  rw [htext]
  apply (Takes.peekToken? (by decide) text).bind
  exact (Takes.skip _ text).bind (htaken.bind (Takes.pure _ []))

private theorem parse_text {c : Config} (hc : c.FitsWords) : parse c.text = .ok c.asWritten := by
  apply Takes.run_eq_ok
  rw [text, Json.text, String.toList_ofList]
  exact takes_reader hc

structure Restorable (c : Config) : Prop extends FitsWords c where
  hasWholeTtl : c.HasWholeTtl

private theorem restorable_default : Restorable {} where
  cacheSize := by decide
  cacheComplexityLimit := by decide
  maxDepth := by decide
  chunkSize := by decide
  bufferSize := by decide
  yieldThreshold := by decide
  hasWholeTtl := by
    intro ttl httl
    cases httl
    exact ⟨300000, by decide, by decide⟩

private theorem hasWholeTtl_milliseconds {ms : Option Nat} (h : ∀ n, ms = some n → n < UInt64.size)
    (c : Config) : HasWholeTtl { c with cacheTtl := ms.map (· * millisecond) } := by
  intro ttl httl
  obtain ⟨n, hn, rfl⟩ := Option.map_eq_some_iff.1 httl
  exact ⟨n, h n hn, rfl⟩

private theorem yields_fields : ∀ field ∈ fields, ∀ c : Config, c.Restorable →
    (field.read c).Yields Restorable := by
  unfold fields
  simp only [List.forall_mem_cons]
  -- Only limits and the time to live matter, and they come from natural numbers.
  exact ⟨fun _ hc => .after fun _ => .pure { hc with },
    fun _ hc => yields_natural.map fun _ hn => { hc with cacheSize := hn },
    fun c hc => (yields_optional yields_natural).map fun _ hms =>
      { hc with hasWholeTtl := hasWholeTtl_milliseconds hms c },
    fun _ hc => yields_natural.map fun _ hn => { hc with cacheComplexityLimit := hn },
    fun _ hc => .after fun _ => .pure { hc with },
    fun _ hc => yields_natural.map fun _ hn => { hc with maxDepth := hn },
    fun _ hc => yields_natural.map fun _ hn => { hc with chunkSize := hn },
    fun _ hc => yields_natural.map fun _ hn => { hc with bufferSize := hn },
    fun _ hc => yields_natural.map fun _ hn => { hc with yieldThreshold := hn },
    fun _ hc => .after fun _ => .pure { hc with },
    fun _ hc => .after fun _ => .pure { hc with },
    fun _ hc => .after fun _ => .pure { hc with },
    fun _ hc => .after fun _ => .pure { hc with },
    fun _ hc => .after fun _ => .pure { hc with },
    fun _ hc => .after fun _ => .pure { hc with },
    fun _ hnone => nomatch hnone⟩

private theorem yields_readMember (key : String) {read : List String × Config}
    (h : read.2.Restorable) :
    (readMember key read).Yields fun read => read.2.Restorable := by
  unfold readMember
  cases hfound : fields.find? (·.key = key) with
  | none => exact .after fun _ => .after fun _ => .pure h
  | some field =>
    have hfield := List.mem_of_find?_eq_some hfound
    dsimp only
    split
    · exact .fail _
    · exact .after fun _ => (yields_fields field hfield read.2 h).bind fun _ hc => .pure hc

private theorem yields_readItems {part : List Field} (hpart : ∀ field ∈ part, field ∈ fields)
    (first : Bool) {c : Config} (hc : c.Restorable) :
    (readItems part first c).Yields Restorable := by
  induction part generalizing first c with
  | nil =>
    unfold readItems
    apply Yields.after
    rintro (_ | bracket)
    · exact .fail _
    dsimp only
    split
    · exact .after fun _ => .pure hc
    · exact .fail _
  | cons field part ih =>
    have hread := yields_fields field (hpart field List.mem_cons_self) c hc
    unfold readItems
    apply Yields.after
    rintro (_ | _)
    · exact .pure hc
    · have hrest : ∀ other ∈ part, other ∈ fields := fun other h =>
        hpart other (List.mem_cons_of_mem _ h)
      exact hread.bind fun _ hd => ih hrest false hd

private theorem yields_reader : reader.Yields Restorable := by
  unfold reader
  apply Yields.after
  rintro (_ | c)
  · exact .fail _
  dsimp only
  split
  · exact .after fun _ => yields_readItems (fun _ h => h) true restorable_default
  split
  · have hmembers : (membersRest readMember ([], {})).Yields fun read => read.2.Restorable :=
      yields_membersRest (fun key _ h => yields_readMember key h) restorable_default
    exact .after fun _ => hmembers.bind fun _ h => .pure h
  · exact yields_mismatch _

private theorem Restorable.parse_text {c : Config} (hc : c.Restorable) : parse c.text = .ok c := by
  rw [Config.parse_text hc.toFitsWords, asWritten_eq_self_iff.2 hc.hasWholeTtl]

/-- A configuration comes back from its text with the time to live in whole milliseconds, as far as
64 bits hold them, and all else as it was. Nothing at all is lost just if the time to live is such a
number of milliseconds, and so it is in every configuration that was read from a text. -/
theorem text_restores {c : Config} (hc : c.FitsWords) :
    parse c.text = .ok { c with
        cacheTtl := c.cacheTtl.map fun ttl =>
          min (ttl / millisecond) (UInt64.size - 1) * millisecond } ∧
      (parse c.text = .ok c ↔
        ∀ ttl, c.cacheTtl = some ttl → ∃ n < UInt64.size, ttl = n * millisecond) ∧
      ∀ text d, parse text = .ok d → parse d.text = .ok d := by
  have hparse := parse_text hc
  refine ⟨?_, ?_, ?_⟩
  · rw [hparse, asWritten, Option.map_map]
    rfl
  · rw [hparse]
    constructor
    · intro h
      exact asWritten_eq_self_iff.1 (Except.ok.inj h)
    · intro h
      exact congrArg Except.ok (asWritten_eq_self_iff.2 h)
  · intro text d h
    exact (yields_reader.of_run_eq_ok h).parse_text

/-- Awkward texts, the largest limit and a time to live between two milliseconds. -/
def awkward : Config where
  cacheSize := UInt64.size - 1
  cacheTtl := some (1500 * millisecond + 999999)
  encoding := .base64
  defaultNamespace := some "\"\\\x01\n"
  errorFallback := "\x1f/é\t"

theorem text_restores_awkward :
    awkward.FitsWords ∧
      parse awkward.text = .ok { awkward with cacheTtl := some (1500 * millisecond) } ∧
      parse awkward.text ≠ .ok awkward ∧
      parse "[false,7,1500]" =
        .ok { enableCache := false, cacheSize := 7, cacheTtl := some (1500 * millisecond) } ∧
      parse (text { enableCache := false, cacheSize := 7, cacheTtl := some (1500 * millisecond) }) =
        .ok { enableCache := false, cacheSize := 7, cacheTtl := some (1500 * millisecond) } := by
  have hfits : awkward.FitsWords := by constructor <;> decide
  have hread : parse "[false,7,1500]" =
      .ok { enableCache := false, cacheSize := 7, cacheTtl := some (1500 * millisecond) } := by
    decide +kernel
  have hwritten : min ((1500 * millisecond + 999999) / millisecond) (UInt64.size - 1) = 1500 := by
    decide
  obtain ⟨hparse, hwhole, hagain⟩ := text_restores hfits
  refine ⟨hfits, ?_, fun hkept => ?_, hread, hagain _ _ hread⟩
  · rw [hparse]
    unfold awkward
    rw [Option.map_some, hwritten]
  · obtain ⟨n, -, hn⟩ := hwhole.1 hkept (1500 * millisecond + 999999) rfl
    unfold millisecond at hn
    omega

end Config

end TreeRender
