import Chromatin.Cli.Get
import Chromatin.Cli.Put
import Chromatin.Cli.Sample

/-!
# The framing of a put payload holds while `4 + metadata_len` does not wrap

* `parsePutPayload_eq_some_iff` — what a payload that is accepted looks like
* `framed_iff` — the metadata is inside the payload and the file behind it, unless the sum wraps
* `roundTrip_iff` — a file is read back, unless its metadata is so long that the sum wraps
-/

namespace Cli

open Infra Util Wire

/-- The length field; zero for a payload that is too short for one. -/
def declaredLen (plaintext : Bytes) : Nat := ((readU32Be plaintext 0).getD 0).toNat

variable (parseMetadata : Bytes → Option Bytes) {plaintext : Bytes} {metaLen : UInt32}

theorem parsePutPayload_eq_some_iff {behind name data : Bytes} :
    parsePutPayload parseMetadata behind plaintext = some (name, data) ↔
      ∃ metaLen : UInt32, readU32Be plaintext 0 = some metaLen ∧
        (4 + metaLen).toNat ≤ plaintext.length ∧
        (metadataText plaintext behind metaLen.toNat).length = metaLen.toNat ∧
        parseMetadata (metadataText plaintext behind metaLen.toNat) = some name ∧
        data = plaintext.drop (4 + metaLen).toNat := by
  simp only [parsePutPayload, Option.bind_eq_bind, Option.bind_eq_some_iff, guard_eq_some,
    Option.some_inj, Prod.mk.injEq]
  constructor
  · rintro ⟨metaLen, hread, _, hfits, _, htext, name', hname, rfl, rfl⟩
    exact ⟨metaLen, hread, hfits, htext, hname, rfl⟩
  · rintro ⟨metaLen, hread, hfits, htext, hname, rfl⟩
    exact ⟨metaLen, hread, (), hfits, (), htext, name, hname, rfl, rfl⟩

theorem declaredLen_of_read (h : readU32Be plaintext 0 = some metaLen) :
    declaredLen plaintext = metaLen.toNat := by
  rw [declaredLen, h, Option.getD_some]

theorem four_le_of_read (h : readU32Be plaintext 0 = some metaLen) :
    4 ≤ plaintext.length := by
  by_contra hshort
  rw [readU32Be, readFixed_eq_none (by decide) (by omega)] at h
  exact absurd h (by simp)

/-! ## What is accepted -/

/-- Whatever the payload is accepted as, its metadata is inside of it and its file is what follows.
-/
def Framed (plaintext : Bytes) : Prop :=
  ∀ behind name data, parsePutPayload parseMetadata behind plaintext = some (name, data) →
    4 + declaredLen plaintext ≤ plaintext.length ∧ data = plaintext.drop (4 + declaredLen plaintext)

/-- No text of the declared length that starts behind the length field is metadata. -/
def NoMetadata (plaintext : Bytes) : Prop :=
  ∀ behind, (metadataText plaintext behind (declaredLen plaintext)).length = declaredLen plaintext →
    parseMetadata (metadataText plaintext behind (declaredLen plaintext)) = none

/-- The sum has wrapped to less than four, and the length field itself is taken for the file. -/
theorem parsePutPayload_of_wrap {behind name : Bytes}
    (hread : readU32Be plaintext 0 = some metaLen) (hwrap : 2 ^ 32 ≤ 4 + metaLen.toNat)
    (htext : (metadataText plaintext behind metaLen.toNat).length = metaLen.toNat)
    (hname : parseMetadata (metadataText plaintext behind metaLen.toNat) = some name) :
    parsePutPayload parseMetadata behind plaintext =
      some (name, plaintext.drop (4 + metaLen.toNat - 2 ^ 32)) := by
  have hsum : (4 + metaLen).toNat = 4 + metaLen.toNat - 2 ^ 32 := by
    have hlt := metaLen.toNat_lt
    rw [UInt32.toNat_add]
    show (4 + metaLen.toNat) % 2 ^ 32 = _
    omega
  have hfour := four_le_of_read hread
  have hlt := metaLen.toNat_lt
  refine (parsePutPayload_eq_some_iff parseMetadata).mpr ⟨metaLen,
    hread, by omega, htext, hname, ?_⟩
  rw [hsum]

theorem framed_iff (plaintext : Bytes) :
    Framed parseMetadata plaintext ↔
      4 + declaredLen plaintext < 2 ^ 32 ∨ NoMetadata parseMetadata plaintext := by
  constructor
  · intro hframed
    by_contra hnot
    obtain ⟨hwrap, hmetadata⟩ := not_or.mp hnot
    obtain ⟨behind, htext, hsome⟩ : ∃ behind,
        (metadataText plaintext behind (declaredLen plaintext)).length = declaredLen plaintext ∧
        parseMetadata (metadataText plaintext behind (declaredLen plaintext)) ≠ none := by
      simpa [NoMetadata] using hmetadata
    obtain ⟨name, hname⟩ := Option.ne_none_iff_exists'.mp hsome
    obtain ⟨metaLen, hread⟩ : ∃ metaLen, readU32Be plaintext 0 = some metaLen := by
      -- without a length field the declared length is zero, and nothing wraps
      apply Option.ne_none_iff_exists'.mp
      intro hnone
      rw [declaredLen, hnone] at hwrap
      exact hwrap (by decide)
    have hfour := four_le_of_read hread
    rw [declaredLen_of_read hread] at htext hname hwrap
    have hparse := parsePutPayload_of_wrap parseMetadata hread (by omega) htext hname
    have hdata := congrArg List.length (hframed behind name _ hparse).2
    have hlt := metaLen.toNat_lt
    rw [declaredLen_of_read hread, List.length_drop, List.length_drop] at hdata
    omega
  · intro hcases behind name data hparse
    obtain ⟨metaLen, hread, hfits, htext, hname, rfl⟩ :=
      (parsePutPayload_eq_some_iff parseMetadata).mp hparse
    rcases hcases with hsmall | hnone
    · rw [declaredLen_of_read hread] at hsmall ⊢
      have hsum : (4 + metaLen).toNat = 4 + metaLen.toNat := by
        rw [UInt32.toNat_add]
        exact Nat.mod_eq_of_lt hsmall
      exact ⟨by omega, by rw [hsum]⟩
    · have hnone := hnone behind
      rw [declaredLen_of_read hread, hname] at hnone
      exact absurd (hnone htext) (by simp)

/-! ## What is built -/

theorem roundTrip_iff {T : Toolkit}
    (hjson : ∀ name size, parseMetadata (T.dumpMetadata name size) = some name)
    (behind name data : Bytes) :
    parsePutPayload parseMetadata behind (buildPutPayload T name data) = some (name, data) ↔
      4 + (T.dumpMetadata name data.length).length < 2 ^ 32 := by
  set metaStr := T.dumpMetadata name data.length with hmeta
  have hread : readU32Be (buildPutPayload T name data) 0 = some (UInt32.ofNat metaStr.length) :=
    readU32Be_append [] _ _
  have hlength : (buildPutPayload T name data).length = 4 + metaStr.length + data.length :=
    length_buildPutPayload T name data
  have hdrop : (buildPutPayload T name data).drop 4 = metaStr ++ data :=
    List.drop_left' (length_writeU32Be _)
  rw [parsePutPayload_eq_some_iff]
  constructor
  · rintro ⟨metaLen, -, -, -, -, hdata⟩
    -- the file is only so much shorter than the payload if the offset is the whole sum
    have hoffset := (4 + metaLen).toNat_lt
    have hsize := congrArg List.length hdata
    rw [List.length_drop, hlength] at hsize
    omega
  · intro hsmall
    have hlen : (UInt32.ofNat metaStr.length).toNat = metaStr.length :=
      UInt32.toNat_ofNat_of_lt' (by simp only [UInt32.size]; omega)
    have hsum : (4 + UInt32.ofNat metaStr.length).toNat = 4 + metaStr.length := by
      rw [UInt32.toNat_add, hlen]
      exact Nat.mod_eq_of_lt hsmall
    have htext : metadataText (buildPutPayload T name data) behind metaStr.length = metaStr := by
      rw [metadataText, List.drop_append_of_le_length (by omega), hdrop, List.append_assoc,
        List.take_left]
    refine ⟨_, hread, by omega, ?_, ?_, ?_⟩
    · rw [hlen, htext]
    · rw [hlen, htext, hmeta, hjson]
    · rw [hsum, ← List.drop_drop, hdrop, List.drop_left]

/-- **A decrypted payload is framed, and a file is read back, exactly if the sum of four and the
length of the metadata does not wrap**; a payload for which it wraps is also framed if there is
nothing it can be accepted as. -/
theorem put_payload_iff (T : Toolkit)
    (hjson : ∀ name size, parseMetadata (T.dumpMetadata name size) = some name) :
    (∀ plaintext, Framed parseMetadata plaintext ↔
      4 + declaredLen plaintext < 2 ^ 32 ∨ NoMetadata parseMetadata plaintext) ∧
    (∀ behind name data,
      parsePutPayload parseMetadata behind (buildPutPayload T name data) = some (name, data) ↔
        4 + (T.dumpMetadata name data.length).length < 2 ^ 32) :=
  ⟨framed_iff parseMetadata, roundTrip_iff parseMetadata hjson⟩

/-! ## Samples -/

/-- A string of JSON up to its closing quote. -/
def readString (escaped : Bool) : Bytes → Option Bytes
  | [] => none
  | c :: rest =>
    if escaped = false ∧ c = 0x22 then some []
    else if escaped = false ∧ c = 0x5C then readString true rest
    else (readString false rest).map (c :: ·)

theorem readString_escape (name rest : Bytes) :
    readString false (name.flatMap Sample.escape ++ 0x22 :: rest) = some name := by
  induction name with
  | nil => simp [readString]
  | cons c name ih =>
    by_cases hc : c = 0x22 ∨ c = 0x5C
    · simp [Sample.escape, hc, readString, ih]
    · obtain ⟨hquote, hslash⟩ := not_or.mp hc
      simp [Sample.escape, hquote, hslash, readString, ih]

/-- The name behind `{"name":"`. -/
def sampleMetadata (text : Bytes) : Option Bytes := readString false (text.drop 9)

/-- The file `f` with the text `ab`. -/
theorem put_payload_iff_sample :
    Framed sampleMetadata (buildPutPayload Sample.toolkit [102] [97, 98]) ∧
    parsePutPayload sampleMetadata [] (buildPutPayload Sample.toolkit [102] [97, 98]) =
        some ([102], [97, 98]) := by
  obtain ⟨hframed, hread⟩ := put_payload_iff sampleMetadata Sample.toolkit
    fun name size => readString_escape name _
  exact ⟨(hframed _).mpr (.inl (by decide)), (hread [] [102] [97, 98]).mpr (by decide)⟩

/-- An object without entries, and spaces behind it. -/
def emptyObject (text : Bytes) : Option Bytes :=
  if text.take 2 = [0x7B, 0x7D] ∧ text.drop 2 = List.replicate (text.length - 2) 0x20
    then some [] else none

/-- The length field is `0xFFFFFFFC`, and behind the six bytes of the payload the memory holds
spaces: the payload is accepted, and its file is all of it. -/
theorem wrapped_length_accepted :
    parsePutPayload emptyObject (List.replicate (2 ^ 32 - 6) 0x20) [0xFF, 0xFF, 0xFF,
      0xFC, 0x7B, 0x7D] =
      some ([], [0xFF, 0xFF, 0xFF, 0xFC, 0x7B, 0x7D]) ∧
    ¬ 4 + declaredLen [0xFF, 0xFF, 0xFF, 0xFC, 0x7B, 0x7D] ≤ 6 := by
  have hread : readU32Be [0xFF, 0xFF, 0xFF, 0xFC, 0x7B, 0x7D] 0 = some 0xFFFFFFFC := by decide
  refine ⟨?_, by decide⟩
  -- the number of spaces is kept abstract, so that the list is never built
  obtain ⟨n, hn⟩ : ∃ n, n = 2 ^ 32 - 6 := ⟨_, rfl⟩
  have hlen : (0xFFFFFFFC : UInt32).toNat = n + 2 := by
    rw [hn]
    decide
  have htext : metadataText [0xFF, 0xFF, 0xFF, 0xFC, 0x7B, 0x7D] (List.replicate n 0x20)
      (0xFFFFFFFC : UInt32).toNat = 0x7B :: 0x7D :: List.replicate n 0x20 := by
    rw [hlen]
    simp [metadataText]
  have hoffset : 4 + (0xFFFFFFFC : UInt32).toNat - 2 ^ 32 = 0 := by decide
  have hname :
    emptyObject (metadataText [0xFF, 0xFF, 0xFF, 0xFC, 0x7B, 0x7D] (List.replicate n 0x20)
      (0xFFFFFFFC : UInt32).toNat) = some [] := by
    rw [htext]
    simp [emptyObject]
  have hparse :=
    parsePutPayload_of_wrap emptyObject hread (by decide) (by rw [htext, hlen]; simp) hname
  rw [← hn, hparse, hoffset, List.drop_zero]

end Cli
