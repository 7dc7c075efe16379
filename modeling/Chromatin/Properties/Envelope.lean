import Chromatin.Cli.Sample

/-!
# Envelopes that are opened again

An envelope is its opening, the header with the stanzas, and a region of segments. Both are
described by the calls of the AEAD that `encrypt` makes: one for each stanza and one for each
segment. What `decrypt` makes of an opening and any region is `decrypt_opening`; which regions then
give a plaintext is said once for an AEAD that is correct and once for an ideal one, that opens
nothing else than what was encrypted.
-/

namespace Cli.Envelope

open Infra Util

/-! ## The calls of the AEAD -/

/-- A call of the AEAD encryption. -/
structure Call where
  plaintext : Bytes
  ad : Bytes
  nonce : Bytes
  key : FixedBytes 32

def Call.sealed (T : Toolkit) (call : Call) : Bytes :=
  T.aeadEncrypt call.plaintext call.ad call.nonce call.key

def Call.Opens (T : Toolkit) (O : Opener) (call : Call) : Prop :=
  O.aeadDecrypt (call.sealed T) call.ad call.nonce call.key = some call.plaintext

/-- The part of a stanza before the wrapped key. -/
def StanzaBuilder.opening (s : StanzaBuilder) : Bytes := s.pkHash.toList ++ s.kemCt.toList

theorem StanzaBuilder.length_opening (s : StanzaBuilder) : s.opening.length = PK_HASH_PLUS_CT := by
  simp [StanzaBuilder.opening, PK_HASH_PLUS_CT]

theorem StanzaBuilder.take_opening (s : StanzaBuilder) (wrapped : Bytes) :
    (s.opening ++ wrapped).take PK_HASH_SIZE = s.pkHash.toList := by
  rw [StanzaBuilder.opening, List.append_assoc]
  exact List.take_left' s.pkHash.toList_length

theorem StanzaBuilder.sliceAt_opening (s : StanzaBuilder) (wrapped : Bytes) :
    sliceAt (s.opening ++ wrapped) PK_HASH_SIZE KEM_CT_SIZE = s.kemCt.toList := by
  rw [sliceAt, StanzaBuilder.opening, List.append_assoc]
  have hdrop : (s.pkHash.toList ++ (s.kemCt.toList ++ wrapped)).drop PK_HASH_SIZE =
    s.kemCt.toList ++ wrapped :=
    List.drop_left' s.pkHash.toList_length
  rw [hdrop]
  exact List.take_left' s.kemCt.toList_length

def wrapCall (T : Toolkit) (dek : FixedBytes 32) (ad : Bytes) (s : StanzaBuilder) : Call where
  plaintext := dek.toList
  ad := ad
  nonce := List.replicate 12 0
  key := T.hkdfDeriveKek s.sharedSecret

def segmentCall (coins : Coins) (ad plaintext : Bytes) (seg : Nat) : Call where
  plaintext := sliceAt plaintext (seg * SEGMENT_SIZE) SEGMENT_SIZE
  ad := ad
  nonce := segmentNonce coins.dataNonce seg
  key := coins.dek

section

variable (T : Toolkit) (coins : Coins) (recipients : List Bytes)

/-- The associated data of the key that is wrapped for the stanza at an index. -/
def wrapAd (i : Nat) : Bytes :=
  header coins recipients.length ++
    ((stanzaBuilders T coins recipients).take i).flatMap StanzaBuilder.opening

def wrapCalls : List Call :=
  (stanzaBuilders T coins recipients).mapIdx fun i s =>
    wrapCall T coins.dek (wrapAd T coins recipients i) s

def stanzas : List Bytes :=
  (stanzaBuilders T coins recipients).mapIdx fun i s =>
    s.opening ++ (wrapCall T coins.dek (wrapAd T coins recipients i) s).sealed T

/-- Header and stanzas. -/
def opening : Bytes := header coins recipients.length ++ (stanzas T coins recipients).flatten

def segmentCalls (plaintext : Bytes) : List Call :=
  (List.range (segmentCount plaintext.length)).map
    (segmentCall coins (opening T coins recipients) plaintext)

/-- All that one `encrypt` hands to the AEAD. -/
def encryptCalls (plaintext : Bytes) : List Call :=
  wrapCalls T coins recipients ++ segmentCalls T coins recipients plaintext

/-- The sealed segments from the index `seg` on, `n` of them. -/
def segmentRegion (plaintext : Bytes) (seg n : Nat) : Bytes :=
  (List.range' seg n).flatMap fun j =>
    (segmentCall coins (opening T coins recipients) plaintext j).sealed T

end

variable {T : Toolkit} {coins : Coins} {recipients : List Bytes} {plaintext : Bytes} {i : Nat}
  {pubkey seckey region : Bytes} {opened : Bytes}

@[simp] theorem length_stanzaBuilders :
    (stanzaBuilders T coins recipients).length = recipients.length := by
  simp [stanzaBuilders]

theorem wrapStanzas_eq (dek : FixedBytes 32) : ∀ (builders : List StanzaBuilder) (ad : Bytes),
    wrapStanzas T dek ad builders = builders.mapIdx fun i s =>
      s.opening ++
        (wrapCall T dek (ad ++ (builders.take i).flatMap StanzaBuilder.opening) s).sealed T
  | [], _ => rfl
  | s :: rest, ad => by
    show (s.opening ++ (wrapCall T dek ad s).sealed T) :: wrapStanzas T dek
      (ad ++ s.opening) rest = _
    rw [wrapStanzas_eq dek rest, List.mapIdx_cons]
    simp only [List.take_zero, List.flatMap_nil, List.append_nil, List.take_succ_cons,
      List.flatMap_cons, List.append_assoc]

theorem encryptSegments_eq (coins : Coins) (ad plaintext : Bytes) : ∀ n seg : Nat,
    encryptSegments T coins ad seg n (plaintext.drop (seg * SEGMENT_SIZE)) =
      (List.range' seg n).flatMap fun j => (segmentCall coins ad plaintext j).sealed T
  | 0, _ => rfl
  | n + 1, seg => by
    have hnext : (plaintext.drop (seg * SEGMENT_SIZE)).drop SEGMENT_SIZE =
        plaintext.drop ((seg + 1) * SEGMENT_SIZE) := by
      rw [List.drop_drop, Nat.succ_mul]
    rw [encryptSegments, hnext, encryptSegments_eq coins ad plaintext n (seg + 1), List.range'_succ,
      List.flatMap_cons]
    rfl

theorem encrypt_eq (hsome : recipients ≠ []) (hmany : recipients.length ≤ 65535)
    (hkeys : ∀ pk ∈ recipients, pk.length = KEM_PK_SIZE) :
    encrypt T coins plaintext recipients = some (opening T coins recipients ++
      segmentRegion T coins recipients plaintext 0 (segmentCount plaintext.length)) := by
  have hany : ¬recipients.any (fun pk => pk.length != KEM_PK_SIZE) = true := by
    simpa using hkeys
  have hopening : header coins (stanzaBuilders T coins recipients).length ++
      (wrapStanzas T coins.dek (header coins (stanzaBuilders T coins recipients).length)
        (stanzaBuilders T coins recipients)).flatten = opening T coins recipients := by
    rw [wrapStanzas_eq, length_stanzaBuilders]
    rfl
  have hregion := encryptSegments_eq (T := T) coins (opening T coins recipients) plaintext
    (segmentCount plaintext.length) 0
  rw [Nat.zero_mul, List.drop_zero] at hregion
  rw [encrypt, if_neg hsome, if_neg (Nat.not_lt.mpr hmany), if_neg hany]
  dsimp only
  rw [hopening, hregion]
  rfl

/-- What `encrypt` asks of its recipients. -/
theorem recipients_of_encrypt {envelope : Bytes}
    (h : encrypt T coins plaintext recipients = some envelope) :
    recipients ≠ [] ∧ recipients.length ≤ 65535 ∧ ∀ pk ∈ recipients, pk.length = KEM_PK_SIZE := by
  unfold encrypt at h
  split_ifs at h with hnone hmany hkeys
  exact ⟨hnone, Nat.le_of_not_lt hmany, by simpa using hkeys⟩

/-! ## Nonces -/

theorem zipWith_xor_inj : ∀ {l a b : Bytes}, a.length = l.length → b.length = l.length →
    List.zipWith (· ^^^ ·) l a = List.zipWith (· ^^^ ·) l b → a = b
  | [], a, b, ha, hb, _ => by
    rw [List.length_eq_zero_iff.mp ha, List.length_eq_zero_iff.mp hb]
  | x :: l, y :: a, z :: b, ha, hb, h => by
    simp only [List.zipWith_cons_cons, List.cons.injEq, UInt8.xor_right_inj] at h
    rw [h.1, zipWith_xor_inj (Nat.succ.inj ha) (Nat.succ.inj hb) h.2]

/-- The nonces of the segments differ as long as the index fits into its `uint32_t`. -/
theorem segmentNonce_inj {baseNonce : FixedBytes 12} {j : Nat} (hi : i < 2 ^ 32) (hj : j < 2 ^ 32)
    (h : segmentNonce baseNonce i = segmentNonce baseNonce j) : i = j := by
  have hlow : (baseNonce.toList.drop 8).length = 4 := by simp
  have hindex : writeU32Be (UInt32.ofNat i) = writeU32Be (UInt32.ofNat j) :=
    zipWith_xor_inj (by rw [length_writeU32Be, hlow]) (by rw [length_writeU32Be, hlow])
      (List.append_cancel_left h)
  have hread := readU32Be_writeU32Be (UInt32.ofNat i)
  rw [hindex, readU32Be_writeU32Be] at hread
  have htoNat := congrArg UInt32.toNat (Option.some.inj hread)
  rw [UInt32.toNat_ofNat_of_lt' hi, UInt32.toNat_ofNat_of_lt' hj] at htoNat
  exact htoNat.symm

theorem segmentCount_lt (size : Nat) : segmentCount size < 2 ^ 32 := by
  unfold segmentCount
  dsimp only
  split_ifs <;> omega

theorem segmentCount_pos (size : Nat) : 0 < segmentCount size := by
  unfold segmentCount
  dsimp only
  split_ifs <;> omega

theorem nodup_nonces : ((segmentCalls T coins recipients plaintext).map Call.nonce).Nodup := by
  rw [segmentCalls, List.map_map]
  refine List.Nodup.map_on (fun i hi j hj h => ?_) List.nodup_range
  have hcount := segmentCount_lt plaintext.length
  rw [List.mem_range] at hi hj
  exact segmentNonce_inj (by omega) (by omega) h

/-! ## Reading the opening -/

theorem mem_stanzaBuilders {s : StanzaBuilder} :
    s ∈ stanzaBuilders T coins recipients ↔
      ∃ i, ∃ h : i < recipients.length, stanzaBuilder T coins i recipients[i] = s := by
  rw [stanzaBuilders, (List.mergeSort_perm _ _).mem_iff, List.mem_mapIdx]

/-- A recipient's key pair: what is encapsulated to the public key comes out again. -/
structure KeyPair (T : Toolkit) (O : Opener) (seckey pubkey : Bytes) : Prop where
  size : seckey.length = KEM_SK_SIZE
  decaps : ∀ coins, O.decaps seckey (T.encaps pubkey coins).1.toList =
    some (T.encaps pubkey coins).2

section Opening

variable (htag : TagSized T)

include htag

theorem length_stanza {stanza : Bytes} (h : stanza ∈ stanzas T coins recipients) :
    stanza.length = STANZA_SIZE := by
  obtain ⟨i, hi, rfl⟩ := List.mem_mapIdx.mp h
  rw [List.length_append, StanzaBuilder.length_opening, Call.sealed, htag]
  simp [wrapCall, PK_HASH_PLUS_CT, AEAD_TAG_SIZE, STANZA_SIZE]

theorem length_opening (coins : Coins) (recipients : List Bytes) :
    (opening T coins recipients).length = HEADER_SIZE + recipients.length * STANZA_SIZE := by
  have hall : ∀ stanza ∈ stanzas T coins recipients, stanza.length = STANZA_SIZE :=
    fun stanza h => length_stanza htag h
  have hflat : (stanzas T coins recipients).flatten.length = recipients.length * STANZA_SIZE := by
    rw [List.length_flatten, List.map_congr_left hall]
    simp [stanzas]
  rw [opening, List.length_append, length_header, hflat]

theorem stanzaAt_opening {s : StanzaBuilder} (region : Bytes)
    (hi : (stanzaBuilders T coins recipients)[i]? = some s) :
    stanzaAt (opening T coins recipients ++ region) i =
      s.opening ++ (wrapCall T coins.dek (wrapAd T coins recipients i) s).sealed T := by
  have hlt : i < recipients.length := by
    obtain ⟨hbuilder, -⟩ := List.getElem?_eq_some_iff.mp hi
    rwa [length_stanzaBuilders] at hbuilder
  have hfits : HEADER_SIZE + i * STANZA_SIZE + STANZA_SIZE ≤
      (opening T coins recipients).length := by
    rw [length_opening htag, Nat.add_assoc, ← Nat.succ_mul]
    exact Nat.add_le_add_left (Nat.mul_le_mul_right _ hlt) _
  rw [stanzaAt, sliceAt_append_left hfits, opening]
  nth_rewrite 1 [← length_header coins recipients.length]
  rw [sliceAt_append_right]
  refine sliceAt_flatten (fun stanza h => length_stanza htag h) ?_
  rw [stanzas, List.getElem?_mapIdx, hi]
  rfl

/-- The wrapped keys are bound to what stands before them. -/
theorem wrapAd_eq (region : Bytes) (hi : i ≤ recipients.length) :
    (opening T coins recipients ++ region).take HEADER_SIZE ++
      (List.range i).flatMap (fun j =>
        (stanzaAt (opening T coins recipients ++ region) j).take PK_HASH_PLUS_CT) =
      wrapAd T coins recipients i := by
  have hheader : (opening T coins recipients ++ region).take HEADER_SIZE =
      header coins recipients.length := by
    rw [opening, List.append_assoc]
    exact List.take_left' (length_header _ _)
  rw [hheader, wrapAd]
  congr 1
  induction i with
  | zero => rfl
  | succ i ih =>
    have hlt : i < (stanzaBuilders T coins recipients).length := by
      rw [length_stanzaBuilders]
      exact hi
    have hget := List.getElem?_eq_getElem hlt
    rw [List.range_succ, List.flatMap_append, ih (Nat.le_of_succ_le hi), List.take_add_one, hget,
      List.flatMap_append, List.flatMap_singleton, stanzaAt_opening htag region hget,
      List.take_left' (StanzaBuilder.length_opening _)]
    simp

/-- The stanzas are those of the recipients. -/
theorem pkHash_stanzaAt (region : Bytes) (hi : i < recipients.length) :
    ∃ pk ∈ recipients, ∃ j, (stanzaBuilders T coins recipients)[i]? =
      some (stanzaBuilder T coins j pk) ∧
      (stanzaAt (opening T coins recipients ++ region) i).take PK_HASH_SIZE =
          (T.sha3_256 pk).toList := by
  have hlt : i < (stanzaBuilders T coins recipients).length := by
    rw [length_stanzaBuilders]
    exact hi
  have hget := List.getElem?_eq_getElem hlt
  obtain ⟨j, hj, hbuilder⟩ := mem_stanzaBuilders.mp (List.getElem_mem hlt)
  rw [← hbuilder] at hget
  refine ⟨recipients[j], List.getElem_mem hj, j, hget, ?_⟩
  rw [stanzaAt_opening htag region hget, StanzaBuilder.take_opening]
  rfl

/-- The stanza a recipient finds is one of its own. -/
theorem find_stanza (coins : Coins) (region : Bytes)
    (hinj : Set.InjOn T.sha3_256 {pk | pk ∈ recipients})
    (hpk : pubkey ∈ recipients) :
    ∃ i j, (stanzaBuilders T coins recipients)[i]? = some (stanzaBuilder T coins j pubkey) ∧
      ((List.range recipients.length).find? fun i =>
        (stanzaAt (opening T coins recipients ++ region) i).take PK_HASH_SIZE ==
          (T.sha3_256 pubkey).toList) = some i := by
  -- there is such a stanza, so the search ends at one
  have hsome : ((List.range recipients.length).find? fun i =>
      (stanzaAt (opening T coins recipients ++ region) i).take PK_HASH_SIZE ==
        (T.sha3_256 pubkey).toList).isSome = true := by
    obtain ⟨k, hk, rfl⟩ := List.getElem_of_mem hpk
    obtain ⟨i, hi, hbuilder⟩ := List.getElem_of_mem (mem_stanzaBuilders.mpr ⟨k, hk, rfl⟩ :
      stanzaBuilder T coins k recipients[k] ∈ stanzaBuilders T coins recipients)
    refine List.find?_isSome.mpr ⟨i, List.mem_range.mpr (by rwa [length_stanzaBuilders] at hi), ?_⟩
    rw [stanzaAt_opening htag region (List.getElem?_eq_some_iff.mpr ⟨hi, hbuilder⟩),
      StanzaBuilder.take_opening]
    exact beq_self_eq_true _
  obtain ⟨i, hfind⟩ := Option.isSome_iff_exists.mp hsome
  obtain ⟨pk, hmem, j, hget, hhash⟩ :=
    pkHash_stanzaAt htag region (List.mem_range.mp (List.mem_of_find?_eq_some hfind))
  -- the stanza found has the hash of our key, so it was made for our key
  have hfound := List.find?_some hfind
  rw [beq_iff_eq] at hfound
  have hsame : pk = pubkey := hinj hmem hpk (List.Vector.toList_injective (hhash.symm.trans hfound))
  rw [hsame] at hget
  exact ⟨i, j, hget, hfind⟩

variable {O : Opener} (hmany : recipients.length ≤ 65535)

include hmany

omit htag in
theorem recipientCount_opening :
    ofBigEndian (sliceAt (opening T coins recipients ++ region) 6 2) = recipients.length := by
  rw [opening, List.append_assoc]
  exact recipientCount_header coins hmany _

/-- A recipient gets the data key, and the segments decide. -/
theorem decrypt_opening (hkeys : ∀ pk ∈ recipients, pk.length = KEM_PK_SIZE)
    (hinj : Set.InjOn T.sha3_256 {pk | pk ∈ recipients})
    (hwrap : ∀ call ∈ wrapCalls T coins recipients, call.Opens T O)
    (hpk : pubkey ∈ recipients) (hpair : KeyPair T O seckey pubkey)
    (hregion : AEAD_TAG_SIZE ≤ region.length) :
    decrypt T O (opening T coins recipients ++ region) seckey pubkey =
      decryptSegments O coins.dataNonce (opening T coins recipients) coins.dek 0 region := by
  have hlength := length_opening htag coins recipients
  have hheader : opening T coins recipients ++ region =
      header coins recipients.length ++ ((stanzas T coins recipients).flatten ++ region) :=
    List.append_assoc _ _ _
  have hnonce : readFixed 12 (opening T coins recipients ++ region) 8 = some coins.dataNonce := by
    rw [hheader]
    exact dataNonce_header coins _ _
  have hmagic : (opening T coins recipients ++ region).take 4 = MAGIC ∧
      (opening T coins recipients ++ region)[4]? = some VERSION ∧
      (opening T coins recipients ++ region)[5]? = some SUITE := by
    rw [hheader]
    exact ⟨rfl, rfl, rfl⟩
  obtain ⟨i, j, hi, hfind⟩ := find_stanza htag coins region hinj hpk
  have hlt : i < recipients.length :=
    List.mem_range.mp (List.mem_of_find?_eq_some hfind)
  have hstanza := stanzaAt_opening htag region hi
  have hct : sliceAt (stanzaAt (opening T coins recipients ++ region) i) PK_HASH_SIZE KEM_CT_SIZE =
      (T.encaps pubkey (coins.encaps j)).1.toList := by
    rw [hstanza, StanzaBuilder.sliceAt_opening]
    rfl
  have hunwrap :
    O.aeadDecrypt ((stanzaAt (opening T coins recipients ++ region) i).drop PK_HASH_PLUS_CT)
      (wrapAd T coins recipients i) (List.replicate 12 0)
      (T.hkdfDeriveKek (T.encaps pubkey (coins.encaps j)).2) = some coins.dek.toList := by
    rw [hstanza, List.drop_left' (StanzaBuilder.length_opening _)]
    refine hwrap (wrapCall T coins.dek (wrapAd T coins recipients i)
      (stanzaBuilder T coins j pubkey)) ?_
    obtain ⟨hbuilder, hget⟩ := List.getElem?_eq_some_iff.mp hi
    exact List.mem_mapIdx.mpr ⟨i, hbuilder, by rw [hget]⟩
  have hsize : HEADER_SIZE + recipients.length * STANZA_SIZE + AEAD_TAG_SIZE ≤
      (opening T coins recipients ++ region).length := by
    rw [List.length_append, hlength]
    omega
  rw [decrypt]
  rw [guard_bind (by omega), guard_bind hmagic.1, guard_bind hmagic.2,
    guard_bind ⟨hpair.size, hkeys pubkey hpk⟩]
  simp only [recipientCount_opening hmany]
  rw [guard_bind (by omega), guard_bind hsize, hnonce]
  simp only [Option.bind_eq_bind, Option.bind_some, hfind, hct, hpair.decaps,
    wrapAd_eq htag region (Nat.le_of_lt hlt), hunwrap, readFixed_toList]
  rw [← hlength, List.take_left, List.drop_left]

/-- Without a tag there is nothing to decrypt. -/
theorem tag_le_of_decrypt
    (h : decrypt T O (opening T coins recipients ++ region) seckey pubkey = some opened) :
    AEAD_TAG_SIZE ≤ region.length := by
  simp only [decrypt, recipientCount_opening hmany, Option.bind_eq_bind, Option.bind_eq_some_iff,
    guard_eq_some] at h
  obtain ⟨-, -, -, -, -, -, -, -, -, -, -, hsize, -⟩ := h
  rw [List.length_append, length_opening htag] at hsize
  omega

/-- Who has no stanza gets nothing. -/
theorem decrypt_stranger
    (hstranger : ∀ pk ∈ recipients, T.sha3_256 pk ≠ T.sha3_256 pubkey) :
    decrypt T O (opening T coins recipients ++ region) seckey pubkey = none := by
  by_contra hsome
  obtain ⟨opened, h⟩ := Option.ne_none_iff_exists'.mp hsome
  simp only [decrypt, recipientCount_opening hmany, Option.bind_eq_bind, Option.bind_eq_some_iff,
    guard_eq_some] at h
  obtain ⟨-, -, -, -, -, -, -, -, -, -, -, -, -, -, i, hfind, -⟩ := h
  obtain ⟨pk, hmem, -, -, hhash⟩ :=
    pkHash_stanzaAt htag region (List.mem_range.mp (List.mem_of_find?_eq_some hfind))
  have hfound := List.find?_some hfind
  rw [beq_iff_eq] at hfound
  exact hstranger pk hmem (List.Vector.toList_injective (hhash.symm.trans hfound))

end Opening

/-! ## The segments -/

section Segments

variable {O : Opener} {baseNonce : FixedBytes 12} {dek : FixedBytes 32} {ad : Bytes} {seg : Nat}

theorem decryptSegments_nil : decryptSegments O baseNonce ad dek seg [] = some [] := by
  rw [decryptSegments, if_pos List.length_nil]

/-- The first segment is cut off by its length. -/
theorem decryptSegments_append {segCt rest : Bytes} (hlow : AEAD_TAG_SIZE ≤ segCt.length)
    (hhigh : segCt.length ≤ SEGMENT_SIZE + AEAD_TAG_SIZE)
    (hfull : rest ≠ [] → segCt.length = SEGMENT_SIZE + AEAD_TAG_SIZE) :
    decryptSegments O baseNonce ad dek seg (segCt ++ rest) =
      (O.aeadDecrypt segCt ad (segmentNonce baseNonce seg) dek).bind fun plaintext =>
        (decryptSegments O baseNonce ad dek (seg + 1) rest).bind fun more =>
            some (plaintext ++ more) := by
  have htake : (segCt ++ rest).take (SEGMENT_SIZE + AEAD_TAG_SIZE) = segCt ∧
      (segCt ++ rest).drop (SEGMENT_SIZE + AEAD_TAG_SIZE) = rest := by
    by_cases hrest : rest = []
    · rw [hrest, List.append_nil]
      exact ⟨List.take_of_length_le hhigh, List.drop_of_length_le hhigh⟩
    · exact ⟨List.take_left' (hfull hrest), List.drop_left' (hfull hrest)⟩
  have hsome : ¬(segCt ++ rest).length = 0 := by
    rw [List.length_append]
    unfold AEAD_TAG_SIZE at hlow
    omega
  rw [decryptSegments, if_neg hsome]
  dsimp only
  rw [htake.1, htake.2, if_neg (Nat.not_lt.mpr hlow)]
  rfl

variable (htag : TagSized T)

include htag

theorem length_segment (coins : Coins) (ad plaintext : Bytes) (j : Nat) :
    ((segmentCall coins ad plaintext j).sealed T).length =
      min SEGMENT_SIZE (plaintext.length - j * SEGMENT_SIZE) + AEAD_TAG_SIZE := by
  rw [Call.sealed, htag]
  exact congrArg (· + AEAD_TAG_SIZE) (length_sliceAt _ _ _)

end Segments

theorem segmentRegion_succ (seg n : Nat) :
    segmentRegion T coins recipients plaintext seg (n + 1) =
      (segmentCall coins (opening T coins recipients) plaintext seg).sealed T ++
        segmentRegion T coins recipients plaintext (seg + 1) n := by
  rw [segmentRegion, List.range'_succ, List.flatMap_cons]
  rfl

section Regions

variable {O : Opener} (htag : TagSized T)

include htag

/-- Sealed segments open to their part of the plaintext. -/
theorem decryptSegments_segmentRegion
    (hopens : ∀ call ∈ segmentCalls T coins recipients plaintext, call.Opens T O) (n : Nat) :
    ∀ seg, seg + n ≤ segmentCount plaintext.length →
      decryptSegments O coins.dataNonce (opening T coins recipients) coins.dek seg
        (segmentRegion T coins recipients plaintext seg n) =
          some (sliceAt plaintext (seg * SEGMENT_SIZE) (n * SEGMENT_SIZE)) := by
  induction n with
  | zero =>
    intro seg _
    rw [Nat.zero_mul]
    exact decryptSegments_nil
  | succ n ih =>
    intro seg hseg
    have hlength := length_segment htag coins (opening T coins recipients) plaintext seg
    have hopen :
      O.aeadDecrypt ((segmentCall coins (opening T coins recipients) plaintext seg).sealed T)
        (opening T coins recipients) (segmentNonce coins.dataNonce seg) coins.dek =
          some (sliceAt plaintext (seg * SEGMENT_SIZE) SEGMENT_SIZE) :=
      hopens _ (List.mem_map.mpr ⟨seg, List.mem_range.mpr (by omega), rfl⟩)
    -- only the last segment of the plaintext can be shorter
    have hfull : segmentRegion T coins recipients plaintext (seg + 1) n ≠ [] →
        ((segmentCall coins (opening T coins recipients) plaintext seg).sealed T).length =
          SEGMENT_SIZE + AEAD_TAG_SIZE := by
      intro hne
      have hpos : n ≠ 0 := by
        rintro rfl
        exact hne rfl
      have hpred := segmentCount_pred_le plaintext.length
      have hle : (seg + 1) * SEGMENT_SIZE ≤ (segmentCount plaintext.length - 1) * SEGMENT_SIZE :=
        Nat.mul_le_mul_right _ (by omega)
      rw [Nat.succ_mul] at hle
      rw [hlength, Nat.min_eq_left (by omega)]
    rw [segmentRegion_succ, decryptSegments_append (by omega) (by omega) hfull, hopen,
      Option.bind_some,
      ih (seg + 1) (by omega), Option.bind_some, Nat.succ_mul n, Nat.add_comm (n * SEGMENT_SIZE),
      sliceAt_add, Nat.succ_mul]

theorem length_segmentRegion (n : Nat) : ∀ seg, (seg + n) * SEGMENT_SIZE ≤ plaintext.length →
    (segmentRegion T coins recipients plaintext seg n).length =
        n * (SEGMENT_SIZE + AEAD_TAG_SIZE) := by
  induction n with
  | zero =>
    intro seg _
    rw [Nat.zero_mul]
    rfl
  | succ n ih =>
    intro seg hfull
    have hnext : (seg + 1 + n) * SEGMENT_SIZE ≤ plaintext.length := by
      rwa [Nat.add_right_comm]
    have hfirst : (seg + 1) * SEGMENT_SIZE ≤ (seg + (n + 1)) * SEGMENT_SIZE :=
      Nat.mul_le_mul_right _ (by omega)
    rw [Nat.succ_mul] at hfirst
    rw [segmentRegion_succ, List.length_append, length_segment htag, ih _ hnext,
      Nat.min_eq_left (by omega), Nat.succ_mul, Nat.add_comm]

/-- A cut between two segments. -/
theorem take_segmentRegion {n : Nat} (hn : n ≤ segmentCount plaintext.length)
    (hfull : n * SEGMENT_SIZE ≤ plaintext.length) :
    (segmentRegion T coins recipients plaintext 0 (segmentCount plaintext.length)).take
        (n * (SEGMENT_SIZE + AEAD_TAG_SIZE)) = segmentRegion T coins recipients plaintext 0 n := by
  have hsplit : segmentRegion T coins recipients plaintext 0 (segmentCount plaintext.length) =
      segmentRegion T coins recipients plaintext 0 n ++
        segmentRegion T coins recipients plaintext n (segmentCount plaintext.length - n) := by
    have hrange : List.range' 0 n ++ List.range' n (segmentCount plaintext.length - n) =
        List.range' 0 (segmentCount plaintext.length) := by
      simpa [Nat.add_sub_cancel' hn] using
        (List.range'_append_1 : List.range' 0 n ++
          List.range' (0 + n) (segmentCount plaintext.length - n) = _)
    rw [segmentRegion, segmentRegion, segmentRegion, ← List.flatMap_append, hrange]
  rw [hsplit]
  exact List.take_left' (length_segmentRegion htag n 0 (by rwa [Nat.zero_add]))

/-- A recipient reads as many segments as there are. -/
theorem decrypt_segmentRegion {n : Nat} (hmany : recipients.length ≤ 65535)
    (hkeys : ∀ pk ∈ recipients, pk.length = KEM_PK_SIZE)
    (hinj : Set.InjOn T.sha3_256 {pk | pk ∈ recipients})
    (hopens : ∀ call ∈ encryptCalls T coins recipients plaintext, call.Opens T O)
    (hpk : pubkey ∈ recipients) (hpair : KeyPair T O seckey pubkey)
    (hpos : 0 < n) (hn : n ≤ segmentCount plaintext.length) :
    decrypt T O (opening T coins recipients ++ segmentRegion T coins recipients plaintext 0 n)
    seckey pubkey =
      some (plaintext.take (n * SEGMENT_SIZE)) := by
  have hregion : AEAD_TAG_SIZE ≤ (segmentRegion T coins recipients plaintext 0 n).length := by
    obtain ⟨m, rfl⟩ : ∃ m, n = m + 1 := ⟨n - 1, by omega⟩
    rw [segmentRegion_succ, List.length_append, length_segment htag]
    omega
  have hwrap : ∀ call ∈ wrapCalls T coins recipients, call.Opens T O :=
    fun call h => hopens call (List.mem_append_left _ h)
  have hsegments : ∀ call ∈ segmentCalls T coins recipients plaintext, call.Opens T O :=
    fun call h => hopens call (List.mem_append_right _ h)
  rw [decrypt_opening htag hmany hkeys hinj hwrap hpk hpair hregion,
    decryptSegments_segmentRegion htag hsegments n 0 (by rwa [Nat.zero_add]), Nat.zero_mul, sliceAt,
    List.drop_zero]

end Regions

/-! ## An ideal AEAD -/

/-- Besides what was encrypted nothing opens. -/
structure IdealAead (T : Toolkit) (O : Opener) (calls : Set Call) : Prop where
  opens : ∀ call ∈ calls, call.Opens T O
  only : ∀ {ct ad nonce : Bytes} {key : FixedBytes 32} {opened : Bytes},
    O.aeadDecrypt ct ad nonce key = some opened →
      ⟨opened, ad, nonce, key⟩ ∈ calls ∧ ct = T.aeadEncrypt opened ad nonce key

theorem length_wrapAd_le (T : Toolkit) (coins : Coins) (recipients : List Bytes) (i : Nat) :
    (wrapAd T coins recipients i).length ≤ HEADER_SIZE + recipients.length * PK_HASH_PLUS_CT := by
  have hall : ∀ s ∈ (stanzaBuilders T coins recipients).take i, s.opening.length =
    PK_HASH_PLUS_CT :=
    fun s _ => s.length_opening
  have hcount : ((stanzaBuilders T coins recipients).take i).length ≤ recipients.length := by
    rw [List.length_take, length_stanzaBuilders]
    exact Nat.min_le_right _ _
  rw [wrapAd, List.length_append, length_header, List.length_flatMap, List.map_congr_left hall,
    List.map_const', List.sum_replicate_nat]
  exact Nat.add_le_add_left (Nat.mul_le_mul_right _ hcount) _

/-- Opens the ciphertexts of the given calls. -/
def idealOpener (T : Toolkit) (calls : List Call) : Opener where
  decaps _ _ := some (FixedBytes.fill 32 0)
  aeadDecrypt ct ad nonce key :=
    (calls.find? fun call => call.sealed T = ct ∧ call.ad = ad ∧ call.nonce = nonce ∧
      call.key = key).map
      Call.plaintext

theorem idealAead_idealOpener {T : Toolkit}
    (hinj : ∀ ad nonce key, Function.Injective fun plaintext =>
      T.aeadEncrypt plaintext ad nonce key)
    (calls : List Call) : IdealAead T (idealOpener T calls) {call | call ∈ calls} where
  opens := by
    intro call hcall
    have hsome : (calls.find? fun c => c.sealed T = call.sealed T ∧ c.ad = call.ad ∧
      c.nonce = call.nonce ∧ c.key = call.key).isSome = true :=
      List.find?_isSome.mpr ⟨call, hcall, by simp⟩
    obtain ⟨found, hfound⟩ := Option.isSome_iff_exists.mp hsome
    have hmatch := List.find?_some hfound
    rw [decide_eq_true_iff] at hmatch
    obtain ⟨hsealed, had, hnonce, hkey⟩ := hmatch
    have hplaintext : found.plaintext = call.plaintext := by
      rw [Call.sealed, Call.sealed, had, hnonce, hkey] at hsealed
      exact hinj _ _ _ hsealed
    show ((calls.find? _).map Call.plaintext) = _
    rw [hfound, Option.map_some, hplaintext]
  only := by
    intro ct ad nonce key opened h
    obtain ⟨call, hfind, rfl⟩ := Option.map_eq_some_iff.mp h
    have hmatch := List.find?_some hfind
    rw [decide_eq_true_iff] at hmatch
    obtain ⟨rfl, rfl, rfl, rfl⟩ := hmatch
    exact ⟨List.mem_of_find?_eq_some hfind, rfl⟩

section Ideal

variable {O : Opener} {calls : Set Call}
  (htag : TagSized T) (hideal : IdealAead T O calls)
  (hfresh : ∀ call ∈ calls, call.key = coins.dek → call ∈ encryptCalls T coins recipients plaintext)

include htag hideal hfresh

/-- With the data key of an envelope and its opening, only its segments open, each at its index. -/
theorem eq_segment_of_aeadDecrypt {seg : Nat} {segCt : Bytes}
    (hseg : seg ≤ segmentCount plaintext.length)
    (h : O.aeadDecrypt segCt (opening T coins recipients)
      (segmentNonce coins.dataNonce seg) coins.dek = some opened) :
    seg < segmentCount plaintext.length ∧
      segCt = (segmentCall coins (opening T coins recipients) plaintext seg).sealed T ∧
      opened = sliceAt plaintext (seg * SEGMENT_SIZE) SEGMENT_SIZE := by
  obtain ⟨hcall, hct⟩ := hideal.only h
  rcases List.mem_append.mp (hfresh _ hcall rfl) with hwrap | hsegment
  · -- a wrapped key has shorter associated data
    obtain ⟨i, hi, heq⟩ := List.mem_mapIdx.mp hwrap
    have had : wrapAd T coins recipients i = opening T coins recipients := congrArg Call.ad heq
    have hle := length_wrapAd_le T coins recipients i
    rw [had, length_opening htag, STANZA_SIZE, PK_HASH_PLUS_CT] at hle
    rw [length_stanzaBuilders] at hi
    omega
  · obtain ⟨j, hj, heq⟩ := List.mem_map.mp hsegment
    have hcount := segmentCount_lt plaintext.length
    rw [List.mem_range] at hj
    obtain rfl : j = seg := segmentNonce_inj (by omega) (by omega) (congrArg Call.nonce heq)
    refine ⟨hj, ?_, (congrArg Call.plaintext heq).symm⟩
    rw [hct, heq]
    rfl

/-- A region that opens is a number of the envelope's segments, from the first one on. -/
theorem eq_segmentRegion_of_decryptSegments {seg : Nat}
    (hseg : seg ≤ segmentCount plaintext.length)
    (h : decryptSegments O coins.dataNonce (opening T coins recipients) coins.dek seg region =
      some opened) :
    ∃ n, seg + n ≤ segmentCount plaintext.length ∧
      region = segmentRegion T coins recipients plaintext seg n ∧
      opened = sliceAt plaintext (seg * SEGMENT_SIZE) (n * SEGMENT_SIZE) := by
  fun_induction decryptSegments O coins.dataNonce (opening T coins recipients) coins.dek seg region
    generalizing opened with
  | case1 seg region hempty =>
    obtain rfl := Option.some.inj h
    refine ⟨0, hseg, List.length_eq_zero_iff.mp hempty, ?_⟩
    rw [Nat.zero_mul, sliceAt, List.take_zero]
  | case2 seg region hsome hshort => exact absurd h (by simp)
  | case3 seg region hsome segCt htagged =>
    rename_i ih
    simp only [Option.bind_eq_bind, Option.bind_eq_some_iff, Option.some.injEq] at h
    obtain ⟨first, hfirst, more, hmore, rfl⟩ := h
    obtain ⟨hlt, hct, rfl⟩ := eq_segment_of_aeadDecrypt htag hideal hfresh hseg hfirst
    obtain ⟨n, hn, hregion, rfl⟩ := ih hlt hmore
    refine ⟨n + 1, by omega, ?_, ?_⟩
    · rw [segmentRegion_succ, ← hct, ← hregion, List.take_append_drop]
    · rw [Nat.succ_mul n, Nat.add_comm (n * SEGMENT_SIZE), sliceAt_add, Nat.succ_mul]

end Ideal

/-! ## Main results -/

def sampleCoins : Coins where
  dek := FixedBytes.fill 32 1
  dataNonce := FixedBytes.fill 12 2
  encaps _ := []

def sampleKey : Bytes := List.replicate KEM_PK_SIZE 7

/-- With an ideal AEAD, a changed ciphertext region cannot make a recipient accept another
plaintext, unless it is cut between two segments: the number of segments is not authenticated. -/
theorem envelope_integrity_iff {T : Toolkit} {O : Opener} {calls : Set Call} {coins : Coins}
    {plaintext envelope seckey pubkey : Bytes} {recipients : List Bytes}
    (htag : TagSized T) (hideal : IdealAead T O calls)
    (hcalls : ∀ call ∈ encryptCalls T coins recipients plaintext, call ∈ calls)
    (hfresh : ∀ call ∈ calls, call.key = coins.dek →
      call ∈ encryptCalls T coins recipients plaintext)
    (hinj : Set.InjOn T.sha3_256 {pk | pk ∈ recipients})
    (h : encrypt T coins plaintext recipients = some envelope)
    (hpk : pubkey ∈ recipients) (hpair : KeyPair T O seckey pubkey) (region : Bytes) :
    (∀ opened, decrypt T O (envelope.take (HEADER_SIZE + recipients.length * STANZA_SIZE) ++ region)
        seckey pubkey = some opened → opened = plaintext) ↔
      ∀ n, 0 < n → n ≤ segmentCount plaintext.length → n * SEGMENT_SIZE < plaintext.length →
        region ≠ (envelope.drop (HEADER_SIZE + recipients.length * STANZA_SIZE)).take
          (n * (SEGMENT_SIZE + AEAD_TAG_SIZE)) := by
  obtain ⟨hsome, hmany, hkeys⟩ := recipients_of_encrypt h
  have hopens : ∀ call ∈ encryptCalls T coins recipients plaintext, call.Opens T O :=
    fun call hcall => hideal.opens call (hcalls call hcall)
  rw [encrypt_eq hsome hmany hkeys] at h
  obtain rfl := Option.some.inj h
  rw [← length_opening htag coins recipients, List.take_left, List.drop_left]
  constructor
  · intro hall n hpos hn hshort hcut
    rw [take_segmentRegion htag hn (Nat.le_of_lt hshort)] at hcut
    have hopened := decrypt_segmentRegion htag hmany hkeys hinj hopens hpk hpair hpos hn
    rw [← hcut] at hopened
    have hlength := congrArg List.length (hall _ hopened)
    rw [List.length_take] at hlength
    omega
  · intro hcut opened hopened
    have hregion := tag_le_of_decrypt htag hmany hopened
    rw [decrypt_opening htag hmany hkeys hinj (fun call hcall =>
      hopens call (List.mem_append_left _ hcall)) hpk hpair hregion] at hopened
    obtain ⟨n, hn, hsegments, rfl⟩ :=
      eq_segmentRegion_of_decryptSegments htag hideal hfresh (Nat.zero_le _) hopened
    rw [Nat.zero_add] at hn
    have hpos : 0 < n := by
      rcases Nat.eq_zero_or_pos n with rfl | hpos
      · rw [hsegments] at hregion
        exact absurd hregion (Nat.not_le.mpr (Nat.succ_pos 15))
      · exact hpos
    have hall : plaintext.length ≤ n * SEGMENT_SIZE := by
      by_contra hlt
      have hshort := Nat.lt_of_not_le hlt
      refine hcut n hpos hn hshort ?_
      rw [hsegments, take_segmentRegion htag hn (Nat.le_of_lt hshort)]
    rw [Nat.zero_mul, sliceAt, List.drop_zero, List.take_of_length_le hall]

/-- A MiB and a byte, of which only the length is used. -/
@[irreducible] def twoSegments : Bytes := List.replicate (SEGMENT_SIZE + 1) 0

theorem length_twoSegments : twoSegments.length = SEGMENT_SIZE + 1 := by
  rw [twoSegments, List.length_replicate]

/-- Of two segments, only the first one alone is accepted in place of both. -/
theorem envelope_integrity_twoSegments :
    ∃ envelope, encrypt Sample.toolkit sampleCoins twoSegments [sampleKey] = some envelope ∧
      ∀ region opened, decrypt Sample.toolkit
        (idealOpener Sample.toolkit
          (encryptCalls Sample.toolkit sampleCoins [sampleKey] twoSegments))
        (envelope.take (HEADER_SIZE + STANZA_SIZE) ++ region)
          (List.replicate KEM_SK_SIZE 0) sampleKey = some opened →
        region ≠ (envelope.drop (HEADER_SIZE + STANZA_SIZE)).take (SEGMENT_SIZE + AEAD_TAG_SIZE) →
        opened = twoSegments := by
  refine ⟨_, encrypt_eq (by simp) (by simp) (by simp [sampleKey]), fun region opened h hcut => ?_⟩
  refine (envelope_integrity_iff Sample.length_aeadEncrypt
    (idealAead_idealOpener Sample.aeadEncrypt_injective _) (fun _ hcall =>
      hcall) (fun _ hcall _ => hcall)
    (by simp) (encrypt_eq (by simp) (by simp) (by simp [sampleKey])) List.mem_cons_self
    ⟨by simp, fun _ => rfl⟩ region).mpr ?_ opened h
  intro n hpos _ hshort
  rw [length_twoSegments, SEGMENT_SIZE] at hshort
  obtain rfl : n = 1 := by omega
  rwa [Nat.one_mul]

/-- The last of two segments is cut off, and the recipient accepts the first one. -/
theorem envelope_cut :
    ∃ (O : Opener) (envelope opened : Bytes),
      IdealAead Sample.toolkit O
        {call | call ∈ encryptCalls Sample.toolkit sampleCoins [sampleKey] twoSegments} ∧
      KeyPair Sample.toolkit O (List.replicate KEM_SK_SIZE 0) sampleKey ∧
      encrypt Sample.toolkit sampleCoins twoSegments [sampleKey] = some envelope ∧
      decrypt Sample.toolkit O
        (envelope.take (HEADER_SIZE + STANZA_SIZE) ++
          (envelope.drop (HEADER_SIZE + STANZA_SIZE)).take (SEGMENT_SIZE + AEAD_TAG_SIZE))
        (List.replicate KEM_SK_SIZE 0) sampleKey = some opened ∧
      opened ≠ twoSegments := by
  have hlength := length_twoSegments
  have hideal := idealAead_idealOpener Sample.aeadEncrypt_injective
    (encryptCalls Sample.toolkit sampleCoins [sampleKey] twoSegments)
  have hpair : KeyPair Sample.toolkit
      (idealOpener Sample.toolkit (encryptCalls Sample.toolkit sampleCoins [sampleKey] twoSegments))
      (List.replicate KEM_SK_SIZE 0) sampleKey := ⟨by simp, fun _ => rfl⟩
  have hkeys : ∀ pk ∈ [sampleKey], pk.length = KEM_PK_SIZE := by
    simp [sampleKey]
  have hone : 1 ≤ segmentCount twoSegments.length := segmentCount_pos _
  have hopened :=
    decrypt_segmentRegion Sample.length_aeadEncrypt (by simp) hkeys (by simp) hideal.opens
    List.mem_cons_self hpair Nat.one_pos hone
  have hcut : (segmentRegion Sample.toolkit sampleCoins [sampleKey] twoSegments 0
      (segmentCount twoSegments.length)).take (1 * (SEGMENT_SIZE + AEAD_TAG_SIZE)) = _ :=
    take_segmentRegion Sample.length_aeadEncrypt hone (by omega)
  have hopening := length_opening Sample.length_aeadEncrypt sampleCoins [sampleKey]
  rw [List.length_singleton, Nat.one_mul] at hopening
  refine ⟨_, _, twoSegments.take (1 * SEGMENT_SIZE), hideal, hpair,
    encrypt_eq (by simp) (by simp) hkeys, ?_, ?_⟩
  · rw [← hopening, List.take_left, List.drop_left, ← Nat.one_mul (SEGMENT_SIZE + AEAD_TAG_SIZE),
      hcut, hopened]
  · intro heq
    have hshort := congrArg List.length heq
    rw [List.length_take] at hshort
    omega

/-- A recipient reads what was encrypted. -/
theorem decrypt_encrypt {T : Toolkit} {O : Opener} {coins : Coins} {plaintext envelope : Bytes}
    {recipients : List Bytes} (htag : TagSized T)
    (haead : ∀ call : Call, call.Opens T O) (hinj : Set.InjOn T.sha3_256 {pk | pk ∈ recipients})
    (hsize : plaintext.length ≤ (2 ^ 32 - 1) * SEGMENT_SIZE)
    (h : encrypt T coins plaintext recipients = some envelope) (hpk : pubkey ∈ recipients)
    (hpair : KeyPair T O seckey pubkey) : decrypt T O envelope seckey pubkey = some plaintext := by
  obtain ⟨hsome, hmany, hkeys⟩ := recipients_of_encrypt h
  rw [encrypt_eq hsome hmany hkeys] at h
  obtain rfl := Option.some.inj h
  rw [decrypt_segmentRegion htag hmany hkeys hinj (fun call _ => haead call) hpk hpair
    (segmentCount_pos _) (Nat.le_refl _), List.take_of_length_le (le_segmentCount hsize)]

/-- What is encrypted is read by every recipient and by nobody without a stanza, and no nonce is
used for two segments. -/
theorem envelope_round_trip {T : Toolkit} {O : Opener} {coins : Coins} {plaintext : Bytes}
    {recipients : List Bytes} (htag : TagSized T)
    (haead : ∀ call : Call, call.Opens T O)
    (hinj : Set.InjOn T.sha3_256 {pk | pk ∈ recipients})
    (hsome : recipients ≠ []) (hmany : recipients.length ≤ 65535)
    (hkeys : ∀ pk ∈ recipients, pk.length = KEM_PK_SIZE)
    (hsize : plaintext.length ≤ (2 ^ 32 - 1) * SEGMENT_SIZE) :
    ∃ envelope, encrypt T coins plaintext recipients = some envelope ∧
      (∀ seckey, ∀ pubkey ∈ recipients, KeyPair T O seckey pubkey →
        decrypt T O envelope seckey pubkey = some plaintext) ∧
      (∀ seckey pubkey, (∀ pk ∈ recipients, T.sha3_256 pk ≠ T.sha3_256 pubkey) →
        decrypt T O envelope seckey pubkey = none) ∧
      envelope = opening T coins recipients ++
        (segmentCalls T coins recipients plaintext).flatMap (Call.sealed T) ∧
      ((segmentCalls T coins recipients plaintext).map Call.nonce).Nodup := by
  refine ⟨_, encrypt_eq hsome hmany hkeys, ?_, ?_, ?_, nodup_nonces⟩
  · intro seckey pubkey hpk hpair
    exact decrypt_encrypt htag haead hinj hsize (encrypt_eq hsome hmany hkeys) hpk hpair
  · intro seckey pubkey hstranger
    exact decrypt_stranger htag hmany hstranger
  · rw [segmentRegion, segmentCalls, List.flatMap_map, List.range_eq_range']

theorem envelope_round_trip_twice :
    ∃ envelope, encrypt Sample.toolkit sampleCoins [1, 2, 3] [sampleKey, sampleKey] =
      some envelope ∧
      decrypt Sample.toolkit Sample.opener envelope (List.replicate KEM_SK_SIZE 0) sampleKey =
        some [1, 2, 3] := by
  have hkeys : ∀ pk ∈ [sampleKey, sampleKey], pk.length = KEM_PK_SIZE := by
    simp [sampleKey]
  obtain ⟨envelope, hencrypt, hdecrypt, -⟩ := envelope_round_trip Sample.length_aeadEncrypt
    (fun call => Sample.aeadDecrypt_aeadEncrypt call.plaintext call.ad call.nonce call.key)
      (by simp) (by simp)
    (by simp) hkeys (by decide : ([1, 2, 3] : Bytes).length ≤ (2 ^ 32 - 1) * SEGMENT_SIZE)
  exact ⟨envelope, hencrypt, hdecrypt _ _ List.mem_cons_self ⟨by simp, fun _ => rfl⟩⟩

end Cli.Envelope
