import Chromatin.Properties.EngineCalls
import Chromatin.Properties.StoreIndexes
import Chromatin.Properties.SyncSession

/-!
# The hashes a node reconciles with

A deleted blob leaves a sentinel in the sequence table, but a blob that an expiry scan removes
leaves its entry, and the same blob can be stored again by a call that was accepted before it
expired. So the table may name a blob that is gone, and name a blob twice. `Stale` says that both
only happen to blobs that have expired, `namespace_hashes_exact` that `collect_namespace_hashes`,
which drops these, is exact. -/

namespace Engine

open Infra Util Wire Storage Sync

/-- The hash is that of a blob in play that has expired. -/
def Lapsed (P : Primitives) (known : Set BlobData) (now : UInt64) (hash : Hash32) : Prop :=
  ∃ blob ∈ known, contentHash P blob = hash ∧ isBlobExpired blob now = true

/-- Only an expired blob has an entry without being stored, or two entries. -/
structure Stale (P : Primitives) (known : Set BlobData) (now : UInt64) (t : Tables) : Prop where
  timed : Timed P known t
  live : ∀ ns n entry, get₂ t.seq ns n = some entry → entry.hash ≠ zeroHash →
    (t.getBlob ns entry.hash).isSome = true ∨ Lapsed P known now entry.hash
  unique : ∀ ns n m entry entry', get₂ t.seq ns n = some entry → get₂ t.seq ns m = some entry' →
    entry.hash = entry'.hash → entry.hash ≠ zeroHash → n = m ∨ Lapsed P known now entry.hash

section Steps

variable {P : Primitives} {known : Set BlobData} {now : UInt64} {t : Tables} {ns hash : Hash32}
  {blob : BlobData}

theorem stale_empty : Stale P known now {} where
  timed := timed_empty
  live ns n entry h := by simp [get₂] at h
  unique ns n m entry entry' h := by simp [get₂] at h

/-- A blob that is stored again has expired. -/
theorem Stale.insertBlob (h : Stale P known now t) (hblob : blob ∈ known)
    (hfresh : t.getBlob ns (contentHash P blob) = none) :
    Stale P known now (t.insertBlob P ns blob) where
  timed := h.timed.insertBlob hblob
  live ns' n entry hentry hne := by
    rw [seq_insertBlob] at hentry
    rw [getBlob_insertBlob]
    split_ifs at hentry with hnew
    · obtain rfl := Option.some.inj hentry
      exact .inl (by simp [hnew.1])
    · split_ifs
      · exact .inl rfl
      · exact h.live ns' n entry hentry hne
  unique ns' n m entry entry' hentry hentry' hsame hne := by
    have hold {k : Nat} {e : SeqEntry} (he : get₂ t.seq ns k = some e)
        (heq : e.hash = contentHash P blob) (hne : e.hash ≠ zeroHash) :
            Lapsed P known now e.hash := by
      rcases h.live ns k e he hne with hstored | hlapsed
      · rw [heq, hfresh] at hstored
        exact absurd hstored (by simp)
      · exact hlapsed
    rw [seq_insertBlob] at hentry hentry'
    split_ifs at hentry with hnew
    · obtain rfl := Option.some.inj hentry
      split_ifs at hentry' with hnew'
      · exact .inl (hnew.2.symm.trans hnew'.2)
      · have hlapsed := hold (hnew.1 ▸ hentry') hsame.symm (hsame ▸ hne)
        exact .inr (hsame ▸ hlapsed)
    · split_ifs at hentry' with hnew'
      · obtain rfl := Option.some.inj hentry'
        exact .inr (hold (hnew'.1 ▸ hentry) hsame hne)
      · exact h.unique ns' n m entry entry' hentry hentry' hsame hne

/-- The entries that a deletion leaves are those of other blobs, or of a blob that has expired. -/
theorem Stale.removeBlob (h : Stale P known now t) :
    Stale P known now (t.removeBlob P ns hash blob) where
  timed := h.timed.removeBlob
  live ns' n entry hentry hne := by
    obtain ⟨hold, hsentinel⟩ := seq_of_removeBlob hentry hne
    rw [getBlob_removeBlob]
    split_ifs with hkey
    · obtain ⟨rfl, rfl⟩ := hkey
      cases hfind : t.findSeq ns entry.hash with
      | none => exact absurd rfl (findSeq_eq_none hfind hold)
      | some k =>
        obtain ⟨entry', hentry', hhash⟩ := findSeq_eq_some hfind
        rcases h.unique ns n k entry entry' hold hentry' hhash.symm hne with rfl | hlapsed
        · exact absurd ⟨rfl, hfind⟩ hsentinel
        · exact .inr hlapsed
    · exact h.live ns' n entry hold hne
  unique ns' n m entry entry' hentry hentry' hsame hne := by
    exact h.unique ns' n m entry entry' (seq_of_removeBlob hentry hne).1
      (seq_of_removeBlob hentry' (hsame ▸ hne)).1 hsame hne

/-- A blob whose expiry entry was due at an earlier time has expired. -/
theorem lapsed_of_scheduled (h : Timed P known t) {now' : UInt64} (hle : now' ≤ now)
    (hdue : t.scheduled now' ns hash = true) : Lapsed P known now hash := by
  obtain ⟨time, hentry, htime⟩ := scheduled_iff.mp hdue
  obtain ⟨blob, hblob, hhash, httl, hexpiry⟩ := h time hash ns hentry
  refine ⟨blob, hblob, hhash, ?_⟩
  have hpositive : blob.ttl ≠ 0 := by
    rintro hzero
    rw [hzero] at httl
    exact absurd httl (by decide)
  have hreached : saturatingExpiry blob.timestamp blob.ttl ≤ now := by
    rw [UInt64.le_iff_toNat_le, hexpiry]
    exact htime.trans (UInt64.le_iff_toNat_le.mp hle)
  simp [isBlobExpired, hpositive, hreached]

theorem Stale.runExpiryScan (h : Stale P known now t) {now' : UInt64} (hle : now' ≤ now) :
    Stale P known now (runExpiryScan P t now').1 where
  timed := runExpiryScan_preserves now' (fun t entry ht => ht.expireEntry entry) h.timed
  live ns n entry hentry hne := by
    rw [seq_runExpiryScan] at hentry
    rw [Storage.getBlob_runExpiryScan]
    split_ifs with hdue
    · exact .inr (lapsed_of_scheduled h.timed hle hdue)
    · exact h.live ns n entry hentry hne
  unique := by
    rw [seq_runExpiryScan]
    exact h.unique

end Steps

variable {P : Primitives}

theorem stale_run (events : List Event) {now : UInt64}
    (hclock : ∀ now', .expiryScan now' ∈ events → now' ≤ now) :
    Stale P { blob | Handed events blob } now (run (Node.step P) {} events).tables := by
  refine tables_rule stale_empty (fun env t t' ns blob result _ hcall h hcommit => ?_)
    fun t now' hmem h => h.runExpiryScan (hclock now' hmem)
  obtain ⟨entry, hmem⟩ := hcall
  exact committed_rule hcommit h (fun _ _ _ _ _ ht => ht.removeBlob)
    (fun _ _ ht => ⟨ht.timed, ht.live, ht.unique⟩)
    fun _ hfresh ht => ht.insertBlob ⟨entry, ns, hmem⟩ hfresh

/-- A stored blob that has not expired is not the expired one of the same hash. -/
theorem not_lapsed_run {events : List Event} {now : UInt64} {ns hash : Hash32} {blob : BlobData}
    (hcollision : Set.InjOn (contentHash P) { blob | Handed events blob })
    (hblob : (run (Node.step P) {} events).tables.getBlob ns hash = some blob)
    (hfresh : isBlobExpired blob now = false) :
    ¬ Lapsed P { blob | Handed events blob } now hash := by
  rintro ⟨blob', hhanded', hhash', hexpired⟩
  obtain ⟨hhanded, hhash, -⟩ := (catalogued_run events).listed ns hash blob hblob
  rw [hcollision hhanded' hhanded (hhash'.trans hhash.symm), hfresh] at hexpired
  exact Bool.false_ne_true hexpired

/-- **The hashes are exact.** In every run of the engine, whatever its calls and expiry scans, the
hashes that a later reconciliation starts from are those of the stored blobs that have not expired,
each of them once. The clock has not gone back: no scan ran at a later time. -/
theorem namespace_hashes_exact (P : Primitives) (events : List Event) (now : UInt64) (ns : Hash32)
    (hclock : ∀ now', .expiryScan now' ∈ events → now' ≤ now)
    (hcollision : Set.InjOn (contentHash P) { blob | Handed events blob })
    (hzero : ∀ blob, Handed events blob → contentHash P blob ≠ zeroHash) :
    let t := (run (Node.step P) {} events).tables
    (collectNamespaceHashes t now ns).Nodup ∧
      ∀ hash, hash ∈ collectNamespaceHashes t now ns ↔
        ∃ blob, t.getBlob ns hash = some blob ∧ isBlobExpired blob now = false := by
  intro t
  have hstale : Stale P { blob | Handed events blob } now t := stale_run events hclock
  have hcatalogued : Catalogued P (Handed events) t := catalogued_run events
  constructor
  · rw [collectNamespaceHashes, Tables.getHashesByNamespace, List.Nodup, List.pairwise_filter,
      List.pairwise_filter, List.pairwise_map]
    refine (pairwise_seqEntries t ns).imp_of_mem fun {a b} ha hb hlt hne _ hkept _ heq => ?_
    rcases hstale.unique ns a.1 b.1 a.2 b.2 (mem_seqEntries.mp ha) (mem_seqEntries.mp hb) heq
      (by simpa using hne) with hsame | hlapsed
    · omega
    · cases hblob : t.getBlob ns a.2.hash with
      | none => simp [hblob] at hkept
      | some blob =>
        rw [hblob] at hkept
        exact not_lapsed_run hcollision hblob (by simpa using hkept) hlapsed
  · intro hash
    rw [Peer.mem_collectNamespaceHashes]
    refine ⟨And.right, fun h => ⟨?_, h⟩⟩
    obtain ⟨blob, hblob, -⟩ := h
    obtain ⟨hhanded, hhash, n, entry, hentry, rfl⟩ := hcatalogued.listed ns hash blob hblob
    rw [Tables.getHashesByNamespace, List.mem_filter, List.mem_map]
    refine ⟨⟨(n, entry), mem_seqEntries.mpr hentry, rfl⟩, ?_⟩
    rw [bne_iff_ne, ← hhash]
    exact hzero blob hhanded

section Sample

open Wire.Sample

-- the list of the PUBK's bytes is as deep as it is long
set_option maxRecDepth 20000

/-- Two calls hand in the same blob. It expires and is removed after the first has stored it; then
the second, which had passed its checks, stores it again. -/
def storedAgain : List Event :=
  callAlone 0 sampleEnv .ingest (owned 1) (pubk 1 (owned 1) 2999999) ++
    [.call .ingest (owned 1) (shortLived 3000000), .call .ingest (owned 1) (shortLived 3000000),
      .resume 1 sampleEnv, .resume 1 sampleEnv, .resume 1 sampleEnv,
      .resume 2 sampleEnv, .resume 2 sampleEnv, .resume 2 sampleEnv,
      .resume 1 sampleEnv, .expiryScan 3000020, .resume 2 { sampleEnv with now := 3000020 }]

theorem clock_storedAgain (now' : UInt64) (h : .expiryScan now' ∈ storedAgain) :
    now' ≤ 3000020 := by
  simp only [storedAgain, callAlone, callTurns, List.mem_append, List.mem_cons, List.mem_replicate,
    List.not_mem_nil, Event.expiryScan.injEq, reduceCtorEq, and_false, or_false, false_or] at h
  exact h ▸ UInt64.le_refl _

theorem injOn_storedAgain :
    Set.InjOn (contentHash primitives) { blob | Handed storedAgain blob } := by
  have hdistinct : ∀ a ∈ blobsOf storedAgain, ∀ b ∈ blobsOf storedAgain,
      contentHash primitives a = contentHash primitives b → a = b := by
    decide +kernel
  rintro a ⟨_, _, ha⟩ b ⟨_, _, hb⟩
  exact hdistinct a (mem_blobsOf ha) b (mem_blobsOf hb)

theorem nonzero_storedAgain : ∀ blob, Handed storedAgain blob →
    contentHash primitives blob ≠ zeroHash := by
  have hnonzero : ∀ blob ∈ blobsOf storedAgain, contentHash primitives blob ≠ zeroHash := by
    decide +kernel
  rintro blob ⟨_, _, hcall⟩
  exact hnonzero blob (mem_blobsOf hcall)

theorem namespace_hashes_storedAgain :
    let t := (run (Node.step primitives) {} storedAgain).tables
    t.getHashesByNamespace (owned 1) = [contentHash primitives (pubk 1 (owned 1) 2999999),
        contentHash primitives (shortLived 3000000), contentHash primitives (shortLived 3000000)] ∧
      (collectNamespaceHashes t 3000020 (owned 1)).Nodup ∧
      ∀ hash, hash ∈ collectNamespaceHashes t 3000020 (owned 1) ↔
        ∃ blob, t.getBlob (owned 1) hash = some blob ∧ isBlobExpired blob 3000020 = false :=
  ⟨by decide +kernel, namespace_hashes_exact primitives storedAgain 3000020 (owned 1)
    clock_storedAgain injOn_storedAgain nonzero_storedAgain⟩

end Sample

end Engine
