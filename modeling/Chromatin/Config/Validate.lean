import Chromatin.Net.Framing
import Chromatin.Util.Hex

/-!
# The configuration of a node (`config/config.h`, `config/config.cpp`)

`validate_config` collects what is wrong with a configuration and throws if that is anything. Here
are its checks of numbers, in their order; those of texts (`log_format`, `log_level`, `uds_path`,
`metrics_bind`, `bind_address`) are left out, with the fields that only they read.

`validate_allowed_keys` checks the lists of hashes, of which there may be any number. Such a text is
the byte string of its characters. -/

namespace Config

open Infra Net Util

structure NodeConfig where
  maxPeers : Nat := 32
  safetyNetIntervalSeconds : Nat := 600
  maxStorageBytes : Nat := 0
  blobMaxBytes : Nat := 4 * 1024 * 1024
  rateLimitBytesPerSec : Nat := 0
  rateLimitBurst : Nat := 0
  fullResyncInterval : Nat := 10
  cursorStaleSeconds : Nat := 3600
  workerThreads : Nat := 0
  maxSyncSessions : Nat := 1
  blobTransferTimeout : Nat := 600
  syncTimeout : Nat := 30
  pexInterval : Nat := 300
  strikeThreshold : Nat := 10
  strikeCooldown : Nat := 300
  logMaxSizeMb : Nat := 10
  logMaxFiles : Nat := 3

/-- The error of a check that fails. -/
def require (ok : Bool) (message : String) (value : Nat) : List String :=
  if ok then [] else [message ++ " (got " ++ toString value ++ ")"]

def atLeast (field : String) (bound value : Nat) : List String :=
  require (bound ≤ value) (field ++ " must be >= " ++ toString bound) value

def within (field : String) (lower upper value : Nat) : List String :=
  require (lower ≤ value && value ≤ upper)
    (field ++ " must be " ++ toString lower ++ "-" ++ toString upper) value

def maxStorageErrors (value : Nat) : List String :=
  require (value = 0 || 1048576 ≤ value)
    "max_storage_bytes must be 0 (unlimited) or >= 1048576 (1 MiB)" value

def blobMaxErrors (value : Nat) : List String :=
  require (1048576 ≤ value) "blob_max_bytes must be >= 1048576 (1 MiB)" value ++
    require (value ≤ MAX_BLOB_DATA_HARD_CEILING)
      ("blob_max_bytes must be <= " ++ toString MAX_BLOB_DATA_HARD_CEILING ++
        " (64 MiB hard ceiling)") value

def rateLimitErrors (rate burst : Nat) : List String :=
  require (rate = 0 || 1024 ≤ rate)
      "rate_limit_bytes_per_sec must be 0 (disabled) or >= 1024" rate ++
    (if rate > 0 ∧ burst = 0 then
      ["rate_limit_burst must be > 0 when rate limiting is enabled (got burst=0, rate=" ++
        toString rate ++ ")"]
    else if rate > 0 ∧ burst < rate then
      ["rate_limit_burst must be >= rate_limit_bytes_per_sec when rate limiting is enabled " ++
        "(got burst=" ++ toString burst ++ ", rate=" ++ toString rate ++ ")"]
    else [])

def workerThreadsErrors (value : Nat) : List String :=
  require (value ≤ 256) "worker_threads must be 0 (auto-detect) or 1-256" value

/-- What is wrong with the numbers of a configuration. -/
def numberErrors (cfg : NodeConfig) : List String :=
  atLeast "max_peers" 1 cfg.maxPeers ++
  atLeast "safety_net_interval_seconds" 3 cfg.safetyNetIntervalSeconds ++
  maxStorageErrors cfg.maxStorageBytes ++
  blobMaxErrors cfg.blobMaxBytes ++
  rateLimitErrors cfg.rateLimitBytesPerSec cfg.rateLimitBurst ++
  atLeast "full_resync_interval" 1 cfg.fullResyncInterval ++
  atLeast "cursor_stale_seconds" 60 cfg.cursorStaleSeconds ++
  workerThreadsErrors cfg.workerThreads ++
  atLeast "max_sync_sessions" 1 cfg.maxSyncSessions ++
  within "blob_transfer_timeout" 10 86400 cfg.blobTransferTimeout ++
  within "sync_timeout" 5 3600 cfg.syncTimeout ++
  within "pex_interval" 10 86400 cfg.pexInterval ++
  within "strike_threshold" 1 1000 cfg.strikeThreshold ++
  within "strike_cooldown" 0 86400 cfg.strikeCooldown ++
  atLeast "log_max_size_mb" 1 cfg.logMaxSizeMb ++
  atLeast "log_max_files" 1 cfg.logMaxFiles

/-- The numbers of the configuration pass. -/
def NodeConfig.Valid (cfg : NodeConfig) : Prop := numberErrors cfg = []

instance (cfg : NodeConfig) : Decidable cfg.Valid :=
  inferInstanceAs (Decidable (numberErrors cfg = []))

theorem valid_default : ({} : NodeConfig).Valid := by decide

@[simp] theorem require_eq_nil {ok : Bool} {message : String} {value : Nat} :
    require ok message value = [] ↔ ok = true := by
  unfold require
  split_ifs with h <;> simp [h]

/-- The sizes a validated configuration admits for the data of a blob. -/
theorem NodeConfig.Valid.blobMaxBytes_bounds {cfg : NodeConfig} (h : cfg.Valid) :
    1048576 ≤ cfg.blobMaxBytes ∧ cfg.blobMaxBytes ≤ MAX_BLOB_DATA_HARD_CEILING := by
  simp only [NodeConfig.Valid, numberErrors, List.append_eq_nil_iff] at h
  have hblob : blobMaxErrors cfg.blobMaxBytes = [] := by tauto
  simpa [blobMaxErrors] using hblob

/-! ## Lists of hashes -/

/-- `Invalid allowed_key '…': …` -/
inductive KeyError
  /-- `expected 64 hex characters, got …` -/
  | length (key : Bytes) (got : Nat)
  /-- `non-hex character '…'` -/
  | character (key : Bytes) (c : UInt8)

def isHexDigit (c : UInt8) : Bool :=
  (0x30 ≤ c && c ≤ 0x39) || (0x61 ≤ c && c ≤ 0x66) || (0x41 ≤ c && c ≤ 0x46)

def validateAllowedKey (key : Bytes) : Except KeyError Unit :=
  if key.length ≠ 64 then .error (.length key key.length)
  else
    match key.find? fun c => !isHexDigit c with
    | some c => .error (.character key c)
    | none => .ok ()

/-- The exception is about the first text that is wrong. -/
def validateAllowedKeys : List Bytes → Except KeyError Unit
  | [] => .ok ()
  | key :: rest =>
    match validateAllowedKey key with
    | .error e => .error e
    | .ok () => validateAllowedKeys rest

theorem validateAllowedKey_eq_ok {key : Bytes} :
    validateAllowedKey key = .ok () ↔ key.length = 64 ∧ ∀ c ∈ key, isHexDigit c = true := by
  unfold validateAllowedKey
  split_ifs with hlength
  · exact iff_of_false (by simp) (fun h => hlength h.1)
  · cases hfind : key.find? fun c => !isHexDigit c with
    | some c =>
      have hc := List.find?_some hfind
      have hmem := List.mem_of_find?_eq_some hfind
      refine iff_of_false (by simp) (fun h => ?_)
      simp [h.2 c hmem] at hc
    | none =>
      have hall : ∀ c ∈ key, isHexDigit c = true := by simpa using hfind
      exact iff_of_true rfl ⟨not_not.mp hlength, hall⟩

theorem validateAllowedKeys_eq_ok : ∀ keys : List Bytes,
    validateAllowedKeys keys = .ok () ↔
    ∀ key ∈ keys, key.length = 64 ∧ ∀ c ∈ key, isHexDigit c = true
  | [] => by simp [validateAllowedKeys]
  | key :: rest => by
    have ih := validateAllowedKeys_eq_ok rest
    rw [validateAllowedKeys, List.forall_mem_cons, ← ih, ← validateAllowedKey_eq_ok]
    cases validateAllowedKey key with
    | error e => simp
    | ok u => simp

/-- A digit that passes the check is read. -/
theorem nibble_of_isHexDigit {c : UInt8} (h : isHexDigit c = true) : ∃ n, nibble c = some n := by
  unfold nibble
  split_ifs with hdecimal hlower hupper
  · exact ⟨_, rfl⟩
  · exact ⟨_, rfl⟩
  · exact ⟨_, rfl⟩
  · simp only [isHexDigit, Bool.or_eq_true, Bool.and_eq_true, decide_eq_true_eq,
      UInt8.le_iff_toNat_le] at h
    exact absurd h (by tauto)

end Config
