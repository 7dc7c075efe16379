import Chromatin.Infra.Run
import Chromatin.Peer.RateLimit
import Chromatin.Wire.Sample
import Mathlib.Tactic.Linarith

/-!
# The byte budget bounds what it grants

A refill is rounded down, and a product or a sum that wraps is smaller than the exact one. So a call
never adds more than the exact refill of the time since the last call, and the refills of any window
of time add up to at most that of the whole window.

* `token_bucket_bound` — the tokens never exceed the burst, and the bytes granted in `[t₁, t₂]` are
  at most the burst and the exact refill of `t₂ - t₁`
-/

namespace Peer.ConnectionManager

open Infra Util Wire

/-- One call of `try_consume_tokens` for a peer. -/
structure Charge where
  nowMs : UInt64
  bytes : UInt64

section

variable (limits : RateLimits)

def charge (peer : PeerInfo) (c : Charge) : PeerInfo :=
  (tryConsumeTokens limits c.nowMs c.bytes peer).1

def grants (peer : PeerInfo) (c : Charge) : Bool := (tryConsumeTokens limits c.nowMs c.bytes peer).2

/-- The bytes of the calls made from `t₁` to `t₂` that returned true. -/
def grantedBytes (t₁ t₂ : UInt64) : PeerInfo → List Charge → Nat
  | _, [] => 0
  | peer, c :: rest =>
    (if t₁ ≤ c.nowMs ∧ c.nowMs ≤ t₂ ∧ grants limits peer c then c.bytes.toNat else 0) +
      grantedBytes t₁ t₂ (charge limits peer c) rest

end

variable {t₁ t₂ : UInt64}

/-! ## One call -/

theorem toNat_min (a b : UInt64) : (min a b).toNat = min a.toNat b.toNat := by
  rw [show min a b = if a ≤ b then a else b from rfl]
  split_ifs with hle
  · rw [UInt64.le_iff_toNat_le] at hle
    omega
  · rw [UInt64.le_iff_toNat_le] at hle
    omega

/-- The refill of `elapsedMs` milliseconds, as the code computes it. -/
def refill (limits : RateLimits) (elapsedMs : UInt64) : UInt64 :=
  limits.bytesPerSec * min elapsedMs (limits.burst * 1000 / limits.bytesPerSec + 1) / 1000

/-- The refill is at most the exact one, wherever the product wraps. -/
theorem refill_le (limits : RateLimits) (elapsedMs : UInt64) :
    1000 * (refill limits elapsedMs).toNat ≤ limits.bytesPerSec.toNat * elapsedMs.toNat := by
  unfold refill
  generalize limits.burst * 1000 / limits.bytesPerSec + 1 = maxElapsed
  have hcap : (min elapsedMs maxElapsed).toNat ≤ elapsedMs.toNat := by
    rw [toNat_min]
    exact min_le_left _ _
  calc 1000 * (limits.bytesPerSec * min elapsedMs maxElapsed / 1000).toNat
      = 1000 * ((limits.bytesPerSec * min elapsedMs maxElapsed).toNat / 1000) := by
        rw [UInt64.toNat_div]
        rfl
    _ ≤ (limits.bytesPerSec * min elapsedMs maxElapsed).toNat := Nat.mul_div_le _ _
    _ ≤ limits.bytesPerSec.toNat * (min elapsedMs maxElapsed).toNat := by
        rw [UInt64.toNat_mul]
        exact Nat.mod_le _ _
    _ ≤ limits.bytesPerSec.toNat * elapsedMs.toNat := Nat.mul_le_mul_left _ hcap

/-- The tokens after the refill of a call. -/
def refilled (limits : RateLimits) (peer : PeerInfo) (nowMs : UInt64) : UInt64 :=
  min (peer.bucketTokens + refill limits (nowMs - peer.bucketLastRefill)) limits.burst

theorem refilled_le_burst (limits : RateLimits) (peer : PeerInfo) (nowMs : UInt64) :
    (refilled limits peer nowMs).toNat ≤ limits.burst.toNat := by
  rw [refilled, toNat_min]
  exact min_le_right _ _

theorem refilled_le_add (limits : RateLimits) (peer : PeerInfo) (nowMs : UInt64) :
    (refilled limits peer nowMs).toNat ≤
      peer.bucketTokens.toNat + (refill limits (nowMs - peer.bucketLastRefill)).toNat := by
  rw [refilled, toNat_min, UInt64.toNat_add]
  exact (min_le_left _ _).trans (Nat.mod_le _ _)

@[simp] theorem charge_lastRefill (limits : RateLimits) (peer : PeerInfo) (c : Charge) :
    (charge limits peer c).bucketLastRefill = c.nowMs := by
  unfold charge tryConsumeTokens
  dsimp only
  split_ifs <;> rfl

/-- **What a call does to the tokens**: those it has not granted are left. -/
theorem charge_tokens (limits : RateLimits) (peer : PeerInfo) (c : Charge) :
    (charge limits peer c).bucketTokens.toNat +
    (if grants limits peer c then c.bytes.toNat else 0) =
      (refilled limits peer c.nowMs).toNat := by
  have hcall : tryConsumeTokens limits c.nowMs c.bytes peer =
      if c.bytes > refilled limits peer c.nowMs then
        ({ peer with bucketTokens := refilled limits peer c.nowMs, bucketLastRefill := c.nowMs },
          false)
      else
        ({ peer with
            bucketTokens := refilled limits peer c.nowMs - c.bytes, bucketLastRefill :=
            c.nowMs }, true) := rfl
  unfold charge grants
  rw [hcall]
  by_cases hover : c.bytes > refilled limits peer c.nowMs
  · simp [hover]
  · have hle : c.bytes ≤ refilled limits peer c.nowMs := UInt64.not_lt.mp hover
    have hsub := UInt64.toNat_sub_of_le _ _ hle
    have hnat := UInt64.le_iff_toNat_le.mp hle
    simp only [hover, if_false, if_true]
    omega

theorem charge_le_burst (limits : RateLimits) (peer : PeerInfo) (c : Charge) :
    (charge limits peer c).bucketTokens ≤ limits.burst := by
  rw [UInt64.le_iff_toNat_le]
  have htokens := charge_tokens limits peer c
  have hburst := refilled_le_burst limits peer c.nowMs
  omega

/-! ## Whole runs -/

/-- No call after a time grants anything up to that time. -/
theorem grantedBytes_of_lt (limits : RateLimits) :
    ∀ {peer : PeerInfo} {calls : List Charge}, (∀ c ∈ calls, t₂ < c.nowMs) →
    grantedBytes limits t₁ t₂ peer calls = 0
  | _, [], _ => rfl
  | peer, c :: rest, h => by
    have hlate : ¬ c.nowMs ≤ t₂ := UInt64.not_le.mpr (h c List.mem_cons_self)
    rw [grantedBytes, if_neg fun hin => hlate hin.2.1, Nat.zero_add]
    exact grantedBytes_of_lt limits fun c' hc' => h c' (List.mem_cons_of_mem _ hc')

/-- What is granted up to `t₂` comes from the tokens and from the refills since the last one. By
induction on the calls: tokens and refills to come only pass from one call to the next. -/
theorem grantedBytes_le_tokens (limits : RateLimits) (t₁ t₂ : UInt64) :
    ∀ (peer : PeerInfo) {calls : List Charge}, (calls.Pairwise fun a b => a.nowMs ≤ b.nowMs) →
    (∀ c ∈ calls, peer.bucketLastRefill ≤ c.nowMs) →
    peer.bucketLastRefill ≤ t₂ →
    1000 * grantedBytes limits t₁ t₂ peer calls ≤ 1000 * peer.bucketTokens.toNat +
      limits.bytesPerSec.toNat * (t₂.toNat - peer.bucketLastRefill.toNat)
  | peer, [], _, _, _ => Nat.zero_le _
  | peer, c :: rest, hsorted, hsince, hwindow => by
    by_cases hlate : t₂ < c.nowMs
    · have hall : ∀ c' ∈ c :: rest, t₂ < c'.nowMs := by
        intro c' hc'
        rcases List.mem_cons.mp hc' with rfl | hrest
        · exact hlate
        · exact UInt64.lt_of_lt_of_le hlate (List.rel_of_pairwise_cons hsorted hrest)
      rw [grantedBytes_of_lt limits hall]
      exact Nat.zero_le _
    · have hnow : c.nowMs ≤ t₂ := UInt64.not_lt.mp hlate
      have hlast : peer.bucketLastRefill ≤ c.nowMs := hsince c List.mem_cons_self
      have ih : 1000 * grantedBytes limits t₁ t₂ (charge limits peer c) rest ≤
          1000 * (charge limits peer c).bucketTokens.toNat +
            limits.bytesPerSec.toNat * (t₂.toNat - c.nowMs.toNat) := by
        have hstep := grantedBytes_le_tokens limits t₁ t₂ (charge limits peer c)
          (List.Pairwise.of_cons hsorted)
        rw [charge_lastRefill] at hstep
        exact hstep (fun c' hc' => List.rel_of_pairwise_cons hsorted hc') hnow
      have htokens := charge_tokens limits peer c
      have hadd := refilled_le_add limits peer c.nowMs
      have hrefill := refill_le limits (c.nowMs - peer.bucketLastRefill)
      rw [UInt64.toNat_sub_of_le _ _ hlast] at hrefill
      have hgrant :
        (if t₁ ≤ c.nowMs ∧ c.nowMs ≤ t₂ ∧ grants limits peer c = true then c.bytes.toNat else 0) ≤
          if grants limits peer c = true then c.bytes.toNat else 0 := by
        split_ifs <;> simp_all
      have htimes : limits.bytesPerSec.toNat * (t₂.toNat - peer.bucketLastRefill.toNat) =
          limits.bytesPerSec.toNat * (c.nowMs.toNat - peer.bucketLastRefill.toNat) +
            limits.bytesPerSec.toNat * (t₂.toNat - c.nowMs.toNat) := by
        rw [← Nat.mul_add]
        have h₁ := UInt64.le_iff_toNat_le.mp hlast
        have h₂ := UInt64.le_iff_toNat_le.mp hnow
        congr 1
        omega
      rw [grantedBytes]
      omega

/-- From any state: the first call of the window finds at most the burst. -/
theorem grantedBytes_le (limits : RateLimits) (t₁ t₂ : UInt64) :
    ∀ (peer : PeerInfo) {calls : List Charge}, (calls.Pairwise fun a b => a.nowMs ≤ b.nowMs) →
    t₁ ≤ t₂ →
    1000 * grantedBytes limits t₁ t₂ peer calls ≤
      1000 * limits.burst.toNat + limits.bytesPerSec.toNat * (t₂.toNat - t₁.toNat)
  | _, [], _, _ => Nat.zero_le _
  | peer, c :: rest, hsorted, hwindow => by
    have hrest : rest.Pairwise fun a b => a.nowMs ≤ b.nowMs := List.Pairwise.of_cons hsorted
    by_cases hin : t₁ ≤ c.nowMs ∧ c.nowMs ≤ t₂
    · have hafter := grantedBytes_le_tokens limits t₁ t₂ (charge limits peer c) hrest
      rw [charge_lastRefill] at hafter
      replace hafter := hafter (fun c' hc' => List.rel_of_pairwise_cons hsorted hc') hin.2
      have htokens := charge_tokens limits peer c
      have hburst := refilled_le_burst limits peer c.nowMs
      have htimes : limits.bytesPerSec.toNat * (t₂.toNat - c.nowMs.toNat) ≤
          limits.bytesPerSec.toNat * (t₂.toNat - t₁.toNat) := by
        have h₁ := UInt64.le_iff_toNat_le.mp hin.1
        exact Nat.mul_le_mul_left _ (by omega)
      rw [grantedBytes]
      simp only [hin.1, hin.2, true_and]
      omega
    · rw [grantedBytes, if_neg fun h => hin ⟨h.1, h.2.1⟩, Nat.zero_add]
      exact grantedBytes_le limits t₁ t₂ _ hrest hwindow

/-- **The bucket is a bound**: at every point of a sequence of calls at non-decreasing times there
are at most `burst` tokens, and what the calls of any window of time have been granted is at most
the burst and the exact refill of the window. -/
theorem token_bucket_bound (limits : RateLimits) (peer : PeerInfo)
    (hstart : peer.bucketTokens ≤ limits.burst) (calls : List Charge)
    (hsorted : calls.Pairwise fun a b => a.nowMs ≤ b.nowMs) :
    (∀ before, before <+: calls → (run (charge limits) peer before).bucketTokens ≤ limits.burst) ∧
    ∀ t₁ t₂, t₁ ≤ t₂ → grantedBytes limits t₁ t₂ peer calls ≤
      limits.burst.toNat + limits.bytesPerSec.toNat * (t₂.toNat - t₁.toNat) / 1000 := by
  constructor
  · rintro before -
    induction before using List.reverseRecOn with
    | nil => exact hstart
    | append_singleton before c _ =>
      rw [run_append, run_cons, run_nil]
      exact charge_le_burst limits _ c
  · intro t₁ t₂ hwindow
    have hbound := grantedBytes_le limits t₁ t₂ peer hsorted hwindow
    omega

/-- A bucket that is emptied at once, half filled again and then too small: the window from 0 to 500
is granted as much as it can be. -/
theorem token_bucket_bound_tight :
    let limits : RateLimits := { bytesPerSec := 1000, burst := 2000 }
    let peer : PeerInfo :=
      { connection := { id := 0, peerPubkey := Sample.key 1, peerRole := .peer
                        isInitiator := false }
        address := "", role := .peer, bucketTokens := 2000, bucketLastRefill := 0
        lastMessageTime := 0 }
    let calls : List Charge := [⟨0, 2000⟩, ⟨500, 500⟩, ⟨600, 500⟩]
    (run (charge limits) peer calls).bucketTokens ≤ limits.burst ∧
    grantedBytes limits 0 500 peer calls = 2500 ∧
    grantedBytes limits 0 500 peer calls ≤ 2000 + 1000 * (500 - 0) / 1000 := by
  intro limits peer calls
  obtain ⟨htokens, hgranted⟩ := token_bucket_bound limits peer (by decide) calls (by decide)
  exact ⟨htokens calls (List.prefix_refl calls), by decide, hgranted 0 500 (by decide)⟩

end Peer.ConnectionManager
