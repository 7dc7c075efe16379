import Chromatin.Peer.ConnectionManager

/-!
# The byte budget of a peer (`peer/message_dispatcher.cpp`)

Every message of a peer is charged to its token bucket before it is routed. The bucket fills by
`rate_limit_bytes_per_sec_` and holds at most `rate_limit_burst_`; a rate of 0 disables it. What is
done with a message over the budget is left out.

All quantities are `uint64_t`. The products and the sum of `try_consume_tokens` may wrap, and so
does the difference of two times when the clock of the first refill is ahead. -/

namespace Peer

structure RateLimits where
  bytesPerSec : UInt64
  burst : UInt64

/-- The flag says whether there were enough tokens. The caller has checked that the rate is not 0.
-/
def tryConsumeTokens (limits : RateLimits) (nowMs bytes : UInt64)
    (peer : ConnectionManager.PeerInfo) : ConnectionManager.PeerInfo × Bool :=
  let maxElapsed := limits.burst * 1000 / limits.bytesPerSec + 1
  let elapsedMs := min (nowMs - peer.bucketLastRefill) maxElapsed
  let refill := limits.bytesPerSec * elapsedMs / 1000
  let tokens := min (peer.bucketTokens + refill) limits.burst
  let refilled := { peer with bucketTokens := tokens, bucketLastRefill := nowMs }
  if bytes > tokens then (refilled, false)
  else ({ refilled with bucketTokens := tokens - bytes }, true)

end Peer
