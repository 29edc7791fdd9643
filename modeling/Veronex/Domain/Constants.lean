import Veronex.Domain.Values

/-! # Constants of `domain/constants.rs` that the job lifecycle uses -/
namespace Veronex
set_option autoImplicit false

def MAX_QUEUE_SIZE : ℕ := 10000
def MAX_QUEUE_PER_MODEL : ℤ := 2000

/-- `u64::MAX`, the limits the lease reaper enqueues with. -/
def U64_MAX : ℕ := 2 ^ 64 - 1

def TIER_BONUS_PAID : Millis := 300000
def TIER_BONUS_STANDARD : Millis := 100000
def TIER_BONUS_TEST : Millis := 0

def LEASE_TTL_MS : Millis := 90000
def LEASE_RENEW_INTERVAL_SECS : ℕ := 30
def LEASE_MAX_ATTEMPTS : ℕ := 2
def MAX_NO_PROVIDER_ATTEMPTS : ℤ := 3
def MAX_QUEUE_WAIT_SECS : ℕ := 300

def ZSET_PEEK_K : ℕ := 20
def ZSET_PEEK_K_MAX : ℕ := 100

/-- `JOB_CLEANUP_DELAY` (60 s). -/
def JOB_CLEANUP_DELAY : Millis := 60000

/-- `OWNERSHIP_LOST_CLEANUP_DELAY` (5 s). -/
def OWNERSHIP_LOST_CLEANUP_DELAY : Millis := 5000

/-- `OWNER_REFRESH_INTERVAL` (60 s). -/
def OWNER_REFRESH_INTERVAL : Millis := 60000

/-- The age at which the sweeper drops a pending entry (10 min). -/
def SWEEP_MAX_AGE : Millis := 600000

def MAX_TOKENS_PER_JOB : ℕ := 100000
def TPM_ESTIMATED_TOKENS : ℤ := 500

end Veronex
