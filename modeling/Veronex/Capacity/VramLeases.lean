import Veronex.Foundation.Totals
import Veronex.Foundation.Trace
import Mathlib.Data.List.Nodup

/-! # VRAM leases in Valkey

The three scripts of `infrastructure/outbound/capacity/distributed_vram_pool.rs` on the two keys of
one provider: `vram_reserved`, a hash from instance to MB, and `vram_leases`, a sorted set of texts
`instance_id|lease_id|kv_mb` with their expiry in seconds. A member is kept here as the lease it was
printed from, which its text determines (`member_injective`); the reaper gets the text and takes it
apart again. Megabytes stay far below 10^14, so Lua prints them with all their digits.

A reservation spawns two tasks, one that acquires the lease and one that releases it when the permit
has been dropped; nothing orders them. `reserved_exact_iff` says in which runs the hash is the sum of
the leases.
-/
namespace Veronex
set_option autoImplicit false
open Concurrency

/-! ## Members -/

/-- `Uuid::new_v4().to_string()`: hexadecimal digits and hyphens. -/
structure LeaseId where
  text : List Char
  nonempty : text ≠ []
  pipeFree : '|' ∉ text
  deriving DecidableEq

structure Lease where
  instanceId : List Char
  leaseId : LeaseId
  kvMb : ℕ
  deriving DecidableEq

/-- `gmatch('[^|]+')`: the non-empty runs between pipes. -/
def gmatchParts (text : List Char) : List (List Char) := (text.splitOn '|').filter (· ≠ [])

/-- `tonumber` of decimal digits. -/
def tonumber (text : List Char) : Option ℕ :=
  if text.all Char.isDigit then some (Nat.ofDigitChars 10 text 0) else none

namespace Lease

/-- `ARGV[1] .. '|' .. ARGV[2] .. '|' .. kv`. -/
def member (l : Lease) : List Char :=
  l.instanceId ++ '|' :: (l.leaseId.text ++ '|' :: Nat.toDigits 10 l.kvMb)

/-- The instance id is one that `gmatch` gives back. -/
def NamesInstance (l : Lease) : Prop := l.instanceId ≠ [] ∧ '|' ∉ l.instanceId

instance : DecidablePred NamesInstance := fun _ => inferInstanceAs (Decidable (_ ∧ _))

end Lease

theorem notMem_of_mem_splitOn {c : Char} {text part : List Char} (h : part ∈ text.splitOn c) :
    c ∉ part := by
  induction text generalizing part with
  | nil =>
    rw [List.splitOn_nil, List.mem_singleton] at h
    simp [h]
  | cons d text ih =>
    rw [List.splitOn_cons_eq_if_modifyHead] at h
    split at h
    · rcases List.mem_cons.mp h with rfl | h
      · simp
      · exact ih h
    · next hd =>
      obtain ⟨first, rest, hsplit⟩ := List.exists_cons_of_ne_nil (List.splitOn_ne_nil c text)
      rw [hsplit, List.modifyHead_cons] at h
      rcases List.mem_cons.mp h with rfl | h
      · have hfirst : c ∉ first := ih (hsplit ▸ List.mem_cons_self)
        have hne : c ≠ d := fun heq => hd (by simp [heq])
        simp [hne, hfirst]
      · exact ih (hsplit ▸ List.mem_cons_of_mem _ h)

theorem pipe_notMem_digits (n : ℕ) : '|' ∉ Nat.toDigits 10 n := by
  intro h
  have hdigit := Nat.isDigit_of_mem_toDigits (by decide) (by decide) h
  revert hdigit
  decide

theorem tonumber_digits (n : ℕ) : tonumber (Nat.toDigits 10 n) = some n := by
  have hall : (Nat.toDigits 10 n).all Char.isDigit := by
    rw [List.all_eq_true]
    exact fun c hc => Nat.isDigit_of_mem_toDigits (by decide) (by decide) hc
  rw [tonumber, if_pos hall, Nat.ofDigitChars_ten_toDigits]

namespace Lease

theorem splitOn_member (l : Lease) :
    l.member.splitOn '|' =
      l.instanceId.splitOn '|' ++ [l.leaseId.text, Nat.toDigits 10 l.kvMb] := by
  have hid : l.leaseId.text.splitOn '|' = [l.leaseId.text] :=
    List.splitOn_eq_singleton l.leaseId.pipeFree
  have hkv : (Nat.toDigits 10 l.kvMb).splitOn '|' = [Nat.toDigits 10 l.kvMb] :=
    List.splitOn_eq_singleton (pipe_notMem_digits _)
  rw [member, List.splitOn_append_cons_self, List.splitOn_append_cons_self, hid, hkv]
  rfl

/-- The text of a member determines the lease. -/
theorem member_injective {l l' : Lease} (h : l.member = l'.member) : l = l' := by
  have hsplit : l.member.splitOn '|' = l'.member.splitOn '|' := by rw [h]
  rw [splitOn_member, splitOn_member] at hsplit
  obtain ⟨hinst, htail⟩ := List.append_inj' hsplit rfl
  have hid : l.leaseId.text = l'.leaseId.text := (List.cons.inj htail).1
  have hdigits : Nat.toDigits 10 l.kvMb = Nat.toDigits 10 l'.kvMb :=
    (List.cons.inj (List.cons.inj htail).2).1
  have hkv : some l.kvMb = some l'.kvMb := by
    rw [← tonumber_digits, hdigits, tonumber_digits]
  have hinstance : l.instanceId = l'.instanceId := by
    have hjoin := congrArg (fun parts => ['|'].intercalate parts) hinst
    simpa only [List.intercalate_splitOn] using hjoin
  cases l with
  | mk inst lid kv =>
    cases l' with
    | mk inst' lid' kv' =>
      cases lid
      cases lid'
      simp_all

/-- What the reaper finds in a member. -/
theorem gmatchParts_member (l : Lease) :
    gmatchParts l.member =
      gmatchParts l.instanceId ++ [l.leaseId.text, Nat.toDigits 10 l.kvMb] := by
  have hid : l.leaseId.text ≠ [] := l.leaseId.nonempty
  have hkv : Nat.toDigits 10 l.kvMb ≠ [] := Nat.toDigits_ne_nil
  simp [gmatchParts, splitOn_member, hid, hkv]

end Lease

theorem gmatchParts_eq_self {text : List Char} (hne : text ≠ []) (hpipe : '|' ∉ text) :
    gmatchParts text = [text] := by
  simp [gmatchParts, List.splitOn_eq_singleton hpipe, hne]

theorem of_mem_gmatchParts {text part : List Char} (h : part ∈ gmatchParts text) :
    part ≠ [] ∧ '|' ∉ part := by
  obtain ⟨hsplit, hne⟩ := List.mem_filter.mp h
  exact ⟨by simpa using hne, notMem_of_mem_splitOn hsplit⟩

/-! ## The scripts -/

/-- The two keys of a provider. -/
structure LeaseStore where
  vramReserved : AList (fun _ : List Char => ℕ)
  vramLeases : AList (fun _ : Lease => ℕ)

namespace LeaseStore

def empty : LeaseStore := { vramReserved := ∅, vramLeases := ∅ }

variable (store : LeaseStore)

/-- `tonumber(HGET .. or '0')`. -/
def field (inst : List Char) : ℕ := (store.vramReserved.lookup inst).getD 0

def setField (inst : List Char) (mb : ℕ) : LeaseStore :=
  { store with vramReserved := store.vramReserved.insert inst mb }

/-- The deduction that the release and the reaper share. -/
def deduct (inst : List Char) (kv : ℕ) : LeaseStore :=
  if kv ≤ store.field inst then store.setField inst (store.field inst - kv)
  else store.setField inst 0

/-- `ZREM`. -/
def zrem (l : Lease) : LeaseStore := { store with vramLeases := store.vramLeases.erase l }

/-- `LUA_VRAM_ACQUIRE`; `now` is the server's clock in seconds. -/
def luaVramAcquire (now duration : ℕ) (l : Lease) : LeaseStore :=
  let reserved := store.setField l.instanceId (store.field l.instanceId + l.kvMb)
  { reserved with vramLeases := reserved.vramLeases.insert l (now + duration) }

/-- `LUA_VRAM_RELEASE`: the deduction does not ask whether the lease is there. -/
def luaVramRelease (l : Lease) : LeaseStore := (store.deduct l.instanceId l.kvMb).zrem l

/-- `ZRANGEBYSCORE -inf now`, in the order of the entries: the deductions of a reap commute. -/
def expired (now : ℕ) : List Lease :=
  (store.vramLeases.entries.filter fun e => e.2 ≤ now).map Sigma.fst

/-- One turn of the reaper's loop. -/
def reapMember (l : Lease) : LeaseStore :=
  let removed := store.zrem l
  let parts := gmatchParts l.member
  if 3 ≤ parts.length then
    let inst := parts.headD []
    let kv := (tonumber (parts.getLastD [])).getD 0
    if 0 < kv then removed.deduct inst kv else removed
  else removed

/-- `LUA_VRAM_REAP`, with the count it returns. -/
def luaVramReap (now : ℕ) : LeaseStore × ℕ :=
  ((store.expired now).foldl reapMember store, (store.expired now).length)

end LeaseStore

def LEASE_DURATION_SECS : ℕ := 120

/-! ## The tasks of the permits -/

/-- What `try_reserve` spawned for a permit. -/
structure PermitTasks where
  lease : Lease
  acquired : Bool
  dropped : Bool
  released : Bool

structure VramLeases where
  store : LeaseStore
  permits : List PermitTasks

def VramLeases.init : VramLeases := { store := .empty, permits := [] }

/-- What can happen next, on any instance. A script whose evaluation fails never happens. -/
inductive LeaseEvent
  /-- The local pool has granted `kvMb`; the lease id is new. -/
  | tryReserve (l : Lease)
  | runAcquire (i now : ℕ)
  | dropPermit (i : ℕ)
  | runRelease (i : ℕ)
  | reap (now : ℕ)

namespace VramLeases
variable (m : VramLeases)

def setPermit (i : ℕ) (p : PermitTasks) : VramLeases := { m with permits := m.permits.set i p }

/-- Nothing happens where the event cannot occur. -/
def step : LeaseEvent → VramLeases
  | .tryReserve l =>
    if l.leaseId ∈ m.permits.map (·.lease.leaseId) then m
    else { m with permits := m.permits ++ [⟨l, false, false, false⟩] }
  | .runAcquire i now =>
    match m.permits[i]? with
    | some p =>
      if p.acquired then m
      else
        { m.setPermit i { p with acquired := true } with
          store := m.store.luaVramAcquire now LEASE_DURATION_SECS p.lease }
    | none => m
  | .dropPermit i =>
    match m.permits[i]? with
    | some p => m.setPermit i { p with dropped := true }
    | none => m
  | .runRelease i =>
    match m.permits[i]? with
    | some p =>
      if p.dropped ∧ ¬ p.released then
        { m.setPermit i { p with released := true } with store := m.store.luaVramRelease p.lease }
      else m
    | none => m
  | .reap now => { m with store := (m.store.luaVramReap now).1 }

end VramLeases

/-! ## The hash as the sum of the leases -/

namespace LeaseStore
variable {store : LeaseStore} {l : Lease}

/-- What a lease counts for in the field of an instance. -/
def shareOf (inst : List Char) (l : Lease) : ℕ := if l.instanceId = inst then l.kvMb else 0

/-- The sum of `kv` over the members of an instance. -/
def leasedKv (store : LeaseStore) (inst : List Char) : ℕ :=
  total (fun l _ => shareOf inst l) store.vramLeases

def ReservedExact (store : LeaseStore) : Prop :=
  ∀ inst, store.field inst = store.leasedKv inst

theorem field_setField (store : LeaseStore) (inst : List Char) (mb : ℕ) (j : List Char) :
    (store.setField inst mb).field j = if j = inst then mb else store.field j := by
  unfold field setField
  by_cases hj : j = inst
  · subst hj
    simp
  · simp [AList.lookup_insert_ne hj, hj]

/-- The clamp is the truncated subtraction. -/
theorem field_deduct (store : LeaseStore) (inst : List Char) (kv : ℕ) (j : List Char) :
    (store.deduct inst kv).field j =
      if j = inst then store.field j - kv else store.field j := by
  unfold deduct
  split
  · rw [field_setField]
    split
    · next hj => rw [hj]
    · rfl
  · next hlt =>
    rw [field_setField]
    split
    · next hj =>
      rw [hj]
      omega
    · rfl

@[simp] theorem field_zrem (store : LeaseStore) (l : Lease) (j : List Char) :
    (store.zrem l).field j = store.field j := rfl

@[simp] theorem vramLeases_deduct (store : LeaseStore) (inst : List Char) (kv : ℕ) :
    (store.deduct inst kv).vramLeases = store.vramLeases := by
  unfold deduct
  split <;> rfl

theorem leasedKv_zrem (hmem : l ∈ store.vramLeases) (j : List Char) :
    store.leasedKv j = shareOf j l + (store.zrem l).leasedKv j := by
  obtain ⟨expiry, hlookup⟩ := Option.isSome_iff_exists.mp (AList.lookup_isSome.mpr hmem)
  exact total_erase_of_lookup (fun l _ => shareOf j l) hlookup

theorem leasedKv_zrem_of_notMem (hnot : l ∉ store.vramLeases) (j : List Char) :
    (store.zrem l).leasedKv j = store.leasedKv j :=
  total_erase_of_notMem (fun l _ => shareOf j l) hnot

theorem leasedKv_deduct (store : LeaseStore) (inst : List Char) (kv : ℕ) (j : List Char) :
    (store.deduct inst kv).leasedKv j = store.leasedKv j := by
  rw [leasedKv, vramLeases_deduct, leasedKv]

theorem shareOf_self (l : Lease) : shareOf l.instanceId l = l.kvMb := if_pos rfl

theorem shareOf_of_ne {inst : List Char} (h : inst ≠ l.instanceId) : shareOf inst l = 0 :=
  if_neg (Ne.symm h)

/-! ### Acquire and release -/

theorem luaVramAcquire_exact (h : store.ReservedExact) (hnew : l ∉ store.vramLeases)
    (now duration : ℕ) : (store.luaVramAcquire now duration l).ReservedExact := by
  intro inst
  have hfield : (store.luaVramAcquire now duration l).field inst =
      (store.setField l.instanceId (store.field l.instanceId + l.kvMb)).field inst := rfl
  have hleased : (store.luaVramAcquire now duration l).leasedKv inst =
      shareOf inst l + store.leasedKv inst :=
    total_insert_of_notMem (fun l _ => shareOf inst l) hnew _
  have hinst := h inst
  rw [hfield, field_setField, hleased]
  split
  · next heq =>
    subst heq
    rw [shareOf_self, hinst]
    omega
  · next hne =>
    rw [shareOf_of_ne hne]
    omega

/-- The field of the release, whether or not the lease is there. -/
theorem field_luaVramRelease (store : LeaseStore) (l : Lease) (j : List Char) :
    (store.luaVramRelease l).field j =
      if j = l.instanceId then store.field j - l.kvMb else store.field j :=
  field_deduct store l.instanceId l.kvMb j

/-- A lease that is there: its share leaves both sides. -/
theorem removed_exact (h : store.ReservedExact) (hmem : l ∈ store.vramLeases) :
    ((store.zrem l).deduct l.instanceId l.kvMb).ReservedExact := by
  intro inst
  have hsum := leasedKv_zrem hmem inst
  have hinst := h inst
  rw [field_deduct, field_zrem, leasedKv_deduct]
  split
  · next heq =>
    subst heq
    rw [shareOf_self] at hsum
    omega
  · next hne =>
    rw [shareOf_of_ne hne] at hsum
    omega

theorem luaVramRelease_exact_iff (h : store.ReservedExact) :
    (store.luaVramRelease l).ReservedExact ↔
      l ∈ store.vramLeases ∨ l.kvMb = 0 ∨ store.field l.instanceId = 0 := by
  have hleased : ∀ inst, (store.luaVramRelease l).leasedKv inst = (store.zrem l).leasedKv inst := by
    intro inst
    rw [luaVramRelease, leasedKv, zrem, leasedKv, zrem, vramLeases_deduct]
  by_cases hmem : l ∈ store.vramLeases
  · refine iff_of_true (fun inst => ?_) (.inl hmem)
    have hremoved := removed_exact h hmem inst
    rw [leasedKv_deduct, field_deduct, field_zrem] at hremoved
    rw [field_luaVramRelease, hleased]
    exact hremoved
  · have hsame : ∀ inst, (store.luaVramRelease l).leasedKv inst = store.field inst := by
      intro inst
      rw [hleased, leasedKv_zrem_of_notMem hmem, h inst]
    constructor
    · intro hexact
      have hinst := hexact l.instanceId
      rw [hsame, field_luaVramRelease, if_pos rfl] at hinst
      right
      omega
    · intro hzero inst
      rw [hsame, field_luaVramRelease]
      split
      · next heq =>
        subst heq
        rcases hzero with hin | hkv | hfield
        · exact absurd hin hmem
        · omega
        · omega
      · rfl

/-! ### The reaper -/

/-- A turn of the loop, by what `gmatch` finds in the instance id. -/
theorem reapMember_eq (store : LeaseStore) (l : Lease) :
    store.reapMember l =
      match gmatchParts l.instanceId with
      | [] => store.zrem l
      | inst :: _ => if 0 < l.kvMb then (store.zrem l).deduct inst l.kvMb else store.zrem l := by
  unfold reapMember
  rw [l.gmatchParts_member]
  cases gmatchParts l.instanceId with
  | nil => rfl
  | cons inst rest =>
    have hlength : 3 ≤ ((inst :: rest) ++ [l.leaseId.text, Nat.toDigits 10 l.kvMb]).length := by
      simp
    have hlast : ((inst :: rest) ++ [l.leaseId.text, Nat.toDigits 10 l.kvMb]).getLastD [] =
        Nat.toDigits 10 l.kvMb := by
      have hsplit : (inst :: rest) ++ [l.leaseId.text, Nat.toDigits 10 l.kvMb] =
          ((inst :: rest) ++ [l.leaseId.text]) ++ [Nat.toDigits 10 l.kvMb] := by simp
      rw [hsplit, List.getLastD_eq_getLast?, List.getLast?_concat, Option.getD_some]
    dsimp only
    rw [if_pos hlength, hlast, tonumber_digits]
    rfl

@[simp] theorem vramLeases_reapMember (store : LeaseStore) (l : Lease) :
    (store.reapMember l).vramLeases = store.vramLeases.erase l := by
  rw [reapMember_eq]
  split
  · rfl
  · split
    · rw [vramLeases_deduct, zrem]
    · rfl

/-- Where the id names its instance, a reaped lease leaves both sides. -/
theorem reapMember_exact (h : store.ReservedExact) (hmem : l ∈ store.vramLeases)
    (hgood : l.kvMb = 0 ∨ l.NamesInstance) : (store.reapMember l).ReservedExact := by
  have hremoved := removed_exact h hmem
  by_cases hkv : l.kvMb = 0
  · -- nothing is deducted, and the truncated subtraction of 0 is nothing either
    have hreap : store.reapMember l = store.zrem l := by
      rw [reapMember_eq, hkv]
      split <;> rfl
    rw [hreap]
    intro inst
    have hinst := hremoved inst
    rw [leasedKv_deduct, field_deduct, hkv] at hinst
    simpa using hinst
  · obtain ⟨hne, hpipe⟩ := hgood.resolve_left hkv
    rw [reapMember_eq, gmatchParts_eq_self hne hpipe]
    dsimp only
    rw [if_pos (Nat.pos_of_ne_zero hkv)]
    exact hremoved

theorem reapLoop_exact {expired : List Lease} (hnodup : expired.Nodup) (h : store.ReservedExact)
    (hmem : ∀ l ∈ expired, l ∈ store.vramLeases)
    (hgood : ∀ l ∈ expired, l.kvMb = 0 ∨ l.NamesInstance) :
    (expired.foldl reapMember store).ReservedExact := by
  induction expired generalizing store with
  | nil => exact h
  | cons l rest ih =>
    obtain ⟨hnot, hnodup⟩ := List.nodup_cons.mp hnodup
    have hfirst := reapMember_exact h (hmem l List.mem_cons_self) (hgood l List.mem_cons_self)
    refine ih hnodup hfirst (fun k hk => ?_) fun k hk => hgood k (List.mem_cons_of_mem _ hk)
    have hne : k ≠ l := fun heq => hnot (heq ▸ hk)
    rw [vramLeases_reapMember, AList.mem_erase]
    exact ⟨hne, hmem k (List.mem_cons_of_mem _ hk)⟩

/-- A field whose name `gmatch` never gives back is not touched. -/
theorem field_reapMember {inst : List Char} (hbad : inst = [] ∨ '|' ∈ inst) :
    (store.reapMember l).field inst = store.field inst := by
  rw [reapMember_eq]
  split
  · rfl
  · next found rest hparts =>
    have hfound : found ≠ [] ∧ '|' ∉ found :=
      of_mem_gmatchParts (hparts ▸ List.mem_cons_self)
    have hne : inst ≠ found := by
      rintro rfl
      rcases hbad with hnil | hpipe
      · exact hfound.1 hnil
      · exact hfound.2 hpipe
    split
    · rw [field_deduct, if_neg hne, field_zrem]
    · rfl

theorem field_reapLoop {inst : List Char} (hbad : inst = [] ∨ '|' ∈ inst) (expired : List Lease) :
    (expired.foldl reapMember store).field inst = store.field inst := by
  induction expired generalizing store with
  | nil => rfl
  | cons l rest ih => rw [List.foldl_cons, ih, field_reapMember hbad]

theorem leasedKv_reapMember (l : Lease) (j : List Char) :
    (store.reapMember l).leasedKv j = (store.zrem l).leasedKv j := by
  rw [leasedKv, vramLeases_reapMember, leasedKv, zrem]

theorem leasedKv_zrem_le (l : Lease) (j : List Char) :
    (store.zrem l).leasedKv j ≤ store.leasedKv j := by
  by_cases hmem : l ∈ store.vramLeases
  · have hsum := leasedKv_zrem hmem j
    omega
  · rw [leasedKv_zrem_of_notMem hmem]

theorem leasedKv_reapLoop_le (expired : List Lease) (j : List Char) :
    (expired.foldl reapMember store).leasedKv j ≤ store.leasedKv j := by
  induction expired generalizing store with
  | nil => exact le_rfl
  | cons l rest ih =>
    have hrest := @ih (store.reapMember l)
    rw [leasedKv_reapMember] at hrest
    exact hrest.trans (leasedKv_zrem_le l j)

/-- A reaped lease no longer counts. -/
theorem leasedKv_reapLoop_lt {expired : List Lease} (hl : l ∈ expired)
    (hmem : l ∈ store.vramLeases) :
    (expired.foldl reapMember store).leasedKv l.instanceId + l.kvMb ≤
      store.leasedKv l.instanceId := by
  induction expired generalizing store with
  | nil => cases hl
  | cons k rest ih =>
    rw [List.foldl_cons]
    by_cases heq : l = k
    · subst heq
      have hsum := leasedKv_zrem hmem l.instanceId
      have hrest := @leasedKv_reapLoop_le (store.reapMember l) rest l.instanceId
      rw [leasedKv_reapMember] at hrest
      rw [shareOf_self] at hsum
      omega
    · have hrest : l ∈ rest := (List.mem_cons.mp hl).resolve_left heq
      have hkept : l ∈ (store.reapMember k).vramLeases := by
        rw [vramLeases_reapMember, AList.mem_erase]
        exact ⟨heq, hmem⟩
      have hloop := ih hrest hkept
      have hle := @leasedKv_zrem_le store k l.instanceId
      rw [leasedKv_reapMember] at hloop
      exact hloop.trans hle

theorem mem_of_mem_reapLoop {expired : List Lease}
    (h : l ∈ (expired.foldl reapMember store).vramLeases) : l ∈ store.vramLeases := by
  induction expired generalizing store with
  | nil => exact h
  | cons k rest ih =>
    have hkept := ih h
    rw [vramLeases_reapMember, AList.mem_erase] at hkept
    exact hkept.2

theorem mem_of_mem_expired {now : ℕ} (h : l ∈ store.expired now) : l ∈ store.vramLeases := by
  obtain ⟨e, he, rfl⟩ := List.mem_map.mp h
  exact AList.mem_keys.mpr (List.mem_map_of_mem (List.mem_filter.mp he).1)

theorem expired_nodup (store : LeaseStore) (now : ℕ) : (store.expired now).Nodup := by
  have hkeys : store.vramLeases.entries.keys.Nodup := store.vramLeases.nodupKeys
  exact (List.filter_sublist.map _).nodup hkeys

theorem luaVramReap_exact_iff (h : store.ReservedExact) (now : ℕ) :
    (store.luaVramReap now).1.ReservedExact ↔
      ∀ l ∈ store.expired now, l.kvMb = 0 ∨ l.NamesInstance := by
  constructor
  · intro hexact l hl
    by_contra hbad
    obtain ⟨hkv, hname⟩ := not_or.mp hbad
    have hinst : l.instanceId = [] ∨ '|' ∈ l.instanceId := by
      by_contra hgood
      obtain ⟨hne, hpipe⟩ := not_or.mp hgood
      exact hname ⟨hne, hpipe⟩
    have hless := leasedKv_reapLoop_lt hl (mem_of_mem_expired hl)
    have hafter : ((store.expired now).foldl reapMember store).field l.instanceId =
        ((store.expired now).foldl reapMember store).leasedKv l.instanceId := hexact l.instanceId
    rw [field_reapLoop hinst, h l.instanceId] at hafter
    omega
  · exact reapLoop_exact (store.expired_nodup now) h fun l hl => mem_of_mem_expired hl

end LeaseStore

/-! ## Runs -/

/-- The condition under which an event leaves the hash exact. -/
def LeaseEvent.KeepsReserved (m : VramLeases) : LeaseEvent → Prop
  | .runRelease i =>
    -- the lease is still there, or there is nothing to deduct
    ∀ p, m.permits[i]? = some p → p.dropped → p.released = false →
      p.lease ∈ m.store.vramLeases ∨ p.lease.kvMb = 0 ∨ m.store.field p.lease.instanceId = 0
  | .reap now =>
    -- the reaper reads the instance back from the member
    ∀ l ∈ m.store.expired now, l.kvMb = 0 ∨ l.NamesInstance
  | .tryReserve _ | .runAcquire .. | .dropPermit _ => True

namespace VramLeases
variable {m : VramLeases} {i : ℕ} {p p' : PermitTasks}

/-- A lease id belongs to one permit, and a lease is there only after its task has acquired it. -/
structure Owned (m : VramLeases) : Prop where
  ids : (m.permits.map (·.lease.leaseId)).Nodup
  acquired : ∀ l ∈ m.store.vramLeases, ∃ (i : ℕ) (p : PermitTasks),
    m.permits[i]? = some p ∧ p.lease = l ∧ p.acquired

theorem Owned.store_sub {store : LeaseStore} (h : m.Owned)
    (hsub : ∀ l ∈ store.vramLeases, l ∈ m.store.vramLeases) : Owned { m with store } :=
  ⟨h.ids, fun l hl => h.acquired l (hsub l hl)⟩

/-- A permit's tasks advance. -/
theorem Owned.setPermit (h : m.Owned) (hi : m.permits[i]? = some p) (hlease : p'.lease = p.lease)
    (hacquired : p.acquired → p'.acquired) : (m.setPermit i p').Owned := by
  have hlt : i < m.permits.length := (List.getElem?_eq_some_iff.mp hi).1
  constructor
  · have hmap : (m.permits.set i p').map (·.lease.leaseId) =
        m.permits.map (·.lease.leaseId) := by
      refine List.ext_getElem? fun j => ?_
      rw [List.getElem?_map, List.getElem?_map]
      by_cases hj : i = j
      · subst hj
        rw [List.getElem?_set_self hlt, hi]
        simp [hlease]
      · rw [List.getElem?_set_ne hj]
    rw [VramLeases.setPermit, hmap]
    exact h.ids
  · intro l hl
    obtain ⟨j, q, hj, hq, hacq⟩ := h.acquired l hl
    by_cases heq : i = j
    · subst heq
      have hpq : p = q := Option.some.inj (hi.symm.trans hj)
      subst hpq
      exact ⟨i, p', List.getElem?_set_self hlt, hlease.trans hq, hacquired hacq⟩
    · exact ⟨j, q, (List.getElem?_set_ne heq).trans hj, hq, hacq⟩

/-- The lease of a task that has not acquired it is not there. -/
theorem Owned.notMem_leases (h : m.Owned) (hi : m.permits[i]? = some p)
    (hnot : p.acquired = false) : p.lease ∉ m.store.vramLeases := by
  intro hmem
  obtain ⟨j, q, hj, hq, hacq⟩ := h.acquired p.lease hmem
  have hij : i = j := by
    have hlt : i < (m.permits.map (·.lease.leaseId)).length := by
      rw [List.length_map]
      exact (List.getElem?_eq_some_iff.mp hi).1
    refine (List.getElem?_inj hlt h.ids).mp ?_
    rw [List.getElem?_map, List.getElem?_map, hi, hj]
    simp [hq]
  subst hij
  have hpq : p = q := Option.some.inj (hi.symm.trans hj)
  rw [hpq, hacq] at hnot
  cases hnot

theorem step_owned (h : m.Owned) (e : LeaseEvent) : (m.step e).Owned := by
  cases e with
  | tryReserve l =>
    unfold step
    dsimp only
    split
    · exact h
    · next hnew =>
      constructor
      · rw [List.map_append, List.map_singleton]
        exact List.nodup_append.mpr ⟨h.ids, List.nodup_singleton _, by
          intro a ha b hb
          rw [List.mem_singleton.mp hb]
          rintro rfl
          exact hnew ha⟩
      · intro k hk
        obtain ⟨j, q, hj, hq, hacq⟩ := h.acquired k hk
        have hlt : j < m.permits.length := (List.getElem?_eq_some_iff.mp hj).1
        exact ⟨j, q, (List.getElem?_append_left hlt).trans hj, hq, hacq⟩
  | runAcquire i now =>
    unfold step
    dsimp only
    split
    · next p hi =>
      split
      · exact h
      · have hset : (m.setPermit i { p with acquired := true }).Owned :=
          h.setPermit hi rfl fun _ => rfl
        refine ⟨hset.ids, fun l hl => ?_⟩
        by_cases heq : l = p.lease
        · have hlt : i < m.permits.length := (List.getElem?_eq_some_iff.mp hi).1
          exact ⟨i, _, List.getElem?_set_self hlt, heq.symm, rfl⟩
        · refine hset.acquired l ?_
          have hins : l ∈ m.store.vramLeases.insert p.lease (now + LEASE_DURATION_SECS) := hl
          exact (AList.mem_insert _).mp hins |>.resolve_left heq
    · exact h
  | dropPermit i =>
    unfold step
    dsimp only
    split
    · next p hi => exact h.setPermit hi rfl id
    · exact h
  | runRelease i =>
    unfold step
    dsimp only
    split
    · next p hi =>
      split
      · have hset : (m.setPermit i { p with released := true }).Owned :=
          h.setPermit hi rfl id
        refine hset.store_sub fun l hl => ?_
        have herase : l ∈ (m.store.deduct p.lease.instanceId p.lease.kvMb).vramLeases.erase
            p.lease := hl
        rw [LeaseStore.vramLeases_deduct, AList.mem_erase] at herase
        exact herase.2
      · exact h
    · exact h
  | reap now => exact h.store_sub fun l hl => LeaseStore.mem_of_mem_reapLoop hl

/-- Under the ownership of leases an event keeps the hash exact exactly under its condition. -/
theorem step_exact_iff (h : m.Owned) (hexact : m.store.ReservedExact) (e : LeaseEvent) :
    (m.step e).store.ReservedExact ↔ e.KeepsReserved m := by
  cases e with
  | tryReserve l =>
    refine iff_of_true ?_ trivial
    unfold step
    dsimp only
    split <;> exact hexact
  | runAcquire i now =>
    refine iff_of_true ?_ trivial
    unfold step
    dsimp only
    split
    · next p hi =>
      split
      · exact hexact
      · next hnot =>
        have hnew := h.notMem_leases hi (Bool.eq_false_iff.mpr hnot)
        exact LeaseStore.luaVramAcquire_exact hexact hnew now LEASE_DURATION_SECS
    · exact hexact
  | dropPermit i =>
    refine iff_of_true ?_ trivial
    unfold step
    dsimp only
    split <;> exact hexact
  | runRelease i =>
    unfold step LeaseEvent.KeepsReserved
    dsimp only
    split
    · next p hi =>
      split
      · next hdue =>
        have hrelease := LeaseStore.luaVramRelease_exact_iff (l := p.lease) hexact
        constructor
        · intro hafter q hq _ _
          obtain rfl : p = q := Option.some.inj (hi.symm.trans hq)
          exact hrelease.mp hafter
        · intro hgood
          exact hrelease.mpr (hgood p hi hdue.1 (Bool.eq_false_iff.mpr hdue.2))
      · next hidle =>
        refine iff_of_true hexact fun q hq hdropped hreleased => ?_
        obtain rfl : p = q := Option.some.inj (hi.symm.trans hq)
        exact absurd ⟨hdropped, by simp [hreleased]⟩ hidle
    · next hnone =>
      refine iff_of_true hexact fun q hq _ _ => ?_
      rw [hnone] at hq
      cases hq
  | reap now => exact LeaseStore.luaVramReap_exact_iff hexact now

/-- Every field of `vram_reserved` is the sum of the leases of its instance in every state of a run
exactly if every release finds its lease, or has nothing to deduct, and every lease that expires is
of an instance whose id the reaper reads back. -/
theorem reserved_exact_iff (events : List LeaseEvent) :
    Throughout VramLeases.step VramLeases.init events (fun m => m.store.ReservedExact) ↔
      EveryCall VramLeases.step VramLeases.init events fun m e => e.KeepsReserved m := by
  refine foldl_exact_iff (I := Owned) ?_ ?_ (fun _ e h => step_owned h e)
    (fun _ e h hexact => step_exact_iff h hexact e) events
  · exact ⟨List.nodup_nil, fun l hl => by cases hl⟩
  · intro inst
    rfl

/-- A lease of instance `g`, by its id. -/
def leaseOf (lid : Char) (h : lid ≠ '|') (kvMb : ℕ) : Lease :=
  ⟨['g'], ⟨[lid], by simp, by simpa using h.symm⟩, kvMb⟩

/-- A request outlives its lease: reaped at 120 s, it is deducted again when its permit is dropped,
from the field that another permit of the instance still accounts for. -/
theorem release_after_reap_deducts_twice :
    ¬ ∀ events, Throughout VramLeases.step VramLeases.init events
      fun m => m.store.ReservedExact := by
  intro hall
  let events : List LeaseEvent :=
    [.tryReserve (leaseOf 'a' (by decide) 100), .tryReserve (leaseOf 'b' (by decide) 100),
      .runAcquire 0 0, .reap 120, .runAcquire 1 120, .dropPermit 0, .runRelease 0]
  have hexact : (events.foldl VramLeases.step VramLeases.init).store.ReservedExact :=
    hall events events (List.prefix_refl _)
  have hinst := hexact ['g']
  revert hinst
  decide

end VramLeases

end Veronex
