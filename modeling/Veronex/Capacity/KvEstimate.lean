import Mathlib.Algebra.Order.Ring.Nat
import Veronex.Capacity.SyncProvider

/-! # The KV cache of a request

`compute_kv_per_request_mb` (`infrastructure/outbound/capacity/analyzer.rs`) multiplies in 64 bits
and narrows the megabytes to 32. Both wrap.

`exact_iff`: for which profiles the estimate is the product of the fields.
-/
namespace Veronex.Analyzer
set_option autoImplicit false

/-- The fields are of 32 bits. -/
structure U32Profile extends ModelArchProfile where
  numLayers_lt : numLayers < U32
  numKvHeads_lt : numKvHeads < U32
  headDim_lt : headDim < U32
  maxCtx_lt : maxCtx < U32
  configuredCtx_lt : configuredCtx < U32

def effectiveCtx (arch : ModelArchProfile) : ℕ :=
  if 0 < arch.configuredCtx ∧ 0 < arch.maxCtx then min arch.configuredCtx arch.maxCtx
  else if 0 < arch.configuredCtx then arch.configuredCtx
  else if 0 < arch.maxCtx then arch.maxCtx
  else 4096

/-- `avg` is the sum of the two averages as an integer. -/
def tokens (arch : ModelArchProfile) (avg : ℕ) : ℕ := min (max avg 128) (effectiveCtx arch)

def kvBytesPerToken (arch : ModelArchProfile) (bytesPerElement : ℕ) : ℕ :=
  2 * arch.numLayers % U64 * arch.numKvHeads % U64 * arch.headDim % U64 * bytesPerElement % U64

def computeKvPerRequestMb (arch : ModelArchProfile) (avg bytesPerElement : ℕ) : ℕ :=
  if arch.numLayers = 0 then 128
  else max (kvBytesPerToken arch bytesPerElement * tokens arch avg % U64 / 1048576) 32 % U32

/-! ## Without a width -/

section Estimate
variable (arch : ModelArchProfile) (avg bytesPerElement : ℕ)

def kvBytes : ℕ :=
  2 * arch.numLayers * arch.numKvHeads * arch.headDim * bytesPerElement * tokens arch avg

/-- What is multiplied in 64 bits, from left to right. -/
def products : List ℕ :=
  [2 * arch.numLayers, 2 * arch.numLayers * arch.numKvHeads,
    2 * arch.numLayers * arch.numKvHeads * arch.headDim,
    2 * arch.numLayers * arch.numKvHeads * arch.headDim * bytesPerElement,
    kvBytes arch avg bytesPerElement]

/-- The estimate is the product in megabytes, and nothing is wrapped on the way. -/
structure Exact : Prop where
  products_lt : ∀ p ∈ products arch avg bytesPerElement, p < U64
  cast_lt : max (kvBytes arch avg bytesPerElement / 1048576) 32 < U32
  value : computeKvPerRequestMb arch avg bytesPerElement =
    max 32 (kvBytes arch avg bytesPerElement / 1048576)

variable {arch avg bytesPerElement}

theorem kvBytesPerToken_eq : kvBytesPerToken arch bytesPerElement =
    2 * arch.numLayers * arch.numKvHeads * arch.headDim * bytesPerElement % U64 := by
  simp only [kvBytesPerToken, Nat.mod_mul_mod]

theorem computeKvPerRequestMb_eq (hlayers : 0 < arch.numLayers) :
    computeKvPerRequestMb arch avg bytesPerElement =
      max (kvBytes arch avg bytesPerElement % U64 / 1048576) 32 % U32 := by
  rw [computeKvPerRequestMb, if_neg hlayers.ne', kvBytesPerToken_eq, Nat.mod_mul_mod, kvBytes]

/-- A wrapped estimate is too low. -/
theorem computeKvPerRequestMb_le (hlayers : 0 < arch.numLayers) :
    computeKvPerRequestMb arch avg bytesPerElement ≤
      max 32 (kvBytes arch avg bytesPerElement / 1048576) := by
  have hwrapped := Nat.mod_le (kvBytes arch avg bytesPerElement) U64
  have hmb := Nat.div_le_div_right (c := 1048576) hwrapped
  rw [computeKvPerRequestMb_eq hlayers]
  exact (Nat.mod_le _ _).trans (by omega)

theorem effectiveCtx_pos : 0 < effectiveCtx arch := by
  unfold effectiveCtx
  split
  · omega
  · split
    · omega
    · split
      · omega
      · omega

theorem tokens_pos : 0 < tokens arch avg := by
  have hctx : 0 < effectiveCtx arch := effectiveCtx_pos
  unfold tokens
  omega

/-- The estimate that a synchronization of the pool takes has one byte per element. -/
theorem syncProvider_estimate {stats : ThroughputStats} (havg : 128 ≤ stats.avgTokens) :
    Veronex.computeKvPerRequestMb arch stats = computeKvPerRequestMb arch stats.avgTokens 1 := by
  have hclamped : max stats.avgTokens 128 = stats.avgTokens := by omega
  rw [Veronex.computeKvPerRequestMb, computeKvPerRequestMb, kvBytesPerToken_eq, tokens, hclamped,
    Nat.mul_one]
  rfl

end Estimate

/-! ## Bounds -/

section Bounds
variable {a : U32Profile} {avg bytesPerElement : ℕ}

theorem Exact.kvBytes_lt (h : Exact a.toModelArchProfile avg bytesPerElement) :
    kvBytes a.toModelArchProfile avg bytesPerElement < 2 ^ 52 := by
  have hcast := h.cast_lt
  unfold U32 at hcast
  omega

/-- Every product is below the last one, unless that is 0. -/
theorem products_lt (hlayers : 0 < a.numLayers)
    (hlt : kvBytes a.toModelArchProfile avg bytesPerElement < 2 ^ 52)
    (hzero : a.headDim * bytesPerElement = 0 →
      2 * a.numLayers * a.numKvHeads * max a.headDim 1 < U64) :
    ∀ p ∈ products a.toModelArchProfile avg bytesPerElement, p < U64 := by
  have htokens : 0 < tokens a.toModelArchProfile avg := tokens_pos
  have hl := a.numLayers_lt
  have hdouble : 2 * a.numLayers < U64 := by
    unfold U32 at hl
    unfold U64
    omega
  have hpos : 0 < U64 := by decide
  by_cases hheads : a.numKvHeads = 0
  · simp [products, kvBytes, hheads, hdouble, hpos]
  by_cases hdim : a.headDim * bytesPerElement = 0
  · have hbound := hzero hdim
    have hpair : 2 * a.numLayers * a.numKvHeads < U64 :=
      (Nat.le_mul_of_pos_right _ (by omega)).trans_lt hbound
    have htriple : 2 * a.numLayers * a.numKvHeads * a.headDim < U64 :=
      (Nat.mul_le_mul_left _ (le_max_left _ _)).trans_lt hbound
    have hrest : 2 * a.numLayers * a.numKvHeads * a.headDim * bytesPerElement = 0 := by
      rw [Nat.mul_assoc, hdim, Nat.mul_zero]
    simp [products, kvBytes, hrest, hdouble, hpair, htriple, hpos]
  · obtain ⟨hd, hb⟩ := Nat.mul_ne_zero_iff.mp hdim
    have hfour : 2 * a.numLayers * a.numKvHeads * a.headDim * bytesPerElement ≤
        kvBytes a.toModelArchProfile avg bytesPerElement := Nat.le_mul_of_pos_right _ htokens
    have hthree : 2 * a.numLayers * a.numKvHeads * a.headDim ≤
        2 * a.numLayers * a.numKvHeads * a.headDim * bytesPerElement :=
      Nat.le_mul_of_pos_right _ (Nat.pos_of_ne_zero hb)
    have htwo : 2 * a.numLayers * a.numKvHeads ≤ 2 * a.numLayers * a.numKvHeads * a.headDim :=
      Nat.le_mul_of_pos_right _ (Nat.pos_of_ne_zero hd)
    have hu : (2 : ℕ) ^ 52 < U64 := by decide
    intro p hp
    simp only [products, List.mem_cons, List.not_mem_nil, or_false] at hp
    omega

/-- The estimate is exact if the product is below `2 ^ 52`; where the dimension or the element size
is 0, and the product with it, the products before it count. -/
theorem exact_iff (a : U32Profile) (avg bytesPerElement : ℕ) (hlayers : 0 < a.numLayers) :
    Exact a.toModelArchProfile avg bytesPerElement ↔
      2 * a.numLayers * a.numKvHeads * a.headDim * bytesPerElement *
          tokens a.toModelArchProfile avg < 2 ^ 52 ∧
      (a.headDim * bytesPerElement = 0 →
        2 * a.numLayers * a.numKvHeads * max a.headDim 1 < U64) := by
  constructor
  · intro h
    refine ⟨h.kvBytes_lt, fun _ => ?_⟩
    have hpair : 2 * a.numLayers * a.numKvHeads < U64 := h.products_lt _ (by simp [products])
    have htriple : 2 * a.numLayers * a.numKvHeads * a.headDim < U64 :=
      h.products_lt _ (by simp [products])
    rcases Nat.eq_zero_or_pos a.headDim with hd | hd
    · simpa [hd] using hpair
    · rwa [Nat.max_eq_left hd]
  · rintro ⟨hlt, hzero⟩
    have hbytes : kvBytes a.toModelArchProfile avg bytesPerElement < 2 ^ 52 := hlt
    have hu : (2 : ℕ) ^ 52 < U64 := by decide
    have hcast : max (kvBytes a.toModelArchProfile avg bytesPerElement / 1048576) 32 < U32 := by
      unfold U32
      omega
    refine ⟨products_lt hlayers hbytes hzero, hcast, ?_⟩
    rw [computeKvPerRequestMb_eq hlayers, Nat.mod_eq_of_lt (hbytes.trans hu), Nat.mod_eq_of_lt hcast,
      Nat.max_comm]

end Bounds

/-- A model of 64 layers with 8 KV heads of dimension 128. -/
def servedProfile : U32Profile where
  numLayers := 64
  numKvHeads := 8
  headDim := 128
  maxCtx := 131072
  configuredCtx := 32768
  numLayers_lt := by decide
  numKvHeads_lt := by decide
  headDim_lt := by decide
  maxCtx_lt := by decide
  configuredCtx_lt := by decide

theorem servedProfile_exact : Exact servedProfile.toModelArchProfile 4000 1 :=
  (exact_iff servedProfile 4000 1 (by decide)).mpr (by decide)

/-- Every field but the contexts is `2 ^ 16`. -/
def declaredProfile : U32Profile where
  numLayers := 65536
  numKvHeads := 65536
  headDim := 65536
  maxCtx := 131072
  configuredCtx := 0
  numLayers_lt := by decide
  numKvHeads_lt := by decide
  headDim_lt := by decide
  maxCtx_lt := by decide
  configuredCtx_lt := by decide

/-- The megabytes are `2 ^ 36`, of which the lower half is left: not even the minimum of 32. -/
theorem declaredProfile_estimated_zero :
    computeKvPerRequestMb declaredProfile.toModelArchProfile 128 1 = 0 ∧
      ¬ Exact declaredProfile.toModelArchProfile 128 1 := by
  have hzero : computeKvPerRequestMb declaredProfile.toModelArchProfile 128 1 = 0 := by decide
  refine ⟨hzero, fun h => ?_⟩
  have hvalue := h.value
  rw [hzero] at hvalue
  omega

end Veronex.Analyzer
