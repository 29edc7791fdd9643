import Mathlib.Data.Char
import Mathlib.Data.List.AList
import Veronex.Agent.Exposition
import Veronex.Foundation.KeyedValues
import Veronex.Inference.TokenStream

/-! # Metrics of a node

`parse_prometheus_metrics`, `is_gpu_chip` and `get_label` of `infrastructure/outbound/hw_metrics.rs`.
Positions are characters: every bound of a slice is one that was found. The operations on `f64` are
parameters.
-/
namespace Veronex
set_option autoImplicit false
open Agent (splitWhitespace)
open Agent.NodeExporter (lines)

/-- What the parser does with an `f64`. -/
structure FloatOps (F : Type) where
  /-- `str::parse::<f64>`. -/
  parse : List Char → Option F
  zero : F
  add : F → F → F
  /-- `(b / 1_048_576.0) as u64`. -/
  toMib : F → ℕ

structure CpuSnapshot (F : Type) where
  idle : F
  total : F

structure GpuNodeMetrics (F : Type) where
  card : List Char
  /-- Edge. -/
  tempC : Option F
  /-- Junction. -/
  tempJunctionC : Option F
  /-- Memory. -/
  tempMemC : Option F
  powerW : Option F
  vramUsedMb : Option ℕ
  vramTotalMb : Option ℕ
  busyPct : Option F

structure NodeMetrics (F : Type) where
  scrapeOk : Bool
  memTotalMb : ℕ
  memAvailableMb : ℕ
  cpuLogical : ℕ
  cpuPhysical : Option ℕ
  cpuUsagePct : Option F
  gpus : List (GpuNodeMetrics F)

namespace NodeMetrics

def getLabel (metricPart key : List Char) : Option (List Char) := do
  let pattern := key ++ ['=', '"']
  let start ← findSub pattern metricPart
  let rest := metricPart.drop (start + pattern.length)
  let stop ← rest.idxOf? '"'
  return rest.take stop

def GPU_CHIP_NAMES : List String := ["amdgpu", "nouveau", "i915", "xe"]

abbrev NameMap := AList fun _ : List Char => List Char

/-- `str::contains`. -/
def namesGpu (chip : List Char) : Bool :=
  GPU_CHIP_NAMES.any fun name => (findSub name.toList chip).isSome

def isGpuName (chipName : List Char) : Bool := GPU_CHIP_NAMES.any fun name => name.toList = chipName

def isGpuChip (chip : List Char) (chipNameMap : NameMap) : Bool :=
  namesGpu chip || (chipNameMap.lookup chip).any isGpuName

/-- The metrics the parser knows. -/
inductive Metric
  | memTotal
  | memAvailable
  | cpuSeconds
  | cpuInfo
  | chipNames
  | drmBusy
  | drmVramUsed
  | drmVramSize
  | drmVramTotal
  | hwmonTemp
  | hwmonPower
  deriving DecidableEq

def METRIC_NAMES : List (String × Metric) :=
  [("node_memory_MemTotal_bytes", .memTotal), ("node_memory_total_bytes", .memTotal),
    ("node_memory_MemAvailable_bytes", .memAvailable), ("node_memory_free_bytes", .memAvailable),
    ("node_cpu_seconds_total", .cpuSeconds), ("node_cpu_info", .cpuInfo),
    ("node_hwmon_chip_names", .chipNames), ("node_drm_gpu_busy_percent", .drmBusy),
    ("node_drm_memory_vram_used_bytes", .drmVramUsed),
    ("node_drm_memory_vram_size_bytes", .drmVramSize),
    ("node_drm_memory_vram_total_bytes", .drmVramTotal), ("node_hwmon_temp_celsius", .hwmonTemp),
    ("node_hwmon_power_average_watts", .hwmonPower), ("node_hwmon_power_average_watt", .hwmonPower)]

def metricOf (nameOnly : List Char) : Option Metric :=
  (METRIC_NAMES.find? fun e => e.1.toList = nameOnly).map Prod.snd

/-- The key of a sensor. -/
def sensorKey (chip sensor : List Char) : List Char := chip ++ ':' :: sensor

section Parser
variable {F : Type}

abbrev ValueMap (F : Type) := AList fun _ : List Char => F

/-- `entry(key).or_insert(value)`. -/
def orInsert (key : List Char) (value : F) (m : ValueMap F) : ValueMap F :=
  if key ∈ m then m else m.insert key value

structure HostState (F : Type) where
  memTotalBytes : F
  memAvailableBytes : F
  cpuSet : List (List Char)
  cpuPhysicalSet : List (List Char)
  cpuInfoSeen : Bool
  cpuIdleSum : F
  cpuTotalSum : F

structure GpuState (F : Type) where
  drmBusy : ValueMap F
  drmVramUsed : ValueMap F
  drmVramTotal : ValueMap F
  chipNameMap : NameMap
  hwmonTemp : ValueMap F
  hwmonPower : ValueMap F
  gpuChips : List (List Char)

/-- What has been gathered from the lines. -/
structure Gathered (F : Type) where
  host : HostState F
  gpu : GpuState F

variable (ops : FloatOps F)

def Gathered.init : Gathered F where
  host := { memTotalBytes := ops.zero, memAvailableBytes := ops.zero, cpuSet := []
            cpuPhysicalSet := [], cpuInfoSeen := false, cpuIdleSum := ops.zero
            cpuTotalSum := ops.zero }
  gpu := { drmBusy := ∅, drmVramUsed := ∅, drmVramTotal := ∅, chipNameMap := ∅, hwmonTemp := ∅
           hwmonPower := ∅, gpuChips := [] }

namespace HostState

def cpuSeconds (s : HostState F) (metricPart : List Char) (value : F) : HostState F :=
  { s with
    cpuSet := (getLabel metricPart "cpu".toList).elim s.cpuSet fun cpu => s.cpuSet.insert cpu
    cpuTotalSum := ops.add s.cpuTotalSum value
    cpuIdleSum := if getLabel metricPart "mode".toList = some "idle".toList then
      ops.add s.cpuIdleSum value else s.cpuIdleSum }

def cpuInfo (s : HostState F) (metricPart : List Char) : HostState F :=
  { s with
    cpuInfoSeen := true
    cpuPhysicalSet := ((getLabel metricPart "core".toList).bind fun core =>
      (getLabel metricPart "package".toList).map fun package => sensorKey core package).elim
        s.cpuPhysicalSet fun pair => s.cpuPhysicalSet.insert pair }

end HostState

namespace GpuState

def chipName (s : GpuState F) (chip chipName : List Char) : GpuState F :=
  { s with chipNameMap := s.chipNameMap.insert chip chipName }

/-- Without a sensor the reading is the one of `temp1`. -/
def temp (s : GpuState F) (chip : List Char) (sensor : Option (List Char)) (value : F) : GpuState F :=
  if isGpuChip chip s.chipNameMap then
    { s with
      hwmonTemp := s.hwmonTemp.insert (sensorKey chip (sensor.getD "temp1".toList)) value
      gpuChips := s.gpuChips.insert chip }
  else s

def power (s : GpuState F) (chip : List Char) (value : F) : GpuState F :=
  if isGpuChip chip s.chipNameMap then
    { s with hwmonPower := orInsert chip value s.hwmonPower, gpuChips := s.gpuChips.insert chip }
  else s

/-- One arm for each metric of a card. -/
def drm (s : GpuState F) (metric : Metric) (card : List Char) (value : F) : GpuState F :=
  match metric with
  | .drmBusy => { s with drmBusy := orInsert card value s.drmBusy }
  | .drmVramUsed => { s with drmVramUsed := s.drmVramUsed.insert card value }
  | .drmVramSize => { s with drmVramTotal := orInsert card value s.drmVramTotal }
  | .drmVramTotal => { s with drmVramTotal := s.drmVramTotal.insert card value }
  | _ => s

/-- The keys of the three maps of cards. -/
def cards (s : GpuState F) : List (List Char) :=
  (s.drmBusy.keys ++ (s.drmVramUsed.keys ++ s.drmVramTotal.keys)).dedup

/-- What the chip at a card's position reads, and the card's own metrics. -/
def ofCard (s : GpuState F) (chipsSorted : List (List Char)) (card : List Char × ℕ) :
    GpuNodeMetrics F :=
  let chip := chipsSorted[card.2]?
  { card := card.1
    tempC := chip.bind fun c => s.hwmonTemp.lookup (sensorKey c "temp1".toList)
    tempJunctionC := chip.bind fun c => s.hwmonTemp.lookup (sensorKey c "temp2".toList)
    tempMemC := chip.bind fun c => s.hwmonTemp.lookup (sensorKey c "temp3".toList)
    powerW := chip.bind fun c => s.hwmonPower.lookup c
    vramUsedMb := (s.drmVramUsed.lookup card.1).map ops.toMib
    vramTotalMb := (s.drmVramTotal.lookup card.1).map ops.toMib
    busyPct := s.drmBusy.lookup card.1 }

def ofChip (s : GpuState F) (chip : List Char × ℕ) : GpuNodeMetrics F :=
  { card := "card".toList ++ (toString chip.2).toList
    tempC := s.hwmonTemp.lookup (sensorKey chip.1 "temp1".toList)
    tempJunctionC := s.hwmonTemp.lookup (sensorKey chip.1 "temp2".toList)
    tempMemC := s.hwmonTemp.lookup (sensorKey chip.1 "temp3".toList)
    powerW := s.hwmonPower.lookup chip.1
    vramUsedMb := none
    vramTotalMb := none
    busyPct := none }

def chipsSorted (s : GpuState F) : List (List Char) := s.gpuChips.insertionSort (· ≤ ·)

def drmCards (s : GpuState F) : List (List Char) := s.cards.insertionSort (· ≤ ·)

/-- Cards and chips are paired by position; without cards every chip is a GPU. -/
def gpus (s : GpuState F) : List (GpuNodeMetrics F) :=
  if s.drmCards = [] then s.chipsSorted.zipIdx.map s.ofChip
  else s.drmCards.zipIdx.map (s.ofCard ops s.chipsSorted)

end GpuState

/-- The arm of a metric. -/
def Gathered.record (s : Gathered F) (metric : Metric) (metricPart : List Char) (value : F) :
    Gathered F :=
  match metric with
  | .memTotal => { s with host := { s.host with memTotalBytes := value } }
  | .memAvailable => { s with host := { s.host with memAvailableBytes := value } }
  | .cpuSeconds => { s with host := s.host.cpuSeconds ops metricPart value }
  | .cpuInfo => { s with host := s.host.cpuInfo metricPart }
  | .chipNames =>
    match getLabel metricPart "chip".toList, getLabel metricPart "chip_name".toList with
    | some chip, some chipName => { s with gpu := s.gpu.chipName chip chipName }
    | _, _ => s
  | .hwmonTemp =>
    match getLabel metricPart "chip".toList with
    | some chip => { s with gpu := s.gpu.temp chip (getLabel metricPart "sensor".toList) value }
    | none => s
  | .hwmonPower =>
    match getLabel metricPart "chip".toList with
    | some chip => { s with gpu := s.gpu.power chip value }
    | none => s
  | drm =>
    match getLabel metricPart "card".toList with
    | some card => { s with gpu := s.gpu.drm drm card value }
    | none => s

/-- The metric with its labels, and what follows the blank after it. -/
def splitLine (line : List Char) : Option (List Char × List Char) :=
  let splitAt := match line.idxOf? '}' with
    | some braceEnd => ((line.drop braceEnd).idxOf? ' ').map fun i => braceEnd + i
    | none => line.idxOf? ' '
  splitAt.map fun idx => (line.take idx, line.drop (idx + 1))

def nameOnly (metricPart : List Char) : List Char := metricPart.takeWhile (· ≠ '{')

/-- The metric, the part before the value and the value of a line the parser knows. -/
def readLine (line : List Char) : Option (Metric × List Char × F) := do
  if line.head? = some '#' ∨ line = [] then none
  let (metricPart, rest) ← splitLine line
  let value ← ops.parse ((splitWhitespace rest).head?.getD [])
  let metric ← metricOf (nameOnly metricPart)
  return (metric, metricPart, value)

def Gathered.scan (s : Gathered F) (line : List Char) : Gathered F :=
  match readLine ops (trim line) with
  | none => s
  | some (metric, metricPart, value) => s.record ops metric metricPart value

def Gathered.metrics (s : Gathered F) : NodeMetrics F × CpuSnapshot F :=
  ({ scrapeOk := true
     memTotalMb := ops.toMib s.host.memTotalBytes
     memAvailableMb := ops.toMib s.host.memAvailableBytes
     cpuLogical := s.host.cpuSet.length
     cpuPhysical := if s.host.cpuInfoSeen && !s.host.cpuPhysicalSet.isEmpty then
       some s.host.cpuPhysicalSet.length else none
     cpuUsagePct := none
     gpus := s.gpu.gpus ops }, ⟨s.host.cpuIdleSum, s.host.cpuTotalSum⟩)

def parsePrometheusMetrics (text : List Char) : NodeMetrics F × CpuSnapshot F :=
  ((lines text).foldl (Gathered.scan ops) (Gathered.init ops)).metrics ops

end Parser

/-! ## Labels -/

section Labels
variable {q u v key val rest front : List Char} {c : Char}

theorem idxOf?_append_cons (h : c ∉ u) : (u ++ c :: v).idxOf? c = some u.length := by
  induction u with
  | nil => simp [List.idxOf?_cons]
  | cons d u ih =>
    obtain ⟨hd, hu⟩ := not_or.mp (List.mem_cons.not.mp h)
    have hbeq : (d == c) = false := beq_false_of_ne (Ne.symm hd)
    rw [List.cons_append, List.idxOf?_cons, hbeq, ih hu]
    rfl

/-- A pattern that ends with its only quote ends at the first quote of a text, or is looked for after
it. -/
theorem findSub_quote (hq : '"' ∉ q) (hu : '"' ∉ u) : findSub (q ++ ['"']) (u ++ '"' :: v) =
    if q <:+ u then some (u.length - q.length)
    else (findSub (q ++ ['"']) v).map fun n => u.length + 1 + n := by
  have hhere : ∀ u, '"' ∉ u → ((q ++ ['"']).isPrefixOf (u ++ '"' :: v) = true ↔ q = u) := by
    intro u hu
    rw [List.isPrefixOf_iff_prefix]
    constructor
    · rintro ⟨w, hw⟩
      rw [List.append_assoc] at hw
      exact (Slices.seam_inj hq hu hw).1
    · rintro rfl
      exact ⟨v, by simp⟩
  induction u with
  | nil =>
    rw [List.nil_append, findSub]
    have hnil := hhere [] hu
    rw [List.nil_append] at hnil
    by_cases heq : q = []
    · rw [if_pos (hnil.mpr heq), if_pos (heq ▸ List.suffix_rfl), heq]
      rfl
    · rw [if_neg (hnil.not.mpr heq), if_neg (fun h => heq (List.suffix_nil.mp h))]
      simp [Nat.add_comm]
  | cons d u ih =>
    have hu' : '"' ∉ u := fun h => hu (List.mem_cons_of_mem _ h)
    have hcons := hhere (d :: u) hu
    rw [List.cons_append] at hcons ⊢
    rw [findSub, ih hu']
    by_cases heq : q = d :: u
    · rw [if_pos (hcons.mpr heq), if_pos (heq ▸ List.suffix_rfl), heq]
      simp
    · rw [if_neg (hcons.not.mpr heq)]
      have hsuffix : q <:+ d :: u ↔ q <:+ u := by
        rw [List.suffix_cons_iff, or_iff_right heq]
      by_cases hq' : q <:+ u
      · have hle := hq'.length_le
        rw [if_pos hq', if_pos (hsuffix.mpr hq'), Option.map_some, List.length_cons]
        congr 1
        omega
      · rw [if_neg hq', if_neg (hsuffix.not.mpr hq'), Option.map_map, List.length_cons]
        congr 1
        funext n
        simp only [Function.comp_apply]
        omega

/-- The label whose name ends at the first quote of the text. -/
theorem getLabel_here (hfront : '"' ∉ front) (hkey : '"' ∉ key) (hval : '"' ∉ val) :
    getLabel (front ++ (key ++ '=' :: '"' :: (val ++ '"' :: rest))) key = some val := by
  have htext : front ++ (key ++ '=' :: '"' :: (val ++ '"' :: rest)) =
      (front ++ (key ++ ['='])) ++ '"' :: (val ++ '"' :: rest) := by simp
  have hpattern : key ++ ['=', '"'] = (key ++ ['=']) ++ ['"'] := by simp
  have hfind : findSub (key ++ ['=', '"']) (front ++ (key ++ '=' :: '"' :: (val ++ '"' :: rest))) =
      some front.length := by
    rw [htext, hpattern, findSub_quote (by simp [hkey]) (by simp [hfront, hkey]),
      if_pos (List.suffix_append _ _)]
    simp
  have hdrop : (front ++ (key ++ '=' :: '"' :: (val ++ '"' :: rest))).drop
      (front.length + (key ++ ['=', '"']).length) = val ++ '"' :: rest := by
    have happend : front ++ (key ++ '=' :: '"' :: (val ++ '"' :: rest)) =
        (front ++ (key ++ ['=', '"'])) ++ (val ++ '"' :: rest) := by simp
    rw [happend, ← List.length_append, List.drop_left]
  simp only [getLabel, hfind, Option.bind_eq_bind, Option.bind_some, hdrop, idxOf?_append_cons hval]
  simp

/-- A label of another name is passed over. -/
theorem getLabel_next (hfront : '"' ∉ front) (hkey : '"' ∉ key) (hval : '"' ∉ val) (heq : '=' ∉ val)
    (hother : ¬ (key ++ ['=']) <:+ front) :
    getLabel (front ++ '"' :: (val ++ '"' :: rest)) key = getLabel rest key := by
  have hpattern : key ++ ['=', '"'] = (key ++ ['=']) ++ ['"'] := by simp
  have hq : '"' ∉ key ++ ['='] := by simp [hkey]
  have hno : ¬ (key ++ ['=']) <:+ val := by
    intro hsuffix
    exact heq (hsuffix.subset (by simp))
  have hfind : findSub (key ++ ['=', '"']) (front ++ '"' :: (val ++ '"' :: rest)) =
      (findSub (key ++ ['=', '"']) rest).map fun n => front.length + 1 + (val.length + 1 + n) := by
    rw [hpattern, findSub_quote hq hfront, if_neg hother, findSub_quote hq hval, if_neg hno,
      Option.map_map]
    rfl
  have hdrop : ∀ n, (front ++ '"' :: (val ++ '"' :: rest)).drop
      (front.length + 1 + (val.length + 1 + n)) = rest.drop n := by
    intro n
    have happend : front ++ '"' :: (val ++ '"' :: rest) = (front ++ '"' :: (val ++ ['"'])) ++ rest := by
      simp
    have hlength : front.length + 1 + (val.length + 1 + n) =
        (front ++ '"' :: (val ++ ['"'])).length + n := by
      simp only [List.length_append, List.length_cons, List.length_nil]
      omega
    rw [happend, hlength, List.drop_length_add_append]
  simp only [getLabel, hfind]
  cases findSub (key ++ ['=', '"']) rest with
  | none => rfl
  | some n =>
    have hsum : front.length + 1 + (val.length + 1 + n) + (key ++ ['=', '"']).length =
        front.length + 1 + (val.length + 1 + (n + (key ++ ['=', '"']).length)) := by omega
    simp only [Option.map_some, Option.bind_eq_bind, Option.bind_some, hsum, hdrop]

end Labels

/-! ## Lines -/

section Lines
variable {F : Type} {ops : FloatOps F} {line metricPart rest s : List Char} {c : Char} {i : ℕ}
  {metric : Metric} {value : F}

theorem idxOf?_split (h : s.idxOf? c = some i) : s = s.take i ++ c :: s.drop (i + 1) := by
  have hmem : c ∈ s := by
    by_contra hno
    rw [List.idxOf?_eq_none_iff.mpr hno] at h
    cases h
  obtain ⟨u, v, rfl, hu⟩ := List.eq_append_cons_of_mem hmem
  rw [idxOf?_append_cons hu] at h
  obtain rfl := Option.some.inj h
  simp

theorem splitLine_brace (h : '}' ∉ s) : splitLine (s ++ '}' :: ' ' :: rest) = some (s ++ ['}'], rest) := by
  have hblank : ('}' :: ' ' :: rest).idxOf? ' ' = some 1 := @idxOf?_append_cons ['}'] rest ' ' (by decide)
  have htake : (s ++ '}' :: ' ' :: rest).take (s.length + 1) = s ++ ['}'] := by
    rw [List.take_length_add_append]
    rfl
  have hdrop : (s ++ '}' :: ' ' :: rest).drop (s.length + 1 + 1) = rest := by
    rw [Nat.add_assoc, List.drop_length_add_append]
    rfl
  simp only [splitLine, idxOf?_append_cons h, List.drop_left, hblank, Option.map_some, htake, hdrop]

/-- The metric and the value are parted by a blank. -/
theorem splitLine_eq (h : splitLine line = some (metricPart, rest)) :
    line = metricPart ++ ' ' :: rest := by
  unfold splitLine at h
  cases hbrace : line.idxOf? '}' with
  | none =>
    simp only [hbrace] at h
    obtain ⟨idx, hidx, heq⟩ := Option.map_eq_some_iff.mp h
    obtain ⟨rfl, rfl⟩ := Prod.mk.inj heq
    exact idxOf?_split hidx
  | some braceEnd =>
    simp only [hbrace, Option.map_map] at h
    obtain ⟨i, hi, heq⟩ := Option.map_eq_some_iff.mp h
    obtain ⟨rfl, rfl⟩ := Prod.mk.inj heq
    have hsplit := idxOf?_split hi
    rw [List.drop_drop] at hsplit
    rw [List.take_add, List.append_assoc, Nat.add_assoc]
    calc line = line.take braceEnd ++ line.drop braceEnd := (List.take_append_drop _ _).symm
      _ = _ := by rw [← hsplit]

theorem readLine_eq {rest' : List Char} (hskip : ¬ (line.head? = some '#' ∨ line = []))
    (hsplit : splitLine line = some (metricPart, rest')) : readLine ops line =
      (ops.parse ((splitWhitespace rest').head?.getD [])).bind fun value =>
        (metricOf (nameOnly metricPart)).map fun metric => (metric, metricPart, value) := by
  rw [readLine, if_neg hskip]
  simp only [hsplit, Option.bind_eq_bind, Option.bind_some]
  cases ops.parse ((splitWhitespace rest').head?.getD []) with
  | none => rfl
  | some value =>
    cases metricOf (nameOnly metricPart) with
    | none => rfl
    | some metric => rfl

/-- The metric that is read is the one the line begins with. -/
theorem metricOf_of_readLine (h : readLine ops line = some (metric, metricPart, value)) :
    metricOf (line.takeWhile Agent.NodeExporter.isNameChar) = some metric := by
  have hskip : ¬ (line.head? = some '#' ∨ line = []) := by
    intro hskip
    rw [readLine, if_pos hskip] at h
    cases h
  cases hsplit : splitLine line with
  | none =>
    rw [readLine, if_neg hskip, hsplit] at h
    cases h
  | some parts =>
    obtain ⟨front, rest⟩ := parts
    rw [readLine_eq hskip hsplit] at h
    obtain ⟨v, -, hv⟩ := Option.bind_eq_some_iff.mp h
    obtain ⟨m, hm, heq⟩ := Option.map_eq_some_iff.mp hv
    obtain ⟨rfl, rfl, rfl⟩ : m = metric ∧ front = metricPart ∧ v = value := by simpa using heq
    have hchars : ∀ e ∈ METRIC_NAMES, e.1.toList.all Agent.NodeExporter.isNameChar = true := by decide
    have hname : ∀ d ∈ nameOnly front, Agent.NodeExporter.isNameChar d = true := by
      obtain ⟨e, he, -⟩ := Option.map_eq_some_iff.mp hm
      have hsame : e.1.toList = nameOnly front := by simpa using List.find?_some he
      rw [← hsame]
      exact List.all_eq_true.mp (hchars e (List.mem_of_find?_eq_some he))
    -- a brace or a blank follows the name
    have hnext : ∀ d ∈ (front.dropWhile (· ≠ '{') ++ ' ' :: rest).head?,
        Agent.NodeExporter.isNameChar d = false := by
      intro d hd
      cases htail : front.dropWhile (· ≠ '{') with
      | nil =>
        rw [htail] at hd
        obtain rfl : ' ' = d := Option.some.inj hd
        decide
      | cons e tail =>
        have he := List.head_dropWhile_not (· ≠ '{') (l := front) (by rw [htail]; simp)
        simp only [htail, List.head_cons] at he
        rw [htail] at hd
        obtain rfl : e = d := Option.some.inj hd
        obtain rfl : e = '{' := by simpa using he
        decide
    have hline : line = nameOnly front ++ (front.dropWhile (· ≠ '{') ++ ' ' :: rest) := by
      rw [← List.append_assoc, nameOnly, List.takeWhile_append_dropWhile]
      exact splitLine_eq hsplit
    have hsame : line.takeWhile Agent.NodeExporter.isNameChar = nameOnly front := by
      rw [hline, List.takeWhile_append_of_pos hname]
      cases hafter : front.dropWhile (· ≠ '{') ++ ' ' :: rest with
      | nil => simp
      | cons d after =>
        rw [hafter] at hnext
        rw [List.takeWhile_cons_of_neg (by simp [hnext d rfl]), List.append_nil]
    rw [hsame]
    exact hm

end Lines

end NodeMetrics

end Veronex
