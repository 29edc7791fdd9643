import Mathlib.Data.List.Dedup
import Mathlib.Data.List.MinMax
import Mathlib.Data.List.Perm.Basic
import Veronex.Dispatch.NodeMetrics

/-! # Temperatures of the GPUs of a node

The text of a node exporter, line by line: the names of hwmon chips, their temperatures and powers,
the metrics of DRM cards, and any lines of other metrics. Chips and sensors have the labels the
exporter gives them, in its order.

`gpu_temps_kept_iff`: for which texts every temperature of a GPU chip is among the returned metrics.
-/
namespace Veronex.NodeMetrics
set_option autoImplicit false
open Agent (splitWhitespace)
open Agent.NodeExporter (lines isNameChar head_splitWhitespace trim_blanks trim_withoutReturn lines_ended
  not_mem_of_all)

/-! ## The text -/

/-- A character of a label that needs no escape and ends none. -/
def isLabelValueChar (c : Char) : Bool := c ≠ '"' && c ≠ '\\' && c ≠ '}' && c ≠ '=' && c ≠ '\n'

abbrev LabelValue := { s : List Char // ∀ c ∈ s, isLabelValueChar c = true }

section Text
variable {F : Type} (ops : FloatOps F)

/-- A value, and a timestamp after it. -/
structure Reading where
  text : List Char
  value : F
  stamp : Option (List Char)
  text_word : text ≠ [] ∧ ∀ c ∈ text, isWhitespace c = false
  text_parsed : ops.parse text = some value
  stamp_word : ∀ w ∈ stamp, w ≠ [] ∧ ∀ c ∈ w, isWhitespace c = false

/-- The metrics of chips and cards. -/
def gpuMetrics : List Metric :=
  [.chipNames, .drmBusy, .drmVramUsed, .drmVramSize, .drmVramTotal, .hwmonTemp, .hwmonPower]

def drmMetrics : List Metric := [.drmBusy, .drmVramUsed, .drmVramSize, .drmVramTotal]

/-- The line of a metric that is not about chips and cards, a comment or a blank line. -/
def IsOther (text : List Char) : Prop :=
  '\n' ∉ text ∧ ∀ metric ∈ gpuMetrics, metricOf ((trim text).takeWhile isNameChar) ≠ some metric

inductive Line
  | chipName (chip name : LabelValue) (reading : Reading ops)
  /-- The sensors of hwmon have no colon in their names. -/
  | temp (chip sensor : LabelValue) (hsensor : ':' ∉ sensor.1) (reading : Reading ops)
  /-- The metric has two spellings. -/
  | power (plural : Bool) (chip sensor : LabelValue) (reading : Reading ops)
  | drm (metric : Metric) (hmetric : metric ∈ drmMetrics) (card : LabelValue) (reading : Reading ops)
  | other (text : List Char) (hother : IsOther text)

variable {ops}

def Reading.line (r : Reading ops) : List Char :=
  r.text ++ (r.stamp.map fun w => ' ' :: w).getD []

/-- `name{key="val"}` -/
def oneLabel (name : String) (key : String) (val : List Char) : List Char :=
  name.toList ++ '{' :: (key.toList ++ '=' :: '"' :: (val ++ ['"']))

/-- `name{key="val",key'="val'"}` -/
def twoLabels (name key key' : String) (val val' : List Char) : List Char :=
  name.toList ++ '{' :: (key.toList ++ '=' :: '"' :: (val ++ '"' :: ',' ::
    (key'.toList ++ '=' :: '"' :: (val' ++ ['"']))))

def drmName : Metric → String
  | .drmBusy => "node_drm_gpu_busy_percent"
  | .drmVramUsed => "node_drm_memory_vram_used_bytes"
  | .drmVramSize => "node_drm_memory_vram_size_bytes"
  | _ => "node_drm_memory_vram_total_bytes"

def powerName (plural : Bool) : String :=
  if plural then "node_hwmon_power_average_watts" else "node_hwmon_power_average_watt"

/-- A metric with its labels up to the closing brace, and its value. -/
def valued (labelled : List Char) (r : Reading ops) : List Char := labelled ++ '}' :: ' ' :: r.line

def Line.text : Line ops → List Char
  | .chipName chip name r => valued (twoLabels "node_hwmon_chip_names" "chip" "chip_name" chip.1 name.1) r
  | .temp chip sensor _ r => valued (twoLabels "node_hwmon_temp_celsius" "chip" "sensor" chip.1 sensor.1) r
  | .power plural chip sensor r => valued (twoLabels (powerName plural) "chip" "sensor" chip.1 sensor.1) r
  | .drm metric _ card r => valued (oneLabel (drmName metric) "card" card.1) r
  | .other text _ => text

/-- The series of a temperature. -/
def Line.series : Line ops → Option (List Char × List Char)
  | .temp chip sensor _ _ => some (chip.1, sensor.1)
  | _ => none

/-- The lines of a text without two values of one temperature. -/
structure NodeText (ops : FloatOps F) where
  content : List (Line ops)
  nodup : (content.filterMap Line.series).Nodup

def NodeText.text (t : NodeText ops) : List Char := t.content.flatMap fun l => l.text ++ ['\n']

/-! ## What the lines say -/

/-- What is known of a chip when one of its lines is read. -/
structure Sighting (F : Type) where
  chip : List Char
  /-- `none` where the line is about power. -/
  sensor : Option (List Char)
  value : F
  /-- The chip is a GPU by its label or by the last name it was given before. -/
  known : Bool

def Line.card : Line ops → Option (List Char)
  | .drm _ _ card _ => some card.1
  | _ => none

/-- The line gives the chip the name of a GPU. -/
def Line.namesGpu (chip : List Char) : Line ops → Bool
  | .chipName c name _ => decide (c.1 = chip) && isGpuName name.1
  | _ => false

/-- The names after a line. -/
def Line.named (names : NameMap) : Line ops → NameMap
  | .chipName chip name _ => names.insert chip.1 name.1
  | _ => names

def Line.sighting (names : NameMap) : Line ops → Option (Sighting F)
  | .temp chip sensor _ r =>
    some { chip := chip.1, sensor := some sensor.1, value := r.value
           known := isGpuChip chip.1 names }
  | .power _ chip _ r =>
    some { chip := chip.1, sensor := none, value := r.value, known := isGpuChip chip.1 names }
  | _ => none

/-- The lines about chips, with the names that were given before them. -/
def sightings (names : NameMap) : List (Line ops) → List (Sighting F)
  | [] => []
  | l :: ls => (l.sighting names).toList ++ sightings (l.named names) ls

inductive TempSensor
  | edge
  | junction
  | memory

def TempSensor.label : TempSensor → List Char
  | edge => "temp1".toList
  | junction => "temp2".toList
  | memory => "temp3".toList

def TempSensor.of (g : GpuNodeMetrics F) : TempSensor → Option F
  | edge => g.tempC
  | junction => g.tempJunctionC
  | memory => g.tempMemC

namespace NodeText
variable (t : NodeText ops)

def sightings : List (Sighting F) := NodeMetrics.sightings ∅ t.content

/-- A chip whose label names a GPU, or that is given a GPU's name anywhere in the text. -/
def isGpu (chip : List Char) : Bool :=
  NodeMetrics.namesGpu chip || t.content.any (Line.namesGpu chip)

def gpuTemps (k : TempSensor) : List (Sighting F) :=
  t.sightings.filter fun x => decide (x.sensor = some k.label) && t.isGpu x.chip

/-- The readings of a sensor of the GPU chips. -/
def readings (k : TempSensor) : List F := (t.gpuTemps k).map Sighting.value

/-- The chips that are known as a GPU at one of their lines. -/
def knownChips : List (List Char) := ((t.sightings.filter Sighting.known).map Sighting.chip).dedup

def cards : List (List Char) := (t.content.filterMap Line.card).dedup

def returned : List (GpuNodeMetrics F) := (parsePrometheusMetrics ops t.text).1.gpus

def returnedTemps (k : TempSensor) : List F := t.returned.filterMap fun g => k.of g

/-- Each reading is in one of the returned metrics, and the hottest of both is the same. -/
structure Kept [LinearOrder F] : Prop where
  each : ∀ k, (t.returnedTemps k).Perm (t.readings k)
  hottest : ([TempSensor.edge, .junction, .memory].flatMap t.returnedTemps).maximum =
    ([TempSensor.edge, .junction, .memory].flatMap t.readings).maximum

/-- Each GPU chip is known as one at its temperatures, and where there are cards fewer known chips than
cards sort before it. -/
structure AllPaired : Prop where
  known : ∀ k, ∀ x ∈ t.gpuTemps k, x.known = true
  paired : t.cards ≠ [] → ∀ k, ∀ x ∈ t.gpuTemps k,
    t.knownChips.countP (fun chip => chip < x.chip) < t.cards.length

end NodeText

end Text

/-! ## Reading a line -/

section Reading
variable {F : Type} {ops : FloatOps F} {s : Gathered F}

theorem Reading.head_word (r : Reading ops) : (splitWhitespace r.line).head?.getD [] = r.text := by
  have hword := @head_splitWhitespace [] r.text ((r.stamp.map fun w => ' ' :: w).getD []) (by simp)
    r.text_word.1 r.text_word.2 (by
      intro d hd
      cases hstamp : r.stamp with
      | none => simp [hstamp] at hd
      | some w =>
        simp only [hstamp, Option.map_some, Option.getD_some, List.head?_cons] at hd
        obtain rfl := Option.some.inj hd
        decide)
  rw [Reading.line, ← List.nil_append (r.text ++ _), hword, Option.getD_some]

theorem Reading.line_last (r : Reading ops) :
    ∃ front word, r.line = front ++ word ∧ word ≠ [] ∧ ∀ c ∈ word, isWhitespace c = false := by
  cases hstamp : r.stamp with
  | none => exact ⟨[], r.text, by simp [Reading.line, hstamp], r.text_word⟩
  | some w => exact ⟨r.text ++ [' '], w, by simp [Reading.line, hstamp], r.stamp_word w hstamp⟩

/-- Labels whose values are read from a part of a line. -/
theorem readLine_parts {name : String} {labels : List Char} (r : Reading ops)
    (hname : ∀ c ∈ name.toList, isNameChar c = true) (hne : name.toList ≠ [])
    (hlabels : '}' ∉ labels) :
    readLine ops (trim (name.toList ++ '{' :: labels ++ '}' :: ' ' :: r.line)) =
      (metricOf name.toList).map fun metric => (metric, name.toList ++ '{' :: labels ++ ['}'], r.value) := by
  obtain ⟨c, chars, hchars⟩ := List.exists_cons_of_ne_nil hne
  have hc : isNameChar c = true := hname c (by rw [hchars]; exact List.mem_cons_self)
  have htrim : trim (name.toList ++ '{' :: labels ++ '}' :: ' ' :: r.line) =
      name.toList ++ '{' :: labels ++ '}' :: ' ' :: r.line := by
    have hblanks := @trim_blanks [] (name.toList ++ '{' :: labels ++ '}' :: ' ' :: r.line) []
      (by simp) (by simp) (by
        intro d hd
        rw [hchars] at hd
        obtain rfl : c = d := Option.some.inj hd
        exact Agent.NodeExporter.isWhitespace_of_isNameChar hc) (by
        intro d hd
        obtain ⟨front, word, hline, hword, hspace⟩ := r.line_last
        have hsplit : name.toList ++ '{' :: labels ++ '}' :: ' ' :: r.line =
            (name.toList ++ '{' :: labels ++ '}' :: ' ' :: front) ++ word := by
          rw [hline]
          simp
        rw [hsplit, List.getLast?_append_of_ne_nil _ hword] at hd
        exact hspace d (List.mem_of_getLast? hd))
    simpa using hblanks
  have hclose : '}' ∉ name.toList ++ '{' :: labels := by
    simp [not_mem_of_all hname (show isNameChar '}' = false by decide), hlabels]
  have hopen : nameOnly (name.toList ++ '{' :: labels ++ ['}']) = name.toList := by
    have hall : ∀ d ∈ name.toList, decide (d ≠ '{') = true := by
      intro d hd
      refine decide_eq_true fun heq => ?_
      exact not_mem_of_all hname (show isNameChar '{' = false by decide) (heq ▸ hd)
    rw [nameOnly, List.append_assoc, List.takeWhile_append_of_pos hall, List.cons_append,
      List.takeWhile_cons_of_neg (by simp), List.append_nil]
  have hskip : ¬ ((name.toList ++ '{' :: labels ++ '}' :: ' ' :: r.line).head? = some '#' ∨
      name.toList ++ '{' :: labels ++ '}' :: ' ' :: r.line = []) := by
    rw [hchars]
    rintro (hhash | hnil)
    · obtain rfl : c = '#' := Option.some.inj hhash
      exact absurd hc (by decide)
    · cases hnil
  rw [htrim, readLine_eq hskip (splitLine_brace hclose), r.head_word, r.text_parsed, hopen,
    Option.bind_some]

theorem LabelValue.no_quote (v : LabelValue) : '"' ∉ v.1 := not_mem_of_all v.2 (by decide)

theorem LabelValue.no_brace (v : LabelValue) : '}' ∉ v.1 := not_mem_of_all v.2 (by decide)

theorem LabelValue.no_equals (v : LabelValue) : '=' ∉ v.1 := not_mem_of_all v.2 (by decide)

theorem getLabel_first {name key : String} {val rest : List Char} (hname : '"' ∉ name.toList)
    (hkey : '"' ∉ key.toList) (hval : '"' ∉ val) :
    getLabel (name.toList ++ '{' :: (key.toList ++ '=' :: '"' :: (val ++ '"' :: rest))) key.toList =
      some val := by
  have hfront : '"' ∉ name.toList ++ ['{'] := by simp [hname]
  have hlabel := @getLabel_here key.toList val rest _ hfront hkey hval
  simpa using hlabel

theorem getLabel_second {name key key' : String} {val val' rest : List Char}
    (hname : '"' ∉ name.toList) (hkey : '"' ∉ key.toList) (hkey' : '"' ∉ key'.toList)
    (hother : ¬ (key'.toList ++ ['=']) <:+ name.toList ++ '{' :: (key.toList ++ ['=']))
    (hval : '"' ∉ val ∧ '=' ∉ val) (hval' : '"' ∉ val') :
    getLabel (name.toList ++ '{' :: (key.toList ++ '=' :: '"' :: (val ++ '"' :: ',' ::
      (key'.toList ++ '=' :: '"' :: (val' ++ '"' :: rest))))) key'.toList = some val' := by
  have hfront : '"' ∉ name.toList ++ '{' :: (key.toList ++ ['=']) := by simp [hname, hkey]
  have hnext := @getLabel_next key'.toList val
    (',' :: (key'.toList ++ '=' :: '"' :: (val' ++ '"' :: rest))) _ hfront hkey' hval.1 hval.2 hother
  have hhere := @getLabel_here key'.toList val' rest [','] (by decide) hkey' hval'
  rw [List.singleton_append] at hhere
  rw [hhere] at hnext
  simpa using hnext

/-- What a line adds to what is known of the GPUs. -/
def Line.apply (s : GpuState F) : Line ops → GpuState F
  | .chipName chip name _ => s.chipName chip.1 name.1
  | .temp chip sensor _ r => s.temp chip.1 (some sensor.1) r.value
  | .power _ chip _ r => s.power chip.1 r.value
  | .drm metric _ card r => s.drm metric card.1 r.value
  | .other _ _ => s

theorem scan_of_readLine {line metricPart : List Char} {metric : Metric} {value : F}
    (h : readLine ops (trim line) = some (metric, metricPart, value)) :
    s.scan ops line = s.record ops metric metricPart value := by
  rw [Gathered.scan, h]

theorem scan_valued (name : String) {metric : Metric} {labels : List Char} (r : Reading ops)
    (hname : ∀ c ∈ name.toList, isNameChar c = true) (hne : name.toList ≠ [])
    (hmetric : metricOf name.toList = some metric) (hlabels : '}' ∉ labels) :
    s.scan ops (valued (name.toList ++ '{' :: labels) r) =
      s.record ops metric (name.toList ++ '{' :: labels ++ ['}']) r.value := by
  refine scan_of_readLine ?_
  have hread := readLine_parts r hname hne hlabels
  rw [hmetric] at hread
  exact hread

theorem scan_twoLabels (name key key' : String) {metric : Metric} (chip val : LabelValue)
    (r : Reading ops) (hname : ∀ c ∈ name.toList, isNameChar c = true) (hne : name.toList ≠ [])
    (hmetric : metricOf name.toList = some metric) (hkey : '}' ∉ key.toList ∧ '}' ∉ key'.toList) :
    s.scan ops (valued (twoLabels name key key' chip.1 val.1) r) =
      s.record ops metric (twoLabels name key key' chip.1 val.1 ++ ['}']) r.value :=
  scan_valued name r hname hne hmetric (by simp [hkey.1, hkey.2, chip.no_brace, val.no_brace])

/-- The labels of a line with two labels. -/
theorem labels_twoLabels (name key key' : String) (chip val : LabelValue)
    (hname : '"' ∉ name.toList) (hkey : '"' ∉ key.toList) (hkey' : '"' ∉ key'.toList)
    (hother : ¬ (key'.toList ++ ['=']) <:+ name.toList ++ '{' :: (key.toList ++ ['='])) :
    getLabel (twoLabels name key key' chip.1 val.1 ++ ['}']) key.toList = some chip.1 ∧
      getLabel (twoLabels name key key' chip.1 val.1 ++ ['}']) key'.toList = some val.1 := by
  have htext : twoLabels name key key' chip.1 val.1 ++ ['}'] =
      name.toList ++ '{' :: (key.toList ++ '=' :: '"' :: (chip.1 ++ '"' :: ',' ::
        (key'.toList ++ '=' :: '"' :: (val.1 ++ '"' :: ['}'])))) := by
    simp [twoLabels]
  rw [htext]
  exact ⟨getLabel_first hname hkey chip.no_quote, getLabel_second hname hkey hkey' hother
    ⟨chip.no_quote, chip.no_equals⟩ val.no_quote⟩

theorem scan_drm (name : String) {metric : Metric} (hmetric : metric ∈ drmMetrics) (card : LabelValue)
    (r : Reading ops) (hname : ∀ c ∈ name.toList, isNameChar c = true) (hne : name.toList ≠ [])
    (hfound : metricOf name.toList = some metric) :
    (s.scan ops (valued (oneLabel name "card" card.1) r)).gpu = s.gpu.drm metric card.1 r.value := by
  have hquote : '"' ∉ name.toList := not_mem_of_all hname (by decide)
  have hcard : getLabel (oneLabel name "card" card.1 ++ ['}']) "card".toList = some card.1 := by
    have hlabel := @getLabel_first name "card" card.1 ['}'] hquote (by decide) card.no_quote
    simpa [oneLabel] using hlabel
  have hscan : s.scan ops (valued (oneLabel name "card" card.1) r) =
      s.record ops metric (oneLabel name "card" card.1 ++ ['}']) r.value :=
    scan_valued name r hname hne hfound (by simp [card.no_brace])
  rw [hscan]
  simp only [drmMetrics, List.mem_cons, List.not_mem_nil, or_false] at hmetric
  rcases hmetric with rfl | rfl | rfl | rfl
  all_goals simp only [Gathered.record, hcard]

/-- What the parser does with a line is what the line adds. -/
theorem scan_gpu (s : Gathered F) (l : Line ops) : (s.scan ops l.text).gpu = l.apply s.gpu := by
  cases l with
  | chipName chip name r =>
    obtain ⟨hchip, hname⟩ := labels_twoLabels "node_hwmon_chip_names" "chip" "chip_name" chip name
      (by decide) (by decide) (by decide) (by decide)
    rw [Line.text, scan_twoLabels _ _ _ chip name r (List.all_eq_true.mp (by decide)) (by decide) rfl
        (by decide),
      Gathered.record]
    simp only [hchip, hname]
    rfl
  | temp chip sensor hsensor r =>
    obtain ⟨hchip, hsensor⟩ := labels_twoLabels "node_hwmon_temp_celsius" "chip" "sensor" chip sensor
      (by decide) (by decide) (by decide) (by decide)
    rw [Line.text, scan_twoLabels _ _ _ chip sensor r (List.all_eq_true.mp (by decide)) (by decide) rfl
        (by decide),
      Gathered.record]
    simp only [hchip, hsensor]
    rfl
  | power plural chip sensor r =>
    cases plural with
    | true =>
      obtain ⟨hchip, -⟩ := labels_twoLabels (powerName true) "chip" "sensor" chip sensor
        (by decide) (by decide) (by decide) (by decide)
      rw [Line.text, scan_twoLabels _ _ _ chip sensor r (List.all_eq_true.mp (by decide)) (by decide) rfl
        (by decide),
        Gathered.record]
      simp only [hchip]
      rfl
    | false =>
      obtain ⟨hchip, -⟩ := labels_twoLabels (powerName false) "chip" "sensor" chip sensor
        (by decide) (by decide) (by decide) (by decide)
      rw [Line.text, scan_twoLabels _ _ _ chip sensor r (List.all_eq_true.mp (by decide)) (by decide) rfl
        (by decide),
        Gathered.record]
      simp only [hchip]
      rfl
  | drm metric hmetric card r =>
    have hnames : ∀ metric ∈ drmMetrics, (drmName metric).toList.all isNameChar = true ∧
        (drmName metric).toList ≠ [] ∧ metricOf (drmName metric).toList = some metric := by
      decide
    obtain ⟨hname, hne, hfound⟩ := hnames metric hmetric
    exact scan_drm (drmName metric) hmetric card r (List.all_eq_true.mp hname) hne hfound
  | other text hother =>
    rw [Line.text, Gathered.scan]
    split
    · rfl
    · next metric metricPart value hread =>
      have hmetric := metricOf_of_readLine hread
      have hno : metric ∉ gpuMetrics := fun hmem => hother.2 metric hmem hmetric
      cases metric with
      | memTotal => rfl
      | memAvailable => rfl
      | cpuSeconds => rfl
      | cpuInfo => rfl
      | _ => exact absurd (by decide) hno

end Reading

/-! ## What is gathered -/

section Gathering
variable {F : Type} {ops : FloatOps F} {s : GpuState F} {names : NameMap} {ls : List (Line ops)}
  {x : Sighting F} {xs : List (Sighting F)} {chip k : List Char} {value : F}

def Sighting.key (x : Sighting F) : Option (List Char) := x.sensor.map (sensorKey x.chip)

/-- A known temperature is kept under its key. -/
def seeTemp (temps : ValueMap F) (x : Sighting F) : ValueMap F :=
  if x.known then x.key.elim temps fun key => temps.insert key x.value else temps

def seeChip (chips : List (List Char)) (x : Sighting F) : List (List Char) :=
  if x.known then chips.insert x.chip else chips

theorem drm_frame (s : GpuState F) (metric : Metric) (card : List Char) (value : F) :
    (s.drm metric card value).chipNameMap = s.chipNameMap ∧
      (s.drm metric card value).hwmonTemp = s.hwmonTemp ∧
        (s.drm metric card value).gpuChips = s.gpuChips := by
  cases metric <;> exact ⟨rfl, rfl, rfl⟩

/-- What one line adds to the names, the temperatures and the chips. -/
theorem apply_spec (s : GpuState F) (l : Line ops) :
    (l.apply s).chipNameMap = l.named s.chipNameMap ∧
      (l.apply s).hwmonTemp = (l.sighting s.chipNameMap).toList.foldl seeTemp s.hwmonTemp ∧
        (l.apply s).gpuChips = (l.sighting s.chipNameMap).toList.foldl seeChip s.gpuChips := by
  cases l with
  | chipName chip name r => exact ⟨rfl, rfl, rfl⟩
  | temp chip sensor hsensor r =>
    cases hknown : isGpuChip chip.1 s.chipNameMap with
    | true => simp [Line.apply, GpuState.temp, Line.named, Line.sighting, seeTemp, seeChip,
        Sighting.key, hknown]
    | false => simp [Line.apply, GpuState.temp, Line.named, Line.sighting, seeTemp, seeChip, hknown]
  | power plural chip sensor r =>
    cases hknown : isGpuChip chip.1 s.chipNameMap with
    | true => simp [Line.apply, GpuState.power, Line.named, Line.sighting, seeTemp, seeChip,
        Sighting.key, hknown]
    | false => simp [Line.apply, GpuState.power, Line.named, Line.sighting, seeTemp, seeChip, hknown]
  | drm metric hmetric card r => exact drm_frame s metric card.1 r.value
  | other text hother => exact ⟨rfl, rfl, rfl⟩

/-- What a whole text adds to the temperatures and the chips. -/
theorem gather_spec (s : GpuState F) (ls : List (Line ops)) :
    (ls.foldl Line.apply s).hwmonTemp = (sightings s.chipNameMap ls).foldl seeTemp s.hwmonTemp ∧
      (ls.foldl Line.apply s).gpuChips = (sightings s.chipNameMap ls).foldl seeChip s.gpuChips := by
  induction ls generalizing s with
  | nil => exact ⟨rfl, rfl⟩
  | cons l ls ih =>
    obtain ⟨hnames, htemps, hchips⟩ := apply_spec s l
    obtain ⟨htemps', hchips'⟩ := ih (l.apply s)
    rw [List.foldl_cons, htemps', hchips', hnames, htemps, hchips, sightings, List.foldl_append,
      List.foldl_append]
    exact ⟨rfl, rfl⟩

/-- Without two values under one key, what is found under a key is the known temperature that has it. -/
theorem lookup_foldl_seeTemp (hnodup : (xs.filterMap Sighting.key).Nodup) :
    (xs.foldl seeTemp ∅).lookup k = some value ↔
      ∃ x ∈ xs, x.known = true ∧ x.key = some k ∧ x.value = value := by
  induction xs using List.reverseRecOn with
  | nil => simp
  | append_singleton xs x ih =>
    rw [List.filterMap_append] at hnodup
    obtain ⟨hxs, -, hdisjoint⟩ := List.nodup_append'.mp hnodup
    have ih := ih hxs
    rw [List.foldl_concat, seeTemp]
    by_cases hx : x.known = true ∧ x.key = some k
    · have hfirst : ∀ y ∈ xs, y.key ≠ some k := by
        intro y hy hkey
        exact hdisjoint (List.mem_filterMap.mpr ⟨y, hy, hkey⟩)
          (List.mem_filterMap.mpr ⟨x, List.mem_singleton_self x, hx.2⟩)
      rw [if_pos hx.1, hx.2, Option.elim_some, AList.lookup_insert]
      constructor
      · intro h
        exact ⟨x, by simp, hx.1, hx.2, Option.some.inj h⟩
      · rintro ⟨y, hy, -, hkey, rfl⟩
        rcases List.mem_append.mp hy with hy | hy
        · exact absurd hkey (hfirst y hy)
        · rw [List.mem_singleton.mp hy]
    · have hsame : (if x.known then x.key.elim (xs.foldl seeTemp ∅) fun key =>
          (xs.foldl seeTemp ∅).insert key x.value else xs.foldl seeTemp ∅).lookup k =
          (xs.foldl seeTemp ∅).lookup k := by
        split
        · next hknown =>
          cases hkey : x.key with
          | none => rfl
          | some key' =>
            have hne : k ≠ key' := fun heq => hx ⟨hknown, heq ▸ hkey⟩
            rw [Option.elim_some, AList.lookup_insert_ne hne]
        · rfl
      rw [hsame, ih]
      constructor
      · rintro ⟨y, hy, h⟩
        exact ⟨y, List.mem_append_left _ hy, h⟩
      · rintro ⟨y, hy, hknown, hkey, hvalue⟩
        rcases List.mem_append.mp hy with hy | hy
        · exact ⟨y, hy, hknown, hkey, hvalue⟩
        · obtain rfl := List.mem_singleton.mp hy
          exact absurd ⟨hknown, hkey⟩ hx

theorem mem_foldl_seeChip : chip ∈ xs.foldl seeChip [] ↔ ∃ x ∈ xs, x.known = true ∧ x.chip = chip := by
  induction xs using List.reverseRecOn with
  | nil => simp
  | append_singleton xs x ih =>
    rw [List.foldl_concat, seeChip]
    split
    · next hknown =>
      rw [List.mem_insert_iff, ih]
      constructor
      · rintro (rfl | ⟨y, hy, h⟩)
        · exact ⟨x, by simp, hknown, rfl⟩
        · exact ⟨y, List.mem_append_left _ hy, h⟩
      · rintro ⟨y, hy, hy', rfl⟩
        rcases List.mem_append.mp hy with hy | hy
        · exact .inr ⟨y, hy, hy', rfl⟩
        · exact .inl (by rw [List.mem_singleton.mp hy])
    · next hknown =>
      rw [ih]
      constructor
      · rintro ⟨y, hy, h⟩
        exact ⟨y, List.mem_append_left _ hy, h⟩
      · rintro ⟨y, hy, hy', rfl⟩
        rcases List.mem_append.mp hy with hy | hy
        · exact ⟨y, hy, hy', rfl⟩
        · exact absurd (List.mem_singleton.mp hy ▸ hy') hknown

theorem nodup_foldl_seeChip (xs : List (Sighting F)) : (xs.foldl seeChip []).Nodup := by
  induction xs using List.reverseRecOn with
  | nil => exact List.nodup_nil
  | append_singleton xs x ih =>
    rw [List.foldl_concat, seeChip]
    split
    · exact ih.insert
    · exact ih

theorem mem_cards_iff {card : List Char} :
    card ∈ s.cards ↔ card ∈ s.drmBusy ∨ card ∈ s.drmVramUsed ∨ card ∈ s.drmVramTotal := by
  rw [GpuState.cards, List.mem_dedup, List.mem_append, List.mem_append, AList.mem_keys, AList.mem_keys,
    AList.mem_keys]

theorem mem_orInsert {m : ValueMap F} {key : List Char} :
    k ∈ orInsert key value m ↔ k = key ∨ k ∈ m := by
  unfold orInsert
  split
  · next hmem => exact ⟨.inr, fun h => h.elim (fun heq => heq ▸ hmem) id⟩
  · exact AList.mem_insert _

/-- What one line adds to the cards. -/
theorem mem_cards_apply (l : Line ops) {card : List Char} :
    card ∈ (l.apply s).cards ↔ card ∈ s.cards ∨ l.card = some card := by
  cases l with
  | chipName chip name r => simp [Line.apply, GpuState.chipName, mem_cards_iff, Line.card]
  | temp chip sensor hsensor r =>
    simp only [Line.apply, GpuState.temp]
    split
    · simp [mem_cards_iff, Line.card]
    · simp [Line.card]
  | power plural chip sensor r =>
    simp only [Line.apply, GpuState.power]
    split
    · simp [mem_cards_iff, Line.card]
    · simp [Line.card]
  | drm metric hmetric card' r =>
    have hcomm : card'.1 = card ↔ card = card'.1 := eq_comm
    simp only [drmMetrics, List.mem_cons, List.not_mem_nil, or_false] at hmetric
    rcases hmetric with rfl | rfl | rfl | rfl
    all_goals
      simp only [Line.apply, GpuState.drm, mem_cards_iff, mem_orInsert, AList.mem_insert, Line.card,
        Option.some.injEq, hcomm]
      tauto
  | other text hother => simp [Line.apply, Line.card]

theorem mem_cards_gather (s : GpuState F) (ls : List (Line ops)) {card : List Char} :
    card ∈ (ls.foldl Line.apply s).cards ↔ card ∈ s.cards ∨ ∃ l ∈ ls, l.card = some card := by
  induction ls generalizing s with
  | nil => simp
  | cons l ls ih =>
    rw [List.foldl_cons, ih, mem_cards_apply, or_assoc]
    simp

end Gathering

/-! ## The whole text -/

section Whole
variable {F : Type} {ops : FloatOps F} {ls : List (Line ops)} {names : NameMap} {x : Sighting F}

theorem not_mem_of_space {word : List Char} (h : ∀ c ∈ word, isWhitespace c = false) : '\n' ∉ word := by
  intro hmem
  exact absurd (h _ hmem) (by decide)

theorem newline_not_mem_line (r : Reading ops) : '\n' ∉ r.line := by
  have htext := not_mem_of_space r.text_word.2
  unfold Reading.line
  cases hstamp : r.stamp with
  | none => simp [htext]
  | some w => simp [htext, not_mem_of_space (r.stamp_word w hstamp).2]

theorem newline_not_mem_twoLabels {name key key' : String} {val val' : LabelValue}
    (hname : '\n' ∉ name.toList) (hkey : '\n' ∉ key.toList) (hkey' : '\n' ∉ key'.toList)
    (r : Reading ops) : '\n' ∉ valued (twoLabels name key key' val.1 val'.1) r := by
  have hval := not_mem_of_all val.2 (show isLabelValueChar '\n' = false by decide)
  have hval' := not_mem_of_all val'.2 (show isLabelValueChar '\n' = false by decide)
  simp [valued, twoLabels, hname, hkey, hkey', hval, hval', newline_not_mem_line]

theorem newline_not_mem_text (l : Line ops) : '\n' ∉ l.text := by
  cases l with
  | chipName chip name r => exact newline_not_mem_twoLabels (by decide) (by decide) (by decide) r
  | temp chip sensor hsensor r => exact newline_not_mem_twoLabels (by decide) (by decide) (by decide) r
  | power plural chip sensor r =>
    cases plural <;> exact newline_not_mem_twoLabels (by decide) (by decide) (by decide) r
  | drm metric hmetric card r =>
    have hval := not_mem_of_all card.2 (show isLabelValueChar '\n' = false by decide)
    have hnames : ∀ metric ∈ drmMetrics, '\n' ∉ (drmName metric).toList := by decide
    simp [Line.text, valued, oneLabel, hnames metric hmetric, hval, newline_not_mem_line]
  | other text hother => exact hother.1

/-- A known temperature or power is one of a chip that is a GPU by its label or by a name. -/
theorem known_sighting (hx : x ∈ sightings names ls) (hknown : x.known = true) :
    namesGpu x.chip = true ∨ (names.lookup x.chip).any isGpuName = true ∨
      ls.any (Line.namesGpu x.chip) = true := by
  induction ls generalizing names with
  | nil => cases hx
  | cons l ls ih =>
    rw [sightings] at hx
    rcases List.mem_append.mp hx with hx | hx
    · have hgpu : isGpuChip x.chip names = true := by
        cases l with
        | temp chip sensor hsensor r =>
          obtain rfl := Option.some.inj (Option.mem_toList.mp hx)
          exact hknown
        | power plural chip sensor r =>
          obtain rfl := Option.some.inj (Option.mem_toList.mp hx)
          exact hknown
        | chipName | drm | other => cases Option.mem_toList.mp hx
      unfold isGpuChip at hgpu
      rcases (Bool.or_eq_true _ _).mp hgpu with h | h
      · exact .inl h
      · exact .inr (.inl h)
    · rcases ih hx with h | h | h
      · exact .inl h
      · cases l with
        | chipName chip name r =>
          rw [Line.named] at h
          by_cases heq : x.chip = chip.1
          · rw [heq, AList.lookup_insert] at h
            have hline : Line.namesGpu x.chip (Line.chipName chip name r) = true := by
              rw [Line.namesGpu, heq]
              simpa using h
            exact .inr (.inr (by rw [List.any_cons, hline, Bool.true_or]))
          · rw [AList.lookup_insert_ne heq] at h
            exact .inr (.inl h)
        | temp | power | drm | other => exact .inr (.inl h)
      · exact .inr (.inr (by rw [List.any_cons, h, Bool.or_true]))

/-- The temperatures that are seen are those of the lines. -/
theorem series_sightings (names : NameMap) (ls : List (Line ops)) :
    (sightings names ls).filterMap (fun x => x.sensor.map fun sensor => (x.chip, sensor)) =
      ls.filterMap Line.series := by
  induction ls generalizing names with
  | nil => rfl
  | cons l ls ih =>
    rw [sightings, List.filterMap_append, ih, List.filterMap_cons]
    cases l <;> rfl

theorem sensor_no_colon {sensor : List Char} (hx : x ∈ sightings names ls)
    (hsensor : x.sensor = some sensor) : ':' ∉ sensor := by
  induction ls generalizing names with
  | nil => cases hx
  | cons l ls ih =>
    rw [sightings] at hx
    rcases List.mem_append.mp hx with hx | hx
    · cases l with
      | temp chip sensor' hsensor' r =>
        obtain rfl := Option.some.inj (Option.mem_toList.mp hx)
        exact Option.some.inj hsensor ▸ hsensor'
      | power plural chip sensor' r =>
        obtain rfl := Option.some.inj (Option.mem_toList.mp hx)
        cases hsensor
      | chipName | drm | other => cases Option.mem_toList.mp hx
    · exact ih hx

/-- A key tells the chip from the sensor: the last colon parts them. -/
theorem sensorKey_inj {chip chip' sensor sensor' : List Char} (h : ':' ∉ sensor) (h' : ':' ∉ sensor')
    (heq : sensorKey chip sensor = sensorKey chip' sensor') : chip = chip' ∧ sensor = sensor' := by
  have hrev := congrArg List.reverse heq
  simp only [sensorKey, List.reverse_append, List.reverse_cons, List.append_assoc,
    List.singleton_append] at hrev
  obtain ⟨hsensor, hchip⟩ := Slices.seam_inj (by simpa using h) (by simpa using h') hrev
  exact ⟨List.reverse_injective hchip, List.reverse_injective hsensor⟩

end Whole

namespace NodeText
variable {F : Type} {ops : FloatOps F} (t : NodeText ops) {k : TempSensor}

/-- What is known of the GPUs after the last line. -/
def gathered : GpuState F := t.content.foldl Line.apply (Gathered.init ops).gpu

theorem returned_eq : t.returned = t.gathered.gpus ops := by
  have hlines : lines t.text = (t.content.map Line.text).map fun line =>
      if line.getLast? = some '\r' then line.dropLast else line := by
    have hended := @lines_ended (t.content.map Line.text) fun x hx => by
      obtain ⟨l, -, rfl⟩ := List.mem_map.mp hx
      exact newline_not_mem_text l
    rw [List.flatMap_map] at hended
    exact hended
  have hscan : ∀ (s : Gathered F) (l : Line ops),
      l.apply s.gpu = (s.scan ops (if l.text.getLast? = some '\r' then l.text.dropLast else l.text)).gpu := by
    intro s l
    rw [← scan_gpu, Gathered.scan, Gathered.scan, trim_withoutReturn]
  rw [returned, parsePrometheusMetrics, hlines, List.map_map, List.foldl_map, gathered,
    List.foldl_hom Gathered.gpu hscan]
  rfl

theorem nodup_keys : (t.sightings.filterMap Sighting.key).Nodup := by
  have hkeys : t.sightings.filterMap Sighting.key =
      (t.content.filterMap Line.series).map fun p => sensorKey p.1 p.2 := by
    rw [← series_sightings ∅, List.map_filterMap]
    refine List.filterMap_congr fun x _ => ?_
    rw [Sighting.key, Option.map_map]
    rfl
  rw [hkeys]
  refine t.nodup.map_on fun p hp q hq heq => ?_
  have hcolon : ∀ p ∈ t.content.filterMap Line.series, ':' ∉ p.2 := by
    intro p hp
    obtain ⟨l, -, hl⟩ := List.mem_filterMap.mp hp
    cases l with
    | temp chip sensor hsensor r => exact Option.some.inj hl ▸ hsensor
    | chipName | power | drm | other => cases hl
  obtain ⟨hchip, hsensor⟩ := sensorKey_inj (hcolon p hp) (hcolon q hq) heq
  exact Prod.ext hchip hsensor

theorem nodup_gpuTemps (k : TempSensor) : ((t.gpuTemps k).map Sighting.chip).Nodup := by
  have hsub : ((t.gpuTemps k).filterMap fun x => x.sensor.map fun sensor => (x.chip, sensor)).Sublist
      (t.content.filterMap Line.series) := by
    rw [← series_sightings ∅]
    exact List.filter_sublist.filterMap _
  have hmap : (t.gpuTemps k).filterMap (fun x => x.sensor.map fun sensor => (x.chip, sensor)) =
      ((t.gpuTemps k).map Sighting.chip).map fun chip => (chip, k.label) := by
    rw [List.map_map, ← List.filterMap_eq_map]
    refine List.filterMap_congr fun x hx => ?_
    have hsensor : x.sensor = some k.label := by
      have hcond := (List.mem_filter.mp hx).2
      simp only [Bool.and_eq_true, decide_eq_true_eq] at hcond
      exact hcond.1
    rw [hsensor]
    rfl
  rw [hmap] at hsub
  exact (hsub.nodup t.nodup).of_map _

theorem label_no_colon (k : TempSensor) : ':' ∉ k.label := by
  cases k <;> decide

/-- What is found for a sensor of a chip is the temperature of a known GPU chip. -/
theorem lookup_gathered (k : TempSensor) (chip : List Char) (value : F) :
    t.gathered.hwmonTemp.lookup (sensorKey chip k.label) = some value ↔
      ∃ x ∈ t.gpuTemps k, x.known = true ∧ x.chip = chip ∧ x.value = value := by
  rw [gathered, (gather_spec _ _).1]
  refine (lookup_foldl_seeTemp t.nodup_keys).trans ⟨?_, ?_⟩
  · rintro ⟨x, hx, hknown, hkey, rfl⟩
    obtain ⟨sensor, hsensor, heq⟩ := Option.map_eq_some_iff.mp hkey
    obtain ⟨rfl, rfl⟩ := sensorKey_inj (sensor_no_colon hx hsensor) (label_no_colon k) heq
    refine ⟨x, List.mem_filter.mpr ⟨hx, ?_⟩, hknown, rfl, rfl⟩
    have hgpu : t.isGpu x.chip = true := by
      rcases known_sighting hx hknown with h | h | h
      · exact (Bool.or_eq_true _ _).mpr (.inl h)
      · rw [AList.lookup_empty] at h
        cases h
      · exact (Bool.or_eq_true _ _).mpr (.inr h)
    rw [hgpu, hsensor]
    simp
  · rintro ⟨x, hx, hknown, rfl, rfl⟩
    obtain ⟨hmem, hcond⟩ := List.mem_filter.mp hx
    simp only [Bool.and_eq_true, decide_eq_true_eq] at hcond
    exact ⟨x, hmem, hknown, by rw [Sighting.key, hcond.1]; rfl, rfl⟩

theorem mem_gpuChips {chip : List Char} :
    chip ∈ t.gathered.gpuChips ↔ ∃ x ∈ t.sightings, x.known = true ∧ x.chip = chip := by
  rw [gathered, (gather_spec _ _).2]
  exact mem_foldl_seeChip

theorem nodup_gpuChips : t.gathered.gpuChips.Nodup := by
  rw [gathered, (gather_spec _ _).2]
  exact nodup_foldl_seeChip _

theorem knownChips_perm : t.knownChips.Perm t.gathered.gpuChips := by
  have hnodup : t.knownChips.Nodup := List.nodup_dedup _
  refine (List.perm_ext_iff_of_nodup hnodup t.nodup_gpuChips).mpr fun chip => ?_
  rw [knownChips, List.mem_dedup, List.mem_map, mem_gpuChips]
  constructor
  · rintro ⟨x, hx, rfl⟩
    obtain ⟨hmem, hknown⟩ := List.mem_filter.mp hx
    exact ⟨x, hmem, hknown, rfl⟩
  · rintro ⟨x, hmem, hknown, rfl⟩
    exact ⟨x, List.mem_filter.mpr ⟨hmem, hknown⟩, rfl⟩

theorem length_drmCards : t.gathered.drmCards.length = t.cards.length := by
  have hperm : t.gathered.cards.Perm t.cards := by
    have hgathered : t.gathered.cards.Nodup := List.nodup_dedup _
    have hcards : t.cards.Nodup := List.nodup_dedup _
    refine (List.perm_ext_iff_of_nodup hgathered hcards).mpr fun card => ?_
    rw [gathered, mem_cards_gather, NodeText.cards, List.mem_dedup, List.mem_filterMap, mem_cards_iff]
    simp [Gathered.init]
  rw [GpuState.drmCards, List.length_insertionSort, hperm.length_eq]

/-- The temperatures are those of the chips, or of the first chips where there are cards. -/
theorem returnedTemps_eq (k : TempSensor) : t.returnedTemps k =
    ((if t.cards = [] then t.gathered.chipsSorted
      else t.gathered.chipsSorted.take t.cards.length).filterMap fun chip =>
        t.gathered.hwmonTemp.lookup (sensorKey chip k.label)) := by
  have hempty : t.gathered.drmCards = [] ↔ t.cards = [] := by
    rw [← List.length_eq_zero_iff, length_drmCards, List.length_eq_zero_iff]
  rw [returnedTemps, returned_eq, GpuState.gpus]
  by_cases hcards : t.cards = []
  · rw [if_pos (hempty.mpr hcards), if_pos hcards, List.filterMap_map]
    have hsame : (fun g => k.of g) ∘ t.gathered.ofChip = (fun chip =>
        t.gathered.hwmonTemp.lookup (sensorKey chip k.label)) ∘ (Prod.fst : List Char × ℕ → List Char) := by
      funext p
      cases k <;> rfl
    rw [hsame, ← List.filterMap_map, List.zipIdx_map_fst]
  · rw [if_neg (hempty.not.mpr hcards), if_neg hcards, List.filterMap_map]
    have hsame : (fun g => k.of g) ∘ t.gathered.ofCard ops t.gathered.chipsSorted =
        fun p => t.gathered.chipsSorted[p.2]?.bind fun chip =>
          t.gathered.hwmonTemp.lookup (sensorKey chip k.label) := by
      funext p
      cases k <;> rfl
    rw [hsame, Concurrency.filterMap_positions, length_drmCards]

theorem mem_chipsSorted {x : Sighting F} (hx : x ∈ t.gpuTemps k) (hknown : x.known = true) :
    x.chip ∈ t.gathered.gpuChips :=
  t.mem_gpuChips.mpr ⟨x, (List.mem_filter.mp hx).1, hknown, rfl⟩

/-- When the readings of one sensor are returned. -/
theorem returnedTemps_perm_iff (k : TempSensor) : (t.returnedTemps k).Perm (t.readings k) ↔
    ∀ x ∈ t.gpuTemps k, x.known = true ∧
      (t.cards ≠ [] → t.knownChips.countP (fun chip => chip < x.chip) < t.cards.length) := by
  have hsorted : t.gathered.chipsSorted.Nodup :=
    (List.perm_insertionSort _ _).nodup_iff.mpr t.nodup_gpuChips
  rw [returnedTemps_eq, readings]
  by_cases hcards : t.cards = []
  · rw [if_pos hcards, Concurrency.filterMap_perm_iff hsorted (t.nodup_gpuTemps k) (t.lookup_gathered k)]
    refine forall₂_congr fun x hx => and_congr_right fun hknown => ?_
    refine iff_of_true ((List.mem_insertionSort _).mpr (t.mem_chipsSorted hx hknown)) fun hne => ?_
    exact absurd hcards hne
  · rw [if_neg hcards, Concurrency.filterMap_perm_iff (hsorted.sublist (List.take_sublist _ _))
      (t.nodup_gpuTemps k) (t.lookup_gathered k)]
    refine forall₂_congr fun x hx => and_congr_right fun hknown => ?_
    have hfirst : x.chip ∈ t.gathered.chipsSorted.take t.cards.length ↔
        t.gathered.gpuChips.countP (fun chip => chip < x.chip) < t.cards.length := by
      unfold GpuState.chipsSorted
      convert Concurrency.mem_take_insertionSort t.nodup_gpuChips (t.mem_chipsSorted hx hknown)
    rw [hfirst, ← t.knownChips_perm.countP_eq]
    simp [hcards]

/-- Every temperature of a GPU chip is returned exactly if each is known as one in time and none is
sorted behind the cards. -/
theorem gpu_temps_kept_iff [LinearOrder F] : t.Kept ↔ t.AllPaired := by
  have heach : (∀ k, (t.returnedTemps k).Perm (t.readings k)) ↔ t.AllPaired := by
    constructor
    · intro h
      exact ⟨fun k x hx => ((t.returnedTemps_perm_iff k).mp (h k) x hx).1,
        fun hcards k x hx => ((t.returnedTemps_perm_iff k).mp (h k) x hx).2 hcards⟩
    · rintro ⟨hknown, hpaired⟩ k
      exact (t.returnedTemps_perm_iff k).mpr fun x hx =>
        ⟨hknown k x hx, fun hcards => hpaired hcards k x hx⟩
  rw [← heach]
  refine ⟨Kept.each, fun h => ⟨h, List.Perm.maximum_eq ?_⟩⟩
  exact List.Perm.flatMap_left _ fun k _ => h k

/-! ## Two vendors -/

def natOps : FloatOps ℕ where
  parse := Agent.NodeExporter.digitsValue
  zero := 0
  add := (· + ·)
  toMib b := b / 1048576

/-- A number of two digits. -/
def twoDigits (text : List Char) (value : ℕ)
    (hword : text ≠ [] ∧ (text.all fun c => !isWhitespace c) = true)
    (hparsed : Agent.NodeExporter.digitsValue text = some value) : Reading natOps where
  text := text
  value := value
  stamp := none
  text_word := ⟨hword.1, by simpa using hword.2⟩
  text_parsed := hparsed
  stamp_word := by
    intro w hw
    cases hw

def amd : LabelValue := ⟨"amdgpu-pci-0300".toList, List.all_eq_true.mp (by decide)⟩

def nvidia : LabelValue := ⟨"nouveau-pci-0400".toList, List.all_eq_true.mp (by decide)⟩

/-- The chips of two GPUs, one of which has a DRM card. -/
def twoVendors : NodeText natOps where
  content :=
    [.temp amd ⟨"temp1".toList, List.all_eq_true.mp (by decide)⟩ (by decide)
        (twoDigits ['5', '8'] 58 (by decide) (by decide)),
      .temp nvidia ⟨"temp1".toList, List.all_eq_true.mp (by decide)⟩ (by decide)
        (twoDigits ['6', '5'] 65 (by decide) (by decide)),
      .drm .drmBusy (by decide) ⟨"card0".toList, List.all_eq_true.mp (by decide)⟩
        (twoDigits ['8', '0'] 80 (by decide) (by decide))]
  nodup := by decide

/-- The second GPU's temperature is not among the returned metrics. -/
theorem twoVendors_drops_reading : ¬ ∀ t : NodeText natOps, t.Kept := by
  intro h
  have hlength := ((h twoVendors).each .edge).length_eq
  rw [returnedTemps, returned_eq] at hlength
  revert hlength
  decide +kernel

end NodeText

end Veronex.NodeMetrics
