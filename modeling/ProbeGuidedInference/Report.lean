import Mathlib.Data.List.Sort
import Mathlib.Data.Rat.Floor
import ProbeGuidedInference.Batcher

/- The benchmark report (benchmark/report.py): the order statistics of a list of numbers,
   and the latency comparison of probe_deprioritize with baseline.

   Numbers are rationals, and `none` is the float NaN. A dict is the list of its items in
   insertion order. Of a record only the fields that the comparison reads are kept. -/
namespace PGI

/-! Python's numbers, sequences and dicts, as far as the report uses them. -/

/-- `int(k)`: the integer part, towards zero. -/
def truncate (k : ℚ) : Int := if 0 ≤ k then ⌊k⌋ else ⌈k⌉

/-- `xs[i]` for any int: a negative index counts from the right. -/
def itemAt {α : Type} (xs : List α) (i : Int) : Except PyError α :=
  if 0 ≤ i then index xs i.toNat
  else if 0 ≤ xs.length + i then index xs (xs.length + i).toNat
  else .error .indexError

def sorted (values : List ℚ) : List ℚ := values.insertionSort (· ≤ ·)

/-- `d[k] = v`: an old key keeps its place. -/
def setItem {α : Type} (d : List (Int × α)) (k : Int) (v : α) : List (Int × α) :=
  if d.any (fun item => item.1 = k) then d.map (fun item => if item.1 = k then (k, v) else item)
  else d ++ [(k, v)]

/-- `{key(x): x for x in xs}`. -/
def dictBy {α : Type} (key : α → Int) (xs : List α) : List (Int × α) :=
  xs.foldl (fun d x => setItem d (key x) x) []

namespace Statistics

/-- `statistics.median`. -/
def median (data : List ℚ) : Except PyError ℚ := do
  let data := sorted data
  let n := data.length
  if n = 0 then .error (.valueError "no median for empty data")
  else if n % 2 = 1 then index data (n / 2)
  else
    let i := n / 2
    return ((← index data (i - 1)) + (← index data i)) / 2

/-- `statistics.mean`. -/
def mean (data : List ℚ) : Except PyError ℚ :=
  if data.length = 0 then .error (.valueError "mean requires at least one data point")
  else .ok (data.sum / data.length)

end Statistics

/-! `_median`, `_mean` and `_percentile`. -/

def median (values : List ℚ) : Except PyError (Option ℚ) := do
  if values.isEmpty then return none
  else return some (← Statistics.median values)

def mean (values : List ℚ) : Except PyError (Option ℚ) := do
  if values.isEmpty then return none
  else return some (← Statistics.mean values)

def percentile (values : List ℚ) (pct : ℚ) : Except PyError (Option ℚ) := do
  if values.isEmpty then return none
  else
    let values := sorted values
    let k := ((values.length : ℚ) - 1) * pct
    let f := truncate k
    let c := min (truncate k + 1) ((values.length : Int) - 1)
    if f = c then return some (← itemAt values f)
    else return some ((← itemAt values f) + ((← itemAt values c) - (← itemAt values f)) * (k - f))

/-! `deprioritize_latency_breakdown`. -/

structure RunRecord where
  aimeIdx : Int
  routingLabel : Option Label
  latencyS : Option ℚ
  deriving DecidableEq

/-- The truth value of `r["latency_s"]`: neither null nor zero. -/
def RunRecord.timed (r : RunRecord) : Bool := r.latencyS.isSome && r.latencyS ≠ some 0

/-- The records of the run under each strategy that was benchmarked. -/
abbrev AllResults := RoutingStrategy → Option (List RunRecord)

structure BaselineComparison where
  baselineConvergentP50S : Option ℚ
  convergentP50ImprovementPct : Option ℚ

structure LatencyBreakdown where
  convergentP50S : Option ℚ
  convergentMeanS : Option ℚ
  divergentP50S : Option ℚ
  divergentMeanS : Option ℚ
  nConvergent : Nat
  nDivergent : Nat
  /-- The two keys that are set only if some baseline latency was found. -/
  baseline : Option BaselineComparison

/-- The records whose latencies are listed for one label. -/
def labelled (label : Label) (records : List RunRecord) : List RunRecord :=
  records.filter (fun r => r.routingLabel = some label && r.timed)

/-- The baseline records whose latencies are listed in `baseline_conv_latencies`. -/
def baselineConvergent (baseline records : List RunRecord) : List RunRecord :=
  let baselineByIdx := dictBy RunRecord.aimeIdx baseline
  let depriByIdx := dictBy RunRecord.aimeIdx records
  depriByIdx.filterMap (fun (idx, r) =>
    if r.routingLabel = some .convergent then (baselineByIdx.lookup idx).filter RunRecord.timed
    else none)

def latencies (records : List RunRecord) : List ℚ := records.filterMap RunRecord.latencyS

/-- `100.0 * (base_p50 - depri_p50) / base_p50 if base_p50 else nan`. -/
def improvementPct (baseP50 depriP50 : Option ℚ) : Option ℚ := do
  let base ← baseP50
  let depri ← depriP50
  if base = 0 then none else some (100 * (base - depri) / base)

def deprioritizeLatencyBreakdown (allResults : AllResults) :
    Except PyError (Option LatencyBreakdown) := do
  match allResults .probeDeprioritize with
  | none => return none
  | some records =>
    let convLatencies := latencies (labelled .convergent records)
    let divLatencies := latencies (labelled .divergent records)
    let baselineConvLatencies :=
      (allResults .baseline).map (fun baseline => latencies (baselineConvergent baseline records))
    let convergentP50S ← percentile convLatencies (1 / 2)
    let convergentMeanS ← mean convLatencies
    let divergentP50S ← percentile divLatencies (1 / 2)
    let divergentMeanS ← mean divLatencies
    let baseline ← match baselineConvLatencies with
      | none => pure none
      | some [] => pure none
      | some (latency :: rest) => do
        let basePct ← percentile (latency :: rest) (1 / 2)
        pure (some { baselineConvergentP50S := basePct
                     convergentP50ImprovementPct := improvementPct basePct convergentP50S })
    return some {
      convergentP50S, convergentMeanS, divergentP50S, divergentMeanS
      nConvergent := convLatencies.length
      nDivergent := divLatencies.length
      baseline }

end PGI
