import Relational.Decimal.Layout

/-!
# Metrics

Counters and histograms per combination of label values, and their text exposition: families by
name, labels by name, samples by label values. A fingerprint of the label values tells samples
apart, and the values first recorded under it are the ones shown.
-/
namespace Relational.Metrics

def mixByte (h : UInt64) (b : UInt8) : UInt64 := (h ^^^ b.toUInt64) * 0x100000001b3

/-- Texts in 64 bits, by the FNV-1a hash of their bytes. The texts count as one, so that it does not
matter where each of them ends. -/
def fingerprint (texts : List String) : UInt64 :=
  ((String.join texts).toUTF8.data.toList).foldl mixByte 0xcbf29ce484222325

structure Series (Sample : Type) where
  key : UInt64
  values : List String
  sample : Sample

/-- Series in the order in which they were first recorded, no two with one key. -/
structure Family (Sample : Type) where
  name : String
  help : String
  labels : List String
  series : List (Series Sample) := []

variable {Sample : Type}

def updateSeries (key : UInt64) (values : List String) (start : Sample) (f : Sample → Sample) :
    List (Series Sample) → List (Series Sample)
  | [] => [⟨key, values, f start⟩]
  | s :: rest =>
    if s.key = key then { s with sample := f s.sample } :: rest
    else s :: updateSeries key values start f rest

def Family.update (family : Family Sample) (values : List String) (start : Sample)
    (f : Sample → Sample) : Family Sample :=
  { family with series := updateSeries (fingerprint values) values start f family.series }

private def escape (s : String) : String :=
  String.join (s.toList.map fun c =>
    match c with
    | '\\' => "\\\\"
    | '\n' => "\\n"
    | '"' => "\\\""
    | c => c.toString)

private def line (name : String) (labels : List (String × String)) (value : String) : String :=
  let labels := labels.map fun (label, v) => label ++ "=\"" ++ escape v ++ "\""
  name ++ "\x7b" ++ ",".intercalate labels ++ "\x7d " ++ value

def Family.labelled (family : Family Sample) (values : List String) : List (String × String) :=
  (family.labels.zip values).mergeSort fun a b => !(b.1 < a.1)

def Family.lines (family : Family Sample) (type : String)
    (sampleLines : String → List (String × String) → Sample → List String) : List String :=
  let samples := (family.series.map fun s => (family.labelled s.values, s.sample)).mergeSort
    fun a b => !(b.1.map (·.2) < a.1.map (·.2))
  if samples.isEmpty then []
  else
    ["# HELP " ++ family.name ++ " " ++ family.help, "# TYPE " ++ family.name ++ " " ++ type]
      ++ samples.flatMap fun (labels, s) => sampleLines family.name labels s

def bounds : List (Binary64 × String) :=
  [(1 / 200, "0.005"), (1 / 100, "0.01"), (1 / 40, "0.025"), (1 / 20, "0.05"), (1 / 10, "0.1"),
    (1 / 4, "0.25"), (1 / 2, "0.5"), (1, "1"), (5 / 2, "2.5"), (5, "5"), (10, "10")]

structure Histogram where
  counts : List Nat := bounds.map fun _ => 0
  count : Nat := 0
  sum : Binary64 := 0

def Histogram.observe (h : Histogram) (x : Binary64) : Histogram where
  counts := h.counts.zipWith (fun n (b : Binary64 × String) => if x.le b.1 then n + 1 else n) bounds
  count := h.count + 1
  sum := h.sum + x

private def counterLines (name : String) (labels : List (String × String)) (n : Binary64) :
    List String := [line name labels n.text]

private def histogramLines (name : String) (labels : List (String × String)) (h : Histogram) :
    List String :=
  let bucket (bound : String) (n : Nat) : String :=
    line (name ++ "_bucket") (labels ++ [("le", bound)]) (toString n)
  h.counts.zipWith (fun n b => bucket b.2 n) bounds
    ++ [bucket "+Inf" h.count, line (name ++ "_sum") labels h.sum.text,
      line (name ++ "_count") labels (toString h.count)]

end Metrics

structure Metrics where
  requests : Metrics.Family Binary64 :=
    ⟨"quarry_metadata_requests_total", "Metadata requests per kind and cache outcome",
      ["kind", "outcome"], []⟩
  rowsIn : Metrics.Family Binary64 :=
    ⟨"quarry_operator_rows_in_total", "Input rows processed per operator",
      ["query_id", "operator"], []⟩
  rowsOut : Metrics.Family Binary64 :=
    ⟨"quarry_operator_rows_out_total", "Output rows produced per operator",
      ["query_id", "operator"], []⟩
  time : Metrics.Family Metrics.Histogram :=
    ⟨"quarry_operator_time_seconds", "Wall time per operator unit", ["query_id", "operator"], []⟩
  partitionValues : Metrics.Family Binary64 :=
    ⟨"quarry_partition_filter_values_total",
      "Literal partition values collected by plan-shape analysis", ["table"], []⟩

namespace Metrics

def recordOperator (m : Metrics) (query operator : String) (rowsIn rowsOut : Nat)
    (seconds : Binary64) : Metrics :=
  let values := [query, operator]
  { m with
    rowsIn := m.rowsIn.update values 0 (· + .ofInt rowsIn)
    rowsOut := m.rowsOut.update values 0 (· + .ofInt rowsOut)
    time := m.time.update values {} (·.observe (Binary.Word.greatest 0 seconds)) }

def recordRequest (m : Metrics) (kind outcome : String) : Metrics :=
  { m with requests := m.requests.update [kind, outcome] 0 (· + 1) }

def recordPartitionValues (m : Metrics) (table : String) (n : Nat) : Metrics :=
  { m with partitionValues := m.partitionValues.update [table] 0 (· + .ofInt n) }

def lines (m : Metrics) : List String :=
  m.requests.lines "counter" counterLines ++ m.rowsIn.lines "counter" counterLines
    ++ m.rowsOut.lines "counter" counterLines ++ m.time.lines "histogram" histogramLines
    ++ m.partitionValues.lines "counter" counterLines

end Metrics
end Relational
