import Mathlib.Data.Fin.VecNotation
import Mathlib.Data.List.FinRange
import Mathlib.Data.Rat.Cast.Order
import Mathlib.Tactic

/-! The statistics of the TCP simulations: what `main` prints and plots of the flows that
the monitor has recorded. The wired and the wireless program differ in names only. -/
namespace NetworkOs.Tcp

/-- A time of the simulator, in nanoseconds. -/
structure Time where
  ns : Int
deriving DecidableEq, Repr

/-- Without the rounding of `double`. -/
def Time.getSeconds (t : Time) : ℚ := t.ns / 1000000000

structure FlowStats where
  timeFirstTxPacket : Time
  timeLastRxPacket : Time
  rxBytes : Nat
  lostPackets : Nat
deriving DecidableEq, Repr

/-- A `std::map` from the ids of the flows, in the order of its iteration. -/
structure FlowStatsContainer where
  flows : List (Nat × FlowStats)
  ascending : (flows.map Prod.fst).Pairwise (· < ·)

/-- Bits by seconds, and the result by 1024. -/
def FlowStats.throughput (fs : FlowStats) : ℚ :=
  let recvBytes : ℚ := fs.rxBytes
  let t1 := fs.timeFirstTxPacket.getSeconds
  let t2 := fs.timeLastRxPacket.getSeconds
  recvBytes * 8 / (t2 - t1) / 1024

/-- What the two programs differ in. -/
structure Program where
  fileNameWithNoExtension1 : String
  fileNameWithNoExtensionFairness : String
  forth : String
  back : String

def wiredTCP : Program where
  fileNameWithNoExtension1 := "Wired-Throughput"
  fileNameWithNoExtensionFairness := "Wired-Fairness"
  forth := "n2 ---> n3"
  back := "n3 ---> n2"

def wirelessTCP : Program where
  fileNameWithNoExtension1 := "Wireless-Throughput"
  fileNameWithNoExtensionFairness := "Wireless-Fairness"
  forth := "n0 ---> n1"
  back := "n1 ---> n0"

/-- What is printed about one flow. -/
structure FlowReport where
  direction : String
  flowTypes : List String
  throughput : ℚ
  recvBytes : Nat
  time : ℚ
  lostPackets : Nat

/-- The variables that the loop over the flows changes. -/
structure Sums where
  throughputSum : ℚ
  throughputSquareSum : ℚ
  printed : List FlowReport

def direction (p : Program) (flowID : Nat) : String :=
  if flowID = 1 ∨ flowID = 2 ∨ flowID = 3 then p.forth else p.back

/-- Three tests one after another: an id above 6 passes none of them. -/
def flowTypes (flowID : Nat) : List String :=
  (if flowID = 1 ∨ flowID = 4 then ["Westwood"] else []) ++
    (if flowID = 2 ∨ flowID = 5 then ["Veno"] else []) ++
    if flowID = 3 ∨ flowID = 6 then ["Vegas"] else []

/-- One pass through the loop over the flows. -/
def addFlow (p : Program) (sums : Sums) : Nat × FlowStats → Sums
  | (flowID, fs) =>
      { throughputSum := sums.throughputSum + fs.throughput
        throughputSquareSum := sums.throughputSquareSum + fs.throughput * fs.throughput
        printed := sums.printed ++ [{
          direction := direction p flowID
          flowTypes := flowTypes flowID
          throughput := fs.throughput
          recvBytes := fs.rxBytes
          time := fs.timeLastRxPacket.getSeconds - fs.timeFirstTxPacket.getSeconds
          lostPackets := fs.lostPackets }] }

def sums (p : Program) (fsc : FlowStatsContainer) : Sums :=
  fsc.flows.foldl (addFlow p) ⟨0, 0, []⟩

def Sums.avgThroughput (s : Sums) : ℚ := s.throughputSum / 6

def Sums.fairness (s : Sums) : ℚ :=
  s.throughputSum * s.throughputSum / (6 * s.throughputSquareSum)

def packetSize : Fin 10 → Nat := ![50, 54, 58, 62, 70, 652, 676, 728, 1520, 1600]

/-- What is printed about one packet size. -/
structure Report where
  ps : Nat
  noFlow : Bool
  flows : List FlowReport
  avgThroughput : ℚ
  fairnessIndex : ℚ

/-- What the loop over the packet sizes collects. -/
structure Collected where
  dataset1 : List (Nat × ℚ)
  datasetFairness : List (Nat × ℚ)
  printed : List Report

def report (p : Program) (fsc : FlowStatsContainer) (ps : Nat) : Report :=
  let s := sums p fsc
  ⟨ps, fsc.flows.isEmpty, s.printed, s.avgThroughput, s.fairness⟩

/-- One pass, with the flows that the monitor has recorded in it. -/
def simulate (p : Program) (getFlowStats : Fin 10 → FlowStatsContainer) (c : Collected) (j : Fin 10) : Collected :=
  let fsc := getFlowStats j
  let s := sums p fsc
  { dataset1 := c.dataset1 ++ [(packetSize j, s.avgThroughput)]
    datasetFairness := c.datasetFairness ++ [(packetSize j, s.fairness)]
    printed := c.printed ++ [report p fsc (packetSize j)] }

structure Gnuplot where
  graphicsFileName : String
  plotFileName : String
  title : String
  terminal : String
  xLegend : String
  yLegend : String
  extra : List String
  dataTitle : String
  dataset : List (Nat × ℚ)

structure Output where
  printed : List Report
  plot1 : Gnuplot
  plot4 : Gnuplot

/-- The simulator is a parameter: the flows that its monitor has recorded when it stops. -/
def main (p : Program) (getFlowStats : Fin 10 → FlowStatsContainer) : Output :=
  let c := (List.finRange 10).foldl (simulate p getFlowStats) ⟨[], [], []⟩
  { printed := c.printed
    plot1 := {
      graphicsFileName := p.fileNameWithNoExtension1 ++ ".png"
      plotFileName := p.fileNameWithNoExtension1 ++ ".plt"
      title := "Throughput Vs Packet Sizes"
      terminal := "png"
      xLegend := "Packet Size(Bytes)"
      yLegend := "Throughput(Kbps)"
      extra := ["set xrange [0:1600]"]
      dataTitle := "Throughput"
      dataset := c.dataset1 }
    plot4 := {
      graphicsFileName := p.fileNameWithNoExtensionFairness ++ ".png"
      plotFileName := p.fileNameWithNoExtensionFairness ++ ".plt"
      title := "Fairness Vs Packet Size"
      terminal := "png"
      xLegend := "Packet Size(Bytes)"
      yLegend := "Fairness Index"
      extra := ["set xrange [0:1600]", "set yrange [0:1]"]
      dataTitle := "Fairness"
      dataset := c.datasetFairness } }

section Loops
variable (p : Program) (getFlowStats : Fin 10 → FlowStatsContainer)

theorem throughputSum_foldl (flows : List (Nat × FlowStats)) (s : Sums) :
    (flows.foldl (addFlow p) s).throughputSum = s.throughputSum + (flows.map (·.2.throughput)).sum := by
  induction flows generalizing s with
  | nil => simp
  | cons f flows ih => rw [List.foldl_cons, ih, List.map_cons, List.sum_cons, ← add_assoc]; rfl

theorem throughputSquareSum_foldl (flows : List (Nat × FlowStats)) (s : Sums) :
    (flows.foldl (addFlow p) s).throughputSquareSum =
      s.throughputSquareSum + (flows.map (·.2.throughput ^ 2)).sum := by
  induction flows generalizing s with
  | nil => simp
  | cons f flows ih => rw [List.foldl_cons, ih, List.map_cons, List.sum_cons, ← add_assoc, sq]; rfl

theorem simulate_foldl (js : List (Fin 10)) (c : Collected) :
    js.foldl (simulate p getFlowStats) c =
      { dataset1 := c.dataset1 ++ js.map fun j => (packetSize j, (sums p (getFlowStats j)).avgThroughput)
        datasetFairness := c.datasetFairness ++ js.map fun j => (packetSize j, (sums p (getFlowStats j)).fairness)
        printed := c.printed ++ js.map fun j => report p (getFlowStats j) (packetSize j) } := by
  induction js generalizing c with
  | nil => simp
  | cons j js ih => rw [List.foldl_cons, ih]; simp [simulate]

end Loops

/-- One point for each packet size. -/
theorem main_plot4 (p : Program) (getFlowStats : Fin 10 → FlowStatsContainer) (j : Fin 10) :
    (main p getFlowStats).plot4.dataset[j]? = some (packetSize j, (sums p (getFlowStats j)).fairness) := by
  change ((List.finRange 10).foldl (simulate p getFlowStats) ⟨[], [], []⟩).datasetFairness[j.val]? = _
  rw [simulate_foldl]
  simp

end NetworkOs.Tcp
