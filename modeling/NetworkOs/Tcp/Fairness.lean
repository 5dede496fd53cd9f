import NetworkOs.Library.Fairness
import NetworkOs.Tcp.Flows

/-! The plotted fairness. The divisor is written for six flows, whatever the monitor has
recorded. -/
namespace NetworkOs.Tcp
open Fairness

def FlowStatsContainer.throughputs (fsc : FlowStatsContainer) (i : Fin fsc.flows.length) : ℚ :=
  fsc.flows[i].2.throughput

/-- The value is the fairness index of the flows, with its bounds. -/
structure IsFairness (fsc : FlowStatsContainer) (value : ℚ) : Prop where
  index : value = fairnessIndex fsc.throughputs
  lower : 1 / (fsc.flows.length : ℚ) ≤ value
  upper : value ≤ 1
  even : value = 1 ↔ ∀ i k, fsc.throughputs i = fsc.throughputs k

section Flows
variable (p : Program) {fsc : FlowStatsContainer}

theorem sums_throughputSum (fsc : FlowStatsContainer) : (sums p fsc).throughputSum = ∑ i, fsc.throughputs i := by
  rw [sums, throughputSum_foldl, zero_add]
  exact (Fin.sum_univ_fun_getElem fsc.flows (·.2.throughput)).symm

theorem sums_throughputSquareSum (fsc : FlowStatsContainer) :
    (sums p fsc).throughputSquareSum = ∑ i, fsc.throughputs i ^ 2 := by
  rw [sums, throughputSquareSum_foldl, zero_add]
  exact (Fin.sum_univ_fun_getElem fsc.flows (·.2.throughput ^ 2)).symm

/-- The index is scaled by the number of flows over six. -/
theorem fairness_eq (some_flow : 1 ≤ fsc.flows.length) :
    (sums p fsc).fairness = (fsc.flows.length : ℚ) / 6 * fairnessIndex fsc.throughputs := by
  have flows : (fsc.flows.length : ℚ) ≠ 0 := Nat.cast_ne_zero.mpr (Nat.one_le_iff_ne_zero.mp some_flow)
  rw [Sums.fairness, sums_throughputSum, sums_throughputSquareSum, fairnessIndex, Fintype.card_fin, ← sq]
  by_cases none_ : ∑ i, fsc.throughputs i ^ 2 = 0
  · simp [none_]
  · field_simp

section Positive
variable (some_flow : 1 ≤ fsc.flows.length) (positive : ∀ i, 0 < fsc.throughputs i)
include some_flow positive

theorem some_throughput : ∃ i, fsc.throughputs i ≠ 0 := ⟨⟨0, some_flow⟩, (positive _).ne'⟩

theorem index_isFairness : IsFairness fsc (fairnessIndex fsc.throughputs) where
  index := rfl
  lower := by
    have lower := one_div_card_le_fairnessIndex (fun i => (positive i).le) (some_throughput some_flow positive)
    rwa [Fintype.card_fin] at lower
  upper := fairnessIndex_le_one _
  even := fairnessIndex_eq_one_iff (some_throughput some_flow positive)

/-- The plotted value lies in these bounds, of which the upper one grows with the flows. -/
theorem fairness_bounds :
    1 / 6 ≤ (sums p fsc).fairness ∧ (sums p fsc).fairness ≤ (fsc.flows.length : ℚ) / 6 := by
  have flows : (0 : ℚ) < fsc.flows.length := Nat.cast_pos.mpr some_flow
  have bounds := index_isFairness some_flow positive
  rw [fairness_eq p some_flow]
  constructor
  · calc (1 : ℚ) / 6 = (fsc.flows.length : ℚ) / 6 * (1 / fsc.flows.length) := by field_simp
      _ ≤ (fsc.flows.length : ℚ) / 6 * fairnessIndex fsc.throughputs := by gcongr; exact bounds.lower
  · exact mul_le_of_le_one_right (by positivity) bounds.upper

/-- Flows that share evenly are plotted as perfectly fair only if there are six of them. -/
theorem even_fairness (even : ∀ i k, fsc.throughputs i = fsc.throughputs k) :
    (sums p fsc).fairness = (fsc.flows.length : ℚ) / 6 := by
  rw [fairness_eq p some_flow, (index_isFairness some_flow positive).even.mpr even, mul_one]

theorem fairness_isFairness_iff : IsFairness fsc (sums p fsc).fairness ↔ fsc.flows.length = 6 := by
  have index := fairnessIndex_pos (fun i => (positive i).le) (some_throughput some_flow positive)
  constructor
  · intro fair
    have scale : (fsc.flows.length : ℚ) / 6 = 1 :=
      (mul_eq_right₀ index.ne').mp ((fairness_eq p some_flow).symm.trans fair.index)
    exact_mod_cast (div_eq_one_iff_eq (by norm_num)).mp scale
  · intro six
    have scale : (fsc.flows.length : ℚ) / 6 = 1 := by rw [six]; norm_num
    rw [fairness_eq p some_flow, scale, one_mul]
    exact index_isFairness some_flow positive

end Positive
end Flows

section Recorded

/-- A flow of this throughput. -/
def flowOf (throughput : ℚ) : FlowStats where
  timeFirstTxPacket := ⟨0⟩
  timeLastRxPacket := ⟨throughput.den * 7812500⟩
  rxBytes := throughput.num.toNat
  lostPackets := 0

theorem throughput_flowOf {q : ℚ} (positive : 0 < q) : (flowOf q).throughput = q := by
  have num : ((q.num.toNat : Nat) : ℚ) = q.num := by
    exact_mod_cast Int.toNat_of_nonneg (Rat.num_pos.mpr positive).le
  have den : (q.den : ℚ) ≠ 0 := Nat.cast_ne_zero.mpr q.den_nz
  simp only [FlowStats.throughput, flowOf, Time.getSeconds, num]
  push_cast
  rw [zero_div, sub_zero]
  field_simp
  rw [← Rat.mul_den_eq_num]
  ring

/-- The flows of a list of throughputs, with the ids from 1 on. -/
def recorded (throughputs : List ℚ) : FlowStatsContainer where
  flows := throughputs.mapIdx fun i q => (i + 1, flowOf q)
  ascending := by
    rw [List.pairwise_map, List.pairwise_iff_getElem]
    intro i k _ _ below
    simpa using below

/-- Positive throughputs of any number of flows can be recorded. -/
theorem throughputs_recorded {l : List ℚ} (positive : ∀ q ∈ l, 0 < q) (i : Fin (recorded l).flows.length) :
    ∃ inside : i.val < l.length, (recorded l).throughputs i = l[i.val] := by
  have inside : i.val < l.length := by simpa [recorded] using i.isLt
  have flow : (recorded l).flows.get i = (i.val + 1, flowOf l[i.val]) := List.getElem_mapIdx
  refine ⟨inside, ?_⟩
  change ((recorded l).flows.get i).2.throughput = _
  rw [flow]
  exact throughput_flowOf (positive _ (List.getElem_mem inside))

theorem recorded_positive {l : List ℚ} (positive : ∀ q ∈ l, 0 < q) (i : Fin (recorded l).flows.length) :
    0 < (recorded l).throughputs i := by
  obtain ⟨inside, same⟩ := throughputs_recorded positive i
  exact same ▸ positive _ (List.getElem_mem inside)

end Recorded

/-- What either program plots for a packet size is the fairness of the recorded flows
exactly if they are six. -/
theorem plotted_fairness_iff (p : Program) (getFlowStats : Fin 10 → FlowStatsContainer) (j : Fin 10)
    (some_flow : 1 ≤ (getFlowStats j).flows.length) (positive : ∀ i, 0 < (getFlowStats j).throughputs i) :
    (∃ value, (main p getFlowStats).plot4.dataset[j]? = some (packetSize j, value) ∧
      IsFairness (getFlowStats j) value) ↔ (getFlowStats j).flows.length = 6 := by
  rw [main_plot4]
  simp only [Option.some.injEq, Prod.mk.injEq, true_and, exists_eq_left']
  exact fairness_isFairness_iff p some_flow positive

theorem plotted_fairness_iff_six : ∃ value,
    (main wirelessTCP fun _ => recorded [1, 2, 3, 4, 5, 6]).plot4.dataset[0]? = some (packetSize 0, value) ∧
      IsFairness (recorded [1, 2, 3, 4, 5, 6]) value :=
  (plotted_fairness_iff wirelessTCP (fun _ => recorded [1, 2, 3, 4, 5, 6]) 0 (by decide)
    (recorded_positive (by simp))).mpr rfl

/-- A single flow is plotted as a sixth. -/
theorem single_flow_unfair : ¬ ∀ (p : Program) (getFlowStats : Fin 10 → FlowStatsContainer) (j : Fin 10),
    1 ≤ (getFlowStats j).flows.length → (∀ i, 0 < (getFlowStats j).throughputs i) →
      ∃ value, (main p getFlowStats).plot4.dataset[j]? = some (packetSize j, value) ∧
        IsFairness (getFlowStats j) value := by
  intro claim
  have positive := recorded_positive (show ∀ q ∈ [(1 : ℚ)], 0 < q by simp)
  obtain ⟨value, plotted, fair⟩ := claim wiredTCP (fun _ => recorded [1]) 0 (by decide) positive
  rw [main_plot4] at plotted
  obtain rfl : (sums wiredTCP (recorded [1])).fairness = value := (Prod.mk.inj (Option.some.inj plotted)).2
  have six := (fairness_isFairness_iff wiredTCP (by decide) positive).mp fair
  exact absurd six (by decide)

end NetworkOs.Tcp
