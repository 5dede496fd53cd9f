import NetworkOs.Library.Recency

/-! The reference cache against any other way to run a cache on the same requests, also
one that knows them in advance. A potential charges the evictions of the other cache to
the entries that the reference cache still holds. -/
namespace Paging
open Recency

variable {κ ν : Type*} [BEq κ] [LawfulBEq κ] [DecidableEq κ]

/-- A cache of `size` keys serves the requests and misses so many of them. A missing key
is brought in; keys may leave with every request. -/
inductive Serves (size : Nat) : Finset κ → List κ → Nat → Prop where
  | done (held : Finset κ) : Serves size held [] 0
  | hit {held kept : Finset κ} {k : κ} {rest : List κ} {misses : Nat} (here : k ∈ held) (left : kept ⊆ held)
      (later : Serves size kept rest misses) : Serves size held (k :: rest) misses
  | miss {held kept : Finset κ} {k : κ} {rest : List κ} {misses : Nat} (missing : k ∉ held)
      (brought : k ∈ kept) (left : kept ⊆ insert k held) (fits : kept.card ≤ size)
      (later : Serves size kept rest misses) : Serves size held (k :: rest) (misses + 1)

/-- The keys of the reference cache that the other one does not hold, each with its
distance from the end of a full list. -/
def debt (cap : Nat) (order : List κ) (held : Finset κ) : Nat :=
  ∑ k ∈ order.toFinset \ held, (cap - order.idxOf k)

section Potential
variable {cap size : Nat} {order : List κ} {held kept : Finset κ} {k : κ}

omit [LawfulBEq κ] in
theorem debt_anti (cap : Nat) (order : List κ) (more : kept ⊆ held) : debt cap order held ≤ debt cap order kept :=
  Finset.sum_le_sum_of_subset (Finset.sdiff_subset_sdiff subset_rfl more)

omit [LawfulBEq κ] in
/-- An eviction raises the debt by no more than the capacity for each key. -/
theorem debt_evict (cap : Nat) (order : List κ) (left : kept ⊆ held) :
    debt cap order kept + cap * kept.card ≤ debt cap order held + cap * held.card := by
  have split : order.toFinset \ kept ⊆ (order.toFinset \ held) ∪ (held \ kept) := by
    intro k member
    rw [Finset.mem_sdiff] at member
    by_cases here : k ∈ held
    · exact Finset.mem_union_right _ (Finset.mem_sdiff.mpr ⟨here, member.2⟩)
    · exact Finset.mem_union_left _ (Finset.mem_sdiff.mpr ⟨member.1, here⟩)
  have evicted : ∑ k ∈ held \ kept, (cap - order.idxOf k) ≤ cap * (held \ kept).card := by
    refine (Finset.sum_le_card_nsmul _ _ cap fun k _ => Nat.sub_le _ _).trans ?_
    rw [smul_eq_mul, Nat.mul_comm]
  have whole : debt cap order kept ≤ debt cap order held + ∑ k ∈ held \ kept, (cap - order.idxOf k) := by
    refine (Finset.sum_le_sum_of_subset split).trans ?_
    rw [debt, ← Finset.sum_union_inter]
    exact Nat.le_add_right _ _
  have counted : cap * held.card = cap * (held \ kept).card + cap * kept.card := by
    rw [← Nat.mul_add, Finset.card_sdiff_add_card_eq_card left]
  omega

omit [LawfulBEq κ] in
/-- A key that the other cache brings in costs it no more than the capacity. -/
theorem debt_bring (cap : Nat) (order : List κ) (brought : k ∈ kept) (left : kept ⊆ insert k held) :
    debt cap order kept + cap * kept.card ≤ debt cap order held + cap * held.card + cap := by
  have others : kept.erase k ⊆ held := by
    intro other member
    rw [Finset.mem_erase] at member
    exact (Finset.mem_insert.mp (left member.2)).resolve_left member.1
  have evicted := debt_evict cap order others
  have entered := debt_anti cap order (Finset.erase_subset k kept)
  have counted : cap * kept.card = cap * (kept.erase k).card + cap := by
    rw [← Finset.card_erase_add_one brought, Nat.mul_add, Nat.mul_one]
  omega

theorem idxOf_le_touched {other : κ} (apart : other ≠ k) (order : List κ) :
    order.idxOf other ≤ (k :: order.erase k).idxOf other := by
  induction order with
  | nil => simp
  | cons first rest ih =>
      by_cases same : first = k
      · rw [same, List.erase_cons_head]
      · rw [List.erase_cons_tail (by simpa using same)]
        rw [List.idxOf_cons_ne _ apart.symm] at ih ⊢
        by_cases here : first = other
        · rw [List.idxOf_cons_eq _ here]
          exact Nat.zero_le _
        · rw [List.idxOf_cons_ne _ here, List.idxOf_cons_ne _ here]
          omega

theorem debt_touch (cap : Nat) (order : List κ) (here : k ∈ held) : debt cap (k :: order.erase k) held ≤ debt cap order held := by
  have fewer : (k :: order.erase k).toFinset \ held ⊆ order.toFinset \ held := by
    intro other member
    rw [Finset.mem_sdiff, List.mem_toFinset, List.mem_cons] at member
    rcases member.1 with rfl | listed
    · exact absurd here member.2
    · exact Finset.mem_sdiff.mpr ⟨List.mem_toFinset.mpr (List.mem_of_mem_erase listed), member.2⟩
  refine (Finset.sum_le_sum fun other member => ?_).trans (Finset.sum_le_sum_of_subset fewer)
  have apart : other ≠ k := fun same => (Finset.mem_sdiff.mp member).2 (same ▸ here)
  exact Nat.sub_le_sub_left (idxOf_le_touched apart order) cap

/-- A key put before others lowers what each of them is charged with. -/
theorem debt_push {rest : List κ} (here : k ∈ held) (fresh : k ∉ rest) (fits : rest.length < cap) :
    debt cap (k :: rest) held + (rest.toFinset \ held).card = debt cap rest held := by
  have same : (k :: rest).toFinset \ held = rest.toFinset \ held := by
    rw [List.toFinset_cons, Finset.insert_sdiff_of_mem _ here]
  rw [debt, same, Finset.card_eq_sum_ones, ← Finset.sum_add_distrib]
  refine Finset.sum_congr rfl fun other member => ?_
  have listed := List.mem_toFinset.mp (Finset.mem_sdiff.mp member).1
  have apart : k ≠ other := fun same => fresh (same ▸ listed)
  have place := List.idxOf_lt_length_of_mem listed
  rw [List.idxOf_cons_ne _ apart]
  omega

/-- The last key of a full list is charged with 1. -/
theorem debt_concat (held : Finset κ) {rest : List κ} {last : κ} (once : (rest ++ [last]).Nodup)
    (full : (rest ++ [last]).length = cap) :
    debt cap (rest ++ [last]) held + (rest.toFinset \ held).card =
      debt cap rest held + ((rest ++ [last]).toFinset \ held).card := by
  have fresh : last ∉ rest := fun member => (List.nodup_append.mp once).2.2 last member last (by simp) rfl
  have kept : ∑ k ∈ rest.toFinset \ held, (cap - (rest ++ [last]).idxOf k) = debt cap rest held := by
    refine Finset.sum_congr rfl fun k member => ?_
    rw [List.idxOf_append_of_mem (List.mem_toFinset.mp (Finset.mem_sdiff.mp member).1)]
  have parts : (rest ++ [last]).toFinset \ held = (rest.toFinset \ held) ∪ ({last} \ held) := by
    rw [List.toFinset_append, Finset.union_sdiff_distrib]
    rfl
  have apart : Disjoint (rest.toFinset \ held) ({last} \ held) := by
    refine Finset.disjoint_left.mpr fun k member also => ?_
    rw [Finset.mem_sdiff, Finset.mem_singleton] at also
    exact fresh (List.mem_toFinset.mp (also.1 ▸ (Finset.mem_sdiff.mp member).1))
  have charge : ∑ k ∈ {last} \ held, (cap - (rest ++ [last]).idxOf k) = ({last} \ held).card := by
    rw [Finset.card_eq_sum_ones]
    refine Finset.sum_congr rfl fun k member => ?_
    rw [Finset.mem_singleton.mp (Finset.mem_sdiff.mp member).1, List.idxOf_append_of_notMem fresh,
      List.idxOf_cons_self]
    rw [List.length_append, List.length_singleton] at full
    omega
  rw [debt, parts, Finset.sum_union apart, Finset.card_union_of_disjoint apart, kept, charge]
  omega

/-- A key that enters a full list lowers the debt by one for each key that the other
cache does not hold, of which there are many when that cache is small. -/
theorem debt_full (once : order.Nodup) (full : order.length = cap) (positive : 0 < cap) (here : k ∈ held)
    (fresh : k ∉ order) (small : held.card ≤ size) :
    debt cap (k :: order.dropLast) held + (cap + 1 - size) ≤ debt cap order held := by
  obtain ⟨rest, last, rfl⟩ : ∃ rest last, order = rest ++ [last] := by
    have some_ : order ≠ [] := by
      rintro rfl
      exact positive.ne full
    exact ⟨_, _, (List.dropLast_append_getLast some_).symm⟩
  have shorter : rest.length < cap := by
    rw [List.length_append, List.length_singleton] at full
    omega
  have entered := debt_push here (fun member => fresh (List.mem_append_left _ member)) shorter
  have left := debt_concat held once full
  have shared : (rest ++ [last]).toFinset ∩ held ⊆ held.erase k := by
    intro other member
    rw [Finset.mem_inter, List.mem_toFinset] at member
    exact Finset.mem_erase.mpr ⟨fun same => fresh (same ▸ member.1), member.2⟩
  have few := Finset.card_le_card shared
  rw [Finset.card_erase_of_mem here] at few
  have all := Finset.card_sdiff_add_card_inter (rest ++ [last]).toFinset held
  rw [List.toFinset_card_of_nodup once, full] at all
  have some_ := Finset.card_pos.mpr ⟨k, here⟩
  rw [List.dropLast_concat]
  omega

end Potential

section Requests
variable {cap size : Nat} {l : List (κ × ν)} {held : Finset κ}

/-- One request, which the other cache holds by then: what the reference cache pays for
its fetch comes out of the debt, or it fills up. -/
theorem serve_charged (h : WellFormed cap l) (positive : 0 < cap) {r : κ × ν} (here : r.1 ∈ held)
    (small : held.card ≤ size) :
    (cap + 1 - size) * (if l.lookup r.1 = none then 1 else 0) +
        (cap + 1 - size) * (cap - (serve cap l r).2.length) + debt cap ((serve cap l r).2.map Prod.fst) held ≤
      (cap + 1 - size) * (cap - l.length) + debt cap (l.map Prod.fst) held := by
  unfold serve
  cases found : l.lookup r.1 with
  | some v =>
      have listed : r.1 ∈ l.map Prod.fst := List.mem_map.mpr ⟨(r.1, v), lookup_mem found, rfl⟩
      have keys := keys_touch h r.1 v
      have length : (touch r.1 v l).length = l.length := by
        have moved := congrArg List.length keys
        have some_ := List.length_pos_of_mem listed
        rw [List.length_cons, List.length_erase_of_mem listed, List.length_map, List.length_map] at moved
        rw [List.length_map] at some_
        omega
      have touched := debt_touch cap (l.map Prod.fst) here
      simp only [keys, length]
      simpa using touched
  | none =>
      have fresh := lookup_none_iff.mp found
      have once := h.nodup
      have bound := h.bound
      simp only [Recency.insert, if_true, Nat.mul_one]
      split_ifs with full
      · have entered := debt_full once (by rwa [List.length_map]) positive here fresh small
        have length : (r :: l.dropLast).length = l.length := by
          rw [List.length_cons, List.length_dropLast]
          omega
        simp only [List.map_cons, List.map_dropLast, List.length_cons] at length ⊢
        rw [length]
        omega
      · have fits : (l.map Prod.fst).length < cap := by
          rw [List.length_map]
          omega
        have entered := debt_push here fresh fits
        have room : (cap + 1 - size) * (cap - l.length) =
            (cap + 1 - size) + (cap + 1 - size) * (cap - (l.length + 1)) := by
          rw [show cap - l.length = 1 + (cap - (l.length + 1)) by omega, Nat.mul_add, Nat.mul_one]
        simp only [List.map_cons, List.length_cons]
        omega

/-- A run of requests, by induction on the requests. -/
theorem fetches_charged (h : WellFormed cap l) (positive : 0 < cap) {requests : List (κ × ν)} {misses : Nat}
    (small : held.card ≤ size) (served : Serves size held (requests.map Prod.fst) misses) :
    (cap + 1 - size) * (fetches cap l requests).length ≤
      cap * misses + (cap + 1 - size) * (cap - l.length) + debt cap (l.map Prod.fst) held + cap * held.card := by
  induction requests generalizing l held misses with
  | nil => simp [fetches]
  | cons r rest ih =>
      have paid : (cap + 1 - size) * (fetches cap l (r :: rest)).length =
          (cap + 1 - size) * (if l.lookup r.1 = none then 1 else 0) +
            (cap + 1 - size) * (fetches cap (serve cap l r).2 rest).length := by
        simp only [fetches]
        split_ifs <;> simp [Nat.mul_add, Nat.add_comm]
      have next := serve_wellFormed h positive r
      rw [List.map_cons] at served
      cases served with
      | hit here left later =>
          have charged := serve_charged h positive here small
          have remaining := ih next ((Finset.card_le_card left).trans small) later
          have evicted := debt_evict cap ((serve cap l r).2.map Prod.fst) left
          omega
      | miss missing brought left fits later =>
          have charged := serve_charged h positive brought fits
          have remaining := ih next fits later
          have entered := debt_bring cap (l.map Prod.fst) brought left
          rw [Nat.mul_add, Nat.mul_one]
          omega

/-- On any requests the reference cache fetches at most `cap / (cap + 1 - size)` times as
often as a cache of `size` keys has to, and `cap` times more. -/
theorem fetches_competitive (positive : 0 < cap) {requests : List (κ × ν)} {misses : Nat}
    (served : Serves size ∅ (requests.map Prod.fst) misses) :
    (cap + 1 - size) * (fetches cap [] requests).length ≤ cap * misses + (cap + 1 - size) * cap := by
  have charged := fetches_charged (wellFormed_nil cap) positive (Nat.zero_le _) served
  simpa [debt] using charged

end Requests
end Paging
