import Mathlib

/-! A message queue read by type: a reader takes the first message of the type it asks
for, so that each type is a first-in-first-out channel of its own. -/
namespace Mailbox

variable {α κ : Type*} [DecidableEq κ] (key : α → κ)

/-- The messages of one type, in the order they were posted. -/
def channel (k : κ) (queue : List α) : List α := queue.filter fun m => key m = k

/-- The first message of the type, and the queue without it. -/
def receive (k : κ) : List α → Option (α × List α)
  | [] => none
  | m :: rest =>
      if key m = k then some (m, rest) else (receive k rest).map fun taken => (taken.1, m :: taken.2)

variable {key} {k : κ} {queue rest : List α} {m : α}

theorem channel_append (before after : List α) :
    channel key k (before ++ after) = channel key k before ++ channel key k after :=
  List.filter_append before after

theorem channel_cons_same (m : α) (queue : List α) :
    channel key (key m) (m :: queue) = m :: channel key (key m) queue :=
  List.filter_cons_of_pos (decide_eq_true rfl)

theorem channel_cons_other (other : key m ≠ k) : channel key k (m :: queue) = channel key k queue :=
  List.filter_cons_of_neg (by simpa using other)

theorem mem_channel : m ∈ channel key k queue ↔ m ∈ queue ∧ key m = k := by
  simp [channel]

theorem channel_post_same (m : α) (queue : List α) :
    channel key (key m) (queue ++ [m]) = channel key (key m) queue ++ [m] := by
  rw [channel_append, channel_cons_same]
  rfl

theorem channel_post_other (other : key m ≠ k) : channel key k (queue ++ [m]) = channel key k queue := by
  rw [channel_append, channel_cons_other other]
  exact List.append_nil _

/-- A reader is blocked exactly when the channel is empty. -/
theorem receive_none : receive key k queue = none ↔ channel key k queue = [] := by
  induction queue with
  | nil => exact iff_of_true rfl rfl
  | cons m rest ih =>
      by_cases same : key m = k
      · subst same
        rw [channel_cons_same]
        simp [receive]
      · rw [channel_cons_other same, ← ih]
        simp [receive, same]

/-- What a reader takes is the head of the channel; the other channels stay. -/
theorem receive_some (taken : receive key k queue = some (m, rest)) :
    key m = k ∧ channel key k queue = m :: channel key k rest ∧
      (∀ k', k' ≠ k → channel key k' rest = channel key k' queue) ∧ ∀ m' ∈ rest, m' ∈ queue := by
  induction queue generalizing m rest with
  | nil => exact nomatch taken
  | cons first later ih =>
      by_cases same : key first = k
      · simp only [receive, same, if_true, Option.some.injEq, Prod.mk.injEq] at taken
        obtain ⟨rfl, rfl⟩ := taken
        refine ⟨same, ?_, ?_, fun m' member => List.mem_cons_of_mem _ member⟩
        · rw [← same, channel_cons_same]
        · intro k' other
          rw [channel_cons_other (fun eq => other (eq.symm.trans same))]
      · simp only [receive, same, if_false, Option.map_eq_some_iff, Prod.mk.injEq] at taken
        obtain ⟨⟨m', rest'⟩, found, rfl, rfl⟩ := taken
        obtain ⟨key_eq, head, others, subset⟩ := ih found
        refine ⟨key_eq, ?_, ?_, ?_⟩
        · rw [channel_cons_other same, channel_cons_other same, head]
        · intro k' other
          by_cases own : key first = k'
          · subst own
            rw [channel_cons_same, channel_cons_same, others _ other]
          · rw [channel_cons_other own, channel_cons_other own, others k' other]
        · intro m'' member
          rcases List.mem_cons.mp member with rfl | later
          · exact List.mem_cons_self
          · exact List.mem_cons_of_mem _ (subset m'' later)

theorem receive_isSome (some_ : channel key k queue ≠ []) : (receive key k queue).isSome := by
  rw [Option.isSome_iff_ne_none]
  exact mt receive_none.mp some_

/-- When every type is one of `f`, the channels of `f` make up the queue. -/
theorem length_eq_sum {ι : Type*} [Fintype ι] {f : ι → κ} (injective : Function.Injective f)
    (types : ∀ m ∈ queue, ∃ x, key m = f x) : queue.length = ∑ x, (channel key (f x) queue).length := by
  classical
  induction queue with
  | nil => simp [channel]
  | cons m rest ih =>
      obtain ⟨x, type⟩ := types m List.mem_cons_self
      have split : ∀ y, (channel key (f y) (m :: rest)).length =
          (channel key (f y) rest).length + if x = y then 1 else 0 := by
        intro y
        by_cases same : x = y
        · subst same
          rw [← type, channel_cons_same, if_pos rfl, List.length_cons]
        · have other : key m ≠ f y := fun eq => same (injective (type.symm.trans eq))
          rw [channel_cons_other other, if_neg same, Nat.add_zero]
      rw [List.length_cons, ih fun m' member => types m' (List.mem_cons_of_mem _ member),
        Finset.sum_congr rfl fun y _ => split y, Finset.sum_add_distrib, Finset.sum_ite_eq, if_pos (Finset.mem_univ x)]

end Mailbox
