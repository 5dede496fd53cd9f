import Mathlib

/-! The reference least-recently-used cache: a list of entries, the most recently
requested key first, cut off at the capacity. -/
namespace Recency

variable {κ ν : Type*} [BEq κ] [LawfulBEq κ]

/-- The entry of `k` comes to the front. -/
def touch (k : κ) (v : ν) (l : List (κ × ν)) : List (κ × ν) :=
  (k, v) :: l.filter fun e => e.1 != k

/-- A new entry comes to the front; in a full cache the last one leaves. -/
def insert (cap : Nat) (k : κ) (v : ν) (l : List (κ × ν)) : List (κ × ν) :=
  (k, v) :: if l.length = cap then l.dropLast else l

/-- One request: a listed key is answered from the list, any other key with the
fetched value, which is then listed. -/
def serve (cap : Nat) (l : List (κ × ν)) (r : κ × ν) : ν × List (κ × ν) :=
  match l.lookup r.1 with
  | some v => (v, touch r.1 v l)
  | none => (r.2, insert cap r.1 r.2 l)

/-- The answers to a sequence of requests and the entries after it. -/
def serveAll (cap : Nat) : List (κ × ν) → List (κ × ν) → List ν × List (κ × ν)
  | l, [] => ([], l)
  | l, r :: rest =>
      let (v, l') := serve cap l r
      let (vs, l'') := serveAll cap l' rest
      (v :: vs, l'')

/-- The requests that found their key unlisted, in order. -/
def fetches (cap : Nat) : List (κ × ν) → List (κ × ν) → List (κ × ν)
  | _, [] => []
  | l, r :: rest =>
      let later := fetches cap (serve cap l r).2 rest
      if l.lookup r.1 = none then r :: later else later

/-- The distinct keys requested so far, the latest request first. -/
def recent (order : List κ) : List κ → List κ
  | [] => order
  | k :: rest => recent (k :: order.erase k) rest

/-- At most `cap` entries with distinct keys. -/
structure WellFormed (cap : Nat) (l : List (κ × ν)) : Prop where
  bound : l.length ≤ cap
  nodup : (l.map Prod.fst).Nodup

omit [BEq κ] [LawfulBEq κ] in
theorem wellFormed_nil (cap : Nat) : WellFormed cap ([] : List (κ × ν)) :=
  ⟨Nat.zero_le _, List.nodup_nil⟩

theorem lookup_mem {l : List (κ × ν)} {k : κ} {v : ν} (h : l.lookup k = some v) : (k, v) ∈ l := by
  induction l with
  | nil => simp at h
  | cons e l ih =>
      obtain ⟨k', v'⟩ := e
      by_cases same : k = k'
      · subst k'
        simp only [List.lookup_cons, beq_self_eq_true, Option.some.injEq] at h
        exact h ▸ List.mem_cons_self
      · simp only [List.lookup_cons, beq_eq_false_iff_ne.mpr same] at h
        exact List.mem_cons_of_mem _ (ih h)

theorem lookup_none_iff {l : List (κ × ν)} {k : κ} : l.lookup k = none ↔ k ∉ l.map Prod.fst := by
  rw [List.lookup_eq_none_iff]
  constructor
  · intro other member
    obtain ⟨e, listed, same⟩ := List.mem_map.mp member
    exact absurd same.symm (bne_iff_ne.mp (other e listed))
  · intro unlisted e listed
    refine bne_iff_ne.mpr fun same => unlisted ?_
    exact same ▸ List.mem_map_of_mem listed

omit [LawfulBEq κ] in
theorem map_fst_filter (l : List (κ × ν)) (k : κ) :
    (l.filter fun e => e.1 != k).map Prod.fst = (l.map Prod.fst).filter (· != k) := by
  simp only [List.filter_map, Function.comp_def]

theorem keys_touch {cap : Nat} {l : List (κ × ν)} (h : WellFormed cap l) (k : κ) (v : ν) :
    (touch k v l).map Prod.fst = k :: (l.map Prod.fst).erase k := by
  rw [touch, List.map_cons, map_fst_filter, h.nodup.erase_eq_filter]

theorem touch_wellFormed {cap : Nat} {l : List (κ × ν)} {k : κ} {v : ν} (h : WellFormed cap l)
    (listed : (k, v) ∈ l) : WellFormed cap (touch k v l) := by
  have member : k ∈ l.map Prod.fst := List.mem_map_of_mem listed
  constructor
  · have keys := congrArg List.length (keys_touch h k v)
    have positive := List.length_pos_of_mem member
    rw [List.length_cons, List.length_erase_of_mem member, List.length_map, List.length_map] at keys
    rw [List.length_map] at positive
    have bound := h.bound
    omega
  · rw [keys_touch h]
    exact List.nodup_cons.mpr ⟨fun still => (h.nodup.mem_erase_iff.mp still).1 rfl, h.nodup.erase k⟩

omit [BEq κ] [LawfulBEq κ] in
theorem insert_wellFormed {cap : Nat} {l : List (κ × ν)} {k : κ} {v : ν} (h : WellFormed cap l)
    (positive : 0 < cap) (unlisted : k ∉ l.map Prod.fst) : WellFormed cap (insert cap k v l) := by
  have bound := h.bound
  unfold insert
  split_ifs with full
  · refine ⟨by simp only [List.length_cons, List.length_dropLast]; omega, ?_⟩
    rw [List.map_cons, List.map_dropLast]
    exact List.nodup_cons.mpr
      ⟨fun still => unlisted (List.mem_of_mem_dropLast still), h.nodup.sublist (List.dropLast_sublist _)⟩
  · exact ⟨by simp only [List.length_cons]; omega, List.nodup_cons.mpr ⟨unlisted, h.nodup⟩⟩

theorem serve_wellFormed {cap : Nat} {l : List (κ × ν)} (h : WellFormed cap l) (positive : 0 < cap)
    (r : κ × ν) : WellFormed cap (serve cap l r).2 := by
  unfold serve
  cases found : l.lookup r.1 with
  | some v => exact touch_wellFormed h (lookup_mem found)
  | none => exact insert_wellFormed h positive (lookup_none_iff.mp found)

/-- Moving a key to the front commutes with cutting the order off behind it. -/
theorem take_recent_listed {cap : Nat} {order : List κ} {k : κ} (listed : k ∈ order.take cap) :
    (k :: order.erase k).take cap = k :: (order.take cap).erase k := by
  have positive : 0 < cap := by
    refine Nat.pos_of_ne_zero fun zero => ?_
    simp [zero] at listed
  obtain ⟨before, after, split, fresh⟩ := List.eq_append_cons_of_mem listed
  obtain ⟨n, rfl⟩ : ∃ n, cap = n + 1 := ⟨cap - 1, by omega⟩
  have whole : order = before ++ k :: (after ++ order.drop (n + 1)) := by
    rw [← List.cons_append, ← List.append_assoc, ← split, List.take_append_drop]
  rw [List.take_succ_cons, split, List.erase_append_right _ fresh, List.erase_cons_head]
  have size : (before ++ after).length ≤ n ∧
      ((before ++ after).length < n → order.drop (n + 1) = []) := by
    have bound := congrArg List.length split
    simp only [List.length_take, List.length_append, List.length_cons] at bound ⊢
    exact ⟨by omega, fun short => List.drop_eq_nil_iff.mpr (by omega)⟩
  conv_lhs => rw [whole, List.erase_append_right _ fresh, List.erase_cons_head, ← List.append_assoc]
  rcases Nat.lt_or_ge (before ++ after).length n with short | exact_
  · rw [size.2 short, List.append_nil, List.take_of_length_le size.1]
  · have same : n = (before ++ after).length := Nat.le_antisymm exact_ size.1
    rw [same, List.take_left']
    rfl

theorem take_recent_unlisted {cap : Nat} {order : List κ} {k : κ} (positive : 0 < cap)
    (unlisted : k ∉ order.take cap) :
    (k :: order.erase k).take cap =
      k :: if (order.take cap).length = cap then (order.take cap).dropLast else order.take cap := by
  obtain ⟨n, rfl⟩ : ∃ n, cap = n + 1 := ⟨cap - 1, by omega⟩
  have erased : order.erase k = order.take (n + 1) ++ (order.drop (n + 1)).erase k := by
    conv_lhs => rw [← List.take_append_drop (n + 1) order, List.erase_append_right _ unlisted]
  rw [List.take_succ_cons, erased]
  congr 1
  split_ifs with full
  · rw [List.take_append_of_le_length (by omega), List.dropLast_eq_take, full, Nat.add_sub_cancel]
  · have size := List.length_take_le (n + 1) order
    have none_left : order.drop (n + 1) = [] := by
      rw [List.length_take] at full
      exact List.drop_eq_nil_iff.mpr (by omega)
    rw [none_left, List.erase_nil, List.append_nil, List.take_of_length_le (by omega)]

theorem serve_keys {cap : Nat} {l : List (κ × ν)} {order : List κ} (h : WellFormed cap l)
    (positive : 0 < cap) (keys : l.map Prod.fst = order.take cap) (r : κ × ν) :
    (serve cap l r).2.map Prod.fst = (r.1 :: order.erase r.1).take cap := by
  unfold serve
  cases found : l.lookup r.1 with
  | some v =>
      have listed : r.1 ∈ order.take cap := keys ▸ List.mem_map.mpr ⟨(r.1, v), lookup_mem found, rfl⟩
      rw [take_recent_listed listed, ← keys]
      exact keys_touch h r.1 v
  | none =>
      have unlisted : r.1 ∉ order.take cap := keys ▸ lookup_none_iff.mp found
      have size : l.length = (order.take cap).length := by rw [← keys, List.length_map]
      rw [take_recent_unlisted positive unlisted, ← keys, List.length_map]
      simp only [insert, List.map_cons, apply_ite (List.map Prod.fst), List.map_dropLast]

/-- The reference cache lists the most recently requested keys, as many as its
capacity allows. -/
theorem serveAll_keys {cap : Nat} {l : List (κ × ν)} {order : List κ} (h : WellFormed cap l)
    (positive : 0 < cap) (keys : l.map Prod.fst = order.take cap) (requests : List (κ × ν)) :
    WellFormed cap (serveAll cap l requests).2 ∧
      (serveAll cap l requests).2.map Prod.fst = (recent order (requests.map Prod.fst)).take cap := by
  induction requests generalizing l order with
  | nil => exact ⟨h, keys⟩
  | cons r rest ih => exact ih (serve_wellFormed h positive r) (serve_keys h positive keys r)

theorem serve_mem {cap : Nat} {l : List (κ × ν)} {r e : κ × ν} (h : e ∈ (serve cap l r).2) :
    e ∈ l ∧ (e.1 = r.1 → l.lookup r.1 ≠ none) ∨ e = r ∧ l.lookup r.1 = none := by
  unfold serve at h
  cases found : l.lookup r.1 with
  | some v =>
      simp only [found, touch, List.mem_cons] at h
      rcases h with rfl | later
      · exact .inl ⟨lookup_mem found, fun _ => found ▸ Option.some_ne_none v⟩
      · exact .inl ⟨(List.mem_filter.mp later).1, fun _ => found ▸ Option.some_ne_none v⟩
  | none =>
      simp only [found, insert, List.mem_cons] at h
      rcases h with rfl | later
      · exact .inr ⟨rfl, rfl⟩
      · have member : e ∈ l := by
          split_ifs at later
          · exact List.mem_of_mem_dropLast later
          · exact later
        exact .inl ⟨member, fun same => absurd (same ▸ List.mem_map_of_mem member) (lookup_none_iff.mp found)⟩

/-- Every listed value is the one fetched last for its key. -/
theorem serveAll_last_fetched {cap : Nat} {l past : List (κ × ν)}
    (h : ∀ e ∈ l, past.lookup e.1 = some e.2) (requests : List (κ × ν)) :
    ∀ e ∈ (serveAll cap l requests).2,
      ((fetches cap l requests).reverse ++ past).lookup e.1 = some e.2 := by
  induction requests generalizing l past with
  | nil => exact h
  | cons r rest ih =>
      obtain ⟨k, v⟩ := r
      intro e member
      by_cases miss : l.lookup k = none
      · have later : ∀ e ∈ (serve cap l (k, v)).2, ((k, v) :: past).lookup e.1 = some e.2 := by
          intro e listed
          rcases serve_mem listed with ⟨old, other⟩ | ⟨rfl, _⟩
          · have ne : e.1 ≠ k := fun same => other same miss
            simp only [List.lookup_cons, beq_eq_false_iff_ne.mpr ne, h e old]
          · simp
        simpa [fetches, miss] using ih later e member
      · have later : ∀ e ∈ (serve cap l (k, v)).2, past.lookup e.1 = some e.2 := by
          intro e listed
          rcases serve_mem listed with ⟨old, _⟩ | ⟨_, absent⟩
          · exact h e old
          · exact absurd absent miss
        simpa [fetches, miss] using ih later e member

/-- When the fetched value depends on the key alone, so does every listed value. -/
theorem serveAll_fetched {cap : Nat} {l : List (κ × ν)} (fetch : κ → ν) (h : ∀ e ∈ l, e.2 = fetch e.1)
    (keys : List κ) : ∀ e ∈ (serveAll cap l (keys.map fun k => (k, fetch k))).2, e.2 = fetch e.1 := by
  induction keys generalizing l with
  | nil => exact h
  | cons k rest ih =>
      refine ih fun e listed => ?_
      rcases serve_mem listed with ⟨old, _⟩ | ⟨rfl, _⟩
      · exact h e old
      · rfl

theorem serveAll_entries {cap : Nat} (positive : 0 < cap) (fetch : κ → ν) (keys : List κ) :
    (serveAll cap [] (keys.map fun k => (k, fetch k))).2 =
      ((recent [] keys).take cap).map fun k => (k, fetch k) := by
  have listed := (serveAll_keys (wellFormed_nil cap) positive
    (show List.map Prod.fst ([] : List (κ × ν)) = ([] : List κ).take cap by simp)
    (keys.map fun k => (k, fetch k))).2
  have requested : (keys.map fun k => (k, fetch k)).map Prod.fst = keys := by
    simp only [List.map_map, Function.comp_def, List.map_id']
  rw [requested] at listed
  rw [← listed, List.map_map]
  refine (List.map_id _).symm.trans (List.map_congr_left fun e member => ?_)
  have value := serveAll_fetched fetch (l := ([] : List (κ × ν))) (by simp) keys e member
  exact Prod.ext rfl value

/-- A smaller cache holds the first entries of a larger one. -/
theorem serveAll_inclusion {small large : Nat} (positive : 0 < small) (le : small ≤ large) (fetch : κ → ν)
    (keys : List κ) :
    (serveAll small [] (keys.map fun k => (k, fetch k))).2 =
      (serveAll large [] (keys.map fun k => (k, fetch k))).2.take small := by
  rw [serveAll_entries positive, serveAll_entries (positive.trans_le le), ← List.map_take, List.take_take,
    Nat.min_eq_left le]

omit [LawfulBEq κ] in
theorem serveAll_concat (cap : Nat) (l past : List (κ × ν)) (r : κ × ν) :
    (serveAll cap l (past ++ [r])).2 = (serve cap (serveAll cap l past).2 r).2 := by
  induction past generalizing l with
  | nil => rfl
  | cons first rest ih => exact ih _

omit [LawfulBEq κ] in
theorem fetches_concat (cap : Nat) (l past : List (κ × ν)) (r : κ × ν) :
    fetches cap l (past ++ [r]) =
      fetches cap l past ++ if (serveAll cap l past).2.lookup r.1 = none then [r] else [] := by
  induction past generalizing l with
  | nil => rfl
  | cons first rest ih =>
      by_cases miss : l.lookup first.1 = none
      · simp only [List.cons_append, fetches, if_pos miss, ih]
        rfl
      · simp only [List.cons_append, fetches, if_neg miss, ih]
        rfl

section Order
variable {order keys : List κ} {k : κ}

omit [LawfulBEq κ] in
theorem recent_append (order keys later : List κ) :
    recent order (keys ++ later) = recent (recent order keys) later := by
  induction keys generalizing order with
  | nil => rfl
  | cons k rest ih => exact ih (k :: order.erase k)

theorem nodup_touched (once : order.Nodup) (k : κ) : (k :: order.erase k).Nodup :=
  List.nodup_cons.mpr ⟨fun still => (once.mem_erase_iff.mp still).1 rfl, once.erase k⟩

theorem nodup_recent (once : order.Nodup) (keys : List κ) : (recent order keys).Nodup := by
  induction keys generalizing order with
  | nil => exact once
  | cons k rest ih => exact ih (nodup_touched once k)

theorem mem_recent (keys : List κ) : k ∈ recent order keys ↔ k ∈ order ∨ k ∈ keys := by
  induction keys generalizing order with
  | nil => simp [recent]
  | cons first rest ih =>
      rw [recent, ih, List.mem_cons, List.mem_cons]
      by_cases same : k = first
      · simp [same]
      · simp [same, List.mem_erase_of_ne same]

/-- The keys requested last come before all others, which keep their order. -/
theorem recent_eq (once : order.Nodup) (keys : List κ) :
    recent order keys = recent [] keys ++ order.filter fun k => !keys.elem k := by
  induction keys generalizing order with
  | nil => simp [recent]
  | cons first rest ih =>
      have others : (order.erase first).filter (fun k => !rest.elem k) =
          order.filter fun k => !(first :: rest).elem k := by
        rw [once.erase_eq_filter, List.filter_filter]
        refine List.filter_congr fun k _ => ?_
        by_cases same : k = first
        · simp [same]
        · simp [same]
      rw [recent, ih (nodup_touched once first), recent, ih (nodup_touched List.nodup_nil first), ← others,
        List.append_assoc]
      congr 1
      simp only [List.erase_nil, List.filter_cons, List.filter_nil]
      split_ifs <;> rfl

omit [BEq κ] [LawfulBEq κ] in
/-- A list is cut at the last place where a key occurs. -/
theorem exists_last_request (listed : k ∈ keys) : ∃ before between, keys = before ++ k :: between ∧ k ∉ between := by
  obtain ⟨after, before, split, fresh⟩ := List.eq_append_cons_of_mem (List.mem_reverse.mpr listed)
  refine ⟨before.reverse, after.reverse, ?_, by simpa using fresh⟩
  rw [← List.reverse_reverse keys, split]
  simp

variable [DecidableEq κ]

theorem length_recent (keys : List κ) : (recent [] keys).length = keys.toFinset.card := by
  rw [← List.toFinset_card_of_nodup (nodup_recent List.nodup_nil keys)]
  congr 1
  ext k
  rw [List.mem_toFinset, List.mem_toFinset, mem_recent]
  simp

/-- A key is among the first ones exactly when fewer different keys have been requested
since it was requested last. -/
theorem mem_take_recent_iff {cap : Nat} : k ∈ (recent [] keys).take cap ↔
    ∃ before between, keys = before ++ k :: between ∧ k ∉ between ∧ between.toFinset.card < cap := by
  have place : ∀ before between, k ∉ between → ∃ rest,
      recent [] (before ++ k :: between) = recent [] between ++ k :: rest := by
    intro before between fresh
    rw [recent_append, recent, recent_eq (nodup_touched (nodup_recent List.nodup_nil before) k),
      List.filter_cons_of_pos (by simpa using fresh)]
    exact ⟨_, rfl⟩
  have first : ∀ between rest, k ∉ between →
      (k ∈ (recent [] between ++ k :: rest).take cap ↔ between.toFinset.card < cap) := by
    intro between rest fresh
    have absent : k ∉ recent [] between := by simpa [mem_recent] using fresh
    rw [← length_recent, List.take_append, List.mem_append]
    constructor
    · rintro (early | later)
      · exact absurd (List.mem_of_mem_take early) absent
      · by_contra full
        rw [Nat.sub_eq_zero_of_le (Nat.not_lt.mp full), List.take_zero] at later
        exact absurd later List.not_mem_nil
    · intro room
      obtain ⟨n, more⟩ : ∃ n, cap - (recent [] between).length = n + 1 := ⟨_, (Nat.succ_pred_eq_of_pos (by omega)).symm⟩
      rw [more, List.take_succ_cons]
      exact .inr List.mem_cons_self
  constructor
  · intro listed
    have requested : k ∈ keys := by
      have member : k ∈ [] ∨ k ∈ keys := (mem_recent keys).mp (List.mem_of_mem_take listed)
      simpa using member
    obtain ⟨before, between, rfl, fresh⟩ := exists_last_request requested
    obtain ⟨rest, eq⟩ := place before between fresh
    exact ⟨before, between, rfl, fresh, (first between rest fresh).mp (eq ▸ listed)⟩
  · rintro ⟨before, between, rfl, fresh, few⟩
    obtain ⟨rest, eq⟩ := place before between fresh
    exact eq ▸ (first between rest fresh).mpr few

end Order
end Recency
