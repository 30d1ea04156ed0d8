import Agend.Delivery.Replies
import Agend.Runtime.Programs

/-! The guards that are alive are the ones that a fence captures. -/
namespace Agend.Delivery

open Library
open Agend.Runtime

variable {d d' : Daemon} {i j : Input} {t : Nat} {k : String} {e : InputEvent} {o : Option Input}

/-- The tracker lists every guard that is alive, and no token of another agent. -/
structure Registered (d : Daemon) : Prop where
  fresh : ∀ t i, d.inputs.get t = some i → t < d.next
  listed : ∀ t i, d.inputs.get t = some i → i.stage ≠ .taken → t ∈ d.fence i.instanceId
  owned : ∀ k, ∀ t ∈ d.fence k, ∃ i, d.inputs.get t = some i ∧ i.instanceId = k

theorem strong_iff : d.strong t = true ↔ ∃ i, d.inputs.get t = some i ∧ i.stage ≠ .taken := by
  rw [Daemon.strong, Option.any_eq_true]
  simp only [decide_eq_true_eq]

theorem Registered.same (h : Registered d) (ha : d'.active = d.active) (hi : d'.inputs = d.inputs)
    (hn : d'.next = d.next) : Registered d' := by
  have hfence : d'.fence = d.fence := funext fun k => by rw [Daemon.fence, Daemon.fence, ha]
  refine ⟨?_, ?_, ?_⟩
  · rw [hi, hn]
    exact h.fresh
  · rw [hi, hfence]
    exact h.listed
  · rw [hi, hfence]
    exact h.owned

theorem token_eq (h : d.inputs.get t = some i) : i.token = t := (Table.get_eq_some.mp h).2

theorem fence_begin {kind : Kind} : (d.begin_ k kind).fence = fun k' =>
    if k' = k then d.fence k ++ [d.next] else d.fence k' := by
  funext k'
  rw [Daemon.fence, Daemon.begin_]
  simp only [Table.get_put]
  split_ifs with hk
  · rfl
  · rfl

theorem registered_begin {kind : Kind} (h : Registered d) : Registered (d.begin_ k kind) := by
  have hget : ∀ t', (d.begin_ k kind).inputs.get t' =
      if t' = d.next then some ⟨d.next, k, kind, .registered⟩ else d.inputs.get t' := fun t' =>
    Table.get_put
  refine ⟨fun t' i hi => ?_, fun t' i hi hstage => ?_, fun k' t' ht => ?_⟩
  · rw [hget] at hi
    split_ifs at hi with ht
    · exact ht ▸ Nat.lt_succ_self _
    · exact Nat.lt_succ_of_lt (h.fresh t' i hi)
  · rw [hget] at hi
    rw [fence_begin]
    simp only
    split_ifs at hi with ht
    · obtain rfl := Option.some.inj hi
      rw [if_pos rfl, ht]
      exact List.mem_append_right _ List.mem_cons_self
    · have hmem := h.listed t' i hi hstage
      split_ifs with hk
      · exact List.mem_append_left _ (hk ▸ hmem)
      · exact hmem
  · rw [fence_begin] at ht
    simp only at ht
    have hold : t' ∈ d.fence k' → ∃ i, (d.begin_ k kind).inputs.get t' = some i ∧
        i.instanceId = k' := by
      intro hmem
      obtain ⟨i, hi, hk⟩ := h.owned k' t' hmem
      refine ⟨i, ?_, hk⟩
      rw [hget, if_neg (Nat.ne_of_lt (h.fresh t' i hi)), hi]
    split_ifs at ht with hk
    · rcases List.mem_append.mp ht with hmem | hmem
      · exact hold (hk ▸ hmem)
      · obtain rfl := List.mem_singleton.mp hmem
        exact ⟨_, (hget _).trans (if_pos rfl), hk.symm⟩
    · exact hold ht

theorem get_move {stage : Stage} {t' : Nat} : (d.move i stage).inputs.get t' =
    if t' = i.token then some { i with stage } else d.inputs.get t' :=
  Table.get_put

/-- A guard that is alive stays listed, whatever its task does. -/
theorem registered_move {stage : Stage} (h : Registered d) (hi : d.inputs.get i.token = some i)
    (hstage : i.stage = .taken → stage = .taken) : Registered (d.move i stage) := by
  refine ⟨fun t' j hj => ?_, fun t' j hj hne => ?_, fun k' t' ht => ?_⟩
  · rw [get_move] at hj
    split_ifs at hj with ht
    · exact ht ▸ h.fresh _ i hi
    · exact h.fresh t' j hj
  · rw [get_move] at hj
    split_ifs at hj with ht
    · obtain rfl := Option.some.inj hj
      rw [ht]
      exact h.listed _ i hi fun htaken => hne (hstage htaken)
    · exact h.listed t' j hj hne
  · obtain ⟨j, hj, hk⟩ := h.owned k' t' ht
    rw [get_move]
    split_ifs with heq
    · rw [heq, hi] at hj
      obtain rfl := Option.some.inj hj
      exact ⟨_, rfl, hk⟩
    · exact ⟨j, hj, hk⟩

theorem prune_spec : (d.prune i).inputs = d.inputs.erase i.token ∧ (d.prune i).next = d.next ∧
    (d.prune i).task = d.task ∧ (d.prune i).db = d.db ∧ ∀ k, (d.prune i).fence k =
      if k = i.instanceId then
        (d.fence k).filter ({ d with inputs := d.inputs.erase i.token } : Daemon).strong
      else d.fence k := by
  unfold Daemon.prune
  simp only
  split
  · rename_i hnone
    refine ⟨rfl, rfl, rfl, rfl, fun k => ?_⟩
    split_ifs with hk
    · simp only [Daemon.fence, hk, hnone, Option.map_none, Option.getD_none, List.filter_nil]
    · rfl
  · rename_i row hrow
    have hrow' : d.active.get i.instanceId = some row := hrow
    split_ifs with hempty
    · refine ⟨rfl, rfl, rfl, rfl, fun k => ?_⟩
      split_ifs with hk
      · simp only [Daemon.fence, hk, Table.get_erase, if_pos, Option.map_none, Option.getD_none,
          hrow', Option.map_some, Option.getD_some]
        exact hempty.symm
      · simp only [Daemon.fence, Table.get_erase, if_neg hk]
    · refine ⟨rfl, rfl, rfl, rfl, fun k => ?_⟩
      have hkey : row.instanceId = i.instanceId := (Table.get_eq_some.mp hrow').2
      split_ifs with hk
      · simp only [Daemon.fence, hk, Table.get_put, hkey, if_pos, Option.map_some,
          Option.getD_some, hrow']
      · simp only [Daemon.fence, Table.get_put, hkey, if_neg hk]

theorem registered_prune (h : Registered d) (hi : d.inputs.get i.token = some i) :
    Registered (d.prune i) := by
  obtain ⟨hinputs, hnext, -, -, hfence⟩ := prune_spec (d := d) (i := i)
  have hget : ∀ t', (d.prune i).inputs.get t' = if t' = i.token then none else d.inputs.get t' :=
    fun t' => by rw [hinputs, Table.get_erase]
  refine ⟨fun t' j hj => ?_, fun t' j hj hne => ?_, fun k' t' ht => ?_⟩
  · rw [hget] at hj
    split_ifs at hj
    rw [hnext]
    exact h.fresh t' j hj
  · rw [hget] at hj
    split_ifs at hj with ht
    have hmem := h.listed t' j hj hne
    rw [hfence]
    split_ifs
    · refine List.mem_filter.mpr ⟨hmem, strong_iff.mpr ⟨j, ?_, hne⟩⟩
      simp only [Table.get_erase, if_neg ht]
      exact hj
    · exact hmem
  · rw [hfence] at ht
    split_ifs at ht with hk
    · obtain ⟨hmem, hstrong⟩ := List.mem_filter.mp ht
      obtain ⟨j, hj, -⟩ := strong_iff.mp hstrong
      simp only [Table.get_erase] at hj
      split_ifs at hj with htoken
      obtain ⟨j', hj', hk'⟩ := h.owned k' t' hmem
      exact ⟨j', by rw [hget, if_neg htoken, hj'], hk'⟩
    · obtain ⟨j, hj, hk'⟩ := h.owned k' t' ht
      refine ⟨j, ?_, hk'⟩
      rw [hget, if_neg, hj]
      rintro rfl
      obtain rfl := Option.some.inj (hi.symm.trans hj)
      exact hk hk'.symm

end Agend.Delivery
