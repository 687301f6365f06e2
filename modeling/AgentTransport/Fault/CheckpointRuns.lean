import AgentTransport.Fault.Checkpoint
import Mathlib.Data.List.DropRight
import Mathlib.Data.List.MinMax

/-! Runs of the checkpoint store: any sequence of saves and removals for any tasks.

    The hot store and the history are updated apart, the former only by a newer version. After every
    run the history of a task is what was saved for it since it was last removed, and its checkpoint
    is the first of these with the greatest version. -/

namespace ATP
namespace CheckpointStore
open Collections

/-- The checkpoints saved for a task since it was last removed. -/
def savedSince (t : Uuid) (ops : List Op) : List CheckpointData :=
  ((ops.filter fun op => decide (op.taskId = t)).rtakeWhile fun op => op.saved.isSome).filterMap
    Op.saved

/-- The first of some checkpoints with the greatest version. -/
def newest (log : List CheckpointData) : Option CheckpointData :=
  log.argmax fun data => data.version.toNat

theorem savedSince_concat (t : Uuid) (ops : List Op) (op : Op) :
    savedSince t (ops ++ [op]) =
      if op.taskId = t then
        match op.saved with
        | some data => savedSince t ops ++ [data]
        | none => []
      else savedSince t ops := by
  by_cases h : op.taskId = t
  · cases hs : op.saved <;> simp [savedSince, h, hs]
  · simp [savedSince, h]

theorem newest_concat (log : List CheckpointData) (data : CheckpointData) :
    newest (log ++ [data]) = some (newer (newest log) data) := by
  unfold newest newer
  rw [List.argmax_concat]
  cases log.argmax fun data => data.version.toNat with
  | none => rfl
  | some existing =>
    by_cases h : existing.version < data.version
    · simp [h, UInt64.lt_iff_toNat_lt.mp h]
    · have h' : ¬ existing.version.toNat < data.version.toNat := fun hl =>
        h (UInt64.lt_iff_toNat_lt.mpr hl)
      simp [h, h']

theorem entry_applyAll (t : Uuid) (ops : List Op) :
    (new.applyAll ops).entry t = ⟨newest (savedSince t ops), savedSince t ops⟩ := by
  induction ops using List.reverseRecOn with
  | nil => rfl
  | append_singleton ops op ih =>
    have hconcat : new.applyAll (ops ++ [op]) = (new.applyAll ops).apply op := List.foldl_append
    rw [hconcat, entry_apply, savedSince_concat, ih]
    by_cases h : op.taskId = t
    · rw [if_pos h, if_pos h]
      cases hs : op.saved with
      | none => simp [Entry.apply, hs, newest]
      | some data => simp [Entry.apply, hs, newest_concat]
    · rw [if_neg h, if_neg h]

/-- Checkpoints with different versions have the same newest in any order. -/
theorem newest_perm {log log' : List CheckpointData} (hperm : log.Perm log')
    (hversions : (log.map (·.version)).Nodup) : newest log = newest log' := by
  cases h : newest log with
  | none =>
    obtain rfl := List.argmax_eq_none.mp h
    rw [List.nil_perm.mp hperm]
    rfl
  | some data =>
    cases h' : newest log' with
    | none =>
      obtain rfl := List.argmax_eq_none.mp h'
      rw [List.perm_nil.mp hperm] at h
      cases h
    | some data' =>
      obtain ⟨hmem, hmax, -⟩ := List.argmax_eq_some_iff.mp h
      obtain ⟨hmem', hmax', -⟩ := List.argmax_eq_some_iff.mp h'
      -- each is at least as new as the other
      have heq : data.version = data'.version := by
        rw [← UInt64.toNat_inj]
        exact le_antisymm (hmax' data (hperm.mem_iff.mp hmem))
          (hmax data' (hperm.mem_iff.mpr hmem'))
      rw [List.inj_on_of_nodup_map hversions hmem (hperm.mem_iff.mpr hmem') heq]

/-- What the store says about a task after a run. -/
theorem applyAll_spec (ops : List Op) (t : Uuid) :
    (new.applyAll ops).getHistory t = savedSince t ops ∧
      ((new.applyAll ops).get t = none ↔ savedSince t ops = []) ∧
      (new.applyAll ops).get t = newest (savedSince t ops) ∧
      (∀ a b now, a ≠ b → (new.applyAll ops).failover t a b now =
        .ok ⟨t, newest (savedSince t ops), a, b, now⟩) ∧
      ∀ ops', (savedSince t ops).Perm (savedSince t ops') →
        ((savedSince t ops).map (·.version)).Nodup →
        (new.applyAll ops').get t = (new.applyAll ops).get t := by
  have hentry := entry_applyAll t ops
  have hget : ∀ ops, (new.applyAll ops).get t = newest (savedSince t ops) := fun ops =>
    congrArg Entry.latest (entry_applyAll t ops)
  refine ⟨congrArg Entry.log hentry, ?_, hget ops, fun a b now hab => ?_, fun ops' hperm hv => ?_⟩
  · rw [hget]
    exact List.argmax_eq_none
  · rw [failover, if_neg hab, hget]
  · rw [hget, hget]
    exact (newest_perm hperm hv).symm

/-- Two versions of one task, in either order. -/
theorem applyAll_spec_two :
    let older : CheckpointData := ⟨7, [1], ⟨1⟩, 0, 1⟩
    let newer : CheckpointData := ⟨7, [2], ⟨1⟩, 5, 2⟩
    (new.applyAll [.save newer, .save older]).get 7 =
        (new.applyAll [.save older, .save newer]).get 7 ∧
      (new.applyAll [.save older, .save newer]).failover 7 ⟨1⟩ ⟨2⟩ 9 =
        .ok ⟨7, newest [older, newer], ⟨1⟩, ⟨2⟩, 9⟩ := by
  intro older newer
  obtain ⟨-, -, -, hfailover, horder⟩ := applyAll_spec [.save older, .save newer] 7
  exact ⟨horder [.save newer, .save older] (by decide) (by decide),
    hfailover ⟨1⟩ ⟨2⟩ 9 (by decide)⟩

end CheckpointStore
end ATP
