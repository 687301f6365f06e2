import AgentTransport.Identity.Store
import AgentTransport.Identity.Sybil
import AgentTransport.Lib.Trace

/-! Runs of the identity store: registrations, interactions and removals, in any order. A removal
    takes the records about an agent along; an interaction with an unknown agent is kept all the
    same.

    Trust is read in two ways. `aggregate_trust` looks up the records about an agent;
    `meets_threshold` flattens the whole store, and lets the guard filter. -/

namespace ATP
open F64 Collections
variable {F : Type} [F64 F]

/-- The failure of a removal. -/
inductive IdentityStoreError where
  | unknownAgent (id : String)
  deriving DecidableEq

namespace IdentityStore

/-- Remove an identity, and the interactions about it. -/
def remove (s : IdentityStore F) (id : AgentId) :
    Except IdentityStoreError (AgentIdentity F) × IdentityStore F :=
  match s.identities.lookup id with
  | none => (.error (.unknownAgent id.display), s)
  | some identity => (.ok identity, { s with
      identities := s.identities.erase id
      interactions := s.interactions.erase id })

/-- All interaction records in the store, across all subjects. -/
def allInteractions (hs : RandomState AgentId) (s : IdentityStore F) :
    List (InteractionRecord F) :=
  (s.interactions.values hs).flatten

/-- The total number of interaction records stored. -/
def interactionCount (hs : RandomState AgentId) (s : IdentityStore F) : ℕ :=
  ((s.interactions.values hs).map List.length).sum

end IdentityStore

/-- A store, with the guard it checks thresholds with. -/
structure GuardedStore (F : Type) extends IdentityStore F where
  sybilGuard : SybilGuard F

namespace GuardedStore

/-- Create an empty store with default trust engine and sybil guard. -/
def new : GuardedStore F := ⟨IdentityStore.new, SybilGuard.default⟩

/-- Create a store with custom trust engine and sybil guard. -/
def withEngines (trustEngine : TrustEngine F) (sybilGuard : SybilGuard F) : GuardedStore F :=
  ⟨⟨∅, ∅, trustEngine⟩, sybilGuard⟩

/-- The store of a node that is built from its configuration. -/
def build (trustDecayRate sybilDampening : F) : GuardedStore F :=
  withEngines ⟨trustDecayRate, lit (1 / 2)⟩
    (SybilGuard.new sybilDampening 5 ⟨trustDecayRate, lit (1 / 2)⟩)

/-- Check whether an agent meets a trust threshold, optionally through a voucher chain. -/
def meetsThreshold (hs : RandomState AgentId) (lib : External F) (s : GuardedStore F)
    (subject : AgentId) (chain : List AgentId) (threshold : F) (now : DateTime) : Bool :=
  s.sybilGuard.meetsThreshold lib subject chain (s.allInteractions hs) threshold now

/-- The calls that change a store. -/
inductive Op (F : Type) where
  | register (identity : AgentIdentity F)
  | addInteraction (record : InteractionRecord F)
  | remove (id : AgentId)

/-- What a call returns. -/
inductive Answer (F : Type) where
  | registered (id : AgentId)
  | added
  | removed (result : Except IdentityStoreError (AgentIdentity F))

def step (s : GuardedStore F) : Op F → Answer F × GuardedStore F
  | .register identity =>
    (.registered identity.id, { s with toIdentityStore := s.register identity })
  | .addInteraction record => (.added, { s with toIdentityStore := s.addInteraction record })
  | .remove id =>
    (.removed (s.toIdentityStore.remove id).1,
      { s with toIdentityStore := (s.toIdentityStore.remove id).2 })

/-- The step removed an agent. -/
def removes (a : AgentId) (x : TraceStep (GuardedStore F) (Op F) (Answer F)) : Bool :=
  match x.ev, x.out with
  | .remove id, .removed (.ok _) => a = id
  | _, _ => false

/-- The records added by a run, those about an agent removed later left out. -/
def kept : List (TraceStep (GuardedStore F) (Op F) (Answer F)) → List (InteractionRecord F)
  | [] => []
  | x :: rest =>
    match x.ev with
    | .addInteraction r => if rest.any (removes r.subject) then kept rest else r :: kept rest
    | _ => kept rest

/-- The trust engine and the guard decay alike, and have the same prior. -/
structure EnginesAgree (trustEngine : TrustEngine F) (sybilGuard : SybilGuard F) : Prop where
  lambda : sybilGuard.trustEngine.lambda = trustEngine.lambda
  prior : sybilGuard.trustEngine.prior = trustEngine.prior

/-! ### The records of a run -/

omit [F64 F] in
/-- One more step: a removal strikes records out, an addition appends one. -/
theorem kept_concat (tr : List (TraceStep (GuardedStore F) (Op F) (Answer F)))
    (x : TraceStep (GuardedStore F) (Op F) (Answer F)) :
    kept (tr ++ [x]) = (kept tr).filter (fun r => !removes r.subject x) ++ kept [x] := by
  induction tr with
  | nil => rfl
  | cons y tr ih =>
    rw [List.cons_append, kept, kept]
    cases y.ev with
    | register identity => exact ih
    | remove id => exact ih
    | addInteraction r =>
      simp only [List.any_append, List.any_cons, List.any_nil, Bool.or_false]
      cases hlater : tr.any (removes r.subject) with
      | true => simpa using ih
      | false => cases hx : removes r.subject x <;> simp [hx, ih]

/-- What every run keeps: the store holds, under each agent, the kept records about it. -/
structure Holds (trustEngine : TrustEngine F) (sybilGuard : SybilGuard F)
    (tr : List (TraceStep (GuardedStore F) (Op F) (Answer F))) (s : GuardedStore F) : Prop where
  engine : s.trustEngine = trustEngine
  guarded : s.sybilGuard = sybilGuard
  records : ∀ a, s.getInteractions a = (kept tr).filter (fun r => r.subject = a)

omit [F64 F] in
theorem getInteractions_remove {s : IdentityStore F} {id : AgentId} (a : AgentId)
    (h : (s.identities.lookup id).isSome) :
    (s.remove id).2.getInteractions a = if a = id then [] else s.getInteractions a := by
  obtain ⟨identity, hid⟩ := Option.isSome_iff_exists.mp h
  simp only [IdentityStore.remove, hid, IdentityStore.getInteractions, lookup_erase]
  split_ifs <;> rfl

omit [F64 F] in
theorem Holds.step {trustEngine : TrustEngine F} {sybilGuard : SybilGuard F}
    {tr : List (TraceStep (GuardedStore F) (Op F) (Answer F))} {s : GuardedStore F}
    (h : Holds trustEngine sybilGuard tr s) (op : Op F) :
    Holds trustEngine sybilGuard (tr ++ [⟨s, op, (s.step op).1, (s.step op).2⟩]) (s.step op).2 := by
  cases op with
  | register identity =>
    refine ⟨h.engine, h.guarded, fun a => ?_⟩
    simp [GuardedStore.step, kept_concat, removes, kept, h.records]
  | addInteraction r =>
    refine ⟨h.engine, h.guarded, fun a => ?_⟩
    simp only [GuardedStore.step, IdentityStore.getInteractions_addInteraction, kept_concat,
      removes, kept, h.records]
    rcases eq_or_ne a r.subject with rfl | hne
    · simp
    · simp [hne, hne.symm]
  | remove id =>
    cases hid : s.identities.lookup id with
    -- an unknown agent: the call fails and the store stays
    | none =>
      have hstate : (s.toIdentityStore.remove id).2 = s.toIdentityStore := by
        simp [IdentityStore.remove, hid]
      have hfailed : (s.toIdentityStore.remove id).1 = .error (.unknownAgent id.display) := by
        simp [IdentityStore.remove, hid]
      simp only [GuardedStore.step, hstate, hfailed]
      refine ⟨h.engine, h.guarded, fun a => ?_⟩
      simp [kept_concat, removes, kept, h.records]
    -- a known agent: its records go with it
    | some identity =>
      have hremoved : (s.toIdentityStore.remove id).1 = .ok identity := by
        simp [IdentityStore.remove, hid]
      refine ⟨?_, h.guarded, fun a => ?_⟩
      · simpa [GuardedStore.step, IdentityStore.remove, hid] using h.engine
      · simp only [GuardedStore.step, hremoved, kept_concat, removes, kept, List.append_nil]
        rw [getInteractions_remove a (by rw [hid]; rfl), h.records, List.filter_filter]
        rcases eq_or_ne a id with rfl | hne
        · simp
        · rw [if_neg hne]
          refine List.filter_congr fun r _ => ?_
          rcases eq_or_ne r.subject a with rfl | hr
          · simp [hne]
          · simp [hr]

omit [F64 F] in
/-- Every record of the store is under its subject. -/
theorem Holds.indexes {trustEngine : TrustEngine F} {sybilGuard : SybilGuard F}
    {tr : List (TraceStep (GuardedStore F) (Op F) (Answer F))} {s : GuardedStore F}
    (h : Holds trustEngine sybilGuard tr s) :
    s.interactions.Indexes fun r => r.subject := by
  intro a records ha r hr
  have hmem : r ∈ s.getInteractions a := by
    rw [IdentityStore.getInteractions, ha]
    exact hr
  rw [h.records a] at hmem
  exact of_decide_eq_true (List.mem_filter.mp hmem).2

theorem computeAggregateTrust_congr (lib : External F) {e e' : TrustEngine F} {subject : AgentId}
    {records records' : List (InteractionRecord F)} (now : DateTime) (he : e = e')
    (h : records.filter (fun r => r.subject = subject) =
      records'.filter (fun r => r.subject = subject)) :
    e.computeAggregateTrust lib subject records now =
      e'.computeAggregateTrust lib subject records' now := by
  simp only [TrustEngine.computeAggregateTrust, he, h]

theorem enginesAgree_build (trustDecayRate sybilDampening : F) :
    EnginesAgree (build trustDecayRate sybilDampening).trustEngine
      (build trustDecayRate sybilDampening).sybilGuard := ⟨rfl, rfl⟩

/-- The two ways to read trust agree in every state a run reaches, whatever the order of the
    map. -/
theorem store_agreement (lib : External F) {trustEngine : TrustEngine F}
    {sybilGuard : SybilGuard F} (h : EnginesAgree trustEngine sybilGuard) (ops : List (Op F)) :
    let start := withEngines trustEngine sybilGuard
    let s := Trace.run step start ops
    (∀ a records, s.interactions.lookup a = some records → ∀ r ∈ records, r.subject = a) ∧
      (∀ hs, s.interactionCount hs = (kept (Trace.trace step start ops)).length) ∧
      ∀ hs subject threshold now,
        s.meetsThreshold hs lib subject [] threshold now = true ↔
          threshold ≤ s.aggregateTrust lib subject now := by
  intro start s
  have hs : Holds trustEngine sybilGuard (Trace.trace step start ops) s :=
    Trace.trace_invariant step ⟨rfl, rfl, fun a => rfl⟩ (fun tr s op h => h.step op) ops
  refine ⟨hs.indexes, fun hasher => ?_, fun hasher subject threshold now => ?_⟩
  · rw [IdentityStore.interactionCount, ← List.length_flatten]
    exact length_flatten_values hasher hs.records
  · have hengines : s.sybilGuard.trustEngine = s.trustEngine := by
      rw [hs.engine, hs.guarded]
      cases hg : sybilGuard.trustEngine
      cases trustEngine
      simpa [hg] using And.intro h.lambda h.prior
    -- all records of the store, filtered by subject, are those under the subject
    have htrust : s.sybilGuard.directTrust lib subject (s.allInteractions hasher) now =
        s.aggregateTrust lib subject now := by
      refine computeAggregateTrust_congr lib now hengines ?_
      rw [IdentityStore.allInteractions, filter_flatten_values hs.indexes hasher subject,
        List.filter_eq_self.mpr]
      · rfl
      · intro r hr
        rw [hs.records subject] at hr
        exact (List.mem_filter.mp hr).2
    simp only [meetsThreshold, SybilGuard.meetsThreshold, List.isEmpty_nil, if_true,
      decide_eq_true_eq, htrust]

/-- A node's store: one removal fails, one takes a record along, and a record comes back. -/
theorem store_agreement_after_removal :
    let good : InteractionRecord ℚ := ⟨⟨2⟩, ⟨1⟩, .analysis, 4 / 5, 100, 0, 0, []⟩
    let bad : InteractionRecord ℚ := ⟨⟨1⟩, ⟨2⟩, .analysis, 0, 100, 0, 0, []⟩
    let s := Trace.run step (build (1 / 100) (1 / 2)) [.register ⟨⟨1⟩, []⟩, .addInteraction good,
      .addInteraction bad, .remove ⟨2⟩, .remove ⟨1⟩, .addInteraction good]
    s.interactionCount (.insertion _) = 2 ∧
      (s.meetsThreshold (.insertion _) .sample ⟨1⟩ [] (3 / 4) 0 = true ↔
        3 / 4 ≤ s.aggregateTrust .sample ⟨1⟩ 0) := by
  intro good bad s
  obtain ⟨-, hcount, htrust⟩ := store_agreement .sample
    (enginesAgree_build (1 / 100 : ℚ) (1 / 2)) [.register ⟨⟨1⟩, []⟩, .addInteraction good,
      .addInteraction bad, .remove ⟨2⟩, .remove ⟨1⟩, .addInteraction good]
  exact ⟨hcount _, htrust _ ⟨1⟩ (3 / 4) 0⟩

end GuardedStore
end ATP
