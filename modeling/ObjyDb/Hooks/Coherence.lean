import ObjyDb.Hooks.Runner
import ObjyDb.Store.NormalMeta
import ObjyDb.Persist.Agreement

/-!
# Coherence — the remembered hooks are the configured ones

A node's store, its hook registry and its hook runner, under every step that changes one of them.
The calls of the node notify the runner.  A restore configures and drops on the store itself, and
notifies nobody.

- `run_coherent`: when no restore changes hooks under the runner, every plan is the chain of the
  current metadata and the current registry
-/

namespace ObjyDb
namespace Hooks

open Js Persist

/-! ## Current hooks -/

/-- The hooks that the metadata of a collection configures now. -/
def hooksAt (m : Memory) (database collection : JsString) : Except MetaError (Option HooksMeta) :=
  match m.getCollectionMeta database collection with
  | none => .ok none
  | some collectionMeta => hooksOfMeta collectionMeta

/-! ## Steps of a node -/

/-- A call on the store itself, as a restore and the recovery of the local log make them. -/
inductive StoreCall
  | configure (call : MetaCall)
  | deleteDatabase (database : JsString)
  | deleteCollection (database collection : JsString)

/-- The store after a call, which may have thrown. -/
def storeCall (adapter : Bool) (m : Memory) : StoreCall → Memory
  | .configure call => (m.call adapter call).1
  | .deleteDatabase database => (m.deleteDatabase database).1
  | .deleteCollection database collection => (m.deleteCollection database collection).1

/-- The paths that an index list of stored metadata holds. -/
def storedPaths : Option Json → List JsString
  | some (.arr paths) =>
      paths.filterMap fun path =>
        match path with
        | .str path => some path
        | _ => none
  | _ => []

/-- `normalizeCollectionMeta({ ...this.collectionMeta, indexes })` -/
def reindexedMeta (change : List JsString → List JsString) :
    Json → Except MetaError Json
  | .obj fields => do
      let indexes := change (storedPaths (Assoc.get? fields (js "indexes")))
      let next ← normalizeCollectionMeta
        (some (.obj (Assoc.set fields (js "indexes") (pathsJson indexes))))
      return next.toJson
  | _ => .error (.notPlainObject (js "collection meta"))

/-- `this.collection(db, coll)`, then a change of its index list. -/
def reindex (m : Memory) (database collection : JsString)
    (change : List JsString → List JsString) : Memory × Except MetaError Json :=
  match m.openCollection database collection with
  | .error err => (m, .error (.store err))
  | .ok m =>
      match reindexedMeta change (m.collectionOf database collection).collectionMeta with
      | .error err => (m, .error err)
      | .ok next =>
          (m.setCollection database collection
            { m.collectionOf database collection with collectionMeta := next }, .ok next)

structure HookedNode where
  memory : Memory
  registry : ObjectHookRegistry
  runner : ObjectHookRunner

inductive HookEvent
  | configure (call : MetaCall)
  | createIndex (database collection path : JsString)
  | dropIndex (database collection path : JsString)
  | removeDatabase (database : JsString)
  | removeCollection (database collection : JsString)
  /-- What makes a collection that is not there: a write, or a batch of restored rows. -/
  | openCollection (database collection : JsString)
  | applyOps (ops : List Op)
  | applySnapshotObjects (database collection : JsString) (rows : List (JsString × Write))
  | register (name : Json) (operations : Option Json) (rejects : Json → Bool)
  | plan (database collection : JsString) (operation : HookOperation)
  | restoring (call : StoreCall)

namespace HookedNode

variable (adapter : Bool) (n : HookedNode)

/-- The runner hears of new metadata of a collection. -/
def notifyMeta (database collection : JsString) (result : Memory × Except MetaError Json) :
    HookedNode :=
  match result with
  | (memory, .error _) => { n with memory }
  | (memory, .ok next) =>
      { n with memory, runner := n.runner.onMeta database collection next }

def configure (call : MetaCall) : HookedNode :=
  match call with
  | .createDatabase _ _ => { n with memory := (n.memory.call adapter call).1 }
  | .setDatabaseMeta _ _ => { n with memory := (n.memory.call adapter call).1 }
  | .createCollection database collection _ =>
      n.notifyMeta database collection (n.memory.call adapter call)
  | .setCollectionMeta database collection _ =>
      n.notifyMeta database collection (n.memory.call adapter call)

def removeDatabase (database : JsString) : HookedNode :=
  let (memory, removed) := n.memory.deleteDatabase database
  if removed || !n.memory.isDatabaseDeleted database then
    { n with memory, runner := n.runner.onDropDatabase database }
  else { n with memory }

def removeCollection (database collection : JsString) : HookedNode :=
  let (memory, removed) := n.memory.deleteCollection database collection
  if removed || !n.memory.isCollectionDeleted database collection then
    { n with memory, runner := n.runner.onDropCollection database collection }
  else { n with memory }

def step : HookEvent → HookedNode
  | .configure call => n.configure adapter call
  | .createIndex database collection path =>
      n.notifyMeta database collection
        (reindex n.memory database collection fun indexes => unique (indexes ++ [path]))
  | .dropIndex database collection path =>
      n.notifyMeta database collection
        (reindex n.memory database collection fun indexes => indexes.filter (· ≠ path))
  | .removeDatabase database => n.removeDatabase database
  | .removeCollection database collection => n.removeCollection database collection
  | .openCollection database collection =>
      match n.memory.openCollection database collection with
      | .error _ => n
      | .ok memory => { n with memory }
  | .applyOps ops => { n with memory := (n.memory.applyOps ops).1 }
  | .applySnapshotObjects database collection rows =>
      { n with memory := (n.memory.applySnapshotObjects database collection rows).1 }
  | .register name operations rejects =>
      match n.registry.register name operations rejects with
      | .error _ => n
      | .ok registry => { n with registry }
  | .plan database collection operation =>
      { n with runner := (n.runner.plan n.registry database collection operation).1 }
  | .restoring call => { n with memory := storeCall adapter n.memory call }

def run (adapter : Bool) (n : HookedNode) (events : List HookEvent) : HookedNode :=
  events.foldl (fun n event => n.step adapter event) n

end HookedNode

/-! ## Keys -/

theorem key_inj {d c d' c' : JsString} (hd : (0 : CodeUnit) ∉ d) (hd' : (0 : CodeUnit) ∉ d')
    (h : storeCollectionKey d c = storeCollectionKey d' c') : d = d' ∧ c = c' := by
  have hsplit := congrArg (split 0) h
  rw [storeCollectionKey, storeCollectionKey, split_append_sep hd, split_append_sep hd'] at hsplit
  have hdatabase : d = d' := (List.cons.inj hsplit).1
  subst hdatabase
  simpa [storeCollectionKey] using h

theorem nul_notMem_name (operation : HookOperation) : (0 : CodeUnit) ∉ operation.name := by
  cases operation <;> decide

theorem name_inj {operation operation' : HookOperation} (h : operation.name = operation'.name) :
    operation = operation' := by
  revert h
  cases operation <;> cases operation' <;> decide

/-- Names of operations hold no NUL, so that the last one in a plan's key ends the scope. -/
theorem planKey_inj {scope scope' : JsString} {operation operation' : HookOperation}
    (h : planKey scope operation = planKey scope' operation') :
    scope = scope' ∧ operation = operation' := by
  have hback := congrArg (split 0 ∘ List.reverse) h
  simp only [Function.comp_apply, planKey, List.reverse_append, List.reverse_cons,
    List.append_assoc, List.singleton_append] at hback
  rw [split_append_sep (by simpa using nul_notMem_name operation),
    split_append_sep (by simpa using nul_notMem_name operation')] at hback
  have hname : operation = operation' :=
    name_inj (List.reverse_injective (List.cons.inj hback).1)
  subst hname
  exact ⟨List.append_cancel_right h, rfl⟩

theorem planKey_eq_iff {scope scope' : JsString} {operation operation' : HookOperation} :
    planKey scope operation = planKey scope' operation' ↔
      scope = scope' ∧ operation = operation' := by
  constructor
  · exact planKey_inj
  · rintro ⟨rfl, rfl⟩
    rfl

/-- The key of a database without NUL begins the keys of its own collections only. -/
theorem isPrefixOf_key {d d' c : JsString} (hd : (0 : CodeUnit) ∉ d) (hd' : (0 : CodeUnit) ∉ d') :
    (storeCollectionKey d []).isPrefixOf (storeCollectionKey d' c) = decide (d = d') := by
  by_cases hdatabase : d = d'
  · subst hdatabase
    rw [decide_eq_true rfl, List.isPrefixOf_iff_prefix]
    exact ⟨c, by simp [storeCollectionKey]⟩
  · rw [decide_eq_false hdatabase, ← Bool.not_eq_true, List.isPrefixOf_iff_prefix]
    rintro ⟨rest, hrest⟩
    have hkey : storeCollectionKey d rest = storeCollectionKey d' c := by
      rw [← hrest, storeCollectionKey, storeCollectionKey, List.append_assoc]
      rfl
    exact hdatabase (key_inj hd hd' hkey).1

theorem isPrefixOf_planKey {d d' c : JsString} (operation : HookOperation)
    (hd : (0 : CodeUnit) ∉ d) (hd' : (0 : CodeUnit) ∉ d') :
    (storeCollectionKey d []).isPrefixOf (planKey (storeCollectionKey d' c) operation) =
      decide (d = d') := by
  have hkey : planKey (storeCollectionKey d' c) operation =
      storeCollectionKey d' (c ++ 0 :: operation.name) := by
    simp [planKey, storeCollectionKey]
  rw [hkey, isPrefixOf_key hd hd']

/-! ## Hooks after a change of the store -/

theorem hooksAt_eq {m m' : Memory} {d c : JsString}
    (h : m'.getCollectionMeta d c = m.getCollectionMeta d c) : hooksAt m' d c = hooksAt m d c := by
  rw [hooksAt, hooksAt, h]

theorem hooksAt_setCollection (m : Memory) (d c : JsString) (x : HeldCollection)
    (d' c' : JsString) :
    hooksAt (m.setCollection d c x) d' c' =
      if d = d' ∧ c = c' then hooksOfMeta x.collectionMeta else hooksAt m d' c' := by
  rw [hooksAt, getCollectionMeta_setCollection]
  split_ifs <;> rfl

/-- A collection that is made has no hooks. -/
theorem hooksOfMeta_collectionOf (m : Memory) (d c : JsString) :
    hooksOfMeta (m.collectionOf d c).collectionMeta = hooksAt m d c := by
  rw [Memory.collectionMeta_collectionOf, hooksAt]
  cases m.getCollectionMeta d c with
  | none => rfl
  | some collectionMeta => rfl

/-- Rows come and go without a change of hooks. -/
theorem hooksAt_setRows (m : Memory) (d c : JsString) (rows : Rows) (d' c' : JsString) :
    hooksAt (m.setCollection d c { m.collectionOf d c with rows := rows }) d' c' =
      hooksAt m d' c' := by
  rw [hooksAt_setCollection]
  split_ifs with hsame
  · rcases hsame with ⟨rfl, rfl⟩
    exact hooksOfMeta_collectionOf m d c
  · rfl

theorem hooksAt_openCollection {m m' : Memory} {d c : JsString}
    (h : m.openCollection d c = .ok m') (d' c' : JsString) :
    hooksAt m' d' c' = hooksAt m d' c' := by
  rw [Memory.openCollection] at h
  split_ifs at h
  cases h
  exact hooksAt_setRows m d c (m.collectionOf d c).rows d' c'

theorem hooksAt_applyOp (m : Memory) (op : Op) (d c : JsString) :
    hooksAt (m.applyOp op).1 d c = hooksAt m d c := by
  by_cases hdeleted : (m.isDatabaseDeleted op.db || m.isCollectionDeleted op.db op.coll) = true
  · rw [m.applyOp_deleted hdeleted]
  · rw [m.applyOp_live hdeleted]
    exact hooksAt_setRows ..

theorem hooksAt_applyOps (m : Memory) (ops : List Op) (d c : JsString) :
    hooksAt (m.applyOps ops).1 d c = hooksAt m d c := by
  induction ops generalizing m with
  | nil => rfl
  | cons op ops ih =>
      calc
        hooksAt (m.applyOps (op :: ops)).1 d c
            = hooksAt ((m.applyOp op).1.applyOps ops).1 d c := rfl
        _ = hooksAt (m.applyOp op).1 d c := ih _
        _ = hooksAt m d c := hooksAt_applyOp m op d c

theorem hooksAt_applySnapshotObjects (m : Memory) (d c : JsString)
    (rows : List (JsString × Write)) (d' c' : JsString) :
    hooksAt (m.applySnapshotObjects d c rows).1 d' c' = hooksAt m d' c' := by
  rw [Memory.applySnapshotObjects]
  split_ifs
  · rfl
  · rfl
  · exact hooksAt_setRows ..

theorem hooksAt_deleteDatabase (m : Memory) (d d' c : JsString) :
    hooksAt (m.deleteDatabase d).1 d' c = if d = d' then .ok none else hooksAt m d' c := by
  rw [hooksAt, Memory.getCollectionMeta, Memory.getCollection_deleteDatabase]
  split_ifs <;> rfl

theorem hooksAt_deleteCollection (m : Memory) (d c d' c' : JsString) :
    hooksAt (m.deleteCollection d c).1 d' c' =
      if d = d' ∧ c = c' then .ok none else hooksAt m d' c' := by
  rw [hooksAt, Memory.getCollectionMeta, Memory.getCollection_deleteCollection]
  split_ifs <;> rfl

/-- Normal metadata has the hooks that it was normalised with. -/
theorem hooksOfMeta_toJson {fields : Fields} {next : NormalMeta}
    (h : normalizeCollectionMeta (some (.obj fields)) = .ok next) :
    hooksOfMeta next.toJson = .ok next.hooks ∧
      hooksOfMeta (.obj fields) = .ok next.hooks := by
  rcases normalizeCollectionMeta_hooks h with ⟨hhooks, hrest⟩
  rcases get?_hooks_toJson hrest with ⟨out, hout, hget⟩
  constructor
  · rw [hout, hooksOfMeta, hget]
    exact normalizeObjectHooksMeta_toJson hhooks
  · exact hhooks

theorem hooksOfMeta_checked {adapter : Bool} {collectionMeta : Option Json} {next : Json}
    (h : Memory.checkedCollectionMeta adapter collectionMeta = .ok next) :
    ∃ hooks, hooksOfMeta next = .ok hooks := by
  rcases Fallible.bind_eq_ok.mp h with ⟨normal, hnormal, h⟩
  have hnext : next = normal.toJson := by
    dsimp only at h
    split_ifs at h
    · cases h
    · exact (Except.ok.inj h).symm
  subst hnext
  rw [normalizeCollectionMeta] at hnormal
  split at hnormal
  · exact ⟨_, (hooksOfMeta_toJson hnormal).1⟩
  · cases hnormal

theorem hooksOfMeta_reindexed {change : List JsString → List JsString} {collectionMeta next : Json}
    (h : reindexedMeta change collectionMeta = .ok next) :
    hooksOfMeta next = hooksOfMeta collectionMeta := by
  cases collectionMeta with
  | obj fields =>
      rcases Fallible.bind_eq_ok.mp h with ⟨normal, hnormal, h⟩
      cases h
      rcases hooksOfMeta_toJson hnormal with ⟨hafter, hbefore⟩
      have hindexes : js "indexes" ≠ js "hooks" := by decide
      rw [hooksOfMeta, Assoc.get?_set, if_neg hindexes] at hbefore
      rw [hafter, hooksOfMeta, hbefore]
  | _ => cases h

/-! ## What the runner remembers -/

/-- The runner agrees with the metadata and the registry.  Plans of an older registry are not
looked at before they are dropped. -/
structure Coherent (n : HookedNode) : Prop where
  configs : ∀ d c, (0 : CodeUnit) ∉ d →
    hooksAt n.memory d c = .ok (Assoc.get? n.runner.configs (storeCollectionKey d c))
  plans : n.runner.registryRevision = n.registry.revision →
    ∀ d c operation chain, (0 : CodeUnit) ∉ d →
      Assoc.get? n.runner.plans (planKey (storeCollectionKey d c) operation) = some chain →
        n.registry.chain (Assoc.get? n.runner.configs (storeCollectionKey d c)) operation =
          .ok chain
  revision : n.runner.registryRevision ≤ n.registry.revision

/-- The chain of the current metadata and the current registry. -/
def HookedNode.currentChain (n : HookedNode) (database collection : JsString)
    (operation : HookOperation) : Except HookError (List JsString) := do
  let config ← (hooksAt n.memory database collection).mapError .invalid
  n.registry.chain config operation

theorem Coherent.currentChain_eq {n : HookedNode} (h : Coherent n) {d : JsString}
    (hd : (0 : CodeUnit) ∉ d) (c : JsString) (operation : HookOperation) :
    n.currentChain d c operation =
      n.registry.chain (Assoc.get? n.runner.configs (storeCollectionKey d c)) operation := by
  rw [HookedNode.currentChain, h.configs d c hd]
  rfl

/-- Other steps of the store, which leave every collection's hooks as they are. -/
theorem Coherent.of_hooksAt {n : HookedNode} (h : Coherent n) {m : Memory}
    (hm : ∀ d c, hooksAt m d c = hooksAt n.memory d c) : Coherent { n with memory := m } where
  configs d c hd := by
    rw [hm]
    exact h.configs d c hd
  plans := h.plans
  revision := h.revision

theorem get?_invalidateScope (runner : ObjectHookRunner) (scope scope' : JsString)
    (operation : HookOperation) :
    Assoc.get? (runner.invalidateScope scope).plans (planKey scope' operation) =
      if scope = scope' then none else Assoc.get? runner.plans (planKey scope' operation) := by
  simp only [ObjectHookRunner.invalidateScope, HookOperation.all, List.foldl_cons, List.foldl_nil,
    Assoc.get?_erase, planKey_eq_iff]
  by_cases hscope : scope = scope'
  · cases operation <;> simp [hscope]
  · simp [hscope]

/-- One collection's hooks change, and the runner hears of it. -/
theorem Coherent.changed {n : HookedNode} (h : Coherent n) {m : Memory} {d c : JsString}
    (hd : (0 : CodeUnit) ∉ d) {hooks : Option HooksMeta} {configs : List (JsString × HooksMeta)}
    (hm : ∀ d' c', hooksAt m d' c' =
      if d = d' ∧ c = c' then .ok hooks else hooksAt n.memory d' c')
    (hconfigs : ∀ key, Assoc.get? configs key =
      if storeCollectionKey d c = key then hooks else Assoc.get? n.runner.configs key) :
    Coherent ⟨m, n.registry, ObjectHookRunner.invalidateScope { n.runner with configs := configs }
      (storeCollectionKey d c)⟩ where
  configs d' c' hd' := by
    change _ = Except.ok (Assoc.get? configs _)
    rw [hm, hconfigs]
    by_cases hsame : d = d' ∧ c = c'
    · rcases hsame with ⟨rfl, rfl⟩
      simp
    · have hkey : storeCollectionKey d c ≠ storeCollectionKey d' c' :=
        fun heq => hsame (key_inj hd hd' heq)
      rw [if_neg hsame, if_neg hkey]
      exact h.configs d' c' hd'
  plans hrevision d' c' operation chain hd' hget := by
    rw [get?_invalidateScope] at hget
    change n.registry.chain (Assoc.get? configs _) _ = _
    split_ifs at hget with hkey
    rw [hconfigs, if_neg hkey]
    exact h.plans hrevision d' c' operation chain hd' hget
  revision := h.revision

theorem Coherent.onMeta {n : HookedNode} (h : Coherent n) {m : Memory} {d c : JsString}
    (hd : (0 : CodeUnit) ∉ d) {next : Json} {hooks : Option HooksMeta}
    (hnext : hooksOfMeta next = .ok hooks)
    (hm : ∀ d' c', hooksAt m d' c' =
      if d = d' ∧ c = c' then .ok hooks else hooksAt n.memory d' c') :
    Coherent ⟨m, n.registry, n.runner.onMeta d c next⟩ := by
  rw [ObjectHookRunner.onMeta, hnext]
  cases hooks with
  | none => exact h.changed hd hm fun key => Assoc.get?_erase ..
  | some config => exact h.changed hd hm fun key => Assoc.get?_set ..

theorem configs_onDropDatabase (runner : ObjectHookRunner) {d d' : JsString}
    (hd : (0 : CodeUnit) ∉ d) (hd' : (0 : CodeUnit) ∉ d') (c : JsString) :
    Assoc.get? (runner.onDropDatabase d).configs (storeCollectionKey d' c) =
      if d = d' then none else Assoc.get? runner.configs (storeCollectionKey d' c) := by
  have hkeep := Assoc.get?_filter runner.configs
    (fun key => !(storeCollectionKey d []).isPrefixOf key) (storeCollectionKey d' c)
  rw [isPrefixOf_key hd hd'] at hkeep
  apply hkeep.trans
  by_cases hsame : d = d' <;> simp [hsame]

theorem plans_onDropDatabase (runner : ObjectHookRunner) {d d' : JsString}
    (hd : (0 : CodeUnit) ∉ d) (hd' : (0 : CodeUnit) ∉ d') (c : JsString)
    (operation : HookOperation) :
    Assoc.get? (runner.onDropDatabase d).plans (planKey (storeCollectionKey d' c) operation) =
      if d = d' then none
      else Assoc.get? runner.plans (planKey (storeCollectionKey d' c) operation) := by
  have hkeep := Assoc.get?_filter runner.plans
    (fun key => !(storeCollectionKey d []).isPrefixOf key)
    (planKey (storeCollectionKey d' c) operation)
  rw [isPrefixOf_planKey operation hd hd'] at hkeep
  apply hkeep.trans
  by_cases hsame : d = d' <;> simp [hsame]

theorem Coherent.onDropDatabase {n : HookedNode} (h : Coherent n) {d : JsString}
    (hd : (0 : CodeUnit) ∉ d) :
    Coherent ⟨(n.memory.deleteDatabase d).1, n.registry, n.runner.onDropDatabase d⟩ where
  configs d' c hd' := by
    rw [hooksAt_deleteDatabase, configs_onDropDatabase n.runner hd hd']
    split_ifs
    · rfl
    · exact h.configs d' c hd'
  plans hrevision d' c operation chain hd' hget := by
    rw [plans_onDropDatabase n.runner hd hd'] at hget
    rw [configs_onDropDatabase n.runner hd hd']
    split_ifs at hget ⊢
    exact h.plans hrevision d' c operation chain hd' hget
  revision := h.revision

/-! ## Steps -/

theorem revision_register {registry registry' : ObjectHookRegistry} {name : Json}
    {operations : Option Json} {rejects : Json → Bool}
    (h : registry.register name operations rejects = .ok registry') :
    registry'.revision = registry.revision + 1 := by
  rcases Fallible.bind_eq_ok.mp h with ⟨key, -, h⟩
  dsimp only at h
  split_ifs at h
  · cases h
  · rcases Fallible.bind_eq_ok.mp h with ⟨normal, -, h⟩
    cases h
    rfl

/-- A registration makes every plan one of an older registry. -/
theorem Coherent.register {n : HookedNode} (h : Coherent n) {registry : ObjectHookRegistry}
    {name : Json} {operations : Option Json} {rejects : Json → Bool}
    (hregister : n.registry.register name operations rejects = .ok registry) :
    Coherent { n with registry } where
  configs := h.configs
  plans hrevision := by
    have hnew := revision_register hregister
    have hheld := h.revision
    change n.runner.registryRevision = registry.revision at hrevision
    omega
  revision := by
    have hnew := revision_register hregister
    have hheld := h.revision
    change n.runner.registryRevision ≤ registry.revision
    omega

theorem Coherent.refresh {n : HookedNode} (h : Coherent n) :
    Coherent { n with runner := (n.runner.refresh n.registry).1 } ∧
      (n.runner.refresh n.registry).1.registryRevision = n.registry.revision ∧
        (n.runner.refresh n.registry).1.configs = n.runner.configs := by
  rw [ObjectHookRunner.refresh]
  split_ifs with hrevision
  · exact ⟨h, hrevision, rfl⟩
  · refine ⟨⟨h.configs, ?_, le_refl _⟩, rfl, rfl⟩
    intro _ d c operation chain _ hget
    cases hget

/-- The lookup keeps the runner coherent, and finds the chain of the configuration unless a
remembered one differs. -/
theorem Coherent.planFor {n : HookedNode} (h : Coherent n) (scope : JsString)
    (operation : HookOperation) (hregistry : n.registry.definitions ≠ []) :
    Coherent { n with runner := (n.runner.planFor n.registry scope operation).1 } ∧
      ((∀ chain, Assoc.get? n.runner.plans (planKey scope operation) = some chain →
          n.registry.chain (Assoc.get? n.runner.configs scope) operation = .ok chain) →
        (n.runner.planFor n.registry scope operation).2 =
          n.registry.chain (Assoc.get? n.runner.configs scope) operation) := by
  -- a chain that is added is the one of the configuration
  have hremember : ∀ {chain : List JsString},
      n.registry.chain (Assoc.get? n.runner.configs scope) operation = .ok chain →
        Coherent { n with
          runner := { n.runner with
            plans := Assoc.set n.runner.plans (planKey scope operation) chain } } := by
    intro chain hchain
    refine ⟨h.configs, ?_, h.revision⟩
    intro hrevision d' c' operation' chain' hd' hget
    rw [Assoc.get?_set] at hget
    split_ifs at hget with hkey
    · rcases planKey_inj hkey with ⟨hscope, rfl⟩
      cases hget
      change n.registry.chain (Assoc.get? n.runner.configs _) _ = _
      rw [← hscope, hchain]
    · exact h.plans hrevision d' c' operation' chain' hd' hget
  rw [ObjectHookRunner.planFor]
  cases hplan : Assoc.get? n.runner.plans (planKey scope operation) with
  | some chain => exact ⟨h, fun hplans => (hplans chain rfl).symm⟩
  | none =>
      cases hconfig : Assoc.get? n.runner.configs scope with
      | none =>
          have hchain : n.registry.chain none operation = .ok [] := if_neg hregistry
          exact ⟨hremember (by rw [hconfig, hchain]), fun _ => hchain.symm⟩
      | some config =>
          by_cases henabled : config.enabled = true
          · have hchain : n.registry.chain (some config) operation =
                n.registry.buildChain config operation := by
              rw [ObjectHookRegistry.chain, if_neg hregistry]
              exact if_pos henabled
            simp only [henabled, if_true, hchain]
            cases hbuilt : n.registry.buildChain config operation with
            | error err => exact ⟨h, fun _ => rfl⟩
            | ok chain => exact ⟨hremember (by rw [hconfig, hchain, hbuilt]), fun _ => rfl⟩
          · have hchain : n.registry.chain (some config) operation = .ok [] := by
              rw [ObjectHookRegistry.chain, if_neg hregistry]
              exact if_neg henabled
            simp only [henabled, hchain]
            exact ⟨hremember (by rw [hconfig, hchain]), fun _ => rfl⟩

/-- The database of a call. -/
def databaseOf : MetaCall → JsString
  | .createDatabase database _ => database
  | .setDatabaseMeta database _ => database
  | .createCollection database _ _ => database
  | .setCollectionMeta database _ _ => database

/-- The names of databases hold no NUL, and what a restore does to the store leaves the hooks of
every collection as they are. -/
def HookEvent.Safe (adapter : Bool) (n : HookedNode) : HookEvent → Prop
  | .configure call => (0 : CodeUnit) ∉ databaseOf call
  | .createIndex database _ _ => (0 : CodeUnit) ∉ database
  | .dropIndex database _ _ => (0 : CodeUnit) ∉ database
  | .removeDatabase database => (0 : CodeUnit) ∉ database
  | .removeCollection database _ => (0 : CodeUnit) ∉ database
  | .restoring call => ∀ d c, hooksAt (storeCall adapter n.memory call) d c = hooksAt n.memory d c
  | _ => True

/-- A call that fails makes a collection at most. -/
theorem hooksAt_putCollectionMeta_error {adapter : Bool} {m : Memory} {d c : JsString}
    {collectionMeta : Option Json} {err : MetaError}
    (h : (m.putCollectionMeta adapter d c collectionMeta).2 = .error err) (d' c' : JsString) :
    hooksAt (m.putCollectionMeta adapter d c collectionMeta).1 d' c' = hooksAt m d' c' := by
  rw [Memory.putCollectionMeta_error h]
  split_ifs
  · rfl
  · exact hooksAt_setRows m d c (m.collectionOf d c).rows d' c'

theorem putCollectionMeta_ok {adapter : Bool} {m : Memory} {d c : JsString}
    {collectionMeta : Option Json} {next : Json}
    (h : (m.putCollectionMeta adapter d c collectionMeta).2 = .ok next) :
    (∃ hooks, hooksOfMeta next = .ok hooks) ∧
      ∀ d' c', hooksAt (m.putCollectionMeta adapter d c collectionMeta).1 d' c' =
        if d = d' ∧ c = c' then hooksOfMeta next else hooksAt m d' c' := by
  rw [Memory.putCollectionMeta] at h ⊢
  cases hopen : m.openCollection d c with
  | error err =>
      rw [hopen] at h
      cases h
  | ok opened =>
      rw [hopen] at h
      dsimp only at h ⊢
      cases hchecked : Memory.checkedCollectionMeta adapter collectionMeta with
      | error err =>
          rw [hchecked] at h
          cases h
      | ok normal =>
          rw [hchecked] at h
          cases h
          refine ⟨hooksOfMeta_checked hchecked, ?_⟩
          intro d' c'
          rw [hooksAt_setCollection, hooksAt_openCollection hopen]

theorem Coherent.putCollectionMeta {n : HookedNode} (h : Coherent n) (adapter : Bool)
    {d c : JsString} (hd : (0 : CodeUnit) ∉ d) (collectionMeta : Option Json) {m : Memory}
    (hm : ∀ d' c', hooksAt m d' c' = hooksAt n.memory d' c') :
    Coherent (n.notifyMeta d c (m.putCollectionMeta adapter d c collectionMeta)) := by
  cases hput : m.putCollectionMeta adapter d c collectionMeta with
  | mk m' result =>
      cases result with
      | error err =>
          apply h.of_hooksAt
          intro d' c'
          have hsame := hooksAt_putCollectionMeta_error (congrArg Prod.snd hput) d' c'
          rw [hput] at hsame
          exact hsame.trans (hm d' c')
      | ok next =>
          rcases putCollectionMeta_ok (congrArg Prod.snd hput) with ⟨⟨hooks, hnext⟩, hset⟩
          apply h.onMeta hd hnext
          intro d' c'
          have hafter := hset d' c'
          rw [hput] at hafter
          rw [hafter, hnext, hm]

theorem Coherent.reindex {n : HookedNode} (h : Coherent n) {d c : JsString}
    (hd : (0 : CodeUnit) ∉ d) (change : List JsString → List JsString) :
    Coherent (n.notifyMeta d c (reindex n.memory d c change)) := by
  rw [Hooks.reindex]
  cases hopen : n.memory.openCollection d c with
  | error err => exact h.of_hooksAt fun _ _ => rfl
  | ok opened =>
      have hopened := hooksAt_openCollection hopen
      dsimp only
      cases hnext : reindexedMeta change (opened.collectionOf d c).collectionMeta with
      | error err => exact h.of_hooksAt hopened
      | ok next =>
          have hhooks : hooksOfMeta next =
              .ok (Assoc.get? n.runner.configs (storeCollectionKey d c)) := by
            rw [hooksOfMeta_reindexed hnext, hooksOfMeta_collectionOf, hopened, h.configs d c hd]
          apply h.onMeta hd hhooks
          intro d' c'
          rw [hooksAt_setCollection, hopened]
          dsimp only
          rw [hhooks]

/-- A database that is not there has no hooks to drop. -/
theorem hooksAt_deleteDatabase_of_none {m : Memory} {d : JsString}
    (h : (m.getDatabase d).isSome = false) (d' c : JsString) :
    hooksAt (m.deleteDatabase d).1 d' c = hooksAt m d' c := by
  rw [hooksAt_deleteDatabase]
  split_ifs with hsame
  · subst hsame
    have hnone : m.getDatabase d = none := by simpa using h
    rw [hooksAt, Memory.getCollectionMeta, Memory.getCollection_eq, hnone]
    rfl
  · rfl

theorem deleteCollection_removed (m : Memory) (d c : JsString) :
    (m.deleteCollection d c).2 = (m.getCollection d c).isSome := by
  rw [Memory.deleteCollection, Memory.getCollection_eq]
  cases m.getDatabase d <;> rfl

theorem hooksAt_deleteCollection_of_none {m : Memory} {d c : JsString}
    (h : (m.getCollection d c).isSome = false) (d' c' : JsString) :
    hooksAt (m.deleteCollection d c).1 d' c' = hooksAt m d' c' := by
  rw [hooksAt_deleteCollection]
  split_ifs with hsame
  · rcases hsame with ⟨rfl, rfl⟩
    have hnone : m.getCollection d c = none := by simpa using h
    rw [hooksAt, Memory.getCollectionMeta, hnone]
    rfl
  · rfl

theorem Coherent.planned {n : HookedNode} (h : Coherent n) (d c : JsString)
    (operation : HookOperation) :
    Coherent { n with runner := (n.runner.plan n.registry d c operation).1 } := by
  rw [ObjectHookRunner.plan]
  split_ifs with hregistry
  · exact h
  · rcases h.refresh with ⟨hrefreshed, -, -⟩
    cases hrefresh : n.runner.refresh n.registry with
    | mk runner result =>
        rw [hrefresh] at hrefreshed
        cases result with
        | error err => exact hrefreshed
        | ok _ => exact (hrefreshed.planFor (storeCollectionKey d c) operation hregistry).1

/-- A plan is the chain of the current metadata, unless the check of all configurations against a
registry that has changed throws. -/
theorem Coherent.plan {n : HookedNode} (h : Coherent n) {d : JsString}
    (hd : (0 : CodeUnit) ∉ d) (c : JsString) (operation : HookOperation) :
    (n.runner.plan n.registry d c operation).2 = n.currentChain d c operation ∨
      n.runner.registryRevision ≠ n.registry.revision ∧
        ∃ err, n.runner.validateConfigs n.registry = .error err ∧
          (n.runner.plan n.registry d c operation).2 = .error err := by
  rw [h.currentChain_eq hd, ObjectHookRunner.plan]
  split_ifs with hregistry
  · left
    exact (if_pos hregistry).symm
  · rcases h.refresh with ⟨hrefreshed, hrevision, hconfigs⟩
    cases hrefresh : n.runner.refresh n.registry with
    | mk runner result =>
        rw [hrefresh] at hrefreshed hrevision hconfigs
        cases result with
        | error err =>
            right
            rw [ObjectHookRunner.refresh] at hrefresh
            split_ifs at hrefresh with hsame
            · cases hrefresh
            · exact ⟨hsame, err, congrArg Prod.snd hrefresh, rfl⟩
        | ok _ =>
            left
            have hplanned := (hrefreshed.planFor (storeCollectionKey d c) operation hregistry).2
              fun chain => hrefreshed.plans hrevision d c operation chain hd
            dsimp only at hplanned hconfigs ⊢
            rw [hplanned, hconfigs]

theorem hooksAt_setDatabase {m : Memory} {d : JsString} {x : HeldDatabase}
    (hx : x.collections = (m.databaseOf d).collections) (d' c : JsString) :
    hooksAt (m.setDatabase d x) d' c = hooksAt m d' c := by
  apply hooksAt_eq
  rw [Memory.getCollectionMeta, Memory.getCollectionMeta, Memory.getCollection_eq,
    Memory.getDatabase_setDatabase]
  split_ifs with hsame
  · subst hsame
    rw [Option.bind_some, hx, Memory.get?_databaseOf]
  · rfl

theorem hooksAt_putDatabaseMeta (m : Memory) (d : JsString) (databaseMeta : Option Json)
    (d' c : JsString) :
    hooksAt (m.putDatabaseMeta d databaseMeta).1 d' c = hooksAt m d' c := by
  have hopened : ∀ d' c, hooksAt (m.openDatabase d) d' c = hooksAt m d' c :=
    hooksAt_setDatabase rfl
  rw [Memory.putDatabaseMeta]
  cases normalizeDatabaseMeta databaseMeta with
  | error err => exact hopened d' c
  | ok next =>
      apply Eq.trans _ (hopened d' c)
      exact hooksAt_setDatabase (x := { (m.openDatabase d).databaseOf d with databaseMeta := next })
        rfl d' c

theorem Coherent.step {n : HookedNode} (h : Coherent n) (adapter : Bool) {event : HookEvent}
    (hsafe : event.Safe adapter n) : Coherent (n.step adapter event) := by
  cases event with
  | configure call =>
      cases call with
      | createDatabase database databaseMeta =>
          exact h.of_hooksAt (hooksAt_putDatabaseMeta (n.memory.untombDatabase database) _ _)
      | setDatabaseMeta database databaseMeta =>
          exact h.of_hooksAt (hooksAt_putDatabaseMeta (n.memory.untombDatabase database) _ _)
      | createCollection database collection collectionMeta =>
          exact h.putCollectionMeta adapter hsafe collectionMeta fun _ _ => rfl
      | setCollectionMeta database collection collectionMeta =>
          exact h.putCollectionMeta adapter hsafe collectionMeta fun _ _ => rfl
  | createIndex database collection path => exact h.reindex hsafe _
  | dropIndex database collection path => exact h.reindex hsafe _
  | removeDatabase database =>
      change Coherent (n.removeDatabase database)
      rw [HookedNode.removeDatabase]
      dsimp only
      split_ifs with hnotified
      · exact h.onDropDatabase hsafe
      · apply h.of_hooksAt
        have hnone : (n.memory.getDatabase database).isSome = false := by
          simp only [Bool.or_eq_true, not_or, Bool.not_eq_true] at hnotified
          exact hnotified.1
        exact hooksAt_deleteDatabase_of_none hnone
  | removeCollection database collection =>
      change Coherent (n.removeCollection database collection)
      rw [HookedNode.removeCollection]
      dsimp only
      split_ifs with hnotified
      · exact h.changed hsafe
          (hooksAt_deleteCollection n.memory database collection) fun key => Assoc.get?_erase ..
      · apply h.of_hooksAt
        have hnone : (n.memory.getCollection database collection).isSome = false := by
          simp only [Bool.or_eq_true, not_or, Bool.not_eq_true] at hnotified
          rw [← deleteCollection_removed]
          exact hnotified.1
        exact hooksAt_deleteCollection_of_none hnone
  | openCollection database collection =>
      change Coherent (match n.memory.openCollection database collection with
        | .error _ => n
        | .ok memory => { n with memory })
      cases hopen : n.memory.openCollection database collection with
      | error err => exact h
      | ok m => exact h.of_hooksAt (hooksAt_openCollection hopen)
  | applyOps ops => exact h.of_hooksAt (hooksAt_applyOps n.memory ops)
  | applySnapshotObjects database collection rows =>
      exact h.of_hooksAt (hooksAt_applySnapshotObjects n.memory database collection rows)
  | register name operations rejects =>
      change Coherent (match n.registry.register name operations rejects with
        | .error _ => n
        | .ok registry => { n with registry })
      cases hregister : n.registry.register name operations rejects with
      | error err => exact h
      | ok registry => exact h.register hregister
  | plan database collection operation => exact h.planned database collection operation
  | restoring call => exact h.of_hooksAt hsafe

/-! ## The start -/

theorem validateMeta_ok {registry : ObjectHookRegistry} {collectionMeta : Json}
    {config : Option HooksMeta} (h : registry.validateMeta collectionMeta = .ok config) :
    hooksOfMeta collectionMeta = .ok config := by
  rw [ObjectHookRegistry.validateMeta] at h
  cases hhooks : hooksOfMeta collectionMeta with
  | error err =>
      rw [hhooks] at h
      cases h
  | ok hooks =>
      rw [hhooks] at h
      cases hooks with
      | none =>
          cases h
          rfl
      | some hooks =>
          change (if hooks.enabled then
            registry.validateConfig collectionMeta hooks >>= fun _ => pure (some hooks)
            else pure (some hooks)) = Except.ok config at h
          split_ifs at h
          · rcases Fallible.bind_eq_ok.mp h with ⟨-, -, h⟩
            cases h
            rfl
          · cases h
            rfl

theorem hooksOfMeta_getD (m : Memory) (d c : JsString) :
    hooksOfMeta ((m.getCollectionMeta d c).getD (.obj [])) = hooksAt m d c := by
  rw [hooksAt]
  cases m.getCollectionMeta d c <;> rfl

/-- Every collection with metadata is loaded. -/
theorem mem_collectionsOf {m : Memory} {d c : JsString}
    (h : (m.getCollectionMeta d c).isSome) : (d, c) ∈ ObjectHookRunner.collectionsOf m := by
  rcases Option.isSome_iff_exists.mp h with ⟨collectionMeta, hmeta⟩
  rcases Option.map_eq_some_iff.mp hmeta with ⟨x, hx, -⟩
  rcases Option.bind_eq_some_iff.mp hx with ⟨database, hdatabase, hcollection⟩
  rw [ObjectHookRunner.collectionsOf, List.mem_flatMap]
  refine ⟨d, ?_, List.mem_map.mpr ⟨c, ?_, rfl⟩⟩
  · exact Assoc.get?_isSome_iff.mp (by rw [← Memory.getDatabase, hdatabase]; rfl)
  · rw [Memory.collectionNames, hdatabase]
    exact Assoc.get?_isSome_iff.mp (by rw [hcollection]; rfl)

theorem loadCollection_spec {m : Memory} {registry : ObjectHookRegistry}
    {runner runner' : ObjectHookRunner} {target : JsString × JsString}
    (h : ObjectHookRunner.loadCollection m registry runner target = .ok runner') :
    runner'.plans = runner.plans ∧ runner'.registryRevision = runner.registryRevision ∧
      ∃ config, hooksAt m target.1 target.2 = .ok config ∧
        ∀ key, Assoc.get? runner'.configs key =
          if storeCollectionKey target.1 target.2 = key ∧ config.isSome then config
          else Assoc.get? runner.configs key := by
  rcases Fallible.bind_eq_ok.mp h with ⟨config, hconfig, h⟩
  have hhooks := validateMeta_ok hconfig
  rw [hooksOfMeta_getD] at hhooks
  cases config with
  | none =>
      cases h
      exact ⟨rfl, rfl, none, hhooks, fun key => by simp⟩
  | some config =>
      cases h
      refine ⟨rfl, rfl, some config, hhooks, ?_⟩
      intro key
      simp only [Option.isSome_some, and_true]
      exact Assoc.get?_set ..

/-- The runner has the hooks of a collection as they are configured. -/
def Loaded (m : Memory) (d c : JsString) (runner : ObjectHookRunner) : Prop :=
  hooksAt m d c = .ok (Assoc.get? runner.configs (storeCollectionKey d c))

section

variable {m : Memory} {registry : ObjectHookRegistry} {runner runner' : ObjectHookRunner}
variable {d c : JsString}

theorem Loaded.loadCollection {target : JsString × JsString}
    (h : ObjectHookRunner.loadCollection m registry runner target = .ok runner')
    (htarget : (0 : CodeUnit) ∉ target.1) (hd : (0 : CodeUnit) ∉ d)
    (hloaded : Loaded m d c runner) : Loaded m d c runner' := by
  rcases loadCollection_spec h with ⟨-, -, config, hconfig, hget⟩
  rw [Loaded, hget]
  split_ifs with hkey
  · rcases key_inj htarget hd hkey.1 with ⟨rfl, rfl⟩
    exact hconfig
  · exact hloaded

/-- The loop comes to a collection that it knows nothing of. -/
theorem loaded_of_target
    (h : ObjectHookRunner.loadCollection m registry runner (d, c) = .ok runner')
    (hnone : Assoc.get? runner.configs (storeCollectionKey d c) = none) : Loaded m d c runner' := by
  rcases loadCollection_spec h with ⟨-, -, config, hconfig, hget⟩
  rw [Loaded, hget, hconfig, hnone]
  cases config <;> simp

theorem get?_loadCollection {target : JsString × JsString}
    (h : ObjectHookRunner.loadCollection m registry runner target = .ok runner')
    (htarget : (0 : CodeUnit) ∉ target.1) (hd : (0 : CodeUnit) ∉ d) (hne : target ≠ (d, c)) :
    Assoc.get? runner'.configs (storeCollectionKey d c) =
      Assoc.get? runner.configs (storeCollectionKey d c) := by
  rcases loadCollection_spec h with ⟨-, -, config, -, hget⟩
  rw [hget, if_neg]
  rintro ⟨hkey, -⟩
  rcases key_inj htarget hd hkey with ⟨hdatabase, hcollection⟩
  exact hne (Prod.ext hdatabase hcollection)

theorem loadCollections_spec {targets : List (JsString × JsString)}
    (h : targets.foldlM (ObjectHookRunner.loadCollection m registry) runner = .ok runner')
    (htargets : ∀ target ∈ targets, (0 : CodeUnit) ∉ target.1) (hd : (0 : CodeUnit) ∉ d) :
    runner'.plans = runner.plans ∧ runner'.registryRevision = runner.registryRevision ∧
      (Loaded m d c runner → Loaded m d c runner') ∧
      (Assoc.get? runner.configs (storeCollectionKey d c) = none → (d, c) ∈ targets →
        Loaded m d c runner') := by
  induction targets generalizing runner with
  | nil =>
      cases h
      exact ⟨rfl, rfl, id, fun _ hmem => absurd hmem List.not_mem_nil⟩
  | cons target targets ih =>
      rw [List.foldlM_cons] at h
      rcases Fallible.bind_eq_ok.mp h with ⟨middle, hmiddle, h⟩
      rcases loadCollection_spec hmiddle with ⟨hplans, hrevision, -⟩
      have htarget := htargets target List.mem_cons_self
      rcases ih h fun t ht => htargets t (List.mem_cons_of_mem _ ht) with
        ⟨hplans', hrevision', hkeep, hload⟩
      refine ⟨hplans'.trans hplans, hrevision'.trans hrevision, ?_, ?_⟩
      · exact fun hloaded => hkeep (hloaded.loadCollection hmiddle htarget hd)
      · intro hnone hmem
        by_cases heq : target = (d, c)
        · subst heq
          exact hkeep (loaded_of_target hmiddle hnone)
        · rcases List.mem_cons.mp hmem with hhead | hrest
          · exact absurd hhead.symm heq
          · exact hload ((get?_loadCollection hmiddle htarget hd heq).trans hnone) hrest

end

theorem coherent_load {m : Memory} {registry : ObjectHookRegistry} {runner : ObjectHookRunner}
    (hload : ObjectHookRunner.load m registry = .ok runner)
    (hnames : ∀ d ∈ m.dbNames, (0 : CodeUnit) ∉ d) : Coherent ⟨m, registry, runner⟩ := by
  have htargets : ∀ target ∈ ObjectHookRunner.collectionsOf m, (0 : CodeUnit) ∉ target.1 := by
    intro target htarget
    rcases List.mem_flatMap.mp htarget with ⟨d, hd, htarget⟩
    rcases List.mem_map.mp htarget with ⟨c, -, rfl⟩
    exact hnames d hd
  have hspec := fun d c (hd : (0 : CodeUnit) ∉ d) =>
    loadCollections_spec (c := c) hload htargets hd
  rcases hspec [] [] List.not_mem_nil with ⟨hplans, hrevision, -⟩
  refine ⟨?_, ?_, le_of_eq hrevision⟩
  · intro d c hd
    rcases hspec d c hd with ⟨-, -, hkeep, hmem⟩
    by_cases hmeta : (m.getCollectionMeta d c).isSome
    · exact hmem rfl (mem_collectionsOf hmeta)
    · -- there is nothing to load
      have hmissing : m.getCollectionMeta d c = none := by simpa using hmeta
      have hloaded : Loaded m d c ⟨[], [], registry.revision⟩ := by
        rw [Loaded, hooksAt, hmissing]
        rfl
      exact hkeep hloaded
  · intro _ d c operation chain _ hget
    change Assoc.get? runner.plans _ = _ at hget
    rw [hplans] at hget
    cases hget

/-! ## Runs -/

/-- Every step of the run is safe where it is taken. -/
def SafeRun (adapter : Bool) : HookedNode → List HookEvent → Prop
  | _, [] => True
  | n, event :: events => event.Safe adapter n ∧ SafeRun adapter (n.step adapter event) events

theorem Coherent.run {adapter : Bool} {n : HookedNode} (h : Coherent n) {events : List HookEvent}
    (hsafe : SafeRun adapter n events) : Coherent (HookedNode.run adapter n events) := by
  induction events generalizing n with
  | nil => exact h
  | cons event events ih => exact ih (h.step adapter hsafe.1) hsafe.2

/-! ## Hooks of a chain -/

/-- A registered hook that runs on the operation. -/
def Supports (registry : ObjectHookRegistry) (operation : HookOperation) (name : JsString) : Prop :=
  ∃ hook, Assoc.get? registry.definitions name = some hook ∧ operation ∈ hook.operations

theorem get_eq_ok {registry : ObjectHookRegistry} {name : JsString} {hook : HookDefinition} :
    registry.get name = .ok hook ↔ Assoc.get? registry.definitions name = some hook := by
  rw [ObjectHookRegistry.get]
  cases Assoc.get? registry.definitions name <;> simp

theorem mem_useHooks {registry : ObjectHookRegistry} {operation : HookOperation}
    {names chain chain' : List JsString}
    (h : names.foldlM (registry.useHook operation) chain = .ok chain') (name : JsString) :
    name ∈ chain' ↔ name ∈ chain ∨ name ∈ names ∧ Supports registry operation name := by
  induction names generalizing chain with
  | nil =>
      cases h
      simp
  | cons first names ih =>
      rw [List.foldlM_cons] at h
      rcases Fallible.bind_eq_ok.mp h with ⟨middle, hmiddle, h⟩
      rcases Fallible.bind_eq_ok.mp hmiddle with ⟨hook, hhook, hmiddle⟩
      cases hmiddle
      have hdefined := get_eq_ok.mp hhook
      have hfirst : Supports registry operation first ↔ operation ∈ hook.operations := by
        constructor
        · rintro ⟨other, hother, hmem⟩
          rw [hdefined] at hother
          cases hother
          exact hmem
        · exact fun hmem => ⟨hook, hdefined, hmem⟩
      rw [ih h]
      by_cases hsupports : operation ∈ hook.operations
      · rw [if_pos hsupports, List.mem_append, List.mem_singleton, List.mem_cons, or_assoc]
        apply or_congr_right
        constructor
        · rintro (rfl | ⟨hmem, hsupported⟩)
          · exact ⟨Or.inl rfl, hfirst.mpr hsupports⟩
          · exact ⟨Or.inr hmem, hsupported⟩
        · rintro ⟨rfl | hmem, hsupported⟩
          · exact Or.inl rfl
          · exact Or.inr ⟨hmem, hsupported⟩
      · rw [if_neg hsupports, List.mem_cons]
        apply or_congr_right
        constructor
        · exact fun ⟨hmem, hsupported⟩ => ⟨Or.inr hmem, hsupported⟩
        · rintro ⟨rfl | hmem, hsupported⟩
          · exact absurd (hfirst.mp hsupported) hsupports
          · exact ⟨hmem, hsupported⟩

theorem mem_operationHook {registry : ObjectHookRegistry} {operation : HookOperation}
    {chain chain' : List JsString} {first : JsString}
    (h : registry.operationHook operation chain first = .ok chain') :
    Supports registry operation first ∧ ∀ name, name ∈ chain' ↔ name ∈ chain ∨ name = first := by
  rcases Fallible.bind_eq_ok.mp h with ⟨hook, hhook, h⟩
  dsimp only at h
  by_cases hsupports : operation ∈ hook.operations
  · rw [if_neg (not_not.mpr hsupports)] at h
    refine ⟨⟨hook, get_eq_ok.mp hhook, hsupports⟩, ?_⟩
    intro name
    by_cases hchain : first ∈ chain
    · rw [if_pos hchain] at h
      cases h
      constructor
      · exact Or.inl
      · rintro (hname | rfl)
        · exact hname
        · exact hchain
    · rw [if_neg hchain] at h
      cases h
      rw [List.mem_append, List.mem_singleton]
  · rw [if_pos hsupports] at h
    cases h

theorem mem_operationHooks {registry : ObjectHookRegistry} {operation : HookOperation}
    {names chain chain' : List JsString}
    (h : names.foldlM (registry.operationHook operation) chain = .ok chain') :
    (∀ name ∈ names, Supports registry operation name) ∧
      ∀ name, name ∈ chain' ↔ name ∈ chain ∨ name ∈ names := by
  induction names generalizing chain with
  | nil =>
      cases h
      simp
  | cons first names ih =>
      rw [List.foldlM_cons] at h
      rcases Fallible.bind_eq_ok.mp h with ⟨middle, hmiddle, h⟩
      rcases mem_operationHook hmiddle with ⟨hfirst, hmem⟩
      rcases ih h with ⟨hsupported, hmem'⟩
      constructor
      · exact List.forall_mem_cons.mpr ⟨hfirst, hsupported⟩
      · intro name
        rw [hmem', hmem, List.mem_cons, or_assoc]

/-- The hook is registered for the operation, and the metadata of the collection names it. -/
def HookedNode.Configured (n : HookedNode) (database collection : JsString)
    (operation : HookOperation) (name : JsString) : Prop :=
  ∃ config, hooksAt n.memory database collection = .ok (some config) ∧ config.enabled = true ∧
    (name ∈ config.names (js "use") ∨ name ∈ config.names operation.name) ∧
      Supports n.registry operation name

/-- The current chain has the configured hooks and no others. -/
theorem HookedNode.mem_currentChain {n : HookedNode} {d c : JsString} {operation : HookOperation}
    {chain : List JsString} (h : n.currentChain d c operation = .ok chain) (name : JsString) :
    name ∈ chain ↔ n.Configured d c operation name := by
  rw [currentChain] at h
  cases hhooks : hooksAt n.memory d c with
  | error err =>
      rw [hhooks] at h
      cases h
  | ok config =>
      rw [hhooks] at h
      change n.registry.chain config operation = .ok chain at h
      rw [ObjectHookRegistry.chain.eq_def] at h
      split_ifs at h with hregistry
      · -- nothing is registered
        cases h
        constructor
        · exact fun hname => absurd hname List.not_mem_nil
        · rintro ⟨_, -, -, -, hook, hhook, -⟩
          rw [hregistry] at hhook
          cases hhook
      · cases config with
        | none =>
            cases h
            constructor
            · exact fun hname => absurd hname List.not_mem_nil
            · rintro ⟨config, hconfig, -⟩
              rw [hhooks] at hconfig
              cases hconfig
        | some config =>
            dsimp only at h
            split_ifs at h with henabled
            · rcases Fallible.bind_eq_ok.mp h with ⟨used, hused, h⟩
              rcases mem_operationHooks h with ⟨hsupported, hmem⟩
              rw [hmem, mem_useHooks hused]
              constructor
              · rintro ((hname | ⟨hname, hsupports⟩) | hname)
                · exact absurd hname List.not_mem_nil
                · exact ⟨config, hhooks, henabled, Or.inl hname, hsupports⟩
                · exact ⟨config, hhooks, henabled, Or.inr hname, hsupported name hname⟩
              · rintro ⟨config', hconfig', -, hname, hsupports⟩
                rw [hhooks] at hconfig'
                cases hconfig'
                rcases hname with hname | hname
                · exact Or.inl (Or.inr ⟨hname, hsupports⟩)
                · exact Or.inr hname
            · cases h
              constructor
              · exact fun hname => absurd hname List.not_mem_nil
              · rintro ⟨config', hconfig', henabled', -⟩
                rw [hhooks] at hconfig'
                cases hconfig'
                exact absurd henabled' henabled

/-! ## Plans of a run -/

/-- What a plan has to be: the chain of the current metadata and registry, which has the configured
hooks and no others.  It may throw what that chain throws, or, after a registration, what the check
of all configurations throws. -/
def HookedNode.PlanCurrent (n : HookedNode) (database collection : JsString)
    (operation : HookOperation) : Prop :=
  match (n.runner.plan n.registry database collection operation).2 with
  | .ok chain =>
      n.currentChain database collection operation = .ok chain ∧
        ∀ name, name ∈ chain ↔ n.Configured database collection operation name
  | .error err =>
      n.currentChain database collection operation = .error err ∨
        n.runner.registryRevision ≠ n.registry.revision ∧
          n.runner.validateConfigs n.registry = .error err

/-- The runner starts with what the store has, and every step of the run is safe: then whatever is
planned next is current. -/
theorem run_coherent (adapter : Bool) (m : Memory) (registry : ObjectHookRegistry)
    (runner : ObjectHookRunner) (hload : ObjectHookRunner.load m registry = .ok runner)
    (hnames : ∀ d ∈ m.dbNames, (0 : CodeUnit) ∉ d) (events : List HookEvent)
    (hsafe : SafeRun adapter ⟨m, registry, runner⟩ events) (d c : JsString)
    (hd : (0 : CodeUnit) ∉ d) (operation : HookOperation) :
    (HookedNode.run adapter ⟨m, registry, runner⟩ events).PlanCurrent d c operation := by
  have hrun := (coherent_load hload hnames).run hsafe
  generalize HookedNode.run adapter ⟨m, registry, runner⟩ events = n at hrun
  rw [HookedNode.PlanCurrent]
  rcases hrun.plan hd c operation with hplan | ⟨hrevision, err, hinvalid, hplan⟩
  · rw [hplan]
    cases hchain : n.currentChain d c operation with
    | error err => exact Or.inl rfl
    | ok chain => exact ⟨rfl, HookedNode.mem_currentChain hchain⟩
  · rw [hplan]
    exact Or.inr ⟨hrevision, hinvalid⟩

/-- A hook, and a collection for it. -/
def auditEvents (collectionMeta : Json) : List HookEvent :=
  [.register (.str (js "audit")) none fun _ => false,
    .configure (.createDatabase (js "d") none),
    .configure (.createCollection (js "d") (js "c") (some collectionMeta))]

/-- Metadata that runs the hook on every operation. -/
def auditMeta : Json :=
  .obj [(js "hooks", .obj [(js "use", .arr [.str (js "audit")])])]

/-- A restore that drops a database which the node does not have. -/
theorem coherent_audit :
    (HookedNode.run true ⟨Memory.empty, .empty, ⟨[], [], 0⟩⟩
      (auditEvents auditMeta ++ [.restoring (.deleteDatabase (js "old"))])).PlanCurrent
        (js "d") (js "c") .create := by
  have hd : (0 : CodeUnit) ∉ js "d" := by decide
  refine run_coherent true Memory.empty .empty ⟨[], [], 0⟩ rfl ?_ _ ?_ (js "d") (js "c") hd .create
  · intro d hname
    cases hname
  · refine ⟨trivial, hd, hd, ?_, trivial⟩
    intro d c
    exact hooksAt_deleteDatabase_of_none (by decide +kernel) d c

/-- A restore configures the hook on a collection that the node has: the hook is skipped. -/
theorem restored_hook_skipped :
    ¬∀ (adapter : Bool) (m : Memory) (registry : ObjectHookRegistry) (runner : ObjectHookRunner),
      ObjectHookRunner.load m registry = .ok runner → (∀ d ∈ m.dbNames, (0 : CodeUnit) ∉ d) →
        ∀ (events : List HookEvent) (d c : JsString), (0 : CodeUnit) ∉ d →
          ∀ operation : HookOperation,
            (HookedNode.run adapter ⟨m, registry, runner⟩ events).PlanCurrent d c operation := by
  intro h
  have hplan := h true Memory.empty .empty ⟨[], [], 0⟩ rfl (fun d hd => by cases hd)
    (auditEvents (.obj []) ++
      [.restoring (.configure (.setCollectionMeta (js "d") (js "c") (some auditMeta)))])
    (js "d") (js "c") (by decide) .create
  generalize hn : HookedNode.run _ _ _ = n at hplan
  have hempty : (n.runner.plan n.registry (js "d") (js "c") .create).2 = .ok [] := by
    rw [← hn]
    decide +kernel
  have hcurrent : n.currentChain (js "d") (js "c") .create = .ok [js "audit"] := by
    rw [← hn]
    decide +kernel
  rw [HookedNode.PlanCurrent, hempty] at hplan
  exact absurd (hcurrent.symm.trans hplan.1) (by decide)

end Hooks
end ObjyDb
