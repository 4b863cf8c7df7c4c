/-
  YOrch.Executor.Classification — output types, storage modes and slot policies.

  A plan reads three classifications off a task, and the executor a fourth off
  its raw result.  Some of them strip cv-qualifiers from the raw result type and
  some do not.  `Task.Consistent` says what they have to agree on:

    • `Task.consistent_iff` — they do, except for a task that returns a
      cv-qualified `step_result` and a `void` task under a catch policy that
      returns neither `void` nor `step_result`,
    • `stores_run` — what the nodes of a run construct in their slots when they
      succeed,
    • `classifications_agree` — both together,
    • `constStepTask_inconsistent` — the first exception.
-/
import YOrch.Executor.EmptySlots

namespace YOrch

open Library

variable {V W S : Type}

/-! ## §1. Raw results. -/

/-- The types a program can name: `task_result` and `direct_out` assert that they
hold objects. -/
def CppType.wellFormed : CppType → Bool
  | .taskResult t | .directOut t => t.wellFormed && !t.isReference && !t.isVoid
  | .cv _ t => t.wellFormed && !t.isReference
  | .lvalueRef t | .rvalueRef t => t.wellFormed && !t.isVoid
  | .referenceWrapper t => t.wellFormed && !t.isReference && !t.isVoid
  | .void | .object _ | .stepResult => true

theorem CppType.wellFormed_removeCv {t : CppType} (h : t.wellFormed) : t.removeCv.wellFormed := by
  induction t with
  | cv q t ih =>
      unfold wellFormed at h
      rw [Bool.and_eq_true] at h
      exact ih h.1
  | _ => exact h

/-- What a `task_result` carries is an object. -/
theorem CppType.payload_not_void {t T : CppType} (h : t.wellFormed)
    (hpayload : t.removeCv = .taskResult T) : T.isVoid = false := by
  have hformed := wellFormed_removeCv h
  rw [hpayload] at hformed
  unfold wellFormed at hformed
  simp only [Bool.and_eq_true, Bool.not_eq_true'] at hformed
  exact hformed.2

/-- The task returns `const step_result` or the like. -/
def BaseTask.returnsCvStepResult (task : BaseTask) : Bool :=
  task.rawResultType.removeCv == .stepResult && task.rawResultType != .stepResult

/-- `store_node_output` writes a result of this kind into the node's slot. -/
def RawKind.stores : RawKind → Bool
  | .void | .step => false
  | .taskResult | .value => true

theorem CppType.isVoid_wellFormed : ∀ {t : CppType}, t.isVoid → t.wellFormed
  | .void, _ => rfl
  | .cv q t, h => by
      have hvoid : t.isVoid := h
      unfold wellFormed
      rw [isVoid_wellFormed hvoid, isReference_of_void hvoid]
      rfl

namespace Task

/-- A catch policy over a `void` task returns `void` or `step_result`. -/
def policiesFit : Task → Bool
  | .base _ => true
  | .catchFailureTask task | .retryTask task => task.policiesFit
  | .catchFailureWithPolicyTask policyResult task =>
      task.policiesFit
        && (!task.rawResultType.isVoid || policyResult.isVoid || policyResult == .stepResult)

/-- Adapters that fit change a raw result only from `void` to `step_result`, or to
another `void`. -/
theorem rawResultType_cases : ∀ {task : Task}, task.policiesFit →
    task.rawResultType = task.bound.rawResultType
      ∨ task.bound.rawResultType.isVoid
        ∧ (task.rawResultType.isVoid ∨ task.rawResultType = .stepResult)
  | .base _, _ => .inl rfl
  | .retryTask task, h => @rawResultType_cases task h
  | .catchFailureTask task, h => by
      have ih := @rawResultType_cases task h
      rw [rawResultType, bound]
      split
      · next hvoid =>
          have hbound : task.bound.rawResultType.isVoid :=
            ih.elim (fun hsame => hsame ▸ hvoid) fun h => h.1
          exact .inr ⟨hbound, .inr rfl⟩
      · exact ih
  | .catchFailureWithPolicyTask policyResult task, h => by
      rw [policiesFit, Bool.and_eq_true] at h
      have ih := @rawResultType_cases task h.1
      rw [rawResultType, bound]
      split
      · next hvoid =>
          have hbound : task.bound.rawResultType.isVoid :=
            ih.elim (fun hsame => hsame ▸ hvoid) fun h => h.1
          exact .inr ⟨hbound, by simpa [hvoid] using h.2⟩
      · exact ih

/-- A policy that does not fit turns a `void` into something else. -/
theorem rawResultType_of_unfit : ∀ {task : Task}, task.policiesFit = false →
    task.bound.rawResultType.isVoid ∧ task.rawResultType.isVoid = false
      ∧ task.rawResultType ≠ .stepResult
  | .retryTask task, h => @rawResultType_of_unfit task h
  | .catchFailureTask task, h => by
      obtain ⟨hbound, hvoid, hstep⟩ := @rawResultType_of_unfit task h
      rw [rawResultType, hvoid]
      exact ⟨hbound, hvoid, hstep⟩
  | .catchFailureWithPolicyTask policyResult task, h => by
      rw [rawResultType]
      cases hfit : task.policiesFit with
      | false =>
          -- a policy further inside does not fit, and this one is not asked
          obtain ⟨hbound, hvoid, hstep⟩ := rawResultType_of_unfit hfit
          rw [hvoid]
          exact ⟨hbound, hvoid, hstep⟩
      | true =>
          rw [policiesFit, hfit, Bool.true_and] at h
          simp only [Bool.or_eq_false_iff, Bool.not_eq_false', beq_eq_false_iff_ne] at h
          obtain ⟨⟨hvoid, hresult⟩, hstep⟩ := h
          rw [if_pos hvoid]
          have hbound : task.bound.rawResultType.isVoid :=
            (rawResultType_cases hfit).elim (fun hsame => hsame ▸ hvoid) fun h => h.1
          exact ⟨hbound, hresult, hstep⟩

theorem rawResultType_wellFormed {task : Task} (hfit : task.policiesFit)
    (h : task.bound.rawResultType.wellFormed) : task.rawResultType.wellFormed := by
  rcases rawResultType_cases hfit with hsame | ⟨-, hvoid | hstep⟩
  · rw [hsame]
    exact h
  · exact CppType.isVoid_wellFormed hvoid
  · rw [hstep]
    rfl

/-- What is caught around a task that returns nothing. -/
theorem caught_of_void {task : Task} (hvoid : task.rawResultType.isVoid)
    (h : task.rawKind = task.rawResultType.rawKind
      ∨ task.rawResultType.isVoid ∧ task.rawKind = .step) : task.rawKind.caught = .step := by
  rcases h with hkind | ⟨-, hkind⟩
  · rw [hkind, CppType.isVoid_rawKind hvoid]
    rfl
  · rw [hkind]
    rfl

/-- What is caught around a task that returns something. -/
theorem caught_of_not_void {task : Task} (href : task.rawResultType.isReference = false)
    (hvoid : task.rawResultType.isVoid = false)
    (h : task.rawKind = task.rawResultType.rawKind
      ∨ task.rawResultType.isVoid ∧ task.rawKind = .step) :
    task.rawKind.caught = task.rawResultType.rawKind := by
  rcases h with hkind | ⟨habsurd, -⟩
  · rw [hkind, RawKind.caught_eq (CppType.rawKind_ne_void href hvoid)]
  · exact absurd (hvoid.symm.trans habsurd) Bool.false_ne_true

/-- Policies that fit make results of the kind of the type the plan records; one
that returns `void` would have to make a `step_result`. -/
theorem rawKind_cases : ∀ {task : Task}, task.policiesFit → task.rawResultType.isReference = false →
    task.rawKind = task.rawResultType.rawKind ∨ task.rawResultType.isVoid ∧ task.rawKind = .step
  | .base _, _, _ => .inl rfl
  | .retryTask task, hfit, href => @rawKind_cases task hfit href
  | .catchFailureTask task, hfit, href => by
      have ih := @rawKind_cases task hfit
      rw [rawKind]
      rw [rawResultType] at href ⊢
      cases hvoid : task.rawResultType.isVoid with
      | true =>
          rw [caught_of_void hvoid (ih (CppType.isReference_of_void hvoid))]
          exact .inl rfl
      | false =>
          simp only [hvoid, Bool.false_eq_true, if_false] at href ⊢
          exact .inl (caught_of_not_void href hvoid (ih href))
  | .catchFailureWithPolicyTask policyResult task, hfit, href => by
      rw [policiesFit, Bool.and_eq_true] at hfit
      have ih := @rawKind_cases task hfit.1
      rw [rawKind]
      rw [rawResultType] at href ⊢
      cases hvoid : task.rawResultType.isVoid with
      | true =>
          have hresult : policyResult.isVoid ∨ policyResult = .stepResult := by
            simpa [hvoid] using hfit.2
          rw [caught_of_void hvoid (ih (CppType.isReference_of_void hvoid)), if_pos rfl]
          rcases hresult with hresult | rfl
          · exact .inr ⟨hresult, rfl⟩
          · exact .inl rfl
      | false =>
          simp only [hvoid, Bool.false_eq_true, if_false] at href ⊢
          exact .inl (caught_of_not_void href hvoid (ih href))

/-! ## §2. The classifications. -/

/-- What the classifications of a task have to agree on. -/
structure Consistent (task : Task) : Prop where
  void : task.outputType.isVoid ↔ task.outputStorageMode = .none
  owned : task.outputStorageMode = .owned ↔
    task.slotLogicalPolicy = .maybePayload ∨ task.slotLogicalPolicy = .mustPayload
  forwarded : task.outputStorageMode = .forwardedPrev ↔ task.usesForwardPrevOutputProtocol
  forwardedSlot : task.outputStorageMode = .forwardedPrev →
    task.slotLogicalPolicy = .none ∧ task.outputType.isVoid = false
  /-- Adapters change none of them. -/
  adapters : task.outputType = (Task.base task.bound).outputType
    ∧ task.outputStorageMode = (Task.base task.bound).outputStorageMode
    ∧ task.slotLogicalPolicy = (Task.base task.bound).slotLogicalPolicy
  /-- Owned payloads are written through a sink or stored by the executor. -/
  stored : task.outputStorageMode = .owned ↔ task.usesDirectOutputProtocol ∨ task.rawKind.stores
  must : task.slotLogicalPolicy = .mustPayload ↔
    task.usesDirectOutputProtocol = false ∧ task.rawKind = .value

/-- A declared output is an object. -/
theorem declaredOutput_not_void {task : Task} (haccepted : task.bound.accepted) {T : CppType}
    (h : task.declaredOutput = some T) : T.isVoid = false := by
  have hinvalid : ¬ (T.isReference || T.isVoid) = true := by
    unfold declaredOutput at h
    cases hbound : task.bound with
    | boundTask f specs | boundMemberTask f receiver specs =>
        rw [hbound] at h
        cases h
    | boundOutputTask T' f specs | boundMemberOutputTask T' f receiver specs =>
        rw [hbound] at h haccepted
        obtain rfl := Option.some.inj h
        intro hT
        simp [BaseTask.accepted, validateBindInto, validateBindIntoMember, hT] at haccepted
    | boundForwardPrevTask T' f specs | boundMemberForwardPrevTask T' f receiver specs =>
        rw [hbound] at h haccepted
        obtain rfl := Option.some.inj h
        intro hT
        simp [BaseTask.accepted, validateBindForwardPrev, validateBindForwardPrevMember, hT]
          at haccepted
  simp only [Bool.or_eq_true, not_or, Bool.not_eq_true] at hinvalid
  exact hinvalid.2

/-- A task that declares an output has one of the two protocols. -/
theorem direct_iff_of_declared {task : Task} {T : CppType} (h : task.declaredOutput = some T) :
    task.usesDirectOutputProtocol ↔ task.usesForwardPrevOutputProtocol = false := by
  unfold declaredOutput at h
  unfold usesDirectOutputProtocol usesForwardPrevOutputProtocol outputProtocol
  cases hbound : task.bound <;> simp_all [BaseTask.declaredOutput, BaseTask.outputProtocol]

/-- Where an output is declared nothing is `void`, and any policy fits. -/
theorem policiesFit_of_declared {task : Task} {T : CppType} (h : task.declaredOutput = some T) :
    task.policiesFit := by
  by_contra hunfit
  rw [Bool.not_eq_true] at hunfit
  exact (rawResultType_of_unfit hunfit).2.2 (rawResultType_of_declared h)

/-- Where an output is declared the classifications agree. -/
theorem consistent_of_declared {task : Task} (haccepted : task.bound.accepted) {T : CppType}
    (h : task.declaredOutput = some T) : task.Consistent := by
  have hvoid := declaredOutput_not_void haccepted h
  have hraw := rawResultType_of_declared h
  have hkind : task.rawKind = .step := by
    rcases rawKind_cases (policiesFit_of_declared h) (by rw [hraw]; rfl) with hkind | ⟨hvoid, -⟩
    · rw [hkind, hraw]
      rfl
    · rw [hraw] at hvoid
      cases hvoid
  have hbase : (Task.base task.bound).declaredOutput = some T := h
  have hdirect := direct_iff_of_declared h
  have hforward : (Task.base task.bound).usesForwardPrevOutputProtocol
      = task.usesForwardPrevOutputProtocol := rfl
  cases hf : task.usesForwardPrevOutputProtocol with
  | true =>
      have hdirect' : task.usesDirectOutputProtocol = false := by
        cases hd : task.usesDirectOutputProtocol with
        | false => rfl
        | true => exact absurd (hf.symm.trans (hdirect.mp hd)) (by decide)
      constructor <;>
        simp [outputType, outputStorageMode, slotLogicalPolicy, h, hbase, hvoid, hforward, hf,
          hdirect', hkind, RawKind.stores]
  | false =>
      have hdirect' := hdirect.mpr hf
      constructor <;>
        simp [outputType, outputStorageMode, slotLogicalPolicy, h, hbase, hvoid, hforward, hf,
          hdirect', hkind]

/-- What a plan reads off a raw result type that is not a reference, where it is
not a cv-qualified `step_result`. -/
theorem raw_shapes {raw : CppType} (hformed : raw.wellFormed) (href : raw.isReference = false)
    (hcv : raw.removeCv = .stepResult → raw = .stepResult) :
    (raw.isVoid ∧ raw.rawKind = .void ∧ taskOutputType raw = .void)
      ∨ (raw = .stepResult ∧ raw.rawKind = .step ∧ taskOutputType raw = .void)
      ∨ ((raw.isVoid = false ∧ raw ≠ .stepResult) ∧ (taskOutputType raw).isVoid = false
        ∧ (raw.isTaskResult ∧ raw.rawKind = .taskResult
          ∨ raw.isTaskResult = false ∧ raw.rawKind = .value)) := by
  have hremove := CppType.removeCvref_eq href
  unfold CppType.isVoid CppType.rawKind CppType.isTaskResult taskOutputType
  rw [hremove]
  cases hshape : raw.removeCv with
  | void => exact .inl ⟨rfl, rfl, rfl⟩
  | stepResult => exact .inr (.inl ⟨hcv hshape, rfl, rfl⟩)
  | taskResult T =>
      have hne : raw ≠ .stepResult := by
        rintro rfl
        cases hshape
      exact .inr (.inr ⟨⟨rfl, hne⟩, CppType.payload_not_void hformed hshape, .inl ⟨rfl, rfl⟩⟩)
  | cv q t => exact absurd hshape (CppType.removeCv_ne_cv raw q t)
  | object _ | directOut _ | referenceWrapper _ | lvalueRef _ | rvalueRef _ =>
      have hne : raw ≠ .stepResult := by
        rintro rfl
        cases hshape
      exact .inr (.inr ⟨⟨rfl, hne⟩, rfl, .inr ⟨rfl, rfl⟩⟩)

/-- What a plan and the executor read off a task without a declared output. -/
theorem undeclared_cases {task : Task} (hfit : task.policiesFit)
    (hformed : task.rawResultType.wellFormed) (href : task.rawResultType.isReference = false)
    (h : task.declaredOutput = none)
    (hcv : task.rawResultType.removeCv = .stepResult → task.rawResultType = .stepResult) :
    (task.outputType.isVoid ∧ task.outputStorageMode = .none ∧ task.slotLogicalPolicy = .none
        ∧ (task.rawKind = .void ∨ task.rawKind = .step))
      ∨ (task.outputType.isVoid = false ∧ task.outputStorageMode = .owned
        ∧ (task.slotLogicalPolicy = .maybePayload ∧ task.rawKind = .taskResult
          ∨ task.slotLogicalPolicy = .mustPayload ∧ task.rawKind = .value)) := by
  unfold outputType outputStorageMode slotLogicalPolicy
  rw [h]
  have hkinds := rawKind_cases hfit href
  rcases raw_shapes hformed href hcv with ⟨hvoid, hkind, htype⟩ | ⟨hstep, hkind, htype⟩ |
    ⟨⟨hvoid, hne⟩, htype, ⟨hresult, hkind⟩ | ⟨hresult, hkind⟩⟩
  · rw [hkind] at hkinds
    exact .inl ⟨by rw [htype]; rfl, by simp [hvoid], by simp [hvoid], hkinds.imp_right And.right⟩
  · rw [hkind] at hkinds
    exact .inl ⟨by rw [htype]; rfl, by simp [hstep], by simp [hstep],
      .inr (hkinds.elim id And.right)⟩
  · rw [hkind, hvoid] at hkinds
    exact .inr ⟨htype, by simp [hvoid, hne], .inl ⟨by simp [hvoid, hne, hresult],
      hkinds.resolve_right (by simp)⟩⟩
  · rw [hkind, hvoid] at hkinds
    exact .inr ⟨htype, by simp [hvoid, hne], .inr ⟨by simp [hvoid, hne, hresult],
      hkinds.resolve_right (by simp)⟩⟩

/-- Adapters that fit do not change what a plan reads off a task. -/
theorem adapters_keep {task : Task} (hfit : task.policiesFit) :
    task.outputType = (Task.base task.bound).outputType
      ∧ task.outputStorageMode = (Task.base task.bound).outputStorageMode
      ∧ task.slotLogicalPolicy = (Task.base task.bound).slotLogicalPolicy := by
  have hbase : (Task.base task.bound).declaredOutput = task.declaredOutput := rfl
  have hforward : (Task.base task.bound).usesForwardPrevOutputProtocol
      = task.usesForwardPrevOutputProtocol := rfl
  have hbound : (Task.base task.bound).rawResultType = task.bound.rawResultType := rfl
  unfold outputType outputStorageMode slotLogicalPolicy
  rw [hbase, hforward, hbound]
  rcases rawResultType_cases hfit with hsame | ⟨hvoid, hraw⟩
  · rw [hsame]
    exact ⟨rfl, rfl, rfl⟩
  · have htype : ∀ {raw : CppType}, raw.isVoid → taskOutputType raw = .void := by
      intro raw hvoid
      rw [taskOutputType, beq_iff_eq.mp hvoid]
    rcases hraw with hraw | hstep
    · rw [hraw, hvoid, htype hraw, htype hvoid]
      exact ⟨rfl, rfl, rfl⟩
    · rw [hstep, hvoid, htype hvoid]
      exact ⟨rfl, rfl, rfl⟩

/-- Consistent classifications leave no cv-qualified `step_result`. -/
theorem Consistent.returnsCvStepResult {task : Task} (h : task.Consistent)
    (hfit : task.policiesFit) : task.bound.returnsCvStepResult = false := by
  by_contra hcv
  rw [Bool.not_eq_false, BaseTask.returnsCvStepResult, Bool.and_eq_true, beq_iff_eq,
    bne_iff_ne] at hcv
  obtain ⟨hremove, hne⟩ := hcv
  -- the adapters keep the type, and no output is declared
  have hraw : task.rawResultType = task.bound.rawResultType := by
    rcases rawResultType_cases hfit with hsame | ⟨hvoid, -⟩
    · exact hsame
    · rw [CppType.isVoid, hremove] at hvoid
      cases hvoid
  have hdeclared : task.declaredOutput = none := by
    cases hdeclared : task.declaredOutput with
    | none => rfl
    | some T => exact absurd (hraw ▸ rawResultType_of_declared hdeclared) hne
  have hvoid : task.outputType.isVoid := by
    unfold outputType taskOutputType
    rw [hdeclared, hraw, hremove]
    rfl
  have hmode := h.void.mp hvoid
  unfold outputStorageMode at hmode
  rw [hdeclared, hraw, CppType.isVoid, hremove] at hmode
  simp [hne] at hmode

/-- Nor a policy that makes something out of `void`. -/
theorem Consistent.policiesFit {task : Task} (h : task.Consistent) : task.policiesFit := by
  by_contra hunfit
  rw [Bool.not_eq_true] at hunfit
  obtain ⟨hbound, hvoid, hstep⟩ := rawResultType_of_unfit hunfit
  have hdeclared : task.declaredOutput = none := by
    cases hdeclared : task.declaredOutput with
    | none => rfl
    | some T => exact absurd (rawResultType_of_declared hdeclared) hstep
  have hbase : (Task.base task.bound).declaredOutput = none := hdeclared
  have hraw : (Task.base task.bound).rawResultType.isVoid := hbound
  -- the node owns a payload, and did not before
  have hmode := h.adapters.2.1
  unfold outputStorageMode at hmode
  rw [hdeclared, hbase] at hmode
  simp [hvoid, hstep, hraw] at hmode

/-- **The classifications agree exactly where no cv-qualified `step_result` is
returned and the catch policies fit.** -/
theorem consistent_iff {task : Task} (haccepted : task.bound.accepted)
    (hformed : task.bound.rawResultType.wellFormed)
    (href : task.rawResultType.isReference = false) :
    task.Consistent ↔ task.bound.returnsCvStepResult = false ∧ task.policiesFit := by
  constructor
  · exact fun h => ⟨h.returnsCvStepResult h.policiesFit, h.policiesFit⟩
  · rintro ⟨hcv, hfit⟩
    cases hdeclared : task.declaredOutput with
    | some T => exact consistent_of_declared haccepted hdeclared
    | none =>
        have hcv' : task.rawResultType.removeCv = .stepResult →
            task.rawResultType = .stepResult := by
          rcases rawResultType_cases hfit with hsame | ⟨-, hvoid | hstep⟩
          · rw [hsame]
            simpa [BaseTask.returnsCvStepResult] using hcv
          · rw [beq_iff_eq.mp hvoid]
            nofun
          · exact fun _ => hstep
        obtain ⟨hdirect, hforward⟩ := declared_iff.mp hdeclared
        have hadapters := adapters_keep hfit
        have hraw := rawResultType_wellFormed hfit hformed
        rcases undeclared_cases hfit hraw href hdeclared hcv' with
          ⟨hvoid, hmode, hpolicy, hkind | hkind⟩
          | ⟨hvoid, hmode, ⟨hpolicy, hkind⟩ | ⟨hpolicy, hkind⟩⟩ <;>
          exact {
            void := by simp [hvoid, hmode]
            owned := by simp [hmode, hpolicy]
            forwarded := by simp [hmode, hforward]
            forwardedSlot := by simp [hmode]
            adapters := hadapters
            stored := by simp [hmode, hdirect, hkind, RawKind.stores]
            must := by simp [hpolicy, hdirect, hkind] }

end Task

/-! ## §3. What a run constructs. -/

/-- How often a payload of node `i` was constructed. -/
def constructed (i : Nat) (events : List (Event V)) : Nat :=
  Lifetime.constructions (.payload i) (memoryLog events)

theorem constructed_quiet {event : Event V} (h : ∀ e, event ≠ .memory e) (i : Nat)
    (events : List (Event V)) : constructed i (event :: events) = constructed i events := by
  unfold constructed
  rw [memoryLog_quiet h]

/-- Events that construct no payload. -/
theorem constructed_append {log : List MemoryEvent} {i : Nat}
    (h : Lifetime.constructions (.payload i) log = 0) (events : List (Event V)) :
    constructed i (log.map .memory ++ events) = constructed i events := by
  unfold constructed
  rw [memoryLog_append, Lifetime.constructions_append, h, Nat.zero_add]

theorem constructed_emplace (i j : Nat) (v : V) (m : Machine (Nat → Option V) V) :
    constructed j (m.onSlots (idealEmplace i v)).events
      = constructed j m.events + if i = j then 1 else 0 := by
  unfold constructed
  rw [Machine.onSlots_events, memoryLog_append, Lifetime.constructions_append, Nat.add_comm]
  congr 1
  unfold Lifetime.constructions idealEmplace
  rw [List.reverse_singleton, List.countP_singleton]
  by_cases hij : i = j
  · simp [hij]
  · simp [hij]

/-- What the nodes that have succeeded had constructed in their slots: a node
whose raw result is stored constructs one payload if it owns one, and a
direct-output task at least one, as long as none has succeeded without. -/
structure StoreLog (plan : ValidPlan) (events : List (Event V)) : Prop where
  raw : ∀ i payload before, .finished i payload :: before <:+ events →
    (plan.task i).usesDirectOutputProtocol = false →
      constructed i before = if plan.payloadNode i then 1 else 0
  direct : ∀ i payload before, .finished i payload :: before <:+ events →
    (plan.task i).usesDirectOutputProtocol → NoEmptySuccess before → 0 < constructed i before

namespace StoreLog

variable {plan : ValidPlan} {events : List (Event V)}

theorem nil (plan : ValidPlan) : StoreLog plan ([] : List (Event V)) where
  raw _ _ _ h := by simp at h
  direct _ _ _ h := by simp at h

/-- An event that finishes no node. -/
theorem cons (h : StoreLog plan events) {event : Event V}
    (hevent : ∀ i payload, event ≠ .finished i payload) : StoreLog plan (event :: events) where
  raw i payload before hsuffix := by
    rcases List.suffix_cons_iff.mp hsuffix with heq | hsuffix
    · exact absurd (List.cons.inj heq).1.symm (hevent i payload)
    · exact h.raw i payload before hsuffix
  direct i payload before hsuffix := by
    rcases List.suffix_cons_iff.mp hsuffix with heq | hsuffix
    · exact absurd (List.cons.inj heq).1.symm (hevent i payload)
    · exact h.direct i payload before hsuffix

theorem finish (h : StoreLog plan events) {i : Nat} (payload : Option V)
    (hraw : (plan.task i).usesDirectOutputProtocol = false →
      constructed i events = if plan.payloadNode i then 1 else 0)
    (hdirect : (plan.task i).usesDirectOutputProtocol → NoEmptySuccess events →
      0 < constructed i events) : StoreLog plan (.finished i payload :: events) where
  raw j payload' before hsuffix := by
    rcases List.suffix_cons_iff.mp hsuffix with heq | hsuffix
    · obtain ⟨hevent, rfl⟩ := List.cons.inj heq
      obtain ⟨rfl, -⟩ := Event.finished.inj hevent
      exact hraw
    · exact h.raw j payload' before hsuffix
  direct j payload' before hsuffix := by
    rcases List.suffix_cons_iff.mp hsuffix with heq | hsuffix
    · obtain ⟨hevent, rfl⟩ := List.cons.inj heq
      obtain ⟨rfl, -⟩ := Event.finished.inj hevent
      exact hdirect
    · exact h.direct j payload' before hsuffix

theorem memory (h : StoreLog plan events) : ∀ log : List MemoryEvent,
    StoreLog plan (log.map .memory ++ events)
  | [] => h
  | _ :: log => (h.memory log).cons (by nofun)

end StoreLog

/-- Live payloads were constructed, and those of the nodes from `n` on were
not. -/
structure Storing (plan : ValidPlan) (n : Nat) (m : Machine (Nat → Option V) V) : Prop where
  log : StoreLog plan m.events
  live : ∀ j, m.slots j ≠ none → 0 < constructed j m.events
  fresh : ∀ j, n ≤ j → constructed j m.events = 0

namespace Storing

variable {plan : ValidPlan} {n i : Nat} {m m' : Machine (Nat → Option V) V}

/-- Nothing is constructed in a slot, and no slot is filled. -/
theorem congr (h : Storing plan n m) {log : List MemoryEvent}
    (hevents : m'.events = log.map .memory ++ m.events)
    (hlog : ∀ j, Lifetime.constructions (.payload j) log = 0)
    (hslots : ∀ j, m'.slots j ≠ none → m.slots j ≠ none) : Storing plan n m' where
  log := hevents ▸ h.log.memory log
  live j hj := by
    rw [hevents, constructed_append (hlog j)]
    exact h.live j (hslots j hj)
  fresh j hj := by
    rw [hevents, constructed_append (hlog j)]
    exact h.fresh j hj

theorem record (h : Storing plan n m) {event : Event V} (hquiet : ∀ e, event ≠ .memory e)
    (hevent : ∀ i payload, event ≠ .finished i payload) : Storing plan n (m.record event) where
  log := h.log.cons hevent
  live j hj := by
    rw [Machine.record_events, constructed_quiet hquiet]
    exact h.live j hj
  fresh j hj := by
    rw [Machine.record_events, constructed_quiet hquiet]
    exact h.fresh j hj

theorem emplace (h : Storing plan n m) (hi : i < n) (v : V) :
    Storing plan n (m.onSlots (idealEmplace i v)) where
  log := h.log.memory _
  live j hj := by
    rw [constructed_emplace]
    by_cases hij : i = j
    · rw [if_pos hij]
      omega
    · rw [if_neg hij]
      apply h.live j
      intro hnone
      apply hj
      show Function.update m.slots i (some v) j = none
      rw [Function.update_of_ne (Ne.symm hij)]
      exact hnone
  fresh j hj := by
    rw [constructed_emplace, h.fresh j hj, if_neg (by omega)]

theorem destroy (h : Storing plan n m) (i : Nat) : Storing plan n (m.onSlots (idealDestroy i)) := by
  apply h.congr (Machine.onSlots_events m (idealDestroy i))
  · intro j
    have hcount := constructions_destroy (i := i) (m := m) (.payload j)
    rw [Machine.onSlots_events, memoryLog_append, Lifetime.constructions_append] at hcount
    omega
  · intro j hj hnone
    apply hj
    show (idealDestroy i m.slots).2 j = none
    rw [idealDestroy_slots]
    by_cases hji : j = i
    · rw [hji, Function.update_self]
    · rw [Function.update_of_ne hji]
      exact hnone

theorem later {n' : Nat} (h : Storing plan n m) (hn : n ≤ n') : Storing plan n' m where
  log := h.log
  live := h.live
  fresh j hj := h.fresh j (Nat.le_trans hn hj)

/-- Node `i`'s task has succeeded. -/
theorem finish {p : Program V W} (h : Storing p.plan n m)
    (hraw : (p.plan.task i).usesDirectOutputProtocol = false →
      constructed i m.events = if p.plan.payloadNode i then 1 else 0)
    (hdirect : (p.plan.task i).usesDirectOutputProtocol → NoEmptySuccess m.events →
      0 < constructed i m.events) :
    Storing p.plan n (finishNode (idealSlots p.plan.toCompiledPlan V) p i m) where
  log := h.log.finish _ hraw hdirect
  live j hj := by
    show 0 < constructed j (.finished i _ :: m.events)
    rw [constructed_quiet (by nofun)]
    exact h.live j hj
  fresh j hj := by
    show constructed j (.finished i _ :: m.events) = 0
    rw [constructed_quiet (by nofun)]
    exact h.fresh j hj

end Storing

section Node

variable {p : Program V W} {n i : Nat} {m : Machine (Nat → Option V) V}

theorem Storing.resolveStep (h : Storing p.plan n m) (binding : Spec × CppType)
    (source : PrevSource) (arg : Option V) (left : V) :
    Storing p.plan n
        (resolveStep (idealSlots p.plan.toCompiledPlan V) p i binding source arg left m)
      ∧ ∀ j,
          constructed j
            (YOrch.resolveStep (idealSlots p.plan.toCompiledPlan V) p i binding source arg left
              m).events
          = constructed j m.events := by
  have hrecord : Storing p.plan n (m.record (.resolved i binding.1.kind source arg)) :=
    h.record (by nofun) (by nofun)
  have hevents : (YOrch.resolveStep (idealSlots p.plan.toCompiledPlan V) p i binding source arg left
      m).events = ([] : List MemoryEvent).map .memory ++ (m.record _).events :=
    resolveStep_events ..
  constructor
  · exact hrecord.congr hevents (fun _ => rfl)
      fun j => (resolveStep_live p i binding source arg left m j).mp
  · intro j
    rw [resolveStep_events]
    exact constructed_quiet (by nofun) j _

theorem Storing.writeBack (h : Storing p.plan n m) (written : Option V) :
    Storing p.plan n (writeBack (idealSlots p.plan.toCompiledPlan V) p i written m) := by
  have hevents : (YOrch.writeBack (idealSlots p.plan.toCompiledPlan V) p i written m).events
      = ([] : List MemoryEvent).map .memory ++ m.events :=
    writeBack_events ..
  exact h.congr hevents (fun _ => rfl) fun j => (writeBack_live p i written m j).mp

/-- What is known while node `i`'s task is tried. -/
structure Attempting (p : Program V W) (i : Nat) (phase : Phase V W)
    (m : Machine (Nat → Option V) V) : Prop extends Storing p.plan (i + 1) m where
  sinking : ∀ body, phase = .sinking body → (p.plan.task i).usesDirectOutputProtocol
  unmade : (p.plan.task i).usesDirectOutputProtocol = false → constructed i m.events = 0

/-- **What is constructed while node `i` is entered.** -/
theorem storing_triple (hi : i < p.plan.nodeCount) :
    EnterTriple (idealSlots p.plan.toCompiledPlan V) p i
      (fun s => Storing p.plan i s.1) (fun s => Storing p.plan (i + 1) s.1)
      (fun s => Storing p.plan (i + 1) s.1) (fun phase s => Attempting p i phase s.1)
      (fun s => StoreLog p.plan s.1.events) where
  world _ _ _ hs := hs
  halts _ _ hs := hs.log
  violate _ _ _ _ hs := hs.log.cons (by nofun)
  attempt s hs := {
    toStoring := hs.toStoring.record (by nofun) (by nofun)
    sinking := by nofun
    unmade := fun hraw => (constructed_quiet (by nofun) i _).trans (hs.unmade hraw) }
  abandon _ _ hs := { hs with sinking := by nofun }
  skip _ _ _ _ hs := { hs with sinking := by nofun }
  resolve binding rest s source v arg left w _ hs _ _ _ := by
    obtain ⟨hstoring, hsame⟩ := hs.toStoring.resolveStep (i := i) binding source arg left
    exact {
      toStoring := hstoring
      sinking := by nofun
      unmade := fun hraw => (hsame i).trans (hs.unmade hraw) }
  write written s _ hs := {
    toStoring := hs.toStoring.writeBack written
    sinking := by nofun
    unmade := fun hraw => by
      rw [writeBack_events]
      exact hs.unmade hraw }
  sink _ _ _ hinto hs := { hs with sinking := fun _ _ => hinto }
  sinkHasValue _ _ hs := { hs with sinking := fun _ _ => hs.sinking _ rfl }
  -- a callable may emplace again over a live payload: `unmade` is about raw
  -- tasks only, and a sink task is counted from below
  sinkEmplace payload next s hs := by
    have hinto := hs.sinking _ rfl
    have hemplace : ∀ m : Machine (Nat → Option V) V, Storing p.plan (i + 1) m →
        Attempting p i (.sinking next)
          (YOrch.emplaceSink (idealSlots p.plan.toCompiledPlan V) i payload m) := by
      intro m hm
      refine ⟨?_, fun _ _ => hinto, fun hraw => absurd (hinto.symm.trans hraw) (by decide)⟩
      cases payload with
      | none => exact hm
      | some v => exact hm.emplace (Nat.lt_succ_self i) v
    have hviolate : Storing p.plan (i + 1) (s.1.violate (.emplaceOverLive i)) :=
      hs.toStoring.record (by nofun) (by nofun)
    exact ⟨fun _ => hemplace s.1 hs.toStoring, fun _ => ⟨hemplace _ hviolate, hviolate.log⟩⟩
  sinkDestroy next s hs := {
    toStoring := hs.toStoring.destroy i
    sinking := fun _ _ => hs.sinking _ rfl
    unmade := fun hraw => (constructions_destroy _).trans (hs.unmade hraw) }
  sinkFinish exit written world s hs := {
    toStoring := hs.toStoring.writeBack written
    sinking := by nofun
    unmade := fun hraw => by
      rw [writeBack_events]
      exact hs.unmade hraw }
  again s _ _ hs := { hs with sinking := by nofun }
  cleanUp s _ _ hs := by
    refine ⟨?_, by nofun, fun hraw => ?_⟩
    · unfold cleanUpSink
      split
      · exact hs.toStoring.destroy i
      · exact hs.toStoring
    · unfold cleanUpSink
      split
      · exact (constructions_destroy _).trans (hs.unmade hraw)
      · exact hs.unmade hraw
  enter s hs := {
    toStoring := (hs.record (by nofun) (by nofun)).later (Nat.le_succ i)
    sinking := by nofun
    unmade := fun _ => (constructed_quiet (by nofun) i _).trans (hs.fresh i (Nat.le_refl i)) }
  finish s hinto hs hlive := by
    rw [idealSlots_hasValue hi (ValidPlan.payloadNode_of_direct hinto)] at hlive
    exact hs.toStoring.finish (fun hraw => absurd (hinto.symm.trans hraw) (by decide))
      fun _ _ => hs.live i (Option.isSome_iff_ne_none.mp hlive)
  -- the run is no longer one without an empty success
  finishMissing s hinto hs _ := by
    have hviolate : Storing p.plan (i + 1) (s.1.violate (.missingOutput i)) :=
      hs.toStoring.record (by nofun) (by nofun)
    exact hviolate.finish (fun hraw => absurd (hinto.symm.trans hraw) (by decide))
      fun _ hfull => absurd List.mem_cons_self (hfull i)
  failInto s hinto hs := by
    show Storing p.plan _ (s.1.onSlots ((idealSlots p.plan.toCompiledPlan V).destroy i))
    rw [idealSlots_onDestroy hi (ValidPlan.payloadNode_of_direct hinto)]
    exact hs.toStoring.destroy i
  -- the one construction of a raw task's payload
  store v s hraw hpayload hs := by
    apply (hs.toStoring.emplace (Nat.lt_succ_self i) v).finish
    · intro _
      rw [constructed_emplace, hs.unmade hraw, if_pos rfl, if_pos hpayload]
    · exact fun hinto => absurd (hinto.symm.trans hraw) (by decide)
  pass s hraw hpayload hs := by
    apply hs.toStoring.finish
    · intro _
      rw [hs.unmade hraw, hpayload]
      rfl
    · exact fun hinto => absurd (hinto.symm.trans hraw) (by decide)
  fail _ _ hs := hs.toStoring

/-- **What is constructed during a traversal.** -/
theorem storing_run (p : Program V W) (fuel : Nat) :
    RunTriple p.plan.toPlanShape p.plan.payloadNode
      (nodeOps (idealSlots p.plan.toCompiledPlan V) p fuel)
      (fun _ n s => Storing p.plan n s.1) (fun _ n s => Storing p.plan n s.1)
      (fun s => StoreLog p.plan s.1.events) (fun s => StoreLog p.plan s.1.events) where
  enter i hi := (storing_triple hi).enterNode hi fuel
  stage i hi _ := stageFanout_triple (fun _ _ hs => hs)
    (fun _ hs => hs.log.cons (by nofun)) (by
    intro s v w v' hs _ _
    have hevents : (s.1.emplaceStage i v').events
        = ([.constructed (.stage i) ((s.1.stage i).map fun _ => .stage i)] : List MemoryEvent).map
          .memory ++ s.1.events := rfl
    exact hs.congr hevents (fun _ => rfl) fun _ => id)
  unstaged _ _ _ _ _ := Iff.rfl
  unstage i _ _ n s hs := by
    show Storing p.plan n (s.1.destroyStage i)
    obtain ⟨log, hevents, hlog⟩ := s.1.destroyStage_memory i
    apply hs.congr hevents fun j => Lifetime.constructions_of_destructions hlog _
    intro j hj
    rwa [Machine.destroyStage_slots] at hj
  destroy i hi hpayload n s hs := by
    show Storing p.plan n (s.1.onSlots ((idealSlots p.plan.toCompiledPlan V).destroy i))
    rw [idealSlots_onDestroy hi hpayload]
    exact hs.destroy i
  leave _ _ _ _ _ hs := hs
  later _ _ _ _ hnm hs := hs.later hnm
  laterEntered _ _ _ _ hnm hs := hs.later hnm
  abandon _ _ _ hs := hs.log
  abandonEntered _ _ _ hs := hs.log

/-- What the log of every run says, for every layout and either executor. -/
theorem run_storeLog (p : Program V W) (layout : SlotLayoutPolicy) (exec : ExecPolicy)
    (fuel : Nat) (w : W) :
    StoreLog p.plan (runFrom (layout.slots p.plan.toCompiledPlan) p exec fuel w).2.1.events := by
  obtain ⟨-, -, hagree, -⟩ := run_agrees (layout.refines p.plan) exec fuel w
  rw [hagree]
  have hstart : Storing p.plan 0 ({ slots := fun _ => none } : Machine (Nat → Option V) V) :=
    ⟨.nil _, fun j hj => absurd rfl hj, fun j _ => rfl⟩
  exact (storing_run p fuel).log (fun _ hs => hs.log) (fun log _ hs => hs.memory log) exec hstart

end Node

/-! ## §4. The plan's view and the executor's. -/

/-- Only a task without a declared output has a `must_payload` slot, and it owns
its payload. -/
theorem Task.must_owned {task : Task} (h : task.slotLogicalPolicy = .mustPayload) :
    task.outputStorageMode = .owned ∧ task.usesDirectOutputProtocol = false := by
  unfold slotLogicalPolicy at h
  cases hdeclared : task.declaredOutput with
  | some T =>
      rw [hdeclared] at h
      dsimp only at h
      split at h <;> cases h
  | none =>
      rw [hdeclared] at h
      dsimp only at h
      split at h
      · cases h
      · next hraw =>
        exact ⟨by simp [outputStorageMode, hdeclared, hraw], (declared_iff.mp hdeclared).1⟩

/-- **The classifications agree, and runs keep to them.**  Take a task that a
binder accepts, whose raw result type is one a program can name and no reference,
under any adapters.  Its classifications agree if and only if it does not return
a cv-qualified `step_result` and each catch policy over a `void` task returns
`void` or `step_result`.  In every run of a plan, under either layout and either
executor, when a node finishes,

  • it has constructed exactly one payload, if its slot is `must_payload`,
  • it has constructed none, if it does not own one,
  • it has constructed one, if it owns one and no direct-output task has
    succeeded with an empty slot. -/
theorem classifications_agree :
    (∀ task : Task, task.bound.accepted → task.bound.rawResultType.wellFormed →
        task.rawResultType.isReference = false →
          (task.Consistent ↔ task.bound.returnsCvStepResult = false ∧ task.policiesFit))
      ∧ ∀ (p : Program V W) (layout : SlotLayoutPolicy) (exec : ExecPolicy) (fuel : Nat) (w : W),
        let run := runFrom (layout.slots p.plan.toCompiledPlan) p exec fuel w
        ∀ i payload before, .finished i payload :: before <:+ run.2.1.events →
          (p.plan.slotLogicalPolicy i = .mustPayload → constructed i before = 1)
            ∧ (p.plan.outputStorageMode i ≠ .owned → constructed i before = 0)
            ∧ (p.plan.outputStorageMode i = .owned → NoEmptySuccess before →
              0 < constructed i before) := by
  refine ⟨fun task => Task.consistent_iff, ?_⟩
  intro p layout exec fuel w run i payload before h
  have hlog : StoreLog p.plan run.2.1.events := run_storeLog p layout exec fuel w
  have hraw := hlog.raw i payload before h
  have howned : p.plan.payloadNode i = true ↔ p.plan.outputStorageMode i = .owned := by
    show (p.plan.outputStorageMode i == .owned) = true ↔ _
    exact beq_iff_eq
  refine ⟨fun hmust => ?_, fun hmode => ?_, fun hmode hfull => ?_⟩
  · obtain ⟨hmode, hdirect⟩ := Task.must_owned hmust
    rw [hraw hdirect, if_pos (howned.mpr hmode)]
  · have hdirect : (p.plan.task i).usesDirectOutputProtocol = false := by
      cases hdirect : (p.plan.task i).usesDirectOutputProtocol with
      | false => rfl
      | true => exact absurd (howned.mp (ValidPlan.payloadNode_of_direct hdirect)) hmode
    rw [hraw hdirect, if_neg fun hpayload => hmode (howned.mp hpayload)]
  · cases hdirect : (p.plan.task i).usesDirectOutputProtocol with
    | true => exact hlog.direct i payload before h hdirect hfull
    | false =>
        rw [hraw hdirect, if_pos (howned.mpr hmode)]
        exact Nat.one_pos

/-! ## §5. A cv-qualified `step_result`. -/

/-- `bind` of a function that returns `const step_result`. -/
def constStepTask : Task := .base (.boundTask (.function [] (.cv .const .stepResult)) [])

/-- The plan gives the task a `must_payload` slot for a payload of type `void`,
which the executor does not write. -/
theorem constStepTask_inconsistent :
    constStepTask.bound.accepted ∧ constStepTask.bound.rawResultType.wellFormed
      ∧ constStepTask.rawResultType.isReference = false
      ∧ constStepTask.outputType = .void ∧ constStepTask.outputStorageMode = .owned
      ∧ constStepTask.slotLogicalPolicy = .mustPayload ∧ constStepTask.rawKind = .step
      ∧ ¬ constStepTask.Consistent := by
  refine ⟨by decide, by decide, by decide, by decide, by decide, by decide, by decide, ?_⟩
  intro h
  exact absurd (h.void.mp (by decide)) (by decide)

/-- The other exception: a policy that makes a payload for a task without one. -/
example :
    let task := Task.base (.boundTask (.function [] .void) [])
    let caught := Task.catchFailureWithPolicyTask (.taskResult (.object 0)) task
    task.outputStorageMode = .none ∧ caught.outputStorageMode = .owned := by decide

end YOrch
