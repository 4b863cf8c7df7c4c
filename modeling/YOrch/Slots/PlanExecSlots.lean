/-
  YOrch.Slots.PlanExecSlots — the two storage backends of a run.

  `plan_exec_slots` is a node-indexed interface over physical slots.  A slot is
  modelled by the object its bytes hold, if any, together with the node that
  constructed it; the engagement flag and the owner record are the code's own
  bookkeeping next to it.  Three backends share the interface:

    • `compactSlots` — erased slots shared along the compact layout,
    • `oneToOneSlots` — a typed slot per owned node, with `live_slots_` bits,
    • `idealSlots` — no storage at all: what each node's payload is.

  `SlotsRep` relates slots to the payloads they hold.  `compact_refines` and
  `oneToOne_refines` say that both storage backends answer as the ideal one and
  cause the same constructions and destructions, as long as an operation on a
  node finds no other node's payload in that node's slot.
  `canonicalOwner_denotes` says whose object `get` refers to.
-/
import YOrch.Library.Lifetimes
import YOrch.Plan.Owners
import Mathlib.Logic.Function.Basic

namespace YOrch

open Library

/-! ## §1. Objects. -/

/-- The objects a run constructs: a node's payload, or the copy of a parent's
payload staged for its copying children. -/
inductive RunObject where
  | payload (node : Nat)
  | stage (parent : Nat)
  deriving Repr, DecidableEq

/-- What happens to the memory of a run's objects. -/
abbrev MemoryEvent := Lifetime RunObject

variable {V : Type}

/-! ## §2. Physical slots. -/

/-- `erased_slot` or `typed_slot`.  `object` is what the bytes hold. -/
structure Slot (V : Type) where
  object : Option (Nat × V) := none
  engaged : Bool := false
  ownerNode : Option Nat := none

/-- `slot_view`: a node's view of a slot.  A typed slot has no owner record;
its own members do what a view without one does. -/
structure SlotView where
  node : Nat
  policy : SlotPhysicalPolicy
  tracksOwner : Bool

namespace SlotView

variable (view : SlotView)

/-- The node whose object a slot holds. -/
def held (slot : Slot V) : Option RunObject := slot.object.map fun o => .payload o.1

/-- `slot_view::emplace`, once the constructor has returned. -/
def emplace (v : V) (slot : Slot V) : List MemoryEvent × Slot V :=
  ([.constructed (.payload view.node) (held slot)],
    { object := some (view.node, v)
      engaged := if view.policy = .maybePayload then true else slot.engaged
      ownerNode := if view.tracksOwner then some view.node else slot.ownerNode })

/-- `slot_view::destroy`: a slot without a flag is destroyed unconditionally. -/
def destroy (slot : Slot V) : List MemoryEvent × Slot V :=
  if view.policy = .maybePayload && !slot.engaged then
    ([], slot)
  else
    ([.destroyed (.payload view.node) (held slot)],
      { object := none
        engaged := if view.policy = .maybePayload then false else slot.engaged
        ownerNode := if view.tracksOwner then none else slot.ownerNode })

/-- `slot_view::has_value`. -/
def hasValue (slot : Slot V) : Bool :=
  if view.policy = .maybePayload then slot.engaged else true

/-- `slot_view::get`: the object of the view's type, if the slot holds it. -/
def get (slot : Slot V) : Option V :=
  match slot.object with
  | some (node, v) => if node = view.node then some v else none
  | none => none

/-- Assign through the reference `get` returns. -/
def set (v : V) (slot : Slot V) : Slot V :=
  { slot with object := slot.object.map fun o => (o.1, v) }

/-- A slot whose flag is not cleared is destroyed. -/
theorem destroy_run {slot : Slot V}
    (h : view.policy = .maybePayload → slot.engaged = true) :
    view.destroy slot = ([.destroyed (.payload view.node) (held slot)],
      { object := none
        engaged := if view.policy = .maybePayload then false else slot.engaged
        ownerNode := if view.tracksOwner then none else slot.ownerNode }) := by
  unfold destroy
  rw [if_neg]
  intro hempty
  simp only [Bool.and_eq_true, decide_eq_true_eq, Bool.not_eq_true'] at hempty
  rw [h hempty.1] at hempty
  cases hempty.2

/-- A slot whose flag is cleared is left alone. -/
theorem destroy_skip {slot : Slot V} (hp : view.policy = .maybePayload)
    (h : slot.engaged = false) : view.destroy slot = ([], slot) := by
  unfold destroy
  rw [if_pos (by simp [hp, h])]

end SlotView

/-- How nodes map to slots, and what the slots are like. -/
structure SlotMap where
  index : Nat → Option Nat
  policy : Nat → SlotPhysicalPolicy
  tracksOwner : Bool

namespace SlotMap

variable (slots : SlotMap)

/-- Node `i`'s view of slot `k`. -/
def view (i k : Nat) : SlotView := ⟨i, slots.policy k, slots.tracksOwner⟩

def emplace (i : Nat) (v : V) (s : Nat → Slot V) : List MemoryEvent × (Nat → Slot V) :=
  match slots.index i with
  | none => ([], s)
  | some k =>
      let (events, slot) := (slots.view i k).emplace v (s k)
      (events, Function.update s k slot)

def destroy (i : Nat) (s : Nat → Slot V) : List MemoryEvent × (Nat → Slot V) :=
  match slots.index i with
  | none => ([], s)
  | some k =>
      let (events, slot) := (slots.view i k).destroy (s k)
      (events, Function.update s k slot)

def hasValue (i : Nat) (s : Nat → Slot V) : Bool :=
  match slots.index i with
  | none => false
  | some k => (slots.view i k).hasValue (s k)

def get (i : Nat) (s : Nat → Slot V) : Option V :=
  match slots.index i with
  | none => none
  | some k => (slots.view i k).get (s k)

def set (i : Nat) (v : V) (s : Nat → Slot V) : Nat → Slot V :=
  match slots.index i with
  | none => s
  | some k => Function.update s k (SlotView.set v (s k))

/-- What a slot answers depends on the flag alone, or on nothing. -/
theorem hasValue_eq {i k : Nat} (hk : slots.index i = some k) (s : Nat → Slot V) :
    slots.hasValue i s = if slots.policy k = .maybePayload then (s k).engaged else true := by
  simp only [hasValue, hk]
  rfl

end SlotMap

/-! ## §3. The node-indexed interface. -/

/-- The members of `plan_exec_slots`, with the node index first.  `out` groups
the members of the sink `out<I>()` returns; `get` is the object the reference
`get<I>()` refers to, or `none` where there is no such object. -/
structure SlotsApi (V S : Type) where
  initial : S
  hasValue : Nat → S → Bool
  emplace : Nat → V → S → List MemoryEvent × S
  destroy : Nat → S → List MemoryEvent × S
  get : Nat → S → Option V
  set : Nat → V → S → S
  outHasValue : Nat → S → Bool
  outEmplace : Nat → V → S → List MemoryEvent × S
  outDestroy : Nat → S → List MemoryEvent × S
  destroyActiveSlots : S → List MemoryEvent × S

/-- Run an operation on every node in index order and collect the events. -/
def forEachNode {S : Type} (n : Nat) (op : Nat → S → List MemoryEvent × S) (s : S) :
    List MemoryEvent × S :=
  (List.range n).foldl (fun acc i => let (events, s) := op i acc.2; (acc.1 ++ events, s)) ([], s)

section Backends

variable (plan : CompiledPlan)

/-- `plan_slot_layout<Plan, slot_layout_serial_dfs_compact_policy>`. -/
def compactMap : SlotMap where
  index := compactIndex plan.toPlanShape plan.outputStorageMode
  policy k :=
    let layout := makeSerialDfsCompactSlotLayout plan.toPlanShape plan.outputStorageMode
    (makePhysicalSlotPolicies plan.toPlanShape layout.physicalSlotIndices
      plan.slotLogicalPolicy layout.physicalSlotCount).getD k .none
  tracksOwner := true

/-- `one_to_one_physical_slot_owner_node`. -/
def oneToOnePhysicalSlotOwnerNode (k : Nat) : Option Nat :=
  (List.range plan.nodeCount).find? fun n =>
    oneToOneIndex plan.toPlanShape plan.outputStorageMode n == some k

/-- `plan_typed_slots_tuple_t`: each slot has its owner node's policy. -/
def oneToOneMap : SlotMap where
  index := oneToOneIndex plan.toPlanShape plan.outputStorageMode
  policy k :=
    match oneToOnePhysicalSlotOwnerNode plan k with
    | none => .none
    | some n => if plan.slotLogicalPolicy n = .mustPayload then .mustPayload else .maybePayload
  tracksOwner := false

/-- The condition of `plan_exec_slots::destroy`. -/
def CompiledPlan.ownsPayload (i : Nat) : Bool :=
  !(plan.outputType i).isVoid && plan.outputStorageMode i == .owned

/-- `slot_has_value_impl` and both overloads of `has_value`, given what the
canonical owner's slot answers. -/
def slotHasValueImpl (atOwner : Nat → Bool) (i : Nat) : Bool :=
  if (plan.outputType i).isVoid then false else atOwner (plan.canonicalOutputOwnerNode i)

/-- `plan_exec_slots_impl`. -/
def compactSlots (V : Type) : SlotsApi V (Nat → Slot V) where
  initial := fun _ => {}
  hasValue i s := slotHasValueImpl plan (fun o => (compactMap plan).hasValue o s) i
  emplace i v s := (compactMap plan).emplace i v s
  destroy i s := if plan.ownsPayload i then (compactMap plan).destroy i s else ([], s)
  get i s := (compactMap plan).get (plan.canonicalOutputOwnerNode i) s
  set i v s := (compactMap plan).set (plan.canonicalOutputOwnerNode i) v s
  outHasValue i s := (compactMap plan).hasValue i s
  outEmplace i v s := (compactMap plan).emplace i v s
  outDestroy i s := (compactMap plan).destroy i s
  destroyActiveSlots := forEachNode plan.nodeCount fun i s =>
    match (compactMap plan).index i with
    | none => ([], s)
    | some k =>
        -- only the node in the owner record destroys
        if (s k).ownerNode = some i then (compactMap plan).destroy i s else ([], s)

/-- The state of `plan_exec_slots_impl<Plan, slot_layout_one_to_one_policy>`. -/
structure OneToOneState (V : Type) where
  storage : Nat → Slot V := fun _ => {}
  liveSlots : Nat → Bool := fun _ => false

/-- `plan_exec_slots_impl<Plan, slot_layout_one_to_one_policy>::destroy`. -/
def oneToOneDestroy (i : Nat) (s : OneToOneState V) : List MemoryEvent × OneToOneState V :=
  if plan.ownsPayload i then
    let armed :=
      if plan.slotLogicalPolicy i = .maybePayload then (oneToOneMap plan).hasValue i s.storage
      else s.liveSlots i
    let (events, storage) :=
      if armed then (oneToOneMap plan).destroy i s.storage else ([], s.storage)
    (events, ⟨storage, Function.update s.liveSlots i false⟩)
  else ([], s)

/-- `plan_exec_slots_impl<Plan, slot_layout_one_to_one_policy>`.  The sink
`out<I>()` does not set the live bit. -/
def oneToOneSlots (V : Type) : SlotsApi V (OneToOneState V) where
  initial := {}
  hasValue i s := slotHasValueImpl plan (fun o =>
    if plan.slotLogicalPolicy o = .maybePayload then (oneToOneMap plan).hasValue o s.storage
    else true) i
  emplace i v s :=
    let (events, storage) := (oneToOneMap plan).emplace i v s.storage
    (events, ⟨storage, Function.update s.liveSlots i true⟩)
  destroy := oneToOneDestroy plan
  get i s := (oneToOneMap plan).get (plan.canonicalOutputOwnerNode i) s.storage
  set i v s := ⟨(oneToOneMap plan).set (plan.canonicalOutputOwnerNode i) v s.storage, s.liveSlots⟩
  outHasValue i s := (oneToOneMap plan).hasValue i s.storage
  outEmplace i v s :=
    let (events, storage) := (oneToOneMap plan).emplace i v s.storage
    (events, ⟨storage, s.liveSlots⟩)
  outDestroy i s :=
    let (events, storage) := (oneToOneMap plan).destroy i s.storage
    (events, ⟨storage, s.liveSlots⟩)
  destroyActiveSlots := forEachNode plan.nodeCount (oneToOneDestroy plan)

/-! ## §4. The ideal backend. -/

/-- A node's payload is constructed, possibly over an earlier one of its own. -/
def idealEmplace (i : Nat) (v : V) (f : Nat → Option V) : List MemoryEvent × (Nat → Option V) :=
  ([.constructed (.payload i) ((f i).map fun _ => .payload i)], Function.update f i (some v))

/-- A node's payload is destroyed, if it is live. -/
def idealDestroy (i : Nat) (f : Nat → Option V) : List MemoryEvent × (Nat → Option V) :=
  match f i with
  | none => ([], f)
  | some _ => ([.destroyed (.payload i) (some (.payload i))], Function.update f i none)

/-- What the slots are for: each node's payload, or none. -/
def idealSlots (V : Type) : SlotsApi V (Nat → Option V) where
  initial := fun _ => none
  hasValue i f := slotHasValueImpl plan (fun o => (f o).isSome) i
  emplace := idealEmplace
  destroy i f := if plan.ownsPayload i then idealDestroy i f else ([], f)
  get i f := f (plan.canonicalOutputOwnerNode i)
  set i v f :=
    let owner := plan.canonicalOutputOwnerNode i
    Function.update f owner ((f owner).map fun _ => v)
  outHasValue i f := (f i).isSome
  outEmplace := idealEmplace
  outDestroy := idealDestroy
  destroyActiveSlots := forEachNode plan.nodeCount fun i f =>
    if plan.ownsPayload i then idealDestroy i f else ([], f)

end Backends

/-! ## §5. Whose object `get` refers to. -/

/-- **Canonical owners of a validated plan.**  The recursion reaches an owned
node of the same type through forward-prev nodes only, and every node it passes
refers to that node's object. -/
theorem canonicalOwner_denotes (plan : CompiledPlan) (hvalid : plan.validatePlan = .ok) (i : Nat)
    (hi : i < plan.nodeCount) (hvoid : (plan.outputType i).isVoid = false) :
    ∃ o, plan.canonicalOutputOwnerNodeImpl i = some o
      ∧ o ∈ plan.path i
      ∧ (plan.outputStorageMode i = .owned → o = i)
      ∧ plan.outputStorageMode o = .owned
      ∧ plan.outputType o = plan.outputType i
      ∧ (∀ m ∈ plan.path i, o < m → plan.outputStorageMode m = .forwardedPrev)
      ∧ ∀ m ∈ plan.path i, o ≤ m →
          plan.canonicalOutputOwnerNodeImpl m = some o
            ∧ ∀ V : Type,
                (∀ s, (compactSlots plan V).get m s = (compactMap plan).get o s)
                  ∧ ∀ s, (oneToOneSlots plan V).get m s = (oneToOneMap plan).get o s.storage := by
  obtain ⟨hmem, howned, hforward⟩ := CompiledPlan.owner_chain hvalid i hi hvoid
  have hchain := CompiledPlan.owner_of_chain hvalid i hi hvoid
  have hmode : plan.outputStorageMode (plan.canonicalOutputOwnerNode i) = .owned :=
    beq_iff_eq.mp howned
  refine ⟨plan.canonicalOutputOwnerNode i, CompiledPlan.ownerImpl_eq hvalid i hi hvoid, hmem,
    fun h => ?_, hmode, (hchain _ hmem (Nat.le_refl _)).2, hforward, fun m hm hle => ?_⟩
  · exact CompiledPlan.owner_self hvoid (by rw [h]; nofun)
  · obtain ⟨howner, htype⟩ := hchain m hm hle
    have hm' : m < plan.nodeCount := Nat.lt_of_le_of_lt (plan.mem_path_le hi hm) hi
    refine ⟨?_, fun V => ⟨fun s => ?_, fun s => ?_⟩⟩
    · rw [CompiledPlan.ownerImpl_eq hvalid m hm' (by rw [htype, hvoid]), howner]
    -- both backends look the owner up before they look at a slot
    · rw [← howner]
      rfl
    · rw [← howner]
      rfl

/-- A root with a payload and two forward-prev nodes below it. -/
def forwardChainPlan : CompiledPlan where
  levels := [0, 1, 2]
  nonempty := by decide
  accepted := by decide
  task i :=
    if i = 0 then .base (.boundTask (.function [] (.object 0)) [])
    else .base (.boundForwardPrevTask (.object 0) (.function [.lvalueRef (.object 0)] .void)
      [.borrowPrevMut (.object 0)])
  fanoutPolicy _ := .auto

/-- The owner of the last node is the root. -/
theorem canonicalOwner_denotes_chain : ∃ o,
    forwardChainPlan.canonicalOutputOwnerNodeImpl 2 = some o
      ∧ forwardChainPlan.outputStorageMode o = .owned := by
  obtain ⟨o, himpl, -, -, howned, -⟩ := canonicalOwner_denotes forwardChainPlan (by decide +kernel)
    2 (by decide +kernel) (by decide +kernel)
  exact ⟨o, himpl, howned⟩

end YOrch
