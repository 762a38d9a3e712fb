import ZelerPlatform.Acquisition.Discovery

/-!
# What an enumeration has found

The source has orders with creation instants. The receipts of a pass stand for orders of the hours
of its bounds, each at most once. Where as many receipts stand for orders of some hours as the
source has there, every order of these hours has its receipt.
-/

namespace ZelerPlatform.Acquisition

open Recovery (Head Receipt Time inScope memberships)
open OrderRangeNode OrdersProducer

/-- An order as the source creates it. -/
structure SourceOrder where
  id : String
  created : Time
  deriving DecidableEq, Repr

/-- The hour in which an order was created. -/
def SourceOrder.hourStart (order : SourceOrder) : Int :=
  micros order.created - micros order.created % hour

namespace OrderRangeNode

/-- The order is of the hours that are asked for. -/
def asks (node : OrderRangeNode) (order : SourceOrder) : Bool :=
  decide (node.providerHours.1 ≤ micros order.created
    ∧ micros order.created < node.providerHours.2 + hour)

/-- The order was created in the bounds. -/
def holds (node : OrderRangeNode) (order : SourceOrder) : Bool :=
  decide (node.dateFrom ≤ micros order.created ∧ micros order.created < node.dateTo)

variable {node root : OrderRangeNode} {order : SourceOrder}

theorem asks_iff : node.asks order = true ↔ order.hourStart ∈ node.hours := by
  obtain ⟨hfirst, -, -, hlast, -⟩ := node.providerHours_spec
  simp only [asks, decide_eq_true_eq, hours, SourceOrder.hourStart, Set.mem_ofPred_eq]
  unfold hour at *
  omega

theorem holds_iff : node.holds order = true ↔ micros order.created ∈ node.instants := by
  simp [holds, instants]

/-- What was created in the bounds is of the hours asked for. -/
theorem asks_of_holds (h : node.holds order = true) : node.asks order = true := by
  obtain ⟨-, hle, -, -, -, hle'⟩ := node.providerHours_spec
  simp only [holds, asks, decide_eq_true_eq] at h ⊢
  omega

end OrderRangeNode

/-! ### Receipts of a pass -/

/-- The receipts that stage an order in the pass of a head. -/
def stagedOf (head : Head) (receipts : Collection Receipt.id) : List Receipt :=
  receipts.find fun receipt => inScope head receipt && staged receipt

/-- The receipt stands for an order of the hours of all the bounds, and says whether it was
created in them. -/
def Known (orders : List SourceOrder) (root : OrderRangeNode) (receipt : Receipt) : Prop :=
  ∃ order ∈ orders, order.id = receipt.resourceId ∧ root.asks order = true ∧
    receipt.kind = if root.holds order then .membership else .exclusion

/-- The receipt stands for an order of some hours. -/
def placed (orders : List SourceOrder) (node : OrderRangeNode) (receipt : Receipt) : Bool :=
  (orders.find? fun order => order.id = receipt.resourceId).any node.asks

section

variable {orders : List SourceOrder} {root node other : OrderRangeNode} {receipt : Receipt}
variable {receipts fresh : List Receipt} {leaves : List OrderRangeNode}

theorem find_order (distinct : (orders.map SourceOrder.id).Nodup) {order : SourceOrder}
    (mem : order ∈ orders) (h : order.id = receipt.resourceId) :
    (orders.find? fun order => order.id = receipt.resourceId) = some order := by
  cases hfind : orders.find? fun order => order.id = receipt.resourceId with
  | none => exact absurd (by simpa using h) (List.find?_eq_none.mp hfind order mem)
  | some found =>
      have hid : found.id = receipt.resourceId := by simpa using List.find?_some hfind
      rw [List.inj_on_of_nodup_map distinct (List.mem_of_find?_eq_some hfind) mem
        (hid.trans h.symm)]

theorem placed_iff (distinct : (orders.map SourceOrder.id).Nodup) {order : SourceOrder}
    (mem : order ∈ orders) (h : order.id = receipt.resourceId) :
    placed orders node receipt = node.asks order := by
  rw [placed, find_order distinct mem h]
  rfl

theorem placed_root (distinct : (orders.map SourceOrder.id).Nodup)
    (known : Known orders root receipt) : placed orders root receipt = true := by
  obtain ⟨order, mem, hid, hasks, -⟩ := known
  rw [placed_iff distinct mem hid]
  exact hasks

/-- Receipts of other hours are not counted. -/
theorem placed_apart (hparts : Parts hours leaves root.hours) (hnode : node ∈ leaves)
    (hother : other ∈ leaves) (hne : node ≠ other)
    (h : placed orders node receipt = true) : placed orders other receipt = false := by
  rw [placed, Option.any_eq_true] at h
  obtain ⟨order, hfind, hasks⟩ := h
  rw [placed, hfind, Option.any_some, Bool.eq_false_iff]
  intro hasks'
  exact hne (hparts.eq_of_mem hnode hother (asks_iff.mp hasks) (asks_iff.mp hasks'))

/-- Where as many receipts stand for orders of some hours as there are, each order has one. -/
theorem complete_of_count (distinct : (receipts.map Receipt.resourceId).Nodup)
    (h : receipts.countP (placed orders node) = orders.countP node.asks)
    {order : SourceOrder} (mem : order ∈ orders) (hasks : node.asks order = true) :
    order.id ∈ receipts.map Receipt.resourceId := by
  have hsub : (receipts.filter (placed orders node)).map Receipt.resourceId ⊆
      (orders.filter node.asks).map SourceOrder.id := by
    intro id hid
    obtain ⟨receipt, hreceipt, rfl⟩ := List.mem_map.mp hid
    have hplaced := (List.mem_filter.mp hreceipt).2
    rw [placed, Option.any_eq_true] at hplaced
    obtain ⟨found, hfind, hfound⟩ := hplaced
    refine List.mem_map.mpr ⟨found, List.mem_filter.mpr
      ⟨List.mem_of_find?_eq_some hfind, hfound⟩, ?_⟩
    simpa using List.find?_some hfind
  have hnodup : ((receipts.filter (placed orders node)).map Receipt.resourceId).Nodup :=
    distinct.sublist (List.filter_sublist.map _)
  have hperm := (hnodup.subperm hsub).perm_of_length_le (by
    rw [List.length_map, List.length_map, ← List.countP_eq_length_filter,
      ← List.countP_eq_length_filter, h])
  have hmem := hperm.mem_iff.mpr
    (List.mem_map_of_mem (f := SourceOrder.id) (List.mem_filter.mpr ⟨mem, hasks⟩))
  exact (List.filter_sublist.map _).subset hmem

/-! ### Leaves of the bounds -/

/-- In the hours of a leaf the bounds of the leaf are those of all. -/
theorem holds_leaf (hinstants : Parts instants leaves root.instants)
    (hhours : Parts hours leaves root.hours) (mem : node ∈ leaves) {order : SourceOrder}
    (hasks : node.asks order = true) : node.holds order = root.holds order := by
  rw [Bool.eq_iff_iff, holds_iff, holds_iff]
  constructor
  · exact fun h => hinstants.subset mem h
  · intro h
    rw [← hinstants.union] at h
    obtain ⟨leaf, hleaf, hinstant⟩ := h
    have hsame : leaf = node := hhours.eq_of_mem hleaf mem
      (asks_iff.mp (asks_of_holds (holds_iff.mpr hinstant))) (asks_iff.mp hasks)
    rw [← hsame]
    exact hinstant

theorem asks_leaf (hhours : Parts hours leaves root.hours) (mem : node ∈ leaves)
    {order : SourceOrder} (hasks : node.asks order = true) : root.asks order = true :=
  asks_iff.mpr (hhours.subset mem (asks_iff.mp hasks))

/-- A receipt of the hours of a leaf is one of all the hours. -/
theorem Known.of_leaf (hinstants : Parts instants leaves root.instants)
    (hhours : Parts hours leaves root.hours) (mem : node ∈ leaves)
    (h : Known orders node receipt) : Known orders root receipt := by
  obtain ⟨order, horder, hid, hasks, hkind⟩ := h
  refine ⟨order, horder, hid, asks_leaf hhours mem hasks, ?_⟩
  rw [hkind, holds_leaf hinstants hhours mem hasks]

theorem sum_asks (hhours : Parts hours leaves root.hours) (orders : List SourceOrder) :
    (leaves.map fun leaf => orders.countP leaf.asks).sum = orders.countP root.asks :=
  hhours.sum_countP (p := asks) (q := root.asks) (fun _ _ => asks_iff) (fun _ => asks_iff) orders

/-! ### A finished enumeration -/

/-- The receipts of a pass are the orders of the source: those created in the bounds as
memberships, the others of the same hours as exclusions. -/
structure Exact (orders : List SourceOrder) (root : OrderRangeNode) (saved : Head)
    (receipts : List Receipt) : Prop where
  memberships : ((receipts.filter fun receipt => receipt.kind = .membership).map
    Receipt.resourceId).Perm ((orders.filter root.holds).map SourceOrder.id)
  exclusions : ((receipts.filter fun receipt => receipt.kind = .exclusion).map
    Receipt.resourceId).Perm
      ((orders.filter fun order => root.asks order && !root.holds order).map SourceOrder.id)
  total : saved.sourceTotal = some (orders.countP root.asks)
  discovered : saved.discoveredCount = orders.countP root.holds

/-- The receipts of one kind are the orders that call for it. -/
theorem perm_of_kind (orders_distinct : (orders.map SourceOrder.id).Nodup)
    (distinct : (receipts.map Receipt.resourceId).Nodup)
    {p : Receipt → Bool} {q : SourceOrder → Bool}
    (sound : ∀ receipt ∈ receipts, p receipt = true →
      ∃ order ∈ orders, order.id = receipt.resourceId ∧ q order = true)
    (complete : ∀ order ∈ orders, q order = true →
      ∃ receipt ∈ receipts, receipt.resourceId = order.id ∧ p receipt = true) :
    ((receipts.filter p).map Receipt.resourceId).Perm ((orders.filter q).map SourceOrder.id) := by
  refine (List.perm_ext_iff_of_nodup (distinct.sublist (List.filter_sublist.map _))
    (orders_distinct.sublist (List.filter_sublist.map _))).mpr fun id => ?_
  simp only [List.mem_map, List.mem_filter]
  constructor
  · rintro ⟨receipt, ⟨mem, hp⟩, rfl⟩
    obtain ⟨order, hmem, hid, hq⟩ := sound receipt mem hp
    exact ⟨order, ⟨hmem, hq⟩, hid⟩
  · rintro ⟨order, ⟨mem, hq⟩, rfl⟩
    obtain ⟨receipt, hmem, hid, hp⟩ := complete order mem hq
    exact ⟨receipt, ⟨hmem, hp⟩, hid⟩

theorem exact_of_complete {saved : Head} (orders_distinct : (orders.map SourceOrder.id).Nodup)
    (distinct : (receipts.map Receipt.resourceId).Nodup)
    (known : ∀ receipt ∈ receipts, Known orders root receipt)
    (complete : ∀ order ∈ orders, root.asks order = true →
      order.id ∈ receipts.map Receipt.resourceId)
    (total : saved.sourceTotal = some (orders.countP root.asks))
    (discovered : saved.discoveredCount = memberships receipts) :
    Exact orders root saved receipts := by
  have hkind (order : SourceOrder) (mem : order ∈ orders) (hasks : root.asks order = true) :
      ∃ receipt ∈ receipts, receipt.resourceId = order.id ∧
        receipt.kind = if root.holds order then .membership else .exclusion := by
    obtain ⟨receipt, hreceipt, hid⟩ := List.mem_map.mp (complete order mem hasks)
    obtain ⟨found, hfound, hfid, -, hfkind⟩ := known receipt hreceipt
    rw [List.inj_on_of_nodup_map orders_distinct hfound mem (hfid.trans hid)] at hfkind
    exact ⟨receipt, hreceipt, hid, hfkind⟩
  have hmemberships : ((receipts.filter fun receipt => receipt.kind = .membership).map
      Receipt.resourceId).Perm ((orders.filter root.holds).map SourceOrder.id) := by
    refine perm_of_kind orders_distinct distinct (fun receipt mem hp => ?_) fun order mem hq => ?_
    · obtain ⟨order, hmem, hid, -, horder⟩ := known receipt mem
      refine ⟨order, hmem, hid, ?_⟩
      by_contra hholds
      rw [if_neg hholds] at horder
      rw [horder] at hp
      cases hp
    · obtain ⟨receipt, hmem, hid, hreceipt⟩ := hkind order mem (asks_of_holds hq)
      rw [if_pos hq] at hreceipt
      exact ⟨receipt, hmem, hid, by simpa using hreceipt⟩
  refine ⟨hmemberships, ?_, total, ?_⟩
  · refine perm_of_kind orders_distinct distinct (fun receipt mem hp => ?_) fun order mem hq => ?_
    · obtain ⟨order, hmem, hid, hasks, horder⟩ := known receipt mem
      refine ⟨order, hmem, hid, ?_⟩
      cases hholds : root.holds order with
      | false => simp [hasks]
      | true =>
          rw [if_pos hholds] at horder
          rw [horder] at hp
          cases hp
    · obtain ⟨hasks, hholds⟩ := Bool.and_eq_true_iff.mp hq
      obtain ⟨receipt, hmem, hid, hreceipt⟩ := hkind order mem hasks
      rw [if_neg (by simpa using hholds)] at hreceipt
      exact ⟨receipt, hmem, hid, by simpa using hreceipt⟩
  · have hlength := hmemberships.length_eq
    rw [List.length_map, List.length_map, ← List.countP_eq_length_filter,
      ← List.countP_eq_length_filter] at hlength
    rw [discovered, ← hlength]
    rfl

/-! ### A divided enumeration -/

/-- The ranges of a pass that are not split are the leaves of a subdivision of all the bounds.
As many receipts stand for orders of the hours of one as its offset says, and where it is
enumerated these are all the orders of its hours. -/
structure Divided (sha256 : String → String) (orders : List SourceOrder) (root : OrderRangeNode)
    (ranges : List OrderRange) (receipts : List Receipt) : Prop where
  leaf : root.Leaf
  leaves : ∃ leaves, Subdivided sha256 root leaves ∧ (ranges.map OrderRange.node).Perm leaves
  counted : ∀ range ∈ ranges, range.nextOffset = receipts.countP (placed orders range.node)
  finished : ∀ range ∈ ranges, range.state = .enumerated →
    range.sourceTotal = some range.nextOffset ∧ range.nextOffset = orders.countP range.node.asks

namespace Divided

variable {sha256 : String → String} {ranges before after : List OrderRange}
variable {range changed first second : OrderRange}

theorem parts (digest : ∀ text, sha256 text ≠ "")
    (h : Divided sha256 orders root ranges receipts) :
    Parts instants (ranges.map OrderRange.node) root.instants ∧
    Parts hours (ranges.map OrderRange.node) root.hours := by
  obtain ⟨leaves, htree, hperm⟩ := h.leaves
  obtain ⟨-, hinstants, hhours⟩ := leaves_parts digest h.leaf htree
  exact ⟨hinstants.perm hperm.symm, hhours.perm hperm.symm⟩

/-- The first hour of the bounds of a range is asked for. -/
theorem first_hour (h : node.Leaf) : node.providerHours.1 ∈ node.hours := by
  obtain ⟨hfirst, hle, hlt, -, hlt', hle'⟩ := node.providerHours_spec
  obtain ⟨hcount, hspan⟩ := hourCount_spec h.valid.positive
  refine ⟨hfirst, le_rfl, ?_⟩
  unfold hour at *
  omega

theorem nodup (digest : ∀ text, sha256 text ≠ "")
    (h : Divided sha256 orders root ranges receipts) : (ranges.map OrderRange.node).Nodup := by
  obtain ⟨leaves, htree, hperm⟩ := h.leaves
  obtain ⟨hleaves, -, hhours⟩ := leaves_parts digest h.leaf htree
  refine hperm.nodup_iff.mpr (hhours.disjoint.imp_of_mem fun {a b} ha _ hdisjoint hab => ?_)
  rw [hab] at ha hdisjoint
  exact Set.disjoint_left.mp hdisjoint (first_hour (hleaves b ha)) (first_hour (hleaves b ha))

/-- Before any range is halved, all the bounds are one range. -/
theorem whole (leaf : root.Leaf) (node : range.node = root) (untouched : range.nextOffset = 0)
    (pending : range.state = .pending) : Divided sha256 orders root [range] [] where
  leaf := leaf
  leaves := ⟨[root], .root, by simp [node]⟩
  counted := by simpa using untouched
  finished := by simp [pending]

/-- Halving a range that has no receipt yet. -/
theorem split (digest : ∀ text, sha256 text ≠ "")
    (h : Divided sha256 orders root (before ++ range :: after) receipts) {total budget : Int}
    (children : subdivideOrderRange sha256 range.node total budget = .ok [first.node, second.node])
    (untouched : range.nextOffset = 0) (hfirst : first.nextOffset = 0)
    (hsecond : second.nextOffset = 0) (pending : first.state = .pending)
    (pending' : second.state = .pending) :
    Divided sha256 orders root (before ++ after ++ [first, second]) receipts := by
  obtain ⟨leaves, htree, hperm⟩ := h.leaves
  have hmem : range ∈ before ++ range :: after := by simp
  have hleaf := (leaves_parts digest h.leaf htree).1
  have hin : range.node ∈ leaves := hperm.subset (List.mem_map_of_mem hmem)
  obtain ⟨left, right, rfl⟩ := List.append_of_mem hin
  obtain ⟨-, -, hhours⟩ := children_parts digest (hleaf _ hin) children
  have hnone : receipts.countP (placed orders range.node) = 0 := by
    rw [← h.counted range hmem, untouched]
  have hchild {child : OrderRange} (mem : child.node ∈ [first.node, second.node]) :
      receipts.countP (placed orders child.node) = 0 := by
    rw [List.countP_eq_zero] at hnone ⊢
    intro receipt hreceipt hplaced
    refine hnone receipt hreceipt ?_
    rw [placed, Option.any_eq_true] at hplaced ⊢
    obtain ⟨order, hfind, hasks⟩ := hplaced
    exact ⟨order, hfind, asks_iff.mpr (hhours.subset mem (asks_iff.mp hasks))⟩
  have hcases {P : OrderRange → Prop} (old : ∀ other ∈ before ++ range :: after, P other)
      (hP : P first) (hP' : P second) : ∀ other ∈ before ++ after ++ [first, second], P other := by
    intro other mem
    obtain hmem | hmem := List.mem_append.mp mem
    · refine old other (List.mem_append.mpr ?_)
      exact (List.mem_append.mp hmem).imp_right (List.mem_cons_of_mem _)
    · obtain rfl | rfl : other = first ∨ other = second := by simpa using hmem
      · exact hP
      · exact hP'
  refine ⟨h.leaf, ⟨_, .split htree children, ?_⟩, ?_, ?_⟩
  · have hrest : ((before ++ after).map OrderRange.node).Perm (left ++ right) := by
      rw [List.map_append, List.map_cons] at hperm
      rw [List.map_append]
      exact (List.perm_middle.symm.trans (hperm.trans List.perm_middle)).cons_inv
    calc ((before ++ after ++ [first, second]).map OrderRange.node)
        = (before ++ after).map OrderRange.node ++ [first.node, second.node] := by simp
      _ |>.Perm (left ++ right ++ [first.node, second.node]) := hrest.append_right _
      _ |>.Perm (left ++ [first.node, second.node] ++ right) := by
          rw [List.append_assoc, List.append_assoc]
          exact List.perm_append_comm.append_left left
  · refine hcases h.counted ?_ ?_
    · rw [hfirst, hchild (by simp)]
    · rw [hsecond, hchild (by simp)]
  · refine hcases h.finished ?_ ?_
    · rw [pending]
      exact nofun
    · rw [pending']
      exact nofun

/-- A page of a range. -/
theorem page (digest : ∀ text, sha256 text ≠ "")
    (h : Divided sha256 orders root (before ++ range :: after) receipts)
    (node : changed.node = range.node)
    (placedHere : ∀ receipt ∈ fresh, placed orders range.node receipt = true)
    (next : changed.nextOffset = range.nextOffset + fresh.length)
    (total : changed.state = .enumerated → changed.sourceTotal = some changed.nextOffset ∧
      changed.nextOffset = orders.countP range.node.asks) :
    Divided sha256 orders root (before ++ changed :: after) (receipts ++ fresh) := by
  have hnodup := h.nodup digest
  obtain ⟨-, hhours⟩ := h.parts digest
  have hrange : range ∈ before ++ range :: after := by simp
  have hother (other : OrderRange) (mem : other ∈ before ++ after) :
      other ∈ before ++ range :: after ∧ fresh.countP (placed orders other.node) = 0 := by
    have hmem : other ∈ before ++ range :: after :=
      List.mem_append.mpr ((List.mem_append.mp mem).imp_right (List.mem_cons_of_mem _))
    have hne : range.node ≠ other.node := by
      rw [List.map_append, List.map_cons, List.nodup_middle] at hnodup
      intro heq
      refine (List.nodup_cons.mp hnodup).1 ?_
      rw [heq, ← List.map_append]
      exact List.mem_map_of_mem mem
    refine ⟨hmem, List.countP_eq_zero.mpr fun receipt hreceipt => ?_⟩
    rw [placed_apart hhours (List.mem_map_of_mem hrange) (List.mem_map_of_mem hmem) hne
      (placedHere receipt hreceipt)]
    exact Bool.false_ne_true
  have hcases {P : OrderRange → Prop} (hP : P changed)
      (old : ∀ other ∈ before ++ after, P other) : ∀ other ∈ before ++ changed :: after, P other := by
    intro other mem
    obtain hmem | hmem := List.mem_append.mp mem
    · exact old other (List.mem_append_left _ hmem)
    · obtain rfl | hmem := List.mem_cons.mp hmem
      · exact hP
      · exact old other (List.mem_append_right _ hmem)
  refine ⟨h.leaf, ?_, ?_, ?_⟩
  · obtain ⟨leaves, htree, hperm⟩ := h.leaves
    refine ⟨leaves, htree, ?_⟩
    simpa [node] using hperm
  · refine hcases ?_ fun other mem => ?_
    · rw [next, h.counted range hrange, node, List.countP_append]
      rw [List.countP_eq_length.mpr placedHere]
    · rw [List.countP_append, (hother other mem).2, Nat.add_zero]
      exact h.counted other (hother other mem).1
  · refine hcases ?_ fun other mem => h.finished other (hother other mem).1
    rw [node]
    exact total

/-- Where every range is enumerated, no order of the hours is missing. -/
theorem complete (digest : ∀ text, sha256 text ≠ "")
    (h : Divided sha256 orders root ranges receipts)
    (done : ∀ range ∈ ranges, range.state = .enumerated)
    (distinct : (receipts.map Receipt.resourceId).Nodup) :
    (∀ order ∈ orders, root.asks order = true → order.id ∈ receipts.map Receipt.resourceId) ∧
    (ranges.filterMap OrderRange.sourceTotal).sum = orders.countP root.asks := by
  obtain ⟨-, hhours⟩ := h.parts digest
  constructor
  · intro order mem hasks
    have hin := asks_iff.mp hasks
    rw [← hhours.union] at hin
    obtain ⟨node, hnode, hhour⟩ := hin
    obtain ⟨range, hrange, rfl⟩ := List.mem_map.mp hnode
    refine complete_of_count distinct ?_ mem (asks_iff.mpr hhour)
    rw [← h.counted range hrange]
    exact (h.finished range hrange (done range hrange)).2
  · rw [← sum_asks hhours orders, List.map_map]
    congr 1
    have htotal (range : OrderRange) (mem : range ∈ ranges) :
        range.sourceTotal = some (orders.countP range.node.asks) := by
      obtain ⟨hsome, hcount⟩ := h.finished range mem (done range mem)
      rw [hsome, hcount]
    clear h done hhours
    induction ranges with
    | nil => rfl
    | cons range ranges ih =>
        obtain ⟨hrange, hrest⟩ := List.forall_mem_cons.mp htotal
        rw [List.filterMap_cons_some hrange, ih hrest]
        rfl

end Divided

end

end ZelerPlatform.Acquisition
