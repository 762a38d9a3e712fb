import Mathlib.Algebra.Order.Ring.Int
import Mathlib.Order.Interval.Set.LinearOrder
import Mathlib.Tactic.Positivity
import Mathlib.Tactic.Ring
import ZelerPlatform.Library.Fallible
import ZelerPlatform.Library.Intervals
import ZelerPlatform.Recovery.Job

/-!
# Subdivision of an order range

A creation interval with too many orders for one enumeration is halved at an hour of the
provider, and its halves again where that is needed. The bounds are exact instants; the
provider is asked for whole hours.

Whatever leaves are replaced, the bounds of the leaves part those of the root, the hours they
ask for part the hours of the root, and the budget of depth suffices. Instants count
microseconds.
-/

namespace ZelerPlatform.Acquisition

open Fallible
open Recovery (civil padded)

/-- `MAX_SUBDIVISION_DEPTH`. -/
def maxSubdivisionDepth : Nat := 12

def hour : Int := 3600000000

def ninetyDays : Int := 90 * 24 * hour

inductive SubdivisionError
  | value (message : String)
  | saturatedOrderHour (message : String)
  | historyLimit (message : String)
  deriving DecidableEq, Repr

structure OrderRangeNode where
  nodeId : String
  rootId : String
  parentId : Option String
  dateFrom : Int
  dateTo : Int
  depth : Nat
  deriving DecidableEq, Repr

namespace OrderRangeNode

/-- What the model `OrderRangeNode` checks of its fields, `validate_bounds` last. -/
def valid (node : OrderRangeNode) : Bool :=
  !node.nodeId.isEmpty && !node.rootId.isEmpty && node.parentId.all (!·.isEmpty)
    && decide (node.depth ≤ maxSubdivisionDepth)
    && decide (0 < node.dateTo - node.dateFrom ∧ node.dateTo - node.dateFrom ≤ ninetyDays)
    && (node.depth = 0) = node.parentId.isNone
    && (node.depth ≠ 0 || node.nodeId = node.rootId)

/-- Inclusive hour filters: the hours of the first and of the last instant of the range. -/
def providerHours (node : OrderRangeNode) : Int × Int :=
  let lower := node.dateFrom - node.dateFrom % hour
  let upper := node.dateTo - node.dateTo % hour
  (lower, if upper = node.dateTo then upper - hour else upper)

/-- How many hours the range asks for. -/
def hourCount (node : OrderRangeNode) : Int :=
  (node.providerHours.2 - node.providerHours.1) / hour + 1

end OrderRangeNode

/-- `datetime.isoformat(timespec="microseconds")` of a UTC datetime. -/
def isoformatMicroseconds (t : Int) : String :=
  let (year, month, day) := civil (t / (24 * hour))
  let rest := t % (24 * hour)
  padded 4 year ++ "-" ++ padded 2 month ++ "-" ++ padded 2 day ++ "T"
    ++ padded 2 (rest / hour) ++ ":" ++ padded 2 (rest / 60000000 % 60) ++ ":"
    ++ padded 2 (rest / 1000000 % 60) ++ "." ++ padded 6 (rest % 1000000) ++ "+00:00"

variable (sha256 : String → String)

/-- The part of a range from `start` to `stop`. -/
def OrderRangeNode.child (node : OrderRangeNode) (start stop : Int) : OrderRangeNode where
  nodeId := sha256 (String.intercalate "\x00"
    [node.nodeId, isoformatMicroseconds start, isoformatMicroseconds stop])
  rootId := node.rootId
  parentId := some node.nodeId
  dateFrom := start
  dateTo := stop
  depth := node.depth + 1

/-- The hour at which a range is halved. -/
def OrderRangeNode.midpoint (node : OrderRangeNode) : Int :=
  node.providerHours.1 + node.hourCount / 2 * hour

/-- `subdivide_order_range`: the unchanged leaf or two exact children. -/
def subdivideOrderRange (node : OrderRangeNode) (observedTotal localResultBudget : Int) :
    Except SubdivisionError (List OrderRangeNode) := do
  raiseIf (¬ node.valid) (.value "invalid order range node")
  raiseIf (observedTotal < 0) (.value "observed total must be a nonnegative integer")
  raiseIf (localResultBudget < 1) (.value "local result budget must be a positive integer")
  if observedTotal ≤ localResultBudget then
    return [node]
  else do
    raiseIf (node.hourCount = 1)
      (.saturatedOrderHour "single provider hour exceeds local result budget")
    raiseIf (node.depth = maxSubdivisionDepth)
      (.historyLimit "order subdivision reached local depth budget")
    let children := [node.child sha256 node.dateFrom node.midpoint,
      node.child sha256 node.midpoint node.dateTo]
    raiseIf (¬ children.all OrderRangeNode.valid) (.value "invalid order range node")
    return children

/-! ### The hours of a range -/

namespace OrderRangeNode

variable {node : OrderRangeNode} {start stop : Int}

/-- The instants in the bounds. -/
def instants (node : OrderRangeNode) : Set Int := Set.Ico node.dateFrom node.dateTo

/-- The hours the provider is asked for. -/
def hours (node : OrderRangeNode) : Set Int :=
  {h | h % hour = 0 ∧ node.providerHours.1 ≤ h ∧ h ≤ node.providerHours.2}

structure Valid (node : OrderRangeNode) : Prop where
  nodeId : node.nodeId ≠ ""
  rootId : node.rootId ≠ ""
  parentId : node.parentId ≠ some ""
  depth : node.depth ≤ maxSubdivisionDepth
  positive : node.dateFrom < node.dateTo
  bounded : node.dateTo - node.dateFrom ≤ ninetyDays
  linked : node.depth = 0 ↔ node.parentId = none
  root : node.depth = 0 → node.nodeId = node.rootId

theorem valid_iff : node.valid = true ↔ node.Valid := by
  have hparent : (node.parentId.all (!·.isEmpty)) = true ↔ node.parentId ≠ some "" := by
    cases node.parentId with
    | none => simp
    | some parent => simp [String.isEmpty_iff]
  have hlinked : ((node.depth = 0) = (node.parentId.isNone = true)) ↔
      (node.depth = 0 ↔ node.parentId = none) := by
    rw [Option.isNone_iff_eq_none, eq_iff_iff]
  constructor
  · intro h
    simp only [valid, Bool.and_eq_true, decide_eq_true_eq, hparent, hlinked] at h
    obtain ⟨⟨⟨⟨⟨⟨hnode, hroot⟩, hparent⟩, hdepth⟩, hpositive, hbounded⟩, hlinked⟩, hself⟩ := h
    exact ⟨by simpa [String.isEmpty_iff] using hnode, by simpa [String.isEmpty_iff] using hroot,
      hparent, hdepth, by omega, hbounded, hlinked, by simpa [or_iff_not_imp_left] using hself⟩
  · intro h
    simp only [valid, Bool.and_eq_true, decide_eq_true_eq, hparent, hlinked]
    refine ⟨⟨⟨⟨⟨⟨?_, ?_⟩, h.parentId⟩, h.depth⟩, ?_, h.bounded⟩, h.linked⟩, ?_⟩
    · simpa [String.isEmpty_iff] using h.nodeId
    · simpa [String.isEmpty_iff] using h.rootId
    · have := h.positive
      omega
    · simpa [or_iff_not_imp_left] using h.root

/-- The first and the last hour are those of the first and of the last instant. -/
theorem providerHours_spec (node : OrderRangeNode) :
    node.providerHours.1 % hour = 0 ∧ node.providerHours.1 ≤ node.dateFrom ∧
    node.dateFrom < node.providerHours.1 + hour ∧ node.providerHours.2 % hour = 0 ∧
    node.providerHours.2 < node.dateTo ∧ node.dateTo ≤ node.providerHours.2 + hour := by
  have hlast : node.providerHours.2 = if node.dateTo - node.dateTo % hour = node.dateTo then
      node.dateTo - node.dateTo % hour - hour else node.dateTo - node.dateTo % hour := rfl
  have hfirst : node.providerHours.1 = node.dateFrom - node.dateFrom % hour := rfl
  rw [hfirst, hlast]
  unfold hour
  by_cases haligned : node.dateTo - node.dateTo % 3600000000 = node.dateTo
  · rw [if_pos haligned]
    omega
  · rw [if_neg haligned]
    omega

/-- A range of positive length asks for one hour more than there are hours between the first
and the last one. -/
theorem hourCount_spec (positive : node.dateFrom < node.dateTo) :
    1 ≤ node.hourCount ∧
    node.providerHours.2 = node.providerHours.1 + (node.hourCount - 1) * hour := by
  obtain ⟨hfirst, hle, hlt, hlast, hlt', hle'⟩ := node.providerHours_spec
  unfold hourCount
  unfold hour at *
  omega

/-- The bounds and the hours determine each other. -/
theorem providerHours_eq {first last : Int} (hfirst : first % hour = 0) (hlast : last % hour = 0)
    (hle : first ≤ node.dateFrom) (hlt : node.dateFrom < first + hour) (hlt' : last < node.dateTo)
    (hle' : node.dateTo ≤ last + hour) : node.providerHours = (first, last) := by
  obtain ⟨gfirst, gle, glt, glast, glt', gle'⟩ := node.providerHours_spec
  unfold hour at *
  exact Prod.ext (by omega) (by omega)

/-! ### Children -/

section

variable {sha256 : String → String}

theorem midpoint_spec (positive : node.dateFrom < node.dateTo) (several : node.hourCount ≠ 1) :
    node.midpoint % hour = 0 ∧ node.dateFrom < node.midpoint ∧ node.midpoint < node.dateTo ∧
    node.providerHours.1 < node.midpoint ∧ node.midpoint ≤ node.providerHours.2 := by
  obtain ⟨hfirst, hle, hlt, hlast, hlt', hle'⟩ := node.providerHours_spec
  obtain ⟨hcount, hspan⟩ := hourCount_spec positive
  unfold midpoint
  unfold hour at *
  omega

theorem providerHours_first (positive : node.dateFrom < node.dateTo)
    (several : node.hourCount ≠ 1) :
    (node.child sha256 node.dateFrom node.midpoint).providerHours
      = (node.providerHours.1, node.midpoint - hour) := by
  obtain ⟨hfirst, hle, hlt, -⟩ := node.providerHours_spec
  obtain ⟨hmid, -⟩ := midpoint_spec positive several
  refine providerHours_eq hfirst ?_ hle hlt ?_ ?_
  · unfold hour at *
    omega
  · show node.midpoint - hour < node.midpoint
    unfold hour
    omega
  · show node.midpoint ≤ node.midpoint - hour + hour
    omega

theorem providerHours_second (positive : node.dateFrom < node.dateTo)
    (several : node.hourCount ≠ 1) :
    (node.child sha256 node.midpoint node.dateTo).providerHours
      = (node.midpoint, node.providerHours.2) := by
  obtain ⟨-, -, -, hlast, hlt', hle'⟩ := node.providerHours_spec
  obtain ⟨hmid, -⟩ := midpoint_spec positive several
  refine providerHours_eq hmid hlast le_rfl ?_ hlt' hle'
  show node.midpoint < node.midpoint + hour
  unfold hour
  omega

/-- The two halves part the instants of a range. -/
theorem parts_instants (positive : node.dateFrom < node.dateTo) (several : node.hourCount ≠ 1) :
    Parts instants [node.child sha256 node.dateFrom node.midpoint,
      node.child sha256 node.midpoint node.dateTo] node.instants := by
  obtain ⟨-, hfrom, hto, -⟩ := midpoint_spec positive several
  apply Parts.pair
  · exact Set.disjoint_left.mpr fun t ht ht' => absurd ht.2 (not_lt.mpr ht'.1)
  · exact Set.Ico_union_Ico_eq_Ico hfrom.le hto.le

/-- And the hours it asks for. -/
theorem parts_hours (positive : node.dateFrom < node.dateTo) (several : node.hourCount ≠ 1) :
    Parts hours [node.child sha256 node.dateFrom node.midpoint,
      node.child sha256 node.midpoint node.dateTo] node.hours := by
  obtain ⟨hmid, -, -, hfirst, hlast⟩ := midpoint_spec positive several
  apply Parts.pair
  · rw [Set.disjoint_left]
    rintro h ⟨-, -, hle⟩ ⟨-, hge, -⟩
    rw [providerHours_first positive several] at hle
    rw [providerHours_second positive several] at hge
    unfold hour at *
    dsimp only at hle hge
    omega
  · ext h
    simp only [hours, Set.mem_union, Set.mem_ofPred_eq, providerHours_first positive several,
      providerHours_second positive several]
    unfold hour at *
    omega

/-- The first half asks for half of the hours, rounded down, the second for the rest. -/
theorem hourCount_children (sha256 : String → String) (positive : node.dateFrom < node.dateTo)
    (several : node.hourCount ≠ 1) :
    (node.child sha256 node.dateFrom node.midpoint).hourCount = node.hourCount / 2 ∧
    (node.child sha256 node.midpoint node.dateTo).hourCount
      = node.hourCount - node.hourCount / 2 := by
  obtain ⟨hcount, hspan⟩ := hourCount_spec positive
  have hfirst : (node.child sha256 node.dateFrom node.midpoint).hourCount
      = (node.midpoint - hour - node.providerHours.1) / hour + 1 := by
    unfold hourCount
    rw [providerHours_first positive several]
  have hsecond : (node.child sha256 node.midpoint node.dateTo).hourCount
      = (node.providerHours.2 - node.midpoint) / hour + 1 := by
    unfold hourCount
    rw [providerHours_second positive several]
  rw [hfirst, hsecond]
  unfold midpoint
  unfold hour at *
  omega

end

/-! ### The budget of depth -/

/-- No more than ninety days are left to ask for at this depth. -/
def Within (node : OrderRangeNode) : Prop := (node.hourCount - 1) * 2 ^ node.depth ≤ 2160

theorem within_root (h : node.Valid) (root : node.depth = 0) : node.Within := by
  obtain ⟨hfirst, hle, hlt, hlast, hlt', hle'⟩ := node.providerHours_spec
  obtain ⟨hcount, hspan⟩ := hourCount_spec h.positive
  have hbounded := h.bounded
  unfold Within
  rw [root]
  unfold ninetyDays at hbounded
  unfold hour at *
  omega

/-- Halving the hours makes up for the depth. -/
theorem within_half {count : Int} {depth : Nat} (h : (node.hourCount - 1) * 2 ^ depth ≤ 2160)
    (half : 2 * (count - 1) ≤ node.hourCount - 1) : (count - 1) * 2 ^ (depth + 1) ≤ 2160 := by
  have hpower : (0 : Int) ≤ 2 ^ depth := by positivity
  calc (count - 1) * 2 ^ (depth + 1) = 2 * (count - 1) * 2 ^ depth := by ring
    _ ≤ (node.hourCount - 1) * 2 ^ depth := mul_le_mul_of_nonneg_right half hpower
    _ ≤ 2160 := h

/-- A range as deep as allowed asks for one hour. -/
theorem hourCount_of_maxDepth (h : node.Within) (positive : node.dateFrom < node.dateTo)
    (deepest : node.depth = maxSubdivisionDepth) : node.hourCount = 1 := by
  obtain ⟨hcount, -⟩ := hourCount_spec positive
  unfold Within at h
  rw [deepest] at h
  unfold maxSubdivisionDepth at h
  omega

/-- What holds of every leaf. -/
structure Leaf (node : OrderRangeNode) : Prop where
  valid : node.Valid
  within : node.Within

section

variable {sha256 : String → String}

theorem child_valid (digest : ∀ text, sha256 text ≠ "") (h : node.Valid)
    (shallow : node.depth ≠ maxSubdivisionDepth) (positive : start < stop)
    (hstart : node.dateFrom ≤ start) (hstop : stop ≤ node.dateTo) :
    (node.child sha256 start stop).Valid where
  nodeId := digest _
  rootId := h.rootId
  parentId := by simpa [child] using h.nodeId
  depth := by
    have := h.depth
    show node.depth + 1 ≤ maxSubdivisionDepth
    omega
  positive := positive
  bounded := by
    have := h.bounded
    show stop - start ≤ ninetyDays
    omega
  linked := by simp [child]
  root := by simp [child]

/-- The two halves of a leaf that asks for several hours are leaves. -/
theorem children_leaf (digest : ∀ text, sha256 text ≠ "") (h : node.Leaf)
    (several : node.hourCount ≠ 1) :
    (node.child sha256 node.dateFrom node.midpoint).Leaf ∧
    (node.child sha256 node.midpoint node.dateTo).Leaf := by
  have hpositive := h.valid.positive
  obtain ⟨-, hfrom, hto, -⟩ := midpoint_spec hpositive several
  obtain ⟨hfirst, hsecond⟩ := hourCount_children sha256 hpositive several
  have hshallow : node.depth ≠ maxSubdivisionDepth := fun hdeepest =>
    several (hourCount_of_maxDepth h.within hpositive hdeepest)
  refine ⟨⟨child_valid digest h.valid hshallow hfrom le_rfl hto.le, ?_⟩,
    ⟨child_valid digest h.valid hshallow hto hfrom.le le_rfl, ?_⟩⟩
  · exact within_half h.within (by rw [hfirst]; omega)
  · exact within_half h.within (by rw [hsecond]; omega)

end

end OrderRangeNode

open OrderRangeNode

/-! ### Splits -/

section

variable {sha256 : String → String} {node root leaf : OrderRangeNode}
variable {leaves children : List OrderRangeNode} {observedTotal localResultBudget : Int}

/-- What a subdivision of a leaf does: it leaves the leaf as it is, halves it, or refuses. -/
theorem subdivide_cases (digest : ∀ text, sha256 text ≠ "") (h : node.Leaf)
    (observedTotal localResultBudget : Int) :
    subdivideOrderRange sha256 node observedTotal localResultBudget = .ok [node] ∨
    (node.hourCount ≠ 1 ∧
      subdivideOrderRange sha256 node observedTotal localResultBudget
        = .ok [node.child sha256 node.dateFrom node.midpoint,
            node.child sha256 node.midpoint node.dateTo]) ∨
    (observedTotal < 0 ∧ subdivideOrderRange sha256 node observedTotal localResultBudget
      = .error (.value "observed total must be a nonnegative integer")) ∨
    (localResultBudget < 1 ∧ subdivideOrderRange sha256 node observedTotal localResultBudget
      = .error (.value "local result budget must be a positive integer")) ∨
    (node.hourCount = 1 ∧ subdivideOrderRange sha256 node observedTotal localResultBudget
      = .error (.saturatedOrderHour "single provider hour exceeds local result budget")) := by
  have hvalid := valid_iff.mpr h.valid
  unfold subdivideOrderRange
  rw [raiseIf_of_not (not_not.mpr hvalid)]
  by_cases htotal : observedTotal < 0
  · exact .inr (.inr (.inl ⟨htotal, by rw [raiseIf_of htotal]; rfl⟩))
  rw [raiseIf_of_not htotal]
  by_cases hbudget : localResultBudget < 1
  · exact .inr (.inr (.inr (.inl ⟨hbudget, by rw [raiseIf_of hbudget]; rfl⟩)))
  rw [raiseIf_of_not hbudget]
  by_cases hfits : observedTotal ≤ localResultBudget
  · exact .inl (by rw [if_pos hfits]; rfl)
  rw [if_neg hfits]
  by_cases hone : node.hourCount = 1
  · exact .inr (.inr (.inr (.inr ⟨hone, by rw [raiseIf_of hone]; rfl⟩)))
  rw [raiseIf_of_not hone]
  have hshallow : ¬ node.depth = maxSubdivisionDepth := fun hdeepest =>
    hone (hourCount_of_maxDepth h.within h.valid.positive hdeepest)
  rw [raiseIf_of_not hshallow]
  obtain ⟨hfirst, hsecond⟩ := children_leaf digest h hone
  have hchildren : ([node.child sha256 node.dateFrom node.midpoint,
      node.child sha256 node.midpoint node.dateTo].all OrderRangeNode.valid) = true := by
    simp [valid_iff.mpr hfirst.valid, valid_iff.mpr hsecond.valid]
  exact .inr (.inl ⟨hone, by dsimp only; rw [raiseIf_of_not (not_not.mpr hchildren)]; rfl⟩)

/-- The lists of leaves that come from a root when leaves are replaced by what
`subdivide_order_range` returns for them. -/
inductive Subdivided (sha256 : String → String) (root : OrderRangeNode) :
    List OrderRangeNode → Prop
  | root : Subdivided sha256 root [root]
  | split {before after children : List OrderRangeNode} {leaf : OrderRangeNode}
      {observedTotal localResultBudget : Int}
      (tree : Subdivided sha256 root (before ++ leaf :: after))
      (h : subdivideOrderRange sha256 leaf observedTotal localResultBudget = .ok children) :
      Subdivided sha256 root (before ++ children ++ after)

/-- What replaces a leaf parts its instants and its hours, and consists of leaves. -/
theorem children_parts (digest : ∀ text, sha256 text ≠ "") (h : leaf.Leaf)
    (hchildren : subdivideOrderRange sha256 leaf observedTotal localResultBudget = .ok children) :
    (∀ child ∈ children, child.Leaf) ∧ Parts instants children leaf.instants ∧
    Parts hours children leaf.hours := by
  obtain hsame | ⟨hseveral, hhalves⟩ | ⟨-, herror⟩ | ⟨-, herror⟩ | ⟨-, herror⟩ :=
    subdivide_cases digest h observedTotal localResultBudget
  · obtain rfl := Except.ok.inj (hsame.symm.trans hchildren)
    exact ⟨by simpa using h, .single, .single⟩
  · obtain rfl := Except.ok.inj (hhalves.symm.trans hchildren)
    obtain ⟨hfirst, hsecond⟩ := children_leaf digest h hseveral
    exact ⟨by simp [hfirst, hsecond], parts_instants h.valid.positive hseveral,
      parts_hours h.valid.positive hseveral⟩
  · rw [herror] at hchildren
    cases hchildren
  · rw [herror] at hchildren
    cases hchildren
  · rw [herror] at hchildren
    cases hchildren

/-- What holds of every list of leaves. -/
theorem leaves_parts (digest : ∀ text, sha256 text ≠ "") (h : root.Leaf)
    (tree : Subdivided sha256 root leaves) :
    (∀ leaf ∈ leaves, leaf.Leaf) ∧ Parts instants leaves root.instants ∧
    Parts hours leaves root.hours := by
  induction tree with
  | root => exact ⟨by simpa using h, .single, .single⟩
  | @split before after children leaf total budget tree hchildren ih =>
      obtain ⟨hleaves, hinstants, hhours⟩ := ih
      have hleaf : leaf.Leaf := hleaves leaf (by simp)
      obtain ⟨hnew, hfiner, hfiner'⟩ := children_parts digest hleaf hchildren
      refine ⟨?_, hinstants.refine hfiner, hhours.refine hfiner'⟩
      intro node mem
      rcases List.mem_append.mp mem with mem | mem
      · rcases List.mem_append.mp mem with mem | mem
        · exact hleaves node (by simp [mem])
        · exact hnew node mem
      · exact hleaves node (by simp [mem])

/-- However the leaves of a root are subdivided: they are valid, their bounds part the bounds
of the root, the hours they ask for part those of the root, and one that is as deep as allowed
asks for one hour, so that no subdivision of a leaf runs out of depth or makes an invalid
child: it returns the leaf or two leaves, or refuses arguments or one saturated hour. -/
theorem subdivision_parts (sha256 : String → String) (digest : ∀ text, sha256 text ≠ "")
    (root : OrderRangeNode) (accepted : root.valid = true) (top : root.depth = 0)
    (leaves : List OrderRangeNode) (tree : Subdivided sha256 root leaves) :
    (∀ leaf ∈ leaves, leaf.valid = true ∧ leaf.dateFrom < leaf.dateTo) ∧
    (leaves.Pairwise fun a b => Disjoint a.instants b.instants) ∧
    {t | ∃ leaf ∈ leaves, t ∈ leaf.instants} = root.instants ∧
    (leaves.Pairwise fun a b => Disjoint a.hours b.hours) ∧
    {t | ∃ leaf ∈ leaves, t ∈ leaf.hours} = root.hours ∧
    (∀ leaf ∈ leaves, leaf.depth = maxSubdivisionDepth →
      leaf.providerHours.1 = leaf.providerHours.2) ∧
    ∀ leaf ∈ leaves, ∀ observedTotal localResultBudget,
      match subdivideOrderRange sha256 leaf observedTotal localResultBudget with
      | .ok children => (children = [leaf] ∨ children.length = 2) ∧
          ∀ child ∈ children, child.valid = true
      | .error (.value _) => observedTotal < 0 ∨ localResultBudget < 1
      | .error (.saturatedOrderHour _) => leaf.providerHours.1 = leaf.providerHours.2
      | .error (.historyLimit _) => False := by
  have hroot : root.Leaf := ⟨valid_iff.mp accepted, within_root (valid_iff.mp accepted) top⟩
  obtain ⟨hleaves, hinstants, hhours⟩ := leaves_parts digest hroot tree
  have hsingle {leaf : OrderRangeNode} (mem : leaf ∈ leaves) (hone : leaf.hourCount = 1) :
      leaf.providerHours.1 = leaf.providerHours.2 := by
    rw [(hourCount_spec (hleaves leaf mem).valid.positive).2, hone]
    omega
  refine ⟨?_, hinstants.disjoint, hinstants.union, hhours.disjoint, hhours.union, ?_, ?_⟩
  · intro leaf mem
    exact ⟨valid_iff.mpr (hleaves leaf mem).valid, (hleaves leaf mem).valid.positive⟩
  · intro leaf mem hdeepest
    have hleaf := hleaves leaf mem
    exact hsingle mem (hourCount_of_maxDepth hleaf.within hleaf.valid.positive hdeepest)
  · intro leaf mem total budget
    have hleaf := hleaves leaf mem
    obtain hcase | ⟨hseveral, hcase⟩ | ⟨htotal, hcase⟩ | ⟨hbudget, hcase⟩ | ⟨hone, hcase⟩ :=
      subdivide_cases digest hleaf total budget
    · rw [hcase]
      exact ⟨.inl rfl, by simpa using valid_iff.mpr hleaf.valid⟩
    · rw [hcase]
      obtain ⟨hfirst, hsecond⟩ := children_leaf digest hleaf hseveral
      exact ⟨.inr rfl, by simp [valid_iff.mpr hfirst.valid, valid_iff.mpr hsecond.valid]⟩
    · rw [hcase]
      exact .inl htotal
    · rw [hcase]
      exact .inr hbudget
    · rw [hcase]
      exact hsingle mem hone

end

/-! ### A month halved once -/

def monthlyChunk : OrderRangeNode where
  nodeId := "monthly-chunk"
  rootId := "monthly-chunk"
  parentId := none
  dateFrom := 1786797000000000
  dateTo := 1789475400000000
  depth := 0

/-- SHA-256 on the identities of the two halves. -/
def chunkSha256 (text : String) : String :=
  if text = "monthly-chunk\x002026-08-15T12:30:00.000000+00:00\x002026-08-31T00:00:00.000000+00:00"
  then "f44a583ce78d1772cc3c5b523e7219ec61d1ca35e5f173af6d6e7c4654f53497"
  else "2e269ca43e9d39c72c99232eeaa9d80852915a6ef78bec81dd83a2f80079e714"

def monthlyHalves : List OrderRangeNode :=
  [monthlyChunk.child chunkSha256 1786797000000000 1788134400000000,
    monthlyChunk.child chunkSha256 1788134400000000 1789475400000000]

theorem subdivision_parts_month :
    subdivideOrderRange chunkSha256 monthlyChunk 10001 10000 = .ok monthlyHalves ∧
    (monthlyHalves.map OrderRangeNode.nodeId).Nodup ∧
    (monthlyHalves.Pairwise fun a b => Disjoint a.hours b.hours) ∧
    {t | ∃ leaf ∈ monthlyHalves, t ∈ leaf.hours} = monthlyChunk.hours := by
  have hhalves : subdivideOrderRange chunkSha256 monthlyChunk 10001 10000 = .ok monthlyHalves := by
    decide +kernel
  have digest (text : String) : chunkSha256 text ≠ "" := by
    unfold chunkSha256
    split
    · decide
    · decide
  have tree : Subdivided chunkSha256 monthlyChunk monthlyHalves :=
    @Subdivided.split _ _ [] [] _ _ _ _ .root hhalves
  obtain ⟨-, -, -, happart, hunion, -⟩ := subdivision_parts chunkSha256 digest monthlyChunk
    (by decide) rfl monthlyHalves tree
  exact ⟨hhalves, by decide +kernel, happart, hunion⟩

end ZelerPlatform.Acquisition
