import ZelerPlatform.Sheets.FullDiscovery

/-!
# The plan of a discovery is searched once

However the calls are interrupted, their searches walk through the plan of a seller: every
inventory with every type, in the order in which the items hold them. The invariant relates a
checkpoint to the items that were scanned and to the place in the plan at which it stands.
-/

namespace ZelerPlatform.Sheets.Full

open Fallible Mongo Sources Sorted

/-! ### The plan -/

/-- The inventories of some items, an inventory as often as it is found. -/
def inventoriesOf (sellerId : String) (items : List Item) : List String :=
  items.flatMap fun item => itemFullInventories item.doc sellerId

/-- The different inventories of a seller, in the order in which they are found. -/
def Items.inventories (items : Items) (sellerId : String) : List String :=
  (inventoriesOf sellerId items.list).eraseDups

/-- Every inventory that is selected with every type. -/
def Items.plan (items : Items) (sellerId : String) : List (String × String) :=
  ((items.inventories sellerId).take maxInventories).flatMap fun inventory =>
    fullSearchTypes.map fun kind => (inventory, kind)

/-- The items that are left to scan. -/
def Items.left (items : Items) (sellerId : String) (itemAfter : Option String) : List Item :=
  items.list.filter fun item => item.selected sellerId && item.isAfter itemAfter

theorem compare_of_same {a b : Value} {n : Int} (ha : a.integer? = some n)
    (hb : b.integer? = some n) : a.compare b = .eq :=
  (Value.compare_integers ha hb).trans (cmp_self_eq_eq n)

theorem equalMatches_self {reached : List Value} {text : String}
    (mem : Value.string text ∈ reached) :
    Value.equalMatches reached (.string text) = true := by
  rw [Value.equalMatches, List.any_eq_true]
  exact ⟨_, mem, by simp [candidates, Value.compare]⟩

theorem sellerNumber_of_toString {sellerId : String} (numeric : isNumeric sellerId = true) {n : Int}
    (h : toString n = sellerId) : sellerNumber sellerId = n := by
  subst h
  cases n with
  | ofNat n =>
      have hstring : toString (Int.ofNat n) = n.repr := rfl
      rw [sellerNumber, hstring, Nat.toList_repr, Nat.ofDigitChars_ten_toDigits]
      rfl
  | negSucc n =>
      have hminus : '-' ∈ (toString (Int.negSucc n)).toList := by
        have hstring : toString (Int.negSucc n) = "-" ++ (n + 1).repr := rfl
        rw [hstring, String.toList_append]
        exact List.mem_append_left _ (List.mem_singleton_self _)
      rw [isNumeric, Bool.and_eq_true, List.all_eq_true] at numeric
      exact absurd (numeric.2 _ hminus) (by decide)

theorem ofSeller_of_isSeller {sellerId : String} (numeric : isNumeric sellerId = true)
    {item : Item} (h : isSeller sellerId (item.doc.getD "seller_id") = true) :
    item.ofSeller sellerId = true := by
  rw [Doc.getD] at h
  rw [Item.ofSeller, Bool.or_eq_true]
  cases hfield : item.doc.get? "seller_id" with
  | none => simp [hfield, isSeller] at h
  | some value =>
      rw [hfield, Option.getD_some] at h
      cases value with
      | string s =>
          obtain rfl : s = sellerId := of_decide_eq_true h
          left
          simp [eqMatches, candidates, Value.compare]
      | int n =>
          right
          rw [sellerNumber_of_toString numeric (of_decide_eq_true h)]
          simp [eqMatches, candidates, compare_of_same (a := .int n) (b := .int n) rfl rfl]
      | long n =>
          right
          rw [sellerNumber_of_toString numeric (of_decide_eq_true h)]
          simp [eqMatches, candidates, compare_of_same (a := .long n) (b := .int n) rfl rfl]
      | _ => cases h

/-- An item with inventories is one of those that are selected. -/
theorem selected_of_inventories {sellerId : String} (numeric : isNumeric sellerId = true)
    {item : Item} (h : itemFullInventories item.doc sellerId ≠ []) :
    item.ofSeller sellerId = true ∧ item.selected sellerId = true := by
  rw [itemFullInventories] at h
  split at h
  case h_2 => exact absurd rfl h
  case h_1 shipping hshipping =>
      split at h
      case isFalse => exact absurd rfl h
      case isTrue hboth =>
          have hseller := ofSeller_of_isSeller numeric hboth.1
          refine ⟨hseller, ?_⟩
          rw [Item.selected, hseller, Bool.true_and]
          refine equalMatches_self ?_
          have hfield : item.doc.lookup "shipping" = some (.document shipping) := by
            rw [Doc.getD] at hshipping
            cases hget : item.doc.get? "shipping" with
            | none => simp [hget] at hshipping
            | some value => rw [hget, Option.getD_some] at hshipping; rw [← hshipping]; exact hget
          have hkind : shipping.lookup "logistic_type" = some (.string "fulfillment") := by
            have hboth := hboth.2
            rw [Doc.getD] at hboth
            cases hget : Doc.get? shipping "logistic_type" with
            | none => simp [hget] at hboth
            | some value => rw [hget, Option.getD_some] at hboth; rw [← hboth]; exact hget
          rw [Value.reach, hfield, Option.elim_some, Value.reach, hkind, Option.elim_some,
            Value.reach]
          exact List.mem_singleton_self _

/-- The items that are selected have all the inventories. -/
theorem inventoriesOf_selected {sellerId : String} (numeric : isNumeric sellerId = true)
    (items : List Item) : inventoriesOf sellerId (items.filter (·.selected sellerId)) =
      inventoriesOf sellerId items := by
  induction items with
  | nil => rfl
  | cons item rest ih =>
      rw [List.filter_cons]
      split
      case isTrue => rw [inventoriesOf, List.flatMap_cons, ← inventoriesOf, ih]; rfl
      case isFalse hnot =>
          have hnone : itemFullInventories item.doc sellerId = [] := by
            by_contra h
            exact hnot (selected_of_inventories numeric h).2
          rw [ih, inventoriesOf, inventoriesOf, List.flatMap_cons, hnone, List.nil_append]

/-! ### Selection -/

def limitIssue : Issue := ⟨"inventory_selection_limit", none⟩

/-- A scan has the first inventories of some list, behind those of the pages before. -/
structure Scan.Holds (found before : List String) (scan : Scan) : Prop where
  seen : scan.seen.Perm (firsts maxInventories found)
  targets : firsts maxInventories found = before ++ scan.targets.map Target.inventoryId
  counted : scan.base.Counted
  limit : scan.base.Recorded limitIssue ∨ found.eraseDups.length ≤ maxInventories

theorem Scan.Holds.full {found before : List String} {scan : Scan} (h : scan.Holds found before)
    (full : scan.seen.length = maxInventories) :
    (firsts maxInventories found).length = maxInventories := h.seen.length_eq ▸ full

/-- What the inventories of an item change. -/
theorem Scan.Holds.inventories {found before : List String} {scan : Scan}
    (h : scan.Holds found before) (itemId : String) (inventories : List String) :
    (scan.inventories itemId inventories).Holds (found ++ inventories) before ∧
      scan.base.Noted (scan.inventories itemId inventories).base ∧
      (scan.inventories itemId inventories).itemAfter = scan.itemAfter ∧
      (∀ target ∈ (scan.inventories itemId inventories).targets, target ∈ scan.targets ∨
        target.itemId = itemId ∧ target.inventoryId ∈ inventories) ∧
      ((scan.inventories itemId inventories).scanComplete = scan.scanComplete ∨
        (scan.inventories itemId inventories).scanComplete = true ∧
          (firsts maxInventories (found ++ inventories)).length = maxInventories ∧
          (scan.inventories itemId inventories).base.Recorded limitIssue) := by
  induction inventories generalizing found scan with
  | nil =>
      rw [List.append_nil]
      exact ⟨h, .refl _, rfl, fun _ mem => .inl mem, .inl rfl⟩
  | cons inventory rest ih =>
      have happend : found ++ inventory :: rest = (found ++ [inventory]) ++ rest := by simp
      rw [Scan.inventories, happend]
      split
      case isTrue mem =>
          have mem' := h.seen.mem_iff.mp mem
          have hsame := firsts_concat_of_mem mem'
          have hholds : scan.Holds (found ++ [inventory]) before := by
            refine ⟨hsame ▸ h.seen, hsame ▸ h.targets, h.counted, h.limit.imp_right fun hle => ?_⟩
            rwa [eraseDups_concat,
              if_pos (List.mem_eraseDups.mp (List.mem_of_mem_take mem'))]
          obtain ⟨h₁, h₂, h₃, h₄, h₅⟩ := ih hholds
          refine ⟨h₁, h₂, h₃, fun target mem => (h₄ target mem).imp_right fun hnew => ?_, h₅⟩
          exact ⟨hnew.1, List.mem_cons_of_mem _ hnew.2⟩
      case isFalse hnew =>
          split
          case isTrue hfull =>
              have hall := h.full hfull
              rw [← happend]
              have hsame := firsts_of_full hall (inventory :: rest)
              have hrecorded := SourceState.recorded_pend h.counted "inventory_selection_limit" none
              refine ⟨⟨hsame ▸ h.seen, hsame ▸ h.targets, h.counted.pend _ _, .inl hrecorded⟩,
                SourceState.noted_pend _ _ _, rfl, fun _ mem => .inl mem, .inr ⟨rfl, ?_, hrecorded⟩⟩
              rw [hsame, hall]
          case isFalse hshort =>
              have hnew' : inventory ∉ firsts maxInventories found :=
                fun mem => hnew (h.seen.mem_iff.mpr mem)
              have hlt : (firsts maxInventories found).length < maxInventories := by
                have hle : (firsts maxInventories found).length ≤ maxInventories :=
                  List.length_take_le _ _
                have := h.seen.length_eq
                omega
              have hsame := firsts_concat_of_not_mem hnew' hlt
              have hholds : Scan.Holds (found ++ [inventory]) before { scan with
                  seen := scan.seen ++ [inventory]
                  targets := scan.targets ++ [⟨itemId, inventory⟩] } := by
                refine ⟨?_, ?_, h.counted, .inr ?_⟩
                · rw [hsame]
                  exact h.seen.append_right _
                · rw [hsame, h.targets]
                  simp
                · have hall := firsts_of_length_lt hlt
                  rw [hall] at hlt hnew'
                  rw [List.mem_eraseDups] at hnew'
                  rw [eraseDups_concat, if_neg hnew', List.length_append]
                  exact hlt
              obtain ⟨h₁, h₂, h₃, h₄, h₅⟩ := ih hholds
              refine ⟨h₁, h₂, h₃, fun target mem => ?_, h₅⟩
              obtain mem | hnew := h₄ target mem
              · obtain mem | heq := List.mem_append.mp mem
                · exact .inl mem
                · obtain rfl := List.mem_singleton.mp heq
                  exact .inr ⟨rfl, List.mem_cons_self⟩
              · exact .inr ⟨hnew.1, List.mem_cons_of_mem _ hnew.2⟩

theorem identifier_eq_some {value : Value} {text : String} (h : identifier value = some text) :
    text = identityText value ∧ isIdentifier text = true := by
  rw [identifier] at h
  split at h
  case isTrue => cases h
  case isFalse hgood =>
      obtain rfl := Option.some_inj.mp h
      refine ⟨rfl, ?_⟩
      rw [isIdentifier, identifier]
      exact congrArg Option.isSome (if_neg hgood)

theorem isIdentifier_of_mem {item : Doc} {sellerId inventory : String}
    (mem : inventory ∈ itemFullInventories item sellerId) : isIdentifier inventory = true := by
  rw [itemFullInventories] at mem
  split at mem
  case h_2 => cases mem
  case h_1 =>
      split at mem
      case isFalse => cases mem
      case isTrue =>
          rw [List.mem_eraseDups] at mem
          obtain ⟨resource, -, hresource⟩ := List.mem_filterMap.mp mem
          split at hresource
          · exact (identifier_eq_some hresource).2
          · cases hresource

/-- What the items of a page change. -/
theorem Scan.Holds.items {sellerId : String} {scanned page : List Item} {before : List String}
    {scan next : Scan} (h : scan.Holds (inventoriesOf sellerId scanned) before)
    (heq : Scan.items sellerId page scan = .ok next) :
    next.Holds (inventoriesOf sellerId (scanned ++ page)) before ∧
      scan.base.Noted next.base ∧
      next.itemAfter = (page.getLast?.map Item.id).or scan.itemAfter ∧
      (∀ item ∈ page, isIdentifier item.id = true) ∧
      (∀ target ∈ next.targets, target ∈ scan.targets ∨ ∃ item ∈ page,
        target.itemId = item.id ∧ target.inventoryId ∈ itemFullInventories item.doc sellerId) ∧
      (next.scanComplete = scan.scanComplete ∨ next.scanComplete = true ∧
        (firsts maxInventories (inventoriesOf sellerId (scanned ++ page))).length =
          maxInventories ∧ next.base.Recorded limitIssue) := by
  induction page generalizing scanned scan with
  | nil =>
      obtain rfl : scan = next := Except.ok.inj heq
      rw [List.append_nil]
      exact ⟨h, .refl _, rfl, by simp, fun _ mem => .inl mem, .inl rfl⟩
  | cons item rest ih =>
      have happend : scanned ++ item :: rest = (scanned ++ [item]) ++ rest := by simp
      rw [Scan.items] at heq
      split at heq
      case h_1 => cases heq
      case h_2 itemId hid =>
          obtain ⟨rfl, hidentifier⟩ : itemId = item.id ∧ isIdentifier itemId = true :=
            identifier_eq_some hid
          have hstart : Scan.Holds (inventoriesOf sellerId scanned) before
              { scan with itemAfter := some item.id } :=
            ⟨h.seen, h.targets, h.counted, h.limit⟩
          obtain ⟨h₁, h₂, h₃, h₄, h₅⟩ :=
            hstart.inventories item.id (itemFullInventories item.doc sellerId)
          have hfound : inventoriesOf sellerId (scanned ++ [item]) =
              inventoriesOf sellerId scanned ++ itemFullInventories item.doc sellerId := by
            simp [inventoriesOf]
          rw [← hfound] at h₁ h₅
          obtain ⟨k₁, k₂, k₃, k₄, k₅, k₆⟩ := ih h₁ heq
          rw [happend]
          refine ⟨k₁, h₂.trans k₂, ?_, ?_, fun target mem => ?_, ?_⟩
          · rw [k₃, h₃, List.getLast?_cons]
            cases rest.getLast? <;> rfl
          · rintro item' (_ | ⟨_, mem⟩)
            · exact hidentifier
            · exact k₄ item' mem
          · obtain mem | ⟨item', hitem', hnew⟩ := k₅ target mem
            · obtain mem | hnew := h₄ target mem
              · exact .inl mem
              · exact .inr ⟨item, List.mem_cons_self, hnew⟩
            · exact .inr ⟨item', List.mem_cons_of_mem _ hitem', hnew⟩
          · obtain hsame | hfull := k₆
            · obtain hsame' | ⟨hcomplete, hfull, hrecorded⟩ := h₅
              · exact .inl (hsame.trans hsame')
              · refine .inr ⟨hsame.trans hcomplete, ?_, k₂.recorded _ hrecorded⟩
                have hmore : inventoriesOf sellerId (scanned ++ [item] ++ rest) =
                    inventoriesOf sellerId (scanned ++ [item]) ++ inventoriesOf sellerId rest := by
                  simp [inventoriesOf]
                rw [hmore, firsts_of_full hfull, hfull]
            · exact .inr hfull

/-! ### Checkpoints -/

/-- A pair of a list of pairs, by the places of its parts. -/
theorem getElem?_pairs {α β : Type} (xs : List α) {ys : List β} {k j : Nat} (hj : j < ys.length) :
    (xs.flatMap fun x => ys.map fun y => (x, y))[ys.length * k + j]? =
      xs[k]?.map fun x => (x, ys[j]) := by
  induction xs generalizing k with
  | nil => simp
  | cons x rest ih =>
      rw [List.flatMap_cons]
      cases k with
      | zero =>
          rw [Nat.mul_zero, Nat.zero_add, List.getElem?_append_left (by simpa using hj)]
          simp [hj]
      | succ k =>
          have hshift : ys.length * (k + 1) + j = (ys.map fun y => (x, y)).length +
              (ys.length * k + j) := by
            rw [List.length_map, Nat.mul_succ]
            omega
          rw [hshift, List.getElem?_append_right (by omega), Nat.add_sub_cancel_left, ih,
            List.getElem?_cons_succ]

theorem length_pairs {α β : Type} (xs : List α) (ys : List β) :
    (xs.flatMap fun x => ys.map fun y => (x, y)).length = ys.length * xs.length := by
  induction xs with
  | nil => rfl
  | cons x rest ih =>
      rw [List.flatMap_cons, List.length_append, ih, List.length_map, List.length_cons,
        Nat.mul_succ, Nat.add_comm]

/-- A first part of the selected items was scanned, and targets are its last inventories. -/
structure Scanned (items : Items) (sellerId : String) (state : FullState)
    (scanned rest : List Item) (before : List String) : Prop where
  numeric : isNumeric sellerId = true
  seller : state.sellerId = sellerId
  versioned : state.versioned = true
  split : items.list.filter (·.selected sellerId) = scanned ++ rest
  after : state.itemAfter = scanned.getLast?.map Item.id
  named : ∀ item ∈ scanned, isIdentifier item.id = true
  seen : state.seen.Perm (firsts maxInventories (inventoriesOf sellerId scanned))
  targets : firsts maxInventories (inventoriesOf sellerId scanned) =
    before ++ state.targets.map Target.inventoryId
  owned : ∀ target ∈ state.targets, ∃ item ∈ scanned,
    target.itemId = item.id ∧ target.inventoryId ∈ itemFullInventories item.doc sellerId
  counted : state.toSourceState.Counted
  limit : state.toSourceState.Recorded limitIssue ∨
    (inventoriesOf sellerId scanned).eraseDups.length ≤ maxInventories
  scanComplete : state.scanComplete = true →
    firsts maxInventories (inventoriesOf sellerId scanned) =
        firsts maxInventories (inventoriesOf sellerId items.list) ∧
      (state.toSourceState.Recorded limitIssue ∨ rest = [])

/-- A checkpoint after some searches, those for the inventories of the pages before it over. -/
structure Inv (items : Items) (sellerId : String) (searches : List Search) (state : FullState)
    (scanned rest : List Item) (before : List String) : Prop
    extends Scanned items sellerId state scanned rest before where
  index : state.inventoryIndex ≤ state.targets.length
  kind : state.typeIndex < fullSearchTypes.length
  atEnd : state.inventoryIndex = state.targets.length → state.typeIndex = 0
  complete : state.discoveryComplete = true → state.exhausted = true
  walk : Walk.Walks (items.plan sellerId) searches
    (fullSearchTypes.length * (before.length + state.inventoryIndex) + state.typeIndex) state.scroll

section

variable {items : Items} {sellerId : String} {searches : List Search} {state next : FullState}
variable {scanned rest : List Item} {before : List String}

namespace Scanned

theorem congr (h : Scanned items sellerId state scanned rest before)
    (seller : next.sellerId = state.sellerId) (versioned : next.versioned = state.versioned)
    (after : next.itemAfter = state.itemAfter) (seen : next.seen = state.seen)
    (targets : next.targets = state.targets) (scanComplete : next.scanComplete = state.scanComplete)
    (counted : state.toSourceState.Counted → next.toSourceState.Counted)
    (recorded : ∀ issue, state.toSourceState.Recorded issue → next.toSourceState.Recorded issue) :
    Scanned items sellerId next scanned rest before where
  numeric := h.numeric
  seller := seller.trans h.seller
  versioned := versioned.trans h.versioned
  split := h.split
  after := after.trans h.after
  named := h.named
  seen := seen ▸ h.seen
  targets := targets ▸ h.targets
  owned := targets ▸ h.owned
  counted := counted h.counted
  limit := h.limit.imp_left (recorded _)
  scanComplete hscan :=
    (h.scanComplete (scanComplete ▸ hscan)).imp_right (Or.imp_left (recorded _))

/-- The last search for a target was made. -/
theorem advance (h : Scanned items sellerId state scanned rest before)
    (hlt : state.inventoryIndex < state.targets.length)
    (walk : Walk.Walks (items.plan sellerId) searches
      (fullSearchTypes.length * (before.length + (state.inventoryIndex + 1))) none) :
    Inv items sellerId searches state.advance scanned rest before where
  toScanned := h.congr rfl rfl rfl rfl rfl rfl (fun h => ⟨h.few, h.all⟩) fun _ h => h
  index := hlt
  kind := Nat.zero_lt_succ _
  atEnd _ := rfl
  complete h := h
  walk := walk

end Scanned

namespace Inv

theorem prefix_inventories (h : Inv items sellerId searches state scanned rest before) :
    firsts maxInventories (inventoriesOf sellerId scanned) <+:
      (items.inventories sellerId).take maxInventories := by
  have hall : inventoriesOf sellerId items.list =
      inventoriesOf sellerId scanned ++ inventoriesOf sellerId rest := by
    rw [← inventoriesOf_selected h.numeric, h.split]
    simp [inventoriesOf]
  have hprefix := firsts_prefix maxInventories (inventoriesOf sellerId scanned)
    (inventoriesOf sellerId rest)
  rw [← hall] at hprefix
  exact hprefix

/-- The pair that is searched next. -/
theorem current (h : Inv items sellerId searches state scanned rest before)
    (hlt : state.inventoryIndex < state.targets.length) {kind : String}
    (hkind : fullSearchTypes[state.typeIndex]? = some kind) :
    (items.plan sellerId)[fullSearchTypes.length * (before.length + state.inventoryIndex) +
      state.typeIndex]? = some (state.targets[state.inventoryIndex].inventoryId, kind) := by
  have hget : ((items.inventories sellerId).take maxInventories)[before.length +
      state.inventoryIndex]? = some state.targets[state.inventoryIndex].inventoryId := by
    obtain ⟨others, hothers⟩ := h.prefix_inventories
    have hlength : before.length + state.inventoryIndex <
        (before ++ state.targets.map Target.inventoryId).length := by
      rw [List.length_append, List.length_map]
      omega
    rw [← hothers, h.targets, List.getElem?_append_left hlength,
      List.getElem?_append_right (by omega), Nat.add_sub_cancel_left, List.getElem?_map,
      List.getElem?_eq_getElem hlt, Option.map_some]
  obtain ⟨hlt', heq⟩ := List.getElem?_eq_some_iff.mp hkind
  rw [Items.plan, getElem?_pairs _ hlt', hget, Option.map_some, heq]

/-- The item of a target has its inventory still. -/
theorem owns (h : Inv items sellerId searches state scanned rest before) {target : Target}
    (mem : target ∈ state.targets) : state.owns items target = true := by
  obtain ⟨item, hitem, hid, hinventory⟩ := h.owned target mem
  have hlist : item ∈ items.list ∧ item.selected sellerId = true := by
    rw [← List.mem_filter, h.split]
    exact List.mem_append_left _ hitem
  have hseller : item.ofSeller sellerId = true :=
    (selected_of_inventories h.numeric (List.ne_nil_of_mem hinventory)).1
  have hfind : items.list.find? (fun item => item.id = target.itemId &&
      item.ofSeller state.sellerId) = some item := by
    have hsome : (items.list.find? fun item => item.id = target.itemId &&
        item.ofSeller state.sellerId).isSome = true := by
      rw [List.find?_isSome]
      exact ⟨item, hlist.1, by simp [hid, h.seller, hseller]⟩
    obtain ⟨found, hfound⟩ := Option.isSome_iff_exists.mp hsome
    have hsame : found.id = item.id := by
      have := List.find?_some hfound
      rw [Bool.and_eq_true, decide_eq_true_eq] at this
      exact this.1.trans hid
    have honce : (items.list.map Item.id).Nodup := by
      rw [List.Nodup, List.pairwise_map]
      exact items.ascending.imp fun h => h.ne
    rw [hfound, List.inj_on_of_nodup_map honce (List.mem_of_find?_eq_some hfound) hlist.1 hsame]
  rw [FullState.owns, hfind, Option.any_some, h.seller]
  exact decide_eq_true hinventory

theorem noted (h : Inv items sellerId searches state scanned rest before)
    (noted : state.Noted next) : Inv items sellerId searches next scanned rest before := by
  obtain ⟨base, rfl, hbase⟩ := noted
  refine ⟨h.toScanned.congr hbase.sellerId rfl rfl rfl rfl rfl hbase.counted hbase.recorded,
    h.index, ?_, fun hend => ?_, fun hcomplete => ?_, ?_⟩
  · exact hbase.typeIndex ▸ h.kind
  · exact hbase.typeIndex.trans (h.atEnd hend)
  · exact h.complete (hbase.discoveryComplete.symm.trans hcomplete)
  · exact hbase.typeIndex ▸ h.walk

theorem sent_own (state : FullState) : state.sent = none ∨ state.sent = state.scroll := by
  rw [FullState.sent]
  cases state.scroll with
  | none => exact .inl rfl
  | some scroll =>
      rw [Option.filter_some]
      split
      · exact .inr rfl
      · exact .inl rfl

/-- A page ends a search, or hands on a scroll. -/
theorem afterPage (h : Inv items sellerId searches state scanned rest before)
    (hlt : state.inventoryIndex < state.targets.length) {kind : String}
    (hkind : fullSearchTypes[state.typeIndex]? = some kind) (now : Int) (scroll : Option String) :
    Inv items sellerId (searches ++ [⟨(state.targets[state.inventoryIndex].inventoryId, kind),
      state.sent, pageAnswer scroll⟩]) (state.afterPage now scroll) scanned rest before := by
  have hcurrent := h.current hlt hkind
  have hcongr {next : FullState} (base : next.toSourceState = { state.toSourceState with
        typeIndex := next.typeIndex }) (versioned : next.versioned = state.versioned)
      (after : next.itemAfter = state.itemAfter) (seen : next.seen = state.seen)
      (targets : next.targets = state.targets)
      (scanComplete : next.scanComplete = state.scanComplete) :
      Scanned items sellerId next scanned rest before := by
    refine h.toScanned.congr ?_ versioned after seen targets scanComplete (fun h => ?_)
      fun _ h => ?_
    · rw [base]
    · rw [base]
      exact ⟨h.few, h.all⟩
    · rw [base]
      exact h
  cases scroll with
  | some token =>
      exact ⟨hcongr rfl rfl rfl rfl rfl rfl, h.index, h.kind, h.atEnd, h.complete,
        .more token h.walk hcurrent (sent_own state)⟩
  | none =>
      have hended := Walk.Walks.ended h.walk hcurrent (sent_own state)
      have hkind' := h.kind
      rw [FullState.afterPage]
      dsimp only
      split
      case isTrue hlast =>
          refine Scanned.advance (hcongr rfl rfl rfl rfl rfl rfl) hlt ?_
          have hplace : fullSearchTypes.length * (before.length + state.inventoryIndex) +
              state.typeIndex + 1 =
                fullSearchTypes.length * (before.length + (state.inventoryIndex + 1)) := by
            have hlast' : state.typeIndex + 1 = fullSearchTypes.length := hlast
            rw [← Nat.add_assoc, Nat.mul_succ]
            omega
          exact hplace ▸ hended
      case isFalse hmore =>
          refine ⟨hcongr rfl rfl rfl rfl rfl rfl, h.index, ?_, fun hend => ?_, h.complete, hended⟩
          · exact lt_of_le_of_ne hkind' hmore
          · simp only at hend
            omega

/-- A search that failed leaves the checkpoint where it was. -/
theorem stop {texts : Texts} {call : Call} {requests : Nat} {blocked : String} {search : Search}
    (h : Inv items sellerId searches state scanned rest before)
    (hlt : state.inventoryIndex < state.targets.length)
    (heq : turn texts items call requests state.targets[state.inventoryIndex] state =
      .ok (.stop next blocked search)) :
    Inv items sellerId (searches ++ [search]) next scanned rest before := by
  have hfailed {kind : String} (hkind : fullSearchTypes[state.typeIndex]? = some kind)
      (error : Option String) : Inv items sellerId
        (searches ++
          [⟨(state.targets[state.inventoryIndex].inventoryId, kind), state.sent, .failed⟩])
        { state with lastError := error } scanned rest before :=
    ⟨h.toScanned.congr rfl rfl rfl rfl rfl rfl (fun h => ⟨h.few, h.all⟩) fun _ h => h, h.index,
      h.kind, h.atEnd, h.complete, .failed h.walk (h.current hlt hkind) (sent_own state)⟩
  rw [turn, if_neg (by simp [h.owns (List.getElem_mem hlt)])] at heq
  split at heq
  case h_2 => cases heq
  case h_1 kind hkind =>
      rw [ask] at heq
      split at heq
      case h_1 code _ =>
          obtain ⟨rfl, -, rfl⟩ : _ = next ∧ _ = blocked ∧ _ = search := by
            simpa only [Except.ok.injEq, Turn.stop.injEq] using heq
          exact hfailed hkind _
      case h_2 =>
          obtain ⟨rfl, -, rfl⟩ : _ = next ∧ _ = blocked ∧ _ = search := by
            simpa only [Except.ok.injEq, Turn.stop.injEq] using heq
          exact hfailed hkind _
      case h_3 => cases heq
      case h_4 =>
          split at heq
          case h_1 =>
              obtain ⟨rfl, -, rfl⟩ : _ = next ∧ _ = blocked ∧ _ = search := by
                simpa only [Except.ok.injEq, Turn.stop.injEq] using heq
              exact hfailed hkind _
          case h_2 => split at heq <;> cases heq

/-- The loop goes on after a search for its target. -/
theorem again {texts : Texts} {call : Call} {requests : Nat} {search : Option Search}
    (h : Inv items sellerId searches state scanned rest before)
    (hlt : state.inventoryIndex < state.targets.length)
    (heq : turn texts items call requests state.targets[state.inventoryIndex] state =
      .ok (.again next search)) :
    ∃ made, search = some made ∧
      Inv items sellerId (searches ++ [made]) next scanned rest before := by
  obtain ⟨hnot, -, -⟩ | ⟨kind, applied, scroll, hkind, hnoted, rfl, rfl⟩ := turn_again heq
  · rw [h.owns (List.getElem_mem hlt)] at hnot
    cases hnot
  · refine ⟨_, rfl, ?_⟩
    have happlied := h.noted hnoted
    obtain ⟨base, rfl, hbase⟩ := hnoted
    exact happlied.afterPage hlt (hbase.typeIndex.symm ▸ hkind) call.now scroll

theorem loop {texts : Texts} {call : Call} {requests : Nat} {result : Returned}
    {prior : List Search}
    (h : Inv items sellerId (prior ++ searches) state scanned rest before)
    (heq : Full.loop texts items call requests searches state = .ok result) :
    Inv items sellerId (prior ++ result.searches) result.checkpoint scanned rest before ∧
      (∃ requests blocked,
        result.report = report result.checkpoint.toSourceState requests blocked) ∧
      (searches ≠ [] ∨ state.inventoryIndex < state.targets.length ∧ requests < call.maxRequests →
        result.searches ≠ []) := by
  fun_induction Full.loop texts items call requests searches state with
  | case1 requests searches state hmore error _ => cases heq
  | case2 requests searches state hmore next blocked search hturn =>
      obtain rfl := Except.ok.inj heq
      have hstop := h.stop hmore.1 hturn
      rw [List.append_assoc] at hstop
      exact ⟨hstop, ⟨_, _, rfl⟩, fun _ => by simp [returned]⟩
  | case3 requests searches state hmore next hturn ih =>
      obtain ⟨made, hnone, -⟩ := h.again hmore.1 hturn
      cases hnone
  | case4 requests searches state hmore next search hturn ih =>
      obtain ⟨made, hsome, hinv⟩ := h.again hmore.1 hturn
      obtain rfl := Option.some_inj.mp hsome
      rw [List.append_assoc] at hinv
      obtain ⟨hinv', hreport, hsearches⟩ := ih hinv heq
      exact ⟨hinv', hreport, fun _ => hsearches (.inl (by simp))⟩
  | case5 requests searches state hdone =>
      obtain rfl := Except.ok.inj heq
      exact ⟨h, ⟨_, _, rfl⟩, fun hsome => hsome.resolve_right hdone⟩

/-- A forgotten scroll is a forgotten token. -/
theorem expire (h : Inv items sellerId searches state scanned rest before) (now : Int) :
    Inv items sellerId searches (state.expire now) scanned rest before := by
  rw [FullState.expire]
  split
  case h_2 => exact h
  case h_1 =>
      split
      case isFalse => exact h
      case isTrue =>
          exact ⟨h.toScanned.congr rfl rfl rfl rfl rfl rfl (fun h => h) fun _ h => h, h.index,
            h.kind, h.atEnd, h.complete, h.walk.forget⟩

/-- What the query for the next page finds. -/
theorem rows (h : Inv items sellerId searches state scanned rest before) :
    items.list.filter (fun item => item.selected state.sellerId && item.isAfter state.itemAfter) =
      rest := by
  have hordered : (scanned ++ rest).Pairwise fun a b => a.id < b.id := by
    rw [← h.split]
    exact items.ascending.sublist List.filter_sublist
  rw [List.pairwise_append] at hordered
  have hsplit : items.list.filter (fun item => item.selected state.sellerId &&
      item.isAfter state.itemAfter) = (scanned ++ rest).filter (·.isAfter state.itemAfter) := by
    rw [← h.split, List.filter_filter, h.seller]
    exact List.filter_congr fun item _ => Bool.and_comm _ _
  rw [hsplit, h.after, List.filter_append]
  cases hlast : scanned.getLast? with
  | none =>
      rw [List.getLast?_eq_none_iff.mp hlast]
      simp [Item.isAfter]
  | some last =>
      have mem : last ∈ scanned := List.mem_of_getLast? hlast
      have hne : last.id ≠ "" := by
        intro hempty
        have := h.named last mem
        rw [hempty] at this
        exact absurd this (by decide)
      have hafter (item : Item) : item.isAfter (some last.id) = decide (last.id < item.id) := by
        simp [Item.isAfter, hne]
      have hscanned : scanned.filter (fun item => item.isAfter (some last.id)) = [] := by
        rw [List.filter_eq_nil_iff]
        intro item hitem
        rw [hafter, decide_eq_true_eq, not_lt]
        obtain ⟨others, hothers⟩ := List.getLast?_eq_some_iff.mp hlast
        rw [hothers, List.mem_append, List.mem_singleton] at hitem
        cases hitem with
        | inl hitem =>
            have hbefore := hordered.1
            rw [hothers, List.pairwise_append] at hbefore
            exact (hbefore.2.2 item hitem last (List.mem_singleton_self _)).le
        | inr heq => exact heq ▸ le_rfl
      have hrest : rest.filter (fun item => item.isAfter (some last.id)) = rest := by
        rw [List.filter_eq_self]
        intro item hitem
        rw [hafter, decide_eq_true_eq]
        exact hordered.2.2 last mem item hitem
      rw [Option.map_some, hscanned, hrest, List.nil_append]

/-- The next page of items, and its targets. -/
theorem select (h : Inv items sellerId searches state scanned rest before)
    (done : state.inventoryIndex = state.targets.length)
    (heq : selectFullInventoryPage items state = .ok next) :
    Inv items sellerId searches { next with discoveryComplete := next.exhausted }
        (scanned ++ rest.take itemPageSize) (rest.drop itemPageSize)
        (before ++ state.targets.map Target.inventoryId) ∧
      next.inventoryIndex = 0 ∧ (next.scanComplete = false → itemPageSize < rest.length) := by
  obtain ⟨scan, hscan, hnext⟩ := bind_ok heq
  obtain rfl := Except.ok.inj hnext
  rw [h.rows, h.seller, List.take_take, min_eq_left (Nat.le_succ _)] at hscan
  have hholds : Scan.Holds (inventoriesOf sellerId scanned)
      (before ++ state.targets.map Target.inventoryId)
      ⟨state.toSourceState, ((rest.take (itemPageSize + 1)).length ≤ itemPageSize),
        state.itemAfter, [], state.seen⟩ :=
    ⟨h.seen, by rw [h.targets, List.map_nil, List.append_nil], h.counted, h.limit⟩
  obtain ⟨h₁, h₂, h₃, h₄, h₅, h₆⟩ := hholds.items hscan
  have hlength : (rest.take (itemPageSize + 1)).length ≤ itemPageSize ↔
      rest.length ≤ itemPageSize := by
    rw [List.length_take]
    omega
  have hall : inventoriesOf sellerId items.list =
      inventoriesOf sellerId (scanned ++ rest.take itemPageSize) ++
        inventoriesOf sellerId (rest.drop itemPageSize) := by
    have hsplit : scanned ++ rest = (scanned ++ rest.take itemPageSize) ++
        rest.drop itemPageSize := by rw [List.append_assoc, List.take_append_drop]
    rw [← inventoriesOf_selected h.numeric, h.split, hsplit]
    exact List.flatMap_append
  refine ⟨?_, rfl, ?_⟩
  · refine ⟨⟨h.numeric, h₂.sellerId.trans h.seller, h.versioned, ?_, ?_, ?_,
      (sortedBy_perm id scan.seen).trans h₁.seen, h₁.targets, ?_, ⟨h₁.counted.few, h₁.counted.all⟩,
      h₁.limit, ?_⟩, Nat.zero_le _, Nat.zero_lt_succ _, fun _ => rfl, fun h => h, ?_⟩
    · rw [h.split, List.append_assoc, List.take_append_drop]
    · rw [h₃, h.after, List.getLast?_append, Option.map_or]
    · intro item mem
      exact (List.mem_append.mp mem).elim (h.named item) (h₄ item)
    · intro target mem
      obtain mem | ⟨item, hitem, hnew⟩ := h₅ target mem
      · cases mem
      · exact ⟨item, List.mem_append_right _ hitem, hnew⟩
    · intro hcomplete
      obtain hsame | ⟨-, hfull, hrecorded⟩ := h₆
      · have hshort : rest.length ≤ itemPageSize :=
          hlength.mp (of_decide_eq_true (hsame.symm.trans hcomplete))
        have hnone := List.drop_eq_nil_of_le hshort
        refine ⟨?_, .inr hnone⟩
        rw [hall, hnone]
        simp [inventoriesOf]
      · refine ⟨?_, .inl hrecorded⟩
        rw [hall, firsts_of_full hfull]
    · have hwalk := h.walk
      have hplace : fullSearchTypes.length * (before.length + state.inventoryIndex) +
          state.typeIndex = fullSearchTypes.length *
            ((before ++ state.targets.map Target.inventoryId).length + 0) + 0 := by
        rw [h.atEnd done, List.length_append, List.length_map, done]
        rfl
      exact hplace ▸ hwalk
  · intro hmore
    obtain hsame | ⟨hcomplete, -⟩ := h₆
    · by_contra hshort
      have hcomplete := decide_eq_true (hlength.mpr (not_lt.mp hshort))
      exact Bool.false_ne_true (hmore.symm.trans (hsame.trans hcomplete))
    · exact (Bool.false_ne_true (hmore.symm.trans hcomplete)).elim

/-- New targets, or fewer items that are left. -/
theorem refill (h : Inv items sellerId searches state scanned rest before)
    (done : state.inventoryIndex = state.targets.length) (heq : state.refill items = .ok next) :
    ∃ scanned rest before, Inv items sellerId searches
        { next with discoveryComplete := next.exhausted } scanned rest before ∧
      (next.targets ≠ [] → next.exhausted = false →
        next.inventoryIndex < next.targets.length) ∧
      (next.targets = [] → next.exhausted = false →
        (items.left sellerId next.itemAfter).length + itemPageSize ≤
          (items.left sellerId state.itemAfter).length) := by
  rw [FullState.refill] at heq
  split at heq
  case isTrue hcomplete =>
      obtain rfl := Except.ok.inj heq
      have hexhausted : state.exhausted = true := by
        rw [FullState.exhausted, done, hcomplete]
        simp
      refine ⟨scanned, rest, before, ⟨h.toScanned.congr rfl rfl rfl rfl rfl rfl
        (fun h => ⟨h.few, h.all⟩) fun _ h => h, h.index, h.kind, h.atEnd, fun h => h, h.walk⟩,
        ?_, ?_⟩
      · exact fun _ hnot => (Bool.false_ne_true (hnot.symm.trans hexhausted)).elim
      · exact fun _ hnot => (Bool.false_ne_true (hnot.symm.trans hexhausted)).elim
  case isFalse =>
      obtain ⟨hselected, hzero, hfewer⟩ := h.select done heq
      refine ⟨_, _, _, hselected, fun hne _ => ?_, fun hnil hnot => ?_⟩
      · rw [hzero]
        exact List.length_pos_of_ne_nil hne
      · have hscan : next.scanComplete = false := by
          rw [FullState.exhausted, hzero, hnil] at hnot
          simpa using hnot
        have hafter := hselected.rows
        have hbefore := h.rows
        rw [h.seller] at hbefore
        rw [hselected.seller] at hafter
        have hlength := hfewer hscan
        rw [Items.left, Items.left, hbefore, hafter, List.length_drop]
        omega

/-- A checkpoint that was returned is accepted again. -/
theorem accepted (h : Inv items sellerId searches state scanned rest before) :
    fullInventoryCheckpoint state = .ok state := by
  have hmigrated : state.migrated = state := by
    rw [FullState.migrated, if_pos h.versioned]
  have hfound (inventory : String)
      (mem : inventory ∈ firsts maxInventories (inventoriesOf sellerId scanned)) :
      isIdentifier inventory = true := by
    obtain ⟨item, -, hinventory⟩ :=
      List.mem_flatMap.mp (List.mem_eraseDups.mp (List.mem_of_mem_take mem))
    exact isIdentifier_of_mem hinventory
  have hfew : (firsts maxInventories (inventoriesOf sellerId scanned)).length ≤ maxInventories :=
    List.length_take_le _ _
  have hseen := h.seen.length_eq
  have htargets := congrArg List.length h.targets
  rw [List.length_append, List.length_map] at htargets
  have hindex := h.index
  rw [fullInventoryCheckpoint, hmigrated, if_neg (by omega), if_pos]
  rw [Bool.and_eq_true, Bool.and_eq_true, List.all_eq_true, List.all_eq_true]
  refine ⟨⟨fun target mem => ?_, fun inventory mem => ?_⟩, ?_⟩
  · obtain ⟨item, hitem, hid, hinventory⟩ := h.owned target mem
    rw [hid, h.named item hitem, isIdentifier_of_mem hinventory]
    rfl
  · exact hfound inventory (h.seen.mem_iff.mp mem)
  · rw [h.after]
    cases hlast : scanned.getLast? with
    | none => rfl
    | some last => exact h.named last (List.mem_of_getLast? hlast)

/-- With more inventories than can be selected the scan is over only after that was recorded. -/
theorem limited (h : Inv items sellerId searches state scanned rest before)
    (many : maxInventories < (items.inventories sellerId).length)
    (complete : state.scanComplete = true) : state.toSourceState.Recorded limitIssue := by
  obtain ⟨-, hrecorded | hnone⟩ := h.scanComplete complete
  · exact hrecorded
  · refine h.limit.resolve_right (not_le.mpr (lt_of_lt_of_eq many ?_))
    rw [Items.inventories, ← inventoriesOf_selected h.numeric, h.split, hnone, List.append_nil]

/-- When the discovery is complete the plan was searched. -/
theorem plan_of_complete (h : Inv items sellerId searches state scanned rest before)
    (complete : state.discoveryComplete = true) :
    Walk.endedTasks searches = items.plan sellerId := by
  have hexhausted := h.complete complete
  rw [FullState.exhausted, Bool.and_eq_true, decide_eq_true_eq] at hexhausted
  obtain ⟨hend, hscan⟩ := hexhausted
  have hall := congrArg List.length (h.targets.symm.trans (h.scanComplete hscan).1)
  rw [List.length_append, List.length_map] at hall
  rw [h.walk.endedTasks_eq, h.atEnd hend, hend, Nat.add_zero, hall]
  refine List.take_of_length_le ?_
  rw [Items.plan, length_pairs]
  exact le_rfl

end Inv

/-! ### Calls -/

/-- What holds of the checkpoint and the searches of some calls. -/
def Progress.Holds (items : Items) (sellerId : String) (checkpoint : Option FullState)
    (searches : List Search) : Prop :=
  match checkpoint with
  | none => searches = []
  | some state => ∃ scanned rest before, Inv items sellerId searches state scanned rest before

/-- What a state that is accepted knows of its seller and of the checkpoint before it. -/
theorem sourceState_ok {source : String} {start stop : Int} {checkpoint : Option SourceState}
    {base : SourceState} (h : sourceState sellerId source start stop checkpoint = .ok base) :
    isNumeric sellerId = true ∧ base.sellerId = sellerId ∧
      (checkpoint = none → base = ⟨sellerId, source, start, stop, 0, 0, 0, [], 0, 0, false, none⟩) ∧
      ∀ state, checkpoint = some state → base = { state with lastError := none } := by
  rw [sourceState.eq_def] at h
  split at h
  case isTrue => cases h
  case isFalse hnumeric =>
      split at h
      case isTrue => cases h
      case isFalse =>
          refine ⟨by simpa using hnumeric, ?_⟩
          split at h
          case h_1 =>
              obtain rfl := Except.ok.inj h
              exact ⟨rfl, fun _ => rfl, by simp⟩
          case h_2 state =>
              split at h
              case isTrue => cases h
              case isFalse hsame =>
                  split at h
                  case isTrue => cases h
                  case isFalse =>
                      obtain rfl := Except.ok.inj h
                      rw [not_not] at hsame
                      exact ⟨congrArg Prod.fst hsame, by simp, by simp⟩

/-- A state that is accepted is one that a checkpoint left, or a fresh one. -/
theorem accepted_inv {start stop : Int} {checkpoint : Option FullState} {accepted : FullState}
    (h : Progress.Holds items sellerId checkpoint searches)
    (hstate : fullState sellerId start stop checkpoint = .ok state)
    (haccepted : fullInventoryCheckpoint state = .ok accepted) :
    ∃ scanned rest before, Inv items sellerId searches accepted scanned rest before ∧
      accepted.itemAfter = checkpoint.bind FullState.itemAfter := by
  cases checkpoint with
  | none =>
      obtain rfl : searches = [] := h
      obtain ⟨base, hbase, hstate⟩ := bind_ok hstate
      obtain rfl := Except.ok.inj hstate
      obtain ⟨hnumeric, -, hfresh, -⟩ := sourceState_ok hbase
      obtain rfl := hfresh rfl
      obtain rfl : _ = accepted := Except.ok.inj haccepted
      refine ⟨[], items.list.filter (·.selected sellerId), [], ⟨⟨hnumeric, rfl, rfl, rfl, rfl,
        by simp, .refl _, rfl, ?_, ⟨Nat.zero_le _, rfl⟩, .inr (Nat.zero_le _), ?_⟩, le_rfl,
        Nat.zero_lt_succ _, fun _ => rfl, ?_, .start⟩, rfl⟩
      · simp [FullState.migrated]
      · simp [FullState.migrated]
      · simp [FullState.migrated]
  | some state =>
      obtain ⟨scanned, rest, before, hinv⟩ := h
      obtain ⟨base, hbase, hstate⟩ := bind_ok hstate
      obtain rfl := Except.ok.inj hstate
      obtain ⟨-, -, -, hsame⟩ := sourceState_ok hbase
      obtain rfl := hsame _ rfl
      have hnext : Inv items sellerId searches { state with lastError := none } scanned rest
          before :=
        ⟨hinv.toScanned.congr rfl rfl rfl rfl rfl rfl (fun h => ⟨h.few, h.all⟩) fun _ h => h,
          hinv.index, hinv.kind, hinv.atEnd, hinv.complete, hinv.walk⟩
      obtain rfl := Except.ok.inj (hnext.accepted.symm.trans haccepted)
      exact ⟨scanned, rest, before, hnext, rfl⟩

/-- What a call that returns makes of its checkpoint. -/
theorem collect_holds {texts : Texts} {start stop : Int} {checkpoint : Option FullState}
    {call : Call} {result : Returned} (h : Progress.Holds items sellerId checkpoint searches)
    (heq : collectFullOperations texts items sellerId start stop checkpoint call = .ok result) :
    Progress.Holds items sellerId (some result.checkpoint) (searches ++ result.searches) ∧
      (∃ requests blocked,
        result.report = report result.checkpoint.toSourceState requests blocked) ∧
      (result.searches ≠ [] ∨ result.checkpoint.discoveryComplete = true ∨
        (items.left sellerId result.checkpoint.itemAfter).length + itemPageSize ≤
          (items.left sellerId (checkpoint.bind FullState.itemAfter)).length) := by
  rw [collectFullOperations] at heq
  obtain ⟨_, hbudget, heq⟩ := bind_ok heq
  obtain ⟨state, hstate, heq⟩ := bind_ok heq
  obtain ⟨-, -, heq⟩ := bind_ok heq
  obtain ⟨accepted, haccepted, heq⟩ := bind_ok heq
  obtain ⟨scanned, rest, before, hinv, hafter⟩ := accepted_inv h hstate haccepted
  have hpositive : 0 < call.maxRequests := by
    by_contra hzero
    have hraises : ¬ (1 ≤ call.maxRequests ∧ call.maxRequests ≤ 100 ∧ 1 ≤ call.pageSize ∧
        call.pageSize ≤ 1000) := by omega
    simp only [raiseIf, if_pos hraises] at hbudget
    cases hbudget
  have hloop {begun : FullState} {scanned rest : List Item} {before : List String}
      (hbegun : Inv items sellerId searches begun scanned rest before)
      (hlt : begun.inventoryIndex < begun.targets.length)
      (hend : loop texts items call 0 [] begun = .ok result) :
      Progress.Holds items sellerId (some result.checkpoint) (searches ++ result.searches) ∧
        (∃ requests blocked,
          result.report = report result.checkpoint.toSourceState requests blocked) ∧
        result.searches ≠ [] := by
    rw [← List.append_nil searches] at hbegun
    obtain ⟨hinv', hreport, hsearches⟩ := hbegun.loop hend
    exact ⟨⟨scanned, rest, before, hinv'⟩, hreport, hsearches (.inr ⟨hlt, hpositive⟩)⟩
  have hexpire (state : FullState) : (state.expire call.now).inventoryIndex = state.inventoryIndex ∧
      (state.expire call.now).targets = state.targets := by
    rw [FullState.expire]
    split
    · split <;> exact ⟨rfl, rfl⟩
    · exact ⟨rfl, rfl⟩
  rw [FullState.proceed] at heq
  split at heq
  case isFalse hmore =>
      have hlt := lt_of_le_of_ne hinv.index hmore
      rw [← (hexpire accepted).1, ← (hexpire accepted).2] at hlt
      obtain ⟨hholds, hreport, hsearches⟩ := hloop (hinv.expire call.now) hlt heq
      exact ⟨hholds, hreport, .inl hsearches⟩
  case isTrue hend =>
      obtain ⟨next, hnext, heq⟩ := bind_ok heq
      obtain ⟨scanned', rest', before', hselected, hmore, hfewer⟩ := hinv.refill hend hnext
      dsimp only at heq
      split at heq
      case isTrue hdone =>
          obtain rfl := Except.ok.inj heq
          rw [returned, List.append_nil]
          refine ⟨⟨_, _, _, hselected⟩, ⟨_, _, rfl⟩, .inr ?_⟩
          cases hexhausted : next.exhausted with
          | true => exact .inl rfl
          | false =>
              rw [hexhausted] at hdone
              have htargets := hdone.resolve_left Bool.false_ne_true
              rw [← hafter]
              exact .inr (hfewer htargets hexhausted)
      case isFalse hnot =>
          rw [not_or, Bool.not_eq_true] at hnot
          have hlt : ({ next with discoveryComplete := next.exhausted }.expire
              call.now).inventoryIndex < ({ next with
                discoveryComplete := next.exhausted }.expire call.now).targets.length := by
            rw [(hexpire _).1, (hexpire _).2]
            exact hmore hnot.2 hnot.1
          obtain ⟨hholds, hreport, hsearches⟩ := hloop (hselected.expire call.now) hlt heq
          exact ⟨hholds, hreport, .inl hsearches⟩

theorem nodup_plan (items : Items) (sellerId : String) : (items.plan sellerId).Nodup :=
  List.Nodup.product nodup_firsts (by decide)

theorem mem_plan (few : (items.inventories sellerId).length ≤ maxInventories)
    {inventory kind : String}
    (hinventory : inventory ∈ items.inventories sellerId) (hkind : kind ∈ fullSearchTypes) :
    (inventory, kind) ∈ items.plan sellerId := by
  rw [Items.plan, List.take_of_length_le few, List.mem_flatMap]
  exact ⟨inventory, hinventory, List.mem_map_of_mem hkind⟩

/-- What the calls that returned have searched, however they were interrupted. -/
structure Discovered (texts : Texts) (items : Items) (sellerId : String) (start stop : Int)
    (progress : Progress) : Prop where
  /-- The plan holds every inventory with every type, unless there are too many. -/
  plan : (items.inventories sellerId).length ≤ maxInventories →
    ∀ inventory ∈ items.inventories sellerId, ∀ kind ∈ fullSearchTypes,
      (inventory, kind) ∈ items.plan sellerId
  planned : ∀ search ∈ progress.searches, search.task ∈ items.plan sellerId
  /-- The searches that ended are those for a first part of the plan, in its order. -/
  ended : ∃ n, Walk.endedTasks progress.searches = (items.plan sellerId).take n
  once : progress.searches.Pairwise fun a b => a.answer = .ended → b.task ≠ a.task
  /-- A scroll comes from a page of the same search. -/
  scrolls : ∀ search ∈ progress.searches, ∀ scroll, search.token = some scroll →
    ∃ page ∈ progress.searches, page.task = search.task ∧ page.answer = .more scroll
  complete : ∀ state, progress.checkpoint = some state → state.discoveryComplete = true →
    Walk.endedTasks progress.searches = items.plan sellerId
  indices : ∀ state, progress.checkpoint = some state →
    state.inventoryIndex ≤ state.targets.length ∧ state.typeIndex < fullSearchTypes.length
  accepted : ∀ state, progress.checkpoint = some state → fullInventoryCheckpoint state = .ok state
  /-- Of too many inventories an issue is made before the discovery is complete. -/
  limited : maxInventories < (items.inventories sellerId).length →
    (∀ state, progress.checkpoint = some state → state.discoveryComplete = true →
      state.toSourceState.Recorded limitIssue) ∧
    ∀ report, progress.report = some report → report.coverageComplete = false
  /-- The next call that returns has made a search, unless there was none to make. -/
  goesOn : ∀ call result, collectFullOperations texts items sellerId start stop
      progress.checkpoint call = .ok result →
    result.searches ≠ [] ∨ result.checkpoint.discoveryComplete = true ∨
      (items.left sellerId result.checkpoint.itemAfter).length + itemPageSize ≤
        (items.left sellerId (progress.checkpoint.bind FullState.itemAfter)).length

/-- The report of the last call is one of its checkpoint. -/
def Progress.Reported (progress : Progress) : Prop :=
  ∀ last, progress.report = some last → ∃ state requests blocked,
    progress.checkpoint = some state ∧ last = Sources.report state.toSourceState requests blocked

theorem resume_holds (texts : Texts) (items : Items) (sellerId : String) (start stop : Int)
    (calls : List Call) {progress : Progress}
    (holds : Progress.Holds items sellerId progress.checkpoint progress.searches)
    (reported : progress.Reported) :
    Progress.Holds items sellerId
        (calls.foldl (Progress.resume texts items sellerId start stop) progress).checkpoint
        (calls.foldl (Progress.resume texts items sellerId start stop) progress).searches ∧
      (calls.foldl (Progress.resume texts items sellerId start stop) progress).Reported := by
  induction calls generalizing progress with
  | nil => exact ⟨holds, reported⟩
  | cons call rest ih =>
      rw [List.foldl_cons]
      cases hcall : collectFullOperations texts items sellerId start stop progress.checkpoint
          call with
      | error error =>
          have hsame : progress.resume texts items sellerId start stop call = progress := by
            rw [Progress.resume, hcall]
          rw [hsame]
          exact ih holds reported
      | ok result =>
          have hnext : progress.resume texts items sellerId start stop call =
              ⟨some result.checkpoint, progress.searches ++ result.searches,
                some result.report⟩ := by
            rw [Progress.resume, hcall]
          obtain ⟨hholds, ⟨requests, blocked, hreport⟩, -⟩ := collect_holds holds hcall
          rw [hnext]
          refine ih hholds fun last hlast => ?_
          obtain rfl : result.report = last := Option.some_inj.mp hlast
          exact ⟨result.checkpoint, requests, blocked, rfl, hreport⟩

end

end ZelerPlatform.Sheets.Full
