import ZelerPlatform.Library.Joined
import ZelerPlatform.Recovery.Job
import ZelerPlatform.Recovery.Queue

/-!
# Keys of requests for publications

The text of a key joins its parts with NUL characters. What the constructors accept of the
texts in a request is enough for the text to name a request for publications: no other
request has the same.
-/

namespace ZelerPlatform.Recovery

/-! ### What the constructors accept -/

/-- `re.fullmatch(r"[0-9]+", text)`. -/
def isNumeric (text : String) : Bool :=
  !text.isEmpty && text.toList.all fun c => decide ('0' ≤ c ∧ c ≤ '9')

/-- `re.fullmatch(r"[0-9a-f]{64}", text)`. -/
def isSourceHash (text : String) : Bool :=
  text.length = 64 && text.toList.all fun c => decide ('0' ≤ c ∧ c ≤ '9' ∨ 'a' ≤ c ∧ c ≤ 'f')

namespace Request

/-- What the constructors check of the texts that go into a key. -/
def accepted : Request → Bool
  | range .. => true
  | yearHistory .. => true
  | questionScan seller .. => isNumeric seller
  | orderHistory seller .. => isNumeric seller
  | orderIds _ ids => !ids.isEmpty && ids.all isNumeric
  | modifiedOrderIds _ orderId modification => isNumeric orderId && isSourceHash modification.hash
  | shipmentIds _ ids => !ids.isEmpty && ids.all isNumeric
  | itemIds seller _ ids => isNumeric seller && !ids.isEmpty && ids.all isPublicationId
  | catalogProductIds seller ids => isNumeric seller && !ids.isEmpty && ids.all isPublicationId
  | catalog seller _ ids => isNumeric seller && !ids.isEmpty && ids.all isPublicationId
  | renewal seller _ ids _ => isNumeric seller && !ids.isEmpty && ids.all isPublicationId
  | inventory seller => isNumeric seller

end Request

/-- A request for publications that admission may narrow and that is not a renewal. -/
inductive ForPublications : Request → List String → Prop
  | itemIds (seller : String) {model : ReadModel} (ids : List String)
      (narrowed : model = .itemFormulaRows ∨ model = .catalogBuyboxSnapshots) :
      ForPublications (.itemIds seller model ids) ids
  | catalog (seller : String) {model : ReadModel} (ids : List String)
      (narrowed : model = .itemFormulaRows ∨ model = .catalogBuyboxSnapshots) :
      ForPublications (.catalog seller model ids) ids

/-! ### Keys name requests -/

/-- A character that neither separates the parts of a key nor stands in a date. -/
def isPlain (c : Char) : Prop := c ≠ nul ∧ c ≠ ':'

theorem isPlain_of_digit {c : Char} (h : '0' ≤ c ∧ c ≤ '9') : isPlain c := by
  constructor
  · rintro rfl
    exact absurd h (by decide)
  · rintro rfl
    exact absurd h (by decide)

theorem digits_of_isNumeric {text : String} (h : isNumeric text = true) :
    ∀ c ∈ text.toList, '0' ≤ c ∧ c ≤ '9' := by
  simp only [isNumeric, Bool.and_eq_true, List.all_eq_true, decide_eq_true_eq] at h
  exact h.2

theorem isPlain_of_isNumeric {text : String} (h : isNumeric text = true) :
    ∀ c ∈ text.toList, isPlain c :=
  fun c mem => isPlain_of_digit (digits_of_isNumeric h c mem)

theorem unmarked_of_isNumeric {text : String} (h : isNumeric text = true) :
    nul ∉ text.toList ∧ 'M' ∉ text.toList := by
  constructor
  · intro mem
    exact absurd (digits_of_isNumeric h _ mem) (by decide)
  · intro mem
    exact absurd (digits_of_isNumeric h _ mem) (by decide)

theorem unmarked_of_isSourceHash {text : String} (h : isSourceHash text = true) :
    nul ∉ text.toList ∧ 'M' ∉ text.toList := by
  simp only [isSourceHash, Bool.and_eq_true, List.all_eq_true, decide_eq_true_eq] at h
  constructor
  · intro mem
    exact absurd (h.2 _ mem) (by decide)
  · intro mem
    exact absurd (h.2 _ mem) (by decide)

/-- A publication ID is marked by its first letter and has no separator. -/
theorem marked_of_isPublicationId {text : String} (h : isPublicationId text = true) :
    'M' ∈ text.toList ∧ ∀ c ∈ text.toList, isPlain c := by
  rw [isPublicationId.eq_def] at h
  split at h
  next site digits htext =>
    simp only [Bool.and_eq_true, decide_eq_true_eq, List.all_eq_true] at h
    obtain ⟨⟨hsite, -⟩, hdigits⟩ := h
    rw [htext]
    refine ⟨List.mem_cons_self, fun c mem => ?_⟩
    simp only [List.mem_cons] at mem
    obtain rfl | rfl | rfl | mem := mem
    · exact ⟨by decide, by decide⟩
    · exact ⟨by decide, by decide⟩
    · constructor
      · rintro rfl
        exact absurd hsite (by decide)
      · rintro rfl
        exact absurd hsite (by decide)
    · exact isPlain_of_digit (hdigits c mem)
  · cases h

/-- The last separator splits a text in one way. -/
theorem last_separator {x y z w : List Char} (h : x ++ nul :: z = y ++ nul :: w) (hz : nul ∉ z)
    (hw : nul ∉ w) : z = w := by
  have hreverse : z.reverse ++ nul :: x.reverse = w.reverse ++ nul :: y.reverse := by
    simpa using congrArg List.reverse h
  have hcount : z.reverse.count nul = w.reverse.count nul := by
    rw [List.count_eq_zero.mpr (by simpa using hz), List.count_eq_zero.mpr (by simpa using hw)]
  exact List.reverse_injective (Joined.append_cons_inj hreverse hcount).1

/-- The text of a key, as its parts joined. -/
theorem keyText_intercalate (request : Request) :
    request.keyText.toList =
      [nul].intercalate (request.sellerId.toList :: request.identity.map String.toList) := by
  rw [keyText_toList]
  generalize request.sellerId.toList = first
  induction request.identity generalizing first with
  | nil => simp
  | cons part rest ih =>
      rw [List.flatMap_cons, List.map_cons, List.intercalate_cons_cons, ← ih, List.append_assoc,
        List.cons_append]
      rfl

/-- The text of a key ends with its last part. -/
theorem keyText_last {request : Request} {front : List String} {last : String}
    (h : request.identity = front ++ [last]) :
    ∃ before, request.keyText.toList = before ++ nul :: last.toList := by
  refine ⟨request.sellerId.toList ++ front.flatMap fun part => nul :: part.toList, ?_⟩
  rw [keyText_toList, h, List.flatMap_append, List.append_assoc]
  simp

theorem isPlain_of_all {text : List Char} (h : text.all (fun c => c != nul && c != ':') = true) :
    ∀ c ∈ text, isPlain c := by
  intro c mem
  have hc := List.all_eq_true.mp h c mem
  rw [Bool.and_eq_true, bne_iff_ne, bne_iff_ne] at hc
  exact hc

theorem isPlain_of_modelText (model : ReadModel) : ∀ c ∈ model.text.toList, isPlain c :=
  isPlain_of_all (by cases model <;> decide)

theorem modelText_inj {model model' : ReadModel} (h : model.text = model'.text) : model = model' := by
  cases model <;> cases model' <;> first | rfl | exact absurd h (by decide)

/-- The part of a key that says which kind of request for publications it is of. -/
def Request.kind : Request → String
  | .catalog .. => "catalog_intent"
  | _ => "ids"

variable {request request' : Request} {ids ids' : List String}

theorem ForPublications.identity (h : ForPublications request ids) :
    request.identity = request.readModel.text :: request.kind :: ids := by
  cases h <;> rfl

theorem ForPublications.accepted_iff (h : ForPublications request ids) :
    request.accepted = (isNumeric request.sellerId && !ids.isEmpty && ids.all isPublicationId) := by
  cases h <;> rfl

theorem ForPublications.narrowed (h : ForPublications request ids) :
    request.readModel = .itemFormulaRows ∨ request.readModel = .catalogBuyboxSnapshots := by
  cases h <;> assumption

theorem ForPublications.kind_plain (h : ForPublications request ids) :
    ∀ c ∈ request.kind.toList, isPlain c := by
  cases h with
  | itemIds =>
      have hids : ∀ c ∈ "ids".toList, isPlain c := isPlain_of_all (by decide)
      exact hids
  | catalog =>
      have hcatalog : ∀ c ∈ "catalog_intent".toList, isPlain c := isPlain_of_all (by decide)
      exact hcatalog

/-- All parts of the key of a request for publications are plain. -/
theorem ForPublications.plain (h : ForPublications request ids) (accepted : request.accepted = true) :
    ∀ part ∈ request.sellerId.toList :: request.identity.map String.toList,
      ∀ c ∈ part, isPlain c := by
  rw [h.accepted_iff] at accepted
  simp only [Bool.and_eq_true, List.all_eq_true] at accepted
  obtain ⟨⟨hseller, -⟩, hids⟩ := accepted
  rw [h.identity]
  intro part mem
  simp only [List.map_cons, List.mem_cons, List.mem_map] at mem
  obtain rfl | rfl | rfl | ⟨identity, hidentity, rfl⟩ := mem
  · exact isPlain_of_isNumeric hseller
  · exact isPlain_of_modelText _
  · exact h.kind_plain
  · exact (marked_of_isPublicationId (hids identity hidentity)).2

theorem ForPublications.no_colon (h : ForPublications request ids)
    (accepted : request.accepted = true) : ':' ∉ request.keyText.toList := by
  rw [keyText_toList, List.mem_append, List.mem_flatMap]
  rintro (mem | ⟨part, hpart, mem⟩)
  · exact (h.plain accepted _ List.mem_cons_self _ mem).2 rfl
  · obtain hnul | mem := List.mem_cons.mp mem
    · exact absurd hnul (by decide)
    · exact (h.plain accepted _ (List.mem_cons_of_mem _ (List.mem_map_of_mem hpart)) _ mem).2 rfl

/-- The key of a request for publications ends with a publication. -/
theorem ForPublications.ends (h : ForPublications request ids)
    (accepted : request.accepted = true) :
    ∃ before last, request.keyText.toList = before ++ nul :: last ∧ 'M' ∈ last ∧ nul ∉ last := by
  rw [h.accepted_iff] at accepted
  simp only [Bool.and_eq_true, List.all_eq_true, Bool.not_eq_true', List.isEmpty_eq_false_iff]
    at accepted
  obtain ⟨⟨-, hne⟩, hids⟩ := accepted
  obtain ⟨hmark, hplain⟩ := marked_of_isPublicationId (hids _ (List.getLast_mem hne))
  have hlast : request.identity =
      (request.readModel.text :: request.kind :: ids.dropLast) ++ [ids.getLast hne] := by
    rw [h.identity, List.cons_append, List.cons_append, List.dropLast_concat_getLast]
  obtain ⟨before, htext⟩ := keyText_last hlast
  exact ⟨before, _, htext, hmark, fun mem => (hplain _ mem).1 rfl⟩

/-- A key that ends with a number or a hash is not of a request for publications. -/
theorem ForPublications.ne_of_ends (h : ForPublications request ids)
    (accepted : request.accepted = true) {front : List String} {last : String}
    (identity : request'.identity = front ++ [last])
    (unmarked : nul ∉ last.toList ∧ 'M' ∉ last.toList) : request.keyText ≠ request'.keyText := by
  intro same
  obtain ⟨before, last', htext, hmark, hplain⟩ := h.ends accepted
  obtain ⟨before', htext'⟩ := keyText_last identity
  rw [same, htext'] at htext
  exact unmarked.2 (last_separator htext unmarked.1 hplain ▸ hmark)

theorem ForPublications.ne_of_colon (h : ForPublications request ids)
    (accepted : request.accepted = true) (part : String) (mem : part ∈ request'.identity)
    (colon : ':' ∈ part.toList) : request.keyText ≠ request'.keyText := by
  intro same
  refine h.no_colon accepted ?_
  rw [same, keyText_toList, List.mem_append, List.mem_flatMap]
  exact .inr ⟨part, mem, List.mem_cons_of_mem _ colon⟩

/-- Keys with plain parts are equal only if their parts are. -/
theorem ForPublications.parts_of_plain (h : ForPublications request ids)
    (accepted : request.accepted = true)
    (plain : ∀ part ∈ request'.sellerId.toList :: request'.identity.map String.toList,
      nul ∉ part) (same : request.keyText = request'.keyText) :
    request.sellerId = request'.sellerId ∧
      request'.identity = request.readModel.text :: request.kind :: ids := by
  have htext := congrArg String.toList same
  rw [keyText_intercalate, keyText_intercalate] at htext
  have hparts := Joined.intercalate_plain_inj htext (List.cons_ne_nil _ _) (List.cons_ne_nil _ _)
    (fun part mem hnul => (h.plain accepted part mem _ hnul).1 rfl) plain
  obtain ⟨hseller, hidentity⟩ := List.cons.inj hparts
  rw [← h.identity]
  exact ⟨String.toList_injective hseller,
    (List.map_injective_iff.mpr (fun _ _ h => String.toList_injective h) hidentity).symm⟩

theorem colon_mem_isoformat (t : Time) : ':' ∈ (isoformat t).toList := by
  have hzone : ':' ∈ "+00:00".toList := by decide
  rw [isoformat]
  simp only [String.toList_append, List.mem_append]
  exact .inr hzone

theorem colon_mem_scopeId (dateFrom dateTo : Time) :
    ':' ∈ (Request.scopeId dateFrom dateTo).toList := by
  simp [Request.scopeId]

/-- A key made like those of requests for publications is equal to one only with its parts. -/
theorem ForPublications.parts_of_publications (h : ForPublications request ids)
    (accepted : request.accepted = true) (same : request.keyText = request'.keyText)
    {model : ReadModel} {second : String} (hseller : isNumeric request'.sellerId = true)
    (identity : request'.identity = model.text :: second :: ids')
    (hids : ∀ identity ∈ ids', isPublicationId identity = true) (hsecond : nul ∉ second.toList) :
    request'.sellerId = request.sellerId ∧ model = request.readModel ∧ second = request.kind ∧
      ids' = ids := by
  have hplain : ∀ part ∈ request'.sellerId.toList :: request'.identity.map String.toList,
      nul ∉ part := by
    rw [identity]
    intro part mem
    simp only [List.map_cons, List.mem_cons, List.mem_map] at mem
    obtain rfl | rfl | rfl | ⟨identity, hidentity, rfl⟩ := mem
    · exact fun hnul => (isPlain_of_isNumeric hseller _ hnul).1 rfl
    · exact fun hnul => (isPlain_of_modelText model _ hnul).1 rfl
    · exact hsecond
    · exact fun hnul => ((marked_of_isPublicationId (hids identity hidentity)).2 _ hnul).1 rfl
  obtain ⟨hsame, hparts⟩ := h.parts_of_plain accepted hplain same
  rw [identity] at hparts
  obtain ⟨hmodel, hrest⟩ := List.cons.inj hparts
  obtain ⟨hkind, hids⟩ := List.cons.inj hrest
  exact ⟨hsame.symm, modelText_inj hmodel, hkind, hids⟩

theorem ForPublications.kind_cases (h : ForPublications request ids) :
    request.kind = "ids" ∨ request.kind = "catalog_intent" := by
  cases h with
  | itemIds => exact .inl rfl
  | catalog => exact .inr rfl

/-- A key of numbers alone is not of a request for publications. -/
theorem ForPublications.ne_of_numbers (h : ForPublications request ids)
    (accepted : request.accepted = true) {first second : String} {numbers : List String}
    (identity : request'.identity = first :: second :: numbers)
    (numeric : (!numbers.isEmpty && numbers.all isNumeric) = true) :
    request.keyText ≠ request'.keyText := by
  simp only [Bool.and_eq_true, List.all_eq_true, Bool.not_eq_true', List.isEmpty_eq_false_iff]
    at numeric
  obtain ⟨hne, hnumeric⟩ := numeric
  have hlast : request'.identity =
      (first :: second :: numbers.dropLast) ++ [numbers.getLast hne] := by
    rw [identity, List.cons_append, List.cons_append, List.dropLast_concat_getLast]
  exact h.ne_of_ends accepted hlast (unmarked_of_isNumeric (hnumeric _ (List.getLast_mem hne)))

/-- A scan of questions goes on with the name of another read model after the seller. -/
theorem ForPublications.ne_of_questions (h : ForPublications request ids)
    (accepted : request.accepted = true) {rest : List String}
    (hseller : isNumeric request'.sellerId = true)
    (identity : request'.identity = "questions" :: rest) (some_rest : rest ≠ []) :
    request.keyText ≠ request'.keyText := by
  intro same
  have hcount {text : List Char} (plain : ∀ c ∈ text, isPlain c) : text.count nul = 0 :=
    List.count_eq_zero.mpr fun mem => (plain _ mem).1 rfl
  have hplain := h.plain accepted
  rw [h.identity] at hplain
  obtain ⟨next, rest, rfl⟩ := List.exists_cons_of_ne_nil some_rest
  have htext := congrArg String.toList same
  rw [keyText_toList, keyText_toList, h.identity, identity] at htext
  simp only [List.flatMap_cons, List.cons_append] at htext
  obtain ⟨-, htext⟩ := Joined.append_cons_inj htext
    ((hcount (hplain _ List.mem_cons_self)).trans (hcount (isPlain_of_isNumeric hseller)).symm)
  have hmodel : request.readModel.text.toList.count nul = 0 := hcount (isPlain_of_modelText _)
  obtain ⟨hname, -⟩ := Joined.append_cons_inj htext (hmodel.trans (by decide))
  obtain hrows | hbuybox := h.narrowed
  · rw [hrows] at hname
    exact absurd hname (by decide)
  · rw [hbuybox] at hname
    exact absurd hname (by decide)

/-- The text of a key tells a request for publications from every other request. -/
theorem ForPublications.eq_of_keyText (h : ForPublications request ids)
    (accepted : request.accepted = true) (accepted' : request'.accepted = true)
    (same : request.keyText = request'.keyText) : request' = request := by
  cases request' with
  | range _ _ dateFrom _ =>
      exact absurd same (h.ne_of_colon accepted (isoformat dateFrom)
        (by simp [Request.identity]) (colon_mem_isoformat _))
  | yearHistory _ _ dateFrom _ =>
      exact absurd same (h.ne_of_colon accepted (isoformat dateFrom)
        (by simp [Request.identity]) (colon_mem_isoformat _))
  | renewal _ _ _ slot =>
      exact absurd same (h.ne_of_colon accepted (isoformat slot)
        (by simp [Request.identity]) (colon_mem_isoformat _))
  | orderHistory _ _ dateFrom dateTo =>
      exact absurd same (h.ne_of_colon accepted (Request.scopeId dateFrom dateTo)
        (by simp [Request.identity]) (colon_mem_scopeId _ _))
  | orderIds seller numbers => exact absurd same (h.ne_of_numbers accepted rfl accepted')
  | shipmentIds seller numbers => exact absurd same (h.ne_of_numbers accepted rfl accepted')
  | modifiedOrderIds seller orderId modification =>
      simp only [Request.accepted, Bool.and_eq_true] at accepted'
      have hlast : (Request.modifiedOrderIds seller orderId modification).identity =
        ["orders", "modified", orderId, modification.version] ++ [modification.hash] := rfl
      exact absurd same (h.ne_of_ends accepted hlast (unmarked_of_isSourceHash accepted'.2))
  | questionScan =>
      exact absurd same (h.ne_of_questions accepted accepted' rfl (List.cons_ne_nil _ _))
  | inventory seller =>
      have hidentity : (Request.inventory seller).identity =
        ReadModel.itemFormulaRows.text :: "inventory" :: [] := rfl
      obtain ⟨-, -, hkind, -⟩ :=
        h.parts_of_publications accepted same accepted' hidentity (by simp) (by decide)
      obtain hids | hcatalog := h.kind_cases
      · exact absurd (hkind.trans hids) (by decide)
      · exact absurd (hkind.trans hcatalog) (by decide)
  | catalogProductIds seller products =>
      have hidentity : (Request.catalogProductIds seller products).identity =
        ReadModel.catalogProductSnapshots.text :: "products" :: products := rfl
      simp only [Request.accepted, Bool.and_eq_true, List.all_eq_true] at accepted'
      obtain ⟨-, hmodel, -, -⟩ := h.parts_of_publications accepted same accepted'.1.1 hidentity
        accepted'.2 (by decide)
      obtain hrows | hbuybox := h.narrowed
      · cases hmodel.trans hrows
      · cases hmodel.trans hbuybox
  | itemIds seller model publications =>
      simp only [Request.accepted, Bool.and_eq_true, List.all_eq_true] at accepted'
      obtain ⟨hseller, rfl, hkind, rfl⟩ := h.parts_of_publications accepted same accepted'.1.1 rfl
        accepted'.2 (by decide)
      cases h with
      | itemIds =>
          obtain rfl : seller = _ := hseller
          rfl
      | catalog => exact absurd (show "ids" = "catalog_intent" from hkind) (by decide)
  | catalog seller model publications =>
      simp only [Request.accepted, Bool.and_eq_true, List.all_eq_true] at accepted'
      obtain ⟨hseller, rfl, hkind, rfl⟩ := h.parts_of_publications accepted same accepted'.1.1 rfl
        accepted'.2 (by decide)
      cases h with
      | itemIds => exact absurd (show "catalog_intent" = "ids" from hkind) (by decide)
      | catalog =>
          obtain rfl : seller = _ := hseller
          rfl

end ZelerPlatform.Recovery
