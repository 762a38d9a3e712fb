import ZelerPlatform.Publicador.Ownership

/-!
# Published once

A call that works on a draft alone, and that begins on one not published yet, publishes it at
most once and records what it published. Where every call begins so, the marketplace accepts
one POST of `/items` for a draft and for a batch item, an item gets one draft, and a draft once
recorded as published stays so.
-/

namespace ZelerPlatform.Publicador

open Transition

section

variable {ι : Type} [DecidableEq ι] {start : Store ι} {i : ι}

/-! ### Assertions -/

/-- An assertion that neither the others nor writes elsewhere break. -/
structure Local (start : Store ι) (i : ι) (P : Store ι → Prop) : Prop where
  stable : (frame start i).Stable P
  agrees : ∀ s t, Agrees s t → P s → P t

/-- An assertion that no step breaks. -/
def Growing (R : Store ι → Prop) : Prop := ∀ s t, Grows s t → R s → R t

theorem Growing.local {R : Store ι → Prop} (h : Growing R) : Local start i R where
  stable s t hrely := h s t hrely.2.1
  agrees s t hagrees := h s t (hagrees.guar : (frame start i).guar s t).2.1

theorem Growing.guar {R : Store ι → Prop} (h : Growing R) (s t : Store ι)
    (hguar : (frame start i).guar s t) : R s → R t := h s t hguar.2.1

theorem Local.and {P R : Store ι → Prop} (hP : Local start i P) (hR : Local start i R) :
    Local start i fun s => P s ∧ R s where
  stable := hP.stable.and hR.stable
  agrees s t h := fun ⟨hp, hr⟩ => ⟨hP.agrees s t h hp, hR.agrees s t h hr⟩

theorem local_sound : Local start i (Sound start) where
  stable _ _ hrely := hrely.1
  agrees _ _ h := h.sound

/-- The call works on a draft of which nothing was posted. -/
def Held (start : Store ι) (i : ι) (id : String) (s : Store ι) : Prop :=
  Sound start s ∧ s.owner id = some i ∧ ∀ p ∈ s.posts, p.draft ≠ id

/-- The same, with the draft as it is stored. -/
def HeldAs (start : Store ι) (i : ι) (draft : Draft) (s : Store ι) : Prop :=
  Held start i draft.id s ∧ s.drafts.byKey draft.id = some draft

/-- The call works on a draft of which it has posted `p`. -/
def Posted (start : Store ι) (i : ι) (draft : Draft) (p : Posting) (s : Store ι) : Prop :=
  (Sound start s ∧ s.owner draft.id = some i ∧ s.drafts.byKey draft.id = some draft) ∧
    p ∈ s.posts ∧ ∀ q ∈ s.posts, q.draft = draft.id → q = p

/-- The call works on a draft whose postings are recorded. -/
def Done (start : Store ι) (i : ι) (id : String) (s : Store ι) : Prop :=
  Sound start s ∧ s.owner id = some i ∧ ∀ p ∈ s.posts, p.draft = id → Recorded s p

theorem local_held {id : String} : Local start i (Held start i id) where
  stable := by
    rintro s t ⟨hsound, -, same⟩ ⟨sound, held, first⟩
    have same := same id held
    exact ⟨hsound sound, same.owner.trans held,
      fun p mem hp => first p ((same.posts p hp).mp mem) hp⟩
  agrees := by
    rintro s t h ⟨sound, held, first⟩
    exact ⟨h.sound sound, by rw [h.owner, held], by rw [h.posts]; exact first⟩

theorem local_heldAs {draft : Draft} : Local start i (HeldAs start i draft) where
  stable := by
    rintro s t hrely ⟨held, stored⟩
    have same := hrely.2.2 draft.id held.2.1
    exact ⟨local_held.stable s t hrely held, same.draft.trans stored⟩
  agrees := by
    rintro s t h ⟨held, stored⟩
    exact ⟨local_held.agrees s t h held, by rw [h.drafts, stored]⟩

theorem local_posted {draft : Draft} {p : Posting} : Local start i (Posted start i draft p) where
  stable := by
    rintro s t ⟨hsound, grows, same⟩ ⟨⟨sound, held, stored⟩, mem, only⟩
    have same := same draft.id held
    exact ⟨⟨hsound sound, same.owner.trans held, same.draft.trans stored⟩, grows.posts p mem,
      fun q hq hdraft => only q ((same.posts q hdraft).mp hq) hdraft⟩
  agrees := by
    rintro s t h ⟨⟨sound, held, stored⟩, mem, only⟩
    exact ⟨⟨h.sound sound, by rw [h.owner, held], by rw [h.drafts, stored]⟩,
      by rw [h.posts]; exact mem, by rw [h.posts]; exact only⟩

theorem local_done {id : String} : Local start i (Done start i id) where
  stable := by
    rintro s t ⟨hsound, grows, same⟩ ⟨sound, held, done⟩
    have same := same id held
    refine ⟨hsound sound, same.owner.trans held, fun p mem hp => ?_⟩
    have mem := (same.posts p hp).mp mem
    exact grows.recorded p mem (done p mem hp)
  agrees := by
    rintro s t h ⟨sound, held, done⟩
    refine ⟨h.sound sound, by rw [h.owner, held], fun p mem hp => ?_⟩
    exact h.recorded.mpr (done p (h.posts ▸ mem) hp)

theorem Held.done {id : String} {s : Store ι} (h : Held start i id s) : Done start i id s :=
  ⟨h.1, h.2.1, fun p mem hp => (h.2.2 p mem hp).elim⟩

/-! ### Calls that touch no draft, item or posting -/

variable {A B : Type}

/-- The call keeps every local assertion. -/
def Quiet (start : Store ι) (i : ι) (p : Call ι A) : Prop :=
  ∀ P : Store ι → Prop, Local start i P → (frame start i).Triple P p (fun _ => P) fun _ => P

theorem Quiet.op {label : Label} {f : Store ι → Except PublicadorError A × Store ι}
    (h : ∀ s, Agrees s (f s).2) : Quiet start i (atomically label f) := by
  intro P hP
  refine Frame.Triple.op hP.stable (fun _ => hP.stable) (fun _ => hP.stable) fun s hs _ => ?_
  refine ⟨(h s).guar, ?_⟩
  split
  · exact hP.agrees _ _ (h s) hs
  · exact hP.agrees _ _ (h s) hs

theorem Quiet.bind {p : Call ι A} {k : A → Call ι B} (hp : Quiet start i p)
    (hk : ∀ a, Quiet start i (k a)) : Quiet start i (p >>= k) :=
  fun P hP => (hp P hP).bind (fun a => hk a P hP) fun _ => hP.stable

theorem Quiet.lift (x : Except PublicadorError A) : Quiet start i (lift x) :=
  fun _ hP => Frame.Triple.lift (fun _ _ => hP.stable) (fun _ _ => hP.stable)
    (fun _ _ _ h => h) fun _ _ _ h => h

theorem Quiet.pure (a : A) : Quiet start i (Pure.pure a) :=
  fun _ hP => Frame.Triple.pure hP.stable fun _ h => h

theorem Agrees.rfl {s : Store ι} : Agrees s s :=
  ⟨Eq.refl _, Eq.refl _, Eq.refl _, Eq.refl _, Eq.refl _⟩

theorem quiet_find (f : Store ι → A) : Quiet start i (find f) := .op fun _ => .rfl

theorem quiet_idFactory (pre : String) : Quiet start i (idFactory pre) :=
  .op fun _ => ⟨rfl, rfl, rfl, rfl, rfl⟩

theorem quiet_request (method path : String) : Quiet start i (request method path) :=
  .op fun _ => ⟨rfl, rfl, rfl, rfl, rfl⟩

theorem quiet_insertEvent (id : String) : Quiet start i (insertEvent id) := by
  refine .op fun s => ?_
  split
  · exact .rfl
  · exact ⟨rfl, rfl, rfl, rfl, rfl⟩

theorem quiet_appendEvent : Quiet start i appendEvent :=
  (quiet_idFactory _).bind fun id => quiet_insertEvent id

theorem quiet_requiredAttributes {checks : Checks} {sellerId accountId categoryId : String} :
    Quiet start i (requiredAttributes checks sellerId accountId categoryId) :=
  (Quiet.lift _).bind fun _ => (quiet_request _ _).bind fun _ => .lift _

theorem quiet_publicationPreferences {checks : Checks} {sellerId accountId : String} :
    Quiet start i (publicationPreferences checks sellerId accountId) :=
  (Quiet.lift _).bind fun _ => (quiet_find _).bind fun _ => (quiet_request _ _).bind fun _ =>
    (quiet_request _ _).bind fun _ => (quiet_request _ _).bind fun _ =>
      (quiet_request _ _).bind fun _ => .lift _

theorem quiet_buildPublishPayload {checks : Checks} {draft : Draft} :
    Quiet start i (buildPublishPayload checks draft) := (quiet_find _).bind fun _ => .lift _

theorem quiet_loadBatch {sellerId accountId batchId : String} :
    Quiet start i (loadBatch sellerId accountId batchId) := by
  refine .op fun s => ?_
  split
  · exact .rfl
  · exact .rfl

theorem quiet_replaceBatch {batch : Batch} : Quiet start i (replaceBatch batch) := by
  refine .op fun s => ?_
  split
  · exact .rfl
  · exact ⟨rfl, rfl, rfl, rfl, rfl⟩

theorem quiet_refreshCounts {sellerId accountId batchId : String} :
    Quiet start i (refreshCounts sellerId accountId batchId) :=
  quiet_loadBatch.bind fun _ => (quiet_find _).bind fun _ => quiet_replaceBatch

theorem quiet_insertAsset {asset : Asset} {sameHash : Asset → Asset → Bool} :
    Quiet start i (insertAsset asset sameHash) := by
  refine .op fun s => ?_
  split
  · exact .rfl
  · exact ⟨rfl, rfl, rfl, rfl, rfl⟩

theorem quiet_createAssets {sameHash : Asset → Asset → Bool} {item : BatchItem} {draft : Draft}
    (images : List Image) : Quiet start i (createAssets sameHash item draft images) := by
  induction images with
  | nil => exact .pure _
  | cons image rest ih =>
      exact (quiet_idFactory _).bind fun _ => quiet_insertAsset.bind fun _ =>
        ih.bind fun _ => .pure _

/-! ### Work on one draft -/

/-- A draft as found under an id and a scope. -/
theorem findDraft_some {s : Store ι} {id sellerId accountId : String} {draft : Draft}
    (h : (s.drafts.findOne fun d =>
      d.id = id ∧ d.sellerId = sellerId ∧ d.accountId = accountId) = some draft) :
    s.drafts.byKey id = some draft ∧ draft.id = id ∧ draft.sellerId = sellerId ∧
      draft.accountId = accountId := by
  obtain ⟨mem, hp⟩ := Collection.findOne_mem h
  simp only [Bool.decide_and, Bool.and_eq_true, decide_eq_true_eq] at hp
  exact ⟨Collection.byKey_some.mpr ⟨mem, hp.1⟩, hp⟩

theorem findDraft_of_byKey {s : Store ι} {id : String} {draft : Draft}
    (h : s.drafts.byKey id = some draft) :
    ∃ found, (s.drafts.findOne fun d =>
      d.id = id ∧ d.sellerId = draft.sellerId ∧ d.accountId = draft.accountId) = some found := by
  obtain ⟨mem, hid⟩ := Collection.byKey_some.mp h
  cases hfind : s.drafts.findOne fun d =>
      d.id = id ∧ d.sellerId = draft.sellerId ∧ d.accountId = draft.accountId with
  | some found => exact ⟨found, rfl⟩
  | none => simpa [hid] using Collection.findOne_none hfind mem

theorem loadDraft_triple {id sellerId accountId : String} :
    (frame start i).Triple (Held start i id) (loadDraft sellerId accountId id)
      (fun draft s => HeldAs start i draft s ∧ draft.id = id) fun _ => Held start i id := by
  refine Frame.Triple.op local_held.stable (fun _ => local_heldAs.stable.and .pure)
    (fun _ => local_held.stable) fun s held _ => ?_
  cases hfind : s.drafts.findOne fun d =>
      d.id = id ∧ d.sellerId = sellerId ∧ d.accountId = accountId with
  | none => exact ⟨Agrees.rfl.guar, held⟩
  | some draft =>
      obtain ⟨hstored, hid, -⟩ := findDraft_some hfind
      subst hid
      exact ⟨Agrees.rfl.guar, ⟨held, hstored⟩, rfl⟩

/-- A draft rewritten before it is posted. -/
theorem replaceDraft_held (draft new : Draft) (id : new.id = draft.id)
    (place : new.place = draft.place) :
    (frame start i).Triple (HeldAs start i draft) (replaceDraft new)
      (fun _ => Held start i draft.id) fun _ => Held start i draft.id := by
  refine Frame.Triple.op local_heldAs.stable (fun _ => local_held.stable)
    (fun _ => local_held.stable) fun s ⟨held, stored⟩ _ => ?_
  rw [← id] at held stored ⊢
  have hguar : (frame start i).guar s { s with drafts := s.drafts.replace new } :=
    guar_replaceDraft held.2.1 stored place fun p mem hp => (held.2.2 p mem hp).elim
  cases s.drafts.findOne fun d =>
      d.id = new.id ∧ d.sellerId = new.sellerId ∧ d.accountId = new.accountId with
  | none => exact ⟨Agrees.rfl.guar, held⟩
  | some found => exact ⟨hguar, hguar.1 held.1, held.2⟩

/-- The draft recorded as published after it was posted. -/
theorem replaceDraft_posted (draft new : Draft) (p : Posting) (id : new.id = draft.id)
    (place : new.place = draft.place) (status : new.status = "published")
    (meliItemId : new.meliItemId = p.meliItemId) :
    (frame start i).Triple (Posted start i draft p) (replaceDraft new)
      (fun _ => Done start i draft.id) fun _ => Done start i draft.id := by
  refine Frame.Triple.op local_posted.stable (fun _ => local_done.stable)
    (fun _ => local_done.stable) fun s ⟨⟨sound, held, stored⟩, mem, only⟩ _ => ?_
  obtain ⟨hseller, haccount, -⟩ : new.sellerId = draft.sellerId ∧
      new.accountId = draft.accountId ∧ new.sku = draft.sku := by
    simpa [Draft.place] using place
  obtain ⟨found, hfound⟩ := findDraft_of_byKey stored
  rw [← id] at held stored hfound only ⊢
  have hguar : (frame start i).guar s { s with drafts := s.drafts.replace new } := by
    refine guar_replaceDraft held stored place fun q hq hdraft => ?_
    rw [only q hq hdraft]
    exact ⟨status, meliItemId⟩
  rw [hseller, haccount, hfound]
  refine ⟨hguar, hguar.1 sound, held, fun q hq hdraft => ⟨new, ?_, status, ?_⟩⟩
  · show (s.drafts.replace new).byKey q.draft = _
    rw [hdraft, Collection.byKey_replace, if_pos rfl, stored]
    rfl
  · rw [only q hq hdraft]
    exact meliItemId

theorem blockDraft_triple {draft : Draft} {fieldErrors : List FieldError} {actorId : String} :
    (frame start i).Triple (HeldAs start i draft) (blockDraft draft fieldErrors actorId)
      (fun _ => Held start i draft.id) fun _ => Held start i draft.id :=
  (replaceDraft_held draft
    { draft with
      status := "validation_failed", processStatus := "failed", errors := fieldErrors,
      updatedBy := actorId } rfl rfl).bind
    (fun _ => quiet_insertEvent _ _ local_held) fun _ => local_held.stable

theorem validateDraft_triple {checks : Checks} {id sellerId accountId actorId : String} :
    (frame start i).Triple (Held start i id)
      (validateDraft checks sellerId accountId id actorId)
      (fun _ => Held start i id) fun _ => Held start i id := by
  have hE : ∀ _ : PublicadorError, (frame start i).Stable (Held start i id) :=
    fun _ => local_held.stable
  refine loadDraft_triple.bind (fun draft => ?_) hE
  by_cases hid : draft.id = id
  swap
  · intro s hs
    exact (hid hs.2).elim
  subst hid
  have hquiet {A B : Type} {p : Call ι A} {k : A → Call ι B} (hp : Quiet start i p)
      (hk : ∀ a, (frame start i).Triple (HeldAs start i draft) (k a)
        (fun _ => Held start i draft.id) fun _ => Held start i draft.id) :
      (frame start i).Triple (HeldAs start i draft) (p >>= k)
        (fun _ => Held start i draft.id) fun _ => Held start i draft.id :=
    ((hp _ local_heldAs).consequence (fun _ h => h) (fun _ _ h => h) fun _ _ h => h.1).bind hk hE
  have hreturn (validation : Validation) : (frame start i).Triple (Held start i draft.id)
      (pure validation : Call ι Validation) (fun _ => Held start i draft.id)
      fun _ => Held start i draft.id := Quiet.pure validation _ local_held
  refine Frame.Triple.pre ?_ (P := HeldAs start i draft) fun s hs => hs.1
  refine hquiet quiet_requiredAttributes fun attributes => ?_
  refine hquiet quiet_publicationPreferences fun preferences => ?_
  refine hquiet (.lift _) fun fieldErrors => ?_
  refine hquiet quiet_buildPublishPayload fun payload => ?_
  split
  · exact blockDraft_triple.bind (fun _ => hreturn _) hE
  · refine hquiet (quiet_request _ _) fun validation => ?_
    refine hquiet (.lift _) fun gatewayErrors => ?_
    split
    · exact blockDraft_triple.bind (fun _ => hreturn _) hE
    · exact (hreturn _).pre fun s hs => hs.1

/-- The item of a posting names its draft. -/
def RefOf (start : Store ι) (item : Option String) (id : String) (s : Store ι) : Prop :=
  ∀ j, item = some j → Ref start s j id

theorem growing_refOf (start : Store ι) (item : Option String) (id : String) :
    Growing (RefOf start item id) :=
  fun _ _ grows h j hj => (h j hj).grows grows

/-- What only grows is carried along a call. -/
theorem carry {P R : Store ι → Prop} {p : Call ι A} {Q : A → Store ι → Prop}
    {E : PublicadorError → Store ι → Prop} (h : (frame start i).Triple P p Q E)
    (hR : Growing R) :
    (frame start i).Triple (fun s => P s ∧ R s) p (fun a s => Q a s ∧ R s)
      fun e s => E e s ∧ R s :=
  h.frame hR.local.stable hR.guar

theorem postItems_triple {draft : Draft} {item : Option String} :
    (frame start i).Triple (fun s => HeldAs start i draft s ∧ RefOf start item draft.id s)
      (postItems draft.id item)
      (fun response => Posted start i draft ⟨draft.id, item, responseGet response "id"⟩)
      fun _ => Held start i draft.id := by
  refine Frame.Triple.op (local_heldAs.and (growing_refOf start item draft.id).local).stable
    (fun _ => local_posted.stable) (fun _ => local_held.stable) fun s ⟨⟨held, stored⟩, ref⟩ _ => ?_
  cases s.gateway s.requests with
  | error e =>
      have hagrees : Agrees s { s with requests := s.requests + 1 } := ⟨rfl, rfl, rfl, rfl, rfl⟩
      exact ⟨hagrees.guar, local_held.agrees _ _ hagrees held⟩
  | ok response =>
      have hguar : (frame start i).guar s
          { s with
            requests := s.requests + 1
            posts := s.posts ++ [⟨draft.id, item, responseGet response "id"⟩] } :=
        guar_post held.2.1 held.2.2 ref
      refine ⟨hguar, ⟨hguar.1 held.1, held.2.1, stored⟩, by simp, fun q hq hdraft => ?_⟩
      rcases List.mem_append.mp hq with hq | hq
      · exact (held.2.2 q hq hdraft).elim
      · exact List.mem_singleton.mp hq

theorem validateAndPublishDraft_triple (checks : Checks) (item : Option String)
    (id sellerId accountId actorId : String) :
    (frame start i).Triple (fun s => Held start i id s ∧ RefOf start item id s)
      (validateAndPublishDraft checks item sellerId accountId id actorId)
      (fun _ => Done start i id) fun _ => Done start i id := by
  have hE : ∀ _ : PublicadorError, (frame start i).Stable (Done start i id) :=
    fun _ => local_done.stable
  refine ((carry validateDraft_triple (growing_refOf start item id)).consequence (fun _ h => h)
    (fun _ _ h => h) fun _ _ h => h.1.done).bind (fun validation => ?_) hE
  split
  · exact Frame.Triple.pure local_done.stable fun s hs => hs.1.done
  refine ((carry loadDraft_triple (growing_refOf start item id)).consequence (fun _ h => h)
    (fun _ _ h => h) fun _ _ h => h.1.done).bind (fun draft => ?_) hE
  by_cases hid : draft.id = id
  swap
  · intro s hs
    exact (hid hs.1.2).elim
  subst hid
  refine ((postItems_triple.pre fun s hs => ⟨hs.1.1, hs.2⟩).consequence (fun _ h => h)
    (fun _ _ h => h) fun _ _ h => h.done).bind (fun response => ?_) hE
  refine (replaceDraft_posted draft
    { draft with
      status := "published", processStatus := "published",
      meliItemId := responseGet response "id", permalink := responseGet response "permalink",
      meliResponse := response, errors := [], updatedBy := actorId }
    ⟨draft.id, item, responseGet response "id"⟩ rfl rfl rfl rfl).bind (fun _ => ?_) hE
  exact (quiet_insertEvent _ _ local_done).bind (fun _ => Quiet.pure _ _ local_done) hE

/-- A call that begins to work on a draft, and records its postings, ends with nobody at work on
it. -/
theorem working_triple {id : String} {p : Call ι A} {R : Store ι → Prop} {Q : A → Store ι → Prop}
    {E : PublicadorError → Store ι → Prop} (hR : Growing R) (hQ : ∀ a, Growing (Q a))
    (hE : ∀ e, Growing (E e))
    (body : (frame start i).Triple (fun s => Held start i id s ∧ R s) p
      (fun a s => Done start i id s ∧ Q a s) fun e s => Done start i id s ∧ E e s) :
    (frame start i).Triple (fun s => Sound start s ∧ R s) (working i id p)
      (fun a s => Sound start s ∧ Q a s) fun e s => Sound start s ∧ E e s := by
  rintro s ⟨sound, hr⟩ t hst ⟨free, unpublished⟩
  have sound := hst.1 sound
  have hr := hR s t hst.2.1 hr
  have hfirst : ∀ p ∈ t.posts, p.draft ≠ id := by
    rintro p mem rfl
    obtain ⟨draft, hdraft, hstatus, -⟩ := sound.recorded p mem free
    exact unpublished draft hdraft hstatus
  have henter : (frame start i).guar t
      { t with owner := Function.update t.owner id (some i) } := guar_enter free
  refine ⟨henter, ?_⟩
  have hbody : Program.Meets ((frame start i).contract (fun a s => Done start i id s ∧ Q a s)
      fun e s => Done start i id s ∧ E e s) _ p.run _ :=
    body _ ⟨⟨henter.1 sound, Function.update_self _ _ _, hfirst⟩, hR _ _ henter.2.1 hr⟩
  show Program.Meets _ _ (p.run >>= _) _
  refine Program.Meets.bind ?_ ?_ hbody ?_
  · exact fun _ _ h => h
  · exact fun _ _ h => h
  intro result u hu v huv _
  have hleave {T : Store ι → Prop} (hT : Growing T) (h : Done start i id u ∧ T u) :
      (frame start i).guar v { v with owner := Function.update v.owner id none } ∧
        ∀ w, (frame start i).rely { v with owner := Function.update v.owner id none } w →
          Sound start w ∧ T w := by
    have hdone := local_done.stable u v huv h.1
    have hguar : (frame start i).guar v { v with owner := Function.update v.owner id none } :=
      guar_leave hdone.2.1 hdone.2.2
    refine ⟨hguar, fun w hw => ⟨hw.1 (hguar.1 hdone.1), ?_⟩⟩
    exact hT _ _ hw.2.1 (hT _ _ hguar.2.1 (hT _ _ huv.2.1 h.2))
  cases result with
  | ok a => exact hleave (hQ a) hu
  | error e => exact hleave (hE e) hu

/-! ### Batches -/

theorem growing_facts (start : Store ι) (item : BatchItem) :
    Growing fun s => ItemFacts start s item :=
  fun _ _ grows h => h.grows grows

/-- The facts of a list of items. -/
def Facts (start : Store ι) (items : List BatchItem) (s : Store ι) : Prop :=
  ∀ item ∈ items, ItemFacts start s item

theorem growing_allFacts (start : Store ι) (items : List BatchItem) :
    Growing (Facts start items) :=
  fun _ _ grows h item mem => (h item mem).grows grows

theorem growing_ref (start : Store ι) (item draft : String) :
    Growing fun s => Ref start s item draft :=
  fun _ _ grows h => h.grows grows

/-- An item with the draft that was found or made for it. -/
theorem ItemFacts.withDraft {s : Store ι} {item other : BatchItem} {draft : String}
    (sound : Sound start s) (facts : ItemFacts start s item) (ref : Ref start s item.id draft)
    (id : other.id = item.id) (place : other.place = item.place)
    (named : other.draftId = some draft) : ItemFacts start s other := by
  refine ⟨by rw [id, place]; exact facts.origin, fun hnone => ?_, fun d hd => ?_⟩
  · have hempty : draft = "" := by
      by_contra hne
      simp [BatchItem.draftId?, named, Option.filter, hne] at hnone
    subst hempty
    rw [id]
    cases ref with
    | inl initial =>
        obtain ⟨first, hfirst, hdraft⟩ := Option.bind_eq_some_iff.mp initial
        obtain ⟨-, hne⟩ := Option.filter_eq_some_iff.mp hdraft
        simp at hne
    | inr created =>
        obtain ⟨first, hfirst, hnone, -⟩ := sound.created _ created
        rw [hfirst]
        exact hnone
  · obtain ⟨hsome, -⟩ := Option.filter_eq_some_iff.mp hd
    rw [named] at hsome
    cases hsome
    rw [id]
    exact ref

theorem insertDraft_triple {item : BatchItem} (draft : Draft)
    (none : (start.items.byKey item.id).bind BatchItem.draftId? = none)
    (place : draft.place = item.place) :
    (frame start i).Triple (fun s => Held start i draft.id s ∧ ItemFacts start s item)
      (insertDraft draft item.id)
      (fun _ s => HeldAs start i draft s ∧ Ref start s item.id draft.id)
      fun _ => Held start i draft.id := by
  refine Frame.Triple.op (local_held.and (growing_facts start item).local).stable
    (fun _ => (local_heldAs.and (growing_ref start item.id draft.id).local).stable)
    (fun _ => local_held.stable) fun s ⟨held, facts⟩ _ => ?_
  by_cases htaken : s.drafts.docs.any fun b =>
      b.sellerId = draft.sellerId ∧ b.accountId = draft.accountId ∧ b.sku = draft.sku
  · simp only [if_pos htaken]
    exact ⟨Agrees.rfl.guar, held⟩
  simp only [if_neg htaken]
  have free : ∀ a ∈ s.drafts.docs, a.place ≠ draft.place := by
    intro a mem heq
    refine htaken (List.any_eq_true.mpr ⟨a, mem, ?_⟩)
    simpa [Draft.place] using heq
  cases hinsert : s.drafts.insert draft with
  | none => exact ⟨Agrees.rfl.guar, held⟩
  | some drafts =>
      have hguar := guar_insertDraft held.1 held.2.1 facts none place free hinsert
      refine ⟨hguar, ⟨⟨hguar.1 held.1, held.2⟩, ?_⟩, .inr (by simp)⟩
      show drafts.byKey draft.id = some draft
      rw [Collection.byKey_insert hinsert, if_pos rfl]

theorem newDraft_triple {sameHash : Asset → Asset → Bool} {item : BatchItem} {actorId : String}
    (none : (start.items.byKey item.id).bind BatchItem.draftId? = none) :
    (frame start i).Triple (fun s => Sound start s ∧ ItemFacts start s item)
      (newDraft i sameHash item actorId)
      (fun draft s => Sound start s ∧ Ref start s item.id draft.id) fun _ => Sound start := by
  refine ((quiet_idFactory "draft" _ (local_sound.and (growing_facts start item).local)).consequence
    (fun _ h => h) (fun _ _ h => h) fun _ _ h => h.1).bind (fun id => ?_)
    fun _ => local_sound.stable
  refine (working_triple (E := fun _ _ => True) (growing_facts start item)
    (fun draft => growing_ref start item.id draft.id) (fun _ _ _ _ h => h) ?_).consequence
    (fun _ h => h) (fun _ _ h => h) fun _ _ h => h.1
  have hE : ∀ _ : PublicadorError,
      (frame start i).Stable fun s => Done start i id s ∧ True :=
    fun _ => local_done.stable.and .pure
  have hraised {s : Store ι} (h : Held start i id s) : Done start i id s ∧ True :=
    ⟨h.done, trivial⟩
  have hafter {A B : Type} {p : Call ι A} {k : A → Call ι B} {P : Store ι → Prop}
      {T : B → Store ι → Prop} (hp : Quiet start i p) (hP : Local start i P)
      (held : ∀ s, P s → Held start i id s)
      (hk : ∀ a, (frame start i).Triple P (k a) T fun _ s => Done start i id s ∧ True) :
      (frame start i).Triple P (p >>= k) T fun _ s => Done start i id s ∧ True :=
    ((hp P hP).consequence (fun _ h => h) (fun _ _ h => h)
      fun _ s h => hraised (held s h)).bind hk hE
  refine ((insertDraft_triple (draftOf item id actorId) none rfl).consequence (fun _ h => h)
    (fun _ _ h => h) fun _ _ h => hraised h).bind (fun _ => ?_) hE
  have hlocal := local_heldAs.and (i := i) (growing_ref start item.id id).local
    (P := HeldAs start i (draftOf item id actorId))
  refine hafter (quiet_createAssets _) hlocal (fun s h => h.1.1) fun assetIds => ?_
  refine ((carry (replaceDraft_held (draftOf item id actorId)
    { draftOf item id actorId with assetIds } rfl rfl)
    (growing_ref start item.id id)).consequence (fun _ h => h) (fun _ _ h => h)
    fun _ _ h => hraised h.1).bind (fun _ => ?_) hE
  refine hafter quiet_appendEvent (local_held.and (growing_ref start item.id id).local)
    (fun s h => h.1) fun _ => ?_
  exact Frame.Triple.pure (local_done.and (growing_ref start item.id id).local).stable
    fun s h => ⟨h.1.done, h.2⟩

/-- The draft an item names is stored in its scope. -/
theorem find_named {s : Store ι} {item : BatchItem} {id : String} (fresh : Fresh start)
    (sound : Sound start s) (facts : ItemFacts start s item) (named : item.draftId? = some id) :
    ∃ draft, (s.drafts.findOne fun d =>
      d.id = id ∧ d.sellerId = item.sellerId ∧ d.accountId = item.accountId) = some draft := by
  obtain ⟨first, hfirst, hplace⟩ := facts.origin
  have hscope : ∃ draft, s.drafts.byKey id = some draft ∧ draft.sellerId = item.sellerId ∧
      draft.accountId = item.accountId := by
    simp only [BatchItem.place, Prod.mk.injEq] at hplace
    cases facts.ref id named with
    | inl initial =>
        rw [hfirst] at initial
        obtain ⟨d, hd, hseller, haccount⟩ :=
          fresh.named first (Collection.byKey_some.mp hfirst).1 id initial
        obtain ⟨draft, hdraft, hkept⟩ := sound.kept id d hd
        simp only [Draft.place, Prod.mk.injEq] at hkept
        exact ⟨draft, hdraft, by rw [hkept.1, hseller, hplace.1],
          by rw [hkept.2.1, haccount, hplace.2.1]⟩
    | inr created =>
        obtain ⟨f, hf, -, draft, hdraft, hmade⟩ := sound.created _ created
        cases hf.symm.trans hfirst
        simp only [Draft.place, BatchItem.place, Prod.mk.injEq] at hmade
        exact ⟨draft, hdraft, by rw [hmade.1, hplace.1], by rw [hmade.2.1, hplace.2.1]⟩
  obtain ⟨draft, hdraft, hseller, haccount⟩ := hscope
  rw [← hseller, ← haccount]
  exact findDraft_of_byKey hdraft

theorem createDraftFromItem_triple {sameHash : Asset → Asset → Bool} {item : BatchItem}
    {actorId : String} (fresh : Fresh start) :
    (frame start i).Triple (fun s => Sound start s ∧ ItemFacts start s item)
      (createDraftFromItem i sameHash item actorId)
      (fun draft s => Sound start s ∧ Ref start s item.id draft.id) fun _ => Sound start := by
  unfold createDraftFromItem
  cases hnamed : item.draftId? with
  | none =>
      intro s hs
      exact newDraft_triple (hs.2.fresh hnamed) s hs
  | some id =>
      have hfind : (frame start i).Triple (fun s => Sound start s ∧ ItemFacts start s item)
          (find fun s => s.drafts.findOne fun d =>
            d.id = id ∧ d.sellerId = item.sellerId ∧ d.accountId = item.accountId)
          (fun existing s => (Sound start s ∧ Ref start s item.id id) ∧
            ∃ draft, existing = some draft ∧ draft.id = id) fun _ => Sound start := by
        refine Frame.Triple.op (local_sound.and (growing_facts start item).local).stable
          (fun _ => (local_sound.and (growing_ref start item.id id).local).stable.and .pure)
          (fun _ => local_sound.stable) fun s ⟨sound, facts⟩ _ => ?_
        obtain ⟨draft, hdraft⟩ := find_named fresh sound facts hnamed
        exact ⟨Agrees.rfl.guar, ⟨sound, facts.ref id hnamed⟩, draft, hdraft,
          (findDraft_some hdraft).2.1⟩
      refine hfind.bind (fun existing => ?_) fun _ => local_sound.stable
      cases existing with
      | none =>
          rintro s ⟨-, draft, h, -⟩
          cases h
      | some draft =>
          refine Frame.Triple.pure (local_sound.and
            (growing_ref start item.id draft.id).local).stable fun s hs => ?_
          obtain ⟨⟨sound, ref⟩, d, hd, rfl⟩ := hs
          cases hd
          exact ⟨sound, ref⟩

theorem replaceItem_triple {new : BatchItem} :
    (frame start i).Triple (fun s => Sound start s ∧ ItemFacts start s new) (replaceItem new)
      (fun _ => Sound start) fun _ => Sound start := by
  refine Frame.Triple.op (local_sound.and (growing_facts start new).local).stable
    (fun _ => local_sound.stable) (fun _ => local_sound.stable) fun s ⟨sound, facts⟩ _ => ?_
  have hguar := guar_replaceItem (i := i) facts
  cases s.items.findOne fun b =>
      b.id = new.id ∧ b.sellerId = new.sellerId ∧ b.accountId = new.accountId with
  | none => exact ⟨Agrees.rfl.guar, sound⟩
  | some found => exact ⟨hguar, hguar.1 sound⟩

theorem processItems_triple {sameHash : Asset → Asset → Bool} {actorId : String}
    (fresh : Fresh start) (items : List BatchItem) :
    (frame start i).Triple (fun s => Sound start s ∧ Facts start items s)
      (processItems i sameHash actorId items) (fun _ => Sound start) fun _ => Sound start := by
  induction items with
  | nil => exact Frame.Triple.pure local_sound.stable fun s hs => hs.1
  | cons item rest ih =>
      have hE : ∀ _ : PublicadorError, (frame start i).Stable (Sound start) :=
        fun _ => local_sound.stable
      have hfacts : ∀ s, Sound start s ∧ Facts start (item :: rest) s →
          (Sound start s ∧ ItemFacts start s item) ∧ Facts start (item :: rest) s :=
        fun s hs => ⟨⟨hs.1, hs.2 item List.mem_cons_self⟩, hs.2⟩
      refine ((carry (createDraftFromItem_triple fresh)
        (growing_allFacts start (item :: rest))).consequence hfacts (fun _ _ h => h)
        fun _ _ h => h.1).bind (fun draft => ?_) hE
      refine ((carry replaceItem_triple (growing_allFacts start rest)).consequence ?_
        (fun _ _ h => h) fun _ _ h => h.1).bind (fun _ => ih) hE
      rintro s ⟨⟨sound, ref⟩, facts⟩
      exact ⟨⟨sound, (facts item List.mem_cons_self).withDraft sound ref rfl rfl rfl⟩,
        fun other mem => facts other (List.mem_cons_of_mem item mem)⟩

theorem publishItems_triple {checks : Checks} {sellerId accountId actorId : String}
    (items : List BatchItem) (named : ∀ item ∈ items, item.draftId?.isSome) :
    (frame start i).Triple (fun s => Sound start s ∧ Facts start items s)
      (publishItems i checks sellerId accountId actorId items)
      (fun _ => Sound start) fun _ => Sound start := by
  induction items with
  | nil => exact Frame.Triple.pure local_sound.stable fun s hs => hs.1
  | cons item rest ih =>
      have hE : ∀ _ : PublicadorError, (frame start i).Stable (Sound start) :=
        fun _ => local_sound.stable
      obtain ⟨id, hid⟩ := Option.isSome_iff_exists.mp (named item List.mem_cons_self)
      have ih := ih fun other mem => named other (List.mem_cons_of_mem item mem)
      have hfacts (s : Store ι) (hs : Sound start s ∧ Facts start (item :: rest) s) :
          (Sound start s ∧ RefOf start (some item.id) id s) ∧ Facts start (item :: rest) s := by
        refine ⟨⟨hs.1, fun j hj => ?_⟩, hs.2⟩
        cases hj
        exact (hs.2 item List.mem_cons_self).ref id hid
      have hworking := working_triple (i := i) (growing_refOf start (some item.id) id)
        (Q := fun _ _ => True) (E := fun _ _ => True) (fun _ _ _ _ h => h) (fun _ _ _ _ h => h)
        ((validateAndPublishDraft_triple checks (some item.id) id sellerId accountId
          actorId).consequence (fun _ h => h) (fun _ _ h => ⟨h, trivial⟩)
          fun _ _ h => ⟨h, trivial⟩)
      have hcall := (carry hworking (growing_allFacts start (item :: rest))).consequence
        hfacts (fun _ s h => (⟨h.1.1, h.2⟩ : Sound start s ∧ Facts start (item :: rest) s))
        fun _ s h => (⟨h.1.1, h.2⟩ : Sound start s ∧ Facts start (item :: rest) s)
      have hstable : (frame start i).Stable
          fun s => Sound start s ∧ Facts start (item :: rest) s :=
        (local_sound.and (growing_allFacts start (item :: rest)).local).stable
      have hreplace (new : BatchItem) (hid : new.id = item.id) (hplace : new.place = item.place)
          (hdraft : new.draftId? = item.draftId?) :
          (frame start i).Triple (fun s => Sound start s ∧ Facts start (item :: rest) s)
            (replaceItem new) (fun _ s => Sound start s ∧ Facts start rest s)
            fun _ => Sound start := by
        refine (carry replaceItem_triple (growing_allFacts start rest)).consequence ?_
          (fun _ _ h => h) fun _ _ h => h.1
        rintro s ⟨sound, facts⟩
        exact ⟨⟨sound, (facts item List.mem_cons_self).congr hid hplace hdraft⟩,
          fun other mem => facts other (List.mem_cons_of_mem item mem)⟩
      have hrecord (result : Except PublicadorError Publication) :
          (frame start i).Triple (fun s => Sound start s ∧ Facts start (item :: rest) s)
            (recordItem item actorId result) (fun _ s => Sound start s ∧ Facts start rest s)
            fun _ => Sound start := by
        cases result with
        | ok result =>
            refine hreplace (publishedItem item actorId result) ?_ ?_ ?_ <;>
              (unfold publishedItem; split <;> rfl)
        | error e =>
            simp only [recordItem]
            cases caught e with
            | some message => exact hreplace _ rfl rfl rfl
            | none =>
                exact Frame.Triple.lift (fun _ h => by cases h) (fun _ _ => local_sound.stable)
                  (fun _ _ h => by cases h) fun _ _ _ h => h.1
      have houtcome : (frame start i).Triple
          (fun s => Sound start s ∧ Facts start (item :: rest) s)
          (tryExcept (working i id
            (validateAndPublishDraft checks (some item.id) sellerId accountId id actorId)))
          (fun _ s => Sound start s ∧ Facts start (item :: rest) s) fun _ => Sound start :=
        (hcall.outcome (fun _ => hstable) fun _ => hstable).consequence (fun _ h => h)
          (by rintro (e | a) s h <;> exact h) fun _ _ h => h
      unfold publishItems
      rw [hid]
      exact houtcome.bind (fun result => (hrecord result).bind (fun _ => ih) hE) hE

theorem itemsForBatch_triple {sellerId accountId batchId : String} :
    (frame start i).Triple (Sound start) (itemsForBatch sellerId accountId batchId)
      (fun items s => Sound start s ∧ Facts start items s) fun _ => Sound start := by
  refine Frame.Triple.op local_sound.stable
    (fun items => (local_sound.and (growing_allFacts start items).local).stable)
    (fun _ => local_sound.stable) fun s sound _ => ?_
  refine ⟨Agrees.rfl.guar, sound, fun item mem => ?_⟩
  exact sound.items item (Collection.find_mem.mp (List.mem_of_mem_take mem)).1

theorem processBatch_triple {sameHash : Asset → Asset → Bool}
    {sellerId accountId batchId actorId : String} (fresh : Fresh start) :
    (frame start i).Triple (Sound start)
      (processBatch i sameHash sellerId accountId batchId actorId)
      (fun _ => Sound start) fun _ => Sound start := by
  have hE : ∀ _ : PublicadorError, (frame start i).Stable (Sound start) :=
    fun _ => local_sound.stable
  refine (quiet_loadBatch _ local_sound).bind (fun batch => ?_) hE
  refine itemsForBatch_triple.bind (fun items => ?_) hE
  refine ((processItems_triple fresh _).pre fun s hs =>
    ⟨hs.1, fun item mem => hs.2 item (List.mem_of_mem_filter mem)⟩).bind (fun _ => ?_) hE
  exact (quiet_replaceBatch.bind fun _ => quiet_refreshCounts.bind fun _ =>
    quiet_appendEvent.bind fun _ => quiet_loadBatch) _ local_sound

theorem publishBatch_triple {checks : Checks} {sellerId accountId batchId actorId : String} :
    (frame start i).Triple (Sound start)
      (publishBatch i checks sellerId accountId batchId actorId)
      (fun _ => Sound start) fun _ => Sound start := by
  have hE : ∀ _ : PublicadorError, (frame start i).Stable (Sound start) :=
    fun _ => local_sound.stable
  refine (quiet_loadBatch _ local_sound).bind (fun batch => ?_) hE
  refine itemsForBatch_triple.bind (fun items => ?_) hE
  refine ((publishItems_triple _ fun item mem => ?_).pre fun s hs =>
    ⟨hs.1, fun item mem => hs.2 item (List.mem_of_mem_filter mem)⟩).bind (fun _ => ?_) hE
  · simpa using (of_decide_eq_true (List.mem_filter.mp mem).2).2
  exact (quiet_replaceBatch.bind fun _ => quiet_refreshCounts.bind fun _ =>
    quiet_appendEvent.bind fun _ => quiet_loadBatch) _ local_sound

/-- Every call of the module keeps the invariant, whatever the others do. -/
theorem request_triple {checks : Checks} {sameHash : Asset → Asset → Bool} (fresh : Fresh start)
    (request : Request) :
    (frame start i).Triple (Sound start) (request.program i checks sameHash)
      (fun _ => Sound start) fun _ => Sound start := by
  have hE : ∀ _ : PublicadorError, (frame start i).Stable (Sound start) :=
    fun _ => local_sound.stable
  have hreturn {B : Type} (_ : B) : (frame start i).Triple (Sound start)
      (pure () : Call ι Unit) (fun _ => Sound start) fun _ => Sound start :=
    Quiet.pure () _ local_sound
  have hworking {B : Type} {id : String} {p : Call ι B}
      (body : (frame start i).Triple (Held start i id) p (fun _ => Done start i id)
        fun _ => Done start i id) :
      (frame start i).Triple (Sound start) (working i id p) (fun _ => Sound start)
        fun _ => Sound start :=
    (working_triple (R := fun _ => True) (Q := fun _ _ => True) (E := fun _ _ => True)
      (fun _ _ _ h => h) (fun _ _ _ _ h => h) (fun _ _ _ _ h => h)
      (body.consequence (fun _ h => h.1) (fun _ _ h => ⟨h, trivial⟩)
        fun _ _ h => ⟨h, trivial⟩)).consequence (fun _ h => ⟨h, trivial⟩) (fun _ _ h => h.1)
      fun _ _ h => h.1
  cases request with
  | processBatch => exact (processBatch_triple fresh).bind hreturn hE
  | publishBatch => exact publishBatch_triple.bind hreturn hE
  | validateAndPublishDraft sellerId accountId draftId actorId =>
      exact (hworking ((validateAndPublishDraft_triple checks none draftId sellerId accountId
        actorId).pre fun _ h => ⟨h, fun _ hj => by cases hj⟩)).bind hreturn hE
  | validateDraft =>
      exact (hworking (validateDraft_triple.consequence (fun _ h => h) (fun _ _ h => h.done)
        fun _ _ h => h.done)).bind hreturn hE

end

/-! ### Runs -/

section

variable {ι : Type} [DecidableEq ι]

/-- Calls side by side over a store. -/
abbrev Calls (ι : Type) := Pool ι (Store ι) (Program Label (Store ι) (Except PublicadorError Unit))

/-- The calls `requests` at their beginning. -/
def calls (checks : Checks) (sameHash : Asset → Asset → Bool) (requests : ι → Request)
    (start : Store ι) : Calls ι :=
  ⟨start, fun i => ((requests i).program i checks sameHash).run⟩

/-- One posting for a draft and for a batch item, one draft made for an item, and a posted draft
nobody works on recorded as published. -/
structure Once (s : Store ι) : Prop where
  draft : ∀ id, (s.posts.filter fun p => p.draft = id).length ≤ 1
  item : ∀ item, (s.posts.filter fun p => p.item = some item).length ≤ 1
  created : ∀ item, (s.created.filter fun c => c.1 = item).length ≤ 1
  recorded : ∀ p ∈ s.posts, s.owner p.draft = none → Recorded s p

/-- The entries of a list that agree in a value without repetitions are one at most. -/
theorem filter_length_le_one {α β : Type} {f : α → β} {xs : List α} (nodup : (xs.map f).Nodup)
    {q : α → Bool} (same : ∀ a ∈ xs, ∀ b ∈ xs, q a = true → q b = true → f a = f b) :
    (xs.filter q).length ≤ 1 := by
  have hnodup : ((xs.filter q).map f).Nodup := nodup.sublist (List.filter_sublist.map f)
  cases hfilter : xs.filter q with
  | nil => simp
  | cons a rest =>
      cases rest with
      | nil => simp
      | cons b rest =>
          rw [hfilter] at hnodup
          have ha := List.mem_filter.mp (hfilter ▸ List.mem_cons_self : a ∈ xs.filter q)
          have hb := List.mem_filter.mp
            (hfilter ▸ List.mem_cons_of_mem a List.mem_cons_self : b ∈ xs.filter q)
          have heq := same a ha.1 b hb.1 ha.2 hb.2
          simp [heq] at hnodup

/-- The draft of an item is one. -/
theorem Ref.unique {start s : Store ι} {item a b : String} (sound : Sound start s)
    (ha : Ref start s item a) (hb : Ref start s item b) : a = b := by
  have hcreated {d : String} (h : (item, d) ∈ s.created) :
      (start.items.byKey item).bind BatchItem.draftId? = none := by
    obtain ⟨first, hfirst, hnone, -⟩ := sound.created _ h
    rw [hfirst]
    exact hnone
  rcases ha with ha | ha <;> rcases hb with hb | hb
  · exact Option.some.inj (ha.symm.trans hb)
  · rw [hcreated hb] at ha
    cases ha
  · rw [hcreated ha] at hb
    cases hb
  · exact congrArg Prod.snd (List.inj_on_of_nodup_map sound.createdOnce ha hb rfl)

theorem Sound.toOnce {start s : Store ι} (sound : Sound start s) : Once s where
  draft id := filter_length_le_one sound.once fun a _ b _ ha hb => by
    simp only [decide_eq_true_eq] at ha hb
    rw [ha, hb]
  item item := filter_length_le_one sound.once fun a ha b hb hqa hqb => by
    simp only [decide_eq_true_eq] at hqa hqb
    exact (sound.itemPosts a ha item hqa).unique sound (sound.itemPosts b hb item hqb)
  created item := filter_length_le_one sound.createdOnce fun a _ b _ ha hb => by
    simp only [decide_eq_true_eq] at ha hb
    rw [ha, hb]
  recorded := sound.recorded

theorem Fresh.sound {start : Store ι} (fresh : Fresh start) : Sound start start where
  index := fresh.index
  kept _ a h := ⟨a, h, rfl⟩
  items item mem := by
    have hkey : start.items.byKey item.id = some item := Collection.byKey_some.mpr ⟨mem, rfl⟩
    refine ⟨⟨item, hkey, rfl⟩, fun h => by rw [hkey]; exact h, fun draft h => .inl ?_⟩
    rw [hkey]
    exact h
  created := by simp [fresh.created]
  createdOnce := by simp [fresh.created]
  itemPosts := by simp [fresh.posts]
  once := by simp [fresh.posts]
  recorded := by simp [fresh.posts]

/-- Where every call begins on a draft nobody works on and that is not published, a product is
published once and stays so. -/
theorem published_once (checks : Checks) (sameHash : Asset → Asset → Bool)
    (requests : ι → Request) {start : Store ι} (fresh : Fresh start) {es fs : List (ι × Label)}
    {pool later : Calls ι}
    (run : Run (restrict Program.Step (Program.Allowed fun _ => allowed))
      (calls checks sameHash requests start) es pool)
    (rest : Run (restrict Program.Step (Program.Allowed fun _ => allowed)) pool fs later) :
    Once pool.shared ∧ ∀ p ∈ pool.shared.posts, Recorded pool.shared p →
      p ∈ later.shared.posts ∧ Recorded later.shared p := by
  let contracts (i : ι) : Contract (Store ι) (Except PublicadorError Unit) :=
    (frame start i).contract (fun _ => Sound start) fun _ => Sound start
  have compatible (i j : ι) (hij : i ≠ j) (s t : Store ι)
      (h : (contracts i).guar s t) : (contracts j).rely s t :=
    ⟨h.1, h.2.1, fun id hid => h.2.2 id j (Ne.symm hij) hid⟩
  have hstart (i : ι) : Program.Meets (contracts i) allowed
      ((calls checks sameHash requests start).control i) start :=
    request_triple fresh (requests i) start fresh.sound
  have sound : Sound start pool.shared :=
    Program.invariant_of_run (c := contracts) (I := Sound start) compatible hstart fresh.sound
      (fun i s t hs h => h.1 hs) run
  have hgrows : Grows pool.shared later.shared := by
    refine rest.invariant (P := fun _ t => Grows pool.shared t.shared) (.refl _) ?_
    intro fs t e u run' ih step
    exact ih.trans
      (Program.guar_of_step (c := contracts) compatible hstart (run.trans run') step).2.1
  exact ⟨sound.toOnce, fun p mem h => ⟨hgrows.posts p mem, hgrows.recorded p mem h⟩⟩

instance (s : Store ι) (label : Label) : Decidable (allowed s label) := by
  cases label <;> unfold allowed <;> infer_instance

/-- Checks that find no error. -/
def noErrors : Checks where
  attributes response := .ok response
  preferences _ responses := .ok (responses.head?.getD .none)
  localFieldErrors _ _ _ := .ok []
  payload _ _ := .ok .none
  gatewayFieldErrors _ := .ok []

/-- A store of one draft, and a gateway that accepts every request. -/
def oneDraft : Store ι where
  drafts := ⟨[⟨"d1", "82", "a1", "SKU", "generated", "not_started", .none, .none, .none, [], [],
    "", []⟩], by decide⟩
  items := .empty
  batches := .empty
  assets := []
  events := []
  settings _ _ := none
  gateway _ := .ok (.dict [("id", .text "MLM1")])
  requests := 0
  ids _ := ""
  idCount := 0
  posts := []
  owner _ := none
  created := []

theorem oneDraft_fresh : Fresh (oneDraft : Store ι) where
  posts := rfl
  created := rfl
  owner _ := rfl
  index := by simp [oneDraft]
  named := by simp [oneDraft]

end

/-- One call publishes the draft, and the other validates another. -/
def publishThenValidate : Bool → Request
  | false => .validateAndPublishDraft "82" "a1" "d1" "ana"
  | true => .validateDraft "82" "a1" "d2" "ana"

theorem oneDraft_published :
    ∃ es pool fs later,
      Run (restrict Program.Step (Program.Allowed fun _ => allowed))
        (calls noErrors (fun _ _ => false) publishThenValidate oneDraft) es pool ∧
      Run (restrict Program.Step (Program.Allowed fun _ => allowed)) pool fs later ∧
      pool.shared.posts ≠ [] ∧ Once pool.shared ∧
      ∀ p ∈ pool.shared.posts, Recorded pool.shared p → Recorded later.shared p := by
  have hrun : (perform (guarded (fun pool e => decide (allowed pool.shared e.2)) Program.next)
      (List.replicate 15 false)
      (calls noErrors (fun _ _ => false) publishThenValidate oneDraft)).any (fun result =>
        result.2.shared.posts.isEmpty = false && (perform (guarded
          (fun pool e => decide (allowed pool.shared e.2)) Program.next)
          [true, true, true] result.2).isSome) = true := by
    decide +kernel
  obtain ⟨⟨es, pool⟩, hperform, hresult⟩ := (Option.any_eq_true _ _).mp hrun
  simp only [Bool.and_eq_true, decide_eq_true_eq, List.isEmpty_eq_false_iff] at hresult
  obtain ⟨⟨fs, later⟩, hlater⟩ := Option.isSome_iff_exists.mp hresult.2
  have run : Run (restrict Program.Step (Program.Allowed fun _ => allowed))
      (calls noErrors (fun _ _ => false) publishThenValidate oneDraft) es pool :=
    Program.run_of_guarded hperform
  have rest : Run (restrict Program.Step (Program.Allowed fun _ => allowed)) pool fs later :=
    Program.run_of_guarded hlater
  have once := published_once noErrors (fun _ _ => false) publishThenValidate oneDraft_fresh
    run rest
  exact ⟨es, pool, fs, later, run, rest, hresult.1, once.1,
    fun p mem h => (once.2 p mem h).2⟩

/-- Two calls publish the same draft, the second when the first has returned. -/
def publishTwice (_ : Bool) : Request := .validateAndPublishDraft "82" "a1" "d1" "ana"

/-- The marketplace accepts the draft a second time: a published draft is published again. -/
theorem publishTwice_not_once :
    Fresh (oneDraft : Store Bool) ∧
    ∃ es pool, Run Program.Step (calls noErrors (fun _ _ => false) publishTwice oneDraft) es pool ∧
      (∀ i, ∃ result, pool.control i = .ret result) ∧
      (pool.shared.posts.filter fun p => p.draft = "d1").length = 2 ∧ ¬ Once pool.shared := by
  refine ⟨oneDraft_fresh, ?_⟩
  have hrun : (perform Program.next (List.replicate 15 false ++ List.replicate 15 true)
      (calls noErrors (fun _ _ => false) publishTwice oneDraft)).any (fun result =>
        (result.2.shared.posts.filter fun p => p.draft = "d1").length = 2 &&
          [false, true].all fun i => (Program.next i result.2).isNone) = true := by
    decide +kernel
  obtain ⟨⟨es, pool⟩, hperform, hresult⟩ := (Option.any_eq_true _ _).mp hrun
  simp only [Bool.and_eq_true, decide_eq_true_eq, List.all_eq_true] at hresult
  refine ⟨es, pool, Program.run_of_schedule hperform, ?_, hresult.1, ?_⟩
  · intro i
    apply Program.returned_of_next
    exact hresult.2 i (by cases i <;> simp)
  · intro once
    have := once.draft "d1"
    omega

end ZelerPlatform.Publicador
