import ZelerPlatform.Library.RelyGuarantee
import ZelerPlatform.Publicador.Publication

/-!
# Who writes which draft

A call relies on the drafts it works on being left alone and leaves those of others alone. The
invariant ties what the marketplace accepted to what is stored: a draft nobody works on is
recorded as published if it was posted, and an item keeps the one draft it has. Each single
write keeps the invariant under the condition its call has established.
-/

namespace ZelerPlatform.Publicador

open Transition

def Draft.place (draft : Draft) : String × String × String :=
  (draft.sellerId, draft.accountId, draft.sku)

def BatchItem.place (item : BatchItem) : String × String × String :=
  (item.sellerId, item.accountId, item.sku)

section

variable {ι : Type} [DecidableEq ι]

/-- The draft an item names at the start, or one made for it since. -/
def Ref (start s : Store ι) (item draft : String) : Prop :=
  (start.items.byKey item).bind BatchItem.draftId? = some draft ∨ (item, draft) ∈ s.created

/-- What holds of every version of a batch item. -/
structure ItemFacts (start s : Store ι) (item : BatchItem) : Prop where
  origin : ∃ first, start.items.byKey item.id = some first ∧ first.place = item.place
  fresh : item.draftId? = none → (start.items.byKey item.id).bind BatchItem.draftId? = none
  ref : ∀ draft, item.draftId? = some draft → Ref start s item.id draft

/-- The draft of a posting is stored as published with the id of the new item. -/
def Recorded (s : Store ι) (p : Posting) : Prop :=
  ∃ draft, s.drafts.byKey p.draft = some draft ∧ draft.status = "published" ∧
    draft.meliItemId = p.meliItemId

/-- A store from which no call has begun yet: nothing posted, nobody at work, no draft made, a
draft for each SKU of a scope, and a stored draft wherever an item names one. -/
structure Fresh (start : Store ι) : Prop where
  posts : start.posts = []
  created : start.created = []
  owner : ∀ draft, start.owner draft = none
  index : ∀ a ∈ start.drafts.docs, ∀ b ∈ start.drafts.docs, a.place = b.place → a = b
  named : ∀ item ∈ start.items.docs, ∀ draft, item.draftId? = some draft →
    ∃ d, start.drafts.byKey draft = some d ∧ d.sellerId = item.sellerId ∧
      d.accountId = item.accountId

/-- What holds of the store at all times. -/
structure Sound (start s : Store ι) : Prop where
  index : ∀ a ∈ s.drafts.docs, ∀ b ∈ s.drafts.docs, a.place = b.place → a = b
  kept : ∀ id a, start.drafts.byKey id = some a →
    ∃ b, s.drafts.byKey id = some b ∧ b.place = a.place
  items : ∀ item ∈ s.items.docs, ItemFacts start s item
  created : ∀ c ∈ s.created, ∃ first, start.items.byKey c.1 = some first ∧
    first.draftId? = none ∧ ∃ draft, s.drafts.byKey c.2 = some draft ∧ draft.place = first.place
  createdOnce : (s.created.map Prod.fst).Nodup
  itemPosts : ∀ p ∈ s.posts, ∀ item, p.item = some item → Ref start s item p.draft
  once : (s.posts.map Posting.draft).Nodup
  recorded : ∀ p ∈ s.posts, s.owner p.draft = none → Recorded s p

/-- What no step takes back. -/
structure Grows (s t : Store ι) : Prop where
  drafts : ∀ id a, s.drafts.byKey id = some a →
    ∃ b, t.drafts.byKey id = some b ∧ b.place = a.place
  created : ∀ c ∈ s.created, c ∈ t.created
  posts : ∀ p ∈ s.posts, p ∈ t.posts
  recorded : ∀ p ∈ s.posts, Recorded s p → Recorded t p

/-- A draft nobody else works on is left alone. -/
structure Same (id : String) (s t : Store ι) : Prop where
  owner : t.owner id = s.owner id
  draft : t.drafts.byKey id = s.drafts.byKey id
  posts : ∀ p, p.draft = id → (p ∈ t.posts ↔ p ∈ s.posts)

theorem Grows.refl (s : Store ι) : Grows s s :=
  ⟨fun _ a h => ⟨a, h, rfl⟩, fun _ h => h, fun _ h => h, fun _ _ h => h⟩

theorem Grows.trans {s t u : Store ι} (first : Grows s t) (second : Grows t u) : Grows s u where
  drafts id a h := by
    obtain ⟨b, hb, hab⟩ := first.drafts id a h
    obtain ⟨c, hc, hbc⟩ := second.drafts id b hb
    exact ⟨c, hc, hbc.trans hab⟩
  created c h := second.created c (first.created c h)
  posts p h := second.posts p (first.posts p h)
  recorded p h hr := second.recorded p (first.posts p h) (first.recorded p h hr)

theorem Same.refl (id : String) (s : Store ι) : Same id s s := ⟨rfl, rfl, fun _ _ => Iff.rfl⟩

theorem Same.trans {id : String} {s t u : Store ι} (first : Same id s t) (second : Same id t u) :
    Same id s u where
  owner := second.owner.trans first.owner
  draft := second.draft.trans first.draft
  posts p h := (second.posts p h).trans (first.posts p h)

theorem Ref.grows {start s t : Store ι} {item draft : String} (h : Ref start s item draft)
    (grows : Grows s t) : Ref start t item draft := h.imp_right (grows.created _)

theorem ItemFacts.grows {start s t : Store ι} {item : BatchItem} (h : ItemFacts start s item)
    (grows : Grows s t) : ItemFacts start t item :=
  ⟨h.origin, h.fresh, fun draft hd => (h.ref draft hd).grows grows⟩

/-- The facts are those of the id, the place and the draft of an item. -/
theorem ItemFacts.congr {start s : Store ι} {item other : BatchItem} (h : ItemFacts start s item)
    (id : other.id = item.id) (place : other.place = item.place)
    (draft : other.draftId? = item.draftId?) : ItemFacts start s other := by
  refine ⟨?_, ?_, ?_⟩
  · rw [id, place]
    exact h.origin
  · rw [id, draft]
    exact h.fresh
  · rw [id, draft]
    exact h.ref

/-- When the operations of a call are allowed: it begins on a draft nobody works on and that
is not published. -/
def allowed (s : Store ι) : Label → Prop
  | .enter draft =>
      s.owner draft = none ∧ ∀ d, s.drafts.byKey draft = some d → d.status ≠ "published"
  | _ => True

/-- Call `i` relies on the drafts it works on being left alone, and leaves those of others. -/
def frame (start : Store ι) (i : ι) : Frame Label (Store ι) where
  rely s t := (Sound start s → Sound start t) ∧ Grows s t ∧
    ∀ id, s.owner id = some i → Same id s t
  guar s t := (Sound start s → Sound start t) ∧ Grows s t ∧
    ∀ id j, j ≠ i → s.owner id = some j → Same id s t
  allowed := allowed
  refl s := ⟨id, .refl s, fun id _ => .refl id s⟩
  trans := by
    rintro s t u ⟨h, grows, same⟩ ⟨h', grows', same'⟩
    refine ⟨h' ∘ h, grows.trans grows', fun id hid => ?_⟩
    have first := same id hid
    exact first.trans (same' id (first.owner.trans hid))

/-! ### What the single writes guarantee -/

section

variable {start s t : Store ι} {i : ι} {id : String}

/-- Nothing a call is about has changed. -/
structure Agrees (s t : Store ι) : Prop where
  drafts : t.drafts = s.drafts
  items : t.items = s.items
  posts : t.posts = s.posts
  owner : t.owner = s.owner
  created : t.created = s.created

theorem Agrees.recorded (h : Agrees s t) {p : Posting} : Recorded t p ↔ Recorded s p := by
  unfold Recorded
  rw [h.drafts]

theorem Agrees.facts (h : Agrees s t) {item : BatchItem} (facts : ItemFacts start s item) :
    ItemFacts start t item := by
  refine ⟨facts.origin, facts.fresh, fun draft hd => ?_⟩
  unfold Ref
  rw [h.created]
  exact facts.ref draft hd

theorem Agrees.sound (h : Agrees s t) (sound : Sound start s) : Sound start t where
  index := by rw [h.drafts]; exact sound.index
  kept := by rw [h.drafts]; exact sound.kept
  items item mem := h.facts (sound.items item (h.items ▸ mem))
  created := by rw [h.created, h.drafts]; exact sound.created
  createdOnce := by rw [h.created]; exact sound.createdOnce
  itemPosts := by
    unfold Ref
    rw [h.posts, h.created]
    exact sound.itemPosts
  once := by rw [h.posts]; exact sound.once
  recorded p mem none := h.recorded.mpr (sound.recorded p (h.posts ▸ mem) (h.owner ▸ none))

theorem Agrees.guar (h : Agrees s t) : (frame start i).guar s t := by
  refine ⟨h.sound, ⟨fun id a ha => ⟨a, by rw [h.drafts]; exact ha, rfl⟩, ?_, ?_, ?_⟩, ?_⟩
  · rw [h.created]
    exact fun _ h => h
  · rw [h.posts]
    exact fun _ h => h
  · exact fun p _ hr => h.recorded.mpr hr
  · intro id j _ _
    exact ⟨by rw [h.owner], by rw [h.drafts], fun p _ => by rw [h.posts]⟩

/-- A draft written by the call that works on it, in the place it has. -/
theorem guar_replaceDraft {new old : Draft} (held : s.owner new.id = some i)
    (hold : s.drafts.byKey new.id = some old) (place : new.place = old.place)
    (records : ∀ p ∈ s.posts, p.draft = new.id →
      new.status = "published" ∧ new.meliItemId = p.meliItemId) :
    (frame start i).guar s { s with drafts := s.drafts.replace new } := by
  have hget (id : String) : (s.drafts.replace new).byKey id =
      if id = new.id then some new else s.drafts.byKey id := by
    rw [Collection.byKey_replace]
    by_cases h : id = new.id
    · subst h
      rw [if_pos rfl, if_pos rfl, hold]
      rfl
    · rw [if_neg h, if_neg h]
  have hplaces (id : String) (a : Draft) (ha : s.drafts.byKey id = some a) :
      ∃ b, (s.drafts.replace new).byKey id = some b ∧ b.place = a.place := by
    rw [hget]
    by_cases h : id = new.id
    · subst h
      cases hold.symm.trans ha
      exact ⟨new, if_pos rfl, place⟩
    · exact ⟨a, by rw [if_neg h, ha], rfl⟩
  have hrecorded (p : Posting) (mem : p ∈ s.posts) (h : p.draft = new.id ∨ Recorded s p) :
      Recorded { s with drafts := s.drafts.replace new } p := by
    by_cases hp : p.draft = new.id
    · exact ⟨new, by rw [hget, if_pos hp], records p mem hp⟩
    · obtain ⟨draft, hdraft, rest⟩ := h.resolve_left hp
      exact ⟨draft, by rw [hget, if_neg hp, hdraft], rest⟩
  have hgrows : Grows s { s with drafts := s.drafts.replace new } :=
    ⟨hplaces, fun _ h => h, fun _ h => h, fun p mem h => hrecorded p mem (.inr h)⟩
  refine ⟨fun sound => ⟨?_, ?_, fun item mem => (sound.items item mem).grows hgrows, ?_,
    sound.createdOnce, sound.itemPosts, sound.once, ?_⟩, hgrows, ?_⟩
  · obtain ⟨hmem, -⟩ := Collection.byKey_some.mp hold
    have hother (a : Draft) (mem : a ∈ s.drafts.docs) (ha : a.id ≠ new.id)
        (h : a.place = new.place) : False := by
      have := sound.index a mem old hmem (h.trans place)
      subst this
      exact ha (Collection.byKey_some.mp hold).2
    intro a ha b hb hab
    rcases Collection.mem_replace.mp ha with ⟨hma, hna⟩ | ⟨ha, -⟩
    · rcases Collection.mem_replace.mp hb with ⟨hmb, hnb⟩ | ⟨hb, -⟩
      · exact sound.index a hma b hmb hab
      · exact (hother a hma hna (hab.trans (congrArg Draft.place hb))).elim
    · rcases Collection.mem_replace.mp hb with ⟨hmb, hnb⟩ | ⟨hb, -⟩
      · exact (hother b hmb hnb (hab.symm.trans (congrArg Draft.place ha))).elim
      · exact ha.trans hb.symm
  · intro id a ha
    obtain ⟨b, hb, hab⟩ := sound.kept id a ha
    obtain ⟨c, hc, hbc⟩ := hplaces id b hb
    exact ⟨c, hc, hbc.trans hab⟩
  · intro c mem
    obtain ⟨first, hfirst, hnone, draft, hdraft, hplace⟩ := sound.created c mem
    obtain ⟨b, hb, hbd⟩ := hplaces c.2 draft hdraft
    exact ⟨first, hfirst, hnone, b, hb, hbd.trans hplace⟩
  · intro p mem hnone
    exact hrecorded p mem (.inr (sound.recorded p mem hnone))
  · intro id j hj hid
    have hne : id ≠ new.id := by
      rintro rfl
      rw [held] at hid
      exact hj (Option.some.inj hid).symm
    exact ⟨rfl, by show (s.drafts.replace new).byKey id = _; rw [hget, if_neg hne],
      fun _ _ => Iff.rfl⟩

/-- A new draft for an item that has none, in a place no draft has. -/
theorem guar_insertDraft {draft : Draft} {item : BatchItem} {drafts : Collection Draft.id}
    (sound : Sound start s) (held : s.owner draft.id = some i)
    (facts : ItemFacts start s item)
    (none : (start.items.byKey item.id).bind BatchItem.draftId? = none)
    (place : draft.place = item.place) (free : ∀ a ∈ s.drafts.docs, a.place ≠ draft.place)
    (hinsert : s.drafts.insert draft = some drafts) :
    (frame start i).guar s { s with drafts, created := s.created ++ [(item.id, draft.id)] } := by
  have hget (id : String) (a : Draft) (ha : s.drafts.byKey id = some a) :
      drafts.byKey id = some a := by
    rw [Collection.byKey_insert hinsert]
    by_cases h : id = draft.id
    · subst h
      rw [Collection.insert_eq_none.mpr ⟨a, ha⟩] at hinsert
      cases hinsert
    · rw [if_neg h, ha]
  have hnew : drafts.byKey draft.id = some draft := by
    rw [Collection.byKey_insert hinsert, if_pos rfl]
  obtain ⟨first, hfirst, hplace⟩ := facts.origin
  have hgrows : Grows s { s with drafts, created := s.created ++ [(item.id, draft.id)] } := by
    refine ⟨fun id a ha => ⟨a, hget id a ha, rfl⟩, fun c h => List.mem_append_left _ h,
      fun _ h => h, ?_⟩
    rintro p - ⟨d, hd, rest⟩
    exact ⟨d, hget _ d hd, rest⟩
  refine ⟨fun _ => ⟨?_, ?_, ?_, ?_, ?_, ?_, sound.once, ?_⟩, hgrows, ?_⟩
  · intro a ha b hb hab
    rcases (Collection.mem_insert hinsert).mp ha with hma | ha
    · rcases (Collection.mem_insert hinsert).mp hb with hmb | hb
      · exact sound.index a hma b hmb hab
      · exact (free a hma (hab.trans (congrArg Draft.place hb))).elim
    · rcases (Collection.mem_insert hinsert).mp hb with hmb | hb
      · exact (free b hmb (hab.symm.trans (congrArg Draft.place ha))).elim
      · exact ha.trans hb.symm
  · intro id a ha
    obtain ⟨b, hb, hab⟩ := sound.kept id a ha
    exact ⟨b, hget id b hb, hab⟩
  · exact fun other mem => (sound.items other mem).grows hgrows
  · intro c mem
    obtain mem | mem := List.mem_append.mp mem
    · obtain ⟨f, hf, hn, d, hd, hp⟩ := sound.created c mem
      exact ⟨f, hf, hn, d, hget _ d hd, hp⟩
    · obtain rfl := List.mem_singleton.mp mem
      rw [hfirst] at none
      exact ⟨first, hfirst, none, draft, hnew, place.trans hplace.symm⟩
  · rw [List.map_append]
    refine sound.createdOnce.append (List.nodup_singleton _) ?_
    simp only [List.map_cons, List.map_nil, List.disjoint_singleton]
    intro mem
    obtain ⟨c, hc, hitem⟩ := List.mem_map.mp mem
    obtain ⟨f, hf, -, d, hd, hp⟩ := sound.created c hc
    rw [hitem, hfirst] at hf
    cases hf
    exact free d (Collection.byKey_some.mp hd).1 (hp.trans (hplace.trans place.symm))
  · exact fun p mem j hj => (sound.itemPosts p mem j hj).grows hgrows
  · exact fun p mem hnone => hgrows.recorded p mem (sound.recorded p mem hnone)
  · intro id j hj hid
    have hne : id ≠ draft.id := by
      rintro rfl
      rw [held] at hid
      exact hj (Option.some.inj hid).symm
    exact ⟨rfl, by
      show drafts.byKey id = _
      rw [Collection.byKey_insert hinsert, if_neg hne], fun _ _ => Iff.rfl⟩

/-- A version of an item with the facts of one. -/
theorem guar_replaceItem {new : BatchItem} (facts : ItemFacts start s new) :
    (frame start i).guar s { s with items := s.items.replace new } := by
  have hgrows : Grows s { s with items := s.items.replace new } :=
    ⟨fun id a h => ⟨a, h, rfl⟩, fun _ h => h, fun _ h => h, fun _ _ h => h⟩
  refine ⟨fun sound => ⟨sound.index, sound.kept, ?_, sound.created, sound.createdOnce,
    sound.itemPosts, sound.once, sound.recorded⟩, hgrows,
    fun id j _ _ => ⟨rfl, rfl, fun _ _ => Iff.rfl⟩⟩
  intro item mem
  rcases Collection.mem_replace.mp mem with ⟨mem, -⟩ | ⟨rfl, -⟩
  · exact (sound.items item mem).grows hgrows
  · exact facts.grows hgrows

/-- The first posting of a draft, by the call that works on it. -/
theorem guar_post {p : Posting} {n : Nat} (held : s.owner p.draft = some i)
    (first : ∀ q ∈ s.posts, q.draft ≠ p.draft)
    (ref : ∀ item, p.item = some item → Ref start s item p.draft) :
    (frame start i).guar s { s with requests := n, posts := s.posts ++ [p] } := by
  have hgrows : Grows s { s with requests := n, posts := s.posts ++ [p] } :=
    ⟨fun id a h => ⟨a, h, rfl⟩, fun _ h => h, fun _ h => List.mem_append_left _ h,
      fun _ _ h => h⟩
  refine ⟨fun sound => ⟨sound.index, sound.kept,
    fun item mem => (sound.items item mem).grows hgrows, sound.created, sound.createdOnce, ?_, ?_,
    ?_⟩, hgrows, ?_⟩
  · intro q mem item hitem
    obtain mem | mem := List.mem_append.mp mem
    · exact sound.itemPosts q mem item hitem
    · obtain rfl := List.mem_singleton.mp mem
      exact ref item hitem
  · rw [List.map_append]
    refine sound.once.append (List.nodup_singleton _) ?_
    simp only [List.map_cons, List.map_nil, List.disjoint_singleton]
    intro mem
    obtain ⟨q, hq, hdraft⟩ := List.mem_map.mp mem
    exact first q hq hdraft
  · intro q mem hnone
    obtain mem | mem := List.mem_append.mp mem
    · exact sound.recorded q mem hnone
    · obtain rfl := List.mem_singleton.mp mem
      have hnone : s.owner q.draft = none := hnone
      rw [held] at hnone
      cases hnone
  · intro id j hj hid
    refine ⟨rfl, rfl, fun q hq => ?_⟩
    have hne : p.draft ≠ id := by
      rintro rfl
      rw [held] at hid
      exact hj (Option.some.inj hid).symm
    simp only [List.mem_append, List.mem_singleton]
    exact or_iff_left (fun h => hne (h ▸ hq))

/-- A call begins to work on a draft nobody works on. -/
theorem guar_enter (free : s.owner id = none) :
    (frame start i).guar s { s with owner := Function.update s.owner id (some i) } := by
  have hgrows : Grows s { s with owner := Function.update s.owner id (some i) } :=
    ⟨fun _ a h => ⟨a, h, rfl⟩, fun _ h => h, fun _ h => h, fun _ _ h => h⟩
  refine ⟨fun sound => ⟨sound.index, sound.kept,
    fun item mem => (sound.items item mem).grows hgrows, sound.created, sound.createdOnce,
    sound.itemPosts, sound.once, ?_⟩, hgrows, ?_⟩
  · intro p mem hnone
    have hnone : Function.update s.owner id (some i) p.draft = none := hnone
    by_cases h : p.draft = id
    · rw [h, Function.update_self] at hnone
      cases hnone
    · rw [Function.update_of_ne h] at hnone
      exact sound.recorded p mem hnone
  · intro other j _ hother
    have hne : other ≠ id := by
      rintro rfl
      rw [free] at hother
      cases hother
    exact ⟨Function.update_of_ne hne _ _, rfl, fun _ _ => Iff.rfl⟩

/-- A call stops working on a draft whose postings are recorded. -/
theorem guar_leave (held : s.owner id = some i)
    (done : ∀ p ∈ s.posts, p.draft = id → Recorded s p) :
    (frame start i).guar s { s with owner := Function.update s.owner id none } := by
  have hgrows : Grows s { s with owner := Function.update s.owner id none } :=
    ⟨fun _ a h => ⟨a, h, rfl⟩, fun _ h => h, fun _ h => h, fun _ _ h => h⟩
  refine ⟨fun sound => ⟨sound.index, sound.kept,
    fun item mem => (sound.items item mem).grows hgrows, sound.created, sound.createdOnce,
    sound.itemPosts, sound.once, ?_⟩, hgrows, ?_⟩
  · intro p mem hnone
    have hnone : Function.update s.owner id none p.draft = none := hnone
    by_cases h : p.draft = id
    · exact done p mem h
    · rw [Function.update_of_ne h] at hnone
      exact sound.recorded p mem hnone
  · intro other j hj hother
    have hne : other ≠ id := by
      rintro rfl
      rw [held] at hother
      exact hj (Option.some.inj hother).symm
    exact ⟨Function.update_of_ne hne _ _, rfl, fun _ _ => Iff.rfl⟩

end

end

end ZelerPlatform.Publicador
