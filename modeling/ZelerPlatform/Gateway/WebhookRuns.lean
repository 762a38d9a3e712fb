import ZelerPlatform.Gateway.Replay
import ZelerPlatform.Library.Fallible

/-!
# Notifications and replays side by side

Notifications come in and replays run at the same time, one operation after the other in any
order and with any failures. A document stands for one notification that was accepted, a message
for the document it was made of, and a mark for a message: what is marked as published was
published. A notification is published at most once, and by the process that stored it; only
replays publish it again, and a replay that returns has published all that it selected.
-/

namespace ZelerPlatform.Gateway.Webhooks

open Mongo Mongo.Value Transition Transition.Frame Fallible

section

variable {ι : Type} [DecidableEq ι] {libs : Libraries} {requests : ι → Request}
variable {i j : ι} {s t u : World ι} {r : WebhookEvent} {m : Message}
variable {A B : Type} {P R : World ι → Prop} {Q : A → World ι → Prop}

/-! ### What documents and messages stand for -/

/-- What no mark changes. -/
def WebhookEvent.core (e : WebhookEvent) : WebhookEvent :=
  { e with publishedAt := none, classification := none, replayRunId := none }

theorem WebhookEvent.id_of_core {e e' : WebhookEvent} (h : e.core = e'.core) : e.id = e'.id := by
  have hid : e.core.id = e'.core.id := congrArg WebhookEvent.id h
  exact hid

/-- Process `i` has accepted a notification. -/
def Accepted (libs : Libraries) (requests : ι → Request) (i : ι) (r : WebhookEvent) : Prop :=
  ∃ settings request now, requests i = .notify settings request ∧
    receivedEvent libs settings request now = .ok r

omit [DecidableEq ι] in
theorem Accepted.unpublished (h : Accepted libs requests i r) : r.publishedAt = none := by
  obtain ⟨settings, request, now, -, hreceived⟩ := h
  unfold receivedEvent at hreceived
  obtain ⟨-, -, hloaded⟩ := bind_ok hreceived
  split at hloaded
  · cases hloaded
  · unfold newEvent at hloaded
    obtain ⟨id, -, hid⟩ := bind_ok hloaded
    obtain ⟨topic, -, htopic⟩ := bind_ok hid
    obtain ⟨userId, -, huser⟩ := bind_ok htopic
    obtain ⟨resource, -, hresource⟩ := bind_ok huser
    obtain rfl := pure_ok hresource
    rfl
  · cases hloaded

/-- An event of a plan: its document was not marked when it was read. -/
structure Planned (libs : Libraries) (topics : List String) (r : WebhookEvent) (e : PlannedEvent) :
    Prop where
  planned : plannedEvent libs.texts e.event = .ok e
  stored : e.event.core = r.stored.core
  unpublished : e.event.publishedAt = none
  topic : e.event.topic ∈ topics

/-- The message of an event of a plan. -/
def Replays (libs : Libraries) (e : PlannedEvent) (runId : String) (m : Message) : Prop :=
  (if e.topic ∈ sheetsTopics then sheetsMessage libs.texts e runId
    else webhookMessage libs.texts e.event.projected (some runId)) = .ok m

/-- Process `i` may publish this message of a notification that process `j` has stored. -/
inductive Publishes (libs : Libraries) (requests : ι → Request) (i j : ι) (r : WebhookEvent)
    (m : Message) : Prop
  | received {settings request} (notify : requests i = .notify settings request) (own : j = i)
      (message : webhookMessage libs.texts r.document (some request.traceId) = .ok m)
  | replayed {options plan e} (replay : requests i = .replay options plan)
      (planned : Planned libs plan.topics r e) (message : Replays libs e plan.runId m)

/-- The messages of a process. -/
def World.sentBy (s : World ι) (i : ι) : List (Sent ι) :=
  s.sent.filter fun sent => sent.sender = i

/-- The document under an id has its origin, and if it is marked, there is a message of it. -/
structure Stands (libs : Libraries) (requests : ι → Request) (s : World ι) (e : WebhookEvent)
    (i : ι) (r : WebhookEvent) : Prop where
  origin : s.origin e.id = some (i, r)
  core : e.core = r.stored.core
  marked : e.publishedAt ≠ none →
    ∃ sent ∈ s.sent, Publishes libs requests sent.sender i r sent.message

/-- What holds in every state. -/
structure Sound (libs : Libraries) (requests : ι → Request) (s : World ι) : Prop where
  stored : ∀ id e, s.events.byKey id = some e → ∃ i r, Stands libs requests s e i r
  origin : ∀ id i r, s.origin id = some (i, r) →
    r.id = id ∧ Accepted libs requests i r ∧ ∃ e, s.events.byKey id = some e
  sent : ∀ sent ∈ s.sent, ∃ id i r, s.origin id = some (i, r) ∧
    Publishes libs requests sent.sender i r sent.message
  once : ∀ i settings request, requests i = .notify settings request → (s.sentBy i).length ≤ 1

/-! ### Steps -/

/-- Nothing is lost: documents, marks, messages and origins stay. -/
structure Grows (s t : World ι) : Prop where
  origin : ∀ id x, s.origin id = some x → t.origin id = some x
  sent : s.sent <+: t.sent
  stored : ∀ id e, s.events.byKey id = some e → ∃ e', t.events.byKey id = some e' ∧
    e'.core = e.core ∧ (e.publishedAt ≠ none → e'.publishedAt ≠ none)

omit [DecidableEq ι] in
theorem Grows.refl (s : World ι) : Grows s s :=
  ⟨fun _ _ h => h, List.prefix_rfl, fun _ e h => ⟨e, h, rfl, fun h => h⟩⟩

omit [DecidableEq ι] in
theorem Grows.trans (h : Grows s t) (h' : Grows t u) : Grows s u where
  origin id x hx := h'.origin id x (h.origin id x hx)
  sent := h.sent.trans h'.sent
  stored id e he := by
    obtain ⟨e', he', hcore, hmarked⟩ := h.stored id e he
    obtain ⟨e'', he'', hcore', hmarked'⟩ := h'.stored id e' he'
    exact ⟨e'', he'', hcore'.trans hcore, hmarked' ∘ hmarked⟩

/-- Nothing is published or stored in the name of process `i`. -/
structure Leaves (i : ι) (s t : World ι) : Prop where
  sent : t.sentBy i = s.sentBy i
  origin : ∀ id r, t.origin id = some (i, r) → s.origin id = some (i, r)

theorem Leaves.refl (i : ι) (s : World ι) : Leaves i s s := ⟨rfl, fun _ _ h => h⟩

theorem Leaves.trans (h : Leaves i s t) (h' : Leaves i t u) : Leaves i s u :=
  ⟨h'.sent.trans h.sent, fun id r hr => h.origin id r (h'.origin id r hr)⟩

/-- What a process relies on, and what it guarantees. -/
def frame (libs : Libraries) (requests : ι → Request) (i : ι) : Frame Label (World ι) where
  rely s t := (Sound libs requests s → Sound libs requests t) ∧ Grows s t ∧ Leaves i s t
  guar s t := (Sound libs requests s → Sound libs requests t) ∧ Grows s t ∧
    ∀ j, j ≠ i → Leaves j s t
  allowed _ _ := True
  refl s := ⟨fun h => h, .refl s, .refl i s⟩
  trans h h' := ⟨fun hs => h'.1 (h.1 hs), h.2.1.trans h'.2.1, h.2.2.trans h'.2.2⟩

/-- The ledger and the count of the operations play no part. -/
theorem same_step (events : t.events = s.events) (sent : t.sent = s.sent)
    (origin : t.origin = s.origin) :
    (Sound libs requests s → Sound libs requests t) ∧ Grows s t ∧ ∀ j, Leaves j s t := by
  cases s
  cases t
  dsimp only at events sent origin
  subst events sent origin
  refine ⟨fun h => ⟨fun id e he => ?_, h.origin, h.sent, h.once⟩, ⟨fun _ _ h => h, List.prefix_rfl,
    fun _ e h => ⟨e, h, rfl, fun h => h⟩⟩, fun j => ⟨rfl, fun _ _ h => h⟩⟩
  obtain ⟨i, r, hstands⟩ := h.stored id e he
  exact ⟨i, r, hstands.origin, hstands.core, hstands.marked⟩

theorem guar_of_same (events : t.events = s.events) (sent : t.sent = s.sent)
    (origin : t.origin = s.origin) : (frame libs requests i).guar s t := by
  obtain ⟨hsound, hgrows, hleaves⟩ := same_step events sent origin
  exact ⟨hsound, hgrows, fun j _ => hleaves j⟩

theorem rely_of_same (events : t.events = s.events) (sent : t.sent = s.sent)
    (origin : t.origin = s.origin) : (frame libs requests i).rely s t := by
  obtain ⟨hsound, hgrows, hleaves⟩ := same_step events sent origin
  exact ⟨hsound, hgrows, hleaves i⟩

theorem guar_of_taken {n : Nat} (h : (frame libs requests i).guar { s with taken := n } t) :
    (frame libs requests i).guar s t := by
  obtain ⟨hsound, hgrows, hleaves⟩ :
      (Sound libs requests s → Sound libs requests { s with taken := n }) ∧
        Grows s { s with taken := n } ∧ ∀ j, Leaves j s { s with taken := n } :=
    same_step rfl rfl rfl
  exact ⟨fun hs => h.1 (hsound hs), hgrows.trans h.2.1, fun j hj => (hleaves j).trans (h.2.2 j hj)⟩

/-- A mark is written to a document of which there is a message. -/
theorem guar_of_mark (stored : WebhookEvent) {new : WebhookEvent}
    (found : s.events.byKey new.id = some stored)
    (core : new.core = stored.core) (marked : new.publishedAt ≠ none)
    (told : ∀ j r, s.origin new.id = some (j, r) →
      ∃ sent ∈ s.sent, Publishes libs requests sent.sender j r sent.message) :
    (frame libs requests i).guar s { s with events := s.events.replace new } := by
  have hreplace {id : String} {e : WebhookEvent} (he : s.events.byKey id = some e) :
      (s.events.replace new).byKey id = if id = new.id then some new else some e := by
    rw [Collection.byKey_replace, he]
    rfl
  refine ⟨fun hs => ⟨?_, ?_, hs.sent, hs.once⟩, ⟨fun _ _ h => h, List.prefix_rfl, ?_⟩,
    fun j _ => ⟨rfl, fun _ _ h => h⟩⟩
  · intro id e he
    -- The document under the id is the new one; the others are as they were.
    by_cases hid : id = new.id
    · obtain ⟨i, r, hstands⟩ := hs.stored new.id stored found
      have hstored : stored.id = new.id := (WebhookEvent.id_of_core core).symm
      have horigin : s.origin new.id = some (i, r) := hstored ▸ hstands.origin
      have hnew := hreplace (hid ▸ found)
      rw [if_pos hid] at hnew
      obtain rfl : new = e := Option.some.inj (hnew.symm.trans he)
      exact ⟨i, r, horigin, core.trans hstands.core, fun _ => told i r horigin⟩
    · have hold : s.events.byKey id = some e := by
        have he' : (s.events.replace new).byKey id = some e := he
        rw [Collection.byKey_replace, if_neg hid] at he'
        exact he'
      obtain ⟨i, r, hstands⟩ := hs.stored id e hold
      exact ⟨i, r, hstands.origin, hstands.core, hstands.marked⟩
  · intro id i r horigin
    obtain ⟨hkey, haccepted, e, he⟩ := hs.origin id i r horigin
    refine ⟨hkey, haccepted, ?_⟩
    by_cases hid : id = new.id
    · exact ⟨new, (hreplace he).trans (if_pos hid)⟩
    · exact ⟨e, (hreplace he).trans (if_neg hid)⟩
  · intro id e he
    by_cases hid : id = new.id
    · obtain rfl : stored = e := Option.some.inj (found.symm.trans (hid ▸ he))
      exact ⟨new, (hreplace he).trans (if_pos hid), core, fun _ => marked⟩
    · exact ⟨e, (hreplace he).trans (if_neg hid), rfl, fun h => h⟩

/-- A message is sent; one of a notification is the first of its process. -/
theorem guar_of_publish {id : String} (origin : s.origin id = some (j, r))
    (publishes : Publishes libs requests i j r m)
    (first : ∀ settings request, requests i = .notify settings request → s.sentBy i = []) :
    (frame libs requests i).guar s { s with sent := s.sent ++ [⟨i, m⟩] } := by
  have hgrown : s.sent <+: s.sent ++ [⟨i, m⟩] := List.prefix_append ..
  refine ⟨fun hs => ⟨?_, hs.origin, ?_, ?_⟩, ⟨fun _ _ h => h, hgrown,
    fun _ e h => ⟨e, h, rfl, fun h => h⟩⟩, fun k hk => ⟨?_, fun _ _ h => h⟩⟩
  · intro id e he
    obtain ⟨k, r', hstands⟩ := hs.stored id e he
    refine ⟨k, r', hstands.origin, hstands.core, fun hmarked => ?_⟩
    obtain ⟨sent, hmem, hsent⟩ := hstands.marked hmarked
    exact ⟨sent, hgrown.subset hmem, hsent⟩
  · intro sent hmem
    obtain hold | hnew := List.mem_append.mp hmem
    · exact hs.sent sent hold
    · obtain rfl := List.mem_singleton.mp hnew
      exact ⟨id, j, r, origin, publishes⟩
  · intro k settings request hk
    show ((s.sent ++ [(⟨i, m⟩ : Sent ι)]).filter fun sent => sent.sender = k).length ≤ 1
    rw [List.filter_append, List.length_append]
    by_cases hik : i = k
    -- The one message more is the first of its process.
    · subst hik
      have hnone : s.sent.filter (fun sent => sent.sender = i) = [] := first settings request hk
      rw [hnone]
      simp
    · have hold : (s.sent.filter fun sent => sent.sender = k).length ≤ 1 :=
        hs.once k settings request hk
      simpa [hik] using hold
  · show (s.sent ++ [(⟨i, m⟩ : Sent ι)]).filter (fun sent => sent.sender = k) = s.sentBy k
    rw [List.filter_append]
    simp [World.sentBy, Ne.symm hk]

/-- A notification is stored under an id that was free. -/
theorem guar_of_insert {events : Collection WebhookEvent.id} (sound : Sound libs requests s)
    (accepted : Accepted libs requests i r) (insert : s.events.insert r.stored = some events) :
    (frame libs requests i).guar s
      { s with events, origin := Function.update s.origin r.id (some (i, r)) } := by
  have hfree (x : ι × WebhookEvent) : s.origin r.id ≠ some x := by
    intro h
    -- Where there is an origin there is a document, and the id was free.
    obtain ⟨-, -, e, he⟩ := sound.origin r.id x.1 x.2 h
    have hnone : s.events.insert r.stored = none := Collection.insert_eq_none.mpr ⟨e, he⟩
    rw [hnone] at insert
    cases insert
  have hkept (id : String) (x : ι × WebhookEvent) (h : s.origin id = some x) :
      Function.update s.origin r.id (some (i, r)) id = some x := by
    rw [Function.update_of_ne, h]
    rintro rfl
    exact hfree x h
  have hbyKey (id : String) :
      events.byKey id = if id = r.id then some r.stored else s.events.byKey id :=
    Collection.byKey_insert insert
  have hold (id : String) (e : WebhookEvent) (he : s.events.byKey id = some e) :
      events.byKey id = some e := by
    rw [hbyKey, if_neg, he]
    rintro rfl
    obtain ⟨k, r', hstands⟩ := sound.stored _ e he
    have hid : e.id = r.id := (Collection.byKey_some.mp he).2
    exact hfree _ (hid ▸ hstands.origin)
  refine ⟨fun hs => ⟨?_, ?_, ?_, hs.once⟩, ⟨hkept, List.prefix_rfl,
    fun id e he => ⟨e, hold id e he, rfl, fun h => h⟩⟩, fun k hk => ⟨rfl, fun id r' h => ?_⟩⟩
  · intro id e he
    have he' : events.byKey id = some e := he
    rw [hbyKey] at he'
    split at he'
    · obtain rfl := Option.some.inj he'
      exact ⟨i, r, Function.update_self .., rfl, fun h => absurd accepted.unpublished h⟩
    · obtain ⟨k, r', hstands⟩ := hs.stored id e he'
      exact ⟨k, r', hkept _ _ hstands.origin, hstands.core, hstands.marked⟩
  · intro id k r' h
    by_cases hid : id = r.id
    · subst hid
      have hself : Function.update s.origin r.id (some (i, r)) r.id = some (k, r') := h
      rw [Function.update_self] at hself
      obtain ⟨rfl, rfl⟩ := Prod.mk.inj (Option.some.inj hself)
      exact ⟨rfl, accepted, r.stored, (hbyKey _).trans (if_pos rfl)⟩
    · have hs' : s.origin id = some (k, r') := (Function.update_of_ne hid _ _).symm.trans h
      obtain ⟨hkey, haccepted, e, he⟩ := hs.origin id k r' hs'
      exact ⟨hkey, haccepted, e, hold id e he⟩
  · intro sent hmem
    obtain ⟨id, k, r', horigin, hpublishes⟩ := hs.sent sent hmem
    exact ⟨id, k, r', hkept _ _ horigin, hpublishes⟩
  · by_cases hid : id = r.id
    · subst hid
      have hself : Function.update s.origin r.id (some (i, r)) r.id = some (k, r') := h
      rw [Function.update_self] at hself
      exact absurd (Prod.mk.inj (Option.some.inj hself)).1.symm hk
    · exact (Function.update_of_ne hid _ _).symm.trans h

/-! ### Calls -/

theorem sound_stable : (frame libs requests i).Stable (Sound libs requests) := fun _ _ h => h.1

/-- The others keep everything sound. -/
def soundly (libs : Libraries) (requests : ι → Request) (i : ι) : (frame libs requests i).Kept :=
  ⟨Sound libs requests, sound_stable⟩

/-- A call that ends in `Q`, or raises. -/
abbrev Spec (libs : Libraries) (requests : ι → Request) (i : ι) (P : World ι → Prop) (p : Call ι A)
    (Q : A → World ι → Prop) : Prop :=
  (soundly libs requests i).Spec P p Q

/-- What no step breaks. -/
def Lasting (R : World ι → Prop) : Prop := ∀ s t, Grows s t → R s → R t

theorem Lasting.stable (h : Lasting R) : (frame libs requests i).Stable R :=
  fun s t hst => h s t hst.2.1

omit [DecidableEq ι] in
theorem Lasting.and {R' : World ι → Prop} (h : Lasting R) (h' : Lasting R') :
    Lasting fun s => R s ∧ R' s := fun s t hst hs => ⟨h s t hst hs.1, h' s t hst hs.2⟩

omit [DecidableEq ι] in
theorem Lasting.imp {c : Prop} (h : Lasting R) : Lasting fun s => c → R s :=
  fun s t hst hs hc => h s t hst (hs hc)

/-- An assertion that the others keep, and under which everything is sound. -/
abbrev Holds (libs : Libraries) (requests : ι → Request) (i : ι) (P : World ι → Prop) : Prop :=
  (soundly libs requests i).Holds P

theorem holds_sound : Holds libs requests i (Sound libs requests) := .self

theorem Spec.atomically {label : Label} {f : Turn → World ι → Except WebhookError A × World ι}
    (hP : Holds libs requests i P) (hQ : ∀ a, (frame libs requests i).Stable (Q a))
    (h : ∀ turn s, P s → (frame libs requests i).guar s (f turn s).2 ∧
      ∀ a, (f turn s).1 = .ok a → Q a (f turn s).2) :
    Spec libs requests i P (Webhooks.atomically label f) Q := by
  refine Frame.Triple.op hP.stable (fun a => sound_stable.and (hQ a)) (fun _ => sound_stable)
    fun s hs _ => ?_
  have hsame : (frame libs requests i).guar s { s with taken := s.taken + 1 } :=
    guar_of_same rfl rfl rfl
  have hs' : P { s with taken := s.taken + 1 } := hP.stable s _ (rely_of_same rfl rfl rfl) hs
  obtain ⟨hguar, hpost⟩ := h (s.turns s.taken) _ hs'
  have hsound := hguar.1 (hP.sound _ hs')
  dsimp only
  split
  · refine ⟨guar_of_taken hguar, ?_⟩
    split
    · next a ha => exact ⟨hsound, hpost a ha⟩
    · exact hsound
  · exact ⟨hsame, hP.sound _ hs'⟩
  · exact ⟨guar_of_taken hguar, hsound⟩

/-- An operation on the ledger, or one that only reads. -/
theorem Spec.quiet {label : Label} {f : Turn → World ι → Except WebhookError A × World ι}
    (hP : Holds libs requests i P) (hQ : ∀ a, (frame libs requests i).Stable (Q a))
    (same : ∀ turn s, (f turn s).2.events = s.events ∧ (f turn s).2.sent = s.sent ∧
      (f turn s).2.origin = s.origin)
    (h : ∀ turn s a, P s → (f turn s).1 = .ok a → Q a s) :
    Spec libs requests i P (Webhooks.atomically label f) fun a s => P s ∧ Q a s := by
  refine .atomically hP (fun a => hP.stable.and (hQ a)) fun turn s hs => ?_
  obtain ⟨hevents, hsent, horigin⟩ := same turn s
  have hrely : (frame libs requests i).rely s (f turn s).2 := rely_of_same hevents hsent horigin
  exact ⟨guar_of_same hevents hsent horigin, fun a ha =>
    ⟨hP.stable _ _ hrely hs, hQ a _ _ hrely (h turn s a hs ha)⟩⟩

/-- What lasts is carried along. -/
theorem Spec.keep {p : Call ι A} (h : Spec libs requests i P p Q) (hR : Lasting R) :
    Spec libs requests i (fun s => P s ∧ R s) p fun a s => Q a s ∧ R s :=
  Frame.Kept.Spec.frame h hR.stable fun s t hst => hR s t hst.2.1

/-- A guarded block and what follows each of its outcomes. -/
theorem Spec.attempt {p : Call ι A} {k : Except WebhookError A → Call ι B} {T : B → World ι → Prop}
    (first : Spec libs requests i P p Q) (hQ : ∀ a, (frame libs requests i).Stable (Q a))
    (hR : Lasting R)
    (returned : ∀ a, Spec libs requests i (fun s => Sound libs requests s ∧ Q a s ∧ R s)
      (k (.ok a)) T)
    (raised : ∀ e, Spec libs requests i (fun s => Sound libs requests s ∧ R s) (k (.error e)) T) :
    Spec libs requests i (fun s => P s ∧ R s) (Webhooks.attempt p >>= k) T :=
  Frame.Kept.Spec.attempt (I := soundly libs requests i) first hQ hR.stable
    (fun s t hst => hR s t hst.2.1) returned raised

/-! ### Messages -/

omit [DecidableEq ι] in
theorem sent_lasting (sent : Sent ι) : Lasting fun s => sent ∈ s.sent :=
  fun _ _ h hs => h.sent.subset hs

omit [DecidableEq ι] in
theorem origin_lasting (id : String) (x : ι × WebhookEvent) :
    Lasting fun s => s.origin id = some x := fun _ _ h hs => h.origin id x hs

theorem unsent_stable : (frame libs requests i).Stable fun s => s.sentBy i = [] :=
  fun _ _ h hs => h.2.2.sent.trans hs

theorem unstored_stable :
    (frame libs requests i).Stable fun s => ∀ id r, s.origin id ≠ some (i, r) :=
  fun _ _ h hs id r hr => hs id r (h.2.2.origin id r hr)

/-- The message is one of a stored notification, and the first one if a notification sends it. -/
structure MayPublish (libs : Libraries) (requests : ι → Request) (i : ι) (m : Message)
    (s : World ι) : Prop where
  publishes : ∃ id j r, s.origin id = some (j, r) ∧ Publishes libs requests i j r m
  first : ∀ settings request, requests i = .notify settings request → s.sentBy i = []

theorem mayPublish_stable : (frame libs requests i).Stable (MayPublish libs requests i m) := by
  intro s t hst hs
  obtain ⟨id, j, r, horigin, hpublishes⟩ := hs.publishes
  exact ⟨⟨id, j, r, hst.2.1.origin id _ horigin, hpublishes⟩,
    fun settings request hi => hst.2.2.sent.trans (hs.first settings request hi)⟩

theorem publishToExchange_spec :
    Spec libs requests i (fun s => Sound libs requests s ∧ MayPublish libs requests i m s)
      (publishToExchange i m) fun _ s => (⟨i, m⟩ : Sent ι) ∈ s.sent := by
  have hholds : Holds libs requests i fun s =>
      Sound libs requests s ∧ MayPublish libs requests i m s := holds_sound.and mayPublish_stable
  refine Kept.Spec.bind (.lift hholds (Q := fun _ => MayPublish libs requests i m)
    (fun _ => mayPublish_stable) fun _ s _ hs => hs.2) fun _ => ?_
  refine Spec.atomically hholds (fun _ => (sent_lasting _).stable) fun turn s hs => ?_
  obtain ⟨id, j, r, horigin, hpublishes⟩ := hs.2.publishes
  exact ⟨guar_of_publish horigin hpublishes hs.2.first,
    fun _ _ => List.mem_append_right _ (List.mem_singleton_self _)⟩

/-! ### Notifications -/

/-- There is a message of the notification that the process has stored. -/
def Known (libs : Libraries) (requests : ι → Request) (i : ι) (r : WebhookEvent) (s : World ι) :
    Prop :=
  (∃ sent ∈ s.sent, Publishes libs requests sent.sender i r sent.message) ∧
    s.origin r.id = some (i, r)

omit [DecidableEq ι] in
theorem known_lasting : Lasting (Known libs requests i r) := by
  rintro s t hst ⟨⟨sent, hmem, hpublishes⟩, horigin⟩
  exact ⟨⟨sent, hst.sent.subset hmem, hpublishes⟩, hst.origin _ _ horigin⟩

theorem markPublished_spec :
    Spec libs requests i (fun s => Sound libs requests s ∧ Known libs requests i r s)
      (markPublished r) fun _ _ => True := by
  refine .atomically (holds_sound.and known_lasting.stable) (fun _ _ _ _ h => h) fun turn s hs => ?_
  refine ⟨?_, fun _ _ => trivial⟩
  obtain ⟨-, htold, horigin⟩ := hs
  split
  · exact guar_of_same rfl rfl rfl
  · next stored hstored =>
      have hkey : stored.id = r.id := (Collection.byKey_some.mp hstored).2
      refine guar_of_mark stored ?_ rfl (Option.some_ne_none _) fun j r' hr' => ?_
      · show s.events.byKey stored.id = some stored
        rw [hkey, hstored]
      · have hr : s.origin stored.id = some (j, r') := hr'
        rw [hkey, horigin] at hr
        obtain ⟨rfl, rfl⟩ := Prod.mk.inj (Option.some.inj hr)
        exact htold

section

variable {settings : GatewaySettings} {request : WebhookRequest}

theorem publishAndMark_spec (notify : requests i = .notify settings request) :
    Spec libs requests i (fun s => Sound libs requests s ∧ s.sentBy i = [] ∧
      s.origin r.id = some (i, r)) (publishAndMark libs.texts i r request.traceId)
      fun _ _ => True := by
  have horigin := origin_lasting r.id (i, r)
  have hpublish : Spec libs requests i (fun s => Sound libs requests s ∧ s.sentBy i = [] ∧
      s.origin r.id = some (i, r))
      (publishWebhookEvent libs.texts i r.document (some request.traceId))
      fun _ => Known libs requests i r := by
    refine Kept.Spec.bind (Q := fun m s => (webhookMessage libs.texts r.document
      (some request.traceId) = .ok m ∧ s.sentBy i = []) ∧ s.origin r.id = some (i, r))
      (.lift (holds_sound.and (unsent_stable.and horigin.stable))
        (fun m => (Frame.Stable.pure.and unsent_stable).and horigin.stable)
        fun m s hm hs => ⟨⟨hm, hs.2.1⟩, hs.2.2⟩) fun m => ?_
    refine Kept.Spec.with_fact (fun s hs => hs.2.1.1) fun hm => ?_
    refine ((publishToExchange_spec.keep horigin).pre fun s hs => ⟨⟨hs.1, ?_, ?_⟩, hs.2.2⟩).post
      fun _ s _ hs => ⟨⟨_, hs.1, .received notify rfl hm⟩, hs.2⟩
    · exact ⟨r.id, i, r, hs.2.2, .received notify rfl hm⟩
    · exact fun _ _ _ => hs.2.1.2
  exact Kept.Spec.bind hpublish fun _ => markPublished_spec

theorem classifyAndPublish_spec (notify : requests i = .notify settings request)
    (settings' : GatewaySettings) :
    Spec libs requests i (fun s => Sound libs requests s ∧ s.sentBy i = [] ∧
      s.origin r.id = some (i, r)) (classifyAndPublish libs.texts i settings' r request.traceId)
      fun _ s => s.origin r.id = some (i, r) := by
  have horigin := origin_lasting r.id (i, r)
  have hholds : Holds libs requests i fun s => Sound libs requests s ∧ s.sentBy i = [] ∧
      s.origin r.id = some (i, r) := holds_sound.and (unsent_stable.and horigin.stable)
  unfold classifyAndPublish
  split
  · exact .pure hholds horigin.stable fun s hs => hs.2.2
  · refine (Spec.attempt (publishAndMark_spec notify) (fun _ _ _ _ h => h) horigin (fun _ => ?_)
      fun _ => ?_).pre fun s hs => ⟨hs, hs.2.2⟩
    · exact .pure (holds_sound.and (Frame.Stable.pure.and horigin.stable)) horigin.stable
        fun s hs => hs.2.2
    · exact .pure (holds_sound.and horigin.stable) horigin.stable fun s hs => hs.2

/-- What is known of the document of a notification that was received. -/
def Received (libs : Libraries) (requests : ι → Request) (i : ι) (duplicate : Bool)
    (s : World ι) : Prop :=
  ∃ r, Accepted libs requests i r ∧
    if duplicate then s.sentBy i = [] ∧ ∃ j r', j ≠ i ∧ s.origin r.id = some (j, r')
    else s.origin r.id = some (i, r)

theorem received_stable {duplicate : Bool} :
    (frame libs requests i).Stable (Received libs requests i duplicate) := by
  rintro s t hst ⟨r, haccepted, h⟩
  refine ⟨r, haccepted, ?_⟩
  cases duplicate with
  | true =>
      obtain ⟨hunsent, j, r', hj, horigin⟩ := h
      exact ⟨hst.2.2.sent.trans hunsent, j, r', hj, hst.2.1.origin _ _ horigin⟩
  | false => exact hst.2.1.origin _ _ h

theorem insertOnce_spec (accepted : Accepted libs requests i r) :
    Spec libs requests i (fun s => Sound libs requests s ∧ s.sentBy i = [] ∧
      ∀ id r, s.origin id ≠ some (i, r)) (insertOnce i r)
      fun duplicate s => s.sentBy i = [] ∧ if duplicate then Received libs requests i true s
        else s.origin r.id = some (i, r) := by
  refine .atomically (holds_sound.and (unsent_stable.and unstored_stable)) (fun duplicate => ?_)
    fun turn s hs => ?_
  · cases duplicate with
    | true => exact unsent_stable.and received_stable
    | false => exact unsent_stable.and (origin_lasting _ _).stable
  · obtain ⟨hsound, hunsent, hunstored⟩ := hs
    split
    -- The document that is there is somebody else's: this process has stored none.
    · next hinsert =>
        refine ⟨guar_of_same rfl rfl rfl, fun duplicate hduplicate => ?_⟩
        obtain rfl := Except.ok.inj hduplicate
        obtain ⟨e, he⟩ := Collection.insert_eq_none.mp hinsert
        obtain ⟨j, r', hstands⟩ := hsound.stored _ e he
        have hid : e.id = r.id := (Collection.byKey_some.mp he).2
        refine ⟨hunsent, r, accepted, hunsent, j, r', ?_, hid ▸ hstands.origin⟩
        rintro rfl
        exact hunstored _ r' hstands.origin
    · next events hinsert =>
        refine ⟨guar_of_insert hsound accepted hinsert, fun duplicate hduplicate => ?_⟩
        obtain rfl := Except.ok.inj hduplicate
        exact ⟨hunsent, Function.update_self ..⟩

theorem receiveMeliWebhook_spec (notify : requests i = .notify settings request) :
    Spec libs requests i (fun s => Sound libs requests s ∧ s.sentBy i = [] ∧
      ∀ id r, s.origin id ≠ some (i, r)) (receiveMeliWebhook i libs settings request)
      (Received libs requests i) := by
  have hfresh : Holds libs requests i fun s => Sound libs requests s ∧ s.sentBy i = [] ∧
      ∀ id r, s.origin id ≠ some (i, r) := holds_sound.and (unsent_stable.and unstored_stable)
  refine Kept.Spec.bind (Spec.quiet hfresh (Q := fun _ _ => True) (fun _ => Frame.Stable.pure)
    (fun _ _ => ⟨rfl, rfl, rfl⟩) fun _ _ _ _ _ => trivial) fun now => ?_
  refine (Kept.Spec.bind (Q := fun r s => (s.sentBy i = [] ∧ ∀ id r, s.origin id ≠ some (i, r)) ∧
    Accepted libs requests i r) (.lift hfresh
      (fun r => (unsent_stable.and unstored_stable).and Frame.Stable.pure)
      fun r s hr hs => ⟨hs.2, settings, request, now, notify, hr⟩) fun r => ?_).pre
    fun s hs => hs.2.1
  refine Kept.Spec.with_fact (fun s hs => hs.2.2) fun haccepted => ?_
  refine Kept.Spec.bind ((insertOnce_spec haccepted).pre fun s hs => ⟨hs.1, hs.2.1⟩)
    fun duplicate => ?_
  cases duplicate with
  | true =>
      exact .pure (holds_sound.and (unsent_stable.and received_stable)) received_stable
        fun s hs => hs.2.2
  | false =>
      refine Kept.Spec.bind (classifyAndPublish_spec notify settings) fun _ => ?_
      exact .pure (holds_sound.and (origin_lasting _ _).stable) received_stable
        fun s hs => ⟨r, haccepted, hs.2⟩

end

/-! ### Plans -/

theorem mem_coalesce {events : List PlannedEvent} {state : Coalesced}
    {x : ResourceKey × PlannedEvent}
    (mem : x ∈ (events.foldl coalesce state).1) : x ∈ state.1 ∨ x.2 ∈ events := by
  induction events generalizing state with
  | nil => exact .inl mem
  | cons e rest ih =>
      obtain hstate | hrest := ih mem
      · unfold coalesce at hstate
        split at hstate
        · obtain rfl | hold := Dict.mem_set hstate
          · exact .inr (List.mem_cons_self ..)
          · exact .inl hold
        · split at hstate
          · obtain rfl | hold := Dict.mem_set hstate
            · exact .inr (List.mem_cons_self ..)
            · exact .inl hold
          · exact .inl hstate
      · exact .inr (List.mem_cons_of_mem _ hrest)

/-- Nothing is selected that was not loaded. -/
theorem mem_selectTopic {options : PlanOptions} {topic : String} {events : List PlannedEvent}
    {e : PlannedEvent} (mem : e ∈ (selectTopic options topic events).1) : e ∈ events := by
  unfold selectTopic at mem
  split at mem
  · cases mem
  · split at mem
    · obtain ⟨x, hx, rfl⟩ := List.mem_map.mp mem
      obtain hnone | hmem := mem_coalesce hx
      · cases hnone
      · exact hmem
    · exact mem

/-- The event of a plan, with the notification it stands for. -/
def Stored (libs : Libraries) (topics : List String) (e : PlannedEvent) (s : World ι) : Prop :=
  ∃ j r, s.origin e.event.id = some (j, r) ∧ Planned libs topics r e

/-- Every event of the plan that is selected stands for a notification. -/
def Fine (libs : Libraries) (topics : List String) (plan : ReplayPlan) (s : World ι) : Prop :=
  ∀ e ∈ plan.selected, Stored libs topics e s

/-- A document that was not marked when it was read. -/
def Loaded (topic : String) (e : WebhookEvent) (s : World ι) : Prop :=
  e.publishedAt = none ∧ e.topic = topic ∧
    ∃ j r, s.origin e.id = some (j, r) ∧ e.core = r.stored.core

section

variable {topics : List String} {plan : ReplayPlan} {e : PlannedEvent} {planOptions : PlanOptions}
variable {topic : String}

omit [DecidableEq ι] in
theorem stored_lasting : Lasting (Stored (ι := ι) libs topics e) := by
  rintro s t hst ⟨j, r, horigin, hplanned⟩
  exact ⟨j, r, hst.origin _ _ horigin, hplanned⟩

omit [DecidableEq ι] in
theorem fine_lasting : Lasting (Fine (ι := ι) libs topics plan) :=
  fun s t hst hs e mem => stored_lasting s t hst (hs e mem)

omit [DecidableEq ι] in
theorem loaded_lasting (loaded : List WebhookEvent) :
    Lasting fun s : World ι => ∀ e ∈ loaded, Loaded topic e s := by
  intro s t hst hs e mem
  obtain ⟨hunpublished, htopic, j, r, horigin, hcore⟩ := hs e mem
  exact ⟨hunpublished, htopic, j, r, hst.origin _ _ horigin, hcore⟩

theorem checkCount_spec : Spec libs requests i (Sound libs requests)
    (checkCount planOptions topic) fun _ _ => True := by
  unfold checkCount
  split
  · exact .pure holds_sound Frame.Stable.pure fun _ _ => trivial
  · refine Kept.Spec.bind (Spec.quiet holds_sound (Q := fun _ _ => True)
      (fun _ => Frame.Stable.pure) (fun _ _ => ⟨rfl, rfl, rfl⟩) fun _ _ _ _ _ => trivial)
      fun actual => ?_
    have hholds : Holds libs requests i fun s =>
        Sound libs requests s ∧ Sound libs requests s ∧ True :=
      holds_sound.and (sound_stable.and Frame.Stable.pure)
    split
    · exact .raise hholds
    · exact .pure hholds Frame.Stable.pure fun _ _ => trivial

theorem loadTopicEvents_spec : Spec libs requests i (Sound libs requests)
    (loadTopicEvents planOptions topic) fun loaded s => ∀ e ∈ loaded, Loaded topic e s := by
  refine Kept.Spec.bind checkCount_spec fun _ => ?_
  refine (Spec.quiet holds_sound (fun loaded => (loaded_lasting loaded).stable)
    (fun _ _ => ⟨rfl, rfl, rfl⟩) fun turn s loaded hs hloaded => ?_).pre (fun s hs => hs.1)
    |>.post fun _ _ _ hs => hs.2
  obtain rfl := Except.ok.inj hloaded
  intro e mem
  have hsorted : e ∈ (s.events.find (unpublished topic)).mergeSort
      fun a b => a.receivedAt ≤ b.receivedAt := by
    unfold findTopicEvents at mem
    dsimp only at mem
    split at mem
    · exact List.mem_of_mem_take mem
    · exact mem
  obtain ⟨hmem, hfilter⟩ := Collection.find_mem.mp (List.mem_mergeSort.mp hsorted)
  obtain ⟨hpublished, htopic⟩ : e.publishedAt = none ∧ e.topic = topic := by
    simpa [unpublished] using hfilter
  obtain ⟨j, r, hstands⟩ := hs.stored e.id e (Collection.byKey_some.mpr ⟨hmem, rfl⟩)
  exact ⟨hpublished, htopic, j, r, hstands.origin, hstands.core⟩

theorem event_of_planned {texts : EnvelopeTexts} {event : WebhookEvent}
    (h : plannedEvent texts event = .ok e) : e.event = event ∧ e.id = event.id ∧
      e.topic = event.topic ∧ validateRequiredFields event = .ok () := by
  obtain ⟨⟨⟩, hvalid, hclassify⟩ := bind_ok h
  obtain ⟨classified, -, hlast⟩ := bind_ok hclassify
  obtain rfl := pure_ok hlast
  exact ⟨rfl, rfl, rfl, hvalid⟩

theorem planTopic_spec (mem : topic ∈ topics) : Spec libs requests i
    (fun s => Sound libs requests s ∧ Fine libs topics plan s)
    (planTopic libs.texts planOptions plan topic)
    fun plan' s => plan'.runId = plan.runId ∧ Fine libs topics plan' s := by
  refine Kept.Spec.bind (loadTopicEvents_spec.keep fine_lasting) fun loaded => ?_
  have hloaded : Holds libs requests i fun s => Sound libs requests s ∧
      (∀ e ∈ loaded, Loaded topic e s) ∧ Fine libs topics plan s :=
    holds_sound.and ((loaded_lasting loaded).stable.and fine_lasting.stable)
  have hevents (events : List PlannedEvent) :
      Lasting fun s : World ι => ∀ e ∈ events, Stored libs topics e s :=
    fun s t hst hs e hmem => stored_lasting s t hst (hs e hmem)
  refine Kept.Spec.bind (.lift hloaded
    (fun events => (hevents events).stable.and fine_lasting.stable)
    fun events s hplanned hs => ⟨fun e hmem => ?_, hs.2.2⟩) fun events => ?_
  · obtain ⟨event, hevent, he⟩ := mapM_ok hplanned hmem
    obtain ⟨hunpublished, htopic, j, r, horigin, hcore⟩ := hs.2.1 event hevent
    obtain ⟨rfl, -, -, -⟩ := event_of_planned he
    exact ⟨j, r, horigin, he, hcore, hunpublished, htopic ▸ mem⟩
  · refine .pure (holds_sound.and ((hevents events).stable.and fine_lasting.stable))
      (Frame.Stable.pure.and fine_lasting.stable) fun s hs => ⟨rfl, fun e hmem => ?_⟩
    obtain hold | hnew := List.mem_append.mp hmem
    · exact hs.2.2 e hold
    · exact hs.2.1 e (mem_selectTopic hnew)

theorem planTopics_spec {rest : List String} (sub : rest ⊆ topics) : Spec libs requests i
    (fun s => Sound libs requests s ∧ Fine libs topics plan s)
    (planTopics libs.texts planOptions plan rest)
    fun plan' s => plan'.runId = plan.runId ∧ Fine libs topics plan' s := by
  induction rest generalizing plan with
  | nil =>
      exact .pure (holds_sound.and fine_lasting.stable)
        (Frame.Stable.pure.and fine_lasting.stable) fun s hs => ⟨rfl, hs.2⟩
  | cons topic rest ih =>
      obtain ⟨hmem, hsub⟩ := List.cons_subset.mp sub
      refine Kept.Spec.bind (planTopic_spec hmem) fun plan' => ?_
      refine Kept.Spec.with_fact (fun s hs => hs.2.1) fun hid => ?_
      exact ((ih hsub).pre fun s hs => ⟨hs.1, hs.2.2⟩).post
        fun plan'' s _ hs => ⟨hs.1.trans hid, hs.2⟩

theorem buildReplayPlan_spec : Spec libs requests i (Sound libs requests)
    (buildReplayPlan libs.texts planOptions)
    fun plan s => plan.runId = planOptions.runId ∧ Fine libs planOptions.topics plan s := by
  unfold buildReplayPlan
  split
  · exact .raise holds_sound
  · refine Kept.Spec.bind (.lift holds_sound (Q := fun _ _ => True) (fun _ => Frame.Stable.pure)
      fun _ _ _ _ => trivial) fun _ => ?_
    refine Kept.Spec.bind ((planTopics_spec (List.Subset.refl _)).pre fun s hs => ⟨hs.1, ?_⟩)
      fun plan => ?_
    · exact fun e mem => (List.not_mem_nil mem).elim
    · refine .pure (holds_sound.and (Frame.Stable.pure.and fine_lasting.stable))
        (Frame.Stable.pure.and fine_lasting.stable) fun s hs => ⟨hs.2.1, fun e mem => ?_⟩
      exact hs.2.2 e (List.mem_mergeSort.mp mem)

/-! ### Executions -/

/-- The process has published the message of the event. -/
def Told (libs : Libraries) (i : ι) (runId : String) (e : PlannedEvent) (s : World ι) : Prop :=
  ∃ m, (⟨i, m⟩ : Sent ι) ∈ s.sent ∧ Replays libs e runId m

omit [DecidableEq ι] in
theorem told_lasting {runId : String} : Lasting (Told libs i runId e) := by
  rintro s t hst ⟨m, hmem, hreplays⟩
  exact ⟨m, hst.sent.subset hmem, hreplays⟩

section

variable {options : ReplayOptions} {runId : String}

theorem publish_spec {x : Except WebhookError Message}
    (replay : requests i = .replay options planOptions)
    (replays : ∀ m, x = .ok m → Replays libs e planOptions.runId m) :
    Spec libs requests i (fun s => Sound libs requests s ∧ Stored libs planOptions.topics e s)
      (lift x >>= publishToExchange i) fun _ => Told libs i planOptions.runId e := by
  refine Kept.Spec.bind (Q := fun m s => x = .ok m ∧ Stored libs planOptions.topics e s)
    (.lift (holds_sound.and stored_lasting.stable)
      (fun m => Frame.Stable.pure.and stored_lasting.stable) fun m s hm hs => ⟨hm, hs.2⟩)
    fun m => ?_
  refine Kept.Spec.with_fact (fun s hs => hs.2.1) fun hm => ?_
  refine (publishToExchange_spec.pre fun s hs => ⟨hs.1, ?_, ?_⟩).post
    fun _ s _ hs => ⟨m, hs, replays m hm⟩
  · obtain ⟨j, r, horigin, hplanned⟩ := hs.2.2
    exact ⟨_, j, r, horigin, .replayed replay hplanned (replays m hm)⟩
  · intro settings request hnotify
    rw [replay] at hnotify
    cases hnotify

theorem publishPlannedEvent_spec (replay : requests i = .replay options planOptions) :
    Spec libs requests i (fun s => Sound libs requests s ∧ Stored libs planOptions.topics e s)
      (publishPlannedEvent libs.texts i e planOptions.runId)
      fun _ => Told libs i planOptions.runId e := by
  unfold publishPlannedEvent
  split
  · next hsheets =>
      refine publish_spec replay fun m hm => ?_
      rw [Replays, if_pos hsheets]
      exact hm
  · next hsheets =>
      refine publish_spec replay fun m hm => ?_
      rw [Replays, if_neg hsheets]
      exact hm

/-- However many attempts it takes. -/
theorem publishPlanned_spec {made left : Nat} (replay : requests i = .replay options planOptions) :
    Spec libs requests i (fun s => Sound libs requests s ∧ Stored libs planOptions.topics e s)
      (publishPlanned libs.texts i e planOptions.runId made left)
      fun result s => result.2 = none → Told libs i planOptions.runId e s := by
  have hholds : Holds libs requests i fun s =>
      Sound libs requests s ∧ Stored libs planOptions.topics e s :=
    holds_sound.and stored_lasting.stable
  induction left generalizing made with
  | zero => exact .pure hholds told_lasting.imp.stable fun s hs hnone => by cases hnone
  | succ left ih =>
      refine (Spec.attempt (publishPlannedEvent_spec replay) (fun _ => told_lasting.stable)
        stored_lasting (fun _ => ?_) fun error => ?_).pre fun s hs => ⟨hs, hs.2⟩
      · exact .pure (holds_sound.and (told_lasting.stable.and stored_lasting.stable))
          told_lasting.imp.stable fun s hs _ => hs.2.1
      -- An attempt that has raised may have sent the message all the same.
      · dsimp only
        split
        · exact .pure hholds told_lasting.imp.stable fun s hs hnone => by cases hnone
        · exact ih

theorem markReplayed_spec (replay : requests i = .replay options planOptions) :
    Spec libs requests i (fun s => Sound libs requests s ∧ Told libs i planOptions.runId e s ∧
      Stored libs planOptions.topics e s) (markReplayed e planOptions.runId) fun _ _ => True := by
  refine .atomically (holds_sound.and (told_lasting.stable.and stored_lasting.stable))
    (fun _ => Frame.Stable.pure) fun turn s hs => ⟨?_, fun _ _ => trivial⟩
  obtain ⟨-, ⟨m, hmem, hreplays⟩, j, r, horigin, hplanned⟩ := hs
  split
  · exact guar_of_same rfl rfl rfl
  · next stored hfind =>
      obtain ⟨hthere, hfilter⟩ := Collection.findOne_mem hfind
      obtain ⟨hid, -⟩ : stored.id = e.id ∧ stored.publishedAt = none := by simpa using hfilter
      refine guar_of_mark stored (Collection.byKey_some.mpr ⟨hthere, rfl⟩) rfl
        (Option.some_ne_none _) fun k r' hr' => ?_
      have hr : s.origin stored.id = some (k, r') := hr'
      rw [hid, (event_of_planned hplanned.planned).2.1, horigin] at hr
      obtain ⟨rfl, rfl⟩ := Prod.mk.inj (Option.some.inj hr)
      exact ⟨_, hmem, .replayed replay hplanned hreplays⟩

theorem writeLedger_spec {row : LedgerRow} :
    Spec libs requests i (Sound libs requests) (writeLedger row) fun _ _ => True :=
  (Spec.quiet holds_sound (Q := fun _ _ => True) (fun _ => Frame.Stable.pure)
    (fun _ _ => ⟨rfl, rfl, rfl⟩) fun _ _ _ _ _ => trivial).post fun _ _ _ _ => trivial

theorem ledgerAndRaise_spec {row : LedgerRow} {error : WebhookError} :
    Spec libs requests i (Sound libs requests) (ledgerAndRaise row error : Call ι A) Q :=
  Kept.Spec.bind writeLedger_spec fun _ => .raise (holds_sound.and Frame.Stable.pure)

theorem enforceRabbitGate_spec : Spec libs requests i (Sound libs requests)
    (enforceRabbitGate options topics) fun _ _ => True := by
  refine (Spec.quiet holds_sound (Q := fun _ _ => True) (fun _ => Frame.Stable.pure)
    (fun turn s => ?_) fun _ _ _ _ _ => trivial).post fun _ _ _ _ => trivial
  split
  · exact ⟨rfl, rfl, rfl⟩
  · exact ⟨rfl, rfl, rfl⟩
  · exact ⟨rfl, rfl, rfl⟩

theorem passGate_spec : Spec libs requests i (Sound libs requests) (passGate options e runId)
    fun _ _ => True := by
  unfold passGate
  split
  · exact .pure holds_sound Frame.Stable.pure fun _ _ => trivial
  · refine (Spec.attempt (R := fun _ => True) enforceRabbitGate_spec (fun _ => Frame.Stable.pure)
      (fun _ _ _ h => h) (fun _ => ?_) fun error => ?_).pre fun s hs => ⟨hs, trivial⟩
    · exact .pure (holds_sound.and (Frame.Stable.pure.and Frame.Stable.pure)) Frame.Stable.pure
        fun _ _ => trivial
    · split
      · next heq => cases heq
      · exact ledgerAndRaise_spec.pre fun s hs => hs.1
      · exact .raise (holds_sound.and Frame.Stable.pure)

theorem checkAbort_spec : Spec libs requests i (Sound libs requests) (checkAbort options e runId)
    fun _ _ => True := by
  refine Kept.Spec.bind (Spec.quiet holds_sound (Q := fun _ _ => True) (fun _ => Frame.Stable.pure)
    (fun _ _ => ⟨rfl, rfl, rfl⟩) fun _ _ _ _ _ => trivial) fun abort => ?_
  split
  · exact ledgerAndRaise_spec.pre fun s hs => hs.1
  · exact .pure (holds_sound.and (sound_stable.and Frame.Stable.pure)) Frame.Stable.pure
      fun _ _ => trivial

theorem recordPublished_spec (replay : requests i = .replay options planOptions) :
    Spec libs requests i (fun s => Sound libs requests s ∧ Told libs i planOptions.runId e s ∧
      Stored libs planOptions.topics e s) (recordPublished e planOptions.runId)
      fun _ _ => True := by
  have hrest (marked : Bool) : Spec libs requests i (fun s => Sound libs requests s ∧ True)
      (if marked then writeLedger (e.ledgerRow planOptions.runId "published" 1 none)
        else ledgerAndRaise
          (e.ledgerRow planOptions.runId "mark_ambiguous" 1 (some "MongoMarkAmbiguous"))
          (.replayAbort "ambiguous Mongo mark")) fun _ _ => True := by
    split
    · exact writeLedger_spec.pre fun s hs => hs.1
    · exact ledgerAndRaise_spec.pre fun s hs => hs.1
  unfold recordPublished
  split
  · exact Kept.Spec.bind (.pure (holds_sound.and (told_lasting.stable.and stored_lasting.stable))
      Frame.Stable.pure fun _ _ => trivial) hrest
  · exact Kept.Spec.bind (markReplayed_spec replay) hrest

/-- Where an event of a plan does not end the replay, it has been published. -/
theorem replayEvent_spec (replay : requests i = .replay options planOptions) :
    Spec libs requests i (fun s => Sound libs requests s ∧ Stored libs planOptions.topics e s)
      (replayEvent libs.texts i options e planOptions.runId)
      fun _ => Told libs i planOptions.runId e := by
  refine Kept.Spec.bind (passGate_spec.keep stored_lasting) fun _ => ?_
  refine Kept.Spec.bind ((checkAbort_spec.keep stored_lasting).pre fun s hs => ⟨hs.1, hs.2.2⟩)
    fun _ => ?_
  -- The event passed the check when it was planned, so it is not set aside now.
  have hvalid (s : World ι) (hs : Sound libs requests s ∧ True ∧
      Stored libs planOptions.topics e s) : validateRequiredFields e.event = .ok () := by
    obtain ⟨-, -, j, r, -, hplanned⟩ := hs
    exact (event_of_planned hplanned.planned).2.2.2
  refine Kept.Spec.with_fact hvalid fun hvalid => ?_
  rw [hvalid]
  refine Kept.Spec.bind (((publishPlanned_spec replay).keep stored_lasting).pre
    fun s hs => ⟨⟨hs.1, hs.2.2⟩, hs.2.2⟩) fun result => ?_
  obtain ⟨attempts, _ | error⟩ := result
  · refine (((recordPublished_spec replay).keep told_lasting).pre fun s hs => ?_).post
      fun _ s _ hs => hs.2
    exact ⟨⟨hs.1, hs.2.1 rfl, hs.2.2⟩, hs.2.1 rfl⟩
  · exact ledgerAndRaise_spec.pre fun s hs => hs.1

theorem replaySelected_spec {rest : List PlannedEvent}
    (replay : requests i = .replay options planOptions) :
    Spec libs requests i (fun s => Sound libs requests s ∧
      ∀ e ∈ rest, Stored libs planOptions.topics e s)
      (replaySelected libs.texts i options planOptions.runId rest)
      fun _ s => ∀ e ∈ rest, Told libs i planOptions.runId e s := by
  have hstored (rest : List PlannedEvent) :
      Lasting fun s : World ι => ∀ e ∈ rest, Stored libs planOptions.topics e s :=
    fun s t hst hs e mem => stored_lasting s t hst (hs e mem)
  have htold (rest : List PlannedEvent) :
      Lasting fun s : World ι => ∀ e ∈ rest, Told libs i planOptions.runId e s :=
    fun s t hst hs e mem => told_lasting s t hst (hs e mem)
  induction rest with
  | nil =>
      exact .pure (holds_sound.and (hstored []).stable) (htold []).stable
        fun s hs e mem => (List.not_mem_nil mem).elim
  | cons e rest ih =>
      refine Kept.Spec.bind (((replayEvent_spec replay).keep (hstored rest)).pre fun s hs => ?_)
        fun _ => ?_
      · obtain ⟨hsound, hall⟩ := hs
        obtain ⟨hfirst, hrest⟩ := List.forall_mem_cons.mp hall
        exact ⟨⟨hsound, hfirst⟩, hrest⟩
      · exact ((ih.keep told_lasting).pre fun s hs => ⟨⟨hs.1, hs.2.2⟩, hs.2.1⟩).post
          fun _ s _ hs => List.forall_mem_cons.mpr ⟨hs.2, hs.1⟩

/-- What a replay answers: a plan of stored notifications; if it was to execute the plan, all its
messages were sent. -/
structure Replayed (libs : Libraries) (i : ι) (options : ReplayOptions) (planOptions : PlanOptions)
    (plan : ReplayPlan) (s : World ι) : Prop where
  fine : Fine libs planOptions.topics plan s
  told : options.execute = true → ∀ e ∈ plan.selected, Told libs i planOptions.runId e s

omit [DecidableEq ι] in
theorem replayed_lasting : Lasting (Replayed libs i options planOptions plan) :=
  fun s t hst hs => ⟨fine_lasting s t hst hs.fine,
    fun hexecute e mem => told_lasting s t hst (hs.told hexecute e mem)⟩

theorem runFromOptions_spec (replay : requests i = .replay options planOptions) :
    Spec libs requests i (Sound libs requests)
      (runFromOptions libs.texts i options planOptions)
      (Replayed libs i options planOptions) := by
  refine Kept.Spec.bind buildReplayPlan_spec fun plan => ?_
  refine Kept.Spec.with_fact (fun s hs => hs.2.1) fun hid => ?_
  have hfine : Holds libs requests i fun s => Sound libs requests s ∧
      plan.runId = planOptions.runId ∧ Fine libs planOptions.topics plan s :=
    holds_sound.and (Frame.Stable.pure.and fine_lasting.stable)
  split
  · next hplan =>
      exact .pure hfine replayed_lasting.stable
        fun s hs => ⟨hs.2.2, fun hexecute => absurd hexecute hplan⟩
  · refine Kept.Spec.bind ((enforceRabbitGate_spec.keep fine_lasting).pre
      fun s hs => ⟨hs.1, hs.2.2⟩) fun _ => ?_
    have hexecute : Spec libs requests i (fun s => Sound libs requests s ∧
        Fine libs planOptions.topics plan s) (executeReplayPlan libs.texts i options plan)
        fun _ s => ∀ e ∈ plan.selected, Told libs i planOptions.runId e s := by
      unfold executeReplayPlan
      rw [hid]
      exact replaySelected_spec replay
    refine Kept.Spec.bind ((hexecute.keep fine_lasting).pre fun s hs => ⟨⟨hs.1, hs.2.2⟩, hs.2.2⟩)
      fun _ => ?_
    have htold : Lasting fun s : World ι =>
        (∀ e ∈ plan.selected, Told libs i planOptions.runId e s) ∧
          Fine libs planOptions.topics plan s := by
      refine Lasting.and ?_ fine_lasting
      exact fun s t hst hs e mem => told_lasting s t hst (hs e mem)
    exact .pure (holds_sound.and htold.stable) replayed_lasting.stable
      fun s hs => ⟨hs.2.2, fun _ => hs.2.1⟩

end

end

/-! ### Runs -/

/-- What a process answers. -/
def Replied (libs : Libraries) (requests : ι → Request) (i : ι) : Reply → World ι → Prop
  | .received duplicate, s => Received libs requests i duplicate s
  | .replayed plan, s => ∃ options planOptions, requests i = .replay options planOptions ∧
      Replayed libs i options planOptions plan s

theorem call_spec : Spec libs requests i (fun s => Sound libs requests s ∧ s.sentBy i = [] ∧
    ∀ id r, s.origin id ≠ some (i, r)) ((requests i).call libs i) (Replied libs requests i) := by
  generalize hrequest : requests i = request
  cases request with
  | notify settings request =>
      refine Kept.Spec.bind (receiveMeliWebhook_spec hrequest) fun duplicate => ?_
      exact .pure (holds_sound.and received_stable) received_stable fun s hs => hs.2
  | replay options planOptions =>
      refine Kept.Spec.bind ((runFromOptions_spec hrequest).pre fun s hs => hs.1) fun plan => ?_
      refine .pure (holds_sound.and replayed_lasting.stable) ?_
        fun s hs => ⟨options, planOptions, hrequest, hs.2⟩
      rintro s t hst ⟨options, planOptions, hreplay, hreplayed⟩
      exact ⟨options, planOptions, hreplay, replayed_lasting s t hst.2.1 hreplayed⟩

end

/-- Nothing has been received yet. -/
def World.start (ι : Type) (turns : Nat → Turn) : World ι :=
  ⟨.empty, [], [], fun _ => none, turns, 0⟩

theorem start_sound {ι : Type} [DecidableEq ι] {libs : Libraries} {requests : ι → Request}
    {turns : Nat → Turn} : Sound libs requests (.start ι turns) where
  stored id e he := by cases he
  origin id i r h := by cases h
  sent sent h := by cases h
  once _ _ _ _ := Nat.zero_le 1

/-- What holds along a run of notifications and replays. -/
structure Safe {ι : Type} [DecidableEq ι] (libs : Libraries) (requests : ι → Request)
    (pool : Pool ι (World ι) (Program Label (World ι) (Except WebhookError Reply))) : Prop where
  sound : Sound libs requests pool.shared
  replied : ∀ i reply, pool.control i = .ret (.ok reply) →
    Replied libs requests i reply pool.shared
  grows : ∀ e pool', Program.Step pool e pool' → Grows pool.shared pool'.shared

/-- The libraries for one notification. -/
def suggestionLibraries : Libraries where
  texts := ⟨fun _ => "", fun _ => .ok "2026-01-01T00:00:00Z"⟩
  isAddress _ := true
  inNetwork _ _ := some true
  hmacSha256 _ _ := ""
  loads _ := some (.document [("_id", .string "n1"), ("topic", .string "price_suggestion"),
    ("user_id", .int 7), ("resource", .string "/suggestions/items/MLA1/details")])

/-- A queue in order. -/
def suggestionTurn : Turn where
  now := 1000
  fault := none
  snapshots := [⟨"zeler.repricer.items", 0, 0, 1, ["price_suggestion.updated"], [], true, []⟩]
  abort := false

/-- The notification comes in twice without a publisher, and is replayed. -/
def receivedThenReplayed : Fin 3 → Request
  | 0 | 1 => .notify ⟨"10.0.0.0/8", false, "", false⟩ ⟨none, none, some "10.0.0.1", "", ""⟩
  | 2 => .replay ⟨0, 0, true, true, false, 1, none⟩ ⟨"r1", ["price_suggestion"], [], true, none⟩

end ZelerPlatform.Gateway.Webhooks
