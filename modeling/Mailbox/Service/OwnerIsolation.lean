import Mathlib.Data.List.Sort
import Mailbox.Lib.Machine
import Mailbox.Service.Ownership

/-!
# A mailbox sees and changes its own messages only

**One run.**  Whatever a user calls, everybody else's messages stay as they are, and no answer shows
one of them.

**Two runs.**  On two stores that hold the same messages of the user, visited in the same order, the
same calls are answered alike: `AnswersAlike`.  The one exception is a message ID that is somebody
else's in one of the stores, which is refused there as unauthorized and may be unknown in the
other.

`mutation_isolated` and `serve_related` are the step lemmas; a session keeps, besides the store, the
iterators that have been opened, each of which stays with its owner filter.
-/

namespace Mailbox.Service

open Memory MemoryMailbox List

/-! ## Answers -/

/-- The messages an answer shows. -/
def Response.messages : Response → List Message
  | .message (.ok msg) => [msg]
  | .list (.ok listing) => listing.messages
  | _ => []

def Response.error : Response → Option Error
  | .done (.error e) => some e
  | .message (.error e) => some e
  | _ => none

/-- The message a call names. -/
def Mutation.messageID : Mutation → Option String
  | .updateFlags messageID _ => some messageID
  | .delete messageID => some messageID
  | .restore messageID => some messageID
  | .permanentlyDelete messageID => some messageID
  | .moveToFolder messageID _ _ => some messageID
  | .addTag messageID _ => some messageID
  | .removeTag messageID _ => some messageID
  | _ => none

def Request.messageID : Request → Option String
  | .mutation c => c.messageID
  | .get messageID => some messageID
  | _ => none

/-- Two answers to a request that names a message, or none: they are the same, unless the message is
somebody else's. -/
def ResponsesAlike (u : String) (named : Option String) (s t : Store) (r r' : Response) : Prop :=
  r = r' ∨ ∃ id, named = some id ∧ (Foreign u id s ∨ Foreign u id t)
    ∧ ∃ e e', r.error = some e ∧ r'.error = some e' ∧ DeniedEither e e'

/-- The answers to the same request in two runs. -/
def AnswersAlike (u : String) (entry entry' : Session × Turn × Response) : Prop :=
  ResponsesAlike u entry.2.1.request.messageID entry.1.inst.store entry'.1.inst.store entry.2.2
    entry'.2.2

variable {id : String} {s : Store} {fuel : ℕ} {c : Mutation}

variable {u : String} {m : MemoryMailbox} {o o' : Ranges} {i j : Instance}

lemma ResultsAlike.response {t : Store} {r r' : Result}
    (h : ResultsAlike u id s t r r') : ResponsesAlike u (some id) s t (.done r) (.done r') := by
  rcases h with rfl | ⟨hforeign, e, e', rfl, rfl, hdenied⟩
  · exact .inl rfl
  · exact .inr ⟨id, rfl, hforeign, e, e', rfl, rfl, hdenied⟩

/-- What is to be shown of a mutation. -/
def MutationIsolated (u : String) (m : MemoryMailbox) (fuel : ℕ) (c : Mutation) : Prop :=
  ∀ (o : Ranges) (i : Instance), o.Perm → Untouched u i.store (m.mutate o fuel i c).state.store
      ∧ ∀ o' j, SameOrder u o o' → Agree u i.store j.store →
        ResponsesAlike u c.messageID i.store j.store (m.mutate o fuel i c).result
            (m.mutate o' fuel j c).result
          ∧ Agree u (m.mutate o fuel i c).state.store (m.mutate o' fuel j c).state.store

lemma Isolated.mutation {f : Instance → Reply Result}
    (h : Isolated u id f) (hid : c.messageID = some id)
    (hc : ∀ o i, m.mutate o fuel i c = (f i).response) : MutationIsolated u m fuel c := by
  intro o i _
  rw [hc]
  refine ⟨h.untouched i, fun o' j _ hagr => ?_⟩
  rw [hc, hid]
  exact ⟨(h.alike hagr).1.response, (h.alike hagr).2⟩

lemma bulk_isolated (hm : m.userID = u) (op : BulkOp) (fs : List Filter)
    (hc : ∀ o i, m.mutate o fuel i c = (m.bulk op fs i).countResponse) :
    MutationIsolated u m fuel c := by
  intro o i _
  rw [hc]
  unfold bulk Reply.countResponse
  cases hcheck : m.checkAccess with
  | error =>
    refine ⟨.refl u _, fun o' j _ h => ?_⟩
    rw [hc]
    simp only [bulk, Reply.countResponse, hcheck]
    exact ⟨.inl rfl, h⟩
  | ok =>
    rw [hm]
    refine ⟨native_untouched _ fs op, fun o' j _ h => ?_⟩
    obtain ⟨hcnt, hst⟩ := native_agree m.service.now fs op h
    rw [hc]
    simp only [bulk, Reply.countResponse, hcheck, hm]
    exact ⟨.inl (by rw [hcnt]), hst⟩

lemma publishMutation_state (event : MutationEvent) : (m.publishMutation event i).state = i := by
  unfold publishMutation
  split
  · rfl
  · split_ifs <;> rfl

lemma publishMutation_result (event : MutationEvent) :
    (m.publishMutation event i).result = (m.publishMutation event j).result := by
  unfold publishMutation
  split
  · rfl
  · split_ifs <;> rfl

lemma markAllRead_isolated (hm : m.userID = u) (fuel : ℕ) (folderID : String) :
    MutationIsolated u m fuel (.markAllRead folderID) := by
  intro o i _
  simp only [mutate, markAllRead, Reply.countResponse]
  cases m.checkAccess with
  | error => exact ⟨.refl u _, fun o' j _ h => ⟨.inl rfl, h⟩⟩
  | ok =>
    -- `MarkAllRead` of the store is one of the native bulk operations.
    have hunt : Untouched u i.store
        (Store.markAllRead m.service.now m.userID folderID i.store).2 := by
      rw [hm]
      exact native_untouched _ [] (.markAllRead folderID)
    have hagr : ∀ j : Instance, Agree u i.store j.store →
        (Store.markAllRead m.service.now m.userID folderID i.store).1
            = (Store.markAllRead m.service.now m.userID folderID j.store).1
          ∧ Agree u (Store.markAllRead m.service.now m.userID folderID i.store).2
            (Store.markAllRead m.service.now m.userID folderID j.store).2 := by
      rw [hm]
      exact fun j => native_agree _ [] (.markAllRead folderID)
    constructor
    · split_ifs
      · exact hunt
      · rw [publishMutation_state]
        exact hunt
    · intro o' j _ h
      obtain ⟨hcnt, hst⟩ := hagr j h
      rw [← hcnt]
      split_ifs
      · exact ⟨.inl rfl, hst⟩
      · rw [publishMutation_state, publishMutation_state]
        refine ⟨.inl ?_, hst⟩
        rw [publishMutation_result]

lemma updateByFilter_isolated (hm : m.userID = u) (fuel : ℕ) (filters : List Filter)
    (flags : Flags) : MutationIsolated u m fuel (.updateByFilter filters flags) := by
  cases hrd : flags.read with
  | some read =>
    refine bulk_isolated hm (.updateRead read) filters fun o i => ?_
    simp only [mutate, updateByFilter, updateByFilterOn, hrd, Reply.countResponse]
  | none =>
    intro o i hpm
    simp only [mutate, updateByFilter, updateByFilterOn, hrd, Option.getD_none]
    cases m.checkAccess with
    | error => exact ⟨.refl u _, fun o' j _ h => ⟨.inl rfl, h⟩⟩
    | ok =>
      rw [hm]
      have hf : ownerIs u ∈ scopedFilters u filters := mem_cons_self
      obtain ⟨hunt, hagr⟩ := pageLoop_isolated m.service.now
        (Update.editsAt_markRead false) hf m.maxQueryLimit fuel o "" 0 i.store hpm
      refine ⟨hunt, fun o' j ho h => ?_⟩
      obtain ⟨hcnt, hst⟩ := hagr o' j.store ho h
      refine ⟨.inl ?_, hst⟩
      have hone : (BulkOp.updateRead false).single m.service.now
          = fun id => Store.mutate (Update.markRead m.service.now false) id := rfl
      simp only [hone, hcnt]

theorem mutation_isolated (hm : m.userID = u) (fuel : ℕ) (c : Mutation) :
    MutationIsolated u m fuel c := by
  cases c with
  | updateFlags messageID flags =>
    exact (isolated_updateFlags hm flags).mutation rfl fun _ _ => rfl
  | delete => exact (isolated_delete hm).mutation rfl fun _ _ => rfl
  | restore => exact (isolated_restore hm).mutation rfl fun _ _ => rfl
  | permanentlyDelete =>
    exact (isolated_permanentlyDelete hm).mutation rfl fun _ _ => rfl
  | moveToFolder messageID folderID opts =>
    exact (isolated_moveToFolder hm folderID opts).mutation rfl fun _ _ => rfl
  | addTag messageID tagID =>
    exact (isolated_changeTag hm _ tagID (storeConfined_mutate
      (Update.editsAt_addTag tagID))).mutation rfl fun _ _ => rfl
  | removeTag messageID tagID =>
    exact (isolated_changeTag hm _ tagID (storeConfined_mutate
      (Update.editsAt_removeTag tagID))).mutation rfl fun _ _ => rfl
  | markAllRead folderID => exact markAllRead_isolated hm fuel folderID
  | updateByFilter filters flags => exact updateByFilter_isolated hm fuel filters flags
  | moveByFilter filters folderID => exact bulk_isolated hm (.move folderID) filters fun _ _ => rfl
  | deleteByFilter filters => exact bulk_isolated hm .delete filters fun _ _ => rfl
  | tagByFilter filters tagID => exact bulk_isolated hm (.tag tagID) filters fun _ _ => rfl
  | untagByFilter filters tagID => exact bulk_isolated hm (.untag tagID) filters fun _ _ => rfl

/-! ## Queries and iterators -/

def Fetch.filters : Fetch → List Filter
  | .find filters _ => filters
  | .search query => query.filters

@[simp] lemma Fetch.filters_setCursor (lastID : String) (fetch : Fetch) :
    (fetch.setCursor lastID).filters = fetch.filters := by
  cases fetch <;> rfl

/-- The iterator asks for messages of the user, and has got no others. -/
def BatchIterator.Own (u : String) (it : BatchIterator) : Prop :=
  ownerIs u ∈ it.fetch.filters ∧ ∀ msg ∈ it.batch, msg.ownerID = u

variable {msg : Message} {fetch : Fetch} {it : BatchIterator}

section Queries

variable {t : Store}

section

variable (hm : m.userID = u)

include hm

lemma get_owned (h : m.get id i = .ok msg) : msg.ownerID = u := by
  unfold MemoryMailbox.get at h
  split at h
  · cases h
  split at h
  · split_ifs at h
  · split_ifs at h with hown
    cases h
    exact hown.trans hm

/-- `Get` is the check, with another error for a message that is not there. -/
lemma get_eq_getAndVerify (id : String) (i : Instance) :
    m.get id i = m.checkAccess.bind fun _ => (getAndVerify u id i.store).mapError fun e =>
      if e.is .notFound then mailboxError .notFound else e := by
  unfold MemoryMailbox.get getAndVerify
  cases m.checkAccess with
  | error => rfl
  | ok =>
    rw [hm]
    cases i.store.get id with
    | error => exact (apply_ite Except.error _ _ _).symm
    | ok =>
      simp only [Except.bind]
      split_ifs <;> rfl

lemma get_alike (id : String) (h : Agree u i.store j.store) :
    ResponsesAlike u (some id) i.store j.store (.message (m.get id i)) (.message (m.get id j)) := by
  rw [get_eq_getAndVerify hm, get_eq_getAndVerify hm]
  cases m.checkAccess with
  | error => exact .inl rfl
  | ok =>
    rcases getAndVerify_alike id h with ⟨msg, _, hg, hg'⟩
      | ⟨e, e', hg, hg', rfl | ⟨hforeign, ⟨rfl, rfl⟩ | ⟨rfl, rfl⟩⟩⟩
    · exact .inl (by rw [hg, hg'])
    · exact .inl (by rw [hg, hg'])
    · rw [hg, hg']
      exact .inr ⟨id, rfl, hforeign, _, _, rfl, rfl, .inl ⟨rfl, rfl⟩⟩
    · rw [hg, hg']
      exact .inr ⟨id, rfl, hforeign, _, _, rfl, rfl, .inr ⟨rfl, rfl⟩⟩

lemma folder_owned {folderID : String} {opts : ListOptions}
    (h : msg ∈ (Response.ofListing (m.folder o folderID opts i)).messages) : msg.ownerID = u := by
  unfold folder at h
  cases hcheck : m.checkAccess with
  | error =>
    rw [hcheck] at h
    cases h
  | ok =>
    rw [hcheck] at h
    cases hls : m.listMessages o [ownerIs m.userID, inFolder folderID] opts i with
    | none =>
      rw [hls] at h
      cases h
    | some =>
      rw [hls] at h
      simp only [listMessages, Store.findWithCount, Option.map_map, Option.map_eq_some_iff] at hls
      obtain ⟨list, hfd, rfl⟩ := hls
      have hf : ownerIs u ∈ [ownerIs m.userID, inFolder folderID] := by
        rw [hm]
        exact mem_cons_self
      exact owned_of_mem_find hf hfd h

lemma folder_same (ho : SameOrder u o o') (h : Agree u i.store j.store)
    (folderID : String) (opts : ListOptions) :
    m.folder o folderID opts i = m.folder o' folderID opts j := by
  have hf : ownerIs u ∈ [ownerIs m.userID, inFolder folderID] := by
    rw [hm]
    exact mem_cons_self
  unfold folder listMessages Store.findWithCount
  dsimp only
  rw [find_same ho h hf]
  have hcnt : i.store.count m.service.now [ownerIs m.userID, inFolder folderID]
      = j.store.count m.service.now [ownerIs m.userID, inFolder folderID] :=
    h.countP fun _ => owned_of_selects hf
  rw [hcnt]

lemma search_owned {query : SearchQuery}
    (h : msg ∈ (Response.ofListing (m.search o query i)).messages) : msg.ownerID = u := by
  unfold search at h
  cases hcheck : m.checkAccess with
  | error =>
    rw [hcheck] at h
    cases h
  | ok =>
    rw [hcheck] at h
    dsimp only at h
    generalize hq : ({ query with
      options := { query.options with limit := m.queryLimit query.options.limit }
      ownerID := m.userID
      filters := query.filters ++ [ownerIs m.userID, notDeleted] ++ hasTags query.tags } :
        SearchQuery) = q at h
    have hf : ownerIs u ∈ q.filters := by
      rw [← hq, ← hm]
      simp
    cases hsrch : i.store.search m.service.now m.toLower (o 0) q with
    | none =>
      rw [hsrch] at h
      cases h
    | some =>
      rw [hsrch] at h
      exact owned_of_mem_search hf hsrch h

lemma search_same_call (ho : SameOrder u o o') (h : Agree u i.store j.store)
    (query : SearchQuery) : m.search o query i = m.search o' query j := by
  unfold search
  dsimp only
  rw [search_same ho h]
  rw [hm]
  simp

end

lemma fetchBatch_owned (hf : ownerIs u ∈ fetch.filters) {list : MessageList}
    (h : m.fetchBatch o s fetch = some list) (hmsg : msg ∈ list.messages) : msg.ownerID = u := by
  cases fetch with
  | find => exact owned_of_mem_find hf h hmsg
  | search => exact owned_of_mem_search hf h hmsg

lemma fetchBatch_same (hf : ownerIs u ∈ fetch.filters) (ho : SameOrder u o o')
    (h : Agree u s t) : m.fetchBatch o s fetch = m.fetchBatch o' t fetch := by
  cases fetch with
  | find => exact find_same ho h hf 0
  | search => exact search_same ho h hf 0

lemma next_own (hit : it.Own u) : (m.next o s it).2.Own u := by
  show (it.next m.checkAccess (m.fetchFrom o s) ()).2.1.Own u
  unfold BatchIterator.next fetchFrom
  split
  · exact hit
  split
  · exact hit
  split
  · exact hit
  split
  · exact hit
  cases hfetch : m.fetchBatch o s it.fetch with
  | none => exact hit
  | some list =>
    have hbat : ∀ msg ∈ list.messages, msg.ownerID = u := fun _ =>
      fetchBatch_owned hit.1 hfetch
    simp only [Option.map_some]
    split
    · exact ⟨hit.1, hbat⟩
    · refine ⟨?_, hbat⟩
      rw [Fetch.filters_setCursor]
      exact hit.1

lemma next_same (hit : it.Own u) (ho : SameOrder u o o') (h : Agree u s t) :
    m.next o s it = m.next o' t it := by
  unfold MemoryMailbox.next BatchIterator.next fetchFrom
  rw [fetchBatch_same hit.1 ho h]

lemma current_owned (hit : it.Own u) (h : it.current = .ok msg) : msg.ownerID = u := by
  unfold BatchIterator.current at h
  split at h
  · cases h
  split at h
  · rename_i hg
    cases h
    exact hit.2 _ (mem_of_getElem? hg)
  · cases h

end Queries

/-! ## Sessions -/

/-- A session before the first call. -/
def Session.start (i : Instance) : Session := ⟨i, []⟩

/-- All iterators of the session are the user's. -/
def Session.Own (u : String) (s : Session) : Prop := ∀ it ∈ s.iterators, it.Own u

/-- The session of the other run: the same messages of the user, and the same iterators. -/
def Session.Agree (u : String) (s t : Session) : Prop :=
  Service.Agree u s.inst.store t.inst.store ∧ s.iterators = t.iterators ∧ s.Own u

/-- A call of the user; the map is visited completely. -/
def Turn.By (u : String) (turn : Turn) : Prop :=
  turn.mailbox.userID = u ∧ ∀ n l, (turn.order n l).Perm l

/-- The same call in two runs. -/
structure SameTurn (u : String) (turn turn' : Turn) : Prop where
  user : turn.mailbox.userID = u
  mailbox : turn.mailbox = turn'.mailbox
  request : turn.request = turn'.request
  fuel : turn.fuel = turn'.fuel
  order : SameOrder u turn.order turn'.order

variable {t : Session}

section Serve

variable {s : Session} {turn turn' : Turn}

lemma own_append (hs : s.Own u) (hit : it.Own u) :
    Session.Own u { s with iterators := s.iterators ++ [it] } := by
  intro it' hit'
  rcases mem_append.mp hit' with hmem | hmem
  · exact hs it' hmem
  · rw [mem_singleton.mp hmem]
    exact hit

lemma openIterator_own (m : MemoryMailbox) (hs : s.Own u) (hit : it.Own u) :
    (s.openIterator m it).1.Own u ∧ Untouched u s.inst.store (s.openIterator m it).1.inst.store
      ∧ ∀ msg ∈ (s.openIterator m it).2.messages, msg.ownerID = u := by
  unfold Session.openIterator
  cases m.checkAccess with
  | error => exact ⟨hs, .refl u _, by simp [Response.messages]⟩
  | ok => exact ⟨own_append hs hit, .refl u _, by simp [Response.messages]⟩

lemma openIterator_related (m : MemoryMailbox) (h : s.Agree u t) (hit : it.Own u) :
    (s.openIterator m it).1.Agree u (t.openIterator m it).1
      ∧ (s.openIterator m it).2 = (t.openIterator m it).2 := by
  obtain ⟨hagr, hiter, hs⟩ := h
  unfold Session.openIterator
  rw [← hiter]
  cases m.checkAccess with
  | error => exact ⟨⟨hagr, hiter, hs⟩, rfl⟩
  | ok => exact ⟨⟨hagr, rfl, own_append hs hit⟩, rfl⟩

lemma stream_own (hm : m.userID = u) (filters : List Filter) (batchSize : ℤ) :
    (m.stream filters batchSize).Own u := by
  refine ⟨?_, by simp [stream]⟩
  show ownerIs u ∈ streamFilters m.userID filters
  rw [hm]
  exact mem_cons_self

lemma streamSearch_own (hm : m.userID = u) (query : SearchQuery)
    (batchSize : ℤ) : (m.streamSearch query batchSize).Own u := by
  refine ⟨?_, by simp [streamSearch]⟩
  show ownerIs u ∈ [ownerIs m.userID, notDeleted] ++ query.filters
  rw [hm]
  exact mem_cons_self

lemma own_set {n : ℕ} (hs : s.Own u) (hit : it.Own u) :
    Session.Own u { s with iterators := s.iterators.set n it } := by
  intro it' hit'
  rcases mem_or_eq_of_mem_set hit' with hmem | rfl
  · exact hs it' hmem
  · exact hit

lemma mutate_messages (m : MemoryMailbox) (o : Ranges) (fuel : ℕ) (i : Instance) (c : Mutation) :
    (m.mutate o fuel i c).result.messages = [] := by
  cases c with
  | updateByFilter =>
    simp only [mutate]
    split <;> rfl
  | _ => rfl

theorem serve_own (hturn : turn.By u) (hs : s.Own u) :
    (s.serve turn).1.Own u ∧ Untouched u s.inst.store (s.serve turn).1.inst.store
      ∧ ∀ msg ∈ (s.serve turn).2.messages, msg.ownerID = u := by
  obtain ⟨hm, hpm⟩ := hturn
  unfold Session.serve
  cases hrequest : turn.request with
  | mutation c =>
    refine ⟨hs, (mutation_isolated hm turn.fuel c turn.order s.inst hpm).1, ?_⟩
    rw [mutate_messages]
    simp
  | get messageID =>
    refine ⟨hs, .refl u _, ?_⟩
    dsimp only
    cases hg : turn.mailbox.get messageID s.inst with
    | error => simp [Response.messages]
    | ok => simpa [Response.messages] using get_owned hm hg
  | folder => exact ⟨hs, .refl u _, fun _ => folder_owned hm⟩
  | search => exact ⟨hs, .refl u _, fun _ => search_owned hm⟩
  | stream filters batchSize => exact openIterator_own _ hs (stream_own hm filters batchSize)
  | streamSearch query batchSize =>
    exact openIterator_own _ hs (streamSearch_own hm query batchSize)
  | next n =>
    dsimp only
    cases hit : s.iterators[n]? with
    | none => exact ⟨hs, .refl u _, by simp [Response.messages]⟩
    | some it =>
      have hown : (turn.mailbox.next turn.order s.inst.store it).2.Own u :=
        next_own (hs it (mem_of_getElem? hit))
      dsimp only
      cases hnx : turn.mailbox.next turn.order s.inst.store it with
      | mk result =>
        rw [hnx] at hown
        cases result with
        | none | some =>
          exact ⟨own_set hs hown, .refl u _, by simp [Response.messages]⟩
  | current n =>
    dsimp only
    cases hit : s.iterators[n]? with
    | none => exact ⟨hs, .refl u _, by simp [Response.messages]⟩
    | some it =>
      refine ⟨hs, .refl u _, ?_⟩
      dsimp only
      cases hcurrent : it.current with
      | error => simp [Response.messages]
      | ok =>
        simpa [Response.messages] using current_owned (hs it (mem_of_getElem? hit)) hcurrent

theorem serve_related (hturn : SameTurn u turn turn') (h : s.Agree u t) :
    (s.serve turn).1.Agree u (t.serve turn').1
      ∧ AnswersAlike u (s, turn, (s.serve turn).2) (t, turn', (t.serve turn').2) := by
  obtain ⟨hagr, hiter, hs⟩ := h
  have hm := hturn.user
  have hpm : ∀ n l, (turn.order n l).Perm l := hturn.order.perm
  have hown := (serve_own ⟨hm, hpm⟩ hs).1
  unfold AnswersAlike
  unfold Session.serve at hown ⊢
  rw [← hturn.request, ← hturn.mailbox, ← hturn.fuel]
  cases hrequest : turn.request with
  | mutation c =>
    rw [hrequest] at hown
    obtain ⟨hresponse, hst⟩ := (mutation_isolated hm turn.fuel c turn.order s.inst hpm).2
      turn'.order t.inst hturn.order hagr
    exact ⟨⟨hst, hiter, hown⟩, hresponse⟩
  | get messageID => exact ⟨⟨hagr, hiter, hs⟩, get_alike hm messageID hagr⟩
  | folder folderID opts =>
    refine ⟨⟨hagr, hiter, hs⟩, .inl ?_⟩
    exact congrArg Response.ofListing (folder_same hm hturn.order hagr folderID opts)
  | search query =>
    refine ⟨⟨hagr, hiter, hs⟩, .inl ?_⟩
    exact congrArg Response.ofListing (search_same_call hm hturn.order hagr query)
  | stream filters batchSize =>
    exact (openIterator_related _ ⟨hagr, hiter, hs⟩ (stream_own hm filters batchSize)).imp id .inl
  | streamSearch query batchSize =>
    exact (openIterator_related _ ⟨hagr, hiter, hs⟩
      (streamSearch_own hm query batchSize)).imp id .inl
  | next n =>
    dsimp only
    rw [← hiter]
    cases hit : s.iterators[n]? with
    | none => exact ⟨⟨hagr, hiter, hs⟩, .inl rfl⟩
    | some it =>
      have hitOwn := hs it (mem_of_getElem? hit)
      have hsm : turn.mailbox.next turn'.order t.inst.store it
          = turn.mailbox.next turn.order s.inst.store it :=
        (next_same hitOwn hturn.order hagr).symm
      have hnextOwn : (turn.mailbox.next turn.order s.inst.store it).2.Own u := next_own hitOwn
      dsimp only
      rw [hsm]
      cases hnx : turn.mailbox.next turn.order s.inst.store it with
      | mk result =>
        rw [hnx] at hnextOwn
        cases result with
        | none | some => exact ⟨⟨hagr, rfl, own_set hs hnextOwn⟩, .inl rfl⟩
  | current n =>
    dsimp only
    rw [← hiter]
    cases s.iterators[n]? with
    | none | some => exact ⟨⟨hagr, hiter, hs⟩, .inl rfl⟩

end Serve

/-! ## Runs -/

/-- **A mailbox sees and changes its own messages only.**  Whatever the calls of a user are, the
messages of others stay as they are and are never shown; and in two stores that hold the same
messages of the user, visited in the same order, the same calls are answered alike. -/
theorem owner_isolation (u : String) :
    (∀ (turns : List Turn) (i : Instance), (∀ turn ∈ turns, turn.By u) →
      Untouched u i.store (Machine.final Session.serve turns (.start i)).inst.store
        ∧ ∀ entry ∈ Machine.trace Session.serve turns (.start i),
          ∀ msg ∈ entry.2.2.messages, msg.ownerID = u)
    ∧ ∀ (turns turns' : List Turn) (i i' : Instance), List.Forall₂ (SameTurn u) turns turns' →
      Agree u i.store i'.store →
      List.Forall₂ (AnswersAlike u) (Machine.trace Session.serve turns (.start i))
        (Machine.trace Session.serve turns' (.start i')) := by
  have hst : ∀ i, (Session.start i).Own u := by
    intro i it hit
    cases hit
  refine ⟨fun turns i hturns => ⟨?_, ?_⟩, fun turns turns' i i' hturns hagr => ?_⟩
  · have hinv : ∀ (s : Session) (turn : Turn), turn.By u →
        s.Own u ∧ Untouched u i.store s.inst.store →
          (s.serve turn).1.Own u ∧ Untouched u i.store (s.serve turn).1.inst.store := by
      rintro s turn hturn ⟨hs, hunt⟩
      obtain ⟨hown, hstep, _⟩ := serve_own hturn hs
      exact ⟨hown, hunt.trans hstep⟩
    exact (Machine.final_induction hinv hturns ⟨hst i, .refl u _⟩).2
  · refine Machine.trace_forall (fun s turn hturn hs => ?_) hturns (hst i)
    obtain ⟨hown, _, hms⟩ := serve_own hturn hs
    exact ⟨hown, hms⟩
  · exact Machine.trace_related (fun s t turn turn' hturn h => serve_related hturn h) hturns
      ⟨hagr, rfl, hst i⟩

/-- The map visited in the order of the IDs. -/
def byID : Ranges := fun _ l => l.insertionSort fun a b => a.id ≤ b.id

lemma sameOrder_byID (u : String) : SameOrder u byID byID where
  perm _ l := perm_insertionSort _ l
  perm' _ l := perm_insertionSort _ l
  agree _ l l' hnd _ hpm := by
    have hsort : ∀ l : List Message,
        ((byID 0 l).filter (owned u)).Pairwise fun a b => a.id ≤ b.id := by
      intro l
      refine List.Pairwise.filter _ ?_
      exact pairwise_insertionSort _ l
    have hfilt : ∀ l : List Message, ((byID 0 l).filter (owned u)).Perm (l.filter (owned u)) :=
      fun l => (perm_insertionSort _ l).filter _
    refine List.Perm.eq_of_pairwise ?_ (hsort l) (hsort l')
      ((hfilt l).trans (hpm.trans (hfilt l').symm))
    intro a b ha hb hab hba
    have ha' : a ∈ l := mem_of_mem_filter ((hfilt l).mem_iff.mp ha)
    have hb' : b ∈ l := mem_of_mem_filter (hpm.mem_iff.mpr ((hfilt l').mem_iff.mp hb))
    exact inj_on_of_nodup_map hnd ha' hb' (String.le_antisymm hab hba)

/-- Alice asks for a message of Bob's and then deletes their own. -/
def aliceTurns : List Turn :=
  [.get "b", .mutation (.delete "a")].map fun request =>
    ⟨plainMemoryMailbox "alice", request, byID, 0⟩

/-- Bob's message is refused where it is, and unknown where it is not; nothing else tells Alice that
the stores differ. -/
theorem owner_isolation_alice :
    let both := freshInstance ⟨[letterTo "a" "alice", letterTo "b" "bob"], by decide⟩
    let alone := freshInstance ⟨[letterTo "a" "alice"], by decide⟩
    List.Forall₂ (AnswersAlike "alice") (Machine.trace Session.serve aliceTurns (.start both))
        (Machine.trace Session.serve aliceTurns (.start alone))
      ∧ (Machine.trace Session.serve aliceTurns (.start both)).map
          (fun entry => entry.2.2.error.map (Error.is .unauthorized)) = [some true, none]
      ∧ (Machine.trace Session.serve aliceTurns (.start alone)).map
          (fun entry => entry.2.2.error.map (Error.is .unauthorized)) = [some false, none] := by
  intro both alone
  refine ⟨(owner_isolation "alice").2 aliceTurns aliceTurns both alone ?_ ?_, ?_, ?_⟩
  · rw [forall₂_same]
    intro turn hturn
    simp only [aliceTurns, map_cons, map_nil, mem_cons, not_mem_nil, or_false] at hturn
    rcases hturn with rfl | rfl
    · exact ⟨rfl, rfl, rfl, rfl, sameOrder_byID "alice"⟩
    · exact ⟨rfl, rfl, rfl, rfl, sameOrder_byID "alice"⟩
  · intro msg hmsg
    show msg ∈ [letterTo "a" "alice", letterTo "b" "bob"] ↔ msg ∈ [letterTo "a" "alice"]
    simp only [mem_cons, not_mem_nil, or_false, or_iff_left_iff_imp]
    rintro rfl
    exact absurd hmsg (by decide)
  · decide +kernel
  · decide +kernel

end Mailbox.Service
