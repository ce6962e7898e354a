import Mailbox.Service.BulkRefinement
import Mailbox.Service.Edits
import Mailbox.Service.Iterator

/-!
# Streaming while the messages change

A consumer goes through the iterator of `Stream` and deletes each message it is handed, removes it
for good, moves it, or leaves it alone.  Nobody else writes.

The iterator finds its place for the next batch by the last message of the one before, which the
consumer has just had in hand.  If that message no longer matches the filters, `Find` returns an
empty page, and the iterator takes it for the end.

Between two calls of `Next`, what has been handed out and what is left of the batch are messages in
strictly falling order of creation, and the cursor is the last of them (`Going`).  What a fetch adds
is below the cursor, so nothing is handed out twice; and as long as every cursor is found, nothing
above it is left out (`Accounted`).  **`stream_visits_each_iff`** puts this together.
-/

namespace Mailbox.Service

open Memory MemoryMailbox List Table

/-! ## The consumer -/

/-- What the consumer does with a message. -/
inductive Choice where
  | leave
  /-- `Delete` moves it to trash. -/
  | delete
  /-- `Delete`, then `PermanentlyDelete`. -/
  | remove
  | move (folderID : String)

def MemoryMailbox.act (m : MemoryMailbox) (id : String) (i : Instance) : Choice → Instance
  | .leave => i
  | .delete => (m.delete id i).state
  | .remove => (m.permanentlyDelete id (m.delete id i).state).state
  | .move folderID => (m.moveToFolder id folderID {} i).state

lemma edits_act (m : MemoryMailbox) (id : String) (i : Instance) (choice : Choice) :
    Edits m.service.now {id} i.store (m.act id i choice).store := by
  cases choice with
  | leave => exact .refl
  | delete => exact (writes_delete m i id).edits
  | remove => exact ((writes_delete m i id).trans (writes_permanentlyDelete m _ id)).edits
  | move folderID => exact (writes_moveToFolder m i id folderID {}).edits

/-- The iterator, the state behind it, and the messages the consumer has been handed. -/
structure Streaming where
  it : BatchIterator
  inst : Instance
  visited : List Message

/-- One call of `Next`, and what the consumer does if it is handed a message. -/
structure Round where
  mailbox : MemoryMailbox
  range : Range
  choice : Choice

namespace Round

def now (r : Round) : Time := r.mailbox.service.now

def next (r : Round) (st : Streaming) : Streaming :=
  match r.mailbox.next (fun _ => r.range) st.inst.store st.it with
  | (some (.ok true), it) =>
    match it.current with
    | .ok msg => ⟨it, r.mailbox.act msg.id st.inst r.choice, st.visited ++ [msg]⟩
    | .error _ => { st with it := it }
  | (_, it) => { st with it := it }

end Round

/-- The state after a number of rounds. -/
def streamed (rounds : ℕ → Round) (st : Streaming) : ℕ → Streaming
  | 0 => st
  | k + 1 => (rounds k).next (streamed rounds st k)

namespace Streaming

variable (st : Streaming)

/-- What is left of the batch. -/
def pending : List Message := st.it.batch.drop st.it.batchIdx

/-- What has been handed out, and will be without another fetch. -/
def handed : List Message := st.visited ++ st.pending

/-- The message after which the next batch starts. -/
def cursor : Option Message := st.it.batch.getLast?

/-- The next call of `Next` fetches a batch. -/
def Fetches : Prop :=
  st.it.done = false ∧ st.pending = [] ∧ ¬(st.it.fetched ∧ st.it.batch.length < st.it.batchSize)

end Streaming

/-! ## What a round does -/

section Rounds

variable {r : Round} {st : Streaming}

lemma Round.next_done (h : st.it.done = true) : r.next st = st := by
  simp [Round.next, MemoryMailbox.next, BatchIterator.next, h]

section

variable (haccess : r.mailbox.checkAccess = .ok ())

include haccess

lemma Round.next_pending (hdn : st.it.done = false)
    {msg : Message} {rest : List Message} (h : st.pending = msg :: rest) :
    r.next st = ⟨{ st.it with batchIdx := st.it.batchIdx + 1 },
      r.mailbox.act msg.id st.inst r.choice, st.visited ++ [msg]⟩ := by
  have hmsg : st.it.batch[st.it.batchIdx]? = some msg := by
    have hhd := congrArg head? h
    rwa [Streaming.pending, head?_drop] at hhd
  have hlt : st.it.batchIdx < st.it.batch.length := (List.getElem?_eq_some_iff.mp hmsg).1
  simp only [Round.next, MemoryMailbox.next, BatchIterator.next, hdn, haccess, if_pos hlt,
    BatchIterator.current, hmsg, Bool.false_eq_true, if_false]

lemma Round.next_short (hdn : st.it.done = false)
    (h : st.pending = []) (hshort : st.it.fetched ∧ st.it.batch.length < st.it.batchSize) :
    r.next st = { st with it := { st.it with done := true } } := by
  have hend : ¬ st.it.batchIdx < st.it.batch.length := by
    rw [Streaming.pending, drop_eq_nil_iff] at h
    omega
  simp [Round.next, MemoryMailbox.next, BatchIterator.next, hdn, haccess, hend, hshort]

lemma Round.next_fetch (h : st.Fetches) {list : MessageList}
    (hls : r.mailbox.fetchBatch (fun _ => r.range) st.inst.store st.it.fetch = some list) :
    (list.messages = [] → r.next st = { st with
        it := { st.it with batch := [], batchIdx := 0, fetched := true, done := true } })
      ∧ ∀ msg rest last, list.messages = msg :: rest → list.messages.getLast? = some last →
        r.next st = ⟨{ st.it with
            fetch := st.it.fetch.setCursor last.id, batch := msg :: rest, batchIdx := 1,
            fetched := true },
          r.mailbox.act msg.id st.inst r.choice, st.visited ++ [msg]⟩ := by
  obtain ⟨hdn, hpd, hmr⟩ := h
  have hend : ¬ st.it.batchIdx < st.it.batch.length := by
    rw [Streaming.pending, drop_eq_nil_iff] at hpd
    omega
  constructor
  · intro hnil
    simp [Round.next, MemoryMailbox.next, BatchIterator.next, fetchFrom, hdn, haccess, hend, hmr,
      hls, hnil]
  · intro msg rest last hcons hl
    rw [hcons] at hl
    simp [Round.next, MemoryMailbox.next, BatchIterator.next, fetchFrom, hdn, haccess, hend, hmr,
      hls, hcons, hl, BatchIterator.current]

end

end Rounds

/-! ## What a fetch returns -/

/-- The cursor is found among what the query selects. -/
def Found (now : Time) (filters : List Filter) (s : Store) : Option Message → Prop
  | none => True
  | some last => ∃ c, s.messages.load last.id = some c ∧ selects now filters c = true

/-- The message is older than the cursor. -/
def Below : Option Message → Message → Prop
  | none, _ => True
  | some last, msg => msg.createdAt < last.createdAt

/-- What the iterator asks for. -/
def streamFetch (filters : List Filter) (b : ℕ) (cursor : Option Message) : Fetch :=
  .find filters
    { limit := b, sortBy := "created_at", sortOrder := .desc, startAfter := cursorID cursor }

section Fetch

variable {r : Round} {s : Store} {filters : List Filter} {b : ℕ} {cursor : Option Message}

/-- Strictly falling order of creation. -/
def Falling (l : List Message) : Prop := l.Pairwise fun x y => y.createdAt < x.createdAt

variable (r filters s b cursor) in
/-- What a page holds: selected messages below the cursor, in falling order.  If the cursor is
found, those that are missing are older than all of a full page; otherwise the page is empty. -/
structure IsPage (page : List Message) : Prop where
  falling : Falling page
  selected : ∀ x ∈ page, x ∈ s.messages.all ∧ selects r.now filters x = true ∧ Below cursor x
  complete : Found r.now filters s cursor →
    ∀ x ∈ s.messages.all, selects r.now filters x = true → Below cursor x →
      x ∈ page ∨ b ≤ page.length ∧ ∀ y ∈ page, x.createdAt < y.createdAt
  gone : ¬ Found r.now filters s cursor → page = []

variable (halone : ∀ x ∈ s.messages.all, ∀ y ∈ s.messages.all, selects r.now filters x = true →
  selects r.now filters y = true → x.createdAt = y.createdAt → x = y)

include halone

lemma isPage_take {rest : List Message} (hdesc : Descending Message.createdAt rest)
    (hnd : rest.Nodup)
    (hmem : ∀ x, x ∈ rest ↔ (x ∈ s.messages.all ∧ selects r.now filters x = true) ∧ Below cursor x)
    (hfn : Found r.now filters s cursor) : IsPage r s filters b cursor (rest.take b) := by
  have hfalling : Falling rest := by
    refine (hdesc.and hnd).imp_of_mem fun {x y} hx hy hxy => ?_
    obtain ⟨⟨hx, hselx⟩, _⟩ := (hmem x).mp hx
    obtain ⟨⟨hy, hsely⟩, _⟩ := (hmem y).mp hy
    refine lt_of_le_of_ne hxy.1 fun heq => hxy.2 ?_
    exact halone x hx y hy hselx hsely heq.symm
  refine ⟨hfalling.sublist (take_sublist _ _), ?_, ?_, fun hn => absurd hfn hn⟩
  · intro x hx
    obtain ⟨⟨hall, hsel⟩, hbelow⟩ := (hmem x).mp (mem_of_mem_take hx)
    exact ⟨hall, hsel, hbelow⟩
  · intro _ x hall hsel hbelow
    have hx : x ∈ rest.take b ++ rest.drop b := by
      rw [take_append_drop]
      exact (hmem x).mpr ⟨⟨hall, hsel⟩, hbelow⟩
    rw [Falling, ← take_append_drop b rest, pairwise_append] at hfalling
    rcases mem_append.mp hx with hin | hout
    · exact .inl hin
    · refine .inr ⟨?_, fun y hy => hfalling.2.2 y hy x hout⟩
      have hpos := length_pos_of_mem hout
      rw [length_drop] at hpos
      rw [length_take]
      omega

/-- **A fetch returns a page.** -/
lemma fetch_spec (hb : 1 ≤ b) (hrg : ∀ l, (r.range l).Perm l)
    (hid : ∀ last, cursor = some last → last.id ≠ "")
    (hcur : ∀ last c, cursor = some last → s.messages.load last.id = some c →
      c.createdAt = last.createdAt) :
    ∃ page total more, r.mailbox.fetchBatch (fun _ => r.range) s (streamFetch filters b cursor)
          = some ⟨page, total, more⟩
        ∧ IsPage r s filters b cursor page := by
  cases cursor with
  | none =>
    obtain ⟨all, hall, hfd⟩ := find_first r.now filters s hb hrg
    refine ⟨_, _, _, hfd, isPage_take halone hall.descending (List.Nodup.of_map _ hall.nodup_id)
      ?_ trivial⟩
    intro x
    rw [hall.mem_iff]
    exact (and_iff_left trivial).symm
  | some last =>
    by_cases hfn : Found r.now filters s (some last)
    · obtain ⟨c, hld, hsel⟩ := hfn
      obtain ⟨hc, hk⟩ := load_eq_some_iff.mp hld
      have hne : c.id ≠ "" := by
        rw [hk]
        exact hid last rfl
      obtain ⟨rest, total, hdesc, hpm, hfd⟩ := find_after hb hrg hne hc hsel
        fun m hm hsel' heq => halone m hm c hc hsel' hsel heq
      rw [hk] at hfd
      have hnd : rest.Nodup := by
        rw [hpm.nodup_iff]
        exact ((nodup_all _).sublist filter_sublist).sublist filter_sublist
      refine ⟨_, total, _, hfd, isPage_take halone hdesc hnd ?_ ⟨c, hld, hsel⟩⟩
      intro x
      rw [hpm.mem_iff, List.mem_filter, List.mem_filter, decide_eq_true_eq, hcur last c rfl hld]
      rfl
    · have hgn : ∀ m ∈ s.messages.all, m.id = last.id → selects r.now filters m = false := by
        intro m hm heq
        rw [Bool.eq_false_iff]
        intro hsel
        exact hfn ⟨m, by rw [← heq]; exact load_of_mem hm, hsel⟩
      obtain ⟨total, hfd⟩ := find_gone b s hrg (hid last rfl) hgn
      exact ⟨[], total, false, hfd, List.Pairwise.nil, by simp, fun h => absurd h hfn,
        fun _ => rfl⟩

end Fetch

/-! ## Between two rounds -/

/-- The consumer is alone: every round is the user's, the clock does not go back behind the start,
and the user's messages at the start differ in when they were created. -/
structure Alone (u : String) (t : Time) (s₀ : Store) (rounds : ℕ → Round) : Prop where
  user : ∀ k, (rounds k).mailbox.userID = u
  access : ∀ k, (rounds k).mailbox.checkAccess = .ok ()
  range : ∀ k l, ((rounds k).range l).Perm l
  clock : ∀ k, t ≤ (rounds k).now
  named : ∀ x ∈ s₀.messages.all, x.id ≠ ""
  distinct : ∀ x ∈ s₀.messages.all, ∀ y ∈ s₀.messages.all, x.ownerID = u → y.ownerID = u →
    x.createdAt = y.createdAt → x = y

section Between

variable (u : String) (filters : List Filter) (b : ℕ) (s₀ : Store)

/-- What holds between two rounds. -/
structure Going (st : Streaming) : Prop where
  origin : ∀ id msg, st.inst.store.messages.load id = some msg →
    ∃ orig, s₀.messages.load id = some orig ∧ contentOf msg = contentOf orig
  untouched : ∀ id, id ∉ st.visited.map Message.id →
    st.inst.store.messages.load id = s₀.messages.load id
  known : ∀ x ∈ st.handed, x.ownerID = u
    ∧ ∃ orig, s₀.messages.load x.id = some orig ∧ contentOf x = contentOf orig
  falling : Falling st.handed
  size : st.it.batchSize = b
  cursor : st.it.done = false →
    st.it.fetch = streamFetch filters b st.cursor ∧ st.handed.getLast? = st.cursor
  finished : st.it.done = true → st.pending = []

variable {u filters b s₀} {st : Streaming} {r : Round} {rounds : ℕ → Round} {t : Time} {k : ℕ}
  {msg : Message}

lemma Falling.last_le {l : List Message} {last x : Message} (h : Falling l)
    (hl : l.getLast? = some last) (hx : x ∈ l) : last.createdAt ≤ x.createdAt := by
  rw [← dropLast_append_getLast? last hl] at h hx
  rcases mem_append.mp hx with hbef | hself
  · exact ((pairwise_append.mp h).2.2 x hbef last (by simp)).le
  · rw [mem_singleton.mp hself]

lemma Going.act (h : Going u filters b s₀ st) {now : Time} {s : Store}
    (hedits : Edits now {msg.id} st.inst.store s) : (∀ id x, s.messages.load id = some x →
      ∃ orig, s₀.messages.load id = some orig ∧ contentOf x = contentOf orig)
    ∧ ∀ id, id ∉ (st.visited ++ [msg]).map Message.id →
      s.messages.load id = s₀.messages.load id := by
  refine ⟨fun id x hld => ?_, fun id hid => ?_⟩
  · obtain ⟨y, hy, hct⟩ := hedits.content hld
    obtain ⟨orig, hor, hct'⟩ := h.origin id y hy
    exact ⟨orig, hor, hct.trans hct'⟩
  · rw [map_append, mem_append, not_or] at hid
    rw [hedits.frame id fun heq => hid.2 (by simpa using heq)]
    exact h.untouched id hid.1

section

variable (h : Going u filters b s₀ st) (halone : Alone u t s₀ rounds) (hown : ownerIs u ∈ filters)

include h halone hown

/-- Messages that the query selects are told apart by when they were created. -/
lemma Going.alone (now : Time) : ∀ x ∈ st.inst.store.messages.all, ∀ y ∈ st.inst.store.messages.all,
      selects now filters x = true → selects now filters y = true →
      x.createdAt = y.createdAt → x = y := by
  intro x hx y hy hselx hsely heq
  have howner : ∀ {z : Message}, selects now filters z = true → z.ownerID = u := fun hsel => by
    simpa [owned] using owned_of_selects hown hsel
  obtain ⟨x₀, hx₀, hcx⟩ := h.origin x.id x (load_of_mem hx)
  obtain ⟨y₀, hy₀, hcy⟩ := h.origin y.id y (load_of_mem hy)
  have hsm : x₀ = y₀ := by
    refine halone.distinct x₀ (load_eq_some_iff.mp hx₀).1 y₀ (load_eq_some_iff.mp hy₀).1 ?_ ?_ ?_
    · rw [← eq_of_content Message.ownerID (fun _ => rfl) hcx, howner hselx]
    · rw [← eq_of_content Message.ownerID (fun _ => rfl) hcy, howner hsely]
    · rw [← eq_of_content Message.createdAt (fun _ => rfl) hcx,
        ← eq_of_content Message.createdAt (fun _ => rfl) hcy, heq]
  have hid : x.id = y.id := by
    rw [id_eq_of_content hcx, id_eq_of_content hcy, hsm]
  exact inj_on_of_nodup_map st.inst.store.messages.nodup hx hy hid

lemma Going.page (hb : 1 ≤ b) (hdn : st.it.done = false) : ∃ page total more,
      (rounds k).mailbox.fetchBatch (fun _ => (rounds k).range) st.inst.store st.it.fetch
          = some ⟨page, total, more⟩
        ∧ IsPage (rounds k) st.inst.store filters b st.cursor page := by
  obtain ⟨hfetch, hl⟩ := h.cursor hdn
  rw [hfetch]
  -- The cursor is a message that has been handed out.
  have hhd : ∀ last, st.cursor = some last → last ∈ st.handed := fun last hcur =>
    mem_of_getLast? (hl.trans hcur)
  refine fetch_spec (h.alone halone hown _) hb (halone.range k) ?_ ?_
  · intro last hcur
    obtain ⟨_, orig, hor, _⟩ := h.known last (hhd last hcur)
    rw [← key_of_load hor]
    exact halone.named orig (load_eq_some_iff.mp hor).1
  · intro last c hcur hld
    obtain ⟨_, orig, hor, hct⟩ := h.known last (hhd last hcur)
    obtain ⟨orig', hor', hct'⟩ := h.origin last.id c hld
    rw [hor, Option.some.injEq] at hor'
    rw [eq_of_content Message.createdAt (fun _ => rfl) hct',
      eq_of_content Message.createdAt (fun _ => rfl) hct, hor']

end

variable (filters b r st) in
/-- What a round can be. -/
inductive RoundStep : Streaming → Prop where
  | done (hdone : st.it.done = true) : RoundStep st
  | hand (msg : Message) (rest : List Message) (hdone : st.it.done = false)
      (hpending : st.pending = msg :: rest) :
      RoundStep ⟨{ st.it with batchIdx := st.it.batchIdx + 1 },
        r.mailbox.act msg.id st.inst r.choice, st.visited ++ [msg]⟩
  | short (hdone : st.it.done = false) (hpending : st.pending = [])
      (hfetched : st.it.fetched = true) (hshort : st.it.batch.length < st.it.batchSize) :
      RoundStep { st with it := { st.it with done := true } }
  | last (hfetches : st.Fetches) (hpage : IsPage r st.inst.store filters b st.cursor []) :
      RoundStep { st with
        it := { st.it with batch := [], batchIdx := 0, fetched := true, done := true } }
  | batch (msg last : Message) (rest : List Message) (hfetches : st.Fetches)
      (hpage : IsPage r st.inst.store filters b st.cursor (msg :: rest))
      (hlast : (msg :: rest).getLast? = some last) :
      RoundStep ⟨{ st.it with
          fetch := streamFetch filters b (some last), batch := msg :: rest, batchIdx := 1,
          fetched := true },
        r.mailbox.act msg.id st.inst r.choice, st.visited ++ [msg]⟩

lemma Going.step_cases (h : Going u filters b s₀ st) (halone : Alone u t s₀ rounds)
    (hown : ownerIs u ∈ filters) (hb : 1 ≤ b) :
    RoundStep filters b st (rounds k) ((rounds k).next st) := by
  cases hdn : st.it.done with
  | true =>
    rw [Round.next_done hdn]
    exact .done hdn
  | false =>
    cases hpd : st.pending with
    | cons msg rest =>
      rw [Round.next_pending (halone.access k) hdn hpd]
      exact .hand msg rest hdn hpd
    | nil =>
      by_cases hshort : st.it.fetched ∧ st.it.batch.length < st.it.batchSize
      · rw [Round.next_short (halone.access k) hdn hpd hshort]
        exact .short hdn hpd hshort.1 hshort.2
      · have hfet : st.Fetches := ⟨hdn, hpd, hshort⟩
        obtain ⟨page, total, more, hls, hpg⟩ := h.page halone hown hb hdn
        obtain ⟨hemp, hfl⟩ := Round.next_fetch (halone.access k) hfet hls
        cases page with
        | nil =>
          rw [hemp rfl]
          exact .last hfet hpg
        | cons msg rest =>
          obtain ⟨last, hl⟩ : ∃ last, (msg :: rest).getLast? = some last :=
            ⟨_, getLast?_eq_some_getLast (cons_ne_nil msg rest)⟩
          rw [hfl msg rest last rfl hl, (h.cursor hdn).1]
          exact .batch msg last rest hfet hpg hl

lemma Streaming.handed_hand {rest : List Message} (h : st.pending = msg :: rest) (i : Instance) :
    handed ⟨{ st.it with batchIdx := st.it.batchIdx + 1 }, i, st.visited ++ [msg]⟩ = st.handed := by
  have hr : st.it.batch.drop (st.it.batchIdx + 1) = rest := by
    rw [← tail_drop]
    exact congrArg tail h
  show st.visited ++ [msg] ++ st.it.batch.drop (st.it.batchIdx + 1) = st.visited ++ st.pending
  rw [hr, h, append_assoc, singleton_append]

/-- A new batch adds to what is handed out, and is the new place to go on from. -/
lemma Streaming.handed_batch (h : st.pending = []) (f : Fetch) (msg : Message)
    (rest : List Message) (i : Instance) :
    handed ⟨{ st.it with fetch := f, batch := msg :: rest, batchIdx := 1, fetched := true }, i,
      st.visited ++ [msg]⟩ = st.handed ++ (msg :: rest) := by
  show st.visited ++ [msg] ++ rest = st.visited ++ st.pending ++ (msg :: rest)
  rw [h, append_nil, append_assoc, singleton_append]

lemma Streaming.handed_last (h : st.pending = []) : handed { st with
        it := { st.it with batch := [], batchIdx := 0, fetched := true, done := true } }
      = st.handed := by
  show st.visited ++ [] = st.visited ++ st.pending
  rw [h]

section

variable (h : Going u filters b s₀ st)

include h

lemma Going.falling_append (hdn : st.it.done = false)
    {page : List Message} (hpg : IsPage r st.inst.store filters b st.cursor page) :
    Falling (st.handed ++ page) := by
  refine pairwise_append.mpr ⟨h.falling, hpg.falling, fun x hx y hy => ?_⟩
  obtain ⟨last, hl⟩ : ∃ last, st.handed.getLast? = some last :=
    ⟨_, getLast?_eq_some_getLast (ne_nil_of_mem hx)⟩
  have hbelow := (hpg.selected y hy).2.2
  rw [← (h.cursor hdn).2, hl] at hbelow
  exact lt_of_lt_of_le hbelow (h.falling.last_le hl hx)

/-- **The step.** -/
theorem Going.step (halone : Alone u t s₀ rounds) (hown : ownerIs u ∈ filters) (hb : 1 ≤ b) :
    Going u filters b s₀ ((rounds k).next st) := by
  have hstep : RoundStep filters b st (rounds k) ((rounds k).next st) := h.step_cases halone hown hb
  generalize (rounds k).next st = st' at hstep
  cases hstep with
  | done => exact h
  | hand msg rest hdn hpd =>
    obtain ⟨horigin, hunt⟩ := h.act (edits_act (rounds k).mailbox msg.id st.inst (rounds k).choice)
    have hhd := Streaming.handed_hand hpd ((rounds k).mailbox.act msg.id st.inst (rounds k).choice)
    refine ⟨horigin, hunt, ?_, ?_, h.size, fun _ => ⟨(h.cursor hdn).1, ?_⟩, ?_⟩
    · rw [hhd]
      exact h.known
    · rw [hhd]
      exact h.falling
    · rw [hhd]
      exact (h.cursor hdn).2
    · intro hdn'
      cases hdn.symm.trans hdn'
  | short hdn hpd =>
    exact ⟨h.origin, h.untouched, h.known, h.falling, h.size, fun hdn' => by (cases hdn'),
      fun _ => hpd⟩
  | last hfet =>
    have hhd := Streaming.handed_last hfet.2.1
    refine ⟨h.origin, h.untouched, ?_, ?_, h.size, fun hdn' => by (cases hdn'), fun _ => rfl⟩
    · rw [hhd]
      exact h.known
    · rw [hhd]
      exact h.falling
  | batch msg last rest hfet hpg hl =>
    obtain ⟨hdn, hpd, _⟩ := hfet
    obtain ⟨horigin, hunt⟩ := h.act (edits_act (rounds k).mailbox msg.id st.inst (rounds k).choice)
    have hhd := Streaming.handed_batch hpd (streamFetch filters b (some last)) msg rest
      ((rounds k).mailbox.act msg.id st.inst (rounds k).choice)
    refine ⟨horigin, hunt, ?_, ?_, h.size, fun _ => ⟨?_, ?_⟩, ?_⟩
    · rw [hhd]
      intro x hx
      rcases mem_append.mp hx with hold | hw
      · exact h.known x hold
      · obtain ⟨hmem, hsel, _⟩ := hpg.selected x hw
        exact ⟨by simpa [owned] using owned_of_selects hown hsel,
          h.origin x.id x (load_of_mem hmem)⟩
    · rw [hhd]
      exact h.falling_append hdn hpg
    · show streamFetch filters b (some last) = streamFetch filters b (msg :: rest).getLast?
      rw [hl]
    · rw [hhd, getLast?_append, hl]
      exact hl.symm
    · intro hdn'
      cases hdn.symm.trans hdn'

lemma Going.nodup : (st.handed.map Message.id).Nodup := by
  refine pairwise_map.mpr (h.falling.imp_of_mem fun {x y} hx hy hlt heq => ?_)
  obtain ⟨_, orig, hor, hct⟩ := h.known x hx
  obtain ⟨_, orig', hor', hct'⟩ := h.known y hy
  rw [heq, hor', Option.some.injEq] at hor
  rw [eq_of_content Message.createdAt (fun _ => rfl) hct,
    eq_of_content Message.createdAt (fun _ => rfl) hct', hor] at hlt
  exact lt_irrefl _ hlt

lemma Going.length_visited_le : st.visited.length ≤ s₀.messages.all.length := by
  have hsub : st.visited.map Message.id ⊆ s₀.messages.all.map Message.id := by
    intro id hid
    obtain ⟨x, hx, rfl⟩ := mem_map.mp hid
    obtain ⟨_, orig, hor, _⟩ := h.known x (mem_append_left _ hx)
    rw [← key_of_load hor]
    exact mem_map_of_mem (load_eq_some_iff.mp hor).1
  have hnd : (st.visited.map Message.id).Nodup := h.nodup.sublist ((sublist_append_left _ _).map _)
  have hle := (subperm_of_subset hnd hsub).length_le
  rwa [length_map, length_map] at hle

end

/-! ## What the consumer gets to see -/

lemma selects_mono {t' : Time} (hle : t ≤ t')
    (h : selects t filters msg = true) : selects t' filters msg = true := by
  simp only [selects, Bool.and_eq_true] at h ⊢
  exact ⟨⟨h.1.1, isAvailableNow_mono hle h.1.2⟩, h.2⟩

variable (filters b s₀) in
/-- Every message that matched at the start has been handed out, or will be if the cursor is
found. -/
def Accounted (t : Time) (st : Streaming) : Prop :=
  ∀ msg ∈ s₀.messages.all, selects t filters msg = true → msg.id ∈ st.handed.map Message.id
      ∨ st.it.done = false ∧ (st.it.fetched = false ∨ b ≤ st.it.batch.length) ∧ Below st.cursor msg

variable (filters s₀) in
/-- The cursor of a fetch is found, or nothing that matched at the start is below it. -/
def CursorOK (t now : Time) (st : Streaming) : Prop :=
  Found now filters st.inst.store st.cursor
    ∨ ∀ msg ∈ s₀.messages.all, selects t filters msg = true → ¬ Below st.cursor msg

lemma Going.complete (h : Going u filters b s₀ st) (hclock : t ≤ r.now)
    (hok : CursorOK filters s₀ t r.now st) {page : List Message}
    (hpg : IsPage r st.inst.store filters b st.cursor page)
    (hmsg : msg ∈ s₀.messages.all) (hsel : selects t filters msg = true)
    (hbelow : Below st.cursor msg) : msg.id ∈ st.visited.map Message.id ∨ msg ∈ page
      ∨ b ≤ page.length ∧ ∀ y ∈ page, msg.createdAt < y.createdAt := by
  by_cases hsn : msg.id ∈ st.visited.map Message.id
  · exact .inl hsn
  · have hld : st.inst.store.messages.load msg.id = some msg :=
      (h.untouched msg.id hsn).trans (load_of_mem hmsg)
    rcases hok with hfn | hno
    · exact .inr (hpg.complete hfn msg (load_eq_some_iff.mp hld).1
        (selects_mono hclock hsel) hbelow)
    · exact absurd hbelow (hno msg hmsg hsel)

theorem Accounted.step (hacct : Accounted filters b s₀ t st) (h : Going u filters b s₀ st)
    (halone : Alone u t s₀ rounds) (hown : ownerIs u ∈ filters) (hb : 1 ≤ b)
    (hok : st.Fetches → CursorOK filters s₀ t (rounds k).now st) :
    Accounted filters b s₀ t ((rounds k).next st) := by
  have hstep : RoundStep filters b st (rounds k) ((rounds k).next st) := h.step_cases halone hown hb
  have hsize := h.size
  generalize (rounds k).next st = st' at hstep
  intro msg hmsg hsel
  have hmsg' := hacct msg hmsg hsel
  cases hstep with
  | done => exact hmsg'
  | hand next rest hdn hpd =>
    rw [Streaming.handed_hand hpd]
    exact hmsg'
  | short hdn hpd hfetched =>
    rcases hmsg' with hin | ⟨_, hn | hfl, _⟩
    · exact .inl hin
    · cases hn.symm.trans hfetched
    · omega
  | last hfet hpg =>
    rw [Streaming.handed_last hfet.2.1]
    refine .inl (hmsg'.elim id fun hmr => ?_)
    rcases h.complete (halone.clock k) (hok hfet) hpg hmsg hsel hmr.2.2 with
      hsn | hnil | ⟨hzr, _⟩
    · exact map_subset _ (subset_append_left _ _) hsn
    · cases hnil
    · rw [length_nil] at hzr
      omega
  | batch next last rest hfet hpg hl =>
    rw [Streaming.handed_batch hfet.2.1, map_append, mem_append]
    rcases hmsg' with hin | ⟨_, _, hbelow⟩
    · exact .inl (.inl hin)
    · rcases h.complete (halone.clock k) (hok hfet) hpg hmsg hsel hbelow with
        hsn | hin | ⟨hfl, hlt⟩
      · exact .inl (.inl (map_subset _ (subset_append_left _ _) hsn))
      · exact .inl (.inr (mem_map_of_mem hin))
      · refine .inr ⟨hfet.1, .inr hfl, ?_⟩
        show Below (next :: rest).getLast? msg
        rw [hl]
        exact hlt last (mem_of_getLast? hl)

lemma streamed_of_done {n : ℕ} (hle : k ≤ n) (hdn : (streamed rounds st k).it.done = true) :
    streamed rounds st n = streamed rounds st k := by
  induction n, hle using Nat.le_induction with
  | base => rfl
  | succ n _ ih => rw [streamed, ih, Round.next_done hdn]

/-! ## Whole streams -/

section Run

variable (h : Going u filters b s₀ st) (halone : Alone u t s₀ rounds) (hown : ownerIs u ∈ filters)
  (hb : 1 ≤ b)

include h halone hown hb

lemma Going.run (k : ℕ) : Going u filters b s₀ (streamed rounds st k) := by
  induction k with
  | zero => exact h
  | succ k ih => exact ih.step halone hown hb

lemma length_visited_or_done (hw : st.visited = []) (k : ℕ) :
    (streamed rounds st k).it.done = true ∨ (streamed rounds st k).visited.length = k := by
  induction k with
  | zero => exact .inr (congrArg length hw)
  | succ k ih =>
    have hstep := (h.run halone hown hb k).step_cases (k := k) halone hown hb
    simp only [streamed]
    generalize (rounds k).next (streamed rounds st k) = st' at hstep
    cases hstep with
    | done hdn => exact .inl hdn
    | hand msg rest hdn =>
      rw [hdn] at ih
      right
      simpa using ih
    | short | last => exact .inl rfl
    | batch msg last rest hfet =>
      rw [hfet.1] at ih
      right
      simpa using ih

lemma exists_done (hw : st.visited = []) : ∃ k, (streamed rounds st k).it.done = true := by
  refine ⟨s₀.messages.all.length + 1, ?_⟩
  rcases length_visited_or_done h halone hown hb hw (s₀.messages.all.length + 1) with
    hdn | hlen
  · exact hdn
  · have hle := (h.run halone hown hb (s₀.messages.all.length + 1)).length_visited_le
    omega

lemma visited_of_lost {n : ℕ} (hdn : (streamed rounds st n).it.done = true)
    (hfet : (streamed rounds st k).Fetches)
    (hlost : ¬ Found (rounds k).now filters (streamed rounds st k).inst.store
      (streamed rounds st k).cursor) :
    (streamed rounds st n).visited = (streamed rounds st k).visited := by
  have hend : (streamed rounds st (k + 1)).it.done = true
      ∧ (streamed rounds st (k + 1)).visited = (streamed rounds st k).visited := by
    obtain ⟨page, total, more, hls, hpg⟩ :=
      (h.run halone hown hb k).page (k := k) halone hown hb hfet.1
    obtain rfl := hpg.gone hlost
    simp only [streamed]
    rw [(Round.next_fetch (halone.access k) hfet hls).1 rfl]
    exact ⟨rfl, rfl⟩
  rcases Nat.lt_or_ge k n with hkn | hnk
  · rw [streamed_of_done hkn hend.1, hend.2]
  · rw [streamed_of_done hnk hdn]

end Run

lemma Going.notMem_visited (h : Going u filters b s₀ st) (hdn : st.it.done = false)
    (hmsg : msg ∈ s₀.messages.all) (hbelow : Below st.cursor msg) :
    msg.id ∉ st.visited.map Message.id := by
  intro hmem
  obtain ⟨x, hx, hid⟩ := mem_map.mp hmem
  have hhd : x ∈ st.handed := mem_append_left _ hx
  obtain ⟨_, orig, hor, hct⟩ := h.known x hhd
  rw [hid, load_of_mem hmsg, Option.some.injEq] at hor
  obtain ⟨last, hcur⟩ : ∃ last, st.handed.getLast? = some last :=
    ⟨_, getLast?_eq_some_getLast (ne_nil_of_mem hhd)⟩
  have hle := h.falling.last_le hcur hhd
  rw [← (h.cursor hdn).2, hcur] at hbelow
  have hlt : msg.createdAt < last.createdAt := hbelow
  rw [eq_of_content Message.createdAt (fun _ => rfl) hct, ← hor] at hle
  exact absurd hlt (not_lt.mpr hle)

end Between

section Streams

variable {m : MemoryMailbox} {filters : List Filter} {batchSize : ℤ} {i : Instance}
  {rounds : ℕ → Round}

variable (m filters batchSize i) in
/-- `Stream` has just been called. -/
def streamStart : Streaming := ⟨m.stream filters batchSize, i, []⟩

variable (m filters batchSize i rounds) in
/-- The stream comes to its end, and the consumer has been handed every message that matched when it
was opened exactly once. -/
def VisitsEach : Prop :=
  ∃ k, (streamed rounds (streamStart m filters batchSize i) k).it.done = true
    ∧ ∀ msg ∈ i.store.messages.all,
      selects m.service.now (streamFilters m.userID filters) msg = true →
      ((streamed rounds (streamStart m filters batchSize i) k).visited.map Message.id).count msg.id
        = 1

lemma streamBatchSize_toNat (batchSize : ℤ) :
    ((streamBatchSize batchSize).toNat : ℤ) = streamBatchSize batchSize := by
  have hsize := BatchIterator.one_le_streamBatchSize batchSize
  omega

lemma going_start :
    Going m.userID (streamFilters m.userID filters) (streamBatchSize batchSize).toNat i.store
      (streamStart m filters batchSize i) where
  origin id msg hld := ⟨msg, hld, rfl⟩
  untouched id _ := rfl
  known x hx := by cases hx
  falling := List.Pairwise.nil
  size := (streamBatchSize_toNat batchSize).symm
  cursor _ := by
    refine ⟨?_, rfl⟩
    rw [streamFetch, streamBatchSize_toNat]
    rfl
  finished hdn := by cases hdn

/-- **Streaming while the messages change.**  Whatever the consumer does to the messages it is
handed: it is handed every message that matched at the start exactly once if and only if, at every
fetch, the cursor still matches or nothing that matched at the start is older. -/
theorem stream_visits_each_iff (m : MemoryMailbox) (filters : List Filter) (batchSize : ℤ)
    (i : Instance) (rounds : ℕ → Round) (halone : Alone m.userID m.service.now i.store rounds) :
    VisitsEach m filters batchSize i rounds
      ↔ ∀ k, (streamed rounds (streamStart m filters batchSize i) k).Fetches →
        CursorOK (streamFilters m.userID filters) i.store m.service.now (rounds k).now
          (streamed rounds (streamStart m filters batchSize i) k) := by
  have hb : 1 ≤ (streamBatchSize batchSize).toNat := by
    have hsize := BatchIterator.one_le_streamBatchSize batchSize
    omega
  have hown : ownerIs m.userID ∈ streamFilters m.userID filters := List.mem_cons_self
  have hgoing := (going_start (m := m) (i := i)).run halone hown hb
  have hacct : Accounted (streamFilters m.userID filters) (streamBatchSize batchSize).toNat
      i.store m.service.now (streamStart m filters batchSize i) :=
    fun msg _ _ => .inr ⟨rfl, .inl rfl, trivial⟩
  constructor
  · rintro ⟨n, hdn, hvisits⟩ k hfet
    by_contra hn
    rw [CursorOK, not_or] at hn
    obtain ⟨hlost, hleft⟩ := hn
    push Not at hleft
    obtain ⟨msg, hmsg, hsel, hbelow⟩ := hleft
    have hone := hvisits msg hmsg hsel
    rw [visited_of_lost going_start halone hown hb hdn hfet hlost,
      List.count_eq_zero_of_not_mem ((hgoing k).notMem_visited hfet.1 hmsg hbelow)] at hone
    cases hone
  · intro hok
    obtain ⟨k, hdn⟩ := exists_done going_start halone hown hb rfl
    have hacct : Accounted (streamFilters m.userID filters)
        (streamBatchSize batchSize).toNat i.store m.service.now
        (streamed rounds (streamStart m filters batchSize i) k) := by
      clear hdn
      induction k with
      | zero => exact hacct
      | succ k ih => exact ih.step (hgoing k) halone hown hb (hok k)
    refine ⟨k, hdn, fun msg hmsg hsel => ?_⟩
    have hnd := (hgoing k).nodup
    rcases hacct msg hmsg hsel with hin | ⟨hn, _⟩
    · rw [Streaming.handed, (hgoing k).finished hdn, List.append_nil] at hin hnd
      exact List.count_eq_one_of_mem hnd hin
    · cases hn.symm.trans hdn

end Streams

/-! ## Two messages, one at a time -/

def letterOf (id : String) (createdAt : Time) : Message :=
  { letterTo id "u" with createdAt := createdAt }

def twoLetters : Instance :=
  freshInstance ((Table.empty.put (letterOf "a" 2)).put (letterOf "b" 1))

/-- A consumer that does the same to every message. -/
def always (choice : Choice) (_ : ℕ) : Round := ⟨plainMemoryMailbox "u", id, choice⟩

/-- The stream over the two messages with a batch size of one. -/
def oneByOne : Streaming := streamStart (plainMemoryMailbox "u") [] 1 twoLetters

lemma alone_twoLetters (choice : Choice) : Alone "u" 1 twoLetters.store (always choice) where
  user _ := rfl
  access _ := rfl
  range _ _ := .refl _
  clock _ := le_refl _
  named := by decide
  distinct x hx y hy _ _ heq := by
    have hall : twoLetters.store.messages.all = [letterOf "b" 1, letterOf "a" 2] := rfl
    simp only [hall, mem_cons, not_mem_nil, or_false] at hx hy
    rcases hx with rfl | rfl <;> rcases hy with rfl | rfl
    · rfl
    · exact absurd heq (by decide)
    · exact absurd heq (by decide)
    · rfl

/-- Messages that are archived go on matching, so both of them are handed out. -/
theorem stream_visits_each_archived : Alone "u" 1 twoLetters.store (always (.move folderArchived))
      ∧ VisitsEach (plainMemoryMailbox "u") [] 1 twoLetters (always (.move folderArchived)) := by
  refine ⟨alone_twoLetters _, (stream_visits_each_iff (plainMemoryMailbox "u") [] 1 twoLetters
    (always (.move folderArchived)) (alone_twoLetters _)).mpr fun k hfet => ?_⟩
  match k with
  | 0 => exact .inl trivial
  | 1 => exact .inl ⟨_, rfl, by decide⟩
  | 2 => exact .inl ⟨_, rfl, by decide⟩
  | k + 3 =>
    have hend : (streamed (always (.move folderArchived)) oneByOne 3).it.done = true := by decide
    have hdn : (streamed (always (.move folderArchived)) oneByOne (k + 3)).it.done = true := by
      rw [streamed_of_done (Nat.le_add_left 3 k) hend, hend]
    cases hfet.1.symm.trans hdn

/-- The first of two messages is moved to trash, and the second one is never handed out. -/
theorem stream_skips_after_delete : Alone "u" 1 twoLetters.store (always .delete)
      ∧ ¬ VisitsEach (plainMemoryMailbox "u") [] 1 twoLetters (always .delete) := by
  refine ⟨alone_twoLetters _, ?_⟩
  rintro ⟨k, hdn, hvisits⟩
  have hend : (streamed (always .delete) oneByOne 2).it.done = true := by decide
  have hone : ((streamed (always .delete) oneByOne k).visited.map Message.id).count "b" = 1 :=
    hvisits (letterOf "b" 1) List.mem_cons_self (by decide)
  match k with
  | 0 => exact absurd hdn (by decide)
  | 1 => exact absurd hdn (by decide)
  | k + 2 =>
    rw [streamed_of_done (Nat.le_add_left 2 k) hend] at hone
    exact absurd hone (by decide)

end Mailbox.Service
