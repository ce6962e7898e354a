import Mathlib.Data.Set.Function
import Mailbox.Lib.Machine
import Mailbox.Lib.Table
import Mailbox.Store.Filter

/-!
# The attachment cache

`cached.Store` keeps files it has loaded from its backend in a directory.  `Load` serves a file that
is there and young enough; otherwise it opens the backend's file and returns a reader that copies
what is read into a temporary file.  `Close` moves that file into the cache.

`Cache.next` is one step of a directory with any number of open readers: a `Load`, one `Read` or the
`Close` of a reader, a run of `cleanupExpired`, or time passing.  Which calls of the file system
fail is an argument of the step.  A reader keeps reading a cached file that was removed or replaced.

The cache is meant to be **transparent**: who reads a `Load` to its end has the bytes of the
backend.  It is as transparent as its `Close` is careful (`cache_transparent_iff`), and `Close`
looks neither at whether its caller has come to the end, nor at whether the writes went through.
-/

namespace Mailbox.Attachment

open List Option Table

abbrev Bytes := List UInt8

/-- A file of the cache directory under the key of a URI. -/
structure CacheFile where
  name : String
  bytes : Bytes
  modTime : Time
  deriving DecidableEq, Repr

/-- The temporary file of a `cachingReader`.  It is `present` while the directory has it. -/
structure TempFile where
  bytes : Bytes
  modTime : Time
  present : Bool
  deriving DecidableEq, Repr

/-- What `Load` has returned: a cached file, the backend's own reader, or — with a temporary file —
a `cachingReader`.  `got` is what its caller has read so far and `rest` what is still to come. -/
structure Reader where
  uri : String
  got : Bytes
  rest : Bytes
  tmpFile : Option TempFile
  closed : Bool
  deriving DecidableEq, Repr

/-- The cache directory, the recorded size and the readers, numbered in the order they were opened
in. -/
structure Cache where
  files : Table CacheFile.name
  cacheSize : ℤ
  readers : ℕ → Option Reader
  opened : ℕ
  now : Time

/-- The settings of a store.  `backend` is what the backend holds; `cacheKey` is the hash of a URI,
and `underCacheDir` the check that a key does not lead out of the directory. -/
structure CachedStore where
  backend : String → Bytes
  cacheKey : String → String
  underCacheDir : String → Bool
  maxSize : ℤ
  ttl : ℤ

/-- The calls of a `Load` that fail. -/
structure LoadFaults where
  stat : Bool
  openFile : Bool
  chtimes : Bool
  remove : Bool
  backend : Bool
  createTemp : Bool

/-- The calls of a `Close` that fail. -/
structure CloseFaults where
  close : Bool
  rename : Bool
  remove : Bool

/-- A call of the operating system or of the backend that does what it is asked for. -/
def LoadFaults.none : LoadFaults := ⟨false, false, false, false, false, false⟩

@[inherit_doc LoadFaults.none]
def CloseFaults.none : CloseFaults := ⟨false, false, false⟩

/-- One step.  A `read` asks for `n` bytes, of which the first `written` reach the temporary file;
a `cleanup` cannot remove the files that it spares. -/
inductive CacheAction where
  | load (uri : String) (faults : LoadFaults)
  | read (reader n written : ℕ)
  | close (reader : ℕ) (faults : CloseFaults)
  | cleanup (spared : String → Bool) (sparedTemp : ℕ → Bool)
  | wait (d : ℕ)

/-- A step that opens nothing but the given URIs. -/
def CacheAction.Within (uris : Set String) : CacheAction → Prop
  | .load uri _ => uri ∈ uris
  | _ => True

/-! ## The steps -/

namespace Cache

def updateCacheSize (delta : ℤ) (c : Cache) : Cache :=
  { c with cacheSize := if c.cacheSize + delta < 0 then 0 else c.cacheSize + delta }

lemma files_updateCacheSize (delta : ℤ) (c : Cache) :
    (c.updateCacheSize delta).files = c.files := rfl

def openReader (r : Reader) (c : Cache) : Cache :=
  { c with readers := Function.update c.readers c.opened (some r), opened := c.opened + 1 }

def setReader (i : ℕ) (r : Reader) (c : Cache) : Cache :=
  { c with readers := Function.update c.readers i (some r) }

lemma readers_setReader (i : ℕ) (r : Reader) (c : Cache) :
    (c.setReader i r).readers = Function.update c.readers i (some r) := rfl

end Cache

namespace CachedStore

variable (s : CachedStore) (uri : String)

/-- `time.Since(info.ModTime()) < s.ttl`. -/
def Fresh (c : Cache) (modTime : Time) : Prop := c.now - modTime < s.ttl

instance (c : Cache) (modTime : Time) : Decidable (s.Fresh c modTime) :=
  inferInstanceAs (Decidable (_ < _))

/-- `cacheAndRead`: without a temporary file the caller gets the backend's reader. -/
def cacheAndRead (faults : LoadFaults) (c : Cache) : Cache :=
  c.openReader ⟨uri, [], s.backend uri,
    if faults.createTemp then none else some ⟨[], c.now, true⟩, false⟩

/-- The part of `Load` after a cache miss. -/
def loadMiss (faults : LoadFaults) (c : Cache) : Cache :=
  if faults.backend then c else s.cacheAndRead uri faults c

/-- `Load`.  A cached file that cannot be opened is a miss, and stays; one that has expired is
removed and taken off the size, whether the removal succeeds or not. -/
def load (faults : LoadFaults) (c : Cache) : Cache :=
  if ¬ s.underCacheDir (s.cacheKey uri) then c
  else match if faults.stat then none else c.files.load (s.cacheKey uri) with
  | none => s.loadMiss uri faults c
  | some file =>
    if s.Fresh c file.modTime then
      if faults.openFile then s.loadMiss uri faults c
      else
        { c with
          files := if faults.chtimes then c.files
            else c.files.put { file with modTime := c.now } }.openReader
          ⟨uri, [], file.bytes, none, false⟩
    else
      s.loadMiss uri faults (({ c with
          files := if faults.remove then c.files else c.files.delete (s.cacheKey uri) } :
            Cache).updateCacheSize (-file.bytes.length))

/-- `Read`: the bytes go to the caller whatever becomes of the copy. -/
def read (r : Reader) (n written : ℕ) (now : Time) : Reader :=
  { r with
    got := r.got ++ r.rest.take n
    rest := r.rest.drop n
    tmpFile := r.tmpFile.map fun tmp =>
      if (r.rest.take n).take written = [] then tmp
      else { tmp with bytes := tmp.bytes ++ (r.rest.take n).take written, modTime := now } }

def hasSpace (size : ℤ) (c : Cache) : Bool := decide (c.cacheSize + size ≤ s.maxSize)

/-- Whether a `Close` moves the temporary file into the cache. -/
def publishes (r : Reader) (tmp : TempFile) (faults : CloseFaults) (c : Cache) : Bool :=
  !faults.close && s.hasSpace r.got.length c && !faults.rename && tmp.present

/-- `Close`.  The size it asks for and records is that of what was read, not of the file. -/
def close (i : ℕ) (r : Reader) (faults : CloseFaults) (c : Cache) : Cache :=
  match r.tmpFile with
  | none => c.setReader i { r with closed := true }
  | some tmp =>
    if s.publishes r tmp faults c then
      ({ c with files := c.files.put ⟨s.cacheKey r.uri, tmp.bytes, tmp.modTime⟩ }.setReader i
        { r with closed := true, tmpFile := some { tmp with present := false } }).updateCacheSize
          r.got.length
    else
      c.setReader i
        { r with
          closed := true
          tmpFile := some { tmp with present := tmp.present && faults.remove } }

/-- Whether `cleanupExpired` removes a file. -/
def sweeps (c : Cache) (modTime : Time) (spared : Bool) : Bool :=
  decide (s.ttl < c.now - modTime) && !spared

/-- The temporary file of a reader after a run of `cleanupExpired`. -/
def sweepTemp (c : Cache) (spared : Bool) (tmp : TempFile) : TempFile :=
  { tmp with present := tmp.present && !s.sweeps c tmp.modTime spared }

/-- The temporary files that `cleanupExpired` removes, of readers open or closed. -/
def sweptTemps (sparedTemp : ℕ → Bool) (c : Cache) : List TempFile :=
  (List.range c.opened).filterMap fun i =>
    (c.readers i).bind (·.tmpFile) |>.filter fun tmp =>
      tmp.present && s.sweeps c tmp.modTime (sparedTemp i)

/-- `cleanupExpired`: what has expired goes, the temporary files of open readers included. -/
def cleanupExpired (spared : String → Bool) (sparedTemp : ℕ → Bool) (c : Cache) : Cache :=
  let swept := c.files.all.filter fun file => s.sweeps c file.modTime (spared file.name)
  let temps := s.sweptTemps sparedTemp c
  let freedBytes : ℕ := (swept.map (·.bytes.length) ++ temps.map (·.bytes.length)).foldl (· + ·) 0
  let c' : Cache :=
    { c with
      files := c.files.filter fun file => !s.sweeps c file.modTime (spared file.name)
      readers := fun i => (c.readers i).map fun r =>
        { r with tmpFile := r.tmpFile.map (s.sweepTemp c (sparedTemp i)) } }
  if swept.length + temps.length > 0 then c'.updateCacheSize (-freedBytes) else c'

/-- One step of the cache.  Nothing is read from a reader that is closed, and closing it again does
nothing. -/
def next (c : Cache) : CacheAction → Cache
  | .load uri faults => s.load uri faults c
  | .read i n written =>
    match c.readers i with
    | none => c
    | some r => if r.closed then c else c.setReader i (read r n written c.now)
  | .close i faults =>
    match c.readers i with
    | none => c
    | some r => if r.closed then c else s.close i r faults c
  | .cleanup spared sparedTemp => s.cleanupExpired spared sparedTemp c
  | .wait d => { c with now := c.now + d }

def run (actions : List CacheAction) (c : Cache) : Cache := actions.foldl s.next c

/-! ## Transparency -/

/-- Every `Load` that was read to its end has returned what the backend holds. -/
def Transparent (c : Cache) : Prop :=
  ∀ i r, c.readers i = some r → r.rest = [] → r.got = s.backend r.uri

/-- And so would one more `Load`, however much of it is read. -/
def Serves (uris : Set String) (c : Cache) : Prop :=
  ∀ uri ∈ uris, ∀ n, s.Transparent (s.run [.load uri .none, .read c.opened n n] c)

/-- What a step has to look out for: a `Close` that moves a temporary file into the cache, and not
one that is too old already to be served, finds its source read to the end and everything that was
read in the file. -/
def Complete (c : Cache) : CacheAction → Prop
  | .close i faults =>
    ∀ r tmp, c.readers i = some r → r.closed = false → r.tmpFile = some tmp →
      s.publishes r tmp faults c = true → s.Fresh c tmp.modTime → r.rest = [] ∧ tmp.bytes = r.got
  | _ => True

/-- A reader that is on its way through the backend's bytes, and whose temporary file has no more of
them than its caller. -/
structure Reading (uris : Set String) (r : Reader) : Prop where
  mem : r.uri ∈ uris
  valid : s.underCacheDir (s.cacheKey r.uri) = true
  bytes : r.got ++ r.rest = s.backend r.uri
  copied : ∀ tmp, r.tmpFile = some tmp → tmp.bytes.length ≤ r.got.length

/-- Every reader is on its way, and every file that would be served is right. -/
structure Sound (uris : Set String) (c : Cache) : Prop where
  reading : ∀ i r, c.readers i = some r → s.Reading uris r
  files : ∀ uri ∈ uris, s.underCacheDir (s.cacheKey uri) = true → ∀ file,
    c.files.load (s.cacheKey uri) = some file → s.Fresh c file.modTime → file.bytes = s.backend uri

variable {s} {uris : Set String} {c : Cache} {r : Reader} {tmp : TempFile} {uri : String}

/-- The temporary file is the backend's file when the caller has come to the end and every write
went through, and not otherwise. -/
lemma Reading.complete_iff (h : s.Reading uris r) (htmp : r.tmpFile = some tmp) :
    tmp.bytes = s.backend r.uri ↔ r.rest = [] ∧ tmp.bytes = r.got := by
  constructor
  · intro heq
    have hlen : r.got.length + r.rest.length ≤ r.got.length := by
      rw [← length_append, h.bytes, ← heq]
      exact h.copied tmp htmp
    have hr : r.rest = [] := length_eq_zero_iff.mp (by omega)
    refine ⟨hr, ?_⟩
    rw [heq, ← h.bytes, hr, append_nil]
  · rintro ⟨hr, heq⟩
    rw [heq, ← h.bytes, hr, append_nil]

lemma Reading.read (h : s.Reading uris r) (n written : ℕ) (now : Time) :
    s.Reading uris (read r n written now) where
  mem := h.mem
  valid := h.valid
  bytes := by
    show (r.got ++ r.rest.take n) ++ r.rest.drop n = s.backend r.uri
    rw [append_assoc, take_append_drop, h.bytes]
  copied := by
    intro tmp htmp
    obtain ⟨old, hold, rfl⟩ := map_eq_some_iff.mp htmp
    have hcopied := h.copied old hold
    show _ ≤ (r.got ++ r.rest.take n).length
    rw [length_append]
    split
    · omega
    · have hpart := length_take_le' written (r.rest.take n)
      rw [length_append]
      omega

section

variable (h : s.Sound uris c)

include h

lemma Sound.transparent : s.Transparent c := by
  intro i r hr hrest
  rw [← (h.reading i r hr).bytes, hrest, append_nil]

lemma Sound.setReader (i : ℕ) (hr : s.Reading uris r) : s.Sound uris (c.setReader i r) where
  reading := by
    intro j r' hr'
    by_cases hj : j = i
    · subst hj
      rw [Cache.readers_setReader, Function.update_self] at hr'
      rwa [← some.inj hr']
    · rw [Cache.readers_setReader, Function.update_of_ne hj] at hr'
      exact h.reading j r' hr'
  files := h.files

lemma Sound.openReader (hr : s.Reading uris r) : s.Sound uris (c.openReader r) where
  reading := (h.setReader c.opened hr).reading
  files := h.files

lemma Sound.of_files {c' : Cache} (hreaders : c'.readers = c.readers) (hnow : c'.now = c.now)
    (hfiles : ∀ k file, c'.files.load k = some file → c.files.load k = some file) :
    s.Sound uris c' where
  reading := by
    rw [hreaders]
    exact h.reading
  files := by
    intro uri hmem hval file hfile hfr
    refine h.files uri hmem hval file (hfiles _ _ hfile) ?_
    rwa [Fresh, hnow] at hfr

end

variable {file : CacheFile}

/-- A sound cache stays sound when a file is stored that holds the bytes of its URI, or is too old
to be served. -/
lemma Sound.put (hk : Set.InjOn s.cacheKey uris) (h : s.Sound uris c) (hmem : uri ∈ uris)
    (hname : file.name = s.cacheKey uri)
    (hbytes : s.Fresh c file.modTime → file.bytes = s.backend uri) :
    s.Sound uris { c with files := c.files.put file } where
  reading := h.reading
  files := by
    intro uri' hmem' hval file' hfile hfr
    by_cases hks : s.cacheKey uri' = s.cacheKey uri
    · have huri : uri' = uri := hk hmem' hmem hks
      subst huri
      rw [← hname, load_put_self] at hfile
      cases hfile
      exact hbytes hfr
    · rw [load_put_of_ne (by rwa [hname])] at hfile
      exact h.files uri' hmem' hval file' hfile hfr

/-! ## Every step but a careless `Close` keeps the cache sound -/

lemma Sound.loadMiss (h : s.Sound uris c) (hmem : uri ∈ uris)
    (hval : s.underCacheDir (s.cacheKey uri) = true) (faults : LoadFaults) :
    s.Sound uris (s.loadMiss uri faults c) := by
  rw [CachedStore.loadMiss]
  split
  · exact h
  · refine h.openReader ⟨hmem, hval, rfl, ?_⟩
    intro tmp htmp
    cases hmk : faults.createTemp with
    | true => simp [hmk] at htmp
    | false =>
      simp only [hmk, Bool.false_eq_true, if_false, some.injEq] at htmp
      simp [← htmp]

lemma Sound.load (hk : Set.InjOn s.cacheKey uris) (h : s.Sound uris c) (hmem : uri ∈ uris)
    (faults : LoadFaults) : s.Sound uris (s.load uri faults c) := by
  rw [CachedStore.load]
  split
  · exact h
  next hval =>
  rw [not_not] at hval
  split
  · exact h.loadMiss hmem hval faults
  next file hfile =>
  have hfn : c.files.load (s.cacheKey uri) = some file := by
    cases hstat : faults.stat <;> simp_all
  split
  next hfr =>
    -- A hit: the file is the one the backend has, so the reader is right and so is its new time.
    have hbytes : file.bytes = s.backend uri := h.files uri hmem hval file hfn hfr
    split
    · exact h.loadMiss hmem hval faults
    · refine Sound.openReader ?_ ⟨hmem, hval, hbytes, by simp⟩
      split
      · exact h.of_files rfl rfl fun _ _ hld => hld
      · have hname : file.name = s.cacheKey uri := key_of_load hfn
        exact h.put hk hmem hname fun _ => hbytes
  next hfr =>
    apply Sound.loadMiss _ hmem hval
    refine h.of_files rfl rfl ?_
    intro k old hold
    rw [Cache.files_updateCacheSize] at hold
    cases hremove : faults.remove with
    | true => simpa [hremove] using hold
    | false => exact load_of_load_delete (by simpa [hremove] using hold)

/-- Only the temporary file of a reader is touched behind its caller's back, and not its bytes. -/
lemma Reading.of_same {r' : Reader} (h : s.Reading uris r) (huri : r'.uri = r.uri)
    (hgot : r'.got = r.got) (hr : r'.rest = r.rest)
    (htmp : ∀ tmp, r'.tmpFile = some tmp → ∃ old, r.tmpFile = some old ∧ tmp.bytes = old.bytes) :
    s.Reading uris r' where
  mem := by rw [huri]; exact h.mem
  valid := by rw [huri]; exact h.valid
  bytes := by rw [hgot, hr, huri]; exact h.bytes
  copied := by
    intro tmp hsome
    obtain ⟨old, hold, hbytes⟩ := htmp tmp hsome
    rw [hbytes, hgot]
    exact h.copied old hold

lemma Sound.updateCacheSize (h : s.Sound uris c) (delta : ℤ) :
    s.Sound uris (c.updateCacheSize delta) :=
  h.of_files rfl rfl fun _ _ hfile => hfile

lemma Sound.close (hk : Set.InjOn s.cacheKey uris) (h : s.Sound uris c) {i : ℕ}
    (hr : c.readers i = some r) {faults : CloseFaults}
    (hcompl : ∀ tmp, r.tmpFile = some tmp → s.publishes r tmp faults c = true →
      s.Fresh c tmp.modTime → r.rest = [] ∧ tmp.bytes = r.got) :
    s.Sound uris (s.close i r faults c) := by
  have hreading : s.Reading uris r := h.reading i r hr
  rw [CachedStore.close]
  split
  next hno =>
    refine h.setReader i (hreading.of_same rfl rfl rfl ?_)
    intro tmp htmp
    exact ⟨tmp, htmp, rfl⟩
  next tmp hsome =>
    -- Whether or not it was moved, the file that the reader remembers has the bytes it had.
    have hmark : ∀ present, s.Reading uris
        { r with closed := true, tmpFile := some { tmp with present := present } } := by
      intro present
      refine hreading.of_same rfl rfl rfl ?_
      rintro _ ⟨⟩
      exact ⟨tmp, hsome, rfl⟩
    split
    next hpublishes =>
      refine Sound.updateCacheSize (Sound.setReader ?_ i (hmark false)) _
      refine h.put hk hreading.mem rfl ?_
      intro hfr
      exact (hreading.complete_iff hsome).mpr (hcompl tmp hsome hpublishes hfr)
    · exact h.setReader i (hmark _)

lemma Sound.cleanupExpired (h : s.Sound uris c) (spared : String → Bool) (sparedTemp : ℕ → Bool) :
    s.Sound uris (s.cleanupExpired spared sparedTemp c) := by
  have hsw : s.Sound uris
      { c with
        files := c.files.filter fun file => !s.sweeps c file.modTime (spared file.name)
        readers := fun i => (c.readers i).map fun r =>
          { r with tmpFile := r.tmpFile.map (s.sweepTemp c (sparedTemp i)) } } := by
    constructor
    · intro i r hr
      obtain ⟨old, hold, rfl⟩ := map_eq_some_iff.mp hr
      refine (h.reading i old hold).of_same rfl rfl rfl ?_
      intro tmp htmp
      obtain ⟨oldTmp, holdTmp, rfl⟩ := map_eq_some_iff.mp htmp
      exact ⟨oldTmp, holdTmp, rfl⟩
    · intro uri hmem hval file hfile hfr
      exact h.files uri hmem hval file (load_of_load_filter hfile) hfr
  rw [CachedStore.cleanupExpired]
  split
  · exact hsw.updateCacheSize _
  · exact hsw

lemma Sound.wait (h : s.Sound uris c) (d : ℕ) : s.Sound uris { c with now := c.now + d } where
  reading := h.reading
  files := by
    intro uri hmem hval file hfile hfr
    refine h.files uri hmem hval file hfile ?_
    -- What is young enough later is young enough now.
    have hpassed : c.now ≤ c.now + d := Int.le_add_of_nonneg_right (Int.natCast_nonneg d)
    exact Int.lt_of_le_of_lt (Int.sub_le_sub_right hpassed file.modTime) hfr

variable {a : CacheAction}

theorem Sound.next (hk : Set.InjOn s.cacheKey uris) (h : s.Sound uris c)
    (ha : a.Within uris) (hcompl : s.Complete c a) : s.Sound uris (s.next c a) := by
  cases a with
  | load uri faults => exact h.load hk ha faults
  | read i n written =>
    rw [CachedStore.next]
    split
    · exact h
    next r hr =>
    split
    · exact h
    · exact h.setReader i ((h.reading i r hr).read n written c.now)
  | close =>
    rw [CachedStore.next]
    split
    · exact h
    next r hr =>
    split
    · exact h
    next hop =>
    refine h.close hk hr ?_
    intro tmp htmp
    exact hcompl r tmp hr (by simpa using hop) htmp
  | cleanup spared sparedTemp => exact h.cleanupExpired spared sparedTemp
  | wait d => exact h.wait d

theorem Sound.run (hk : Set.InjOn s.cacheKey uris) (h : s.Sound uris c)
    {actions : List CacheAction} (hwithin : ∀ a ∈ actions, a.Within uris)
    (hcompl : ∀ e ∈ Machine.steps s.next actions c, s.Complete e.1 e.2) (n : ℕ) :
    s.Sound uris (s.run (actions.take n) c) := by
  have hstep : ∀ c a, s.Sound uris c → a.Within uris ∧ s.Complete c a →
      s.Sound uris (s.next c a) := by
    rintro c a hsound ⟨ha, hcompl⟩
    exact hsound.next hk ha hcompl
  have hok : ∀ e ∈ Machine.steps s.next actions c, e.2.Within uris ∧ s.Complete e.1 e.2 := by
    intro e he
    obtain ⟨before, after, rfl, _⟩ := Machine.exists_of_mem_steps he
    exact ⟨hwithin e.2 (by simp), hcompl e he⟩
  exact Machine.steps_induction hstep hok h n

/-! ## A careless `Close` is found out by the next `Load` -/

/-- A file that is young enough is what a `Load` returns. -/
lemma readers_probe (hval : s.underCacheDir (s.cacheKey uri) = true)
    (hfile : c.files.load (s.cacheKey uri) = some file) (hfr : s.Fresh c file.modTime) (n : ℕ) :
    (s.run [.load uri .none, .read c.opened n n] c).readers c.opened
      = some ⟨uri, file.bytes.take n, file.bytes.drop n, none, false⟩ := by
  have hld : (s.load uri .none c).readers c.opened = some ⟨uri, [], file.bytes, none, false⟩ := by
    simp [CachedStore.load, LoadFaults.none, hval, hfile, hfr, Cache.openReader]
  show (s.next (s.load uri .none c) (.read c.opened n n)).readers c.opened = _
  simp [CachedStore.next, hld, Cache.readers_setReader, CachedStore.read]

/-- So a file with other bytes than the backend's is served to whoever asks for it. -/
lemma not_serves_of_file (hmem : uri ∈ uris) (hval : s.underCacheDir (s.cacheKey uri) = true)
    (hfile : c.files.load (s.cacheKey uri) = some file) (hfr : s.Fresh c file.modTime)
    (hwrong : file.bytes ≠ s.backend uri) : ¬ s.Serves uris c := by
  intro hserv
  have hprobe := readers_probe hval hfile hfr file.bytes.length
  refine hwrong ?_
  have hgot := hserv uri hmem file.bytes.length c.opened _ hprobe (by simp)
  simpa using hgot

/-- A step that is not careful leaves such a file. -/
lemma Sound.not_serves_next (h : s.Sound uris c) (ha : ¬ s.Complete c a) :
    ¬ s.Serves uris (s.next c a) := by
  cases a with
  | close i faults =>
    simp only [Complete, not_forall] at ha
    obtain ⟨r, tmp, hr, hop, htmp, hpublishes, hfr, hcareless⟩ := ha
    have hreading : s.Reading uris r := h.reading i r hr
    have hnx : s.next c (.close i faults) = s.close i r faults c := by
      simp [CachedStore.next, hr, hop]
    have hfile : (s.close i r faults c).files.load (s.cacheKey r.uri)
        = some ⟨s.cacheKey r.uri, tmp.bytes, tmp.modTime⟩ := by
      simp only [CachedStore.close, htmp, hpublishes, if_true]
      exact load_put_self
    have hnow : (s.close i r faults c).now = c.now := by
      simp only [CachedStore.close, htmp, hpublishes, if_true]
      rfl
    rw [hnx]
    refine not_serves_of_file hreading.mem hreading.valid hfile ?_ ?_
    · rwa [Fresh, hnow]
    · rwa [ne_eq, hreading.complete_iff htmp]
  | load | read | cleanup | wait =>
    exact absurd trivial ha

/-- **Transparency.**  Along a run of loads, reads, closes and cleanups, with whatever failures,
every `Load` that is read to its end returns the bytes of the backend, and every further one would,
exactly when each `Close` that publishes a file publishes a complete one.  The keys of the URIs in
play do not collide, and the cache starts with no wrong files. -/
theorem cache_transparent_iff (hkey : Set.InjOn s.cacheKey uris) (hstart : s.Sound uris c)
    {actions : List CacheAction} (hwithin : ∀ a ∈ actions, a.Within uris) :
    (∀ n, s.Transparent (s.run (actions.take n) c) ∧ s.Serves uris (s.run (actions.take n) c))
      ↔ ∀ e ∈ Machine.steps s.next actions c, s.Complete e.1 e.2 := by
  constructor
  · intro htransp
    by_contra hcareless
    obtain ⟨before, a, after, rfl, ha, hbef⟩ := Machine.exists_first_of_not_steps hcareless
    have hsound : s.Sound uris (s.run before c) := by
      have := hstart.run hkey (fun b hb => hwithin b (by simp [hb])) hbef before.length
      rwa [take_length] at this
    refine hsound.not_serves_next ha ?_
    have hserv := (htransp (before ++ [a]).length).2
    rw [append_cons before a after, take_left, CachedStore.run, foldl_append] at hserv
    exact hserv
  · intro hcompl n
    have hsound := hstart.run hkey hwithin hcompl n
    refine ⟨hsound.transparent, ?_⟩
    intro uri hmem m
    have hld : s.Sound uris (s.next _ (.load uri .none)) := hsound.next hkey hmem trivial
    have hrd : s.Sound uris (s.next _ (.read (s.run (actions.take n) c).opened m m)) :=
      hld.next hkey trivial trivial
    exact hrd.transparent

end CachedStore

/-! ## Two files that should not have been published -/

def Cache.empty : Cache := ⟨Table.empty, 0, fun _ => none, 0, 0⟩

lemma CachedStore.sound_empty (s : CachedStore) (uris : Set String) : s.Sound uris .empty where
  reading := by
    rintro i r ⟨⟩
  files := by
    rintro uri - - file ⟨⟩

/-- A store whose backend holds the same two bytes everywhere. -/
def twoBytes : CachedStore where
  backend _ := [1, 2]
  cacheKey uri := uri
  underCacheDir _ := true
  maxSize := 100
  ttl := 60

/-- A caller reads one byte and closes; another one reads to the end. -/
def closedEarly : List CacheAction :=
  [.load "a" .none, .read 0 1 1, .close 0 .none, .load "a" .none, .read 1 9 9]

/-- A caller reads everything while nothing can be written to the disk; another one does the same
later. -/
def diskFull : List CacheAction :=
  [.load "a" .none, .read 0 2 0, .close 0 .none, .load "a" .none, .read 1 9 9]

/-- Either way the temporary file becomes the cached one, and the second caller comes to its end
with one byte, or with none. -/
theorem incomplete_file_served :
    ((twoBytes.run closedEarly .empty).readers 1).map (fun r => (r.got, r.rest)) = some ([1], [])
      ∧ ¬ twoBytes.Transparent (twoBytes.run closedEarly .empty)
      ∧ ((twoBytes.run diskFull .empty).readers 1).map (fun r => (r.got, r.rest)) = some ([], [])
      ∧ ¬ twoBytes.Transparent (twoBytes.run diskFull .empty) := by
  refine ⟨rfl, ?_, rfl, ?_⟩
  · intro htransp
    have hgot : ([1] : Bytes) = [1, 2] := htransp 1 _ rfl rfl
    exact absurd hgot (by decide)
  · intro htransp
    have hgot : ([] : Bytes) = [1, 2] := htransp 1 _ rfl rfl
    exact absurd hgot (by decide)

/-- A caller reads to the end; another one is served from the file that was left. -/
def readThrough : List CacheAction :=
  [.load "a" .none, .read 0 1 1, .read 0 1 1, .close 0 .none, .wait 30,
    .cleanup (fun _ => false) (fun _ => false), .load "a" .none, .read 1 9 9]

theorem readThrough_transparent :
    ((twoBytes.run readThrough .empty).readers 1).map (fun r => (r.got, r.tmpFile))
        = some ([1, 2], none)
      ∧ ∀ n, twoBytes.Transparent (twoBytes.run (readThrough.take n) .empty)
        ∧ twoBytes.Serves {"a"} (twoBytes.run (readThrough.take n) .empty) := by
  refine ⟨rfl, ?_⟩
  have hk : Set.InjOn twoBytes.cacheKey {"a"} := Set.injOn_singleton _ _
  refine (CachedStore.cache_transparent_iff hk (twoBytes.sound_empty _) ?_).mpr ?_
  · simp [readThrough, CacheAction.Within]
  · simp only [readThrough, Machine.steps, forall_mem_cons]
    refine ⟨trivial, trivial, trivial, ?_, trivial, trivial, trivial, trivial, by simp⟩
    rintro r tmp hr - htmp - -
    cases hr
    cases htmp
    exact ⟨rfl, rfl⟩

end Mailbox.Attachment
