import Dots.Stream.Transmit

/-!
# The payload cache of a listener

The channels that a listener accepts share one payload cache.

* `Listener`: the channels and their cache; `Listener.outcome`: one step of one of them.
* `Listener.Identified`: ids that tell transmissions apart.
* `Listener.Fits`: the transmissions that are not taken from the cache by a channel with more than
  `WriteBufferMaxSize` bytes in its output.
* **`run_transparent`**: in the runs of these, each channel writes what it writes without the cache.
* **`not_run_transparent`**: the cache is looked up before the size of the output is checked.
-/

set_option autoImplicit false

namespace Dots

namespace AsyncStreamChannel

open CborSerializer TypeVisitor Keep
open Lts (Run Guarded ofPartial run_of_exec)

/-! ## A sender without a cache -/

namespace Sender

/-- The sender with another cache. -/
def withCache (payloadCache : Option (ℕ × List UInt8)) (c : Sender) : Sender := { c with payloadCache }

@[simp] theorem withCache_self (c : Sender) : c.withCache c.payloadCache = c := rfl

@[simp] theorem withCache_withCache (p q : Option (ℕ × List UInt8)) (c : Sender) :
    (c.withCache p).withCache q = c.withCache q := rfl

@[simp] theorem withCache_output (p : Option (ℕ × List UInt8)) (c : Sender) :
    (c.withCache p).output = c.output := rfl

end Sender

def Header.sentTime : Header → Option (BitVec 64)
  | (_, sentTime, _) => sentTime

variable {format : TransmissionFormat} {now : BitVec 64} {t : Transmission} {id : ℕ} {c : Sender}
  {p : Option (ℕ × List UInt8)}

theorem ignores_onSerializer {α : Type} (m : Visit (List UInt8) α) :
    (onSerializer m).Ignores (Sender.withCache p) := Ignores.within (fun _ => rfl) fun _ _ => rfl

theorem ignores_ofExcept {α : Type} (r : Except Exception α) :
    (ofExcept r).Ignores (Sender.withCache p) := by
  cases r with
  | ok a => exact ignores_pure a
  | error e => exact ignores_throws e

theorem ignores_writeFrame (beginIndex : ℕ) :
    (writeFrame now t beginIndex format).Ignores (Sender.withCache p) := by
  cases format with
  | v1 =>
    refine Ignores.bind (ignores_ofExcept _) fun frame => ignores_change ?_
    exact fun _ => rfl
  | v2 =>
    refine Ignores.bind (ignores_change ?_) fun _ => ?_
    · exact fun _ => rfl
    refine Ignores.bind (ignores_onSerializer _) fun _ => ?_
    refine Ignores.bind (ignores_ofExcept _) fun attributes => ?_
    refine Ignores.bind (ignores_onSerializer _) fun _ => ignores_change ?_
    exact fun _ => rfl

/-- The frame of a header and an instance does not depend on the cache. -/
theorem ignores_serializeInstance :
    (serializeInstanceTransmission format now t).Ignores (Sender.withCache p) := by
  refine ignores_get (fun _ => rfl) fun c => ?_
  dsimp only
  split_ifs
  · exact ignores_throws _
  · exact (ignores_writeFrame _).bind fun _ => ignores_pure _

/-- What does not depend on the cache does not change it. -/
theorem payloadCache_of_ignores {α : Type} {m : Transmit α}
    (h : ∀ p, m.Ignores (Sender.withCache p)) : (m.exec c).2.payloadCache = c.payloadCache :=
  congrArg (fun r => r.2.payloadCache) (h c.payloadCache c)

theorem asyncWrite_withCache : asyncWrite (c.withCache p) = (asyncWrite c).withCache p := by
  rw [asyncWrite, asyncWrite, Sender.withCache_output]
  dsimp only
  split_ifs <;> rfl

theorem payloadCache_asyncWrite : (asyncWrite c).payloadCache = c.payloadCache :=
  payloadCache_of_ignores (m := Keep.change asyncWrite) fun _ =>
    ignores_change fun _ => asyncWrite_withCache

/-- Neither does the write that follows. -/
theorem ignores_flush : (Keep.change fun c => if c.asyncWriting then c else asyncWrite c :
    Transmit Unit).Ignores (Sender.withCache p) := by
  refine ignores_change fun c => ?_
  show (if c.asyncWriting then c.withCache p else asyncWrite (c.withCache p)) = _
  rw [asyncWrite_withCache]
  split_ifs <;> rfl

/-! ## Frames that are not serialized -/

theorem throws_onSerializer {α : Type} {m : Visit (List UInt8) α} {e : Exception}
    {s : VisitorState (List UInt8)} (h : m.Throws c.serializer e s) :
    (onSerializer m).Throws c e { c with serializer := s } := by
  have hexec : m.exec c.serializer = (.error e, s) := h
  show (let (r, s) := m.exec c.serializer; ((r, { c with serializer := s }) : _ × Sender)) = _
  rw [hexec]

/-- A frame that cannot be computed is not serialized to its end. -/
theorem throws_writeFrame {e : Exception} (h : serializeTransmission format now t = .error e)
    (beginIndex : ℕ) (c : Sender) :
    ∃ e c', (writeFrame now t beginIndex format).Throws c e c' := by
  cases format with
  | v1 =>
    have herror : serializeTransmissionV1 now t = .error e := h
    have hthrows : (ofExcept (serializeTransmissionV1 now t)).Throws c e c := by
      rw [herror]
      exact throws_throws e c
    exact ⟨e, c, hthrows.bind⟩
  | v2 =>
    obtain ⟨header, hheader⟩ := exists_serialize ((dotsHeader_enumerated t.header).restrict
      (s := Instance.validProperties dotsHeaderProperties t.header))
    refine (gives_change _ c).exists_throws ?_
    refine (gives_onSerializer (gives_visit hheader _ _)).exists_throws ?_
    cases hattributes : t.header.attributes with
    | none => exact ⟨_, _, Throws.bind (throws_throws _ _)⟩
    | some attributes =>
      refine (gives_ofExcept rfl _).exists_throws ?_
      obtain ⟨henumerated, -⟩ | ⟨-, e, s, hthrows⟩ := succeeds_visit throwsAtEnums
        t.type.properties t.payload (PropertySet.ofValue attributes) rfl
      · obtain ⟨frame, hframe⟩ := exists_frame now hattributes henumerated
        rw [h] at hframe
        cases hframe
      · exact ⟨e, _, (throws_onSerializer hthrows).bind⟩

theorem throws_of_size (hsize : c.output.length > writeBufferMaxSize) :
    (serializeInstanceTransmission format now t).Throws c
      (.runtimeError "async write buffer exceeded maximum size") c := by
  refine (gives_get c).then_throws ?_
  rw [if_pos hsize]
  exact throws_throws _ c

/-- **What `serializeTransmission` leaves** if it returns. -/
theorem appended_of_gives {b : ℕ} {c' : Sender}
    (h : (serializeInstanceTransmission format now t).Gives c b c') :
    c.output.length ≤ writeBufferMaxSize ∧ ∃ frame, serializeTransmission format now t = .ok frame ∧
      b = c.output.length ∧ c' = c.setOutput (c.output ++ frame) := by
  have hexec : (serializeInstanceTransmission format now t).exec c = (.ok b, c') := h
  by_cases hsize : c.output.length > writeBufferMaxSize
  · exact absurd (hexec.symm.trans (throws_of_size hsize)) (by simp)
  · cases hframe : serializeTransmission format now t with
    | ok frame =>
      have hgives := hexec.symm.trans (gives_serializeTransmission (not_lt.mp hsize) hframe)
      rw [Prod.mk.injEq, Except.ok.injEq] at hgives
      exact ⟨not_lt.mp hsize, frame, rfl, hgives.1, hgives.2⟩
    | error e =>
      obtain ⟨e', c'', hthrows⟩ := throws_writeFrame hframe c.output.length c
      have hthrows' : (serializeInstanceTransmission format now t).Throws c e' c'' := by
        refine (gives_get c).then_throws ?_
        rw [if_neg hsize]
        exact hthrows.bind
      exact absurd (hexec.symm.trans hthrows') (by simp)

/-! ## A transmission with and without the cache -/

/-- The outcome that a computation has without the cache, if it has `o` with it. -/
def uncached (o : Except Exception Unit × Sender) : Except Exception Unit × Sender :=
  (o.1, o.2.withCache none)

/-- The cache is what it was, or holds the frame of the transmission. -/
def Filled (format : TransmissionFormat) (now : BitVec 64) (id : ℕ) (t : Transmission)
    (c c' : Sender) : Prop :=
  c'.payloadCache = c.payloadCache ∨
    ∃ payload, serializeTransmission format now t = .ok payload ∧ c'.payloadCache = some (id, payload)

theorem exec_cached_none (h : c.payloadCache = none) :
    (serializeCachedTransmission format now id t).exec c =
      Keep.exec (do let _ ← serializeInstanceTransmission format now t) c := by
  rw [serializeCachedTransmission, exec_bind (gives_get c), h]

theorem exec_cached_of_hit {payload : List UInt8} (h : c.payloadCache = some (id, payload)) :
    (serializeCachedTransmission format now id t).exec c =
      (.ok (), c.setOutput (c.output ++ payload)) := by
  rw [serializeCachedTransmission, exec_bind (gives_get c), h]
  dsimp only
  rw [if_pos rfl]
  rfl

theorem exec_cached_of_miss {cacheId : ℕ} {payload : List UInt8}
    (h : c.payloadCache = some (cacheId, payload)) (hid : id ≠ cacheId) :
    (serializeCachedTransmission format now id t).exec c = Keep.exec (do
      let beginIndex ← serializeInstanceTransmission format now t
      Keep.change fun c => { c with payloadCache := some (id, c.output.drop beginIndex) }) c := by
  rw [serializeCachedTransmission, exec_bind (gives_get c), h]
  dsimp only
  rw [if_neg hid]

theorem exec_instance_uncached (format : TransmissionFormat) (now : BitVec 64) (t : Transmission)
    (c : Sender) : Keep.exec (do let _ ← serializeInstanceTransmission format now t) (c.withCache none) =
      uncached (Keep.exec (do let _ ← serializeInstanceTransmission format now t) c) :=
  (ignores_serializeInstance.bind fun _ => ignores_pure ()) c

/-- **A miss** serializes the transmission as it is serialized without the cache. -/
theorem cached_of_miss {cacheId : ℕ} {payload : List UInt8}
    (h : c.payloadCache = some (cacheId, payload)) (hid : id ≠ cacheId) :
    (serializeCachedTransmission format now id t).exec (c.withCache none) =
        uncached ((serializeCachedTransmission format now id t).exec c) ∧
      Filled format now id t c ((serializeCachedTransmission format now id t).exec c).2 := by
  rw [exec_cached_none rfl, exec_instance_uncached, exec_cached_of_miss h hid]
  cases hexec : (serializeInstanceTransmission format now t).exec c with
  | mk r c' =>
    cases r with
    | error e =>
      have hthrows : (serializeInstanceTransmission format now t).Throws c e c' := hexec
      have hplain : Keep.exec (do let _ ← serializeInstanceTransmission format now t) c =
        (.error e, c') := hthrows.bind
      have hfill : Keep.exec (do
          let beginIndex ← serializeInstanceTransmission format now t
          Keep.change fun c => { c with payloadCache := some (id, c.output.drop beginIndex) }) c =
        (.error e, c') := hthrows.bind
      have hcache : ((serializeInstanceTransmission format now t).exec c).2.payloadCache =
          c.payloadCache := payloadCache_of_ignores fun _ => ignores_serializeInstance
      rw [hexec] at hcache
      rw [hplain, hfill]
      exact ⟨rfl, .inl hcache⟩
    | ok b =>
      have hgives : (serializeInstanceTransmission format now t).Gives c b c' := hexec
      obtain ⟨-, frame, hframe, rfl, rfl⟩ := appended_of_gives hgives
      have hplain : Keep.exec (do let _ ← serializeInstanceTransmission format now t) c =
        (.ok (), c.setOutput (c.output ++ frame)) := hgives.bind (gives_pure _ _)
      rw [hplain, exec_bind hgives]
      refine ⟨rfl, .inr ⟨frame, hframe, ?_⟩⟩
      show some (id, (c.output ++ frame).drop c.output.length) = _
      rw [List.drop_left]

/-- **A hit** appends what is serialized without the cache, if that is not refused. -/
theorem cached_of_hit {payload : List UInt8} (h : c.payloadCache = some (id, payload))
    (hframe : serializeTransmission format now t = .ok payload)
    (hsize : c.output.length ≤ writeBufferMaxSize) :
    (serializeCachedTransmission format now id t).exec (c.withCache none) =
      uncached ((serializeCachedTransmission format now id t).exec c) := by
  have hgives : (serializeInstanceTransmission format now t).Gives c c.output.length
    (c.setOutput (c.output ++ payload)) := gives_serializeTransmission hsize hframe
  have hplain : Keep.exec (do let _ ← serializeInstanceTransmission format now t) c =
    (.ok (), c.setOutput (c.output ++ payload)) := hgives.bind (gives_pure _ _)
  rw [exec_cached_none rfl, exec_instance_uncached, exec_cached_of_hit h, hplain]

/-- The write that follows does not depend on the cache, and does not change it. -/
theorem transmit_uncached {m m' : Transmit Unit} (h : m'.exec (c.withCache none) = uncached (m.exec c)) :
    (transmit m').exec (c.withCache none) = uncached ((transmit m).exec c) ∧
      ((transmit m).exec c).2.payloadCache = (m.exec c).2.payloadCache := by
  cases hexec : m.exec c with
  | mk r c' =>
    rw [hexec] at h
    cases r with
    | error e =>
      have hthrows : m.Throws c e c' := hexec
      have hthrows' : m'.Throws (c.withCache none) e (c'.withCache none) := h
      have htransmit : (transmit m).exec c = (.error e, c') := hthrows.bind
      rw [htransmit]
      exact ⟨hthrows'.bind, rfl⟩
    | ok a =>
      have hgives : m.Gives c () c' := hexec
      have hgives' : m'.Gives (c.withCache none) () (c'.withCache none) := h
      rw [transmit, transmit, exec_bind hgives, exec_bind hgives']
      exact ⟨ignores_flush c', payloadCache_of_ignores fun p => ignores_flush⟩

/-! ## The channels of a listener -/

/-- The channels that a listener has accepted. Each has a pointer to the cache of the listener. -/
structure Listener (ι : Type) where
  channels : ι → Sender
  payloadCache : Option (ℕ × List UInt8)

namespace Listener

variable {ι : Type} [DecidableEq ι]

/-- A channel, with the cache that it points to. -/
def channel (c : Listener ι) (i : ι) : Sender := (c.channels i).withCache c.payloadCache

def setChannel (i : ι) (s : Sender) (c : Listener ι) : Listener ι where
  channels := Function.update c.channels i s
  payloadCache := s.payloadCache

inductive Label (ι : Type)
  /-- `transmit` of a header and an instance, or of a transmission with an id. -/
  | transmitInstance (i : ι) (now : BitVec 64) (t : Transmission)
  | transmit (i : ι) (now : BitVec 64) (id : ℕ) (t : Transmission)
  /-- The write in progress completes. -/
  | written (i : ι)

def Label.channel : Label ι → ι
  | .transmitInstance i _ _ | .transmit i _ _ _ | .written i => i

def Label.sender : Label ι → Sender.Label
  | .transmitInstance _ now t => .transmitInstance now t
  | .transmit _ now id t => .transmit now id t
  | .written _ => .written

def outcome (format : TransmissionFormat) (c : Listener ι) (l : Label ι) :
    Option (Except Exception Unit × Listener ι) :=
  ((c.channel l.channel).outcome format l.sender).map fun (r, s) => (r, c.setChannel l.channel s)

/-- Channels that have not transmitted. The cache of a listener is constructed with the id 0. -/
def initial (payloadCache : Option (ℕ × List UInt8)) : Listener ι := ⟨fun _ => {}, payloadCache⟩

end Listener

/-- The ids are not 0 and tell transmissions apart; the clock reading that is used for a missing sent
time is the same at each transmit. -/
structure Listener.Identified {ι : Type} (format : TransmissionFormat) (ls : List (Listener.Label ι)) : Prop where
  nonzero : ∀ {i now id t}, Listener.Label.transmit i now id t ∈ ls → id ≠ 0
  transmission : ∀ {i i' now now' id t t'}, Listener.Label.transmit i now id t ∈ ls →
    Listener.Label.transmit i' now' id t' ∈ ls → t' = t
  reading : ∀ {i i' now now' id t}, Listener.Label.transmit i now id t ∈ ls →
    Listener.Label.transmit i' now' id t ∈ ls → format = .v1 → t.header.sentTime = none → now' = now

/-- No transmission is taken from the cache by a channel with too much in its output. -/
def Listener.Fits {ι : Type} (c : Listener ι) : Label ι → Prop
  | .transmit i _ id _ =>
    c.payloadCache.map Prod.fst = some id → (c.channels i).output.length ≤ writeBufferMaxSize
  | .transmitInstance _ _ _ | .written _ => True

instance {ι : Type} (c : Listener ι) : (l : Listener.Label ι) → Decidable (c.Fits l)
  | .transmit i _ id _ => inferInstanceAs (Decidable (c.payloadCache.map Prod.fst = some id →
      (c.channels i).output.length ≤ writeBufferMaxSize))
  | .transmitInstance _ _ _ | .written _ => isTrue trivial

/-- Each channel has written what it writes if the cache is disabled. -/
def Listener.RunTransparent {ι : Type} [DecidableEq ι] (format : TransmissionFormat)
    (ls : List (Listener.Label ι)) (c : Listener ι) : Prop :=
  (Lts.exec (Keep.step (Listener.outcome format)) (Listener.initial none) ls).map
    (fun d i => (d.channels i).wire) = some fun i => (c.channels i).wire

/-! ## Steps -/

section Steps

variable {ι : Type} {ls : List (Listener.Label ι)} {l : Listener.Label ι} {c c' d : Listener ι}

theorem adjustHeader_congr {now now' : BitVec 64} {header : Header}
    (h : header.sentTime = none → now' = now) : adjustHeader now' header = adjustHeader now header := by
  obtain ⟨typeName, sentTime, header⟩ := header
  cases sentTime with
  | none => rw [h rfl]
  | some sentTime => rfl

/-- The clock reading is used for a missing sent time only. -/
theorem serializeTransmission_congr {now' : BitVec 64}
    (h : format = .v1 → t.header.sentTime = none → now' = now) :
    serializeTransmission format now' t = serializeTransmission format now t := by
  cases format with
  | v1 =>
    simp only [serializeTransmission, serializeTransmissionV1, transportHeader,
      adjustHeader_congr (h rfl)]
  | v2 => rfl

/-- What the channel of a step finds in the cache is the frame of its transmission, which fits. -/
def Hits (format : TransmissionFormat) (s : Sender) (l : Listener.Label ι) : Prop :=
  ∀ i now id t payload, l = .transmit i now id t → s.payloadCache = some (id, payload) →
    serializeTransmission format now t = .ok payload ∧ s.output.length ≤ writeBufferMaxSize

/-- The cache is what it was, or holds the frame of the transmission. -/
def Fills (format : TransmissionFormat) (s s' : Sender) (l : Listener.Label ι) : Prop :=
  s'.payloadCache = s.payloadCache ∨ ∃ i now id t payload, l = .transmit i now id t ∧
    serializeTransmission format now t = .ok payload ∧ s'.payloadCache = some (id, payload)

/-- **One step of a channel.** -/
theorem outcome_uncached {s : Sender} {o : Except Exception Unit × Sender} (hits : Hits format s l)
    (h : s.outcome format l.sender = some o) :
    (s.withCache none).outcome format l.sender = some (uncached o) ∧ Fills format s o.2 l := by
  cases l with
  | transmitInstance i now t =>
    cases h
    obtain ⟨htransmit, hcache⟩ := transmit_uncached (exec_instance_uncached format now t s)
    refine ⟨congrArg some htransmit, .inl (hcache.trans (payloadCache_of_ignores fun p => ?_))⟩
    exact ignores_serializeInstance.bind fun _ => ignores_pure ()
  | transmit i now id t =>
    cases h
    have hcached : (serializeCachedTransmission format now id t).exec (s.withCache none) =
          uncached ((serializeCachedTransmission format now id t).exec s) ∧
        Filled format now id t s ((serializeCachedTransmission format now id t).exec s).2 := by
      cases hcache : s.payloadCache with
      | none =>
        have hsame : s.withCache none = s := by rw [← hcache, Sender.withCache_self]
        have huncached := exec_instance_uncached format now t s
        rw [hsame] at huncached ⊢
        rw [exec_cached_none hcache]
        exact ⟨huncached, .inl (payloadCache_of_ignores fun p =>
          ignores_serializeInstance.bind fun _ => ignores_pure ())⟩
      | some cache =>
        obtain ⟨cacheId, payload⟩ := cache
        by_cases hid : id = cacheId
        · subst hid
          obtain ⟨hframe, hsize⟩ := hits i now id t payload rfl hcache
          refine ⟨cached_of_hit hcache hframe hsize, .inl ?_⟩
          rw [exec_cached_of_hit hcache]
          rfl
        · exact cached_of_miss hcache hid
    obtain ⟨htransmit, hcache⟩ := transmit_uncached hcached.1
    refine ⟨congrArg some htransmit, ?_⟩
    obtain hsame | ⟨payload, hframe, hfilled⟩ := hcached.2
    · exact .inl (hcache.trans hsame)
    · exact .inr ⟨i, now, id, t, payload, rfl, hframe, hcache.trans hfilled⟩
  | written i =>
    change (if s.asyncWriting then some (Except.ok (), asyncWrite s) else none) = some o at h
    split_ifs at h with hwriting
    cases h
    refine ⟨?_, .inl ?_⟩
    · show (if s.asyncWriting then some (Except.ok (), asyncWrite (s.withCache none)) else none) = _
      rw [if_pos hwriting, asyncWrite_withCache]
      rfl
    · exact payloadCache_asyncWrite

/-- The channels of `d`, without a cache, are those of `c`; the cache of `c` holds the frame of a
transmission of the run, or what it has been constructed with. -/
structure Follows (format : TransmissionFormat) (ls : List (Listener.Label ι)) (c d : Listener ι) :
    Prop where
  payloadCache : d.payloadCache = none
  channels : ∀ i, d.channel i = (c.channel i).withCache none
  filled : ∀ id payload, c.payloadCache = some (id, payload) → id ≠ 0 → ∃ i now t,
    Listener.Label.transmit i now id t ∈ ls ∧ serializeTransmission format now t = .ok payload

theorem Follows.hits (h : Follows format ls c d) (hids : Listener.Identified format ls) (hl : l ∈ ls)
    (hfits : c.Fits l) : Hits format (c.channel l.channel) l := by
  rintro i now id t payload rfl hfound
  have hcache : c.payloadCache = some (id, payload) := hfound
  obtain ⟨i', now', t', hmem, hframe⟩ := h.filled id payload hcache (hids.nonzero hl)
  obtain rfl := hids.transmission hl hmem
  rw [serializeTransmission_congr (hids.reading hl hmem)] at hframe
  exact ⟨hframe, hfits (by rw [hcache]; rfl)⟩

variable [DecidableEq ι]

/-- **One step.** -/
theorem Follows.step (hids : Listener.Identified format ls) (hl : l ∈ ls)
    (hstep : Guarded (ofPartial (Keep.step (Listener.outcome format))) Listener.Fits c l c')
    (h : Follows format ls c d) :
    ∃ d', Keep.step (Listener.outcome format) d l = some d' ∧ Follows format ls c' d' := by
  obtain ⟨hstep, hfits⟩ := hstep
  obtain ⟨⟨r, c'⟩, houtcome, rfl⟩ := Option.map_eq_some_iff.mp hstep
  obtain ⟨⟨r, s⟩, hsender, hc'⟩ := Option.map_eq_some_iff.mp houtcome
  cases hc'
  obtain ⟨huncached, hfills⟩ := outcome_uncached (h.hits hids hl hfits) hsender
  refine ⟨d.setChannel l.channel (s.withCache none), ?_, rfl, fun i => ?_, fun id payload hset hid => ?_⟩
  · rw [Keep.step, Listener.outcome, h.channels, huncached]
    rfl
  · have hi := h.channels i
    rw [Listener.channel, Listener.channel] at hi ⊢
    by_cases hil : i = l.channel
    · subst hil
      simp only [Listener.setChannel, Function.update_self]
      rfl
    · simp only [Listener.setChannel, Function.update_of_ne hil, Sender.withCache_withCache]
      rw [h.payloadCache, Sender.withCache_withCache] at hi
      exact hi
  · have hcache : s.payloadCache = some (id, payload) := hset
    obtain hsame | ⟨i, now, id', t, payload', rfl, hframe, hfilled⟩ := hfills
    · exact h.filled id payload (hsame.symm.trans hcache) hid
    · cases hcache.symm.trans hfilled
      exact ⟨i, now, t, hl, hframe⟩

end Steps

/-! ## Runs -/

/-- **The payload cache is transparent** in the runs in which no transmission is taken from it by a
channel with more than `WriteBufferMaxSize` bytes in its output. -/
theorem run_transparent (format : TransmissionFormat) {ι : Type} [DecidableEq ι]
    {ls : List (Listener.Label ι)} (hids : Listener.Identified format ls) {c : Listener ι}
    (r : Run (Guarded (ofPartial (Keep.step (Listener.outcome format))) Listener.Fits)
      (Listener.initial (some (0, []))) ls c) : Listener.RunTransparent format ls c := by
  have hinitial : Follows format ls (Listener.initial (some (0, [])) : Listener ι)
      (Listener.initial none) :=
    ⟨rfl, fun _ => rfl, fun id payload hcache hid => by cases hcache; exact absurd rfl hid⟩
  obtain ⟨d, hexec, hfollows⟩ := r.simulates (fun _ _ _ _ hl hstep h => h.step hids hl hstep) hinitial
  rw [Listener.RunTransparent, hexec]
  refine congrArg some (funext fun i => ?_)
  have hwire := congrArg Sender.wire (hfollows.channels i)
  exact hwire

def textProperties : PropertyDescriptors := .cons ⟨"text", 1, false⟩ (.fundamental .string) .nil

/-- A text. -/
def text (value : {bytes : List UInt8 // bytes.length < sizeLimit}) : Transmission where
  header := (some ⟨ascii "Text", by decide⟩, none, none, some (2 : BitVec 32), none, none, none, none, ())
  type := ⟨ascii "Text", false, textProperties⟩
  payload := (some value, ())

/-- The same text to two channels, and another text. -/
def sharedRun : List (Listener.Label Bool) :=
  [.transmit true 0 1 (text ⟨ascii "A", by decide⟩), .transmit false 0 1 (text ⟨ascii "A", by decide⟩),
    .written true, .transmit true 0 2 (text ⟨ascii "B", by decide⟩), .written false]

/-- The assumptions of a run whose transmissions are told by their ids. -/
theorem identified_of {ι : Type} {ls : List (Listener.Label ι)} {f : ℕ → Transmission}
    (h : ∀ {i now id t}, Listener.Label.transmit i now id t ∈ ls → now = 0 ∧ id ≠ 0 ∧ t = f id) :
    Listener.Identified format ls := by
  refine ⟨fun hmem => (h hmem).2.1, fun hmem hmem' => ?_, fun hmem hmem' _ _ => ?_⟩
  · rw [(h hmem).2.2, (h hmem').2.2]
  · rw [(h hmem).1, (h hmem').1]

/-- Each channel has written its texts. -/
theorem run_transparent_shared : ∃ c,
    Run (Guarded (ofPartial (Keep.step (Listener.outcome .v2))) Listener.Fits)
      (Listener.initial (some (0, []))) sharedRun c ∧ Listener.RunTransparent .v2 sharedRun c := by
  have hrun : (Lts.exec (fun c l => if decide (Listener.Fits c l) then
      Keep.step (Listener.outcome .v2) c l else none) (Listener.initial (some (0, []))) sharedRun).isSome := by
    decide +kernel
  obtain ⟨c, hc⟩ := Option.isSome_iff_exists.mp hrun
  have r := Lts.run_of_exec_guarded (fun _ _ => of_decide_eq_true) hc
  refine ⟨c, r, run_transparent .v2 (identified_of (f := fun id =>
    if id = 1 then text ⟨ascii "A", by decide⟩ else text ⟨ascii "B", by decide⟩) fun hmem => ?_) r⟩
  simp only [sharedRun, List.mem_cons, reduceCtorEq, Listener.Label.transmit.injEq, List.not_mem_nil,
    false_or, or_false] at hmem
  obtain ⟨-, rfl, rfl, rfl⟩ | ⟨-, rfl, rfl, rfl⟩ | ⟨-, rfl, rfl, rfl⟩ := hmem <;>
    exact ⟨rfl, by decide, rfl⟩

/-! ## A transmission that does not fit -/

section Refused

variable {frame payload wire output writeBuffer : List UInt8}

theorem transmit_exec {m : Transmit Unit} {c c' : Sender} (h : m.Gives c () c') :
    (transmit m).exec c = (.ok (), if c'.asyncWriting then c' else asyncWrite c') :=
  h.bind (gives_change _ c')

/-- A channel with a write in progress. -/
def writing (p : Option (ℕ × List UInt8)) (wire output writeBuffer : List UInt8) : Sender where
  serializer := ⟨0, output⟩
  writeBuffer := writeBuffer
  asyncWriting := true
  payloadCache := p
  wire := wire

/-- The first transmission starts a write. -/
theorem transmit_exec_initial {m : Transmit Unit} {q : Option (ℕ × List UInt8)}
    (h : m.Gives (({} : Sender).withCache p) () ((({} : Sender).withCache q).setOutput frame))
    (hframe : frame ≠ []) :
    (transmit m).exec (({} : Sender).withCache p) = (.ok (), writing q frame [] frame) := by
  rw [transmit_exec h]
  exact congrArg (Prod.mk _) (if_neg hframe)

theorem gives_initial (h : serializeTransmission format now t = .ok frame) :
    (serializeInstanceTransmission format now t).Gives (({} : Sender).withCache p) 0
      ((({} : Sender).withCache p).setOutput frame) := gives_serializeTransmission (Nat.zero_le _) h

theorem transmitInstance_initial (h : serializeTransmission format now t = .ok frame)
    (hframe : frame ≠ []) :
    (transmit do let _ ← serializeInstanceTransmission format now t).exec
      (({} : Sender).withCache p) = (.ok (), writing p frame [] frame) :=
  transmit_exec_initial ((gives_initial h).bind (gives_pure _ _)) hframe

theorem transmit_initial_uncached (h : serializeTransmission format now t = .ok frame)
    (hframe : frame ≠ []) :
    (transmit (serializeCachedTransmission format now id t)).exec (({} : Sender).withCache none) =
      (.ok (), writing none frame [] frame) :=
  transmit_exec_initial ((exec_cached_none rfl).trans ((gives_initial h).bind (gives_pure _ _))) hframe

/-- A transmission that is not in the cache is put there. -/
theorem transmit_initial (h : serializeTransmission format now t = .ok frame) (hframe : frame ≠ [])
    (hid : id ≠ 0) :
    (transmit (serializeCachedTransmission format now id t)).exec
      (({} : Sender).withCache (some (0, []))) = (.ok (), writing (some (id, frame)) frame [] frame) :=
  transmit_exec_initial ((exec_cached_of_miss rfl hid).trans ((gives_initial h).bind (gives_change _ _)))
    hframe

/-- A transmission waits for the end of the write. -/
theorem transmitInstance_writing (h : serializeTransmission format now t = .ok frame)
    (hsize : output.length ≤ writeBufferMaxSize) :
    (transmit do let _ ← serializeInstanceTransmission format now t).exec
      (writing p wire output writeBuffer) = (.ok (), writing p wire (output ++ frame) writeBuffer) := by
  have hgives : (serializeInstanceTransmission format now t).Gives (writing p wire output writeBuffer)
      output.length (writing p wire (output ++ frame) writeBuffer) :=
    gives_serializeTransmission hsize h
  rw [transmit_exec (hgives.bind (gives_pure _ _))]
  rfl

theorem outcome_written (houtput : output ≠ []) :
    (writing p wire output writeBuffer).outcome format .written =
      some (.ok (), writing p (wire ++ output) [] output) := by
  have hwrite : asyncWrite (writing p wire output writeBuffer) = writing p (wire ++ output) [] output :=
    if_neg houtput
  exact congrArg (fun c => some (Except.ok (), c)) hwrite

/-- **A transmission from the cache is not refused.** -/
theorem transmit_hit :
    (transmit (serializeCachedTransmission format now id t)).exec
        (writing (some (id, payload)) wire output writeBuffer) =
      (.ok (), writing (some (id, payload)) wire (output ++ payload) writeBuffer) := by
  have hgives : (serializeCachedTransmission format now id t).Gives
      (writing (some (id, payload)) wire output writeBuffer) ()
      (writing (some (id, payload)) wire (output ++ payload) writeBuffer) := exec_cached_of_hit rfl
  rw [transmit_exec hgives]
  rfl

/-- **Without the cache, it is refused.** -/
theorem transmit_refused (hsize : output.length > writeBufferMaxSize) :
    (transmit (serializeCachedTransmission format now id t)).exec (writing none wire output writeBuffer) =
      (.error (.runtimeError "async write buffer exceeded maximum size"),
        writing none wire output writeBuffer) := by
  have hthrows : (serializeInstanceTransmission format now t).Throws
      (writing none wire output writeBuffer)
      (.runtimeError "async write buffer exceeded maximum size")
      (writing none wire output writeBuffer) := throws_of_size hsize
  have hcached : (serializeCachedTransmission format now id t).Throws
      (writing none wire output writeBuffer)
      (.runtimeError "async write buffer exceeded maximum size")
      (writing none wire output writeBuffer) := (exec_cached_none rfl).trans hthrows.bind
  exact hcached.bind

end Refused

/-! ## A large transmission -/

/-- The frame of a text is longer than the text. -/
theorem text_frame (now : BitVec 64) (value : {bytes : List UInt8 // bytes.length < sizeLimit}) :
    ∃ frame, serializeTransmission .v2 now (text value) = .ok frame ∧ value.1.length < frame.length := by
  obtain ⟨frame, hframe⟩ := exists_frame now (t := text value) rfl ⟨fun _ _ => trivial, trivial⟩
  refine ⟨frame, hframe, ?_⟩
  obtain ⟨header, -, hframe⟩ := bind_eq_ok hframe
  obtain ⟨payload, hpayload, hframe⟩ := bind_eq_ok hframe
  have htext : serializeInstance (text value) = .ok (CborWriter.writeMapSize 1 ++
    (writeTag 2 ⟨"text", 1, false⟩ ++ CborWriter.writeString value.1 ++ [])) := rfl
  cases htext.symm.trans hpayload
  cases hframe
  simp only [CborWriter.writeString, List.length_append, List.length_cons]
  omega

/-- More than the maximum. -/
def overlong : {bytes : List UInt8 // bytes.length < sizeLimit} :=
  ⟨List.replicate (writeBufferMaxSize + 1) 65, by
    rw [List.length_replicate]
    exact Nat.lt_of_le_of_lt (Nat.succ_le_succ le_rfl) (by decide)⟩

section Computed

variable {ι : Type} [DecidableEq ι] {c : Listener ι} {i : ι} {ls : List (Listener.Label ι)} {s : Sender}
  {r : Except Exception Unit} {w : List UInt8}

/-- What channel `i` has written behind the steps `ls`. -/
def wireAfter (format : TransmissionFormat) (i : ι) (c : Listener ι) (ls : List (Listener.Label ι)) :
    Option (List UInt8) :=
  (Lts.exec (Keep.step (Listener.outcome format)) c ls).map fun c => (c.channels i).wire

theorem wireAfter_of_outcome {j : ι} {l : Listener.Label ι}
    (h : (c.channel l.channel).outcome format l.sender = some (r, s))
    (hw : wireAfter format j (c.setChannel l.channel s) ls = some w) :
    wireAfter format j c (l :: ls) = some w := by
  have hstep : Keep.step (Listener.outcome format) c l = some (c.setChannel l.channel s) := by
    rw [Keep.step, Listener.outcome, h]
    rfl
  rw [wireAfter, Lts.exec_cons hstep]
  exact hw

theorem wireAfter_transmitInstance {j : ι}
    (h : (transmit do let _ ← serializeInstanceTransmission format now t).exec (c.channel i) = (r, s))
    (hw : wireAfter format j (c.setChannel i s) ls = some w) :
    wireAfter format j c (.transmitInstance i now t :: ls) = some w :=
  wireAfter_of_outcome (congrArg some h) hw

theorem wireAfter_transmit {j : ι}
    (h : (transmit (serializeCachedTransmission format now id t)).exec (c.channel i) = (r, s))
    (hw : wireAfter format j (c.setChannel i s) ls = some w) :
    wireAfter format j c (.transmit i now id t :: ls) = some w :=
  wireAfter_of_outcome (congrArg some h) hw

end Computed

/-- Two large texts to a channel, then a transmission to another channel and to this one. -/
def refusedRun : List (Listener.Label Bool) :=
  [.transmitInstance true 0 (text overlong), .transmitInstance true 0 (text overlong),
    .transmit false 0 1 (text ⟨[], by decide⟩), .transmit true 0 1 (text ⟨[], by decide⟩), .written true]

section RefusedRun

variable {large small : List UInt8} (hlarge : serializeTransmission .v2 0 (text overlong) = .ok large)
  (hsize : writeBufferMaxSize < large.length)
  (hsmall : serializeTransmission .v2 0 (text ⟨[], by decide⟩) = .ok small) (hne : small ≠ [])

include hlarge hsize hsmall hne

theorem refusedRun_cached :
    wireAfter .v2 true (Listener.initial (some (0, []))) refusedRun = some (large ++ (large ++ small)) := by
  have hlarge' : large ≠ [] := List.ne_nil_of_length_pos (Nat.zero_lt_of_lt hsize)
  refine wireAfter_transmitInstance (transmitInstance_initial hlarge hlarge') ?_
  refine wireAfter_transmitInstance (transmitInstance_writing hlarge (Nat.zero_le _)) ?_
  refine wireAfter_transmit (transmit_initial hsmall hne one_ne_zero) ?_
  refine wireAfter_transmit transmit_hit ?_
  refine wireAfter_of_outcome (outcome_written (by simp [hne])) ?_
  rfl

/-- Without the cache, the last transmission is refused. -/
theorem refusedRun_uncached :
    wireAfter .v2 true (Listener.initial none) refusedRun = some (large ++ large) := by
  have hlarge' : large ≠ [] := List.ne_nil_of_length_pos (Nat.zero_lt_of_lt hsize)
  refine wireAfter_transmitInstance (transmitInstance_initial hlarge hlarge') ?_
  refine wireAfter_transmitInstance (transmitInstance_writing hlarge (Nat.zero_le _)) ?_
  refine wireAfter_transmit (transmit_initial_uncached hsmall hne) ?_
  refine wireAfter_transmit (transmit_refused hsize) ?_
  refine wireAfter_of_outcome (outcome_written hlarge') ?_
  rfl

end RefusedRun

/-- The cache is looked up before the size of the output is checked: a transmission that is refused
without the cache is written. -/
theorem not_run_transparent : ¬∀ (format : TransmissionFormat) (ι : Type) [DecidableEq ι]
    (ls : List (Listener.Label ι)) (_ : Listener.Identified format ls) (c : Listener ι)
    (_ : Run (ofPartial (Keep.step (Listener.outcome format))) (Listener.initial (some (0, []))) ls c),
      Listener.RunTransparent format ls c := by
  intro h
  obtain ⟨large, hlarge, hsize⟩ := text_frame 0 overlong
  obtain ⟨small, hsmall, hne⟩ := text_frame 0 ⟨[], by decide⟩
  have hsize : writeBufferMaxSize < large.length := by
    rw [overlong, List.length_replicate] at hsize
    omega
  have hne : small ≠ [] := List.ne_nil_of_length_pos hne
  obtain ⟨c, hexec, hwire⟩ := Option.map_eq_some_iff.mp (refusedRun_cached hlarge hsize hsmall hne)
  obtain ⟨d, hexec', hwire'⟩ := Option.map_eq_some_iff.mp (refusedRun_uncached hlarge hsize hsmall hne)
  have hids : Listener.Identified .v2 refusedRun :=
    identified_of (f := fun _ => text ⟨[], by decide⟩) fun hmem => by
      simp only [refusedRun, List.mem_cons, reduceCtorEq, Listener.Label.transmit.injEq,
        List.not_mem_nil, false_or, or_false] at hmem
      obtain ⟨-, rfl, rfl, rfl⟩ | ⟨-, rfl, rfl, rfl⟩ := hmem <;> exact ⟨rfl, by decide, rfl⟩
  have htransparent := h .v2 Bool refusedRun hids c (run_of_exec hexec)
  rw [Listener.RunTransparent, hexec'] at htransparent
  have hsame : (d.channels true).wire = (c.channels true).wire :=
    congrFun (Option.some.inj htransparent) true
  rw [hwire, hwire'] at hsame
  have hlength := congrArg List.length hsame
  simp only [List.length_append] at hlength
  have hpos := List.length_pos_iff.mpr hne
  omega

end AsyncStreamChannel

end Dots
